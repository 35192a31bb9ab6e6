import Antecedent.Discovery.MeekRounds

/-!
# Completing a changed graph, both ways

* `extension_iff`: without conflict edges an extension is a DAG with the skeleton, the directed edges
  and the unshielded colliders of the graph.
* **`completion_exact`**: what `pdag_to_dag` and `dag_to_cpdag` return, and that one undoes the other.
* **`dagToCpdag_decides`**: two DAGs have one CPDAG iff they are Markov equivalent.
* **`dagToCpdag_refuses`**: a chain of 10 001 edges below its collider is refused.
-/

namespace Antecedent.Discovery

open Graph

variable {g g' : Cpdag} {G H : Dag Nat} {n : Nat} {a b : Nat}

/-- The skeleton, the directed edges and the unshielded colliders of `g`, and no others. -/
structure ConsistentExtension (g : Cpdag) (H : Dag Nat) : Prop where
  skeleton : ∀ a b, H.Adj a b ↔ Linked g.adj a b
  directed : ∀ a b, Dir g.adj a b → H.edge a b
  colliders : ∀ a c b, H.Unshielded a c b ↔
    Dir g.adj a c ∧ Dir g.adj b c ∧ a ≠ b ∧ ¬ Linked g.adj a b

theorem linked_iff (hc : g.conflictEdgeCount = 0) :
    Linked g.adj a b ↔ Dir g.adj a b ∨ Dir g.adj b a ∨ Und g.adj a b := by
  constructor
  · intro h
    obtain ⟨v, hv⟩ := Option.isSome_iff_exists.mp h
    exact g.directed_or_undirected hc hv
  · rintro (h | h | h)
    · exact h.linked
    · exact g.stored.linked_symm h.linked
    · exact h.linked

theorem extension_iff (hc : g.conflictEdgeCount = 0) : Extension g H ↔ ConsistentExtension g H := by
  constructor
  · intro h
    have hskel : ∀ a b, H.Adj a b ↔ Linked g.adj a b := fun a b => (h.adj a b).trans (linked_iff hc).symm
    refine ⟨hskel, h.dir, fun a c b => ⟨fun hu => ?_, fun ⟨hac, hbc, hne, hab⟩ => ?_⟩⟩
    · have hab : ¬ Linked g.adj a b := fun hl => hu.not_adj ((hskel a b).mpr hl)
      exact ⟨h.collider a c b hu.left hu.right hu.ne hab, h.collider b c a hu.right hu.left hu.ne.symm
        fun hl => hab (g.stored.linked_symm hl), hu.ne, hab⟩
    · exact ⟨h.dir a c hac, h.dir b c hbc, hne, fun hadj => hab ((hskel a b).mp hadj)⟩
  · intro h
    refine ⟨fun a b => (h.skeleton a b).trans (linked_iff hc), h.directed,
      fun a c b hac hbc hne hab => ?_⟩
    exact ((h.colliders a c b).mp ⟨hac, hbc, hne, fun hadj => hab ((h.skeleton a b).mp hadj)⟩).1

theorem compelled_congr (h : G.Similar H) : G.Compelled a b ↔ H.Compelled a b := by
  rw [compelled_iff_shared, compelled_iff_shared]
  exact ⟨fun hs K hK => hs K (h.trans hK), fun hs K hK => hs K (h.symm.trans hK)⟩

theorem IsCpdagOf.linked_iff (h : IsCpdagOf g G n) :
    Linked g.adj a b ↔ Dir g.adj a b ∨ Dir g.adj b a ∨ Und g.adj a b := by
  have hadj : Linked g.adj a b ↔ G.Adj a b := h.adj a b
  rw [hadj, h.dir, h.dir, h.und]
  constructor
  · intro hab
    by_cases h1 : G.Compelled a b
    · exact Or.inl h1
    · by_cases h2 : G.Compelled b a
      · exact Or.inr (Or.inl h2)
      · exact Or.inr (Or.inr ⟨hab, h1, h2⟩)
  · rintro (hd | hd | hu)
    · exact Or.inl (compelled_iff_shared.mp hd).edge
    · exact Or.inr (compelled_iff_shared.mp hd).edge
    · exact hu.1

/-- **A DAG is an extension of its own CPDAG.** -/
theorem isCpdagOf_extension (h : IsCpdagOf g G n) : Extension g G where
  adj a b := (h.adj a b).symm.trans h.linked_iff
  dir a b hd := (compelled_iff_shared.mp ((h.dir a b).mp hd)).edge
  collider a c b hac hbc hne hab := (h.dir a c).mpr (compelled_iff_shared.mpr
    (Dag.Unshielded.shared ⟨hac, hbc, hne, fun hadj => hab ((h.adj a b).mpr hadj)⟩))

theorem IsCpdagOf.similar (h : IsCpdagOf g G n) (hH : Extension g H) : G.Similar H :=
  Dag.Extends.similar (fun _ _ => h.linked_iff) (isCpdagOf_extension h) hH

/-- The same nodes and the same edges. -/
structure SameGraph (g g' : Cpdag) : Prop where
  nodes : g.nodes = g'.nodes
  linked : ∀ a b, Linked g.adj a b ↔ Linked g'.adj a b
  dir : ∀ a b, Dir g.adj a b ↔ Dir g'.adj a b
  und : ∀ a b, Und g.adj a b ↔ Und g'.adj a b

theorem IsCpdagOf.unique (h : IsCpdagOf g G n) (h' : IsCpdagOf g' H n) (hs : G.Similar H)
    (hn : g.nodes = g'.nodes) : SameGraph g g' where
  nodes := hn
  linked a b := (h.adj a b).trans ((hs.adj a b).trans (h'.adj a b).symm)
  dir a b := (h.dir a b).trans ((compelled_congr hs).trans (h'.dir a b).symm)
  und a b := by
    rw [h.und, h'.und, hs.adj, compelled_congr hs, compelled_congr hs]

/-- What `pdag_to_dag` returns for a graph without conflict edges. -/
structure ExtendsExactly (g : Cpdag) : Prop where
  returns : (∃ dag, pdagToDag g = .ok dag) ↔ ∃ H, ConsistentExtension g H
  extension : ∀ dag, pdagToDag g = .ok dag → dag.nodes = g.nodes ∧ ConsistentExtension g dag.toDag

/-- What `dag_to_cpdag` returns for a DAG. -/
structure CompletesExactly (dag : Graph.Dag) : Prop where
  /-- Only the rounds can run out, over more than 4999 edges. -/
  returns : (∃ g, dagToCpdag dag = .ok g) ∨
    (dagToCpdag dag = .error roundsExhausted ∧ 4999 < dag.toDag.finite.toFinset.card)
  /-- The directed edges are those every Markov equivalent DAG directs so. -/
  cpdag : ∀ g, dagToCpdag dag = .ok g → g.nodes = dag.nodes ∧
    IsCpdagOf g dag.toDag dag.nodes.length
  /-- Extended and completed again it is the same graph. -/
  again : ∀ g, dagToCpdag dag = .ok g → ∃ dag', pdagToDag g = .ok dag' ∧
    ∀ g', dagToCpdag dag' = .ok g' → SameGraph g' g

theorem extendsExactly (hc : g.conflictEdgeCount = 0) : ExtendsExactly g := by
  refine ⟨⟨?_, ?_⟩, fun dag hdag => ?_⟩
  · rintro ⟨dag, hdag⟩
    rcases pdagToDag_exact g with ⟨dag', -, -, hext⟩ | ⟨herr, -⟩
    · exact ⟨dag'.toDag, (extension_iff hc).mp hext⟩
    · rw [herr] at hdag
      cases hdag
  · rintro ⟨H, hH⟩
    rcases pdagToDag_exact g with ⟨dag, hdag, -⟩ | ⟨-, hnone⟩
    · exact ⟨dag, hdag⟩
    · exact absurd ⟨H, (extension_iff hc).mpr hH⟩ hnone
  · rcases pdagToDag_exact g with ⟨dag', hdag', hn, hext⟩ | ⟨herr, -⟩
    · obtain rfl := Except.ok.inj (hdag'.symm.trans hdag)
      exact ⟨hn, (extension_iff hc).mp hext⟩
    · rw [herr] at hdag
      cases hdag

theorem dagToCpdag_of_ok {dag : Graph.Dag} (h : dagToCpdag dag = .ok g) :
    g.nodes = dag.nodes ∧ IsCpdagOf g dag.toDag dag.nodes.length := by
  rcases dagToCpdag_exact dag with ⟨g', hok, hn, hcp⟩ | ⟨herr, -⟩
  · obtain rfl := Except.ok.inj (hok.symm.trans h)
    exact ⟨hn, hcp⟩
  · rw [herr] at h
    cases h

theorem completesExactly (dag : Graph.Dag) : CompletesExactly dag := by
  refine ⟨?_, fun g => dagToCpdag_of_ok, fun g hg => ?_⟩
  · exact (dagToCpdag_exact dag).imp_left fun ⟨g, hok, _⟩ => ⟨g, hok⟩
  · obtain ⟨hn, hcp⟩ := dagToCpdag_of_ok hg
    rcases pdagToDag_exact g with ⟨dag', hdag', hn', hext⟩ | ⟨-, hnone⟩
    · refine ⟨dag', hdag', fun g' hg' => ?_⟩
      obtain ⟨hn₂, hcp₂⟩ := dagToCpdag_of_ok hg'
      have hnodes : dag'.nodes = dag.nodes := hn'.trans hn
      rw [hnodes] at hcp₂
      exact hcp₂.unique hcp (hcp.similar hext).symm (hn₂.trans hn')
    · exact absurd ⟨_, isCpdagOf_extension hcp⟩ hnone

/-- **`pdag_to_dag` returns a consistent extension iff there is one, `dag_to_cpdag` the CPDAG of its
class unless the rounds run out**, and extending a CPDAG and completing it again gives it back. -/
theorem completion_exact : (∀ g : Cpdag, g.conflictEdgeCount = 0 → ExtendsExactly g) ∧
    ∀ dag : Graph.Dag, CompletesExactly dag :=
  ⟨fun _ => extendsExactly, completesExactly⟩

/-- `0 — 1 — 2`: extended to a DAG, which is completed. -/
theorem completion_exact_path : ∃ g : Cpdag, (Pdag.empty.addNode (.static 0) >>= fun g =>
      g.1.addNode (.static 1) >>= fun g => g.1.addNode (.static 2) >>= fun g =>
      g.1.insertUndirected 0 1 >>= fun g => g.insertUndirected 1 2) = .ok g ∧ ExtendsExactly g ∧
    ∃ dag, pdagToDag g = .ok dag ∧ CompletesExactly dag := by
  obtain ⟨g, hg, hc, dag, hdag⟩ : ∃ g : Cpdag, (Pdag.empty.addNode (.static 0) >>= fun g =>
      g.1.addNode (.static 1) >>= fun g => g.1.addNode (.static 2) >>= fun g =>
      g.1.insertUndirected 0 1 >>= fun g => g.insertUndirected 1 2) = .ok g ∧
      g.conflictEdgeCount = 0 ∧ ∃ dag, pdagToDag g = .ok dag := ⟨_, rfl, rfl, _, rfl⟩
  exact ⟨g, hg, completion_exact.1 g hc, dag, hdag, completion_exact.2 dag⟩

/-- **A chain of 10 001 edges below its collider is refused**: not every DAG is completed. -/
theorem dagToCpdag_refuses : ∃ dag, chainDag 10001 = .ok dag ∧
    dagToCpdag dag = .error roundsExhausted ∧
    ¬ ∃ g, dagToCpdag dag = .ok g ∧ IsCpdagOf g dag.toDag dag.nodes.length := by
  obtain ⟨dag, hok, -, hchain⟩ := @chainDag_ok 10001 (by simp [u32Max])
  have herr := chain_exhausts (by simp [maxOrientationRounds]) hchain
  refine ⟨dag, hok, herr, ?_⟩
  rintro ⟨g, hg, -⟩
  rw [herr] at hg
  cases hg

/-- **`dag_to_cpdag` decides Markov equivalence**: two DAGs have one CPDAG iff they have the same
nodes and the same separations, where neither has more edges than the rounds direct. -/
theorem dagToCpdag_decides (dag dag' : Graph.Dag) :
    (∃ g g', dagToCpdag dag = .ok g ∧ dagToCpdag dag' = .ok g' ∧
      (SameGraph g g' ↔ dag.nodes = dag'.nodes ∧ dag.toDag.MarkovEquivalent dag'.toDag)) ∨
    4999 < dag.toDag.finite.toFinset.card ∨ 4999 < dag'.toDag.finite.toFinset.card := by
  rcases dagToCpdag_exact dag with ⟨g, hg, hn, hcp⟩ | ⟨-, hlt⟩
  · rcases dagToCpdag_exact dag' with ⟨g', hg', hn', hcp'⟩ | ⟨-, hlt⟩
    · refine Or.inl ⟨g, g', hg, hg', fun hs => ⟨by rw [← hn, hs.nodes, hn'], ?_⟩,
        fun ⟨hnodes, heq⟩ => ?_⟩
      · -- the second DAG is an extension of the shared graph
        have hext : Extension g dag'.toDag :=
          ⟨fun a b => by rw [(isCpdagOf_extension hcp').adj, hs.dir, hs.dir, hs.und],
            fun a b hd => (isCpdagOf_extension hcp').dir a b ((hs.dir a b).mp hd),
            fun a c b hac hbc hne hab => (hs.dir a c).mpr ((isCpdagOf_extension hcp').collider a c b hac hbc hne
              fun hlink => hab ((hs.linked a b).mpr hlink))⟩
        exact (hcp.similar hext).markovEquivalent
      · rw [← hnodes] at hcp'
        exact hcp.unique hcp' (Dag.Similar.of_markovEquivalent heq) (by rw [hn, hn', hnodes])
    · exact Or.inr (Or.inr hlt)
  · exact Or.inr (Or.inl hlt)

end Antecedent.Discovery
