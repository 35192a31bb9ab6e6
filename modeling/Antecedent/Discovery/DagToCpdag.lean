import Antecedent.Discovery.PdagToDag

/-!
# The essential graph

`dag_to_cpdag` draws the skeleton of a DAG, directs its unshielded colliders, and leaves the rest to
Meek's rules.

* **`dagToCpdag_exact`**: the result is the CPDAG of the DAG, or the rounds of the driver ran out.
-/

namespace Antecedent.Discovery

open Graph Machine

variable {dag : Graph.Dag} {g g' : Cpdag} {G : Dag Nat} {a b p q z : Nat}

/-! ## The skeleton -/

theorem addNodes_ok (dag : Graph.Dag) : ∃ g : Cpdag, dag.nodes.foldlM (fun (g : Cpdag) node => do
      let (g, _) ← liftGraph (g.addNode node)
      return g) .empty = .ok g ∧ g.nodes = dag.nodes ∧ ∀ a b, look g.adj a b = none := by
  obtain ⟨g, hok, hn, hl⟩ := Worklist.foldlM_inv (f := fun (g : Cpdag) node => do
      let (g, _) ← liftGraph (g.addNode node)
      return g)
    (I := fun done (g : Cpdag) => g.nodes = done ∧ ∀ a b, look g.adj a b = none)
    dag.nodes [] .empty ⟨rfl, fun a b => Pdag.look_empty a b⟩ (by
      rintro done node rest g (hdone : dag.nodes = _) ⟨hn, hl⟩
      have hmem : node ∈ dag.directed.nodes := by
        show node ∈ dag.nodes
        rw [hdone]
        exact List.mem_append_right _ (.head _)
      have hlen : g.nodes.length ≤ u32Max := by
        have h1 : dag.nodes.length ≤ u32Max + 1 := dag.valid.node_ids
        rw [hdone, List.length_append, List.length_cons] at h1
        rw [hn]
        omega
      obtain ⟨g', hok, hn', hl'⟩ := g.addNode_ok (dag.static node hmem) hlen
      refine ⟨g', ?_, by rw [hn', hn], fun a b => (hl' a b).trans (hl a b)⟩
      simp only [hok, liftGraph, bind, Except.bind]
      rfl)
  exact ⟨g, hok, hn, hl⟩

theorem mem_dagEdges : (a, b) ∈ dagEdges dag ↔ dag.directed.Dir a b := by
  unfold dagEdges
  rw [List.mem_flatMap]
  constructor
  · rintro ⟨u, -, hu⟩
    obtain ⟨v, hv, he⟩ := List.mem_map.mp hu
    cases he
    exact hv
  · intro h
    exact ⟨a, List.mem_range.mpr (dag.valid.in_range a b h).1, List.mem_map.mpr ⟨b, h, rfl⟩⟩

/-- **The edges of a DAG are drawn undirected.** -/
theorem drawSkeleton_ok (hn : g.nodes = dag.nodes) (hl : ∀ a b, look g.adj a b = none) :
    ∃ g' : Cpdag, (dagEdges dag).foldlM (fun (g : Cpdag) e =>
        if !g.hasEdge e.1 e.2 then liftGraph (g.insertUndirected e.1 e.2) else .ok g) g = .ok g' ∧
      g'.nodes = dag.nodes ∧ (∀ a b, Linked g'.adj a b ↔ dag.toDag.Adj a b) ∧
      ∀ a b, Linked g'.adj a b → Und g'.adj a b := by
  obtain ⟨g', hok, hn', hlink, hund⟩ := Worklist.foldlM_inv (f := fun (g : Cpdag) e =>
      if !g.hasEdge e.1 e.2 then liftGraph (g.insertUndirected e.1 e.2) else .ok g)
    (I := fun done (g : Cpdag) => g.nodes = dag.nodes ∧
      (∀ a b, Linked g.adj a b ↔ (a, b) ∈ done ∨ (b, a) ∈ done) ∧
      ∀ a b, Linked g.adj a b → Und g.adj a b)
    (dagEdges dag) [] g ⟨hn, fun a b => by simp [Linked, hl], fun a b h => by simp [Linked, hl] at h⟩
    (by
      rintro done ⟨a, b⟩ rest g (hdone : dagEdges dag = _) ⟨hn, hlink, hund⟩
      have hd : dag.directed.Dir a b :=
        mem_dagEdges.mp (hdone ▸ List.mem_append_right _ (.head _))
      have hne : a ≠ b := by
        rintro rfl
        exact dag.valid.acyclic a (.single hd)
      by_cases hab : Linked g.adj a b
      · refine ⟨g, ?_, hn, fun x y => ?_, hund⟩
        · rw [if_neg]
          rw [g.hasEdge_iff.mpr hab]
          simp
        · have hba := g.stored.linked_symm hab
          simp only [hlink, List.mem_append, List.mem_singleton, Prod.mk.injEq] at hab hba ⊢
          constructor
          · exact fun h => h.imp Or.inl Or.inl
          · rintro ((h | ⟨rfl, rfl⟩) | (h | ⟨rfl, rfl⟩))
            · exact Or.inl h
            · exact hab
            · exact Or.inr h
            · exact hba
      · have hnone : look g.adj a b = none := Option.not_isSome_iff_eq_none.mp hab
        have hcount : g.nodeCount = dag.nodeCount := congrArg List.length hn
        obtain ⟨ha, hb⟩ := dag.valid.in_range a b hd
        obtain ⟨g', hok, hn', m, hu⟩ := g.insertUndirected_ok (hcount ▸ ha) (hcount ▸ hb) hne hnone
        refine ⟨g', ?_, hn'.trans hn, fun x y => ?_, fun x y => ?_⟩
        · rw [if_pos]
          · simp only [hok, liftGraph]
          · rw [Bool.not_eq_true', Bool.eq_false_iff]
            exact fun h => hab (g.hasEdge_iff.mp h)
        · have hxy := hlink x y
          unfold Linked at hxy ⊢
          rw [hu]
          simp only [List.mem_append, List.mem_singleton, Prod.mk.injEq]
          split_ifs with h1 h2
          · simp [h1]
          · simp [h2]
          · rw [hxy]
            tauto
        · unfold Linked Und
          rw [hu]
          split_ifs with h1 h2
          · exact fun _ => ⟨m, rfl⟩
          · exact fun _ => ⟨m, rfl⟩
          · exact hund x y)
  refine ⟨g', hok, hn', fun a b => ?_, hund⟩
  rw [hlink, List.nil_append, mem_dagEdges, mem_dagEdges]
  exact Iff.rfl

/-! ## The unshielded colliders -/

theorem Dag.Unshielded.shared {c : Nat} (h : G.Unshielded a c b) : Shared G a c := fun _ hH =>
  ((hH.collider a c b).mp h).left

/-- **A shared edge is directed** if it is not already. -/
theorem orientIfUndirected_ok (h : Faithful G g) (hs : Shared G p z) :
    ∃ g', orientIfUndirected g p z = .ok g' ∧ Faithful G g' ∧ Grown g g' ∧ Dir g'.adj p z ∧
      ∀ x y, Dir g'.adj x y → Dir g.adj x y ∨ (x = p ∧ y = z) := by
  unfold orientIfUndirected
  by_cases hu : Und g.adj p z
  · obtain ⟨g', hok, ho⟩ := orientUndirected_shared h hu hs
    refine ⟨g', ?_, h.oriented ho hs, grown_oriented ho, (ho.dir p z).mpr (Or.inr ⟨rfl, rfl⟩),
      fun x y => (ho.dir x y).mp⟩
    rw [if_pos (g.isUndirected_edgeBetween.mpr hu), hok]
    rfl
  · rw [if_neg (fun hh => hu (g.isUndirected_edgeBetween.mp hh))]
    rcases h.marks p z (Or.inl hs.edge) with hd | hd | hu'
    · exact ⟨g, rfl, h, Grown.refl g, hd, fun _ _ => Or.inl⟩
    · exact absurd (h.shared z p hd).edge (Dag.asymm hs.edge)
    · exact absurd hu' hu

theorem not_dagHasEdge : (!dagHasEdge dag p q && !dagHasEdge dag q p) = true ↔
    ¬ dag.toDag.Adj p q := by
  have hiff : dagHasEdge dag p q = true ↔ dag.toDag.Adj p q := by
    unfold dagHasEdge
    rw [Bool.or_eq_true, List.contains_iff_mem, List.contains_iff_mem]
    exact Iff.rfl
  have hcomm : dagHasEdge dag q p = dagHasEdge dag p q := by
    unfold dagHasEdge
    rw [Bool.or_comm]
  rw [hcomm, Bool.and_self, Bool.not_eq_true', ← Bool.not_eq_true, hiff]

/-- The colliders at `z` whose outer nodes are `p` and `q`. -/
def PairDone (dag : Graph.Dag) (g : Cpdag) (z : Nat) (pq : Nat × Nat) : Prop :=
  ¬ dag.toDag.Adj pq.1 pq.2 → Dir g.adj pq.1 z ∧ Dir g.adj pq.2 z

/-- What `g'` directs and `g` does not are legs of unshielded colliders. -/
def Legs (dag : Graph.Dag) (g g' : Cpdag) : Prop :=
  ∀ x y, Dir g'.adj x y → Dir g.adj x y ∨ ∃ w, dag.toDag.Unshielded x y w

theorem orientCollidersAt_ok (h : Faithful dag.toDag g) (z : Nat) :
    ∃ g', orientCollidersAt dag g z = .ok g' ∧ Faithful dag.toDag g' ∧ Grown g g' ∧
      (∀ a b, dag.toDag.Unshielded a z b → Dir g'.adj a z) ∧ Legs dag g g' := by
  obtain ⟨g', hok, hf, hg, hlegs, hdone⟩ := foldlM_inv
    (f := fun g pq => if !dagHasEdge dag pq.1 pq.2 && !dagHasEdge dag pq.2 pq.1 then do
      let g ← orientIfUndirected g pq.1 z
      orientIfUndirected g pq.2 z
    else .ok g)
    (J := fun rest g' => Faithful dag.toDag g' ∧ Grown g g' ∧ Legs dag g g' ∧
      (∀ pq ∈ rest, pq ∈ pairsOf (dag.parents z)) ∧
      ∀ pq ∈ pairsOf (dag.parents z), pq ∉ rest → PairDone dag g' z pq) (by
      rintro ⟨p, q⟩ rest g₁ ⟨hf, hg, hlegs, hsub, hdone⟩
      have hin : (p, q) ∈ pairsOf (dag.parents z) := hsub _ (.head _)
      have hsub' : ∀ pq ∈ rest, pq ∈ pairsOf (dag.parents z) := fun pq hpq => hsub pq (.tail _ hpq)
      obtain ⟨hp, hq⟩ := mem_of_mem_pairsOf hin
      have hpz : dag.toDag.edge p z := (dag.valid.mirrored p z).mp hp
      have hqz : dag.toDag.edge q z := (dag.valid.mirrored q z).mp hq
      by_cases hadj : dag.toDag.Adj p q
      · refine ⟨g₁, if_neg (fun hh => not_dagHasEdge.mp hh hadj), hf, hg, hlegs, hsub',
          fun pq hpq hnot => ?_⟩
        by_cases he : pq = (p, q)
        · exact fun hna => absurd (he ▸ hadj) hna
        · exact hdone pq hpq fun hm => (List.mem_cons.mp hm).elim he hnot
      · have hne : p ≠ q := mem_pairsOf_ne (dag.valid.parents_nodup z) hin
        have hu : dag.toDag.Unshielded p z q := ⟨hpz, hqz, hne, hadj⟩
        obtain ⟨g₂, h₂, hf₂, hg₂, hd₂, hl₂⟩ := orientIfUndirected_ok hf (Dag.Unshielded.shared hu)
        obtain ⟨g₃, h₃, hf₃, hg₃, hd₃, hl₃⟩ := orientIfUndirected_ok hf₂
          (Dag.Unshielded.shared hu.symm)
        refine ⟨g₃, ?_, hf₃, (hg.trans hg₂).trans hg₃, fun x y hd => ?_, hsub', fun pq hpq hnot => ?_⟩
        · rw [if_pos (not_dagHasEdge.mpr hadj)]
          simp only [h₂, bind, Except.bind]
          exact h₃
        · rcases hl₃ x y hd with hd | ⟨rfl, rfl⟩
          · rcases hl₂ x y hd with hd | ⟨rfl, rfl⟩
            · exact hlegs x y hd
            · exact Or.inr ⟨q, hu⟩
          · exact Or.inr ⟨p, hu.symm⟩
        · by_cases he : pq = (p, q)
          · exact fun _ => he ▸ ⟨hg₃.dir _ _ hd₂, hd₃⟩
          · have hold := hdone pq hpq fun hm => (List.mem_cons.mp hm).elim he hnot
            exact fun hna => (hold hna).imp (fun hd => hg₃.dir _ _ (hg₂.dir _ _ hd))
              fun hd => hg₃.dir _ _ (hg₂.dir _ _ hd))
    (pairsOf (dag.parents z)) g ⟨h, Grown.refl g, fun _ _ => Or.inl, fun _ => id,
      fun _ hpq hnot => absurd hpq hnot⟩
  refine ⟨g', hok, hf, hg, fun a b hu => ?_, hlegs⟩
  have ha : a ∈ dag.parents z := (dag.valid.mirrored a z).mpr hu.left
  have hb : b ∈ dag.parents z := (dag.valid.mirrored b z).mpr hu.right
  rcases (mem_pairsOf hu.ne).mpr ⟨ha, hb⟩ with hm | hm
  · exact (hdone.2 _ hm List.not_mem_nil hu.not_adj).1
  · exact (hdone.2 _ hm List.not_mem_nil fun hc => hu.not_adj hc.symm).2

/-- **The unshielded colliders are directed**, and nothing that the class does not share. -/
theorem orientColliders_ok (h : Faithful dag.toDag g) :
    ∃ g', (List.range dag.nodeCount).foldlM (orientCollidersAt dag) g = .ok g' ∧
      Faithful dag.toDag g' ∧ Grown g g' ∧ Colliders dag.toDag g' ∧ Legs dag g g' := by
  obtain ⟨g', hok, hf, hg, hlegs, hdone⟩ := foldlM_inv (f := orientCollidersAt dag)
    (J := fun rest g' => Faithful dag.toDag g' ∧ Grown g g' ∧ Legs dag g g' ∧
      ∀ z < dag.nodeCount, z ∉ rest → ∀ a b, dag.toDag.Unshielded a z b → Dir g'.adj a z) (by
      rintro z rest g₁ ⟨hf, hg, hlegs, hdone⟩
      obtain ⟨g₂, h₂, hf₂, hg₂, hz, hl₂⟩ := orientCollidersAt_ok hf z
      refine ⟨g₂, h₂, hf₂, hg.trans hg₂,
        fun x y hd => (hl₂ x y hd).elim (hlegs x y) Or.inr, fun x hx hnot a b hu => ?_⟩
      by_cases he : x = z
      · exact he ▸ hz a b (he ▸ hu)
      · exact hg₂.dir _ _ (hdone x hx (fun hm => (List.mem_cons.mp hm).elim he hnot) a b hu))
    (List.range dag.nodeCount) g ⟨h, Grown.refl g, fun _ _ => Or.inl,
      fun z hz hnot => absurd (List.mem_range.mpr hz) hnot⟩
  refine ⟨g', hok, hf, hg, fun a c b hu => ?_, hlegs⟩
  exact hdone c (dag.valid.in_range a c hu.left).2 List.not_mem_nil a b hu

/-! ## The result -/

/-- The complaint when the rounds of the driver run out. -/
def roundsExhausted : DiscoveryError := budgetExhausted.toDiscovery

theorem dagToCpdag_start (dag : Graph.Dag) : ∃ g : Cpdag, g.nodes = dag.nodes ∧
    Faithful dag.toDag g ∧ Colliders dag.toDag g ∧
    (∀ x y, Dir g.adj x y → ∃ w, dag.toDag.Unshielded x y w) ∧
    dagToCpdag dag = (do
      let ((g, _), _) ← liftOrientation (runOrientationToFixedPoint meekRules g .empty)
      return g) := by
  obtain ⟨g₁, h₁, hn₁, hl₁⟩ := addNodes_ok dag
  obtain ⟨g₂, h₂, hn₂, hlink, hund⟩ := drawSkeleton_ok hn₁ hl₁
  have hnone : ∀ a b, ¬ Dir g₂.adj a b := fun a b hd => (hund a b hd.linked).not_dir hd
  have hf₂ : Faithful dag.toDag g₂ := ⟨hlink, fun a b hd => absurd hd (hnone a b),
    fun a b hab => Or.inr (Or.inr (hund a b ((hlink a b).mpr hab)))⟩
  obtain ⟨g₃, h₃, hf₃, hg₃, hc₃, hlegs⟩ := orientColliders_ok hf₂
  refine ⟨g₃, hg₃.nodes.trans hn₂, hf₃, hc₃,
    fun x y hd => (hlegs x y hd).resolve_left (hnone x y), ?_⟩
  unfold dagToCpdag
  rw [ok_then h₁, ok_then h₂, ok_then h₃]

/-- **`dag_to_cpdag` returns the CPDAG of the DAG**, unless the rounds of the driver run out; for that
more than 4999 edges are needed. -/
theorem dagToCpdag_exact (dag : Graph.Dag) :
    (∃ g, dagToCpdag dag = .ok g ∧ g.nodes = dag.nodes ∧
      IsCpdagOf g dag.toDag dag.nodes.length) ∨
    (dagToCpdag dag = .error roundsExhausted ∧ 4999 < dag.toDag.finite.toFinset.card) := by
  obtain ⟨g, hn, hf, hc, -, hrun⟩ := dagToCpdag_start dag
  rw [hrun]
  have hempty : OrientationState.empty.ambiguousTriples = ∅ := rfl
  rcases meek_exact hempty hf hc with ⟨g', t, hok, -, hn', hcp⟩ | ⟨herr, hlt⟩
  · refine Or.inl ⟨g', ?_, hn'.trans hn, hn ▸ hcp⟩
    rw [hok]
    rfl
  · refine Or.inr ⟨?_, hlt⟩
    rw [herr]
    rfl

end Antecedent.Discovery
