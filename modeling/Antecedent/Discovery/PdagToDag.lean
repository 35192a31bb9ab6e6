import Antecedent.Discovery.GesExtension

/-!
# The consistent extension

`pdag_to_dag` takes out a node that passes its test while one is left. A graph that has an extension
always has such a node, whatever was taken out before, so the choice never has to be undone.

* **`pdagToDag_exact`**: the result is an extension, and there is none where it fails.
-/

namespace Antecedent.Discovery

open Graph Machine

variable {g work : Cpdag} {dag : Graph.Dag} {rem : List Nat} {a b c x y n : Nat}

/-! ## Taking one node out -/

section

variable (h : SinkInv g work dag rem)

include h

/-- At the start of a turn nothing has been directed. -/
theorem SinkInv.into :
    IntoInv work work dag rem x ((work.undirectedNeighbors x).insertionSort (· ≤ ·)) := by
  have hmem : ∀ v, v ∈ (work.undirectedNeighbors x).insertionSort (· ≤ ·) ↔ Und work.adj x v :=
    fun v => by rw [List.mem_insertionSort, work.mem_undirectedNeighbors]
  refine ⟨rfl, h.count.trans h.nodes.symm, h.same, fun _ _ => Iff.rfl, fun a b => ?_, fun a b => ?_,
    fun u hu => ?_, ?_⟩
  · refine (or_iff_left ?_).symm
    rintro ⟨hu, -, hnot⟩
    exact hnot ((hmem a).mpr (work.stored.und_symm hu))
  · refine (and_iff_left_of_imp fun hu => ⟨?_, ?_⟩).symm
    · rintro rfl
      exact (hmem a).mpr (work.stored.und_symm hu)
    · rintro rfl
      exact (hmem b).mpr hu
  · have hux := work.stored.und_symm ((hmem u).mp hu)
    exact ⟨hux, ((h.und u x).mp hux).2.1⟩
  · exact (List.perm_insertionSort _ _).nodup_iff.mpr (work.stored.nodup_undirectedNeighbors x)

theorem IntoInv.takenOut {work' : Cpdag} {dag' : Graph.Dag} (hn : rem.Nodup)
    (hs : Dag.Sinkable (Linked work.adj) (Dir work.adj) (Und work.adj) {v | v ∈ rem} x)
    (hi : IntoInv work work' dag' rem x []) : SinkInv g work' dag' (rem.erase x) := by
  have hdir : ∀ a b, Dir work'.adj a b ↔ Dir work.adj a b ∨ (Und work.adj a x ∧ b = x) := fun a b =>
    (hi.dir a b).trans (or_congr_right (by simp))
  have hund : ∀ a b, Und work'.adj a b ↔ Und work.adj a b ∧ b ≠ x ∧ a ≠ x := fun a b =>
    (hi.und a b).trans (and_congr_right fun _ => by simp)
  have hmem : ∀ {v}, v ∈ rem.erase x ↔ v ≠ x ∧ v ∈ rem := hn.mem_erase_iff
  have hin : ∀ {u}, Und work.adj u x → u ∈ rem := fun {u} hu => ((h.und u x).mp hu).2.1
  refine ⟨hi.nodes.trans h.nodes, hi.count.trans h.nodes, hi.same,
    fun a b => (hi.linked a b).trans (h.linked a b),
    fun a b hd => (hdir a b).mpr (Or.inl (h.mono a b hd)), fun a b => ?_, fun a b ha hb hd => ?_,
    fun a b => ?_, fun a b hd hb => ?_, fun a c b hc hac hbc hne hab => ?_⟩
  · rw [← h.edges, hdir, hdir, hund]
    constructor
    · rintro ((hd | ⟨hu, rfl⟩) | (hd | ⟨hu, rfl⟩) | ⟨hu, -, -⟩)
      · exact Or.inl hd
      · exact Or.inr (Or.inr hu)
      · exact Or.inr (Or.inl hd)
      · exact Or.inr (Or.inr (work.stored.und_symm hu))
      · exact Or.inr (Or.inr hu)
    · rintro (hd | hd | hu)
      · exact Or.inl (Or.inl hd)
      · exact Or.inr (Or.inl (Or.inl hd))
      · by_cases hbx : b = x
        · exact Or.inl (Or.inr ⟨hbx ▸ hu, hbx⟩)
        · by_cases hax : a = x
          · exact Or.inr (Or.inl (Or.inr ⟨hax ▸ work.stored.und_symm hu, hax⟩))
          · exact Or.inr (Or.inr ⟨hu, hbx, hax⟩)
  · obtain ⟨hax, ha⟩ := hmem.mp ha
    obtain ⟨hbx, hb⟩ := hmem.mp hb
    exact h.dir a b ha hb (((hdir a b).mp hd).resolve_right fun hu => hbx hu.2)
  · rw [hund, h.und, hmem, hmem]
    tauto
  · obtain ⟨hbx, hbr⟩ := hmem.mp hb
    have hd' := ((hdir a b).mp hd).resolve_right fun hu => hbx hu.2
    refine hmem.mpr ⟨?_, h.down a b hd' hbr⟩
    rintro rfl
    exact hs.last b hbr hd'
  · by_cases hcx : c = x
    · subst hcx
      have hbrem : b ∈ rem ∧ (Dir work.adj b c ∨ Und work.adj b c) := by
        rcases (hdir b c).mp hbc with hd | ⟨hu, -⟩
        · exact ⟨h.down b c hd hs.mem, Or.inl hd⟩
        · exact ⟨hin hu, Or.inr hu⟩
      rcases (hdir a c).mp hac with hd | ⟨hu, -⟩
      · exact h.dir a c (h.down a c hd hs.mem) hs.mem hd
      · -- the test has seen that `a` is adjacent to `b`
        exact absurd ((h.linked a b).mp (hs.clique a (hin hu) hu b hbrem.1 hbrem.2 hne.symm)) hab
    · have hcr : c ∉ rem := fun hr => hc (hmem.mpr ⟨hcx, hr⟩)
      have hac' := ((hdir a c).mp hac).resolve_right fun hu => hcx hu.2
      have hbc' := ((hdir b c).mp hbc).resolve_right fun hu => hcx hu.2
      exact h.collider a c b hcr hac' hbc' hne hab

/-- **Taking one node out**: its edges are directed into it, none of them refused. -/
theorem SinkInv.takeOut (hn : rem.Nodup)
    (hs : Dag.Sinkable (Linked work.adj) (Dir work.adj) (Und work.adj) {v | v ∈ rem} x) :
    ∃ s, ((work.undirectedNeighbors x).insertionSort (· ≤ ·)).foldlM (sinkEdge rem x) (work, dag) =
      .ok s ∧ SinkInv g s.1 s.2 (rem.erase x) := by
  obtain ⟨s, hok, hi⟩ := foldlM_inv (f := sinkEdge rem x)
    (J := fun todo s => IntoInv work s.1 s.2 rem x todo)
    (fun u todo s hs' => sinkEdge_step h.down hs.last u todo s hs') _ (work, dag) h.into
  exact ⟨s, hok, hi.takenOut h hn hs⟩

/-! ## The loop -/

end

/-- The complaint of the loop when no node passes. -/
def noExtension : DiscoveryError := .unsupported "GES PDAG has no consistent DAG extension"

/-- **The loop directs every edge**, or stops at nodes none of which passes the test. -/
theorem sinkLoop_ends : ∀ {fuel : Nat} {work : Cpdag} {dag : Graph.Dag} {rem : List Nat},
    SinkInv g work dag rem → rem.Nodup → rem.length ≤ fuel →
    (∃ work' dag', sinkLoop fuel work dag rem = .ok dag' ∧ SinkInv g work' dag' []) ∨
    (sinkLoop fuel work dag rem = .error noExtension ∧ ∃ R : List Nat, R ≠ [] ∧
      ∀ x, ¬ Dag.Sinkable (Linked g.adj) (Dir g.adj) (Und g.adj) {v | v ∈ R} x)
  | 0, work, dag, rem, h, _, hf => by
    obtain rfl : rem = [] := List.eq_nil_of_length_eq_zero (Nat.le_zero.mp hf)
    exact Or.inl ⟨work, dag, rfl, h⟩
  | fuel + 1, work, dag, rem, h, hn, hf => by
    unfold sinkLoop
    by_cases hempty : rem = []
    · subst hempty
      exact Or.inl ⟨work, dag, rfl, h⟩
    · rw [if_neg (fun he => hempty (List.isEmpty_iff.mp he))]
      cases hfind : rem.find? (isSink work rem) with
      | none =>
        refine Or.inr ⟨rfl, rem, hempty, fun x hx => ?_⟩
        have hnot := List.find?_eq_none.mp hfind x hx.mem
        exact hnot ((isSink_iff hx.mem).mpr (h.sinkable_iff.mpr hx))
      | some x =>
        have hx : x ∈ rem := List.mem_of_find?_eq_some hfind
        obtain ⟨s, hok, hs⟩ := h.takeOut hn ((isSink_iff hx).mp (List.find?_some hfind))
        have hlen : (rem.erase x).length ≤ fuel := by
          rw [List.length_erase_of_mem hx]
          omega
        simp only [bind, Except.bind, hok]
        exact sinkLoop_ends hs (hn.erase x) hlen

/-! ## The start -/

/-- The loop over the nodes is that of the skeleton. -/
theorem foldlM_addNode {dag' : Graph.Dag} : ∀ {l : List NodeRef} {dag : Graph.Dag},
    l.foldlM (fun dag node => (DagTarget.addNode dag node).map Prod.fst) dag = .ok dag' →
      l.foldlM (fun (dag : Graph.Dag) node => do
        let (dag, _) ← liftGraph (dag.addNode node)
        return dag) dag = .ok dag' := by
  intro l
  induction l with
  | nil =>
    intro d h
    exact congrArg _ (Except.ok.inj h)
  | cons node l ih =>
    intro d h
    rw [List.foldlM_cons] at h ⊢
    cases ha : d.addNode node with
    | error e =>
      have ha' : DagTarget.addNode d node = .error e := ha
      rw [ha'] at h
      cases h
    | ok r =>
      have ha' : DagTarget.addNode d node = .ok r := ha
      rw [ha'] at h
      exact ih h

/-- The loop over the edges is that of the skeleton, which refuses none of them. -/
theorem foldl_insertEdge {es : List MarkedEdge} {d₀ : Graph.Dag}
    (h : es.foldlM Pdag.insertEdge d₀ = .ok dag) :
    es.foldl (fun dag e => match e.parentChild with
      | some (src, dst) => match dag.insertDirected src dst with
        | .ok dag => dag
        | .error _ => dag
      | none => dag) d₀ = dag := by
  rw [← foldl_of_foldlM h]
  refine List.foldl_ext _ _ _ fun d e _ => ?_
  unfold Pdag.insertEdge
  cases e.parentChild with
  | none => rfl
  | some q =>
    obtain ⟨src, dst⟩ := q
    cases hi : d.insertDirected src dst with
    | ok d' =>
      have hi' : DagTarget.insertDirected d src dst = .ok d' := hi
      simp only [hi, hi']
    | error e =>
      have hi' : DagTarget.insertDirected d src dst = .error e := hi
      simp only [hi, hi']

theorem pdagToDag_start (g : Cpdag) : ∃ dag, SinkInv g g dag (List.range g.nodeCount) ∧
    pdagToDag g = sinkLoop g.nodeCount g dag (List.range g.nodeCount) := by
  obtain ⟨dag, hok, hn, hd⟩ := g.toDirectedSkeleton_ok (D := Graph.Dag) g.admitted
  obtain ⟨d₀, h0, -, -⟩ := g.addNodes_ok (D := Graph.Dag) g.admitted
  have hedges : g.edges.foldlM Pdag.insertEdge d₀ = .ok dag := by
    unfold Pdag.toDirectedSkeleton at hok
    rw [h0] at hok
    exact hok
  have hlt : ∀ {a b}, Linked g.adj a b → a ∈ List.range g.nodeCount ∧ b ∈ List.range g.nodeCount := by
    intro a b hl
    obtain ⟨v, hv⟩ := Option.isSome_iff_exists.mp hl
    exact (g.stored.lt_of_look hv).imp List.mem_range.mpr List.mem_range.mpr
  refine ⟨dag, ⟨rfl, hn, hd, fun _ _ => Iff.rfl, fun _ _ => id, fun _ _ => Iff.rfl,
    fun _ _ _ _ => id, fun a b => (and_iff_left_of_imp fun hu => hlt hu.linked).symm,
    fun a b hdir _ => (hlt hdir.linked).1, fun a c b hc hac _ _ _ => absurd (hlt hac.linked).2 hc⟩, ?_⟩
  unfold pdagToDag
  rw [show g.nodes.foldlM _ Graph.Dag.empty = _ from foldlM_addNode h0]
  exact congrArg (sinkLoop g.nodeCount g · (List.range g.nodeCount)) (foldl_insertEdge hedges)

/-! ## The result -/

/-- **`pdag_to_dag` returns an extension iff there is one**, and otherwise says so. -/
theorem pdagToDag_exact (g : Cpdag) :
    (∃ dag, pdagToDag g = .ok dag ∧ dag.nodes = g.nodes ∧ Extension g dag.toDag) ∨
      (pdagToDag g = .error noExtension ∧ ¬ ∃ H, Extension g H) := by
  obtain ⟨dag, hinv, hrun⟩ := pdagToDag_start g
  rw [hrun]
  rcases sinkLoop_ends hinv List.nodup_range (by rw [List.length_range]) with
    ⟨work', dag', hok, hend⟩ | ⟨herr, R, hR, hnone⟩
  · refine Or.inl ⟨dag', hok, hend.count, fun a b => ?_, fun a b hd => ?_, fun a c b hac hbc => ?_⟩
    · rw [← hend.edges]
      have hu : ¬ Und work'.adj a b := fun hu => absurd ((hend.und a b).mp hu).2.1 List.not_mem_nil
      exact (or_congr (hend.same a b) (hend.same b a)).trans (or_congr_right (or_iff_left hu)).symm
    · exact (hend.same a b).mpr (hend.mono a b hd)
    · exact hend.collider a c b List.not_mem_nil ((hend.same a c).mp hac) ((hend.same b c).mp hbc)
  · refine Or.inr ⟨herr, ?_⟩
    rintro ⟨H, hH⟩
    obtain ⟨v, hv⟩ := List.exists_mem_of_ne_nil R hR
    obtain ⟨x, hx⟩ := hH.exists_sink (fun _ _ hu => hu.not_dir) (R := {v | v ∈ R}) ⟨v, hv⟩
    exact hnone x hx

end Antecedent.Discovery
