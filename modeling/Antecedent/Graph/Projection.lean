import Antecedent.Graph.Separation
import Antecedent.Mixed.Projection

/-!
# Latent projection: `latent_project`

Model of `latent_project` (`projection.rs:23-105`) and `observed_reachable_via_latents`
(`projection.rs:109-132`).

* `latentProject_spec`: on a duplicate-free list of nodes of the DAG the projection succeeds, keeps
  the labels in order, and its edges are those of the projection `latent` of the library, positions
  for nodes. The refusal of a cycle is out of reach: a cycle of projected edges is a directed cycle
  of the DAG.
-/

namespace Antecedent.Graph

open Mixed Relation
open Worklist

/-- `types.rs:25-28`. -/
def tryFromUsize (i : Nat) : Except GraphError Nat :=
  if i ≤ u32Max then .ok i else .error .tooManyNodes

/-- `observed_reachable_via_latents` (`projection.rs:109-132`): the nodes visited from `start`
through latent ones, then the positions of their observed children. -/
def observedReachableViaLatents (dag : Dag) (start : Nat) (observed : Finset Nat)
    (map : Nat → Option Nat) : Except GraphError (Finset Nat) :=
  let visited := closure (fun n => (dag.children n).filter (· ∉ observed)) (dag.nodeCount + 1) [start]
  (((List.range dag.nodeCount).filter (· ∈ visited)).flatMap fun n =>
      (dag.children n).filter (· ∈ observed)).foldlM
    (fun out c => match map c with
      | some pos => .ok (insert pos out)
      | none => .error (.unknownNode c)) ∅

/-- The body of the loop over the observed nodes (`projection.rs:31-39`). -/
def projectNode (dag : Dag) (acc : Finset Nat × Admg) (o : Nat) :
    Except GraphError (Finset Nat × Admg) := do
  if o ∈ acc.1 then
    throw (.invalidEndpoints "latent projection observed nodes must be unique")
  match dag.nodes[o]? with
  | some node => do
    let (admg, _) ← acc.2.addNode node
    return (insert o acc.1, admg)
  | none => throw (.unknownNode o)

/-- The body of the inner loop over targets (`projection.rs:52-73`). -/
def projectDirected (i : Nat) (reached : Finset Nat) (admg : Admg) (j : Nat) :
    Except GraphError Admg := do
  if i = j then return admg
  let j ← tryFromUsize j
  if j ∉ reached then return admg
  let src ← tryFromUsize i
  let dst ← tryFromUsize j
  match admg.insertDirected src dst with
  | .ok g => return g
  | .error (.duplicateEdge _ _) => return admg
  | .error (.cycle _ _) => throw (.invalidEndpoints "latent projection directed edge conflicts with an existing path (cycle); refuse incomplete projection")
  | .error e => throw e

/-- The body of the loop over sources (`projection.rs:50-74`). -/
def projectSource (dag : Dag) (k : Nat) (observed : Finset Nat) (map : Nat → Option Nat)
    (admg : Admg) (iu : Nat × Nat) : Except GraphError Admg := do
  let reached ← observedReachableViaLatents dag iu.2 observed map
  (List.range k).foldlM (projectDirected iu.1 reached) admg

/-- The body of the loop over latents (`projection.rs:81-90`): the reached positions are OR-ed into
the row of each of them. -/
def joinLatent (dag : Dag) (k : Nat) (observed : Finset Nat) (map : Nat → Option Nat)
    (joined : List (Finset Nat)) (l : Nat) : Except GraphError (List (Finset Nat)) := do
  let l ← tryFromUsize l
  if l ∈ observed then return joined
  let reached ← observedReachableViaLatents dag l observed map
  return ((List.range k).filter (· ∈ reached)).foldl (fun rows m => rows.modify m (· ∪ reached))
    joined

/-- The body of the loop over pairs of positions (`projection.rs:92-102`). -/
def projectBidirected (joined : List (Finset Nat)) (admg : Admg) (ij : Nat × Nat) :
    Except GraphError Admg := do
  let j ← tryFromUsize ij.2
  if j ∉ joined.getD ij.1 ∅ then return admg
  let a ← tryFromUsize ij.1
  let b ← tryFromUsize ij.2
  match admg.insertBidirected a b with
  | .ok g => return g
  | .error (.cycle _ _) => return admg
  | .error (.duplicateEdge _ _) => return admg
  | .error e => throw e

/-- The table `map` (`projection.rs:41-44`): read when no node occurs twice in `observed`, so the
last position written for a node is its first. -/
def positionIn (observed : List Nat) (v : Nat) : Option Nat :=
  if v ∈ observed then some (observed.idxOf v) else none

/-- `projection.rs:23-105`. -/
def latentProject (dag : Dag) (observed : List Nat) : Except GraphError Admg := do
  observed.forM dag.validateNode
  let (observedSet, admg) ← observed.foldlM (projectNode dag) (∅, Admg.empty)
  let k := observed.length
  (List.range k).forM fun i => (tryFromUsize i).map fun _ => ()
  let map : Nat → Option Nat := positionIn observed
  let admg ← ((List.range k).zip observed).foldlM (projectSource dag k observedSet map) admg
  let joined ← (List.range dag.nodeCount).foldlM (joinLatent dag k observedSet map)
    (List.replicate k ∅)
  (upperPairs k).foldlM (projectBidirected joined) admg

/-! ## The positions -/

/-- A duplicate-free list of nodes of the DAG. -/
structure ObservedList (dag : Dag) (observed : List Nat) : Prop where
  in_range : ∀ o ∈ observed, o < dag.nodeCount
  nodup : observed.Nodup

/-- The node at position `i`. -/
def spot (observed : List Nat) (i : Nat) : Nat := observed.getD i 0

section Positions

variable {dag : Dag} {observed : List Nat}

variable {i v j : Nat} {labels : List (Option NodeRef)} {D B : Nat → Nat → Prop} {g : Admg}

theorem spot_mem (hi : i < observed.length) : spot observed i ∈ observed := by
  unfold spot
  rw [List.getD_eq_getElem _ _ hi]
  exact List.getElem_mem hi

theorem spot_idxOf (hv : v ∈ observed) : spot observed (observed.idxOf v) = v := by
  unfold spot
  rw [List.getD_eq_getElem _ _ (List.idxOf_lt_length_iff.mpr hv), List.getElem_idxOf]

theorem idxOf_spot (hn : observed.Nodup) (hi : i < observed.length) :
    observed.idxOf (spot observed i) = i := by
  unfold spot
  rw [List.getD_eq_getElem _ _ hi]
  exact hn.idxOf_getElem i hi

theorem positionIn_eq_some (hn : observed.Nodup) :
    positionIn observed v = some i ↔ i < observed.length ∧ spot observed i = v := by
  unfold positionIn
  split_ifs with hv
  · rw [Option.some.injEq]
    constructor
    · rintro rfl
      exact ⟨List.idxOf_lt_length_iff.mpr hv, spot_idxOf hv⟩
    · rintro ⟨hi, rfl⟩
      exact idxOf_spot hn hi
  · refine iff_of_false (by simp) ?_
    rintro ⟨hi, rfl⟩
    exact hv (spot_mem hi)

theorem ObservedList.length_le (h : ObservedList dag observed) :
    observed.length ≤ dag.nodeCount := by
  have hsub : observed ⊆ List.range dag.nodeCount :=
    fun o ho => List.mem_range.mpr (h.in_range o ho)
  simpa using (List.subperm_of_subset h.nodup hsub).length_le

theorem tryFromUsize_ok (dag : Dag) (hi : i < dag.nodeCount) :
    tryFromUsize i = .ok i := by
  have : dag.nodeCount ≤ u32Max + 1 := dag.valid.node_ids
  unfold tryFromUsize
  rw [if_pos (by omega)]

theorem ObservedList.tryFromUsize_ok (h : ObservedList dag observed) {i : Nat}
    (hi : i < observed.length) : tryFromUsize i = .ok i :=
  Graph.tryFromUsize_ok dag (Nat.lt_of_lt_of_le hi h.length_le)

theorem observedReachable_ok (h : ObservedList dag observed) {start : Nat}
    (hs : start < dag.nodeCount) :
    ∃ out, observedReachableViaLatents dag start observed.toFinset (positionIn observed) =
        .ok out ∧
      ∀ i, i ∈ out ↔ i < observed.length ∧
        dag.mixed.Via {v | v ∈ observed} start (spot observed i) := by
  have hU : Bounded (fun n => (dag.children n).filter (· ∉ observed.toFinset)) [start]
      (Finset.range dag.nodeCount) := by
    refine ⟨fun s hs' => ?_, fun u _ w hw => ?_⟩
    · rw [List.mem_singleton.mp hs']
      exact Finset.mem_range.mpr hs
    · exact Finset.mem_range.mpr (dag.valid.in_range u w (List.mem_filter.mp hw).1).2
  have hvisit : ∀ n, n ∈ closure (fun n => (dag.children n).filter (· ∉ observed.toFinset))
      (dag.nodeCount + 1) [start] ↔
      ReflTransGen (fun a b => dag.mixed.dir a b ∧ b ∉ {v | v ∈ observed}) start n := by
    intro n
    rw [mem_closure hU (by rw [Finset.card_range]; exact Nat.lt_succ_self _)]
    have hrel : Reach (fun n => (dag.children n).filter (· ∉ observed.toFinset)) =
        ReflTransGen fun a b => dag.mixed.dir a b ∧ b ∉ {v | v ∈ observed} := by
      refine congrArg ReflTransGen (funext fun a => funext fun b => propext ?_)
      rw [List.mem_filter]
      simp [Dag.mixed, DirectedCore.Dir, Dag.children]
    rw [hrel]
    simp only [List.mem_singleton, exists_eq_left]
  unfold observedReachableViaLatents
  simp only
  generalize hcl : closure (fun n => (dag.children n).filter (· ∉ observed.toFinset))
    (dag.nodeCount + 1) [start] = visited at hvisit
  obtain ⟨out, hout, hI⟩ := foldlM_inv
    (I := fun done out => ∀ i, i ∈ out ↔ ∃ c ∈ done, positionIn observed c = some i)
    (f := fun (out : Finset Nat) c => match positionIn observed c with
      | some pos => Except.ok (insert pos out)
      | none => .error (GraphError.unknownNode c))
    (((List.range dag.nodeCount).filter (· ∈ visited)).flatMap fun n =>
      (dag.children n).filter (· ∈ observed.toFinset)) [] ∅ (by simp) (by
      intro pre c post out he hI
      have hc : c ∈ observed := by
        have hmem : c ∈ [] ++ ((List.range dag.nodeCount).filter (· ∈ visited)).flatMap fun n =>
            (dag.children n).filter (· ∈ observed.toFinset) := by rw [he]; simp
        simp only [List.nil_append, List.mem_flatMap, List.mem_filter, List.mem_toFinset,
          decide_eq_true_eq] at hmem
        obtain ⟨n, -, -, hc⟩ := hmem
        exact hc
      have hpos : positionIn observed c = some (observed.idxOf c) := if_pos hc
      refine ⟨insert (observed.idxOf c) out, by simp [hpos], fun i => ?_⟩
      rw [Finset.mem_insert, hI]
      constructor
      · rintro (rfl | ⟨d, hd, hdi⟩)
        · exact ⟨c, by simp, hpos⟩
        · exact ⟨d, List.mem_append_left _ hd, hdi⟩
      · rintro ⟨d, hd, hdi⟩
        rcases List.mem_append.mp hd with hd | hd
        · exact Or.inr ⟨d, hd, hdi⟩
        · rw [List.mem_singleton.mp hd, hpos] at hdi
          exact Or.inl (Option.some.inj hdi).symm)
  refine ⟨out, hout, fun i => ?_⟩
  rw [hI]
  simp only [List.nil_append, List.mem_flatMap, List.mem_filter, List.mem_range,
    List.mem_toFinset, decide_eq_true_eq, positionIn_eq_some h.nodup, hvisit]
  constructor
  · rintro ⟨c, ⟨n, ⟨-, hn⟩, hnc, -⟩, hi, rfl⟩
    exact ⟨hi, n, hn, hnc⟩
  · rintro ⟨hi, n, hn, hnc⟩
    exact ⟨spot observed i, ⟨n, ⟨(dag.valid.in_range n _ hnc).1, hn⟩, hnc, spot_mem hi⟩, hi, rfl⟩

/-! ## The loops -/

/-- An ADMG with the given labels and edges. -/
structure Shape (labels : List (Option NodeRef)) (dir bi : Nat → Nat → Prop) (g : Admg) : Prop where
  labels : g.nodes.map some = labels
  dir : ∀ a b, g.mixed.dir a b ↔ dir a b
  bi : ∀ a b, g.mixed.bi a b ↔ bi a b

theorem Shape.nodeCount {labels : List (Option NodeRef)} {D B : Nat → Nat → Prop} {g : Admg}
    (h : Shape labels D B g) : g.nodeCount = labels.length := by
  rw [← h.labels, List.length_map]
  rfl

def observedLabels (dag : Dag) (observed : List Nat) : List (Option NodeRef) :=
  observed.map fun o => dag.nodes[o]?

/-- The directed edges of the projection, on positions. -/
def Arc (dag : Dag) (observed : List Nat) (i j : Nat) : Prop :=
  i < observed.length ∧ j < observed.length ∧
    dag.mixed.Via {v | v ∈ observed} (spot observed i) (spot observed j)

/-- The bidirected edges of the projection, on positions. -/
def Spouse (dag : Dag) (observed : List Nat) (i j : Nat) : Prop :=
  i < observed.length ∧ j < observed.length ∧ ∃ l ∉ observed,
    dag.mixed.Via {v | v ∈ observed} l (spot observed i) ∧
    dag.mixed.Via {v | v ∈ observed} l (spot observed j)

theorem Spouse.symm (h : Spouse dag observed i j) : Spouse dag observed j i := by
  obtain ⟨hi, hj, l, hl, hli, hlj⟩ := h
  exact ⟨hj, hi, l, hl, hlj, hli⟩

theorem Dag.acyclic (g : Dag) : g.mixed.Acyclic := g.valid.acyclic

theorem Arc.ne {i j : Nat} (h : Arc dag observed i j) : i ≠ j := by
  rintro rfl
  exact h.2.2.ne dag.acyclic rfl

section

variable (h : ObservedList dag observed)

include h

theorem projectNodes_ok :
    ∃ g, observed.foldlM (projectNode dag) (∅, Admg.empty) = .ok (observed.toFinset, g) ∧
      Shape (observedLabels dag observed) (fun _ _ => False) (fun _ _ => False) g := by
  obtain ⟨⟨set, g⟩, hok, hset, hg⟩ := foldlM_inv (f := projectNode dag)
    (I := fun done acc => acc.1 = done.toFinset ∧
      Shape (observedLabels dag done) (fun _ _ => False) (fun _ _ => False) acc.2)
    observed [] (∅, Admg.empty) ⟨rfl, rfl, fun _ _ => iff_of_false List.not_mem_nil id,
      fun _ _ => iff_of_false List.not_mem_nil id⟩ (by
      rintro pre o post ⟨set, g⟩ he ⟨hset, hg⟩
      simp only at hset hg
      subst hset
      simp only [List.nil_append] at he
      have hmem : o ∈ observed := by rw [he]; simp
      have hlt : o < dag.nodes.length := h.in_range o hmem
      have hfresh : o ∉ pre := by
        have hnd := h.nodup
        rw [he] at hnd
        exact fun hc => (List.nodup_append.mp hnd).2.2 o hc o List.mem_cons_self rfl
      have hcount : g.nodeCount ≤ u32Max := by
        have h1 : g.nodeCount = pre.length := by
          rw [hg.nodeCount, observedLabels, List.length_map]
        have h2 : dag.nodeCount ≤ u32Max + 1 := dag.valid.node_ids
        have h3 := h.length_le
        have h4 : observed.length = pre.length + (post.length + 1) := by rw [he]; simp
        omega
      obtain ⟨g', hadd, hnodes, hdir, hbi⟩ := Admg.addNode_ok
        (dag.static (dag.nodes[o]) (List.getElem_mem hlt)) hcount
      refine ⟨(insert o pre.toFinset, g'), ?_, ?_, ?_, ?_, ?_⟩
      · unfold projectNode
        simp only [List.mem_toFinset, hfresh, if_false, List.getElem?_eq_getElem hlt]
        simp only [bind, Except.bind, pure, Except.pure, hadd]
      · ext v
        simp
      · rw [hnodes, List.map_append, hg.labels]
        simp [observedLabels, List.getElem?_eq_getElem hlt]
      · exact fun a b => (hdir a b).trans (hg.dir a b)
      · exact fun a b => (hbi a b).trans (hg.bi a b))
  simp only [List.nil_append] at hset hg
  exact ⟨g, by rw [hok, hset], hg⟩

/-- Inserting a projected edge never closes a cycle. -/
theorem projectDirected_ok (hlen : labels.length = observed.length)
    (hD : ∀ a b, D a b → Arc dag observed a b) (hg : Shape labels D B g) (hi : i < observed.length)
    (hj : j < observed.length) {reached : Finset Nat}
    (hreach : ∀ m, m ∈ reached ↔ Arc dag observed i m) :
    ∃ g', projectDirected i reached g j = .ok g' ∧
      Shape labels (fun a b => D a b ∨ (a = i ∧ b = j ∧ Arc dag observed a b)) B g' := by
  have skip : ¬ Arc dag observed i j →
      Shape labels (fun a b => D a b ∨ (a = i ∧ b = j ∧ Arc dag observed a b)) B g := by
    intro hno
    refine ⟨hg.labels, fun a b => (hg.dir a b).trans ⟨Or.inl, ?_⟩, hg.bi⟩
    rintro (h | ⟨rfl, rfl, h⟩)
    · exact h
    · exact absurd h hno
  have hcount : g.nodeCount = observed.length := by rw [hg.nodeCount, hlen]
  unfold projectDirected
  split_ifs with hij
  · exact ⟨g, rfl, skip fun hc => hc.ne hij⟩
  simp only [h.tryFromUsize_ok hi, h.tryFromUsize_ok hj, bind, Except.bind, pure, Except.pure]
  by_cases hr : j ∈ reached
  · have harc := (hreach j).mp hr
    simp only [hr, not_true_eq_false, if_false]
    by_cases hdup : g.mixed.dir i j
    · rw [Admg.insertDirected_duplicate (hcount ▸ hi) (hcount ▸ hj) hdup]
      refine ⟨g, rfl, hg.labels, fun a b => (hg.dir a b).trans ⟨Or.inl, ?_⟩, hg.bi⟩
      rintro (h | ⟨rfl, rfl, -⟩)
      · exact h
      · exact (hg.dir _ _).mp hdup
    · have hcyc : ¬ g.mixed.Anc j i := by
        intro hc
        have key : ∀ {a}, g.mixed.Anc j a →
            dag.mixed.Anc (spot observed j) (spot observed a) := by
          intro a ha
          induction ha with
          | refl => exact ReflTransGen.refl
          | tail _ hst ih =>
            exact ih.trans (hD _ _ ((hg.dir _ _).mp hst)).2.2.transGen.to_reflTransGen
        exact dag.acyclic _ (TransGen.trans_left harc.2.2.transGen (key hc))
      obtain ⟨g', hok, hnodes, hdir, hbi⟩ := Admg.insertDirected_ok (hcount ▸ hi) (hcount ▸ hj)
        hdup hcyc
      rw [hok]
      refine ⟨g', rfl, by rw [hnodes, hg.labels], fun a b => ?_,
        fun a b => (hbi a b).trans (hg.bi a b)⟩
      rw [hdir, hg.dir]
      constructor
      · rintro (h | ⟨rfl, rfl⟩)
        · exact Or.inl h
        · exact Or.inr ⟨rfl, rfl, harc⟩
      · rintro (h | ⟨rfl, rfl, -⟩)
        · exact Or.inl h
        · exact Or.inr ⟨rfl, rfl⟩
  · simp only [hr, not_false_eq_true, if_true]
    exact ⟨g, rfl, skip fun hc => hr ((hreach j).mpr hc)⟩

theorem projectSources_ok (hlen : labels.length = observed.length)
    (hg : Shape labels (fun _ _ => False) B g) :
    ∃ g', ((List.range observed.length).zip observed).foldlM
        (projectSource dag observed.length observed.toFinset (positionIn observed)) g = .ok g' ∧
      Shape labels (Arc dag observed) B g' := by
  obtain ⟨g', hok, hg'⟩ := foldlM_inv
    (f := projectSource dag observed.length observed.toFinset (positionIn observed))
    (I := fun done g =>
      Shape labels (fun a b => a ∈ done.map Prod.fst ∧ Arc dag observed a b) B g)
    ((List.range observed.length).zip observed) [] g
    (by simpa using hg) (by
      rintro pre ⟨i, u⟩ post g he hg
      have hmem : (i, u) ∈ (List.range observed.length).zip observed := by
        rw [List.nil_append] at he
        rw [he]
        simp
      have hi : i < observed.length := List.mem_range.mp (List.of_mem_zip hmem).1
      have hu : u = spot observed i := by
        obtain ⟨n, hn, hget⟩ := List.mem_iff_getElem.mp hmem
        rw [List.getElem_zip, Prod.mk.injEq, List.getElem_range] at hget
        obtain ⟨rfl, rfl⟩ := hget
        unfold spot
        rw [List.getD_eq_getElem _ _ hi]
      subst hu
      obtain ⟨reached, hr, hreach⟩ := observedReachable_ok h (h.in_range _ (spot_mem hi))
      have hreach' : ∀ m, m ∈ reached ↔ Arc dag observed i m := by
        intro m
        rw [hreach]
        exact ⟨fun hm => ⟨hi, hm⟩, fun hm => hm.2⟩
      obtain ⟨g', hok, hg'⟩ := foldlM_inv (f := projectDirected i reached)
        (I := fun done g => Shape labels (fun a b => (a ∈ pre.map Prod.fst ∧ Arc dag observed a b) ∨
          (a = i ∧ b ∈ done ∧ Arc dag observed a b)) B g)
        (List.range observed.length) [] g (by simpa using hg) (by
          intro pre' j post' g he hg
          have hj : j < observed.length := by
            rw [List.nil_append] at he
            exact List.mem_range.mp (by rw [he]; simp)
          obtain ⟨g', hok, hg'⟩ := projectDirected_ok h hlen (by
            rintro a b (⟨-, h⟩ | ⟨-, -, h⟩) <;> exact h) hg hi hj hreach'
          refine ⟨g', hok, hg'.labels, fun a b => (hg'.dir a b).trans ?_, hg'.bi⟩
          rw [List.mem_append, List.mem_singleton]
          tauto)
      refine ⟨g', ?_, hg'.labels, fun a b => (hg'.dir a b).trans ?_, hg'.bi⟩
      · unfold projectSource
        simp only [hr, bind, Except.bind]
        exact hok
      · rw [List.nil_append, List.map_append, List.mem_append, List.map_singleton,
          List.mem_singleton, List.mem_range]
        constructor
        · rintro (⟨h1, h2⟩ | ⟨h1, -, h2⟩)
          · exact ⟨Or.inl h1, h2⟩
          · exact ⟨Or.inr h1, h2⟩
        · rintro ⟨h1 | h1, h2⟩
          · exact Or.inl ⟨h1, h2⟩
          · exact Or.inr ⟨h1, h2.2.1, h2⟩)
  refine ⟨g', hok, hg'.labels, fun a b => (hg'.dir a b).trans ?_, hg'.bi⟩
  rw [List.nil_append, List.map_fst_zip (by rw [List.length_range]), List.mem_range]
  exact ⟨And.right, fun h => ⟨h.1, h⟩⟩

end

theorem mem_foldl_modify (reached : Finset Nat) :
    ∀ (L : List Nat) (rows : List (Finset Nat)), (∀ m ∈ L, m < rows.length) →
      (L.foldl (fun rows m => rows.modify m (· ∪ reached)) rows).length = rows.length ∧
      ∀ i x, x ∈ (L.foldl (fun rows m => rows.modify m (· ∪ reached)) rows).getD i ∅ ↔
        x ∈ rows.getD i ∅ ∨ (i ∈ L ∧ x ∈ reached)
  | [], rows, _ => ⟨rfl, fun i x => by simp⟩
  | m :: L, rows, hL => by
    have hm : m < rows.length := hL m List.mem_cons_self
    obtain ⟨h1, h2⟩ := mem_foldl_modify reached L (rows.modify m (· ∪ reached)) (fun m' hm' => by
      rw [List.length_modify]
      exact hL m' (List.mem_cons_of_mem m hm'))
    rw [List.length_modify] at h1
    refine ⟨h1, fun i x => ?_⟩
    rw [List.foldl_cons, h2, List.mem_cons, List.getD_eq_getElem?_getD, List.getElem?_modify,
      List.getD_eq_getElem?_getD]
    by_cases him : m = i
    · subst him
      simp only [if_true, List.getElem?_eq_getElem hm, Option.map_eq_map, Option.map_some,
        Option.getD_some, Finset.mem_union]
      tauto
    · simp only [if_neg him, Option.map_eq_map, Option.map_id_fun', id_eq, Ne.symm him, false_or]

section

variable (h : ObservedList dag observed)

include h

theorem joinLatents_ok : ∃ joined, (List.range dag.nodeCount).foldlM
        (joinLatent dag observed.length observed.toFinset (positionIn observed))
        (List.replicate observed.length ∅) = .ok joined ∧
      ∀ i j, j ∈ joined.getD i ∅ ↔ Spouse dag observed i j := by
  obtain ⟨joined, hok, -, hj⟩ := foldlM_inv
    (f := joinLatent dag observed.length observed.toFinset (positionIn observed))
    (I := fun done rows => rows.length = observed.length ∧ ∀ i j, j ∈ rows.getD i ∅ ↔
      i < observed.length ∧ j < observed.length ∧ ∃ l ∈ done, l ∉ observed ∧
        dag.mixed.Via {v | v ∈ observed} l (spot observed i) ∧
        dag.mixed.Via {v | v ∈ observed} l (spot observed j))
    (List.range dag.nodeCount) [] (List.replicate observed.length ∅)
    (by
      refine ⟨List.length_replicate, fun i j => iff_of_false ?_ (by simp)⟩
      rw [List.getD_eq_getElem?_getD, List.getElem?_replicate]
      split_ifs <;> simp) (by
      rintro pre l post rows he ⟨hlen, hI⟩
      have hl : l < dag.nodeCount := by
        rw [List.nil_append] at he
        exact List.mem_range.mp (by rw [he]; simp)
      unfold joinLatent
      rw [tryFromUsize_ok dag hl]
      simp only [bind, Except.bind, pure, Except.pure, List.mem_toFinset]
      by_cases ho : l ∈ observed
      · rw [if_pos ho]
        refine ⟨rows, rfl, hlen, fun i j => (hI i j).trans ?_⟩
        constructor
        · rintro ⟨hi, hj, t, ht, hrest⟩
          exact ⟨hi, hj, t, List.mem_append_left _ ht, hrest⟩
        · rintro ⟨hi, hj, t, ht, hto, hrest⟩
          rcases List.mem_append.mp ht with ht | ht
          · exact ⟨hi, hj, t, ht, hto, hrest⟩
          · rw [List.mem_singleton.mp ht] at hto
            exact absurd ho hto
      · obtain ⟨reached, hr, hreach⟩ := observedReachable_ok h hl
        obtain ⟨hlen', hmem⟩ := mem_foldl_modify reached
          ((List.range observed.length).filter (· ∈ reached)) rows (fun m hm => by
            rw [hlen]
            exact List.mem_range.mp (List.mem_filter.mp hm).1)
        rw [if_neg ho, hr]
        refine ⟨_, rfl, by rw [hlen', hlen], fun i j => ?_⟩
        rw [hmem, hI, List.mem_filter, List.mem_range, decide_eq_true_eq, hreach, hreach]
        constructor
        · rintro (⟨hi, hj, t, ht, hrest⟩ | ⟨⟨hi, -, h1⟩, hj, h2⟩)
          · exact ⟨hi, hj, t, List.mem_append_left _ ht, hrest⟩
          · exact ⟨hi, hj, l, by simp, ho, h1, h2⟩
        · rintro ⟨hi, hj, t, ht, hto, h1, h2⟩
          rcases List.mem_append.mp ht with ht | ht
          · exact Or.inl ⟨hi, hj, t, ht, hto, h1, h2⟩
          · rw [List.mem_singleton.mp ht] at h1 h2
            exact Or.inr ⟨⟨hi, hi, h1⟩, hj, h2⟩)
  refine ⟨joined, hok, fun i j => (hj i j).trans ?_⟩
  unfold Spouse
  refine and_congr_right fun hi => and_congr_right fun hj => ?_
  constructor
  · rintro ⟨l, -, hl⟩
    exact ⟨l, hl⟩
  · rintro ⟨l, hl, ⟨w, hw, hwi⟩, h2⟩
    refine ⟨l, ?_, hl, ⟨w, hw, hwi⟩, h2⟩
    rw [List.nil_append, List.mem_range]
    rcases ReflTransGen.cases_head hw with rfl | ⟨c, hlc, -⟩
    · exact (dag.valid.in_range _ _ hwi).1
    · exact (dag.valid.in_range _ _ hlc.1).1

theorem projectBidirected_ok (hlen : labels.length = observed.length)
    (hg : Shape labels D (fun _ _ => False) g) {joined : List (Finset Nat)}
    (hjoin : ∀ i j, j ∈ joined.getD i ∅ ↔ Spouse dag observed i j) :
    ∃ g', (upperPairs observed.length).foldlM (projectBidirected joined) g = .ok g' ∧
      Shape labels D (fun a b => a ≠ b ∧ Spouse dag observed a b) g' := by
  obtain ⟨g', hok, hg'⟩ := foldlM_inv (f := projectBidirected joined)
    (I := fun done g => Shape labels D
      (fun a b => ((a, b) ∈ done ∨ (b, a) ∈ done) ∧ Spouse dag observed a b) g)
    (upperPairs observed.length) [] g (by simpa using hg) (by
      rintro pre ⟨i, j⟩ post g he hg
      have hmem : (i, j) ∈ upperPairs observed.length := by
        rw [List.nil_append] at he
        rw [he]
        simp
      obtain ⟨hij, hj⟩ := mem_upperPairs.mp hmem
      have hi : i < observed.length := Nat.lt_trans hij hj
      have hcount : g.nodeCount = observed.length := by rw [hg.nodeCount, hlen]
      have hnew : ∀ a b, ((a, b) ∈ pre ++ [(i, j)] ∨ (b, a) ∈ pre ++ [(i, j)]) ∧
          Spouse dag observed a b ↔ (((a, b) ∈ pre ∨ (b, a) ∈ pre) ∧ Spouse dag observed a b) ∨
            (((a = i ∧ b = j) ∨ (a = j ∧ b = i)) ∧ Spouse dag observed a b) := by
        intro a b
        simp only [List.mem_append, List.mem_singleton, Prod.mk.injEq]
        tauto
      unfold projectBidirected
      simp only [h.tryFromUsize_ok hi, h.tryFromUsize_ok hj, bind, Except.bind, pure, Except.pure]
      by_cases hs : Spouse dag observed i j
      · rw [if_neg (not_not.mpr ((hjoin i j).mpr hs))]
        by_cases hdup : g.mixed.bi i j
        · rw [Admg.insertBidirected_duplicate (hcount ▸ hi) (hcount ▸ hj) hdup]
          have hold := (hg.bi i j).mp hdup
          refine ⟨g, rfl, hg.labels, hg.dir, fun a b => (hg.bi a b).trans ?_⟩
          rw [hnew]
          refine ⟨Or.inl, ?_⟩
          rintro (h | ⟨⟨rfl, rfl⟩ | ⟨rfl, rfl⟩, -⟩)
          · exact h
          · exact hold
          · exact ⟨hold.1.symm, hold.2.symm⟩
        · obtain ⟨g', hok, hnodes, hdir, hbi⟩ := Admg.insertBidirected_ok (hcount ▸ hi)
            (hcount ▸ hj) (Nat.ne_of_lt hij) hdup
          rw [hok]
          refine ⟨g', rfl, by rw [hnodes, hg.labels], fun a b => (hdir a b).trans (hg.dir a b),
            fun a b => ?_⟩
          rw [hbi, hg.bi, hnew]
          refine or_congr_right ?_
          constructor
          · rintro (⟨rfl, rfl⟩ | ⟨rfl, rfl⟩)
            · exact ⟨Or.inl ⟨rfl, rfl⟩, hs⟩
            · exact ⟨Or.inr ⟨rfl, rfl⟩, hs.symm⟩
          · exact And.left
      · rw [if_pos fun hc => hs ((hjoin i j).mp hc)]
        refine ⟨g, rfl, hg.labels, hg.dir, fun a b => (hg.bi a b).trans ?_⟩
        rw [hnew]
        refine ⟨Or.inl, ?_⟩
        rintro (h | ⟨⟨rfl, rfl⟩ | ⟨rfl, rfl⟩, h⟩)
        · exact h
        · exact absurd h hs
        · exact absurd h.symm hs)
  refine ⟨g', hok, hg'.labels, hg'.dir, fun a b => (hg'.bi a b).trans ?_⟩
  rw [List.nil_append]
  refine and_congr_left fun hs => ?_
  rw [mem_upperPairs, mem_upperPairs]
  have h1 := hs.1
  have h2 := hs.2.1
  omega

/-- **The projection succeeds, keeps the labels in order, and has the projected edges.** -/
theorem latentProject_spec : ∃ g, latentProject dag observed = .ok g ∧
      Shape (observedLabels dag observed) (Arc dag observed)
        (fun a b => a ≠ b ∧ Spouse dag observed a b) g := by
  have hlen : (observedLabels dag observed).length = observed.length := by
    rw [observedLabels, List.length_map]
  obtain ⟨g₀, h0, hg0⟩ := projectNodes_ok h
  obtain ⟨g₁, h1, hg1⟩ := projectSources_ok h hlen hg0
  obtain ⟨joined, h2, hjoin⟩ := joinLatents_ok h
  obtain ⟨g₂, h3, hg2⟩ := projectBidirected_ok h hlen hg1 hjoin
  refine ⟨g₂, ?_, hg2⟩
  have hpos : (List.range observed.length).forM
      (fun i => (tryFromUsize i).map fun _ => ()) = .ok () :=
    forM_ok fun i hi => by rw [h.tryFromUsize_ok (List.mem_range.mp hi)]; rfl
  unfold latentProject
  rw [forM_ok fun o ho => Dag.validateNode_ok (h.in_range o ho), h0]
  simp only [bind, Except.bind, hpos, h1, h2]
  exact h3

/-! ## Separation -/

theorem project_ball
    (hg : Shape (observedLabels dag observed) (Arc dag observed) (fun a b => a ≠ b ∧ Spouse dag observed a b) g)
    {Z S : Set Nat} (hZ : ∀ v ∈ Z, v < observed.length) (hS : ∀ v ∈ S, v < observed.length)
    {y : Nat} (hy : y < observed.length) {m : Bool} :
    g.mixed.Ball Z S y m ↔ (dag.mixed.latent {v | v ∈ observed}).Ball (spot observed '' Z)
      (spot observed '' S) (spot observed y) m := by
  have hinj : Set.InjOn (spot observed) {i | i < observed.length} := by
    intro a ha b hb hab
    rw [← idxOf_spot h.nodup ha, ← idxOf_spot h.nodup hb, hab]
  have hback : ∀ v, v ∈ observed → ∃ b ∈ {i | i < observed.length}, spot observed b = v :=
    fun v hv => ⟨observed.idxOf v, List.idxOf_lt_length_iff.mpr hv, spot_idxOf hv⟩
  refine MixedGraph.ball_rename hinj ?_ ?_ ?_ hZ hS hy
  · intro k a b hab
    cases k with
    | fwd => exact ⟨((hg.dir a b).mp hab).1, ((hg.dir a b).mp hab).2.1⟩
    | bwd => exact ⟨((hg.dir b a).mp hab).2.1, ((hg.dir b a).mp hab).1⟩
    | bi => exact ⟨((hg.bi a b).mp hab).2.1, ((hg.bi a b).mp hab).2.2.1⟩
  · intro k a b ha hb
    cases k with
    | fwd =>
      refine (hg.dir a b).trans ⟨fun hab => ?_, fun hab => ⟨ha, hb, hab.2.2⟩⟩
      exact ⟨spot_mem ha, spot_mem hb, hab.2.2⟩
    | bwd =>
      refine (hg.dir b a).trans ⟨fun hab => ?_, fun hab => ⟨hb, ha, hab.2.2⟩⟩
      exact ⟨spot_mem hb, spot_mem ha, hab.2.2⟩
    | bi =>
      refine (hg.bi a b).trans ⟨fun hab => ?_, fun hab => ?_⟩
      · exact ⟨spot_mem ha, spot_mem hb, fun e => hab.1 (hinj ha hb e), hab.2.2.2⟩
      · exact ⟨fun e => hab.2.2.1 (e ▸ rfl), ha, hb, hab.2.2.2⟩
  · intro k a v _ hav
    cases k with
    | fwd => exact hback v hav.2.1
    | bwd => exact hback v hav.1
    | bi => exact hback v hav.2.1

end

/-- **`latent_project` preserves the independence model.** On a duplicate-free list of nodes it
succeeds, keeps their labels in the given order, and the projected ADMG answers every m-separation
query as the DAG answers the d-separation query about the nodes. -/
theorem latentProject_correct (dag : Dag) (observed : List Nat) (h : ObservedList dag observed) :
    ∃ admg, latentProject dag observed = .ok admg ∧
      admg.nodes.map some = observed.map (fun o => dag.nodes[o]?) ∧
      ∀ x ∈ observed, ∀ y ∈ observed, ∀ z : List Nat, (∀ v ∈ z, v ∈ observed) → x ≠ y → x ∉ z →
        y ∉ z → ∃ b, dag.isDSeparated x y z = .ok b ∧
          admg.isMSeparated (observed.idxOf x) (observed.idxOf y)
            (z.map fun v => observed.idxOf v) = .ok b := by
  obtain ⟨g, hok, hg⟩ := latentProject_spec h
  refine ⟨g, hok, hg.labels, fun x hx y hy z hz hxy hxz hyz => ?_⟩
  have hpos : ∀ v ∈ observed, observed.idxOf v < observed.length :=
    fun v hv => List.idxOf_lt_length_iff.mpr hv
  have hinj : ∀ u ∈ observed, ∀ v ∈ observed, observed.idxOf u = observed.idxOf v → u = v := by
    intro u hu v hv huv
    rw [← spot_idxOf hu, ← spot_idxOf hv, huv]
  have hcount : g.nodeCount = observed.length := by
    rw [hg.nodeCount, observedLabels, List.length_map]
  have hq : Query dag.nodeCount x y z := ⟨h.in_range x hx, h.in_range y hy,
    fun v hv => h.in_range v (hz v hv), hxy, hxz, hyz⟩
  have hnot : ∀ u ∈ observed, u ∉ z → observed.idxOf u ∉ z.map fun v => observed.idxOf v := by
    intro u hu huz hc
    obtain ⟨v, hv, huv⟩ := List.mem_map.mp hc
    exact huz (hinj u hu v (hz v hv) huv.symm ▸ hv)
  have hq' : Query g.nodeCount (observed.idxOf x) (observed.idxOf y)
      (z.map fun v => observed.idxOf v) := by
    refine ⟨hcount ▸ hpos x hx, hcount ▸ hpos y hy, fun v hv => ?_,
      fun e => hxy (hinj x hx y hy e), hnot x hx hxz, hnot y hy hyz⟩
    obtain ⟨u, hu, rfl⟩ := List.mem_map.mp hv
    rw [hcount]
    exact hpos u (hz u hu)
  have hball : (∃ m, g.mixed.Ball {v | v ∈ z.map fun v => observed.idxOf v} {observed.idxOf x}
      (observed.idxOf y) m) ↔ ∃ m, dag.mixed.Ball {v | v ∈ z} {x} y m := by
    have hkept := @MixedGraph.latent_ball_iff Nat dag.mixed {v | v ∈ observed} {v | v ∈ z} {x} y
      (fun _ _ h => h) (fun v hv => hz v hv) (by rintro v rfl; exact hx) hy
    refine Iff.trans (exists_congr fun m => ?_) hkept
    rw [project_ball (Z := {v | v ∈ z.map fun v => observed.idxOf v}) (S := {observed.idxOf x}) h hg
      (fun v hv => hcount ▸ hq'.z_lt v hv) (by rintro v rfl; exact hpos x hx) (hpos y hy)]
    have himg : spot observed '' {v | v ∈ z.map fun v => observed.idxOf v} = {v | v ∈ z} := by
      ext v
      constructor
      · rintro ⟨i, hi, rfl⟩
        obtain ⟨u, hu, rfl⟩ := List.mem_map.mp hi
        rw [spot_idxOf (hz u hu)]
        exact hu
      · intro hv
        exact ⟨observed.idxOf v, List.mem_map.mpr ⟨v, hv, rfl⟩, spot_idxOf (hz v hv)⟩
    rw [himg, Set.image_singleton, spot_idxOf hx, spot_idxOf hy]
  have hd : dag.isDSeparated x y z = .ok true ↔ ¬ ∃ m, dag.mixed.Ball {v | v ∈ z} {x} y m := by
    have := Dag.isDSeparatedWith_iff hq none
    rwa [dag.visible_none] at this
  have hm := Admg.isMSeparated_iff hq'
  rw [hball, ← hd] at hm
  refine ⟨_, Dag.isDSeparatedWith_eq hq none, ?_⟩
  rw [Dag.isDSeparated, Dag.isDSeparatedWith_eq hq none, Admg.isMSeparated_eq hq'] at hm
  rw [Admg.isMSeparated_eq hq']
  simp only [Except.ok.injEq] at hm ⊢
  exact Bool.eq_iff_iff.mpr hm

/-- The latent `0` of `1 ← 0 → 2`, with `2` listed before `1`. -/
theorem latentProject_correct_confounder :
    ∃ dag, ((Dag.withVariables 3).insertDirected 0 1 >>= fun g => g.insertDirected 0 2) = .ok dag ∧
      ObservedList dag [2, 1] ∧ ∃ admg, latentProject dag [2, 1] = .ok admg ∧
        ∃ b, dag.isDSeparated 2 1 [] = .ok b ∧ admg.isMSeparated 0 1 [] = .ok b := by
  have run : ∀ dag : Dag, dag.nodeCount = 3 → ObservedList dag [2, 1] ∧
      ∃ admg, latentProject dag [2, 1] = .ok admg ∧
        ∃ b, dag.isDSeparated 2 1 [] = .ok b ∧ admg.isMSeparated 0 1 [] = .ok b := by
    intro dag hn
    have hobs : ObservedList dag [2, 1] := ⟨by rw [hn]; decide, by decide⟩
    obtain ⟨admg, hok, -, hsep⟩ := latentProject_correct dag [2, 1] hobs
    exact ⟨hobs, admg, hok, hsep 2 (by decide) 1 (by decide) [] (by decide) (by decide)
      (by decide) (by decide)⟩
  exact ⟨_, rfl, run _ rfl⟩

end Positions

end Antecedent.Graph
