import Antecedent.Graph.CopyFiltered
import Antecedent.Graph.Separation
import Antecedent.Identify.Augmented
import Antecedent.Identify.Prepared

/-!
# Two tests of one transport premise

Model of `selection_separation.rs:30-77` and `:189-257`. Both ask whether the outcomes are separated
from every selection node given `x ∪ given` in the graph induced on `v` without the edges into `x`.
`MutilatedSelection` copies that graph with one selection node per target and runs Bayes-ball on it;
`independentlySeparated` aims one selection node at each target in turn and searches the augmented
graph. A `BitSet` is a `Finset Nat`.

Selection nodes are sources with one child, so a query about one of them does not see the others:
`reaimed` is the graph both tests decide for a target.

* **`independentlySeparated_agrees`**: the two tests answer alike.
-/

namespace Antecedent.Identify

open Graph
open Mixed

/-! ## The search's test -/

/-- Lines 33-36. -/
structure MutilatedSelection where
  graph : Admg
  selectionNodes : List Nat

namespace MutilatedSelection

/-- One turn of the loop over `targets.iter().enumerate()`. -/
def aim (n : Nat) (v x : Finset Nat) (sel : MutilatedSelection) (it : Nat × Nat) :
    Except IdentificationError MutilatedSelection :=
  if it.1 ∉ v ∨ it.1 ∈ x then .ok sel
  else if u32Max < n + it.2 then .error (.message "selection graph capacity")
  else
    match sel.graph.insertDirected (n + it.2) it.1 with
    | .ok graph => .ok ⟨graph, sel.selectionNodes ++ [n + it.2]⟩
    | .error e => .error (.graph e)

/-- Lines 41-65. -/
def build (original : Admg) (v x : Finset Nat) (targets : List Nat) :
    Except IdentificationError MutilatedSelection :=
  if u32Max < targets.length then .error (.message "selection graph capacity")
  else
    match original.copyExtended targets.length
        (fun src dst => src ∈ v ∧ dst ∈ v ∧ dst ∉ x)
        (fun a b => a ∈ v ∧ b ∈ v ∧ a ∉ x ∧ b ∉ x) with
    | .ok graph => targets.zipIdx.foldlM (aim original.nodeCount v x) ⟨graph, []⟩
    | .error e => .error (.graph e)

/-- Lines 68-77. -/
def separates (sel : MutilatedSelection) (outcomes conditions : List Nat) :
    Except GraphError Bool :=
  sel.graph.isMSeparatedSets sel.selectionNodes outcomes conditions

end MutilatedSelection

/-! ## The checker's test -/

section Independent

variable (original : Admg) (v x : Finset Nat)

/-- `parents` before the loop over the targets; the last row is the selection node's. -/
def inducedParents : List (List Nat) :=
  ((List.range original.nodeCount).filter (· ∈ v)).foldl
    (fun rows src => pushParent rows src
      ((original.children src).filter fun child => child ∈ v ∧ child ∉ x))
    (List.replicate (original.nodeCount + 1) [])

/-- `siblings`. -/
def inducedSiblings : List (List Nat) :=
  (List.range (original.nodeCount + 1)).map fun src =>
    if src < original.nodeCount ∧ src ∈ v then
      (original.bidirectedNeighbors src).filter fun sibling =>
        sibling ∈ v ∧ src ∉ x ∧ sibling ∉ x
    else []

/-- Lines 189-257. -/
def independentlySeparated (targets outcomes given : List Nat) : Bool :=
  let n := original.nodeCount
  let conditioned := x ∪ given.toFinset
  targets.all fun t =>
    decide (t ∉ v ∨ t ∈ x) || outcomes.all fun y =>
      !decide (n ∈ conditioned) && !decide (y ∈ conditioned) &&
        !connected (n + 1) (pushRow (inducedParents original v x) t n)
          (inducedSiblings original v x) conditioned n y

end Independent

/-! ## The graph of one target -/

/-- The graph induced on `v` without the edges into `x`, and one more node `n` that causes `t`. -/
def reaimed (original : Admg) (v x : Finset Nat) (t : Nat) : MixedGraph Nat where
  dir a b := (original.mixed.dir a b ∧ a ∈ v ∧ b ∈ v ∧ b ∉ x) ∨ (a = original.nodeCount ∧ b = t)
  bi a b := original.mixed.bi a b ∧ a ∈ v ∧ b ∈ v ∧ a ∉ x ∧ b ∉ x
  bi_symm h := ⟨original.mixed.bi_symm h.1, h.2.2.1, h.2.1, h.2.2.2.2, h.2.2.2.1⟩

variable {original : Admg} {v x : Finset Nat} {targets : List Nat} {cond : Finset Nat} {n k i : Nat}
  {n k i j : Nat}

theorem bi_lt {a b : Nat} (h : original.mixed.bi a b) :
    a < original.nodeCount ∧ b < original.nodeCount :=
  ⟨original.biValid.in_range b a (original.mixed.bi_symm h), original.biValid.in_range a b h⟩

/-- The checker's rows with `n` aimed at `t`. -/
theorem reaimed_rows {t : Nat} (ht : t < original.nodeCount) :
    RowsOf (reaimed original v x t) (original.nodeCount + 1)
      (pushRow (inducedParents original v x) t original.nodeCount)
      (inducedSiblings original v x) := by
  set n := original.nodeCount
  have hlen : (inducedParents original v x).length = n + 1 := by
    unfold inducedParents
    rw [length_pushParents, List.length_replicate]
  have hbase : ∀ u w, u ∈ row (inducedParents original v x) w ↔
      original.mixed.dir u w ∧ u ∈ v ∧ w ∈ v ∧ w ∉ x := by
    intro u w
    unfold inducedParents
    rw [mem_row_pushParents, row_replicate_nil]
    · simp only [List.not_mem_nil, false_or, List.mem_filter, List.mem_range, decide_eq_true_eq]
      constructor
      · rintro ⟨⟨-, hu⟩, hd, hw, hx⟩
        exact ⟨hd, hu, hw, hx⟩
      · rintro ⟨hd, hu, hw, hx⟩
        exact ⟨⟨(original.valid.in_range u w hd).1, hu⟩, hd, hw, hx⟩
    · intro s _ c hc
      rw [List.length_replicate]
      exact Nat.lt_succ_of_lt (original.valid.in_range s c (List.mem_filter.mp hc).1).2
  refine ⟨fun u w => ?_, fun u w => ?_, ?_, fun u w h => ?_⟩
  · rw [row_pushRow (by omega)]
    split_ifs with hw
    · rw [List.mem_append, List.mem_singleton, hbase, hw]
      exact or_congr_right ⟨fun h => ⟨h, rfl⟩, And.left⟩
    · rw [hbase]
      exact ⟨Or.inl, fun h => h.resolve_right fun e => hw e.2⟩
  · unfold inducedSiblings
    rw [row_map_range]
    split_ifs with h1 h2
    · rw [List.mem_filter, decide_eq_true_eq]
      exact ⟨fun h => ⟨h.1, h2.2, h.2.1, h.2.2⟩, fun h => ⟨h.1, h.2.2⟩⟩
    · exact iff_of_false List.not_mem_nil fun h => h2 ⟨(bi_lt h.1).1, h.2.1⟩
    · exact iff_of_false List.not_mem_nil fun h => h1 (Nat.lt_succ_of_lt (bi_lt h.1).1)
  · rintro u w (h | ⟨rfl, rfl⟩)
    · have hlt := original.valid.in_range u w h.1
      exact ⟨Nat.lt_succ_of_lt hlt.1, Nat.lt_succ_of_lt hlt.2⟩
    · exact ⟨Nat.lt_succ_self _, Nat.lt_succ_of_lt ht⟩
  · exact ⟨Nat.lt_succ_of_lt (bi_lt h.1).1, Nat.lt_succ_of_lt (bi_lt h.1).2⟩

/-- **The checker's test for one target and one outcome.** -/
theorem connected_reaimed {t y : Nat} (ht : t < original.nodeCount)
    (hcond : ∀ a ∈ cond, a < original.nodeCount) (hy : y < original.nodeCount) (hyc : y ∉ cond) :
    connected (original.nodeCount + 1)
        (pushRow (inducedParents original v x) t original.nodeCount)
        (inducedSiblings original v x) cond original.nodeCount y = false ↔
      (reaimed original v x t).MSeparated {original.nodeCount} {y} cond := by
  rw [← Bool.not_eq_true, connected_iff (reaimed_rows ht)
    (fun a ha => Nat.lt_succ_of_lt (hcond a ha)) (Nat.lt_succ_self _) (Nat.lt_succ_of_lt hy) hyc]
  simp [MixedGraph.MSeparated]

/-! ## The search's graph -/

/-- The selection edges of the targets in `l`. -/
def Aimed (n : Nat) (v x : Finset Nat) (l : List (Nat × Nat)) (a b : Nat) : Prop :=
  ∃ it ∈ l, it.1 ∈ v ∧ it.1 ∉ x ∧ a = n + it.2 ∧ b = it.1

/-- The loop over the targets: it only aims nodes at or past `n`, which have no parents. -/
theorem aim_loop {n m : Nat} (hv : ∀ a ∈ v, a < n) (hm : m ≤ u32Max + 1) (hnm : n ≤ m) :
    ∀ {l : List (Nat × Nat)} (sel : MutilatedSelection), sel.graph.nodeCount = m →
      (l.map Prod.snd).Nodup → (∀ it ∈ l, n + it.2 < m) →
      (∀ a b, sel.graph.mixed.dir a b → b < n) →
      (∀ it ∈ l, ∀ b, ¬ sel.graph.mixed.dir (n + it.2) b) →
      ∃ sel', l.foldlM (MutilatedSelection.aim n v x) sel = .ok sel' ∧
        sel'.graph.nodeCount = m ∧
        (∀ a b, sel'.graph.mixed.dir a b ↔ sel.graph.mixed.dir a b ∨ Aimed n v x l a b) ∧
        (∀ a b, sel'.graph.mixed.bi a b ↔ sel.graph.mixed.bi a b) ∧
        ∀ s, s ∈ sel'.selectionNodes ↔ s ∈ sel.selectionNodes ∨ ∃ t, Aimed n v x l s t
  | [], sel, hcount, _, _, _, _ => by
    refine ⟨sel, rfl, hcount, fun a b => ?_, fun _ _ => Iff.rfl, fun s => ?_⟩
    · simp [Aimed]
    · simp [Aimed]
  | it :: l, sel, hcount, hnd, hlt, hdown, hfresh => by
    obtain ⟨hit, hnd⟩ := List.nodup_cons.mp hnd
    have hrest := fun jt hj => hlt jt (List.mem_cons_of_mem it hj)
    rw [List.foldlM_cons]
    by_cases hlive : it.1 ∉ v ∨ it.1 ∈ x
    · obtain ⟨sel', hok, hcount', hdir, hbi, hsel⟩ := aim_loop hv hm hnm (l := l) sel hcount hnd hrest
        hdown fun jt hj => hfresh jt (List.mem_cons_of_mem it hj)
      have haimed : ∀ a b, Aimed n v x (it :: l) a b ↔ Aimed n v x l a b := by
        intro a b
        constructor
        · rintro ⟨jt, hj, h1, h2, h3⟩
          rcases List.mem_cons.mp hj with rfl | hj
          · exact absurd hlive (by tauto)
          · exact ⟨jt, hj, h1, h2, h3⟩
        · rintro ⟨jt, hj, h⟩
          exact ⟨jt, List.mem_cons_of_mem it hj, h⟩
      refine ⟨sel', ?_, hcount', fun a b => ?_, hbi, fun s => ?_⟩
      · unfold MutilatedSelection.aim
        rw [if_pos hlive]
        exact hok
      · rw [hdir, haimed]
      · simp only [hsel, haimed]
    · push Not at hlive
      have hs : n + it.2 < m := hlt it List.mem_cons_self
      have ht : it.1 < n := hv _ hlive.1
      have hcyc : ¬ sel.graph.mixed.Anc it.1 (n + it.2) := by
        intro h
        rcases Relation.ReflTransGen.cases_tail h with e | ⟨u, -, hu⟩
        · omega
        · exact absurd (hdown _ _ hu) (by omega)
      obtain ⟨graph, hins, hnodes, hdir₁, hbi₁⟩ := Admg.insertDirected_ok (hcount ▸ hs)
        (hcount ▸ (by omega)) (hfresh it List.mem_cons_self it.1) hcyc
      obtain ⟨sel', hok, hcount', hdir, hbi, hsel⟩ := aim_loop hv hm hnm (l := l)
        ⟨graph, sel.selectionNodes ++ [n + it.2]⟩
        ((congrArg List.length hnodes).trans hcount) hnd hrest
        (fun a b h => by
          rcases (hdir₁ a b).mp h with h | ⟨-, rfl⟩
          exacts [hdown a b h, ht])
        (fun jt hj b h => by
          rcases (hdir₁ _ b).mp h with h | ⟨e, -⟩
          · exact hfresh jt (List.mem_cons_of_mem it hj) b h
          · exact hit (List.mem_map.mpr ⟨jt, hj, by omega⟩))
      have haimed : ∀ a b, Aimed n v x (it :: l) a b ↔
          (a = n + it.2 ∧ b = it.1) ∨ Aimed n v x l a b := by
        intro a b
        constructor
        · rintro ⟨jt, hj, h1, h2, h3⟩
          rcases List.mem_cons.mp hj with rfl | hj
          · exact Or.inl h3
          · exact Or.inr ⟨jt, hj, h1, h2, h3⟩
        · rintro (h | ⟨jt, hj, h⟩)
          · exact ⟨it, List.mem_cons_self, hlive.1, hlive.2, h⟩
          · exact ⟨jt, List.mem_cons_of_mem it hj, h⟩
      refine ⟨sel', ?_, hcount', fun a b => ?_, fun a b => (hbi a b).trans (hbi₁ a b),
        fun s => ?_⟩
      · unfold MutilatedSelection.aim
        rw [if_neg (by tauto), if_neg (by omega), hins]
        exact hok
      · rw [hdir, haimed]
        show graph.mixed.dir a b ∨ _ ↔ _
        rw [hdir₁, or_assoc]
      · rw [hsel]
        simp only [haimed, List.mem_append, List.mem_singleton]
        constructor
        · rintro ((h | h) | ⟨t, h⟩)
          exacts [Or.inl h, Or.inr ⟨it.1, Or.inl ⟨h, rfl⟩⟩, Or.inr ⟨t, Or.inr h⟩]
        · rintro (h | ⟨t, h | h⟩)
          exacts [Or.inl (Or.inl h), Or.inl (Or.inr h.1), Or.inr ⟨t, h⟩]

/-- What `build` returns. -/
structure Built (original : Admg) (v x : Finset Nat) (targets : List Nat)
    (sel : MutilatedSelection) : Prop where
  nodeCount : sel.graph.nodeCount = original.nodeCount + targets.length
  dir : ∀ a b, sel.graph.mixed.dir a b ↔
    (original.mixed.dir a b ∧ a ∈ v ∧ b ∈ v ∧ b ∉ x) ∨
      Aimed original.nodeCount v x targets.zipIdx a b
  bi : ∀ a b, sel.graph.mixed.bi a b ↔ original.mixed.bi a b ∧ a ∈ v ∧ b ∈ v ∧ a ∉ x ∧ b ∉ x
  selectionNodes : ∀ s, s ∈ sel.selectionNodes ↔
    ∃ t, Aimed original.nodeCount v x targets.zipIdx s t

/-- **The copy with its selection nodes is built when its nodes fit in a `u32`.** -/
theorem build_ok (hv : ∀ a ∈ v, a < original.nodeCount)
    (hfit : original.nodeCount + targets.length ≤ u32Max) :
    ∃ sel, MutilatedSelection.build original v x targets = .ok sel ∧
      Built original v x targets sel := by
  obtain ⟨graph, hcopy, hcount, hdir, hbi⟩ :=
    @Admg.copyLoop_ok original (fun src dst => src ∈ v ∧ dst ∈ v ∧ dst ∉ x)
      (fun a b => a ∈ v ∧ b ∈ v ∧ a ∉ x ∧ b ∉ x) _
      (Nat.le_add_right _ targets.length) (Nat.le_succ_of_le hfit)
  have hdir' : ∀ a b, graph.mixed.dir a b ↔
      original.mixed.dir a b ∧ a ∈ v ∧ b ∈ v ∧ b ∉ x := by
    intro a b
    rw [hdir, decide_eq_true_eq]
  have hbi' : ∀ a b, graph.mixed.bi a b ↔
      original.mixed.bi a b ∧ a ∈ v ∧ b ∈ v ∧ a ∉ x ∧ b ∉ x := by
    intro a b
    rw [hbi, decide_eq_true_eq]
    rcases Nat.le_total a b with h | h
    · rw [min_eq_left h, max_eq_right h]
    · rw [min_eq_right h, max_eq_left h]
      tauto
  have hindex : ∀ it ∈ targets.zipIdx, it.2 < targets.length := fun it hit => by
    have := List.mem_zipIdx hit
    omega
  obtain ⟨sel, hok, hcount', hdir₂, hbi₂, hsel⟩ := aim_loop (v := v) (x := x)
    (n := original.nodeCount) hv (Nat.le_succ_of_le hfit) (Nat.le_add_right _ _)
    (l := targets.zipIdx) ⟨graph, []⟩ hcount
    (by rw [List.zipIdx_map_snd]; exact List.nodup_range')
    (fun it hit => Nat.add_lt_add_left (hindex it hit) _)
    (fun a b h => hv b ((hdir' a b).mp h).2.2.1)
    (fun it _ b h => absurd (hv _ ((hdir' _ b).mp h).2.1) (by omega))
  refine ⟨sel, ?_, hcount', fun a b => ?_, fun a b => ?_, fun s => ?_⟩
  · unfold MutilatedSelection.build
    rw [if_neg (by omega)]
    have hext : original.copyExtended targets.length (fun src dst => src ∈ v ∧ dst ∈ v ∧ dst ∉ x)
        (fun a b => a ∈ v ∧ b ∈ v ∧ a ∉ x ∧ b ∉ x) = .ok graph := by
      unfold Admg.copyExtended
      rw [if_neg (by omega)]
      exact hcopy
    rw [hext]
    exact hok
  · exact (hdir₂ a b).trans (or_congr_left (hdir' a b))
  · exact (hbi₂ a b).trans (hbi' a b)
  · rw [hsel]
    simp

theorem build_error (hfit : u32Max < original.nodeCount + targets.length) :
    ∃ e, MutilatedSelection.build original v x targets = .error e := by
  unfold MutilatedSelection.build
  by_cases hlen : u32Max < targets.length
  · exact ⟨_, if_pos hlen⟩
  · rw [if_neg hlen]
    have hext : original.copyExtended targets.length (fun src dst => src ∈ v ∧ dst ∈ v ∧ dst ∉ x)
        (fun a b => a ∈ v ∧ b ∈ v ∧ a ∉ x ∧ b ∉ x) = .error .tooManyNodes := if_pos hfit
    rw [hext]
    exact ⟨_, rfl⟩

/-! ## One selection node at a time -/

/-- The nodes of `reaimed` among those of the copy: `n` is the selection node `n + i`, and what lies
past it goes past the copy. -/
def nodeOf (n k i j : Nat) : Nat := if j < n then j else if j = n then n + i else j + k

theorem nodeOf_injective (hi : i < k) : Function.Injective (nodeOf n k i) := by
  intro a b h
  unfold nodeOf at h
  split_ifs at h <;> omega

theorem nodeOf_of_lt (h : j < n) : nodeOf n k i j = j := if_pos h

theorem nodeOf_self : nodeOf n k i n = n + i := by
  unfold nodeOf
  rw [if_neg (Nat.lt_irrefl n), if_pos rfl]

theorem lt_of_nodeOf_lt (h : nodeOf n k i j < n) : j < n := by
  unfold nodeOf at h
  split_ifs at h <;> omega

theorem target_unique {s t i : Nat} (h : (t, i) ∈ targets.zipIdx) (h' : (s, i) ∈ targets.zipIdx) :
    s = t := by
  rw [List.mk_mem_zipIdx_iff_getElem?] at h h'
  exact Option.some.inj (h'.symm.trans h)

namespace Built

variable {sel : MutilatedSelection} {t i : Nat}

theorem index_lt (hi : (t, i) ∈ targets.zipIdx) : i < targets.length := by
  have := List.mem_zipIdx hi
  omega

variable (h : Built original v x targets sel) (hv : ∀ a ∈ v, a < original.nodeCount)

include h hv

/-- Seen from the nodes of the graph and the selection node of `t`, the copy is `reaimed`. -/
theorem comap_eq (hi : (t, i) ∈ targets.zipIdx) (ht : t ∈ v ∧ t ∉ x) :
    sel.graph.mixed.comap (nodeOf original.nodeCount targets.length i) =
      reaimed original v x t := by
  set n := original.nodeCount
  ext a b
  · show sel.graph.mixed.dir _ _ ↔ _
    rw [h.dir]
    constructor
    · rintro (⟨hd, ha, hb, hx⟩ | ⟨⟨s, j⟩, hj, hs, -, hja, hjb⟩)
      · have hlt := original.valid.in_range _ _ hd
        have ea := nodeOf_of_lt (k := targets.length) (i := i) (lt_of_nodeOf_lt hlt.1)
        have eb := nodeOf_of_lt (k := targets.length) (i := i) (lt_of_nodeOf_lt hlt.2)
        rw [ea, eb] at hd
        rw [ea] at ha
        rw [eb] at hb hx
        exact Or.inl ⟨hd, ha, hb, hx⟩
      · have hjk := index_lt hj
        have hsn : nodeOf n targets.length i b < n := hjb ▸ hv s hs
        have hbs : b = s := (nodeOf_of_lt (lt_of_nodeOf_lt hsn)).symm.trans hjb
        unfold nodeOf at hja
        split_ifs at hja with h1 h2
        · exact absurd hja (by omega)
        · obtain rfl : i = j := by omega
          exact Or.inr ⟨h2, hbs.trans (target_unique hi hj)⟩
        · exact absurd hja (by omega)
    · rintro (⟨hd, ha, hb, hx⟩ | ⟨rfl, rfl⟩)
      · rw [nodeOf_of_lt (hv a ha), nodeOf_of_lt (hv b hb)]
        exact Or.inl ⟨hd, ha, hb, hx⟩
      · rw [nodeOf_self, nodeOf_of_lt (hv b ht.1)]
        exact Or.inr ⟨(b, i), hi, ht.1, ht.2, rfl, rfl⟩
  · show sel.graph.mixed.bi _ _ ↔ _
    rw [h.bi]
    constructor
    · rintro ⟨hd, h'⟩
      have hlt := bi_lt hd
      rw [nodeOf_of_lt (lt_of_nodeOf_lt hlt.1), nodeOf_of_lt (lt_of_nodeOf_lt hlt.2)] at hd h'
      exact ⟨hd, h'⟩
    · rintro ⟨hd, h'⟩
      rw [nodeOf_of_lt (hv a h'.1), nodeOf_of_lt (hv b h'.2.1)]
      exact ⟨hd, h'⟩

/-- The other selection nodes are sources with one child. -/
theorem pendant : sel.graph.mixed.Pendant (nodeOf original.nodeCount targets.length i) := by
  have named : ∀ {a}, a < original.nodeCount →
      a ∈ Set.range (nodeOf original.nodeCount targets.length i) := fun {a} ha =>
    ⟨a, nodeOf_of_lt ha⟩
  refine ⟨fun a b hb hd => hb (named ?_), fun a b hb hd => hb (named ?_), ?_⟩
  · rcases (h.dir a b).mp hd with hd | ⟨it, -, hit, -, -, rfl⟩
    exacts [hv b hd.2.2.1, hv _ hit]
  · exact (bi_lt ((h.bi a b).mp hd).1).2
  · intro a b c ha hb hc
    have aimed : ∀ {d}, sel.graph.mixed.dir a d →
        Aimed original.nodeCount v x targets.zipIdx a d := fun {d} hd =>
      ((h.dir a d).mp hd).resolve_left fun hd => ha (named (hv a hd.2.1))
    obtain ⟨⟨s, j⟩, hj, -, -, hja, rfl⟩ := aimed hb
    obtain ⟨⟨s', j'⟩, hj', -, -, hja', rfl⟩ := aimed hc
    obtain rfl : j = j' := by
      simp only at hja hja'
      omega
    exact target_unique hj' hj

/-- **Separation from one selection node is separation in `reaimed`.** -/
theorem mSeparated_iff (hi : (t, i) ∈ targets.zipIdx) (ht : t ∈ v ∧ t ∉ x)
    (hcond : ∀ a ∈ cond, a < original.nodeCount) {y : Nat} (hy : y < original.nodeCount)
    (hyc : y ∉ cond) : sel.graph.mixed.MSeparated {original.nodeCount + i} {y} cond ↔
      (reaimed original v x t).MSeparated {original.nodeCount} {y} cond := by
  have himage : nodeOf original.nodeCount targets.length i '' (cond : Set Nat) = cond := by
    ext a
    constructor
    · rintro ⟨b, hb, rfl⟩
      rw [nodeOf_of_lt (hcond b hb)]
      exact hb
    · exact fun ha => ⟨a, ha, nodeOf_of_lt (hcond a ha)⟩
  have key := (h.pendant (i := i) hv).mSeparated_comap_iff (X := {original.nodeCount}) (Y := {y})
    (C := cond) (nodeOf_injective (index_lt hi))
    (by rintro _ rfl hn; exact absurd (hcond _ hn) (Nat.lt_irrefl _)) (by rintro _ rfl; exact hyc)
  rw [Set.image_singleton, Set.image_singleton, himage, nodeOf_self, nodeOf_of_lt hy,
    h.comap_eq hv hi ht] at key
  exact key

end Built

/-! ## The search's answer -/

namespace Built

variable {outcomes conditions : List Nat}

variable (h : Built original v x targets sel)
  (hconditions : ∀ a ∈ conditions, a < original.nodeCount)
  (houtcomes : ∀ y ∈ outcomes, y < original.nodeCount ∧ y ∉ conditions)

include h hconditions houtcomes

theorem setQuery : SetQuery sel.graph.nodeCount sel.selectionNodes outcomes conditions := by
  have hpast : ∀ s ∈ sel.selectionNodes, original.nodeCount ≤ s ∧ s < sel.graph.nodeCount := by
    intro s hs
    obtain ⟨t, ⟨t, i⟩, hi, -, -, rfl, -⟩ := (h.selectionNodes s).mp hs
    have := index_lt hi
    rw [h.nodeCount]
    exact ⟨Nat.le_add_right _ _, Nat.add_lt_add_left this _⟩
  have hup : ∀ {a}, a < original.nodeCount → a < sel.graph.nodeCount := fun ha => by
    rw [h.nodeCount]
    omega
  refine ⟨fun s hs => (hpast s hs).2, fun y hy => hup (houtcomes y hy).1,
    fun a ha => hup (hconditions a ha), fun s hs hy => ?_, fun s hs hc => ?_,
    fun y hy => (houtcomes y hy).2⟩
  · exact absurd (houtcomes s hy).1 (Nat.not_lt_of_le (hpast s hs).1)
  · exact absurd (hconditions s hc) (Nat.not_lt_of_le (hpast s hs).1)

/-- **The search's test is separation of every outcome from every selection node.** -/
theorem separates_iff :
    sel.separates outcomes conditions = .ok true ↔ ∀ s ∈ sel.selectionNodes, ∀ y ∈ outcomes,
      sel.graph.mixed.MSeparated {s} {y} {a | a ∈ conditions} := by
  have hq := h.setQuery hconditions houtcomes
  have hs : ∀ s ∈ {s | s ∈ sel.selectionNodes}, s ∉ {a | a ∈ conditions} := hq.sources_z
  have hy : ∀ y ∈ {y | y ∈ outcomes}, y ∉ {a | a ∈ conditions} := hq.targets_z
  have hpairs := MixedGraph.mSeparated_iff_pairs (G := sel.graph.mixed) hs hy
  rw [MixedGraph.mSeparated_iff_ball hs hy] at hpairs
  unfold MutilatedSelection.separates
  rw [Admg.isMSeparatedSets_iff hq]
  refine Iff.trans ?_ hpairs
  push Not
  rfl

end Built

/-! ## Agreement -/

/-- **The two tests of S-admissibility answer alike**, for every vertex set, intervention, list of
targets, outcomes and condition; `build` refuses only a copy whose nodes do not fit in a `u32`. -/
theorem independentlySeparated_agrees (original : Admg) (v x : Finset Nat)
    (targets outcomes given conditions : List Nat) (hv : ∀ a ∈ v, a < original.nodeCount)
    (hx : x ⊆ v) (hgiven : ∀ a ∈ given, a < original.nodeCount)
    (houtcomes : ∀ y ∈ outcomes, y < original.nodeCount ∧ y ∉ x ∧ y ∉ given)
    (hconditions : ∀ a, a ∈ conditions ↔ a ∈ x ∨ a ∈ given) :
    (∀ sel, MutilatedSelection.build original v x targets = .ok sel →
      sel.separates outcomes conditions =
        .ok (independentlySeparated original v x targets outcomes given)) ∧
    ((∃ sel, MutilatedSelection.build original v x targets = .ok sel) ↔
      original.nodeCount + targets.length ≤ u32Max) := by
  have hfits : ∀ {sel}, MutilatedSelection.build original v x targets = .ok sel →
      original.nodeCount + targets.length ≤ u32Max := by
    intro sel hsel
    by_contra hfit
    obtain ⟨e, he⟩ := build_error (v := v) (x := x) (Nat.lt_of_not_le hfit)
    rw [he] at hsel
    cases hsel
  refine ⟨fun sel hsel => ?_, fun ⟨sel, hsel⟩ => hfits hsel, fun hfit => ?_⟩
  swap
  · obtain ⟨sel, hsel, -⟩ := build_ok (x := x) hv hfit
    exact ⟨sel, hsel⟩
  obtain ⟨sel', hsel', h⟩ := build_ok (x := x) hv (hfits hsel)
  obtain rfl := Except.ok.inj (hsel.symm.trans hsel')
  set cond := x ∪ given.toFinset with hcondDef
  have hmem : ∀ a, a ∈ cond ↔ a ∈ conditions := fun a => by
    rw [hconditions, hcondDef, Finset.mem_union, List.mem_toFinset]
  have hcond : ∀ a ∈ cond, a < original.nodeCount := by
    intro a ha
    rcases (hconditions a).mp ((hmem a).mp ha) with ha | ha
    exacts [hv a (hx ha), hgiven a ha]
  have hset : {a | a ∈ conditions} = (cond : Set Nat) := Set.ext fun a => (hmem a).symm
  have houtside : ∀ y ∈ outcomes, y ∉ cond := fun y hy hc => by
    rcases (hconditions y).mp ((hmem y).mp hc) with hc | hc
    exacts [(houtcomes y hy).2.1 hc, (houtcomes y hy).2.2 hc]
  have hconds : ∀ a ∈ conditions, a < original.nodeCount := fun a ha =>
    hcond a ((hmem a).mpr ha)
  have hout : ∀ y ∈ outcomes, y < original.nodeCount ∧ y ∉ conditions := fun y hy =>
    ⟨(houtcomes y hy).1, fun hc => houtside y hy ((hmem y).mpr hc)⟩
  have hsearch := h.separates_iff hconds hout
  rw [hset] at hsearch
  have hcheck : independentlySeparated original v x targets outcomes given = true ↔
      ∀ t ∈ targets, t ∈ v → t ∉ x → ∀ y ∈ outcomes,
        (reaimed original v x t).MSeparated {original.nodeCount} {y} cond := by
    unfold independentlySeparated
    rw [List.all_eq_true]
    refine forall₂_congr fun t _ => ?_
    rw [Bool.or_eq_true, decide_eq_true_eq, List.all_eq_true]
    by_cases hlive : t ∉ v ∨ t ∈ x
    · exact iff_of_true (Or.inl hlive) fun h1 h2 => absurd hlive (by tauto)
    · rw [or_iff_right hlive]
      push Not at hlive
      rw [forall_prop_of_true hlive.1, forall_prop_of_true hlive.2]
      refine forall₂_congr fun y hy => ?_
      rw [← connected_reaimed (hv t hlive.1) hcond (houtcomes y hy).1 (houtside y hy)]
      have hself : original.nodeCount ∉ cond := fun hn => Nat.lt_irrefl _ (hcond _ hn)
      simp [← hcondDef, hself, houtside y hy]
  obtain ⟨b, hb⟩ : ∃ b, sel.separates outcomes conditions = .ok b :=
    ⟨_, Admg.isMSeparatedSets_eq (h.setQuery hconds hout)⟩
  rw [hb]
  refine congrArg _ (Bool.eq_iff_iff.mpr ?_)
  rw [hcheck]
  rw [hb] at hsearch
  refine Iff.trans (by simp) (hsearch.trans ?_)
  constructor
  · intro hall t ht htv htx y hy
    obtain ⟨i, hi⟩ := List.getElem?_of_mem ht
    have hi := List.mk_mem_zipIdx_iff_getElem?.mpr hi
    rw [← h.mSeparated_iff hv hi ⟨htv, htx⟩ hcond (houtcomes y hy).1 (houtside y hy)]
    exact hall _ ((h.selectionNodes _).mpr ⟨t, (t, i), hi, htv, htx, rfl, rfl⟩) y hy
  · intro hall s hs y hy
    obtain ⟨_, ⟨t, i⟩, hi, htv, htx, rfl, -⟩ := (h.selectionNodes s).mp hs
    rw [h.mSeparated_iff hv hi ⟨htv, htx⟩ hcond (houtcomes y hy).1 (houtside y hy)]
    refine hall t ?_ htv htx y hy
    exact List.mem_of_getElem? (List.mk_mem_zipIdx_iff_getElem?.mp hi)

/-- `1 ↔ 0 ↔ 2` under an intervention on `0`, with a selection node at `2`, given `2`. -/
theorem independentlySeparated_agrees_confounded :
    ∃ g, ((Admg.withVariables 3).insertBidirected 0 1 >>= fun g => g.insertBidirected 0 2) = .ok g ∧
      ∃ sel, MutilatedSelection.build g {0, 1, 2} {0} [2] = .ok sel ∧
        sel.separates [1] [0, 2] =
          .ok (independentlySeparated g {0, 1, 2} {0} [2] [1] [2]) := by
  obtain ⟨g, hg, hn⟩ : ∃ g, ((Admg.withVariables 3).insertBidirected 0 1 >>= fun g =>
      g.insertBidirected 0 2) = .ok g ∧ g.nodeCount = 3 := ⟨_, rfl, rfl⟩
  obtain ⟨hagree, hbuild⟩ := independentlySeparated_agrees g {0, 1, 2} {0} [2] [1] [2] [0, 2]
    (by rw [hn]; decide) (by decide) (by rw [hn]; decide) (by rw [hn]; decide) (by simp)
  obtain ⟨sel, hsel⟩ := hbuild.mpr (by rw [hn]; decide)
  exact ⟨g, hg, sel, hsel, hagree sel hsel⟩

end Antecedent.Identify
