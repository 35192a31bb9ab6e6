import Antecedent.Graph.Admg
import Antecedent.Mixed.Moral

/-!
# Districts

Model of `Admg::districts_into` (`admg.rs:533-569`): the nodes inside a set are visited in ascending
order, and an unlabelled one labels everything its bidirected edges reach inside the set.

* `districtsInto_inv`: two nodes carry one label exactly when bidirected edges join them inside the
  set, every inside node is labelled, and no other is.
-/

namespace Antecedent.Graph

open Mixed
open Worklist

namespace Admg

/-- The labels of `districts_into`: `none` is the `u32::MAX` of an unlabelled node. -/
structure DistrictLabels where
  label : Nat → Option Nat
  next : Nat

/-- One root of `districts_into`: label everything its bidirected edges reach. -/
def labelFrom (g : Admg) (inside : Nat → Bool) (st : DistrictLabels) (root : Nat) :
    DistrictLabels :=
  if (st.label root).isSome || !inside root then st
  else
    let comp := closure (fun u => (g.bidirectedNeighbors u).filter fun v =>
      (st.label v).isNone && inside v) (g.nodeCount + 1) [root]
    ⟨fun v => if v ∈ comp then some st.next else st.label v, st.next + 1⟩

/-- Lines 533-569. -/
def districtsInto (g : Admg) (inside : Nat → Bool) : DistrictLabels :=
  (List.range g.nodeCount).foldl (g.labelFrom inside) ⟨fun _ => none, 0⟩

/-- What the labels say after the roots below `k`: labelled nodes are inside, a label covers
exactly one district, and every inside node below `k` is labelled. -/
structure LabelInv (g : Admg) (inside : Nat → Bool) (k : Nat) (st : DistrictLabels) : Prop where
  mem : ∀ v i, st.label v = some i → inside v = true ∧ v < g.nodeCount ∧ i < st.next
  closed : ∀ u v i, st.label u = some i → g.mixed.District {v | inside v = true} u v →
    st.label v = some i
  joined : ∀ u v i, st.label u = some i → st.label v = some i →
    g.mixed.District {v | inside v = true} u v
  covered : ∀ v, v < k → inside v = true → ∃ i, st.label v = some i

theorem labelInv_init (g : Admg) (inside : Nat → Bool) :
    g.LabelInv inside 0 ⟨fun _ => none, 0⟩ where
  mem _ _ h := absurd h (by simp)
  closed _ _ _ h := absurd h (by simp)
  joined _ _ _ h := absurd h (by simp)
  covered _ h := absurd h (Nat.not_lt_zero _)

variable {g : Admg} {inside : Nat → Bool} {k : Nat} {st : DistrictLabels}

theorem mem_component (h : g.LabelInv inside k st) {root : Nat} (hr : root < g.nodeCount)
    (hin : inside root = true) (hnone : st.label root = none) (v : Nat) :
    v ∈ closure (fun u => (g.bidirectedNeighbors u).filter fun v =>
        (st.label v).isNone && inside v) (g.nodeCount + 1) [root] ↔
      g.mixed.District {v | inside v = true} root v := by
  have hU : Bounded (fun u => (g.bidirectedNeighbors u).filter fun v =>
      (st.label v).isNone && inside v) [root] (Finset.range g.nodeCount) := by
    refine ⟨fun s hs => ?_, fun u _ w hw => ?_⟩
    · rw [List.mem_singleton.mp hs]
      exact Finset.mem_range.mpr hr
    · exact Finset.mem_range.mpr (g.biValid.in_range u w (List.mem_filter.mp hw).1)
  rw [mem_closure hU (by rw [Finset.card_range]; exact Nat.lt_succ_self _)]
  constructor
  · rintro ⟨s, hs, hreach⟩
    rw [List.mem_singleton.mp hs] at hreach
    have key : g.mixed.District {v | inside v = true} root v ∧ inside v = true := by
      induction hreach with
      | refl => exact ⟨.refl, hin⟩
      | tail _ hbc ih =>
        simp only [List.mem_filter, Bool.and_eq_true] at hbc
        exact ⟨ih.1.tail ⟨ih.2, hbc.2.2, hbc.1⟩, hbc.2.2⟩
    exact key.1
  · intro hd
    refine ⟨root, List.mem_singleton.mpr rfl, ?_⟩
    induction hd with
    | refl => exact .refl
    | @tail b c hab hbc ih =>
      refine ih.tail ?_
      simp only [List.mem_filter, Bool.and_eq_true, Option.isNone_iff_eq_none]
      refine ⟨hbc.2.2, ?_, hbc.2.1⟩
      cases hc : st.label c with
      | none => rfl
      | some i =>
        have := h.closed c root i hc (MixedGraph.District.symm (hab.tail hbc))
        rw [hnone] at this
        exact absurd this (by simp)

/-- The step lemma of `districts_into`. -/
theorem labelFrom_inv (h : g.LabelInv inside k st) (hk : k < g.nodeCount) :
    g.LabelInv inside (k + 1) (g.labelFrom inside st k) := by
  unfold labelFrom
  split_ifs with hc
  · refine ⟨h.mem, h.closed, h.joined, fun v hv hin => ?_⟩
    rcases Nat.lt_succ_iff_lt_or_eq.mp hv with hv | rfl
    · exact h.covered v hv hin
    · simpa [hin, Option.isSome_iff_exists] using hc
  · simp only [Bool.or_eq_true, Bool.not_eq_true', not_or, Bool.not_eq_false,
      Option.not_isSome_iff_eq_none] at hc
    obtain ⟨hnone, hin⟩ := hc
    have hcomp := mem_component h hk hin hnone
    set comp := closure (fun u => (g.bidirectedNeighbors u).filter fun v =>
      (st.label v).isNone && inside v) (g.nodeCount + 1) [k]
    have hnew : ∀ v ∈ comp, st.label v = none := by
      intro v hv
      cases hl : st.label v with
      | none => rfl
      | some i =>
        have := h.closed v k i hl (MixedGraph.District.symm ((hcomp v).mp hv))
        rw [hnone] at this
        exact absurd this (by simp)
    have hlt : ∀ v i, st.label v = some i → i ≠ st.next := fun v i hv =>
      Nat.ne_of_lt (h.mem v i hv).2.2
    have hin_comp : ∀ v ∈ comp, inside v = true := by
      intro v hv
      have hmem : v ∈ {v | inside v = true} := MixedGraph.District.mem ((hcomp v).mp hv) hin
      exact hmem
    have hrange : ∀ v ∈ comp, v < g.nodeCount := by
      intro v hv
      rcases Relation.ReflTransGen.cases_tail ((hcomp v).mp hv) with e | ⟨w, -, hw⟩
      · exact e ▸ hk
      · exact g.biValid.in_range w v hw.2.2
    refine ⟨fun v i hv => ?_, fun u v i hu hd => ?_, fun u v i hu hv => ?_, fun v hv hvin => ?_⟩
    · simp only at hv ⊢
      split_ifs at hv with hm
      · cases hv
        exact ⟨hin_comp v hm, hrange v hm, Nat.lt_succ_self _⟩
      · obtain ⟨h1, h2, h3⟩ := h.mem v i hv
        exact ⟨h1, h2, Nat.lt_succ_of_lt h3⟩
    · simp only at hu ⊢
      split_ifs at hu with hm
      · rw [if_pos ((hcomp v).mpr (((hcomp u).mp hm).trans hd)), ← hu]
      · have hv := h.closed u v i hu hd
        rw [if_neg fun hc => by rw [hnew v hc] at hv; exact absurd hv (by simp), hv]
    · simp only at hu hv
      split_ifs at hu hv with hmu hmv hmv
      · exact (MixedGraph.District.symm ((hcomp u).mp hmu)).trans ((hcomp v).mp hmv)
      · cases hu
        exact absurd rfl (hlt v _ hv)
      · cases hv
        exact absurd rfl (hlt u _ hu)
      · exact h.joined u v i hu hv
    · simp only
      split_ifs with hm
      · exact ⟨_, rfl⟩
      · rcases Nat.lt_succ_iff_lt_or_eq.mp hv with hv | rfl
        · exact h.covered v hv hvin
        · exact absurd ((hcomp v).mpr .refl) hm

/-- The roots below `k` done. -/
theorem labelInv_upto (g : Admg) (inside : Nat → Bool) : ∀ {k : Nat}, k ≤ g.nodeCount →
    g.LabelInv inside k ((List.range k).foldl (g.labelFrom inside) ⟨fun _ => none, 0⟩) := by
  intro k
  induction k with
  | zero => intro _; exact g.labelInv_init inside
  | succ k ih =>
    intro hk
    rw [List.range_succ, List.foldl_append]
    exact labelFrom_inv (ih (by omega)) (by omega)

/-- The run lemma: all roots done. -/
theorem districtsInto_inv (g : Admg) (inside : Nat → Bool) :
    g.LabelInv inside g.nodeCount (g.districtsInto inside) := labelInv_upto g inside (Nat.le_refl _)

/-! ## The number of districts -/

/-- Lines 619-623. -/
def districtCount (g : Admg) : Nat := (g.districtsInto fun _ => true).next

/-- The labels after the roots below `k`. -/
def labelsUpto (g : Admg) (k : Nat) : DistrictLabels :=
  (List.range k).foldl (g.labelFrom fun _ => true) ⟨fun _ => none, 0⟩

theorem labelsUpto_succ (g : Admg) (k : Nat) :
    g.labelsUpto (k + 1) = g.labelFrom (fun _ => true) (g.labelsUpto k) k := by
  unfold labelsUpto
  rw [List.range_succ, List.foldl_append]
  rfl

theorem next_labelFrom (g : Admg) (st : DistrictLabels) (k : Nat) :
    (g.labelFrom (fun _ => true) st k).next =
      if (st.label k).isSome then st.next else st.next + 1 := by
  unfold labelFrom
  by_cases h : (st.label k).isSome
  · simp [h]
  · simp [h]

theorem next_labelsUpto_le (g : Admg) (k : Nat) : (g.labelsUpto k).next ≤ k := by
  induction k with
  | zero => exact Nat.le_refl 0
  | succ k ih =>
    rw [labelsUpto_succ, next_labelFrom]
    split <;> omega

theorem next_labelsUpto_lt {a b : Nat} (hbi : g.mixed.bi a b) (hab : a < b)
    (hk : k ≤ g.nodeCount) (hb : b < k) : (g.labelsUpto k).next < k := by
  induction k with
  | zero => exact absurd hb (Nat.not_lt_zero b)
  | succ k ih =>
    have hle := g.next_labelsUpto_le k
    rw [labelsUpto_succ, next_labelFrom]
    by_cases hbk : b < k
    · have hlt := ih (by omega) hbk
      split <;> omega
    · obtain rfl : b = k := by omega
      have hinv := g.labelInv_upto (fun _ => true) (k := b) (by omega)
      obtain ⟨i, hi⟩ := hinv.covered a hab rfl
      have hlab : (g.labelsUpto b).label b = some i :=
        hinv.closed a b i hi (.single ⟨rfl, rfl, hbi⟩)
      rw [hlab]
      simp only [Option.isSome_some, if_true]
      omega

theorem labelsUpto_of_directed (hbi : ∀ a b, ¬ g.mixed.bi a b) (hk : k ≤ g.nodeCount) :
    (g.labelsUpto k).next = k ∧ ∀ v, k ≤ v → (g.labelsUpto k).label v = none := by
  induction k with
  | zero => exact ⟨rfl, fun _ _ => rfl⟩
  | succ k ih =>
    obtain ⟨hnext, hnone⟩ := ih (by omega)
    have hk' := hnone k (Nat.le_refl k)
    have hroot : k < g.nodeCount := hk
    have hcomp := mem_component (g.labelInv_upto (fun _ => true) (Nat.le_of_lt hroot)) hroot rfl hk'
    rw [labelsUpto_succ, next_labelFrom, hk', hnext]
    refine ⟨rfl, fun v hv => ?_⟩
    unfold labelFrom
    rw [hk']
    simp only [Option.isSome_none, Bool.not_true, Bool.or_self, Bool.false_eq_true, if_false]
    rw [if_neg, hnone v (by omega)]
    intro hmem
    rcases Relation.ReflTransGen.cases_tail ((hcomp v).mp hmem) with e | ⟨w, -, hw⟩
    · omega
    · exact hbi w v hw.2.2

/-- **There are as many districts as nodes exactly when there are no bidirected edges.** -/
theorem districtCount_eq_iff (g : Admg) :
    g.districtCount = g.nodeCount ↔ ∀ a b, ¬ g.mixed.bi a b := by
  constructor
  · intro h a b hbi
    have hlt : ∀ {a b}, g.mixed.bi a b → a < b → False := fun hbi hab =>
      absurd h (Nat.ne_of_lt (next_labelsUpto_lt hbi hab (Nat.le_refl _)
        (g.biValid.in_range _ _ hbi)))
    rcases Nat.lt_trichotomy a b with hab | rfl | hab
    · exact hlt hbi hab
    · exact g.biValid.irrefl a hbi
    · exact hlt (g.mixed.bi_symm hbi) hab
  · exact fun h => (labelsUpto_of_directed h (Nat.le_refl _)).1

end Admg

end Antecedent.Graph
