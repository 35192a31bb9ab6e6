import Mathlib.Data.List.Sort
import Mathlib.Data.List.Range
import Mathlib.Data.List.Sublists
import Mathlib.Algebra.GroupWithZero.Nat

/-!
# Conditioning sets in lexicographic order

Model of `combinations.rs` and of the merge that scans two families of them.

* `Combinations` steps through increasing tuples of positions with `advance_combination`.
* `mem_sortedUnion`: the merge yields what either family has.
-/

namespace Antecedent.Discovery

/-- `advance_combination` (`combinations.rs:58-71`): the last position that is not at its limit
`i + n - k` moves up and those after it follow. -/
def advanceCombination (n : Nat) : List Nat → Option (List Nat)
  | [] => none
  | a :: rest =>
    match advanceCombination n rest with
    | some rest' => some (a :: rest')
    | none =>
      if a + (rest.length + 1) ≠ n then some (List.range' (a + 1) (rest.length + 1)) else none

/-- The tuples from `idx` on. -/
def advanceAll (n : Nat) : Nat → List Nat → List (List Nat)
  | 0, _ => []
  | fuel + 1, idx =>
    idx :: match advanceCombination n idx with
      | some idx' => advanceAll n fuel idx'
      | none => []

/-- `Combinations` (`combinations.rs:73-102`): every tuple it yields, in order. A family has fewer
tuples than the items have subsets. -/
def combinations (items : List Nat) (k : Nat) : List (List Nat) :=
  if k > items.length then []
  else (advanceAll items.length (2 ^ items.length) (List.range k)).map fun idx =>
    idx.map fun i => items.getD i 0

/-! ## What it yields -/

/-- The increasing tuples of `k` positions from `lo` on, below `lo + m`, in lexicographic order. -/
def tuples (lo : Nat) : Nat → Nat → List (List Nat)
  | _, 0 => [[]]
  | 0, _ + 1 => []
  | m + 1, k + 1 => (tuples (lo + 1) m k).map (lo :: ·) ++ tuples (lo + 1) m (k + 1)

theorem tuples_zero (lo m : Nat) : tuples lo m 0 = [[]] := by cases m <;> rfl

theorem tuples_of_lt : ∀ {m k lo : Nat}, m < k → tuples lo m k = []
  | _, 0, _, h => absurd h (Nat.not_lt_zero _)
  | 0, _ + 1, _, _ => rfl
  | m + 1, k + 1, lo, h => by
    rw [tuples, tuples_of_lt (Nat.lt_of_succ_lt_succ h), tuples_of_lt (by omega)]
    rfl

theorem length_tuples_le : ∀ (m k lo : Nat), (tuples lo m k).length ≤ 2 ^ m
  | m, 0, lo => by
    rw [tuples_zero]
    exact Nat.one_le_two_pow
  | 0, _ + 1, _ => Nat.zero_le _
  | m + 1, k + 1, lo => by
    have h1 := length_tuples_le m k (lo + 1)
    have h2 := length_tuples_le m (k + 1) (lo + 1)
    rw [tuples, List.length_append, List.length_map, Nat.pow_succ]
    omega

theorem length_of_mem_tuples : ∀ {m k lo : Nat} {t : List Nat}, t ∈ tuples lo m k → t.length = k
  | m, 0, lo, t, h => by
    rw [tuples_zero, List.mem_singleton] at h
    rw [h]
    rfl
  | 0, _ + 1, _, _, h => absurd h List.not_mem_nil
  | m + 1, k + 1, lo, t, h => by
    rcases List.mem_append.mp h with h | h
    · obtain ⟨r, hr, rfl⟩ := List.mem_map.mp h
      rw [List.length_cons, length_of_mem_tuples hr]
    · exact length_of_mem_tuples h

/-- The tuples follow one another, and none follows the last. -/
def Runs (n : Nat) : List (List Nat) → Prop
  | [] => False
  | [a] => advanceCombination n a = none
  | a :: b :: l => advanceCombination n a = some b ∧ Runs n (b :: l)

theorem advanceAll_of_runs {n : Nat} : ∀ {l : List (List Nat)} {a : List Nat} {fuel : Nat},
    Runs n (a :: l) → l.length + 1 ≤ fuel → advanceAll n fuel a = a :: l
  | [], a, fuel + 1, h, _ => by
    rw [advanceAll, show advanceCombination n a = none from h]
  | b :: l, a, fuel + 1, h, hf => by
    rw [advanceAll, h.1]
    simp only [List.cons.injEq, true_and]
    exact advanceAll_of_runs h.2 (Nat.le_of_succ_le_succ hf)

/-- Two runs one after the other, the first with a position in front. -/
theorem runs_append {n lo k : Nat} {r : List (List Nat)} : ∀ {l : List (List Nat)}, Runs n l →
    (∀ t ∈ l, t.length = k) →
    ((r = [] ∧ lo + (k + 1) = n) ∨
      (lo + (k + 1) ≠ n ∧ Runs n r ∧ r.head? = some (List.range' (lo + 1) (k + 1)))) →
    Runs n (l.map (lo :: ·) ++ r)
  | [a], h, hlen, hr => by
    have ha : advanceCombination n a = none := h
    have hl : a.length = k := hlen a (.head _)
    rcases hr with ⟨rfl, hk⟩ | ⟨hk, hrun, hhead⟩
    · show advanceCombination n (lo :: a) = none
      simp [advanceCombination, ha, hl, hk]
    · cases r with
      | nil => exact absurd hhead (by simp)
      | cons b r =>
        refine ⟨?_, hrun⟩
        simp only [List.head?_cons, Option.some.injEq] at hhead
        simp [advanceCombination, ha, hl, hk, hhead]
  | a :: b :: l, h, hlen, hr => by
    refine ⟨by simp [advanceCombination, h.1], ?_⟩
    exact runs_append h.2 (fun t ht => hlen t (.tail _ ht)) hr

theorem runs_tuples {n : Nat} : ∀ {m k lo : Nat}, k ≤ m → lo + m = n →
    Runs n (tuples lo m k) ∧ (tuples lo m k).head? = some (List.range' lo k)
  | m, 0, lo, _, _ => by
    rw [tuples_zero]
    exact ⟨rfl, rfl⟩
  | m + 1, k + 1, lo, hk, hn => by
    have hk' : k ≤ m := Nat.le_of_succ_le_succ hk
    obtain ⟨h1, hh1⟩ := runs_tuples (n := n) hk' (show lo + 1 + m = n by omega)
    constructor
    · refine runs_append h1 (fun t ht => length_of_mem_tuples ht) ?_
      by_cases hlt : k + 1 ≤ m
      · obtain ⟨h2, hh2⟩ := runs_tuples (n := n) hlt (show lo + 1 + m = n by omega)
        exact Or.inr ⟨by omega, h2, hh2⟩
      · exact Or.inl ⟨tuples_of_lt (by omega), by omega⟩
    · rw [tuples, List.head?_append, List.head?_map, hh1]
      rfl

theorem mem_read_tuples {items : List Nat} : ∀ {suf done : List Nat} {k : Nat} {S : List Nat},
    done ++ suf = items → ((∃ t ∈ tuples done.length suf.length k,
      t.map (fun i => items.getD i 0) = S) ↔ S.Sublist suf ∧ S.length = k)
  | suf, done, 0, S, _ => by
    rw [tuples_zero]
    simp only [List.mem_singleton, exists_eq_left, List.map_nil, List.length_eq_zero_iff]
    exact ⟨fun h => ⟨h ▸ List.nil_sublist _, h.symm⟩, fun h => h.2.symm⟩
  | [], done, k + 1, S, _ => by
    simp only [List.length_nil, tuples, List.not_mem_nil, false_and, exists_false, false_iff,
      List.sublist_nil]
    rintro ⟨rfl, h⟩
    cases h
  | a :: suf, done, k + 1, S, h => by
    have h' : (done ++ [a]) ++ suf = items := by simpa using h
    have ih1 := fun S => mem_read_tuples (k := k) (S := S) h'
    have ih2 := mem_read_tuples (k := k + 1) (S := S) h'
    have hread : items.getD done.length 0 = a := by simp [← h]
    rw [List.length_append, List.length_singleton] at ih1 ih2
    rw [List.length_cons, tuples]
    constructor
    · rintro ⟨t, ht, rfl⟩
      rcases List.mem_append.mp ht with ht | ht
      · obtain ⟨r, hr, rfl⟩ := List.mem_map.mp ht
        obtain ⟨hsub, hlen⟩ := (ih1 _).mp ⟨r, hr, rfl⟩
        rw [List.map_cons, hread]
        exact ⟨hsub.cons_cons a, by rw [List.length_cons, hlen]⟩
      · obtain ⟨hsub, hlen⟩ := ih2.mp ⟨t, ht, rfl⟩
        exact ⟨hsub.cons a, hlen⟩
    · rintro ⟨hsub, hlen⟩
      cases hsub with
      | cons _ hsub =>
        obtain ⟨t, ht, he⟩ := ih2.mpr ⟨hsub, hlen⟩
        exact ⟨t, List.mem_append_right _ ht, he⟩
      | cons_cons _ hsub =>
        rename_i l
        obtain ⟨t, ht, he⟩ := (ih1 l).mpr ⟨hsub, Nat.succ.inj hlen⟩
        refine ⟨done.length :: t, List.mem_append_left _ (List.mem_map_of_mem ht), ?_⟩
        rw [List.map_cons, hread, he]

/-- **`Combinations` yields the sublists of the given length.** -/
theorem mem_combinations {items S : List Nat} {k : Nat} :
    S ∈ combinations items k ↔ S.Sublist items ∧ S.length = k := by
  have key : (∃ t ∈ tuples 0 items.length k, t.map (fun i => items.getD i 0) = S) ↔
      S.Sublist items ∧ S.length = k := mem_read_tuples (List.nil_append items)
  unfold combinations
  split_ifs with hk
  · simp only [List.not_mem_nil, false_iff]
    rintro ⟨hsub, rfl⟩
    exact absurd hsub.length_le (Nat.not_le.mpr hk)
  · obtain ⟨hrun, hhead⟩ := runs_tuples (n := items.length) (Nat.not_lt.mp hk) (Nat.zero_add _)
    have hlen := length_tuples_le items.length k 0
    have hall : advanceAll items.length (2 ^ items.length) (List.range k) =
        tuples 0 items.length k := by
      cases hT : tuples 0 items.length k with
      | nil => rw [hT] at hrun; exact hrun.elim
      | cons a l =>
        rw [hT] at hrun hhead hlen
        rw [List.range_eq_range', ← Option.some.inj hhead]
        exact advanceAll_of_runs hrun hlen
    rw [hall, List.mem_map]
    exact key

/-! ## The merge of two families -/

/-- `sorted_union` (`static_skeleton.rs:345-361`), of families compared as `Vec`s are. -/
def sortedUnion : List (List Nat) → List (List Nat) → List (List Nat)
  | [], r => r
  | l, [] => l
  | a :: l, b :: r =>
    if a < b then a :: sortedUnion l (b :: r)
    else if b < a then b :: sortedUnion (a :: l) r
    else a :: sortedUnion l r

theorem mem_sortedUnion {x : List Nat} : ∀ {l r : List (List Nat)},
    x ∈ sortedUnion l r ↔ x ∈ l ∨ x ∈ r
  | [], r => by simp [sortedUnion]
  | a :: l, [] => by simp [sortedUnion]
  | a :: l, b :: r => by
    unfold sortedUnion
    split_ifs with h1 h2
    · rw [List.mem_cons, mem_sortedUnion, List.mem_cons (a := x) (b := a)]
      tauto
    · rw [List.mem_cons, mem_sortedUnion, List.mem_cons (a := x) (b := b)]
      tauto
    · obtain rfl : a = b := le_antisymm (not_lt.mp h2) (not_lt.mp h1)
      rw [List.mem_cons, mem_sortedUnion, List.mem_cons, List.mem_cons]
      tauto

theorem exists_sublist_of_subset {candidates : List Nat} {Z : Set Nat} [DecidablePred (· ∈ Z)]
    (hZ : ∀ z ∈ Z, z ∈ candidates) : ∃ z : List Nat, z.Sublist candidates ∧ {v | v ∈ z} = Z := by
  refine ⟨candidates.filter (· ∈ Z), List.filter_sublist, Set.ext fun v => ?_⟩
  simp only [Set.mem_ofPred_eq, List.mem_filter, decide_eq_true_eq]
  exact and_iff_right_of_imp (hZ v)

end Antecedent.Discovery
