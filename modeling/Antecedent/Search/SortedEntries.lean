import Mathlib.Data.List.Destutter
import Mathlib.Data.List.Sort
import Mathlib.Data.List.TakeWhile

/-!
# Entries sorted by key

A list of entries whose keys ascend is a finite map.

* `ascending_firsts`, `lookup_firsts`: sorting entries and keeping the first of each run of a key.
-/

namespace Antecedent.SortedEntries

variable {κ α : Type*} [LinearOrder κ]

abbrev Ascending (xs : List (κ × α)) : Prop := xs.Pairwise fun a b => a.1 < b.1

/-- `binary_search_by_key` on entries sorted by key: where the key is, or where it would go. -/
def binarySearch (xs : List (κ × α)) (k : κ) : Except Nat Nat :=
  let i := (xs.takeWhile fun e => e.1 < k).length
  if xs[i]?.any fun e => e.1 = k then .ok i else .error i

/-- The entries sorted by key, the sort stable, and the first of each run of one key. -/
def firsts (xs : List (κ × α)) : List (κ × α) :=
  (xs.insertionSort fun a b => a.1 ≤ b.1).destutter fun a b => a.1 ≠ b.1

/-- The entries below the key, the entry of the key, the entries above it. -/
structure Split (xs : List (κ × α)) (k : κ) (below : List (κ × α)) (entry : Option α)
    (above : List (κ × α)) : Prop where
  eq : xs = below ++ (entry.toList.map fun x => (k, x)) ++ above
  below_lt : ∀ e ∈ below, e.1 < k
  lt_above : ∀ e ∈ above, k < e.1

variable {xs : List (κ × α)} {k : κ}

/-- **Where the search ends, the list splits at the key.** -/
theorem located (h : Ascending xs) (k : κ) :
    (∃ below x above, binarySearch xs k = .ok below.length ∧ Split xs k below (some x) above) ∨
      ∃ below above, binarySearch xs k = .error below.length ∧ Split xs k below none above := by
  have hbelow : ∀ e ∈ xs.takeWhile fun e => e.1 < k, e.1 < k := fun e he => by
    simpa using List.mem_takeWhile_imp he
  have hxs : xs = (xs.takeWhile fun e => e.1 < k) ++ xs.dropWhile fun e => e.1 < k := by simp
  unfold binarySearch
  generalize xs.takeWhile (fun e => decide (e.1 < k)) = below at hbelow hxs ⊢
  cases hd : xs.dropWhile fun e => e.1 < k with
  | nil =>
    rw [hd] at hxs
    exact Or.inr ⟨below, [], by simp [hxs], by simpa using hxs, hbelow, by simp⟩
  | cons e above =>
    have hk : k ≤ e.1 := by
      have := List.head_dropWhile_not (fun e => decide (e.1 < k)) (l := xs) (by simp [hd])
      simpa [hd] using this
    rw [hd] at hxs
    have habove : ∀ f ∈ above, e.1 < f.1 :=
      (List.pairwise_cons.mp (List.pairwise_append.mp (hxs ▸ h)).2.1).1
    rcases hk.eq_or_lt with rfl | hlt
    · exact Or.inl ⟨below, e.2, above, by simp [hxs], by simpa using hxs, hbelow, habove⟩
    · refine Or.inr ⟨below, e :: above, by simp [hxs, hlt.ne'], by simpa using hxs, hbelow, ?_⟩
      intro f hf
      rcases List.mem_cons.mp hf with rfl | hf
      · exact hlt
      · exact hlt.trans (habove f hf)

/-! ## Reading -/

theorem lookup_cons (e : κ × α) (l : List (κ × α)) (k : κ) :
    (e :: l).lookup k = if k = e.1 then some e.2 else l.lookup k := by
  obtain ⟨j, x⟩ := e
  by_cases h : k = j
  · simp [h]
  · simp [List.lookup_cons, beq_eq_false_iff_ne.mpr h, h]

namespace Split

variable {below above : List (κ × α)} {entry : Option α}

variable (h : Split xs k below entry above)

include h

theorem ascending (hx : Ascending xs) (entry' : Option α) :
    Ascending (below ++ (entry'.toList.map fun x => (k, x)) ++ above) := by
  have hx := h.eq ▸ hx
  simp only [Ascending, List.append_assoc, List.pairwise_append] at hx ⊢
  obtain ⟨hb, ⟨-, ha, -⟩, hba⟩ := hx
  refine ⟨hb, ⟨?_, ha, ?_⟩, ?_⟩
  · cases entry' <;> simp
  · intro e he f hf
    obtain ⟨x, -, rfl⟩ := List.mem_map.mp he
    exact h.lt_above f hf
  · intro e he f hf
    rcases List.mem_append.mp hf with hf | hf
    · obtain ⟨x, -, rfl⟩ := List.mem_map.mp hf
      exact h.below_lt e he
    · exact (h.below_lt e he).trans (h.lt_above f hf)

/-- **Reading a list with its middle replaced.** -/
theorem lookup_splice (entry' : Option α) (j : κ) :
    (below ++ (entry'.toList.map fun x => (k, x)) ++ above).lookup j =
      if j = k then entry' else xs.lookup j := by
  have hnone : ∀ {l : List (κ × α)}, (∀ e ∈ l, k ≠ e.1) → l.lookup k = none := fun hl =>
    List.lookup_eq_none_iff.mpr fun e he => bne_iff_ne.mpr (hl e he)
  rw [h.eq]
  simp only [List.lookup_append]
  split_ifs with hj
  · subst hj
    rw [hnone fun e he => (h.below_lt e he).ne', hnone fun e he => (h.lt_above e he).ne]
    cases entry' <;> simp
  · cases entry <;> cases entry' <;> simp [lookup_cons, hj]

theorem lookup_eq : xs.lookup k = entry := by
  have := h.lookup_splice entry k
  rw [if_pos rfl, ← h.eq] at this
  exact this

end Split

theorem mem_iff_lookup (h : Ascending xs) {x : α} : (k, x) ∈ xs ↔ xs.lookup k = some x := by
  constructor
  · intro hm
    obtain ⟨below, above, rfl⟩ := List.append_of_mem hm
    obtain ⟨-, -, hb⟩ := List.pairwise_append.mp h
    rw [List.lookup_eq_some_iff]
    exact ⟨below, above, rfl, fun e he => bne_iff_ne.mpr (hb e he _ List.mem_cons_self).ne'⟩
  · intro hl
    obtain ⟨below, above, rfl, -⟩ := List.lookup_eq_some_iff.mp hl
    simp

/-- **Ascending lists that read alike are equal.** -/
theorem ext_lookup {ys : List (κ × α)} (hx : Ascending xs) (hy : Ascending ys)
    (h : ∀ k, xs.lookup k = ys.lookup k) : xs = ys := by
  have hnd : ∀ {l : List (κ × α)}, Ascending l → l.Nodup := fun hl =>
    hl.imp fun hab e => hab.ne (congrArg Prod.fst e)
  have hperm : xs.Perm ys := (List.perm_ext_iff_of_nodup (hnd hx) (hnd hy)).mpr fun e => by
    rw [mem_iff_lookup hx, mem_iff_lookup hy, h]
  exact hperm.eq_of_pairwise (fun a b _ _ hab hba => absurd hab hba.not_gt) hx hy

/-! ## The first entry of each key -/

theorem ascending_firsts (xs : List (κ × α)) : Ascending (firsts xs) := by
  have hsorted : (firsts xs).Pairwise fun a b => a.1 ≤ b.1 :=
    (List.pairwise_insertionSort (fun a b : κ × α => a.1 ≤ b.1) xs).sublist
      (List.destutter_sublist _ _)
  have hruns : (firsts xs).IsChain fun a b => a.1 ≠ b.1 := List.isChain_destutter _ _
  have htrans : IsTrans (κ × α) fun a b => a.1 < b.1 := ⟨fun _ _ _ => lt_trans⟩
  refine List.isChain_iff_pairwise.mp (List.isChain_iff_getElem.mpr fun i hi => ?_)
  exact lt_of_le_of_ne (List.pairwise_iff_getElem.mp hsorted i (i + 1) (by omega) hi (by omega))
    (List.isChain_iff_getElem.mp hruns i hi)

/-- Dropping repetitions of a key drops no first entry. -/
theorem lookup_destutter (k : κ) (l : List (κ × α)) (a : κ × α) :
    (l.destutter' (fun a b => a.1 ≠ b.1) a).lookup k = (a :: l).lookup k := by
  induction l generalizing a with
  | nil => simp
  | cons b l ih =>
    rw [List.destutter'_cons]
    split_ifs with hab
    · simp only [lookup_cons, ih]
    · have hab : a.1 = b.1 := not_not.mp hab
      rw [ih]
      by_cases hk : k = a.1 <;> simp [lookup_cons, hk, ← hab]

/-- An entry is inserted behind entries of other keys only. -/
theorem lookup_orderedInsert (k : κ) (a : κ × α) (l : List (κ × α)) :
    (l.orderedInsert (fun a b => a.1 ≤ b.1) a).lookup k = (a :: l).lookup k := by
  induction l with
  | nil => simp
  | cons b l ih =>
    rw [List.orderedInsert_cons]
    split_ifs with hab
    · rfl
    · have hne : a.1 ≠ b.1 := (not_le.mp hab).ne'
      by_cases hk : k = b.1
      · simp [lookup_cons, hk, hne.symm]
      · simp [lookup_cons, ih, hk]

/-- **The list reads as the first entry of a key.** -/
theorem lookup_firsts (xs : List (κ × α)) (k : κ) : (firsts xs).lookup k = xs.lookup k := by
  have hsort : (xs.insertionSort fun a b => a.1 ≤ b.1).lookup k = xs.lookup k := by
    induction xs with
    | nil => simp
    | cons a l ih => rw [List.insertionSort_cons, lookup_orderedInsert, lookup_cons, ih, lookup_cons]
  rw [← hsort]
  unfold firsts
  cases xs.insertionSort (fun a b => a.1 ≤ b.1) with
  | nil => simp
  | cons a l => exact lookup_destutter k l a

end Antecedent.SortedEntries
