import Mathlib.Data.List.Sort
import Mathlib.Data.Finset.Card
import Mathlib.Algebra.GroupWithZero.Nat

/-!
# Sorted rows

Model of the operations on sorted, distinct id slices (`antecedent-contract`,
`evidence_ledger/overlap.rs:127-168`), over any linear order.

* `intersectionCount_eq_zero`: two strictly sorted slices count no shared row iff they are disjoint.
-/

namespace Antecedent.Contract

variable {α : Type} [LinearOrder α] {sets : List (List α)}

/-- One row against the rest of the other slice; `rest` goes on after it. -/
def intersectionStep (a : α) (rest : List α → Nat) : List α → Nat
  | [] => 0
  | b :: bs =>
    if a < b then rest (b :: bs)
    else if b < a then intersectionStep a rest bs
    else rest bs + 1

/-- Lines 127-141. -/
def intersectionCount : List α → List α → Nat
  | [] => fun _ => 0
  | a :: as => intersectionStep a (intersectionCount as)

/-- Lines 160-168. -/
def unionSorted (sets : List (List α)) : List α :=
  (sets.flatten.insertionSort (· ≤ ·)).dedup

/-- Lines 171-173. -/
def isSubset (sub sup : List α) : Bool := intersectionCount sub sup = sub.length

def Ascending (rows : List α) : Prop := rows.Pairwise (· < ·)

theorem Ascending.nodup {rows : List α} (h : Ascending rows) : rows.Nodup :=
  List.Pairwise.imp (fun hlt => ne_of_lt hlt) h

theorem intersectionStep_eq_zero {a : α} {as : List α} (ha : Ascending (a :: as))
    (ih : ∀ bs, Ascending bs → (intersectionCount as bs = 0 ↔ ∀ x ∈ as, x ∉ bs)) :
    ∀ {bs : List α}, Ascending bs →
      (intersectionStep a (intersectionCount as) bs = 0 ↔ ∀ x ∈ a :: as, x ∉ bs)
  | [], _ => by simp [intersectionStep]
  | b :: bs, hb => by
    obtain ⟨hba, hbs⟩ := List.pairwise_cons.mp hb
    obtain ⟨haa, -⟩ := List.pairwise_cons.mp ha
    unfold intersectionStep
    rcases lt_trichotomy a b with hab | rfl | hab
    · rw [if_pos hab, ih _ hb]
      refine ⟨fun h x hx => ?_, fun h x hx => h x (List.mem_cons_of_mem a hx)⟩
      rcases List.mem_cons.mp hx with rfl | hx
      · intro hm
        rcases List.mem_cons.mp hm with rfl | hm
        exacts [lt_irrefl _ hab, lt_asymm hab (hba _ hm)]
      · exact h x hx
    · rw [if_neg (lt_irrefl a), if_neg (lt_irrefl a)]
      simp
    · rw [if_neg (lt_asymm hab), if_pos hab, intersectionStep_eq_zero ha ih hbs]
      refine ⟨fun h x hx hm => ?_, fun h x hx hm => h x hx (List.mem_cons_of_mem b hm)⟩
      rcases List.mem_cons.mp hm with rfl | hm
      · rcases List.mem_cons.mp hx with rfl | hx
        exacts [lt_irrefl _ hab, lt_asymm hab (haa _ hx)]
      · exact h x hx hm

/-- **No shared row is counted iff the slices are disjoint.** -/
theorem intersectionCount_eq_zero : ∀ {as bs : List α}, Ascending as → Ascending bs →
    (intersectionCount as bs = 0 ↔ ∀ x ∈ as, x ∉ bs)
  | [], _, _, _ => by simp [intersectionCount]
  | _ :: as, _, ha, hb => intersectionStep_eq_zero ha
      (fun _ hb => intersectionCount_eq_zero (List.pairwise_cons.mp ha).2 hb) hb

@[simp] theorem mem_unionSorted {x : α} :
    x ∈ unionSorted sets ↔ ∃ rows ∈ sets, x ∈ rows := by
  simp [unionSorted]

theorem ascending_unionSorted (sets : List (List α)) : Ascending (unionSorted sets) := by
  have hle : (unionSorted sets).Pairwise (· ≤ ·) :=
    (List.pairwise_insertionSort (· ≤ ·) sets.flatten).sublist (List.dedup_sublist _)
  exact hle.imp₂ (fun _ _ h hne => lt_of_le_of_ne h hne) (List.nodup_dedup _)

/-- **Disjoint slices fill as many rows as they have together.** -/
theorem length_unionSorted (hs : ∀ rows ∈ sets, rows.Nodup)
    (hd : sets.Pairwise fun r r' => ∀ x ∈ r, x ∉ r') :
    (unionSorted sets).length = (sets.map List.length).sum := by
  have hnd : sets.flatten.Nodup := by
    rw [List.nodup_flatten]
    exact ⟨hs, hd.imp fun h x hx hx' => h x hx hx'⟩
  unfold unionSorted
  rw [List.Nodup.dedup ((List.perm_insertionSort _ _).nodup_iff.mpr hnd),
    List.length_insertionSort, List.length_flatten]

end Antecedent.Contract
