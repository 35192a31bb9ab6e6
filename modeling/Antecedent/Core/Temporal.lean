import Antecedent.Graph.Types
import Mathlib.Tactic.Linarith

/-!
# The unfolding indexer

Model of `TemporalNodeKey` and `TemporalIndexer` (`antecedent-core/src/temporal.rs:31-158`): the
window `[-history, horizon - 1]` of time slices, laid out slice by slice. An `i32` is an `Int`, and
`tryI32` is the checked cast; `u32` counts are naturals below the checks of `new`.

* `TemporalIndexer` carries what `new` checks.
* `slot_injOn`, `slot_keyAt`: keys of the window and slots are the same.
* **`indexer_bijective`**: `dense_id` numbers the window and `key_of` inverts it.
-/

namespace Antecedent.Core

open Graph

/-- `i32::MAX`. -/
def i32Max : Int := 2147483647

/-- `i32::try_from`. -/
def tryI32 (x : Int) : Option Int := if -i32Max - 1 ≤ x ∧ x ≤ i32Max then some x else none

theorem tryI32_of_le {x : Int} (h1 : -i32Max - 1 ≤ x) (h2 : x ≤ i32Max) : tryI32 x = some x := by
  unfold tryI32
  rw [if_pos ⟨h1, h2⟩]

inductive TemporalIndexError
  | invalid (message : String)
  | unknownVariable (id : Nat)

/-- Lines 33-39. -/
structure TemporalNodeKey where
  var : Nat
  offset : Int

/-- Lines 61-69. -/
structure TemporalIndexer where
  variableCount : Nat
  history : Nat
  horizon : Nat
  denseLen : Nat
  variableCount_pos : 0 < variableCount
  horizon_pos : 0 < horizon
  denseLen_eq : denseLen = variableCount * (history + horizon)
  denseLen_le : denseLen ≤ u32Max

namespace TemporalIndexer

/-- Lines 77-96. -/
def new (variableCount history horizon : Nat) : Except TemporalIndexError TemporalIndexer :=
  if h : variableCount = 0 ∨ horizon = 0 then
    .error (.invalid "variable_count and horizon must be non-zero")
  else if u32Max < history + horizon then .error (.invalid "history+horizon overflow")
  else if hd : u32Max < variableCount * (history + horizon) then
    .error (.invalid "dense index space overflow")
  else
    .ok ⟨variableCount, history, horizon, variableCount * (history + horizon),
      Nat.pos_of_ne_zero fun e => h (Or.inl e), Nat.pos_of_ne_zero fun e => h (Or.inr e), rfl,
      Nat.le_of_not_lt hd⟩

/-- Lines 123-139. -/
def denseId (ix : TemporalIndexer) (key : TemporalNodeKey) : Except TemporalIndexError Nat :=
  if ix.variableCount ≤ key.var then .error (.unknownVariable key.var)
  else if key.offset + ix.history < 0 ∨ (ix.history + ix.horizon : Int) ≤ key.offset + ix.history then
    .error (.invalid "temporal offset outside unfolding window")
  else
    let dense := (key.offset + ix.history).toNat * ix.variableCount + key.var
    if u32Max < dense then .error (.invalid "dense id exceeds u32") else .ok dense

/-- Lines 146-158. -/
def keyOf (ix : TemporalIndexer) (dense : Nat) : Except TemporalIndexError TemporalNodeKey :=
  if ix.denseLen ≤ dense then .error (.invalid "dense id out of range")
  else
    match tryI32 ((dense / ix.variableCount : Nat) - ix.history) with
    | some offset => .ok ⟨dense % ix.variableCount, offset⟩
    | none => .error (.invalid "offset overflow")

/-- The keys of the window. -/
structure InWindow (ix : TemporalIndexer) (key : TemporalNodeKey) : Prop where
  var_lt : key.var < ix.variableCount
  le_offset : -(ix.history : Int) ≤ key.offset
  offset_lt : key.offset < ix.horizon

def slot (ix : TemporalIndexer) (key : TemporalNodeKey) : Nat :=
  (key.offset + ix.history).toNat * ix.variableCount + key.var

def keyAt (ix : TemporalIndexer) (dense : Nat) : TemporalNodeKey :=
  ⟨dense % ix.variableCount, (dense / ix.variableCount : Nat) - ix.history⟩

variable {ix : TemporalIndexer} {key : TemporalNodeKey} {dense : Nat}

theorem slot_lt (h : ix.InWindow key) : ix.slot key < ix.denseLen := by
  obtain ⟨hvar, hle, hlt⟩ := h
  have hslice : (key.offset + ix.history).toNat + 1 ≤ ix.history + ix.horizon := by omega
  calc ix.slot key < (key.offset + ix.history).toNat * ix.variableCount + ix.variableCount :=
        Nat.add_lt_add_left hvar _
    _ = ((key.offset + ix.history).toNat + 1) * ix.variableCount := by rw [Nat.succ_mul]
    _ ≤ (ix.history + ix.horizon) * ix.variableCount := Nat.mul_le_mul_right _ hslice
    _ = ix.denseLen := by rw [ix.denseLen_eq, Nat.mul_comm]

theorem keyAt_slot (h : ix.InWindow key) : ix.keyAt (ix.slot key) = key := by
  obtain ⟨hvar, hle, -⟩ := h
  unfold keyAt slot
  rw [Nat.mul_comm, Nat.mul_add_mod, Nat.mod_eq_of_lt hvar, Nat.mul_add_div ix.variableCount_pos,
    Nat.div_eq_of_lt hvar, Nat.add_zero, Int.toNat_of_nonneg (by omega)]
  simp

theorem keyAt_inWindow (h : dense < ix.denseLen) : ix.InWindow (ix.keyAt dense) := by
  have hdiv : dense / ix.variableCount < ix.history + ix.horizon := by
    rw [Nat.div_lt_iff_lt_mul ix.variableCount_pos, Nat.mul_comm, ← ix.denseLen_eq]
    exact h
  unfold keyAt
  generalize dense / ix.variableCount = slice at hdiv
  exact ⟨Nat.mod_lt _ ix.variableCount_pos, by simp only; omega, by simp only; omega⟩

theorem slot_keyAt (ix : TemporalIndexer) (dense : Nat) : ix.slot (ix.keyAt dense) = dense := by
  unfold slot keyAt
  simp only [Int.sub_add_cancel, Int.toNat_natCast]
  rw [Nat.mul_comm]
  exact Nat.div_add_mod _ _

/-- **Two keys of the window with one slot are one key.** -/
theorem slot_injOn {x y : TemporalNodeKey} (hx : ix.InWindow x) (hy : ix.InWindow y)
    (h : ix.slot x = ix.slot y) : x = y := by
  rw [← keyAt_slot hx, h, keyAt_slot hy]

/-- **`dense_id` gives the slot of a key of the window.** -/
theorem denseId_ok (h : ix.InWindow key) : ix.denseId key = .ok (ix.slot key) := by
  have hslot : ¬ u32Max < ix.slot key := by
    have := slot_lt h
    have := ix.denseLen_le
    omega
  obtain ⟨hvar, hle, hlt⟩ := h
  unfold denseId
  rw [if_neg (by omega), if_neg (by omega)]
  exact if_neg hslot

/-- Every slice of the window is an `i32`. -/
def SlicesFit (ix : TemporalIndexer) : Prop :=
  (ix.history : Int) ≤ i32Max + 1 ∧ (ix.horizon : Int) ≤ i32Max + 1

/-- **`key_of` gives the key of a slot when every slice is an `i32`.** -/
theorem keyOf_ok (hfit : ix.SlicesFit) (h : dense < ix.denseLen) :
    ix.keyOf dense = .ok (ix.keyAt dense) := by
  obtain ⟨-, hle, hlt⟩ := keyAt_inWindow h
  obtain ⟨hhist, hhor⟩ := hfit
  have hcast : tryI32 (ix.keyAt dense).offset = some (ix.keyAt dense).offset :=
    tryI32_of_le (by omega) (by omega)
  unfold keyOf
  rw [if_neg (by omega), show ((dense / ix.variableCount : Nat) : Int) - ix.history =
    (ix.keyAt dense).offset from rfl, hcast]
  rfl

/-- A window with a slice outside `i32` has a slot without a key. -/
theorem keyOf_error (hfit : ¬ ix.SlicesFit) : ∃ dense < ix.denseLen, ∃ e, ix.keyOf dense = .error e := by
  have hpos := ix.horizon_pos
  have hkey : ∃ key, ix.InWindow key ∧ ¬ (-i32Max - 1 ≤ key.offset ∧ key.offset ≤ i32Max) := by
    unfold SlicesFit at hfit
    by_cases hhist : (ix.history : Int) ≤ i32Max + 1
    · refine ⟨⟨0, ix.horizon - 1⟩, ⟨ix.variableCount_pos, ?_, ?_⟩, ?_⟩ <;> simp only <;> omega
    · refine ⟨⟨0, -ix.history⟩, ⟨ix.variableCount_pos, ?_, ?_⟩, ?_⟩ <;> simp only <;> omega
  obtain ⟨key, hkey, hout⟩ := hkey
  have hlt := slot_lt hkey
  refine ⟨ix.slot key, hlt, .invalid "offset overflow", ?_⟩
  have hcast : tryI32 (ix.keyAt (ix.slot key)).offset = none := by
    rw [keyAt_slot hkey]
    unfold tryI32
    rw [if_neg hout]
  unfold keyOf
  rw [if_neg (by omega), show ((ix.slot key / ix.variableCount : Nat) : Int) - ix.history =
    (ix.keyAt (ix.slot key)).offset from rfl, hcast]

/-- `dense_id` accepts the keys of the window only. -/
theorem denseId_ok_iff : ix.denseId key = .ok dense ↔ ix.InWindow key ∧ dense = ix.slot key := by
  constructor
  · intro h
    have hin : ix.InWindow key := by
      unfold denseId at h
      split_ifs at h with hvar hoff
      exact ⟨Nat.not_le.mp hvar, by omega, by omega⟩
    rw [denseId_ok hin] at h
    exact ⟨hin, (Except.ok.inj h).symm⟩
  · rintro ⟨hin, rfl⟩
    exact denseId_ok hin

/-- **`dense_id` numbers the window, and `key_of` inverts it** on the keys whose offset is an `i32`; it
has a key for every id iff every slice is one. -/
theorem indexer_bijective (ix : TemporalIndexer) :
    (∀ key, (∃ dense, ix.denseId key = .ok dense) ↔ ix.InWindow key) ∧
    (∀ key dense, ix.denseId key = .ok dense → dense < ix.denseLen) ∧
    (∀ key key' dense, ix.denseId key = .ok dense → ix.denseId key' = .ok dense → key = key') ∧
    (∀ key dense, ix.keyOf dense = .ok key ↔
      (-i32Max - 1 ≤ key.offset ∧ key.offset ≤ i32Max) ∧ ix.denseId key = .ok dense) ∧
    ((∀ dense < ix.denseLen, ∃ key, ix.keyOf dense = .ok key) ↔ ix.SlicesFit) := by
  have hback : ∀ {key dense}, ix.denseId key = .ok dense → dense < ix.denseLen ∧ key = ix.keyAt dense := by
    intro key dense h
    obtain ⟨hin, rfl⟩ := denseId_ok_iff.mp h
    exact ⟨slot_lt hin, (keyAt_slot hin).symm⟩
  refine ⟨fun key => ⟨fun ⟨_, h⟩ => (denseId_ok_iff.mp h).1, fun h => ⟨_, denseId_ok h⟩⟩,
    fun key dense h => (hback h).1, fun key key' dense h h' => (hback h).2.trans (hback h').2.symm,
    fun key dense => ⟨fun h => ?_, fun ⟨⟨hle, hge⟩, h⟩ => ?_⟩, fun hall => ?_,
    fun hfit dense hlt => ⟨_, keyOf_ok hfit hlt⟩⟩
  · unfold keyOf tryI32 at h
    split_ifs at h with hlt hcast
    obtain rfl := Except.ok.inj h
    exact ⟨hcast, denseId_ok_iff.mpr ⟨keyAt_inWindow (Nat.not_le.mp hlt), (ix.slot_keyAt dense).symm⟩⟩
  · obtain ⟨hlt, rfl⟩ := hback h
    unfold keyOf
    rw [if_neg (Nat.not_le.mpr hlt), show ((dense / ix.variableCount : Nat) : Int) - ix.history =
      (ix.keyAt dense).offset from rfl, tryI32_of_le hle hge]
    rfl
  · by_contra hfit
    obtain ⟨dense, hlt, e, he⟩ := keyOf_error hfit
    obtain ⟨key, hkey⟩ := hall dense hlt
    rw [he] at hkey
    cases hkey

end TemporalIndexer

end Antecedent.Core
