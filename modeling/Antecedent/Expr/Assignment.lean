import Antecedent.Search.SortedEntries

/-!
# Assignments

Model of `Assignment` (`provider.rs:28-85`): the values of variables, kept as entries sorted by variable.
Every access is a binary search. Values are compared by nothing here and are any type.

* `get_set`, `get_remove`, `remove_value`, `ext_get`: an assignment is a finite map.
* **`fromPairs_lastWins_iff`**: `from_pairs` is a loop of `set` exactly when no variable's first value
  differs from its last. The doc comment promises the last one; the adjacent duplicates are dropped behind
  the first.
-/

namespace Antecedent.Expr

open SortedEntries

/-- `provider.rs:28-33`. -/
structure Assignment (α : Type) where
  entries : List (Nat × α)
  ascending : Ascending entries

namespace Assignment

variable {α : Type}

def new : Assignment α := ⟨[], List.Pairwise.nil⟩

/-- `provider.rs:42-49`. `sort_by_key` is stable and `dedup_by_key` keeps the first of a run. -/
def fromPairs (pairs : List (Nat × α)) : Assignment α := ⟨firsts pairs, ascending_firsts pairs⟩

/-- The entries after `set`. -/
def setEntries (entries : List (Nat × α)) (var : Nat) (value : α) : List (Nat × α) :=
  match binarySearch entries var with
  | .ok i => entries.modify i fun e => (e.1, value)
  | .error i => entries.insertIdx i (var, value)

/-- The entries after `remove`. -/
def removeEntries (entries : List (Nat × α)) (var : Nat) : List (Nat × α) :=
  match binarySearch entries var with
  | .ok i => entries.eraseIdx i
  | .error _ => entries

/-- The value `get` finds, and `remove` returns. -/
def get (m : Assignment α) (var : Nat) : Option α :=
  match binarySearch m.entries var with
  | .ok i => m.entries[i]?.map Prod.snd
  | .error _ => none

/-! ## Where the search ends -/

theorem insertIdx_append (e : Nat × α) (below above : List (Nat × α)) :
    (below ++ above).insertIdx below.length e = below ++ e :: above := by
  induction below with
  | nil => rfl
  | cons b below ih => simp [ih]

theorem exists_split (m : Assignment α) (var : Nat) : ∃ below above,
    Split m.entries var below (m.get var) above ∧ removeEntries m.entries var = below ++ above ∧
      ∀ value, setEntries m.entries var value = below ++ (var, value) :: above := by
  obtain ⟨below, x, above, hs, h⟩ | ⟨below, above, hs, h⟩ := located m.ascending var
  · have he : m.entries = below ++ (var, x) :: above := by simpa using h.eq
    rw [he] at hs
    have hget : m.get var = some x := by simp [get, he, hs]
    refine ⟨below, above, hget ▸ h, ?_, fun value => ?_⟩
    · simp [removeEntries, he, hs, List.eraseIdx_append_of_length_le]
    · simp [setEntries, he, hs, List.modify_eq_set_getElem?]
  · have he : m.entries = below ++ above := by simpa using h.eq
    rw [he] at hs
    have hget : m.get var = none := by simp [get, he, hs]
    refine ⟨below, above, hget ▸ h, ?_, fun value => ?_⟩
    · simp [removeEntries, he, hs]
    · simp [setEntries, he, hs, insertIdx_append]

/-- `provider.rs:52-57`. -/
def set (m : Assignment α) (var : Nat) (value : α) : Assignment α :=
  ⟨setEntries m.entries var value, by
    obtain ⟨below, above, h, -, hset⟩ := m.exists_split var
    rw [hset]
    simpa using h.ascending m.ascending (some value)⟩

/-- `provider.rs:79-84`: the value removed, and what is left. -/
def remove (m : Assignment α) (var : Nat) : Option α × Assignment α :=
  (m.get var, ⟨removeEntries m.entries var, by
    obtain ⟨below, above, h, hremove, -⟩ := m.exists_split var
    rw [hremove]
    simpa using h.ascending m.ascending none⟩)

/-! ## The laws of a finite map -/

theorem get_eq_lookup (m : Assignment α) (var : Nat) : m.get var = m.entries.lookup var := by
  obtain ⟨below, above, h, -, -⟩ := m.exists_split var
  exact h.lookup_eq.symm

@[simp] theorem get_new (var : Nat) : (new : Assignment α).get var = none := rfl

@[simp] theorem get_set (m : Assignment α) (var : Nat) (value : α) (w : Nat) :
    (m.set var value).get w = if w = var then some value else m.get w := by
  obtain ⟨below, above, h, -, hset⟩ := m.exists_split var
  rw [get_eq_lookup, get_eq_lookup m]
  show (setEntries m.entries var value).lookup w = _
  rw [hset]
  simpa using h.lookup_splice (some value) w

@[simp] theorem get_remove (m : Assignment α) (var w : Nat) :
    (m.remove var).2.get w = if w = var then none else m.get w := by
  obtain ⟨below, above, h, hremove, -⟩ := m.exists_split var
  rw [get_eq_lookup, get_eq_lookup m]
  show (removeEntries m.entries var).lookup w = _
  rw [hremove]
  simpa using h.lookup_splice none w

@[simp] theorem remove_value (m : Assignment α) (var : Nat) : (m.remove var).1 = m.get var := rfl

theorem mem_entries (m : Assignment α) {var : Nat} {value : α} :
    (var, value) ∈ m.entries ↔ m.get var = some value := by
  rw [get_eq_lookup, mem_iff_lookup m.ascending]

theorem ext_get {m m' : Assignment α} (h : ∀ var, m.get var = m'.get var) : m = m' := by
  obtain ⟨entries, ha⟩ := m
  obtain ⟨entries', ha'⟩ := m'
  congr
  exact ext_lookup ha ha' fun var => by simpa only [get_eq_lookup] using h var

/-- What `get`, `set` and `remove` of an assignment are to each other. -/
structure FiniteMap (m : Assignment α) : Prop where
  get_set : ∀ var value w, (m.set var value).get w = if w = var then some value else m.get w
  get_remove : ∀ var w, (m.remove var).2.get w = if w = var then none else m.get w
  remove_value : ∀ var, (m.remove var).1 = m.get var
  entries : ∀ var value, (var, value) ∈ m.entries ↔ m.get var = some value
  ext : ∀ m' : Assignment α, (∀ var, m.get var = m'.get var) → m = m'

theorem finiteMap (m : Assignment α) : m.FiniteMap :=
  ⟨m.get_set, m.get_remove, m.remove_value, fun _ _ => m.mem_entries, fun _ => ext_get⟩

/-! ## Sequences of calls -/

/-- A call that changes an assignment. -/
inductive Call (α : Type)
  | set (var : Nat) (value : α)
  | remove (var : Nat)

def call (m : Assignment α) : Call α → Assignment α
  | .set var value => m.set var value
  | .remove var => (m.remove var).2

def setAll (pairs : List (Nat × α)) : Assignment α := pairs.foldl (fun m p => m.set p.1 p.2) new

theorem get_foldl_set (var : Nat) (pairs : List (Nat × α)) (m : Assignment α) :
    (pairs.foldl (fun m p => m.set p.1 p.2) m).get var = (pairs.reverse.lookup var).or (m.get var) := by
  induction pairs generalizing m with
  | nil => simp
  | cons p pairs ih =>
    rw [List.foldl_cons, ih, get_set, List.reverse_cons, List.lookup_append, Option.or_assoc, lookup_cons]
    split_ifs <;> simp

/-- A loop of `set` keeps the last value. -/
theorem get_setAll (pairs : List (Nat × α)) (var : Nat) :
    (setAll pairs).get var = pairs.reverse.lookup var := by
  rw [setAll, get_foldl_set, get_new, Option.or_none]

/-- `from_pairs` keeps the first value. -/
theorem get_fromPairs (pairs : List (Nat × α)) (var : Nat) :
    (fromPairs pairs).get var = pairs.lookup var := by
  rw [get_eq_lookup]
  exact lookup_firsts pairs var

theorem fromPairs_eq_setAll_iff (pairs : List (Nat × α)) :
    fromPairs pairs = setAll pairs ↔ ∀ var, pairs.lookup var = pairs.reverse.lookup var := by
  constructor
  · intro h var
    rw [← get_fromPairs, h, get_setAll]
  · intro h
    refine ext_get fun var => ?_
    rw [get_fromPairs, h, get_setAll]

/-- **`from_pairs` is a loop of `set` exactly when every variable's first and last values agree.** The
entries stay sorted through every sequence of calls, and the laws of a finite map hold, for all pairs. -/
theorem fromPairs_lastWins_iff (pairs : List (Nat × α)) :
    (fromPairs pairs = setAll pairs ∧
      ∀ calls : List (Call α), (calls.foldl call (fromPairs pairs)).entries.Pairwise (·.1 < ·.1) ∧
        (calls.foldl call new).entries.Pairwise (·.1 < ·.1) ∧
        (calls.foldl call (fromPairs pairs)).FiniteMap ∧ (calls.foldl call new).FiniteMap) ↔
      ∀ var, pairs.lookup var = pairs.reverse.lookup var := by
  rw [← fromPairs_eq_setAll_iff]
  exact and_iff_left fun calls => ⟨ascending _, ascending _, finiteMap _, finiteMap _⟩

/-- The first of two values wins. -/
theorem fromPairs_ne_setAll : fromPairs [(0, false), (0, true)] ≠ setAll [(0, false), (0, true)] := by
  intro h
  have hget := congrArg (fun m => m.get 0) h
  rw [get_fromPairs, get_setAll] at hget
  exact absurd hget (by decide)

end Assignment

end Antecedent.Expr
