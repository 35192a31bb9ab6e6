import Mathlib.Data.List.Nodup
import Mathlib.Data.Set.Basic

/-!
# Listing paths under a budget

A search lists what it finds and may be cut, by a full list or at a long path. A path is a list with
its newest node first.

* `Lists`: a search lists a set behind what is there, each element once, unless it is cut.
* `untilFull_lists`: a loop whose steps list disjoint sets lists their union.
* `Below`: what is accepted of the paths that extend a path.
-/

namespace Antecedent.Listings

variable {α β : Type*}

/-- The list so far, and whether something may have been left out. -/
structure Found (α : Type*) where
  out : List α
  cut : Bool

def Found.add (s : Found α) (a : α) : Found α := ⟨s.out ++ [a], s.cut⟩

def Found.cutIf (s : Found α) (b : Bool) : Found α := ⟨s.out, s.cut || b⟩

/-- A loop that looks before each turn whether the list is full. -/
def untilFull (limit : Nat) (step : β → Found α → Found α) : List β → Found α → Found α
  | [], s => s
  | x :: xs, s => if limit ≤ s.out.length then s.cutIf true else untilFull limit step xs (step x s)

/-- The set `S` is listed behind `s`, each element once and within the budget, unless the search is
cut. -/
structure Lists (limit : Nat) (ok : α → Prop) (S : Set α) (s s' : Found α) : Prop where
  added : ∃ new, s'.out = s.out ++ new ∧ new.Nodup ∧ (∀ a ∈ new, a ∈ S ∧ ok a) ∧
    (s'.cut = true ∨ ∀ a ∈ S, a ∈ new)
  cut : s.cut = true → s'.cut = true
  full : s.out.length ≤ limit → s'.out.length ≤ limit

namespace Lists

variable {limit : Nat} {ok : α → Prop} {S T : Set α} {s s' s'' : Found α} {a : α}

theorem skip (h : ∀ a, a ∉ S) : Lists limit ok S s s :=
  ⟨⟨[], by simp, List.nodup_nil, by simp, Or.inr fun a ha => absurd ha (h a)⟩, id, id⟩

theorem cutOff : Lists limit ok S s (s.cutIf true) :=
  ⟨⟨[], by simp [Found.cutIf], List.nodup_nil, by simp, Or.inl (by simp [Found.cutIf])⟩,
    fun _ => by simp [Found.cutIf], id⟩

theorem add (ha : ok a) (hS : ∀ b, b ∈ S ↔ b = a) (hs : s.out.length < limit) :
    Lists limit ok S s (s.add a) :=
  ⟨⟨[a], rfl, List.nodup_singleton a, by simp [hS, ha], Or.inr fun b hb => by simpa using (hS b).mp hb⟩,
    id, fun _ => by simpa [Found.add] using Nat.succ_le_of_lt hs⟩

/-- A larger set is listed if the search is cut or the sets are the same. -/
theorem grow (h : Lists limit ok S s s') (hST : ∀ a ∈ S, a ∈ T)
    (hall : s'.cut = true ∨ ∀ a ∈ T, a ∈ S) : Lists limit ok T s s' := by
  obtain ⟨l, hl, hnd, hmem, hin⟩ := h.added
  refine ⟨⟨l, hl, hnd, fun a ha => (hmem a ha).imp_left (hST a), ?_⟩, h.cut, h.full⟩
  rcases hall with hcut | hall
  · exact Or.inl hcut
  · exact hin.imp_right fun hin a ha => hin a (hall a ha)

theorem trans (h : Lists limit ok S s s') (h' : Lists limit ok T s' s'') (hd : ∀ a ∈ S, a ∉ T) :
    Lists limit ok {a | a ∈ S ∨ a ∈ T} s s'' := by
  obtain ⟨l, hl, hnd, hmem, hall⟩ := h.added
  obtain ⟨l', hl', hnd', hmem', hall'⟩ := h'.added
  refine ⟨⟨l ++ l', by rw [hl', hl, List.append_assoc], ?_, fun a ha => ?_, ?_⟩, h'.cut ∘ h.cut,
    h'.full ∘ h.full⟩
  · exact List.nodup_append.mpr ⟨hnd, hnd', fun a ha b hb hab =>
      hd a (hmem a ha).1 (hab ▸ (hmem' b hb).1)⟩
  · rcases List.mem_append.mp ha with ha | ha
    · exact ⟨Or.inl (hmem a ha).1, (hmem a ha).2⟩
    · exact ⟨Or.inr (hmem' a ha).1, (hmem' a ha).2⟩
  · rcases hall with hcut | hall
    · exact Or.inl (h'.cut hcut)
    · exact hall'.imp_right fun hall' a ha => List.mem_append.mpr (Or.imp (hall a) (hall' a) ha)

end Lists

/-- **A loop whose steps list disjoint sets lists their union.** -/
theorem untilFull_lists {limit : Nat} {ok : α → Prop} {S : β → Set α} {step : β → Found α → Found α} :
    ∀ {xs : List β} {s : Found α},
      (∀ x ∈ xs, ∀ s, s.out.length < limit → Lists limit ok (S x) s (step x s)) →
      xs.Pairwise (fun x y => ∀ a ∈ S x, a ∉ S y) →
      Lists limit ok {a | ∃ x ∈ xs, a ∈ S x} s (untilFull limit step xs s)
  | [], s, _, _ => .skip (by simp)
  | x :: xs, s, hstep, hd => by
    rw [untilFull]
    split_ifs with hfull
    · exact .cutOff
    · obtain ⟨hx, hd⟩ := List.pairwise_cons.mp hd
      obtain ⟨hs, hstep⟩ := List.forall_mem_cons.mp hstep
      have h := (hs s (Nat.not_le.mp hfull)).trans (untilFull_lists hstep hd)
        fun a ha ⟨y, hy, hay⟩ => hx y hy a ha hay
      exact h.grow (by simp) (Or.inr (by simp))

/-! ## The paths over a path -/

/-- What is emitted for the accepted paths that extend `p`. -/
def Below (emit : List β → α) (V : List β → Prop) (p : List β) : Set α :=
  {a | ∃ q, emit q = a ∧ V q ∧ p <:+ q}

section Below

variable {emit : List β → α} {V : List β → Prop} {p q : List β} {a : α} {x y : β}

theorem exists_cons_suffix (h : p <:+ q) (hne : q ≠ p) : ∃ x, x :: p <:+ q := by
  obtain ⟨r, rfl⟩ := h
  rcases List.eq_nil_or_concat' r with rfl | ⟨r, x, rfl⟩
  · exact absurd rfl hne
  · exact ⟨x, r, by simp⟩

theorem below_of_cons (h : a ∈ Below emit V (x :: p)) : a ∈ Below emit V p := by
  obtain ⟨q, ha, hq, hp⟩ := h
  exact ⟨q, ha, hq, (List.suffix_cons x p).trans hp⟩

/-- **The paths over a path that is not accepted are those over its extensions.** -/
theorem below_cons (h : ¬ V p) (ha : a ∈ Below emit V p) : ∃ x, a ∈ Below emit V (x :: p) := by
  obtain ⟨q, ha, hq, hp⟩ := ha
  obtain ⟨x, hx⟩ := exists_cons_suffix hp fun e => h (e ▸ hq)
  exact ⟨x, q, ha, hq, hx⟩

/-- Different extensions lead to different paths. -/
theorem below_disjoint (hemit : emit.Injective) (hne : x ≠ y) (h : a ∈ Below emit V (x :: p)) :
    a ∉ Below emit V (y :: p) := by
  rintro ⟨q', ha', -, hy⟩
  obtain ⟨q, ha, -, hx⟩ := h
  obtain rfl := hemit (ha.trans ha'.symm)
  have he := (List.suffix_of_suffix_length_le hx hy le_rfl).eq_of_length rfl
  exact hne (List.cons.inj he).1

end Below

end Antecedent.Listings
