import Mathlib.Data.List.Induction

/-!
# What a history says of the present

A history is the list of what happened, the latest last. Two questions are asked of it: whether
something happened that nothing of a kind has followed, and whether something of a kind came after the
last time.

* `standing_concat`, `sinceLast_concat`: what one more event makes of the answers.
-/

namespace Antecedent.Machine

variable {α : Type} {P Q : α → Prop} {h : List α} {e : α}

/-- A `P` happened, and no `Q` after it. -/
def Standing (P Q : α → Prop) (h : List α) : Prop :=
  ∃ h₁ p h₂, h = h₁ ++ p :: h₂ ∧ P p ∧ ∀ e ∈ h₂, ¬ Q e

/-- A `Q` happened after the last `P`. -/
def SinceLast (P Q : α → Prop) (h : List α) : Prop :=
  ∃ h₁ p h₂, h = h₁ ++ p :: h₂ ∧ P p ∧ (∀ e ∈ h₂, ¬ P e) ∧ ∃ e ∈ h₂, Q e

/-- A split of `h ++ [e]` is at `e`, or is one of `h` with `e` at its end. -/
theorem concat_eq_split {h₁ h₂ : List α} {p : α} :
    h ++ [e] = h₁ ++ p :: h₂ ↔
      (h₂ = [] ∧ p = e ∧ h₁ = h) ∨ ∃ t, h₂ = t ++ [e] ∧ h = h₁ ++ p :: t := by
  constructor
  · intro heq
    rcases List.eq_nil_or_concat h₂ with rfl | ⟨t, x, rfl⟩
    · have := List.append_inj' heq rfl
      exact Or.inl ⟨rfl, by simpa using this.2.symm, this.1.symm⟩
    · have heq' : h ++ [e] = (h₁ ++ p :: t) ++ [x] := by simpa using heq
      obtain ⟨hh, he⟩ := List.append_inj' heq' rfl
      obtain rfl : e = x := by simpa using he
      exact Or.inr ⟨t, List.concat_eq_append, hh⟩
  · rintro (⟨rfl, rfl, rfl⟩ | ⟨t, rfl, rfl⟩)
    · rfl
    · simp

@[simp] theorem not_standing_nil : ¬ Standing P Q [] := by
  rintro ⟨h₁, p, h₂, heq, -⟩
  simp at heq

theorem standing_concat : Standing P Q (h ++ [e]) ↔ P e ∨ (¬ Q e ∧ Standing P Q h) := by
  constructor
  · rintro ⟨h₁, p, h₂, heq, hp, hq⟩
    rcases concat_eq_split.mp heq with ⟨rfl, rfl, rfl⟩ | ⟨t, rfl, rfl⟩
    · exact Or.inl hp
    · exact Or.inr ⟨hq e (by simp), h₁, p, t, rfl, hp, fun x hx => hq x (by simp [hx])⟩
  · rintro (hp | ⟨hq, h₁, p, t, rfl, hp, ht⟩)
    · exact ⟨h, e, [], rfl, hp, by simp⟩
    · refine ⟨h₁, p, t ++ [e], by simp, hp, fun x hx => ?_⟩
      rcases List.mem_append.mp hx with hx | hx
      · exact ht x hx
      · rwa [List.mem_singleton.mp hx]

theorem exists_last {p : α} (hmem : p ∈ h) (hp : P p) :
    ∃ h₁ p h₂, h = h₁ ++ p :: h₂ ∧ P p ∧ ∀ y ∈ h₂, ¬ P y := by
  induction h generalizing p with
  | nil => exact absurd hmem List.not_mem_nil
  | cons a t ih =>
    by_cases hrest : ∃ x ∈ t, P x
    · obtain ⟨x, hx, hPx⟩ := hrest
      obtain ⟨h₁, y, h₂, rfl, hy, hlast⟩ := ih hx hPx
      exact ⟨a :: h₁, y, h₂, rfl, hy, hlast⟩
    · rcases List.mem_cons.mp hmem with rfl | hx
      · exact ⟨[], p, t, rfl, hp, fun y hy hPy => hrest ⟨y, hy, hPy⟩⟩
      · exact absurd ⟨p, hx, hp⟩ hrest

theorem sinceLast_concat :
    SinceLast P Q (h ++ [e]) ↔ ¬ P e ∧ (SinceLast P Q h ∨ (Q e ∧ ∃ p ∈ h, P p)) := by
  constructor
  · rintro ⟨h₁, p, h₂, heq, hp, hlast, x, hx, hq⟩
    rcases concat_eq_split.mp heq with ⟨rfl, rfl, rfl⟩ | ⟨t, rfl, rfl⟩
    · exact absurd hx List.not_mem_nil
    · refine ⟨hlast e (by simp), ?_⟩
      rcases List.mem_append.mp hx with hx | hx
      · exact Or.inl ⟨h₁, p, t, rfl, hp, fun y hy => hlast y (by simp [hy]), x, hx, hq⟩
      · obtain rfl := List.mem_singleton.mp hx
        exact Or.inr ⟨hq, p, by simp, hp⟩
  · rintro ⟨he, ⟨h₁, p, t, rfl, hp, hlast, x, hx, hq⟩ | ⟨hq, p, hmem, hp⟩⟩
    · refine ⟨h₁, p, t ++ [e], by simp, hp, fun y hy => ?_, x, by simp [hx], hq⟩
      rcases List.mem_append.mp hy with hy | hy
      · exact hlast y hy
      · rwa [List.mem_singleton.mp hy]
    · obtain ⟨h₁, p, t, rfl, hp, hlast⟩ := exists_last hmem hp
      refine ⟨h₁, p, t ++ [e], by simp, hp, fun y hy => ?_, e, by simp, hq⟩
      rcases List.mem_append.mp hy with hy | hy
      · exact hlast y hy
      · rwa [List.mem_singleton.mp hy]

end Antecedent.Machine
