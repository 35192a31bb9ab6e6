import Mathlib.Logic.Basic
import Mathlib.Tactic.SplitIfs

/-!
# Loops that may fail

A loop over a list in `Except` is a `foldlM`. `J rest p` says what holds of the state `p` while
`rest` is still to come.

* `foldlM_inv`: the same without the count.
* `bind_ok`, `guard_ok`: what a call that returns has passed.
* `ok_then`, `bind_returns`, `bind_refuses`: what follows a call that returns; `error_then`: nothing
  follows one that fails.
-/

namespace Antecedent

/-- A call that returned something has not failed on the way. -/
theorem bind_ok {ε α β : Type} {x : Except ε α} {f : α → Except ε β} {r : β}
    (h : x >>= f = .ok r) : ∃ a, x = .ok a ∧ f a = .ok r := by
  cases x with
  | error e => cases h
  | ok a => exact ⟨a, rfl, h⟩

theorem guard_ok {ε α : Type} {p : Prop} [Decidable p] {e : ε} {x : Except ε α} {r : α}
    (h : (if p then .error e else x) = .ok r) : ¬p ∧ x = .ok r := by
  split_ifs at h with hp
  exact ⟨hp, h⟩

namespace Machine

variable {α β ε : Type} {f : β → α → Except ε β} {J : List α → β → Prop}

/-- **A loop whose steps succeed succeeds, and one that did not count up did nothing.** -/
theorem foldlM_advance {μ : β → Nat} (h : ∀ a l p, J (a :: l) p →
      ∃ p', f p a = .ok p' ∧ J l p' ∧ (p' = p ∨ μ p < μ p')) :
    ∀ l p, J l p → ∃ p', l.foldlM f p = .ok p' ∧ J [] p' ∧
      ((p' = p ∧ ∀ a ∈ l, f p a = .ok p) ∨ μ p < μ p')
  | [], p, hp => ⟨p, rfl, hp, Or.inl ⟨rfl, fun _ ha => absurd ha List.not_mem_nil⟩⟩
  | a :: l, p, hp => by
    obtain ⟨q, hq, hJ, hpq⟩ := h a l p hp
    obtain ⟨r, hr, hJr, hqr⟩ := foldlM_advance h l q hJ
    refine ⟨r, ?_, hJr, ?_⟩
    · rw [List.foldlM_cons, hq]
      exact hr
    · rcases hpq with rfl | hlt
      · rcases hqr with ⟨rfl, hall⟩ | hlt
        · exact Or.inl ⟨rfl, List.forall_mem_cons.mpr ⟨hq, hall⟩⟩
        · exact Or.inr hlt
      · rcases hqr with ⟨rfl, -⟩ | hlt'
        · exact Or.inr hlt
        · exact Or.inr (Nat.lt_trans hlt hlt')

theorem foldlM_inv (h : ∀ a l p, J (a :: l) p → ∃ p', f p a = .ok p' ∧ J l p') :
    ∀ l p, J l p → ∃ p', l.foldlM f p = .ok p' ∧ J [] p'
  | [], p, hp => ⟨p, rfl, hp⟩
  | a :: l, p, hp => by
    obtain ⟨q, hq, hJ⟩ := h a l p hp
    obtain ⟨r, hr, hJr⟩ := foldlM_inv h l q hJ
    exact ⟨r, by rw [List.foldlM_cons, hq]; exact hr, hJr⟩

/-- A loop whose steps go up in a preorder goes up in it. -/
theorem foldlM_rel {R : β → β → Prop} (hrefl : ∀ s, R s s)
    (htrans : ∀ {s t u}, R s t → R t u → R s u) (hstep : ∀ s a s', f s a = .ok s' → R s s') :
    ∀ {l : List α} {s s' : β}, l.foldlM f s = .ok s' → R s s'
  | [], s, s', h => Except.ok.inj h ▸ hrefl s
  | a :: l, s, s', h => by
    rw [List.foldlM_cons] at h
    obtain ⟨t, hf, h⟩ := bind_ok h
    exact htrans (hstep s a t hf) (foldlM_rel hrefl htrans hstep h)

/-- A loop none of whose steps does anything does nothing. -/
theorem foldlM_same {s : β} : ∀ {l : List α},
    (∀ a ∈ l, f s a = .ok s) → l.foldlM f s = .ok s
  | [], _ => rfl
  | a :: l, h => by
    obtain ⟨ha, hl⟩ := List.forall_mem_cons.mp h
    rw [List.foldlM_cons, ha]
    exact foldlM_same hl

/-- A loop that discards errors, where there are none. -/
theorem foldl_of_foldlM : ∀ {l : List α} {s s' : β},
    l.foldlM f s = .ok s' → l.foldl (fun s a => match f s a with
      | .ok s' => s'
      | .error _ => s) s = s'
  | [], _, _, h => Except.ok.inj h
  | a :: l, s, s', h => by
    rw [List.foldlM_cons] at h
    obtain ⟨t, hf, h⟩ := bind_ok h
    rw [List.foldl_cons, hf]
    exact foldl_of_foldlM h

/-! ## One call after another -/

variable {x : Except ε α} {a : α} {g : α → Except ε β}

theorem ok_then (h : x = .ok a) (f : α → Except ε β) :
    (x >>= f) = f a := by
  rw [h]
  rfl

theorem error_then {e : ε} (h : x = .error e) (f : α → Except ε β) :
    (x >>= f) = .error e := by
  rw [h]
  rfl

theorem bind_returns (hx : x = .ok a) (h : ∃ r, g a = .ok r) : ∃ r, x >>= g = .ok r := hx ▸ h

theorem bind_refuses (hx : x = .ok a) (h : ∃ e, g a = .error e) : ∃ e, x >>= g = .error e := hx ▸ h

end Machine

end Antecedent
