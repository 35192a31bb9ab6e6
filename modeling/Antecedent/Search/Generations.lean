import Mathlib.Order.Basic
import Mathlib.Tactic.Common

/-!
# Working through a growing table, generation by generation

A state holds a table whose entries are numbered. Expanding an entry may add entries at the end; it
may also refuse, which ends the run. `sweep` expands a range of entries in order, `generations`
sweeps the entries that the sweep before it added, until a sweep meets the goal or adds nothing.

The state is arbitrary: `size` counts its entries, `le` says that a state is a later one, `ok` is
what every expansion keeps.

* **`generations_spec`**: a run that ends in a fixpoint expanded every entry of the final table,
  each in an earlier state that held it.
* **`generations_ends`**: a run over tables of bounded size ends.
-/

namespace Antecedent.Generations

variable {σ ε : Type*}

/-- How a run ends; a refused run keeps the reason only. -/
inductive RunEnd (σ ε : Type*)
  | found (s : σ)
  | fixpoint (s : σ)
  | stopped (stop : ε)

section Run

variable (size : σ → Nat) (expand : Nat → σ → Except ε σ) (goal : σ → Bool)

/-- Expand `count` entries from `start` on. -/
def sweep : Nat → Nat → σ → Except ε σ
  | _, 0, s => .ok s
  | start, count + 1, s =>
    match expand start s with
    | .ok s => sweep (start + 1) count s
    | .error stop => .error stop

/-- Sweep the entries from `start` on, then those this sweep added, and so on. -/
def generations : Nat → Nat → σ → Option (RunEnd σ ε)
  | 0, _, _ => none
  | fuel + 1, start, s =>
    if start = size s then some (.fixpoint s)
    else
      match sweep expand start (size s - start) s with
      | .error stop => some (.stopped stop)
      | .ok s' => if goal s' then some (.found s') else generations fuel (size s) s'

/-- Expansions keep `ok` and lead to later states, whose tables are no smaller. -/
structure Progress (ok : σ → Prop) (le : σ → σ → Prop) : Prop where
  refl : ∀ s, le s s
  trans : ∀ s t u, le s t → le t u → le s u
  size_le : ∀ s t, le s t → size s ≤ size t
  step : ∀ q s s', ok s → q < size s → expand q s = .ok s' → ok s' ∧ le s s'

/-- Entry `q` was expanded in a state that held it, on the way to `s`. -/
def Expanded (ok : σ → Prop) (le : σ → σ → Prop) (q : Nat) (s : σ) : Prop :=
  ∃ t t', ok t ∧ q < size t ∧ expand q t = .ok t' ∧ le t' s

end Run

variable {size : σ → Nat} {expand : Nat → σ → Except ε σ} {goal : σ → Bool} {ok : σ → Prop}
  {le : σ → σ → Prop}

theorem Expanded.mono (h : Progress size expand ok le) {q : Nat} {s s' : σ}
    (he : Expanded size expand ok le q s) (hs : le s s') : Expanded size expand ok le q s' := by
  obtain ⟨t, t', ht, hq, hx, hl⟩ := he
  exact ⟨t, t', ht, hq, hx, h.trans _ _ _ hl hs⟩

/-- **A sweep** that is not refused expanded every entry of its range. -/
theorem sweep_spec (h : Progress size expand ok le) : ∀ (count start : Nat) (s s' : σ), ok s →
    start + count ≤ size s → sweep expand start count s = .ok s' →
    ok s' ∧ le s s' ∧ ∀ q, start ≤ q → q < start + count → Expanded size expand ok le q s'
  | 0, start, s, s', hs, _, hr => by
    cases hr
    exact ⟨hs, h.refl s, fun q hq hlt => absurd hq (by omega)⟩
  | count + 1, start, s, s', hs, hsize, hr => by
    unfold sweep at hr
    cases hx : expand start s with
    | error stop =>
      rw [hx] at hr
      cases hr
    | ok t =>
      rw [hx] at hr
      obtain ⟨ht, hst⟩ := h.step start s t hs (by omega) hx
      have htsize := h.size_le s t hst
      obtain ⟨hs', hts', hall⟩ := sweep_spec h count (start + 1) t s' ht (by omega) hr
      refine ⟨hs', h.trans _ _ _ hst hts', fun q hq hlt => ?_⟩
      rcases Nat.eq_or_lt_of_le hq with rfl | hlt'
      · exact ⟨s, t, hs, by omega, hx, hts'⟩
      · exact hall q hlt' (by omega)

/-- **What the end of a run says.** The goal is tested after every sweep, so a run from a state
without it that ends in a fixpoint never met it. -/
theorem generations_spec (h : Progress size expand ok le) : ∀ (fuel start : Nat) (s : σ)
    (r : RunEnd σ ε), ok s → start ≤ size s →
    (∀ q < start, Expanded size expand ok le q s) → goal s = false →
    generations size expand goal fuel start s = some r →
    match r with
    | .found s' => ok s' ∧ le s s' ∧ goal s' = true
    | .fixpoint s' => ok s' ∧ le s s' ∧ goal s' = false ∧
        ∀ q < size s', Expanded size expand ok le q s'
    | .stopped _ => True
  | 0, _, _, _, _, _, _, _, hr => by cases hr
  | fuel + 1, start, s, r, hs, hstart, hdone, hgoal, hr => by
    unfold generations at hr
    split_ifs at hr with hend
    · cases hr
      exact ⟨hs, h.refl s, hgoal, fun q hq => hdone q (hend ▸ hq)⟩
    · cases hsweep : sweep expand start (size s - start) s with
      | error stop =>
        rw [hsweep] at hr
        cases hr
        trivial
      | ok s' =>
        rw [hsweep] at hr
        obtain ⟨hs', hle, hall⟩ := sweep_spec h _ start s s' hs (by omega) hsweep
        by_cases hg : goal s' = true
        · simp only [hg, if_true] at hr
          cases hr
          exact ⟨hs', hle, hg⟩
        · simp only [hg] at hr
          have hdone' : ∀ q < size s, Expanded size expand ok le q s' := fun q hq => by
            rcases Nat.lt_or_ge q start with hlt | hge
            · exact (hdone q hlt).mono h hle
            · exact hall q hge (by omega)
          have ih := generations_spec h fuel (size s) s' r hs' (h.size_le s s' hle) hdone'
            (Bool.not_eq_true _ ▸ hg) hr
          cases r with
          | found t => exact ⟨ih.1, h.trans _ _ _ hle ih.2.1, ih.2.2⟩
          | fixpoint t => exact ⟨ih.1, h.trans _ _ _ hle ih.2.1, ih.2.2⟩
          | stopped stop => trivial

/-- **A run over tables of at most `bound` entries ends.** Every sweep but the last one starts past
the entries of the one before. -/
theorem generations_ends (h : Progress size expand ok le) {bound : Nat}
    (hbound : ∀ s, ok s → size s ≤ bound) : ∀ (fuel start : Nat) (s : σ), ok s →
    start ≤ size s → bound < fuel + start →
    ∃ r, generations size expand goal fuel start s = some r
  | 0, start, s, hs, hstart, hfuel => by
    have := hbound s hs
    omega
  | fuel + 1, start, s, hs, hstart, hfuel => by
    unfold generations
    by_cases hend : start = size s
    · exact ⟨_, if_pos hend⟩
    · rw [if_neg hend]
      cases hsweep : sweep expand start (size s - start) s with
      | error stop => exact ⟨_, rfl⟩
      | ok s' =>
        obtain ⟨hs', hle, -⟩ := sweep_spec h _ start s s' hs (by omega) hsweep
        by_cases hg : goal s' = true
        · exact ⟨_, if_pos hg⟩
        · simp only [hg]
          exact generations_ends h hbound fuel (size s) s' hs' (h.size_le s s' hle) (by omega)

end Antecedent.Generations
