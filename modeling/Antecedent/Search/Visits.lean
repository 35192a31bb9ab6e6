import Antecedent.Machine.Folds
import Mathlib.Data.List.Basic

/-!
# Visits that may stop

A search visits the members of a list in order and carries a state; a visit may fail, or say that
the search is over.

* `visitAll_spec`: when every visit succeeds, what each keeps holds when the visits end.
* `visitAll_ok`: the same of visits that ended, when some may fail.
-/

namespace Antecedent.Visits

variable {S α ε : Type}

/-- Visit one member after the other until a visit says to stop. -/
def visitAll (visit : S → α → Except ε (S × Bool)) : S → List α → Except ε (S × Bool)
  | st, [] => .ok (st, false)
  | st, z :: rest => do
    let r ← visit st z
    if r.2 then pure r else visitAll visit r.1 rest

variable {visit : S → α → Except ε (S × Bool)} (Inv : List α → S → Prop) (Post : S → Prop)

/-- **Of visits that ended**: `Inv before st` holds between visits, `Post st` of a state that
stopped. -/
theorem visitAll_ok : ∀ (seq done : List α) (st : S) {r : S × Bool}, Inv done st →
    (∀ before z after st r, done ++ seq = before ++ z :: after → Inv before st →
      visit st z = .ok r → (r.2 = false → Inv (before ++ [z]) r.1) ∧ (r.2 = true → Post r.1)) →
    visitAll visit st seq = .ok r →
    (r.2 = false → Inv (done ++ seq) r.1) ∧ (r.2 = true → Post r.1)
  | [], done, st, r, hinv, _, h => by
    obtain rfl := Except.ok.inj h
    exact ⟨fun _ => by rwa [List.append_nil], fun h => by cases h⟩
  | z :: rest, done, st, r, hinv, hstep, h => by
    have hnext : done ++ [z] ++ rest = done ++ z :: rest := List.append_cons done z rest ▸ rfl
    unfold visitAll at h
    obtain ⟨r', hr, h⟩ := bind_ok h
    obtain ⟨hgo, hstop⟩ := hstep done z rest st r' rfl hinv hr
    by_cases hend : r'.2 = true
    · obtain rfl : r' = r := Except.ok.inj ((if_pos hend).symm.trans h)
      exact ⟨fun h => absurd (hend.symm.trans h) (by decide), hstop⟩
    · have hrest : visitAll visit r'.1 rest = .ok r := (if_neg hend).symm.trans h
      rw [← hnext]
      exact visitAll_ok rest (done ++ [z]) r'.1 (hgo ((Bool.not_eq_true _).mp hend))
        (fun before z' after st r heq => hstep before z' after st r (hnext ▸ heq)) hrest

theorem visitAll_succeeds : ∀ (seq done : List α) (st : S), Inv done st →
    (∀ before z after st, done ++ seq = before ++ z :: after → Inv before st →
      ∃ r, visit st z = .ok r ∧ (r.2 = false → Inv (before ++ [z]) r.1)) →
    ∃ r, visitAll visit st seq = .ok r
  | [], _, st, _, _ => ⟨(st, false), rfl⟩
  | z :: rest, done, st, hinv, hstep => by
    have hnext : done ++ [z] ++ rest = done ++ z :: rest := List.append_cons done z rest ▸ rfl
    obtain ⟨r, hr, hgo⟩ := hstep done z rest st rfl hinv
    unfold visitAll
    rw [hr]
    by_cases hend : r.2 = true
    · exact ⟨r, if_pos hend⟩
    · obtain ⟨r', hr'⟩ := visitAll_succeeds rest (done ++ [z]) r.1
        (hgo ((Bool.not_eq_true _).mp hend)) fun before z' after st heq =>
          hstep before z' after st (hnext ▸ heq)
      exact ⟨r', (if_neg hend).trans hr'⟩

/-- **Of visits that all succeed.** -/
theorem visitAll_spec (seq : List α) (st : S) (hinv : Inv [] st)
    (hstep : ∀ before z after st, seq = before ++ z :: after → Inv before st →
      ∃ r, visit st z = .ok r ∧ (r.2 = false → Inv (before ++ [z]) r.1) ∧ (r.2 = true → Post r.1)) :
    ∃ r, visitAll visit st seq = .ok r ∧ (r.2 = false → Inv seq r.1) ∧ (r.2 = true → Post r.1) := by
  obtain ⟨r, hr⟩ := visitAll_succeeds Inv seq [] st hinv fun before z after st heq hst => by
    obtain ⟨r, hr, hgo, -⟩ := hstep before z after st heq hst
    exact ⟨r, hr, hgo⟩
  refine ⟨r, hr, visitAll_ok Inv Post seq [] st hinv (fun before z after st r heq hst hr => ?_) hr⟩
  obtain ⟨r', hr', hpost⟩ := hstep before z after st heq hst
  obtain rfl := Except.ok.inj (hr'.symm.trans hr)
  exact hpost

end Antecedent.Visits
