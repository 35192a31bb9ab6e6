import Antecedent.Identify.StudyPlan

/-!
# Refusals without a receipt

Only the budget's stops carry a receipt. A check that refuses a request, the catalog, a candidate or
a preview carries none (`Plain`), and neither does the loop, which records its stops in the plan.
-/

namespace Antecedent.Identify

open Core

/-- If it refuses, then without a receipt. -/
def Plain {α : Type} (x : Except StudyPlanRefusal α) : Prop :=
  ∀ refusal, x = .error refusal → refusal.receipt = none

variable {α : Type} {refusal : StudyPlanRefusal}

theorem Plain.ok (a : α) : Plain (.ok a) := fun _ h => by cases h

theorem Plain.error (h : refusal.receipt = none) :
    Plain (.error refusal : Except StudyPlanRefusal α) := fun _ he => by cases he; exact h

theorem Plain.bind {α β : Type} {x : Except StudyPlanRefusal α} {f : α → Except StudyPlanRefusal β}
    (hx : Plain x) (hf : ∀ a, Plain (f a)) : Plain (x >>= f) := by
  intro refusal h
  cases x with
  | error e =>
    cases h
    exact hx refusal rfl
  | ok a => exact hf a refusal h

theorem Plain.guard {p : Prop} [Decidable p]
    {x : Except StudyPlanRefusal α} (hx : Plain x) (h : refusal.receipt = none) :
    Plain (if p then .error refusal else x) := by
  by_cases hp : p
  · rw [if_pos hp]
    exact .error h
  · rwa [if_neg hp]

theorem plain_foldlM {α σ : Type} {f : σ → α → Except StudyPlanRefusal σ}
    (hf : ∀ s a, Plain (f s a)) : ∀ (l : List α) (s : σ), Plain (l.foldlM f s)
  | [], s => Plain.ok s
  | a :: l, s => by
    rw [List.foldlM_cons]
    exact (hf s a).bind fun s' => plain_foldlM hf l s'

theorem plain_forM {f : α → Except StudyPlanRefusal Unit}
    (hf : ∀ a, Plain (f a)) : ∀ l : List α, Plain (l.forM f)
  | [] => Plain.ok ()
  | a :: l => by
    exact (hf a).bind fun _ => plain_forM hf l

theorem plain_checkRegime (route : StudyPlanRoute) (who : String) (seen : SeenRegimes)
    (regime : EvidenceRegime) : Plain (checkRegime route who seen regime) := by
  unfold checkRegime
  repeat' first
    | exact Plain.ok _
    | exact Plain.error rfl
    | refine Plain.bind ?_ fun _ => ?_
    | split

theorem plain_checkCandidate (route : StudyPlanRoute) (catalog : EvidenceCatalog) (ids : List String)
    (seen : SeenRegimes) (c : StudyPlanCandidate) : Plain (checkCandidate route catalog ids seen c) := by
  unfold checkCandidate
  refine Plain.guard (Plain.guard (Plain.guard (Plain.guard ?_ rfl) rfl) rfl) rfl
  dsimp only
  split
  · exact Plain.error rfl
  · refine Plain.guard ?_ rfl
    split
    · exact Plain.error rfl
    · exact plain_foldlM (fun seen regime => plain_checkRegime route c.id seen regime) _ _

theorem plain_validateCandidates (route : StudyPlanRoute) (catalog : EvidenceCatalog)
    (candidates : List StudyPlanCandidate) : Plain (validateCandidates route catalog candidates) := by
  unfold validateCandidates
  refine Plain.guard (Plain.guard ?_ rfl) rfl
  refine (plain_foldlM (plain_checkCandidate route catalog _) _ _).bind fun _ => Plain.ok _

theorem plain_requireBaseLineage (catalog : EvidenceCatalog) : Plain (requireBaseLineage catalog) := by
  refine plain_forM (fun regime => ?_) _
  split
  · exact Plain.ok ()
  · exact Plain.error rfl

theorem plain_checkBounds (limits : StudyPlanLimits) (route : StudyPlanRoute) (counts : List Nat) :
    Plain (limits.checkBounds route counts) := by
  unfold StudyPlanLimits.checkBounds
  split
  · exact Plain.error rfl
  · split
    · exact Plain.error rfl
    · split
      · exact Plain.error rfl
      · exact Plain.ok ()

variable (d : Decisions) (route : StudyPlanRoute) (catalog : EvidenceCatalog) (caps : PlanCaps)

theorem plain_turn (st : PlanState) (entry : RankedSubset) (rest : List RankedSubset) :
    Plain (st.turn d route catalog caps entry rest) := by
  unfold PlanState.turn PlanState.evaluate
  repeat' first
    | exact Plain.ok _
    | exact Plain.error rfl
    | split

theorem plain_planLoop : ∀ (todo : List RankedSubset) (st : PlanState),
    Plain (planLoop d route catalog caps todo st)
  | [], st => Plain.ok st
  | entry :: rest, st => (plain_turn d route catalog caps st entry rest).bind
      fun st' => plain_planLoop rest st'

end Antecedent.Identify
