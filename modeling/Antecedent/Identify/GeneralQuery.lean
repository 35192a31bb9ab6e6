import Antecedent.Identify.GeneralIdHedge

/-!
# The entry points of the general identifier

Model of `IdIdentifier` (`id.rs:252-784`): the average effect, the schedule contrast, the
distribution and the response queries. An entry that goes through `identify_sets` attaches the
problem to the hedge it issues; the two contrasts issue the hedge of the recursion as it is.

* `Ensures.bind`: what a sequence of steps that may be refused answers.
* **`answer_carries`**: an entry point answers, and a negative result passes its own check iff the
  entry attaches problems.
-/

namespace Antecedent.Identify.GeneralId

open Core
open Expr
open Mixed

/-! ## Queries -/

/-- An `Intervention` as it is read: `primary_variable`, `require_set_value`, and the Set levels
`normalize_intervention_list` flattens it to (`intervention_support.rs:220-263`). -/
structure Intervention where
  primaryVariable : Option Nat
  setValue : Except IdentificationError Value
  sets : Except IdentificationError (List (Nat × Value))

def Intervention.set (var : Nat) (value : Value) : Intervention :=
  ⟨some var, .ok value, .ok [(var, value)]⟩

/-- `AverageEffectQuery` (`query/average.rs`); `otherChecks` is the verdict on its population and
its outcome functional. -/
structure AverageEffectQuery where
  treatment : Nat
  outcome : Nat
  effectModifiers : List Nat
  control : Intervention
  active : Intervention
  otherChecks : Bool

/-- `average.rs:68-77`. -/
def binaryAte (treatment outcome : Nat) : AverageEffectQuery :=
  ⟨treatment, outcome, [], .set treatment (.float64 (.finite 0)),
    .set treatment (.float64 (.finite 1)), true⟩

/-- `average.rs:124-152`. -/
def AverageEffectQuery.validate (q : AverageEffectQuery) : Bool :=
  q.treatment ≠ q.outcome ∧ q.control.primaryVariable = some q.treatment ∧
    q.active.primaryVariable = some q.treatment ∧
    (∀ m ∈ q.effectModifiers, m ≠ q.treatment ∧ m ≠ q.outcome) ∧ q.otherChecks

/-- `InterventionalDistributionQuery` (`query/distribution.rs`) with the verdict of `validate`. -/
structure DistributionQuery where
  outcomes : List Nat
  interventions : List Intervention
  conditioning : List Nat
  validate : Except IdentificationError Unit

/-- `ResponseFunctional` (`query/response.rs:393-452`). The grid is `none` where its values are
refused; the four derivative functionals are read through their variables only. -/
inductive ResponseFunctional
  | meanCurve (outcome treatment : Nat) (grid : Option (List F64))
  | interventionResponse (outcome : Nat) (interventions : List Intervention)
  | derivative (outcomes treatments : List Nat)

/-- `CausalQuery`, the kinds `identify` takes; `other` is any of the rest. -/
inductive CausalQuery
  | averageEffect (query : AverageEffectQuery)
  | distribution (query : DistributionQuery)
  | response (functional : ResponseFunctional)
  | other

/-- `IdentificationStatus` (`identification.rs:30`), the two that general ID issues. -/
inductive IdentificationStatus
  | nonparametricallyIdentified
  | notIdentified

/-- The root of an estimand's functional. -/
inductive Functional
  | law (e : ExprTree)
  | mean (e : Expectation)
  | difference (c : Contrast)

/-- `IdentificationResult` (`result.rs`), its status, estimands and hedge. -/
structure IdentificationResult where
  status : IdentificationStatus
  estimands : List Functional
  hedge : Option HedgeCertificate

def identified (functional : Functional) : IdentificationResult :=
  ⟨.nonparametricallyIdentified, [functional], none⟩

/-- Lines 843-895. -/
def notIdentifiedWithHedge (hedge : HedgeCertificate) : IdentificationResult :=
  ⟨.notIdentified, [], some hedge⟩

/-! ## The entry points -/

/-- A computation that may be refused, or spend the bound on its depth. -/
abbrev Run := ExceptT IdentificationError Option

variable (p : PreparedAdmg) (simplify : Contrast → Except IdentificationError Contrast)

/-- The recursion from the root. -/
def runId (assign : Assign) (y x : Finset Nat) : Run IdOutcome := idRun p assign y x

/-- Lines 810-820. -/
def requireDisjoint (y x : Finset Nat) : Except IdentificationError Unit :=
  if y = ∅ then .error (.unsupportedQuery "general ID requires at least one outcome")
  else if y ∩ x ≠ ∅ then .error (.unsupportedQuery
    "general ID requires outcomes disjoint from the intervened variables")
  else .ok ()

/-- Lines 826-847. -/
def expectationContrast (outcome : Nat) (left right : ExprTree) :
    Except IdentificationError Contrast :=
  simplify ⟨⟨outcome, left⟩, ⟨outcome, right⟩⟩

/-- The two sides of a contrast, the failure of either ending it (`id.rs:529-600`). -/
def contrast (outcome : Nat) (y x : Finset Nat) (active control : Assign) :
    Run IdentificationResult := do
  match ← runId p active y x with
  | .fail hedge => pure (notIdentifiedWithHedge hedge)
  | .expr left =>
    match ← runId p control y x with
    | .fail hedge => pure (notIdentifiedWithHedge hedge)
    | .expr right => do
      let functional ← expectationContrast simplify outcome left right
      pure (identified (.difference functional))

/-- `identify_ate_impl` (`id.rs:500-614`). -/
def identifyAte (query : AverageEffectQuery) : Run IdentificationResult := do
  if query.validate then
    let t ← p.varToDense query.treatment
    let y ← p.varToDense query.outcome
    let activeLevel ← query.active.setValue
    let controlLevel ← query.control.setValue
    contrast p simplify query.outcome {y} {t} [(t, activeLevel)] [(t, controlLevel)]
  else throw (.unsupportedQuery "invalid average-effect query")

/-- Lines 629-737. -/
def identifyScheduleContrast (outcome : Nat) (schedule : List Nat)
    (activeLevel controlLevel : Value) : Run IdentificationResult :=
  if schedule.isEmpty then throw (.message "empty treatment schedule")
  else do
    let dense ← (schedule.mapM p.varToDense : Except IdentificationError (List Nat))
    let y ← p.varToDense outcome
    let _ ← requireDisjoint {y} dense.toFinset
    contrast p simplify outcome {y} dense.toFinset (dense.map fun d => (d, activeLevel))
      (dense.map fun d => (d, controlLevel))

/-- Lines 739-784. -/
def identifySets (y x : Finset Nat) (assignments : Assign) : Run IdentificationResult := do
  let _ ← requireDisjoint y x
  match ← runId p assignments y x with
  | .expr functional => pure (identified (.law functional))
  | .fail hedge => pure (notIdentifiedWithHedge (hedge.withProblem (.capture p x y)))

/-- `require_hard_set_interventions` and `normalize_intervention_list`
(`intervention_support.rs:220-250`). -/
def normalized (interventions : List Intervention) :
    Except IdentificationError (List (Nat × Value)) := do
  let _ ← interventions.mapM Intervention.setValue
  let sets ← interventions.mapM Intervention.sets
  .ok sets.flatten

/-- The distribution arm of `identify` (`id.rs:307-340`). -/
def identifyDistribution (query : DistributionQuery) : Run IdentificationResult := do
  let _ ← query.validate
  if !query.conditioning.isEmpty then throw (.unsupportedQuery
    "conditional Distribution requires IdcIdentifier (or AutoIdentifier)")
  else
    let sets ← normalized query.interventions
    let x ← p.resolve (sets.map Prod.fst)
    let y ← p.resolve query.outcomes
    identifySets p y x []

/-- The intervention-response arm of `identify_response` (`id.rs:435-478`). -/
def interventionResponse (outcome : Nat) (interventions : List Intervention) :
    Run IdentificationResult := do
  let sets ← normalized interventions
  let dense ← ((sets.map Prod.fst).mapM p.varToDense : Except IdentificationError (List Nat))
  let y ← p.varToDense outcome
  let result ← identifySets p {y} dense.toFinset (dense.zip (sets.map Prod.snd))
  pure { result with estimands := result.estimands.map fun
    | .law e => .mean ⟨outcome, e⟩
    | functional => functional }

/-- The levels of a mean curve in turn; one without an estimand is the answer
(`id.rs:365-404`). -/
def curve (level : F64 → Run IdentificationResult) :
    List F64 → Option IdentificationResult → Run IdentificationResult
  | [], some merged => pure merged
  | [], none => throw (.unsupportedQuery "MeanCurve general ID requires a finite evaluation grid")
  | a :: grid, merged => do
    let atLevel ← level a
    if atLevel.estimands.isEmpty then pure atLevel
    else match merged with
      | none => curve level grid (some atLevel)
      | some m => curve level grid (some { m with estimands := m.estimands ++ atLevel.estimands })

/-- `response_id.rs:77-90`. -/
def responseAteWitness (outcomes treatments : List Nat) :
    Except IdentificationError AverageEffectQuery :=
  match treatments, outcomes with
  | [treatment], outcome :: _ => .ok (binaryAte treatment outcome)
  | [_], [] => .error (.unsupportedQuery "response functional has no treatment/outcome pair")
  | _, _ => .error (.unsupportedQuery
      "general response ID on a MAG/DAG currently requires one treatment target")

/-- Lines 350-478. -/
def identifyResponse : ResponseFunctional → Run IdentificationResult
  | .meanCurve outcome treatment (some grid) => curve (fun a =>
      interventionResponse p outcome [.set treatment (.float64 a)]) grid none
  | .meanCurve _ _ none =>
    throw (.unsupportedQuery "MeanCurve general ID requires a finite evaluation grid")
  | .interventionResponse outcome interventions => interventionResponse p outcome interventions
  | .derivative outcomes treatments => do
    let witness ← responseAteWitness outcomes treatments
    identifyAte p simplify witness

/-- The public entry points: `identify` (`id.rs:300-348`), of which `identify_ate` is one arm, and
`identify_schedule_contrast`. -/
inductive Entry
  | identify (query : CausalQuery)
  | scheduleContrast (outcome : Nat) (schedule : List Nat) (activeLevel controlLevel : Value)

def answer : Entry → Run IdentificationResult
  | .identify (.averageEffect query) => identifyAte p simplify query
  | .identify (.distribution query) => identifyDistribution p query
  | .identify (.response functional) => identifyResponse p simplify functional
  | .identify .other => throw (.unsupportedQuery
      "IdIdentifier supports AverageEffect, Distribution, and Response queries")
  | .scheduleContrast outcome schedule activeLevel controlLevel =>
    identifyScheduleContrast p simplify outcome schedule activeLevel controlLevel

/-- The entry goes through `identify_sets`, which attaches the problem to a hedge. -/
def Entry.attaches : Entry → Bool
  | .identify (.distribution _) => true
  | .identify (.response (.meanCurve ..)) => true
  | .identify (.response (.interventionResponse ..)) => true
  | _ => false

/-! ## Sequences of steps -/

section Ensures

variable {α β : Type} {P : α → Prop} {Q : β → Prop}

/-- The computation answers, and what it returns satisfies `P`. -/
def Ensures (m : Run α) (P : α → Prop) : Prop := ∃ r, m = some r ∧ ∀ a, r = .ok a → P a

theorem Ensures.pure {a : α} (h : P a) : Ensures (Pure.pure a) P :=
  ⟨.ok a, rfl, fun _ e => Except.ok.inj e ▸ h⟩

theorem Ensures.throw (e : IdentificationError) : Ensures (MonadExcept.throw e) P :=
  ⟨.error e, rfl, fun _ h => nomatch h⟩

theorem Ensures.lift {x : Except IdentificationError α} (h : ∀ a, x = .ok a → P a) :
    Ensures (liftM x) P := ⟨x, rfl, h⟩

theorem Ensures.bind {m : Run α} {f : α → Run β} (hm : Ensures m P)
    (hf : ∀ a, P a → Ensures (f a) Q) : Ensures (m >>= f) Q := by
  obtain ⟨r, rfl, hr⟩ := hm
  cases r with
  | error e => exact ⟨.error e, rfl, fun _ h => nomatch h⟩
  | ok a => exact hf a (hr a rfl)

end Ensures

/-! ## What an entry point issues -/

variable {p : PreparedAdmg} {simplify : Contrast → Except IdentificationError Contrast}

/-- A negative result passes its own check iff `attached`. -/
def Carries (attached : Bool) (r : IdentificationResult) : Prop :=
  r.status = .notIdentified →
    ((∃ hedge, r.hedge = some hedge ∧ hedge.verifyCarried = .ok ()) ↔ attached = true)

theorem carries_identified {attached : Bool} (functional : Functional) :
    Carries attached (identified functional) := fun h => nomatch h

variable {hedge : HedgeCertificate} {x y : Finset Nat} {assign : Assign}

theorem carries_bare (h : hedge.problem = none) :
    Carries false (notIdentifiedWithHedge hedge) := fun _ => by
  constructor
  · rintro ⟨hedge', he, hv⟩
    obtain rfl := Option.some.inj he
    unfold HedgeCertificate.verifyCarried at hv
    rw [h] at hv
    cases hv
  · exact fun h => nomatch h

theorem good_problem (h : Good p x y hedge) :
    hedge.problem = none := by
  obtain ⟨f, f', rfl, -⟩ := h.sets
  rfl

/-- The index names the nodes of a set. -/
def Named (p : PreparedAdmg) (x : Finset Nat) : Prop :=
  ∀ v ∈ x, p.varToDense (p.denseToVar v) = .ok v

theorem Named.lt (h : Named p x) : ∀ v ∈ x, v < p.admg.nodeCount := fun v hv =>
  (PreparedAdmg.varToDense_ok (h v hv)).1

theorem named_mapM {ids nodes : List Nat} (h : ids.mapM p.varToDense = .ok nodes) :
    Named p nodes.toFinset :=
  PreparedAdmg.resolve_label (show p.resolve ids = .ok nodes.toFinset by
    unfold PreparedAdmg.resolve
    rw [h]
    rfl)

theorem named_singleton {id v : Nat} (h : p.varToDense id = .ok v) : Named p {v} := fun u hu => by
  obtain rfl := Finset.mem_singleton.mp hu
  rwa [(PreparedAdmg.varToDense_ok h).2]

theorem requireDisjoint_ok (h : requireDisjoint y x = .ok ()) :
    y.Nonempty ∧ Disjoint y x := by
  unfold requireDisjoint at h
  split_ifs at h with hy hd
  exact ⟨Finset.nonempty_iff_ne_empty.mpr hy,
    Finset.disjoint_iff_inter_eq_empty.mpr (not_not.mp hd)⟩

section

variable (hx : Named p x) (hy : Named p y)

include hx hy

theorem runId_ensures (hne : y.Nonempty) (hd : Disjoint y x) :
    Ensures (runId p assign y x) fun o => ∀ hedge, o = .fail hedge → Good p x y hedge := by
  obtain ⟨r, hr, hgood⟩ : Settled p x y (idRun p assign y x) := idRun_settled hx.lt hy.lt hne hd
  exact ⟨r, hr, fun o ho hedge h => hgood hedge (by rw [ho, h])⟩

theorem contrast_carries {outcome : Nat} {active control : Assign} (hne : y.Nonempty)
    (hd : Disjoint y x) : Ensures (contrast p simplify outcome y x active control) (Carries false) := by
  unfold contrast
  refine (runId_ensures hx hy hne hd).bind fun left hl => ?_
  split
  · exact .pure (carries_bare (good_problem (hl _ rfl)))
  · refine (runId_ensures hx hy hne hd).bind fun right hr => ?_
    split
    · exact .pure (carries_bare (good_problem (hr _ rfl)))
    · exact (Ensures.lift (P := fun _ => True) fun _ _ => trivial).bind fun c _ =>
        .pure (carries_identified _)

/-- The entries through `identify_sets` attach the problem. -/
theorem identifySets_carries : Ensures (identifySets p y x assign) (Carries true) := by
  unfold identifySets
  refine (Ensures.lift (P := fun _ => y.Nonempty ∧ Disjoint y x)
    fun _ h => requireDisjoint_ok h).bind fun _ hok => ?_
  refine (runId_ensures hx hy hok.1 hok.2).bind fun o ho => ?_
  split
  · exact .pure (carries_identified _)
  · obtain ⟨f, f', rfl, hf, hf', hhedge⟩ := (ho _ rfl).sets
    exact .pure fun _ => iff_of_true
      ⟨_, rfl, (HedgeCertificate.verifyCarried_capture hx hy hf hf').mpr hhedge⟩ rfl

end

theorem identifyAte_carries (query : AverageEffectQuery) :
    Ensures (identifyAte p simplify query) (Carries false) := by
  unfold identifyAte
  split_ifs with hv
  · have hne : query.treatment ≠ query.outcome := (of_decide_eq_true hv).1
    refine (Ensures.lift fun _ ht => ht).bind fun t ht => ?_
    refine (Ensures.lift fun _ hy => hy).bind fun y hy => ?_
    refine (Ensures.lift (P := fun _ => True) fun _ _ => trivial).bind fun active _ => ?_
    refine (Ensures.lift (P := fun _ => True) fun _ _ => trivial).bind fun control _ => ?_
    refine contrast_carries (named_singleton ht) (named_singleton hy) (Finset.singleton_nonempty y)
      (Finset.disjoint_singleton.mpr ?_)
    rintro rfl
    exact hne ((PreparedAdmg.varToDense_ok ht).2.symm.trans (PreparedAdmg.varToDense_ok hy).2)
  · exact .throw _

theorem identifyScheduleContrast_carries (outcome : Nat) (schedule : List Nat)
    (activeLevel controlLevel : Value) :
    Ensures (identifyScheduleContrast p simplify outcome schedule activeLevel controlLevel)
      (Carries false) := by
  unfold identifyScheduleContrast
  split_ifs
  · exact .throw _
  refine (Ensures.lift fun _ hx => hx).bind fun dense hx => ?_
  refine (Ensures.lift fun _ hy => hy).bind fun y hy => ?_
  refine (Ensures.lift (P := fun _ => Finset.Nonempty {y} ∧ Disjoint {y} dense.toFinset)
    fun _ h => requireDisjoint_ok h).bind fun _ hok => ?_
  exact contrast_carries (named_mapM hx) (named_singleton hy) hok.1 hok.2

theorem identifyDistribution_carries (query : DistributionQuery) :
    Ensures (identifyDistribution p query) (Carries true) := by
  unfold identifyDistribution
  refine (Ensures.lift (P := fun _ => True) fun _ _ => trivial).bind fun _ _ => ?_
  split_ifs
  · exact .throw _
  refine (Ensures.lift (P := fun _ => True) fun _ _ => trivial).bind fun sets _ => ?_
  refine (Ensures.lift fun _ hx => hx).bind fun x hx => ?_
  refine (Ensures.lift fun _ hy => hy).bind fun y hy => ?_
  exact identifySets_carries (PreparedAdmg.resolve_label hx) (PreparedAdmg.resolve_label hy)

theorem interventionResponse_carries (outcome : Nat) (interventions : List Intervention) :
    Ensures (interventionResponse p outcome interventions) (Carries true) := by
  unfold interventionResponse
  refine (Ensures.lift (P := fun _ => True) fun _ _ => trivial).bind fun sets _ => ?_
  refine (Ensures.lift fun _ hx => hx).bind fun dense hx => ?_
  refine (Ensures.lift fun _ hy => hy).bind fun y hy => ?_
  exact (identifySets_carries (named_mapM hx) (named_singleton hy)).bind fun r hr => .pure hr

theorem curve_carries {level : F64 → Run IdentificationResult}
    (hlevel : ∀ a, Ensures (level a) (Carries true)) : ∀ (grid : List F64)
    (merged : Option IdentificationResult), (∀ m, merged = some m → Carries true m) →
      Ensures (curve level grid merged) (Carries true)
  | [], some m, h => .pure (h m rfl)
  | [], none, _ => .throw _
  | a :: grid, merged, h => by
    unfold curve
    refine (hlevel a).bind fun r hr => ?_
    split_ifs
    · exact .pure hr
    · split
      · exact curve_carries hlevel grid _ fun m hm => Option.some.inj hm ▸ hr
      · rename_i m
        exact curve_carries hlevel grid _ fun m' hm' => Option.some.inj hm' ▸ h m rfl

theorem identifyResponse_carries : ∀ functional : ResponseFunctional,
    Ensures (identifyResponse p simplify functional)
      (Carries (Entry.attaches (.identify (.response functional))))
  | .meanCurve outcome _ (some grid) => curve_carries
      (fun _ => interventionResponse_carries outcome _) grid none fun _ h => nomatch h
  | .meanCurve _ _ none => .throw _
  | .interventionResponse outcome interventions =>
    interventionResponse_carries outcome interventions
  | .derivative _ _ =>
    (Ensures.lift (P := fun _ => True) fun _ _ => trivial).bind fun witness _ =>
      identifyAte_carries witness

/-- **An entry point answers, and a negative result it issues passes its own check iff the entry
attaches problems.** -/
theorem answer_carries : ∀ entry : Entry,
    Ensures (answer p simplify entry) (Carries entry.attaches)
  | .identify (.averageEffect query) => identifyAte_carries query
  | .identify (.distribution query) => identifyDistribution_carries query
  | .identify (.response functional) => identifyResponse_carries functional
  | .identify .other => .throw _
  | .scheduleContrast outcome schedule activeLevel controlLevel =>
    identifyScheduleContrast_carries outcome schedule activeLevel controlLevel

/-- **The check is the definition of a hedge, and a negative result carries a problem its hedge
passes over iff the entry point attaches problems**: the distribution, the intervention response and
the mean curve do; the average effect, the schedule contrast and the derivative responses do not. -/
theorem hedge_certificates (p : PreparedAdmg)
    (simplify : Contrast → Except IdentificationError Contrast) :
    (∀ (treatments outcomes : List Nat) (f f' : Finset Nat), (∀ v ∈ f, v < p.admg.nodeCount) →
      (∀ v ∈ f', v < p.admg.nodeCount) →
        ((HedgeCertificate.fromSets p f f').verify p treatments outcomes = .ok () ↔
          ∃ x y : Finset Nat, p.resolve treatments = .ok x ∧ p.resolve outcomes = .ok y ∧
            p.admg.mixed.Hedge (x : Set Nat) y f f')) ∧
    ∀ entry, ∃ r, answer p simplify entry = some r ∧
      ∀ result, r = .ok result → result.status = .notIdentified →
        ((∃ hedge, result.hedge = some hedge ∧ hedge.verifyCarried = .ok ()) ↔
          entry.attaches = true) :=
  ⟨fun _ _ _ _ hf hf' => HedgeCertificate.verify_iff (PreparedAdmg.toSet_vars hf)
    (PreparedAdmg.toSet_vars hf'), answer_carries⟩

/-! ## The bow -/

/-- `X → Y` and `X ↔ Y`. -/
def bow : Except Graph.GraphError Graph.Admg :=
  (Graph.Admg.withVariables 2).insertDirected 0 1 >>= fun g => g.insertBidirected 0 1

/-- Line 5 fails at once on the bow. -/
theorem bow_fails : ∃ g, bow = .ok g ∧ PreparedAdmg.new g = .ok ⟨g, [0, 1]⟩ ∧ g.nodeCount = 2 ∧
    (∀ v < 2, (PreparedAdmg.mk g [0, 1]).varToDense v = .ok v) ∧
    ∀ assign, idRun ⟨g, [0, 1]⟩ assign {1} {0} =
      some (.ok (.fail (.fromSets ⟨g, [0, 1]⟩ (.range 2) {1}))) := by
  refine ⟨_, rfl, rfl, rfl, fun v hv => ?_, fun assign => ?_⟩
  · match v, hv with
    | 0, _ => rfl
    | 1, _ => rfl
  generalize hg : (⟨_, [0, 1]⟩ : PreparedAdmg) = p
  have hn : p.admg.nodeCount = 2 := by
    subst hg
    rfl
  have hseeds : ({1} ∩ Finset.range 2 : Finset Nat) = {1} := by decide
  have hanc : p.ancestors {1} (.range 2) = .range 2 := by
    unfold PreparedAdmg.ancestors Graph.Admg.ancestorsWithin
    rw [hseeds, Finset.sort_singleton]
    subst hg
    decide
  have hbar : (Finset.range 2 \ {0}) \ p.ancestorsBarX {1} (.range 2) {0} = ∅ := by
    unfold PreparedAdmg.ancestorsBarX Graph.Admg.ancestorsWithin
    rw [hseeds, Finset.sort_singleton]
    subst hg
    decide
  have hcomp : p.cComponents (Finset.range 2 \ {0}) = [{1}] := by
    subst hg
    decide
  have hone : p.isSingleCComponent (.range 2) = true := by
    subst hg
    decide
  unfold idRun idRecurse idBody
  rw [hn]
  simp [hanc, hbar, hcomp, hone]

/-- The average effect of the bow: its hedge carries no problem. -/
theorem bow_averageEffect : ∃ g p result, bow = .ok g ∧ PreparedAdmg.new g = .ok p ∧
    answer p .ok (.identify (.averageEffect (binaryAte 0 1))) = some (.ok result) ∧
    result.status = .notIdentified ∧
    ¬ ∃ hedge, result.hedge = some hedge ∧ hedge.verifyCarried = .ok () := by
  obtain ⟨g, hg, hp, -, hvar, hrun⟩ := bow_fails
  refine ⟨g, ⟨g, [0, 1]⟩, notIdentifiedWithHedge (.fromSets ⟨g, [0, 1]⟩ (.range 2) {1}), hg, hp,
    ?_, rfl, fun h => Bool.false_ne_true ((carries_bare rfl rfl).mp h)⟩
  show identifyAte ⟨g, [0, 1]⟩ .ok (binaryAte 0 1) = _
  have hvalid : (binaryAte 0 1).validate = true := by decide
  unfold identifyAte
  rw [if_pos hvalid, show (binaryAte 0 1).treatment = 0 from rfl,
    show (binaryAte 0 1).outcome = 1 from rfl, hvar 0 (by decide), hvar 1 (by decide)]
  show contrast ⟨g, [0, 1]⟩ .ok 1 {1} {0} _ _ = _
  unfold contrast runId
  rw [hrun]
  rfl

/-- The distribution query on the bow: its hedge passes. -/
theorem hedge_certificates_bow : ∃ g p result, bow = .ok g ∧ PreparedAdmg.new g = .ok p ∧
    answer p .ok (.identify (.distribution
      ⟨[1], [.set 0 (.bool true)], [], .ok ()⟩)) = some (.ok result) ∧
    result.status = .notIdentified ∧
    ∃ hedge, result.hedge = some hedge ∧ hedge.verifyCarried = .ok () := by
  obtain ⟨g, hg, hp, -, hvar, hrun⟩ := bow_fails
  have hx : PreparedAdmg.resolve ⟨g, [0, 1]⟩ [0] = .ok {0} := by
    unfold PreparedAdmg.resolve
    rw [List.mapM_cons, List.mapM_nil, hvar 0 (by decide)]
    rfl
  have hy : PreparedAdmg.resolve ⟨g, [0, 1]⟩ [1] = .ok {1} := by
    unfold PreparedAdmg.resolve
    rw [List.mapM_cons, List.mapM_nil, hvar 1 (by decide)]
    rfl
  have hanswer : answer ⟨g, [0, 1]⟩ .ok (.identify (.distribution
      ⟨[1], [.set 0 (.bool true)], [], .ok ()⟩)) = some (.ok (notIdentifiedWithHedge
        ((HedgeCertificate.fromSets ⟨g, [0, 1]⟩ (.range 2) {1}).withProblem
          (.capture ⟨g, [0, 1]⟩ {0} {1})))) := by
    show (liftM (PreparedAdmg.resolve ⟨g, [0, 1]⟩ [0]) >>= fun x =>
      liftM (PreparedAdmg.resolve ⟨g, [0, 1]⟩ [1]) >>= fun y =>
        identifySets ⟨g, [0, 1]⟩ y x [] : Run IdentificationResult) = _
    rw [hx, hy]
    show identifySets ⟨g, [0, 1]⟩ {1} {0} [] = _
    unfold identifySets runId
    rw [hrun]
    rfl
  obtain ⟨r, hr, hall⟩ := (hedge_certificates ⟨g, [0, 1]⟩ .ok).2 (.identify (.distribution
    ⟨[1], [.set 0 (.bool true)], [], .ok ()⟩))
  rw [hanswer] at hr
  exact ⟨g, _, _, hg, hp, hanswer, rfl,
    (hall _ (Option.some.inj hr).symm rfl).mpr rfl⟩

end Antecedent.Identify.GeneralId
