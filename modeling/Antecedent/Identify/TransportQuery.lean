import Antecedent.Discovery.Combinations
import Antecedent.Identify.CatalogBinding
import Antecedent.Identify.SelectionSeparation

/-!
# The structural transport identifier

Model of `TransportIdentifier::identify` (`antecedent-identify/src/transport.rs:163-631`) with the
query (`query/transport.rs`), the selection diagram (`selection.rs`) and the catalog lookups it
reads. Variables are raw ids; a `BTreeSet` is a `Finset`, read out in ascending order.

Of a response only its variables are modelled. Its other checks (levels, grids, weights, evaluation
points, empty sequences, temporal attachment) are `ResponseQuery.others`: the message of the one
that fails. The general identifier and the joint responses read other parts of a response and keep
projections of their own. The operation counters around the call observe it and are left out.

* `identify`: the five rules in their order, the binding of a catalog, and the fallback.
-/

namespace Antecedent.Identify.Structural

open Core
open Discovery (combinations)
open Graph
open Binding (suppliesPopulationLaw)

/-! ## The query -/

/-- `Intervention` (`intervention.rs`): an elementary one names its variable. -/
inductive Intervention
  | elementary (target : Nat)
  | sequence (steps : List Intervention)

namespace Intervention

mutual

/-- `target_variables` (`intervention.rs:505-526`): every variable the intervention assigns. -/
def targetVariables : Intervention → List Nat
  | elementary target => [target]
  | sequence steps => (stepTargets steps).eraseDups

def stepTargets : List Intervention → List Nat
  | [] => []
  | step :: steps => step.targetVariables ++ stepTargets steps

end

mutual

/-- `primary_variable` (`intervention.rs:530-551`): a sequence has one when all its steps share it. -/
def primaryVariable : Intervention → Option Nat
  | elementary target => some target
  | sequence steps =>
    match stepPrimaries steps with
    | [] => none
    | first :: rest => if rest.all (· = first) then first else none

def stepPrimaries : List Intervention → List (Option Nat)
  | [] => []
  | step :: steps => step.primaryVariable :: stepPrimaries steps

end

mutual

theorem eq_of_primary {v : Nat} : ∀ (i : Intervention), i.primaryVariable = some v →
    ∀ w, w ∈ i.targetVariables ↔ w = v
  | elementary target, h, w => by
    obtain rfl := Option.some.inj h
    simp [targetVariables]
  | sequence steps, h, w => by
    have hne : steps ≠ [] := by
      rintro rfl
      cases h
    have hall : ∀ p ∈ stepPrimaries steps, p = some v := by
      unfold primaryVariable at h
      cases hp : stepPrimaries steps with
      | nil => simp
      | cons first rest =>
        rw [hp] at h
        by_cases hr : rest.all (· = first)
        · simp only [hr, if_true] at h
          subst h
          simpa using hr
        · simp [hr] at h
    rw [targetVariables, List.mem_eraseDups, mem_of_primaries steps hall, and_iff_left hne]

theorem mem_of_primaries {v : Nat} : ∀ (steps : List Intervention),
    (∀ p ∈ stepPrimaries steps, p = some v) → ∀ w, w ∈ stepTargets steps ↔ w = v ∧ steps ≠ []
  | [], _, w => by simp [stepTargets]
  | step :: steps, h, w => by
    have hstep := eq_of_primary step (h _ (by simp [stepPrimaries])) w
    have hrest := mem_of_primaries steps (fun p hp => h p (by simp [stepPrimaries, hp])) w
    rw [stepTargets, List.mem_append, hstep, hrest]
    simp only [ne_eq, reduceCtorEq, not_false_eq_true, and_true]
    tauto

end

end Intervention

/-- `ResponseFunctional` (`response.rs:393-452`), its variables. -/
inductive ResponseFunctional
  | meanCurve (outcome treatment : Nat)
  | averageDerivative (outcome treatment : Nat)
  | pointDerivative (outcome treatment : Nat)
  | directionalDerivative (outcomes treatments : List Nat)
  | jacobian (outcomes treatments : List Nat)
  | interventionResponse (outcome : Nat) (interventions : List Intervention)

namespace ResponseFunctional

/-- `treatment_ids` (`response.rs:456-477`): every variable the functional intervenes on. -/
def treatmentIds : ResponseFunctional → List Nat
  | meanCurve _ treatment | averageDerivative _ treatment | pointDerivative _ treatment => [treatment]
  | directionalDerivative _ treatments | jacobian _ treatments => treatments
  | interventionResponse _ interventions =>
    (interventions.flatMap Intervention.targetVariables).eraseDups

/-- `response.rs:480-492`. -/
def outcomeIds : ResponseFunctional → List Nat
  | meanCurve outcome _ | averageDerivative outcome _ | pointDerivative outcome _
  | interventionResponse outcome _ => [outcome]
  | directionalDerivative outcomes _ | jacobian outcomes _ => outcomes

end ResponseFunctional

/-- `ResponseQuery` (`response.rs:505-518`): the functional, and the message of a check that reads
no variable of it and fails. -/
structure ResponseQuery where
  functional : ResponseFunctional
  others : Option String

/-- `response.rs:764-768`. -/
def responseSetsAreDistinct (outcomes treatments : List Nat) : Bool :=
  !outcomes.isEmpty && !treatments.isEmpty && !outcomes.any (· ∈ treatments)

/-- `QueryError::TreatmentEqualsOutcome`. -/
def treatmentEqualsOutcome (id : Nat) : String :=
  "treatment and outcome are the same variable V" ++ toString id

/-- `QueryError::InvalidResponse`. -/
def invalidResponse (message : String) : String := "invalid response query: " ++ message

/-- `QueryError::InvalidTransport`. -/
def invalidTransport (message : String) : String := "invalid transport query: " ++ message

/-- `ResponseQuery::validate` (`response.rs:578-680`). Which of several failing checks is reported
is not modelled: the checks that read no variable come first. -/
def ResponseQuery.validate (q : ResponseQuery) : Except String Unit :=
  match q.others with
  | some message => .error message
  | none =>
    match q.functional with
    | .meanCurve outcome treatment | .averageDerivative outcome treatment
    | .pointDerivative outcome treatment =>
      if outcome = treatment then .error (treatmentEqualsOutcome outcome) else .ok ()
    | .directionalDerivative outcomes treatments =>
      if responseSetsAreDistinct outcomes treatments then .ok ()
      else .error (invalidResponse "directional derivative dimensions/values are inconsistent")
    | .jacobian outcomes treatments =>
      if responseSetsAreDistinct outcomes treatments then .ok ()
      else .error (invalidResponse "Jacobian dimensions/values are inconsistent")
    | .interventionResponse outcome interventions =>
      if interventions.isEmpty then
        .error (invalidResponse "intervention response requires at least one intervention")
      else if interventions.any fun i => outcome ∈ i.targetVariables then
        .error (treatmentEqualsOutcome outcome)
      else .ok ()

/-- `transport_catalog.rs:639-648`. -/
inductive TargetSampling
  | suppliedPopulationLaw
  | representativeSample
  | licensedWeightedDesign
  | convenienceSample

/-- `transport_catalog.rs:663-669`. -/
def TargetSampling.representsTargetLaw : TargetSampling → Bool
  | suppliedPopulationLaw | representativeSample | licensedWeightedDesign => true
  | convenienceSample => false

/-- `EvidenceCatalog` with the sampling of its target. -/
structure SuppliedCatalog extends EvidenceCatalog where
  targetSampling : Option TargetSampling

/-- `query/transport.rs:19-32`. -/
structure TransportQuery where
  response : ResponseQuery
  sourcePopulation : String
  targetPopulation : String
  sourceExperiments : List Nat
  catalog : Option SuppliedCatalog

/-- `transport_catalog.rs:1034-1043`. -/
def sameVariableSet (left right : List Nat) : Bool :=
  left.length = right.length ∧ left.mergeSort = right.mergeSort

/-- `transport_catalog.rs:929-940`. -/
def sourceExperimentVariables (c : SuppliedCatalog) (population : String) : List Nat :=
  ((c.regimes.filter fun r => suppliesPopulationLaw r ∧ r.kind = .experimental ∧
    r.population = population).flatMap (·.interventions)).toFinset.sort (· ≤ ·)

/-- `query/transport.rs:101-129`. -/
def TransportQuery.validate (q : TransportQuery) : Except String Unit := do
  q.response.validate
  if isBlank q.sourcePopulation ∨ isBlank q.targetPopulation ∨
      q.sourcePopulation = q.targetPopulation then
    throw (invalidTransport "source and target population keys must be non-empty and distinct")
  if ¬ q.sourceExperiments.Nodup then
    throw (invalidTransport "source experiment variables must be unique")
  match q.catalog with
  | none => pure ()
  | some catalog =>
    match catalog.toEvidenceCatalog.validate with
    | .error (.invalidTransport message) => throw (invalidTransport message)
    | .ok _ =>
      if ¬ sameVariableSet q.sourceExperiments
          (sourceExperimentVariables catalog q.sourcePopulation) then
        throw (invalidTransport "source_experiments disagree with the evidence catalog")

/-- `response_variables` (`transport.rs:665-692`): the outcomes and the treatments. An intervention
without a primary variable is dropped. -/
def responseVariables (q : TransportQuery) : Except IdentificationError (List Nat × List Nat) :=
  let (outcomes, treatments) := match q.response.functional with
    | .meanCurve outcome treatment | .averageDerivative outcome treatment
    | .pointDerivative outcome treatment => ([outcome], [treatment])
    | .directionalDerivative outcomes treatments | .jacobian outcomes treatments =>
      (outcomes, treatments)
    | .interventionResponse outcome interventions =>
      ([outcome], interventions.filterMap Intervention.primaryVariable)
  if treatments.isEmpty then
    .error (.unsupportedQuery
      "transport response has no statically resolvable intervention variables")
  else .ok (outcomes, treatments)

/-! ## The diagram and the formula -/

/-- `SelectionDiagram` (`selection.rs:18-21`), with what `try_new` checks. -/
structure SelectionDiagram where
  causalGraph : Admg
  selectionTargets : List Nat
  known : ∀ t ∈ selectionTargets, NodeRef.static t ∈ causalGraph.nodes
  unique : selectionTargets.Nodup

/-- `selection.rs:61-63`. -/
def SelectionDiagram.mechanismMayDiffer (d : SelectionDiagram) (v : Nat) : Bool :=
  v ∈ d.selectionTargets

/-- `transport_catalog.rs:234-243`. -/
structure FactorNeed where
  population : String
  vars : List Nat
  conditionedOn : List Nat
  interventions : List Nat

/-- `transport_catalog.rs:248-250`. -/
def FactorNeed.neededVariables (need : FactorNeed) : Finset Nat :=
  (need.vars ++ need.conditionedOn).toFinset

/-- `PopulationFactor` (`transport.rs:30-42`): a need, and the regime that supplies it. -/
structure PopulationFactor extends FactorNeed where
  regime : Option Nat

/-- `transport.rs:649-663`. -/
def responseFactor (population : String) (vars conditionedOn interventions : List Nat) :
    PopulationFactor := ⟨⟨population, vars, conditionedOn, interventions⟩, none⟩

/-- `transport.rs:46-65`. -/
inductive TransportFormula
  | direct (factor : PopulationFactor)
  | standardize (overVars : List Nat) (sourceResponse targetLaw : PopulationFactor)
  | recursiveFactorization (sumOut : List Nat) (factors : List PopulationFactor)

namespace TransportFormula

/-- The factors, in the order they are bound. -/
def factors : TransportFormula → List PopulationFactor
  | direct factor => [factor]
  | standardize _ sourceResponse targetLaw => [sourceResponse, targetLaw]
  | recursiveFactorization _ factors => factors

def map (f : PopulationFactor → PopulationFactor) : TransportFormula → TransportFormula
  | direct factor => direct (f factor)
  | standardize overVars sourceResponse targetLaw => standardize overVars (f sourceResponse) (f targetLaw)
  | recursiveFactorization sumOut factors => recursiveFactorization sumOut (factors.map f)

end TransportFormula

/-- `transport.rs:69-76`. -/
structure TransportCertificate where
  rule : String
  selectionTargets : List Nat
  premises : List String

/-- `NotCertifiedCertificate` and `MissingEvidenceCertificate` (`transport.rs:80-98`). -/
structure RefusalCertificate where
  reason : String
  witness : List Nat
  message : String

/-- `transport.rs:102-114`. -/
inductive TransportIdentification
  | transportable (formula : TransportFormula) (certificate : TransportCertificate)
  | notCertified (certificate : RefusalCertificate)
  | missingEvidence (certificate : RefusalCertificate)

end Antecedent.Identify.Structural
