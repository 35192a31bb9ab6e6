import Antecedent.Identify.TransportQuery

/-!
# The rules of the structural transport identifier

Model of `transport.rs:163-631`: a direct source response, the target factorisation, exogenous
standardizers, a searched S-admissible set, and the factorisation with population labels, tried in
this order; then the binding of a catalog and the fallback to the target factorisation.

* `identifyStructuralWithin`, `bindCatalog`, `identify`.
-/

namespace Antecedent.Identify.Structural

open Core
open Discovery (combinations)
open Graph
open Binding (suppliesPopulationLaw)

/-! ## The catalog -/

/-- `transport_catalog.rs:376-381`. -/
def availableExperimentOn (r : EvidenceRegime) (population : String) (vars : List Nat) : Bool :=
  suppliesPopulationLaw r ∧ r.kind = .experimental ∧ r.population = population ∧
    sameVariableSet r.interventions vars

/-- `transport_catalog.rs:944-946`. -/
def hasAvailableExperiment (c : SuppliedCatalog) (population : String) (vars : List Nat) : Bool :=
  c.regimes.any fun r => availableExperimentOn r population vars

def marginsCover (r : EvidenceRegime) (needed : Finset Nat) : Bool :=
  match r.distribution with
  | .joint => true
  | .separateMarginals marginals =>
    needed.card ≤ 1 ∧ ∀ v ∈ needed, v ∈ marginals ∨ v ∈ r.interventions

/-- `transport_catalog.rs:393-414`. -/
def satisfies (r : EvidenceRegime) (need : FactorNeed) : Bool :=
  suppliesPopulationLaw r ∧ r.population = need.population ∧
    (∀ v ∈ r.conditionedOn, v ∈ need.conditionedOn ∧ v ∉ need.vars) ∧
    sameVariableSet r.interventions need.interventions ∧
    (∀ v ∈ need.neededVariables, v ∈ r.measured ∨ v ∈ r.interventions) ∧
    marginsCover r need.neededVariables ∧ r.interventionValues.isEmpty

/-- `transport_catalog.rs:952-957`. -/
def satisfyingRegime (c : SuppliedCatalog) (need : FactorNeed) : Option EvidenceRegime :=
  (c.regimes.filter fun r => satisfies r need).argmin (·.id)

/-- The regime a factor binds (`transport.rs:527-548`): a target factor needs a sampling that
stands for the target law. -/
def boundRegime (q : TransportQuery) (c : SuppliedCatalog) (f : PopulationFactor) : Option Nat :=
  if f.population = q.targetPopulation ∧
      ¬ c.targetSampling.all TargetSampling.representsTargetLaw then none
  else (satisfyingRegime c f.toFactorNeed).map (·.id)

/-- A factor with the regime it binds; one that binds none is left as it is. -/
def bindFactor (q : TransportQuery) (c : SuppliedCatalog) (f : PopulationFactor) :
    PopulationFactor :=
  match boundRegime q c f with
  | some regime => { f with regime := some regime }
  | none => f

/-- What the factors that bind no regime need. -/
def missing (q : TransportQuery) (c : SuppliedCatalog) (factors : List PopulationFactor) :
    Finset Nat :=
  ((factors.filter fun f => (boundRegime q c f).isNone).flatMap fun f =>
    f.vars ++ f.conditionedOn).toFinset

/-- Lines 508-565. -/
def bindCatalog (result : TransportIdentification) (q : TransportQuery) : TransportIdentification :=
  match q.catalog, result with
  | some c, .transportable formula certificate =>
    if missing q c formula.factors = ∅ then
      .transportable (formula.map (bindFactor q c)) certificate
    else .missingEvidence ⟨"transport.missing_evidence",
      (missing q c formula.factors).sort (· ≤ ·),
      "required joint measured law, intervention regime, or representative target law is unavailable"⟩
  | _, _ => result

/-- Lines 641-647. -/
def sourceExperimentsCover (q : TransportQuery) (treatments : List Nat) : Bool :=
  match q.catalog with
  | some c => hasAvailableExperiment c q.sourcePopulation treatments
  | none =>
    match treatments with
    | [t] => t ∈ q.sourceExperiments
    | _ => false

/-! ## The graph -/

section Rules

variable (p : PreparedAdmg)

/-- Lines 634-639. -/
def denseAll (vars : List Nat) : Except IdentificationError (List Nat) := vars.mapM p.varToDense

/-- The nodes that are no treatment; an unknown treatment bars none (`transport.rs:445-450`). -/
def activeNodes (treatments : List Nat) : Finset Nat :=
  (Finset.range p.admg.nodeCount).filter fun i =>
    ∀ t ∈ treatments, (p.varToDense t).toOption ≠ some i

/-- Lines 436-463. -/
def outcomeAncestors (outcomes treatments : List Nat) :
    Except IdentificationError (Finset Nat) := do
  let seeds ← denseAll p (outcomes.filter (· ∉ treatments))
  return (p.admg.ancestorsWithin seeds.toFinset (activeNodes p treatments) ∅).image p.denseToVar

/-- Lines 694-696. -/
def topologicalVariables : List Nat := p.topo.map p.denseToVar

variable (d : SelectionDiagram) (q : TransportQuery) (outcomes treatments : List Nat)

/-- The factor of a node given its parents (`transport.rs:480-487`). -/
def parentFactor (v : Nat) : Except IdentificationError PopulationFactor := do
  let i ← p.varToDense v
  return responseFactor q.targetPopulation [v] ((p.admg.parents i).map p.denseToVar) []

/-- Lines 467-506. -/
def targetGFormula (ancestors : Finset Nat) : Except IdentificationError TransportIdentification := do
  let order := (topologicalVariables p).filter (· ∈ ancestors)
  let factors ← (order.filter (· ∉ treatments)).mapM (parentFactor p q)
  return .transportable
    (.recursiveFactorization (order.filter fun v => v ∉ outcomes ∧ v ∉ treatments) factors)
    ⟨"transport.sid.target_g_formula", d.selectionTargets,
      ["causal sufficiency licenses the target observational truncated factorization"]⟩

/-- The direct rule (`transport.rs:270-284`). -/
def directResponse : TransportIdentification :=
  .transportable (.direct (responseFactor q.sourcePopulation outcomes [] treatments))
    ⟨"transport.sid.direct", [],
      ["no population-varying mechanism is an ancestor of a requested outcome"]⟩

def standardized (overVars : List Nat) : TransportFormula :=
  .standardize overVars (responseFactor q.sourcePopulation outcomes overVars treatments)
    (responseFactor q.targetPopulation overVars [] [])

/-- The exogenous standardizers are safe (`transport.rs:311-345`): none is an outcome, and each is
a root that no treatment reaches and no bidirected edge touches. -/
def safeStandardizers (treatmentNodes relevant relevantNodes : List Nat) : Bool :=
  !relevant.any (· ∈ outcomes) && relevantNodes.all fun z =>
    z ∉ p.admg.descendantsOf treatmentNodes && (p.admg.parents z).isEmpty &&
      (p.admg.bidirectedNeighbors z).isEmpty

/-- Lines 568-574. -/
inductive StandardizerSearch
  | found (overVars : List Nat)
  | notFound
  | capped

/-- `for_each_admissible_subset` with the visit that stops at the first one
(`selection_separation.rs:97-177`, `transport.rs:606-622`). -/
def firstAdmissible (selection : MutilatedSelection) (outcomeNodes base : List Nat) :
    Nat → List (List Nat) → Except IdentificationError StandardizerSearch
  | _, [] => .ok .notFound
  | 0, _ :: _ => .ok .capped
  | budget + 1, subset :: rest =>
    match selection.separates outcomeNodes (base ++ subset) with
    | .error e => .error (.graph e)
    | .ok true => .ok (.found (subset.map p.denseToVar))
    | .ok false => firstAdmissible selection outcomeNodes base budget rest

/-- The nodes the search standardises over (`transport.rs:587-598`): neither outcomes nor below a
treatment. -/
def standardizerCandidates (outcomeNodes treatmentNodes : List Nat) : List Nat :=
  (List.range p.admg.nodeCount).filter fun i =>
    i ∉ outcomeNodes ∧ i ∉ p.admg.descendantsOf treatmentNodes

/-- Lines 576-631. -/
def sAdmissibleStandardizers (subsetBudget : Nat) :
    Except IdentificationError StandardizerSearch := do
  let outcomeNodes ← denseAll p outcomes
  let treatmentNodes ← denseAll p treatments
  let candidates := standardizerCandidates p outcomeNodes treatmentNodes
  let targets ← denseAll p d.selectionTargets
  let selection ← MutilatedSelection.build p.admg p.topo.toFinset treatmentNodes.toFinset targets
  firstAdmissible p selection outcomeNodes treatmentNodes subsetBudget
    ((List.range (candidates.length + 1)).flatMap (combinations candidates))

/-- The factors of the order after `before` (`transport.rs:382-393`): a mechanism that may differ is
read in the target, any other in the source. -/
def labelledFactors : List Nat → List Nat → List PopulationFactor
  | _, [] => []
  | before, v :: rest =>
    let factors := labelledFactors (before ++ [v]) rest
    if v ∈ treatments then factors
    else responseFactor (if d.mechanismMayDiffer v then q.targetPopulation else q.sourcePopulation)
      [v] before [] :: factors

/-- The factorisation with population labels (`transport.rs:380-413`). -/
def labelledFactorization : TransportIdentification :=
  let order := topologicalVariables p
  .transportable
    (.recursiveFactorization (order.filter fun v => v ∉ outcomes ∧ v ∉ treatments)
      (labelledFactors d q treatments [] order))
    ⟨"transport.sid.singleton_c_components", d.selectionTargets,
      ["all c-components are singleton",
        "population labels follow mechanism invariance in topological order"]⟩

/-- What no rule certifies (`transport.rs:415-431`). -/
def uncertified (relevant : List Nat) : StandardizerSearch → TransportIdentification
  | .capped => .notCertified ⟨"transport.sid.standardizer_search_capped", relevant,
      "the S-admissible standardizer search reached its subset budget before examining every pretreatment subset; no non-transportability claim is made"⟩
  | _ => .notCertified ⟨"transport.sid.multinode_c_component_not_implemented", relevant,
      "a population-varying outcome ancestor lies in a graph requiring general c-component recursion; no non-transportability claim is made"⟩

/-- What follows from the search (`transport.rs:351-431`). -/
def afterSearch (relevant : List Nat) : StandardizerSearch → TransportIdentification
  | .found overVars =>
    .transportable (standardized q outcomes treatments overVars)
      ⟨"transport.sid.s_admissible", d.selectionTargets,
        ["outcomes are m-separated from every selection node given the standardizers in the treatment-mutilated selection diagram",
          "standardizers are observed non-descendants of every treatment"]⟩
  | search =>
    if p.admg.districtCount = p.admg.nodeCount then labelledFactorization p d q outcomes treatments
    else uncertified relevant search

/-- The rules that read a source experiment (`transport.rs:311-431`). -/
def identifyFromSource (subsetBudget : Nat) (relevant : List Nat) :
    Except IdentificationError TransportIdentification := do
  let treatmentNodes ← denseAll p treatments
  let relevantNodes ← denseAll p relevant
  if safeStandardizers p outcomes treatmentNodes relevant relevantNodes then
    return .transportable (standardized q outcomes treatments relevant)
      ⟨"transport.sid.standardize", relevant,
        ["standardizers are pre-treatment", "standardizers are exogenous singleton districts"]⟩
  else
    let search ← sAdmissibleStandardizers p d outcomes treatments subsetBudget
    return afterSearch p d q outcomes treatments relevant search

/-- The rules (`transport.rs:261-431`). -/
def identifyPrepared (subsetBudget : Nat) :
    Except IdentificationError TransportIdentification := do
  let ancestors ← outcomeAncestors p outcomes treatments
  let relevant := d.selectionTargets.filter (· ∈ ancestors)
  if sourceExperimentsCover q treatments then
    if relevant.isEmpty then return directResponse q outcomes treatments
    else identifyFromSource p d q outcomes treatments subsetBudget relevant
  else if p.admg.districtCount = p.admg.nodeCount then
    targetGFormula p d q outcomes treatments ancestors
  else return .missingEvidence ⟨"transport.source_experiment_missing", treatments,
    "the source experiment required by this transport query is unavailable"⟩

end Rules

/-! ## The identifier -/

/-- The variables a catalog names (`transport.rs:245-255`). -/
def catalogCoordinates (c : SuppliedCatalog) : List Nat :=
  (c.environments.flatMap fun e => e.coordinates.map (·.var) ++ e.selectionTargets) ++
    c.regimes.flatMap fun r => r.measured ++ r.interventions

/-- The variables a query names (`transport.rs:238-255`). -/
def coordinates (q : TransportQuery) (outcomes treatments : List Nat) : List Nat :=
  outcomes ++ treatments ++ q.sourceExperiments ++
    (match q.catalog with
      | some c => catalogCoordinates c
      | none => [])

/-- Lines 222-432. -/
def identifyStructuralWithin (d : SelectionDiagram) (q : TransportQuery) (subsetBudget : Nat) :
    Except IdentificationError TransportIdentification :=
  match q.validate with
  | .error message => .error (.invalidInput message)
  | .ok _ => do
    let p ← PreparedAdmg.new d.causalGraph
    let (outcomes, treatments) ← responseVariables q
    (coordinates q outcomes treatments).forM fun v => do
      let _ ← p.varToDense v
    identifyPrepared p d q outcomes treatments subsetBudget

/-- `standardizer_subset_budget` (`transport.rs:19-27`): every subset of 20 candidates. -/
def standardizerSubsetBudget : Nat := 2 ^ 20

/-- Lines 211-216. -/
def identifyStructural (d : SelectionDiagram) (q : TransportQuery) :
    Except IdentificationError TransportIdentification :=
  identifyStructuralWithin d q standardizerSubsetBudget

/-- The target factorisation of a query (`transport.rs:187-204`). -/
def targetFallback (d : SelectionDiagram) (q : TransportQuery) :
    Except IdentificationError TransportIdentification := do
  let p ← PreparedAdmg.new d.causalGraph
  let (outcomes, treatments) ← responseVariables q
  let ancestors ← outcomeAncestors p outcomes treatments
  targetGFormula p d q outcomes treatments ancestors

/-- Lines 174-209. -/
def identify (d : SelectionDiagram) (q : TransportQuery) :
    Except IdentificationError TransportIdentification := do
  let result ← identifyStructural d q
  match bindCatalog result q with
  | .missingEvidence certificate =>
    if d.causalGraph.districtCount = d.causalGraph.nodeCount then do
      let fallback ← targetFallback d q
      return bindCatalog fallback q
    else return .missingEvidence certificate
  | bound => pure bound

end Antecedent.Identify.Structural
