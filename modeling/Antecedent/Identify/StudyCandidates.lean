import Mathlib.Data.Prod.Lex
import Mathlib.Data.String.Basic
import Antecedent.Core.CatalogDelta
import Antecedent.Core.Search
import Antecedent.Identify.MixedSource
import Antecedent.Search.MinimalHits

/-!
# Candidate studies

Model of the candidate universe of the study planner (`antecedent-identify/src/sid/study_planning.rs`):
the route and the limits of a plan, the candidates and their validation, and their subsets in
ranking order. The source keeps a subset as the sorted indices of its candidates; ids are distinct,
so here it is the list of the candidates themselves, in the order of their ids. `{:?}` of a text is
`String.quote`.
-/

namespace Antecedent.Identify

open Core
open MinimalHits

def studyPlanMaxCandidates : Nat := 16
def studyPlanMaxRegimesPerCandidate : Nat := 8
def studyPlanMaxSubset : Nat := 3
def studyPlanMaxProposals : Nat := 32
def studyPlanDefaultOperations : Nat := 200000
def studyPlanMemoryBytes : Nat := defaultSearchMemoryBytes
def studyPlanMaxCostUnits : Nat := u64Max / 4

/-- `SearchReceipt`, less its counters. -/
structure SearchReceipt where
  stop : SearchStop
  explored : List String
  unevaluated : List String

/-- `SearchStop::code`. -/
def stopCode : SearchStop → String
  | .operations => "search.operations"
  | .depth => "search.depth"
  | .memory => "search.memory"
  | .cancelled => "search.cancelled"

structure StudyPlanRefusal where
  code : String
  detail : String
  message : String
  receipt : Option SearchReceipt

namespace StudyPlanRefusal

def boundsExceeded (message : String) : StudyPlanRefusal :=
  ⟨"route_not_supported", "study_plan.bounds_exceeded", message, none⟩

def invalidCandidate (message : String) : StudyPlanRefusal :=
  ⟨"invalid_argument", "study_plan.invalid_candidate", message, none⟩

def invalidQuery (message : String) : StudyPlanRefusal :=
  ⟨"invalid_argument", "study_plan.invalid_query", message, none⟩

def budget (receipt : SearchReceipt) : StudyPlanRefusal :=
  ⟨"transport_budget_cancel", "study_plan.budget",
    s!"the plan budget stopped ({stopCode receipt.stop}) before any subset was decided",
    some receipt⟩

end StudyPlanRefusal

/-! ## Route and limits -/

/-- `StudyPlanRoute`; a mz-transport query has the four fields of a mixed-source query. -/
inductive StudyPlanRoute
  | mz (query : MixedSourceQuery)
  | mixed (query : MixedSourceQuery)

namespace StudyPlanRoute

def canonical : StudyPlanRoute → StudyPlanRoute
  | mz query => mz query.canonical
  | mixed query => mixed query.canonical

def target : StudyPlanRoute → String
  | mz query | mixed query => query.target

def sources : StudyPlanRoute → List ZTransportSourceSpec
  | mz query | mixed query => query.sources

def maxDepth : StudyPlanRoute → Nat
  | mz _ => 24
  | mixed _ => 16

def decisionOperations : StudyPlanRoute → Nat
  | mz _ => 4096
  | mixed _ => 20000

def isMz : StudyPlanRoute → Bool
  | mz _ => true
  | mixed _ => false

end StudyPlanRoute

structure StudyPlanLimits where
  search : SearchLimits
  memoryLimitBytes : Nat

/-- Lines 290-325. -/
def StudyPlanLimits.checkBounds (limits : StudyPlanLimits) (route : StudyPlanRoute)
    (regimesPerCandidate : List Nat) : Except StudyPlanRefusal Unit :=
  if limits.search.operations > studyPlanDefaultOperations ∨
      limits.search.depth > route.maxDepth ∨ limits.memoryLimitBytes > studyPlanMemoryBytes then
    .error <| .boundsExceeded <|
      s!"plan limits must be at most {studyPlanDefaultOperations} operations, depth " ++
      s!"{route.maxDepth} and {studyPlanMemoryBytes} bytes"
  else if regimesPerCandidate.length > studyPlanMaxCandidates then
    .error <| .boundsExceeded
      s!"{regimesPerCandidate.length} candidates exceed the bound of {studyPlanMaxCandidates}"
  else match regimesPerCandidate.find? (· > studyPlanMaxRegimesPerCandidate) with
    | some count => .error <| .boundsExceeded <|
      s!"a candidate proposes {count} regimes, above the bound of " ++
      s!"{studyPlanMaxRegimesPerCandidate}"
    | none => .ok ()

/-! ## Candidates -/

structure StudyPlanCandidate where
  id : String
  delta : EvidenceCatalogDelta
  costUnits : Nat
  sampleBudget : Nat
  requires : List String
  conflicts : List String
  deriving DecidableEq

/-- Lines 552-556. -/
def validId (id : String) : Bool :=
  !id.isEmpty && id.utf8ByteSize ≤ 64 &&
    id.toList.all fun c => c.isAlphanum || c = '_' || c = '.' || c = ':' || c = '-'

/-- The ids and the labels of the regimes so far. -/
structure SeenRegimes where
  regimes : List Nat
  labels : List String

/-- The checks of one proposed regime (`study_planning.rs:622-676`). -/
def checkRegime (route : StudyPlanRoute) (who : String) (seen : SeenRegimes)
    (regime : EvidenceRegime) : Except StudyPlanRefusal SeenRegimes := do
  if regime.id ∈ seen.regimes then
    throw <| .invalidCandidate
      s!"regime {regime.id} of candidate {who} repeats a base or candidate regime id"
  if let some label := regime.label.filter (· ∈ seen.labels) then
    throw <| .invalidCandidate <|
      s!"regime {regime.id} of candidate {who} repeats the label {label.quote} of a base or " ++
      "candidate regime"
  if regime.measured.isEmpty || !regime.conditionedOn.isEmpty || regime.distribution ≠ .joint ||
      regime.selection ≠ .population || regime.origin ≠ .measured then
    throw <| .invalidCandidate <|
      s!"regime {regime.id} of candidate {who} must be a measured, unconditioned, " ++
      "whole-population joint law with a non-empty margin"
  if regime.population = route.target then
    if route.isMz && decide (regime.kind = .experimental) then
      throw <| .invalidCandidate <|
        s!"candidate {who} experiments in the target; the mz route's target supplies " ++
        "observational evidence only"
  else match route.sources.find? (·.population = regime.population) with
    | none => throw <| .invalidCandidate <|
      s!"candidate {who} studies population {regime.population} that is neither the target nor " ++
      "a declared source (new populations are not planned)"
    | some source =>
      if regime.interventions.any (· ∉ source.controllable) then
        throw <| .invalidCandidate <|
          s!"candidate {who} intervenes outside source {source.population}'s declared " ++
          "controllable set"
  if !route.isMz && !regime.interventionValues.isEmpty then
    throw <| .invalidCandidate <|
      s!"candidate {who} restricts its levels; the mixed route states identification for every " ++
      "level and never cites a value-restricted study"
  return ⟨seen.regimes ++ [regime.id], seen.labels ++ regime.label.toList⟩

/-- `QueryError`, displayed. -/
def displayQueryError : QueryError → String
  | .invalidTransport message => "invalid transport query: " ++ message

/-- The checks of one candidate (`study_planning.rs:585-677`). -/
def checkCandidate (route : StudyPlanRoute) (catalog : EvidenceCatalog) (ids : List String)
    (seen : SeenRegimes) (candidate : StudyPlanCandidate) :
    Except StudyPlanRefusal SeenRegimes := do
  let who := candidate.id
  if !validId who then
    throw <| .invalidCandidate
      s!"candidate id {who.quote} must be 1-64 characters of [A-Za-z0-9_.:-]"
  if candidate.costUnits = 0 ∨ candidate.costUnits > studyPlanMaxCostUnits then
    throw <| .invalidCandidate s!"candidate {who} must cost 1 to {studyPlanMaxCostUnits} units"
  if candidate.sampleBudget > studyPlanMaxCostUnits then
    throw <| .invalidCandidate s!"candidate {who} sample budget is too large"
  if candidate.delta.proposedRegimes.isEmpty then
    throw <| .invalidCandidate s!"candidate {who} proposes no regime"
  if let some other := (candidate.requires ++ candidate.conflicts).find?
      fun other => other ∉ ids ∨ other = who then
    throw <| .invalidCandidate s!"candidate {who} names unknown or self constraint {other}"
  if candidate.requires.any (· ∈ candidate.conflicts) then
    throw <| .invalidCandidate s!"candidate {who} both requires and conflicts with a candidate"
  if let .error error := candidate.delta.previewCatalog catalog then
    throw <| .invalidCandidate
      s!"candidate {who} does not preview on the base: {displayQueryError error}"
  candidate.delta.proposedRegimes.foldlM (checkRegime route who) seen

/-- `validate_candidates` (`study_planning.rs:561-679`): the candidates by id. -/
def validateCandidates (route : StudyPlanRoute) (catalog : EvidenceCatalog)
    (candidates : List StudyPlanCandidate) : Except StudyPlanRefusal (List StudyPlanCandidate) := do
  if candidates.isEmpty then
    throw <| .invalidCandidate "a plan needs at least one candidate study"
  let byId := candidates.insertionSort fun a b => a.id ≤ b.id
  if ¬(byId.map (·.id)).Nodup then
    throw <| .invalidCandidate "candidate ids must be unique"
  let _ ← byId.foldlM (checkCandidate route catalog (byId.map (·.id)))
    ⟨catalog.regimes.map (·.id), catalog.regimes.filterMap (·.label)⟩
  return byId

/-! ## Subsets -/

/-- A subset with its totals. -/
structure RankedSubset where
  members : List StudyPlanCandidate
  costUnits : Nat
  sampleBudget : Nat
  deriving DecidableEq

def idsOf (members : List StudyPlanCandidate) : List String := members.map (·.id)

/-- A subset with its totals; they do not overflow. -/
def ranked (members : List StudyPlanCandidate) : RankedSubset :=
  ⟨members, (members.map (·.costUnits)).sum, (members.map (·.sampleBudget)).sum⟩

/-- The ranking key: cost units, sample budget, subset size and sorted ids. -/
def RankedSubset.key (s : RankedSubset) : Nat ×ₗ Nat ×ₗ Nat ×ₗ List String :=
  toLex (s.costUnits, toLex (s.sampleBudget, toLex (s.members.length, idsOf s.members)))

/-- `subsets` (`study_planning.rs:683-713`). -/
def studySubsets (candidates : List StudyPlanCandidate) : List RankedSubset :=
  ((upTo studyPlanMaxSubset candidates).map ranked).insertionSort fun a b => a.key ≤ b.key

/-- Lines 715-726. -/
def infeasible (members : List StudyPlanCandidate) : Option String :=
  members.findSome? fun c =>
    if c.requires.any (· ∉ idsOf members) then some "requires"
    else if c.conflicts.any (· ∈ idsOf members) then some "conflicts"
    else none

def subsetLabel (ids : List String) : String :=
  "subset:[" ++ ",".intercalate ids ++ "]"

end Antecedent.Identify
