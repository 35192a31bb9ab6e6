import Antecedent.Identify.StudyCandidates

/-!
# The study planner

Model of `plan_with_caps` (`antecedent-identify/src/sid/study_planning.rs:802-971`) and of the budget
its decisions share (`SharedSearch`, `antecedent-identify/src/sid.rs:2224-2356`). The routes' decision
engines are a parameter, `Decisions`: what the route decides of the base and of a preview catalog,
and how a run of it spends the shared budget, which may stop it. A stop leaves no decision; a run
that is not stopped decides as `decide` says. Of what a decision found the model keeps the regimes
its formula cites and the operations it charged; the repairs, the stage and the derivation of a
proposal are read off the formula for the caller.
-/

namespace Antecedent.Identify

open Core

/-! ## The shared budget -/

/-- A region an engine left unevaluated (`z_transport/search.rs:1201`). -/
structure Deferral where
  population : String
  depth : Nat

def Deferral.region (d : Deferral) : String := s!"multi:line10:source={d.population}@{d.depth}"

structure SharedSearch where
  budget : SearchBudget
  stop : Option SearchStop
  unevaluated : List Deferral
  baseBytes : Nat
  peakBytes : Nat
  stagePeak : Nat
  stagesRetained : Nat
  decisionDepth : Nat

namespace SharedSearch

def new (budget : SearchBudget) : SharedSearch := ⟨budget, none, [], 0, 0, 0, 0, 0⟩

def begin (s : SharedSearch) (retained : Nat) : SharedSearch :=
  { s with baseBytes := retained, peakBytes := 0, stagesRetained := 0 }

/-- `sid.rs:2333-2346`. -/
def charge (s : SharedSearch) (depth bytes : Nat) : SharedSearch × Option SearchStop :=
  let (budget, stop) := s.budget.charge depth (satAdd bytes s.baseBytes)
  ({ s with
    budget := budget
    stop := s.stop.or stop
    peakBytes := max s.peakBytes (satAdd bytes s.stagesRetained)
    stagePeak := max s.stagePeak bytes
    decisionDepth := max s.decisionDepth depth }, stop)

/-- `receipt`: the regions the engines deferred come last. -/
def receipt (s : SharedSearch) (stop : SearchStop) (explored unevaluated : List String) :
    SearchReceipt :=
  ⟨stop, explored, unevaluated ++ s.unevaluated.map (·.region)⟩

end SharedSearch

/-! ## Decisions -/

/-- `Found` of the planner: what an identified re-run decision cites and charged. -/
structure PreviewFound where
  cited : List Nat
  operations : Nat

/-- What the re-run decision says of a preview when nothing stops it: `Preview`, or an error of the
route. -/
inductive Decision
  | identified (found : PreviewFound)
  | notIdentified (code detail : String) (operations : Nat)
  | refused (message : String)

structure StudyBaseFailure where
  code : String
  detail : String
  facts : List String

/-- `BaseEnd`; a refused base has no receipt. -/
inductive BaseEnd
  | refused (code detail message : String)
  | stopped (stop : SearchStop)

/-- The route's decisions on the shared budget: `base_failure`, `decide_preview`, and what a run of
the latter leaves of the budget and the stop that ended it. -/
structure Decisions where
  base : StudyPlanRoute → EvidenceCatalog → SharedSearch →
    SharedSearch × Except BaseEnd StudyBaseFailure
  decide : StudyPlanRoute → EvidenceCatalog → Decision
  spend : StudyPlanRoute → EvidenceCatalog → SharedSearch → SharedSearch × Option SearchStop

/-! ## Records -/

inductive StudySubsetOutcome
  | sufficient (proposal : Nat)
  | insufficient (code detail : String)
  | refused (message : String)
  | overDecisionCap (operations : Nat)
  | dominated (by_ : List String)
  | infeasible (reason : String)
  | unevaluated

def StudySubsetOutcome.conclusive : StudySubsetOutcome → Bool
  | overDecisionCap _ | unevaluated => false
  | _ => true

structure StudySubsetRecord where
  candidates : List String
  costUnits : Nat
  sampleBudget : Nat
  outcome : StudySubsetOutcome

structure StudyProposal where
  candidates : List String
  costUnits : Nat
  sampleBudget : Nat
  citedRegimes : List Nat
  decisionOperations : Nat

inductive StudyPlanStop
  | budget (receipt : SearchReceipt)
  | proposalCap

structure StudyPlan where
  route : StudyPlanRoute
  limits : StudyPlanLimits
  failure : StudyBaseFailure
  subsets : List StudySubsetRecord
  proposals : List StudyProposal
  stop : Option StudyPlanStop
  minimal : Bool
  operationsConsumed : Nat

structure PlanCaps where
  decisionCap : String → Nat → Nat
  maxProposals : Nat

/-- The caps of `plan_study_additions`. -/
def publicCaps : PlanCaps := ⟨fun _ cap => cap, studyPlanMaxProposals⟩

inductive Identified
  | overCap
  | sufficient
  | citesNoProposed

/-- `study_planning.rs:990-1003`. -/
def classifyIdentified (operations cap : Nat) (cited proposed : List Nat) : Identified :=
  if operations > cap then .overCap
  else if cited.any (· ∈ proposed) then .sufficient
  else .citesNoProposed

/-- `study_planning.rs:1019-1025`. -/
def certifiedMinimal (records : List StudySubsetRecord) (top : Option StudyProposal) : Bool :=
  match top with
  | none => false
  | some top => (records.filter (·.costUnits < top.costUnits)).all (·.outcome.conclusive)

/-- `proposal`, less what it reads off the formula. -/
def proposal (entry : RankedSubset) (found : PreviewFound) : StudyProposal where
  candidates := idsOf entry.members
  costUnits := entry.costUnits
  sampleBudget := entry.sampleBudget
  citedRegimes := (found.cited.insertionSort (· ≤ ·)).dedup
  decisionOperations := found.operations

def previewBytes (catalog : EvidenceCatalog) : Nat :=
  satAdd (satMul catalog.regimes.length 512) 1024

/-- The regimes a subset proposes together. -/
def deltaOf (members : List StudyPlanCandidate) : EvidenceCatalogDelta :=
  ⟨members.flatMap (·.delta.proposedRegimes)⟩

/-- The preview of a subset, with its placeholder bindings. -/
def previewOf (catalog : EvidenceCatalog) (members : List StudyPlanCandidate) :
    Except QueryError EvidenceCatalog := do
  (deltaOf members).withPlaceholderBindings (← (deltaOf members).previewCatalog catalog)

def RankedSubset.label (s : RankedSubset) : String := subsetLabel (idsOf s.members)

def RankedSubset.record (s : RankedSubset) (outcome : StudySubsetOutcome) : StudySubsetRecord :=
  ⟨idsOf s.members, s.costUnits, s.sampleBudget, outcome⟩

/-! ## The loop -/

/-- The state of the loop; `sufficient` are the subsets of the proposals. -/
structure PlanState where
  records : List StudySubsetRecord
  proposals : List StudyProposal
  sufficient : List (List StudyPlanCandidate)
  explored : List String
  stop : Option StudyPlanStop
  retained : Nat
  search : SharedSearch

section Loop

variable (d : Decisions) (route : StudyPlanRoute) (catalog : EvidenceCatalog) (caps : PlanCaps)

def PlanState.settle (st : PlanState) (entry : RankedSubset) (outcome : StudySubsetOutcome) :
    PlanState := { st with records := st.records ++ [entry.record outcome] }

/-- A stop of the budget at the subset, with those that come after it. -/
def PlanState.halt (st : PlanState) (entry : RankedSubset) (rest : List RankedSubset)
    (stop : SearchStop) : PlanState :=
  { st with stop := some (.budget
      (st.search.receipt stop st.explored ((entry :: rest).map RankedSubset.label))) }.settle entry .unevaluated

/-- A subset that was decided, kept as a proposal if it is sufficient. -/
def PlanState.decided (st : PlanState) (entry : RankedSubset) (cap : Nat) :
    Decision → PlanState
  | .identified found =>
    match classifyIdentified found.operations cap found.cited
        ((deltaOf entry.members).proposedRegimes.map (·.id)) with
    | .overCap =>
      { st with explored := st.explored ++ [entry.label] }.settle entry
        (.overDecisionCap found.operations)
    | .sufficient =>
      { st with
        proposals := st.proposals ++ [proposal entry found]
        sufficient := st.sufficient ++ [entry.members]
        retained := satAdd st.retained st.search.peakBytes
        explored := st.explored ++ [entry.label] }.settle entry (.sufficient st.proposals.length)
    | .citesNoProposed =>
      { st with explored := st.explored ++ [entry.label] }.settle entry
        (.refused "the identified formula cites no proposed regime")
  | .notIdentified code detail operations =>
    { st with explored := st.explored ++ [entry.label] }.settle entry
      (if operations > cap then .overDecisionCap operations else .insufficient code detail)
  | .refused message =>
    { st with explored := st.explored ++ [entry.label] }.settle entry (.refused message)

/-- The evaluation of a subset that nothing excludes: the entry charge, then the re-run decision
(`study_planning.rs:887-960`). -/
def PlanState.evaluate (st : PlanState) (entry : RankedSubset) (rest : List RankedSubset) :
    Except StudyPlanRefusal PlanState :=
  match previewOf catalog entry.members with
  | .error e => .error (.invalidCandidate (displayQueryError e))
  | .ok preview =>
    match (st.search.begin st.retained).charge 1 (previewBytes preview) with
    | (search, some stop) => .ok ({ st with search := search }.halt entry rest stop)
    | (search, none) =>
      match d.spend route preview search with
      | (search, some stop) => .ok ({ st with search := search }.halt entry rest stop)
      | (search, none) =>
        .ok ({ st with search := search }.decided entry
          (caps.decisionCap entry.label route.decisionOperations) (d.decide route preview))

/-- One turn of the loop (`study_planning.rs:853-967`). -/
def PlanState.turn (st : PlanState) (entry : RankedSubset) (rest : List RankedSubset) :
    Except StudyPlanRefusal PlanState :=
  if st.stop.isSome then .ok (st.settle entry .unevaluated)
  else match infeasible entry.members with
    | some reason => .ok (st.settle entry (.infeasible reason))
    | none =>
      match st.sufficient.find? fun s => s.all (· ∈ entry.members) with
      | some by_ => .ok (st.settle entry (.dominated (idsOf by_)))
      | none =>
        if st.proposals.length = caps.maxProposals then
          .ok ({ st with stop := some .proposalCap }.settle entry .unevaluated)
        else st.evaluate d route catalog caps entry rest

def planLoop : List RankedSubset → PlanState → Except StudyPlanRefusal PlanState
  | [], st => .ok st
  | entry :: rest, st => do planLoop rest (← st.turn d route catalog caps entry rest)

end Loop

/-! ## The plan -/

/-- `study_planning.rs:736-757`. -/
def requireBaseLineage (catalog : EvidenceCatalog) : Except StudyPlanRefusal Unit :=
  (catalog.regimes.filter (·.evidenceKind = .available)).forM fun regime =>
    if catalog.bindings.any fun binding => binding.regime = regime.id &&
        !isBlank binding.snapshotIdentity && !"hypothetical:".isPrefixOf binding.snapshotIdentity then
      .ok ()
    else .error <| .invalidQuery <|
      s!"available base regime {regime.id} has no provider binding outside the hypothetical: " ++
      "namespace: a plan needs its source/snapshot lineage"

def allRegions (order : List RankedSubset) : List String := "stage:base" :: order.map RankedSubset.label

/-- `plan_with_caps` (`study_planning.rs:802-971`); `checks` are the observations of the token made
before. -/
def planWithCaps (d : Decisions) (route : StudyPlanRoute) (catalog : EvidenceCatalog)
    (candidates : List StudyPlanCandidate) (limits : StudyPlanLimits) (ctx : ExecutionContext)
    (checks : Nat) (caps : PlanCaps) : Except StudyPlanRefusal StudyPlan := do
  limits.checkBounds route (candidates.map (·.delta.proposedRegimes.length))
  if let .error e := catalog.validate then throw (.invalidQuery (displayQueryError e))
  requireBaseLineage catalog
  let route := route.canonical
  let candidates ← validateCandidates route catalog candidates
  let order := studySubsets candidates
  match SearchBudget.withMemory limits.search limits.memoryLimitBytes ctx checks with
  | .error stop => throw (.budget ⟨stop, [], allRegions order⟩)
  | .ok budget =>
    let search := SharedSearch.new budget
    let effective : StudyPlanLimits := ⟨limits.search, search.budget.memoryLimitBytes⟩
    match d.base route catalog (search.begin 0) with
    | (_, .error (.refused code detail message)) => throw ⟨code, detail, message, none⟩
    | (search, .error (.stopped stop)) =>
      throw (.budget (search.receipt stop [] (allRegions order)))
    | (search, .ok failure) =>
      let st ← planLoop d route catalog caps order
        ⟨[], [], [], ["stage:base"], none, search.peakBytes, search⟩
      return {
        route := route
        limits := effective
        failure := failure
        subsets := st.records
        proposals := st.proposals
        stop := st.stop
        minimal := certifiedMinimal st.records st.proposals.head?
        operationsConsumed := st.search.budget.operations }

def planStudyAdditions (d : Decisions) (route : StudyPlanRoute) (catalog : EvidenceCatalog)
    (candidates : List StudyPlanCandidate) (limits : StudyPlanLimits) (ctx : ExecutionContext)
    (checks : Nat) : Except StudyPlanRefusal StudyPlan :=
  planWithCaps d route catalog candidates limits ctx checks publicCaps

end Antecedent.Identify
