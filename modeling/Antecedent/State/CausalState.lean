import Antecedent.State.Store

/-!
# Incremental causal state

Model of `state.rs`: the events, the publications of results, and the two questions asked of a query,
whether its result is stale and which class it has.

An operation works on the state in place and may fail, so it returns the state it leaves behind together
with its result. The sufficient statistics that an event only clears are left out, and so are the
payloads of queries and assumptions, which nothing reads.
-/

namespace Antecedent.State

open Core Contract

/-- Lines 22-40. -/
structure ResultPublication where
  query : Nat
  fingerprint : Nat
  bytes : Nat
  lineage : Option Nat
  dataSnapshot : Option Nat
  identities : Option ContractIdentities
  deriving DecidableEq

inductive StateEvent
  | appendData (batch : DataBatchRef)
  | replaceData (version : Nat)
  | addGraphEvidence (rec : GraphEvidenceRecord)
  | addConstraint (rec : GraphConstraintRecord)
  | removeConstraint (id : String)
  | updateAssumption
  | registerQuery
  | recordIntervention (rec : InterventionRecord)
  deriving DecidableEq

/-- Lines 44-61. -/
def layerUnchanged (stage : Stage) (was now : ContractIdentities) : Option Bool :=
  match stage with
  | .dataSnapshot => some (was.dataSnapshot == now.dataSnapshot)
  | .graph => some (was.identification == now.identification &&
      was.identificationProduct == now.identificationProduct)
  | .regime => some (was.program == now.program)
  | .evidence => some (was.observation == now.observation)
  | .query => some (was.target == now.target)
  | _ => none

/-- Lines 64-88. -/
structure CausalState where
  version : Nat
  dataVersion : Nat
  batches : List DataBatchRef
  evidence : List GraphEvidenceRecord
  constraints : List GraphConstraintRecord
  assumptions : Nat
  queries : QueryStore
  cachedResults : ResultStore
  invalidations : InvalidationLog
  cacheBudget : CacheBudget
  ols : List String
  mechanismDiags : List (String × Nat)
  interventions : List InterventionRecord

namespace CausalState

def new (cacheBudget : CacheBudget) : CausalState where
  version := 0
  dataVersion := 0
  batches := []
  evidence := []
  constraints := []
  assumptions := 0
  queries := .empty
  cachedResults := .empty
  invalidations := []
  cacheBudget := cacheBudget
  ols := []
  mechanismDiags := []
  interventions := []

variable (s : CausalState)

/-! ## What an event changes -/

/-- Lines 190-252. -/
def changedInput (event : StateEvent) (at_ : Nat) : Option ChangedInput :=
  match event with
  | .appendData batch => some ⟨.dataSnapshot, .modified, "state.append_data.v1",
      [.u64 at_, .text batch.id, .u64 batch.nrows, .u64 batch.bytes]⟩
  | .replaceData version => some ⟨.dataSnapshot, .modified, "state.replace_data.v1",
      [.u64 at_, .u64 version]⟩
  | .addGraphEvidence rec => some ⟨.graph, .added, "state.graph_evidence.v1",
      [.u64 at_, .text rec.id, .u64 rec.fingerprint]⟩
  | .addConstraint rec => some ⟨.graph, .added, "state.constraint_added.v1",
      [.u64 at_, .text rec.id, .u64 rec.fingerprint]⟩
  | .removeConstraint id => some ⟨.graph, .removed, "state.constraint_removed.v1",
      [.u64 at_, .text id]⟩
  | .updateAssumption => some ⟨.graph, .modified, "state.assumption_updated.v1",
      [.u64 at_, .u64 s.assumptions]⟩
  | .recordIntervention rec => some ⟨.dataSnapshot, .added, "state.intervention.v1",
      [.u64 at_, .text rec.id, .u64 rec.fingerprint]⟩
  | .registerQuery => none

/-- `InvalidationLog::push`. -/
def log (v : Nat) (target : InvalidationTarget) (reason : String) (input : Option ChangedInput) :
    CausalState :=
  { s with invalidations := s.invalidations ++ [⟨v, target, reason, input⟩] }

/-- One cached result is dropped (`state.rs:551-557`). -/
def invalidateResult (v : Nat) (reason : String) (input : Option ChangedInput) (s : CausalState)
    (q : Nat) : CausalState :=
  let (cachedResults, cacheBudget) := s.cachedResults.remove q s.cacheBudget
  let s := ({ s with cachedResults, cacheBudget } : CausalState).log v (.queryResult q) reason input
  { s with queries := s.queries.modify q fun r => { r with resultValidAt := none } }

/-- A changed input replaces the pending one of its stage and kind. -/
def pend (input : ChangedInput) (r : QueryRecord) : QueryRecord :=
  { r with pendingInputs := (r.pendingInputs.filter fun p =>
      !(p.stage == input.stage && p.change == input.change)) ++ [input] }

/-- Lines 536-566. -/
def invalidateAllResults (v : Nat) (reason : String) (input : Option ChangedInput) : CausalState :=
  let s := (s.cachedResults.results.map CachedResult.query).foldl (invalidateResult v reason input) s
  let s := s.log v .allResults reason input
  match input with
  | none => s
  | some i => { s with queries :=
      { s.queries with queries := fun q => (s.queries.queries q).map (pend i) } }

/-- Lines 512-534. -/
def invalidateDataDependents (v : Nat) (reason : String) (input : Option ChangedInput) :
    CausalState :=
  let s := s.invalidateAllResults v reason input
  let s := s.ols.foldl (fun s key =>
    s.log v (.suffStat key) (reason ++ ":ols_may_need_append") none) s
  (((s.log v .lagIndexes reason none).log v .graphScores reason none).log v .particleFilters reason
    none).log v .mechanismDiagnostics reason none

/-- `evict_mechanism_diag` of every slot. -/
def evictDiags : CausalState :=
  { s with
    cacheBudget := s.mechanismDiags.foldl (fun b d =>
      { b with usedBytes := b.usedBytes - d.2 }) s.cacheBudget
    mechanismDiags := [] }

/-- What an accepted event does, once the version is bumped to `v` (`state.rs:125-186`). -/
def applied (event : StateEvent) (v : Nat) (input : Option ChangedInput) : CausalState :=
  match event with
  | .appendData batch =>
    ({ s with
        batches := s.batches ++ [batch]
        dataVersion := (s.dataVersion + 1) % (u64Max + 1) } : CausalState).invalidateDataDependents
      v "append_data" input
  | .replaceData version =>
    let s := ({ s with dataVersion := version, batches := [] } : CausalState).invalidateDataDependents
      v "replace_data" input
    let s := ({ s with ols := [] } : CausalState).evictDiags
    (((s.log v .lagIndexes "replace_data" none).log v .graphScores "replace_data" none).log v
      .particleFilters "replace_data" none).log v .mechanismDiagnostics "replace_data" none
  | .addGraphEvidence rec =>
    ({ s with evidence := s.evidence ++ [rec] } : CausalState).invalidateAllResults
      v "add_graph_evidence" input
  | .addConstraint rec =>
    ({ s with constraints := s.constraints ++ [rec] } : CausalState).invalidateAllResults
      v "add_constraint" input
  | .removeConstraint id =>
    ({ s with constraints := s.constraints.filter fun c => c.id != id } :
      CausalState).invalidateAllResults v "remove_constraint" input
  | .updateAssumption =>
    ({ s with assumptions := s.assumptions + 1 } : CausalState).invalidateAllResults
      v "update_assumption" input
  | .registerQuery => { s with queries := s.queries.register }
  | .recordIntervention rec =>
    ({ s with interventions := s.interventions ++ [rec] } : CausalState).invalidateAllResults
      v "record_intervention" input

/-- The event is checked before the version moves (`state.rs:121-125`). -/
def unknownConstraint : StateEvent → Option String
  | .removeConstraint id => if s.constraints.any fun c => c.id == id then none else some id
  | _ => none

/-- Lines 115-188. -/
def apply (event : StateEvent) : CausalState × Except StateError Nat :=
  match s.unknownConstraint event with
  | some id => (s, .error (.unknownId ("constraint " ++ id)))
  | none =>
    let v := (s.version + 1) % (u64Max + 1)
    let s := { s with version := v }
    (s.applied event v (s.changedInput event v), .ok v)

/-! ## Questions -/

/-- Lines 296-306. -/
def revalidation (q : Nat) : Option Revalidation :=
  (s.queries.queries q).map fun rec =>
    let pending := rec.pendingInputs.foldl (fun c i => worst c i.revalidation) .stillValid
    match rec.resultValidAt with
    | none => worst pending .recompute
    | some since => worst pending (revalidationSince s.invalidations q since)

/-- Lines 310-318. -/
def isStale (q : Nat) : Bool :=
  match s.queries.queries q with
  | none => true
  | some rec =>
    match rec.resultValidAt with
    | none => true
    | some since => queryStaleSince s.invalidations q since

/-! ## Publications -/

/-- The complaint about a query that is not registered. -/
def unknownQuery (q : Nat) : StateError := .unknownId ("query " ++ toString q)

/-- The changed inputs the identities of a republication must reflect (`state.rs:389-406`). -/
def checkInputs (q : Nat) (previous : PublishedLineage) (u : ResultPublication) :
    List ChangedInput → Except StateError Unit
  | [] => .ok ()
  | input :: rest =>
    let unchanged := match previous.identities, u.identities with
      | some was, some now => layerUnchanged input.stage was now
      | _, _ => if u.lineage = some previous.lineage then some true else none
    if unchanged = some true then .error (.invalidEvent ("query " ++ toString q ++
      " republishes the " ++ input.stage.label ++ " layer recorded before the " ++
      input.stage.label ++ " change; recompute under the current inputs before publishing"))
    else checkInputs q previous u rest

/-- One update of `publish_results` (`state.rs:366-407`). -/
def checkUpdate (u : ResultPublication) : Except StateError Unit :=
  match s.queries.queries u.query with
  | none => .error (unknownQuery u.query)
  | some record =>
    match record.lastPublished with
    | none => .ok ()
    | some previous =>
      if u.lineage.isNone then .error (.invalidEvent ("query " ++ toString u.query ++
        " was published with a lineage; republish it with the identities of the recomputation, " ++
        "not with a bare fingerprint"))
      else if u.dataSnapshot = some previous.dataSnapshot ∧ previous.dataVersion ≠ s.dataVersion then
        .error (.invalidEvent ("query " ++ toString u.query ++ " republishes the data snapshot " ++
          "recorded before the latest data event; recompute on the current data before publishing"))
      else checkInputs u.query previous u record.pendingInputs

/-- The batch, staged (`state.rs:424-437`). -/
def stage (updates : List ResultPublication) : Except StateError (ResultStore × CacheBudget) :=
  updates.foldlM (fun (r : ResultStore × CacheBudget) u =>
    r.1.insert ⟨u.query, u.fingerprint, u.bytes, s.version⟩ r.2) (s.cachedResults, s.cacheBudget)

def publishedLineage (dataVersion : Nat) (u : ResultPublication) (old : Option PublishedLineage) :
    Option PublishedLineage :=
  match u.lineage, u.dataSnapshot with
  | some lineage, some dataSnapshot => some ⟨lineage, dataSnapshot, dataVersion, u.identities⟩
  | _, _ => old

/-- One freshness stamp (`state.rs:441-455`). -/
def stamp (s : CausalState) (u : ResultPublication) : CausalState × Except StateError Unit :=
  match s.queries.queries u.query with
  | none => (s, .error (unknownQuery u.query))
  | some _ => ({ s with queries := s.queries.modify u.query fun r =>
      ⟨some s.version, publishedLineage s.dataVersion u r.lastPublished, []⟩ }, .ok ())

/-- The stamps of a batch, up to the first that fails. -/
def stampAll : List ResultPublication → CausalState → CausalState × Except StateError Unit
  | [], s => (s, .ok ())
  | u :: us, s =>
    match s.stamp u with
    | (s, .ok ()) => stampAll us s
    | (s, .error e) => (s, .error e)

/-- Lines 412-457. -/
def commitResults (updates : List ResultPublication) : CausalState × Except StateError Unit :=
  match updates.find? fun u => (s.queries.queries u.query).isNone with
  | some u => (s, .error (unknownQuery u.query))
  | none =>
    match s.stage updates with
    | .error e => (s, .error e)
    | .ok (cachedResults, cacheBudget) => stampAll updates { s with cachedResults, cacheBudget }

/-- Lines 362-410. -/
def publishResults (updates : List ResultPublication) : CausalState × Except StateError Unit :=
  match updates.forM s.checkUpdate with
  | .error e => (s, .error e)
  | .ok () => s.commitResults updates

/-- Lines 345-360. -/
def refreshResults (updates : List (Nat × Nat × Nat)) : CausalState × Except StateError Unit :=
  s.publishResults (updates.map fun u => ⟨u.1, u.2.1, u.2.2, none, none, none⟩)

def requireVersion (expected : Nat) : Except StateError Unit :=
  if s.version ≠ expected then .error (.invalidEvent ("stale commit: expected version " ++
    toString expected ++ " but state is " ++ toString s.version))
  else .ok ()

def refreshResultsAt (expected : Nat) (updates : List (Nat × Nat × Nat)) :
    CausalState × Except StateError Unit :=
  match s.requireVersion expected with
  | .error e => (s, .error e)
  | .ok () => s.refreshResults updates

def publishResultsAt (expected : Nat) (updates : List ResultPublication) :
    CausalState × Except StateError Unit :=
  match s.requireVersion expected with
  | .error e => (s, .error e)
  | .ok () => s.publishResults updates

/-! ## Diagnostics -/

/-- `insert_mechanism_diag` (`mechanism_diag.rs:252-268`): a slot is charged its worst case. -/
def insertMechanismDiag (key : String) (charge : Nat) : CausalState × Except StateError Unit :=
  let oldCharged := ((s.mechanismDiags.find? fun d => d.1 == key).map Prod.snd).getD 0
  let net := charge - oldCharged
  if !s.cacheBudget.canAdmit net then (s, .error (.cacheBudget net s.cacheBudget.remaining))
  else ({ s with
    mechanismDiags := (key, charge) :: s.mechanismDiags.filter fun d => d.1 != key
    cacheBudget := { s.cacheBudget with
      usedBytes := satAdd (s.cacheBudget.usedBytes - oldCharged) charge } }, .ok ())

/-! ## Operations -/

/-- The operations on a state, and the insertion of a diagnostics slot. -/
inductive Op
  | apply (event : StateEvent)
  | publish (updates : List ResultPublication)
  | publishAt (expected : Nat) (updates : List ResultPublication)
  | refresh (updates : List (Nat × Nat × Nat))
  | refreshAt (expected : Nat) (updates : List (Nat × Nat × Nat))
  | insertDiag (key : String) (charge : Nat)
  deriving DecidableEq

/-- An operation: the state it leaves, and whether it was accepted. -/
def step (s : CausalState) : Op → CausalState × Except StateError Unit
  | .apply event => ((s.apply event).1, (s.apply event).2.map fun _ => ())
  | .publish updates => s.publishResults updates
  | .publishAt expected updates => s.publishResultsAt expected updates
  | .refresh updates => s.refreshResults updates
  | .refreshAt expected updates => s.refreshResultsAt expected updates
  | .insertDiag key charge => s.insertMechanismDiag key charge

/-- The state after a sequence of operations. -/
def run (s : CausalState) (ops : List Op) : CausalState := ops.foldl (fun s o => (s.step o).1) s

end CausalState

end Antecedent.State
