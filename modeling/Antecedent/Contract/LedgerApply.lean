import Antecedent.Contract.Ledger

/-!
# The evidence ledger: combinations and operations

Model of the combination policy and of `apply` (`evidence_ledger/ledger.rs:728-1610`).
`check_combination` is one arm per combination (`checkOperation`) and what the arms share around it.
-/

namespace Antecedent.Contract

namespace EvidenceLedger

/-! ## The overlap policy -/

/-- Lines 728-753. -/
def checkListed (l : EvidenceLedger) (ids : List SourceId) : Except LedgerError (List SourceId) :=
  if ids.length > maxCombinationSources then
    .error <| .limit "evidence_ledger.limit_exceeded"
      s!"a combination names at most {maxCombinationSources} sources"
  else match firstRepeat (sorted ids) with
    | some id => .error <|
      (LedgerError.doubleCounted "evidence_ledger.repeated_source"
        s!"source {toHex id} is listed more than once; each source counts once per result"
        ).withSources [id]
    | none => do
      let _ ← (sorted ids).mapM l.requireUsable
      return sorted ids

/-- The re-entry of a pair that was looked up before. -/
def reentryOf (l : EvidenceLedger) (a b : SourceId) : ReentryKind :=
  match l.source a, l.source b with
  | some sa, some sb => l.reentryBetween sa sb
  | _, _ => .sharedObservations

/-- Lines 755-783. -/
def doubleCounting (l : EvidenceLedger) (a b : SourceId) (shared : Nat) : LedgerError :=
  let how := (l.reentryOf a b).asStr
  let detail := match l.reentryOf a b with
    | .duplicate => "evidence_ledger.reentry_duplicate"
    | .transform => "evidence_ledger.reentry_transform"
    | .priorPlusLikelihood => "evidence_ledger.reentry_prior_plus_likelihood"
    | .derivedFromUsedData => "evidence_ledger.reentry_derived_from_used_data"
    | .sharedObservations => "evidence_ledger.shared_observations"
  (LedgerError.doubleCounted detail
    (s!"sources {toHex a} and {toHex b} share {shared} observation(s) (re-entry: {how}); " ++
      "counting both as independent evidence would count each shared observation twice. Pool " ++
      "them with a declared covariance, declare an assumption range, or drop one source")
    ).withSources [a, b]

/-- Lines 785-791. -/
def unknownOverlap (a b : SourceId) (reason : String) : LedgerError :=
  (LedgerError.overlapUnknown "evidence_ledger.overlap_unknown"
    (s!"the observations behind {toHex a} and {toHex b} are not known ({reason}); independence " ++
      "is not assumed. Declare the row-level observations, supply a covariance with cross " ++
      "terms, or request an assumption range")).withSources [a, b]

/-- The two nested loops of `require_pairwise_independent` and `require_disjoint_groups`: a shared
pair refuses at once, an unknown one once all pairs are seen. -/
def checkPairs (l : EvidenceLedger) (shared : SourceId → SourceId → Nat → LedgerError) :
    Option LedgerError → List (SourceId × SourceId) → Except LedgerError Unit
  | none, [] => .ok ()
  | some e, [] => .error e
  | unknown, (a, b) :: rest => do
    match ← l.overlap a b with
    | .independent => checkPairs l shared unknown rest
    | .sharedObservations n => throw (shared a b n)
    | .unknown reason => checkPairs l shared (unknown.or (some (unknownOverlap a b reason))) rest

/-- Lines 794-811. -/
def requirePairwiseIndependent (l : EvidenceLedger) (ids : List SourceId) :
    Except LedgerError Unit :=
  l.checkPairs l.doubleCounting none (orderedPairs ids)

/-- Lines 813-834. -/
def requireDisjointGroups (l : EvidenceLedger) (left right : List SourceId)
    (shared : SourceId → SourceId → Nat → LedgerError) : Except LedgerError Unit :=
  l.checkPairs shared none (left.product right)

/-- The loops of `require_pairwise_independent_for_diagonal` (`ledger.rs:1099-1124`), where an
unknown pair refuses at once too. -/
def checkDiagonal (l : EvidenceLedger) : List (SourceId × SourceId) → Except LedgerError Unit
  | [] => .ok ()
  | (a, b) :: rest => do
    match ← l.overlap a b with
    | .independent => checkDiagonal l rest
    | .sharedObservations n =>
      throw <| (LedgerError.doubleCounted "evidence_ledger.diagonal_covariance_shared_rows"
        (s!"the declared covariance has no cross terms but sources {toHex a} and {toHex b} " ++
          s!"share {n} observation(s); supply the cross covariance")).withSources [a, b]
    | .unknown reason => throw (unknownOverlap a b reason)

/-- Lines 836-842. -/
def nativeAndTransported (a b : SourceId) (shared : Nat) : LedgerError :=
  (LedgerError.doubleCounted "evidence_ledger.native_and_transported"
    (s!"native source and transported claim ({toHex a}, {toHex b}) rest on {shared} common " ++
      "observation(s): the same source cannot count as native target data and as transported " ++
      "evidence")).withSources [a, b]

/-- The refusal of a prior that shares rows with a likelihood (`ledger.rs:949-962`). -/
def priorAndLikelihood (l : EvidenceLedger) (a b : SourceId) (shared : Nat) : LedgerError :=
  match l.reentryOf a b with
  | .sharedObservations | .priorPlusLikelihood =>
    (LedgerError.doubleCounted "evidence_ledger.reentry_prior_plus_likelihood"
      (s!"prior {toHex a} and likelihood {toHex b} share {shared} observation(s): the data " ++
        "would inform the estimate once as prior and once as likelihood")).withSources [a, b]
  | _ => l.doubleCounting a b shared

def isTransported (l : EvidenceLedger) (id : SourceId) : Bool :=
  (l.source id).any (·.declaration.transport.isSome)

/-- What an arm of `check_combination` leaves: the canonical operation, its marks, and the
accounting it takes over, or the sources to account. -/
structure CheckedOperation where
  operation : SynthesisOperation
  claimClass : ClaimClass := .pointOnly
  dataReuse : Bool := false
  dependenceDeclared : Bool := false
  direct : List SourceId := []
  precomputed : Option (MassAccount × Option Digest × List Digest) := none

/-- `PoolingDependence`: the claim class and whether the dependence is declared. -/
def checkDependence (l : EvidenceLedger) (ids : List SourceId) :
    PoolingDependence → Except LedgerError (ClaimClass × Bool)
  | .independent => do
    l.requirePairwiseIndependent ids
    return (.pointOnly, false)
  | .declaredCovariance _ hasCrossCovariance => do
    if !hasCrossCovariance then l.checkDiagonal (orderedPairs ids)
    return (.pointOnly, hasCrossCovariance)
  | .assumptionRange rhoLo rhoHi =>
    let lowerBound := -1.0 / (Float.ofNat ids.length - 1.0)
    if !rhoLo.isFinite || !rhoHi.isFinite || rhoLo ≥ rhoHi || rhoHi ≥ 1.0 || rhoLo ≤ lowerBound then
      .error <| .invalid "evidence_ledger.invalid_declaration" <|
        "an assumption range needs finite bounds with lo < hi inside the positive definite " ++
        "interval (-1/(k-1), 1)"
    else .ok (.assumptionRange, true)

/-- The arm of `StatisticalPooling` (`ledger.rs:892-934`). -/
def checkPooling (l : EvidenceLedger) (sources : List SourceId) (dependence : PoolingDependence) :
    Except LedgerError CheckedOperation := do
  if sources.length < 2 then
    throw <| .invalid "evidence_ledger.operation_arity"
      "pooling combines at least two sources"
  let ids ← l.checkListed sources
  let transported := ids.filter (l.isTransported ·)
  let native := ids.filter (!l.isTransported ·)
  l.requireDisjointGroups native transported nativeAndTransported
  let (claimClass, declared) ← l.checkDependence ids dependence
  return {
    operation := .statisticalPooling ids dependence
    claimClass := claimClass
    dependenceDeclared := declared
    direct := ids }

def requireEach (l : EvidenceLedger) (ids : List SourceId) (refused : EvidenceSource → Bool)
    (refusal : LedgerError) : Except LedgerError Unit :=
  ids.forM fun id => do
    let source ← l.requireKnown id
    if refused source then throw (refusal.withSources [id])

/-- The arm of `BayesianBorrowing` (`ledger.rs:935-967`). -/
def checkBorrowing (l : EvidenceLedger) (priors likelihood : List SourceId) :
    Except LedgerError CheckedOperation := do
  if likelihood.isEmpty then
    throw <| .invalid "evidence_ledger.operation_arity"
      "borrowing needs at least one likelihood-bearing source"
  let ids ← l.checkListed (priors ++ likelihood)
  l.requireEach priors (·.declaration.kind ≠ .prior) <|
    .invalid "evidence_ledger.invalid_declaration" "a borrowed prior must have kind prior"
  l.requirePairwiseIndependent (sorted likelihood)
  l.requirePairwiseIndependent (sorted priors)
  l.requireDisjointGroups (sorted priors) (sorted likelihood) l.priorAndLikelihood
  return { operation := .bayesianBorrowing (sorted priors) (sorted likelihood), direct := ids }

/-- The arm of `CausalTransport` (`ledger.rs:968-1012`): the only pairs it checks are a native
source with a transported claim. -/
def checkTransport (l : EvidenceLedger) (transported native : List SourceId) :
    Except LedgerError CheckedOperation := do
  if transported.isEmpty then
    throw <| .invalid "evidence_ledger.operation_arity"
      "transport carries at least one transported claim"
  if let some id := transported.find? (native.contains ·) then
    throw <| (LedgerError.doubleCounted "evidence_ledger.native_and_transported"
      s!"source {toHex id} is listed as both native and transported").withSources [id]
  let ids ← l.checkListed (transported ++ (native))
  l.requireEach transported (·.declaration.transport.isNone) <|
    .invalid "evidence_ledger.transport_identity_missing" <|
      "a transported claim carries its transport identity (source populations, selection " ++
      "diagram, assumptions)"
  l.requireEach native (·.declaration.transport.isSome) <|
    .invalid "evidence_ledger.transported_as_native"
      "a claim carrying a transport identity is not native target data"
  l.requireDisjointGroups (sorted native) (sorted transported) nativeAndTransported
  return { operation := .causalTransport (sorted transported) (sorted native), direct := ids }

def unknownResult (id : ResultId) : LedgerError :=
  .invalid "evidence_ledger.unknown_result" s!"result {toHex id} is not in the ledger"

/-- The arm of `EvidenceReuse` (`ledger.rs:1013-1033`): the accounting is the cited result's. -/
def checkReuse (l : EvidenceLedger) (cited : ResultId) : Except LedgerError CheckedOperation :=
  match l.result cited with
  | none => .error (unknownResult cited)
  | some original =>
    if original.status ≠ .valid then
      .error <| .retired "evidence_ledger.result_not_valid"
        (s!"result {toHex cited} is {original.status.revalidation.asStr}; recompute it before " ++
          "citing it again")
    else .ok {
      operation := .evidenceReuse cited
      claimClass := original.claimClass
      dataReuse := original.dataReuse
      dependenceDeclared := original.dependenceDeclared
      precomputed :=
        some (original.mass, original.observationsDigest, original.transportIdentities) }

/-- The arm of `RepeatedObservationUse` (`ledger.rs:1034-1055`). -/
def checkRepeatedUse (l : EvidenceLedger) (sources : List SourceId) (stage : String) :
    Except LedgerError CheckedOperation := do
  if sources.isEmpty || !textOk stage then
    throw <| .invalid "evidence_ledger.operation_arity"
      "repeated use names the sources and the later stage that uses them again"
  let ids ← l.checkListed sources
  let mass ← l.massAccount ids
  if let some first := mass.unknownSources.head? then
    throw <| (LedgerError.overlapUnknown "evidence_ledger.overlap_unknown"
      (s!"the observations behind {toHex first} are not known, so their repeated use cannot be " ++
        "accounted; declare the row-level observations")).withSources [first]
  return { operation := .repeatedObservationUse ids stage, dataReuse := true, direct := ids }

/-- The `match` of `check_combination`. -/
def checkOperation (l : EvidenceLedger) : SynthesisOperation → Except LedgerError CheckedOperation
  | .statisticalPooling sources dependence => l.checkPooling sources dependence
  | .bayesianBorrowing priors likelihood => l.checkBorrowing priors likelihood
  | .causalTransport transported native => l.checkTransport transported native
  | .evidenceReuse cited => l.checkReuse cited
  | .repeatedObservationUse sources stage => l.checkRepeatedUse sources stage

/-- Lines 844-876. -/
def account (ids : Identities) (l : EvidenceLedger) (sources : List SourceId) :
    Except LedgerError (MassAccount × Option Digest × List Digest) := do
  let mass ← l.massAccount sources
  let found ← sources.mapM l.requireKnown
  let known := found.filterMap (·.effective.rows)
  let transports := found.filterMap fun s => s.declaration.transport.map ids.transport
  let digest :=
    if mass.unknownSources.isEmpty then some (ids.observations (unionSorted known)) else none
  return (mass, digest, (sorted transports).dedup)

def accounting (ids : Identities) (l : EvidenceLedger) (checked : CheckedOperation) :
    Except LedgerError (MassAccount × Option Digest × List Digest) :=
  match checked.precomputed with
  | some values => .ok values
  | none => l.account ids checked.direct

def checkReplaces (l : EvidenceLedger) : Option ResultId → Except LedgerError Unit
  | none => .ok ()
  | some id =>
    match l.result id with
    | none => .error (unknownResult id)
    | some record =>
      match record.status with
      | .replaced .. => .error <| .invalid "evidence_ledger.unknown_result"
          s!"result {toHex id} was already replaced by a recomputation"
      | _ => .ok ()

/-- Lines 858-1094. -/
def checkCombination (ids : Identities) (l : EvidenceLedger) (request : CombinationRequest) :
    Except LedgerError CheckedCombination := do
  if !textOk request.label then
    throw <| .invalid "evidence_ledger.invalid_declaration"
      s!"a result label must be non-empty and at most {maxTextBytes} bytes"
  if l.results.length ≥ maxResults then
    throw <| .limit "evidence_ledger.limit_exceeded" s!"a ledger holds at most {maxResults} results"
  l.checkReplaces request.replaces
  let checked ← l.checkOperation request.operation
  let (mass, observationsDigest, transportIdentities) ← l.accounting ids checked
  let id := ids.result request.label checked.operation request.replaces
  if (l.result id).isSome then
    throw <| .invalid "evidence_ledger.duplicate_result"
      s!"this combination is already registered as result {toHex id}"
  return {
    id := id
    label := request.label
    operation := checked.operation
    mass := mass
    claimClass := checked.claimClass
    observationsDigest := observationsDigest
    transportIdentities := transportIdentities
    dataReuse := checked.dataReuse
    dependenceDeclared := checked.dependenceDeclared
    replaces := request.replaces }

/-- `result_sources` (`ledger.rs:1158-1174`): the sources a result rests on, through reuse. -/
def resultSourcesFrom (l : EvidenceLedger) : Nat → ResultId → List SourceId
  | 0, _ => []
  | fuel + 1, current =>
    match l.result current with
    | none => []
    | some record =>
      match record.operation with
      | .evidenceReuse cited => resultSourcesFrom l fuel cited
      | other => sorted other.directSources

def resultSources (l : EvidenceLedger) (id : ResultId) : List SourceId :=
  l.resultSourcesFrom (l.results.length + 1) id

/-! ## Classification -/

/-- The rule the four operations share (`ledger.rs:1223-1231`). -/
def byLoss (lost remaining needed : Nat) : Revalidation :=
  if lost = 0 then .stillValid else if remaining < needed then .withdrawn else .recompute

/-- How many of the sources are lost for good, and how many are lost. -/
def losses (l : EvidenceLedger) (ids : List SourceId) : Nat × Nat :=
  (ids.countP fun id => (l.lossOf id).map (·.2) = some .permanent,
    ids.countP fun id => (l.lossOf id).isSome)

/-- Lines 1205-1255. -/
def sourceLossClass (l : EvidenceLedger) : SynthesisOperation → Revalidation
  | .statisticalPooling sources _ =>
    byLoss (l.losses sources).2 (sources.length - (l.losses sources).1) 2
  | .bayesianBorrowing priors likelihood =>
    byLoss ((l.losses likelihood).2 + (l.losses priors).2)
      (likelihood.length - (l.losses likelihood).1) 1
  | .causalTransport transported native =>
    byLoss ((l.losses transported).2 + (l.losses native).2)
      (transported.length - (l.losses transported).1) 1
  | .repeatedObservationUse sources _ =>
    byLoss (l.losses sources).2 (sources.length - (l.losses sources).1) 1
  | .evidenceReuse _ => .stillValid

/-- The class of one result in `reclassify`: a reuse takes its parent's class, and recomputes when
the parent was replaced. -/
def classOf (l : EvidenceLedger) : SynthesisOperation → Revalidation
  | .evidenceReuse cited =>
    match l.result cited with
    | none => .withdrawn
    | some original =>
      match original.status with
      | .replaced .. => .recompute
      | status => status.revalidation
  | operation => l.sourceLossClass operation

/-- The standing a class gives (`ledger.rs:1261-1284`): withdrawn and replaced are terminal. -/
def updated (cause : OperationId) (cls : Revalidation) : ResultStatus → ResultStatus
  | .withdrawn c => .withdrawn c
  | .replaced by_ o => .replaced by_ o
  | current =>
    match cls, current with
    | .withdrawn, _ => .withdrawn cause
    | .recompute, .valid => .needsRecompute cause
    | _, _ => current

/-- The loop of `reclassify`, in registration order: each result sees the new standing of those
before it. -/
def reclassifyLoop (l : EvidenceLedger) (cause : OperationId) :
    List ResultRecord → List ResultRecord → List ResultRecord
  | done, [] => done
  | done, r :: todo =>
    let cls := { l with results := done ++ r :: todo }.classOf r.operation
    reclassifyLoop l cause (done ++ [{ r with status := updated cause cls r.status }]) todo

/-- Lines 1259-1287. -/
def reclassify (l : EvidenceLedger) (cause : OperationId) : EvidenceLedger :=
  { l with results := l.reclassifyLoop cause [] l.results }

/-- Lines 1292-1300. -/
def sourceLossClassification (l : EvidenceLedger) : List ResultRevalidation :=
  (l.results.map fun r => ⟨r.id, r.status.revalidation⟩).insertionSort
    fun a b => a.result ≤ b.result

/-! ## Operations -/

def newRows (source : CanonicalSource) : Nat := (source.effective.rows.map List.length).getD 0

/-- Lines 1349-1374. -/
def checkNewSource (l : EvidenceLedger) (source : CanonicalSource) : Except LedgerError Unit :=
  if (l.source source.id).isSome then
    .error <| (LedgerError.doubleCounted "evidence_ledger.duplicate_source"
      (s!"source {toHex source.id} is already in the ledger; the same evidence is not added " ++
        "twice")).withSources [source.id]
  else if l.totalObservations + newRows source > maxTotalObservations then
    .error <| .limit "evidence_ledger.limit_exceeded"
      s!"a ledger holds at most {maxTotalObservations} observation ids"
  else if l.sources.length ≥ maxSources then
    .error <| .limit "evidence_ledger.limit_exceeded" s!"a ledger holds at most {maxSources} sources"
  else .ok ()

/-- Lines 1480-1491. -/
def checkNewSourceBounds (l : EvidenceLedger) (source : CanonicalSource) :
    Except LedgerError Unit :=
  if l.totalObservations + newRows source > maxTotalObservations ∨ l.sources.length ≥ maxSources then
    .error <| .limit "evidence_ledger.limit_exceeded"
      "the ledger's source or observation bound would be exceeded"
  else .ok ()

/-- A retired source is retired no more, and a withdrawn one is not withdrawn again
(`ledger.rs:1389-1408`). -/
def checkRetirable (retire : Retire) (target : SourceId) (status : SourceStatus) :
    Except LedgerError Unit :=
  match retire, status with
  | .withdraw, .withdrawn .. => .error <|
    (LedgerError.retired "evidence_ledger.source_withdrawn"
      s!"source {toHex target} is already withdrawn").withSources [target]
  | .withdraw, _ | _, .active => .ok ()
  | _, _ => .error <|
    (LedgerError.retired "evidence_ledger.source_superseded"
      (s!"source {toHex target} was already retired ({status.asStr}); change its successor " ++
        "instead")).withSources [target]

/-- What the kind of a replacement may be (`ledger.rs:1433-1454`). -/
def checkReplacementKind (retire : Retire) (kind new : SourceKind) : Except LedgerError Unit :=
  if retire = .supersede ∧ !kind.isModelOrClaim then
    .error <| .invalid "evidence_ledger.supersede_kind_mismatch" <|
      "only a fitted model or an external claim is superseded; replace or update other evidence"
  else if new ≠ kind then
    .error <| match retire with
      | .supersede => .invalid "evidence_ledger.supersede_kind_mismatch"
          s!"a {new.asStr} cannot supersede a {kind.asStr}"
      | _ => .invalid "evidence_ledger.kind_mismatch"
          s!"a {new.asStr} cannot stand in for a {kind.asStr}"
  else .ok ()

/-- An update only adds rows (`ledger.rs:1455-1474`). -/
def checkMonotone (retire : Retire) (target : SourceId) (old new : EffectiveObservations) :
    Except LedgerError Unit :=
  if retire = .update then
    match old.rows, new.rows with
    | some old, some new =>
      if !isSubset old new then
        .error <| .invalid "evidence_ledger.update_drops_rows"
          "an update only adds observations; use replace to correct or drop them"
      else .ok ()
    | _, _ => .error <|
      (LedgerError.overlapUnknown "evidence_ledger.overlap_unknown" <|
        "an update cannot be verified as monotone while either observation set is unknown"
        ).withSources [target]
  else .ok ()

/-- `plan_retire` with a replacement (`ledger.rs:1417-1477`). -/
def planReplacement (ids : Identities) (l : EvidenceLedger) (retire : Retire) (target : SourceId)
    (existing : EvidenceSource) (replacement : SourceDeclaration) : Except LedgerError Plan := do
  let canonical ← l.canonicalSource ids replacement
  if canonical.declaration.lineage.parents.any fun p =>
      p = target || (l.lineageClosure p).contains target then
    throw <| .invalid "evidence_ledger.invalid_declaration"
      "a replacement cannot be derived from the source it retires"
  checkReplacementKind retire existing.declaration.kind canonical.declaration.kind
  checkMonotone retire target existing.effective canonical.effective
  if (l.source canonical.id).isSome then
    throw <| (LedgerError.doubleCounted "evidence_ledger.duplicate_source"
      s!"source {toHex canonical.id} is already in the ledger").withSources [canonical.id]
  l.checkNewSourceBounds canonical
  return .retire retire target none
    (some (canonical, l.overlapsWithExisting canonical (some target)))

/-- Lines 1380-1478. -/
def planRetire (ids : Identities) (l : EvidenceLedger) (retire : Retire) (target : SourceId)
    (replacement : Option SourceDeclaration) (reason : Option String) : Except LedgerError Plan := do
  let existing ← l.requireKnown target
  checkRetirable retire target existing.status
  if reason.any (!textOk ·) then
    throw <| .invalid "evidence_ledger.invalid_declaration" "a withdrawal states its reason"
  match replacement with
  | none => return .retire retire target reason none
  | some replacement => l.planReplacement ids retire target existing replacement

/-- Lines 1311-1347. -/
def plan (ids : Identities) (l : EvidenceLedger) (operation : LedgerOperation) :
    Except LedgerError Plan := do
  if l.log.length ≥ maxOperations then
    throw <| .limit "evidence_ledger.limit_exceeded"
      s!"a ledger logs at most {maxOperations} operations"
  match operation with
  | .add source =>
    if l.sources.length ≥ maxSources then
      throw <| .limit "evidence_ledger.limit_exceeded"
        s!"a ledger holds at most {maxSources} sources"
    let canonical ← l.canonicalSource ids source
    l.checkNewSource canonical
    return .add canonical (l.overlapsWithExisting canonical none)
  | .update target replacement => l.planRetire ids .update target (some replacement) none
  | .replace target replacement => l.planRetire ids .replace target (some replacement) none
  | .supersede target replacement => l.planRetire ids .supersede target (some replacement) none
  | .withdraw target reason => l.planRetire ids .withdraw target none (some reason)
  | .revalidateDownstream => return .revalidate
  | .combine request => return .combine (← l.checkCombination ids request)

/-- Lines 1533-1544. -/
def insertSource (l : EvidenceLedger) (source : CanonicalSource) (addedBy : OperationId) :
    EvidenceLedger :=
  { l with
    totalObservations := l.totalObservations + newRows source
    sources := l.sources ++ [{
      id := source.id
      declaration := source.declaration
      effective := source.effective
      status := .active
      addedBy := addedBy }] }

def setSource (l : EvidenceLedger) (id : SourceId) (status : SourceStatus) : EvidenceLedger :=
  { l with
    sources := l.sources.map fun s => if s.id = id then { s with status := status } else s }

def setResult (l : EvidenceLedger) (id : ResultId) (status : ResultStatus) : EvidenceLedger :=
  { l with
    results := l.results.map fun r => if r.id = id then { r with status := status } else r }

/-- The standing a retired source gets (`ledger.rs:1563-1570`). -/
def retiredStatus (id : OperationId) (reason : Option String) (retire : Retire)
    (successor : Option SourceId) : SourceStatus :=
  match retire, successor with
  | .withdraw, _ | _, none => .withdrawn (reason.getD "") id
  | .update, some by_ => .updated by_ id
  | .replace, some by_ => .replaced by_ id
  | .supersede, some by_ => .superseded by_ id

def record (checked : CheckedCombination) (createdBy : OperationId) : ResultRecord where
  id := checked.id
  label := checked.label
  operation := checked.operation
  mass := checked.mass
  claimClass := checked.claimClass
  observationsDigest := checked.observationsDigest
  transportIdentities := checked.transportIdentities
  dataReuse := checked.dataReuse
  dependenceDeclared := checked.dependenceDeclared
  replaces := checked.replaces
  createdBy := createdBy
  status := .valid

/-- The ledger a plan leaves, with the effect it reports (`ledger.rs:1550-1604`). -/
def execute (l : EvidenceLedger) (id : OperationId) : Plan → EvidenceLedger × OperationEffect
  | .add source overlaps =>
    (l.insertSource source id, { createdSource := some source.id, detectedOverlaps := overlaps })
  | .retire retire target reason replacement =>
    let successor := replacement.map (·.1.id)
    let retired := l.setSource target (retiredStatus id reason retire successor)
    let grown := match replacement with
      | some (source, _) => retired.insertSource source id
      | none => retired
    let l' := grown.reclassify id
    (l', {
      createdSource := successor
      retiredSource := some target
      detectedOverlaps := (replacement.map (·.2)).getD []
      revalidation := l'.sourceLossClassification })
  | .revalidate =>
    let l' := l.reclassify id
    (l', { revalidation := l'.sourceLossClassification })
  | .combine checked =>
    let l' := match checked.replaces with
      | some replaced => l.setResult replaced (.replaced checked.id id)
      | none => l
    ({ l' with results := l'.results ++ [record checked id] },
      { createdResult := some checked.id, replacedResult := checked.replaces })

/-- **`apply`** (`ledger.rs:1546-1610`). -/
def apply (ids : Identities) (l : EvidenceLedger) (operation : LedgerOperation) :
    Except LedgerError EvidenceLedger := do
  let plan ← l.plan ids operation
  let id := ids.operation l.head plan
  let (l', effect) := l.execute id plan
  return { l' with
    head := id
    log := l'.log ++ [{ id := id, operation := operation, effect := effect }] }

end EvidenceLedger

end Antecedent.Contract
