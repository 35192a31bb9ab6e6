import Mathlib.Data.String.Basic
import Antecedent.Contract.LedgerTypes
import Antecedent.Contract.Rows
import Antecedent.Search.Visited

/-!
# The evidence ledger

Model of `EvidenceLedger` (`antecedent-contract`, `evidence_ledger/ledger.rs`), from the admission
of a source to `apply`. The two indexes of the source map an id to its position; ids are distinct,
so here a lookup is a search of the list. An operation that is refused leaves the ledger as it is:
`apply` returns the next ledger or the refusal.
-/

namespace Antecedent.Contract

open Core Worklist

def maxSources : Nat := 1024
def maxResults : Nat := 4096
def maxOperations : Nat := 16384
def maxObservationsPerSource : Nat := 2 ^ 20
def maxTotalObservations : Nat := 2 ^ 22
def maxCombinationSources : Nat := 64
def maxTextBytes : Nat := 256
def maxTransportItems : Nat := 64

inductive Loss
  | permanent
  | replaceable
  deriving DecidableEq

structure CanonicalSource where
  declaration : SourceDeclaration
  id : SourceId
  effective : EffectiveObservations

inductive Retire
  | update
  | replace
  | supersede
  | withdraw
  deriving DecidableEq

structure CheckedCombination where
  id : ResultId
  label : String
  operation : SynthesisOperation
  mass : MassAccount
  claimClass : ClaimClass
  observationsDigest : Option Digest
  transportIdentities : List Digest
  dataReuse : Bool
  dependenceDeclared : Bool
  replaces : Option ResultId

inductive Plan
  | add (source : CanonicalSource) (overlaps : List DetectedOverlap)
  | retire (retire : Retire) (target : SourceId) (reason : Option String)
      (replacement : Option (CanonicalSource × List DetectedOverlap))
  | revalidate
  | combine (checked : CheckedCombination)

/-- The hash functions of the ledger. -/
structure Identities where
  genesis : OperationId
  source : SourceDeclaration → SourceId
  transport : TransportIdentity → Digest
  observations : List ObservationId → Digest
  result : String → SynthesisOperation → Option ResultId → ResultId
  operation : OperationId → Plan → OperationId

structure EvidenceLedger where
  sources : List EvidenceSource
  results : List ResultRecord
  log : List AppliedOperation
  head : OperationId
  totalObservations : Nat

/-- Lines 176-178. -/
def textOk (text : String) : Bool := !isBlank text && text.utf8ByteSize ≤ maxTextBytes

/-- `sorted.windows(2).find(|w| w[0] == w[1])`. -/
def firstRepeat {α : Type} [DecidableEq α] : List α → Option α
  | a :: b :: rest => if a = b then some a else firstRepeat (b :: rest)
  | _ => none

/-- `sort_unstable`. -/
def sorted {α : Type} [LinearOrder α] (l : List α) : List α := l.insertionSort (· ≤ ·)

/-- The pairs `(ids[i], ids[j])` with `i < j`, in the order of two nested loops. -/
def orderedPairs {α : Type} : List α → List (α × α)
  | [] => []
  | a :: rest => rest.map (a, ·) ++ orderedPairs rest

namespace EvidenceLedger

def new (ids : Identities) : EvidenceLedger := ⟨[], [], [], ids.genesis, 0⟩

/-! ## Reads -/

def source (l : EvidenceLedger) (id : SourceId) : Option EvidenceSource :=
  l.sources.find? (·.id = id)

def result (l : EvidenceLedger) (id : ResultId) : Option ResultRecord :=
  l.results.find? (·.id = id)

/-- Lines 205-209. -/
def holds (l : EvidenceLedger) (id : ObservationId) : Bool :=
  (l.sources.filter (·.status.isActive)).any fun s =>
    match s.effective.rows with
    | some rows => rows.contains id
    | none => false

def requireKnown (l : EvidenceLedger) (id : SourceId) : Except LedgerError EvidenceSource :=
  match l.source id with
  | some s => .ok s
  | none => .error <|
    (LedgerError.invalid "evidence_ledger.unknown_source"
      s!"source {toHex id} is not in the ledger").withSources [id]

/-- `overlap_of` (`ledger.rs:298-318`): an empty set overlaps nothing, known or not. -/
def overlapOf (a b : EvidenceSource) : Overlap :=
  match a.effective, b.effective with
  | .known x, .known y =>
    if intersectionCount x y = 0 then .independent else .sharedObservations (intersectionCount x y)
  | .known x, .unknown reason | .unknown reason, .known x =>
    if x.isEmpty then .independent else .unknown reason
  | .unknown reason, .unknown _ => .unknown reason

def overlap (l : EvidenceLedger) (a b : SourceId) : Except LedgerError Overlap := do
  let sa ← l.requireKnown a
  let sb ← l.requireKnown b
  return overlapOf sa sb

def parents (l : EvidenceLedger) (id : SourceId) : List SourceId :=
  match l.source id with
  | some s => s.declaration.lineage.parents
  | none => []

/-- Pops of the loop of `lineage_closure`: the start, one for each edge, and the empty stack. -/
def lineageFuel (l : EvidenceLedger) : Nat :=
  (l.sources.map fun s => (l.parents s.id).length).sum + 2

/-- `lineage_closure` (`ledger.rs:353-366`): the source and all it was derived from, sorted. -/
def lineageClosure (l : EvidenceLedger) (id : SourceId) : List SourceId :=
  sorted (visit l.parents l.lineageFuel [id] [])

/-- Lines 400-427. -/
def reentryBetween (l : EvidenceLedger) (a b : EvidenceSource) : ReentryKind :=
  let fromLineage (descendant : EvidenceSource) (ancestor : SourceId) : Option ReentryKind :=
    if descendant.id = ancestor ∨ ancestor ∉ l.lineageClosure descendant.id then none
    else match descendant.declaration.lineage with
      | .duplicate _ => some .duplicate
      | .transform _ _ => some .transform
      | .priorPlusLikelihood _ _ => some .priorPlusLikelihood
      | .derivedFromUsedData _ => some .derivedFromUsedData
      | .subset _ | .original => some .sharedObservations
  match (fromLineage b a.id).or (fromLineage a b.id) with
  | some kind => kind
  | none =>
    if a.declaration.kind.isModelOrClaim || b.declaration.kind.isModelOrClaim then
      .derivedFromUsedData
    else if decide (a.declaration.kind = .prior) != decide (b.declaration.kind = .prior) then
      .priorPlusLikelihood
    else .sharedObservations

/-- `mass_account` (`ledger.rs:433-461`): each observation counted once. -/
def massAccount (l : EvidenceLedger) (sources : List SourceId) :
    Except LedgerError MassAccount := do
  let ids := (sorted sources).dedup
  let found ← ids.mapM l.requireKnown
  let known := found.filterMap (·.effective.rows)
  let slots := (known.map List.length).sum
  let distinct := (unionSorted known).length
  return {
    sources := ids.length
    declaredSlots := slots
    distinctObservations := distinct
    repeatedSlots := slots - distinct
    unknownSources := (found.filter (·.effective.rows.isNone)).map (·.id) }

/-! ## Losses -/

/-- `loss_of` (`ledger.rs:466-482`): the first withdrawn member of the closure, else the first that
is not active. -/
def lossOf (l : EvidenceLedger) (id : SourceId) : Option (SourceId × Loss) :=
  let members := (l.lineageClosure id).filterMap l.source
  let withdrawn (s : EvidenceSource) : Bool :=
    match s.status with
    | .withdrawn .. => true
    | _ => false
  match members.find? withdrawn with
  | some s => some (s.id, .permanent)
  | none => (members.find? fun s => !s.status.isActive).map fun s => (s.id, .replaceable)

/-- Lines 484-511. -/
def requireUsable (l : EvidenceLedger) (id : SourceId) : Except LedgerError EvidenceSource := do
  let source ← l.requireKnown id
  match l.lossOf id with
  | none => return source
  | some (member, .permanent) =>
    throw <| (LedgerError.retired "evidence_ledger.source_withdrawn"
      (s!"source {toHex member} (needed by {toHex id}) is withdrawn; remove it or register " ++
        "evidence that does not rest on it")).withSources [member]
  | some (member, .replaceable) =>
    let successor := match (l.source member).map (·.status) with
      | some (.superseded by_ _) | some (.replaced by_ _) | some (.updated by_ _) =>
        s!"use its successor {toHex by_}"
      | _ => "use its successor"
    throw <| (LedgerError.retired "evidence_ledger.source_superseded"
      (s!"source {toHex member} (needed by {toHex id}) was superseded, replaced or updated; " ++
        successor)).withSources [member]

/-! ## Admission of a source -/

/-- The rows of a declaration: canonical order, none twice (`ledger.rs:524-540`). -/
def canonicalRows : ObservationBasis → Except LedgerError ObservationBasis
  | .undeclared => .ok .undeclared
  | .declared rows =>
    if rows.length > maxObservationsPerSource then
      .error <| .limit "evidence_ledger.limit_exceeded"
        s!"a source declares at most {maxObservationsPerSource} observations"
    else if (firstRepeat (sorted rows)).isSome then
      .error <| .doubleCounted "evidence_ledger.duplicate_row" <|
        "an observation appears more than once inside one source; declare each observation once"
    else .ok (.declared (sorted rows))

/-- The lineage of a declaration, before its parents are looked up (`ledger.rs:541-573`). -/
def canonicalLineage (l : EvidenceLedger) : Lineage → Except LedgerError Lineage
  | .derivedFromUsedData inputs =>
    if inputs.isEmpty then
      .error <| .invalid "evidence_ledger.invalid_declaration"
        "a derived source names the sources it was built from"
    else if (firstRepeat (sorted inputs)).isSome then
      .error <| .doubleCounted "evidence_ledger.repeated_source"
        "a source is listed more than once among the inputs"
    else .ok (.derivedFromUsedData (sorted inputs))
  | .priorPlusLikelihood prior likelihood =>
    if prior = likelihood then
      .error <| .doubleCounted "evidence_ledger.repeated_source"
        "the prior and the likelihood are the same source"
    else do
      let source ← l.requireKnown prior
      if source.declaration.kind ≠ .prior then
        .error <| .invalid "evidence_ledger.invalid_declaration"
          "the prior of a prior-plus-likelihood source must have kind prior"
      else .ok (.priorPlusLikelihood prior likelihood)
  | lineage => .ok lineage

/-- The transport provenance of a declaration (`ledger.rs:578-619`). -/
def canonicalTransport (kind : SourceKind) :
    Option TransportIdentity → Except LedgerError (Option TransportIdentity)
  | none => .ok none
  | some t =>
    let populations := (sorted t.sourcePopulations).dedup
    let assumptions := (sorted t.assumptions).dedup
    if kind = .observationSet then
      .error <| .invalid "evidence_ledger.invalid_declaration"
        "raw observations are not transported; transport a claim or model"
    else if populations.isEmpty || populations.length > maxTransportItems ||
        assumptions.length > maxTransportItems || populations.any (!textOk ·) ||
        assumptions.any (!textOk ·) || !textOk t.targetPopulation then
      .error <| .invalid "evidence_ledger.invalid_declaration" <|
        "a transport identity names its source populations, target population and assumptions"
    else if assumptions.isEmpty then
      .error <| .invalid "evidence_ledger.invalid_declaration" <|
        "a transport identity states at least one invariance or selection assumption"
    else if populations.any (· = t.targetPopulation) then
      .error <| .invalid "evidence_ledger.invalid_declaration"
        "a transport target population is not one of its source populations"
    else .ok (some { t with sourcePopulations := populations, assumptions := assumptions })

def parentRows (l : EvidenceLedger) (id : SourceId) : Option (List ObservationId) :=
  (l.source id).bind (·.effective.rows)

def lineageRowsMismatch : LedgerError :=
  .invalid "evidence_ledger.lineage_rows_mismatch"
    "the declared observations contradict the declared lineage"

/-- The rows of all parents together, none if those of one are unknown. -/
def unionOfParents (l : EvidenceLedger) (parents : List SourceId) : Option (List ObservationId) :=
  (parents.mapM l.parentRows).map unionSorted

/-- Lines 626-703. -/
def resolveEffective (l : EvidenceLedger) (d : SourceDeclaration) :
    Except LedgerError EffectiveObservations :=
  match d.lineage with
  | .original =>
    match d.observations.rows with
    | some rows => .ok (.known rows)
    | none => .ok (.unknown "observations were not declared")
  | .duplicate p | .transform p _ =>
    match d.observations.rows, l.parentRows p with
    | some rows, some parent =>
      if rows ≠ parent then .error lineageRowsMismatch else .ok (.known parent)
    | some rows, none => .ok (.known rows)
    | none, some parent => .ok (.known parent)
    | none, none => .ok (.unknown "a copy or transform of a source with unknown observations")
  | .subset p =>
    match d.observations.rows, l.parentRows p with
    | some rows, some parent =>
      if !isSubset rows parent then .error lineageRowsMismatch else .ok (.known rows)
    | some rows, none => .ok (.known rows)
    | none, _ => .ok (.unknown "the rows of a subset were not declared")
  | .priorPlusLikelihood _ _ | .derivedFromUsedData _ =>
    match d.observations.rows, l.unionOfParents d.lineage.parents with
    | some rows, some union =>
      if !isSubset rows union then .error lineageRowsMismatch else .ok (.known rows)
    | some rows, none => .ok (.known rows)
    | none, some union => .ok (.known union)
    | none, none => .ok (.unknown "built from sources with unknown observations")

/-- Lines 513-624. -/
def canonicalSource (ids : Identities) (l : EvidenceLedger) (d : SourceDeclaration) :
    Except LedgerError CanonicalSource := do
  if !textOk d.label then
    throw <| .invalid "evidence_ledger.invalid_declaration"
      s!"a source label must be non-empty and at most {maxTextBytes} bytes"
  let observations ← canonicalRows d.observations
  let lineage ← l.canonicalLineage d.lineage
  let _ ← lineage.parents.mapM l.requireUsable
  let transport ← canonicalTransport d.kind d.transport
  let declaration : SourceDeclaration :=
    { d with observations := observations, lineage := lineage, transport := transport }
  let effective ← l.resolveEffective declaration
  return { declaration := declaration, id := ids.source declaration, effective := effective }

/-- Lines 705-724. -/
def overlapsWithExisting (l : EvidenceLedger) (source : CanonicalSource) (skip : Option SourceId) :
    List DetectedOverlap :=
  match source.effective.rows with
  | none => []
  | some rows => l.sources.filterMap fun existing =>
    if some existing.id = skip ∨ existing.id = source.id then none
    else existing.effective.rows.bind fun other =>
      if intersectionCount rows other > 0 then
        some { existing := existing.id, shared := intersectionCount rows other }
      else none

end EvidenceLedger

end Antecedent.Contract
