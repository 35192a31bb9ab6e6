import Antecedent.Core.Catalog

/-!
# The evidence ledger: data

Model of the ledger's records (`antecedent-contract`, `evidence_ledger/{source,operation,overlap,
refusal}.rs`). A digest is 32 bytes compared as one big-endian number, so every identity is a `Nat`;
the hash functions that make them are arbitrary (`Identities`), and nothing assumes them free of
collisions.
-/

namespace Antecedent.Contract

/-- `SemanticDigest`. -/
abbrev Digest := Nat

abbrev ObservationId := Digest
abbrev SourceId := Digest
abbrev ResultId := Digest
abbrev OperationId := Digest

/-- `to_hex`: 64 lowercase characters. -/
def toHex (d : Digest) : String :=
  String.ofList ((List.range 64).reverse.map fun i => Nat.digitChar (d / 16 ^ i % 16))

inductive SourceKind
  | observationSet
  | experiment
  | prior
  | fittedModel
  | externalClaim
  deriving DecidableEq

namespace SourceKind

def asStr : SourceKind → String
  | observationSet => "observation_set"
  | experiment => "experiment"
  | prior => "prior"
  | fittedModel => "fitted_model"
  | externalClaim => "external_claim"

def isModelOrClaim (k : SourceKind) : Bool := k = fittedModel ∨ k = externalClaim

end SourceKind

inductive ObservationBasis
  | declared (rows : List ObservationId)
  | undeclared

def ObservationBasis.rows : ObservationBasis → Option (List ObservationId)
  | declared rows => some rows
  | undeclared => none

inductive Lineage
  | original
  | duplicate (of : SourceId)
  | transform (of : SourceId) (transform : Digest)
  | subset (of : SourceId)
  | priorPlusLikelihood (prior likelihood : SourceId)
  | derivedFromUsedData (inputs : List SourceId)

def Lineage.parents : Lineage → List SourceId
  | original => []
  | duplicate p | transform p _ | subset p => [p]
  | priorPlusLikelihood prior likelihood => [prior, likelihood]
  | derivedFromUsedData inputs => inputs

structure TransportIdentity where
  sourcePopulations : List String
  targetPopulation : String
  selectionDiagram : Digest
  assumptions : List String

structure SourceDeclaration where
  label : String
  kind : SourceKind
  observations : ObservationBasis
  lineage : Lineage
  transport : Option TransportIdentity

inductive EffectiveObservations
  | known (rows : List ObservationId)
  | unknown (reason : String)

/-- `EffectiveObservations::known`. -/
def EffectiveObservations.rows : EffectiveObservations → Option (List ObservationId)
  | known rows => some rows
  | unknown _ => none

inductive SourceStatus
  | active
  | withdrawn (reason : String) (by_ : OperationId)
  | superseded (by_ : SourceId) (operation : OperationId)
  | replaced (by_ : SourceId) (operation : OperationId)
  | updated (by_ : SourceId) (operation : OperationId)

namespace SourceStatus

def isActive : SourceStatus → Bool
  | active => true
  | _ => false

def asStr : SourceStatus → String
  | active => "active"
  | withdrawn .. => "withdrawn"
  | superseded .. => "superseded"
  | replaced .. => "replaced"
  | updated .. => "updated"

end SourceStatus

structure EvidenceSource where
  id : SourceId
  declaration : SourceDeclaration
  effective : EffectiveObservations
  status : SourceStatus
  addedBy : OperationId

inductive Overlap
  | independent
  | sharedObservations (shared : Nat)
  | unknown (reason : String)

inductive ReentryKind
  | duplicate
  | transform
  | priorPlusLikelihood
  | derivedFromUsedData
  | sharedObservations

/-- `ReentryKind::as_str`; the refusal of a pair that shares rows has it in its detail. -/
def ReentryKind.asStr : ReentryKind → String
  | duplicate => "duplicate"
  | transform => "transform"
  | priorPlusLikelihood => "prior_plus_likelihood"
  | derivedFromUsedData => "derived_from_used_data"
  | sharedObservations => "shared_observations"

structure MassAccount where
  sources : Nat
  declaredSlots : Nat
  distinctObservations : Nat
  repeatedSlots : Nat
  unknownSources : List SourceId

inductive PoolingDependence
  | independent
  | declaredCovariance (covariance : Digest) (hasCrossCovariance : Bool)
  | assumptionRange (rhoLo rhoHi : Float)

inductive SynthesisOperation
  | statisticalPooling (sources : List SourceId) (dependence : PoolingDependence)
  | bayesianBorrowing (priors likelihood : List SourceId)
  | causalTransport (transported native : List SourceId)
  | evidenceReuse (of : ResultId)
  | repeatedObservationUse (sources : List SourceId) (stage : String)

def SynthesisOperation.directSources : SynthesisOperation → List SourceId
  | statisticalPooling sources _ | repeatedObservationUse sources _ => sources
  | bayesianBorrowing priors likelihood => priors ++ likelihood
  | causalTransport transported native => transported ++ (native)
  | evidenceReuse _ => []

structure CombinationRequest where
  label : String
  operation : SynthesisOperation
  replaces : Option ResultId

inductive ClaimClass
  | pointOnly
  | assumptionRange

/-- `antecedent-core/src/recalc.rs:551-576`. -/
inductive Revalidation
  | stillValid
  | recompute
  | withdrawn
  deriving DecidableEq

def Revalidation.asStr : Revalidation → String
  | stillValid => "still_valid"
  | recompute => "recompute"
  | withdrawn => "withdrawn"

inductive ResultStatus
  | valid
  | needsRecompute (cause : OperationId)
  | withdrawn (cause : OperationId)
  | replaced (by_ : ResultId) (operation : OperationId)
  deriving DecidableEq

/-- `ResultStatus::revalidation`: a replaced result is classed as withdrawn. -/
def ResultStatus.revalidation : ResultStatus → Revalidation
  | valid => .stillValid
  | needsRecompute _ => .recompute
  | withdrawn _ | replaced .. => .withdrawn

structure ResultRecord where
  id : ResultId
  label : String
  operation : SynthesisOperation
  mass : MassAccount
  claimClass : ClaimClass
  observationsDigest : Option Digest
  transportIdentities : List Digest
  dataReuse : Bool
  dependenceDeclared : Bool
  replaces : Option ResultId
  createdBy : OperationId
  status : ResultStatus

inductive LedgerOperation
  | add (source : SourceDeclaration)
  | update (target : SourceId) (replacement : SourceDeclaration)
  | replace (target : SourceId) (replacement : SourceDeclaration)
  | withdraw (target : SourceId) (reason : String)
  | supersede (target : SourceId) (replacement : SourceDeclaration)
  | revalidateDownstream
  | combine (request : CombinationRequest)

structure DetectedOverlap where
  existing : SourceId
  shared : Nat

structure ResultRevalidation where
  result : ResultId
  cls : Revalidation

/-- `OperationEffect`, with its defaults. -/
structure OperationEffect where
  createdSource : Option SourceId := none
  retiredSource : Option SourceId := none
  createdResult : Option ResultId := none
  replacedResult : Option ResultId := none
  detectedOverlaps : List DetectedOverlap := []
  revalidation : List ResultRevalidation := []

structure AppliedOperation where
  id : OperationId
  operation : LedgerOperation
  effect : OperationEffect

/-- `RefusalKind`, less the refusal that only `request_interval` makes. -/
inductive RefusalKind
  | doubleCounted
  | overlapUnknown
  | sourceRetired
  | invalidArgument
  | limitExceeded

structure LedgerError where
  kind : RefusalKind
  code : String
  detail : String
  message : String
  sources : List SourceId

namespace LedgerError

def withSources (e : LedgerError) (ids : List SourceId) : LedgerError := { e with sources := ids }

/-- The macros `double_counted!`, `overlap_unknown!`, `retired!`, `invalid!` and `limit!`
(`ledger.rs:49-95`). -/
def doubleCounted (detail message : String) : LedgerError :=
  ⟨.doubleCounted, "evidence_double_counted", detail, message, []⟩

def overlapUnknown (detail message : String) : LedgerError :=
  ⟨.overlapUnknown, "evidence_overlap_unknown", detail, message, []⟩

def retired (detail message : String) : LedgerError :=
  ⟨.sourceRetired, "evidence_source_withdrawn", detail, message, []⟩

def invalid (detail message : String) : LedgerError :=
  ⟨.invalidArgument, "invalid_argument", detail, message, []⟩

def limit (detail message : String) : LedgerError :=
  ⟨.limitExceeded, "invalid_argument", detail, message, []⟩

end LedgerError

end Antecedent.Contract
