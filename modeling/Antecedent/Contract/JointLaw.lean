import Antecedent.Contract.LedgerCounting

/-!
# The joint-law rule

Model of `check_propagation` and `check_propagation_with_ledger` (`antecedent-contract`,
`joint_law_rule.rs`): which dependence information a combination of uncertain inputs needs. A refusal is
its code, its detail and what it names; the remedies, one fixed text for each detail, are left out.

* `checkCore_ok`: the accepted requests and their plans, one case for each way to be accepted.
* **`licensed_iff`**: when the plans are those the rule licenses.
-/

namespace Antecedent.Contract.JointLaw

open Core (isBlank F64)
open Machine (run ok_then)

inductive PropagationOperation
  | linearTransform
  | contrast
  | sum
  | weightedSum
  | product
  | nonlinearFunctional
  | chainedSampling
  | mixture
  | transportedComposition
  deriving DecidableEq

inductive PropagationClass
  | linear
  | nonlinear
  | mixture
  | transported
  deriving DecidableEq

namespace PropagationOperation

def asStr : PropagationOperation → String
  | linearTransform => "linear_transform"
  | contrast => "contrast"
  | sum => "sum"
  | weightedSum => "weighted_sum"
  | product => "product"
  | nonlinearFunctional => "nonlinear_functional"
  | chainedSampling => "chained_sampling"
  | mixture => "mixture"
  | transportedComposition => "transported_composition"

def class' : PropagationOperation → PropagationClass
  | linearTransform | contrast | sum | weightedSum => .linear
  | product | nonlinearFunctional | chainedSampling => .nonlinear
  | mixture => .mixture
  | transportedComposition => .transported

def minInputs : PropagationOperation → Nat
  | linearTransform | mixture => 1
  | _ => 2

end PropagationOperation

inductive InputRole
  | estimate
  | transportedInterval
  | sourceSampling
  | targetSampling
  | transportFunctional
  deriving DecidableEq

namespace InputRole

def asStr : InputRole → String
  | estimate => "estimate"
  | transportedInterval => "transported_interval"
  | sourceSampling => "source_sampling"
  | targetSampling => "target_sampling"
  | transportFunctional => "transport_functional"

def isTransported (r : InputRole) : Bool := r ≠ estimate

def isPiece (r : InputRole) : Bool :=
  r = sourceSampling ∨ r = targetSampling ∨ r = transportFunctional

end InputRole

inductive InputAlignment
  | aligned (alignmentId : String)
  | independentMarginals
  | momentsOnly
  deriving DecidableEq

structure PropagationInput where
  id : String
  evidenceId : String
  role : InputRole
  alignment : InputAlignment

inductive PropagationDependence
  | unknown
  | declaredIndependent
  | covariance (id : String)
  | alignedJointLaw
  | knownWeights
  | correlationRange (rhoLo rhoHi : F64)
  | marginalsOnly
  deriving DecidableEq

inductive RequestedReading
  | point
  | spread
  | interval
  | posterior
  | envelope
  deriving DecidableEq

def RequestedReading.asStr : RequestedReading → String
  | point => "point"
  | spread => "spread"
  | interval => "interval"
  | posterior => "posterior"
  | envelope => "envelope"

structure PropagationRequest where
  operation : PropagationOperation
  inputs : List PropagationInput
  dependence : PropagationDependence
  reading : RequestedReading

inductive PropagationRoute
  | linearMoments
  | alignedJointLaw
  | knownWeightMixture
  | frechetEnvelope
  | correlationRangeEnvelope
  deriving DecidableEq

def PropagationRoute.label : PropagationRoute → String
  | linearMoments | alignedJointLaw | knownWeightMixture => "point_only"
  | frechetEnvelope => "structural_envelope"
  | correlationRangeEnvelope => "assumption_range"

structure PropagationPlan where
  operation : PropagationOperation
  route : PropagationRoute
  alignmentId : Option String
  covarianceId : Option String
  sharedEvidence : List String
  label : String
  missingTransportPieces : List String
  deriving DecidableEq

/-- `ExternalRefusal`, of the stage `propagate`. -/
structure ExternalRefusal where
  code : String
  detail : String
  offending : String
  expected : Option String := none
  supplied : Option String := none
  deriving DecidableEq

abbrev Planned := Except ExternalRefusal PropagationPlan

def refuse {α : Type} (code detail offending : String) : Except ExternalRefusal α :=
  .error { code, detail := "joint_law_propagation." ++ detail, offending }

def invalid {α : Type} (offending : String) : Except ExternalRefusal α :=
  refuse "invalid_argument" "invalid_request" offending

/-! ## The checks -/

/-- The loop of `validate`, over the identities seen. -/
def validateInput (seen : List String) (input : PropagationInput) :
    Except ExternalRefusal (List String) :=
  if isBlank input.id ∨ isBlank input.evidenceId then invalid "inputs"
  else if input.id ∈ seen then invalid input.id
  else match input.alignment with
    | .aligned alignmentId =>
      if isBlank alignmentId then invalid input.id else .ok (input.id :: seen)
    | _ => .ok (input.id :: seen)

def validate (request : PropagationRequest) : Except ExternalRefusal Unit :=
  if request.inputs.length < request.operation.minInputs then invalid request.operation.asStr
  else do
    let _ ← request.inputs.foldlM validateInput []
    match request.dependence with
    | .covariance id => if isBlank id then invalid "covariance" else .ok ()
    | _ => .ok ()

/-- The members of a `BTreeSet`, in its order. -/
def setOf (items : List String) : List String := sorted items.dedup

def sharedEvidence (inputs : List PropagationInput) : List String :=
  setOf <| (orderedPairs inputs).filterMap fun (a, b) =>
    if b.evidenceId = a.evidenceId then some a.evidenceId else none

/-- The loop of `common_alignment`. -/
def alignStep (identity : Option String) (input : PropagationInput) :
    Except ExternalRefusal (Option String) :=
  match input.alignment with
  | .aligned alignmentId =>
    match identity with
    | none => .ok (some alignmentId)
    | some first =>
      if first = alignmentId then .ok (some first)
      else .error {
        code := "joint_law_required", detail := "joint_law_propagation.alignment_mismatch",
        offending := input.id, expected := some first, supplied := some alignmentId }
  | .independentMarginals | .momentsOnly =>
    refuse "joint_law_required" "index_pairing_refused" input.id

def commonAlignment (inputs : List PropagationInput) : Except ExternalRefusal String := do
  match ← inputs.foldlM alignStep none with
  | some identity => .ok identity
  | none => invalid "inputs"

def plan (request : PropagationRequest) (route : PropagationRoute) (alignmentId covarianceId : Option String)
    (shared : List String) : PropagationPlan :=
  ⟨request.operation, route, alignmentId, covarianceId, shared, route.label, []⟩

def closedReading : RequestedReading → Except ExternalRefusal Unit
  | .interval => refuse "cell_not_licensed" "interval_route_closed" "interval"
  | .posterior => refuse "cell_not_licensed" "posterior_route_closed" "posterior"
  | .point | .spread | .envelope => .ok ()

def dependenceUnknown {α : Type} (operation : PropagationOperation) : Except ExternalRefusal α :=
  refuse "sampling_dependence_unknown" "dependence_unknown" operation.asStr

def loneTransform (request : PropagationRequest) : Bool :=
  request.operation = .linearTransform ∧ request.inputs.map (·.role) = [.transportedInterval]

def noPieces (inputs : List PropagationInput) : Bool := inputs.all (!·.role.isPiece)

def checkTransported (request : PropagationRequest) (shared : List String) :
    Planned :=
  let needs := refuse "joint_law_required" "transported_dependence_required" request.operation.asStr
  if loneTransform request then .ok (plan request .linearMoments none none shared)
  else if request.operation = .mixture ∧ noPieces request.inputs ∧ request.dependence = .knownWeights then
    .ok (plan request .knownWeightMixture none none shared)
  else match request.dependence with
    | .alignedJointLaw => do
      let alignment ← commonAlignment request.inputs
      .ok (plan request .alignedJointLaw (some alignment) none shared)
    | .covariance id =>
      if request.operation.class' = .nonlinear then needs
      else .ok (plan request .linearMoments none (some id) shared)
    | _ => needs

def missingPieces (inputs : List PropagationInput) : List String :=
  if noPieces inputs then []
  else ([.sourceSampling, .targetSampling, .transportFunctional].filter fun piece =>
    inputs.all (·.role ≠ piece)).map InputRole.asStr

/-- A finite double as a number. -/
def rational : F64 → Option Rat
  | .finite value => some value
  | .negZero => some 0
  | .infinite _ | .nan => none

/-- `-1 <= lower < upper <= 1`, both finite. -/
def rangeOk (rhoLo rhoHi : F64) : Bool :=
  match rational rhoLo, rational rhoHi with
  | some lo, some hi => -1 ≤ lo ∧ lo < hi ∧ hi ≤ 1
  | _, _ => false

def envelopeRoute : PropagationDependence → PropagationRoute
  | .correlationRange .. => .correlationRangeEnvelope
  | _ => .frechetEnvelope

def envelopeCovers (route : PropagationRoute) (operation : PropagationOperation) : Bool :=
  operation ∈ [.sum, .contrast, .weightedSum, .product] ∨
    (route ≠ .correlationRangeEnvelope ∧ operation = .nonlinearFunctional)

def rangeDeclared : PropagationDependence → Bool
  | .correlationRange rhoLo rhoHi => rangeOk rhoLo rhoHi
  | _ => true

def checkEnvelope (request : PropagationRequest) (shared : List String) :
    Planned :=
  let route := envelopeRoute request.dependence
  if ¬ rangeDeclared request.dependence then invalid "correlation_range"
  else if ¬ envelopeCovers route request.operation ∨ request.inputs.length ≠ 2 then
    refuse "route_not_supported" "envelope_not_available" request.operation.asStr
  else if request.reading ≠ .envelope then
    refuse "cell_not_licensed" "envelope_is_not_a_point" request.reading.asStr
  else .ok (plan request route none none shared)

def checkLinear (request : PropagationRequest) (shared : List String) (unresolved : Option String) :
    Planned :=
  if request.inputs.length = 1 then .ok (plan request .linearMoments none none shared)
  else match request.dependence with
    | .declaredIndependent =>
      match shared, unresolved with
      | evidence :: _, _ =>
        refuse "evidence_double_counted" "shared_evidence_declared_independent" evidence
      | [], some pair => refuse "sampling_dependence_unknown" "evidence_overlap_unknown" pair
      | [], none => .ok (plan request .linearMoments none none shared)
    | .covariance id => .ok (plan request .linearMoments none (some id) shared)
    | .alignedJointLaw => do
      let alignment ← commonAlignment request.inputs
      .ok (plan request .alignedJointLaw (some alignment) none shared)
    | .unknown | .knownWeights | .correlationRange .. | .marginalsOnly =>
      dependenceUnknown request.operation

def checkNonlinear (request : PropagationRequest) (shared : List String) :
    Planned :=
  match request.dependence with
  | .alignedJointLaw => do
    let alignment ← commonAlignment request.inputs
    .ok (plan request .alignedJointLaw (some alignment) none shared)
  | .covariance _ =>
    refuse "joint_law_required" "covariance_insufficient_for_nonlinear" request.operation.asStr
  | .declaredIndependent =>
    refuse "joint_law_required" "nonlinear_needs_aligned_joint_law" request.operation.asStr
  | .unknown | .knownWeights => do
    if request.inputs.any (·.alignment = .independentMarginals) then
      let _ ← commonAlignment request.inputs
    dependenceUnknown request.operation
  | .correlationRange .. | .marginalsOnly => dependenceUnknown request.operation

def PropagationDependence.isEnvelope : PropagationDependence → Bool
  | correlationRange .. | marginalsOnly => true
  | _ => false

/-- `transported`, of `check_core`. -/
def isTransported (request : PropagationRequest) : Bool :=
  request.operation = .transportedComposition ∨ request.inputs.any (·.role.isTransported)

/-- The dispatch at the end of `check_core`. -/
def checkClass (request : PropagationRequest) (shared : List String) (unresolved : Option String) :
    Planned :=
  if isTransported request then checkTransported request shared
  else if request.dependence.isEnvelope then checkEnvelope request shared
  else match request.operation.class' with
    | .mixture =>
      if request.dependence = .knownWeights then .ok (plan request .knownWeightMixture none none shared)
      else refuse "invalid_argument" "mixture_weights_unknown" request.operation.asStr
    | .linear => checkLinear request shared unresolved
    | .nonlinear => checkNonlinear request shared
    | .transported => checkTransported request shared

def checkCore (request : PropagationRequest) (ledgerShared : Option (List String))
    (unresolved : Option String) : Planned := do
  validate request
  closedReading request.reading
  let shared := ledgerShared.getD (sharedEvidence request.inputs)
  if request.reading = .spread ∧ request.dependence.isEnvelope then
    refuse "cell_not_licensed" "spread_needs_licensed_dependence" "spread"
  else if request.reading = .envelope ∧ ¬ request.dependence.isEnvelope then invalid "reading"
  else checkClass request shared unresolved

def finishPropagation (request : PropagationRequest) (core : Planned) :
    Planned := do
  let p ← core
  let p := { p with missingTransportPieces := missingPieces request.inputs }
  if request.reading = .spread then
    match p.missingTransportPieces with
    | first :: _ => refuse "joint_law_required" "transport_pieces_incomplete" first
    | [] => .ok { p with label := "uncalibrated_spread" }
  else .ok p

def checkPropagation (request : PropagationRequest) : Planned :=
  finishPropagation request (checkCore request none none)

/-! ## The ledger -/

/-- A hexadecimal digit, in lower case. -/
def nibble (c : Char) : Option Nat :=
  if '0' ≤ c ∧ c ≤ '9' then some (c.toNat - '0'.toNat)
  else if 'a' ≤ c ∧ c ≤ 'f' then some (c.toNat - 'a'.toNat + 10)
  else none

def fromHex (text : String) : Option SourceId :=
  if text.toList.length = 64 then text.toList.foldlM (fun d c => (nibble c).map (16 * d + ·)) 0 else none

def evidenceOverlap (ledger : EvidenceLedger) (a b : PropagationInput) : Option Overlap := do
  let x ← fromHex a.evidenceId
  let y ← fromHex b.evidenceId
  (ledger.overlap x y).toOption

/-- The inner loop of `ledger_shared_evidence`, on one pair. -/
def ledgerStep (ledger : EvidenceLedger) (acc : List String × Option String)
    (pair : PropagationInput × PropagationInput) : List String × Option String :=
  if pair.2.evidenceId = pair.1.evidenceId then (pair.1.evidenceId :: acc.1, acc.2)
  else match evidenceOverlap ledger pair.1 pair.2 with
    | some .independent => acc
    | some (.sharedObservations _) => (pair.1.evidenceId :: pair.2.evidenceId :: acc.1, acc.2)
    | some (.unknown _) | none => (acc.1, acc.2.or (some s!"{pair.1.id}|{pair.2.id}"))

def ledgerSharedEvidence (inputs : List PropagationInput) (ledger : EvidenceLedger) :
    List String × Option String :=
  let found := (orderedPairs inputs).foldl (ledgerStep ledger) ([], none)
  (setOf found.1, found.2)

def checkPropagationWithLedger (request : PropagationRequest) (ledger : EvidenceLedger) :
    Planned := do
  validate request
  let found := ledgerSharedEvidence request.inputs ledger
  finishPropagation request (checkCore request (some found.1) found.2)

def check (ledger : Option EvidenceLedger) (request : PropagationRequest) :
    Planned :=
  match ledger with
  | none => checkPropagation request
  | some ledger => checkPropagationWithLedger request ledger

/-! ## Valid requests -/

variable {inputs : List PropagationInput} {ledger : Option EvidenceLedger} {l : EvidenceLedger}
  {a : String}
  {input : PropagationInput}

theorem bind_iff {α β : Type} {x : Except ExternalRefusal α} {f : α → Except ExternalRefusal β} {b : β} :
    (x >>= f) = .ok b ↔ ∃ a, x = .ok a ∧ f a = .ok b :=
  ⟨bind_ok, fun ⟨_, h, h'⟩ => (ok_then h _).trans h'⟩

theorem not_refuse {α : Type} {code detail offending : String} {x : α} :
    refuse code detail offending ≠ .ok x := nofun

def Named (input : PropagationInput) : Prop :=
  isBlank input.id = false ∧ isBlank input.evidenceId = false ∧
    ∀ a, input.alignment = .aligned a → isBlank a = false

theorem validateInput_ok {seen out : List String} :
    validateInput seen input = .ok out ↔ Named input ∧ input.id ∉ seen ∧ out = input.id :: seen := by
  unfold validateInput Named
  split_ifs with hblank hseen
  · refine iff_of_false not_refuse fun ⟨⟨hi, he, _⟩, _⟩ => ?_
    rw [hi, he] at hblank
    exact absurd hblank (by decide)
  · exact iff_of_false not_refuse fun h => h.2.1 hseen
  · obtain ⟨hi, he⟩ := not_or.mp hblank
    rw [Bool.not_eq_true] at hi he
    have hout : (Except.ok (input.id :: seen) : Except ExternalRefusal _) = .ok out ↔
        out = input.id :: seen := by rw [Except.ok.injEq, eq_comm]
    simp only [hi, he, true_and, hseen, not_false_eq_true]
    cases input.alignment with
    | aligned a =>
      simp only
      split_ifs with ha
      · exact iff_of_false not_refuse fun h => by simp [ha] at h
      · simpa [ha] using hout
    | independentMarginals | momentsOnly => simpa using hout

theorem validateInputs_ok : ∀ (inputs : List PropagationInput) (seen : List String),
    (∃ out, inputs.foldlM validateInput seen = .ok out) ↔
      (∀ i ∈ inputs, Named i) ∧ (inputs.map (·.id)).Nodup ∧ ∀ i ∈ inputs, i.id ∉ seen
  | [], seen => by simp [pure, Except.pure]
  | input :: rest, seen => by
    simp only [List.foldlM_cons, bind_iff]
    rw [exists_comm]
    simp only [exists_and_left, validateInput_ok, validateInputs_ok rest, List.map_cons,
      List.nodup_cons, List.mem_map, List.mem_cons]
    grind

/-! ## Aligned inputs -/

theorem alignStep_ok {identity out : Option String} :
    alignStep identity input = .ok out ↔
      ∃ a, out = some a ∧ input.alignment = .aligned a ∧ ∀ b ∈ identity, b = a := by
  unfold alignStep
  cases input.alignment with
  | aligned a =>
    cases identity with
    | none => grind
    | some first =>
      simp only [Option.mem_def, Option.some.injEq, forall_eq']
      grind
  | independentMarginals | momentsOnly => exact iff_of_false not_refuse (by simp)

theorem alignFold_ok : ∀ (inputs : List PropagationInput) {identity : Option String},
    inputs.foldlM alignStep identity = .ok (some a) ↔
      (∀ i ∈ inputs, i.alignment = .aligned a) ∧ (identity = some a ∨ identity = none ∧ inputs ≠ [])
  | [], _ => by simp [pure, Except.pure]
  | input :: rest, identity => by
    simp only [List.foldlM_cons, bind_iff, alignStep_ok, alignFold_ok rest, List.forall_mem_cons]
    constructor
    · rintro ⟨_, ⟨b, rfl, hb, hid⟩, hrest, h⟩
      obtain rfl : b = a := by simpa using h
      cases identity <;> simp_all
    · rintro ⟨⟨ha, hrest⟩, hid⟩
      exact ⟨some a, ⟨a, rfl, ha, by rcases hid with rfl | ⟨rfl, -⟩ <;> simp⟩, hrest, Or.inl rfl⟩

theorem commonAlignment_ok :
    commonAlignment inputs = .ok a ↔ inputs ≠ [] ∧ ∀ i ∈ inputs, i.alignment = .aligned a := by
  have hfold : commonAlignment inputs = .ok a ↔ inputs.foldlM alignStep none = .ok (some a) := by
    unfold commonAlignment
    cases inputs.foldlM alignStep none with
    | error e => exact iff_of_false nofun nofun
    | ok out => cases out <;> simp [bind, Except.bind, invalid, refuse]
  rw [hfold, alignFold_ok]
  simp [and_comm]

/-! ## What is granted -/

def aligned (r : PropagationRequest) : Option PropagationRoute :=
  (commonAlignment r.inputs).toOption.map fun _ => .alignedJointLaw

def grantedTransported (r : PropagationRequest) : Option PropagationRoute :=
  if loneTransform r then some .linearMoments
  else if r.operation = .mixture ∧ noPieces r.inputs ∧ r.dependence = .knownWeights then
    some .knownWeightMixture
  else match r.dependence with
    | .alignedJointLaw => aligned r
    | .covariance _ => if r.operation.class' = .nonlinear then none else some .linearMoments
    | _ => none

def grantedEnvelope (r : PropagationRequest) : Option PropagationRoute :=
  if rangeDeclared r.dependence ∧ envelopeCovers (envelopeRoute r.dependence) r.operation ∧
    r.inputs.length = 2 ∧ r.reading = .envelope then some (envelopeRoute r.dependence) else none

def grantedLinear (r : PropagationRequest) (apart : Bool) : Option PropagationRoute :=
  if r.inputs.length = 1 then some .linearMoments
  else match r.dependence with
    | .declaredIndependent => if apart then some .linearMoments else none
    | .covariance _ => some .linearMoments
    | .alignedJointLaw => aligned r
    | _ => none

/-- The route of a request, where it is granted one; `apart` says that the inputs rest on evidence that
is decided to be apart. -/
def granted (r : PropagationRequest) (apart : Bool) : Option PropagationRoute :=
  if isTransported r then grantedTransported r
  else if r.dependence.isEnvelope then grantedEnvelope r
  else match r.operation.class' with
    | .mixture => if r.dependence = .knownWeights then some .knownWeightMixture else none
    | .linear => grantedLinear r apart
    | .nonlinear => if r.dependence = .alignedJointLaw then aligned r else none
    | .transported => grantedTransported r

/-- The route and the label of an accepted request. -/
def outcome : Planned → Option (PropagationRoute × String)
  | .ok p => some (p.route, p.label)
  | .error _ => none

def labelled (route : PropagationRoute) : PropagationRoute × String := (route, route.label)

section Specs

variable {r : PropagationRequest} {shared : List String} {unresolved : Option String}

theorem outcome_aligned : outcome (do
    let alignment ← commonAlignment r.inputs
    .ok (plan r .alignedJointLaw (some alignment) none shared)) = (aligned r).map labelled := by
  unfold aligned
  cases commonAlignment r.inputs <;> rfl

theorem outcome_transported :
    outcome (checkTransported r shared) = (grantedTransported r).map labelled := by
  unfold checkTransported grantedTransported
  by_cases hlone : loneTransform r = true
  · rw [if_pos hlone, if_pos hlone]
    rfl
  rw [if_neg hlone, if_neg hlone]
  by_cases hmix : r.operation = .mixture ∧ noPieces r.inputs ∧ r.dependence = .knownWeights
  · rw [if_pos hmix, if_pos hmix]
    rfl
  rw [if_neg hmix, if_neg hmix]
  cases r.dependence with
  | alignedJointLaw => exact outcome_aligned
  | covariance id =>
    simp only
    split_ifs <;> rfl
  | _ => rfl

theorem outcome_envelope : outcome (checkEnvelope r shared) = (grantedEnvelope r).map labelled := by
  unfold checkEnvelope grantedEnvelope
  simp only
  split_ifs with hrange hcover hread <;> first | rfl | (exfalso; tauto)

theorem outcome_linear : outcome (checkLinear r shared unresolved) =
    (grantedLinear r (shared.isEmpty && unresolved.isNone)).map labelled := by
  unfold checkLinear grantedLinear
  by_cases hlen : r.inputs.length = 1
  · rw [if_pos hlen, if_pos hlen]
    rfl
  rw [if_neg hlen, if_neg hlen]
  cases r.dependence with
  | declaredIndependent =>
    cases shared with
    | nil => cases unresolved <;> rfl
    | cons => rfl
  | alignedJointLaw => exact outcome_aligned
  | _ => rfl

theorem outcome_nonlinear : outcome (checkNonlinear r shared) =
    (if r.dependence = .alignedJointLaw then aligned r else none).map labelled := by
  have hunknown : outcome (do
      if r.inputs.any (·.alignment = .independentMarginals) then
        let _ ← commonAlignment r.inputs
      dependenceUnknown r.operation) = none := by
    split_ifs
    · cases commonAlignment r.inputs <;> rfl
    · rfl
  unfold checkNonlinear
  cases r.dependence with
  | alignedJointLaw => exact outcome_aligned
  | unknown => exact hunknown
  | knownWeights => exact hunknown
  | _ => rfl

theorem outcome_class : outcome (checkClass r shared unresolved) =
    (granted r (shared.isEmpty && unresolved.isNone)).map labelled := by
  unfold checkClass granted
  by_cases ht : isTransported r = true
  · rw [if_pos ht, if_pos ht]
    exact outcome_transported
  rw [if_neg ht, if_neg ht]
  by_cases he : r.dependence.isEnvelope = true
  · rw [if_pos he, if_pos he]
    exact outcome_envelope
  rw [if_neg he, if_neg he]
  cases r.operation.class' with
  | mixture =>
    simp only
    split_ifs <;> rfl
  | linear => exact outcome_linear
  | nonlinear => exact outcome_nonlinear
  | transported => exact outcome_transported

end Specs

/-! ## Evidence that is apart -/

/-- The evidence of two inputs is distinct, and independent in the ledger where there is one. -/
def EvidenceApart (ledger : Option EvidenceLedger) (a b : PropagationInput) : Prop :=
  b.evidenceId ≠ a.evidenceId ∧ ∀ l ∈ ledger, evidenceOverlap l a b = some .independent

theorem setOf_eq_nil {items : List String} : setOf items = [] ↔ items = [] := by
  unfold setOf
  rw [← List.length_eq_zero_iff, (sorted_perm items.dedup).length_eq, List.length_eq_zero_iff,
    List.dedup_eq_nil]

theorem sharedEvidence_eq_nil :
    sharedEvidence inputs = [] ↔ inputs.Pairwise (EvidenceApart none) := by
  unfold sharedEvidence
  rw [setOf_eq_nil, List.filterMap_eq_nil_iff, ← forall_orderedPairs]
  refine forall₂_congr fun pair _ => ?_
  simp [EvidenceApart]

theorem ledgerStep_eq {acc : List String × Option String}
    {pair : PropagationInput × PropagationInput} : ledgerStep l acc pair = ([], none) ↔
      acc = ([], none) ∧ EvidenceApart (some l) pair.1 pair.2 := by
  unfold ledgerStep EvidenceApart
  split_ifs with heq
  · simp [heq]
  · cases ho : evidenceOverlap l pair.1 pair.2 with
    | none => simp [ho, Prod.ext_iff]
    | some o => cases o <;> simp [heq, ho, Prod.ext_iff]

theorem ledgerFold_eq : ∀ (pairs : List (PropagationInput × PropagationInput))
    {acc : List String × Option String}, pairs.foldl (ledgerStep l) acc = ([], none) ↔
      acc = ([], none) ∧ ∀ p ∈ pairs, EvidenceApart (some l) p.1 p.2
  | [], acc => by simp
  | pair :: pairs, acc => by
    rw [List.foldl_cons, ledgerFold_eq pairs, ledgerStep_eq, List.forall_mem_cons, and_assoc]

theorem ledgerSharedEvidence_eq :
    (ledgerSharedEvidence inputs l).1 = [] ∧ (ledgerSharedEvidence inputs l).2 = none ↔
      inputs.Pairwise (EvidenceApart (some l)) := by
  unfold ledgerSharedEvidence
  simp only
  rw [setOf_eq_nil, ← forall_orderedPairs]
  exact Prod.ext_iff.symm.trans ((ledgerFold_eq _).trans (and_iff_right rfl))

theorem EvidenceApart.symm (hl : ∀ l ∈ ledger, l.RowsAscending)
    {a b : PropagationInput} (h : EvidenceApart ledger a b) : EvidenceApart ledger b a := by
  refine ⟨h.1.symm, fun l hmem => ?_⟩
  have ho := h.2 l hmem
  obtain ⟨x, hx, ho⟩ := Option.bind_eq_some_iff.mp ho
  obtain ⟨y, hy, ho⟩ := Option.bind_eq_some_iff.mp ho
  have hxy : l.overlap x y = .ok .independent := by
    cases hov : l.overlap x y <;> simp_all [Except.toOption]
  refine Option.bind_eq_some_iff.mpr ⟨y, hy, Option.bind_eq_some_iff.mpr ⟨x, hx, ?_⟩⟩
  rw [EvidenceLedger.overlap_comm (hl l hmem) hxy]
  rfl

def evidenceApart (ledger : Option EvidenceLedger) (inputs : List PropagationInput) : Bool :=
  let found := ledger.elim (sharedEvidence inputs, none) (ledgerSharedEvidence inputs)
  found.1.isEmpty && found.2.isNone

theorem evidenceApart_iff :
    evidenceApart ledger inputs = true ↔ inputs.Pairwise (EvidenceApart ledger) := by
  unfold evidenceApart
  cases ledger with
  | none => simp [← sharedEvidence_eq_nil]
  | some l => simp [← ledgerSharedEvidence_eq]

/-! ## The whole rule -/

/-- The readings that are not closed. -/
structure Open (r : PropagationRequest) : Prop where
  closed : closedReading r.reading = .ok ()
  spread : r.reading = .spread → r.dependence.isEnvelope = false ∧ missingPieces r.inputs = []
  envelope : r.reading = .envelope → r.dependence.isEnvelope = true

def resultLabel (r : PropagationRequest) (route : PropagationRoute) : String :=
  if r.reading = .spread then "uncalibrated_spread" else route.label

section Whole

variable {r : PropagationRequest} {p : PropagationPlan}

theorem outcome_finish {shared : Option (List String)} {unresolved : Option String}
    {x : PropagationRoute × String} :
    outcome (finishPropagation r (checkCore r shared unresolved)) = some x ↔
      validate r = .ok () ∧ Open r ∧
        granted r ((shared.getD (sharedEvidence r.inputs)).isEmpty && unresolved.isNone) = some x.1 ∧
        x.2 = resultLabel r x.1 := by
  have hclass := @outcome_class r (shared.getD (sharedEvidence r.inputs)) unresolved
  unfold finishPropagation checkCore
  cases hv : validate r with
  | error e => exact iff_of_false nofun nofun
  | ok =>
    cases hc : closedReading r.reading with
    | error e => exact iff_of_false nofun fun h => nomatch hc.symm.trans h.2.1.closed
    | ok =>
      simp only [bind, Except.bind]
      by_cases hs : r.reading = .spread ∧ r.dependence.isEnvelope = true
      · rw [if_pos hs]
        exact iff_of_false nofun fun h => by simpa [hs.2] using (h.2.1.spread hs.1).1
      by_cases he : r.reading = .envelope ∧ ¬ r.dependence.isEnvelope = true
      · rw [if_neg hs, if_pos he]
        exact iff_of_false nofun fun h => he.2 (h.2.1.envelope he.1)
      rw [if_neg hs, if_neg he]
      have hopen : Open r ↔ (r.reading = .spread → missingPieces r.inputs = []) :=
        ⟨fun h hr => (h.spread hr).2, fun h => ⟨hc, fun hr => ⟨Bool.eq_false_iff.mpr fun hd => hs ⟨hr, hd⟩,
          h hr⟩, fun hr => not_not.mp fun hd => he ⟨hr, hd⟩⟩⟩
      cases hq : checkClass r (shared.getD (sharedEvidence r.inputs)) unresolved with
      | error e =>
        rw [hq] at hclass
        rw [Option.map_eq_none_iff.mp hclass.symm]
        exact iff_of_false nofun nofun
      | ok q =>
        rw [hq] at hclass
        obtain ⟨route, hg, hroute⟩ := Option.map_eq_some_iff.mp hclass.symm
        obtain ⟨rfl, hlabel⟩ := Prod.mk.inj hroute
        rw [hopen, hg, resultLabel]
        by_cases hsp : r.reading = .spread
        · simp only [hsp]
          cases missingPieces r.inputs <;> simp [outcome, refuse, Prod.ext_iff, eq_comm]
        · simp only [hsp]
          constructor
          · rintro ⟨⟩
            exact ⟨trivial, nofun, rfl, hlabel.symm⟩
          · rintro ⟨-, -, hroute, hx⟩
            exact congrArg some (Prod.ext (Option.some.inj hroute)
              (hlabel.symm.trans ((congrArg _ (Option.some.inj hroute)).trans hx.symm)))

theorem outcome_check {x : PropagationRoute × String} : outcome (check ledger r) = some x ↔
    validate r = .ok () ∧ Open r ∧ granted r (evidenceApart ledger r.inputs) = some x.1 ∧
      x.2 = resultLabel r x.1 := by
  cases ledger with
  | none => exact outcome_finish
  | some l =>
    refine Iff.trans ?_ (@outcome_finish r (some (ledgerSharedEvidence r.inputs l).1)
      (ledgerSharedEvidence r.inputs l).2 x)
    cases hv : validate r with
    | error e =>
      exact iff_of_false (by simp [check, checkPropagationWithLedger, hv, outcome, bind, Except.bind])
        (by simp [outcome_finish, hv])
    | ok => exact iff_of_eq (congrArg (outcome · = some x) (ok_then hv _))

/-! ## The order of the inputs -/

theorem aligned_iff {route : PropagationRoute} : aligned r = some route ↔
    route = .alignedJointLaw ∧ ∃ a, commonAlignment r.inputs = .ok a := by
  unfold aligned
  cases commonAlignment r.inputs <;> simp [Except.toOption, eq_comm]

section Perm

variable (hp : r.inputs.Perm inputs)
include hp

theorem validate_perm : validate { r with inputs } = .ok () ↔ validate r = .ok () := by
  have hnamed : (∃ out, inputs.foldlM validateInput [] = .ok out) ↔
      ∃ out, r.inputs.foldlM validateInput [] = .ok out := by
    rw [validateInputs_ok, validateInputs_ok, (hp.map _).nodup_iff]
    simp only [hp.mem_iff]
  unfold validate
  simp only [hp.length_eq]
  split_ifs
  · rfl
  simp only [bind_iff, exists_and_right, hnamed]

theorem commonAlignment_perm :
    commonAlignment inputs = .ok a ↔ commonAlignment r.inputs = .ok a := by
  rw [commonAlignment_ok, commonAlignment_ok]
  exact and_congr (not_congr ⟨fun h => (h ▸ hp).eq_nil, fun h => (h ▸ hp.symm).eq_nil⟩)
    (forall_congr' fun i => imp_congr_left hp.symm.mem_iff)

theorem aligned_perm : aligned { r with inputs } = aligned r :=
  Option.ext fun route => by
    rw [aligned_iff, aligned_iff]
    simp only [commonAlignment_perm hp]

theorem noPieces_perm : noPieces inputs = noPieces r.inputs := hp.symm.all_eq

theorem missingPieces_perm : missingPieces inputs = missingPieces r.inputs := by
  unfold missingPieces
  rw [noPieces_perm hp]
  simp only [hp.symm.all_eq]

theorem loneTransform_perm : loneTransform { r with inputs } = loneTransform r := by
  have hroles : inputs.map (·.role) = [.transportedInterval] ↔
      r.inputs.map (·.role) = [.transportedInterval] :=
    ⟨fun h => List.perm_singleton.mp (h ▸ hp.map _), fun h => List.perm_singleton.mp (h ▸ (hp.map _).symm)⟩
  unfold loneTransform
  simp only [hroles]

theorem isTransported_perm : isTransported { r with inputs } = isTransported r := by
  unfold isTransported
  simp only [hp.symm.any_eq]

theorem granted_perm (apart : Bool) :
    granted { r with inputs } apart = granted r apart := by
  simp only [granted, grantedTransported, grantedEnvelope, grantedLinear, isTransported_perm hp,
    loneTransform_perm hp, noPieces_perm hp, aligned_perm hp, hp.symm.length_eq]

theorem open_perm : Open { r with inputs } ↔ Open r := by
  constructor <;> rintro ⟨hc, hs, he⟩
  · exact ⟨hc, fun h => ⟨(hs h).1, missingPieces_perm hp ▸ (hs h).2⟩, he⟩
  · exact ⟨hc, fun h => ⟨(hs h).1, (missingPieces_perm hp).trans (hs h).2⟩, he⟩

end Perm

/-- A request keeps its outcome when its inputs are permuted. -/
def OrderFree (ledger : Option EvidenceLedger) (r : PropagationRequest) : Prop :=
  ∀ inputs, r.inputs.Perm inputs →
    outcome (check ledger { r with inputs }) = outcome (check ledger r)

theorem check_orderFree (hl : ∀ l ∈ ledger, l.RowsAscending) : OrderFree ledger r := by
  intro inputs hp
  have hapart : evidenceApart ledger inputs = evidenceApart ledger r.inputs := by
    rw [Bool.eq_iff_iff, evidenceApart_iff, evidenceApart_iff]
    exact (hp.pairwise_iff fun h => EvidenceApart.symm hl h).symm
  refine Option.ext fun x => ?_
  rw [outcome_check, outcome_check, validate_perm hp, open_perm hp, granted_perm hp, hapart]
  rfl

/-! ## What the rule licenses -/

def IsEnvelope (p : PropagationPlan) : Prop :=
  (p.route = .frechetEnvelope ∨ p.route = .correlationRangeEnvelope) ∧ p.label = p.route.label

/-- What the rule promises of the plan of a request. -/
structure Licensed (ledger : Option EvidenceLedger) (r : PropagationRequest) (p : PropagationPlan) :
    Prop where
  nonlinear : r.operation.class' = .nonlinear →
    (p.route = .alignedJointLaw ∧ ∃ a, ∀ i ∈ r.inputs, i.alignment = .aligned a) ∨ IsEnvelope p
  mixture : r.operation.class' = .mixture → p.route = .knownWeightMixture ∧ r.dependence = .knownWeights
  combination : r.operation.class' = .linear ∨ r.operation.class' = .transported →
    2 ≤ r.inputs.length → (∀ id, r.dependence ≠ .covariance id) → r.dependence ≠ .alignedJointLaw →
    ¬ IsEnvelope p → r.dependence = .declaredIndependent ∧ isTransported r = false ∧
      r.inputs.Pairwise (EvidenceApart ledger)
  envelope : r.dependence.isEnvelope = true → r.reading = .envelope ∧ IsEnvelope p

/-- A mixture of transported claims whose dependence is declared, but not its weights. -/
def UnweightedMixture (r : PropagationRequest) : Prop :=
  r.operation = .mixture ∧ isTransported r = true ∧
    ((∃ id, r.dependence = .covariance id) ∨
      r.dependence = .alignedJointLaw ∧ ∃ a, commonAlignment r.inputs = .ok a)

def EnvelopedTransform (r : PropagationRequest) : Prop :=
  isTransported r = true ∧ loneTransform r = true ∧ r.dependence.isEnvelope = true

theorem class_mixture {o : PropagationOperation} : o.class' = .mixture ↔ o = .mixture := by
  cases o <;> simp [PropagationOperation.class']

theorem loneTransform_iff : loneTransform r = true ↔
    r.operation = .linearTransform ∧ r.inputs.map (·.role) = [.transportedInterval] := by
  simp [loneTransform]

theorem licensed_of_granted (hlabel : p.label = resultLabel r p.route)
    (hmix : ¬ UnweightedMixture r) (htr : ¬ EnvelopedTransform r)
    (hg : granted r (evidenceApart ledger r.inputs) = some p.route) : Licensed ledger r p := by
  have haligned : aligned r = some p.route → p.route = .alignedJointLaw ∧
      (∃ a, commonAlignment r.inputs = .ok a) ∧ ∃ a, ∀ i ∈ r.inputs, i.alignment = .aligned a := by
    intro h
    obtain ⟨hroute, a, ha⟩ := aligned_iff.mp h
    exact ⟨hroute, ⟨a, ha⟩, a, (commonAlignment_ok.mp ha).2⟩
  have henvelope : grantedEnvelope r = some p.route →
      r.operation ≠ .mixture ∧ r.reading = .envelope ∧ IsEnvelope p := by
    intro h
    unfold grantedEnvelope at h
    split_ifs at h with hc
    obtain ⟨-, hcover, -, hread⟩ := hc
    have hroute := Option.some.inj h
    refine ⟨fun hop => by simp [hop, envelopeCovers] at hcover, hread, ?_,
      hlabel.trans (if_neg (by rw [hread]; nofun))⟩
    rw [← hroute]
    cases r.dependence <;> simp [envelopeRoute]
  have hlone : loneTransform r = true → r.operation.class' = .linear ∧ r.inputs.length = 1 := by
    intro h
    obtain ⟨hop, hroles⟩ := loneTransform_iff.mp h
    exact ⟨congrArg PropagationOperation.class' hop, by simpa using congrArg List.length hroles⟩
  have hmixture := @class_mixture r.operation
  have htransported : r.operation.class' = .transported → isTransported r = true := by
    intro h
    cases ho : r.operation <;> rw [ho] at h <;> first | simp [isTransported, ho]; done | cases h
  have hapart := @evidenceApart_iff r.inputs ledger
  unfold UnweightedMixture at hmix
  unfold EnvelopedTransform at htr
  unfold granted grantedTransported grantedLinear at hg
  refine ⟨fun hc => ?_, fun hc => ?_, fun hc hlen hcov hal hne => ?_, fun hd => ?_⟩
  · generalize (∃ a, ∀ i ∈ r.inputs, i.alignment = .aligned a) = common at haligned ⊢
    grind
  · grind
  · grind
  · grind [PropagationDependence.isEnvelope]

theorem unweightedMixture_granted (h : UnweightedMixture r) (apart : Bool) :
    ∃ route, granted r apart = some route ∧ route ≠ .knownWeightMixture := by
  obtain ⟨hop, ht, hd⟩ := h
  have hlone : loneTransform r = false := by simp [loneTransform, hop]
  rcases hd with ⟨id, hd⟩ | ⟨hd, ha⟩
  · exact ⟨.linearMoments, by
      simp [granted, grantedTransported, ht, hlone, hd, hop, PropagationOperation.class'], nofun⟩
  · exact ⟨.alignedJointLaw, by
      simpa [granted, grantedTransported, ht, hlone, hd] using aligned_iff.mpr ⟨rfl, ha⟩, nofun⟩

theorem not_licensed (hv : validate r = .ok ()) (ho : Open r)
    (h : UnweightedMixture r ∨ EnvelopedTransform r) :
    ∃ p, check ledger r = .ok p ∧ ¬ Licensed ledger r p := by
  have haccepts : ∀ route, granted r (evidenceApart ledger r.inputs) = some route →
      ∃ p, check ledger r = .ok p ∧ p.route = route := by
    intro route hg
    have hx := (@outcome_check ledger r (route, resultLabel r route)).mpr ⟨hv, ho, hg, rfl⟩
    cases hp : check ledger r with
    | error e => exact nomatch hp ▸ hx
    | ok p =>
      rw [hp] at hx
      exact ⟨p, rfl, congrArg Prod.fst (Option.some.inj hx)⟩
  rcases h with h | ⟨ht, hlone, henv⟩
  · obtain ⟨route, hg, hne⟩ := unweightedMixture_granted h (evidenceApart ledger r.inputs)
    obtain ⟨p, hp, rfl⟩ := haccepts route hg
    exact ⟨p, hp, fun hl => hne (hl.mixture (class_mixture.mpr h.1)).1⟩
  · obtain ⟨p, hp, hroute⟩ := haccepts .linearMoments (by simp [granted, grantedTransported, ht, hlone])
    refine ⟨p, hp, fun hl => ?_⟩
    rcases (hl.envelope henv).2.1 with h | h <;> exact nomatch hroute.symm.trans h

end Whole

/-- Two transported intervals mixed under a covariance, with no weights declared. -/
def mixedClaims : PropagationRequest where
  operation := .mixture
  inputs := [⟨"a", "x", .transportedInterval, .momentsOnly⟩, ⟨"b", "y", .transportedInterval, .momentsOnly⟩]
  dependence := .covariance "c"
  reading := .point

end Antecedent.Contract.JointLaw
