import Antecedent.Machine.Folds
import Mathlib.Data.List.Dedup
import Mathlib.Data.List.Sort
import Mathlib.Data.Rat.Cast.Defs

/-!
# The evidence catalog

Model of `EvidenceCatalog` and its entries (`antecedent-core/src/query/transport_catalog.rs`) and of
the per-distribution descriptor `CatalogDistribution` (`transport_distribution.rs`). Variables and
regimes are `u32` handles. The canonical identity of a descriptor is a text over all its fields
(`transport_distribution.rs:147-210`) that nothing modelled takes apart, so a regime carries it; the
fields that only that text reads (sampling, dependence, dataset, projections) are left out.

`EvidenceCatalog.validate` checks the environments, every regime and the bindings, in that order.

* `mem_distributions`: the descriptors are those of the regimes, sorted by regime id.
-/

namespace Antecedent.Core

/-- The characters `str::trim` strips (Unicode `White_Space`). -/
def isWhiteSpace (c : Char) : Bool :=
  (0x9 ≤ c.val ∧ c.val ≤ 0xD) ∨ c.val = 0x20 ∨ c.val = 0x85 ∨ c.val = 0xA0 ∨ c.val = 0x1680 ∨
    (0x2000 ≤ c.val ∧ c.val ≤ 0x200A) ∨ c.val = 0x2028 ∨ c.val = 0x2029 ∨ c.val = 0x202F ∨
    c.val = 0x205F ∨ c.val = 0x3000

/-- `s.trim().is_empty()`. -/
def isBlank (s : String) : Bool := s.toList.all isWhiteSpace

/-- `QueryError`, the variant the catalog returns. -/
inductive QueryError
  | invalidTransport (message : String)
  deriving DecidableEq

/-- A double, as far as the catalog tells doubles apart; `finite 0` is the positive zero. -/
inductive F64
  | finite (value : Rat)
  | negZero
  | infinite (negative : Bool)
  | nan
  deriving DecidableEq

/-- `value.rs:14-25`. -/
inductive Value
  | float64 (value : F64)
  | int64 (value : Int)
  | bool (value : Bool)
  | category (value : Nat)
  | label (value : String)
  deriving DecidableEq

/-- `i as f64`: the nearest double, ties to the even one. -/
def i64AsF64 (i : Int) : Int :=
  let ulp := 2 ^ (i.natAbs.log2 - 52)
  let q := i.natAbs / ulp
  let r := 2 * (i.natAbs % ulp)
  i.sign * ((if r < ulp then q else if ulp < r then q + 1 else q + q % 2) * ulp : Nat)

/-- `value.rs:51-59`. -/
def Value.asF64 : Value → Option F64
  | .float64 v => some v
  | .int64 v => some (.finite (i64AsF64 v))
  | .bool v => some (.finite (if v then 1 else 0))
  | .category v => some (.finite v)
  | .label _ => none

def Value.isFinite (v : Value) : Bool :=
  match v.asF64 with
  | some (.infinite _) | some .nan => false
  | _ => true

/-- `transport_catalog.rs:29-43`. -/
inductive VariableDomain
  | unspecified
  | continuous
  | binary
  | count
  | categorical (cardinality : Nat)
  deriving DecidableEq

namespace VariableDomain

def hasLevel (v : Rat) : VariableDomain → Bool
  | .unspecified | .continuous => true
  | .binary => v = 0 ∨ v = 1
  | .count => 0 ≤ v ∧ v.den = 1
  | .categorical cardinality => 0 ≤ v ∧ v < cardinality ∧ v.den = 1

/-- `transport_catalog.rs:47-58`. -/
def accepts (d : VariableDomain) (value : Value) : Bool :=
  match d, value.asF64 with
  | .unspecified, _ => true
  | d, some (.finite v) => d.hasLevel v
  | d, some .negZero => d.hasLevel 0
  | _, _ => false

/-- `transport_catalog.rs:60-73`. -/
def compatibleWith (a b : VariableDomain) : Bool := a = .unspecified ∨ b = .unspecified ∨ a = b

end VariableDomain

/-- `transport_catalog.rs:18-25`. -/
structure VariableCoordinate where
  var : Nat
  domain : VariableDomain
  unit : Option String

/-- `transport_catalog.rs:77-84`. -/
structure Environment where
  identity : String
  coordinates : List VariableCoordinate
  selectionTargets : List Nat

inductive EvidenceKind
  | available
  | manipulable
  | proposed
  deriving DecidableEq

def EvidenceKind.canSatisfyFactor (k : EvidenceKind) : Bool := k = .available

inductive RegimeKind
  | observational
  | experimental
  deriving DecidableEq

inductive DistributionAvailability
  | joint
  | separateMarginals (vars : List Nat)
  deriving DecidableEq

inductive SamplingSelection
  | population
  | selectedOn (vars : List Nat)
  deriving DecidableEq

inductive LawOrigin
  | measured
  | modelArtifact (artifact : String)
  | recovered (derivation : String)
  deriving DecidableEq

structure InterventionAssignment where
  var : Nat
  value : Value
  deriving DecidableEq

/-- `EvidenceRegime` (`transport_catalog.rs:255-283`), with the canonical identity of its
descriptor. -/
structure EvidenceRegime where
  id : Nat
  label : Option String
  kind : RegimeKind
  evidenceKind : EvidenceKind
  interventions : List Nat
  interventionValues : List InterventionAssignment
  measured : List Nat
  conditionedOn : List Nat
  population : String
  distribution : DistributionAvailability
  study : Option String
  selection : SamplingSelection
  origin : LawOrigin
  canonicalIdentity : String
  deriving DecidableEq

/-- `RegimeBinding` (`transport_catalog.rs`), with the snapshot its weights were written for. -/
structure RegimeBinding where
  datasetIdentity : Option String
  regime : Nat
  snapshotIdentity : String
  schemaNames : List String
  weights : Option String

/-- `EvidenceCatalog`; the target sampling is read by no modelled function. -/
structure EvidenceCatalog where
  environments : List Environment
  regimes : List EvidenceRegime
  bindings : List RegimeBinding

/-! ## Validation -/

/-- Refuse with `message` unless `ok`. -/
def require (ok : Bool) (message : String) : Except QueryError Unit :=
  if ok then .ok () else .error (.invalidTransport message)

theorem require_ok {ok : Bool} {message : String} (h : require ok message = .ok ()) :
    ok = true := by
  unfold require at h
  split_ifs at h with hok
  exact hok

def uniqueVariables (vars : List Nat) (label : String) : Except QueryError Unit :=
  require vars.Nodup (label ++ " must be unique")

/-- `Environment::try_new` (`transport_catalog.rs:94-121`). -/
def Environment.check (e : Environment) : Except QueryError Unit := do
  require (!isBlank e.identity) "environment identity must be non-empty"
  require (e.coordinates.all fun c => c.domain ≠ .categorical 0)
    "categorical cardinality must be positive"
  require (e.coordinates.map (·.var)).Nodup "environment variable coordinates must be unique"
  uniqueVariables e.selectionTargets "selection targets"

abbrev DeclaredDomains := List (Nat × VariableDomain × Option String)

/-- One coordinate merged into the declared domains (`transport_catalog.rs`,
`declared_environments`). -/
def mergeCoordinate (domains : DeclaredDomains) (c : VariableCoordinate) :
    Except QueryError DeclaredDomains :=
  match domains.find? (·.1 = c.var) with
  | none => .ok (domains ++ [(c.var, c.domain, c.unit)])
  | some (_, domain, unit) => do
    require (domain.compatibleWith c.domain)
      "catalog environments declare incompatible domains for the same variable"
    require (unit = c.unit ∨ unit.isNone ∨ c.unit.isNone)
      "catalog environments declare incompatible units for the same variable"
    .ok (domains.map fun entry => if entry.1 = c.var then
      (c.var, if domain = .unspecified then c.domain else domain, unit.orElse fun _ => c.unit)
    else entry)

/-- `declared_environments`: the identities and the merged domains, over those seen so far. -/
def declaredEnvironments : List Environment → List String → DeclaredDomains →
    Except QueryError (List String × DeclaredDomains)
  | [], identities, domains => .ok (identities, domains)
  | e :: es, identities, domains => do
    e.check
    require (e.identity ∉ identities) "catalog environments must have distinct identities"
    let domains ← e.coordinates.foldlM mergeCoordinate domains
    declaredEnvironments es (identities ++ [e.identity]) domains

namespace EvidenceRegime

/-- The checks of `EvidenceRegime::try_new` (`transport_catalog.rs:285-357`). -/
def tryNew (r : EvidenceRegime) : Except QueryError Unit := do
  require (!isBlank r.population) "regime population must be non-empty"
  uniqueVariables r.interventions "regime interventions"
  uniqueVariables r.measured "regime measured variables"
  require (¬(r.kind = .observational ∧ r.interventions ≠ []))
    "observational regimes cannot carry hard interventions"
  require (¬(r.kind = .experimental ∧ r.interventions = []))
    "experimental regimes require a non-empty intervention set"
  match r.distribution with
  | .joint => pure ()
  | .separateMarginals vars => do
    uniqueVariables vars "marginal variables"
    require (vars.all (· ∈ r.measured)) "marginals require measured variables"
  require ((r.interventionValues.map (·.var)).Nodup ∧ r.interventionValues.all fun a =>
      a.var ∈ r.interventions ∧ a.value.isFinite)
    "invalid or duplicate intervention assignment"

def validateDescriptor (r : EvidenceRegime) : Except QueryError Unit := do
  require (r.study.all fun study => !isBlank study) "regime study identity must be non-empty"
  match r.origin with
  | .measured => pure ()
  | .modelArtifact artifact =>
    require (!isBlank artifact) "model artifact identity must be non-empty"
  | .recovered derivation =>
    require (!isBlank derivation) "recovered law derivation identity must be non-empty"
  match r.selection with
  | .population => pure ()
  | .selectedOn vars => do
    require (!vars.isEmpty) "a selected-sample law must name its selection variables"
    uniqueVariables vars "selection variables"

/-- One regime of `EvidenceCatalog::validate`, after those with the ids and labels seen. -/
def validate (r : EvidenceRegime) (identities : List String) (domains : DeclaredDomains)
    (labels : List String) (ids : List Nat) : Except QueryError Unit := do
  require (identities = [] ∨ r.population ∈ identities)
    "regime population is not a declared environment"
  require (identities = [] ∨ (r.interventions ++ r.measured).all (· ∈ domains.map (·.1)))
    "regime variable is not declared by any environment"
  require (r.label.all fun label => !isBlank label ∧ label ∉ labels)
    "duplicate or empty regime label"
  r.tryNew
  uniqueVariables r.conditionedOn "conditioning coordinates"
  r.validateDescriptor
  require (r.conditionedOn.all (· ∈ r.measured)) "conditioning requires measured coordinates"
  require (r.interventionValues.all fun a => match domains.find? (·.1 = a.var) with
      | none => true
      | some (_, domain, _) => domain.accepts a.value)
    "intervention value violates declared domain"
  require (r.id ∉ ids) "catalog regime ids must be unique"

end EvidenceRegime

/-- The loop of `EvidenceCatalog::validate` over the regimes. -/
def validateRegimes (identities : List String) (domains : DeclaredDomains) :
    List EvidenceRegime → List String → List Nat → Except QueryError Unit
  | [], _, _ => .ok ()
  | r :: rs, labels, ids => do
    r.validate identities domains labels ids
    validateRegimes identities domains rs (labels ++ r.label.toList) (ids ++ [r.id])

/-- `validate_bindings`, over the regimes bound so far. -/
def validateBindings (regimes : List EvidenceRegime) :
    List RegimeBinding → List Nat → Except QueryError Unit
  | [], _ => .ok ()
  | b :: bs, bound => do
    require (b.regime ∉ bound ∧ !isBlank b.snapshotIdentity ∧
        (b.datasetIdentity.all fun id => !isBlank id) ∧ (b.schemaNames.all fun s => !isBlank s) ∧
        b.schemaNames.Nodup ∧ b.weights.all fun snapshot => snapshot = b.snapshotIdentity)
      "invalid, duplicate, or mismatched regime binding"
    match regimes.find? (·.id = b.regime) with
    | none => .error (.invalidTransport "regime binding names an unknown regime")
    | some r => do
      require r.evidenceKind.canSatisfyFactor
        "regime binding names a regime whose results do not exist"
      validateBindings regimes bs (bound ++ [b.regime])

def EvidenceCatalog.validate (c : EvidenceCatalog) : Except QueryError Unit := do
  let (identities, domains) ← declaredEnvironments c.environments [] []
  validateRegimes identities domains c.regimes [] []
  validateBindings c.regimes c.bindings []

/-! ## Descriptors -/

/-- `CatalogDistribution` (`transport_distribution.rs:27-64`), with its canonical identity. -/
structure CatalogDistribution where
  sourceRegime : Nat
  study : Option String
  population : String
  kind : RegimeKind
  evidenceKind : EvidenceKind
  origin : LawOrigin
  selection : SamplingSelection
  interventions : List Nat
  interventionValues : List InterventionAssignment
  measured : List Nat
  availability : DistributionAvailability
  conditionedOn : List Nat
  snapshot : Option String
  canonicalIdentity : String

def CatalogDistribution.studyOrPopulation (d : CatalogDistribution) : String :=
  d.study.getD d.population

namespace EvidenceCatalog

/-- `transport_distribution.rs:91-113`. -/
def fromRegime (c : EvidenceCatalog) (r : EvidenceRegime) : CatalogDistribution where
  sourceRegime := r.id
  study := r.study
  population := r.population
  kind := r.kind
  evidenceKind := r.evidenceKind
  origin := r.origin
  selection := r.selection
  interventions := r.interventions
  interventionValues := r.interventionValues
  measured := r.measured
  availability := r.distribution
  conditionedOn := r.conditionedOn
  snapshot := (c.bindings.find? (·.regime = r.id)).map (·.snapshotIdentity)
  canonicalIdentity := r.canonicalIdentity

/-- `distributions` (`transport_distribution.rs:219-227`): in regime-id order, ties in catalog
order. -/
def distributions (c : EvidenceCatalog) : List CatalogDistribution :=
  (c.regimes.map c.fromRegime).insertionSort fun a b => a.sourceRegime ≤ b.sourceRegime

/-- `transport_distribution.rs:231-236`. -/
def distribution (c : EvidenceCatalog) (regime : Nat) : Option CatalogDistribution :=
  (c.regimes.find? (·.id = regime)).map c.fromRegime

theorem mem_distributions {c : EvidenceCatalog} {d : CatalogDistribution} :
    d ∈ c.distributions ↔ ∃ r ∈ c.regimes, c.fromRegime r = d := by
  unfold distributions
  rw [List.mem_insertionSort, List.mem_map]

end EvidenceCatalog

theorem mapM_ok {ε α β : Type} {f : α → Except ε β} : ∀ {l : List α} {out : List β},
    l.mapM f = .ok out → List.Forall₂ (fun a b => f a = .ok b) l out
  | [], out, h => by
    cases h
    exact .nil
  | a :: l, out, h => by
    rw [List.mapM_cons] at h
    obtain ⟨b, hb, h⟩ := bind_ok h
    obtain ⟨bs, hbs, h⟩ := bind_ok h
    cases h
    exact .cons hb (mapM_ok hbs)

theorem mapM_total {ε α β : Type} {f : α → Except ε β} : ∀ {l : List α},
    (∀ a ∈ l, ∃ b, f a = .ok b) → ∃ out, l.mapM f = .ok out
  | [], _ => ⟨[], rfl⟩
  | a :: l, h => by
    obtain ⟨b, hb⟩ := h a List.mem_cons_self
    obtain ⟨out, hout⟩ := mapM_total fun x hx => h x (List.mem_cons_of_mem _ hx)
    exact ⟨b :: out, by rw [List.mapM_cons, hb, hout]; rfl⟩

theorem mapM_ok_mem {ε α β : Type} {f : α → Except ε β} {l : List α} {out : List β}
    (h : l.mapM f = .ok out) {a : α} (ha : a ∈ l) : ∃ b ∈ out, f a = .ok b := by
  have hall := mapM_ok h
  clear h
  induction hall with
  | nil => exact absurd ha List.not_mem_nil
  | cons hab _ ih =>
    rcases List.mem_cons.mp ha with rfl | ha
    · exact ⟨_, List.mem_cons_self, hab⟩
    · obtain ⟨b, hb, hf⟩ := ih ha
      exact ⟨b, List.mem_cons_of_mem _ hb, hf⟩

theorem mapM_congr {m : Type → Type} [Monad m] [LawfulMonad m] {α β : Type} {f g : α → m β}
    {l : List α} (h : ∀ a ∈ l, f a = g a) : l.mapM f = l.mapM g := by
  induction l with
  | nil => rfl
  | cons a l ih =>
    rw [List.mapM_cons, List.mapM_cons, h a List.mem_cons_self,
      ih fun b hb => h b (List.mem_cons_of_mem a hb)]

variable {r : EvidenceRegime} {identities labels : List String} {domains : DeclaredDomains}
  {identities : List String}
  {domains : DeclaredDomains}
  {ids : List Nat} {c : EvidenceCatalog}

theorem EvidenceRegime.validate_id
    (h : r.validate identities domains labels ids = .ok ()) : r.id ∉ ids := by
  unfold EvidenceRegime.validate at h
  iterate 8 obtain ⟨-, -, h⟩ := bind_ok h
  simpa using require_ok h

theorem validateRegimes_ids :
    ∀ {rs : List EvidenceRegime} {labels : List String} {ids : List Nat},
      validateRegimes identities domains rs labels ids = .ok () →
      (rs.map (·.id)).Nodup ∧ ∀ r ∈ rs, r.id ∉ ids
  | [], _, _, _ => ⟨List.nodup_nil, fun _ h => absurd h List.not_mem_nil⟩
  | r :: rs, labels, ids, h => by
    unfold validateRegimes at h
    obtain ⟨_, hr, h⟩ := bind_ok h
    obtain ⟨hn, hout⟩ := validateRegimes_ids h
    refine ⟨List.nodup_cons.mpr ⟨?_, hn⟩, fun s hs => ?_⟩
    · intro hm
      obtain ⟨s, hs, he⟩ := List.mem_map.mp hm
      exact hout s hs (by rw [he]; simp)
    · rcases List.mem_cons.mp hs with rfl | hs
      · exact EvidenceRegime.validate_id hr
      · exact fun hm => hout s hs (List.mem_append_left _ hm)

/-- **In a catalog that validates the regime ids are distinct.** -/
theorem validate_ids (h : c.validate = .ok ()) :
    (c.regimes.map (·.id)).Nodup := by
  unfold EvidenceCatalog.validate at h
  obtain ⟨⟨identities, domains⟩, -, h⟩ := bind_ok h
  obtain ⟨_, h, -⟩ := bind_ok h
  exact (validateRegimes_ids h).1

theorem EvidenceRegime.tryNew_unique (h : r.tryNew = .ok ()) :
    r.interventions.Nodup ∧ r.measured.Nodup := by
  unfold EvidenceRegime.tryNew at h
  obtain ⟨-, -, h⟩ := bind_ok h
  obtain ⟨_, hd, h⟩ := bind_ok h
  obtain ⟨_, hm, -⟩ := bind_ok h
  exact ⟨of_decide_eq_true (require_ok hd), of_decide_eq_true (require_ok hm)⟩

theorem EvidenceRegime.tryNew_finite (h : r.tryNew = .ok ()) :
    ∀ a ∈ r.interventionValues, a.value.isFinite = true := by
  unfold EvidenceRegime.tryNew at h
  iterate 5 obtain ⟨-, -, h⟩ := bind_ok h
  have hreq : require ((r.interventionValues.map (·.var)).Nodup ∧
      r.interventionValues.all fun a => a.var ∈ r.interventions ∧ a.value.isFinite)
      "invalid or duplicate intervention assignment" = .ok () := by
    cases hd : r.distribution with
    | joint =>
      rw [hd] at h
      exact h
    | separateMarginals vars =>
      rw [hd] at h
      obtain ⟨_, -, h⟩ := bind_ok h
      obtain ⟨_, -, h⟩ := bind_ok h
      exact h
  intro a ha
  obtain ⟨-, hall⟩ := of_decide_eq_true (require_ok hreq)
  exact (of_decide_eq_true (List.all_eq_true.mp hall a ha)).2

theorem EvidenceRegime.validate_tryNew
    (h : r.validate identities domains labels ids = .ok ()) : r.tryNew = .ok () := by
  unfold EvidenceRegime.validate at h
  iterate 3 obtain ⟨-, -, h⟩ := bind_ok h
  obtain ⟨_, htry, -⟩ := bind_ok h
  exact htry

theorem validateRegimes_tryNew :
    ∀ {rs : List EvidenceRegime} {labels : List String} {ids : List Nat},
      validateRegimes identities domains rs labels ids = .ok () → ∀ r ∈ rs, r.tryNew = .ok ()
  | r :: rs, labels, ids, h, s, hs => by
    unfold validateRegimes at h
    obtain ⟨_, hr, h⟩ := bind_ok h
    obtain rfl | hs := List.mem_cons.mp hs
    · exact EvidenceRegime.validate_tryNew hr
    · exact validateRegimes_tryNew h s hs

theorem declaredEnvironments_check : ∀ {es : List Environment} {identities : List String}
    {domains : DeclaredDomains} {r : List String × DeclaredDomains},
    declaredEnvironments es identities domains = .ok r → ∀ e ∈ es, e.check = .ok ()
  | e :: es, identities, domains, r, h, e', he => by
    unfold declaredEnvironments at h
    obtain ⟨_, hcheck, h⟩ := bind_ok h
    obtain ⟨-, -, h⟩ := bind_ok h
    obtain ⟨_, -, h⟩ := bind_ok h
    obtain rfl | he := List.mem_cons.mp he
    · exact hcheck
    · exact declaredEnvironments_check h e' he

theorem Environment.check_cardinality {e : Environment} (h : e.check = .ok ()) :
    ∀ coordinate ∈ e.coordinates, coordinate.domain ≠ .categorical 0 := by
  unfold Environment.check at h
  obtain ⟨-, -, h⟩ := bind_ok h
  obtain ⟨_, hreq, -⟩ := bind_ok h
  exact fun x hx => of_decide_eq_true (List.all_eq_true.mp (require_ok hreq) x hx)

theorem validate_parts (h : c.validate = .ok ()) :
    (∀ e ∈ c.environments, e.check = .ok ()) ∧ ∀ r ∈ c.regimes, r.tryNew = .ok () := by
  unfold EvidenceCatalog.validate at h
  obtain ⟨⟨identities, domains⟩, henv, h⟩ := bind_ok h
  obtain ⟨_, hregimes, -⟩ := bind_ok h
  exact ⟨declaredEnvironments_check henv, validateRegimes_tryNew hregimes⟩
/-- **In a catalog that validates** no regime repeats a measured or an intervened variable. -/
theorem validate_unique (h : c.validate = .ok ()) :
    ∀ r ∈ c.regimes, r.interventions.Nodup ∧ r.measured.Nodup := fun r hr =>
  EvidenceRegime.tryNew_unique ((validate_parts h).2 r hr)

namespace EvidenceCatalog

variable {c : EvidenceCatalog} {d : CatalogDistribution}

theorem distribution_of_mem (h : c.validate = .ok ()) (hd : d ∈ c.distributions) :
    c.distribution d.sourceRegime = some d := by
  obtain ⟨r, hr, rfl⟩ := mem_distributions.mp hd
  unfold distribution
  cases hf : c.regimes.find? (·.id = (c.fromRegime r).sourceRegime) with
  | none =>
    have := List.find?_eq_none.mp hf r hr
    simp [fromRegime] at this
  | some r' =>
    have hfound := List.find?_some hf
    have hid : r'.id = r.id := of_decide_eq_true hfound
    rw [List.inj_on_of_nodup_map (validate_ids h) (List.mem_of_find?_eq_some hf) hr hid]
    rfl

theorem distributions_inj (h : c.validate = .ok ())
    {d' : CatalogDistribution} (hd : d ∈ c.distributions) (hd' : d' ∈ c.distributions)
    (he : d.sourceRegime = d'.sourceRegime) : d = d' := by
  have h1 := distribution_of_mem h hd
  rw [he, distribution_of_mem h hd'] at h1
  exact (Option.some.inj h1).symm

end EvidenceCatalog

end Antecedent.Core
