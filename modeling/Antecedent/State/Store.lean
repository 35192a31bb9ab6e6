import Antecedent.Contract.LedgerTypes
import Antecedent.Core.Recalc

/-!
# The stores of a causal state

Model of `store.rs`, `invalidation.rs` and the budget they share: the result cache, the records of the
queries, and the log of what became stale.

A `u64` is a `Nat`; where the source saturates, so do `satAdd` and the subtraction of `Nat`. A
`HashMap` is the list of its values, one for each key, read in an order of its own. A digest is
modelled by what it digests.
-/

namespace Antecedent.State

open Core Contract

/-- `error.rs`. -/
inductive StateError
  | unknownId (message : String)
  | shape (message : String)
  | cacheBudget (need remaining : Nat)
  | numerical (message : String)
  | staleCache (message : String)
  | invalidEvent (message : String)
  deriving DecidableEq

/-! ## The budget -/

/-- `u64::MAX`. -/
def u64Max : Nat := 18446744073709551615

/-- `u64::saturating_add`. -/
def satAdd (a b : Nat) : Nat := min (a + b) u64Max

/-- `execution.rs:158-189`. -/
structure CacheBudget where
  maxBytes : Nat
  usedBytes : Nat

namespace CacheBudget

def new (maxBytes : Nat) : CacheBudget := ⟨maxBytes, 0⟩

def remaining (b : CacheBudget) : Nat := b.maxBytes - b.usedBytes

def canAdmit (b : CacheBudget) (additional : Nat) : Bool :=
  decide (satAdd b.usedBytes additional ≤ b.maxBytes)

end CacheBudget

/-! ## Results -/

structure CachedResult where
  query : Nat
  fingerprint : Nat
  bytes : Nat
  computedAt : Nat

/-- `ResultStore`: one result for each key. -/
structure ResultStore where
  results : List CachedResult
  nodup : (results.map CachedResult.query).Nodup

namespace ResultStore

/-- `ResultStore::default`. -/
def empty : ResultStore := ⟨[], List.nodup_nil⟩

def get (s : ResultStore) (q : Nat) : Option CachedResult := s.results.find? fun r => r.query == q

/-- The results under other keys. -/
def without (s : ResultStore) (q : Nat) : ResultStore :=
  ⟨s.results.filter fun r => r.query != q, s.nodup.sublist (List.filter_sublist.map _)⟩

theorem notMem_without (s : ResultStore) (q : Nat) :
    q ∉ (s.without q).results.map CachedResult.query := by
  intro h
  obtain ⟨r, hr, rfl⟩ := List.mem_map.mp h
  exact bne_iff_ne.mp (List.mem_filter.mp hr).2 rfl

/-- `HashMap::insert`. -/
def put (s : ResultStore) (r : CachedResult) : ResultStore where
  results := r :: (s.without r.query).results
  nodup := List.nodup_cons.mpr ⟨s.notMem_without r.query, (s.without r.query).nodup⟩

/-- `store.rs:238-252`. -/
def insert (s : ResultStore) (result : CachedResult) (budget : CacheBudget) :
    Except StateError (ResultStore × CacheBudget) :=
  let oldBytes := ((s.get result.query).map CachedResult.bytes).getD 0
  let net := result.bytes - oldBytes
  if !budget.canAdmit net then .error (.cacheBudget net budget.remaining)
  else .ok (s.put result,
    { budget with usedBytes := satAdd (budget.usedBytes - oldBytes) result.bytes })

/-- `store.rs:255-259`. -/
def remove (s : ResultStore) (q : Nat) (budget : CacheBudget) : ResultStore × CacheBudget :=
  match s.get q with
  | some r => (s.without q, { budget with usedBytes := budget.usedBytes - r.bytes })
  | none => (s, budget)

end ResultStore

/-! ## What changed -/

/-- A part of a digest. -/
inductive DigestPart
  | u64 (n : Nat)
  | text (s : String)

/-- `StageIdentity::of`. -/
structure InputDigest where
  label : String
  parts : List DigestPart

/-- `ChangeKind::revalidation` (`recalc.rs:596-601`). -/
def changeRevalidation : ChangeKind → Revalidation
  | .removed => .withdrawn
  | .added | .modified => .recompute

def worst : Revalidation → Revalidation → Revalidation
  | .withdrawn, _ | _, .withdrawn => .withdrawn
  | .recompute, _ | _, .recompute => .recompute
  | .stillValid, .stillValid => .stillValid

/-- `invalidation.rs:17-25`. -/
structure ChangedInput where
  stage : Stage
  change : ChangeKind
  identity : InputDigest

def ChangedInput.revalidation (i : ChangedInput) : Revalidation := changeRevalidation i.change

/-- `invalidation.rs:37-55`. -/
inductive InvalidationTarget
  | queryResult (q : Nat)
  | model (m : Nat)
  | allResults
  | suffStat (key : String)
  | lagIndexes
  | graphScores
  | particleFilters
  | mechanismDiagnostics

structure InvalidationEntry where
  atVersion : Nat
  target : InvalidationTarget
  reason : String
  input : Option ChangedInput

def InvalidationEntry.revalidation (e : InvalidationEntry) : Revalidation :=
  match e.input with
  | none => .recompute
  | some i => i.revalidation

/-- Whether an entry is for the query or for all results. -/
def InvalidationEntry.concerns (e : InvalidationEntry) (q : Nat) : Bool :=
  match e.target with
  | .queryResult q' => q' == q
  | .allResults => true
  | _ => false

abbrev InvalidationLog := List InvalidationEntry

/-- `invalidation.rs:124-134`. -/
def revalidationSince (log : InvalidationLog) (q since : Nat) : Revalidation :=
  (log.filter fun e => decide (e.atVersion > since) && e.concerns q).foldl
    (fun c e => worst c e.revalidation) .stillValid

/-- `invalidation.rs:139-141`. -/
def queryStaleSince (log : InvalidationLog) (q since : Nat) : Bool :=
  revalidationSince log q since != .stillValid

/-! ## Queries -/

/-- `identity.rs:392-411`. -/
structure ContractIdentities where
  target : Nat
  identification : Nat
  identificationProduct : Option Nat
  program : Option Nat
  inferenceBinding : Nat
  observation : Nat
  dataSnapshot : Nat
  deriving DecidableEq

structure PublishedLineage where
  lineage : Nat
  dataSnapshot : Nat
  dataVersion : Nat
  identities : Option ContractIdentities

/-- `QueryRecord`; the query itself is not read. -/
structure QueryRecord where
  resultValidAt : Option Nat
  lastPublished : Option PublishedLineage
  pendingInputs : List ChangedInput

/-- `u32::MAX + 1`. -/
def queryIds : Nat := 4294967296

structure QueryStore where
  queries : Nat → Option QueryRecord
  nextId : Nat

namespace QueryStore

/-- `QueryStore::default`. -/
def empty : QueryStore := ⟨fun _ => none, 0⟩

/-- `QueryStore::register` (`store.rs:194-209`): the counter wraps. -/
def register (s : QueryStore) : QueryStore :=
  ⟨Function.update s.queries s.nextId (some ⟨none, none, []⟩), (s.nextId + 1) % queryIds⟩

def modify (s : QueryStore) (q : Nat) (f : QueryRecord → QueryRecord) : QueryStore :=
  { s with queries := Function.update s.queries q ((s.queries q).map f) }

end QueryStore

/-! ## Records -/

structure DataBatchRef where
  id : String
  nrows : Nat
  bytes : Nat
  deriving DecidableEq

structure GraphEvidenceRecord where
  id : String
  fingerprint : Nat
  bytes : Nat
  deriving DecidableEq

structure GraphConstraintRecord where
  id : String
  fingerprint : Nat
  deriving DecidableEq

structure InterventionRecord where
  id : String
  fingerprint : Nat
  deriving DecidableEq

end Antecedent.State
