import Antecedent.Graph.Types
import Antecedent.State.Store

/-!
# Discovery constraints and background knowledge

Model of `constraints.rs`: the statements an analyst makes about the graph, what they say of a
contemporaneous pair, and the checks that admit them.

A `VariableId` and a `Lag` are `u32` handles, `Nat` here. The temporal window enters through the two
lags it is made of; the CI significance method, the masks and the vector groups are used only by code
that is not modelled.
-/

namespace Antecedent.Discovery

open Graph Antecedent.State

/-- `result.rs`. -/
structure LaggedLink where
  source : Nat
  sourceLag : Nat
  target : Nat
  targetLag : Nat
  deriving DecidableEq

inductive ContextKind
  | space
  | time

inductive JpcmciNodeRole
  | system
  | spaceContext
  | timeContext
  | spaceDummy
  | timeDummy

namespace JpcmciNodeRole

def isObservedContext : JpcmciNodeRole → Bool
  | spaceContext | timeContext => true
  | _ => false

def isDummy : JpcmciNodeRole → Bool
  | spaceDummy | timeDummy => true
  | _ => false

def isExogenous (r : JpcmciNodeRole) : Bool := r.isObservedContext || r.isDummy

def allowsLaggedAsSource : JpcmciNodeRole → Bool
  | system | timeContext => true
  | _ => false

end JpcmciNodeRole

/-- `MultiDatasetConstraints` (`constraints.rs:184-217`), the node roles. -/
structure MultiDatasetConstraints where
  contextVariables : List Nat
  contextKinds : List (Nat × ContextKind)
  spaceDummyVariables : List Nat
  timeDummyVariables : List Nat

namespace MultiDatasetConstraints

def default : MultiDatasetConstraints := ⟨[], [], [], []⟩

variable (m : MultiDatasetConstraints)

def isContext (v : Nat) : Bool := m.contextVariables.any (· == v)

def contextKind (v : Nat) : ContextKind :=
  match m.contextKinds.find? (·.1 == v) with
  | some (_, k) => k
  | none => .space

def roleOf (v : Nat) : JpcmciNodeRole :=
  if m.spaceDummyVariables.any (· == v) then .spaceDummy
  else if m.timeDummyVariables.any (· == v) then .timeDummy
  else if m.isContext v then
    match m.contextKind v with
    | .space => .spaceContext
    | .time => .timeContext
  else .system

/-- Lines 274-298. -/
def guntherForbids (link : LaggedLink) : Bool :=
  let src := m.roleOf link.source
  let tgt := m.roleOf link.target
  if tgt.isExogenous then true
  else if src.isExogenous && tgt.isExogenous then true
  else src.isExogenous && decide (link.sourceLag > 0) && !src.allowsLaggedAsSource

end MultiDatasetConstraints

inductive KnowledgeScope
  | equivalenceClass
  | scoreSearch
  | lagged

inductive KnowledgeFault
  | contradictory (message : String)
  | unknownVariable (message : String)
  | notApplicable (message : String)
  deriving DecidableEq

/-- `DiscoveryError`, the variants the modelled searches return. -/
inductive DiscoveryError
  | data (message : String)
  | stats (message : String)
  | unsupported (message : String)
  | graph (e : GraphError)
  | orientation (message : String)
  | knowledge (fault : KnowledgeFault)
  | state (e : StateError)
  | resource (message : String)
  | cancelled
  deriving DecidableEq

def describeLink (l : LaggedLink) : String :=
  s!"variable {l.source} at lag {l.sourceLag} -> variable {l.target} at lag {l.targetLag}"

/-! ## Directed cycles of the required links -/

/-- The state of `has_directed_cycle` between two pops. -/
structure CycleSweep where
  inDegree : Nat → Nat
  ready : List Nat
  removed : Nat

def CycleSweep.drop (node : Nat) (s : CycleSweep) (e : Nat × Nat) : CycleSweep :=
  if e.1 = node then
    { s with
      inDegree := Function.update s.inDegree e.2 (s.inDegree e.2 - 1)
      ready := if s.inDegree e.2 - 1 = 0 then e.2 :: s.ready else s.ready }
  else s

/-- The loop of `has_directed_cycle`; the fuel bounds the pops, and the list of ready nodes is kept
with its last element first. -/
def cycleSweep (edges : List (Nat × Nat)) : Nat → CycleSweep → CycleSweep
  | 0, s => s
  | fuel + 1, s =>
    match s.ready with
    | [] => s
    | node :: rest =>
      cycleSweep edges fuel (edges.foldl (.drop node) ⟨s.inDegree, rest, s.removed + 1⟩)

def edgeNodes (edges : List (Nat × Nat)) : List Nat :=
  (edges.flatMap fun e => [e.1, e.2]).dedup.insertionSort (· ≤ ·)

/-- Lines 357-379. -/
def hasDirectedCycle (edges : List (Nat × Nat)) : Bool :=
  let nodes := edgeNodes edges
  let degree := fun v => edges.countP fun e => e.2 == v
  let start : CycleSweep := ⟨degree, (nodes.filter fun v => degree v == 0).reverse, 0⟩
  decide ((cycleSweep edges (nodes.length + 1) start).removed < nodes.length)

/-! ## The constraints -/

/-- Lines 438-466. -/
structure DiscoveryConstraints where
  required : List LaggedLink
  forbidden : List LaggedLink
  tiers : List (List Nat)
  maxParents : Option Nat
  minLag : Nat
  maxLag : Nat
  maxCondSize : Nat
  alpha : ℚ
  multiDataset : MultiDatasetConstraints

structure FixedDirection where
  src : Nat
  dst : Nat
  required : Bool

def contempLink (source target : Nat) : LaggedLink := ⟨source, 0, target, 0⟩

namespace DiscoveryConstraints

variable (k : DiscoveryConstraints)

def tierOf (v : Nat) : Option Nat :=
  if k.tiers.isEmpty then none else k.tiers.findIdx? fun tier => tier.any (· == v)

def tierForbids (src target : Nat) : Bool :=
  match k.tierOf src, k.tierOf target with
  | some ts, some tt => decide (ts > tt)
  | _, _ => false

def isForbidden (link : LaggedLink) : Bool :=
  k.forbidden.any (· == link) || k.tierForbids link.source link.target ||
    k.multiDataset.guntherForbids link

def isRequired (link : LaggedLink) : Bool := k.required.any (· == link)

def staticForbidden (a b : Nat) : Bool :=
  k.isForbidden (contempLink a b) && k.isForbidden (contempLink b a)

def staticRequired (a b : Nat) : Bool :=
  k.isRequired (contempLink a b) || k.isRequired (contempLink b a)

/-- Lines 676-690. -/
def staticDirection (a b : Nat) : Option FixedDirection :=
  if k.isRequired (contempLink a b) then some ⟨a, b, true⟩
  else if k.isRequired (contempLink b a) then some ⟨b, a, true⟩
  else
    match k.isForbidden (contempLink a b), k.isForbidden (contempLink b a) with
    | false, true => some ⟨a, b, false⟩
    | true, false => some ⟨b, a, false⟩
    | _, _ => none

def hasDirectionalKnowledge : Bool :=
  !k.required.isEmpty || !k.forbidden.isEmpty || !k.tiers.isEmpty

/-- Lines 729-751. -/
def checkConsistency : Except KnowledgeFault Unit :=
  match k.required.find? k.isForbidden with
  | some r => .error (.contradictory
      ("required link " ++ describeLink r ++ " is also forbidden, directly or by the tiers"))
  | none =>
    if hasDirectedCycle ((k.required.filter fun r => r.sourceLag == 0 && r.targetLag == 0).map
        fun r => (r.source, r.target)) then
      .error (.contradictory ("the required contemporaneous links form a directed cycle " ++
        "(a variable would cause itself)"))
    else .ok ()

/-- Lines 715-726. -/
def validate : Except DiscoveryError Unit :=
  match k.checkConsistency with
  | .error fault => .error (.knowledge fault)
  | .ok () =>
    if k.required.any fun r =>
        k.multiDataset.isContext r.source && k.multiDataset.isContext r.target then
      .error (.unsupported "required context→context lagged links are unsupported")
    else .ok ()

def unknownIn (links : List LaggedLink) (vars : List Nat) : Option (LaggedLink × Nat) :=
  (links.flatMap fun l => [(l, l.source), (l, l.target)]).find? fun p => !vars.contains p.2

def unknownLink (what : String) (p : LaggedLink × Nat) : KnowledgeFault :=
  .unknownVariable ("the " ++ what ++ " link " ++ describeLink p.1 ++ " names variable " ++
    toString p.2 ++ ", which is not searched")

/-- A link between two times. -/
def isLagged (l : LaggedLink) : Bool := l.sourceLag != 0 || l.targetLag != 0

/-- The complaint about a lagged link in a search without lags. -/
def laggedLink (what : String) (l : LaggedLink) : KnowledgeFault :=
  .notApplicable ("the " ++ what ++ " link " ++ describeLink l ++
    " is lagged, but a search over a table has no lags")

/-- The statements have a meaning for a search of the given kind. -/
def checkScope : KnowledgeScope → Except KnowledgeFault Unit
  | .equivalenceClass | .scoreSearch =>
    match k.required.find? isLagged with
    | some l => .error (laggedLink "required" l)
    | none =>
      match k.forbidden.find? isLagged with
      | some l => .error (laggedLink "forbidden" l)
      | none => .ok ()
  | .lagged =>
    match k.required.find? fun l =>
        l.targetLag != 0 || decide (l.sourceLag < k.minLag) || decide (l.sourceLag > k.maxLag) with
    | some l => .error (.notApplicable ("the required link " ++ describeLink l ++
        " lies outside the searched lag window " ++ toString k.minLag ++ "..=" ++
        toString k.maxLag ++ " at the target's own time, so it could never be honoured; widen " ++
        "the window or drop the link"))
    | none => .ok ()

/-- Lines 766-825. -/
def checkBackgroundKnowledge (scope : KnowledgeScope) (vars : List Nat) :
    Except KnowledgeFault Unit := do
  k.checkConsistency
  match unknownIn k.required vars with
  | some p => .error (unknownLink "required" p)
  | none => .ok ()
  match unknownIn k.forbidden vars with
  | some p => .error (unknownLink "forbidden" p)
  | none => .ok ()
  match k.tiers.findSome? fun tier => tier.find? fun v => !vars.contains v with
  | some v => .error (.unknownVariable ("a tier names variable " ++ toString v ++
      ", which is not searched"))
  | none => .ok ()
  k.checkScope scope

/-- Nothing is stated about the graph. -/
structure NoKnowledge : Prop where
  required : k.required = []
  forbidden : k.forbidden = []
  tiers : k.tiers = []
  multiDataset : k.multiDataset = .default

end DiscoveryConstraints

end Antecedent.Discovery
