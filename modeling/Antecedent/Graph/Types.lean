/-!
# Nodes, errors and edge marks

The vocabulary of `antecedent-graph`: `NodeRef` (`antecedent-core/src/node.rs`), `GraphError`
(`error.rs`) and the endpoint marks of `types.rs`. A `DenseNodeId` is a position in a node table,
a `u32` in the source and a `Nat` here; `u32Max` is where the constructors refuse a longer table.
-/

namespace Antecedent.Graph

/-- `u32::MAX`. -/
def u32Max : Nat := 4294967295

/-- `NodeRef` (`node.rs:11-39`); variables, lags and environments are `u32` handles. -/
inductive NodeRef
  | static (var : Nat)
  | lagged (var lag : Nat)
  | unfolded (var : Nat) (offset : Int)
  | context (var : Nat) (environment : Option Nat)
  deriving DecidableEq

def NodeRef.isStaticGraphNode : NodeRef → Bool
  | .static _ => true
  | .unfolded _ _ => true
  | .lagged _ _ => false
  | .context _ _ => false

/-- `GraphError` (`error.rs`), the variants the modelled functions return. -/
inductive GraphError
  | unknownNode (id : Nat)
  | cycle (src dst : Nat)
  | invalidEndpoints (message : String)
  | contemporaneousSelfEdge (var : Nat)
  | duplicateEdge (src dst : Nat)
  | futureToPast (src dst srcLag dstLag : Nat)
  | tooManyNodes
  | searchBudgetExhausted (maxPaths maxLen : Nat)
  | separationUndetermined
  deriving DecidableEq

/-- `types.rs:66-78`. -/
inductive Endpoint
  | tail
  | arrow
  | circle
  | conflict
  deriving DecidableEq

/-- `types.rs:83-96`. -/
inductive MiddleMark
  | unknown
  | left
  | right
  | both
  | empty
  deriving DecidableEq

/-- `types.rs:123-135`. -/
structure MarkedEdge where
  a : Nat
  b : Nat
  atA : Endpoint
  atB : Endpoint
  middle : MiddleMark
  deriving DecidableEq

namespace MarkedEdge

/-- `MarkedEdge::directed`: tail at `src`, arrow at `dst`. -/
def directed (src dst : Nat) : MarkedEdge := ⟨src, dst, .tail, .arrow, .empty⟩

/-- `MarkedEdge::undirected`: tail at both ends, the smaller node first. -/
def undirected (a b : Nat) : MarkedEdge :=
  if a ≤ b then ⟨a, b, .tail, .tail, .empty⟩ else ⟨b, a, .tail, .tail, .empty⟩

/-- `MarkedEdge::bidirected`: arrow at both ends, the smaller node first. -/
def bidirected (a b : Nat) : MarkedEdge :=
  if a ≤ b then ⟨a, b, .arrow, .arrow, .empty⟩ else ⟨b, a, .arrow, .arrow, .empty⟩

/-- `MarkedEdge::is_undirected`: tail at both ends. -/
def isUndirected (e : MarkedEdge) : Bool :=
  match e.atA, e.atB with
  | .tail, .tail => true
  | _, _ => false

def isConflict (e : MarkedEdge) : Bool :=
  match e.atA, e.atB with
  | .conflict, .conflict => true
  | _, _ => false

/-- `types.rs:232-239`. -/
def isCpdagLegal (e : MarkedEdge) : Bool :=
  match e.atA, e.atB with
  | .tail, .arrow => true
  | .tail, .tail => true
  | .arrow, .tail => true
  | .conflict, .conflict => true
  | _, _ => false

/-- `types.rs:252-258`. -/
def parentChild (e : MarkedEdge) : Option (Nat × Nat) :=
  match e.atA, e.atB with
  | .tail, .arrow => some (e.a, e.b)
  | .arrow, .tail => some (e.b, e.a)
  | _, _ => none

end MarkedEdge

end Antecedent.Graph
