import Antecedent.Discovery.Pc
import Antecedent.Graph.Pag
import Antecedent.Graph.Validate
import Antecedent.Io.Error

/-!
# Wire forms of graphs

Model of the graph encoders and decoders of `antecedent-io-core` (`convert.rs:188-368`) and of the
wire types they speak (`wire.rs:212-288`). A decoder builds `with_variables(node_count)` and inserts
the listed edges one by one; no encoder looks at the node table, and none writes a middle mark.

A `u32` of a wire value is a `Nat` here. A counter past `u32::MAX` is past the decoder's limit too.
-/

namespace Antecedent.Io

open Graph

/-- `MAX_GRAPH_NODES` (`convert.rs:27`). -/
def maxGraphNodes : Nat := 100000

/-- `MAX_GRAPH_EDGES` (`convert.rs:30`). -/
def maxGraphEdges : Nat := 1000000

/-- `convert.rs:33-45`. -/
def checkGraphBudget (nodeCount edgeCount : Nat) : Except IoError Unit :=
  if maxGraphNodes < nodeCount then
    .error (.convert s!"node_count {nodeCount} exceeds the maximum of {maxGraphNodes}")
  else if maxGraphEdges < edgeCount then
    .error (.convert s!"edge count {edgeCount} exceeds the maximum of {maxGraphEdges}")
  else .ok ()

/-- `u32::try_from(..).map_err(|_| IoError::TooLarge)`. -/
def countToWire (n : Nat) : Except IoError Nat := if n ≤ u32Max then .ok n else .error .tooLarge

/-! ## Wire types -/

structure DagWire where
  nodeCount : Nat
  edges : List (Nat × Nat)

inductive EndpointWire
  | tail
  | arrow
  | circle
  | conflict

structure MarkedEdgeWire where
  a : Nat
  b : Nat
  atA : EndpointWire
  atB : EndpointWire

structure PagWire where
  nodeCount : Nat
  edges : List MarkedEdgeWire

structure GraphCpdagWire where
  nodeCount : Nat
  directed : List (Nat × Nat)
  undirected : List (Nat × Nat)

structure AdmgWire where
  nodeCount : Nat
  directed : List (Nat × Nat)
  bidirected : List (Nat × Nat)

/-! ## DAGs -/

/-- `directed.rs:117-122`. -/
def markedEdges (c : DirectedCore) : List MarkedEdge :=
  (List.range c.children.length).flatMap fun src => (row c.children src).map (.directed src)

/-- One edge of `dag_to_wire`. -/
def directedPair (e : MarkedEdge) : Except IoError (Nat × Nat) :=
  match e.parentChild with
  | some pair => .ok pair
  | none => .error (.convert "non-directed edge in DAG wire encoding")

/-- `convert.rs:188-198`. -/
def dagToWire (dag : Graph.Dag) : Except IoError DagWire := do
  let nodeCount ← countToWire dag.nodeCount
  let edges ← (markedEdges dag.directed).mapM directedPair
  .ok ⟨nodeCount, edges⟩

/-- `convert.rs:205-214`. -/
def dagFromWire (wire : DagWire) : Except IoError Graph.Dag := do
  checkGraphBudget wire.nodeCount wire.edges.length
  let dag ← wire.edges.foldlM (fun (dag : Graph.Dag) e => converted (dag.insertDirected e.1 e.2))
    (Dag.withVariables wire.nodeCount)
  converted dag.validate
  .ok dag

/-! ## PAGs -/

def endpointToWire : Endpoint → EndpointWire
  | .tail => .tail
  | .arrow => .arrow
  | .circle => .circle
  | .conflict => .conflict

def endpointFromWire : EndpointWire → Endpoint
  | .tail => .tail
  | .arrow => .arrow
  | .circle => .circle
  | .conflict => .conflict

/-- The edges of `pag_to_wire` from `a`: those to a later node. -/
def pagRowToWire (pag : Pag) (a : Nat) : List MarkedEdgeWire :=
  ((pag.neighbors a).filter fun e => a < e.1).map fun e =>
    ⟨a, e.1, endpointToWire e.2.1, endpointToWire e.2.2⟩

/-- The edges `pag_to_wire` lists. -/
def pagEdgesToWire (pag : Pag) : List MarkedEdgeWire :=
  (List.range pag.nodeCount).flatMap (pagRowToWire pag)

/-- `convert.rs:239-256`. -/
def pagToWire (pag : Pag) : Except IoError PagWire := do
  let nodeCount ← countToWire pag.nodeCount
  .ok ⟨nodeCount, pagEdgesToWire pag⟩

/-- The edge `pag_from_wire` inserts. -/
def markedFromWire (e : MarkedEdgeWire) : MarkedEdge :=
  ⟨e.a, e.b, endpointFromWire e.atA, endpointFromWire e.atB, .empty⟩

/-- `convert.rs:263-277`. -/
def pagFromWire (wire : PagWire) : Except IoError Pag := do
  checkGraphBudget wire.nodeCount wire.edges.length
  wire.edges.foldlM (fun (pag : Pag) e => converted (pag.insertMarked (markedFromWire e)))
    (Pag.withVariables wire.nodeCount)

/-! ## CPDAGs -/

/-- `Debug` of an `Endpoint`. -/
def debugEndpoint : Endpoint → String
  | .tail => "Tail"
  | .arrow => "Arrow"
  | .circle => "Circle"
  | .conflict => "Conflict"

/-- The refusal of `cpdag_to_wire`. -/
def cpdagRefusal (e : MarkedEdge) : IoError :=
  .convert ("CPDAG wire encoding rejects non-directed/undirected edge (" ++ debugEndpoint e.atA ++
    ", " ++ debugEndpoint e.atB ++ ")")

/-- One edge of `cpdag_to_wire`, behind the directed and undirected pairs so far. -/
def pushCpdagEdge (lists : List (Nat × Nat) × List (Nat × Nat)) (e : MarkedEdge) :
    Except IoError (List (Nat × Nat) × List (Nat × Nat)) :=
  match e.parentChild with
  | some pair => .ok (lists.1 ++ [pair], lists.2)
  | none =>
    if e.isUndirected = true then
      .ok (lists.1, lists.2 ++ [if e.a ≤ e.b then (e.a, e.b) else (e.b, e.a)])
    else .error (cpdagRefusal e)

/-- `convert.rs:284-306`. -/
def cpdagToWire (cpdag : Cpdag) : Except IoError GraphCpdagWire := do
  let nodeCount ← countToWire cpdag.nodeCount
  let lists ← cpdag.edges.foldlM pushCpdagEdge ([], [])
  .ok ⟨nodeCount, lists.1, lists.2⟩

/-- `cpdag_from_wire` (`convert.rs:313-325`). The sum of the two lengths saturates in the source,
which is past the limit either way. -/
def cpdagFromWire (wire : GraphCpdagWire) : Except IoError Cpdag := do
  checkGraphBudget wire.nodeCount (wire.directed.length + wire.undirected.length)
  let g ← wire.directed.foldlM (fun (g : Cpdag) e => converted (g.insertDirected e.1 e.2))
    (Discovery.withVariables wire.nodeCount)
  wire.undirected.foldlM (fun (g : Cpdag) e => converted (g.insertUndirected e.1 e.2)) g

/-! ## ADMGs -/

/-- The pairs `admg_to_wire` lists as directed. -/
def directedPairs (admg : Admg) : List (Nat × Nat) :=
  (List.range admg.nodeCount).flatMap fun src => (admg.children src).map fun dst => (src, dst)

/-- The pairs `admg_to_wire` lists as bidirected. -/
def bidirectedPairs (admg : Admg) : List (Nat × Nat) :=
  (List.range admg.nodeCount).flatMap fun src =>
    ((admg.bidirectedNeighbors src).filter fun nbr => src < nbr).map fun nbr => (src, nbr)

/-- `convert.rs:332-348`. -/
def admgToWire (admg : Admg) : Except IoError AdmgWire := do
  let nodeCount ← countToWire admg.nodeCount
  .ok ⟨nodeCount, directedPairs admg, bidirectedPairs admg⟩

/-- `convert.rs:355-368`. -/
def admgFromWire (wire : AdmgWire) : Except IoError Admg := do
  checkGraphBudget wire.nodeCount (wire.directed.length + wire.bidirected.length)
  let g ← wire.directed.foldlM (fun (g : Admg) e => converted (g.insertDirected e.1 e.2))
    (Admg.withVariables wire.nodeCount)
  let g ← wire.bidirected.foldlM (fun (g : Admg) e => converted (g.insertBidirected e.1 e.2)) g
  converted g.validate
  .ok g

end Antecedent.Io
