import Antecedent.Graph.Pag
import Antecedent.Graph.Pdag

/-!
# Temporal PAGs

Model of the storage half of `temporal_pag.rs` (lines 15-305): marked rows over lagged nodes. On top
of what a `Pag` checks, a directed edge may not point into the past, and a node takes no
contemporaneous edge to itself. The middle marks of LPCMCI are carried and not changed.
-/

namespace Antecedent.Graph

/-- Lines 16-20. -/
structure TemporalPag where
  nodes : List NodeRef
  adj : MarkedRows
  node_ids : nodes.length ≤ u32Max + 1
  stored : Stored nodes.length adj
  acyclic : DirAcyclic adj
  lagged : ∀ node ∈ nodes, node.isLagged = true

namespace TemporalPag

def empty : TemporalPag where
  nodes := []
  adj := []
  node_ids := noNodes_le
  stored := Stored.nil
  acyclic := DirAcyclic.nil
  lagged := fun _ h => absurd h List.not_mem_nil

def nodeCount (g : TemporalPag) : Nat := g.nodes.length

def checkDirection (nodes : List NodeRef) (edge : MarkedEdge) : Except GraphError Unit :=
  match edge.parentChild with
  | some (src, dst) => rejectFutureToPast nodes src dst
  | none => .ok ()

/-- Lines 92-113. -/
def insertMarked (g : TemporalPag) (edge : MarkedEdge) : Except GraphError TemporalPag :=
  if ha : edge.a < g.nodeCount then
    if hb : edge.b < g.nodeCount then
      if hne : edge.a = edge.b then .error (.invalidEndpoints "TemporalPag rejects self-loops")
      else
        match contemporaneousSelf g.nodes edge.a edge.b with
        | some v => .error (.contemporaneousSelfEdge v)
        | none =>
          match checkDirection g.nodes edge with
          | .error e => .error e
          | .ok () =>
            match hi : insertMarkedFinish g.adj edge with
            | .error e => .error e
            | .ok adj =>
              have h := insertMarkedFinish_ok g.stored g.acyclic ha hb hne hi
              .ok ⟨g.nodes, adj, g.node_ids, h.2.1, h.2.2.1, g.lagged⟩
    else .error (.unknownNode edge.b)
  else .error (.unknownNode edge.a)

/-- `TemporalPag::set_marks` (`temporal_pag.rs:219-236`): the graph the call leaves, and its
result. -/
def setMarks (g : TemporalPag) (a b : Nat) (atA atB : Endpoint) :
    TemporalPag × Except GraphError Unit :=
  if g.nodeCount ≤ a then (g, .error (.unknownNode a))
  else if g.nodeCount ≤ b then (g, .error (.unknownNode b))
  else
    match h : edgeBetween g.adj a b with
    | none => (g, .error (.unknownNode a))
    | some previous =>
      match checkDirection g.nodes ⟨a, b, atA, atB, previous.middle⟩ with
      | .error e => (g, .error e)
      | .ok () =>
        let r := setMarksFinish g.adj a b atA atB previous
        have hr := setMarksFinish_kept g.stored g.acyclic h atA atB
        (⟨g.nodes, r.1, g.node_ids, hr.1, hr.2, g.lagged⟩, r.2)

/-- Lines 243-245. -/
def markConflict (g : TemporalPag) (a b : Nat) : TemporalPag × Except GraphError Unit :=
  g.setMarks a b .conflict .conflict

/-- Lines 296-304. -/
def removeEdge (g : TemporalPag) (a b : Nat) : Except GraphError TemporalPag :=
  if g.nodeCount ≤ a then .error (.unknownNode a)
  else if g.nodeCount ≤ b then .error (.unknownNode b)
  else if (edgeBetween g.adj a b).isNone then .error (.unknownNode a)
  else
    .ok ⟨g.nodes, Graph.removeEdge g.adj a b, g.node_ids, removeEdge_stored g.stored a b,
      removeEdge_acyclic g.acyclic a b, g.lagged⟩

def look (g : TemporalPag) : Look := Graph.look g.adj

theorem mirrored (g : TemporalPag) : g.look.Mirrored := g.stored.mirrored

end TemporalPag

end Antecedent.Graph
