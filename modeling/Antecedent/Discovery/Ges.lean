import Antecedent.Discovery.Pc

/-!
# Greedy equivalence search

Model of `ges.rs`: the operators on a CPDAG with their validity tests and score differences, the search
for the best one, the completion of a changed graph (`pdag_to_dag`, `dag_to_cpdag`), and the phases of
`Ges::run`.

* The score is a parameter: what `LocalScoreCache` computes for a node and an ascending list of parents.
  Its tables and the table of differences only remember what they computed.
* Scores are exact, over an ordered group. A difference still has the two infinities and the undefined
  sum that a degenerate fit brings into floating point (`Delta`).
* The loops of the phases have no bound in the source; here they take `fuel`, and `none` says that it
  ran out.
-/

namespace Antecedent.Discovery

open Graph Antecedent.State Worklist

/-! ## Scores -/

/-- `LocalScoreCache::local_score`. -/
abbrev LocalScore (S : Type) := Nat → List Nat → Except StateError S

/-- A score difference, a floating-point number in the source. -/
inductive Delta (S : Type)
  | nan
  | negInf
  | fin (s : S)
  | posInf

namespace Delta

variable {S : Type} [AddCommGroup S] [LinearOrder S]

/-- `self > other`. -/
def gt : Delta S → Delta S → Bool
  | nan, _ | _, nan | negInf, _ => false
  | fin _, negInf => true
  | fin a, fin b => decide (a > b)
  | fin _, posInf => false
  | posInf, posInf => false
  | posInf, _ => true

/-- `self <= 0.0`. -/
def leZero : Delta S → Bool
  | negInf => true
  | fin a => decide (a ≤ 0)
  | nan | posInf => false

/-- `self + other`. -/
def add : Delta S → Delta S → Delta S
  | nan, _ | _, nan | negInf, posInf | posInf, negInf => nan
  | negInf, _ | _, negInf => negInf
  | posInf, _ | _, posInf => posInf
  | fin a, fin b => fin (a + b)

end Delta

/-- Whether a failure is a degenerate fit (`message.contains("degenerate")`). -/
def isDegenerate : StateError → Bool
  | .numerical message => decide ((message.splitOn "degenerate").length > 1)
  | _ => false

section Delta

variable {S : Type} [AddCommGroup S] (score : LocalScore S)

/-- `local_score_or_degenerate` (`ges.rs:691-706`): `none` is `−∞`. -/
def localScoreOrDegenerate (node : Nat) (parents : List Nat) : Except DiscoveryError (Option S) :=
  match score node parents with
  | .ok s => .ok (some s)
  | .error e => if isDegenerate e then .ok none else .error (.state e)

/-- Lines 710-718. -/
def operatorDelta (old new : Option S) : Delta S :=
  match new, old with
  | none, _ => .negInf
  | some _, none => .posInf
  | some n, some o => .fin (n - o)

/-- Lines 668-686. -/
def cachedOperatorDelta (node : Nat) (oldParents newParents : List Nat) :
    Except DiscoveryError (Delta S) := do
  let old ← localScoreOrDegenerate score node oldParents
  let new ← localScoreOrDegenerate score node newParents
  return operatorDelta old new

end Delta

/-! ## The operators -/

/-- `sort_unstable` and `dedup`. -/
def sortDedup (l : List Nat) : List Nat := (l.insertionSort (· ≤ ·)).dedup

/-- Lines 480-485. -/
def naYx (g : Cpdag) (y x : Nat) : List Nat :=
  ((g.undirectedNeighbors y).filter fun n => g.hasEdge n x).insertionSort (· ≤ ·)

def isClique (g : Cpdag) (nodes : List Nat) : Bool :=
  (pairsOf nodes).all fun p => g.hasEdge p.1 p.2

/-- `semi_directed_reaches_avoiding` (`ges.rs:499-538`). A step may enter `dst` even when it is to be
avoided. -/
def semiDirectedReachesAvoiding (g : Cpdag) (src dst : Nat) (avoid : List Nat) : Bool :=
  if src = dst then true
  else search
    (fun u => (g.children u ++ g.undirectedNeighbors u).filter fun v => !avoid.contains v)
    (fun u => (g.children u).contains dst || (g.undirectedNeighbors u).contains dst)
    (g.nodeCount + 1) [src]

/-- Lines 540-553. -/
def insertValid (g : Cpdag) (x y : Nat) (t : List Nat) : Bool :=
  if g.hasEdge x y || x == y then false
  else
    let cliqueNodes := naYx g y x ++ t
    isClique g cliqueNodes && !semiDirectedReachesAvoiding g y x cliqueNodes

/-- Lines 555-576. -/
def deleteValid (g : Cpdag) (x y : Nat) (h : List Nat) : Bool :=
  match g.edgeBetween x y with
  | none => false
  | some e =>
    if !(e.parentChild == some (x, y)) && !e.isUndirected then false
    else
      let na := naYx g y x
      if h.any fun n => !na.contains n then false
      else isClique g (na.filter fun n => !h.contains n)

def parentsU32 (g : Cpdag) (y : Nat) : List Nat := (g.parents y).insertionSort (· ≤ ·)

/-- Lines 582-597. -/
def insertScoredParents (g : Cpdag) (x y : Nat) (t : List Nat) : Nat :=
  (sortDedup (parentsU32 g y ++ naYx g y x ++ t ++ [x])).length

section Score

variable {S : Type} [AddCommGroup S] (score : LocalScore S)

/-- Lines 606-629. -/
def insertDelta (g : Cpdag) (x y : Nat) (t : List Nat) : Except DiscoveryError (Delta S) :=
  let base := sortDedup (parentsU32 g y ++ naYx g y x ++ t)
  cachedOperatorDelta score y base (sortDedup (base ++ [x]))

/-- Lines 631-661. -/
def deleteDelta (g : Cpdag) (x y : Nat) (h : List Nat) : Except DiscoveryError (Delta S) :=
  let naRest := (naYx g y x).filter fun n => !h.contains n
  let pa := parentsU32 g y
  cachedOperatorDelta score y (sortDedup (pa ++ [x] ++ naRest))
    (sortDedup ((pa.filter fun p => p != x) ++ naRest))

end Score

/-- `for_each_subset` (`ges.rs:720-729`): the subsets of at most `maxK` items, smaller ones first. -/
def forEachSubset (items : List Nat) (maxK : Nat) : List (List Nat) :=
  (List.range (min items.length maxK + 1)).flatMap (combinations items)

/-! ## Completing a changed graph -/

/-- The test of `pdag_to_dag` on a node, among the nodes that remain (`ges.rs:985-1018`). -/
def isSink (work : Cpdag) (remaining : List Nat) (x : Nat) : Bool :=
  if (work.children x).any fun c => remaining.contains c then false
  else
    let remainingUndirected := (work.undirectedNeighbors x).filter fun n => remaining.contains n
    let adjacent := sortDedup (((work.parents x).filter fun p => remaining.contains p) ++
      remainingUndirected)
    remainingUndirected.all fun u => adjacent.all fun z => !(z != u && !work.hasEdge u z)

/-- The edges between a chosen node and what remains are directed into it; an edge the DAG refuses is
left out. -/
def sinkEdge (remaining : List Nat) (x : Nat) (s : Cpdag × Graph.Dag) (n : Nat) :
    Except DiscoveryError (Cpdag × Graph.Dag) :=
  if remaining.contains n then do
    let work ← liftGraph (s.1.orientUndirected n x)
    return (work, match s.2.insertDirected n x with
      | .ok dag => dag
      | .error _ => s.2)
  else .ok s

/-- The loop of `pdag_to_dag`. The remaining nodes are kept in ascending order; each turn takes one out. -/
def sinkLoop : Nat → Cpdag → Graph.Dag → List Nat → Except DiscoveryError Graph.Dag
  | 0, _, dag, _ => .ok dag
  | fuel + 1, work, dag, remaining =>
    if remaining.isEmpty then .ok dag
    else
      match remaining.find? (isSink work remaining) with
      | none => .error (.unsupported "GES PDAG has no consistent DAG extension")
      | some x => do
        let (work, dag) ← ((work.undirectedNeighbors x).insertionSort (· ≤ ·)).foldlM
          (sinkEdge remaining x) (work, dag)
        sinkLoop fuel work dag (remaining.erase x)

/-- Lines 961-1035. -/
def pdagToDag (pdag : Cpdag) : Except DiscoveryError Graph.Dag := do
  let dag ← pdag.nodes.foldlM (fun (dag : Graph.Dag) node => do
    let (dag, _) ← liftGraph (dag.addNode node)
    return dag) .empty
  let dag := pdag.edges.foldl (fun dag e => match e.parentChild with
    | some (src, dst) => match dag.insertDirected src dst with
      | .ok dag => dag
      | .error _ => dag
    | none => dag) dag
  sinkLoop pdag.nodeCount pdag dag (List.range pdag.nodeCount)

/-- `Dag::edges`. -/
def dagEdges (dag : Graph.Dag) : List (Nat × Nat) :=
  (List.range dag.nodeCount).flatMap fun u => (dag.children u).map (u, ·)

/-- `DagEdgeHelpers::has_edge`. -/
def dagHasEdge (dag : Graph.Dag) (a b : Nat) : Bool :=
  (dag.children a).contains b || (dag.children b).contains a

/-- Direct `p → z` where the edge is undirected. -/
def orientIfUndirected (g : Cpdag) (p z : Nat) : Except DiscoveryError Cpdag :=
  if (g.edgeBetween p z).any MarkedEdge.isUndirected then liftGraph (g.orientUndirected p z)
  else .ok g

/-- The unshielded colliders of a DAG at `z` (`ges.rs:1053-1074`). -/
def orientCollidersAt (dag : Graph.Dag) (g : Cpdag) (z : Nat) : Except DiscoveryError Cpdag :=
  (pairsOf (dag.parents z)).foldlM (fun g pq =>
    if !dagHasEdge dag pq.1 pq.2 && !dagHasEdge dag pq.2 pq.1 then do
      let g ← orientIfUndirected g pq.1 z
      orientIfUndirected g pq.2 z
    else .ok g) g

/-- Lines 1038-1082. -/
def dagToCpdag (dag : Graph.Dag) : Except DiscoveryError Cpdag := do
  let g ← dag.nodes.foldlM (fun (g : Cpdag) node => do
    let (g, _) ← liftGraph (g.addNode node)
    return g) .empty
  let g ← (dagEdges dag).foldlM (fun (g : Cpdag) e =>
    if !g.hasEdge e.1 e.2 then liftGraph (g.insertUndirected e.1 e.2) else .ok g) g
  let g ← (List.range dag.nodeCount).foldlM (orientCollidersAt dag) g
  let ((g, _), _) ← liftOrientation (runOrientationToFixedPoint meekRules g .empty)
  return g

/-- A changed graph becomes the CPDAG of one of its extensions. -/
def complete (g : Cpdag) : Except DiscoveryError Cpdag := do
  let dag ← pdagToDag g
  dagToCpdag dag

/-- Lines 914-932. -/
def applyInsert (g : Cpdag) (x y : Nat) (t : List Nat) : Except DiscoveryError Cpdag := do
  let g ← liftGraph (g.insertDirected x y)
  let g ← t.foldlM (fun g ti => orientIfUndirected g ti y) g
  complete g

/-- Lines 934-958. -/
def applyDelete (g : Cpdag) (x y : Nat) (h : List Nat) : Except DiscoveryError Cpdag := do
  let g ← liftGraph (g.removeEdge x y)
  let g ← h.foldlM (fun g hi => do
    let g ← orientIfUndirected g y hi
    orientIfUndirected g x hi) g
  complete g

/-! ## The best operator -/

structure OpCand (S : Type) where
  x : Nat
  y : Nat
  set : List Nat
  delta : Delta S

structure ReverseCand (S : Type) where
  x : Nat
  y : Nat
  h : List Nat
  t : List Nat
  delta : Delta S

structure GesSearch (S : Type) where
  data : LocalScore S
  maxParents : Nat
  maxSubset : Nat
  screen : Option (List (Nat × Nat))
  constraints : DiscoveryConstraints
  vars : List Nat

def screened (screen : Option (List (Nat × Nat))) (a b : Nat) : Bool :=
  match screen with
  | none => true
  | some s => s.contains (min a b, max a b)

/-- Lines 427-446. -/
def forbiddenDirection (k : DiscoveryConstraints) (vars : List Nat) (src dst : Nat) : Bool :=
  match vars[src]?, vars[dst]? with
  | some vf, some vt => k.isForbidden (contempLink vf vt)
  | _, _ => true

/-- Lines 448-478. -/
def requiredPair (k : DiscoveryConstraints) (vars : List Nat) (a b : Nat) : Bool :=
  match vars[a]?, vars[b]? with
  | some va, some vb => k.isRequired (contempLink va vb) || k.isRequired (contempLink vb va)
  | _, _ => false

/-- The refusal to search only some of the subsets. -/
def subsetCap (what : String) (cap n : Nat) : DiscoveryError :=
  .resource ("GES " ++ what ++ "-subset cap " ++ toString cap ++ " < " ++ toString n ++
    " neighbours; refusing an incomplete operator search")

/-- The neighbours of `y` an insertion may direct into it: those not adjacent to `x`, ascending. -/
def insertCandidates (g : Cpdag) (x y : Nat) : List Nat :=
  ((g.undirectedNeighbors y).filter fun n => !(g.adjacent x).contains n).insertionSort (· ≤ ·)

def deletePairs (e : MarkedEdge) : List (Nat × Nat) :=
  if e.isUndirected then [(e.a, e.b), (e.b, e.a)] else e.parentChild.toList

def sortedEdges (g : Cpdag) : List MarkedEdge :=
  g.edges.insertionSort fun e f => pairLe (e.a, e.b) (f.a, f.b)

section Best

variable {S : Type} [AddCommGroup S] [LinearOrder S] (s : GesSearch S)

/-- One set of `best_insert`. -/
def insertWith (g : Cpdag) (x y : Nat) (best : Option (OpCand S)) (t : List Nat) :
    Except DiscoveryError (Option (OpCand S)) :=
  if !insertValid g x y t then .ok best
  else if insertScoredParents g x y t > s.maxParents then .ok best
  else do
    let delta ← insertDelta s.data g x y t
    return if best.all fun b => delta.gt b.delta then some ⟨x, y, t, delta⟩ else best

/-- One pair of `best_insert`. -/
def insertAt (g : Cpdag) (best : Option (OpCand S)) (pair : Nat × Nat) :
    Except DiscoveryError (Option (OpCand S)) :=
  let (x, y) := pair
  if x = y || g.hasEdge x y || !screened s.screen x y ||
      forbiddenDirection s.constraints s.vars x y then .ok best
  else
    let candidates := insertCandidates g x y
    let reach := min candidates.length s.maxParents
    if reach > s.maxSubset then .error (subsetCap "Insert T" s.maxSubset reach)
    else (forEachSubset candidates reach).foldlM (insertWith s g x y) best

/-- Lines 742-792. -/
def bestInsert (g : Cpdag) : Except DiscoveryError (Option (OpCand S)) :=
  ((List.range g.nodeCount).flatMap fun x => (List.range g.nodeCount).map (x, ·)).foldlM
    (insertAt s g) none

/-- One set of `best_delete`. -/
def deleteWith (g : Cpdag) (x y : Nat) (best : Option (OpCand S)) (h : List Nat) :
    Except DiscoveryError (Option (OpCand S)) :=
  if !deleteValid g x y h then .ok best
  else do
    let delta ← deleteDelta s.data g x y h
    return if best.all fun b => delta.gt b.delta then some ⟨x, y, h, delta⟩ else best

/-- One pair of `best_delete`. -/
def deleteAt (g : Cpdag) (best : Option (OpCand S)) (pair : Nat × Nat) :
    Except DiscoveryError (Option (OpCand S)) :=
  let (x, y) := pair
  if requiredPair s.constraints s.vars x y then .ok best
  else
    let na := naYx g y x
    if na.length > s.maxSubset then .error (subsetCap "Delete H" s.maxSubset na.length)
    else (forEachSubset na s.maxSubset).foldlM (deleteWith s g x y) best

/-- Lines 794-837. -/
def bestDelete (g : Cpdag) : Except DiscoveryError (Option (OpCand S)) :=
  ((sortedEdges g).flatMap deletePairs).foldlM (deleteAt s g) none

/-- One set of the insertion half of `best_reverse`, in the graph after the deletion. -/
def reverseInsertWith (tmp : Cpdag) (x y : Nat) (h : List Nat) (dDel : Delta S)
    (best : Option (ReverseCand S)) (t : List Nat) : Except DiscoveryError (Option (ReverseCand S)) :=
  if !insertValid tmp y x t then .ok best
  else if insertScoredParents tmp y x t > s.maxParents then .ok best
  else do
    let dIns ← insertDelta s.data tmp y x t
    let delta := dDel.add dIns
    return if best.all fun b => delta.gt b.delta then some ⟨x, y, h, t, delta⟩ else best

/-- One set of the deletion half of `best_reverse`. -/
def reverseDeleteWith (g : Cpdag) (x y : Nat) (best : Option (ReverseCand S)) (h : List Nat) :
    Except DiscoveryError (Option (ReverseCand S)) :=
  if !deleteValid g x y h then .ok best
  else do
    let dDel ← deleteDelta s.data g x y h
    let tmp ← applyDelete g x y h
    let candidates := insertCandidates tmp y x
    let reach := min candidates.length s.maxParents
    if reach > s.maxSubset then .error (subsetCap "Reverse T" s.maxSubset reach)
    (forEachSubset candidates reach).foldlM (reverseInsertWith s tmp x y h dDel) best

/-- One edge of `best_reverse`. -/
def reverseAt (g : Cpdag) (best : Option (ReverseCand S)) (e : MarkedEdge) :
    Except DiscoveryError (Option (ReverseCand S)) :=
  match e.parentChild with
  | none => .ok best
  | some (x, y) =>
    if requiredPair s.constraints s.vars x y || !screened s.screen x y ||
        forbiddenDirection s.constraints s.vars y x then .ok best
    else
      let na := naYx g y x
      if na.length > s.maxSubset then .error (subsetCap "Reverse H" s.maxSubset na.length)
      else (forEachSubset na s.maxSubset).foldlM (reverseDeleteWith s g x y) best

/-- Lines 839-912. -/
def bestReverse (g : Cpdag) : Except DiscoveryError (Option (ReverseCand S)) :=
  (sortedEdges g).foldlM (reverseAt s g) none

end Best

/-! ## The search -/

def emptyCpdag (vars : List Nat) : Except DiscoveryError Cpdag :=
  vars.foldlM (fun (g : Cpdag) v => do
    let (g, _) ← liftGraph (g.addNode (.static v))
    return g) .empty

/-- `seed_required_edges` at one link (`ges.rs:384-396`). -/
def seedEdge (vars : List Nat) (g : Cpdag) (r : LaggedLink) : Except DiscoveryError Cpdag :=
  if r.sourceLag != 0 || r.targetLag != 0 then .ok g
  else
    match lastIdx vars r.source, lastIdx vars r.target with
    | some a, some b => if !g.hasEdge a b then liftGraph (g.insertUndirected a b) else .ok g
    | _, _ => .ok g

def seedRequiredEdges (k : DiscoveryConstraints) (vars : List Nat) (g : Cpdag) :
    Except DiscoveryError Cpdag := k.required.foldlM (seedEdge vars) g

section Phases

variable {S : Type} [AddCommGroup S] [LinearOrder S] {B : Type}

/-- The loop of a phase: the best operator is applied while it improves the score. -/
def phase (cancelled : Bool) (best : Cpdag → Except DiscoveryError (Option B)) (delta : B → Delta S)
    (apply : Cpdag → B → Except DiscoveryError Cpdag) :
    Nat → Cpdag → Except DiscoveryError (Option Cpdag)
  | 0, _ => .ok none
  | fuel + 1, g =>
    if cancelled then .error .cancelled
    else do
      match ← best g with
      | none => return some g
      | some b =>
        if (delta b).leZero then return some g
        let g ← apply g b
        phase cancelled best delta apply fuel g

variable (s : GesSearch S) (cancelled : Bool) (fuel : Nat)

/-- Insertions. -/
def forwardPhase : Cpdag → Except DiscoveryError (Option Cpdag) :=
  phase cancelled (bestInsert s) OpCand.delta (fun g b => applyInsert g b.x b.y b.set) fuel

/-- Reversals: a deletion, then the opposite insertion. -/
def turningPhase : Cpdag → Except DiscoveryError (Option Cpdag) :=
  phase cancelled (bestReverse s) ReverseCand.delta (fun g b => do
    let g ← applyDelete g b.x b.y b.h
    applyInsert g b.y b.x b.t) fuel

/-- Deletions. -/
def backwardPhase : Cpdag → Except DiscoveryError (Option Cpdag) :=
  phase cancelled (bestDelete s) OpCand.delta (fun g b => applyDelete g b.x b.y b.set) fuel

def searchPhases (g : Cpdag) : Except DiscoveryError (Option Cpdag) := do
  match ← forwardPhase s cancelled fuel g with
  | none => return none
  | some g =>
    match ← turningPhase s cancelled fuel g with
    | none => return none
    | some g => backwardPhase s cancelled fuel g

end Phases

/-- `Ges`; `score` is what `GraphScoreData` and `LocalScoreCache` make of the columns. -/
structure Ges (F S : Type) where
  constraints : DiscoveryConstraints
  ci : ConditionalIndependence F
  fdr : Option FdrAdjustment
  screenPc : Bool
  maxSubset : Option Nat
  score : List (List F) → LocalScore S

namespace Ges

variable {F S : Type} [AddCommGroup S] [LinearOrder S] (ges : Ges F S)

/-- Lines 400-424. -/
def pcSkeletonPairs (data : TabularData F) (vars : List Nat) (ctx : ExecutionContext) :
    Except DiscoveryError (List (Nat × Nat)) := do
  let result ← Pc.run ⟨{ ges.constraints with maxParents := none }, ges.ci, ges.fdr⟩ data vars ctx
  return result.evidence.graph.edges.map fun e => (min e.a e.b, max e.a e.b)

/-- Background knowledge directs what the score leaves undirected, and Meek's rules follow
(`ges.rs:253-282`). -/
def orientKnowledge (vars : List Nat) (g : Cpdag) :
    Except DiscoveryError (Cpdag × List DiscoveryDiagnostic) :=
  if ges.constraints.hasDirectionalKnowledge then do
    let (g, state) ← orientFixedDirections ges.constraints vars (lastIdx vars) g .empty
    let ((g, state), _) ← liftOrientation (runOrientationToFixedPoint meekRules g state)
    return (g, if state.conflicts > 0 then
      [⟨"ges.orientation_conflict", toString state.conflicts ++ " edge(s) have a direction the " ++
        "score search compelled against the background knowledge, or knowledge that closes a " ++
        "directed cycle; they are marked as conflicts"⟩] else [])
  else .ok (g, [])

/-- The total score: the local scores of an extension are computed, and those of empty parent sets,
which the cache holds as the current ones, are summed (`ges.rs:284-293`). -/
def totalScore (score : LocalScore S) (n : Nat) (g : Cpdag) : Except DiscoveryError S := do
  let liftState : Except StateError S → Except DiscoveryError S := fun r => match r with
    | .ok x => .ok x
    | .error e => .error (.state e)
  let dag ← pdagToDag g
  (List.range n).forM fun node => do
    let _ ← liftState (score node (dag.parents node))
    return ()
  (List.range n).foldlM (fun total node => do
    let x ← liftState (score node [])
    return total + x) 0

def variableId (g : Cpdag) (a : Nat) : Option Nat :=
  match g.nodes[a]? with
  | some (.static v) => some v
  | _ => none

/-- The evidence of the edges, in their order. -/
def edgeEvidence (g : Cpdag) : List EdgeEvidence :=
  g.edges.filterMap fun e => do
    let va ← variableId g (min e.a e.b)
    let vb ← variableId g (max e.a e.b)
    return ⟨contempLink va vb, none, none, none, none, ["ges"]⟩

/-- Lines 125-350. -/
def run (fuel : Nat) (data : TabularData F) (vars : List Nat) (ctx : ExecutionContext) :
    Except DiscoveryError (Option DiscoveryResult) := do
  ges.constraints.validate
  match ges.constraints.checkBackgroundKnowledge .scoreSearch vars with
  | .error fault => .error (.knowledge fault)
  | .ok () => .ok ()
  if ges.screenPc then
    ensureCiDecisionsMeaningful ges.ci ges.constraints.alpha ges.fdr.isSome
  if vars.isEmpty then .error (.unsupported "GES requires at least one variable")
  let owned ← collectFloatColumns data vars
  let n := (owned.head?.map List.length).getD 0
  if n < 2 then .error (.stats "insufficient rows for GES")
  if owned.any fun c => c.length != n then .error (.data "column length mismatch")
  let score := ges.score owned
  let screen ← if ges.screenPc then do
      let pairs ← ges.pcSkeletonPairs data vars ctx
      pure (some pairs)
    else pure none
  let g ← emptyCpdag vars
  let g ← seedRequiredEdges ges.constraints vars g
  let search : GesSearch S := ⟨score, ges.constraints.maxParents.getD (vars.length - 1),
    ges.maxSubset.getD 12, screen, ges.constraints, vars⟩
  match ← searchPhases search ctx.cancelled fuel g with
  | none => return none
  | some g =>
    let (g, diagnostics) ← ges.orientKnowledge vars g
    let _ ← totalScore score vars.length g
    return some {
      evidence := ⟨g, edgeEvidence g, (edgeEvidence g).map fun e => ⟨e.link, none, none, none⟩⟩
      iterations := []
      diagnostics := diagnostics
      performance := ⟨0, g.edges.length, vars.length⟩
      sepsets := [] }

end Ges

end Antecedent.Discovery
