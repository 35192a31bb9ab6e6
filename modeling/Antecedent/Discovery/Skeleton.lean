import Antecedent.Discovery.Combinations
import Antecedent.Discovery.Constraints
import Antecedent.Graph.MecSearch

/-!
# The adjacency search of PC

Model of `static_skeleton.rs`: the complete graph minus the forbidden edges is thinned by
conditioning-set size, each edge tested under the sets drawn from the neighbours its ends have when
its turn comes.

* `UndirectedAdj` keeps one bit-row a variable, with the degrees and the number of edges.
* `scanEdge` tests the candidates in chunks. A chunk is evaluated as one batch where it can be, and
  what lies past the separating set is discarded.
* `runStaticSkeleton` runs the depths and then honours the parent limit.

The CI test is a parameter, a function of column positions. A statistic or a p-value is a rational, or
`none` where the floating-point number is not finite.
-/

namespace Antecedent.Discovery

open Graph

/-! ## The adjacency matrix -/

/-- The index of a `HashMap` filled in order: the last position of an id. -/
def lastIdx : List Nat → Nat → Option Nat
  | [], _ => none
  | a :: l, v =>
    match lastIdx l v with
    | some i => some (i + 1)
    | none => if a = v then some 0 else none

/-- Lines 33-41. -/
structure UndirectedAdj where
  ids : List Nat
  rows : Nat → Nat → Bool
  degree : Nat → Nat
  nEdges : Nat

namespace UndirectedAdj

def fromVariables (vars : List Nat) : UndirectedAdj := ⟨vars, fun _ _ => false, fun _ => 0, 0⟩

variable (adj : UndirectedAdj)

def positions (edge : Nat × Nat) : Option (Nat × Nat) :=
  match lastIdx adj.ids edge.1, lastIdx adj.ids edge.2 with
  | some i, some j => if i ≠ j then some (i, j) else none
  | _, _ => none

def setBit (rows : Nat → Nat → Bool) (i j : Nat) (v : Bool) : Nat → Nat → Bool :=
  fun a b => if a = i ∧ b = j then v else rows a b

def insert (edge : Nat × Nat) : UndirectedAdj :=
  match adj.positions edge with
  | none => adj
  | some (i, j) =>
    if adj.rows i j then adj
    else { adj with
      rows := setBit (setBit adj.rows i j true) j i true
      degree := fun a => adj.degree a + (if a = i then 1 else 0) + (if a = j then 1 else 0)
      nEdges := adj.nEdges + 1 }

def remove (edge : Nat × Nat) : UndirectedAdj :=
  match adj.positions edge with
  | none => adj
  | some (i, j) =>
    if adj.rows i j then { adj with
      rows := setBit (setBit adj.rows i j false) j i false
      degree := fun a => adj.degree a - (if a = i then 1 else 0) - (if a = j then 1 else 0)
      nEdges := adj.nEdges - 1 }
    else adj

def contains (edge : Nat × Nat) : Bool :=
  match adj.positions edge with
  | none => false
  | some (i, j) => adj.rows i j

def edgePairs : List (Nat × Nat) :=
  dedupAdjacent (((upperPairs adj.ids.length).filterMap fun p =>
    if adj.rows p.1 p.2 then some (sortedPair (adj.ids.getD p.1 0) (adj.ids.getD p.2 0))
    else none).insertionSort (pairLe · ·))

def retain (pred : Nat × Nat → Bool) : UndirectedAdj :=
  adj.edgePairs.foldl (fun adj edge => if pred edge then adj else adj.remove edge) adj

end UndirectedAdj

def edgeKey (a b : Nat) : Nat × Nat := sortedPair a b

/-- `pc.rs:338-346`. -/
def sortedEdgePairs (adj : UndirectedAdj) : List (Nat × Nat) :=
  adj.edgePairs.insertionSort (pairLe · ·)

/-- `pc.rs:348-354`. -/
def adjacentVars (v : Nat) (adj : UndirectedAdj) (vars : List Nat) : List Nat :=
  vars.filter fun u => u != v && adj.contains (edgeKey v u)

/-- Lines 332-342. -/
def sortedNeighbours (v other : Nat) (adj : UndirectedAdj) (vars : List Nat) : List Nat :=
  ((adjacentVars v adj vars).filter (· != other)).insertionSort (· ≤ ·)

def maxExcessDegree (adj : UndirectedAdj) : Nat :=
  ((List.range adj.ids.length).map adj.degree).foldl max 0 - 1

/-! ## CI tests -/

structure CiResult where
  statistic : Option ℚ
  pValue : Option ℚ

abbrev CiTest := Nat → Nat → List Nat → Except String CiResult

/-- `StaticSkeletonInput`, with the threads and the cancellation of its context. -/
structure StaticSkeletonInput where
  ci : CiTest
  constraints : DiscoveryConstraints
  varIndex : Nat → Option Nat
  vars : List Nat
  label : String
  threads : Nat
  cancelled : Bool

/-- What the complaint about a missing variable calls it. -/
def StaticSkeletonInput.column (input : StaticSkeletonInput) (what : String) (v : Nat) :
    Except DiscoveryError Nat :=
  match input.varIndex v with
  | some i => .ok i
  | none => .error (.data ("missing " ++ what))

def CiResult.finite (r : CiResult) : Except DiscoveryError (ℚ × ℚ) :=
  match r.statistic, r.pValue with
  | some s, some p => .ok (s, p)
  | _, _ => .error (.stats "non-finite CI statistic or p-value")

/-- Lines 251-283. -/
def staticCiTest (input : StaticSkeletonInput) (x y : Nat) (z : List Nat) :
    Except DiscoveryError (ℚ × ℚ) := do
  let xi ← input.column "x" x
  let yi ← input.column "y" y
  let zi ← z.mapM (input.column "z")
  match input.ci xi yi zi with
  | .ok r => r.finite
  | .error e => .error (.stats e)

/-- Lines 289-316. -/
def staticCiBatch (input : StaticSkeletonInput) (x y : Nat) (zs : List (List Nat)) :
    Option (List CiResult) :=
  if zs.length < 2 then none
  else do
    let xi ← input.varIndex x
    let yi ← input.varIndex y
    zs.mapM fun z => do
      let zi ← z.mapM input.varIndex
      (input.ci xi yi zi).toOption

/-- `ci.rs:59-82`. -/
structure ChunkSchedule where
  next : Nat
  threads : Nat
  cap : Nat

/-- `MIN_QUERIES_PER_THREAD`. -/
def minQueriesPerThread : Nat := 4

namespace ChunkSchedule

def new (threads : Nat) : ChunkSchedule := ⟨1, threads, if threads ≤ 1 then 1 else threads * 16⟩

/-- `next_size`: the schedule afterwards. -/
def advance (s : ChunkSchedule) : ChunkSchedule :=
  { s with next :=
    if s.threads ≤ 1 then 1
    else if s.next = 1 then s.threads * minQueriesPerThread
    else min (s.next * 2) s.cap }

end ChunkSchedule

/-! ## One edge -/

structure DiscoveryIteration where
  label : String
  ciTests : Nat

/-- `ScoredLink`; `none` is a NaN. -/
structure ScoredLink where
  link : LaggedLink
  statistic : Option ℚ
  pValue : Option ℚ
  adjustedPValue : Option ℚ

/-- The key of `PcSepsets`: two variables with their lags. -/
abbrev SepKey := Nat × Nat × Nat × Nat

/-- `PcSepsets`: the entries of a map, in no particular order. -/
abbrev PcSepsets := List (SepKey × List (Nat × Nat))

def PcSepsets.insert (m : PcSepsets) (key : SepKey) (sep : List (Nat × Nat)) : PcSepsets :=
  (key, sep) :: m.filter fun e => e.1 != key

/-- Lines 319-329. -/
def recordSepset (m : PcSepsets) (x y : Nat) (sep : List Nat) : PcSepsets :=
  (PcSepsets.insert m (x, 0, y, 0) (sep.map (·, 0))).insert (y, 0, x, 0) (sep.map (·, 0))

/-- Lines 156-174. -/
structure StaticSkeleton where
  adj : UndirectedAdj
  edgeScores : Nat × Nat → Option ScoredLink
  sepsets : PcSepsets
  ciTests : Nat
  iterations : List DiscoveryIteration
  familyP : List ℚ
  familyEdge : List (Nat × Nat)
  parentLimitRemoved : List (Nat × Nat)

/-- What a scan counts and records: the tests of the skeleton and of the depth, and the weakest
evidence it met. -/
structure Scan where
  skel : StaticSkeleton
  depthTests : Nat
  weakest : Option (ℚ × ℚ)

def Scan.count (s : Scan) (key : Nat × Nat) (p : ℚ) : Scan :=
  { s with
    skel := { s.skel with
      ciTests := s.skel.ciTests + 1
      familyP := s.skel.familyP ++ [p]
      familyEdge := s.skel.familyEdge ++ [key] }
    depthTests := s.depthTests + 1 }

/-- A test that did not separate is the weakest evidence if none was weaker. -/
def Scan.weaken (s : Scan) (stat p : ℚ) : Scan :=
  match s.weakest with
  | some (_, wp) => if p > wp then { s with weakest := some (stat, p) } else s
  | none => { s with weakest := some (stat, p) }

/-- The `k`th candidate of a chunk: its result in the batch, or a test of its own. -/
def candidateTest (input : StaticSkeletonInput) (x y : Nat) (batch : Option (List CiResult))
    (k : Nat) (z : List Nat) : Except DiscoveryError (ℚ × ℚ) :=
  match batch with
  | some results =>
    match results[k]? with
    | some r => r.finite
    | none => staticCiTest input x y z
  | none => staticCiTest input x y z

/-- The candidates of a chunk, from its `k`th on, until one separates. -/
def scanChunk (input : StaticSkeletonInput) (x y : Nat) (key : Nat × Nat)
    (batch : Option (List CiResult)) : Nat → List (List Nat) → Scan →
    Except DiscoveryError (Option (List Nat) × Scan)
  | _, [], s => .ok (none, s)
  | k, z :: zs, s => do
    let (stat, p) ← candidateTest input x y batch k z
    let s := s.count key p
    if p > input.constraints.alpha then return (some z, s)
    else scanChunk input x y key batch (k + 1) zs (s.weaken stat p)

/-- The chunks, until one separates; the fuel bounds their number. -/
def scanChunks (input : StaticSkeletonInput) (x y : Nat) (key : Nat × Nat) :
    Nat → ChunkSchedule → List (List Nat) → Scan →
    Except DiscoveryError (Option (List Nat) × Scan)
  | 0, _, _, s => .ok (none, s)
  | fuel + 1, schedule, cands, s => do
    let chunk := cands.take schedule.next
    if chunk.isEmpty then return (none, s)
    let batch := staticCiBatch input x y chunk
    let (found, s) ← scanChunk input x y key batch 0 chunk s
    match found with
    | some z => return (some z, s)
    | none => scanChunks input x y key fuel schedule.advance (cands.drop schedule.next) s

/-- Lines 393-440. -/
def scanEdge (input : StaticSkeletonInput) (x y : Nat) (depth : Nat) (skel : StaticSkeleton)
    (depthTests : Nat) : Except DiscoveryError (Option (List Nat) × Scan) :=
  let nx := sortedNeighbours x y skel.adj input.vars
  let ny := sortedNeighbours y x skel.adj input.vars
  let cands := sortedUnion (combinations nx depth) (combinations ny depth)
  scanChunks input x y (edgeKey x y) (cands.length + 1) (.new input.threads) cands
    ⟨skel, depthTests, none⟩

/-! ## The search -/

/-- The weakest evidence of a retained edge, over every depth. -/
def keepWeakest (scores : Nat × Nat → Option ScoredLink) (x y : Nat) (statistic pValue : ℚ) :
    Nat × Nat → Option ScoredLink :=
  let link : ScoredLink := ⟨contempLink x y, some statistic, some pValue, none⟩
  let entry := match scores (edgeKey x y) with
    | some s => if s.pValue.any (pValue > ·) then link else s
    | none => link
  Function.update scores (edgeKey x y) (some entry)

def visitEdge (input : StaticSkeletonInput) (depth : Nat) (st : StaticSkeleton × Nat)
    (edge : Nat × Nat) : Except DiscoveryError (StaticSkeleton × Nat) := do
  let (skel, depthTests) := st
  let (x, y) := edge
  if input.cancelled then .error .cancelled
  else if !skel.adj.contains (edgeKey x y) then return (skel, depthTests)
  else if input.constraints.staticRequired x y then return (skel, depthTests)
  else
    let (separating, s) ← scanEdge input x y depth skel depthTests
    match separating, s.weakest with
    | some z, _ =>
      return ({ s.skel with
        adj := s.skel.adj.remove (edgeKey x y)
        sepsets := recordSepset s.skel.sepsets x y z }, s.depthTests)
    | none, some (statistic, pValue) =>
      return ({ s.skel with
        edgeScores := keepWeakest s.skel.edgeScores x y statistic pValue }, s.depthTests)
    | none, none => return (s.skel, s.depthTests)

def runDepth (input : StaticSkeletonInput) (depth : Nat) (skel : StaticSkeleton) :
    Except DiscoveryError StaticSkeleton := do
  let (skel, depthTests) ← (sortedEdgePairs skel.adj).foldlM (visitEdge input depth) (skel, 0)
  return { skel with
    iterations := skel.iterations ++ [⟨input.label ++ "." ++ toString depth, depthTests⟩] }

/-- The loop over the depths; `left` more depths are admitted after this one. -/
def depthLoop (input : StaticSkeletonInput) : Nat → Nat → StaticSkeleton →
    Except DiscoveryError StaticSkeleton
  | 0, depth, skel => runDepth input depth skel
  | left + 1, depth, skel => do
    let skel ← runDepth input depth skel
    if maxExcessDegree skel.adj < depth + 1 then return skel
    else depthLoop input left (depth + 1) skel

def startSkeleton (constraints : DiscoveryConstraints) (vars : List Nat) : StaticSkeleton where
  adj := (pairsOf vars).foldl (fun adj p =>
    if constraints.staticForbidden p.1 p.2 then adj else adj.insert (edgeKey p.1 p.2))
    (.fromVariables vars)
  edgeScores := fun _ => none
  sepsets := []
  ciTests := 0
  iterations := []
  familyP := []
  familyEdge := []
  parentLimitRemoved := []

/-! ## The parent limit -/

/-- Whether `m` could be a parent of `v`. -/
def couldParent (k : DiscoveryConstraints) (v m : Nat) : Bool :=
  match k.staticDirection v m with
  | some d => d.src != v
  | none => true

/-- The neighbours of `v` that could be its parents. -/
def possibleParents (k : DiscoveryConstraints) (vars : List Nat) (adj : UndirectedAdj) (v : Nat) :
    List Nat := (adjacentVars v adj vars).filter (couldParent k v)

/-- `max_by` on weaker evidence, then the smaller key. -/
def weakestOf : List ((Nat × Nat) × ℚ) → Option ((Nat × Nat) × ℚ)
  | [] => none
  | a :: l => some (l.foldl (fun best b =>
      if best.2 < b.2 ∨ (best.2 = b.2 ∧ pairLe b.1 best.1 = true) then b else best) a)

/-- The loop of `enforce_parent_limit` (`static_skeleton.rs:594-647`); each round removes an edge. -/
def enforceLoop (k : DiscoveryConstraints) (vars : List Nat) (limit : Nat) :
    Nat → StaticSkeleton → Except DiscoveryError StaticSkeleton
  | 0, skel => .ok skel
  | fuel + 1, skel =>
    match vars.find? fun v => decide ((possibleParents k vars skel.adj v).length > limit) with
    | none => .ok skel
    | some v =>
      let nbrs := possibleParents k vars skel.adj v
      let required := nbrs.countP fun m => k.staticRequired v m
      if required > limit then
        .error (.knowledge (.contradictory ("variable " ++ toString v ++ " has " ++
          toString required ++ " required adjacencies that could be its parents, more than " ++
          "max_parents = " ++ toString limit)))
      else
        match weakestOf ((nbrs.filter fun m => !k.staticRequired v m).map fun m =>
            (edgeKey v m, ((skel.edgeScores (edgeKey v m)).bind ScoredLink.pValue).getD 0)) with
        | none => .ok skel
        | some (key, _) => enforceLoop k vars limit fuel { skel with
            adj := skel.adj.remove key
            edgeScores := Function.update skel.edgeScores key none
            parentLimitRemoved := skel.parentLimitRemoved ++ [key] }

def enforceParentLimit (skel : StaticSkeleton) (k : DiscoveryConstraints) (vars : List Nat) :
    Except DiscoveryError StaticSkeleton :=
  match k.maxParents with
  | none => .ok skel
  | some limit => enforceLoop k vars limit (skel.adj.nEdges + 1) skel

/-- Lines 452-552. -/
def runStaticSkeleton (input : StaticSkeletonInput) : Except DiscoveryError StaticSkeleton := do
  let skel ← depthLoop input input.constraints.maxCondSize 0
    (startSkeleton input.constraints input.vars)
  enforceParentLimit skel input.constraints input.vars

end Antecedent.Discovery
