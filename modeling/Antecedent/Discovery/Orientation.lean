import Antecedent.Graph.PdagOps
import Antecedent.Graph.MecSearch

/-!
# Orientation rules and the delta queue

Model of `orientation.rs`: the collider rule, Meek's rules R1 to R4, and the loop that runs them to a
fixed point over one shared queue.

* A rule works on a `Pass`: the graph and the state it mutates, its delta, and the nodes of the edges
  it changed. The loops of the source are folds over what they read at their entry; what is read
  inside a loop is read from the pass.
* `focusNodes` drains the queue; a rule enqueues the neighbours of what it changed when it ends.
* `driveToFixedPoint` runs passes of all rules until one on an empty queue is quiet.

The premises (diagnostic text) and the work counters of the selective contracts are left out; the
counters of a delta, `u32` in the source, are `Nat`.
-/

namespace Antecedent.Discovery

open Graph

/-- Lines 205-231. -/
inductive OrientationError
  | graph (e : GraphError)
  | precondition (message : String)
  | searchBudgetExhausted (rule : String) (maxPaths maxLen : Nat)
  | message (text : String)

/-- `OrientationQueue` (`orientation.rs:259-296`): the pending ids are the queued ones. -/
structure OrientationQueue where
  inner : List Nat

namespace OrientationQueue

def push (q : OrientationQueue) (id : Nat) : OrientationQueue :=
  if id ∈ q.inner then q else ⟨q.inner ++ [id]⟩

def isEmpty (q : OrientationQueue) : Bool := q.inner.isEmpty

def len (q : OrientationQueue) : Nat := q.inner.length

end OrientationQueue

/-- `OrientationState` (`orientation.rs:300-322`), the fields these rules use. -/
structure OrientationState where
  sepsets : Nat × Nat → Option (List Nat)
  conflicts : Nat
  conflictEdges : Finset (Nat × Nat)
  ambiguousTriples : Finset (Nat × Nat × Nat)

def ambiguousTripleKey (a b c : Nat) : Nat × Nat × Nat := if a ≤ c then (a, b, c) else (c, b, a)

structure RuleDelta where
  edgesChanged : Nat
  conflicts : Nat
  enqueued : Nat
  fixedPoint : Bool

namespace OrientationState

/-- `OrientationState::default`. -/
def empty : OrientationState := ⟨fun _ => none, 0, ∅, ∅⟩

def setSepset (s : OrientationState) (a b : Nat) (sep : List Nat) : OrientationState :=
  { s with sepsets := Function.update s.sepsets (sortedPair a b) (some sep) }

def sepset (s : OrientationState) (a b : Nat) : Option (List Nat) := s.sepsets (sortedPair a b)

def markAmbiguousTriple (s : OrientationState) (a b c : Nat) : OrientationState :=
  { s with ambiguousTriples := insert (ambiguousTripleKey a b c) s.ambiguousTriples }

def isAmbiguousTriple (s : OrientationState) (a b c : Nat) : Bool :=
  decide (ambiguousTripleKey a b c ∈ s.ambiguousTriples)

def recordConflict (s : OrientationState) (delta : RuleDelta) (a b : Nat) :
    OrientationState × RuleDelta :=
  ({ s with
      conflictEdges := insert (sortedPair a b) s.conflictEdges
      conflicts := s.conflicts + 1 },
    { delta with conflicts := delta.conflicts + 1 })

end OrientationState

def RuleDelta.start : RuleDelta := ⟨0, 0, 0, true⟩

def RuleDelta.default : RuleDelta := ⟨0, 0, 0, false⟩

/-- Accumulate the counters. -/
def RuleDelta.add (d e : RuleDelta) : RuleDelta :=
  { d with
    edgesChanged := d.edgesChanged + e.edgesChanged
    conflicts := d.conflicts + e.conflicts
    enqueued := d.enqueued + e.enqueued }

/-- What a rule mutates while it runs. -/
structure Pass (κ : Kind) where
  graph : Pdag κ
  state : OrientationState
  delta : RuleDelta
  changed : List Nat

variable {κ : Kind}

namespace Pass

def countEdge (p : Pass κ) : Pass κ :=
  { p with delta := { p.delta with edgesChanged := p.delta.edgesChanged + 1, fixedPoint := false } }

/-- Both ends of a changed edge. -/
def push (p : Pass κ) (a b : Nat) : Pass κ := { p with changed := p.changed ++ [a, b] }

/-- Record a conflict on an edge and mark it `x-x`; whether the mark was set. -/
def conflict (p : Pass κ) (a b : Nat) : Pass κ × Bool :=
  let (state, delta) := p.state.recordConflict p.delta a b
  match p.graph.markConflict a b with
  | .ok graph => ({ p with graph, state, delta }.countEdge, true)
  | .error _ => ({ p with state, delta }, false)

/-- Lines 433-457. -/
def tryOrientUndirected (p : Pass κ) (src dst : Nat) : Except OrientationError (Pass κ × Bool) :=
  match p.graph.orientUndirected src dst with
  | .ok graph => .ok ({ p with graph }.countEdge, true)
  | .error (.cycle _ _) => .ok ((p.conflict src dst).1, false)
  | .error e => .error (.graph e)

/-- Orient an edge and note its ends if that succeeds. -/
def orient (p : Pass κ) (src dst : Nat) : Except OrientationError (Pass κ) := do
  let (p, oriented) ← p.tryOrientUndirected src dst
  return if oriented then p.push src dst else p

end Pass

/-- Lines 493-506. -/
def enqueueNeighbors (g : Pdag κ) (id : Nat) (q : OrientationQueue) : OrientationQueue × Nat :=
  let pushed := (g.undirectedNeighbors id).foldl OrientationQueue.push
    ((g.parents id).foldl OrientationQueue.push
      ((g.children id).foldl OrientationQueue.push (q.push id)))
  (pushed, pushed.len - q.len)

/-- `focus_nodes` (`orientation.rs:509-523`): the queue drained, or every node. -/
def focusNodes (nodeCount : Nat) (q : OrientationQueue) : List Nat × OrientationQueue :=
  if q.isEmpty then (List.range nodeCount, q) else (q.inner, ⟨[]⟩)

/-- The end of a rule: the neighbours of each changed node join the queue. -/
def Pass.finish (p : Pass κ) (q : OrientationQueue) : Pass κ × OrientationQueue :=
  p.changed.foldl (fun (r : Pass κ × OrientationQueue) n =>
    let (q, k) := enqueueNeighbors r.1.graph n r.2
    ({ r.1 with delta := { r.1.delta with enqueued := r.1.delta.enqueued + k } }, q)) (p, q)

def runRule (visit : Pass κ → Nat → Except OrientationError (Pass κ)) (g : Pdag κ)
    (state : OrientationState) (q : OrientationQueue) :
    Except OrientationError (Pass κ × OrientationQueue) := do
  let (focus, q) := focusNodes g.nodeCount q
  let p ← focus.foldlM visit ⟨g, state, .start, []⟩
  return p.finish q

/-! ## Meek's rules -/

section Rules

variable (inScope : Pdag κ → Nat → Bool)

/-- `apply_meek_r1` (`orientation.rs:527-569`) at `a → b — c`. -/
def meekR1At (b a : Nat) (p : Pass κ) (c : Nat) : Except OrientationError (Pass κ) :=
  if !inScope p.graph b || !inScope p.graph c then .ok p
  else if p.state.isAmbiguousTriple a b c then .ok p
  else if !p.graph.hasEdge a c then p.orient b c
  else .ok p

/-- R1 at `b`: `a → b — c` with `a` not adjacent to `c` gives `b → c`. -/
def meekR1Visit (p : Pass κ) (b : Nat) : Except OrientationError (Pass κ) :=
  (p.graph.parents b).foldlM (fun p a =>
    (p.graph.undirectedNeighbors b).foldlM (meekR1At inScope b a) p) p

/-- `apply_meek_r2` (`orientation.rs:590-632`) at `a → b → c`. -/
def meekR2At (a : Nat) (p : Pass κ) (c : Nat) : Except OrientationError (Pass κ) :=
  if !inScope p.graph a || !inScope p.graph c then .ok p
  else if (p.graph.edgeBetween a c).any MarkedEdge.isUndirected then p.orient a c
  else .ok p

/-- R2 at `a`: `a → b → c` and `a — c` gives `a → c`. -/
def meekR2Visit (p : Pass κ) (a : Nat) : Except OrientationError (Pass κ) :=
  (p.graph.children a).foldlM (fun p b =>
    (p.graph.children b).foldlM (meekR2At inScope a) p) p

/-- Lines 652-663. -/
def hasDefiniteNoncolliderPair (g : Pdag κ) (state : OrientationState) (a : Nat)
    (mediators : List Nat) : Bool :=
  (pairsOf mediators).any fun p => !g.hasEdge p.1 p.2 && !state.isAmbiguousTriple p.1 a p.2

/-- `apply_meek_r3` (`orientation.rs:669-709`) at `a — b`. -/
def meekR3At (a : Nat) (undA : List Nat) (p : Pass κ) (b : Nat) :
    Except OrientationError (Pass κ) :=
  if hasDefiniteNoncolliderPair p.graph p.state a
      (undA.filter fun c => c != b && p.graph.isParent c b) then p.orient a b
  else .ok p

/-- R3 at `a`: `a — b`, `a — c → b` and `a — d → b` with `c` not adjacent to `d` gives `a → b`. -/
def meekR3Visit (p : Pass κ) (a : Nat) : Except OrientationError (Pass κ) :=
  if !inScope p.graph a then .ok p
  else
    let undA := (p.graph.undirectedNeighbors a).filter (inScope p.graph)
    undA.foldlM (meekR3At a undA) p

/-- `apply_meek_r4` (`orientation.rs:730-786`) at `a — b`. -/
def meekR4At (a : Nat) (p : Pass κ) (b : Nat) : Except OrientationError (Pass κ) :=
  if !inScope p.graph b then .ok p
  else if (p.graph.undirectedNeighbors a).any fun c =>
      !(c == b || !inScope p.graph c) && (p.graph.children c).any fun d =>
        inScope p.graph d && p.graph.isParent d b && p.graph.hasEdge a d && !p.graph.hasEdge c b then
    p.orient a b
  else .ok p

/-- R4 at `a`: `a — b`, `a — c → d → b` with `a` adjacent to `d` and `c` not adjacent to `b` gives
`a → b`. -/
def meekR4Visit (p : Pass κ) (a : Nat) : Except OrientationError (Pass κ) :=
  if !inScope p.graph a then .ok p
  else (p.graph.undirectedNeighbors a).foldlM (meekR4At inScope a) p

end Rules

/-! ## Colliders -/

inductive LegKind
  | undirected
  | intoC
  | outOfC
  deriving DecidableEq

inductive ColliderLegState
  | settled
  | opposite
  | undirected

/-- Lines 413-427. -/
def classifyColliderLeg (g : Pdag κ) (endpoint c : Nat) : ColliderLegState :=
  let current := g.edgeBetween endpoint c
  let oriented := current.bind MarkedEdge.parentChild
  if oriented == some (endpoint, c) || current.any MarkedEdge.isConflict then .settled
  else if oriented == some (c, endpoint) then .opposite
  else .undirected

/-- The edges at `c`, as they are when its turn comes. -/
def legsOf (g : Pdag κ) (c : Nat) : List (Nat × LegKind) :=
  (g.undirectedNeighbors c).map (·, .undirected) ++ (g.parents c).map (·, .intoC) ++
    (g.children c).map (·, .outOfC)

/-- Record that the data orient an edge against the direction it has. -/
def opposite (p : Pass κ) (endpoint c : Nat) : Pass κ :=
  let (p, marked) := p.conflict endpoint c
  if marked then p.push endpoint c else p

/-- One leg of a collider at `c` (`orientation.rs:945-1004`). -/
def orientLeg (c : Nat) (p : Pass κ) (leg : Nat × LegKind) : Except OrientationError (Pass κ) :=
  match leg.2 with
  | .outOfC => .ok (opposite p leg.1 c)
  | .undirected =>
    match classifyColliderLeg p.graph leg.1 c with
    | .settled => .ok p
    | .opposite => .ok (opposite p leg.1 c)
    | .undirected => p.orient leg.1 c
  | .intoC => .ok p

/-- `apply_orient_collider` (`orientation.rs:913-1014`) at one pair of legs. -/
def colliderAt (c : Nat) (p : Pass κ) (legs : (Nat × LegKind) × (Nat × LegKind)) :
    Except OrientationError (Pass κ) :=
  let (x, y) := legs
  if x.2 = .intoC ∧ y.2 = .intoC then .ok p
  else if p.graph.hasEdge x.1 y.1 then .ok p
  else
    match p.state.sepset x.1 y.1 with
    | none => .ok { p with state := p.state.markAmbiguousTriple x.1 c y.1 }
    | some sep => if c ∈ sep then .ok p else [x, y].foldlM (orientLeg c) p

/-- The collider rule at `c`. -/
def orientColliderVisit (p : Pass κ) (c : Nat) : Except OrientationError (Pass κ) :=
  (pairsOf (legsOf p.graph c)).foldlM (colliderAt c) p

/-! ## The fixed point -/

/-- `MAX_ORIENTATION_ROUNDS`. -/
def maxOrientationRounds : Nat := 10000

/-- The loop of `drive_to_fixed_point` (`orientation.rs:1054-1088`): `fuel` rounds are left, and
`verifying` says that the round to come started from an empty queue. -/
def driveLoop {σ : Type} (round : σ → OrientationQueue →
    Except OrientationError (σ × OrientationQueue × RuleDelta)) :
    Nat → Bool → RuleDelta → σ → OrientationQueue → Except OrientationError (σ × RuleDelta)
  | 0, _, _, _, _ => .error (.precondition
      "orientation did not reach fixed point within iteration budget")
  | fuel + 1, verifying, total, s, q => do
    let (s, q, d) ← round s q
    let total := total.add d
    if d.edgesChanged > 0 then driveLoop round fuel false total s q
    else if verifying then return (s, { total with fixedPoint := true })
    else driveLoop round fuel true total s ⟨[]⟩

/-- `drive_to_fixed_point`: the queue starts with every node. -/
def driveToFixedPoint {σ : Type} (nodeCount : Nat) (round : σ → OrientationQueue →
    Except OrientationError (σ × OrientationQueue × RuleDelta)) (s : σ) :
    Except OrientationError (σ × RuleDelta) :=
  driveLoop round maxOrientationRounds false .default s
    ((List.range nodeCount).foldl OrientationQueue.push ⟨[]⟩)

/-- What `OrientationRule::apply` does to the nodes of its focus. -/
abbrev Rule (κ : Kind) := Pass κ → Nat → Except OrientationError (Pass κ)

def OrientCollider : Rule κ := orientColliderVisit

def MeekR1 : Rule κ := meekR1Visit fun _ _ => true

def MeekR2 : Rule κ := meekR2Visit fun _ _ => true

def MeekR3 : Rule κ := meekR3Visit fun _ _ => true

def MeekR4 : Rule κ := meekR4Visit fun _ _ => true

/-- Meek's rules, those of `dag_to_cpdag` and of the last step of `Ges::run` (`ges.rs`). -/
def meekRules : List (Rule .static) := [MeekR1, MeekR2, MeekR3, MeekR4]

/-- The rules of `Pc::run`. -/
def pcRules : List (Rule .static) := [OrientCollider, MeekR1, MeekR2, MeekR3, MeekR4]

def runRound (rules : List (Rule κ)) (s : Pdag κ × OrientationState) (q : OrientationQueue) :
    Except OrientationError ((Pdag κ × OrientationState) × OrientationQueue × RuleDelta) :=
  rules.foldlM (fun r rule => do
    let (p, q) ← runRule rule r.1.1 r.1.2 r.2.1
    return ((p.graph, p.state), q, r.2.2.add p.delta)) (s, q, .default)

/-- Lines 1095-1111. -/
def runOrientationToFixedPoint (rules : List (Rule κ)) (g : Pdag κ) (state : OrientationState) :
    Except OrientationError ((Pdag κ × OrientationState) × RuleDelta) :=
  driveToFixedPoint g.nodeCount (runRound rules) (g, state)

end Antecedent.Discovery
