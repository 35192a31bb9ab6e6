import Antecedent.Graph.MecSearch
import Mathlib.Algebra.GroupWithZero.Nat

/-!
# Bounded completions of a supplied CPDAG

Model of the enumeration of `sid/cpdag_completion.rs`: the supplied graph as rows over its ascending
variables, the depth-first orientation of the undirected edges, and the checks a finished enumeration
passes.

A `BitSet` is a `Finset Nat`. The digest of a canonical stream is `hex`, an arbitrary function of the
stream's domain and words. A `binary_search` is `idxOf?`: the two agree on distinct variables, and on
repeated ones the source promises any of the matches. A `SharedSearch` charges its budget and counts;
the counts and the texts of a receipt are left out.
-/

namespace Antecedent.Identify.CpdagCompletion

open Core Antecedent.Graph Worklist

structure ScenarioSetRefusal where
  code : String
  detail : String
  message : String

def notACpdag (message : String) : ScenarioSetRefusal :=
  ⟨"invalid_argument", "cpdag_scenarios.not_a_cpdag", message⟩

def unsupported (detail message : String) : ScenarioSetRefusal :=
  ⟨"route_not_supported", detail, message⟩

structure CpdagCompletionInput where
  cpdag : Cpdag
  selectionTargets : List Nat
  latentPairs : List (Nat × Nat)

structure CompletionDag where
  identity : String
  edges : List (Nat × Nat)
  deriving DecidableEq

structure CpdagEnumeration where
  cpdagIdentity : String
  vars : List Nat
  completions : List CompletionDag
  notEnumerated : Nat
  receipt : Option SearchStop

def CpdagEnumeration.total (e : CpdagEnumeration) : Nat := e.completions.length + e.notEnumerated

/-! ## The rows of the graph -/

structure Skeleton where
  vars : List Nat
  fixed : List (Nat × Nat)
  undirected : List (Nat × Nat)
  adjacent : Nat → Finset Nat

/-- `BitSet::insert` in one row. -/
def insertAt (rows : Nat → Finset Nat) (i j : Nat) : Nat → Finset Nat :=
  Function.update rows i (insert j (rows i))

/-- `BitSet::remove` in one row. -/
def removeAt (rows : Nat → Finset Nat) (i j : Nat) : Nat → Finset Nat :=
  Function.update rows i ((rows i).erase j)

/-- The search state of `Orienter`; `masks` are the completions found. -/
structure Orienter where
  parents : Nat → Finset Nat
  children : Nat → Finset Nat
  masks : List (Finset Nat)
  bytes : Nat

namespace Skeleton

variable (sk : Skeleton)

def completionBytes : Nat := satAdd (satMul (sk.fixed.length + sk.undirected.length) 16) 256

end Skeleton

namespace Orienter

/-- Lines 408-416. -/
def orient (o : Orienter) (src dst : Nat) (on : Bool) : Orienter :=
  if on then
    { o with children := insertAt o.children src dst, parents := insertAt o.parents dst src }
  else { o with children := removeAt o.children src dst, parents := removeAt o.parents dst src }

/-- Lines 362-376. -/
def new (sk : Skeleton) : Orienter :=
  sk.fixed.foldl (fun o e => o.orient e.1 e.2 true) ⟨fun _ => ∅, fun _ => ∅, [], sk.completionBytes⟩

/-- `reaches` (`cpdag_completion.rs:379-394`), over rows of `n` nodes. -/
def reaches (o : Orienter) (n src dst : Nat) : Bool :=
  search (fun v => (List.range n).filter fun w => decide (w ∈ o.children v)) (fun v => v == dst)
    (n + 1) [src]

/-- Lines 399-406. -/
def admissible (sk : Skeleton) (o : Orienter) (src dst : Nat) : Bool :=
  !o.reaches sk.vars.length dst src && decide ((o.parents dst).erase src ⊆ sk.adjacent src)

end Orienter

/-- The rows of the edges read so far. -/
structure Rows where
  fixed : List (Nat × Nat)
  undirected : List (Nat × Nat)
  adjacent : Nat → Finset Nat

/-- One edge (`cpdag_completion.rs:279-297`). -/
def addEdge (indexOf : Nat → Option Nat) (rows : Rows) (e : MarkedEdge) :
    Except ScenarioSetRefusal Rows :=
  match indexOf e.a, indexOf e.b with
  | some a, some b =>
    let adjacent := insertAt (insertAt rows.adjacent a b) b a
    match e.parentChild with
    | some (src, dst) =>
      match indexOf src, indexOf dst with
      | some src, some dst => .ok ⟨rows.fixed ++ [(src, dst)], rows.undirected, adjacent⟩
      | _, _ => .error (notACpdag "an edge names an unknown node")
    | none =>
      if e.isUndirected then .ok ⟨rows.fixed, rows.undirected ++ [(min a b, max a b)], adjacent⟩
      else .error (notACpdag "conflict or non-CPDAG edge marks are not a CPDAG")
  | _, _ => .error (notACpdag "an edge names an unknown node")

def staticVariable : NodeRef → Except ScenarioSetRefusal Nat
  | .static v => .ok v
  | _ => .error (notACpdag "a CPDAG over static variables is required")

def sortPairs (l : List (Nat × Nat)) : List (Nat × Nat) := l.insertionSort (pairLe · ·)

/-- The rows of a graph, sorted, unless the directed edges contain a cycle. -/
def Skeleton.ofRows (vars : List Nat) (rows : Rows) : Except ScenarioSetRefusal Skeleton :=
  let sk : Skeleton := ⟨vars, sortPairs rows.fixed, sortPairs rows.undirected, rows.adjacent⟩
  if sk.fixed.any fun e => (Orienter.new sk).reaches sk.vars.length e.2 e.1 then
    .error (notACpdag "the directed edges contain a cycle")
  else .ok sk

/-- Lines 254-307. -/
def Skeleton.fromInput (input : CpdagCompletionInput) : Except ScenarioSetRefusal Skeleton :=
  if !input.selectionTargets.isEmpty || !input.latentPairs.isEmpty then
    .error (unsupported "cpdag_scenarios.selection_or_latent"
      "selection targets and latent confounding are outside the initial complete-DAG cell")
  else
    match input.cpdag.nodes.mapM staticVariable with
    | .error e => .error e
    | .ok dense =>
      let vars := dense.insertionSort (· ≤ ·)
      if vars.isEmpty then .error (notACpdag "a CPDAG needs a node")
      else
        match input.cpdag.edges.foldlM
            (addEdge fun d => dense[d]?.bind fun v => vars.idxOf? v) ⟨[], [], fun _ => ∅⟩ with
        | .error e => .error e
        | .ok rows => Skeleton.ofRows vars rows

/-! ## The walk -/

/-- The state of a walk: the orienter, the mask, and the budget that is charged. -/
structure Walk where
  orienter : Orienter
  mask : Finset Nat
  budget : SearchBudget

/-- One orientation attempt of `walk` (`cpdag_completion.rs:432-444`): `next` walks on. -/
def attempt (sk : Skeleton) (k : Nat) (next : Walk → Walk × Option SearchStop) (src dst : Nat)
    (forward : Bool) (w : Walk) : Walk × Option SearchStop :=
  match w.budget.charge (k + 1) w.orienter.bytes with
  | (budget, some stop) => ({ w with budget }, some stop)
  | (budget, none) =>
    if w.orienter.admissible sk src dst then
      let (w', result) := next ⟨w.orienter.orient src dst true,
        if forward then insert k w.mask else w.mask, budget⟩
      (⟨w'.orienter.orient src dst false, w'.mask.erase k, w'.budget⟩, result)
    else ({ w with budget }, none)

/-- `walk` (`cpdag_completion.rs:418-446`), over the edges from number `k` on. -/
def walk (sk : Skeleton) : Nat → List (Nat × Nat) → Walk → Walk × Option SearchStop
  | k, [], w =>
    let bytes := satAdd w.orienter.bytes sk.completionBytes
    match w.budget.charge k bytes with
    | (budget, some stop) => ({ w with budget }, some stop)
    | (budget, none) => (⟨{ w.orienter with masks := w.orienter.masks ++ [w.mask], bytes },
        w.mask, budget⟩, none)
  | k, (a, b) :: es, w =>
    match attempt sk k (walk sk (k + 1) es) a b true w with
    | (w, some stop) => (w, some stop)
    | (w, none) => attempt sk k (walk sk (k + 1) es) b a false w

/-- `run_walk`: the masks found and the stop. -/
def runWalk (sk : Skeleton) (budget : SearchBudget) : List (Finset Nat) × Option SearchStop :=
  let (w, stop) := walk sk 0 sk.undirected ⟨Orienter.new sk, ∅, budget⟩
  (w.orienter.masks, stop)

/-! ## The enumeration -/

section Identities

variable (hex : String → List Nat → String)

/-- The words of `hash_variables`. -/
def Skeleton.variableWords (sk : Skeleton) : List Nat := sk.vars.length :: sk.vars

/-- A variable by its position. -/
def Skeleton.varAt (sk : Skeleton) (i : Nat) : Nat := sk.vars.getD i 0

def edgeWords (edges : List (Nat × Nat)) : List Nat :=
  edges.length :: edges.flatMap fun e => [e.1, e.2]

def Skeleton.cpdagIdentity (sk : Skeleton) : String :=
  hex "antecedent.cpdag_completion.cpdag.v1" (sk.variableWords ++
    0 :: edgeWords (sk.fixed.map fun e => (sk.varAt e.1, sk.varAt e.2)) ++
    1 :: edgeWords (sk.undirected.map fun e => (sk.varAt e.1, sk.varAt e.2)))

/-- The undirected edges from number `k` on, as a mask directs them. -/
def chosen (mask : Finset Nat) : Nat → List (Nat × Nat) → List (Nat × Nat)
  | _, [] => []
  | k, (a, b) :: es => (if k ∈ mask then (a, b) else (b, a)) :: chosen mask (k + 1) es

/-- Lines 331-347. -/
def Skeleton.completion (sk : Skeleton) (mask : Finset Nat) : CompletionDag :=
  let edges := sortPairs ((sk.fixed ++ chosen mask 0 sk.undirected).map fun e =>
    (sk.varAt e.1, sk.varAt e.2))
  ⟨hex "antecedent.cpdag_completion.dag.v1" (sk.variableWords ++ edgeWords edges), edges⟩

/-- Whether a fixed edge is covered in the completion of a mask (`cpdag_completion.rs:524-534`). -/
def Skeleton.reversible (sk : Skeleton) (mask : Finset Nat) (e : Nat × Nat) : Bool :=
  let parents := (chosen mask 0 sk.undirected).foldl (fun p e => insertAt p e.2 e.1)
    (Orienter.new sk).parents
  decide (parents e.2 = insert e.1 (parents e.1))

/-- Lines 506-549. -/
def checkMaximallyOriented (sk : Skeleton) (masks : List (Finset Nat)) :
    Except ScenarioSetRefusal Unit :=
  if masks.isEmpty then
    .error (notACpdag
      "the graph has no consistent DAG completion (a cycle or an unsupported collider)")
  else if masks.any fun mask => sk.fixed.any fun e => sk.reversible mask e then
    .error (notACpdag "a directed edge is reversible within the equivalence class")
  else
    match (List.range sk.undirected.length).find? fun k =>
        !((masks.any fun m => decide (k ∈ m)) && masks.any fun m => !decide (k ∈ m)) with
    | some k =>
      let e := sk.undirected.getD k (0, 0)
      .error (notACpdag ("undirected edge " ++ toString (sk.varAt e.1) ++ " - " ++
        toString (sk.varAt e.2) ++
        " is compelled in every completion; the graph is not maximally oriented"))
    | none => .ok ()

/-- `1_usize.checked_shl(edges)`, or `usize::MAX`. -/
def orientations (edges : Nat) : Nat := if edges < 64 then 2 ^ edges else u64Max

def sortedCompletions (sk : Skeleton) (masks : List (Finset Nat)) : List CompletionDag :=
  (masks.map (sk.completion hex)).insertionSort fun a b => a.identity ≤ b.identity

/-- Lines 464-504. -/
def finish (sk : Skeleton) (masks : List (Finset Nat)) (stop : Option SearchStop) :
    Except ScenarioSetRefusal CpdagEnumeration :=
  let completions := sortedCompletions hex sk masks
  match stop with
  | some stop => .ok ⟨sk.cpdagIdentity hex, sk.vars, completions,
      orientations sk.undirected.length - completions.length, some stop⟩
  | none =>
    match checkMaximallyOriented sk masks with
    | .error e => .error e
    | .ok () => .ok ⟨sk.cpdagIdentity hex, sk.vars, completions, 0, none⟩

/-- Lines 559-575. -/
def enumerateCpdagCompletions (input : CpdagCompletionInput) (limits : SearchLimits)
    (ctx : ExecutionContext) : Except ScenarioSetRefusal CpdagEnumeration :=
  match Skeleton.fromInput input with
  | .error e => .error e
  | .ok sk =>
    match SearchBudget.withMemory limits defaultSearchMemoryBytes ctx 0 with
    | .error stop => finish hex sk [] (some stop)
    | .ok budget =>
      let (masks, stop) := runWalk sk budget
      finish hex sk masks stop

end Identities

end Antecedent.Identify.CpdagCompletion
