import Antecedent.Identify.MixedSource
import Antecedent.Identify.WitnessArithmetic

/-!
# The two-model witness of a conditional query

Model of the verifier of `sid/conditional_witness.rs` (`216-611`) and of the validation it starts
with (`sid/conditional.rs:750-788`). A refusal carries the reason that the source passes to
`rejected`, which drops it. Indices and enumeration counts are natural numbers: validation bounds
the nodes by 6 and the work bound the latent configurations, so none of them leaves `usize`.
-/

namespace Antecedent.Identify.Witness

open Graph Core

/-! ## Records -/

/-- `WitnessLatentRecord` (`conditional_witness.rs:64-70`). -/
structure LatentRecord where
  edge : List Nat
  probabilities : List String

/-- `WitnessKernelRecord` (`conditional_witness.rs:73-87`). -/
structure KernelRecord where
  node : Nat
  parents : List Nat
  latents : List (List Nat)
  ones : List String

/-- `WitnessModelRecord` (`conditional_witness.rs:90-101`). -/
structure ModelRecord where
  latents : List LatentRecord
  source : List KernelRecord
  target : List KernelRecord

/-- `ConditionalWitnessRecord` (`conditional_witness.rs:104-123`). -/
structure WitnessRecord where
  first : ModelRecord
  second : ModelRecord
  treatmentLevel : List Nat
  conditionedLevel : List Nat
  outcomeLevel : List Nat
  firstValue : String
  secondValue : String

/-- `ConditionalTransportQuery` and the query it extends (`conditional.rs:183-189`). -/
structure ConditionalQuery where
  outcomes : List Nat
  treatments : List Nat
  source : String
  target : String
  conditionedOn : List Nat

structure SelectionDiagram where
  graph : Admg
  selectionTargets : List Nat

/-- How the verification ends without a check. -/
inductive VerifyError
  | invalid (error : IdentificationError)
  | rejected (why : String)
  | cancelled
  | panics

/-- `ok_or_else(|| rejected(why))` on checked arithmetic. -/
def orReject {α : Type} (why : String) : Except Fault α → Except VerifyError α
  | .ok a => .ok a
  | .error .refused => .error (.rejected why)
  | .error .panics => .error .panics

def invalidDerivation : VerifyError :=
  .invalid (.invalidDerivation "admg_transport.invalid_derivation")

def require (ok : Prop) [Decidable ok] (why : String) : Except VerifyError Unit :=
  if ok then .ok () else .error (.rejected why)

/-! ## The structure of the diagram -/

/-- `conditional_witness.rs:217-228`. -/
structure Shape where
  n : Nat
  ids : List Nat
  parents : List (List Nat)
  edges : List (Nat × Nat)
  incident : List (List Nat)
  selected : List Bool

/-- `Shape::new` (`conditional_witness.rs:231-265`), over the variables of the nodes. -/
def Shape.new (diagram : SelectionDiagram) (vars : List Nat) : Shape :=
  let nodes := List.range vars.length
  let edges := nodes.flatMap fun i =>
    (sorted ((diagram.graph.bidirectedNeighbors i).filter (i < ·))).map fun b => (i, b)
  { n := vars.length
    ids := vars
    parents := nodes.map fun i => sorted (diagram.graph.parents i)
    edges := edges
    incident := nodes.map fun i => (List.range edges.length).filter fun e =>
      (edges.getD e (0, 0)).1 = i ∨ (edges.getD e (0, 0)).2 = i
    selected := vars.map fun v => v ∈ diagram.selectionTargets }

namespace Shape

/-- The row of `j` in a world and a latent configuration (`conditional_witness.rs:281-291`). -/
def row (shape : Shape) (j world : Nat) (u cards : List Nat) : Nat :=
  (shape.incident.getD j []).foldl (fun row e => row * cards.getD e 0 + u.getD e 0)
    ((shape.parents.getD j []).foldl (fun row p => row <<< 1 ||| (world >>> p &&& 1)) 0)

/-- The rows of the mechanism of `j` (`conditional_witness.rs:275-278`). -/
def rows (shape : Shape) (j : Nat) (cards : List Nat) : Nat :=
  2 ^ (shape.parents.getD j []).length * ((shape.incident.getD j []).map (cards.getD · 0)).prod

/-- The enumeration work (`conditional_witness.rs:294-307`), without saturation, which changes no
comparison with the bound. -/
def work (shape : Shape) (cards : List Nat) : Nat :=
  (2 ^ (2 * shape.n) + 2 ^ shape.n) * cards.prod * max shape.n 1

def edgeIds (shape : Shape) (e : Nat × Nat) : List Nat :=
  [shape.ids.getD e.1 0, shape.ids.getD e.2 0]

end Shape

/-- `next_config` (`conditional_witness.rs:311-320`): from the last radix; false after the last. -/
def nextConfig : List Nat → List Nat → List Nat × Bool
  | l :: u, c :: cards =>
    let (u, more) := nextConfig u cards
    if more then (l :: u, true)
    else if l + 1 < c then ((l + 1) :: u, true)
    else (0 :: u, false)
  | _, _ => ([], false)

/-- The first `k` configurations from `u` on. -/
def codesFrom (cards : List Nat) : Nat → List Nat → List (List Nat)
  | 0, _ => []
  | k + 1, u => u :: codesFrom cards k (nextConfig u cards).1

/-! ## Parsing a model -/

/-- `conditional_witness.rs:326-332`. -/
structure Model where
  cards : List Nat
  latents : List (List Q)
  source : List (List Q)
  target : List (List Q)

/-- `CONDITIONAL_WITNESS_MAX_WORK`. -/
def maxWork : Nat := 2 ^ 22

/-- `CONDITIONAL_WITNESS_MAX_LATENT_LEVELS`. -/
def maxLatentLevels : Nat := 8

/-- One latent law (`conditional_witness.rs:339-362`). -/
def parseLatent (shape : Shape) (latent : LatentRecord) (e : Nat × Nat) :
    Except VerifyError (List Q) := do
  require (latent.edge = shape.edgeIds e) "a latent does not realize its bidirected edge"
  require (2 ≤ latent.probabilities.length ∧ latent.probabilities.length ≤ maxLatentLevels)
    "latent cardinality"
  let law ← orReject "a latent probability is not in (0, 1)"
    (latent.probabilities.mapM probability)
  let total ← orReject "overflow" (law.foldlM Q.add Q.zero)
  require (total = Q.one) "a latent law does not sum to one"
  .ok law

/-- The mechanism of `j` (`conditional_witness.rs:366-386`). -/
def parseKernel (shape : Shape) (cards : List Nat) (j : Nat) (record : KernelRecord) :
    Except VerifyError (List Q) := do
  require (record.node = shape.ids.getD j 0 ∧
      record.parents = (shape.parents.getD j []).map (shape.ids.getD · 0) ∧
      record.latents = (shape.incident.getD j []).map fun e =>
        shape.edgeIds (shape.edges.getD e (0, 0)))
    "a mechanism is not over its node's graph parents and latents"
  require (record.ones.length = shape.rows j cards) "a mechanism has the wrong number of rows"
  orReject "a mechanism probability is not in (0, 1)" (record.ones.mapM probability)

/-- The selection targets, in dense order. -/
def Shape.selection (shape : Shape) : List Nat :=
  (List.range shape.n).filter fun j => shape.selected.getD j false

/-- `conditional_witness.rs:334-402`. -/
def parseModel (shape : Shape) (record : ModelRecord) : Except VerifyError Model := do
  require (record.latents.length = shape.edges.length) "one latent per bidirected edge"
  let latents ← (record.latents.zip shape.edges).mapM fun (latent, e) => parseLatent shape latent e
  let cards := latents.map List.length
  require (shape.work cards ≤ maxWork) "witness exceeds the enumeration bound"
  require (record.source.length = shape.n) "one source mechanism per node"
  let source ← ((List.range shape.n).zip record.source).mapM fun (j, kernel) =>
    parseKernel shape cards j kernel
  require (record.target.length = shape.selection.length) "one target mechanism per selection target"
  let changed ← (shape.selection.zip record.target).mapM fun (j, kernel) =>
    parseKernel shape cards j kernel
  let target := (shape.selection.zip changed).foldl (fun target (j, kernel) => target.set j kernel)
    source
  .ok ⟨cards, latents, source, target⟩

/-! ## Integer tables -/

/-- A row over its common denominator (`conditional_witness.rs:423-429`). -/
def common (row : List Q) : Except Fault (Int × List Int) := do
  let lcm ← row.foldlM (fun lcm q => do checked ((← quot lcm (← gcd lcm q.d)) * q.d)) 1
  let ns ← row.mapM fun q => do checked (q.n * (← quot lcm q.d))
  .ok (lcm, ns)

/-- `xs[i]`. -/
def index {α : Type} (xs : List α) (i : Nat) : Except Fault α :=
  match xs[i]? with
  | some x => .ok x
  | none => .error .panics

/-- `Integral` (`conditional_witness.rs:407-417`). A table holds the factors of its node by world and
latent configuration. -/
structure Integral where
  latentMass : List Int
  latentDen : Int
  source : List (Int × List (List Int))
  target : List (Int × List (List Int))

/-- The factors of one node (`conditional_witness.rs:450-465`). -/
def tableOf (shape : Shape) (cards : List Nat) (codes : List (List Nat)) (j : Nat)
    (kernel : List Q) : Except Fault (Int × List (List Int)) := do
  let (d, ones) ← common kernel
  let factors ← (List.range (2 ^ shape.n)).mapM fun world => codes.mapM fun u => do
    let one ← index ones (shape.row j world u cards)
    if world >>> j &&& 1 = 1 then .ok one else unchecked (d - one)
  .ok (d, factors)

/-- `conditional_witness.rs:420-474`. -/
def Integral.new (shape : Shape) (model : Model) : Except Fault Integral := do
  let laws ← model.latents.mapM common
  let latentDen ← laws.foldlM (fun den law => checked (den * law.1)) 1
  let codes := codesFrom model.cards model.cards.prod (model.cards.map fun _ => 0)
  let latentMass ← codes.mapM fun u =>
    (laws.zip u).foldlM (fun mass (law, l) => do checked (mass * (← index law.2 l))) 1
  let source ← ((List.range shape.n).zip model.source).mapM fun (j, kernel) =>
    tableOf shape model.cards codes j kernel
  let target ← ((List.range shape.n).zip model.target).mapM fun (j, kernel) =>
    tableOf shape model.cards codes j kernel
  .ok ⟨latentMass, latentDen, source, target⟩

/-- `conditional_witness.rs:479-501`. -/
def cell (shape : Shape) (model : Integral) (target : Bool) (mask world : Nat) : Except Fault Q := do
  let kernels := if target then model.target else model.source
  let free := ((List.range shape.n).zip kernels).filterMap fun (j, kernel) =>
    if mask &&& 1 <<< j = 0 then some kernel else none
  let den ← free.foldlM (fun den kernel => checked (den * kernel.1)) model.latentDen
  let rows ← free.mapM fun kernel => index kernel.2 world
  let total ← ((List.range model.latentMass.length).zip model.latentMass).foldlM
    (fun total (code, latent) => do
      let mass ← rows.foldlM (fun mass row => do checked (mass * (← index row code))) latent
      checked (total + mass)) 0
  Q.new total den

/-! ## The query -/

/-- `conditional_witness.rs:504-511`. -/
structure Level where
  xMask : Nat
  xBits : Nat
  wMask : Nat
  wBits : Nat
  yMask : Nat
  yBits : Nat

/-- The mask and the bits of coordinates at levels (`conditional_witness.rs:518-529`). -/
def bits (shape : Shape) (vars levels : List Nat) : Except VerifyError (Nat × Nat) := do
  require (vars.length = levels.length ∧ levels.all (· ≤ 1)) "a level does not bind its coordinates"
  (vars.zip levels).foldlM (fun (mask, set) (v, l) =>
    match shape.ids.findIdx? (· = v) with
    | some j => .ok (mask ||| 1 <<< j, set ||| l <<< j)
    | none => .error invalidDerivation) (0, 0)

/-- `conditional_witness.rs:513-535`. -/
def level (shape : Shape) (query : ConditionalQuery) (record : WitnessRecord) :
    Except VerifyError Level := do
  let x ← bits shape query.treatments record.treatmentLevel
  let w ← bits shape query.conditionedOn record.conditionedLevel
  let y ← bits shape query.outcomes record.outcomeLevel
  .ok ⟨x.1, x.2, w.1, w.2, y.1, y.2⟩

def Level.worlds (at_ : Level) (n : Nat) : List Nat :=
  (List.range (2 ^ n)).filter fun world =>
    world &&& at_.xMask = at_.xBits ∧ world &&& at_.wMask = at_.wBits

/-- `conditional_witness.rs:540-553`. -/
def queryValue (shape : Shape) (model : Integral) (at_ : Level) : Except Fault Q := do
  let (num, den) ← (at_.worlds shape.n).foldlM (fun (num, den) world => do
    let p ← cell shape model true at_.xMask world
    let den ← Q.add den p
    let num ← if world &&& at_.yMask = at_.yBits then Q.add num p else .ok num
    .ok (num, den)) (Q.zero, Q.zero)
  if den.n = 0 then .error .refused else Q.div num den

/-- The comparison of one supplied law (`conditional_witness.rs:569-581`). -/
def compareLaw (shape : Shape) (first second : Integral) (target : Bool) (mask : Nat) :
    Except VerifyError Unit :=
  (List.range (2 ^ shape.n)).forM fun world => do
    let a ← orReject "arithmetic overflow" (cell shape first target mask world)
    let b ← orReject "arithmetic overflow" (cell shape second target mask world)
    require (a = b) "the models disagree on a supplied law"

/-- `evaluate` (`conditional_witness.rs:557-587`); `cancelled` is what the context says before the
law of each mask, the last of which stands for the target. -/
def evaluate (shape : Shape) (query : ConditionalQuery) (record : WitnessRecord)
    (cancelled : Nat → Bool) : Except VerifyError (Q × Q) := do
  let first ← orReject "arithmetic overflow" (Integral.new shape (← parseModel shape record.first))
  let second ← orReject "arithmetic overflow" (Integral.new shape (← parseModel shape record.second))
  let full := 2 ^ shape.n
  (List.range (full + 1)).forM fun mask => do
    if cancelled mask then .error .cancelled
    else if mask = full then compareLaw shape first second true 0
    else compareLaw shape first second false mask
  let at_ ← level shape query record
  let a ← orReject "arithmetic overflow or a zero-mass conditioning event"
    (queryValue shape first at_)
  let b ← orReject "arithmetic overflow or a zero-mass conditioning event"
    (queryValue shape second at_)
  .ok (a, b)

/-- `conditional.rs:172-174`. -/
def invalidQuery (message : String) : IdentificationError :=
  .invalidInput ("admg_transport.invalid_query: " ++ message)

/-- The loop over the coordinates (`conditional.rs:775-786`). -/
def checkCoordinates (known : List Nat) : List Nat → List Nat → Except IdentificationError Unit
  | [], _ => .ok ()
  | v :: vs, seen =>
    if v ∉ known then .error (invalidQuery "a query coordinate is not a node of the graph")
    else if v ∈ seen then .error (invalidQuery
      "outcomes, treatments and conditioned variables must be distinct and disjoint")
    else checkCoordinates known vs (seen ++ [v])

/-- `conditional.rs:750-788`. -/
def validate (diagram : SelectionDiagram) (query : ConditionalQuery) :
    Except IdentificationError (List Nat) :=
  if 6 < diagram.graph.nodeCount ∨ 3 < query.treatments.length ∨ 3 < query.conditionedOn.length then
    .error (.unsupportedInput "admg_transport.bounds_exceeded")
  else if query.outcomes = [] then .error (invalidQuery "at least one outcome is required")
  else if query.conditionedOn = [] then .error (invalidQuery
    "at least one conditioned variable is required; an unconditional query is the classical route")
  else if isBlank query.source ∨ isBlank query.target ∨ query.source = query.target then
    .error (invalidQuery "source and target must be distinct non-empty populations")
  else match staticVariables diagram.graph.nodes with
    | none => .error (invalidQuery "only static observed nodes are supported")
    | some known => do
      checkCoordinates known (query.outcomes ++ query.treatments ++ query.conditionedOn) []
      .ok known

/-- `verify_conditional_witness` (`conditional_witness.rs:591-611`): the values of the query. The
count of the compared cells is left out. -/
def verifyConditionalWitness (diagram : SelectionDiagram) (query : ConditionalQuery)
    (record : WitnessRecord) (cancelled : Nat → Bool) : Except VerifyError (Q × Q) := do
  let vars ← (validate diagram query).mapError .invalid
  let (a, b) ← evaluate (Shape.new diagram vars) query record cancelled
  require (a ≠ b) "the models agree on the query"
  require (a.toText = record.firstValue.toList ∧ b.toText = record.secondValue.toList)
    "a recorded query value is not the model's"
  .ok (a, b)

end Antecedent.Identify.Witness
