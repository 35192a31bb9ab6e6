import Antecedent.Identify.GeneralId
import Antecedent.Identify.SelectionSeparation

/-!
# The limited-experiment transport search

Model of `search_trz_state` and `exchange_trz_source` (`sid/z_transport/search.rs:918-1317`) over the
states of `sid.rs`. A formula is the tree its arena interns, an entry of the trace is a constructor.

What the search asks of the engine and does not read back to choose a state is a parameter: the
meter, the record of deferred branches, and the source c-factor with what it appends to the trace.
The anchor of a call, which only the construction of the engine reads, is left out. The recursion
carries a bound on its depth that `searchTrzState_settled` shows to be enough.
-/

namespace Antecedent.Identify.ZTransport

open Core
open Expr
open GeneralId (sumOver preceding)

/-! ## Inputs -/

/-- `search.rs:705-710`. -/
structure TrzDomain where
  population : String
  controllable : List Nat
  experimentAssignment : List InterventionAssignment
  selectionTargets : List Nat

/-- `TrzCall` (`search.rs:714-724`), less its anchor. -/
structure TrzCall where
  outcomes : List Nat
  treatments : List Nat
  target : String
  domains : List TrzDomain

/-- `sid.rs:263-268`. -/
structure State where
  y : Finset Nat
  x : Finset Nat
  v : Finset Nat
  kernel : ExprTree

/-- The arguments of `search_trz_state`. -/
structure Frame extends State where
  active : Option Nat
  remainingControllable : List Nat
  activeInterventions : List InterventionAssignment
  irrelevant : Finset Nat
  depth : Nat

/-! ## What a run records -/

/-- An entry of the trace. -/
inductive TraceEntry
  | marginal
  | ancestors
  | enlarge
  | kernelWeighted
  | districts
  | factor
  | recurse
  | fail
  | sourceExchange (population : Option String) (levels : List (Nat × Option F64))
  | cFactor (rules : List String)

/-- `search.rs:744-749`. -/
structure TrzSourceTerminal where
  population : String
  remainingControllable : List Nat
  candidateActive : List Nat
  selectionSeparated : Bool

/-- `search.rs:752-766`. -/
structure TrzTerminalFailure where
  outcomes : List Nat
  treatments : List Nat
  vertices : List Nat
  c0 : List Nat
  remainingControllable : List Nat
  candidateActive : List Nat
  activeInterventions : List (Nat × Option F64)
  selectionSeparated : Bool
  rules : List TraceEntry
  sources : List TrzSourceTerminal

/-- What a run has changed so far: the engine and the records. -/
structure Run (E : Type) where
  engine : E
  crossSourceJoint : Bool
  trace : List TraceEntry
  terminalFailure : Option TrzTerminalFailure
  unassigned : Option Nat

/-- The engine as the search uses it. -/
structure Engine (E : Type) where
  /-- `Engine::charge` (`sid.rs:701-720`). -/
  charge : Nat → E → Except IdentificationError Unit × E
  /-- `Engine::defer` (`sid.rs:731-735`), of a source at a depth. -/
  defer : String → Nat → E → E
  /-- `source_c_factor` (`search.rs:1322-1434`): the nodes it is of, the interventions, the source,
  the target and the depth. -/
  sourceCFactor : Finset Nat → List InterventionAssignment → String → String → Nat →
    E × List TraceEntry → Except IdentificationError (Option ExprTree) × E × List TraceEntry

abbrev SearchM (E : Type) := ExceptT IdentificationError (StateM (Run E))

section Records

variable {E : Type}

/-- `trace.push`. -/
def push (entry : TraceEntry) : SearchM E Unit :=
  modify fun st => { st with trace := st.trace ++ [entry] }

def Engine.chargeRun (eng : Engine E) (depth : Nat) : SearchM E Unit :=
  ExceptT.mk fun st =>
    let (r, engine) := eng.charge depth st.engine
    (r, { st with engine })

def Engine.sourceCFactorRun (eng : Engine E) (remaining : Finset Nat)
    (cumulative : List InterventionAssignment) (source target : String) (depth : Nat) :
    SearchM E (Option ExprTree) :=
  ExceptT.mk fun st =>
    let (r, engine, trace) := eng.sourceCFactor remaining cumulative source target depth
      (st.engine, st.trace)
    (r, { st with engine, trace })

/-- The value of a step that touches no record. -/
def ofExcept {α : Type} (r : Except IdentificationError α) : SearchM E α := ExceptT.mk (pure r)

end Records

variable (p : PreparedAdmg)

/-! ## Formulas -/

/-- `sid.rs:850-872`. -/
def State.factor (s : State) (district : Finset Nat) : ExprTree :=
  .product (((preceding p s.v).filter fun e => e.1 ∈ district).map fun e =>
    let numerator := sumOver p (s.v \ insert e.1 e.2) s.kernel
    .ratio numerator (sumOver p {e.1} numerator))

/-- `sid.rs:879-890`. -/
def State.enlargeOutput (s : State) (w : Finset Nat) (child : ExprTree) : ExprTree :=
  let joint := sumOver p ((s.v \ s.x) \ w) s.kernel
  sumOver p w (.product [child, .ratio joint (sumOver p w joint)])

/-- `Engine::admissible_selections` (`sid.rs:942-957`), nothing given. -/
def State.admissibleSelections (s : State) (selections : List Nat) :
    Except IdentificationError Bool := do
  let targets ← selections.mapM p.varToDense
  let selection ← MutilatedSelection.build p.admg s.v s.x targets
  (selection.separates (s.y.sort (· ≤ ·)) (s.x.sort (· ≤ ·))).mapError .graph

/-! ## The line of a state -/

/-- The line of the recursion that a state is at, with the sets that line reads. -/
inductive Line
  | marginal
  | ancestors (anc : Finset Nat)
  | enlarge (w : Finset Nat)
  | districts (ds : List (Finset Nat))
  | emptyDistrict
  | factor (district : Finset Nat)
  | missingDistrict
  | recurse (larger : Finset Nat)
  | exchange (district : Finset Nat)

/-- The tests of `search_trz_state`, in its order. -/
def State.line (s : State) : Line :=
  if s.x = ∅ then .marginal
  else
    let anc := p.ancestors s.y s.v
    if anc ≠ s.v then .ancestors anc
    else
      let enlarged := (s.v \ s.x) \ p.ancestorsBarX s.y s.v s.x
      if enlarged ≠ ∅ then .enlarge enlarged
      else match p.cComponents (s.v \ s.x) with
        | [] => .emptyDistrict
        | [district] =>
          let containing := p.cComponents s.v
          if 1 < containing.length then
            if district ∈ containing then .factor district
            else match containing.find? fun d => district ⊆ d with
              | some larger => .recurse larger
              | none => .missingDistrict
          else .exchange district
        | ds => .districts ds

/-! ## The calls of a state -/

/-- The call of line 2. -/
def Frame.toAncestors (a : Frame) (anc : Finset Nat) : Frame :=
  { a with
    x := a.x ∩ anc
    v := anc
    kernel := sumOver p (a.v \ anc) a.kernel
    depth := a.depth + 1 }

/-- The call of line 3. -/
def Frame.toEnlarged (a : Frame) (w : Finset Nat) : Frame :=
  { a with x := a.x ∪ w, irrelevant := a.irrelevant ∪ w, depth := a.depth + 1 }

/-- The call of line 4 for a district. -/
def Frame.toDistrict (a : Frame) (district : Finset Nat) : Frame :=
  { a with y := district, x := a.v \ district, depth := a.depth + 1 }

/-- The call of line 8. -/
def Frame.toLarger (a : Frame) (larger : Finset Nat) : Frame :=
  { a with
    x := a.x ∩ larger
    v := larger
    kernel := a.factor p larger
    depth := a.depth + 1 }

/-- The call of line 10: the activated coordinates leave the state. -/
def Frame.toSource (a : Frame) (index : Nat) (controllable : List Nat) (activated : Finset Nat)
    (cumulative : List InterventionAssignment) (kernel : ExprTree) : Frame where
  y := a.y
  x := a.x \ activated
  v := a.v \ activated
  kernel := kernel
  active := some index
  remainingControllable := controllable.filter (· ∉ p.vars activated)
  activeInterventions := cumulative
  irrelevant := a.irrelevant
  depth := a.depth + 1

/-! ## Line 10 -/

/-- A source at line 10. -/
structure Eligibility where
  index : Nat
  domain : TrzDomain
  controllable : List Nat
  activated : Finset Nat
  separated : Bool

/-- A source that can be exchanged into. -/
def Eligibility.usable (e : Eligibility) : Bool := e.activated ≠ ∅ ∧ e.separated = true

variable (call : TrzCall)

def State.activated (s : State) (controllable : List Nat) : Except IdentificationError (Finset Nat) :=
  (controllable.mapM p.varToDense).map fun dense => (dense.filter (· ∈ s.x)).toFinset

def Frame.controllable (a : Frame) (index : Nat) (domain : TrzDomain) : List Nat :=
  if a.active = some index then a.remainingControllable else domain.controllable

/-- The sources a frame may exchange into: all of them, or the active one. -/
def Frame.candidates (a : Frame) : List (TrzDomain × Nat) :=
  call.domains.zipIdx.filter fun e => a.active = none ∨ a.active = some e.2

/-- The loop over the candidates. -/
def Frame.eligibility (a : Frame) : Except IdentificationError (List Eligibility) :=
  (a.candidates call).mapM fun e => do
    let controllable := a.controllable e.2 e.1
    let activated ← a.activated p controllable
    let separated ← a.admissibleSelections p e.1.selectionTargets
    pure ⟨e.2, e.1, controllable, activated, separated⟩

/-- The level of each exchanged coordinate (`search.rs:1237-1256`); a coordinate with none ends the
exchange. -/
def exchangedLevels (domain : TrzDomain) (irrelevant : Finset Nat) :
    List Nat → Except IdentificationError (Except Nat (List InterventionAssignment))
  | [] => .ok (.ok [])
  | variable' :: rest => do
    let dense ← p.varToDense variable'
    let level : Option InterventionAssignment :=
      if dense ∈ irrelevant ∧ variable' ∉ call.treatments then
        (domain.experimentAssignment.find? fun a => a.var = variable').map
          fun a => ⟨variable', a.value⟩
      else some (symbolic variable')
    match level with
    | none => pure (.error variable')
    | some level => do
      match ← exchangedLevels domain irrelevant rest with
      | .ok levels => pure (.ok (level :: levels))
      | .error unassigned => pure (.error unassigned)

/-- The interventions after an exchange: those there are, then the new ones. -/
def cumulate (active exchanged : List InterventionAssignment) : List InterventionAssignment :=
  exchanged.foldl (fun acc a => if acc.any fun b => b.var = a.var then acc else acc ++ [a]) active

section Search

variable {E : Type} (eng : Engine E)

abbrev Recursion (E : Type) := Frame → SearchM E (Option ExprTree)

/-- `search.rs:1214-1317`. -/
def exchangeTrzSource (next : Recursion E) (a : Frame) (e : Eligibility) :
    SearchM E (Option ExprTree) := do
  match ← ofExcept (exchangedLevels p call e.domain a.irrelevant (p.vars e.activated)) with
  | .error unassigned => do
    modify fun st => { st with unassigned := some unassigned }
    pure none
  | .ok exchanged => do
    let population := if call.domains.length = 1 then none else some e.domain.population
    push (.sourceExchange population (exchanged.map fun b => (b.var, b.value.asF64)))
    let cumulative := cumulate a.activeInterventions exchanged
    match ← eng.sourceCFactorRun (a.v \ e.activated) cumulative e.domain.population call.target
        a.depth with
    | none => pure none
    | some kernel => next (a.toSource p e.index e.controllable e.activated cumulative kernel)

def isBudgetOrCancel : IdentificationError → Bool
  | .cancelled | .budget _ => true
  | _ => false

/-- The branches a stop leaves unevaluated. -/
def deferLater (depth : Nat) (later : List Eligibility) (st : Run E) : Run E :=
  let defer := fun engine (l : Eligibility) => eng.defer l.domain.population depth engine
  { st with engine := later.foldl defer st.engine }

/-- The loop over the eligible sources: the first that certifies answers, and a stop defers the
sources after it. -/
def exchangeInTurn (next : Recursion E) (a : Frame) : List Eligibility → SearchM E (Option ExprTree)
  | [] => pure none
  | e :: later => ExceptT.mk fun st =>
    match (exchangeTrzSource p call eng next a e).run st with
    | (.ok (some result), st') => (.ok (some result), st')
    | (.ok none, st') => (exchangeInTurn next a later).run st'
    | (.error error, st') =>
      (.error error,
        if 1 < call.domains.length ∧ isBudgetOrCancel error = true then
          deferLater eng a.depth later st'
        else st')

/-- Whether another source could exchange beside the active one (`search.rs:1105-1119`). -/
def crossSource (a : Frame) (current : Nat) (found : Bool) (e : TrzDomain × Nat) :
    Except IdentificationError Bool :=
  if e.2 = current ∨ found = true then .ok found
  else do
    let activated ← a.activated p e.1.controllable
    if activated ≠ ∅ then a.admissibleSelections p e.1.selectionTargets else .ok false

def rawSorted (set : Finset Nat) : List Nat := (p.vars set).insertionSort (· ≤ ·)

/-- A source as line 11 records it. -/
def Eligibility.terminal (e : Eligibility) : TrzSourceTerminal where
  population := e.domain.population
  remainingControllable := e.controllable
  candidateActive := rawSorted p e.activated
  selectionSeparated := e.separated

/-- The record of line 11: one source is named by its own fields, several by the list. -/
def Frame.terminalFailure (a : Frame) (single : Bool) (district : Finset Nat)
    (eligibility : List Eligibility) (rules : List TraceEntry) : TrzTerminalFailure :=
  let sources := eligibility.map (Eligibility.terminal p)
  let first := if single then sources.head? else none
  { outcomes := p.vars a.y
    treatments := p.vars a.x
    vertices := p.vars a.v
    c0 := rawSorted p district
    remainingControllable := (first.map TrzSourceTerminal.remainingControllable).getD []
    candidateActive := (first.map TrzSourceTerminal.candidateActive).getD []
    activeInterventions := a.activeInterventions.map fun b => (b.var, b.value.asF64)
    selectionSeparated := (first.map TrzSourceTerminal.selectionSeparated).getD false
    rules
    sources := if single then [] else sources }

/-- Line 11 (`search.rs:1103-1171`): what a terminal leaves on record. -/
def fail (a : Frame) (district : Finset Nat) (eligibility : List Eligibility) : SearchM E Unit := do
  let single := call.domains.length = 1
  match a.active with
  | some current =>
    if ¬ single then
      let st ← get
      let cross ← ofExcept
        (call.domains.zipIdx.foldlM (crossSource p a current) st.crossSourceJoint)
      modify fun st => { st with crossSourceJoint := cross }
  | none => pure ()
  let recorded := (← get).terminalFailure
  let replace := recorded.all fun r =>
    ¬ single ∧ r.activeInterventions ≠ [] ∧ a.activeInterventions.isEmpty
  if replace then
    push .fail
    modify fun st => { st with
      terminalFailure := some (a.terminalFailure p single district eligibility st.trace) }

/-- Line 10, and line 11 where it does not apply. -/
def line10 (next : Recursion E) (a : Frame) (district : Finset Nat) :
    SearchM E (Option ExprTree) := do
  let eligibility ← ofExcept (a.eligibility p call)
  if eligibility.any Eligibility.usable then
    exchangeInTurn p call eng next a (eligibility.filter Eligibility.usable)
  else do
    fail p call a district eligibility
    pure none

/-- The loop of line 4. -/
def solveDistricts (next : Recursion E) (finish : List ExprTree → ExprTree) :
    List Frame → List ExprTree → SearchM E (Option ExprTree)
  | [], expressions => pure (some (finish expressions))
  | b :: rest, expressions => do
    match ← next b with
    | none => pure none
    | some child => solveDistricts next finish rest (expressions ++ [child])

/-- One call of `search_trz_state` (`search.rs:918-1209`), given what it does at line 10. -/
def searchBody (ten : Recursion E → Frame → Finset Nat → SearchM E (Option ExprTree))
    (next : Recursion E) (a : Frame) : SearchM E (Option ExprTree) := do
  eng.chargeRun a.depth
  match a.line p with
  | .marginal => do
    push .marginal
    pure (some (sumOver p (a.v \ a.y) a.kernel))
  | .ancestors anc => do
    push .ancestors
    next (a.toAncestors p anc)
  | .enlarge w => do
    push .enlarge
    match ← next (a.toEnlarged w) with
    | none => pure none
    | some child =>
      if (p.vars w).any fun id => id ∈ child.freeVariables then do
        push .kernelWeighted
        pure (some (a.enlargeOutput p w child))
      else pure (some child)
  | .districts ds => do
    push .districts
    solveDistricts next (fun expressions => sumOver p ((a.v \ a.x) \ a.y) (.product expressions))
      (ds.map a.toDistrict) []
  | .emptyDistrict => throw (.invariantViolated "z_transport.empty_district")
  | .factor district => do
    push .factor
    pure (some (sumOver p (district \ a.y) (a.factor p district)))
  | .missingDistrict => throw (.invariantViolated "z_transport.missing_containing_district")
  | .recurse larger => do
    push .recurse
    next (a.toLarger p larger)
  | .exchange district => ten next a district

/-- `search.rs:918-1209`. -/
def searchTrzState : Nat → Recursion E
  | 0, _ => throw (.message "unreachable")
  | depth + 1, a => searchBody p eng (line10 p call eng) (searchTrzState depth) a

end Search

/-- `Engine::initial` (`sid.rs:759-782`) and the first call of `search_trz_call`. -/
def initialFrame : Except IdentificationError Frame := do
  let y ← call.outcomes.mapM p.varToDense
  let x ← call.treatments.mapM p.varToDense
  let v := p.topo.toFinset
  pure {
    y := y.toFinset
    x := x.toFinset
    v
    kernel := .distribution ⟨sortDedup (p.vars v), [], [], .observational, call.target, none⟩
    active := none
    remainingControllable := []
    activeInterventions := []
    irrelevant := ∅
    depth := 0 }

end Antecedent.Identify.ZTransport
