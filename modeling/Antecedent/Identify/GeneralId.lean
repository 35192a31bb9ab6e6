import Antecedent.Expr.FrontDoor
import Antecedent.Identify.Hedge

/-!
# The general identifier

Model of `antecedent-identify/src/id.rs`: the ID recursion over `(Y, X, V)` and the current law, and
the entry points that issue its results. The functional is the tree the arena interns. The memo
table is left to `GeneralIdMemo`, which shows that a hit returns what the call would; a recursion
carries a bound on its depth that `idRun_settled` shows to be enough.

An intervention is given by what reading it answers (`intervention_support.rs`), and the checks of a
query that do not read the graph by their verdict. `simplify` of a contrast is a parameter.
-/

namespace Antecedent.Identify.GeneralId

open Core
open Expr

instance finsetLawfulBEq : LawfulBEq (Finset Nat) := inferInstance

/-! ## Laws -/

/-- `Assign` (`id.rs:41`): the level of each intervened node. -/
abbrev Assign := List (Nat × Value)

/-- `Factor` (`id.rs:76-85`); the `Law` below a conditional is its sumset and its factors. -/
inductive Factor
  | observed (var : Nat) (cond : Finset Nat)
  | conditional (var : Nat) (sumset : Finset Nat) (factors : List Factor)

/-- `id.rs:68-72`. -/
structure Law where
  sumset : Finset Nat
  factors : List Factor

/-- `id.rs:52-58`. -/
inductive DistCtx
  | marginal
  | cFactor (law : Law)

/-- `id.rs:88-92`. -/
def Factor.var : Factor → Nat
  | .observed v _ => v
  | .conditional v _ _ => v

/-- `id.rs:1098-1109`. -/
def DistCtx.marginalize (removed : Finset Nat) : DistCtx → DistCtx
  | .marginal => .marginal
  | .cFactor law => .cFactor { law with sumset := law.sumset ∪ removed }

variable (p : PreparedAdmg)

/-- The nodes of `v` in topological order, each with those before it. -/
def preceding (v : Finset Nat) : List (Nat × Finset Nat) :=
  let order := p.topo.filter (· ∈ v)
  order.zipIdx.map fun e => (e.1, (order.take e.2).toFinset)

/-- `id.rs:1080-1094`. -/
def marginalConditionals (s v : Finset Nat) : List Factor :=
  ((preceding p v).filter fun e => e.1 ∈ s).map fun e => .observed e.1 e.2

/-- `id.rs:1124-1157`. -/
def Law.conditionals (law : Law) (s v : Finset Nat) : Except IdentificationError (List Factor) :=
  if law.sumset = ∅ then
    let kept := law.factors.filter fun f => f.var ∈ s
    if kept.length = s.card then .ok kept
    else .error (.invariantViolated
      "general ID: current law does not cover the requested C-component")
  else .ok (((preceding p v).filter fun e => e.1 ∈ s).map fun e =>
    .conditional e.1 (law.sumset ∪ (v \ insert e.1 e.2)) law.factors)

/-! ## Emission -/

/-- One assignment after those of smaller variables: repeating a level is idle, a second level is
refused. -/
def pushAssignment (kept : List InterventionAssignment) (a : InterventionAssignment) :
    Except IdentificationError (List InterventionAssignment) :=
  match kept.getLast? with
  | some last =>
    if last.var = a.var then
      if last.value = a.value then .ok kept
      else .error (.invalidInput "identification.conflicting_intervention_levels")
    else .ok (kept ++ [a])
  | none => .ok (kept ++ [a])

/-- `try_intern_intervention_assignments` (`lib.rs:462-487`) as `intern_assignments`
(`intervention_support.rs:27-34`) reads it: one level a variable. -/
def internAssignments (assignments : List InterventionAssignment) :
    Except IdentificationError (List InterventionAssignment) :=
  (assignments.insertionSort fun a b => a.var ≤ b.var).foldlM pushAssignment []

/-- `id.rs:1404-1423`. -/
def interventionForFactor (assign : Assign) (vi : Nat) (conditionedOn : List Nat) :
    Except IdentificationError (List InterventionAssignment × DomainRef) :=
  let touching := (assign.filter fun e => e.1 = vi ∨ p.denseToVar e.1 ∈ conditionedOn).map
    fun e => ⟨p.denseToVar e.1, e.2⟩
  if touching.isEmpty then .ok ([], .observational)
  else do
    let intervention ← internAssignments touching
    .ok (intervention, .interventional)

/-- One factor `P(var | cond)`. -/
def emitDistribution (assign : Assign) (var : Nat) (cond : List Nat) :
    Except IdentificationError ExprTree := do
  let (intervention, domain) ← interventionForFactor p assign var cond
  .ok (distribution [p.denseToVar var] cond intervention domain)

/-- A product, unless there is one factor. -/
def productOf : List ExprTree → ExprTree
  | [e] => e
  | exprs => .product exprs

def sumOver (nodes : Finset Nat) (body : ExprTree) : ExprTree :=
  if nodes = ∅ then body else .sumOut (sortDedup (p.vars nodes)) body

mutual

/-- `id.rs:1199-1245`. -/
def Factor.emit (assign : Assign) (bound : Finset Nat) :
    Factor → Except IdentificationError ExprTree
  | .observed var cond =>
    emitDistribution p (assign.filter fun e => e.1 ∉ bound) var (p.vars cond)
  | .conditional var sumset factors => do
    let numerator := sumOver p sumset (productOf (← emitAll assign (bound ∪ sumset) factors))
    -- the denominator sums the numerator itself, unless a label would pin its variable
    let labelled := var ∉ bound ∧ assign.any fun e => e.1 = var
    let body ← if labelled then do
        pure (sumOver p sumset (productOf (← emitAll assign (insert var bound ∪ sumset) factors)))
      else pure numerator
    .ok (.ratio numerator (.sumOut [p.denseToVar var] body))

def emitAll (assign : Assign) (bound : Finset Nat) :
    List Factor → Except IdentificationError (List ExprTree)
  | [] => .ok []
  | f :: fs => do
    let e ← f.emit assign bound
    let es ← emitAll assign bound fs
    .ok (e :: es)

end

/-- `id.rs:1165-1191`. -/
def Law.emit (assign : Assign) (bound : Finset Nat) (law : Law) :
    Except IdentificationError ExprTree := do
  let exprs ← emitAll p assign (bound ∪ law.sumset) law.factors
  .ok (sumOver p law.sumset (productOf exprs))

/-- `id.rs:1321-1357`. -/
def qComponentProduct (assign : Assign) (s v : Finset Nat) :
    Except IdentificationError ExprTree := do
  let factors ← ((preceding p v).filter fun e => e.1 ∈ s).mapM fun e =>
    emitDistribution p assign e.1 (p.vars e.2)
  if factors.isEmpty then .ok (distribution (p.vars s) [] [] .observational)
  else .ok (productOf factors)

/-- `id.rs:1359-1401`. -/
def markovProduct (assign : Assign) (v : Finset Nat) : Except IdentificationError ExprTree := do
  let factors ← (p.topo.filter (· ∈ v)).mapM fun vi =>
    emitDistribution p assign vi (((p.admg.parents vi).filter (· ∈ v)).map p.denseToVar)
  if factors.isEmpty then .ok (distribution [] [] [] .observational)
  else .ok (productOf factors)

/-- `id.rs:1258-1297`. -/
def observationalMarginal (assign : Assign) (y v : Finset Nat) :
    Except IdentificationError ExprTree := do
  let factors ← match p.cComponents v with
    | [] => markovProduct p assign v
    | comps => do pure (productOf (← comps.mapM fun s => qComponentProduct p assign s v))
  .ok (sumOver p (v \ y) factors)

/-- `id.rs:1299-1319`. -/
def cComponentExpression (assign : Assign) (s y v : Finset Nat) :
    Except IdentificationError ExprTree := do
  let product ← qComponentProduct p assign s v
  .ok (sumOver p (s \ y) product)

/-- `id.rs:1248-1269`. -/
def distMarginal (assign : Assign) (y v : Finset Nat) :
    DistCtx → Except IdentificationError ExprTree
  | .marginal => observationalMarginal p assign y v
  | .cFactor law => Law.emit p assign ∅ ⟨v \ y ∪ law.sumset, law.factors⟩

/-- The current law's C-factor on a district (`id.rs:1038-1051`). -/
def districtFactor (assign : Assign) (s y v : Finset Nat) :
    DistCtx → Except IdentificationError ExprTree
  | .marginal => cComponentExpression p assign s y v
  | .cFactor law => do
    let factors ← law.conditionals p s v
    Law.emit p assign ∅ ⟨s \ y, factors⟩

/-- The conditionals of the current law (`id.rs:1064-1067`). -/
def DistCtx.conditionals (s v : Finset Nat) : DistCtx → Except IdentificationError (List Factor)
  | .marginal => .ok (marginalConditionals p s v)
  | .cFactor law => law.conditionals p s v

/-! ## The recursion -/

/-- `id.rs:118-121`. -/
inductive IdOutcome
  | expr (e : ExprTree)
  | fail (hedge : HedgeCertificate)

/-- `IdQuery` (`id.rs:109-115`), without the labels, which no line changes. -/
structure IdQuery where
  y : Finset Nat
  x : Finset Nat
  v : Finset Nat
  dist : DistCtx

/-- What a call answers; `none` when the bound on the depth is spent. -/
abbrev Answer := Option (Except IdentificationError IdOutcome)

/-- Line 4: the factors in turn, the first failure ending it (`id.rs:973-995`). -/
def factorize (call : IdQuery → Answer) (finish : List ExprTree → ExprTree) :
    List IdQuery → List ExprTree → Answer
  | [], factors => some (.ok (.expr (finish factors)))
  | q :: qs, factors => match call q with
    | some (.ok (.expr e)) => factorize call finish qs (factors ++ [e])
    | answer => answer

/-- `id.rs:1022-1078`. -/
def idLines5To7 (assign : Assign) (call : IdQuery → Answer) (q : IdQuery) (s : Finset Nat) :
    Answer :=
  if s ∈ p.cComponents q.v then
    some ((districtFactor p assign s q.y q.v q.dist).map .expr)
  else match (p.cComponents q.v).find? fun c => s ⊆ c ∧ c ≠ s with
    | some s' => match q.dist.conditionals p s' q.v with
      | .ok factors => call ⟨q.y, q.x ∩ s', s', .cFactor ⟨∅, factors⟩⟩
      | .error e => some (.error e)
    | none => some (.error (.invariantViolated
        "general ID: no line applies to the current C-component state"))

/-- `id.rs:925-1019`. -/
def idBody (assign : Assign) (call : IdQuery → Answer) (q : IdQuery) : Answer :=
  if q.x = ∅ then some ((distMarginal p assign q.y q.v q.dist).map .expr)
  else
    let anY := p.ancestors q.y q.v
    if q.v ≠ anY then call ⟨q.y, q.x ∩ anY, anY, q.dist.marginalize (q.v \ anY)⟩
    else
      let w := (q.v \ q.x) \ p.ancestorsBarX q.y q.v q.x
      if w ≠ ∅ then call { q with x := q.x ∪ w }
      else match p.cComponents (q.v \ q.x) with
        | [] => some (.error (.invariantViolated
            "general ID: outcomes are not disjoint from interventions"))
        | [s] =>
          if p.isSingleCComponent q.v then some (.ok (.fail (.fromSets p q.v s)))
          else idLines5To7 p assign call q s
        | comps => factorize call
            (fun factors => sumOver p ((q.v \ q.y) \ q.x) (.product factors))
            (comps.map fun s => ⟨s, q.v \ s, q.v, q.dist⟩) []

/-- `id.rs:898-923`. -/
def idRecurse (assign : Assign) : Nat → IdQuery → Answer
  | 0, _ => none
  | depth + 1, q => idBody p assign (idRecurse assign depth) q

def maxDepth : Nat := (p.admg.nodeCount + 1) * (p.admg.nodeCount + 1)

/-- The call every entry point starts with. -/
def idRun (assign : Assign) (y x : Finset Nat) : Answer :=
  idRecurse p assign (maxDepth p + 1) ⟨y, x, .range p.admg.nodeCount, .marginal⟩

end Antecedent.Identify.GeneralId
