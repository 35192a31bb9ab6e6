import Antecedent.Discovery.Orientation
import Antecedent.Discovery.Skeleton

/-!
# PC

Model of `Pc::run` (`pc.rs`): the checks, the columns and the prepared CI test, the adjacency search,
the optional correction for multiple tests, and the orientation of what is left.

The columns, the CI test and the adjustment of a family of p-values are parameters. A `HashMap` is read
in an order of its own, `hashOrder`. The review, the assumptions and the algorithm record of a result
are left out.
-/

namespace Antecedent.Discovery

open Graph

/-! ## Parameters -/

/-- What the searches ask of a `ConditionalIndependence`, for a significance method and columns of
`F`; `resolutionText` formats the numbers of its diagnostic. -/
structure ConditionalIndependence (F : Type) where
  minAttainableP : ℚ
  pValueIsFrequentist : Bool
  seriesAlignedWeightsLen : Option Nat
  prepare : List (List F) → Except String CiTest
  resolutionText : ℚ → Nat → String

/-- `FdrAdjustment`: `adjust_pvalues` with its method, and what enters the family. -/
structure FdrAdjustment where
  adjust : List ℚ → List ℚ
  excludeContemporaneous : Bool

/-- `ExecutionContext`, what the static searches read of it. -/
structure ExecutionContext where
  threads : Nat
  cancelled : Bool
  hashOrder : PcSepsets → PcSepsets

structure Pc (F : Type) where
  constraints : DiscoveryConstraints
  ci : ConditionalIndependence F
  fdr : Option FdrAdjustment

/-- `TabularData::float64_values`. -/
abbrev TabularData (F : Type) := Nat → Except String (List F)

/-! ## Results -/

structure DiscoveryDiagnostic where
  code : String
  message : String

/-- `EdgeEvidence`; these searches give no interval. -/
structure EdgeEvidence where
  link : LaggedLink
  statistic : Option ℚ
  pValue : Option ℚ
  adjustedPValue : Option ℚ
  separatingSet : Option (List (Nat × Nat))
  provenance : List String

/-- `GraphEvidence`, without its source. -/
structure GraphEvidence where
  graph : Cpdag
  edgeEvidence : List EdgeEvidence
  links : List ScoredLink

structure DiscoveryPerformanceRecord where
  ciTests : Nat
  linksRetained : Nat
  targets : Nat

structure DiscoveryResult where
  evidence : GraphEvidence
  iterations : List DiscoveryIteration
  diagnostics : List DiscoveryDiagnostic
  performance : DiscoveryPerformanceRecord
  sepsets : PcSepsets

/-- `From<OrientationError>` (`orientation.rs:242-255`). -/
def OrientationError.toDiscovery : OrientationError → DiscoveryError
  | .graph e => .graph e
  | .precondition m => .unsupported m
  | .searchBudgetExhausted rule maxPaths maxLen => .orientation ("path search budget exhausted in " ++
      rule ++ " (max_paths=" ++ toString maxPaths ++ ", max_len=" ++ toString maxLen ++ ")")
  | .message m => .orientation m

/-- `map_err(DiscoveryError::from)`. -/
def liftGraph {α : Type} : Except GraphError α → Except DiscoveryError α
  | .ok a => .ok a
  | .error e => .error (.graph e)

def liftOrientation {α : Type} : Except OrientationError α → Except DiscoveryError α
  | .ok a => .ok a
  | .error e => .error e.toDiscovery

/-! ## The columns -/

section Columns

variable {F : Type} (ci : ConditionalIndependence F)

/-- `ci.rs:97-111`. -/
def ensureCiDecisionsMeaningful (alpha : ℚ) (fdrRequested : Bool) : Except DiscoveryError Unit :=
  if ci.minAttainableP ≥ alpha then
    .error (.stats ("the CI test's smallest attainable p-value is not below alpha, so it can " ++
      "never declare dependence: use more permutation replicates " ++
      "(SignificanceMethod::BlockShuffle \x7b replicates, .. \x7d) or a larger alpha"))
  else if fdrRequested && !ci.pValueIsFrequentist then
    .error (.unsupported ("FDR adjustment requires frequentist p-values; this CI test reports a " ++
      "posterior probability of independence in p_value"))
  else .ok ()

/-- `ci.rs:181-191`. -/
def ensureCiFitsRows (nRows : Nat) : Except DiscoveryError Unit :=
  match ci.seriesAlignedWeightsLen with
  | some weights =>
    if weights ≠ nRows then
      .error (.unsupported "observation weights must have exactly one entry per data row")
    else .ok ()
  | none => .ok ()

def collectFloatColumns (data : TabularData F) (vars : List Nat) :
    Except DiscoveryError (List (List F)) :=
  vars.mapM fun v => match data v with
    | .ok c => .ok c
    | .error e => .error (.data e)

/-- `prepare_static_columns` (`pc.rs:384-410`): the index of the variables and the prepared test. -/
def prepareStaticColumns (alpha : ℚ) (fdr : Bool) (emptyVariables insufficientRows : String)
    (data : TabularData F) (vars : List Nat) :
    Except DiscoveryError ((Nat → Option Nat) × CiTest) := do
  ensureCiDecisionsMeaningful ci alpha fdr
  if vars.isEmpty then .error (.unsupported emptyVariables)
  let owned ← collectFloatColumns data vars
  let n := (owned.head?.map List.length).getD 0
  ensureCiFitsRows ci n
  if n < 3 then .error (.stats insufficientRows)
  if owned.any fun c => c.length != n then .error (.data "column length mismatch")
  match ci.prepare owned with
  | .ok test => return (lastIdx vars, test)
  | .error e => .error (.stats e)

end Columns

/-! ## Multiple tests -/

/-- The p-value of an edge: the largest over its tests, by ascending key. -/
def edgeFamily (familyP : List ℚ) (familyEdge : List (Nat × Nat)) : List ((Nat × Nat) × ℚ) :=
  (familyEdge.dedup.insertionSort (pairLe · ·)).map fun key =>
    (key, match ((familyP.zip familyEdge).filter fun t => t.2 == key).map Prod.fst with
      | [] => 0
      | p :: ps => ps.foldl max p)

def inFdrFamily (s : ScoredLink) (cfg : FdrAdjustment) : Bool :=
  !(cfg.excludeContemporaneous && (s.link.sourceLag == 0 && s.link.targetLag == 0))

/-- The adjusted values, given in order to the links of the family. -/
def assignAdjusted (cfg : FdrAdjustment) : List ScoredLink → List ℚ → List ScoredLink
  | [], _ => []
  | s :: l, [] => s :: l
  | s :: l, p :: ps =>
    if inFdrFamily s cfg then { s with adjustedPValue := some p } :: assignAdjusted cfg l ps
    else s :: assignAdjusted cfg l (p :: ps)

/-- `evidence.rs:38-63`. -/
def thresholdScoredLinks (scored : List ScoredLink) (fdr : Option FdrAdjustment) (alpha : ℚ) :
    List ScoredLink :=
  let adjusted : List ScoredLink := match fdr with
    | none => scored
    | some cfg => assignAdjusted cfg scored (cfg.adjust
        ((scored.filter fun s => inFdrFamily s cfg).map fun s => s.pValue.getD 0))
  adjusted.filter fun s => (s.adjustedPValue.or s.pValue).any fun p => decide (p ≤ alpha)

/-- `evidence.rs:90-127`. -/
def retainAfterFamilyFdr (surviving : List ScoredLink) (familyP : List ℚ)
    (familyEdge : List (Nat × Nat)) (fdr : Option FdrAdjustment) (alpha : ℚ) : List ScoredLink :=
  match fdr with
  | none => surviving
  | some cfg =>
    if familyP.isEmpty || familyP.length != familyEdge.length then
      thresholdScoredLinks surviving (some cfg) alpha
    else
      let family := edgeFamily familyP familyEdge
      let adjusted := (family.map Prod.fst).zip (cfg.adjust (family.map Prod.snd))
      let adjustedOf (s : ScoredLink) : Option ℚ :=
        (adjusted.find? (·.1 == edgeKey s.link.source s.link.target)).map Prod.snd
      (surviving.map fun s => match adjustedOf s with
        | some p => { s with adjustedPValue := some p }
        | none => s).filter fun s => (adjustedOf s).all fun p => decide (p ≤ alpha)

/-- `ci.rs:122-144`. -/
def fdrResolutionDiagnostic {F : Type} (ci : ConditionalIndependence F) (alpha : ℚ)
    (familySize : Nat) : Option DiscoveryDiagnostic :=
  if familySize < 2 ∨ ci.minAttainableP ≤ alpha / familySize then none
  else some ⟨"ci.fdr_resolution", ci.resolutionText alpha familySize⟩

/-- `static_skeleton.rs:652-670`. -/
def skeletonScoredLinks (skel : StaticSkeleton) : List ScoredLink :=
  (skel.adj.edgePairs.insertionSort (pairLe · ·)).map fun e =>
    (skel.edgeScores e).getD ⟨contempLink e.1 e.2, none, none, none⟩

/-- `static_skeleton.rs:676-704`. -/
def staticEdgeEvidence (scored : List ScoredLink) (sepsets : PcSepsets) (algorithm : String) :
    List EdgeEvidence :=
  scored.map fun s =>
    let tested := s.pValue.isSome && s.statistic.isSome
    { link := s.link
      statistic := if tested then s.statistic else none
      pValue := if tested then s.pValue else none
      adjustedPValue := s.adjustedPValue
      separatingSet := (sepsets.find? (·.1 == (s.link.source, 0, s.link.target, 0))).map Prod.snd
      provenance := if tested then [algorithm] else [algorithm, "required"] }

/-- `static_skeleton.rs:555-571`. -/
def parentLimitDiagnostic (removed : List (Nat × Nat)) (algorithm : String) :
    Option DiscoveryDiagnostic :=
  if removed.isEmpty then none
  else some ⟨algorithm ++ ".parent_limit_removed_adjacencies",
    "max_parents removed " ++ toString removed.length ++ " adjacenc" ++
      (if removed.length = 1 then "y" else "ies") ++ " that no CI test had separated (" ++
      ", ".intercalate (removed.map fun e => toString e.1 ++ "-" ++ toString e.2) ++
      "); orientations around them rest on the limit, not on a separating set"⟩

/-! ## From the skeleton to the graph -/

/-- `dense_of` (`pipeline.rs:24-32`); a position is below `2 ^ 32`. -/
def denseOf (varIndex : Nat → Option Nat) (v : Nat) : Except DiscoveryError Nat :=
  match varIndex v with
  | some i => .ok i
  | none => .error (.data ("unknown variable VariableId(" ++ toString v ++ ")"))

/-- `Cpdag::with_variables`: a refused node is dropped. -/
def withVariables (n : Nat) : Cpdag :=
  (List.range n).foldl (fun g i => match g.addNode (.static i) with
    | .ok (g, _) => g
    | .error _ => g) .empty

theorem withVariables_spec {n : Nat} (hn : n ≤ u32Max + 1) :
    (withVariables n).nodes = (List.range n).map .static ∧ ∀ a b, look (withVariables n).adj a b = none := by
  refine foldl_static Pdag.nodes (fun g => ∀ a b, look g.adj a b = none) ⟨rfl, Pdag.look_empty⟩
    (fun g n hg h => ?_) hn
  obtain ⟨g', hok, hnodes, hl⟩ := g.addNode_ok (show Kind.static.admits (.static n) = true from rfl) hg
  rw [hok]
  exact ⟨hnodes, fun a b => (hl a b).trans (h a b)⟩

/-- One node per variable: position and id agree, or the nodes are added in order. -/
def cpdagNodes (vars : List Nat) : Except DiscoveryError Cpdag :=
  if vars.zipIdx.any fun v => v.1 != v.2 then
    vars.foldlM (fun (g : Cpdag) v => do
      let (g, _) ← liftGraph (g.addNode (.static v))
      return g) .empty
  else .ok (withVariables (min vars.length u32Max))

def insertSkeletonEdge (varIndex : Nat → Option Nat) (g : Cpdag) (e : Nat × Nat) :
    Except DiscoveryError Cpdag := do
  let a ← denseOf varIndex e.1
  let b ← denseOf varIndex e.2
  liftGraph (g.insertUndirected a b)

/-- One entry of `load_sepsets_into_state` (`pc.rs:418-432`). -/
def loadSepset (varIndex : Nat → Option Nat) (state : OrientationState)
    (e : SepKey × List (Nat × Nat)) : Except DiscoveryError OrientationState :=
  let (sx, _, ty, _) := e.1
  if sx > ty then .ok state
  else do
    let a ← denseOf varIndex sx
    let b ← denseOf varIndex ty
    let sep ← e.2.mapM fun v => denseOf varIndex v.1
    return state.setSepset a b sep

/-- `orient_fixed_directions` (`pc.rs:291-325`) at one pair. Its delta is dropped. -/
def orientFixedAt (k : DiscoveryConstraints) (varIndex : Nat → Option Nat) (p : Pass .static)
    (pair : Nat × Nat) : Except DiscoveryError (Pass .static) :=
  match k.staticDirection pair.1 pair.2 with
  | none => .ok p
  | some fixed => do
    let src ← denseOf varIndex fixed.src
    let dst ← denseOf varIndex fixed.dst
    match p.graph.edgeBetween src dst with
    | none => return p
    | some edge =>
      if !edge.isUndirected then
        return if edge.parentChild.any (·.1 == dst) then (p.conflict src dst).1 else p
      else
        let (p, _) ← liftOrientation (p.tryOrientUndirected src dst)
        return p

def orientFixedDirections (k : DiscoveryConstraints) (vars : List Nat)
    (varIndex : Nat → Option Nat) (g : Cpdag) (state : OrientationState) :
    Except DiscoveryError (Cpdag × OrientationState) := do
  let p ← (pairsOf vars).foldlM (orientFixedAt k varIndex) ⟨g, state, .default, []⟩
  return (p.graph, p.state)

namespace Pc

variable {F : Type} (pc : Pc F)

def correct (skel : StaticSkeleton) :
    List ScoredLink × UndirectedAdj × Option DiscoveryDiagnostic :=
  let alpha := pc.constraints.alpha
  let (tested, untested) := (skeletonScoredLinks skel).partition fun s => s.pValue.isSome
  let familySize :=
    if skel.familyP.length == skel.familyEdge.length && !skel.familyEdge.isEmpty then
      skel.familyEdge.dedup.length
    else tested.length
  let diagnostic := pc.fdr.bind fun _ => fdrResolutionDiagnostic pc.ci alpha familySize
  let scored :=
    retainAfterFamilyFdr tested skel.familyP skel.familyEdge pc.fdr alpha ++ untested
  let kept := scored.map fun s => edgeKey s.link.source s.link.target
  (scored, if pc.fdr.isSome then skel.adj.retain fun e => kept.contains e else skel.adj, diagnostic)

/-- `pc.rs:123-270`. -/
def run (data : TabularData F) (vars : List Nat) (ctx : ExecutionContext) :
    Except DiscoveryError DiscoveryResult := do
  pc.constraints.validate
  match pc.constraints.checkBackgroundKnowledge .equivalenceClass vars with
  | .error fault => .error (.knowledge fault)
  | .ok () => .ok ()
  let (varIndex, test) ← prepareStaticColumns pc.ci pc.constraints.alpha pc.fdr.isSome
    "PC requires at least one variable" "insufficient rows for PC" data vars
  let skel ← runStaticSkeleton
    ⟨test, pc.constraints, varIndex, vars, "pc.depth", ctx.threads, ctx.cancelled⟩
  let (scored, adj, fdrDiagnostic) := pc.correct skel
  let cpdag ← cpdagNodes vars
  let cpdag ← adj.edgePairs.foldlM (insertSkeletonEdge varIndex) cpdag
  let state ← (ctx.hashOrder skel.sepsets).foldlM (loadSepset varIndex) .empty
  let (cpdag, state) ← orientFixedDirections pc.constraints vars varIndex cpdag state
  let ((cpdag, state), delta) ← liftOrientation (runOrientationToFixedPoint pcRules cpdag state)
  let conflicts :=
    if state.conflicts > 0 ∨ delta.conflicts > 0 then
      [⟨"pc.orientation_conflict",
        toString (max state.conflicts delta.conflicts) ++ " orientation conflict(s)"⟩]
    else []
  return {
    evidence := ⟨cpdag, staticEdgeEvidence scored skel.sepsets "pc", scored⟩
    iterations := skel.iterations
    diagnostics := fdrDiagnostic.toList ++
      (parentLimitDiagnostic skel.parentLimitRemoved "pc").toList ++ conflicts
    performance := ⟨skel.ciTests, adj.nEdges, vars.length⟩
    sepsets := skel.sepsets }

end Pc

end Antecedent.Discovery
