import Antecedent.Expr.Arena
import Antecedent.Identify.Prepared

/-!
# Mixed-source queries and proof steps

Model of the data of the mixed-source search (`antecedent-identify/src/sid/mixed_source.rs`): the
query and its canonical form, the classification of the catalog's regimes into inputs
(`validate_mixed_source_query`, 402-518), the ten rules, a proof step and the expression a step
builds (`build_expression`, 848-890).

* `validate_cases`: what validation establishes of the query and of the inputs.
-/

namespace Antecedent.Identify

open Core
open Expr
open Graph

/-- `MIXED_SOURCE_MAX_OBSERVED`. -/
def mixedSourceMaxObserved : Nat := 10

/-- `MIXED_SOURCE_MAX_DISTRIBUTIONS`. -/
def mixedSourceMaxDistributions : Nat := 16

/-- `MIXED_SOURCE_MAX_MOVE`. -/
def mixedSourceMaxMove : Nat := 2

/-- `MIXED_SOURCE_MAX_DO`. -/
def mixedSourceMaxDo : Nat := 3

/-- `MZ_TRANSPORT_MAX_SOURCES`. -/
def mzTransportMaxSources : Nat := 4

/-- `MZ_TRANSPORT_MAX_CONTROLLABLE_PER_SOURCE`. -/
def mzTransportMaxControllablePerSource : Nat := 4

def boundsExceeded : IdentificationError := .unsupportedInput "mixed_search.bounds_exceeded"

def invalidQuery (detail : String) : IdentificationError :=
  .invalidInput ("mixed_search.invalid_query: " ++ detail)

def invalidDerivation : IdentificationError :=
  .invalidDerivation "mixed_search.invalid_derivation"

/-! ## The rule set and the query -/

/-- Lines 166-190. -/
inductive MixedRule
  | input
  | marginalize
  | condition
  | product
  | rule1Insert
  | rule1Delete
  | rule2ToDo
  | rule2ToObservation
  | rule3Insert
  | rule3Delete
  deriving DecidableEq

/-- `z_transport.rs:234-243`. -/
structure ZTransportSourceSpec where
  population : String
  controllable : List Nat
  experimentAssignment : List InterventionAssignment
  selectionTargets : List Nat

/-- Lines 270-279. -/
structure MixedSourceQuery where
  outcomes : List Nat
  treatments : List Nat
  target : String
  sources : List ZTransportSourceSpec

/-- A sorted copy (`sort_unstable`). -/
def sorted (vars : List Nat) : List Nat := vars.insertionSort (· ≤ ·)

variable {vars : List Nat} {target : String} {graph : Admg}

@[simp] theorem mem_sorted {v : Nat} : v ∈ sorted vars ↔ v ∈ vars := by
  simp [sorted]

/-- `mz_transport.rs:171-198`. -/
def MixedSourceQuery.canonical (q : MixedSourceQuery) : MixedSourceQuery where
  outcomes := sorted q.outcomes
  treatments := sorted q.treatments
  target := q.target
  sources := (q.sources.map fun s => { s with
      controllable := sorted s.controllable
      experimentAssignment := s.experimentAssignment.insertionSort fun a b => a.var ≤ b.var
      selectionTargets := sorted s.selectionTargets }).insertionSort
    fun a b => a.population ≤ b.population

structure MixedExclusion where
  regime : Nat
  reason : String

/-- Lines 321-337. -/
structure MixedInput where
  regime : Nat
  study : String
  measured : List Nat
  intervened : List Nat
  identity : String
  snapshot : Option String
  marginals : List Nat
  deriving DecidableEq

/-- Lines 340-353. -/
structure ValidatedMixedSourceQuery where
  query : MixedSourceQuery
  inputs : List MixedInput
  marginalInputs : List MixedInput
  exclusions : List MixedExclusion
  metaScope : Bool

/-- `static_nodes.rs:12-21`. -/
def staticVariables : List NodeRef → Option (List Nat)
  | [] => some []
  | .static v :: nodes => (staticVariables nodes).map (v :: ·)
  | _ :: _ => none

theorem staticVariables_length : ∀ {nodes : List NodeRef} {vars : List Nat},
    staticVariables nodes = some vars → vars.length = nodes.length
  | [], vars, h => by
    cases h
    rfl
  | .static v :: nodes, vars, h => by
    obtain ⟨rest, hrest, rfl⟩ := Option.map_eq_some_iff.mp h
    rw [List.length_cons, List.length_cons, staticVariables_length hrest]

/-- Lines 362-365. -/
def denseVariables (graph : Admg) : Except IdentificationError (List Nat) :=
  match staticVariables graph.nodes with
  | some vars => .ok vars
  | none => .error (invalidQuery "the graph must consist of static variables")

theorem denseVariables_length
    (h : denseVariables graph = .ok vars) : vars.length = graph.nodeCount := by
  unfold denseVariables at h
  cases hs : staticVariables graph.nodes with
  | none =>
    rw [hs] at h
    cases h
  | some vs =>
    rw [hs] at h
    cases h
    exact staticVariables_length hs

/-! ## Validation -/

/-- What the loop of `validate_mixed_source_query` makes of one distribution. -/
inductive RegimeClass
  | excluded (reason : String)
  | joint (input : MixedInput)
  | separate (input : MixedInput)

def inputOf (d : CatalogDistribution) (marginals : List Nat) : MixedInput where
  regime := d.sourceRegime
  study := d.studyOrPopulation
  measured := sorted (d.measured.filter (· ∉ d.interventions))
  intervened := sorted d.interventions
  identity := d.canonicalIdentity
  snapshot := d.snapshot
  marginals := sorted marginals

/-- One turn of the loop (`mixed_source.rs:427-513`). -/
def classify (vars : List Nat) (target : String) (d : CatalogDistribution) :
    Except IdentificationError RegimeClass :=
  if d.population ≠ target then .ok (.excluded "other_population")
  else if d.evidenceKind.canSatisfyFactor = false then .ok (.excluded "not_available")
  else match d.origin with
  | .recovered _ => .ok (.excluded "recovered_law")
  | .modelArtifact _ =>
    if d.kind = .experimental then .error (.unsupportedInput "mixed_search.posterior_as_law")
    else .ok (.excluded "model_artifact")
  | .measured =>
    if d.selection ≠ .population then .ok (.excluded "selected_sample")
    else if (d.measured ++ d.interventions).all (· ∈ vars) = false then
      .error (invalidQuery ("regime " ++ toString d.sourceRegime ++
        " names a variable outside the graph"))
    else if d.conditionedOn ≠ [] then .ok (.excluded "conditioned_projection")
    else if d.interventionValues ≠ [] then .ok (.excluded "restricted_levels")
    else if d.measured.filter (· ∉ d.interventions) = [] then .ok (.excluded "not_available")
    else match d.availability with
    | .joint => .ok (.joint (inputOf d []))
    | .separateMarginals marginals => .ok (.separate (inputOf d marginals))

/-- `search.rs:1079-1085`. -/
def metaApplies (query : MixedSourceQuery) (vars : List Nat) : Bool :=
  2 ≤ query.sources.length ∧ query.sources.all fun s => vars.all (· ∈ s.controllable)

def jointInputs (classes : List (CatalogDistribution × RegimeClass)) : List MixedInput :=
  classes.filterMap fun c => match c.2 with
    | .joint input => some input
    | _ => none

def separateInputs (classes : List (CatalogDistribution × RegimeClass)) : List MixedInput :=
  classes.filterMap fun c => match c.2 with
    | .separate input => some input
    | _ => none

def exclusionsOf (classes : List (CatalogDistribution × RegimeClass)) : List MixedExclusion :=
  classes.filterMap fun c => match c.2 with
    | .excluded reason => some ⟨c.1.sourceRegime, reason⟩
    | .joint _ => none
    | .separate _ => some ⟨c.1.sourceRegime, "separate_marginals"⟩

/-- Every distribution with its class; the first refusal ends the loop. -/
def classifyAll (vars : List Nat) (target : String) :
    List CatalogDistribution → Except IdentificationError (List (CatalogDistribution × RegimeClass))
  | [] => .ok []
  | d :: ds => do
    let c ← classify vars target d
    let rest ← classifyAll vars target ds
    .ok ((d, c) :: rest)

/-- Lines 386-518. -/
def validateMixedSourceQuery (graph : Admg) (query : MixedSourceQuery) (catalog : EvidenceCatalog) :
    Except IdentificationError ValidatedMixedSourceQuery :=
  let query := query.canonical
  if mixedSourceMaxObserved < graph.nodeCount ∨ mzTransportMaxSources < query.sources.length ∨
      ∃ s ∈ query.sources, mzTransportMaxControllablePerSource < s.controllable.length then
    .error boundsExceeded
  else do
    let vars ← denseVariables graph
    if query.outcomes = [] ∨ query.treatments = [] ∨ ¬query.outcomes.Nodup ∨
        ¬query.treatments.Nodup ∨ (query.outcomes ++ query.treatments).all (· ∈ vars) = false ∨
        (∃ v ∈ query.outcomes, v ∈ query.treatments) ∨ isBlank query.target then
      .error (invalidQuery "outcomes and treatments must be disjoint graph variables")
    else if ¬(query.sources.map (·.population)).Nodup ∨
        query.target ∈ query.sources.map (·.population) then
      .error (invalidQuery "source populations must be distinct and not the target")
    else do
      let classes ← classifyAll vars query.target catalog.distributions
      if mixedSourceMaxDistributions < (jointInputs classes).length then .error boundsExceeded
      else .ok ⟨query, jointInputs classes, separateInputs classes, exclusionsOf classes,
        metaApplies query vars⟩

/-! ## What validation establishes -/

section Sorting

variable {α β : Type} [LE β] [DecidableLE β] (f : α → β)

theorem insertionSort_idem (htotal : ∀ a b : β, a ≤ b ∨ b ≤ a)
    (htrans : ∀ a b c : β, a ≤ b → b ≤ c → a ≤ c) (l : List α) :
    (l.insertionSort fun a b => f a ≤ f b).insertionSort (fun a b => f a ≤ f b) =
      l.insertionSort fun a b => f a ≤ f b := by
  have : Std.Total fun a b : α => f a ≤ f b := ⟨fun a b => htotal _ _⟩
  have : IsTrans α fun a b : α => f a ≤ f b := ⟨fun a b c => htrans _ _ _⟩
  exact (List.pairwise_insertionSort _ l).insertionSort_eq

end Sorting

theorem sorted_sorted (vars : List Nat) : sorted (sorted vars) = sorted vars :=
  insertionSort_idem (fun v : Nat => v) Nat.le_total (fun _ _ _ => Nat.le_trans) vars

/-- **The canonical form of a canonical form is itself.** -/
theorem MixedSourceQuery.canonical_canonical (q : MixedSourceQuery) :
    q.canonical.canonical = q.canonical := by
  let order := fun s : ZTransportSourceSpec => { s with
    controllable := sorted s.controllable
    experimentAssignment := s.experimentAssignment.insertionSort fun a b => a.var ≤ b.var
    selectionTargets := sorted s.selectionTargets }
  have horder : ∀ s, order (order s) = order s := fun s => by
    simp only [order, sorted_sorted, insertionSort_idem (fun a : InterventionAssignment => a.var)
      Nat.le_total (fun _ _ _ => Nat.le_trans)]
  have hsources : q.canonical.sources.map order = q.canonical.sources := by
    refine (List.map_congr_left fun s hs => ?_).trans (List.map_id _)
    obtain ⟨s', -, rfl⟩ := List.mem_map.mp ((List.mem_insertionSort _).mp hs)
    exact horder s'
  have hsort := insertionSort_idem (fun s : ZTransportSourceSpec => s.population)
    String.le_total (fun _ _ _ => String.le_trans) (q.sources.map order)
  unfold canonical at hsources ⊢
  simp only [sorted_sorted, MixedSourceQuery.mk.injEq, true_and]
  exact (congrArg _ hsources).trans hsort

/-- A distribution that stands for an input (`mixed_source.rs:427-500`). -/
structure Usable (vars : List Nat) (target : String) (d : CatalogDistribution) : Prop where
  population : d.population = target
  known : ∀ x ∈ d.measured ++ d.interventions, x ∈ vars
  measured_ne : d.measured.filter (· ∉ d.interventions) ≠ []

theorem classify_cases {d : CatalogDistribution}
    {c : RegimeClass} (h : classify vars target d = .ok c) :
    (∃ reason, c = .excluded reason) ∨ Usable vars target d ∧
      (c = .joint (inputOf d []) ∨ ∃ marginals, c = .separate (inputOf d marginals)) := by
  have excluded : ∀ {reason : String}, (.ok (.excluded reason) : Except IdentificationError _) =
      .ok c → ∃ reason, c = .excluded reason := fun he => ⟨_, ((Except.ok.injEq _ _).mp he).symm⟩
  unfold classify at h
  by_cases hpop : d.population ≠ target
  · rw [if_pos hpop] at h
    exact Or.inl (excluded h)
  rw [if_neg hpop] at h
  by_cases hkind : d.evidenceKind.canSatisfyFactor = false
  · rw [if_pos hkind] at h
    exact Or.inl (excluded h)
  rw [if_neg hkind] at h
  cases horigin : d.origin with
  | recovered derivation =>
    rw [horigin] at h
    exact Or.inl (excluded h)
  | modelArtifact artifact =>
    rw [horigin] at h
    simp only at h
    split_ifs at h
    exact Or.inl (excluded h)
  | measured =>
    rw [horigin] at h
    simp only at h
    split_ifs at h with hsel hall hcond hlev hemp
    · exact Or.inl (excluded h)
    · exact Or.inl (excluded h)
    · exact Or.inl (excluded h)
    · exact Or.inl (excluded h)
    · have husable : Usable vars target d := by
        refine ⟨not_not.mp hpop, fun x hx => ?_, hemp⟩
        rw [Bool.not_eq_false] at hall
        exact of_decide_eq_true (List.all_eq_true.mp hall x hx)
      cases hav : d.availability with
      | joint =>
        rw [hav] at h
        exact Or.inr ⟨husable, Or.inl ((Except.ok.injEq _ _).mp h).symm⟩
      | separateMarginals marginals =>
        rw [hav] at h
        exact Or.inr ⟨husable, Or.inr ⟨marginals, ((Except.ok.injEq _ _).mp h).symm⟩⟩

theorem classifyAll_cases :
    ∀ {ds : List CatalogDistribution} {classes : List (CatalogDistribution × RegimeClass)},
      classifyAll vars target ds = .ok classes →
      ∀ p ∈ classes, p.1 ∈ ds ∧ classify vars target p.1 = .ok p.2
  | [], classes, h, p, hp => by
    cases h
    cases hp
  | d :: ds, classes, h, p, hp => by
    unfold classifyAll at h
    obtain ⟨c, hc, h⟩ := bind_ok h
    obtain ⟨rest, hrest, h⟩ := bind_ok h
    cases h
    rcases List.mem_cons.mp hp with rfl | hp
    · exact ⟨List.mem_cons_self, hc⟩
    · have hr := classifyAll_cases hrest p hp
      exact ⟨List.mem_cons_of_mem _ hr.1, hr.2⟩

/-- What a validated query carries (`mixed_source.rs:386-518`). -/
structure Validated (graph : Admg) (query : MixedSourceQuery) (catalog : EvidenceCatalog)
    (v : ValidatedMixedSourceQuery) (vars : List Nat) : Prop where
  dense : denseVariables graph = .ok vars
  bound : graph.nodeCount ≤ mixedSourceMaxObserved
  query : v.query = query.canonical
  outcomes_ne : v.query.outcomes ≠ []
  outcomes_nodup : v.query.outcomes.Nodup
  treatments_nodup : v.query.treatments.Nodup
  known : ∀ x ∈ v.query.outcomes ++ v.query.treatments, x ∈ vars
  disjoint : ∀ x ∈ v.query.outcomes, x ∉ v.query.treatments
  inputs : ∀ input ∈ v.inputs, ∃ d ∈ catalog.distributions, Usable vars v.query.target d ∧
    input = inputOf d [] ∧ classify vars v.query.target d = .ok (.joint input)
  marginalInputs : ∀ input ∈ v.marginalInputs, ∃ d ∈ catalog.distributions,
    Usable vars v.query.target d ∧ (∃ marginals, input = inputOf d marginals) ∧
      classify vars v.query.target d = .ok (.separate input)

/-- **What validation establishes.** -/
theorem validate_cases {query : MixedSourceQuery} {catalog : EvidenceCatalog}
    {v : ValidatedMixedSourceQuery} (h : validateMixedSourceQuery graph query catalog = .ok v) :
    ∃ vars, Validated graph query catalog v vars := by
  unfold validateMixedSourceQuery at h
  obtain ⟨hbound, h⟩ := guard_ok h
  obtain ⟨vars, hvars, h⟩ := bind_ok h
  obtain ⟨hquery, h⟩ := guard_ok h
  obtain ⟨-, h⟩ := guard_ok h
  obtain ⟨classes, hclasses, h⟩ := bind_ok h
  obtain ⟨-, h⟩ := guard_ok h
  cases h
  simp only [not_or, not_not, not_exists, not_and, not_lt] at hbound hquery
  obtain ⟨h1, -, h3, h4, h5, h6, -⟩ := hquery
  have hcases := classifyAll_cases hclasses
  refine ⟨vars, hvars, hbound.1, rfl, h1, h3, h4, fun x hx => ?_, h6, fun input hi => ?_,
    fun input hi => ?_⟩
  · rw [Bool.not_eq_false] at h5
    exact of_decide_eq_true (List.all_eq_true.mp h5 x hx)
  · obtain ⟨⟨d, c⟩, hp, he⟩ := List.mem_filterMap.mp hi
    obtain ⟨hd, hc⟩ : d ∈ catalog.distributions ∧
        classify vars query.canonical.target d = .ok c := hcases _ hp
    rcases classify_cases hc with ⟨reason, rfl⟩ | ⟨hu, rfl | ⟨marginals, rfl⟩⟩
    · cases he
    · cases he
      exact ⟨d, hd, hu, rfl, hc⟩
    · cases he
  · obtain ⟨⟨d, c⟩, hp, he⟩ := List.mem_filterMap.mp hi
    obtain ⟨hd, hc⟩ : d ∈ catalog.distributions ∧
        classify vars query.canonical.target d = .ok c := hcases _ hp
    rcases classify_cases hc with ⟨reason, rfl⟩ | ⟨hu, rfl | ⟨marginals, rfl⟩⟩
    · cases he
    · cases he
    · cases he
      exact ⟨d, hd, hu, ⟨marginals, rfl⟩, hc⟩

theorem validate_canonical (graph : Admg) (query : MixedSourceQuery) (catalog : EvidenceCatalog) :
    validateMixedSourceQuery graph query.canonical catalog =
      validateMixedSourceQuery graph query catalog := by
  unfold validateMixedSourceQuery
  rw [MixedSourceQuery.canonical_canonical]

/-! ## Proof steps -/

/-- Lines 524-535. -/
structure MixedSourceLeaf where
  regime : Nat
  study : String
  population : String
  snapshot : Option String
  identity : String
  deriving DecidableEq

/-- Lines 540-561. -/
structure MixedStep where
  rule : MixedRule
  premises : List Nat
  params : List Nat
  y : List Nat
  intervened : List Nat
  conditioned : List Nat
  source : Option MixedSourceLeaf
  relaxed : Bool
  expression : Nat
  deriving DecidableEq

namespace MixedStep

def domain (step : MixedStep) : DomainRef :=
  if step.intervened = [] then .observational else .interventional

/-- Lines 848-890. -/
def buildExpression (arena : CausalExprArena) (step : MixedStep) (premises : List Nat)
    (target : String) : Except IdentificationError (CausalExprArena × Nat) :=
  match step.rule with
  | .input =>
    match step.source with
    | none => .error invalidDerivation
    | some leaf =>
      let (arena, vars) := arena.internVarSet step.y
      let (arena, conditionedOn) := arena.emptyVarSet
      let (arena, intervention) := arena.internInterventionSet step.intervened
      match arena.internDistributionTagged vars conditionedOn intervention step.domain target
          (some leaf.regime) (some step.domain) with
      | .ok r => .ok r
      | .error _ => .error invalidDerivation
  | .marginalize =>
    let (arena, vars) := arena.internVarSet step.params
    .ok (arena.intern (.sumOut vars (premises.getD 0 0)))
  | .condition =>
    let (arena, vars) := arena.internVarSet step.y
    let (arena, denominator) := arena.intern (.sumOut vars (premises.getD 0 0))
    .ok (arena.intern (.ratio (premises.getD 0 0) denominator))
  | .product =>
    let (arena, list) := arena.internList [premises.getD 0 0, premises.getD 1 0]
    .ok (arena.intern (.product list))
  | _ => .ok (arena, premises.getD 0 0)

def tree (step : MixedStep) (premises : List ExprTree) (target : String) : ExprTree :=
  match step.rule with
  | .input => .distribution ⟨sortDedup step.y, [], (sortDedup step.intervened).map symbolic, step.domain, target,
      step.source.map (·.regime)⟩
  | .marginalize => .sumOut (sortDedup step.params) (premises.getD 0 default)
  | .condition => .ratio (premises.getD 0 default)
      (.sumOut (sortDedup step.y) (premises.getD 0 default))
  | .product => .product [premises.getD 0 default, premises.getD 1 default]
  | _ => premises.getD 0 default

/-- The number of premises the arms of `check_steps` ask for. -/
def arity : MixedRule → Nat
  | .input => 0
  | .product => 2
  | _ => 1

open CausalExprArena in
theorem buildInput_spec {a : CausalExprArena} (hw : a.WF) {step : MixedStep} {premises : List Nat}
    {r : CausalExprArena × Nat} (hrule : step.rule = .input)
    (h : step.buildExpression a premises target = .ok r) :
    Grows a r.1 ∧ r.2 < r.1.nodes.length ∧ r.1.view r.2 = step.tree [] target := by
  unfold buildExpression at h
  rw [hrule] at h
  cases hs : step.source with
  | none =>
    rw [hs] at h
    cases h
  | some leaf =>
    rw [hs] at h
    obtain ⟨g1, -, v1⟩ := internVarSet_spec hw step.y
    obtain ⟨g2, -, v2⟩ := internVarSet_spec g1.wf []
    obtain ⟨g3, -, v3⟩ := internInterventionSet_spec g2.wf step.intervened
    obtain ⟨g4, -, v4⟩ := internPopulation_spec g3.wf target
    simp only [emptyVarSet, internDistributionTagged, Option.isSome_some, ne_eq, not_true_eq_false,
      and_false, if_false] at h
    obtain rfl := (Except.ok.injEq _ _).mp h
    have hv := getElem?_prefixed g4.ext.varSets (getElem?_prefixed g3.ext.varSets
      (getElem?_prefixed g2.ext.varSets v1))
    have hc := getElem?_prefixed g4.ext.varSets (getElem?_prefixed g3.ext.varSets v2)
    have ht := getElem?_prefixed g4.ext.interventions v3
    obtain ⟨g5, hlt, hview⟩ := intern_spec g4.wf (n := .distribution _ _ _ step.domain _
      (some leaf.regime)) ⟨(List.getElem?_eq_some_iff.mp hv).1, (List.getElem?_eq_some_iff.mp hc).1,
        (List.getElem?_eq_some_iff.mp ht).1, (List.getElem?_eq_some_iff.mp v4).1⟩
    refine ⟨⟨g5.wf, (((g1.ext.trans g2.ext).trans g3.ext).trans g4.ext).trans g5.ext⟩, hlt,
      hview.trans ?_⟩
    simp only [shape, readNode, List.getD_eq_getElem?_getD, hv, hc, ht, v4, tree, hrule, hs,
      Option.getD_some, Option.map_some]
    rfl

open CausalExprArena in
/-- **The tree of the expression built for a step**, over the trees of its premises. -/
theorem buildExpression_spec {a : CausalExprArena} (hw : a.WF) {step : MixedStep}
    {premises : List Nat} {r : CausalExprArena × Nat}
    (hlen : premises.length = arity step.rule) (hp : ∀ e ∈ premises, e < a.nodes.length)
    (h : step.buildExpression a premises target = .ok r) :
    Grows a r.1 ∧ r.2 < r.1.nodes.length ∧
      r.1.view r.2 = step.tree (premises.map a.view) target := by
  by_cases hinput : step.rule = .input
  · rw [hinput] at hlen
    rw [List.length_eq_zero_iff.mp hlen] at h ⊢
    exact buildInput_spec hw hinput h
  · obtain ⟨e, es, rfl⟩ : ∃ e es, premises = e :: es := by
      cases premises with
      | nil => exact absurd hlen.symm (by revert hinput; cases step.rule <;> simp [arity])
      | cons e es => exact ⟨e, es, rfl⟩
    have he : e < a.nodes.length := hp e List.mem_cons_self
    have hkeep : Grows a a := ⟨hw, .rfl⟩
    unfold buildExpression at h
    unfold tree
    cases hrule : step.rule with
    | input => exact absurd hrule hinput
    | marginalize =>
      rw [hrule] at h
      obtain ⟨g1, n1, v1⟩ := internVarSet_spec hw step.params
      obtain rfl := (Except.ok.injEq _ _).mp h
      obtain ⟨g2, hlt, hview⟩ := intern_spec g1.wf (n := .sumOut _ e)
        ⟨(List.getElem?_eq_some_iff.mp v1).1, n1.symm ▸ he⟩
      refine ⟨⟨g2.wf, g1.ext.trans g2.ext⟩, hlt, hview.trans ?_⟩
      simp only [shape, readNode, List.getD_eq_getElem?_getD, v1, Option.getD_some]
      exact congrArg _ (view_extends hw g1.wf g1.ext he)
    | condition =>
      rw [hrule] at h
      obtain ⟨g1, n1, v1⟩ := internVarSet_spec hw step.y
      obtain ⟨g2, hlt2, hview2⟩ := intern_spec g1.wf (n := .sumOut (a.internVarSet step.y).2 e)
        ⟨(List.getElem?_eq_some_iff.mp v1).1, n1.symm ▸ he⟩
      obtain rfl := (Except.ok.injEq _ _).mp h
      have he2 : e < ((a.internVarSet step.y).1.intern
          (.sumOut (a.internVarSet step.y).2 e)).1.nodes.length :=
        (n1.symm ▸ he : e < (a.internVarSet step.y).1.nodes.length).trans_le g2.ext.length_le
      obtain ⟨g3, hlt, hview⟩ := intern_spec g2.wf (n := .ratio e _) ⟨he2, hlt2⟩
      refine ⟨⟨g3.wf, (g1.ext.trans g2.ext).trans g3.ext⟩, hlt, hview.trans ?_⟩
      refine congrArg₂ ExprTree.ratio (view_extends hw g2.wf (g1.ext.trans g2.ext) he) ?_
      refine hview2.trans ?_
      simp only [shape, readNode, List.getD_eq_getElem?_getD, v1, Option.getD_some]
      exact congrArg _ (view_extends hw g1.wf g1.ext he)
    | product =>
      rw [hrule] at h hlen
      obtain ⟨f, rfl⟩ : ∃ f, es = [f] := List.length_eq_one_iff.mp (by
        simpa [arity] using hlen)
      have hf : f < a.nodes.length := hp f (by simp)
      obtain ⟨g1, n1, v1⟩ := internList_spec hw [e, f]
      obtain rfl := (Except.ok.injEq _ _).mp h
      obtain ⟨g2, hlt, hview⟩ := intern_spec g1.wf (n := .product _)
        ⟨[e, f], v1, fun x hx => by
          rw [n1]
          rcases List.mem_cons.mp hx with rfl | hx
          · exact he
          · exact List.mem_singleton.mp hx ▸ hf⟩
      refine ⟨⟨g2.wf, g1.ext.trans g2.ext⟩, hlt, hview.trans ?_⟩
      simp only [shape, readNode, List.getD_eq_getElem?_getD, v1, Option.getD_some]
      exact congrArg ExprTree.product (congrArg₂ (fun s t => [s, t])
        (view_extends hw g1.wf g1.ext he) (view_extends hw g1.wf g1.ext hf))
    | _ =>
      rw [hrule] at h
      obtain rfl := (Except.ok.injEq _ _).mp h
      exact ⟨hkeep, he, rfl⟩

end MixedStep

end Antecedent.Identify
