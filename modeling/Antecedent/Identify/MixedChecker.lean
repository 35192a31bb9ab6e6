import Antecedent.Identify.Augmented
import Antecedent.Identify.MixedSource

/-!
# The mixed-source proof checker

Model of the independent checker (`antecedent-identify/src/sid/mixed_source/search.rs:480-900`):
its own separation test in the augmented graph, the side conditions of the do-calculus rules, and
`check_steps`, which replays a list of steps. A `BTreeSet<usize>` is a `Finset Nat`, iterated in
ascending order. Worklists keep their visited set apart from the order in which they pop, which no
result depends on.

* `Checker.mem_ancestors`: the closure is the ancestral set of the graph without edges into `overline`.
-/

namespace Antecedent.Identify

open Core
open Expr
open Graph
open Mixed
open Worklist

/-- Lines 496-500. -/
structure Checker where
  vars : List Nat
  parents : List (List Nat)
  siblings : List (List Nat)

namespace Checker

/-- Lines 505-520. -/
def new (graph : Admg) : Except IdentificationError Checker := do
  let vars ← denseVariables graph
  .ok ⟨vars,
    (List.range vars.length).foldl (fun rows src => pushParent rows src (graph.children src))
      (List.replicate vars.length []),
    (List.range vars.length).map graph.bidirectedNeighbors⟩

/-- The first positions of `vars`, each of which must be a graph variable. -/
def positions (c : Checker) (vars : List Nat) : Except IdentificationError (Finset Nat) :=
  if ∀ v ∈ vars, v ∈ c.vars then .ok (vars.map fun v => c.vars.idxOf v).toFinset
  else .error invalidDerivation

/-- Lines 522-529. -/
def set (c : Checker) (vars : List Nat) : Except IdentificationError (Finset Nat) := do
  let s ← c.positions vars
  if s.card = vars.length then .ok s else .error invalidDerivation

/-- Lines 532-546. -/
def ancestors (c : Checker) (seeds overline : Finset Nat) : Finset Nat :=
  closure (fun v => if v ∈ overline then [] else row c.parents v) (c.vars.length + 1)
    ((List.range c.vars.length).filter (· ∈ seeds))

end Checker

namespace Checker

/-- The parent rows without the edges into `overline` and out of `underline`. -/
def cutParents (c : Checker) (overline underline : Finset Nat) : List (List Nat) :=
  (List.range c.vars.length).map fun v =>
    if v ∈ overline then [] else (row c.parents v).filter (· ∉ underline)

/-- The sibling rows without the edges at `overline`. -/
def cutSiblings (c : Checker) (overline : Finset Nat) : List (List Nat) :=
  (List.range c.vars.length).map fun v =>
    if v ∈ overline then [] else (row c.siblings v).filter (· ∉ overline)

/-- Lines 550-575. -/
def separated (c : Checker) (overline underline a b cond : Finset Nat) : Bool :=
  ∀ x ∈ a, ∀ y ∈ b, x ∉ cond ∧ y ∉ cond ∧ x ≠ y ∧
    connected c.vars.length (c.cutParents overline underline) (c.cutSiblings overline) cond x y = false

end Checker

/-! ## Rules -/

/-- A quantity `P(y | do(d), z)` in dense positions. -/
structure Quantity where
  y : Finset Nat
  d : Finset Nat
  z : Finset Nat
  deriving DecidableEq

/-- A quantity over `n` nodes: disjoint sets of positions. -/
structure Quantity.Ok (q : Quantity) (n : Nat) : Prop where
  yd : Disjoint q.y q.d
  yz : Disjoint q.y q.z
  dz : Disjoint q.d q.z
  y_lt : ∀ i ∈ q.y, i < n
  d_lt : ∀ i ∈ q.d, i < n
  z_lt : ∀ i ∈ q.z, i < n

/-- Lines 907-913. -/
def outsideOf (univ : Finset Nat) (q : Quantity) : Finset Nat :=
  univ.filter fun v => v ∉ q.y ∧ v ∉ q.d ∧ v ∉ q.z

/-- The parameters of a rule: positions of the graph outside the quantity. -/
structure Moved (q : Quantity) (w : Finset Nat) (n : Nat) : Prop where
  y : Disjoint w q.y
  d : Disjoint w q.d
  z : Disjoint w q.z
  lt : ∀ i ∈ w, i < n

section Moved

open Finset

variable {y d z w : Finset Nat} {n : Nat}

theorem Moved.of_outside {p : Quantity} (h : w ⊆ outsideOf (range n) p) : Moved p w n := by
  have key : ∀ i ∈ w, i < n ∧ i ∉ p.y ∧ i ∉ p.d ∧ i ∉ p.z := fun i hi => by
    obtain ⟨hr, hn⟩ := mem_filter.mp (h hi)
    exact ⟨mem_range.mp hr, hn⟩
  exact ⟨disjoint_left.mpr fun i hi => (key i hi).2.1, disjoint_left.mpr fun i hi => (key i hi).2.2.1,
    disjoint_left.mpr fun i hi => (key i hi).2.2.2, fun i hi => (key i hi).1⟩

/-- A conditioning set less some of its members. -/
theorem Quantity.Ok.of_union_z (hp : Quantity.Ok ⟨y, d, z ∪ w⟩ n) : Quantity.Ok ⟨y, d, z⟩ n :=
  ⟨hp.yd, (disjoint_union_right.mp hp.yz).1, (disjoint_union_right.mp hp.dz).1, hp.y_lt, hp.d_lt,
    fun i hi => hp.z_lt i (mem_union_left w hi)⟩

/-- An intervention set less some of its members. -/
theorem Quantity.Ok.of_union_d (hp : Quantity.Ok ⟨y, d ∪ w, z⟩ n) : Quantity.Ok ⟨y, d, z⟩ n :=
  ⟨(disjoint_union_right.mp hp.yd).1, hp.yz, (disjoint_union_left.mp hp.dz).1, hp.y_lt,
    fun i hi => hp.d_lt i (mem_union_left w hi), hp.z_lt⟩

theorem Moved.of_union_z (hp : Quantity.Ok ⟨y, d, z ∪ w⟩ n) (hw : Disjoint w z) :
    Moved ⟨y, d, z⟩ w n :=
  ⟨(disjoint_union_right.mp hp.yz).2.symm, (disjoint_union_right.mp hp.dz).2.symm, hw,
    fun i hi => hp.z_lt i (mem_union_right z hi)⟩

theorem Moved.of_union_d (hp : Quantity.Ok ⟨y, d ∪ w, z⟩ n) (hw : Disjoint w d) :
    Moved ⟨y, d, z⟩ w n :=
  ⟨(disjoint_union_right.mp hp.yd).2.symm, hw, (disjoint_union_left.mp hp.dz).2,
    fun i hi => hp.d_lt i (mem_union_right d hi)⟩

variable (hp : Quantity.Ok ⟨y, d, z⟩ n) (hw : Moved ⟨y, d, z⟩ w n)

include hp hw

/-- A conditioning set with new members. -/
theorem Moved.union_z : Quantity.Ok ⟨y, d, z ∪ w⟩ n :=
  ⟨hp.yd, disjoint_union_right.mpr ⟨hp.yz, hw.y.symm⟩, disjoint_union_right.mpr ⟨hp.dz, hw.d.symm⟩,
    hp.y_lt, hp.d_lt, fun i hi => (mem_union.mp hi).elim (hp.z_lt i) (hw.lt i)⟩

/-- An intervention set with new members. -/
theorem Moved.union_d : Quantity.Ok ⟨y, d ∪ w, z⟩ n :=
  ⟨disjoint_union_right.mpr ⟨hp.yd, hw.y.symm⟩, hp.yz, disjoint_union_left.mpr ⟨hp.dz, hw.z⟩,
    hp.y_lt, fun i hi => (mem_union.mp hi).elim (hp.d_lt i) (hw.lt i), hp.z_lt⟩

end Moved

/-- `unary_rule_holds` (`search.rs:660-727`): `p` is the premise, `q` the conclusion. -/
def unaryRuleHolds (c : Checker) (univ : Finset Nat) (rule : MixedRule) (p q : Quantity)
    (w free : Finset Nat) : Bool :=
  if w = ∅ ∨ p.y ≠ q.y then false
  else match rule with
  | .rule1Insert => w ⊆ outsideOf univ p ∧ p.d = q.d ∧ q.z = p.z ∪ w ∧
      c.separated p.d ∅ p.y w (p.d ∪ p.z)
  | .rule1Delete => w ⊆ p.z ∧ Disjoint w free ∧ p.d = q.d ∧ q.z = p.z \ w ∧
      c.separated p.d ∅ p.y w (p.d ∪ q.z)
  | .rule2ToDo => w ⊆ p.z ∧ q.d = p.d ∪ w ∧ q.z = p.z \ w ∧
      c.separated p.d w p.y w (p.d ∪ q.z)
  | .rule2ToObservation => w ⊆ p.d ∧ q.d = p.d \ w ∧ q.z = p.z ∪ w ∧
      c.separated q.d w p.y w (q.d ∪ p.z)
  | .rule3Insert =>
    let past := c.ancestors p.z p.d
    let exposed := p.d ∪ (w \ past)
    w ⊆ outsideOf univ p ∧ q.d = p.d ∪ w ∧ q.z = p.z ∧
      c.separated exposed ∅ p.y w (p.d ∪ p.z)
  | .rule3Delete =>
    let past := c.ancestors p.z q.d
    let exposed := q.d ∪ (w \ past)
    w ⊆ p.d ∧ Disjoint w free ∧ q.d = p.d \ w ∧ q.z = p.z ∧
      c.separated exposed ∅ p.y w (q.d ∪ p.z)
  | _ => false

/-! ## The replay -/

/-- The state of the replay: the arena, and the quantity and the expression of each step so far. -/
structure Replay where
  arena : CausalExprArena
  quantities : List Quantity
  expressions : List Nat

def Replay.quantity (st : Replay) (i : Nat) : Quantity := st.quantities.getD i ⟨∅, ∅, ∅⟩

def ValidatedMixedSourceQuery.cited (v : ValidatedMixedSourceQuery) (regime : Nat) :
    Option MixedInput :=
  (v.inputs ++ v.marginalInputs).find? (·.regime = regime)

/-- The input arm of `check_steps` (`search.rs:782-806`). -/
def inputHolds (c : Checker) (v : ValidatedMixedSourceQuery) (target : String)
    (allowRelaxed : Bool) (step : MixedStep) (q : Quantity) (w : Finset Nat) :
    Except IdentificationError Bool :=
  match step.source with
  | none => .error invalidDerivation
  | some leaf => match v.cited leaf.regime with
    | none => .error invalidDerivation
    | some input => do
      let measured ← c.set input.measured
      let intervened ← c.set input.intervened
      let relaxed : Bool := !input.marginals.isEmpty
      .ok (measured = q.y ∧ intervened = q.d ∧ q.z = ∅ ∧ w = ∅ ∧ leaf.study = input.study ∧
        leaf.identity = input.identity ∧ leaf.snapshot = input.snapshot ∧
        leaf.population = target ∧ step.relaxed = relaxed ∧ (allowRelaxed ∨ relaxed = false))

/-- The arms of `check_steps` by rule and number of premises (`search.rs:781-846`). -/
def ruleHolds (c : Checker) (v : ValidatedMixedSourceQuery) (target : String) (allowRelaxed : Bool)
    (st : Replay) (step : MixedStep) (q : Quantity) (w : Finset Nat) :
    Except IdentificationError Bool :=
  match step.rule, step.premises with
  | .input, [] => inputHolds c v target allowRelaxed step q w
  | .marginalize, [i] =>
    let p := st.quantity i
    .ok (w ≠ ∅ ∧ w ⊆ p.y ∧ q.y ∪ w = p.y ∧ p.d = q.d ∧ p.z = q.z)
  | .condition, [i] =>
    let p := st.quantity i
    .ok (w ≠ ∅ ∧ w ⊆ p.y ∧ q.y ∪ w = p.y ∧ p.d = q.d ∧ q.z = p.z ∪ w)
  | .product, [i, j] =>
    let a := st.quantity i
    let b := st.quantity j
    .ok (a.d = b.d ∧ a.d = q.d ∧ a.z = b.z ∪ b.y ∧ Disjoint a.y b.y ∧ b.z = q.z ∧
      q.y = a.y ∪ b.y)
  | rule, [i] => do
    let free := (((st.arena.view (st.expressions.getD i 0)).freeVariables.filter (· ∈ c.vars)).map
      fun v => c.vars.idxOf v).toFinset
    .ok (unaryRuleHolds c (Finset.range c.vars.length) rule (st.quantity i) q w free)
  | _, _ => .ok false

/-- One turn of the loop of `check_steps` (`search.rs:754-862`). -/
def checkStep (c : Checker) (v : ValidatedMixedSourceQuery) (target : String)
    (stored : Option CausalExprArena) (allowRelaxed : Bool) (st : Replay) (step : MixedStep) :
    Except IdentificationError Replay := do
  let y ← c.set step.y
  let d ← c.set step.intervened
  let z ← c.set step.conditioned
  let w ← c.set step.params
  if ¬(Disjoint y d ∧ Disjoint y z ∧ Disjoint d z) ∨ y = ∅ ∨ mixedSourceMaxDo < d.card ∨
      mixedSourceMaxMove < w.card ∨ (∃ p ∈ step.premises, st.quantities.length ≤ p) ∨
      (step.rule ≠ .input ∧ (step.source.isSome ∨ step.relaxed)) ∨
      (step.rule = .product ∧ w ≠ ∅) then
    .error invalidDerivation
  else do
    let ok ← ruleHolds c v target allowRelaxed st step ⟨y, d, z⟩ w
    if ok = false then .error invalidDerivation
    else do
      let (arena, expression) ← step.buildExpression st.arena
        (step.premises.map fun p => st.expressions.getD p 0) target
      if stored.isSome ∧ expression ≠ step.expression then .error invalidDerivation
      else do
        let free ← c.positions (arena.view expression).freeVariables
        if free ⊆ y ∪ d ∪ z then
          .ok ⟨arena, st.quantities ++ [⟨y, d, z⟩], st.expressions ++ [expression]⟩
        else .error invalidDerivation

def reachedSteps (steps : List MixedStep) : Finset Nat :=
  closure (fun i => (steps[i]?.map (·.premises)).getD []) (steps.length + 1) [steps.length - 1]

/-- The `(population, regime)` pairs of the input steps among the reached ones. -/
def expectedBindings (steps : List MixedStep) : List ExprTree.LeafBinding :=
  ((List.range steps.length).filter (· ∈ reachedSteps steps)).filterMap fun i =>
    (steps[i]?.bind (·.source)).map fun leaf => (leaf.population, some leaf.regime)

/-- `check_with_shared_expression_layer` (`search.rs:878-905`); the compiler accepts every
expression of the arena (`eval.rs:108-124`). -/
def checkWithSharedExpressionLayer (fresh : CausalExprArena) (steps : List MixedStep)
    (expressions : List Nat) : Except IdentificationError Unit :=
  match expressions.getLast? with
  | none => .error invalidDerivation
  | some root =>
    if fresh.nodes.length ≤ root then .error invalidDerivation
    else if (fresh.view root).bindCertificate (expectedBindings steps) then .ok ()
    else .error invalidDerivation

/-- Lines 739-870. -/
def checkSteps (graph : Admg) (query : MixedSourceQuery) (catalog : EvidenceCatalog)
    (steps : List MixedStep) (stored : Option CausalExprArena) (allowRelaxed : Bool) :
    Except IdentificationError Unit := do
  let checker ← Checker.new graph
  let validated ← validateMixedSourceQuery graph query catalog
  let st ← steps.foldlM (checkStep checker validated query.target stored allowRelaxed)
    ⟨.new, [], []⟩
  match st.quantities.getLast? with
  | none => .error invalidDerivation
  | some last => do
    let y ← checker.set query.outcomes
    let d ← checker.set query.treatments
    if last ≠ ⟨y, d, ∅⟩ ∨ stored.any (· ≠ st.arena) then .error invalidDerivation
    else checkWithSharedExpressionLayer st.arena steps st.expressions

/-! ## The checker's rows -/

namespace Checker

/-- What `Checker::new` reads off the graph. -/
structure Reads (c : Checker) (graph : Admg) : Prop where
  vars : denseVariables graph = .ok c.vars
  length : c.vars.length = graph.nodeCount
  rows : RowsOf graph.mixed c.vars.length c.parents c.siblings

theorem new_reads {graph : Admg} {c : Checker} (h : Checker.new graph = .ok c) : c.Reads graph := by
  unfold Checker.new at h
  obtain ⟨vars, hv, h⟩ := bind_ok h
  have hlen := denseVariables_length hv
  obtain rfl := (Except.ok.injEq _ _).mp h
  have hbi : ∀ u v, graph.mixed.bi u v → v < graph.nodeCount := fun u v h =>
    graph.biValid.in_range u v h
  refine ⟨hv, hlen, ⟨fun u v => ?_, fun u v => ?_, fun u v h => ?_, fun u v h => ?_⟩⟩
  · rw [mem_row_pushParents (fun s _ c hc => by
      rw [List.length_replicate, hlen]
      exact (graph.valid.in_range s c hc).2), row_replicate_nil]
    constructor
    · rintro (h | h)
      exacts [absurd h List.not_mem_nil, h.2]
    · exact fun h => Or.inr ⟨List.mem_range.mpr (hlen ▸ (graph.valid.in_range u v h).1), h⟩
  · rw [row_map_range]
    split_ifs with hu
    · exact Iff.rfl
    · refine ⟨fun h => absurd h List.not_mem_nil, fun h => absurd ?_ hu⟩
      exact hlen ▸ hbi v u (graph.mixed.bi_symm h)
  · have := graph.valid.in_range u v h
    exact hlen ▸ this
  · exact hlen ▸ ⟨hbi v u (graph.mixed.bi_symm h), hbi u v h⟩

variable {c : Checker} {G : MixedGraph Nat}

theorem rows_cut (hR : RowsOf G c.vars.length c.parents c.siblings) (overline underline : Finset Nat) :
    RowsOf (G.mutilate overline underline) c.vars.length (c.cutParents overline underline)
      (c.cutSiblings overline) := by
  refine ⟨fun u v => ?_, fun u v => ?_, fun u v h => hR.dir_lt u v h.1,
    fun u v h => hR.bi_lt u v h.1⟩
  · unfold cutParents
    rw [row_map_range]
    split_ifs with hv ho
    · exact iff_of_false List.not_mem_nil fun h => h.2.1 ho
    · rw [List.mem_filter, hR.mem_parents]
      exact ⟨fun h => ⟨h.1, ho, of_decide_eq_true h.2⟩, fun h => ⟨h.1, decide_eq_true h.2.2⟩⟩
    · exact iff_of_false List.not_mem_nil fun h => hv (hR.dir_lt u v h.1).2
  · unfold cutSiblings
    rw [row_map_range]
    split_ifs with hu ho
    · exact iff_of_false List.not_mem_nil fun h => h.2.1 ho
    · rw [List.mem_filter, hR.mem_siblings]
      exact ⟨fun h => ⟨h.1, ho, of_decide_eq_true h.2⟩, fun h => ⟨h.1, decide_eq_true h.2.2⟩⟩
    · exact iff_of_false List.not_mem_nil fun h => hu (hR.bi_lt u v h.1).1

variable {overline : Finset Nat}

/-- **The checker's separation test is separation in the mutilated graph.** -/
theorem separated_iff (hR : RowsOf G c.vars.length c.parents c.siblings)
    {underline a b cond : Finset Nat} (ha : ∀ v ∈ a, v < c.vars.length)
    (hb : ∀ v ∈ b, v < c.vars.length) (hcond : ∀ v ∈ cond, v < c.vars.length)
    (hac : Disjoint a cond) (hbc : Disjoint b cond) (hab : Disjoint a b) :
    c.separated overline underline a b cond = true ↔ (G.mutilate overline underline).MSeparated a b cond := by
  have hxa : ∀ x ∈ (a : Set Nat), x ∉ (cond : Set Nat) := fun x hx =>
    Finset.disjoint_left.mp hac hx
  have hyb : ∀ y ∈ (b : Set Nat), y ∉ (cond : Set Nat) := fun y hy =>
    Finset.disjoint_left.mp hbc hy
  have hpair : ∀ x ∈ a, ∀ y ∈ b,
      (connected c.vars.length (c.cutParents overline underline) (c.cutSiblings overline) cond x y = false ↔
        (G.mutilate overline underline).MSeparated {x} {y} cond) := by
    intro x hx y hy
    rw [← Bool.not_eq_true, connected_iff (rows_cut hR overline underline) hcond (ha x hx) (hb y hy)
      (hyb y hy)]
    simp [MixedGraph.MSeparated]
  unfold separated
  rw [decide_eq_true_iff, MixedGraph.mSeparated_iff_pairs hxa hyb]
  constructor
  · exact fun h x hx y hy => (hpair x hx y hy).mp (h x hx y hy).2.2.2
  · intro h x hx y hy
    refine ⟨hxa x hx, hyb y hy, ?_, (hpair x hx y hy).mpr (h x hx y hy)⟩
    rintro rfl
    exact Finset.disjoint_left.mp hab hx hy

/-- **The checker's closure is the ancestral set in the graph without the edges into `overline`.** -/
theorem mem_ancestors (hR : RowsOf G c.vars.length c.parents c.siblings)
    {seeds : Finset Nat} (hs : ∀ v ∈ seeds, v < c.vars.length) {v : Nat} :
    v ∈ c.ancestors seeds overline ↔ v ∈ (G.mutilate overline ∅).AncSet seeds := by
  refine mem_closure_parents (H := G.mutilate overline ∅) (fun u v => ?_)
    (fun u v h => hR.dir_lt u v h.1) (fun v => ?_) hs
  · split_ifs with ho
    · exact iff_of_false List.not_mem_nil fun h => h.2.1 ho
    · rw [hR.mem_parents]
      exact ⟨fun h => ⟨h, ho, Set.notMem_empty u⟩, fun h => h.1⟩
  · rw [List.mem_filter, List.mem_range]
    exact ⟨fun h => of_decide_eq_true h.2, fun h => ⟨hs v h, decide_eq_true h⟩⟩

end Checker

/-! ## Accepted steps -/

/-- The positions of a list of graph variables without repetition. -/
structure SetOf (c : Checker) (vars : List Nat) (s : Finset Nat) : Prop where
  known : ∀ v ∈ vars, v ∈ c.vars
  mem : ∀ i, i ∈ s ↔ ∃ v ∈ vars, c.vars.idxOf v = i
  card : s.card = vars.length

variable {vars : List Nat} {s : Finset Nat} {c : Checker}

theorem Checker.positions_ok :
    c.positions vars = .ok s ↔ (∀ v ∈ vars, v ∈ c.vars) ∧
      (vars.map fun v => c.vars.idxOf v).toFinset = s := by
  unfold positions
  split_ifs with h
  · exact ⟨fun e => ⟨h, (Except.ok.injEq _ _).mp e⟩, fun e => congrArg _ e.2⟩
  · exact iff_of_false (fun e => by cases e) fun e => h e.1

theorem Checker.set_ok :
    c.set vars = .ok s ↔ SetOf c vars s := by
  have hmem : ∀ i, i ∈ (vars.map fun v => c.vars.idxOf v).toFinset ↔
      ∃ v ∈ vars, c.vars.idxOf v = i := fun i => by
    rw [List.mem_toFinset, List.mem_map]
  unfold Checker.set
  constructor
  · intro h
    obtain ⟨t, ht, h⟩ := bind_ok h
    obtain ⟨hk, rfl⟩ := positions_ok.mp ht
    split_ifs at h with hcard
    cases h
    exact ⟨hk, hmem, hcard⟩
  · rintro ⟨hk, hm, hcard⟩
    have he : (vars.map fun v => c.vars.idxOf v).toFinset = s :=
      Finset.ext fun i => (hmem i).trans (hm i).symm
    rw [positions_ok.mpr ⟨hk, he⟩]
    exact if_pos hcard

theorem SetOf.lt {c : Checker} (h : SetOf c vars s) {i : Nat} (hi : i ∈ s) : i < c.vars.length := by
  obtain ⟨v, hv, rfl⟩ := (h.mem i).mp hi
  exact List.idxOf_lt_length_iff.mpr (h.known v hv)

theorem SetOf.mem_iff (h : SetOf c vars s)
    {v : Nat} : c.vars.idxOf v ∈ s ↔ v ∈ vars := by
  rw [h.mem]
  constructor
  · rintro ⟨u, hu, he⟩
    exact (List.idxOf_inj (h.known u hu)).mp he ▸ hu
  · exact fun hm => ⟨v, hm, rfl⟩

theorem SetOf.disjoint_iff {xs ys : List Nat} {t : Finset Nat}
    (h : SetOf c xs s) (h' : SetOf c ys t) : Disjoint s t ↔ ∀ x ∈ xs, x ∉ ys := by
  rw [Finset.disjoint_left]
  constructor
  · exact fun hd x hx hy => hd ((h.mem _).mpr ⟨x, hx, rfl⟩) (h'.mem_iff.mpr hy)
  · intro hd i hi hi'
    obtain ⟨x, hx, rfl⟩ := (h.mem i).mp hi
    exact hd x hx (h'.mem_iff.mp hi')

section Accepted

variable (c : Checker) (v : ValidatedMixedSourceQuery) (target : String)
  (stored : Option CausalExprArena) (allowRelaxed : Bool) (st : Replay) (step : MixedStep)

/-- What an accepted step says, with its quantity, the positions of its parameters, and the arena
and expression after it. -/
structure StepAccepted (q : Quantity) (w : Finset Nat) (arena : CausalExprArena)
    (expression : Nat) : Prop where
  y_eq : SetOf c step.y q.y
  d_eq : SetOf c step.intervened q.d
  z_eq : SetOf c step.conditioned q.z
  w_eq : SetOf c step.params w
  disjoint_yd : Disjoint q.y q.d
  disjoint_yz : Disjoint q.y q.z
  disjoint_dz : Disjoint q.d q.z
  y_ne : q.y ≠ ∅
  d_le : q.d.card ≤ mixedSourceMaxDo
  w_le : w.card ≤ mixedSourceMaxMove
  premises_lt : ∀ p ∈ step.premises, p < st.quantities.length
  source_none : step.rule ≠ .input → step.source = none ∧ step.relaxed = false
  product_w : step.rule = .product → w = ∅
  holds : ruleHolds c v target allowRelaxed st step q w = .ok true
  built : step.buildExpression st.arena (step.premises.map fun p => st.expressions.getD p 0) target =
    .ok (arena, expression)
  stored_eq : stored.isSome → expression = step.expression
  free : ∃ free, c.positions (arena.view expression).freeVariables = .ok free ∧
    free ⊆ q.y ∪ q.d ∪ q.z

variable {c v target stored allowRelaxed st step}

/-- **Everything an accepted step says.** -/
theorem checkStep_cases {st' : Replay}
    (h : checkStep c v target stored allowRelaxed st step = .ok st') :
    ∃ q w arena expression,
      StepAccepted c v target stored allowRelaxed st step q w arena expression ∧
      st' = ⟨arena, st.quantities ++ [q], st.expressions ++ [expression]⟩ := by
  unfold checkStep at h
  obtain ⟨y, hy, h⟩ := bind_ok h
  obtain ⟨d, hd, h⟩ := bind_ok h
  obtain ⟨z, hz, h⟩ := bind_ok h
  obtain ⟨w, hw, h⟩ := bind_ok h
  obtain ⟨hshape, h⟩ := guard_ok h
  obtain ⟨ok, hok, h⟩ := bind_ok h
  obtain ⟨htrue, h⟩ := guard_ok h
  obtain ⟨⟨arena, expression⟩, hbuilt, h⟩ := bind_ok h
  obtain ⟨hstored, h⟩ := guard_ok h
  obtain ⟨free, hfree, h⟩ := bind_ok h
  split_ifs at h with hsub
  cases h
  rw [Bool.not_eq_false] at htrue
  subst htrue
  obtain ⟨hdis, hrest⟩ := not_or.mp hshape
  obtain ⟨h1, h2, h3⟩ := not_not.mp hdis
  simp only [not_or, not_not, not_exists, not_and, not_lt, not_le] at hrest hstored
  obtain ⟨h4, h5, h6, h7, h8, h9⟩ := hrest
  refine ⟨⟨y, d, z⟩, w, arena, expression, ?_, rfl⟩
  exact ⟨Checker.set_ok.mp hy, Checker.set_ok.mp hd, Checker.set_ok.mp hz, Checker.set_ok.mp hw,
    h1, h2, h3, h4, h5, h6, h7, fun hr => by simpa using h8 hr, h9, hok, hbuilt, hstored,
    free, hfree, hsub⟩

variable {q : Quantity} {arena : CausalExprArena} {expression : Nat}

section

variable (h : StepAccepted c v target stored allowRelaxed st step q w arena expression)

include h

theorem StepAccepted.checkStep_ok :
    checkStep c v target stored allowRelaxed st step =
      .ok ⟨arena, st.quantities ++ [q], st.expressions ++ [expression]⟩ := by
  obtain ⟨free, hfree, hsub⟩ := h.free
  unfold checkStep
  rw [Checker.set_ok.mpr h.y_eq, Checker.set_ok.mpr h.d_eq, Checker.set_ok.mpr h.z_eq,
    Checker.set_ok.mpr h.w_eq]
  simp only [bind, Except.bind]
  rw [if_neg, h.holds]
  · simp only [Bool.true_eq_false, if_false]
    rw [h.built]
    simp only
    rw [if_neg fun hs => hs.2 (h.stored_eq hs.1), hfree]
    exact if_pos hsub
  · refine not_or.mpr ⟨not_not.mpr ⟨h.disjoint_yd, h.disjoint_yz, h.disjoint_dz⟩, ?_⟩
    simp only [not_or, not_not, not_exists, not_and, not_lt, not_le]
    exact ⟨h.y_ne, h.d_le, h.w_le, h.premises_lt, fun hr => by simpa using h.source_none hr,
      h.product_w⟩

theorem StepAccepted.quantity_ok : q.Ok c.vars.length :=
  ⟨h.disjoint_yd, h.disjoint_yz, h.disjoint_dz, fun _ => h.y_eq.lt, fun _ => h.d_eq.lt,
    fun _ => h.z_eq.lt⟩

end

theorem arity_of_ruleHolds {w : Finset Nat}
    (h : ruleHolds c v target allowRelaxed st step q w = .ok true) :
    step.premises.length = MixedStep.arity step.rule := by
  obtain ⟨rule, premises, params, y, d, z, source, relaxed, expression⟩ := step
  unfold ruleHolds at h
  rcases premises with _ | ⟨i, _ | ⟨j, _ | ⟨k, premises⟩⟩⟩ <;> cases rule <;>
    first | rfl | (simp [unaryRuleHolds] at h)

end Accepted

/-- The run of the replay, one accepted step after another. -/
theorem checkSteps_cases {graph : Admg} {query : MixedSourceQuery} {catalog : EvidenceCatalog}
    {steps : List MixedStep} {stored : Option CausalExprArena} {allowRelaxed : Bool}
    (h : checkSteps graph query catalog steps stored allowRelaxed = .ok ()) :
    ∃ c v st last, Checker.new graph = .ok c ∧
      validateMixedSourceQuery graph query catalog = .ok v ∧
      steps.foldlM (checkStep c v query.target stored allowRelaxed) ⟨.new, [], []⟩ = .ok st ∧
      st.quantities.getLast? = some last ∧ SetOf c query.outcomes last.y ∧
      SetOf c query.treatments last.d ∧ last.z = ∅ ∧ (∀ a ∈ stored, a = st.arena) ∧
      checkWithSharedExpressionLayer st.arena steps st.expressions = .ok () := by
  unfold checkSteps at h
  obtain ⟨c, hc, h⟩ := bind_ok h
  obtain ⟨v, hv, h⟩ := bind_ok h
  obtain ⟨st, hst, h⟩ := bind_ok h
  cases hl : st.quantities.getLast? with
  | none =>
    rw [hl] at h
    cases h
  | some last =>
    rw [hl] at h
    obtain ⟨y, hy, h⟩ := bind_ok h
    obtain ⟨d, hd, h⟩ := bind_ok h
    obtain ⟨hgoal, hlayer⟩ := guard_ok h
    obtain ⟨hlast, hstored⟩ := not_or.mp hgoal
    obtain rfl := not_not.mp hlast
    refine ⟨c, v, st, _, hc, hv, hst, hl, Checker.set_ok.mp hy, Checker.set_ok.mp hd, rfl, ?_, hlayer⟩
    rintro a ⟨⟩
    simpa using hstored

end Antecedent.Identify
