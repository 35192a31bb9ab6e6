import Antecedent.Expr.Eval
import Antecedent.Identify.MixedReplay
import Antecedent.Identify.Nodes
import Antecedent.Prob.DoCalculus

/-!
# Soundness of the mixed-source proof checker

What an accepted list of steps says about the models of the graph. `StepsFaithful` is the contract:
in every positive discrete semi-Markovian model over the graph, the expression `build_expression`
gives each step evaluates to the step's quantity on the cited laws, and the root mentions only
outcomes and treatment levels.

`check_steps` does not deliver all of it. Its marginalize arm asks `y ∪ w = py` and never that `w`
leaves `y`, so a step may sum out a variable and keep it in its quantity.

* `unaryRule_kernel`: the do-calculus rules keep the value of the expression they leave unchanged.
* **`checkSteps_faithful_iff`**: an accepted list is faithful iff no marginalize step keeps a
  variable it sums out.
-/

namespace Antecedent.Identify

open Finset
open Core
open Expr
open Graph
open Mixed
open Prob

/-! ## The contract -/

def nodesOf (graph : Admg) (vs : List Nat) : Finset (Fin graph.nodeCount) :=
  univ.filter fun i => ∃ v ∈ vs, ((staticVariables graph.nodes).getD []).idxOf v = i.val

section Model

variable {graph : Admg} {Ω : Fin graph.nodeCount → Type} [∀ i, Fintype (Ω i)]
  [∀ i, DecidableEq (Ω i)]

/-- The law of the regime a leaf cites: `P(measured | do(intervened))` in the model. -/
noncomputable def citedLaw (v : ValidatedMixedSourceQuery) (M : Model (onNodes graph) Ω)
    (leaf : Leaf) : (∀ i, Ω i) → ℝ :=
  match leaf.regime.bind v.cited with
  | some input => M.law (nodesOf graph input.intervened) (nodesOf graph input.measured)
  | none => fun _ => 0

noncomputable def valueOf (v : ValidatedMixedSourceQuery) (M : Model (onNodes graph) Ω)
    (e : ExprTree) : (∀ i, Ω i) → ℝ := e.eval (nodesOf graph) (citedLaw v M)

noncomputable def quantityOf (M : Model (onNodes graph) Ω) (step : MixedStep) :
    (∀ i, Ω i) → ℝ :=
  M.kernel (nodesOf graph step.y) (nodesOf graph step.intervened) (nodesOf graph step.conditioned)

end Model

/-- What a checked list of steps promises: in every positive model each step's expression evaluates
to its quantity and the last one to the query, and the last expression leaves free, and leaves
symbolic, outcomes and treatments only. -/
def StepsFaithful (graph : Admg) (query : MixedSourceQuery) (catalog : EvidenceCatalog)
    (steps : List MixedStep) : Prop :=
  ∃ (v : ValidatedMixedSourceQuery) (arena : CausalExprArena) (es : List Nat) (root : Nat),
    validateMixedSourceQuery graph query catalog = .ok v ∧
    buildSteps query.target steps = .ok (arena, es) ∧ es.length = steps.length ∧
    es.getLast? = some root ∧
    (∀ x ∈ (arena.view root).freeVariables, x ∈ query.outcomes ∨ x ∈ query.treatments) ∧
    (∀ x ∈ (arena.view root).openLevels, x ∈ query.outcomes ∨ x ∈ query.treatments) ∧
    ∀ (Ω : Fin graph.nodeCount → Type) [∀ i, Fintype (Ω i)] [∀ i, DecidableEq (Ω i)]
      (M : Model (onNodes graph) Ω), M.Positive → ∀ σ,
      (∀ (i : Nat) (step : MixedStep) (e : Nat), steps[i]? = some step → es[i]? = some e →
        valueOf v M (arena.view e) σ = quantityOf M step σ) ∧
      valueOf v M (arena.view root) σ =
        M.law (nodesOf graph query.treatments) (nodesOf graph query.outcomes) σ

/-! ## Positions and nodes -/

variable {graph : Admg} {c : Checker}

theorem Checker.Reads.variables_eq (hc : c.Reads graph) :
    (staticVariables graph.nodes).getD [] = c.vars := by
  have h := hc.vars
  unfold denseVariables at h
  cases hs : staticVariables graph.nodes with
  | none =>
    rw [hs] at h
    cases h
  | some vars =>
    rw [hs] at h
    cases h
    rfl

theorem SetOf.nodesOf_eq (hc : c.Reads graph) {vs : List Nat} {s : Finset Nat}
    (h : SetOf c vs s) : nodesOf graph vs = lift graph.nodeCount s := by
  ext i
  unfold nodesOf
  rw [mem_filter, hc.variables_eq, mem_lift, h.mem]
  simp

theorem nodesOf_sortDedup (vs : List Nat) : nodesOf graph (sortDedup vs) = nodesOf graph vs := by
  ext i
  simp [nodesOf]

/-! ## The rules -/

section Rules

variable {Ω : Fin graph.nodeCount → Type} [∀ i, Fintype (Ω i)] [∀ i, DecidableEq (Ω i)]
  {M : Model (onNodes graph) Ω}

noncomputable def Quantity.kernel (M : Model (onNodes graph) Ω) (q : Quantity) :
    (∀ i, Ω i) → ℝ :=
  M.kernel (lift graph.nodeCount q.y) (lift graph.nodeCount q.d) (lift graph.nodeCount q.z)

/-- **The test, read on the nodes.** -/
theorem Checker.Reads.separated (hc : c.Reads graph) {overline underline a b cond : Finset Nat}
    (ha : ∀ v ∈ a, v < graph.nodeCount) (hb : ∀ v ∈ b, v < graph.nodeCount)
    (hcond : ∀ v ∈ cond, v < graph.nodeCount) (hac : Disjoint a cond) (hbc : Disjoint b cond)
    (hab : Disjoint a b) (h : c.separated overline underline a b cond = true) :
    (((graph.mixed.mutilate overline underline)).comap (Fin.val : Fin graph.nodeCount → Nat)).MSeparated
      (lift graph.nodeCount b) (lift graph.nodeCount a) (lift graph.nodeCount cond) := by
  rw [Checker.separated_iff hc.rows (hc.length ▸ ha) (hc.length ▸ hb) (hc.length ▸ hcond) hac hbc
    hab] at h
  apply MixedGraph.MSeparated.comap Fin.val_injective
  rw [image_lift ha, image_lift hb, image_lift hcond]
  exact h.symm fun y hy => disjoint_left.mp hbc hy

section Kernel

variable {y d z w : Finset Nat}

theorem Moved.context (hw : Moved ⟨y, d, z⟩ w graph.nodeCount) :
    Disjoint (lift graph.nodeCount w) (lift graph.nodeCount d ∪ lift graph.nodeCount z) :=
  disjoint_union_right.mpr ⟨disjoint_lift hw.d, disjoint_lift hw.z⟩

theorem separated_nodes (hc : c.Reads graph) (hq : Quantity.Ok ⟨y, d, z⟩ graph.nodeCount)
    (hw : Moved ⟨y, d, z⟩ w graph.nodeCount) {overline underline : Finset Nat}
    (h : c.separated overline underline y w (d ∪ z) = true) :
    ((onNodes graph).mutilate (lift graph.nodeCount overline) (lift graph.nodeCount underline)).MSeparated
      (lift graph.nodeCount w) (lift graph.nodeCount y)
      (lift graph.nodeCount d ∪ lift graph.nodeCount z) := by
  have hlt : ∀ i ∈ d ∪ z, i < graph.nodeCount := fun i hi =>
    (mem_union.mp hi).elim (hq.d_lt i) (hq.z_lt i)
  have hs := hc.separated hq.y_lt hw.lt hlt (disjoint_union_right.mpr ⟨hq.yd, hq.yz⟩)
    (disjoint_union_right.mpr ⟨hw.d, hw.z⟩) hw.y.symm h
  rwa [comap_mutilate, lift_union, coe_union] at hs

theorem kernel_rule1 (hc : c.Reads graph) (hM : M.Positive)
    (hq : Quantity.Ok ⟨y, d, z⟩ graph.nodeCount) (hw : Moved ⟨y, d, z⟩ w graph.nodeCount)
    (h : c.separated d ∅ y w (d ∪ z) = true) (σ : ∀ i, Ω i) :
    Quantity.kernel M ⟨y, d, z ∪ w⟩ σ = Quantity.kernel M ⟨y, d, z⟩ σ := by
  have hs := separated_nodes hc hq hw h
  rw [lift_empty, coe_empty] at hs
  unfold Quantity.kernel
  rw [lift_union]
  exact Model.rule1 (onNodes_acyclic graph) hM (disjoint_lift hq.yd) (disjoint_lift hq.yz)
    (disjoint_lift hq.dz.symm) hw.context hs σ

theorem kernel_rule2 (hc : c.Reads graph) (hM : M.Positive)
    (hq : Quantity.Ok ⟨y, d, z⟩ graph.nodeCount) (hw : Moved ⟨y, d, z⟩ w graph.nodeCount)
    (h : c.separated d w y w (d ∪ z) = true) (σ : ∀ i, Ω i) :
    Quantity.kernel M ⟨y, d, z ∪ w⟩ σ = Quantity.kernel M ⟨y, d ∪ w, z⟩ σ := by
  have hs := separated_nodes hc hq hw h
  unfold Quantity.kernel
  rw [lift_union, lift_union]
  exact Model.rule2 (onNodes_acyclic graph) hM (disjoint_lift hq.yd) (disjoint_lift hq.yz)
    (disjoint_lift hq.dz.symm) hw.context hs σ

theorem kernel_rule3 (hc : c.Reads graph) (hM : M.Positive)
    (hq : Quantity.Ok ⟨y, d, z⟩ graph.nodeCount) (hw : Moved ⟨y, d, z⟩ w graph.nodeCount)
    (h : c.separated (d ∪ (w \ c.ancestors z d)) ∅ y w (d ∪ z) = true) (σ : ∀ i, Ω i) :
    Quantity.kernel M ⟨y, d ∪ w, z⟩ σ = Quantity.kernel M ⟨y, d, z⟩ σ := by
  have hs := separated_nodes hc hq hw h
  have hover : ((lift graph.nodeCount (d ∪ (w \ c.ancestors z d)) : Finset _) : Set _) =
      (lift graph.nodeCount d : Set (Fin graph.nodeCount)) ∪ ((lift graph.nodeCount w : Set _) \
        ((onNodes graph).mutilate (lift graph.nodeCount d) ∅).AncSet (lift graph.nodeCount z)) := by
    ext i
    have hanc : i.val ∈ c.ancestors z d ↔ i.val ∈ (graph.mixed.mutilate d ∅).AncSet z :=
      Checker.mem_ancestors hc.rows fun v hv => hc.length ▸ hq.z_lt v hv
    rw [mem_coe, mem_lift, mem_union, mem_sdiff, Set.mem_union, Set.mem_sdiff, mem_coe, mem_coe,
      mem_lift, mem_lift, mem_ancSet_onNodes hq.z_lt, hanc]
  rw [lift_empty, coe_empty, hover] at hs
  unfold Quantity.kernel
  rw [lift_union]
  exact Model.rule3 (onNodes_acyclic graph) hM (disjoint_lift hq.yd) (disjoint_lift hq.yz)
    (disjoint_lift hq.dz.symm) hw.context hs σ

end Kernel

/-- **A do-calculus rule that holds keeps the quantity.** -/
theorem unaryRule_kernel (hc : c.Reads graph) (hM : M.Positive) {rule : MixedRule}
    {p q : Quantity} {w free : Finset Nat} (hp : p.Ok graph.nodeCount)
    (h : unaryRuleHolds c (range c.vars.length) rule p q w free = true) (σ : ∀ i, Ω i) :
    q.kernel M σ = p.kernel M σ := by
  obtain ⟨py, pd, pz⟩ := p
  obtain ⟨y, d, z⟩ := q
  unfold unaryRuleHolds at h
  split_ifs at h with hshape
  obtain ⟨-, hy⟩ := not_or.mp hshape
  obtain rfl : py = y := not_not.mp hy
  have drop : ∀ {s t : Finset Nat}, w ⊆ s → t = s \ w → s = t ∪ w ∧ Disjoint w t := fun hw he =>
    ⟨by rw [he, sdiff_union_of_subset hw], by rw [he]; exact disjoint_sdiff⟩
  cases rule with
  | rule1Insert =>
    obtain ⟨hw, rfl, rfl, hs⟩ := of_decide_eq_true h
    exact kernel_rule1 hc hM hp (hc.length ▸ Moved.of_outside hw) hs σ
  | rule1Delete =>
    obtain ⟨hw, -, rfl, hz, hs⟩ := of_decide_eq_true h
    obtain ⟨he, hzw⟩ := drop hw hz
    obtain rfl : pz = z ∪ w := he
    exact (kernel_rule1 hc hM hp.of_union_z (.of_union_z hp hzw) hs σ).symm
  | rule2ToDo =>
    obtain ⟨hw, rfl, hz, hs⟩ := of_decide_eq_true h
    obtain ⟨he, hzw⟩ := drop hw hz
    obtain rfl : pz = z ∪ w := he
    exact (kernel_rule2 hc hM hp.of_union_z (.of_union_z hp hzw) hs σ).symm
  | rule2ToObservation =>
    obtain ⟨hw, hd, rfl, hs⟩ := of_decide_eq_true h
    obtain ⟨he, hdw⟩ := drop hw hd
    obtain rfl : pd = d ∪ w := he
    exact kernel_rule2 hc hM hp.of_union_d (.of_union_d hp hdw) hs σ
  | rule3Insert =>
    obtain ⟨hw, rfl, hz, hs⟩ := of_decide_eq_true h
    obtain rfl : z = pz := hz
    exact kernel_rule3 hc hM hp (hc.length ▸ Moved.of_outside hw) hs σ
  | rule3Delete =>
    obtain ⟨hw, -, hd, hz, hs⟩ := of_decide_eq_true h
    obtain rfl : z = pz := hz
    obtain ⟨he, hdw⟩ := drop hw hd
    obtain rfl : pd = d ∪ w := he
    exact (kernel_rule3 hc hM hp.of_union_d (.of_union_d hp hdw) hs σ).symm
  | _ => cases h

/-! ## One step -/

variable {v : ValidatedMixedSourceQuery} {target : String} {stored : Option CausalExprArena}
  {done : List MixedStep}
  {allowRelaxed : Bool}
  {st : Replay} {step : MixedStep} {q : Quantity} {w : Finset Nat} {arena : CausalExprArena}
  {expression : Nat}

theorem input_value (hc : c.Reads graph) {leaf : MixedSourceLeaf}
    (hs : step.source = some leaf)
    (h : inputHolds c v target allowRelaxed step q w = .ok true) (domain : DomainRef)
    (vars conditionedOn : List Nat) (intervention : List InterventionAssignment)
    (σ : ∀ i, Ω i) :
    citedLaw v M ⟨vars, conditionedOn, intervention, domain, target, some leaf.regime⟩ σ =
      q.kernel M σ := by
  unfold inputHolds at h
  rw [hs] at h
  cases hi : v.cited leaf.regime with
  | none =>
    simp only [hi] at h
    cases h
  | some input =>
    simp only [hi] at h
    obtain ⟨measured, hm, h⟩ := bind_ok h
    obtain ⟨intervened, hd, h⟩ := bind_ok h
    obtain ⟨rfl, rfl, hz, -⟩ := of_decide_eq_true ((Except.ok.injEq _ _).mp h)
    unfold citedLaw Quantity.kernel
    simp only [Option.bind_some, hi]
    rw [(Checker.set_ok.mp hm).nodesOf_eq hc, (Checker.set_ok.mp hd).nodesOf_eq hc, hz, lift_empty,
      Model.kernel_unconditioned (onNodes_acyclic graph)]

/-- **The value of a step's tree**, given those of its premises: the step's quantity, unless the
step marginalizes a variable it keeps. -/
theorem tree_value (hc : c.Reads graph) (hM : M.Positive)
    (h : StepAccepted c v target stored allowRelaxed st step q w arena expression)
    {trees : List ExprTree} (hlen : trees.length = step.premises.length)
    (hprem : ∀ (i p : Nat) (t : ExprTree), step.premises[i]? = some p → trees[i]? = some t →
      (st.quantity p).Ok graph.nodeCount ∧ ∀ σ, valueOf v M t σ = (st.quantity p).kernel M σ)
    (hkeep : step.rule = .marginalize → Disjoint w q.y) (σ : ∀ i, Ω i) :
    valueOf v M (step.tree trees target) σ = q.kernel M σ := by
  have hq := hc.length ▸ h.quantity_ok
  have hholds := h.holds
  have harity := arity_of_ruleHolds hholds
  have hfun : ∀ {i p : Nat} {t : ExprTree}, step.premises[i]? = some p → trees[i]? = some t →
      valueOf v M t = (st.quantity p).kernel M := fun hp ht => funext (hprem _ _ _ hp ht).2
  unfold ruleHolds at hholds
  unfold MixedStep.tree
  cases hrule : step.rule with
  | input =>
    rw [hrule] at harity hholds
    rw [List.length_eq_zero_iff.mp harity] at hholds
    cases hs : step.source with
    | none =>
      simp only [inputHolds, hs] at hholds
      cases hholds
    | some leaf => exact input_value hc hs hholds _ _ _ _ σ
  | product =>
    rw [hrule] at harity hholds
    obtain ⟨i, j, hij⟩ := List.length_eq_two.mp harity
    rw [hij] at hholds hlen hprem
    obtain ⟨s, t, rfl⟩ := List.length_eq_two.mp hlen
    obtain ⟨-, hd, haz, -, hbz, hy⟩ := of_decide_eq_true ((Except.ok.injEq _ _).mp hholds)
    have hs := (hprem 0 i s rfl rfl).2 σ
    have ht := (hprem 1 j t rfl rfl).2 σ
    have hbd : (st.quantity j).d = (st.quantity i).d :=
      (of_decide_eq_true ((Except.ok.injEq _ _).mp hholds)).1.symm
    show valueOf v M s σ * (valueOf v M t σ * 1) = _
    rw [mul_one, hs, ht]
    unfold Quantity.kernel
    rw [hbd, haz, hy, ← hd, hbz, lift_union, lift_union, Model.kernel_product hM]
  | marginalize =>
    rw [hrule] at harity hholds
    obtain ⟨i, hi⟩ := List.length_eq_one_iff.mp harity
    rw [hi] at hholds hlen hprem hfun
    obtain ⟨t, rfl⟩ := List.length_eq_one_iff.mp hlen
    obtain ⟨-, -, hy, hd, hz⟩ := of_decide_eq_true ((Except.ok.injEq _ _).mp hholds)
    have hpok := (hprem 0 i t rfl rfl).1
    have hwy := hkeep hrule
    have hwp : w ⊆ (st.quantity i).y := hy ▸ subset_union_right
    show marg (nodesOf graph (sortDedup step.params)) (valueOf v M t) σ = _
    rw [hfun (i := 0) rfl rfl, nodesOf_sortDedup, h.w_eq.nodesOf_eq hc]
    unfold Quantity.kernel
    rw [← hy, hd, hz, lift_union, Model.kernel_marginalize]
    have hwz : Disjoint w q.z := hz ▸ hpok.yz.mono_left hwp
    have hwd : Disjoint w q.d := hd ▸ hpok.yd.mono_left hwp
    exact disjoint_union_right.mpr ⟨disjoint_union_right.mpr ⟨disjoint_lift hwy, disjoint_lift hwz⟩,
      disjoint_lift hwd⟩
  | condition =>
    rw [hrule] at harity hholds
    obtain ⟨i, hi⟩ := List.length_eq_one_iff.mp harity
    rw [hi] at hholds hlen hprem hfun
    obtain ⟨t, rfl⟩ := List.length_eq_one_iff.mp hlen
    obtain ⟨-, -, hy, hd, hz⟩ := of_decide_eq_true ((Except.ok.injEq _ _).mp hholds)
    show valueOf v M t σ / marg (nodesOf graph (sortDedup step.y)) (valueOf v M t) σ = _
    rw [hfun (i := 0) rfl rfl, nodesOf_sortDedup, h.y_eq.nodesOf_eq hc]
    unfold Quantity.kernel
    rw [← hy, hd, hz, lift_union, lift_union, Model.kernel_condition hM]
    rw [← lift_union, ← hz]
    exact disjoint_union_right.mpr ⟨disjoint_lift hq.yz, disjoint_lift hq.yd⟩
  | _ =>
    rw [hrule] at harity hholds
    obtain ⟨i, hi⟩ := List.length_eq_one_iff.mp harity
    rw [hi] at hholds hlen hprem
    obtain ⟨t, rfl⟩ := List.length_eq_one_iff.mp hlen
    have hu := (Except.ok.injEq _ _).mp hholds
    obtain ⟨hpok, hp⟩ := hprem 0 i t rfl rfl
    exact (hp σ).trans (unaryRule_kernel hc hM hpok hu σ).symm

/-! ## The run of the replay -/

/-- Every expression of the replay evaluates to its quantity. -/
def Replay.Values (v : ValidatedMixedSourceQuery) (M : Model (onNodes graph) Ω) (st : Replay) :
    Prop :=
  ∀ (i e : Nat) (q : Quantity), st.expressions[i]? = some e → st.quantities[i]? = some q →
    ∀ σ, valueOf v M (st.arena.view e) σ = q.kernel M σ

section Step

variable {done : List MixedStep} {allowRelaxed : Bool}

theorem Replay.Values.snoc (hc : c.Reads graph) (hM : M.Positive)
    (hr : ReplayOk c graph.nodeCount target done st) (hv : st.Values v M)
    (h : StepAccepted c v target stored allowRelaxed st step q w arena expression)
    (hkeep : step.rule = .marginalize → Disjoint w q.y) :
    Replay.Values v M ⟨arena, st.quantities ++ [q], st.expressions ++ [expression]⟩ := by
  obtain ⟨hg, hlt, hview⟩ := built_spec hr h
  intro i e q' he hq' σ
  have hlen : st.quantities.length = st.expressions.length := hr.len_q.trans hr.len_e.symm
  rcases getElem?_snoc he with he | ⟨rfl, rfl⟩
  · have hi := (List.getElem?_eq_some_iff.mp he).1
    rcases getElem?_snoc hq' with hq' | ⟨rfl, -⟩
    · rw [CausalExprArena.view_extends hr.wf hg.wf hg.ext (hr.lt e (List.mem_of_getElem? he))]
      exact hv i e q' he hq' σ
    · omega
  · obtain rfl : q = q' := by
      rcases getElem?_snoc hq' with hq' | ⟨-, rfl⟩
      · have hi := (List.getElem?_eq_some_iff.mp hq').1
        omega
      · rfl
    show valueOf v M (arena.view _) σ = _
    rw [hview]
    refine tree_value hc hM h (List.length_map _) (fun k p t hp ht => ?_) hkeep σ
    rw [List.getElem?_map, hp] at ht
    obtain rfl := (Option.some.injEq _ _).mp ht
    have hpq : p < st.quantities.length := h.premises_lt p (List.mem_of_getElem? hp)
    have hpe : p < st.expressions.length := by rw [hr.len_e, ← hr.len_q]; exact hpq
    have hpd : p < done.length := hr.len_q ▸ hpq
    obtain ⟨q₀, hq₀, -, -, -, hok⟩ := hr.quantity p done[p] (List.getElem?_eq_getElem hpd)
    have hquant : st.quantity p = q₀ := by
      unfold Replay.quantity
      rw [List.getD_eq_getElem?_getD, hq₀]
      rfl
    rw [hquant]
    refine ⟨hok, hv p _ q₀ ?_ hq₀⟩
    rw [List.getD_eq_getElem _ _ hpe]
    exact List.getElem?_eq_getElem hpe

end Step

/-- **A run of accepted steps keeps the values** when no step marginalizes a variable it keeps. -/
theorem run_values (hc : c.Reads graph) (hM : M.Positive) :
    ∀ {steps done : List MixedStep} {st st' : Replay},
      steps.foldlM (checkStep c v target stored allowRelaxed) st = .ok st' →
      ReplayOk c graph.nodeCount target done st → st.Values v M →
      (∀ step ∈ steps, step.rule = .marginalize → ∀ x ∈ step.params, x ∉ step.y) →
      st'.Values v M
  | [], done, st, st', h, _, hv, _ => by
    cases h
    exact hv
  | step :: steps, done, st, st', h, hr, hv, hkeep => by
    rw [List.foldlM_cons] at h
    obtain ⟨st₁, hstep, h⟩ := bind_ok h
    obtain ⟨q, w, arena, e, ha, rfl⟩ := checkStep_cases hstep
    refine run_values hc hM h (hr.snoc hc ha) (hv.snoc hc hM hr ha fun hm => ?_)
      fun s hs => hkeep s (List.mem_cons_of_mem step hs)
    exact (ha.w_eq.disjoint_iff ha.y_eq).mpr (hkeep step List.mem_cons_self hm)

theorem run_split {pre post : List MixedStep} {st st' : Replay}
    (h : (pre ++ step :: post).foldlM (checkStep c v target stored allowRelaxed) st = .ok st') :
    ∃ st₁ st₂, pre.foldlM (checkStep c v target stored allowRelaxed) st = .ok st₁ ∧
      checkStep c v target stored allowRelaxed st₁ step = .ok st₂ ∧
      post.foldlM (checkStep c v target stored allowRelaxed) st₂ = .ok st' := by
  rw [List.foldlM_append] at h
  obtain ⟨st₁, h1, h⟩ := bind_ok h
  rw [List.foldlM_cons] at h
  obtain ⟨st₂, h2, h3⟩ := bind_ok h
  exact ⟨st₁, st₂, h1, h2, h3⟩

theorem Replay.Values.of_extends {n : Nat} {st' : Replay}
    (hv : st'.Values v M) (hr : ReplayOk c n target done st) (hw : st'.arena.WF)
    (hext : CausalExprArena.Extends st.arena st'.arena) (he : st.expressions <+: st'.expressions)
    (hq : st.quantities <+: st'.quantities) : st.Values v M := fun i e q hi hqi σ => by
  rw [← CausalExprArena.view_extends hr.wf hw hext (hr.lt e (List.mem_of_getElem? hi))]
  exact hv i e q (getElem?_prefixed he hi) (getElem?_prefixed hq hqi) σ

theorem ReplayOk.values_of_quantityOf (hc : c.Reads graph)
    (hr : ReplayOk c graph.nodeCount target done st)
    (h : ∀ (i : Nat) (step : MixedStep) (e : Nat), done[i]? = some step →
      st.expressions[i]? = some e → ∀ σ,
        valueOf v M (st.arena.view e) σ = quantityOf M step σ) : st.Values v M := by
  intro i e q he hq σ
  have hi : i < done.length := hr.len_q ▸ (List.getElem?_eq_some_iff.mp hq).1
  have hs : done[i]? = some done[i] := List.getElem?_eq_getElem hi
  obtain ⟨q', hq', hsy, hsd, hsz, -⟩ := hr.quantity i done[i] hs
  obtain rfl : q = q' := Option.some.inj (hq.symm.trans hq')
  rw [h i done[i] e hs he σ]
  unfold quantityOf Quantity.kernel
  rw [hsy.nodesOf_eq hc, hsd.nodesOf_eq hc, hsz.nodesOf_eq hc]

/-- **A marginalize step that keeps a variable it sums out has a wrong value** in every positive
model over variables with two values. -/
theorem StepAccepted.not_keeps (hc : c.Reads graph) {M : Model (onNodes graph) fun _ => Bool}
    (hM : M.Positive)
    (hr : ReplayOk c graph.nodeCount target done st)
    (h : StepAccepted c v target stored allowRelaxed st step q w arena expression)
    (hrule : step.rule = .marginalize)
    (hv : Replay.Values v M ⟨arena, st.quantities ++ [q], st.expressions ++ [expression]⟩) {x : Nat}
    (hxw : x ∈ step.params) : x ∉ step.y := by
  intro hxy
  obtain ⟨hg, hlt, hview⟩ := built_spec hr h
  have hholds := h.holds
  have harity := arity_of_ruleHolds hholds
  unfold ruleHolds at hholds
  rw [hrule] at harity hholds
  obtain ⟨p, hp⟩ := List.length_eq_one_iff.mp harity
  rw [hp] at hholds hview
  obtain ⟨-, hwp, hy, hd, hz⟩ := of_decide_eq_true ((Except.ok.injEq _ _).mp hholds)
  have hpq : p < st.quantities.length := h.premises_lt p (by rw [hp]; exact List.mem_singleton_self p)
  have hpe : p < st.expressions.length := by rw [hr.len_e, ← hr.len_q]; exact hpq
  have hpd : p < done.length := hr.len_q ▸ hpq
  obtain ⟨q₀, hq₀, -, -, -, hok⟩ := hr.quantity p done[p] (List.getElem?_eq_getElem hpd)
  have hquant : st.quantity p = q₀ := by
    unfold Replay.quantity
    rw [List.getD_eq_getElem?_getD, hq₀]
    rfl
  rw [hquant] at hwp hy hd hz
  have hlen : st.expressions.length = st.quantities.length := hr.len_e.trans hr.len_q.symm
  have hprem : valueOf v M (st.arena.view st.expressions[p]) = q₀.kernel M := funext
    (hv.of_extends hr hg.wf hg.ext (List.prefix_append _ _) (List.prefix_append _ _) p _ q₀
      (List.getElem?_eq_getElem hpe) hq₀)
  have hstep : valueOf v M (arena.view expression) = q.kernel M := funext
    (hv st.expressions.length expression q (List.getElem?_concat_length ..)
      (by rw [hlen]; exact List.getElem?_concat_length ..))
  have hmarg : valueOf v M (arena.view expression) =
      marg (lift graph.nodeCount w) (q₀.kernel M) := by
    rw [hview, ← hprem]
    unfold MixedStep.tree
    simp only [hrule, List.map_cons, List.map_nil, List.getD_cons_zero]
    rw [List.getD_eq_getElem _ _ hpe]
    show marg (nodesOf graph (sortDedup step.params)) _ = _
    rw [nodesOf_sortDedup, h.w_eq.nodesOf_eq hc]
    rfl
  have hx : c.vars.idxOf x < graph.nodeCount :=
    hc.length ▸ List.idxOf_lt_length_iff.mpr (h.w_eq.known x hxw)
  refine Model.marg_kernel_ne (v := ⟨c.vars.idxOf x, hx⟩) (x := fun _ => false) (a := true)
    (Y := lift graph.nodeCount q.y) (W := lift graph.nodeCount w) (Z := lift graph.nodeCount q.z)
    (D := lift graph.nodeCount q.d) hM ?_ (mem_lift.mpr (h.y_eq.mem_iff.mpr hxy))
    (mem_lift.mpr (h.w_eq.mem_iff.mpr hxw)) (by decide) ?_
  · rw [← lift_union]
    refine disjoint_lift (disjoint_union_right.mpr ⟨hz ▸ hok.yz.mono_left hwp, ?_⟩)
    exact hd ▸ hok.yd.mono_left hwp
  · rw [← lift_union, hy, ← hd, ← hz]
    refine hmarg.symm.trans (hstep.trans ?_)
    unfold Quantity.kernel
    rw [hd, hz]

end Rules

/-! ## Accepted lists -/

variable {query : MixedSourceQuery} {catalog : EvidenceCatalog} {steps : List MixedStep}
  {stored : Option CausalExprArena}

theorem faithful_of_keeps (h : checkSteps graph query catalog steps stored false = .ok ())
    (hkeep : ∀ step ∈ steps, step.rule = .marginalize → ∀ x ∈ step.params, x ∉ step.y) :
    StepsFaithful graph query catalog steps := by
  obtain ⟨c, v, st, last, hc, hv, hrun, hlast, hy, hd, hz, -, -⟩ := checkSteps_cases h
  have hc := Checker.new_reads hc
  obtain ⟨hr, -, -, -⟩ := run_ok hc hrun replayOk_new
  rw [List.nil_append] at hr
  obtain ⟨pre, step, rfl⟩ : ∃ pre step, steps = pre ++ [step] := by
    rcases List.eq_nil_or_concat' steps with rfl | h
    · cases hrun
      cases hlast
    · exact h
  obtain ⟨st₁, st₂, hpre, hstep, hpost⟩ := run_split hrun
  cases hpost
  obtain ⟨hr₁, -, -, -⟩ := run_ok hc hpre replayOk_new
  obtain ⟨q, w, arena, e, ha, rfl⟩ := checkStep_cases hstep
  obtain rfl : q = last := by simpa using hlast
  obtain ⟨free, hfree, hsub⟩ := ha.free
  obtain ⟨hknown, rfl⟩ := Checker.positions_ok.mp hfree
  have hroot : ∀ x ∈ (arena.view e).freeVariables, x ∈ query.outcomes ∨ x ∈ query.treatments := by
    intro x hx
    have hmem := hsub (List.mem_toFinset.mpr (List.mem_map_of_mem hx))
    rw [hz, union_empty, mem_union, hy.mem_iff, hd.mem_iff] at hmem
    exact hmem
  refine ⟨v, arena, st₁.expressions ++ [e], e, hv, hr.built, hr.len_e, List.getLast?_concat, hroot,
    fun x hx => hroot x (ExprTree.mem_openLevels _ hx), fun Ω _ _ M hM σ => ?_⟩
  have hvals := run_values (M := M) hc hM hrun replayOk_new (fun i e q he => by cases he) hkeep
  constructor
  · intro i s e' hs he'
    obtain ⟨q', hq', hsy, hsd, hsz, -⟩ := hr.quantity i s hs
    rw [hvals i e' q' he' hq' σ]
    unfold quantityOf Quantity.kernel
    rw [hsy.nodesOf_eq hc, hsd.nodesOf_eq hc, hsz.nodesOf_eq hc]
  · have hl : st₁.expressions.length = st₁.quantities.length := by
      have h1 := hr₁.len_e
      rw [h1, hr₁.len_q]
    rw [hvals st₁.expressions.length e q (List.getElem?_concat_length ..)
      (by rw [hl]; exact List.getElem?_concat_length ..) σ]
    unfold Quantity.kernel
    rw [hz, lift_empty, Model.kernel_unconditioned (onNodes_acyclic graph), hy.nodesOf_eq hc,
      hd.nodesOf_eq hc]

theorem keeps_of_faithful (h : checkSteps graph query catalog steps stored false = .ok ())
    (hf : StepsFaithful graph query catalog steps) :
    ∀ step ∈ steps, step.rule = .marginalize → ∀ x ∈ step.params, x ∉ step.y := by
  intro step hmem hrule x hxw hxy
  obtain ⟨c, v, st, last, hc, hv, hrun, -⟩ := checkSteps_cases h
  have hc := Checker.new_reads hc
  obtain ⟨v', arena', es, root, hv', hbuilt, -, -, -, -, hvals⟩ := hf
  obtain rfl : v = v' := by rw [hv] at hv'; cases hv'; rfl
  obtain ⟨hr, -, -, -⟩ := run_ok hc hrun replayOk_new
  rw [List.nil_append] at hr
  rw [hr.built] at hbuilt
  obtain ⟨rfl, rfl⟩ := Prod.ext_iff.mp ((Except.ok.injEq _ _).mp hbuilt)
  -- the model in which every variable is a fair coin
  have hM : (uniform (onNodes graph) fun _ => Bool).Positive := uniform_positive _ _
  have hst := hr.values_of_quantityOf hc fun i s e hs he σ => (hvals _ _ hM σ).1 i s e hs he
  obtain ⟨pre, post, rfl⟩ := List.append_of_mem hmem
  obtain ⟨st₁, st₂, hpre, hstep, hpost⟩ := run_split hrun
  obtain ⟨hr₁, -, -, -⟩ := run_ok hc hpre replayOk_new
  rw [List.nil_append] at hr₁
  obtain ⟨q, w, arena, e, ha, rfl⟩ := checkStep_cases hstep
  obtain ⟨-, hext, hexp, hquant⟩ := run_ok hc hpost (hr₁.snoc hc ha)
  exact ha.not_keeps hc hM hr₁ hrule (hst.of_extends (hr₁.snoc hc ha) hr.wf hext hexp hquant) hxw hxy

/-- **What `check_steps` certifies.** An accepted list of steps is faithful iff no marginalize step
keeps a variable it sums out. -/
theorem checkSteps_faithful_iff
    (h : checkSteps graph query catalog steps stored false = .ok ()) :
    StepsFaithful graph query catalog steps ↔
      ∀ step ∈ steps, step.rule = .marginalize → ∀ x ∈ step.params, x ∉ step.y :=
  ⟨keeps_of_faithful h, faithful_of_keeps h⟩

/-! ## A sum that keeps its variable -/

/-- One experiment on three unconnected variables: the joint law of `1` and `2` under `do(0)`. -/
def jointRegime : EvidenceRegime where
  id := 0
  label := none
  kind := .experimental
  evidenceKind := .available
  interventions := [0]
  interventionValues := []
  measured := [1, 2]
  conditionedOn := []
  population := "target"
  distribution := .joint
  study := none
  selection := .population
  origin := .measured
  canonicalIdentity := "catalog_distribution.v1"

def jointCatalog : EvidenceCatalog := ⟨[], [jointRegime], []⟩

def jointQuery : MixedSourceQuery := ⟨[1, 2], [0], "target", []⟩

def jointInput : MixedStep where
  rule := .input
  premises := []
  params := []
  y := [1, 2]
  intervened := [0]
  conditioned := []
  source := some ⟨0, "target", "target", none, "catalog_distribution.v1"⟩
  relaxed := false
  expression := 0

/-- It sums `1` out and keeps it in its quantity. -/
def keptSum : MixedStep where
  rule := .marginalize
  premises := [0]
  params := [1]
  y := [1, 2]
  intervened := [0]
  conditioned := []
  source := none
  relaxed := false
  expression := 1

/-- The input step alone is faithful. -/
theorem jointInput_faithful :
    StepsFaithful (Admg.withVariables 3) jointQuery jointCatalog [jointInput] :=
  (checkSteps_faithful_iff (show checkSteps _ _ _ _ none false = _ by decide)).mpr (by decide)

/-- **An accepted list that is not faithful**: `∑_1 P(1, 2 | do(0))` passes for `P(1, 2 | do(0))`. -/
theorem keptSum_not_faithful :
    jointCatalog.validate = .ok () ∧
      checkSteps (Admg.withVariables 3) jointQuery jointCatalog [jointInput, keptSum] none false =
        .ok () ∧
      ¬ StepsFaithful (Admg.withVariables 3) jointQuery jointCatalog [jointInput, keptSum] := by
  have haccepted : checkSteps (Admg.withVariables 3) jointQuery jointCatalog [jointInput, keptSum]
      none false = .ok () := by decide
  refine ⟨by decide, haccepted, fun hf => ?_⟩
  exact keeps_of_faithful haccepted hf keptSum (by decide) rfl 1 (by decide) (by decide)

end Antecedent.Identify
