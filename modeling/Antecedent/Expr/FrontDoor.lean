import Antecedent.Expr.Eval
import Antecedent.Prob.FrontDoor

/-!
# The front-door functional

Model of `frontdoor_ate` (`lib.rs:867-1040`) as the tree it interns, with the two kinds of node above
it: an expectation and the difference of two. Its value follows `eval_slot` and `eval_expectation`
(`eval.rs:185-439`): the leaf's interventions are bound first, and an expectation runs over the
free variables that nothing binds. The provider is the conditional law of a discrete model.

* **`frontdoorAte_eval`**: in every positive model where the mediators satisfy the criterion, the
  value is the difference of the means under the two interventions.
-/

namespace Antecedent.Expr

open Core
open Mixed
open Prob
open Finset

/-- `ExprNode::Expectation` of the identity of a variable. -/
structure Expectation where
  function : Nat
  distribution : ExprTree

/-- `ExprNode::Contrast` with `ContrastOp::Difference`. -/
structure Contrast where
  left : Expectation
  right : Expectation

/-- `intern_distribution` (`lib.rs:573-592`): no population and no regime. -/
def distribution (vars conditionedOn : List Nat) (intervention : List InterventionAssignment)
    (domain : DomainRef) : ExprTree :=
  .distribution ⟨sortDedup vars, sortDedup conditionedOn, intervention, domain, "", none⟩

/-- `lib.rs:999-1040`. -/
def frontdoorPotentialOutcome (treatment outcome : Nat) (mediators : List Nat) (level : Value) :
    Expectation :=
  let mGivenT := distribution mediators [treatment] [⟨treatment, level⟩] .observational
  let yGivenMT := distribution [outcome] (mediators ++ [treatment]) [] .observational
  let tMarginal := distribution [treatment] [] [] .observational
  let innerSummed := .sumOut (sortDedup [treatment]) (.product [yGivenMT, tMarginal])
  ⟨outcome, .sumOut (sortDedup mediators) (.product [mGivenT, innerSummed])⟩

/-- `lib.rs:960-974`. -/
def frontdoorAte (treatment outcome : Nat) (mediators : List Nat) (active control : Value) :
    Contrast :=
  ⟨frontdoorPotentialOutcome treatment outcome mediators active,
    frontdoorPotentialOutcome treatment outcome mediators control⟩

/-! ## Its variables -/

variable {treatment outcome : Nat} {mediators : List Nat} {level : Value}

/-- **The functional reads the treatment, the mediators and the outcome only.** -/
theorem frontdoor_leaves
    {leaf : Leaf}
    (h : leaf ∈ (frontdoorPotentialOutcome treatment outcome mediators level).distribution.leaves)
    {v : Nat} (hv : v ∈ leaf.vars ++ leaf.conditionedOn) :
    v = treatment ∨ v = outcome ∨ v ∈ mediators := by
  simp only [frontdoorPotentialOutcome, distribution, ExprTree.leaves, ExprTree.leavesList,
    List.append_nil, List.mem_append, List.mem_singleton] at h
  rcases h with rfl | rfl | rfl <;> simp only [List.mem_append, mem_sortDedup] at hv <;>
    simp only [List.mem_singleton, List.not_mem_nil] at hv <;> tauto

/-- **The outcome is the one free variable.** -/
theorem mem_freeVariables_frontdoor
    (hm : outcome ∉ mediators) (ht : outcome ≠ treatment) (hl : level ≠ symbolicIntervention)
    (v : Nat) : v ∈ (frontdoorPotentialOutcome treatment outcome mediators
      level).distribution.freeVariables ↔ v = outcome := by
  have hconcrete : isSymbolic ⟨treatment, level⟩ = false := by
    unfold isSymbolic
    exact decide_eq_false hl
  simp only [frontdoorPotentialOutcome, distribution, ExprTree.freeVariables,
    ExprTree.freeVariablesList, mem_sortDedup, List.mem_filter, List.mem_append, Leaf.conditions,
    Leaf.openLevels, decide_eq_true_eq, List.append_nil]
  simp [hconcrete]
  constructor
  · tauto
  · rintro rfl
    tauto

/-! ## Its value -/

section Eval

variable {V : Type*} [Fintype V] [DecidableEq V] {Ω : V → Type} [∀ v, Fintype (Ω v)] {S : Finset V}
  [∀ v, DecidableEq (Ω v)]

/-- Binding a variable that is not summed goes under the sum. -/
theorem marg_update {v : V} (hv : v ∉ S) (f : (∀ w, Ω w) → ℝ) (x : ∀ w, Ω w)
    (a : Ω v) : marg S f (Function.update x v a) = marg S (fun z => f (Function.update z v a)) x := by
  rw [marg_def, marg_def]
  refine (sum_nbij' (fun z => Function.update z v a) (fun z => Function.update z v (x v))
    (fun z hz => ?_) (fun z hz => ?_) (fun z hz => ?_) (fun z hz => ?_) fun z _ => rfl).symm
  · refine mem_agreeing.mpr fun w hw => ?_
    by_cases hwv : w = v
    · subst hwv
      simp
    · simp [hwv, mem_agreeing.mp hz w hw]
  · refine mem_agreeing.mpr fun w hw => ?_
    by_cases hwv : w = v
    · subst hwv
      simp
    · simpa [hwv] using mem_agreeing.mp hz w hw
  · have hzv := mem_agreeing.mp hz v hv
    simp [← hzv]
  · have hzv := mem_agreeing.mp hz v hv
    simp only [Function.update_self] at hzv
    simp [← hzv]

variable (label : V → Nat) (read : ∀ v, Value → Ω v)

/-- The nodes that some variables name. -/
def named (vars : List Nat) : Finset V := univ.filter fun v => label v ∈ vars

/-- The environment with the concrete interventions bound; a symbolic level is the environment's. -/
def bindLevels (intervention : List InterventionAssignment) (x : ∀ v, Ω v) : ∀ v, Ω v := fun v =>
  match intervention.find? fun a => a.var = label v ∧ ¬ isSymbolic a with
  | some a => read v a.value
  | none => x v

variable {G : MixedGraph V} (M : Model G Ω)

/-- What a provider of the observational law of `M` answers for a leaf. -/
noncomputable def observed (leaf : Leaf) (x : ∀ v, Ω v) : ℝ :=
  M.kernel (named label leaf.vars) ∅ (named label leaf.conditionedOn)
    (bindLevels label read leaf.intervention x)

/-- `eval_expectation` (`eval.rs:385-439`) with nothing bound: the sum over the free variables and
the outcome of the outcome times the density. -/
noncomputable def Expectation.eval (value : Nat → (∀ v, Ω v) → ℝ) (e : Expectation)
    (x : ∀ v, Ω v) : ℝ :=
  marg (named label (e.distribution.freeVariables ++ [e.function]))
    (fun z => value e.function z * e.distribution.eval (named label) (observed label read M) z) x

noncomputable def Contrast.eval (value : Nat → (∀ v, Ω v) → ℝ) (c : Contrast) (x : ∀ v, Ω v) : ℝ :=
  c.left.eval label read M value x - c.right.eval label read M value x

/-- The mean of the outcome under `do(t)` at a level. -/
noncomputable def interventionalMean (value : Nat → (∀ v, Ω v) → ℝ) (t y : V) (level : Value)
    (x : ∀ v, Ω v) : ℝ :=
  marg {y} (fun z => value (label y) z *
    M.kernel {y} {t} ∅ (Function.update z t (read t level))) x

variable {label read M} {t y : V} {Ms : Finset V} {mediators : List Nat} {level : Value}

omit [∀ v, DecidableEq (Ω v)] [∀ v, Fintype (Ω v)] [Fintype V] [DecidableEq V] in
theorem bindLevels_nil (x : ∀ v, Ω v) : bindLevels label read [] x = x := rfl

omit [∀ v, DecidableEq (Ω v)] [∀ v, Fintype (Ω v)] [Fintype V] in
theorem bindLevels_singleton (hinj : Function.Injective label) (hl : level ≠ symbolicIntervention)
    (x : ∀ v, Ω v) :
    bindLevels label read [⟨label t, level⟩] x = Function.update x t (read t level) := by
  have hconcrete : isSymbolic ⟨label t, level⟩ = false := by
    unfold isSymbolic
    exact decide_eq_false hl
  funext v
  unfold bindLevels
  by_cases hv : v = t
  · subst hv
    simp [hconcrete]
  · have hne : label t ≠ label v := fun e => hv (hinj e).symm
    simp [hne, hv]

omit [DecidableEq V] in
theorem named_eq [DecidableEq V] {vars : List Nat}
    (h : ∀ v, label v ∈ vars ↔ v ∈ S) : named label vars = S := by
  ext v
  unfold named
  rw [mem_filter_univ, h]

variable (hac : G.Acyclic) (hM : M.Positive) (hinj : Function.Injective label)
  (h : G.FrontDoor t y Ms) (hmed : ∀ v, label v ∈ mediators ↔ v ∈ Ms)

include hac hM hinj h hmed

/-- **The front-door functional is the interventional mean.** -/
theorem frontdoorPotentialOutcome_eval (hl : level ≠ symbolicIntervention)
    (value : Nat → (∀ v, Ω v) → ℝ) (x : ∀ v, Ω v) :
    (frontdoorPotentialOutcome (label t) (label y) mediators level).eval label read M value x =
      interventionalMean label read M value t y level x := by
  have htM : t ∉ Ms := fun hm => h.treatment_apart (mem_coe.mpr hm)
  have hyM : label y ∉ mediators := fun hm => h.outcome_apart (mem_coe.mpr ((hmed y).mp hm))
  have hty : label y ≠ label t := fun e => h.ne (hinj e).symm
  have hone : ∀ w v : V, label v ∈ [label w] ↔ v ∈ ({w} : Finset V) := fun w v => by
    rw [List.mem_singleton, mem_singleton]
    exact hinj.eq_iff
  have hfree : named label ((frontdoorPotentialOutcome (label t) (label y) mediators
      level).distribution.freeVariables ++ [label y]) = {y} := named_eq fun v => by
    rw [List.mem_append, mem_freeVariables_frontdoor hyM hty hl, hone, mem_singleton]
    exact or_iff_right_of_imp fun e => hinj e
  have hmeds : named label (sortDedup mediators) = Ms :=
    named_eq fun v => (mem_sortDedup ..).trans (hmed v)
  have ht : named label (sortDedup [label t]) = {t} :=
    named_eq fun v => (mem_sortDedup ..).trans (hone t v)
  have hy : named label (sortDedup [label y]) = {y} :=
    named_eq fun v => (mem_sortDedup ..).trans (hone y v)
  have hboth : named label (sortDedup (mediators ++ [label t])) = Ms ∪ {t} := named_eq fun v => by
    rw [mem_sortDedup, List.mem_append, hmed, hone, mem_union]
  have hnone : named label (sortDedup []) = ∅ := named_eq fun v => by simp [mem_sortDedup]
  have hdens : ∀ z, (frontdoorPotentialOutcome (label t) (label y) mediators
      level).distribution.eval (named label) (observed label read M) z =
      M.kernel {y} {t} ∅ (Function.update z t (read t level)) := fun z => by
    rw [Model.frontDoor_kernel hac hM h, marg_update htM]
    simp only [frontdoorPotentialOutcome, distribution, ExprTree.eval, ExprTree.evalList, observed,
      hmeds, ht, hy, hboth, hnone, bindLevels_nil, bindLevels_singleton hinj hl, mul_one]
    refine congrFun (congrArg _ (funext fun w => ?_)) z
    -- the sum over the treatment does not look at its level
    have hdep := dependsOn_marg (S := {t}) (dependsOn_univ fun z =>
      M.kernel {y} ∅ (Ms ∪ {t}) z * M.kernel {t} ∅ ∅ z)
    rw [hdep (x := w) (y := Function.update w t (read t level)) fun v hv => ?_]
    exact (Function.update_of_ne (fun e => hv.2 (by simp [e])) _ _).symm
  unfold Expectation.eval interventionalMean
  rw [show (frontdoorPotentialOutcome (label t) (label y) mediators level).function = label y from
    rfl, hfree]
  exact congrFun (congrArg _ (funext fun z => by rw [hdens])) x

/-- **The front-door contrast is the difference of the means.** -/
theorem frontdoorAte_eval {active control : Value} (ha : active ≠ symbolicIntervention)
    (hc : control ≠ symbolicIntervention) (value : Nat → (∀ v, Ω v) → ℝ) (x : ∀ v, Ω v) :
    (frontdoorAte (label t) (label y) mediators active control).eval label read M value x =
      interventionalMean label read M value t y active x -
        interventionalMean label read M value t y control x := by
  unfold Contrast.eval frontdoorAte
  rw [frontdoorPotentialOutcome_eval hac hM hinj h hmed ha,
    frontdoorPotentialOutcome_eval hac hM hinj h hmed hc]

end Eval

end Antecedent.Expr
