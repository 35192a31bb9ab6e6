import Antecedent.Identify.GeneralIdLaw
import Antecedent.Identify.TransportIdentifier
import Antecedent.Prob.Standardize

/-!
# What a transport formula says

The nodes of some variables, the law a factor names in a pair of populations, and what the
identifier's passes over the graph compute, as sets of nodes.

* `outcomeAncestors_spec`: the ancestors of the outcomes, short of the treatments, are closed under
  the parents that are no treatments.
-/

namespace Antecedent.Identify.Structural

open Core (mapM_ok mapM_ok_mem)
open Graph
open Mixed
open Prob
open Finset
open PreparedAdmg

def nodesOf (graph : Admg) (vars : Finset Nat) : Finset (Fin graph.nodeCount) :=
  univ.filter fun i => ∃ v ∈ vars, nodeVariableId graph.nodes i = some v

section Value

variable {graph : Admg} {Ω : Fin graph.nodeCount → Type} [∀ i, Fintype (Ω i)]
  [∀ i, DecidableEq (Ω i)] {S : Finset (Fin graph.nodeCount)}

/-- The conditional law a factor names, read in its own population and under its own interventions.
A factor of any other population names nothing. -/
noncomputable def PopulationFactor.law (P : TransportPair (onNodes graph) Ω S) (q : TransportQuery)
    (f : PopulationFactor) : (∀ i, Ω i) → ℝ :=
  let Y := nodesOf graph f.vars.toFinset
  let D := nodesOf graph f.interventions.toFinset
  let Z := nodesOf graph f.conditionedOn.toFinset
  if f.population = q.targetPopulation then P.target.kernel Y D Z
  else if f.population = q.sourcePopulation then P.source.kernel Y D Z
  else 0

/-- The quantity a formula denotes: its factors multiplied, and some variables summed out. -/
noncomputable def TransportFormula.value (P : TransportPair (onNodes graph) Ω S)
    (q : TransportQuery) : TransportFormula → (∀ i, Ω i) → ℝ
  | direct factor => factor.law P q
  | standardize overVars sourceResponse targetLaw =>
    marg (nodesOf graph overVars.toFinset) fun x => sourceResponse.law P q x * targetLaw.law P q x
  | recursiveFactorization sumOut factors =>
    marg (nodesOf graph sumOut.toFinset) fun x => (factors.map fun f => f.law P q x).prod

variable {P : TransportPair (onNodes graph) Ω S} {q : TransportQuery}

theorem law_bindFactor (c : SuppliedCatalog) (f : PopulationFactor) :
    (bindFactor q c f).law P q = f.law P q := by
  unfold bindFactor
  cases boundRegime q c f <;> rfl

/-- **Binding a catalog does not change what a formula denotes.** -/
theorem value_bindFactor (c : SuppliedCatalog) (formula : TransportFormula) :
    (formula.map (bindFactor q c)).value P q = formula.value P q := by
  cases formula with
  | direct factor => exact law_bindFactor c factor
  | standardize overVars sourceResponse targetLaw =>
    simp only [TransportFormula.map, TransportFormula.value, law_bindFactor]
  | recursiveFactorization sumOut factors =>
    simp only [TransportFormula.map, TransportFormula.value, List.map_map, Function.comp_def,
      law_bindFactor]

end Value

/-! ## Variables and their nodes -/

variable {p : PreparedAdmg} {vars : List Nat} {nodes : List Nat} {i : Fin p.admg.nodeCount}

theorem mem_nodesOf {s : Finset Nat} :
    i ∈ nodesOf p.admg s ↔ p.denseToVar i ∈ s := by
  unfold nodesOf
  rw [mem_filter_univ, nodeVariableId_label i.isLt]
  simp

theorem mem_nodesOf_list :
    i ∈ nodesOf p.admg vars.toFinset ↔ p.denseToVar i ∈ vars := by
  rw [mem_nodesOf, List.mem_toFinset]

theorem disjoint_nodesOf {s t : List Nat} (h : ∀ v ∈ s, v ∉ t) :
    Disjoint (nodesOf p.admg s.toFinset) (nodesOf p.admg t.toFinset) :=
  disjoint_left.mpr fun _ hs ht => h _ (mem_nodesOf_list.mp hs) (mem_nodesOf_list.mp ht)

theorem denseAll_known (h : ∀ v ∈ vars, ∃ i, p.varToDense v = .ok i) :
    ∃ nodes, denseAll p vars = .ok nodes := by
  unfold denseAll
  induction vars with
  | nil => exact ⟨[], rfl⟩
  | cons v vars ih =>
    obtain ⟨i, hi⟩ := h v List.mem_cons_self
    obtain ⟨nodes, hn⟩ := ih fun w hw => h w (List.mem_cons_of_mem v hw)
    exact ⟨i :: nodes, by rw [List.mapM_cons, hi, hn]; rfl⟩

variable (hd : Distinct p.admg) {i : Nat}

include hd

theorem varToDense_iff {v i : Nat} :
    p.varToDense v = .ok i ↔ i < p.admg.nodeCount ∧ p.denseToVar i = v := by
  constructor
  · exact varToDense_ok
  · rintro ⟨hi, rfl⟩
    exact varToDense_label hd hi

/-- **The positions of some variables are their nodes.** -/
theorem mem_denseAll (h : denseAll p vars = .ok nodes) :
    i ∈ nodes ↔ i < p.admg.nodeCount ∧ p.denseToVar i ∈ vars := by
  constructor
  · intro hi
    have hall := mapM_ok h
    clear h
    induction hall with
    | nil => exact absurd hi List.not_mem_nil
    | cons hv _ ih =>
      rcases List.mem_cons.mp hi with rfl | hi
      · obtain ⟨hlt, rfl⟩ := varToDense_ok hv
        exact ⟨hlt, List.mem_cons_self⟩
      · exact ⟨(ih hi).1, List.mem_cons_of_mem _ (ih hi).2⟩
  · rintro ⟨hlt, hi⟩
    obtain ⟨j, hj, hv⟩ := mapM_ok_mem h hi
    rw [varToDense_label hd hlt] at hv
    obtain rfl := Except.ok.inj hv
    exact hj

theorem lift_denseAll (h : denseAll p vars = .ok nodes) :
    lift p.admg.nodeCount nodes.toFinset = nodesOf p.admg vars.toFinset := by
  ext i
  rw [mem_lift, mem_nodesOf_list, List.mem_toFinset, mem_denseAll hd h, and_iff_right i.isLt]

theorem mem_activeNodes {treatments : List Nat} :
    i ∈ activeNodes p treatments ↔ i < p.admg.nodeCount ∧ p.denseToVar i ∉ treatments := by
  unfold activeNodes
  rw [mem_filter, mem_range]
  refine and_congr_right fun hi => ?_
  constructor
  · intro h ht
    exact h _ ht (by rw [varToDense_label hd hi]; rfl)
  · intro h t ht he
    cases hv : p.varToDense t with
    | error e =>
      rw [hv] at he
      cases he
    | ok j =>
      rw [hv] at he
      obtain rfl := Option.some.inj he
      exact h ((varToDense_ok hv).2 ▸ ht)

/-- What the ancestors of the outcomes are, short of the treatments. -/
structure Ancestors (p : PreparedAdmg) (outcomes treatments : List Nat) (ancestors : Finset Nat)
    (closure : Finset Nat) : Prop where
  image : ancestors = closure.image p.denseToVar
  range : ∀ i ∈ closure, i < p.admg.nodeCount
  apart : ∀ i ∈ closure, p.denseToVar i ∉ treatments
  closed : ∀ i ∈ closure, ∀ u, p.admg.mixed.dir u i → p.denseToVar u ∉ treatments → u ∈ closure
  outcomes : ∀ i < p.admg.nodeCount, p.denseToVar i ∈ outcomes → i ∈ closure

theorem outcomeAncestors_spec {outcomes treatments : List Nat} {ancestors : Finset Nat}
    (hdis : ∀ y ∈ outcomes, y ∉ treatments)
    (h : outcomeAncestors p outcomes treatments = .ok ancestors) :
    ∃ closure, Ancestors p outcomes treatments ancestors closure := by
  obtain ⟨seeds, hs, h⟩ := bind_ok h
  refine ⟨p.admg.ancestorsWithin seeds.toFinset (activeNodes p treatments) ∅,
    (Except.ok.inj h).symm, fun i hi => ?_, fun i hi => ?_, fun i hi u hu hut => ?_,
    fun i hi hy => ?_⟩
  · exact ((mem_activeNodes hd).mp (Admg.ancestorsWithin_subset hi)).1
  · exact ((mem_activeNodes hd).mp (Admg.ancestorsWithin_subset hi)).2
  · exact Admg.parent_mem_ancestorsWithin hi hu (notMem_empty _)
      ((mem_activeNodes hd).mpr ⟨(p.admg.valid.in_range _ _ hu).1, hut⟩)
  · refine Admg.seed_mem_ancestorsWithin ?_ ((mem_activeNodes hd).mpr ⟨hi, hdis _ hy⟩) hi
    rw [List.mem_toFinset, mem_denseAll hd hs]
    exact ⟨hi, List.mem_filter.mpr ⟨hy, decide_eq_true (hdis _ hy)⟩⟩

namespace Ancestors

variable {outcomes treatments : List Nat} {ancestors closure : Finset Nat}
  (h : Ancestors p outcomes treatments ancestors closure)

include h

theorem mem_iff (hi : i < p.admg.nodeCount) :
    p.denseToVar i ∈ ancestors ↔ i ∈ closure := by
  rw [h.image, mem_image]
  constructor
  · rintro ⟨j, hj, hji⟩
    rwa [denseToVar_injective hd (h.range j hj) hi hji] at hj
  · exact fun hi => ⟨i, hi, rfl⟩

omit hd in
theorem disjoint_treatments :
    Disjoint (lift p.admg.nodeCount closure) (nodesOf p.admg treatments.toFinset) :=
  disjoint_left.mpr fun _ hi ht => h.apart _ (mem_lift.mp hi) (mem_nodesOf_list.mp ht)

omit hd in
theorem parentClosed : Model.ParentClosed (onNodes p.admg) (nodesOf p.admg treatments.toFinset)
    (lift p.admg.nodeCount closure) := fun _ ht u hu hut =>
  mem_lift.mpr (h.closed _ (mem_lift.mp ht) u.val hu fun hm => hut (mem_nodesOf_list.mpr hm))

omit hd in
theorem outcomes_sub :
    nodesOf p.admg outcomes.toFinset ⊆ lift p.admg.nodeCount closure := fun i hi =>
  mem_lift.mpr (h.outcomes i i.isLt (mem_nodesOf_list.mp hi))

end Ancestors

end Antecedent.Identify.Structural
