import Antecedent.Identify.FirstSet
import Antecedent.Identify.TransportFactorization

/-!
# The standardizer rules

What a standardised source response denotes: the target's response, when the standardizers are roots
that hold every differing mechanism among the outcomes' ancestors, and when they separate the
outcomes from the selection nodes and lie outside the reach of the treatments.

* **`value_safe`**, **`value_found`**: the two rules.
-/

namespace Antecedent.Identify

open Graph
open Mixed
open Prob
open Finset

/-! ## The selection diagram inside the copy -/

/-- The nodes of the selection diagram among those of the copy. -/
def copyNode {n : Nat} {S : Finset (Fin n)} (targets : List Nat) : Fin n ⊕ S → Nat
  | .inl i => i
  | .inr s => n + targets.idxOf s.1.val

section Copy

variable {graph : Admg} {targets : List Nat} {x : Finset Nat} {sel : MutilatedSelection}
  {S D Y Z : Finset (Fin graph.nodeCount)}

theorem copyNode_injective (hS : ∀ i ∈ S, i.val ∈ targets) :
    Function.Injective (copyNode (S := S) targets) := by
  rintro (i | s) (j | t) h
  · exact congrArg _ (Fin.ext h)
  · exact absurd h (Nat.ne_of_lt (Nat.lt_add_right _ i.isLt))
  · exact absurd h.symm (Nat.ne_of_lt (Nat.lt_add_right _ j.isLt))
  · have hidx : targets.idxOf s.1.val = targets.idxOf t.1.val := Nat.add_left_cancel h
    exact congrArg _ (Subtype.ext (Fin.ext ((List.idxOf_inj (hS _ s.2)).mp hidx)))

theorem aimed_copyNode (hS : ∀ i ∈ S, i.val ∈ targets) (s : S) (hx : s.1.val ∉ x) :
    Aimed graph.nodeCount (range graph.nodeCount) x targets.zipIdx
      (copyNode (S := S) targets (.inr s)) s.1.val := by
  refine ⟨(s.1.val, targets.idxOf s.1.val), ?_, mem_range.mpr s.1.isLt, hx, rfl, rfl⟩
  rw [List.mk_mem_zipIdx_iff_getElem?]
  exact List.getElem?_idxOf (hS _ s.2)

/-- **The search's test is separation from the selection nodes in the selection diagram.** -/
theorem Built.separated (h : Built graph (range graph.nodeCount) x targets sel)
    {outcomes conditions : List Nat} (hS : ∀ i ∈ S, i.val ∈ targets)
    (hD : ∀ i : Fin graph.nodeCount, i ∈ D ↔ i.val ∈ x)
    (hY : ∀ i ∈ Y, i.val ∈ outcomes)
    (hconditions : ∀ a, a ∈ conditions ↔ ∃ i ∈ D ∪ Z, i.val = a)
    (houtcomes : ∀ y ∈ outcomes, y < graph.nodeCount ∧ y ∉ conditions)
    (hsep : sel.separates outcomes conditions = .ok true) :
    ((withSelection (onNodes graph) S).mutilate
        (D.disjSum ∅ : Finset (Fin graph.nodeCount ⊕ S)) ∅).MSeparated
      ((∅ : Finset (Fin graph.nodeCount)).disjSum (univ.filter fun t : S => t.1 ∉ D) :
        Finset (Fin graph.nodeCount ⊕ S))
      (Y.disjSum ∅ : Finset (Fin graph.nodeCount ⊕ S))
      ((D ∪ Z).disjSum ∅ : Finset (Fin graph.nodeCount ⊕ S)) := by
  have hcond : ∀ a ∈ conditions, a < graph.nodeCount := fun a ha => by
    obtain ⟨i, -, rfl⟩ := (hconditions a).mp ha
    exact i.isLt
  have hall := (h.separates_iff hcond houtcomes).mp hsep
  have hYC : ∀ i ∈ Y, i ∉ D ∪ Z := fun i hi hc =>
    (houtcomes i (hY i hi)).2 ((hconditions i).mpr ⟨i, hc, rfl⟩)
  have himage : copyNode (S := S) targets '' ((D ∪ Z).disjSum ∅ : Finset (Fin graph.nodeCount ⊕ S)) =
      {a | a ∈ conditions} := by
    ext a
    rw [Set.mem_ofPred_eq, hconditions]
    constructor
    · rintro ⟨i | s, hi, rfl⟩
      · exact ⟨i, inl_mem_disjSum.mp hi, rfl⟩
      · exact absurd (inr_mem_disjSum.mp hi) (notMem_empty s)
    · rintro ⟨i, hi, rfl⟩
      exact ⟨.inl i, inl_mem_disjSum.mpr hi, rfl⟩
  rw [MixedGraph.mSeparated_iff_pairs]
  rotate_left
  · rintro (i | s) hi hc
    · exact notMem_empty i (inl_mem_disjSum.mp hi)
    · exact notMem_empty s (inr_mem_disjSum.mp hc)
  · rintro (i | s) hi hc
    · exact hYC i (inl_mem_disjSum.mp hi) (inl_mem_disjSum.mp hc)
    · exact notMem_empty s (inr_mem_disjSum.mp hc)
  rintro (i | s) hs (y | t) hy
  · exact absurd (inl_mem_disjSum.mp hs) (notMem_empty i)
  · exact absurd (inr_mem_disjSum.mp hy) (notMem_empty t)
  · have hsD : s.1 ∉ D := (mem_filter.mp (inr_mem_disjSum.mp hs)).2
    have haimed := aimed_copyNode hS s fun hx => hsD ((hD s.1).mpr hx)
    have key := hall _ ((h.selectionNodes _).mpr ⟨_, haimed⟩) _ (hY y (inl_mem_disjSum.mp hy))
    rw [← himage] at key
    have hcomap := MixedGraph.MSeparated.comap (copyNode_injective hS)
      (X := {.inr s}) (Y := {.inl y})
      (C := ((D ∪ Z).disjSum ∅ : Finset (Fin graph.nodeCount ⊕ S)))
      (by rw [Set.image_singleton, Set.image_singleton]; exact key)
    refine hcomap.mono_graph (fun a b hab => ?_) fun a b hab => ?_
    · obtain ⟨hdir, hbD, -⟩ := hab
      refine (h.dir _ _).mpr ?_
      match a, b with
      | .inl a, .inl b =>
        refine Or.inl ⟨hdir, mem_range.mpr a.isLt, mem_range.mpr b.isLt, fun hx => hbD ?_⟩
        exact inl_mem_disjSum.mpr ((hD b).mpr hx)
      | .inr t, .inl b =>
        obtain rfl : t.1 = b := hdir
        exact Or.inr (aimed_copyNode hS t fun hx => hbD (inl_mem_disjSum.mpr ((hD t.1).mpr hx)))
    · obtain ⟨hbi, haD, hbD⟩ := hab
      refine (h.bi _ _).mpr ?_
      match a, b with
      | .inl a, .inl b =>
        exact ⟨hbi, mem_range.mpr a.isLt, mem_range.mpr b.isLt,
          fun hx => haD (inl_mem_disjSum.mpr ((hD a).mpr hx)),
          fun hx => hbD (inl_mem_disjSum.mpr ((hD b).mpr hx))⟩
  · exact absurd (inr_mem_disjSum.mp hy) (notMem_empty t)

end Copy

namespace Structural

open Discovery (combinations mem_combinations)
open PreparedAdmg

section Rules

variable {p : PreparedAdmg} {d : SelectionDiagram} {q : TransportQuery}
  {outcomes treatments overVars : List Nat} {ancestors closure : Finset Nat}
  {Ω : Fin p.admg.nodeCount → Type} [∀ i, Fintype (Ω i)] [∀ i, DecidableEq (Ω i)]
  {S : Finset (Fin p.admg.nodeCount)} {P : TransportPair (onNodes p.admg) Ω S}

/-- **A standardised response is the target's** when the populations share the conditional response
and the treatments do not change the law of the standardizers. -/
theorem value_standardized (hne : q.sourcePopulation ≠ q.targetPopulation) (hP : P.Positive)
    (hout : ∀ v ∈ overVars, v ∉ outcomes ∧ v ∉ treatments)
    (hkernel : ∀ x, P.source.kernel (nodesOf p.admg outcomes.toFinset)
      (nodesOf p.admg treatments.toFinset) (nodesOf p.admg overVars.toFinset) x =
        P.target.kernel (nodesOf p.admg outcomes.toFinset) (nodesOf p.admg treatments.toFinset)
          (nodesOf p.admg overVars.toFinset) x)
    (hlaw : P.target.law (nodesOf p.admg treatments.toFinset) (nodesOf p.admg overVars.toFinset) =
      P.target.law ∅ (nodesOf p.admg overVars.toFinset)) :
    (standardized q outcomes treatments overVars).value P q =
      P.target.law (nodesOf p.admg treatments.toFinset) (nodesOf p.admg outcomes.toFinset) := by
  have hdis := disjoint_union_right.mpr
    ⟨disjoint_nodesOf (p := p) fun v hv => (hout v hv).1,
      disjoint_nodesOf (p := p) fun v hv => (hout v hv).2⟩
  rw [← TransportPair.standardize (onNodes_acyclic p.admg) hP hdis hkernel hlaw]
  show marg (nodesOf p.admg overVars.toFinset) (fun x => PopulationFactor.law P q _ x *
    PopulationFactor.law P q _ x) = _
  rw [law_source hne, law_target, List.toFinset_nil, nodesOf_empty]

/-- **The exogenous standardizers.** The selection targets among the outcomes' ancestors are roots
without bidirected edges, and no other mechanism of an ancestor differs. -/
theorem value_safe (hd : Distinct p.admg) (hne : q.sourcePopulation ≠ q.targetPopulation)
    (h : Ancestors p outcomes treatments ancestors closure) {targets : List Nat}
    (hS : S = nodesOf p.admg targets.toFinset) (hP : P.Positive)
    {treatmentNodes relevantNodes : List Nat}
    (hz : denseAll p (targets.filter (· ∈ ancestors)) = .ok relevantNodes)
    (hsafe : safeStandardizers p outcomes treatmentNodes (targets.filter (· ∈ ancestors))
      relevantNodes = true) :
    (standardized q outcomes treatments (targets.filter (· ∈ ancestors))).value P q =
      P.target.law (nodesOf p.admg treatments.toFinset) (nodesOf p.admg outcomes.toFinset) := by
  have hac := onNodes_acyclic p.admg
  simp only [safeStandardizers, Bool.and_eq_true, Bool.not_eq_true', List.any_eq_false,
    List.all_eq_true, decide_eq_true_eq, List.isEmpty_iff] at hsafe
  obtain ⟨hout, hroots⟩ := hsafe
  set Z := nodesOf p.admg (targets.filter (· ∈ ancestors)).toFinset with hZ
  have memZ : ∀ {i}, i ∈ Z ↔ i ∈ S ∧ i.val ∈ closure := fun {i} => by
    rw [hZ, hS, mem_nodesOf_list, mem_nodesOf_list, List.mem_filter, decide_eq_true_eq,
      h.mem_iff hd i.isLt]
  have root : ∀ z ∈ Z, p.admg.parents z = [] ∧ p.admg.bidirectedNeighbors z = [] := fun z hzZ => by
    have hmem := (mem_denseAll hd hz).mpr ⟨z.isLt, mem_nodesOf_list.mp (hZ ▸ hzZ)⟩
    exact ⟨(hroots z hmem).1.2, (hroots z hmem).2⟩
  have hparent : ∀ z ∈ Z, ∀ u, ¬ (onNodes p.admg).dir u z := fun z hzZ u hu => by
    have hmem : u.val ∈ p.admg.parents z := (p.admg.valid.mirrored u z).mpr hu
    rw [(root z hzZ).1] at hmem
    exact absurd hmem List.not_mem_nil
  have hbi : ∀ z ∈ Z, ∀ w, ¬ (onNodes p.admg).bi z w := fun z hzZ w hw => by
    have hmem : w.val ∈ p.admg.bidirectedNeighbors z := hw
    rw [(root z hzZ).2] at hmem
    exact absurd hmem List.not_mem_nil
  have hZE : Z ⊆ lift p.admg.nodeCount closure := fun z hzZ => mem_lift.mpr (memZ.mp hzZ).2
  have hover : ∀ v ∈ targets.filter (· ∈ ancestors), v ∉ outcomes ∧ v ∉ treatments := by
    intro v hv
    refine ⟨hout v hv, ?_⟩
    obtain ⟨i, hi, rfl⟩ : ∃ i ∈ closure, p.denseToVar i = v := by
      have hva := of_decide_eq_true (List.mem_filter.mp hv).2
      rwa [h.image, mem_image] at hva
    exact h.apart i hi
  refine value_standardized hne hP hover (fun x => ?_) ?_
  · refine TransportPair.kernel_eq_of_exogenous hac hP h.disjoint_treatments h.parentClosed
      h.outcomes_sub ?_ hZE (fun v hv hvS => memZ.mpr ⟨hvS, mem_lift.mp hv⟩) hparent hbi x
    exact (disjoint_nodesOf fun v hv => (hover v hv).1).symm
  · refine Model.law_unaffected hac (disjoint_nodesOf fun v hv => (hover v hv).2)
      (fun t ht u hu _ => absurd hu (hparent t ht u)) subset_rfl

/-! ## The search -/

/-- What the search finds passed its test. -/
theorem firstAdmissible_found {selection : MutilatedSelection} {outcomeNodes base : List Nat} :
    ∀ {budget : Nat} {subsets : List (List Nat)},
      firstAdmissible p selection outcomeNodes base budget subsets = .ok (.found overVars) →
      ∃ subset ∈ subsets, selection.separates outcomeNodes (base ++ subset) = .ok true ∧
        overVars = subset.map p.denseToVar
  | budget, [], h => by
    unfold firstAdmissible at h
    cases h
  | 0, _ :: _, h => by
    unfold firstAdmissible at h
    cases h
  | budget + 1, subset :: rest, h => by
    unfold firstAdmissible at h
    split at h
    · cases h
    · rename_i hsep
      cases h
      exact ⟨subset, List.mem_cons_self, hsep, rfl⟩
    · obtain ⟨s, hs, h⟩ := firstAdmissible_found h
      exact ⟨s, List.mem_cons_of_mem subset hs, h⟩

/-- **The searched standardizers.** They separate the outcomes from the selection nodes without the
edges into the treatments, and no treatment causes one. -/
theorem value_found (hd : Distinct p.admg) (hne : q.sourcePopulation ≠ q.targetPopulation)
    (ht : Kahn.Topological p.admg.children (range p.admg.nodeCount) p.topo)
    (hdis : ∀ y ∈ outcomes, y ∉ treatments)
    (hS : S = nodesOf p.admg d.selectionTargets.toFinset) (hP : P.Positive) {budget : Nat}
    (h : sAdmissibleStandardizers p d outcomes treatments budget = .ok (.found overVars)) :
    (standardized q outcomes treatments overVars).value P q =
      P.target.law (nodesOf p.admg treatments.toFinset) (nodesOf p.admg outcomes.toFinset) := by
  have hac := onNodes_acyclic p.admg
  obtain ⟨outcomeNodes, hy, h⟩ := bind_ok h
  obtain ⟨treatmentNodes, hx, h⟩ := bind_ok h
  obtain ⟨targets, hs, h⟩ := bind_ok h
  obtain ⟨selection, hb, h⟩ := bind_ok h
  obtain ⟨subset, hsub, hsep, rfl⟩ := firstAdmissible_found h
  have htopo : p.topo.toFinset = range p.admg.nodeCount := by
    ext i
    rw [List.mem_toFinset, ht.mem]
  rw [htopo] at hb
  have hfits : p.admg.nodeCount + targets.length ≤ u32Max := by
    by_contra hfit
    obtain ⟨e, he⟩ := build_error (v := range p.admg.nodeCount) (x := treatmentNodes.toFinset)
      (Nat.lt_of_not_le hfit)
    rw [he] at hb
    cases hb
  obtain ⟨sel, hb', hbuilt⟩ := build_ok (x := treatmentNodes.toFinset)
    (fun a ha => mem_range.mp ha) hfits
  obtain rfl := Except.ok.inj (hb.symm.trans hb')
  obtain ⟨k, -, hk⟩ := List.mem_flatMap.mp hsub
  have hcand : ∀ i ∈ subset, i < p.admg.nodeCount ∧ i ∉ outcomeNodes ∧
      i ∉ p.admg.descendantsOf treatmentNodes := fun i hi => by
    have hi := (mem_combinations.mp hk).1.subset hi
    rw [standardizerCandidates, List.mem_filter, List.mem_range, decide_eq_true_eq] at hi
    exact hi
  have hrange : ∀ t ∈ treatmentNodes, t < p.admg.nodeCount := fun t htn =>
    ((mem_denseAll hd hx).mp htn).1
  have hapart : ∀ i ∈ subset, i ∉ treatmentNodes := fun i hi hit =>
    (hcand i hi).2.2 ((mem_descendantsOf hrange).mpr ⟨i, hit, .refl⟩)
  have hmemZ : ∀ {i : Fin p.admg.nodeCount},
      i ∈ nodesOf p.admg (subset.map p.denseToVar).toFinset ↔ i.val ∈ subset := fun {i} => by
    rw [mem_nodesOf_list, List.mem_map]
    constructor
    · rintro ⟨j, hj, he⟩
      rwa [denseToVar_injective hd (hcand j hj).1 i.isLt he] at hj
    · exact fun hi => ⟨i, hi, rfl⟩
  have hover : ∀ v ∈ subset.map p.denseToVar, v ∉ outcomes ∧ v ∉ treatments := by
    intro v hv
    obtain ⟨i, hi, rfl⟩ := List.mem_map.mp hv
    exact ⟨fun hm => (hcand i hi).2.1 ((mem_denseAll hd hy).mpr ⟨(hcand i hi).1, hm⟩),
      fun hm => hapart i hi ((mem_denseAll hd hx).mpr ⟨(hcand i hi).1, hm⟩)⟩
  have hX : ∀ i : Fin p.admg.nodeCount,
      i ∈ nodesOf p.admg treatments.toFinset ↔ i.val ∈ treatmentNodes.toFinset := fun i => by
    rw [← lift_denseAll hd hx, mem_lift]
  refine value_standardized hne hP hover (fun x => ?_) ?_
  · refine TransportPair.kernel_eq_of_separated hac hP (disjoint_nodesOf hdis)
      (disjoint_nodesOf fun v hv => (hover v hv).1).symm
      (disjoint_nodesOf fun v hv => (hover v hv).2) ?_ x
    refine hbuilt.separated (fun i hi => ?_) hX (fun i hi => ?_) (fun a => ?_) (fun y hym => ?_) hsep
    · rw [hS, mem_nodesOf_list] at hi
      exact (mem_denseAll hd hs).mpr ⟨i.isLt, hi⟩
    · exact (mem_denseAll hd hy).mpr ⟨i.isLt, mem_nodesOf_list.mp hi⟩
    · rw [List.mem_append]
      constructor
      · rintro (ha | ha)
        · exact ⟨⟨a, hrange a ha⟩, mem_union_left _ ((hX _).mpr (List.mem_toFinset.mpr ha)), rfl⟩
        · exact ⟨⟨a, (hcand a ha).1⟩, mem_union_right _ (hmemZ.mpr ha), rfl⟩
      · rintro ⟨i, hi, rfl⟩
        rcases mem_union.mp hi with hi | hi
        · exact Or.inl (List.mem_toFinset.mp ((hX i).mp hi))
        · exact Or.inr (hmemZ.mp hi)
    · obtain ⟨hlt, hyv⟩ := (mem_denseAll hd hy).mp hym
      refine ⟨hlt, fun hc => ?_⟩
      rcases List.mem_append.mp hc with hc | hc
      · exact hdis _ hyv ((mem_denseAll hd hx).mp hc).2
      · exact (hcand y hc).2.1 hym
  · classical
    -- the standardizers' ancestors hold no treatment
    set E := univ.filter fun i : Fin p.admg.nodeCount =>
      ∃ z ∈ subset, p.admg.mixed.Anc i.val z with hE
    have memE : ∀ {i}, i ∈ E ↔ ∃ z ∈ subset, p.admg.mixed.Anc i.val z := fun {i} => mem_filter_univ i
    refine Model.law_unaffected hac (E := E) (disjoint_left.mpr fun i hi hix => ?_)
      (fun t htE u hu _ => ?_) fun i hi => memE.mpr ⟨i.val, hmemZ.mp hi, .refl⟩
    · obtain ⟨z, hz, hanc⟩ := memE.mp hi
      exact (hcand z hz).2.2 ((mem_descendantsOf hrange).mpr
        ⟨i.val, List.mem_toFinset.mp ((hX i).mp hix), hanc⟩)
    · obtain ⟨z, hz, hanc⟩ := memE.mp htE
      exact memE.mpr ⟨z, hz, .head hu hanc⟩

end Rules

end Structural

end Antecedent.Identify
