import Antecedent.Identify.TransportNodes

/-!
# The rules without standardizers

What the direct rule and the two factorisations of a graph without bidirected edges denote in a
pair of populations.

* `value_directResponse`: no differing mechanism is an ancestor of an outcome short of the
  treatments, so the source's response is the target's.
* **`targetGFormula_ok`**: the factors of the outcomes' ancestors, each given its parents, in the
  target.
* **`value_labelledFactorization`**: the factors of all nodes, each given its past, in the population
  whose mechanism it has.
-/

namespace Antecedent.Identify.Structural

open Graph
open Mixed
open Prob
open GeneralId (Sequence exists_sequence)
open Finset
open PreparedAdmg

section Labels

variable {p : PreparedAdmg}

abbrev label (p : PreparedAdmg) (i : Fin p.admg.nodeCount) : Nat := p.denseToVar i

@[simp] theorem nodesOf_empty {graph : Admg} : nodesOf graph ∅ = ∅ := by
  ext i
  simp [nodesOf]

variable (hd : Distinct p.admg) {i j : Fin p.admg.nodeCount}

include hd

theorem label_inj : p.denseToVar i = p.denseToVar j ↔ i = j :=
  ⟨fun h => Fin.ext (denseToVar_injective hd i.isLt j.isLt h), fun h => h ▸ rfl⟩

theorem nodesOf_single (i : Fin p.admg.nodeCount) :
    nodesOf p.admg [p.denseToVar i].toFinset = {i} := by
  ext j
  rw [mem_nodesOf_list, List.mem_singleton, label_inj hd, mem_singleton]

theorem nodesOf_labels (l : List (Fin p.admg.nodeCount)) :
    nodesOf p.admg (l.map (label p)).toFinset = l.toFinset := by
  ext j
  simp only [mem_nodesOf_list, List.mem_map, label_inj hd, exists_eq_right, List.mem_toFinset]

theorem mem_nodesOf_parents :
    j ∈ nodesOf p.admg ((p.admg.parents i).map p.denseToVar).toFinset ↔
      (onNodes p.admg).dir j i := by
  rw [mem_nodesOf_list, List.mem_map]
  constructor
  · rintro ⟨u, hu, he⟩
    have hdir := (p.admg.valid.mirrored u i).mp hu
    rwa [denseToVar_injective hd (p.admg.valid.in_range _ _ hdir).1 j.isLt he] at hdir
  · exact fun h => ⟨j, (p.admg.valid.mirrored j i).mpr h, rfl⟩

theorem parentFactor_ok (q : TransportQuery) (i : Fin p.admg.nodeCount) :
    parentFactor p q (p.denseToVar i) = .ok (responseFactor q.targetPopulation [p.denseToVar i]
      ((p.admg.parents i).map p.denseToVar) []) := by
  unfold parentFactor
  rw [varToDense_label hd i.isLt]
  rfl

end Labels

section Value

variable {p : PreparedAdmg} {q : TransportQuery} {Ω : Fin p.admg.nodeCount → Type}
  [∀ i, Fintype (Ω i)] [∀ i, DecidableEq (Ω i)] {S : Finset (Fin p.admg.nodeCount)}
  {P : TransportPair (onNodes p.admg) Ω S}

theorem law_target (vars given acts : List Nat) :
    (responseFactor q.targetPopulation vars given acts).law P q =
      P.target.kernel (nodesOf p.admg vars.toFinset) (nodesOf p.admg acts.toFinset)
        (nodesOf p.admg given.toFinset) := if_pos rfl

theorem law_source (hne : q.sourcePopulation ≠ q.targetPopulation) (vars given acts : List Nat) :
    (responseFactor q.sourcePopulation vars given acts).law P q =
      P.source.kernel (nodesOf p.admg vars.toFinset) (nodesOf p.admg acts.toFinset)
        (nodesOf p.admg given.toFinset) := (if_neg hne).trans (if_pos rfl)

variable {outcomes treatments : List Nat} {ancestors closure : Finset Nat}

/-- **The direct rule.** -/
theorem value_directResponse (hd : Distinct p.admg)
    (hne : q.sourcePopulation ≠ q.targetPopulation)
    (h : Ancestors p outcomes treatments ancestors closure)
    (hS : ∀ i ∈ S, p.denseToVar i ∉ ancestors) :
    (TransportFormula.direct (responseFactor q.sourcePopulation outcomes [] treatments)).value P q =
      P.target.law (nodesOf p.admg treatments.toFinset) (nodesOf p.admg outcomes.toFinset) := by
  have hac := onNodes_acyclic p.admg
  have hES : Disjoint (lift p.admg.nodeCount closure) S := disjoint_left.mpr fun i hi hs =>
    hS i hs ((h.mem_iff hd i.isLt).mpr (mem_lift.mp hi))
  rw [← TransportPair.law_eq hac h.disjoint_treatments h.parentClosed h.outcomes_sub hES]
  funext x
  show PopulationFactor.law P q _ x = _
  rw [law_source hne, List.toFinset_nil, nodesOf_empty, Model.kernel_unconditioned hac]

/-! ## The target factorisation -/

theorem ancestral_order (hd : Distinct p.admg)
    (ht : Kahn.Topological p.admg.children (range p.admg.nodeCount) p.topo)
    (h : Ancestors p outcomes treatments ancestors closure) :
    ∃ order, Sequence p closure order ∧ (topologicalVariables p).filter (· ∈ ancestors) =
      order.map (label p) := by
  obtain ⟨order, ho⟩ := exists_sequence ht closure
  refine ⟨order, ho, ?_⟩
  have hfilter : p.topo.filter ((fun v => decide (v ∈ ancestors)) ∘ p.denseToVar) =
      p.topo.filter (· ∈ closure) := List.filter_congr fun i hi =>
    decide_eq_decide.mpr (h.mem_iff hd (mem_range.mp ((ht.mem i).mp hi)))
  unfold topologicalVariables
  rw [List.filter_map, hfilter, ← ho.map, List.map_map]
  rfl

/-- **The target factorisation always answers, with the target's response** in a graph without
bidirected edges. -/
theorem targetGFormula_ok (d : SelectionDiagram) (hd : Distinct p.admg)
    (ht : Kahn.Topological p.admg.children (range p.admg.nodeCount) p.topo)
    (h : Ancestors p outcomes treatments ancestors closure) :
    ∃ formula certificate, targetGFormula p d q outcomes treatments ancestors =
        .ok (.transportable formula certificate) ∧
      ((∀ a b, ¬ p.admg.mixed.bi a b) → ∀ (Ω : Fin p.admg.nodeCount → Type) [∀ i, Fintype (Ω i)]
        [∀ i, DecidableEq (Ω i)] (S : Finset (Fin p.admg.nodeCount))
        (P : TransportPair (onNodes p.admg) Ω S), P.Positive → formula.value P q =
          P.target.law (nodesOf p.admg treatments.toFinset) (nodesOf p.admg outcomes.toFinset)) := by
  obtain ⟨order, ho, hvars⟩ := ancestral_order hd ht h
  have hmem : ∀ {i}, i ∈ order ↔ i.val ∈ closure := fun {i} => by
    rw [← List.mem_toFinset, ho.set, mem_lift]
  have hfree : (order.map (label p)).filter (· ∉ treatments) =
      order.map (label p) := List.filter_eq_self.mpr fun v hv => by
    obtain ⟨i, hi, rfl⟩ := List.mem_map.mp hv
    exact decide_eq_true (h.apart i (hmem.mp hi))
  set factor := fun i : Fin p.admg.nodeCount => responseFactor q.targetPopulation
    [p.denseToVar i] ((p.admg.parents i).map p.denseToVar) [] with hfactor
  have hmapM : (order.map (label p)).mapM (parentFactor p q) =
      .ok (order.map factor) := by
    clear hvars hmem hfree ho
    induction order with
    | nil => rfl
    | cons i order ih =>
      rw [List.map_cons, List.mapM_cons, ih, parentFactor_ok hd]
      rfl
  unfold targetGFormula
  simp only [hvars, hfree, hmapM]
  refine ⟨_, _, rfl, fun hbi Ω _ _ S P hP => ?_⟩
  have hac := onNodes_acyclic p.admg
  have hbi' : ∀ a b, ¬ (onNodes p.admg).bi a b := fun a b => hbi a b
  have hlaw : ∀ x, ((order.map factor).map fun f => f.law P q x).prod =
      P.target.q (lift p.admg.nodeCount closure) x := by
    intro x
    rw [← ho.set, Model.q_nodes hbi' ho.nodup, List.map_map]
    refine congrArg _ (List.map_congr_left fun i _ => ?_)
    show PopulationFactor.law P q _ x = _
    rw [hfactor, law_target, nodesOf_single hd, List.toFinset_nil, nodesOf_empty]
    exact Model.kernel_parents hac hP.1 (hbi' i) (fun j => mem_nodesOf_parents hd) x
  have hout : nodesOf p.admg ((order.map (label p)).filter fun v =>
      v ∉ outcomes ∧ v ∉ treatments).toFinset =
      lift p.admg.nodeCount closure \ nodesOf p.admg outcomes.toFinset := by
    ext i
    rw [mem_nodesOf_list, List.mem_filter, mem_sdiff, mem_lift, mem_nodesOf_list, ← hmem]
    simp only [List.mem_map, label_inj hd, exists_eq_right, decide_eq_true_eq]
    exact ⟨fun hi => ⟨hi.1, hi.2.1⟩, fun hi => ⟨hi.1, hi.2, h.apart i (hmem.mp hi.1)⟩⟩
  rw [Model.law_eq_marg hac h.disjoint_treatments h.parentClosed h.outcomes_sub]
  show marg (nodesOf p.admg _) (fun x => ((order.map factor).map fun f => f.law P q x).prod) = _
  rw [hout]
  exact congrArg _ (funext hlaw)

/-! ## The factorisation with population labels -/

variable (hd : Distinct p.admg) (hne : q.sourcePopulation ≠ q.targetPopulation)
  {d : SelectionDiagram}

include hd hne

theorem labelledFactors_prod (hbi : ∀ a b, ¬ (onNodes p.admg).bi a b)
    (hP : P.Positive) (hS : ∀ i, i ∉ S → P.source.q {i} = P.target.q {i})
    (hmay : ∀ i, d.mechanismMayDiffer (label p i) = true ↔ i ∈ S)
    {order : List (Fin p.admg.nodeCount)} (hn : order.Nodup)
    (ho : Model.Ordered (onNodes p.admg) order) (hall : ∀ i, i ∈ order) (x : ∀ i, Ω i) :
    ∀ (post pre : List (Fin p.admg.nodeCount)), order = pre ++ post →
      ((labelledFactors d q treatments (pre.map (label p)) (post.map (label p))).map
          fun f => f.law P q x).prod =
        ((post.filter fun i => label p i ∉ treatments).map fun i => P.target.q {i} x).prod := by
  intro post
  induction post with
  | nil => exact fun _ _ => rfl
  | cons i post ih =>
    intro pre he
    have hrest := ih (pre ++ [i]) (by rw [he, List.append_assoc, List.singleton_append])
    rw [List.map_append, List.map_singleton] at hrest
    rw [List.map_cons, labelledFactors, List.filter_cons]
    by_cases hi : label p i ∈ treatments
    · simpa [hi] using hrest
    have hipre : i ∉ pre.toFinset := fun hc =>
      List.disjoint_of_nodup_append (he ▸ hn) (List.mem_toFinset.mp hc) List.mem_cons_self
    -- the past of a node in the whole order holds its parents
    have hclosed : Model.ParentClosed (onNodes p.admg) ∅ pre.toFinset := fun t hts u hu _ =>
      ho.closed he t hts u (List.mem_toFinset.mpr (hall u)) hu
    have hpa : ∀ u, (onNodes p.admg).dir u i → u ∈ pre.toFinset := fun u hu =>
      List.mem_toFinset.mpr (ho pre i post he u (hall u) hu)
    have hnode : ∀ M : Model (onNodes p.admg) Ω, M.Positive →
        M.kernel {i} ∅ pre.toFinset x = M.q {i} x := fun M hM =>
      Model.kernel_node (onNodes_acyclic p.admg) hM hipre hclosed (fun t _ => hbi i t) subset_rfl
        hpa x
    have hlaw : (responseFactor (if d.mechanismMayDiffer (label p i) then q.targetPopulation
        else q.sourcePopulation) [label p i] (pre.map (label p)) []).law P q x =
          P.target.q {i} x := by
      by_cases hmd : d.mechanismMayDiffer (label p i) = true
      · rw [if_pos hmd, law_target, nodesOf_single hd, nodesOf_labels hd, List.toFinset_nil,
          nodesOf_empty, hnode _ hP.1]
      · rw [if_neg hmd, law_source hne, nodesOf_single hd, nodesOf_labels hd, List.toFinset_nil,
          nodesOf_empty, hnode _ hP.2, hS i fun hs => hmd ((hmay i).mpr hs)]
    simp only [hi, if_false, not_false_eq_true, decide_true, if_true, List.map_cons, List.prod_cons]
    rw [hlaw, hrest]

/-- **The factorisation with population labels denotes the target's response** in a graph without
bidirected edges. -/
theorem value_labelledFactorization (hbi : ∀ a b, ¬ p.admg.mixed.bi a b)
    (ht : Kahn.Topological p.admg.children (range p.admg.nodeCount) p.topo)
    (P : TransportPair (onNodes p.admg) Ω (nodesOf p.admg d.selectionTargets.toFinset))
    (hP : P.Positive) {formula : TransportFormula} {certificate : TransportCertificate}
    (h : labelledFactorization p d q outcomes treatments = .transportable formula certificate) :
    formula.value P q =
      P.target.law (nodesOf p.admg treatments.toFinset) (nodesOf p.admg outcomes.toFinset) := by
  obtain ⟨rfl, -⟩ := TransportIdentification.transportable.inj h
  obtain ⟨order, ho⟩ := exists_sequence ht (range p.admg.nodeCount)
  have hall : ∀ i, i ∈ order := fun i => by
    rw [← List.mem_toFinset, ho.set, mem_lift]
    exact mem_range.mpr i.isLt
  have hvars : topologicalVariables p = order.map (label p) := by
    have hfilter : p.topo.filter (· ∈ range p.admg.nodeCount) = p.topo :=
      List.filter_eq_self.mpr fun i hi => decide_eq_true ((ht.mem i).mp hi)
    unfold topologicalVariables
    rw [← hfilter, ← ho.map, List.map_map]
    rfl
  have hbi' : ∀ a b, ¬ (onNodes p.admg).bi a b := fun a b => hbi a b
  have hS : ∀ i, i ∉ nodesOf p.admg d.selectionTargets.toFinset →
      P.source.q {i} = P.target.q {i} := fun i hi =>
    TransportPair.q_eq (disjoint_singleton_left.mpr hi)
  have hmay : ∀ i, d.mechanismMayDiffer (label p i) = true ↔
      i ∈ nodesOf p.admg d.selectionTargets.toFinset := fun i => by
    rw [mem_nodesOf_list]
    exact decide_eq_true_iff
  have hfree : (order.filter fun i => label p i ∉ treatments).toFinset =
      (nodesOf p.admg treatments.toFinset)ᶜ := by
    ext i
    simp [hall i, mem_nodesOf_list]
  have hout : nodesOf p.admg ((order.map (label p)).filter fun v =>
      v ∉ outcomes ∧ v ∉ treatments).toFinset =
      (nodesOf p.admg outcomes.toFinset ∪ nodesOf p.admg treatments.toFinset)ᶜ := by
    ext i
    rw [mem_nodesOf_list, List.mem_filter, mem_compl, mem_union, mem_nodesOf_list,
      mem_nodesOf_list, decide_eq_true_eq, not_or]
    exact and_iff_right (List.mem_map_of_mem (hall i))
  have hlaw : ∀ x, ((labelledFactors d q treatments [] (order.map (label p))).map
      fun f => f.law P q x).prod = P.target.q (nodesOf p.admg treatments.toFinset)ᶜ x := fun x => by
    rw [← hfree, Model.q_nodes hbi' (ho.nodup.filter _)]
    exact labelledFactors_prod hd hne hbi' hP hS hmay ho.nodup ho.ordered hall x order [] rfl
  show marg (nodesOf p.admg _) (fun x => ((labelledFactors d q treatments []
    (topologicalVariables p)).map fun f => f.law P q x).prod) = _
  rw [hvars, hout]
  exact congrArg _ (funext hlaw)

end Value

end Antecedent.Identify.Structural
