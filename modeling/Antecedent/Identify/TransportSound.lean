import Antecedent.Identify.TransportStandardize

/-!
# The structural transport identifier is sound, and complete without bidirected edges

Every formula the identifier returns denotes the target's response. Without bidirected edges some
rule applies to every query it accepts, unless the copy of the graph with its selection nodes does
not fit in a `u32`; and a catalog is found wanting only when neither the structural formula nor the
target factorisation binds.

* `missing_eq_empty_iff`: the binding fails on a factor that no regime supplies.
* **`identify_exact`**: the identifier.
-/

namespace Antecedent.Identify.Structural

open Graph
open Machine
open Mixed
open Prob
open Discovery (combinations mem_combinations)
open Finset
open PreparedAdmg

/-! ## The variables of a response -/

/-- Every intervention of the response has a primary variable: none is a sequence over several. -/
def ResponseFunctional.Resolvable : ResponseFunctional → Prop
  | interventionResponse _ interventions => ∀ i ∈ interventions, i.primaryVariable ≠ none
  | _ => True

theorem validate_ok {q : TransportQuery} (h : q.validate = .ok ()) :
    q.response.validate = .ok () ∧ q.sourcePopulation ≠ q.targetPopulation := by
  obtain ⟨⟨⟩, hr, h⟩ := bind_ok h
  refine ⟨hr, fun he => ?_⟩
  rw [if_pos (Or.inr (Or.inr he))] at h
  cases h

theorem response_apart {q : ResponseQuery} (h : q.validate = .ok ()) :
    (∀ y ∈ q.functional.outcomeIds, y ∉ q.functional.treatmentIds) ∧
      (∀ o is, q.functional = .interventionResponse o is → is ≠ []) ∧
      ∀ o ts, q.functional = .directionalDerivative o ts ∨ q.functional = .jacobian o ts →
        ts ≠ [] := by
  obtain ⟨functional, others⟩ := q
  unfold ResponseQuery.validate at h
  cases others with
  | some message => cases h
  | none =>
    cases functional with
    | meanCurve o t | averageDerivative o t | pointDerivative o t =>
      simp only at h
      split_ifs at h with he
      simpa [ResponseFunctional.outcomeIds, ResponseFunctional.treatmentIds] using he
    | directionalDerivative os ts | jacobian os ts =>
      simp only at h
      split_ifs at h with he
      simp only [responseSetsAreDistinct, Bool.and_eq_true, Bool.not_eq_true', List.isEmpty_eq_false_iff,
        List.any_eq_false, decide_eq_true_eq] at he
      refine ⟨he.2, fun _ _ e => (nomatch e), fun o us e => ?_⟩
      rcases e with e | e <;> cases e
      exact he.1.2
    | interventionResponse o is =>
      simp only at h
      split_ifs at h with he hy
      refine ⟨fun y hyo hyt => hy ?_, fun _ _ e => ?_, fun _ _ e => by rcases e with e | e <;> cases e⟩
      · obtain rfl := List.mem_singleton.mp hyo
        rw [ResponseFunctional.treatmentIds, List.mem_eraseDups, List.mem_flatMap] at hyt
        obtain ⟨i, hi, hv⟩ := hyt
        exact List.any_eq_true.mpr ⟨i, hi, decide_eq_true hv⟩
      · cases e
        exact fun hn => he (List.isEmpty_iff.mpr hn)

theorem mem_primaries {is : List Intervention} (h : ∀ i ∈ is, i.primaryVariable ≠ none) {v : Nat} :
    v ∈ is.filterMap Intervention.primaryVariable ↔
      v ∈ (is.flatMap Intervention.targetVariables).eraseDups := by
  rw [List.mem_filterMap, List.mem_eraseDups, List.mem_flatMap]
  constructor
  · rintro ⟨i, hi, hv⟩
    exact ⟨i, hi, (i.eq_of_primary hv v).mpr rfl⟩
  · rintro ⟨i, hi, hv⟩
    obtain ⟨w, hw⟩ := Option.ne_none_iff_exists'.mp (h i hi)
    obtain rfl := (i.eq_of_primary hw v).mp hv
    exact ⟨i, hi, hw⟩

/-- **What the identifier reads off a resolvable response**: its outcomes, and every variable it
intervenes on. -/
theorem responseVariables_spec {q : TransportQuery} (hq : q.response.validate = .ok ())
    (hres : q.response.functional.Resolvable) :
    ∃ treatments, responseVariables q = .ok (q.response.functional.outcomeIds, treatments) ∧
      ∀ v, v ∈ treatments ↔ v ∈ q.response.functional.treatmentIds := by
  obtain ⟨-, his, hts⟩ := response_apart hq
  unfold responseVariables
  cases hf : q.response.functional with
  | meanCurve o t | averageDerivative o t | pointDerivative o t =>
    exact ⟨_, rfl, fun _ => Iff.rfl⟩
  | directionalDerivative os ts =>
    have hne := hts os ts (Or.inl hf)
    exact ⟨ts, if_neg (by simpa using hne), fun _ => Iff.rfl⟩
  | jacobian os ts =>
    have hne := hts os ts (Or.inr hf)
    exact ⟨ts, if_neg (by simpa using hne), fun _ => Iff.rfl⟩
  | interventionResponse o is =>
    rw [hf] at hres
    refine ⟨_, if_neg fun hempty => ?_, fun v => mem_primaries hres⟩
    obtain ⟨i, hi⟩ := List.exists_mem_of_ne_nil is (his o is hf)
    obtain ⟨w, hw⟩ := Option.ne_none_iff_exists'.mp (hres i hi)
    have hmem : w ∈ is.filterMap Intervention.primaryVariable := List.mem_filterMap.mpr ⟨i, hi, hw⟩
    rw [List.isEmpty_iff.mp hempty] at hmem
    exact absurd hmem List.not_mem_nil

/-! ## The rules -/

section Rules

variable {p : PreparedAdmg} {d : SelectionDiagram} {q : TransportQuery}
  {outcomes treatments : List Nat} {budget : Nat}

/-- **Every formula the rules return denotes the target's response.** -/
theorem identifyPrepared_sound (hd : Distinct p.admg)
    (ht : Kahn.Topological p.admg.children (range p.admg.nodeCount) p.topo)
    (hne : q.sourcePopulation ≠ q.targetPopulation) (hdis : ∀ y ∈ outcomes, y ∉ treatments)
    {formula : TransportFormula} {certificate : TransportCertificate}
    (h : identifyPrepared p d q outcomes treatments budget = .ok (.transportable formula certificate))
    (Ω : Fin p.admg.nodeCount → Type) [∀ i, Fintype (Ω i)] [∀ i, DecidableEq (Ω i)]
    (P : TransportPair (onNodes p.admg) Ω (nodesOf p.admg d.selectionTargets.toFinset))
    (hP : P.Positive) :
    formula.value P q =
      P.target.law (nodesOf p.admg treatments.toFinset) (nodesOf p.admg outcomes.toFinset) := by
  obtain ⟨ancestors, hanc, h⟩ := bind_ok h
  obtain ⟨closure, hcl⟩ := outcomeAncestors_spec hd hdis hanc
  simp only at h
  by_cases hcover : sourceExperimentsCover q treatments = true
  · rw [if_pos hcover] at h
    split_ifs at h with hrel
    · obtain ⟨rfl, -⟩ := TransportIdentification.transportable.inj (Except.ok.inj h)
      refine value_directResponse hd hne hcl fun i hi hia => ?_
      have hmem : p.denseToVar i ∈ d.selectionTargets.filter (· ∈ ancestors) :=
        List.mem_filter.mpr ⟨mem_nodesOf_list.mp hi, decide_eq_true hia⟩
      rw [List.isEmpty_iff.mp hrel] at hmem
      exact absurd hmem List.not_mem_nil
    · obtain ⟨treatmentNodes, hx, h⟩ := bind_ok h
      obtain ⟨relevantNodes, hz, h⟩ := bind_ok h
      by_cases hsafe : safeStandardizers p outcomes treatmentNodes
          (d.selectionTargets.filter (· ∈ ancestors)) relevantNodes = true
      · rw [if_pos hsafe] at h
        obtain ⟨rfl, -⟩ := TransportIdentification.transportable.inj (Except.ok.inj h)
        exact value_safe hd hne hcl rfl hP hz hsafe
      · rw [if_neg hsafe] at h
        obtain ⟨search, hs, h⟩ := bind_ok h
        have h := Except.ok.inj h
        have labelled : (if p.admg.districtCount = p.admg.nodeCount then
            labelledFactorization p d q outcomes treatments
            else uncertified (d.selectionTargets.filter (· ∈ ancestors)) search) =
              .transportable formula certificate → formula.value P q = P.target.law
                (nodesOf p.admg treatments.toFinset) (nodesOf p.admg outcomes.toFinset) := by
          intro h
          split_ifs at h with hcount
          · exact value_labelledFactorization hd hne ((Admg.districtCount_eq_iff _).mp hcount) ht P
              hP h
          · cases search <;> cases h
        cases search with
        | found overVars =>
          obtain ⟨rfl, -⟩ := TransportIdentification.transportable.inj h
          exact value_found hd hne ht hdis rfl hP hs
        | notFound => exact labelled h
        | capped => exact labelled h
  · rw [if_neg hcover] at h
    split_ifs at h with hcount
    · obtain ⟨formula', certificate', hok, hvalue⟩ := targetGFormula_ok (q := q) d hd ht hcl
      rw [hok] at h
      obtain ⟨rfl, -⟩ := TransportIdentification.transportable.inj (Except.ok.inj h)
      exact hvalue ((Admg.districtCount_eq_iff _).mp hcount) Ω _ P hP
    · cases h

/-- The variables name nodes. -/
def Known (p : PreparedAdmg) (vars : List Nat) : Prop := ∀ v ∈ vars, ∃ i, p.varToDense v = .ok i

theorem Known.filter {vars : List Nat} (h : Known p vars) (f : Nat → Bool) :
    Known p (vars.filter f) := fun v hv => h v (List.mem_of_mem_filter hv)

theorem outcomeAncestors_ok (hy : Known p outcomes) :
    ∃ ancestors, outcomeAncestors p outcomes treatments = .ok ancestors := by
  obtain ⟨seeds, hs⟩ := denseAll_known (hy.filter (· ∉ treatments))
  unfold outcomeAncestors
  rw [hs]
  exact ⟨_, rfl⟩

theorem firstAdmissible_ok {x : Finset Nat} {v : Finset Nat} {targets : List Nat}
    {sel : MutilatedSelection} (h : Built p.admg v x targets sel) {outcomeNodes base : List Nat}
    (hbase : ∀ a ∈ base, a < p.admg.nodeCount)
    (hout : ∀ y ∈ outcomeNodes, y < p.admg.nodeCount ∧ y ∉ base) :
    ∀ {budget : Nat} {subsets : List (List Nat)},
      (∀ s ∈ subsets, ∀ a ∈ s, a < p.admg.nodeCount ∧ a ∉ outcomeNodes) →
      ∃ r, firstAdmissible p sel outcomeNodes base budget subsets = .ok r
  | budget, [], _ => ⟨.notFound, by unfold firstAdmissible; rfl⟩
  | 0, _ :: _, _ => ⟨.capped, by unfold firstAdmissible; rfl⟩
  | budget + 1, subset :: rest, hsub => by
    have hsubset := hsub subset List.mem_cons_self
    have hq : SetQuery sel.graph.nodeCount sel.selectionNodes outcomeNodes (base ++ subset) :=
      h.setQuery (fun a ha => (List.mem_append.mp ha).elim (hbase a) fun ha => (hsubset a ha).1)
      fun y hy => ⟨(hout y hy).1, fun hc => (List.mem_append.mp hc).elim (hout y hy).2
        fun ha => (hsubset y ha).2 hy⟩
    have hsep : sel.separates outcomeNodes (base ++ subset) = .ok _ := Admg.isMSeparatedSets_eq hq
    unfold firstAdmissible
    rw [hsep]
    split
    · rename_i he
      cases he
    · exact ⟨_, rfl⟩
    · exact firstAdmissible_ok h hbase hout fun s hs => hsub s (List.mem_cons_of_mem subset hs)

theorem sAdmissibleStandardizers_ok (hd : Distinct p.admg)
    (ht : Kahn.Topological p.admg.children (range p.admg.nodeCount) p.topo)
    (hy : Known p outcomes) (hx : Known p treatments) (hs : Known p d.selectionTargets)
    (hdis : ∀ y ∈ outcomes, y ∉ treatments)
    (hfit : p.admg.nodeCount + d.selectionTargets.length ≤ u32Max) :
    ∃ search, sAdmissibleStandardizers p d outcomes treatments budget = .ok search := by
  obtain ⟨outcomeNodes, hyn⟩ := denseAll_known hy
  obtain ⟨treatmentNodes, hxn⟩ := denseAll_known hx
  obtain ⟨targets, hsn⟩ := denseAll_known hs
  have hlen : targets.length = d.selectionTargets.length := (Core.mapM_ok hsn).length_eq.symm
  have hrange : ∀ a ∈ p.topo.toFinset, a < p.admg.nodeCount := fun a ha =>
    mem_range.mp ((ht.mem a).mp (List.mem_toFinset.mp ha))
  obtain ⟨sel, hb, hbuilt⟩ : ∃ sel, MutilatedSelection.build p.admg p.topo.toFinset
      treatmentNodes.toFinset targets = .ok sel ∧
        Built p.admg p.topo.toFinset treatmentNodes.toFinset targets sel :=
    build_ok hrange (hlen ▸ hfit)
  have hin : ∀ {i}, i ∈ outcomeNodes ↔ i < p.admg.nodeCount ∧ p.denseToVar i ∈ outcomes := fun {i} =>
    mem_denseAll hd hyn
  have hfree : ∀ s ∈ (List.range ((standardizerCandidates p outcomeNodes treatmentNodes).length +
      1)).flatMap (combinations (standardizerCandidates p outcomeNodes treatmentNodes)),
      ∀ a ∈ s, a < p.admg.nodeCount ∧ a ∉ outcomeNodes := by
    intro s hsub a ha
    obtain ⟨k, -, hk⟩ := List.mem_flatMap.mp hsub
    have hmem := (mem_combinations.mp hk).1.subset ha
    rw [standardizerCandidates, List.mem_filter, List.mem_range, decide_eq_true_eq] at hmem
    exact ⟨hmem.1, hmem.2.1⟩
  obtain ⟨r, hr⟩ := @firstAdmissible_ok p _ _ _ sel hbuilt outcomeNodes treatmentNodes
    (fun a ha => ((mem_denseAll hd hxn).mp ha).1)
    (fun y hym => ⟨(hin.mp hym).1, fun hc =>
      hdis _ (hin.mp hym).2 ((mem_denseAll hd hxn).mp hc).2⟩) budget _ hfree
  refine ⟨r, ?_⟩
  unfold sAdmissibleStandardizers
  rw [hyn, hxn, hsn]
  show (MutilatedSelection.build _ _ _ _ >>= _) = _
  rw [hb]
  exact hr

theorem sAdmissibleStandardizers_refuses (hy : Known p outcomes) (hx : Known p treatments)
    (hs : Known p d.selectionTargets)
    (hfit : u32Max < p.admg.nodeCount + d.selectionTargets.length) :
    ∃ e, sAdmissibleStandardizers p d outcomes treatments budget = .error e := by
  obtain ⟨outcomeNodes, hyn⟩ := denseAll_known hy
  obtain ⟨treatmentNodes, hxn⟩ := denseAll_known hx
  obtain ⟨targets, hsn⟩ := denseAll_known hs
  have hlen : targets.length = d.selectionTargets.length := (Core.mapM_ok hsn).length_eq.symm
  obtain ⟨e, he⟩ : ∃ e, MutilatedSelection.build p.admg p.topo.toFinset
      treatmentNodes.toFinset targets = .error e := build_error (hlen ▸ hfit)
  refine bind_refuses hyn (bind_refuses hxn (bind_refuses hsn ⟨e, ?_⟩))
  rw [he]
  rfl

/-- **The rules refuse a graph that is too large** when a mechanism of an outcome may differ: every
rule before the search is out. -/
theorem identifyPrepared_refuses (hd : Distinct p.admg) (hdis : ∀ y ∈ outcomes, y ∉ treatments)
    (hy : Known p outcomes) (hx : Known p treatments) (hs : Known p d.selectionTargets)
    (hcover : sourceExperimentsCover q treatments = true) {y : Nat} (hyo : y ∈ outcomes)
    (hys : y ∈ d.selectionTargets)
    (hfit : u32Max < p.admg.nodeCount + d.selectionTargets.length) :
    ∃ e, identifyPrepared p d q outcomes treatments budget = .error e := by
  obtain ⟨ancestors, hanc⟩ : ∃ ancestors, outcomeAncestors p outcomes treatments = .ok ancestors :=
    outcomeAncestors_ok hy
  obtain ⟨closure, hcl⟩ := outcomeAncestors_spec hd hdis hanc
  obtain ⟨treatmentNodes, hxn⟩ := denseAll_known hx
  obtain ⟨relevantNodes, hzn⟩ := denseAll_known (hs.filter (· ∈ ancestors))
  have hrel : y ∈ d.selectionTargets.filter (· ∈ ancestors) := by
    obtain ⟨i, hi⟩ := hy y hyo
    obtain ⟨hlt, rfl⟩ := varToDense_ok hi
    exact List.mem_filter.mpr
      ⟨hys, decide_eq_true ((hcl.mem_iff hd hlt).mpr (hcl.outcomes i hlt hyo))⟩
  have hsafe : ¬ safeStandardizers p outcomes treatmentNodes
      (d.selectionTargets.filter (· ∈ ancestors)) relevantNodes = true := by
    rw [safeStandardizers, Bool.and_eq_true, Bool.not_eq_true', List.any_eq_false]
    exact fun h => h.1 y hrel (decide_eq_true hyo)
  obtain ⟨e, he⟩ : ∃ e, sAdmissibleStandardizers p d outcomes treatments budget = .error e :=
    sAdmissibleStandardizers_refuses hy hx hs hfit
  unfold identifyPrepared
  refine bind_refuses hanc ?_
  simp only
  rw [if_pos hcover, if_neg fun hn => by rw [List.isEmpty_iff.mp hn] at hrel; cases hrel]
  refine bind_refuses hxn (bind_refuses hzn ?_)
  rw [if_neg hsafe, he]
  exact ⟨e, rfl⟩

/-- A formula is returned. -/
def Answered (r : Except IdentificationError TransportIdentification) : Prop :=
  ∃ formula certificate, r = .ok (.transportable formula certificate)

variable (hbi : ∀ a b, ¬ p.admg.mixed.bi a b)

include hbi

theorem afterSearch_answered (relevant : List Nat) (search : StandardizerSearch) :
    Answered (.ok (afterSearch p d q outcomes treatments relevant search)) := by
  have hcount := (Admg.districtCount_eq_iff _).mpr hbi
  cases search with
  | found overVars => exact ⟨_, _, rfl⟩
  | notFound | capped =>
    show Answered (.ok (if p.admg.districtCount = p.admg.nodeCount then
      labelledFactorization p d q outcomes treatments else _))
    rw [if_pos hcount]
    exact ⟨_, _, rfl⟩

/-- **Without bidirected edges the rules return a formula when they return at all.** -/
theorem identifyPrepared_answered (hd : Distinct p.admg)
    (ht : Kahn.Topological p.admg.children (range p.admg.nodeCount) p.topo)
    (hdis : ∀ y ∈ outcomes, y ∉ treatments) {r : TransportIdentification}
    (h : identifyPrepared p d q outcomes treatments budget = .ok r) : Answered (.ok r) := by
  have hcount := (Admg.districtCount_eq_iff _).mpr hbi
  obtain ⟨ancestors, hanc, h⟩ := bind_ok h
  obtain ⟨closure, hcl⟩ := outcomeAncestors_spec hd hdis hanc
  simp only at h
  by_cases hcover : sourceExperimentsCover q treatments = true
  · rw [if_pos hcover] at h
    split_ifs at h with hrel
    · cases h
      exact ⟨_, _, rfl⟩
    · obtain ⟨treatmentNodes, -, h⟩ := bind_ok h
      obtain ⟨relevantNodes, -, h⟩ := bind_ok h
      by_cases hsafe : safeStandardizers p outcomes treatmentNodes
          (d.selectionTargets.filter (· ∈ ancestors)) relevantNodes = true
      · rw [if_pos hsafe] at h
        cases h
        exact ⟨_, _, rfl⟩
      · rw [if_neg hsafe] at h
        obtain ⟨search, -, h⟩ := bind_ok h
        rw [← Except.ok.inj h]
        exact afterSearch_answered hbi _ search
  · rw [if_neg hcover, if_pos hcount] at h
    obtain ⟨formula, certificate, hok, -⟩ := targetGFormula_ok (q := q) d hd ht hcl
    exact ⟨formula, certificate, h.symm.trans hok⟩

/-- **The rules return** on known variables, if the copy with its selection nodes fits. -/
theorem identifyPrepared_ok (hd : Distinct p.admg)
    (ht : Kahn.Topological p.admg.children (range p.admg.nodeCount) p.topo)
    (hdis : ∀ y ∈ outcomes, y ∉ treatments) (hy : Known p outcomes) (hx : Known p treatments)
    (hs : Known p d.selectionTargets) (hfit : p.admg.nodeCount + d.selectionTargets.length ≤ u32Max) :
    ∃ r, identifyPrepared p d q outcomes treatments budget = .ok r := by
  obtain ⟨ancestors, hanc⟩ : ∃ ancestors, outcomeAncestors p outcomes treatments = .ok ancestors :=
    outcomeAncestors_ok hy
  obtain ⟨closure, hcl⟩ := outcomeAncestors_spec hd hdis hanc
  obtain ⟨treatmentNodes, hxn⟩ := denseAll_known hx
  obtain ⟨relevantNodes, hzn⟩ := denseAll_known (hs.filter (· ∈ ancestors))
  obtain ⟨search, hsearch⟩ : ∃ search,
      sAdmissibleStandardizers p d outcomes treatments budget = .ok search :=
    sAdmissibleStandardizers_ok hd ht hy hx hs hdis hfit
  unfold identifyPrepared
  refine bind_returns hanc ?_
  simp only
  by_cases hcover : sourceExperimentsCover q treatments = true
  · rw [if_pos hcover]
    by_cases hrel : (d.selectionTargets.filter (· ∈ ancestors)).isEmpty = true
    · exact ⟨_, if_pos hrel⟩
    · rw [if_neg hrel]
      refine bind_returns hxn (bind_returns hzn ?_)
      split
      · exact ⟨_, rfl⟩
      · exact bind_returns hsearch ⟨_, rfl⟩
  · rw [if_neg hcover, if_pos ((Admg.districtCount_eq_iff _).mpr hbi)]
    obtain ⟨formula, certificate, hok, -⟩ := targetGFormula_ok (q := q) d hd ht hcl
    exact ⟨_, hok⟩

end Rules

/-! ## The catalog -/

section Catalog

variable {q : TransportQuery} {c : SuppliedCatalog}

/-- A regime of the catalog supplies the factor; a target factor also needs a sampling that stands
for the target law. -/
def Supplied (q : TransportQuery) (c : SuppliedCatalog) (f : PopulationFactor) : Prop :=
  (f.population = q.targetPopulation →
      ∀ s, c.targetSampling = some s → s.representsTargetLaw = true) ∧
    ∃ r ∈ c.regimes, satisfies r f.toFactorNeed = true

def Binds (q : TransportQuery) (c : SuppliedCatalog) (formula : TransportFormula) : Prop :=
  ∀ f ∈ formula.factors, f.neededVariables ≠ ∅ → Supplied q c f

theorem boundRegime_eq_none_iff {f : PopulationFactor} :
    boundRegime q c f = none ↔ ¬ Supplied q c f := by
  have hargmin : satisfyingRegime c f.toFactorNeed = none ↔
      ¬ ∃ r ∈ c.regimes, satisfies r f.toFactorNeed = true := by
    unfold satisfyingRegime
    rw [List.argmin_eq_none, List.filter_eq_nil_iff]
    push Not
    rfl
  have hsampling : c.targetSampling.all TargetSampling.representsTargetLaw = true ↔
      ∀ s, c.targetSampling = some s → s.representsTargetLaw = true := by
    cases c.targetSampling <;> simp
  unfold boundRegime Supplied
  rw [not_and_or, ← hargmin, Classical.not_imp, ← hsampling]
  by_cases h : f.population = q.targetPopulation ∧
      ¬ c.targetSampling.all TargetSampling.representsTargetLaw = true
  · rw [if_pos h]
    exact iff_of_true rfl (Or.inl h)
  · rw [if_neg h, Option.map_eq_none_iff, or_iff_right h]

variable {formula : TransportFormula} {certificate : TransportCertificate}

/-- **Nothing is missing exactly when the formula binds.** -/
theorem missing_eq_empty_iff :
    missing q c formula.factors = ∅ ↔ Binds q c formula := by
  unfold missing Binds
  rw [List.toFinset_eq_empty_iff, List.flatMap_eq_nil_iff]
  refine forall_congr' fun f => ?_
  rw [List.mem_filter, Option.isNone_iff_eq_none, boundRegime_eq_none_iff]
  unfold FactorNeed.neededVariables
  rw [Ne, List.toFinset_eq_empty_iff]
  tauto

theorem bindCatalog_transportable {result : TransportIdentification}
    (h : bindCatalog result q = .transportable formula certificate) :
    ∃ formula₀, result = .transportable formula₀ certificate ∧
      ∀ {graph : Admg} {Ω : Fin graph.nodeCount → Type} [∀ i, Fintype (Ω i)]
        [∀ i, DecidableEq (Ω i)] {S : Finset (Fin graph.nodeCount)}
        (P : TransportPair (onNodes graph) Ω S), formula.value P q = formula₀.value P q := by
  unfold bindCatalog at h
  split at h
  · split_ifs at h
    obtain ⟨rfl, rfl⟩ := TransportIdentification.transportable.inj h
    exact ⟨_, rfl, fun P => value_bindFactor _ _⟩
  · exact ⟨formula, h, fun P => rfl⟩

theorem bindCatalog_missing {refusal : RefusalCertificate} (hc : q.catalog = some c)
    (h : bindCatalog (.transportable formula certificate) q = .missingEvidence refusal) :
    ¬ Binds q c formula := by
  unfold bindCatalog at h
  rw [hc] at h
  simp only at h
  split_ifs at h with hm
  rwa [missing_eq_empty_iff] at hm

theorem bindCatalog_none (result : TransportIdentification) (hc : q.catalog = none) :
    bindCatalog result q = result := by
  unfold bindCatalog
  rw [hc]

end Catalog

/-! ## The identifier -/

section Identifier

variable {d : SelectionDiagram} {q : TransportQuery}

variable {r : TransportIdentification} {p : PreparedAdmg}

theorem identifyStructural_parts (h : identifyStructural d q = .ok r) :
    ∃ p outcomes treatments, q.validate = .ok () ∧ PreparedAdmg.new d.causalGraph = .ok p ∧
      responseVariables q = .ok (outcomes, treatments) ∧
      identifyPrepared p d q outcomes treatments standardizerSubsetBudget = .ok r := by
  unfold identifyStructural identifyStructuralWithin at h
  split at h
  · cases h
  · rename_i hv
    obtain ⟨p, hp, h⟩ := bind_ok h
    obtain ⟨⟨outcomes, treatments⟩, hr, h⟩ := bind_ok h
    obtain ⟨-, -, h⟩ := bind_ok h
    exact ⟨p, outcomes, treatments, hv, hp, hr, h⟩

theorem prepared_parts (hq : q.validate = .ok ()) (hres : q.response.functional.Resolvable)
    {outcomes treatments : List Nat}
    (hp : PreparedAdmg.new d.causalGraph = .ok p)
    (hr : responseVariables q = .ok (outcomes, treatments)) :
    p.admg = d.causalGraph ∧
      Kahn.Topological p.admg.children (range p.admg.nodeCount) p.topo ∧
      q.sourcePopulation ≠ q.targetPopulation ∧
      outcomes = q.response.functional.outcomeIds ∧
      treatments.toFinset = q.response.functional.treatmentIds.toFinset ∧
      ∀ y ∈ outcomes, y ∉ treatments := by
  obtain ⟨hresponse, hne⟩ := validate_ok hq
  obtain ⟨treatments', hr', hmem⟩ := responseVariables_spec hresponse hres
  obtain ⟨rfl, rfl⟩ := Prod.mk.inj (Except.ok.inj (hr.symm.trans hr'))
  obtain ⟨p', hp', hadmg, ht⟩ := new_spec d.causalGraph
  obtain rfl := Except.ok.inj (hp.symm.trans hp')
  refine ⟨hadmg, hadmg ▸ ht, hne, rfl, ?_, fun y hy hyt => ?_⟩
  · ext v
    rw [List.mem_toFinset, List.mem_toFinset, hmem]
  · exact (response_apart hresponse).1 y hy ((hmem y).mp hyt)

section

variable (hd : Distinct d.causalGraph) (hres : q.response.functional.Resolvable)

include hd hres

/-- **A structural formula denotes the target's response.** -/
theorem identifyStructural_sound {formula : TransportFormula} {certificate : TransportCertificate}
    (h : identifyStructural d q = .ok (.transportable formula certificate))
    (Ω : Fin d.causalGraph.nodeCount → Type) [∀ i, Fintype (Ω i)] [∀ i, DecidableEq (Ω i)]
    (P : TransportPair (onNodes d.causalGraph) Ω (nodesOf d.causalGraph d.selectionTargets.toFinset))
    (hP : P.Positive) : formula.value P q =
      P.target.law (nodesOf d.causalGraph q.response.functional.treatmentIds.toFinset)
        (nodesOf d.causalGraph q.response.functional.outcomeIds.toFinset) := by
  obtain ⟨p, outcomes, treatments, hv, hp, hr, h⟩ := identifyStructural_parts h
  obtain ⟨hadmg, ht, hne, rfl, htr, hdis⟩ := prepared_parts hv hres hp hr
  obtain ⟨graph, targets, known, unique⟩ := d
  simp only at hadmg
  subst hadmg
  rw [← htr]
  exact identifyPrepared_sound hd ht hne hdis h Ω P hP

/-- **The target factorisation denotes the target's response** in a graph without bidirected
edges, and a query that has got an answer has one. -/
theorem targetFallback_sound (hq : q.validate = .ok ()) (hbi : ∀ a b, ¬ d.causalGraph.mixed.bi a b)
    (h : targetFallback d q = .ok r) :
    ∃ formula certificate, r = .transportable formula certificate ∧
      ∀ (Ω : Fin d.causalGraph.nodeCount → Type) [∀ i, Fintype (Ω i)] [∀ i, DecidableEq (Ω i)]
        (P : TransportPair (onNodes d.causalGraph) Ω
          (nodesOf d.causalGraph d.selectionTargets.toFinset)), P.Positive →
        formula.value P q =
          P.target.law (nodesOf d.causalGraph q.response.functional.treatmentIds.toFinset)
            (nodesOf d.causalGraph q.response.functional.outcomeIds.toFinset) := by
  unfold targetFallback at h
  obtain ⟨p, hp, h⟩ := bind_ok h
  obtain ⟨⟨outcomes, treatments⟩, hr, h⟩ := bind_ok h
  obtain ⟨ancestors, hanc, h⟩ := bind_ok h
  obtain ⟨hadmg, ht, hne, rfl, htr, hdis⟩ := prepared_parts hq hres hp hr
  obtain ⟨graph, targets, known, unique⟩ := d
  simp only at hadmg
  subst hadmg
  obtain ⟨closure, hcl⟩ := outcomeAncestors_spec hd hdis hanc
  obtain ⟨formula, certificate, hok, hvalue⟩ := targetGFormula_ok (q := q) _ hd ht hcl
  rw [← htr]
  exact ⟨formula, certificate, Except.ok.inj (h.symm.trans hok),
    fun Ω _ _ P hP => hvalue hbi Ω _ P hP⟩

end

/-- The identifier accepts the query: it is valid, and its variables name nodes of the graph. -/
structure Accepted (d : SelectionDiagram) (q : TransportQuery) : Prop where
  valid : q.validate = .ok ()
  named : ∀ v ∈ coordinates q q.response.functional.outcomeIds q.response.functional.treatmentIds,
    ∃ i < d.causalGraph.nodeCount, nodeVariableId d.causalGraph.nodes i = some v

theorem known_of_named (hd : Distinct p.admg) {vars : List Nat}
    (h : ∀ v ∈ vars, ∃ i < p.admg.nodeCount, nodeVariableId p.admg.nodes i = some v) :
    Known p vars := fun v hv => by
  obtain ⟨i, hi, hlabel⟩ := h v hv
  rw [nodeVariableId_label hi] at hlabel
  exact ⟨i, (varToDense_iff hd).mpr ⟨hi, Option.some.inj hlabel⟩⟩

theorem targets_named (d : SelectionDiagram) : ∀ v ∈ d.selectionTargets,
    ∃ i < d.causalGraph.nodeCount, nodeVariableId d.causalGraph.nodes i = some v := fun v hv => by
  obtain ⟨i, hi, he⟩ := List.getElem_of_mem (d.known v hv)
  refine ⟨i, hi, ?_⟩
  unfold nodeVariableId
  rw [List.getElem?_eq_getElem hi, he]

section

variable (hd : Distinct d.causalGraph) (hres : q.response.functional.Resolvable)

include hd hres

/-- **Without bidirected edges a structural answer is a formula.** -/
theorem identifyStructural_answered (hbi : ∀ a b, ¬ d.causalGraph.mixed.bi a b)
    (h : identifyStructural d q = .ok r) : Answered (.ok r) := by
  obtain ⟨p, outcomes, treatments, hv, hp, hr, h⟩ := identifyStructural_parts h
  obtain ⟨hadmg, ht, -, -, -, hdis⟩ := prepared_parts hv hres hp hr
  exact identifyPrepared_answered (hadmg ▸ hbi) (hadmg ▸ hd) ht hdis h

theorem accepted_parts (ha : Accepted d q) : ∃ p treatments, p.admg = d.causalGraph ∧
      Kahn.Topological p.admg.children (range p.admg.nodeCount) p.topo ∧
      responseVariables q = .ok (q.response.functional.outcomeIds, treatments) ∧
      (∀ y ∈ q.response.functional.outcomeIds, y ∉ treatments) ∧
      Known p q.response.functional.outcomeIds ∧ Known p treatments ∧
      Known p d.selectionTargets ∧
      identifyStructural d q = identifyPrepared p d q q.response.functional.outcomeIds treatments
        standardizerSubsetBudget := by
  obtain ⟨treatments, hr, hmem⟩ := responseVariables_spec (validate_ok ha.valid).1 hres
  obtain ⟨p, hp, -, -⟩ := new_spec d.causalGraph
  obtain ⟨hadmg, ht, -, -, -, hdis⟩ := prepared_parts ha.valid hres hp hr
  have hd' : Distinct p.admg := hadmg ▸ hd
  have hknown : Known p (coordinates q q.response.functional.outcomeIds treatments) := by
    refine known_of_named hd' fun v hv => ?_
    rw [hadmg]
    refine ha.named v ?_
    simp only [coordinates, List.mem_append, hmem] at hv ⊢
    exact hv
  refine ⟨p, treatments, hadmg, ht, hr, hdis, fun v hv => hknown v (by simp [coordinates, hv]),
    fun v hv => hknown v (by simp [coordinates, hv]),
    known_of_named hd' (hadmg ▸ targets_named d), ?_⟩
  have hall : (coordinates q q.response.functional.outcomeIds treatments).forM (fun v => do
      let _ ← p.varToDense v) = (.ok () : Except IdentificationError Unit) :=
    forM_ok fun v hv => by
      obtain ⟨i, hi⟩ := hknown v hv
      rw [hi]
      rfl
  unfold identifyStructural identifyStructuralWithin
  rw [ha.valid]
  exact (ok_then hp _).trans ((ok_then hr _).trans (ok_then hall _))

/-- **Without bidirected edges an accepted query has a structural answer**, if the copy of the graph
with its selection nodes fits. -/
theorem identifyStructural_ok (hbi : ∀ a b, ¬ d.causalGraph.mixed.bi a b) (ha : Accepted d q)
    (hfit : d.causalGraph.nodeCount + d.selectionTargets.length ≤ u32Max) :
    ∃ r, identifyStructural d q = .ok r := by
  obtain ⟨p, treatments, hadmg, ht, -, hdis, hy, hx, hs, he⟩ := accepted_parts hd hres ha
  rw [he]
  exact identifyPrepared_ok (hadmg ▸ hbi) (hadmg ▸ hd) ht hdis hy hx hs (by rw [hadmg]; exact hfit)

end

/-- **The structural transport identifier**, on a graph labelled by distinct variables and a response
whose interventions are resolvable. Every formula it returns denotes the target's response. Without
bidirected edges a query without a catalog is never refused, and one the identifier accepts is
answered whenever the graph and its selection nodes fit in a `u32`; evidence is missing only when
neither the structural formula nor the target factorisation binds. -/
theorem identify_exact (d : SelectionDiagram) (q : TransportQuery) (hd : Distinct d.causalGraph)
    (hres : q.response.functional.Resolvable) :
    (∀ formula certificate, identify d q = .ok (.transportable formula certificate) →
      ∀ (Ω : Fin d.causalGraph.nodeCount → Type) [∀ i, Fintype (Ω i)] [∀ i, DecidableEq (Ω i)]
        (P : TransportPair (onNodes d.causalGraph) Ω
          (nodesOf d.causalGraph d.selectionTargets.toFinset)), P.Positive →
        formula.value P q =
          P.target.law (nodesOf d.causalGraph q.response.functional.treatmentIds.toFinset)
            (nodesOf d.causalGraph q.response.functional.outcomeIds.toFinset)) ∧
    ((∀ a b, ¬ d.causalGraph.mixed.bi a b) → q.catalog = none →
      (∀ r, identify d q = .ok r → Answered (.ok r)) ∧
      (Accepted d q → d.causalGraph.nodeCount + d.selectionTargets.length ≤ u32Max →
        Answered (identify d q))) ∧
    ((∀ a b, ¬ d.causalGraph.mixed.bi a b) → ∀ c, q.catalog = some c → ∀ refusal,
      identify d q = .ok (.missingEvidence refusal) →
      ∃ formula certificate target certificate',
        identifyStructural d q = .ok (.transportable formula certificate) ∧ ¬ Binds q c formula ∧
        targetFallback d q = .ok (.transportable target certificate') ∧ ¬ Binds q c target) := by
  refine ⟨fun formula certificate h Ω _ _ P hP => ?_, fun hbi hc => ?_, fun hbi c hc refusal h => ?_⟩
  · obtain ⟨result, hs, h⟩ := bind_ok h
    cases hb : bindCatalog result q with
    | transportable bound certificate₁ =>
      rw [hb] at h
      obtain ⟨rfl, rfl⟩ := TransportIdentification.transportable.inj (Except.ok.inj h)
      obtain ⟨formula₀, rfl, hvalue⟩ := bindCatalog_transportable hb
      rw [hvalue P]
      exact identifyStructural_sound hd hres hs Ω P hP
    | notCertified refusal =>
      rw [hb] at h
      cases h
    | missingEvidence refusal =>
      rw [hb] at h
      simp only at h
      split_ifs at h with hcount
      · obtain ⟨fallback, hf, h⟩ := bind_ok h
        obtain ⟨formula₀, rfl, hvalue⟩ := bindCatalog_transportable (Except.ok.inj h)
        obtain ⟨_, _, _, hv, -⟩ := identifyStructural_parts hs
        obtain ⟨target, _, he, hsound⟩ := targetFallback_sound hd hres hv
          ((Admg.districtCount_eq_iff _).mp hcount) hf
        obtain ⟨rfl, -⟩ := TransportIdentification.transportable.inj he
        rw [hvalue P]
        exact hsound Ω P hP
      · cases h
  · have answered : ∀ r, identify d q = .ok r → Answered (.ok r) := by
      intro r h
      obtain ⟨result, hs, h⟩ := bind_ok h
      obtain ⟨formula, certificate, he⟩ := identifyStructural_answered hd hres hbi hs
      obtain rfl := Except.ok.inj he
      rw [bindCatalog_none _ hc] at h
      exact ⟨formula, certificate, h.symm⟩
    refine ⟨answered, fun ha hfit => ?_⟩
    obtain ⟨result, hs⟩ := identifyStructural_ok hd hres hbi ha hfit
    obtain ⟨formula, certificate, he⟩ := identifyStructural_answered hd hres hbi hs
    obtain rfl := Except.ok.inj he
    have hid : ∃ r, identify d q = .ok r := by
      unfold identify
      refine bind_returns hs ?_
      rw [bindCatalog_none _ hc]
      exact ⟨_, rfl⟩
    obtain ⟨r, hr⟩ := hid
    rw [hr]
    exact answered r hr
  · obtain ⟨result, hs, h⟩ := bind_ok h
    obtain ⟨formula, certificate, he⟩ := identifyStructural_answered hd hres hbi hs
    obtain rfl := Except.ok.inj he
    cases hb : bindCatalog (.transportable formula certificate) q with
    | transportable bound certificate₁ =>
      rw [hb] at h
      cases h
    | notCertified refusal =>
      rw [hb] at h
      cases h
    | missingEvidence refusal₁ =>
      rw [hb] at h
      simp only at h
      rw [if_pos ((Admg.districtCount_eq_iff _).mpr hbi)] at h
      obtain ⟨fallback, hf, h⟩ := bind_ok h
      obtain ⟨_, _, _, hv, -⟩ := identifyStructural_parts hs
      obtain ⟨target, certificate', rfl, -⟩ := targetFallback_sound hd hres hv hbi hf
      exact ⟨formula, certificate, target, certificate', hs, bindCatalog_missing hc hb, hf,
        bindCatalog_missing hc (Except.ok.inj h)⟩

end Identifier

/-! ## Two queries -/

variable {n : Nat}

/-- The graph of `n` variables labels its nodes by their positions. -/
theorem nodeVariableId_withVariables (hn : n ≤ u32Max) {i : Nat} (hi : i < n) :
    nodeVariableId (Admg.withVariables n).nodes i = some i := by
  unfold nodeVariableId
  rw [Admg.nodes_withVariables hn]
  simp [hi]

theorem distinct_withVariables (hn : n ≤ u32Max) : Distinct (Admg.withVariables n) := by
  intro i hi j hj h
  rw [(Admg.withVariables_spec (Nat.le_succ_of_le hn)).1] at hi hj
  rw [nodeVariableId_withVariables hn hi, nodeVariableId_withVariables hn hj] at h
  exact Option.some.inj h

/-- `n` unrelated variables, the mechanism of the first of which may differ. -/
def unrelated (n : Nat) (hn : n ≤ u32Max) (hpos : 0 < n) : SelectionDiagram where
  causalGraph := Admg.withVariables n
  selectionTargets := [0]
  known t ht := by
    obtain rfl := List.mem_singleton.mp ht
    rw [Admg.nodes_withVariables hn]
    exact List.mem_map_of_mem (List.mem_range.mpr hpos)
  unique := List.nodup_singleton 0

def firstToSecond : TransportQuery where
  response := ⟨.meanCurve 0 1, none⟩
  sourcePopulation := "source"
  targetPopulation := "target"
  sourceExperiments := [1]
  catalog := none

theorem accepted_unrelated (hn : n ≤ u32Max) (hpos : 1 < n) :
    Accepted (unrelated n hn (by omega)) firstToSecond where
  valid := rfl
  named v hv := by
    have hlt : v < n := by
      have h01 : v = 0 ∨ v = 1 := by
        simpa [coordinates, firstToSecond, ResponseFunctional.outcomeIds,
          ResponseFunctional.treatmentIds] using hv
      omega
    refine ⟨v, ?_, nodeVariableId_withVariables hn hlt⟩
    exact (Admg.withVariables_spec (Nat.le_succ_of_le hn)).1.symm ▸ hlt

/-- Three unrelated variables, in two positive populations. -/
theorem identify_exact_unrelated :
    ∃ (d : SelectionDiagram) (q : TransportQuery) (formula : TransportFormula)
      (certificate : TransportCertificate), Accepted d q ∧
      identify d q = .ok (.transportable formula certificate) ∧
      ∃ P : TransportPair (onNodes d.causalGraph) (fun _ => Bool)
          (nodesOf d.causalGraph d.selectionTargets.toFinset), P.Positive ∧
        formula.value P q =
          P.target.law (nodesOf d.causalGraph q.response.functional.treatmentIds.toFinset)
            (nodesOf d.causalGraph q.response.functional.outcomeIds.toFinset) := by
  obtain ⟨n, hn, hpos, hfit⟩ : ∃ n, n ≤ u32Max ∧ 1 < n ∧ n + 1 ≤ u32Max :=
    ⟨3, by decide, by decide, by decide⟩
  have hspec := Admg.withVariables_spec (Nat.le_succ_of_le hn)
  have hd : Distinct (unrelated n hn (by omega)).causalGraph := distinct_withVariables hn
  have ha := accepted_unrelated hn hpos
  have hcount : (unrelated n hn (by omega)).causalGraph.nodeCount = n := hspec.1
  obtain ⟨hsound, hanswer, -⟩ := identify_exact (unrelated n hn (by omega)) firstToSecond hd trivial
  obtain ⟨formula, certificate, h⟩ := (hanswer hspec.2.2 rfl).2 ha (by rw [hcount]; exact hfit)
  have hP := TransportPair.same_positive
    (uniform_positive (onNodes (unrelated n hn (by omega)).causalGraph) fun _ => Bool)
    (nodesOf (unrelated n hn (by omega)).causalGraph [0].toFinset)
  exact ⟨_, firstToSecond, formula, certificate, ha, h, _, hP, hsound formula certificate h _ _ hP⟩

/-- As many variables as a `u32` numbers leave no room for the selection node of one of them: the
identifier refuses an accepted query without a catalog in a graph without edges. -/
theorem identify_refuses :
    ∃ (d : SelectionDiagram) (q : TransportQuery), Distinct d.causalGraph ∧
      q.response.functional.Resolvable ∧ (∀ a b, ¬ d.causalGraph.mixed.bi a b) ∧
      q.catalog = none ∧ Accepted d q ∧ ∃ e, identify d q = .error e := by
  obtain ⟨n, hn, hpos, hfull⟩ : ∃ n, n ≤ u32Max ∧ 1 < n ∧ u32Max < n + 1 :=
    ⟨u32Max, Nat.le_refl _, by decide, Nat.lt_succ_self _⟩
  have hspec := Admg.withVariables_spec (Nat.le_succ_of_le hn)
  have hd : Distinct (unrelated n hn (by omega)).causalGraph := distinct_withVariables hn
  have ha := accepted_unrelated hn hpos
  refine ⟨unrelated n hn (by omega), firstToSecond, hd, trivial, hspec.2.2, rfl, ha, ?_⟩
  have hres : firstToSecond.response.functional.Resolvable := trivial
  obtain ⟨p, treatments, hadmg, -, hr, hdis, hy, hx, hs, he⟩ := accepted_parts hd hres ha
  obtain rfl : [1] = treatments := (Prod.mk.inj (Except.ok.inj hr)).2
  have hcount : p.admg.nodeCount = n := by
    rw [hadmg]
    exact hspec.1
  obtain ⟨e, hrefuse⟩ : ∃ e, identifyPrepared p _ firstToSecond _ _ standardizerSubsetBudget =
      .error e := identifyPrepared_refuses (y := 0) (hadmg ▸ hd) hdis hy hx hs rfl
    (List.mem_singleton.mpr rfl) (List.mem_singleton.mpr rfl) (by rw [hcount]; exact hfull)
  unfold identify
  rw [he, hrefuse]
  exact ⟨e, rfl⟩

end Antecedent.Identify.Structural
