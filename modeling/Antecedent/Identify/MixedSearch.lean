import Antecedent.Identify.MixedExtract

/-!
# The mixed-source search against its own checker

The promise of a pass of `rule_search` (`search.rs:1441-1530`) over a validated query and catalog:
the run ends, every proof it hands out passes `check_steps`, and a fixpoint without the target
leaves no list of steps over the inputs of the pass that `check_steps` accepts (`ClosedUnderChecker`).

The code keeps it in part. The checker refuses a step with more than `MIXED_SOURCE_MAX_DO` actions,
and the engine loads an input of any size; the checker reads a variable as the first node that
carries it. And the module doc counts the two deletions as needless, since no closure that was
sampled needed one, where some closures do.

* **`search_closed`**: a run ends, with proofs the checker accepts when no input of the pass is too
  large and no two nodes share a variable, or with no accepted list that applies no deletion.
* **`deletion_needed`**: a search ends in a fixpoint, and the checker accepts a list that undoes an
  insertion.
-/

namespace Antecedent.Identify

open Core
open Expr
open Graph

/-! ## The promise -/

/-- Every proof handed out passes the checker: that of the found step, and one for each
alternative. The relaxed pass keeps no arena (`search.rs:1478-1480`). -/
def ProofsChecked (graph : Admg) (catalog : EvidenceCatalog) (v : ValidatedMixedSourceQuery)
    (relaxed : Bool) (s : Engine) : Prop :=
  ∃ f, s.found = some f ∧ ∀ last ∈ s.step f :: s.alternatives, ∃ steps arena,
    s.extract last catalog v.query.target = .ok (steps, arena) ∧
      checkSteps graph v.query catalog steps (if relaxed then none else some arena) relaxed = .ok ()

def NoneAccepted (graph : Admg) (catalog : EvidenceCatalog) (v : ValidatedMixedSourceQuery)
    (relaxed : Bool) (admitted : MixedStep → Prop) : Prop :=
  ∀ (steps : List MixedStep) (stored : Option CausalExprArena) (allowRelaxed : Bool),
    (∀ step ∈ steps, admitted step) →
    (∀ step ∈ steps, ∀ leaf input, step.source = some leaf → v.cited leaf.regime = some input →
      input ∈ Engine.passInputs v relaxed) →
    checkSteps graph v.query catalog steps stored allowRelaxed ≠ .ok ()

/-- What a pass promises of every run. -/
def ClosedUnderChecker (graph : Admg) (catalog : EvidenceCatalog) (v : ValidatedMixedSourceQuery)
    (relaxed : Bool) (meter : Nat → Option SearchStop) : Prop :=
  ∃ vars e, denseVariables graph = .ok vars ∧
    Engine.new graph vars (Engine.passInputs v relaxed) v.query = .ok e ∧
    (∀ fuel, 8 ^ vars.length < fuel → ∃ r, e.run meter fuel = some r) ∧
    ∀ fuel r, e.run meter fuel = some r →
      match r with
      | .found s => ProofsChecked graph catalog v relaxed s
      | .fixpoint _ => NoneAccepted graph catalog v relaxed fun _ => True
      | .stopped _ => True

/-! ## The inputs of a pass -/

section Inputs

variable {graph : Admg} {query : MixedSourceQuery} {catalog : EvidenceCatalog}
  {v : ValidatedMixedSourceQuery} {relaxed : Bool} {input : MixedInput} {vars : List Nat}

theorem mem_passInputs (h : input ∈ Engine.passInputs v relaxed) :
    input ∈ v.inputs ∨ (relaxed = true ∧ input ∈ v.marginalInputs) := by
  unfold Engine.passInputs at h
  split_ifs at h with hr
  · rcases List.mem_append.mp ((List.mem_insertionSort _).mp h) with h | h
    · exact Or.inl h
    · exact Or.inr ⟨hr, h⟩
  · exact Or.inl h

theorem source_of_input (hval : Validated graph query catalog v vars)
    (h : input ∈ v.inputs ++ v.marginalInputs) : ∃ d ∈ catalog.distributions,
      Usable vars v.query.target d ∧ (∃ marginals, input = inputOf d marginals) ∧
        (classify vars v.query.target d = .ok (.joint input) ∨
          classify vars v.query.target d = .ok (.separate input)) := by
  rcases List.mem_append.mp h with h | h
  · obtain ⟨d, hd, hu, hi, hc⟩ := hval.inputs input h
    exact ⟨d, hd, hu, ⟨[], hi⟩, Or.inl hc⟩
  · obtain ⟨d, hd, hu, hi, hc⟩ := hval.marginalInputs input h
    exact ⟨d, hd, hu, hi, Or.inr hc⟩

theorem cited_of_input (hcat : catalog.validate = .ok ())
    (hval : Validated graph query catalog v vars) (h : input ∈ v.inputs ++ v.marginalInputs) :
    v.cited input.regime = some input := by
  obtain ⟨d, hd, -, ⟨marginals, hi⟩, hclass⟩ := source_of_input hval h
  unfold ValidatedMixedSourceQuery.cited
  cases hf : (v.inputs ++ v.marginalInputs).find? (·.regime = input.regime) with
  | none =>
    have hne := List.find?_eq_none.mp hf input h
    exact absurd (decide_eq_true rfl) hne
  | some input' =>
    have hfound := List.find?_some hf
    have hreg : input'.regime = input.regime := of_decide_eq_true hfound
    obtain ⟨d', hd', -, ⟨marginals', hi'⟩, hclass'⟩ :=
      source_of_input hval (List.mem_of_find?_eq_some hf)
    -- one regime, one distribution, one class
    have hsame : d = d' := by
      refine EvidenceCatalog.distributions_inj hcat hd hd' ?_
      rw [hi, hi'] at hreg
      exact hreg.symm
    rw [← hsame] at hclass'
    rcases hclass with hclass | hclass
    · rcases hclass' with hclass' | hclass'
      · cases hclass.symm.trans hclass'
        rfl
      · cases hclass.symm.trans hclass'
    · rcases hclass' with hclass' | hclass'
      · cases hclass.symm.trans hclass'
      · cases hclass.symm.trans hclass'
        rfl

theorem inputOk_of_input (hval : Validated graph query catalog v vars)
    (h : input ∈ v.inputs ++ v.marginalInputs) : Engine.InputOk vars input := by
  obtain ⟨d, -, hu, ⟨marginals, rfl⟩, -⟩ := source_of_input hval h
  refine ⟨fun hnil => hu.measured_ne ?_, fun x hx => ?_, fun x hx => ?_, fun x hx hx' => ?_⟩
  · refine List.eq_nil_iff_forall_not_mem.mpr fun x hx => ?_
    have hm : x ∈ (inputOf d marginals).measured := mem_sorted.mpr hx
    rw [hnil] at hm
    exact List.not_mem_nil hm
  · have hx := List.mem_filter.mp (mem_sorted.mp hx)
    exact hu.known x (List.mem_append_left _ hx.1)
  · exact hu.known x (List.mem_append_right _ (mem_sorted.mp hx))
  · have hx := of_decide_eq_true (List.mem_filter.mp (mem_sorted.mp hx)).2
    exact hx (mem_sorted.mp hx')

theorem nodup_sorted {vs : List Nat} (h : vs.Nodup) : (sorted vs).Nodup :=
  (List.perm_insertionSort _ vs).nodup_iff.mpr h

theorem citable_of_input (hcat : catalog.validate = .ok ())
    (hval : Validated graph query catalog v vars) (h : input ∈ Engine.passInputs v relaxed) :
    Citable v catalog v.query.target relaxed input := by
  have hmem : input ∈ v.inputs ++ v.marginalInputs := by
    rcases mem_passInputs h with h | ⟨-, h⟩
    · exact List.mem_append_left _ h
    · exact List.mem_append_right _ h
  obtain ⟨d, hd, hu, ⟨marginals, hi⟩, -⟩ := source_of_input hval hmem
  obtain ⟨r, hr, hrd⟩ := EvidenceCatalog.mem_distributions.mp hd
  obtain ⟨hint, hmeas⟩ := validate_unique hcat r hr
  have hdi : d.interventions.Nodup := by rw [← hrd]; exact hint
  have hdm : d.measured.Nodup := by rw [← hrd]; exact hmeas
  refine ⟨⟨d, ?_, hu.population⟩, cited_of_input hcat hval hmem, ?_, ?_, ?_⟩
  · rw [hi]
    exact EvidenceCatalog.distribution_of_mem hcat hd
  · rw [hi]
    exact nodup_sorted (hdm.filter _)
  · rw [hi]
    exact nodup_sorted hdi
  · rcases mem_passInputs h with h | ⟨hr, -⟩
    · obtain ⟨d', -, -, rfl, -⟩ := hval.inputs input h
      exact Or.inr rfl
    · exact Or.inl hr

end Inputs

/-! ## What a pass delivers -/

theorem exists_checker {graph : Admg} {vars : List Nat} (h : denseVariables graph = .ok vars) :
    ∃ c, Checker.new graph = .ok c ∧ c.vars = vars := by
  unfold Checker.new
  rw [h]
  exact ⟨_, rfl, rfl⟩

/-- **A pass of the search.** Every run ends. If it found the target, every proof it hands out
passes the checker, given that every input of the pass intervenes on at most `mixedSourceMaxDo`
variables and no two nodes share a variable. If it ends in a fixpoint, the checker accepts no list
over the inputs of the pass that applies no deletion. -/
theorem search_closed {graph : Admg} {query : MixedSourceQuery} {catalog : EvidenceCatalog}
    {v : ValidatedMixedSourceQuery} (hcat : catalog.validate = .ok ())
    (hv : validateMixedSourceQuery graph query catalog = .ok v) (relaxed : Bool)
    (meter : Nat → Option SearchStop) :
    ∃ vars e, denseVariables graph = .ok vars ∧
      Engine.new graph vars (Engine.passInputs v relaxed) v.query = .ok e ∧
      (∀ fuel, 8 ^ vars.length < fuel → ∃ r, e.run meter fuel = some r) ∧
      ∀ fuel r, e.run meter fuel = some r →
        match r with
        | .found s => vars.Nodup → (∀ input ∈ Engine.passInputs v relaxed,
            input.intervened.length ≤ mixedSourceMaxDo) → ProofsChecked graph catalog v relaxed s
        | .fixpoint _ => NoneAccepted graph catalog v relaxed fun step => step.rule.deletes = false
        | .stopped _ => True := by
  obtain ⟨vars, hval⟩ := validate_cases hv
  obtain ⟨c, hc, rfl⟩ := exists_checker hval.dense
  have hreads := Checker.new_reads hc
  have hsmall : c.vars.length < maskBits := by
    have hb := hval.bound
    rw [← hreads.length] at hb
    exact hb.trans_lt (by decide)
  have hmem : ∀ input ∈ Engine.passInputs v relaxed, input ∈ v.inputs ++ v.marginalInputs :=
    fun input hi => (mem_passInputs hi).elim (List.mem_append_left _)
      fun h => List.mem_append_right _ h.2
  obtain ⟨e, hnew, hstart⟩ := Engine.new_spec hreads hsmall
    (fun input hi => inputOk_of_input hval (hmem input hi)) hval.known
  have hv' : validateMixedSourceQuery graph v.query catalog = .ok v := by
    rw [hval.query, validate_canonical, hv]
  refine ⟨c.vars, e, hval.dense, hnew, fun fuel hfuel => Engine.run_ends hstart.ok meter hfuel,
    fun fuel r hr => ?_⟩
  have hspec := Engine.run_spec hstart.ok hr
  cases r with
  | found s =>
    obtain ⟨hok, hl, hfound⟩ := hspec
    intro hnodup hbound
    obtain ⟨f, hf⟩ := Option.isSome_iff_exists.mp hfound
    refine ⟨f, hf, fun last hlast => ?_⟩
    -- the found step and the alternatives derive the target
    obtain ⟨hraw, hkey⟩ : Engine.RawOk c (Engine.passInputs v relaxed) s.steps last ∧
        last.key = s.target := by
      rcases List.mem_cons.mp hlast with rfl | hlast
      · obtain ⟨raw, hraw, hkey⟩ := hok.found_spec f hf
        rw [Engine.step_of_get hraw]
        exact ⟨hok.step_ok hraw, hkey⟩
      · exact ⟨(hok.alternatives last hlast).2, (hok.alternatives last hlast).1⟩
    have htarget : s.target = e.target := hl.target
    obtain ⟨steps, arena, hextract, hchecked⟩ := Engine.extract_accepted hc hv hok hnodup
      (hl.inputs.trans hstart.inputs_eq) (fun input hi => citable_of_input hcat hval hi) hbound
      (htarget ▸ Engine.setOf_maskOf hstart.outcomes hval.outcomes_nodup)
      (htarget ▸ Engine.setOf_maskOf hstart.treatments hval.treatments_nodup)
      (htarget ▸ hstart.unconditioned) hraw hkey
    refine ⟨steps, arena, hextract, hchecked _ fun a ha => ?_⟩
    cases relaxed with
    | true => cases ha
    | false =>
      cases ha
      rfl
  | fixpoint s =>
    obtain ⟨-, hl, htarget, hclosed⟩ := hspec
    intro steps stored allowRelaxed hdel hinputs
    exact not_accepted_of_fixpoint hc hv' hstart hl hclosed htarget hdel hinputs
  | stopped stop => trivial

/-! ## A deletion the search needs -/

def experiment (id : Nat) (measured interventions : List Nat) : EvidenceRegime where
  id := id
  label := none
  kind := .experimental
  evidenceKind := .available
  interventions := interventions
  interventionValues := []
  measured := measured
  conditionedOn := []
  population := "target"
  distribution := .joint
  study := none
  selection := .population
  origin := .measured
  canonicalIdentity := "catalog_distribution.v1"

/-- The last state of a first pass that is not stopped, and whether it found the target. -/
def passEnd (graph : Admg) (query : MixedSourceQuery) (catalog : EvidenceCatalog) (fuel : Nat) :
    Option (Engine × Bool) :=
  match validateMixedSourceQuery graph query catalog, denseVariables graph with
  | .ok v, .ok vars =>
    match Engine.new graph vars (Engine.passInputs v false) v.query with
    | .ok e =>
      match e.run (fun _ => none) fuel with
      | some (.found s) => some (s, true)
      | some (.fixpoint s) => some (s, false)
      | _ => none
    | .error _ => none
  | _, _ => none

theorem passEnd_spec {graph : Admg} {query : MixedSourceQuery} {catalog : EvidenceCatalog}
    {fuel : Nat} {b : Bool} (h : (passEnd graph query catalog fuel).map (·.2) = some b) :
    ∃ v vars e s, validateMixedSourceQuery graph query catalog = .ok v ∧
      denseVariables graph = .ok vars ∧
      Engine.new graph vars (Engine.passInputs v false) v.query = .ok e ∧
      e.run (fun _ => none) fuel = some (if b then .found s else .fixpoint s) := by
  obtain ⟨⟨s, b⟩, hs, rfl⟩ := Option.map_eq_some_iff.mp h
  unfold passEnd at hs
  split at hs
  · rename_i v vars hv hvars
    split at hs
    · rename_i e he
      refine ⟨v, vars, e, s, hv, hvars, he, ?_⟩
      split at hs
      · rename_i hrun
        cases hs
        exact hrun
      · rename_i hrun
        cases hs
        exact hrun
      · cases hs
    · cases hs
  · cases hs

/-- One experiment that answers the query: the target is found, and its proof passes. -/
theorem loneExperiment_closed : ∃ v vars e s,
    validateMixedSourceQuery (Admg.withVariables 2) ⟨[1], [0], "target", []⟩
        ⟨[], [experiment 0 [1] [0]], []⟩ = .ok v ∧
      Engine.new (Admg.withVariables 2) vars (Engine.passInputs v false) v.query = .ok e ∧
      e.run (fun _ => none) 65 = some (.found s) ∧
      ProofsChecked (Admg.withVariables 2) ⟨[], [experiment 0 [1] [0]], []⟩ v false s := by
  have hrun : (passEnd (Admg.withVariables 2) ⟨[1], [0], "target", []⟩
      ⟨[], [experiment 0 [1] [0]], []⟩ 65).map (·.2) = some true := by decide +kernel
  obtain ⟨v, vars, e, s, hv, hvars, he, hs⟩ := passEnd_spec hrun
  obtain ⟨vars', e', hvars', he', -, hends⟩ := search_closed (by decide) hv false fun _ => none
  obtain rfl : vars = vars' := (Except.ok.injEq _ _).mp (hvars.symm.trans hvars')
  obtain rfl : e = e' := (Except.ok.injEq _ _).mp (he.symm.trans he')
  have hnodup : denseVariables (Admg.withVariables 2) = .ok [0, 1] := by decide
  obtain rfl : vars = [0, 1] := (Except.ok.injEq _ _).mp (hvars.symm.trans hnodup)
  refine ⟨v, _, e, s, hv, he, hs, hends 65 _ hs (by decide) fun input hi => ?_⟩
  have hsmall : (validateMixedSourceQuery (Admg.withVariables 2) ⟨[1], [0], "target", []⟩
      ⟨[], [experiment 0 [1] [0]], []⟩).toOption.all (fun v => v.inputs.all fun input =>
        input.intervened.length ≤ mixedSourceMaxDo) = true := by decide +kernel
  rw [hv] at hsmall
  exact of_decide_eq_true (List.all_eq_true.mp hsmall input hi)

def deletionEdges : Except GraphError Admg := do
  let graph ← (Admg.withVariables 6).insertDirected 0 2
  let graph ← graph.insertDirected 1 2
  let graph ← graph.insertDirected 1 3
  let graph ← graph.insertDirected 2 3
  let graph ← graph.insertDirected 2 4
  let graph ← graph.insertDirected 3 5
  let graph ← graph.insertBidirected 0 2
  let graph ← graph.insertBidirected 0 5
  let graph ← graph.insertBidirected 1 3
  graph.insertBidirected 1 5

/-- Six variables, with `0 → 2`, `1 → 2`, `1 → 3`, `2 → 3`, `2 → 4`, `3 → 5` and confounders of `0`
and `2`, `0` and `5`, `1` and `3`, `1` and `5`. -/
def deletionGraph : Admg :=
  match deletionEdges with
  | .ok graph => graph
  | .error _ => Admg.withVariables 6

/-- The laws `P(5 | do(3, 4))` and `P(3 | do(0, 1, 4))`. -/
def deletionCatalog : EvidenceCatalog :=
  ⟨[], [experiment 0 [5] [3, 4], experiment 1 [3] [0, 1, 4]], []⟩

/-- The target `P(5 | do(0, 1, 4))`. -/
def deletionQuery : MixedSourceQuery := ⟨[5], [0, 1, 4], "target", []⟩

def derivedStep (rule : MixedRule) (premises params y d z : List Nat) : MixedStep :=
  ⟨rule, premises, params, y, d, z, none, false, 0⟩

/-- Variable `2` is inserted as an action, to let `4`, `1`, `3` and `0` pass, and then deleted. -/
def deletionSteps : List MixedStep := [
  ⟨.input, [], [], [5], [3, 4], [],
    some ⟨0, "target", "target", none, "catalog_distribution.v1"⟩, false, 0⟩,
  derivedStep .rule3Insert [0] [2] [5] [2, 3, 4] [],
  derivedStep .rule2ToObservation [1] [4] [5] [2, 3] [4],
  derivedStep .rule3Insert [2] [1] [5] [1, 2, 3] [4],
  derivedStep .rule2ToObservation [3] [3] [5] [1, 2] [3, 4],
  derivedStep .rule3Insert [4] [0] [5] [0, 1, 2] [3, 4],
  derivedStep .rule3Delete [5] [2] [5] [0, 1] [3, 4],
  derivedStep .rule2ToDo [6] [4] [5] [0, 1, 4] [3],
  ⟨.input, [], [], [3], [0, 1, 4], [],
    some ⟨1, "target", "target", none, "catalog_distribution.v1"⟩, false, 0⟩,
  derivedStep .product [7, 8] [] [3, 5] [0, 1, 4] [],
  derivedStep .marginalize [9] [3] [5] [0, 1, 4] []]

/-- **The search is not closed under its checker**: it ends in a fixpoint, where the checker accepts
a derivation of the target that deletes an action. -/
theorem deletion_needed : deletionCatalog.validate = .ok () ∧
    ∃ v, validateMixedSourceQuery deletionGraph deletionQuery deletionCatalog = .ok v ∧
      ¬ ClosedUnderChecker deletionGraph deletionCatalog v false fun _ => none := by
  have hrun : (passEnd deletionGraph deletionQuery deletionCatalog 20).map (·.2) = some false := by
    decide +kernel
  obtain ⟨v, vars, e, s, hv, hvars, he, hs⟩ := passEnd_spec hrun
  have haccepted : checkSteps deletionGraph deletionQuery.canonical deletionCatalog deletionSteps
      none false = .ok () := by decide +kernel
  refine ⟨by decide, v, hv, ?_⟩
  rintro ⟨vars', e', hvars', he', -, hends⟩
  obtain rfl : vars = vars' := (Except.ok.injEq _ _).mp (hvars.symm.trans hvars')
  obtain rfl : e = e' := (Except.ok.injEq _ _).mp (he.symm.trans he')
  have hquery : v.query = deletionQuery.canonical := (validate_cases hv).choose_spec.query
  refine hends 20 _ hs deletionSteps none false (fun _ _ => trivial)
    (fun step _ leaf input _ hcited => ?_) (hquery ▸ haccepted)
  -- no regime holds separate marginals
  have hmarginals : (validateMixedSourceQuery deletionGraph deletionQuery deletionCatalog).toOption.map
      (·.marginalInputs) = some [] := by decide +kernel
  rw [hv] at hmarginals
  have hmarginals : v.marginalInputs = [] := by simpa [Except.toOption] using hmarginals
  have hmem := List.mem_of_find?_eq_some hcited
  rwa [hmarginals, List.append_nil] at hmem

end Antecedent.Identify
