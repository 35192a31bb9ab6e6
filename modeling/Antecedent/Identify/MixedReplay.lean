import Antecedent.Identify.MixedChecker

/-!
# The replay of a list of proof steps

What the loop of `check_steps` (`search.rs:754-862`) has built after the steps accepted so far: the
arena, and an expression and a quantity for each step. The shared expression layer then compares the
leaves of the last expression with the input steps it rests on (`search.rs:878-905`).

* **`run_ok`**: a run of accepted steps keeps the invariant of the replay and only appends.
* **`layer_ok`**: the shared expression layer accepts what the replay accepts.
-/

namespace Antecedent.Identify

open Expr
open Graph
open Worklist

/-- The expressions `build_expression` gives a list of steps, in one arena. -/
def buildSteps (target : String) (steps : List MixedStep) :
    Except IdentificationError (CausalExprArena × List Nat) :=
  steps.foldlM (fun (acc : CausalExprArena × List Nat) step => do
    let (arena, expression) ← step.buildExpression acc.1
      (step.premises.map fun p => acc.2.getD p 0) target
    .ok (arena, acc.2 ++ [expression])) (.new, [])

section Run

variable {graph : Admg} {c : Checker} {v : ValidatedMixedSourceQuery} {target : String}
  {stored : Option CausalExprArena} {allowRelaxed : Bool} {st : Replay} {step : MixedStep}
  {q : Quantity} {w : Finset Nat} {arena : CausalExprArena} {expression : Nat}

/-! ## The tables of the replay -/

/-- What the replay keeps after the steps `done`. -/
structure ReplayOk (c : Checker) (n : Nat) (target : String) (done : List MixedStep)
    (st : Replay) : Prop where
  wf : st.arena.WF
  built : buildSteps target done = .ok (st.arena, st.expressions)
  lt : ∀ e ∈ st.expressions, e < st.arena.nodes.length
  len_e : st.expressions.length = done.length
  len_q : st.quantities.length = done.length
  quantity : ∀ (i : Nat) (step : MixedStep), done[i]? = some step → ∃ q,
    st.quantities[i]? = some q ∧ SetOf c step.y q.y ∧ SetOf c step.intervened q.d ∧
      SetOf c step.conditioned q.z ∧ q.Ok n

variable {n i : Nat} {b : ExprTree.LeafBinding} {steps : List MixedStep}

theorem replayOk_new : ReplayOk c n target [] ⟨.new, [], []⟩ :=
  ⟨CausalExprArena.wf_new, rfl, fun _ h => absurd h List.not_mem_nil, rfl, rfl,
    fun _ _ h => by cases h⟩

theorem getElem?_snoc {α : Type} {l : List α} {x y : α}
    (h : (l ++ [x])[i]? = some y) : l[i]? = some y ∨ (i = l.length ∧ x = y) := by
  rw [List.getElem?_append] at h
  split_ifs at h with hi
  · exact Or.inl h
  · obtain ⟨hlt, he⟩ := List.getElem?_eq_some_iff.mp h
    rw [List.length_singleton] at hlt
    exact Or.inr ⟨by omega, by simpa using he⟩

section Step

variable {done : List MixedStep}

theorem premises_lt {n : Nat} (hr : ReplayOk c n target done st)
    (h : StepAccepted c v target stored allowRelaxed st step q w arena expression) :
    ∀ e ∈ step.premises.map fun p => st.expressions.getD p 0, e < st.arena.nodes.length := by
  intro e he
  obtain ⟨p, hp, rfl⟩ := List.mem_map.mp he
  have hlt : p < st.expressions.length := by
    rw [hr.len_e, ← hr.len_q]
    exact h.premises_lt p hp
  rw [List.getD_eq_getElem _ _ hlt]
  exact hr.lt _ (List.getElem_mem hlt)

theorem built_spec {n : Nat} (hr : ReplayOk c n target done st)
    (h : StepAccepted c v target stored allowRelaxed st step q w arena expression) :
    CausalExprArena.Grows st.arena arena ∧ expression < arena.nodes.length ∧
      arena.view expression =
        step.tree (step.premises.map fun p => st.arena.view (st.expressions.getD p 0)) target := by
  have hs := MixedStep.buildExpression_spec hr.wf
    (by rw [List.length_map]; exact arity_of_ruleHolds h.holds) (premises_lt hr h) h.built
  rwa [List.map_map] at hs

theorem ReplayOk.snoc (hc : c.Reads graph) (hr : ReplayOk c graph.nodeCount target done st)
    (h : StepAccepted c v target stored allowRelaxed st step q w arena expression) :
    ReplayOk c graph.nodeCount target (done ++ [step])
      ⟨arena, st.quantities ++ [q], st.expressions ++ [expression]⟩ := by
  obtain ⟨hg, hlt, -⟩ := built_spec hr h
  refine ⟨hg.wf, ?_, ?_, ?_, ?_, ?_⟩
  · have hb := hr.built
    unfold buildSteps at hb ⊢
    rw [List.foldlM_append, hb]
    simp only [List.foldlM_cons, List.foldlM_nil, bind, Except.bind]
    rw [h.built]
    rfl
  · intro e he
    rcases List.mem_append.mp he with he | he
    · exact (hr.lt e he).trans_le hg.ext.length_le
    · rw [List.mem_singleton.mp he]
      exact hlt
  · simp [hr.len_e]
  · simp [hr.len_q]
  · intro i s hs
    rcases getElem?_snoc hs with hs | ⟨rfl, rfl⟩
    · obtain ⟨q', hq', hrest⟩ := hr.quantity i s hs
      exact ⟨q', getElem?_prefixed (List.prefix_append _ _) hq', hrest⟩
    · refine ⟨q, ?_, h.y_eq, h.d_eq, h.z_eq, hc.length ▸ h.quantity_ok⟩
      rw [← hr.len_q, List.getElem?_concat_length]

end Step

/-- **A run of accepted steps** keeps the invariant and only appends. -/
theorem run_ok (hc : c.Reads graph) {allowRelaxed : Bool} : ∀ {steps done : List MixedStep}
    {st st' : Replay},
    steps.foldlM (checkStep c v target stored allowRelaxed) st = .ok st' →
      ReplayOk c graph.nodeCount target done st →
      ReplayOk c graph.nodeCount target (done ++ steps) st' ∧
        CausalExprArena.Extends st.arena st'.arena ∧ st.expressions <+: st'.expressions ∧
        st.quantities <+: st'.quantities
  | [], done, st, st', h, hr => by
    cases h
    rw [List.append_nil]
    exact ⟨hr, .rfl, List.prefix_rfl, List.prefix_rfl⟩
  | step :: steps, done, st, st', h, hr => by
    rw [List.foldlM_cons] at h
    obtain ⟨st₁, hstep, h⟩ := bind_ok h
    obtain ⟨q, w, arena, e, ha, rfl⟩ := checkStep_cases hstep
    obtain ⟨hr', hext, hexp, hq⟩ := run_ok hc h (hr.snoc hc ha)
    rw [List.append_assoc] at hr'
    exact ⟨hr', (built_spec hr ha).1.ext.trans hext, (List.prefix_append _ _).trans hexp,
      (List.prefix_append _ _).trans hq⟩

/-! ## The leaves of an expression -/

theorem input_of_ruleHolds (hrule : step.rule = .input)
    (h : ruleHolds c v target allowRelaxed st step q w = .ok true) :
    ∃ leaf input, step.source = some leaf ∧ v.cited leaf.regime = some input ∧
      c.set input.measured = .ok q.y ∧ c.set input.intervened = .ok q.d ∧ q.z = ∅ ∧
      leaf.population = target := by
  obtain ⟨rule, premises, params, y, d, z, source, relaxed, expression⟩ := step
  cases hrule
  unfold ruleHolds at h
  rcases premises with _ | ⟨i, _ | ⟨j, premises⟩⟩
  · cases source with
    | none => simp [inputHolds] at h
    | some leaf =>
      simp only [inputHolds] at h
      cases hi : v.cited leaf.regime with
      | none =>
        simp only [hi] at h
        cases h
      | some input =>
        simp only [hi] at h
        obtain ⟨measured, hm, h⟩ := bind_ok h
        obtain ⟨intervened, hd, h⟩ := bind_ok h
        obtain ⟨rfl, rfl, hz, -, -, -, -, hpop, -⟩ := of_decide_eq_true ((Except.ok.injEq _ _).mp h)
        exact ⟨leaf, input, rfl, hi, hm, hd, hz, hpop⟩
  · simp [unaryRuleHolds] at h
  · cases h
/-- Step `i` of the list in the tables of the replay: it rests on earlier steps, its expression is
built over theirs, and its leaf names the target. -/
structure StepPlaced (target : String) (st : Replay) (i : Nat) (step : MixedStep) : Prop where
  premises : ∀ p ∈ step.premises, p < i
  arity : step.premises.length = MixedStep.arity step.rule
  source : step.rule ≠ .input → step.source = none
  leaf : step.rule = .input → ∃ leaf, step.source = some leaf ∧ leaf.population = target
  tree : st.arena.view (st.expressions.getD i 0) =
    step.tree (step.premises.map fun p => st.arena.view (st.expressions.getD p 0)) target

theorem stepPlaced_snoc {done : List MixedStep} (hr : ReplayOk c n target done st)
    (hp : ∀ (i : Nat) (s : MixedStep), done[i]? = some s → StepPlaced target st i s)
    (h : StepAccepted c v target stored allowRelaxed st step q w arena expression) :
    ∀ i s, (done ++ [step])[i]? = some s → StepPlaced target
      ⟨arena, st.quantities ++ [q], st.expressions ++ [expression]⟩ i s := by
  obtain ⟨hg, hlt, hview⟩ := built_spec hr h
  -- the expressions so far, read in the new tables
  have hold : ∀ i < done.length, arena.view ((st.expressions ++ [expression]).getD i 0) =
      st.arena.view (st.expressions.getD i 0) := by
    intro i hi
    rw [← hr.len_e] at hi
    rw [List.getD_append _ _ _ _ hi, CausalExprArena.view_extends hr.wf hg.wf hg.ext]
    rw [List.getD_eq_getElem _ _ hi]
    exact hr.lt _ (List.getElem_mem hi)
  have htree : ∀ s : MixedStep, (∀ p ∈ s.premises, p < done.length) →
      s.tree (s.premises.map fun p => arena.view ((st.expressions ++ [expression]).getD p 0))
        target = s.tree (s.premises.map fun p => st.arena.view (st.expressions.getD p 0))
          target := fun s hs => by
    rw [List.map_congr_left fun p hp' => hold p (hs p hp')]
  intro i s hs
  rcases getElem?_snoc hs with hs | ⟨rfl, rfl⟩
  · have hi := (List.getElem?_eq_some_iff.mp hs).1
    have hs' := hp i s hs
    refine ⟨hs'.premises, hs'.arity, hs'.source, hs'.leaf, ?_⟩
    show arena.view _ = _
    rw [hold i hi, hs'.tree]
    exact (htree s fun p hpm => (hs'.premises p hpm).trans hi).symm
  · have hprem : ∀ p ∈ step.premises, p < done.length := fun p hpm =>
      hr.len_q ▸ h.premises_lt p hpm
    refine ⟨hprem, arity_of_ruleHolds h.holds, fun hrule => (h.source_none hrule).1,
      fun hrule => ?_, ?_⟩
    · obtain ⟨leaf, -, hleaf, -, -, -, -, hpop⟩ := input_of_ruleHolds hrule h.holds
      exact ⟨leaf, hleaf, hpop⟩
    · show arena.view _ = _
      rw [← hr.len_e, List.getD_append_right _ _ _ _ (Nat.le_refl _), Nat.sub_self]
      exact hview.trans (htree step hprem).symm

def MixedStep.Binds (step : MixedStep) (b : ExprTree.LeafBinding) : Prop :=
  ∃ leaf, step.source = some leaf ∧ (leaf.population, some leaf.regime) = b

theorem StepPlaced.mem_tree {st : Replay} (h : StepPlaced target st i step)
    {ts : List ExprTree} (hlen : ts.length = step.premises.length) :
    b ∈ (step.tree ts target).leafBindings ↔ step.Binds b ∨ ∃ t ∈ ts, b ∈ t.leafBindings := by
  have hlen := hlen.trans h.arity
  by_cases hrule : step.rule = .input
  · obtain ⟨leaf, hleaf, rfl⟩ := h.leaf hrule
    rw [hrule] at hlen
    obtain rfl := List.length_eq_zero_iff.mp hlen
    have hown : step.Binds b ↔ (leaf.population, some leaf.regime) = b := by
      unfold MixedStep.Binds
      simp [hleaf]
    rw [hown]
    simp [MixedStep.tree, hrule, hleaf, ExprTree.leafBindings, ExprTree.leaves, eq_comm]
  · have hown : ¬ step.Binds b := by
      rintro ⟨leaf, hleaf, -⟩
      rw [h.source hrule] at hleaf
      cases hleaf
    by_cases hprod : step.rule = .product
    · rw [hprod] at hlen
      obtain ⟨t, t', rfl⟩ := List.length_eq_two.mp hlen
      simp [MixedStep.tree, hprod, hown, ExprTree.leafBindings, ExprTree.leaves,
        ExprTree.leavesList]
    · obtain ⟨t, rfl⟩ : ∃ t, ts = [t] := by
        refine List.length_eq_one_iff.mp (hlen.trans ?_)
        revert hrule hprod
        cases step.rule <;> simp [MixedStep.arity]
      revert hrule hprod
      unfold MixedStep.tree
      cases step.rule <;> simp [hown, ExprTree.leafBindings, ExprTree.leaves]

def premisesAt (steps : List MixedStep) (i : Nat) : List Nat :=
  (steps[i]?.map (·.premises)).getD []

/-- **The leaves of a step's expression** are the input steps the step rests on. -/
theorem mem_leafBindings
    (hp : ∀ (i : Nat) (s : MixedStep), steps[i]? = some s → StepPlaced target st i s) :
    ∀ i < steps.length, (b ∈ (st.arena.view (st.expressions.getD i 0)).leafBindings ↔
      ∃ j s, Reach (premisesAt steps) i j ∧ steps[j]? = some s ∧ s.Binds b) := by
  intro i
  induction i using Nat.strong_induction_on with
  | _ i ih =>
    intro hi
    have hs : steps[i]? = some steps[i] := List.getElem?_eq_getElem hi
    have hat : premisesAt steps i = steps[i].premises := by simp [premisesAt, hs]
    have hplaced := hp i _ hs
    rw [hplaced.tree, hplaced.mem_tree (List.length_map _)]
    constructor
    · rintro (hb | ⟨t, ht, hb⟩)
      · exact ⟨i, _, .refl, hs, hb⟩
      · obtain ⟨p, hpm, rfl⟩ := List.mem_map.mp ht
        have hlt := hplaced.premises p hpm
        obtain ⟨j, s, hr, hj, hb⟩ := (ih p hlt (hlt.trans hi)).mp hb
        exact ⟨j, s, .head (hat ▸ hpm) hr, hj, hb⟩
    · rintro ⟨j, s, hr, hj, hb⟩
      rcases Relation.ReflTransGen.cases_head hr with rfl | ⟨p, hpm, hr⟩
      · obtain rfl := Option.some.inj (hs.symm.trans hj)
        exact Or.inl hb
      · rw [hat] at hpm
        have hlt := hplaced.premises p hpm
        exact Or.inr ⟨_, List.mem_map_of_mem hpm,
          (ih p hlt (hlt.trans hi)).mpr ⟨j, s, hr, hj, hb⟩⟩

/-- **The shared expression layer accepts what the replay accepts.** -/
theorem layer_ok (hr : ReplayOk c n target steps st)
    (hp : ∀ (i : Nat) (s : MixedStep), steps[i]? = some s → StepPlaced target st i s) (hne : steps ≠ []) :
    checkWithSharedExpressionLayer st.arena steps st.expressions = .ok () := by
  have hpos : 0 < steps.length := List.length_pos_iff.mpr hne
  have hlast : st.expressions.getLast? = some (st.expressions.getD (steps.length - 1) 0) := by
    have hlt : steps.length - 1 < st.expressions.length := by
      rw [hr.len_e]
      omega
    rw [List.getLast?_eq_getElem?, hr.len_e, List.getD_eq_getElem _ _ hlt,
      List.getElem?_eq_getElem hlt]
  have hbound : Bounded (premisesAt steps) [steps.length - 1] (Finset.range steps.length) := by
    refine ⟨fun s hs => ?_, fun u hu p hpm => ?_⟩
    · rw [List.mem_singleton.mp hs, Finset.mem_range]
      omega
    · have hget : steps[u]? = some (steps.get ⟨u, Finset.mem_range.mp hu⟩) :=
        List.getElem?_eq_getElem _
      have hpm : p ∈ (steps.get ⟨u, Finset.mem_range.mp hu⟩).premises := by
        simpa [premisesAt, hget] using hpm
      exact Finset.mem_range.mpr (((hp u _ hget).premises p hpm).trans (Finset.mem_range.mp hu))
  have hreached : ∀ j, j ∈ reachedSteps steps ↔
      Reach (premisesAt steps) (steps.length - 1) j := fun j => by
    have hcard : (Finset.range steps.length).card < steps.length + 1 := by
      rw [Finset.card_range]
      omega
    refine (mem_closure hbound hcard).trans ?_
    simp
  have hbinds : ((st.arena.view (st.expressions.getD (steps.length - 1) 0)).bindCertificate
      (expectedBindings steps)) = true := by
    unfold ExprTree.bindCertificate
    rw [decide_eq_true_iff]
    ext b
    rw [mem_leafBindings hp _ (by omega), List.mem_toFinset]
    unfold expectedBindings
    simp only [List.mem_filterMap, List.mem_filter, List.mem_range, decide_eq_true_eq, hreached,
      Option.map_eq_some_iff, Option.bind_eq_some_iff]
    constructor
    · rintro ⟨j, s, hreach, hj, leaf, hleaf, hb⟩
      exact ⟨j, ⟨(List.getElem?_eq_some_iff.mp hj).1, hreach⟩, leaf, ⟨s, hj, hleaf⟩, hb⟩
    · rintro ⟨j, ⟨-, hreach⟩, leaf, ⟨s, hj, hleaf⟩, hb⟩
      exact ⟨j, s, hreach, hj, leaf, hleaf, hb⟩
  unfold checkWithSharedExpressionLayer
  rw [hlast]
  simp only
  rw [if_neg (Nat.not_le.mpr (hr.lt _ (List.mem_of_getLast? hlast))), if_pos hbinds]

end Run

end Antecedent.Identify
