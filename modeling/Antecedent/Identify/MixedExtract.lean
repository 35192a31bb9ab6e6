import Antecedent.Identify.MixedClosure

/-!
# The proofs the mixed-source search hands out

Model of `extract` (`search.rs:417-477`), which turns a step of the engine's table, or an alternative
to it, into a list of portable steps: the premises it rests on, renumbered in order, with their
expressions built in a fresh arena. The checker replays such a list one step after another, and the
invariant `Extracted` carries both along.

* **`extract_accepted`**: the extracted list passes the checker, unless an input of the pass
  intervenes on more variables than the checker admits, or two nodes share a variable.
-/

namespace Antecedent.Identify

open Core
open Expr
open Graph
open Worklist

instance : Inhabited MixedInput := ⟨⟨0, "", [], [], "", none, []⟩⟩

namespace Engine

/-! ## Extraction -/

/-- Lines 166-170. -/
def variablesOf (e : Engine) (mask : Finset Nat) : List Nat :=
  sorted ((members mask).map fun i => e.vars.getD i 0)

/-- The steps `last` rests on. -/
def needed (e : Engine) (last : Raw) : Finset Nat :=
  closure (fun i => (e.step i).premises) (e.steps.length + 1) last.premises

/-- Those steps in table order; a step's new number is its position here. -/
def order (e : Engine) (last : Raw) : List Nat :=
  (List.range e.steps.length).filter (· ∈ e.needed last)

def leafOf (e : Engine) (catalog : EvidenceCatalog) (raw : Raw) :
    Except IdentificationError (Option MixedSourceLeaf) :=
  match raw.input with
  | none => .ok none
  | some index =>
    let input := e.inputs.getD index default
    match catalog.distribution input.regime with
    | none => .error invalidDerivation
    | some d => .ok (some ⟨input.regime, input.study, d.population, input.snapshot, input.identity⟩)

/-- One turn of the loop of `extract` (`search.rs:437-475`). -/
def extractStep (e : Engine) (catalog : EvidenceCatalog) (target : String) (order : List Nat)
    (acc : List MixedStep × CausalExprArena) (raw : Raw) :
    Except IdentificationError (List MixedStep × CausalExprArena) :=
  if ∃ p ∈ raw.premises, p ∉ order then .error invalidDerivation
  else do
    let source ← e.leafOf catalog raw
    let step : MixedStep := ⟨raw.rule, raw.premises.map fun p => order.idxOf p,
      e.variablesOf raw.params, e.variablesOf raw.y, e.variablesOf raw.d, e.variablesOf raw.z,
      source, raw.relaxed, 0⟩
    let (arena, expression) ← step.buildExpression acc.2
      (step.premises.map fun p => (acc.1.map (·.expression)).getD p 0) target
    .ok (acc.1 ++ [{ step with expression := expression }], arena)

/-- Lines 417-477. -/
def extract (e : Engine) (last : Raw) (catalog : EvidenceCatalog) (target : String) :
    Except IdentificationError (List MixedStep × CausalExprArena) :=
  ((e.order last).map e.step ++ [last]).foldlM (e.extractStep catalog target (e.order last))
    ([], .new)

/-! ## Masks and lists of variables -/

variable {c : Checker} {inputs : List MixedInput} {e : Engine}

theorem nodup_members (mask : Finset Nat) : (members mask).Nodup := List.nodup_range.filter _

variable {mask : Finset Nat} {steps : List Raw} {raw : Raw}

theorem toFinset_members (h : ∀ v ∈ mask, v < maskBits) :
    (members mask).toFinset = mask :=
  Finset.ext fun v => by rw [List.mem_toFinset, mem_members h]

theorem variablesOf_setOf (hnodup : c.vars.Nodup) (hvars : e.vars = c.vars)
    (hsmall : c.vars.length ≤ maskBits) (h : ∀ i ∈ mask, i < c.vars.length) :
    SetOf c (e.variablesOf mask) mask := by
  have hbits : ∀ v ∈ mask, v < maskBits := fun v hv => lt_of_lt_of_le (h v hv) hsmall
  have hget : ∀ i ∈ mask, c.vars.getD i 0 ∈ c.vars ∧ c.vars.idxOf (c.vars.getD i 0) = i :=
    fun i hi => by
      rw [List.getD_eq_getElem _ _ (h i hi)]
      exact ⟨List.getElem_mem _, hnodup.idxOf_getElem i (h i hi)⟩
  have hmem : ∀ v, v ∈ e.variablesOf mask ↔ ∃ i ∈ mask, c.vars.getD i 0 = v := fun v => by
    unfold variablesOf
    rw [mem_sorted, List.mem_map, hvars]
    simp only [mem_members hbits]
  refine ⟨fun v hv => ?_, fun i => ?_, ?_⟩
  · obtain ⟨i, hi, rfl⟩ := (hmem v).mp hv
    exact (hget i hi).1
  · constructor
    · exact fun hi => ⟨_, (hmem _).mpr ⟨i, hi, rfl⟩, (hget i hi).2⟩
    · rintro ⟨v, hv, rfl⟩
      obtain ⟨j, hj, rfl⟩ := (hmem v).mp hv
      rw [(hget j hj).2]
      exact hj
  · unfold variablesOf sorted
    rw [List.length_insertionSort, List.length_map,
      ← List.toFinset_card_of_nodup (nodup_members mask), toFinset_members hbits]

/-- A list without repetition has as many positions as entries. -/
theorem setOf_maskOf {vs : List Nat} {s : Finset Nat} (h : maskOf c.vars vs = .ok s)
    (hvs : vs.Nodup) : SetOf c vs s := by
  obtain ⟨hk, rfl⟩ := maskOf_ok.mp h
  refine ⟨hk, fun i => by rw [List.mem_toFinset, List.mem_map], ?_⟩
  have hinj : (vs.map fun v => c.vars.idxOf v).Nodup :=
    hvs.map_on fun u hu w _ he => (List.idxOf_inj (hk u hu)).mp he
  rw [List.toFinset_card_of_nodup hinj, List.length_map]

/-! ## The steps a proof needs -/

theorem RawOk.premises_lt (h : RawOk c inputs steps raw) :
    ∀ p ∈ raw.premises, p < steps.length := by
  intro p hp
  by_cases hrule : raw.rule = .input
  · rw [(h.input hrule).1] at hp
    exact absurd hp List.not_mem_nil
  · obtain ⟨-, -, ps, hps, -⟩ := h.derived hrule
    have hm : (steps[p]?.map Raw.key) ∈ ps.map some := hps ▸ List.mem_map_of_mem hp
    obtain ⟨k, -, hk⟩ := List.mem_map.mp hm
    obtain ⟨r, hr, -⟩ := Option.map_eq_some_iff.mp hk.symm
    exact (List.getElem?_eq_some_iff.mp hr).1

theorem EngineOk.premises_lt (h : EngineOk c inputs e) {i : Nat} (hi : i < e.steps.length) :
    ∀ p ∈ (e.step i).premises, p < i := by
  have hget : e.steps[i]? = some (e.steps.get ⟨i, hi⟩) := List.getElem?_eq_getElem hi
  rw [step_of_get hget]
  intro p hp
  have hlt := (h.steps i _ hget).premises_lt p hp
  rw [List.length_take] at hlt
  exact lt_of_lt_of_le hlt (min_le_left _ _)

section Order

variable {last : Raw}

variable {i : Nat}

/-- The needed steps are those `last` reaches. -/
theorem mem_needed (h : EngineOk c inputs e) (hlast : ∀ p ∈ last.premises, p < e.steps.length)
    : i ∈ e.needed last ↔
      ∃ p ∈ last.premises, Reach (fun i => (e.step i).premises) p i := by
  have hbound : Bounded (fun i => (e.step i).premises) last.premises
      (Finset.range e.steps.length) :=
    ⟨fun s hs => Finset.mem_range.mpr (hlast s hs), fun u hu w hw =>
      Finset.mem_range.mpr ((h.premises_lt (Finset.mem_range.mp hu) w hw).trans
        (Finset.mem_range.mp hu))⟩
  exact mem_closure hbound (by rw [Finset.card_range]; omega)

theorem mem_order : i ∈ e.order last ↔ i < e.steps.length ∧ i ∈ e.needed last := by
  unfold order
  rw [List.mem_filter, List.mem_range, decide_eq_true_iff]

theorem order_sorted : (e.order last).Pairwise (· < ·) := List.pairwise_lt_range.filter _

/-- The premises of `last` are in order, and so are those of every step in order. -/
theorem order_closed (h : EngineOk c inputs e)
    (hlast : ∀ p ∈ last.premises, p < e.steps.length) :
    (∀ p ∈ last.premises, p ∈ e.order last) ∧
      ∀ i ∈ e.order last, ∀ p ∈ (e.step i).premises, p ∈ e.order last := by
  refine ⟨fun p hp => mem_order.mpr ⟨hlast p hp, (mem_needed h hlast).mpr ⟨p, hp, .refl⟩⟩,
    fun i hi p hp => ?_⟩
  obtain ⟨hlt, hn⟩ := mem_order.mp hi
  obtain ⟨s, hs, hr⟩ := (mem_needed h hlast).mp hn
  exact mem_order.mpr ⟨(h.premises_lt hlt p hp).trans hlt,
    (mem_needed h hlast).mpr ⟨s, hs, hr.tail hp⟩⟩

/-- What a list of table steps in order ends with. -/
structure InOrder (c : Checker) (inputs : List MixedInput) (e : Engine) (order : List Nat)
    (k : Nat) (raw : Raw) : Prop where
  ok : RawOk c inputs e.steps raw
  premises : ∀ p ∈ raw.premises, p ∈ order ∧ order.idxOf p < k

/-- **Every step of the list to extract rests on earlier ones.** -/
theorem inOrder (h : EngineOk c inputs e) (hlast : RawOk c inputs e.steps last) {k : Nat}
    (hk : ((e.order last).map e.step ++ [last])[k]? = some raw) :
    InOrder c inputs e (e.order last) k raw := by
  obtain ⟨hl, hclosed⟩ := order_closed h hlast.premises_lt
  rcases getElem?_snoc hk with hk | ⟨rfl, rfl⟩
  · rw [List.getElem?_map] at hk
    obtain ⟨i, hi, rfl⟩ := Option.map_eq_some_iff.mp hk
    obtain ⟨hlt, rfl⟩ := List.getElem?_eq_some_iff.mp hi
    have him := List.getElem_mem hlt
    have hilt := (mem_order.mp him).1
    refine ⟨?_, fun p hp => ?_⟩
    · have hget : e.steps[(e.order last)[k]]? = some (e.steps.get ⟨(e.order last)[k], hilt⟩) :=
        List.getElem?_eq_getElem hilt
      rw [step_of_get hget]
      exact h.step_ok hget
    · have hpm := hclosed _ him p hp
      refine ⟨hpm, ?_⟩
      -- the order is ascending, and a premise comes before the step
      have hidx := List.idxOf_lt_length_iff.mpr hpm
      have hpget : (e.order last)[(e.order last).idxOf p] = p := List.getElem_idxOf hidx
      by_contra hle
      have hle : k ≤ (e.order last).idxOf p := Nat.not_lt.mp hle
      have hplt := h.premises_lt hilt p hp
      rcases Nat.lt_or_eq_of_le hle with hgt | heq
      · have hsorted : (e.order last).Pairwise (· < ·) := order_sorted
        have hord := List.pairwise_iff_getElem.mp hsorted k _ hlt hidx hgt
        rw [hpget] at hord
        exact absurd (hord.trans hplt) (Nat.lt_irrefl _)
      · simp only [← heq] at hpget
        rw [hpget] at hplt
        exact absurd hplt (Nat.lt_irrefl _)
  · refine ⟨hlast, fun p hp => ⟨hl p hp, ?_⟩⟩
    rw [List.length_map]
    exact List.idxOf_lt_length_iff.mpr (hl p hp)

end Order

/-! ## The bound on actions -/

theorem d_subset_of_stepHolds {rule : MixedRule} {w : Finset Nat} {ps : List Quantity}
    {q : Quantity} (hacts : rule.acts = false) (h : StepHolds c rule w ps q) :
    ∃ p ∈ ps, q.d ⊆ p.d := by
  unfold StepHolds unaryRuleHolds at h
  rcases ps with _ | ⟨p, _ | ⟨p', _ | ⟨p'', ps⟩⟩⟩ <;> cases rule <;> try exact h.elim
  case cons.nil.marginalize => exact ⟨p, List.mem_cons_self, h.2.2.2.1.ge⟩
  case cons.nil.condition => exact ⟨p, List.mem_cons_self, h.2.2.2.1.ge⟩
  case cons.cons.nil.product => exact ⟨p, List.mem_cons_self, h.2.2.1.ge⟩
  case cons.nil.rule2ToDo => cases hacts
  case cons.nil.rule3Insert => cases hacts
  case cons.nil.rule1Insert =>
    simp only at h
    split_ifs at h
    exact ⟨p, List.mem_cons_self, (of_decide_eq_true h).2.1.ge⟩
  case cons.nil.rule2ToObservation =>
    simp only at h
    split_ifs at h
    refine ⟨p, List.mem_cons_self, ?_⟩
    rw [(of_decide_eq_true h).2.1]
    exact Finset.sdiff_subset

/-- No rule the search applies exceeds the bound, so only an input can. -/
theorem RawOk.d_card (h : RawOk c inputs steps raw)
    (hin : ∀ input ∈ inputs, input.intervened.length ≤ mixedSourceMaxDo)
    (hst : ∀ s ∈ steps, s.d.card ≤ mixedSourceMaxDo) : raw.d.card ≤ mixedSourceMaxDo := by
  by_cases hrule : raw.rule = .input
  · obtain ⟨-, -, -, k, input, -, hk, -, hd, -⟩ := h.input hrule
    obtain ⟨-, hd⟩ := maskOf_ok.mp hd
    rw [← hd]
    refine (List.toFinset_card_le _).trans ?_
    rw [List.length_map]
    exact hin input (List.mem_of_getElem? hk)
  · obtain ⟨-, -, ps, hps, hholds⟩ := h.derived hrule
    have hbound : ∀ p ∈ ps, p.d.card ≤ mixedSourceMaxDo := fun p hp => by
      have hm : some p ∈ raw.premises.map fun i => steps[i]?.map Raw.key :=
        hps ▸ List.mem_map_of_mem hp
      obtain ⟨i, -, hi⟩ := List.mem_map.mp hm
      obtain ⟨r, hr, rfl⟩ := Option.map_eq_some_iff.mp hi
      exact hst r (List.mem_of_getElem? hr)
    -- the actions of the conclusion are among those of a premise, or the rule checks the bound
    by_cases hacts : raw.rule.acts = true
    · exact h.d_le hacts
    · rw [Bool.not_eq_true] at hacts
      obtain ⟨p, hp, hsub⟩ := d_subset_of_stepHolds hacts hholds
      exact (Finset.card_le_card hsub).trans (hbound p hp)

theorem EngineOk.d_card (h : EngineOk c inputs e)
    (hin : ∀ input ∈ inputs, input.intervened.length ≤ mixedSourceMaxDo) :
    ∀ (i : Nat) (raw : Raw), e.steps[i]? = some raw → raw.d.card ≤ mixedSourceMaxDo := by
  intro i
  induction i using Nat.strong_induction_on with
  | _ i ih =>
    intro raw hi
    refine (h.steps i raw hi).d_card hin fun s hs => ?_
    obtain ⟨j, hj⟩ := List.getElem?_of_mem hs
    rw [List.getElem?_take] at hj
    split_ifs at hj with hlt
    exact ih j hlt s hj

end Engine

/-! ## The variables an expression leaves free -/

/-- An expression leaves variables of its quantity free only. -/
def Inside (c : Checker) (q : Quantity) (t : ExprTree) : Prop :=
  ∀ x ∈ t.freeVariables, x ∈ c.vars ∧ c.vars.idxOf x ∈ q.y ∪ q.d ∪ q.z

section Inside

variable {c : Checker} {step : MixedStep} {q p : Quantity} {w : Finset Nat} {target : String}

variable {rule : MixedRule} {ps : List Quantity}

theorem length_of_stepHolds (h : StepHolds c rule w ps q) : ps.length = MixedStep.arity rule := by
  unfold StepHolds at h
  rcases ps with _ | ⟨a, _ | ⟨b, _ | ⟨k, ps⟩⟩⟩ <;> cases rule <;> first | rfl | exact h.elim

/-- The unary rules lose nothing of a quantity, marginalization apart. -/
theorem members_subset_of_stepHolds (hrule : rule ≠ .marginalize)
    (h : StepHolds c rule w [p] q) : p.y ∪ p.d ∪ p.z ⊆ q.y ∪ q.d ∪ q.z := by
  unfold StepHolds unaryRuleHolds at h
  intro i hi
  cases rule
  case marginalize => exact absurd rfl hrule
  case condition =>
    obtain ⟨-, -, hy, hd, hz⟩ := h
    rw [← hy, hd] at hi
    rw [hz]
    simp only [Finset.mem_union] at hi ⊢
    tauto
  case rule1Insert =>
    simp only at h
    split_ifs at h with hy
    obtain ⟨-, hd, hz, -⟩ := of_decide_eq_true h
    rw [not_or, not_not] at hy
    rw [hy.2, hd] at hi
    rw [hz]
    simp only [Finset.mem_union] at hi ⊢
    tauto
  case rule2ToDo =>
    simp only at h
    split_ifs at h with hy
    obtain ⟨-, hd, hz, -⟩ := of_decide_eq_true h
    rw [not_or, not_not] at hy
    rw [hy.2] at hi
    rw [hd, hz]
    simp only [Finset.mem_union, Finset.mem_sdiff] at hi ⊢
    tauto
  case rule2ToObservation =>
    simp only at h
    split_ifs at h with hy
    obtain ⟨-, hd, hz, -⟩ := of_decide_eq_true h
    rw [not_or, not_not] at hy
    rw [hy.2] at hi
    rw [hd, hz]
    simp only [Finset.mem_union, Finset.mem_sdiff] at hi ⊢
    tauto
  case rule3Insert =>
    simp only at h
    split_ifs at h with hy
    obtain ⟨-, hd, hz, -⟩ := of_decide_eq_true h
    rw [not_or, not_not] at hy
    rw [hy.2] at hi
    rw [hd, hz]
    simp only [Finset.mem_union] at hi ⊢
    tauto
  all_goals exact h.elim

/-- **An expression built for a step stays inside the step's quantity** when those of the premises
stay inside theirs. -/
theorem tree_inside {ts : List ExprTree} (hy : SetOf c step.y q.y)
    (hd : SetOf c step.intervened q.d) (hw : SetOf c step.params w)
    (hholds : step.rule ≠ .input → StepHolds c step.rule w ps q)
    (hts : List.Forall₂ (Inside c) ps ts) : Inside c q (step.tree ts target) := by
  intro x hx
  by_cases hrule : step.rule = .input
  · have hx : x ∈ step.y ∨ x ∈ step.intervened := by
      rw [MixedStep.tree, hrule] at hx
      simpa using (ExprTree.mem_freeVariables_symbolic rfl).mp hx
    rcases hx with hx | hx
    · exact ⟨hy.known x hx, Finset.mem_union_left _ (Finset.mem_union_left _ (hy.mem_iff.mpr hx))⟩
    · exact ⟨hd.known x hx, Finset.mem_union_left _ (Finset.mem_union_right _ (hd.mem_iff.mpr hx))⟩
  have hholds := hholds hrule
  by_cases hprod : step.rule = .product
  · rw [hprod] at hholds
    obtain ⟨a, b, rfl⟩ := List.length_eq_two.mp (length_of_stepHolds hholds)
    obtain ⟨ta, us, ha, hus, rfl⟩ := List.forall₂_cons_left_iff.mp hts
    obtain ⟨tb, vs, hb, -, rfl⟩ := List.forall₂_cons_left_iff.mp hus
    have hx : x ∈ ta.freeVariables ∨ x ∈ tb.freeVariables := by
      simpa [MixedStep.tree, hprod, ExprTree.freeVariables, ExprTree.freeVariablesList] using hx
    obtain ⟨-, hd1, hd2, hz, -, hz', hqy⟩ := hholds
    rcases hx with hx | hx
    · obtain ⟨hk, hm⟩ := ha x hx
      refine ⟨hk, ?_⟩
      rw [hd2, hz, hz'] at hm
      rw [hqy]
      simp only [Finset.mem_union] at hm ⊢
      tauto
    · obtain ⟨hk, hm⟩ := hb x hx
      refine ⟨hk, ?_⟩
      rw [← hd1, hd2, hz'] at hm
      rw [hqy]
      simp only [Finset.mem_union] at hm ⊢
      tauto
  -- the unary rules
  have harity : MixedStep.arity step.rule = 1 := by
    revert hrule hprod
    cases step.rule <;> simp [MixedStep.arity]
  obtain ⟨p, rfl⟩ := List.length_eq_one_iff.mp ((length_of_stepHolds hholds).trans harity)
  obtain ⟨t, us, ht, -, rfl⟩ := List.forall₂_cons_left_iff.mp hts
  by_cases hmarg : step.rule = .marginalize
  · rw [hmarg] at hholds
    obtain ⟨-, -, hpy, hpd, hpz⟩ := hholds
    have hx : x ∈ t.freeVariables ∧ x ∉ step.params := by
      simpa [MixedStep.tree, hmarg, ExprTree.freeVariables] using hx
    obtain ⟨hk, hm⟩ := ht x hx.1
    have hnw : c.vars.idxOf x ∉ w := fun hi => hx.2 (hw.mem_iff.mp hi)
    refine ⟨hk, ?_⟩
    rw [← hpy, hpd, hpz] at hm
    simp only [Finset.mem_union] at hm ⊢
    tauto
  · have hx : x ∈ t.freeVariables := by
      revert hx hmarg hprod hrule
      unfold MixedStep.tree
      cases step.rule <;> (simp [ExprTree.freeVariables]; try tauto)
    obtain ⟨hk, hm⟩ := ht x hx
    exact ⟨hk, members_subset_of_stepHolds hmarg hholds hm⟩

end Inside

/-! ## Searched rules and the checker's rules -/

section Holds

variable {c : Checker} {v : ValidatedMixedSourceQuery} {target : String} {allowRelaxed : Bool}
  {st : Replay} {step : MixedStep} {q : Quantity} {w : Finset Nat}

theorem ruleHolds_of_stepHolds
    (h : StepHolds c step.rule w (step.premises.map st.quantity) q) :
    ruleHolds c v target allowRelaxed st step q w = .ok true := by
  obtain ⟨rule, premises, params, y, d, z, source, relaxed, expression⟩ := step
  unfold StepHolds at h
  rcases premises with _ | ⟨i, _ | ⟨j, _ | ⟨k, premises⟩⟩⟩ <;> cases rule <;> try exact h.elim
  case cons.nil.marginalize => exact congrArg Except.ok (decide_eq_true h)
  case cons.nil.condition => exact congrArg Except.ok (decide_eq_true h)
  case cons.cons.nil.product => exact congrArg Except.ok (decide_eq_true h.2)
  case cons.nil.rule1Insert => exact congrArg Except.ok (unaryRuleHolds_free rfl h)
  case cons.nil.rule2ToDo => exact congrArg Except.ok (unaryRuleHolds_free rfl h)
  case cons.nil.rule2ToObservation => exact congrArg Except.ok (unaryRuleHolds_free rfl h)
  case cons.nil.rule3Insert => exact congrArg Except.ok (unaryRuleHolds_free rfl h)

end Holds

theorem MixedStep.buildExpression_ok {step : MixedStep} (arena : CausalExprArena)
    (premises : List Nat) (target : String) (h : step.rule = .input → step.source.isSome = true) :
    ∃ r, step.buildExpression arena premises target = .ok r := by
  unfold buildExpression
  cases hrule : step.rule with
  | input =>
    obtain ⟨leaf, hleaf⟩ := Option.isSome_iff_exists.mp (h hrule)
    rw [hleaf]
    simp only [CausalExprArena.emptyVarSet, CausalExprArena.internDistributionTagged,
      Option.isSome_some, ne_eq, not_true_eq_false, and_false, if_false]
    exact ⟨_, rfl⟩
  | _ => exact ⟨_, rfl⟩

/-! ## The run of the extraction -/

/-- What the checker finds under the regime of an input. -/
structure Citable (v : ValidatedMixedSourceQuery) (catalog : EvidenceCatalog) (target : String)
    (allowRelaxed : Bool) (input : MixedInput) : Prop where
  distribution : ∃ d, catalog.distribution input.regime = some d ∧ d.population = target
  cited : v.cited input.regime = some input
  measured : input.measured.Nodup
  intervened : input.intervened.Nodup
  relaxed : allowRelaxed = true ∨ input.marginals = []

namespace Engine

section Run

variable {graph : Admg} {c : Checker} {v : ValidatedMixedSourceQuery} {catalog : EvidenceCatalog}
  {target : String} {allowRelaxed : Bool} {inputs : List MixedInput} {e : Engine}
  {order : List Nat} {done : List Raw} {raw : Raw} {acc : List MixedStep × CausalExprArena}

def replayOf (done : List Raw) (acc : List MixedStep × CausalExprArena) : Replay :=
  ⟨acc.2, done.map Raw.key, acc.1.map (·.expression)⟩

/-- What the extraction has built from the steps `done`: the checker accepts it so far. -/
structure Extracted (graph : Admg) (c : Checker) (v : ValidatedMixedSourceQuery) (target : String)
    (allowRelaxed : Bool) (done : List Raw) (acc : List MixedStep × CausalExprArena) : Prop where
  replay : ∀ stored : Option CausalExprArena,
    acc.1.foldlM (checkStep c v target stored allowRelaxed) ⟨.new, [], []⟩ =
      .ok (replayOf done acc)
  ok : ReplayOk c graph.nodeCount target acc.1 (replayOf done acc)
  placed : ∀ (i : Nat) (s : MixedStep), acc.1[i]? = some s → StepPlaced target (replayOf done acc) i s
  inside : ∀ (i : Nat) (raw : Raw), done[i]? = some raw →
    Inside c raw.key (acc.2.view ((replayOf done acc).expressions.getD i 0))

theorem extracted_nil : Extracted graph c v target allowRelaxed [] ([], .new) :=
  ⟨fun _ => rfl, replayOk_new, fun _ _ h => (by cases h), fun _ _ h => (by cases h)⟩

/-- What the steps in place of the premises are. -/
structure Ready (e : Engine) (order : List Nat) (done : List Raw) (raw : Raw) : Prop where
  mem : ∀ p ∈ raw.premises, p ∈ order
  get : ∀ p ∈ raw.premises, done[order.idxOf p]? = some (e.step p)

theorem Ready.premises (h : Ready e order done raw) (hraw : RawOk c inputs e.steps raw)
    {ps : List Quantity} (hps : (raw.premises.map fun i => e.steps[i]?.map Raw.key) = ps.map some) :
    (raw.premises.map fun p => order.idxOf p).map (replayOf done acc).quantity = ps := by
  have hinj : Function.Injective (List.map (some : Quantity → Option Quantity)) :=
    List.map_injective_iff.mpr (Option.some_injective _)
  refine hinj ?_
  rw [← hps, List.map_map, List.map_map]
  refine List.map_congr_left fun p hp => ?_
  have hlt := hraw.premises_lt p hp
  have hget : e.steps[p]? = some (e.steps.get ⟨p, hlt⟩) := List.getElem?_eq_getElem hlt
  have hdone := h.get p hp
  rw [step_of_get hget] at hdone
  simp only [Function.comp_apply, replayOf, Replay.quantity, List.getD_eq_getElem?_getD,
    List.getElem?_map, hdone, hget, Option.map_some, Option.getD_some]

theorem leafOf_spec (hinputs : e.inputs = inputs)
    (hcite : ∀ input ∈ inputs, Citable v catalog target allowRelaxed input)
    (hraw : RawOk c inputs e.steps raw) : ∃ source, e.leafOf catalog raw = .ok source ∧
      (raw.rule ≠ .input → source = none) ∧ (raw.rule = .input →
        ∃ input ∈ inputs, maskOf c.vars input.measured = .ok raw.y ∧
          maskOf c.vars input.intervened = .ok raw.d ∧ raw.relaxed = !input.marginals.isEmpty ∧
          source = some ⟨input.regime, input.study, target, input.snapshot, input.identity⟩) := by
  unfold leafOf
  by_cases hrule : raw.rule = .input
  · obtain ⟨-, -, -, k, input, hk, hget, hy, hd, hrel⟩ := hraw.input hrule
    have hmem := List.mem_of_getElem? hget
    obtain ⟨d, hdist, rfl⟩ := (hcite input hmem).distribution
    have hin : e.inputs.getD k default = input := by
      rw [hinputs, List.getD_eq_getElem?_getD, hget, Option.getD_some]
    rw [hk]
    simp only [hin, hdist]
    exact ⟨_, rfl, fun h => absurd hrule h, fun _ => ⟨input, hmem, hy, hd, hrel, rfl⟩⟩
  · rw [(hraw.derived hrule).1]
    exact ⟨none, rfl, fun _ => rfl, fun h => absurd h hrule⟩

theorem Ready.inside (h : Ready e order done raw)
    (hx : Extracted graph c v target allowRelaxed done acc) :
    List.Forall₂ (Inside c)
      ((raw.premises.map fun p => order.idxOf p).map (replayOf done acc).quantity)
      ((raw.premises.map fun p => order.idxOf p).map fun p =>
        acc.2.view ((replayOf done acc).expressions.getD p 0)) := by
  rw [List.forall₂_map_left_iff, List.forall₂_map_right_iff, List.forall₂_same]
  intro k hk
  obtain ⟨p, hp, rfl⟩ := List.mem_map.mp hk
  have hdone := h.get p hp
  have hq : (replayOf done acc).quantity (order.idxOf p) = (e.step p).key := by
    simp only [replayOf, Replay.quantity, List.getD_eq_getElem?_getD, List.getElem?_map, hdone,
      Option.map_some, Option.getD_some]
  rw [hq]
  exact hx.inside _ _ hdone

theorem inputStep_holds {st : Replay} {step : MixedStep} (hrule : step.rule = .input)
    (hpremises : step.premises = []) {y d : Finset Nat} {input : MixedInput}
    (hcite : Citable v catalog target allowRelaxed input)
    (hy : maskOf c.vars input.measured = .ok y) (hd : maskOf c.vars input.intervened = .ok d)
    (hrelaxed : step.relaxed = !input.marginals.isEmpty)
    (hsource : step.source =
      some ⟨input.regime, input.study, target, input.snapshot, input.identity⟩) :
    ruleHolds c v target allowRelaxed st step ⟨y, d, ∅⟩ ∅ = .ok true := by
  have hnone : allowRelaxed = true ∨ (!input.marginals.isEmpty) = false := by
    rcases hcite.relaxed with h | h
    · exact Or.inl h
    · rw [h]
      exact Or.inr rfl
  unfold ruleHolds
  rw [hrule, hpremises]
  simp only [inputHolds, hsource, hcite.cited]
  rw [Checker.set_ok.mpr (setOf_maskOf hy hcite.measured),
    Checker.set_ok.mpr (setOf_maskOf hd hcite.intervened)]
  refine congrArg Except.ok (decide_eq_true ?_)
  exact ⟨rfl, rfl, trivial, trivial, trivial, trivial, trivial, trivial, hrelaxed, hnone⟩

/-- **One portable step**: it is built, and the checker accepts it. -/
theorem extractStep_spec (hc : c.Reads graph) (hok : EngineOk c inputs e)
    (hnodup : c.vars.Nodup) (hinputs : e.inputs = inputs)
    (hcite : ∀ input ∈ inputs, Citable v catalog target allowRelaxed input)
    (hx : Extracted graph c v target allowRelaxed done acc)
    (hraw : RawOk c inputs e.steps raw) (hd : raw.d.card ≤ mixedSourceMaxDo)
    (hready : Ready e order done raw) :
    ∃ acc', e.extractStep catalog target order acc raw = .ok acc' ∧
      Extracted graph c v target allowRelaxed (done ++ [raw]) acc' := by
  obtain ⟨source, hsource, hnone, hinput⟩ := leafOf_spec hinputs hcite hraw
  have hset := fun {s : Finset Nat} (hs : ∀ i ∈ s, i < c.vars.length) =>
    variablesOf_setOf hnodup hok.vars hok.small hs
  let step : MixedStep := ⟨raw.rule, raw.premises.map fun p => order.idxOf p,
    e.variablesOf raw.params, e.variablesOf raw.y, e.variablesOf raw.d, e.variablesOf raw.z,
    source, raw.relaxed, 0⟩
  have hsome : step.rule = .input → step.source.isSome = true := fun hrule => by
    obtain ⟨input, -, -, -, -, hs⟩ := hinput hrule
    exact Option.isSome_iff_exists.mpr ⟨_, hs⟩
  obtain ⟨⟨arena, expression⟩, hbuilt⟩ := step.buildExpression_ok acc.2
    (step.premises.map fun p => (acc.1.map (·.expression)).getD p 0) target hsome
  let step' : MixedStep := { step with expression := expression }
  have hstep : e.extractStep catalog target order acc raw = .ok (acc.1 ++ [step'], arena) := by
    unfold extractStep
    rw [if_neg (by simpa using hready.mem), hsource]
    simp only [bind, Except.bind]
    rw [show step.buildExpression acc.2
      (step.premises.map fun p => (acc.1.map (·.expression)).getD p 0) target =
        .ok (arena, expression) from hbuilt]
  -- the rule, on the quantities in their new places
  have hholds : step.rule ≠ .input → StepHolds c step.rule raw.params
      (step.premises.map (replayOf done acc).quantity) raw.key := fun hrule => by
    obtain ⟨-, -, ps, hps, hh⟩ := hraw.derived hrule
    have hprem : step.premises.map (replayOf done acc).quantity = ps :=
      hready.premises hraw hps
    rw [hprem]
    exact hh
  have hlt : ∀ k ∈ step.premises, k < done.length := fun k hk => by
    obtain ⟨p, hp, rfl⟩ := List.mem_map.mp hk
    exact (List.getElem?_eq_some_iff.mp (hready.get p hp)).1
  have hlen : done.length = acc.1.length := by
    have := hx.ok.len_q
    rwa [replayOf, List.length_map] at this
  have harity : step.premises.length = MixedStep.arity step.rule := by
    by_cases hrule : step.rule = .input
    · have hnil : raw.premises = [] := (hraw.input hrule).1
      rw [hrule]
      show (raw.premises.map _).length = 0
      rw [hnil]
      rfl
    · have hl := length_of_stepHolds (hholds hrule)
      rwa [List.length_map] at hl
  obtain ⟨hgrows, hexlt, hview⟩ := MixedStep.buildExpression_spec hx.ok.wf
    (by rw [List.length_map]; exact harity) (fun x hx' => by
      obtain ⟨p, hp, rfl⟩ := List.mem_map.mp hx'
      have hp' : p < (acc.1.map (·.expression)).length := by
        rw [List.length_map, ← hlen]
        exact hlt p hp
      rw [List.getD_eq_getElem _ _ hp']
      exact hx.ok.lt _ (List.getElem_mem hp')) hbuilt
  rw [List.map_map] at hview
  have hinside : Inside c raw.key (arena.view expression) := by
    rw [hview]
    exact tree_inside (hset hraw.shape.y_lt) (hset hraw.shape.d_lt) (hset hraw.params_lt) hholds
      (hready.inside hx)
  have hacc : ∀ stored : Option CausalExprArena, StepAccepted c v target stored allowRelaxed
      (replayOf done acc) step' raw.key raw.params arena expression := fun stored => by
    refine ⟨hset hraw.shape.y_lt, hset hraw.shape.d_lt, hset hraw.shape.z_lt,
      hset hraw.params_lt, hraw.shape.yd, hraw.shape.yz, hraw.shape.dz, hraw.y_ne, hd,
      hraw.params_le, fun p hp => ?_, fun hrule => ⟨hnone hrule, (hraw.derived hrule).2.1⟩,
      fun hrule => ?_, ?_, hbuilt, fun _ => rfl, ?_⟩
    · show p < (done.map Raw.key).length
      rw [List.length_map]
      exact hlt p hp
    · have hrule : step.rule = .product := hrule
      have hh := hholds fun h => by rw [hrule] at h; cases h
      rw [hrule] at hh harity
      obtain ⟨i, j, hij⟩ := List.length_eq_two.mp harity
      rw [hij] at hh
      exact hh.1
    · by_cases hrule : step.rule = .input
      · obtain ⟨hnil, hw, hz, -⟩ := hraw.input hrule
        obtain ⟨input, hmem, hy, hdo, hrel, hs⟩ := hinput hrule
        have hkey : raw.key = ⟨raw.y, raw.d, ∅⟩ := by rw [Raw.key, hz]
        rw [hkey, hw]
        exact inputStep_holds hrule (by show raw.premises.map _ = []; rw [hnil]; rfl)
          (hcite input hmem) hy hdo hrel hs
      · have hh : StepHolds c step'.rule raw.params (step'.premises.map (replayOf done acc).quantity)
            raw.key := hholds hrule
        exact ruleHolds_of_stepHolds hh
    · refine ⟨_, Checker.positions_ok.mpr ⟨fun x hxf => (hinside x hxf).1, rfl⟩, fun i hi => ?_⟩
      obtain ⟨x, hxf, rfl⟩ := List.mem_map.mp (List.mem_toFinset.mp hi)
      exact (hinside x hxf).2
  have hreplay : replayOf (done ++ [raw]) (acc.1 ++ [step'], arena) =
      ⟨arena, (replayOf done acc).quantities ++ [raw.key],
        (replayOf done acc).expressions ++ [expression]⟩ := by
    unfold replayOf
    rw [List.map_append, List.map_append]
    rfl
  refine ⟨_, hstep, fun stored => ?_, ?_, ?_, ?_⟩
  · rw [List.foldlM_append, hx.replay stored, hreplay]
    simp only [List.foldlM_cons, List.foldlM_nil, bind, Except.bind]
    rw [(hacc stored).checkStep_ok]
    rfl
  · rw [hreplay]
    exact hx.ok.snoc hc (hacc none)
  · rw [hreplay]
    exact stepPlaced_snoc hx.ok hx.placed (hacc none)
  · intro i r hi
    rw [hreplay]
    show Inside c r.key (arena.view _)
    rcases getElem?_snoc hi with hi | ⟨rfl, rfl⟩
    · have hi' : i < (replayOf done acc).expressions.length := by
        rw [hx.ok.len_e, ← hlen]
        exact (List.getElem?_eq_some_iff.mp hi).1
      have hin := hx.inside i r hi
      rw [List.getD_append _ _ _ _ hi', CausalExprArena.view_extends hx.ok.wf hgrows.wf hgrows.ext]
      · exact hin
      · rw [List.getD_eq_getElem _ _ hi']
        exact hx.ok.lt _ (List.getElem_mem hi')
    · have hi' : (replayOf done acc).expressions.length = done.length := hx.ok.len_e.trans hlen.symm
      rw [← hi', List.getD_append_right _ _ _ _ (Nat.le_refl _), Nat.sub_self]
      exact hinside

theorem extract_run (hc : c.Reads graph) (hok : EngineOk c inputs e) (hnodup : c.vars.Nodup)
    (hinputs : e.inputs = inputs)
    (hcite : ∀ input ∈ inputs, Citable v catalog target allowRelaxed input) :
    ∀ (rest done : List Raw) (acc : List MixedStep × CausalExprArena),
      Extracted graph c v target allowRelaxed done acc →
      (∀ (k : Nat) (raw : Raw), (done ++ rest)[k]? = some raw →
        InOrder c inputs e order k raw ∧ raw.d.card ≤ mixedSourceMaxDo ∧
          ∀ p ∈ raw.premises, (done ++ rest)[order.idxOf p]? = some (e.step p)) →
      ∃ acc', rest.foldlM (e.extractStep catalog target order) acc = .ok acc' ∧
        Extracted graph c v target allowRelaxed (done ++ rest) acc'
  | [], done, acc, hx, _ => ⟨acc, rfl, by rwa [List.append_nil]⟩
  | raw :: rest, done, acc, hx, h => by
    obtain ⟨hin, hd, hget⟩ := h done.length raw (by simp)
    have hready : Ready e order done raw := by
      refine ⟨fun p hp => (hin.premises p hp).1, fun p hp => ?_⟩
      rw [← hget p hp, List.getElem?_append_left (hin.premises p hp).2]
    obtain ⟨acc₁, hstep, hx₁⟩ := extractStep_spec hc hok hnodup hinputs hcite hx hin.ok hd hready
    have happ : done ++ [raw] ++ rest = done ++ raw :: rest := by simp
    obtain ⟨acc', hrest, hx'⟩ := extract_run hc hok hnodup hinputs hcite rest (done ++ [raw]) acc₁
      hx₁ (happ ▸ h)
    refine ⟨acc', ?_, happ ▸ hx'⟩
    rw [List.foldlM_cons, hstep]
    exact hrest

/-- **An extracted list passes the checker**, for a step that derives the target. -/
theorem extract_accepted {query : MixedSourceQuery} (hc : Checker.new graph = .ok c)
    (hv : validateMixedSourceQuery graph query catalog = .ok v) (hok : EngineOk c inputs e)
    (hnodup : c.vars.Nodup) (hinputs : e.inputs = inputs)
    (hcite : ∀ input ∈ inputs, Citable v catalog v.query.target allowRelaxed input)
    (hbound : ∀ input ∈ inputs, input.intervened.length ≤ mixedSourceMaxDo)
    (hy : SetOf c v.query.outcomes e.target.y) (hd : SetOf c v.query.treatments e.target.d)
    (hz : e.target.z = ∅) {last : Raw} (hlast : RawOk c inputs e.steps last)
    (hkey : last.key = e.target) :
    ∃ steps arena, e.extract last catalog v.query.target = .ok (steps, arena) ∧
      ∀ stored : Option CausalExprArena, (∀ a ∈ stored, a = arena) →
        checkSteps graph v.query catalog steps stored allowRelaxed = .ok () := by
  have hreads := Checker.new_reads hc
  have hcard := hok.d_card hbound
  have hsteps : ∀ (k : Nat) (raw : Raw), ((e.order last).map e.step ++ [last])[k]? = some raw →
      InOrder c inputs e (e.order last) k raw ∧ raw.d.card ≤ mixedSourceMaxDo ∧
        ∀ p ∈ raw.premises, ((e.order last).map e.step ++ [last])[(e.order last).idxOf p]? =
          some (e.step p) := fun k raw hk => by
    have hin := inOrder hok hlast hk
    refine ⟨hin, hin.ok.d_card hbound fun s hs => ?_, fun p hp => ?_⟩
    · obtain ⟨i, hi⟩ := List.getElem?_of_mem hs
      exact hcard i s hi
    · have hpm := (hin.premises p hp).1
      have hidx := List.idxOf_lt_length_iff.mpr hpm
      rw [List.getElem?_append_left (by rwa [List.length_map]), List.getElem?_map,
        List.getElem?_eq_getElem hidx, List.getElem_idxOf hidx, Option.map_some]
  obtain ⟨⟨steps, arena⟩, hrun, hx⟩ := extract_run hreads hok hnodup hinputs hcite
    ((e.order last).map e.step ++ [last]) [] ([], .new) extracted_nil hsteps
  refine ⟨steps, arena, hrun, fun stored hstored => ?_⟩
  have hquery : v.query = query.canonical := (validate_cases hv).choose_spec.query
  have hv' : validateMixedSourceQuery graph v.query catalog = .ok v := by
    rw [hquery, validate_canonical, hv]
  have hkeys : (replayOf ([] ++ ((e.order last).map e.step ++ [last])) (steps, arena)).quantities
      = ((e.order last).map e.step).map Raw.key ++ [last.key] := by
    simp [replayOf]
  have hlast' : (replayOf ([] ++ ((e.order last).map e.step ++ [last]))
      (steps, arena)).quantities.getLast? = some last.key := by
    rw [hkeys, List.getLast?_concat]
  have hne : steps ≠ [] := by
    rintro rfl
    have hl := hx.ok.len_q
    rw [hkeys, List.length_append] at hl
    simp at hl
  have hgoal : last.key = ⟨e.target.y, e.target.d, ∅⟩ := by rw [hkey, ← hz]
  unfold checkSteps
  rw [hc, hv']
  simp only [bind, Except.bind]
  rw [hx.replay stored]
  simp only [hlast', Checker.set_ok.mpr hy, Checker.set_ok.mpr hd]
  rw [if_neg]
  · exact layer_ok hx.ok hx.placed hne
  · rintro (h | h)
    · exact h hgoal
    · cases stored with
      | none => cases h
      | some a =>
        have hne' : a ≠ arena := of_decide_eq_true h
        exact hne' (hstored a rfl)

end Run

end Engine

end Antecedent.Identify
