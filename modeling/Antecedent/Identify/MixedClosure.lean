import Antecedent.Identify.MixedInvariant
import Antecedent.Identify.MixedReplay

/-!
# What a fixpoint of the mixed-source search decides

A run that ends in a fixpoint has expanded every step of its table, so the table is closed under the
rules the search applies. The checker replays a list of steps by the same rules, and by the two
deletions, which the search never tries: a list without deletions stays inside the table.

* **`run_spec`**: what the end of a run says of its table.
* **`not_accepted_of_fixpoint`**: no list without deletions is accepted when the search ended in a
  fixpoint over the inputs the list cites.
-/

namespace Antecedent.Identify

open Core
open Expr
open Graph

namespace Engine

variable {c : Checker} {inputs : List MixedInput} {e e' : Engine}

/-- A table closed under the searched rules. -/
structure Closed (c : Checker) (e : Engine) : Prop where
  unary : ∀ p ∈ e.keys, ∀ rule, Derives c rule p e
  product : ∀ a ∈ e.keys, ∀ b ∈ e.keys, ∀ k, StepHolds c .product ∅ [a, b] k → k ∈ e.keys

variable {meter : Nat → Option SearchStop}

theorem expanded_spec {q : Nat} {raw : Raw}
    (h : Generations.Expanded size (expand meter) (EngineOk c inputs) Later q e)
    (hq : e.steps[q]? = some raw) :
    (∀ rule, Derives c rule raw.key e) ∧
      ∀ j m, j < q → e.steps[j]? = some m → ∀ k,
        (StepHolds c .product ∅ [raw.key, m.key] k → k ∈ e.keys) ∧
        (StepHolds c .product ∅ [m.key, raw.key] k → k ∈ e.keys) := by
  obtain ⟨t, t', hok, hlt, hx, hl⟩ := h
  have hs := expand_spec hok hlt hx
  have hte := hs.later.trans hl
  have hget : t.steps[q]? = some (t.steps.get ⟨q, hlt⟩) := List.getElem?_eq_getElem hlt
  have hkey : (t.step q).key = raw.key := by
    have hraw := (hte.step hget).symm.trans hq
    rw [step_of_get hget, Option.some.inj hraw]
  rw [hkey] at hs
  refine ⟨fun rule => (hs.unary rule).mono hl, fun j m hj hm k => ?_⟩
  -- the earlier step was there when `q` was expanded
  have hjlt : j < t.size := hj.trans hlt
  have hmem : m.key ∈ t.keys := by
    have hget' : t.steps[j]? = some (t.steps.get ⟨j, hjlt⟩) := List.getElem?_eq_getElem hjlt
    have hm' := (hte.step hget').symm.trans hm
    exact mem_keys.mpr ⟨j, _, hget', by rw [Option.some.inj hm']⟩
  exact ⟨fun h => hl.keys (hs.conditional _ hmem k h), fun h => hl.keys (hs.marginal _ hmem k h)⟩

/-- **A table whose steps were all expanded is closed.** Of two steps, the later one to be expanded
finds the other, so it does not matter that a product is looked up only then. -/
theorem closed_of_expanded (hok : EngineOk c inputs e)
    (h : ∀ q < e.size, Generations.Expanded size (expand meter) (EngineOk c inputs) Later q e) :
    Closed c e := by
  have hspec := fun {q : Nat} {raw : Raw} (hq : e.steps[q]? = some raw) =>
    expanded_spec (h q (List.getElem?_eq_some_iff.mp hq).1) hq
  refine ⟨fun p hp rule => ?_, fun a ha b hb k hs => ?_⟩
  · obtain ⟨q, raw, hq, rfl⟩ := mem_keys.mp hp
    exact (hspec hq).1 rule
  · obtain ⟨i, ra, hi, rfl⟩ := mem_keys.mp ha
    obtain ⟨j, rb, hj, rfl⟩ := mem_keys.mp hb
    rcases Nat.lt_trichotomy i j with hlt | rfl | hgt
    · exact ((hspec hj).2 i ra hlt hi k).2 hs
    · -- a quantity is no conditional of itself
      obtain rfl : ra = rb := Option.some.inj (hi.symm.trans hj)
      obtain ⟨-, -, -, -, hdis, -, -⟩ := hs
      exact absurd (Finset.disjoint_self_iff_empty _ |>.mp hdis) (hok.step_ok hi).y_ne
    · exact ((hspec hi).2 j rb hgt hj k).1 hs

/-- **What the end of a run says.** -/
theorem run_spec {fuel : Nat} {r : Generations.RunEnd Engine SearchStop} (hok : EngineOk c inputs e)
    (h : e.run meter fuel = some r) :
    match r with
    | .found s => EngineOk c inputs s ∧ Later e s ∧ s.found.isSome = true
    | .fixpoint s => EngineOk c inputs s ∧ Later e s ∧ s.target ∉ s.keys ∧ Closed c s
    | .stopped _ => True := by
  unfold run at h
  split_ifs at h with hfound
  · cases h
    exact ⟨hok, Later.rfl, hfound⟩
  · have hspec := Generations.generations_spec (progress meter) fuel 0 e r hok (Nat.zero_le _)
      (fun q hq => absurd hq (Nat.not_lt_zero q)) (Bool.not_eq_true _ ▸ hfound) h
    cases r with
    | found s => exact hspec
    | stopped stop => trivial
    | fixpoint s =>
      obtain ⟨hs, hl, hgoal, hall⟩ := hspec
      refine ⟨hs, hl, fun ht => ?_, closed_of_expanded hs hall⟩
      rw [hs.found_isSome ht] at hgoal
      cases hgoal

end Engine

/-! ## Accepted steps inside a closed table -/

open Engine

section Replay

variable {c : Checker} {v : ValidatedMixedSourceQuery} {target : String}
  {stored : Option CausalExprArena} {allowRelaxed : Bool} {st st' : Replay} {step : MixedStep}
  {q : Quantity} {w : Finset Nat} {e : Engine}

/-- The two rules only the checker knows. -/
def MixedRule.deletes : MixedRule → Bool
  | .rule1Delete | .rule3Delete => true
  | _ => false

/-- What an insertion or an exchange asks does not depend on the variables of the expression. -/
theorem unaryRuleHolds_free {rule : MixedRule} {p : Quantity} {univ free free' : Finset Nat}
    (hrule : rule.deletes = false) (h : unaryRuleHolds c univ rule p q w free = true) :
    unaryRuleHolds c univ rule p q w free' = true := by
  unfold unaryRuleHolds at h ⊢
  split_ifs at h ⊢
  cases rule <;> first | exact h | cases hrule

theorem stepHolds_of_ruleHolds (hw : step.rule = .product → w = ∅)
    (hinput : step.rule ≠ .input) (hdel : step.rule.deletes = false)
    (h : ruleHolds c v target allowRelaxed st step q w = .ok true) :
    StepHolds c step.rule w (step.premises.map st.quantity) q := by
  obtain ⟨rule, premises, params, y, d, z, source, relaxed, expression⟩ := step
  unfold ruleHolds at h
  rcases premises with _ | ⟨i, _ | ⟨j, _ | ⟨k, premises⟩⟩⟩ <;> cases rule
  case cons.nil.marginalize =>
    have hparts := of_decide_eq_true ((Except.ok.injEq _ _).mp h)
    exact hparts
  case cons.nil.condition =>
    have hparts := of_decide_eq_true ((Except.ok.injEq _ _).mp h)
    exact hparts
  case cons.cons.nil.product =>
    exact ⟨hw rfl, of_decide_eq_true ((Except.ok.injEq _ _).mp h)⟩
  case cons.nil.rule1Insert => exact unaryRuleHolds_free rfl ((Except.ok.injEq _ _).mp h)
  case cons.nil.rule2ToDo => exact unaryRuleHolds_free rfl ((Except.ok.injEq _ _).mp h)
  case cons.nil.rule2ToObservation => exact unaryRuleHolds_free rfl ((Except.ok.injEq _ _).mp h)
  case cons.nil.rule3Insert => exact unaryRuleHolds_free rfl ((Except.ok.injEq _ _).mp h)
  all_goals first
    | exact absurd rfl hinput
    | (simp [unaryRuleHolds] at h; done)
    | exact Bool.noConfusion hdel

theorem maskOf_of_set {vs : List Nat} {s : Finset Nat} (h : c.set vs = .ok s) :
    maskOf c.vars vs = .ok s := by
  unfold Checker.set at h
  obtain ⟨t, ht, h⟩ := bind_ok h
  split_ifs at h
  cases h
  exact maskOf_ok.mpr (Checker.positions_ok.mp ht)

/-- **One accepted step**: over quantities of a closed table that holds the cited inputs, its
quantity is in the table too. -/
theorem accepted_known (hclosed : Closed c e) {arena : CausalExprArena} {expression : Nat}
    (h : StepAccepted c v target stored allowRelaxed st step q w arena expression)
    (hdel : step.rule.deletes = false)
    (hinputs : ∀ leaf input, step.source = some leaf → v.cited leaf.regime = some input →
      ∃ k ∈ e.keys, maskOf c.vars input.measured = .ok k.y ∧
        maskOf c.vars input.intervened = .ok k.d ∧ k.z = ∅)
    (hst : ∀ p ∈ st.quantities, p ∈ e.keys) : q ∈ e.keys := by
  by_cases hrule : step.rule = .input
  · obtain ⟨leaf, input, hs, hi, hm, hd, hz, -⟩ := input_of_ruleHolds hrule h.holds
    obtain ⟨⟨ky, kd, kz⟩, hk, hky, hkd, hkz⟩ := hinputs leaf input hs hi
    obtain ⟨y, d, z⟩ := q
    obtain rfl : ky = y := by
      rw [maskOf_of_set hm] at hky
      exact ((Except.ok.injEq _ _).mp hky).symm
    obtain rfl : kd = d := by
      rw [maskOf_of_set hd] at hkd
      exact ((Except.ok.injEq _ _).mp hkd).symm
    obtain rfl : kz = z := hkz.trans hz.symm
    exact hk
  · have hholds := stepHolds_of_ruleHolds h.product_w hrule hdel h.holds
    have hprem : ∀ p ∈ step.premises, st.quantity p ∈ e.keys := fun p hp => by
      unfold Replay.quantity
      rw [List.getD_eq_getElem?_getD, List.getElem?_eq_getElem (h.premises_lt p hp),
        Option.getD_some]
      exact hst _ (List.getElem_mem _)
    have harity := arity_of_ruleHolds h.holds
    by_cases hprod : step.rule = .product
    · rw [hprod] at harity hholds
      obtain ⟨i, j, hij⟩ := List.length_eq_two.mp (harity : step.premises.length = 2)
      rw [hij] at hholds hprem
      obtain rfl := h.product_w hprod
      exact hclosed.product _ (hprem i (by simp)) _ (hprem j (by simp)) q hholds
    · have hone : step.premises.length = 1 := by
        rw [harity]
        revert hrule hprod
        cases step.rule <;> simp [MixedStep.arity]
      obtain ⟨i, hi⟩ := List.length_eq_one_iff.mp hone
      rw [hi] at hholds hprem
      exact hclosed.unary _ (hprem i (by simp)) _ w q h.quantity_ok h.y_ne (fun _ => h.d_le) h.w_le
        hholds

/-- **An accepted list** stays inside a closed table that holds the inputs it cites. -/
theorem replay_known (hclosed : Closed c e) : ∀ (steps : List MixedStep) (st st' : Replay),
    steps.foldlM (checkStep c v target stored allowRelaxed) st = .ok st' →
    (∀ step ∈ steps, step.rule.deletes = false) →
    (∀ step ∈ steps, ∀ leaf input, step.source = some leaf → v.cited leaf.regime = some input →
      ∃ k ∈ e.keys, maskOf c.vars input.measured = .ok k.y ∧
        maskOf c.vars input.intervened = .ok k.d ∧ k.z = ∅) →
    (∀ p ∈ st.quantities, p ∈ e.keys) → ∀ p ∈ st'.quantities, p ∈ e.keys
  | [], st, st', h, _, _, hst => by
    cases h
    exact hst
  | step :: steps, st, st', h, hdel, hinputs, hst => by
    rw [List.foldlM_cons] at h
    obtain ⟨st₁, hstep, h⟩ := bind_ok h
    obtain ⟨q, w, arena, expression, ha, rfl⟩ := checkStep_cases hstep
    refine replay_known hclosed steps _ st' h (fun s hs => hdel s (List.mem_cons_of_mem _ hs))
      (fun s hs => hinputs s (List.mem_cons_of_mem _ hs)) fun p hp => ?_
    rcases List.mem_append.mp hp with hp | hp
    · exact hst p hp
    · rw [List.mem_singleton.mp hp]
      exact accepted_known hclosed ha (hdel step List.mem_cons_self)
        (hinputs step List.mem_cons_self) hst

end Replay

/-- **A fixpoint decides the lists without deletions**: none is accepted over the inputs of a closed
table without the target. -/
theorem not_accepted_of_fixpoint {graph : Admg} {c : Checker} {query : MixedSourceQuery}
    {catalog : EvidenceCatalog} {v : ValidatedMixedSourceQuery} {inputs : List MixedInput}
    {e e' : Engine} (hc : Checker.new graph = .ok c)
    (hv : validateMixedSourceQuery graph query catalog = .ok v)
    (hstart : Started c graph inputs query e) (hl : Later e e') (hclosed : Closed c e')
    (htarget : e'.target ∉ e'.keys) {steps : List MixedStep} {stored : Option CausalExprArena}
    {allowRelaxed : Bool} (hdel : ∀ step ∈ steps, step.rule.deletes = false)
    (hinputs : ∀ step ∈ steps, ∀ leaf input, step.source = some leaf →
      v.cited leaf.regime = some input → input ∈ inputs) :
    checkSteps graph query catalog steps stored allowRelaxed ≠ .ok () := by
  intro h
  obtain ⟨c', v', st, last, hc', hv', hst, hlast, hy, hd, hz, -, -⟩ := checkSteps_cases h
  obtain rfl : c = c' := (Except.ok.injEq _ _).mp (hc.symm.trans hc')
  obtain rfl : v = v' := (Except.ok.injEq _ _).mp (hv.symm.trans hv')
  have hknown := replay_known hclosed steps _ st hst hdel (fun step hs leaf input hsource hcited => by
    obtain ⟨k, hk, hrest⟩ := hstart.known input (hinputs step hs leaf input hsource hcited)
    exact ⟨k, hl.keys hk, hrest⟩) (fun p hp => absurd hp List.not_mem_nil) last
    (List.mem_of_getLast? hlast)
  have hout := maskOf_of_set (Checker.set_ok.mpr hy)
  have htreat := maskOf_of_set (Checker.set_ok.mpr hd)
  rw [hstart.outcomes] at hout
  rw [hstart.treatments] at htreat
  have hsame : last = e.target := by
    obtain ⟨y, d, z⟩ := last
    have ht := hstart.unconditioned
    rcases hte : e.target with ⟨ty, td, tz⟩
    rw [hte] at hout htreat ht
    obtain rfl : ty = y := (Except.ok.injEq _ _).mp hout
    obtain rfl : td = d := (Except.ok.injEq _ _).mp htreat
    obtain rfl : z = tz := hz.trans ht.symm
    rfl
  exact htarget (hl.target ▸ hsame ▸ hknown)

end Antecedent.Identify
