import Antecedent.Identify.MixedEngine
import Mathlib.Data.Finset.Powerset

/-!
# What the mixed-source search keeps

The table of the engine, seen from the checker. `RawOk` says of one step what the checker will ask
of it, in masks; `EngineOk` says it of every step of the table, and that the table holds one step
for each quantity. `Later` orders the states of a run.

* **`expand_spec`**: an expansion keeps the table justified and derives every quantity a searched
  rule derives from the expanded step and the steps before it.
* **`run_ends`**: a run ends, whatever the budget answers.
-/

namespace Antecedent.Identify

open Core
open Graph
open Mixed
open Worklist

/-- What the checker asks of the quantities of a step and its premises, for the rules the search
applies (`search.rs:808-846`). -/
def StepHolds (c : Checker) (rule : MixedRule) (w : Finset Nat) (ps : List Quantity)
    (q : Quantity) : Prop :=
  match rule, ps with
  | .marginalize, [p] => w ≠ ∅ ∧ w ⊆ p.y ∧ q.y ∪ w = p.y ∧ p.d = q.d ∧ p.z = q.z
  | .condition, [p] => w ≠ ∅ ∧ w ⊆ p.y ∧ q.y ∪ w = p.y ∧ p.d = q.d ∧ q.z = p.z ∪ w
  | .product, [a, b] => w = ∅ ∧ a.d = b.d ∧ a.d = q.d ∧ a.z = b.z ∪ b.y ∧ Disjoint a.y b.y ∧
      b.z = q.z ∧ q.y = a.y ∪ b.y
  | .rule1Insert, [p] | .rule2ToDo, [p] | .rule2ToObservation, [p] | .rule3Insert, [p] =>
      unaryRuleHolds c (Finset.range c.vars.length) rule p q w ∅ = true
  | _, _ => False

def MixedRule.acts : MixedRule → Bool
  | .rule2ToDo | .rule3Insert => true
  | _ => false

namespace Engine

def keys (e : Engine) : List Quantity := e.steps.map Raw.key

/-- A step the checker will accept, but for a bound on the actions of an input. -/
structure RawOk (c : Checker) (inputs : List MixedInput) (steps : List Raw) (raw : Raw) :
    Prop where
  shape : raw.key.Ok c.vars.length
  y_ne : raw.y ≠ ∅
  params_lt : ∀ v ∈ raw.params, v < c.vars.length
  params_le : raw.params.card ≤ mixedSourceMaxMove
  d_le : raw.rule.acts = true → raw.d.card ≤ mixedSourceMaxDo
  input : raw.rule = .input → raw.premises = [] ∧ raw.params = ∅ ∧ raw.z = ∅ ∧
    ∃ k input, raw.input = some k ∧ inputs[k]? = some input ∧
      maskOf c.vars input.measured = .ok raw.y ∧ maskOf c.vars input.intervened = .ok raw.d ∧
      raw.relaxed = !input.marginals.isEmpty
  derived : raw.rule ≠ .input → raw.input = none ∧ raw.relaxed = false ∧
    ∃ ps : List Quantity, (raw.premises.map fun i => steps[i]?.map Raw.key) = ps.map some ∧
      StepHolds c raw.rule raw.params ps raw.key

/-- What every state of a run keeps. -/
structure EngineOk (c : Checker) (inputs : List MixedInput) (e : Engine) : Prop where
  reads : c.Reads e.graph
  vars : e.vars = c.vars
  small : c.vars.length ≤ maskBits
  caches : CachesOk c e
  steps : ∀ i raw, e.steps[i]? = some raw → RawOk c inputs (e.steps.take i) raw
  nodup : e.keys.Nodup
  alternatives : ∀ raw ∈ e.alternatives, raw.key = e.target ∧ RawOk c inputs e.steps raw
  found_spec : ∀ f, e.found = some f → ∃ raw, e.steps[f]? = some raw ∧ raw.key = e.target
  found_isSome : e.target ∈ e.keys → e.found.isSome = true

/-- A later state of the same engine. -/
structure Later (e e' : Engine) : Prop where
  steps : e.steps <+: e'.steps
  graph : e'.graph = e.graph
  vars : e'.vars = e.vars
  inputs : e'.inputs = e.inputs
  target : e'.target = e.target

variable {c : Checker} {inputs : List MixedInput} {e e' : Engine} {k : Quantity}

theorem Later.rfl : Later e e := ⟨List.prefix_rfl, by rfl, by rfl, by rfl, by rfl⟩

theorem Later.trans {e'' : Engine} (h : Later e e') (h' : Later e' e'') : Later e e'' :=
  ⟨h.steps.trans h'.steps, h'.graph.trans h.graph, h'.vars.trans h.vars,
    h'.inputs.trans h.inputs, h'.target.trans h.target⟩

theorem Later.keys (h : Later e e') (hk : k ∈ e.keys) : k ∈ e'.keys := by
  obtain ⟨l, hl⟩ := h.steps
  unfold Engine.keys at hk ⊢
  rw [← hl, List.map_append]
  exact List.mem_append_left _ hk

variable {i j : Nat} {raw : Raw} {ws : List (Finset Nat)} {y d z free s : Finset Nat} {p : Quantity}
  {meter : Nat → Option SearchStop}
  {rule : MixedRule} {vars vs : List Nat}

theorem Later.step (h : Later e e') (hi : e.steps[i]? = some raw) :
    e'.steps[i]? = some raw := by
  obtain ⟨l, hl⟩ := h.steps
  rw [← hl, List.getElem?_append_left (List.getElem?_eq_some_iff.mp hi).1]
  exact hi

theorem Later.size_le (h : Later e e') : e.size ≤ e'.size := h.steps.length_le

theorem mem_keys : k ∈ e.keys ↔ ∃ (i : Nat) (raw : Raw), e.steps[i]? = some raw ∧
    raw.key = k := by
  unfold keys
  rw [List.mem_map]
  constructor
  · rintro ⟨raw, hr, hk⟩
    obtain ⟨i, hi⟩ := List.getElem?_of_mem hr
    exact ⟨i, raw, hi, hk⟩
  · rintro ⟨i, raw, hi, hk⟩
    exact ⟨raw, List.mem_of_getElem? hi, hk⟩

theorem known_some (h : e.known k = some i) :
    ∃ raw, e.steps[i]? = some raw ∧ raw.key = k := by
  unfold known at h
  obtain ⟨hlt, hp, -⟩ := List.findIdx?_eq_some_iff_getElem.mp h
  exact ⟨_, List.getElem?_eq_getElem hlt, Raw.hasKey_iff.mp hp⟩

theorem known_isSome : (e.known k).isSome = true ↔ k ∈ e.keys := by
  unfold known keys
  rw [List.findIdx?_isSome, List.any_eq_true, List.mem_map]
  simp only [Raw.hasKey_iff]

theorem RawOk.mono {steps steps' : List Raw} (h : steps <+: steps')
    (hr : RawOk c inputs steps raw) : RawOk c inputs steps' raw := by
  refine ⟨hr.shape, hr.y_ne, hr.params_lt, hr.params_le, hr.d_le, hr.input, fun hrule => ?_⟩
  obtain ⟨hin, hrel, ps, hps, hholds⟩ := hr.derived hrule
  refine ⟨hin, hrel, ps, ?_, hholds⟩
  rw [← hps]
  refine List.map_congr_left fun i hi => ?_
  -- every premise index is below the length, since its quantity is there
  have hsome : (steps[i]?.map Raw.key).isSome = true := by
    have : (steps[i]?.map Raw.key) ∈ ps.map some := hps ▸ List.mem_map_of_mem hi
    obtain ⟨p, -, hp⟩ := List.mem_map.mp this
    rw [← hp]
    rfl
  rw [Option.isSome_map, Option.isSome_iff_exists] at hsome
  obtain ⟨r, hr'⟩ := hsome
  obtain ⟨l, rfl⟩ := h
  rw [List.getElem?_append_left (List.getElem?_eq_some_iff.mp hr').1]

theorem EngineOk.step_ok (h : EngineOk c inputs e)
    (hi : e.steps[i]? = some raw) : RawOk c inputs e.steps raw :=
  (h.steps i raw hi).mono (List.take_prefix i e.steps)

/-! ## One candidate -/

theorem add_later (raw : Raw) : Later e (e.add raw) := by
  unfold add
  split_ifs
  · exact ⟨List.prefix_rfl, rfl, rfl, rfl, rfl⟩
  · exact Later.rfl
  all_goals exact ⟨List.prefix_append _ _, rfl, rfl, rfl, rfl⟩

/-- **A candidate** that is justified keeps the table, and its quantity is known afterwards. -/
theorem add_spec (h : EngineOk c inputs e) (hr : RawOk c inputs e.steps raw) :
    EngineOk c inputs (e.add raw) ∧ raw.key ∈ (e.add raw).keys := by
  unfold add
  by_cases hk : (e.known raw.key).isSome = true
  · rw [if_pos hk]
    have hmem := known_isSome.mp hk
    split_ifs with halt
    · refine ⟨⟨h.reads, h.vars, h.small, ⟨h.caches.graphs, h.caches.separations⟩, h.steps, h.nodup,
        fun r hr' => ?_, h.found_spec, h.found_isSome⟩, hmem⟩
      rcases List.mem_append.mp hr' with hr' | hr'
      · exact h.alternatives r hr'
      · rw [List.mem_singleton.mp hr']
        exact ⟨Raw.hasKey_iff.mp halt.1, hr⟩
    · exact ⟨h, hmem⟩
  · rw [if_neg hk]
    have hnew : raw.key ∉ e.keys := fun hm => hk (known_isSome.mpr hm)
    have hkeys : (e.steps ++ [raw]).map Raw.key = e.keys ++ [raw.key] := by simp [keys]
    have hpre : e.steps <+: e.steps ++ [raw] := List.prefix_append _ _
    refine ⟨⟨h.reads, h.vars, h.small, ⟨h.caches.graphs, h.caches.separations⟩, fun i r hi => ?_,
      ?_, fun r hr' => ⟨(h.alternatives r hr').1, (h.alternatives r hr').2.mono hpre⟩,
      fun f hf => ?_, fun ht => ?_⟩, ?_⟩
    · rcases Nat.lt_trichotomy i e.steps.length with hlt | rfl | hgt
      · rw [List.getElem?_append_left hlt] at hi
        rw [List.take_append_of_le_length hlt.le]
        exact h.steps i r hi
      · rw [List.getElem?_concat_length] at hi
        cases hi
        rw [List.take_left]
        exact hr
      · rw [List.getElem?_eq_none (by rw [List.length_append]; exact hgt)] at hi
        cases hi
    · show ((e.steps ++ [raw]).map Raw.key).Nodup
      rw [hkeys, List.nodup_append]
      refine ⟨h.nodup, List.nodup_singleton _, fun a ha b hb => ?_⟩
      rw [List.mem_singleton.mp hb]
      rintro rfl
      exact hnew ha
    · simp only at hf
      split_ifs at hf with ht
      · cases hf
        exact ⟨raw, List.getElem?_concat_length .., Raw.hasKey_iff.mp ht.1⟩
      · obtain ⟨r, hr', hkey⟩ := h.found_spec f hf
        refine ⟨r, ?_, hkey⟩
        rw [List.getElem?_append_left (List.getElem?_eq_some_iff.mp hr').1]
        exact hr'
    · have ht' : e.target ∈ e.keys ++ [raw.key] := hkeys ▸ ht
      simp only
      split_ifs with hc'
      · rfl
      · rcases List.mem_append.mp ht' with ht' | ht'
        · exact h.found_isSome ht'
        · have hkey := Raw.hasKey_iff.mpr (List.mem_singleton.mp ht').symm
          cases hfound : e.found with
          | some f => rfl
          | none => exact absurd ⟨hkey, hfound⟩ hc'
    · show raw.key ∈ (e.steps ++ [raw]).map Raw.key
      rw [hkeys]
      exact List.mem_append_right _ List.mem_cons_self

/-- The state after a side condition: only the caches differ. -/
structure CachesOnly (e e' : Engine) : Prop where
  eq : ∃ graphs separations, e' = { e with graphs := graphs, separations := separations }

theorem CachesOnly.later (h : CachesOnly e e') : Later e e' := by
  obtain ⟨_, _, rfl⟩ := h.eq
  exact ⟨List.prefix_rfl, rfl, rfl, rfl, rfl⟩

theorem CachesOnly.steps (h : CachesOnly e e') : e'.steps = e.steps := by
  obtain ⟨_, _, rfl⟩ := h.eq
  rfl

theorem CachesOnly.ok (h : CachesOnly e e') (hok : EngineOk c inputs e) (hc : CachesOk c e') :
    EngineOk c inputs e' := by
  obtain ⟨_, _, rfl⟩ := h.eq
  exact ⟨hok.reads, hok.vars, hok.small, hc, hok.steps, hok.nodup, hok.alternatives,
    hok.found_spec, hok.found_isSome⟩

def charged (e : Engine) : Engine := { e with operations := e.operations + 1 }

theorem charge_ok (h : e.charge meter = .ok e') :
    e' = e.charged := by
  unfold charge at h
  cases hm : meter e.operations with
  | some stop =>
    rw [hm] at h
    cases h
  | none =>
    rw [hm] at h
    cases h
    rfl

theorem charged_later : Later e e.charged := ⟨List.prefix_rfl, rfl, rfl, rfl, rfl⟩

theorem EngineOk.charged (h : EngineOk c inputs e) : EngineOk c inputs e.charged :=
  ⟨h.reads, h.vars, h.small, ⟨h.caches.graphs, h.caches.separations⟩, h.steps, h.nodup,
    h.alternatives, h.found_spec, h.found_isSome⟩

/-- An attempt at an item: the caches may grow, and a candidate is justified. -/
structure AttemptOk (c : Checker) (inputs : List MixedInput) (e : Engine)
    (r : Engine × Option Raw) : Prop where
  caches : CachesOnly e r.1
  caches_ok : CachesOk c r.1
  raw : ∀ raw, r.2 = some raw → RawOk c inputs e.steps raw

/-- **A loop of `expand`**: the table stays justified, and each eligible item was attempted in a
state between, whose candidate is known afterwards. -/
theorem tryEach_spec {α : Type} {eligible : α → Engine → Bool}
    {attempt : α → Engine → Engine × Option Raw} : ∀ (ws : List α) (e e' : Engine),
    EngineOk c inputs e →
    (∀ w ∈ ws, ∀ e₁, EngineOk c inputs e₁ → Later e e₁ → eligible w e₁ = true →
      AttemptOk c inputs e₁.charged (attempt w e₁.charged)) →
    tryEach meter eligible attempt ws e = .ok e' →
    EngineOk c inputs e' ∧ Later e e' ∧ ∀ w ∈ ws, ∃ e₁, EngineOk c inputs e₁ ∧ Later e e₁ ∧
      (eligible w e₁ = true → ∀ raw, (attempt w e₁.charged).2 = some raw → raw.key ∈ e'.keys)
  | [], e, e', hok, _, h => by
    cases h
    exact ⟨hok, Later.rfl, fun w hw => absurd hw List.not_mem_nil⟩
  | w :: ws, e, e', hok, hatt, h => by
    unfold tryEach at h
    split_ifs at h with hel
    · cases hch : e.charge meter with
      | error stop =>
        rw [hch] at h
        cases h
      | ok e₁ =>
        rw [hch] at h
        obtain rfl := charge_ok hch
        have ha := hatt w List.mem_cons_self e hok Later.rfl hel
        have hok₁ := ha.caches.ok hok.charged ha.caches_ok
        have hl₁ : Later e (attempt w e.charged).1 := charged_later.trans ha.caches.later
        -- the candidate is added, or there is none
        obtain ⟨hok₂, hl₂, hadd⟩ : EngineOk c inputs ((attempt w e.charged).2.elim
              (attempt w e.charged).1 (attempt w e.charged).1.add) ∧
            Later (attempt w e.charged).1 ((attempt w e.charged).2.elim
              (attempt w e.charged).1 (attempt w e.charged).1.add) ∧
            ∀ raw, (attempt w e.charged).2 = some raw → raw.key ∈ ((attempt w e.charged).2.elim
              (attempt w e.charged).1 (attempt w e.charged).1.add).keys := by
          cases hraw : (attempt w e.charged).2 with
          | none => exact ⟨hok₁, Later.rfl, fun raw hr => by cases hr⟩
          | some raw =>
            have hr := ha.raw raw hraw
            rw [← ha.caches.steps] at hr
            have hs := add_spec hok₁ hr
            refine ⟨hs.1, add_later raw, fun raw' hr' => ?_⟩
            cases hr'
            exact hs.2
        obtain ⟨hok', hl', hall⟩ := tryEach_spec ws _ e' hok₂ (fun w' hw' e₃ hok₃ hl₃ =>
          hatt w' (List.mem_cons_of_mem _ hw') e₃ hok₃ ((hl₁.trans hl₂).trans hl₃)) h
        refine ⟨hok', (hl₁.trans hl₂).trans hl', fun w' hw' => ?_⟩
        rcases List.mem_cons.mp hw' with rfl | hw'
        · exact ⟨e, hok, Later.rfl, fun _ raw hr => hl'.keys (hadd raw hr)⟩
        · obtain ⟨e₃, hok₃, hl₃, hk⟩ := hall w' hw'
          exact ⟨e₃, hok₃, (hl₁.trans hl₂).trans hl₃, hk⟩
    · obtain ⟨hok', hl', hall⟩ := tryEach_spec ws e e' hok (fun w' hw' =>
        hatt w' (List.mem_cons_of_mem _ hw')) h
      refine ⟨hok', hl', fun w' hw' => ?_⟩
      rcases List.mem_cons.mp hw' with rfl | hw'
      · exact ⟨e, hok, Later.rfl, fun h' => absurd h' hel⟩
      · exact hall w' hw'

/-! ## The loops of an expansion -/

/-- An attempt under a side condition, in terms of the checker's test. -/
theorem whenSeparated_spec (h : EngineOk c inputs e) {o u a b cond : Finset Nat}
    (ha : Askable c.vars.length a b cond)
    (hr : c.separated o u a b cond = true → RawOk c inputs e.steps raw) :
    AttemptOk c inputs e (whenSeparated o u a b cond raw e) ∧
      (whenSeparated o u a b cond raw e).2 =
        if c.separated o u a b cond then some raw else none := by
  obtain ⟨graphs, separations, he, hk, hdec⟩ := separated_spec h.reads h.small h.caches ha
  unfold whenSeparated
  rcases hs : e.separated o u a b cond with ⟨e₁, holds⟩
  rw [hs] at he hk hdec
  obtain rfl : holds = c.separated o u a b cond := hdec
  refine ⟨⟨⟨graphs, separations, he⟩, hk, fun r hr' => ?_⟩, rfl⟩
  simp only at hr'
  split_ifs at hr' with hsep
  cases hr'
  exact hr hsep

/-- A loop whose items have a side condition. -/
theorem tryRule_spec
    {o u cond : Finset Nat → Finset Nat} {raw : Finset Nat → Raw}
    (hok : EngineOk c inputs e) (eligible : Finset Nat → Bool)
    (hask : ∀ w ∈ ws, Askable c.vars.length y w (cond w))
    (hraw : ∀ w ∈ ws, eligible w = true → c.separated (o w) (u w) y w (cond w) = true →
      RawOk c inputs e.steps (raw w)) (h : tryEach meter (fun w _ => eligible w)
      (fun w => whenSeparated (o w) (u w) y w (cond w) (raw w)) ws e = .ok e') :
    EngineOk c inputs e' ∧ Later e e' ∧ ∀ w ∈ ws, eligible w = true →
      c.separated (o w) (u w) y w (cond w) = true → (raw w).key ∈ e'.keys := by
  have hr : ∀ w ∈ ws, eligible w = true → ∀ e₁, Later e e₁ →
      c.separated (o w) (u w) y w (cond w) = true → RawOk c inputs e₁.charged.steps (raw w) :=
    fun w hw hel e₁ hl hs => (hraw w hw hel hs).mono hl.steps
  obtain ⟨hok', hl, hall⟩ := tryEach_spec ws e e' hok (fun w hw e₁ hok₁ hl₁ hel =>
    (whenSeparated_spec hok₁.charged (hask w hw) (hr w hw hel e₁ hl₁)).1) h
  refine ⟨hok', hl, fun w hw hel hs => ?_⟩
  obtain ⟨e₁, hok₁, hl₁, hk⟩ := hall w hw
  refine hk hel _ ?_
  rw [(whenSeparated_spec hok₁.charged (hask w hw) (hr w hw hel e₁ hl₁)).2, if_pos hs]

/-- A loop whose items are candidates as they are. -/
theorem tryAll_spec {eligible : Bool}
    {raw : Finset Nat → Raw} (hok : EngineOk c inputs e)
    (hraw : ∀ w ∈ ws, eligible = true → RawOk c inputs e.steps (raw w))
    (h : tryEach meter (fun _ _ => eligible) (fun w e => (e, some (raw w))) ws e = .ok e') :
    EngineOk c inputs e' ∧ Later e e' ∧ ∀ w ∈ ws, eligible = true → (raw w).key ∈ e'.keys := by
  obtain ⟨hok', hl, hall⟩ := tryEach_spec ws e e' hok (fun w hw e₁ hok₁ hl₁ hel =>
    ⟨⟨_, _, rfl⟩, hok₁.charged.caches, fun r hr => by
      cases hr
      exact (hraw w hw hel).mono hl₁.steps⟩) h
  refine ⟨hok', hl, fun w hw hel => ?_⟩
  obtain ⟨e₁, -, -, hk⟩ := hall w hw
  exact hk hel _ rfl

/-! ## The rules with one premise -/

def Derives (c : Checker) (rule : MixedRule) (p : Quantity) (e : Engine) : Prop :=
  ∀ w k, k.Ok c.vars.length → k.y ≠ ∅ → (rule.acts = true → k.d.card ≤ mixedSourceMaxDo) →
    w.card ≤ mixedSourceMaxMove → StepHolds c rule w [p] k → k ∈ e.keys

theorem Derives.mono (h : Derives c rule p e)
    (hl : Later e e') : Derives c rule p e' := fun w k hk hy hd hw hs =>
  hl.keys (h w k hk hy hd hw hs)

/-- What an expansion says of one rule: the table stays justified, and is closed at the base. -/
structure Applied (c : Checker) (inputs : List MixedInput) (rule : MixedRule) (p : Quantity)
    (e e' : Engine) : Prop where
  ok : EngineOk c inputs e'
  later : Later e e'
  closed : Derives c rule p e'

variable {meter : Nat → Option SearchStop} {q : Nat} {base : Raw} {w : Finset Nat}

theorem unary_ok (hq : e.steps[q]? = some base) (hrule : rule ≠ .input)
    (hshape : (⟨y, d, z⟩ : Quantity).Ok c.vars.length) (hy : y ≠ ∅)
    (hw : ∀ v ∈ w, v < c.vars.length) (hle : w.card ≤ mixedSourceMaxMove)
    (hd : rule.acts = true → d.card ≤ mixedSourceMaxDo)
    (hholds : StepHolds c rule w [base.key] ⟨y, d, z⟩) :
    RawOk c inputs e.steps (unary q rule w y d z free) := by
  refine ⟨hshape, hy, hw, hle, hd, fun h => absurd h hrule, fun _ => ⟨rfl, rfl, [base.key], ?_,
    hholds⟩⟩
  show [e.steps[q]?.map Raw.key] = [some base.key]
  rw [hq]
  rfl

theorem EngineOk.mask_lt (hok : EngineOk c inputs e)
    (hs : ∀ v ∈ s, v < c.vars.length) : ∀ v ∈ s, v < maskBits := fun v hv =>
  lt_of_lt_of_le (hs v hv) hok.small

theorem mem_moves (hok : EngineOk c inputs e) (hq : e.steps[q]? = some base) :
    w ∈ moves base ↔ (w ⊆ base.y ∧ w ≠ ∅ ∧ w.card ≤ mixedSourceMaxMove) ∧ w ≠ base.y := by
  have hlt : ∀ v ∈ base.y, v < maskBits := hok.mask_lt (hok.step_ok hq).shape.y_lt
  unfold moves
  rw [List.mem_filter, mem_subsets hlt, decide_eq_true_iff]

theorem Quantity_ok_sdiff {n : Nat} (h : p.Ok n) (w : Finset Nat) :
    (⟨p.y \ w, p.d, p.z⟩ : Quantity).Ok n :=
  ⟨h.yd.mono_left Finset.sdiff_subset, h.yz.mono_left Finset.sdiff_subset, h.dz,
    fun v hv => h.y_lt v (Finset.sdiff_subset hv), h.d_lt, h.z_lt⟩

/-- What is left of the outcomes by a step that takes `w` away. -/
theorem taken_eq {p w : Finset Nat} (hyw : y ∪ w = p) (hy : y ≠ ∅) (hne : y ≠ p) :
    p \ (p \ y) = y ∧ p \ y ⊆ w ∧ p \ y ≠ ∅ ∧ p \ y ≠ p ∧ 1 < p.card := by
  subst hyw
  have hsub : y ⊆ y ∪ w := Finset.subset_union_left
  have hssub : y ⊂ y ∪ w := Finset.ssubset_iff_subset_ne.mpr ⟨hsub, hne⟩
  refine ⟨Finset.sdiff_sdiff_eq_self hsub, ?_, ?_, fun he => ?_, ?_⟩
  · rw [Finset.union_sdiff_left]
    exact Finset.sdiff_subset
  · rw [Ne, Finset.sdiff_eq_empty_iff_subset]
    exact hssub.2
  · obtain ⟨v, hv⟩ := Finset.nonempty_iff_ne_empty.mpr hy
    exact (Finset.mem_sdiff.mp (he ▸ hsub hv)).2 hv
  · exact (Nat.one_le_iff_ne_zero.mpr (Finset.card_ne_zero.mpr
      (Finset.nonempty_iff_ne_empty.mpr hy))).trans_lt (Finset.card_lt_card hssub)

theorem tryMarginalize_spec (hok : EngineOk c inputs e) (hq : e.steps[q]? = some base)
    (h : tryMarginalize meter q base e = .ok e') :
    Applied c inputs .marginalize base.key e e' := by
  have hb := hok.step_ok hq
  obtain ⟨hok', hl, hall⟩ := tryAll_spec hok (fun w hw _ => by
    obtain ⟨⟨hsub, hne, hle⟩, hall⟩ := (mem_moves hok hq).mp hw
    refine unary_ok hq (by decide) (Quantity_ok_sdiff hb.shape w) (fun he => hall ?_)
      (fun v hv => hb.shape.y_lt v (hsub hv)) hle (fun ha => by cases ha)
      ⟨hne, hsub, Finset.sdiff_union_of_subset hsub, rfl, rfl⟩
    exact hsub.antisymm (Finset.sdiff_eq_empty_iff_subset.mp he)) h
  refine ⟨hok', hl, fun w k hk hy _ hw hs => ?_⟩
  obtain ⟨y, d, z⟩ := k
  obtain ⟨-, -, hyw, hd, hz⟩ := hs
  obtain rfl : base.d = d := hd
  obtain rfl : base.z = z := hz
  by_cases hyp : y = base.y
  · rw [hyp]
    exact hl.keys (mem_keys.mpr ⟨q, base, hq, rfl⟩)
  · obtain ⟨heq, hsub, hne, hall', hcard⟩ := taken_eq hyw hy hyp
    have hkey := hall (base.y \ y) ((mem_moves hok hq).mpr ⟨⟨Finset.sdiff_subset, hne,
      (Finset.card_le_card hsub).trans hw⟩, hall'⟩) (decide_eq_true hcard)
    have hy' : base.y \ (base.y \ y) = y := heq
    show (⟨y, base.d, base.z⟩ : Quantity) ∈ e'.keys
    rw [← hy']
    exact hkey

theorem tryCondition_spec (hok : EngineOk c inputs e) (hq : e.steps[q]? = some base)
    (h : tryCondition meter q base e = .ok e') : Applied c inputs .condition base.key e e' := by
  have hb := hok.step_ok hq
  obtain ⟨hok', hl, hall⟩ := tryAll_spec hok (fun w hw _ => by
    obtain ⟨⟨hsub, hne, hle⟩, hall⟩ := (mem_moves hok hq).mp hw
    have hs := Quantity_ok_sdiff hb.shape w
    have hwlt : ∀ v ∈ w, v < c.vars.length := fun v hv => hb.shape.y_lt v (hsub hv)
    refine unary_ok hq (by decide) ⟨hs.yd, ?_, ?_, hs.y_lt, hs.d_lt, ?_⟩ (fun he => hall ?_)
      hwlt hle (fun ha => by cases ha)
      ⟨hne, hsub, Finset.sdiff_union_of_subset hsub, rfl, rfl⟩
    · exact Finset.disjoint_union_right.mpr ⟨hs.yz, Finset.sdiff_disjoint⟩
    · exact Finset.disjoint_union_right.mpr ⟨hs.dz, (hb.shape.yd.mono_left hsub).symm⟩
    · intro v hv
      rcases Finset.mem_union.mp hv with hv | hv
      exacts [hb.shape.z_lt v hv, hwlt v hv]
    · exact hsub.antisymm (Finset.sdiff_eq_empty_iff_subset.mp he)) h
  refine ⟨hok', hl, fun w k hk hy _ hw hs => ?_⟩
  obtain ⟨y, d, z⟩ := k
  obtain ⟨hwne, hwy, hyw, hd, hz⟩ := hs
  obtain rfl : base.d = d := hd
  obtain rfl : z = base.z ∪ w := hz
  have hdis : Disjoint y w := hk.yz.mono_right Finset.subset_union_right
  have hwe : base.y \ y = w := by
    show base.key.y \ y = w
    rw [← hyw, Finset.union_sdiff_cancel_left hdis]
  have hyp : y ≠ base.y := fun he => hwne (by rw [← hwe, he]; exact Finset.sdiff_self _)
  obtain ⟨heq, -, hne, hall', hcard⟩ := taken_eq hyw hy hyp
  have hkey := hall (base.y \ y) ((mem_moves hok hq).mpr ⟨⟨Finset.sdiff_subset, hne,
    hwe ▸ hw⟩, hall'⟩) (decide_eq_true hcard)
  have hy' : base.y \ (base.y \ y) = y := heq
  rw [hwe] at hkey hy'
  show (⟨y, base.d, base.z ∪ w⟩ : Quantity) ∈ e'.keys
  rw [← hy']
  exact hkey

/-! ## The rules of the do-calculus -/

section Rules

variable {p k : Quantity} {w : Finset Nat}

theorem guarded_iff {s t : Finset Nat} {P : Prop} [Decidable P] :
    (if w = ∅ ∨ s ≠ t then false else decide P) = true ↔ (w ≠ ∅ ∧ s = t) ∧ P := by
  split_ifs with h
  · exact iff_of_false (by decide) fun h' => h.elim h'.1.1 fun hy => hy h'.1.2
  · rw [decide_eq_true_iff]
    exact (and_iff_right (by simpa [not_or] using h)).symm

theorem stepHolds_rule1Insert : StepHolds c .rule1Insert w [p] k ↔ (w ≠ ∅ ∧ p.y = k.y) ∧
    w ⊆ outsideOf (Finset.range c.vars.length) p ∧ p.d = k.d ∧ k.z = p.z ∪ w ∧
      c.separated p.d ∅ p.y w (p.d ∪ p.z) = true :=
  guarded_iff

theorem stepHolds_rule2ToDo : StepHolds c .rule2ToDo w [p] k ↔ (w ≠ ∅ ∧ p.y = k.y) ∧
    w ⊆ p.z ∧ k.d = p.d ∪ w ∧ k.z = p.z \ w ∧
      c.separated p.d w p.y w (p.d ∪ k.z) = true :=
  guarded_iff

theorem stepHolds_rule2ToObservation : StepHolds c .rule2ToObservation w [p] k ↔
    (w ≠ ∅ ∧ p.y = k.y) ∧ w ⊆ p.d ∧ k.d = p.d \ w ∧ k.z = p.z ∪ w ∧
      c.separated k.d w p.y w (k.d ∪ p.z) = true :=
  guarded_iff

theorem stepHolds_rule3Insert : StepHolds c .rule3Insert w [p] k ↔ (w ≠ ∅ ∧ p.y = k.y) ∧
    w ⊆ outsideOf (Finset.range c.vars.length) p ∧ k.d = p.d ∪ w ∧ k.z = p.z ∧
      c.separated (p.d ∪ (w \ c.ancestors p.z p.d)) ∅ p.y w (p.d ∪ p.z) = true :=
  guarded_iff

/-- The side condition of a rule that moves variables from outside. -/
theorem Moved.askable {y d z : Finset Nat} {n : Nat} (hq : Quantity.Ok ⟨y, d, z⟩ n)
    (hw : Moved ⟨y, d, z⟩ w n) : Askable n y w (d ∪ z) :=
  ⟨hq.y_lt, hw.lt, fun v hv => (Finset.mem_union.mp hv).elim (hq.d_lt v) (hq.z_lt v),
    Finset.disjoint_union_right.mpr ⟨hq.yd, hq.yz⟩,
    Finset.disjoint_union_right.mpr ⟨hw.d, hw.z⟩, hw.y.symm⟩

end Rules

section

variable (hok : EngineOk c inputs e)

include hok

theorem mem_outside : w ∈ outside base e ↔
    w ⊆ outsideOf (Finset.range c.vars.length) base.key ∧ w ≠ ∅ ∧
      w.card ≤ mixedSourceMaxMove := by
  have hout : outsideOf (Finset.range c.vars.length) base.key =
      e.everything \ (base.y ∪ base.d ∪ base.z) := by
    ext v
    rw [outsideOf, Finset.mem_filter, everything, hok.vars, Finset.mem_sdiff, Finset.mem_union,
      Finset.mem_union, not_or, not_or, and_assoc]
    rfl
  unfold outside
  rw [mem_subsets (hok.mask_lt fun v hv => ?_), hout]
  rw [← hout] at hv
  exact Finset.mem_range.mp (Finset.mem_filter.mp hv).1

theorem ancestorsWithoutInto_eq {seeds overline : Finset Nat} (hs : ∀ v ∈ seeds, v < c.vars.length) :
    e.ancestorsWithoutInto seeds overline = c.ancestors seeds overline := by
  ext v
  rw [Checker.mem_ancestors hok.reads.rows hs]
  unfold ancestorsWithoutInto
  rw [hok.vars]
  refine mem_closure_parents (H := e.graph.mixed.mutilate overline ∅) (fun u v => ?_)
    (fun u v h => hok.reads.rows.dir_lt u v h.1) (fun v => mem_members (hok.mask_lt hs)) hs
  have hdir : u ∈ e.graph.parents v ↔ e.graph.mixed.dir u v :=
    e.graph.valid.mirrored u v
  split_ifs with ho
  · exact iff_of_false List.not_mem_nil fun h => h.2.1 ho
  · rw [hdir]
    exact ⟨fun h => ⟨h, ho, Set.notMem_empty u⟩, fun h => h.1⟩

theorem tryRule1Insert_spec (hq : e.steps[q]? = some base)
    (h : tryRule1Insert meter q base e = .ok e') : Applied c inputs .rule1Insert base.key e e' := by
  have hb := hok.step_ok hq
  have hmoved : ∀ w ∈ outside base e, Moved base.key w c.vars.length := fun w hw =>
    .of_outside ((mem_outside hok).mp hw).1
  obtain ⟨hok', hl, hall⟩ := tryRule_spec hok (fun _ => true)
    (fun w hw => Moved.askable hb.shape (hmoved w hw)) (fun w hw _ hs => by
      obtain ⟨hout, hne, hle⟩ := (mem_outside hok).mp hw
      exact unary_ok hq (by decide) (Moved.union_z hb.shape (hmoved w hw)) hb.y_ne
        (hmoved w hw).lt hle (fun ha => by cases ha)
        (stepHolds_rule1Insert.mpr ⟨⟨hne, rfl⟩, hout, rfl, rfl, hs⟩)) h
  refine ⟨hok', hl, fun w k _ _ _ hw hs => ?_⟩
  obtain ⟨y, d, z⟩ := k
  obtain ⟨⟨hne, hy⟩, hout, hd, hz, hsep⟩ := stepHolds_rule1Insert.mp hs
  obtain rfl : base.y = y := hy
  obtain rfl : base.d = d := hd
  obtain rfl : z = base.z ∪ w := hz
  exact hall w ((mem_outside hok).mpr ⟨hout, hne, hw⟩) rfl hsep

theorem tryRule2ToDo_spec (hq : e.steps[q]? = some base) (h : tryRule2ToDo meter q base e = .ok e') :
    Applied c inputs .rule2ToDo base.key e e' := by
  have hb := hok.step_ok hq
  have hmem : ∀ {w}, w ∈ subsets base.z mixedSourceMaxMove ↔
      w ⊆ base.z ∧ w ≠ ∅ ∧ w.card ≤ mixedSourceMaxMove := mem_subsets (hok.mask_lt hb.shape.z_lt)
  -- the quantity without the observations that become actions
  have hsplit : ∀ {w}, w ⊆ base.z → Quantity.Ok ⟨base.y, base.d, base.z \ w⟩ c.vars.length ∧
      Moved ⟨base.y, base.d, base.z \ w⟩ w c.vars.length := fun {w} hw => by
    have hshape := hb.shape
    rw [Raw.key, ← Finset.sdiff_union_of_subset hw] at hshape
    exact ⟨hshape.of_union_z, .of_union_z hshape Finset.disjoint_sdiff⟩
  obtain ⟨hok', hl, hall⟩ := tryRule_spec hok
    (fun w => base.d.card + w.card ≤ mixedSourceMaxDo)
    (fun w hw => Moved.askable (hsplit (hmem.mp hw).1).1 (hsplit (hmem.mp hw).1).2)
    (fun w hw hle' hs => by
      obtain ⟨hsub, hne, hle⟩ := hmem.mp hw
      obtain ⟨hshape, hmoved⟩ := hsplit hsub
      exact unary_ok hq (by decide) (Moved.union_d hshape hmoved) hb.y_ne hmoved.lt hle
        (fun _ => (Finset.card_union_le _ _).trans (of_decide_eq_true hle'))
        (stepHolds_rule2ToDo.mpr ⟨⟨hne, rfl⟩, hsub, rfl, rfl, hs⟩)) h
  refine ⟨hok', hl, fun w k _ _ hd3 hw hs => ?_⟩
  obtain ⟨y, d, z⟩ := k
  obtain ⟨⟨hne, hy⟩, hsub, hd, hz, hsep⟩ := stepHolds_rule2ToDo.mp hs
  obtain rfl : base.y = y := hy
  obtain rfl : d = base.d ∪ w := hd
  obtain rfl : z = base.z \ w := hz
  have hcard : (base.d ∪ w).card = base.d.card + w.card :=
    Finset.card_union_of_disjoint (hsplit hsub).2.d.symm
  exact hall w (hmem.mpr ⟨hsub, hne, hw⟩) (decide_eq_true (hcard ▸ hd3 rfl)) hsep

theorem tryRule2ToObservation_spec (hq : e.steps[q]? = some base)
    (h : tryRule2ToObservation meter q base e = .ok e') :
    Applied c inputs .rule2ToObservation base.key e e' := by
  have hb := hok.step_ok hq
  have hmem : ∀ {w}, w ∈ subsets base.d mixedSourceMaxMove ↔
      w ⊆ base.d ∧ w ≠ ∅ ∧ w.card ≤ mixedSourceMaxMove := mem_subsets (hok.mask_lt hb.shape.d_lt)
  -- the quantity without the actions that become observations
  have hsplit : ∀ {w}, w ⊆ base.d → Quantity.Ok ⟨base.y, base.d \ w, base.z⟩ c.vars.length ∧
      Moved ⟨base.y, base.d \ w, base.z⟩ w c.vars.length := fun {w} hw => by
    have hshape := hb.shape
    rw [Raw.key, ← Finset.sdiff_union_of_subset hw] at hshape
    exact ⟨hshape.of_union_d, .of_union_d hshape Finset.disjoint_sdiff⟩
  obtain ⟨hok', hl, hall⟩ := tryRule_spec hok (fun _ => true)
    (fun w hw => Moved.askable (hsplit (hmem.mp hw).1).1 (hsplit (hmem.mp hw).1).2)
    (fun w hw _ hs => by
      obtain ⟨hsub, hne, hle⟩ := hmem.mp hw
      obtain ⟨hshape, hmoved⟩ := hsplit hsub
      exact unary_ok hq (by decide) (Moved.union_z hshape hmoved) hb.y_ne hmoved.lt hle
        (fun ha => by cases ha)
        (stepHolds_rule2ToObservation.mpr ⟨⟨hne, rfl⟩, hsub, rfl, rfl, hs⟩)) h
  refine ⟨hok', hl, fun w k _ _ _ hw hs => ?_⟩
  obtain ⟨y, d, z⟩ := k
  obtain ⟨⟨hne, hy⟩, hsub, hd, hz, hsep⟩ := stepHolds_rule2ToObservation.mp hs
  obtain rfl : base.y = y := hy
  obtain rfl : d = base.d \ w := hd
  obtain rfl : z = base.z ∪ w := hz
  exact hall w (hmem.mpr ⟨hsub, hne, hw⟩) rfl hsep

theorem tryRule3Insert_spec (hq : e.steps[q]? = some base)
    (h : tryRule3Insert meter q base e = .ok e') : Applied c inputs .rule3Insert base.key e e' := by
  have hb := hok.step_ok hq
  have hpast : e.ancestorsWithoutInto base.z base.d = c.ancestors base.z base.d :=
    ancestorsWithoutInto_eq hok hb.shape.z_lt
  have hmoved : ∀ w ∈ outside base e, Moved base.key w c.vars.length := fun w hw =>
    .of_outside ((mem_outside hok).mp hw).1
  obtain ⟨hok', hl, hall⟩ := tryRule_spec hok
    (fun w => base.d.card + w.card ≤ mixedSourceMaxDo)
    (fun w hw => Moved.askable hb.shape (hmoved w hw)) (fun w hw hle' hs => by
      obtain ⟨hout, hne, hle⟩ := (mem_outside hok).mp hw
      rw [hpast] at hs
      exact unary_ok hq (by decide) (Moved.union_d hb.shape (hmoved w hw)) hb.y_ne
        (hmoved w hw).lt hle (fun _ => (Finset.card_union_le _ _).trans (of_decide_eq_true hle'))
        (stepHolds_rule3Insert.mpr ⟨⟨hne, rfl⟩, hout, rfl, rfl, hs⟩)) h
  refine ⟨hok', hl, fun w k _ _ hd3 hw hs => ?_⟩
  obtain ⟨y, d, z⟩ := k
  obtain ⟨⟨hne, hy⟩, hout, hd, hz, hsep⟩ := stepHolds_rule3Insert.mp hs
  obtain rfl : base.y = y := hy
  obtain rfl : d = base.d ∪ w := hd
  obtain rfl : z = base.z := hz
  have hw' := (mem_outside hok).mpr ⟨hout, hne, hw⟩
  have hcard : (base.d ∪ w).card = base.d.card + w.card :=
    Finset.card_union_of_disjoint (hmoved w hw').d.symm
  exact hall w hw' (decide_eq_true (hcard ▸ hd3 rfl)) (hpast ▸ hsep)

/-! ## Products -/

end

theorem step_of_get (h : e.steps[i]? = some raw) : e.step i = raw := by
  unfold step
  rw [List.getD_eq_getElem?_getD, h]
  rfl

theorem mem_byDz : j ∈ e.byDz d z ↔
    ∃ raw, e.steps[j]? = some raw ∧ raw.d = d ∧ raw.z = z := by
  unfold byDz
  rw [List.mem_filter, List.mem_range, decide_eq_true_iff]
  constructor
  · rintro ⟨hlt, hd, hz⟩
    have hj := List.getElem?_eq_getElem hlt
    rw [step_of_get hj] at hd hz
    exact ⟨_, hj, hd, hz⟩
  · rintro ⟨raw, hj, hd, hz⟩
    rw [step_of_get hj]
    exact ⟨(List.getElem?_eq_some_iff.mp hj).1, hd, hz⟩

theorem product_ok {a b : Raw} (hi : e.steps[i]? = some a) (hj : e.steps[j]? = some b)
    (ha : a.key.Ok c.vars.length) (hb : b.key.Ok c.vars.length) (hne : a.y ≠ ∅)
    (hd : a.d = b.d) (hz : a.z = b.z ∪ b.y) :
    RawOk c inputs e.steps ⟨.product, [i, j], ∅, a.y ∪ b.y, b.d, b.z, free, none, false⟩ := by
  have hbz : b.z ⊆ a.z := by
    rw [hz]
    exact Finset.subset_union_left
  have hby : b.y ⊆ a.z := by
    rw [hz]
    exact Finset.subset_union_right
  have hab : Disjoint a.y b.y := ha.yz.mono_right hby
  have hshape : Quantity.Ok ⟨a.y ∪ b.y, b.d, b.z⟩ c.vars.length := by
    refine ⟨Finset.disjoint_union_left.mpr ⟨hd ▸ ha.yd, hb.yd⟩,
      Finset.disjoint_union_left.mpr ⟨?_, hb.yz⟩, hb.dz, fun v hv => ?_, hb.d_lt, hb.z_lt⟩
    · exact ha.yz.mono_right hbz
    · exact (Finset.mem_union.mp hv).elim (ha.y_lt v) (hb.y_lt v)
  have hparams : ∀ v ∈ (∅ : Finset Nat), v < c.vars.length := fun v hv =>
    absurd hv (Finset.notMem_empty v)
  refine ⟨hshape, fun he => hne (Finset.union_eq_empty.mp he).1, hparams, Nat.zero_le _,
    fun h => absurd h Bool.false_ne_true, fun h => MixedRule.noConfusion h, fun _ =>
    ⟨rfl, rfl, [a.key, b.key], ?_, rfl, hd, hd, hz, hab, rfl, rfl⟩⟩
  show [e.steps[i]?.map Raw.key, e.steps[j]?.map Raw.key] = [some a.key, some b.key]
  rw [hi, hj]
  rfl

/-- **A step as the conditional of a product**: every known marginal was found. -/
theorem tryConditional_spec (hok : EngineOk c inputs e) (hq : e.steps[q]? = some base)
    (h : tryConditional meter q base e = .ok e') :
    EngineOk c inputs e' ∧ Later e e' ∧ ∀ p ∈ e.keys, ∀ k,
      StepHolds c .product ∅ [base.key, p] k → k ∈ e'.keys := by
  have hb := hok.step_ok hq
  have hmem : ∀ {b}, b ∈ subsets base.z base.z.card ↔ b ⊆ base.z ∧ b ≠ ∅ ∧ b.card ≤ base.z.card :=
    mem_subsets (hok.mask_lt hb.shape.z_lt)
  obtain ⟨hok', hl, hall⟩ := tryEach_spec _ e e' hok (fun b hbz e₁ hok₁ hl₁ _ =>
    ⟨⟨_, _, rfl⟩, hok₁.charged.caches, fun raw hr => by
      obtain ⟨j, hj, rfl⟩ := Option.map_eq_some_iff.mp hr
      obtain ⟨m, hm, hkey⟩ := known_some hj
      obtain ⟨hy, hd, hz⟩ : m.y = b ∧ m.d = base.d ∧ m.z = base.z \ b := by
        simpa [Raw.key] using hkey
      subst hy
      rw [← hd, ← hz]
      exact product_ok (hl₁.trans charged_later |>.step hq) hm hb.shape
        (hok₁.charged.step_ok hm).shape hb.y_ne hd.symm
        (by rw [hz, Finset.sdiff_union_of_subset (hmem.mp hbz).1])⟩) h
  refine ⟨hok', hl, fun p hp k hs => ?_⟩
  obtain ⟨y, d, z⟩ := k
  obtain ⟨i, m, hm, rfl⟩ := mem_keys.mp hp
  have hmok := hok.step_ok hm
  obtain ⟨-, hd, hd', hz, -, hz', hy⟩ := hs
  obtain rfl : base.d = d := hd'
  obtain rfl : m.z = z := hz'
  obtain rfl : y = base.y ∪ m.y := hy
  have hd : base.d = m.d := hd
  have hz : base.z = m.z ∪ m.y := hz
  have hzm : base.z \ m.y = m.z := by
    have hdis : Disjoint m.z m.y := hmok.shape.yz.symm
    rw [hz, Finset.union_sdiff_cancel_right hdis]
  have hsub : m.y ⊆ base.z := hz ▸ Finset.subset_union_right
  obtain ⟨e₁, -, hl₁, hk⟩ := hall m.y (hmem.mpr ⟨hsub, hmok.y_ne, Finset.card_le_card hsub⟩)
  -- the marginal is known in every later state
  have hknown : (e₁.known ⟨m.y, base.d, base.z \ m.y⟩).isSome = true := by
    rw [known_isSome, hd, hzm]
    exact hl₁.keys hp
  obtain ⟨j, hj⟩ := Option.isSome_iff_exists.mp hknown
  have hkey := hk hknown _ (Option.map_eq_some_iff.mpr ⟨j, hj, rfl⟩)
  rw [hzm] at hkey
  exact hkey

/-- **A step as the marginal of a product**: every known conditional was found. -/
theorem tryMarginal_spec (hok : EngineOk c inputs e) (hq : e.steps[q]? = some base)
    (h : tryMarginal meter q base e = .ok e') :
    EngineOk c inputs e' ∧ Later e e' ∧ ∀ p ∈ e.keys, ∀ k,
      StepHolds c .product ∅ [p, base.key] k → k ∈ e'.keys := by
  have hb := hok.step_ok hq
  obtain ⟨hok', hl, hall⟩ := tryEach_spec _ e e' hok (fun j hj e₁ hok₁ hl₁ _ =>
    ⟨⟨_, _, rfl⟩, hok₁.charged.caches, fun raw hr => by
      obtain ⟨a, ha, hd, hz⟩ := mem_byDz.mp hj
      have ha₁ := (hl₁.trans charged_later).step ha
      cases hr
      rw [step_of_get ha₁]
      exact product_ok ha₁ (hl₁.trans charged_later |>.step hq) (hok.step_ok ha).shape hb.shape
        (hok.step_ok ha).y_ne hd hz⟩) h
  refine ⟨hok', hl, fun p hp k hs => ?_⟩
  obtain ⟨y, d, z⟩ := k
  obtain ⟨i, m, hm, rfl⟩ := mem_keys.mp hp
  obtain ⟨-, hd, hd', hz, -, hz', hy⟩ := hs
  obtain rfl : base.z = z := hz'
  obtain rfl : y = m.y ∪ base.y := hy
  have hd : m.d = base.d := hd
  obtain rfl : base.d = d := hd ▸ hd'
  obtain ⟨e₁, -, hl₁, hk⟩ := hall i (mem_byDz.mpr ⟨m, hm, hd, hz⟩)
  have hkey := hk rfl _ rfl
  rw [step_of_get ((hl₁.trans charged_later).step hm)] at hkey
  exact hkey

/-! ## The expansion -/

/-- What an expansion of `p` does: the table stays justified, and afterwards holds every quantity a
searched rule derives from `p`, or from `p` and a quantity known before. -/
structure ExpandOk (c : Checker) (inputs : List MixedInput) (p : Quantity) (e e' : Engine) :
    Prop where
  ok : EngineOk c inputs e'
  later : Later e e'
  unary : ∀ rule, Derives c rule p e'
  conditional : ∀ b ∈ e.keys, ∀ k, StepHolds c .product ∅ [p, b] k → k ∈ e'.keys
  marginal : ∀ a ∈ e.keys, ∀ k, StepHolds c .product ∅ [a, p] k → k ∈ e'.keys

/-- **An expansion.** -/
theorem expand_spec (hok : EngineOk c inputs e) (hlt : q < e.size)
    (h : expand meter q e = .ok e') : ExpandOk c inputs (e.step q).key e e' := by
  unfold expand at h
  obtain ⟨e₀, h0, h⟩ := bind_ok h
  obtain rfl := charge_ok h0
  have hq : e.charged.steps[q]? = some (e.charged.step q) := by
    have hget : e.charged.steps[q]? = some (e.steps.get ⟨q, hlt⟩) := List.getElem?_eq_getElem hlt
    rw [step_of_get hget]
    exact hget
  obtain ⟨e₁, h1, h⟩ := bind_ok h
  obtain ⟨e₂, h2, h⟩ := bind_ok h
  obtain ⟨e₃, h3, h⟩ := bind_ok h
  obtain ⟨e₄, h4, h⟩ := bind_ok h
  obtain ⟨e₅, h5, h⟩ := bind_ok h
  obtain ⟨e₆, h6, h⟩ := bind_ok h
  obtain ⟨e₇, h7, h8⟩ := bind_ok h
  have r1 := tryMarginalize_spec hok.charged hq h1
  have r2 := tryCondition_spec r1.ok (r1.later.step hq) h2
  have l2 := r1.later.trans r2.later
  have r3 := tryRule1Insert_spec r2.ok (l2.step hq) h3
  have l3 := l2.trans r3.later
  have r4 := tryRule2ToDo_spec r3.ok (l3.step hq) h4
  have l4 := l3.trans r4.later
  have r5 := tryRule2ToObservation_spec r4.ok (l4.step hq) h5
  have l5 := l4.trans r5.later
  have r6 := tryRule3Insert_spec r5.ok (l5.step hq) h6
  have l6 := l5.trans r6.later
  obtain ⟨ok7, l67, c7⟩ := tryConditional_spec r6.ok (l6.step hq) h7
  have l7 := l6.trans l67
  obtain ⟨ok8, l78, c8⟩ := tryMarginal_spec ok7 (l7.step hq) h8
  refine ⟨ok8, charged_later.trans (l7.trans l78), fun rule => ?_,
    fun b hb k hs => l78.keys (c7 b (l6.keys hb) k hs),
    fun a ha k hs => c8 a (l7.keys ha) k hs⟩
  have l6' := l67.trans l78
  cases rule with
  | marginalize =>
    exact r1.closed.mono (r2.later.trans (r3.later.trans (r4.later.trans
      (r5.later.trans (r6.later.trans l6')))))
  | condition =>
    exact r2.closed.mono (r3.later.trans (r4.later.trans (r5.later.trans (r6.later.trans l6'))))
  | rule1Insert => exact r3.closed.mono (r4.later.trans (r5.later.trans (r6.later.trans l6')))
  | rule2ToDo => exact r4.closed.mono (r5.later.trans (r6.later.trans l6'))
  | rule2ToObservation => exact r5.closed.mono (r6.later.trans l6')
  | rule3Insert => exact r6.closed.mono l6'
  | input => exact fun w k _ _ _ _ hs => hs.elim
  | product => exact fun w k _ _ _ _ hs => hs.elim
  | rule1Delete => exact fun w k _ _ _ _ hs => hs.elim
  | rule3Delete => exact fun w k _ _ _ _ hs => hs.elim

/-! ## The start -/

/-- What a usable distribution gives an input. -/
structure InputOk (vars : List Nat) (input : MixedInput) : Prop where
  measured_ne : input.measured ≠ []
  measured : ∀ x ∈ input.measured, x ∈ vars
  intervened : ∀ x ∈ input.intervened, x ∈ vars
  disjoint : ∀ x ∈ input.measured, x ∉ input.intervened

theorem maskOf_ok : maskOf vars vs = .ok s ↔
    (∀ v ∈ vs, v ∈ vars) ∧ (vs.map fun v => vars.idxOf v).toFinset = s := by
  unfold maskOf
  split_ifs with h
  · exact ⟨fun e => ⟨h, (Except.ok.injEq _ _).mp e⟩, fun e => congrArg _ e.2⟩
  · exact iff_of_false (fun e => by cases e) fun e => h e.1

theorem maskOf_lt (h : maskOf vars vs = .ok s) :
    ∀ i ∈ s, i < vars.length := by
  obtain ⟨hk, rfl⟩ := maskOf_ok.mp h
  intro i hi
  obtain ⟨v, hv, rfl⟩ := List.mem_map.mp (List.mem_toFinset.mp hi)
  exact List.idxOf_lt_length_iff.mpr (hk v hv)

theorem maskOf_disjoint {us : List Nat} {t : Finset Nat} (hs : maskOf vars us = .ok s)
    (ht : maskOf vars vs = .ok t) (h : ∀ x ∈ us, x ∉ vs) : Disjoint s t := by
  obtain ⟨hk, rfl⟩ := maskOf_ok.mp hs
  obtain ⟨-, rfl⟩ := maskOf_ok.mp ht
  rw [Finset.disjoint_left]
  intro i hi hj
  obtain ⟨u, hu, rfl⟩ := List.mem_map.mp (List.mem_toFinset.mp hi)
  obtain ⟨v, hv, he⟩ := List.mem_map.mp (List.mem_toFinset.mp hj)
  exact h u hu ((List.idxOf_inj (hk u hu)).mp he.symm ▸ hv)

theorem inputRaw_ok {total : List MixedInput} {k : Nat} {input : MixedInput}
    (hk : total[k]? = some input) (h : InputOk c.vars input)
    (hy : maskOf c.vars input.measured = .ok y) (hd : maskOf c.vars input.intervened = .ok d)
    (steps : List Raw) : RawOk c total steps (inputRaw k input y d) := by
  have hz : ∀ v ∈ (∅ : Finset Nat), v < c.vars.length := fun v hv =>
    absurd hv (Finset.notMem_empty v)
  have hne : y ≠ ∅ := by
    obtain ⟨-, rfl⟩ := maskOf_ok.mp hy
    rw [Ne, List.toFinset_eq_empty_iff, List.map_eq_nil_iff]
    exact h.measured_ne
  exact ⟨⟨maskOf_disjoint hy hd h.disjoint, Finset.disjoint_empty_right _,
      Finset.disjoint_empty_right _, maskOf_lt hy, maskOf_lt hd, hz⟩, hne, hz, Nat.zero_le _,
    fun ha => absurd ha Bool.false_ne_true, fun _ => ⟨rfl, rfl, rfl, k, input, rfl, hk, hy, hd, rfl⟩,
    fun hr => absurd rfl hr⟩

theorem inputRaws_ok : ∀ (rest done : List MixedInput), (∀ input ∈ rest, InputOk c.vars input) →
    ∃ raws, inputRaws c.vars done.length rest = .ok raws ∧
      (∀ raw ∈ raws, ∀ steps, RawOk c (done ++ rest) steps raw) ∧
      ∀ input ∈ rest, ∃ raw ∈ raws, maskOf c.vars input.measured = .ok raw.y ∧
        maskOf c.vars input.intervened = .ok raw.d ∧ raw.z = ∅
  | [], done, _ => ⟨[], rfl, fun _ h => absurd h List.not_mem_nil,
      fun _ h => absurd h List.not_mem_nil⟩
  | input :: rest, done, h => by
    have hin := h input List.mem_cons_self
    have hy := maskOf_ok.mpr ⟨hin.measured, rfl⟩
    have hd := maskOf_ok.mpr ⟨hin.intervened, rfl⟩
    obtain ⟨raws, hraws, hok, hall⟩ := inputRaws_ok rest (done ++ [input]) fun i hi =>
      h i (List.mem_cons_of_mem _ hi)
    rw [List.length_append] at hraws
    have hget : (done ++ input :: rest)[done.length]? = some input := by simp
    refine ⟨_, by
      unfold inputRaws
      rw [hy, hd]
      simp only [bind, Except.bind]
      rw [show inputRaws c.vars (done.length + 1) rest = .ok raws from hraws], ?_, ?_⟩
    · intro raw hr steps
      rcases List.mem_cons.mp hr with rfl | hr
      · exact inputRaw_ok hget hin hy hd steps
      · have := hok raw hr steps
        rwa [List.append_assoc, List.singleton_append] at this
    · intro i hi
      rcases List.mem_cons.mp hi with rfl | hi
      · exact ⟨_, List.mem_cons_self, hy, hd, rfl⟩
      · obtain ⟨raw, hr, hrest⟩ := hall i hi
        exact ⟨raw, List.mem_cons_of_mem _ hr, hrest⟩

theorem foldl_add : ∀ (raws : List Raw) (e : Engine), EngineOk c inputs e →
    (∀ raw ∈ raws, ∀ steps, RawOk c inputs steps raw) →
    EngineOk c inputs (raws.foldl add e) ∧ Later e (raws.foldl add e) ∧
      ∀ raw ∈ raws, raw.key ∈ (raws.foldl add e).keys
  | [], e, hok, _ => ⟨hok, Later.rfl, fun _ h => absurd h List.not_mem_nil⟩
  | raw :: raws, e, hok, h => by
    obtain ⟨hok₁, hk⟩ := add_spec hok (h raw List.mem_cons_self e.steps)
    obtain ⟨hok', hl, hall⟩ := foldl_add raws (e.add raw) hok₁ fun r hr =>
      h r (List.mem_cons_of_mem _ hr)
    refine ⟨hok', (add_later raw).trans hl, fun r hr => ?_⟩
    rcases List.mem_cons.mp hr with rfl | hr
    · exact hl.keys hk
    · exact hall r hr

/-- What a new engine holds. -/
structure Started (c : Checker) (graph : Admg) (inputs : List MixedInput)
    (query : MixedSourceQuery) (e : Engine) : Prop where
  ok : EngineOk c inputs e
  graph_eq : e.graph = graph
  inputs_eq : e.inputs = inputs
  outcomes : maskOf c.vars query.outcomes = .ok e.target.y
  treatments : maskOf c.vars query.treatments = .ok e.target.d
  unconditioned : e.target.z = ∅
  known : ∀ input ∈ inputs, ∃ k ∈ e.keys, maskOf c.vars input.measured = .ok k.y ∧
    maskOf c.vars input.intervened = .ok k.d ∧ k.z = ∅

/-- **A new engine** over usable inputs. -/
theorem new_spec {graph : Admg} (hc : c.Reads graph) (hsmall : c.vars.length < maskBits)
    (hin : ∀ input ∈ inputs, InputOk c.vars input) {query : MixedSourceQuery}
    (hquery : ∀ x ∈ query.outcomes ++ query.treatments, x ∈ c.vars) :
    ∃ e, Engine.new graph c.vars inputs query = .ok e ∧ Started c graph inputs query e := by
  obtain ⟨y, hy⟩ : ∃ y, maskOf c.vars query.outcomes = .ok y :=
    ⟨_, maskOf_ok.mpr ⟨fun x hx => hquery x (List.mem_append_left _ hx), rfl⟩⟩
  obtain ⟨d, hd⟩ : ∃ d, maskOf c.vars query.treatments = .ok d :=
    ⟨_, maskOf_ok.mpr ⟨fun x hx => hquery x (List.mem_append_right _ hx), rfl⟩⟩
  obtain ⟨raws, hraws, hrok, hrall⟩ := inputRaws_ok inputs [] hin
  let start : Engine := ⟨graph, c.vars, [], ⟨y, d, ∅⟩, [], [], [], [], none, 0⟩
  have hstart : EngineOk c inputs start :=
    ⟨hc, rfl, hsmall.le, ⟨fun _ _ _ h => absurd h List.not_mem_nil,
      fun _ _ _ _ _ _ h => absurd h List.not_mem_nil⟩, fun i raw h => (by cases h), List.nodup_nil,
      fun _ h => absurd h List.not_mem_nil, fun f h => (by cases h),
      fun h => absurd h List.not_mem_nil⟩
  obtain ⟨hok, hl, hall⟩ := foldl_add raws start hstart hrok
  have hnew : Engine.new graph c.vars inputs query =
      .ok { raws.foldl add start with inputs := inputs } := by
    unfold Engine.new
    rw [if_neg (Nat.not_le.mpr hsmall), hy, hd]
    simp only [bind, Except.bind]
    rw [show inputRaws c.vars 0 inputs = .ok raws from hraws]
  have htarget : (raws.foldl add start).target = start.target := hl.target
  refine ⟨_, hnew, ⟨⟨hok.reads, hok.vars, hok.small, ⟨hok.caches.graphs, hok.caches.separations⟩,
    hok.steps, hok.nodup, hok.alternatives, hok.found_spec, hok.found_isSome⟩, hl.graph, rfl, ?_, ?_,
    ?_, fun input hi => ?_⟩⟩
  · show maskOf c.vars query.outcomes = .ok (raws.foldl add start).target.y
    rw [htarget]
    exact hy
  · show maskOf c.vars query.treatments = .ok (raws.foldl add start).target.d
    rw [htarget]
    exact hd
  · show (raws.foldl add start).target.z = ∅
    rw [htarget]
  · obtain ⟨raw, hr, hmy, hmd, hz⟩ := hrall input hi
    exact ⟨raw.key, hall raw hr, hmy, hmd, hz⟩

/-! ## The run -/

theorem progress (meter : Nat → Option SearchStop) :
    Generations.Progress size (expand meter) (EngineOk c inputs) Later where
  refl _ := Later.rfl
  trans _ _ _ := Later.trans
  size_le _ _ := Later.size_le
  step _ _ _ hok hlt h := ⟨(expand_spec hok hlt h).ok, (expand_spec hok hlt h).later⟩

/-- The table holds no more entries than there are triples of masks. -/
theorem EngineOk.size_le (hok : EngineOk c inputs e) : e.size ≤ 8 ^ c.vars.length := by
  let masks := (Finset.range c.vars.length).powerset
  let triples := masks ×ˢ masks ×ˢ masks
  have hinj : (e.keys.map fun k => (k.y, k.d, k.z)).Nodup := by
    refine List.Nodup.map ?_ hok.nodup
    rintro ⟨y, d, z⟩ ⟨y', d', z'⟩ hk
    obtain ⟨rfl, rfl, rfl⟩ : y = y' ∧ d = d' ∧ z = z' := by simpa using hk
    rfl
  have hsub : (e.keys.map fun k => (k.y, k.d, k.z)).toFinset ⊆ triples := by
    intro t ht
    obtain ⟨k, hk, rfl⟩ := List.mem_map.mp (List.mem_toFinset.mp ht)
    obtain ⟨i, raw, hi, rfl⟩ := mem_keys.mp hk
    have hshape := (hok.step_ok hi).shape
    simp only [triples, masks, Finset.mem_product, Finset.mem_powerset]
    exact ⟨fun v hv => Finset.mem_range.mpr (hshape.y_lt v hv),
      fun v hv => Finset.mem_range.mpr (hshape.d_lt v hv),
      fun v hv => Finset.mem_range.mpr (hshape.z_lt v hv)⟩
  calc e.size = (e.keys.map fun k => (k.y, k.d, k.z)).length := by
        rw [List.length_map, keys, List.length_map, size]
    _ = (e.keys.map fun k => (k.y, k.d, k.z)).toFinset.card :=
        (List.toFinset_card_of_nodup hinj).symm
    _ ≤ triples.card := Finset.card_le_card hsub
    _ = 8 ^ c.vars.length := by
        simp only [triples, masks, Finset.card_product, Finset.card_powerset, Finset.card_range]
        rw [show (8 : Nat) = 2 * (2 * 2) by rfl, Nat.mul_pow, Nat.mul_pow]

/-- **A run ends**, whatever the budget answers. -/
theorem run_ends (hok : EngineOk c inputs e) (meter : Nat → Option SearchStop) {fuel : Nat}
    (hfuel : 8 ^ c.vars.length < fuel) : ∃ r, e.run meter fuel = some r := by
  unfold run
  split_ifs with hfound
  · exact ⟨_, rfl⟩
  · exact Generations.generations_ends (progress meter) (fun s hs => hs.size_le) fuel 0 e hok
      (Nat.zero_le _) (by omega)

end Engine

end Antecedent.Identify
