import Antecedent.Identify.GeneralIdSound

/-!
# The memo table of the general identifier

Model of `id_recurse` with its memo table (`id.rs:898-923`): a call that is not stopped by the meter
answers a stored outcome of its key, or runs and stores what it answers. The table is shared by the
two sides of a contrast, whose levels are part of the key.

* **`idRecurseMemo_truthful`**: the table answers what the recursion would.
* **`memo_agrees`**: a run with the table ends where the recursion does.
* **`functional_is_law`**: the functional of a run is the truncated factorisation.
-/

namespace Antecedent.Identify.GeneralId

open Core
open Expr
open Graph
open Mixed
open Prob
open Finset

/-! ## Keys -/

mutual

def Factor.decEq : (f g : Factor) → Decidable (f = g)
  | .observed v c, .observed v' c' => decidable_of_iff (v = v' ∧ c = c') (by simp)
  | .observed _ _, .conditional _ _ _ => isFalse nofun
  | .conditional _ _ _, .observed _ _ => isFalse nofun
  | .conditional v s fs, .conditional v' s' fs' =>
    have := decEqAll fs fs'
    decidable_of_iff (v = v' ∧ s = s' ∧ fs = fs') (by simp)

def decEqAll : (fs gs : List Factor) → Decidable (fs = gs)
  | [], [] => isTrue rfl
  | [], _ :: _ => isFalse nofun
  | _ :: _, [] => isFalse nofun
  | f :: fs, g :: gs =>
    have := f.decEq g
    have := decEqAll fs gs
    decidable_of_iff (f = g ∧ fs = gs) (by simp)

end

instance : DecidableEq Factor := Factor.decEq

deriving instance DecidableEq for Law, DistCtx

/-- Lines 28-35. -/
structure SubproblemKey where
  y : Finset Nat
  x : Finset Nat
  v : Finset Nat
  assign : Assign
  dist : DistCtx
  deriving DecidableEq

def IdQuery.key (q : IdQuery) (assign : Assign) : SubproblemKey := ⟨q.y, q.x, q.v, assign, q.dist⟩

/-- `IdRun`, its memo table, newest first, and `candidates_examined`. -/
structure RunState where
  memo : List (SubproblemKey × IdOutcome)
  examined : Nat

/-! ## The steps of a call -/

/-- What a call does: it answers, passes a call on, or takes factors in turn. -/
inductive Step
  | answer (r : Except IdentificationError IdOutcome)
  | pass (q : IdQuery)
  | factors (qs : List IdQuery) (finish : List ExprTree → ExprTree)

variable (p : PreparedAdmg)

/-- `id_lines_5_to_7`, as a step. -/
def stepLines5To7 (assign : Assign) (q : IdQuery) (s : Finset Nat) : Step :=
  if s ∈ p.cComponents q.v then
    .answer ((districtFactor p assign s q.y q.v q.dist).map .expr)
  else match (p.cComponents q.v).find? fun c => s ⊆ c ∧ c ≠ s with
    | some s' => match q.dist.conditionals p s' q.v with
      | .ok factors => .pass ⟨q.y, q.x ∩ s', s', .cFactor ⟨∅, factors⟩⟩
      | .error e => .answer (.error e)
    | none => .answer (.error (.invariantViolated
        "general ID: no line applies to the current C-component state"))

/-- `id_body`, as a step. -/
def stepBody (assign : Assign) (q : IdQuery) : Step :=
  if q.x = ∅ then .answer ((distMarginal p assign q.y q.v q.dist).map .expr)
  else
    let anY := p.ancestors q.y q.v
    if q.v ≠ anY then .pass ⟨q.y, q.x ∩ anY, anY, q.dist.marginalize (q.v \ anY)⟩
    else
      let w := (q.v \ q.x) \ p.ancestorsBarX q.y q.v q.x
      if w ≠ ∅ then .pass { q with x := q.x ∪ w }
      else match p.cComponents (q.v \ q.x) with
        | [] => .answer (.error (.invariantViolated
            "general ID: outcomes are not disjoint from interventions"))
        | [s] =>
          if p.isSingleCComponent q.v then .answer (.ok (.fail (.fromSets p q.v s)))
          else stepLines5To7 p assign q s
        | comps => .factors (comps.map fun s => ⟨s, q.v \ s, q.v, q.dist⟩)
            fun factors => sumOver p ((q.v \ q.y) \ q.x) (.product factors)

def Step.run (call : IdQuery → Answer) : Step → Answer
  | .answer r => some r
  | .pass q => call q
  | .factors qs finish => factorize call finish qs []

abbrev MemoAnswer := Option (Except IdentificationError IdOutcome × RunState)

/-- Line 4 with a table. -/
def factorizeMemo (call : IdQuery → RunState → MemoAnswer) (finish : List ExprTree → ExprTree) :
    List IdQuery → List ExprTree → RunState → MemoAnswer
  | [], factors, st => some (.ok (.expr (finish factors)), st)
  | q :: qs, factors, st => match call q st with
    | some (.ok (.expr e), st') => factorizeMemo call finish qs (factors ++ [e]) st'
    | answer => answer

def Step.runMemo (call : IdQuery → RunState → MemoAnswer) : Step → RunState → MemoAnswer
  | .answer r, st => some (r, st)
  | .pass q, st => call q st
  | .factors qs finish, st => factorizeMemo call finish qs [] st

/-- `id_recurse` (`id.rs:898-923`); `charge` is what the meter answers the calls in turn. -/
def idRecurseMemo (charge : Nat → Except IdentificationError Unit) (assign : Assign) :
    Nat → IdQuery → RunState → MemoAnswer
  | 0, _, _ => none
  | depth + 1, q, st =>
    let st : RunState := { st with examined := st.examined + 1 }
    match charge st.examined with
    | .error e => some (.error e, st)
    | .ok () => match st.memo.find? fun entry => entry.1 = q.key assign with
      | some hit => some (.ok hit.2, st)
      | none => match (stepBody p assign q).runMemo (idRecurseMemo charge assign depth) st with
        | some (.ok outcome, st') =>
          some (.ok outcome, { st' with memo := (q.key assign, outcome) :: st'.memo })
        | answer => answer

variable {p} {assign : Assign} {call call' : IdQuery → Answer} {q : IdQuery}
  {r : Except IdentificationError IdOutcome}
  {finish : List ExprTree → ExprTree}

theorem idLines5To7_eq {s : Finset Nat} :
    idLines5To7 p assign call q s = (stepLines5To7 p assign q s).run call := by
  unfold idLines5To7 stepLines5To7
  split_ifs
  · rfl
  · match (p.cComponents q.v).find? fun c => s ⊆ c ∧ c ≠ s with
    | none => rfl
    | some s' =>
      dsimp only
      match q.dist.conditionals p s' q.v with
      | .ok factors => rfl
      | .error e => rfl

/-- **The steps of a call are those of the recursion.** -/
theorem idBody_eq : idBody p assign call q = (stepBody p assign q).run call := by
  unfold idBody stepBody
  by_cases hx : q.x = ∅
  · rw [if_pos hx, if_pos hx]
    rfl
  rw [if_neg hx, if_neg hx]
  by_cases hv : q.v ≠ p.ancestors q.y q.v
  · rw [if_pos hv, if_pos hv]
    rfl
  rw [if_neg hv, if_neg hv]
  by_cases hw : (q.v \ q.x) \ p.ancestorsBarX q.y q.v q.x ≠ ∅
  · rw [if_pos hw, if_pos hw]
    rfl
  rw [if_neg hw, if_neg hw]
  match p.cComponents (q.v \ q.x) with
  | [] => rfl
  | [s] =>
    show (if p.isSingleCComponent q.v = true then _ else _) =
      Step.run call (if p.isSingleCComponent q.v = true then _ else _)
    split_ifs
    · rfl
    · exact idLines5To7_eq
  | _ :: _ :: _ => rfl

/-! ## More depth -/

/-- What line 4 answers it answers with any calls that answer as much. -/
theorem factorize_mono (h : ∀ q r, call q = some r → call' q = some r)
    :
    ∀ {qs : List IdQuery} {factors : List ExprTree},
      factorize call finish qs factors = some r → factorize call' finish qs factors = some r
  | [], _, hr => hr
  | q :: qs, factors, hr => by
    unfold factorize at hr ⊢
    cases hq : call q with
    | none =>
      rw [hq] at hr
      cases hr
    | some a =>
      rw [hq] at hr
      rw [h q a hq]
      rcases a with e | e | e
      · exact hr
      · exact factorize_mono h hr
      · exact hr

variable {step : Step} {r : Except IdentificationError IdOutcome}

theorem Step.run_mono (h : ∀ q r, call q = some r → call' q = some r)
    (hr : step.run call = some r) :
    step.run call' = some r := by
  cases step with
  | answer _ => exact hr
  | pass q => exact h q r hr
  | factors qs finish => exact factorize_mono h hr

/-- **An answer does not change with the bound on the depth.** -/
theorem idRecurse_mono : ∀ {depth depth' : Nat} {q : IdQuery}
    {r : Except IdentificationError IdOutcome}, depth ≤ depth' →
      idRecurse p assign depth q = some r → idRecurse p assign depth' q = some r
  | 0, _, _, _, _, h => nomatch h
  | depth + 1, depth' + 1, q, r, hle, h => by
    rw [idRecurse, idBody_eq] at h ⊢
    exact Step.run_mono (fun q r hq => idRecurse_mono (Nat.le_of_succ_le_succ hle) hq) h

/-! ## The table -/

def Answers (p : PreparedAdmg) (assign : Assign) (q : IdQuery) (o : IdOutcome) : Prop :=
  ∃ depth, idRecurse p assign depth q = some (.ok o)

/-- Every stored outcome is that of its key. -/
def RunState.Faithful (p : PreparedAdmg) (st : RunState) : Prop :=
  ∀ entry ∈ st.memo, Answers p entry.1.assign ⟨entry.1.y, entry.1.x, entry.1.v, entry.1.dist⟩
    entry.2

/-- A call with a table that answers what the recursion would, and keeps the table so. -/
def Truthful (p : PreparedAdmg) (assign : Assign) (call : IdQuery → RunState → MemoAnswer) : Prop :=
  ∀ q st r st', st.Faithful p → call q st = some (r, st') →
    st'.Faithful p ∧ ∀ o, r = .ok o → Answers p assign q o

/-- Line 4 with a table. -/
theorem factorizeMemo_truthful {call : IdQuery → RunState → MemoAnswer}
    (h : Truthful p assign call)
    {st' : RunState} :
    ∀ {qs : List IdQuery} {factors : List ExprTree} {st : RunState}, st.Faithful p →
      factorizeMemo call finish qs factors st = some (r, st') →
        st'.Faithful p ∧ ∀ o, r = .ok o →
          ∃ depth, factorize (idRecurse p assign depth) finish qs factors = some (.ok o)
  | [], factors, st, hst, hr => by
    cases hr
    exact ⟨hst, fun o ho => ⟨0, congrArg some ho⟩⟩
  | q :: qs, factors, st, hst, hr => by
    unfold factorizeMemo at hr
    cases hq : call q st with
    | none =>
      rw [hq] at hr
      cases hr
    | some a =>
      rw [hq] at hr
      obtain ⟨a, st₁⟩ := a
      obtain ⟨hst₁, hans⟩ := h q st a st₁ hst hq
      rcases a with err | e | hedge
      · cases hr
        refine ⟨hst₁, fun _ ho => ?_⟩
        cases ho
      · obtain ⟨hst', hrest⟩ := factorizeMemo_truthful h hst₁ hr
        refine ⟨hst', fun o ho => ?_⟩
        obtain ⟨d₁, h₁⟩ := hans _ rfl
        obtain ⟨d₂, h₂⟩ := hrest o ho
        refine ⟨max d₁ d₂, ?_⟩
        unfold factorize
        rw [idRecurse_mono (le_max_left d₁ d₂) h₁]
        exact factorize_mono (fun q r hq => idRecurse_mono (le_max_right d₁ d₂) hq) h₂
      · cases hr
        refine ⟨hst₁, fun o ho => ?_⟩
        obtain ⟨d, hd⟩ := hans o ho
        cases ho
        refine ⟨d, ?_⟩
        unfold factorize
        rw [hd]

theorem Step.runMemo_truthful {call : IdQuery → RunState → MemoAnswer} (h : Truthful p assign call)
    {st st' : RunState} (hst : st.Faithful p) (hr : step.runMemo call st = some (r, st')) :
    st'.Faithful p ∧ ∀ o, r = .ok o →
      ∃ depth, step.run (idRecurse p assign depth) = some (.ok o) := by
  cases step with
  | answer a =>
    cases hr
    exact ⟨hst, fun o ho => ⟨0, congrArg some ho⟩⟩
  | pass q => exact h q st r st' hst hr
  | factors qs finish => exact factorizeMemo_truthful h hst hr

/-- **The table answers what the recursion would.** -/
theorem idRecurseMemo_truthful {charge : Nat → Except IdentificationError Unit} :
    ∀ depth, Truthful p assign (idRecurseMemo p charge assign depth)
  | 0 => fun _ _ _ _ _ h => nomatch h
  | depth + 1 => fun q st r st' hst h => by
    have hst₀ : RunState.Faithful p ⟨st.memo, st.examined + 1⟩ := hst
    unfold idRecurseMemo at h
    dsimp only at h
    split at h
    · cases h
      exact ⟨hst, fun _ ho => nomatch ho⟩
    · split at h
      · -- a hit is the outcome of its key
        rename_i hit hfind
        cases h
        refine ⟨hst, fun o ho => ?_⟩
        cases ho
        have hkey := List.find?_some hfind
        rw [decide_eq_true_eq] at hkey
        have hans := hst hit (List.mem_of_find?_eq_some hfind)
        rw [hkey] at hans
        exact hans
      · split at h
        · rename_i outcome st₁ hrun
          cases h
          obtain ⟨hst₁, hans⟩ := Step.runMemo_truthful (idRecurseMemo_truthful depth)
            hst₀ hrun
          obtain ⟨d, hd⟩ := hans _ rfl
          have hnew : Answers p assign q outcome := ⟨d + 1, by rw [idRecurse, idBody_eq, hd]⟩
          refine ⟨fun entry hentry => ?_, fun o ho => ?_⟩
          · rcases List.mem_cons.mp hentry with rfl | hentry
            · exact hnew
            · exact hst₁ entry hentry
          · cases ho
            exact hnew
        · rename_i hno
          obtain ⟨hst₁, hans⟩ := Step.runMemo_truthful (idRecurseMemo_truthful depth)
            hst₀ h
          refine ⟨hst₁, fun o ho => ?_⟩
          cases ho
          exact absurd h (hno o st')

/-! ## A run -/

/-- **The functional is the truncated factorisation.** On a graph of distinct variables, a run for
`y` given `x` whose levels are of nodes of `x`, on any table a run left: it leaves such a table, and
in every positive model a functional it answers is the law of `y` under `do(x)`, at every
assignment with these levels. -/
theorem functional_is_law {admg : Admg} {p : PreparedAdmg} (hnew : PreparedAdmg.new admg = .ok p)
    (hd : PreparedAdmg.Distinct p.admg) :
    RunState.Faithful p ⟨[], 0⟩ ∧
    ∀ (y x : Finset Nat) (assign : Assign) (charge : Nat → Except IdentificationError Unit)
      (depth : Nat) (r : Except IdentificationError IdOutcome) (st st' : RunState),
      (∀ u ∈ y, u < p.admg.nodeCount) → (∀ u ∈ x, u < p.admg.nodeCount) → y.Nonempty →
      Disjoint y x → (∀ e ∈ assign, e.1 ∈ x) → st.Faithful p →
      idRecurseMemo p charge assign depth ⟨y, x, .range p.admg.nodeCount, .marginal⟩ st =
        some (r, st') →
      st'.Faithful p ∧ ∀ e, r = .ok (.expr e) →
        ∀ (Ω : Fin p.admg.nodeCount → Type) [∀ v, Fintype (Ω v)] [∀ v, DecidableEq (Ω v)]
          (M : Model (onNodes p.admg) Ω), M.Positive → ∀ (read : ∀ v, Value → Ω v) (z : ∀ v, Ω v),
          e.eval (named (labelOf p)) (observed (labelOf p) read M) z =
            M.law (lift p.admg.nodeCount x) (lift p.admg.nodeCount y) (relevel read assign z) := by
  obtain ⟨p', hp', hadmg, htop⟩ := PreparedAdmg.new_spec admg
  obtain rfl : p' = p := Except.ok.inj (hp'.symm.trans hnew)
  rw [← hadmg] at htop
  refine ⟨fun _ h => absurd h List.not_mem_nil, ?_⟩
  intro y x assign charge depth r st st' hy hx hne hdis ha hst hrun
  obtain ⟨hst', hans⟩ := idRecurseMemo_truthful depth _ _ _ _ hst hrun
  refine ⟨hst', fun e he Ω _ _ M hM read z => ?_⟩
  obtain ⟨d, hdepth⟩ := hans _ he
  have hcall : Call p' x y ⟨y, x, .range p'.admg.nodeCount, .marginal⟩ := Call.root hx hy hne hdis
  have hreads : Reads M x y ⟨y, x, .range p'.admg.nodeCount, .marginal⟩ :=
    ⟨hcall, fun _ _ u hu => Finset.mem_range.mpr (p'.admg.valid.in_range u _ hu).1⟩
  rw [idRecurse_sound hd htop hx ha hM hreads e hdepth z]
  -- outside the treatments are all other nodes
  have hset : lift p'.admg.nodeCount (Finset.range p'.admg.nodeCount \ x) =
      (lift p'.admg.nodeCount x)ᶜ := by
    ext i
    rw [mem_lift, Finset.mem_sdiff, Finset.mem_compl, mem_lift, Finset.mem_range]
    exact and_iff_right i.isLt
  show marg (lift _ ((Finset.range p'.admg.nodeCount \ x) \ y))
    (M.q (lift _ (Finset.range p'.admg.nodeCount \ x))) _ = _
  rw [lift_sdiff, hset, ← Model.law_compl, compl_compl]

/-! ## The edge -/

/-- `X → Y`. -/
def edge : Except GraphError Admg := (Admg.withVariables 2).insertDirected 0 1

/-- Line 6 answers `P(Y | X)` on the edge. -/
theorem edge_answers : ∃ g, edge = .ok g ∧ PreparedAdmg.new g = .ok ⟨g, [0, 1]⟩ ∧
    g.nodeCount = 2 ∧ (∀ v < 2, nodeVariableId g.nodes v = some v) ∧
    ∃ st', idRecurseMemo ⟨g, [0, 1]⟩ (fun _ => .ok ()) [(0, .bool true)] 1
      ⟨{1}, {0}, .range 2, .marginal⟩ ⟨[], 0⟩ =
      some (.ok (.expr (distribution [1] [0] [⟨0, .bool true⟩] .interventional)), st') := by
  refine ⟨_, rfl, rfl, rfl, fun v hv => ?_, ?_⟩
  · match v, hv with
    | 0, _ => rfl
    | 1, _ => rfl
  generalize hg : (⟨_, [0, 1]⟩ : PreparedAdmg) = p
  have hseeds : ({1} ∩ Finset.range 2 : Finset Nat) = {1} := by decide
  have hanc : p.ancestors {1} (.range 2) = .range 2 := by
    unfold PreparedAdmg.ancestors Graph.Admg.ancestorsWithin
    rw [hseeds, Finset.sort_singleton]
    subst hg
    decide
  have hbar : (Finset.range 2 \ {0}) \ p.ancestorsBarX {1} (.range 2) {0} = ∅ := by
    unfold PreparedAdmg.ancestorsBarX Graph.Admg.ancestorsWithin
    rw [hseeds, Finset.sort_singleton]
    subst hg
    decide
  have hcomp : p.cComponents (Finset.range 2 \ {0}) = [{1}] := by
    subst hg
    decide
  have hall : p.cComponents (Finset.range 2) = [{0}, {1}] := by
    subst hg
    decide
  have hone : p.isSingleCComponent (.range 2) = false := by
    subst hg
    decide
  have hpre : (preceding p (.range 2)).filter (fun e => e.1 ∈ ({1} : Finset Nat)) = [(1, {0})] := by
    subst hg
    decide
  have hvars : p.vars {0} = [0] := by
    unfold PreparedAdmg.vars
    rw [Finset.sort_singleton]
    subst hg
    rfl
  have hemit : emitDistribution p [(0, .bool true)] 1 [0] =
      .ok (distribution [1] [0] [⟨0, .bool true⟩] .interventional) := by
    subst hg
    rfl
  have hstep : stepBody p [(0, .bool true)] ⟨{1}, {0}, .range 2, .marginal⟩ =
      .answer (.ok (.expr (distribution [1] [0] [⟨0, .bool true⟩] .interventional))) := by
    unfold stepBody stepLines5To7 districtFactor cComponentExpression qComponentProduct
    simp only [hanc, hbar, hcomp, hall, hone, hpre, List.mapM_cons, List.mapM_nil, hvars, hemit]
    rfl
  unfold idRecurseMemo
  simp [hstep, Step.runMemo]

def readBool (n : Nat) : Fin n → Value → Bool := fun _ level => level = .bool true

/-- The uniform model of the edge. -/
theorem functional_is_law_edge : ∃ g e st', edge = .ok g ∧
    idRecurseMemo ⟨g, [0, 1]⟩ (fun _ => .ok ()) [(0, .bool true)] 1
      ⟨{1}, {0}, .range g.nodeCount, .marginal⟩ ⟨[], 0⟩ = some (.ok (.expr e), st') ∧
    RunState.Faithful ⟨g, [0, 1]⟩ st' ∧ ∀ z : Fin g.nodeCount → Bool,
      e.eval (named (labelOf ⟨g, [0, 1]⟩)) (observed (labelOf ⟨g, [0, 1]⟩)
        (readBool _) (uniform (onNodes g) fun _ => Bool)) z =
          (uniform (onNodes g) fun _ => Bool).law (lift g.nodeCount {0}) (lift g.nodeCount {1})
            (relevel (p := ⟨g, [0, 1]⟩) (readBool _) [(0, .bool true)] z) := by
  obtain ⟨g, hg, hp, hn, hlabels, st', hrun⟩ := edge_answers
  rw [← hn] at hrun
  have hd : PreparedAdmg.Distinct g := fun i hi j hj h => by
    rw [hlabels i (hn ▸ hi), hlabels j (hn ▸ hj)] at h
    exact Option.some.inj h
  have hlt : ∀ w < 2, ∀ u ∈ ({w} : Finset Nat), u < g.nodeCount := fun w hw u hu => by
    rw [Finset.mem_singleton.mp hu, hn]
    exact hw
  obtain ⟨hempty, hlaw⟩ := functional_is_law hp hd
  obtain ⟨hst', hval⟩ := hlaw {1} {0} [(0, .bool true)] _ 1 _ _ _ (hlt 1 (by decide))
    (hlt 0 (by decide)) (Finset.singleton_nonempty 1) (by decide)
    (fun e he => by simp [List.mem_singleton.mp he]) hempty hrun
  exact ⟨g, _, st', hg, hrun, hst', hval _ rfl (fun _ => Bool) _ (uniform_positive _ _) _⟩

/-! ## A run with a table -/

section Agreement

variable {charge : Nat → Except IdentificationError Unit} {st : RunState} {q : IdQuery}
  {call : IdQuery → Answer}
  {memo : IdQuery → RunState → MemoAnswer}
  {r : Except IdentificationError IdOutcome}

/-- The recursion's answer, or an error of the meter. -/
def AgreesWith (charge : Nat → Except IdentificationError Unit)
    (r a : Except IdentificationError IdOutcome) : Prop :=
  a = r ∨ ∃ n e, charge n = .error e ∧ a = .error e

/-- A call with a table that ends where the recursion does, as it does unless the meter stops it. -/
def Agreeing (p : PreparedAdmg) (charge : Nat → Except IdentificationError Unit)
    (call : IdQuery → Answer) (memo : IdQuery → RunState → MemoAnswer) : Prop :=
  ∀ q r st, st.Faithful p → call q = some r →
    ∃ a st', memo q st = some (a, st') ∧ st'.Faithful p ∧ AgreesWith charge r a

theorem factorizeMemo_agrees
    (h : Agreeing p charge call memo) :
    ∀ {qs : List IdQuery} {factors : List ExprTree} {st : RunState}, st.Faithful p →
      factorize call finish qs factors = some r →
      ∃ a st', factorizeMemo memo finish qs factors st = some (a, st') ∧ st'.Faithful p ∧
        AgreesWith charge r a
  | [], factors, st, hst, hr => ⟨r, st, by cases hr; rfl, hst, Or.inl rfl⟩
  | q :: qs, factors, st, hst, hr => by
    unfold factorize at hr
    cases hq : call q with
    | none =>
      rw [hq] at hr
      cases hr
    | some b =>
      rw [hq] at hr
      obtain ⟨a, st₁, ha, hst₁, hagree⟩ := h q b st hst hq
      unfold factorizeMemo
      rw [ha]
      rcases hagree with rfl | ⟨n, e, hn, rfl⟩
      · rcases a with e | e | hedge
        · exact ⟨_, st₁, rfl, hst₁, Or.inl (Option.some.inj hr)⟩
        · exact factorizeMemo_agrees h hst₁ hr
        · exact ⟨_, st₁, rfl, hst₁, Or.inl (Option.some.inj hr)⟩
      · exact ⟨_, st₁, rfl, hst₁, Or.inr ⟨n, e, hn, rfl⟩⟩

theorem Step.runMemo_agrees
    (h : Agreeing p charge call memo) {step : Step} (hst : st.Faithful p)
    (hr : step.run call = some r) :
    ∃ a st', step.runMemo memo st = some (a, st') ∧ st'.Faithful p ∧ AgreesWith charge r a := by
  cases step with
  | answer b => exact ⟨b, st, rfl, hst, Or.inl (Option.some.inj hr)⟩
  | pass q => exact h q r st hst hr
  | factors qs finish => exact factorizeMemo_agrees h hst hr

/-- **A call with a table ends where the recursion does.** -/
theorem idRecurseMemo_agrees (charge : Nat → Except IdentificationError Unit) : ∀ depth,
    Agreeing p charge (idRecurse p assign depth) (idRecurseMemo p charge assign depth)
  | 0 => fun _ _ _ _ h => nomatch h
  | depth + 1 => fun q r st hst h => by
    suffices hrun : ∃ a st', idRecurseMemo p charge assign (depth + 1) q st = some (a, st') ∧
        AgreesWith charge r a by
      obtain ⟨a, st', hrun, ha⟩ := hrun
      exact ⟨a, st', hrun, (idRecurseMemo_truthful (depth + 1) q st a st' hst hrun).1, ha⟩
    have hst₀ : RunState.Faithful p ⟨st.memo, st.examined + 1⟩ := hst
    unfold idRecurseMemo
    dsimp only
    cases hcharge : charge (st.examined + 1) with
    | error e => exact ⟨_, _, rfl, Or.inr ⟨_, e, hcharge, rfl⟩⟩
    | ok _ =>
      cases hfind : st.memo.find? fun entry => entry.1 = q.key assign with
      | some hit =>
        -- a hit is the outcome of its key, and so is the recursion's answer
        have hkey := List.find?_some hfind
        rw [decide_eq_true_eq] at hkey
        obtain ⟨d, hd⟩ := hst hit (List.mem_of_find?_eq_some hfind)
        rw [hkey] at hd
        have hd' := idRecurse_mono (Nat.le_max_left d (depth + 1)) hd
        have h' := idRecurse_mono (Nat.le_max_right d (depth + 1)) h
        exact ⟨_, _, rfl, Or.inl (Option.some.inj (hd'.symm.trans h'))⟩
      | none =>
        rw [idRecurse, idBody_eq] at h
        obtain ⟨a, st', hrun, -, ha⟩ := Step.runMemo_agrees (idRecurseMemo_agrees charge depth) hst₀ h
        dsimp only
        rw [hrun]
        cases a with
        | error e => exact ⟨_, _, rfl, ha⟩
        | ok o => exact ⟨_, _, rfl, ha⟩

end Agreement

/-- **A run ends, with a table of outcomes as without**: the recursion answers an expression, an
error or a failure that is a hedge for the run's problem, and the run with the table answers the
same unless its meter stops it. -/
theorem memo_agrees (hx : ∀ v ∈ x, v < p.admg.nodeCount) (hy : ∀ v ∈ y, v < p.admg.nodeCount)
    (hne : y.Nonempty) (hd : Disjoint y x) :
    ∃ r, idRun p assign y x = some r ∧
      (∀ hedge, r = .ok (.fail hedge) → ∃ f f' : Finset Nat, hedge = .fromSets p f f' ∧
        p.admg.mixed.Hedge (x : Set Nat) y f f') ∧
      ∀ charge : Nat → Except IdentificationError Unit, ∃ a st',
        idRecurseMemo p charge assign (maxDepth p + 1) ⟨y, x, .range p.admg.nodeCount, .marginal⟩ ⟨[], 0⟩ =
          some (a, st') ∧ (a = r ∨ ∃ n e, charge n = .error e ∧ a = .error e) := by
  have hsettled : Settled p x y (idRun p assign y x) := idRun_settled hx hy hne hd
  obtain ⟨r, hr, hgood⟩ := hsettled
  refine ⟨r, hr, fun hedge he => ?_, fun charge => ?_⟩
  · obtain ⟨f, f', hset, -, -, hhedge⟩ := (hgood hedge he).sets
    exact ⟨f, f', hset, hhedge⟩
  · obtain ⟨a, st', hrun, -, ha⟩ := idRecurseMemo_agrees charge (maxDepth p + 1) _ r ⟨[], 0⟩
      (fun _ h => absurd h List.not_mem_nil) hr
    exact ⟨a, st', hrun, ha⟩

theorem memo_agrees_edge : ∃ g, edge = .ok g ∧ ∃ r,
    idRun ⟨g, [0, 1]⟩ [(0, .bool true)] {1} {0} = some r ∧ ∃ a st',
      idRecurseMemo ⟨g, [0, 1]⟩ (fun _ => .ok ()) [(0, .bool true)] (maxDepth ⟨g, [0, 1]⟩ + 1)
        ⟨{1}, {0}, .range g.nodeCount, .marginal⟩ ⟨[], 0⟩ = some (a, st') ∧ a = r := by
  obtain ⟨g, hg, -, hn, -⟩ := edge_answers
  have hlt : ∀ w < 2, ∀ u ∈ ({w} : Finset Nat), u < g.nodeCount := fun w hw u hu => by
    rw [Finset.mem_singleton.mp hu, hn]
    exact hw
  obtain ⟨r, hr, -, hmemo⟩ := @memo_agrees ⟨g, [0, 1]⟩ [(0, .bool true)] {0} {1} (hlt 0 (by decide))
    (hlt 1 (by decide)) (Finset.singleton_nonempty 1) (by decide)
  obtain ⟨a, st', hrun, ha⟩ := hmemo fun _ => .ok ()
  exact ⟨g, hg, r, hr, a, st', hrun, ha.resolve_right fun ⟨_, _, h, _⟩ => by cases h⟩

end Antecedent.Identify.GeneralId
