import Antecedent.Identify.GeneralIdLaw

/-!
# The functional of the general identifier

A call for `(y, x, v)` whose law is the c-factor of `v` answers the effect of `x` on `y` inside `v`:
the c-factor of `v \ x` with the nodes other than `y` summed out. Each line keeps this.

* **`idRun_sound`**: the functional of a run is the truncated factorisation.
-/

namespace Antecedent.Identify.GeneralId

open Core
open Expr
open Graph
open Mixed
open Prob
open Finset

variable {p : PreparedAdmg} {v s y T : Finset Nat} {assign : Assign} {e : ExprTree}

theorem map_fst_preceding : (preceding p v).map Prod.fst = p.topo.filter (· ∈ v) := by
  unfold preceding
  rw [List.map_map]
  exact List.zipIdx_map_fst 0 _

/-- Emitting some factors gives some. -/
theorem mapM_isEmpty {α β ε : Type} {f : α → Except ε β} {L : List α} {es : List β} (hL : L ≠ [])
    (h : L.mapM f = .ok es) : es.isEmpty = false := by
  obtain ⟨a, L, rfl⟩ := List.exists_cons_of_ne_nil hL
  rw [List.mapM_cons] at h
  obtain ⟨b, ha, h⟩ := bind_ok h
  obtain ⟨bs, hL, h⟩ := bind_ok h
  cases h
  rfl

section Value

variable {Ω : Fin p.admg.nodeCount → Type} [∀ v, Fintype (Ω v)] [∀ v, DecidableEq (Ω v)]
  {M : Model (onNodes p.admg) Ω} {read : ∀ v, Value → Ω v}

/-! ## What is emitted for a marginal -/

section Marginal

variable (hd : PreparedAdmg.Distinct p.admg)
  (ht : Kahn.Topological p.admg.children (Finset.range p.admg.nodeCount) p.topo)
  (ha : ∀ e ∈ assign, e.1 < p.admg.nodeCount) (hM : M.Positive)
  (hv : ∀ u ∈ v, u < p.admg.nodeCount) (hanc : Ancestral p v)

include hd ht ha hM hv hanc

/-- **The emitted c-factor of a district.** -/
theorem qComponentProduct_eval (hs : Split p v s) (hne : s.Nonempty)
    (h : qComponentProduct p assign s v = .ok e) (x : ∀ v, Ω v) :
    e.eval (named (labelOf p)) (observed (labelOf p) read M) x =
      M.q (lift p.admg.nodeCount s) (relevel read assign x) := by
  obtain ⟨order, hseq⟩ := exists_sequence ht v
  unfold qComponentProduct at h
  cases hes : ((preceding p v).filter fun e => e.1 ∈ s).mapM fun e =>
      emitDistribution p assign e.1 (p.vars e.2) with
  | error e =>
    rw [hes] at h
    cases h
  | ok es =>
    have hrange : ∀ c ∈ (preceding p v).filter fun e => e.1 ∈ s,
        c.1 < p.admg.nodeCount ∧ ∀ u ∈ c.2, u < p.admg.nodeCount := fun c hc => by
      have hmem := mem_preceding (List.mem_filter.mp hc).1
      exact ⟨hv _ hmem.1, fun u hu => hv u (hmem.2 hu)⟩
    have hval := marginal_value hM hseq hanc hs (relevel read assign x)
    have hnil : es.isEmpty = false := by
      obtain ⟨u, hu⟩ := hne
      have hmem : u ∈ (preceding p v).map Prod.fst := by
        rw [map_fst_preceding, List.mem_filter, decide_eq_true_eq, ht.mem, Finset.mem_range]
        exact ⟨hv u (hs.sub hu), hs.sub hu⟩
      obtain ⟨c, hc, rfl⟩ := List.mem_map.mp hmem
      have hin : c ∈ (preceding p v).filter fun e => e.1 ∈ s :=
        List.mem_filter.mpr ⟨hc, decide_eq_true hu⟩
      exact mapM_isEmpty (List.ne_nil_of_mem hin) hes
    rw [hes] at h
    change (if es.isEmpty = true then _ else _) = _ at h
    rw [if_neg (by rw [hnil]; exact Bool.false_ne_true)] at h
    cases h
    rw [productOf_eval, mapM_emit_eval hd ha hrange hes x]
    exact hval

/-- The emitted c-factors of the districts. -/
theorem mapM_component_eval {blocks : List (Finset Nat)} {es : List ExprTree}
    (hb : ∀ s ∈ blocks, Split p v s ∧ s.Nonempty)
    (h : blocks.mapM (fun s => qComponentProduct p assign s v) = .ok es) (x : ∀ v, Ω v) :
    ExprTree.evalList (named (labelOf p)) (observed (labelOf p) read M) es x =
      ((blocks.map (lift p.admg.nodeCount)).map fun A => M.q A (relevel read assign x)).prod := by
  induction blocks generalizing es with
  | nil =>
    rw [List.mapM_nil] at h
    cases h
    rw [ExprTree.evalList, List.map_nil, List.map_nil, List.prod_nil]
  | cons s blocks ih =>
    rw [List.mapM_cons] at h
    obtain ⟨e, hs, h⟩ := bind_ok h
    obtain ⟨es', hes, h⟩ := bind_ok h
    cases h
    have hsplit := hb s List.mem_cons_self
    rw [ExprTree.evalList, List.map_cons, List.map_cons, List.prod_cons]
    show _ * _ = _
    rw [qComponentProduct_eval hd ht ha hM hv hanc hsplit.1 hsplit.2 hs x,
      ih (fun s hs => hb s (List.mem_cons_of_mem _ hs)) hes]

end Marginal

omit [∀ v, DecidableEq (Ω v)] in
/-- **The districts of some nodes multiply to their c-factor.** -/
theorem q_components {comps : List (Finset Nat)} (h : p.admg.Components v comps) (x : ∀ v, Ω v) :
    ((comps.map (lift p.admg.nodeCount)).map fun A => M.q A x).prod =
      M.q (lift p.admg.nodeCount v) x := by
  have hfold : (comps.map (lift p.admg.nodeCount)).foldr (· ∪ ·) ∅ = lift p.admg.nodeCount v := by
    have hmem : ∀ {blocks : List (Finset Nat)} {i : Fin p.admg.nodeCount},
        i ∈ (blocks.map (lift p.admg.nodeCount)).foldr (· ∪ ·) ∅ ↔ ∃ C ∈ blocks, i.val ∈ C := by
      intro blocks i
      induction blocks with
      | nil => simp
      | cons B blocks ih =>
        rw [List.map_cons, List.foldr_cons, Finset.mem_union, ih, mem_lift, List.exists_mem_cons_iff]
    ext i
    rw [hmem, mem_lift]
    exact ⟨fun ⟨C, hC, hi⟩ => h.sub C hC hi, fun hi => h.cover i hi⟩
  rw [← hfold]
  refine (Model.q_blocks ?_ x).symm
  rw [List.pairwise_map]
  refine h.apart.imp fun hCD => ⟨disjoint_lift hCD.1, fun a ha b hb => ?_⟩
  exact hCD.2 a (mem_lift.mp ha) b (mem_lift.mp hb)

/-! ## One call -/

variable {x₀ y₀ : Finset Nat} {q : IdQuery} {call : IdQuery → Answer}

variable (M) in
/-- The effect of the treatments on the outcomes inside the nodes of a call. -/
noncomputable def IdQuery.effect (q : IdQuery) : (∀ v, Ω v) → ℝ :=
  marg (lift p.admg.nodeCount ((q.v \ q.x) \ q.y)) (M.q (lift p.admg.nodeCount (q.v \ q.x)))

variable (M) in
/-- A call of a run whose current law is the c-factor of its nodes. -/
structure Reads (x₀ y₀ : Finset Nat) (q : IdQuery) : Prop where
  call : Call p x₀ y₀ q
  dist : q.dist.Denotes M q.v

variable (assign M read) in
def Sound (q : IdQuery) (answer : Answer) : Prop := ∀ e, answer = some (.ok (.expr e)) →
  ∀ x : ∀ v, Ω v, e.eval (named (labelOf p)) (observed (labelOf p) read M) x =
    q.effect M (relevel read assign x)

/-- **The effect is that in a part closed under its parents.** -/
theorem effect_of_closed {q' : IdQuery} (hy : q'.y = q.y) (hsub : q'.v \ q'.x ⊆ q.v \ q.x)
    (hys : q.y ⊆ q'.v \ q'.x) (hclosed : ∀ t ∈ q'.v \ q'.x, ∀ u ∈ q.v \ q.x,
      p.admg.mixed.dir u t → u ∈ q'.v \ q'.x) : q.effect M = q'.effect M := by
  have h := Model.law_compl_eq_marg (M := M) (onNodes_acyclic p.admg)
    (R := lift p.admg.nodeCount (q.v \ q.x)) (E := lift p.admg.nodeCount (q'.v \ q'.x))
    (Y := lift p.admg.nodeCount q.y) (fun i hi => mem_lift.mpr (hsub (mem_lift.mp hi)))
    (fun t ht u hu hut => mem_lift.mpr (hclosed t (mem_lift.mp ht) u (mem_lift.mp hu) hut))
    (fun i hi => mem_lift.mpr (hys (mem_lift.mp hi)))
  rw [Model.law_compl] at h
  unfold IdQuery.effect
  rw [lift_sdiff, h, hy, lift_sdiff (s := q'.v \ q'.x)]

omit [∀ v, Fintype (Ω v)] [∀ v, DecidableEq (Ω v)] in
theorem Call.unassigned (hc : Call p x₀ y₀ q) (ha : ∀ e ∈ assign, e.1 ∈ x₀) :
    Disjoint (lift p.admg.nodeCount (q.v \ q.x)) (assigned p assign) := by
  refine disjoint_left.mpr fun i hi hi' => ?_
  obtain ⟨hiv, hix⟩ := Finset.mem_sdiff.mp (mem_lift.mp hi)
  obtain ⟨e, he, hei, -⟩ := mem_assigned.mp hi'
  exact hix (hc.of.kept ⟨hei ▸ ha e he, hiv⟩)

/-- What line 4 answers. -/
theorem factorize_ok {finish : List ExprTree → ExprTree} : ∀ {qs : List IdQuery}
    {factors : List ExprTree}, factorize call finish qs factors = some (.ok (.expr e)) →
      ∃ es, e = finish (factors ++ es) ∧
        List.Forall₂ (fun q e => call q = some (.ok (.expr e))) qs es
  | [], factors, h => by
    cases h
    exact ⟨[], by rw [List.append_nil], .nil⟩
  | q :: qs, factors, h => by
    unfold factorize at h
    split at h
    · rename_i f hf
      obtain ⟨es, rfl, hes⟩ := factorize_ok h
      exact ⟨f :: es, by rw [List.append_assoc, List.singleton_append], .cons hf hes⟩
    · rename_i hno
      exact absurd h (hno e)

/-- The factors of line 4 are the c-factors of the districts. -/
theorem evalList_districts {dist : DistCtx} {blocks : List (Finset Nat)} {es : List ExprTree}
    (hb : ∀ s ∈ blocks, s ⊆ v ∧
      Sound assign M read ⟨s, v \ s, v, dist⟩ (call ⟨s, v \ s, v, dist⟩))
    (h : List.Forall₂ (fun s e => call ⟨s, v \ s, v, dist⟩ = some (.ok (.expr e))) blocks es)
    (z : ∀ v, Ω v) : ExprTree.evalList (named (labelOf p)) (observed (labelOf p) read M) es z =
      ((blocks.map (lift p.admg.nodeCount)).map fun A => M.q A (relevel read assign z)).prod := by
  induction h with
  | nil => rw [ExprTree.evalList, List.map_nil, List.map_nil, List.prod_nil]
  | @cons s e blocks es hs _ ih =>
    obtain ⟨hsub, hsound⟩ := hb s List.mem_cons_self
    have heff : (⟨s, v \ s, v, dist⟩ : IdQuery).effect M = M.q (lift p.admg.nodeCount s) := by
      unfold IdQuery.effect
      rw [Finset.sdiff_sdiff_eq_self hsub, Finset.sdiff_self, lift_empty, marg_empty]
    rw [ExprTree.evalList, List.map_cons, List.map_cons, List.prod_cons,
      ← ih fun s hs => hb s (List.mem_cons_of_mem _ hs)]
    show _ * _ = _
    rw [hsound e hs z, heff]

variable (hd : PreparedAdmg.Distinct p.admg)
  (ht : Kahn.Topological p.admg.children (Finset.range p.admg.nodeCount) p.topo)
  (hx₀ : ∀ u ∈ x₀, u < p.admg.nodeCount) (ha : ∀ e ∈ assign, e.1 ∈ x₀) (hM : M.Positive)

include hd ht hx₀ ha hM

/-- **Line 1.** -/
theorem line1_sound (h : Reads M x₀ y₀ q) (hx : q.x = ∅) :
    Sound assign M read q (some ((distMarginal p assign q.y q.v q.dist).map .expr)) := by
  intro e he x
  have hlt : ∀ e ∈ assign, e.1 < p.admg.nodeCount := fun e he => hx₀ _ (ha e he)
  have hfree := h.call.unassigned ha
  have hdist := h.dist
  unfold IdQuery.effect
  rw [hx, Finset.sdiff_empty] at hfree ⊢
  cases hok : distMarginal p assign q.y q.v q.dist with
  | error err =>
    rw [hok] at he
    cases he
  | ok e' =>
    rw [hok] at he
    cases he
    unfold distMarginal at hok
    split at hok
    · rename_i hq
      rw [hq] at hdist
      unfold observationalMarginal at hok
      have hspec := Admg.components_spec (g := p.admg) h.call.range
      have hcomps : p.admg.districtComponentsWithin q.v = p.cComponents q.v := rfl
      rw [hcomps] at hspec
      split at hok
      · rename_i hnil
        obtain ⟨t, hty⟩ := h.call.of.y_ne
        obtain ⟨C, hC, -⟩ := hspec.cover t (h.call.of.y_sub hty).1
        rw [hnil] at hC
        exact absurd hC List.not_mem_nil
      · have hblocks : ∀ s ∈ p.cComponents q.v, Split p q.v s ∧ s.Nonempty := fun s hs =>
          ⟨split_of_mem_components hspec hs, hspec.nonempty s hs⟩
        obtain ⟨es, hes, hok⟩ := bind_ok hok
        cases hok
        rw [sumOver_eval hd fun u hu => h.call.range u (Finset.mem_sdiff.mp hu).1,
          marg_relevel (hfree.mono_left fun i hi => mem_lift.mpr
            (Finset.mem_sdiff.mp (mem_lift.mp hi)).1)]
        refine congrFun (congrArg _ (funext fun z => ?_)) x
        rw [productOf_eval, mapM_component_eval hd ht hlt hM h.call.range hdist hblocks hes z,
          q_components hspec]
    · rename_i law hq
      rw [hq] at hdist
      have hsum : ∀ u ∈ q.v \ q.y ∪ law.sumset, u < p.admg.nodeCount := fun u hu =>
        (Finset.mem_union.mp hu).elim (fun hu => h.call.range u (Finset.mem_sdiff.mp hu).1)
          (hdist.sumset_lt u)
      have hdis : Disjoint (q.v \ q.y) law.sumset := hdist.apart.symm.mono_left Finset.sdiff_subset
      refine (Law.emit_eval hd hlt ?_ ?_ hok x).trans ?_
      · exact hsum
      · exact hdist.factors_lt
      · show marg (lift p.admg.nodeCount (q.v \ q.y ∪ law.sumset)) _ _ = _
        rw [lift_union, ← marg_marg (disjoint_lift hdis), hdist.value]

/-- **Line 6.** -/
theorem line6_sound (h : Reads M x₀ y₀ q) (hs : Split p q.v (q.v \ q.x)) :
    Sound assign M read q
      (some ((districtFactor p assign (q.v \ q.x) q.y q.v q.dist).map .expr)) := by
  intro e he x
  have hlt : ∀ e ∈ assign, e.1 < p.admg.nodeCount := fun e he => hx₀ _ (ha e he)
  have hfree := h.call.unassigned ha
  have hdist := h.dist
  have hrange : ∀ u ∈ (q.v \ q.x) \ q.y, u < p.admg.nodeCount := fun u hu =>
    h.call.range u (Finset.mem_sdiff.mp (Finset.mem_sdiff.mp hu).1).1
  have hne : (q.v \ q.x).Nonempty := by
    obtain ⟨t, hty⟩ := h.call.of.y_ne
    have := h.call.of.y_sub hty
    exact ⟨t, Finset.mem_sdiff.mpr this⟩
  unfold IdQuery.effect
  cases hok : districtFactor p assign (q.v \ q.x) q.y q.v q.dist with
  | error err =>
    rw [hok] at he
    cases he
  | ok e' =>
    rw [hok] at he
    cases he
    unfold districtFactor at hok
    split at hok
    · rename_i hq
      rw [hq] at hdist
      unfold cComponentExpression at hok
      obtain ⟨product, hes, hok⟩ := bind_ok hok
      cases hok
      rw [sumOver_eval hd hrange, marg_relevel (hfree.mono_left fun i hi => mem_lift.mpr
        (Finset.mem_sdiff.mp (mem_lift.mp hi)).1)]
      exact congrFun (congrArg _ (funext fun z =>
        qComponentProduct_eval hd ht hlt hM h.call.range hdist hs hne hes z)) x
    · rename_i law hq
      rw [hq] at hdist
      obtain ⟨factors, hc, hok⟩ := bind_ok hok
      have hfactors : (⟨∅, factors⟩ : Law).Denotes M (q.v \ q.x) :=
        hdist.conditionals ht hM h.call.range hs hc
      refine (Law.emit_eval hd hlt ?_ ?_ hok x).trans ?_
      · exact hrange
      · exact hfactors.factors_lt
      · have hval := hfactors.value
        rw [lift_empty, marg_empty] at hval
        show marg _ (valueAll M factors) _ = _
        rw [hval]

/-- **Lines 6 and 7.** -/
theorem idLines5To7_sound (h : Reads M x₀ y₀ q)
    (hcall : ∀ q', Reads M x₀ y₀ q' → Sound assign M read q' (call q'))
    (hs : p.cComponents (q.v \ q.x) = [s]) :
    Sound assign M read q (idLines5To7 p assign call q s) := by
  have hspec := h.call.components
  have hspec' := Admg.components_spec (g := p.admg) h.call.range
  rw [hs] at hspec
  obtain rfl := hspec.eq_of_single
  unfold idLines5To7
  split_ifs with hmem
  · exact line6_sound hd ht hx₀ ha hM h (split_of_mem_components hspec' hmem)
  · split
    · rename_i s' hfind
      have hmem' : s' ∈ p.admg.districtComponentsWithin q.v := List.mem_of_find?_eq_some hfind
      have hsub := hspec'.sub s' hmem'
      have hfound := List.find?_some hfind
      rw [decide_eq_true_eq] at hfound
      split
      · rename_i factors hok
        have hys : q.y ⊆ s' := fun t hty => hfound.1 (Finset.mem_sdiff.mpr (h.call.of.y_sub hty))
        have hnew : Reads M x₀ y₀ ⟨q.y, q.x ∩ s', s', .cFactor ⟨∅, factors⟩⟩ :=
          ⟨h.call.restrict hsub hys _, h.dist.conditionals ht hM h.call.range
            (split_of_mem_components hspec' hmem') hok⟩
        have hset : s' \ (q.x ∩ s') = q.v \ q.x := by
          ext u
          have h1 := @hsub u
          have h2 := @hfound.1 u
          simp only [Finset.mem_sdiff, Finset.mem_inter] at h1 h2 ⊢
          tauto
        have heq : (⟨q.y, q.x ∩ s', s', .cFactor ⟨∅, factors⟩⟩ : IdQuery).effect M =
            q.effect M := by
          unfold IdQuery.effect
          rw [hset]
        intro e he x
        rw [hcall _ hnew e he x, heq]
      · exact fun e he => nomatch he
    · exact fun e he => nomatch he

omit ht hx₀ hM in
/-- **Line 4.** -/
theorem line4_sound (h : Reads M x₀ y₀ q)
    (hcall : ∀ q', Reads M x₀ y₀ q' → Sound assign M read q' (call q'))
    (hw : (q.v \ q.x) \ p.ancestorsBarX q.y q.v q.x = ∅) :
    Sound assign M read q (factorize call
      (fun factors => sumOver p ((q.v \ q.y) \ q.x) (.product factors))
      ((p.cComponents (q.v \ q.x)).map fun s => ⟨s, q.v \ s, q.v, q.dist⟩) []) := by
  have hspec := h.call.components
  intro e he x
  obtain ⟨es, rfl, hes⟩ := factorize_ok he
  rw [List.forall₂_map_left_iff] at hes
  have hblocks : ∀ s ∈ p.cComponents (q.v \ q.x), s ⊆ q.v ∧ Sound assign M read
      ⟨s, q.v \ s, q.v, q.dist⟩ (call ⟨s, q.v \ s, q.v, q.dist⟩) := fun s hs =>
    ⟨(hspec.sub s hs).trans Finset.sdiff_subset, hcall _ ⟨h.call.district hw hs q.dist, h.dist⟩⟩
  have hset : (q.v \ q.y) \ q.x = (q.v \ q.x) \ q.y := sdiff_right_comm _ _ _
  have hrange : ∀ u ∈ (q.v \ q.x) \ q.y, u < p.admg.nodeCount := fun u hu =>
    h.call.range u (Finset.mem_sdiff.mp (Finset.mem_sdiff.mp hu).1).1
  unfold IdQuery.effect
  rw [hset, sumOver_eval hd hrange, List.nil_append, ExprTree.eval,
    marg_relevel ((h.call.unassigned ha).mono_left fun i hi => mem_lift.mpr
      (Finset.mem_sdiff.mp (mem_lift.mp hi)).1)]
  exact congrFun (congrArg _ (funext fun z =>
    (evalList_districts hblocks hes z).trans (q_components hspec _))) x

/-- **One call is right when the calls it makes are.** -/
theorem idBody_sound (h : Reads M x₀ y₀ q)
    (hcall : ∀ q', Reads M x₀ y₀ q' → Sound assign M read q' (call q')) :
    Sound assign M read q (idBody p assign call q) := by
  have hys : ∀ t ∈ q.y, t ∈ q.v ∧ t ∉ q.x := fun t hty => h.call.of.y_sub hty
  unfold idBody
  by_cases hx : q.x = ∅
  · rw [if_pos hx]
    exact line1_sound hd ht hx₀ ha hM h hx
  rw [if_neg hx]
  by_cases hv : q.v ≠ p.ancestors q.y q.v
  · -- line 2
    rw [if_pos hv]
    have hsub : p.ancestors q.y q.v ⊆ q.v := Admg.ancestorsWithin_subset
    have hyan : q.y ⊆ p.ancestors q.y q.v := fun t hty =>
      Admg.seed_mem_ancestorsWithin hty (hys t hty).1 (h.call.range t (hys t hty).1)
    have hclosed : ∀ t ∈ p.ancestors q.y q.v, ∀ u ∈ q.v, p.admg.mixed.dir u t →
        u ∈ p.ancestors q.y q.v := fun t hta u hu hut =>
      Admg.parent_mem_ancestorsWithin hta hut (Finset.notMem_empty t) hu
    have hnew : Reads M x₀ y₀ ⟨q.y, q.x ∩ p.ancestors q.y q.v, p.ancestors q.y q.v,
        q.dist.marginalize (q.v \ p.ancestors q.y q.v)⟩ :=
      ⟨h.call.restrict hsub hyan _,
        h.dist.marginalize h.call.range (hsub.ssubset_of_ne (Ne.symm hv)) hclosed⟩
    intro e he x
    refine (hcall _ hnew e he x).trans (congrFun (Eq.symm ?_) _)
    refine effect_of_closed rfl ?_ ?_ ?_
    · intro u hu
      have hu' := Finset.mem_sdiff.mp hu
      exact Finset.mem_sdiff.mpr ⟨hsub hu'.1, fun hux => hu'.2 (Finset.mem_inter.mpr ⟨hux, hu'.1⟩)⟩
    · exact fun t hty => Finset.mem_sdiff.mpr
        ⟨hyan hty, fun htx => (hys t hty).2 (Finset.mem_inter.mp htx).1⟩
    · intro t hta u hu hut
      have hu' := Finset.mem_sdiff.mp hu
      exact Finset.mem_sdiff.mpr ⟨hclosed t (Finset.mem_sdiff.mp hta).1 u hu'.1 hut,
        fun hux => hu'.2 (Finset.mem_inter.mp hux).1⟩
  rw [if_neg hv]
  by_cases hw : (q.v \ q.x) \ p.ancestorsBarX q.y q.v q.x ≠ ∅
  · -- line 3
    rw [if_pos hw]
    have hnew : Reads M x₀ y₀
        { q with x := q.x ∪ ((q.v \ q.x) \ p.ancestorsBarX q.y q.v q.x) } :=
      ⟨h.call.enlarge, h.dist⟩
    have hmem : ∀ u, u ∈ q.v \ (q.x ∪ ((q.v \ q.x) \ p.ancestorsBarX q.y q.v q.x)) ↔
        (u ∈ q.v ∧ u ∉ q.x) ∧ u ∈ p.ancestorsBarX q.y q.v q.x := fun u => by
      simp only [Finset.mem_sdiff, Finset.mem_union]
      tauto
    intro e he x
    refine (hcall _ hnew e he x).trans (congrFun (Eq.symm ?_) _)
    refine effect_of_closed rfl ?_ ?_ ?_
    · exact fun u hu => Finset.mem_sdiff.mpr ((hmem u).mp hu).1
    · exact fun t hty => (hmem t).mpr ⟨hys t hty,
        Admg.seed_mem_ancestorsWithin hty (hys t hty).1 (h.call.range t (hys t hty).1)⟩
    · intro t hta u hu hut
      have hta' := (hmem t).mp hta
      have hu' := Finset.mem_sdiff.mp hu
      exact (hmem u).mpr ⟨hu', Admg.parent_mem_ancestorsWithin hta'.2 hut hta'.1.2 hu'.1⟩
  rw [if_neg hw]
  rw [not_not] at hw
  split
  · exact fun e he => nomatch he
  · rename_i s hs
    split_ifs
    · exact fun e he => nomatch he
    · exact idLines5To7_sound hd ht hx₀ ha hM h hcall hs
  · exact line4_sound hd ha h hcall hw

/-! ## A run -/

/-- **A call of a run that answers a functional answers the effect.** -/
theorem idRecurse_sound : ∀ {depth : Nat} {q : IdQuery}, Reads M x₀ y₀ q →
    Sound assign M read q (idRecurse p assign depth q)
  | 0, _, _ => fun _ he => nomatch he
  | _ + 1, _, h => idBody_sound hd ht hx₀ ha hM h fun _ h' => idRecurse_sound h'

end Value

end Antecedent.Identify.GeneralId
