import Antecedent.Identify.GeneralId

/-!
# Failures of the general identifier

Every call of a run is a subproblem of the run's problem, and each call it makes is lighter: it has
fewer nodes, or as many nodes and fewer outside the treatments. So the depth of a run is bounded,
and where line 5 fails, what it names is a hedge for the problem the run started from.

* `idBody_cases`: what one call does.
* **`idRecurse_settled`**: a call ends, and its failures are hedges for the run's problem.
-/

namespace Antecedent.Identify.GeneralId

open Graph
open Mixed

variable {p : PreparedAdmg} {x₀ y₀ : Finset Nat} {q : IdQuery} {call : IdQuery → Answer}
  {assign : Assign}

/-! ## What a call keeps -/

def IdQuery.sub (q : IdQuery) : Subproblem Nat := ⟨q.y, q.x, q.v⟩

/-- A call of a run for the effect of `x₀` on `y₀`. -/
structure Call (p : PreparedAdmg) (x₀ y₀ : Finset Nat) (q : IdQuery) : Prop where
  range : ∀ v ∈ q.v, v < p.admg.nodeCount
  of : q.sub.Of p.admg.mixed x₀ y₀

/-- What the calls of a run descend along. -/
def weight (p : PreparedAdmg) (q : IdQuery) : Nat :=
  q.v.card * (p.admg.nodeCount + 1) + (q.v \ q.x).card

/-- A hedge for the problem of the run. -/
structure Good (p : PreparedAdmg) (x₀ y₀ : Finset Nat) (hedge : HedgeCertificate) : Prop where
  sets : ∃ f f' : Finset Nat, hedge = .fromSets p f f' ∧ (∀ v ∈ f, v < p.admg.nodeCount) ∧
    (∀ v ∈ f', v < p.admg.nodeCount) ∧ p.admg.mixed.Hedge (x₀ : Set Nat) y₀ f f'

/-- An answer, whose failure is a hedge. -/
def Settled (p : PreparedAdmg) (x₀ y₀ : Finset Nat) (answer : Answer) : Prop :=
  ∃ r, answer = some r ∧ ∀ hedge, r = .ok (.fail hedge) → Good p x₀ y₀ hedge

theorem weight_lt_of_card {q' : IdQuery} (hc : Call p x₀ y₀ q) (h : q'.v ⊂ q.v) :
    weight p q' < weight p q := by
  have hlt := Finset.card_lt_card h
  have hn : (q'.v \ q'.x).card ≤ p.admg.nodeCount := by
    rw [← Finset.card_range p.admg.nodeCount]
    exact Finset.card_le_card fun v hv =>
      Finset.mem_range.mpr (hc.range v (h.subset (Finset.mem_sdiff.mp hv).1))
  have hmul := Nat.mul_le_mul_right (p.admg.nodeCount + 1) (Nat.succ_le_of_lt hlt)
  rw [Nat.succ_mul] at hmul
  unfold weight
  omega

/-! ## One call -/

/-- The districts of the nodes outside the treatments. -/
theorem Call.components (hc : Call p x₀ y₀ q) :
    p.admg.Components (q.v \ q.x) (p.cComponents (q.v \ q.x)) :=
  Admg.components_spec fun v hv => hc.range v (Finset.mem_sdiff.mp hv).1

variable {x y s : Finset Nat}

theorem Call.root (hx : ∀ v ∈ x, v < p.admg.nodeCount)
    (hy : ∀ v ∈ y, v < p.admg.nodeCount) (hne : y.Nonempty) (hd : Disjoint y x) :
    Call p x y ⟨y, x, .range p.admg.nodeCount, .marginal⟩ where
  range _ hv := Finset.mem_range.mp hv
  of := .start (q := ⟨y, x, (Finset.range p.admg.nodeCount : Finset Nat)⟩)
    (fun v hv => Finset.mem_coe.mpr (Finset.mem_range.mpr (hx v hv)))
    (fun v hv => ⟨Finset.mem_coe.mpr (Finset.mem_range.mpr (hy v hv)),
      Finset.disjoint_left.mp hd hv⟩) (Finset.coe_nonempty.mpr hne)

section

variable (hc : Call p x₀ y₀ q)

include hc

/-- Passing to a part of the nodes. -/
theorem Call.restrict {v' : Finset Nat} (hv : v' ⊆ q.v) (hy : q.y ⊆ v') (dist : DistCtx) :
    Call p x₀ y₀ ⟨q.y, q.x ∩ v', v', dist⟩ where
  range v hv' := hc.range v (hv hv')
  of := by
    have h := hc.of.restrict v' (Finset.coe_subset.mpr hv) (Finset.coe_subset.mpr hy)
    unfold IdQuery.sub
    rwa [Finset.coe_inter]

/-- Line 3. -/
theorem Call.enlarge : Call p x₀ y₀ { q with x := q.x ∪ ((q.v \ q.x) \ p.ancestorsBarX q.y q.v q.x) } where
  range := hc.range
  of := by
    have h := hc.of.enlarge (w := ((q.v \ q.x) \ p.ancestorsBarX q.y q.v q.x : Finset Nat))
      (Finset.coe_subset.mpr (Finset.sdiff_subset.trans Finset.sdiff_subset))
      (Set.disjoint_left.mpr fun u hu hanc =>
        (Finset.mem_sdiff.mp (Finset.mem_coe.mp hu)).2 ((PreparedAdmg.mem_ancestorsBarX hc.range).mpr hanc))
    unfold IdQuery.sub
    rwa [Finset.coe_union]

/-- After line 3 every node outside the treatments reaches the outcomes. -/
theorem local_of_line3 (h : (q.v \ q.x) \ p.ancestorsBarX q.y q.v q.x = ∅) :
    q.sub.v \ q.sub.x ⊆ p.admg.mixed.LocalAncestors q.sub.v q.sub.x q.sub.y := fun _ hu =>
  (PreparedAdmg.mem_ancestorsBarX hc.range).mp
    (Finset.sdiff_eq_empty_iff_subset.mp h (Finset.mem_sdiff.mpr ⟨hu.1, hu.2⟩))

/-- Line 4. -/
theorem Call.district (h : (q.v \ q.x) \ p.ancestorsBarX q.y q.v q.x = ∅) {s : Finset Nat}
    (hs : s ∈ p.cComponents (q.v \ q.x)) (dist : DistCtx) :
    Call p x₀ y₀ ⟨s, q.v \ s, q.v, dist⟩ where
  range := hc.range
  of := by
    have hspec := hc.components
    have hd := hc.of.district (local_of_line3 hc h) (s := s) (fun u hu => by
        have := Finset.mem_sdiff.mp (hspec.sub s hs hu)
        exact ⟨this.1, this.2⟩)
      (Finset.coe_nonempty.mpr (hspec.nonempty s hs)) fun a ha b hab => by
        have hset : q.sub.v \ q.sub.x = ((q.v \ q.x : Finset Nat) : Set Nat) :=
          (Finset.coe_sdiff _ _).symm
        exact hspec.closed s hs a ha b (hset ▸ hab)
    unfold IdQuery.sub
    rwa [Finset.coe_sdiff]

end

/-- An emitted functional is no failure. -/
theorem settled_expr (e : Except IdentificationError Expr.ExprTree) :
    Settled p x₀ y₀ (some (e.map .expr)) :=
  ⟨_, rfl, fun hedge h => by cases e <;> cases h⟩

theorem settled_error (e : IdentificationError) : Settled p x₀ y₀ (some (.error e)) :=
  ⟨_, rfl, fun _ h => nomatch h⟩

/-- Line 4 is settled when its calls are. -/
theorem factorize_settled {finish : List Expr.ExprTree → Expr.ExprTree} : ∀ {qs : List IdQuery}
    {factors : List Expr.ExprTree}, (∀ q ∈ qs, Settled p x₀ y₀ (call q)) →
      Settled p x₀ y₀ (factorize call finish qs factors)
  | [], factors, _ => ⟨_, rfl, fun _ h => nomatch h⟩
  | q :: qs, factors, h => by
    have hq := h q List.mem_cons_self
    unfold factorize
    split
    · exact factorize_settled fun q' hq' => h q' (List.mem_cons_of_mem q hq')
    · exact hq

/-- The calls lighter than `q` are settled. -/
def Below (p : PreparedAdmg) (x₀ y₀ : Finset Nat) (call : IdQuery → Answer) (q : IdQuery) : Prop :=
  ∀ q', Call p x₀ y₀ q' → weight p q' < weight p q → Settled p x₀ y₀ (call q')

/-- Line 5. -/
theorem line5_settled (hc : Call p x₀ y₀ q) (hx : q.x ≠ ∅) (hv : q.v = p.ancestors q.y q.v)
    (hw : (q.v \ q.x) \ p.ancestorsBarX q.y q.v q.x = ∅)
    (hs : p.cComponents (q.v \ q.x) = [s]) (hone : p.isSingleCComponent q.v = true) :
    Settled p x₀ y₀ (some (.ok (.fail (.fromSets p q.v s)))) := by
  have hrange : ∀ v ∈ q.v \ q.x, v < p.admg.nodeCount := fun v hv =>
    hc.range v (Finset.mem_sdiff.mp hv).1
  have hspec := hc.components
  have hmem : s ∈ p.cComponents (q.v \ q.x) :=
    (congrArg (s ∈ ·) hs).mpr (List.mem_singleton_self s)
  obtain rfl : s = q.v \ q.x := Admg.Components.eq_of_single
    ((congrArg (p.admg.Components _) hs).mp hspec)
  have hconn : p.admg.mixed.BiConnected (q.sub.v \ q.sub.x) := fun a ha b hb => by
    have hset : q.sub.v \ q.sub.x = ((q.v \ q.x : Finset Nat) : Set Nat) :=
      (Finset.coe_sdiff _ _).symm
    rw [hset] at ha hb ⊢
    exact hspec.joined _ hmem a ha b hb
  refine ⟨_, rfl, fun hedge h => ?_⟩
  cases h
  refine ⟨⟨q.v, q.v \ q.x, rfl, hc.range, hrange, ?_⟩⟩
  have hhedge := hc.of.hedge p.admg.acyclic q.v.finite_toSet
    (Finset.coe_nonempty.mpr (Finset.nonempty_iff_ne_empty.mpr hx))
    (fun u hu => by
      have := (PreparedAdmg.mem_ancestorsBarX (p := p) (x := ∅) hc.range).mp
        ((Finset.ext_iff.mp hv u).mp hu : u ∈ p.ancestorsBarX q.y q.v ∅)
      rwa [Finset.coe_empty] at this)
    (local_of_line3 hc hw) ((PreparedAdmg.isSingleCComponent_iff hc.range).mp hone) hconn
  rw [Finset.coe_sdiff]
  exact hhedge

/-- Lines 6 and 7. -/
theorem idLines5To7_settled (hc : Call p x₀ y₀ q) (hbelow : Below p x₀ y₀ call q)
    (hs : p.cComponents (q.v \ q.x) = [s]) (hone : ¬ p.isSingleCComponent q.v = true) :
    Settled p x₀ y₀ (idLines5To7 p assign call q s) := by
  have hspec := hc.components
  have hspec' := Admg.components_spec (g := p.admg) hc.range
  have hys : q.y ⊆ s := fun t ht => by
    have := hc.of.y_sub ht
    obtain ⟨C, hC, htC⟩ := hspec.cover t (Finset.mem_sdiff.mpr ⟨this.1, this.2⟩)
    rwa [← List.mem_singleton.mp ((congrArg (C ∈ ·) hs).mp hC)]
  unfold idLines5To7
  split_ifs
  · exact settled_expr _
  · split
    · rename_i s' hfind
      have hmem : s' ∈ p.admg.districtComponentsWithin q.v := List.mem_of_find?_eq_some hfind
      have hfound := List.find?_some hfind
      rw [decide_eq_true_eq] at hfound
      split
      · refine hbelow _ (hc.restrict (hspec'.sub s' hmem) (hys.trans hfound.1) _)
          (weight_lt_of_card hc ((hspec'.sub s' hmem).ssubset_of_ne ?_))
        rintro rfl
        exact hone ((PreparedAdmg.isSingleCComponent_iff hc.range).mpr fun a ha b hb =>
          hspec'.joined _ hmem a ha b hb)
      · exact settled_error _
    · exact settled_error _

theorem ssubset_of_two {N : Finset Nat} {comps : List (Finset Nat)}
    (h : p.admg.Components N comps) (hs : s ∈ comps) (htwo : ∀ C, comps ≠ [C]) : s ⊂ N := by
  refine (h.sub s hs).ssubset_of_ne fun heq => ?_
  subst heq
  have hall : ∀ C ∈ comps, C = s := fun C hC => by
    obtain ⟨u, hu⟩ := h.nonempty C hC
    refine Finset.Subset.antisymm (h.sub C hC) fun v hv => ?_
    exact h.closed C hC u hu v (h.joined s hs u (h.sub C hC hu) v hv)
  obtain ⟨u, hu⟩ := h.nonempty s hs
  match comps, hs, htwo, hall, h.apart with
  | [C], _, htwo, _, _ => exact htwo C rfl
  | C :: D :: _, _, _, hall, hapart =>
    have hC := hall C List.mem_cons_self
    have hD := hall D (List.mem_cons_of_mem C List.mem_cons_self)
    have hCD := (List.pairwise_cons.mp hapart).1 D List.mem_cons_self
    exact absurd (hD ▸ hu) (Finset.disjoint_left.mp hCD.1 (hC ▸ hu))

/-- **One call is settled when the lighter ones are.** -/
theorem idBody_settled (hc : Call p x₀ y₀ q) (hbelow : Below p x₀ y₀ call q) :
    Settled p x₀ y₀ (idBody p assign call q) := by
  unfold idBody
  by_cases hx : q.x = ∅
  · rw [if_pos hx]
    exact settled_expr _
  rw [if_neg hx]
  by_cases hv : q.v ≠ p.ancestors q.y q.v
  · -- line 2: the ancestors hold the outcomes and are fewer
    rw [if_pos hv]
    have hsub : p.ancestors q.y q.v ⊆ q.v := Admg.ancestorsWithin_subset
    refine hbelow _ (hc.restrict hsub (fun t ht => ?_) _)
      (weight_lt_of_card hc (hsub.ssubset_of_ne (Ne.symm hv)))
    have htv := (hc.of.y_sub ht).1
    exact Admg.seed_mem_ancestorsWithin ht htv (hc.range t htv)
  rw [if_neg hv]
  by_cases hw : (q.v \ q.x) \ p.ancestorsBarX q.y q.v q.x ≠ ∅
  · -- line 3: fewer nodes outside the treatments
    rw [if_pos hw]
    refine hbelow _ hc.enlarge (Nat.add_lt_add_left (Finset.card_lt_card ?_) _)
    obtain ⟨u, hu⟩ := Finset.nonempty_iff_ne_empty.mpr hw
    refine Finset.ssubset_iff_subset_ne.mpr ⟨Finset.sdiff_subset_sdiff subset_rfl
      Finset.subset_union_left, fun h => ?_⟩
    have := Finset.ext_iff.mp h u |>.mpr (Finset.mem_sdiff.mp hu).1
    exact (Finset.mem_sdiff.mp this).2 (Finset.mem_union_right _ hu)
  rw [if_neg hw]
  rw [not_not] at hv hw
  split
  · exact settled_error _
  · rename_i s hs
    split_ifs with hone
    · exact line5_settled hc hx hv hw hs hone
    · exact idLines5To7_settled hc hbelow hs hone
  · rename_i hsingle
    refine factorize_settled fun q' hq' => ?_
    obtain ⟨s, hs, rfl⟩ := List.mem_map.mp hq'
    refine hbelow _ (hc.district hw hs _) (Nat.add_lt_add_left (Finset.card_lt_card ?_) _)
    -- another district is left outside
    have hspec := hc.components
    show q.v \ (q.v \ s) ⊂ q.v \ q.x
    rw [Finset.sdiff_sdiff_eq_self ((hspec.sub s hs).trans Finset.sdiff_subset)]
    exact ssubset_of_two hspec hs hsingle

/-! ## A run -/

/-- **A call of a run ends, and its failures are hedges for the run's problem.** -/
theorem idRecurse_settled : ∀ {depth : Nat} {q : IdQuery}, Call p x₀ y₀ q → weight p q < depth →
    Settled p x₀ y₀ (idRecurse p assign depth q)
  | 0, _, _, h => absurd h (Nat.not_lt_zero _)
  | depth + 1, q, hc, h => idBody_settled hc fun q' hc' hlt =>
    idRecurse_settled hc' (by omega)

/-- **A run ends, and its failures are hedges for its problem.** -/
theorem idRun_settled (hx : ∀ v ∈ x, v < p.admg.nodeCount)
    (hy : ∀ v ∈ y, v < p.admg.nodeCount) (hne : y.Nonempty) (hd : Disjoint y x) :
    Settled p x y (idRun p assign y x) := by
  refine idRecurse_settled (Call.root hx hy hne hd) ?_
  have hcard : (Finset.range p.admg.nodeCount \ x).card ≤ p.admg.nodeCount :=
    (Finset.card_le_card Finset.sdiff_subset).trans_eq (Finset.card_range _)
  show (Finset.range p.admg.nodeCount).card * (p.admg.nodeCount + 1) +
    (Finset.range p.admg.nodeCount \ x).card < (p.admg.nodeCount + 1) * (p.admg.nodeCount + 1) + 1
  rw [Finset.card_range, Nat.succ_mul]
  omega

end Antecedent.Identify.GeneralId
