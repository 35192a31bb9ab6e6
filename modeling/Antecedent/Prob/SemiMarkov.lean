import Antecedent.Mixed.Moral
import Antecedent.Prob.Marginal
import Mathlib.Data.Finset.Sym

/-!
# Finite discrete semi-Markovian models

A model of a mixed graph gives every node a finite domain, every unordered pair of nodes an
independent latent, and every node a mechanism: a law of its value given its parents and the
latents of its own bidirected edges (the node's private noise is averaged out of it). A latent of
a pair that is no bidirected edge is read by nobody.

`q S` is the c-factor of `S`: the sum over the latents of the mechanisms of `S`. It carries every
law of the model: `law D Y` is the truncated factorisation `P(y | do(d))`, and `kernel Y D Z` is
`P(y | do(d), z)`.

* `kernel_marginalize`, `kernel_condition`, `kernel_product`: the probability rules.
-/

namespace Antecedent.Prob

open Finset Relation
open Mixed

variable {V : Type*} [Fintype V] [DecidableEq V]

/-- A finite discrete semi-Markovian model of `G` over the domains `Ω`. -/
structure Model (G : MixedGraph V) (Ω : V → Type) [∀ v, Fintype (Ω v)] where
  /-- The latent of each pair of nodes. -/
  Lat : Sym2 V → Type
  [latFintype : ∀ e, Fintype (Lat e)]
  weight : ∀ e, Lat e → ℝ
  weight_nonneg : ∀ e a, 0 ≤ weight e a
  weight_sum : ∀ e, ∑ a, weight e a = 1
  /-- The law of `v` given the other values and the latents. -/
  mech : ∀ v, (∀ w, Ω w) → (∀ e, Lat e) → Ω v → ℝ
  mech_nonneg : ∀ v x u a, 0 ≤ mech v x u a
  mech_sum : ∀ v x u, ∑ a, mech v x u a = 1
  /-- A mechanism reads parents only. -/
  mech_parents : ∀ v x x' u, (∀ w, G.dir w v → x w = x' w) → mech v x u = mech v x' u
  /-- A mechanism reads the latents of its own bidirected edges only. -/
  mech_latents : ∀ v x u u', (∀ w, G.bi v w → u s(v, w) = u' s(v, w)) → mech v x u = mech v x u'

attribute [instance] Model.latFintype

namespace Model

variable {G : MixedGraph V} {Ω : V → Type} [∀ v, Fintype (Ω v)] (M : Model G Ω)

/-- The c-factor of `S`. -/
noncomputable def q (S : Finset V) (x : ∀ v, Ω v) : ℝ :=
  ∑ u : (∀ e, M.Lat e), (∏ e, M.weight e (u e)) * ∏ v ∈ S, M.mech v x u (x v)

/-- Every full observation has positive probability. -/
def Positive : Prop := ∀ x, 0 < M.q univ x

/-- `S` and its parents. -/
def scope (G : MixedGraph V) (S : Finset V) : Set V := {v | v ∈ S ∨ ∃ t ∈ S, G.dir v t}

/-- Inside the nodes that are not in `D`, the parents of `S` are in `S`. -/
def ParentClosed (G : MixedGraph V) (D S : Finset V) : Prop :=
  ∀ t ∈ S, ∀ p, G.dir p t → p ∉ D → p ∈ S

variable {M} {S T D Y Z W : Finset V}

/-! ## The c-factor -/

theorem q_dependsOn : DependsOn (M.q S) (scope G S) := by
  intro x x' h
  unfold q
  refine sum_congr rfl fun u _ => ?_
  congr 1
  refine prod_congr rfl fun v hv => ?_
  rw [M.mech_parents v x x' u fun w hw => h w (Or.inr ⟨v, hv, hw⟩), h v (Or.inl hv)]

theorem q_pos (hM : M.Positive) (S : Finset V) (x : ∀ v, Ω v) : 0 < M.q S x := by
  have hnn : ∀ (R : Finset V) (u : ∀ e, M.Lat e),
      0 ≤ (∏ e, M.weight e (u e)) * ∏ v ∈ R, M.mech v x u (x v) := fun R u =>
    mul_nonneg (prod_nonneg fun e _ => M.weight_nonneg e _)
      (prod_nonneg fun v _ => M.mech_nonneg v x u _)
  obtain ⟨u, -, hu⟩ := exists_lt_of_sum_lt (s := univ) (f := fun _ => (0 : ℝ))
    (g := fun u : (∀ e, M.Lat e) => (∏ e, M.weight e (u e)) * ∏ v ∈ univ, M.mech v x u (x v))
    (by rw [sum_const_zero]; exact hM x)
  have hw : 0 < ∏ e, M.weight e (u e) := by
    refine lt_of_le_of_ne (prod_nonneg fun e _ => M.weight_nonneg e _) fun h => ?_
    rw [← h, zero_mul] at hu
    exact lt_irrefl _ hu
  have hv : ∀ v, 0 < M.mech v x u (x v) := by
    intro v
    refine lt_of_le_of_ne (M.mech_nonneg v x u _) fun h => ?_
    rw [prod_eq_zero (mem_univ v) h.symm, mul_zero] at hu
    exact lt_irrefl _ hu
  have hterm : 0 < (∏ e, M.weight e (u e)) * ∏ v ∈ S, M.mech v x u (x v) :=
    mul_pos hw (prod_pos fun v _ => hv v)
  exact hterm.trans_le (single_le_sum
    (f := fun u => (∏ e, M.weight e (u e)) * ∏ v ∈ S, M.mech v x u (x v))
    (fun u _ => hnn S u) (mem_univ u))

/-- The latents the mechanisms of `S` read. -/
def latScope (G : MixedGraph V) (S : Finset V) : Set (Sym2 V) :=
  {e | ∃ v ∈ S, ∃ w, G.bi v w ∧ e = s(v, w)}

omit [Fintype V] [DecidableEq V] in
theorem mechs_dependsOn (x : ∀ v, Ω v) :
    DependsOn (fun u => ∏ v ∈ S, M.mech v x u (x v)) (latScope G S) := fun u u' h =>
  prod_congr rfl fun v hv => by
    rw [M.mech_latents v x u u' fun w hw => h _ ⟨v, hv, w, hw, rfl⟩]

/-- **The c-factor of two sets that no bidirected edge joins is the product of theirs.** -/
theorem q_mul (hST : Disjoint S T) (hbi : ∀ s ∈ S, ∀ t ∈ T, ¬ G.bi s t) (x : ∀ v, Ω v) :
    M.q (S ∪ T) x = M.q S x * M.q T x := by
  classical
  have hdis : Disjoint (latScope G S) (latScope G T) := by
    refine Set.disjoint_left.mpr ?_
    rintro e ⟨s, hs, w, hsw, rfl⟩ ⟨t, ht, w', htw, he⟩
    rcases Sym2.eq_iff.mp he with ⟨rfl, -⟩ | ⟨rfl, rfl⟩
    · exact disjoint_left.mp hST hs ht
    · exact hbi _ hs _ ht hsw
  unfold q
  rw [← sum_prod_mul M.weight_sum (mechs_dependsOn x) (mechs_dependsOn x) hdis]
  refine sum_congr rfl fun u _ => ?_
  rw [prod_union hST]

@[simp] theorem q_empty (x : ∀ v, Ω v) : M.q ∅ x = 1 := by
  classical
  unfold q
  simp only [prod_empty, mul_one]
  exact sum_prod_weights M.weight_sum

variable [∀ v, DecidableEq (Ω v)]

/-- Summing a childless node out of a c-factor drops its mechanism. -/
theorem marg_q_singleton {v : V} (hv : v ∈ S) (hch : ∀ t ∈ S, ¬ G.dir v t) :
    marg {v} (M.q S) = M.q (S.erase v) := by
  funext x
  rw [marg_singleton]
  unfold q
  rw [sum_comm]
  refine sum_congr rfl fun u _ => ?_
  have hmech : ∀ a, ∀ t ∈ S, M.mech t (Function.update x v a) u = M.mech t x u := fun a t ht =>
    M.mech_parents t _ _ u fun w hw =>
      Function.update_of_ne (fun e : w = v => hch t ht (e ▸ hw)) ..
  have hrest : ∀ a, ∏ t ∈ S, M.mech t (Function.update x v a) u (Function.update x v a t) =
      M.mech v x u a * ∏ t ∈ S.erase v, M.mech t x u (x t) := by
    intro a
    rw [← mul_prod_erase S _ hv, hmech a v hv, Function.update_self]
    congr 1
    refine prod_congr rfl fun t ht => ?_
    rw [hmech a t (mem_of_mem_erase ht), Function.update_of_ne (ne_of_mem_erase ht)]
  simp only [hrest]
  rw [← mul_sum, ← sum_mul, M.mech_sum, one_mul]

omit [DecidableEq V] in
theorem exists_sink (hac : G.Acyclic) {R : Finset V} (hR : R.Nonempty) :
    ∃ v ∈ R, ∀ t ∈ R, ¬ G.dir v t := by
  have hirr : ∀ a, ¬ (Function.swap (TransGen G.dir)) a a := hac
  have : Std.Irrefl (Function.swap (TransGen G.dir)) := ⟨hirr⟩
  have : IsTrans V (Function.swap (TransGen G.dir)) := ⟨fun _ _ _ h h' => h'.trans h⟩
  have hwf : WellFounded (Function.swap (TransGen G.dir)) :=
    Finite.wellFounded_of_trans_of_irrefl _
  obtain ⟨v, hv, hmin⟩ := hwf.has_min (R : Set V) hR
  exact ⟨v, hv, fun t ht hvt => hmin t ht (TransGen.single hvt)⟩

/-- **Summing the rest out of a c-factor leaves the c-factor of an ancestral part.** -/
theorem marg_q (hac : G.Acyclic) (hTS : T ⊆ S) (hT : ∀ t ∈ T, ∀ p ∈ S, G.dir p t → p ∈ T) :
    marg (S \ T) (M.q S) = M.q T := by
  induction hn : (S \ T).card generalizing S with
  | zero =>
    have h : S \ T = ∅ := card_eq_zero.mp hn
    rw [h, marg_empty, subset_antisymm hTS (sdiff_eq_empty_iff_subset.mp h)]
  | succ n ih =>
    obtain ⟨v, hv, hsink⟩ := exists_sink hac (card_pos.mp (by omega : 0 < (S \ T).card))
    obtain ⟨hvS, hvT⟩ := mem_sdiff.mp hv
    have hch : ∀ t ∈ S, ¬ G.dir v t := fun t ht hvt => by
      by_cases htT : t ∈ T
      · exact hvT (hT t htT v hvS hvt)
      · exact hsink t (mem_sdiff.mpr ⟨ht, htT⟩) hvt
    have hsplit : S \ T = (S.erase v \ T) ∪ {v} := by
      ext w
      simp only [mem_sdiff, mem_union, mem_erase, mem_singleton]
      constructor
      · rintro ⟨hw, hwT⟩
        by_cases e : w = v
        · exact Or.inr e
        · exact Or.inl ⟨⟨e, hw⟩, hwT⟩
      · rintro (⟨⟨-, hw⟩, hwT⟩ | rfl)
        · exact ⟨hw, hwT⟩
        · exact ⟨hvS, hvT⟩
    have hdis : Disjoint (S.erase v \ T) {v} := by
      rw [disjoint_singleton_right]
      simp
    have hcard : (S.erase v \ T).card = n := by
      have h := card_union_of_disjoint hdis
      rw [← hsplit, hn, card_singleton] at h
      omega
    rw [hsplit, marg_union_of_disjoint hdis, marg_q_singleton hvS hch]
    refine ih (fun t ht => mem_erase.mpr ⟨fun e => hvT (e ▸ ht), hTS ht⟩) (fun t ht p hp => ?_) hcard
    exact hT t ht p (mem_of_mem_erase hp)

/-! ## Laws -/

variable (M) in
/-- `P(y | do(d))`, the truncated factorisation, at the values `x` gives. -/
noncomputable def law (D Y : Finset V) : (∀ v, Ω v) → ℝ := marg (Y ∪ D)ᶜ (M.q Dᶜ)

variable (M) in
/-- `P(y | do(d), z)` at the values `x` gives. -/
noncomputable def kernel (Y D Z : Finset V) (x : ∀ v, Ω v) : ℝ := M.law D (Y ∪ Z) x / M.law D Z x

theorem law_dependsOn : DependsOn (M.law D Y) ((Y ∪ D : Finset V) : Set V) := by
  refine (dependsOn_marg (dependsOn_univ _)).mono fun v hv => ?_
  by_contra hc
  exact hv.2 (mem_coe.mpr (mem_compl.mpr hc))

theorem law_pos (hM : M.Positive) (x : ∀ v, Ω v) : 0 < M.law D Y x :=
  marg_pos (q_pos hM _) x

theorem marg_law (hW : Disjoint W (Y ∪ D)) : marg W (M.law D (Y ∪ W)) = M.law D Y := by
  unfold law
  have hdis : Disjoint W ((Y ∪ W ∪ D)ᶜ) := by
    refine disjoint_left.mpr fun v hv hc => mem_compl.mp hc ?_
    exact mem_union_left _ (mem_union_right _ hv)
  have hset : W ∪ (Y ∪ W ∪ D)ᶜ = (Y ∪ D)ᶜ := by
    ext v
    have h1 : v ∈ W → v ∉ Y ∪ D := fun h => disjoint_left.mp hW h
    simp only [mem_union, mem_compl] at h1 ⊢
    tauto
  rw [marg_marg hdis, hset]

/-- **A law is the sum over a part closed under parents.** -/
theorem law_eq_marg (hac : G.Acyclic) {E : Finset V} (hED : Disjoint E D) (hE : ParentClosed G D E)
    (hYE : Y ⊆ E) : M.law D Y = marg (E \ Y) (M.q E) := by
  have hsub : E ⊆ Dᶜ := fun v hv => mem_compl.mpr (disjoint_left.mp hED hv)
  have hq : marg (Dᶜ \ E) (M.q Dᶜ) = M.q E :=
    marg_q hac hsub fun t ht p hp hpt => hE t ht p hpt (mem_compl.mp hp)
  have hdis : Disjoint (E \ Y) (Dᶜ \ E) :=
    disjoint_left.mpr fun v hv hc => (mem_sdiff.mp hc).2 (mem_sdiff.mp hv).1
  have hset : (Y ∪ D)ᶜ = (E \ Y) ∪ (Dᶜ \ E) := by
    ext v
    have h1 := @hsub v
    have h2 := @hYE v
    simp only [mem_union, mem_compl, mem_sdiff] at h1 h2 ⊢
    tauto
  unfold law
  rw [hset, marg_union_of_disjoint hdis, hq]

/-! ## The probability rules -/

theorem kernel_dependsOn : DependsOn (M.kernel Y D Z) ((Y ∪ Z ∪ D : Finset V) : Set V) := by
  refine (DependsOn.div law_dependsOn law_dependsOn).mono ?_
  intro v hv
  simp only [coe_union, Set.mem_union] at hv ⊢
  tauto

theorem kernel_pos (hM : M.Positive) (x : ∀ v, Ω v) : 0 < M.kernel Y D Z x :=
  div_pos (law_pos hM x) (law_pos hM x)

/-- `∑_w P(y, w | do(d), z) = P(y | do(d), z)`. -/
theorem kernel_marginalize (hW : Disjoint W (Y ∪ Z ∪ D)) :
    marg W (M.kernel (Y ∪ W) D Z) = M.kernel Y D Z := by
  have hZ : Disjoint (((Z ∪ D : Finset V)) : Set V) (W : Set V) := by
    rw [Finset.disjoint_coe]
    refine disjoint_left.mpr fun v hv hw => disjoint_left.mp hW hw ?_
    simp only [mem_union] at hv ⊢
    tauto
  unfold kernel
  rw [marg_div law_dependsOn hZ, union_right_comm, marg_law hW]

/-- `P(y, w | do(d), z) / ∑_y P(y, w | do(d), z) = P(y | do(d), z, w)`. -/
theorem kernel_condition (hM : M.Positive) (hY : Disjoint Y (Z ∪ W ∪ D)) (x : ∀ v, Ω v) :
    M.kernel (Y ∪ W) D Z x / marg Y (M.kernel (Y ∪ W) D Z) x = M.kernel Y D (Z ∪ W) x := by
  have hY' : Disjoint Y (W ∪ Z ∪ D) := by rwa [union_comm W Z]
  rw [union_comm Y W, kernel_marginalize hY']
  unfold kernel
  rw [div_div_div_cancel_right₀ (law_pos hM x).ne', union_comm W Y, union_assoc, union_comm Z W]

/-- `P(a | do(d), b, z) P(b | do(d), z) = P(a, b | do(d), z)`. -/
theorem kernel_product (hM : M.Positive) {A B : Finset V} (x : ∀ v, Ω v) :
    M.kernel A D (Z ∪ B) x * M.kernel B D Z x = M.kernel (A ∪ B) D Z x := by
  unfold kernel
  rw [union_comm Z B, ← union_assoc, div_mul_div_cancel₀ (law_pos hM x).ne']

/-- Summing a variable out of a quantity that keeps it changes the quantity: some values of the
kept variable would have the whole mass each. -/
theorem marg_kernel_ne (hM : M.Positive) (hW : Disjoint W (Z ∪ D)) {v : V} (hvY : v ∈ Y)
    (hvW : v ∈ W) {x : ∀ v, Ω v} {a : Ω v} (ha : a ≠ x v) :
    marg W (M.kernel (Y ∪ W) D Z) ≠ M.kernel Y D Z := by
  intro he
  have hsplit : Y ∪ W = Y \ W ∪ W := (sdiff_union_self_eq_union).symm
  have hsplit' : Y = Y \ W ∪ Y ∩ W := (sdiff_union_inter Y W).symm
  have hout : marg W (M.kernel (Y ∪ W) D Z) = M.kernel (Y \ W) D Z := by
    rw [hsplit, kernel_marginalize]
    rw [union_assoc]
    exact disjoint_union_right.mpr ⟨disjoint_sdiff, hW⟩
  have hin : marg (Y ∩ W) (M.kernel Y D Z) = M.kernel (Y \ W) D Z := by
    conv_lhs => rw [hsplit', ← hsplit']
    rw [show M.kernel Y D Z = M.kernel (Y \ W ∪ Y ∩ W) D Z by rw [← hsplit'], kernel_marginalize]
    rw [union_assoc]
    refine disjoint_union_right.mpr ⟨?_, hW.mono_left inter_subset_right⟩
    exact disjoint_sdiff.mono_left inter_subset_right
  have hlt := marg_gt (f := M.kernel Y D Z) (kernel_pos hM) (mem_inter.mpr ⟨hvY, hvW⟩) ha
  rw [hin, ← hout, he] at hlt
  exact lt_irrefl _ hlt

theorem law_empty (hac : G.Acyclic) (x : ∀ v, Ω v) : M.law D ∅ x = 1 := by
  rw [law_eq_marg hac (E := ∅) (disjoint_empty_left D) (fun _ ht => absurd ht (notMem_empty _))
    subset_rfl, sdiff_self, bot_eq_empty, marg_empty, q_empty]

theorem kernel_unconditioned (hac : G.Acyclic) (x : ∀ v, Ω v) :
    M.kernel Y D ∅ x = M.law D Y x := by
  unfold kernel
  rw [law_empty hac, div_one, union_empty]

end Model

/-! ## A positive model of every graph -/

noncomputable def uniform (G : MixedGraph V) (Ω : V → Type) [∀ v, Fintype (Ω v)]
    [∀ v, Nonempty (Ω v)] : Model G Ω where
  Lat _ := Unit
  weight _ _ := 1
  weight_nonneg _ _ := zero_le_one
  weight_sum _ := by simp
  mech v _ _ _ := 1 / Fintype.card (Ω v)
  mech_nonneg _ _ _ _ := div_nonneg zero_le_one (Nat.cast_nonneg _)
  mech_sum v _ _ := by
    rw [sum_const, card_univ, nsmul_eq_mul, mul_one_div_cancel]
    exact Nat.cast_ne_zero.mpr Fintype.card_ne_zero
  mech_parents _ _ _ _ _ := rfl
  mech_latents _ _ _ _ _ := rfl

theorem uniform_positive (G : MixedGraph V) (Ω : V → Type) [∀ v, Fintype (Ω v)]
    [∀ v, Nonempty (Ω v)] : (uniform G Ω).Positive := by
  intro x
  refine sum_pos (fun u _ => mul_pos (prod_pos fun _ _ => zero_lt_one) (prod_pos fun v _ => ?_))
    ⟨fun _ => (), mem_univ _⟩
  exact div_pos zero_lt_one (Nat.cast_pos.mpr Fintype.card_pos)

end Antecedent.Prob
