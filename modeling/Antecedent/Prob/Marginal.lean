import Mathlib.Algebra.BigOperators.Field
import Mathlib.Algebra.Order.BigOperators.Ring.Finset
import Mathlib.Data.Fintype.BigOperators
import Mathlib.Data.Real.Basic
import Mathlib.Order.CompletePartialOrder

/-!
# Summing coordinates out of a function of finitely many variables

An assignment gives every variable `v` a value in its own finite domain `Ω v`. `marg S f` sums the
coordinates in `S` out of `f`; the result is again a function of a whole assignment, which no
longer looks at `S`. Which coordinates a function looks at is Mathlib's `DependsOn`.

* `marg_mul_left`, `marg_mul_right`: a factor that does not look at `S` leaves the sum.
-/

namespace Antecedent.Prob

open Finset

variable {V : Type*} [Fintype V] [DecidableEq V] {Ω : V → Type*} [∀ v, Fintype (Ω v)]
  [∀ v, DecidableEq (Ω v)]

/-- The assignments that agree with `x` outside `S`. -/
def agreeing (S : Finset V) (x : ∀ v, Ω v) : Finset (∀ v, Ω v) :=
  univ.filter fun y => ∀ v, v ∉ S → y v = x v

/-- `∑_S f`: the sum of `f` over the values of the coordinates in `S`. -/
def marg (S : Finset V) (f : (∀ v, Ω v) → ℝ) (x : ∀ v, Ω v) : ℝ := ∑ y ∈ agreeing S x, f y

/-- `y` on `S` and `x` elsewhere. -/
def override (S : Finset V) (y x : ∀ v, Ω v) : ∀ v, Ω v := fun v => if v ∈ S then y v else x v

variable {S T : Finset V} {f g : (∀ v, Ω v) → ℝ} {x y : ∀ v, Ω v} {v : V}

theorem marg_def : marg S f x = ∑ y ∈ agreeing S x, f y := rfl

theorem mem_agreeing : y ∈ agreeing S x ↔ ∀ v, v ∉ S → y v = x v := mem_filter_univ y

omit [Fintype V] [∀ v, Fintype (Ω v)] [∀ v, DecidableEq (Ω v)] in
theorem override_of_mem (h : v ∈ S) : override S y x v = y v := if_pos h

omit [Fintype V] [∀ v, Fintype (Ω v)] [∀ v, DecidableEq (Ω v)] in
theorem override_of_notMem (h : v ∉ S) : override S y x v = x v := if_neg h

theorem override_mem : override S y x ∈ agreeing S x :=
  mem_agreeing.mpr fun _ hv => override_of_notMem hv

theorem self_mem_agreeing : x ∈ agreeing S x := mem_agreeing.mpr fun _ _ => rfl

/-! ## What a sum looks at -/

variable {D D' : Set V}

omit [Fintype V] [DecidableEq V] [∀ v, Fintype (Ω v)] [∀ v, DecidableEq (Ω v)] in
theorem DependsOn.mul (hf : DependsOn f D) (hg : DependsOn g D') :
    DependsOn (fun x => f x * g x) (D ∪ D') := fun _ _ h => by
  show _ * _ = _ * _
  rw [hf fun i hi => h i (Or.inl hi), hg fun i hi => h i (Or.inr hi)]

omit [Fintype V] [DecidableEq V] [∀ v, Fintype (Ω v)] [∀ v, DecidableEq (Ω v)] in
theorem DependsOn.div (hf : DependsOn f D) (hg : DependsOn g D') :
    DependsOn (fun x => f x / g x) (D ∪ D') := fun _ _ h => by
  show _ / _ = _ / _
  rw [hf fun i hi => h i (Or.inl hi), hg fun i hi => h i (Or.inr hi)]

/-- A sum looks at what the summand looks at, the summed coordinates apart. -/
theorem dependsOn_marg (hf : DependsOn f D) : DependsOn (marg S f) (D \ S) := by
  intro x x' h
  rw [marg_def, marg_def]
  refine sum_nbij' (fun y => override S y x') (fun y => override S y x) (fun _ _ => override_mem)
    (fun _ _ => override_mem) (fun y hy => ?_) (fun y hy => ?_) (fun y hy => hf fun v hv => ?_)
  · funext v
    by_cases hv : v ∈ S
    · rw [override_of_mem hv, override_of_mem hv]
    · rw [override_of_notMem hv, mem_agreeing.mp hy v hv]
  · funext v
    by_cases hv : v ∈ S
    · rw [override_of_mem hv, override_of_mem hv]
    · rw [override_of_notMem hv, mem_agreeing.mp hy v hv]
  · by_cases hS : v ∈ S
    · rw [override_of_mem hS]
    · rw [override_of_notMem hS, mem_agreeing.mp hy v hS]
      exact h v ⟨hv, hS⟩

theorem marg_congr (h : ∀ y, (∀ v, v ∉ S → y v = x v) → f y = g y) : marg S f x = marg S g x :=
  sum_congr rfl fun _ hy => h _ (mem_agreeing.mp hy)

@[simp] theorem marg_empty : marg ∅ f = f := by
  funext x
  have : agreeing ∅ x = {x} := by
    ext y
    simp [mem_agreeing, funext_iff]
  rw [marg_def, this, sum_singleton]

theorem marg_pos (hf : ∀ x, 0 < f x) (x : ∀ v, Ω v) : 0 < marg S f x :=
  sum_pos (fun y _ => hf y) ⟨x, self_mem_agreeing⟩

/-- A positive function is less than its sum over a variable with another value. -/
theorem marg_gt (hf : ∀ x, 0 < f x) (hv : v ∈ S) {a : Ω v} (ha : a ≠ x v) :
    f x < marg S f x := by
  have hmem : Function.update x v a ∈ agreeing S x := mem_agreeing.mpr fun w hw =>
    Function.update_of_ne (by rintro rfl; exact hw hv) _ _
  have hne : Function.update x v a ≠ x := fun e => ha (by rw [← congrFun e v, Function.update_self])
  exact single_lt_sum hne self_mem_agreeing hmem (hf _) fun y _ _ => (hf y).le

/-- Fixing coordinates that are not summed goes under the sum. -/
theorem marg_override (h : Disjoint S T) :
    marg S f (override T y x) = marg S (fun z => f (override T y z)) x := by
  have hT : ∀ {v}, v ∈ T → v ∉ S := fun hv hS => disjoint_left.mp h hS hv
  refine (sum_nbij' (fun z => override T y z) (fun z => override T x z) (fun z hz => ?_)
    (fun z hz => ?_) (fun z hz => ?_) (fun z hz => ?_) fun z _ => rfl).symm
  · refine mem_agreeing.mpr fun v hv => ?_
    by_cases hvT : v ∈ T
    · rw [override_of_mem hvT, override_of_mem hvT]
    · rw [override_of_notMem hvT, override_of_notMem hvT, mem_agreeing.mp hz v hv]
  · refine mem_agreeing.mpr fun v hv => ?_
    by_cases hvT : v ∈ T
    · rw [override_of_mem hvT]
    · rw [override_of_notMem hvT, mem_agreeing.mp hz v hv, override_of_notMem hvT]
  · funext v
    by_cases hvT : v ∈ T
    · rw [override_of_mem hvT, mem_agreeing.mp hz v (hT hvT)]
    · rw [override_of_notMem hvT, override_of_notMem hvT]
  · funext v
    by_cases hvT : v ∈ T
    · rw [override_of_mem hvT, mem_agreeing.mp hz v (hT hvT), override_of_mem hvT]
    · rw [override_of_notMem hvT, override_of_notMem hvT]

/-- Summing out in turn. -/
theorem marg_marg (h : Disjoint S T) : marg S (marg T f) = marg (S ∪ T) f := by
  funext x
  have hdis : (agreeing S x : Set (∀ v, Ω v)).PairwiseDisjoint (agreeing T) := by
    intro y hy z hz hne
    refine disjoint_left.mpr fun w hwy hwz => hne (funext fun v => ?_)
    by_cases hv : v ∈ S
    · have hT : v ∉ T := disjoint_left.mp h hv
      rw [← mem_agreeing.mp hwy v hT, ← mem_agreeing.mp hwz v hT]
    · rw [mem_agreeing.mp hy v hv, mem_agreeing.mp hz v hv]
  have hun : (agreeing S x).biUnion (agreeing T) = agreeing (S ∪ T) x := by
    ext w
    simp only [mem_biUnion, mem_agreeing, mem_union, not_or]
    constructor
    · rintro ⟨y, hy, hw⟩ v ⟨hS, hT⟩
      rw [hw v hT, hy v hS]
    · intro hw
      refine ⟨override S w x, fun v hv => override_of_notMem hv, fun v hT => ?_⟩
      by_cases hv : v ∈ S
      · rw [override_of_mem hv]
      · rw [override_of_notMem hv, hw v ⟨hv, hT⟩]
  simp only [marg_def]
  rw [← hun, sum_biUnion hdis]

theorem marg_union_of_disjoint (h : Disjoint S T) : marg (S ∪ T) f = marg S (marg T f) :=
  (marg_marg h).symm

/-- A factor that does not look at `S` leaves the sum. -/
theorem marg_mul_left (hf : DependsOn f D) (hD : Disjoint D S) :
    marg S (fun x => f x * g x) = fun x => f x * marg S g x := by
  funext x
  rw [marg_def, marg_def, mul_sum]
  refine sum_congr rfl fun y hy => ?_
  show f y * g y = _
  rw [hf (y := x) fun v hv => mem_agreeing.mp hy v (Set.disjoint_left.mp hD hv)]

theorem marg_mul_right (hg : DependsOn g D) (hD : Disjoint D S) :
    marg S (fun x => f x * g x) = fun x => marg S f x * g x := by
  simp only [mul_comm (f _), marg_mul_left hg hD]
  exact funext fun x => mul_comm _ _

theorem marg_div (hg : DependsOn g D) (hD : Disjoint D S) :
    marg S (fun x => f x / g x) = fun x => marg S f x / g x := by
  funext x
  rw [marg_def, marg_def, sum_div]
  refine sum_congr rfl fun y hy => ?_
  show f y / g y = _
  rw [hg (y := x) fun v hv => mem_agreeing.mp hy v (Set.disjoint_left.mp hD hv)]

/-- A product of functions that look at different summed coordinates splits. -/
theorem marg_mul_marg (h : Disjoint S T) (hf : DependsOn f D) (hfT : Disjoint D T)
    (hg : DependsOn g D') (hgS : Disjoint D' S) :
    marg (S ∪ T) (fun x => f x * g x) = fun x => marg S f x * marg T g x := by
  rw [marg_union_of_disjoint h, marg_mul_left hf hfT]
  exact marg_mul_right (dependsOn_marg hg) (hgS.mono_left Set.sdiff_subset)

/-- Summing out one coordinate. -/
theorem marg_singleton (v : V) : marg {v} f x = ∑ a, f (Function.update x v a) := by
  rw [marg_def]
  refine sum_nbij' (fun y => y v) (fun a => Function.update x v a) (fun _ _ => mem_univ _)
    (fun a _ => ?_) (fun y hy => ?_) (fun a _ => Function.update_self ..) (fun y hy => ?_)
  · refine mem_agreeing.mpr fun w hw => Function.update_of_ne (fun e => hw ?_) ..
    exact mem_singleton.mpr e
  · exact funext fun w => by
      by_cases hw : w = v
      · subst hw; exact Function.update_self ..
      · rw [Function.update_of_ne hw, mem_agreeing.mp hy w (by simpa using hw)]
  · congr 1
    exact funext fun w => by
      by_cases hw : w = v
      · subst hw; exact (Function.update_self ..).symm
      · rw [Function.update_of_ne hw, mem_agreeing.mp hy w (by simpa using hw)]

/-! ## Independent coordinates -/

section Independent

variable {E : Type*} [Fintype E] [DecidableEq E] {L : E → Type*} [∀ e, Fintype (L e)]
  {w : ∀ e, L e → ℝ}

omit [DecidableEq E] in
theorem sum_prod_weights [DecidableEq E] (hw : ∀ e, ∑ a, w e a = 1) :
    ∑ u : (∀ e, L e), ∏ e, w e (u e) = 1 := by
  rw [← Fintype.prod_sum w]
  exact prod_eq_one fun e _ => hw e

/-- **Functions of disjoint independent coordinates have the product of their means.** -/
theorem sum_prod_mul [∀ e, DecidableEq (L e)] (hw : ∀ e, ∑ a, w e a = 1) {A B : Set E}
    {F G : (∀ e, L e) → ℝ} (hF : DependsOn F A) (hG : DependsOn G B) (hAB : Disjoint A B) :
    ∑ u, (∏ e, w e (u e)) * (F u * G u) =
      (∑ u, (∏ e, w e (u e)) * F u) * ∑ u, (∏ e, w e (u e)) * G u := by
  classical
  set S : Finset E := univ.filter fun e => e ∈ A with hS
  have hmem : ∀ e, e ∈ S ↔ e ∈ A := fun e => by simp [hS]
  -- split the weights between `S` and its complement
  set p : (∀ e, L e) → ℝ := fun u => ∏ e ∈ S, w e (u e)
  set q : (∀ e, L e) → ℝ := fun u => ∏ e ∈ Sᶜ, w e (u e)
  have hpq : ∀ u, ∏ e, w e (u e) = p u * q u := fun u => (prod_mul_prod_compl S _).symm
  have hpD : DependsOn p (S : Set E) := fun u u' h =>
    prod_congr rfl fun e he => by rw [h e he]
  have hqD : DependsOn q ((S : Set E)ᶜ) := fun u u' h =>
    prod_congr rfl fun e he => by rw [h e (by simpa using he)]
  have hFD : DependsOn F (S : Set E) := hF.mono fun e he => (hmem e).mpr he
  have hGD : DependsOn G ((S : Set E)ᶜ) := hG.mono fun e he hc =>
    Set.disjoint_left.mp hAB ((hmem e).mp hc) he
  -- a sum over everything is a `marg` over everything
  have all : ∀ (H : (∀ e, L e) → ℝ) (u₀ : ∀ e, L e), ∑ u, H u = marg (S ∪ Sᶜ) H u₀ := by
    intro H u₀
    refine sum_congr ?_ fun _ _ => rfl
    ext u
    simp [mem_agreeing]
  have hd : Disjoint S Sᶜ := disjoint_compl_right
  have hdS : Disjoint ((S : Set E)) ((Sᶜ : Finset E) : Set E) := by
    rw [coe_compl]; exact disjoint_compl_right
  have hdC : Disjoint ((S : Set E)ᶜ) (S : Set E) := disjoint_compl_left
  by_cases hne : Nonempty (∀ e, L e)
  · obtain ⟨u₀⟩ := hne
    have split : ∀ F G : (∀ e, L e) → ℝ, DependsOn F (S : Set E) → DependsOn G ((S : Set E)ᶜ) →
        ∑ u, (∏ e, w e (u e)) * (F u * G u) =
          marg S (fun u => p u * F u) u₀ * marg Sᶜ (fun u => q u * G u) u₀ := by
      intro F G hF hG
      rw [all _ u₀]
      have h1 := marg_mul_marg hd (f := fun u => p u * F u) (g := fun u => q u * G u)
        (by simpa using DependsOn.mul hpD hF) hdS (by simpa using DependsOn.mul hqD hG) hdC
      rw [← congrFun h1 u₀]
      refine marg_congr fun u _ => ?_
      rw [hpq]
      ring
    have h1 := split F G hFD hGD
    have h2 := split F (fun _ => 1) hFD ((dependsOn_const 1).mono (Set.empty_subset _))
    have h3 := split (fun _ => 1) G ((dependsOn_const 1).mono (Set.empty_subset _)) hGD
    have h4 := split (fun _ => 1) (fun _ => 1) ((dependsOn_const 1).mono (Set.empty_subset _))
      ((dependsOn_const 1).mono (Set.empty_subset _))
    simp only [mul_one, one_mul] at h1 h2 h3 h4
    rw [sum_prod_weights hw] at h4
    rw [h1, h2, h3]
    calc marg S (fun u => p u * F u) u₀ * marg Sᶜ (fun u => q u * G u) u₀
        = marg S (fun u => p u * F u) u₀ * marg Sᶜ (fun u => q u * G u) u₀ *
            (marg S (fun u => p u) u₀ * marg Sᶜ (fun u => q u) u₀) := by rw [← h4, mul_one]
      _ = _ := by ring
  · have : IsEmpty (∀ e, L e) := not_nonempty_iff.mp hne
    simp

end Independent

end Antecedent.Prob
