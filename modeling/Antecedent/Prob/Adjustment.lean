import Antecedent.Prob.DoCalculus

/-!
# Adjusting for a set

The joint back-door criterion: no adjustment variable is caused by a treatment, and the adjustment
set separates the treatments from the outcome in the graph without the edges out of the treatments.
The observations of the treatments then act as settings, and setting them leaves the law of the
adjustment set as it is.

* **`adjustment`**: a set that meets the criterion gives the law under the interventions.
-/

namespace Antecedent.Mixed

variable {V : Type*} {G : MixedGraph V}

/-- The joint back-door criterion. -/
structure JointBackdoor (G : MixedGraph V) (T : Set V) (y : V) (Z : Set V) : Prop where
  treatments_apart : ∀ t ∈ T, t ≠ y ∧ t ∉ Z
  outcome_apart : y ∉ Z
  not_below : ∀ t ∈ T, ∀ z ∈ Z, ¬ G.Anc t z
  closed : (G.mutilate ∅ T).MSeparated T {y} Z

/-- **The criterion is one test a treatment, in the one cut graph.** -/
theorem closed_iff_pairs {T Z : Set V} {y : V} (hT : ∀ t ∈ T, t ∉ Z) (hy : y ∉ Z) :
    (G.mutilate ∅ T).MSeparated T {y} Z ↔
      ∀ t ∈ T, (G.mutilate ∅ T).MSeparated {t} {y} Z := by
  have hy' : ∀ u ∈ ({y} : Set V), u ∉ Z := fun u hu => by rwa [Set.mem_singleton_iff.mp hu]
  rw [MixedGraph.mSeparated_iff_pairs hT hy']
  exact forall₂_congr fun _ _ => by simp

/-- The criterion holds of the nodes the graph itself has. -/
theorem JointBackdoor.comap {W : Type*} {f : W → V} (hf : Function.Injective f) {T Z : Set W} {y : W}
    (h : JointBackdoor G (f '' T) (f y) (f '' Z)) : JointBackdoor (G.comap f) T y Z where
  treatments_apart t ht := by
    obtain ⟨hty, htZ⟩ := h.treatments_apart (f t) ⟨t, ht, rfl⟩
    exact ⟨fun e => hty (congrArg f e), fun htz => htZ ⟨t, htz, rfl⟩⟩
  outcome_apart hy := h.outcome_apart ⟨y, hy, rfl⟩
  not_below t ht z hz hanc := h.not_below (f t) ⟨t, ht, rfl⟩ (f z) ⟨z, hz, rfl⟩
    (Relation.ReflTransGen.lift f (fun _ _ hd => hd) _ _ hanc)
  closed := by
    have hcut : (G.mutilate ∅ (f '' T)).comap f = (G.comap f).mutilate ∅ T := by
      refine MixedGraph.ext (funext₂ fun a b => propext ?_) (funext₂ fun a b => propext ?_)
      · simp only [MixedGraph.mutilate, MixedGraph.comap, hf.mem_set_image, Set.mem_empty_iff_false]
      · simp [MixedGraph.mutilate, MixedGraph.comap]
    rw [← hcut]
    refine MixedGraph.MSeparated.comap hf ?_
    rw [Set.image_singleton]
    exact h.closed

end Antecedent.Mixed

namespace Antecedent.Prob.Model

open Finset
open Mixed

variable {V : Type*} [Fintype V] [DecidableEq V] {G : MixedGraph V} {Ω : V → Type}
  [∀ v, Fintype (Ω v)] [∀ v, DecidableEq (Ω v)] {M : Model G Ω} {T Z : Finset V} {y : V}

/-- **The adjustment formula.** -/
theorem adjustment (hac : G.Acyclic) (hM : M.Positive) (h : JointBackdoor G T y Z) :
    M.kernel {y} T ∅ = marg Z fun x => M.kernel {y} ∅ (T ∪ Z) x * M.kernel Z ∅ ∅ x := by
  have hyZ : y ∉ Z := fun hy => h.outcome_apart (mem_coe.mpr hy)
  have hTZ : Disjoint T Z := disjoint_left.mpr fun t ht hz =>
    (h.treatments_apart t (mem_coe.mpr ht)).2 (mem_coe.mpr hz)
  have hsplit : M.kernel {y} T ∅ = marg Z (M.kernel ({y} ∪ Z) T ∅) := by
    refine (kernel_marginalize ?_).symm
    rw [union_empty, disjoint_union_right, disjoint_singleton_right]
    exact ⟨hyZ, hTZ.symm⟩
  rw [hsplit]
  congr 1
  funext x
  have hprod := kernel_product (D := T) (Z := ∅) hM (A := {y}) (B := Z) x
  rw [empty_union] at hprod
  rw [← hprod]
  congr 1
  · -- the treatments, observed, act as set
    have hsep : (G.mutilate (∅ : Finset V) T).MSeparated T ({y} : Finset V)
        ((∅ : Finset V) ∪ (Z : Finset V) : Set V) := by
      rw [coe_empty, coe_singleton, Set.empty_union]
      exact h.closed
    have h2 := rule2 (M := M) (Y := {y}) (D := ∅) (Z := Z) (W := T) hac hM
      (disjoint_empty_right _) (disjoint_singleton_left.mpr hyZ) (disjoint_empty_right _)
      (by rwa [empty_union]) hsep x
    rw [empty_union] at h2
    rw [← h2, union_comm]
  · -- and leave the adjustment set as it is
    have h3 : M.kernel Z (∅ ∪ T) ∅ x = M.kernel Z ∅ ∅ x := by
      refine kernel_do_nonancestor hac (disjoint_empty_right _) (disjoint_empty_right _)
        (fun t ht hanc => ?_) x
      obtain ⟨z, hz, htz⟩ := hanc
      rw [coe_empty, Set.union_empty] at hz
      exact h.not_below t (mem_coe.mpr ht) z hz htz.of_mutilate
    rwa [empty_union] at h3

end Antecedent.Prob.Model
