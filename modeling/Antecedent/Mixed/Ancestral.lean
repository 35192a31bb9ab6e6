import Antecedent.Mixed.Mutilate

/-!
# The ancestral separator

Among the sets of allowed nodes the ancestors of the two ends are as good a separator as any: a set
separates two nodes only if the allowed ancestors of the two do (the moral graph of a larger
ancestral set has more edges).

* **`mSeparated_ancestral`**: if some set of allowed nodes separates, the allowed ancestors do.
-/

namespace Antecedent.Mixed.MixedGraph

open Relation

variable {V : Type*} {G H : MixedGraph V} {x y : V}

/-- **If some set of allowed nodes separates two nodes, their allowed ancestors do.** -/
theorem mSeparated_ancestral {R Z : Set V} (hZ : Z ⊆ R) (h : G.MSeparated {x} {y} Z) :
    G.MSeparated {x} {y} (G.AncSet {x, y} ∩ R) := by
  have hpair : ({x} ∪ {y} : Set V) = {x, y} := Set.singleton_union
  -- the allowed ancestors add nothing to the ancestral set
  have hanc : G.AncSet ({x} ∪ {y} ∪ (G.AncSet {x, y} ∩ R)) ⊆ G.AncSet {x, y} := by
    rintro v ⟨w, hw, hvw⟩
    rcases hw with hw | hw
    · exact ⟨w, hpair ▸ hw, hvw⟩
    · exact ancSet_of_anc hvw hw.1
  intro s hs t ht hreach
  refine h s hs t ht (ReflTransGen.mono (fun a b hab => ⟨?_, fun hb => ?_⟩) _ _ hreach)
  · refine hab.1.mono (hanc.trans (ancSet_mono ?_))
    rw [← hpair]
    exact Set.subset_union_left
  · exact hab.2 ⟨hanc hab.1.right_mem, hZ hb⟩

/-- **A separator keeps separating inside an ancestral set that holds the ends.** -/
theorem mSeparated_restrict {X Y C A : Set V} (hA : G.AncSet A ⊆ A) (hX : X ⊆ A) (hY : Y ⊆ A)
    (h : G.MSeparated X Y C) : G.MSeparated X Y (C ∩ A) := by
  have hanc : G.AncSet (X ∪ Y ∪ (C ∩ A)) ⊆ A := by
    rintro v ⟨w, (hw | hw) | hw, hvw⟩
    exacts [hA ⟨w, hX hw, hvw⟩, hA ⟨w, hY hw, hvw⟩, hA ⟨w, hw.2, hvw⟩]
  intro s hs t ht hreach
  refine h s hs t ht (ReflTransGen.mono (fun a b hab => ⟨?_, fun hb => ?_⟩) _ _ hreach)
  · exact hab.1.mono (ancSet_mono (Set.union_subset_union_right _ Set.inter_subset_left))
  · exact hab.2 ⟨hb, hanc hab.1.right_mem⟩

/-- Cutting edges out of `x` changes no ancestor of a set with `x` in it: a path through `x` is cut
to one that ends there. -/
theorem ancSet_cut_some {S : Set V} (hx : x ∈ S) (hsub : ∀ a b, H.dir a b → G.dir a b)
    (hcut : ∀ a b, G.dir a b → a ≠ x → H.dir a b) : H.AncSet S = G.AncSet S := by
  have key : ∀ {v w}, G.Anc v w → H.Anc v w ∨ H.Anc v x := by
    intro v w hvw
    induction hvw using ReflTransGen.head_induction_on with
    | refl => exact Or.inl ReflTransGen.refl
    | @head a b hab _ ih =>
      by_cases hax : a = x
      · rw [hax]
        exact Or.inr ReflTransGen.refl
      · have hab' := hcut a b hab hax
        exact ih.imp (ReflTransGen.head hab') (ReflTransGen.head hab')
  ext v
  constructor
  · rintro ⟨w, hw, hvw⟩
    exact ⟨w, hw, ReflTransGen.mono hsub _ _ hvw⟩
  · rintro ⟨w, hw, hvw⟩
    rcases key hvw with h | h
    · exact ⟨w, hw, h⟩
    · exact ⟨x, hx, h⟩

/-- Cutting the edges out of `x` changes no ancestor of `x` or `y`. -/
theorem ancSet_cut (hcut : ∀ a b, H.dir a b ↔ G.dir a b ∧ a ≠ x) :
    H.AncSet {x, y} = G.AncSet {x, y} :=
  ancSet_cut_some (.inl rfl) (fun a b hab => ((hcut a b).mp hab).1)
    fun a b hab hax => (hcut a b).mpr ⟨hab, hax⟩

end Antecedent.Mixed.MixedGraph
