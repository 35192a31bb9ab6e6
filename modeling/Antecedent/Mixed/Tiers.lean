import Antecedent.Mixed.Mutilate

/-!
# Graphs drawn in tiers

A directed edge leads to a later tier, a bidirected one stays in its tier. Without the edges out of a
set `T`, whatever leaves a node `t` of `T` stays in its tier along bidirected edges, or stops at a
parent: the nodes up to the tier of `t` are conditioned on, or in `T`.

* `anc_tier_le`: a path leads to no earlier tier.
* **`Tiered.mSeparated`**: the nodes of a later tier are separated from it.
-/

namespace Antecedent.Mixed

variable {V : Type*} {G : MixedGraph V}

/-- The edges of `G` follow the tiers `r`. -/
structure Tiered (G : MixedGraph V) (r : V → Nat) : Prop where
  dir : ∀ a b, G.dir a b → r a < r b
  bi : ∀ a b, G.bi a b → r a = r b

namespace Tiered

variable {r : V → Nat} {T Z : Set V} {t y : V}

theorem anc_tier_le (h : Tiered G r) {a b : V} (hab : G.Anc a b) : r a ≤ r b := by
  induction hab with
  | refl => exact le_rfl
  | tail _ hd ih => exact ih.trans (h.dir _ _ hd).le

/-- **Where a ball is found**: at a conditioned parent, where it stops, or in the tier it started
from. -/
theorem ball_stays (h : Tiered G r) (ht : t ∈ T) (hlow : ∀ v, r v ≤ r t → v ∈ Z ∨ v ∈ T) {v : V}
    {i : Bool} (hb : (G.mutilate ∅ T).Ball Z {t} v i) :
    (v ∈ Z ∧ i = false) ∨ (r v = r t ∧ (v = t ∨ i = true)) := by
  induction hb with
  | source hv =>
    obtain rfl := Set.mem_singleton_iff.mp hv
    exact Or.inr ⟨rfl, Or.inl rfl⟩
  | @step v w i k _ hpass hedge ih =>
    rcases ih with ⟨hvZ, rfl⟩ | ⟨htier, hin⟩
    · exact absurd hvZ (MixedGraph.passes_noncollider.mp hpass)
    · cases k with
      | fwd =>
        -- a node of the tier that has an edge out of it is conditioned on
        obtain ⟨-, -, hvT⟩ := hedge
        have hvZ : v ∈ Z := (hlow v htier.le).resolve_right hvT
        rw [show (i && EdgeKind.fwd.headL) = false from Bool.and_false i] at hpass
        exact absurd hvZ (MixedGraph.passes_noncollider.mp hpass)
      | bwd =>
        obtain ⟨hd, -, hwT⟩ := hedge
        have hw : r w ≤ r t := ((h.dir _ _ hd).trans_eq htier).le
        exact Or.inl ⟨(hlow w hw).resolve_right hwT, rfl⟩
      | bi => exact Or.inr ⟨(h.bi _ _ hedge.1).symm.trans htier, Or.inr rfl⟩

/-- **No later tier is reached** from `t`, once its tier and the earlier ones are conditioned on or
have no edges out. -/
theorem mSeparated (h : Tiered G r) (ht : t ∈ T) (htZ : t ∉ Z)
    (hlow : ∀ v, r v ≤ r t → v ∈ Z ∨ v ∈ T) (hy : y ∉ Z) (hty : r t < r y) :
    (G.mutilate ∅ T).MSeparated {t} {y} Z := by
  have htZ' : ∀ x ∈ ({t} : Set V), x ∉ Z := fun x hx => by rwa [Set.mem_singleton_iff.mp hx]
  have hy' : ∀ x ∈ ({y} : Set V), x ∉ Z := fun x hx => by rwa [Set.mem_singleton_iff.mp hx]
  rw [MixedGraph.mSeparated_iff_ball htZ' hy']
  intro x hx i hb
  obtain rfl := Set.mem_singleton_iff.mp hx
  rcases h.ball_stays ht hlow hb with ⟨hxZ, -⟩ | ⟨htier, -⟩
  · exact hy hxZ
  · exact hty.ne' htier

end Tiered

end Antecedent.Mixed
