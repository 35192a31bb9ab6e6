import Antecedent.Mixed.Moral

/-!
# Separable pairs and maximality

A mixed graph is maximal when every two of its nodes not joined by an edge are m-separated by some
set. Whether a pair is separable is decided by one set, the proper ancestors of the pair: on a path
that is active given them every inner node is a collider and an ancestor of the pair, and such a
path connects the pair given any set at all.

* `separable_iff`: a pair is separable iff its proper ancestors separate it.
-/

namespace Antecedent.Mixed

namespace MixedGraph

variable {V : Type*} (G : MixedGraph V)

def properAncestors (x y : V) : Set V := G.AncSet {x, y} \ {x, y}

/-- Some set of `N` without `x` and `y` separates them. -/
def Separable (N : Set V) (x y : V) : Prop :=
  ∃ Z, Z ⊆ N ∧ x ∉ Z ∧ y ∉ Z ∧ ¬ G.MConnecting Z x y

/-- Every inner node is a collider and an ancestor of the pair. -/
def Inducing (x y : V) : List (EdgeKind × V) → Prop
  | (k, v) :: (l, w) :: s =>
    k.headR = true ∧ l.headL = true ∧ v ∈ G.AncSet {x, y} ∧ Inducing x y ((l, w) :: s)
  | _ => True

variable {G} {x y : V} {Z : Set V}

theorem properAncestors_source : x ∉ G.properAncestors x y := fun h => h.2 (Or.inl rfl)

theorem properAncestors_target : y ∉ G.properAncestors x y := fun h => h.2 (Or.inr rfl)

theorem ancSet_properAncestors : G.AncSet ({x} ∪ {y} ∪ G.properAncestors x y) ⊆ G.AncSet {x, y} := by
  rintro v ⟨z, (rfl | rfl) | hz, hvz⟩
  · exact ⟨z, Or.inl rfl, hvz⟩
  · exact ⟨z, Or.inr rfl, hvz⟩
  · exact ancSet_of_anc hvz hz.1

/-- **A path active given the proper ancestors is inducing.** An inner non-collider would be an
ancestor of the pair outside the conditioning set, so one of the pair. -/
theorem inducing_of_active : ∀ {a : V} {w : List (EdgeKind × V)}, a ∈ G.AncSet {x, y} →
    G.IsWalk a w → walkEnd a w = y → G.Active (G.properAncestors x y) w →
    (∀ k v l u s t, w = s ++ (k, v) :: (l, u) :: t → v ≠ x ∧ v ≠ y) → G.Inducing x y w
  | _, [], _, _, _, _, _ => trivial
  | _, [_], _, _, _, _, _ => trivial
  | a, (k, v) :: (l, u) :: w, ha, hw, he, hact, hne => by
    obtain ⟨hvx, hvy⟩ := hne k v l u [] w rfl
    have hin : v ∈ G.AncSet {x, y} := by
      by_cases hl : l.headL = true
      · by_cases hk : k.headR = true
        · have hp := hact.1
          rw [hk, hl, Bool.and_self, passes_collider] at hp
          exact ancSet_properAncestors (ancSet_mono (fun z hz => Or.inr hz) hp)
        · cases k with
          | fwd => exact absurd rfl hk
          | bwd => exact ancSet_of_dir hw.1 ha
          | bi => exact absurd rfl hk
      · refine ancSet_properAncestors (mem_anc_of_walk (S := {x}) (T := {y}) hw.2 he ?_ hact.tail)
        rintro k' v' w' ⟨⟩
        have hp := hact.1
        rw [Bool.eq_false_iff.mpr hl] at hp ⊢
        rwa [Bool.and_false] at hp
    have hcol : (k.headR && l.headL) = true := by
      by_contra hc
      have hp := hact.1
      rw [Bool.eq_false_iff.mpr hc, passes_noncollider] at hp
      exact hp ⟨hin, by rintro (rfl | rfl) <;> contradiction⟩
    obtain ⟨hk, hl⟩ := Bool.and_eq_true_iff.mp hcol
    exact ⟨hk, hl, hin, inducing_of_active hin hw.2 he hact.tail fun k' v' l' u' s t h =>
      hne k' v' l' u' ((k, v) :: s) t (by rw [h]; rfl)⟩

/-- **The ball follows an inducing path to its end**, whatever is conditioned on: at every inner
node it leaves through the next arrowhead, or has reached the end on its way around. -/
theorem ball_of_inducing : ∀ {k : EdgeKind} {v : V} {w : List (EdgeKind × V)},
    G.Ball Z {x} v k.headR → G.IsWalk v w → walkEnd v w = y →
    G.Inducing x y ((k, v) :: w) → ∃ h, G.Ball Z {x} y h
  | k, v, [], hb, _, he, _ => ⟨k.headR, he ▸ hb⟩
  | k, v, (l, u) :: w, hb, hw, he, hind => by
    obtain ⟨hk, hl, hv, hrest⟩ := hind
    have hanc : v ∈ G.AncSet ({x} ∪ {y} ∪ Z) := by
      obtain ⟨z, hz, hvz⟩ := hv
      exact ⟨z, Or.inl hz, hvz⟩
    rcases relay (T := {y}) hb hanc (Or.inl hk) with ⟨t, rfl, h', ht⟩ | hpass
    · exact ⟨h', ht⟩
    · exact ball_of_inducing (hpass l u hl hw.1) hw.2 he hrest

theorem walkEnd_mem (a : V) (e : EdgeKind × V) (w : List (EdgeKind × V)) :
    walkEnd a (e :: w) ∈ (e :: w).map Prod.snd := by
  induction w generalizing a e with
  | nil => exact List.mem_singleton.mpr rfl
  | cons f w ih => exact List.mem_cons_of_mem _ (ih e.2 f)

theorem inner_ne {w s t : List (EdgeKind × V)} {k l : EdgeKind} {v u : V}
    (hw : G.MConnectingPath Z x y w) (h : w = s ++ (k, v) :: (l, u) :: t) : v ≠ x ∧ v ≠ y := by
  have hnd := hw.nodup
  have hend := hw.ends
  rw [h] at hnd hend
  rw [walkEnd_append] at hend
  obtain ⟨hx, hnd⟩ := List.nodup_cons.mp hnd
  constructor
  · rintro rfl
    exact hx (by simp)
  · rintro rfl
    rw [List.map_append, List.map_cons] at hnd
    obtain ⟨hv, -⟩ := List.nodup_cons.mp (List.nodup_append.mp hnd).2.1
    have hlast := walkEnd_mem v (l, u) t
    rw [show walkEnd v ((l, u) :: t) = v from hend] at hlast
    exact hv hlast

/-- **One set decides whether a pair is separable**: its proper ancestors. -/
theorem separable_iff (hac : G.Acyclic) {N : Set V} (hN : ∀ a b, G.dir a b → a ∈ N) (hxy : x ≠ y) :
    G.Separable N x y ↔ ¬ G.MConnecting (G.properAncestors x y) x y := by
  constructor
  · rintro ⟨Z, -, hx, -, hsep⟩ ⟨w, hw⟩
    refine hsep ?_
    cases w with
    | nil => exact absurd hw.ends hxy
    | cons e w =>
      obtain ⟨k, v⟩ := e
      have hind := inducing_of_active ⟨x, Or.inl rfl, Relation.ReflTransGen.refl⟩ hw.isWalk hw.ends
        hw.active fun _ _ _ _ _ _ h => inner_ne hw h
      have hfirst : G.Ball Z {x} v k.headR := by
        refine Ball.step (Ball.source rfl) ?_ hw.isWalk.1
        rw [Bool.false_and, passes_noncollider]
        exact hx
      obtain ⟨h, hb⟩ := ball_of_inducing hfirst hw.isWalk.2 hw.ends hind
      obtain ⟨a, rfl, ha⟩ := (ball_iff_mConnecting hac (by rintro a rfl; exact hx)).mp ⟨h, hb⟩
      exact ha
  · intro h
    refine ⟨G.properAncestors x y, ?_, properAncestors_source, properAncestors_target, h⟩
    rintro v ⟨⟨z, hz, hvz⟩, hv⟩
    rcases Relation.ReflTransGen.cases_head hvz with rfl | ⟨u, hvu, -⟩
    · exact absurd hz hv
    · exact hN v u hvu

end MixedGraph

end Antecedent.Mixed
