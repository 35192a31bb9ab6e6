import Antecedent.Mixed.Moral

/-!
# Mutilated graphs, set separation and pulled-back graphs

`G.mutilate O U` removes the edges into `O` (a bidirected edge at a node of `O` is one) and the
directed edges out of `U`. `MSeparated` is separation of two sets, stated in the moral graph of the
ancestral set.

* `mSeparated_iff_ball`, `mSeparated_iff_pairs`: separation of sets is separation of every pair.
* `mSeparated_comap_iff`: it reads the same there when the nodes left out are sources with one child.
-/

namespace Antecedent.Mixed.MixedGraph

open Relation

variable {V W : Type*} (G : MixedGraph V)

/-- `G` without the edges into `O` and the directed edges out of `U`. -/
def mutilate (O U : Set V) : MixedGraph V where
  dir a b := G.dir a b ∧ b ∉ O ∧ a ∉ U
  bi a b := G.bi a b ∧ a ∉ O ∧ b ∉ O
  bi_symm h := ⟨G.bi_symm h.1, h.2.2, h.2.1⟩

/-- No path in the moral graph of the ancestral set joins `X` to `Y` around `C`. -/
def MSeparated (X Y C : Set V) : Prop :=
  ∀ x ∈ X, ∀ y ∈ Y, ¬ G.MoralReach (G.AncSet (X ∪ Y ∪ C)) C x y

/-- The graph on the nodes `f` names. -/
def comap (f : W → V) : MixedGraph W where
  dir a b := G.dir (f a) (f b)
  bi a b := G.bi (f a) (f b)
  bi_symm h := G.bi_symm h

variable {G} {X Y C O U : Set V}

theorem Acyclic.mutilate (hac : G.Acyclic) : (G.mutilate O U).Acyclic := fun v hv =>
  hac v (TransGen.mono (fun _ _ h => h.1) _ _ hv)

theorem Acyclic.comap (hac : G.Acyclic) (f : W → V) : (G.comap f).Acyclic := fun v hv =>
  hac (f v) (TransGen.lift f (fun _ _ h => h) _ _ hv)

theorem Anc.of_mutilate {a b : V} (h : (G.mutilate O U).Anc a b) : G.Anc a b :=
  ReflTransGen.mono (fun _ _ h => h.1) _ _ h

theorem mSeparated_iff_ball (hX : ∀ x ∈ X, x ∉ C) (hY : ∀ y ∈ Y, y ∉ C) :
    G.MSeparated X Y C ↔ ∀ y ∈ Y, ∀ h, ¬ G.Ball C X y h := by
  have key := ball_iff_moral (G := G) (S := X) (T := Y) (Z := C) hX hY
  constructor
  · intro hs y hy h hb
    obtain ⟨x, hx, y', hy', hr⟩ := key.mp ⟨y, hy, h, hb⟩
    exact hs x hx y' hy' hr
  · intro hn x hx y hy hr
    obtain ⟨y', hy', h, hb⟩ := key.mpr ⟨x, hx, y, hy, hr⟩
    exact hn y' hy' h hb

/-- **Two sets are separated iff every pair is.** -/
theorem mSeparated_iff_pairs (hX : ∀ x ∈ X, x ∉ C) (hY : ∀ y ∈ Y, y ∉ C) :
    G.MSeparated X Y C ↔ ∀ x ∈ X, ∀ y ∈ Y, G.MSeparated {x} {y} C := by
  have single : ∀ x ∈ X, ∀ y ∈ Y, (G.MSeparated {x} {y} C ↔ ∀ h, ¬ G.Ball C {x} y h) := by
    intro x hx y hy
    rw [mSeparated_iff_ball (by rintro _ rfl; exact hX _ hx) (by rintro _ rfl; exact hY _ hy)]
    simp
  rw [mSeparated_iff_ball hX hY]
  constructor
  · intro hn x hx y hy
    rw [single x hx y hy]
    exact fun h hb => hn y hy h (ball_mono_source (Set.singleton_subset_iff.mpr hx) hb)
  · intro hp y hy h hb
    obtain ⟨x, hx, hb⟩ := ball_singleton hb
    exact (single x hx y hy).mp (hp x hx y hy) h hb

theorem mSeparated_singleton_iff (hac : G.Acyclic) {x y : V} (hx : x ∉ C) (hy : y ∉ C) :
    G.MSeparated {x} {y} C ↔ ¬ G.MConnecting C x y := by
  have hX : ∀ a ∈ ({x} : Set V), a ∉ C := by rintro _ rfl; exact hx
  rw [mSeparated_iff_ball hX (by rintro _ rfl; exact hy)]
  have h := ball_iff_mConnecting (G := G) (S := {x}) (Z := C) hac (b := y) hX
  simp only [Set.mem_singleton_iff, exists_eq_left] at h
  rw [← h]
  simp

/-- Separation reads the same from either side. -/
theorem MSeparated.symm (hY : ∀ y ∈ Y, y ∉ C) (h : G.MSeparated X Y C) :
    G.MSeparated Y X C := fun y hy x hx hr => by
  rw [Set.union_comm Y X] at hr
  exact h x hx y hy (MoralReach.symm hr (hY y hy))

/-! ## Pulled-back graphs -/

theorem MoralAdj.mono {A A' : Set V} (hA : A ⊆ A') {a b : V} (h : G.MoralAdj A a b) :
    G.MoralAdj A' a b := by
  obtain ⟨c, d, hc, ha, hcd, hb⟩ := h.joined
  refine ⟨h.ne, hA h.left_mem, hA h.right_mem, c, d, hA hc, ha, ?_, hb⟩
  exact ReflTransGen.mono (fun _ _ h => ⟨hA h.1, hA h.2.1, h.2.2⟩) _ _ hcd

section Comap

variable {f : W → V}

theorem ancSet_comap {Z : Set W} {v : W} (h : v ∈ (G.comap f).AncSet Z) :
    f v ∈ G.AncSet (f '' Z) := by
  obtain ⟨z, hz, hvz⟩ := h
  exact ⟨f z, ⟨z, hz, rfl⟩, ReflTransGen.lift f (fun _ _ h => h) _ _ hvz⟩

theorem moralAdj_comap (hf : Function.Injective f) {A : Set W} {A' : Set V} (hA : f '' A ⊆ A')
    {a b : W} (h : (G.comap f).MoralAdj A a b) : G.MoralAdj A' (f a) (f b) := by
  have mem : ∀ {v}, v ∈ A → f v ∈ A' := fun hv => hA ⟨_, hv, rfl⟩
  obtain ⟨c, d, hc, ha, hcd, hb⟩ := h.joined
  have into : ∀ {u v}, (G.comap f).Into u v → G.Into (f u) (f v) := fun hu =>
    hu.imp (fun e => congrArg f e) id
  refine ⟨hf.ne h.ne, mem h.left_mem, mem h.right_mem, f c, f d, mem hc, into ha, ?_, into hb⟩
  exact ReflTransGen.lift f (fun _ _ h => ⟨mem h.1, mem h.2.1, h.2.2⟩) _ _ hcd

/-- **Separation survives passing to fewer nodes.** -/
theorem MSeparated.comap (hf : Function.Injective f) {X Y C : Set W}
    (h : G.MSeparated (f '' X) (f '' Y) (f '' C)) : (G.comap f).MSeparated X Y C := by
  intro x hx y hy hr
  refine h (f x) ⟨x, hx, rfl⟩ (f y) ⟨y, hy, rfl⟩ ?_
  have hA : f '' (G.comap f).AncSet (X ∪ Y ∪ C) ⊆ G.AncSet (f '' X ∪ f '' Y ∪ f '' C) := by
    rintro _ ⟨v, hv, rfl⟩
    rw [← Set.image_union, ← Set.image_union]
    exact ancSet_comap hv
  refine ReflTransGen.lift f (fun a b hab => ⟨moralAdj_comap hf hA hab.1, ?_⟩) _ _ hr
  rintro ⟨c, hc, e⟩
  exact hab.2 (hf e ▸ hc)

end Comap

/-! ## Sources with one child

Such a node is only ever an end of a path, so a query between the others does not see it. -/

/-- Every node that `f` does not name is a source with at most one child. -/
structure Pendant (G : MixedGraph V) (f : W → V) : Prop where
  no_parent : ∀ a b, b ∉ Set.range f → ¬ G.dir a b
  no_sibling : ∀ a b, b ∉ Set.range f → ¬ G.bi a b
  one_child : ∀ a b c, a ∉ Set.range f → G.dir a b → G.dir a c → b = c

namespace Pendant

variable {f : W → V} {Z S : Set W}

/-- Nothing is below a named node but named nodes. -/
theorem anc_comap (hp : G.Pendant f) {a : W} {v : V} (h : G.Anc (f a) v) :
    ∃ b, f b = v ∧ (G.comap f).Anc a b := by
  induction h with
  | refl => exact ⟨a, rfl, .refl⟩
  | @tail u v _ huv ih =>
    obtain ⟨b, rfl, hab⟩ := ih
    by_cases hv : v ∈ Set.range f
    · obtain ⟨c, rfl⟩ := hv
      exact ⟨c, rfl, hab.tail huv⟩
    · exact absurd huv (hp.no_parent _ _ hv)

variable (hf : Function.Injective f) (hp : G.Pendant f)

include hf hp

theorem passes_comap {i : Bool} {a : W} (h : G.Passes (f '' Z) i (f a)) : (G.comap f).Passes Z i a := by
  cases i with
  | false =>
    rw [passes_noncollider] at h ⊢
    exact fun ha => h ⟨a, ha, rfl⟩
  | true =>
    rw [passes_collider] at h ⊢
    obtain ⟨_, ⟨z, hz, rfl⟩, haz⟩ := h
    obtain ⟨b, hb, hab⟩ := hp.anc_comap haz
    exact ⟨z, hz, hf hb ▸ hab⟩

/-- **The ball between named nodes.** A ball that climbs to an unnamed source comes back to the node
it left, where it was a non-collider outside `Z` or reached by an arrowhead already; at a node outside
`Z` an arrowhead opens nothing. -/
theorem ball_comap {v : V} {h : Bool} (hb : G.Ball (f '' Z) (f '' S) v h) :
    (∃ a i, f a = v ∧ (G.comap f).Ball Z S a i ∧ (i = h ∨ i = false ∧ a ∉ Z)) ∨
      (v ∉ Set.range f ∧ ∀ b, G.dir v b → ∃ a i, f a = b ∧ (G.comap f).Ball Z S a i ∧
        (i = true ∨ a ∉ Z)) := by
  induction hb with
  | source hv =>
    obtain ⟨a, ha, rfl⟩ := hv
    exact Or.inl ⟨a, false, rfl, .source ha, Or.inl rfl⟩
  | @step v w h k _ hpass hedge ih =>
    rcases ih with ⟨a, i, rfl, hball, hi⟩ | ⟨hv, hchild⟩
    · by_cases hw : w ∈ Set.range f
      · obtain ⟨b, rfl⟩ := hw
        have he : (G.comap f).Edge k a b := by
          cases k <;> exact hedge
        have hpass' : (G.comap f).Passes Z (i && k.headL) a := by
          rcases hi with rfl | ⟨rfl, ha⟩
          · exact passes_comap hf hp hpass
          · exact passes_noncollider.mpr ha
        exact Or.inl ⟨b, k.headR, rfl, hball.step hpass' he, Or.inl rfl⟩
      · refine Or.inr ⟨hw, fun b hwb => ?_⟩
        cases k with
        | fwd => exact absurd hedge (hp.no_parent _ _ hw)
        | bi => exact absurd hedge (hp.no_sibling _ _ hw)
        | bwd =>
          refine ⟨a, i, hp.one_child w _ _ hw hedge hwb, hball, ?_⟩
          rcases hi with rfl | ⟨-, ha⟩
          · cases i with
            | true => exact Or.inl rfl
            | false =>
              have hz := passes_noncollider.mp (passes_comap hf hp hpass)
              exact Or.inr hz
          · exact Or.inr ha
    · cases k with
      | bwd => exact absurd hedge (hp.no_parent _ _ hv)
      | bi => exact absurd (G.bi_symm hedge) (hp.no_sibling _ _ hv)
      | fwd =>
        obtain ⟨a, i, ha, hball, hi⟩ := hchild w hedge
        refine Or.inl ⟨a, i, ha, hball, ?_⟩
        cases i with
        | true => exact Or.inl rfl
        | false => exact Or.inr ⟨rfl, hi.resolve_left (by simp)⟩

/-- **Separation of named sets does not see the unnamed sources.** -/
theorem mSeparated_comap_iff {X Y C : Set W} (hX : ∀ x ∈ X, x ∉ C) (hY : ∀ y ∈ Y, y ∉ C) :
    G.MSeparated (f '' X) (f '' Y) (f '' C) ↔ (G.comap f).MSeparated X Y C := by
  have himage : ∀ {A : Set W}, (∀ a ∈ A, a ∉ C) → ∀ v ∈ f '' A, v ∉ f '' C := by
    rintro A hA _ ⟨a, ha, rfl⟩ ⟨c, hc, e⟩
    exact hA a ha (hf e ▸ hc)
  refine ⟨MSeparated.comap hf, fun h => ?_⟩
  rw [mSeparated_iff_ball hX hY] at h
  rw [mSeparated_iff_ball (himage hX) (himage hY)]
  rintro _ ⟨y, hy, rfl⟩ i hb
  rcases ball_comap hf hp hb with ⟨a, j, ha, hball, -⟩ | ⟨hout, -⟩
  · exact h y hy j (hf ha ▸ hball)
  · exact hout ⟨y, rfl⟩

end Pendant

end Antecedent.Mixed.MixedGraph
