import Antecedent.Mixed.Basic

/-!
# Latent projection of a directed graph

`latent O` keeps the nodes in `O` of a graph without bidirected edges: `u → v` when a directed path
with every inner node outside `O` leads from `u` to `v`, and `u ↔ v` when such paths lead to both
from one node outside `O`.

* `ball_of_latent`: a move of the projected ball is a run of moves through hidden nodes.
* `Trace`: what a ball at a node of the original graph means for the projected one. At a kept node
  the projected ball is there in a state at least as good; at a hidden node some kept node can be
  left towards it.
* `latent_ball_iff`: between kept nodes, given kept nodes, the two balls reach the same targets.

A hidden collider is opened by its first kept descendant: a path to `Z` through hidden nodes meets
one, and that descendant is a collider of the projection.
-/

namespace Antecedent.Mixed.MixedGraph

open Relation

variable {V : Type*} {G : MixedGraph V} {O Z S : Set V} {u v w x y : V}

/-- A directed path from `u` to `v` with every inner node outside `O`. -/
def Via (G : MixedGraph V) (O : Set V) (u v : V) : Prop :=
  ∃ w, ReflTransGen (fun a b => G.dir a b ∧ b ∉ O) u w ∧ G.dir w v

theorem Via.single (h : G.dir u v) : G.Via O u v := ⟨u, ReflTransGen.refl, h⟩

theorem Via.tail (h : G.Via O u w) (hw : w ∉ O) (hv : G.dir w v) : G.Via O u v := by
  obtain ⟨t, hut, htw⟩ := h
  exact ⟨w, hut.tail ⟨htw, hw⟩, hv⟩

theorem Via.head (h : G.dir u w) (hw : w ∉ O) (hv : G.Via O w v) : G.Via O u v := by
  obtain ⟨t, hwt, htv⟩ := hv
  exact ⟨t, hwt.head ⟨h, hw⟩, htv⟩

theorem Via.trans (h : G.Via O u w) (hw : w ∉ O) (hv : G.Via O w v) : G.Via O u v := by
  obtain ⟨s, hus, hsw⟩ := h
  obtain ⟨t, hwt, htv⟩ := hv
  exact ⟨t, (hus.tail ⟨hsw, hw⟩).trans hwt, htv⟩

theorem Via.transGen (h : G.Via O u v) : TransGen G.dir u v := by
  obtain ⟨w, huw, hwv⟩ := h
  exact TransGen.tail' (ReflTransGen.mono (fun _ _ h => h.1) _ _ huw) hwv

theorem Via.ne (hac : G.Acyclic) (h : G.Via O u v) : u ≠ v := by
  rintro rfl
  exact hac u h.transGen

/-- The projection of `G` on `O`. -/
def latent (G : MixedGraph V) (O : Set V) : MixedGraph V where
  dir u v := u ∈ O ∧ v ∈ O ∧ G.Via O u v
  bi u v := u ∈ O ∧ v ∈ O ∧ u ≠ v ∧ ∃ l, l ∉ O ∧ G.Via O l u ∧ G.Via O l v
  bi_symm := by
    rintro a b ⟨ha, hb, hne, l, hl, hla, hlb⟩
    exact ⟨hb, ha, hne.symm, l, hl, hlb, hla⟩

/-! ## Ancestors -/

/-- A directed path to a kept node stays in the projection from its first kept node on. -/
theorem anc_latent (hx : x ∈ O) (h : G.Anc v x) :
    (v ∈ O → (G.latent O).Anc v x) ∧
      (v ∉ O → ∃ o ∈ O, G.Via O v o ∧ (G.latent O).Anc o x) := by
  induction h using ReflTransGen.head_induction_on with
  | refl => exact ⟨fun _ => ReflTransGen.refl, fun hv => absurd hx hv⟩
  | @head a c hac _ ih =>
    have step : ∃ o ∈ O, G.Via O a o ∧ (G.latent O).Anc o x := by
      by_cases hc : c ∈ O
      · exact ⟨c, hc, Via.single hac, ih.1 hc⟩
      · obtain ⟨o, ho, hco, hox⟩ := ih.2 hc
        exact ⟨o, ho, Via.head hac hc hco, hox⟩
    refine ⟨fun ha => ?_, fun _ => step⟩
    obtain ⟨o, ho, hao, hox⟩ := step
    exact hox.head ⟨ha, ho, hao⟩

theorem anc_of_latent (h : (G.latent O).Anc u v) : G.Anc u v := by
  induction h with
  | refl => exact ReflTransGen.refl
  | tail _ hvw ih => exact ih.trans hvw.2.2.transGen.to_reflTransGen

theorem ancSet_latent (hZ : Z ⊆ O) (hv : v ∈ O) : v ∈ (G.latent O).AncSet Z ↔ v ∈ G.AncSet Z := by
  constructor
  · rintro ⟨z, hz, h⟩
    exact ⟨z, hz, anc_of_latent h⟩
  · rintro ⟨z, hz, h⟩
    exact ⟨z, hz, (anc_latent (hZ hz) h).1 hv⟩

theorem passes_latent (hZ : Z ⊆ O) (hv : v ∈ O) {c : Bool} :
    (G.latent O).Passes Z c v ↔ G.Passes Z c v := by
  cases c with
  | false => rw [passes_noncollider, passes_noncollider]
  | true => rw [passes_collider, passes_collider, ancSet_latent hZ hv]

/-- A hidden ancestor of `Z` reaches, through hidden nodes, a kept one. -/
theorem hidden_opened (hZ : Z ⊆ O) (hv : v ∉ O) (h : v ∈ G.AncSet Z) :
    ∃ o ∈ O, G.Via O v o ∧ o ∈ (G.latent O).AncSet Z := by
  obtain ⟨z, hz, hvz⟩ := h
  obtain ⟨o, ho, hvo, hoz⟩ := (anc_latent (hZ hz) hvz).2 hv
  exact ⟨o, ho, hvo, z, hz, hoz⟩

/-! ## From the projection to the graph -/

variable {h : Bool}

/-- Down a directed path through hidden nodes. -/
theorem Ball.down (hZ : Z ⊆ O) (hb : G.Ball Z S u h) (hu : u ∉ Z) (hv : G.Via O u v) :
    G.Ball Z S v true := by
  obtain ⟨w, huw, hwv⟩ := hv
  have key : ∀ {w}, ReflTransGen (fun a b => G.dir a b ∧ b ∉ O) u w →
      ∃ h', G.Ball Z S w h' ∧ w ∉ Z := by
    intro w huw
    induction huw with
    | refl => exact ⟨h, hb, hu⟩
    | tail _ hst ih =>
      obtain ⟨h', hb', hs⟩ := ih
      refine ⟨true, Ball.step (k := .fwd) hb' ?_ hst.1, fun hc => hst.2 (hZ hc)⟩
      rw [EdgeKind.headL, Bool.and_false, passes_noncollider]
      exact hs
  obtain ⟨h', hb', hw⟩ := key huw
  refine Ball.step (k := .fwd) hb' ?_ hwv
  rw [EdgeKind.headL, Bool.and_false, passes_noncollider]
  exact hw

/-- Up a directed path through hidden nodes. -/
theorem Ball.up (hZ : Z ⊆ O) (hb : G.Ball Z S v h) (hp : G.Passes Z h v)
    (hu : G.Via O u v) : G.Ball Z S u false := by
  obtain ⟨w, huw, hwv⟩ := hu
  have hw : G.Ball Z S w false := by
    refine Ball.step (k := .bwd) hb ?_ hwv
    rwa [EdgeKind.headL, Bool.and_true]
  induction huw using ReflTransGen.head_induction_on with
  | refl => exact hw
  | head hst hrest ih =>
    refine Ball.step (k := .bwd) ih ?_ hst.1
    rw [Bool.false_and, passes_noncollider]
    exact fun hc => hst.2 (hZ hc)

theorem ball_of_latent (hZ : Z ⊆ O) (hS : S ⊆ O) (hb : (G.latent O).Ball Z S v h) :
    v ∈ O ∧ G.Ball Z S v h := by
  induction hb with
  | source hs => exact ⟨hS hs, Ball.source hs⟩
  | @step v w h k _ hp he ih =>
    obtain ⟨hv, ih⟩ := ih
    rw [passes_latent hZ hv] at hp
    cases k with
    | fwd =>
      rw [EdgeKind.headL, Bool.and_false, passes_noncollider] at hp
      exact ⟨he.2.1, Ball.down hZ ih hp he.2.2⟩
    | bwd =>
      rw [EdgeKind.headL, Bool.and_true] at hp
      exact ⟨he.1, Ball.up hZ ih hp he.2.2⟩
    | bi =>
      rw [EdgeKind.headL, Bool.and_true] at hp
      obtain ⟨-, hw, -, l, hl, hlv, hlw⟩ := he
      exact ⟨hw, Ball.down hZ (Ball.up hZ ih hp hlv) (fun hc => hl (hZ hc)) hlw⟩

/-! ## From the graph to the projection -/

/-- The projected ball can leave `p` through an arrowhead at `p`. -/
def LeavesUp (G : MixedGraph V) (O Z S : Set V) (p : V) : Prop :=
  p ∈ O ∧ ∃ h, (G.latent O).Ball Z S p h ∧ (G.latent O).Passes Z h p

/-- The projected ball can leave `p` through a tail at `p`. -/
def LeavesDown (G : MixedGraph V) (O Z S : Set V) (p : V) : Prop :=
  p ∈ O ∧ p ∉ Z ∧ ∃ h, (G.latent O).Ball Z S p h

/-- The projected ball at a kept node the original ball entered through an arrowhead: it did the
same, or it is there without one and outside `Z`, which lets it leave along any edge. -/
def Entered (G : MixedGraph V) (O Z S : Set V) (v : V) : Prop :=
  (G.latent O).Ball Z S v true ∨ ((G.latent O).Ball Z S v false ∧ v ∉ Z)

/-- What the original ball at `v` means for the projected one. -/
def Trace (G : MixedGraph V) (O Z S : Set V) (v : V) : Bool → Prop
  | true => (v ∈ O → Entered G O Z S v) ∧ (v ∉ O →
      (∃ p, LeavesDown G O Z S p ∧ G.Via O p v) ∨
        ∃ p t, LeavesUp G O Z S p ∧ t ∉ O ∧ G.Via O t p ∧ G.Via O t v)
  | false => (v ∈ O → (G.latent O).Ball Z S v false) ∧
      (v ∉ O → ∃ p, LeavesUp G O Z S p ∧ G.Via O v p)

theorem LeavesDown.enters (hp : LeavesDown G O Z S x) (hv : v ∈ O) (h : G.Via O x v) :
    (G.latent O).Ball Z S v true := by
  obtain ⟨hx, hz, i, hb⟩ := hp
  refine Ball.step (k := .fwd) hb ?_ ⟨hx, hv, h⟩
  rwa [EdgeKind.headL, Bool.and_false, passes_noncollider]

theorem LeavesUp.climbs (hp : LeavesUp G O Z S x) (hv : v ∈ O) (h : G.Via O v x) :
    (G.latent O).Ball Z S v false := by
  obtain ⟨hx, i, hb, hi⟩ := hp
  refine Ball.step (k := .bwd) hb ?_ ⟨hv, hx, h⟩
  rwa [EdgeKind.headL, Bool.and_true]

/-- Over a hidden common ancestor; back at the node itself the ball has not moved. -/
theorem LeavesUp.crosses (hp : LeavesUp G O Z S x) {t : V} (ht : t ∉ O) (htx : G.Via O t x)
    (hv : v ∈ O) (htv : G.Via O t v) : Entered G O Z S v := by
  obtain ⟨hx, i, hb, hi⟩ := hp
  by_cases hxv : x = v
  · subst hxv
    cases i with
    | true => exact Or.inl hb
    | false => exact Or.inr ⟨hb, passes_noncollider.mp hi⟩
  · refine Or.inl (Ball.step (k := .bi) hb ?_ ⟨hx, hv, hxv, t, ht, htx, htv⟩)
    rwa [EdgeKind.headL, Bool.and_true]

theorem Entered.leavesUp (h : Entered G O Z S v) (hv : v ∈ O)
    (ha : v ∈ (G.latent O).AncSet Z) : LeavesUp G O Z S v := by
  rcases h with h | ⟨h, hz⟩
  · exact ⟨hv, true, h, passes_collider.mpr ha⟩
  · exact ⟨hv, false, h, passes_noncollider.mpr hz⟩

theorem Entered.exists (h : Entered G O Z S v) : ∃ i, (G.latent O).Ball Z S v i := by
  rcases h with h | ⟨h, -⟩
  · exact ⟨true, h⟩
  · exact ⟨false, h⟩

theorem Trace.exists {h : Bool} (ht : Trace G O Z S v h) (hv : v ∈ O) :
    ∃ i, (G.latent O).Ball Z S v i := by
  cases h with
  | true => exact (ht.1 hv).exists
  | false => exact ⟨false, ht.1 hv⟩

/-- A kept node the original ball may leave through an arrowhead can be left so in the
projection. -/
theorem Trace.leavesUp (hZ : Z ⊆ O) {h : Bool} (ht : Trace G O Z S v h) (hv : v ∈ O)
    (hp : G.Passes Z h v) : LeavesUp G O Z S v := by
  rw [← passes_latent hZ hv] at hp
  cases h with
  | true => exact (ht.1 hv).leavesUp hv (passes_collider.mp hp)
  | false => exact ⟨hv, false, ht.1 hv, hp⟩

/-- A hidden collider with a descendant in `Z` is passed at its first kept descendant. -/
theorem Trace.collider (hZ : Z ⊆ O) (ht : Trace G O Z S v true) (hv : v ∉ O)
    (ha : v ∈ G.AncSet Z) : ∃ o, LeavesUp G O Z S o ∧ G.Via O v o := by
  obtain ⟨o, ho, hvo, hoz⟩ := hidden_opened hZ hv ha
  refine ⟨o, ?_, hvo⟩
  rcases ht.2 hv with ⟨p, hp, hpv⟩ | ⟨p, t, hp, hto, htp, htv⟩
  · exact ⟨ho, true, hp.enters ho (hpv.trans hv hvo), passes_collider.mpr hoz⟩
  · exact (hp.crosses hto htp ho (htv.trans hv hvo)).leavesUp ho hoz

/-- A move down from `v`. -/
theorem Trace.down (ht : Trace G O Z S v h) (hz : v ∉ Z) (he : G.dir v w) :
    Trace G O Z S w true := by
  by_cases hv : v ∈ O
  · have hd : LeavesDown G O Z S v := ⟨hv, hz, ht.exists hv⟩
    exact ⟨fun hw => Or.inl (hd.enters hw (Via.single he)),
      fun _ => Or.inl ⟨v, hd, Via.single he⟩⟩
  · cases h with
    | true =>
      rcases ht.2 hv with ⟨p, hp, hpv⟩ | ⟨p, t, hp, hto, htp, htv⟩
      · exact ⟨fun hw => Or.inl (hp.enters hw (hpv.tail hv he)),
          fun _ => Or.inl ⟨p, hp, hpv.tail hv he⟩⟩
      · exact ⟨fun hw => hp.crosses hto htp hw (htv.tail hv he),
          fun _ => Or.inr ⟨p, t, hp, hto, htp, htv.tail hv he⟩⟩
    | false =>
      obtain ⟨p, hp, hvp⟩ := ht.2 hv
      exact ⟨fun hw => hp.crosses hv hvp hw (Via.single he),
        fun _ => Or.inr ⟨p, v, hp, hv, hvp, Via.single he⟩⟩

/-- A move up from `v`. -/
theorem Trace.up (hZ : Z ⊆ O) (ht : Trace G O Z S v h) (hp : G.Passes Z h v)
    (he : G.dir w v) : Trace G O Z S w false := by
  have climb : ∀ {p}, LeavesUp G O Z S p → G.Via O w p → Trace G O Z S w false :=
    fun hp hwp => ⟨fun hw => hp.climbs hw hwp, fun _ => ⟨_, hp, hwp⟩⟩
  by_cases hv : v ∈ O
  · exact climb (ht.leavesUp hZ hv hp) (Via.single he)
  · cases h with
    | true =>
      obtain ⟨o, ho, hvo⟩ := ht.collider hZ hv (passes_collider.mp hp)
      exact climb ho (Via.head he hv hvo)
    | false =>
      obtain ⟨p, hp, hvp⟩ := ht.2 hv
      exact climb hp (Via.head he hv hvp)

theorem trace_of_ball (hbi : ∀ a b, ¬ G.bi a b) (hZ : Z ⊆ O) (hS : S ⊆ O)
    (hb : G.Ball Z S v h) : Trace G O Z S v h := by
  induction hb with
  | source hs => exact ⟨fun _ => Ball.source hs, fun hv => absurd (hS hs) hv⟩
  | @step v w h k _ hp he ih =>
    cases k with
    | fwd =>
      rw [EdgeKind.headL, Bool.and_false, passes_noncollider] at hp
      exact ih.down hp he
    | bwd =>
      rw [EdgeKind.headL, Bool.and_true] at hp
      exact ih.up hZ hp he
    | bi => exact absurd he (hbi v w)

/-- **The projection keeps the separation model.** -/
theorem latent_ball_iff (hbi : ∀ a b, ¬ G.bi a b) (hZ : Z ⊆ O) (hS : S ⊆ O) (hy : y ∈ O) :
    (∃ h, (G.latent O).Ball Z S y h) ↔ ∃ h, G.Ball Z S y h := by
  constructor
  · rintro ⟨h, hb⟩
    exact ⟨h, (ball_of_latent hZ hS hb).2⟩
  · rintro ⟨h, hb⟩
    exact (trace_of_ball hbi hZ hS hb).exists hy

/-! ## Renaming nodes -/

/-- An injection that carries the edges of `H` to the edges of `G`, whose edges all lie in its
range, carries the ball over. -/
theorem ball_rename {W : Type*} {H : MixedGraph W} {f : W → V} {r : Set W} (hf : Set.InjOn f r)
    (hH : ∀ k a b, H.Edge k a b → a ∈ r ∧ b ∈ r)
    (hedge : ∀ k a b, a ∈ r → b ∈ r → (H.Edge k a b ↔ G.Edge k (f a) (f b)))
    (hG : ∀ k a v, a ∈ r → G.Edge k (f a) v → ∃ b ∈ r, f b = v)
    {Z S : Set W} (hZ : Z ⊆ r) (hS : S ⊆ r) {b : W} (hb : b ∈ r) :
    H.Ball Z S b h ↔ G.Ball (f '' Z) (f '' S) (f b) h := by
  have hmem : ∀ a ∈ r, (f a ∈ f '' Z ↔ a ∈ Z) := fun a ha => hf.mem_image_iff hZ ha
  have hanc : ∀ a ∈ r, (a ∈ H.AncSet Z ↔ f a ∈ G.AncSet (f '' Z)) := by
    intro a ha
    constructor
    · rintro ⟨z, hz, haz⟩
      refine ⟨f z, ⟨z, hz, rfl⟩, ?_⟩
      clear hz
      induction haz with
      | refl => exact ReflTransGen.refl
      | tail _ hst ih =>
        have hrr := hH .fwd _ _ hst
        exact ih.tail ((hedge .fwd _ _ hrr.1 hrr.2).mp hst)
    · rintro ⟨-, ⟨z, hz, rfl⟩, haz⟩
      refine ⟨z, hz, ?_⟩
      generalize hv : f a = v at haz
      induction haz using ReflTransGen.head_induction_on generalizing a with
      | refl => rw [hf ha (hZ hz) hv]
      | @head v u hvu _ ih =>
        subst hv
        obtain ⟨c, hc, rfl⟩ := hG .fwd a u ha hvu
        exact (ih c hc rfl).head ((hedge .fwd _ _ ha hc).mpr hvu)
  have hpass : ∀ a ∈ r, ∀ c, (H.Passes Z c a ↔ G.Passes (f '' Z) c (f a)) := by
    intro a ha c
    cases c with
    | false => rw [passes_noncollider, passes_noncollider, hmem a ha]
    | true => rw [passes_collider, passes_collider, hanc a ha]
  constructor
  · intro hball
    induction hball with
    | source hs => exact Ball.source ⟨_, hs, rfl⟩
    | step _ hp he ih =>
      have hrr := hH _ _ _ he
      exact (ih hrr.1).step ((hpass _ hrr.1 _).mp hp) ((hedge _ _ _ hrr.1 hrr.2).mp he)
  · intro hball
    generalize hv : f b = v at hball
    induction hball generalizing b with
    | source hs =>
      obtain ⟨s, hs, rfl⟩ := hs
      rw [hf hb (hS hs) hv]
      exact Ball.source hs
    | @step u w h k hu hp he ih =>
      subst hv
      obtain ⟨a, ha, rfl⟩ := hG k.flip b u hb he.symm
      exact (ih ha rfl).step ((hpass a ha _).mpr hp) ((hedge k a b ha hb).mpr he)

end Antecedent.Mixed.MixedGraph
