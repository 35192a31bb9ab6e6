import Mathlib.Data.Set.Card
import Antecedent.Dag.Basic

/-!
# Covered edges, and which graphs are Markov equivalent

An edge `x → y` is covered when `y` has the parents of `x` and `x` itself as its parents. Reversing
a covered edge keeps every separation, and two graphs with one skeleton and the same unshielded
colliders are joined by such reversals.

* `Ray`: the ball of `Mixed` with colliders in `Z` itself; where a collider has a descendant in `Z`
  the ray goes there and comes back (`ball_iff_ray`).
* `ray_reverse`: the states a ray reaches before the reversal are states it reaches afterwards, up
  to the edge between `x` and `y`.
* **`markovEquivalent_iff_similar`**: Markov equivalence is similarity.
-/

namespace Antecedent.Dag

open Mixed Relation

variable {V : Type*} {G H : Dag V} {x y : V} {Z : Set V}

/-! ## Rays -/

/-- The ball released at `s`, which passes a collider only in `Z`. The mark says whether it came
along an edge into the node. -/
inductive Ray (G : Dag V) (Z : Set V) (s : V) : V → Bool → Prop
  | source : Ray G Z s s false
  | down {v w i} : Ray G Z s v i → v ∉ Z → G.edge v w → Ray G Z s w true
  | up {v w} : Ray G Z s v false → v ∉ Z → G.edge w v → Ray G Z s w false
  | turn {v w} : Ray G Z s v true → v ∈ Z → G.edge w v → Ray G Z s w false

/-- Down to a descendant in `Z` and back. -/
theorem Ray.bounce {s v z : V} (hz : z ∈ Z) (h : G.toMixed.Anc v z) (hr : G.Ray Z s v true)
    (hv : v ∉ Z) : G.Ray Z s v false := by
  induction h using ReflTransGen.head_induction_on with
  | refl => exact absurd hz hv
  | @head v u hvu _ ih =>
    have hu : G.Ray Z s u true := hr.down hv hvu
    by_cases huz : u ∈ Z
    · exact hu.turn huz hvu
    · exact (ih hu huz).up huz hvu

theorem ball_iff_ray {s v : V} {i : Bool} : G.toMixed.Ball Z {s} v i ↔ G.Ray Z s v i := by
  constructor
  · intro h
    induction h with
    | source hs =>
      obtain rfl := hs
      exact .source
    | @step v w i k _ hp he ih =>
      cases k with
      | fwd =>
        rw [EdgeKind.headL, Bool.and_false] at hp
        exact ih.down (MixedGraph.passes_noncollider.mp hp) he
      | bwd =>
        cases i with
        | false => exact ih.up (MixedGraph.passes_noncollider.mp hp) he
        | true =>
          obtain ⟨z, hz, hvz⟩ := MixedGraph.passes_collider.mp hp
          by_cases hv : v ∈ Z
          · exact ih.turn hv he
          · exact (ih.bounce hz hvz hv).up hv he
      | bi => exact he.elim
  · intro h
    induction h with
    | source => exact .source rfl
    | @down v w i _ hv he ih =>
      refine ih.step (k := .fwd) ?_ he
      rw [EdgeKind.headL, Bool.and_false]
      exact MixedGraph.passes_noncollider.mpr hv
    | up _ hv he ih => exact ih.step (k := .bwd) (MixedGraph.passes_noncollider.mpr hv) he
    | turn _ hv he ih =>
      exact ih.step (k := .bwd) (MixedGraph.passes_collider.mpr (MixedGraph.mem_ancSet_of_mem hv)) he

theorem dSep_iff_ray {s : V} (hs : s ∉ Z) {v : V} : G.DSep Z s v ↔ ¬ ∃ i, G.Ray Z s v i := by
  rw [dSep_iff_ball hs]
  exact not_congr (exists_congr fun i => ball_iff_ray)

/-! ## Reversing a covered edge -/

/-- `y` has the parents of `x` and `x` itself. -/
structure Covered (G : Dag V) (x y : V) : Prop where
  edge : G.edge x y
  parents : ∀ p, G.edge p y ↔ p = x ∨ G.edge p x

/-- `H` is `G` with the covered edge `x → y` reversed. -/
structure Reversal (G H : Dag V) (x y : V) : Prop extends G.Covered x y where
  edges : ∀ a b, H.edge a b ↔ (G.edge a b ∧ ¬ (a = x ∧ b = y)) ∨ (a = y ∧ b = x)

def Covered.reverse (h : G.Covered x y) : Dag V where
  edge a b := (G.edge a b ∧ ¬ (a = x ∧ b = y)) ∨ (a = y ∧ b = x)
  finite := by
    refine (G.finite.union (Set.finite_singleton (y, x))).subset ?_
    rintro ⟨a, b⟩ (⟨he, -⟩ | ⟨rfl, rfl⟩)
    · exact Or.inl he
    · exact Or.inr rfl
  acyclic v hv := by
    let keep : V → V → Prop := fun a b => G.edge a b ∧ ¬ (a = x ∧ b = y)
    have sub : ∀ {a b}, ReflTransGen keep a b → ReflTransGen G.edge a b := fun {a b} hab =>
      ReflTransGen.mono (fun _ _ he => he.1) a b hab
    -- a path either avoids the new edge or runs through it
    have key : ∀ {a b}, TransGen (fun a b => keep a b ∨ (a = y ∧ b = x)) a b →
        TransGen keep a b ∨ (ReflTransGen keep a y ∧ ReflTransGen keep x b) := by
      intro a b hab
      induction hab with
      | single he =>
        rcases he with he | ⟨rfl, rfl⟩
        · exact Or.inl (.single he)
        · exact Or.inr ⟨.refl, .refl⟩
      | tail _ he ih =>
        rcases he with he | ⟨rfl, rfl⟩
        · exact ih.imp (·.tail he) fun h => ⟨h.1, h.2.tail he⟩
        · exact Or.inr ⟨ih.elim TransGen.to_reflTransGen And.left, .refl⟩
    rcases key hv with hc | ⟨hy, hx⟩
    · exact G.acyclic v (TransGen.mono (fun a b h => h.1) _ _ hc)
    · -- the path from `x` to `y` ends with a parent of `y`, hence of `x`
      rcases ReflTransGen.cases_tail (hx.trans hy) with he | ⟨p, hp, hpy, hne⟩
      · exact ne_of_edge h.edge he.symm
      · have hpx : G.edge p x := ((h.parents p).mp hpy).resolve_left fun he => hne ⟨he, rfl⟩
        exact G.acyclic x (TransGen.tail' (sub hp) hpx)

theorem Covered.reversal (h : G.Covered x y) : G.Reversal h.reverse x y :=
  ⟨h, fun _ _ => Iff.rfl⟩

namespace Reversal

variable (h : G.Reversal H x y)

include h

theorem reversed : H.edge y x := (h.edges y x).mpr (Or.inr ⟨rfl, rfl⟩)

theorem ne : x ≠ y := ne_of_edge h.edge

theorem into_left {p : V} (hp : G.edge p x) : H.edge p x :=
  (h.edges p x).mpr (Or.inl ⟨hp, fun he => h.ne he.2⟩)

theorem into_right {p : V} (hp : G.edge p x) : H.edge p y :=
  (h.edges p y).mpr (Or.inl ⟨(h.parents p).mpr (Or.inr hp), fun he => ne_of_edge hp he.1⟩)

theorem kept {a b : V} (he : G.edge a b) (hb : b ≠ y) : H.edge a b :=
  (h.edges a b).mpr (Or.inl ⟨he, fun hc => hb hc.2⟩)

theorem symm : H.Reversal G y x where
  edge := h.reversed
  parents p := by
    have hne := h.ne
    rw [h.edges, h.edges, h.parents]
    constructor
    · rintro (⟨hp, -⟩ | ⟨rfl, -⟩)
      · exact Or.inr (Or.inl ⟨Or.inr hp, fun he => ne_of_edge hp he.1⟩)
      · exact Or.inl rfl
    · rintro (rfl | ⟨rfl | hp, hn⟩ | ⟨-, he⟩)
      · exact Or.inr ⟨rfl, rfl⟩
      · exact absurd ⟨rfl, rfl⟩ hn
      · exact Or.inl ⟨hp, fun he => hne he.2⟩
      · exact absurd he.symm hne
  edges a b := by
    rw [h.edges]
    constructor
    · intro he
      by_cases hab : a = x ∧ b = y
      · exact Or.inr hab
      · refine Or.inl ⟨Or.inl ⟨he, hab⟩, ?_⟩
        rintro ⟨rfl, rfl⟩
        exact asymm he h.edge
    · rintro (⟨⟨he, -⟩ | hc, hn⟩ | ⟨rfl, rfl⟩)
      · exact he
      · exact absurd hc hn
      · exact h.edge

end Reversal

/-! ### What a ray reaches afterwards -/

section Transfer

variable {s : V}

/-- The ray came to `x` and to `y` from a common parent. -/
structure Both (H : Dag V) (Z : Set V) (s x y : V) : Prop where
  left : H.Ray Z s x true
  right : H.Ray Z s y true

/-- What reaching `x` before the reversal leaves afterwards. -/
def AtSource (H : Dag V) (Z : Set V) (s x y : V) : Bool → Prop
  | true => H.Both Z s x y
  | false => H.Ray Z s x false ∨ (H.Ray Z s y false ∧ y ∉ Z) ∨ (H.Both Z s x y ∧ y ∈ Z)

/-- What reaching `y` before the reversal leaves afterwards. -/
def AtTarget (H : Dag V) (Z : Set V) (s x y : V) : Bool → Prop
  | true => H.Both Z s x y ∨ (H.Ray Z s x false ∧ x ∉ Z) ∨ (H.Ray Z s y false ∧ y ∉ Z ∧ x ∉ Z)
  | false => H.Ray Z s y false

/-- What a state reached before the reversal leaves afterwards. -/
structure Kept (H : Dag V) (Z : Set V) (s x y v : V) (i : Bool) : Prop where
  source : v = x → H.AtSource Z s x y i
  target : v = y → H.AtTarget Z s x y i
  other : v ≠ x → v ≠ y → H.Ray Z s v i

variable (h : G.Reversal H x y) {i : Bool} {c p : V}

include h

theorem both_of_parent (hp : G.edge p x) (hr : H.Ray Z s p i) (hz : p ∉ Z) : H.Both Z s x y :=
  ⟨hr.down hz (h.into_left hp), hr.down hz (h.into_right hp)⟩

theorem AtSource.down (ha : H.AtSource Z s x y i) (hx : x ∉ Z) (hc : G.edge x c) (hcy : c ≠ y) :
    H.Ray Z s c true := by
  have he := h.kept hc hcy
  cases i with
  | true => exact ha.left.down hx he
  | false =>
    rcases ha with ha | ⟨ha, hy⟩ | ⟨ha, -⟩
    · exact ha.down hx he
    · exact (ha.down hy h.reversed).down hx he
    · exact ha.left.down hx he

theorem AtSource.up (ha : H.AtSource Z s x y false) (hx : x ∉ Z) (hp : G.edge p x) :
    H.Ray Z s p false := by
  rcases ha with ha | ⟨ha, hy⟩ | ⟨ha, hy⟩
  · exact ha.up hx (h.into_left hp)
  · exact ha.up hy (h.into_right hp)
  · exact ha.right.turn hy (h.into_right hp)

omit h in
theorem AtSource.across (ha : H.AtSource Z s x y i) (hx : x ∉ Z) : H.AtTarget Z s x y true := by
  cases i with
  | true => exact Or.inl ha
  | false =>
    rcases ha with ha | ⟨ha, hy⟩ | ⟨ha, -⟩
    · exact Or.inr (Or.inl ⟨ha, hx⟩)
    · exact Or.inr (Or.inr ⟨ha, hy, hx⟩)
    · exact Or.inl ha

theorem AtTarget.down (ha : H.AtTarget Z s x y i) (hy : y ∉ Z) (hc : G.edge y c) :
    H.Ray Z s c true := by
  have he := h.kept hc (ne_of_edge hc).symm
  cases i with
  | true =>
    rcases ha with ha | ⟨ha, hx⟩ | ⟨ha, -⟩
    · exact ha.right.down hy he
    · exact (ha.up hx h.reversed).down hy he
    · exact ha.down hy he
  | false => exact Ray.down ha hy he

theorem AtTarget.turn (ha : H.AtTarget Z s x y true) (hy : y ∈ Z) (hp : G.edge p x) :
    H.Ray Z s p false := by
  rcases ha with ha | ⟨ha, hx⟩ | ⟨-, hn, -⟩
  · exact ha.right.turn hy (h.into_right hp)
  · exact ha.up hx (h.into_left hp)
  · exact absurd hy hn

omit h in
theorem AtTarget.back (ha : H.AtTarget Z s x y true) (hy : y ∈ Z) : H.AtSource Z s x y false := by
  rcases ha with ha | ⟨ha, -⟩ | ⟨-, hn, -⟩
  · exact Or.inr (Or.inr ⟨ha, hy⟩)
  · exact Or.inl ha
  · exact absurd hy hn

/-- **A state reached before the reversal is one of the states reached afterwards.** -/
theorem kept_of_ray {v : V} (hr : G.Ray Z s v i) : H.Kept Z s x y v i := by
  induction hr with
  | source => exact ⟨fun hv => Or.inl (hv ▸ .source), fun hv => hv ▸ Ray.source, fun _ _ => .source⟩
  | @down v w i _ hv he ih =>
    by_cases hx : v = x
    · subst hx
      exact ⟨fun hw => absurd hw.symm (ne_of_edge he), fun _ => (ih.source rfl).across hv,
        fun _ hw => (ih.source rfl).down h hv he hw⟩
    by_cases hy : v = y
    · subst hy
      exact ⟨fun hw => absurd h.edge fun hc => asymm hc (hw ▸ he),
        fun hw => absurd hw.symm (ne_of_edge he), fun _ _ => (ih.target rfl).down h hv he⟩
    have hr := ih.other hx hy
    refine ⟨fun hw => both_of_parent h (hw ▸ he) hr hv, fun hw => Or.inl ?_,
      fun _ hw => hr.down hv (h.kept he hw)⟩
    subst hw
    exact both_of_parent h (((h.parents v).mp he).resolve_left hx) hr hv
  | @up v w _ hv he ih =>
    by_cases hx : v = x
    · subst hx
      exact ⟨fun hw => absurd hw (ne_of_edge he), fun hw => absurd h.edge fun hc => asymm hc (hw ▸ he),
        fun _ _ => (ih.source rfl).up h hv he⟩
    by_cases hy : v = y
    · subst hy
      refine ⟨fun _ => Or.inr (Or.inl ⟨ih.target rfl, hv⟩), fun hw => absurd hw (ne_of_edge he),
        fun hw _ => Ray.up (ih.target rfl) hv ?_⟩
      exact h.into_right (((h.parents w).mp he).resolve_left hw)
    have hr := (ih.other hx hy).up hv (h.kept he hy)
    exact ⟨fun hw => Or.inl (hw ▸ hr), fun hw => hw ▸ hr, fun _ _ => hr⟩
  | @turn v w _ hv he ih =>
    by_cases hx : v = x
    · subst hx
      exact ⟨fun hw => absurd hw (ne_of_edge he), fun hw => absurd h.edge fun hc => asymm hc (hw ▸ he),
        fun _ _ => (ih.source rfl).left.turn hv (h.into_left he)⟩
    by_cases hy : v = y
    · subst hy
      refine ⟨fun _ => (ih.target rfl).back hv, fun hw => absurd hw (ne_of_edge he),
        fun hw _ => (ih.target rfl).turn h hv ?_⟩
      exact ((h.parents w).mp he).resolve_left hw
    have hr := (ih.other hx hy).turn hv (h.kept he hy)
    exact ⟨fun hw => Or.inl (hw ▸ hr), fun hw => hw ▸ hr, fun _ _ => hr⟩

theorem exists_ray (hr : ∃ i, G.Ray Z s c i) : ∃ i, H.Ray Z s c i := by
  obtain ⟨i, hr⟩ := hr
  have hk := kept_of_ray h hr
  by_cases hx : c = x
  · subst hx
    have ha := hk.source rfl
    cases i with
    | true => exact ⟨true, ha.left⟩
    | false =>
      rcases ha with ha | ⟨ha, hy⟩ | ⟨ha, -⟩
      · exact ⟨false, ha⟩
      · exact ⟨true, ha.down hy h.reversed⟩
      · exact ⟨true, ha.left⟩
  by_cases hy : c = y
  · subst hy
    have ha := hk.target rfl
    cases i with
    | true =>
      rcases ha with ha | ⟨ha, hx⟩ | ⟨ha, -⟩
      · exact ⟨true, ha.right⟩
      · exact ⟨false, ha.up hx h.reversed⟩
      · exact ⟨false, ha⟩
    | false => exact ⟨false, ha⟩
  exact ⟨i, hk.other hx hy⟩

end Transfer

/-- **Reversing a covered edge keeps the separations.** -/
theorem Reversal.markovEquivalent (h : G.Reversal H x y) : G.MarkovEquivalent H := by
  refine markovEquivalent_of_pairs fun a b Z _ ha _ => ?_
  rw [dSep_iff_ray ha, dSep_iff_ray ha]
  exact not_congr ⟨exists_ray h, exists_ray h.symm⟩

/-! ## From similar graphs to covered edges -/

/-- The edges on which two graphs of one skeleton differ. -/
def diff (G H : Dag V) : Set (V × V) := {e | G.edge e.1 e.2 ∧ H.edge e.2 e.1}

theorem finite_diff (G H : Dag V) : (G.diff H).Finite := G.finite.subset fun _ h => h.1

theorem Similar.edge_iff (h : G.Similar H) (hd : G.diff H = ∅) {a b : V} : G.edge a b ↔ H.edge a b := by
  constructor
  · intro he
    refine ((h.adj a b).mp (Or.inl he)).resolve_right fun hc => ?_
    exact Set.eq_empty_iff_forall_notMem.mp hd (a, b) ⟨he, hc⟩
  · intro he
    refine ((h.adj a b).mpr (Or.inl he)).resolve_right fun hc => ?_
    exact Set.eq_empty_iff_forall_notMem.mp hd (b, a) ⟨hc, he⟩

/-- **Similar graphs that differ have a covered edge on which they differ.** The edge into the
first node that has such an edge, from the last of the parents it has one from. -/
theorem exists_covered (h : G.Similar H) (hd : (G.diff H).Nonempty) :
    ∃ x y, G.Covered x y ∧ H.edge y x := by
  obtain ⟨⟨a, b⟩, hab⟩ := hd
  obtain ⟨y, ⟨u, hu⟩, hy⟩ := G.wellFounded.has_min {y | ∃ x, (x, y) ∈ G.diff H} ⟨b, a, hab⟩
  obtain ⟨x, ⟨hxy, hyx⟩, hlast⟩ := G.wellFounded_down.has_min {x | (x, y) ∈ G.diff H} ⟨u, hu⟩
  have hfirst : ∀ {v w}, G.edge v w → TransGen G.edge w y → H.edge v w := fun {v w} hvw hwy =>
    ((h.adj v w).mp (Or.inl hvw)).resolve_right fun hc => hy w ⟨v, hvw, hc⟩ hwy
  refine ⟨x, y, ⟨hxy, fun p => ⟨fun hp => ?_, ?_⟩⟩, hyx⟩
  · refine or_iff_not_imp_left.mpr fun hne => ?_
    -- `p → y` and `x → y`: adjacent, or else an unshielded collider that `H` lacks
    have hadj : G.Adj p x := by
      refine by_contra fun hn => ?_
      exact asymm hyx ((h.collider p y x).mp ⟨hp, hxy, hne, hn⟩).right
    refine hadj.resolve_right fun hxp => ?_
    have hpy : H.edge p y :=
      ((h.adj p y).mp (Or.inl hp)).resolve_right fun hc => hlast p ⟨hp, hc⟩ (.single hxp)
    exact no_triangle hpy hyx (hfirst hxp (.single hp))
  · rintro (rfl | hp)
    · exact hxy
    · have hpx : H.edge p x := hfirst hp (.single hxy)
      have hne : p ≠ y := fun he => asymm hxy (he ▸ hp)
      have hadj : G.Adj p y := by
        refine by_contra fun hn => ?_
        have hc : H.Unshielded p x y := ⟨hpx, hyx, hne, fun hc => hn ((h.adj p y).mpr hc)⟩
        exact asymm hxy ((h.collider p x y).mpr hc).right
      exact edge_of_path hp hxy hadj

theorem Covered.diff_reverse (h : G.Covered x y) (hyx : H.edge y x) :
    h.reverse.diff H ⊂ G.diff H := by
  refine ⟨?_, fun hc => ?_⟩
  · rintro ⟨a, b⟩ ⟨⟨he, -⟩ | ⟨rfl, rfl⟩, hba⟩
    · exact ⟨he, hba⟩
    · exact absurd hba fun hc => asymm hc hyx
  · obtain ⟨⟨-, hn⟩ | ⟨hxy, -⟩, -⟩ := hc (a := (x, y)) ⟨h.edge, hyx⟩
    · exact hn ⟨rfl, rfl⟩
    · exact ne_of_edge h.edge hxy

/-- **Similar graphs have the same separations**, by induction on the edges on which they
differ. -/
theorem Similar.markovEquivalent (h : G.Similar H) : G.MarkovEquivalent H := by
  induction hn : (G.diff H).ncard using Nat.strong_induction_on generalizing G with
  | h n ih =>
    rcases (G.diff H).eq_empty_or_nonempty with he | hd
    · obtain rfl : G = H := by
        ext a b
        exact h.edge_iff he
      exact fun _ _ _ _ _ _ => Iff.rfl
    · obtain ⟨x, y, hc, hyx⟩ := exists_covered h hd
      have hrev := hc.reversal.markovEquivalent
      have hsim : hc.reverse.Similar H := (Similar.of_markovEquivalent hrev).symm.trans h
      have hlt : (hc.reverse.diff H).ncard < n :=
        hn ▸ Set.ncard_lt_ncard (hc.diff_reverse hyx) (G.finite_diff H)
      intro X Y Z hXY hXZ hYZ
      exact (hrev X Y Z hXY hXZ hYZ).trans (ih _ hlt hsim rfl X Y Z hXY hXZ hYZ)

/-- **Two graphs are Markov equivalent iff they have one skeleton and the same unshielded
colliders.** -/
theorem markovEquivalent_iff_similar : G.MarkovEquivalent H ↔ G.Similar H :=
  ⟨Similar.of_markovEquivalent, Similar.markovEquivalent⟩

end Antecedent.Dag
