import Antecedent.Mixed.Moral
import Mathlib.Data.Finite.Prod
import Mathlib.Order.WellFoundedSet

/-!
# Directed acyclic graphs and d-separation

A `Dag` is a directed acyclic graph with finitely many edges over an arbitrary type of nodes. Its
separations are those of the mixed graph that has the same directed edges and no bidirected one, so
d-separation is the path criterion of `Mixed`.

* `not_dSep_of_adj`, `exists_separator`: two nodes are adjacent iff nothing separates them; the
  parents of one of two nonadjacent nodes do.
-/

namespace Antecedent

open Mixed Relation

/-- A directed acyclic graph with finitely many edges. -/
@[ext]
structure Dag (V : Type*) where
  edge : V → V → Prop
  finite : {e : V × V | edge e.1 e.2}.Finite
  acyclic : ∀ v, ¬ TransGen edge v v

namespace Dag

variable {V : Type*}

section Defs

variable (G : Dag V)

def Adj (a b : V) : Prop := G.edge a b ∨ G.edge b a

/-- `a → c ← b` with nonadjacent ends. -/
structure Unshielded (a c b : V) : Prop where
  left : G.edge a c
  right : G.edge b c
  ne : a ≠ b
  not_adj : ¬ G.Adj a b

def toMixed : MixedGraph V where
  dir := G.edge
  bi := fun _ _ => False
  bi_symm := False.elim

/-- `Z` d-separates `x` and `y`: no path between them is active. -/
def DSep (Z : Set V) (x y : V) : Prop := ¬ G.toMixed.MConnecting Z x y

def MarkovEquivalent (G H : Dag V) : Prop := ∀ X Y Z : Set V, Disjoint X Y → Disjoint X Z →
  Disjoint Y Z → ((∀ x ∈ X, ∀ y ∈ Y, G.DSep Z x y) ↔ ∀ x ∈ X, ∀ y ∈ Y, H.DSep Z x y)

/-- One skeleton and the same unshielded colliders. -/
structure Similar (G H : Dag V) : Prop where
  adj : ∀ a b, G.Adj a b ↔ H.Adj a b
  collider : ∀ a c b, G.Unshielded a c b ↔ H.Unshielded a c b

end Defs

variable {G H K : Dag V} {a b c x y : V} {Z : Set V}

/-! ## Edges -/

theorem irrefl (h : G.edge a a) : False := G.acyclic a (TransGen.single h)

theorem asymm (h : G.edge a b) (h' : G.edge b a) : False :=
  G.acyclic a (TransGen.head h (TransGen.single h'))

theorem no_triangle (h : G.edge a b) (h' : G.edge b c) (h'' : G.edge c a) : False :=
  G.acyclic a (TransGen.head h (TransGen.head h' (TransGen.single h'')))

theorem ne_of_edge (h : G.edge a b) : a ≠ b := fun he => irrefl (he ▸ h)

theorem Adj.symm (h : G.Adj a b) : G.Adj b a := Or.symm h

theorem Adj.ne (h : G.Adj a b) : a ≠ b := h.elim ne_of_edge fun h => (ne_of_edge h).symm

/-- Of a triangle with a directed side `a → b → c`, the third side is `a → c`. -/
theorem edge_of_path (h : G.edge a b) (h' : G.edge b c) (hac : G.Adj a c) : G.edge a c :=
  hac.resolve_right fun hca => no_triangle h h' hca

theorem Unshielded.symm (h : G.Unshielded a c b) : G.Unshielded b c a :=
  ⟨h.right, h.left, h.ne.symm, fun hab => h.not_adj hab.symm⟩

theorem finite_adj (G : Dag V) : {v | ∃ w, G.Adj v w}.Finite := by
  refine ((G.finite.image Prod.fst).union (G.finite.image Prod.snd)).subset ?_
  rintro v ⟨w, h | h⟩
  · exact Or.inl ⟨(v, w), h, rfl⟩
  · exact Or.inr ⟨(w, v), h, rfl⟩

theorem wellFounded_of_finite {r : V → V → Prop} (hirr : ∀ v, ¬ r v v)
    (htrans : ∀ a b c, r a b → r b c → r a c) {S : Set V} (hS : S.Finite)
    (hr : ∀ a b, r a b → a ∈ S) : WellFounded r := by
  have hord : IsStrictOrder V r := {
    irrefl := hirr
    trans := htrans }
  have hfin : S.WellFoundedOn r := hS.wellFoundedOn
  refine WellFounded.wellFounded_iff_has_min.mpr fun s hs => ?_
  obtain ⟨m, hm⟩ := hs
  by_cases h : ∃ v ∈ s, v ∈ S
  · obtain ⟨u, hu, huS⟩ := h
    obtain ⟨v, hv, hmin⟩ := hfin.has_min {v | v.1 ∈ s} ⟨⟨u, huS⟩, hu⟩
    exact ⟨v, hv, fun t ht htv => hmin ⟨t, hr t v htv⟩ ht htv⟩
  · exact ⟨m, hm, fun t ht htm => h ⟨t, ht, hr t m htm⟩⟩

/-- Climbing along edges stops. -/
theorem wellFounded (G : Dag V) : WellFounded (TransGen G.edge) := by
  refine wellFounded_of_finite G.acyclic (fun _ _ _ => TransGen.trans) G.finite_adj fun a b h => ?_
  obtain ⟨w, hw, -⟩ := TransGen.head'_iff.mp h
  exact ⟨w, Or.inl hw⟩

/-- Descending along edges stops. -/
theorem wellFounded_down (G : Dag V) : WellFounded fun a b => TransGen G.edge b a := by
  refine wellFounded_of_finite G.acyclic (fun _ _ _ h h' => h'.trans h) G.finite_adj fun a b h => ?_
  obtain ⟨w, -, hw⟩ := TransGen.tail'_iff.mp h
  exact ⟨w, Or.inr hw⟩

/-! ## Separations -/

theorem mixed_acyclic (G : Dag V) : G.toMixed.Acyclic := G.acyclic

theorem dSep_iff_ball (hx : x ∉ Z) : G.DSep Z x y ↔ ¬ ∃ h, G.toMixed.Ball Z {x} y h := by
  rw [MixedGraph.ball_iff_mConnecting G.mixed_acyclic (by rintro a rfl; exact hx)]
  simp [DSep]

theorem DSep.symm (hx : x ∉ Z) (hy : y ∉ Z) (h : G.DSep Z x y) : G.DSep Z y x :=
  fun hc => h (hc.symm G.mixed_acyclic hy hx)

theorem not_dSep_of_adj (h : G.Adj x y) : ¬ G.DSep Z x y := by
  refine not_not_intro ?_
  rcases h with h | h
  · exact ⟨[(.fwd, y)], ⟨h, trivial⟩, rfl, by simp [MixedGraph.walkNodes, ne_of_edge h], trivial⟩
  · exact ⟨[(.bwd, y)], ⟨h, trivial⟩, rfl, by simp [MixedGraph.walkNodes, (ne_of_edge h).symm],
      trivial⟩

/-- Where the ball released at `y` gets when it cannot leave through a parent of `y`. -/
theorem ball_parents {v : V} {i : Bool} (h : G.toMixed.Ball {p | G.edge p y} {y} v i) :
    (i = false ∧ (v = y ∨ G.edge v y)) ∨ (i = true ∧ TransGen G.edge y v) := by
  induction h with
  | source hs => exact Or.inl ⟨rfl, Or.inl hs⟩
  | @step v w i k _ hp he ih =>
    rcases ih with ⟨rfl, hv⟩ | ⟨rfl, hv⟩
    · rw [Bool.false_and, MixedGraph.passes_noncollider] at hp
      obtain rfl := hv.resolve_right hp
      cases k with
      | fwd => exact Or.inr ⟨rfl, TransGen.single he⟩
      | bwd => exact Or.inl ⟨rfl, Or.inr he⟩
      | bi => exact he.elim
    · cases k with
      | fwd => exact Or.inr ⟨rfl, hv.tail he⟩
      | bwd =>
        -- a descendant of `y` is no ancestor of a parent of `y`
        obtain ⟨z, hz, hvz⟩ := MixedGraph.passes_collider.mp hp
        exact absurd ((hv.trans_left hvz).tail hz) (G.acyclic y)
      | bi => exact he.elim

theorem notMem_parents : y ∉ {p | G.edge p y} := fun h => irrefl h

theorem dSep_parents (hxy : ¬ G.edge x y) (hne : x ≠ y) (hd : ¬ TransGen G.edge y x) :
    G.DSep {p | G.edge p y} y x := by
  refine (dSep_iff_ball notMem_parents).mpr ?_
  rintro ⟨i, h⟩
  rcases ball_parents h with ⟨-, h | h⟩ | ⟨-, h⟩
  · exact hne h
  · exact hxy h
  · exact hd h

/-- **Nonadjacent nodes are separated by the parents of one of them.** -/
theorem exists_separator (hne : x ≠ y) (h : ¬ G.Adj x y) :
    G.DSep {p | G.edge p x} x y ∨ G.DSep {p | G.edge p y} x y := by
  by_cases hd : TransGen G.edge y x
  · have hyx : ¬ TransGen G.edge x y := fun hxy => G.acyclic x (hxy.trans hd)
    exact Or.inl (dSep_parents (fun he => h (Or.inr he)) hne.symm hyx)
  · exact Or.inr ((dSep_parents (fun he => h (Or.inl he)) hne hd).symm notMem_parents
      fun he => h (Or.inl he))

theorem adj_iff_forall (hne : x ≠ y) :
    G.Adj x y ↔ ∀ Z : Set V, x ∉ Z → y ∉ Z → ¬ G.DSep Z x y := by
  refine ⟨fun h Z _ _ => not_dSep_of_adj h, fun h => by_contra fun hn => ?_⟩
  rcases exists_separator hne hn with hs | hs
  · exact h _ notMem_parents (fun he => hn (Or.inr he)) hs
  · exact h _ (fun he => hn (Or.inl he)) notMem_parents hs

theorem collider_notMem (h : G.Unshielded a c b) (hs : G.DSep Z a b) : c ∉ Z := fun hc =>
  hs ⟨[(.fwd, c), (.bwd, b)], ⟨h.left, h.right, trivial⟩, rfl,
    by simp [MixedGraph.walkNodes, ne_of_edge h.left, h.ne, (ne_of_edge h.right).symm],
    MixedGraph.passes_collider.mpr (MixedGraph.mem_ancSet_of_mem hc), trivial⟩

/-- The middle of an unshielded triple that is no collider is in each separating set. -/
theorem noncollider_mem (hac : G.Adj a c) (hcb : G.Adj c b) (hne : a ≠ b)
    (h : ¬ (G.edge a c ∧ G.edge b c)) (hs : G.DSep Z a b) : c ∈ Z := by
  refine by_contra fun hc => hs ?_
  have hnd : (MixedGraph.walkNodes a [((EdgeKind.fwd : EdgeKind), c), (.fwd, b)]).Nodup := by
    simp [MixedGraph.walkNodes, hac.ne, hne, hcb.ne]
  rcases hac with hac | hac <;> rcases hcb with hcb | hcb
  · exact ⟨[(.fwd, c), (.fwd, b)], ⟨hac, hcb, trivial⟩, rfl, hnd,
      MixedGraph.passes_noncollider.mpr hc, trivial⟩
  · exact absurd ⟨hac, hcb⟩ h
  · exact ⟨[(.bwd, c), (.fwd, b)], ⟨hac, hcb, trivial⟩, rfl, hnd,
      MixedGraph.passes_noncollider.mpr hc, trivial⟩
  · exact ⟨[(.bwd, c), (.bwd, b)], ⟨hac, hcb, trivial⟩, rfl, hnd,
      MixedGraph.passes_noncollider.mpr hc, trivial⟩

/-- A separating set tells the colliders of an unshielded triple. -/
theorem unshielded_iff (hac : G.Adj a c) (hcb : G.Adj c b) (hne : a ≠ b) (hab : ¬ G.Adj a b)
    (hs : G.DSep Z a b) : G.Unshielded a c b ↔ c ∉ Z := by
  refine ⟨fun h => collider_notMem h hs, fun hc => by_contra fun h => ?_⟩
  exact hc (noncollider_mem hac hcb hne (fun he => h ⟨he.1, he.2, hne, hab⟩) hs)

/-! ## Equivalence -/

theorem MarkovEquivalent.dSep (h : G.MarkovEquivalent H) (hne : x ≠ y) (hx : x ∉ Z) (hy : y ∉ Z) :
    G.DSep Z x y ↔ H.DSep Z x y := by
  have := h {x} {y} Z (Set.disjoint_singleton.mpr hne) (Set.disjoint_singleton_left.mpr hx)
    (Set.disjoint_singleton_left.mpr hy)
  simpa using this

theorem markovEquivalent_of_pairs
    (h : ∀ x y Z, x ≠ y → x ∉ Z → y ∉ Z → (G.DSep Z x y ↔ H.DSep Z x y)) :
    G.MarkovEquivalent H := by
  intro X Y Z hXY hXZ hYZ
  refine forall₂_congr fun x hx => forall₂_congr fun y hy => ?_
  exact h x y Z (hXY.ne_of_mem hx hy) (Set.disjoint_left.mp hXZ hx) (Set.disjoint_left.mp hYZ hy)

theorem Similar.refl (G : Dag V) : G.Similar G := ⟨fun _ _ => Iff.rfl, fun _ _ _ => Iff.rfl⟩

theorem Similar.symm (h : G.Similar H) : H.Similar G :=
  ⟨fun a b => (h.adj a b).symm, fun a c b => (h.collider a c b).symm⟩

theorem Similar.trans (h : G.Similar H) (h' : H.Similar K) : G.Similar K :=
  ⟨fun a b => (h.adj a b).trans (h'.adj a b), fun a c b => (h.collider a c b).trans (h'.collider a c b)⟩

/-- **Markov equivalent graphs have one skeleton and the same unshielded colliders.** -/
theorem Similar.of_markovEquivalent (h : G.MarkovEquivalent H) : G.Similar H := by
  have hadj : ∀ a b, G.Adj a b ↔ H.Adj a b := by
    intro a b
    by_cases hne : a = b
    · exact ⟨fun hab => absurd hne hab.ne, fun hab => absurd hne hab.ne⟩
    · rw [adj_iff_forall hne, adj_iff_forall hne]
      exact forall₃_congr fun Z ha hb => not_congr (h.dSep hne ha hb)
  refine ⟨hadj, fun a c b => ?_⟩
  by_cases ht : a ≠ b ∧ ¬ G.Adj a b ∧ G.Adj a c ∧ G.Adj c b
  · obtain ⟨hne, hab, hac, hcb⟩ := ht
    -- a set that separates the ends in one graph separates them in the other
    have key : ∀ Z : Set V, a ∉ Z → b ∉ Z → G.DSep Z a b →
        (G.Unshielded a c b ↔ H.Unshielded a c b) := by
      intro Z ha hb hs
      rw [unshielded_iff hac hcb hne hab hs,
        unshielded_iff ((hadj a c).mp hac) ((hadj c b).mp hcb) hne (fun hc => hab ((hadj a b).mpr hc))
          ((h.dSep hne ha hb).mp hs)]
    rcases exists_separator hne hab with hs | hs
    · exact key _ notMem_parents (fun he => hab (Or.inr he)) hs
    · exact key _ (fun he => hab (Or.inl he)) notMem_parents hs
  · refine ⟨fun hu => absurd ⟨hu.ne, hu.not_adj, Or.inl hu.left, Or.inr hu.right⟩ ht,
      fun hu => absurd ⟨hu.ne, fun hc => hu.not_adj ((hadj a b).mp hc), (hadj a c).mpr (Or.inl hu.left),
        (hadj c b).mpr (Or.inr hu.right)⟩ ht⟩

end Dag

end Antecedent
