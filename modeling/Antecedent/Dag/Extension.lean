import Antecedent.Dag.Meek

/-!
# Consistent extensions

A partially directed graph is a relation `D` of directed edges, a symmetric relation `U` of undirected
ones, and the adjacency `A` that shields a collider. A DAG extends it when it has the same edges, the
directed ones as they are, and no unshielded collider but those already directed (`Extends`).

* `Extends.exists_sink`: an extension has a last node in any set, and there the test of the
  Dor-Tarsi procedure succeeds (`Sinkable`).
-/

namespace Antecedent.Dag

variable {V : Type*} {G H K : Dag V} {A D U : V → V → Prop} {a b c x y z : V}

/-- `H` is a consistent extension. -/
structure Extends (A D U : V → V → Prop) (H : Dag V) : Prop where
  adj : ∀ a b, H.Adj a b ↔ D a b ∨ D b a ∨ U a b
  dir : ∀ a b, D a b → H.edge a b
  collider : ∀ a c b, H.edge a c → H.edge b c → a ≠ b → ¬ A a b → D a c

/-- Nothing directed leaves `x` for the set, and each undirected neighbour of `x` in the set is adjacent
to every other neighbour there. -/
structure Sinkable (A D U : V → V → Prop) (R : Set V) (x : V) : Prop where
  mem : x ∈ R
  last : ∀ c ∈ R, ¬ D x c
  clique : ∀ u ∈ R, U u x → ∀ z ∈ R, (D z x ∨ U z x) → z ≠ u → A u z

section

variable (hA : ∀ a b, A a b ↔ D a b ∨ D b a ∨ U a b) (h : Extends A D U G)

include hA h

theorem Extends.similar (h' : Extends A D U H) : G.Similar H := by
  have hadj : ∀ a b, G.Adj a b ↔ H.Adj a b := fun a b => (h.adj a b).trans (h'.adj a b).symm
  have key : ∀ {G H : Dag V}, Extends A D U G → Extends A D U H →
      (∀ a b, G.Adj a b ↔ H.Adj a b) → ∀ a c b, G.Unshielded a c b → H.Unshielded a c b := by
    intro G H h h' hadj a c b hu
    have hn : ¬ A a b := fun hab => hu.not_adj ((h.adj a b).mpr ((hA a b).mp hab))
    have hn' : ¬ A b a := fun hba => hu.not_adj ((h.adj b a).mpr ((hA b a).mp hba)).symm
    exact ⟨h'.dir a c (h.collider a c b hu.left hu.right hu.ne hn),
      h'.dir b c (h.collider b c a hu.right hu.left hu.ne.symm hn'), hu.ne,
      fun hc => hu.not_adj ((hadj a b).mpr hc)⟩
  exact ⟨hadj, fun a c b => ⟨key h h' hadj a c b, key h' h (fun a b => (hadj a b).symm) a c b⟩⟩

theorem Extends.of_similar (hs : G.Similar H) (hD : ∀ a b, D a b → H.edge a b) :
    Extends A D U H where
  adj a b := (hs.adj a b).symm.trans (h.adj a b)
  dir := hD
  collider a c b hac hbc hne hab := by
    have hu : H.Unshielded a c b := ⟨hac, hbc, hne, fun hc =>
      hab ((hA a b).mpr ((h.adj a b).mp ((hs.adj a b).mpr hc)))⟩
    have hu' := (hs.collider a c b).mpr hu
    exact h.collider a c b hu'.left hu'.right hne hab

end

/-- **The extensions of the closure and its open edges are the similar graphs.** -/
theorem extends_iff_similar : Extends G.Adj G.Meek G.Open H ↔ G.Similar H := by
  have hA : ∀ a b, G.Adj a b ↔ G.Meek a b ∨ G.Meek b a ∨ G.Open a b := by
    refine fun a b => ⟨meek_or_open, ?_⟩
    rintro (h | h | h)
    · exact Or.inl (meek_edge h)
    · exact Or.inr (meek_edge h)
    · exact h.adj
  have hG : Extends G.Adj G.Meek G.Open G :=
    ⟨hA, fun _ _ => meek_edge, fun a c b hac hbc hne hab => .collider ⟨hac, hbc, hne, hab⟩⟩
  exact ⟨hG.similar hA, fun hs => hG.of_similar hA hs fun a b => meek_sound hs⟩

/-- **In every nonempty finite set the last node of an extension passes the test.** -/
theorem Extends.exists_sink (hDU : ∀ a b, U a b → ¬ D a b) (h : Extends A D U H) {R : Set V}
    (hR : R.Nonempty) : ∃ x, Sinkable A D U R x := by
  obtain ⟨x, hx, hlast⟩ := H.wellFounded_down.has_min R hR
  have hin : ∀ {z}, z ∈ R → U z x → H.edge z x := fun {z} hz hu =>
    ((h.adj z x).mpr (Or.inr (Or.inr hu))).resolve_right fun he => hlast z hz (.single he)
  refine ⟨x, hx, fun c hc hd => hlast c hc (.single (h.dir x c hd)), fun u hu hux z hz hzx hne => ?_⟩
  refine by_contra fun hn => ?_
  have hzx' : H.edge z x := hzx.elim (h.dir z x) (hin hz)
  exact hDU u x hux (h.collider u x z (hin hu hux) hzx' hne.symm hn)

end Antecedent.Dag
