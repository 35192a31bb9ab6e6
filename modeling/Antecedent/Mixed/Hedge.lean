import Mathlib.Combinatorics.SimpleGraph.Acyclic
import Antecedent.Dag.Basic

/-!
# C-forests and hedges

A C-forest spanning `N` is a choice of directed and of bidirected edges inside `N`: the bidirected
ones form a spanning tree and every node keeps at most one child. Its roots are the nodes that keep
none. A hedge is a pair of C-forests with the same roots. The definition is existential over edge
sets; whether two sets of nodes carry a hedge is a question about closures.

* **`hedge_iff`**: the largest admissible root set decides whether a pair of sets is a hedge.
-/

namespace Antecedent.Mixed.MixedGraph

open Relation

variable {V : Type*} (G : MixedGraph V)

/-- One directed edge between nodes of `N`. -/
def Inside (N : Set V) (a b : V) : Prop := a ∈ N ∧ b ∈ N ∧ G.dir a b

/-- Every two nodes of `N` are joined by bidirected edges inside `N`. -/
def BiConnected (N : Set V) : Prop := ∀ a ∈ N, ∀ b ∈ N, G.District N a b

/-- Every node of `N` reaches `R` by directed edges inside `N`. -/
def ReachesIn (N R : Set V) : Prop := ∀ v ∈ N, ∃ r ∈ R, ReflTransGen (G.Inside N) v r

/-- A C-forest spanning `N`. -/
structure CForest (N : Set V) where
  dir : V → V → Prop
  bi : SimpleGraph N
  dir_inside : ∀ {a b}, dir a b → G.Inside N a b
  bi_le : ∀ {a b}, bi.Adj a b → G.bi a b
  tree : bi.IsTree
  one_child : ∀ {a b c}, dir a b → dir a c → b = c

variable {G} in
/-- The nodes without a child. -/
def CForest.roots {N : Set V} (f : G.CForest N) : Set V := {v ∈ N | ∀ c, ¬ f.dir v c}

/-- The ancestors of `Y` once the edges into `X` are cut. -/
def BarredAncestors (X Y : Set V) : Set V :=
  {v | ∃ y ∈ Y, ReflTransGen (fun a b => G.dir a b ∧ b ∉ X) v y}

/-- `F` and `F'` carry a hedge for the effect of `X` on `Y`. -/
structure Hedge (X Y F F' : Set V) : Prop where
  nonempty : F'.Nonempty
  subset : F' ⊆ F
  meets : (F ∩ X).Nonempty
  avoids : Disjoint F' X
  forests : ∃ (f : G.CForest F) (f' : G.CForest F'), f.roots = f'.roots ∧
    f.roots ⊆ G.BarredAncestors X Y

variable {G} {N R : Set V}

/-! ## Building a forest -/

/-- The bidirected edges inside a set. -/
def biGraph (G : MixedGraph V) (N : Set V) : SimpleGraph N where
  Adj a b := a ≠ b ∧ G.bi a b
  symm := ⟨fun _ _ h => ⟨h.1.symm, G.bi_symm h.2⟩⟩
  loopless := ⟨fun _ h => h.1 rfl⟩

theorem biGraph_connected (hne : N.Nonempty) (h : G.BiConnected N) : (G.biGraph N).Connected := by
  have key : ∀ {a b : V} (ha : a ∈ N), G.District N a b →
      ∃ hb : b ∈ N, (G.biGraph N).Reachable ⟨a, ha⟩ ⟨b, hb⟩ := by
    intro a b ha hab
    induction hab with
    | refl => exact ⟨ha, .refl _⟩
    | @tail c d _ hcd ih =>
      obtain ⟨hc, hr⟩ := ih
      refine ⟨hcd.2.1, ?_⟩
      by_cases he : c = d
      · subst he
        exact hr
      · exact hr.trans (SimpleGraph.Adj.reachable ⟨fun e => he (congrArg Subtype.val e), hcd.2.2⟩)
  have : Nonempty N := hne.to_subtype
  exact ⟨fun a b => (key a.2 (h a a.2 b b.2)).2⟩

/-- **A bidirected-connected set in which every node reaches `R` carries a C-forest with roots
`R`**: keep a spanning tree, and for each node outside `R` one child on its way to `R`. -/
theorem exists_cForest (hne : N.Nonempty) (hR : R ⊆ N) (hc : G.BiConnected N)
    (hr : G.ReachesIn N R) : ∃ f : G.CForest N, f.roots = R := by
  obtain ⟨T, hT, htree⟩ := (biGraph_connected hne hc).exists_isTree_le
  have hchild : ∀ v, ∃ c, v ∈ N → v ∉ R → G.Inside N v c := fun v => by
    by_cases hv : v ∈ N ∧ v ∉ R
    · obtain ⟨r, hrR, hvr⟩ := hr v hv.1
      rcases ReflTransGen.cases_head hvr with rfl | ⟨c, hvc, -⟩
      · exact absurd hrR hv.2
      · exact ⟨c, fun _ _ => hvc⟩
    · exact ⟨v, fun hN hn => absurd ⟨hN, hn⟩ hv⟩
  choose child hchild using hchild
  refine ⟨⟨fun a b => a ∈ N ∧ a ∉ R ∧ b = child a, T, ?_, fun h => (hT h).2, htree, ?_⟩, ?_⟩
  · rintro a b ⟨ha, hn, rfl⟩
    exact hchild a ha hn
  · rintro a b c ⟨-, -, rfl⟩ ⟨-, -, rfl⟩
    rfl
  · ext v
    constructor
    · rintro ⟨hv, hno⟩
      by_contra hn
      exact hno _ ⟨hv, hn, rfl⟩
    · exact fun hv => ⟨hR hv, fun _ h => h.2.1 hv⟩

/-! ## Reading a forest -/

theorem CForest.biConnected (f : G.CForest N) : G.BiConnected N := by
  have key : ∀ {a b : N}, f.bi.Walk a b → G.District N a b := by
    intro a b w
    induction w with
    | nil => exact .refl
    | cons h _ ih => exact .head ⟨Subtype.prop _, Subtype.prop _, f.bi_le h⟩ ih
  intro a ha b hb
  obtain ⟨w⟩ := f.tree.connected.preconnected ⟨a, ha⟩ ⟨b, hb⟩
  exact key w

/-- **In a finite acyclic graph every node of a C-forest reaches its roots**: the chain of kept
children stops, and it stops at a root. -/
theorem CForest.reaches (hac : G.Acyclic) (hN : N.Finite) (f : G.CForest N) :
    G.ReachesIn N f.roots := by
  have hwf : WellFounded fun a b => TransGen (G.Inside N) b a :=
    Antecedent.Dag.wellFounded_of_finite
      (fun v hv => hac v (TransGen.mono (fun _ _ h => h.2.2) _ _ hv))
      (fun _ _ _ h h' => h'.trans h) hN fun a b h => by
        obtain ⟨c, -, hc⟩ := TransGen.tail'_iff.mp h
        exact hc.2.1
  intro v
  induction v using hwf.induction with
  | _ v ih =>
    intro hv
    by_cases hroot : ∀ c, ¬ f.dir v c
    · exact ⟨v, ⟨hv, hroot⟩, .refl⟩
    · push Not at hroot
      obtain ⟨c, hc⟩ := hroot
      have hin := f.dir_inside hc
      obtain ⟨r, hr, hcr⟩ := ih c (.single hin) hin.2.1
      exact ⟨r, hr, .head hin hcr⟩

theorem ReachesIn.mono {R' : Set V} (h : G.ReachesIn N R) (hR : R ⊆ R') : G.ReachesIn N R' :=
  fun v hv => by
    obtain ⟨r, hr, hvr⟩ := h v hv
    exact ⟨r, hR hr, hvr⟩

/-- **The largest admissible root set decides whether two sets carry a hedge.** -/
theorem hedge_iff (hac : G.Acyclic) {X Y F F' : Set V} (hF : F.Finite) :
    G.Hedge X Y F F' ↔ F'.Nonempty ∧ F' ⊆ F ∧ (F ∩ X).Nonempty ∧ Disjoint F' X ∧
      G.BiConnected F ∧ G.BiConnected F' ∧ (F' ∩ G.BarredAncestors X Y).Nonempty ∧
      G.ReachesIn F (F' ∩ G.BarredAncestors X Y) ∧
      G.ReachesIn F' (F' ∩ G.BarredAncestors X Y) := by
  constructor
  · rintro ⟨hne, hsub, hmeets, havoids, f, f', hroots, hanc⟩
    have hroots' : f'.roots ⊆ F' ∩ G.BarredAncestors X Y := fun r hr => ⟨hr.1, hanc (hroots ▸ hr)⟩
    have hreach := f.reaches hac hF
    have hreach' := f'.reaches hac (hF.subset hsub)
    obtain ⟨v, hv⟩ := hne
    obtain ⟨r, hr, -⟩ := hreach' v hv
    exact ⟨⟨v, hv⟩, hsub, hmeets, havoids, f.biConnected, f'.biConnected, ⟨r, hroots' hr⟩,
      hreach.mono (hroots ▸ hroots'), hreach'.mono hroots'⟩
  · rintro ⟨hne, hsub, hmeets, havoids, hc, hc', -, hr, hr'⟩
    obtain ⟨f, hf⟩ := exists_cForest (hne.mono hsub) (Set.inter_subset_left.trans hsub) hc hr
    obtain ⟨f', hf'⟩ := exists_cForest hne Set.inter_subset_left hc' hr'
    exact ⟨hne, hsub, hmeets, havoids, f, f', hf.trans hf'.symm, hf ▸ Set.inter_subset_right⟩

end Antecedent.Mixed.MixedGraph
