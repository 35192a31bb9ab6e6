import Antecedent.Mixed.Hedge

/-!
# Subproblems of an identification problem

A problem asks for the effect of `X` on `Y` in the subgraph on `V`. Shpitser and Pearl's recursion
passes from a problem to smaller ones; `Of` is what each of them keeps of the problem it started
from. The last part is what makes a failure a hedge: a bidirected-connected set of nodes outside the
original treatments, rooted in ancestors of `Y`, is never cut by a treatment the recursion added.

* `Of.restrict`, `Of.enlarge`, `Of.district`: the three ways to pass on.
* **`Of.hedge`**: where `V` and `V \ X` are both bidirected-connected, they carry a hedge for the
  original problem.
-/

namespace Antecedent.Mixed

open Relation

/-- The effect of `x` on `y` in the subgraph on `v`. -/
structure Subproblem (V : Type*) where
  y : Set V
  x : Set V
  v : Set V

namespace MixedGraph

variable {V : Type*} (G : MixedGraph V)

/-- The nodes of `v` that reach `y` inside `v` by edges none of which goes into `x`. -/
def LocalAncestors (v x y : Set V) : Set V :=
  {u ∈ v | ∃ t ∈ y, ReflTransGen (fun a b => G.Inside v a b ∧ b ∉ x) u t}

variable {G} {v v' x x' y : Set V}

theorem mem_localAncestors {t : V} (ht : t ∈ y) (hv : t ∈ v) : t ∈ G.LocalAncestors v x y :=
  ⟨hv, t, ht, .refl⟩

/-- Fewer nodes and fewer cut edges. -/
theorem LocalAncestors.mono (hv : v' ⊆ v) (hx : ∀ b ∈ v', b ∉ x' → b ∉ x) :
    G.LocalAncestors v' x' y ⊆ G.LocalAncestors v x y := by
  rintro u ⟨hu, t, ht, hut⟩
  exact ⟨hv hu, t, ht, ReflTransGen.mono (fun a b h =>
    ⟨⟨hv h.1.1, hv h.1.2.1, h.1.2.2⟩, hx b h.1.2.1 h.2⟩) _ _ hut⟩

end MixedGraph

namespace Subproblem

variable {V : Type*} {G : MixedGraph V} {x₀ y₀ : Set V} {q : Subproblem V}

/-- What a subproblem keeps of the problem `(x₀, y₀)`. -/
structure Of (G : MixedGraph V) (x₀ y₀ : Set V) (q : Subproblem V) : Prop where
  x_sub : q.x ⊆ q.v
  y_sub : q.y ⊆ q.v \ q.x
  y_ne : q.y.Nonempty
  kept : x₀ ∩ q.v ⊆ q.x
  barred : q.y ⊆ G.BarredAncestors x₀ y₀
  untouched : ∀ U R : Set V, U ⊆ q.v → Disjoint U x₀ → R.Nonempty → R ⊆ U \ q.x →
    R ⊆ G.LocalAncestors q.v q.x q.y → G.BiConnected U → G.ReachesIn U R → Disjoint U q.x

/-- The problem itself. -/
theorem Of.start (hx : x₀ ⊆ q.v) (hy : y₀ ⊆ q.v \ x₀) (hne : y₀.Nonempty) :
    Of G x₀ y₀ ⟨y₀, x₀, q.v⟩ where
  x_sub := hx
  y_sub := hy
  y_ne := hne
  kept := Set.inter_subset_left
  barred := fun t ht => ⟨t, ht, .refl⟩
  untouched _ _ _ hU _ _ _ _ _ := hU

variable (h : Of G x₀ y₀ q)

include h

/-- Passing to a part that holds the outcomes. -/
theorem Of.restrict (v' : Set V) (hv : v' ⊆ q.v) (hy : q.y ⊆ v') :
    Of G x₀ y₀ ⟨q.y, q.x ∩ v', v'⟩ where
  x_sub := Set.inter_subset_right
  y_sub := fun t ht => ⟨hy ht, fun hx => (h.y_sub ht).2 hx.1⟩
  y_ne := h.y_ne
  kept := fun t ht => ⟨h.kept ⟨ht.1, hv ht.2⟩, ht.2⟩
  barred := h.barred
  untouched U R hU hd hne hR hanc hc hr := by
    have hR' : R ⊆ U \ q.x := fun t ht => ⟨(hR ht).1, fun hx => (hR ht).2 ⟨hx, hU (hR ht).1⟩⟩
    have hanc' : R ⊆ G.LocalAncestors q.v q.x q.y :=
      hanc.trans (MixedGraph.LocalAncestors.mono hv fun b hb hn hx => hn ⟨hx, hb⟩)
    exact (h.untouched U R (hU.trans hv) hd hne hR' hanc' hc hr).mono_right Set.inter_subset_left

/-- Adding treatments that no edge into the others lets reach the outcomes. -/
theorem Of.enlarge {w : Set V} (hw : w ⊆ q.v) (hno : Disjoint w (G.LocalAncestors q.v q.x q.y)) :
    Of G x₀ y₀ ⟨q.y, q.x ∪ w, q.v⟩ where
  x_sub := Set.union_subset h.x_sub hw
  y_sub := fun t ht => ⟨(h.y_sub ht).1, fun hx => hx.elim (h.y_sub ht).2 fun hw =>
    Set.disjoint_left.mp hno hw (MixedGraph.mem_localAncestors ht (h.y_sub ht).1)⟩
  y_ne := h.y_ne
  kept := h.kept.trans Set.subset_union_left
  barred := h.barred
  untouched U R hU hd hne hR hanc hc hr := by
    have hR' : R ⊆ U \ q.x := fun t ht => ⟨(hR ht).1, fun hx => (hR ht).2 (.inl hx)⟩
    have hanc' : R ⊆ G.LocalAncestors q.v q.x q.y :=
      hanc.trans (MixedGraph.LocalAncestors.mono subset_rfl fun b _ hn hx => hn (.inl hx))
    have hUx := h.untouched U R hU hd hne hR' hanc' hc hr
    refine Set.disjoint_union_right.mpr ⟨hUx, Set.disjoint_left.mpr fun u hu huw => ?_⟩
    -- a path inside `U` to a root goes into no treatment, so `u` reaches the outcomes
    obtain ⟨r, hrR, hur⟩ := hr u hu
    obtain ⟨-, t, ht, hrt⟩ := hanc' hrR
    have hpath : ReflTransGen (fun a b => G.Inside q.v a b ∧ b ∉ q.x) u r :=
      ReflTransGen.mono (fun a b hab =>
        ⟨⟨hU hab.1, hU hab.2.1, hab.2.2⟩, Set.disjoint_left.mp hUx hab.2.1⟩) _ _ hur
    exact Set.disjoint_left.mp hno huw ⟨hU hu, t, ht, hpath.trans hrt⟩

theorem Of.district (hall : q.v \ q.x ⊆ G.LocalAncestors q.v q.x q.y) {s : Set V}
    (hs : s ⊆ q.v \ q.x) (hne : s.Nonempty)
    (hclosed : ∀ a ∈ s, ∀ b, G.District (q.v \ q.x) a b → b ∈ s) :
    Of G x₀ y₀ ⟨s, q.v \ s, q.v⟩ where
  x_sub := Set.sdiff_subset
  y_sub := fun t ht => ⟨(hs ht).1, fun hx => hx.2 ht⟩
  y_ne := hne
  kept := fun t ht => ⟨ht.2, fun hts => (hs hts).2 (h.kept ht)⟩
  barred := fun t ht => by
    obtain ⟨-, r, hr, htr⟩ := hall (hs ht)
    obtain ⟨z, hz, hrz⟩ := h.barred hr
    refine ⟨z, hz, .trans (ReflTransGen.mono (fun a b hab => ?_) _ _ htr) hrz⟩
    exact ⟨hab.1.2.2, fun hb => hab.2 (h.kept ⟨hb, hab.1.2.1⟩)⟩
  untouched U R hU hd hRne hR hanc hc hr := by
    have hRs : R ⊆ s := fun t ht => by
      by_contra hts
      exact (hR ht).2 ⟨hU (hR ht).1, hts⟩
    have hUx := h.untouched U R hU hd hRne (fun t ht => ⟨(hR ht).1, (hs (hRs ht)).2⟩)
      ((hRs.trans hs).trans hall) hc hr
    -- `U` is outside the treatments and connected, so it stays in the district of its roots
    obtain ⟨r, hrR⟩ := hRne
    refine Set.disjoint_left.mpr fun u hu hux => hux.2 (hclosed r (hRs hrR) u ?_)
    exact ReflTransGen.mono (fun a b hab =>
      ⟨⟨hU hab.1, Set.disjoint_left.mp hUx hab.1⟩, ⟨hU hab.2.1, Set.disjoint_left.mp hUx hab.2.1⟩,
        hab.2.2⟩) _ _ (hc r (hR hrR).1 u hu)

/-- **A failure is a hedge for the original problem.** -/
theorem Of.hedge (hac : G.Acyclic) (hfin : q.v.Finite) (hx : q.x.Nonempty)
    (hanc : q.v ⊆ G.LocalAncestors q.v ∅ q.y) (hall : q.v \ q.x ⊆ G.LocalAncestors q.v q.x q.y)
    (hc : G.BiConnected q.v) (hc' : G.BiConnected (q.v \ q.x)) : G.Hedge x₀ y₀ q.v (q.v \ q.x) := by
  have hroots : q.y ⊆ (q.v \ q.x) ∩ G.BarredAncestors x₀ y₀ := fun t ht =>
    ⟨h.y_sub ht, h.barred ht⟩
  have hreach : G.ReachesIn q.v q.y := fun u hu => by
    obtain ⟨-, t, ht, hut⟩ := hanc hu
    exact ⟨t, ht, ReflTransGen.mono (fun _ _ hab => hab.1) _ _ hut⟩
  have hreach' : G.ReachesIn (q.v \ q.x) q.y := fun u hu => by
    obtain ⟨-, t, ht, hut⟩ := hall hu
    refine ⟨t, ht, ?_⟩
    induction hut using ReflTransGen.head_induction_on with
    | refl => exact .refl
    | head hab _ ih => exact .head ⟨hu, ⟨hab.1.2.1, hab.2⟩, hab.1.2.2⟩ (ih ⟨hab.1.2.1, hab.2⟩)
  refine (MixedGraph.hedge_iff hac hfin).mpr ⟨h.y_ne.mono h.y_sub, Set.sdiff_subset, ?_, ?_, hc, hc',
    h.y_ne.mono hroots, hreach.mono hroots, hreach'.mono hroots⟩
  · by_contra hno
    have hd : Disjoint q.v x₀ := Set.disjoint_iff_inter_eq_empty.mpr
      (Set.not_nonempty_iff_eq_empty.mp hno)
    have hvx := h.untouched q.v q.y subset_rfl hd h.y_ne h.y_sub
      (h.y_sub.trans hall) hc hreach
    obtain ⟨t, ht⟩ := hx
    exact Set.disjoint_left.mp hvx (h.x_sub ht) ht
  · exact Set.disjoint_left.mpr fun t ht ht₀ => ht.2 (h.kept ⟨ht₀, ht.1⟩)

end Subproblem

end Antecedent.Mixed
