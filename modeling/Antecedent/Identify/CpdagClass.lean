import Antecedent.Dag.Maximal
import Antecedent.Identify.CpdagRead

/-!
# The completions are the class

The leaves of the walk are the consistent extensions of the supplied graph (`leaf_extends`, `exists_leaf`).
So the checks of a finished enumeration decide whether the graph is the graph of a class, by
`Dag.exists_essential_iff`, and the completions are then its members.
-/

namespace Antecedent.Identify.CpdagCompletion

open Core Antecedent.Graph Worklist Relation

variable {g : Cpdag} {vs : List Nat} {sk : Skeleton} {i j k u v : Nat} {m m' : Finset Nat}
  {vars : List Nat}
  {es : List (Nat × Nat)} {R : Nat → Nat → Prop} {H G : Dag Nat}

/-- Adjacent, directed and undirected, between variables. -/
abbrev VarAdj (g : Cpdag) : Nat → Nat → Prop := Labelled g (Joins g.adj)

@[inherit_doc VarAdj] abbrev VarDir (g : Cpdag) : Nat → Nat → Prop := Labelled g (Dir g.adj)

@[inherit_doc VarAdj] abbrev VarUnd (g : Cpdag) : Nat → Nat → Prop := Labelled g (Und g.adj)

/-- The supplied graph is the CPDAG of `G`. -/
abbrev IsCpdagOf (g : Cpdag) (G : Dag Nat) : Prop := Dag.Essential (VarAdj g) (VarDir g) (VarUnd g) G

/-! ## Between positions and variables -/

/-- A relation of positions, between the variables there. -/
def Spread (vars : List Nat) (R : Nat → Nat → Prop) (u v : Nat) : Prop :=
  ∃ i j, vars[i]? = some u ∧ vars[j]? = some v ∧ R i j

theorem spread_iff (h : vars.Nodup) (hu : vars[i]? = some u)
    (hv : vars[j]? = some v) : Spread vars R u v ↔ R i j := by
  constructor
  · rintro ⟨i', j', hu', hv', hR⟩
    rwa [position_unique h hu hu', position_unique h hv hv']
  · exact fun hR => ⟨i, j, hu, hv, hR⟩

theorem at_iff (hu : vars[i]? = some u) (hv : vars[j]? = some v) :
    At vars R i j ↔ R u v := by
  constructor
  · rintro ⟨u', v', hu', hv', hR⟩
    rwa [Option.some.inj (hu.symm.trans hu'), Option.some.inj (hv.symm.trans hv')]
  · exact fun hR => ⟨u, v, hu, hv, hR⟩

theorem transGen_spread (h : vars.Nodup) (ht : TransGen (Spread vars R) u v) :
    ∃ i j, vars[i]? = some u ∧ vars[j]? = some v ∧ TransGen R i j := by
  induction ht with
  | single hs =>
    obtain ⟨i, j, hi, hj, hR⟩ := hs
    exact ⟨i, j, hi, hj, .single hR⟩
  | tail _ hs ih =>
    obtain ⟨i, j, hi, hj, hR⟩ := ih
    obtain ⟨j', k, hj', hk, hR'⟩ := hs
    rw [← position_unique h hj hj'] at hR'
    exact ⟨i, k, hi, hk, hR.tail hR'⟩

/-! ## The directions of a mask -/

theorem mem_chosen {p : Nat × Nat} : ∀ (es : List (Nat × Nat)) (k : Nat), p ∈ chosen m k es ↔
    ∃ t, (es[t]? = some p ∧ k + t ∈ m) ∨ (es[t]? = some (p.2, p.1) ∧ k + t ∉ m)
  | [], k => by simp [chosen]
  | (a, b) :: es, k => by
    rw [chosen, List.mem_cons, mem_chosen es (k + 1)]
    have hshift (t : Nat) : k + 1 + t = k + (t + 1) := by omega
    constructor
    · rintro (hp | ⟨t, ht⟩)
      · refine ⟨0, ?_⟩
        split_ifs at hp with hk
        · exact Or.inl ⟨by rw [hp]; rfl, hk⟩
        · exact Or.inr ⟨by rw [hp]; rfl, hk⟩
      · rw [hshift] at ht
        exact ⟨t + 1, ht⟩
    · rintro ⟨t, ht⟩
      cases t with
      | zero =>
        left
        rcases ht with ⟨he, hk⟩ | ⟨he, hk⟩
        · rw [if_pos (show k ∈ m from hk)]
          exact (Option.some.inj he).symm
        · rw [if_neg (show k ∉ m from hk)]
          have := Option.some.inj he
          rw [Prod.mk.injEq] at this
          exact Prod.ext this.2.symm this.1.symm
      | succ t =>
        rw [← hshift] at ht
        exact Or.inr ⟨t, ht⟩

/-- The fixed edges and the ones a mask directs. -/
abbrev Skeleton.Directs (sk : Skeleton) (m : Finset Nat) : Nat → Nat → Prop :=
  With (fun i j => (i, j) ∈ sk.fixed) m 0 sk.undirected

/-- The masks of an enumeration that nothing stops. -/
abbrev Skeleton.leaves (sk : Skeleton) : List (Finset Nat) :=
  CpdagCompletion.leaves sk 0 sk.undirected (Orienter.new sk) ∅

section Reading

variable (hn : g.nodes = vs.map .static) (h : vs.Nodup) (hc : g.conflictEdgeCount = 0)
  (hr : Reads vs g sk)

include h hr in
theorem Reads.vars_nodup : sk.vars.Nodup := hr.vars ▸ nodup_sorted h

include hn hr in
/-- The ends of an edge are variables of the graph. -/
theorem Reads.exists_positions {L : Nat → Nat → Prop} (hL : Labelled g L u v) :
    ∃ i j : Nat, sk.vars[i]? = some u ∧ sk.vars[j]? = some v := by
  obtain ⟨a, b, ha, hb, -⟩ := hL
  have hmem {x d : Nat} (hx : g.nodes[d]? = some (.static x)) : ∃ i : Nat, sk.vars[i]? = some x := by
    have hin : x ∈ sk.vars := by
      rw [hr.vars, List.mem_insertionSort]
      exact List.mem_of_getElem? ((nodes_static hn).mp hx)
    exact List.mem_iff_getElem?.mp hin
  obtain ⟨i, hi⟩ := hmem ha
  obtain ⟨j, hj⟩ := hmem hb
  exact ⟨i, j, hi, hj⟩

omit hn h in
include hc in
/-- The edges between variables are directed or undirected. -/
theorem twoKinds : Dag.TwoKinds (VarAdj g) (VarDir g) (VarUnd g) where
  adj u v := by
    constructor
    · rintro ⟨a, b, ha, hb, hab⟩
      obtain ⟨m, hm⟩ := Option.isSome_iff_exists.mp hab
      rcases g.directed_or_undirected hc hm with hd | hd | hd
      · exact Or.inl ⟨a, b, ha, hb, hd⟩
      · exact Or.inr (Or.inl ⟨b, a, hb, ha, hd⟩)
      · exact Or.inr (Or.inr ⟨a, b, ha, hb, hd⟩)
    · rintro (⟨a, b, ha, hb, hab⟩ | ⟨b, a, hb, ha, hab⟩ | ⟨a, b, ha, hb, hab⟩)
      · exact ⟨a, b, ha, hb, .of_dir hab⟩
      · obtain ⟨m, hm⟩ := hab
        exact ⟨a, b, ha, hb, by rw [Joins, g.stored.look_symm, hm]; rfl⟩
      · exact ⟨a, b, ha, hb, .of_und hab⟩
  symm u v := by
    rintro ⟨a, b, ha, hb, hab⟩
    exact ⟨b, a, hb, ha, g.stored.und_symm hab⟩

include hn h hr

/-- The undirected edges to come are new, and listed once. -/
theorem Reads.fresh : Fresh sk sk.vars.length (fun i j => (i, j) ∈ sk.fixed) sk.undirected := by
  have hnot {i j : Nat} (hu : At sk.vars (VarUnd g) i j) : (i, j) ∉ sk.fixed := fun hf => by
    obtain ⟨u, v, hi, hj, hd⟩ := (hr.fixed i j).mp hf
    obtain ⟨a, b, ha, hb, hab⟩ := (at_iff hi hj).mp hu
    obtain ⟨a', b', ha', hb', hab'⟩ := hd
    have haa : a = a' := position_unique h ((nodes_static hn).mp ha) ((nodes_static hn).mp ha')
    have hbb : b = b' := position_unique h ((nodes_static hn).mp hb) ((nodes_static hn).mp hb')
    exact Und.not_dir (haa ▸ hbb ▸ hab) hab'
  have hswap {i j : Nat} (hu : At sk.vars (VarUnd g) i j) : At sk.vars (VarUnd g) j i := by
    obtain ⟨u, v, hi, hj, a, b, ha, hb, hab⟩ := hu
    exact ⟨v, u, hj, hi, b, a, hb, ha, g.stored.und_symm hab⟩
  refine ⟨hr.undirected_nodup, fun e he => ?_, fun e he => ?_, fun e he => ?_⟩
  · obtain ⟨hlt, hu⟩ := (hr.undirected e.1 e.2).mp he
    exact ⟨hlt, hu.lt.2⟩
  · have hu := ((hr.undirected e.1 e.2).mp he).2
    exact ⟨hnot hu, hnot (hswap hu)⟩
  · have hu := ((hr.undirected e.1 e.2).mp he).2
    exact ⟨hnot hu, hnot (hswap hu)⟩

omit hn h in
theorem Reads.adjacent_symm (i j : Nat) : j ∈ sk.adjacent i ↔ i ∈ sk.adjacent j := by
  have key {i j : Nat} (hij : j ∈ sk.adjacent i) : i ∈ sk.adjacent j := by
    obtain ⟨u, v, hi, hj, a, b, ha, hb, hab⟩ := (hr.adjacent i j).mp hij
    obtain ⟨m, hm⟩ := Option.isSome_iff_exists.mp hab
    refine (hr.adjacent j i).mpr ⟨v, u, hj, hi, b, a, hb, ha, ?_⟩
    rw [Joins, g.stored.look_symm, hm]
    rfl
  exact ⟨key, key⟩

theorem Reads.good : Good sk fun i j => (i, j) ∈ sk.fixed :=
  ⟨hr.acyclic hn h, fun _ _ _ hi _ _ _ => hi⟩

/-- **Which masks are leaves.** -/
theorem Reads.mem_leaves : m ∈ sk.leaves ↔
    (∀ t ∈ m, t < sk.undirected.length) ∧ Good sk (sk.Directs m) := by
  rw [CpdagCompletion.mem_leaves (hr.adjacent_symm) sk.undirected 0 _ ∅ _ hr.rows
    (hr.good hn h) (hr.fresh hn h) (by simp)]
  simp

omit hn h in
theorem Reads.spread_directs_lt (hs : Spread sk.vars (sk.Directs m) u v) : VarAdj g u v := by
  obtain ⟨i, j, hi, hj, hd | hd⟩ := hs
  · obtain ⟨a, b, ha, hb, hab⟩ := (at_iff hi hj).mp ((hr.fixed i j).mp hd)
    exact ⟨a, b, ha, hb, .of_dir hab⟩
  · obtain ⟨t, ⟨ht, -⟩ | ⟨ht, -⟩⟩ := (mem_chosen _ _).mp hd
    · obtain ⟨-, hu⟩ := (hr.undirected i j).mp (List.mem_of_getElem? ht)
      obtain ⟨a, b, ha, hb, hab⟩ := (at_iff hi hj).mp hu
      exact ⟨a, b, ha, hb, .of_und hab⟩
    · obtain ⟨-, hu⟩ := (hr.undirected j i).mp (List.mem_of_getElem? ht)
      obtain ⟨a, b, ha, hb, hab⟩ := (at_iff hj hi).mp hu
      exact ⟨b, a, hb, ha, .of_und (g.stored.und_symm hab)⟩

theorem Reads.directs_of_und (hu : VarUnd g u v) :
    Spread sk.vars (sk.Directs m) u v ∨ Spread sk.vars (sk.Directs m) v u := by
  obtain ⟨i, j, hi, hj⟩ := hr.exists_positions hn hu
  have hne : i ≠ j := by
    rintro rfl
    obtain rfl := Option.some.inj (hi.symm.trans hj)
    obtain ⟨a, b, ha, hb, hab⟩ := hu
    have : a = b := position_unique h ((nodes_static hn).mp ha) ((nodes_static hn).mp hb)
    obtain ⟨w, hw⟩ := hab
    exact g.stored.ne_of_look hw this
  have hturn {i j u v : Nat} (hi : sk.vars[i]? = some u) (hj : sk.vars[j]? = some v)
      (he : (i, j) ∈ sk.undirected) :
      Spread sk.vars (sk.Directs m) u v ∨ Spread sk.vars (sk.Directs m) v u := by
    obtain ⟨t, ht⟩ := List.mem_iff_getElem?.mp he
    by_cases hm : t ∈ m
    · exact Or.inl ⟨i, j, hi, hj, Or.inr ((mem_chosen _ _).mpr ⟨t, Or.inl ⟨ht, by simpa using hm⟩⟩)⟩
    · exact Or.inr ⟨j, i, hj, hi, Or.inr ((mem_chosen _ _).mpr ⟨t, Or.inr ⟨ht, by simpa using hm⟩⟩)⟩
  rcases Nat.lt_or_gt_of_ne hne with hlt | hlt
  · exact hturn hi hj ((hr.undirected i j).mpr ⟨hlt, (at_iff hi hj).mpr hu⟩)
  · obtain ⟨a, b, ha, hb, hab⟩ := hu
    exact (hturn hj hi ((hr.undirected j i).mpr ⟨hlt,
      (at_iff hj hi).mpr ⟨b, a, hb, ha, g.stored.und_symm hab⟩⟩)).symm

include hc in
/-- **A leaf is an extension of the graph.** -/
theorem Reads.leaf_extends (hm : m ∈ sk.leaves) :
    ∃ H : Dag Nat, Dag.Extends (VarAdj g) (VarDir g) (VarUnd g) H ∧
      ∀ u v, H.edge u v ↔ Spread sk.vars (sk.Directs m) u v := by
  obtain ⟨-, hgood⟩ := (hr.mem_leaves hn h).mp hm
  have hnd := hr.vars_nodup h
  have hk := twoKinds hc
  have hmem {u v : Nat} (hs : Spread sk.vars (sk.Directs m) u v) : u ∈ sk.vars ∧ v ∈ sk.vars := by
    obtain ⟨i, j, hi, hj, -⟩ := hs
    exact ⟨List.mem_of_getElem? hi, List.mem_of_getElem? hj⟩
  let H : Dag Nat := {
    edge := Spread sk.vars (sk.Directs m)
    finite := by
      refine ((sk.vars.finite_toSet).prod (sk.vars.finite_toSet)).subset ?_
      rintro ⟨u, v⟩ hs
      exact hmem hs
    acyclic := fun u hu => by
      obtain ⟨i, j, hi, hj, ht⟩ := transGen_spread hnd hu
      exact hgood.acyclic i (position_unique hnd hj hi ▸ ht) }
  have hdir (u v : Nat) (hd : VarDir g u v) : H.edge u v := by
    obtain ⟨i, j, hi, hj⟩ := hr.exists_positions hn hd
    exact ⟨i, j, hi, hj, Or.inl ((hr.fixed i j).mpr ((at_iff hi hj).mpr hd))⟩
  refine ⟨H, ⟨fun u v => ?_, hdir, fun u w v hu hv hne hadj => ?_⟩, fun u v => Iff.rfl⟩
  · rw [← hk.adj]
    constructor
    · rintro (hs | hs)
      · exact hr.spread_directs_lt hs
      · obtain ⟨a, b, ha, hb, hab⟩ := hr.spread_directs_lt hs
        obtain ⟨w, hw⟩ := Option.isSome_iff_exists.mp hab
        exact ⟨b, a, hb, ha, by rw [Joins, g.stored.look_symm, hw]; rfl⟩
    · intro ha
      rcases (hk.adj u v).mp ha with hd | hd | hd
      · exact Or.inl (hdir u v hd)
      · exact Or.inr (hdir v u hd)
      · exact hr.directs_of_und hn h hd
  · obtain ⟨i, k, hi, hk', hik⟩ := hu
    obtain ⟨j, k', hj, hk'', hjk⟩ := hv
    rw [← position_unique hnd hk' hk''] at hjk
    have hij : i ≠ j := by
      rintro rfl
      exact hne (Option.some.inj (hi.symm.trans hj))
    have hnadj : j ∉ sk.adjacent i := fun hmem =>
      hadj ((at_iff hi hj).mp ((hr.adjacent i j).mp hmem))
    exact (at_iff hi hk').mp ((hr.fixed i k).mp (hgood.safe i j k hik hjk hij hnadj))

/-- **An extension of the graph is a leaf.** -/
theorem Reads.exists_leaf (hH : Dag.Extends (VarAdj g) (VarDir g) (VarUnd g) H) :
    ∃ m ∈ sk.leaves, ∀ u v, H.edge u v ↔ Spread sk.vars (sk.Directs m) u v := by
  classical
  have hnd := hr.vars_nodup h
  let m : Finset Nat := (Finset.range sk.undirected.length).filter fun t =>
    ∃ e u v, sk.undirected[t]? = some e ∧ sk.vars[e.1]? = some u ∧ sk.vars[e.2]? = some v ∧ H.edge u v
  have hm {t i j u v : Nat} (ht : sk.undirected[t]? = some (i, j)) (hi : sk.vars[i]? = some u)
      (hj : sk.vars[j]? = some v) : t ∈ m ↔ H.edge u v := by
    have hlt : t < sk.undirected.length := (List.getElem?_eq_some_iff.mp ht).1
    simp only [m, Finset.mem_filter, Finset.mem_range, hlt, true_and]
    constructor
    · rintro ⟨e, u', v', he, hu', hv', hedge⟩
      obtain rfl := Option.some.inj (ht.symm.trans he)
      rwa [Option.some.inj (hi.symm.trans hu'), Option.some.inj (hj.symm.trans hv')]
    · exact fun hedge => ⟨(i, j), u, v, ht, hi, hj, hedge⟩
  have hedge : ∀ u v, H.edge u v ↔ Spread sk.vars (sk.Directs m) u v := by
    -- what the mask directs is in the graph, and the graph has one direction of each edge
    have hsub : ∀ u v, Spread sk.vars (sk.Directs m) u v → H.edge u v := by
      rintro u v ⟨i, j, hi, hj, hd | hd⟩
      · exact hH.dir u v ((at_iff hi hj).mp ((hr.fixed i j).mp hd))
      · obtain ⟨t, ⟨ht, hmem⟩ | ⟨ht, hmem⟩⟩ := (mem_chosen _ _).mp hd
        · exact (hm ht hi hj).mp (by simpa using hmem)
        · have hu : VarUnd g v u :=
            (at_iff hj hi).mp ((hr.undirected j i).mp (List.mem_of_getElem? ht)).2
          have hadj := (hH.adj v u).mpr (Or.inr (Or.inr hu))
          refine hadj.resolve_left fun hvu => hmem ?_
          simpa using (hm ht hj hi).mpr hvu
    refine fun u v => ⟨fun huv => ?_, hsub u v⟩
    rcases (hH.adj u v).mp (Or.inl huv) with hd | hd | hd
    · obtain ⟨i, j, hi, hj⟩ := hr.exists_positions hn hd
      exact ⟨i, j, hi, hj, Or.inl ((hr.fixed i j).mpr ((at_iff hi hj).mpr hd))⟩
    · exact absurd (hH.dir v u hd) fun hvu => Dag.asymm huv hvu
    · exact (hr.directs_of_und hn h hd).resolve_right fun hs => Dag.asymm huv (hsub v u hs)
  have hpos {i j : Nat} (hd : sk.Directs m i j) :
      ∃ u v, sk.vars[i]? = some u ∧ sk.vars[j]? = some v := by
    have hlt : i < sk.vars.length ∧ j < sk.vars.length := by
      rcases hd with hd | hd
      · exact ((hr.fixed i j).mp hd).lt
      · obtain ⟨t, ⟨ht, -⟩ | ⟨ht, -⟩⟩ := (mem_chosen _ _).mp hd
        · exact ((hr.undirected i j).mp (List.mem_of_getElem? ht)).2.lt
        · exact ((hr.undirected j i).mp (List.mem_of_getElem? ht)).2.lt.symm
    exact ⟨_, _, List.getElem?_eq_getElem hlt.1, List.getElem?_eq_getElem hlt.2⟩
  refine ⟨m, (hr.mem_leaves hn h).mpr ⟨fun t ht => ?_, fun i hi => ?_, fun i j c hi hj hne hadj => ?_⟩,
    hedge⟩
  · exact Finset.mem_range.mp (Finset.mem_filter.mp ht).1
  · have hpath {i j : Nat} (hij : TransGen (sk.Directs m) i j) : ∀ {u v}, sk.vars[i]? = some u →
        sk.vars[j]? = some v → TransGen H.edge u v := by
      induction hij with
      | single hs => exact fun hu hv => .single ((hedge _ _).mpr ⟨_, _, hu, hv, hs⟩)
      | tail _ hs ih =>
        intro u v hu hv
        obtain ⟨w, -, hw, -⟩ := hpos hs
        exact (ih hu hw).tail ((hedge _ _).mpr ⟨_, _, hw, hv, hs⟩)
    obtain ⟨j, hij, -⟩ := TransGen.head'_iff.mp hi
    obtain ⟨u, -, hu, -⟩ := hpos hij
    exact H.acyclic u (hpath hi hu hu)
  · obtain ⟨u, w, hu, hw⟩ := hpos hi
    obtain ⟨v, -, hv, -⟩ := hpos hj
    have hne' : u ≠ v := by
      rintro rfl
      exact hne (position_unique hnd hu hv)
    refine (hr.fixed i c).mpr ((at_iff hu hw).mpr (hH.collider u w v ((hedge u w).mpr
      ⟨i, c, hu, hw, hi⟩) ((hedge v w).mpr ⟨j, c, hv, hw, hj⟩) hne' fun ha => hadj ?_))
    exact (hr.adjacent i j).mpr ((at_iff hu hv).mpr ha)

theorem Reads.mem_mask_iff {t : Nat} (ht : sk.undirected[t]? = some (i, j))
    (hi : sk.vars[i]? = some u) (hj : sk.vars[j]? = some v) :
    t ∈ m ↔ Spread sk.vars (sk.Directs m) u v := by
  rw [spread_iff (hr.vars_nodup h) hi hj]
  have hmem := List.mem_of_getElem? ht
  obtain ⟨hij, -⟩ := (hr.undirected i j).mp hmem
  have hf : (i, j) ∉ sk.fixed := ((hr.fresh hn h).notFixed (i, j) hmem).1
  constructor
  · exact fun htm => Or.inr ((mem_chosen _ _).mpr ⟨t, Or.inl ⟨ht, by simpa using htm⟩⟩)
  · rintro (hd | hd)
    · exact absurd hd hf
    · obtain ⟨t', ⟨ht', hmem'⟩ | ⟨ht', -⟩⟩ := (mem_chosen _ _).mp hd
      · obtain ⟨h1, h2⟩ := List.getElem?_eq_some_iff.mp ht
        obtain ⟨h3, h4⟩ := List.getElem?_eq_some_iff.mp ht'
        have : t = t' := (List.Nodup.getElem_inj_iff hr.undirected_nodup).mp (h2.trans h4.symm)
        simpa [this] using hmem'
      · have := ((hr.undirected j i).mp (List.mem_of_getElem? ht')).1
        omega

/-- **Two leaves direct alike only if they are one.** -/
theorem Reads.leaf_unique (hm : m ∈ sk.leaves) (hm' : m' ∈ sk.leaves)
    (heq : ∀ u v, Spread sk.vars (sk.Directs m) u v ↔ Spread sk.vars (sk.Directs m') u v) :
    m = m' := by
  have hlt := ((hr.mem_leaves hn h).mp hm).1
  have hlt' := ((hr.mem_leaves hn h).mp hm').1
  have hsame {t : Nat} (ht : t < sk.undirected.length) : t ∈ m ↔ t ∈ m' := by
    have hget := List.getElem?_eq_getElem ht
    obtain ⟨-, hat⟩ := (hr.undirected (sk.undirected[t]).1 (sk.undirected[t]).2).mp
      (List.getElem_mem ht)
    obtain ⟨u, v, hu, hv, -⟩ := hat
    rw [hr.mem_mask_iff hn h hget hu hv, hr.mem_mask_iff hn h hget hu hv]
    exact heq u v
  ext t
  exact ⟨fun ht => (hsame (hlt t ht)).mp ht, fun ht => (hsame (hlt' t ht)).mpr ht⟩

end Reading

end Antecedent.Identify.CpdagCompletion
