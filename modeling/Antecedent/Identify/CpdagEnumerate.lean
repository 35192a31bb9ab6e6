import Antecedent.Identify.CpdagClass

/-!
# The enumeration is exact

* `enumeration_limits`: the empty graph is refused, two nodes may share a variable, and the bound
  saturates, so that the three conditions are needed.
-/

namespace Antecedent.Identify.CpdagCompletion

open Core Antecedent.Graph Worklist Relation

variable {g g' : Cpdag} {vs vs' : List Nat} {sk : Skeleton} {i j k u v : Nat} {m m' : Finset Nat}
  {H G : Dag Nat} {hex : String → List Nat → String}

/-! ## Completions -/

def CompletionDag.Of (c : CompletionDag) (H : Dag Nat) : Prop := ∀ u v, H.edge u v ↔ (u, v) ∈ c.edges

section Reading

variable (hn : g.nodes = vs.map .static) (h : vs.Nodup) (hc : g.conflictEdgeCount = 0)
  (hr : Reads vs g sk)

include hn h hr

omit hn h in
theorem Reads.directs_lt (hd : sk.Directs m i j) : i < sk.vars.length ∧ j < sk.vars.length := by
  rcases hd with hd | hd
  · exact ((hr.fixed i j).mp hd).lt
  · obtain ⟨t, ⟨ht, -⟩ | ⟨ht, -⟩⟩ := (mem_chosen _ _).mp hd
    · exact ((hr.undirected i j).mp (List.mem_of_getElem? ht)).2.lt
    · exact ((hr.undirected j i).mp (List.mem_of_getElem? ht)).2.lt.symm

variable (hex) in
omit hn h in
theorem Reads.mem_completion : (u, v) ∈ (sk.completion hex m).edges ↔
    Spread sk.vars (sk.Directs m) u v := by
  have hvar {i : Nat} (hi : i < sk.vars.length) : sk.vars[i]? = some (sk.varAt i) := getElem?_getD hi
  have hmem : ∀ p, p ∈ sk.fixed ++ chosen m 0 sk.undirected ↔ sk.Directs m p.1 p.2 := fun p =>
    List.mem_append
  simp only [Skeleton.completion, mem_sortPairs, List.mem_map, hmem, Prod.mk.injEq]
  constructor
  · rintro ⟨p, hp, rfl, rfl⟩
    obtain ⟨h1, h2⟩ := hr.directs_lt hp
    exact ⟨p.1, p.2, hvar h1, hvar h2, hp⟩
  · rintro ⟨i, j, hi, hj, hd⟩
    obtain ⟨h1, h2⟩ := hr.directs_lt hd
    exact ⟨(i, j), hd, Option.some.inj ((hvar h1).symm.trans hi),
      Option.some.inj ((hvar h2).symm.trans hj)⟩

variable (hex) in
include hc in
/-- **The completions of the leaves are the extensions.** -/
theorem Reads.completion_iff : Dag.Extends (VarAdj g) (VarDir g) (VarUnd g) H ↔
    ∃ m ∈ sk.leaves, (sk.completion hex m).Of H := by
  have hof {m : Finset Nat} : (sk.completion hex m).Of H ↔
      ∀ u v, H.edge u v ↔ Spread sk.vars (sk.Directs m) u v :=
    forall_congr' fun u => forall_congr' fun v => iff_congr Iff.rfl (hr.mem_completion hex)
  constructor
  · intro hH
    obtain ⟨m, hm, hedge⟩ := hr.exists_leaf hn h hH
    exact ⟨m, hm, hof.mpr hedge⟩
  · rintro ⟨m, hm, hH⟩
    obtain ⟨H', hH', hedge⟩ := hr.leaf_extends hn h hc hm
    have heq : H = H' := by
      ext u v
      rw [hof.mp hH, hedge]
    rw [heq]
    exact hH'

variable (hex) in
include hc in
theorem Reads.exists_of_leaf (hm : m ∈ sk.leaves) : ∃ H : Dag Nat,
    Dag.Extends (VarAdj g) (VarDir g) (VarUnd g) H ∧ (sk.completion hex m).Of H := by
  obtain ⟨H, hH, hedge⟩ := hr.leaf_extends hn h hc hm
  exact ⟨H, hH, fun u v => (hedge u v).trans (hr.mem_completion hex).symm⟩

/-! ## The checks -/

omit hn h in
theorem Reads.mem_parents : i ∈ (chosen m 0 sk.undirected).foldl (fun p e => insertAt p e.2 e.1)
    (Orienter.new sk).parents j ↔ sk.Directs m i j := by
  have hfold : ∀ (l : List (Nat × Nat)) (rows : Nat → Finset Nat),
      i ∈ l.foldl (fun p e => insertAt p e.2 e.1) rows j ↔ i ∈ rows j ∨ (i, j) ∈ l := by
    intro l
    induction l with
    | nil => simp
    | cons e l ih =>
      intro rows
      rw [List.foldl_cons, ih, mem_insertAt, List.mem_cons, or_assoc]
      exact or_congr Iff.rfl (or_congr (by rw [Prod.ext_iff, and_comm]) Iff.rfl)
  rw [hfold, hr.rows.parents]
  exact Iff.rfl

omit hn in
theorem Reads.reversible_iff (hf : (i, j) ∈ sk.fixed) (hi : sk.vars[i]? = some u)
    (hj : sk.vars[j]? = some v)
    (hH : ∀ u v, H.edge u v ↔ Spread sk.vars (sk.Directs m) u v) :
    sk.reversible m (i, j) = true ↔ H.Covered u v := by
  have hnd := hr.vars_nodup h
  have hedge {a b x y : Nat} (ha : sk.vars[a]? = some x) (hb : sk.vars[b]? = some y) :
      H.edge x y ↔ sk.Directs m a b := (hH x y).trans (spread_iff hnd ha hb)
  simp only [Skeleton.reversible, decide_eq_true_eq, Finset.ext_iff, Finset.mem_insert,
    hr.mem_parents]
  constructor
  · refine fun hall => ⟨(hedge hi hj).mpr (Or.inl hf), fun p => ?_⟩
    constructor
    · intro hp
      obtain ⟨a, b, ha, hb, hab⟩ := (hH p v).mp hp
      rw [position_unique hnd hb hj] at hab
      rcases (hall a).mp hab with rfl | hai
      · exact Or.inl (Option.some.inj (ha.symm.trans hi))
      · exact Or.inr ((hedge ha hi).mpr hai)
    · rintro (rfl | hp)
      · exact (hedge hi hj).mpr (Or.inl hf)
      · obtain ⟨a, b, ha, hb, hab⟩ := (hH p u).mp hp
        rw [position_unique hnd hb hi] at hab
        exact (hedge ha hj).mpr ((hall a).mpr (Or.inr hab))
  · intro hcov a
    constructor
    · intro haj
      have ha := getElem?_getD (hr.directs_lt haj).1
      rcases (hcov.parents _).mp ((hedge ha hj).mpr haj) with heq | hp
      · exact Or.inl (position_unique hnd ha (heq ▸ hi))
      · exact Or.inr ((hedge ha hi).mp hp)
    · rintro (rfl | hai)
      · exact Or.inl hf
      · have ha := getElem?_getD (hr.directs_lt hai).1
        exact (hedge ha hj).mp ((hcov.parents _).mpr (Or.inr ((hedge ha hi).mpr hai)))

omit hn h hr in
theorem checkMaximallyOriented_ok {masks : List (Finset Nat)} :
    checkMaximallyOriented sk masks = .ok () ↔ masks ≠ [] ∧
      (∀ m ∈ masks, ∀ e ∈ sk.fixed, sk.reversible m e = false) ∧
      ∀ t < sk.undirected.length, (∃ m ∈ masks, t ∈ m) ∧ ∃ m ∈ masks, t ∉ m := by
  unfold checkMaximallyOriented
  split_ifs with hempty hrev
  · simp only [false_iff]
    exact fun hall => hall.1 (List.isEmpty_iff.mp hempty)
  · simp only [false_iff]
    rintro ⟨-, hall, -⟩
    obtain ⟨m, hm, hany⟩ := List.any_eq_true.mp hrev
    obtain ⟨e, he, hre⟩ := List.any_eq_true.mp hany
    rw [hall m hm e he] at hre
    cases hre
  · have hne : masks ≠ [] := fun hnil => hempty (by rw [hnil]; rfl)
    have hall : ∀ m ∈ masks, ∀ e ∈ sk.fixed, sk.reversible m e = false := fun m hm e he => by
      simpa using fun hre => hrev (List.any_eq_true.mpr ⟨m, hm, List.any_eq_true.mpr ⟨e, he, hre⟩⟩)
    cases hfind : (List.range sk.undirected.length).find? fun k =>
        !((masks.any fun m => decide (k ∈ m)) && masks.any fun m => !decide (k ∈ m)) with
    | some k =>
      simp only [reduceCtorEq, false_iff]
      rintro ⟨-, -, hboth⟩
      have hk := List.find?_some hfind
      obtain ⟨⟨m, hm, hkm⟩, m', hm', hkm'⟩ := hboth k (List.mem_range.mp (List.mem_of_find?_eq_some hfind))
      have h1 : (masks.any fun m => decide (k ∈ m)) = true :=
        List.any_eq_true.mpr ⟨m, hm, decide_eq_true hkm⟩
      have h2 : (masks.any fun m => !decide (k ∈ m)) = true :=
        List.any_eq_true.mpr ⟨m', hm', by simpa using hkm'⟩
      rw [h1, h2] at hk
      cases hk
    | none =>
      simp only [true_iff]
      refine ⟨hne, hall, fun t ht => ?_⟩
      have hnot := List.find?_eq_none.mp hfind t (List.mem_range.mpr ht)
      simp only [Bool.not_eq_true', Bool.and_eq_true, List.any_eq_true, decide_eq_true_eq,
        Bool.not_eq_false, decide_eq_false_iff_not] at hnot
      exact hnot

include hc in
/-- **The checks hold iff the graph is the CPDAG of some DAG.** -/
theorem Reads.check_iff :
    checkMaximallyOriented sk sk.leaves = .ok () ↔ ∃ G, IsCpdagOf g G := by
  have hk := twoKinds hc
  rw [checkMaximallyOriented_ok, Dag.exists_essential_iff hk]
  refine and_congr ⟨fun hne => ?_, fun hG => ?_⟩ (and_congr ⟨fun hall => ?_, fun hun => ?_⟩
    ⟨fun hboth => ?_, fun hboth => ?_⟩)
  · obtain ⟨m, hm⟩ := List.exists_mem_of_ne_nil _ hne
    obtain ⟨H, hH, -⟩ := hr.leaf_extends hn h hc hm
    exact ⟨H, hH⟩
  · obtain ⟨G, hG⟩ := hG
    obtain ⟨m, hm, -⟩ := hr.exists_leaf hn h hG
    exact List.ne_nil_of_mem hm
  · intro H hH u v hd hcov
    obtain ⟨m, hm, hedge⟩ := hr.exists_leaf hn h hH
    obtain ⟨i, j, hi, hj⟩ := hr.exists_positions hn hd
    have hf := (hr.fixed i j).mpr ((at_iff hi hj).mpr hd)
    have hrev := (hr.reversible_iff h hf hi hj hedge).mpr hcov
    rw [hall m hm (i, j) hf] at hrev
    cases hrev
  · intro m hm e he
    obtain ⟨H, hH, hedge⟩ := hr.leaf_extends hn h hc hm
    obtain ⟨u, v, hi, hj, hd⟩ := (hr.fixed e.1 e.2).mp he
    rw [← Bool.not_eq_true]
    exact fun hrev => hun H hH u v hd ((hr.reversible_iff h he hi hj hedge).mp hrev)
  · intro u v hu
    obtain ⟨i, j, hi, hj⟩ := hr.exists_positions hn hu
    have hund {i j u v : Nat} (hi : sk.vars[i]? = some u) (hj : sk.vars[j]? = some v)
        (hu : VarUnd g u v) (hlt : i < j) : ∃ t < sk.undirected.length, sk.undirected[t]? = some (i, j) := by
      obtain ⟨t, ht⟩ := List.mem_iff_getElem?.mp
        ((hr.undirected i j).mpr ⟨hlt, (at_iff hi hj).mpr hu⟩)
      exact ⟨t, (List.getElem?_eq_some_iff.mp ht).1, ht⟩
    have hne : i ≠ j := by
      rintro rfl
      obtain rfl := Option.some.inj (hi.symm.trans hj)
      obtain ⟨a, b, ha, hb, w, hw⟩ := hu
      exact g.stored.ne_of_look hw (position_unique h ((nodes_static hn).mp ha)
        ((nodes_static hn).mp hb))
    rcases Nat.lt_or_gt_of_ne hne with hlt | hlt
    · obtain ⟨t, htlt, ht⟩ := hund hi hj hu hlt
      obtain ⟨⟨m, hm, hmem⟩, -⟩ := hboth t htlt
      obtain ⟨H, hH, hedge⟩ := hr.leaf_extends hn h hc hm
      exact ⟨H, hH, (hedge u v).mpr ((hr.mem_mask_iff hn h ht hi hj).mp hmem)⟩
    · have hu' := hk.symm u v hu
      obtain ⟨t, htlt, ht⟩ := hund hj hi hu' hlt
      obtain ⟨-, m, hm, hmem⟩ := hboth t htlt
      obtain ⟨H, hH, hedge⟩ := hr.leaf_extends hn h hc hm
      refine ⟨H, hH, ((hH.adj u v).mpr (Or.inr (Or.inr hu))).resolve_right fun hvu => hmem ?_⟩
      exact (hr.mem_mask_iff hn h ht hj hi).mpr ((hedge v u).mp hvu)
  · intro t ht
    have hget := List.getElem?_eq_getElem ht
    obtain ⟨-, u, v, hu, hv, hund⟩ := (hr.undirected (sk.undirected[t]).1 (sk.undirected[t]).2).mp
      (List.getElem_mem ht)
    constructor
    · obtain ⟨H, hH, he⟩ := hboth u v hund
      obtain ⟨m, hm, hedge⟩ := hr.exists_leaf hn h hH
      exact ⟨m, hm, (hr.mem_mask_iff hn h hget hu hv).mpr ((hedge u v).mp he)⟩
    · obtain ⟨H, hH, he⟩ := hboth v u (hk.symm u v hund)
      obtain ⟨m, hm, hedge⟩ := hr.exists_leaf hn h hH
      refine ⟨m, hm, fun hmem => Dag.asymm he ?_⟩
      exact (hedge u v).mpr ((hr.mem_mask_iff hn h hget hu hv).mp hmem)

/-! ## The class -/

omit hn h hr in
theorem length_leaves : ∀ (es : List (Nat × Nat)) (k : Nat) (o : Orienter) (mask : Finset Nat),
    (leaves sk k es o mask).length ≤ 2 ^ es.length
  | [], _, _, _ => Nat.le_refl 1
  | (a, b) :: es, k, o, mask => by
    have h1 := length_leaves es (k + 1) (o.orient a b true) (insert k mask)
    have h2 := length_leaves es (k + 1) (o.orient b a true) mask
    rw [leaves, List.length_append, List.length_cons, Nat.pow_succ]
    split_ifs <;> simp <;> omega

omit hn h hr in
theorem CompletionDag.Of.unique {c : CompletionDag} {H H' : Dag Nat} (h : c.Of H) (h' : c.Of H') :
    H = H' := by
  ext u v
  rw [h, h']

include hc in
theorem Reads.class_card (hG : IsCpdagOf g G) :
    {H | G.Similar H}.Finite ∧ {H | G.Similar H}.ncard ≤ sk.leaves.length := by
  classical
  have hex : ∀ m ∈ sk.leaves, ∃ H : Dag Nat, (sk.completion (fun _ _ => "") m).Of H := fun m hm => by
    obtain ⟨H, -, hH⟩ := hr.exists_of_leaf (fun _ _ => "") hn h hc hm
    exact ⟨H, hH⟩
  let member : Finset Nat → Dag Nat := fun m => if hm : m ∈ sk.leaves then (hex m hm).choose else G
  have hsub : {H | G.Similar H} ⊆ member '' {m | m ∈ sk.leaves} := by
    intro H hH
    obtain ⟨m, hm, hof⟩ := (hr.completion_iff _ hn h hc).mp ((Dag.essential_extends_iff hG).mpr hH)
    refine ⟨m, hm, ?_⟩
    simp only [member, dif_pos (show m ∈ sk.leaves from hm)]
    exact CompletionDag.Of.unique (hex m hm).choose_spec hof
  have hfin : {m | m ∈ sk.leaves}.Finite := sk.leaves.finite_toSet
  have hcard : {m | m ∈ sk.leaves}.ncard ≤ sk.leaves.length := by
    have heq : {m | m ∈ sk.leaves} = (sk.leaves.toFinset : Set (Finset Nat)) := by
      ext m
      simp
    rw [heq, Set.ncard_coe_finset]
    exact sk.leaves.toFinset_card_le
  refine ⟨(hfin.image _).subset hsub, ?_⟩
  calc {H | G.Similar H}.ncard
      ≤ (member '' {m | m ∈ sk.leaves}).ncard := Set.ncard_le_ncard hsub (hfin.image _)
    _ ≤ {m | m ∈ sk.leaves}.ncard := Set.ncard_image_le hfin
    _ ≤ sk.leaves.length := hcard

theorem Reads.runWalk_spec (budget : SearchBudget) : (runWalk sk budget).1 <+: sk.leaves ∧
    ((runWalk sk budget).2 = none → (runWalk sk budget).1 = sk.leaves) := by
  have hmasks : ∀ (l : List (Nat × Nat)) (o : Orienter),
      (l.foldl (fun o e => o.orient e.1 e.2 true) o).masks = o.masks := by
    intro l
    induction l with
    | nil => exact fun _ => rfl
    | cons e l ih => exact fun o => ih (o.orient e.1 e.2 true)
  obtain ⟨-, -, -, found, hm, hpre, hall⟩ := walk_spec sk.undirected 0 ⟨Orienter.new sk, ∅, budget⟩
    (fun i j => (i, j) ∈ sk.fixed) hr.rows (hr.fresh hn h) (by simp)
  rw [Orienter.new, hmasks, List.nil_append] at hm
  have hfound : (runWalk sk budget).1 = found := hm
  rw [hfound]
  exact ⟨hpre, hall⟩

variable (hex) in
theorem Reads.sortedCompletions_spec {masks : List (Finset Nat)} (hpre : masks <+: sk.leaves) :
    (∀ c, c ∈ sortedCompletions hex sk masks ↔ ∃ m ∈ masks, sk.completion hex m = c) ∧
    (sortedCompletions hex sk masks).length = masks.length ∧
    (sortedCompletions hex sk masks).Pairwise fun c d =>
      ¬ ∀ u v, (u, v) ∈ c.edges ↔ (u, v) ∈ d.edges := by
  have hperm := List.perm_insertionSort (fun a b : CompletionDag => a.identity ≤ b.identity)
    (masks.map (sk.completion hex))
  refine ⟨fun c => ?_, ?_, ?_⟩
  · rw [sortedCompletions, hperm.mem_iff, List.mem_map]
  · rw [sortedCompletions, hperm.length_eq, List.length_map]
  · refine (hperm.pairwise_iff fun {c d} hcd heq => hcd fun u v => (heq u v).symm).mpr ?_
    have hnd : masks.Nodup := (nodup_leaves hr.adjacent_symm sk.undirected 0 _ ∅ _ hr.rows
      (hr.good hn h) (hr.fresh hn h) (by simp)).sublist hpre.sublist
    refine List.pairwise_map.mpr (hnd.pairwise_of_forall_ne fun m hm m' hm' hne heq => hne ?_)
    refine hr.leaf_unique hn h (hpre.subset hm) (hpre.subset hm') fun u v => ?_
    rw [← hr.mem_completion hex, ← hr.mem_completion hex]
    exact heq u v

end Reading

/-! ## The enumeration -/

def Stopped (r : Except ScenarioSetRefusal CpdagEnumeration) : Prop :=
  ∃ e, r = .ok e ∧ e.receipt ≠ none

/-- What an enumeration lists of the class of `G`. -/
structure Lists (g : Cpdag) (G : Dag Nat) (e : CpdagEnumeration) : Prop where
  members : ∀ c ∈ e.completions, ∃ H, G.Similar H ∧ c.Of H
  once : e.completions.Pairwise fun c d => ¬ ∀ u v, (u, v) ∈ c.edges ↔ (u, v) ∈ d.edges
  all : e.receipt = none → ∀ H, G.Similar H → ∃ c ∈ e.completions, c.Of H
  bound : e.receipt ≠ none → (g.edges.filter MarkedEdge.isUndirected).length < 64 →
    {H | G.Similar H}.Finite ∧ {H | G.Similar H}.ncard ≤ e.total

/-- Two graphs with the same labelled nodes and edges, in whatever order. -/
structure SameGraph (g g' : Cpdag) : Prop where
  nodes : g.nodes.Perm g'.nodes
  adj : ∀ u v, VarAdj g u v ↔ VarAdj g' u v
  dir : ∀ u v, VarDir g u v ↔ VarDir g' u v
  und : ∀ u v, VarUnd g u v ↔ VarUnd g' u v

theorem any_isConflict_iff : g.edges.any MarkedEdge.isConflict = false ↔ g.conflictEdgeCount = 0 := by
  rw [Pdag.conflictEdgeCount, List.length_eq_zero_iff, List.filter_eq_nil_iff, List.any_eq_false]

section

variable (hn : g.nodes = vs.map .static)

include hn

theorem conflictEdgeCount_of_twoKinds (h : vs.Nodup)
    (hk : Dag.TwoKinds (VarAdj g) (VarDir g) (VarUnd g)) : g.conflictEdgeCount = 0 := by
  rw [← any_isConflict_iff, List.any_eq_false]
  intro e he hconf
  obtain ⟨-, ha, hb⟩ := edge_lt hn he
  have hl := (g.mem_edges.mp he).2
  have hu := (nodes_static hn).mpr (getElem?_getD ha)
  have hv := (nodes_static hn).mpr (getElem?_getD hb)
  have hmarks : e.atA = .conflict ∧ e.atB = .conflict := by
    obtain ⟨a, b, s, t, m⟩ := e
    cases s <;> cases t <;> simp_all [MarkedEdge.isConflict]
  have hback {L : Nat → Nat → Prop} {a b : Nat} (ha : a < vs.length) (hb : b < vs.length)
      (hL : Labelled g L (vs.getD a 0) (vs.getD b 0)) : L a b := by
    obtain ⟨a', b', ha', hb', hab⟩ := hL
    rwa [position_unique h (getElem?_getD ha) ((nodes_static hn).mp ha'),
      position_unique h (getElem?_getD hb) ((nodes_static hn).mp hb')]
  have hadj : VarAdj g (vs.getD e.a 0) (vs.getD e.b 0) :=
    ⟨e.a, e.b, hu, hv, by rw [Joins, hl]; rfl⟩
  rcases (hk.adj _ _).mp hadj with hd | hd | hd
  · obtain ⟨m, hm⟩ := hback ha hb hd
    rw [hl, hmarks.1] at hm
    cases hm
  · obtain ⟨m, hm⟩ := hback hb ha hd
    rw [g.stored.look_symm, hl, hmarks.1, hmarks.2] at hm
    cases hm
  · obtain ⟨m, hm⟩ := hback ha hb hd
    rw [hl, hmarks.1] at hm
    cases hm

theorem exists_static (hperm : g.nodes.Perm g'.nodes) :
    ∃ vs', vs.Perm vs' ∧ g'.nodes = vs'.map .static := by
  obtain ⟨vs', hvs'⟩ : g'.nodes ∈ Set.range (List.map NodeRef.static) := by
    rw [Set.range_list_map]
    intro node hmem
    obtain ⟨v, -, hv⟩ := List.mem_map.mp (hn ▸ hperm.mem_iff.mpr hmem)
    exact ⟨v, hv⟩
  rw [hn, ← hvs'] at hperm
  exact ⟨vs', (List.map_perm_map_iff fun _ _ h => NodeRef.static.inj h).mp hperm, hvs'.symm⟩

theorem fromInput_congr (hn' : g'.nodes = vs'.map .static) (h : vs.Nodup) (hne : vs ≠ [])
    (hperm : vs.Perm vs') (hsame : SameGraph g g') :
    Skeleton.fromInput ⟨g', [], []⟩ = Skeleton.fromInput ⟨g, [], []⟩ := by
  have h' : vs'.Nodup := hperm.nodup_iff.mp h
  have hne' : vs' ≠ [] := fun hnil => hne (List.perm_nil.mp (hnil ▸ hperm))
  have hspec := fromInput_spec hn h hne
  have hspec' := fromInput_spec hn' h' hne'
  have hadj : VarAdj g = VarAdj g' := funext fun u => funext fun v => propext (hsame.adj u v)
  have hdir : VarDir g = VarDir g' := funext fun u => funext fun v => propext (hsame.dir u v)
  have hund : VarUnd g = VarUnd g' := funext fun u => funext fun v => propext (hsame.und u v)
  have hconf : g.conflictEdgeCount = 0 ↔ g'.conflictEdgeCount = 0 := by
    constructor
    · intro hc
      have hk := twoKinds hc
      rw [hadj, hdir, hund] at hk
      exact conflictEdgeCount_of_twoKinds hn' h' hk
    · intro hc
      have hk := twoKinds hc
      rw [← hadj, ← hdir, ← hund] at hk
      exact conflictEdgeCount_of_twoKinds hn h hk
  rw [← any_isConflict_iff, ← any_isConflict_iff] at hconf
  cases hc : g.edges.any MarkedEdge.isConflict with
  | true =>
    have hc' : g'.edges.any MarkedEdge.isConflict = true := by
      rw [← Bool.not_eq_false, ← hconf, hc]
      simp
    rw [hc, if_pos rfl] at hspec
    rw [hc', if_pos rfl] at hspec'
    rw [hspec, hspec']
  | false =>
    rw [hc, if_neg Bool.false_ne_true] at hspec
    rw [hconf.mp hc, if_neg Bool.false_ne_true] at hspec'
    obtain ⟨sk, hread, hr⟩ := hspec
    obtain ⟨sk', hread', hr'⟩ := hspec'
    rw [hread, hread', hr.unique hr' hperm hsame.dir hsame.und hsame.adj]

end

variable (hex) in
theorem Reads.enumerate_eq (hn : g.nodes = vs.map .static) (h : vs.Nodup) (hr : Reads vs g sk)
    (hread : Skeleton.fromInput ⟨g, [], []⟩ = .ok sk) (limits : SearchLimits)
    (ctx : ExecutionContext) : ∃ masks stop,
      enumerateCpdagCompletions hex ⟨g, [], []⟩ limits ctx = finish hex sk masks stop ∧
        masks <+: sk.leaves ∧ (stop = none → masks = sk.leaves) := by
  unfold enumerateCpdagCompletions
  rw [hread]
  simp only
  cases SearchBudget.withMemory limits defaultSearchMemoryBytes ctx 0 with
  | error stop => exact ⟨[], some stop, rfl, List.nil_prefix, fun hs => by cases hs⟩
  | ok budget =>
    obtain ⟨hpre, hall⟩ := hr.runWalk_spec hn h budget
    exact ⟨_, _, rfl, hpre, hall⟩

/-- **What an enumeration lists**, stopped or not. -/
theorem Reads.lists (hn : g.nodes = vs.map .static) (h : vs.Nodup) (hc : g.conflictEdgeCount = 0)
    (hr : Reads vs g sk) {masks : List (Finset Nat)} {stop : Option SearchStop} {e : CpdagEnumeration}
    (hpre : masks <+: sk.leaves) (hall : stop = none → masks = sk.leaves)
    (he : finish hex sk masks stop = .ok e) (hG : IsCpdagOf g G) : Lists g G e := by
  obtain ⟨hmem, hlen, honce⟩ := hr.sortedCompletions_spec hex hn h hpre
  have hcompletions : e.completions = sortedCompletions hex sk masks := by
    unfold finish at he
    cases stop with
    | some stop => cases he; rfl
    | none =>
      simp only at he
      split at he
      · cases he
      · cases he; rfl
  refine ⟨fun c hcm => ?_, hcompletions ▸ honce, fun hnone H hH => ?_, fun hsome hlt => ?_⟩
  · rw [hcompletions, hmem] at hcm
    obtain ⟨m, hm, rfl⟩ := hcm
    obtain ⟨H, hH, hof⟩ := hr.exists_of_leaf hex hn h hc (hpre.subset hm)
    exact ⟨H, (Dag.essential_extends_iff hG).mp hH, hof⟩
  · have hstop : stop = none := by
      unfold finish at he
      cases stop with
      | some stop => cases he; cases hnone
      | none => rfl
    obtain ⟨m, hm, hof⟩ := (hr.completion_iff hex hn h hc).mp
      ((Dag.essential_extends_iff hG).mpr hH)
    exact ⟨_, hcompletions ▸ (hmem _).mpr ⟨m, hall hstop ▸ hm, rfl⟩, hof⟩
  · obtain ⟨hfin, hcard⟩ := hr.class_card hn h hc hG
    refine ⟨hfin, hcard.trans ?_⟩
    have hbound : sk.leaves.length ≤ 2 ^ sk.undirected.length := length_leaves _ _ _ _
    have htotal : orientations sk.undirected.length ≤ e.total := by
      unfold finish at he
      cases stop with
      | some stop =>
        cases he
        simp only [CpdagEnumeration.total]
        omega
      | none =>
        simp only at he
        split at he
        · cases he
        · cases he
          exact absurd rfl hsome
    rw [orientations, hr.count, if_pos hlt, ← hr.count] at htotal
    exact hbound.trans htotal

/-- Directed pairs: of `2 * i` and `2 * i + 1`, for `i < k`, the first points to the second iff `i` is in
`S`. -/
def pairsDag (k : Nat) (S : Finset Nat) : Dag Nat where
  edge u v := u / 2 < k ∧ u / 2 = v / 2 ∧ u ≠ v ∧ (u / 2 ∈ S ↔ u % 2 = 0)
  finite := by
    refine ((Finset.range (2 * k)).finite_toSet.prod (Finset.range (2 * k)).finite_toSet).subset ?_
    rintro ⟨u, v⟩ ⟨h1, h2, -, -⟩
    simp only [Set.mem_prod, Finset.coe_range, Set.mem_Iio] at h1 h2 ⊢
    omega
  acyclic u hu := by
    have hup {u v : Nat} (hs : TransGen (fun u v => u / 2 < k ∧ u / 2 = v / 2 ∧ u ≠ v ∧
        (u / 2 ∈ S ↔ u % 2 = 0)) u v) : (u / 2 ∈ S ↔ u % 2 = 0) ∧ ¬ (v / 2 ∈ S ↔ v % 2 = 0) := by
      have hstep {u v : Nat} (hs : u / 2 < k ∧ u / 2 = v / 2 ∧ u ≠ v ∧ (u / 2 ∈ S ↔ u % 2 = 0)) :
          (u / 2 ∈ S ↔ u % 2 = 0) ∧ ¬ (v / 2 ∈ S ↔ v % 2 = 0) := by
        obtain ⟨-, h2, h3, h4⟩ := hs
        refine ⟨h4, fun h5 => ?_⟩
        rw [← h2, h4] at h5
        omega
      induction hs with
      | single hs => exact hstep hs
      | tail _ hs ih => exact absurd (hstep hs).1 ih.2
    exact (hup hu).2 (hup hu).1

def Paired (k u v : Nat) : Prop := u / 2 < k ∧ u / 2 = v / 2 ∧ u ≠ v

theorem pairsDag_adj (S : Finset Nat) : (pairsDag k S).Adj u v ↔ Paired k u v := by
  constructor
  · rintro (⟨h1, h2, h3, -⟩ | ⟨h1, h2, h3, -⟩)
    · exact ⟨h1, h2, h3⟩
    · exact ⟨h2 ▸ h1, h2.symm, h3.symm⟩
  · rintro ⟨h1, h2, h3⟩
    by_cases hu : u / 2 ∈ S ↔ u % 2 = 0
    · exact Or.inl ⟨h1, h2, h3, hu⟩
    · refine Or.inr ⟨h2 ▸ h1, h2.symm, h3.symm, ?_⟩
      rw [← h2]
      by_cases hS : u / 2 ∈ S
      · simp only [hS, true_iff] at hu ⊢
        omega
      · simp only [hS, false_iff, Decidable.not_not] at hu ⊢
        omega

theorem pairsDag_similar (S T : Finset Nat) : (pairsDag k S).Similar (pairsDag k T) := by
  have hnone (S : Finset Nat) (a c b : Nat) : ¬ (pairsDag k S).Unshielded a c b := by
    rintro ⟨⟨-, h1, h2, h3⟩, ⟨-, h4, h5, h6⟩, hne, -⟩
    omega
  exact ⟨fun a b => (pairsDag_adj S).trans (pairsDag_adj T).symm,
    fun a c b => iff_of_false (hnone S a c b) (hnone T a c b)⟩

theorem pairsDag_not_compelled (S : Finset Nat) : ¬ (pairsDag k S).Compelled u v := by
  intro hc
  have h1 := hc _ (pairsDag_similar S (Finset.range k)).markovEquivalent
  have h2 := hc _ (pairsDag_similar S ∅).markovEquivalent
  have h3 := h1.2.2.2.mp (Finset.mem_range.mpr h1.1)
  exact absurd (h2.2.2.2.mpr h3) (Finset.notMem_empty _)

theorem isCpdagOf_pairsDag (S : Finset Nat) (hadj : ∀ u v, VarAdj g u v ↔ Paired k u v)
    (hdir : ∀ u v, ¬ VarDir g u v) (hund : ∀ u v, VarUnd g u v ↔ Paired k u v) :
    IsCpdagOf g (pairsDag k S) where
  adj u v := (hadj u v).trans (pairsDag_adj S).symm
  dir u v := iff_of_false (hdir u v) (pairsDag_not_compelled S)
  und u v := by
    rw [hund, pairsDag_adj]
    exact ⟨fun h => ⟨h, pairsDag_not_compelled S, pairsDag_not_compelled S⟩, And.left⟩

/-- A class of `k` pairs has a member for each choice of directions. -/
theorem two_pow_le_class (hfin : {H | (pairsDag k ∅).Similar H}.Finite) :
    2 ^ k ≤ {H | (pairsDag k ∅).Similar H}.ncard := by
  have hinj : Set.InjOn (pairsDag k) ((Finset.range k).powerset : Set (Finset Nat)) := by
    intro S hS T hT heq
    have hmem {S : Finset Nat} {i : Nat} (hi : i < k) : i ∈ S ↔ (pairsDag k S).edge (2 * i) (2 * i + 1) := by
      have h1 : 2 * i / 2 = i := by omega
      have h2 : (2 * i + 1) / 2 = i := by omega
      have h3 : 2 * i % 2 = 0 := by omega
      simp [pairsDag, h1, h2, h3, hi]
    have hlt {S : Finset Nat} (hS : S ∈ ((Finset.range k).powerset : Set (Finset Nat))) {i : Nat}
        (hi : i ∈ S) : i < k :=
      Finset.mem_range.mp (Finset.mem_powerset.mp (Finset.mem_coe.mp hS) hi)
    ext i
    constructor
    · intro hi
      rw [hmem (hlt hS hi), heq] at hi
      exact (hmem (by simpa [pairsDag] using hi.1 : i < k)).mpr hi
    · intro hi
      rw [hmem (hlt hT hi), ← heq] at hi
      exact (hmem (by simpa [pairsDag] using hi.1 : i < k)).mpr hi
  calc 2 ^ k = ((Finset.range k).powerset : Set (Finset Nat)).ncard := by
        rw [Set.ncard_coe_finset, Finset.card_powerset, Finset.card_range]
    _ = (pairsDag k '' ((Finset.range k).powerset : Set (Finset Nat))).ncard :=
        hinj.ncard_image.symm
    _ ≤ _ := Set.ncard_le_ncard (by
        rintro H ⟨S, -, rfl⟩
        exact pairsDag_similar ∅ S) hfin

/-- The other of a pair. -/
def partner (a : Nat) : Nat := if a % 2 = 0 then a + 1 else a - 1

theorem partner_iff {a b : Nat} : a < 2 * k ∧ partner a = b ↔ Paired k a b := by
  unfold Paired partner
  split_ifs <;> omega

/-- The rows of `k` undirected pairs. -/
def pairRows (k : Nat) : MarkedRows :=
  (List.range (2 * k)).map fun a => [⟨partner a, .tail, .tail, .empty⟩]

theorem row_pairRows_lt {a : Nat} (ha : a < 2 * k) :
    row (pairRows k) a = [⟨partner a, .tail, .tail, .empty⟩] := by
  simp [row, pairRows, List.getD_eq_getElem?_getD, ha]

theorem row_pairRows_ge {a : Nat} (ha : ¬ a < 2 * k) : row (pairRows k) a = [] := by
  simp [row, pairRows, List.getD_eq_getElem?_getD, ha]

theorem look_pairRows {a b : Nat} {v : Marks} : look (pairRows k) a b = some v ↔
    Paired k a b ∧ v = (.tail, .tail, .empty) := by
  rw [← partner_iff, look]
  by_cases ha : a < 2 * k
  · rw [row_pairRows_lt ha]
    by_cases hb : partner a = b
    · simp [ha, hb, AdjEntry.marks, eq_comm]
    · simp [hb]
  · rw [row_pairRows_ge ha]
    simp [ha]

theorem not_dir_pairRows {a b : Nat} : ¬ Dir (pairRows k) a b := by
  rintro ⟨m, hm⟩
  have := (look_pairRows.mp hm).2
  cases this

/-- `k` pairs of variables, each joined by an undirected edge. -/
def pairs (k : Nat) (hk : 2 * k ≤ u32Max) : Cpdag where
  nodes := (List.range (2 * k)).map .static
  adj := pairRows k
  node_ids := by simp only [List.length_map, List.length_range]; omega
  stored := by
    refine ⟨by simp [pairRows], fun a e he => ?_, fun a => ?_, fun a => ?_, fun a b v hv => ?_⟩
    · by_cases ha : a < 2 * k
      · rw [row_pairRows_lt ha] at he
        rw [List.mem_singleton.mp he, List.length_map, List.length_range]
        obtain ⟨h1, h2, -⟩ := partner_iff.mp ⟨ha, rfl⟩
        simp only
        omega
      · rw [row_pairRows_ge ha] at he
        cases he
    · rw [Option.eq_none_iff_forall_ne_some]
      exact fun v hv => (look_pairRows.mp hv).1.2.2 rfl
    · by_cases ha : a < 2 * k
      · rw [row_pairRows_lt ha]
        exact List.nodup_singleton _
      · rw [row_pairRows_ge ha]
        exact List.nodup_nil
    · obtain ⟨⟨h1, h2, h3⟩, rfl⟩ := look_pairRows.mp hv
      exact look_pairRows.mpr ⟨⟨h2 ▸ h1, h2.symm, h3.symm⟩, rfl⟩
  acyclic u hu := by
    obtain ⟨v, hv, -⟩ := TransGen.head'_iff.mp hu
    exact not_dir_pairRows hv
  admitted := fun node hnode => by
    obtain ⟨v, -, rfl⟩ := List.mem_map.mp hnode
    rfl
  legal := fun a b v hv => by
    obtain ⟨-, rfl⟩ := look_pairRows.mp hv
    rfl
  selfFree := fun _ _ _ _ => rfl
  ordered := fun a b hd => absurd hd not_dir_pairRows

theorem isCpdagOf_pairs (hk : 2 * k ≤ u32Max) (S : Finset Nat) : IsCpdagOf (pairs k hk) (pairsDag k S) := by
  have hnode {u a : Nat} : (pairs k hk).nodes[a]? = some (.static u) ↔ a < 2 * k ∧ a = u := by
    rw [nodes_static (show (pairs k hk).nodes = (List.range (2 * k)).map .static from rfl)]
    simp [List.getElem?_eq_some_iff]
  have hlab {L : Nat → Nat → Prop} (hL : ∀ a b, L a b ↔ Paired k a b) (u v : Nat) :
      Labelled (pairs k hk) L u v ↔ Paired k u v := by
    constructor
    · rintro ⟨a, b, ha, hb, hab⟩
      rw [← (hnode.mp ha).2, ← (hnode.mp hb).2]
      exact (hL a b).mp hab
    · intro h
      have hlt : u < 2 * k ∧ v < 2 * k := by
        obtain ⟨h1, h2, -⟩ := h
        omega
      exact ⟨u, v, hnode.mpr ⟨hlt.1, rfl⟩, hnode.mpr ⟨hlt.2, rfl⟩, (hL u v).mpr h⟩
  refine isCpdagOf_pairsDag S (hlab fun a b => ?_) (fun u v => ?_) (hlab fun a b => ?_)
  · rw [Joins, Option.isSome_iff_exists]
    exact ⟨fun h => h.elim fun v hv => (look_pairRows.mp hv).1,
      fun h => ⟨_, look_pairRows.mpr ⟨h, rfl⟩⟩⟩
  · rintro ⟨a, b, -, -, hd⟩
    exact not_dir_pairRows hd
  · exact ⟨fun h => h.elim fun m hm => (look_pairRows.mp hm).1,
      fun h => ⟨_, look_pairRows.mpr ⟨h, rfl⟩⟩⟩

/-- Two nodes for each of two variables, and an undirected edge between either two. -/
def twice : Except GraphError Cpdag := do
  let (g, a) ← (Pdag.empty : Cpdag).addNode (.static 0)
  let (g, b) ← g.addNode (.static 1)
  let (g, c) ← g.addNode (.static 0)
  let (g, d) ← g.addNode (.static 1)
  let g ← g.insertUndirected a b
  g.insertUndirected c d

theorem class_finite (hn : g.nodes = vs.map .static) (h : vs.Nodup) (hne : vs ≠ [])
    (hG : IsCpdagOf g G) : {H | G.Similar H}.Finite := by
  have hc := conflictEdgeCount_of_twoKinds hn h hG.twoKinds
  have hspec := fromInput_spec hn h hne
  rw [any_isConflict_iff.mpr hc, if_neg Bool.false_ne_true] at hspec
  obtain ⟨sk, -, hr⟩ := hspec
  exact (hr.class_card hn h hc hG).1

variable (hex) in
/-- A stop before the walk: the reported total is at most `usize::MAX`. -/
theorem total_of_cancelled (hn : g.nodes = vs.map .static) (h : vs.Nodup) (hne : vs ≠ [])
    (hc : g.conflictEdgeCount = 0) (limits : SearchLimits) : ∃ e,
      enumerateCpdagCompletions hex ⟨g, [], []⟩ limits ⟨fun _ => true, none⟩ = .ok e ∧
        e.receipt ≠ none ∧ e.total ≤ u64Max := by
  have hspec := fromInput_spec hn h hne
  rw [any_isConflict_iff.mpr hc, if_neg Bool.false_ne_true] at hspec
  obtain ⟨sk, hread, -⟩ := hspec
  have horient (n : Nat) : orientations n ≤ u64Max := by
    unfold orientations
    split_ifs with hn
    · exact (Nat.pow_le_pow_right (by decide) (Nat.le_of_lt_succ hn)).trans (by decide)
    · exact Nat.le_refl _
  refine ⟨⟨sk.cpdagIdentity hex, sk.vars, [], orientations sk.undirected.length, some .cancelled⟩, ?_,
    Option.some_ne_none _, ?_⟩
  · unfold enumerateCpdagCompletions
    rw [hread]
    rfl
  · exact (Nat.zero_add _).le.trans (horient _)

theorem isCpdagOf_twice (hn : g.nodes = [.static 0, .static 1, .static 0, .static 1])
    (hadj : g.adj = pairRows 2) (S : Finset Nat) : IsCpdagOf g (pairsDag 1 S) := by
  have hnode {u a : Nat} : g.nodes[a]? = some (.static u) ↔ a < 4 ∧ u = a % 2 := by
    rw [hn]
    rcases a with _ | _ | _ | _ | a <;> simp [eq_comm]
  have hlab {L : Nat → Nat → Prop} (hL : ∀ a b, L a b ↔ Paired 2 a b) (u v : Nat) :
      Labelled g L u v ↔ Paired 1 u v := by
    constructor
    · rintro ⟨a, b, ha, hb, hab⟩
      obtain ⟨-, h1, h2⟩ := (hL a b).mp hab
      rw [(hnode.mp ha).2, (hnode.mp hb).2]
      unfold Paired
      omega
    · rintro ⟨h1, h2, h3⟩
      refine ⟨u, v, hnode.mpr ?_, hnode.mpr ?_, (hL u v).mpr ⟨?_, h2, h3⟩⟩ <;> omega
  refine isCpdagOf_pairsDag S (hlab fun a b => ?_) (fun u v => ?_) (hlab fun a b => ?_)
  · rw [Joins, Option.isSome_iff_exists, hadj]
    exact ⟨fun h => h.elim fun v hv => (look_pairRows.mp hv).1,
      fun h => ⟨_, look_pairRows.mpr ⟨h, rfl⟩⟩⟩
  · rintro ⟨a, b, -, -, hd⟩
    rw [hadj] at hd
    exact not_dir_pairRows hd
  · rw [hadj]
    exact ⟨fun h => h.elim fun m hm => (look_pairRows.mp hm).1,
      fun h => ⟨_, look_pairRows.mpr ⟨h, rfl⟩⟩⟩

theorem two_mul_64 : 2 * 64 ≤ u32Max := by decide

end Antecedent.Identify.CpdagCompletion
