import Antecedent.Graph.PdagOps
import Antecedent.Identify.CpdagWalk

/-!
# Reading the supplied graph

`Reads` says that a skeleton holds the edges of a graph by the positions of their variables, each list
sorted and without repetition. Over distinct static variables, the reading fails only on a conflict edge
(`fromInput_spec`), and what it reads does not depend on the order of nodes and edges (`Reads.unique`).
-/

namespace Antecedent.Identify.CpdagCompletion

open Core Antecedent.Graph Worklist Relation

variable {g g' : Cpdag} {vs vs' : List Nat} {sk sk' : Skeleton} {n i j u v : Nat}
  {es : List MarkedEdge} {L : Nat → Nat → Prop}

/-- A relation of nodes, between their variables. -/
def Labelled (g : Cpdag) (L : Nat → Nat → Prop) (u v : Nat) : Prop :=
  ∃ a b, g.nodes[a]? = some (.static u) ∧ g.nodes[b]? = some (.static v) ∧ L a b

def Joins (adj : MarkedRows) (a b : Nat) : Prop := (look adj a b).isSome = true

/-- A relation of variables, between their positions. -/
def At (vars : List Nat) (R : Nat → Nat → Prop) (i j : Nat) : Prop :=
  ∃ u v, vars[i]? = some u ∧ vars[j]? = some v ∧ R u v

/-- The skeleton holds the edges of the graph. -/
structure Reads (vs : List Nat) (g : Cpdag) (sk : Skeleton) : Prop where
  vars : sk.vars = vs.insertionSort (· ≤ ·)
  fixed : ∀ i j, (i, j) ∈ sk.fixed ↔ At sk.vars (Labelled g (Dir g.adj)) i j
  undirected : ∀ i j, (i, j) ∈ sk.undirected ↔ i < j ∧ At sk.vars (Labelled g (Und g.adj)) i j
  adjacent : ∀ i j, j ∈ sk.adjacent i ↔ At sk.vars (Labelled g (Joins g.adj)) i j
  fixed_nodup : sk.fixed.Nodup
  undirected_nodup : sk.undirected.Nodup
  fixed_sorted : sk.fixed.Pairwise fun p q => pairLe p q = true
  undirected_sorted : sk.undirected.Pairwise fun p q => pairLe p q = true
  count : sk.undirected.length = (g.edges.filter MarkedEdge.isUndirected).length

/-! ## Positions -/

def position (vs : List Nat) (d : Nat) : Nat := (vs.insertionSort (· ≤ ·)).idxOf (vs.getD d 0)

theorem nodup_sorted (h : vs.Nodup) : (vs.insertionSort (· ≤ ·)).Nodup :=
  (List.perm_insertionSort _ _).nodup_iff.mpr h

variable {d a b : Nat} {l : List (Nat × Nat)} {e : MarkedEdge} {adj : MarkedRows} {σ : Nat → Nat}

theorem getElem?_position (hd : d < vs.length) :
    (vs.insertionSort (· ≤ ·))[position vs d]? = some (vs.getD d 0) := by
  have hmem : vs.getD d 0 ∈ vs.insertionSort (· ≤ ·) := by
    rw [List.mem_insertionSort, List.getD_eq_getElem _ _ hd]
    exact List.getElem_mem hd
  rw [position, List.getElem?_eq_getElem (List.idxOf_lt_length_of_mem hmem), List.getElem_idxOf]

theorem idxOf?_eq_some {x : Nat} : ∀ {l : List Nat}, x ∈ l → l.idxOf? x = some (l.idxOf x)
  | y :: l, h => by
    rw [List.idxOf?_cons, List.idxOf_cons]
    by_cases hy : y = x
    · simp [hy]
    · rw [idxOf?_eq_some ((List.mem_cons.mp h).resolve_left (Ne.symm hy))]
      simp [beq_eq_false_iff_ne.mpr hy]

theorem position_unique {l : List Nat} (h : l.Nodup) (hi : l[i]? = some u) (hj : l[j]? = some u) :
    i = j := by
  obtain ⟨hil, hi⟩ := List.getElem?_eq_some_iff.mp hi
  obtain ⟨hjl, hj⟩ := List.getElem?_eq_some_iff.mp hj
  exact (List.Nodup.getElem_inj_iff h).mp (hi.trans hj.symm)

theorem getElem?_getD (hd : d < vs.length) : vs[d]? = some (vs.getD d 0) := by
  rw [List.getElem?_eq_getElem hd, List.getD_eq_getElem _ _ hd]

theorem position_inj (h : vs.Nodup) (ha : a < vs.length) (hb : b < vs.length)
    (hp : position vs a = position vs b) : a = b := by
  have h1 := getElem?_position ha
  rw [hp, getElem?_position hb] at h1
  exact position_unique h (getElem?_getD ha) ((getElem?_getD hb).trans h1)

theorem nodes_static (hn : g.nodes = vs.map .static) :
    g.nodes[a]? = some (.static u) ↔ vs[a]? = some u := by
  rw [hn, List.getElem?_map, Option.map_eq_some_iff]
  constructor
  · rintro ⟨x, hx, he⟩
    rwa [← NodeRef.static.inj he]
  · exact fun hu => ⟨u, hu, rfl⟩

theorem at_labelled (hn : g.nodes = vs.map .static) (h : vs.Nodup)
    (hL : ∀ a b, L a b → a < vs.length ∧ b < vs.length) :
    At (vs.insertionSort (· ≤ ·)) (Labelled g L) i j ↔
      ∃ a b, L a b ∧ position vs a = i ∧ position vs b = j := by
  have hs := nodup_sorted h
  constructor
  · rintro ⟨u, v, hu, hv, a, b, ha, hb, hab⟩
    have ha' := (nodes_static hn).mp ha
    have hb' := (nodes_static hn).mp hb
    obtain ⟨hal, hbl⟩ := hL a b hab
    have h1 := getElem?_position hal
    have h2 := getElem?_position hbl
    rw [← getElem?_getD hal, ha'] at h1
    rw [← getElem?_getD hbl, hb'] at h2
    exact ⟨a, b, hab, position_unique hs h1 hu, position_unique hs h2 hv⟩
  · rintro ⟨a, b, hab, rfl, rfl⟩
    obtain ⟨hal, hbl⟩ := hL a b hab
    exact ⟨_, _, getElem?_position hal, getElem?_position hbl, a, b,
      (nodes_static hn).mpr (getElem?_getD hal), (nodes_static hn).mpr (getElem?_getD hbl), hab⟩

/-! ## The fold over the edges -/

def rowsAfter (σ : Nat → Nat) (rows : Rows) (es : List MarkedEdge) : Rows where
  fixed := rows.fixed ++ (es.filterMap MarkedEdge.parentChild).map fun p => (σ p.1, σ p.2)
  undirected := rows.undirected ++ (es.filter MarkedEdge.isUndirected).map fun e =>
    (min (σ e.a) (σ e.b), max (σ e.a) (σ e.b))
  adjacent := es.foldl (fun rows e => insertAt (insertAt rows (σ e.a) (σ e.b)) (σ e.b) (σ e.a))
    rows.adjacent

theorem legal_cases (h : e.isCpdagLegal = true) :
    (∃ p, e.parentChild = some p ∧ (p = (e.a, e.b) ∨ p = (e.b, e.a)) ∧ e.isUndirected = false ∧
      e.isConflict = false) ∨
    (e.parentChild = none ∧ e.isUndirected = true ∧ e.isConflict = false) ∨
    (e.parentChild = none ∧ e.isUndirected = false ∧ e.isConflict = true) := by
  obtain ⟨a, b, s, t, m⟩ := e
  cases s <;> cases t <;>
    simp_all [MarkedEdge.isCpdagLegal, MarkedEdge.parentChild, MarkedEdge.isUndirected,
      MarkedEdge.isConflict]

/-- What the source says of a conflict edge. -/
def conflictRefusal : ScenarioSetRefusal :=
  notACpdag "conflict or non-CPDAG edge marks are not a CPDAG"

theorem foldlM_addEdge (indexOf : Nat → Option Nat) :
    ∀ (es : List MarkedEdge) (rows : Rows),
    (∀ e ∈ es, indexOf e.a = some (σ e.a) ∧ indexOf e.b = some (σ e.b) ∧ e.isCpdagLegal = true) →
    es.foldlM (addEdge indexOf) rows =
      if es.any MarkedEdge.isConflict then .error conflictRefusal else .ok (rowsAfter σ rows es)
  | [], rows, _ => by simp [rowsAfter, pure, Except.pure]
  | e :: es, rows, h => by
    obtain ⟨ha, hb, hlegal⟩ := h e List.mem_cons_self
    have ih := fun rows => foldlM_addEdge indexOf es rows fun f hf => h f (List.mem_cons_of_mem _ hf)
    rw [List.foldlM_cons]
    unfold addEdge
    rw [ha, hb]
    rcases legal_cases hlegal with ⟨p, hp, hpe, hu, hc⟩ | ⟨hp, hu, hc⟩ | ⟨hp, hu, hc⟩
    · have hidx : indexOf p.1 = some (σ p.1) ∧ indexOf p.2 = some (σ p.2) := by
        rcases hpe with rfl | rfl
        · exact ⟨ha, hb⟩
        · exact ⟨hb, ha⟩
      obtain ⟨src, dst⟩ := p
      simp only [hp, hidx.1, hidx.2]
      refine (ih _).trans ?_
      simp [rowsAfter, hp, hu, hc]
    · simp only [hp, hu, if_true]
      refine (ih _).trans ?_
      simp [rowsAfter, hp, hu, hc]
    · simp only [hp, hu, Bool.false_eq_true, if_false, List.any_cons, hc, Bool.true_or, if_true]
      rfl

theorem mem_adjacent_fold : ∀ (es : List MarkedEdge) (rows : Nat → Finset Nat),
    j ∈ es.foldl (fun rows e => insertAt (insertAt rows (σ e.a) (σ e.b)) (σ e.b) (σ e.a)) rows i ↔
      j ∈ rows i ∨ ∃ e ∈ es, (i = σ e.a ∧ j = σ e.b) ∨ (i = σ e.b ∧ j = σ e.a)
  | [], rows => by simp
  | e :: es, rows => by
    rw [List.foldl_cons, mem_adjacent_fold es, mem_insertAt, mem_insertAt, List.exists_mem_cons_iff,
      or_assoc, or_assoc, or_assoc]

/-! ## Reading -/

theorem rowsOf_foldl : ∀ (l : List (Nat × Nat)) (o : Orienter) (R : Nat → Nat → Prop),
    RowsOf n o R → (∀ e ∈ l, e.1 < n ∧ e.2 < n) →
    RowsOf n (l.foldl (fun o e => o.orient e.1 e.2 true) o) fun i j => R i j ∨ (i, j) ∈ l
  | [], o, R, h, _ => by simpa using h
  | e :: l, o, R, h, hl => by
    obtain ⟨h1, h2⟩ := hl e List.mem_cons_self
    have ih := rowsOf_foldl l _ _ (h.orient h1 h2) fun f hf => hl f (List.mem_cons_of_mem _ hf)
    have heq : (fun i j => R i j ∨ (i, j) ∈ e :: l) =
        fun i j => Plus R e.1 e.2 i j ∨ (i, j) ∈ l := by
      funext i j
      rw [List.mem_cons, Plus, or_assoc, Prod.ext_iff]
    rw [heq]
    exact ih

theorem rowsOf_new (hlt : ∀ e ∈ sk.fixed, e.1 < n ∧ e.2 < n) :
    RowsOf n (Orienter.new sk) fun i j => (i, j) ∈ sk.fixed := by
  have h := rowsOf_foldl (n := n) sk.fixed ⟨fun _ => ∅, fun _ => ∅, [], sk.completionBytes⟩
    (fun _ _ => False) ⟨by simp, by simp, fun _ _ => False.elim⟩ hlt
  simpa [Orienter.new] using h

theorem dir_lt_length (hn : g.nodes = vs.map .static) (h : Joins g.adj a b) :
    a < vs.length ∧ b < vs.length := by
  obtain ⟨m, hm⟩ := Option.isSome_iff_exists.mp h
  have := g.stored.lt_of_look hm
  rwa [hn, List.length_map] at this

theorem Joins.of_dir (h : Dir adj a b) : Joins adj a b := by
  obtain ⟨m, hm⟩ := h
  exact Option.isSome_iff_exists.mpr ⟨_, hm⟩

theorem Joins.of_und (h : Und adj a b) : Joins adj a b := by
  obtain ⟨m, hm⟩ := h
  exact Option.isSome_iff_exists.mpr ⟨_, hm⟩

theorem exists_parentChild_iff :
    (∃ e ∈ g.edges, e.parentChild = some (a, b)) ↔ Dir g.adj a b := by
  simp only [g.mem_edges]
  constructor
  · rintro ⟨e, ⟨-, hl⟩, hp⟩
    rcases parentChild_eq_some.mp hp with ⟨h1, h2, rfl, rfl⟩ | ⟨h1, h2, rfl, rfl⟩
    · exact ⟨e.middle, by rw [hl, h1, h2]⟩
    · exact ⟨e.middle, by rw [g.stored.look_symm, hl, h1, h2]; rfl⟩
  · rintro ⟨m, hm⟩
    rcases Nat.lt_or_gt_of_ne (g.stored.ne_of_look hm) with hlt | hlt
    · exact ⟨⟨a, b, .tail, .arrow, m⟩, ⟨hlt, hm⟩, rfl⟩
    · refine ⟨⟨b, a, .arrow, .tail, m⟩, ⟨hlt, ?_⟩, rfl⟩
      rw [g.stored.look_symm, hm]
      rfl

theorem edge_unique {f : MarkedEdge} (he : e ∈ g.edges) (hf : f ∈ g.edges)
    (h : (e.a = f.a ∧ e.b = f.b) ∨ (e.a = f.b ∧ e.b = f.a)) : e = f := by
  obtain ⟨hlt, hl⟩ := g.mem_edges.mp he
  obtain ⟨hlt', hl'⟩ := g.mem_edges.mp hf
  have hab : e.a = f.a ∧ e.b = f.b := by omega
  rw [hab.1, hab.2, hl', Option.some.injEq, Prod.mk.injEq, Prod.mk.injEq] at hl
  obtain ⟨e1, e2, e3, e4, e5⟩ := e
  obtain ⟨f1, f2, f3, f4, f5⟩ := f
  simp only at hab hl
  rw [hab.1, hab.2, hl.1, hl.2.1, hl.2.2]

theorem pairLe_total : ∀ p q : Nat × Nat, pairLe p q = true ∨ pairLe q p = true := by
  rintro ⟨a, b⟩ ⟨c, d⟩
  simp only [pairLe, Bool.or_eq_true, decide_eq_true_eq, Bool.and_eq_true, beq_iff_eq]
  omega

theorem pairLe_trans : ∀ p q r : Nat × Nat, pairLe p q = true → pairLe q r = true →
    pairLe p r = true := by
  rintro ⟨a, b⟩ ⟨c, d⟩ ⟨e, f⟩
  simp only [pairLe, Bool.or_eq_true, decide_eq_true_eq, Bool.and_eq_true, beq_iff_eq]
  omega

theorem pairLe_antisymm : ∀ p q : Nat × Nat, pairLe p q = true → pairLe q p = true → p = q := by
  rintro ⟨a, b⟩ ⟨c, d⟩
  simp only [pairLe, Bool.or_eq_true, decide_eq_true_eq, Bool.and_eq_true, beq_iff_eq,
    Prod.mk.injEq]
  omega

theorem mem_sortPairs {p : Nat × Nat} : p ∈ sortPairs l ↔ p ∈ l :=
  List.mem_insertionSort _

theorem nodup_sortPairs : (sortPairs l).Nodup ↔ l.Nodup :=
  (List.perm_insertionSort _ _).nodup_iff

theorem sorted_sortPairs (l : List (Nat × Nat)) :
    (sortPairs l).Pairwise fun p q => pairLe p q = true := by
  have ht : Std.Total fun p q : Nat × Nat => pairLe p q = true := ⟨pairLe_total⟩
  have htr : IsTrans (Nat × Nat) fun p q => pairLe p q = true := ⟨pairLe_trans⟩
  exact List.pairwise_insertionSort _ l

theorem eq_of_sorted {l' : List (Nat × Nat)} (h : l.Nodup) (h' : l'.Nodup)
    (hs : l.Pairwise fun p q => pairLe p q = true) (hs' : l'.Pairwise fun p q => pairLe p q = true)
    (hmem : ∀ p, p ∈ l ↔ p ∈ l') : l = l' :=
  ((List.perm_ext_iff_of_nodup h h').mpr hmem).eq_of_pairwise
    (fun p q _ _ => pairLe_antisymm p q) hs hs'

/-- **What is read does not depend on the order of nodes and edges.** -/
theorem Reads.unique (h : Reads vs g sk) (h' : Reads vs' g' sk') (hperm : vs.Perm vs')
    (hdir : ∀ u v, Labelled g (Dir g.adj) u v ↔ Labelled g' (Dir g'.adj) u v)
    (hund : ∀ u v, Labelled g (Und g.adj) u v ↔ Labelled g' (Und g'.adj) u v)
    (hadj : ∀ u v, Labelled g (Joins g.adj) u v ↔ Labelled g' (Joins g'.adj) u v) : sk = sk' := by
  have hvars : sk.vars = sk'.vars := by
    rw [h.vars, h'.vars]
    refine (((List.perm_insertionSort _ vs).trans hperm).trans
      (List.perm_insertionSort _ vs').symm).eq_of_pairwise
        (show ∀ a b, a ∈ _ → b ∈ _ → a ≤ b → b ≤ a → a = b from fun _ _ _ _ => Nat.le_antisymm) ?_ ?_
    · exact List.pairwise_insertionSort _ _
    · exact List.pairwise_insertionSort _ _
  have hat {R R' : Nat → Nat → Prop} (hR : ∀ u v, R u v ↔ R' u v) (i j : Nat) :
      At sk.vars R i j ↔ At sk'.vars R' i j := by
    simp only [At, hvars, hR]
  have hfixed : sk.fixed = sk'.fixed :=
    eq_of_sorted h.fixed_nodup h'.fixed_nodup h.fixed_sorted h'.fixed_sorted fun p =>
      (h.fixed p.1 p.2).trans ((hat hdir _ _).trans (h'.fixed p.1 p.2).symm)
  have hundirected : sk.undirected = sk'.undirected :=
    eq_of_sorted h.undirected_nodup h'.undirected_nodup h.undirected_sorted h'.undirected_sorted
      fun p => (h.undirected p.1 p.2).trans
        ((and_congr_right fun _ => hat hund _ _).trans (h'.undirected p.1 p.2).symm)
  have hadjacent : sk.adjacent = sk'.adjacent := by
    funext i
    ext j
    exact (h.adjacent i j).trans ((hat hadj i j).trans (h'.adjacent i j).symm)
  obtain ⟨v, f, u, a⟩ := sk
  obtain ⟨v', f', u', a'⟩ := sk'
  simp only at hvars hfixed hundirected hadjacent
  rw [hvars, hfixed, hundirected, hadjacent]

theorem exists_path_of_fixed (h : vs.Nodup) (hn : g.nodes = vs.map .static)
    (hF : TransGen (fun i j => ∃ a b, Dir g.adj a b ∧ position vs a = i ∧ position vs b = j) i j) :
    ∃ a b, TransGen (Dir g.adj) a b ∧ position vs a = i ∧ position vs b = j := by
  induction hF with
  | single hs =>
    obtain ⟨a, b, hab, hi, hj⟩ := hs
    exact ⟨a, b, .single hab, hi, hj⟩
  | tail _ hs ih =>
    obtain ⟨a, b, hab, hi, hj⟩ := ih
    obtain ⟨c, d, hcd, hk, hl⟩ := hs
    obtain ⟨e, -, heb⟩ := TransGen.tail'_iff.mp hab
    have hbc : b = c := position_inj h (dir_lt_length hn (.of_dir heb)).2
      (dir_lt_length hn (.of_dir hcd)).1 (hj.trans hk.symm)
    exact ⟨a, d, hab.tail (hbc ▸ hcd), hi, hl⟩

theorem edge_lt (hn : g.nodes = vs.map .static) (he : e ∈ g.edges) :
    e.a < e.b ∧ e.a < vs.length ∧ e.b < vs.length := by
  obtain ⟨hlt, hl⟩ := g.mem_edges.mp he
  exact ⟨hlt, dir_lt_length hn (by rw [Joins, hl]; rfl)⟩

theorem exists_undirected_iff (hlt : a < b) :
    (∃ e ∈ g.edges, e.isUndirected = true ∧ e.a = a ∧ e.b = b) ↔ Und g.adj a b := by
  constructor
  · rintro ⟨e, he, hu, rfl, rfl⟩
    obtain ⟨h1, h2⟩ := isUndirected_iff.mp hu
    exact ⟨e.middle, by rw [(g.mem_edges.mp he).2, h1, h2]⟩
  · rintro ⟨m, hm⟩
    exact ⟨⟨a, b, .tail, .tail, m⟩, g.mem_edges.mpr ⟨hlt, hm⟩, rfl, rfl, rfl⟩

/-- **The rows that were read are those of the graph.** -/
theorem reads_rowsAfter (hn : g.nodes = vs.map .static) (h : vs.Nodup) :
    Reads vs g ⟨vs.insertionSort (· ≤ ·),
      sortPairs (rowsAfter (position vs) ⟨[], [], fun _ => ∅⟩ g.edges).fixed,
      sortPairs (rowsAfter (position vs) ⟨[], [], fun _ => ∅⟩ g.edges).undirected,
      (rowsAfter (position vs) ⟨[], [], fun _ => ∅⟩ g.edges).adjacent⟩ := by
  have hinj {a b : Nat} (ha : a < vs.length) (hb : b < vs.length)
      (hp : position vs a = position vs b) : a = b := position_inj h ha hb hp
  have hdirlt (a b : Nat) (hab : Dir g.adj a b) := dir_lt_length hn (.of_dir hab)
  have hundlt (a b : Nat) (hab : Und g.adj a b) := dir_lt_length hn (.of_und hab)
  refine ⟨rfl, fun i j => ?_, fun i j => ?_, fun i j => ?_, ?_, ?_, sorted_sortPairs _,
    sorted_sortPairs _, by simp [sortPairs, rowsAfter]⟩
  · rw [at_labelled hn h hdirlt, mem_sortPairs]
    simp only [rowsAfter, List.nil_append, List.mem_map, List.mem_filterMap, Prod.mk.injEq]
    constructor
    · rintro ⟨p, ⟨e, he, hp⟩, h1, h2⟩
      exact ⟨p.1, p.2, exists_parentChild_iff.mp ⟨e, he, hp⟩, h1, h2⟩
    · rintro ⟨a, b, hab, h1, h2⟩
      obtain ⟨e, he, hp⟩ := exists_parentChild_iff.mpr hab
      exact ⟨(a, b), ⟨e, he, hp⟩, h1, h2⟩
  · rw [at_labelled hn h hundlt, mem_sortPairs]
    simp only [rowsAfter, List.nil_append, List.mem_map, List.mem_filter, Prod.mk.injEq]
    constructor
    · rintro ⟨e, ⟨he, hu⟩, h1, h2⟩
      obtain ⟨hlt, ha, hb⟩ := edge_lt hn he
      have hund := (exists_undirected_iff hlt).mp ⟨e, he, hu, rfl, rfl⟩
      have hne : position vs e.a ≠ position vs e.b := fun hp => Nat.ne_of_lt hlt (hinj ha hb hp)
      rcases Nat.lt_or_gt_of_ne hne with hlt' | hlt'
      · exact ⟨by omega, e.a, e.b, hund, by omega, by omega⟩
      · exact ⟨by omega, e.b, e.a, g.stored.und_symm hund, by omega, by omega⟩
    · rintro ⟨hij, a, b, hab, rfl, rfl⟩
      have hne : a ≠ b := fun heq => by rw [heq] at hij; exact Nat.lt_irrefl _ hij
      rcases Nat.lt_or_gt_of_ne hne with hlt | hlt
      · obtain ⟨e, he, hu, rfl, rfl⟩ := (exists_undirected_iff hlt).mpr hab
        exact ⟨e, ⟨he, hu⟩, by omega, by omega⟩
      · obtain ⟨e, he, hu, rfl, rfl⟩ := (exists_undirected_iff hlt).mpr (g.stored.und_symm hab)
        exact ⟨e, ⟨he, hu⟩, by omega, by omega⟩
  · rw [at_labelled hn h fun a b hab => dir_lt_length hn hab]
    simp only [rowsAfter, mem_adjacent_fold, Finset.notMem_empty, false_or]
    constructor
    · rintro ⟨e, he, ⟨rfl, rfl⟩ | ⟨rfl, rfl⟩⟩
      · exact ⟨e.a, e.b, by rw [Joins, (g.mem_edges.mp he).2]; rfl, rfl, rfl⟩
      · refine ⟨e.b, e.a, ?_, rfl, rfl⟩
        rw [Joins, g.stored.look_symm, (g.mem_edges.mp he).2]
        rfl
    · rintro ⟨a, b, hab, rfl, rfl⟩
      obtain ⟨m, hm⟩ := Option.isSome_iff_exists.mp hab
      rcases Nat.lt_or_gt_of_ne (g.stored.ne_of_look hm) with hlt | hlt
      · exact ⟨⟨a, b, m.1, m.2.1, m.2.2⟩, g.mem_edges.mpr ⟨hlt, hm⟩, Or.inl ⟨rfl, rfl⟩⟩
      · refine ⟨⟨b, a, m.flip.1, m.flip.2.1, m.flip.2.2⟩, g.mem_edges.mpr ⟨hlt, ?_⟩,
          Or.inr ⟨rfl, rfl⟩⟩
        rw [g.stored.look_symm, hm]
        rfl
  · rw [nodup_sortPairs]
    simp only [rowsAfter, List.nil_append]
    have hnd : (g.edges.filterMap MarkedEdge.parentChild).Nodup := by
      refine List.pairwise_filterMap.mpr ?_
      refine (nodup_allMarkedEdges g.stored).pairwise_of_forall_ne fun e he f hf hne p hp q hq hpq => ?_
      subst hpq
      refine hne (edge_unique he hf ?_)
      obtain ⟨a, b⟩ := p
      rcases parentChild_eq_some.mp hp with ⟨-, -, h1, h2⟩ | ⟨-, -, h1, h2⟩ <;>
        rcases parentChild_eq_some.mp hq with ⟨-, -, h3, h4⟩ | ⟨-, -, h3, h4⟩ <;> omega
    refine List.Nodup.map_on (fun p hp q hq hpq => ?_) hnd
    obtain ⟨e, he, hp⟩ := List.mem_filterMap.mp hp
    obtain ⟨f, hf, hq⟩ := List.mem_filterMap.mp hq
    obtain ⟨hp1, hp2⟩ := hdirlt p.1 p.2 (exists_parentChild_iff.mp ⟨e, he, hp⟩)
    obtain ⟨hq1, hq2⟩ := hdirlt q.1 q.2 (exists_parentChild_iff.mp ⟨f, hf, hq⟩)
    rw [Prod.mk.injEq] at hpq
    exact Prod.ext (hinj hp1 hq1 hpq.1) (hinj hp2 hq2 hpq.2)
  · rw [nodup_sortPairs]
    simp only [rowsAfter, List.nil_append]
    refine List.Nodup.map_on (fun e he f hf hef => ?_) ((nodup_allMarkedEdges g.stored).filter _)
    have he := (List.mem_filter.mp he).1
    have hf := (List.mem_filter.mp hf).1
    obtain ⟨-, ha, hb⟩ := edge_lt hn he
    obtain ⟨-, ha', hb'⟩ := edge_lt hn hf
    rw [Prod.mk.injEq] at hef
    refine edge_unique he hf ?_
    have hpos : (position vs e.a = position vs f.a ∧ position vs e.b = position vs f.b) ∨
        (position vs e.a = position vs f.b ∧ position vs e.b = position vs f.a) := by omega
    exact hpos.imp (fun h => ⟨hinj ha ha' h.1, hinj hb hb' h.2⟩)
      fun h => ⟨hinj ha hb' h.1, hinj hb ha' h.2⟩

/-- The rows stay within the positions. -/
theorem At.lt {vars : List Nat} {R : Nat → Nat → Prop} (h : At vars R i j) :
    i < vars.length ∧ j < vars.length := by
  obtain ⟨u, v, hu, hv, -⟩ := h
  exact ⟨(List.getElem?_eq_some_iff.mp hu).1, (List.getElem?_eq_some_iff.mp hv).1⟩

theorem Reads.rows (hr : Reads vs g sk) :
    RowsOf sk.vars.length (Orienter.new sk) fun i j => (i, j) ∈ sk.fixed :=
  rowsOf_new fun e he => ((hr.fixed e.1 e.2).mp he).lt

theorem Reads.acyclic (hr : Reads vs g sk) (hn : g.nodes = vs.map .static) (h : vs.Nodup) (i : Nat) :
    ¬ TransGen (fun i j => (i, j) ∈ sk.fixed) i i := by
  have hrel : (fun i j => (i, j) ∈ sk.fixed) =
      fun i j => ∃ a b, Dir g.adj a b ∧ position vs a = i ∧ position vs b = j := by
    funext i j
    rw [hr.fixed, hr.vars, at_labelled hn h fun a b hab => dir_lt_length hn (.of_dir hab)]
  rw [hrel]
  intro hc
  obtain ⟨a, b, hab, ha, hb⟩ := exists_path_of_fixed h hn hc
  obtain ⟨c, hac, -⟩ := TransGen.head'_iff.mp hab
  obtain ⟨d, -, hdb⟩ := TransGen.tail'_iff.mp hab
  have : a = b := position_inj h (dir_lt_length hn (.of_dir hac)).1
    (dir_lt_length hn (.of_dir hdb)).2 (ha.trans hb.symm)
  exact g.acyclic a (this ▸ hab)

/-- **Reading a graph over distinct static variables**: it fails on a conflict edge only. -/
theorem fromInput_spec (hn : g.nodes = vs.map .static) (h : vs.Nodup) (hne : vs ≠ []) :
    if g.edges.any MarkedEdge.isConflict then
      Skeleton.fromInput ⟨g, [], []⟩ = .error conflictRefusal
    else ∃ sk, Skeleton.fromInput ⟨g, [], []⟩ = .ok sk ∧ Reads vs g sk := by
  have hdense : g.nodes.mapM staticVariable = .ok vs := by
    rw [hn]
    clear hn h hne
    induction vs with
    | nil => rfl
    | cons v vs ih =>
      rw [List.map_cons, List.mapM_cons, ih]
      rfl
  have hempty : (vs.insertionSort (· ≤ ·)).isEmpty = false := by
    rw [List.isEmpty_eq_false_iff]
    intro hnil
    exact hne (List.length_eq_zero_iff.mp (by rw [← List.length_insertionSort (· ≤ ·) vs, hnil]; rfl))
  have hidx : ∀ e ∈ g.edges, (vs[e.a]?.bind fun v => (vs.insertionSort (· ≤ ·)).idxOf? v) =
        some (position vs e.a) ∧
      (vs[e.b]?.bind fun v => (vs.insertionSort (· ≤ ·)).idxOf? v) = some (position vs e.b) ∧
      e.isCpdagLegal = true := by
    intro e he
    obtain ⟨hlt, hl⟩ := g.mem_edges.mp he
    have hidx {d : Nat} (hd : d < vs.length) :
        (vs[d]?.bind fun v => (vs.insertionSort (· ≤ ·)).idxOf? v) = some (position vs d) := by
      have hmem : vs.getD d 0 ∈ vs.insertionSort (· ≤ ·) := by
        rw [List.mem_insertionSort]
        exact List.mem_of_getElem? (getElem?_getD hd)
      rw [getElem?_getD hd, Option.bind_some, idxOf?_eq_some hmem]
      rfl
    obtain ⟨ha, hb⟩ := dir_lt_length hn (a := e.a) (b := e.b) (by rw [Joins, hl]; rfl)
    exact ⟨hidx ha, hidx hb, Pdag.legal_nodes (g.legal e.a e.b _ hl) _ _⟩
  have hfold := foldlM_addEdge (fun d => vs[d]?.bind fun v => (vs.insertionSort (· ≤ ·)).idxOf? v)
    g.edges ⟨[], [], fun _ => ∅⟩ hidx
  unfold Skeleton.fromInput
  simp only [List.isEmpty_nil, Bool.not_true, Bool.or_self, Bool.false_eq_true, if_false, hdense,
    hempty, hfold]
  cases hc : g.edges.any MarkedEdge.isConflict with
  | true => simp
  | false =>
    have hr := reads_rowsAfter hn h
    simp only [Bool.false_eq_true, if_false]
    refine ⟨_, ?_, hr⟩
    refine if_neg fun hany => ?_
    obtain ⟨e, he, hreach⟩ := List.any_eq_true.mp hany
    obtain ⟨-, h2⟩ := ((hr.fixed e.1 e.2).mp he).lt
    exact hr.acyclic hn h e.1 (TransGen.head' he ((reaches_iff hr.rows h2).mp hreach))

end Antecedent.Identify.CpdagCompletion
