import Antecedent.Graph.Directed
import Antecedent.Mixed.Mutilate

/-!
# Separation in the augmented graph

Model of the second implementation of m-separation that the proof checkers use, twice in the source
with one text (`antecedent-identify/src/sid/mixed_source/search.rs:583-658`,
`selection_separation.rs:259-345`): the ancestors of both ends and of the condition, linked when
adjacent or joined through colliders, and undirected search around the condition. A
`BTreeSet<usize>` is a `Finset Nat`, iterated in ascending order. Worklists keep their visited set
apart from the order in which they pop, which no result depends on.

* **`connected_iff`**: the test is reachability in the moral graph of the ancestral set.
-/

namespace Antecedent.Identify

open Graph
open Mixed
open Worklist

section Connected

variable (n : Nat) (parents siblings : List (List Nat))

/-- The ancestors of `{a, b} ∪ cond`. -/
def ancestralOf (cond : Finset Nat) (a b : Nat) : Finset Nat :=
  closure (row parents) (n + 1) ((List.range n).filter (· ∈ cond) ++ [a, b])

/-- The bidirected districts inside `ancestral`: one search per seed that no earlier one has
assigned. -/
def districtsIn (ancestral : Finset Nat) : List Nat → Finset Nat → List (Finset Nat)
  | [], _ => []
  | seed :: seeds, assigned =>
    if seed ∈ ancestral ∧ seed ∉ assigned then
      let district := closure (fun v => (row siblings v).filter fun s =>
        s ∈ ancestral ∧ s ∉ assigned) (n + 1) [seed]
      district :: districtsIn ancestral seeds (assigned ∪ district)
    else districtsIn ancestral seeds assigned

def cliqueOf (district : Finset Nat) : List Nat :=
  (List.range n).filter fun v => v ∈ district ∨ ∃ m ∈ district, v ∈ row parents m

/-- The pairs `connected` links (`search.rs:610-660`). -/
def linksOf (ancestral : Finset Nat) : List (Nat × Nat) :=
  ((List.range n).filter (· ∈ ancestral)).flatMap (fun node =>
    (row parents node).map (fun parent => (parent, node)) ++
      ((row siblings node).filter (· ∈ ancestral)).map fun sibling => (node, sibling)) ++
  (districtsIn n siblings ancestral (List.range n) ∅).flatMap fun district =>
    pairsOf (cliqueOf n parents district)

/-- `adjacent[p][q]` after the links. -/
def adjacentIn (links : List (Nat × Nat)) (p q : Nat) : Bool :=
  p ≠ q ∧ ((p, q) ∈ links ∨ (q, p) ∈ links)

/-- `search.rs:583-658`. -/
def connected (cond : Finset Nat) (a b : Nat) : Bool :=
  let links := linksOf n parents siblings (ancestralOf n parents cond a b)
  search (fun node => (List.range n).filter fun next =>
      adjacentIn links node next ∧ (next ∉ cond ∨ next = b))
    (· = b) (n + 1) [a]

end Connected

/-! ## Adjacency rows -/

/-- Push `src` on the row of each of its children. -/
def pushParent (rows : List (List Nat)) (src : Nat) (children : List Nat) : List (List Nat) :=
  children.foldl (fun rows dst => pushRow rows dst src) rows

theorem mem_row_pushParent {s : Nat} : ∀ {l : List Nat} {rows : List (List Nat)},
    (∀ c ∈ l, c < rows.length) → ∀ u v,
      (u ∈ row (pushParent rows s l) v ↔ u ∈ row rows v ∨ (u = s ∧ v ∈ l))
  | [], _, _, u, v => by simp [pushParent]
  | c :: cs, rows, hlt, u, v => by
    have hc := hlt c List.mem_cons_self
    have ih := mem_row_pushParent (s := s) (l := cs) (fun d hd => show d < (pushRow rows c s).length by
        rw [length_pushRow]
        exact hlt d (List.mem_cons_of_mem c hd)) u v
    unfold pushParent at ih ⊢
    rw [List.foldl_cons, ih, row_pushRow hc]
    split_ifs with hv
    · rw [hv, List.mem_append, List.mem_singleton, List.mem_cons]
      tauto
    · rw [List.mem_cons]
      tauto

theorem length_pushParent (src : Nat) : ∀ (children : List Nat) (rows : List (List Nat)),
    (pushParent rows src children).length = rows.length
  | [], _ => rfl
  | c :: cs, rows => by
    have ih := length_pushParent src cs (pushRow rows c src)
    rw [length_pushRow] at ih
    exact ih

variable {children : Nat → List Nat}

theorem length_pushParents : ∀ (srcs : List Nat) (rows : List (List Nat)),
    (srcs.foldl (fun rows src => pushParent rows src (children src)) rows).length = rows.length
  | [], _ => rfl
  | s :: srcs, rows => by
    rw [List.foldl_cons, length_pushParents srcs, length_pushParent]

theorem mem_row_pushParents : ∀ {srcs : List Nat}
    {rows : List (List Nat)}, (∀ s ∈ srcs, ∀ c ∈ children s, c < rows.length) → ∀ u v,
      (u ∈ row (srcs.foldl (fun rows src => pushParent rows src (children src)) rows) v ↔
        u ∈ row rows v ∨ (u ∈ srcs ∧ v ∈ children u))
  | [], _, _, u, v => by simp
  | s :: srcs, rows, hlt, u, v => by
    rw [List.foldl_cons, mem_row_pushParents (fun t ht c hc => by
      rw [length_pushParent]
      exact hlt t (List.mem_cons_of_mem s ht) c hc),
      mem_row_pushParent (hlt s List.mem_cons_self), List.mem_cons]
    constructor
    · rintro ((h | ⟨rfl, h⟩) | h)
      exacts [Or.inl h, Or.inr ⟨Or.inl rfl, h⟩, Or.inr ⟨Or.inr h.1, h.2⟩]
    · rintro (h | ⟨rfl | h, h'⟩)
      exacts [Or.inl (Or.inl h), Or.inl (Or.inr ⟨rfl, h'⟩), Or.inr ⟨h, h'⟩]

variable {v : Nat}

theorem row_map_range {n : Nat} {f : Nat → List Nat} :
    row ((List.range n).map f) v = if v < n then f v else [] := by
  unfold row
  rw [List.getD_eq_getElem?_getD, List.getElem?_map]
  split_ifs with h
  · rw [List.getElem?_range h]
    rfl
  · rw [List.getElem?_eq_none (by rw [List.length_range]; omega)]
    rfl

theorem row_replicate_nil {n : Nat} : row (List.replicate n ([] : List Nat)) v = [] := by
  unfold row
  rw [List.getD_eq_getElem?_getD, List.getElem?_replicate]
  split_ifs <;> rfl

/-! ## The separation test -/

/-- Adjacency rows that hold exactly the edges of `H`, which stay below `n`. -/
structure RowsOf (H : MixedGraph Nat) (n : Nat) (parents siblings : List (List Nat)) : Prop where
  mem_parents : ∀ u v, u ∈ row parents v ↔ H.dir u v
  mem_siblings : ∀ u v, v ∈ row siblings u ↔ H.bi u v
  dir_lt : ∀ u v, H.dir u v → u < n ∧ v < n
  bi_lt : ∀ u v, H.bi u v → u < n ∧ v < n

section Augmented

variable {H : MixedGraph Nat} {n : Nat} {parents siblings : List (List Nat)}

variable {v a b : Nat} {cond A : Finset Nat}

theorem mem_closure_parents {next : Nat → List Nat} {seeds : List Nat} {S : Set Nat}
    (hnext : ∀ u v, u ∈ next v ↔ H.dir u v) (hlt : ∀ u v, H.dir u v → u < n ∧ v < n)
    (hseeds : ∀ v, v ∈ seeds ↔ v ∈ S) (hS : ∀ v ∈ S, v < n) :
    v ∈ closure next (n + 1) seeds ↔ v ∈ H.AncSet S := by
  have hU : Bounded next seeds (Finset.range n) :=
    ⟨fun s hs => Finset.mem_range.mpr (hS s ((hseeds s).mp hs)),
      fun u _ w hw => Finset.mem_range.mpr (hlt w u ((hnext w u).mp hw)).1⟩
  rw [mem_closure hU (by simp)]
  have hflip : ∀ {a b}, Reach next a b ↔ H.Anc b a := fun {a b} => by
    have he : (fun a b => b ∈ next a) = Function.swap H.dir := by
      funext a b
      exact propext (hnext b a)
    unfold Reach MixedGraph.Anc
    rw [he, Relation.reflTransGen_swap]
  constructor
  · rintro ⟨s, hs, hr⟩
    exact ⟨s, (hseeds s).mp hs, hflip.mp hr⟩
  · rintro ⟨s, hs, ha⟩
    exact ⟨s, (hseeds s).mpr hs, hflip.mpr ha⟩

theorem mem_ancestralOf (hR : RowsOf H n parents siblings)
    (hcond : ∀ v ∈ cond, v < n) (ha : a < n) (hb : b < n) :
    v ∈ ancestralOf n parents cond a b ↔ v ∈ H.AncSet ({a} ∪ {b} ∪ (cond : Set Nat)) := by
  refine mem_closure_parents hR.mem_parents hR.dir_lt (fun v => ?_) ?_
  · simp only [List.mem_append, List.mem_filter, List.mem_range, decide_eq_true_eq, List.mem_cons,
      List.not_mem_nil, or_false, Set.mem_union, Set.mem_singleton_iff, Finset.mem_coe]
    constructor
    · rintro (⟨-, h⟩ | h | h)
      exacts [Or.inr h, Or.inl (Or.inl h), Or.inl (Or.inr h)]
    · rintro ((h | h) | h)
      exacts [Or.inr (Or.inl h), Or.inr (Or.inr h), Or.inl ⟨hcond v h, h⟩]
  · rintro v ((rfl | rfl) | h)
    exacts [ha, hb, hcond v h]

theorem mem_district (hR : RowsOf H n parents siblings) {assigned : Finset Nat} {s : Nat}
    (hs : s ∈ A) (hn : s ∉ assigned) (hsn : s < n)
    (hclosed : ∀ u v, u ∉ assigned → H.District A u v → v ∉ assigned) :
    v ∈ closure (fun v => (row siblings v).filter fun w => w ∈ A ∧ w ∉ assigned) (n + 1) [s] ↔
      H.District A s v := by
  have hU : Bounded (fun v => (row siblings v).filter fun w => w ∈ A ∧ w ∉ assigned) [s]
      (Finset.range n) := by
    refine ⟨fun u hu => ?_, fun u _ w hw => ?_⟩
    · rw [List.mem_singleton.mp hu]
      exact Finset.mem_range.mpr hsn
    · exact Finset.mem_range.mpr (hR.bi_lt u w ((hR.mem_siblings u w).mp (List.mem_filter.mp hw).1)).2
  rw [mem_closure hU (by simp)]
  simp only [List.mem_singleton, exists_eq_left]
  constructor
  · intro hr
    have : H.District A s v ∧ v ∈ A := by
      induction hr with
      | refl => exact ⟨.refl, hs⟩
      | tail _ hbc ih =>
        obtain ⟨hsib, hmem⟩ := List.mem_filter.mp hbc
        have hA := (of_decide_eq_true hmem).1
        exact ⟨ih.1.tail ⟨ih.2, hA, (hR.mem_siblings _ _).mp hsib⟩, hA⟩
    exact this.1
  · intro hd
    induction hd with
    | refl => exact .refl
    | tail hsb hbc ih =>
      refine ih.tail (List.mem_filter.mpr ⟨(hR.mem_siblings _ _).mpr hbc.2.2, ?_⟩)
      exact decide_eq_true ⟨hbc.2.1, hclosed _ _ hn (hsb.tail hbc)⟩

/-- **The districts of `A`**: each is one class, and every seed in `A` that was not assigned before
is in one of them. -/
theorem districtsIn_spec (hR : RowsOf H n parents siblings) {A : Finset Nat} :
    ∀ {l : List Nat} {B : Finset Nat}, (∀ s ∈ l, s < n) →
      (∀ u v, u ∉ B → H.District A u v → v ∉ B) →
      (∀ D ∈ districtsIn n siblings A l B,
        ∃ s ∈ A, ∀ v, v ∈ D ↔ H.District A s v) ∧
      ∀ s ∈ l, s ∈ A → s ∉ B →
        ∃ D ∈ districtsIn n siblings A l B, ∀ v, v ∈ D ↔ H.District A s v
  | [], _, _, _ => ⟨fun _ h => absurd h List.not_mem_nil, fun _ h => absurd h List.not_mem_nil⟩
  | seed :: seeds, assigned, hlt, hclosed => by
    unfold districtsIn
    have hrest := fun s hs => hlt s (List.mem_cons_of_mem seed hs)
    split_ifs with h
    · set D := closure (fun v => (row siblings v).filter fun w => w ∈ A ∧ w ∉ assigned) (n + 1)
        [seed] with hD
      have hmem : ∀ v, v ∈ D ↔ H.District A seed v := fun v =>
        mem_district hR h.1 h.2 (hlt seed List.mem_cons_self) hclosed
      have hclosed' : ∀ u v, u ∉ assigned ∪ D → H.District A u v → v ∉ assigned ∪ D := by
        intro u v hu huv hv
        rcases Finset.mem_union.mp hv with hv | hv
        · exact hclosed u v (fun h => hu (Finset.mem_union_left _ h)) huv hv
        · exact hu (Finset.mem_union_right _ ((hmem u).mpr (((hmem v).mp hv).trans huv.symm)))
      obtain ⟨h1, h2⟩ := districtsIn_spec hR hrest hclosed'
      refine ⟨fun E hE => ?_, fun s hs hsA hsn => ?_⟩
      · rcases List.mem_cons.mp hE with rfl | hE
        · exact ⟨seed, h.1, hmem⟩
        · exact h1 E hE
      · by_cases hsD : s ∈ D
        · have hss := (hmem s).mp hsD
          exact ⟨D, List.mem_cons_self, fun v =>
            ⟨fun hv => hss.symm.trans ((hmem v).mp hv), fun hv => (hmem v).mpr (hss.trans hv)⟩⟩
        · rcases List.mem_cons.mp hs with rfl | hs
          · exact absurd ((hmem s).mpr .refl) hsD
          · obtain ⟨E, hE, hEs⟩ := h2 s hs hsA fun h => (Finset.mem_union.mp h).elim hsn hsD
            exact ⟨E, List.mem_cons_of_mem _ hE, hEs⟩
    · obtain ⟨h1, h2⟩ := districtsIn_spec hR hrest hclosed
      refine ⟨h1, fun s hs hsA hsn => ?_⟩
      rcases List.mem_cons.mp hs with rfl | hs
      · exact absurd ⟨hsA, hsn⟩ h
      · exact h2 s hs hsA hsn

/-- **The links are the edges of the moral graph over `A`.** -/
theorem adjacentIn_iff (hR : RowsOf H n parents siblings) (hA : ∀ v ∈ A, v < n)
    (hup : ∀ u v, H.dir u v → v ∈ A → u ∈ A) {p q : Nat} :
    adjacentIn (linksOf n parents siblings A) p q = true ↔ H.MoralAdj A p q := by
  obtain ⟨hd1, hd2⟩ := districtsIn_spec hR (A := A) (l := List.range n) (B := ∅)
    (fun s hs => List.mem_range.mp hs) (fun _ _ _ _ => Finset.notMem_empty _)
  have hinto : ∀ {u c}, c ∈ A → H.Into u c → u ∈ A := fun hc h => h.elim (fun e => e ▸ hc)
    fun e => hup _ _ e hc
  have hclique : ∀ {D : Finset Nat} {s u : Nat}, s ∈ A → (∀ v, v ∈ D ↔ H.District A s v) →
      (u ∈ cliqueOf n parents D ↔ ∃ c, H.District A s c ∧ H.Into u c) := by
    intro D s u hs hD
    unfold cliqueOf
    simp only [List.mem_filter, List.mem_range, decide_eq_true_eq, hD]
    constructor
    · rintro ⟨-, h | ⟨m, hm, hu⟩⟩
      · exact ⟨u, h, Or.inl rfl⟩
      · exact ⟨m, hm, Or.inr ((hR.mem_parents u m).mp hu)⟩
    · rintro ⟨c, hc, hu⟩
      refine ⟨hA u (hinto (hc.mem hs) hu), ?_⟩
      rcases hu with rfl | hu
      · exact Or.inl hc
      · exact Or.inr ⟨c, hc, (hR.mem_parents u c).mpr hu⟩
  have hsound : ∀ {p q}, (p, q) ∈ linksOf n parents siblings A → p ≠ q → H.MoralAdj A p q := by
    intro p q h hpq
    rcases List.mem_append.mp h with h | h
    · obtain ⟨node, hnode, h⟩ := List.mem_flatMap.mp h
      have hnA : node ∈ A := of_decide_eq_true (List.mem_filter.mp hnode).2
      rcases List.mem_append.mp h with h | h
      · obtain ⟨parent, hp, e⟩ := List.mem_map.mp h
        cases e
        have hdir := (hR.mem_parents _ _).mp hp
        exact ⟨hpq, hup _ _ hdir hnA, hnA, q, q, hnA, Or.inr hdir, .refl, Or.inl rfl⟩
      · obtain ⟨sibling, hs, e⟩ := List.mem_map.mp h
        cases e
        obtain ⟨hsib, hsA⟩ := List.mem_filter.mp hs
        have hsA := of_decide_eq_true hsA
        exact ⟨hpq, hnA, hsA, p, q, hnA, Or.inl rfl,
          .single ⟨hnA, hsA, (hR.mem_siblings _ _).mp hsib⟩, Or.inl rfl⟩
    · obtain ⟨D, hD, h⟩ := List.mem_flatMap.mp h
      obtain ⟨s, hs, hDs⟩ := hd1 D hD
      obtain ⟨hp, hq⟩ := mem_of_mem_pairsOf h
      obtain ⟨c, hc, hpc⟩ := (hclique hs hDs).mp hp
      obtain ⟨d, hd, hqd⟩ := (hclique hs hDs).mp hq
      exact ⟨hpq, hinto (hc.mem hs) hpc, hinto (hd.mem hs) hqd, c, d, hc.mem hs, hpc,
        hc.symm.trans hd, hqd⟩
  unfold adjacentIn
  rw [decide_eq_true_iff]
  constructor
  · rintro ⟨hpq, h | h⟩
    · exact hsound h hpq
    · exact (hsound h (Ne.symm hpq)).symm
  · intro h
    obtain ⟨c, d, hc, hpc, hcd, hqd⟩ := h.joined
    obtain ⟨D, hD, hDc⟩ := hd2 c (List.mem_range.mpr (hA c hc)) hc (Finset.notMem_empty c)
    refine ⟨h.ne, ?_⟩
    have hpD := (hclique hc hDc).mpr ⟨c, .refl, hpc⟩
    have hqD := (hclique hc hDc).mpr ⟨d, hcd, hqd⟩
    rcases (mem_pairsOf h.ne).mpr ⟨hpD, hqD⟩ with hm | hm
    · exact Or.inl (List.mem_append_right _ (List.mem_flatMap.mpr ⟨D, hD, hm⟩))
    · exact Or.inr (List.mem_append_right _ (List.mem_flatMap.mpr ⟨D, hD, hm⟩))

/-- **`connected` is reachability in the moral graph of the ancestral set, around `cond`.** -/
theorem connected_iff (hR : RowsOf H n parents siblings)
    (hcond : ∀ v ∈ cond, v < n) (ha : a < n) (hb : b < n) (hbc : b ∉ cond) :
    connected n parents siblings cond a b = true ↔
      H.MoralReach (H.AncSet ({a} ∪ {b} ∪ (cond : Set Nat))) cond a b := by
  set A := ancestralOf n parents cond a b with hAdef
  have hmem : ∀ v, v ∈ A ↔ v ∈ H.AncSet ({a} ∪ {b} ∪ (cond : Set Nat)) := fun v =>
    mem_ancestralOf hR hcond ha hb
  have hset : (A : Set Nat) = H.AncSet ({a} ∪ {b} ∪ (cond : Set Nat)) := Set.ext hmem
  have hAn : ∀ v ∈ A, v < n := by
    intro v hv
    obtain ⟨z, hz, hvz⟩ := (hmem v).mp hv
    rcases Relation.ReflTransGen.cases_head hvz with rfl | ⟨w, hvw, -⟩
    · rcases hz with (rfl | rfl) | hz
      exacts [ha, hb, hcond v hz]
    · exact (hR.dir_lt v w hvw).1
  have hup : ∀ u v, H.dir u v → v ∈ A → u ∈ A := fun u v huv hv =>
    (hmem u).mpr (MixedGraph.ancSet_of_dir huv ((hmem v).mp hv))
  have hadj := fun p q => adjacentIn_iff hR hAn hup (p := p) (q := q)
  rw [← hset]
  unfold connected
  set next : Nat → List Nat := fun node => (List.range n).filter fun next =>
    adjacentIn (linksOf n parents siblings A) node next ∧ (next ∉ cond ∨ next = b) with hnext
  have hstep : ∀ u v, v ∈ next u ↔ H.MoralAdj A u v ∧ v ∉ cond := by
    intro u v
    simp only [hnext, List.mem_filter, List.mem_range, decide_eq_true_eq, hadj]
    constructor
    · rintro ⟨-, h, h' | rfl⟩
      exacts [⟨h, h'⟩, ⟨h, hbc⟩]
    · rintro ⟨h, h'⟩
      exact ⟨hAn v h.right_mem, h, Or.inl h'⟩
  have hU : Bounded next [a] (Finset.range n) := by
    refine ⟨fun s hs => ?_, fun u _ w hw => ?_⟩
    · rw [List.mem_singleton.mp hs]
      exact Finset.mem_range.mpr ha
    · exact Finset.mem_range.mpr (List.mem_range.mp (List.mem_filter.mp hw).1)
  have hreach : ∀ {u v}, Reach next u v ↔ H.MoralReach (A : Set Nat) cond u v := fun {u v} => by
    have he : (fun a b => b ∈ next a) = fun a b => H.MoralAdj (A : Set Nat) a b ∧ b ∉ (cond : Set Nat) := by
      funext u v
      exact propext (hstep u v)
    unfold Reach MixedGraph.MoralReach
    rw [he]
  rw [search_iff hU (by simp)]
  simp only [List.mem_singleton, decide_eq_true_eq, hreach]
  exact ⟨fun ⟨s, v, hs, hr, hv⟩ => hs ▸ hv ▸ hr, fun h => ⟨a, b, rfl, h, rfl⟩⟩

end Augmented

end Antecedent.Identify
