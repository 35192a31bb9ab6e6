import Mathlib.Algebra.GroupWithZero.Nat
import Antecedent.Graph.TemporalPag
import Antecedent.Mixed.Triples
import Antecedent.Search.Listings

/-!
# Discriminating paths

Model of `find_discriminating_paths_for_edge` (`discriminating_paths.rs:72-250`). What `PagOps`
reads of a static and of a temporal PAG are its marked rows, so the search is one over rows. A path
on the stack leads from its newest intermediate to `c`. The two flags of `collect_edge_paths` are
the one `cut`: once the list is full the source returns, and here nothing more is listed.

* `isDiscriminatingPath_iff`: the test on a path.
* **`discriminatingPaths_searched`**: the search lists discriminating paths within its budget, each
  once, and all of them unless it reports a cut.
-/

namespace Antecedent.Discovery

open Graph Listings
open Mixed (windows3)

/-- What a search with a budget promises of the paths it returns with its flag. -/
structure PathsListed (Valid : List Nat → Prop) (maxPaths maxLen : Nat) (r : List (List Nat) × Bool) :
    Prop where
  distinct : r.1.Nodup
  valid : ∀ p ∈ r.1, Valid p ∧ p.length ≤ maxLen
  count : r.1.length ≤ maxPaths
  complete : r.2 = false → ∀ p, Valid p → p ∈ r.1

theorem PathsListed.of_lists {Valid : List Nat → Prop} {maxPaths maxLen : Nat} {s : Found (List Nat)}
    (h : Lists maxPaths (·.length ≤ maxLen) {p | Valid p} ⟨[], false⟩ s) :
    PathsListed Valid maxPaths maxLen (s.out, s.cut) := by
  obtain ⟨new, hout, hnd, hmem, hall⟩ := h.added
  obtain rfl : s.out = new := hout
  exact ⟨hnd, hmem, h.full (Nat.zero_le _), fun hcut => hall.resolve_left (by simpa using hcut)⟩

/-- The nodes `neighbors` lists. -/
def neighborIds (adj : MarkedRows) (v : Nat) : List Nat := (neighbors adj v).map Prod.fst

section Stored

variable {adj : MarkedRows} {n u v : Nat} (h : Stored n adj)

include h

theorem mem_neighborIds : u ∈ neighborIds adj v ↔ (look adj v u).isSome := by
  unfold neighborIds
  rw [List.mem_map, Option.isSome_iff_exists]
  constructor
  · rintro ⟨⟨w, s, t⟩, hm, rfl⟩
    obtain ⟨m, hm⟩ := h.mem_neighbors.mp hm
    exact ⟨_, hm⟩
  · rintro ⟨⟨s, t, m⟩, hl⟩
    exact ⟨(u, s, t), h.mem_neighbors.mpr ⟨m, hl⟩, rfl⟩

theorem nodup_neighborIds : (neighborIds adj v).Nodup := by
  unfold neighborIds neighbors
  rw [List.map_map]
  exact h.nodup v

theorem length_neighborIds_le : (neighborIds adj v).length ≤ adj.length := by
  have hsub : (neighborIds adj v) ⊆ List.range n := fun u hu =>
    List.mem_range.mpr (h.lt_of_look (Option.eq_some_of_isSome ((mem_neighborIds h).mp hu))).2
  have := ((nodup_neighborIds h).subperm hsub).length_le
  rwa [List.length_range, ← h.length] at this

theorem isSome_look_comm : (look adj u v).isSome ↔ (look adj v u).isSome := by
  rw [h.look_symm, Option.isSome_map]

end Stored

/-! ## The test -/

def markAt (e : MarkedEdge) (node : Nat) : Endpoint := if e.a = node then e.atA else e.atB

def arrowInto (adj : MarkedRows) (into source : Nat) : Bool :=
  (edgeBetween adj into source).any fun e => markAt e into = .arrow

def isColliderAt (adj : MarkedRows) (v pred succ : Nat) : Bool :=
  arrowInto adj v pred && arrowInto adj v succ

def isDefiniteParent (adj : MarkedRows) (parent child : Nat) : Bool :=
  (edgeBetween adj parent child).any fun e => markAt e parent = .tail && markAt e child = .arrow

/-- Lines 217-250. The loop over the inner nodes reads the triples of the path without `b`. -/
def isDiscriminatingPath (adj : MarkedRows) (path : List Nat) : Bool :=
  if path.length < 4 then false
  else
    let a := path.getD 0 0
    let b := path.getD (path.length - 1) 0
    let c := path.getD (path.length - 2) 0
    !(edgeBetween adj a b).isSome && (edgeBetween adj c b).any (fun e => markAt e c = .circle) &&
      (windows3 path.dropLast).all (fun t =>
        isColliderAt adj t.2.1 t.1 t.2.2 && isDefiniteParent adj t.2.1 b) &&
      (edgeBetween adj a (path.getD 1 0)).isSome

/-- The edge from `u` has an arrowhead at `v`. -/
def Into (adj : MarkedRows) (v u : Nat) : Prop := ∃ w, look adj v u = some w ∧ w.1 = .arrow

/-- A discriminating path for `c` to `b`, without `b`: a node that is not adjacent to `b`, one or
more colliders that are parents of `b`, and `c`, which has a circle on its edge to `b`. -/
structure Discriminates (adj : MarkedRows) (c b : Nat) (q : List Nat) : Prop where
  ends : [c] <:+ q
  long : 3 ≤ q.length
  apart : ∀ a, q.head? = some a → look adj a b = none
  circle : ∃ v, look adj c b = some v ∧ v.1 = .circle
  inner : ∀ t ∈ windows3 q, Into adj t.2.1 t.1 ∧ Into adj t.2.1 t.2.2 ∧ Dir adj t.2.1 b

section Test

variable {adj : MarkedRows} {n b c : Nat} (h : Stored n adj)

include h

theorem any_edgeBetween {u v : Nat} {P : MarkedEdge → Bool} : (edgeBetween adj u v).any P = true ↔
    ∃ w, look adj u v = some w ∧ P ⟨u, v, w.1, w.2.1, w.2.2⟩ = true := by
  rw [h.edgeBetween_eq, Option.any_map, Option.any_eq_true]

theorem arrowInto_iff {v u : Nat} : arrowInto adj v u = true ↔ Into adj v u := by
  unfold arrowInto Into
  simp only [any_edgeBetween h, markAt, if_pos, decide_eq_true_eq]

theorem isDefiniteParent_iff {v : Nat} : isDefiniteParent adj v b = true ↔ Dir adj v b := by
  unfold isDefiniteParent Dir
  rw [any_edgeBetween h]
  constructor
  · rintro ⟨⟨s, t, m⟩, hl, hw⟩
    have hne := h.ne_of_look hl
    simp only [markAt, if_pos, if_neg hne, Bool.and_eq_true, decide_eq_true_eq] at hw
    exact ⟨m, by rw [hl, hw.1, hw.2]⟩
  · rintro ⟨m, hl⟩
    exact ⟨_, hl, by simp [markAt, h.ne_of_look hl]⟩

/-- **The test on a path that ends in `c` and `b`.** -/
theorem isDiscriminatingPath_iff {q : List Nat} (hc : [c] <:+ q) :
    isDiscriminatingPath adj (q ++ [b]) = true ↔ Discriminates adj c b q := by
  obtain ⟨r, rfl⟩ := hc
  unfold isDiscriminatingPath
  split_ifs with hlen
  · refine iff_of_false id fun hd => ?_
    have := hd.long
    simp only [List.length_append, List.length_singleton] at this hlen
    omega
  obtain ⟨a, d, r, rfl⟩ : ∃ a d r', r = a :: d :: r' := by
    rcases r with _ | ⟨a, _ | ⟨d, r⟩⟩
    · simp at hlen
    · simp at hlen
    · exact ⟨a, d, r, rfl⟩
  have hends : ((a :: d :: r ++ [c]) ++ [b]).getD (((a :: d :: r ++ [c]) ++ [b]).length - 1) 0 = b ∧
      ((a :: d :: r ++ [c]) ++ [b]).getD (((a :: d :: r ++ [c]) ++ [b]).length - 2) 0 = c := by
    constructor <;> simp [List.getD_eq_getElem?_getD]
  simp only [hends, List.dropLast_concat, List.all_eq_true, Bool.and_eq_true, Bool.not_eq_true',
    isColliderAt, arrowInto_iff h, isDefiniteParent_iff h, any_edgeBetween h, h.edgeBetween_isSome]
  constructor
  · rintro ⟨⟨⟨ha, w, hw, hm⟩, hin⟩, -⟩
    refine ⟨⟨a :: d :: r, rfl⟩, by simp, fun x hx => ?_, ⟨w, hw, by simpa [markAt] using hm⟩,
      fun t ht => ⟨(hin t ht).1.1, (hin t ht).1.2, (hin t ht).2⟩⟩
    obtain rfl := Option.some.inj hx
    simpa using ha
  · intro hd
    obtain ⟨w, hw, hm⟩ := hd.circle
    -- the edge between the first two nodes is that of the first collider
    obtain ⟨x, hx⟩ : ∃ x, (a, d, x) ∈ windows3 (a :: d :: r ++ [c]) := by
      cases r with
      | nil => exact ⟨c, List.mem_cons_self⟩
      | cons e r => exact ⟨e, List.mem_cons_self⟩
    obtain ⟨v, hv, -⟩ := (hd.inner _ hx).1
    refine ⟨⟨⟨?_, w, hw, by simpa [markAt] using hm⟩, fun t ht => ?_⟩, ?_⟩
    · rw [show ((a :: d :: r ++ [c]) ++ [b]).getD 0 0 = a from rfl, hd.apart a rfl]
      rfl
    · exact ⟨⟨(hd.inner t ht).1, (hd.inner t ht).2.1⟩, (hd.inner t ht).2.2⟩
    · exact (isSome_look_comm h).mpr (Option.isSome_iff_exists.mpr ⟨v, hv⟩)

end Test

theorem mem_windows3 {t : Nat × Nat × Nat} : ∀ {r p : List Nat}, t ∈ windows3 p → t ∈ windows3 (r ++ p)
  | [], _, ht => ht
  | a :: r, p, ht => by
    have ih := mem_windows3 (r := r) ht
    rw [List.cons_append]
    rcases hr : r ++ p with _ | ⟨x, _ | ⟨y, l⟩⟩
    · exact absurd (hr ▸ ih) List.not_mem_nil
    · exact absurd (hr ▸ ih) List.not_mem_nil
    · exact List.mem_cons_of_mem _ (hr ▸ ih)

/-- What is listed: the paths of R4 that visit no node twice. -/
def Accepted (adj : MarkedRows) (c b : Nat) (q : List Nat) : Prop :=
  (q ++ [b]).Nodup ∧ Discriminates adj c b q

namespace Accepted

variable {adj : MarkedRows} {n b c w x y : Nat} {p q : List Nat}

theorem fresh (hq : Accepted adj c b q) (hp : x :: p <:+ q) : x ≠ b ∧ x ∉ p := by
  have hnd := hq.1.sublist (hp.sublist.append_right [b])
  rw [List.cons_append, List.nodup_cons, List.mem_append, not_or, List.mem_singleton] at hnd
  exact hnd.1.symm

theorem inner (hq : Accepted adj c b q) (hp : w :: x :: y :: p <:+ q) :
    Into adj x w ∧ Into adj x y ∧ Dir adj x b := by
  obtain ⟨r, rfl⟩ := hp
  exact hq.2.inner (w, x, y) (mem_windows3 List.mem_cons_self)

/-- A path goes on with a parent of `b` or ends with a node that is not adjacent to `b`. -/
theorem parent_or_eq (hq : Accepted adj c b q) (hp : x :: y :: p <:+ q) :
    Dir adj x b ∨ q = x :: y :: p ∧ look adj x b = none := by
  by_cases he : q = x :: y :: p
  · exact Or.inr ⟨he, hq.2.apart x (he ▸ rfl)⟩
  · obtain ⟨w, hw⟩ := exists_cons_suffix hp he
    exact Or.inl (hq.inner hw).2.2

theorem adjacent (h : Stored n adj) (hq : Accepted adj c b q) (hp : x :: y :: p <:+ q) :
    x ∈ neighborIds adj y := by
  rw [mem_neighborIds h]
  by_cases he : q = x :: y :: p
  · subst he
    cases p with
    | nil => exact absurd hq.2.long (by simp)
    | cons z p =>
      obtain ⟨v, hv, -⟩ := (hq.2.inner (x, y, z) List.mem_cons_self).1
      exact Option.isSome_iff_exists.mpr ⟨v, hv⟩
  · obtain ⟨w, hw⟩ := exists_cons_suffix hp he
    obtain ⟨v, hv, -⟩ := (hq.inner hw).2.1
    exact (isSome_look_comm h).mp (Option.isSome_iff_exists.mpr ⟨v, hv⟩)

end Accepted

/-! ## The search -/

/-- The neighbors of the newest node. -/
def onward (adj : MarkedRows) : List Nat → List Nat
  | [] => []
  | y :: _ => neighborIds adj y

/-- Lines 142-160: the path is completed by one more node. -/
def completeBy (adj : MarkedRows) (b maxLen : Nat) (p : List Nat) (a : Nat) (s : Found (List Nat)) :
    Found (List Nat) :=
  if a = b ∨ a ∈ p ∨ (edgeBetween adj a b).isSome then s
  else if maxLen < p.length + 2 then s.cutIf true
  else if isDiscriminatingPath adj (a :: p ++ [b]) then s.add (a :: p ++ [b])
  else s

/-- A new intermediate. -/
def mayPrecede (adj : MarkedRows) (b : Nat) (p : List Nat) (pred : Nat) : Bool :=
  decide (pred ≠ b ∧ pred ∉ p) && isDefiniteParent adj pred b

/-- The intermediate before it stays a collider. -/
def keepsCollider (adj : MarkedRows) (b : Nat) : List Nat → Nat → Bool
  | head :: succ :: _, pred => isDefiniteParent adj head b && isColliderAt adj head pred succ
  | _, _ => true

/-- Lines 139-177: what is listed at a path. -/
def visit (adj : MarkedRows) (b limit maxLen : Nat) (p : List Nat) (s : Found (List Nat)) :
    Found (List Nat) :=
  let s := if 2 ≤ p.length then untilFull limit (completeBy adj b maxLen p) (onward adj p) s else s
  if maxLen ≤ p.length + 2 then s.cutIf ((onward adj p).any (mayPrecede adj b p)) else s

/-- Lines 178-199: the paths that are pushed. -/
def extensions (adj : MarkedRows) (b maxLen : Nat) (p : List Nat) : List (List Nat) :=
  if maxLen ≤ p.length + 2 then []
  else ((onward adj p).filter fun pred =>
    mayPrecede adj b p pred && keepsCollider adj b p pred).map (· :: p)

/-- The loop of lines 135-200 over the stack. -/
def grow (adj : MarkedRows) (b limit maxLen : Nat) :
    Nat → List (List Nat) → Found (List Nat) → Found (List Nat)
  | 0, _, s => s
  | _ + 1, [], s => s
  | fuel + 1, p :: stack, s =>
    if limit ≤ s.out.length then s.cutIf true
    else grow adj b limit maxLen fuel ((extensions adj b maxLen p).reverse ++ stack)
      (visit adj b limit maxLen p s)

/-- At most this many turns are spent on a path of the stack and the paths over it. -/
def turns (adj : MarkedRows) (maxLen : Nat) (p : List Nat) : Nat :=
  (adj.length + 1) ^ (maxLen - p.length)

structure DiscriminatingPathBudget where
  maxPathsPerEdge : Nat
  maxLen : Nat

/-- Lines 72-85. -/
def findDiscriminatingPathsForEdge (adj : MarkedRows) (b c : Nat) (budget : DiscriminatingPathBudget) :
    List (List Nat) × Bool :=
  if budget.maxPathsPerEdge = 0 ∨ budget.maxLen < 4 then ([], true)
  else
    let s := grow adj b budget.maxPathsPerEdge budget.maxLen (turns adj budget.maxLen [c] + 1) [[c]]
      ⟨[], false⟩
    (s.out, s.cut)

/-! ## What it lists -/

/-- A path of the search: it ends in `c`, and all but `c` are parents of `b`. -/
structure Growing (adj : MarkedRows) (c b : Nat) (p : List Nat) : Prop where
  simple : c ≠ b → (p ++ [b]).Nodup
  ends : [c] <:+ p
  head : p = [c] ∨ ∃ y l, p = y :: l ∧ Dir adj y b

/-- The paths listed over `p`. -/
abbrev Over (adj : MarkedRows) (c b : Nat) : List Nat → Set (List Nat) :=
  Below (· ++ [b]) (Accepted adj c b)

/-- The paths that one more node completes. -/
def Completed (adj : MarkedRows) (c b : Nat) (p : List Nat) : Set (List Nat) :=
  {f | ∃ x ∈ onward adj p, look adj x b = none ∧ f ∈ Over adj c b (x :: p)}

section Search

variable {adj : MarkedRows} {n b c limit maxLen : Nat} {p p' f : List Nat} {x y : Nat}
  {s : Found (List Nat)} (h : Stored n adj)

theorem Growing.not_accepted (hp : Growing adj c b p) : ¬ Accepted adj c b p := by
  intro hq
  rcases hp.head with rfl | ⟨y, l, rfl, m, hm⟩
  · exact absurd hq.2.long (by simp)
  · rw [hq.2.apart y rfl] at hm
    cases hm

theorem Growing.exists_cons (hp : Growing adj c b p) : ∃ y l, p = y :: l := by
  rcases hp.head with rfl | ⟨y, l, rfl, -⟩
  · exact ⟨c, [], rfl⟩
  · exact ⟨y, l, rfl⟩

/-- A node that is not adjacent to `b` completes the path or is of no use. -/
theorem over_iff (hx : look adj x b = none) : f ∈ Over adj c b (x :: y :: p) ↔
    f = x :: y :: p ++ [b] ∧ Accepted adj c b (x :: y :: p) := by
  constructor
  · rintro ⟨q, rfl, hq, hp⟩
    rcases hq.parent_or_eq hp with ⟨m, hm⟩ | ⟨rfl, -⟩
    · rw [hx] at hm
      cases hm
    · exact ⟨rfl, hq⟩
  · rintro ⟨rfl, hq⟩
    exact ⟨_, rfl, hq, List.suffix_refl _⟩

theorem over_disjoint (hne : x ≠ y) (hf : f ∈ Over adj c b (x :: p)) : f ∉ Over adj c b (y :: p) :=
  below_disjoint (List.append_left_injective [b]) hne hf

include h

theorem completeBy_lists (hp : Growing adj c b (y :: p)) (hs : s.out.length < limit) :
    Lists limit (·.length ≤ maxLen) {f | look adj x b = none ∧ f ∈ Over adj c b (x :: y :: p)} s
      (completeBy adj b maxLen (y :: p) x s) := by
  have hends : [c] <:+ x :: y :: p := hp.ends.trans (List.suffix_cons _ _)
  unfold completeBy
  split_ifs with hskip hlen hdisc
  · refine .skip ?_
    rintro f ⟨hx, q, -, hq, hsuf⟩
    rw [h.edgeBetween_isSome, hx] at hskip
    simp [hq.fresh hsuf] at hskip
  · exact .cutOff
  · simp only [not_or, h.edgeBetween_isSome, Option.not_isSome_iff_eq_none] at hskip
    obtain ⟨hb, hmem, hx⟩ := hskip
    have hd := (isDiscriminatingPath_iff h hends).mp hdisc
    obtain ⟨w, hw, -⟩ := hd.circle
    have hnd : (x :: y :: p ++ [b]).Nodup :=
      List.nodup_cons.mpr ⟨by simpa [hb] using hmem, hp.simple (h.ne_of_look hw)⟩
    refine .add ?_ (fun f => ⟨fun hf => ((over_iff hx).mp hf.2).1, fun hf => ⟨hx, (over_iff hx).mpr
      ⟨hf, hnd, hd⟩⟩⟩) hs
    simp only [List.length_append, List.length_cons, List.length_nil] at hlen ⊢
    omega
  · refine .skip ?_
    rintro f ⟨hx, hf⟩
    exact hdisc ((isDiscriminatingPath_iff h hends).mpr ((over_iff hx).mp hf).2.2)

/-- What is over a path is over one more of its neighbors, which completes it or is an intermediate.
-/
theorem over_cases (hp : Growing adj c b p) (hf : f ∈ Over adj c b p) : f ∈ Completed adj c b p ∨
    ∃ x ∈ onward adj p, mayPrecede adj b p x = true ∧ keepsCollider adj b p x = true ∧
      f ∈ Over adj c b (x :: p) := by
  obtain ⟨x, hx⟩ := below_cons hp.not_accepted hf
  obtain ⟨y, l, rfl⟩ := hp.exists_cons
  obtain ⟨q, he, hq, hsuf⟩ := hx
  have hmem := hq.adjacent h hsuf
  rcases hq.parent_or_eq hsuf with hdir | ⟨-, hnone⟩
  · refine Or.inr ⟨x, hmem, by simp [mayPrecede, hq.fresh hsuf, (isDefiniteParent_iff h).mpr hdir],
      ?_, q, he, hq, hsuf⟩
    cases l with
    | nil => rfl
    | cons z l =>
      obtain ⟨h1, h2, h3⟩ := hq.inner hsuf
      simp [keepsCollider, isColliderAt, (arrowInto_iff h).mpr h1, (arrowInto_iff h).mpr h2,
        (isDefiniteParent_iff h).mpr h3]
  · exact Or.inl ⟨x, hmem, hnone, q, he, hq, hsuf⟩

theorem nodup_onward (p : List Nat) : (onward adj p).Nodup := by
  cases p with
  | nil => exact List.nodup_nil
  | cons y p => exact nodup_neighborIds h

/-- **The visit of a path lists what one more node completes**, and is cut if it leaves out more. -/
theorem visit_lists (limit maxLen : Nat) (s : Found (List Nat)) (hp : Growing adj c b p) :
    Lists limit (·.length ≤ maxLen) (Completed adj c b p) s (visit adj b limit maxLen p s) ∧
      ((visit adj b limit maxLen p s).cut = true ∨ ∀ f ∈ Over adj c b p, f ∈ Completed adj c b p ∨
        ∃ p' ∈ extensions adj b maxLen p, f ∈ Over adj c b p') := by
  have hloop : Lists limit (·.length ≤ maxLen) (Completed adj c b p) s (if 2 ≤ p.length then
      untilFull limit (completeBy adj b maxLen p) (onward adj p) s else s) := by
    obtain ⟨y, l, rfl⟩ := hp.exists_cons
    split_ifs with hlen
    · exact untilFull_lists (fun x _ s hs => completeBy_lists h hp hs) ((nodup_onward h _).imp
        fun hne f hf hf' => over_disjoint hne hf.2 hf'.2)
    · refine .skip ?_
      rintro f ⟨x, -, hx, hf⟩
      have hlong := ((over_iff hx).mp hf).2.2.long
      simp only [List.length_cons] at hlen hlong
      omega
  unfold visit extensions
  simp only
  by_cases hlim : maxLen ≤ p.length + 2
  · rw [if_pos hlim, if_pos hlim]
    cases hany : (onward adj p).any (mayPrecede adj b p) with
    | true => exact ⟨(hloop.trans (T := ∅) .cutOff (by simp)).grow (by simp) (Or.inr (by simp)),
        Or.inl (by simp [Found.cutIf])⟩
    | false =>
      refine ⟨by simpa [Found.cutIf] using hloop, Or.inr fun f hf => Or.inl ?_⟩
      refine (over_cases h hp hf).resolve_right ?_
      rintro ⟨x, hx, hprec, -⟩
      exact List.any_eq_false.mp hany x hx hprec
  · rw [if_neg hlim, if_neg hlim]
    refine ⟨hloop, Or.inr fun f hf => (over_cases h hp hf).imp_right ?_⟩
    rintro ⟨x, hx, h1, h2, hf⟩
    exact ⟨x :: p, List.mem_map.mpr ⟨x, List.mem_filter.mpr ⟨hx, by rw [h1, h2]; rfl⟩, rfl⟩, hf⟩

/-- **A pushed path** is one of the search, over the old one, and shares nothing with what completes
that. -/
theorem Growing.push (hp : Growing adj c b p) (hp' : p' ∈ extensions adj b maxLen p) :
    Growing adj c b p' ∧ (∀ f ∈ Over adj c b p', f ∈ Over adj c b p) ∧
      ∀ f ∈ Completed adj c b p, f ∉ Over adj c b p' := by
  unfold extensions at hp'
  split_ifs at hp' with hlim
  · exact absurd hp' List.not_mem_nil
  simp only [List.mem_map, List.mem_filter, mayPrecede, Bool.and_eq_true, decide_eq_true_eq,
    isDefiniteParent_iff h] at hp'
  obtain ⟨x, ⟨-, ⟨⟨hb, hmem⟩, hdir⟩, -⟩, rfl⟩ := hp'
  refine ⟨⟨fun hcb => List.nodup_cons.mpr ⟨by simpa [hb] using hmem, hp.simple hcb⟩,
    hp.ends.trans (List.suffix_cons _ _), Or.inr ⟨x, p, rfl, hdir⟩⟩, fun f => below_of_cons, ?_⟩
  rintro f ⟨x', -, hx', hf⟩
  refine over_disjoint (fun e => ?_) hf
  obtain ⟨m, hm⟩ := hdir
  rw [← e, hx'] at hm
  cases hm

theorem turns_extensions (b maxLen : Nat) (p : List Nat) :
    ((extensions adj b maxLen p).map (turns adj maxLen)).sum < turns adj maxLen p := by
  unfold extensions
  split_ifs with hlim
  · exact Nat.pow_pos (Nat.succ_pos _)
  · have hlen : (onward adj p).length ≤ adj.length := by
      cases p with
      | nil => exact Nat.zero_le _
      | cons y p => exact length_neighborIds_le h
    have hroom : maxLen - p.length = maxLen - (p.length + 1) + 1 := by omega
    simp only [List.map_map, Function.comp_def, turns, List.length_cons, List.map_const',
      List.sum_replicate_nat, hroom, Nat.pow_succ']
    exact (Nat.mul_le_mul_right _ ((List.length_filter_le _ _).trans hlen)).trans_lt
      (Nat.mul_lt_mul_of_pos_right (Nat.lt_succ_self _) (Nat.pow_pos (Nat.succ_pos _)))

/-- **The loop lists what is over the paths of its stack.** -/
theorem grow_lists : ∀ (fuel : Nat) (stack : List (List Nat)) (s : Found (List Nat)),
    (∀ p ∈ stack, Growing adj c b p) →
    stack.Pairwise (fun p p' => ∀ f ∈ Over adj c b p, f ∉ Over adj c b p') →
    (stack.map (turns adj maxLen)).sum < fuel → Lists limit (·.length ≤ maxLen)
      {f | ∃ p ∈ stack, f ∈ Over adj c b p} s (grow adj b limit maxLen fuel stack s)
  | 0, _, _, _, _, hf => absurd hf (Nat.not_lt_zero _)
  | _ + 1, [], s, _, _, _ => .skip (by simp)
  | fuel + 1, p :: stack, s, hin, hd, hf => by
    rw [grow]
    split_ifs with hfull
    · exact .cutOff
    obtain ⟨hp, hin⟩ := List.forall_mem_cons.mp hin
    obtain ⟨hrest, hd⟩ := List.pairwise_cons.mp hd
    obtain ⟨hv, hall⟩ := visit_lists h limit maxLen s hp
    have hpush := fun p' (hp' : p' ∈ extensions adj b maxLen p) => hp.push h hp'
    have hdone : ∀ f ∈ Completed adj c b p, f ∈ Over adj c b p := by
      rintro f ⟨x, -, -, hf⟩
      exact below_of_cons hf
    have hnext := grow_lists fuel ((extensions adj b maxLen p).reverse ++ stack)
      (visit adj b limit maxLen p s) ?_ ?_ ?_
    · refine (hv.trans hnext ?_).grow ?_ ?_
      · rintro f hf ⟨p', hp', hf'⟩
        rcases List.mem_append.mp hp' with hp' | hp'
        · exact (hpush p' (List.mem_reverse.mp hp')).2.2 f hf hf'
        · exact hrest p' hp' f (hdone f hf) hf'
      · rintro f (hf | ⟨p', hp', hf⟩)
        · exact ⟨p, List.mem_cons_self, hdone f hf⟩
        · rcases List.mem_append.mp hp' with hp' | hp'
          · exact ⟨p, List.mem_cons_self, (hpush p' (List.mem_reverse.mp hp')).2.1 f hf⟩
          · exact ⟨p', List.mem_cons_of_mem _ hp', hf⟩
      · refine hall.imp hnext.cut ?_
        rintro hall f ⟨p', hp', hover⟩
        rcases List.mem_cons.mp hp' with rfl | hp'
        · rcases hall f hover with hcomp | ⟨p'', hp'', hover⟩
          · exact Or.inl hcomp
          · exact Or.inr ⟨p'', List.mem_append_left _ (List.mem_reverse.mpr hp''), hover⟩
        · exact Or.inr ⟨p', List.mem_append_right _ hp', hover⟩
    · intro p' hp'
      rcases List.mem_append.mp hp' with hp' | hp'
      · exact (hpush p' (List.mem_reverse.mp hp')).1
      · exact hin p' hp'
    · refine List.pairwise_append.mpr ⟨List.pairwise_reverse.mpr ?_, hd, fun p' hp' p'' hp'' f hf =>
        hrest p'' hp'' f ((hpush p' (List.mem_reverse.mp hp')).2.1 f hf)⟩
      unfold extensions
      split_ifs
      · exact List.Pairwise.nil
      · exact List.pairwise_map.mpr (((nodup_onward h _).filter _).imp fun hne f hf =>
          over_disjoint hne.symm hf)
    · have hlt := turns_extensions h b maxLen p
      simp only [List.map_cons, List.sum_cons, List.map_append, List.map_reverse, List.sum_append,
        List.sum_reverse] at hf ⊢
      omega

end Search

/-- A discriminating path for `c` to `b`, `b` included. -/
def DiscriminatingPath (adj : MarkedRows) (c b : Nat) (path : List Nat) : Prop :=
  ∃ q, q ++ [b] = path ∧ Accepted adj c b q

theorem findDiscriminatingPathsForEdge_searched {adj : MarkedRows} {n : Nat} (h : Stored n adj)
    (b c : Nat) (budget : DiscriminatingPathBudget) :
    PathsListed (DiscriminatingPath adj c b) budget.maxPathsPerEdge budget.maxLen
      (findDiscriminatingPathsForEdge adj b c budget) := by
  unfold findDiscriminatingPathsForEdge
  split_ifs with hzero
  · exact ⟨List.nodup_nil, by simp, by simp, by simp⟩
  · have hstart : ∀ p ∈ [[c]], Growing adj c b p :=
      List.forall_mem_singleton.mpr ⟨fun hcb => by simpa using hcb, List.suffix_refl _, Or.inl rfl⟩
    refine .of_lists ((grow_lists h _ _ _ hstart (List.pairwise_singleton _ _) (by simp)).grow ?_ (Or.inr ?_))
    · rintro path ⟨p, -, q, hq, hv, -⟩
      exact ⟨q, hq, hv⟩
    · rintro path ⟨q, hq, hv⟩
      exact ⟨[c], List.mem_singleton_self _, q, hq, hv, hv.2.ends⟩

/-- **The search lists the discriminating paths that end at the edge from `c` to `b`**, on every
static and every temporal PAG. -/
theorem discriminatingPaths_searched (g : Pag) (t : TemporalPag) (b c : Nat)
    (budget : DiscriminatingPathBudget) :
    PathsListed (DiscriminatingPath g.adj c b) budget.maxPathsPerEdge budget.maxLen
        (findDiscriminatingPathsForEdge g.adj b c budget) ∧
      PathsListed (DiscriminatingPath t.adj c b) budget.maxPathsPerEdge budget.maxLen
        (findDiscriminatingPathsForEdge t.adj b c budget) :=
  ⟨findDiscriminatingPathsForEdge_searched g.stored b c budget,
    findDiscriminatingPathsForEdge_searched t.stored b c budget⟩

end Antecedent.Discovery
