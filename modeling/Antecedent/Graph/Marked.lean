import Antecedent.Graph.Directed

/-!
# Marked adjacency: the storage of CPDAGs and PAGs

Model of `marked_storage.rs`. Every edge is stored twice, once in the row of each end, with the mark
at the row's own node first.

* `look` reads an edge as the pair of its marks; it is what the rows mean. `Stored` is what every
  operation keeps of the rows: in range, irreflexive, one entry per neighbour, the two halves of an
  edge mirrored.
* Each mutation is stated as an update of `look` (`look_pushMarkedPair`, `setMarks_ok`,
  `look_removeEdge`), so a caller never unfolds a row.
-/

namespace Antecedent.Graph

open Worklist Relation

/-- Lines 12-18. -/
structure AdjEntry where
  neighbor : Nat
  atSelf : Endpoint
  atNeighbor : Endpoint
  middle : MiddleMark

def AdjEntry.isDirectedOut (e : AdjEntry) : Bool :=
  match e.atSelf, e.atNeighbor with
  | .tail, .arrow => true
  | _, _ => false

abbrev MarkedRows := List (List AdjEntry)

/-- The marks of an edge read from one end: there, at the other end, in the middle. -/
abbrev Marks := Endpoint × Endpoint × MiddleMark

/-- The same edge read from the other end. -/
def Marks.flip (v : Marks) : Marks := (v.2.1, v.1, v.2.2)

def AdjEntry.marks (e : AdjEntry) : Marks := (e.atSelf, e.atNeighbor, e.middle)

/-- The entry of `b` with given marks. -/
def AdjEntry.ofMarks (b : Nat) (v : Marks) : AdjEntry := ⟨b, v.1, v.2.1, v.2.2⟩

@[simp] theorem AdjEntry.ofMarks_marks (e : AdjEntry) : AdjEntry.ofMarks e.neighbor e.marks = e :=
  rfl

/-- Lines 40-43. -/
def pushMarkedPair (adj : MarkedRows) (edge : MarkedEdge) : MarkedRows :=
  pushRow (pushRow adj edge.a ⟨edge.b, edge.atA, edge.atB, edge.middle⟩) edge.b
    ⟨edge.a, edge.atB, edge.atA, edge.middle⟩

/-- Lines 47-67. -/
def edgeBetween (adj : MarkedRows) (a b : Nat) : Option MarkedEdge :=
  if adj.length ≤ a ∨ adj.length ≤ b then none
  else ((row adj a).find? fun e => e.neighbor == b).map fun e =>
    ⟨a, b, e.atSelf, e.atNeighbor, e.middle⟩

/-- Lines 70-75. -/
def directedChildren (adj : MarkedRows) (id : Nat) : List Nat :=
  ((row adj id).filter AdjEntry.isDirectedOut).map AdjEntry.neighbor

/-- Lines 78-87. -/
def directedParents (adj : MarkedRows) (id : Nat) : List Nat :=
  ((row adj id).filter fun e => e.atSelf == .arrow && e.atNeighbor == .tail).map
    AdjEntry.neighbor

/-- Lines 137-142. -/
def neighbors (adj : MarkedRows) (id : Nat) : List (Nat × Endpoint × Endpoint) :=
  (row adj id).map fun e => (e.neighbor, e.atSelf, e.atNeighbor)

/-- Lines 228-256. -/
def reachesDirected (adj : MarkedRows) (src dst : Nat) : Bool :=
  if src = dst then true
  else if adj.length ≤ src ∨ adj.length ≤ dst then false
  else search (directedChildren adj) (fun n => (directedChildren adj n).contains dst)
    (adj.length + 1) [src]

/-- The scan of one row in `set_marks`: the first entry of `b` takes the new marks. -/
def setFirst (b : Nat) (atSelf atNeighbor : Endpoint) : List AdjEntry → Option (List AdjEntry)
  | [] => none
  | e :: es =>
    if e.neighbor = b then some ({ e with atSelf, atNeighbor } :: es)
    else (setFirst b atSelf atNeighbor es).map (e :: ·)

/-- Lines 259-292. -/
def setMarks (adj : MarkedRows) (a b : Nat) (atA atB : Endpoint) : Except GraphError MarkedRows :=
  match setFirst b atA atB (row adj a) with
  | none => .error (.unknownNode a)
  | some r =>
    let adj := adj.set a r
    match setFirst a atB atA (row adj b) with
    | none => .error (.unknownNode b)
    | some r => .ok (adj.set b r)

/-- Lines 329-332. -/
def removeEdge (adj : MarkedRows) (a b : Nat) : MarkedRows :=
  (adj.modify a (List.filter fun e => e.neighbor != b)).modify b
    (List.filter fun e => e.neighbor != a)

/-- Lines 148-162. -/
def insertMarkedFinish (adj : MarkedRows) (edge : MarkedEdge) : Except GraphError MarkedRows :=
  if (edgeBetween adj edge.a edge.b).isSome then .error (.duplicateEdge edge.a edge.b)
  else
    match edge.parentChild with
    | some (src, dst) =>
      if reachesDirected adj dst src then .error (.cycle src dst)
      else .ok (pushMarkedPair adj edge)
    | none => .ok (pushMarkedPair adj edge)

/-- Lines 166-183. -/
def orientUndirectedFinish (adj : MarkedRows) (src dst : Nat) : Except GraphError MarkedRows :=
  match edgeBetween adj src dst with
  | none => .error (.unknownNode src)
  | some edge =>
    if !edge.isUndirected then
      .error (.invalidEndpoints "orient_undirected requires an undirected Tail–Tail edge")
    else if reachesDirected adj dst src then .error (.cycle src dst)
    else setMarks adj src dst .tail .arrow

/-- `set_marks_finish` (`marked_storage.rs:202-223`): the rows the call leaves, and its result. -/
def setMarksFinish (adj : MarkedRows) (a b : Nat) (atA atB : Endpoint) (previous : MarkedEdge) :
    MarkedRows × Except GraphError Unit :=
  let edge : MarkedEdge := ⟨a, b, atA, atB, previous.middle⟩
  match edge.parentChild with
  | some (src, dst) =>
    let removed := removeEdge adj a b
    if reachesDirected removed dst src then
      (pushMarkedPair removed previous, .error (.cycle src dst))
    else (pushMarkedPair removed edge, .ok ())
  | none =>
    match setMarks adj a b atA atB with
    | .ok adj' => (adj', .ok ())
    | .error e => (adj, .error e)

/-! ## What the rows mean -/

/-- The marks of the edge between `a` and `b`, read from `a`. -/
def look (adj : MarkedRows) (a b : Nat) : Option Marks :=
  ((row adj a).find? fun e => e.neighbor == b).map AdjEntry.marks

@[simp] theorem look_append_nil (adj : MarkedRows) (a b : Nat) : look (adj ++ [[]]) a b = look adj a b := by
  unfold look
  rw [row_append_nil]

/-- `a → b`. -/
def Dir (adj : MarkedRows) (a b : Nat) : Prop := ∃ m, look adj a b = some (.tail, .arrow, m)

/-- What every operation keeps of the rows over `n` nodes. -/
structure Stored (n : Nat) (adj : MarkedRows) : Prop where
  length : adj.length = n
  in_range : ∀ a, ∀ e ∈ row adj a, e.neighbor < n
  irrefl : ∀ a, look adj a a = none
  nodup : ∀ a, ((row adj a).map AdjEntry.neighbor).Nodup
  mirrored : ∀ a b v, look adj a b = some v → look adj b a = some v.flip

theorem noNodes_le : 0 ≤ u32Max + 1 := Nat.zero_le _

theorem Stored.nil : Stored 0 [] :=
  ⟨rfl, fun _ _ h => absurd h List.not_mem_nil, fun _ => rfl, fun _ => List.nodup_nil,
    fun _ _ _ h => absurd h (by simp [look, row])⟩

variable {n : Nat} {adj : MarkedRows}

variable {b i x y a src dst : Nat} {v : Marks} {adj' : MarkedRows} {s t : Endpoint}

theorem look_eq_some_iff {r : List AdjEntry} (h : (r.map AdjEntry.neighbor).Nodup)
    : (r.find? fun e => e.neighbor == b).map AdjEntry.marks = some v ↔
      AdjEntry.ofMarks b v ∈ r := by
  rw [Option.map_eq_some_iff]
  constructor
  · rintro ⟨e, he, rfl⟩
    have hb : e.neighbor = b := by simpa using List.find?_some he
    subst hb
    exact List.mem_of_find?_eq_some he
  · intro hm
    have hsome : (r.find? fun e => e.neighbor == b).isSome := by
      rw [List.find?_isSome]
      exact ⟨_, hm, by simp [AdjEntry.ofMarks]⟩
    obtain ⟨e, he⟩ := Option.isSome_iff_exists.mp hsome
    have hb : e.neighbor = b := by simpa using List.find?_some he
    have heq : e = AdjEntry.ofMarks b v :=
      List.inj_on_of_nodup_map h (List.mem_of_find?_eq_some he) hm (by rw [hb]; rfl)
    exact ⟨e, he, by rw [heq]; rfl⟩

namespace Stored

variable (h : Stored n adj)

include h

variable {a b : Nat} {v : Marks}

theorem look_iff : look adj a b = some v ↔
    AdjEntry.ofMarks b v ∈ row adj a := look_eq_some_iff (h.nodup a)

theorem mem_row {e : AdjEntry} : e ∈ row adj a ↔ look adj a e.neighbor = some e.marks := by
  rw [h.look_iff, AdjEntry.ofMarks_marks]

theorem lt_of_look (hl : look adj a b = some v) : a < n ∧ b < n := by
  have hb := h.in_range a _ (h.look_iff.mp hl)
  have ha := h.in_range b _ (h.look_iff.mp (h.mirrored a b v hl))
  exact ⟨ha, hb⟩

theorem ne_of_look (hl : look adj a b = some v) : a ≠ b := by
  rintro rfl
  rw [h.irrefl] at hl
  exact absurd hl (by simp)

theorem look_symm : look adj a b = (look adj b a).map Marks.flip := by
  cases hb : look adj b a with
  | some v => rw [h.mirrored b a v hb]; rfl
  | none =>
    cases ha : look adj a b with
    | none => rfl
    | some v =>
      rw [h.mirrored a b v ha] at hb
      exact absurd hb (by simp)

theorem edgeBetween_eq (a b : Nat) : edgeBetween adj a b =
    (look adj a b).map fun v => ⟨a, b, v.1, v.2.1, v.2.2⟩ := by
  unfold edgeBetween
  split_ifs with hr
  · cases hl : look adj a b with
    | none => rfl
    | some v =>
      have := h.lt_of_look hl
      rw [h.length] at hr
      omega
  · unfold look
    cases (row adj a).find? fun e => e.neighbor == b with
    | none => rfl
    | some e => rfl

theorem edgeBetween_isSome (a b : Nat) :
    (edgeBetween adj a b).isSome = (look adj a b).isSome := by
  rw [h.edgeBetween_eq, Option.isSome_map]

theorem mem_directedChildren : b ∈ directedChildren adj a ↔ Dir adj a b := by
  unfold directedChildren Dir
  simp only [List.mem_map, List.mem_filter]
  constructor
  · rintro ⟨e, ⟨he, hd⟩, rfl⟩
    rw [h.mem_row] at he
    refine ⟨e.middle, he.trans ?_⟩
    unfold AdjEntry.isDirectedOut at hd
    unfold AdjEntry.marks
    split at hd
    · rename_i h1 h2
      rw [h1, h2]
    · exact absurd hd Bool.false_ne_true
  · rintro ⟨m, hm⟩
    exact ⟨_, ⟨h.look_iff.mp hm, rfl⟩, rfl⟩

theorem mem_directedParents : b ∈ directedParents adj a ↔ Dir adj b a := by
  unfold directedParents Dir
  simp only [List.mem_map, List.mem_filter, Bool.and_eq_true, beq_iff_eq]
  constructor
  · rintro ⟨e, ⟨he, h1, h2⟩, rfl⟩
    rw [h.mem_row] at he
    refine ⟨e.middle, (h.mirrored _ _ _ he).trans ?_⟩
    unfold AdjEntry.marks Marks.flip
    rw [h1, h2]
  · rintro ⟨m, hm⟩
    exact ⟨_, ⟨h.look_iff.mp (h.mirrored _ _ _ hm), rfl, rfl⟩, rfl⟩

theorem nodup_directedChildren (a : Nat) : (directedChildren adj a).Nodup :=
  (h.nodup a).sublist (List.filter_sublist.map _)

theorem nodup_directedParents (a : Nat) : (directedParents adj a).Nodup :=
  (h.nodup a).sublist (List.filter_sublist.map _)

theorem mem_neighbors {s t : Endpoint} :
    (b, s, t) ∈ neighbors adj a ↔ ∃ m, look adj a b = some (s, t, m) := by
  unfold neighbors
  simp only [List.mem_map, Prod.mk.injEq]
  constructor
  · rintro ⟨e, he, rfl, rfl, rfl⟩
    exact ⟨e.middle, h.mem_row.mp he⟩
  · rintro ⟨m, hm⟩
    exact ⟨_, h.look_iff.mp hm, rfl, rfl, rfl⟩

theorem dir_lt (hd : Dir adj a b) : a < n ∧ b < n := by
  obtain ⟨m, hm⟩ := hd
  exact h.lt_of_look hm

/-- **The cycle check decides reachability along directed edges.** -/
theorem reachesDirected_iff (ha : a < n) (hb : b < n) :
    reachesDirected adj a b = true ↔ ReflTransGen (Dir adj) a b := by
  have hU : Bounded (directedChildren adj) [a] (Finset.range n) := by
    refine ⟨fun s hs => ?_, fun u _ w hw => ?_⟩
    · rw [List.mem_singleton.mp hs]
      exact Finset.mem_range.mpr ha
    · exact Finset.mem_range.mpr (h.dir_lt (h.mem_directedChildren.mp hw)).2
  have hrel : Reach (directedChildren adj) = ReflTransGen (Dir adj) :=
    congrArg ReflTransGen (funext fun a => funext fun b =>
      propext h.mem_directedChildren)
  unfold reachesDirected
  split_ifs with h1 h2
  · subst h1
    exact iff_of_true rfl ReflTransGen.refl
  · rw [h.length] at h2
    omega
  · rw [search_iff hU (by rw [Finset.card_range, h.length]; exact Nat.lt_succ_self n), hrel]
    constructor
    · rintro ⟨s, v, hs, hr, hg⟩
      rw [List.mem_singleton.mp hs] at hr
      rw [List.contains_iff_mem, h.mem_directedChildren] at hg
      exact hr.tail hg
    · intro hr
      rcases ReflTransGen.cases_tail hr with hr | ⟨v, hav, hvb⟩
      · exact absurd hr.symm h1
      · exact ⟨a, v, List.mem_singleton.mpr rfl, hav,
          List.contains_iff_mem.mpr (h.mem_directedChildren.mpr hvb)⟩

end Stored

/-! ## What the mutations do -/

/-- `adj'` is `adj` with the edge between `a` and `b` carrying `v`, read from `a`. -/
def Updates (adj adj' : MarkedRows) (a b : Nat) (v : Marks) : Prop :=
  ∀ x y, look adj' x y = if x = a ∧ y = b then some v else if x = b ∧ y = a then some v.flip
    else look adj x y

theorem look_pushRow (hi : i < adj.length) (e : AdjEntry) (x y : Nat) :
    look (pushRow adj i e) x y =
      if x = i then (look adj x y).or (if e.neighbor = y then some e.marks else none)
      else look adj x y := by
  unfold look
  rw [row_pushRow hi]
  split_ifs with h1 h2
  · subst h1
    rw [List.find?_append, List.find?_singleton, if_pos (by simpa using h2)]
    cases (row adj x).find? fun e => e.neighbor == y <;> rfl
  · subst h1
    rw [List.find?_append, List.find?_singleton, if_neg (by simpa using h2)]
    cases (row adj x).find? fun e => e.neighbor == y <;> rfl
  · rfl

theorem look_none_of_row_nil (h : adj.length ≤ x) : look adj x y = none := by
  unfold look
  rw [row_of_length_le h]
  rfl

theorem look_pushMarkedPair (h : Stored n adj) (edge : MarkedEdge) (ha : edge.a < n)
    (hb : edge.b < n) (hne : edge.a ≠ edge.b) (hnew : look adj edge.a edge.b = none) :
    Updates adj (pushMarkedPair adj edge) edge.a edge.b (edge.atA, edge.atB, edge.middle) := by
  have hnew' : look adj edge.b edge.a = none := by rw [h.look_symm, hnew]; rfl
  intro x y
  unfold pushMarkedPair
  rw [look_pushRow (by rw [length_pushRow, h.length]; exact hb),
    look_pushRow (by rw [h.length]; exact ha)]
  by_cases hxa : x = edge.a
  · subst hxa
    rw [if_neg hne, if_pos rfl]
    by_cases hy : edge.b = y
    · subst hy
      rw [hnew, if_pos rfl, if_pos ⟨rfl, rfl⟩]
      rfl
    · rw [if_neg hy, if_neg fun hc => hy hc.2.symm, if_neg fun hc => hne hc.1, Option.or_none]
  · rw [if_neg fun hc : x = edge.a ∧ y = edge.b => hxa hc.1, if_neg hxa]
    by_cases hxb : x = edge.b
    · subst hxb
      rw [if_pos rfl]
      by_cases hy : edge.a = y
      · subst hy
        rw [hnew', if_pos rfl, if_pos ⟨rfl, rfl⟩]
        rfl
      · rw [if_neg hy, if_neg fun hc => hy hc.2.symm, Option.or_none]
    · rw [if_neg hxb, if_neg fun hc => hxb hc.1]

theorem setFirst_some {b : Nat} : ∀ {r : List AdjEntry},
    (r.map AdjEntry.neighbor).Nodup → ∀ {v : Marks},
      (r.find? fun e => e.neighbor == b).map AdjEntry.marks = some v →
      ∃ r', setFirst b s t r = some r' ∧ r'.map AdjEntry.neighbor = r.map AdjEntry.neighbor ∧
        ∀ y, (r'.find? fun e => e.neighbor == y).map AdjEntry.marks =
          if y = b then some (s, t, v.2.2)
          else (r.find? fun e => e.neighbor == y).map AdjEntry.marks
  | [], _, _, h => by simp at h
  | e :: es, hn, v, h => by
    unfold setFirst
    by_cases he : e.neighbor = b
    · have hv : e.marks = v := by
        rw [List.find?_cons_of_pos (by simpa using he)] at h
        simpa using h
      rw [if_pos he]
      refine ⟨_, rfl, rfl, fun y => ?_⟩
      by_cases hy : y = b
      · rw [if_pos hy, List.find?_cons_of_pos (by simp [he, hy]), ← hv]
        rfl
      · rw [if_neg hy, List.find?_cons_of_neg (by simpa [he] using Ne.symm hy),
          List.find?_cons_of_neg (by simpa [he] using Ne.symm hy)]
    · rw [List.find?_cons_of_neg (by simpa using he)] at h
      obtain ⟨r', hr', hmap, hfind⟩ := setFirst_some (List.nodup_cons.mp hn).2 h
      rw [if_neg he, hr']
      refine ⟨e :: r', rfl, by rw [List.map_cons, List.map_cons, hmap], fun y => ?_⟩
      by_cases hy : e.neighbor = y
      · rw [List.find?_cons_of_pos (by simpa using hy), if_neg fun hc => he (hy.trans hc),
          List.find?_cons_of_pos (by simpa using hy)]
      · rw [List.find?_cons_of_neg (by simpa using hy), hfind,
          List.find?_cons_of_neg (by simpa using hy)]

theorem row_set (hi : i < adj.length) (r : List AdjEntry) (x : Nat) :
    row (adj.set i r) x = if x = i then r else row adj x := by
  unfold row
  rw [List.getD_eq_getElem?_getD, List.getElem?_set, List.getD_eq_getElem?_getD]
  split_ifs with h1 h2 h2
  · rfl
  · exact absurd h1.symm h2
  · exact absurd h2.symm h1
  · rfl

/-- `set_marks` on an edge that is there: it succeeds and changes nothing else. -/
theorem setMarks_ok (h : Stored n adj) (hl : look adj a b = some v)
    (s t : Endpoint) : ∃ adj', setMarks adj a b s t = .ok adj' ∧ Updates adj adj' a b (s, t, v.2.2) ∧
      adj'.length = adj.length ∧
      ∀ x, (row adj' x).map AdjEntry.neighbor = (row adj x).map AdjEntry.neighbor := by
  obtain ⟨ha, hb⟩ := h.lt_of_look hl
  have hne := h.ne_of_look hl
  have hlb := h.mirrored a b v hl
  obtain ⟨ra, hra, hma, hfa⟩ := setFirst_some (s := s) (t := t) (h.nodup a) hl
  obtain ⟨rb, hrb, hmb, hfb⟩ := setFirst_some (s := t) (t := s) (h.nodup b) hlb
  have hla : a < adj.length := by rw [h.length]; exact ha
  have hlb' : b < (adj.set a ra).length := by rw [List.length_set, h.length]; exact hb
  have hrow : row (adj.set a ra) b = row adj b := by rw [row_set hla, if_neg hne.symm]
  refine ⟨(adj.set a ra).set b rb, ?_, fun x y => ?_, by simp, fun x => ?_⟩
  · unfold setMarks
    rw [hra]
    simp only
    rw [hrow, hrb]
  · unfold look
    rw [row_set hlb', row_set hla]
    by_cases hxb : x = b
    · subst hxb
      rw [if_pos rfl, hfb, if_neg fun hc : x = a ∧ y = x => hne hc.1.symm]
      by_cases hy : y = a
      · rw [if_pos hy, if_pos ⟨rfl, hy⟩]
        rfl
      · rw [if_neg hy, if_neg fun hc => hy hc.2]
    · rw [if_neg hxb, if_neg fun hc : x = b ∧ y = a => hxb hc.1]
      by_cases hxa : x = a
      · subst hxa
        rw [if_pos rfl, hfa]
        by_cases hy : y = b
        · rw [if_pos hy, if_pos ⟨rfl, hy⟩]
        · rw [if_neg hy, if_neg fun hc => hy hc.2]
      · rw [if_neg hxa, if_neg fun hc => hxa hc.1]
  · rw [row_set hlb', row_set hla]
    split_ifs with h1 h2
    · rw [hmb, h1]
    · rw [hma, h2]
    · rfl

theorem row_modify (f : List AdjEntry → List AdjEntry) (hf : f [] = []) (i x : Nat) :
    row (adj.modify i f) x = if x = i then f (row adj x) else row adj x := by
  unfold row
  rw [List.getD_eq_getElem?_getD, List.getElem?_modify, List.getD_eq_getElem?_getD]
  split_ifs with h1 h2 h2
  · cases adj[x]? with
    | none => exact hf.symm
    | some r => rfl
  · exact absurd h1.symm h2
  · exact absurd h2.symm h1
  · simp

theorem look_removeEdge (adj : MarkedRows) (a b x y : Nat) : look (removeEdge adj a b) x y =
    if (x = a ∧ y = b) ∨ (x = b ∧ y = a) then none else look adj x y := by
  have hfind : ∀ (c : Nat) (r : List AdjEntry),
      (r.filter fun e => e.neighbor != c).find? (fun e => e.neighbor == y) =
        if y = c then none else r.find? fun e => e.neighbor == y := by
    intro c r
    rw [List.find?_filter]
    split_ifs with hy
    · subst hy
      rw [List.find?_eq_none]
      intro e _
      simp
    · refine congrArg (fun p => r.find? p) (funext fun e => ?_)
      by_cases he : e.neighbor = y
      · simp [he, hy]
      · simp [he]
  unfold removeEdge look
  rw [row_modify _ rfl, row_modify _ rfl]
  by_cases hxb : x = b <;> by_cases hxa : x = a
  · subst hxb
    subst hxa
    simp only [if_true, hfind, true_and, or_self]
    split_ifs <;> rfl
  · subst hxb
    simp only [if_true, hxa, if_false, hfind, false_and, true_and, false_or]
    split_ifs <;> rfl
  · subst hxa
    simp only [if_true, hxb, if_false, hfind, false_and, true_and, or_false]
    split_ifs <;> rfl
  · simp [hxa, hxb]

/-! ## What the mutations keep -/

/-- No directed cycle. -/
def DirAcyclic (adj : MarkedRows) : Prop := ∀ v, ¬ TransGen (Dir adj) v v

theorem DirAcyclic.nil : DirAcyclic [] := by
  intro v h
  obtain ⟨u, ⟨m, hm⟩, -⟩ := TransGen.head'_iff.mp h
  exact absurd hm (by simp [look, row])

theorem Updates.stored (h : Stored n adj)
    (hu : Updates adj adj' a b v) (ha : a < n) (hb : b < n) (hne : a ≠ b)
    (hlen : adj'.length = adj.length)
    (hnd : ∀ x, ((row adj' x).map AdjEntry.neighbor).Nodup) : Stored n adj' := by
  refine ⟨by rw [hlen, h.length], fun x e he => ?_, fun x => ?_, hnd, fun x y w hw => ?_⟩
  · have hl : look adj' x e.neighbor = some e.marks := (look_eq_some_iff (hnd x)).mpr he
    rw [hu] at hl
    split_ifs at hl with h1 h2
    · rw [h1.2]
      exact hb
    · rw [h2.2]
      exact ha
    · exact (h.lt_of_look hl).2
  · rw [hu, if_neg fun hc : x = a ∧ x = b => hne (hc.1.symm.trans hc.2),
      if_neg fun hc : x = b ∧ x = a => hne (hc.2.symm.trans hc.1), h.irrefl]
  · rw [hu] at hw ⊢
    by_cases h1 : x = a ∧ y = b
    · rw [if_pos h1] at hw
      cases hw
      rw [if_neg fun hc => hne (h1.1.symm.trans hc.2), if_pos ⟨h1.2, h1.1⟩]
    · rw [if_neg h1] at hw
      split_ifs at hw with h2
      · cases hw
        rw [if_pos ⟨h2.2, h2.1⟩]
        rfl
      · rw [if_neg fun hc => h2 ⟨hc.2, hc.1⟩, if_neg fun hc => h1 ⟨hc.2, hc.1⟩]
        exact h.mirrored x y w hw

theorem notMem_map_neighbor (h : look adj x y = none) :
    y ∉ (row adj x).map AdjEntry.neighbor := by
  unfold look at h
  rw [Option.map_eq_none_iff, List.find?_eq_none] at h
  rintro hc
  obtain ⟨e, he, rfl⟩ := List.mem_map.mp hc
  exact h e he (by simp)

section

variable (h : Stored n adj)

include h

theorem pushMarkedPair_stored (edge : MarkedEdge) (ha : edge.a < n) (hb : edge.b < n)
    (hne : edge.a ≠ edge.b) (hnew : look adj edge.a edge.b = none) :
    Stored n (pushMarkedPair adj edge) := by
  refine (look_pushMarkedPair h edge ha hb hne hnew).stored h ha hb hne (by simp [pushMarkedPair])
    fun x => ?_
  have snoc : ∀ {r : List AdjEntry} {e : AdjEntry}, (r.map AdjEntry.neighbor).Nodup →
      e.neighbor ∉ r.map AdjEntry.neighbor → ((r ++ [e]).map AdjEntry.neighbor).Nodup := by
    intro r e hr he
    rw [List.map_append]
    refine List.nodup_append.mpr ⟨hr, List.nodup_singleton _, fun u hu w hw huw => ?_⟩
    rw [List.map_singleton, List.mem_singleton] at hw
    exact he (hw ▸ huw ▸ hu)
  have hnew' : look adj edge.b edge.a = none := by rw [h.look_symm, hnew]; rfl
  unfold pushMarkedPair
  rw [row_pushRow (by rw [length_pushRow, h.length]; exact hb),
    row_pushRow (by rw [h.length]; exact ha), row_pushRow (by rw [h.length]; exact ha),
    if_neg hne.symm]
  split_ifs with h1 h2
  · exact snoc (h.nodup _) (notMem_map_neighbor hnew')
  · exact snoc (h.nodup _) (notMem_map_neighbor hnew)
  · exact h.nodup x

/-- A new node without edges. -/
theorem Stored.append_nil : Stored (n + 1) (adj ++ [[]]) := by
  refine ⟨by simp [h.length], fun a e he => ?_, fun a => ?_, fun a => ?_, fun a b v hl => ?_⟩
  · rw [row_append_nil] at he
    exact Nat.lt_succ_of_lt (h.in_range a e he)
  · rw [look_append_nil, h.irrefl]
  · rw [row_append_nil]
    exact h.nodup a
  · rw [look_append_nil] at hl ⊢
    exact h.mirrored a b v hl

theorem removeEdge_stored (a b : Nat) : Stored n (removeEdge adj a b) := by
  have hrow : ∀ x, List.Sublist (row (removeEdge adj a b) x) (row adj x) := by
    intro x
    unfold removeEdge
    rw [row_modify _ rfl, row_modify _ rfl]
    split_ifs
    · exact List.filter_sublist.trans List.filter_sublist
    · exact List.filter_sublist
    · exact List.filter_sublist
    · exact List.Sublist.refl _
  refine ⟨by simp [removeEdge, h.length], fun x e he => h.in_range x e ((hrow x).subset he),
    fun x => ?_, fun x => (h.nodup x).sublist ((hrow x).map _), fun x y v hv => ?_⟩
  · rw [look_removeEdge, h.irrefl]
    exact ite_self _
  · rw [look_removeEdge] at hv ⊢
    split_ifs at hv with h1
    rw [if_neg (by tauto)]
    exact h.mirrored x y v hv

theorem setMarks_stored (hl : look adj a b = some v)
    (hs : setMarks adj a b s t = .ok adj') : Stored n adj' ∧ Updates adj adj' a b (s, t, v.2.2) := by
  obtain ⟨adj₁, hok, hu, hlen, hmap⟩ := setMarks_ok h hl s t
  obtain rfl := Except.ok.inj (hok.symm.trans hs)
  obtain ⟨ha, hb⟩ := h.lt_of_look hl
  refine ⟨hu.stored h ha hb (h.ne_of_look hl) hlen fun x => ?_, hu⟩
  rw [hmap]
  exact h.nodup x

end

/-- The directed edges after an update: those of other pairs, and the new one if its marks make
one. -/
theorem Updates.dir (hu : Updates adj adj' a b v) (hd : Dir adj' x y) : Dir adj x y ∨
      (x = a ∧ y = b ∧ v.1 = .tail ∧ v.2.1 = .arrow) ∨
      (x = b ∧ y = a ∧ v.1 = .arrow ∧ v.2.1 = .tail) := by
  obtain ⟨m, hm⟩ := hd
  rw [hu] at hm
  split_ifs at hm with h1 h2
  · cases hm
    exact Or.inr (Or.inl ⟨h1.1, h1.2, rfl, rfl⟩)
  · obtain ⟨w1, w2, w3⟩ := v
    simp only [Marks.flip, Option.some.injEq, Prod.mk.injEq] at hm
    exact Or.inr (Or.inr ⟨h2.1, h2.2, hm.2.1, hm.1⟩)
  · exact Or.inl ⟨m, hm⟩

theorem parentChild_eq_some {e : MarkedEdge} :
    e.parentChild = some (src, dst) ↔
      (e.atA = .tail ∧ e.atB = .arrow ∧ src = e.a ∧ dst = e.b) ∨
      (e.atA = .arrow ∧ e.atB = .tail ∧ src = e.b ∧ dst = e.a) := by
  obtain ⟨a, b, s, t, m⟩ := e
  unfold MarkedEdge.parentChild
  cases s <;> cases t <;> simp [eq_comm]

theorem Updates.acyclic (edge : MarkedEdge) {m : MiddleMark}
    (hu : Updates adj adj' edge.a edge.b (edge.atA, edge.atB, m)) (hac : DirAcyclic adj)
    (hcyc : ∀ src dst, edge.parentChild = some (src, dst) →
      ¬ ReflTransGen (Dir adj) dst src) : DirAcyclic adj' := by
  cases hp : edge.parentChild with
  | some p =>
    obtain ⟨src, dst⟩ := p
    refine fun v => acyclic_insert (u := src) (v := dst) hac (fun x y hxy => ?_)
      (hcyc src dst hp) v
    rcases hu.dir hxy with h | ⟨rfl, rfl, h1, h2⟩ | ⟨rfl, rfl, h1, h2⟩
    · exact Or.inl h
    · rcases parentChild_eq_some.mp hp with ⟨-, -, rfl, rfl⟩ | ⟨h3, -, -, -⟩
      · exact Or.inr ⟨rfl, rfl⟩
      · rw [h3] at h1
        exact absurd h1 (by simp)
    · rcases parentChild_eq_some.mp hp with ⟨h3, -, -, -⟩ | ⟨-, -, rfl, rfl⟩
      · rw [h3] at h1
        exact absurd h1 (by simp)
      · exact Or.inr ⟨rfl, rfl⟩
  | none =>
    intro v hv
    refine hac v (TransGen.mono (fun x y hxy => ?_) v v hv)
    rcases hu.dir hxy with h | ⟨rfl, rfl, h1, h2⟩ | ⟨rfl, rfl, h1, h2⟩
    · exact h
    · rw [parentChild_eq_some.mpr (Or.inl ⟨h1, h2, rfl, rfl⟩)] at hp
      exact absurd hp (by simp)
    · rw [parentChild_eq_some.mpr (Or.inr ⟨h1, h2, rfl, rfl⟩)] at hp
      exact absurd hp (by simp)

/-- **A checked insertion keeps the rows stored and acyclic.** -/
theorem insertMarkedFinish_ok (h : Stored n adj) (hac : DirAcyclic adj) {edge : MarkedEdge}
    (ha : edge.a < n) (hb : edge.b < n) (hne : edge.a ≠ edge.b)
    (hok : insertMarkedFinish adj edge = .ok adj') :
    look adj edge.a edge.b = none ∧ Stored n adj' ∧ DirAcyclic adj' ∧
      Updates adj adj' edge.a edge.b (edge.atA, edge.atB, edge.middle) := by
  unfold insertMarkedFinish at hok
  split_ifs at hok with hdup
  have hnew : look adj edge.a edge.b = none := by
    rw [h.edgeBetween_isSome] at hdup
    simpa using hdup
  have hst := pushMarkedPair_stored h edge ha hb hne hnew
  have hu := look_pushMarkedPair h edge ha hb hne hnew
  split at hok
  · rename_i src dst hp
    split_ifs at hok with hcyc
    cases hok
    refine ⟨hnew, hst, hu.acyclic edge hac fun src' dst' hp' hr => hcyc ?_, hu⟩
    rw [hp, Option.some.injEq, Prod.mk.injEq] at hp'
    obtain ⟨rfl, rfl⟩ := hp'
    have hlt : src < n ∧ dst < n := by
      rcases parentChild_eq_some.mp hp with ⟨-, -, rfl, rfl⟩ | ⟨-, -, rfl, rfl⟩
      · exact ⟨ha, hb⟩
      · exact ⟨hb, ha⟩
    exact (h.reachesDirected_iff hlt.2 hlt.1).mpr hr
  · rename_i hp
    cases hok
    refine ⟨hnew, hst, hu.acyclic edge hac fun src' dst' hp' => ?_, hu⟩
    rw [hp] at hp'
    exact absurd hp' (by simp)

/-- **`orient_undirected_finish` orients an undirected edge unless that closes a cycle.** -/
theorem orientUndirectedFinish_iff (h : Stored n adj) (hs : src < n) (hd : dst < n)
    : orientUndirectedFinish adj src dst = .ok adj' ↔
      ∃ m, look adj src dst = some (.tail, .tail, m) ∧
        ¬ ReflTransGen (Dir adj) dst src ∧
        setMarks adj src dst .tail .arrow = .ok adj' := by
  unfold orientUndirectedFinish
  rw [h.edgeBetween_eq]
  cases hl : look adj src dst with
  | none => simp
  | some v =>
    obtain ⟨s, t, m⟩ := v
    simp only [Option.map_some, Option.some.injEq, Prod.mk.injEq, MarkedEdge.isUndirected,
      ← h.reachesDirected_iff hd hs]
    cases hr : reachesDirected adj dst src <;> cases s <;> cases t <;> simp

end Antecedent.Graph
