import Antecedent.Graph.Marked

/-!
# PAGs

Model of the storage half of `pag.rs` (lines 43-345): nodes, marked rows, the checked insertions,
`set_marks` and `remove_edge`. The cache of class members takes no part in equality, is cleared by
every mutation and holds what `class_members` would compute again, so it has no counterpart.

* `Pag` carries what its constructors keep: stored and acyclic rows over static nodes.
-/

namespace Antecedent.Graph

open Mixed Relation
open Worklist

/-! ## Reading marks -/

abbrev Look := Nat → Nat → Option Marks

/-- `a → b` among marks. -/
def Look.Dir (L : Look) (a b : Nat) : Prop := ∃ m, L a b = some (.tail, .arrow, m)

/-- `a ↔ b` among marks. -/
def Look.Bi (L : Look) (a b : Nat) : Prop := ∃ m, L a b = some (.arrow, .arrow, m)

/-- Every edge reads the same from both ends. -/
def Look.Mirrored (L : Look) : Prop := ∀ a b v, L a b = some v → L b a = some v.flip

variable {a b n : Nat} {adj : MarkedRows} {v : Marks}

theorem Look.Mirrored.bi_symm {L : Look} (h : L.Mirrored) (hb : L.Bi a b) :
    L.Bi b a := by
  obtain ⟨m, hm⟩ := hb
  exact ⟨m, h a b _ hm⟩

def Look.mixed (L : Look) (h : L.Mirrored) : MixedGraph Nat where
  dir := L.Dir
  bi := L.Bi
  bi_symm := h.bi_symm

/-! ## The graph -/

/-- Lines 44-49. -/
structure Pag where
  nodes : List NodeRef
  adj : MarkedRows
  node_ids : nodes.length ≤ u32Max + 1
  stored : Stored nodes.length adj
  acyclic : DirAcyclic adj
  static : ∀ node ∈ nodes, node.isStaticGraphNode = true

theorem removeEdge_acyclic (hac : DirAcyclic adj) (a b : Nat) :
    DirAcyclic (removeEdge adj a b) := by
  intro w hw
  refine hac w (TransGen.mono (fun x y hxy => ?_) w w hw)
  obtain ⟨m, hm⟩ := hxy
  rw [look_removeEdge] at hm
  split_ifs at hm
  exact ⟨m, hm⟩

/-- `set_marks_finish`, on an edge that is there. -/
theorem setMarksFinish_spec (h : Stored n adj) (hac : DirAcyclic adj)
    (hl : look adj a b = some v) (s t : Endpoint) :
    let r := setMarksFinish adj a b s t ⟨a, b, v.1, v.2.1, v.2.2⟩
    Stored n r.1 ∧ DirAcyclic r.1 ∧
      ((r.2 = .ok () ∧ Updates adj r.1 a b (s, t, v.2.2)) ∨
        ∃ src dst, (⟨a, b, s, t, v.2.2⟩ : MarkedEdge).parentChild = some (src, dst) ∧
          r.2 = .error (.cycle src dst) ∧ (∀ x y, look r.1 x y = look adj x y) ∧
          ReflTransGen (fun x y => Dir adj x y ∧ ¬ (x = a ∧ y = b) ∧ ¬ (x = b ∧ y = a))
            dst src) := by
  obtain ⟨ha, hb⟩ := h.lt_of_look hl
  have hne := h.ne_of_look hl
  have hrem := removeEdge_stored h a b
  have hnone : look (removeEdge adj a b) a b = none := by
    rw [look_removeEdge, if_pos (Or.inl ⟨rfl, rfl⟩)]
  have hdir : ∀ x y, Dir (removeEdge adj a b) x y ↔
      Dir adj x y ∧ ¬ (x = a ∧ y = b) ∧ ¬ (x = b ∧ y = a) := by
    intro x y
    unfold Dir
    rw [look_removeEdge, ← not_or]
    split_ifs with hc <;> simp [hc]
  have hracy : DirAcyclic (removeEdge adj a b) := removeEdge_acyclic hac a b
  -- an edge pushed on the rows without it updates the rows with it
  have hover : ∀ {adj' : MarkedRows} {w : Marks}, Updates (removeEdge adj a b) adj' a b w →
      Updates adj adj' a b w := by
    intro adj' w hu x y
    rw [hu, look_removeEdge]
    split_ifs with h1 h2 h3 <;> first | rfl | tauto
  unfold setMarksFinish
  simp only
  cases hp : (⟨a, b, s, t, v.2.2⟩ : MarkedEdge).parentChild with
  | some p =>
    obtain ⟨src, dst⟩ := p
    have hlt : src < n ∧ dst < n := by
      rcases parentChild_eq_some.mp hp with ⟨-, -, rfl, rfl⟩ | ⟨-, -, rfl, rfl⟩
      · exact ⟨ha, hb⟩
      · exact ⟨hb, ha⟩
    simp only
    split_ifs with hcyc
    · have hu : Updates adj (pushMarkedPair (removeEdge adj a b) ⟨a, b, v.1, v.2.1, v.2.2⟩) a b v :=
        hover (look_pushMarkedPair hrem ⟨a, b, v.1, v.2.1, v.2.2⟩ ha hb hne hnone)
      have hsame : ∀ x y, look (pushMarkedPair (removeEdge adj a b) ⟨a, b, v.1, v.2.1, v.2.2⟩) x y =
          look adj x y := by
        intro x y
        rw [hu]
        split_ifs with h1 h2
        · rw [h1.1, h1.2, hl]
        · rw [h2.1, h2.2, h.mirrored a b v hl]
        · rfl
      have hd : ∀ x y, Dir (pushMarkedPair (removeEdge adj a b) ⟨a, b, v.1, v.2.1, v.2.2⟩) x y →
          Dir adj x y := by
        rintro x y ⟨m, hm⟩
        exact ⟨m, (hsame x y).symm.trans hm⟩
      refine ⟨pushMarkedPair_stored hrem ⟨a, b, v.1, v.2.1, v.2.2⟩ ha hb hne hnone,
        fun w hw => hac w (TransGen.mono hd w w hw), Or.inr ⟨src, dst, rfl, rfl, hsame, ?_⟩⟩
      exact ReflTransGen.mono (fun x y hxy => (hdir x y).mp hxy) _ _
        ((hrem.reachesDirected_iff hlt.2 hlt.1).mp hcyc)
    · have hu := look_pushMarkedPair hrem ⟨a, b, s, t, v.2.2⟩ ha hb hne hnone
      refine ⟨pushMarkedPair_stored hrem ⟨a, b, s, t, v.2.2⟩ ha hb hne hnone,
        hu.acyclic ⟨a, b, s, t, v.2.2⟩ hracy fun src' dst' hp' hr => hcyc ?_,
        Or.inl ⟨rfl, hover hu⟩⟩
      obtain ⟨rfl, rfl⟩ := Prod.mk.inj (Option.some.inj (hp.symm.trans hp'))
      exact (hrem.reachesDirected_iff hlt.2 hlt.1).mpr hr
  | none =>
    obtain ⟨adj', hok, hu, -, -⟩ := setMarks_ok h hl s t
    simp only [hok]
    refine ⟨(setMarks_stored h hl hok).1,
      Updates.acyclic ⟨a, b, s, t, v.2.2⟩ hu hac fun src' dst' hp' => ?_, Or.inl ⟨trivial, hu⟩⟩
    exact absurd (hp.symm.trans hp') (by simp)

theorem setMarksFinish_kept (h : Stored n adj) (hac : DirAcyclic adj)
    {previous : MarkedEdge} (he : edgeBetween adj a b = some previous)
    (s t : Endpoint) : Stored n (setMarksFinish adj a b s t previous).1 ∧
      DirAcyclic (setMarksFinish adj a b s t previous).1 := by
  rw [h.edgeBetween_eq, Option.map_eq_some_iff] at he
  obtain ⟨v, hl, rfl⟩ := he
  obtain ⟨h1, h2, -⟩ := setMarksFinish_spec h hac hl s t
  exact ⟨h1, h2⟩

namespace Pag

def empty : Pag where
  nodes := []
  adj := []
  node_ids := noNodes_le
  stored := Stored.nil
  acyclic := DirAcyclic.nil
  static := fun _ h => absurd h List.not_mem_nil

def nodeCount (g : Pag) : Nat := g.nodes.length

/-- Lines 127-138. -/
def addNode (g : Pag) (node : NodeRef) : Except GraphError (Pag × Nat) :=
  if hn : node.isStaticGraphNode = true then
    if hl : g.nodes.length ≤ u32Max then
      .ok ({
        nodes := g.nodes ++ [node]
        adj := g.adj ++ [[]]
        node_ids := by rw [List.length_append, List.length_singleton]; omega
        stored := by
          rw [List.length_append, List.length_singleton]
          exact g.stored.append_nil
        acyclic := fun v hv => g.acyclic v (TransGen.mono (fun a b ⟨m, hm⟩ =>
          ⟨m, by rwa [look_append_nil] at hm⟩) v v hv)
        static := fun nd hnd => by
          rcases List.mem_append.mp hnd with hnd | hnd
          · exact g.static nd hnd
          · rw [List.mem_singleton.mp hnd]
            exact hn }, g.nodes.length)
    else .error .tooManyNodes
  else .error (.invalidEndpoints "Pag accepts only Static or Unfolded nodes")

/-- Lines 79-85. -/
def withVariables (n : Nat) : Pag :=
  (List.range n).foldl (fun g i => match g.addNode (.static i) with
    | .ok (g', _) => g'
    | .error _ => g) empty

/-- Lines 166-177. -/
def insertMarked (g : Pag) (edge : MarkedEdge) : Except GraphError Pag :=
  if hne : edge.a = edge.b then .error (.invalidEndpoints "Pag rejects self-loops")
  else if ha : edge.a < g.nodeCount then
    if hb : edge.b < g.nodeCount then
      match hi : insertMarkedFinish g.adj edge with
      | .error e => .error e
      | .ok adj =>
        have h := insertMarkedFinish_ok g.stored g.acyclic ha hb hne hi
        .ok ⟨g.nodes, adj, g.node_ids, h.2.1, h.2.2.1, g.static⟩
    else .error (.unknownNode edge.b)
  else .error (.unknownNode edge.a)

def insertDirected (g : Pag) (src dst : Nat) : Except GraphError Pag :=
  g.insertMarked (.directed src dst)

def insertCircleArrow (g : Pag) (src dst : Nat) : Except GraphError Pag :=
  g.insertMarked ⟨src, dst, .circle, .arrow, .empty⟩

/-- `insert_circle_circle`: the smaller node first. -/
def insertCircleCircle (g : Pag) (a b : Nat) : Except GraphError Pag :=
  g.insertMarked (if a ≤ b then ⟨a, b, .circle, .circle, .empty⟩ else ⟨b, a, .circle, .circle, .empty⟩)

def insertBidirected (g : Pag) (a b : Nat) : Except GraphError Pag :=
  g.insertMarked (.bidirected a b)

def hasEdge (g : Pag) (a b : Nat) : Bool := (edgeBetween g.adj a b).isSome

def neighbors (g : Pag) (id : Nat) : List (Nat × Endpoint × Endpoint) := Graph.neighbors g.adj id

/-- `reaches_directed_with`. -/
def reachesDirected (g : Pag) (src dst : Nat) : Bool := Graph.reachesDirected g.adj src dst

/-- `set_marks` (`pag.rs:278-294`): the graph the call leaves, and its result. -/
def setMarks (g : Pag) (a b : Nat) (atA atB : Endpoint) : Pag × Except GraphError Unit :=
  if g.nodeCount ≤ a then (g, .error (.unknownNode a))
  else if g.nodeCount ≤ b then (g, .error (.unknownNode b))
  else
    match h : edgeBetween g.adj a b with
    | none => (g, .error (.unknownNode a))
    | some previous =>
      let r := setMarksFinish g.adj a b atA atB previous
      have hr := setMarksFinish_kept g.stored g.acyclic h atA atB
      (⟨g.nodes, r.1, g.node_ids, hr.1, hr.2, g.static⟩, r.2)

/-- Lines 290-292. -/
def markConflict (g : Pag) (a b : Nat) : Pag × Except GraphError Unit :=
  g.setMarks a b .conflict .conflict

/-- Lines 299-308. -/
def removeEdge (g : Pag) (a b : Nat) : Except GraphError Pag :=
  if g.nodeCount ≤ a then .error (.unknownNode a)
  else if g.nodeCount ≤ b then .error (.unknownNode b)
  else if (edgeBetween g.adj a b).isNone then .error (.unknownNode a)
  else
    .ok ⟨g.nodes, Graph.removeEdge g.adj a b, g.node_ids, removeEdge_stored g.stored a b,
      removeEdge_acyclic g.acyclic a b, g.static⟩

def look (g : Pag) : Look := Graph.look g.adj

theorem mirrored (g : Pag) : g.look.Mirrored := g.stored.mirrored

def mixed (g : Pag) : MixedGraph Nat := g.look.mixed g.mirrored

variable {a b : Nat} {a b : Nat}

/-- **Setting the marks of an edge** changes that edge alone, or is refused for a directed cycle and
changes none. -/
theorem setMarks_spec (g : Pag) (hl : g.look a b = some v)
    (s t : Endpoint) : (g.setMarks a b s t).1.nodes = g.nodes ∧
      (((g.setMarks a b s t).2 = .ok () ∧
          Updates g.adj (g.setMarks a b s t).1.adj a b (s, t, v.2.2)) ∨
        ∃ src dst, (⟨a, b, s, t, v.2.2⟩ : MarkedEdge).parentChild = some (src, dst) ∧
          (g.setMarks a b s t).2 = .error (.cycle src dst) ∧
          (∀ x y, (g.setMarks a b s t).1.look x y = g.look x y) ∧
          ReflTransGen (fun x y => g.look.Dir x y ∧ ¬ (x = a ∧ y = b) ∧ ¬ (x = b ∧ y = a))
            dst src) := by
  obtain ⟨ha, hb⟩ := g.stored.lt_of_look hl
  have hspec := setMarksFinish_spec g.stored g.acyclic hl s t
  have he := g.stored.edgeBetween_eq a b
  rw [show Graph.look g.adj a b = some v from hl, Option.map_some] at he
  unfold setMarks
  rw [if_neg (show ¬ g.nodeCount ≤ a from Nat.not_le.mpr ha),
    if_neg (show ¬ g.nodeCount ≤ b from Nat.not_le.mpr hb)]
  split
  · rename_i hn
    exact absurd (he.symm.trans hn) (by simp)
  · rename_i w hw
    obtain rfl := Option.some.inj (he.symm.trans hw)
    exact ⟨rfl, hspec.2.2⟩

theorem hasEdge_iff (g : Pag) (a b : Nat) : g.hasEdge a b = (g.look a b).isSome :=
  g.stored.edgeBetween_isSome a b

theorem mem_neighbors (g : Pag) {s t : Endpoint} :
    (b, s, t) ∈ g.neighbors a ↔ ∃ m, g.look a b = some (s, t, m) := g.stored.mem_neighbors

theorem reachesDirected_iff (g : Pag) (ha : a < g.nodeCount) (hb : b < g.nodeCount) :
    g.reachesDirected a b = true ↔ ReflTransGen g.look.Dir a b :=
  g.stored.reachesDirected_iff ha hb

/-- An answer is a directed path, also about nodes the graph does not have. -/
theorem reachesDirected_sound (g : Pag) (h : g.reachesDirected a b = true) :
    ReflTransGen g.look.Dir a b := by
  by_cases hab : a = b
  · rw [hab]
  · have hlt : a < g.nodeCount ∧ b < g.nodeCount := by
      unfold reachesDirected Graph.reachesDirected at h
      rw [if_neg hab, g.stored.length] at h
      split_ifs at h with hr
      rw [not_or, Nat.not_le, Nat.not_le] at hr
      exact hr
    exact (g.reachesDirected_iff hlt.1 hlt.2).mp h

end Pag

end Antecedent.Graph
