import Antecedent.Graph.Marked
import Antecedent.Graph.Admg
import Mathlib.Data.List.Sort

/-!
# CPDAGs, static and temporal, and the DAGs they complete to

Model of `cpdag.rs`, of the temporal rules in `types.rs` and of `TemporalDag` (`temporal.rs`).
`Cpdag` and `TemporalCpdag` share their storage and their accessors and differ in which nodes and
which orientations they admit, so both are the one type `Pdag` at a `Kind`.

* `Pdag` carries what its constructors keep: stored and acyclic rows, CPDAG-legal marks, admitted
  nodes, no edge between two present copies of a variable, and no directed edge into the past.
* `mem_allMarkedEdges`: the edge list holds every stored edge once, its smaller node first.
-/

namespace Antecedent.Graph

open Worklist Relation

/-! ## The edge list -/

/-- `at as u8`. -/
def Endpoint.raw : Endpoint → Nat
  | .tail => 0
  | .arrow => 1
  | .circle => 2
  | .conflict => 3

/-- The order of the sort key `(a, b, at_a, at_b)`. -/
def MarkedEdge.keyLe (e f : MarkedEdge) : Bool :=
  decide (e.a < f.a) || (e.a == f.a && (decide (e.b < f.b) || (e.b == f.b &&
    (decide (e.atA.raw < f.atA.raw) || (e.atA.raw == f.atA.raw &&
      decide (e.atB.raw ≤ f.atB.raw))))))

/-- `Vec::dedup`: of equal neighbours one stays. -/
def dedupAdjacent {α : Type} [DecidableEq α] : List α → List α
  | [] => []
  | [a] => [a]
  | a :: b :: l => if a = b then dedupAdjacent (b :: l) else a :: dedupAdjacent (b :: l)

/-- The half of an edge `all_marked_edges` keeps, read in the row of `a`. -/
def keptHalf (a : Nat) (e : AdjEntry) : Option MarkedEdge :=
  if a < e.neighbor ∨ (a = e.neighbor ∧ e.isDirectedOut = true) then
    some ⟨a, e.neighbor, e.atSelf, e.atNeighbor, e.middle⟩
  else if e.neighbor < a then none
  else if e.atSelf = .arrow ∧ e.atNeighbor = .tail then some (MarkedEdge.directed e.neighbor a)
  else none

/-- `marked_storage.rs:103-134`. -/
def allMarkedEdges (adj : MarkedRows) : List MarkedEdge :=
  dedupAdjacent (((List.range adj.length).flatMap fun a =>
    (row adj a).filterMap (keptHalf a)).insertionSort (MarkedEdge.keyLe · ·))

theorem mem_dedupAdjacent {α : Type} [DecidableEq α] {x : α} :
    ∀ {l : List α}, x ∈ dedupAdjacent l ↔ x ∈ l
  | [] => Iff.rfl
  | [a] => Iff.rfl
  | a :: b :: l => by
    have ih : x ∈ dedupAdjacent (b :: l) ↔ x ∈ b :: l := mem_dedupAdjacent
    unfold dedupAdjacent
    split_ifs with h
    · subst h
      rw [ih, List.mem_cons, List.mem_cons, List.mem_cons]
      tauto
    · rw [List.mem_cons, ih, List.mem_cons (a := x) (b := a)]

theorem dedupAdjacent_sublist {α : Type} [DecidableEq α] :
    ∀ l : List α, List.Sublist (dedupAdjacent l) l
  | [] => List.Sublist.slnil
  | [a] => List.Sublist.refl _
  | a :: b :: l => by
    unfold dedupAdjacent
    split_ifs with h
    · exact (dedupAdjacent_sublist (b :: l)).cons a
    · exact (dedupAdjacent_sublist (b :: l)).cons_cons a

section Edges

variable {n : Nat} {adj : MarkedRows}

theorem filterMap_keptHalf (h : Stored n adj) (a : Nat) : (row adj a).filterMap (keptHalf a) =
    ((row adj a).filter fun e => decide (a < e.neighbor)).map fun e =>
      ⟨a, e.neighbor, e.atSelf, e.atNeighbor, e.middle⟩ := by
  rw [← List.filterMap_eq_map, List.filterMap_filter]
  refine List.filterMap_congr fun e he => ?_
  have hne : a ≠ e.neighbor := h.ne_of_look (h.mem_row.mp he)
  unfold keptHalf
  by_cases hlt : a < e.neighbor
  · simp [hlt]
  · have hgt : e.neighbor < a := by omega
    simp [hlt, hne, hgt]

theorem mem_allMarkedEdges (h : Stored n adj) {e : MarkedEdge} : e ∈ allMarkedEdges adj ↔
    e.a < e.b ∧ look adj e.a e.b = some (e.atA, e.atB, e.middle) := by
  unfold allMarkedEdges
  rw [mem_dedupAdjacent, List.mem_insertionSort, List.mem_flatMap]
  simp only [filterMap_keptHalf h, List.mem_map, List.mem_filter, List.mem_range,
    decide_eq_true_eq]
  constructor
  · rintro ⟨a, -, d, ⟨hd, hlt⟩, rfl⟩
    exact ⟨hlt, h.mem_row.mp hd⟩
  · rintro ⟨hlt, hl⟩
    have := (h.lt_of_look hl).1
    exact ⟨e.a, by rw [h.length]; exact this, _, ⟨h.look_iff.mp hl, hlt⟩, rfl⟩

theorem nodup_allMarkedEdges (h : Stored n adj) : (allMarkedEdges adj).Nodup := by
  unfold allMarkedEdges
  refine List.Nodup.sublist (dedupAdjacent_sublist _) ?_
  rw [(List.perm_insertionSort _ _).nodup_iff, List.nodup_flatMap]
  simp only [filterMap_keptHalf h]
  refine ⟨fun a _ => ?_, ?_⟩
  · refine List.Nodup.map_on (fun d _ e _ hde => ?_) ((h.nodup a).of_map.filter _)
    obtain ⟨d1, d2, d3, d4⟩ := d
    obtain ⟨e1, e2, e3, e4⟩ := e
    simpa using hde
  · refine List.nodup_range.imp fun {a b} hab => ?_
    intro e ha hb
    obtain ⟨d, -, rfl⟩ := List.mem_map.mp ha
    obtain ⟨d', -, he⟩ := List.mem_map.mp hb
    exact hab (congrArg MarkedEdge.a he).symm

end Edges

/-! ## The two kinds -/

/-- Which CPDAG: over variables, or over lagged variables. -/
inductive Kind
  | static
  | temporal

/-- The variable two nodes both are at present (`Lag::CONTEMPORANEOUS`), if so. -/
def contemporaneousSelf (nodes : List NodeRef) (a b : Nat) : Option Nat :=
  match nodes[a]?, nodes[b]? with
  | some (.lagged v1 l1), some (.lagged v2 l2) => if v1 = v2 ∧ l1 = l2 ∧ l1 = 0 then some v1 else none
  | _, _ => none

/-- `types.rs:302-320`. -/
def rejectFutureToPast (nodes : List NodeRef) (src dst : Nat) : Except GraphError Unit :=
  match nodes[src]?, nodes[dst]? with
  | some (.lagged _ srcLag), some (.lagged _ dstLag) =>
    if srcLag < dstLag then .error (.futureToPast src dst srcLag dstLag) else .ok ()
  | _, _ => .ok ()

namespace Kind

/-- The nodes `add_node` admits (`cpdag.rs:69-73`, `cpdag.rs:354-361`). -/
def admits : Kind → NodeRef → Bool
  | static, node => node.isStaticGraphNode
  | temporal, .lagged _ _ => true
  | temporal, .context _ _ => true
  | temporal, _ => false

/-- What `add_node` says of the others. -/
def refusal : Kind → String
  | static => "Cpdag accepts only Static or Unfolded nodes"
  | temporal => "TemporalCpdag accepts Lagged or Context nodes (not Static)"

/-- The self-edge check of `insert_marked`; there is none over variables. -/
def selfEdge : Kind → List NodeRef → Nat → Nat → Option Nat
  | static, _, _, _ => none
  | temporal, nodes, a, b => contemporaneousSelf nodes a b

/-- The direction check of `insert_marked` and `orient_undirected`; there is none over
variables. -/
def direction : Kind → List NodeRef → Nat → Nat → Except GraphError Unit
  | static, _, _, _ => .ok ()
  | temporal, nodes, src, dst => rejectFutureToPast nodes src dst

theorem selfEdge_comm (κ : Kind) (nodes : List NodeRef) (a b : Nat) :
    κ.selfEdge nodes a b = none ↔ κ.selfEdge nodes b a = none := by
  have key : ∀ a b, contemporaneousSelf nodes a b = none → contemporaneousSelf nodes b a = none := by
    intro a b h
    unfold contemporaneousSelf at h ⊢
    split at h
    · rename_i v1 l1 v2 l2 h1 h2
      rw [h2, h1]
      simp only at h ⊢
      split_ifs at h with hc
      rw [if_neg]
      rintro ⟨rfl, rfl, h0⟩
      exact hc ⟨rfl, rfl, h0⟩
    · rename_i hno
      split
      · rename_i v1 l1 v2 l2 h1 h2
        exact absurd h1 (fun h1 => hno v2 l2 v1 l1 h2 h1)
      · rfl
  cases κ with
  | static => exact Iff.rfl
  | temporal => exact ⟨key a b, key b a⟩

variable {a b : Nat} {nodes : List NodeRef}

theorem selfEdge_append (κ : Kind) (node : NodeRef)
    (ha : a < nodes.length) (hb : b < nodes.length) :
    κ.selfEdge (nodes ++ [node]) a b = κ.selfEdge nodes a b := by
  cases κ with
  | static => rfl
  | temporal =>
    simp only [selfEdge, contemporaneousSelf]
    rw [List.getElem?_append_left ha, List.getElem?_append_left hb]

theorem direction_append (κ : Kind) (node : NodeRef)
    (ha : a < nodes.length) (hb : b < nodes.length) :
    κ.direction (nodes ++ [node]) a b = κ.direction nodes a b := by
  cases κ with
  | static => rfl
  | temporal =>
    simp only [direction, rejectFutureToPast]
    rw [List.getElem?_append_left ha, List.getElem?_append_left hb]

end Kind

/-- `Cpdag` (`cpdag.rs:23-26`) and `TemporalCpdag` (`cpdag.rs:328-331`). -/
structure Pdag (κ : Kind) where
  nodes : List NodeRef
  adj : MarkedRows
  node_ids : nodes.length ≤ u32Max + 1
  stored : Stored nodes.length adj
  acyclic : DirAcyclic adj
  admitted : ∀ node ∈ nodes, κ.admits node = true
  legal : ∀ a b v, look adj a b = some v →
    MarkedEdge.isCpdagLegal ⟨a, b, v.1, v.2.1, v.2.2⟩ = true
  selfFree : ∀ a b v, look adj a b = some v → κ.selfEdge nodes a b = none
  ordered : ∀ a b, Dir adj a b → κ.direction nodes a b = .ok ()

abbrev Cpdag := Pdag .static

abbrev TemporalCpdag := Pdag .temporal

namespace Pdag

variable {κ : Kind}

def empty : Pdag κ where
  nodes := []
  adj := []
  node_ids := noNodes_le
  stored := Stored.nil
  acyclic := DirAcyclic.nil
  admitted := fun _ h => absurd h List.not_mem_nil
  legal := fun _ _ _ h => absurd h (by simp [look, row])
  selfFree := fun _ _ _ h => absurd h (by simp [look, row])
  ordered := by
    rintro a b ⟨m, hm⟩
    exact absurd hm (by simp [look, row])

def nodeCount (g : Pdag κ) : Nat := g.nodes.length

def hasEdge (g : Pdag κ) (a b : Nat) : Bool := (edgeBetween g.adj a b).isSome

def edges (g : Pdag κ) : List MarkedEdge := allMarkedEdges g.adj

def parents (g : Pdag κ) (id : Nat) : List Nat := directedParents g.adj id

def conflictEdgeCount (g : Pdag κ) : Nat := (g.edges.filter MarkedEdge.isConflict).length

/-- `add_node` (`cpdag.rs:68-78`, `cpdag.rs:353-366`). -/
def addNode (g : Pdag κ) (node : NodeRef) : Except GraphError (Pdag κ × Nat) :=
  if hn : κ.admits node = true then
    if hl : g.nodes.length ≤ u32Max then
      .ok ({
        nodes := g.nodes ++ [node]
        adj := g.adj ++ [[]]
        node_ids := by rw [List.length_append, List.length_singleton]; omega
        stored := by
          refine ⟨by simp [g.stored.length], fun a e he => ?_, fun a => ?_, fun a => ?_,
            fun a b v h => ?_⟩
          · rw [row_append_nil] at he
            rw [List.length_append]
            exact Nat.lt_of_lt_of_le (g.stored.in_range a e he) (Nat.le_add_right _ _)
          · rw [look_append_nil, g.stored.irrefl]
          · rw [row_append_nil]
            exact g.stored.nodup a
          · rw [look_append_nil] at h ⊢
            exact g.stored.mirrored a b v h
        acyclic := fun v hv => g.acyclic v (TransGen.mono (fun a b ⟨m, hm⟩ =>
          ⟨m, by rwa [look_append_nil] at hm⟩) v v hv)
        admitted := fun nd hnd => by
          rcases List.mem_append.mp hnd with hnd | hnd
          · exact g.admitted nd hnd
          · rw [List.mem_singleton.mp hnd]
            exact hn
        legal := fun a b v h => g.legal a b v (by rwa [look_append_nil] at h)
        selfFree := fun a b v h => by
          rw [look_append_nil] at h
          obtain ⟨ha, hb⟩ := g.stored.lt_of_look h
          rw [κ.selfEdge_append node ha hb]
          exact g.selfFree a b v h
        ordered := fun a b ⟨m, h⟩ => by
          rw [look_append_nil] at h
          obtain ⟨ha, hb⟩ := g.stored.lt_of_look h
          rw [κ.direction_append node ha hb]
          exact g.ordered a b ⟨m, h⟩ }, g.nodes.length)
    else .error .tooManyNodes
  else .error (.invalidEndpoints κ.refusal)

def edgeDirection (κ : Kind) (nodes : List NodeRef) (edge : MarkedEdge) : Except GraphError Unit :=
  match edge.parentChild with
  | some (src, dst) => κ.direction nodes src dst
  | none => .ok ()

variable {a b src dst : Nat} {s t : Endpoint} {m : MiddleMark} {v : Marks}

section

variable (h : MarkedEdge.isCpdagLegal ⟨a, b, s, t, m⟩ = true) (c d : Nat)

include h c d

theorem legal_flip : MarkedEdge.isCpdagLegal ⟨c, d, t, s, m⟩ = true := by
  cases s <;> cases t <;> first | rfl | exact absurd h Bool.false_ne_true

theorem legal_nodes : MarkedEdge.isCpdagLegal ⟨c, d, s, t, m⟩ = true := by
  cases s <;> cases t <;> first | rfl | exact absurd h Bool.false_ne_true

end

def updated (g : Pdag κ) (edge : MarkedEdge) (adj : MarkedRows)
    (hst : Stored g.nodes.length adj) (hac : DirAcyclic adj)
    (hu : Updates g.adj adj edge.a edge.b (edge.atA, edge.atB, edge.middle))
    (hl : edge.isCpdagLegal = true) (hs : κ.selfEdge g.nodes edge.a edge.b = none)
    (ho : edgeDirection κ g.nodes edge = .ok ()) : Pdag κ where
  nodes := g.nodes
  adj := adj
  node_ids := g.node_ids
  stored := hst
  acyclic := hac
  admitted := g.admitted
  legal := fun a b v h => by
    rw [hu] at h
    split_ifs at h
    · cases h
      exact legal_nodes hl a b
    · cases h
      exact legal_flip hl a b
    · exact g.legal a b v h
  selfFree := fun a b v h => by
    rw [hu] at h
    split_ifs at h with h1 h2
    · rw [h1.1, h1.2]
      exact hs
    · rw [h2.1, h2.2, κ.selfEdge_comm]
      exact hs
    · exact g.selfFree a b v h
  ordered := fun a b h => by
    unfold edgeDirection at ho
    rcases hu.dir h with h | ⟨rfl, rfl, h1, h2⟩ | ⟨rfl, rfl, h1, h2⟩
    · exact g.ordered a b h
    · rwa [parentChild_eq_some.mpr (Or.inl ⟨h1, h2, rfl, rfl⟩)] at ho
    · rwa [parentChild_eq_some.mpr (Or.inr ⟨h1, h2, rfl, rfl⟩)] at ho

/-- `insert_marked` (`cpdag.rs:85-98`, `cpdag.rs:401-430`). -/
def insertMarked (g : Pdag κ) (edge : MarkedEdge) : Except GraphError (Pdag κ) :=
  if hl : edge.isCpdagLegal = true then
    if ha : edge.a < g.nodeCount then
      if hb : edge.b < g.nodeCount then
        match hs : κ.selfEdge g.nodes edge.a edge.b with
        | some v => .error (.contemporaneousSelfEdge v)
        | none =>
          if hne : edge.a = edge.b then .error (.cycle edge.a edge.b)
          else
            match ho : edgeDirection κ g.nodes edge with
            | .error e => .error e
            | .ok () =>
              match hi : insertMarkedFinish g.adj edge with
              | .error e => .error e
              | .ok adj =>
                have h := insertMarkedFinish_ok g.stored g.acyclic ha hb hne hi
                .ok (g.updated edge adj h.2.1 h.2.2.1 h.2.2.2 hl hs ho)
      else .error (.unknownNode edge.b)
    else .error (.unknownNode edge.a)
  else .error (.invalidEndpoints
    "CPDAG accepts only Tail–Arrow, Tail–Tail, or Conflict–Conflict marks")

def insertDirected (g : Pdag κ) (src dst : Nat) : Except GraphError (Pdag κ) :=
  g.insertMarked (.directed src dst)

def insertUndirected (g : Pdag κ) (a b : Nat) : Except GraphError (Pdag κ) :=
  g.insertMarked (.undirected a b)

theorem orient_spec {n : Nat} {adj adj' : MarkedRows} (h : Stored n adj) (hac : DirAcyclic adj)
    (hs : src < n) (hd : dst < n) (hok : orientUndirectedFinish adj src dst = .ok adj') :
    ∃ m, look adj src dst = some (.tail, .tail, m) ∧ Stored n adj' ∧ DirAcyclic adj' ∧
      Updates adj adj' src dst (.tail, .arrow, m) := by
  obtain ⟨m, hl, hcyc, hset⟩ := (orientUndirectedFinish_iff h hs hd).mp hok
  obtain ⟨hst, hu⟩ := setMarks_stored h hl hset
  refine ⟨m, hl, hst, hu.acyclic ⟨src, dst, .tail, .arrow, m⟩ hac ?_, hu⟩
  rintro _ _ ⟨⟩
  exact hcyc

/-- The marks an edge takes when it is oriented. -/
def middleOf (adj : MarkedRows) (a b : Nat) : MiddleMark :=
  match look adj a b with
  | some v => v.2.2
  | none => .empty

/-- `orient_undirected` (`cpdag.rs:147-156`, `cpdag.rs:464-474`). -/
def orientUndirected (g : Pdag κ) (src dst : Nat) : Except GraphError (Pdag κ) :=
  if hs : src < g.nodeCount then
    if hd : dst < g.nodeCount then
      match ho : κ.direction g.nodes src dst with
      | .error e => .error e
      | .ok () =>
        match hi : orientUndirectedFinish g.adj src dst with
        | .error e => .error e
        | .ok adj =>
          have h : ∃ m, look g.adj src dst = some (.tail, .tail, m) ∧
              Stored g.nodes.length adj ∧ DirAcyclic adj ∧
              Updates g.adj adj src dst (.tail, .arrow, m) :=
            orient_spec g.stored g.acyclic hs hd hi
          .ok (g.updated ⟨src, dst, .tail, .arrow, middleOf g.adj src dst⟩ adj
            (by obtain ⟨m, -, h, -, -⟩ := h; exact h) (by obtain ⟨m, -, -, h, -⟩ := h; exact h)
            (by
              obtain ⟨m, hl, -, -, hu⟩ := h
              unfold middleOf
              rw [hl]
              exact hu) rfl
            (by obtain ⟨m, hl, -⟩ := h; exact g.selfFree src dst _ hl) ho)
    else .error (.unknownNode dst)
  else .error (.unknownNode src)

/-- **Orienting an undirected edge** changes that edge alone, and is refused iff it points into the
past or closes a cycle. -/
theorem orientUndirected_ok (g : Pdag κ)
    (hl : look g.adj src dst = some (.tail, .tail, m)) (ho : κ.direction g.nodes src dst = .ok ())
    (hcyc : ¬ ReflTransGen (Dir g.adj) dst src) :
    ∃ g', g.orientUndirected src dst = .ok g' := by
  obtain ⟨hs, hd⟩ := g.stored.lt_of_look hl
  obtain ⟨adj, hset, -⟩ := setMarks_ok g.stored hl .tail .arrow
  have hfin : orientUndirectedFinish g.adj src dst = .ok adj :=
    (orientUndirectedFinish_iff g.stored hs hd).mpr ⟨m, hl, hcyc, hset⟩
  unfold orientUndirected
  rw [dif_pos (show src < g.nodeCount from hs), dif_pos (show dst < g.nodeCount from hd)]
  split
  · rename_i e he
    exact absurd (ho.symm.trans he) (by simp)
  · split
    · rename_i e he
      exact absurd (hfin.symm.trans he) (by simp)
    · exact ⟨_, rfl⟩

theorem of_orientUndirected {g g' : Pdag κ} (h : g.orientUndirected src dst = .ok g') :
    ∃ m, look g.adj src dst = some (.tail, .tail, m) ∧ g'.nodes = g.nodes ∧
      Updates g.adj g'.adj src dst (.tail, .arrow, m) := by
  unfold orientUndirected at h
  split_ifs at h with hs hd
  split at h
  · exact absurd h (by simp)
  · split at h
    · exact absurd h (by simp)
    · rename_i hi
      cases h
      obtain ⟨m, hl, -, -, hu⟩ := orient_spec g.stored g.acyclic hs hd hi
      exact ⟨m, hl, rfl, hu⟩

variable (g : Pdag κ)

include g

theorem hasEdge_iff : g.hasEdge a b = true ↔ (look g.adj a b).isSome = true := by
  unfold hasEdge
  rw [g.stored.edgeBetween_isSome]

theorem mem_edges {e : MarkedEdge} : e ∈ g.edges ↔
    e.a < e.b ∧ look g.adj e.a e.b = some (e.atA, e.atB, e.middle) := mem_allMarkedEdges g.stored

theorem mem_parents : b ∈ g.parents a ↔ Dir g.adj b a :=
  g.stored.mem_directedParents

/-- The listed edges are the stored ones, read from one end. -/
theorem exists_edge (hl : look g.adj a b = some v) : (a < b ∧ ⟨a, b, v.1, v.2.1, v.2.2⟩ ∈ g.edges) ∨
      (b < a ∧ ⟨b, a, v.2.1, v.1, v.2.2⟩ ∈ g.edges) := by
  rcases Nat.lt_or_gt_of_ne (g.stored.ne_of_look hl) with h | h
  · exact Or.inl ⟨h, g.mem_edges.mpr ⟨h, hl⟩⟩
  · exact Or.inr ⟨h, g.mem_edges.mpr ⟨h, g.stored.mirrored _ _ _ hl⟩⟩

theorem directed_or_undirected (hc : g.conflictEdgeCount = 0) (hl : look g.adj a b = some v) :
    Dir g.adj a b ∨ Dir g.adj b a ∨
      ∃ m, look g.adj a b = some (.tail, .tail, m) := by
  have hnone : ∀ e ∈ g.edges, e.isConflict = false := by
    intro e he
    rw [Bool.eq_false_iff]
    intro hconf
    exact List.not_mem_nil (List.eq_nil_of_length_eq_zero hc ▸ List.mem_filter.mpr ⟨he, hconf⟩)
  obtain ⟨s, t, m⟩ := v
  have hleg := g.legal a b _ hl
  have hnc : ¬ (s = .conflict ∧ t = .conflict) := by
    rintro ⟨rfl, rfl⟩
    rcases g.exists_edge hl with ⟨-, he⟩ | ⟨-, he⟩
    · exact absurd (hnone _ he) (by simp [MarkedEdge.isConflict])
    · exact absurd (hnone _ he) (by simp [MarkedEdge.isConflict])
  cases s <;> cases t <;> simp [MarkedEdge.isCpdagLegal] at hleg hnc
  · exact Or.inr (Or.inr ⟨m, hl⟩)
  · exact Or.inl ⟨m, hl⟩
  · exact Or.inr (Or.inl ⟨m, g.stored.mirrored _ _ _ hl⟩)

end Pdag

/-! ## The temporal DAG -/

def NodeRef.isLagged : NodeRef → Bool
  | .lagged _ _ => true
  | _ => false

/-- `temporal.rs:17-20`. -/
structure TemporalDag where
  directed : DirectedCore
  valid : directed.Valid
  lagged : ∀ node ∈ directed.nodes, node.isLagged = true
  ordered : ∀ a b, directed.Dir a b → rejectFutureToPast directed.nodes a b = .ok ()

namespace TemporalDag

def empty : TemporalDag :=
  ⟨.new, DirectedCore.new_valid, fun _ h => absurd h List.not_mem_nil,
    fun _ _ h => absurd h List.not_mem_nil⟩

def nodes (g : TemporalDag) : List NodeRef := g.directed.nodes

def nodeCount (g : TemporalDag) : Nat := g.directed.nodeCount

theorem pushLabeled_nodes {c c' : DirectedCore} {node : NodeRef} {id : Nat}
    (h : c.pushLabeled node = .ok (c', id)) : c'.nodes = c.nodes ++ [node] := by
  unfold DirectedCore.pushLabeled at h
  split_ifs at h
  cases h
  rfl

/-- `temporal.rs:60-70`. -/
def addNode (g : TemporalDag) (node : NodeRef) : Except GraphError (TemporalDag × Nat) :=
  if hn : node.isLagged = true then
    match h : g.directed.pushLabeled node with
    | .ok (c, id) => .ok (⟨c, DirectedCore.pushLabeled_valid g.valid h, fun nd hnd => by
        rw [pushLabeled_nodes h] at hnd
        rcases List.mem_append.mp hnd with hnd | hnd
        · exact g.lagged nd hnd
        · rw [List.mem_singleton.mp hnd]
          exact hn, fun a b hab => by
        rw [DirectedCore.dir_pushLabeled h] at hab
        obtain ⟨ha, hb⟩ := g.valid.in_range a b hab
        rw [pushLabeled_nodes h]
        exact (Kind.direction_append .temporal node ha hb).trans (g.ordered a b hab)⟩, id)
    | .error e => .error e
  else .error (.invalidEndpoints "TemporalDag accepts only Lagged nodes")

/-- `temporal.rs:99-120`. -/
def insertDirected (g : TemporalDag) (src dst : Nat) : Except GraphError TemporalDag :=
  if hs : src < g.nodeCount then
    if hd : dst < g.nodeCount then
      match contemporaneousSelf g.nodes src dst with
      | some v => .error (.contemporaneousSelfEdge v)
      | none =>
        match ho : rejectFutureToPast g.nodes src dst with
        | .error e => .error e
        | .ok () =>
          match h : g.directed.tryInsert src dst with
          | .ok c => .ok ⟨c, DirectedCore.tryInsert_valid g.valid hs hd h, by
              obtain ⟨-, -, rfl⟩ := DirectedCore.tryInsert_cases h
              exact g.lagged, fun a b hab => by
              obtain ⟨-, -, rfl⟩ := DirectedCore.tryInsert_cases h
              rcases (DirectedCore.dir_pushUnchecked g.valid hs a b).mp hab with hab | ⟨rfl, rfl⟩
              · exact g.ordered a b hab
              · exact ho⟩
          | .error e => .error e
    else .error (.unknownNode dst)
  else .error (.unknownNode src)

end TemporalDag

/-! ## Filling a DAG -/

/-- The graph a CPDAG of a kind completes to: its checked constructors, and what they do. -/
class DagTarget (κ : outParam Kind) (D : Type) where
  core : D → DirectedCore
  empty : D
  addNode : D → NodeRef → Except GraphError (D × Nat)
  insertDirected : D → Nat → Nat → Except GraphError D
  accepts : NodeRef → Bool
  valid : ∀ d, (core d).Valid
  core_empty : core empty = .new
  addNode_ok : ∀ d node, accepts node = true → (core d).nodeCount ≤ u32Max →
    ∃ d' id, addNode d node = .ok (d', id) ∧ (core d').nodes = (core d).nodes ++ [node] ∧
      ∀ a b, (core d').Dir a b ↔ (core d).Dir a b
  addNode_error : ∀ d node, accepts node = false → ∃ e, addNode d node = .error e
  insertDirected_ok : ∀ d src dst, src < (core d).nodeCount → dst < (core d).nodeCount →
    κ.selfEdge (core d).nodes src dst = none → κ.direction (core d).nodes src dst = .ok () →
    ¬ (core d).Dir src dst → ¬ ReflTransGen (core d).Dir dst src →
    ∃ d', insertDirected d src dst = .ok d' ∧ (core d').nodes = (core d).nodes ∧
      ∀ a b, (core d').Dir a b ↔ (core d).Dir a b ∨ (a = src ∧ b = dst)

theorem pushLabeled_ok {c : DirectedCore} (node : NodeRef) (h : c.nodeCount ≤ u32Max) :
    c.pushLabeled node =
      .ok (⟨c.nodes ++ [node], c.children ++ [[]], c.parents ++ [[]]⟩, c.nodes.length) := if_pos h

instance : DagTarget .static Dag where
  core := Dag.directed
  empty := .empty
  addNode := Dag.addNode
  insertDirected := Dag.insertDirected
  accepts := NodeRef.isStaticGraphNode
  valid := Dag.valid
  core_empty := rfl
  addNode_ok d node hn hc := by
    unfold Dag.addNode
    rw [dif_pos hn]
    split
    · rename_i c id h
      have hp := (pushLabeled_ok node hc).symm.trans h
      cases hp
      exact ⟨_, _, rfl, rfl, DirectedCore.dir_pushLabeled h⟩
    · rename_i e h
      exact absurd ((pushLabeled_ok node hc).symm.trans h) (by simp)
  addNode_error d node hn := by
    unfold Dag.addNode
    rw [dif_neg (by simp [hn])]
    exact ⟨_, rfl⟩
  insertDirected_ok d src dst hs hd _ _ hnew hcyc := by
    have ht := DirectedCore.tryInsert_ok d.valid hs hd hnew hcyc
    unfold Dag.insertDirected
    rw [dif_pos (show src < d.nodeCount from hs), dif_pos (show dst < d.nodeCount from hd)]
    split
    · rename_i c h
      obtain rfl := Except.ok.inj (ht.symm.trans h)
      exact ⟨_, rfl, rfl, DirectedCore.dir_pushUnchecked d.valid hs⟩
    · rename_i e h
      exact absurd (ht.symm.trans h) (by simp)

instance : DagTarget .temporal TemporalDag where
  core := TemporalDag.directed
  empty := .empty
  addNode := TemporalDag.addNode
  insertDirected := TemporalDag.insertDirected
  accepts := NodeRef.isLagged
  valid := TemporalDag.valid
  core_empty := rfl
  addNode_ok d node hn hc := by
    unfold TemporalDag.addNode
    rw [dif_pos hn]
    split
    · rename_i c id h
      have hp := (pushLabeled_ok node hc).symm.trans h
      cases hp
      exact ⟨_, _, rfl, rfl, DirectedCore.dir_pushLabeled h⟩
    · rename_i e h
      exact absurd ((pushLabeled_ok node hc).symm.trans h) (by simp)
  addNode_error d node hn := by
    unfold TemporalDag.addNode
    rw [dif_neg (by simp [hn])]
    exact ⟨_, rfl⟩
  insertDirected_ok d src dst hs hd hself hdir hnew hcyc := by
    have ht := DirectedCore.tryInsert_ok d.valid hs hd hnew hcyc
    have hself' : contemporaneousSelf d.nodes src dst = none := hself
    have hdir' : rejectFutureToPast d.nodes src dst = .ok () := hdir
    unfold TemporalDag.insertDirected
    rw [dif_pos (show src < d.nodeCount from hs), dif_pos (show dst < d.nodeCount from hd), hself']
    simp only
    split
    · rename_i e h
      exact absurd (hdir'.symm.trans h) (by simp)
    · split
      · rename_i c h
        obtain rfl := Except.ok.inj (ht.symm.trans h)
        exact ⟨_, rfl, rfl, DirectedCore.dir_pushUnchecked d.valid hs⟩
      · rename_i e h
        exact absurd (ht.symm.trans h) (by simp)

/-- What `try_into_dag` and `try_into_temporal_dag` say of a remaining undirected edge. -/
def Kind.undirectedLeft : Kind → String
  | static => "cannot complete Cpdag to Dag while undirected edges remain"
  | temporal => "cannot complete TemporalCpdag to TemporalDag while undirected edges remain"

/-- What they say of a remaining conflict edge. -/
def Kind.conflictLeft : Kind → String
  | static => "cannot complete Cpdag to Dag while conflict edges remain"
  | temporal => "cannot complete TemporalCpdag to TemporalDag while conflict edges remain"

namespace Pdag

variable {κ : Kind} {D : Type} [DagTarget κ D]

def insertEdge (d : D) (e : MarkedEdge) : Except GraphError D :=
  match e.parentChild with
  | some (src, dst) => DagTarget.insertDirected d src dst
  | none => .ok d

/-- `to_directed_skeleton` (`cpdag.rs:197-208`, `cpdag.rs:512-523`). -/
def toDirectedSkeleton (D : Type) [DagTarget κ D] (g : Pdag κ) : Except GraphError D := do
  let dag ← g.nodes.foldlM (fun d node => (DagTarget.addNode d node).map Prod.fst)
    (DagTarget.empty : D)
  g.edges.foldlM insertEdge dag

/-- `try_into_dag` (`cpdag.rs:215-229`) and `try_into_temporal_dag` (`cpdag.rs:531-545`). -/
def tryIntoDag (D : Type) [DagTarget κ D] (g : Pdag κ) : Except GraphError D := do
  g.edges.forM fun e =>
    if e.isUndirected then .error (.invalidEndpoints κ.undirectedLeft)
    else if e.isConflict then .error (.invalidEndpoints κ.conflictLeft)
    else .ok ()
  g.toDirectedSkeleton D

section

variable (g : Pdag κ) (hacc : ∀ node ∈ g.nodes, DagTarget.accepts D node = true)

include g hacc

theorem addNodes_ok :
    ∃ d : D, g.nodes.foldlM (fun d node => (DagTarget.addNode d node).map Prod.fst)
        (DagTarget.empty : D) = .ok d ∧ (DagTarget.core d).nodes = g.nodes ∧
      ∀ a b, ¬ (DagTarget.core d).Dir a b := by
  obtain ⟨d, hok, hn, hd⟩ := foldlM_inv (E := GraphError)
    (f := fun (d : D) node => (DagTarget.addNode d node).map Prod.fst)
    (I := fun done d => (DagTarget.core d).nodes = done ∧ ∀ a b, ¬ (DagTarget.core d).Dir a b)
    g.nodes [] (DagTarget.empty : D) (by
      rw [DagTarget.core_empty]
      exact ⟨rfl, fun _ _ => List.not_mem_nil⟩) (by
      rintro pre node post d he ⟨hn, hd⟩
      rw [List.nil_append] at he
      have hcount : (DagTarget.core d).nodeCount ≤ u32Max := by
        have h1 := g.node_ids
        have h2 : g.nodes.length = pre.length + (post.length + 1) := by rw [he]; simp
        have h3 : (DagTarget.core d).nodeCount = pre.length := congrArg List.length hn
        omega
      obtain ⟨d', id, hok, hn', hd'⟩ := DagTarget.addNode_ok d node
        (hacc node (by rw [he]; simp)) hcount
      refine ⟨d', by rw [hok]; rfl, by rw [hn', hn], fun a b => ?_⟩
      rw [hd']
      exact hd a b)
  exact ⟨d, hok, hn, hd⟩

/-- **The directed edges fill a DAG** over the same nodes, when it admits them. -/
theorem toDirectedSkeleton_ok :
    ∃ d : D, g.toDirectedSkeleton D = .ok d ∧ (DagTarget.core d).nodes = g.nodes ∧
      ∀ a b, (DagTarget.core d).Dir a b ↔ Dir g.adj a b := by
  obtain ⟨d₀, h0, hn0, hd0⟩ := addNodes_ok (D := D) g hacc
  have hnd : g.edges.Nodup := nodup_allMarkedEdges g.stored
  obtain ⟨d, hok, hn, hd⟩ := foldlM_inv (f := insertEdge)
    (I := fun done d => (DagTarget.core d).nodes = g.nodes ∧ ∀ a b, (DagTarget.core d).Dir a b ↔
      ∃ e ∈ done, e.parentChild = some (a, b))
    g.edges [] d₀ ⟨hn0, fun a b => iff_of_false (hd0 a b) (by simp)⟩ (by
      rintro pre e post d he ⟨hn, hd⟩
      rw [List.nil_append] at he
      have hadd : ∀ p, e.parentChild = p → ∀ a b, (∃ f ∈ pre ++ [e], f.parentChild = some (a, b)) ↔
          (∃ f ∈ pre, f.parentChild = some (a, b)) ∨ p = some (a, b) := by
        rintro p rfl a b
        simp only [List.mem_append, List.mem_singleton]
        constructor
        · rintro ⟨f, hf | rfl, h⟩
          · exact Or.inl ⟨f, hf, h⟩
          · exact Or.inr h
        · rintro (⟨f, hf, h⟩ | h)
          · exact ⟨f, Or.inl hf, h⟩
          · exact ⟨e, Or.inr rfl, h⟩
      -- an edge listed so far is an edge of `g`
      have hsub : ∀ {f a b}, f ∈ pre ∨ f = e → f.parentChild = some (a, b) → Dir g.adj a b := by
        intro f a b hf hp
        have hmem : f ∈ g.edges := by
          rw [he]
          rcases hf with hf | rfl
          · exact List.mem_append_left _ hf
          · simp
        obtain ⟨-, hl⟩ := g.mem_edges.mp hmem
        rcases parentChild_eq_some.mp hp with ⟨h1, h2, rfl, rfl⟩ | ⟨h1, h2, rfl, rfl⟩
        · rw [h1, h2] at hl
          exact ⟨_, hl⟩
        · rw [h1, h2] at hl
          exact ⟨_, g.stored.mirrored _ _ _ hl⟩
      cases hp : e.parentChild with
      | none =>
        refine ⟨d, by rw [insertEdge, hp], hn, fun a b => ?_⟩
        rw [hadd none hp, hd]
        simp
      | some q =>
        obtain ⟨src, dst⟩ := q
        have hdir := hsub (Or.inr rfl) hp
        obtain ⟨m, hl⟩ := hdir
        obtain ⟨hs, ht⟩ := g.stored.lt_of_look hl
        have hcount : (DagTarget.core d).nodeCount = g.nodes.length := congrArg List.length hn
        have hfresh : ¬ (DagTarget.core d).Dir src dst := by
          rw [hd]
          rintro ⟨f, hf, hpf⟩
          have hfe : f ≠ e := by
            rw [he] at hnd
            rintro rfl
            exact (List.nodup_append.mp hnd).2.2 f hf f List.mem_cons_self rfl
          obtain ⟨hlt, hlf⟩ := g.mem_edges.mp (by rw [he]; exact List.mem_append_left _ hf : f ∈ g.edges)
          obtain ⟨hlt', hle⟩ := g.mem_edges.mp (by rw [he]; simp : e ∈ g.edges)
          -- two listed edges with the same ends are one edge
          have hends : f.a = e.a ∧ f.b = e.b := by
            rcases parentChild_eq_some.mp hpf with ⟨-, -, h1, h2⟩ | ⟨-, -, h1, h2⟩ <;>
              rcases parentChild_eq_some.mp hp with ⟨-, -, h3, h4⟩ | ⟨-, -, h3, h4⟩ <;> omega
          rw [hends.1, hends.2, hle, Option.some.injEq, Prod.mk.injEq, Prod.mk.injEq] at hlf
          obtain ⟨fa, fb, fs, ft, fm⟩ := f
          obtain ⟨ea, eb, es, et, em⟩ := e
          simp only at hends hlf
          exact hfe (by rw [hends.1, hends.2, hlf.1, hlf.2.1, hlf.2.2])
        have hcyc : ¬ ReflTransGen (DagTarget.core d).Dir dst src := by
          intro hr
          refine g.acyclic src (TransGen.head' ⟨m, hl⟩ ?_)
          refine ReflTransGen.mono (fun a b hab => ?_) _ _ hr
          obtain ⟨f, hf, hpf⟩ := (hd a b).mp hab
          exact hsub (Or.inl hf) hpf
        obtain ⟨d', hok, hn', hd'⟩ := DagTarget.insertDirected_ok d src dst (hcount ▸ hs)
          (hcount ▸ ht) (by rw [hn]; exact g.selfFree src dst _ hl)
          (by rw [hn]; exact g.ordered src dst ⟨m, hl⟩) hfresh hcyc
        refine ⟨d', by rw [insertEdge, hp]; exact hok, by rw [hn', hn], fun a b => ?_⟩
        rw [hd', hd, hadd _ hp, Option.some.injEq, Prod.mk.injEq, eq_comm (a := src),
          eq_comm (a := dst)])
  refine ⟨d, ?_, hn, fun a b => (hd a b).trans ?_⟩
  · unfold toDirectedSkeleton
    rw [h0]
    exact hok
  · rw [List.nil_append]
    constructor
    · rintro ⟨e, he, hp⟩
      obtain ⟨-, hl⟩ := g.mem_edges.mp he
      rcases parentChild_eq_some.mp hp with ⟨h1, h2, rfl, rfl⟩ | ⟨h1, h2, rfl, rfl⟩
      · rw [h1, h2] at hl
        exact ⟨_, hl⟩
      · rw [h1, h2] at hl
        exact ⟨_, g.stored.mirrored _ _ _ hl⟩
    · rintro ⟨m, hl⟩
      rcases g.exists_edge hl with ⟨-, he⟩ | ⟨-, he⟩
      · exact ⟨_, he, rfl⟩
      · exact ⟨_, he, rfl⟩

end

theorem toDirectedSkeleton_error (g : Pdag κ) {node : NodeRef} (hmem : node ∈ g.nodes)
    (hacc : DagTarget.accepts D node = false) : ∃ e, g.toDirectedSkeleton D = .error e := by
  have key : ∀ (l : List NodeRef) (d : D), node ∈ l →
      ∃ e, l.foldlM (fun d node => (DagTarget.addNode d node).map Prod.fst) d = .error e := by
    intro l
    induction l with
    | nil => exact fun d h => absurd h List.not_mem_nil
    | cons nd l ih =>
      intro d h
      rw [List.foldlM_cons]
      cases hadd : DagTarget.addNode d nd with
      | error e => exact ⟨e, rfl⟩
      | ok p =>
        rcases List.mem_cons.mp h with rfl | h
        · obtain ⟨e, he⟩ := DagTarget.addNode_error d node hacc
          rw [hadd] at he
          exact absurd he (by simp)
        · exact ih p.1 h
  obtain ⟨e, he⟩ := key g.nodes DagTarget.empty hmem
  unfold toDirectedSkeleton
  rw [he]
  exact ⟨e, rfl⟩

theorem tryIntoDag_eq (g : Pdag κ)
    (h : ∀ e ∈ g.edges, e.isUndirected = false ∧ e.isConflict = false) :
    g.tryIntoDag D = g.toDirectedSkeleton D := by
  have hpre : g.edges.forM (fun e =>
      if e.isUndirected then .error (.invalidEndpoints κ.undirectedLeft)
      else if e.isConflict then .error (.invalidEndpoints κ.conflictLeft)
      else .ok ()) = (.ok () : Except GraphError Unit) :=
    forM_ok fun e he => by
      obtain ⟨h1, h2⟩ := h e he
      rw [h1, h2]
      rfl
  unfold tryIntoDag
  rw [hpre]
  rfl

end Pdag

end Antecedent.Graph
