import Antecedent.Graph.Pdag

/-!
# Reading and marking a CPDAG

The rest of the `CpdagOps` surface (`orientation.rs`) over `Pdag`: children, undirected neighbours,
the marked edge of a pair, and the `x-x` mark of a conflict.

* `Und` is an undirected edge, as `Dir` is a directed one; `mem_children`, `mem_undirectedNeighbors`
  and `isParent_iff` read the accessors as these relations.
* `Oriented g g' src dst`: `g'` is `g` with the undirected edge made `src → dst`. It is what a
  successful `orient_undirected` leaves (`oriented_of_ok`).
* `addNode_ok` and `insertUndirected_ok`: a graph is built node by node and edge by edge.
-/

namespace Antecedent.Graph

/-- `a — b`. -/
def Und (adj : MarkedRows) (a b : Nat) : Prop := ∃ m, look adj a b = some (.tail, .tail, m)

/-- `marked_storage.rs:89-98`. -/
def undirectedNeighbors (adj : MarkedRows) (id : Nat) : List Nat :=
  ((row adj id).filter fun e => e.atSelf == .tail && e.atNeighbor == .tail).map AdjEntry.neighbor

/-- `marked_storage.rs:181-190`. -/
def markConflictFinish (adj : MarkedRows) (a b : Nat) : Except GraphError MarkedRows :=
  if (edgeBetween adj a b).isNone then .error (.unknownNode a)
  else setMarks adj a b .conflict .conflict

namespace Stored

variable {n : Nat} {adj : MarkedRows} (h : Stored n adj)

include h

theorem mem_undirectedNeighbors {a b : Nat} : b ∈ undirectedNeighbors adj a ↔ Und adj a b := by
  unfold undirectedNeighbors Und
  simp only [List.mem_map, List.mem_filter, Bool.and_eq_true, beq_iff_eq]
  constructor
  · rintro ⟨e, ⟨he, hs, ht⟩, rfl⟩
    refine ⟨e.middle, ?_⟩
    rw [h.mem_row.mp he, AdjEntry.marks, hs, ht]
  · rintro ⟨m, hm⟩
    exact ⟨_, ⟨h.look_iff.mp hm, rfl, rfl⟩, rfl⟩

theorem nodup_undirectedNeighbors (a : Nat) : (undirectedNeighbors adj a).Nodup :=
  (h.nodup a).sublist (List.filter_sublist.map _)

theorem und_symm {a b : Nat} (hu : Und adj a b) : Und adj b a := by
  obtain ⟨m, hm⟩ := hu
  exact ⟨m, h.mirrored a b _ hm⟩

end Stored

variable {adj : MarkedRows} {e : MarkedEdge} {a b : Nat}

theorem Und.not_dir (hu : Und adj a b) : ¬ Dir adj a b := by
  rintro ⟨m, hm⟩
  obtain ⟨m', hm'⟩ := hu
  rw [hm] at hm'
  cases hm'

theorem insertMarkedFinish_new {n : Nat} (h : Stored n adj)
    (hp : ∀ src dst, e.parentChild = some (src, dst) → ¬ Relation.ReflTransGen (Dir adj) dst src)
    (ha : e.a < n) (hb : e.b < n) (hnew : look adj e.a e.b = none) :
    insertMarkedFinish adj e = .ok (pushMarkedPair adj e) := by
  have hdup : ¬ (Graph.edgeBetween adj e.a e.b).isSome = true := by
    rw [h.edgeBetween_isSome, hnew]
    exact Bool.false_ne_true
  unfold insertMarkedFinish
  rw [if_neg hdup]
  split
  · rename_i src dst hpc
    have hlt : src < n ∧ dst < n := by
      rcases parentChild_eq_some.mp hpc with ⟨-, -, rfl, rfl⟩ | ⟨-, -, rfl, rfl⟩
      · exact ⟨ha, hb⟩
      · exact ⟨hb, ha⟩
    rw [if_neg fun hr => hp src dst hpc ((h.reachesDirected_iff hlt.2 hlt.1).mp hr)]
  · rfl

namespace Pdag

variable {κ : Kind}

def children (g : Pdag κ) (id : Nat) : List Nat := directedChildren g.adj id

def undirectedNeighbors (g : Pdag κ) (id : Nat) : List Nat := Graph.undirectedNeighbors g.adj id

def edgeBetween (g : Pdag κ) (a b : Nat) : Option MarkedEdge := Graph.edgeBetween g.adj a b

/-- `is_parent`: whether `a → b` (`orientation.rs`, `CpdagOps`). -/
def isParent (g : Pdag κ) (a b : Nat) : Bool :=
  (g.edgeBetween a b).bind MarkedEdge.parentChild == some (a, b)

def adjacent (g : Pdag κ) (id : Nat) : List Nat := (row g.adj id).map AdjEntry.neighbor

theorem conflict_spec (g : Pdag κ)
    (hok : markConflictFinish g.adj a b = .ok adj) :
    ∃ m, (∃ s t, look g.adj a b = some (s, t, m)) ∧ Stored g.nodes.length adj ∧ DirAcyclic adj ∧
      Updates g.adj adj a b (.conflict, .conflict, m) := by
  unfold markConflictFinish at hok
  split_ifs at hok with hn
  have hsome : (look g.adj a b).isSome = true := by
    rw [← g.stored.edgeBetween_isSome]
    rwa [Option.isNone_iff_eq_none, ← Option.not_isSome_iff_eq_none, not_not] at hn
  obtain ⟨⟨s, t, m⟩, hl⟩ := Option.isSome_iff_exists.mp hsome
  obtain ⟨hst, hu⟩ := setMarks_stored g.stored hl hok
  refine ⟨m, ⟨s, t, hl⟩, hst, hu.acyclic ⟨a, b, .conflict, .conflict, m⟩ g.acyclic ?_, hu⟩
  intro src dst h
  cases h

/-- `mark_conflict` (`cpdag.rs:156-160`, `cpdag.rs:473-477`). -/
def markConflict (g : Pdag κ) (a b : Nat) : Except GraphError (Pdag κ) :=
  if a < g.nodeCount then
    if b < g.nodeCount then
      match hi : markConflictFinish g.adj a b with
      | .error e => .error e
      | .ok adj =>
        have h := g.conflict_spec hi
        .ok (g.updated ⟨a, b, .conflict, .conflict, middleOf g.adj a b⟩ adj
          (by obtain ⟨m, -, h, -, -⟩ := h; exact h) (by obtain ⟨m, -, -, h, -⟩ := h; exact h)
          (by
            obtain ⟨m, ⟨s, t, hl⟩, -, -, hu⟩ := h
            unfold middleOf
            rw [hl]
            exact hu) rfl
          (by obtain ⟨m, ⟨s, t, hl⟩, -⟩ := h; exact g.selfFree a b _ hl) rfl)
    else .error (.unknownNode b)
  else .error (.unknownNode a)

theorem look_of_removed {a b x y : Nat} {v : Marks}
    (h : look (Graph.removeEdge adj a b) x y = some v) : look adj x y = some v := by
  rw [look_removeEdge] at h
  split_ifs at h
  exact h

/-- `cpdag.rs:129-134`. -/
def removeEdge (g : Pdag κ) (a b : Nat) : Except GraphError (Pdag κ) :=
  if a < g.nodeCount then
    if b < g.nodeCount then
      .ok {
        nodes := g.nodes
        adj := Graph.removeEdge g.adj a b
        node_ids := g.node_ids
        stored := removeEdge_stored g.stored a b
        acyclic := fun v h => g.acyclic v
          (Relation.TransGen.mono (fun _ _ ⟨m, hm⟩ => ⟨m, look_of_removed hm⟩) _ _ h)
        admitted := g.admitted
        legal := fun x y v h => g.legal x y v (look_of_removed h)
        selfFree := fun x y v h => g.selfFree x y v (look_of_removed h)
        ordered := fun x y ⟨m, hm⟩ => g.ordered x y ⟨m, look_of_removed hm⟩ }
    else .error (.unknownNode b)
  else .error (.unknownNode a)

section Read

variable (g : Pdag κ) {a b : Nat}

theorem mem_children : b ∈ g.children a ↔ Dir g.adj a b := g.stored.mem_directedChildren

theorem mem_undirectedNeighbors : b ∈ g.undirectedNeighbors a ↔ Und g.adj a b :=
  g.stored.mem_undirectedNeighbors

theorem edgeBetween_eq_some : g.edgeBetween a b = some e ↔
    e.a = a ∧ e.b = b ∧ look g.adj a b = some (e.atA, e.atB, e.middle) := by
  unfold edgeBetween
  rw [g.stored.edgeBetween_eq, Option.map_eq_some_iff]
  constructor
  · rintro ⟨v, hv, rfl⟩
    exact ⟨rfl, rfl, hv⟩
  · rintro ⟨rfl, rfl, hl⟩
    exact ⟨_, hl, rfl⟩

theorem isParent_iff : g.isParent a b = true ↔ Dir g.adj a b := by
  unfold isParent
  rw [beq_iff_eq, Option.bind_eq_some_iff]
  constructor
  · rintro ⟨e, he, hp⟩
    obtain ⟨rfl, rfl, hl⟩ := g.edgeBetween_eq_some.mp he
    rcases parentChild_eq_some.mp hp with ⟨h1, h2, -, -⟩ | ⟨-, -, hab, -⟩
    · exact ⟨e.middle, by rw [hl, h1, h2]⟩
    · exact absurd hab (g.stored.ne_of_look hl)
  · rintro ⟨m, hm⟩
    exact ⟨⟨a, b, .tail, .arrow, m⟩, g.edgeBetween_eq_some.mpr ⟨rfl, rfl, hm⟩, rfl⟩

theorem isUndirected_edgeBetween :
    (g.edgeBetween a b).any MarkedEdge.isUndirected = true ↔ Und g.adj a b := by
  rw [Option.any_eq_true]
  constructor
  · rintro ⟨⟨x, y, s, t, m⟩, he, hu⟩
    obtain ⟨rfl, rfl, hl⟩ := g.edgeBetween_eq_some.mp he
    cases s <;> cases t <;> first | exact ⟨m, hl⟩ | exact absurd hu Bool.false_ne_true
  · rintro ⟨m, hm⟩
    exact ⟨⟨a, b, .tail, .tail, m⟩, g.edgeBetween_eq_some.mpr ⟨rfl, rfl, hm⟩, rfl⟩

end Read

/-! ## Orienting -/

/-- `g'` is `g` with its undirected edge between `src` and `dst` made `src → dst`. -/
structure Oriented (g g' : Pdag κ) (src dst : Nat) : Prop where
  was : Und g.adj src dst
  nodes : g'.nodes = g.nodes
  edge : ∀ a b, (look g'.adj a b).isSome = (look g.adj a b).isSome
  dir : ∀ a b, Dir g'.adj a b ↔ Dir g.adj a b ∨ (a = src ∧ b = dst)
  und : ∀ a b, Und g'.adj a b ↔
    Und g.adj a b ∧ ¬ (a = src ∧ b = dst) ∧ ¬ (a = dst ∧ b = src)

theorem oriented_of_ok {g g' : Pdag κ} {src dst : Nat} (h : g.orientUndirected src dst = .ok g') :
    g.Oriented g' src dst := by
  obtain ⟨m, hl, hn, hu⟩ := of_orientUndirected h
  have hne := g.stored.ne_of_look hl
  have hl' := g.stored.mirrored _ _ _ hl
  refine ⟨⟨m, hl⟩, hn, fun a b => ?_, fun a b => ?_, fun a b => ?_⟩
  · rw [hu]
    split_ifs with h1 h2
    · rw [h1.1, h1.2, hl]
      rfl
    · rw [h2.1, h2.2, hl']
      rfl
    · rfl
  · unfold Dir
    rw [hu]
    split_ifs with h1 h2
    · exact ⟨fun _ => Or.inr h1, fun _ => ⟨m, rfl⟩⟩
    · rw [h2.1, h2.2, hl']
      simp [Marks.flip, hne]
    · simp [h1]
  · unfold Und
    rw [hu]
    split_ifs with h1 h2
    · simp [h1]
    · simp [h2, Marks.flip]
    · simp [h1, h2]

/-! ## Building -/

theorem look_empty (a b : Nat) : look (empty : Pdag κ).adj a b = none := by
  simp [empty, look, row]

theorem addNode_ok (g : Pdag κ) {node : NodeRef} (hn : κ.admits node = true)
    (hl : g.nodes.length ≤ u32Max) : ∃ g', g.addNode node = .ok (g', g.nodeCount) ∧
      g'.nodes = g.nodes ++ [node] ∧ ∀ a b, look g'.adj a b = look g.adj a b := by
  unfold addNode
  split
  · exact ⟨_, rfl, rfl, fun a b => look_append_nil g.adj a b⟩
  · exact absurd hn ‹_›

theorem insertMarked_ok (g : Pdag .static) (hl : e.isCpdagLegal = true)
    (hp : ∀ src dst, e.parentChild = some (src, dst) → ¬ Relation.ReflTransGen (Dir g.adj) dst src)
    (ha : e.a < g.nodeCount) (hb : e.b < g.nodeCount) (hne : e.a ≠ e.b)
    (hnew : look g.adj e.a e.b = none) : ∃ g', g.insertMarked e = .ok g' ∧ g'.nodes = g.nodes ∧
      Updates g.adj g'.adj e.a e.b (e.atA, e.atB, e.middle) := by
  have hfin := insertMarkedFinish_new g.stored hp ha hb hnew
  have hdir : edgeDirection .static g.nodes e = .ok () := by
    unfold edgeDirection
    split <;> rfl
  unfold insertMarked
  rw [dif_pos hl, dif_pos ha, dif_pos hb]
  split
  · rename_i v hv
    cases hv
  · rw [dif_neg hne]
    split
    · rename_i e' he'
      exact absurd (hdir.symm.trans he') (by simp)
    · split
      · rename_i e' he'
        exact absurd (hfin.symm.trans he') (by simp)
      · rename_i adj hi
        exact ⟨_, rfl, rfl, (insertMarkedFinish_ok g.stored g.acyclic ha hb hne hi).2.2.2⟩

theorem insertUndirected_ok (g : Pdag .static) (ha : a < g.nodeCount)
    (hb : b < g.nodeCount) (hne : a ≠ b) (hnew : look g.adj a b = none) :
    ∃ g', g.insertUndirected a b = .ok g' ∧ g'.nodes = g.nodes ∧
      ∃ m, Updates g.adj g'.adj a b (.tail, .tail, m) := by
  unfold insertUndirected MarkedEdge.undirected
  split_ifs
  · obtain ⟨g', hok, hn, hu⟩ := g.insertMarked_ok (e := ⟨a, b, .tail, .tail, .empty⟩) rfl
      (fun _ _ h => nomatch h) ha hb hne hnew
    exact ⟨g', hok, hn, .empty, hu⟩
  · obtain ⟨g', hok, hn, hu⟩ := g.insertMarked_ok (e := ⟨b, a, .tail, .tail, .empty⟩) rfl
      (fun _ _ h => nomatch h) hb ha hne.symm (by rw [g.stored.look_symm, hnew]; rfl)
    refine ⟨g', hok, hn, .empty, fun x y => ?_⟩
    rw [hu]
    by_cases h1 : x = a ∧ y = b
    · rw [if_pos h1, if_neg (fun h2 => hne (h1.1.symm.trans h2.1)), if_pos h1]
      rfl
    · by_cases h2 : x = b ∧ y = a
      · rw [if_pos h2, if_neg h1, if_pos h2]
        rfl
      · rw [if_neg h1, if_neg h2, if_neg h2, if_neg h1]

end Pdag

end Antecedent.Graph
