import Antecedent.Graph.Unfold

/-!
# Inserting a list of directed edges

Model of `insert_directed_edges` of `Dag` (`dag.rs:103-120`), `Admg` (`admg.rs:134-151`) and `TemporalDag`
(`temporal.rs:121-155`), over `accepts_new_edges` and `push_edges` (`directed.rs:203-230`). A list that is new
and leaves no cycle is appended after one sort; any other goes through the checked insertion, which stops
at the first refusal and keeps the edges before it. `CoreGraph` is what the three graphs share: a core, the
checked insertion and the rule of the type that stands before the core's own checks.

* `pushEdges_spec`: an accepted list is inserted edge by edge, none refused.
* **`insertDirectedEdges_eq`**: appending at once and inserting one at a time are the same call.
-/

namespace Antecedent.Graph

open Relation

/-- A loop that stops at the first error: the state it leaves, and its result. -/
def untilError {G E ε : Type} (step : G → E → Except ε G) : G → List E → G × Except ε Unit
  | g, [] => (g, .ok ())
  | g, e :: es =>
    match step g e with
    | .ok g' => untilError step g' es
    | .error err => (g, .error err)

namespace DirectedCore

/-- The scan of `accepts_new_edges`; `seen` is what it has read. -/
def newEdges (c : DirectedCore) : List (Nat × Nat) → List (Nat × Nat) → Bool
  | _, [] => true
  | seen, e :: edges =>
    if c.children.length ≤ e.1 ∨ c.children.length ≤ e.2 then false
    else if seen.contains e || (c.childrenOf e.1).contains e.2 then false
    else newEdges c (e :: seen) edges

/-- `directed.rs:224-230`. -/
def pushEdges (c : DirectedCore) (edges : List (Nat × Nat)) : DirectedCore :=
  edges.foldl (fun c e => c.pushUnchecked e.1 e.2) c

/-- `directed.rs:203-222`. -/
def acceptsNewEdges (c : DirectedCore) (edges : List (Nat × Nat)) : Bool :=
  if !c.newEdges [] edges then false
  else if edges.isEmpty then true
  else (c.pushEdges edges).topologicalOrder.isSome

/-! ## An accepted list -/

/-- The edges join nodes of the core, are new to it, and are listed once. -/
structure NewEdges (c : DirectedCore) (edges : List (Nat × Nat)) : Prop where
  in_range : ∀ e ∈ edges, e.1 < c.nodeCount ∧ e.2 < c.nodeCount
  new : ∀ e ∈ edges, ¬ c.Dir e.1 e.2
  once : edges.Nodup

variable {c : DirectedCore} {edges : List (Nat × Nat)} {e : Nat × Nat}

theorem newEdges_iff (hc : c.Wired) : ∀ {edges seen : List (Nat × Nat)},
    c.newEdges seen edges = true ↔ c.NewEdges edges ∧ ∀ e ∈ edges, e ∉ seen
  | [], seen => by
    refine iff_of_true rfl ⟨⟨?_, ?_, List.nodup_nil⟩, ?_⟩ <;> exact fun e he => absurd he List.not_mem_nil
  | e :: edges, seen => by
    have hstep : c.newEdges seen (e :: edges) = true ↔
        (e.1 < c.nodeCount ∧ e.2 < c.nodeCount) ∧ (e ∉ seen ∧ ¬ c.Dir e.1 e.2) ∧
          c.newEdges (e :: seen) edges = true := by
      rw [newEdges, hc.children_length]
      split_ifs with h1 h2
      · exact iff_of_false id fun h => by omega
      · refine iff_of_false id fun h => ?_
        simp only [Bool.or_eq_true, List.contains_iff_mem] at h2
        exact h2.elim h.2.1.1 h.2.1.2
      · simp only [Bool.or_eq_true, List.contains_iff_mem, not_or] at h1 h2
        rw [Nat.not_le, Nat.not_le] at h1
        exact ⟨fun h => ⟨h1, h2, h⟩, fun h => h.2.2⟩
    rw [hstep, newEdges_iff hc]
    constructor
    · rintro ⟨hr, ⟨hs, hn⟩, h, hseen⟩
      refine ⟨⟨List.forall_mem_cons.mpr ⟨hr, h.in_range⟩, List.forall_mem_cons.mpr ⟨hn, h.new⟩,
        List.nodup_cons.mpr ⟨fun he => hseen e he List.mem_cons_self, h.once⟩⟩,
        List.forall_mem_cons.mpr ⟨hs, fun e' he' hm => hseen e' he' (List.mem_cons_of_mem e hm)⟩⟩
    · rintro ⟨⟨hr, hn, ho⟩, hseen⟩
      obtain ⟨hr0, hr⟩ := List.forall_mem_cons.mp hr
      obtain ⟨hn0, hn⟩ := List.forall_mem_cons.mp hn
      obtain ⟨hs0, hs⟩ := List.forall_mem_cons.mp hseen
      obtain ⟨ho0, ho⟩ := List.nodup_cons.mp ho
      refine ⟨hr0, ⟨hs0, hn0⟩, ⟨hr, hn, ho⟩, fun e' he' hm => ?_⟩
      rcases List.mem_cons.mp hm with rfl | hm
      · exact ho0 he'
      · exact hs e' he' hm

theorem NewEdges.tail (h : c.NewEdges (e :: edges)) (hc : c.Wired) :
    (c.pushUnchecked e.1 e.2).NewEdges edges where
  in_range e' he' := h.in_range e' (List.mem_cons_of_mem e he')
  new e' he' hd := by
    rcases (hc.dir_pushUnchecked (h.in_range e List.mem_cons_self).1 e'.1 e'.2).mp hd with hd | ⟨h1, h2⟩
    · exact h.new e' (List.mem_cons_of_mem e he') hd
    · exact (List.nodup_cons.mp h.once).1 (Prod.ext h1 h2 ▸ he')
  once := (List.nodup_cons.mp h.once).2

theorem NewEdges.wired_push (h : c.NewEdges (e :: edges)) (hc : c.Wired) :
    (c.pushUnchecked e.1 e.2).Wired := by
  obtain ⟨hs, hd⟩ := h.in_range e List.mem_cons_self
  exact hc.pushUnchecked hs hd (h.new e List.mem_cons_self)

theorem pushEdges_spec : ∀ {edges : List (Nat × Nat)} {c : DirectedCore}, c.Wired → c.NewEdges edges →
    (c.pushEdges edges).Wired ∧ (c.pushEdges edges).nodes = c.nodes ∧
      ∀ a b, (c.pushEdges edges).Dir a b ↔ c.Dir a b ∨ (a, b) ∈ edges
  | [], c, hc, _ => ⟨hc, rfl, fun a b => by simp [pushEdges]⟩
  | e :: edges, c, hc, h => by
    obtain ⟨hw, hn, hdir⟩ := pushEdges_spec (h.wired_push hc) (h.tail hc)
    refine ⟨hw, hn, fun a b => (hdir a b).trans ?_⟩
    rw [hc.dir_pushUnchecked (h.in_range e List.mem_cons_self).1, or_assoc, List.mem_cons, Prod.ext_iff]

theorem acceptsNewEdges_spec (hc : c.Valid) (h : c.acceptsNewEdges edges = true) :
    c.NewEdges edges ∧ (c.pushEdges edges).Valid := by
  unfold acceptsNewEdges at h
  split_ifs at h with hnew hempty
  · rw [List.isEmpty_iff] at hempty
    subst hempty
    exact ⟨((newEdges_iff hc.wired).mp (by simpa using hnew)).1, hc⟩
  · have hn := ((newEdges_iff hc.wired).mp (by simpa using hnew)).1
    have hw := (pushEdges_spec hc.wired hn).1
    exact ⟨hn, hw.valid (acyclic_of_topologicalOrder hw h)⟩

theorem NewEdges.tryInsert (h : c.NewEdges (e :: edges)) (hc : c.Valid)
    (hv : (c.pushEdges (e :: edges)).Valid) :
    c.tryInsert e.1 e.2 = .ok (c.pushUnchecked e.1 e.2) ∧ (c.pushUnchecked e.1 e.2).Valid := by
  obtain ⟨hs, hd⟩ := h.in_range e List.mem_cons_self
  have hdir := (pushEdges_spec hc.wired h).2.2
  have hcyc : ¬ ReflTransGen c.Dir e.2 e.1 := fun hr =>
    hv.acyclic e.1 (TransGen.head' ((hdir _ _).mpr (Or.inr List.mem_cons_self))
      (ReflTransGen.mono (fun a b hab => (hdir a b).mpr (Or.inl hab)) _ _ hr))
  exact ⟨tryInsert_ok hc hs hd (h.new e List.mem_cons_self) hcyc,
    pushUnchecked_valid hc hs hd (h.new e List.mem_cons_self) hcyc⟩

end DirectedCore

/-! ## The three graphs -/

open DirectedCore

/-- A core with more edges over the same nodes, each of them allowed. -/
structure DirectedCore.Grows (c : DirectedCore) (allowed : Nat × Nat → Bool) (d : DirectedCore) : Prop where
  valid : d.Valid
  nodes : d.nodes = c.nodes
  dir : ∀ a b, d.Dir a b → c.Dir a b ∨ allowed (a, b) = true

/-- A graph that wraps a core. `allows` is its own rule on the ends of a directed edge, and `withCore` the
graph over a grown core, its other fields unchanged. -/
class CoreGraph (G : Type) where
  core : G → DirectedCore
  allows : G → Nat × Nat → Bool
  insertDirected : G → Nat → Nat → Except GraphError G
  withCore : ∀ (g : G) (c : DirectedCore), (core g).Grows (allows g) c → G
  valid : ∀ g, (core g).Valid
  core_withCore : ∀ g c h, core (withCore g c h) = c
  allows_withCore : ∀ g c h, allows (withCore g c h) = allows g
  withCore_core : ∀ g h, withCore g (core g) h = g
  withCore_withCore : ∀ g c h d h' h'', withCore (withCore g c h) d h' = withCore g d h''
  insertDirected_ok : ∀ g e c (h : (core g).Grows (allows g) c), e.1 < (core g).nodeCount →
    e.2 < (core g).nodeCount → allows g e = true → (core g).tryInsert e.1 e.2 = .ok c →
    insertDirected g e.1 e.2 = .ok (withCore g c h)

namespace CoreGraph

variable {G : Type} [CoreGraph G] {g : G} {edges : List (Nat × Nat)}

theorem grows_pushEdges (hall : edges.all (allows g) = true) (hn : (core g).NewEdges edges)
    (hv : ((core g).pushEdges edges).Valid) : (core g).Grows (allows g) ((core g).pushEdges edges) := by
  obtain ⟨-, hnodes, hdir⟩ := pushEdges_spec (valid g).wired hn
  exact ⟨hv, hnodes, fun a b hab => ((hdir a b).mp hab).imp_right fun hm => List.all_eq_true.mp hall _ hm⟩

theorem grows_of_accepts (h : edges.all (allows g) = true ∧ (core g).acceptsNewEdges edges = true) :
    (core g).Grows (allows g) ((core g).pushEdges edges) :=
  grows_pushEdges h.1 (acceptsNewEdges_spec (valid g) h.2).1 (acceptsNewEdges_spec (valid g) h.2).2

def insertEdge (g : G) (e : Nat × Nat) : Except GraphError G := insertDirected g e.1 e.2

/-- The edges at once when the list is accepted, else one at a time. -/
def insertEdges (g : G) (edges : List (Nat × Nat)) : G × Except GraphError Unit :=
  if h : edges.all (allows g) = true ∧ (core g).acceptsNewEdges edges = true then
    (withCore g ((core g).pushEdges edges) (grows_of_accepts h), .ok ())
  else untilError insertEdge g edges

theorem untilError_pushEdges (hall : edges.all (allows g) = true) (hn : (core g).NewEdges edges)
    (hv : ((core g).pushEdges edges).Valid) : untilError insertEdge g edges =
      (withCore g ((core g).pushEdges edges) (grows_pushEdges hall hn hv), .ok ()) := by
  induction edges generalizing g with
  | nil => exact Prod.ext (withCore_core g _).symm rfl
  | cons e edges ih =>
    obtain ⟨hok, hvalid⟩ := hn.tryInsert (valid g) hv
    obtain ⟨hs, hd⟩ := hn.in_range e List.mem_cons_self
    obtain ⟨hallow, hrest⟩ := List.forall_mem_cons.mp (List.all_eq_true.mp hall)
    have hgrow : (core g).Grows (allows g) ((core g).pushUnchecked e.1 e.2) := by
      refine ⟨hvalid, rfl, fun a b hab => ?_⟩
      rcases (dir_pushUnchecked (valid g) hs a b).mp hab with hab | ⟨rfl, rfl⟩
      · exact Or.inl hab
      · exact Or.inr hallow
    have hstep : insertEdge g e = .ok (withCore g _ hgrow) :=
      insertDirected_ok g e _ hgrow hs hd hallow hok
    have hcore := core_withCore g _ hgrow
    have hrun := @ih (withCore g _ hgrow)
      (List.all_eq_true.mpr (by rw [allows_withCore]; exact hrest))
      (by rw [hcore]; exact hn.tail (valid g).wired) (by rw [hcore]; exact hv)
    rw [untilError, hstep]
    refine hrun.trans (Prod.ext ?_ rfl)
    simp only [hcore]
    exact withCore_withCore ..

/-- **Appending a list at once is inserting it edge by edge.** -/
theorem insertEdges_eq (g : G) (edges : List (Nat × Nat)) :
    insertEdges g edges = untilError insertEdge g edges := by
  unfold insertEdges
  split_ifs with h
  · obtain ⟨hn, hv⟩ := acceptsNewEdges_spec (valid g) h.2
    exact (untilError_pushEdges h.1 hn hv).symm
  · rfl

end CoreGraph

instance dagCore : CoreGraph Dag where
  core := Dag.directed
  allows _ _ := true
  insertDirected := Dag.insertDirected
  withCore g c h := ⟨c, h.valid, h.nodes ▸ g.static⟩
  valid := Dag.valid
  core_withCore _ _ _ := rfl
  allows_withCore _ _ _ := rfl
  withCore_core _ _ := rfl
  withCore_withCore _ _ _ _ _ _ := rfl
  insertDirected_ok g e c h hs hd _ hok := by
    have hs : e.1 < g.nodeCount := hs
    have hd : e.2 < g.nodeCount := hd
    simp only [Dag.insertDirected, hs, hd, dif_pos]
    split <;> rename_i hc <;> cases hok.symm.trans hc
    rfl

instance admgCore : CoreGraph Admg where
  core := Admg.directed
  allows _ e := decide (e.1 ≠ e.2)
  insertDirected := Admg.insertDirected
  withCore g c h := ⟨c, g.bidirected, h.valid, h.nodes ▸ g.static, by
    rw [show c.nodeCount = g.directed.nodeCount from congrArg List.length h.nodes]
    exact g.biValid⟩
  valid := Admg.valid
  core_withCore _ _ _ := rfl
  allows_withCore _ _ _ := rfl
  withCore_core _ _ := rfl
  withCore_withCore _ _ _ _ _ _ := rfl
  insertDirected_ok g e c h hs hd ha hok := by
    have hs : e.1 < g.nodeCount := hs
    have hd : e.2 < g.nodeCount := hd
    simp only [Admg.insertDirected, hs, hd, dif_pos, if_neg (of_decide_eq_true ha)]
    split <;> rename_i hc <;> cases hok.symm.trans hc
    rfl

/-- `temporal.rs:139-155`. -/
def TemporalDag.temporalPrecheck (g : TemporalDag) (src dst : Nat) : Bool :=
  match g.nodes[src]?, g.nodes[dst]? with
  | some (.lagged _ _), some (.lagged _ _) =>
    (contemporaneousSelf g.nodes src dst).isNone && (rejectFutureToPast g.nodes src dst).isOk
  | _, _ => false

theorem TemporalDag.temporalPrecheck_spec {nodes : List NodeRef} {src dst : Nat} {g : TemporalDag}
    (hn : g.nodes = nodes) (h : g.temporalPrecheck src dst = true) :
    contemporaneousSelf nodes src dst = none ∧ rejectFutureToPast nodes src dst = .ok () := by
  subst hn
  unfold temporalPrecheck at h
  split at h
  · rw [Bool.and_eq_true, Option.isNone_iff_eq_none] at h
    refine h.imp_right fun ho => ?_
    cases hr : rejectFutureToPast g.nodes src dst with
    | ok _ => rfl
    | error e =>
      rw [hr] at ho
      cases ho
  · cases h

instance temporalDagCore : CoreGraph TemporalDag where
  core := TemporalDag.directed
  allows g e := g.temporalPrecheck e.1 e.2
  insertDirected := TemporalDag.insertDirected
  withCore g c h := ⟨c, h.valid, h.nodes ▸ g.lagged, fun a b hab => (h.dir a b hab).elim
    (fun hd => h.nodes ▸ g.ordered a b hd) fun ha => (g.temporalPrecheck_spec h.nodes.symm ha).2⟩
  valid := TemporalDag.valid
  core_withCore _ _ _ := rfl
  allows_withCore g c h := by
    funext e
    simp only [TemporalDag.temporalPrecheck, TemporalDag.nodes, h.nodes]
  withCore_core _ _ := rfl
  withCore_withCore _ _ _ _ _ _ := rfl
  insertDirected_ok g e c h hs hd ha hok := by
    have hs : e.1 < g.nodeCount := hs
    have hd : e.2 < g.nodeCount := hd
    obtain ⟨hself, hlegal⟩ := TemporalDag.temporalPrecheck_spec rfl ha
    simp only [TemporalDag.insertDirected, hs, hd, dif_pos, hself]
    split <;> rename_i ho <;> cases hlegal.symm.trans ho
    split <;> rename_i hc <;> cases hok.symm.trans hc
    rfl

/-- `dag.rs:103-120`. -/
def Dag.insertDirectedEdges : Dag → List (Nat × Nat) → Dag × Except GraphError Unit :=
  CoreGraph.insertEdges

/-- `admg.rs:134-151`. -/
def Admg.insertDirectedEdges : Admg → List (Nat × Nat) → Admg × Except GraphError Unit :=
  CoreGraph.insertEdges

/-- `temporal.rs:121-137`. -/
def TemporalDag.insertDirectedEdges :
    TemporalDag → List (Nat × Nat) → TemporalDag × Except GraphError Unit :=
  CoreGraph.insertEdges

/-! ## Sequences of insertions -/

/-- A call that inserts directed edges. -/
inductive Insertion
  | single (src dst : Nat)
  | batch (edges : List (Nat × Nat))

section Insertions

open CoreGraph

variable {G : Type} [CoreGraph G] (batch : G → List (Nat × Nat) → G × Except GraphError Unit)

/-- The graph a call leaves. -/
def insertion (g : G) : Insertion → G
  | .single src dst => (untilError insertEdge g [(src, dst)]).1
  | .batch edges => (batch g edges).1

/-- A batch is its edges one at a time up to the first error, and after any calls the core is acyclic,
children and parents mirror each other, and no edge is there twice. -/
structure BatchCorrect : Prop where
  eq : ∀ g edges, batch g edges = untilError insertEdge g edges
  acyclic : ∀ g (calls : List Insertion) v, ¬ TransGen (core (calls.foldl (insertion batch) g)).Dir v v
  mirrored : ∀ g (calls : List Insertion) a b, let c := core (calls.foldl (insertion batch) g)
    a ∈ c.parentsOf b ↔ b ∈ c.childrenOf a
  once : ∀ g (calls : List Insertion) a, let c := core (calls.foldl (insertion batch) g)
    (c.childrenOf a).Nodup ∧ (c.parentsOf a).Nodup

theorem batchCorrect (h : ∀ g edges, batch g edges = insertEdges g edges) :
    BatchCorrect batch where
  eq g edges := (h g edges).trans (insertEdges_eq g edges)
  acyclic _ _ := (valid _).acyclic
  mirrored _ _ := (valid _).mirrored
  once _ _ a := ⟨(valid _).children_nodup a, (valid _).parents_nodup a⟩

end Insertions

/-- **A batch is its edges one at a time**, on a DAG, an ADMG and a temporal DAG. -/
theorem insertDirectedEdges_correct : BatchCorrect Dag.insertDirectedEdges ∧
    BatchCorrect Admg.insertDirectedEdges ∧ BatchCorrect TemporalDag.insertDirectedEdges :=
  ⟨batchCorrect _ fun _ _ => rfl, batchCorrect _ fun _ _ => rfl, batchCorrect _ fun _ _ => rfl⟩

end Antecedent.Graph
