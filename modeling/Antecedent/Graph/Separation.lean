import Antecedent.Graph.Admg
import Mathlib.Data.Finset.Prod
import Mathlib.Data.Fintype.Card

/-!
# Bayes-ball: the Boolean separation queries

Model of `bayes_ball_reaches` (`dsep.rs:204-293`), `Dag::is_d_separated` (`dsep.rs:326-368`),
`Admg::is_m_separated` and `Admg::is_m_separated_sets` (`msep.rs:24-88`), with the edge-visibility
overlay of `overlay.rs`.

The stack of the source holds pairs of a node and whether the ball arrived from a child. `bayesNext`
lists what the two branches of the loop schedule, in their order; the loop is the worklist search,
which stops at the first popped target.

* `isMSeparatedSets_iff_paths`: on an ADMG the set query says `true` exactly when no m-connecting
  path joins a source to a target.
* `isMSeparatedSets_eq_pairwise`, `isMSeparatedSets_eq_dSeparated`: the set query is the conjunction
  of the pairwise ones, and of the DAG's when the graph has no bidirected edge.
-/

namespace Antecedent.Graph

open Mixed
open Worklist

/-- `overlay.rs:17-22`. -/
structure GraphOverlay where
  hideIncoming : Finset Nat
  hideOutgoing : Finset Nat

/-- `overlay.rs:56-58`. -/
def GraphOverlay.edgeVisible (ov : GraphOverlay) (src dst : Nat) : Bool :=
  !decide (src ∈ ov.hideOutgoing) && !decide (dst ∈ ov.hideIncoming)

/-- `overlay.is_none_or(|ov| ov.edge_visible(parent, child))`. -/
def directedOk (overlay : Option GraphOverlay) (parent child : Nat) : Bool :=
  overlay.all fun ov => ov.edgeVisible parent child

/-- `dsep.rs:297-303`. -/
structure BayesBallGraph where
  parents : List (List Nat)
  children : List (List Nat)
  bidirected : List (List Nat)
  overlay : Option GraphOverlay

namespace BayesBallGraph

/-- The visible parents of `node`, each scheduled as entered from a child. -/
def scheduleParents (g : BayesBallGraph) (node : Nat) : List (Nat × Bool) :=
  ((row g.parents node).filter fun p => directedOk g.overlay p node).map fun p => (p, true)

/-- The visible children of `node`, each scheduled as entered from a parent. -/
def scheduleChildren (g : BayesBallGraph) (node : Nat) : List (Nat × Bool) :=
  ((row g.children node).filter fun c => directedOk g.overlay node c).map fun c => (c, false)

/-- The bidirected neighbours of `node`, entered as from a parent. -/
def scheduleBidirected (g : BayesBallGraph) (node : Nat) : List (Nat × Bool) :=
  (row g.bidirected node).map fun o => (o, false)

/-- What popping `(node, from_child)` schedules (`dsep.rs:254-290`). -/
def bayesNext (g : BayesBallGraph) (conditioning ancestral : Finset Nat) :
    Nat × Bool → List (Nat × Bool)
  | (node, true) =>
    if node ∈ conditioning then []
    else g.scheduleParents node ++ g.scheduleChildren node ++ g.scheduleBidirected node
  | (node, false) =>
    (if node ∉ conditioning then g.scheduleChildren node else []) ++
      if node ∈ ancestral then g.scheduleParents node ++ g.scheduleBidirected node else []

/-- `dsep.rs:204-293`. -/
def bayesBallReaches (g : BayesBallGraph) (sources targets conditioning : List Nat) : Bool :=
  let n := g.parents.length
  let cond := (conditioning.filter (· < n)).toFinset
  let ancestral := closureInto n (row g.parents) conditioning fun child parent =>
    directedOk g.overlay parent child
  let goals := (targets.filter (· < n)).toFinset
  search (g.bayesNext cond ancestral) (fun s => decide (s.1 ∈ goals)) (2 * n + 1)
    ((sources.filter (· < n)).map fun s => (s, true))

/-- The rows a graph of `n` nodes hands to Bayes-ball. -/
structure Rows (n : Nat) (g : BayesBallGraph) : Prop where
  length : g.parents.length = n
  mirrored : ∀ a b, a ∈ row g.parents b ↔ b ∈ row g.children a
  in_range : ∀ a b, b ∈ row g.children a → a < n ∧ b < n
  bi_symm : ∀ a b, b ∈ row g.bidirected a → a ∈ row g.bidirected b
  bi_range : ∀ a b, b ∈ row g.bidirected a → b < n

def mixed {n : Nat} {g : BayesBallGraph} (h : Rows n g) : MixedGraph Nat where
  dir a b := b ∈ row g.children a ∧ directedOk g.overlay a b = true
  bi a b := b ∈ row g.bidirected a
  bi_symm {a b} hab := h.bi_symm a b hab

variable {n : Nat} {g : BayesBallGraph}

variable {v w : Nat} {b : Bool} {Z : Set Nat} {cond anc : Finset Nat} {z : List Nat}

variable (h : Rows n g)

include h

theorem mem_scheduleParents : (w, b) ∈ g.scheduleParents v ↔ (mixed h).Edge .bwd v w ∧ b = true := by
  unfold scheduleParents
  simp only [List.mem_map, List.mem_filter, Prod.mk.injEq, h.mirrored]
  constructor
  · rintro ⟨p, hp, rfl, rfl⟩
    exact ⟨hp, rfl⟩
  · rintro ⟨hp, rfl⟩
    exact ⟨w, hp, rfl, rfl⟩

theorem mem_scheduleChildren : (w, b) ∈ g.scheduleChildren v ↔ (mixed h).Edge .fwd v w ∧ b = false := by
  unfold scheduleChildren
  simp only [List.mem_map, List.mem_filter, Prod.mk.injEq]
  constructor
  · rintro ⟨c, hc, rfl, rfl⟩
    exact ⟨hc, rfl⟩
  · rintro ⟨hc, rfl⟩
    exact ⟨w, hc, rfl, rfl⟩

theorem mem_scheduleBidirected :
    (w, b) ∈ g.scheduleBidirected v ↔ (mixed h).Edge .bi v w ∧ b = false := by
  unfold scheduleBidirected
  simp only [List.mem_map, Prod.mk.injEq]
  constructor
  · rintro ⟨c, hc, rfl, rfl⟩
    exact ⟨hc, rfl⟩
  · rintro ⟨hc, rfl⟩
    exact ⟨w, hc, rfl, rfl⟩

/-- The step lemma: one pop schedules exactly the moves of the ball. -/
theorem mem_bayesNext (hcond : ∀ v, v ∈ cond ↔ v ∈ Z) (hanc : ∀ v, v ∈ anc ↔ v ∈ (mixed h).AncSet Z)
    (v w : Nat) (i j : Bool) : (w, j) ∈ g.bayesNext cond anc (v, i) ↔
      ∃ k : EdgeKind, (mixed h).Passes Z (!i && k.headL) v ∧ (mixed h).Edge k v w ∧
        j = !k.headR := by
  have hsplit : (∃ k : EdgeKind, (mixed h).Passes Z (!i && k.headL) v ∧ (mixed h).Edge k v w ∧
      j = !k.headR) ↔
      ((mixed h).Passes Z false v ∧ (mixed h).Edge .fwd v w ∧ j = false) ∨
        ((mixed h).Passes Z (!i) v ∧ (mixed h).Edge .bwd v w ∧ j = true) ∨
        ((mixed h).Passes Z (!i) v ∧ (mixed h).Edge .bi v w ∧ j = false) := by
    constructor
    · rintro ⟨k, hp, he, rfl⟩
      cases k with
      | fwd => exact Or.inl ⟨by simpa [EdgeKind.headL] using hp, he, rfl⟩
      | bwd => exact Or.inr (Or.inl ⟨by simpa [EdgeKind.headL] using hp, he, rfl⟩)
      | bi => exact Or.inr (Or.inr ⟨by simpa [EdgeKind.headL] using hp, he, rfl⟩)
    · rintro (⟨hp, he, rfl⟩ | ⟨hp, he, rfl⟩ | ⟨hp, he, rfl⟩)
      · exact ⟨.fwd, by simpa [EdgeKind.headL] using hp, he, rfl⟩
      · exact ⟨.bwd, by simpa [EdgeKind.headL] using hp, he, rfl⟩
      · exact ⟨.bi, by simpa [EdgeKind.headL] using hp, he, rfl⟩
  rw [hsplit]
  have hc : v ∈ cond ↔ v ∈ Z := hcond v
  have ha : v ∈ anc ↔ v ∈ (mixed h).AncSet Z := hanc v
  cases i with
  | true =>
    by_cases hz : v ∈ Z
    · simp [bayesNext, hc.mpr hz, MixedGraph.passes_noncollider, hz]
    · simp only [bayesNext, if_neg (hc.not.mpr hz), List.mem_append, mem_scheduleParents h,
        mem_scheduleChildren h, mem_scheduleBidirected h, Bool.not_true,
        MixedGraph.passes_noncollider, hz, not_false_eq_true, true_and]
      rw [or_assoc, or_left_comm]
  | false =>
    have hleft : (w, j) ∈ (if v ∉ cond then g.scheduleChildren v else []) ↔
        (mixed h).Passes Z false v ∧ (mixed h).Edge .fwd v w ∧ j = false := by
      rw [MixedGraph.passes_noncollider, ← hc]
      split_ifs with hz
      · simp [hz]
      · simp [hz, mem_scheduleChildren h]
    have hright : (w, j) ∈ (if v ∈ anc then g.scheduleParents v ++ g.scheduleBidirected v
        else []) ↔ ((mixed h).Passes Z (!false) v ∧ (mixed h).Edge .bwd v w ∧ j = true) ∨
          ((mixed h).Passes Z (!false) v ∧ (mixed h).Edge .bi v w ∧ j = false) := by
      rw [Bool.not_false, MixedGraph.passes_collider, ← ha, ← and_or_left]
      split_ifs with hm
      · simp [hm, mem_scheduleParents h, mem_scheduleBidirected h]
      · simp [hm]
    simp only [bayesNext, List.mem_append]
    rw [hleft, hright]

/-- The pairs a search can meet. -/
theorem bounded_bayesNext (hcond : ∀ v, v ∈ cond ↔ v ∈ Z)
    (hanc : ∀ v, v ∈ anc ↔ v ∈ (mixed h).AncSet Z) (sources : List Nat) :
    Bounded (g.bayesNext cond anc) ((sources.filter (· < n)).map fun s => (s, true))
      (Finset.range n ×ˢ (Finset.univ : Finset Bool)) := by
  refine ⟨fun s hs => ?_, fun u _ w hw => ?_⟩
  · obtain ⟨x, hx, rfl⟩ := List.mem_map.mp hs
    have := (List.mem_filter.mp hx).2
    simpa using this
  · obtain ⟨v, i⟩ := u
    obtain ⟨x, j⟩ := w
    obtain ⟨k, -, he, -⟩ := (mem_bayesNext h hcond hanc v x i j).mp hw
    have hx : x < n := by
      cases k with
      | fwd => exact (h.in_range v x he.1).2
      | bwd => exact (h.in_range x v he.1).1
      | bi => exact h.bi_range v x he
    simpa using hx

/-- The run lemma: the search follows the ball, arrow marks negated. -/
theorem reach_iff_ball (hcond : ∀ v, v ∈ cond ↔ v ∈ Z)
    (hanc : ∀ v, v ∈ anc ↔ v ∈ (mixed h).AncSet Z) {sources : List Nat} (hs : ∀ s ∈ sources, s < n)
    (v : Nat) (i : Bool) : (∃ s, s ∈ (sources.filter (· < n)).map (fun s => (s, true)) ∧
        Reach (g.bayesNext cond anc) s (v, i)) ↔
      (mixed h).Ball Z {s | s ∈ sources} v (!i) := by
  constructor
  · rintro ⟨s, hs', hr⟩
    obtain ⟨x, hx, rfl⟩ := List.mem_map.mp hs'
    have hx' : x ∈ sources := (List.mem_filter.mp hx).1
    have key : ∀ q, Reach (g.bayesNext cond anc) (x, true) q →
        (mixed h).Ball Z {s | s ∈ sources} q.1 (!q.2) := by
      intro q hq
      induction hq with
      | refl => exact MixedGraph.Ball.source hx'
      | @tail p q _ hpq ih =>
        obtain ⟨k, hp, he, hj⟩ := (mem_bayesNext h hcond hanc p.1 q.1 p.2 q.2).mp hpq
        have := ih.step hp he
        rwa [hj, Bool.not_not]
    exact key (v, i) hr
  · intro hb
    have key : ∀ {v : Nat} {m : Bool}, (mixed h).Ball Z {s | s ∈ sources} v m →
        ∃ s, s ∈ (sources.filter (· < n)).map (fun s => (s, true)) ∧
          Reach (g.bayesNext cond anc) s (v, !m) := by
      intro v m hb
      induction hb with
      | @source v hv =>
        refine ⟨(v, true), List.mem_map.mpr ⟨v, List.mem_filter.mpr ⟨hv, ?_⟩, rfl⟩,
          Relation.ReflTransGen.refl⟩
        simpa using hs v hv
      | @step v w m k _ hp he ih =>
        obtain ⟨s, hs', hr⟩ := ih
        refine ⟨s, hs', hr.tail ?_⟩
        refine (mem_bayesNext h hcond hanc v w _ _).mpr ⟨k, ?_, he, rfl⟩
        rwa [Bool.not_not]
    have := key hb
    rwa [Bool.not_not] at this

theorem mem_ancestral (hz : ∀ v ∈ z, v < n) (v : Nat) :
    v ∈ closureInto n (row g.parents) z (fun c p => directedOk g.overlay p c) ↔
      v ∈ (mixed h).AncSet {v | v ∈ z} := by
  have hn : ∀ u w, w ∈ row g.parents u → w < n := fun u w hw =>
    (h.in_range w u ((h.mirrored w u).mp hw)).1
  have hrel : (fun a b => b ∈ row g.parents a ∧ directedOk g.overlay b a = true) =
      Function.swap (mixed h).dir := by
    funext a b
    exact propext (and_congr_left fun _ => h.mirrored b a)
  rw [mem_closureInto hn, hrel]
  constructor
  · rintro ⟨s, hs, -, hr⟩
    exact ⟨s, hs, Relation.reflTransGen_swap.mp hr⟩
  · rintro ⟨s, hs, hr⟩
    exact ⟨s, hs, hz s hs, Relation.reflTransGen_swap.mpr hr⟩

/-- **Bayes-ball finds a target iff the ball of the mixed graph reaches one.** -/
theorem bayesBallReaches_iff {S T : List Nat} (hS : ∀ s ∈ S, s < n) (hT : ∀ t ∈ T, t < n)
    (hz : ∀ v ∈ z, v < n) : g.bayesBallReaches S T z = true ↔
      ∃ t ∈ T, ∃ m, (mixed h).Ball {v | v ∈ z} {s | s ∈ S} t m := by
  have hcond : ∀ v, v ∈ (z.filter (· < n)).toFinset ↔ v ∈ {v | v ∈ z} := by
    intro v
    simp only [List.mem_toFinset, List.mem_filter, decide_eq_true_eq, Set.mem_ofPred_eq]
    exact ⟨And.left, fun hv => ⟨hv, hz v hv⟩⟩
  have hanc := mem_ancestral h hz
  have hgoal : ∀ t, t ∈ (T.filter (· < n)).toFinset ↔ t ∈ T := by
    intro t
    simp only [List.mem_toFinset, List.mem_filter, decide_eq_true_eq]
    exact ⟨And.left, fun ht => ⟨ht, hT t ht⟩⟩
  have hcard : (Finset.range n ×ˢ (Finset.univ : Finset Bool)).card < 2 * n + 1 := by
    rw [Finset.card_product, Finset.card_range, Finset.card_univ, Fintype.card_bool]
    omega
  unfold bayesBallReaches
  simp only [h.length]
  rw [search_iff (bounded_bayesNext h hcond hanc S) hcard]
  constructor
  · rintro ⟨s, ⟨t, i⟩, hs, hr, hg⟩
    exact ⟨t, (hgoal t).mp (by simpa using hg), _,
      (reach_iff_ball h hcond hanc hS t i).mp ⟨s, hs, hr⟩⟩
  · rintro ⟨t, ht, m, hb⟩
    rw [← Bool.not_not m] at hb
    obtain ⟨s, hs, hr⟩ := (reach_iff_ball h hcond hanc hS t (!m)).mpr hb
    exact ⟨s, (t, !m), hs, hr, by simpa using (hgoal t).mpr ht⟩

end BayesBallGraph

/-! ## The queries -/

namespace Dag

/-- The rows `Dag::is_d_separated_with` hands over (`dsep.rs:357-366`). -/
def bayesBall (g : Dag) (overlay : Option GraphOverlay) : BayesBallGraph :=
  ⟨g.directed.parents, g.directed.children, [], overlay⟩

/-- `dsep.rs:337-368`. -/
def isDSeparatedWith (g : Dag) (x y : Nat) (z : List Nat) (overlay : Option GraphOverlay) :
    Except GraphError Bool := do
  g.validateNode x
  g.validateNode y
  z.forM g.validateNode
  if x = y then return false
  if z.any fun v => v == x || v == y then return false
  return !(g.bayesBall overlay).bayesBallReaches [x] [y] z

/-- `dsep.rs:326-334`. -/
def isDSeparated (g : Dag) (x y : Nat) (z : List Nat) : Except GraphError Bool :=
  g.isDSeparatedWith x y z none

theorem bayesBall_rows (g : Dag) (overlay : Option GraphOverlay) :
    BayesBallGraph.Rows g.nodeCount (g.bayesBall overlay) where
  length := g.valid.parents_length
  mirrored := g.valid.mirrored
  in_range := g.valid.in_range
  bi_symm _ _ h := absurd h List.not_mem_nil
  bi_range _ _ h := absurd h List.not_mem_nil

def visible (g : Dag) (overlay : Option GraphOverlay) : MixedGraph Nat :=
  BayesBallGraph.mixed (g.bayesBall_rows overlay)

theorem visible_none (g : Dag) : g.visible none = g.mixed := by
  have hd : (g.visible none).dir = g.mixed.dir :=
    funext fun a => funext fun b => propext (and_iff_left rfl)
  have hb : (g.visible none).bi = g.mixed.bi :=
    funext fun a => funext fun b => propext (iff_of_false List.not_mem_nil id)
  calc g.visible none = ⟨(g.visible none).dir, (g.visible none).bi, (g.visible none).bi_symm⟩ := rfl
    _ = g.mixed := by simp only [hd, hb]

end Dag

namespace Admg

/-- The rows `Admg::bayes_m_connected` hands over (`msep.rs:121-139`). -/
def bayesBall (g : Admg) : BayesBallGraph :=
  ⟨g.directed.parents, g.directed.children, g.bidirected, none⟩

/-- `msep.rs:24-43`. -/
def isMSeparated (g : Admg) (x y : Nat) (z : List Nat) : Except GraphError Bool := do
  g.validateNode x
  g.validateNode y
  z.forM g.validateNode
  if x = y then return false
  if z.any fun v => v == x || v == y then return false
  return !g.bayesBall.bayesBallReaches [x] [y] z

/-- `msep.rs:56-88`. -/
def isMSeparatedSets (g : Admg) (sources targets z : List Nat) : Except GraphError Bool := do
  (sources ++ targets ++ z).forM g.validateNode
  if sources.isEmpty || targets.isEmpty then return true
  if sources.any fun s => targets.contains s || z.contains s then return false
  if targets.any fun t => z.contains t then return false
  return !g.bayesBall.bayesBallReaches sources targets z

theorem bayesBall_rows (g : Admg) : BayesBallGraph.Rows g.nodeCount g.bayesBall where
  length := g.valid.parents_length
  mirrored := g.valid.mirrored
  in_range := g.valid.in_range
  bi_symm := g.biValid.symm
  bi_range := g.biValid.in_range

theorem mixed_bayesBall (g : Admg) : BayesBallGraph.mixed g.bayesBall_rows = g.mixed := by
  have hd : (BayesBallGraph.mixed g.bayesBall_rows).dir = g.mixed.dir :=
    funext fun a => funext fun b => propext (and_iff_left rfl)
  calc BayesBallGraph.mixed g.bayesBall_rows
      = ⟨(BayesBallGraph.mixed g.bayesBall_rows).dir, g.mixed.bi, g.mixed.bi_symm⟩ := rfl
    _ = g.mixed := by simp only [hd]

end Admg

/-! ## What the queries answer -/

/-- The query on nodes of the graph, endpoints distinct and outside `z`. -/
structure Query (n : Nat) (x y : Nat) (z : List Nat) : Prop where
  x_lt : x < n
  y_lt : y < n
  z_lt : ∀ v ∈ z, v < n
  ne : x ≠ y
  x_notMem : x ∉ z
  y_notMem : y ∉ z

theorem Query.any_eq_false {n x y : Nat} {z : List Nat} (h : Query n x y z) :
    (z.any fun v => v == x || v == y) = false := by
  rw [List.any_eq_false]
  intro v hv
  have h1 : v ≠ x := fun e => h.x_notMem (e ▸ hv)
  have h2 : v ≠ y := fun e => h.y_notMem (e ▸ hv)
  simp [h1, h2]

variable {x y : Nat} {z sources targets : List Nat} {g : Admg}

theorem Dag.isDSeparatedWith_eq {g : Dag}
    (h : Query g.nodeCount x y z) (overlay : Option GraphOverlay) :
    g.isDSeparatedWith x y z overlay =
      .ok (!(g.bayesBall overlay).bayesBallReaches [x] [y] z) := by
  unfold Dag.isDSeparatedWith
  rw [Dag.validateNode_ok h.x_lt, Dag.validateNode_ok h.y_lt,
    forM_ok fun v hv => Dag.validateNode_ok (h.z_lt v hv)]
  simp only [bind, Except.bind, if_neg h.ne, h.any_eq_false]
  rfl

theorem Admg.isMSeparated_eq (h : Query g.nodeCount x y z) :
    g.isMSeparated x y z = .ok (!g.bayesBall.bayesBallReaches [x] [y] z) := by
  unfold Admg.isMSeparated
  rw [Admg.validateNode_ok h.x_lt, Admg.validateNode_ok h.y_lt,
    forM_ok fun v hv => Admg.validateNode_ok (h.z_lt v hv)]
  simp only [bind, Except.bind, if_neg h.ne, h.any_eq_false]
  rfl

/-- **`is_d_separated_with` answers `true` iff no m-connecting path is left in the visible
graph.** -/
theorem Dag.isDSeparatedWith_iff {g : Dag}
    (h : Query g.nodeCount x y z) (overlay : Option GraphOverlay) :
    g.isDSeparatedWith x y z overlay = .ok true ↔
      ¬ ∃ m, (g.visible overlay).Ball {v | v ∈ z} {x} y m := by
  rw [Dag.isDSeparatedWith_eq h]
  have hr := BayesBallGraph.bayesBallReaches_iff (g.bayesBall_rows overlay) (S := [x]) (T := [y])
    (by simpa using h.x_lt) (by simpa using h.y_lt) h.z_lt
  have hset : {s | s ∈ [x]} = ({x} : Set Nat) := by ext s; simp
  rw [hset] at hr
  simp only [List.mem_singleton, exists_eq_left] at hr
  rw [← Dag.visible] at hr
  rw [← hr]
  simp

theorem Admg.isMSeparated_iff (h : Query g.nodeCount x y z) :
    g.isMSeparated x y z = .ok true ↔ ¬ ∃ m, g.mixed.Ball {v | v ∈ z} {x} y m := by
  rw [Admg.isMSeparated_eq h]
  have hr := BayesBallGraph.bayesBallReaches_iff g.bayesBall_rows (S := [x]) (T := [y])
    (by simpa using h.x_lt) (by simpa using h.y_lt) h.z_lt
  have hset : {s | s ∈ [x]} = ({x} : Set Nat) := by ext s; simp
  rw [hset, Admg.mixed_bayesBall] at hr
  simp only [List.mem_singleton, exists_eq_left] at hr
  rw [← hr]
  simp

/-- **The pairwise query decides the path criterion.** -/
theorem Admg.isMSeparated_iff_path (h : Query g.nodeCount x y z) :
    g.isMSeparated x y z = .ok true ↔ ¬ g.mixed.MConnecting {v | v ∈ z} x y := by
  rw [Admg.isMSeparated_iff h, MixedGraph.ball_iff_mConnecting g.acyclic (by
    rintro a rfl
    exact h.x_notMem)]
  simp

/-- A set query on nodes of the graph, the three lists pairwise disjoint. -/
structure SetQuery (n : Nat) (sources targets z : List Nat) : Prop where
  sources_lt : ∀ s ∈ sources, s < n
  targets_lt : ∀ t ∈ targets, t < n
  z_lt : ∀ v ∈ z, v < n
  disjoint : ∀ s ∈ sources, s ∉ targets
  sources_z : ∀ s ∈ sources, s ∉ z
  targets_z : ∀ t ∈ targets, t ∉ z

theorem SetQuery.query {n : Nat}
    (h : SetQuery n sources targets z) {s t : Nat} (hs : s ∈ sources) (ht : t ∈ targets) :
    Query n s t z where
  x_lt := h.sources_lt s hs
  y_lt := h.targets_lt t ht
  z_lt := h.z_lt
  ne := fun e => h.disjoint s hs (e ▸ ht)
  x_notMem := h.sources_z s hs
  y_notMem := h.targets_z t ht

theorem Admg.isMSeparatedSets_eq (h : SetQuery g.nodeCount sources targets z) :
    g.isMSeparatedSets sources targets z =
      .ok (sources.isEmpty || targets.isEmpty ||
        !g.bayesBall.bayesBallReaches sources targets z) := by
  have hall : ∀ v ∈ sources ++ targets ++ z, v < g.nodeCount := by
    intro v hv
    simp only [List.mem_append] at hv
    rcases hv with (hv | hv) | hv
    · exact h.sources_lt v hv
    · exact h.targets_lt v hv
    · exact h.z_lt v hv
  have hsrc : (sources.any fun s => targets.contains s || z.contains s) = false := by
    rw [List.any_eq_false]
    intro s hs
    simp [h.disjoint s hs, h.sources_z s hs]
  have htgt : (targets.any fun t => z.contains t) = false := by
    rw [List.any_eq_false]
    intro t ht
    simp [h.targets_z t ht]
  unfold Admg.isMSeparatedSets
  rw [forM_ok fun v hv => Admg.validateNode_ok (hall v hv), hsrc, htgt]
  simp only [bind, Except.bind, pure, Except.pure]
  cases sources.isEmpty <;> cases targets.isEmpty <;> rfl

theorem Admg.isMSeparatedSets_iff (h : SetQuery g.nodeCount sources targets z) :
    g.isMSeparatedSets sources targets z = .ok true ↔
      ¬ ∃ t ∈ targets, ∃ m, g.mixed.Ball {v | v ∈ z} {s | s ∈ sources} t m := by
  have hr := BayesBallGraph.bayesBallReaches_iff g.bayesBall_rows h.sources_lt h.targets_lt h.z_lt
  rw [Admg.mixed_bayesBall] at hr
  have hempty : (sources.isEmpty || targets.isEmpty) = true →
      ¬ ∃ t ∈ targets, ∃ m, g.mixed.Ball {v | v ∈ z} {s | s ∈ sources} t m := by
    rintro he ⟨t, ht, m, hb⟩
    obtain ⟨s, hs, -⟩ := MixedGraph.ball_singleton hb
    rw [Bool.or_eq_true, List.isEmpty_iff, List.isEmpty_iff] at he
    rcases he with rfl | rfl
    · exact List.not_mem_nil hs
    · exact List.not_mem_nil ht
  rw [Admg.isMSeparatedSets_eq h, ← hr] at *
  cases hE : (sources.isEmpty || targets.isEmpty) with
  | true => simpa using hempty hE
  | false => simp

theorem Admg.isMSeparatedSets_iff_pairs (h : SetQuery g.nodeCount sources targets z) :
    g.isMSeparatedSets sources targets z = .ok true ↔
      ∀ s ∈ sources, ∀ t ∈ targets, g.isMSeparated s t z = .ok true := by
  rw [Admg.isMSeparatedSets_iff h]
  constructor
  · rintro hno s hs t ht
    rw [Admg.isMSeparated_iff (h.query hs ht)]
    rintro ⟨m, hb⟩
    exact hno ⟨t, ht, m, MixedGraph.ball_mono_source (by rintro a rfl; exact hs) hb⟩
  · rintro hall ⟨t, ht, m, hb⟩
    obtain ⟨s, hs, hb⟩ := MixedGraph.ball_singleton hb
    exact (Admg.isMSeparated_iff (h.query hs ht)).mp (hall s hs t ht) ⟨m, hb⟩

theorem Admg.row_of_hasBidirected (h : g.hasBidirected = false) (v : Nat) :
    row g.bidirected v = [] := by
  unfold row
  rw [List.getD_eq_getElem?_getD]
  cases hv : g.bidirected[v]? with
  | none => rfl
  | some l =>
    have := List.any_eq_false.mp h l (List.mem_of_getElem? hv)
    simpa using this

theorem Admg.bayesBallReaches_of_directed (h : g.hasBidirected = false)
    (S T z : List Nat) :
    g.bayesBall.bayesBallReaches S T z = (g.directedPart.bayesBall none).bayesBallReaches S T z := by
  have hbi : ∀ v, g.bayesBall.scheduleBidirected v =
      (g.directedPart.bayesBall none).scheduleBidirected v := by
    intro v
    unfold BayesBallGraph.scheduleBidirected
    rw [show g.bayesBall.bidirected = g.bidirected from rfl, g.row_of_hasBidirected h v]
    rfl
  have hnext : ∀ c a, g.bayesBall.bayesNext c a = (g.directedPart.bayesBall none).bayesNext c a := by
    intro c a
    funext ⟨v, i⟩
    cases i <;> simp only [BayesBallGraph.bayesNext, hbi] <;> rfl
  unfold BayesBallGraph.bayesBallReaches
  simp only [hnext]
  rfl

/-- **Set m-separation is the path criterion.** On valid, pairwise disjoint lists the query
returns, and says `true` exactly when no m-connecting path joins a source to a target; it is the
conjunction of the pairwise queries, and without bidirected edges of the DAG's. -/
theorem isMSeparatedSets_correct (g : Admg) (sources targets z : List Nat)
    (h : SetQuery g.nodeCount sources targets z) :
    (∃ b, g.isMSeparatedSets sources targets z = .ok b) ∧
      (g.isMSeparatedSets sources targets z = .ok true ↔
        ¬ ∃ s ∈ sources, ∃ t ∈ targets, g.mixed.MConnecting {v | v ∈ z} s t) ∧
      (g.isMSeparatedSets sources targets z = .ok true ↔
        ∀ s ∈ sources, ∀ t ∈ targets, g.isMSeparated s t z = .ok true) ∧
      (g.hasBidirected = false →
        (∀ s ∈ sources, ∀ t ∈ targets, g.isMSeparated s t z = g.directedPart.isDSeparated s t z) ∧
        (g.isMSeparatedSets sources targets z = .ok true ↔
          ∀ s ∈ sources, ∀ t ∈ targets, g.directedPart.isDSeparated s t z = .ok true)) := by
  have hpair := Admg.isMSeparatedSets_iff_pairs h
  refine ⟨⟨_, Admg.isMSeparatedSets_eq h⟩, ?_, hpair, fun hbi => ?_⟩
  · rw [hpair]
    constructor
    · rintro hall ⟨s, hs, t, ht, hc⟩
      exact (Admg.isMSeparated_iff_path (h.query hs ht)).mp (hall s hs t ht) hc
    · intro hno s hs t ht
      rw [Admg.isMSeparated_iff_path (h.query hs ht)]
      exact fun hc => hno ⟨s, hs, t, ht, hc⟩
  · have heq : ∀ s ∈ sources, ∀ t ∈ targets,
        g.isMSeparated s t z = g.directedPart.isDSeparated s t z := by
      intro s hs t ht
      rw [Admg.isMSeparated_eq (h.query hs ht), Admg.bayesBallReaches_of_directed hbi]
      exact (Dag.isDSeparatedWith_eq (g := g.directedPart) (h.query hs ht) none).symm
    refine ⟨heq, hpair.trans ?_⟩
    constructor
    · intro hall s hs t ht
      rw [← heq s hs t ht]
      exact hall s hs t ht
    · intro hall s hs t ht
      rw [heq s hs t ht]
      exact hall s hs t ht

/-- The collider `0 → 2 ← 1` with its descendant `2 → 3`, queried for `{0, 1}` against `{3}`. -/
theorem isMSeparatedSets_correct_collider :
    ∃ g, ((Admg.withVariables 4).insertDirected 0 2 >>= fun g => g.insertDirected 1 2 >>= fun g =>
        g.insertDirected 2 3) = .ok g ∧
      SetQuery g.nodeCount [0, 1] [3] [] ∧
      (g.isMSeparatedSets [0, 1] [3] [] = .ok true ↔
        ∀ s ∈ [0, 1], ∀ t ∈ [3], g.isMSeparated s t [] = .ok true) :=
  ⟨_, rfl, ⟨by decide, by decide, by decide, by decide, by decide, by decide⟩,
    (isMSeparatedSets_correct _ [0, 1] [3] []
      ⟨by decide, by decide, by decide, by decide, by decide, by decide⟩).2.2.1⟩

end Antecedent.Graph
