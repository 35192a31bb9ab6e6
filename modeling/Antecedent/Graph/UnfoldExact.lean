import Antecedent.Graph.Unfold

/-!
# What unfolding a temporal DAG gives

`Dag.OverSlots ix E`: the nodes are the slots of the window, in order, and the edges are those of
`E`. `Unfolding` is what unfolding should return for a relation between slots: that DAG, or a cycle
error when the relation has a cycle. The relation is `TemporalDag.Replicates`: `x → y` is a
translate of a template edge.

* **`unfold_correct`**: unfolding is right on distinct slots, for lags, a window and translations
  below `2^31`, and refuses a lag above.
-/

namespace Antecedent.Graph

open Core Relation
open Machine

/-! ## What is to be shown -/

/-- `x → y` is a translate of an edge of the template. -/
def TemporalDag.Replicates (g : TemporalDag) (x y : TemporalNodeKey) : Prop :=
  ∃ a b la lb, g.directed.Dir a b ∧ g.nodes[a]? = some (.lagged x.var la) ∧
    g.nodes[b]? = some (.lagged y.var lb) ∧ y.offset - x.offset = (la : Int) - lb

def slotNodes (ix : TemporalIndexer) (n : Nat) : List NodeRef :=
  (List.range n).map fun d => .unfolded (ix.keyAt d).var (ix.keyAt d).offset

/-- The DAG over the slots of a window with the edges of `E`. -/
structure Dag.OverSlots (ix : TemporalIndexer) (E : TemporalNodeKey → TemporalNodeKey → Prop)
    (dag : Dag) : Prop where
  nodes : dag.nodes = slotNodes ix ix.denseLen
  edges : ∀ x y, ix.InWindow x → ix.InWindow y →
    (dag.directed.Dir (ix.slot x) (ix.slot y) ↔ E x y)

/-- `E` inside the window. -/
def Inside (ix : TemporalIndexer) (E : TemporalNodeKey → TemporalNodeKey → Prop)
    (x y : TemporalNodeKey) : Prop := ix.InWindow x ∧ ix.InWindow y ∧ E x y

/-- The DAG of `E` when `E` has no cycle in the window, else a cycle error. -/
def Unfolding (ix : TemporalIndexer) (E : TemporalNodeKey → TemporalNodeKey → Prop)
    (r : Except GraphError UnfoldedTemporalGraph) : Prop :=
  ((∃ u, r = .ok u ∧ u.indexer = ix ∧ u.dag.OverSlots ix E) ∧
      ∀ x, ¬ TransGen (Inside ix E) x x) ∨
    ((∃ a b, r = .error (.cycle a b)) ∧ ∃ x, TransGen (Inside ix E) x x)

/-- The template and the window stay within `i32`, and the window has the template's variables. -/
structure TemporalDag.Fits (g : TemporalDag) (ix : TemporalIndexer) : Prop where
  vars : ∀ (a var lag : Nat), g.nodes[a]? = some (.lagged var lag) → var < ix.variableCount
  lags : ∀ (a var lag : Nat), g.nodes[a]? = some (.lagged var lag) → (lag : Int) ≤ i32Max
  history : (ix.history : Int) ≤ i32Max
  horizon : (ix.horizon : Int) ≤ i32Max
  shifts : ∀ (a b va vb la lb : Nat), g.directed.Dir a b → g.nodes[a]? = some (.lagged va la) →
    g.nodes[b]? = some (.lagged vb lb) → (min la lb : Int) + ix.horizon - 1 ≤ i32Max

/-! ## The slots -/

theorem Dag.addNode_unfolded (g : Dag) (var : Nat) (offset : Int) (hn : g.nodeCount ≤ u32Max) :
    ∃ g' id, g.addNode (.unfolded var offset) = .ok (g', id) ∧
      g'.nodes = g.nodes ++ [.unfolded var offset] ∧
      ∀ a b, g'.directed.Dir a b ↔ g.directed.Dir a b :=
  DagTarget.addNode_ok g (.unfolded var offset) rfl hn

variable {ix : TemporalIndexer}

theorem foldlM_slots {G : Type} (nodes : G → List NodeRef)
    {f : G → Nat → Except GraphError G} (I : G → Prop) {base : G} (h0 : nodes base = []) (hI : I base)
    (hstep : ∀ g n, n < ix.denseLen → nodes g = slotNodes ix n → I g →
      ∃ g', f g n = .ok g' ∧
        nodes g' = nodes g ++ [.unfolded (ix.keyAt n).var (ix.keyAt n).offset] ∧ I g') :
    ∃ g, (List.range ix.denseLen).foldlM f base = .ok g ∧ nodes g = slotNodes ix ix.denseLen ∧
      I g := by
  have key : ∀ n ≤ ix.denseLen, ∃ g, (List.range n).foldlM f base = .ok g ∧
      nodes g = slotNodes ix n ∧ I g := by
    intro n
    induction n with
    | zero => exact fun _ => ⟨base, rfl, h0, hI⟩
    | succ n ih =>
      intro hn
      obtain ⟨g, hg, hnodes, hIg⟩ := ih (by omega)
      obtain ⟨g', hstep', hnodes', hIg'⟩ := hstep g n hn hnodes hIg
      refine ⟨g', ?_, ?_, hIg'⟩
      · rw [List.range_succ, List.foldlM_append, hg]
        show [n].foldlM f g = _
        rw [List.foldlM_cons, hstep']
        rfl
      · rw [hnodes', hnodes, slotNodes, slotNodes, List.range_succ, List.map_append]
        rfl
  exact key ix.denseLen (Nat.le_refl _)

theorem length_slotNodes (ix : TemporalIndexer) (n : Nat) : (slotNodes ix n).length = n := by
  rw [slotNodes, List.length_map, List.length_range]

/-- **The slots of the window, in order and without edges.** -/
theorem Dag.fromUnfolding_ok (hfit : ix.SlicesFit) :
    ∃ dag, Dag.fromUnfolding ix = .ok dag ∧ dag.nodes = slotNodes ix ix.denseLen ∧
      ∀ i j, ¬ dag.directed.Dir i j := by
  refine foldlM_slots Dag.nodes (fun dag => ∀ i j, ¬ dag.directed.Dir i j) rfl
    (fun i j h => absurd h List.not_mem_nil) fun dag n hn hnodes hnone => ?_
  have hcount : dag.nodeCount ≤ u32Max := by
    have hlen := congrArg List.length hnodes
    rw [length_slotNodes] at hlen
    exact hlen.le.trans ((Nat.le_of_lt hn).trans ix.denseLen_le)
  obtain ⟨dag', id, hadd, hnodes', hdir⟩ :=
    dag.addNode_unfolded (ix.keyAt n).var (ix.keyAt n).offset hcount
  refine ⟨dag', ?_, hnodes', fun i j h => hnone i j ((hdir i j).mp h)⟩
  unfold Dag.addSlot
  rw [TemporalIndexer.keyOf_ok hfit hn]
  simp only
  rw [hadd]
  rfl

/-! ## The pushes -/

/-- The nodes stay and the edges of `R` come in. -/
structure Grown (c c' : DirectedCore) (R : Nat → Nat → Prop) : Prop where
  nodes : c'.nodes = c.nodes
  dir : ∀ i j, c'.Dir i j ↔ c.Dir i j ∨ R i j

variable {nodes : List NodeRef}

/-- A loop whose steps add edges adds the edges of all its steps. -/
theorem foldlM_grown {β : Type}
    {f : Dag.Unchecked → β → Except GraphError Dag.Unchecked} {R : β → Nat → Nat → Prop} :
    ∀ l : List β, (∀ x ∈ l, ∀ g : Dag.Unchecked, g.directed.nodes = nodes →
      ∃ g', f g x = .ok g' ∧ Grown g.directed g'.directed (R x)) →
    ∀ g : Dag.Unchecked, g.directed.nodes = nodes →
      ∃ g', l.foldlM f g = .ok g' ∧ Grown g.directed g'.directed fun i j => ∃ x ∈ l, R x i j
  | [], _, g, _ => ⟨g, rfl, rfl, fun i j => by simp⟩
  | x :: l, h, g, hg => by
    obtain ⟨g₁, h₁, hn₁, hd₁⟩ := h x List.mem_cons_self g hg
    obtain ⟨g₂, h₂, hn₂, hd₂⟩ := foldlM_grown l (fun y hy => h y (List.mem_cons_of_mem x hy)) g₁
      (hn₁.trans hg)
    refine ⟨g₂, ?_, hn₂.trans hn₁, fun i j => ?_⟩
    · rw [List.foldlM_cons, h₁]
      exact h₂
    · rw [hd₂, hd₁, or_assoc]
      simp only [List.mem_cons, exists_eq_or_imp]

/-- A template key whose offset is the opposite of an `i32` lag. -/
structure Keyed (ix : TemporalIndexer) (x : TemporalNodeKey) : Prop where
  var_lt : x.var < ix.variableCount
  le_offset : -i32Max ≤ x.offset
  offset_le : x.offset ≤ 0

/-- The key moved by `delta`. -/
def translate (x : TemporalNodeKey) (delta : Int) : TemporalNodeKey := ⟨x.var, x.offset + delta⟩

/-- The edges between distinct slots one template edge gives. -/
def Copies (ix : TemporalIndexer) (x y : TemporalNodeKey) (i j : Nat) : Prop :=
  ∃ delta ∈ stationaryShifts ix x.offset y.offset, i ≠ j ∧ i = ix.slot (translate x delta) ∧
    j = ix.slot (translate y delta)

section Pushes

variable {ix : TemporalIndexer} {x y : TemporalNodeKey} {nodes : List NodeRef} {delta : Int}

theorem translate_inWindow (hx : Keyed ix x) (hy : Keyed ix y)
    (hd : delta ∈ stationaryShifts ix x.offset y.offset) :
    ix.InWindow (translate x delta) ∧ ix.InWindow (translate y delta) := by
  obtain ⟨⟨h1, h2⟩, h3, h4⟩ := mem_stationaryShifts.mp hd
  exact ⟨⟨hx.var_lt, h1, h2⟩, hy.var_lt, h3, h4⟩

variable (hhist : (ix.history : Int) ≤ i32Max) (hhor : (ix.horizon : Int) ≤ i32Max)
  (hx : Keyed ix x) (hy : Keyed ix y)

include hhist hhor hx hy

/-- **One translation adds its edge unless both ends are one slot.** -/
theorem insertReplicatedEdge_ok (hd : delta ∈ stationaryShifts ix x.offset y.offset)
    (hfit : delta ≤ i32Max) (g : Dag.Unchecked) (hg : g.directed.nodeCount = ix.denseLen) :
    ∃ g', insertReplicatedEdge ix x y g delta = .ok g' ∧
      Grown g.directed g'.directed fun i j => i ≠ j ∧ i = ix.slot (translate x delta) ∧
        j = ix.slot (translate y delta) := by
  obtain ⟨hwx, hwy⟩ := translate_inWindow hx hy hd
  obtain ⟨⟨h1, h2⟩, h3, h4⟩ := mem_stationaryShifts.mp hd
  have hx0 := hx.offset_le
  have hmin : wrapI32 (-wrapI32 ix.history) = -(ix.history : Int) := by
    rw [wrapI32_of_le (by omega) hhist, wrapI32_of_le (by omega) (by omega)]
  have hmax : wrapI32 (wrapI32 ix.horizon - 1) = (ix.horizon : Int) - 1 := by
    rw [wrapI32_of_le (by omega) hhor, wrapI32_of_le (by omega) (by omega)]
  have hcast : tryI32 delta = some delta := tryI32_of_le (by omega) hfit
  have hsx : saturatingAdd x.offset delta = x.offset + delta :=
    saturatingAdd_of_le (by omega) (by omega)
  have hsy : saturatingAdd y.offset delta = y.offset + delta :=
    saturatingAdd_of_le (by omega) (by omega)
  have hstep : insertReplicatedEdge ix x y g delta =
      if ix.slot (translate x delta) = ix.slot (translate y delta) then .ok g
      else .ok (g.pushIfAbsent (ix.slot (translate x delta)) (ix.slot (translate y delta))) := by
    have hix : ix.denseId ⟨x.var, x.offset + delta⟩ = .ok (ix.slot (translate x delta)) :=
      TemporalIndexer.denseId_ok hwx
    have hiy : ix.denseId ⟨y.var, y.offset + delta⟩ = .ok (ix.slot (translate y delta)) :=
      TemporalIndexer.denseId_ok hwy
    unfold insertReplicatedEdge
    simp only [hcast, hmin, hmax, hsx, hsy, hix, hiy]
    rw [if_neg (by omega)]
  rw [hstep]
  by_cases hne : ix.slot (translate x delta) = ix.slot (translate y delta)
  · refine ⟨g, if_pos hne, rfl, fun i j => ⟨Or.inl, ?_⟩⟩
    rintro (h | ⟨hij, rfl, rfl⟩)
    · exact h
    · exact absurd hne hij
  · obtain ⟨hn, hdir⟩ := g.pushIfAbsent_spec (hg ▸ TemporalIndexer.slot_lt hwx)
      (hg ▸ TemporalIndexer.slot_lt hwy)
    refine ⟨_, if_neg hne, hn, fun i j => ?_⟩
    rw [hdir]
    refine or_congr_right ⟨fun h => ⟨?_, h.1, h.2⟩, fun h => h.2⟩
    rw [h.1, h.2]
    exact hne

/-- The translations of one template edge. -/
theorem insertReplicatedEdges_ok (hfit : -max x.offset y.offset + ix.horizon - 1 ≤ i32Max)
    (hn : nodes.length = ix.denseLen) (g : Dag.Unchecked) (hg : g.directed.nodes = nodes) :
    ∃ g', insertReplicatedEdges ix g x y = .ok g' ∧
      Grown g.directed g'.directed (Copies ix x y) := by
  refine foldlM_grown _ (fun delta hd g hg => ?_) g hg
  refine insertReplicatedEdge_ok hhist hhor hx hy hd ?_ g (hn ▸ congrArg List.length hg)
  have := mem_stationaryShifts.mp hd
  omega

end Pushes

/-! ## The template -/

section Template

variable {g : TemporalDag} {ix : TemporalIndexer} {id var lag : Nat}

theorem exists_lagged (hall : ∀ node ∈ nodes, node.isLagged = true) {id : Nat}
    (h : id < nodes.length) : ∃ var lag, nodes[id]? = some (.lagged var lag) := by
  have hmem := hall _ (List.getElem_mem h)
  rw [List.getElem?_eq_getElem h]
  revert hmem
  cases nodes[id] <;> simp [NodeRef.isLagged]

theorem TemporalDag.lagged_of_lt (g : TemporalDag) {id : Nat} (h : id < g.nodeCount) :
    ∃ var lag, g.nodes[id]? = some (.lagged var lag) := exists_lagged g.lagged h

theorem TemporalDag.temporalKey_of_lagged
    (h : g.nodes[id]? = some (.lagged var lag)) :
    g.temporalKey id = (tryI32 lag).map fun lag => ⟨var, -lag⟩ := by
  unfold temporalKey
  rw [h]

theorem TemporalDag.Fits.requireKey (h : g.Fits ix)
    (hid : g.nodes[id]? = some (.lagged var lag)) :
    g.requireKey id = .ok ⟨var, -(lag : Int)⟩ ∧ Keyed ix ⟨var, -(lag : Int)⟩ := by
  have hlag := h.lags id var lag hid
  constructor
  · unfold TemporalDag.requireKey
    rw [temporalKey_of_lagged hid, tryI32_of_le (by unfold i32Max; omega) hlag]
    rfl
  · exact ⟨h.vars id var lag hid, by simp only; omega, by simp only; omega⟩

/-- The edges one template node gives. -/
def TemporalDag.NodeCopies (g : TemporalDag) (ix : TemporalIndexer) (src i j : Nat) : Prop :=
  ∃ dst ∈ g.directed.childrenOf src, ∃ va la vb lb, g.nodes[src]? = some (.lagged va la) ∧
    g.nodes[dst]? = some (.lagged vb lb) ∧ Copies ix ⟨va, -(la : Int)⟩ ⟨vb, -(lb : Int)⟩ i j

theorem TemporalDag.Fits.replicateNode_ok (h : g.Fits ix)
    (hn : nodes.length = ix.denseLen) {src : Nat} (hsrc : src < g.nodeCount)
    (dag : Dag.Unchecked) (hdag : dag.directed.nodes = nodes) :
    ∃ dag', g.replicateNode ix dag src = .ok dag' ∧
      Grown dag.directed dag'.directed (g.NodeCopies ix src) := by
  obtain ⟨va, la, hva⟩ := g.lagged_of_lt hsrc
  obtain ⟨hka, hKa⟩ := h.requireKey hva
  let step : Dag.Unchecked → Nat → Except GraphError Dag.Unchecked := fun dag dst => do
    let toKey ← g.requireKey dst
    insertReplicatedEdges ix dag ⟨va, -(la : Int)⟩ toKey
  have hstep : ∀ dst ∈ g.directed.childrenOf src, ∀ dag : Dag.Unchecked,
      dag.directed.nodes = nodes → ∃ dag', step dag dst = .ok dag' ∧
        Grown dag.directed dag'.directed fun i j => ∃ vb lb,
          g.nodes[dst]? = some (.lagged vb lb) ∧
            Copies ix ⟨va, -(la : Int)⟩ ⟨vb, -(lb : Int)⟩ i j := by
    intro dst hdst dag hdag
    obtain ⟨vb, lb, hvb⟩ := g.lagged_of_lt (g.valid.in_range src dst hdst).2
    obtain ⟨hkb, hKb⟩ := h.requireKey hvb
    have hshift := h.shifts src dst va vb la lb hdst hva hvb
    obtain ⟨dag', hok, hgrown⟩ := insertReplicatedEdges_ok h.history h.horizon hKa hKb
      (by simp only; omega) hn dag hdag
    refine ⟨dag', ?_, hgrown.nodes, fun i j => ?_⟩
    · show (g.requireKey dst >>= insertReplicatedEdges ix dag ⟨va, -(la : Int)⟩) = _
      rw [hkb]
      exact hok
    · rw [hgrown.dir]
      refine or_congr_right ⟨fun hc => ⟨vb, lb, hvb, hc⟩, ?_⟩
      rintro ⟨vb', lb', hvb', hc⟩
      cases hvb.symm.trans hvb'
      exact hc
  have hloop := foldlM_grown (g.directed.childrenOf src) hstep dag hdag
  obtain ⟨dag', hok, hgrown⟩ := hloop
  refine ⟨dag', ?_, hgrown.nodes, fun i j => ?_⟩
  · unfold TemporalDag.replicateNode
    rw [hka]
    exact hok
  · rw [hgrown.dir]
    refine or_congr_right ⟨?_, ?_⟩
    · rintro ⟨dst, hdst, vb, lb, hvb, hc⟩
      exact ⟨dst, hdst, va, la, vb, lb, hva, hvb, hc⟩
    · rintro ⟨dst, hdst, va', la', vb, lb, hva', hvb, hc⟩
      cases hva.symm.trans hva'
      exact ⟨dst, hdst, vb, lb, hvb, hc⟩

/-- **The pushes add the translates between distinct slots.** -/
theorem TemporalDag.Fits.replicate_ok (h : g.Fits ix) (dag : Dag.Unchecked)
    (hdag : dag.directed.nodeCount = ix.denseLen) :
    ∃ dag', (List.range g.nodeCount).foldlM (g.replicateNode ix) dag = .ok dag' ∧
      Grown dag.directed dag'.directed fun i j => ∃ src, g.NodeCopies ix src i j := by
  obtain ⟨dag', hok, hgrown⟩ := foldlM_grown (List.range g.nodeCount)
    (fun src hsrc dag' hd => h.replicateNode_ok hdag (List.mem_range.mp hsrc) dag' hd) dag rfl
  refine ⟨dag', hok, hgrown.nodes, fun i j => ?_⟩
  rw [hgrown.dir]
  refine or_congr_right ⟨fun ⟨src, _, hc⟩ => ⟨src, hc⟩, fun ⟨src, hc⟩ => ⟨src, ?_, hc⟩⟩
  obtain ⟨dst, hdst, -⟩ := hc
  exact List.mem_range.mpr (g.valid.in_range src dst hdst).1

theorem TemporalDag.Fits.nodeCopies_iff (h : g.Fits ix) {x y : TemporalNodeKey}
    (hx : ix.InWindow x) (hy : ix.InWindow y) :
    (∃ src, g.NodeCopies ix src (ix.slot x) (ix.slot y)) ↔ x ≠ y ∧ g.Replicates x y := by
  constructor
  · rintro ⟨src, dst, hdst, va, la, vb, lb, hva, hvb, delta, hd, hne, hsx, hsy⟩
    obtain ⟨hwx, hwy⟩ := translate_inWindow (h.requireKey hva).2 (h.requireKey hvb).2 hd
    obtain rfl := TemporalIndexer.slot_injOn hx hwx hsx
    obtain rfl := TemporalIndexer.slot_injOn hy hwy hsy
    refine ⟨fun e => hne (congrArg ix.slot e), src, dst, la, lb, hdst, hva, hvb, ?_⟩
    simp only [translate]
    omega
  · rintro ⟨hne, src, dst, la, lb, hdst, hva, hvb, hdiff⟩
    have hex : translate ⟨x.var, -(la : Int)⟩ (x.offset + la) = x := by
      simp [translate]
    have hey : translate ⟨y.var, -(lb : Int)⟩ (x.offset + la) = y := by
      simp only [translate]
      rw [show -(lb : Int) + (x.offset + la) = y.offset by omega]
    refine ⟨src, dst, hdst, x.var, la, y.var, lb, hva, hvb, x.offset + la,
      mem_stationaryShifts.mpr ?_, fun e => hne (TemporalIndexer.slot_injOn hx hy e), ?_, ?_⟩
    · have h1 := hx.le_offset
      have h2 := hx.offset_lt
      have h3 := hy.le_offset
      have h4 := hy.offset_lt
      simp only
      omega
    · rw [hex]
    · rw [hey]

/-- The edges of a DAG over the slots are those of `E`, read at the keys of its ends. -/
theorem Dag.OverSlots.transGen_iff {E : TemporalNodeKey → TemporalNodeKey → Prop} {c : DirectedCore}
    (hrange : ∀ i j, c.Dir i j → i < ix.denseLen ∧ j < ix.denseLen)
    (hedges : ∀ x y, ix.InWindow x → ix.InWindow y → (c.Dir (ix.slot x) (ix.slot y) ↔ E x y)) :
    (∀ i, ¬ TransGen c.Dir i i) ↔ ∀ x, ¬ TransGen (Inside ix E) x x := by
  constructor
  · intro h x hx
    refine h (ix.slot x) (TransGen.lift ix.slot (fun a b hab => ?_) x x hx)
    exact (hedges a b hab.1 hab.2.1).mpr hab.2.2
  · intro h i hi
    refine h (ix.keyAt i) (TransGen.lift ix.keyAt (fun a b hab => ?_) i i hi)
    obtain ⟨ha, hb⟩ := hrange a b hab
    refine ⟨TemporalIndexer.keyAt_inWindow ha, TemporalIndexer.keyAt_inWindow hb, ?_⟩
    rw [← hedges _ _ (TemporalIndexer.keyAt_inWindow ha) (TemporalIndexer.keyAt_inWindow hb),
      ix.slot_keyAt, ix.slot_keyAt]
    exact hab

theorem TemporalDag.Fits.materialize_ok (h : g.Fits ix) :
    Unfolding ix (fun x y => x ≠ y ∧ g.Replicates x y)
      (LazyUnfoldedTemporalGraph.materialize ⟨g, ix⟩) := by
  have hfit : ix.SlicesFit := ⟨h.history.trans (by decide), h.horizon.trans (by decide)⟩
  obtain ⟨base, hbase, hnodes, hnone⟩ := Dag.fromUnfolding_ok hfit
  have hcount : base.unchecked.directed.nodeCount = ix.denseLen := by
    have hlen := congrArg List.length hnodes
    rwa [length_slotNodes] at hlen
  obtain ⟨dag, hdag, hgrown⟩ := h.replicate_ok base.unchecked hcount
  have hn : dag.directed.nodeCount = ix.denseLen :=
    (congrArg List.length hgrown.nodes).trans hcount
  have hedges : ∀ x y, ix.InWindow x → ix.InWindow y →
      (dag.directed.Dir (ix.slot x) (ix.slot y) ↔ x ≠ y ∧ g.Replicates x y) := fun x y hx hy => by
    rw [hgrown.dir, ← h.nodeCopies_iff hx hy]
    exact or_iff_right (hnone _ _)
  have hcyc := Dag.OverSlots.transGen_iff (fun i j hij => hn ▸ dag.wired.in_range i j hij) hedges
  have hsort := DirectedCore.topologicalOrder_isSome_iff dag.wired
  have hrun : LazyUnfoldedTemporalGraph.materialize ⟨g, ix⟩ =
      dag.sorted.map fun dag => ⟨dag, ix⟩ := by
    unfold LazyUnfoldedTemporalGraph.materialize
    simp only [hbase, bind, Except.bind, hdag]
    cases dag.sorted <;> rfl
  rw [hrun]
  unfold Dag.Unchecked.sorted
  by_cases hac : dag.directed.topologicalOrder.isSome = true
  · rw [dif_pos hac]
    exact Or.inl ⟨⟨_, rfl, rfl, hgrown.nodes.trans hnodes, hedges⟩, hcyc.mp (hsort.mp hac)⟩
  · rw [dif_neg hac]
    refine Or.inr ⟨⟨0, 0, rfl⟩, ?_⟩
    by_contra hno
    push Not at hno
    exact hac (hsort.mpr (hcyc.mpr hno))

theorem forM_error {α ε : Type} {e : ε} {f : α → Except ε Unit} {l : List α}
    (h : ∀ a ∈ l, f a = .ok () ∨ f a = .error e) {a : α} (ha : a ∈ l) (hf : f a = .error e) :
    l.forM f = .error e := by
  induction l with
  | nil => exact absurd ha List.not_mem_nil
  | cons b l ih =>
    show (f b >>= fun _ => l.forM f) = _
    rcases h b List.mem_cons_self with hb | hb
    · rw [hb]
      rcases List.mem_cons.mp ha with rfl | ha
      · exact absurd (hb.symm.trans hf) (by simp)
      · exact ih (fun c hc => h c (List.mem_cons_of_mem b hc)) ha
    · rw [hb]
      rfl

/-- **Unfolding is exact within `i32`**: on distinct slots it gives the translates of the template's
edges, or a cycle error iff they have a cycle. A template with a larger lag is refused. -/
theorem unfold_correct (g : TemporalDag) (ix : TemporalIndexer) :
    (g.Fits ix → Unfolding ix (fun x y => x ≠ y ∧ g.Replicates x y) (g.unfold ix)) ∧
      ((∃ (id var lag : Nat), g.nodes[id]? = some (.lagged var lag) ∧ i32Max < lag) →
        g.unfold ix = .error (.invalidEndpoints "unfold requires lagged nodes")) := by
  constructor
  · intro h
    have hlazy : g.unfoldLazy ix = .ok ⟨g, ix⟩ := by
      unfold TemporalDag.unfoldLazy
      rw [forM_ok fun id hid => ?_]
      · rfl
      · obtain ⟨var, lag, hl⟩ := g.lagged_of_lt (List.mem_range.mp hid)
        rw [(h.requireKey hl).1]
        rfl
    unfold TemporalDag.unfold
    rw [hlazy]
    exact h.materialize_ok
  · rintro ⟨id, var, lag, hid, hlag⟩
    have hmem : id ∈ List.range g.nodeCount :=
      List.mem_range.mpr (List.getElem?_eq_some_iff.mp hid).1
    have hbad : g.requireKey id = .error (.invalidEndpoints "unfold requires lagged nodes") := by
      have hcast : tryI32 (lag : Int) = none := if_neg fun hle => absurd hle.2 (by omega)
      unfold TemporalDag.requireKey
      rw [TemporalDag.temporalKey_of_lagged hid, hcast]
      rfl
    have hlazy : g.unfoldLazy ix = .error (.invalidEndpoints "unfold requires lagged nodes") := by
      unfold TemporalDag.unfoldLazy
      rw [forM_error (fun a _ => ?_) hmem (by rw [hbad]; rfl)]
      · rfl
      · unfold TemporalDag.requireKey
        cases g.temporalKey a with
        | none => exact Or.inr rfl
        | some key => exact Or.inl rfl
    unfold TemporalDag.unfold
    rw [hlazy]
    rfl

end Template

/-- `x[t-1] → y[t]` over two past slices and one present one. -/
theorem unfold_correct_chain : ∃ (g : TemporalDag) (ix : TemporalIndexer),
    (TemporalDag.empty.addNode (.lagged 0 1) >>= fun r => r.1.addNode (.lagged 1 0) >>= fun r =>
      r.1.insertDirected 0 1) = .ok g ∧ TemporalIndexer.new 2 2 1 = .ok ix ∧
    Unfolding ix (fun x y => x ≠ y ∧ g.Replicates x y) (g.unfold ix) := by
  obtain ⟨g, hg, hnodes, hchildren⟩ : ∃ g : TemporalDag,
      (TemporalDag.empty.addNode (.lagged 0 1) >>= fun r => r.1.addNode (.lagged 1 0) >>= fun r =>
        r.1.insertDirected 0 1) = .ok g ∧ g.directed.nodes = [.lagged 0 1, .lagged 1 0] ∧
      g.directed.children = [[1], []] := ⟨_, rfl, rfl, rfl⟩
  have hlag : ∀ (a var lag : Nat), g.nodes[a]? = some (.lagged var lag) →
      var < 2 ∧ (lag : Int) ≤ 1 := by
    intro a var lag h
    have hmem := List.mem_of_getElem? h
    rw [show g.nodes = _ from hnodes] at hmem
    simp only [List.mem_cons, NodeRef.lagged.injEq, List.not_mem_nil, or_false] at hmem
    omega
  refine ⟨g, ⟨2, 2, 1, 6, by decide, by decide, rfl, by decide⟩, hg, rfl, (unfold_correct g _).1
    ⟨fun a var lag h => (hlag a var lag h).1, fun a var lag h => ?_, by decide, by decide,
      fun a b va vb la lb _ ha hb => ?_⟩⟩
  · exact (hlag a var lag h).2.trans (by decide)
  · have h1 := (hlag a va la ha).2
    unfold i32Max
    simp only
    omega

/-- Two copies of `x[t-1]` joined by an edge unfold to no loop and no error, and a lag of `2^31` is
refused. -/
theorem unfold_not_literal :
    (∃ (g : TemporalDag) (ix : TemporalIndexer),
      (TemporalDag.empty.addNode (.lagged 0 1) >>= fun r => r.1.addNode (.lagged 0 1) >>= fun r =>
        r.1.insertDirected 0 1) = .ok g ∧ TemporalIndexer.new 1 1 1 = .ok ix ∧
      ¬ Unfolding ix g.Replicates (g.unfold ix)) ∧
    ∃ (g : TemporalDag) (ix : TemporalIndexer),
      (TemporalDag.empty.addNode (.lagged 0 2147483648)).map Prod.fst = .ok g ∧
        TemporalIndexer.new 1 0 1 = .ok ix ∧ ¬ Unfolding ix g.Replicates (g.unfold ix) := by
  constructor
  · obtain ⟨g, hg, hnodes, hchildren, u, hu⟩ : ∃ g : TemporalDag,
        (TemporalDag.empty.addNode (.lagged 0 1) >>= fun r => r.1.addNode (.lagged 0 1) >>= fun r =>
          r.1.insertDirected 0 1) = .ok g ∧ g.directed.nodes = [.lagged 0 1, .lagged 0 1] ∧
        g.directed.children = [[1], []] ∧
        ∃ u, g.unfold ⟨1, 1, 1, 2, by decide, by decide, rfl, by decide⟩ = .ok u :=
      ⟨_, rfl, rfl, rfl, _, rfl⟩
    refine ⟨g, _, hg, rfl, ?_⟩
    rw [hu]
    rintro (⟨-, hac⟩ | ⟨⟨a, b, h⟩, -⟩)
    · refine hac ⟨0, 0⟩ (TransGen.single ⟨⟨by decide, by decide, by decide⟩,
        ⟨by decide, by decide, by decide⟩, 0, 1, 1, 1, ?_, ?_, ?_, rfl⟩)
      · show 1 ∈ row g.directed.children 0
        rw [hchildren]
        exact List.mem_singleton.mpr rfl
      · rw [show g.nodes = _ from hnodes]
        rfl
      · rw [show g.nodes = _ from hnodes]
        rfl
    · exact absurd h (by simp)
  · obtain ⟨g, hg, hu⟩ : ∃ g : TemporalDag,
        (TemporalDag.empty.addNode (.lagged 0 2147483648)).map Prod.fst = .ok g ∧
        g.unfold ⟨1, 0, 1, 1, by decide, by decide, rfl, by decide⟩ =
          .error (.invalidEndpoints "unfold requires lagged nodes") := ⟨_, rfl, rfl⟩
    refine ⟨g, _, hg, rfl, ?_⟩
    rw [hu]
    rintro (⟨⟨u, h, -⟩, -⟩ | ⟨⟨a, b, h⟩, -⟩)
    · exact absurd h (by simp)
    · exact absurd h (by simp)

end Antecedent.Graph
