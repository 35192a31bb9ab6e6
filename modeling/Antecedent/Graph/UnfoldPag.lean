import Antecedent.Graph.MarkJoin
import Antecedent.Graph.TemporalPag
import Antecedent.Graph.UnfoldExact

/-!
# Unfolding a temporal PAG over a window

Model of `unfold_pag.rs` (lines 16-105) and of `Pag::from_unfolding` (`pag.rs:69-78`). Every
template edge is laid at each translation the window holds, with either end first, and copies that
meet are joined mark by mark.

`TemporalPag.Lands g ix` is the family of copies: the marks of the template's edges between two
slots.

* **`unfoldPag_correct`**: unfolding succeeds iff the slices of the window are `i32`s, the indexer
  has the template's variables and the family is mergeable, and then gives its joins over the slots;
  renumbering the template's nodes changes nothing.
-/

namespace Antecedent.Graph

open Core

/-! ## The source -/

/-- One step of `Pag::from_unfolding`. -/
def Pag.addSlot (ix : TemporalIndexer) (g : Pag) (dense : Nat) : Except GraphError Pag :=
  match ix.keyOf dense with
  | .error _ => .error .tooManyNodes
  | .ok key => (g.addNode (.unfolded key.var key.offset)).map Prod.fst

/-- `pag.rs:69-78`. -/
def Pag.fromUnfolding (ix : TemporalIndexer) : Except GraphError Pag :=
  (List.range ix.denseLen).foldlM (Pag.addSlot ix) Pag.empty

/-- `unfold_pag.rs:84-94`. -/
def TemporalPag.templateKey (g : TemporalPag) (node : Nat) : Except GraphError (Nat × Int) :=
  match g.nodes[node]? with
  | some (.lagged var lag) => .ok (var, -(lag : Int))
  | _ => .error (.invalidEndpoints "temporal PAG unfold requires lagged nodes")

/-- `unfold_pag.rs:95-105`. -/
def unfoldedNode (ix : TemporalIndexer) (var : Nat) (offset : Int) : Except GraphError Nat :=
  match tryI32 offset with
  | none => .error .tooManyNodes
  | some offset =>
    match ix.denseId ⟨var, offset⟩ with
    | .ok id => .ok id
    | .error _ => .error (.invalidEndpoints "temporal PAG unfold endpoint outside window")

/-- The check of the template's nodes (`unfold_pag.rs:27-34`). -/
def TemporalPag.checkNode (g : TemporalPag) (ix : TemporalIndexer) (node : Nat) :
    Except GraphError Unit := do
  let (var, _) ← g.templateKey node
  if ix.variableCount ≤ var then
    .error (.invalidEndpoints "temporal PAG variable outside unfold schema")
  else .ok ()

def layCopy (ix : TemporalIndexer) (edge : MarkedEdge) (a b : Nat × Int) (pag : Pag) (shift : Int) :
    Except GraphError Pag := do
  let i ← unfoldedNode ix a.1 (a.2 + shift)
  let j ← unfoldedNode ix b.1 (b.2 + shift)
  pag.mergeCopy ⟨i, j, edge.atA, edge.atB, edge.middle⟩

/-- The translations of one edge (`unfold_pag.rs:36-67`). -/
def TemporalPag.layEdge (g : TemporalPag) (ix : TemporalIndexer) (pag : Pag) (edge : MarkedEdge) :
    Except GraphError Pag := do
  let a ← g.templateKey edge.a
  let b ← g.templateKey edge.b
  if ix.variableCount ≤ a.1 ∨ ix.variableCount ≤ b.1 then
    .error (.invalidEndpoints "temporal PAG variable outside unfold schema")
  else (stationaryShifts ix a.2 b.2).foldlM (layCopy ix edge a b) pag

def TemporalPag.edges (g : TemporalPag) : List MarkedEdge := allMarkedEdges g.adj

/-- `unfold_pag.rs:9-14`. -/
structure UnfoldedTemporalPag where
  pag : Pag
  indexer : TemporalIndexer

/-- `unfold_pag.rs:26-70`. -/
def TemporalPag.unfold (g : TemporalPag) (ix : TemporalIndexer) :
    Except GraphError UnfoldedTemporalPag := do
  (List.range g.nodeCount).forM (g.checkNode ix)
  let pag ← Pag.fromUnfolding ix
  let pag ← g.edges.foldlM (g.layEdge ix) pag
  pure ⟨pag, ix⟩

/-! ## The copies -/

/-- The marks of template edges translated onto the slots `i` and `j`, read from `i`. -/
def TemporalPag.Lands (g : TemporalPag) (ix : TemporalIndexer) : PairCopies := fun i j v =>
  i < ix.denseLen ∧ j < ix.denseLen ∧ ∃ a b la lb, Graph.look g.adj a b = some v ∧
    g.nodes[a]? = some (.lagged (ix.keyAt i).var la) ∧
    g.nodes[b]? = some (.lagged (ix.keyAt j).var lb) ∧
    (ix.keyAt j).offset - (ix.keyAt i).offset = (la : Int) - lb

def TemporalPag.Covered (g : TemporalPag) (ix : TemporalIndexer) : Prop :=
  ∀ (a var lag : Nat), g.nodes[a]? = some (.lagged var lag) → var < ix.variableCount

/-- `g'` is `g` with its nodes in another order and its rows filled in any order. -/
def TemporalPag.Renumbered (g g' : TemporalPag) : Prop :=
  ∃ f : Equiv.Perm Nat, (∀ a, g'.nodes[f a]? = g.nodes[a]?) ∧
    ∀ a b, Graph.look g'.adj (f a) (f b) = Graph.look g.adj a b

section Laying

variable {g : TemporalPag} {ix : TemporalIndexer}

theorem unfoldedNode_ok (hfit : ix.SlicesFit) {x : TemporalNodeKey} (hx : ix.InWindow x) :
    unfoldedNode ix x.var x.offset = .ok (ix.slot x) := by
  obtain ⟨hhist, hhor⟩ := hfit
  have hle := hx.le_offset
  have hlt := hx.offset_lt
  unfold unfoldedNode
  rw [tryI32_of_le (by omega) (by omega)]
  simp only
  rw [TemporalIndexer.denseId_ok hx]

theorem layCopy_merges (hfit : ix.SlicesFit) (edge : MarkedEdge) {a b : Nat × Int}
    (ha : a.1 < ix.variableCount) (hb : b.1 < ix.variableCount) {shift : Int}
    (hs : shift ∈ stationaryShifts ix a.2 b.2) :
    Merges (slotNodes ix ix.denseLen) (layCopy ix edge a b · shift)
      (.single (ix.slot ⟨a.1, a.2 + shift⟩) (ix.slot ⟨b.1, b.2 + shift⟩)
        (edge.atA, edge.atB, edge.middle)) := by
  obtain ⟨⟨h1, h2⟩, h3, h4⟩ := mem_stationaryShifts.mp hs
  have hwa : ix.InWindow ⟨a.1, a.2 + shift⟩ := ⟨ha, h1, h2⟩
  have hwb : ix.InWindow ⟨b.1, b.2 + shift⟩ := ⟨hb, h3, h4⟩
  have hmerge := @Pag.mergeCopy_merges (slotNodes ix ix.denseLen)
    ⟨ix.slot ⟨a.1, a.2 + shift⟩, ix.slot ⟨b.1, b.2 + shift⟩, edge.atA, edge.atB, edge.middle⟩
    (by rw [length_slotNodes]; exact TemporalIndexer.slot_lt hwa)
    (by rw [length_slotNodes]; exact TemporalIndexer.slot_lt hwb)
  have hrun : (layCopy ix edge a b · shift) = fun pag => pag.mergeCopy
      ⟨ix.slot ⟨a.1, a.2 + shift⟩, ix.slot ⟨b.1, b.2 + shift⟩, edge.atA, edge.atB, edge.middle⟩ := by
    funext pag
    unfold layCopy
    rw [unfoldedNode_ok hfit hwa, unfoldedNode_ok hfit hwb]
    rfl
  rw [hrun]
  exact hmerge

theorem TemporalPag.lagged_of_lt (g : TemporalPag) {id : Nat} (h : id < g.nodes.length) :
    ∃ var lag, g.nodes[id]? = some (.lagged var lag) := exists_lagged g.lagged h

theorem TemporalPag.templateKey_of_lagged {id var lag : Nat}
    (h : g.nodes[id]? = some (.lagged var lag)) : g.templateKey id = .ok (var, -(lag : Int)) := by
  unfold templateKey
  rw [h]

def TemporalPag.EdgeLands (g : TemporalPag) (ix : TemporalIndexer) (edge : MarkedEdge) :
    PairCopies := fun i j v =>
  ∃ va la vb lb, g.nodes[edge.a]? = some (.lagged va la) ∧
    g.nodes[edge.b]? = some (.lagged vb lb) ∧
    ∃ shift ∈ stationaryShifts ix (-(la : Int)) (-(lb : Int)),
      PairCopies.single (ix.slot ⟨va, -(la : Int) + shift⟩) (ix.slot ⟨vb, -(lb : Int) + shift⟩)
        (edge.atA, edge.atB, edge.middle) i j v

theorem TemporalPag.layEdge_merges (hfit : ix.SlicesFit) (hcov : g.Covered ix) {edge : MarkedEdge}
    (ha : edge.a < g.nodes.length) (hb : edge.b < g.nodes.length) :
    Merges (slotNodes ix ix.denseLen) (g.layEdge ix · edge) (g.EdgeLands ix edge) := by
  obtain ⟨va, la, hva⟩ := g.lagged_of_lt ha
  obtain ⟨vb, lb, hvb⟩ := g.lagged_of_lt hb
  have hrun : (g.layEdge ix · edge) = fun pag => (stationaryShifts ix (-(la : Int))
      (-(lb : Int))).foldlM (layCopy ix edge (va, -(la : Int)) (vb, -(lb : Int))) pag := by
    funext pag
    unfold TemporalPag.layEdge
    rw [templateKey_of_lagged hva, templateKey_of_lagged hvb]
    exact if_neg (not_or.mpr ⟨Nat.not_le.mpr (hcov _ _ _ hva), Nat.not_le.mpr (hcov _ _ _ hvb)⟩)
  have hcopies : g.EdgeLands ix edge = fun i j v =>
      ∃ shift ∈ stationaryShifts ix (-(la : Int)) (-(lb : Int)),
        PairCopies.single (ix.slot ⟨va, -(la : Int) + shift⟩) (ix.slot ⟨vb, -(lb : Int) + shift⟩)
          (edge.atA, edge.atB, edge.middle) i j v := by
    funext i j v
    refine propext ⟨?_, fun h => ⟨va, la, vb, lb, hva, hvb, h⟩⟩
    rintro ⟨va', la', vb', lb', hva', hvb', h⟩
    cases hva.symm.trans hva'
    cases hvb.symm.trans hvb'
    exact h
  rw [hrun, hcopies]
  exact Merges.foldl _ fun shift hs =>
    layCopy_merges hfit edge (hcov _ _ _ hva) (hcov _ _ _ hvb) hs

/-- **The copies of the listed edges are the translates of the template's edges.** -/
theorem TemporalPag.edgeLands_iff (hcov : g.Covered ix) {i j : Nat} {v : Marks} :
    (∃ edge ∈ g.edges, g.EdgeLands ix edge i j v) ↔ g.Lands ix i j v := by
  constructor
  · rintro ⟨edge, hedge, va, la, vb, lb, hva, hvb, shift, hs, hsingle⟩
    obtain ⟨-, hl⟩ := (mem_allMarkedEdges g.stored).mp hedge
    obtain ⟨⟨h1, h2⟩, h3, h4⟩ := mem_stationaryShifts.mp hs
    have hwa : ix.InWindow ⟨va, -(la : Int) + shift⟩ := ⟨hcov _ _ _ hva, h1, h2⟩
    have hwb : ix.InWindow ⟨vb, -(lb : Int) + shift⟩ := ⟨hcov _ _ _ hvb, h3, h4⟩
    rcases hsingle with ⟨rfl, rfl, rfl⟩ | ⟨rfl, rfl, rfl⟩
    · refine ⟨TemporalIndexer.slot_lt hwa, TemporalIndexer.slot_lt hwb, edge.a, edge.b, la, lb, hl,
        ?_⟩
      rw [TemporalIndexer.keyAt_slot hwa, TemporalIndexer.keyAt_slot hwb]
      exact ⟨hva, hvb, by simp only; omega⟩
    · refine ⟨TemporalIndexer.slot_lt hwb, TemporalIndexer.slot_lt hwa, edge.b, edge.a, lb, la,
        g.stored.mirrored _ _ _ hl, ?_⟩
      rw [TemporalIndexer.keyAt_slot hwa, TemporalIndexer.keyAt_slot hwb]
      exact ⟨hvb, hva, by simp only; omega⟩
  · rintro ⟨hi, hj, a, b, la, lb, hl, ha, hb, hdiff⟩
    have hwi := TemporalIndexer.keyAt_inWindow hi
    have hwj := TemporalIndexer.keyAt_inWindow hj
    have h1 := hwi.le_offset
    have h2 := hwi.offset_lt
    have h3 := hwj.le_offset
    have h4 := hwj.offset_lt
    have hmem : ∀ {p q : Int} {lp lq : Nat}, -(ix.history : Int) ≤ p → p < ix.horizon →
        -(ix.history : Int) ≤ q → q < ix.horizon → q - p = (lp : Int) - lq →
        p + lp ∈ stationaryShifts ix (-(lp : Int)) (-(lq : Int)) := fun _ _ _ _ _ =>
      mem_stationaryShifts.mpr (by omega)
    have hslot : ∀ {k lag : Nat} {shift : Int}, shift = (ix.keyAt k).offset + lag →
        ix.slot ⟨(ix.keyAt k).var, -(lag : Int) + shift⟩ = k := by
      rintro k lag shift rfl
      rw [show -(lag : Int) + ((ix.keyAt k).offset + lag) = (ix.keyAt k).offset by omega]
      exact ix.slot_keyAt k
    rcases Nat.lt_or_gt_of_ne (g.stored.ne_of_look hl) with hab | hab
    · refine ⟨⟨a, b, v.1, v.2.1, v.2.2⟩, (mem_allMarkedEdges g.stored).mpr ⟨hab, hl⟩,
        _, la, _, lb, ha, hb, (ix.keyAt i).offset + la, hmem h1 h2 h3 h4 hdiff, Or.inl ?_⟩
      exact ⟨(hslot rfl).symm, (hslot (by omega)).symm, rfl⟩
    · refine ⟨⟨b, a, v.2.1, v.1, v.2.2⟩,
        (mem_allMarkedEdges g.stored).mpr ⟨hab, g.stored.mirrored _ _ _ hl⟩,
        _, lb, _, la, hb, ha, (ix.keyAt j).offset + lb,
        hmem h3 h4 h1 h2 (by omega), Or.inr ?_⟩
      exact ⟨(hslot (by omega)).symm, (hslot rfl).symm, rfl⟩

/-- **The two loops merge the family of copies.** -/
theorem TemporalPag.unfold_merges (hfit : ix.SlicesFit) (hcov : g.Covered ix) :
    Merges (slotNodes ix ix.denseLen) (fun pag => g.edges.foldlM (g.layEdge ix) pag)
      (g.Lands ix) := by
  have hloop := Merges.foldl g.edges fun edge hedge => by
    obtain ⟨-, hl⟩ := (mem_allMarkedEdges g.stored).mp hedge
    obtain ⟨ha, hb⟩ := g.stored.lt_of_look hl
    exact TemporalPag.layEdge_merges hfit hcov ha hb
  rw [show g.Lands ix = fun i j v => ∃ edge ∈ g.edges, g.EdgeLands ix edge i j v from by
    funext i j v
    exact propext (edgeLands_iff hcov).symm]
  exact hloop

end Laying

/-! ## The window -/

theorem Pag.addNode_ok (g : Pag) (var : Nat) (offset : Int) (hn : g.nodes.length ≤ u32Max) :
    ∃ g' id, g.addNode (.unfolded var offset) = .ok (g', id) ∧
      g'.nodes = g.nodes ++ [.unfolded var offset] ∧ ∀ i j, g'.look i j = g.look i j := by
  have hstatic : (NodeRef.unfolded var offset).isStaticGraphNode = true := rfl
  unfold Pag.addNode
  rw [dif_pos hstatic, dif_pos hn]
  exact ⟨_, _, rfl, rfl, fun i j => look_append_nil g.adj i j⟩

variable {ix : TemporalIndexer}

theorem Pag.fromUnfolding_ok (hfit : ix.SlicesFit) :
    ∃ pag, Pag.fromUnfolding ix = .ok pag ∧ pag.nodes = slotNodes ix ix.denseLen ∧
      ∀ i j, pag.look i j = none := by
  refine foldlM_slots Pag.nodes (fun pag => ∀ i j, pag.look i j = none) rfl
    (fun i j => look_none_of_row_nil (Nat.zero_le i)) fun pag n hn hnodes hnone => ?_
  have hcount : pag.nodes.length ≤ u32Max := by
    rw [hnodes, length_slotNodes]
    exact (Nat.le_of_lt hn).trans ix.denseLen_le
  obtain ⟨pag', id, hadd, hnodes', hlook⟩ :=
    pag.addNode_ok (ix.keyAt n).var (ix.keyAt n).offset hcount
  refine ⟨pag', ?_, hnodes', fun i j => (hlook i j).trans (hnone i j)⟩
  unfold Pag.addSlot
  rw [TemporalIndexer.keyOf_ok hfit hn]
  simp only
  rw [hadd]
  rfl

theorem foldlM_error {α β ε : Type} {f : β → α → Except ε β} {x : α}
    (h : ∀ s, ∃ e, f s x = .error e) : ∀ {l : List α}, x ∈ l → ∀ s, ∃ e, l.foldlM f s = .error e
  | [], hx, _ => absurd hx List.not_mem_nil
  | y :: l, hx, s => by
    rw [List.foldlM_cons]
    cases hy : f s y with
    | error e => exact ⟨e, rfl⟩
    | ok s' =>
      rcases List.mem_cons.mp hx with rfl | hx
      · obtain ⟨e, he⟩ := h s
        exact absurd (he.symm.trans hy) (by simp)
      · exact foldlM_error h hx s'

/-- A window with a slice outside `i32` is refused. -/
theorem Pag.fromUnfolding_error (hfit : ¬ ix.SlicesFit) :
    ∃ e, Pag.fromUnfolding ix = .error e := by
  obtain ⟨dense, hd, e, he⟩ := TemporalIndexer.keyOf_error hfit
  refine foldlM_error (fun g => ⟨.tooManyNodes, ?_⟩) (List.mem_range.mpr hd) _
  unfold Pag.addSlot
  rw [he]

theorem ok_of_forM {α ε : Type} {f : α → Except ε Unit} {l : List α} (h : l.forM f = .ok ())
    {a : α} (ha : a ∈ l) : f a = .ok () := by
  induction l with
  | nil => exact absurd ha List.not_mem_nil
  | cons b l ih =>
    change (f b >>= fun _ => l.forM f) = _ at h
    cases hb : f b with
    | error e =>
      rw [hb] at h
      exact absurd h (by simp [bind, Except.bind])
    | ok u =>
      rw [hb] at h
      rcases List.mem_cons.mp ha with rfl | ha
      · exact hb
      · exact ih h ha

/-! ## The outcome -/

section Outcome

variable {g : TemporalPag} {ix : TemporalIndexer} {g' : TemporalPag}

theorem TemporalPag.checkNode_iff {id var lag : Nat} (h : g.nodes[id]? = some (.lagged var lag)) :
    g.checkNode ix id = .ok () ↔ var < ix.variableCount := by
  have hrun : g.checkNode ix id = if ix.variableCount ≤ var then
      .error (.invalidEndpoints "temporal PAG variable outside unfold schema") else .ok () := by
    unfold TemporalPag.checkNode
    rw [templateKey_of_lagged h]
    rfl
  rw [hrun]
  split_ifs with hle
  · exact iff_of_false (by simp) (Nat.not_lt.mpr hle)
  · exact iff_of_true rfl (Nat.lt_of_not_le hle)

theorem TemporalPag.checkNodes_iff :
    (List.range g.nodeCount).forM (g.checkNode ix) = .ok () ↔ g.Covered ix := by
  constructor
  · intro h a var lag ha
    have hlt : a < g.nodeCount := (List.getElem?_eq_some_iff.mp ha).1
    exact (checkNode_iff ha).mp (ok_of_forM h (List.mem_range.mpr hlt))
  · intro h
    refine forM_ok fun id hid => ?_
    obtain ⟨var, lag, hl⟩ := g.lagged_of_lt (show id < g.nodes.length from List.mem_range.mp hid)
    exact (checkNode_iff hl).mpr (h id var lag hl)

theorem TemporalPag.unfold_error_of_not_fit (hfit : ¬ ix.SlicesFit) :
    ∃ e, g.unfold ix = .error e := by
  obtain ⟨e, he⟩ := Pag.fromUnfolding_error hfit
  unfold TemporalPag.unfold
  cases (List.range g.nodeCount).forM (g.checkNode ix) with
  | error e => exact ⟨e, rfl⟩
  | ok _ =>
    rw [he]
    exact ⟨e, rfl⟩

theorem TemporalPag.unfold_spec (g : TemporalPag) (ix : TemporalIndexer) :
    ((∃ u, g.unfold ix = .ok u ∧ u.indexer = ix ∧ u.pag.nodes = slotNodes ix ix.denseLen ∧
        (g.Lands ix).Merged u.pag.look) ∧
      ix.SlicesFit ∧ g.Covered ix ∧ (g.Lands ix).Mergeable) ∨
    ((∃ e, g.unfold ix = .error e) ∧ ¬ (ix.SlicesFit ∧ g.Covered ix ∧ (g.Lands ix).Mergeable)) := by
  by_cases hfit : ix.SlicesFit
  swap
  · exact Or.inr ⟨unfold_error_of_not_fit hfit, fun h => hfit h.1⟩
  by_cases hcov : g.Covered ix
  swap
  · refine Or.inr ⟨?_, fun h => hcov h.2.1⟩
    unfold TemporalPag.unfold
    cases hcheck : (List.range g.nodeCount).forM (g.checkNode ix) with
    | error e => exact ⟨e, rfl⟩
    | ok u => exact absurd (checkNodes_iff.mp hcheck) hcov
  obtain ⟨base, hbase, hnodes, hnone⟩ := Pag.fromUnfolding_ok hfit
  have hstart : PairCopies.Merged ⊥ base.look :=
    ⟨fun i j => iff_of_true (hnone i j) fun _ h => h,
      fun i j w hw => absurd ((hnone i j).symm.trans hw) (by simp), fun _ _ _ _ _ h => h.elim⟩
  have hrun : g.unfold ix = (g.edges.foldlM (g.layEdge ix) base).map fun pag => ⟨pag, ix⟩ := by
    unfold TemporalPag.unfold
    simp only [checkNodes_iff.mpr hcov, hbase, bind, Except.bind]
    cases g.edges.foldlM (g.layEdge ix) base <;> rfl
  rw [hrun]
  rcases (unfold_merges hfit hcov).2 ⊥ base (fun _ _ _ h => h) hnodes hstart with
    ⟨pag, hok, hn, hm⟩ | ⟨⟨e, he⟩, hbad⟩
  · rw [bot_sup_eq] at hm
    refine Or.inl ⟨⟨⟨pag, ix⟩, ?_, rfl, hn, hm⟩, hfit, hcov,
      hm.mergeable pag.mirrored pag.look_self pag.acyclic⟩
    rw [show g.edges.foldlM (g.layEdge ix) base = .ok pag from hok]
    rfl
  · rw [bot_sup_eq] at hbad
    refine Or.inr ⟨⟨e, ?_⟩, fun h => hbad h.2.2⟩
    rw [show g.edges.foldlM (g.layEdge ix) base = .error e from he]
    rfl

theorem TemporalPag.Renumbered.lands_eq (h : g.Renumbered g') :
    g'.Lands ix = g.Lands ix := by
  obtain ⟨f, hnodes, hlook⟩ := h
  funext i j v
  refine propext ⟨?_, ?_⟩
  · rintro ⟨hi, hj, a, b, la, lb, hl, ha, hb, hdiff⟩
    refine ⟨hi, hj, f.symm a, f.symm b, la, lb, ?_, ?_, ?_, hdiff⟩
    · rw [← hlook, f.apply_symm_apply, f.apply_symm_apply]
      exact hl
    · rw [← hnodes, f.apply_symm_apply]
      exact ha
    · rw [← hnodes, f.apply_symm_apply]
      exact hb
  · rintro ⟨hi, hj, a, b, la, lb, hl, ha, hb, hdiff⟩
    exact ⟨hi, hj, f a, f b, la, lb, (hlook a b).trans hl, (hnodes a).trans ha,
      (hnodes b).trans hb, hdiff⟩

theorem TemporalPag.Renumbered.covered_iff (h : g.Renumbered g') :
    g'.Covered ix ↔ g.Covered ix := by
  obtain ⟨f, hnodes, -⟩ := h
  constructor
  · exact fun hc a var lag ha => hc (f a) var lag ((hnodes a).trans ha)
  · intro hc a var lag ha
    refine hc (f.symm a) var lag ?_
    rw [← hnodes, f.apply_symm_apply]
    exact ha

end Outcome

/-- **Unfolding a temporal PAG gives the joins of its translated edges.** It succeeds iff the slices
of the window are `i32`s, the indexer has every variable of the template and the copies can be
merged, and the order of the template's nodes and rows plays no part. -/
theorem unfoldPag_correct (g : TemporalPag) (ix : TemporalIndexer) :
    ((∃ u, g.unfold ix = .ok u) ↔ ix.SlicesFit ∧ g.Covered ix ∧ (g.Lands ix).Mergeable) ∧
      (∀ u, g.unfold ix = .ok u → u.indexer = ix ∧ u.pag.nodes = slotNodes ix ix.denseLen ∧
        (g.Lands ix).Merged u.pag.look) ∧
      ∀ g', g.Renumbered g' →
        ((∃ u, g.unfold ix = .ok u) ↔ ∃ u, g'.unfold ix = .ok u) ∧
          ∀ u u', g.unfold ix = .ok u → g'.unfold ix = .ok u' →
            u.pag.nodes = u'.pag.nodes ∧ u.pag.look = u'.pag.look := by
  have hiff : ∀ g : TemporalPag, (∃ u, g.unfold ix = .ok u) ↔
      ix.SlicesFit ∧ g.Covered ix ∧ (g.Lands ix).Mergeable := by
    intro g
    rcases g.unfold_spec ix with ⟨⟨u, hu, -⟩, hcond⟩ | ⟨⟨e, he⟩, hcond⟩
    · exact iff_of_true ⟨u, hu⟩ hcond
    · exact iff_of_false (fun ⟨u, hu⟩ => by rw [he] at hu; cases hu) hcond
  have hout : ∀ (g : TemporalPag) u, g.unfold ix = .ok u → u.indexer = ix ∧
      u.pag.nodes = slotNodes ix ix.denseLen ∧ (g.Lands ix).Merged u.pag.look := by
    intro g u hu
    rcases g.unfold_spec ix with ⟨⟨u', hu', hspec⟩, -⟩ | ⟨⟨e, he⟩, -⟩
    · obtain rfl := Except.ok.inj (hu.symm.trans hu')
      exact hspec
    · rw [he] at hu
      cases hu
  refine ⟨hiff g, hout g, fun g' hg => ⟨?_, fun u u' hu hu' => ?_⟩⟩
  · rw [hiff g, hiff g', hg.lands_eq, hg.covered_iff]
  · obtain ⟨-, hn, hm⟩ := hout g u hu
    obtain ⟨-, hn', hm'⟩ := hout g' u' hu'
    rw [hg.lands_eq] at hm'
    exact ⟨hn.trans hn'.symm, hm.unique u.pag.mirrored u'.pag.mirrored hm'⟩

/-- Over `2^31 + 1` past slices the empty template is refused, though it has nothing to merge. -/
theorem unfoldPag_window : ∃ ix, TemporalIndexer.new 1 2147483649 1 = .ok ix ∧
    ¬ ((∃ u, TemporalPag.empty.unfold ix = .ok u) ↔
      TemporalPag.empty.Covered ix ∧ (TemporalPag.empty.Lands ix).Mergeable) := by
  refine ⟨⟨1, 2147483649, 1, 2147483650, by decide, by decide, rfl, by decide⟩, rfl, fun h => ?_⟩
  have hlands : ∀ {ix : TemporalIndexer} {i j v}, ¬ TemporalPag.empty.Lands ix i j v := by
    rintro ix i j v ⟨-, -, a, b, la, lb, hl, -⟩
    exact absurd hl (by simp [TemporalPag.empty, Graph.look, row])
  obtain ⟨u, hu⟩ := h.mpr ⟨fun a var lag ha => absurd ha (by simp [TemporalPag.empty]),
    ⟨fun _ _ => hlands, fun _ _ _ hv => (hlands hv).elim, fun _ _ _ _ hv => (hlands hv).elim,
      fun i hi => by
        obtain ⟨j, ⟨⟨v, hv⟩, -⟩, -⟩ := Relation.TransGen.head'_iff.mp hi
        exact hlands hv⟩⟩
  obtain ⟨e, he⟩ := @TemporalPag.unfold_error_of_not_fit TemporalPag.empty
    ⟨1, 2147483649, 1, 2147483650, by decide, by decide, rfl, by decide⟩
    fun hfit => absurd hfit.1 (by decide)
  rw [he] at hu
  cases hu

end Antecedent.Graph
