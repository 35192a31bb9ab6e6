import Antecedent.Machine.Folds
import Antecedent.Graph.Overlay
import Antecedent.Identify.Prepared
import Antecedent.Mixed.Ancestral

/-!
# The adjustment instance

Model of `AdjustmentSearchConfig` and `AdjustmentProblem` (`backdoor.rs:35-217`), of the ancestral
screen and of the separation test (`backdoor.rs:645-700`). Costs are `f64`s in the source: here a
type with the operations the search uses.

`Admissible` is what an adjustment set is: allowed nodes that separate `T` from `Y` in the graph
without the edges out of `T`.

* `AdjustmentProblem.new_of`: what a problem holds.
* **`constructive_iff`**: the ancestral set is admissible iff some set is.
-/

namespace Antecedent.Identify

open Graph
open Mixed

/-- The `f64` operations of the cost order. -/
class CostOps (C : Type) where
  zero : C
  one : C
  add : C → C → C
  lt : C → C → Bool

/-- Lines 37-70. -/
structure AdjustmentSearchConfig (C : Type) where
  maxResults : Nat
  maxExaminations : Nat
  maxCandidates : Nat
  forbidden : List Nat
  minimalOnly : Bool
  maximalOnly : Bool
  measurementCosts : List (Nat × C)
  maxHistoryLag : Option Nat
  historyLags : List (Nat × Nat)

/-- `prepared.rs:238-246`. -/
def denseOfStatic (nodes : List NodeRef) (id : Nat) : Except IdentificationError Nat :=
  match (List.range nodes.length).find? fun i => nodeVariableId nodes i = some id with
  | some i => .ok i
  | none => .error (.unknownVariable id)

/-- Lines 698-700. -/
def varToDense (id : Nat) (dag : Graph.Dag) : Except IdentificationError Nat :=
  denseOfStatic dag.nodes id

/-- Lines 684-689. -/
def removeOutgoingSet (dag : Graph.Dag) (nodes : List Nat) :
    Except IdentificationError Graph.Dag :=
  (dag.copyFiltered fun src _ => src ∉ nodes).mapError .graph

/-- Lines 679-681. -/
def removeOutgoing (dag : Graph.Dag) (t : Nat) : Except IdentificationError Graph.Dag :=
  removeOutgoingSet dag [t]

variable {C : Type}

/-- `dense_lags` (`backdoor.rs:182-195`): the first listed lag of a node. -/
def denseLag (dag : Graph.Dag) (config : AdjustmentSearchConfig C) (id : Nat) : Option Nat :=
  (config.historyLags.find? fun p => varToDense p.1 dag = .ok id).map Prod.snd

/-- `dense_costs` (`backdoor.rs:197-210`): the first listed cost of a node, `1.0` without one. -/
def denseCost [CostOps C] (dag : Graph.Dag) (config : AdjustmentSearchConfig C) (id : Nat) : C :=
  ((config.measurementCosts.find? fun p => varToDense p.1 dag = .ok id).map Prod.snd).getD
    CostOps.one

/-- Lines 105-122. -/
structure AdjustmentProblem (C : Type) where
  t : Nat
  y : Nat
  forbidden : Finset Nat
  candidates : List Nat
  mutilated : Graph.Dag
  costs : Nat → C
  lags : Nat → Option Nat
  maxHistoryLag : Option Nat

namespace AdjustmentProblem

/-- Lines 130-169. -/
def new [CostOps C] (dag : Graph.Dag) (treatment outcome : Nat) (config : AdjustmentSearchConfig C) :
    Except IdentificationError (AdjustmentProblem C) := do
  let t ← varToDense treatment dag
  let y ← varToDense outcome dag
  let listed ← config.forbidden.mapM (varToDense · dag)
  let forbidden := listed.toFinset ∪ {t, y} ∪ dag.descendantsOfWith [t] none
  let mutilated ← removeOutgoing dag t
  pure {
    t, y, forbidden, mutilated
    candidates := (List.range dag.nodeCount).filter (· ∉ forbidden)
    costs := denseCost dag config
    lags := denseLag dag config
    maxHistoryLag := config.maxHistoryLag }

variable (p : AdjustmentProblem C)

/-- Lines 172-174. -/
def exceedsLag (id : Nat) : Bool :=
  match p.maxHistoryLag with
  | none => false
  | some maxLag => (p.lags id).any (maxLag < ·)

/-- Lines 177-179. -/
def totalCost [CostOps C] (z : List Nat) : C := z.foldl (fun acc d => CostOps.add acc (p.costs d)) CostOps.zero

/-- The nodes the search may use. -/
def allowed : List Nat := p.candidates.filter fun id => !p.exceedsLag id

end AdjustmentProblem

/-- `screen_ancestor_candidates`, respecting the history lag (`backdoor.rs:649-667`). -/
def screenAncestorCandidates (dag : Graph.Dag) (p : AdjustmentProblem C) : List Nat :=
  (List.range dag.nodeCount).filter fun id =>
    id ∈ dag.ancestorsOfWith [p.t, p.y] none ∧ id ∉ p.forbidden ∧ ¬ p.exceedsLag id = true

/-- Lines 669-677. -/
def isBackdoorAdjustment (mutilated : Graph.Dag) (t y : Nat) (z : List Nat) :
    Except IdentificationError Bool :=
  (mutilated.isDSeparated t y z).mapError .graph

/-! ## Cutting edges and separating -/

variable {g : Graph.Dag} {t v : Nat} {dag : Graph.Dag}

/-- **Cutting the edges out of some nodes**: refused only for a graph that holds as many nodes as
there are ids. -/
theorem removeOutgoingSet_ok {nodes : List Nat}
    (h : removeOutgoingSet dag nodes = .ok g) : dag.nodeCount ≤ u32Max ∧
      g.nodeCount = dag.nodeCount ∧ g.mixed = dag.mixed.mutilate ∅ {v | v ∈ nodes} := by
  unfold removeOutgoingSet at h
  have hfit : dag.nodeCount ≤ u32Max := by
    by_contra hbig
    unfold Graph.Dag.copyFiltered at h
    rw [if_pos (Nat.lt_of_not_le hbig)] at h
    cases h
  obtain ⟨m, hok, hcount, hdir⟩ := dag.copyFiltered_ok (fun src _ => src ∉ nodes) hfit
  rw [hok] at h
  obtain rfl := Except.ok.inj h
  refine ⟨hfit, hcount, MixedGraph.ext (funext₂ fun a b => propext ?_)
    (funext₂ fun a b => propext ⟨False.elim, fun hb => hb.1⟩)⟩
  exact (hdir a b).trans (and_congr_right fun _ => by simp)

theorem removeOutgoing_ok (h : removeOutgoing dag t = .ok g) :
    dag.nodeCount ≤ u32Max ∧ g.nodeCount = dag.nodeCount ∧
      g.mixed = dag.mixed.mutilate ∅ {t} := by
  obtain ⟨hfit, hcount, hmixed⟩ := removeOutgoingSet_ok h
  refine ⟨hfit, hcount, hmixed.trans (congrArg _ (Set.ext fun v => ?_))⟩
  exact List.mem_singleton

/-- **The query of a DAG is m-separation.** -/
theorem isDSeparated_mSeparated {x y : Nat} {z : List Nat}
    (hq : Query g.nodeCount x y z) : ∃ b, g.isDSeparated x y z = .ok b ∧
      (b = true ↔ g.mixed.MSeparated {x} {y} {v | v ∈ z}) := by
  have hball := MixedGraph.mSeparated_iff_ball (G := g.mixed) (X := {x}) (Y := {y})
    (C := {v | v ∈ z}) (fun a ha => by rw [Set.mem_singleton_iff.mp ha]; exact hq.x_notMem)
    (fun a ha => by rw [Set.mem_singleton_iff.mp ha]; exact hq.y_notMem)
  have hsep := Graph.Dag.isDSeparatedWith_iff hq none
  rw [Graph.Dag.visible_none] at hsep
  have heq := Graph.Dag.isDSeparatedWith_eq hq none
  refine ⟨_, heq, ?_⟩
  rw [heq, Except.ok.injEq] at hsep
  rw [hsep, hball]
  constructor
  · rintro hno b rfl i hb
    exact hno ⟨i, hb⟩
  · rintro hno ⟨i, hb⟩
    exact hno y rfl i hb

/-! ## What a problem holds -/

/-- The nodes an adjustment set may use: not forbidden, neither end, not below `T`, and within the
history lag. -/
structure Allowed (dag : Graph.Dag) (config : AdjustmentSearchConfig C) (t y v : Nat) : Prop where
  in_graph : v < dag.nodeCount
  not_forbidden : ∀ id ∈ config.forbidden, varToDense id dag ≠ .ok v
  ne_treatment : v ≠ t
  ne_outcome : v ≠ y
  not_descendant : ¬ dag.mixed.Anc t v
  within_lag : ∀ maxLag lag, config.maxHistoryLag = some maxLag → denseLag dag config v = some lag →
    lag ≤ maxLag

/-- An adjustment set: allowed nodes that separate `T` from `Y` without the edges out of `T`. -/
structure Admissible (dag : Graph.Dag) (config : AdjustmentSearchConfig C) (t y : Nat)
    (z : Set Nat) : Prop where
  allowed : ∀ v ∈ z, Allowed dag config t y v
  separates : (dag.mixed.mutilate ∅ {t}).MSeparated {t} {y} z

/-- `p` is the problem of `dag` under `config`. -/
structure AdjustmentProblem.Of (p : AdjustmentProblem C) (dag : Graph.Dag)
    (config : AdjustmentSearchConfig C) : Prop where
  t_lt : p.t < dag.nodeCount
  y_lt : p.y < dag.nodeCount
  forbidden : ∀ v, v ∈ p.forbidden ↔ v = p.t ∨ v = p.y ∨ dag.mixed.Anc p.t v ∨
    ∃ id ∈ config.forbidden, varToDense id dag = .ok v
  candidates : p.candidates = (List.range dag.nodeCount).filter (· ∉ p.forbidden)
  lags : p.lags = denseLag dag config
  maxHistoryLag : p.maxHistoryLag = config.maxHistoryLag
  count : p.mutilated.nodeCount = dag.nodeCount
  cut : p.mutilated.mixed = dag.mixed.mutilate ∅ {p.t}

theorem denseOfStatic_lt {nodes : List NodeRef} {id i : Nat} (h : denseOfStatic nodes id = .ok i) :
    i < nodes.length := by
  unfold denseOfStatic at h
  split at h
  · rename_i j hj
    obtain rfl := Except.ok.inj h
    exact List.mem_range.mp (List.mem_of_find?_eq_some hj)
  · cases h

/-- **What the descendants of a list are.** -/
theorem mem_descendantsOfAll {ts : List Nat} (hts : ∀ t ∈ ts, t < dag.nodeCount)
    : v ∈ dag.descendantsOfWith ts none ↔ ∃ t ∈ ts, dag.mixed.Anc t v := by
  have hrange : ∀ u w, w ∈ dag.children u → w < dag.nodeCount := fun u w hw =>
    (dag.valid.in_range u w hw).2
  unfold Graph.Dag.descendantsOfWith
  rw [mem_closureInto hrange]
  have hrel : (fun a b => b ∈ dag.children a ∧ directedOk none a b = true) = dag.mixed.dir := by
    funext a b
    exact propext (and_iff_left rfl)
  rw [hrel]
  exact exists_congr fun t => and_congr_right fun ht => and_iff_right (hts t ht)

theorem mem_descendantsOfWith (ht : t < dag.nodeCount) :
    v ∈ dag.descendantsOfWith [t] none ↔ dag.mixed.Anc t v := by
  rw [mem_descendantsOfAll fun s hs => List.mem_singleton.mp hs ▸ ht]
  simp only [List.mem_singleton, exists_eq_left]

theorem mem_mapM {α β ε : Type} {f : α → Except ε β} : ∀ {xs : List α} {ys : List β},
    xs.mapM f = .ok ys → ∀ y, y ∈ ys ↔ ∃ x ∈ xs, f x = .ok y
  | [], ys, h, y => by
    obtain rfl : [] = ys := by simpa [pure, Except.pure] using h
    simp
  | x :: xs, ys, h, y => by
    rw [List.mapM_cons] at h
    obtain ⟨b, hx, h⟩ := bind_ok h
    obtain ⟨bs, hxs, h⟩ := bind_ok h
    obtain rfl : b :: bs = ys := by simpa [hx, hxs, bind, Except.bind, pure, Except.pure] using h
    rw [List.mem_cons, mem_mapM hxs y, List.exists_mem_cons_iff, hx, Except.ok.injEq, eq_comm]

theorem AdjustmentProblem.new_of [CostOps C] {treatment outcome : Nat}
    {config : AdjustmentSearchConfig C} {p : AdjustmentProblem C}
    (h : AdjustmentProblem.new dag treatment outcome config = .ok p) : p.Of dag config := by
  unfold AdjustmentProblem.new at h
  simp only [bind, Except.bind] at h
  obtain ⟨t, ht, h⟩ := bind_ok h
  obtain ⟨y, hy, h⟩ := bind_ok h
  obtain ⟨listed, hf, h⟩ := bind_ok h
  obtain ⟨mutilated, hm, h⟩ := bind_ok h
  simp only [pure, Except.pure] at h
  obtain rfl := Except.ok.inj h
  have htlt : t < dag.nodeCount := denseOfStatic_lt ht
  obtain ⟨-, hcount, hcut⟩ := removeOutgoing_ok hm
  refine ⟨htlt, denseOfStatic_lt hy, fun v => ?_, rfl, rfl, rfl, hcount, hcut⟩
  show v ∈ listed.toFinset ∪ {t, y} ∪ _ ↔ v = t ∨ v = y ∨ dag.mixed.Anc t v ∨ _
  rw [Finset.mem_union, Finset.mem_union, mem_descendantsOfWith htlt, List.mem_toFinset,
    mem_mapM hf, Finset.mem_insert, Finset.mem_singleton]
  simp only [or_assoc]
  constructor
  · rintro (hv | hv | hv | hv)
    exacts [.inr (.inr (.inr hv)), .inl hv, .inr (.inl hv), .inr (.inr (.inl hv))]
  · rintro (hv | hv | hv | hv)
    exacts [.inr (.inl hv), .inr (.inr (.inl hv)), .inr (.inr (.inr hv)), .inl hv]

/-! ## Admissible sets -/

section Admissible

variable {dag : Graph.Dag} {config : AdjustmentSearchConfig C} {p : AdjustmentProblem C}

variable {v : Nat} {z : List Nat}

variable (h : p.Of dag config)

include h

theorem AdjustmentProblem.Of.mem_allowed :
    v ∈ p.allowed ↔ v < dag.nodeCount ∧ v ∉ p.forbidden ∧ p.exceedsLag v = false := by
  unfold AdjustmentProblem.allowed
  rw [h.candidates, List.mem_filter, List.mem_filter, List.mem_range]
  simp [and_assoc]

theorem AdjustmentProblem.Of.exceedsLag_iff :
    p.exceedsLag v = false ↔ ∀ maxLag lag, config.maxHistoryLag = some maxLag →
      denseLag dag config v = some lag → lag ≤ maxLag := by
  unfold AdjustmentProblem.exceedsLag
  rw [h.lags, h.maxHistoryLag]
  cases config.maxHistoryLag with
  | none => simp
  | some maxLag => cases denseLag dag config v <;> simp

/-- **What the search may use.** -/
theorem AdjustmentProblem.Of.allowed_iff : v ∈ p.allowed ↔ Allowed dag config p.t p.y v := by
  rw [h.mem_allowed, h.forbidden, h.exceedsLag_iff]
  constructor
  · rintro ⟨hlt, hno, hlag⟩
    exact ⟨hlt, fun id hid hv => hno (.inr (.inr (.inr ⟨id, hid, hv⟩))), fun e => hno (.inl e),
      fun e => hno (.inr (.inl e)), fun hanc => hno (.inr (.inr (.inl hanc))), hlag⟩
  · rintro ⟨hlt, hforb, hnt, hny, hdesc, hlag⟩
    refine ⟨hlt, ?_, hlag⟩
    rintro (rfl | rfl | hanc | ⟨id, hid, hv⟩)
    exacts [hnt rfl, hny rfl, hdesc hanc, hforb id hid hv]

/-- **The test decides separation**, for every list of allowed nodes. -/
theorem AdjustmentProblem.Of.isBackdoorAdjustment_iff
    (hz : ∀ v ∈ z, v < dag.nodeCount ∧ v ∉ p.forbidden) :
    ∃ b, isBackdoorAdjustment p.mutilated p.t p.y z = .ok b ∧
      (b = true ↔ p.mutilated.mixed.MSeparated {p.t} {p.y} {v | v ∈ z}) := by
  have htz : p.t ∉ z := fun hmem => (hz _ hmem).2 ((h.forbidden _).mpr (.inl rfl))
  have hyz : p.y ∉ z := fun hmem => (hz _ hmem).2 ((h.forbidden _).mpr (.inr (.inl rfl)))
  have ht : p.t < p.mutilated.nodeCount := h.count ▸ h.t_lt
  have hy : p.y < p.mutilated.nodeCount := h.count ▸ h.y_lt
  have hlt : ∀ v ∈ z, v < p.mutilated.nodeCount := fun v hv => h.count ▸ (hz v hv).1
  by_cases hne : p.t = p.y
  · refine ⟨false, ?_, iff_of_false (by simp) fun hs => ?_⟩
    · unfold isBackdoorAdjustment Graph.Dag.isDSeparated Graph.Dag.isDSeparatedWith
      rw [Graph.Dag.validateNode_ok ht, Graph.Dag.validateNode_ok hy,
        forM_ok fun v hv => Graph.Dag.validateNode_ok (hlt v hv)]
      simp only [bind, Except.bind, if_pos hne]
      rfl
    · exact hs p.t rfl p.y rfl (hne ▸ .refl)
  · obtain ⟨b, hb, hiff⟩ := isDSeparated_mSeparated
      (⟨ht, hy, hlt, hne, htz, hyz⟩ : Query p.mutilated.nodeCount p.t p.y z)
    exact ⟨b, by unfold isBackdoorAdjustment; rw [hb]; rfl, hiff⟩

theorem AdjustmentProblem.Of.mem_screen : v ∈ screenAncestorCandidates dag p ↔
      v ∈ p.mutilated.mixed.AncSet {p.t, p.y} ∧ v ∈ p.allowed := by
  have hcut : ∀ a b, p.mutilated.mixed.dir a b ↔ dag.mixed.dir a b ∧ a ≠ p.t := fun a b => by
    rw [h.cut]
    simp [MixedGraph.mutilate]
  have hanc : v ∈ dag.ancestorsOfWith [p.t, p.y] none ↔
      v ∈ p.mutilated.mixed.AncSet {p.t, p.y} := by
    rw [Graph.Dag.mem_ancestorsOfWith (by simp [h.t_lt, h.y_lt]), Graph.Dag.visible_none,
      MixedGraph.ancSet_cut hcut]
    have hset : {v | v ∈ [p.t, p.y]} = ({p.t, p.y} : Set Nat) := by
      ext v
      simp
    rw [hset]
  rw [h.mem_allowed]
  unfold screenAncestorCandidates
  rw [List.mem_filter, List.mem_range, decide_eq_true_eq, hanc]
  simp only [Bool.not_eq_true]
  tauto

theorem AdjustmentProblem.Of.admissible_iff (hz : ∀ v ∈ z, v ∈ p.allowed) :
    ∃ b, isBackdoorAdjustment p.mutilated p.t p.y z = .ok b ∧
      (b = true ↔ Admissible dag config p.t p.y {v | v ∈ z}) := by
  have hz' := fun v hv => h.mem_allowed.mp (hz v hv)
  obtain ⟨b, hb, hiff⟩ := h.isBackdoorAdjustment_iff fun v hv => ⟨(hz' v hv).1, (hz' v hv).2.1⟩
  refine ⟨b, hb, hiff.trans ?_⟩
  rw [h.cut]
  exact ⟨fun hs => ⟨fun v hv => h.allowed_iff.mp (hz v hv), hs⟩, Admissible.separates⟩

/-- **The ancestral set is admissible when some set is.** -/
theorem AdjustmentProblem.Of.constructive_iff :
    Admissible dag config p.t p.y {v | v ∈ screenAncestorCandidates dag p} ↔
      ∃ z, Admissible dag config p.t p.y z := by
  refine ⟨fun hs => ⟨_, hs⟩, fun ⟨z, hz⟩ => ?_⟩
  have hsub : z ⊆ {v | v ∈ p.allowed} := fun v hv => h.allowed_iff.mpr (hz.allowed v hv)
  have hset : {v | v ∈ screenAncestorCandidates dag p} =
      p.mutilated.mixed.AncSet {p.t, p.y} ∩ {v | v ∈ p.allowed} := by
    ext v
    exact h.mem_screen
  refine ⟨fun v hv => h.allowed_iff.mp (h.mem_screen.mp hv).2, ?_⟩
  rw [hset, ← h.cut]
  exact MixedGraph.mSeparated_ancestral hsub (h.cut ▸ hz.separates)

end Admissible

end Antecedent.Identify
