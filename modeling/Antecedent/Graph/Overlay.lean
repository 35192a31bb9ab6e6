import Antecedent.Graph.Witness

/-!
# Surgery: an overlay, or a copy without the hidden edges

Model of `DagView` (`overlay.rs:61-171`), of the closures under an overlay and of `Dag::mutilate`
(`ancestry.rs:14-66`). `materialize` copies the visible edges into a fresh graph over the variables
`0, 1, …`, so the labels of the nodes are not carried over.

* `materialize_spec`: the copy has the visible edges and every query on it is the query on the view.
* **`materialize_exact_iff`**: it has the node table as well exactly when node `i` is the variable
  `i` for every `i`.
-/

namespace Antecedent.Graph

open Mixed Relation
open Worklist

/-! ## The code -/

/-- `overlay.rs:34-42`. -/
def GraphOverlay.doIntervention (n : Nat) (intervened : List Nat) : GraphOverlay :=
  ⟨(intervened.filter (· < n)).toFinset, ∅⟩

namespace Dag

/-- `DagView::parents_into` (`overlay.rs:86-96`); a node outside the graph has none. -/
def parentsInto (g : Dag) (overlay : GraphOverlay) (id : Nat) : List Nat :=
  (g.parents id).filter fun p => overlay.edgeVisible p id

/-- `overlay.rs:99-109`. -/
def childrenInto (g : Dag) (overlay : GraphOverlay) (id : Nat) : List Nat :=
  (g.children id).filter fun c => overlay.edgeVisible id c

/-- `ancestry.rs:45-60`. -/
def descendantsOfWith (g : Dag) (nodes : List Nat) (overlay : Option GraphOverlay) : Finset Nat :=
  closureInto g.nodeCount g.children nodes fun u c => directedOk overlay u c

/-- The edges a predicate keeps, in the order a copy meets them. -/
def keptEdges (g : Dag) (keep : Nat → Nat → Bool) : List (Nat × Nat) :=
  (List.range g.nodeCount).flatMap fun src =>
    ((g.children src).filter (keep src)).map fun dst => (src, dst)

/-- The tables a filtered copy builds: unchecked insertions into the graph over `n` variables. -/
def copiedCore (g : Dag) (keep : Nat → Nat → Bool) : DirectedCore :=
  (g.keptEdges keep).foldl (fun c e => c.pushUnchecked e.1 e.2) (withVariables g.nodeCount).directed

/-- The visible edges, in the order `materialize` meets them. -/
def visibleEdges (g : Dag) (overlay : GraphOverlay) : List (Nat × Nat) :=
  (List.range g.nodeCount).flatMap fun src => (g.childrenInto overlay src).map fun dst => (src, dst)

/-- The tables `materialize` builds: the unchecked insertions into the graph over `n` variables. -/
def materializedCore (g : Dag) (overlay : GraphOverlay) : DirectedCore :=
  (g.visibleEdges overlay).foldl (fun c e => c.pushUnchecked e.1 e.2)
    (withVariables g.nodeCount).directed

section Core

variable (g : Dag) (overlay : GraphOverlay) {u v : Nat}

theorem mem_childrenInto : v ∈ g.childrenInto overlay u ↔
    g.directed.Dir u v ∧ overlay.edgeVisible u v = true := List.mem_filter

theorem mem_parentsInto : u ∈ g.parentsInto overlay v ↔
    g.directed.Dir u v ∧ overlay.edgeVisible u v = true :=
  List.mem_filter.trans (and_congr_left fun _ => g.valid.mirrored u v)

theorem mem_keptEdges (keep : Nat → Nat → Bool) :
    (u, v) ∈ g.keptEdges keep ↔ g.directed.Dir u v ∧ keep u v = true := by
  unfold keptEdges
  simp only [List.mem_flatMap, List.mem_map, List.mem_range, Prod.mk.injEq]
  constructor
  · rintro ⟨a, -, b, hb, rfl, rfl⟩
    exact List.mem_filter.mp hb
  · intro h
    exact ⟨u, (g.valid.in_range u v h.1).1, v, List.mem_filter.mpr h, rfl, rfl⟩

theorem nodup_keptEdges (keep : Nat → Nat → Bool) : (g.keptEdges keep).Nodup := by
  refine List.nodup_flatMap.mpr ⟨fun u _ => ?_, ?_⟩
  · exact ((g.valid.children_nodup u).filter _).map fun a b h => (Prod.mk.inj h).2
  · refine List.nodup_range.imp fun {a b} hab p hpa hpb => hab ?_
    obtain ⟨_, -, rfl⟩ := List.mem_map.mp hpa
    obtain ⟨_, -, he⟩ := List.mem_map.mp hpb
    exact (Prod.mk.inj he).1.symm

theorem foldl_pushUnchecked : ∀ {l : List (Nat × Nat)} {c : DirectedCore}, c.Valid →
    c.nodeCount = g.nodeCount → (∀ a b, c.Dir a b → g.directed.Dir a b) → l.Nodup →
    (∀ e ∈ l, g.directed.Dir e.1 e.2 ∧ ¬ c.Dir e.1 e.2) →
    (l.foldl (fun c e => c.pushUnchecked e.1 e.2) c).Valid ∧
      (l.foldl (fun c e => c.pushUnchecked e.1 e.2) c).nodes = c.nodes ∧
      ∀ a b, (l.foldl (fun c e => c.pushUnchecked e.1 e.2) c).Dir a b ↔ c.Dir a b ∨ (a, b) ∈ l
  | [], c, hc, _, _, _, _ => ⟨hc, rfl, fun _ _ => by simp⟩
  | e :: l, c, hc, hn, hsub, hnd, hl => by
    obtain ⟨hdir, hnew⟩ := hl e List.mem_cons_self
    obtain ⟨hel, hnd⟩ := List.nodup_cons.mp hnd
    obtain ⟨hu, hv⟩ := g.valid.in_range _ _ hdir
    change e.1 < g.nodeCount at hu
    change e.2 < g.nodeCount at hv
    rw [← hn] at hu hv
    have hpush := DirectedCore.dir_pushUnchecked hc (v := e.2) hu
    have hcyc : ¬ ReflTransGen c.Dir e.2 e.1 := fun hr =>
      g.valid.acyclic e.1 ((TransGen.single hdir).trans_left
        (ReflTransGen.mono hsub _ _ hr))
    have hsub' : ∀ a b, (c.pushUnchecked e.1 e.2).Dir a b → g.directed.Dir a b := by
      intro a b hab
      rcases (hpush a b).mp hab with hab | ⟨rfl, rfl⟩
      · exact hsub a b hab
      · exact hdir
    have hl' : ∀ f ∈ l, g.directed.Dir f.1 f.2 ∧ ¬ (c.pushUnchecked e.1 e.2).Dir f.1 f.2 := by
      intro f hf
      refine ⟨(hl f (List.mem_cons_of_mem e hf)).1, fun hab => ?_⟩
      rcases (hpush f.1 f.2).mp hab with hab | ⟨h1, h2⟩
      · exact (hl f (List.mem_cons_of_mem e hf)).2 hab
      · exact hel (Prod.ext h1 h2 ▸ hf)
    obtain ⟨h1, h2, h3⟩ := foldl_pushUnchecked (l := l)
      (DirectedCore.pushUnchecked_valid hc hu hv hnew hcyc) hn hsub' hnd hl'
    refine ⟨h1, h2, fun a b => ?_⟩
    rw [List.foldl_cons, h3, hpush, List.mem_cons, or_assoc]
    exact or_congr Iff.rfl (or_congr Prod.mk_inj.symm Iff.rfl)

theorem copiedCore_spec (keep : Nat → Nat → Bool) : (g.copiedCore keep).Valid ∧
    (g.copiedCore keep).nodes = (List.range g.nodeCount).map .static ∧
    ∀ u v, (g.copiedCore keep).Dir u v ↔ g.directed.Dir u v ∧ keep u v = true := by
  obtain ⟨hnodes, hnone⟩ := withVariables_spec (n := g.nodeCount) g.valid.node_ids
  have hcount : (withVariables g.nodeCount).directed.nodeCount = g.nodeCount := by
    show (withVariables g.nodeCount).nodes.length = _
    rw [hnodes, List.length_map, List.length_range]
  obtain ⟨h1, h2, h3⟩ := g.foldl_pushUnchecked (l := g.keptEdges keep)
    (withVariables g.nodeCount).valid hcount (fun a b hab => absurd hab (hnone a b))
    (g.nodup_keptEdges keep)
    (fun e he => ⟨((g.mem_keptEdges keep).mp he).1, hnone e.1 e.2⟩)
  refine ⟨h1, h2.trans hnodes, fun u v => ?_⟩
  rw [copiedCore, h3, mem_keptEdges]
  exact or_iff_right (hnone u v)

theorem materializedCore_spec : (g.materializedCore overlay).Valid ∧
    (g.materializedCore overlay).nodes = (List.range g.nodeCount).map .static ∧
    ∀ u v, (g.materializedCore overlay).Dir u v ↔
      g.directed.Dir u v ∧ overlay.edgeVisible u v = true :=
  g.copiedCore_spec fun u v => overlay.edgeVisible u v

/-- `dag.rs:69-85`. -/
def copyFiltered (keep : Nat → Nat → Bool) : Except GraphError Dag :=
  if u32Max < g.nodeCount then .error .tooManyNodes
  else .ok ⟨g.copiedCore keep, (g.copiedCore_spec keep).1, fun node h => by
    rw [(g.copiedCore_spec keep).2.1] at h
    obtain ⟨_, -, rfl⟩ := List.mem_map.mp h
    rfl⟩

theorem copyFiltered_ok (keep : Nat → Nat → Bool) (hn : g.nodeCount ≤ u32Max) :
    ∃ m, g.copyFiltered keep = .ok m ∧ m.nodeCount = g.nodeCount ∧
      ∀ u v, m.directed.Dir u v ↔ g.directed.Dir u v ∧ keep u v = true := by
  obtain ⟨-, hnodes, hdir⟩ := g.copiedCore_spec keep
  unfold copyFiltered
  rw [if_neg (Nat.not_lt_of_le hn)]
  refine ⟨_, rfl, ?_, hdir⟩
  show (g.copiedCore keep).nodes.length = _
  rw [hnodes, List.length_map, List.length_range]

end Core

/-- `overlay.rs:155-170`. -/
def materialize (g : Dag) (overlay : GraphOverlay) : Except GraphError Dag :=
  if u32Max < g.nodeCount then .error .tooManyNodes
  else .ok ⟨g.materializedCore overlay, (g.materializedCore_spec overlay).1, fun node h => by
    rw [(g.materializedCore_spec overlay).2.1] at h
    obtain ⟨_, -, rfl⟩ := List.mem_map.mp h
    rfl⟩

/-- `ancestry.rs:62-74`. -/
def mutilate (g : Dag) (intervened : List Nat) : Except GraphError Dag := do
  intervened.forM g.validateNode
  g.materialize (.doIntervention g.nodeCount intervened)

end Dag

/-! ## The view and the copy -/

def SeparationResult.verdict : SeparationResult → Bool
  | .separated _ _ => true
  | .connected _ => false

theorem SeparationResult.verdict_iff (r : SeparationResult) : r.verdict = true ↔ r.IsSeparated := by
  cases r with
  | separated xs z => exact iff_of_true rfl trivial
  | connected path => exact iff_of_false Bool.false_ne_true id

/-- `m` answers every query as the view of `g` does: edges, closures, and the two separation
verdicts, on all arguments. -/
structure Answers (g : Dag) (overlay : GraphOverlay) (m : Dag) : Prop where
  edges : ∀ u v, m.directed.Dir u v ↔ g.directed.Dir u v ∧ overlay.edgeVisible u v = true
  parents : ∀ u v, u ∈ m.parents v ↔ u ∈ g.parentsInto overlay v
  children : ∀ u v, v ∈ m.children u ↔ v ∈ g.childrenInto overlay u
  ancestors : ∀ nodes, m.ancestorsOfWith nodes none = g.ancestorsOfWith nodes (some overlay)
  descendants : ∀ nodes, m.descendantsOfWith nodes none = g.descendantsOfWith nodes (some overlay)
  separated : ∀ x y z, m.isDSeparated x y z = g.isDSeparatedWith x y z (some overlay)
  witness : ∀ x y z, (m.dSeparationWith x y z none).map (Except.map SeparationResult.verdict) =
    (g.dSeparationWith x y z (some overlay)).map (Except.map SeparationResult.verdict)

section View

variable {g m : Dag} {overlay : GraphOverlay}

theorem Dag.validateNode_eq_ok {v : Nat} : g.validateNode v = .ok () ↔ v < g.nodeCount := by
  unfold Dag.validateNode
  split_ifs with h
  · exact iff_of_false (fun h => nomatch h) (Nat.not_lt_of_le h)
  · exact iff_of_true rfl (Nat.lt_of_not_le h)

theorem Dag.forM_validateNode_eq_ok : ∀ {z : List Nat}, z.forM g.validateNode = .ok () ↔
    ∀ v ∈ z, v < g.nodeCount
  | [] => iff_of_true rfl fun _ h => absurd h List.not_mem_nil
  | v :: z => by
    rw [List.forall_mem_cons, ← Dag.forM_validateNode_eq_ok, ← Dag.validateNode_eq_ok]
    show (g.validateNode v >>= fun _ => z.forM g.validateNode) = _ ↔ _
    cases hv : g.validateNode v with
    | error e => exact iff_of_false (fun h => nomatch h) fun h => nomatch h.1
    | ok u => exact (and_iff_right rfl).symm

theorem visible_eq (hedges : ∀ u v, m.directed.Dir u v ↔
    g.directed.Dir u v ∧ overlay.edgeVisible u v = true) : m.visible none = g.visible (some overlay) := by
  have hdir : (m.visible none).dir = (g.visible (some overlay)).dir := by
    funext u v
    refine propext ((and_iff_left rfl).trans ((hedges u v).trans ?_))
    exact and_congr_right fun _ => Iff.rfl
  have hbi : (m.visible none).bi = (g.visible (some overlay)).bi :=
    funext fun a => funext fun b => propext (iff_of_false List.not_mem_nil List.not_mem_nil)
  calc m.visible none = ⟨(m.visible none).dir, (m.visible none).bi, (m.visible none).bi_symm⟩ := rfl
    _ = g.visible (some overlay) := by simp only [hdir, hbi]

/-- Bayes-ball gives one answer on the view and on the copy. -/
theorem isDSeparatedWith_view (hn : m.nodeCount = g.nodeCount)
    (hvisible : m.visible none = g.visible (some overlay)) {x y : Nat} {z : List Nat}
    (h : Query g.nodeCount x y z) :
    m.isDSeparatedWith x y z none = g.isDSeparatedWith x y z (some overlay) := by
  have hm := Dag.isDSeparatedWith_iff (g := m) (hn ▸ h) none
  have hg := Dag.isDSeparatedWith_iff h (some overlay)
  rw [hvisible, ← hg, Dag.isDSeparatedWith_eq (hn ▸ h), Dag.isDSeparatedWith_eq h, Except.ok.injEq,
    Except.ok.injEq] at hm
  rw [Dag.isDSeparatedWith_eq (hn ▸ h), Dag.isDSeparatedWith_eq h, Bool.eq_iff_iff.mpr hm]

/-- **A graph with the visible edges answers as the view does.** -/
theorem answers_of_edges (hn : m.nodeCount = g.nodeCount) (hedges : ∀ u v, m.directed.Dir u v ↔
    g.directed.Dir u v ∧ overlay.edgeVisible u v = true) : Answers g overlay m := by
  have hval : m.validateNode = g.validateNode := funext fun v => by
    unfold Dag.validateNode
    rw [hn]
  have hparents : ∀ u v, u ∈ m.parents v ↔ u ∈ g.parentsInto overlay v := fun u v =>
    (m.valid.mirrored u v).trans ((hedges u v).trans (g.mem_parentsInto overlay).symm)
  have hchildren : ∀ u v, v ∈ m.children u ↔ v ∈ g.childrenInto overlay u := fun u v =>
    (hedges u v).trans (g.mem_childrenInto overlay).symm
  have hvisible := visible_eq hedges
  have hrange : ∀ d : Dag, (∀ u w, w ∈ d.parents u → w < d.nodeCount) ∧
      ∀ u w, w ∈ d.children u → w < d.nodeCount := fun d =>
    ⟨fun u w hw => (d.valid.in_range w u ((d.valid.mirrored w u).mp hw)).1,
      fun u w hw => (d.valid.in_range u w hw).2⟩
  refine ⟨hedges, hparents, hchildren, fun nodes => ?_, fun nodes => ?_, fun x y z => ?_,
    fun x y z => ?_⟩
  · ext v
    unfold Dag.ancestorsOfWith
    rw [mem_closureInto (hrange m).1, mem_closureInto (hrange g).1, hn]
    have hrel : (fun a b => b ∈ m.parents a ∧ directedOk none b a = true) =
        fun a b => b ∈ g.parents a ∧ directedOk (some overlay) b a = true :=
      funext fun a => funext fun b => propext ((and_iff_left rfl).trans
        ((hparents b a).trans List.mem_filter))
    rw [hrel]
  · ext v
    unfold Dag.descendantsOfWith
    rw [mem_closureInto (hrange m).2, mem_closureInto (hrange g).2, hn]
    have hrel : (fun a b => b ∈ m.children a ∧ directedOk none a b = true) =
        fun a b => b ∈ g.children a ∧ directedOk (some overlay) a b = true :=
      funext fun a => funext fun b => propext ((and_iff_left rfl).trans
        ((hchildren a b).trans List.mem_filter))
    rw [hrel]
  · by_cases hq : Query g.nodeCount x y z
    · exact isDSeparatedWith_view hn hvisible hq
    · -- a refused query is refused by the checks, which the two graphs share
      unfold Dag.isDSeparated Dag.isDSeparatedWith
      rw [hval]
      cases hx : g.validateNode x with
      | error e => rfl
      | ok u =>
        cases hy : g.validateNode y with
        | error e => rfl
        | ok u' =>
          cases hz : z.forM g.validateNode with
          | error e => rfl
          | ok u'' =>
            simp only [bind, Except.bind]
            by_cases hxy : x = y
            · rw [if_pos hxy, if_pos hxy]
            rw [if_neg hxy, if_neg hxy]
            by_cases hany : (z.any fun v => v == x || v == y) = true
            · rw [if_pos hany, if_pos hany]
            refine absurd ⟨Dag.validateNode_eq_ok.mp hx, Dag.validateNode_eq_ok.mp hy,
              Dag.forM_validateNode_eq_ok.mp hz, hxy, fun h => hany ?_, fun h => hany ?_⟩ hq
            · exact List.any_eq_true.mpr ⟨x, h, by simp⟩
            · exact List.any_eq_true.mpr ⟨y, h, by simp⟩
  · by_cases hq : Query g.nodeCount x y z
    · obtain ⟨r, hr, hsep, -⟩ := dSeparation_correct (g := m) (hn ▸ hq) none
      obtain ⟨r', hr', hsep', -⟩ := dSeparation_correct hq (some overlay)
      rw [isDSeparatedWith_view hn hvisible hq, ← hsep'] at hsep
      have hverdict : r.verdict = r'.verdict := Bool.eq_iff_iff.mpr
        (r.verdict_iff.trans (hsep.trans r'.verdict_iff.symm))
      rw [hr, hr']
      show some (Except.ok r.verdict) = some (Except.ok r'.verdict)
      rw [hverdict]
    · unfold Dag.dSeparationWith
      rw [hval]
      cases hx : g.validateNode x with
      | error e => rfl
      | ok u =>
        cases hy : g.validateNode y with
        | error e => rfl
        | ok u' =>
          cases hz : z.forM g.validateNode with
          | error e => rfl
          | ok u'' =>
            simp only [bind, Except.bind]
            by_cases hany : (z.any fun v => v == x || v == y) = true
            · rw [if_pos hany, if_pos hany]
            rw [if_neg hany, if_neg hany]
            by_cases hxy : x = y
            · rw [if_pos hxy, if_pos hxy]
            refine absurd ⟨Dag.validateNode_eq_ok.mp hx, Dag.validateNode_eq_ok.mp hy,
              Dag.forM_validateNode_eq_ok.mp hz, hxy, fun h => hany ?_, fun h => hany ?_⟩ hq
            · exact List.any_eq_true.mpr ⟨x, h, by simp⟩
            · exact List.any_eq_true.mpr ⟨y, h, by simp⟩

/-- What `materialize` returns. -/
theorem materialize_spec (h : g.materialize overlay = .ok m) :
    m.nodes = (List.range g.nodeCount).map .static ∧ Answers g overlay m := by
  obtain ⟨-, hnodes, hedges⟩ := g.materializedCore_spec overlay
  unfold Dag.materialize at h
  split_ifs at h
  cases h
  have hcount : (g.materializedCore overlay).nodeCount = g.nodeCount := by
    show (g.materializedCore overlay).nodes.length = _
    rw [hnodes, List.length_map, List.length_range]
  exact ⟨hnodes, answers_of_edges hcount hedges⟩

theorem materialize_ok (hn : g.nodeCount ≤ u32Max) : ∃ m, g.materialize overlay = .ok m := by
  unfold Dag.materialize
  rw [if_neg (Nat.not_lt_of_le hn)]
  exact ⟨_, rfl⟩

end View

/-- The copy has the node table of `g` and answers as the view does. -/
def Materialized (g : Dag) (overlay : GraphOverlay) (r : Except GraphError Dag) : Prop :=
  ∃ m, r = .ok m ∧ m.nodes = g.nodes ∧ Answers g overlay m

/-- Node `i` is the variable `i`. -/
def Dag.Positional (g : Dag) : Prop := g.nodes = (List.range g.nodeCount).map .static

instance (g : Dag) : Decidable g.Positional := inferInstanceAs (Decidable (_ = _))

theorem materialized_iff (g : Dag) (overlay : GraphOverlay) :
    Materialized g overlay (g.materialize overlay) ↔ g.Positional ∧ g.nodeCount ≤ u32Max := by
  constructor
  · rintro ⟨m, hm, hnodes, -⟩
    refine ⟨hnodes.symm.trans (materialize_spec hm).1, ?_⟩
    unfold Dag.materialize at hm
    split_ifs at hm with h
    exact Nat.le_of_not_lt h
  · rintro ⟨hpos, hn⟩
    obtain ⟨m, hm⟩ : ∃ m, g.materialize overlay = .ok m := materialize_ok hn
    obtain ⟨hnodes, hanswers⟩ := materialize_spec hm
    exact ⟨m, hm, hnodes.trans hpos.symm, hanswers⟩

/-- **Surgery by copy is surgery by overlay exactly when node `i` is the variable `i`**: for every
overlay, and for every intervention on nodes of the graph. -/
theorem materialize_exact_iff (g : Dag) :
    (∀ overlay, Materialized g overlay (g.materialize overlay) ↔
      g.Positional ∧ g.nodeCount ≤ u32Max) ∧
    ∀ intervened : List Nat, (∀ v ∈ intervened, v < g.nodeCount) →
      (Materialized g (.doIntervention g.nodeCount intervened) (g.mutilate intervened) ↔
        g.Positional ∧ g.nodeCount ≤ u32Max) := by
  refine ⟨materialized_iff g, fun intervened h => ?_⟩
  have hmutilate : g.mutilate intervened =
      g.materialize (.doIntervention g.nodeCount intervened) := by
    unfold Dag.mutilate
    rw [Dag.forM_validateNode_eq_ok.mpr h]
    rfl
  rw [hmutilate]
  exact materialized_iff g _

/-- A DAG whose one node is the variable 7 comes back with the variable 0. -/
theorem materialize_relabels : ∃ g, Dag.empty.addNode (.static 7) = .ok (g, 0) ∧
    ¬ Materialized g ⟨∅, ∅⟩ (g.materialize ⟨∅, ∅⟩) := by
  refine ⟨_, rfl, ?_⟩
  rw [materialized_iff]
  rintro ⟨hpos, -⟩
  exact absurd hpos (by decide)

end Antecedent.Graph
