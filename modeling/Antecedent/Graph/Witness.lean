import Antecedent.Graph.Districts
import Antecedent.Graph.Separation

/-!
# The witness queries: a path in the moral ancestral graph

Model of `Dag::d_separation` (`dsep.rs:375-526`) and `Admg::m_separation` (`msep.rs:95-287`): the
ancestral closure of the query, its moralisation into undirected adjacency rows, a stack search
that records predecessors, and the path read back from them.

* The rows are built by inserting a list of pairs in the order of the source loops
  (`addUndirected`); `member` of the source is membership in the row.
* A missing predecessor is the `expect` panic of `reconstruct_path`; it is `none` here.

Results:
-/

namespace Antecedent.Graph

open Mixed Relation
open Worklist

/-! ## Undirected rows -/

/-- `dsep.rs:489-509`. -/
def addUndirected (adj : List (List Nat)) (e : Nat × Nat) : List (List Nat) :=
  if e.1 = e.2 then adj
  else
    let adj := if e.2 ∈ row adj e.1 then adj else pushRow adj e.1 e.2
    if e.1 ∈ row adj e.2 then adj else pushRow adj e.2 e.1

/-- Insert a list of pairs into the empty rows of `n` nodes. -/
def undirectedRows (n : Nat) (pairs : List (Nat × Nat)) : List (List Nat) :=
  pairs.foldl addUndirected (List.replicate n [])

theorem length_addUndirected (adj : List (List Nat)) (e : Nat × Nat) :
    (addUndirected adj e).length = adj.length := by
  unfold addUndirected
  simp only
  split_ifs <;> simp

variable {adj rows : List (List Nat)} {x a b n y : Nat} {G : MixedGraph Nat} {z : List Nat}
  {pred : Nat → Option Nat}

theorem mem_row_pushMissing {i : Nat} (hi : i < adj.length) (j y : Nat) :
    y ∈ row (if x ∈ row adj i then adj else pushRow adj i x) j ↔
      y ∈ row adj j ∨ (j = i ∧ y = x) := by
  split_ifs with h
  · constructor
    · exact Or.inl
    · rintro (h' | ⟨rfl, rfl⟩)
      · exact h'
      · exact h
  · rw [row_pushRow hi]
    split_ifs with hj
    · subst hj
      simp
    · simp [hj]

theorem mem_addUndirected (ha : a < adj.length) (hb : b < adj.length) (j y : Nat) :
    y ∈ row (addUndirected adj (a, b)) j ↔
      y ∈ row adj j ∨ (a ≠ b ∧ ((j = a ∧ y = b) ∨ (j = b ∧ y = a))) := by
  unfold addUndirected
  by_cases hab : a = b
  · simp [hab]
  · have hb' : b < (if b ∈ row adj a then adj else pushRow adj a b).length := by
      split_ifs <;> simpa using hb
    simp only [if_neg hab]
    rw [mem_row_pushMissing hb', mem_row_pushMissing ha]
    simp only [hab, ne_eq, not_false_eq_true, true_and, or_assoc]

theorem mem_undirectedRows {pairs : List (Nat × Nat)}
    (h : ∀ e ∈ pairs, e.1 < n ∧ e.2 < n) (a b : Nat) :
    b ∈ row (undirectedRows n pairs) a ↔ a ≠ b ∧ ((a, b) ∈ pairs ∨ (b, a) ∈ pairs) := by
  have key : ∀ (l : List (Nat × Nat)) (adj : List (List Nat)), adj.length = n →
      (∀ e ∈ l, e.1 < n ∧ e.2 < n) →
      (b ∈ row (l.foldl addUndirected adj) a ↔
        b ∈ row adj a ∨ (a ≠ b ∧ ((a, b) ∈ l ∨ (b, a) ∈ l))) := by
    intro l
    induction l with
    | nil => intro adj _ _; simp
    | cons e l ih =>
      intro adj hadj hl
      obtain ⟨c, d⟩ := e
      obtain ⟨hc, hd⟩ := hl (c, d) List.mem_cons_self
      rw [List.foldl_cons, ih _ (by rw [length_addUndirected, hadj])
        fun e he => hl e (List.mem_cons_of_mem _ he),
        mem_addUndirected (by rw [hadj]; exact hc) (by rw [hadj]; exact hd)]
      simp only [List.mem_cons, Prod.mk.injEq]
      constructor
      · rintro ((h1 | ⟨h2, ⟨rfl, rfl⟩ | ⟨rfl, rfl⟩⟩) | ⟨h3, h4 | h5⟩)
        · exact Or.inl h1
        · exact Or.inr ⟨h2, Or.inl (Or.inl ⟨rfl, rfl⟩)⟩
        · exact Or.inr ⟨h2.symm, Or.inr (Or.inl ⟨rfl, rfl⟩)⟩
        · exact Or.inr ⟨h3, Or.inl (Or.inr h4)⟩
        · exact Or.inr ⟨h3, Or.inr (Or.inr h5)⟩
      · rintro (h1 | ⟨h2, (⟨rfl, rfl⟩ | h3) | (⟨rfl, rfl⟩ | h3)⟩)
        · exact Or.inl (Or.inl h1)
        · exact Or.inl (Or.inr ⟨h2, Or.inl ⟨rfl, rfl⟩⟩)
        · exact Or.inr ⟨h2, Or.inl h3⟩
        · exact Or.inl (Or.inr ⟨h2.symm, Or.inr ⟨rfl, rfl⟩⟩)
        · exact Or.inr ⟨h2, Or.inr h3⟩
  have hnil : row (List.replicate n []) a = ([] : List Nat) := by
    unfold row
    rw [List.getD_eq_getElem?_getD, List.getElem?_replicate]
    split_ifs <;> rfl
  unfold undirectedRows
  rw [key pairs _ List.length_replicate h, hnil]
  simp

/-! ## The search with predecessors -/

/-- `pred[v] = Some(u)`. -/
def setPred (u v : Nat) (pred : Nat → Option Nat) : Nat → Option Nat :=
  fun w => if w = v then some u else pred w

/-- `DSeparationWorkspace::moral_reaches` (`dsep.rs:103-135`) with predecessors recorded. -/
def moralReaches (undirected : List (List Nat)) (conditioning : Finset Nat) (x y : Nat) :
    Bool × (Nat → Option Nat) :=
  let out := drain (fun u => (row undirected u).filter fun v => decide (v ∉ conditioning))
    (fun u => u == y) setPred (undirected.length + 1)
    { seen := {x}, stack := [x], note := fun _ => none }
  (out.1, out.2.note)

/-- `reconstruct_path` (`dsep.rs:511-525`) from `cur` back to `start`; `none` is its panic. -/
def reconstructPath (pred : Nat → Option Nat) (start : Nat) : Nat → Nat → Option (List Nat)
  | 0, _ => none
  | fuel + 1, cur =>
    if cur = start then some [start]
    else
      match pred cur with
      | none => none
      | some p => (reconstructPath pred start fuel p).map (· ++ [cur])

/-- The predecessors lead back to `x` along `next`, each one discovered before its node. -/
def PredInv (next : Nat → List Nat) (x : Nat) (seen : Finset Nat) (pred : Nat → Option Nat) :
    Prop :=
  ∃ rank : Nat → Nat, (∀ v ∈ seen, rank v < seen.card) ∧
    ∀ v ∈ seen, v ≠ x → ∃ u, pred v = some u ∧ u ∈ seen ∧ v ∈ next u ∧ rank u < rank v

theorem predInv_kept (next : Nat → List Nat) (x : Nat) : Kept next setPred (PredInv next x) := by
  rintro S n u w ⟨rank, hlt, hp⟩ hu hw hnew
  refine ⟨fun v => if v = w then S.card else rank v, fun v hv => ?_, fun v hv hvx => ?_⟩
  · rw [Finset.card_insert_of_notMem hnew]
    show (if v = w then S.card else rank v) < S.card + 1
    split_ifs with h
    · exact Nat.lt_succ_self _
    · have := hlt v ((Finset.mem_insert.mp hv).resolve_left h)
      omega
  · have hne : ∀ v ∈ S, v ≠ w := fun v hv e => hnew (e ▸ hv)
    rcases Finset.mem_insert.mp hv with rfl | hv
    · refine ⟨u, if_pos rfl, Finset.mem_insert_of_mem hu, hw, ?_⟩
      show (if u = v then S.card else rank u) < if v = v then S.card else rank v
      rw [if_neg (hne u hu), if_pos rfl]
      exact hlt u hu
    · obtain ⟨p, h1, h2, h3, h4⟩ := hp v hv hvx
      refine ⟨p, ?_, Finset.mem_insert_of_mem h2, h3, ?_⟩
      · unfold setPred
        rw [if_neg (hne v hv), h1]
      · show (if p = w then S.card else rank p) < if v = w then S.card else rank v
        rw [if_neg (hne p h2), if_neg (hne v hv)]
        exact h4

/-- What a path read back from the predecessors is: it runs from `x` to `y` along `next` and
repeats no node. -/
structure WitnessPath (next : Nat → List Nat) (x y : Nat) (path : List Nat) : Prop where
  first : path.head? = some x
  last : path.getLast? = some y
  nodup : path.Nodup
  chain : path.IsChain fun a b => b ∈ next a

theorem reconstructPath_spec {next : Nat → List Nat} {x : Nat} {seen : Finset Nat}
    {rank : Nat → Nat}
    (hp : ∀ v ∈ seen, v ≠ x → ∃ u, pred v = some u ∧ u ∈ seen ∧ v ∈ next u ∧ rank u < rank v) :
    ∀ (fuel y : Nat), y ∈ seen → rank y < fuel → ∃ path,
      reconstructPath pred x fuel y = some path ∧ WitnessPath next x y path ∧
        ∀ v ∈ path, v = x ∨ rank v ≤ rank y ∧ ∃ u, v ∈ next u
  | 0, _, _, h => absurd h (Nat.not_lt_zero _)
  | fuel + 1, y, hy, hr => by
    unfold reconstructPath
    by_cases hyx : y = x
    · subst hyx
      refine ⟨[y], by rw [if_pos rfl], ⟨rfl, rfl, List.nodup_singleton y, List.IsChain.singleton y⟩,
        fun v hv => Or.inl (List.mem_singleton.mp hv)⟩
    · obtain ⟨u, hpu, hus, hyu, hlt⟩ := hp y hy hyx
      obtain ⟨path, hpath, hw, hmem⟩ := reconstructPath_spec hp fuel u hus (by omega)
      refine ⟨path ++ [y], ?_, ⟨?_, ?_, ?_, ?_⟩, fun v hv => ?_⟩
      · simp only [if_neg hyx, hpu, hpath, Option.map_some]
      · rw [List.head?_append, hw.first]; rfl
      · rw [List.getLast?_concat]
      · refine List.nodup_append.mpr ⟨hw.nodup, List.nodup_singleton y, fun v hv z hz e => ?_⟩
        rw [List.mem_singleton.mp hz] at e
        subst e
        rcases hmem v hv with h | ⟨h, -⟩
        · exact hyx h
        · omega
      · refine List.IsChain.append hw.chain (List.IsChain.singleton y) fun a ha b hb => ?_
        rw [hw.last, Option.mem_some_iff] at ha
        simp only [List.head?_cons, Option.mem_some_iff] at hb
        subst ha hb
        exact hyu
      · rcases List.mem_append.mp hv with hv | hv
        · rcases hmem v hv with h | ⟨h1, h2⟩
          · exact Or.inl h
          · exact Or.inr ⟨by omega, h2⟩
        · rw [List.mem_singleton.mp hv]
          exact Or.inr ⟨Nat.le_refl _, u, hyu⟩

/-- **The search finds `y` iff it is reachable around the conditioning set, and its predecessors
then read back a path.** -/
theorem moralReaches_spec (cond : Finset Nat)
    (hlen : rows.length = n) (hrange : ∀ a b, b ∈ row rows a → b < n) (hx : x < n) :
    ((moralReaches rows cond x y).1 = true ↔
        ReflTransGen (fun a b => b ∈ row rows a ∧ b ∉ cond) x y) ∧
      ((moralReaches rows cond x y).1 = true → ∃ path,
        reconstructPath (moralReaches rows cond x y).2 x (n + 1) y = some path ∧
          WitnessPath (row rows) x y path ∧ ∀ v ∈ path, v = x ∨ v ∉ cond) := by
  set next : Nat → List Nat := fun u => (row rows u).filter fun v => decide (v ∉ cond) with hnext
  have hmem : ∀ a b, b ∈ next a ↔ b ∈ row rows a ∧ b ∉ cond := by
    intro a b
    rw [hnext]
    simp
  have hrel : Reach next = ReflTransGen (fun a b => b ∈ row rows a ∧ b ∉ cond) :=
    congrArg ReflTransGen (funext fun a => funext fun b => propext (hmem a b))
  have hU : Bounded next [x] (Finset.range n) := by
    refine ⟨fun s hs => ?_, fun u _ w hw => ?_⟩
    · rw [List.mem_singleton.mp hs]
      exact Finset.mem_range.mpr hx
    · exact Finset.mem_range.mpr (hrange u w ((hmem u w).mp hw).1)
  have hstart : ({ seen := {x}, stack := [x], note := fun _ => none } :
      Frontier Nat (Nat → Option Nat)) = start (fun _ n => n) (fun _ => none) [x] := rfl
  have hfuel : (Finset.range n).card < rows.length + 1 := by
    rw [Finset.card_range, hlen]
    exact Nat.lt_succ_self n
  have hfound : (moralReaches rows cond x y).1 = true ↔
      ReflTransGen (fun a b => b ∈ row rows a ∧ b ∉ cond) x y := by
    unfold moralReaches
    simp only
    rw [hstart, drain_found_iff _ _ hU hfuel, hrel]
    constructor
    · rintro ⟨s, v, hs, hr, hg⟩
      rw [List.mem_singleton.mp hs] at hr
      rwa [← beq_iff_eq.mp hg]
    · intro hr
      exact ⟨x, y, List.mem_singleton.mpr rfl, hr, beq_self_eq_true y⟩
  refine ⟨hfound, fun htrue => ?_⟩
  -- the final state of the search: `y` has been seen, and the predecessors satisfy `PredInv`
  set out := drain next (fun u => u == y) setPred (rows.length + 1)
    ({ seen := {x}, stack := [x], note := fun _ => none } : Frontier Nat (Nat → Option Nat))
    with hout
  have hst : ∀ v ∈ [x], v ∈ ({x} : Finset Nat) := by
    intro v hv
    simpa using hv
  have hinv : PredInv next x out.2.seen out.2.note := by
    apply drain_note (predInv_kept next x) _ _ hst
    refine ⟨fun _ => 0, fun v _ => by simp, fun v hv hvx => ?_⟩
    exact absurd (Finset.mem_singleton.mp hv) hvx
  have hsub : ∀ v ∈ out.2.seen, v < n := by
    refine drain_note (P := fun S _ => ∀ v ∈ S, v < n) ?_ _ _ hst ?_
    · intro S _ u w hS _ hw _ v hv
      rcases Finset.mem_insert.mp hv with rfl | hv
      · exact hrange u v ((hmem u v).mp hw).1
      · exact hS v hv
    · intro v hv
      rw [Finset.mem_singleton.mp hv]
      exact hx
  have hyseen : y ∈ out.2.seen := by
    obtain ⟨u, hu, hg⟩ := drain_found_seen _ _ hst htrue
    exact beq_iff_eq.mp hg ▸ hu
  obtain ⟨rank, hrank, hp⟩ := hinv
  have hcard : out.2.seen.card ≤ n := by
    have := Finset.card_le_card fun v hv => Finset.mem_range.mpr (hsub v hv)
    rwa [Finset.card_range] at this
  obtain ⟨path, hpath, hw, hin⟩ := reconstructPath_spec hp (n + 1) y hyseen
    (by have := hrank y hyseen; omega)
  refine ⟨path, hpath, ⟨hw.first, hw.last, hw.nodup, ?_⟩, fun v hv => ?_⟩
  · exact hw.chain.imp fun a b hab => ((hmem a b).mp hab).1
  · rcases hin v hv with h | ⟨-, u, hu⟩
    · exact Or.inl h
    · exact Or.inr ((hmem u v).mp hu).2

/-! ## The moral graph of a DAG -/

namespace Dag

/-- The pairs `d_sep_connected` inserts (`dsep.rs:446-478`): per ancestral node its visible
children, then its visible parents married. -/
def moralPairs (g : Dag) (overlay : Option GraphOverlay) (anc : Finset Nat) : List (Nat × Nat) :=
  (List.range g.nodeCount).flatMap fun u =>
    if u ∈ anc then
      ((g.children u).filter fun c => directedOk overlay u c && decide (c ∈ anc)).map
          (fun c => (u, c)) ++
        pairsOf ((g.parents u).filter fun a => directedOk overlay a u && decide (a ∈ anc))
    else []

/-- `ancestry.rs:21-36`. -/
def ancestorsOfWith (g : Dag) (nodes : List Nat) (overlay : Option GraphOverlay) : Finset Nat :=
  closureInto g.nodeCount g.parents nodes fun u p => directedOk overlay p u

/-- `dsep.rs:424-482`. -/
def dSepConnected (g : Dag) (x y : Nat) (z : List Nat) (overlay : Option GraphOverlay) :
    Bool × (Nat → Option Nat) :=
  let anc := g.ancestorsOfWith (x :: y :: z) overlay
  moralReaches (undirectedRows g.nodeCount (g.moralPairs overlay anc)) z.toFinset x y

variable {g : Dag} {nodes : List Nat} {overlay : Option GraphOverlay} {anc : Finset Nat}

theorem mem_ancestorsOfWith (h : ∀ v ∈ nodes, v < g.nodeCount)
    (overlay : Option GraphOverlay) (v : Nat) :
    v ∈ g.ancestorsOfWith nodes overlay ↔ v ∈ (g.visible overlay).AncSet {v | v ∈ nodes} :=
  BayesBallGraph.mem_ancestral (g.bayesBall_rows overlay) h v

theorem mem_moralPairs (hanc : ∀ v ∈ anc, v < g.nodeCount) {a b : Nat} (hab : a ≠ b) :
    ((a, b) ∈ g.moralPairs overlay anc ∨ (b, a) ∈ g.moralPairs overlay anc) ↔
      a ∈ anc ∧ b ∈ anc ∧ ∃ c ∈ anc, (g.visible overlay).Into a c ∧ (g.visible overlay).Into b c := by
  have hdir : ∀ {u c : Nat}, (g.visible overlay).dir u c ↔
      c ∈ g.children u ∧ directedOk overlay u c = true := Iff.rfl
  have hpar : ∀ {u c : Nat}, u ∈ g.parents c ↔ c ∈ g.children u := fun {u c} => g.valid.mirrored u c
  have hmem : ∀ a b : Nat, (a, b) ∈ g.moralPairs overlay anc ↔ ∃ u ∈ anc,
      (a = u ∧ (g.visible overlay).dir u b ∧ b ∈ anc) ∨
        (a, b) ∈ pairsOf ((g.parents u).filter fun p => directedOk overlay p u &&
          decide (p ∈ anc)) := by
    intro a b
    unfold moralPairs
    simp only [List.mem_flatMap, List.mem_range]
    constructor
    · rintro ⟨u, _, hu⟩
      split_ifs at hu with hua
      · rw [List.mem_append, List.mem_map] at hu
        refine ⟨u, hua, hu.imp ?_ id⟩
        rintro ⟨c, hc, he⟩
        simp only [List.mem_filter, Bool.and_eq_true, decide_eq_true_eq] at hc
        cases he
        exact ⟨rfl, ⟨hc.1, hc.2.1⟩, hc.2.2⟩
      · exact absurd hu List.not_mem_nil
    · rintro ⟨u, hua, hu⟩
      refine ⟨u, hanc u hua, ?_⟩
      rw [if_pos hua, List.mem_append, List.mem_map]
      refine hu.imp ?_ id
      rintro ⟨rfl, hd, hb⟩
      refine ⟨b, ?_, rfl⟩
      simp only [List.mem_filter, Bool.and_eq_true, decide_eq_true_eq]
      exact ⟨hd.1, hd.2, hb⟩
  have hmarry : ∀ u, ((a, b) ∈ pairsOf ((g.parents u).filter fun p => directedOk overlay p u &&
        decide (p ∈ anc)) ∨ (b, a) ∈ pairsOf ((g.parents u).filter fun p =>
        directedOk overlay p u && decide (p ∈ anc))) ↔
      ((g.visible overlay).dir a u ∧ a ∈ anc) ∧ (g.visible overlay).dir b u ∧ b ∈ anc := by
    intro u
    rw [mem_pairsOf hab]
    simp only [List.mem_filter, Bool.and_eq_true, decide_eq_true_eq, hpar, hdir, and_assoc]
  rw [hmem, hmem]
  constructor
  · rintro (⟨u, hu, ⟨rfl, hd, hb⟩ | hp⟩ | ⟨u, hu, ⟨rfl, hd, ha⟩ | hp⟩)
    · exact ⟨hu, hb, b, hb, Or.inr hd, Or.inl rfl⟩
    · obtain ⟨⟨h1, h2⟩, h3, h4⟩ := (hmarry u).mp (Or.inl hp)
      exact ⟨h2, h4, u, hu, Or.inr h1, Or.inr h3⟩
    · exact ⟨ha, hu, a, ha, Or.inl rfl, Or.inr hd⟩
    · obtain ⟨⟨h1, h2⟩, h3, h4⟩ := (hmarry u).mp (Or.inr hp)
      exact ⟨h2, h4, u, hu, Or.inr h1, Or.inr h3⟩
  · rintro ⟨ha, hb, c, hc, rfl | hac, rfl | hbc⟩
    · exact absurd rfl hab
    · exact Or.inr ⟨b, hb, Or.inl ⟨rfl, hbc, ha⟩⟩
    · exact Or.inl ⟨a, ha, Or.inl ⟨rfl, hac, hb⟩⟩
    · rcases (hmarry c).mpr ⟨⟨hac, ha⟩, hbc, hb⟩ with h | h
      · exact Or.inl ⟨c, hc, Or.inr h⟩
      · exact Or.inr ⟨c, hc, Or.inr h⟩

/-- Districts of a graph without bidirected edges are single nodes. -/
theorem district_visible {A : Set Nat} {c d : Nat}
    (h : (g.visible overlay).District A c d) : c = d := by
  induction h with
  | refl => rfl
  | tail _ hbc _ => exact absurd hbc.2.2 List.not_mem_nil

theorem moralPairs_range (hanc : ∀ v ∈ anc, v < g.nodeCount) :
    ∀ e ∈ g.moralPairs overlay anc, e.1 < g.nodeCount ∧ e.2 < g.nodeCount := by
  rintro ⟨a, b⟩ he
  by_cases hab : a = b
  · subst hab
    obtain ⟨u, -, hu⟩ := List.mem_flatMap.mp he
    split_ifs at hu with hua
    · rcases List.mem_append.mp hu with hu | hu
      · obtain ⟨c, hc, e⟩ := List.mem_map.mp hu
        cases e
        exact ⟨hanc _ hua, hanc _ hua⟩
      · have := mem_of_mem_pairsOf hu
        simp only [List.mem_filter, Bool.and_eq_true, decide_eq_true_eq] at this
        exact ⟨hanc a this.1.2.2, hanc a this.1.2.2⟩
    · exact absurd hu List.not_mem_nil
  · obtain ⟨ha, hb, -⟩ := (mem_moralPairs hanc hab).mp (Or.inl he)
    exact ⟨hanc a ha, hanc b hb⟩

/-- **The rows of `d_sep_connected` are the moral graph of the ancestral set.** -/
theorem mem_moralRows_dag (overlay : Option GraphOverlay)
    (hn : ∀ v ∈ nodes, v < g.nodeCount) (a b : Nat) :
    b ∈ row (undirectedRows g.nodeCount
        (g.moralPairs overlay (g.ancestorsOfWith nodes overlay))) a ↔
      (g.visible overlay).MoralAdj ((g.visible overlay).AncSet {v | v ∈ nodes}) a b := by
  have hmem := g.mem_ancestorsOfWith hn overlay
  have hanc : ∀ v ∈ g.ancestorsOfWith nodes overlay, v < g.nodeCount := by
    intro v hv
    obtain ⟨s, hs, hr⟩ := (hmem v).mp hv
    rcases ReflTransGen.cases_head hr with rfl | ⟨w, hw, -⟩
    · exact hn v hs
    · exact (g.valid.in_range v w hw.1).1
  rw [mem_undirectedRows (moralPairs_range hanc)]
  constructor
  · rintro ⟨hab, h⟩
    obtain ⟨ha, hb, c, hc, hac, hbc⟩ := (mem_moralPairs hanc hab).mp h
    exact ⟨hab, (hmem a).mp ha, (hmem b).mp hb, c, c, (hmem c).mp hc, hac, .refl, hbc⟩
  · rintro ⟨hab, ha, hb, c, d, hc, hac, hcd, hbd⟩
    obtain rfl := district_visible hcd
    exact ⟨hab, (mem_moralPairs hanc hab).mpr
      ⟨(hmem a).mpr ha, (hmem b).mpr hb, c, (hmem c).mpr hc, hac, hbd⟩⟩

end Dag

/-! ## The moral graph of an ADMG -/

namespace Admg

/-- `if !mark.contains(u) { mark.insert(u); clique.push(u) }`. -/
def pushUnmarked (clique : List Nat) (u : Nat) : List Nat :=
  if u ∈ clique then clique else clique ++ [u]

/-- The clique `C ∪ pa(C)` of one district (`msep.rs:262-275`). -/
def districtClique (g : Admg) (anc : Finset Nat) (members : List Nat) : List Nat :=
  members.foldl (fun clique u => ((g.parents u).filter fun p => decide (p ∈ anc)).foldl pushUnmarked
    (pushUnmarked clique u)) []

/-- The pairs `moralize_ancestral_set` inserts (`msep.rs:225-287`): the directed and bidirected
edges of the ancestral set, then the clique of each district. -/
def moralPairs (g : Admg) (anc : Finset Nat) : List (Nat × Nat) :=
  let districts := g.districtsInto fun v => decide (v ∈ anc)
  let groups := (List.range districts.next).map fun i =>
    (List.range g.nodeCount).filter fun v => districts.label v == some i
  ((List.range g.nodeCount).flatMap fun u =>
    if u ∈ anc then
      ((g.children u).filter fun c => decide (c ∈ anc)).map (fun c => (u, c)) ++
        ((g.bidirectedNeighbors u).filter fun b => decide (u < b) && decide (b ∈ anc)).map
          fun b => (u, b)
    else []) ++
  groups.flatMap fun members => pairsOf (g.districtClique anc members)

/-- `Admg::build_moral_of_seeds` (`msep.rs:203-221`), then `moral_reaches`. -/
def mSepConnected (g : Admg) (x y : Nat) (z : List Nat) : Bool × (Nat → Option Nat) :=
  let anc := g.ancestorsOf (x :: y :: z)
  moralReaches (undirectedRows g.nodeCount (g.moralPairs anc)) z.toFinset x y

variable {g : Admg} {nodes clique : List Nat} {v : Nat}

theorem mem_ancestorsOf (h : ∀ v ∈ nodes, v < g.nodeCount)
    (v : Nat) : v ∈ g.ancestorsOf nodes ↔ v ∈ g.mixed.AncSet {v | v ∈ nodes} := by
  have := BayesBallGraph.mem_ancestral g.bayesBall_rows h v
  rw [Admg.mixed_bayesBall] at this
  exact this

/-! ### The cliques -/

theorem mem_pushUnmarked {u : Nat} :
    v ∈ pushUnmarked clique u ↔ v ∈ clique ∨ v = u := by
  unfold pushUnmarked
  split_ifs with h
  · constructor
    · exact Or.inl
    · rintro (h' | rfl)
      · exact h'
      · exact h
  · simp

theorem mem_foldl_pushUnmarked {l : List Nat} :
    v ∈ l.foldl pushUnmarked clique ↔ v ∈ clique ∨ v ∈ l := by
  induction l generalizing clique with
  | nil => simp
  | cons u l ih =>
    rw [List.foldl_cons, ih, mem_pushUnmarked, List.mem_cons, or_assoc]

theorem mem_districtClique {anc : Finset Nat} {members : List Nat} :
    v ∈ g.districtClique anc members ↔
      ∃ c ∈ members, v = c ∨ (g.mixed.dir v c ∧ v ∈ anc) := by
  have key : ∀ (ms clique : List Nat),
      v ∈ ms.foldl (fun clique u => ((g.parents u).filter fun p => decide (p ∈ anc)).foldl
        pushUnmarked (pushUnmarked clique u)) clique ↔
      v ∈ clique ∨ ∃ c ∈ ms, v = c ∨ (g.mixed.dir v c ∧ v ∈ anc) := by
    intro ms
    induction ms with
    | nil => intro clique; simp
    | cons u ms ih =>
      intro clique
      have hpar : v ∈ g.parents u ↔ g.mixed.dir v u := g.valid.mirrored v u
      rw [List.foldl_cons, ih, mem_foldl_pushUnmarked, mem_pushUnmarked]
      simp only [List.mem_filter, decide_eq_true_eq, hpar, List.mem_cons, exists_eq_or_imp,
        or_assoc]
  unfold districtClique
  rw [key]
  simp

theorem mem_of_mem_pairs (anc : Finset Nat) :
    ∀ e ∈ g.moralPairs anc, e.1 ∈ anc ∧ e.2 ∈ anc := by
  have hinv := g.districtsInto_inv fun v => decide (v ∈ anc)
  rintro ⟨a, b⟩ he
  unfold moralPairs at he
  rcases List.mem_append.mp he with he | he
  · obtain ⟨u, -, hu⟩ := List.mem_flatMap.mp he
    split_ifs at hu with hua
    · rcases List.mem_append.mp hu with hu | hu
      · obtain ⟨c, hc, e⟩ := List.mem_map.mp hu
        cases e
        exact ⟨hua, by simpa using (List.mem_filter.mp hc).2⟩
      · obtain ⟨c, hc, e⟩ := List.mem_map.mp hu
        cases e
        have := (List.mem_filter.mp hc).2
        rw [Bool.and_eq_true] at this
        exact ⟨hua, by simpa using this.2⟩
    · exact absurd hu List.not_mem_nil
  · obtain ⟨members, hm, hp⟩ := List.mem_flatMap.mp he
    obtain ⟨i, -, rfl⟩ := List.mem_map.mp hm
    have hin : ∀ v ∈ g.districtClique anc ((List.range g.nodeCount).filter fun v =>
        (g.districtsInto fun v => decide (v ∈ anc)).label v == some i), v ∈ anc := by
      intro v hv
      obtain ⟨c, hc, rfl | hvc⟩ := mem_districtClique.mp hv
      · have := (hinv.mem v i (by simpa using (List.mem_filter.mp hc).2)).1
        simpa using this
      · exact hvc.2
    obtain ⟨h1, h2⟩ := mem_of_mem_pairsOf hp
    exact ⟨hin a h1, hin b h2⟩

/-- **The rows of `moralize_ancestral_set` are the moral graph of the ancestral set.** -/
theorem mem_moralRows_admg (hn : ∀ v ∈ nodes, v < g.nodeCount) (a b : Nat) :
    b ∈ row (undirectedRows g.nodeCount (g.moralPairs (g.ancestorsOf nodes))) a ↔
      g.mixed.MoralAdj (g.mixed.AncSet {v | v ∈ nodes}) a b := by
  have hmem := g.mem_ancestorsOf hn
  have hanc : ∀ v ∈ g.ancestorsOf nodes, v < g.nodeCount := by
    intro v hv
    obtain ⟨s, hs, hr⟩ := (hmem v).mp hv
    rcases ReflTransGen.cases_head hr with rfl | ⟨w, hw, -⟩
    · exact hn v hs
    · exact (g.valid.in_range v w hw).1
  have hA : {v | decide (v ∈ g.ancestorsOf nodes) = true} = g.mixed.AncSet {v | v ∈ nodes} := by
    ext v
    simpa using hmem v
  have hinv := g.districtsInto_inv fun v => decide (v ∈ g.ancestorsOf nodes)
  have hpairs := mem_of_mem_pairs (g := g) (g.ancestorsOf nodes)
  rw [mem_undirectedRows fun e he => ⟨hanc _ (hpairs e he).1, hanc _ (hpairs e he).2⟩]
  set anc := g.ancestorsOf nodes with hancdef
  set st := g.districtsInto fun v => decide (v ∈ anc) with hst
  have hcl : ∀ i v, v ∈ g.districtClique anc ((List.range g.nodeCount).filter fun v =>
      st.label v == some i) ↔ ∃ c, st.label c = some i ∧ (v = c ∨ (g.mixed.dir v c ∧ v ∈ anc)) := by
    intro i v
    rw [mem_districtClique]
    simp only [List.mem_filter, List.mem_range, beq_iff_eq]
    constructor
    · rintro ⟨c, ⟨-, hc⟩, h⟩
      exact ⟨c, hc, h⟩
    · rintro ⟨c, hc, h⟩
      exact ⟨c, ⟨(hinv.mem c i hc).2.1, hc⟩, h⟩
  constructor
  · rintro ⟨hab, hp⟩
    have haA : a ∈ anc ∧ b ∈ anc := by
      rcases hp with hp | hp
      · exact hpairs _ hp
      · exact (hpairs _ hp).symm
    refine ⟨hab, (hmem a).mp haA.1, (hmem b).mp haA.2, ?_⟩
    -- an inserted pair lies in one district clique, edges of the first loop included
    have hedge : ∀ {p q : Nat}, (p, q) ∈ (List.range g.nodeCount).flatMap (fun u =>
        if u ∈ anc then
          ((g.children u).filter fun c => decide (c ∈ anc)).map (fun c => (u, c)) ++
            ((g.bidirectedNeighbors u).filter fun b => decide (u < b) && decide (b ∈ anc)).map
              fun b => (u, b)
        else []) → p ∈ anc ∧ q ∈ anc ∧ (g.mixed.dir p q ∨ g.mixed.bi p q) := by
      intro p q hpq
      obtain ⟨u, -, hu⟩ := List.mem_flatMap.mp hpq
      split_ifs at hu with hua
      · rcases List.mem_append.mp hu with hu | hu
        · obtain ⟨c, hc, e⟩ := List.mem_map.mp hu
          cases e
          obtain ⟨h1, h2⟩ := List.mem_filter.mp hc
          exact ⟨hua, by simpa using h2, Or.inl h1⟩
        · obtain ⟨c, hc, e⟩ := List.mem_map.mp hu
          cases e
          obtain ⟨h1, h2⟩ := List.mem_filter.mp hc
          rw [Bool.and_eq_true] at h2
          exact ⟨hua, by simpa using h2.2, Or.inr h1⟩
      · exact absurd hu List.not_mem_nil
    have hclique : ∀ {p q : Nat}, (p, q) ∈ ((List.range st.next).map fun i =>
        (List.range g.nodeCount).filter fun v => st.label v == some i).flatMap
          (fun members => pairsOf (g.districtClique anc members)) →
        ∃ c d, c ∈ anc ∧ g.mixed.Into p c ∧
          g.mixed.District (g.mixed.AncSet {v | v ∈ nodes}) c d ∧ g.mixed.Into q d := by
      intro p q hpq
      obtain ⟨members, hm, hpq⟩ := List.mem_flatMap.mp hpq
      obtain ⟨i, -, rfl⟩ := List.mem_map.mp hm
      obtain ⟨h1, h2⟩ := mem_of_mem_pairsOf hpq
      obtain ⟨c, hc, hpc⟩ := (hcl i p).mp h1
      obtain ⟨d, hd, hqd⟩ := (hcl i q).mp h2
      have hcd := hinv.joined c d i hc hd
      rw [hA] at hcd
      exact ⟨c, d, by simpa using (hinv.mem c i hc).1, hpc.imp id And.left, hcd,
        hqd.imp id And.left⟩
    have hfirst : ∀ {p q : Nat}, (p, q) ∈ g.moralPairs anc → ∃ c d, c ∈ anc ∧ g.mixed.Into p c ∧
        g.mixed.District (g.mixed.AncSet {v | v ∈ nodes}) c d ∧ g.mixed.Into q d := by
      intro p q hpq
      rcases List.mem_append.mp hpq with hpq | hpq
      · obtain ⟨hpA, hqA, hd | hb⟩ := hedge hpq
        · exact ⟨q, q, hqA, Or.inr hd, .refl, Or.inl rfl⟩
        · exact ⟨p, q, hpA, Or.inl rfl, .single ⟨(hmem p).mp hpA, (hmem q).mp hqA, hb⟩,
            Or.inl rfl⟩
      · exact hclique hpq
    rcases hp with hp | hp
    · obtain ⟨c, d, hc, hac, hcd, hbd⟩ := hfirst hp
      exact ⟨c, d, (hmem c).mp hc, hac, hcd, hbd⟩
    · obtain ⟨c, d, hc, hbc, hcd, had⟩ := hfirst hp
      exact ⟨d, c, hcd.mem ((hmem c).mp hc), had, hcd.symm, hbc⟩
  · rintro ⟨hab, ha, hb, c, d, hc, hac, hcd, hbd⟩
    have hca := (hmem c).mpr hc
    obtain ⟨i, hi⟩ := hinv.covered c (hanc c hca) (by simpa using hca)
    rw [← hA] at hcd
    have hj := hinv.closed c d i hi hcd
    have h1 := (hcl i a).mpr ⟨c, hi, hac.imp id fun h => ⟨h, (hmem a).mpr ha⟩⟩
    have h2 := (hcl i b).mpr ⟨d, hj, hbd.imp id fun h => ⟨h, (hmem b).mpr hb⟩⟩
    refine ⟨hab, ?_⟩
    have hgroup : (List.range g.nodeCount).filter (fun v => st.label v == some i) ∈
        (List.range st.next).map fun i => (List.range g.nodeCount).filter fun v =>
          st.label v == some i :=
      List.mem_map.mpr ⟨i, List.mem_range.mpr (hinv.mem c i hi).2.2, rfl⟩
    rcases (mem_pairsOf hab).mpr ⟨h1, h2⟩ with h | h
    · exact Or.inl (List.mem_append.mpr (Or.inr (List.mem_flatMap.mpr ⟨_, hgroup, h⟩)))
    · exact Or.inr (List.mem_append.mpr (Or.inr (List.mem_flatMap.mpr ⟨_, hgroup, h⟩)))

end Admg

/-! ## The queries -/

/-- `dsep.rs:38-52`. -/
inductive SeparationResult
  | separated (conditioning certificate : List Nat)
  | connected (activePath : List Nat)

/-- The answer is `Separated`. -/
def SeparationResult.IsSeparated : SeparationResult → Prop
  | .separated _ _ => True
  | .connected _ => False

/-- `Dag::d_separation_with` (`dsep.rs:387-421`); the outer `none` is the panic of
`reconstruct_path`. -/
def Dag.dSeparationWith (g : Dag) (x y : Nat) (z : List Nat) (overlay : Option GraphOverlay) :
    Option (Except GraphError SeparationResult) :=
  match (do g.validateNode x; g.validateNode y; z.forM g.validateNode : Except GraphError Unit) with
  | .error e => some (.error e)
  | .ok () =>
    if z.any fun v => v == x || v == y then
      some (.error (.invalidEndpoints
        "d-separation witness requires conditioning disjoint from endpoints"))
    else if x = y then some (.ok (.connected [x]))
    else if (g.dSepConnected x y z overlay).1 then
      (reconstructPath (g.dSepConnected x y z overlay).2 x (g.nodeCount + 1) y).map
        fun path => .ok (.connected path)
    else some (.ok (.separated z z))

/-- The path `m_sep_active_path` reads back (`msep.rs:175-187`): it stops at `x`, or at a node
without a predecessor. -/
def readBack (pred : Nat → Option Nat) (x : Nat) : Nat → Nat → List Nat
  | 0, _ => []
  | fuel + 1, cur =>
    if cur = x then [x]
    else
      match pred cur with
      | none => [cur]
      | some p => readBack pred x fuel p ++ [cur]

/-- `msep.rs:95-119`. -/
def Admg.mSeparation (g : Admg) (x y : Nat) (z : List Nat) : Except GraphError SeparationResult := do
  g.validateNode x
  g.validateNode y
  z.forM g.validateNode
  if x = y then return .connected [x]
  if z.any fun v => v == x || v == y then return .connected [x, y]
  if (g.mSepConnected x y z).1 then
    return .connected (readBack (g.mSepConnected x y z).2 x (g.nodeCount + 1) y)
  return .separated z z

theorem readBack_of_reconstruct {x : Nat} :
    ∀ {fuel cur : Nat} {path : List Nat}, reconstructPath pred x fuel cur = some path →
      readBack pred x fuel cur = path
  | 0, _, _, h => absurd h (by simp [reconstructPath])
  | fuel + 1, cur, path, h => by
    unfold reconstructPath at h
    unfold readBack
    split_ifs at h ⊢ with hc
    · exact Option.some.inj h
    · cases hp : pred cur with
      | none => rw [hp] at h; exact absurd h (by simp)
      | some p =>
        rw [hp] at h
        simp only [Option.map_eq_some_iff] at h ⊢
        obtain ⟨path', h1, rfl⟩ := h
        rw [readBack_of_reconstruct h1]

/-- A path from `x` to `y` in the moral graph over `A` that repeats no node and avoids `z`. -/
structure MoralPath (G : MixedGraph Nat) (A : Set Nat) (x y : Nat) (z path : List Nat) : Prop where
  first : path.head? = some x
  last : path.getLast? = some y
  nodup : path.Nodup
  avoids : ∀ v ∈ path, v ∉ z
  chain : path.IsChain (G.MoralAdj A)

/-- The search over rows that are the moral graph of `An({x, y} ∪ z)`. -/
theorem moralReaches_correct (hq : Query n x y z) (hlen : rows.length = n)
    (hrows : ∀ a b, b ∈ row rows a ↔ G.MoralAdj (G.AncSet {v | v ∈ x :: y :: z}) a b)
    (hrange : ∀ a b, b ∈ row rows a → b < n) :
    ((moralReaches rows z.toFinset x y).1 = true ↔ ∃ m, G.Ball {v | v ∈ z} {x} y m) ∧
      ((moralReaches rows z.toFinset x y).1 = true → ∃ path,
        reconstructPath (moralReaches rows z.toFinset x y).2 x (n + 1) y = some path ∧
          MoralPath G (G.AncSet {v | v ∈ x :: y :: z}) x y z path) := by
  obtain ⟨h1, h2⟩ := moralReaches_spec z.toFinset (y := y) hlen hrange hq.x_lt
  have hset : {v | v ∈ x :: y :: z} = ({x} ∪ {y} ∪ {v | v ∈ z} : Set Nat) := by
    ext v
    simp only [List.mem_cons, Set.mem_union, Set.mem_singleton_iff, Set.mem_ofPred_eq, or_assoc]
  constructor
  · rw [h1]
    have hmoral := MixedGraph.ball_iff_moral (G := G) (S := {x}) (T := {y}) (Z := {v | v ∈ z})
      (by rintro s rfl; exact hq.x_notMem) (by rintro t rfl; exact hq.y_notMem)
    simp only [Set.mem_singleton_iff, exists_eq_left] at hmoral
    rw [hmoral, ← hset]
    simp only [hrows, List.mem_toFinset]
    rfl
  · intro htrue
    obtain ⟨path, hp, hw, hav⟩ := h2 htrue
    refine ⟨path, hp, hw.first, hw.last, hw.nodup, fun v hv => ?_, hw.chain.imp fun a b h =>
      (hrows a b).mp h⟩
    rcases hav v hv with rfl | h
    · exact hq.x_notMem
    · simpa using h

theorem moralAdj_lt {nodes : List Nat} (hn : ∀ v ∈ nodes, v < n)
    (hdir : ∀ a b, G.dir a b → a < n) (h : G.MoralAdj (G.AncSet {v | v ∈ nodes}) a b) :
    b < n := by
  obtain ⟨s, hs, hr⟩ := h.right_mem
  rcases ReflTransGen.cases_head hr with rfl | ⟨w, hw, -⟩
  · exact hn b hs
  · exact hdir b w hw

theorem length_undirectedRows (n : Nat) (pairs : List (Nat × Nat)) :
    (undirectedRows n pairs).length = n := by
  have key : ∀ (l : List (Nat × Nat)) (adj : List (List Nat)),
      (l.foldl addUndirected adj).length = adj.length := by
    intro l
    induction l with
    | nil => intro adj; rfl
    | cons e l ih => intro adj; rw [List.foldl_cons, ih, length_addUndirected]
  unfold undirectedRows
  rw [key, List.length_replicate]

theorem Query.nodes_lt (h : Query n x y z) :
    ∀ v ∈ x :: y :: z, v < n := by
  intro v hv
  simp only [List.mem_cons] at hv
  rcases hv with rfl | rfl | hv
  · exact h.x_lt
  · exact h.y_lt
  · exact h.z_lt v hv

/-- **The ADMG witness query.** It answers `Separated` exactly when Bayes-ball answers `true`; a
`Connected` answer carries a path of the moral graph from `x` to `y` around `z`. -/
theorem mSeparation_correct {g : Admg} (h : Query g.nodeCount x y z) :
    ∃ r, g.mSeparation x y z = .ok r ∧
      (r.IsSeparated ↔ g.isMSeparated x y z = .ok true) ∧
      ∀ path, r = .connected path →
        MoralPath g.mixed (g.mixed.AncSet {v | v ∈ x :: y :: z}) x y z path := by
  have hrows := Admg.mem_moralRows_admg (g := g) h.nodes_lt
  obtain ⟨h1, h2⟩ := moralReaches_correct h (length_undirectedRows _ _) hrows fun a b hab =>
    moralAdj_lt h.nodes_lt (fun u v huv => (g.valid.in_range u v huv).1) ((hrows a b).mp hab)
  have hval : g.mSeparation x y z = .ok (if (g.mSepConnected x y z).1 then
      .connected (readBack (g.mSepConnected x y z).2 x (g.nodeCount + 1) y)
      else .separated z z) := by
    unfold Admg.mSeparation
    rw [Admg.validateNode_ok h.x_lt, Admg.validateNode_ok h.y_lt,
      forM_ok fun v hv => Admg.validateNode_ok (h.z_lt v hv)]
    simp only [bind, Except.bind, if_neg h.ne, h.any_eq_false, Bool.false_eq_true, if_false]
    split_ifs <;> rfl
  refine ⟨_, hval, ?_, fun path hpath => ?_⟩
  · rw [Admg.isMSeparated_iff h, ← h1]
    show SeparationResult.IsSeparated (if (g.mSepConnected x y z).1 then _ else _) ↔
      ¬ (g.mSepConnected x y z).1 = true
    split_ifs with hc
    · simp [SeparationResult.IsSeparated, hc]
    · simp [SeparationResult.IsSeparated, hc]
  · split_ifs at hpath with hc
    obtain ⟨path', hp, hm⟩ := h2 hc
    have := readBack_of_reconstruct hp
    cases hpath
    show MoralPath _ _ x y z (readBack (moralReaches _ _ x y).2 x (g.nodeCount + 1) y)
    rw [this]
    exact hm

/-- **The DAG witness query**, with or without an overlay: it never panics, answers `Separated`
exactly when Bayes-ball answers `true`, and otherwise returns a path of the moral graph. -/
theorem dSeparation_correct {g : Dag} (h : Query g.nodeCount x y z)
    (overlay : Option GraphOverlay) :
    ∃ r, g.dSeparationWith x y z overlay = some (.ok r) ∧
      (r.IsSeparated ↔ g.isDSeparatedWith x y z overlay = .ok true) ∧
      ∀ path, r = .connected path →
        MoralPath (g.visible overlay) ((g.visible overlay).AncSet {v | v ∈ x :: y :: z})
          x y z path := by
  have hrows := Dag.mem_moralRows_dag (g := g) overlay h.nodes_lt
  have hdir : ∀ u v, (g.visible overlay).dir u v → u < g.nodeCount := fun u v huv =>
    (g.valid.in_range u v huv.1).1
  obtain ⟨h1, h2⟩ := moralReaches_correct h (length_undirectedRows _ _) hrows fun a b hab =>
    moralAdj_lt h.nodes_lt hdir ((hrows a b).mp hab)
  have hval : g.dSeparationWith x y z overlay =
      if (g.dSepConnected x y z overlay).1 then
        (reconstructPath (g.dSepConnected x y z overlay).2 x (g.nodeCount + 1) y).map
          fun path => .ok (.connected path)
      else some (.ok (.separated z z)) := by
    unfold Dag.dSeparationWith
    rw [Dag.validateNode_ok h.x_lt, Dag.validateNode_ok h.y_lt,
      forM_ok fun v hv => Dag.validateNode_ok (h.z_lt v hv)]
    simp only [bind, Except.bind, h.any_eq_false, if_neg h.ne]
    rfl
  rw [hval]
  split_ifs with hc
  · obtain ⟨path, hp, hm⟩ := h2 hc
    refine ⟨.connected path, ?_, ?_, fun path' hpath => ?_⟩
    · show Option.map _ (reconstructPath (moralReaches _ _ x y).2 x (g.nodeCount + 1) y) = _
      rw [hp]
      rfl
    · rw [Dag.isDSeparatedWith_iff h, ← h1]
      exact ⟨False.elim, fun hn => hn hc⟩
    · cases hpath
      exact hm
  · refine ⟨.separated z z, rfl, ?_, fun path' hpath => absurd hpath (by simp)⟩
    rw [Dag.isDSeparatedWith_iff h, ← h1]
    exact ⟨fun _ => hc, fun _ => trivial⟩

/-- **The two separation queries agree, and a connection comes with its path**: for every ADMG, and
for every DAG with or without an overlay, on distinct nodes outside the conditioning list. -/
theorem witness_agrees_with_bayesBall :
    (∀ (g : Admg) (x y : Nat) (z : List Nat), Query g.nodeCount x y z →
      ∃ r, g.mSeparation x y z = .ok r ∧
        (r.IsSeparated ↔ g.isMSeparated x y z = .ok true) ∧
        ∀ path, r = .connected path →
          MoralPath g.mixed (g.mixed.AncSet {v | v ∈ x :: y :: z}) x y z path) ∧
    (∀ (g : Dag) (overlay : Option GraphOverlay) (x y : Nat) (z : List Nat),
      Query g.nodeCount x y z →
      ∃ r, g.dSeparationWith x y z overlay = some (.ok r) ∧
        (r.IsSeparated ↔ g.isDSeparatedWith x y z overlay = .ok true) ∧
        ∀ path, r = .connected path →
          MoralPath (g.visible overlay) ((g.visible overlay).AncSet {v | v ∈ x :: y :: z})
            x y z path) :=
  ⟨fun _ _ _ _ h => mSeparation_correct h, fun _ overlay _ _ _ h => dSeparation_correct h overlay⟩

/-- The district clique at work: `0 → 1 ↔ 2 ← 3` is connected given `{1, 2}`. -/
theorem witness_agrees_on_district :
    ∃ g, ((Admg.withVariables 4).insertDirected 0 1 >>= fun g => g.insertBidirected 1 2 >>= fun g =>
        g.insertDirected 3 2) = .ok g ∧
      Query g.nodeCount 0 3 [1, 2] ∧
      ∃ r, g.mSeparation 0 3 [1, 2] = .ok r ∧
        (r.IsSeparated ↔ g.isMSeparated 0 3 [1, 2] = .ok true) ∧
        ∀ path, r = .connected path →
          MoralPath g.mixed (g.mixed.AncSet {v | v ∈ [0, 3, 1, 2]}) 0 3 [1, 2] path :=
  ⟨_, rfl, ⟨by decide, by decide, by decide, by decide, by decide, by decide⟩,
    witness_agrees_with_bayesBall.1 _ 0 3 [1, 2]
      ⟨by decide, by decide, by decide, by decide, by decide, by decide⟩⟩

end Antecedent.Graph
