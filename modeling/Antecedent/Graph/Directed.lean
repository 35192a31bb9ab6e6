import Antecedent.Graph.Types
import Antecedent.Mixed.Basic
import Antecedent.Search.Worklist
import Mathlib.Data.List.GetD

/-!
# Node tables, directed adjacency and the graphs built on it

Model of `directed.rs`, `algo.rs`, `dag.rs` and `admg.rs`: the shared `DirectedCore`, and the two
graphs that wrap it.

* `DirectedCore` keeps the children and the parents of every node as rows in insertion order.
  `DirectedCore.Valid` is what the checked constructors keep: as many rows as nodes, rows in range
  and without repetition, the two tables mirrored, no directed cycle, and a node count that fits
  the `u32` ids.
* `Dag` and `Admg` carry that validity, so a graph that breaks it cannot be built. `insertDirected`
  and `insertBidirected` are the checked insertions, `addNode` the checked node constructor.
* `Dag.mixed` and `Admg.mixed` are the mixed graphs they stand for.

The `BitSet`s of `workspace.rs` are finite sets of node ids; the scratch workspaces are cleared by
every search that takes them and have no counterpart.
-/

namespace Antecedent.Graph

open Mixed Relation
open Worklist

section Rows

variable {α : Type}

/-- Row `id` of an adjacency table, empty outside it (`rows.get(id).map_or(&[], ..)`). -/
def row (rows : List (List α)) (id : Nat) : List α := rows.getD id []

/-- Push `x` on row `i`. -/
def pushRow (rows : List (List α)) (i : Nat) (x : α) : List (List α) :=
  rows.modify i (· ++ [x])

@[simp] theorem row_append_nil (rows : List (List α)) (i : Nat) :
    row (rows ++ [[]]) i = row rows i := by
  unfold row
  rcases Nat.lt_trichotomy i rows.length with h | h | h
  · rw [List.getD_append _ _ _ _ h]
  · subst h
    rw [List.getD_append_right _ _ _ _ (Nat.le_refl _)]
    simp
  · rw [List.getD_append_right _ _ _ _ (Nat.le_of_lt h)]
    rw [List.getD_eq_default _ _ (by simp; omega), List.getD_eq_default _ _ (Nat.le_of_lt h)]

variable {rows : List (List α)} {i : Nat} {l : List α} {a b : α}

theorem row_of_length_le (h : rows.length ≤ i) :
    row rows i = [] := List.getD_eq_default _ _ h

@[simp] theorem length_pushRow (rows : List (List α)) (i : Nat) (x : α) :
    (pushRow rows i x).length = rows.length := List.length_modify _ _ _

theorem row_pushRow (hi : i < rows.length) (x : α) (j : Nat) :
    row (pushRow rows i x) j = if j = i then row rows i ++ [x] else row rows j := by
  unfold row pushRow
  rw [List.getD_eq_getElem?_getD, List.getElem?_modify]
  split_ifs with h1 h2 h2
  · subst h2
    simp [List.getElem?_eq_getElem hi]
  · exact absurd h1.symm h2
  · exact absurd h2.symm h1
  · simp [List.getD_eq_getElem?_getD]

/-- The pairs `(a, b)` with `a` before `b` (`for (i, a) { for b in &xs[i + 1..] }`). -/
def pairsOf : List α → List (α × α)
  | [] => []
  | a :: l => l.map (fun b => (a, b)) ++ pairsOf l

theorem mem_pairsOf (hab : a ≠ b) :
    ((a, b) ∈ pairsOf l ∨ (b, a) ∈ pairsOf l) ↔ a ∈ l ∧ b ∈ l := by
  induction l with
  | nil => simp [pairsOf]
  | cons c l ih =>
    simp only [pairsOf, List.mem_append, List.mem_map, Prod.mk.injEq, List.mem_cons]
    constructor
    · rintro ((⟨x, hx, rfl, rfl⟩ | h) | (⟨x, hx, rfl, rfl⟩ | h))
      · exact ⟨Or.inl rfl, Or.inr hx⟩
      · exact ⟨Or.inr (ih.mp (Or.inl h)).1, Or.inr (ih.mp (Or.inl h)).2⟩
      · exact ⟨Or.inr hx, Or.inl rfl⟩
      · exact ⟨Or.inr (ih.mp (Or.inr h)).1, Or.inr (ih.mp (Or.inr h)).2⟩
    · rintro ⟨rfl | ha, rfl | hb⟩
      · exact absurd rfl hab
      · exact Or.inl (Or.inl ⟨b, hb, rfl, rfl⟩)
      · exact Or.inr (Or.inl ⟨a, ha, rfl, rfl⟩)
      · rcases ih.mpr ⟨ha, hb⟩ with h | h
        · exact Or.inl (Or.inr h)
        · exact Or.inr (Or.inr h)

theorem mem_of_mem_pairsOf (h : (a, b) ∈ pairsOf l) :
    a ∈ l ∧ b ∈ l := by
  induction l with
  | nil => exact absurd h List.not_mem_nil
  | cons c l ih =>
    rcases List.mem_append.mp h with h | h
    · obtain ⟨x, hx, e⟩ := List.mem_map.mp h
      cases e
      exact ⟨List.mem_cons_self, List.mem_cons_of_mem _ hx⟩
    · exact ⟨List.mem_cons_of_mem _ (ih h).1, List.mem_cons_of_mem _ (ih h).2⟩

theorem mem_pairsOf_ne (hl : l.Nodup) (h : (a, b) ∈ pairsOf l) :
    a ≠ b := by
  induction l with
  | nil => exact absurd h List.not_mem_nil
  | cons c l ih =>
    obtain ⟨hc, hl⟩ := List.nodup_cons.mp hl
    rcases List.mem_append.mp h with h | h
    · obtain ⟨x, hx, e⟩ := List.mem_map.mp h
      cases e
      exact fun e => hc (e ▸ hx)
    · exact ih hl h

theorem mem_pairsOf_map {β : Type} (f : α → β) (h : (a, b) ∈ pairsOf l) :
    (f a, f b) ∈ pairsOf (l.map f) := by
  induction l with
  | nil => exact absurd h List.not_mem_nil
  | cons c l ih =>
    rcases List.mem_append.mp h with h | h
    · obtain ⟨x, hx, e⟩ := List.mem_map.mp h
      cases e
      exact List.mem_append_left _ (List.mem_map.mpr ⟨f b, List.mem_map_of_mem hx, rfl⟩)
    · exact List.mem_append_right _ (ih h)

/-- The pairs `i < j` below `k`, row by row. -/
def upperPairs (k : Nat) : List (Nat × Nat) :=
  (List.range k).flatMap fun i => ((List.range k).filter (i < ·)).map fun j => (i, j)

theorem mem_upperPairs {k j : Nat} : (i, j) ∈ upperPairs k ↔ i < j ∧ j < k := by
  unfold upperPairs
  simp only [List.mem_flatMap, List.mem_map, List.mem_filter, List.mem_range, decide_eq_true_eq,
    Prod.mk.injEq]
  constructor
  · rintro ⟨a, -, b, ⟨hb, hab⟩, rfl, rfl⟩
    exact ⟨hab, hb⟩
  · rintro ⟨hij, hj⟩
    exact ⟨i, by omega, j, ⟨hj, hij⟩, rfl, rfl⟩

end Rows

theorem forM_ok {α ε : Type} {f : α → Except ε Unit} {l : List α} (h : ∀ v ∈ l, f v = .ok ()) :
    l.forM f = .ok () := by
  induction l with
  | nil => rfl
  | cons v l ih =>
    show (f v >>= fun _ => l.forM f) = .ok ()
    rw [h v List.mem_cons_self]
    exact ih fun w hw => h w (List.mem_cons_of_mem v hw)

/-- A new pair closes no cycle when its second node does not reach its first: a cycle through the
pair would be such a path. -/
theorem acyclic_insert {α : Type} {r r' : α → α → Prop} {u v : α}
    (hac : ∀ w, ¬ TransGen r w w) (h : ∀ a b, r' a b → r a b ∨ (a = u ∧ b = v))
    (hcyc : ¬ ReflTransGen r v u) (w : α) : ¬ TransGen r' w w := by
  have key : ∀ a b, TransGen r' a b → TransGen r a b ∨
      (ReflTransGen r a u ∧ ReflTransGen r v b) := by
    intro a b hab
    induction hab with
    | single hst =>
      rcases h _ _ hst with hst | ⟨rfl, rfl⟩
      · exact Or.inl (TransGen.single hst)
      · exact Or.inr ⟨ReflTransGen.refl, ReflTransGen.refl⟩
    | tail _ hst ih =>
      rcases h _ _ hst with hst | ⟨rfl, rfl⟩
      · rcases ih with ih | ⟨ih1, ih2⟩
        · exact Or.inl (ih.tail hst)
        · exact Or.inr ⟨ih1, ih2.tail hst⟩
      · rcases ih with ih | ⟨ih1, -⟩
        · exact Or.inr ⟨ih.to_reflTransGen, ReflTransGen.refl⟩
        · exact Or.inr ⟨ih1, ReflTransGen.refl⟩
  intro hw
  rcases key w w hw with h1 | ⟨h1, h2⟩
  · exact hac w h1
  · exact hcyc (h2.trans h1)

/-! ## The directed core -/

/-- `DirectedCore` (`directed.rs:28-34`); the insertion scratch is not part of the graph. -/
structure DirectedCore where
  nodes : List NodeRef
  children : List (List Nat)
  parents : List (List Nat)

namespace DirectedCore

def new : DirectedCore := ⟨[], [], []⟩

def nodeCount (c : DirectedCore) : Nat := c.nodes.length

def childrenOf (c : DirectedCore) (id : Nat) : List Nat := row c.children id

def parentsOf (c : DirectedCore) (id : Nat) : List Nat := row c.parents id

/-- `a → b` is an edge. -/
def Dir (c : DirectedCore) (a b : Nat) : Prop := b ∈ c.childrenOf a

/-- `directed.rs:77-83`. -/
def pushLabeled (c : DirectedCore) (node : NodeRef) : Except GraphError (DirectedCore × Nat) :=
  if c.nodes.length ≤ u32Max then
    .ok (⟨c.nodes ++ [node], c.children ++ [[]], c.parents ++ [[]]⟩, c.nodes.length)
  else .error .tooManyNodes

/-- `directed.rs:176-179`. -/
def pushUnchecked (c : DirectedCore) (src dst : Nat) : DirectedCore :=
  ⟨c.nodes, pushRow c.children src dst, pushRow c.parents dst src⟩

end DirectedCore

/-- `bfs_reaches` (`algo.rs:20-46`): whether `src` reaches `dst` over `children`. The scan of a
node's children stops at `dst` before it marks anything. -/
def bfsReaches (children : List (List Nat)) (src dst : Nat) : Bool :=
  if src = dst then true
  else if children.length ≤ src ∨ children.length ≤ dst then false
  else search (row children) (fun n => (row children n).contains dst) (children.length + 1) [src]

/-- `closure_into` (`algo.rs:53-80`): the seeds below `n` and every node an edge `keep` accepts
leads to. -/
def closureInto (n : Nat) (next : Nat → List Nat) (seeds : List Nat) (keep : Nat → Nat → Bool) :
    Finset Nat :=
  closure (fun u => (next u).filter (keep u)) (n + 1) (seeds.filter (· < n))

namespace DirectedCore

/-- `DirectedCore::try_insert` (`directed.rs:155-172`): duplicate, then cycle, then the edge. -/
def tryInsert (c : DirectedCore) (src dst : Nat) : Except GraphError DirectedCore :=
  if (c.childrenOf src).contains dst then .error (.duplicateEdge src dst)
  else if bfsReaches c.children dst src then .error (.cycle src dst)
  else .ok (c.pushUnchecked src dst)

/-- What the checked constructors keep of a directed core. -/
structure Valid (c : DirectedCore) : Prop where
  children_length : c.children.length = c.nodeCount
  parents_length : c.parents.length = c.nodeCount
  in_range : ∀ a b, c.Dir a b → a < c.nodeCount ∧ b < c.nodeCount
  mirrored : ∀ a b, a ∈ c.parentsOf b ↔ c.Dir a b
  children_nodup : ∀ a, (c.childrenOf a).Nodup
  parents_nodup : ∀ a, (c.parentsOf a).Nodup
  acyclic : ∀ v, ¬ TransGen c.Dir v v
  node_ids : c.nodeCount ≤ u32Max + 1

/-- A directed core that may still hold a cycle. -/
structure Wired (c : DirectedCore) : Prop where
  children_length : c.children.length = c.nodeCount
  parents_length : c.parents.length = c.nodeCount
  in_range : ∀ a b, c.Dir a b → a < c.nodeCount ∧ b < c.nodeCount
  mirrored : ∀ a b, a ∈ c.parentsOf b ↔ c.Dir a b
  children_nodup : ∀ a, (c.childrenOf a).Nodup
  parents_nodup : ∀ a, (c.parentsOf a).Nodup
  node_ids : c.nodeCount ≤ u32Max + 1

variable {c : DirectedCore}

theorem Valid.wired (hc : c.Valid) : c.Wired :=
  ⟨hc.children_length, hc.parents_length, hc.in_range, hc.mirrored, hc.children_nodup,
    hc.parents_nodup, hc.node_ids⟩

theorem Wired.valid (hc : c.Wired) (hac : ∀ v, ¬ TransGen c.Dir v v) : c.Valid :=
  ⟨hc.children_length, hc.parents_length, hc.in_range, hc.mirrored, hc.children_nodup,
    hc.parents_nodup, hac, hc.node_ids⟩

theorem new_valid : new.Valid where
  children_length := rfl
  parents_length := rfl
  in_range := by intro a b h; exact absurd h List.not_mem_nil
  mirrored := by intro a b; exact iff_of_false List.not_mem_nil List.not_mem_nil
  children_nodup := by intro a; exact List.nodup_nil
  parents_nodup := by intro a; exact List.nodup_nil
  acyclic := by
    intro v h
    obtain ⟨u, hu, -⟩ := TransGen.head'_iff.mp h
    exact absurd hu List.not_mem_nil
  node_ids := Nat.zero_le _

variable {c' : DirectedCore} {node : NodeRef} {id u v : Nat} {u v : Nat}

theorem dir_pushLabeled
    (h : c.pushLabeled node = .ok (c', id)) (a b : Nat) : c'.Dir a b ↔ c.Dir a b := by
  unfold pushLabeled at h
  split_ifs at h
  cases h
  simp [Dir, childrenOf]

theorem pushLabeled_valid (hc : c.Valid) (h : c.pushLabeled node = .ok (c', id)) : c'.Valid := by
  have hdir := dir_pushLabeled h
  unfold pushLabeled at h
  split_ifs at h with hn
  cases h
  have hcount : nodeCount ⟨c.nodes ++ [node], c.children ++ [[]], c.parents ++ [[]]⟩ =
      c.nodeCount + 1 := by simp [nodeCount]
  refine ⟨?_, ?_, fun a b hab => ?_, fun a b => ?_, fun a => ?_, fun a => ?_, fun v hv => ?_, ?_⟩
  · rw [hcount, ← hc.children_length]; simp
  · rw [hcount, ← hc.parents_length]; simp
  · have := hc.in_range a b ((hdir a b).mp hab)
    rw [hcount]
    omega
  · rw [hdir, ← hc.mirrored]
    simp [parentsOf]
  · have := hc.children_nodup a
    simpa [childrenOf] using this
  · have := hc.parents_nodup a
    simpa [parentsOf] using this
  · exact hc.acyclic v (TransGen.mono (fun a b => (hdir a b).mp) v v hv)
  · rw [hcount]
    have : c.nodeCount ≤ u32Max := hn
    omega

theorem Wired.dir_pushUnchecked (hc : c.Wired) (hu : u < c.nodeCount) (a b : Nat) :
    (c.pushUnchecked u v).Dir a b ↔ c.Dir a b ∨ (a = u ∧ b = v) := by
  unfold Dir childrenOf pushUnchecked
  simp only
  rw [row_pushRow (by rw [hc.children_length]; exact hu)]
  split_ifs with h
  · subst h
    simp
  · simp [h]

theorem dir_pushUnchecked (hc : c.Valid) (hu : u < c.nodeCount) (a b : Nat) :
    (c.pushUnchecked u v).Dir a b ↔ c.Dir a b ∨ (a = u ∧ b = v) :=
  hc.wired.dir_pushUnchecked hu a b

/-- A new edge between nodes of the graph keeps the tables in step. -/
theorem Wired.pushUnchecked (hc : c.Wired) (hu : u < c.nodeCount)
    (hv : v < c.nodeCount) (hnew : ¬ c.Dir u v) : (c.pushUnchecked u v).Wired := by
  have hdir := hc.dir_pushUnchecked (v := v) hu
  refine ⟨?_, ?_, fun a b hab => ?_, fun a b => ?_, fun a => ?_, fun a => ?_, hc.node_ids⟩
  · simpa [DirectedCore.pushUnchecked, nodeCount] using hc.children_length
  · simpa [DirectedCore.pushUnchecked, nodeCount] using hc.parents_length
  · rcases (hdir a b).mp hab with h | ⟨rfl, rfl⟩
    · exact hc.in_range a b h
    · exact ⟨hu, hv⟩
  · rw [hdir, ← hc.mirrored]
    unfold parentsOf DirectedCore.pushUnchecked
    simp only
    rw [row_pushRow (by rw [hc.parents_length]; exact hv)]
    split_ifs with h
    · subst h
      simp
    · simp [h]
  · unfold childrenOf DirectedCore.pushUnchecked
    simp only
    rw [row_pushRow (by rw [hc.children_length]; exact hu)]
    split_ifs with h
    · subst h
      exact List.nodup_append.mpr ⟨hc.children_nodup a, List.nodup_singleton v, by
        intro x hx y hy e
        rw [List.mem_singleton.mp hy] at e
        exact hnew (e ▸ hx)⟩
    · exact hc.children_nodup a
  · unfold parentsOf DirectedCore.pushUnchecked
    simp only
    rw [row_pushRow (by rw [hc.parents_length]; exact hv)]
    split_ifs with h
    · subst h
      exact List.nodup_append.mpr ⟨hc.parents_nodup a, List.nodup_singleton u, by
        intro x hx y hy e
        rw [List.mem_singleton.mp hy] at e
        exact hnew ((hc.mirrored u a).mp (e ▸ hx))⟩
    · exact hc.parents_nodup a

/-- The nodes of the graph bound every search along its children. -/
theorem bounded_children (hc : c.Valid) {s : Nat} (hs : s < c.nodeCount) :
    Bounded (row c.children) [s] (Finset.range c.nodeCount) where
  seeds := by
    intro t ht
    rw [List.mem_singleton.mp ht]
    exact Finset.mem_range.mpr hs
  next := by
    intro u _ w hw
    exact Finset.mem_range.mpr (hc.in_range u w hw).2

/-- **`bfs_reaches` decides directed reachability.** -/
theorem bfsReaches_iff (hc : c.Valid) {a b : Nat} (ha : a < c.nodeCount) (hb : b < c.nodeCount) :
    bfsReaches c.children a b = true ↔ ReflTransGen c.Dir a b := by
  unfold bfsReaches
  split_ifs with h1 h2
  · subst h1
    simp [ReflTransGen.refl]
  · rw [hc.children_length] at h2
    omega
  · rw [search_iff (bounded_children hc ha)
      (by rw [Finset.card_range, hc.children_length]; exact Nat.lt_succ_self _)]
    constructor
    · rintro ⟨s, v, hs, hr, hg⟩
      rw [List.mem_singleton.mp hs] at hr
      exact hr.tail (by simpa using hg)
    · intro h
      rcases ReflTransGen.cases_tail h with h | ⟨v, hav, hvb⟩
      · exact absurd h.symm h1
      · refine ⟨a, v, List.mem_singleton.mpr rfl, hav, ?_⟩
        rw [List.contains_iff_mem]
        exact hvb

theorem pushUnchecked_valid (hc : c.Valid) (hu : u < c.nodeCount)
    (hv : v < c.nodeCount) (hnew : ¬ c.Dir u v) (hcyc : ¬ ReflTransGen c.Dir v u) :
    (c.pushUnchecked u v).Valid :=
  (hc.wired.pushUnchecked hu hv hnew).valid
    (acyclic_insert hc.acyclic (fun a b h => (dir_pushUnchecked hc hu a b).mp h) hcyc)

theorem tryInsert_cases (h : c.tryInsert u v = .ok c') :
    ¬ c.Dir u v ∧ bfsReaches c.children v u = false ∧ c' = c.pushUnchecked u v := by
  unfold tryInsert at h
  split_ifs at h with h1 h2
  cases h
  exact ⟨by simpa [Dir] using h1, by simpa using h2, rfl⟩

theorem tryInsert_ok (hc : c.Valid) (hu : u < c.nodeCount) (hv : v < c.nodeCount)
    (hnew : ¬ c.Dir u v) (hcyc : ¬ ReflTransGen c.Dir v u) :
    c.tryInsert u v = .ok (c.pushUnchecked u v) := by
  have hbfs : bfsReaches c.children v u = false := by
    rw [Bool.eq_false_iff]
    exact fun hr => hcyc ((bfsReaches_iff hc hv hu).mp hr)
  unfold tryInsert
  rw [if_neg (by simpa [Dir] using hnew), hbfs]
  rfl

/-- **A checked insertion keeps the core valid.** -/
theorem tryInsert_valid (hc : c.Valid) (hu : u < c.nodeCount)
    (hv : v < c.nodeCount) (h : c.tryInsert u v = .ok c') : c'.Valid := by
  obtain ⟨hnew, hcyc, rfl⟩ := tryInsert_cases h
  refine pushUnchecked_valid hc hu hv hnew fun hr => ?_
  rw [(bfsReaches_iff hc hv hu).mpr hr] at hcyc
  exact Bool.true_eq_false_eq_False hcyc

end DirectedCore

section Static

variable {G : Type} {add : G → Nat → G} {g₀ : G} (nodes : G → List NodeRef) (Q : G → Prop)

theorem foldl_static (h0 : nodes g₀ = [] ∧ Q g₀)
    (hadd : ∀ g n, (nodes g).length ≤ u32Max → Q g →
      nodes (add g n) = nodes g ++ [.static n] ∧ Q (add g n)) : ∀ {n : Nat}, n ≤ u32Max + 1 →
    nodes ((List.range n).foldl add g₀) = (List.range n).map .static ∧ Q ((List.range n).foldl add g₀)
  | 0, _ => h0
  | n + 1, hn => by
    obtain ⟨hnodes, h⟩ := foldl_static h0 hadd (Nat.le_of_succ_le hn)
    obtain ⟨hnodes', h'⟩ := hadd _ n (by simpa [hnodes] using Nat.le_of_succ_le_succ hn) h
    rw [List.range_succ, List.foldl_append, List.map_append, ← hnodes]
    exact ⟨hnodes', h'⟩

end Static

end Antecedent.Graph
