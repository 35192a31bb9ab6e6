import Antecedent.Graph.Districts
import Antecedent.Search.Kahn
import Mathlib.Data.Finset.Sort

/-!
# Order, ancestry and districts of a part of an ADMG

Model of `Admg::topological_order`, `ancestors_within` and `district_components_within`
(`admg.rs:572-617`): what identification asks of the subgraph a set of nodes induces.

* `mem_ancestorsWithin`: the ancestors inside a set, without the edges into the barred nodes.
* **`components_spec`**: the districts of a set are its nonempty bidirected-connected blocks.
-/

namespace Antecedent.Graph

open Mixed
open Worklist

namespace Admg

variable (g : Admg) {v : Nat}

/-! ## The topological order -/

theorem kahnGraph : Kahn.Graph g.children (Finset.range g.nodeCount) where
  in_range u _ c hc := Finset.mem_range.mpr (g.valid.in_range u c hc).2
  nodup := g.valid.children_nodup
  acyclic := g.acyclic

theorem card_parents : (g.parents v).length =
    ((Finset.range g.nodeCount).filter fun u => v ∈ g.children u).card := by
  refine (List.toFinset_card_of_nodup (g.valid.parents_nodup v)).symm.trans ?_
  congr 1
  ext u
  rw [List.mem_toFinset, Finset.mem_filter, Finset.mem_range]
  constructor
  · intro hu
    have hd := (g.valid.mirrored u v).mp hu
    exact ⟨(g.valid.in_range u v hd).1, hd⟩
  · rintro ⟨-, hd⟩
    exact (g.valid.mirrored u v).mpr hd

/-- A pop of `kahn_order` appends the node. -/
def orderVisit : Kahn.Visit Nat (List Nat) := fun v order => (order ++ [v], fun _ order => order)

/-- `Admg::topological_order` (`admg.rs:572-574`, `kahn_order`, `algo.rs:196-223`): the last node
pushed is popped first. -/
def topologicalOrder : Option (List Nat) :=
  let order := (Kahn.run g.children orderVisit (g.nodeCount + 1)
    ⟨fun v => (g.parents v).length,
      ((List.range g.nodeCount).filter fun v => (g.parents v).length = 0).reverse, []⟩).acc
  if order.length = g.nodeCount then some order else none

theorem foldl_orderVisit (children : Nat → List Nat) : ∀ (order acc : List Nat),
    order.foldl (Kahn.visitAll children orderVisit) acc = acc ++ order
  | [], acc => by simp
  | v :: order, acc => by
    have hv : Kahn.visitAll children orderVisit acc v = acc ++ [v] := by
      unfold Kahn.visitAll orderVisit
      exact List.foldl_fixed' (fun _ => rfl) _
    rw [List.foldl_cons, hv, foldl_orderVisit children order, List.append_assoc]
    rfl

/-- **An ADMG has a topological order.** -/
theorem topologicalOrder_spec : ∃ order, g.topologicalOrder = some order ∧
    Kahn.Topological g.children (Finset.range g.nodeCount) order := by
  have hready : ∀ v, v ∈ ((List.range g.nodeCount).filter fun v =>
      (g.parents v).length = 0).reverse ↔ v ∈ Finset.range g.nodeCount ∧
        (g.parents v).length = 0 := fun v => by simp
  have hfuel : (Finset.range g.nodeCount).card < g.nodeCount + 1 := by
    rw [Finset.card_range]
    exact Nat.lt_succ_self _
  obtain ⟨order, htop, hacc⟩ := Kahn.run_spec orderVisit [] g.kahnGraph
    (fun v _ => g.card_parents) hready (List.nodup_reverse.mpr (List.nodup_range.filter _)) hfuel
  rw [foldl_orderVisit, List.nil_append] at hacc
  have hlen : order.length = g.nodeCount := by
    rw [← List.toFinset_card_of_nodup htop.nodup, ← Finset.card_range g.nodeCount]
    congr 1
    ext v
    rw [List.mem_toFinset, htop.mem]
  refine ⟨order, ?_, htop⟩
  unfold topologicalOrder
  simp only [hacc]
  rw [if_pos hlen]

/-! ## Ancestors inside a set -/

/-- `Admg::ancestors_within` (`admg.rs:600-617`); no barred set is the empty one. -/
def ancestorsWithin (seeds active barX : Finset Nat) : Finset Nat :=
  closureInto g.nodeCount g.parents ((seeds ∩ active).sort (· ≤ ·)) fun u p =>
    u ∉ barX ∧ p ∈ active

/-- One directed edge inside `active` of the graph without the edges into `barX`. -/
def Up (active barX : Finset Nat) (u p : Nat) : Prop := g.mixed.dir p u ∧ u ∉ barX ∧ p ∈ active

variable {g} {seeds active barX : Finset Nat}

theorem mem_ancestorsWithin : v ∈ g.ancestorsWithin seeds active barX ↔
    ∃ s ∈ seeds, s ∈ active ∧ s < g.nodeCount ∧
      Relation.ReflTransGen (g.Up active barX) s v := by
  have hrange : ∀ u w, w ∈ g.parents u → w < g.nodeCount := fun u w hw =>
    (g.valid.in_range w u ((g.valid.mirrored w u).mp hw)).1
  unfold ancestorsWithin
  rw [mem_closureInto hrange]
  have hrel : (fun a b => b ∈ g.parents a ∧ decide (a ∉ barX ∧ b ∈ active) = true) =
      g.Up active barX := by
    funext a b
    rw [decide_eq_true_eq]
    exact propext (and_congr (g.valid.mirrored b a) Iff.rfl)
  simp only [hrel, Finset.mem_sort, Finset.mem_inter, and_assoc]

theorem mem_active_of_up {s v : Nat} (hs : s ∈ active)
    (h : Relation.ReflTransGen (g.Up active barX) s v) : v ∈ active := by
  induction h with
  | refl => exact hs
  | tail _ h _ => exact h.2.2

theorem ancestorsWithin_subset : g.ancestorsWithin seeds active barX ⊆ active := by
  intro v hv
  obtain ⟨s, -, hs, -, h⟩ := mem_ancestorsWithin.mp hv
  exact mem_active_of_up hs h

theorem seed_mem_ancestorsWithin (hv : v ∈ seeds) (ha : v ∈ active)
    (hn : v < g.nodeCount) : v ∈ g.ancestorsWithin seeds active barX :=
  mem_ancestorsWithin.mpr ⟨v, hv, ha, hn, .refl⟩

theorem parent_mem_ancestorsWithin {u p : Nat} (hu : u ∈ g.ancestorsWithin seeds active barX)
    (h : g.mixed.dir p u) (hb : u ∉ barX) (hp : p ∈ active) :
    p ∈ g.ancestorsWithin seeds active barX := by
  obtain ⟨s, hs, ha, hn, hr⟩ := mem_ancestorsWithin.mp hu
  exact mem_ancestorsWithin.mpr ⟨s, hs, ha, hn, hr.tail ⟨h, hb, hp⟩⟩

/-! ## Districts of a set -/

variable (g) in
/-- Lines 582-592. -/
def districtComponentsWithin (nodes : Finset Nat) : List (Finset Nat) :=
  let labels := g.districtsInto fun v => v ∈ nodes
  (List.range labels.next).map fun k => nodes.filter fun v => labels.label v = some k

theorem districtsInto_used (g : Admg) (inside : Nat → Bool) :
    ∀ i < (g.districtsInto inside).next, ∃ v, (g.districtsInto inside).label v = some i := by
  have key : ∀ k, k ≤ g.nodeCount → ∀ i < ((List.range k).foldl (g.labelFrom inside)
      ⟨fun _ => none, 0⟩).next, ∃ v, ((List.range k).foldl (g.labelFrom inside)
        ⟨fun _ => none, 0⟩).label v = some i := by
    intro k
    induction k with
    | zero => intro _ i hi; exact absurd hi (Nat.not_lt_zero _)
    | succ k ih =>
      intro hk i hi
      rw [List.range_succ, List.foldl_append] at hi ⊢
      have hinv := labelInv_upto g inside (Nat.le_of_succ_le hk)
      set st := (List.range k).foldl (g.labelFrom inside) ⟨fun _ => none, 0⟩
      have ih := ih (by omega)
      simp only [List.foldl_cons, List.foldl_nil] at hi ⊢
      unfold labelFrom at hi ⊢
      split_ifs at hi ⊢ with hc
      · exact ih i hi
      · simp only [Bool.or_eq_true, Bool.not_eq_true', not_or, Bool.not_eq_false,
          Option.not_isSome_iff_eq_none] at hc
        obtain ⟨hnone, hin⟩ := hc
        have hcomp := mem_component hinv (by omega : k < g.nodeCount) hin hnone
        rcases Nat.lt_succ_iff_lt_or_eq.mp hi with hi | rfl
        · obtain ⟨v, hv⟩ := ih i hi
          refine ⟨v, (if_neg ?_).trans hv⟩
          intro hm
          have := hinv.closed v k i hv (MixedGraph.District.symm ((hcomp v).mp hm))
          rw [hnone] at this
          exact absurd this (by simp)
        · exact ⟨k, if_pos ((hcomp k).mpr .refl)⟩
  exact key _ (Nat.le_refl _)

/-- The blocks a list of sets cuts `nodes` into: nonempty, each bidirected-connected inside `nodes`,
and no bidirected edge between two of them. -/
structure Components (g : Admg) (nodes : Finset Nat) (comps : List (Finset Nat)) : Prop where
  sub : ∀ C ∈ comps, C ⊆ nodes
  nonempty : ∀ C ∈ comps, C.Nonempty
  cover : ∀ v ∈ nodes, ∃ C ∈ comps, v ∈ C
  joined : ∀ C ∈ comps, ∀ u ∈ C, ∀ v ∈ C, g.mixed.District (nodes : Set Nat) u v
  closed : ∀ C ∈ comps, ∀ u ∈ C, ∀ v, g.mixed.District (nodes : Set Nat) u v → v ∈ C
  apart : comps.Pairwise fun C D => Disjoint C D ∧ ∀ c ∈ C, ∀ d ∈ D, ¬ g.mixed.bi c d

theorem Components.eq_of_single {g : Admg} {nodes s : Finset Nat} (h : g.Components nodes [s]) :
    s = nodes := by
  refine Finset.Subset.antisymm (h.sub s (List.mem_singleton_self s)) fun u hu => ?_
  obtain ⟨C, hC, huC⟩ := h.cover u hu
  rwa [← List.mem_singleton.mp hC]

/-- **The districts of a set of nodes.** -/
theorem components_spec {nodes : Finset Nat} (hn : ∀ v ∈ nodes, v < g.nodeCount) :
    g.Components nodes (g.districtComponentsWithin nodes) := by
  have hinv := districtsInto_inv g fun v => v ∈ nodes
  have hused := districtsInto_used g fun v => v ∈ nodes
  unfold districtComponentsWithin
  set labels := g.districtsInto fun v => v ∈ nodes
  have hset : {v | decide (v ∈ nodes) = true} = (nodes : Set Nat) := by
    ext v
    simp
  have hclosed : ∀ u v i, labels.label u = some i → g.mixed.District (nodes : Set Nat) u v →
      labels.label v = some i := fun u v i h hd => hinv.closed u v i h (hset ▸ hd)
  have hjoined : ∀ u v i, labels.label u = some i → labels.label v = some i →
      g.mixed.District (nodes : Set Nat) u v := fun u v i h h' => hset ▸ hinv.joined u v i h h'
  have mem : ∀ {k v}, v ∈ nodes.filter (fun v => labels.label v = some k) ↔
      v ∈ nodes ∧ labels.label v = some k := Finset.mem_filter
  refine ⟨fun C hC => ?_, fun C hC => ?_, fun v hv => ?_, fun C hC u hu v hv => ?_,
    fun C hC u hu v hd => ?_, ?_⟩
  · obtain ⟨k, -, rfl⟩ := List.mem_map.mp hC
    exact Finset.filter_subset _ _
  · obtain ⟨k, hk, rfl⟩ := List.mem_map.mp hC
    obtain ⟨v, hv⟩ := hused k (List.mem_range.mp hk)
    exact ⟨v, mem.mpr ⟨by simpa using (hinv.mem v k hv).1, hv⟩⟩
  · obtain ⟨i, hi⟩ := hinv.covered v (hn v hv) (by simpa using hv)
    exact ⟨_, List.mem_map_of_mem (List.mem_range.mpr (hinv.mem v i hi).2.2), mem.mpr ⟨hv, hi⟩⟩
  · obtain ⟨k, -, rfl⟩ := List.mem_map.mp hC
    exact hjoined u v k (mem.mp hu).2 (mem.mp hv).2
  · obtain ⟨k, -, rfl⟩ := List.mem_map.mp hC
    exact mem.mpr ⟨MixedGraph.District.mem hd (mem.mp hu).1, hclosed u v k (mem.mp hu).2 hd⟩
  · rw [List.pairwise_map]
    refine List.nodup_range.imp_of_mem fun {i j} _ _ hij => ⟨?_, fun c hc d hd hcd => hij ?_⟩
    · refine Finset.disjoint_left.mpr fun v hv hv' => hij ?_
      have h := (mem.mp hv).2
      rw [(mem.mp hv').2] at h
      exact (Option.some.inj h).symm
    · have h := hclosed c d i (mem.mp hc).2 (.single ⟨(mem.mp hc).1, (mem.mp hd).1, hcd⟩)
      rw [(mem.mp hd).2] at h
      exact (Option.some.inj h).symm

end Admg

end Antecedent.Graph
