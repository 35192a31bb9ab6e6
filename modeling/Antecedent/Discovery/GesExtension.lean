import Antecedent.Dag.Extension
import Antecedent.Discovery.Ges
import Antecedent.Discovery.OrientationFixed

/-!
# Completing a changed graph

`pdag_to_dag` takes out one node after the other. A node it takes out has no child among those left, so
its edges can be directed into it; its new parents are adjacent to its other neighbours.

* `SinkInv.sinkable_iff`: the node the code looks for is one that some consistent extension has as a
  sink of what is left.
* **`sinkEdge_step`**: one edge of the node that is taken out.
-/

namespace Antecedent.Graph

def Dag.toDag (d : Graph.Dag) : Antecedent.Dag Nat where
  edge := d.directed.Dir
  finite := by
    refine ((Finset.range d.nodeCount ×ˢ Finset.range d.nodeCount).finite_toSet).subset ?_
    rintro ⟨a, b⟩ h
    obtain ⟨ha, hb⟩ := d.valid.in_range a b h
    exact Finset.mem_product.mpr ⟨Finset.mem_range.mpr ha, Finset.mem_range.mpr hb⟩
  acyclic := d.valid.acyclic

/-- Linked by an edge of any kind. -/
def Linked (adj : MarkedRows) (a b : Nat) : Prop := (look adj a b).isSome = true

variable {adj : MarkedRows} {a b : Nat}

theorem Stored.linked_symm {n : Nat} (h : Stored n adj)
    (hj : Linked adj a b) : Linked adj b a := by
  unfold Linked at hj ⊢
  rw [h.look_symm, Option.isSome_map]
  exact hj

theorem Dir.linked (h : Dir adj a b) : Linked adj a b := by
  obtain ⟨m, hm⟩ := h
  rw [Linked, hm]
  rfl

theorem Und.linked (h : Und adj a b) : Linked adj a b := by
  obtain ⟨m, hm⟩ := h
  rw [Linked, hm]
  rfl

end Antecedent.Graph

namespace Antecedent.Discovery

open Graph Machine Relation

variable {g work : Cpdag} {dag : Graph.Dag} {rem : List Nat} {a b c x y n : Nat}

theorem mem_sortDedup {l : List Nat} {v : Nat} : v ∈ sortDedup l ↔ v ∈ l := by
  unfold sortDedup
  rw [List.mem_dedup, List.mem_insertionSort]

/-! ## Directing the edges of a node that is taken out -/

def Extension (g : Cpdag) (H : Dag Nat) : Prop := Dag.Extends (Linked g.adj) (Dir g.adj) (Und g.adj) H

/-- The test on a node reads its neighbours among those that remain. -/
theorem isSink_iff (hx : x ∈ rem) : isSink work rem x = true ↔
    Dag.Sinkable (Linked work.adj) (Dir work.adj) (Und work.adj) {v | v ∈ rem} x := by
  have hadj : ∀ z, z ∈ sortDedup (((work.parents x).filter fun p => rem.contains p) ++
      (work.undirectedNeighbors x).filter fun n => rem.contains n) ↔
      z ∈ rem ∧ (Dir work.adj z x ∨ Und work.adj z x) := by
    intro z
    rw [mem_sortDedup, List.mem_append, List.mem_filter, List.mem_filter, work.mem_parents,
      work.mem_undirectedNeighbors, List.contains_iff_mem]
    have := @Stored.und_symm _ _ work.stored
    exact ⟨fun h => h.elim (fun h => ⟨h.2, Or.inl h.1⟩) fun h => ⟨h.2, Or.inr (this h.1)⟩,
      fun h => h.2.imp (fun hd => ⟨hd, h.1⟩) fun hu => ⟨this hu, h.1⟩⟩
  unfold isSink
  split_ifs with hout
  · obtain ⟨c, hc, hmem⟩ := List.any_eq_true.mp hout
    refine iff_of_false id fun h => ?_
    exact h.last c (List.contains_iff_mem.mp hmem) (work.mem_children.mp hc)
  · have hlast : ∀ c ∈ rem, ¬ Dir work.adj x c := fun c hc hd => hout (List.any_eq_true.mpr
      ⟨c, work.mem_children.mpr hd, List.contains_iff_mem.mpr hc⟩)
    have hund : ∀ u, u ∈ ((work.undirectedNeighbors x).filter fun n => rem.contains n) ↔
        u ∈ rem ∧ Und work.adj u x := by
      intro u
      rw [List.mem_filter, work.mem_undirectedNeighbors, List.contains_iff_mem]
      exact ⟨fun h => ⟨h.2, work.stored.und_symm h.1⟩, fun h => ⟨work.stored.und_symm h.2, h.1⟩⟩
    rw [List.all_eq_true]
    constructor
    · intro h
      refine ⟨hx, hlast, fun u hu hux z hz hzx hne => ?_⟩
      have huz := List.all_eq_true.mp (h u ((hund u).mpr ⟨hu, hux⟩)) z ((hadj z).mpr ⟨hz, hzx⟩)
      simp only [Bool.not_eq_true', Bool.and_eq_false_iff, bne_eq_false_iff_eq, Bool.not_eq_false'] at huz
      exact work.hasEdge_iff.mp (huz.resolve_left hne)
    · intro h u hu
      obtain ⟨hu, hux⟩ := (hund u).mp hu
      refine List.all_eq_true.mpr fun z hz => ?_
      obtain ⟨hz, hzx⟩ := (hadj z).mp hz
      simp only [Bool.not_eq_true', Bool.and_eq_false_iff, bne_eq_false_iff_eq, Bool.not_eq_false']
      by_cases hne : z = u
      · exact Or.inl hne
      · exact Or.inr (work.hasEdge_iff.mpr (h.clique u hu hux z hz hzx hne))

/-- While nodes are taken out of `g`: the edges among those that remain are as in `g`, the others are
directed, lead out of what remains, and make no new unshielded collider. -/
structure SinkInv (g work : Cpdag) (dag : Graph.Dag) (rem : List Nat) : Prop where
  nodes : work.nodes = g.nodes
  count : dag.nodes = g.nodes
  same : ∀ a b, dag.directed.Dir a b ↔ Dir work.adj a b
  linked : ∀ a b, Linked work.adj a b ↔ Linked g.adj a b
  mono : ∀ a b, Dir g.adj a b → Dir work.adj a b
  edges : ∀ a b, Dir work.adj a b ∨ Dir work.adj b a ∨ Und work.adj a b ↔
    Dir g.adj a b ∨ Dir g.adj b a ∨ Und g.adj a b
  dir : ∀ a b, a ∈ rem → b ∈ rem → Dir work.adj a b → Dir g.adj a b
  und : ∀ a b, Und work.adj a b ↔ Und g.adj a b ∧ a ∈ rem ∧ b ∈ rem
  down : ∀ a b, Dir work.adj a b → b ∈ rem → a ∈ rem
  collider : ∀ a c b, c ∉ rem → Dir work.adj a c → Dir work.adj b c → a ≠ b → ¬ Linked g.adj a b →
    Dir g.adj a c

theorem SinkInv.sinkable_iff (h : SinkInv g work dag rem) :
    Dag.Sinkable (Linked work.adj) (Dir work.adj) (Und work.adj) {v | v ∈ rem} x ↔
      Dag.Sinkable (Linked g.adj) (Dir g.adj) (Und g.adj) {v | v ∈ rem} x := by
  have hd : ∀ {a b}, a ∈ rem → b ∈ rem → (Dir work.adj a b ↔ Dir g.adj a b) := fun {a b} ha hb =>
    ⟨h.dir a b ha hb, h.mono a b⟩
  have hu : ∀ {a b}, a ∈ rem → b ∈ rem → (Und work.adj a b ↔ Und g.adj a b) := fun {a b} ha hb =>
    (h.und a b).trans (and_iff_left ⟨ha, hb⟩)
  constructor
  · rintro ⟨hx, hlast, hcl⟩
    refine ⟨hx, fun c hc hxc => hlast c hc ((hd hx hc).mpr hxc), fun u hur hux z hz hzx hne => ?_⟩
    exact (h.linked u z).mp (hcl u hur ((hu hur hx).mpr hux) z hz
      (hzx.imp (hd hz hx).mpr (hu hz hx).mpr) hne)
  · rintro ⟨hx, hlast, hcl⟩
    refine ⟨hx, fun c hc hxc => hlast c hc ((hd hx hc).mp hxc), fun u hur hux z hz hzx hne => ?_⟩
    exact (h.linked u z).mpr (hcl u hur ((hu hur hx).mp hux) z hz
      (hzx.imp (hd hz hx).mp (hu hz hx).mp) hne)

/-- While the undirected edges of `x` are directed into it; those of `todo` are still to come. -/
structure IntoInv (g₀ work : Cpdag) (dag : Graph.Dag) (rem : List Nat) (x : Nat) (todo : List Nat) :
    Prop where
  nodes : work.nodes = g₀.nodes
  count : dag.nodes = g₀.nodes
  same : ∀ a b, dag.directed.Dir a b ↔ Dir work.adj a b
  linked : ∀ a b, Linked work.adj a b ↔ Linked g₀.adj a b
  dir : ∀ a b, Dir work.adj a b ↔ Dir g₀.adj a b ∨ (Und g₀.adj a x ∧ b = x ∧ a ∉ todo)
  und : ∀ a b, Und work.adj a b ↔ Und g₀.adj a b ∧ (b = x → a ∈ todo) ∧ (a = x → b ∈ todo)
  pending : ∀ u ∈ todo, Und g₀.adj u x ∧ u ∈ rem
  nodup : todo.Nodup

theorem sinkEdge_step {g₀ : Cpdag} (hdown : ∀ a b, Dir g₀.adj a b → b ∈ rem → a ∈ rem)
    (hlast : ∀ c ∈ rem, ¬ Dir g₀.adj x c) (u : Nat) (todo : List Nat) (s : Cpdag × Graph.Dag)
    (h : IntoInv g₀ s.1 s.2 rem x (u :: todo)) :
    ∃ s', sinkEdge rem x s u = .ok s' ∧ IntoInv g₀ s'.1 s'.2 rem x todo := by
  obtain ⟨work, dag⟩ := s
  obtain ⟨hux, hur⟩ := h.pending u (.head _)
  obtain ⟨hnot, hnd⟩ := List.nodup_cons.mp h.nodup
  have hund : Und work.adj u x := (h.und u x).mpr ⟨hux, fun _ => .head _, fun he => by
    subst he
    exact absurd rfl (g₀.stored.ne_of_look hux.choose_spec)⟩
  -- what lies below `x` has been taken out
  have hbelow : ∀ {v}, ReflTransGen (Dir work.adj) x v → v = x ∨ v ∉ rem := by
    intro v hv
    induction hv with
    | refl => exact Or.inl rfl
    | @tail v w _ hvw ih =>
      rcases (h.dir v w).mp hvw with hd | ⟨-, rfl, -⟩
      · refine Or.inr fun hw => ?_
        rcases ih with rfl | hv
        · exact hlast w hw hd
        · exact hv (hdown v w hd hw)
      · exact Or.inl rfl
  have hne : u ≠ x := g₀.stored.ne_of_look hux.choose_spec
  have hcyc : ¬ ReflTransGen (Dir work.adj) x u := fun hr =>
    (hbelow hr).elim hne fun hu => hu hur
  obtain ⟨m, hm⟩ := id hund
  obtain ⟨work', hok⟩ := work.orientUndirected_ok hm rfl hcyc
  have ho := Pdag.oriented_of_ok hok
  obtain ⟨hlu, hlx⟩ := work.stored.lt_of_look hm
  have hcount : dag.directed.nodeCount = work.nodes.length :=
    congrArg List.length (h.count.trans h.nodes.symm)
  obtain ⟨dag', hdag, hnodes, hdd⟩ := DagTarget.insertDirected_ok (κ := .static) dag u x
    (by show u < dag.directed.nodeCount; rw [hcount]; exact hlu)
    (by show x < dag.directed.nodeCount; rw [hcount]; exact hlx) rfl rfl
    (fun hd => hund.not_dir ((h.same u x).mp hd))
    (fun hr => hcyc (ReflTransGen.mono (fun a b hab => (h.same a b).mp hab) _ _ hr))
  refine ⟨(work', dag'), ?_, ho.nodes.trans h.nodes, hnodes.trans h.count, fun a b => ?_, fun a b => ?_,
    fun a b => ?_, fun a b => ?_, fun v hv => h.pending v (.tail _ hv), hnd⟩
  · have hd : dag.insertDirected u x = .ok dag' := hdag
    unfold sinkEdge
    rw [if_pos (List.contains_iff_mem.mpr hur)]
    simp only [hok, liftGraph, bind, Except.bind, hd]
    rfl
  · exact (hdd a b).trans ((or_congr_left (h.same a b)).trans (ho.dir a b).symm)
  · unfold Linked
    rw [ho.edge]
    exact h.linked a b
  · rw [ho.dir, h.dir]
    constructor
    · rintro ((hd | ⟨hu, rfl, hn⟩) | ⟨rfl, rfl⟩)
      · exact Or.inl hd
      · exact Or.inr ⟨hu, rfl, fun hc => hn (.tail _ hc)⟩
      · exact Or.inr ⟨hux, rfl, hnot⟩
    · rintro (hd | ⟨hu, rfl, hn⟩)
      · exact Or.inl (Or.inl hd)
      · by_cases he : a = u
        · exact Or.inr ⟨he, rfl⟩
        · exact Or.inl (Or.inr ⟨hu, rfl, fun hc => (List.mem_cons.mp hc).elim he hn⟩)
  · rw [ho.und, h.und]
    constructor
    · rintro ⟨⟨hu, h1, h2⟩, h3, h4⟩
      exact ⟨hu, fun hb => (List.mem_cons.mp (h1 hb)).resolve_left fun he => h3 ⟨he, hb⟩,
        fun ha => (List.mem_cons.mp (h2 ha)).resolve_left fun he => h4 ⟨ha, he⟩⟩
    · rintro ⟨hu, h1, h2⟩
      refine ⟨⟨hu, fun hb => .tail _ (h1 hb), fun ha => .tail _ (h2 ha)⟩, ?_, ?_⟩
      · rintro ⟨rfl, hb⟩
        exact hnot (h1 hb)
      · rintro ⟨ha, rfl⟩
        exact hnot (h2 ha)

end Antecedent.Discovery
