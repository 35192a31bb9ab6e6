import Antecedent.Graph.Insertion
import Antecedent.Mixed.Mutilate

/-!
# Filtered copies of an ADMG

Model of `Admg::copy_filtered` (`admg.rs:72-107`) with static index labels, with and without extra
nodes, and of the mutilated graph the mixed-source search copies (`mixed_source/search.rs:75-88`). The copy pushes
directed edges unchecked; they are edges of an acyclic graph, so the checked insertion pushes the
same ones.

* **`mutilated_mixed`**: the mutilated graph is the graph without the edges into `overline` and the
  directed edges out of `underline`.
-/

namespace Antecedent.Graph

open Mixed

namespace Admg

/-- The kept edges from `src` to its children. -/
def copyChildren (keep : Nat → Nat → Bool) (src : Nat) (out : Admg) (dst : Nat) :
    Except GraphError Admg :=
  if keep src dst then out.insertDirected src dst else .ok out

/-- The kept bidirected edges from `src` to a later node. -/
def copySiblings (keep : Nat → Nat → Bool) (src : Nat) (out : Admg) (dst : Nat) :
    Except GraphError Admg :=
  if src < dst ∧ keep src dst then out.insertBidirected src dst else .ok out

/-- One turn of the loop over the nodes. -/
def copyNode (g : Admg) (keepDirected keepBidirected : Nat → Nat → Bool) (out : Admg) (src : Nat) :
    Except GraphError Admg := do
  let out ← (g.children src).foldlM (copyChildren keepDirected src) out
  (g.bidirectedNeighbors src).foldlM (copySiblings keepBidirected src) out

/-- `admg.rs:72-107`. -/
def copyFiltered (g : Admg) (keepDirected keepBidirected : Nat → Nat → Bool) :
    Except GraphError Admg :=
  (List.range g.nodeCount).foldlM (g.copyNode keepDirected keepBidirected)
    (withVariables g.nodeCount)

/-- `Admg::copy_filtered` with `extra` more nodes behind the copied ones. -/
def copyExtended (g : Admg) (extra : Nat) (keepDirected keepBidirected : Nat → Nat → Bool) :
    Except GraphError Admg :=
  if u32Max < g.nodeCount + extra then .error .tooManyNodes
  else (List.range g.nodeCount).foldlM (g.copyNode keepDirected keepBidirected)
    (withVariables (g.nodeCount + extra))

section Copy

variable (g : Admg) (keepD keepB : Nat → Nat → Bool)

def kept : MixedGraph Nat where
  dir a b := g.mixed.dir a b ∧ keepD a b = true
  bi a b := g.mixed.bi a b ∧ keepB (min a b) (max a b) = true
  bi_symm {a b} h := ⟨g.mixed.bi_symm h.1, by rw [min_comm, max_comm]; exact h.2⟩

/-- The edges inserted at `src`. -/
def keptAt (src : Nat) : List EdgeCall :=
  ((g.children src).filter (keepD src)).map (.directed src) ++
    ((g.bidirectedNeighbors src).filter fun dst => src < dst ∧ keepB src dst).map (.bidirected src)

theorem copyNode_eq : g.copyNode keepD keepB = fun out src => (g.keptAt keepD keepB src).foldlM insertEdge out := by
  funext out src
  unfold copyNode keptAt
  simp only [List.foldlM_append, List.foldlM_map, List.foldlM_filter, decide_eq_true_eq]
  rfl

theorem mem_keptAt {e : EdgeCall} {src : Nat} : e ∈ g.keptAt keepD keepB src ↔
    (∃ dst, e = .directed src dst ∧ g.mixed.dir src dst ∧ keepD src dst = true) ∨
    ∃ dst, e = .bidirected src dst ∧ g.mixed.bi src dst ∧ src < dst ∧ keepB src dst = true := by
  unfold keptAt
  simp only [List.mem_append, List.mem_map, List.mem_filter, decide_eq_true_eq]
  refine or_congr (exists_congr fun dst => ?_) (exists_congr fun dst => ?_)
  · exact ⟨fun h => ⟨h.2.symm, h.1⟩, fun h => ⟨h.2, h.1.symm⟩⟩
  · exact ⟨fun h => ⟨h.2.symm, h.1⟩, fun h => ⟨h.2, h.1.symm⟩⟩

theorem nodup_kept : ((List.range g.nodeCount).flatMap (g.keptAt keepD keepB)).Nodup := by
  refine List.nodup_flatMap.mpr ⟨fun src _ => List.Nodup.append ?_ ?_ ?_, ?_⟩
  · exact ((g.valid.children_nodup src).filter _).map fun _ _ h => (EdgeCall.directed.inj h).2
  · exact ((g.biValid.nodup src).filter _).map fun _ _ h => (EdgeCall.bidirected.inj h).2
  · intro e he he'
    obtain ⟨_, -, rfl⟩ := List.mem_map.mp he
    obtain ⟨_, -, he'⟩ := List.mem_map.mp he'
    cases he'
  · refine List.nodup_range.imp fun {src src'} hne e he he' => hne ?_
    rcases (g.mem_keptAt keepD keepB).mp he with ⟨_, rfl, -⟩ | ⟨_, rfl, -⟩ <;>
      rcases (g.mem_keptAt keepD keepB).mp he' with ⟨_, h, -⟩ | ⟨_, h, -⟩ <;> cases h <;> rfl

variable {g keepD keepB} {n : Nat}

/-- The loop over the nodes, from a graph without edges over at least as many nodes. -/
theorem copyLoop_ok (hgn : g.nodeCount ≤ n) (hn : n ≤ u32Max + 1) :
    ∃ out, (List.range g.nodeCount).foldlM (g.copyNode keepD keepB) (withVariables n) = .ok out ∧
      out.nodeCount = n ∧ (∀ a b, out.mixed.dir a b ↔ g.mixed.dir a b ∧ keepD a b = true) ∧
      ∀ a b, out.mixed.bi a b ↔ g.mixed.bi a b ∧ keepB (min a b) (max a b) = true := by
  obtain ⟨h0, hd0, hb0⟩ := withVariables_spec hn
  obtain ⟨out, hok, hnodes, hmixed⟩ := @insertSorted_ok (g.kept keepD keepB)
    ((List.range g.nodeCount).flatMap (g.keptAt keepD keepB)) (withVariables n)
    (fun v hv => g.acyclic v (Relation.TransGen.mono (fun _ _ h => h.1) v v hv))
    (fun a h => g.biValid.irrefl a h.1)
    (fun a b h => by
      obtain ⟨ha, hb⟩ := ends_lt (h.imp And.left And.left)
      exact ⟨by omega, by omega⟩)
    (fun p => by
      cases p with
      | directed a b => exact hd0 a b
      | bidirected a b => exact hb0 a b)
    (fun a b => by
      simp only [List.mem_flatMap, mem_keptAt, List.mem_range]
      constructor
      · rintro ⟨_, -, ⟨_, h, hab⟩ | ⟨_, h, -⟩⟩ <;> cases h
        exact hab
      · exact fun h => ⟨a, (ends_lt (Or.inl h.1)).1, Or.inl ⟨b, rfl, h⟩⟩)
    (fun a b => by
      simp only [List.mem_flatMap, mem_keptAt, List.mem_range]
      constructor
      · rintro ⟨_, -, ⟨_, h, -⟩ | ⟨_, h, hab, hlt, hk⟩⟩ <;> cases h
        exact ⟨hlt, hab, by rwa [min_eq_left hlt.le, max_eq_right hlt.le]⟩
      · rintro ⟨hlt, hab, hk⟩
        rw [min_eq_left hlt.le, max_eq_right hlt.le] at hk
        exact ⟨a, (ends_lt (Or.inr hab)).1, Or.inr ⟨b, rfl, hab, hlt, hk⟩⟩)
    (g.nodup_kept keepD keepB)
  refine ⟨out, ?_, (congrArg List.length hnodes).trans h0, fun a b => ?_, fun a b => ?_⟩
  · rw [copyNode_eq, foldlM_flatMap, hok]
  · rw [hmixed]
    exact Iff.rfl
  · rw [hmixed]
    exact Iff.rfl

/-- **The copy succeeds and keeps exactly the edges its predicates keep.** -/
theorem copyFiltered_ok {keepD keepB : Nat → Nat → Bool} (hn : g.nodeCount ≤ u32Max + 1) :
    ∃ out, g.copyFiltered keepD keepB = .ok out ∧ out.nodeCount = g.nodeCount ∧
      (∀ a b, out.mixed.dir a b ↔ g.mixed.dir a b ∧ keepD a b = true) ∧
      ∀ a b, out.mixed.bi a b ↔ g.mixed.bi a b ∧ keepB (min a b) (max a b) = true :=
  copyLoop_ok (Nat.le_refl _) hn

end Copy

/-- `mutilated` (`search.rs:75-88`): without the edges into `overline` and the directed edges out of
`underline`; a bidirected edge at a node of `overline` is an edge into it. -/
def mutilated (g : Admg) (overline underline : Finset Nat) : Except GraphError Admg :=
  g.copyFiltered (fun src dst => dst ∉ overline ∧ src ∉ underline)
    fun a b => a ∉ overline ∧ b ∉ overline

/-- **The mutilated graph.** -/
theorem mutilated_mixed (g : Admg) (overline underline : Finset Nat) :
    ∃ out, g.mutilated overline underline = .ok out ∧ out.nodeCount = g.nodeCount ∧
      out.mixed = g.mixed.mutilate overline underline := by
  obtain ⟨out, hok, hn, hdir, hbi⟩ := @copyFiltered_ok g
    (fun src dst => dst ∉ overline ∧ src ∉ underline) (fun a b => a ∉ overline ∧ b ∉ overline)
    g.valid.node_ids
  refine ⟨out, hok, hn, ?_⟩
  have hd : out.mixed.dir = (g.mixed.mutilate overline underline).dir := by
    funext a b
    rw [hdir]
    simp [MixedGraph.mutilate]
  have hb : out.mixed.bi = (g.mixed.mutilate overline underline).bi := by
    funext a b
    rw [hbi]
    rcases Nat.le_total a b with h | h
    · simp [MixedGraph.mutilate, min_eq_left h, max_eq_right h]
    · simp [MixedGraph.mutilate, min_eq_right h, max_eq_left h, and_comm]
  generalize out.mixed = H at hd hb
  obtain ⟨d, b, s⟩ := H
  obtain rfl := hd
  obtain rfl := hb
  rfl

end Admg

end Antecedent.Graph
