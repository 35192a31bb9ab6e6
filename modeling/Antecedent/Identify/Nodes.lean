import Antecedent.Graph.Admg
import Antecedent.Mixed.Mutilate
import Mathlib.Data.Fintype.Basic

/-!
# An ADMG on its own nodes

The nodes of an ADMG are the positions below its node count. The models of a graph live on `Fin n`;
`lift` carries a set of positions there.

* `mem_ancSet_onNodes`: ancestral sets are the same on both sides.
-/

namespace Antecedent.Identify

open Finset
open Graph
open Mixed

def onNodes (graph : Admg) : MixedGraph (Fin graph.nodeCount) := graph.mixed.comap Fin.val

/-- The nodes at some positions. -/
def lift (n : Nat) (s : Finset Nat) : Finset (Fin n) := univ.filter fun i => i.val ∈ s

section Lift

variable {n : Nat} {s t : Finset Nat}

@[simp] theorem mem_lift {i : Fin n} : i ∈ lift n s ↔ i.val ∈ s := by simp [lift]

theorem lift_union : lift n (s ∪ t) = lift n s ∪ lift n t := by
  ext i
  simp

theorem lift_sdiff : lift n (s \ t) = lift n s \ lift n t := by
  ext i
  simp

@[simp] theorem lift_empty : lift n ∅ = ∅ := by
  ext i
  simp

theorem disjoint_lift (h : Disjoint s t) : Disjoint (lift n s) (lift n t) :=
  disjoint_left.mpr fun _ hi hj => disjoint_left.mp h (mem_lift.mp hi) (mem_lift.mp hj)

theorem image_lift (h : ∀ v ∈ s, v < n) : Fin.val '' (lift n s : Set (Fin n)) = (s : Set Nat) := by
  ext v
  simp only [Set.mem_image, mem_coe, mem_lift]
  exact ⟨fun ⟨i, hi, e⟩ => e ▸ hi, fun hv => ⟨⟨v, h v hv⟩, hv, rfl⟩⟩

end Lift

variable {graph : Admg}

theorem comap_mutilate (O U : Finset Nat) :
    (graph.mixed.mutilate O U).comap (Fin.val : Fin graph.nodeCount → Nat) =
      (onNodes graph).mutilate (lift graph.nodeCount O) (lift graph.nodeCount U) := by
  simp only [onNodes, MixedGraph.comap, MixedGraph.mutilate, mem_coe, mem_lift]

theorem onNodes_acyclic (graph : Admg) : (onNodes graph).Acyclic :=
  MixedGraph.Acyclic.comap graph.acyclic Fin.val

theorem mem_ancSet_onNodes {O S : Finset Nat} (hS : ∀ v ∈ S, v < graph.nodeCount)
    {i : Fin graph.nodeCount} :
    i ∈ ((onNodes graph).mutilate (lift graph.nodeCount O) ∅).AncSet (lift graph.nodeCount S) ↔
      i.val ∈ (graph.mixed.mutilate O ∅).AncSet S := by
  constructor
  · rintro ⟨z, hz, hiz⟩
    exact ⟨z.val, mem_lift.mp hz, Relation.ReflTransGen.lift Fin.val
      (fun a b h => ⟨h.1, fun ho => h.2.1 (mem_lift.mpr ho), Set.notMem_empty _⟩) _ _ hiz⟩
  · rintro ⟨z, hz, hiz⟩
    have key : ∀ {a b : Nat}, (graph.mixed.mutilate O ∅).Anc a b → ∀ hb : b < graph.nodeCount,
        ∃ ha : a < graph.nodeCount,
          ((onNodes graph).mutilate (lift graph.nodeCount O) ∅).Anc ⟨a, ha⟩ ⟨b, hb⟩ := by
      intro a b hab
      induction hab using Relation.ReflTransGen.head_induction_on with
      | refl => exact fun hb => ⟨hb, .refl⟩
      | head hac _ ih =>
        intro hb
        obtain ⟨hc', h⟩ := ih hb
        have ha := (graph.valid.in_range _ _ hac.1).1
        have hstep : ((onNodes graph).mutilate (lift graph.nodeCount O) ∅).dir ⟨_, ha⟩ ⟨_, hc'⟩ :=
          ⟨hac.1, fun ho => hac.2.1 (mem_lift.mp ho), Set.notMem_empty _⟩
        exact ⟨ha, .head hstep h⟩
    obtain ⟨_, h⟩ := key hiz (hS z hz)
    exact ⟨⟨z, hS z hz⟩, mem_lift.mpr hz, h⟩

end Antecedent.Identify
