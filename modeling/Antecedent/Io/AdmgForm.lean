import Antecedent.Graph.Insertion
import Antecedent.Io.GraphForms

/-!
# The wire form of an ADMG

The decoder inserts the directed edges first and then the bidirected ones; a pair may carry both.

* `admg_directed_inserts`, `admg_bidirected_inserts`: the insertions.
* **`admg_form`**: what `admg_to_wire` and `admg_from_wire` do.
-/

namespace Antecedent.Io

open Graph
open Machine

/-- A statement of a bidirected edge of `r`. -/
def BiStates (r : Nat → Nat → Prop) (p : Statement) : Prop :=
  p.2.2 = (.arrow, .arrow, .empty) ∧ r p.1 p.2.1

variable {g : Admg} {p : Statement}

theorem admg_holds :
    GraphView.Holds g p ↔ DirStates g.mixed.dir p ∨ BiStates g.mixed.bi p := Iff.rfl

theorem dirStates_not_bi {r s : Nat → Nat → Prop} (h : DirStates r p) :
    ¬ BiStates s p := by
  rintro ⟨hv, -⟩
  rcases h with ⟨hv', -⟩ | ⟨hv', -⟩
  · exact absurd (hv'.symm.trans hv) (by decide)
  · exact absurd (hv'.symm.trans hv) (by decide)

/-! ## What an insertion does -/

theorem admg_directed_inserts :
    Inserts (fun (g : Admg) (e : Nat × Nat) => converted (g.insertDirected e.1 e.2)) Admg.nodes
      GraphView.Holds (fun e => states (directedOf e)) where
  base_eq h := (Admg.insertDirected_spec (converted_ok.mp h)).1
  holds h p := by
    obtain ⟨-, hdir, hbi⟩ := Admg.insertDirected_spec (converted_ok.mp h)
    rw [states_directedOf, admg_holds, admg_holds, dirStates_or hdir p]
    unfold BiStates
    rw [hbi, or_right_comm]

theorem admg_bidirected_inserts :
    Inserts (fun (g : Admg) (e : Nat × Nat) => converted (g.insertBidirected e.1 e.2)) Admg.nodes
      GraphView.Holds (fun e => states (bidirectedOf e)) where
  base_eq h := (Admg.insertBidirected_spec (converted_ok.mp h)).1
  holds h p := by
    obtain ⟨-, hdir, hbi⟩ := Admg.insertBidirected_spec (converted_ok.mp h)
    rw [states_bidirectedOf, admg_holds, admg_holds]
    unfold DirStates BiStates
    rw [hdir, hdir, hbi, and_or_left, ← or_assoc]

/-! ## The encoder -/

section Encoder

variable {g : Admg} {a b : Nat}

theorem mem_directedPairs : (a, b) ∈ directedPairs g ↔ g.mixed.dir a b := by
  unfold directedPairs
  rw [List.mem_flatMap]
  constructor
  · rintro ⟨c, -, hc⟩
    obtain ⟨d, hd, he⟩ := List.mem_map.mp hc
    cases he
    exact hd
  · exact fun h => ⟨a, List.mem_range.mpr (g.valid.in_range a b h).1, List.mem_map.mpr ⟨b, h, rfl⟩⟩

theorem mem_bidirectedPairs : (a, b) ∈ bidirectedPairs g ↔ a < b ∧ g.mixed.bi a b := by
  unfold bidirectedPairs
  rw [List.mem_flatMap]
  constructor
  · rintro ⟨c, -, hc⟩
    obtain ⟨d, hd, he⟩ := List.mem_map.mp hc
    cases he
    obtain ⟨hb, hlt⟩ := List.mem_filter.mp hd
    exact ⟨of_decide_eq_true hlt, hb⟩
  · rintro ⟨hlt, hb⟩
    refine ⟨a, List.mem_range.mpr ?_, List.mem_map.mpr ⟨b, ?_, rfl⟩⟩
    · exact g.biValid.in_range b a (g.biValid.symm a b hb)
    · exact List.mem_filter.mpr ⟨hb, decide_eq_true hlt⟩

theorem nodup_rowPairs {n : Nat} {f : Nat → List Nat} (h : ∀ a, (f a).Nodup) :
    ((List.range n).flatMap fun a => (f a).map fun b => (a, b)).Nodup := by
  refine List.nodup_flatMap.mpr ⟨fun a _ => (h a).map fun b b' he => (Prod.mk.inj he).2, ?_⟩
  refine List.nodup_range.imp fun {a a'} hne e ha ha' => ?_
  obtain ⟨b, -, rfl⟩ := List.mem_map.mp ha
  obtain ⟨b', -, he⟩ := List.mem_map.mp ha'
  exact hne (Prod.mk.inj he).1.symm

theorem nodup_directedPairs : (directedPairs g).Nodup := nodup_rowPairs g.valid.children_nodup

theorem nodup_bidirectedPairs : (bidirectedPairs g).Nodup :=
  nodup_rowPairs fun a => (g.biValid.nodup a).filter _

theorem states_bidirectedPairs (p : Statement) :
    (∃ e ∈ bidirectedPairs g, states (bidirectedOf e) p) ↔ BiStates g.mixed.bi p :=
  exists_states_even states_bidirectedOf mem_bidirectedPairs g.mixed.bi_symm
    (fun hb he => g.biValid.irrefl _ (he ▸ hb)) p

theorem admgToWire_eq {w : AdmgWire} : admgToWire g = .ok w ↔ g.nodeCount ≤ u32Max ∧
    w = ⟨g.nodeCount, directedPairs g, bidirectedPairs g⟩ := countToWire_then

theorem admg_noMiddle : NoMiddle g := by
  rintro p ((⟨h, -⟩ | ⟨h, -⟩) | ⟨h, -⟩)
  all_goals exact congrArg (fun v : Marks => v.2.2) h

end Encoder

/-! ## The decoder -/

theorem admg_withVariables {n : Nat} (hn : n ≤ u32Max + 1) :
    (Admg.withVariables n).nodes = staticNodes n ∧
      ∀ p, ¬ GraphView.Holds (Admg.withVariables n) p := by
  obtain ⟨hnodes, hdir, hbi⟩ := Admg.withVariables_edgeless hn
  refine ⟨hnodes, ?_⟩
  rintro p ((⟨-, h⟩ | ⟨-, h⟩) | ⟨-, h⟩)
  · exact hdir _ _ h
  · exact hdir _ _ h
  · exact hbi _ _ h

theorem admgFromWire_ok {w : AdmgWire} (h : admgFromWire w = .ok g) :
    w.nodeCount ≤ maxGraphNodes ∧ g.nodes = staticNodes w.nodeCount ∧
      ∀ p, GraphView.Holds g p ↔ Listed w p := by
  obtain ⟨_, hb, h⟩ := bind_ok h
  obtain ⟨g₁, hf, h⟩ := bind_ok h
  obtain ⟨g₂, hf', h⟩ := bind_ok h
  obtain ⟨_, -, h⟩ := bind_ok h
  cases h
  obtain ⟨hn, -⟩ := checkGraphBudget_ok.mp hb
  obtain ⟨hnodes, hholds⟩ := admg_directed_inserts.foldlM hf
  obtain ⟨hnodes', hholds'⟩ := admg_bidirected_inserts.foldlM hf'
  obtain ⟨hv, hempty⟩ := admg_withVariables (n := w.nodeCount)
    (hn.trans (maxGraphNodes_le.trans (Nat.le_succ _)))
  refine ⟨hn, hnodes'.trans (hnodes.trans hv), fun p => ?_⟩
  rw [hholds', hholds, or_iff_right (hempty p)]
  exact (exists_states_append p).symm

theorem admgFromWire_accepts (hn : g.nodeCount ≤ maxGraphNodes)
    (he : (directedPairs g).length + (bidirectedPairs g).length ≤ maxGraphEdges) :
    ∃ g', admgFromWire ⟨g.nodeCount, directedPairs g, bidirectedPairs g⟩ = .ok g' := by
  obtain ⟨hcount, hempty⟩ := Admg.withVariables_spec (hn.trans (maxGraphNodes_le.trans (Nat.le_succ _)))
  obtain ⟨g₁, g₂, h₁, h₂, -⟩ := Admg.rebuild_ok hcount hempty mem_directedPairs nodup_directedPairs
    mem_bidirectedPairs nodup_bidirectedPairs
  refine ⟨g₂, ?_⟩
  unfold admgFromWire
  simp only [foldlM_converted, h₁]
  rw [checkGraphBudget_ok.mpr ⟨hn, he⟩]
  show (converted ((bidirectedPairs g).foldlM _ g₁) >>= fun g => converted g.validate >>= fun _ =>
    Except.ok g) = _
  rw [h₂]
  show (converted g₂.validate >>= fun _ => Except.ok g₂) = _
  rw [g₂.validate_ok]
  rfl

theorem admg_form : WireForm admgToWire admgFromWire (fun _ => False)
    (fun g => (directedPairs g).length + (bidirectedPairs g).length) where
  encodes _ hn := ⟨_, admgToWire_eq.mpr ⟨hn, rfl⟩⟩
  refuses _ h := h
  encoded_count h := by
    rw [(admgToWire_eq.mp h).2]
    rfl
  encoded {g w} h p := by
    rw [(admgToWire_eq.mp h).2, admg_noMiddle.wiped_iff, admg_holds,
      ← exists_states_directed (fun a b => mem_directedPairs (g := g)), ← states_bidirectedPairs]
    exact exists_states_append p
  decoded_count h := (admgFromWire_ok h).1
  decoded_nodes h := (admgFromWire_ok h).2.1
  decoded h p := (admgFromWire_ok h).2.2 p
  decoded_kept _ h := h
  listed_middle w e he := by
    rcases List.mem_append.mp he with he | he
    · obtain ⟨f, -, rfl⟩ := List.mem_map.mp he
      rfl
    · obtain ⟨f, -, rfl⟩ := List.mem_map.mp he
      unfold bidirectedOf MarkedEdge.bidirected
      split_ifs <;> rfl
  accepts h hn he _ := by
    rw [(admgToWire_eq.mp h).2]
    exact admgFromWire_accepts hn he

end Antecedent.Io
