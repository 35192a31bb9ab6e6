import Antecedent.Io.GraphWire
import Antecedent.Machine.Inserts

/-!
# What a wire form keeps

A graph is read as its node table and what its edges state: two nodes with the marks of the edge
between them, from either end. A wire value is read as a node count and the edges it lists.

* `SurvivesWire`, `Reencodes`: the two round trips.
* **`WireForm.survives_iff`**: a graph that is not refused survives exactly when its nodes are the
  static variables in order and no edge carries a middle mark.
* **`WireForm.reencodes`**: an accepted wire value always comes back with the same edges.
-/

namespace Antecedent.Io

open Graph

/-- Two nodes and the marks between them, read from the first. -/
abbrev Statement := Nat × Nat × Marks

def Statement.middle (p : Statement) : MiddleMark := p.2.2.2.2

def states (e : MarkedEdge) (p : Statement) : Prop :=
  p = (e.a, e.b, e.atA, e.atB, e.middle) ∨ p = (e.b, e.a, e.atB, e.atA, e.middle)

/-- A graph type as a node table and what its edges state. -/
class GraphView (G : Type) where
  nodes : G → List NodeRef
  Holds : G → Statement → Prop

/-- A wire type as a node count and a list of edges. -/
class WireView (W : Type) where
  nodeCount : W → Nat
  edges : W → List MarkedEdge

def Listed {W : Type} [WireView W] (w : W) (p : Statement) : Prop :=
  ∃ e ∈ WireView.edges w, states e p

/-- The static variables `0..n`, in order. -/
def staticNodes (n : Nat) : List NodeRef := (List.range n).map .static

theorem length_of_static {nodes : List NodeRef} {n : Nat} (h : nodes = staticNodes n) :
    nodes.length = n := by
  rw [h, staticNodes, List.length_map, List.length_range]

section Views

variable {G W : Type} [GraphView G] [WireView W]

/-- The same node table, the same adjacent pairs and the same marks on every pair. -/
def SameGraph (g g' : G) : Prop :=
  GraphView.nodes g = GraphView.nodes g' ∧ ∀ p, GraphView.Holds g p ↔ GraphView.Holds g' p

/-- The graph is refused, or comes back from its wire form as the same graph. -/
def SurvivesWire (encode : G → Except IoError W) (decode : W → Except IoError G) (g : G) : Prop :=
  ∀ w, encode g = .ok w → ∃ g', decode w = .ok g' ∧ SameGraph g g'

/-- The wire value is refused, or is encoded again as the same set of edges. -/
def Reencodes (encode : G → Except IoError W) (decode : W → Except IoError G) (w : W) : Prop :=
  ∀ g, decode w = .ok g → ∃ w', encode g = .ok w' ∧ WireView.nodeCount w' = WireView.nodeCount w ∧
    ∀ p, Listed w' p ↔ Listed w p

/-- The nodes are the static variables in order. -/
def PlainNodes (g : G) : Prop :=
  GraphView.nodes g = staticNodes (GraphView.nodes g).length

/-- No edge carries a middle mark. -/
def NoMiddle (g : G) : Prop := ∀ p, GraphView.Holds g p → p.middle = .empty

def Wiped (g : G) (p : Statement) : Prop :=
  p.middle = .empty ∧ ∃ m, GraphView.Holds g (p.1, p.2.1, p.2.2.1, p.2.2.2.1, m)

theorem NoMiddle.wiped_iff {g : G} (h : NoMiddle g) (p : Statement) :
    Wiped g p ↔ GraphView.Holds g p := by
  obtain ⟨a, b, s, t, m⟩ := p
  constructor
  · rintro ⟨hm, m', hh⟩
    obtain rfl : m = .empty := hm
    obtain rfl : m' = .empty := h _ hh
    exact hh
  · exact fun hh => ⟨h _ hh, m, hh⟩

/-- What an encoder and a decoder do. `Refused` is what the encoder refuses. -/
structure WireForm (encode : G → Except IoError W) (decode : W → Except IoError G)
    (Refused : G → Prop) (edgeCount : G → Nat) : Prop where
  encodes : ∀ {g}, ¬ Refused g → (GraphView.nodes g).length ≤ u32Max → ∃ w, encode g = .ok w
  refuses : ∀ {g w}, encode g = .ok w → ¬ Refused g
  encoded_count : ∀ {g w}, encode g = .ok w → WireView.nodeCount w = (GraphView.nodes g).length
  encoded : ∀ {g w}, encode g = .ok w → ∀ p, Listed w p ↔ Wiped g p
  decoded_count : ∀ {w g}, decode w = .ok g → WireView.nodeCount w ≤ maxGraphNodes
  decoded_nodes : ∀ {w g}, decode w = .ok g →
    GraphView.nodes g = staticNodes (WireView.nodeCount w)
  decoded : ∀ {w g}, decode w = .ok g → ∀ p, GraphView.Holds g p ↔ Listed w p
  decoded_kept : ∀ {w g}, decode w = .ok g → ¬ Refused g
  accepts : ∀ {g w}, encode g = .ok w → (GraphView.nodes g).length ≤ maxGraphNodes →
    edgeCount g ≤ maxGraphEdges → NoMiddle g → ∃ g', decode w = .ok g'
  listed_middle : ∀ (w : W), ∀ e ∈ WireView.edges w, e.middle = .empty

variable {encode : G → Except IoError W} {decode : W → Except IoError G} {Refused : G → Prop}
  {edgeCount : G → Nat}

theorem maxGraphNodes_le : maxGraphNodes ≤ u32Max := by decide

variable (h : WireForm encode decode Refused edgeCount)

include h

theorem WireForm.listed_empty {w : W} {p : Statement} (hp : Listed w p) : p.middle = .empty := by
  obtain ⟨e, he, hs⟩ := hp
  rcases hs with rfl | rfl
  · exact h.listed_middle w e he
  · exact h.listed_middle w e he

/-- **Exactly the graphs without node labels and middle marks of their own survive.** -/
theorem WireForm.survives_iff {g : G} (hn : (GraphView.nodes g).length ≤ maxGraphNodes)
    (he : edgeCount g ≤ maxGraphEdges) :
    SurvivesWire encode decode g ↔ Refused g ∨ (PlainNodes g ∧ NoMiddle g) := by
  constructor
  · intro hs
    by_cases hr : Refused g
    · exact Or.inl hr
    · obtain ⟨w, hw⟩ := h.encodes hr (hn.trans maxGraphNodes_le)
      obtain ⟨g', hg', hnodes, hholds⟩ := hs w hw
      refine Or.inr ⟨?_, fun p hp => ?_⟩
      · unfold PlainNodes
        rw [← h.encoded_count hw, hnodes]
        exact h.decoded_nodes hg'
      · exact h.listed_empty ((h.decoded hg' p).mp ((hholds p).mp hp))
  · rintro (hr | ⟨hplain, hmid⟩) w hw
    · exact absurd hr (h.refuses hw)
    · obtain ⟨g', hg'⟩ := h.accepts hw hn he hmid
      refine ⟨g', hg', ?_, fun p => ?_⟩
      · rw [h.decoded_nodes hg', h.encoded_count hw]
        exact hplain
      · rw [h.decoded hg', h.encoded hw, hmid.wiped_iff]

/-- **An accepted wire value comes back with the same edges.** -/
theorem WireForm.reencodes (w : W) : Reencodes encode decode w := by
  intro g hg
  have hmid : NoMiddle g := fun p hp => h.listed_empty ((h.decoded hg p).mp hp)
  have hlen : (GraphView.nodes g).length = WireView.nodeCount w := length_of_static (h.decoded_nodes hg)
  obtain ⟨w', hw'⟩ := h.encodes (h.decoded_kept hg)
    (hlen ▸ (h.decoded_count hg).trans maxGraphNodes_le)
  refine ⟨w', hw', (h.encoded_count hw').trans hlen, fun p => ?_⟩
  rw [h.encoded hw', hmid.wiped_iff, h.decoded hg]

end Views

end Antecedent.Io
