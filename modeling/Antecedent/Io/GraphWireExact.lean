import Antecedent.Io.AdmgForm
import Antecedent.Io.MarkedForms

/-!
# What survives the wire

The four typed graphs together. A value of a graph type carries the invariants its constructors and
edge operations keep, so a statement about every value is one about every graph they reach.

* **`typed_graphs_survive_iff`**: within the limits, a graph is refused or comes back as the same graph
  exactly when it is a CPDAG with a conflict or has plain nodes and no middle mark; every accepted
  wire value comes back with the same edges.
* `typed_graphs_lost`: two graphs that come back as others, with no error.
-/

namespace Antecedent.Io

open Graph

/-- A graph of one of the four types. -/
inductive TypedGraph
  | dag (g : Graph.Dag)
  | admg (g : Admg)
  | cpdag (g : Cpdag)
  | pag (g : Pag)

/-- A wire value of one of the four types. -/
inductive TypedWire
  | dag (w : DagWire)
  | admg (w : AdmgWire)
  | cpdag (w : GraphCpdagWire)
  | pag (w : PagWire)

namespace TypedGraph

def nodes : TypedGraph → List NodeRef
  | .dag g => g.nodes
  | .admg g => g.nodes
  | .cpdag g => g.nodes
  | .pag g => g.nodes

def edgeCount : TypedGraph → Nat
  | .dag g => (markedEdges g.directed).length
  | .admg g => (directedPairs g).length + (bidirectedPairs g).length
  | .cpdag g => g.edges.length
  | .pag g => (pagEdgesToWire g).length

/-- The graph is refused, or its wire form decodes to the same graph. -/
def Survives : TypedGraph → Prop
  | .dag g => SurvivesWire dagToWire dagFromWire g
  | .admg g => SurvivesWire admgToWire admgFromWire g
  | .cpdag g => SurvivesWire cpdagToWire cpdagFromWire g
  | .pag g => SurvivesWire pagToWire pagFromWire g

/-- Only a CPDAG can have a conflict that its wire form has no place for. -/
def HasConflict : TypedGraph → Prop
  | .cpdag g => 0 < g.conflictEdgeCount
  | _ => False

/-- No edge carries a middle mark; a DAG and an ADMG have none. -/
def MiddleFree : TypedGraph → Prop
  | .cpdag g => NoMiddle g
  | .pag g => NoMiddle g
  | _ => True

end TypedGraph

/-- The wire value is refused, or its graph is encoded as the same set of edges. -/
def TypedWire.ComesBack : TypedWire → Prop
  | .dag w => Reencodes dagToWire dagFromWire w
  | .admg w => Reencodes admgToWire admgFromWire w
  | .cpdag w => Reencodes cpdagToWire cpdagFromWire w
  | .pag w => Reencodes pagToWire pagFromWire w

theorem survives_iff (g : TypedGraph) (hn : g.nodes.length ≤ maxGraphNodes)
    (he : g.edgeCount ≤ maxGraphEdges) : g.Survives ↔
      g.HasConflict ∨ (g.nodes = staticNodes g.nodes.length ∧ g.MiddleFree) := by
  cases g with
  | dag g =>
    refine (dag_form.survives_iff hn he).trans (or_congr Iff.rfl (and_congr Iff.rfl ?_))
    exact iff_of_true dag_noMiddle trivial
  | admg g =>
    refine (admg_form.survives_iff hn he).trans (or_congr Iff.rfl (and_congr Iff.rfl ?_))
    exact iff_of_true admg_noMiddle trivial
  | cpdag g => exact cpdag_form.survives_iff hn he
  | pag g => exact pag_form.survives_iff hn he

/-- **Typed wire forms lose node labels and middle marks, and nothing else.** -/
theorem typed_graphs_survive_iff (g : TypedGraph) (w : TypedWire)
    (hn : g.nodes.length ≤ maxGraphNodes) (he : g.edgeCount ≤ maxGraphEdges) :
    (g.Survives ↔ g.HasConflict ∨ (g.nodes = staticNodes g.nodes.length ∧ g.MiddleFree)) ∧
      w.ComesBack := by
  refine ⟨survives_iff g hn he, ?_⟩
  cases w with
  | dag w => exact dag_form.reencodes w
  | admg w => exact admg_form.reencodes w
  | cpdag w => exact cpdag_form.reencodes w
  | pag w => exact pag_form.reencodes w

/-- Two plain nodes and no edge. -/
theorem typed_graphs_survive_plain : (TypedGraph.dag (Dag.withVariables 2)).Survives :=
  ((typed_graphs_survive_iff (.dag (Dag.withVariables 2)) (.dag ⟨0, []⟩) (by decide) (by decide)).1).mpr
    (Or.inr ⟨rfl, trivial⟩)

/-- A DAG over the variable 7 and a PAG whose one edge has an unknown middle mark. -/
theorem typed_graphs_lost :
    (∃ g, Dag.empty.addNode (.static 7) = .ok (g, 0) ∧ ¬ (TypedGraph.dag g).Survives) ∧
    ∃ g, (Pag.withVariables 2).insertMarked ⟨0, 1, .circle, .arrow, .unknown⟩ = .ok g ∧
      ¬ (TypedGraph.pag g).Survives := by
  refine ⟨⟨_, rfl, fun hs => ?_⟩, ⟨_, rfl, fun hs => ?_⟩⟩
  · rcases (survives_iff _ (by decide) (by decide)).mp hs with h | ⟨h, -⟩
    · exact h
    · exact absurd h (by decide)
  · rcases (survives_iff _ (by decide) (by decide)).mp hs with h | ⟨-, h⟩
    · exact h
    · exact absurd (h (0, 1, .circle, .arrow, .unknown) rfl) (by decide)

end Antecedent.Io
