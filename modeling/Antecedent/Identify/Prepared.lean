import Antecedent.Graph.Induced

/-!
# The prepared graph

Model of `PreparedAdmg` (`antecedent-identify/src/prepared.rs`): an ADMG with its topological order
and the index of its variables. The closures `ancestors_cached` memoizes are recomputed here; a hit
returns what the walk would.

* `PreparedAdmg.new_spec`: preparing an ADMG succeeds.
-/

namespace Antecedent.Identify

open Graph
open Mixed

/-- `IdentificationBudget` (`error.rs:14-27`), the kinds the modelled functions exhaust. -/
inductive IdentificationBudget
  | steps
  | memory
  deriving DecidableEq

/-- `IdentificationError` (`error.rs:45-168`), the variants the modelled functions return. -/
inductive IdentificationError
  | unknownVariable (id : Nat)
  | invariantViolated (message : String)
  | graph (error : GraphError)
  | cancelled
  | budget (budget : IdentificationBudget)
  | invalidInput (message : String)
  | unsupportedInput (code : String)
  | unsupportedQuery (message : String)
  | invalidQuery (message : String)
  | invalidDerivation (code : String)
  | message (text : String)
  deriving DecidableEq

/-- `node_variable_id` (`prepared.rs:202-208`): an unfolded node is addressed by its position. -/
def nodeVariableId (nodes : List NodeRef) (dense : Nat) : Option Nat :=
  match nodes[dense]? with
  | some (.static v) => some v
  | some (.unfolded _ _) => some dense
  | _ => none

/-- `PreparedAdmg` (`prepared.rs:19-27`); the index of its variables is `varToDense`. -/
structure PreparedAdmg where
  admg : Admg
  topo : List Nat

namespace PreparedAdmg

/-- `PreparedAdmg::new` (`prepared.rs:45-73`); an ADMG is acyclic by construction. -/
def new (admg : Admg) : Except IdentificationError PreparedAdmg :=
  match admg.topologicalOrder with
  | some topo => .ok ⟨admg, topo⟩
  | none => .error (.message "ADMG topological order incomplete (cycle?)")

theorem new_spec (admg : Admg) : ∃ p, new admg = .ok p ∧ p.admg = admg ∧
    Kahn.Topological admg.children (Finset.range admg.nodeCount) p.topo := by
  obtain ⟨order, ho, ht⟩ := admg.topologicalOrder_spec
  refine ⟨⟨admg, order⟩, ?_, rfl, ht⟩
  unfold new
  rw [ho]

variable (p : PreparedAdmg)

/-- `PreparedAdmg::var_to_dense` (`prepared.rs:114-116`): the first node the variable labels. -/
def varToDense (id : Nat) : Except IdentificationError Nat :=
  match (List.range p.admg.nodeCount).find? fun i => nodeVariableId p.admg.nodes i = some id with
  | some i => .ok i
  | none => .error (.unknownVariable id)

/-- `PreparedAdmg::dense_to_var` (`prepared.rs:123-126`). Every node of an ADMG is static or
unfolded, so the lookup of one of its nodes does not fail. -/
def denseToVar (dense : Nat) : Nat := (nodeVariableId p.admg.nodes dense).getD 0

def vars (nodes : Finset Nat) : List Nat := (nodes.sort (· ≤ ·)).map p.denseToVar

/-- Lines 168-177. -/
def ancestorsBarX (seeds active intervene : Finset Nat) : Finset Nat :=
  p.admg.ancestorsWithin seeds active intervene

/-- `PreparedAdmg::ancestors_cached` (`prepared.rs:149-166`). -/
def ancestors (seeds active : Finset Nat) : Finset Nat := p.admg.ancestorsWithin seeds active ∅

/-- Lines 180-183. -/
def cComponents (nodes : Finset Nat) : List (Finset Nat) := p.admg.districtComponentsWithin nodes

variable {p}

theorem nodeVariableId_label {i : Nat} (hi : i < p.admg.nodeCount) :
    nodeVariableId p.admg.nodes i = some (p.denseToVar i) := by
  have hlt : i < p.admg.nodes.length := hi
  have hs := p.admg.static _ (List.getElem_mem hlt)
  unfold denseToVar nodeVariableId
  rw [List.getElem?_eq_getElem hlt]
  show _ = some (Option.getD _ 0)
  cases h : p.admg.nodes[i] with
  | static v => rfl
  | unfolded v o => rfl
  | lagged v l =>
    rw [h] at hs
    cases hs
  | context v e =>
    rw [h] at hs
    cases hs

theorem varToDense_ok {id i : Nat} (h : p.varToDense id = .ok i) :
    i < p.admg.nodeCount ∧ p.denseToVar i = id := by
  unfold varToDense at h
  split at h
  · rename_i j hj
    obtain rfl := (Except.ok.injEq _ _).mp h
    have hlt := List.mem_range.mp (List.mem_of_find?_eq_some hj)
    have hid := List.find?_some hj
    rw [decide_eq_true_eq, nodeVariableId_label hlt] at hid
    exact ⟨hlt, Option.some.inj hid⟩
  · cases h

/-- The nodes of the graph carry distinct variables. -/
def Distinct (admg : Admg) : Prop :=
  ∀ i < admg.nodeCount, ∀ j < admg.nodeCount,
    nodeVariableId admg.nodes i = nodeVariableId admg.nodes j → i = j

/-- **In a graph of distinct variables the index inverts the labels.** -/
theorem varToDense_label (hd : Distinct p.admg) {i : Nat} (hi : i < p.admg.nodeCount) :
    p.varToDense (p.denseToVar i) = .ok i := by
  have hmem : i ∈ List.range p.admg.nodeCount := List.mem_range.mpr hi
  have hlab : decide (nodeVariableId p.admg.nodes i = some (p.denseToVar i)) = true :=
    decide_eq_true (nodeVariableId_label hi)
  cases h : (List.range p.admg.nodeCount).find? fun j =>
      nodeVariableId p.admg.nodes j = some (p.denseToVar i) with
  | none => exact absurd hlab (List.find?_eq_none.mp h i hmem)
  | some j =>
    have hj := List.mem_range.mp (List.mem_of_find?_eq_some h)
    have hid := List.find?_some h
    rw [decide_eq_true_eq] at hid
    obtain rfl := hd j hj i hi (hid.trans (nodeVariableId_label hi).symm)
    unfold varToDense
    rw [h]

theorem denseToVar_injective (hd : Distinct p.admg) {i j : Nat} (hi : i < p.admg.nodeCount)
    (hj : j < p.admg.nodeCount) (h : p.denseToVar i = p.denseToVar j) : i = j :=
  hd i hi j hj (by rw [nodeVariableId_label hi, nodeVariableId_label hj, h])

end PreparedAdmg

end Antecedent.Identify
