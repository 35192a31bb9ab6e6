import Antecedent.Graph.Unfold

/-!
# The acyclicity check

Model of `is_dag` (`algo.rs:227-257`) and of `Dag::validate` (`dag.rs:265-270`) and `Admg::validate`
(`admg.rs:630-635`): Kahn's sweep again, which counts the nodes it pops and keeps no order.

* `isDag_iff`: the check passes iff there is no cycle.
* `validate_ok`: a graph the checked constructors build passes.
* **`sweeps_agree`**: both sweeps decide acyclicity on whatever unchecked pushes leave.
-/

namespace Antecedent.Graph

open Mixed Relation

/-- A pop of `is_dag` counts the node. -/
def countVisit : Kahn.Visit Nat Nat := fun _ placed => (placed + 1, fun _ placed => placed)

/-- `is_dag` (`algo.rs:227-257`): the last node pushed is popped first. -/
def isDag (parents children : List (List Nat)) : Bool :=
  if parents.length ≠ children.length then false
  else if parents.any fun p => decide (u32Max < p.length) then false
  else
    let placed := (Kahn.run (row children) countVisit (parents.length + 1)
      ⟨fun v => (row parents v).length,
        ((List.range parents.length).filter fun v => (row parents v).length = 0).reverse, 0⟩).acc
    placed == parents.length

theorem foldl_countVisit (children : Nat → List Nat) : ∀ (order : List Nat) (placed : Nat),
    order.foldl (Kahn.visitAll children countVisit) placed = placed + order.length
  | [], _ => rfl
  | v :: order, placed => by
    have hv : Kahn.visitAll children countVisit placed v = placed + 1 := by
      unfold Kahn.visitAll countVisit
      exact List.foldl_fixed' (fun _ => rfl) _
    rw [List.foldl_cons, hv, foldl_countVisit children order, List.length_cons]
    omega

namespace DirectedCore

variable {c : DirectedCore}

/-- **The check passes iff there is no cycle.** -/
theorem isDag_iff (hc : c.Wired) :
    isDag c.parents c.children = true ↔ ∀ v, ¬ TransGen c.Dir v v := by
  obtain ⟨order, hacc, hiff, -⟩ := hc.sweep countVisit 0
  rw [foldl_countVisit, Nat.zero_add] at hacc
  unfold isDag
  rw [if_neg (by rw [hc.parents_length, hc.children_length]; simp)]
  by_cases hfit : (c.parents.any fun p => decide (u32Max < p.length)) = true
  · rw [if_pos hfit]
    exact iff_of_false Bool.false_ne_true fun hac => hc.parents_fit hac hfit
  · rw [if_neg hfit]
    show (_ == c.parents.length) = true ↔ _
    rw [beq_iff_eq]
    exact hacc ▸ hiff

/-- A core the checked constructors build passes the check. -/
theorem isDag_of_valid (hc : c.Valid) : isDag c.parents c.children = true :=
  (isDag_iff hc.wired).mpr hc.acyclic

end DirectedCore

/-- `dag.rs:265-270`. -/
def Dag.validate (g : Dag) : Except GraphError Unit :=
  if isDag g.directed.parents g.directed.children = true then .ok () else .error (.cycle 0 0)

/-- `admg.rs:630-635`. -/
def Admg.validate (g : Admg) : Except GraphError Unit :=
  if isDag g.directed.parents g.directed.children = true then .ok () else .error (.cycle 0 0)

theorem Dag.validate_ok (g : Dag) : g.validate = .ok () :=
  if_pos (DirectedCore.isDag_of_valid g.valid)

theorem Admg.validate_ok (g : Admg) : g.validate = .ok () :=
  if_pos (DirectedCore.isDag_of_valid g.valid)

/-- **Both sweeps decide acyclicity on whatever unchecked pushes leave**, and an order that is
returned is topological. -/
theorem Dag.Unchecked.sweeps_agree (g : Dag.Unchecked) :
    (isDag g.directed.parents g.directed.children = true ↔ ∀ v, ¬ TransGen g.directed.Dir v v) ∧
    (g.directed.topologicalOrder.isSome = true ↔ ∀ v, ¬ TransGen g.directed.Dir v v) ∧
    ∀ order, g.directed.topologicalOrder = some order →
      Kahn.Topological g.directed.childrenOf (Finset.range g.directed.nodeCount) order :=
  ⟨DirectedCore.isDag_iff g.wired, DirectedCore.topologicalOrder_isSome_iff g.wired,
    fun _ h => (DirectedCore.topologicalOrder_topological g.wired h).2⟩

end Antecedent.Graph
