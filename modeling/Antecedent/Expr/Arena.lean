import Antecedent.Core.Catalog
import Mathlib.Data.List.GetD
import Mathlib.Data.List.Induction
import Mathlib.Data.Finset.Dedup

/-!
# The causal expression arena

Model of `CausalExprArena` (`antecedent-expr/src/lib.rs`): nodes, variable sets, intervention sets,
child lists and population keys are interned in tables, and a node refers to them by position. The
hash indexes of the source only find the position of an entry that is already there, so `internIn`
looks the entry up in its table. The modelled producers emit four kinds of node; an arena that comes
from outside may hold nodes of the other kinds. A symbolic intervention is `do(v)` at a level the
environment supplies.

`CausalExprArena.view` reads the tree below a node. The recursive functions of the source over an
arena (`free_vars`, `simplify.rs:362-419`; `distribution_leaves`, `scope.rs:78-83`) are the
functions on that tree, which their memo tables do not change.

* `WF` is what the interning operations keep: every reference points backwards and into its table.
-/

namespace Antecedent.Expr

open Core

/-- `value.rs:39-41`. -/
def symbolicIntervention : Value := .label "\uE000antecedent.symbolic_intervention"

/-- `lib.rs:140-142`. -/
def symbolic (var : Nat) : InterventionAssignment := ⟨var, symbolicIntervention⟩

/-- `lib.rs:146-148`. -/
def isSymbolic (a : InterventionAssignment) : Bool := a.value = symbolicIntervention

@[simp] theorem isSymbolic_symbolic (var : Nat) : isSymbolic (symbolic var) = true := by
  simp [isSymbolic, symbolic]

/-- `lib.rs:159-165`. -/
inductive DomainRef
  | observational
  | interventional
  deriving DecidableEq

/-- `ExprNode` (`lib.rs:238-306`). `other` is a node of a kind that no modelled function builds or
looks into: a kernel, an integral, an expectation or a contrast. -/
inductive ExprNode
  | distribution (vars conditionedOn intervention : Nat) (domain : DomainRef)
      (population : Nat) (regime : Option Nat)
  | product (list : Nat)
  | sumOut (vars expr : Nat)
  | ratio (numerator denominator : Nat)
  | other (payload : Nat)
  deriving DecidableEq

/-- `CausalExprArena` (`lib.rs:395-416`). Equality is equality of the tables, as in the source. -/
structure CausalExprArena where
  nodes : List ExprNode
  varSets : List (List Nat)
  interventions : List (List InterventionAssignment)
  lists : List (List Nat)
  populations : List String
  deriving DecidableEq

/-- `ExprError` (`lib.rs:309-330`), the variant the modelled functions return. -/
inductive ExprError
  | regimeDomainMismatch

/-- A distribution leaf with its references resolved. -/
structure Leaf where
  vars : List Nat
  conditionedOn : List Nat
  intervention : List InterventionAssignment
  domain : DomainRef
  population : String
  regime : Option Nat
  deriving DecidableEq

/-- The tree below a node. -/
inductive ExprTree
  | distribution (leaf : Leaf)
  | product (factors : List ExprTree)
  | sumOut (vars : List Nat) (body : ExprTree)
  | ratio (numerator denominator : ExprTree)

instance : Inhabited ExprTree := ⟨.product []⟩

/-! ## Interning -/

section Intern

variable {α : Type} [DecidableEq α]

/-- The position of `x`, which is appended when it is new. -/
def internIn (xs : List α) (x : α) : List α × Nat :=
  if x ∈ xs then (xs, xs.idxOf x) else (xs ++ [x], xs.length)

theorem internIn_extends (xs : List α) (x : α) : xs <+: (internIn xs x).1 := by
  unfold internIn
  split_ifs
  · exact List.prefix_rfl
  · exact List.prefix_append _ _

theorem internIn_get (xs : List α) (x : α) : (internIn xs x).1[(internIn xs x).2]? = some x := by
  unfold internIn
  split_ifs with h
  · rw [List.getElem?_eq_getElem (List.idxOf_lt_length_iff.mpr h), List.getElem_idxOf]
  · simp

omit [DecidableEq α] in
theorem getElem?_prefixed {xs ys : List α} (h : xs <+: ys) {i : Nat} {x : α}
    (hi : xs[i]? = some x) : ys[i]? = some x := by
  obtain ⟨zs, rfl⟩ := h
  rw [List.getElem?_append_left (List.getElem?_eq_some_iff.mp hi).1]
  exact hi

end Intern

/-- Sorted and without repetition (`sort_unstable`, then `dedup`). -/
def sortDedup (vs : List Nat) : List Nat := (vs.insertionSort (· ≤ ·)).dedup

@[simp] theorem mem_sortDedup {vs : List Nat} {v : Nat} : v ∈ sortDedup vs ↔ v ∈ vs := by
  simp [sortDedup]

namespace CausalExprArena

def new : CausalExprArena := ⟨[], [], [], [], []⟩

/-- `lib.rs:439-452`. -/
def internVarSet (a : CausalExprArena) (vars : List Nat) : CausalExprArena × Nat :=
  let r := internIn a.varSets (sortDedup vars)
  ({ a with varSets := r.1 }, r.2)

/-- `lib.rs:513-520`. -/
def emptyVarSet (a : CausalExprArena) : CausalExprArena × Nat := a.internVarSet []

/-- `intern_intervention_set` (`lib.rs:505-510`): symbolic coordinates. -/
def internInterventionSet (a : CausalExprArena) (vars : List Nat) : CausalExprArena × Nat :=
  let r := internIn a.interventions ((sortDedup vars).map symbolic)
  ({ a with interventions := r.1 }, r.2)

/-- `lib.rs:523-532`. -/
def internPopulation (a : CausalExprArena) (key : String) : CausalExprArena × Nat :=
  let r := internIn a.populations key
  ({ a with populations := r.1 }, r.2)

/-- `lib.rs:661-672`. -/
def internList (a : CausalExprArena) (exprs : List Nat) : CausalExprArena × Nat :=
  let r := internIn a.lists exprs
  ({ a with lists := r.1 }, r.2)

/-- `lib.rs:680-688`. -/
def intern (a : CausalExprArena) (node : ExprNode) : CausalExprArena × Nat :=
  let r := internIn a.nodes node
  ({ a with nodes := r.1 }, r.2)

/-- `lib.rs:596-618`. -/
def internDistributionTagged (a : CausalExprArena) (vars conditionedOn intervention : Nat)
    (domain : DomainRef) (population : String) (regime : Option Nat)
    (regimeKind : Option DomainRef) : Except ExprError (CausalExprArena × Nat) :=
  if regime.isSome ∧ regimeKind.isSome ∧ regimeKind ≠ some domain then
    .error .regimeDomainMismatch
  else
    let (a, population) := a.internPopulation population
    .ok (a.intern (.distribution vars conditionedOn intervention domain population regime))

/-! ## Trees -/

/-- One node over the trees `acc` of the nodes before it. -/
def readNode (a : CausalExprArena) (acc : List ExprTree) : ExprNode → ExprTree
  | .distribution v c t domain p regime => .distribution
      ⟨a.varSets.getD v [], a.varSets.getD c [], a.interventions.getD t [], domain,
        a.populations.getD p "", regime⟩
  | .product l => .product ((a.lists.getD l []).map fun e => acc.getD e default)
  | .sumOut v e => .sumOut (a.varSets.getD v []) (acc.getD e default)
  | .ratio n d => .ratio (acc.getD n default) (acc.getD d default)
  | .other _ => default

def trees (a : CausalExprArena) (nodes : List ExprNode) : List ExprTree :=
  nodes.foldl (fun acc node => acc ++ [a.readNode acc node]) []

/-- The tree at `id`. -/
def view (a : CausalExprArena) (id : Nat) : ExprTree := (a.trees a.nodes).getD id default

/-- Node `i` is of a modelled kind and refers backwards and into the tables. -/
def NodeOk (a : CausalExprArena) (i : Nat) : ExprNode → Prop
  | .distribution v c t _ p _ => v < a.varSets.length ∧ c < a.varSets.length ∧
      t < a.interventions.length ∧ p < a.populations.length
  | .product l => ∃ ids, a.lists[l]? = some ids ∧ ∀ e ∈ ids, e < i
  | .sumOut v e => v < a.varSets.length ∧ e < i
  | .ratio n d => n < i ∧ d < i
  | .other _ => False

/-- What the interning operations keep. -/
def WF (a : CausalExprArena) : Prop := ∀ i node, a.nodes[i]? = some node → a.NodeOk i node

/-- Every table of `a` is a prefix of that of `b`. -/
structure Extends (a b : CausalExprArena) : Prop where
  nodes : a.nodes <+: b.nodes
  varSets : a.varSets <+: b.varSets
  interventions : a.interventions <+: b.interventions
  lists : a.lists <+: b.lists
  populations : a.populations <+: b.populations

variable {a b : CausalExprArena} {i : Nat} {node : ExprNode} {a b : CausalExprArena}

theorem Extends.rfl : Extends a a :=
  ⟨List.prefix_rfl, List.prefix_rfl, List.prefix_rfl, List.prefix_rfl, List.prefix_rfl⟩

theorem Extends.trans {a b c : CausalExprArena} (h : Extends a b) (h' : Extends b c) :
    Extends a c :=
  ⟨h.nodes.trans h'.nodes, h.varSets.trans h'.varSets, h.interventions.trans h'.interventions,
    h.lists.trans h'.lists, h.populations.trans h'.populations⟩

theorem Extends.length_le (h : Extends a b) :
    a.nodes.length ≤ b.nodes.length := h.nodes.length_le

theorem NodeOk.extends (h : Extends a b) (hn : a.NodeOk i node) : b.NodeOk i node := by
  cases node with
  | distribution v c t dom p r =>
    obtain ⟨h1, h2, h3, h4⟩ := hn
    exact ⟨h1.trans_le h.varSets.length_le, h2.trans_le h.varSets.length_le,
      h3.trans_le h.interventions.length_le, h4.trans_le h.populations.length_le⟩
  | product l =>
    obtain ⟨ids, hl, hlt⟩ := hn
    exact ⟨ids, getElem?_prefixed h.lists hl, hlt⟩
  | sumOut v e => exact ⟨hn.1.trans_le h.varSets.length_le, hn.2⟩
  | ratio n d => exact hn
  | other => exact hn

/-- A well-formed arena whose node table did not change stays well-formed. -/
theorem WF.extends (hw : a.WF) (h : Extends a b)
    (hn : b.nodes = a.nodes) : b.WF := fun i node hi => NodeOk.extends h (hw i node (hn ▸ hi))

theorem wf_new : new.WF := fun i node h => absurd h (by simp [new])

@[simp] theorem trees_append (a : CausalExprArena) (l : List ExprNode) (node : ExprNode) :
    a.trees (l ++ [node]) = a.trees l ++ [a.readNode (a.trees l) node] := by
  unfold trees
  rw [List.foldl_append, List.foldl_cons, List.foldl_nil]

@[simp] theorem length_trees (a : CausalExprArena) (l : List ExprNode) :
    (a.trees l).length = l.length := by
  induction l using List.reverseRecOn with
  | nil => rfl
  | append_singleton l node ih => simp only [trees_append, List.length_append, ih,
    List.length_singleton]

theorem trees_extends (a : CausalExprArena) (l r : List ExprNode) :
    a.trees l <+: a.trees (l ++ r) := by
  induction r using List.reverseRecOn with
  | nil => simpa only [List.append_nil] using List.prefix_rfl
  | append_singleton r node ih =>
    rw [← List.append_assoc, trees_append]
    exact ih.trans (List.prefix_append _ _)

theorem getD_prefixed {β : Type} {xs ys : List β} (h : xs <+: ys) (hi : i < xs.length)
    (d : β) : ys.getD i d = xs.getD i d := by
  obtain ⟨zs, rfl⟩ := h
  exact List.getD_append _ _ _ _ hi

def shape (a : CausalExprArena) : ExprNode → ExprTree := a.readNode (a.trees a.nodes)

/-- **The tree at a node.** -/
theorem view_node (hw : a.WF) (hi : a.nodes[i]? = some node) : a.view i = a.shape node := by
  obtain ⟨hlt, hget⟩ := List.getElem?_eq_some_iff.mp hi
  have hsplit : a.nodes = a.nodes.take i ++ [node] ++ a.nodes.drop (i + 1) := by
    rw [← hget]
    simp
  have hlen : (a.nodes.take i).length = i := List.length_take_of_le hlt.le
  have hpre : a.trees (a.nodes.take i) <+: a.trees a.nodes := by
    conv_rhs => rw [← List.take_append_drop i a.nodes]
    exact trees_extends _ _ _
  have hpre' : a.trees (a.nodes.take i ++ [node]) <+: a.trees a.nodes := by
    conv_rhs => rw [hsplit]
    exact trees_extends _ _ _
  have hview : a.view i = a.readNode (a.trees (a.nodes.take i)) node := by
    unfold view
    rw [getD_prefixed hpre' (by rw [length_trees, List.length_append, hlen]; simp), trees_append,
      List.getD_append_right _ _ _ _ (by rw [length_trees, hlen]), length_trees, hlen]
    simp
  have hchild : ∀ e < i, (a.trees a.nodes).getD e default =
      (a.trees (a.nodes.take i)).getD e default := fun e he =>
    getD_prefixed hpre (by rw [length_trees, hlen]; exact he) _
  rw [hview]
  have hok := hw i node hi
  cases node with
  | distribution => rfl
  | product l =>
    obtain ⟨ids, hl, hids⟩ := hok
    unfold shape
    simp only [readNode]
    rw [List.getD_eq_getElem?_getD, hl]
    exact congrArg ExprTree.product (List.map_congr_left fun e he => (hchild e (hids e he)).symm)
  | sumOut v e => exact congrArg (ExprTree.sumOut _) (hchild e hok.2).symm
  | ratio n d => exact congrArg₂ ExprTree.ratio (hchild n hok.1).symm (hchild d hok.2).symm
  | other => rfl

/-- **Growing an arena changes no tree that is already there.** -/
theorem view_extends (ha : a.WF) (hb : b.WF) (h : Extends a b) :
    ∀ {i : Nat}, i < a.nodes.length → b.view i = a.view i := by
  intro i
  induction i using Nat.strong_induction_on with
  | _ i ih =>
    intro hi
    have hget : a.nodes[i]? = some a.nodes[i] := List.getElem?_eq_getElem hi
    generalize a.nodes[i] = node at hget
    rw [view_node ha hget, view_node hb (getElem?_prefixed h.nodes hget)]
    have hchild : ∀ e < i, (b.trees b.nodes).getD e default = (a.trees a.nodes).getD e default :=
      fun e he => ih e he (he.trans hi)
    have hok := ha i node hget
    cases node with
    | distribution v c t dom p r =>
      obtain ⟨h1, h2, h3, h4⟩ := hok
      simp only [shape, readNode, getD_prefixed h.varSets h1, getD_prefixed h.varSets h2,
        getD_prefixed h.interventions h3, getD_prefixed h.populations h4]
    | product l =>
      obtain ⟨ids, hl, hids⟩ := hok
      unfold shape
      simp only [readNode]
      rw [List.getD_eq_getElem?_getD, List.getD_eq_getElem?_getD, hl,
        getElem?_prefixed h.lists hl]
      exact congrArg ExprTree.product (List.map_congr_left fun e he => hchild e (hids e he))
    | sumOut v e =>
      simp only [shape, readNode, getD_prefixed h.varSets hok.1, hchild e hok.2]
    | ratio n d => exact congrArg₂ ExprTree.ratio (hchild n hok.1) (hchild d hok.2)
    | other => rfl

/-! ## What the interning operations do -/

/-- An operation on a side table leaves the nodes alone. -/
structure Grows (a b : CausalExprArena) : Prop where
  wf : b.WF
  ext : Extends a b

theorem internVarSet_spec (hw : a.WF) (vars : List Nat) :
    Grows a (a.internVarSet vars).1 ∧ (a.internVarSet vars).1.nodes = a.nodes ∧
      (a.internVarSet vars).1.varSets[(a.internVarSet vars).2]? = some (sortDedup vars) := by
  have hext : Extends a (a.internVarSet vars).1 :=
    ⟨List.prefix_rfl, internIn_extends _ _, List.prefix_rfl, List.prefix_rfl, List.prefix_rfl⟩
  exact ⟨⟨hw.extends hext rfl, hext⟩, rfl, internIn_get _ _⟩

theorem internInterventionSet_spec (hw : a.WF) (vars : List Nat) :
    Grows a (a.internInterventionSet vars).1 ∧
      (a.internInterventionSet vars).1.nodes = a.nodes ∧
      (a.internInterventionSet vars).1.interventions[(a.internInterventionSet vars).2]? =
        some ((sortDedup vars).map symbolic) := by
  have hext : Extends a (a.internInterventionSet vars).1 :=
    ⟨List.prefix_rfl, List.prefix_rfl, internIn_extends _ _, List.prefix_rfl, List.prefix_rfl⟩
  exact ⟨⟨hw.extends hext rfl, hext⟩, rfl, internIn_get _ _⟩

theorem internPopulation_spec (hw : a.WF) (key : String) :
    Grows a (a.internPopulation key).1 ∧ (a.internPopulation key).1.nodes = a.nodes ∧
      (a.internPopulation key).1.populations[(a.internPopulation key).2]? = some key := by
  have hext : Extends a (a.internPopulation key).1 :=
    ⟨List.prefix_rfl, List.prefix_rfl, List.prefix_rfl, List.prefix_rfl, internIn_extends _ _⟩
  exact ⟨⟨hw.extends hext rfl, hext⟩, rfl, internIn_get _ _⟩

theorem internList_spec (hw : a.WF) (ids : List Nat) :
    Grows a (a.internList ids).1 ∧ (a.internList ids).1.nodes = a.nodes ∧
      (a.internList ids).1.lists[(a.internList ids).2]? = some ids := by
  have hext : Extends a (a.internList ids).1 :=
    ⟨List.prefix_rfl, List.prefix_rfl, List.prefix_rfl, internIn_extends _ _, List.prefix_rfl⟩
  exact ⟨⟨hw.extends hext rfl, hext⟩, rfl, internIn_get _ _⟩

/-- **Interning a node** whose references are in place puts its tree at the returned id. -/
theorem intern_spec (hw : a.WF) {n : ExprNode} (hn : a.NodeOk a.nodes.length n) :
    Grows a (a.intern n).1 ∧ (a.intern n).2 < (a.intern n).1.nodes.length ∧
      (a.intern n).1.view (a.intern n).2 = a.shape n := by
  have hext : Extends a (a.intern n).1 :=
    ⟨internIn_extends _ _, List.prefix_rfl, List.prefix_rfl, List.prefix_rfl, List.prefix_rfl⟩
  have hget : (a.intern n).1.nodes[(a.intern n).2]? = some n := internIn_get _ _
  have hwf : (a.intern n).1.WF := by
    intro i nd hi
    refine NodeOk.extends hext ?_
    by_cases hm : n ∈ a.nodes
    · have he : (a.intern n).1.nodes = a.nodes := by simp [intern, internIn, hm]
      exact hw i nd (he ▸ hi)
    · have he : (a.intern n).1.nodes = a.nodes ++ [n] := by simp [intern, internIn, hm]
      rw [he] at hi
      by_cases hlt : i < a.nodes.length
      · rw [List.getElem?_append_left hlt] at hi
        exact hw i nd hi
      · obtain ⟨hl, -⟩ := List.getElem?_eq_some_iff.mp hi
        rw [List.length_append, List.length_singleton] at hl
        obtain rfl : i = a.nodes.length := by omega
        rw [List.getElem?_append_right (Nat.le_refl _), Nat.sub_self] at hi
        obtain rfl : n = nd := by simpa using hi
        exact hn
  refine ⟨⟨hwf, hext⟩, (List.getElem?_eq_some_iff.mp hget).1, ?_⟩
  rw [view_node hwf hget]
  have hchild : ∀ e < a.nodes.length, ((a.intern n).1.trees (a.intern n).1.nodes).getD e
      default = (a.trees a.nodes).getD e default := fun e he => view_extends hw hwf hext he
  cases n with
  | distribution => rfl
  | product l =>
    obtain ⟨ids, hl, hids⟩ := hn
    unfold shape
    simp only [readNode]
    rw [show (a.intern (.product l)).1.lists = a.lists from rfl, List.getD_eq_getElem?_getD, hl]
    exact congrArg ExprTree.product (List.map_congr_left fun e he => hchild e (hids e he))
  | sumOut v e => exact congrArg (ExprTree.sumOut _) (hchild e hn.2)
  | ratio n d => exact congrArg₂ ExprTree.ratio (hchild n hn.1) (hchild d hn.2)
  | other => rfl

end CausalExprArena

/-! ## Free variables and leaves -/

namespace Leaf

def openLevels (leaf : Leaf) : List Nat := (leaf.intervention.filter isSymbolic).map (·.var)

/-- The conditioning variables that no concrete intervention fixes. -/
def conditions (leaf : Leaf) : List Nat := leaf.conditionedOn.filter fun v =>
  !leaf.intervention.any fun a => a.var = v ∧ ¬isSymbolic a

theorem openLevels_symbolic {leaf : Leaf} {vars : List Nat}
    (h : leaf.intervention = vars.map symbolic) :
    leaf.openLevels = vars ∧ leaf.conditions = leaf.conditionedOn := by
  refine ⟨?_, List.filter_eq_self.mpr fun v _ => ?_⟩
  · unfold openLevels
    rw [h, List.filter_eq_self.mpr, List.map_map]
    · exact (List.map_congr_left fun _ _ => rfl).trans (List.map_id _)
    · intro a ha
      obtain ⟨v, -, rfl⟩ := List.mem_map.mp ha
      exact isSymbolic_symbolic v
  · rw [h, Bool.not_eq_true', List.any_eq_false]
    intro a ha
    obtain ⟨v, -, rfl⟩ := List.mem_map.mp ha
    simp

end Leaf

namespace ExprTree

mutual

/-- `free_variables` (`scope.rs:45-47`, `simplify.rs:372-419`). -/
def freeVariables : ExprTree → List Nat
  | .distribution leaf => sortDedup (leaf.vars ++ leaf.conditions ++ leaf.openLevels)
  | .product factors => sortDedup (freeVariablesList factors)
  | .sumOut vars body => sortDedup (body.freeVariables.filter (· ∉ vars))
  | .ratio n d => sortDedup (n.freeVariables ++ d.freeVariables)

def freeVariablesList : List ExprTree → List Nat
  | [] => []
  | e :: es => e.freeVariables ++ freeVariablesList es

end

theorem mem_freeVariables_symbolic {leaf : Leaf} {vars : List Nat}
    (h : leaf.intervention = vars.map symbolic) {x : Nat} :
    x ∈ (distribution leaf).freeVariables ↔ x ∈ leaf.vars ∨ x ∈ leaf.conditionedOn ∨ x ∈ vars := by
  obtain ⟨hopen, hcond⟩ := Leaf.openLevels_symbolic h
  rw [freeVariables, mem_sortDedup, List.mem_append, List.mem_append, hopen, hcond, or_assoc]

mutual

/-- `distribution_leaves` (`scope.rs:78-83`), as a set. -/
def leaves : ExprTree → List Leaf
  | .distribution leaf => [leaf]
  | .product factors => leavesList factors
  | .sumOut _ body => body.leaves
  | .ratio n d => n.leaves ++ d.leaves

def leavesList : List ExprTree → List Leaf
  | [] => []
  | e :: es => e.leaves ++ leavesList es

end

/-- `scope.rs:14-20`. -/
abbrev LeafBinding := String × Option Nat

/-- `leaf_bindings` (`scope.rs:86-103`): sorted and without repetition, that is, a set. -/
def leafBindings (e : ExprTree) : Finset LeafBinding :=
  (e.leaves.map fun leaf => (leaf.population, leaf.regime)).toFinset

/-- `bind_certificate` (`scope.rs:148-158`): both sides are sorted and stripped of repetition before
they are compared. -/
def bindCertificate (e : ExprTree) (expected : List LeafBinding) : Bool :=
  e.leafBindings = expected.toFinset

end ExprTree

end Antecedent.Expr
