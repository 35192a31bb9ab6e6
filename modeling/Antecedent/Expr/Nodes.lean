import Antecedent.Expr.Arena

/-!
# Nodes of every kind

`ExprNode` of `antecedent-expr` (`lib.rs:236-306`), over what its references are: the positions of the
entries they name, or these entries. Reading a node, copying it into another arena and checking it are
then one traversal.

* `mapM_all`, `mapM_congr`, `mapM_inv`: when a traversal succeeds, when two agree, and how one is undone.
-/

namespace Antecedent.Expr

/-- The tables of an arena. -/
inductive Table
  | varSets
  | interventions
  | populations
  | lists
  | nodes
  deriving DecidableEq

/-- Lines 151-156. -/
inductive ContrastOp
  | difference
  deriving DecidableEq

/-- `ExprNode`, by what stands for the entries of each table. -/
inductive Node (vs is ps ls ns : Type)
  | distribution (vars conditionedOn : vs) (intervention : is) (domain : DomainRef) (population : ps)
      (regime : Option Nat)
  | kernel (body : ns) (bound : vs) (population : ps) (regime : Option Nat)
  | product (factors : ls)
  | sumOut (vars : vs) (expr : ns)
  | integralOut (vars : vs) (expr : ns)
  | ratio (numerator denominator : ns)
  | expectation (function : Nat) (distribution : ns)
  | contrast (left right : ns) (op : ContrastOp)
  deriving DecidableEq

/-- A node over a family of references. -/
abbrev NodeOf (ref : Table → Type) : Type :=
  Node (ref .varSets) (ref .interventions) (ref .populations) (ref .lists) (ref .nodes)

namespace Node

variable {ref ref' : Table → Type}

/-- Every reference replaced, in the order of the fields. -/
def mapM {m : Type → Type} [Monad m] (f : ∀ t, ref t → m (ref' t)) : NodeOf ref → m (NodeOf ref')
  | .distribution v c i d p r => do
    return .distribution (← f .varSets v) (← f .varSets c) (← f .interventions i) d (← f .populations p) r
  | .kernel b v p r => do return .kernel (← f .nodes b) (← f .varSets v) (← f .populations p) r
  | .product l => do return .product (← f .lists l)
  | .sumOut v e => do return .sumOut (← f .varSets v) (← f .nodes e)
  | .integralOut v e => do return .integralOut (← f .varSets v) (← f .nodes e)
  | .ratio n d => do return .ratio (← f .nodes n) (← f .nodes d)
  | .expectation y e => do return .expectation y (← f .nodes e)
  | .contrast l r op => do return .contrast (← f .nodes l) (← f .nodes r) op

/-- What holds of every reference. -/
def All (P : ∀ t, ref t → Prop) : NodeOf ref → Prop
  | .distribution v c i _ p _ => P .varSets v ∧ P .varSets c ∧ P .interventions i ∧ P .populations p
  | .kernel b v p _ => P .nodes b ∧ P .varSets v ∧ P .populations p
  | .product l => P .lists l
  | .sumOut v e | .integralOut v e => P .varSets v ∧ P .nodes e
  | .ratio n d => P .nodes n ∧ P .nodes d
  | .expectation _ e => P .nodes e
  | .contrast l r _ => P .nodes l ∧ P .nodes r

variable {n : NodeOf ref} {f : ∀ t, ref t → Option (ref' t)} {r : NodeOf ref'}

theorem All.imp {P Q : ∀ t, ref t → Prop} (h : ∀ t x, P t x → Q t x) (hn : n.All P) :
    n.All Q := by
  cases n <;> simp_all [All]

/-- A traversal succeeds where every reference is replaced. -/
theorem mapM_all :
    (∃ r, n.mapM f = some r) ↔ n.All fun t x => ∃ y, f t x = some y := by
  cases n <;> simp [mapM, All, Option.bind_eq_some_iff]

theorem mapM_congr {g : ∀ t, ref t → Option (ref' t)}
    (h : n.All fun t x => f t x = g t x) : n.mapM f = n.mapM g := by
  cases n <;> simp_all [mapM, All]

/-- A traversal is undone by one that undoes each replacement. -/
theorem mapM_inv {g : ∀ t, ref' t → Option (ref t)} (hg : ∀ t x y, f t x = some y → g t y = some x)
    (h : n.mapM f = some r) : r.mapM g = some n := by
  cases n <;> simp only [mapM, bind_pure_comp, Option.bind_eq_bind, Option.bind_eq_some_iff,
    Option.map_eq_map, Option.map_eq_some_iff] at h
  case distribution =>
    obtain ⟨_, hv, _, hc, _, hi, _, hp, rfl⟩ := h
    simp [mapM, hg _ _ _ hv, hg _ _ _ hc, hg _ _ _ hi, hg _ _ _ hp]
  case kernel =>
    obtain ⟨_, hb, _, hv, _, hp, rfl⟩ := h
    simp [mapM, hg _ _ _ hb, hg _ _ _ hv, hg _ _ _ hp]
  case product | expectation =>
    obtain ⟨_, hx, rfl⟩ := h
    simp [mapM, hg _ _ _ hx]
  all_goals
    obtain ⟨_, hx, _, hy, rfl⟩ := h
    simp [mapM, hg _ _ _ hx, hg _ _ _ hy]

open Classical in
/-- A traversal that replaces different references differently tells nodes apart. -/
theorem mapM_injective (hf : ∀ t x y z, f t x = some z → f t y = some z → x = y) {m : NodeOf ref}
    (hn : n.mapM f = some r) (hm : m.mapM f = some r) : n = m := by
  have hinv : ∀ t x z, f t x = some z → (if h : ∃ x, f t x = some z then some h.choose else none) = some x := by
    intro t x z h
    have hex : ∃ x, f t x = some z := ⟨x, h⟩
    rw [dif_pos hex, hf t _ _ z hex.choose_spec h]
  exact Option.some.inj ((mapM_inv hinv hn).symm.trans (mapM_inv hinv hm))

end Node

end Antecedent.Expr
