import Antecedent.Expr.Arena
import Antecedent.Prob.Marginal

/-!
# Evaluating an expression

The value of an expression tree at an assignment of every node (`eval_slot`,
`antecedent-expr/src/eval.rs:172-258`): a leaf asks a provider, a product multiplies, a sum runs
over the values of its variables, a ratio divides. The provider is an arbitrary function `law` of
the leaf; `nodes` says which nodes a variable set names.

* `mem_openLevels`: a symbolic level that no sum binds is a free variable.
-/

namespace Antecedent.Expr.ExprTree

open Prob

section Eval

variable {V : Type*} [Fintype V] [DecidableEq V] {Ω : V → Type} [∀ v, Fintype (Ω v)]
  [∀ v, DecidableEq (Ω v)] (nodes : List Nat → Finset V) (law : Leaf → (∀ v, Ω v) → ℝ)

mutual

noncomputable def eval : ExprTree → (∀ v, Ω v) → ℝ
  | .distribution leaf => law leaf
  | .product factors => evalList factors
  | .sumOut vars body => marg (nodes vars) (eval body)
  | .ratio n d => fun x => eval n x / eval d x

/-- The product of the values of a list of trees. -/
noncomputable def evalList : List ExprTree → (∀ v, Ω v) → ℝ
  | [] => fun _ => 1
  | e :: es => fun x => eval e x * evalList es x

end

end Eval

mutual

/-- The symbolic intervention levels of the leaves that no enclosing sum binds. -/
def openLevels : ExprTree → List Nat
  | .distribution leaf => leaf.openLevels
  | .product factors => openLevelsList factors
  | .sumOut vars body => body.openLevels.filter (· ∉ vars)
  | .ratio n d => n.openLevels ++ d.openLevels

def openLevelsList : List ExprTree → List Nat
  | [] => []
  | e :: es => e.openLevels ++ openLevelsList es

end

mutual

/-- **A symbolic level that no sum binds is a free variable.** -/
theorem mem_openLevels {v : Nat} : ∀ e : ExprTree, v ∈ e.openLevels → v ∈ e.freeVariables
  | .distribution leaf, h => by
    rw [freeVariables, mem_sortDedup, List.mem_append]
    exact Or.inr h
  | .product factors, h => by
    rw [freeVariables, mem_sortDedup]
    exact mem_openLevelsList factors h
  | .sumOut vars body, h => by
    obtain ⟨hb, hv⟩ := List.mem_filter.mp h
    rw [freeVariables, mem_sortDedup]
    exact List.mem_filter.mpr ⟨mem_openLevels body hb, hv⟩
  | .ratio n d, h => by
    rw [freeVariables, mem_sortDedup, List.mem_append]
    exact (List.mem_append.mp h).imp (mem_openLevels n) (mem_openLevels d)

theorem mem_openLevelsList {v : Nat} : ∀ es : List ExprTree,
    v ∈ openLevelsList es → v ∈ freeVariablesList es
  | [], h => h
  | e :: es, h => List.mem_append.mpr
      ((List.mem_append.mp h).imp (mem_openLevels e) (mem_openLevelsList es))

end

end Antecedent.Expr.ExprTree
