import Mathlib.Order.Basic

/-!
# The search budget

Model of `SearchLimits`, `SearchStop` and `SearchBudget` (`antecedent-core/src/search.rs`), and of
the part of an `ExecutionContext` a budget reads: the cancellation token and the hard memory limit.
A token may trip at any of its observations, and stay so or not, hence its answers are an arbitrary
function of how many observations were made before. The receipts of a stop are texts and counters
for a caller and are left out.

* `charge_none`, `charge_some`: an admitted charge counts one operation; a refused one none.
-/

namespace Antecedent.Core

/-- `u64::MAX`, and `usize::MAX` on the 64-bit targets the code is built for. -/
def u64Max : Nat := 18446744073709551615

/-- `saturating_add` on 64 bits. -/
def satAdd (a b : Nat) : Nat := min (a + b) u64Max

/-- `saturating_mul` on 64 bits. -/
def satMul (a b : Nat) : Nat := min (a * b) u64Max

/-- `DEFAULT_SEARCH_MEMORY_BYTES`. -/
def defaultSearchMemoryBytes : Nat := 512 * 1024 * 1024

/-- `SearchLimits`; the operations are a `usize`. -/
structure SearchLimits where
  operations : Nat
  depth : Nat
  operations_le : operations ≤ u64Max

/-- The limits of `default_completion_search` (`completion.rs:35-43`). -/
def defaultCompletionLimits : SearchLimits := ⟨4000000, u64Max, by decide⟩

inductive SearchStop
  | operations
  | depth
  | memory
  | cancelled

/-- The part of `ExecutionContext` a budget reads: the answer of the token's observation number
`k`, and `memory.hard_limit_bytes`. -/
structure ExecutionContext where
  cancelled : Nat → Bool
  hardLimitBytes : Option Nat

/-- A context that never cancels, without a hard memory limit. -/
def ExecutionContext.production : ExecutionContext := ⟨fun _ => false, none⟩

/-- `SearchBudget`; `checks` counts the observations of the token so far. -/
structure SearchBudget where
  limits : SearchLimits
  ctx : ExecutionContext
  memoryLimitBytes : Nat
  operations : Nat
  depthReached : Nat
  checks : Nat

namespace SearchBudget

/-- `hard_limit_bytes.map_or(cap, |h| h.min(cap))`. -/
def memoryCap (ctx : ExecutionContext) (cap : Nat) : Nat :=
  match ctx.hardLimitBytes with
  | none => cap
  | some hard => min hard cap

/-- `SearchBudget::with_memory` (`search.rs:142-173`): the token is observed once, whatever the
outcome. -/
def withMemory (limits : SearchLimits) (memoryLimitBytes : Nat) (ctx : ExecutionContext)
    (checks : Nat) : Except SearchStop SearchBudget :=
  if ctx.cancelled checks then .error .cancelled
  else if limits.operations = 0 then .error .operations
  else if limits.depth = 0 then .error .depth
  else .ok ⟨limits, ctx, memoryCap ctx memoryLimitBytes, 0, 0, checks + 1⟩

/-- `SearchBudget::charge` (`search.rs:182-199`): the budget afterwards, and the bound that refused
the charge. -/
def charge (b : SearchBudget) (depth bytes : Nat) : SearchBudget × Option SearchStop :=
  let b' := { b with depthReached := max b.depthReached depth, checks := b.checks + 1 }
  if b.ctx.cancelled b.checks then (b', some .cancelled)
  else if b.memoryLimitBytes < bytes then (b', some .memory)
  else if b.limits.operations ≤ b.operations then (b', some .operations)
  else if b.limits.depth < depth then (b', some .depth)
  else ({ b' with operations := b.operations + 1 }, none)

/-- No more operations were charged than the limit allows. -/
def Fits (b : SearchBudget) : Prop := b.operations ≤ b.limits.operations

variable {b b' : SearchBudget} {depth bytes : Nat}

theorem withMemory_ok {limits : SearchLimits} {m checks : Nat} {ctx : ExecutionContext}
    (h : withMemory limits m ctx checks = .ok b) :
    b.limits = limits ∧ b.operations = 0 ∧ b.ctx = ctx := by
  unfold withMemory at h
  split_ifs at h
  cases h
  exact ⟨rfl, rfl, rfl⟩

theorem charge_none (h : b.charge depth bytes = (b', none)) :
    b.operations < b.limits.operations ∧ b'.limits = b.limits ∧
      b'.operations = b.operations + 1 := by
  unfold charge at h
  simp only at h
  split_ifs at h with h1 h2 h3 h4
  all_goals simp only [Prod.mk.injEq, reduceCtorEq, and_false] at h
  obtain ⟨rfl, -⟩ := h
  exact ⟨Nat.lt_of_not_le h3, rfl, rfl⟩

theorem charge_some {stop : SearchStop} (h : b.charge depth bytes = (b', some stop)) :
    b'.limits = b.limits ∧ b'.operations = b.operations := by
  unfold charge at h
  simp only at h
  split_ifs at h
  all_goals simp only [Prod.mk.injEq, reduceCtorEq, and_false] at h
  all_goals
    obtain ⟨rfl, -⟩ := h
    exact ⟨rfl, rfl⟩

end SearchBudget

end Antecedent.Core
