import Mathlib.Tactic.FieldSimp
import Mathlib.Tactic.Ring

/-!
# Means and scatters, one observation at a time

The mean and the scatter matrix of a list of observations, and how they change when one is added.

* **`mean_concat`, `scatter_concat`**: the rank-one update, from the mean before it on both axes.
-/

namespace Antecedent.Prob

variable {K ι : Type} [Field K]

def total (l : List (ι → K)) (a : ι) : K := (l.map fun x => x a).sum

/-- The sum of the products of two coordinates. -/
def cross (l : List (ι → K)) (a b : ι) : K := (l.map fun x => x a * x b).sum

def mean (l : List (ι → K)) (a : ι) : K := total l a / l.length

/-- The scatter of two coordinates around their means. -/
def scatter (l : List (ι → K)) (a b : ι) : K :=
  (l.map fun x => (x a - mean l a) * (x b - mean l b)).sum

variable {l : List (ι → K)} {x : ι → K} {a b : ι}

@[simp] theorem total_concat : total (l ++ [x]) a = total l a + x a := by
  simp [total]

@[simp] theorem cross_concat : cross (l ++ [x]) a b = cross l a b + x a * x b := by
  simp [cross]

theorem cross_comm : cross l a b = cross l b a := by
  simp only [cross, mul_comm]

/-- The products of two deviations, whatever they are measured from. -/
theorem sum_deviations (m k : K) : ∀ l : List (ι → K),
    (l.map fun x => (x a - m) * (x b - k)).sum =
      cross l a b - k * total l a - m * total l b + l.length * m * k
  | [] => by simp [cross, total]
  | x :: l => by
    have ih := sum_deviations m k l
    rw [List.map_cons, List.sum_cons, ih]
    simp only [cross, total, List.map_cons, List.sum_cons, List.length_cons, Nat.cast_add,
      Nat.cast_one]
    ring

theorem mean_singleton : mean [x] a = x a := by
  simp [mean, total]

theorem scatter_singleton : scatter [x] a b = 0 := by
  simp [scatter, mean_singleton]

variable [CharZero K]

theorem total_eq (hl : l ≠ []) : total l a = l.length * mean l a := by
  have hn : (l.length : K) ≠ 0 := Nat.cast_ne_zero.mpr (List.length_pos_iff.mpr hl).ne'
  unfold mean
  field_simp

/-- **The scatter from the sums of products.** -/
theorem scatter_eq (hl : l ≠ []) :
    scatter l a b = cross l a b - l.length * mean l a * mean l b := by
  rw [scatter, sum_deviations, total_eq hl, total_eq hl]
  ring

/-- **The mean moves towards the new observation.** -/
theorem mean_concat (hl : l ≠ []) :
    mean (l ++ [x]) a = mean l a + (x a - mean l a) / (l.length + 1) := by
  have hn : (l.length : K) + 1 ≠ 0 := Nat.cast_add_one_ne_zero _
  have hlen : ((l ++ [x]).length : K) = l.length + 1 := by simp
  rw [mean, hlen, total_concat, total_eq hl]
  field_simp
  ring

/-- **The scatter grows by a rank-one term.** -/
theorem scatter_concat (hl : l ≠ []) : scatter (l ++ [x]) a b =
    scatter l a b + (x a - mean l a) * (x b - mean l b) * (l.length / (l.length + 1)) := by
  have hn : (l.length : K) + 1 ≠ 0 := Nat.cast_add_one_ne_zero _
  have hlen : ((l ++ [x]).length : K) = l.length + 1 := by simp
  rw [scatter_eq (List.append_ne_nil_of_right_ne_nil _ (List.cons_ne_nil _ _)), scatter_eq hl,
    cross_concat, mean_concat hl, mean_concat hl, hlen]
  field_simp
  ring

end Antecedent.Prob
