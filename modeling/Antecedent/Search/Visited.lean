import Mathlib.Algebra.Order.BigOperators.Group.List
import Mathlib.Algebra.Order.Ring.Nat
import Antecedent.Search.Worklist

/-!
# Worklist search that marks a node when it is popped

`Worklist.drain` marks a node when it is pushed. A loop that marks it when it is popped pushes it
once for every edge into it, so its fuel is a bound on the edges: `mem_visit` says that with more
fuel than edges the loop sees exactly the reachable nodes.
-/

namespace Antecedent.Worklist

variable {α : Type*} [DecidableEq α]

/-- Pop a node; mark it and push its successors unless it was marked before. -/
def visit (next : α → List α) : Nat → List α → List α → List α
  | 0, _, seen => seen
  | _ + 1, [], seen => seen
  | fuel + 1, u :: stack, seen =>
    if u ∈ seen then visit next fuel stack seen
    else visit next fuel ((next u).reverse ++ stack) (u :: seen)

/-- Edges out of the nodes of `U` that are not marked. -/
def edgesLeft (next : α → List α) (U seen : List α) : Nat :=
  (U.map fun u => if u ∈ seen then 0 else (next u).length).sum

variable {next : α → List α} {stack seen : List α} {U : List α}

theorem edgesLeft_cons_le (next : α → List α) (U seen : List α) (u : α) :
    edgesLeft next U (u :: seen) ≤ edgesLeft next U seen := by
  refine List.sum_le_sum fun x _ => ?_
  by_cases hx : x ∈ seen
  · rw [if_pos hx, if_pos (List.mem_cons_of_mem u hx)]
  · rw [if_neg hx]
    split_ifs
    · exact Nat.zero_le _
    · exact le_rfl

theorem edgesLeft_cons (next : α → List α) : ∀ {U seen : List α} {u : α}, u ∈ U → u ∉ seen →
    edgesLeft next U (u :: seen) + (next u).length ≤ edgesLeft next U seen
  | x :: U, seen, u, hu, hs => by
    have hcons : ∀ marks, edgesLeft next (x :: U) marks =
        (if x ∈ marks then 0 else (next x).length) + edgesLeft next U marks := fun _ => rfl
    rw [hcons, hcons]
    rcases List.mem_cons.mp hu with rfl | hu
    · have := edgesLeft_cons_le next U seen u
      rw [if_pos List.mem_cons_self, if_neg hs]
      omega
    · have := edgesLeft_cons next hu hs
      by_cases hx : x ∈ seen
      · rw [if_pos hx, if_pos (List.mem_cons_of_mem u hx)]
        omega
      · rw [if_neg hx]
        split_ifs <;> omega

/-- What the stack and the marks of a loop from `s` satisfy: all of them are reachable, and what a
marked node leads to is marked or pending. -/
structure Visiting (next : α → List α) (s : α) (stack seen : List α) : Prop where
  start : s ∈ seen ∨ s ∈ stack
  reached : ∀ v, v ∈ seen ∨ v ∈ stack → Reach next s v
  expanded : ∀ v ∈ seen, ∀ w ∈ next v, w ∈ seen ∨ w ∈ stack

omit [DecidableEq α] in
theorem Visiting.skip {s u : α} (h : Visiting next s (u :: stack) seen)
    (hu : u ∈ seen) : Visiting next s stack seen where
  start := h.start.elim Or.inl fun hs =>
    (List.mem_cons.mp hs).elim (fun e => Or.inl (e ▸ hu)) Or.inr
  reached := fun v hv => h.reached v (hv.imp id (List.mem_cons_of_mem u))
  expanded := fun v hv w hw => (h.expanded v hv w hw).elim Or.inl fun hs =>
    (List.mem_cons.mp hs).elim (fun e => Or.inl (e ▸ hu)) Or.inr

omit [DecidableEq α] in
theorem Visiting.mark {s u : α} (h : Visiting next s (u :: stack) seen) :
    Visiting next s ((next u).reverse ++ stack) (u :: seen) := by
  have hu : Reach next s u := h.reached u (Or.inr List.mem_cons_self)
  have hmove : ∀ v, v ∈ seen ∨ v ∈ u :: stack →
      v ∈ u :: seen ∨ v ∈ (next u).reverse ++ stack := by
    rintro v (hv | hv)
    · exact Or.inl (List.mem_cons_of_mem u hv)
    · rcases List.mem_cons.mp hv with rfl | hv
      · exact Or.inl List.mem_cons_self
      · exact Or.inr (List.mem_append_right _ hv)
  refine ⟨hmove s h.start, fun v hv => ?_, fun v hv w hw => ?_⟩
  · rcases hv with hv | hv
    · rcases List.mem_cons.mp hv with rfl | hv
      · exact hu
      · exact h.reached v (Or.inl hv)
    · rcases List.mem_append.mp hv with hv | hv
      · exact hu.tail (List.mem_reverse.mp hv)
      · exact h.reached v (Or.inr (List.mem_cons_of_mem u hv))
  · rcases List.mem_cons.mp hv with rfl | hv
    · exact Or.inr (List.mem_append_left _ (List.mem_reverse.mpr hw))
    · exact hmove w (h.expanded v hv w hw)

theorem visit_visiting {s : α} (hU : ∀ u, u ∉ U → next u = []) :
    ∀ (fuel : Nat) (stack seen : List α), Visiting next s stack seen →
      stack.length + edgesLeft next U seen < fuel →
      Visiting next s [] (visit next fuel stack seen)
  | 0, _, _, _, hf => absurd hf (Nat.not_lt_zero _)
  | _ + 1, [], _, h, _ => h
  | fuel + 1, u :: stack, seen, h, hf => by
    unfold visit
    rw [List.length_cons] at hf
    split_ifs with hu
    · exact visit_visiting hU fuel stack seen (h.skip hu) (by omega)
    · refine visit_visiting hU fuel _ _ h.mark ?_
      rw [List.length_append, List.length_reverse]
      by_cases hm : u ∈ U
      · have := edgesLeft_cons next hm hu
        omega
      · have := edgesLeft_cons_le next U seen u
        rw [hU u hm, List.length_nil]
        omega

/-- **With more fuel than edges the loop marks exactly the reachable nodes.** -/
theorem mem_visit {s v : α} {fuel : Nat} (hU : ∀ u, u ∉ U → next u = [])
    (hf : 1 + (U.map fun u => (next u).length).sum < fuel) :
    v ∈ visit next fuel [s] [] ↔ Reach next s v := by
  have h0 : Visiting next s [s] [] :=
    ⟨Or.inr List.mem_cons_self, fun v hv => by
      have : v = s := by simpa using hv
      exact this ▸ Relation.ReflTransGen.refl, fun v hv => absurd hv List.not_mem_nil⟩
  have h := visit_visiting hU fuel [s] [] h0 (by simpa [edgesLeft] using hf)
  refine ⟨fun hv => h.reached v (Or.inl hv), fun hr => ?_⟩
  induction hr with
  | refl => exact h.start.resolve_right List.not_mem_nil
  | tail _ hbc ih => exact (h.expanded _ ih _ hbc).resolve_right List.not_mem_nil

theorem nodup_visit : ∀ (fuel : Nat) (stack seen : List α), seen.Nodup →
    (visit next fuel stack seen).Nodup
  | 0, _, _, h => h
  | _ + 1, [], _, h => h
  | fuel + 1, u :: stack, seen, h => by
    unfold visit
    split_ifs with hu
    · exact nodup_visit fuel stack seen h
    · exact nodup_visit fuel _ _ (List.nodup_cons.mpr ⟨hu, h⟩)

end Antecedent.Worklist
