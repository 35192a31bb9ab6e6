import Mathlib.Logic.Basic

/-!
# Runs of a machine that may refuse

A machine steps by an operation or refuses it with an error, and a refused operation leaves its
state alone. `Meets P` says of a run that every operation the machine accepts meets a condition in
the state it is applied to.

* `run_step`: what every accepted operation relates holds between two states of a run.
-/

namespace Antecedent.Machine

variable {S O E : Type} (step : S → O → Except E S)

/-- The state after an operation, accepted or refused. -/
def next (s : S) (o : O) : S :=
  match step s o with
  | .ok s' => s'
  | .error _ => s

/-- The state after a list of operations. -/
def run (s : S) (ops : List O) : S := ops.foldl (next step) s

/-- Every accepted operation of the run meets `P` in the state it is applied to. -/
def Meets (P : S → O → Prop) : S → List O → Prop
  | _, [] => True
  | s, o :: ops => (∀ s', step s o = .ok s' → P s o) ∧ Meets P (next step s o) ops

variable {step} {P : S → O → Prop} {I : S → Prop}

theorem meets_of_forall (h : ∀ s o, P s o) : ∀ (ops : List O) (s : S),
    Meets step P s ops
  | [], _ => trivial
  | o :: ops, s => ⟨fun _ _ => h s o, meets_of_forall h ops _⟩

/-- **What every accepted operation preserves holds after a run.** -/
theorem run_inv
    (h : ∀ s o s', I s → P s o → step s o = .ok s' → I s') :
    ∀ (ops : List O) (s : S), I s → Meets step P s ops → I (run step s ops)
  | [], _, hs, _ => hs
  | o :: ops, s, hs, hm => by
    refine run_inv h ops (next step s o) ?_ hm.2
    unfold next
    cases hst : step s o with
    | ok s' => exact h s o s' hs (hm.1 s' hst) hst
    | error e => exact hs

/-- **A relation that every accepted operation respects relates the ends of a run.** -/
theorem run_step {R : S → S → Prop} (hrefl : ∀ s, R s s)
    (htrans : ∀ a b c, R a b → R b c → R a c)
    (hI : ∀ s o s', I s → step s o = .ok s' → I s')
    (h : ∀ s o s', I s → step s o = .ok s' → R s s') :
    ∀ (ops : List O) (s : S), I s → R s (run step s ops)
  | [], s, _ => hrefl s
  | o :: ops, s, hs => by
    have hn : I (next step s o) ∧ R s (next step s o) := by
      unfold next
      cases hst : step s o with
      | ok s' => exact ⟨hI s o s' hs hst, h s o s' hs hst⟩
      | error e => exact ⟨hs, hrefl s⟩
    exact htrans _ _ _ hn.2 (run_step hrefl htrans hI h ops _ hn.1)

/-- **A property holds in every state of a run iff every accepted operation meets the condition**,
where the condition is what one operation needs to keep the property. -/
theorem forall_run_iff {I W : S → Prop}
    (hW : ∀ s o s', W s → step s o = .ok s' → W s')
    (h : ∀ s o s', W s → I s → step s o = .ok s' → (I s' ↔ P s o)) :
    ∀ (ops : List O) (s : S), W s → I s →
      ((∀ n, I (run step s (ops.take n))) ↔ Meets step P s ops)
  | [], s, _, hI => by simp [run, Meets, hI]
  | o :: ops, s, hs, hI => by
    have hcons : (∀ n, I (run step s ((o :: ops).take n))) ↔
        ∀ n, I (run step (next step s o) (ops.take n)) := by
      refine ⟨fun hall n => hall (n + 1), fun hall n => ?_⟩
      cases n with
      | zero => exact hI
      | succ n => exact hall n
    rw [hcons]
    unfold Meets
    cases hst : step s o with
    | error e =>
      have hn : next step s o = s := by unfold next; rw [hst]
      rw [hn, forall_run_iff hW h ops s hs hI]
      simp
    | ok s' =>
      have hn : next step s o = s' := by unfold next; rw [hst]
      have hstep := h s o s' hs hI hst
      rw [hn]
      constructor
      · intro hall
        have hI' : I s' := hall 0
        refine ⟨fun t ht => hstep.mp hI', ?_⟩
        exact (forall_run_iff hW h ops s' (hW s o s' hs hst) hI').mp hall
      · rintro ⟨hP, hm⟩
        have hI' : I s' := hstep.mpr (hP s' rfl)
        exact (forall_run_iff hW h ops s' (hW s o s' hs hst) hI').mpr hm

end Antecedent.Machine
