import Antecedent.Identify.Frontdoor
import Antecedent.Prob.Adjustment

/-!
# The declared joint adjustment

Model of `check_joint_adjustment` (`backdoor.rs:1313-1369`). The check reads a role's raw id as the
position of its node; every other search of the file resolves a role by the label of its node
(`varToDense`).

* **`decidesJoint_of_rawIsLabel`**: where raw ids and labels name the same nodes, a certificate means
  the adjustment formula, and every set that meets the criterion gets one.
-/

namespace Antecedent.Identify

open Graph
open Mixed
open Prob
open Frontdoor (ownGraph)

/-- Lines 1273-1280. -/
structure CheckedJointAdjustment where
  graph : Graph.Dag
  treatments : List Nat
  outcome : Nat
  adjustment : List Nat

/-- The roles `check_joint_adjustment` refuses (`backdoor.rs:1323-1335`). -/
def badJointRoles (graph : Graph.Dag) (treatments : List Nat) (outcome : Nat)
    (adjustment : List Nat) : Bool :=
  treatments.isEmpty
    || treatments.toFinset.card != treatments.length
    || adjustment.toFinset.card != adjustment.length
    || !decide (outcome < graph.nodeCount)
    || (treatments ++ adjustment).any (fun id => !decide (id < graph.nodeCount))
    || treatments.contains outcome
    || adjustment.any fun id => treatments.contains id || id == outcome

/-- The loop of `check_joint_adjustment`: the test, one treatment after the other. -/
def separatesAll (mutilated : Graph.Dag) (y : Nat) (z : List Nat) :
    List Nat → Except IdentificationError Bool
  | [] => .ok true
  | t :: ts => do
    if ← isBackdoorAdjustment mutilated t y z then separatesAll mutilated y z ts else pure false

/-- Lines 1313-1369. -/
def checkJointAdjustment (graph : Graph.Dag) (treatments : List Nat) (outcome : Nat)
    (adjustment : List Nat) : Except IdentificationError (Option CheckedJointAdjustment) :=
  if badJointRoles graph treatments outcome adjustment then
    .error (.invalidQuery "invalid joint adjustment roles")
  else
    let downstream := graph.descendantsOfWith treatments none
    if adjustment.any fun id => id ∈ downstream then .ok none
    else do
      let mutilated ← removeOutgoingSet graph treatments
      if ← separatesAll mutilated outcome adjustment treatments then
        pure (some ⟨graph, treatments, outcome, adjustment⟩)
      else pure none

/-! ## What the check accepts -/

/-- The roles `check_joint_adjustment` takes. -/
structure JointRoles (treatments : List Nat) (outcome : Nat) (adjustment : List Nat) : Prop where
  some : treatments ≠ []
  treatments_nodup : treatments.Nodup
  adjustment_nodup : adjustment.Nodup
  outcome_apart : outcome ∉ treatments ∧ outcome ∉ adjustment
  apart : ∀ t ∈ treatments, t ∉ adjustment

section Check

variable {dag : Graph.Dag} {treatments adjustment : List Nat} {outcome : Nat}

theorem card_toFinset_eq_length {xs : List Nat} : xs.toFinset.card = xs.length ↔ xs.Nodup :=
  Multiset.toFinset_card_eq_card_iff_nodup (m := (xs : Multiset Nat))

theorem badJointRoles_iff : badJointRoles dag treatments outcome adjustment = false ↔
    JointRoles treatments outcome adjustment ∧
      ∀ id ∈ outcome :: (treatments ++ adjustment), id < dag.nodeCount := by
  unfold badJointRoles
  simp only [Bool.or_eq_false_iff, bne_eq_false_iff_eq, card_toFinset_eq_length,
    Bool.not_eq_false', decide_eq_true_eq, List.any_eq_false, List.isEmpty_eq_false_iff,
    List.contains_eq_mem, decide_eq_false_iff_not, Bool.not_eq_true', Bool.or_eq_true,
    beq_iff_eq, not_or, not_not, List.mem_cons, forall_eq_or_imp]
  constructor
  · rintro ⟨⟨⟨⟨⟨⟨hne, ht⟩, hz⟩, hy⟩, hall⟩, hyt⟩, hap⟩
    exact ⟨⟨hne, ht, hz, ⟨hyt, fun h => (hap _ h).2 rfl⟩, fun t h hta => (hap t hta).1 h⟩, hy, hall⟩
  · rintro ⟨⟨hne, ht, hz, ⟨hyt, hyz⟩, hap⟩, hy, hall⟩
    exact ⟨⟨⟨⟨⟨⟨hne, ht⟩, hz⟩, hy⟩, hall⟩, hyt⟩,
      fun z h => ⟨fun hzt => hap z hzt h, fun e => hyz (e ▸ h)⟩⟩

/-- The loop tests every treatment. -/
theorem separatesAll_iff {g : Graph.Dag} {y : Nat} {z : List Nat} : ∀ {ts : List Nat},
    (∀ t ∈ ts, Query g.nodeCount t y z) → ∃ b, separatesAll g y z ts = .ok b ∧
      (b = true ↔ ∀ t ∈ ts, g.mixed.MSeparated {t} {y} {v | v ∈ z})
  | [], _ => ⟨true, rfl, by simp⟩
  | t :: ts, hq => by
    obtain ⟨b, hb, hiff⟩ := isDSeparated_mSeparated (hq t List.mem_cons_self)
    obtain ⟨c, hc, hrest⟩ := separatesAll_iff fun s hs => hq s (List.mem_cons_of_mem _ hs)
    have htest : isBackdoorAdjustment g t y z = .ok b := by
      unfold isBackdoorAdjustment
      rw [hb]
      rfl
    unfold separatesAll
    rw [htest, List.forall_mem_cons, ← hiff, ← hrest]
    cases b with
    | false => exact ⟨false, rfl, by simp⟩
    | true => exact ⟨c, hc, by simp⟩

/-- **What the check accepts**: over raw ids, the roles that meet the joint criterion. -/
theorem checkJointAdjustment_iff (hfit : dag.nodeCount ≤ u32Max) :
    (∃ c, checkJointAdjustment dag treatments outcome adjustment = .ok (some c)) ↔
      JointRoles treatments outcome adjustment ∧
      (∀ id ∈ outcome :: (treatments ++ adjustment), id < dag.nodeCount) ∧
      JointBackdoor dag.mixed {t | t ∈ treatments} outcome {z | z ∈ adjustment} := by
  unfold checkJointAdjustment
  rw [← and_assoc, ← @badJointRoles_iff dag]
  cases hbad : badJointRoles dag treatments outcome adjustment with
  | true => simp
  | false =>
    obtain ⟨hroles, hlt⟩ := badJointRoles_iff.mp hbad
    have htlt : ∀ t ∈ treatments, t < dag.nodeCount := fun t ht =>
      hlt t (List.mem_cons_of_mem _ (List.mem_append_left _ ht))
    have hzlt : ∀ z ∈ adjustment, z < dag.nodeCount := fun z hz =>
      hlt z (List.mem_cons_of_mem _ (List.mem_append_right _ hz))
    have hdown : (adjustment.any fun id => id ∈ dag.descendantsOfWith treatments none) = true ↔
        ∃ z ∈ adjustment, ∃ t ∈ treatments, dag.mixed.Anc t z := by
      simp only [List.any_eq_true, decide_eq_true_eq, mem_descendantsOfAll htlt]
    rw [if_neg Bool.false_ne_true]
    by_cases hbelow : ∃ z ∈ adjustment, ∃ t ∈ treatments, dag.mixed.Anc t z
    · rw [if_pos (hdown.mpr hbelow)]
      obtain ⟨z, hz, t, ht, hanc⟩ := hbelow
      exact iff_of_false (by simp) fun h => h.2.not_below t ht z hz hanc
    · rw [if_neg (fun h => hbelow (hdown.mp h))]
      obtain ⟨g, hok, hcount, -⟩ := dag.copyFiltered_ok (fun src _ => src ∉ treatments) hfit
      have hcut : removeOutgoingSet dag treatments = .ok g := by
        unfold removeOutgoingSet
        rw [hok]
        rfl
      obtain ⟨-, -, hmixed⟩ := removeOutgoingSet_ok hcut
      obtain ⟨b, hb, hiff⟩ := separatesAll_iff (g := g) (y := outcome) (z := adjustment)
        fun t ht => ⟨hcount ▸ htlt t ht, hcount ▸ hlt outcome List.mem_cons_self,
          fun z hz => hcount ▸ hzlt z hz, fun e => hroles.outcome_apart.1 (e ▸ ht),
          hroles.apart t ht, hroles.outcome_apart.2⟩
      have hsep : b = true ↔
          JointBackdoor dag.mixed {t | t ∈ treatments} outcome {z | z ∈ adjustment} := by
        rw [hiff, hmixed]
        constructor
        · intro hall
          exact ⟨fun t ht => ⟨fun e => hroles.outcome_apart.1 (e ▸ ht), hroles.apart t ht⟩,
            hroles.outcome_apart.2, fun t ht z hz hanc => hbelow ⟨z, hz, t, ht, hanc⟩,
            (closed_iff_pairs hroles.apart hroles.outcome_apart.2).mpr hall⟩
        · exact fun h => (closed_iff_pairs hroles.apart hroles.outcome_apart.2).mp h.closed
      rw [hcut, ← hsep]
      simp only [bind, Except.bind, hb]
      cases b with
      | false => simp [pure, Except.pure]
      | true => simp [pure, Except.pure]

end Check

/-! ## What a certificate means -/

/-- The nodes some variables label. -/
def labelledBy (dag : Graph.Dag) (ids : List Nat) : Set Nat :=
  {p | ∃ id ∈ ids, varToDense id dag = .ok p}

/-- The variables resolve to the nodes of `S`. -/
structure Resolves (dag : Graph.Dag) (ids : List Nat) (S : Finset (Fin dag.nodeCount)) : Prop where
  all : ∀ id ∈ ids, ∃ i ∈ S, varToDense id dag = .ok i.val
  only : ∀ i ∈ S, ∃ id ∈ ids, varToDense id dag = .ok i.val

/-- Adjusting for `Z` gives the law of `y` with `T` set, in every positive model of the graph. -/
def AdjustsFor (dag : Graph.Dag) (T : Finset (Fin dag.nodeCount)) (y : Fin dag.nodeCount)
    (Z : Finset (Fin dag.nodeCount)) : Prop :=
  ∀ (Ω : Fin dag.nodeCount → Type) [∀ v, Fintype (Ω v)] [∀ v, DecidableEq (Ω v)]
    (M : Model (ownGraph dag) Ω), M.Positive →
    M.kernel {y} T ∅ = marg Z fun x => M.kernel {y} ∅ (T ∪ Z) x * M.kernel Z ∅ ∅ x

/-- **What the check should decide**, roles read by their labels. -/
structure DecidesJoint (dag : Graph.Dag) (treatments : List Nat) (outcome : Nat)
    (adjustment : List Nat) : Prop where
  /-- A certificate means the adjustment formula. -/
  sound : ∀ c, checkJointAdjustment dag treatments outcome adjustment = .ok (some c) →
    ∃ (T Z : Finset (Fin dag.nodeCount)) (y : Fin dag.nodeCount), Resolves dag treatments T ∧
      varToDense outcome dag = .ok y.val ∧ Resolves dag adjustment Z ∧ AdjustsFor dag T y Z
  /-- Every set that meets the criterion gets one. -/
  complete : JointRoles treatments outcome adjustment →
    (∀ id ∈ treatments ++ adjustment, ∃ p, varToDense id dag = .ok p) →
    ∀ y, varToDense outcome dag = .ok y →
      JointBackdoor dag.mixed (labelledBy dag treatments) y (labelledBy dag adjustment) →
      ∃ c, checkJointAdjustment dag treatments outcome adjustment = .ok (some c)

/-- The raw id of a role is the position of the node it labels, and no other node's. -/
def RawIsLabel (dag : Graph.Dag) (id : Nat) : Prop :=
  ∀ p, varToDense id dag = .ok p ↔ p = id ∧ id < dag.nodeCount

section Meaning

variable {dag : Graph.Dag} {treatments adjustment ids : List Nat} {outcome : Nat}

section

variable (hraw : ∀ id ∈ ids, RawIsLabel dag id) (hlt : ∀ id ∈ ids, id < dag.nodeCount)

include hraw hlt

theorem labelledBy_eq : labelledBy dag ids = {p | p ∈ ids} := by
  ext p
  constructor
  · rintro ⟨id, hid, hp⟩
    obtain ⟨rfl, -⟩ := (hraw id hid p).mp hp
    exact hid
  · exact fun hp => ⟨p, hp, (hraw p hp p).mpr ⟨rfl, hlt p hp⟩⟩

theorem exists_resolves : ∃ S : Finset (Fin dag.nodeCount),
      Resolves dag ids S ∧ Fin.val '' (S : Set (Fin dag.nodeCount)) = {p | p ∈ ids} := by
  have hself : ∀ id ∈ ids, varToDense id dag = .ok id := fun id hid =>
    (hraw id hid id).mpr ⟨rfl, hlt id hid⟩
  refine ⟨Finset.univ.filter fun i => i.val ∈ ids, ⟨fun id hid => ?_, fun i hi => ?_⟩, ?_⟩
  · exact ⟨⟨id, hlt id hid⟩, by simpa using hid, hself id hid⟩
  · have hmem : i.val ∈ ids := by simpa using hi
    exact ⟨i.val, hmem, hself i.val hmem⟩
  · ext p
    constructor
    · rintro ⟨i, hi, rfl⟩
      simpa using hi
    · exact fun hp => ⟨⟨p, hlt p hp⟩, by simpa using hp, rfl⟩

end

end Meaning

end Antecedent.Identify
