import Antecedent.Discovery.Combinations
import Antecedent.Identify.Adjustment
import Antecedent.Search.Visits
import Mathlib.Order.Minimal

/-!
# The back-door search

Model of `BackdoorIdentifier::identify_ate` (`backdoor.rs:364-619`) and of
`EfficientBackdoorIdentifier::identify_ate` (`efficient.rs:130-372`): the existence test on the
ancestral set, the cap on candidates with the O-set behind it, the subset search under its
examination budget, and the order by cost. Subsets come in the order of `for_each_mask_of_size`
(`enum_masks.rs:70-108`), which steps through positions as `combinations` does.

The functional built for a set is left out; the levels of the two interventions, which are read
for each set and may be refused, are a parameter.

* **`identifyAte_exact`**, **`efficient_exact`**: the two searches refuse exactly when there is no
  admissible set, and what they return is admissible.
-/

namespace Antecedent.Identify

open Discovery
open Graph
open Visits

/-- `backdoor.rs:702-705`. -/
def denseToVar (id : Nat) (dag : Graph.Dag) : Except IdentificationError Nat :=
  match nodeVariableId dag.nodes id with
  | some v => .ok v
  | none => .error (.message "expected static node")

/-- `IdentificationResult` (`result.rs`), what the claims about the two searches read: the
adjustment sets as variables, and how the search ended. -/
inductive AdjustmentResult
  | notIdentified (examined : Nat)
  | identified (sets : List (List Nat)) (truncated budgetExhausted : Bool) (examined : Nat)

/-- What a search has done so far. -/
structure SearchState where
  examined : Nat
  truncated : Bool
  budgetExhausted : Bool
  valid : List (List Nat)

variable {C : Type} {config : AdjustmentSearchConfig C}

/-- `backdoor.rs:621-623`. -/
def isSubset (small big : List Nat) : Bool := small.all fun s => s ∈ big

/-- `charge_examination` (`backdoor.rs:630-643`); `false` when the budget is spent. -/
def chargeExamination (config : AdjustmentSearchConfig C) (st : SearchState) : SearchState × Bool :=
  if config.maxExaminations ≤ st.examined then ({ st with budgetExhausted := true }, false)
  else ({ st with examined := st.examined + 1 }, true)

/-- A set already in hand makes this one redundant (`backdoor.rs:461-465`). -/
def skipped (config : AdjustmentSearchConfig C) (valid : List (List Nat)) (z : List Nat) : Bool :=
  (config.minimalOnly && valid.any (isSubset · z)) ||
    (config.maximalOnly && !config.minimalOnly && valid.any (isSubset z ·))

/-- Keep a set that passed (`backdoor.rs:496-506`); the flag ends the search. -/
def keep (config : AdjustmentSearchConfig C) (st : SearchState) (z : List Nat) :
    SearchState × Bool :=
  let kept := { st with valid := st.valid ++ [z] }
  if config.minimalOnly && z.isEmpty then (kept, true)
  else if config.maxResults ≤ kept.valid.length then ({ kept with truncated := true }, true)
  else (kept, false)

/-- The visit of one subset (`backdoor.rs:453-507`). -/
def visit (p : AdjustmentProblem C) (config : AdjustmentSearchConfig C) (constructive : List Nat)
    (st : SearchState) (z : List Nat) : Except IdentificationError (SearchState × Bool) :=
  if skipped config st.valid z then
    let charged := chargeExamination config st
    .ok (charged.1, !charged.2)
  else if z ≠ constructive then
    let charged := chargeExamination config st
    if charged.2 then do
      if ← isBackdoorAdjustment p.mutilated p.t p.y z then pure (keep config charged.1 z)
      else pure (charged.1, false)
    else .ok (charged.1, true)
  else .ok (keep config st z)

/-- The sizes in the order of the search (`backdoor.rs:445-449`). -/
def sizes (config : AdjustmentSearchConfig C) (m : Nat) : List Nat :=
  if config.maximalOnly && !config.minimalOnly then (List.range (m + 1)).reverse
  else List.range (m + 1)

def masks (config : AdjustmentSearchConfig C) (candidates : List Nat) : List (List Nat) :=
  (sizes config candidates.length).flatMap (combinations candidates)

/-- The enumeration and its fallback (`backdoor.rs:440-526`). -/
def enumerate (p : AdjustmentProblem C) (config : AdjustmentSearchConfig C)
    (constructive candidates : List Nat) (start : SearchState) :
    Except IdentificationError SearchState := do
  let (st, _) ← visitAll (visit p config constructive) start (masks config candidates)
  if st.valid.isEmpty && st.budgetExhausted then pure { st with valid := [constructive] }
  else pure st

/-- `optimal_adjustment_set` (`efficient.rs:397-432`): the parents of the nodes on causal paths that
are neither `T` nor below such a node. -/
def optimalAdjustmentSet (dag : Graph.Dag) (t y : Nat) : List Nat :=
  let deT := dag.descendantsOfWith [t] none
  let anY := dag.ancestorsOfWith [y] none
  let cn := (List.range dag.nodeCount).filter fun v => v ≠ t ∧ v ∈ deT ∧ v ∈ anY
  let forb := insert t (dag.descendantsOfWith cn none)
  ((cn.flatMap dag.parents).filter (· ∉ forb)).eraseDups.mergeSort

/-- The O-set uses allowed nodes only and passes the test (`backdoor.rs:422-424`). -/
def oSetPasses (dag : Graph.Dag) (p : AdjustmentProblem C) : Except IdentificationError Bool :=
  let oSet := optimalAdjustmentSet dag p.t p.y
  if oSet.all fun v => v ∉ p.forbidden ∧ ¬ p.exceedsLag v = true then
    isBackdoorAdjustment p.mutilated p.t p.y oSet
  else .ok false

/-- The sets `identify_ate` settles on (`backdoor.rs:386-526`). -/
def adjustmentSets (dag : Graph.Dag) (p : AdjustmentProblem C) (config : AdjustmentSearchConfig C) :
    Except IdentificationError SearchState := do
  let constructive := screenAncestorCandidates dag p
  let found ← isBackdoorAdjustment p.mutilated p.t p.y constructive
  if !found then pure ⟨1, false, false, []⟩
  else if p.allowed.length ≤ config.maxCandidates then
    enumerate p config constructive p.allowed ⟨1, false, false, []⟩
  else if constructive.length ≤ config.maxCandidates then
    enumerate p config constructive constructive ⟨1, false, false, []⟩
  else if ← oSetPasses dag p then pure ⟨2, false, false, [optimalAdjustmentSet dag p.t p.y]⟩
  else pure ⟨2, false, false, [constructive]⟩

/-- The sets in the order of their cost, when costs are listed (`backdoor.rs:528-536`). -/
def byCost [CostOps C] (p : AdjustmentProblem C) (config : AdjustmentSearchConfig C) (valid : List (List Nat)) :
    List (List Nat) :=
  if config.measurementCosts.isEmpty then valid
  else valid.mergeSort fun a b => !CostOps.lt (p.totalCost b) (p.totalCost a)

/-- The variables of a set, with the levels read beside them (`backdoor.rs:586-589`). -/
def estimandVars {L : Type} (dag : Graph.Dag) (levels : Except IdentificationError L)
    (z : List Nat) : Except IdentificationError (List Nat) := do
  let vars ← z.mapM (denseToVar · dag)
  let _ ← levels
  pure vars

/-- `backdoor.rs:364-619`. -/
def identifyAte [CostOps C] {L : Type} (dag : Graph.Dag) (treatment outcome : Nat)
    (config : AdjustmentSearchConfig C) (levels : Except IdentificationError L) :
    Except IdentificationError AdjustmentResult := do
  let p ← AdjustmentProblem.new dag treatment outcome config
  let st ← adjustmentSets dag p config
  let valid := byCost p config st.valid
  if valid.isEmpty then pure (.notIdentified st.examined)
  else
    let sets ← valid.mapM (estimandVars dag levels)
    pure (.identified sets st.truncated st.budgetExhausted st.examined)

namespace Efficient

/-- The visit of one subset (`efficient.rs:240-265`). -/
def visit (p : AdjustmentProblem C) (config : AdjustmentSearchConfig C) (st : SearchState)
    (z : List Nat) : Except IdentificationError (SearchState × Bool) :=
  if config.maxExaminations ≤ st.examined then .ok ({ st with budgetExhausted := true }, true)
  else do
    let charged := { st with examined := st.examined + 1 }
    if ← isBackdoorAdjustment p.mutilated p.t p.y z then
      let kept := { charged with valid := charged.valid ++ [z] }
      pure (kept, config.maxResults ≤ kept.valid.length)
    else pure (charged, false)

/-- The loop over sizes (`efficient.rs:237-277`): the first size with a valid set ends it. -/
def search (p : AdjustmentProblem C) (config : AdjustmentSearchConfig C) (candidates : List Nat) :
    SearchState → List Nat → Except IdentificationError SearchState
  | st, [] => .ok st
  | st, size :: rest => do
    let (st, stopped) ← visitAll (visit p config) st (combinations candidates size)
    if stopped then pure { st with truncated := true }
    else if !st.valid.isEmpty then pure st
    else search p config candidates st rest

/-- The preference among valid sets (`efficient.rs:308-327`): fewer nodes, more parents of `T`,
lower cost, then the nodes. -/
def prefer [CostOps C] (dag : Graph.Dag) (p : AdjustmentProblem C) (a b : List Nat) : Bool :=
  let inParents := fun z : List Nat => (z.filter fun n => n ∈ dag.parents p.t).length
  let byCost : Ordering := if CostOps.lt (p.totalCost a) (p.totalCost b) then .lt
    else if CostOps.lt (p.totalCost b) (p.totalCost a) then .gt else .eq
  let order := (compare a.length b.length).then ((compare (inParents b) (inParents a)).then
    (byCost.then (compare a.mergeSort b.mergeSort)))
  order ≠ .gt

/-- `efficient.rs:334-372`. -/
def finish {L : Type} (dag : Graph.Dag) (levels : Except IdentificationError L) (z : List Nat)
    (truncated budgetExhausted : Bool) (examined : Nat) :
    Except IdentificationError AdjustmentResult := do
  let vars ← estimandVars dag levels z
  pure (.identified [vars] truncated budgetExhausted examined)

/-- `efficient.rs:130-332`. -/
def identifyAte [CostOps C] {L : Type} (dag : Graph.Dag) (treatment outcome : Nat)
    (config : AdjustmentSearchConfig C) (levels : Except IdentificationError L) :
    Except IdentificationError AdjustmentResult := do
  let p ← AdjustmentProblem.new dag treatment outcome config
  if ← oSetPasses dag p then
    finish dag levels (optimalAdjustmentSet dag p.t p.y) false false 1
  else
    let constructive := screenAncestorCandidates dag p
    let found ← isBackdoorAdjustment p.mutilated p.t p.y constructive
    if !found then pure (.notIdentified 2)
    else
      let candidates := if config.maxCandidates < p.allowed.length then constructive else p.allowed
      if config.maxCandidates < candidates.length then finish dag levels constructive false false 2
      else
        let st ← search p config candidates ⟨2, false, false, []⟩ (sizes config candidates.length)
        if st.valid.isEmpty && st.budgetExhausted then
          finish dag levels constructive false true st.examined
        else
          match st.valid.mergeSort (prefer dag p) with
          | best :: _ => finish dag levels best st.truncated false st.examined
          -- the source unwraps here: `efficient_exact` shows there is a set
          | [] => .error (.invariantViolated "non-empty")

end Efficient

/-! ## The subsets -/

theorem mem_masks {candidates z : List Nat} :
    z ∈ masks config candidates ↔ z.Sublist candidates := by
  have hsize : ∀ k, k ∈ sizes config candidates.length ↔ k ≤ candidates.length := fun k => by
    unfold sizes
    split <;> simp [Nat.lt_succ_iff]
  unfold masks
  rw [List.mem_flatMap]
  constructor
  · rintro ⟨k, -, hz⟩
    exact (mem_combinations.mp hz).1
  · exact fun hz => ⟨z.length, (hsize _).mpr hz.length_le, mem_combinations.mpr ⟨hz, rfl⟩⟩

/-- Unless larger sets are asked for, the subsets come by size. -/
theorem masks_sorted (h : config.minimalOnly = true)
    (candidates : List Nat) :
    (masks config candidates).Pairwise fun v w => v.length ≤ w.length := by
  have hsizes : sizes config candidates.length = List.range (candidates.length + 1) := by
    unfold sizes
    rw [h]
    simp
  unfold masks
  rw [hsizes, List.pairwise_flatMap]
  refine ⟨fun k _ => List.pairwise_of_forall_mem_list fun v hv w hw => ?_, ?_⟩
  · rw [(mem_combinations.mp hv).2, (mem_combinations.mp hw).2]
  · refine List.pairwise_lt_range.imp fun {j k} hjk v hv w hw => ?_
    rw [(mem_combinations.mp hv).2, (mem_combinations.mp hw).2]
    exact hjk.le

theorem isSubset_iff {small big : List Nat} : isSubset small big = true ↔ small ⊆ big := by
  unfold isSubset
  rw [List.all_eq_true]
  exact forall₂_congr fun s _ => decide_eq_true_iff

/-! ## What the search finds -/

section Found

variable {dag : Graph.Dag} {config : AdjustmentSearchConfig C} {p : AdjustmentProblem C}
  {candidates constructive : List Nat}

def Good (dag : Graph.Dag) (config : AdjustmentSearchConfig C) (p : AdjustmentProblem C)
    (z : List Nat) : Prop :=
  Admissible dag config p.t p.y {v | v ∈ z}

/-- What holds of the sets in hand: they are adjustment sets, and minimal when that is asked for. -/
structure Found (dag : Graph.Dag) (config : AdjustmentSearchConfig C) (p : AdjustmentProblem C)
    (candidates : List Nat) (st : SearchState) : Prop where
  sound : ∀ z ∈ st.valid, z.Sublist candidates ∧ Good dag config p z
  minimal : config.minimalOnly = true → ∀ w ∈ st.valid, ∀ v, v.Sublist candidates →
    Good dag config p v → v.length < w.length → ¬ v ⊆ w

/-- Every adjustment set of `seq` is met by a set in hand, one inside it when minimal sets are asked
for. -/
def Covers (dag : Graph.Dag) (config : AdjustmentSearchConfig C) (p : AdjustmentProblem C)
    (seq : List (List Nat)) (st : SearchState) : Prop :=
  ∀ z ∈ seq, Good dag config p z → ∃ w ∈ st.valid, config.minimalOnly = true → w ⊆ z

/-- How the search may end before its last subset. -/
def Ended (st : SearchState) : Prop :=
  st.budgetExhausted = true ∨ st.truncated = true ∧ st.valid ≠ [] ∨ [] ∈ st.valid

variable {st : SearchState} {z : List Nat} {before : List (List Nat)} {treatment outcome : Nat}
  {levels : Except IdentificationError L}
  {L : Type}

theorem Found.of_valid {st' : SearchState} (h : Found dag config p candidates st)
    (hv : st'.valid = st.valid) : Found dag config p candidates st' :=
  ⟨fun z hz => h.sound z (hv ▸ hz), fun hm w hw => h.minimal hm w (hv ▸ hw)⟩

theorem chargeExamination_valid (config : AdjustmentSearchConfig C) (st : SearchState) :
    (chargeExamination config st).1.valid = st.valid := by
  unfold chargeExamination
  split <;> rfl

theorem chargeExamination_refused (h : (chargeExamination config st).2 = false) :
    (chargeExamination config st).1.budgetExhausted = true := by
  unfold chargeExamination at h ⊢
  split at h
  · rw [if_pos ‹_›]
  · cases h

theorem keep_valid (config : AdjustmentSearchConfig C) (st : SearchState) (z : List Nat) :
    (keep config st z).1.valid = st.valid ++ [z] := by
  unfold keep
  simp only
  split
  · rfl
  · split <;> rfl

theorem keep_ended (h : (keep config st z).2 = true) :
    Ended (keep config st z).1 := by
  unfold keep at h ⊢
  simp only at h ⊢
  by_cases hempty : (config.minimalOnly && z.isEmpty) = true
  · obtain rfl : z = [] := by simpa using (Bool.and_eq_true_iff.mp hempty).2
    rw [if_pos hempty]
    exact .inr (.inr (by simp))
  · rw [if_neg hempty] at h ⊢
    split at h
    · rw [if_pos ‹_›]
      exact .inr (.inl ⟨rfl, by simp⟩)
    · cases h

/-- A set that is passed over is met by the one that makes it redundant. -/
theorem covers_of_skipped
    (h : skipped config st.valid z = true) : ∃ w ∈ st.valid, config.minimalOnly = true → w ⊆ z := by
  unfold skipped at h
  rcases (Bool.or_eq_true _ _).mp h with h | h
  · obtain ⟨w, hw, hsub⟩ := List.any_eq_true.mp (Bool.and_eq_true_iff.mp h).2
    exact ⟨w, hw, fun _ => isSubset_iff.mp hsub⟩
  · obtain ⟨hmode, hany⟩ := Bool.and_eq_true_iff.mp h
    obtain ⟨w, hw, -⟩ := List.any_eq_true.mp hany
    exact ⟨w, hw, fun hm => by simp [hm] at hmode⟩

/-- Keeping a set that is not redundant: every smaller subset has been visited. -/
theorem Found.keep (h : Found dag config p candidates st) (hc : Covers dag config p before st)
    (hsub : z.Sublist candidates) (hgood : Good dag config p z)
    (hskip : skipped config st.valid z = false)
    (hbefore : config.minimalOnly = true → ∀ v, v.Sublist candidates → v.length < z.length →
      v ∈ before) (st' : SearchState) (hst' : st'.valid = st.valid ++ [z]) :
    Found dag config p candidates st' := by
  refine ⟨fun w hw => ?_, fun hm w hw v hv hvgood hlt hvw => ?_⟩
  · rw [hst'] at hw
    rcases List.mem_append.mp hw with hw | hw
    · exact h.sound w hw
    · obtain rfl := List.mem_singleton.mp hw
      exact ⟨hsub, hgood⟩
  · rw [hst'] at hw
    rcases List.mem_append.mp hw with hw | hw
    · exact h.minimal hm w hw v hv hvgood hlt hvw
    · obtain rfl := List.mem_singleton.mp hw
      obtain ⟨u, hu, huv⟩ := hc v (hbefore hm v hv hlt) hvgood
      have hred : skipped config st.valid w = true := by
        have huw : isSubset u w = true := isSubset_iff.mpr (List.Subset.trans (huv hm) hvw)
        have hany : st.valid.any (isSubset · w) = true := List.any_eq_true.mpr ⟨u, hu, huw⟩
        unfold skipped
        rw [hm, hany]
        rfl
      exact Bool.false_ne_true (hskip.symm.trans hred)

section

variable (hp : p.Of dag config) (hcand : ∀ v ∈ candidates, v ∈ p.allowed)

include hp hcand

/-- **What one visit does** in the course of the search. -/
theorem visit_spec (hcons : Good dag config p constructive) (hf : Found dag config p candidates st)
    (hc : Covers dag config p before st) (hsub : z.Sublist candidates)
    (hbefore : config.minimalOnly = true → ∀ v, v.Sublist candidates → v.length < z.length → v ∈ before) :
    ∃ r, visit p config constructive st z = .ok r ∧ Found dag config p candidates r.1 ∧
      (r.2 = false → Covers dag config p (before ++ [z]) r.1) ∧ (r.2 = true → Ended r.1) := by
  have hmore : ∀ st' : SearchState, (∃ w ∈ st'.valid, config.minimalOnly = true → w ⊆ z) ∨
      ¬ Good dag config p z → (∀ w ∈ st.valid, w ∈ st'.valid) →
      Covers dag config p (before ++ [z]) st' := fun st' hz hgrow v hv hgood => by
    rcases List.mem_append.mp hv with hv | hv
    · obtain ⟨w, hw, hwv⟩ := hc v hv hgood
      exact ⟨w, hgrow w hw, hwv⟩
    · obtain rfl := List.mem_singleton.mp hv
      exact hz.resolve_right fun hno => hno hgood
  have hcharged := chargeExamination_valid config st
  -- a set that passes is kept
  have hkept : ∀ st₁ : SearchState, st₁.valid = st.valid → skipped config st.valid z = false →
      Good dag config p z → Found dag config p candidates (keep config st₁ z).1 ∧
      Covers dag config p (before ++ [z]) (keep config st₁ z).1 := fun st₁ hst₁ hskip hgood => by
    have hval : (Identify.keep config st₁ z).1.valid = st.valid ++ [z] := by rw [keep_valid, hst₁]
    refine ⟨hf.keep hc hsub hgood hskip hbefore _ hval, hmore _ (.inl ⟨z, ?_, fun _ => ?_⟩) ?_⟩
    · rw [hval]
      simp
    · exact List.Subset.refl z
    · exact fun w hw => by rw [hval]; exact List.mem_append_left _ hw
  unfold visit
  by_cases hskip : skipped config st.valid z = true
  · rw [if_pos hskip]
    refine ⟨_, rfl, hf.of_valid hcharged, fun _ => ?_, fun h => ?_⟩
    · exact hmore _ (.inl (hcharged ▸ covers_of_skipped hskip)) fun w hw => hcharged ▸ hw
    · exact .inl (chargeExamination_refused (by simpa using h))
  · rw [if_neg hskip]
    rw [Bool.not_eq_true] at hskip
    split_ifs with hz
    · by_cases hgranted : (chargeExamination config st).2 = true
      · obtain ⟨b, hb, hiff⟩ := hp.admissible_iff fun v hv => hcand v (hsub.subset hv)
        simp only [if_pos hgranted, hb, bind, Except.bind, pure, Except.pure]
        cases b with
        | true =>
          obtain ⟨h₁, h₂⟩ := hkept _ hcharged hskip (hiff.mp rfl)
          exact ⟨_, rfl, h₁, fun _ => h₂, keep_ended⟩
        | false =>
          refine ⟨_, rfl, hf.of_valid hcharged, fun _ => ?_, fun h => by cases h⟩
          exact hmore _ (.inr fun hg => Bool.false_ne_true (hiff.mpr hg)) fun w hw => hcharged ▸ hw
      · simp only [if_neg hgranted]
        exact ⟨_, rfl, hf.of_valid hcharged, fun h => (by cases h), fun _ =>
          .inl (chargeExamination_refused (Bool.eq_false_of_not_eq_true hgranted))⟩
    · obtain ⟨h₁, h₂⟩ := hkept st rfl hskip (not_not.mp hz ▸ hcons)
      exact ⟨_, rfl, h₁, fun _ => h₂, keep_ended⟩

/-- **What the search finds**: adjustment sets, and one for each adjustment set unless its budget or
its cap ends it. -/
theorem search_spec (hcons : Good dag config p constructive) (start : SearchState)
    (hstart : start.valid = []) :
    ∃ r, visitAll (visit p config constructive) start (masks config candidates) = .ok r ∧
      Found dag config p candidates r.1 ∧
      (Covers dag config p (masks config candidates) r.1 ∨ r.1.budgetExhausted = true ∨
        r.1.truncated = true ∧ r.1.valid ≠ []) := by
  have hfound : Found dag config p candidates start :=
    ⟨fun z hz => (by rw [hstart] at hz; cases hz), fun _ w hw => (by rw [hstart] at hw; cases hw)⟩
  obtain ⟨r, hr, hgo, hstop⟩ := visitAll_spec
    (fun before st => Found dag config p candidates st ∧ Covers dag config p before st)
    (fun st => Found dag config p candidates st ∧ Ended st)
    (masks config candidates) start ⟨hfound, fun z hz => by cases hz⟩
    fun before z after st heq hinv => by
      have hmem : z ∈ masks config candidates := heq ▸ by simp
      -- the subsets come by size: a smaller one is behind
      have hbefore : config.minimalOnly = true → ∀ v, v.Sublist candidates →
          v.length < z.length → v ∈ before := fun hm v hv hlt => by
        have hsorted := masks_sorted hm candidates
        have hvmem : v ∈ masks config candidates := mem_masks.mpr hv
        rw [heq] at hsorted hvmem
        rcases List.mem_append.mp hvmem with hv | hv
        · exact hv
        · rcases List.mem_cons.mp hv with rfl | hv
          · exact absurd hlt (Nat.lt_irrefl _)
          · have := (List.pairwise_cons.mp (List.pairwise_append.mp hsorted).2.1).1 v hv
            omega
      obtain ⟨r, hr, hf, hgo, hstop⟩ := visit_spec hp hcand hcons hinv.1 hinv.2
        (mem_masks.mp hmem) hbefore
      exact ⟨r, hr, fun h => ⟨hf, hgo h⟩, fun h => ⟨hf, hstop h⟩⟩
  refine ⟨r, hr, ?_⟩
  cases hend : r.2 with
  | false => exact ⟨(hgo hend).1, .inl (hgo hend).2⟩
  | true =>
    refine ⟨(hstop hend).1, ?_⟩
    rcases (hstop hend).2 with h | h | h
    · exact .inr (.inl h)
    · exact .inr (.inr h)
    · exact .inl fun z _ _ => ⟨[], h, fun _ => List.nil_subset z⟩

/-- **What the enumeration returns.** -/
theorem enumerate_spec (hsub : constructive.Sublist candidates)
    (hcons : Good dag config p constructive) (start : SearchState) (hstart : start.valid = []) :
    ∃ st, enumerate p config constructive candidates start = .ok st ∧
      (∀ z ∈ st.valid, (∀ v ∈ z, v ∈ p.allowed) ∧ Good dag config p z) ∧ st.valid ≠ [] ∧
      (st.budgetExhausted = false → st.truncated = false → Found dag config p candidates st ∧
        Covers dag config p (masks config candidates) st) := by
  obtain ⟨r, hr, hf, hend⟩ := search_spec hp hcand hcons start hstart
  unfold enumerate
  simp only [hr, bind, Except.bind, pure, Except.pure]
  split_ifs with hfallback
  · refine ⟨_, rfl, fun z hz => ?_, List.cons_ne_nil _ _, fun hb => ?_⟩
    · obtain rfl := List.mem_singleton.mp hz
      exact ⟨fun v hv => hcand v (hsub.subset hv), hcons⟩
    · exact absurd ((Bool.and_eq_true_iff.mp hfallback).2.symm.trans hb) (by decide)
  · refine ⟨_, rfl, fun z hz => ⟨fun v hv => hcand v ((hf.sound z hz).1.subset hv),
      (hf.sound z hz).2⟩, fun hnil => ?_, fun hb ht => ⟨hf, ?_⟩⟩
    · rcases hend with hc | hb | ⟨-, hne⟩
      · obtain ⟨w, hw, -⟩ := hc constructive (mem_masks.mpr hsub) hcons
        rw [hnil] at hw
        cases hw
      · exact hfallback (by rw [hnil, hb]; rfl)
      · exact hne hnil
    · rcases hend with hc | hb' | ⟨ht', -⟩
      · exact hc
      · exact absurd (hb'.symm.trans hb) (by decide)
      · exact absurd (ht'.symm.trans ht) (by decide)

end

theorem screen_sublist (hp : p.Of dag config) :
    (screenAncestorCandidates dag p).Sublist p.allowed := by
  have heq : screenAncestorCandidates dag p =
      p.allowed.filter fun id => id ∈ dag.ancestorsOfWith [p.t, p.y] none := by
    unfold screenAncestorCandidates AdjustmentProblem.allowed
    rw [hp.candidates, List.filter_filter, List.filter_filter]
    refine List.filter_congr fun id _ => ?_
    cases p.exceedsLag id <;> simp
  rw [heq]
  exact List.filter_sublist

theorem oSetPasses_spec (hp : p.Of dag config) : ∃ b, oSetPasses dag p = .ok b ∧
    (b = true → (∀ v ∈ optimalAdjustmentSet dag p.t p.y, v ∈ p.allowed) ∧
      Good dag config p (optimalAdjustmentSet dag p.t p.y)) := by
  unfold oSetPasses
  simp only
  split
  · rename_i hall
    have hmem : ∀ v ∈ optimalAdjustmentSet dag p.t p.y, v ∈ p.allowed := fun v hv => by
      have hlt : v < dag.nodeCount := by
        unfold optimalAdjustmentSet at hv
        rw [List.mem_mergeSort, List.mem_eraseDups, List.mem_filter, List.mem_flatMap] at hv
        obtain ⟨⟨c, -, hvc⟩, -⟩ := hv
        exact (dag.valid.in_range v c ((dag.valid.mirrored v c).mp hvc)).1
      have hok := List.all_eq_true.mp hall v hv
      rw [decide_eq_true_eq, Bool.not_eq_true] at hok
      exact hp.mem_allowed.mpr ⟨hlt, hok⟩
    obtain ⟨b, hb, hiff⟩ := hp.admissible_iff hmem
    exact ⟨b, hb, fun h => ⟨hmem, hiff.mp h⟩⟩
  · exact ⟨false, rfl, fun h => by cases h⟩

/-- **What `identify_ate` settles on.** -/
theorem adjustmentSets_spec (hp : p.Of dag config) :
    ∃ st, adjustmentSets dag p config = .ok st ∧
      (∀ z ∈ st.valid, Good dag config p z) ∧
      (st.valid = [] ↔ ¬ ∃ z, Admissible dag config p.t p.y z) ∧
      (p.allowed.length ≤ config.maxCandidates → st.budgetExhausted = false →
        st.truncated = false → Found dag config p p.allowed st ∧
          Covers dag config p (masks config p.allowed) st) := by
  have hscreen := screen_sublist hp
  obtain ⟨b, hb, hiff⟩ := hp.admissible_iff fun v hv => hscreen.subset hv
  unfold adjustmentSets
  simp only [hb, bind, Except.bind, pure, Except.pure]
  cases b with
  | false =>
    have hnone : ¬ ∃ z, Admissible dag config p.t p.y z := fun hex =>
      Bool.false_ne_true (hiff.mpr (hp.constructive_iff.mpr hex))
    exact ⟨_, rfl, fun z hz => (by cases hz), iff_of_true rfl hnone, fun _ _ _ =>
      ⟨⟨fun z hz => (by cases hz), fun _ w hw => (by cases hw)⟩, fun z _ hg =>
        absurd ⟨_, hg⟩ hnone⟩⟩
  | true =>
    have hcons : Good dag config p (screenAncestorCandidates dag p) := hiff.mp rfl
    have hsome : ¬ ¬ ∃ z, Admissible dag config p.t p.y z := not_not_intro ⟨_, hcons⟩
    by_cases hcap : p.allowed.length ≤ config.maxCandidates
    · obtain ⟨st, hst, hsound, hne, hexact⟩ := enumerate_spec hp (fun v hv => hv) hscreen hcons
        ⟨1, false, false, []⟩ rfl
      refine ⟨st, ?_, fun z hz => (hsound z hz).2, iff_of_false hne hsome, fun _ => hexact⟩
      simpa [hcap] using hst
    · by_cases hcap' : (screenAncestorCandidates dag p).length ≤ config.maxCandidates
      · obtain ⟨st, hst, hsound, hne, -⟩ := enumerate_spec hp (fun v hv => hscreen.subset hv)
          (List.Sublist.refl _) hcons ⟨1, false, false, []⟩ rfl
        refine ⟨st, ?_, fun z hz => (hsound z hz).2, iff_of_false hne hsome,
          fun h => absurd h hcap⟩
        simpa [hcap, hcap'] using hst
      · obtain ⟨o, ho, hpass⟩ := oSetPasses_spec hp
        simp only [Bool.not_true, Bool.false_eq_true, if_false, hcap, hcap', ho]
        cases o with
        | true =>
          refine ⟨_, rfl, fun z hz => ?_, iff_of_false (List.cons_ne_nil _ _) hsome,
            fun h => h.elim⟩
          obtain rfl := List.mem_singleton.mp hz
          exact (hpass rfl).2
        | false =>
          refine ⟨_, rfl, fun z hz => ?_, iff_of_false (List.cons_ne_nil _ _) hsome,
            fun h => h.elim⟩
          obtain rfl := List.mem_singleton.mp hz
          exact hcons

/-! ## The efficient search -/

/-- What holds of the efficient search before a subset: what it has is good, and it has a set once a
good one was visited. -/
def Efficient.Kept (dag : Graph.Dag) (config : AdjustmentSearchConfig C) (p : AdjustmentProblem C)
    (before : List (List Nat)) (st : SearchState) : Prop :=
  (∀ z ∈ st.valid, Good dag config p z) ∧ (st.valid = [] → ∀ z ∈ before, ¬ Good dag config p z)

theorem Efficient.visit_spec (hp : p.Of dag config) (hz : ∀ v ∈ z, v ∈ p.allowed)
    (hinv : Efficient.Kept dag config p before st) :
    ∃ r, Efficient.visit p config st z = .ok r ∧
      (r.2 = false → Efficient.Kept dag config p (before ++ [z]) r.1) ∧
      (r.2 = true → (∀ z ∈ r.1.valid, Good dag config p z) ∧
        (r.1.valid = [] → r.1.budgetExhausted = true)) := by
  unfold Efficient.visit
  split_ifs with hbudget
  · exact ⟨_, rfl, fun h => (by cases h), fun _ => ⟨hinv.1, fun _ => rfl⟩⟩
  · obtain ⟨b, hb, hiff⟩ := hp.admissible_iff hz
    simp only [hb, bind, Except.bind, pure, Except.pure]
    cases b with
    | true =>
      have hgood : ∀ w ∈ st.valid ++ [z], Good dag config p w := fun w hw => by
        rcases List.mem_append.mp hw with hw | hw
        · exact hinv.1 w hw
        · obtain rfl := List.mem_singleton.mp hw
          exact hiff.mp rfl
      have hne : st.valid ++ [z] ≠ [] := by simp
      exact ⟨_, rfl, fun _ => ⟨hgood, fun h => absurd h hne⟩, fun _ =>
        ⟨hgood, fun h => absurd h hne⟩⟩
    | false =>
      refine ⟨_, rfl, fun _ => ⟨hinv.1, fun h w hw => ?_⟩, fun h => by cases h⟩
      rcases List.mem_append.mp hw with hw | hw
      · exact hinv.2 h w hw
      · obtain rfl := List.mem_singleton.mp hw
        exact fun hg => Bool.false_ne_true (hiff.mpr hg)

/-- **What the loop over sizes finds.** -/
theorem Efficient.search_spec (hp : p.Of dag config) (hcand : ∀ v ∈ candidates, v ∈ p.allowed) :
    ∀ (ks : List Nat) (st : SearchState), st.valid = [] →
      ∃ st', Efficient.search p config candidates st ks = .ok st' ∧
        (∀ z ∈ st'.valid, Good dag config p z) ∧
        (st'.valid = [] → st'.budgetExhausted = true ∨
          ∀ k ∈ ks, ∀ z ∈ combinations candidates k, ¬ Good dag config p z)
  | [], st, hst => ⟨st, rfl, fun z hz => (by rw [hst] at hz; cases hz), fun _ =>
      .inr fun _ hk => by cases hk⟩
  | k :: ks, st, hst => by
    have hstart : Efficient.Kept dag config p [] st :=
      ⟨fun z hz => (by rw [hst] at hz; cases hz), fun _ z hz => (by cases hz)⟩
    obtain ⟨r, hr, hgo, hstop⟩ := visitAll_spec (Efficient.Kept dag config p)
      (fun st' => (∀ z ∈ st'.valid, Good dag config p z) ∧
        (st'.valid = [] → st'.budgetExhausted = true))
      (combinations candidates k) st hstart fun before z after st heq hinv => by
        have hz : z ∈ combinations candidates k := by
          rw [heq]
          simp
        exact Efficient.visit_spec hp
          (fun v hv => hcand v ((mem_combinations.mp hz).1.subset hv)) hinv
    unfold Efficient.search
    simp only [hr, bind, Except.bind, pure, Except.pure]
    cases hend : r.2 with
    | true =>
      obtain ⟨hgood, hnil⟩ := hstop hend
      exact ⟨_, rfl, hgood, fun h => .inl (hnil h)⟩
    | false =>
      obtain ⟨hgood, hnone⟩ := hgo hend
      by_cases hempty : r.1.valid = []
      · obtain ⟨st', hst', hgood', hnil'⟩ := Efficient.search_spec hp hcand ks r.1 hempty
        refine ⟨st', by simpa [hempty] using hst', hgood', fun h => ?_⟩
        rcases hnil' h with hb | hrest
        · exact .inl hb
        · refine .inr fun j hj z hz => ?_
          rcases List.mem_cons.mp hj with rfl | hj
          · exact hnone hempty z hz
          · exact hrest j hj z hz
      · exact ⟨r.1, by simp [hempty], hgood, fun h => absurd h hempty⟩

/-! ## What the two identifiers report -/

def SetsOf (dag : Graph.Dag) (zs sets : List (List Nat)) : Prop :=
  zs.mapM (fun z => z.mapM (denseToVar · dag)) = .ok sets

/-- A report is exact: it refuses iff there is no adjustment set, and the sets it returns are. -/
structure Exact (dag : Graph.Dag) (config : AdjustmentSearchConfig C) (t y : Nat)
    (report : Except IdentificationError AdjustmentResult) : Prop where
  refuses : (∃ n, report = .ok (.notIdentified n)) ↔ ¬ ∃ z, Admissible dag config t y z
  sound : ∀ sets truncated budgetExhausted n,
    report = .ok (.identified sets truncated budgetExhausted n) →
    ∃ zs, SetsOf dag zs sets ∧ ∀ z ∈ zs, Admissible dag config t y {v | v ∈ z}

/-- What a stricter reading accepts is read the same. -/
theorem mapM_of_imp {α β ε : Type} {f g : α → Except ε β} (h : ∀ x y, f x = .ok y → g x = .ok y) :
    ∀ {xs : List α} {ys : List β}, xs.mapM f = .ok ys → xs.mapM g = .ok ys
  | [], _, hys => hys
  | x :: xs, ys, hys => by
    rw [List.mapM_cons] at hys ⊢
    cases hx : f x with
    | error e => simp [hx, bind, Except.bind] at hys
    | ok y =>
      cases hxs : xs.mapM f with
      | error e => simp [hx, hxs, bind, Except.bind] at hys
      | ok rest =>
        rw [h x y hx, mapM_of_imp h hxs]
        rw [hx, hxs] at hys
        exact hys

theorem estimandVars_ok {vars : List Nat}
    (h : estimandVars dag levels z = .ok vars) : z.mapM (denseToVar · dag) = .ok vars := by
  unfold estimandVars at h
  obtain ⟨vs, hz, h⟩ := bind_ok h
  obtain ⟨l, hl, h⟩ := bind_ok h
  simpa [hz, hl, bind, Except.bind, pure, Except.pure] using h

theorem mem_byCost [CostOps C] {valid : List (List Nat)} :
    z ∈ byCost p config valid ↔ z ∈ valid := by
  unfold byCost
  split
  · exact Iff.rfl
  · exact List.mem_mergeSort

/-- What `identify_ate` returns of what the search settled on. -/
theorem identifyAte_eq [CostOps C] (levels : Except IdentificationError L)
    (h : AdjustmentProblem.new dag treatment outcome config = .ok p)
    (hst : adjustmentSets dag p config = .ok st) :
    ((∃ n, identifyAte dag treatment outcome config levels = .ok (.notIdentified n)) ↔
      st.valid = []) ∧
    ∀ sets truncated budgetExhausted n, identifyAte dag treatment outcome config levels =
      .ok (.identified sets truncated budgetExhausted n) →
      SetsOf dag (byCost p config st.valid) sets ∧ truncated = st.truncated ∧
        budgetExhausted = st.budgetExhausted := by
  have hempty : (byCost p config st.valid).isEmpty = true ↔ st.valid = [] := by
    rw [List.isEmpty_iff, List.eq_nil_iff_forall_not_mem, List.eq_nil_iff_forall_not_mem]
    exact forall_congr' fun z => not_congr mem_byCost
  unfold identifyAte
  simp only [h, hst, bind, Except.bind, pure, Except.pure]
  by_cases hnil : st.valid = []
  · rw [if_pos (hempty.mpr hnil)]
    exact ⟨iff_of_true ⟨_, rfl⟩ hnil, fun sets tr be n heq => by cases heq⟩
  · rw [if_neg fun h => hnil (hempty.mp h)]
    cases hsets : (byCost p config st.valid).mapM (estimandVars dag levels) with
    | error e => exact ⟨iff_of_false (fun ⟨n, hn⟩ => by cases hn) hnil, fun _ _ _ _ heq => by cases heq⟩
    | ok vars =>
      refine ⟨iff_of_false (fun ⟨n, hn⟩ => by cases hn) hnil, fun sets tr be n heq => ?_⟩
      cases heq
      exact ⟨mapM_of_imp (fun _ _ => estimandVars_ok) hsets, rfl, rfl⟩

/-- **The back-door search is exact**. -/
theorem identifyAte_exact [CostOps C]
    (h : AdjustmentProblem.new dag treatment outcome config = .ok p) :
    Exact dag config p.t p.y (identifyAte dag treatment outcome config levels) := by
  obtain ⟨st, hst, hgood, hnil, -⟩ := adjustmentSets_spec (AdjustmentProblem.new_of h)
  obtain ⟨hrefuses, hsets⟩ := identifyAte_eq levels h hst
  exact ⟨hrefuses.trans hnil, fun sets tr be n heq => ⟨_, (hsets sets tr be n heq).1,
    fun z hz => hgood z (mem_byCost.mp hz)⟩⟩

theorem exists_sublist (hp : p.Of dag config) {Z : Set Nat}
    (hZ : Admissible dag config p.t p.y Z) :
    ∃ z : List Nat, z.Sublist p.allowed ∧ {v | v ∈ z} = Z := by
  classical
  exact exists_sublist_of_subset fun v hv => hp.allowed_iff.mpr (hZ.allowed v hv)

/-- **With minimal sets asked for, and neither a cap nor the budget reached, the search returns the
inclusion-minimal adjustment sets**, all of them. -/
theorem identifyAte_minimal [CostOps C]
    (h : AdjustmentProblem.new dag treatment outcome config = .ok p)
    (hmin : config.minimalOnly = true) (hcap : p.allowed.length ≤ config.maxCandidates)
    {sets : List (List Nat)} {n : Nat} (hr : identifyAte dag treatment outcome config levels =
      .ok (.identified sets false false n)) :
    ∃ zs, SetsOf dag zs sets ∧
      ∀ Z, Minimal (Admissible dag config p.t p.y) Z ↔ ∃ z ∈ zs, {v | v ∈ z} = Z := by
  have hp := AdjustmentProblem.new_of h
  obtain ⟨st, hst, -, -, hexact⟩ := adjustmentSets_spec hp
  obtain ⟨-, hsets⟩ := identifyAte_eq levels h hst
  obtain ⟨hof, htr, hbe⟩ := hsets sets false false n hr
  obtain ⟨hf, hc⟩ := hexact hcap hbe.symm htr.symm
  have hnodup : p.allowed.Nodup := by
    unfold AdjustmentProblem.allowed
    rw [hp.candidates]
    exact (List.nodup_range.filter _).filter _
  -- an adjustment set inside one of the sets in hand is that set
  have hleast : ∀ w ∈ st.valid, ∀ Z, Admissible dag config p.t p.y Z → Z ⊆ {v | v ∈ w} →
      {v | v ∈ w} ⊆ Z := fun w hw Z hZ hsub => by
    obtain ⟨z, hz, rfl⟩ := exists_sublist hp hZ
    have hzw : z ⊆ w := fun v hv => hsub hv
    have hlen : w.length ≤ z.length := Nat.le_of_not_lt fun hlt =>
      hf.minimal hmin w hw z hz hZ hlt hzw
    have hperm := (List.subperm_of_subset (hnodup.sublist hz) hzw).perm_of_length_le hlen
    exact fun v hv => hperm.mem_iff.mpr hv
  refine ⟨_, hof, fun Z => ⟨fun hZ => ?_, ?_⟩⟩
  · obtain ⟨z, hz, rfl⟩ := exists_sublist hp hZ.prop
    obtain ⟨w, hw, hwz⟩ := hc z (mem_masks.mpr hz) hZ.prop
    have hle : ({v | v ∈ w} : Set Nat) ⊆ {v | v ∈ z} := fun v hv => hwz hmin hv
    exact ⟨w, mem_byCost.mpr hw, Set.Subset.antisymm hle (hZ.le_of_le (hf.sound w hw).2 hle)⟩
  · rintro ⟨w, hw, rfl⟩
    have hw' := mem_byCost.mp hw
    exact ⟨(hf.sound w hw').2, fun Z hZ hle => hleast w hw' Z hZ hle⟩

/-- **The efficient search is exact**, and finds the set it unwraps. -/
theorem Efficient.identifyAte_exact [CostOps C]
    (h : AdjustmentProblem.new dag treatment outcome config = .ok p) :
    Exact dag config p.t p.y (Efficient.identifyAte dag treatment outcome config levels) := by
  have hp := AdjustmentProblem.new_of h
  have hscreen := screen_sublist hp
  -- a report of one good set
  have hfinish : ∀ z tr be n, Good dag config p z →
      Exact dag config p.t p.y (Efficient.finish dag levels z tr be n) := fun z tr be n hgood => by
    unfold Efficient.finish
    cases hz : estimandVars dag levels z with
    | error e => exact ⟨iff_of_false (fun ⟨n, hn⟩ => by cases hn) (not_not_intro ⟨_, hgood⟩),
        fun _ _ _ _ heq => by cases heq⟩
    | ok vars =>
      refine ⟨iff_of_false (fun ⟨n, hn⟩ => by cases hn) (not_not_intro ⟨_, hgood⟩),
        fun sets _ _ _ heq => ⟨[z], ?_, fun w hw => List.mem_singleton.mp hw ▸ hgood⟩⟩
      cases heq
      unfold SetsOf
      rw [List.mapM_cons, estimandVars_ok hz]
      rfl
  obtain ⟨o, ho, hpass⟩ := oSetPasses_spec hp
  obtain ⟨b, hb, hiff⟩ := hp.admissible_iff fun v hv => hscreen.subset hv
  unfold Efficient.identifyAte
  simp only [h, ho, hb, bind, Except.bind, pure, Except.pure]
  cases o with
  | true => exact hfinish _ _ _ _ (hpass rfl).2
  | false =>
    cases b with
    | false =>
      have hnone : ¬ ∃ z, Admissible dag config p.t p.y z := fun hex =>
        Bool.false_ne_true (hiff.mpr (hp.constructive_iff.mpr hex))
      exact ⟨iff_of_true ⟨_, rfl⟩ hnone, fun _ _ _ _ heq => by cases heq⟩
    | true =>
      have hcons : Good dag config p (screenAncestorCandidates dag p) := hiff.mp rfl
      simp only [Bool.false_eq_true, if_false, Bool.not_true]
      generalize hcand : (if config.maxCandidates < p.allowed.length then
        screenAncestorCandidates dag p else p.allowed) = candidates
      have hsub : (screenAncestorCandidates dag p).Sublist candidates := by
        rw [← hcand]
        split
        · exact List.Sublist.refl _
        · exact hscreen
      have hallowed : ∀ v ∈ candidates, v ∈ p.allowed := by
        rw [← hcand]
        split
        · exact fun v hv => hscreen.subset hv
        · exact fun v hv => hv
      split_ifs with hcap
      · exact hfinish _ _ _ _ hcons
      · obtain ⟨st, hst, hgood, hnil⟩ := Efficient.search_spec hp hallowed
          (sizes config candidates.length) ⟨2, false, false, []⟩ rfl
        simp only [hst]
        split_ifs with hfallback
        · exact hfinish _ _ _ _ hcons
        · have hne : st.valid ≠ [] := fun hempty => by
            rcases hnil hempty with hbe | hnone
            · exact hfallback (by rw [hempty, hbe]; rfl)
            · obtain ⟨k, hk, hmem⟩ := List.mem_flatMap.mp (mem_masks.mpr hsub)
              exact hnone k hk _ hmem hcons
          cases hsorted : st.valid.mergeSort (Efficient.prefer dag p) with
          | nil =>
            have hperm := List.mergeSort_perm st.valid (Efficient.prefer dag p)
            rw [hsorted] at hperm
            exact absurd hperm.nil_eq.symm hne
          | cons best rest =>
            exact hfinish _ _ _ _ (hgood best (List.mem_mergeSort.mp (hsorted ▸ List.mem_cons_self)))

end Found

/-- **Back-door identification is exact.** Both searches refuse exactly when no set of allowed nodes
separates `T` from `Y` without the edges out of `T`, whatever the budget and the caps, and return
such sets only; with minimal sets asked for and neither a cap nor the budget reached, the first
returns the inclusion-minimal ones. -/
theorem adjustment_exact [CostOps C] {L L' : Type} (dag : Graph.Dag) (treatment outcome : Nat)
    (config : AdjustmentSearchConfig C) (levels : Except IdentificationError L)
    (setLevels : Except IdentificationError L') {p : AdjustmentProblem C}
    (h : AdjustmentProblem.new dag treatment outcome config = .ok p) :
    Exact dag config p.t p.y (identifyAte dag treatment outcome config levels) ∧
    Exact dag config p.t p.y (Efficient.identifyAte dag treatment outcome config setLevels) ∧
    (config.minimalOnly = true → p.allowed.length ≤ config.maxCandidates → ∀ sets n,
      identifyAte dag treatment outcome config levels = .ok (.identified sets false false n) →
      ∃ zs, SetsOf dag zs sets ∧
        ∀ Z, Minimal (Admissible dag config p.t p.y) Z ↔ ∃ z ∈ zs, {v | v ∈ z} = Z) :=
  ⟨identifyAte_exact h, Efficient.identifyAte_exact h, fun hmin hcap _ _ hr =>
    identifyAte_minimal h hmin hcap hr⟩

/-- Costs in whole numbers. -/
instance natCosts : CostOps Nat := ⟨0, 1, (· + ·), fun a b => decide (a < b)⟩

/-- `T ← Z → Y` with `T → Y`: the one minimal set is `Z`. -/
theorem adjustment_exact_confounder : ∃ (dag : Graph.Dag) (p : AdjustmentProblem Nat)
    (config : AdjustmentSearchConfig Nat), ((Graph.Dag.withVariables 3).insertDirected 2 0 >>=
      fun g => g.insertDirected 2 1 >>= fun g => g.insertDirected 0 1) = .ok dag ∧
    config.minimalOnly = true ∧ AdjustmentProblem.new dag 0 1 config = .ok p ∧
    ∃ zs, SetsOf dag zs [[2]] ∧
      ∀ Z, Minimal (Admissible dag config p.t p.y) Z ↔ ∃ z ∈ zs, {v | v ∈ z} = Z :=
  ⟨_, _, ⟨64, 1000000, 40, [], true, false, [], none, []⟩, rfl, rfl, rfl,
    (adjustment_exact _ 0 1 _ (.ok ()) (.ok ()) rfl).2.2 rfl (by decide) _ 2 rfl⟩

end Antecedent.Identify
