import Antecedent.Machine.Flat
import Antecedent.State.CausalState

/-!
# The identities of a state's inputs

Model of `input_identities` (`state.rs:263-294`): the records of a state are written part by part into
one list for each stage, and the list is digested under a label. A digest is modelled by what it
digests, so `StageIdentity::of` is injective.

Evidence and constraints are written in the same form and one after the other, batches take three parts
and interventions two, and of the assumptions only the number is written.

* **`sameInputs_iff_aligned`**: two states with equal identities hold equal inputs if and only if they
  are aligned: the evidence records retain the same bytes one by one, the assumptions are the same, and
  there are as many batches.
-/

namespace Antecedent.State

open Machine

/-- `StageIdentity::of`: the label and the parts that were digested. -/
structure StageIdentity where
  label : String
  parts : List (List UInt8)

/-- The machine words of a state are below `2^64`. -/
structure WordSized (s : CausalState) : Prop where
  evidence : ∀ r ∈ s.evidence, r.fingerprint < 2 ^ 64 ∧ r.bytes < 2 ^ 64
  constraints : ∀ r ∈ s.constraints, r.fingerprint < 2 ^ 64
  assumptions : s.assumptions < 2 ^ 64
  dataVersion : s.dataVersion < 2 ^ 64
  batches : ∀ b ∈ s.batches, b.nrows < 2 ^ 64 ∧ b.bytes < 2 ^ 64
  interventions : ∀ r ∈ s.interventions, r.fingerprint < 2 ^ 64

/-- A causal state with its assumption records, which `CausalState` only counts. -/
structure RecordedState (α : Type) extends CausalState where
  records : List α
  count : records.length = assumptions
  words : WordSized toCausalState

/-! ## The parts -/

def evidenceParts (r : GraphEvidenceRecord) : List (List UInt8) :=
  [textBytes r.id, leBytes r.fingerprint]

def constraintParts (r : GraphConstraintRecord) : List (List UInt8) :=
  [textBytes r.id, leBytes r.fingerprint]

def batchParts (b : DataBatchRef) : List (List UInt8) :=
  [textBytes b.id, leBytes b.nrows, leBytes b.bytes]

def interventionParts (r : InterventionRecord) : List (List UInt8) :=
  [textBytes r.id, leBytes r.fingerprint]

namespace RecordedState

variable {α : Type} (s t : RecordedState α)

/-- The list of parts of the graph stage (`state.rs:268-277`). -/
def graphParts : List (List UInt8) :=
  s.evidence.flatMap evidenceParts ++ s.constraints.flatMap constraintParts ++
    [leBytes s.records.length]

/-- The list of parts of the data stage (`state.rs:278-287`). -/
def dataParts : List (List UInt8) :=
  leBytes s.dataVersion :: (s.batches.flatMap batchParts ++
    s.interventions.flatMap interventionParts)

/-- `input_identities`: the identities of the graph and of the data snapshot. -/
def inputIdentities : StageIdentity × StageIdentity :=
  (⟨"state.graph.v1", s.graphParts⟩, ⟨"state.data.v1", s.dataParts⟩)

/-! ## What the identities tell apart -/

/-- The declared inputs of two states are equal. -/
structure SameInputs : Prop where
  evidence : s.evidence = t.evidence
  constraints : s.constraints = t.constraints
  records : s.records = t.records
  dataVersion : s.dataVersion = t.dataVersion
  batches : s.batches = t.batches
  interventions : s.interventions = t.interventions

/-- What the lists of parts do not say: where the evidence ends and what it retains, which the
assumptions are, and where the batches end. -/
structure Aligned : Prop where
  retained : s.evidence.map GraphEvidenceRecord.bytes = t.evidence.map GraphEvidenceRecord.bytes
  records : s.records = t.records
  batches : s.batches.length = t.batches.length

variable {s t}

theorem graph_of_aligned (ha : Aligned s t) (h : s.graphParts = t.graphParts) :
    s.evidence = t.evidence ∧ s.constraints = t.constraints := by
  have hlen : s.evidence.length = t.evidence.length := by
    have := congrArg List.length ha.retained
    rwa [List.length_map, List.length_map] at this
  have hparts : ∀ r, (evidenceParts r).length = 2 := fun _ => rfl
  have hparts' : ∀ r, (constraintParts r).length = 2 := fun _ => rfl
  obtain ⟨hrecs, -⟩ := List.append_inj' h rfl
  obtain ⟨hev, hcon⟩ := List.append_inj hrecs (by
    rw [length_flatMap_of_length hparts, length_flatMap_of_length hparts, hlen])
  constructor
  · have hmap := map_eq_of_flatMap_eq (by omega) hparts hev
    have hboth : s.evidence.map (fun r => (evidenceParts r, r.bytes)) =
        t.evidence.map fun r => (evidenceParts r, r.bytes) := by
      rw [← List.zip_map', ← List.zip_map', hmap, ha.retained]
    refine eq_of_map_eq (fun r hr r' hr' he => ?_) hboth
    obtain ⟨hp, hb⟩ := Prod.mk.inj he
    obtain ⟨hid, hfp⟩ := List.cons.inj hp
    have hfp := leBytes_inj (s.words.evidence r hr).1 (t.words.evidence r' hr').1
      (List.cons.inj hfp).1
    cases r
    cases r'
    simp only [GraphEvidenceRecord.mk.injEq]
    exact ⟨textBytes_inj hid, hfp, hb⟩
  · refine eq_of_map_eq (fun r hr r' hr' he => ?_)
      (map_eq_of_flatMap_eq (by omega) hparts' hcon)
    obtain ⟨hid, hfp⟩ := List.cons.inj he
    have hfp := leBytes_inj (s.words.constraints r hr) (t.words.constraints r' hr')
      (List.cons.inj hfp).1
    cases r
    cases r'
    simp only [GraphConstraintRecord.mk.injEq]
    exact ⟨textBytes_inj hid, hfp⟩

theorem data_of_aligned (ha : Aligned s t) (h : s.dataParts = t.dataParts) :
    s.dataVersion = t.dataVersion ∧ s.batches = t.batches ∧ s.interventions = t.interventions := by
  have hparts : ∀ b, (batchParts b).length = 3 := fun _ => rfl
  have hparts' : ∀ r, (interventionParts r).length = 2 := fun _ => rfl
  obtain ⟨hv, hrecs⟩ := List.cons.inj h
  obtain ⟨hbat, hint⟩ := List.append_inj hrecs (by
    rw [length_flatMap_of_length hparts, length_flatMap_of_length hparts, ha.batches])
  refine ⟨leBytes_inj s.words.dataVersion t.words.dataVersion hv, ?_, ?_⟩
  · refine eq_of_map_eq (fun b hb b' hb' he => ?_) (map_eq_of_flatMap_eq (by omega) hparts hbat)
    obtain ⟨hid, hrest⟩ := List.cons.inj he
    obtain ⟨hn, hlast⟩ := List.cons.inj hrest
    have hn := leBytes_inj (s.words.batches b hb).1 (t.words.batches b' hb').1 hn
    have hsize := leBytes_inj (s.words.batches b hb).2 (t.words.batches b' hb').2
      (List.cons.inj hlast).1
    cases b
    cases b'
    simp only [DataBatchRef.mk.injEq]
    exact ⟨textBytes_inj hid, hn, hsize⟩
  · refine eq_of_map_eq (fun r hr r' hr' he => ?_)
      (map_eq_of_flatMap_eq (by omega) hparts' hint)
    obtain ⟨hid, hfp⟩ := List.cons.inj he
    have hfp := leBytes_inj (s.words.interventions r hr) (t.words.interventions r' hr')
      (List.cons.inj hfp).1
    cases r
    cases r'
    simp only [InterventionRecord.mk.injEq]
    exact ⟨textBytes_inj hid, hfp⟩

/-- **Equal identities tell the inputs apart up to alignment.** -/
theorem sameInputs_iff_aligned (h : s.inputIdentities = t.inputIdentities) :
    SameInputs s t ↔ Aligned s t := by
  obtain ⟨hg, hd⟩ := Prod.mk.inj h
  constructor
  · intro hsame
    exact ⟨by rw [hsame.evidence], hsame.records, by rw [hsame.batches]⟩
  · intro ha
    obtain ⟨hev, hcon⟩ := graph_of_aligned ha (congrArg StageIdentity.parts hg)
    obtain ⟨hv, hbat, hint⟩ := data_of_aligned ha (congrArg StageIdentity.parts hd)
    exact ⟨hev, hcon, ha.records, hv, hbat, hint⟩

def withEvidence (α : Type) : RecordedState α where
  toCausalState := { CausalState.new (.new 0) with evidence := [⟨"a", 1, 0⟩] }
  records := []
  count := rfl
  words := ⟨by simp, by simp [CausalState.new], by simp [CausalState.new],
    by simp [CausalState.new], by simp [CausalState.new], by simp [CausalState.new]⟩

def withConstraint (α : Type) : RecordedState α where
  toCausalState := { CausalState.new (.new 0) with constraints := [⟨"a", 1⟩] }
  records := []
  count := rfl
  words := ⟨by simp [CausalState.new], by simp, by simp [CausalState.new],
    by simp [CausalState.new], by simp [CausalState.new], by simp [CausalState.new]⟩

theorem sameInputs_iff_aligned_records :
    SameInputs (withEvidence Nat) (withConstraint Nat) ↔
      Aligned (withEvidence Nat) (withConstraint Nat) :=
  sameInputs_iff_aligned rfl

/-- An evidence record and a constraint are written alike. -/
theorem not_sameInputs_constraint : ¬ ∀ (α : Type) (s t : RecordedState α),
    s.inputIdentities = t.inputIdentities → SameInputs s t := by
  intro h
  have := (h Nat (withEvidence Nat) (withConstraint Nat) rfl).evidence
  cases this

end RecordedState

end Antecedent.State
