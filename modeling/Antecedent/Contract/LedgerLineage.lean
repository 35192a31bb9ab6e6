import Antecedent.Contract.LedgerWf

/-!
# Lineage and loss

The lineage closure of a source is what it descends from (`mem_lineageClosure`), and a source is
lost when some member of its closure is not active (`lossOf_eq_none`). A source added later is in
the closure of no source there is, so it changes no loss (`lossOf_insertSource`); a source retired
later loses all that descends from it, and nothing that was lost is found again
(`lossOf_setSource`).
-/

namespace Antecedent.Contract

open Worklist

namespace EvidenceLedger

variable {ids : Identities} {l l' : EvidenceLedger}

/-- `a` is `id`, or an earlier source it was derived from. -/
def Descends (l : EvidenceLedger) (id a : SourceId) : Prop := Reach l.parents id a

def IsActive (l : EvidenceLedger) (id : SourceId) : Prop :=
  ∃ s, l.source id = some s ∧ s.status.isActive = true

def Sound (l : EvidenceLedger) (id : SourceId) : Prop := ∀ a, l.Descends id a → l.IsActive a

variable {id a : SourceId} {sources : List SourceId} {op : SynthesisOperation} {id : SourceId}

theorem mem_lineageClosure : a ∈ l.lineageClosure id ↔ l.Descends id a := by
  unfold lineageClosure
  rw [mem_sorted]
  refine mem_visit (U := l.sources.map (·.id)) (fun u hu => ?_) ?_
  · unfold parents source
    rw [List.find?_eq_none.mpr fun s hs => ?_]
    simp only [decide_eq_true_eq]
    exact fun e => hu (List.mem_map.mpr ⟨s, hs, e⟩)
  · unfold lineageFuel
    rw [List.map_map]
    simp only [Function.comp_def]
    omega

theorem Wf.known (h : l.Wf) (hid : (l.source id).isSome)
    (ha : l.Descends id a) : (l.source a).isSome := by
  induction ha with
  | refl => exact hid
  | tail _ hb _ => exact h.parents _ _ hb

/-- The sources of the closure of a source, in the order of their ids. -/
def members (l : EvidenceLedger) (id : SourceId) : List EvidenceSource :=
  (l.lineageClosure id).filterMap l.source

theorem mem_members {s : EvidenceSource} :
    s ∈ l.members id ↔ l.Descends id s.id ∧ l.source s.id = some s := by
  unfold members
  rw [List.mem_filterMap]
  constructor
  · rintro ⟨a, ha, hs⟩
    obtain rfl := (source_some hs).2
    exact ⟨mem_lineageClosure.mp ha, hs⟩
  · rintro ⟨ha, hs⟩
    exact ⟨s.id, mem_lineageClosure.mpr ha, hs⟩

/-- `loss_of` reads nothing but the members of the closure. -/
theorem lossOf_congr (h : l'.members id = l.members id) :
    l'.lossOf id = l.lossOf id := by
  unfold lossOf
  unfold members at h
  rw [h]

theorem lossOf_none_iff_members :
    l.lossOf id = none ↔ ∀ s ∈ l.members id, s.status.isActive = true := by
  unfold lossOf
  dsimp only
  rw [← members]
  constructor
  · intro hn
    split at hn
    · cases hn
    · rw [Option.map_eq_none_iff, List.find?_eq_none] at hn
      intro s hs
      simpa using hn s hs
  · intro hall
    rw [List.find?_eq_none.mpr, List.find?_eq_none.mpr]
    · rfl
    · intro s hs
      simp [hall s hs]
    · intro s hs
      have := hall s hs
      cases hst : s.status <;> simp [hst, SourceStatus.isActive] at this ⊢

/-- **Nothing is lost to a source iff it and all it descends from are active.** -/
theorem lossOf_eq_none (h : l.Wf) (hid : (l.source id).isSome) :
    l.lossOf id = none ↔ l.Sound id := by
  rw [lossOf_none_iff_members]
  constructor
  · intro hall a ha
    obtain ⟨s, hs⟩ := Option.isSome_iff_exists.mp (h.known hid ha)
    have hsa := (source_some hs).2
    exact ⟨s, hs, hall s (mem_members.mpr ⟨hsa ▸ ha, by rw [hsa]; exact hs⟩)⟩
  · intro hall s hs
    obtain ⟨hd, hsrc⟩ := mem_members.mp hs
    obtain ⟨s', hs', hact⟩ := hall s.id hd
    rw [hsrc] at hs'
    cases hs'
    exact hact

/-! ## Lineage under growth -/

theorem Grows.parents (h : Grows l l') (hid : (l.source id).isSome) :
    l'.parents id = l.parents id := by
  obtain ⟨s, hs⟩ := Option.isSome_iff_exists.mp hid
  obtain ⟨s', hs', hd, -⟩ := h id s hs
  unfold EvidenceLedger.parents
  rw [hs, hs']
  dsimp only
  rw [hd]

theorem Grows.descends (h : Grows l l') (hw : l.Wf) (hid : (l.source id).isSome)
    : l'.Descends id a ↔ l.Descends id a := by
  constructor
  · intro ha
    induction ha with
    | refl => exact .refl
    | tail _ hb ih =>
      rw [h.parents (hw.known hid ih)] at hb
      exact ih.tail hb
  · intro ha
    induction ha with
    | refl => exact .refl
    | tail hab hb ih =>
      rw [← h.parents (hw.known hid hab)] at hb
      exact ih.tail hb

theorem ascending_lineageClosure (l : EvidenceLedger) (id : SourceId) :
    (l.lineageClosure id).Nodup :=
  (sorted_perm _).nodup_iff.mpr (nodup_visit _ _ _ List.nodup_nil)

theorem Grows.lineageClosure (h : Grows l l') (hw : l.Wf)
    (hid : (l.source id).isSome) : l'.lineageClosure id = l.lineageClosure id := by
  have hperm : (l'.lineageClosure id).Perm (l.lineageClosure id) := by
    refine (List.perm_ext_iff_of_nodup (ascending_lineageClosure l' id)
      (ascending_lineageClosure l id)).mpr fun a => ?_
    rw [mem_lineageClosure, mem_lineageClosure, h.descends hw hid]
  have := sorted_eq_of_perm hperm
  unfold EvidenceLedger.lineageClosure at this ⊢
  rwa [← sorted_sorted, ← sorted_sorted] at this

theorem lossOf_insertSource (hw : l.Wf) (c : CanonicalSource) (o : OperationId)
    (hid : (l.source id).isSome) : (l.insertSource c o).lossOf id = l.lossOf id := by
  refine lossOf_congr ?_
  unfold members
  rw [(grows_insertSource l c o).lineageClosure hw hid]
  refine List.filterMap_congr fun a ha => ?_
  rw [source_insertSource]
  obtain ⟨s, hs⟩ := Option.isSome_iff_exists.mp (hw.known hid (mem_lineageClosure.mp ha))
  rw [hs]
  rfl

/-- What was lost stays lost when another source is retired. -/
theorem lossOf_setSource (hw : l.Wf) (t : SourceId) {status : SourceStatus}
    (hstatus : status.isActive = false) (hid : (l.source id).isSome)
    (h : (l.setSource t status).lossOf id = none) : l.lossOf id = none := by
  have hg := grows_setSource l t status
  rw [lossOf_eq_none (hw.setSource t status) (hg.isSome hid)] at h
  rw [lossOf_eq_none hw hid]
  intro a ha
  obtain ⟨s, hs, hact⟩ := h a ((hg.descends hw hid).mpr ha)
  rw [source_setSource] at hs
  obtain ⟨s₀, hs₀, rfl⟩ := Option.map_eq_some_iff.mp hs
  refine ⟨s₀, hs₀, ?_⟩
  split_ifs at hact
  · rw [hstatus] at hact
    cases hact
  · exact hact

/-! ## Classes -/

/-- Whether the source-loss rule keeps the class. -/
theorem byLoss_stillValid {lost remaining needed : Nat} :
    byLoss lost remaining needed = .stillValid ↔ lost = 0 := by
  unfold byLoss
  split_ifs <;> simp_all

theorem losses_eq_zero :
    (l.losses sources).2 = 0 ↔ ∀ id ∈ sources, l.lossOf id = none := by
  unfold losses
  simp [List.countP_eq_zero]

/-- **A combination of sources keeps its class iff none of its sources is lost.** -/
theorem sourceLossClass_stillValid (hop : cites op = none) :
    l.sourceLossClass op = .stillValid ↔ ∀ id ∈ op.directSources, l.lossOf id = none := by
  cases op with
  | statisticalPooling sources dependence => exact byLoss_stillValid.trans losses_eq_zero
  | bayesianBorrowing priors likelihood =>
    unfold sourceLossClass SynthesisOperation.directSources
    rw [byLoss_stillValid, Nat.add_eq_zero_iff, losses_eq_zero, losses_eq_zero,
      List.forall_mem_append]
    exact and_comm
  | causalTransport transported native =>
    unfold sourceLossClass SynthesisOperation.directSources
    rw [byLoss_stillValid, Nat.add_eq_zero_iff, losses_eq_zero, losses_eq_zero,
      List.forall_mem_append]
  | evidenceReuse cited => cases hop
  | repeatedObservationUse sources stage => exact byLoss_stillValid.trans losses_eq_zero

theorem losses_congr (h : ∀ id ∈ sources, l'.lossOf id = l.lossOf id) :
    l'.losses sources = l.losses sources := by
  unfold losses
  refine Prod.ext ?_ ?_
  · refine List.countP_congr fun id hid => ?_
    rw [h id hid]
  · refine List.countP_congr fun id hid => ?_
    rw [h id hid]

theorem sourceLossClass_congr (h : ∀ id ∈ op.directSources, l'.lossOf id = l.lossOf id) :
    l'.sourceLossClass op = l.sourceLossClass op := by
  unfold SynthesisOperation.directSources at h
  cases op with
  | statisticalPooling sources dependence => simp only [sourceLossClass, losses_congr h]
  | bayesianBorrowing priors likelihood =>
    obtain ⟨h1, h2⟩ := List.forall_mem_append.mp h
    simp only [sourceLossClass, losses_congr h1, losses_congr h2]
  | causalTransport transported native =>
    obtain ⟨h1, h2⟩ := List.forall_mem_append.mp h
    simp only [sourceLossClass, losses_congr h1, losses_congr h2]
  | evidenceReuse cited => rfl
  | repeatedObservationUse sources stage => simp only [sourceLossClass, losses_congr h]

end EvidenceLedger

end Antecedent.Contract
