import Antecedent.Contract.LedgerLineage
import Antecedent.Contract.LedgerCounting

/-!
# Standings

`reclassify` goes through the results in registration order, and a reuse cites an earlier result,
so what it leaves is a fixpoint (`reclassify_results`): every standing is the one its class gives in
the ledger it leaves. `Current` is the invariant that follows: a combination that was not replaced
is valid iff none of its sources is lost, and a reuse has the class of the result it cites unless
one of the two was replaced. `standings_current` reads the statement off it.
-/

namespace Antecedent.Contract

open Machine

def ResultStatus.isReplaced : ResultStatus → Bool
  | replaced .. => true
  | _ => false

namespace EvidenceLedger

variable {ids : Identities} {l l' : EvidenceLedger}

/-! ## The standing a class gives -/

variable {s : ResultStatus} {o : OperationId} {cls : Revalidation} {op : LedgerOperation}
  {request : CombinationRequest}
  {c : ResultId} {r : ResultRecord} {k : CheckedCombination}

theorem revalidation_stillValid : s.revalidation = .stillValid ↔ s = .valid := by
  cases s <;> simp [ResultStatus.revalidation]

theorem updated_valid :
    updated o cls s = .valid ↔ s = .valid ∧ cls = .stillValid := by
  cases s <;> cases cls <;> simp [updated]

@[simp] theorem updated_isReplaced (o : OperationId) (cls : Revalidation) (s : ResultStatus) :
    (updated o cls s).isReplaced = s.isReplaced := by
  cases s <;> cases cls <;> rfl

/-- A standing is the one its own class gives. -/
theorem updated_self (o : OperationId) :
    updated o s.revalidation s = s := by
  cases s <;> rfl

/-- The class of a standing only grows worse. -/
theorem updated_follows {t : ResultStatus}
    (hs : s.isReplaced = false) (ht : t.isReplaced = false) (hst : s.revalidation = t.revalidation) :
    (updated o (updated o cls t).revalidation s).revalidation = (updated o cls t).revalidation := by
  cases s <;> cases t <;> cases cls <;>
    simp_all [updated, ResultStatus.revalidation, ResultStatus.isReplaced]

/-! ## The fixpoint -/

theorem classOf_congr {results results' : List ResultRecord} {op : SynthesisOperation}
    (h : ∀ c, cites op = some c → { l with results := results' }.result c =
      { l with results := results }.result c) :
    { l with results := results' }.classOf op = { l with results := results }.classOf op := by
  cases op with
  | evidenceReuse c =>
    simp only [classOf, h c rfl]
  | _ => rfl

/-- The record with the standing its class gives in `F`. -/
def settle (l : EvidenceLedger) (o : OperationId) (F : List ResultRecord) (r : ResultRecord) :
    ResultRecord :=
  { r with status := updated o ({ l with results := F }.classOf r.operation) r.status }

theorem result_of_done {done tail : List ResultRecord} (hc : c ∈ done.map (·.id)) :
    { l with results := done ++ tail }.result c = { l with results := done }.result c := by
  obtain ⟨r, hr, rfl⟩ := List.mem_map.mp hc
  unfold result
  dsimp only
  rw [List.find?_append]
  cases hf : done.find? (·.id = r.id) with
  | some x => rfl
  | none =>
    have := List.find?_eq_none.mp hf r hr
    simp at this

theorem reclassifyLoop_eq (o : OperationId) : ∀ (todo done : List ResultRecord),
    (∀ before r after, todo = before ++ r :: after → ∀ c, cites r.operation = some c →
      c ∈ (done ++ before).map (·.id)) →
    l.reclassifyLoop o done todo = done ++ todo.map (l.settle o (l.reclassifyLoop o done todo))
  | [], done, _ => by rw [reclassifyLoop, List.map_nil, List.append_nil]
  | r :: todo, done, hback => by
    obtain ⟨r', hr'⟩ : ∃ r', r' = l.settle o (done ++ r :: todo) r := ⟨_, rfl⟩
    have hid : r'.id = r.id := by rw [hr']; rfl
    have hloop : l.reclassifyLoop o done (r :: todo) = l.reclassifyLoop o (done ++ [r']) todo := by
      rw [hr']
      rfl
    have ih := reclassifyLoop_eq o todo (done ++ [r']) fun before x after he c hc => by
      have := hback (r :: before) x after (by rw [he]; rfl) c hc
      simpa [hid] using this
    have hcls : { l with results := l.reclassifyLoop o (done ++ [r']) todo }.classOf r.operation =
        { l with results := done ++ r :: todo }.classOf r.operation := by
      refine classOf_congr fun c hc => ?_
      have hdone : c ∈ done.map (·.id) := by simpa using hback [] r todo rfl c hc
      rw [ih, List.append_assoc, result_of_done hdone, result_of_done hdone]
    have hF : l.settle o (l.reclassifyLoop o (done ++ [r']) todo) r = r' := by
      rw [hr'] at hcls ⊢
      unfold settle at hcls ⊢
      rw [hcls]
    rw [hloop, List.map_cons, hF]
    conv_lhs => rw [ih]
    rw [List.append_assoc]
    rfl

theorem Wf.cites_before (h : l.Wf) {before after : List ResultRecord}
    (he : l.results = before ++ r :: after) (hc : cites r.operation = some c) :
    c ∈ before.map (·.id) := by
  cases hop : r.operation with
  | evidenceReuse c' =>
    rw [hop] at hc
    cases hc
    obtain ⟨o, ho, hres, -⟩ := h.cited he hop
    exact List.mem_map.mpr ⟨o, ho, (result_some hres).2⟩
  | _ =>
    rw [hop] at hc
    cases hc

/-- **What `reclassify` leaves is a fixpoint.** -/
theorem reclassify_results (h : l.Wf) (o : OperationId) : (l.reclassify o).results =
    l.results.map fun r =>
      { r with status := updated o ((l.reclassify o).classOf r.operation) r.status } := by
  have hloop := reclassifyLoop_eq (l := l) o l.results [] fun before r after he c hc => by
    simpa using h.cites_before he hc
  exact hloop

theorem result_reclassify (h : l.Wf) (o : OperationId) (id : ResultId) :
    (l.reclassify o).result id = (l.result id).map fun r =>
      { r with status := updated o ((l.reclassify o).classOf r.operation) r.status } := by
  unfold result
  rw [reclassify_results h o, List.find?_map]
  rfl

/-! ## The invariant -/

/-- The standings are current: a combination that was not replaced is valid iff its class is kept,
and a reuse has the class of what it cites unless one of the two was replaced. -/
structure Current (l : EvidenceLedger) : Prop where
  valid : ∀ r ∈ l.results, cites r.operation = none → r.status.isReplaced = false →
    (r.status = .valid ↔ l.sourceLossClass r.operation = .stillValid)
  recompute : ∀ r ∈ l.results, cites r.operation = none → r.status.revalidation = .recompute →
    l.sourceLossClass r.operation = .recompute
  reuse : ∀ r ∈ l.results, ∀ c o, r.operation = .evidenceReuse c → l.result c = some o →
    r.status.isReplaced = false → o.status.isReplaced = false →
    r.status.revalidation = o.status.revalidation

/-- What is left of `Current` when a source is retired, before the results are classified: a loss
stays a loss. -/
structure Pending (l : EvidenceLedger) : Prop where
  lost : ∀ r ∈ l.results, cites r.operation = none → r.status.isReplaced = false →
    l.sourceLossClass r.operation = .stillValid → r.status = .valid
  reuse : ∀ r ∈ l.results, ∀ c o, r.operation = .evidenceReuse c → l.result c = some o →
    r.status.isReplaced = false → o.status.isReplaced = false →
    r.status.revalidation = o.status.revalidation

theorem Current.pending (h : l.Current) : l.Pending :=
  ⟨fun r hr hc hs hcls => (h.valid r hr hc hs).mpr hcls, h.reuse⟩

theorem Current.stamp (h : l.Current) (head : OperationId) (log : List AppliedOperation) :
    (l.stamp head log).Current := ⟨h.valid, h.recompute, h.reuse⟩

theorem classOf_combined {op : SynthesisOperation} (h : cites op = none) :
    l.classOf op = l.sourceLossClass op := by
  cases op with
  | evidenceReuse c => cases h
  | _ => rfl

theorem classOf_reuse {o : ResultRecord} (ho : l.result c = some o)
    (hs : o.status.isReplaced = false) :
    l.classOf (.evidenceReuse c) = o.status.revalidation := by
  simp only [classOf, ho]
  cases hst : o.status with
  | replaced by_ op => rw [hst] at hs; cases hs
  | _ => rfl

/-- **Classifying the results makes the standings current.** -/
theorem Pending.reclassify (hw : l.Wf) (h : l.Pending) (o : OperationId) :
    (l.reclassify o).Current := by
  have hmem : ∀ r' ∈ (l.reclassify o).results, ∃ r ∈ l.results, r'.operation = r.operation ∧
      r'.status = updated o ((l.reclassify o).classOf r.operation) r.status := by
    intro r' hr'
    rw [reclassify_results hw o] at hr'
    obtain ⟨r, hr, rfl⟩ := List.mem_map.mp hr'
    exact ⟨r, hr, rfl, rfl⟩
  have hclass : ∀ op, cites op = none → (l.reclassify o).classOf op = l.sourceLossClass op :=
    fun op hop => classOf_combined hop
  refine ⟨fun r' hr' hc hs => ?_, fun r' hr' hc hs => ?_, fun r' hr' c p' hop hp' hs hs' => ?_⟩
  · obtain ⟨r, hr, hop, hst⟩ := hmem r' hr'
    rw [hop] at hc ⊢
    rw [hst, hclass _ hc, updated_valid]
    rw [hst, updated_isReplaced] at hs
    exact ⟨fun hv => hv.2, fun hv => ⟨h.lost r hr hc hs hv, hv⟩⟩
  · obtain ⟨r, hr, hop, hst⟩ := hmem r' hr'
    rw [hop] at hc ⊢
    rw [hst, hclass _ hc] at hs
    have hlost := h.lost r hr hc
    show l.sourceLossClass r.operation = .recompute
    cases hcls : l.sourceLossClass r.operation <;> cases hr0 : r.status <;>
      simp_all [updated, ResultStatus.revalidation, ResultStatus.isReplaced]
  · obtain ⟨r, hr, hrop, hst⟩ := hmem r' hr'
    rw [result_reclassify hw] at hp'
    obtain ⟨p, hp, rfl⟩ := Option.map_eq_some_iff.mp hp'
    rw [hrop] at hop
    have hp'' : (l.reclassify o).result c = some { p with
        status := updated o ((l.reclassify o).classOf p.operation) p.status } := by
      rw [result_reclassify hw, hp]
      rfl
    have hcls := classOf_reuse hp'' hs'
    rw [hst, updated_isReplaced] at hs
    dsimp only at hs' hcls ⊢
    rw [updated_isReplaced] at hs'
    rw [hst, hop, hcls]
    exact updated_follows hs hs' (h.reuse r hr c p hop hp hs hs')

theorem Wf.direct_known (h : l.Wf) (hr : r ∈ l.results)
    (hc : cites r.operation = none) : ∀ id ∈ r.operation.directSources, (l.source id).isSome :=
  (h.registered hr hc).2.1

theorem Current.setSource (hw : l.Wf) (h : l.Current) (t : SourceId) {status : SourceStatus}
    (hstatus : status.isActive = false) : (l.setSource t status).Pending where
  lost := by
    intro r hr hc hs hcls
    refine (h.valid r hr hc hs).mpr ?_
    rw [sourceLossClass_stillValid hc] at hcls ⊢
    exact fun id hid => lossOf_setSource hw t hstatus (hw.direct_known hr hc id hid) (hcls id hid)
  reuse := h.reuse

theorem sourceLossClass_insertSource (hw : l.Wf) (c : CanonicalSource) (o : OperationId)
    (hr : r ∈ l.results) (hc : cites r.operation = none) :
    (l.insertSource c o).sourceLossClass r.operation = l.sourceLossClass r.operation :=
  sourceLossClass_congr fun id hid => lossOf_insertSource hw c o (hw.direct_known hr hc id hid)

theorem Pending.insertSource (hw : l.Wf) (h : l.Pending) (c : CanonicalSource) (o : OperationId) :
    (l.insertSource c o).Pending where
  lost := fun r hr hc hs hcls =>
    h.lost r hr hc hs ((sourceLossClass_insertSource hw c o hr hc).symm.trans hcls)
  reuse := h.reuse

theorem Current.insertSource (hw : l.Wf) (h : l.Current) (c : CanonicalSource) (o : OperationId) :
    (l.insertSource c o).Current where
  valid := by
    intro r hr hc hs
    rw [sourceLossClass_insertSource hw c o hr hc]
    exact h.valid r hr hc hs
  recompute := by
    intro r hr hc hs
    rw [sourceLossClass_insertSource hw c o hr hc]
    exact h.recompute r hr hc hs
  reuse := h.reuse

/-! ## A registered combination -/

def mark (k : CheckedCombination) (o : OperationId) (r : ResultRecord) : ResultRecord :=
  if k.replaces = some r.id then { r with status := .replaced k.id o } else r

theorem replacing_eq (k : CheckedCombination) (o : OperationId) :
    l.replacing k o = l.results.map (mark k o) := by
  unfold replacing
  cases hk : k.replaces with
  | none =>
    have hid : mark k o = id := by
      funext r
      unfold mark
      rw [hk]
      rfl
    rw [hid, List.map_id]
  | some t =>
    unfold setResult
    refine List.map_congr_left fun r _ => ?_
    unfold mark
    rw [hk]
    simp only [Option.some.injEq]
    split_ifs with h1 h2 h2
    · rfl
    · exact absurd h1.symm h2
    · exact absurd h2.symm h1
    · rfl

theorem mark_of_kept (h : (mark k o r).status.isReplaced = false) : mark k o r = r := by
  unfold mark at h ⊢
  split_ifs at h ⊢
  · cases h
  · rfl

@[simp] theorem mark_id (k : CheckedCombination) (o : OperationId) (r : ResultRecord) :
    (mark k o r).id = r.id := by
  unfold mark
  split_ifs <;> rfl

@[simp] theorem mark_operation (k : CheckedCombination) (o : OperationId) (r : ResultRecord) :
    (mark k o r).operation = r.operation := by
  unfold mark
  split_ifs <;> rfl

theorem result_register (o : OperationId) (id : ResultId) :
    (l.register k o).result id =
      ((l.result id).map (mark k o)).or (if k.id = id then some (record k o) else none) := by
  unfold result
  rw [register_results, replacing_eq, List.find?_append, List.find?_map]
  congr 1
  · simp [Function.comp_def]
  · by_cases h : k.id = id <;> simp [record, h]

theorem mem_register (h : r ∈ (l.register k o).results) :
    (∃ r₀ ∈ l.results, r = mark k o r₀) ∨ r = record k o := by
  rw [register_results, replacing_eq] at h
  rcases List.mem_append.mp h with h | h
  · obtain ⟨r₀, hr₀, rfl⟩ := List.mem_map.mp h
    exact Or.inl ⟨r₀, hr₀, rfl⟩
  · exact Or.inr (List.mem_singleton.mp h)

theorem sourceLossClass_register (k : CheckedCombination) (o : OperationId)
    (op : SynthesisOperation) : (l.register k o).sourceLossClass op = l.sourceLossClass op := by
  have hsrc := register_sources (l := l) k o
  refine sourceLossClass_congr fun id _ => ?_
  unfold lossOf lineageClosure lineageFuel parents source
  rw [hsrc]

theorem record_current {c : CheckedOperation}
    (h : l.FromRequest ids request c k) (hc : cites k.operation = none) :
    l.sourceLossClass k.operation = .stillValid := by
  rw [sourceLossClass_stillValid hc]
  rw [h.operation] at hc ⊢
  rcases checkOperation_ok h.checked with hcomb | ⟨cited, orig, hr⟩
  · intro id hid
    exact (hcomb.usable id (hcomb.direct ▸ mem_sorted.mpr hid)).2
  · rw [hr.operation] at hc
    cases hc

theorem Current.register (hw : l.Wf) (h : l.Current)
    {k : CheckedCombination} (o : OperationId) (hk : l.checkCombination ids request = .ok k) :
    (l.register k o).Current := by
  obtain ⟨c, hreq⟩ := checkCombination_ok hk
  refine ⟨fun r hr hc hs => ?_, fun r hr hc hs => ?_, fun r hr c' p hop hp hs hs' => ?_⟩
  · rw [sourceLossClass_register]
    rcases mem_register hr with ⟨r₀, hr₀, rfl⟩ | rfl
    · have hkept := mark_of_kept hs
      rw [hkept] at hc hs ⊢
      exact h.valid r₀ hr₀ hc hs
    · exact iff_of_true rfl (record_current hreq hc)
  · rw [sourceLossClass_register]
    rcases mem_register hr with ⟨r₀, hr₀, rfl⟩ | rfl
    · have hkept : mark k o r₀ = r₀ := by
        refine mark_of_kept ?_
        cases hst : (mark k o r₀).status with
        | replaced by_ op => rw [hst] at hs; cases hs
        | _ => rfl
      rw [hkept] at hc hs ⊢
      exact h.recompute r₀ hr₀ hc hs
    · cases hs
  · rw [result_register] at hp
    rcases mem_register hr with ⟨r₀, hr₀, rfl⟩ | rfl
    · -- the cited result was there, and neither was marked
      rw [mark_operation] at hop
      obtain ⟨before, after, he⟩ := List.append_of_mem hr₀
      obtain ⟨q, -, hq, -⟩ := hw.cited he hop
      rw [hq] at hp
      have hp : mark k o q = p := by simpa using hp
      subst hp
      have hkept := mark_of_kept hs
      have hkept' := mark_of_kept hs'
      rw [hkept] at hs ⊢
      rw [hkept'] at hs' ⊢
      exact h.reuse r₀ hr₀ c' q hop hq hs hs'
    · -- a reuse is registered valid, of a valid result
      have hop' : c.operation = .evidenceReuse c' := hreq.operation.symm.trans hop
      rcases checkOperation_ok hreq.checked with hcomb | ⟨cited, orig, hre⟩
      · have := hcomb.cites
        rw [hop'] at this
        cases this
      · have hcc : cited = c' := by
          rw [hre.operation] at hop'
          cases hop'
          rfl
        rw [← hcc, hre.result] at hp
        have hp : mark k o orig = p := by simpa using hp
        subst hp
        rw [mark_of_kept hs', hre.valid]
        rfl

/-! ## Steps and runs -/

theorem retiredStatus_inactive (o : OperationId) (reason : Option String) (retire : Retire)
    (successor : Option SourceId) : (retiredStatus o reason retire successor).isActive = false := by
  cases retire <;> cases successor <;> rfl

theorem Applied.current (hw : l.Wf) (h : l.Current) (ha : l.Applied ids op l') : l'.Current := by
  cases ha with
  | added o hc fresh => exact h.insertSource hw _ o
  | withdrawn o hs ht =>
    exact (h.setSource hw _ rfl).reclassify (hw.setSource _ _) o
  | @succeeded _ retire target d c s o hop hs ht hc fresh apart =>
    have hadm := canonicalSource_admitted hw.rows hc
    have hset := hw.setSource target (retiredStatus o none retire (some c.id))
    refine Pending.reclassify ?_ ((h.setSource hw _ (retiredStatus_inactive _ _ _ _)).insertSource
      hset c o) o
    refine hset.insertSource o ?_ hadm.rows fun p hp => ?_
    · rw [source_setSource, fresh]
      rfl
    · exact (grows_setSource l _ _).isSome (hadm.usable p hp).1
  | revalidated o => exact h.pending.reclassify hw o
  | combined o hk => exact h.register hw o hk

/-- **The step lemma of the standings.** -/
theorem apply_current (h : l.Wf ∧ l.Current)
    (ha : l.apply ids op = .ok l') : l'.Wf ∧ l'.Current := by
  obtain ⟨m, head, log, hm, rfl⟩ := apply_cases ha
  exact ⟨(hm.wf h.1).stamp head log, (hm.current h.1 h.2).stamp head log⟩

theorem current_new (ids : Identities) : (new ids).Current :=
  ⟨fun _ h => absurd h List.not_mem_nil, fun _ h => absurd h List.not_mem_nil,
    fun _ h => absurd h List.not_mem_nil⟩

theorem current_run (ids : Identities) (ops : List LedgerOperation) :
    (run (apply ids) (new ids) ops).Wf ∧ (run (apply ids) (new ids) ops).Current :=
  run_inv (fun _ _ _ hi _ ha => apply_current hi ha) ops (new ids) ⟨wf_new ids, current_new ids⟩
    (meets_of_forall (P := fun _ _ => True) (fun _ _ => trivial) ops _)

/-! ## The statement -/

/-- A result that was replaced, or that cites one that rests on a replaced result. -/
inductive RestsOnReplaced (l : EvidenceLedger) : ResultRecord → Prop
  | replaced {r : ResultRecord} (h : r.status.isReplaced = true) : RestsOnReplaced l r
  | reuse {r o : ResultRecord} {c : ResultId} (hop : r.operation = .evidenceReuse c)
      (ho : l.result c = some o) (h : RestsOnReplaced l o) : RestsOnReplaced l r

def HasRow (s : EvidenceSource) (x : ObservationId) : Prop :=
  ∃ rows, s.effective.rows = some rows ∧ x ∈ rows

theorem not_replaced (h : ¬l.RestsOnReplaced r) : r.status.isReplaced = false :=
  Bool.eq_false_iff.mpr fun hr => h (.replaced hr)

/-- **A result that rests on no replaced one is valid iff none of its sources is lost.** -/
theorem Current.valid_iff (hw : l.Wf) (h : l.Current) : ∀ r ∈ l.results, ¬l.RestsOnReplaced r →
    (r.status = .valid ↔ ∀ id ∈ l.resultSources r.id, l.lossOf id = none) := by
  refine record_induction hw (P := fun r => ¬l.RestsOnReplaced r →
    (r.status = .valid ↔ ∀ id ∈ l.resultSources r.id, l.lossOf id = none)) ?_ ?_
  · intro r hr hc hrest
    rw [h.valid r hr hc (not_replaced hrest), sourceLossClass_stillValid hc,
      resultSources_combined hw hr hc]
    simp only [mem_sorted]
  · intro r hr c o hop ho _ _ _ ih hrest
    have horest : ¬l.RestsOnReplaced o := fun hro => hrest (.reuse hop ho hro)
    rw [resultSources_reuse hw hr hop, ← (result_some ho).2, ← ih horest,
      ← revalidation_stillValid, ← revalidation_stillValid,
      h.reuse r hr c o hop ho (not_replaced hrest) (not_replaced horest)]

/-- **Classifying again changes no result that rests on no replaced one.** -/
theorem Current.reclassify_kept (hw : l.Wf) (h : l.Current) (o : OperationId) :
    ∀ r ∈ l.results, ¬l.RestsOnReplaced r → (l.reclassify o).result r.id = some r := by
  refine record_induction hw (P := fun r => ¬l.RestsOnReplaced r →
    (l.reclassify o).result r.id = some r) ?_ ?_
  · intro r hr hc hrest
    have hcls : (l.reclassify o).classOf r.operation = l.sourceLossClass r.operation :=
      classOf_combined hc
    have hsame : updated o (l.sourceLossClass r.operation) r.status = r.status := by
      cases hst : r.status with
      | valid =>
        rw [(h.valid r hr hc (not_replaced hrest)).mp hst]
        rfl
      | needsRecompute cause =>
        rw [h.recompute r hr hc (by rw [hst]; rfl)]
        rfl
      | withdrawn cause => rfl
      | replaced by_ op => rfl
    rw [result_reclassify hw, hw.result_mem hr, Option.map_some, hcls, hsame]
  · intro r hr c p hop hp _ _ _ ih hrest
    have hprest : ¬l.RestsOnReplaced p := fun hro => hrest (.reuse hop hp hro)
    have hkept := ih hprest
    rw [(result_some hp).2] at hkept
    have hcls := classOf_reuse hkept (not_replaced hprest)
    rw [result_reclassify hw, hw.result_mem hr, Option.map_some, hop, hcls,
      ← h.reuse r hr c p hop hp (not_replaced hrest) (not_replaced hprest), updated_self, ← hop]

/-- A result that is not valid is there and not valid afterwards. -/
def NeverAgain (l l' : EvidenceLedger) : Prop :=
  ∀ id r, l.result id = some r → r.status ≠ .valid →
    ∃ r', l'.result id = some r' ∧ r'.status ≠ .valid

theorem neverAgain_reclassify (hw : l.Wf) (o : OperationId) : l.NeverAgain (l.reclassify o) := by
  intro id r hr hs
  refine ⟨_, by rw [result_reclassify hw, hr]; rfl, ?_⟩
  exact fun hv => hs (updated_valid.mp hv).1

theorem Applied.neverAgain (hw : l.Wf) (ha : l.Applied ids op l') :
    l.NeverAgain l' := by
  cases ha with
  | added o hc fresh => exact fun _ r hr hs => ⟨r, hr, hs⟩
  | withdrawn o hs ht => exact neverAgain_reclassify (hw.setSource _ _) o
  | succeeded o hop hs ht hc fresh apart =>
    have hadm := canonicalSource_admitted hw.rows hc
    refine neverAgain_reclassify ((hw.setSource _ _).insertSource o ?_ hadm.rows fun p hp => ?_) o
    · rw [source_setSource, fresh]
      rfl
    · exact (grows_setSource l _ _).isSome (hadm.usable p hp).1
  | revalidated o => exact neverAgain_reclassify hw o
  | @combined request k o hk =>
    intro id r hr hs
    refine ⟨mark k o r, by rw [result_register, hr]; rfl, fun hv => ?_⟩
    unfold mark at hv
    split_ifs at hv
    exact hs hv

/-- **No operation of a run makes a result valid again.** -/
theorem neverAgain_run (hw : l.Wf) (ops : List LedgerOperation) :
    l.NeverAgain (run (apply ids) l ops) := by
  refine run_step (I := Wf) (R := NeverAgain) (fun _ _ r hr hs => ⟨r, hr, hs⟩) ?_
    (fun _ _ _ h ha => apply_wf h ha) ?_ ops l hw
  · intro a b c hab hbc id r hr hs
    obtain ⟨r', hr', hs'⟩ := hab id r hr hs
    exact hbc id r' hr' hs'
  · intro s op s' h ha
    obtain ⟨m, head, log, hm, rfl⟩ := apply_cases ha
    have hm' : s.NeverAgain m := hm.neverAgain h
    exact hm'

theorem holds_iff {x : ObservationId} :
    l.holds x = true ↔ ∃ s ∈ l.sources, s.status.isActive = true ∧ HasRow s x := by
  unfold holds HasRow
  rw [List.any_eq_true]
  constructor
  · rintro ⟨s, hs, hx⟩
    obtain ⟨hs, hact⟩ := List.mem_filter.mp hs
    refine ⟨s, hs, hact, ?_⟩
    cases hr : s.effective.rows with
    | none =>
      rw [hr] at hx
      cases hx
    | some rows =>
      rw [hr] at hx
      exact ⟨rows, rfl, by simpa using hx⟩
  · rintro ⟨s, hs, hact, rows, hr, hx⟩
    refine ⟨s, List.mem_filter.mpr ⟨hs, hact⟩, ?_⟩
    rw [hr]
    simpa using hx

/-- What the standings of a ledger say, of the results that rest on no replaced one and of the rows
that a usable source has or no active source has. -/
structure StandingsSay (ids : Identities) (l : EvidenceLedger) : Prop where
  /-- Valid iff all the lineage is active and, for a reuse, the cited result is valid. -/
  valid : ∀ r ∈ l.results, ¬l.RestsOnReplaced r →
    (r.status = .valid ↔ (∀ id ∈ l.resultSources r.id, l.Sound id) ∧
      ∀ c, r.operation = .evidenceReuse c → ∃ o, l.result c = some o ∧ o.status = .valid)
  /-- Revalidating changes no status. -/
  revalidate : ∀ r ∈ l.results, ¬l.RestsOnReplaced r →
    ∃ r', (next (apply ids) l .revalidateDownstream).result r.id = some r' ∧ r'.status = r.status
  /-- A result never returns to valid. -/
  never_again : ∀ more, ∀ r ∈ l.results, r.status ≠ .valid →
    ∃ r', (run (apply ids) l more).result r.id = some r' ∧ r'.status ≠ .valid
  holds_usable : ∀ x, ∀ s ∈ l.sources, l.Sound s.id → HasRow s x → l.holds x = true
  holds_active : ∀ x, l.holds x = true → ∃ s ∈ l.sources, s.status.isActive = true ∧ HasRow s x
  /-- Where no active source descends from a retired one, `holds` is about the usable sources. -/
  holds_exact : (∀ s ∈ l.sources, s.status.isActive = true → l.Sound s.id) →
    ∀ x, l.holds x = true ↔ ∃ s ∈ l.sources, l.Sound s.id ∧ HasRow s x

/-- **The standings of every reachable ledger are current**, up to what was replaced. -/
theorem standings_current (ids : Identities) (ops : List LedgerOperation) :
    StandingsSay ids (run (apply ids) (new ids) ops) := by
  obtain ⟨hw, h⟩ := current_run ids ops
  generalize run (apply ids) (new ids) ops = l at hw h
  have hsound : ∀ r ∈ l.results, (∀ id ∈ l.resultSources r.id, l.lossOf id = none) ↔
      ∀ id ∈ l.resultSources r.id, l.Sound id := by
    intro r hr
    obtain ⟨o, ho⟩ := exists_root hw r hr
    refine forall₂_congr fun id hid => lossOf_eq_none hw ?_
    rw [ho.sources, mem_sorted] at hid
    exact hw.direct_known ho.mem ho.cites id hid
  have hself : ∀ s ∈ l.sources, l.Sound s.id → s.status.isActive = true := by
    intro s hs hsnd
    obtain ⟨s', hs', hact⟩ := hsnd s.id .refl
    have : l.source s.id = some s := find?_key hw.sourceIds hs
    rw [this] at hs'
    cases hs'
    exact hact
  refine ⟨fun r hr hrest => ?_, fun r hr hrest => ?_, fun more r hr hs => ?_,
    fun x s hs hsnd hx => holds_iff.mpr ⟨s, hs, hself s hs hsnd, hx⟩,
    fun x hx => holds_iff.mp hx, fun hall x => ?_⟩
  · rw [h.valid_iff hw r hr hrest, hsound r hr]
    refine ⟨fun hv => ⟨hv, fun c hop => ?_⟩, fun hv => hv.1⟩
    obtain ⟨before, after, he⟩ := List.append_of_mem hr
    obtain ⟨o, -, ho, -⟩ := hw.cited he hop
    have horest : ¬l.RestsOnReplaced o := fun hro => hrest (.reuse hop ho hro)
    refine ⟨o, ho, (h.valid_iff hw o (result_some ho).1 horest).mpr ?_⟩
    rw [(result_some ho).2, ← resultSources_reuse hw hr hop]
    exact (hsound r hr).mpr hv
  · unfold next
    cases ha : l.apply ids .revalidateDownstream with
    | error e => exact ⟨r, hw.result_mem hr, rfl⟩
    | ok l' =>
      obtain ⟨m, head, log, hm, rfl⟩ := apply_cases ha
      cases hm with
      | revalidated o => exact ⟨r, h.reclassify_kept hw o r hr hrest, rfl⟩
      | succeeded o hop hs ht hc fresh apart =>
        rcases hop with ⟨hop, -⟩ | ⟨hop, -⟩ | ⟨hop, -⟩ <;> cases hop
  · exact neverAgain_run hw more r.id r (hw.result_mem hr) hs
  · rw [holds_iff]
    exact exists_congr fun s => and_congr_right fun hs =>
      and_congr_left fun _ => ⟨hall s hs, hself s hs⟩

def cohort (rows : List ObservationId) : SourceDeclaration where
  label := "cohort"
  kind := .observationSet
  observations := .declared rows
  lineage := .original
  transport := none

def recomputation : List LedgerOperation :=
  [.add (cohort [1]), .add (cohort [2]),
    .combine ⟨"first", .statisticalPooling [11, 12] .independent, none⟩,
    .combine ⟨"second", .statisticalPooling [11, 12] .independent, some 5⟩]

/-- A result that is recomputed while it is valid is valid no more, and all it rests on is active. -/
theorem replaced_without_loss :
    ∃ r ∈ (run (apply plainIdentities) (new plainIdentities) recomputation).results,
      r.status ≠ .valid ∧ cites r.operation = none ∧
        ∀ id ∈ (run (apply plainIdentities) (new plainIdentities) recomputation).resultSources r.id,
          (run (apply plainIdentities) (new plainIdentities) recomputation).Sound id := by
  obtain ⟨r, hr, hs, hc, hall⟩ :
      ∃ r ∈ (run (apply plainIdentities) (new plainIdentities) recomputation).results,
        r.status ≠ .valid ∧ cites r.operation = none ∧
          ∀ id ∈ (run (apply plainIdentities) (new plainIdentities) recomputation).resultSources
            r.id, ((run (apply plainIdentities) (new plainIdentities) recomputation).source
              id).isSome ∧ (run (apply plainIdentities) (new plainIdentities) recomputation).lossOf
                id = none := by
    decide +kernel
  refine ⟨r, hr, hs, hc, fun id hid => ?_⟩
  exact (lossOf_eq_none (wf_run plainIdentities recomputation) (hall id hid).1).mp (hall id hid).2

end EvidenceLedger

end Antecedent.Contract
