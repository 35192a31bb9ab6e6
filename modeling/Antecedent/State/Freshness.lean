import Antecedent.Machine.History
import Antecedent.State.Accepted

/-!
# Freshness, over every history

A query is fresh when a publication of it was accepted and no event but registrations was since. The
code records this three times: in the stamp of the query's record, in the log of invalidations, and in
the inputs the record still waits for. `Traced` ties each of the three to the history of accepted
operations; the questions asked of a state follow from it.

* `traced_run`: from a new state, any sequence of operations keeps the records tied to its history.
-/

namespace Antecedent.State.CausalState

open Core Contract Machine

variable {s s' : CausalState} {o : Op} {h : List Op} {q : Nat}

/-! ## Histories -/

/-- The operation publishes a result of the query. -/
def Op.Publishes (q : Nat) (o : Op) : Prop :=
  ∃ us, o.publications = some us ∧ q ∈ us.map ResultPublication.query

/-- The operation is an event other than a registration. -/
def Op.Invalidates (o : Op) : Prop := ∃ e, o = .apply e ∧ e.invalidates = true

def Op.Removes (o : Op) : Prop := ∃ id, o = .apply (.removeConstraint id)

def Fresh (q : Nat) (h : List Op) : Prop := Standing (Op.Publishes q) Op.Invalidates h

def RemovedSince (q : Nat) (h : List Op) : Prop := SinceLast (Op.Publishes q) Op.Removes h

def WasPublished (q : Nat) (h : List Op) : Prop := ∃ o ∈ h, o.Publishes q

/-- How many queries were registered. -/
def registrations (h : List Op) : Nat := h.countP fun o => o == .apply .registerQuery

/-- How many events there were. -/
def events (h : List Op) : Nat := h.countP fun o => match o with | .apply _ => true | _ => false

def Op.bytes : Op → Nat
  | .publish us | .publishAt _ us => (us.map ResultPublication.bytes).sum
  | .refresh us | .refreshAt _ us => (us.map fun u => u.2.2).sum
  | .insertDiag _ charge => charge
  | .apply _ => 0

def askedBytes (h : List Op) : Nat := (h.map Op.bytes).sum

/-- The operations of a run that were accepted. -/
def accepted : CausalState → List Op → List Op
  | _, [] => []
  | s, o :: os =>
    match (s.step o).2 with
    | .ok _ => o :: accepted (s.step o).1 os
    | .error _ => accepted (s.step o).1 os

@[simp] theorem not_publishes_apply (e : StateEvent) : ¬ (Op.apply e).Publishes q := by
  rintro ⟨us, h, -⟩
  cases h

@[simp] theorem not_publishes_insertDiag (key : String) (charge : Nat) :
    ¬ (Op.insertDiag key charge).Publishes q := by
  rintro ⟨us, h, -⟩
  cases h

@[simp] theorem invalidates_apply (e : StateEvent) :
    (Op.apply e).Invalidates ↔ e.invalidates = true :=
  ⟨fun ⟨e', he, h⟩ => by cases he; exact h, fun h => ⟨e, rfl, h⟩⟩

@[simp] theorem not_invalidates_insertDiag (key : String) (charge : Nat) :
    ¬ (Op.insertDiag key charge).Invalidates := by
  rintro ⟨e, h, -⟩
  cases h

variable {us : List ResultPublication} {v : Nat} {e : StateEvent}

theorem publishes_iff (ho : o.publications = some us) :
    o.Publishes q ↔ q ∈ us.map ResultPublication.query :=
  ⟨fun ⟨us', h, hq⟩ => by rw [ho] at h; cases h; exact hq, fun hq => ⟨us, ho, hq⟩⟩

theorem not_invalidates_of_publications (ho : o.publications = some us) : ¬ o.Invalidates := by
  rintro ⟨e, rfl, -⟩
  cases ho

theorem Op.Removes.invalidates (hr : o.Removes) : o.Invalidates := by
  obtain ⟨id, rfl⟩ := hr
  exact ⟨_, rfl, rfl⟩

theorem wasPublished_concat : WasPublished q (h ++ [o]) ↔ WasPublished q h ∨ o.Publishes q := by
  simp [WasPublished, or_and_right, exists_or]

theorem Fresh.wasPublished (hf : Fresh q h) : WasPublished q h := by
  obtain ⟨h₁, p, h₂, rfl, hp, -⟩ := hf
  exact ⟨p, by simp, hp⟩

/-! ## The invariant -/

/-- The records of a state are those of its history. -/
structure Traced (h : List Op) (s : CausalState) : Prop where
  version : s.version = events h
  counter : s.queries.nextId = registrations h % queryIds
  registered : ∀ q, (s.queries.queries q).isSome ↔ q < registrations h
  known : ∀ q, WasPublished q h → q < registrations h
  stamped : ∀ q r, s.queries.queries q = some r → (r.resultValidAt.isSome ↔ Fresh q h)
  /-- The log holds nothing after a stamp that stands. -/
  stampedAt : ∀ q r v, s.queries.queries q = some r → r.resultValidAt = some v →
    ∀ e ∈ s.invalidations, e.concerns q = true → e.atVersion ≤ v
  settled : ∀ q r, s.queries.queries q = some r → Fresh q h → r.pendingInputs = []
  removed : ∀ q r, s.queries.queries q = some r → WasPublished q h →
    ((∃ i ∈ r.pendingInputs, i.change = .removed) ↔ RemovedSince q h)
  cached : ∀ q, q ∈ s.cachedResults.keys ↔ Fresh q h
  logged : ∀ e ∈ s.invalidations, e.atVersion ≤ s.version

theorem traced_new (budget : CacheBudget) : Traced [] (new budget) where
  version := rfl
  counter := rfl
  registered q := by simp [new, QueryStore.empty, registrations]
  known q hq := by obtain ⟨o, ho, -⟩ := hq; cases ho
  stamped q r hr := by cases hr
  stampedAt q r v hr := by cases hr
  settled q r hr := by cases hr
  removed q r hr := by cases hr
  cached q := by simp [new, ResultStore.empty, ResultStore.keys, Fresh]
  logged e he := by cases he

/-! ## The questions -/

theorem foldl_worst_eq {α : Type} (f : α → Revalidation) (l : List α) (c : Revalidation) :
    (l.foldl (fun c a => worst c (f a)) c = .stillValid ↔
      c = .stillValid ∧ ∀ a ∈ l, f a = .stillValid) ∧
    (l.foldl (fun c a => worst c (f a)) c = .withdrawn ↔
      c = .withdrawn ∨ ∃ a ∈ l, f a = .withdrawn) := by
  induction l generalizing c with
  | nil => simp
  | cons a l ih =>
    obtain ⟨hv, hw⟩ := ih (worst c (f a))
    rw [List.foldl_cons, hv, hw, List.forall_mem_cons, List.exists_mem_cons_iff]
    cases c <;> cases f a <;> simp [worst]

theorem pending_withdrawn {l : List ChangedInput} :
    l.foldl (fun c i => worst c i.revalidation) .stillValid = .withdrawn ↔
      ∃ i ∈ l, i.change = .removed := by
  rw [(foldl_worst_eq ChangedInput.revalidation l .stillValid).2]
  have hiff (i : ChangedInput) : i.revalidation = .withdrawn ↔ i.change = .removed := by
    unfold ChangedInput.revalidation
    cases i.change <;> simp [changeRevalidation]
  simp [hiff]

/-- A log with nothing after a stamp leaves it standing. -/
theorem revalidationSince_of_le {log : InvalidationLog}
    (hle : ∀ e ∈ log, e.concerns q = true → e.atVersion ≤ v) :
    revalidationSince log q v = .stillValid := by
  have hnil : log.filter (fun e => decide (e.atVersion > v) && e.concerns q) = [] := by
    refine List.filter_eq_nil_iff.mpr fun e he hand => ?_
    rw [Bool.and_eq_true, decide_eq_true_iff] at hand
    exact absurd (hle e he hand.2) (by omega)
  rw [revalidationSince, hnil]
  rfl

namespace Traced

variable (ht : Traced h s)
include ht

theorem isStale_iff : s.isStale q = false ↔ Fresh q h := by
  unfold isStale
  cases hr : s.queries.queries q with
  | none =>
    have hnot : ¬ Fresh q h := fun hf => by
      have := (ht.registered q).mpr (ht.known q hf.wasPublished)
      rw [hr] at this
      cases this
    simpa using hnot
  | some r =>
    rw [← ht.stamped q r hr]
    cases hv : r.resultValidAt with
    | none => simp [hv]
    | some v =>
      simp [hv, queryStaleSince, revalidationSince_of_le (ht.stampedAt q r v hr hv)]

theorem revalidation_stillValid_iff : s.revalidation q = some .stillValid ↔ Fresh q h := by
  unfold revalidation
  cases hr : s.queries.queries q with
  | none =>
    rw [← ht.isStale_iff, isStale, hr]
    simp
  | some r =>
    rw [← ht.stamped q r hr]
    cases hv : r.resultValidAt with
    | none =>
      simp only [Option.map_some, Option.some.injEq, hv, Option.isSome_none, Bool.false_eq_true,
        iff_false]
      generalize r.pendingInputs.foldl (fun c i => worst c i.revalidation) .stillValid = c
      cases c <;> simp [worst]
    | some v =>
      have hf : Fresh q h := (ht.stamped q r hr).mp (by rw [hv]; rfl)
      simp [hv, ht.settled q r hr hf, revalidationSince_of_le (ht.stampedAt q r v hr hv), worst]

theorem revalidation_withdrawn_iff (hp : WasPublished q h) :
    s.revalidation q = some .withdrawn ↔ RemovedSince q h := by
  obtain ⟨r, hr⟩ := Option.isSome_iff_exists.mp ((ht.registered q).mpr (ht.known q hp))
  rw [← ht.removed q r hr hp, ← pending_withdrawn]
  unfold revalidation
  rw [hr]
  simp only [Option.map_some, Option.some.injEq]
  generalize r.pendingInputs.foldl (fun c i => worst c i.revalidation) .stillValid = c
  cases hv : r.resultValidAt with
  | none => cases c <;> simp [worst]
  | some v =>
    simp only [revalidationSince_of_le (ht.stampedAt q r v hr hv)]
    cases c <;> simp [worst]

end Traced

/-! ## Events -/

/-- The loop over the cached results. -/
structure Cleared (qs : List Nat) (v : Nat) (s s' : CausalState) : Prop where
  version : s'.version = s.version
  nextId : s'.queries.nextId = s.queries.nextId
  keys : ∀ q, q ∈ s'.cachedResults.keys ↔ q ∈ s.cachedResults.keys ∧ q ∉ qs
  records : ∀ q, s'.queries.queries q = (s.queries.queries q).map fun r =>
    if q ∈ qs then { r with resultValidAt := none } else r
  logged : ∀ e ∈ s'.invalidations, e ∈ s.invalidations ∨ e.atVersion = v

theorem cleared_foldl (v : Nat) (m : String) (i : Option ChangedInput) :
    ∀ (qs : List Nat) (s : CausalState), Cleared qs v s (qs.foldl (invalidateResult v m i) s)
  | [], s => ⟨rfl, rfl, by simp, by simp, fun e he => Or.inl he⟩
  | p :: qs, s => by
    have ih := cleared_foldl v m i qs (invalidateResult v m i s p)
    refine ⟨ih.version, ih.nextId, fun q => ?_, fun q => ?_, fun e he => ?_⟩
    · have hkeys : q ∈ (invalidateResult v m i s p).cachedResults.keys ↔
          q ∈ s.cachedResults.keys ∧ q ≠ p := ResultStore.mem_keys_remove
      rw [List.foldl_cons, ih.keys, hkeys, List.mem_cons, not_or, and_assoc]
    · rw [List.foldl_cons, ih.records]
      by_cases hq : q = p
      · subst hq
        simp [invalidateResult, QueryStore.modify, log]
        cases s.queries.queries q with
        | none => rfl
        | some r => by_cases hmem : q ∈ qs <;> simp [hmem]
      · simp [invalidateResult, QueryStore.modify, log, hq]
    · rcases ih.logged e he with he | he
      · rcases List.mem_append.mp he with he | he
        · exact Or.inl he
        · exact Or.inr (by rw [List.mem_singleton.mp he])
      · exact Or.inr he

theorem invalidateAllResults_spec (v : Nat) (m : String) (i : ChangedInput) (s : CausalState) :
    (s.invalidateAllResults v m (some i)).version = s.version ∧
    (s.invalidateAllResults v m (some i)).queries.nextId = s.queries.nextId ∧
    (∀ q, q ∉ (s.invalidateAllResults v m (some i)).cachedResults.keys) ∧
    (∀ q, (s.invalidateAllResults v m (some i)).queries.queries q =
      (s.queries.queries q).map fun r => pend i
        (if q ∈ s.cachedResults.keys then { r with resultValidAt := none } else r)) ∧
    ∀ e ∈ (s.invalidateAllResults v m (some i)).invalidations,
      e ∈ s.invalidations ∨ e.atVersion = v := by
  have hc := cleared_foldl v m (some i) s.cachedResults.keys s
  refine ⟨hc.version, hc.nextId, fun q hq => ?_, fun q => ?_, fun e he => ?_⟩
  · have := (hc.keys q).mp hq
    exact this.2 this.1
  · have hrec := hc.records q
    rw [ResultStore.keys] at hrec
    simp only [invalidateAllResults, log, hrec, Option.map_map]
    rfl
  · rcases List.mem_append.mp he with he | he
    · exact hc.logged e he
    · exact Or.inr (by rw [List.mem_singleton.mp he])

theorem exists_removed_pend {i : ChangedInput} {r : QueryRecord} :
    (∃ j ∈ (pend i r).pendingInputs, j.change = .removed) ↔
      i.change = .removed ∨ ∃ j ∈ r.pendingInputs, j.change = .removed := by
  simp only [pend, List.mem_append, List.mem_filter, List.mem_singleton]
  constructor
  · rintro ⟨j, (⟨hj, -⟩ | rfl), hc⟩
    · exact Or.inr ⟨j, hj, hc⟩
    · exact Or.inl hc
  · rintro (hi | ⟨j, hj, hc⟩)
    · exact ⟨i, Or.inr rfl, hi⟩
    · by_cases hi : i.change = .removed
      · exact ⟨i, Or.inr rfl, hi⟩
      · refine ⟨j, Or.inl ⟨hj, ?_⟩, hc⟩
        have hne : (j.change == i.change) = false := by
          rw [hc]
          exact beq_eq_false_iff_ne.mpr fun h => hi h.symm
        simp [hne]

theorem changedInput_eq (s : CausalState) (he : e.invalidates = true) (v : Nat) :
    ∃ i, s.changedInput e v = some i ∧ (i.change = .removed ↔ (Op.apply e).Removes) := by
  have hne (hno : ∀ id, e ≠ .removeConstraint id) : ¬ (Op.apply e).Removes := by
    rintro ⟨id, h⟩
    exact hno id (Op.apply.inj h)
  cases e with
  | removeConstraint id => exact ⟨_, rfl, iff_of_true rfl ⟨id, rfl⟩⟩
  | registerQuery => cases he
  | _ => exact ⟨_, rfl, iff_of_false (by simp) (hne fun id h => by cases h)⟩

/-! ## One operation -/

theorem events_concat_apply (e : StateEvent) : events (h ++ [.apply e]) = events h + 1 := by
  simp [events, List.countP_append]

theorem events_concat_of_publications
    (ho : o.publications = some us) : events (h ++ [o]) = events h := by
  cases o with
  | apply e => cases ho
  | insertDiag key charge => cases ho
  | _ => simp [events, List.countP_append]

theorem registrations_concat_of_ne (ho : o ≠ .apply .registerQuery) :
    registrations (h ++ [o]) = registrations h := by
  simp [registrations, List.countP_append, ho]

theorem registrations_concat_register :
    registrations (h ++ [.apply .registerQuery]) = registrations h + 1 := by
  simp [registrations, List.countP_append]

theorem fresh_concat : Fresh q (h ++ [o]) ↔ o.Publishes q ∨ (¬ o.Invalidates ∧ Fresh q h) :=
  standing_concat

theorem removedSince_concat : RemovedSince q (h ++ [o]) ↔
    ¬ o.Publishes q ∧ (RemovedSince q h ∨ (o.Removes ∧ WasPublished q h)) :=
  sinceLast_concat

/-- An event other than a registration leaves no query fresh. -/
theorem Traced.invalidated (ht : Traced h s) (he : e.invalidates = true)
    (hev : events (h ++ [.apply e]) ≤ u64Max) (hv : v = (s.version + 1) % (u64Max + 1))
    {i : Option ChangedInput} (hi : i = ({ s with version := v } : CausalState).changedInput e v) :
    Traced (h ++ [.apply e]) (({ s with version := v } : CausalState).applied e v i) := by
  rw [events_concat_apply] at hev
  have hver : v = s.version + 1 := by
    rw [hv, ht.version]
    exact Nat.mod_eq_of_lt (by omega)
  obtain ⟨j, hj, hremoved⟩ := changedInput_eq { s with version := v } he v
  obtain rfl : i = some j := hi.trans hj
  obtain ⟨s₁, m, hs, hl⟩ := applied_spec (s := { s with version := v }) he v (some j)
  obtain ⟨hsver, hnext, hkeys, hrec, hlog⟩ := invalidateAllResults_spec v m j s₁
  have hne : Op.apply e ≠ .apply .registerQuery := by
    rintro heq
    rw [Op.apply.inj heq] at he
    cases he
  have hfresh (q : Nat) : ¬ Fresh q (h ++ [.apply e]) := by
    simp [fresh_concat, he]
  -- a stamp that stood was that of a cached result, so none is left
  have hrecord (q : Nat) (r : QueryRecord)
      (hr : (({ s with version := v } : CausalState).applied e v (some j)).queries.queries q = some r) :
      ∃ r₀, s.queries.queries q = some r₀ ∧ r.resultValidAt = none ∧
        r.pendingInputs = (pend j r₀).pendingInputs := by
    rw [hl.queries, hrec, hs.queries, hs.cachedResults] at hr
    obtain ⟨r₀, hr₀, rfl⟩ := Option.map_eq_some_iff.mp hr
    refine ⟨r₀, hr₀, ?_, ?_⟩
    · by_cases hq : q ∈ s.cachedResults.keys
      · simp [pend, hq]
      · have hnone := (ht.stamped q r₀ hr₀).not.mpr ((ht.cached q).not.mp hq)
        simpa [pend, hq] using hnone
    · by_cases hq : q ∈ s.cachedResults.keys <;> simp [pend, hq]
  have hlogged : ∀ e' ∈ (({ s with version := v } : CausalState).applied e v (some j)).invalidations,
      e'.atVersion ≤ v := fun e' he' => by
    rcases hl.invalidations e' he' with he' | rfl
    · rcases hlog e' he' with he' | rfl
      · rw [hs.invalidations] at he'
        have := ht.logged e' he'
        omega
      · exact Nat.le_refl _
    · exact Nat.le_refl _
  have hversion : (({ s with version := v } : CausalState).applied e v (some j)).version = v := by
    rw [hl.version, hsver, hs.version]
  refine ⟨?_, ?_, fun q => ?_, fun q hq => ?_, fun q r hr => ?_, fun q r v' hr hv' => ?_,
    fun q r hr hf => absurd hf (hfresh q), fun q r hr hp => ?_, fun q => ?_, ?_⟩
  · rw [hversion, events_concat_apply, hver, ht.version]
  · rw [hl.queries, hnext, hs.queries, registrations_concat_of_ne hne]
    exact ht.counter
  · rw [hl.queries, hrec, hs.queries, registrations_concat_of_ne hne, Option.isSome_map]
    exact ht.registered q
  · rw [registrations_concat_of_ne hne]
    exact ht.known q ((wasPublished_concat.mp hq).resolve_right (not_publishes_apply e))
  · obtain ⟨r₀, -, hnone, -⟩ := hrecord q r hr
    simp [hnone, hfresh q]
  · obtain ⟨r₀, -, hnone, -⟩ := hrecord q r hr
    rw [hnone] at hv'
    cases hv'
  · obtain ⟨r₀, hr₀, -, hpend⟩ := hrecord q r hr
    have hp₀ := (wasPublished_concat.mp hp).resolve_right (not_publishes_apply e)
    rw [hpend, exists_removed_pend, hremoved, ht.removed q r₀ hr₀ hp₀, removedSince_concat]
    simp only [not_publishes_apply, not_false_eq_true, true_and, hp₀, and_true]
    exact or_comm
  · rw [hl.cachedResults]
    exact iff_of_false (hkeys q) (hfresh q)
  · rw [hversion]
    exact hlogged

theorem Traced.registered_ (ht : Traced h s) (hev : events (h ++ [.apply .registerQuery]) ≤ u64Max)
    (hreg : registrations (h ++ [.apply .registerQuery]) ≤ queryIds)
    (hv : v = (s.version + 1) % (u64Max + 1)) (i : Option ChangedInput) :
    Traced (h ++ [.apply .registerQuery])
      (({ s with version := v } : CausalState).applied .registerQuery v i) := by
  rw [events_concat_apply] at hev
  rw [registrations_concat_register] at hreg
  have hver : v = s.version + 1 := by
    rw [hv, ht.version]
    exact Nat.mod_eq_of_lt (by omega)
  have hnext : s.queries.nextId = registrations h := by
    rw [ht.counter]
    exact Nat.mod_eq_of_lt (by omega)
  have hfresh (q : Nat) : Fresh q (h ++ [.apply .registerQuery]) ↔ Fresh q h := by
    simp [fresh_concat, StateEvent.invalidates]
  have hwas (q : Nat) : WasPublished q (h ++ [.apply .registerQuery]) ↔ WasPublished q h := by
    simp [wasPublished_concat]
  have hnotRemoves : ¬ (Op.apply .registerQuery).Removes := by
    rintro ⟨id, heq⟩
    cases heq
  have hnew : ¬ WasPublished (registrations h) h := fun hp =>
    Nat.lt_irrefl _ (ht.known _ hp)
  have hrecord (q : Nat) : (({ s with version := v } : CausalState).applied .registerQuery v
      i).queries.queries q = if q = registrations h then some ⟨none, none, []⟩
        else s.queries.queries q := by
    simp only [applied, QueryStore.register, hnext, Function.update_apply]
  refine ⟨?_, ?_, fun q => ?_, fun q hq => ?_, fun q r hr => ?_, fun q r v' hr hv' => ?_,
    fun q r hr hf => ?_, fun q r hr hp => ?_, fun q => ?_, fun e he => ?_⟩
  · rw [events_concat_apply, ← ht.version]
    exact hver
  · rw [registrations_concat_register]
    simp only [applied, QueryStore.register, hnext]
  · rw [hrecord, registrations_concat_register]
    have := ht.registered q
    split_ifs with hq
    · simp [hq]
    · rw [this]
      omega
  · rw [registrations_concat_register]
    exact Nat.lt_succ_of_lt (ht.known q ((hwas q).mp hq))
  · rw [hrecord] at hr
    rw [hfresh]
    split_ifs at hr with hq
    · cases hr
      exact iff_of_false (by simp) fun hf => hnew (hq ▸ hf.wasPublished)
    · exact ht.stamped q r hr
  · rw [hrecord] at hr
    split_ifs at hr with hq
    · cases hr
      cases hv'
    · exact ht.stampedAt q r v' hr hv'
  · rw [hrecord] at hr
    rw [hfresh] at hf
    split_ifs at hr with hq
    · cases hr
      rfl
    · exact ht.settled q r hr hf
  · rw [hrecord] at hr
    rw [hwas] at hp
    split_ifs at hr with hq
    · exact absurd (hq ▸ hp) hnew
    · rw [ht.removed q r hr hp, removedSince_concat]
      simp [hnotRemoves]
  · rw [hfresh]
    exact ht.cached q
  · exact (ht.logged e he).trans (by simp only [applied]; omega)

theorem Traced.published (ht : Traced h s)
    (ho : o.publications = some us) (hknown : ∀ u ∈ us, (s.queries.queries u.query).isSome)
    {results : ResultStore} {budget : CacheBudget} (hstaged : Staged us s results budget)
    {queries : Nat → Option QueryRecord} (hst : Stamped us s queries) :
    Traced (h ++ [o]) { s with
      cachedResults := results, cacheBudget := budget, queries := ⟨queries, s.queries.nextId⟩ } := by
  have hreg : registrations (h ++ [o]) = registrations h :=
    registrations_concat_of_ne (by rintro rfl; cases ho)
  have hpub (q : Nat) : o.Publishes q ↔ q ∈ us.map ResultPublication.query := publishes_iff ho
  have hinv := not_invalidates_of_publications ho
  have hremoves : ¬ o.Removes := fun hr => hinv hr.invalidates
  have hisSome (q : Nat) : (queries q).isSome ↔ (s.queries.queries q).isSome := by
    by_cases hq : q ∈ us.map ResultPublication.query
    · obtain ⟨r, hr, -⟩ := hst.fresh q hq
      obtain ⟨u, hu, rfl⟩ := List.mem_map.mp hq
      simp [hr, hknown u hu]
    · rw [hst.other q hq]
  refine ⟨?_, ?_, fun q => ?_, fun q hq => ?_, fun q r hr => ?_, fun q r v hr hv e he hc => ?_,
    fun q r hr hf => ?_, fun q r hr hp => ?_, fun q => ?_, ht.logged⟩
  · rw [events_concat_of_publications ho]
    exact ht.version
  · rw [hreg]
    exact ht.counter
  · rw [hreg, ← ht.registered]
    exact hisSome q
  · rw [hreg]
    rcases wasPublished_concat.mp hq with hq | hq
    · exact ht.known q hq
    · obtain ⟨u, hu, rfl⟩ := List.mem_map.mp ((hpub q).mp hq)
      exact (ht.registered _).mp (hknown u hu)
  · simp only [fresh_concat, hpub, hinv, not_false_eq_true, true_and]
    by_cases hq : q ∈ us.map ResultPublication.query
    · obtain ⟨r', hr', hvalid, -⟩ := hst.fresh q hq
      obtain rfl := Option.some.inj (hr'.symm.trans hr)
      simp [hvalid, hq]
    · simp only [hq, false_or]
      exact ht.stamped q r ((hst.other q hq).symm.trans hr)
  · by_cases hq : q ∈ us.map ResultPublication.query
    · obtain ⟨r', hr', hvalid, -⟩ := hst.fresh q hq
      obtain rfl := Option.some.inj (hr'.symm.trans hr)
      obtain rfl := Option.some.inj (hvalid.symm.trans hv)
      exact ht.logged e he
    · exact ht.stampedAt q r v ((hst.other q hq).symm.trans hr) hv e he hc
  · by_cases hq : q ∈ us.map ResultPublication.query
    · obtain ⟨r', hr', -, hpend⟩ := hst.fresh q hq
      obtain rfl := Option.some.inj (hr'.symm.trans hr)
      exact hpend
    · rw [fresh_concat, hpub] at hf
      exact ht.settled q r ((hst.other q hq).symm.trans hr) (hf.resolve_left hq).2
  · rw [removedSince_concat, hpub]
    by_cases hq : q ∈ us.map ResultPublication.query
    · obtain ⟨r', hr', -, hpend⟩ := hst.fresh q hq
      obtain rfl := Option.some.inj (hr'.symm.trans hr)
      simp [hpend, hq]
    · rw [wasPublished_concat, hpub] at hp
      rw [ht.removed q r ((hst.other q hq).symm.trans hr) (hp.resolve_right hq)]
      simp [hq, hremoves]
  · simp only [fresh_concat, hpub, hinv, not_false_eq_true, true_and]
    rw [hstaged.keys, ht.cached]
    exact or_comm

/-- A diagnostics slot is no query's. -/
theorem Traced.charged (ht : Traced h s) (key : String) (charge : Nat) {l : List (String × Nat)}
    {b : CacheBudget} :
    Traced (h ++ [.insertDiag key charge]) { s with mechanismDiags := l, cacheBudget := b } := by
  have hreg : registrations (h ++ [.insertDiag key charge]) = registrations h :=
    registrations_concat_of_ne (by rintro ⟨⟩)
  have hfresh (q : Nat) : Fresh q (h ++ [.insertDiag key charge]) ↔ Fresh q h := by
    simp [fresh_concat]
  have hwas (q : Nat) : WasPublished q (h ++ [.insertDiag key charge]) ↔ WasPublished q h := by
    simp [wasPublished_concat]
  have hremoves : ¬ (Op.insertDiag key charge).Removes := by
    rintro ⟨id, heq⟩
    cases heq
  have hevents : events (h ++ [.insertDiag key charge]) = events h := by
    simp [events, List.countP_append]
  refine ⟨hevents ▸ ht.version, hreg ▸ ht.counter, fun q => hreg ▸ ht.registered q,
    fun q hq => hreg ▸ ht.known q ((hwas q).mp hq), fun q r hr => ?_, ht.stampedAt,
    fun q r hr hf => ht.settled q r hr ((hfresh q).mp hf), fun q r hr hp => ?_, fun q => ?_,
    ht.logged⟩
  · rw [hfresh]
    exact ht.stamped q r hr
  · rw [ht.removed q r hr ((hwas q).mp hp), removedSince_concat]
    simp [hremoves]
  · rw [hfresh]
    exact ht.cached q

/-- **What an accepted operation preserves.** -/
theorem traced_step (ht : Traced h s) (hev : events (h ++ [o]) ≤ u64Max)
    (hreg : registrations (h ++ [o]) ≤ queryIds) (ha : Accepted s o s') :
    Traced (h ++ [o]) s' := by
  cases ha with
  | event e v hv i hi =>
    cases he : e.invalidates with
    | true => exact ht.invalidated he hev hv hi
    | false =>
      cases e with
      | registerQuery => exact ht.registered_ hev hreg hv i
      | _ => cases he
  | published _ us ho hknown results budget hstaged queries hst =>
    exact ht.published ho hknown hstaged hst
  | charged key charge hroomy => exact ht.charged key charge

/-! ## Runs -/

/-- **The records are those of the history, over a run.** -/
theorem traced_run : ∀ (ops h : List Op) (s : CausalState), Traced h s →
    events (h ++ ops) ≤ u64Max → registrations (h ++ ops) ≤ queryIds →
    Traced (h ++ accepted s ops) (run s ops)
  | [], h, s, ht, _, _ => by simpa [accepted, run] using ht
  | o :: ops, h, s, ht, hev, hreg => by
    have hrun : run s (o :: ops) = run (s.step o).1 ops := rfl
    simp only [events, registrations, List.countP_append, List.countP_cons] at hev hreg
    rcases step_spec s o with ⟨e, hs⟩ | ⟨s', hs, ha⟩
    · rw [hrun, accepted, hs]
      refine traced_run ops h s ht ?_ ?_
      · rw [events, List.countP_append]
        omega
      · rw [registrations, List.countP_append]
        omega
    · have ht' : Traced (h ++ [o]) s' := by
        refine traced_step ht ?_ ?_ ha
        · simp only [events, List.countP_append, List.countP_cons, List.countP_nil]
          omega
        · simp only [registrations, List.countP_append, List.countP_cons, List.countP_nil]
          omega
      have ih := traced_run ops (h ++ [o]) s' ht' (by
        simp only [events, List.countP_append, List.countP_cons, List.countP_nil]
        omega) (by
        simp only [registrations, List.countP_append, List.countP_cons, List.countP_nil]
        omega)
      rw [hrun, accepted, hs]
      simpa using ih

theorem bytes_of_publications (ho : o.publications = some us) :
    o.bytes = (us.map ResultPublication.bytes).sum := by
  cases o with
  | apply e => cases ho
  | insertDiag key charge => cases ho
  | publish us' => cases ho; rfl
  | publishAt expected us' => cases ho; rfl
  | refresh us' => cases ho; simp [Op.bytes, Function.comp_def]
  | refreshAt expected us' => cases ho; simp [Op.bytes, Function.comp_def]

theorem askedBytes_concat : askedBytes (h ++ [o]) = askedBytes h + o.bytes := by
  simp [askedBytes]

/-- **An accepted operation keeps the account**, if the cap or the bytes asked for leave room. -/
theorem balanced_step (hb : s.Balanced) (hused : s.cacheBudget.usedBytes ≤ askedBytes h)
    (hroom : s.cacheBudget.maxBytes < u64Max ∨ askedBytes (h ++ [o]) ≤ u64Max)
    (ha : Accepted s o s') :
    s'.Balanced ∧ s'.cacheBudget.maxBytes = s.cacheBudget.maxBytes ∧
      s'.cacheBudget.usedBytes ≤ askedBytes (h ++ [o]) := by
  rw [askedBytes_concat] at hroom ⊢
  cases ha with
  | event e v hv i hi =>
    have hf : Freed s (({ s with version := v } : CausalState).applied e v i) :=
      Freed.trans (b := { s with version := v }) (.of_eq rfl rfl rfl) (freed_applied e v i)
    exact ⟨hf.balanced hb, hf.maxBytes, (hf.used_le.trans hused).trans (Nat.le_add_right _ _)⟩
  | published _ us ho hknown results budget hstaged queries hst =>
    rw [bytes_of_publications ho] at hroom ⊢
    obtain ⟨hbal, hle⟩ := hstaged.used hb (by omega)
    exact ⟨⟨hbal, hb.slots⟩, hstaged.maxBytes, hle.trans (Nat.add_le_add_right hused _)⟩
  | charged key charge hroomy =>
    have hw := sum_without Prod.fst Prod.snd key s.mechanismDiags hb.slots
    have hu := hb.used
    rw [diagBytes] at hu
    have hbytes : (Op.insertDiag key charge).bytes = charge := rfl
    rw [hbytes] at hroom ⊢
    generalize ((s.mechanismDiags.find? fun d => d.1 == key).map Prod.snd).getD 0 = old
      at hw hroomy ⊢
    have hexact : satAdd (s.cacheBudget.usedBytes - old) charge =
        s.cacheBudget.usedBytes - old + charge :=
      charge_exact (by omega) hroomy (hroom.imp id fun hle => by omega)
    rw [hexact]
    refine ⟨⟨?_, ?_⟩, rfl, ?_⟩
    · simp only [diagBytes, List.map_cons, List.sum_cons]
      omega
    · refine List.nodup_cons.mpr ⟨?_, hb.slots.sublist (List.filter_sublist.map _)⟩
      simp
    · simp only
      omega

/-- **The account is kept over a run.** -/
theorem balanced_run : ∀ (ops h : List Op) (s : CausalState), s.Balanced →
    s.cacheBudget.usedBytes ≤ askedBytes h →
    (s.cacheBudget.maxBytes < u64Max ∨ askedBytes (h ++ accepted s ops) ≤ u64Max) →
    (run s ops).Balanced
  | [], _, _, hb, _, _ => hb
  | o :: ops, h, s, hb, hused, hroom => by
    have hrun : run s (o :: ops) = run (s.step o).1 ops := rfl
    rw [hrun]
    rcases step_spec s o with ⟨e, hs⟩ | ⟨s', hs, ha⟩
    · rw [accepted, hs] at hroom
      rw [hs]
      exact balanced_run ops h s hb hused hroom
    · rw [accepted, hs, List.append_cons] at hroom
      rw [hs]
      have hroom' : s.cacheBudget.maxBytes < u64Max ∨ askedBytes (h ++ [o]) ≤ u64Max := by
        refine hroom.imp id fun hle => le_trans ?_ hle
        simp only [askedBytes, List.map_append, List.sum_append]
        omega
      obtain ⟨hb', hmax, hused'⟩ := balanced_step hb hused hroom' ha
      exact balanced_run ops (h ++ [o]) s' hb' hused' (hmax ▸ hroom)

theorem balanced_new (n : Nat) : (new (.new n)).Balanced := ⟨rfl, List.nodup_nil⟩

theorem run_registrations (k : Nat) : ∀ s : CausalState, s.queries.nextId < queryIds →
    (run s (.replicate k (.apply .registerQuery))).queries.nextId =
        (s.queries.nextId + k) % queryIds ∧
      (run s (.replicate k (.apply .registerQuery))).cachedResults = s.cachedResults ∧
      accepted s (.replicate k (.apply .registerQuery)) = .replicate k (.apply .registerQuery) := by
  induction k with
  | zero => exact fun s hs => ⟨(Nat.mod_eq_of_lt hs).symm, rfl, rfl⟩
  | succ k ih =>
    intro s hs
    obtain ⟨hnext, hcached, hacc⟩ := ih (s.step (.apply .registerQuery)).1
      (Nat.mod_lt _ (by decide))
    refine ⟨?_, hcached, ?_⟩
    · refine hnext.trans ?_
      change ((s.queries.nextId + 1) % queryIds + k) % queryIds = _
      rw [Nat.mod_add_mod, Nat.add_assoc, Nat.add_comm 1 k]
    · rw [List.replicate_succ, accepted]
      exact congrArg _ hacc

def publishedOnce : List Op := [.apply .registerQuery, .refresh [(0, 7, 40)]]

/-- A query is published, and the counter of the queries moves on. -/
def publishedThenRegistered (k : Nat) : List Op :=
  publishedOnce ++ .replicate (k + 1) (.apply .registerQuery)

/-- Two results whose bytes no `u64` holds together. -/
def hugeResults : List Op := [.apply .registerQuery, .apply .registerQuery,
  .refresh [(0, 7, 9223372036854775808)], .refresh [(1, 7, 9223372036854775808)]]

theorem events_publishedThenRegistered (k : Nat) : events (publishedThenRegistered k) = k + 2 := by
  have hcount : events (.replicate (k + 1) (.apply .registerQuery)) = k + 1 := by
    rw [events, List.countP_replicate]
    rfl
  have happ : events (publishedThenRegistered k) =
      events publishedOnce + events (.replicate (k + 1) (.apply .registerQuery)) :=
    List.countP_append
  have hone : events publishedOnce = 1 := by decide
  omega

theorem isStale_of_register (h0 : s.queries.nextId = q) :
    (run s [.apply .registerQuery]).isStale q = true := by
  simp [run, step, CausalState.apply, unknownConstraint, applied, QueryStore.register, isStale, h0]

theorem registered_again {k : Nat} (hk : (1 + k) % queryIds = 0) :
    Fresh 0 (accepted (new (.new 100)) (publishedThenRegistered k)) ∧
      (run (new (.new 100)) (publishedThenRegistered k)).isStale 0 = true ∧
      0 ∈ (run (new (.new 100)) (publishedThenRegistered k)).cachedResults.keys := by
  have hnext : (run (new (.new 100)) publishedOnce).queries.nextId = 1 := by decide
  have hcached : 0 ∈ (run (new (.new 100)) publishedOnce).cachedResults.keys := by decide
  have hlt : (run (new (.new 100)) publishedOnce).queries.nextId < queryIds := by
    rw [hnext]
    decide
  obtain ⟨-, hkeep, hmany⟩ := run_registrations (k + 1) _ hlt
  obtain ⟨hlast, -, -⟩ := run_registrations k _ hlt
  rw [hnext, hk] at hlast
  have hsplit (ops : List Op) : run (new (.new 100)) (publishedOnce ++ ops) =
      run (run (new (.new 100)) publishedOnce) ops := List.foldl_append
  refine ⟨?_, ?_, ?_⟩
  · have hacc : accepted (new (.new 100)) (publishedThenRegistered k) = publishedOnce ++
        accepted (run (new (.new 100)) publishedOnce) (.replicate (k + 1) (.apply .registerQuery)) :=
      rfl
    rw [hacc, hmany]
    refine ⟨[.apply .registerQuery], .refresh [(0, 7, 40)], _, rfl, ⟨_, rfl, by decide⟩, ?_⟩
    intro o ho
    obtain rfl := List.eq_of_mem_replicate ho
    simp [StateEvent.invalidates]
  · rw [publishedThenRegistered, hsplit, List.replicate_succ', run, List.foldl_append]
    exact isStale_of_register hlast
  · rw [publishedThenRegistered, hsplit, hkeep]
    exact hcached

end Antecedent.State.CausalState
