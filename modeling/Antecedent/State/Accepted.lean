import Antecedent.State.Budget

/-!
# What an operation does

`Accepted s o s'` lists what the accepted operations do: an event moves the version and is carried out,
a publication stages its results and stamps its queries, a diagnostics slot is charged. `step_spec`
says that an operation either is refused and changes nothing, or is accepted in this sense.
-/

namespace Antecedent.State.CausalState

variable {s s' : CausalState} {o : Op}

def Op.publications : Op → Option (List ResultPublication)
  | .publish us | .publishAt _ us => some us
  | .refresh us | .refreshAt _ us => some (us.map fun u => ⟨u.1, u.2.1, u.2.2, none, none, none⟩)
  | .apply _ | .insertDiag _ _ => none

/-- The results and the budget of a batch that was staged. -/
structure Staged (us : List ResultPublication) (s : CausalState) (results : ResultStore)
    (budget : CacheBudget) : Prop where
  keys : ∀ q, q ∈ results.keys ↔ q ∈ s.cachedResults.keys ∨ q ∈ us.map ResultPublication.query
  maxBytes : budget.maxBytes = s.cacheBudget.maxBytes
  used : s.Balanced → (s.cacheBudget.maxBytes < u64Max ∨
      s.cacheBudget.usedBytes + (us.map ResultPublication.bytes).sum ≤ u64Max) →
    budget.usedBytes = results.bytes + s.diagBytes ∧
      budget.usedBytes ≤ s.cacheBudget.usedBytes + (us.map ResultPublication.bytes).sum

/-- The queries after a batch was stamped. -/
structure Stamped (us : List ResultPublication) (s : CausalState)
    (queries : Nat → Option QueryRecord) : Prop where
  fresh : ∀ q ∈ us.map ResultPublication.query, ∃ r, queries q = some r ∧
    r.resultValidAt = some s.version ∧ r.pendingInputs = []
  other : ∀ q ∉ us.map ResultPublication.query, queries q = s.queries.queries q

/-- The accepted operations and what they do. -/
inductive Accepted (s : CausalState) : Op → CausalState → Prop
  | event (e : StateEvent) (v : Nat) (hv : v = (s.version + 1) % (u64Max + 1))
      (i : Option ChangedInput) (hi : i = ({ s with version := v } : CausalState).changedInput e v) :
      Accepted s (.apply e) (({ s with version := v } : CausalState).applied e v i)
  | published (o : Op) (us : List ResultPublication) (ho : o.publications = some us)
      (hknown : ∀ u ∈ us, (s.queries.queries u.query).isSome) (results : ResultStore)
      (budget : CacheBudget) (hstaged : Staged us s results budget)
      (queries : Nat → Option QueryRecord) (hstamped : Stamped us s queries) :
      Accepted s o { s with
        cachedResults := results, cacheBudget := budget, queries := ⟨queries, s.queries.nextId⟩ }
  | charged (key : String) (charge : Nat)
      (hroomy : s.cacheBudget.canAdmit
        (charge - ((s.mechanismDiags.find? fun d => d.1 == key).map Prod.snd).getD 0) = true) :
      Accepted s (.insertDiag key charge) { s with
        mechanismDiags := (key, charge) :: s.mechanismDiags.filter fun d => d.1 != key
        cacheBudget := { s.cacheBudget with
          usedBytes := satAdd (s.cacheBudget.usedBytes -
            ((s.mechanismDiags.find? fun d => d.1 == key).map Prod.snd).getD 0) charge } }

/-! ## Publications -/

theorem foldlM_insert {version d : Nat} : ∀ (us : List ResultPublication) (c : ResultStore)
    (b : CacheBudget) {c' : ResultStore} {b' : CacheBudget},
    us.foldlM (fun (r : ResultStore × CacheBudget) u =>
      r.1.insert ⟨u.query, u.fingerprint, u.bytes, version⟩ r.2) (c, b) = .ok (c', b') →
    (∀ q, q ∈ c'.keys ↔ q ∈ c.keys ∨ q ∈ us.map ResultPublication.query) ∧
      b'.maxBytes = b.maxBytes ∧
      (b.usedBytes = c.bytes + d → (b.maxBytes < u64Max ∨
          b.usedBytes + (us.map ResultPublication.bytes).sum ≤ u64Max) →
        b'.usedBytes = c'.bytes + d ∧
          b'.usedBytes ≤ b.usedBytes + (us.map ResultPublication.bytes).sum)
  | [], c, b, c', b', h => by
    obtain ⟨rfl, rfl⟩ : c = c' ∧ b = b' := by simpa [pure, Except.pure] using h
    exact ⟨by simp, rfl, fun hb _ => ⟨hb, Nat.le_refl _⟩⟩
  | u :: us, c, b, c', b', h => by
    rw [List.foldlM_cons] at h
    obtain ⟨r, hins, h⟩ := bind_ok h
    obtain ⟨c₁, b₁⟩ := r
    obtain ⟨hkeys, hmax, hused⟩ := foldlM_insert us c₁ b₁ h
    obtain ⟨-, hput, hb₁⟩ := ResultStore.insert_ok hins
    have hmax₁ : b₁.maxBytes = b.maxBytes := by rw [hb₁]
    refine ⟨fun q => ?_, hmax.trans hmax₁, fun hb hroom => ?_⟩
    · rw [hkeys, hput, ResultStore.mem_keys_put, List.map_cons, List.mem_cons]
      tauto
    · rw [List.map_cons, List.sum_cons] at hroom ⊢
      have hroom₁ : b.maxBytes < u64Max ∨ b.usedBytes + u.bytes ≤ u64Max := by omega
      obtain ⟨hbal, hle⟩ := ResultStore.insert_balanced hins hb hroom₁
      simp only at hle
      obtain ⟨hbal', hle'⟩ := hused hbal (by omega)
      exact ⟨hbal', by omega⟩

theorem staged_of_stage {us : List ResultPublication} {c : ResultStore} {b : CacheBudget}
    (h : s.stage us = .ok (c, b)) : Staged us s c b := by
  obtain ⟨hkeys, hmax, hused⟩ := foldlM_insert (d := s.diagBytes) us s.cachedResults s.cacheBudget h
  exact ⟨hkeys, hmax, fun hbal => hused hbal.used⟩

theorem stampAll_spec : ∀ (us : List ResultPublication) (s : CausalState),
    (∀ u ∈ us, (s.queries.queries u.query).isSome) →
    ∃ queries, stampAll us s = ({ s with queries := ⟨queries, s.queries.nextId⟩ }, .ok ()) ∧
      Stamped us s queries
  | [], s, _ => ⟨s.queries.queries, rfl, by simp, fun _ _ => rfl⟩
  | u :: us, s, hknown => by
    obtain ⟨r, hr⟩ := Option.isSome_iff_exists.mp (hknown u List.mem_cons_self)
    let r' : QueryRecord := ⟨some s.version, publishedLineage s.dataVersion u r.lastPublished, []⟩
    have hstamp : s.stamp u = ({ s with queries :=
        ⟨Function.update s.queries.queries u.query (some r'), s.queries.nextId⟩ }, .ok ()) := by
      simp [stamp, hr, QueryStore.modify, r']
    obtain ⟨queries, hall, hst⟩ := stampAll_spec us { s with queries :=
        ⟨Function.update s.queries.queries u.query (some r'), s.queries.nextId⟩ } (by
      intro w hw
      by_cases hwu : w.query = u.query
      · simp [hwu]
      · simpa [Function.update_of_ne hwu] using hknown w (List.mem_cons_of_mem _ hw))
    refine ⟨queries, by simp only [stampAll, hstamp, hall], ?_, ?_⟩
    · intro q hq
      by_cases hrest : q ∈ us.map ResultPublication.query
      · exact hst.fresh q hrest
      · obtain rfl : q = u.query := by simpa [hrest] using hq
        exact ⟨r', by rw [hst.other _ hrest]; simp, rfl, rfl⟩
    · intro q hq
      obtain ⟨hne, hrest⟩ := not_or.mp (List.mem_cons.not.mp hq)
      rw [hst.other q hrest]
      exact Function.update_of_ne hne _ _

/-- **A publication** is refused and changes nothing, or does all of its batch. -/
theorem publishResults_spec (us : List ResultPublication) (ho : o.publications = some us) :
    (∃ e, s.publishResults us = (s, .error e)) ∨
      ∃ s', s.publishResults us = (s', .ok ()) ∧ Accepted s o s' := by
  unfold publishResults
  cases us.forM s.checkUpdate with
  | error e => exact Or.inl ⟨e, rfl⟩
  | ok _ =>
    simp only [commitResults]
    cases hfind : us.find? fun u => (s.queries.queries u.query).isNone with
    | some u => exact Or.inl ⟨_, rfl⟩
    | none =>
      have hknown : ∀ u ∈ us, (s.queries.queries u.query).isSome := fun u hu => by
        have := List.find?_eq_none.mp hfind u hu
        simpa [Option.isSome_iff_ne_none] using this
      cases hstage : s.stage us with
      | error e => exact Or.inl ⟨e, rfl⟩
      | ok r =>
        obtain ⟨results, budget⟩ := r
        obtain ⟨queries, hall, hst⟩ :=
          stampAll_spec us { s with cachedResults := results, cacheBudget := budget } hknown
        exact Or.inr ⟨_, hall, .published o us ho hknown results budget (staged_of_stage hstage)
          queries ⟨hst.fresh, hst.other⟩⟩

theorem versioned_spec (expected : Nat) {f : CausalState × Except StateError Unit}
    (hf : (∃ e, f = (s, .error e)) ∨ ∃ s', f = (s', .ok ()) ∧ Accepted s o s') :
    let r := match s.requireVersion expected with
      | .error e => (s, .error e)
      | .ok () => f
    (∃ e, r = (s, .error e)) ∨ ∃ s', r = (s', .ok ()) ∧ Accepted s o s' := by
  cases s.requireVersion expected with
  | error e => exact Or.inl ⟨e, rfl⟩
  | ok _ => exact hf

/-- **An operation is refused and changes nothing, or is accepted.** -/
theorem step_spec (s : CausalState) (o : Op) : (∃ e, s.step o = (s, .error e)) ∨
    ∃ s', s.step o = (s', .ok ()) ∧ Accepted s o s' := by
  cases o with
  | apply e =>
    simp only [step, CausalState.apply]
    cases s.unknownConstraint e with
    | some id => exact Or.inl ⟨_, rfl⟩
    | none => exact Or.inr ⟨_, rfl, .event e _ rfl _ rfl⟩
  | publish us => exact publishResults_spec us rfl
  | publishAt expected us => exact versioned_spec expected (publishResults_spec us rfl)
  | refresh us => exact publishResults_spec _ rfl
  | refreshAt expected us => exact versioned_spec expected (publishResults_spec _ rfl)
  | insertDiag key charge =>
    simp only [step, insertMechanismDiag]
    split
    · exact Or.inl ⟨_, rfl⟩
    · next hroomy => exact Or.inr ⟨_, rfl, .charged key charge (by simpa using hroomy)⟩

theorem eq_of_refused {e : StateError} (h : (s.step o).2 = .error e) : (s.step o).1 = s := by
  rcases step_spec s o with ⟨_, hs⟩ | ⟨s', hs, -⟩
  · rw [hs]
  · rw [hs] at h
    cases h

end Antecedent.State.CausalState
