import Antecedent.State.CausalState

/-!
# The bytes a causal state accounts for

`Balanced` says that the budget counts the bytes of the retained results and diagnostics. An operation
keeps it as long as no addition saturates, and none does when the cap is below `u64::MAX` or the bytes
asked for fit in a `u64` together.
-/

namespace Antecedent.State

/-! ## Weights under distinct keys -/

section Keyed

variable {α κ : Type} [DecidableEq κ] (key : α → κ) (w : α → Nat) (k : κ)

theorem sum_without : ∀ l : List α, (l.map key).Nodup →
    ((l.filter fun a => key a != k).map w).sum +
      ((l.find? fun a => key a == k).map w).getD 0 = (l.map w).sum
  | [], _ => rfl
  | a :: l, h => by
    obtain ⟨hnot, hl⟩ := List.nodup_cons.mp h
    have ih := sum_without l hl
    by_cases hk : key a = k
    · have hall : l.filter (fun b => key b != k) = l := List.filter_eq_self.mpr fun b hb => by
        refine bne_iff_ne.mpr fun hbk => hnot (hk ▸ hbk ▸ List.mem_map_of_mem hb)
      simp [hk, hall, Nat.add_comm]
    · simp only [List.filter_cons, bne_iff_ne, ne_eq, hk, not_false_eq_true, if_true, List.map_cons,
        List.sum_cons, List.find?_cons, beq_eq_false_iff_ne.mpr hk]
      omega

end Keyed

/-! ## The cache -/

namespace ResultStore

def bytes (s : ResultStore) : Nat := (s.results.map CachedResult.bytes).sum

def keys (s : ResultStore) : List Nat := s.results.map CachedResult.query

variable {s s' : ResultStore} {b b' : CacheBudget} {r : CachedResult} {q d : Nat} {p : Nat}

theorem bytes_without (s : ResultStore) (q : Nat) :
    (s.without q).bytes + ((s.get q).map CachedResult.bytes).getD 0 = s.bytes :=
  sum_without CachedResult.query CachedResult.bytes q s.results s.nodup

theorem mem_keys_without : p ∈ (s.without q).keys ↔ p ∈ s.keys ∧ p ≠ q := by
  simp only [keys, without, List.mem_map, List.mem_filter, bne_iff_ne]
  constructor
  · rintro ⟨r, ⟨hr, hne⟩, rfl⟩
    exact ⟨⟨r, hr, rfl⟩, hne⟩
  · rintro ⟨⟨r, hr, rfl⟩, hne⟩
    exact ⟨r, ⟨hr, hne⟩, rfl⟩

theorem get_eq_none : s.get q = none ↔ q ∉ s.keys := by
  simp only [get, List.find?_eq_none, beq_iff_eq, keys, List.mem_map, not_exists, not_and]

theorem mem_keys_put : p ∈ (s.put r).keys ↔ p = r.query ∨ p ∈ s.keys := by
  have hcons : (s.put r).keys = r.query :: (s.without r.query).keys := rfl
  rw [hcons, List.mem_cons, mem_keys_without]
  constructor
  · rintro (h | h)
    · exact Or.inl h
    · exact Or.inr h.1
  · rintro (h | h)
    · exact Or.inl h
    · by_cases hp : p = r.query
      · exact Or.inl hp
      · exact Or.inr ⟨h, hp⟩

theorem mem_keys_remove : p ∈ (s.remove q b).1.keys ↔ p ∈ s.keys ∧ p ≠ q := by
  unfold remove
  cases hg : s.get q with
  | none =>
    have hq := get_eq_none.mp hg
    exact ⟨fun hp => ⟨hp, fun h => hq (h ▸ hp)⟩, fun hp => hp.1⟩
  | some r => exact mem_keys_without

/-- A removal gives back what the result was charged. -/
theorem remove_balanced (hb : b.usedBytes = s.bytes + d) :
    (s.remove q b).2.usedBytes = (s.remove q b).1.bytes + d := by
  have hw := bytes_without s q
  unfold remove
  cases hg : s.get q with
  | none => exact hb
  | some r =>
    rw [hg] at hw
    simp only [Option.map_some, Option.getD_some] at hw ⊢
    omega

@[simp] theorem remove_maxBytes : (s.remove q b).2.maxBytes = b.maxBytes := by
  unfold remove
  cases s.get q <;> rfl

theorem remove_usedBytes_le : (s.remove q b).2.usedBytes ≤ b.usedBytes := by
  unfold remove
  cases s.get q with
  | none => exact Nat.le_refl _
  | some r => exact Nat.sub_le _ _

end ResultStore

theorem charge_exact {max_ used old new_ : Nat} (hold : old ≤ used)
    (hroomy : (CacheBudget.mk max_ used).canAdmit (new_ - old) = true)
    (hroom : max_ < u64Max ∨ used + new_ ≤ u64Max) :
    satAdd (used - old) new_ = used - old + new_ := by
  have hle : min (used + (new_ - old)) u64Max ≤ max_ := of_decide_eq_true hroomy
  unfold satAdd
  omega

namespace ResultStore

variable {s s' : ResultStore} {b b' : CacheBudget} {r : CachedResult} {d : Nat}

theorem insert_ok (h : s.insert r b = .ok (s', b')) :
    b.canAdmit (r.bytes - ((s.get r.query).map CachedResult.bytes).getD 0) = true ∧
      s' = s.put r ∧ b' = { b with usedBytes := satAdd (b.usedBytes -
        ((s.get r.query).map CachedResult.bytes).getD 0) r.bytes } := by
  unfold insert at h
  cases hroomy : b.canAdmit (r.bytes - ((s.get r.query).map CachedResult.bytes).getD 0) with
  | false => simp [hroomy] at h
  | true =>
    simp only [hroomy, Bool.not_true, Bool.false_eq_true, if_false, Except.ok.injEq,
      Prod.mk.injEq] at h
    exact ⟨rfl, h.1.symm, h.2.symm⟩

theorem insert_balanced (h : s.insert r b = .ok (s', b')) (hb : b.usedBytes = s.bytes + d)
    (hroom : b.maxBytes < u64Max ∨ b.usedBytes + r.bytes ≤ u64Max) :
    b'.usedBytes = s'.bytes + d ∧ b'.usedBytes ≤ b.usedBytes + r.bytes := by
  obtain ⟨hroomy, rfl, rfl⟩ := insert_ok h
  have hw := bytes_without s r.query
  have hput : (s.put r).bytes = r.bytes + (s.without r.query).bytes := rfl
  have hexact := charge_exact (by omega) hroomy hroom
  simp only [hexact, hput]
  omega

end ResultStore

/-! ## The state -/

/-- An event other than a registration. -/
def StateEvent.invalidates : StateEvent → Bool
  | .registerQuery => false
  | _ => true

namespace CausalState

variable {s s' : CausalState} {a b c : CausalState} {α : Type} {f : CausalState → α → CausalState}

def diagBytes (s : CausalState) : Nat := (s.mechanismDiags.map Prod.snd).sum

/-- The budget counts what is retained, and a slot has one charge. -/
structure Balanced (s : CausalState) : Prop where
  used : s.cacheBudget.usedBytes = s.cachedResults.bytes + s.diagBytes
  slots : (s.mechanismDiags.map Prod.fst).Nodup

/-- One event keeps the account: it does not raise what is used. -/
structure Freed (s s' : CausalState) : Prop where
  balanced : s.Balanced → s'.Balanced
  used_le : s'.cacheBudget.usedBytes ≤ s.cacheBudget.usedBytes
  maxBytes : s'.cacheBudget.maxBytes = s.cacheBudget.maxBytes

theorem Freed.refl (s : CausalState) : Freed s s := ⟨id, Nat.le_refl _, rfl⟩

theorem Freed.trans (hab : Freed a b) (hbc : Freed b c) : Freed a c :=
  ⟨hbc.balanced ∘ hab.balanced, hbc.used_le.trans hab.used_le, hbc.maxBytes.trans hab.maxBytes⟩

theorem Freed.foldl (h : ∀ s a, Freed s (f s a)) :
    ∀ (l : List α) (s : CausalState), Freed s (l.foldl f s)
  | [], s => .refl s
  | a :: l, s => (h s a).trans (Freed.foldl h l (f s a))

/-- A change of other fields. -/
theorem Freed.of_eq (hr : s'.cachedResults = s.cachedResults) (hb : s'.cacheBudget = s.cacheBudget)
    (hd : s'.mechanismDiags = s.mechanismDiags) : Freed s s' where
  balanced h := ⟨by rw [diagBytes, hr, hb, hd]; exact h.used, by rw [hd]; exact h.slots⟩
  used_le := by rw [hb]
  maxBytes := by rw [hb]

theorem freed_log (v : Nat) (t : InvalidationTarget) (m : String) (i : Option ChangedInput) :
    Freed s (s.log v t m i) := .of_eq rfl rfl rfl

theorem freed_invalidateResult (v : Nat) (m : String) (i : Option ChangedInput) (s : CausalState)
    (q : Nat) : Freed s (invalidateResult v m i s q) where
  balanced h := ⟨ResultStore.remove_balanced h.used, h.slots⟩
  used_le := ResultStore.remove_usedBytes_le
  maxBytes := ResultStore.remove_maxBytes

theorem freed_invalidateAllResults (v : Nat) (m : String) (i : Option ChangedInput) :
    Freed s (s.invalidateAllResults v m i) := by
  have hloop := Freed.foldl (freed_invalidateResult v m i)
    (s.cachedResults.results.map CachedResult.query) s
  cases i with
  | none => exact hloop.trans (freed_log ..)
  | some i =>
    have hlog := hloop.trans (freed_log v .allResults m (some i))
    exact hlog.trans (.of_eq rfl rfl rfl)

theorem evict_used : ∀ (l : List (String × Nat)) (b : CacheBudget),
    (l.foldl (fun b d => { b with usedBytes := b.usedBytes - d.2 }) b) =
      { b with usedBytes := b.usedBytes - (l.map Prod.snd).sum }
  | [], b => rfl
  | d :: l, b => by
    rw [List.foldl_cons, evict_used l]
    simp [Nat.sub_sub]

theorem freed_evictDiags : Freed s s.evictDiags where
  balanced h := by
    refine ⟨?_, List.nodup_nil⟩
    have hused := h.used
    simp only [evictDiags, evict_used, diagBytes] at hused ⊢
    simp only [List.map_nil, List.sum_nil]
    omega
  used_le := by simp only [evictDiags, evict_used]; exact Nat.sub_le _ _
  maxBytes := by simp only [evictDiags, evict_used]

/-- A state that differs in what no freshness question reads. -/
structure Untouched (s s' : CausalState) : Prop where
  version : s'.version = s.version
  queries : s'.queries = s.queries
  cachedResults : s'.cachedResults = s.cachedResults
  invalidations : s'.invalidations = s.invalidations
  cacheBudget : s'.cacheBudget = s.cacheBudget
  mechanismDiags : s'.mechanismDiags = s.mechanismDiags

/-- A state with more entries of version `v` in its log, and perhaps fewer diagnostics. -/
structure Logged (v : Nat) (s s' : CausalState) : Prop where
  version : s'.version = s.version
  queries : s'.queries = s.queries
  cachedResults : s'.cachedResults = s.cachedResults
  invalidations : ∀ e ∈ s'.invalidations, e ∈ s.invalidations ∨ e.atVersion = v
  freed : Freed s s'

theorem Logged.refl (v : Nat) (s : CausalState) : Logged v s s :=
  ⟨rfl, rfl, rfl, fun _ => Or.inl, .refl s⟩

theorem Logged.trans {v : Nat} (hab : Logged v a b) (hbc : Logged v b c) :
    Logged v a c where
  version := hbc.version.trans hab.version
  queries := hbc.queries.trans hab.queries
  cachedResults := hbc.cachedResults.trans hab.cachedResults
  invalidations e he := (hbc.invalidations e he).elim (hab.invalidations e) Or.inr
  freed := hab.freed.trans hbc.freed

theorem logged_log (v : Nat) (t : InvalidationTarget) (m : String) (i : Option ChangedInput) :
    Logged v s (s.log v t m i) := by
  refine ⟨rfl, rfl, rfl, fun e he => ?_, freed_log ..⟩
  rcases List.mem_append.mp he with he | he
  · exact Or.inl he
  · exact Or.inr (by rw [List.mem_singleton.mp he])

theorem logged_foldl {v : Nat}
    (h : ∀ s a, Logged v s (f s a)) : ∀ (l : List α) (s : CausalState), Logged v s (l.foldl f s)
  | [], s => .refl v s
  | a :: l, s => (h s a).trans (logged_foldl h l (f s a))

theorem logged_invalidateDataDependents (v : Nat) (m : String) (i : Option ChangedInput) :
    Logged v (s.invalidateAllResults v m i) (s.invalidateDataDependents v m i) :=
  (logged_foldl (fun _ _ => logged_log ..) _ _).trans <|
    (logged_log ..).trans <| (logged_log ..).trans <| (logged_log ..).trans (logged_log ..)

/-- **An event other than a registration** changes fields that no freshness question reads,
invalidates all results, and then only logs. -/
theorem applied_spec {e : StateEvent} (he : e.invalidates = true) (v : Nat)
    (i : Option ChangedInput) : ∃ s₁ m, Untouched s s₁ ∧
      Logged v (s₁.invalidateAllResults v m i) (s.applied e v i) := by
  have hall (s₁ : CausalState) (m : String) (hs : Untouched s s₁)
      (h : s.applied e v i = s₁.invalidateAllResults v m i) :
      ∃ s₁ m, Untouched s s₁ ∧ Logged v (s₁.invalidateAllResults v m i) (s.applied e v i) :=
    ⟨s₁, m, hs, h ▸ .refl v _⟩
  cases e with
  | appendData batch =>
    exact ⟨{ s with
      batches := s.batches ++ [batch], dataVersion := (s.dataVersion + 1) % (u64Max + 1) }, _,
      ⟨rfl, rfl, rfl, rfl, rfl, rfl⟩, logged_invalidateDataDependents v "append_data" i⟩
  | replaceData version =>
    refine ⟨{ s with dataVersion := version, batches := [] }, "replace_data",
      ⟨rfl, rfl, rfl, rfl, rfl, rfl⟩, ?_⟩
    have hdata := logged_invalidateDataDependents
      (s := { s with dataVersion := version, batches := [] }) v "replace_data" i
    -- the statistics are dropped and the diagnostics evicted between the entries of the log
    have hdrop (t : CausalState) : Logged v t ({ t with ols := [] } : CausalState).evictDiags :=
      ⟨rfl, rfl, rfl, fun _ => Or.inl,
        Freed.trans (b := { t with ols := [] }) (.of_eq rfl rfl rfl) freed_evictDiags⟩
    exact (hdata.trans (hdrop _)).trans <|
      (logged_log ..).trans <| (logged_log ..).trans <| (logged_log ..).trans (logged_log ..)
  | addGraphEvidence rec =>
    exact hall { s with evidence := s.evidence ++ [rec] } _ ⟨rfl, rfl, rfl, rfl, rfl, rfl⟩ rfl
  | addConstraint rec =>
    exact hall { s with constraints := s.constraints ++ [rec] } _ ⟨rfl, rfl, rfl, rfl, rfl, rfl⟩ rfl
  | removeConstraint id =>
    exact hall { s with constraints := s.constraints.filter fun c => c.id != id } _
      ⟨rfl, rfl, rfl, rfl, rfl, rfl⟩ rfl
  | updateAssumption =>
    exact hall { s with assumptions := s.assumptions + 1 } _ ⟨rfl, rfl, rfl, rfl, rfl, rfl⟩ rfl
  | registerQuery => cases he
  | recordIntervention rec =>
    exact hall { s with interventions := s.interventions ++ [rec] } _
      ⟨rfl, rfl, rfl, rfl, rfl, rfl⟩ rfl

/-- **An event keeps the account.** -/
theorem freed_applied (e : StateEvent) (v : Nat) (i : Option ChangedInput) :
    Freed s (s.applied e v i) := by
  cases he : e.invalidates with
  | false =>
    cases e with
    | registerQuery => exact .of_eq rfl rfl rfl
    | _ => cases he
  | true =>
    obtain ⟨s₁, m, hs, hl⟩ := applied_spec (s := s) he v i
    exact ((Freed.of_eq hs.cachedResults hs.cacheBudget hs.mechanismDiags).trans
      (freed_invalidateAllResults v m i)).trans hl.freed

end CausalState

end Antecedent.State
