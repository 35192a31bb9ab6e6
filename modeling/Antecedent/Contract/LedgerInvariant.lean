import Antecedent.Contract.LedgerApply
import Antecedent.Machine.Runs

/-!
# What a ledger keeps

`Wf` is the invariant of every reachable ledger: ids are distinct, rows are strictly sorted, the
parents of a source are in the ledger, a cited result was registered before, and the mass of a
combination is the account of its sources. `apply_wf` is the step lemma, `wf_run` the run lemma.

Two relations say what an accepted operation leaves alone: `Grows` (declarations and rows of the
sources there are) and `bare` (a result less its standing).
-/

namespace Antecedent.Contract

open Core Worklist Machine

/-! ## Lookups -/

theorem find?_key {α β : Type} [DecidableEq β] {key : α → β} : ∀ {l : List α} {a : α},
    (l.map key).Nodup → a ∈ l → l.find? (fun x => key x = key a) = some a
  | x :: l, a, hn, ha => by
    rw [List.map_cons, List.nodup_cons] at hn
    rw [List.find?_cons]
    by_cases hx : key x = key a
    · have hxa : x = a := by
        rcases List.mem_cons.mp ha with rfl | ha
        · rfl
        · exact absurd (List.mem_map.mpr ⟨a, ha, hx.symm⟩) hn.1
      simp [hxa]
    · have hal : a ∈ l := (List.mem_cons.mp ha).resolve_left fun e => hx (e ▸ rfl)
      simpa [hx] using find?_key hn.2 hal

variable {α : Type} {l : List α}

/-- A split of a list that ends in `x` splits what comes before it, or is at its end. -/
theorem forall_split_concat {x : α} {P : List α → α → Prop}
    (h : ∀ before r after, l = before ++ r :: after → P before r) (hx : P l x) :
    ∀ before r after, l ++ [x] = before ++ r :: after → P before r := by
  intro before r after he
  rcases List.eq_nil_or_concat after with rfl | ⟨after, y, rfl⟩
  · obtain ⟨rfl, hxr⟩ := List.append_inj' he rfl
    cases hxr
    exact hx
  · have he' : l ++ [x] = (before ++ r :: after) ++ [y] := by simpa using he
    exact h before r after (List.append_inj' he' rfl).1

/-- `firstRepeat` finds nothing in a sorted list without repetition, and only there. -/
theorem firstRepeat_none [LinearOrder α] : ∀ {l : List α}, l.Pairwise (· ≤ ·) →
    firstRepeat l = none → Ascending l
  | [], _, _ => List.Pairwise.nil
  | [a], _, _ => List.pairwise_singleton _ a
  | a :: b :: l, hs, h => by
    unfold firstRepeat at h
    by_cases hab : a = b
    · rw [if_pos hab] at h
      cases h
    · rw [if_neg hab] at h
      obtain ⟨ha, hs⟩ := List.pairwise_cons.mp hs
      have ih : Ascending (b :: l) := firstRepeat_none hs h
      have hlt : a < b := lt_of_le_of_ne (ha b List.mem_cons_self) hab
      refine List.pairwise_cons.mpr ⟨fun c hc => ?_, ih⟩
      rcases List.mem_cons.mp hc with rfl | hc
      · exact hlt
      · exact hlt.trans ((List.pairwise_cons.mp ih).1 c hc)

theorem ascending_sorted [LinearOrder α]
    (h : firstRepeat (sorted l) = none) : Ascending (sorted l) :=
  firstRepeat_none (List.pairwise_insertionSort _ l) h

@[simp] theorem mem_sorted [LinearOrder α] {x : α} :
    x ∈ sorted l ↔ x ∈ l := List.mem_insertionSort _

theorem sorted_perm [LinearOrder α] (l : List α) : (sorted l).Perm l :=
  List.perm_insertionSort _ l

namespace EvidenceLedger

variable {ids : Identities} {l l' : EvidenceLedger}

variable {id : SourceId} {s : EvidenceSource} {rows : List ObservationId} {d : SourceDeclaration}
  {o : Overlap}
  {a b : SourceId}
  {mass : MassAccount}
  {sources : List SourceId}

theorem source_some (h : l.source id = some s) :
    s ∈ l.sources ∧ s.id = id :=
  ⟨List.mem_of_find?_eq_some h, by simpa using List.find?_some h⟩

theorem result_some {id : ResultId} {r : ResultRecord} (h : l.result id = some r) :
    r ∈ l.results ∧ r.id = id :=
  ⟨List.mem_of_find?_eq_some h, by simpa using List.find?_some h⟩

theorem requireKnown_ok :
    l.requireKnown id = .ok s ↔ l.source id = some s := by
  unfold requireKnown
  cases l.source id <;> simp

theorem requireUsable_ok :
    l.requireUsable id = .ok s ↔ l.source id = some s ∧ l.lossOf id = none := by
  unfold requireUsable
  constructor
  · intro h
    obtain ⟨s', hs, h⟩ := bind_ok h
    rw [requireKnown_ok] at hs
    cases hl : l.lossOf id with
    | none =>
      rw [hl] at h
      cases h
      exact ⟨hs, rfl⟩
    | some loss =>
      obtain ⟨member, cls⟩ := loss
      rw [hl] at h
      cases cls <;> cases h
  · rintro ⟨hs, hl⟩
    rw [requireKnown_ok.mpr hs, hl]
    rfl

/-! ## Sources there are -/

/-- The sources there are keep their declaration and their rows. -/
def Grows (l l' : EvidenceLedger) : Prop :=
  ∀ id s, l.source id = some s → ∃ s', l'.source id = some s' ∧
    s'.declaration = s.declaration ∧ s'.effective = s.effective

theorem Grows.refl (l : EvidenceLedger) : Grows l l := fun _ s h => ⟨s, h, rfl, rfl⟩

theorem Grows.trans {l₁ l₂ l₃ : EvidenceLedger} (h : Grows l₁ l₂) (h' : Grows l₂ l₃) :
    Grows l₁ l₃ := by
  intro id s hs
  obtain ⟨s₂, hs₂, hd₂, he₂⟩ := h id s hs
  obtain ⟨s₃, hs₃, hd₃, he₃⟩ := h' id s₂ hs₂
  exact ⟨s₃, hs₃, hd₃.trans hd₂, he₃.trans he₂⟩

theorem Grows.isSome (h : Grows l l') {id : SourceId} (hs : (l.source id).isSome) :
    (l'.source id).isSome := by
  obtain ⟨s, hs⟩ := Option.isSome_iff_exists.mp hs
  obtain ⟨s', hs', -⟩ := h id s hs
  exact hs' ▸ rfl

theorem source_setSource (l : EvidenceLedger) (t id : SourceId) (status : SourceStatus) :
    (l.setSource t status).source id =
      (l.source id).map fun s => if s.id = t then { s with status := status } else s := by
  unfold setSource source
  rw [List.find?_map]
  congr 2
  ext s
  simp only [Function.comp_apply]
  split_ifs <;> rfl

theorem source_insertSource (l : EvidenceLedger) (c : CanonicalSource) (o : OperationId)
    (id : SourceId) : (l.insertSource c o).source id = (l.source id).or
      (if c.id = id then some ⟨c.id, c.declaration, c.effective, .active, o⟩ else none) := by
  unfold insertSource source
  rw [List.find?_append]
  by_cases h : c.id = id <;> simp [h]

theorem grows_setSource (l : EvidenceLedger) (t : SourceId) (status : SourceStatus) :
    Grows l (l.setSource t status) := by
  intro id s hs
  refine ⟨_, by rw [source_setSource, hs]; rfl, ?_, ?_⟩ <;> dsimp only <;> split_ifs <;> rfl

theorem grows_insertSource (l : EvidenceLedger) (c : CanonicalSource) (o : OperationId) :
    Grows l (l.insertSource c o) := by
  intro id s hs
  exact ⟨s, by rw [source_insertSource, hs]; rfl, rfl, rfl⟩

/-! ## Results there are -/

def bare (r : ResultRecord) : ResultRecord := { r with status := .valid }

theorem reclassifyLoop_bare (l : EvidenceLedger) (cause : OperationId) :
    ∀ todo done : List ResultRecord,
      (l.reclassifyLoop cause done todo).map bare = (done ++ todo).map bare
  | [], done => by rw [reclassifyLoop, List.append_nil]
  | r :: todo, done => by
    rw [reclassifyLoop, reclassifyLoop_bare l cause todo]
    simp [bare]

theorem reclassify_bare (l : EvidenceLedger) (cause : OperationId) :
    (l.reclassify cause).results.map bare = l.results.map bare :=
  l.reclassifyLoop_bare cause l.results []

theorem setResult_bare (l : EvidenceLedger) (id : ResultId) (status : ResultStatus) :
    (l.setResult id status).results.map bare = l.results.map bare := by
  unfold setResult
  rw [List.map_map]
  refine List.map_congr_left fun r _ => ?_
  simp only [Function.comp_apply]
  split_ifs <;> rfl

theorem map_id_bare (l : List ResultRecord) : (l.map bare).map (·.id) = l.map (·.id) := by
  rw [List.map_map]
  rfl

/-! ## Accounts -/

theorem overlap_eq : l.overlap a b = .ok o ↔
    ∃ sa sb, l.source a = some sa ∧ l.source b = some sb ∧ overlapOf sa sb = o := by
  unfold overlap requireKnown
  cases l.source a <;> cases l.source b <;> simp [bind, Except.bind, pure, Except.pure]

theorem overlapOf_congr {a b a' b' : EvidenceSource} (ha : a'.effective = a.effective)
    (hb : b'.effective = b.effective) : overlapOf a' b' = overlapOf a b := by
  unfold overlapOf
  rw [ha, hb]

theorem Grows.overlap (h : Grows l l')
    (ho : l.overlap a b = .ok o) : l'.overlap a b = .ok o := by
  obtain ⟨sa, sb, ha, hb, rfl⟩ := overlap_eq.mp ho
  obtain ⟨sa', ha', -, hea⟩ := h a sa ha
  obtain ⟨sb', hb', -, heb⟩ := h b sb hb
  exact overlap_eq.mpr ⟨sa', sb', ha', hb', overlapOf_congr hea heb⟩

/-- What `mass_account` reads of a source. -/
def view (s : EvidenceSource) : SourceId × Option (List ObservationId) := (s.id, s.effective.rows)

def accountOf (n : Nat) (views : List (SourceId × Option (List ObservationId))) : MassAccount :=
  let known := views.filterMap (·.2)
  { sources := n
    declaredSlots := (known.map List.length).sum
    distinctObservations := (unionSorted known).length
    repeatedSlots := (known.map List.length).sum - (unionSorted known).length
    unknownSources := (views.filter (·.2.isNone)).map (·.1) }

theorem massAccount_ok :
    l.massAccount sources = .ok mass ↔ ∃ found, (sorted sources).dedup.mapM l.requireKnown = .ok found ∧
      accountOf (sorted sources).dedup.length (found.map view) = mass := by
  have hview : ∀ found : List EvidenceSource,
      (found.map view).filterMap (·.2) = found.filterMap (·.effective.rows) ∧
      ((found.map view).filter (·.2.isNone)).map (·.1) =
        (found.filter (·.effective.rows.isNone)).map (·.id) := by
    intro found
    rw [List.filterMap_map, List.filter_map, List.map_map]
    exact ⟨rfl, rfl⟩
  unfold massAccount
  constructor
  · intro h
    obtain ⟨found, hf, h⟩ := bind_ok h
    cases h
    refine ⟨found, hf, ?_⟩
    unfold accountOf
    rw [(hview found).1, (hview found).2]
  · rintro ⟨found, hf, rfl⟩
    unfold accountOf
    dsimp only
    rw [(hview found).1, (hview found).2, hf]
    rfl

theorem Grows.requireKnown (h : Grows l l') : ∀ {sources : List SourceId}
    {found : List EvidenceSource}, sources.mapM l.requireKnown = .ok found →
      ∃ found', sources.mapM l'.requireKnown = .ok found' ∧ found'.map view = found.map view
  | [], found, hf => by
    cases hf
    exact ⟨[], rfl, rfl⟩
  | id :: sources, found, hf => by
    rw [List.mapM_cons] at hf ⊢
    obtain ⟨s, hs, hf⟩ := bind_ok hf
    obtain ⟨rest, hrest, hf⟩ := bind_ok hf
    cases hf
    obtain ⟨s', hs', -, he⟩ := h id s (requireKnown_ok.mp hs)
    obtain ⟨rest', hrest', hv⟩ := h.requireKnown hrest
    refine ⟨s' :: rest', by rw [requireKnown_ok.mpr hs', hrest']; rfl, ?_⟩
    rw [List.map_cons, List.map_cons, hv]
    unfold view
    rw [he, (source_some hs').2, (source_some (requireKnown_ok.mp hs)).2]

theorem Grows.massAccount (h : Grows l l')
    (hm : l.massAccount sources = .ok mass) : l'.massAccount sources = .ok mass := by
  obtain ⟨found, hf, rfl⟩ := massAccount_ok.mp hm
  obtain ⟨found', hf', hv⟩ := h.requireKnown hf
  exact massAccount_ok.mpr ⟨found', hf', by rw [hv]⟩

/-! ## Admitted sources -/

/-- What admission says of a canonical source: its rows are strictly sorted and its parents are
usable. -/
structure Admitted (l : EvidenceLedger) (c : CanonicalSource) : Prop where
  rows : ∀ rows, c.effective.rows = some rows → Ascending rows
  usable : ∀ p ∈ c.declaration.lineage.parents, (l.source p).isSome ∧ l.lossOf p = none

/-- The rows of every source are strictly sorted. -/
def RowsAscending (l : EvidenceLedger) : Prop :=
  ∀ s ∈ l.sources, ∀ rows, s.effective.rows = some rows → Ascending rows

theorem parentRows_ascending (h : l.RowsAscending)
    (hr : l.parentRows id = some rows) : Ascending rows := by
  obtain ⟨s, hs, hr⟩ := Option.bind_eq_some_iff.mp hr
  exact h s (source_some hs).1 rows hr

theorem unionOfParents_ascending {parents : List SourceId}
    (hr : l.unionOfParents parents = some rows) : Ascending rows := by
  obtain ⟨sets, -, rfl⟩ := Option.map_eq_some_iff.mp hr
  exact ascending_unionSorted sets

theorem canonicalRows_ascending {basis basis' : ObservationBasis}
    (h : canonicalRows basis = .ok basis') (hr : basis'.rows = some rows) : Ascending rows := by
  cases basis with
  | undeclared =>
    cases h
    cases hr
  | declared declared =>
    unfold canonicalRows at h
    obtain ⟨-, h⟩ := guard_ok h
    obtain ⟨hrep, h⟩ := guard_ok h
    cases h
    cases hr
    exact ascending_sorted (by simpa using hrep)

theorem resolveEffective_ascending {e : EffectiveObservations} (hl : l.RowsAscending)
    (hd : ∀ rows, d.observations.rows = some rows → Ascending rows)
    (h : l.resolveEffective d = .ok e) (hr : e.rows = some rows) : Ascending rows := by
  unfold resolveEffective at h
  split at h
  · split at h <;> cases h
    · cases hr
      exact hd _ ‹_›
    · cases hr
  · split at h
    · split_ifs at h
      cases h
      cases hr
      exact parentRows_ascending hl ‹_›
    all_goals cases h; cases hr
    · exact hd _ ‹_›
    · exact parentRows_ascending hl ‹_›
  · split at h
    · split_ifs at h
      cases h
      cases hr
      exact parentRows_ascending hl ‹_›
    all_goals cases h; cases hr
    · exact hd _ ‹_›
    · exact parentRows_ascending hl ‹_›
  · split at h
    · split_ifs at h
      cases h
      cases hr
      exact hd _ ‹_›
    all_goals cases h; cases hr
    exact hd _ ‹_›
  all_goals
    split at h
    · split_ifs at h
      cases h
      cases hr
      exact hd _ ‹_›
    all_goals cases h; cases hr
    · exact hd _ ‹_›
    · exact unionOfParents_ascending ‹_›

theorem canonicalSource_admitted {c : CanonicalSource}
    (hl : l.RowsAscending) (h : l.canonicalSource ids d = .ok c) : l.Admitted c := by
  unfold canonicalSource at h
  obtain ⟨-, h⟩ := guard_ok h
  obtain ⟨observations, hobs, h⟩ := bind_ok h
  obtain ⟨lineage, -, h⟩ := bind_ok h
  obtain ⟨found, hfound, h⟩ := bind_ok h
  obtain ⟨transport, -, h⟩ := bind_ok h
  obtain ⟨effective, heff, h⟩ := bind_ok h
  cases h
  refine ⟨fun rows hr => ?_, fun p hp => ?_⟩
  · exact resolveEffective_ascending hl (fun rows hd => canonicalRows_ascending hobs hd) heff hr
  · obtain ⟨s, -, hs⟩ := mapM_ok_mem hfound hp
    obtain ⟨hs, hloss⟩ := requireUsable_ok.mp hs
    exact ⟨hs ▸ rfl, hloss⟩

end EvidenceLedger

end Antecedent.Contract
