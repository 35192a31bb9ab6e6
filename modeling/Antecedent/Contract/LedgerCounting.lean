import Antecedent.Contract.LedgerWf

/-!
# No double counting

A result that is marked neither as data reuse nor as resting on a declared dependence should count
every observation once. `noDoubleCounting_iff` says exactly when that is so in every state of a run:
a causal transport is checked only across its native and its transported sources, so the run keeps
it iff within each of the two groups the accepted transports name independent sources.
`overlapping_transports` is a run that does not.
-/

namespace Antecedent.Contract

open Core Machine

theorem exists_of_forall₂ {α β : Type} {R : α → β → Prop} {as : List α} {bs : List β}
    (h : List.Forall₂ R as bs) {b : β} (hb : b ∈ bs) : ∃ a ∈ as, R a b := by
  induction h with
  | nil => exact absurd hb List.not_mem_nil
  | @cons a c as bs hac _ ih =>
    rcases List.mem_cons.mp hb with rfl | hb
    · exact ⟨a, List.mem_cons_self, hac⟩
    · obtain ⟨a', ha', hr⟩ := ih hb
      exact ⟨a', List.mem_cons_of_mem a ha', hr⟩

theorem pairwise_forall₂ {α β : Type} {R : α → β → Prop} {P : α → α → Prop} {Q : β → β → Prop}
    (h : ∀ a a' b b', R a b → R a' b' → P a a' → Q b b') :
    ∀ {as : List α} {bs : List β}, List.Forall₂ R as bs → as.Pairwise P → bs.Pairwise Q := by
  intro as bs hr
  induction hr with
  | nil => exact fun _ => List.Pairwise.nil
  | @cons a b as bs hab htail ih =>
    intro hp
    obtain ⟨ha, hp⟩ := List.pairwise_cons.mp hp
    refine List.pairwise_cons.mpr ⟨fun b' hb' => ?_, ih hp⟩
    obtain ⟨a', ha', hr⟩ := exists_of_forall₂ htail hb'
    exact h a a' b b' hab hr (ha a' ha')

namespace EvidenceLedger

variable {ids : Identities} {l l' : EvidenceLedger}

/-! ## The statement -/

def Carries (l : EvidenceLedger) (id : SourceId) (x : ObservationId) : Prop :=
  ∃ s rows, l.source id = some s ∧ s.effective.rows = some rows ∧ x ∈ rows

/-- A result counts each observation of the sources it rests on once. -/
structure CountedOnce (l : EvidenceLedger) (r : ResultRecord) : Prop where
  independent : l.Independent (l.resultSources r.id)
  repeatedSlots : r.mass.repeatedSlots = 0
  apart : (l.resultSources r.id).Pairwise fun a b => ∀ x, l.Carries a x → ¬l.Carries b x

/-- Every result that is not marked counts each observation once. -/
def NoDoubleCounting (l : EvidenceLedger) : Prop :=
  ∀ r ∈ l.results, r.dataReuse = false → r.dependenceDeclared = false → l.CountedOnce r

/-- If the operation is a causal transport, its transported claims are pairwise independent, and so
are its native sources. -/
def TransportsApart (l : EvidenceLedger) (op : LedgerOperation) : Prop :=
  ∀ request transported native, op = .combine request →
    request.operation = .causalTransport transported native →
    l.Independent (sorted transported) ∧ l.Independent (sorted native)

/-! ## Independence -/

/-- Rows that are known and in common there are none. -/
def Disjoint (a b : EvidenceSource) : Prop :=
  ∀ rows rows', a.effective.rows = some rows → b.effective.rows = some rows' → ∀ x ∈ rows, x ∉ rows'

variable {a b : EvidenceSource} {sources : List SourceId}

section

variable (ha : ∀ rows, a.effective.rows = some rows → Ascending rows)
  (hb : ∀ rows, b.effective.rows = some rows → Ascending rows) (h : overlapOf a b = .independent)

include ha hb h

theorem overlapOf_disjoint : Disjoint a b := by
  intro rows rows' hr hr'
  unfold overlapOf at h
  cases hea : a.effective with
  | unknown reason =>
    rw [hea] at hr
    cases hr
  | known x =>
    cases heb : b.effective with
    | unknown reason =>
      rw [heb] at hr'
      cases hr'
    | known y =>
      have hrx : x = rows := by simpa [hea, EffectiveObservations.rows] using hr
      have hry : y = rows' := by simpa [heb, EffectiveObservations.rows] using hr'
      subst hrx hry
      rw [hea, heb] at h
      dsimp only at h
      split_ifs at h with h0
      exact (intersectionCount_eq_zero (ha x hr) (hb y hr')).mp h0

theorem overlapOf_comm : overlapOf b a = .independent := by
  have hd := overlapOf_disjoint ha hb h
  unfold overlapOf at h ⊢
  unfold Disjoint at hd
  cases hea : a.effective with
  | unknown reason =>
    cases heb : b.effective with
    | unknown reason' => simp [hea, heb] at h
    | known y => simpa [hea, heb] using h
  | known x =>
    cases heb : b.effective with
    | unknown reason' => simpa [hea, heb] using h
    | known y =>
      rw [hea] at ha hd
      rw [heb] at hb hd
      dsimp only
      rw [if_pos]
      refine (intersectionCount_eq_zero (hb y rfl) (ha x rfl)).mpr fun z hz hx => ?_
      exact hd x y rfl rfl z hx hz

end

theorem overlap_comm (h : l.RowsAscending) {a b : SourceId}
    (ho : l.overlap a b = .ok .independent) : l.overlap b a = .ok .independent := by
  obtain ⟨sa, sb, ha, hb, ho⟩ := overlap_eq.mp ho
  exact overlap_eq.mpr ⟨sb, sa, hb, ha,
    overlapOf_comm (h sa (source_some ha).1) (h sb (source_some hb).1) ho⟩

theorem independent_perm (h : l.RowsAscending) {a b : List SourceId} (hp : a.Perm b) :
    l.Independent a ↔ l.Independent b :=
  hp.pairwise_iff fun ho => overlap_comm h ho

theorem Independent.grows (h : Grows l l') (hi : l.Independent sources) : l'.Independent sources :=
  hi.imp fun ho => h.overlap ho

/-- **The policy, exactly**: an unmarked combination of sources is one of independent sources iff
the operation is no transport of sources that overlap within their group. -/
theorem checkOperation_independent (h : l.RowsAscending) {op : SynthesisOperation}
    {c : CheckedOperation} (hop : l.checkOperation op = .ok c) (hc : l.Combined c) :
    (c.dataReuse = false → c.dependenceDeclared = false → l.Independent c.direct) ↔
      ∀ transported native, op = .causalTransport transported native →
        l.Independent (sorted transported) ∧ l.Independent (sorted native) := by
  cases op with
  | statisticalPooling sources dependence =>
    exact ⟨fun _ _ _ he => (by cases he), fun _ _ hd => (checkPooling_ok hop).2 hd⟩
  | bayesianBorrowing priors likelihood =>
    obtain ⟨-, hi, he⟩ := checkBorrowing_ok hop
    refine ⟨fun _ _ _ he => (by cases he), fun _ _ _ => ?_⟩
    rw [hc.direct, he]
    exact (independent_perm h (sorted_perm _)).mpr hi
  | causalTransport transported native =>
    obtain ⟨-, hcross, he, hr, hd⟩ := checkTransport_ok hop
    have hsplit : l.Independent c.direct ↔
        l.Independent (sorted transported) ∧ l.Independent (sorted native) := by
      rw [hc.direct, he, independent_perm h (sorted_perm _)]
      unfold Independent
      refine ⟨fun hi => ?_, fun hi => ?_⟩
      · obtain ⟨h1, h2, -⟩ := List.pairwise_append.mp hi
        exact ⟨h1, h2⟩
      · exact List.pairwise_append.mpr
          ⟨hi.1, hi.2, fun a ha b hb => overlap_comm h (hcross b hb a ha)⟩
    rw [hsplit]
    refine ⟨fun hi t n he => ?_, fun hi _ _ => hi transported native rfl⟩
    cases he
    exact hi hr hd
  | evidenceReuse cited =>
    obtain ⟨o, hr⟩ := checkReuse_ok hop
    have := hc.cites
    rw [hr.operation] at this
    cases this
  | repeatedObservationUse sources stage =>
    obtain ⟨-, hr⟩ := checkRepeatedUse_ok hop
    refine ⟨fun _ _ _ he => (by cases he), fun _ hf => ?_⟩
    rw [hr] at hf
    cases hf

/-! ## What a result rests on -/

/-- The combination at the end of a chain of reuses: what the result rests on, and the accounting
all of the chain has. -/
structure Root (l : EvidenceLedger) (r o : ResultRecord) : Prop where
  mem : o ∈ l.results
  cites : cites o.operation = none
  sources : l.resultSources r.id = sorted o.operation.directSources
  mass : r.mass = o.mass
  dataReuse : r.dataReuse = o.dataReuse
  dependenceDeclared : r.dependenceDeclared = o.dependenceDeclared

theorem exists_root (h : l.Wf) : ∀ r ∈ l.results, ∃ o, l.Root r o := by
  refine record_induction h (P := fun r => ∃ o, l.Root r o) ?_ ?_
  · intro r hr hc
    exact ⟨r, hr, hc, resultSources_combined h hr hc, rfl, rfl, rfl⟩
  · rintro r hr c o hop hres hmass hreuse hdep ⟨root, hroot⟩
    refine ⟨root, hroot.mem, hroot.cites, ?_, hmass.trans hroot.mass, hreuse.trans hroot.dataReuse,
      hdep.trans hroot.dependenceDeclared⟩
    rw [resultSources_reuse h hr hop, ← (result_some hres).2, hroot.sources]

theorem repeatedSlots_eq_zero (h : l.RowsAscending) {mass : MassAccount}
    (hasc : Ascending (sorted sources)) (hm : l.massAccount sources = .ok mass)
    (hi : l.Independent (sorted sources)) : mass.repeatedSlots = 0 := by
  obtain ⟨found, hf, rfl⟩ := massAccount_ok.mp hm
  rw [List.Nodup.dedup hasc.nodup] at hf
  have hall := mapM_ok hf
  have hrows : ∀ s ∈ found, ∀ rows, s.effective.rows = some rows → Ascending rows := by
    intro s hs rows
    obtain ⟨id, -, hid⟩ := exists_of_forall₂ hall hs
    exact h s (source_some (requireKnown_ok.mp hid)).1 rows
  have hpair : found.Pairwise fun a b => overlapOf a b = .independent := by
    refine pairwise_forall₂ (fun a a' s s' hs hs' ho => ?_) hall hi
    obtain ⟨sa, sb, ha, hb, ho⟩ := overlap_eq.mp ho
    rw [requireKnown_ok.mp hs] at ha
    rw [requireKnown_ok.mp hs'] at hb
    cases ha
    cases hb
    exact ho
  have hlen : (unionSorted ((found.map view).filterMap (·.2))).length =
      (((found.map view).filterMap (·.2)).map List.length).sum := by
    rw [List.filterMap_map]
    refine length_unionSorted (fun rows hr => ?_) (List.pairwise_filterMap.mpr ?_)
    · obtain ⟨s, hs, hr⟩ := List.mem_filterMap.mp hr
      exact (hrows s hs rows hr).nodup
    · refine hpair.imp_of_mem fun {a b} ha hb ho rows hr rows' hr' => ?_
      exact overlapOf_disjoint (hrows a ha) (hrows b hb) ho rows rows' hr hr'
  unfold accountOf
  dsimp only
  rw [hlen, Nat.sub_self]

/-! ## The statement, over the combinations of sources -/

def SourcesIndependent (l : EvidenceLedger) : Prop :=
  ∀ r ∈ l.results.map bare, cites r.operation = none → r.dataReuse = false →
    r.dependenceDeclared = false → l.Independent (sorted r.operation.directSources)

theorem Independent.apart (h : l.RowsAscending) (hi : l.Independent sources) :
    sources.Pairwise fun a b => ∀ x, l.Carries a x → ¬l.Carries b x := by
  refine hi.imp fun {a b} ho x => ?_
  rintro ⟨s, rows, hs, hr, hx⟩ ⟨s', rows', hs', hr', hx'⟩
  obtain ⟨sa, sb, ha, hb, ho⟩ := overlap_eq.mp ho
  rw [hs] at ha
  rw [hs'] at hb
  cases ha
  cases hb
  exact overlapOf_disjoint (h s (source_some hs).1) (h s' (source_some hs').1) ho rows rows' hr hr'
    x hx hx'

theorem noDoubleCounting_iff_sources (h : l.Wf) : l.NoDoubleCounting ↔ l.SourcesIndependent := by
  constructor
  · intro hn r hr hc hreuse hdep
    obtain ⟨r₀, hr₀, rfl⟩ := List.mem_map.mp hr
    have hi := (hn r₀ hr₀ hreuse hdep).independent
    rwa [resultSources_combined h hr₀ hc] at hi
  · intro hs r hr hreuse hdep
    obtain ⟨o, ho⟩ := exists_root h r hr
    obtain ⟨hasc, -, hmass⟩ := h.registered ho.mem ho.cites
    have hi : l.Independent (l.resultSources r.id) := by
      rw [ho.sources]
      exact hs (bare o) (List.mem_map_of_mem ho.mem) ho.cites (ho.dataReuse.symm.trans hreuse)
        (ho.dependenceDeclared.symm.trans hdep)
    refine ⟨hi, ?_, hi.apart h.rows⟩
    have hzero := repeatedSlots_eq_zero h.rows hasc hmass (ho.sources ▸ hi)
    rwa [← ho.mass] at hzero

theorem SourcesIndependent.grows (hg : Grows l l')
    (hb : l'.results.map bare = l.results.map bare) (h : l.SourcesIndependent) :
    l'.SourcesIndependent := by
  intro r hr hc hreuse hdep
  rw [hb] at hr
  exact (h r hr hc hreuse hdep).grows hg

theorem SourcesIndependent.reclassify (h : l.SourcesIndependent) (o : OperationId) :
    (l.reclassify o).SourcesIndependent :=
  h.grows (Grows.refl l) (reclassify_bare l o)

theorem sourcesIndependent_register (h : l.Wf) (hs : l.SourcesIndependent)
    {request : CombinationRequest} {k : CheckedCombination} (o : OperationId)
    (hk : l.checkCombination ids request = .ok k) :
    (l.register k o).SourcesIndependent ↔ l.TransportsApart (.combine request) := by
  obtain ⟨c, hc⟩ := checkCombination_ok hk
  have hsame : ∀ sources, (l.register k o).Independent sources ↔ l.Independent sources := by
    intro sources
    unfold Independent overlap requireKnown
    simp only [source_register]
  have hone : (l.register k o).SourcesIndependent ↔
      (cites c.operation = none → c.dataReuse = false → c.dependenceDeclared = false →
        l.Independent (sorted c.operation.directSources)) := by
    unfold SourcesIndependent
    simp only [hsame]
    rw [register_bare, List.forall_mem_append, List.forall_mem_singleton]
    have hrecord : (record k o).operation = c.operation := hc.operation
    rw [hrecord, show (record k o).dataReuse = c.dataReuse from hc.dataReuse,
      show (record k o).dependenceDeclared = c.dependenceDeclared from hc.dependenceDeclared]
    exact and_iff_right hs
  rw [hone]
  have hreq : l.TransportsApart (.combine request) ↔ ∀ transported native,
      request.operation = .causalTransport transported native →
        l.Independent (sorted transported) ∧ l.Independent (sorted native) := by
    refine ⟨fun ht t n he => ht request t n rfl he, fun ht request' t n he he' => ?_⟩
    cases he
    exact ht t n he'
  rw [hreq]
  rcases checkOperation_ok hc.checked with hcomb | ⟨cited, orig, hr⟩
  · rw [← checkOperation_independent h.rows hc.checked hcomb, ← hcomb.direct]
    exact ⟨fun hi => hi hcomb.cites, fun hi _ => hi⟩
  · refine ⟨fun _ t n he => ?_, fun _ hcites => ?_⟩
    · have hop := hc.checked
      rw [he] at hop
      have hcites := (checkTransport_ok hop).1.cites
      rw [hr.operation] at hcites
      cases hcites
    · rw [hr.operation] at hcites
      cases hcites

/-- **The step lemma**: an accepted operation keeps the statement iff, if it is a transport, it is
apart. -/
theorem apply_noDoubleCounting {op : LedgerOperation} (h : l.Wf) (hn : l.NoDoubleCounting)
    (ha : l.apply ids op = .ok l') : l'.NoDoubleCounting ↔ l.TransportsApart op := by
  have hs := (noDoubleCounting_iff_sources h).mp hn
  rw [noDoubleCounting_iff_sources (apply_wf h ha)]
  obtain ⟨m, head, log, hm, rfl⟩ := apply_cases ha
  have hplain : (∀ request, op ≠ .combine request) → l.TransportsApart op :=
    fun hne request _ _ he => absurd he (hne request)
  have hstamp : (m.stamp head log).SourcesIndependent ↔ m.SourcesIndependent := Iff.rfl
  rw [hstamp]
  cases hm with
  | added o hc fresh =>
    exact iff_of_true (hs.grows (grows_insertSource l _ o) rfl) (hplain fun _ he => by cases he)
  | withdrawn o hsrc ht =>
    refine iff_of_true (SourcesIndependent.reclassify ?_ o) (hplain fun _ he => by cases he)
    exact hs.grows (grows_setSource l _ _) rfl
  | succeeded o hop hsrc ht hc fresh apart =>
    refine iff_of_true (SourcesIndependent.reclassify ?_ o) (hplain fun _ he => ?_)
    · exact hs.grows ((grows_setSource l _ _).trans (grows_insertSource _ _ o)) rfl
    · rcases hop with ⟨rfl, -⟩ | ⟨rfl, -⟩ | ⟨rfl, -⟩ <;> cases he
  | revalidated o =>
    exact iff_of_true (hs.reclassify o) (hplain fun _ he => by cases he)
  | combined o hk => exact sourcesIndependent_register h hs o hk

/-- **No result of a run counts an observation twice, in any state, iff every accepted transport of
the run is apart.** -/
theorem noDoubleCounting_iff (ids : Identities) (ops : List LedgerOperation) :
    (∀ n, (run (apply ids) (new ids) (ops.take n)).NoDoubleCounting) ↔
      Meets (apply ids) TransportsApart (new ids) ops :=
  forall_run_iff (fun _ _ _ => apply_wf) (fun _ _ _ => apply_noDoubleCounting) ops (new ids)
    (wf_new ids) fun _ h => absurd h List.not_mem_nil

/-! ## Two transported claims that share a row -/

/-- Hash functions under which the sources below differ: a source is told by its rows. -/
def plainIdentities : Identities where
  genesis := 0
  source := fun d => (d.observations.rows.getD []).foldl (fun n row => 10 * n + row) 1
  transport := fun t => t.selectionDiagram
  observations := fun rows => rows.foldl (fun n row => 10 * n + row) 1
  result := fun label _ _ => label.utf8ByteSize
  operation := fun head _ => head + 1

/-- A claim carried from the population `p` to `t`. -/
def carriedClaim (rows : List ObservationId) : SourceDeclaration where
  label := "claim"
  kind := .externalClaim
  observations := .declared rows
  lineage := .original
  transport := some ⟨["p"], "t", 5, ["same mechanism"]⟩

/-- Two claims that share the row 2 are transported together, and the result is not marked. -/
theorem overlapping_transports : ¬NoDoubleCounting (run (apply plainIdentities)
    (new plainIdentities) [.add (carriedClaim [1, 2]), .add (carriedClaim [2, 3]),
      .combine ⟨"carry", .causalTransport [112, 123] [], none⟩]) := by
  intro h
  obtain ⟨r, hr, hreuse, hdep, hslots⟩ : ∃ r ∈ (run (apply plainIdentities) (new plainIdentities)
      [.add (carriedClaim [1, 2]), .add (carriedClaim [2, 3]),
        .combine ⟨"carry", .causalTransport [112, 123] [], none⟩]).results,
      r.dataReuse = false ∧ r.dependenceDeclared = false ∧ r.mass.repeatedSlots = 1 := by
    decide +kernel
  have hzero := (h r hr hreuse hdep).repeatedSlots
  omega

end EvidenceLedger

end Antecedent.Contract
