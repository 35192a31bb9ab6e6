import Mathlib.Data.List.Pairwise
import Antecedent.Contract.LedgerCounting

/-!
# Re-entry through lineage

A source that was built from another by a copy, a transform, a prior with a likelihood or a
derivation rests on the data of that other, so the two are never independent evidence. The ledger
judges independence from resolved rows alone. Rows that are not declared are those of the parents,
which keeps the trace (`resolveEffective_undeclared`); rows that are declared are taken as they are
(`resolveEffective_declared`), and the check against the parents lets a source drop them.
`lineageShown_iff` says exactly when a run keeps the trace in every state: iff each accepted
declaration that names rows names some of everything the source was built from. `hidden_reentry` is
a run that does not.
-/

namespace Antecedent.Contract

open Machine Relation

/-- The parents whose data a source is built from: those of every lineage but a subset. -/
def Lineage.built : Lineage → List SourceId
  | original | subset _ => []
  | duplicate p | transform p _ => [p]
  | priorPlusLikelihood prior likelihood => [prior, likelihood]
  | derivedFromUsedData inputs => inputs

theorem Lineage.built_subset {lineage : Lineage} {p : SourceId} (h : p ∈ lineage.built) :
    p ∈ lineage.parents := by
  cases lineage with
  | original => exact h
  | subset of => exact absurd h List.not_mem_nil
  | duplicate of => exact h
  | transform of t => exact h
  | priorPlusLikelihood prior likelihood => exact h
  | derivedFromUsedData inputs => exact h

/-- Whether the operation counts its sources as independent evidence: pooling under independence or
under a covariance without cross terms, and borrowing. -/
def SynthesisOperation.countsIndependent : SynthesisOperation → Bool
  | statisticalPooling _ .independent | bayesianBorrowing _ _ => true
  | statisticalPooling _ (.declaredCovariance _ hasCrossCovariance) => !hasCrossCovariance
  | statisticalPooling _ (.assumptionRange _ _) | causalTransport _ _ | evidenceReuse _
  | repeatedObservationUse _ _ => false

def LedgerOperation.declaration : LedgerOperation → Option SourceDeclaration
  | add d | update _ d | replace _ d | supersede _ d => some d
  | withdraw _ _ | revalidateDownstream | combine _ => none

namespace EvidenceLedger

variable {ids : Identities} {l l' : EvidenceLedger}

/-! ## The statement -/

def builtFrom (l : EvidenceLedger) (id : SourceId) : List SourceId :=
  match l.source id with
  | some s => s.declaration.lineage.built
  | none => []

def Built (l : EvidenceLedger) (b a : SourceId) : Prop := a ∈ l.builtFrom b

/-- The source `b` was built from `a`, in one step or more. -/
def RestsOn (l : EvidenceLedger) : SourceId → SourceId → Prop := TransGen l.Built

/-- The source appears independent of no data it was built from. -/
def Shown (l : EvidenceLedger) (b : SourceId) : Prop :=
  ∀ a sb sa, l.RestsOn b a → l.source b = some sb → l.source a = some sa →
    sa.effective.rows ≠ some [] → overlapOf sb sa ≠ .independent

/-- No registered result counts a source and data it was built from as independent evidence. -/
def ReentryRefused (l : EvidenceLedger) : Prop :=
  ∀ r ∈ l.results, r.operation.countsIndependent = true →
    ∀ b ∈ r.operation.directSources, ∀ a ∈ r.operation.directSources, b ≠ a → l.RestsOn b a →
      ∀ sa, l.source a = some sa → sa.effective.rows = some []

/-- Lineage hides no re-entry. -/
structure LineageShown (l : EvidenceLedger) : Prop where
  shown : ∀ b, l.Shown b
  refused : l.ReentryRefused

/-- The rows meet the observations: some row is among them, or they are unknown and there is one. -/
def Touches (rows : List ObservationId) : EffectiveObservations → Prop
  | .known known => ∃ x ∈ rows, x ∈ known
  | .unknown _ => rows ≠ []

/-- The rows a declaration names, if it names any, keep some of everything the source is built
from. -/
def KeepsTrace (l : EvidenceLedger) (d : SourceDeclaration) : Prop :=
  ∀ rows, d.observations.rows = some rows → ∀ p ∈ d.lineage.built, ∀ a s,
    ReflTransGen l.Built p a → l.source a = some s → s.effective.rows ≠ some [] →
      Touches rows s.effective

def DeclaresTrace (l : EvidenceLedger) (op : LedgerOperation) : Prop :=
  ∀ d, op.declaration = some d → l.KeepsTrace d

/-! ## Rows and overlap -/

variable {rows : List ObservationId} {e : EffectiveObservations} {sb sa : EvidenceSource}
  {d : SourceDeclaration} {p b a : SourceId} {c : CanonicalSource} {op : LedgerOperation}

theorem Touches.mono {rows' : List ObservationId}
    (hsub : ∀ x ∈ rows, x ∈ rows') (h : Touches rows e) : Touches rows' e := by
  cases e with
  | known known =>
    obtain ⟨x, hx, hk⟩ := h
    exact ⟨x, hsub x hx, hk⟩
  | unknown reason =>
    intro he
    subst he
    exact h (List.eq_nil_iff_forall_not_mem.mpr fun x hx => List.not_mem_nil (hsub x hx))

/-- **Known rows are independent of observations they do not touch, and of no others.** -/
theorem overlapOf_known (hb : sb.effective = .known rows) (hasc : Ascending rows)
    (ha : ∀ known, sa.effective.rows = some known → Ascending known) :
    overlapOf sb sa ≠ .independent ↔ Touches rows sa.effective := by
  unfold overlapOf
  rw [hb]
  cases hea : sa.effective with
  | known known =>
    rw [hea] at ha
    dsimp only [Touches]
    by_cases h0 : intersectionCount rows known = 0
    · have hnone := (intersectionCount_eq_zero hasc (ha known rfl)).mp h0
      rw [if_pos h0]
      refine iff_of_false (not_not.mpr rfl) ?_
      rintro ⟨x, hx, hk⟩
      exact hnone x hx hk
    · rw [if_neg h0]
      refine iff_of_true (fun h => by cases h) ?_
      by_contra hnone
      refine h0 ((intersectionCount_eq_zero hasc (ha known rfl)).mpr fun x hx hk => ?_)
      exact hnone ⟨x, hx, hk⟩
  | unknown reason =>
    dsimp only [Touches]
    by_cases hrows : rows = []
    · subst hrows
      simp
    · cases rows with
      | nil => exact absurd rfl hrows
      | cons x rest => simp

theorem overlapOf_unknown {reason : String}
    (hb : sb.effective = .unknown reason) (ha : sa.effective.rows ≠ some []) :
    overlapOf sb sa ≠ .independent := by
  unfold overlapOf
  rw [hb]
  cases hea : sa.effective with
  | known known =>
    rw [hea] at ha
    cases known with
    | nil => exact absurd rfl ha
    | cons x rest => simp
  | unknown reason' => simp

/-! ## Resolved rows -/

theorem resolveEffective_declared (h : l.resolveEffective d = .ok e)
    (hd : d.observations.rows = some rows) : e = .known rows := by
  unfold resolveEffective at h
  rw [hd] at h
  cases hlin : d.lineage with
  | original =>
    rw [hlin] at h
    cases h
    rfl
  | duplicate p | transform p _ =>
    rw [hlin] at h
    dsimp only at h
    cases hp : l.parentRows p with
    | none =>
      rw [hp] at h
      cases h
      rfl
    | some parent =>
      rw [hp] at h
      obtain ⟨heq, h⟩ := guard_ok h
      cases h
      rw [not_not.mp heq]
  | subset p =>
    rw [hlin] at h
    dsimp only at h
    cases hp : l.parentRows p with
    | none =>
      rw [hp] at h
      cases h
      rfl
    | some parent =>
      rw [hp] at h
      obtain ⟨-, h⟩ := guard_ok h
      cases h
      rfl
  | priorPlusLikelihood _ _ | derivedFromUsedData _ =>
    rw [hlin] at h
    dsimp only at h
    rw [← hlin] at h
    cases hu : l.unionOfParents d.lineage.parents with
    | none =>
      rw [hu] at h
      cases h
      rfl
    | some union =>
      rw [hu] at h
      obtain ⟨-, h⟩ := guard_ok h
      cases h
      rfl

theorem mapM_some_mem {α β : Type} {f : α → Option β} : ∀ {l : List α} {out : List β},
    l.mapM f = some out → ∀ a ∈ l, ∃ b ∈ out, f a = some b
  | [], _, _, _, ha => absurd ha List.not_mem_nil
  | c :: l, _, h, a, ha => by
    rw [List.mapM_cons] at h
    obtain ⟨d, hd, h⟩ := Option.bind_eq_some_iff.mp h
    obtain ⟨rest, hrest, h⟩ := Option.bind_eq_some_iff.mp h
    cases h
    rcases List.mem_cons.mp ha with rfl | ha
    · exact ⟨d, List.mem_cons_self, hd⟩
    · obtain ⟨b, hb, hf⟩ := mapM_some_mem hrest a ha
      exact ⟨b, List.mem_cons_of_mem d hb, hf⟩

theorem unionOfParents_mem {parents : List SourceId} {union : List ObservationId}
    (h : l.unionOfParents parents = some union) (hp : p ∈ parents) :
    ∃ rows, l.parentRows p = some rows ∧ ∀ x ∈ rows, x ∈ union := by
  obtain ⟨sets, hsets, rfl⟩ := Option.map_eq_some_iff.mp h
  obtain ⟨rows, hr, hrows⟩ := mapM_some_mem hsets p hp
  exact ⟨rows, hrows, fun x hx => mem_unionSorted.mpr ⟨rows, hr, hx⟩⟩

/-- **Rows that are not declared, when known, hold those of every source it is built from.** -/
theorem resolveEffective_undeclared
    (h : l.resolveEffective d = .ok (.known rows)) (hd : d.observations.rows = none)
    (hp : p ∈ d.lineage.built) :
    ∃ parent, l.parentRows p = some parent ∧ ∀ x ∈ parent, x ∈ rows := by
  unfold resolveEffective at h
  rw [hd] at h
  cases hlin : d.lineage with
  | original | subset _ =>
    rw [hlin] at hp
    exact absurd hp List.not_mem_nil
  | duplicate q | transform q _ =>
    rw [hlin] at h hp
    obtain rfl := List.mem_singleton.mp hp
    dsimp only at h
    cases hq : l.parentRows p with
    | none =>
      rw [hq] at h
      cases h
    | some parent =>
      rw [hq] at h
      cases h
      exact ⟨rows, rfl, fun _ hx => hx⟩
  | priorPlusLikelihood _ _ | derivedFromUsedData _ =>
    have hparent := Lineage.built_subset hp
    rw [hlin] at h
    dsimp only at h
    rw [← hlin] at h
    cases hu : l.unionOfParents d.lineage.parents with
    | none =>
      rw [hu] at h
      cases h
    | some union =>
      rw [hu] at h
      cases h
      exact unionOfParents_mem hu hparent

/-- What admission keeps of a declaration: its rows, sorted, what it is built from, and how its rows
are resolved. -/
structure Canonical (l : EvidenceLedger) (d : SourceDeclaration) (c : CanonicalSource) : Prop where
  rows : c.declaration.observations.rows = d.observations.rows.map sorted
  built : ∀ p, p ∈ c.declaration.lineage.built ↔ p ∈ d.lineage.built
  resolved : l.resolveEffective c.declaration = .ok c.effective

theorem canonicalRows_rows {basis basis' : ObservationBasis}
    (h : canonicalRows basis = .ok basis') : basis'.rows = basis.rows.map sorted := by
  cases basis with
  | undeclared =>
    cases h
    rfl
  | declared rows =>
    obtain ⟨-, h⟩ := guard_ok h
    obtain ⟨-, h⟩ := guard_ok h
    cases h
    rfl

theorem canonicalLineage_built {lineage lineage' : Lineage}
    (h : l.canonicalLineage lineage = .ok lineage') (p : SourceId) :
    p ∈ lineage'.built ↔ p ∈ lineage.built := by
  cases lineage with
  | original | duplicate _ | transform _ _ | subset _ =>
    cases h
    rfl
  | priorPlusLikelihood prior likelihood =>
    obtain ⟨-, h⟩ := guard_ok h
    obtain ⟨s, -, h⟩ := bind_ok h
    obtain ⟨-, h⟩ := guard_ok h
    cases h
    rfl
  | derivedFromUsedData inputs =>
    obtain ⟨-, h⟩ := guard_ok h
    obtain ⟨-, h⟩ := guard_ok h
    cases h
    exact mem_sorted

theorem canonicalSource_canonical (h : l.canonicalSource ids d = .ok c) : l.Canonical d c := by
  unfold canonicalSource at h
  obtain ⟨-, h⟩ := guard_ok h
  obtain ⟨observations, hobs, h⟩ := bind_ok h
  obtain ⟨lineage, hlin, h⟩ := bind_ok h
  obtain ⟨found, -, h⟩ := bind_ok h
  obtain ⟨transport, -, h⟩ := bind_ok h
  obtain ⟨effective, heff, h⟩ := bind_ok h
  cases h
  exact ⟨canonicalRows_rows hobs, canonicalLineage_built hlin, heff⟩

/-! ## Lineage under growth -/

theorem Wf.built_right (hw : l.Wf) (h : l.Built b a) : (l.source a).isSome := by
  refine hw.parents b a ?_
  unfold Built builtFrom at h
  unfold EvidenceLedger.parents
  cases hs : l.source b with
  | none =>
    rw [hs] at h
    exact absurd h List.not_mem_nil
  | some s =>
    rw [hs] at h
    exact Lineage.built_subset h

theorem Wf.rests_known (hw : l.Wf) (hb : (l.source b).isSome)
    (h : ReflTransGen l.Built b a) : (l.source a).isSome := by
  induction h with
  | refl => exact hb
  | tail _ hstep _ => exact hw.built_right hstep

theorem Grows.built (hg : Grows l l') (hb : (l.source b).isSome) :
    l'.Built b a ↔ l.Built b a := by
  obtain ⟨s, hs⟩ := Option.isSome_iff_exists.mp hb
  obtain ⟨s', hs', hd, -⟩ := hg b s hs
  unfold Built builtFrom
  rw [hs, hs']
  dsimp only
  rw [hd]

section

variable (hg : Grows l l') (hw : l.Wf) (hb : (l.source b).isSome)

include hg hw hb

theorem Grows.rests : ReflTransGen l'.Built b a ↔ ReflTransGen l.Built b a := by
  constructor
  · intro h
    induction h with
    | refl => exact .refl
    | tail _ hstep ih => exact ih.tail ((hg.built (hw.rests_known hb ih)).mp hstep)
  · intro h
    induction h with
    | refl => exact .refl
    | tail hrest hstep ih => exact ih.tail ((hg.built (hw.rests_known hb hrest)).mpr hstep)

theorem Grows.restsOn : l'.RestsOn b a ↔ l.RestsOn b a := by
  unfold RestsOn
  rw [TransGen.head'_iff, TransGen.head'_iff]
  refine exists_congr fun p => ?_
  rw [hg.built hb]
  exact and_congr_right fun hp => hg.rests hw (hw.built_right hp)

/-- A source there is appears as it did. -/
theorem Grows.shown : l'.Shown b ↔ l.Shown b := by
  obtain ⟨sb, hsb⟩ := Option.isSome_iff_exists.mp hb
  obtain ⟨sb', hsb', -, heb⟩ := hg b sb hsb
  constructor
  · intro h a tb sa hr htb hsa hne
    rw [hsb] at htb
    cases htb
    obtain ⟨sa', hsa', -, hea⟩ := hg a sa hsa
    rw [← overlapOf_congr heb hea]
    exact h a sb' sa' ((hg.restsOn hw hb).mpr hr) hsb' hsa' (hea ▸ hne)
  · intro h a tb sa' hr htb hsa' hne
    rw [hsb'] at htb
    cases htb
    have hr := (hg.restsOn hw hb).mp hr
    obtain ⟨sa, hsa⟩ := Option.isSome_iff_exists.mp (hw.rests_known hb hr.to_reflTransGen)
    obtain ⟨ta, hta, -, hea⟩ := hg a sa hsa
    rw [hsa'] at hta
    cases hta
    rw [overlapOf_congr heb hea]
    exact h a sb sa hr hsb hsa (hea ▸ hne)

end

theorem shown_unknown (hb : l.source b = none) : l.Shown b := by
  intro a sb sa _ hsb
  rw [hb] at hsb
  cases hsb

/-- An operation that adds no source hides none and shows none. -/
theorem Grows.allShown (hg : Grows l l') (hw : l.Wf)
    (hnew : ∀ id, (l'.source id).isSome → (l.source id).isSome) :
    (∀ b, l'.Shown b) ↔ ∀ b, l.Shown b := by
  refine forall_congr' fun b => ?_
  by_cases hb : (l.source b).isSome
  · exact hg.shown hw hb
  · refine iff_of_true (shown_unknown ?_) (shown_unknown (by simpa using hb))
    have := fun h => hb (hnew b h)
    simpa using this

/-! ## A source that is added -/

theorem parent_touches (hw : l.Wf) (hn : ∀ b, l.Shown b)
    {parent : List ObservationId} (hp : l.parentRows p = some parent)
    (hr : ReflTransGen l.Built p a) (ha : l.source a = some sa)
    (hne : sa.effective.rows ≠ some []) : Touches parent sa.effective := by
  obtain ⟨sp, hsp, hrows⟩ := Option.bind_eq_some_iff.mp hp
  have hknown : sp.effective = .known parent := by
    cases he : sp.effective with
    | unknown reason =>
      rw [he] at hrows
      cases hrows
    | known rows =>
      rw [he] at hrows
      cases hrows
      rfl
  have hasc : ∀ s, l.source a = some s → ∀ known, s.effective.rows = some known → Ascending known :=
    fun s hs => hw.rows s (source_some hs).1
  rcases Relation.reflTransGen_iff_eq_or_transGen.mp hr with rfl | hr
  · rw [hsp] at ha
    cases ha
    rw [hknown] at hne ⊢
    cases parent with
    | nil => exact absurd rfl hne
    | cons x rest => exact ⟨x, List.mem_cons_self, List.mem_cons_self⟩
  · refine (overlapOf_known hknown (parentRows_ascending hw.rows hp) (hasc sa ha)).mp ?_
    exact hn p a sp sa hr hsp ha hne

theorem touches_sorted :
    Touches (sorted rows) e ↔ Touches rows e :=
  ⟨Touches.mono fun _ hx => mem_sorted.mp hx, Touches.mono fun _ hx => mem_sorted.mpr hx⟩

theorem restsOn_insertSource (hw : l.Wf) (o : OperationId)
    (fresh : l.source c.id = none) (hadm : l.Admitted c) :
    (l.insertSource c o).RestsOn c.id a ↔
      ∃ p ∈ c.declaration.lineage.built, ReflTransGen l.Built p a := by
  have hbuilt : ∀ p, (l.insertSource c o).Built c.id p ↔ p ∈ c.declaration.lineage.built := by
    intro p
    unfold Built builtFrom
    rw [source_insertSource, fresh, if_pos rfl]
    rfl
  unfold RestsOn
  rw [TransGen.head'_iff]
  refine exists_congr fun p => ?_
  rw [hbuilt]
  refine and_congr_right fun hp => (grows_insertSource l c o).rests hw ?_
  exact (hadm.usable p (Lineage.built_subset hp)).1

section

variable (hw : l.Wf) (hn : ∀ b, l.Shown b) (o : OperationId) (hc : l.canonicalSource ids d = .ok c)
  (fresh : l.source c.id = none)

include hw hn o hc fresh

/-- **An added source appears independent of no data it was built from iff the rows it declares keep
the trace**: rows that are not declared always do. -/
theorem shown_insertSource : (l.insertSource c o).Shown c.id ↔ l.KeepsTrace d := by
  have hadm := canonicalSource_admitted hw.rows hc
  have hcan := canonicalSource_canonical hc
  have hself : (l.insertSource c o).source c.id =
      some ⟨c.id, c.declaration, c.effective, .active, o⟩ := by
    rw [source_insertSource, fresh, if_pos rfl]
    rfl
  have hold : ∀ p ∈ d.lineage.built, ∀ a, ReflTransGen l.Built p a →
      (l.insertSource c o).source a = l.source a := by
    intro p hp a hr
    have hp := (hadm.usable p (Lineage.built_subset ((hcan.built p).mpr hp))).1
    obtain ⟨s, hs⟩ := Option.isSome_iff_exists.mp (hw.rests_known hp hr)
    rw [source_insertSource, hs]
    rfl
  have hasc : ∀ a sa, l.source a = some sa → ∀ known, sa.effective.rows = some known →
      Ascending known := fun a sa hs => hw.rows sa (source_some hs).1
  -- what the statement says of the new source, in terms of the ledger before
  have hiff : (l.insertSource c o).Shown c.id ↔ ∀ p ∈ d.lineage.built, ∀ a sa,
      ReflTransGen l.Built p a → l.source a = some sa → sa.effective.rows ≠ some [] →
        overlapOf ⟨c.id, c.declaration, c.effective, .active, o⟩ sa ≠ .independent := by
    constructor
    · intro h p hp a sa hr hsa hne
      refine h a _ sa ?_ hself (by rw [hold p hp a hr, hsa]) hne
      exact (restsOn_insertSource hw o fresh hadm).mpr ⟨p, (hcan.built p).mpr hp, hr⟩
    · intro h a sb sa hr hsb hsa hne
      obtain ⟨p, hp, hr⟩ := (restsOn_insertSource hw o fresh hadm).mp hr
      have hp := (hcan.built p).mp hp
      rw [hself] at hsb
      cases hsb
      rw [hold p hp a hr] at hsa
      exact h p hp a sa hr hsa hne
  rw [hiff]
  cases hd : d.observations.rows with
  | some rows =>
    have heff : c.effective = .known (sorted rows) :=
      resolveEffective_declared hcan.resolved (by rw [hcan.rows, hd]; rfl)
    have hrows : Ascending (sorted rows) := hadm.rows _ (by rw [heff]; rfl)
    have hiff : ∀ {a sa}, l.source a = some sa → (overlapOf
        ⟨c.id, c.declaration, c.effective, .active, o⟩ sa ≠ .independent ↔
          Touches rows sa.effective) := fun {a sa} hsa =>
      (overlapOf_known heff hrows (hasc a sa hsa)).trans touches_sorted
    constructor
    · intro h rows' hrows' p hp a sa hr hsa hne
      rw [hd] at hrows'
      cases hrows'
      exact (hiff hsa).mp (h p hp a sa hr hsa hne)
    · intro h p hp a sa hr hsa hne
      exact (hiff hsa).mpr (h rows hd p hp a sa hr hsa hne)
  | none =>
    refine iff_of_true (fun p hp a sa hr hsa hne => ?_) fun rows' hrows' => ?_
    · cases heff : c.effective with
      | unknown reason => exact overlapOf_unknown rfl hne
      | known rows =>
        obtain ⟨parent, hparent, hsub⟩ := resolveEffective_undeclared (heff ▸ hcan.resolved)
          (by rw [hcan.rows, hd]; rfl) ((hcan.built p).mpr hp)
        refine (overlapOf_known rfl (hadm.rows rows (by rw [heff]; rfl)) (hasc a sa hsa)).mpr ?_
        exact (parent_touches hw hn hparent hr hsa hne).mono hsub
    · rw [hd] at hrows'
      cases hrows'

/-- **An added source keeps the statement iff its rows keep the trace.** -/
theorem allShown_insertSource : (∀ b, (l.insertSource c o).Shown b) ↔ l.KeepsTrace d := by
  rw [← shown_insertSource hw hn o hc fresh]
  refine ⟨fun h => h c.id, fun h b => ?_⟩
  by_cases hb : (l.source b).isSome
  · exact ((grows_insertSource l c o).shown hw hb).mpr (hn b)
  · by_cases hcb : c.id = b
    · exact hcb ▸ h
    · refine shown_unknown ?_
      rw [source_insertSource, if_neg hcb, show l.source b = none by simpa using hb]
      rfl

/-! ## Registered results -/

end

/-- Every registered result that counts its sources as independent was checked to. -/
def IndependentUses (l : EvidenceLedger) : Prop :=
  ∀ r ∈ l.results.map bare, r.operation.countsIndependent = true →
    l.Independent (sorted r.operation.directSources)

theorem IndependentUses.grows (hg : Grows l l')
    (hb : l'.results.map bare = l.results.map bare) (h : l.IndependentUses) :
    l'.IndependentUses := by
  intro r hr hc
  rw [hb] at hr
  exact (h r hr hc).grows hg

theorem checkOperation_countsIndependent (hw : l.Wf) {op : SynthesisOperation}
    {c : CheckedOperation} (h : l.checkOperation op = .ok c)
    (hc : c.operation.countsIndependent = true) :
    l.Independent (sorted c.operation.directSources) := by
  cases op with
  | statisticalPooling sources dependence =>
    obtain ⟨hcomb, hindep⟩ := checkPooling_ok h
    rw [← hcomb.direct]
    refine hindep ?_
    obtain ⟨-, h⟩ := guard_ok h
    obtain ⟨listed, -, h⟩ := bind_ok h
    obtain ⟨-, -, h⟩ := bind_ok h
    obtain ⟨⟨cls, declared⟩, hdep, h⟩ := bind_ok h
    cases h
    cases dependence with
    | independent =>
      obtain ⟨_, -, hdep⟩ := bind_ok hdep
      cases hdep
      rfl
    | declaredCovariance covariance cross =>
      unfold checkDependence at hdep
      cases cross with
      | true => cases hc
      | false =>
        obtain ⟨_, -, hdep⟩ := bind_ok hdep
        cases hdep
        rfl
    | assumptionRange lo hi => cases hc
  | bayesianBorrowing priors likelihood =>
    obtain ⟨-, hindep, hop⟩ := checkBorrowing_ok h
    rw [hop]
    exact (independent_perm hw.rows (sorted_perm _)).mpr hindep
  | causalTransport transported native =>
    obtain ⟨-, -, hop, -⟩ := checkTransport_ok h
    rw [hop] at hc
    cases hc
  | evidenceReuse cited =>
    obtain ⟨o, hr⟩ := checkReuse_ok h
    rw [hr.operation] at hc
    cases hc
  | repeatedObservationUse sources stage =>
    obtain ⟨-, h⟩ := guard_ok h
    obtain ⟨listed, -, h⟩ := bind_ok h
    obtain ⟨mass, -, h⟩ := bind_ok h
    dsimp only at h
    cases hfirst : mass.unknownSources.head? with
    | some id =>
      rw [hfirst] at h
      cases h
    | none =>
      rw [hfirst] at h
      cases h
      cases hc

theorem grows_register (k : CheckedCombination) (o : OperationId) : Grows l (l.register k o) :=
  fun id s hs => ⟨s, (source_register k o id).trans hs, rfl, rfl⟩

theorem Applied.independentUses (hw : l.Wf) (h : l.IndependentUses)
    (ha : l.Applied ids op l') : l'.IndependentUses := by
  cases ha with
  | added o hc fresh => exact h.grows (grows_insertSource l _ o) rfl
  | withdrawn o hs ht => exact h.grows (grows_setSource l _ _) (reclassify_bare _ o)
  | succeeded o hop hs ht hc fresh apart =>
    exact h.grows ((grows_setSource l _ _).trans (grows_insertSource _ _ o)) (reclassify_bare _ o)
  | revalidated o => exact h.grows (Grows.refl l) (reclassify_bare l o)
  | @combined request k o hk =>
    obtain ⟨c, hc⟩ := checkCombination_ok hk
    intro r hr hcounts
    rw [register_bare] at hr
    rcases List.mem_append.mp hr with hr | hr
    · exact (h r hr hcounts).grows (grows_register k o)
    · obtain rfl := List.mem_singleton.mp hr
      have hop : (record k o).operation = c.operation := hc.operation
      rw [hop] at hcounts ⊢
      exact (checkOperation_countsIndependent hw hc.checked hcounts).grows (grows_register k o)

theorem apply_independentUses (hw : l.Wf) (h : l.IndependentUses)
    (ha : l.apply ids op = .ok l') : l'.IndependentUses := by
  obtain ⟨m, head, log, hm, rfl⟩ := apply_cases ha
  have hm : m.IndependentUses := hm.independentUses hw h
  exact hm

/-- Where nothing is hidden, no result that was checked counts data twice. -/
theorem reentryRefused_of_shown (hw : l.Wf) (hu : l.IndependentUses) (hs : ∀ b, l.Shown b) :
    l.ReentryRefused := by
  intro r hr hcounts b hb a ha hne hrests sa hsa
  by_contra hrows
  have hindep := hu (bare r) (List.mem_map_of_mem hr) hcounts
  have hsymm : Std.Symm fun b a => l.overlap b a = .ok .independent :=
    ⟨fun _ _ => overlap_comm hw.rows⟩
  have hpair := hindep.forall (mem_sorted.mpr hb) (mem_sorted.mpr ha) hne
  obtain ⟨sb, sa', hsb, hsa', ho⟩ := overlap_eq.mp hpair
  rw [hsa] at hsa'
  cases hsa'
  exact hs b a sb sa hrests hsb hsa hrows ho

theorem source_succeeded (t : SourceId) (status : SourceStatus) (c : CanonicalSource)
    (o : OperationId) (id : SourceId) : ((l.setSource t status).insertSource c o).source id =
      if (l.source id).isSome then (l.setSource t status).source id
      else (l.insertSource c o).source id := by
  rw [source_insertSource, source_insertSource, source_setSource]
  cases l.source id <;> simp

theorem allShown_succeeded (hw : l.Wf)
    (t : SourceId) (status : SourceStatus) (o : OperationId) (hc : l.canonicalSource ids d = .ok c)
    (fresh : l.source c.id = none) :
    (∀ b, ((l.setSource t status).insertSource c o).Shown b) ↔
      ∀ b, (l.insertSource c o).Shown b := by
  have hadm := canonicalSource_admitted hw.rows hc
  have hw' := hw.insertSource o fresh hadm.rows fun p hp => (hadm.usable p hp).1
  refine Grows.allShown (fun id s hs => ?_) hw' fun id hid => ?_
  · rw [source_succeeded]
    split_ifs with hold
    · obtain ⟨s₀, hs₀⟩ := Option.isSome_iff_exists.mp hold
      rw [source_insertSource, hs₀] at hs
      cases hs
      exact grows_setSource l t status id s hs₀
    · exact ⟨s, hs, rfl, rfl⟩
  · rw [source_succeeded] at hid
    split_ifs at hid with hold
    · exact (grows_insertSource l c o).isSome hold
    · exact hid

/-- **The step lemma**: an accepted operation keeps the statement iff the source it declares, if it
declares one, keeps the trace. -/
theorem apply_shown (hw : l.Wf) (hn : ∀ b, l.Shown b)
    (ha : l.apply ids op = .ok l') : (∀ b, l'.Shown b) ↔ l.DeclaresTrace op := by
  obtain ⟨m, head, log, hm, rfl⟩ := apply_cases ha
  have hstamp : (∀ b, (m.stamp head log).Shown b) ↔ ∀ b, m.Shown b := Iff.rfl
  rw [hstamp]
  have hplain : op.declaration = none → l.DeclaresTrace op := by
    intro hnone d hd
    rw [hnone] at hd
    cases hd
  have hdeclares : ∀ {d}, op.declaration = some d → (l.DeclaresTrace op ↔ l.KeepsTrace d) := by
    intro d hd
    refine ⟨fun h => h d hd, fun h d' hd' => ?_⟩
    rw [hd] at hd'
    cases hd'
    exact h
  cases hm with
  | added o hc fresh =>
    rw [hdeclares rfl]
    exact allShown_insertSource hw hn o hc fresh
  | withdrawn o hs ht =>
    refine iff_of_true ?_ (hplain rfl)
    refine ((grows_setSource l _ _).allShown hw fun id hid => ?_).mpr hn
    rw [source_setSource] at hid
    simpa using hid
  | @succeeded op retire target d c s o hop hs ht hc fresh apart =>
    have hd : op.declaration = some d := by
      rcases hop with ⟨rfl, -⟩ | ⟨rfl, -⟩ | ⟨rfl, -⟩ <;> rfl
    rw [hdeclares hd, ← allShown_insertSource hw hn o hc fresh]
    exact allShown_succeeded hw target _ o hc fresh
  | revalidated o => exact iff_of_true hn (hplain rfl)
  | combined o hk =>
    refine iff_of_true ?_ (hplain rfl)
    refine ((grows_register _ o).allShown hw fun id hid => ?_).mpr hn
    rwa [source_register] at hid

/-- **Lineage hides no re-entry in any state of a run iff every accepted declaration that names rows
names some of everything its source is built from.** -/
theorem lineageShown_iff (ids : Identities) (ops : List LedgerOperation) :
    (∀ n, (run (apply ids) (new ids) (ops.take n)).LineageShown) ↔
      Meets (apply ids) DeclaresTrace (new ids) ops := by
  refine forall_run_iff (W := fun l => l.Wf ∧ l.IndependentUses) (fun l op l' hw ha => ?_)
    (fun l op l' hw hl ha => ?_) ops (new ids) ⟨wf_new ids, fun r hr => absurd hr List.not_mem_nil⟩
    ⟨fun b => shown_unknown rfl, fun r hr => absurd hr List.not_mem_nil⟩
  · exact ⟨apply_wf hw.1 ha, apply_independentUses hw.1 hw.2 ha⟩
  · have hwf := apply_wf hw.1 ha
    have huses := apply_independentUses hw.1 hw.2 ha
    rw [← apply_shown hw.1 hl.shown ha]
    exact ⟨fun h => h.shown, fun h => ⟨h, reentryRefused_of_shown hwf huses h⟩⟩

/-! ## A derived source that declares no rows -/

def observed (rows : List ObservationId) : SourceDeclaration where
  label := "data"
  kind := .observationSet
  observations := .declared rows
  lineage := .original
  transport := none

def fitted (inputs : List SourceId) (rows : List ObservationId) : SourceDeclaration where
  label := "model"
  kind := .fittedModel
  observations := .declared rows
  lineage := .derivedFromUsedData inputs
  transport := none

/-- The model of the rows 1 and 2 declares no row, and is pooled with them as independent. -/
def reentryOps : List LedgerOperation :=
  [.add (observed [1, 2]), .add (fitted [112] []),
    .combine ⟨"pool", .statisticalPooling [112, 1] .independent, none⟩]

theorem hidden_reentry :
    ¬LineageShown (run (apply plainIdentities) (new plainIdentities) reentryOps) := by
  intro h
  obtain ⟨r, hr, hcounts, hsources⟩ :
      ∃ r ∈ (run (apply plainIdentities) (new plainIdentities) reentryOps).results,
        r.operation.countsIndependent = true ∧ r.operation.directSources = [1, 112] := by
    decide +kernel
  obtain ⟨sa, hsa, hrows⟩ :
      ∃ sa, (run (apply plainIdentities) (new plainIdentities) reentryOps).source 112 = some sa ∧
        sa.effective.rows = some [1, 2] := Option.map_eq_some_iff.mp (by decide +kernel)
  have hbuilt :
      112 ∈ (run (apply plainIdentities) (new plainIdentities) reentryOps).builtFrom 1 := by
    decide +kernel
  have hempty := h.refused r hr hcounts 1 (by rw [hsources]; decide) 112
    (by rw [hsources]; decide) (by decide) (.single hbuilt) sa hsa
  rw [hrows] at hempty
  cases hempty

end EvidenceLedger

end Antecedent.Contract
