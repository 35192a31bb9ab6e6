import Antecedent.Contract.LedgerInvariant

/-!
# The invariant of reachable ledgers

The policy's checks are read back once (`checkListed_ok`, `checkPairs_ok`, `checkOperation_ok`,
`checkCombination_ok`), `apply_cases` says what an accepted operation does, and `apply_wf` is the
step lemma of the invariant `Wf`.
-/

namespace Antecedent.Contract

open Core Machine

theorem sorted_eq_of_perm {α : Type} [LinearOrder α] {l l' : List α} (h : l.Perm l') :
    sorted l = sorted l' :=
  List.Perm.eq_of_pairwise (fun _ _ _ _ hab hba => le_antisymm hab hba)
    (List.pairwise_insertionSort _ l) (List.pairwise_insertionSort _ l')
    ((sorted_perm l).trans (h.trans (sorted_perm l').symm))

theorem forall_orderedPairs {α : Type} {R : α → α → Prop} : ∀ {l : List α},
    (∀ p ∈ orderedPairs l, R p.1 p.2) ↔ l.Pairwise R
  | [] => by simp [orderedPairs]
  | a :: l => by
    rw [orderedPairs, List.forall_mem_append, forall_orderedPairs, List.pairwise_cons]
    simp

namespace EvidenceLedger

variable {ids : Identities} {l l' : EvidenceLedger}

/-! ## The policy, read back -/

def cites : SynthesisOperation → Option ResultId
  | .evidenceReuse cited => some cited
  | _ => none

/-- Every two of the sources are `Overlap::Independent`. -/
def Independent (l : EvidenceLedger) (sources : List SourceId) : Prop :=
  sources.Pairwise fun a b => l.overlap a b = .ok .independent

def Usable (l : EvidenceLedger) (id : SourceId) : Prop :=
  (l.source id).isSome ∧ l.lossOf id = none

theorem checkListed_ok {listed out : List SourceId} (h : l.checkListed listed = .ok out) :
    out = sorted listed ∧ Ascending out ∧ ∀ id ∈ out, l.Usable id := by
  unfold checkListed at h
  obtain ⟨-, h⟩ := guard_ok h
  cases hr : firstRepeat (sorted listed) with
  | some id =>
    rw [hr] at h
    cases h
  | none =>
    rw [hr] at h
    obtain ⟨found, hfound, h⟩ := bind_ok h
    cases h
    refine ⟨rfl, ascending_sorted hr, fun id hid => ?_⟩
    obtain ⟨s, -, hs⟩ := mapM_ok_mem hfound hid
    obtain ⟨hs, hloss⟩ := requireUsable_ok.mp hs
    exact ⟨hs ▸ rfl, hloss⟩

theorem checkPairs_ok {shared : SourceId → SourceId → Nat → LedgerError} :
    ∀ {pairs : List (SourceId × SourceId)} {unknown : Option LedgerError},
      l.checkPairs shared unknown pairs = .ok () →
        unknown = none ∧ ∀ p ∈ pairs, l.overlap p.1 p.2 = .ok .independent
  | [], none, _ => ⟨rfl, fun _ h => absurd h List.not_mem_nil⟩
  | (a, b) :: rest, unknown, h => by
    rw [checkPairs.eq_3] at h
    obtain ⟨o, ho, h⟩ := bind_ok h
    cases o with
    | independent =>
      obtain ⟨hu, hrest⟩ := checkPairs_ok h
      exact ⟨hu, List.forall_mem_cons.mpr ⟨ho, hrest⟩⟩
    | sharedObservations n => cases h
    | unknown reason =>
      obtain ⟨hu, -⟩ := checkPairs_ok h
      cases unknown <;> cases hu

variable {sources : List SourceId} {dependence : PoolingDependence} {c : CheckedOperation}
  {op : LedgerOperation} {request : CombinationRequest} {k : CheckedCombination} {retire : Retire}
  {target : SourceId} {plan : Plan} {before : List ResultRecord} {r : ResultRecord}

theorem requirePairwiseIndependent_ok
    (h : l.requirePairwiseIndependent sources = .ok ()) : l.Independent sources :=
  forall_orderedPairs.mp (checkPairs_ok h).2

theorem checkDiagonal_ok : ∀ {pairs : List (SourceId × SourceId)},
    l.checkDiagonal pairs = .ok () → ∀ p ∈ pairs, l.overlap p.1 p.2 = .ok .independent
  | [], _ => fun _ h => absurd h List.not_mem_nil
  | (a, b) :: rest, h => by
    unfold checkDiagonal at h
    obtain ⟨o, ho, h⟩ := bind_ok h
    cases o with
    | independent => exact List.forall_mem_cons.mpr ⟨ho, checkDiagonal_ok h⟩
    | sharedObservations n => cases h
    | unknown reason => cases h

theorem checkDependence_ok
    {cls : ClaimClass} (h : l.checkDependence sources dependence = .ok (cls, false)) :
    l.Independent sources := by
  cases dependence with
  | independent =>
    obtain ⟨_, hp, -⟩ := bind_ok h
    exact requirePairwiseIndependent_ok hp
  | declaredCovariance covariance cross =>
    unfold checkDependence at h
    cases cross with
    | true => cases h
    | false =>
      obtain ⟨_, hp, -⟩ := bind_ok h
      exact forall_orderedPairs.mp (checkDiagonal_ok hp)
  | assumptionRange lo hi =>
    obtain ⟨-, h⟩ := guard_ok h
    cases h

/-- What the policy says of a combination of sources: the sources to account are those the
canonical operation names, sorted, distinct and usable. -/
structure Combined (l : EvidenceLedger) (c : CheckedOperation) : Prop where
  cites : cites c.operation = none
  precomputed : c.precomputed = none
  direct : c.direct = sorted c.operation.directSources
  ascending : Ascending c.direct
  usable : ∀ id ∈ c.direct, l.Usable id

theorem sorted_append_sorted (a b : List SourceId) :
    sorted (a ++ b) = sorted (sorted a ++ sorted b) :=
  sorted_eq_of_perm ((sorted_perm a).symm.append (sorted_perm b).symm)

theorem sorted_sorted (a : List SourceId) : sorted a = sorted (sorted a) :=
  sorted_eq_of_perm (sorted_perm a).symm

theorem checkPooling_ok (h : l.checkPooling sources dependence = .ok c) :
    l.Combined c ∧ (c.dependenceDeclared = false → l.Independent c.direct) := by
  obtain ⟨-, h⟩ := guard_ok h
  obtain ⟨listed, hlisted, h⟩ := bind_ok h
  obtain ⟨-, -, h⟩ := bind_ok h
  obtain ⟨⟨cls, declared⟩, hdep, h⟩ := bind_ok h
  obtain ⟨rfl, hasc, huse⟩ := checkListed_ok hlisted
  cases h
  refine ⟨⟨rfl, rfl, sorted_sorted sources, hasc, huse⟩, fun hd => ?_⟩
  dsimp only at hd
  subst hd
  exact checkDependence_ok hdep

theorem checkBorrowing_ok {priors likelihood : List SourceId}
    (h : l.checkBorrowing priors likelihood = .ok c) :
    l.Combined c ∧ l.Independent (sorted priors ++ sorted likelihood) ∧
      c.operation = .bayesianBorrowing (sorted priors) (sorted likelihood) := by
  obtain ⟨-, h⟩ := guard_ok h
  obtain ⟨listed, hlisted, h⟩ := bind_ok h
  obtain ⟨-, -, h⟩ := bind_ok h
  obtain ⟨_, hlike, h⟩ := bind_ok h
  obtain ⟨_, hprior, h⟩ := bind_ok h
  obtain ⟨_, hcross, h⟩ := bind_ok h
  obtain ⟨rfl, hasc, huse⟩ := checkListed_ok hlisted
  cases h
  refine ⟨⟨rfl, rfl, sorted_append_sorted _ _, hasc, huse⟩, ?_, rfl⟩
  refine List.pairwise_append.mpr ⟨requirePairwiseIndependent_ok hprior,
    requirePairwiseIndependent_ok hlike, fun a ha b hb => ?_⟩
  exact (checkPairs_ok hcross).2 (a, b) (List.pair_mem_product.mpr ⟨ha, hb⟩)

theorem checkTransport_ok {transported native : List SourceId}
    (h : l.checkTransport transported native = .ok c) :
    l.Combined c ∧
      (∀ a ∈ sorted native, ∀ b ∈ sorted transported, l.overlap a b = .ok .independent) ∧
      c.operation = .causalTransport (sorted transported) (sorted native) ∧
      c.dataReuse = false ∧ c.dependenceDeclared = false := by
  obtain ⟨-, h⟩ := guard_ok h
  dsimp only at h
  cases hfind : transported.find? (native.contains ·) with
  | some id =>
    rw [hfind] at h
    cases h
  | none =>
    rw [hfind] at h
    obtain ⟨listed, hlisted, h⟩ := bind_ok h
    obtain ⟨-, -, h⟩ := bind_ok h
    obtain ⟨-, -, h⟩ := bind_ok h
    obtain ⟨_, hcross, h⟩ := bind_ok h
    obtain ⟨rfl, hasc, huse⟩ := checkListed_ok hlisted
    cases h
    refine ⟨⟨rfl, rfl, sorted_append_sorted _ _, hasc, huse⟩, fun a ha b hb => ?_, rfl, rfl, rfl⟩
    exact (checkPairs_ok hcross).2 (a, b) (List.pair_mem_product.mpr ⟨ha, hb⟩)

theorem checkRepeatedUse_ok {stage : String}
    (h : l.checkRepeatedUse sources stage = .ok c) : l.Combined c ∧ c.dataReuse = true := by
  obtain ⟨-, h⟩ := guard_ok h
  obtain ⟨listed, hlisted, h⟩ := bind_ok h
  obtain ⟨mass, -, h⟩ := bind_ok h
  obtain ⟨rfl, hasc, huse⟩ := checkListed_ok hlisted
  dsimp only at h
  cases hfirst : mass.unknownSources.head? with
  | some id =>
    rw [hfirst] at h
    cases h
  | none =>
    rw [hfirst] at h
    cases h
    exact ⟨⟨rfl, rfl, sorted_sorted sources, hasc, huse⟩, rfl⟩

/-- What the policy says of a reuse: the result is valid, and its accounting is taken over. -/
structure Reused (l : EvidenceLedger) (cited : ResultId) (o : ResultRecord) (c : CheckedOperation) :
    Prop where
  result : l.result cited = some o
  valid : o.status = .valid
  operation : c.operation = .evidenceReuse cited
  precomputed : c.precomputed = some (o.mass, o.observationsDigest, o.transportIdentities)
  dataReuse : c.dataReuse = o.dataReuse
  dependenceDeclared : c.dependenceDeclared = o.dependenceDeclared

theorem checkReuse_ok {cited : ResultId}
    (h : l.checkReuse cited = .ok c) : ∃ o, l.Reused cited o c := by
  unfold checkReuse at h
  cases ho : l.result cited with
  | none =>
    rw [ho] at h
    cases h
  | some o =>
    rw [ho] at h
    obtain ⟨hv, h⟩ := guard_ok h
    cases h
    exact ⟨o, ho, not_not.mp hv, rfl, rfl, rfl, rfl⟩

/-- Every combination the policy lets through is one of sources or a reuse. -/
theorem checkOperation_ok {op : SynthesisOperation}
    (h : l.checkOperation op = .ok c) : l.Combined c ∨ ∃ cited o, l.Reused cited o c := by
  cases op with
  | statisticalPooling sources dependence => exact Or.inl (checkPooling_ok h).1
  | bayesianBorrowing priors likelihood => exact Or.inl (checkBorrowing_ok h).1
  | causalTransport transported native => exact Or.inl (checkTransport_ok h).1
  | evidenceReuse cited => exact Or.inr ⟨cited, checkReuse_ok h⟩
  | repeatedObservationUse sources stage => exact Or.inl (checkRepeatedUse_ok h).1

/-- What a checked combination is made of. -/
structure FromRequest (ids : Identities) (l : EvidenceLedger) (request : CombinationRequest)
    (c : CheckedOperation) (k : CheckedCombination) : Prop where
  replaces : l.checkReplaces request.replaces = .ok ()
  checked : l.checkOperation request.operation = .ok c
  fresh : l.result k.id = none
  operation : k.operation = c.operation
  dataReuse : k.dataReuse = c.dataReuse
  dependenceDeclared : k.dependenceDeclared = c.dependenceDeclared
  replaced : k.replaces = request.replaces
  mass : (∃ d t, c.precomputed = some (k.mass, d, t)) ∨
    (c.precomputed = none ∧ l.massAccount c.direct = .ok k.mass)

theorem checkCombination_ok
    (h : l.checkCombination ids request = .ok k) : ∃ c, l.FromRequest ids request c k := by
  obtain ⟨-, h⟩ := guard_ok h
  obtain ⟨-, h⟩ := guard_ok h
  obtain ⟨_, hreplaces, h⟩ := bind_ok h
  obtain ⟨c, hc, h⟩ := bind_ok h
  obtain ⟨⟨mass, digest, transports⟩, hmass, h⟩ := bind_ok h
  obtain ⟨hfresh, h⟩ := guard_ok h
  cases h
  refine ⟨c, hreplaces, hc, by simpa using hfresh, rfl, rfl, rfl, rfl, ?_⟩
  unfold accounting at hmass
  cases hp : c.precomputed with
  | some values =>
    rw [hp] at hmass
    cases hmass
    exact Or.inl ⟨digest, transports, rfl⟩
  | none =>
    rw [hp] at hmass
    obtain ⟨mass', hm, hmass⟩ := bind_ok hmass
    obtain ⟨found, -, hmass⟩ := bind_ok hmass
    cases hmass
    exact Or.inr ⟨rfl, hm⟩

/-! ## What an operation does -/

def register (l : EvidenceLedger) (k : CheckedCombination) (o : OperationId) : EvidenceLedger :=
  (l.execute o (.combine k)).1

/-- What an accepted operation does to the sources and the results. A source is retired when it is
active, or withdrawn when it is not withdrawn; a successor does not descend from it. -/
inductive Applied (ids : Identities) (l : EvidenceLedger) : LedgerOperation → EvidenceLedger → Prop
  | added {d : SourceDeclaration} {c : CanonicalSource} (o : OperationId)
      (hc : l.canonicalSource ids d = .ok c) (fresh : l.source c.id = none) :
      Applied ids l (.add d) (l.insertSource c o)
  | withdrawn {target : SourceId} {reason : String} {s : EvidenceSource} (o : OperationId)
      (hs : l.source target = some s) (ht : checkRetirable .withdraw target s.status = .ok ()) :
      Applied ids l (.withdraw target reason)
        ((l.setSource target (.withdrawn reason o)).reclassify o)
  | succeeded {op : LedgerOperation} {retire : Retire} {target : SourceId} {d : SourceDeclaration}
      {c : CanonicalSource} {s : EvidenceSource} (o : OperationId)
      (hop : (op = .update target d ∧ retire = .update) ∨ (op = .replace target d ∧ retire = .replace) ∨
        (op = .supersede target d ∧ retire = .supersede))
      (hs : l.source target = some s) (ht : checkRetirable retire target s.status = .ok ())
      (hc : l.canonicalSource ids d = .ok c) (fresh : l.source c.id = none)
      (apart : ∀ p ∈ c.declaration.lineage.parents, p ≠ target ∧ target ∉ l.lineageClosure p) :
      Applied ids l op (((l.setSource target (retiredStatus o none retire (some c.id))).insertSource
        c o).reclassify o)
  | revalidated (o : OperationId) : Applied ids l .revalidateDownstream (l.reclassify o)
  | combined {request : CombinationRequest} {k : CheckedCombination} (o : OperationId)
      (hk : l.checkCombination ids request = .ok k) :
      Applied ids l (.combine request) (l.register k o)

def stamp (l : EvidenceLedger) (head : OperationId) (log : List AppliedOperation) :
    EvidenceLedger := { l with head := head, log := log }

theorem checkNewSource_ok {c : CanonicalSource} (h : l.checkNewSource c = .ok ()) :
    l.source c.id = none := by
  obtain ⟨hn, -⟩ := guard_ok h
  simpa using hn

theorem planReplacement_ok {s : EvidenceSource} {d : SourceDeclaration}
    (h : l.planReplacement ids retire target s d = .ok plan) :
    ∃ c overlaps, l.canonicalSource ids d = .ok c ∧ l.source c.id = none ∧
      (∀ p ∈ c.declaration.lineage.parents, p ≠ target ∧ target ∉ l.lineageClosure p) ∧
      plan = .retire retire target none (some (c, overlaps)) := by
  obtain ⟨c, hc, h⟩ := bind_ok h
  obtain ⟨hp, h⟩ := guard_ok h
  obtain ⟨-, -, h⟩ := bind_ok h
  obtain ⟨-, -, h⟩ := bind_ok h
  obtain ⟨hf, h⟩ := guard_ok h
  obtain ⟨-, -, h⟩ := bind_ok h
  cases h
  refine ⟨c, _, hc, by simpa using hf, fun p hmem => ?_, rfl⟩
  have := fun hbad => hp (List.any_eq_true.mpr ⟨p, hmem, hbad⟩)
  simpa using this

theorem planRetire_ok {replacement : Option SourceDeclaration} {reason : Option String}
    (h : l.planRetire ids retire target replacement reason = .ok plan) :
    ∃ s, l.source target = some s ∧ checkRetirable retire target s.status = .ok () ∧
      match replacement with
      | none => plan = .retire retire target reason none
      | some d => l.planReplacement ids retire target s d = .ok plan := by
  obtain ⟨s, hs, h⟩ := bind_ok h
  obtain ⟨_, ht, h⟩ := bind_ok h
  obtain ⟨-, h⟩ := guard_ok h
  refine ⟨s, requireKnown_ok.mp hs, ht, ?_⟩
  cases replacement with
  | none =>
    cases h
    rfl
  | some d => exact h

/-- **The inversion of `apply`.** -/
theorem apply_cases (h : l.apply ids op = .ok l') :
    ∃ m head log, l.Applied ids op m ∧ l' = m.stamp head log := by
  obtain ⟨plan, hplan, h⟩ := bind_ok h
  cases h
  suffices hall : ∀ o, l.Applied ids op (l.execute o plan).1 from ⟨_, _, _, hall _, rfl⟩
  intro o
  obtain ⟨-, hplan⟩ := guard_ok hplan
  cases op with
  | add d =>
    obtain ⟨-, hplan⟩ := guard_ok hplan
    obtain ⟨c, hc, hplan⟩ := bind_ok hplan
    obtain ⟨_, hn, hplan⟩ := bind_ok hplan
    cases hplan
    exact .added o hc (checkNewSource_ok hn)
  | update target d =>
    obtain ⟨s, hs, ht, hplan⟩ := planRetire_ok hplan
    obtain ⟨c, overlaps, hc, hf, hp, rfl⟩ := planReplacement_ok hplan
    exact .succeeded o (Or.inl ⟨rfl, rfl⟩) hs ht hc hf hp
  | replace target d =>
    obtain ⟨s, hs, ht, hplan⟩ := planRetire_ok hplan
    obtain ⟨c, overlaps, hc, hf, hp, rfl⟩ := planReplacement_ok hplan
    exact .succeeded o (Or.inr (Or.inl ⟨rfl, rfl⟩)) hs ht hc hf hp
  | supersede target d =>
    obtain ⟨s, hs, ht, hplan⟩ := planRetire_ok hplan
    obtain ⟨c, overlaps, hc, hf, hp, rfl⟩ := planReplacement_ok hplan
    exact .succeeded o (Or.inr (Or.inr ⟨rfl, rfl⟩)) hs ht hc hf hp
  | withdraw target reason =>
    obtain ⟨s, hs, ht, hplan⟩ := planRetire_ok hplan
    have hplan : plan = .retire .withdraw target (some reason) none := hplan
    subst hplan
    exact .withdrawn o hs ht
  | revalidateDownstream =>
    cases hplan
    exact .revalidated o
  | combine request =>
    obtain ⟨k, hk, hplan⟩ := bind_ok hplan
    cases hplan
    exact .combined o hk

/-! ## The invariant -/

def Registered (l : EvidenceLedger) (before : List ResultRecord) (r : ResultRecord) : Prop :=
  match cites r.operation with
  | some cited => ∃ o ∈ before, o.id = cited ∧ r.mass = o.mass ∧ r.dataReuse = o.dataReuse ∧
      r.dependenceDeclared = o.dependenceDeclared
  | none => Ascending (sorted r.operation.directSources) ∧
      (∀ id ∈ r.operation.directSources, (l.source id).isSome) ∧
      l.massAccount r.operation.directSources = .ok r.mass

/-- **The invariant of every reachable ledger.** -/
structure Wf (l : EvidenceLedger) : Prop where
  sourceIds : (l.sources.map (·.id)).Nodup
  resultIds : (l.results.map (·.id)).Nodup
  rows : l.RowsAscending
  parents : ∀ id, ∀ p ∈ l.parents id, (l.source p).isSome
  results : ∀ before r after, l.results.map bare = before ++ r :: after → l.Registered before r

theorem Registered.grows (h : Grows l l')
    (hr : l.Registered before r) : l'.Registered before r := by
  unfold Registered at hr ⊢
  cases hc : cites r.operation with
  | some cited =>
    rw [hc] at hr
    exact hr
  | none =>
    rw [hc] at hr
    exact ⟨hr.1, fun id hid => h.isSome (hr.2.1 id hid), h.massAccount hr.2.2⟩

theorem wf_new (ids : Identities) : (new ids).Wf where
  sourceIds := List.nodup_nil
  resultIds := List.nodup_nil
  rows := fun _ h => absurd h List.not_mem_nil
  parents := fun _ _ h => absurd h List.not_mem_nil
  results := fun before r after h => by simp [new] at h

theorem Wf.stamp (h : l.Wf) (head : OperationId) (log : List AppliedOperation) :
    (l.stamp head log).Wf :=
  ⟨h.sourceIds, h.resultIds, h.rows, h.parents, h.results⟩

theorem Wf.reclassify (h : l.Wf) (o : OperationId) : (l.reclassify o).Wf where
  sourceIds := h.sourceIds
  resultIds := by rw [← map_id_bare, reclassify_bare, map_id_bare]; exact h.resultIds
  rows := h.rows
  parents := h.parents
  results := by
    rw [reclassify_bare]
    exact h.results

theorem parents_setSource (t id : SourceId) (status : SourceStatus) :
    (l.setSource t status).parents id = l.parents id := by
  unfold parents
  rw [source_setSource]
  cases l.source id with
  | none => rfl
  | some s =>
    dsimp only [Option.map_some]
    split_ifs <;> rfl

theorem Wf.setSource (h : l.Wf) (t : SourceId) (status : SourceStatus) :
    (l.setSource t status).Wf where
  sourceIds := by
    have : (l.setSource t status).sources.map (·.id) = l.sources.map (·.id) := by
      unfold EvidenceLedger.setSource
      rw [List.map_map]
      refine List.map_congr_left fun s _ => ?_
      simp only [Function.comp_apply]
      split_ifs <;> rfl
    rw [this]
    exact h.sourceIds
  resultIds := h.resultIds
  rows := by
    intro s hs
    obtain ⟨s', hs', rfl⟩ := List.mem_map.mp hs
    have := h.rows s' hs'
    split_ifs <;> exact this
  parents := fun id p hp =>
    (grows_setSource l t status).isSome (h.parents id p (parents_setSource (l := l) t id status ▸ hp))
  results := fun before r after he => (h.results before r after he).grows (grows_setSource l t status)

theorem parents_insertSource (c : CanonicalSource) (o : OperationId) (id : SourceId) :
    (l.insertSource c o).parents id = if (l.source id).isSome then l.parents id
      else if c.id = id then c.declaration.lineage.parents else [] := by
  unfold parents
  rw [source_insertSource]
  cases l.source id with
  | some s => rfl
  | none =>
    dsimp only [Option.none_or]
    split_ifs <;> first | rfl | contradiction

theorem Wf.insertSource (h : l.Wf) {c : CanonicalSource} (o : OperationId)
    (fresh : l.source c.id = none) (hrows : ∀ rows, c.effective.rows = some rows → Ascending rows)
    (hparents : ∀ p ∈ c.declaration.lineage.parents, (l.source p).isSome) :
    (l.insertSource c o).Wf where
  sourceIds := by
    unfold EvidenceLedger.insertSource
    rw [List.map_append, List.map_cons, List.map_nil, ← List.concat_eq_append, List.nodup_concat]
    refine ⟨fun hmem => ?_, h.sourceIds⟩
    obtain ⟨s, hs, he⟩ := List.mem_map.mp hmem
    have := List.find?_eq_none.mp fresh s hs
    simp only [decide_eq_true_eq] at this
    exact this he
  resultIds := h.resultIds
  rows := by
    intro s hs
    rcases List.mem_append.mp hs with hs | hs
    · exact h.rows s hs
    · obtain rfl := List.mem_singleton.mp hs
      exact hrows
  parents := by
    intro id p hp
    refine (grows_insertSource l c o).isSome ?_
    rw [parents_insertSource] at hp
    split_ifs at hp
    · exact h.parents id p hp
    · exact hparents p hp
    · exact absurd hp List.not_mem_nil
  results := fun before r after he => (h.results before r after he).grows (grows_insertSource l c o)

theorem massAccount_sorted (sources : List SourceId) :
    l.massAccount (sorted sources) = l.massAccount sources := by
  unfold massAccount
  rw [← sorted_sorted]

def replacing (l : EvidenceLedger) (k : CheckedCombination) (o : OperationId) :
    List ResultRecord :=
  match k.replaces with
  | some replaced => (l.setResult replaced (.replaced k.id o)).results
  | none => l.results

theorem register_results (k : CheckedCombination) (o : OperationId) :
    (l.register k o).results = l.replacing k o ++ [record k o] := by
  rcases k with ⟨id, label, op, mass, cls, digest, transports, reuse, declared, _ | replaced⟩ <;> rfl

theorem register_sources (k : CheckedCombination) (o : OperationId) :
    (l.register k o).sources = l.sources := by
  rcases k with ⟨id, label, op, mass, cls, digest, transports, reuse, declared, _ | replaced⟩ <;> rfl

theorem source_register (k : CheckedCombination) (o : OperationId) (id : SourceId) :
    (l.register k o).source id = l.source id := by
  unfold source
  rw [register_sources]

theorem register_bare (k : CheckedCombination) (o : OperationId) :
    (l.register k o).results.map bare = l.results.map bare ++ [record k o] := by
  have hmarked : (l.replacing k o).map bare = l.results.map bare := by
    unfold replacing
    cases k.replaces with
    | none => rfl
    | some replaced => exact l.setResult_bare replaced _
  rw [register_results, List.map_append, hmarked]
  rfl

/-- A record that passed the policy is registered as `Registered` says. -/
theorem registered_record (o : OperationId) (h : l.FromRequest ids request c k) :
    l.Registered (l.results.map bare) (record k o) := by
  have hop : (record k o).operation = c.operation := h.operation
  unfold Registered
  rw [hop]
  rcases checkOperation_ok h.checked with hc | ⟨cited, orig, hr⟩
  · rw [hc.cites]
    have hmass : l.massAccount c.direct = .ok k.mass := by
      rcases h.mass with ⟨d, t, hp⟩ | ⟨-, hm⟩
      · rw [hc.precomputed] at hp
        cases hp
      · exact hm
    refine ⟨hc.direct ▸ hc.ascending, fun id hid => ?_, ?_⟩
    · exact (hc.usable id (hc.direct ▸ mem_sorted.mpr hid)).1
    · rw [← massAccount_sorted, ← hc.direct]
      exact hmass
  · rw [hr.operation]
    obtain ⟨hmem, hid⟩ := result_some hr.result
    refine ⟨bare orig, List.mem_map_of_mem hmem, hid, ?_, h.dataReuse.trans hr.dataReuse,
      h.dependenceDeclared.trans hr.dependenceDeclared⟩
    rcases h.mass with ⟨d, t, hp⟩ | ⟨hp, -⟩
    · rw [hr.precomputed, Option.some.injEq, Prod.mk.injEq] at hp
      exact hp.1.symm
    · rw [hr.precomputed] at hp
      cases hp

theorem Wf.register (h : l.Wf) {request : CombinationRequest} {k : CheckedCombination}
    (o : OperationId) (hk : l.checkCombination ids request = .ok k) : (l.register k o).Wf := by
  obtain ⟨c, hc⟩ := checkCombination_ok hk
  have hgrows : Grows l (l.register k o) :=
    fun id s hs => ⟨s, (source_register k o id).trans hs, rfl, rfl⟩
  refine ⟨by rw [register_sources]; exact h.sourceIds, ?_, fun s hs => ?_, fun id p hp => ?_, ?_⟩
  · rw [← map_id_bare, register_bare, List.map_append, map_id_bare, List.map_cons, List.map_nil,
      ← List.concat_eq_append, List.nodup_concat]
    refine ⟨fun hmem => ?_, h.resultIds⟩
    obtain ⟨r, hr, he⟩ := List.mem_map.mp hmem
    have := List.find?_eq_none.mp hc.fresh r hr
    simp only [decide_eq_true_eq] at this
    exact this he
  · rw [register_sources] at hs
    exact h.rows s hs
  · have hp' : p ∈ l.parents id := by
      unfold EvidenceLedger.parents at hp ⊢
      rwa [source_register] at hp
    exact hgrows.isSome (h.parents id p hp')
  · rw [register_bare]
    exact forall_split_concat (fun before r after he => (h.results before r after he).grows hgrows)
      ((registered_record o hc).grows hgrows)

theorem Applied.wf (h : l.Wf) (ha : l.Applied ids op l') : l'.Wf := by
  cases ha with
  | added o hc fresh =>
    have hadm := canonicalSource_admitted h.rows hc
    exact h.insertSource o fresh hadm.rows fun p hp => (hadm.usable p hp).1
  | withdrawn o hs ht => exact (h.setSource _ _).reclassify o
  | succeeded o hop hs ht hc fresh apart =>
    have hadm := canonicalSource_admitted h.rows hc
    refine ((h.setSource _ _).insertSource o ?_ hadm.rows fun p hp => ?_).reclassify o
    · rw [source_setSource, fresh]
      rfl
    · exact (grows_setSource l _ _).isSome (hadm.usable p hp).1
  | revalidated o => exact h.reclassify o
  | combined o hk => exact h.register o hk

/-- **The step lemma of the invariant.** -/
theorem apply_wf (h : l.Wf) (ha : l.apply ids op = .ok l') : l'.Wf := by
  obtain ⟨m, head, log, hm, rfl⟩ := apply_cases ha
  exact (hm.wf h).stamp head log

/-- **Every reachable ledger is well formed.** -/
theorem wf_run (ids : Identities) (ops : List LedgerOperation) :
    (run (apply ids) (new ids) ops).Wf :=
  run_inv (fun _ _ _ hw _ ha => apply_wf hw ha) ops (new ids) (wf_new ids)
    (meets_of_forall (P := fun _ _ => True) (fun _ _ => trivial) ops _)

/-! ## Chains of reuses -/

theorem Wf.result_mem (h : l.Wf) (hr : r ∈ l.results) : l.result r.id = some r :=
  find?_key h.resultIds hr

theorem Wf.registered (h : l.Wf) (hr : r ∈ l.results)
    (hc : cites r.operation = none) : Ascending (sorted r.operation.directSources) ∧
      (∀ id ∈ r.operation.directSources, (l.source id).isSome) ∧
      l.massAccount r.operation.directSources = .ok r.mass := by
  obtain ⟨before, after, he⟩ := List.append_of_mem (List.mem_map_of_mem (f := bare) hr)
  have hreg := h.results before (bare r) after he
  unfold Registered at hreg
  rw [show (bare r).operation = r.operation from rfl, hc] at hreg
  exact hreg

theorem Wf.cited (h : l.Wf) {after : List ResultRecord}
    (he : l.results = before ++ r :: after) {c : ResultId}
    (hop : r.operation = .evidenceReuse c) : ∃ o ∈ before, l.result c = some o ∧ r.mass = o.mass ∧
      r.dataReuse = o.dataReuse ∧ r.dependenceDeclared = o.dependenceDeclared := by
  have hreg := h.results (before.map bare) (bare r) (after.map bare) (by rw [he]; simp)
  unfold Registered at hreg
  rw [show (bare r).operation = r.operation from rfl, hop] at hreg
  obtain ⟨p, hp, hpid, hacc⟩ := hreg
  obtain ⟨o, ho, rfl⟩ := List.mem_map.mp hp
  have hid : o.id = c := hpid
  refine ⟨o, ho, ?_, hacc⟩
  rw [← hid]
  exact h.result_mem (by rw [he]; exact List.mem_append_left _ ho)

/-- **Induction over chains of reuses.** -/
theorem record_induction (h : l.Wf) {P : ResultRecord → Prop}
    (combined : ∀ r ∈ l.results, cites r.operation = none → P r)
    (reuse : ∀ r ∈ l.results, ∀ c o, r.operation = .evidenceReuse c → l.result c = some o →
      r.mass = o.mass → r.dataReuse = o.dataReuse → r.dependenceDeclared = o.dependenceDeclared →
      P o → P r) : ∀ r ∈ l.results, P r := by
  suffices hall : ∀ n before r after, l.results = before ++ r :: after → before.length ≤ n → P r by
    intro r hr
    obtain ⟨before, after, he⟩ := List.append_of_mem hr
    exact hall before.length before r after he le_rfl
  intro n
  induction n with
  | zero =>
    intro before r after he hn
    obtain rfl := List.eq_nil_of_length_eq_zero (Nat.le_zero.mp hn)
    have hmem : r ∈ l.results := by rw [he]; exact List.mem_cons_self
    refine combined r hmem ?_
    cases hop : r.operation with
    | evidenceReuse c =>
      obtain ⟨o, ho, -⟩ := h.cited he hop
      exact absurd ho List.not_mem_nil
    | _ => rfl
  | succ n ih =>
    intro before r after he hn
    have hmem : r ∈ l.results := by
      rw [he]
      exact List.mem_append_right _ List.mem_cons_self
    cases hop : r.operation with
    | evidenceReuse c =>
      obtain ⟨o, ho, hres, hmass, hreuse, hdep⟩ := h.cited he hop
      obtain ⟨b₁, b₂, rfl⟩ := List.append_of_mem ho
      refine reuse r hmem c o hop hres hmass hreuse hdep (ih b₁ o (b₂ ++ r :: after) ?_ ?_)
      · rw [he]
        simp
      · simp at hn
        omega
    | _ => exact combined r hmem (by rw [hop]; rfl)

theorem resultSourcesFrom_stable (h : l.Wf) : ∀ (fuel fuel' : Nat) (before : List ResultRecord)
    (r : ResultRecord) (after : List ResultRecord), l.results = before ++ r :: after →
    before.length < fuel → before.length < fuel' →
    l.resultSourcesFrom fuel r.id = l.resultSourcesFrom fuel' r.id
  | 0, _, _, _, _, _, hf, _ => absurd hf (Nat.not_lt_zero _)
  | _, 0, _, _, _, _, _, hf => absurd hf (Nat.not_lt_zero _)
  | fuel + 1, fuel' + 1, before, r, after, he, hf, hf' => by
    have hmem : r ∈ l.results := by
      rw [he]
      exact List.mem_append_right _ List.mem_cons_self
    rw [resultSourcesFrom, resultSourcesFrom, h.result_mem hmem]
    dsimp only
    cases hop : r.operation with
    | evidenceReuse c =>
      dsimp only
      obtain ⟨o, ho, hres, -⟩ := h.cited he hop
      obtain ⟨b₁, b₂, rfl⟩ := List.append_of_mem ho
      rw [← (result_some hres).2]
      refine resultSourcesFrom_stable h fuel fuel' b₁ o (b₂ ++ r :: after) (by rw [he]; simp) ?_ ?_
      all_goals
        rw [List.length_append, List.length_cons] at hf hf'
        omega
    | _ => rfl

theorem resultSources_combined (h : l.Wf) (hr : r ∈ l.results)
    (hc : cites r.operation = none) : l.resultSources r.id = sorted r.operation.directSources := by
  unfold resultSources
  rw [resultSourcesFrom, h.result_mem hr]
  dsimp only
  cases hop : r.operation with
  | evidenceReuse c =>
    rw [hop] at hc
    cases hc
  | _ => rfl

/-- **A reuse rests on what the cited result rests on.** -/
theorem resultSources_reuse (h : l.Wf) (hr : r ∈ l.results) {c : ResultId}
    (hop : r.operation = .evidenceReuse c) : l.resultSources r.id = l.resultSources c := by
  obtain ⟨before, after, he⟩ := List.append_of_mem hr
  obtain ⟨o, ho, hres, -⟩ := h.cited he hop
  obtain ⟨b₁, b₂, rfl⟩ := List.append_of_mem ho
  have hlen := congrArg List.length he
  simp only [List.length_append, List.length_cons] at hlen
  unfold resultSources
  rw [resultSourcesFrom, h.result_mem hr]
  dsimp only
  rw [hop]
  dsimp only
  rw [← (result_some hres).2]
  exact resultSourcesFrom_stable h _ _ b₁ o (b₂ ++ r :: after) (by rw [he]; simp) (by omega)
    (by omega)

end EvidenceLedger

end Antecedent.Contract
