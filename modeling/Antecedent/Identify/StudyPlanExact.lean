import Antecedent.Identify.StudyPlanLoop
import Antecedent.Identify.StudyPlanRefusals
import Antecedent.Machine.Flat

/-!
# The proposals of a plan are the minimal repairs

`studySubsets_ranking` says of the subsets of a validated universe that they are ranked strictly and that
no subset contains a later one, as costs are positive. With what the loop settles this gives
`studyPlan_exact`: the proposals of a plan that is not stopped are the minimal repairs, a plan that
claims a minimal cost has one, whatever stopped it, a receipt tells explored and unevaluated subsets
apart, and the order of the candidates does not matter.
-/

namespace Antecedent.Identify

open Core
open MinimalHits

/-! ## The statement -/

/-- A subset of at most three candidates, in the order of the universe. -/
structure IsSubset (candidates s : List StudyPlanCandidate) : Prop where
  sublist : s.Sublist candidates
  nonempty : s ≠ []
  small : s.length ≤ studyPlanMaxSubset

/-- Every candidate has what it requires and nothing it conflicts with. -/
def Feasible (s : List StudyPlanCandidate) : Prop :=
  ∀ c ∈ s, (∀ r ∈ c.requires, r ∈ idsOf s) ∧ ∀ x ∈ c.conflicts, x ∉ idsOf s

def costOf (s : List StudyPlanCandidate) : Nat := (s.map (·.costUnits)).sum

section Statement

variable (d : Decisions) (route : StudyPlanRoute) (catalog : EvidenceCatalog) (caps : PlanCaps)
  (candidates : List StudyPlanCandidate)

/-- The subset is feasible, and the decision on its preview identifies within its operation cap and
cites a regime the subset proposes. -/
structure Repair (s : List StudyPlanCandidate) : Prop where
  feasible : Feasible s
  identified : ∃ preview found, previewOf catalog s = .ok preview ∧
    d.decide route preview = .identified found ∧
    found.operations ≤ caps.decisionCap (subsetLabel (idsOf s)) route.decisionOperations ∧
    ∃ r ∈ found.cited, r ∈ (deltaOf s).proposedRegimes.map (·.id)

/-- A repair among the subsets that contains no other. -/
structure MinimalRepair (s : List StudyPlanCandidate) : Prop where
  subset : IsSubset candidates s
  repair : Repair d route catalog caps s
  least : ∀ t, IsSubset candidates t → Repair d route catalog caps t → t ⊆ s → t = s

/-- The subsets in ranking order. -/
structure Ranking (order : List (List StudyPlanCandidate)) : Prop where
  ranked : order.Pairwise fun s t => (ranked s).key < (ranked t).key
  all : ∀ s, s ∈ order ↔ IsSubset candidates s

/-- Explored and unevaluated regions are disjoint, and a subset in neither is infeasible or contains
another repair. -/
structure RegionsExact (receipt : SearchReceipt) : Prop where
  disjoint : ∀ region ∈ receipt.explored, region ∉ receipt.unevaluated
  neither : ∀ s, IsSubset candidates s → subsetLabel (idsOf s) ∉ receipt.explored →
    subsetLabel (idsOf s) ∉ receipt.unevaluated → ¬Feasible s ∨
      ∃ t, IsSubset candidates t ∧ Repair d route catalog caps t ∧ t ⊆ s ∧ t ≠ s

/-- What a plan says of the universe. -/
structure PlanExact (plan : StudyPlan) : Prop where
  recorded : ∃ order, Ranking candidates order ∧
    plan.subsets.map (·.candidates) = order.map idsOf ∧
    (plan.stop = none → ∃ kept : List (List StudyPlanCandidate), kept.Sublist order ∧
      (∀ s, s ∈ kept ↔ MinimalRepair d route catalog caps candidates s) ∧
      plan.proposals.map (·.candidates) = kept.map idsOf)
  minimal : plan.minimal = true → ∃ top, plan.proposals.head? = some top ∧
    ∀ s, IsSubset candidates s → Repair d route catalog caps s → top.costUnits ≤ costOf s
  receipt : ∀ receipt, plan.stop = some (.budget receipt) →
    RegionsExact d route catalog caps candidates receipt

end Statement

variable {d : Decisions} {route : StudyPlanRoute} {catalog : EvidenceCatalog} {caps : PlanCaps}
  {candidates s t : List StudyPlanCandidate}

theorem infeasible_eq_none : infeasible s = none ↔ Feasible s := by
  unfold infeasible Feasible
  rw [List.findSome?_eq_none_iff]
  refine forall₂_congr fun c _ => ?_
  by_cases hr : c.requires.any (· ∉ idsOf s) = true
  · rw [if_pos hr]
    refine iff_of_false (fun h => by cases h) ?_
    rintro ⟨h, -⟩
    obtain ⟨r, hr, hn⟩ := List.any_eq_true.mp hr
    exact (of_decide_eq_true hn) (h r hr)
  · rw [if_neg hr]
    have hr : ∀ r ∈ c.requires, r ∈ idsOf s := by simpa using hr
    split_ifs with hc
    · refine iff_of_false (fun h => by cases h) ?_
      rintro ⟨-, h⟩
      obtain ⟨x, hx, hn⟩ := List.any_eq_true.mp hc
      exact h x hx (of_decide_eq_true hn)
    · have hc : ∀ x ∈ c.conflicts, x ∉ idsOf s := by simpa using hc
      exact iff_of_true rfl ⟨hr, hc⟩

theorem repair_iff : repair d route catalog caps (ranked s) = true ↔
    Repair d route catalog caps s := by
  rw [repair_eq_true, show (ranked s).members = s from rfl, infeasible_eq_none]
  have hident : identifies d route catalog caps (ranked s) = true ↔
      ∃ preview found, previewOf catalog s = .ok preview ∧
        d.decide route preview = .identified found ∧
        found.operations ≤ caps.decisionCap (subsetLabel (idsOf s)) route.decisionOperations ∧
        ∃ r ∈ found.cited, r ∈ (deltaOf s).proposedRegimes.map (·.id) := by
    unfold identifies
    rw [show (ranked s).members = s from rfl,
      show (ranked s).label = subsetLabel (idsOf s) from rfl]
    cases hp : previewOf catalog s with
    | error e => simp
    | ok preview =>
      dsimp only
      cases hd : d.decide route preview with
      | identified found =>
        dsimp only
        rw [Bool.and_eq_true, decide_eq_true_eq, List.any_eq_true]
        simp only [decide_eq_true_eq]
        constructor
        · rintro ⟨hcap, hcites⟩
          exact ⟨preview, found, rfl, hd, hcap, hcites⟩
        · rintro ⟨preview', found', hp', hd', hcap, hcites⟩
          cases hp'
          rw [hd] at hd'
          cases hd'
          exact ⟨hcap, hcites⟩
      | notIdentified code detail operations => simp [hd]
      | refused message => simp [hd]
  rw [hident]
  exact ⟨fun h => ⟨h.1, h.2⟩, fun h => ⟨h.1, h.2⟩⟩

/-! ## Validated candidates -/

/-- What validation says of the universe. -/
structure ValidUniverse (candidates : List StudyPlanCandidate) : Prop where
  ascending : candidates.Pairwise fun a b => a.id < b.id
  ids : ∀ c ∈ candidates, validId c.id = true
  costs : ∀ c ∈ candidates, 0 < c.costUnits

theorem foldlM_ok {ε α σ : Type} {f : σ → α → Except ε σ} : ∀ {l : List α} {s s' : σ},
    l.foldlM f s = .ok s' → ∀ a ∈ l, ∃ x y, f x a = .ok y
  | [], _, _, _, _, ha => absurd ha List.not_mem_nil
  | b :: l, s, s', h, a, ha => by
    rw [List.foldlM_cons] at h
    obtain ⟨y, hy, h⟩ := bind_ok h
    rcases List.mem_cons.mp ha with rfl | ha
    · exact ⟨s, y, hy⟩
    · exact foldlM_ok h a ha

theorem checkCandidate_ok {ids : List String} {seen seen' : SeenRegimes} {c : StudyPlanCandidate}
    (h : checkCandidate route catalog ids seen c = .ok seen') :
    validId c.id = true ∧ 0 < c.costUnits := by
  obtain ⟨hid, h⟩ := guard_ok h
  obtain ⟨hcost, -⟩ := guard_ok h
  refine ⟨by simpa using hid, Nat.pos_of_ne_zero fun h0 => hcost (Or.inl h0)⟩

theorem pairwise_byId (l : List StudyPlanCandidate) :
    (l.insertionSort fun a b => a.id ≤ b.id).Pairwise fun a b => a.id ≤ b.id :=
  List.pairwise_insertionSort (Order.Preimage StudyPlanCandidate.id (· ≤ ·)) l

variable {universe_ candidates' : List StudyPlanCandidate} {e : RankedSubset}

theorem validateCandidates_ok (h : validateCandidates route catalog candidates = .ok universe_) :
    universe_ = candidates.insertionSort (fun a b => a.id ≤ b.id) ∧
      universe_.Perm candidates ∧ ValidUniverse universe_ := by
  obtain ⟨-, h⟩ := guard_ok h
  dsimp only at h
  obtain ⟨hnd, h⟩ := guard_ok h
  obtain ⟨seen, hseen, h⟩ := bind_ok h
  cases h
  rw [not_not] at hnd
  have hchecked : ∀ c ∈ candidates.insertionSort (fun a b => a.id ≤ b.id),
      validId c.id = true ∧ 0 < c.costUnits := by
    intro c hc
    obtain ⟨x, y, hxy⟩ := foldlM_ok hseen c hc
    exact checkCandidate_ok hxy
  refine ⟨rfl, List.perm_insertionSort _ _, ?_, fun c hc => (hchecked c hc).1,
    fun c hc => (hchecked c hc).2⟩
  refine ((pairwise_byId candidates).and (List.pairwise_map.mp hnd)).imp ?_
  rintro a b ⟨hle, hne⟩
  exact lt_of_le_of_ne hle hne

theorem validateCandidates_perm (hp : candidates.Perm candidates')
    (h : validateCandidates route catalog candidates = .ok universe_) :
    validateCandidates route catalog candidates' = .ok universe_ := by
  obtain ⟨rfl, hu, hv⟩ := validateCandidates_ok h
  have hsame : candidates'.insertionSort (fun a b => a.id ≤ b.id) =
      candidates.insertionSort fun a b => a.id ≤ b.id := by
    refine List.Perm.eq_of_pairwise (fun a b ha hb hab hba => ?_) (pairwise_byId candidates')
      (pairwise_byId candidates) ?_
    · have ha : a ∈ candidates.insertionSort fun a b => a.id ≤ b.id :=
        hu.mem_iff.mpr (hp.mem_iff.mpr ((List.perm_insertionSort _ _).mem_iff.mp ha))
      have hnd : ((candidates.insertionSort fun a b => a.id ≤ b.id).map (·.id)).Nodup :=
        List.pairwise_map.mpr (hv.ascending.imp fun h => ne_of_lt h)
      exact List.inj_on_of_nodup_map hnd ha hb (le_antisymm hab hba)
    · exact (List.perm_insertionSort _ _).trans (hp.symm.trans (List.perm_insertionSort _ _).symm)
  unfold validateCandidates at h ⊢
  rw [hsame]
  have hempty : candidates'.isEmpty = candidates.isEmpty := by
    cases candidates with
    | nil => rw [List.nil_perm.mp hp]
    | cons c rest =>
      cases candidates' with
      | nil => exact absurd hp.length_eq (by simp)
      | cons => rfl
  rw [hempty]
  exact h

theorem ValidUniverse.nodup (hv : ValidUniverse candidates) : candidates.Nodup :=
  hv.ascending.imp fun h he => absurd (he ▸ h) (lt_irrefl _)

theorem ValidUniverse.sublist_ascending (hv : ValidUniverse candidates)
    (hs : s.Sublist candidates) : s.Pairwise fun a b => a.id < b.id := hv.ascending.sublist hs

/-! ## The ranking -/

theorem costOf_perm (h : s.Perm t) : costOf s = costOf t := (h.map _).sum_nat

theorem costOf_append : costOf (s ++ t) = costOf s + costOf t := by
  unfold costOf
  rw [List.map_append, List.sum_append]

section

variable (hv : ValidUniverse candidates) (hs : s.Sublist candidates) (ht : t.Sublist candidates)
  (hsub : s ⊆ t)

include hv hs ht hsub

/-- **A subset is cheaper than every other that contains it.** -/
theorem ValidUniverse.costOf_lt (hne : s ≠ t) : costOf s < costOf t := by
  obtain ⟨l, hperm, hl⟩ := List.subperm_of_subset (hv.nodup.sublist hs) hsub
  obtain ⟨r, hr⟩ := hl.exists_perm_append
  have hst : t.Perm (s ++ r) := hr.trans (hperm.append_right r)
  rw [costOf_perm hst, costOf_append]
  cases r with
  | nil =>
    rw [List.append_nil] at hst
    refine absurd ?_ hne
    exact hst.symm.eq_of_pairwise (fun _ _ _ _ hab hba => absurd hba (lt_asymm hab))
      (hv.sublist_ascending hs) (hv.sublist_ascending ht)
  | cons c r =>
    have hc : c ∈ candidates := ht.subset (hst.mem_iff.mpr (by simp))
    have hpos : 0 < costOf (c :: r) := by
      unfold costOf
      rw [List.map_cons, List.sum_cons]
      exact Nat.add_pos_left (hv.costs c hc) _
    omega

theorem ValidUniverse.costOf_le : costOf s ≤ costOf t := by
  by_cases he : s = t
  · rw [he]
  · exact (hv.costOf_lt hs ht hsub he).le

end

theorem key_lt_of_costOf (h : costOf s < costOf t) : (ranked s).key < (ranked t).key :=
  Prod.Lex.toLex_lt_toLex.mpr (Or.inl h)

theorem costOf_le_of_key (h : (ranked s).key ≤ (ranked t).key) : costOf s ≤ costOf t := by
  rcases Prod.Lex.toLex_le_toLex.mp h with h | h
  · exact h.le
  · exact h.1.le

theorem ValidUniverse.idsOf_inj (hv : ValidUniverse candidates) (hs : s.Sublist candidates)
    (ht : t.Sublist candidates) (h : idsOf s = idsOf t) : s = t := by
  have hnd : (candidates.map (·.id)).Nodup :=
    List.pairwise_map.mpr (hv.ascending.imp fun h => ne_of_lt h)
  refine Machine.eq_of_map_eq (fun a ha b hb he => ?_) h
  exact List.inj_on_of_nodup_map hnd (hs.subset ha) (ht.subset hb) he

theorem mem_studySubsets :
    e ∈ studySubsets candidates ↔ ∃ s, IsSubset candidates s ∧ ranked s = e := by
  unfold studySubsets
  rw [List.mem_insertionSort, List.mem_map]
  refine exists_congr fun s => ?_
  rw [mem_upTo]
  exact and_congr_left fun _ => ⟨fun h => ⟨h.1, h.2.1, h.2.2⟩, fun h => ⟨h.1, h.2, h.3⟩⟩

theorem ranked_members (h : e ∈ studySubsets candidates) : ranked e.members = e := by
  obtain ⟨s, -, rfl⟩ := mem_studySubsets.mp h
  rfl

theorem isSubset_members (h : e ∈ studySubsets candidates) :
    IsSubset candidates e.members := by
  obtain ⟨s, hs, rfl⟩ := mem_studySubsets.mp h
  exact hs

section

variable (hv : ValidUniverse candidates)

include hv

/-- **The subsets are ranked strictly.** -/
theorem studySubsets_ranked : (studySubsets candidates).Pairwise fun a b => a.key < b.key := by
  have hle : (studySubsets candidates).Pairwise fun a b => a.key ≤ b.key :=
    List.pairwise_insertionSort (Order.Preimage RankedSubset.key (· ≤ ·)) _
  have hnd : (studySubsets candidates).Nodup := by
    unfold studySubsets
    rw [(List.perm_insertionSort _ _).nodup_iff]
    exact (nodup_upTo hv.nodup).map fun s t h => congrArg RankedSubset.members h
  refine (hle.and hnd).imp_of_mem fun {a b} ha hb h => lt_of_le_of_ne h.1 fun he => h.2 ?_
  have hids : idsOf a.members = idsOf b.members :=
    congrArg (fun k => (ofLex (ofLex (ofLex k).2).2).2) he
  have := hv.idsOf_inj (isSubset_members ha).sublist (isSubset_members hb).sublist hids
  rw [← ranked_members ha, ← ranked_members hb, this]

/-- **No subset contains one that comes after it.** -/
theorem studySubsets_ranksUp : RanksUp (studySubsets candidates) := by
  refine (studySubsets_ranked hv).imp_of_mem fun {a b} ha hb hlt hbelow => ?_
  rw [← ranked_members ha, ← ranked_members hb] at hlt
  by_cases he : b.members = a.members
  · rw [he] at hlt
    exact lt_irrefl _ hlt
  · refine lt_asymm hlt (key_lt_of_costOf ?_)
    exact hv.costOf_lt (isSubset_members hb).sublist (isSubset_members ha).sublist hbelow he

theorem studySubsets_ranking : Ranking candidates ((studySubsets candidates).map (·.members)) where
  ranked := by
    rw [List.pairwise_map]
    refine (studySubsets_ranked hv).imp_of_mem fun {a b} ha hb h => ?_
    rwa [ranked_members ha, ranked_members hb]
  all := by
    intro s
    rw [List.mem_map]
    constructor
    · rintro ⟨e, he, rfl⟩
      exact isSubset_members he
    · exact fun hs => ⟨ranked s, mem_studySubsets.mpr ⟨s, hs, rfl⟩, rfl⟩

/-! ## Regions -/

end

theorem comma_not_mem {id : String} (h : validId id = true) : ',' ∉ id.toList := by
  intro hc
  unfold validId at h
  simp only [Bool.and_eq_true, List.all_eq_true] at h
  exact absurd (h.2 ',' hc) (by decide)

theorem subsetLabel_inj {a b : List String} (ha : ∀ id ∈ a, validId id = true)
    (hb : ∀ id ∈ b, validId id = true) (hane : a ≠ []) (hbne : b ≠ [])
    (h : subsetLabel a = subsetLabel b) : a = b := by
  have hl := congrArg String.toList h
  unfold subsetLabel at hl
  simp only [String.toList_append, String.toList_intercalate] at hl
  rw [List.append_left_inj, List.append_right_inj] at hl
  have hsplit : ∀ {l : List String}, (∀ id ∈ l, validId id = true) → l ≠ [] →
      (List.intercalate [','] (l.map String.toList)).splitOn ',' = l.map String.toList := by
    intro l hl hne
    refine List.splitOn_intercalate ',' (fun chars hc => ?_) (by simpa using hne)
    obtain ⟨id, hid, rfl⟩ := List.mem_map.mp hc
    exact comma_not_mem (hl id hid)
  have hmap : a.map String.toList = b.map String.toList := by
    rw [← hsplit ha hane, ← hsplit hb hbne]
    exact congrArg (List.splitOn ',') hl
  exact List.map_injective_iff.mpr (fun _ _ h => String.toList_inj.mp h) hmap

theorem toList_subsetLabel (ids : List String) :
    ∃ rest, (subsetLabel ids).toList = 's' :: 'u' :: rest := by
  unfold subsetLabel
  rw [String.append_assoc, String.toList_append,
    show "subset:[".toList = 's' :: 'u' :: "bset:[".toList from rfl]
  exact ⟨_, rfl⟩

theorem toList_region (r : Deferral) : ∃ rest, r.region.toList = 'm' :: rest := by
  unfold Deferral.region
  simp only [toString, String.toList_append, List.append_assoc]
  rw [show "multi:line10:source=".toList = 'm' :: "ulti:line10:source=".toList from rfl]
  exact ⟨_, rfl⟩

theorem base_ne_label (ids : List String) : "stage:base" ≠ subsetLabel ids := by
  intro h
  obtain ⟨rest, hrest⟩ := toList_subsetLabel ids
  rw [← h, show "stage:base".toList = 's' :: 't' :: "age:base".toList from rfl] at hrest
  have htail := (List.cons.inj hrest).2
  exact absurd (List.cons.inj htail).1 (by decide)

theorem region_not_plan (r : Deferral) :
    r.region ≠ "stage:base" ∧ ∀ ids, r.region ≠ subsetLabel ids := by
  obtain ⟨rest, hrest⟩ := toList_region r
  constructor
  · intro h
    rw [h, show "stage:base".toList = 's' :: "tage:base".toList from rfl] at hrest
    exact absurd (List.cons.inj hrest).1 (by decide)
  · intro ids h
    obtain ⟨rest', hrest'⟩ := toList_subsetLabel ids
    rw [← h, hrest] at hrest'
    exact absurd (List.cons.inj hrest').1 (by decide)

/-! ## What the loop leaves -/

section Ends

variable {st mid : PlanState} {settled left : List RankedSubset}
  (hv : ValidUniverse candidates) (ho : studySubsets candidates = settled ++ left)
  (hp : Progress d route catalog caps (studySubsets candidates) settled mid) (he : Ends mid left st)

include hp in
theorem Progress.recorded :
    mid.records.map (·.candidates) = settled.map fun e => idsOf e.members := by
  have hall := hp.records
  generalize mid.records = records at hall
  clear hp
  induction hall with
  | nil => rfl
  | cons hr _ ih =>
    rw [List.map_cons, List.map_cons, ih, hr]
    rfl

include ho hp he in
theorem Ends.recorded : st.records.map (·.candidates) =
    ((studySubsets candidates).map (·.members)).map idsOf := by
  rw [ho, List.map_map, List.map_append]
  cases he with
  | finished =>
    rw [hp.recorded, List.map_nil, List.append_nil]
    rfl
  | stopped hstop records proposals receipt =>
    rw [records, List.map_append, hp.recorded, List.map_map]
    rfl

include hv ho in
theorem settled_ranksUp : settled.Pairwise fun a b => ¬b.Below a :=
  (List.pairwise_append.mp (ho ▸ studySubsets_ranksUp hv)).1

variable {proposals : List StudyProposal}

/-- The proposals, without a stop, are those of the minimal repairs. -/
theorem Progress.proposed (l : List RankedSubset)
    (h : List.Forall₂ (fun entry p => ∃ found, p = proposal entry found) l proposals) :
    proposals.map (·.candidates) = l.map fun e => idsOf e.members := by
  induction h with
  | nil => rfl
  | cons hr _ ih =>
    obtain ⟨found, rfl⟩ := hr
    rw [List.map_cons, List.map_cons, ih]
    rfl

theorem mem_minimalRepairs : s ∈ (minimalRepairs d route catalog caps
    (studySubsets candidates)).map (·.members) ↔ MinimalRepair d route catalog caps candidates s := by
  rw [List.mem_map]
  constructor
  · rintro ⟨e, he, rfl⟩
    obtain ⟨he, hr, hleast⟩ := mem_minimalHits.mp he
    rw [← ranked_members he, repair_iff] at hr
    refine ⟨isSubset_members he, hr, fun t ht htr hsub => ?_⟩
    have := hleast (ranked t) (mem_studySubsets.mpr ⟨t, ht, rfl⟩) (repair_iff.mpr htr) hsub
    rw [← this]
    rfl
  · intro h
    refine ⟨ranked s, mem_minimalHits.mpr ⟨mem_studySubsets.mpr ⟨s, h.subset, rfl⟩,
      repair_iff.mpr h.repair, fun e he hr hbelow => ?_⟩, rfl⟩
    rw [← ranked_members he] at hr ⊢
    rw [h.least e.members (isSubset_members he) (repair_iff.mp hr) hbelow]

include hp he ho in
/-- **The proposals of a plan that is not stopped are the minimal repairs, in ranking order.** -/
theorem Ends.proposed (hstop : st.stop = none) :
    ∃ kept : List (List StudyPlanCandidate), kept.Sublist ((studySubsets candidates).map (·.members)) ∧
      (∀ s, s ∈ kept ↔ MinimalRepair d route catalog caps candidates s) ∧
      st.proposals.map (·.candidates) = kept.map idsOf := by
  cases he with
  | stopped h => 
    rw [h] at hstop
    cases hstop
  | finished =>
    rw [List.append_nil] at ho
    subst ho
    refine ⟨(minimalRepairs d route catalog caps (studySubsets candidates)).map (·.members),
      List.filter_sublist.map _, fun s => mem_minimalRepairs, ?_⟩
    rw [Progress.proposed _ hp.proposals, List.map_map]
    rfl

theorem head_cheapest {l : List RankedSubset} {top : StudyProposal}
    (hall : List.Forall₂ (fun entry p => ∃ found, p = proposal entry found) l proposals)
    (hranked : l.Pairwise fun a b => a.key < b.key) (hl : ∀ e ∈ l, ranked e.members = e)
    (htop : proposals.head? = some top) : ∀ m ∈ l, top.costUnits ≤ costOf m.members := by
  intro m hm
  cases hall with
  | nil => cases htop
  | @cons first p rest ps hfirst _ =>
    obtain ⟨found, rfl⟩ := hfirst
    cases htop
    have hself : (proposal first found).costUnits = costOf first.members :=
      congrArg RankedSubset.costUnits (hl first List.mem_cons_self).symm
    rw [hself]
    rcases List.mem_cons.mp hm with rfl | hm'
    · exact le_refl _
    · have hlt := (List.pairwise_cons.mp hranked).1 m hm'
      rw [← hl first List.mem_cons_self, ← hl m hm] at hlt
      exact costOf_le_of_key hlt.le

include hv ho hp he in
/-- **A plan that claims a minimal cost has one**, whatever stopped it. -/
theorem Ends.minimal (hm : certifiedMinimal st.records st.proposals.head? = true) :
    ∃ top, st.proposals.head? = some top ∧
      ∀ s, IsSubset candidates s → Repair d route catalog caps s → top.costUnits ≤ costOf s := by
  unfold certifiedMinimal at hm
  cases htop : st.proposals.head? with
  | none =>
    rw [htop] at hm
    cases hm
  | some top =>
    rw [htop] at hm
    refine ⟨top, rfl, fun s hs hr => ?_⟩
    have hproposals : st.proposals = mid.proposals := by
      cases he with
      | finished => rfl
      | stopped _ _ hproposals _ => exact hproposals
    have hall := hp.proposals
    rw [hproposals] at htop
    have hmem : ranked s ∈ settled ++ left := ho ▸ mem_studySubsets.mpr ⟨s, hs, rfl⟩
    rcases List.mem_append.mp hmem with hmem | hmem
    · obtain ⟨m, hm', hbelow⟩ := exists_minimalHit RankedSubset.Below.refl RankedSubset.Below.trans
        (settled_ranksUp hv ho) hmem (repair_iff.mpr hr)
      have hmsub : m ∈ studySubsets candidates := ho ▸ List.mem_append_left _ (mem_minimalHits.mp hm').1
      have hms : costOf m.members ≤ costOf s :=
        hv.costOf_le (isSubset_members hmsub).sublist hs.sublist hbelow
      refine le_trans ?_ hms
      -- the top proposal is the first of the minimal repairs, which are ranked
      have hmem : ∀ e ∈ minimalRepairs d route catalog caps settled, e ∈ studySubsets candidates :=
        fun e he => ho ▸ List.mem_append_left _ (mem_minimalHits.mp he).1
      refine head_cheapest hp.proposals ?_ (fun e he => ranked_members (hmem e he)) htop m hm'
      have hall : (settled ++ left).Pairwise fun a b => a.key < b.key := ho ▸ studySubsets_ranked hv
      exact (List.pairwise_append.mp hall).1.sublist List.filter_sublist
    · cases he with
      | finished => exact absurd hmem List.not_mem_nil
      | stopped hstop records proposals receipt =>
        by_contra hlt
        have hrecord : (ranked s).record .unevaluated ∈
            st.records.filter (·.costUnits < top.costUnits) := by
          refine List.mem_filter.mpr ⟨?_, decide_eq_true (Nat.lt_of_not_le hlt)⟩
          rw [records]
          exact List.mem_append_right _ (List.mem_map_of_mem hmem)
        have := List.all_eq_true.mp hm _ hrecord
        cases this

theorem valid_idsOf (hv : ValidUniverse candidates) (hs : IsSubset candidates s) :
    (∀ id ∈ idsOf s, validId id = true) ∧ idsOf s ≠ [] := by
  refine ⟨fun id hid => ?_, fun h => hs.nonempty (List.map_eq_nil_iff.mp h)⟩
  obtain ⟨c, hc, rfl⟩ := List.mem_map.mp hid
  exact hv.ids c (hs.sublist.subset hc)

theorem label_inj (hv : ValidUniverse candidates) {a b : RankedSubset}
    (ha : a ∈ studySubsets candidates) (hb : b ∈ studySubsets candidates) (h : a.label = b.label) : a = b := by
  obtain ⟨hva, hna⟩ := valid_idsOf hv (isSubset_members ha)
  obtain ⟨hvb, hnb⟩ := valid_idsOf hv (isSubset_members hb)
  have hids := subsetLabel_inj hva hvb hna hnb h
  rw [← ranked_members ha, ← ranked_members hb,
    hv.idsOf_inj (isSubset_members ha).sublist (isSubset_members hb).sublist hids]

theorem neither_of_not_evaluated {order : List RankedSubset}
    (hsub : ∀ e ∈ order, e ∈ studySubsets candidates)
    (h : evaluated d route catalog caps order (ranked s) = false) : ¬Feasible s ∨
      ∃ t, IsSubset candidates t ∧ Repair d route catalog caps t ∧ t ⊆ s ∧ t ≠ s := by
  unfold evaluated at h
  rw [Bool.and_eq_false_iff, show (ranked s).members = s from rfl] at h
  rcases h with h | h
  · refine Or.inl fun hf => ?_
    rw [infeasible_eq_none.mpr hf] at h
    cases h
  · refine Or.inr ?_
    rw [Bool.not_eq_false'] at h
    unfold dominated at h
    obtain ⟨b, hb, h⟩ := List.any_eq_true.mp h
    simp only [Bool.and_eq_true, decide_eq_true_eq] at h
    obtain ⟨⟨hr, hbelow⟩, hne⟩ := h
    rw [← ranked_members (hsub b hb)] at hr hne
    exact ⟨b.members, isSubset_members (hsub b hb), repair_iff.mp hr, hbelow,
      fun he => hne (congrArg ranked he)⟩

include hv ho hp he in
/-- **The receipt of a stop tells the regions apart.** -/
theorem Ends.regions {receipt : SearchReceipt} (hstop : st.stop = some (.budget receipt)) :
    RegionsExact d route catalog caps candidates receipt := by
  cases he with
  | finished =>
    rw [hp.going] at hstop
    cases hstop
  | @stopped entry rest _ stop hs records proposals hreceipt =>
    rw [hs] at hstop
    cases hstop
    obtain ⟨hexplored, deferred, hunevaluated⟩ := hreceipt receipt rfl
    rw [hp.explored] at hexplored
    have hcross : ∀ a ∈ settled, ∀ b ∈ entry :: rest, a ≠ b := by
      have hall : (settled ++ entry :: rest).Pairwise fun a b => a.key < b.key :=
        ho ▸ studySubsets_ranked hv
      intro a ha b hb hab
      exact lt_irrefl _ (hab ▸ (List.pairwise_append.mp hall).2.2 a ha b hb)
    refine ⟨fun region hr hu => ?_, fun s hs hne hnu => ?_⟩
    · rw [hexplored] at hr
      rw [hunevaluated] at hu
      rcases List.mem_cons.mp hr with rfl | hr
      · rcases List.mem_append.mp hu with hu | hu
        · obtain ⟨e, -, hl⟩ := List.mem_map.mp hu
          exact base_ne_label _ hl.symm
        · obtain ⟨r, -, hl⟩ := List.mem_map.mp hu
          exact (region_not_plan r).1 hl
      · obtain ⟨a, ha, rfl⟩ := List.mem_map.mp hr
        have ha := (List.mem_filter.mp ha).1
        rcases List.mem_append.mp hu with hu | hu
        · obtain ⟨b, hb, hl⟩ := List.mem_map.mp hu
          refine hcross a ha b hb (label_inj hv ?_ ?_ hl.symm)
          · exact ho ▸ List.mem_append_left _ ha
          · exact ho ▸ List.mem_append_right _ hb
        · obtain ⟨r, -, hl⟩ := List.mem_map.mp hu
          exact (region_not_plan r).2 _ hl
    · have hmem : ranked s ∈ settled ++ entry :: rest := ho ▸ mem_studySubsets.mpr ⟨s, hs, rfl⟩
      rcases List.mem_append.mp hmem with hmem | hmem
      · refine neither_of_not_evaluated (fun e he => he) ?_
        by_contra hev
        refine hne ?_
        rw [hexplored]
        refine List.mem_cons_of_mem _ (List.mem_map.mpr ⟨ranked s, ?_, rfl⟩)
        exact List.mem_filter.mpr ⟨hmem, by simpa using hev⟩
      · refine absurd ?_ hnu
        rw [hunevaluated]
        exact List.mem_append_left _ (List.mem_map.mpr ⟨ranked s, hmem, rfl⟩)

end Ends

/-! ## The plan -/

def startState (search : SharedSearch) : PlanState :=
  ⟨[], [], [], ["stage:base"], none, search.peakBytes, search⟩

theorem startState_progress (order : List RankedSubset) (search : SharedSearch) :
    Progress d route catalog caps order [] (startState search) :=
  ⟨rfl, .nil, rfl, .nil, rfl⟩

variable {limits : StudyPlanLimits} {ctx : ExecutionContext} {checks : Nat} {plan : StudyPlan}

theorem planWithCaps_ok
    (h : planWithCaps d route catalog candidates limits ctx checks caps = .ok plan) :
    ∃ universe_ search st, validateCandidates route.canonical catalog candidates = .ok universe_ ∧
      planLoop d route.canonical catalog caps (studySubsets universe_) (startState search) = .ok st ∧
      plan.subsets = st.records ∧ plan.proposals = st.proposals ∧ plan.stop = st.stop ∧
      plan.minimal = certifiedMinimal st.records st.proposals.head? := by
  obtain ⟨_, -, h⟩ := bind_ok h
  dsimp only at h
  cases hcat : catalog.validate with
  | error e =>
    rw [hcat] at h
    cases h
  | ok _ =>
    rw [hcat] at h
    obtain ⟨_, -, h⟩ := bind_ok h
    obtain ⟨universe_, hu, h⟩ := bind_ok h
    cases hb : SearchBudget.withMemory limits.search limits.memoryLimitBytes ctx checks with
    | error stop =>
      rw [hb] at h
      cases h
    | ok budget =>
      rw [hb] at h
      dsimp only at h
      rcases hbase : d.base route.canonical catalog ((SharedSearch.new budget).begin 0) with
        ⟨search, (code | stop) | failure⟩
      · rw [hbase] at h
        cases h
      · rw [hbase] at h
        cases h
      · rw [hbase] at h
        obtain ⟨st, hst, h⟩ := bind_ok h
        cases h
        exact ⟨universe_, search, st, hu, hst, rfl, rfl, rfl, rfl⟩

theorem planWithCaps_receipt {refusal : StudyPlanRefusal} {receipt : SearchReceipt}
    (h : planWithCaps d route catalog candidates limits ctx checks caps = .error refusal)
    (hr : refusal.receipt = some receipt) :
    ∃ universe_, validateCandidates route.canonical catalog candidates = .ok universe_ ∧
      receipt.explored = [] ∧ ∀ e ∈ studySubsets universe_, e.label ∈ receipt.unevaluated := by
  have hplain : ∀ {α : Type} {x : Except StudyPlanRefusal α}, Plain x → x ≠ .error refusal := by
    intro α x hx he
    rw [hx refusal he] at hr
    cases hr
  have hpeel : ∀ {α β : Type} {x : Except StudyPlanRefusal α}
      {f : α → Except StudyPlanRefusal β}, Plain x → (x >>= f) = .error refusal →
        ∃ a, x = .ok a ∧ f a = .error refusal := by
    intro α β x f hx he
    cases x with
    | error e =>
      cases he
      exact absurd rfl (hplain hx)
    | ok a => exact ⟨a, rfl, he⟩
  obtain ⟨_, -, h⟩ := hpeel (plain_checkBounds limits route _) h
  dsimp only at h
  cases hcat : catalog.validate with
  | error e =>
    rw [hcat] at h
    cases h
    cases hr
  | ok _ =>
    rw [hcat] at h
    obtain ⟨_, -, h⟩ := hpeel (plain_requireBaseLineage catalog) h
    obtain ⟨universe_, hu, h⟩ := hpeel (plain_validateCandidates _ catalog candidates) h
    have hall : ∀ e ∈ studySubsets universe_, e.label ∈ allRegions (studySubsets universe_) := fun e he =>
      List.mem_cons_of_mem _ (List.mem_map_of_mem he)
    refine ⟨universe_, hu, ?_⟩
    cases hb : SearchBudget.withMemory limits.search limits.memoryLimitBytes ctx checks with
    | error stop =>
      rw [hb] at h
      cases h
      cases hr
      exact ⟨rfl, hall⟩
    | ok budget =>
      rw [hb] at h
      dsimp only at h
      rcases hbase : d.base route.canonical catalog ((SharedSearch.new budget).begin 0) with
        ⟨search, (code | stop) | failure⟩
      · rw [hbase] at h
        cases h
        cases hr
      · rw [hbase] at h
        cases h
        cases hr
        exact ⟨rfl, fun e he => List.mem_append_left _ (hall e he)⟩
      · rw [hbase] at h
        obtain ⟨st, -, h⟩ := hpeel (plain_planLoop d route.canonical catalog caps _ _) h
        cases h

theorem planExact_of_ok (hu : validateCandidates route.canonical catalog candidates = .ok universe_)
    (h : planWithCaps d route catalog candidates limits ctx checks caps = .ok plan) :
    PlanExact d route.canonical catalog caps universe_ plan := by
  obtain ⟨u, search, st, hu', hloop, hsubsets, hproposals, hstop, hminimal⟩ := planWithCaps_ok h
  rw [hu] at hu'
  cases hu'
  have hv := (validateCandidates_ok hu).2.2
  obtain ⟨settled, left, mid, ho, hp, he⟩ :=
    planLoop_ends (studySubsets_ranksUp hv) rfl (startState_progress _ search) hloop
  refine ⟨⟨_, studySubsets_ranking hv, ?_, fun hs => ?_⟩, fun hm => ?_, fun receipt hs => ?_⟩
  · rw [hsubsets]
    exact he.recorded ho hp
  · rw [hproposals]
    exact he.proposed ho hp (hstop ▸ hs)
  · rw [hproposals]
    exact he.minimal hv ho hp (hminimal ▸ hm)
  · exact he.regions hv ho hp (hstop ▸ hs)

theorem checkBounds_perm {counts counts' : List Nat} (hp : counts.Perm counts')
    (h : limits.checkBounds route counts = .ok ()) : limits.checkBounds route counts' = .ok () := by
  unfold StudyPlanLimits.checkBounds at h ⊢
  obtain ⟨hlimits, h⟩ := guard_ok h
  obtain ⟨hlength, h⟩ := guard_ok h
  rw [if_neg hlimits, if_neg (hp.length_eq ▸ hlength)]
  cases hfind : counts.find? (· > studyPlanMaxRegimesPerCandidate) with
  | some count =>
    rw [hfind] at h
    cases h
  | none =>
    have hnone : counts'.find? (· > studyPlanMaxRegimesPerCandidate) = none := by
      rw [List.find?_eq_none] at hfind ⊢
      exact fun n hn => hfind n (hp.mem_iff.mpr hn)
    rw [hnone]

/-- **Permuting the candidates changes nothing in the plan.** -/
theorem planWithCaps_perm (hp : candidates.Perm candidates')
    (h : planWithCaps d route catalog candidates limits ctx checks caps = .ok plan) :
    planWithCaps d route catalog candidates' limits ctx checks caps = .ok plan := by
  have hbounds : limits.checkBounds route (candidates.map (·.delta.proposedRegimes.length)) =
      .ok () := by
    obtain ⟨_, hb, -⟩ := bind_ok h
    exact hb
  obtain ⟨universe_, -, -, hu, -⟩ := planWithCaps_ok h
  unfold planWithCaps at h ⊢
  dsimp only at h ⊢
  rw [hbounds, hu] at h
  rw [checkBounds_perm (hp.map _) hbounds, validateCandidates_perm hp hu]
  exact h

/-- **The proposals are the minimal repairs.** For every plan of a validated universe, every subset
has one record, the proposals of a plan that is not stopped are the minimal repairs in ranking
order, a minimal cost is claimed only where no repair is cheaper, and a receipt tells explored and
unevaluated subsets apart; and the plan does not depend on the order of the candidates. -/
theorem studyPlan_exact (d : Decisions) (route : StudyPlanRoute) (catalog : EvidenceCatalog)
    (candidates : List StudyPlanCandidate) (limits : StudyPlanLimits) (ctx : ExecutionContext)
    (checks : Nat) (caps : PlanCaps) :
    (∀ plan, planWithCaps d route catalog candidates limits ctx checks caps = .ok plan →
      ∃ universe_, universe_.Perm candidates ∧ ValidUniverse universe_ ∧
        PlanExact d route.canonical catalog caps universe_ plan) ∧
    (∀ refusal receipt, planWithCaps d route catalog candidates limits ctx checks caps =
        .error refusal → refusal.receipt = some receipt →
      ∃ universe_, universe_.Perm candidates ∧ ValidUniverse universe_ ∧
        RegionsExact d route.canonical catalog caps universe_ receipt) ∧
    ∀ candidates', candidates.Perm candidates' → ∀ plan,
      planWithCaps d route catalog candidates limits ctx checks caps = .ok plan ↔
        planWithCaps d route catalog candidates' limits ctx checks caps = .ok plan := by
  refine ⟨fun plan h => ?_, fun refusal receipt h hr => ?_, fun candidates' hp plan => ?_⟩
  · obtain ⟨universe_, -, -, hu, -⟩ := planWithCaps_ok h
    obtain ⟨-, hperm, hv⟩ := validateCandidates_ok hu
    exact ⟨universe_, hperm, hv, planExact_of_ok hu h⟩
  · obtain ⟨universe_, hu, hexplored, hall⟩ := planWithCaps_receipt h hr
    obtain ⟨-, hperm, hv⟩ := validateCandidates_ok hu
    refine ⟨universe_, hperm, hv, fun region hr => ?_, fun s hs _ hnot => ?_⟩
    · rw [hexplored] at hr
      exact absurd hr List.not_mem_nil
    · exact absurd (hall (ranked s) (mem_studySubsets.mpr ⟨s, hs, rfl⟩)) hnot
  · exact ⟨planWithCaps_perm hp, planWithCaps_perm hp.symm⟩

end Antecedent.Identify
