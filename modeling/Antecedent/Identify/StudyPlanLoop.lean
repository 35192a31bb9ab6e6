import Antecedent.Identify.StudyPlan

/-!
# What a run of the planner settles

A repair is a feasible subset whose decision identifies within its operation cap and cites a regime
the subset proposes. `turn_progress` says what one turn does that is not stopped: the proposals are
the minimal repairs so far, and what was explored are the subsets that are neither infeasible nor
dominated. `planLoop_ends` says what the whole loop leaves: such a state of all the subsets, or of
those before the one where the plan was stopped.
-/

namespace Antecedent.Identify

open Core
open MinimalHits

def RankedSubset.Below (a b : RankedSubset) : Prop := ∀ c ∈ a.members, c ∈ b.members

instance : DecidableRel RankedSubset.Below := fun a b => by
  unfold RankedSubset.Below
  exact inferInstance

theorem RankedSubset.Below.refl (a : RankedSubset) : a.Below a := fun _ h => h

theorem RankedSubset.Below.trans (a b c : RankedSubset) (hab : a.Below b) (hbc : b.Below c) :
    a.Below c := fun x h => hbc x (hab x h)

section Plan

variable (d : Decisions) (route : StudyPlanRoute) (catalog : EvidenceCatalog) (caps : PlanCaps)

/-- The decision on the preview of the subset identifies, within the cap and citing a regime that
the subset proposes. -/
def identifies (entry : RankedSubset) : Bool :=
  match previewOf catalog entry.members with
  | .error _ => false
  | .ok preview =>
    match d.decide route preview with
    | .identified found =>
      found.operations ≤ caps.decisionCap entry.label route.decisionOperations &&
        found.cited.any (· ∈ (deltaOf entry.members).proposedRegimes.map (·.id))
    | _ => false

/-- A feasible subset whose decision identifies. -/
def repair (entry : RankedSubset) : Bool :=
  (infeasible entry.members).isNone && identifies d route catalog caps entry

/-- The subset contains another one that is a repair. -/
def dominated (order : List RankedSubset) (entry : RankedSubset) : Bool :=
  order.any fun b => repair d route catalog caps b && decide (b.Below entry) && decide (b ≠ entry)

/-- Neither infeasible nor dominated. -/
def evaluated (order : List RankedSubset) (entry : RankedSubset) : Bool :=
  (infeasible entry.members).isNone && !dominated d route catalog caps order entry

def minimalRepairs (l : List RankedSubset) : List RankedSubset :=
  minimalHits RankedSubset.Below (repair d route catalog caps) l

def RanksUp (order : List RankedSubset) : Prop := order.Pairwise fun a b => ¬b.Below a

/-- A state that nothing stopped, after the subsets `before` of `order`. -/
structure Progress (order before : List RankedSubset) (st : PlanState) : Prop where
  going : st.stop = none
  records : List.Forall₂ (fun entry r => r = entry.record r.outcome) before st.records
  sufficient : st.sufficient = (minimalRepairs d route catalog caps before).map (·.members)
  proposals : List.Forall₂ (fun entry p => ∃ found, p = proposal entry found)
    (minimalRepairs d route catalog caps before) st.proposals
  explored : st.explored =
    "stage:base" :: (before.filter (evaluated d route catalog caps order)).map RankedSubset.label

/-- The state `st'` that a plan ends in, where `mid` was reached without a stop and `after` are the
subsets left. -/
inductive Ends (mid : PlanState) : List RankedSubset → PlanState → Prop
  | finished : Ends mid [] mid
  | stopped {entry : RankedSubset} {rest : List RankedSubset} {st' : PlanState}
      {stop : StudyPlanStop} (hstop : st'.stop = some stop)
      (records : st'.records = mid.records ++ (entry :: rest).map (·.record .unevaluated))
      (proposals : st'.proposals = mid.proposals)
      (receipt : ∀ receipt, stop = .budget receipt → receipt.explored = mid.explored ∧
        ∃ deferred : List Deferral, receipt.unevaluated =
          (entry :: rest).map RankedSubset.label ++ deferred.map (·.region)) :
      Ends mid (entry :: rest) st'

variable {d route catalog caps} {order before rest : List RankedSubset} {entry : RankedSubset}
  {st st' mid : PlanState}

/-! ## One turn -/

theorem repair_eq_true : repair d route catalog caps entry = true ↔
    infeasible entry.members = none ∧ identifies d route catalog caps entry = true := by
  unfold repair
  rw [Bool.and_eq_true, Option.isNone_iff_eq_none]

theorem dominated_iff (hup : RanksUp order) (ho : order = before ++ entry :: rest) :
    dominated d route catalog caps order entry = true ↔
      ∃ m ∈ minimalRepairs d route catalog caps before, m.Below entry := by
  subst ho
  obtain ⟨hbefore, hafter, hcross⟩ := List.pairwise_append.mp hup
  obtain ⟨hrest, -⟩ := List.pairwise_cons.mp hafter
  unfold minimalRepairs
  rw [exists_minimalHit_iff RankedSubset.Below.refl RankedSubset.Below.trans hbefore]
  unfold dominated
  rw [List.any_eq_true]
  simp only [Bool.and_eq_true, decide_eq_true_eq]
  constructor
  · rintro ⟨b, hb, ⟨hrepair, hbelow⟩, hne⟩
    rcases List.mem_append.mp hb with hb | hb
    · exact ⟨b, hb, hrepair, hbelow⟩
    · rcases List.mem_cons.mp hb with rfl | hb
      · exact absurd rfl hne
      · exact absurd hbelow (hrest b hb)
  · rintro ⟨b, hb, hrepair, hbelow⟩
    refine ⟨b, List.mem_append_left _ hb, ⟨hrepair, hbelow⟩, fun he => ?_⟩
    exact hcross b hb entry List.mem_cons_self (he ▸ RankedSubset.Below.refl b)

theorem RanksUp.concat (hup : RanksUp order) (ho : order = before ++ entry :: rest) :
    RanksUp (before ++ [entry]) := by
  rw [ho] at hup
  exact hup.sublist ((List.Sublist.refl before).append
    (List.singleton_sublist.mpr List.mem_cons_self))

section

variable (hp : Progress d route catalog caps order before st) (hup : RanksUp order)
  {outcome : StudySubsetOutcome}
  (ho : order = before ++ entry :: rest)

include hp hup ho

/-- What one more settled subset adds, when it is no new minimal repair. -/
theorem Progress.pass
    (hpass : repair d route catalog caps entry = true → dominated d route catalog caps order entry)
    (hstop : st'.stop = none)
    (hrecords : st'.records = st.records ++ [entry.record outcome])
    (hsufficient : st'.sufficient = st.sufficient) (hproposals : st'.proposals = st.proposals)
    (hexplored : st'.explored = st.explored ++ if evaluated d route catalog caps order entry then [entry.label] else []) :
    Progress d route catalog caps order (before ++ [entry]) st' := by
  have hmin : minimalRepairs d route catalog caps (before ++ [entry]) =
      minimalRepairs d route catalog caps before :=
    minimalHits_concat_pass RankedSubset.Below.refl (hup.concat ho) fun hr =>
      (dominated_iff hup ho).mp (hpass hr)
  refine ⟨hstop, ?_, ?_, ?_, ?_⟩
  · rw [hrecords]
    exact List.rel_append hp.records (.cons rfl .nil)
  · rw [hsufficient, hmin, hp.sufficient]
  · rw [hproposals, hmin]
    exact hp.proposals
  · rw [hexplored, hp.explored, List.filter_append, List.map_append, List.cons_append]
    split_ifs with he
    · rw [List.filter_cons_of_pos he]
      rfl
    · rw [List.filter_cons_of_neg he]
      rfl

/-- What one more settled subset adds, when it is a repair that contains no other. -/
theorem Progress.keep (hr : repair d route catalog caps entry = true)
    (hd : ¬dominated d route catalog caps order entry = true) (hstop : st'.stop = none)
    {found : PreviewFound}
    (hrecords : st'.records = st.records ++ [entry.record outcome])
    (hsufficient : st'.sufficient = st.sufficient ++ [entry.members])
    (hproposals : st'.proposals = st.proposals ++ [proposal entry found])
    (hexplored : st'.explored = st.explored ++ [entry.label]) :
    Progress d route catalog caps order (before ++ [entry]) st' := by
  have hmin : minimalRepairs d route catalog caps (before ++ [entry]) =
      minimalRepairs d route catalog caps before ++ [entry] :=
    minimalHits_concat_hit RankedSubset.Below.refl (hup.concat ho) hr
      (fun hex => hd ((dominated_iff hup ho).mpr hex)) RankedSubset.Below.trans
  have he : evaluated d route catalog caps order entry = true := by
    unfold evaluated
    rw [(repair_eq_true.mp hr).1]
    simpa using hd
  refine ⟨hstop, ?_, ?_, ?_, ?_⟩
  · rw [hrecords]
    exact List.rel_append hp.records (.cons rfl .nil)
  · rw [hsufficient, hmin, hp.sufficient, List.map_append]
    rfl
  · rw [hproposals, hmin]
    exact List.rel_append hp.proposals (.cons ⟨found, rfl⟩ .nil)
  · rw [hexplored, hp.explored, List.filter_append, List.map_append, List.cons_append,
      List.filter_cons_of_pos he]
    rfl

theorem Progress.decided (hf : infeasible entry.members = none)
    (hd : ¬dominated d route catalog caps order entry = true) {preview : EvidenceCatalog}
    (hpreview : previewOf catalog entry.members = .ok preview) (search : SharedSearch) :
    Progress d route catalog caps order (before ++ [entry])
      ({ st with search := search }.decided entry
        (caps.decisionCap entry.label route.decisionOperations) (d.decide route preview)) := by
  have he : evaluated d route catalog caps order entry = true := by
    unfold evaluated
    rw [hf]
    simpa using hd
  have hrepair : repair d route catalog caps entry = identifies d route catalog caps entry := by
    unfold repair
    rw [hf]
    rfl
  have hpass : identifies d route catalog caps entry = false → ∀ outcome,
      Progress d route catalog caps order (before ++ [entry])
        ({ { st with search := search } with explored := st.explored ++ [entry.label] }.settle entry
          outcome) := by
    intro hno outcome
    refine hp.pass hup ho (fun hr => ?_) hp.going rfl rfl rfl ?_
    · rw [hrepair, hno] at hr
      cases hr
    · rw [if_pos he]
      rfl
  have hident : identifies d route catalog caps entry = match d.decide route preview with
      | .identified found =>
        found.operations ≤ caps.decisionCap entry.label route.decisionOperations &&
          found.cited.any (· ∈ (deltaOf entry.members).proposedRegimes.map (·.id))
      | _ => false := by
    unfold identifies
    rw [hpreview]
  unfold PlanState.decided
  cases hdec : d.decide route preview with
  | identified found =>
    rw [hdec] at hident
    dsimp only at hident ⊢
    unfold classifyIdentified
    by_cases hcap : found.operations > caps.decisionCap entry.label route.decisionOperations
    · rw [if_pos hcap]
      refine hpass ?_ _
      rw [hident, decide_eq_false (Nat.not_le.mpr hcap)]
      rfl
    · rw [if_neg hcap]
      split_ifs with hcites
      · refine hp.keep hup ho ?_ hd hp.going rfl rfl rfl rfl
        rw [hrepair, hident, hcites, decide_eq_true (Nat.not_lt.mp hcap)]
        rfl
      · refine hpass ?_ _
        rw [hident, Bool.eq_false_iff.mpr hcites, Bool.and_false]
  | notIdentified code detail operations =>
    rw [hdec] at hident
    exact hpass hident _
  | refused message =>
    rw [hdec] at hident
    exact hpass hident _

/-- **One turn**: it settles the subset, or stops the plan there. -/
theorem turn_progress (h : st.turn d route catalog caps entry rest = .ok st') :
    Progress d route catalog caps order (before ++ [entry]) st' ∨
      ∃ stop, st'.stop = some stop ∧ st'.records = st.records ++ [entry.record .unevaluated] ∧
        st'.proposals = st.proposals ∧ ∀ receipt, stop = .budget receipt →
          receipt.explored = st.explored ∧ ∃ deferred : List Deferral, receipt.unevaluated =
            (entry :: rest).map RankedSubset.label ++ deferred.map (·.region) := by
  unfold PlanState.turn at h
  rw [hp.going] at h
  dsimp only [Option.isSome_none] at h
  rw [if_neg Bool.false_ne_true] at h
  cases hf : infeasible entry.members with
  | some reason =>
    rw [hf] at h
    cases h
    have hno : repair d route catalog caps entry = true → dominated d route catalog caps order entry := by
      intro hr
      rw [(repair_eq_true.mp hr).1] at hf
      cases hf
    refine Or.inl (hp.pass hup ho hno hp.going rfl rfl rfl ?_)
    unfold evaluated
    rw [hf]
    exact (List.append_nil _).symm
  | none =>
    rw [hf] at h
    dsimp only at h
    cases hfind : st.sufficient.find? fun s => s.all (· ∈ entry.members) with
    | some by_ =>
      rw [hfind] at h
      cases h
      have hdom : dominated d route catalog caps order entry = true := by
        refine (dominated_iff hup ho).mpr ?_
        have hmem := List.mem_of_find?_eq_some hfind
        have hall := List.find?_some hfind
        rw [hp.sufficient] at hmem
        obtain ⟨m, hm, rfl⟩ := List.mem_map.mp hmem
        refine ⟨m, hm, fun c hc => ?_⟩
        simpa using List.all_eq_true.mp hall c hc
      refine Or.inl (hp.pass hup ho (fun _ => hdom) hp.going rfl rfl rfl ?_)
      unfold evaluated
      rw [hdom, Bool.not_true, Bool.and_false]
      exact (List.append_nil _).symm
    | none =>
      rw [hfind] at h
      dsimp only at h
      have hd : ¬dominated d route catalog caps order entry = true := by
        intro hdom
        obtain ⟨m, hm, hbelow⟩ := (dominated_iff hup ho).mp hdom
        refine List.find?_eq_none.mp hfind m.members ?_ (List.all_eq_true.mpr fun c hc => ?_)
        · rw [hp.sufficient]
          exact List.mem_map_of_mem hm
        · simpa using hbelow c hc
      split_ifs at h with hcap
      · cases h
        exact Or.inr ⟨.proposalCap, rfl, rfl, rfl, fun receipt he => by cases he⟩
      · unfold PlanState.evaluate at h
        cases hpreview : previewOf catalog entry.members with
        | error e =>
          rw [hpreview] at h
          cases h
        | ok preview =>
          rw [hpreview] at h
          dsimp only at h
          rcases hcharge : (st.search.begin st.retained).charge 1 (previewBytes preview) with
            ⟨search, _ | stop⟩
          · rw [hcharge] at h
            dsimp only at h
            rcases hspend : d.spend route preview search with ⟨search', _ | stop⟩
            · rw [hspend] at h
              cases h
              exact Or.inl (hp.decided hup ho hf hd hpreview search')
            · rw [hspend] at h
              cases h
              exact Or.inr ⟨_, rfl, rfl, rfl, fun receipt he => by cases he; exact ⟨rfl, _, rfl⟩⟩
          · rw [hcharge] at h
            cases h
            exact Or.inr ⟨_, rfl, rfl, rfl, fun receipt he => by cases he; exact ⟨rfl, _, rfl⟩⟩

/-! ## The loop -/

end

theorem planLoop_stopped {stop : StudyPlanStop} : ∀ {todo : List RankedSubset} {st st' : PlanState},
    st.stop = some stop → planLoop d route catalog caps todo st = .ok st' →
      st'.stop = some stop ∧ st'.records = st.records ++ todo.map (·.record .unevaluated) ∧
        st'.proposals = st.proposals
  | [], st, st', hs, h => by
    cases h
    exact ⟨hs, (List.append_nil _).symm, rfl⟩
  | entry :: rest, st, st', hs, h => by
    obtain ⟨mid, hmid, h⟩ := bind_ok h
    unfold PlanState.turn at hmid
    rw [hs] at hmid
    cases hmid
    obtain ⟨h1, h2, h3⟩ := planLoop_stopped (show (st.settle entry .unevaluated).stop = some stop from hs) h
    refine ⟨h1, ?_, h3⟩
    rw [h2]
    exact List.append_assoc ..

/-- **The whole loop**: the subsets up to the one where the plan is stopped are settled. -/
theorem planLoop_ends (hup : RanksUp order) : ∀ {todo before : List RankedSubset}
    {st st' : PlanState}, order = before ++ todo → Progress d route catalog caps order before st →
      planLoop d route catalog caps todo st = .ok st' →
        ∃ settled left mid, order = settled ++ left ∧
          Progress d route catalog caps order settled mid ∧ Ends mid left st'
  | [], before, st, st', ho, hp, h => by
    cases h
    exact ⟨before, [], st, ho, hp, .finished⟩
  | entry :: rest, before, st, st', ho, hp, h => by
    obtain ⟨mid, hmid, h⟩ := bind_ok h
    rcases turn_progress hp hup ho hmid with hp' | ⟨stop, hstop, hrecords, hproposals, hreceipt⟩
    · refine planLoop_ends hup ?_ hp' h
      rw [ho, List.append_assoc]
      rfl
    · obtain ⟨h1, h2, h3⟩ := planLoop_stopped hstop h
      refine ⟨before, entry :: rest, st, ho, hp, .stopped h1 ?_ (h3.trans hproposals) hreceipt⟩
      rw [h2, hrecords, List.append_assoc]
      rfl

end Plan

end Antecedent.Identify
