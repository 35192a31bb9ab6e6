import Antecedent.Core.RecalcPlan

/-!
# When a recalculation plan is exact

`PlanExact` is what a plan promises of two workflows: a reused stage has one effective identity in
both, and in process, on the grid and with a compatible retarget, every other stage is recomputed
because of a changed stage below it.

`Planner::fresh_scores` tests whether the data snapshot was modified, and not whether it was added:
a snapshot that only the requested workflow declares is refused, so it is not marked, and the scores
pass for unchanged.

* **`planExact_iff`**: a plan is exact unless frozen scores meet an added snapshot.
-/

namespace Antecedent.Core

open Planner
open StageIdentities (Agree)

/-- How the own digest of a stage differs between two workflows. -/
def Changes (previous requested : StageIdentities) (s : Stage) : ChangeKind → Prop
  | .added => previous.contains s = false ∧ requested.contains s = true
  | .removed => previous.contains s = true ∧ requested.contains s = false
  | .modified => previous.contains s = true ∧ requested.contains s = true ∧
      previous.own s ≠ requested.own s

/-- A status that names a changed stage below `s`. -/
def NamesOrigin (previous requested : StageIdentities) (retarget : RetargetSupport) (s : Stage) :
    StageStatus → Prop
  | .recomputed (.own stage change) => stage = s ∧ Changes previous requested s change
  | .recomputed (.upstream via origin change) => via ∈ s.dependencies retarget ∧
      Stage.DependsOn retarget via origin ∧ Changes previous requested origin change
  | _ => False

/-- What a plan promises. -/
structure PlanExact (previous requested : StageIdentities) (caps : RecalcCapabilities) : Prop where
  reused : ∀ s dep,
    RecalcPlan.status (RecalcPlan.plan previous requested caps) s = some (.reused dep) →
    Agree previous requested caps.retarget s
  inProcess : caps.boundary = .inProcess → caps.request = .onGrid → caps.retarget ≠ .incompatible →
    ∀ s, requested.contains s = true → ∃ status,
      RecalcPlan.status (RecalcPlan.plan previous requested caps) s = some status ∧
      (status.isReused = true ↔ Agree previous requested caps.retarget s) ∧
      (status.isReused = false → NamesOrigin previous requested caps.retarget s status)

/-- Frozen scores meet a snapshot they were not frozen on: a fresh process holds portable scores and
no data, the requested workflow declares a snapshot and the previous one none, and nothing else the
scores depend on changed or is refused. -/
structure ScoresMeetAddedSnapshot (previous requested : StageIdentities)
    (caps : RecalcCapabilities) (resume : ResumeContext) : Prop where
  fresh : caps.boundary = .freshProcess resume
  scores : resume.portableScores = true
  no_data : resume.suppliedData = false
  snapshot : Changes previous requested .dataSnapshot .added
  declared : requested.contains .scoreArtifact = true
  own : previous.own .scoreArtifact = requested.own .scoreArtifact
  rest : ∀ dep ∈ Stage.scoreArtifact.dependencies caps.retarget, dep ≠ .dataSnapshot →
    Agree previous requested caps.retarget dep
  grid : requested.contains .treatmentGrid = true → caps.request = .onGrid

/-! ## Decisions -/

section Decide

variable {p : Planner} {s : Stage} {deps : List Stage}

theorem ownChange_none (hs : p.requested.contains s = true) (h : p.ownChange s = none) :
    p.previous.own s = p.requested.own s := by
  unfold ownChange at h
  unfold StageIdentities.contains at hs
  cases hp : p.previous.own s <;> cases hr : p.requested.own s <;> simp_all

theorem ownChange_some {change : ChangeKind} (h : p.ownChange s = some change) :
    Changes p.previous p.requested s change ∧ p.previous.own s ≠ p.requested.own s := by
  unfold ownChange at h
  cases hp : p.previous.own s with
  | none =>
    cases hr : p.requested.own s with
    | none => simp [hp, hr] at h
    | some new =>
      obtain rfl : ChangeKind.added = change := by simpa [hp, hr] using h
      exact ⟨⟨by simp [StageIdentities.contains, hp], by simp [StageIdentities.contains, hr]⟩,
        by simp⟩
  | some old =>
    cases hr : p.requested.own s with
    | none => simp [hp, hr] at h
    | some new =>
      by_cases hne : old = new
      · simp [hp, hr, hne] at h
      · obtain rfl : ChangeKind.modified = change := by simpa [hp, hr, hne] using h
        refine ⟨⟨by simp [StageIdentities.contains, hp], by simp [StageIdentities.contains, hr], ?_⟩,
          ?_⟩ <;> simpa [hp, hr] using hne

variable {dep : Stage} {resume : ResumeContext} {m : Stage × ChangeKind}

theorem changedEdge_none (h : p.changedEdge dep = none) :
    p.changed dep = none ∧ ¬ (p.previous.contains dep = true ∧ p.requested.contains dep = false) := by
  unfold changedEdge at h
  cases hc : p.changed dep with
  | some m => simp [hc] at h
  | none =>
    rw [hc] at h
    refine ⟨rfl, fun hr => ?_⟩
    simp only [if_pos hr] at h
    cases h

/-- What `by_change` reads when it reports reuse. -/
theorem byChange_reused : (p.byChange s deps).isReused = true ↔
    p.ownChange s = none ∧ ∀ dep ∈ deps, p.changedEdge dep = none := by
  unfold byChange
  cases p.ownChange s with
  | some change => simp [StageStatus.isReused]
  | none =>
    cases hf : deps.findSome? p.changedEdge with
    | none =>
      rw [List.findSome?_eq_none_iff] at hf
      simpa [StageStatus.isReused] using hf
    | some because =>
      simp only [StageStatus.isReused, true_and, Bool.false_eq_true, false_iff, not_forall]
      obtain ⟨dep, hd, he⟩ := List.exists_of_findSome?_eq_some hf
      exact ⟨dep, hd, by simp [he]⟩

theorem byChange_not_refused : (p.byChange s deps).isRefused = false := by
  unfold byChange
  cases p.ownChange s with
  | some change => rfl
  | none => cases deps.findSome? p.changedEdge <;> rfl

theorem refusedDependency_none {skip : Option Stage} (h : p.refusedDependency deps skip = none)
    (hd : dep ∈ deps) (hk : some dep ≠ skip) {status : StageStatus}
    (hst : p.statuses dep = some status) : status.isRefused = false := by
  have := List.find?_eq_none.mp h dep hd
  simp only [decide_eq_true_eq, not_and, Bool.not_eq_true] at this
  simpa [hst] using this hk

/-- `by_change` marks what it does not reuse. -/
theorem byChange_reused_of_unmarked (h : changeOf (p.byChange s deps) = none) :
    (p.byChange s deps).isReused = true := by
  unfold byChange at h ⊢
  cases ho : p.ownChange s with
  | some change => simp [ho, changeOf] at h
  | none =>
    cases hf : deps.findSome? p.changedEdge with
    | none => rfl
    | some because =>
      obtain ⟨dep, -, he⟩ := List.exists_of_findSome?_eq_some hf
      unfold changedEdge at he
      rw [ho, hf] at h
      simp only at h
      split at he
      · cases he
        simp [changeOf] at h
      · split_ifs at he
        cases he
        simp [changeOf] at h

theorem decideByChange_unmarked (hno : (p.decideByChange s deps).isRefused = false)
    (hc : changeOf (p.decideByChange s deps) = none) :
    (p.byChange s deps).isReused = true ∧ p.refusedDependency deps none = none := by
  unfold decideByChange at hno hc
  cases hr : p.refusedDependency deps none with
  | some dep => simp [hr, StageStatus.isRefused] at hno
  | none =>
    rw [hr] at hno hc
    simp only at hno hc
    split_ifs at hno hc
    · simp [StageStatus.isRefused] at hno
    · exact ⟨byChange_reused_of_unmarked hc, rfl⟩

theorem dataSnapshot_refused (h : (p.decide .dataSnapshot).isRefused = true) :
    ∃ resume, p.caps.boundary = .freshProcess resume ∧ resume.suppliedData = false := by
  have hby : (p.decideByChange .dataSnapshot []).isRefused = false := by
    have hno : p.refusedDependency [] none = none := rfl
    unfold decideByChange
    simp only [hno, reduceCtorEq, false_and, if_false]
    exact byChange_not_refused
  unfold Planner.decide at h
  cases hb : p.caps.boundary with
  | inProcess =>
    simp only [hb, requestRefusal, Stage.dependencies] at h
    rw [show (if Stage.dataSnapshot ≠ .treatmentGrid then (none : Option RefusalReason) else _) = none
      from rfl] at h
    simp only at h
    rw [hby] at h
    cases h
  | freshProcess resume =>
    refine ⟨resume, rfl, ?_⟩
    by_contra hd
    have hf : p.freshStatus .dataSnapshot [] resume = none := by
      unfold freshStatus
      simp [Bool.eq_true_of_not_eq_false hd]
    simp only [hb, requestRefusal, Stage.dependencies] at h
    rw [show (if Stage.dataSnapshot ≠ .treatmentGrid then (none : Option RefusalReason) else _) = none
      from rfl] at h
    simp only [hf, Stage.isInput] at h
    simp only [Bool.true_eq_false, false_and, if_false] at h
    rw [hby] at h
    cases h

/-- What `fresh_scores` read when the scores are neither refused nor marked. -/
theorem freshScores_unmarked (hno : (p.freshScores deps resume).isRefused = false)
    (hc : changeOf (p.freshScores deps resume) = none) :
    (p.byChange .scoreArtifact deps).isReused = true ∧
      p.refusedDependency deps (some .dataSnapshot) = none ∧
      (resume.suppliedData = false →
        resume.portableScores = true ∧ p.ownChange .dataSnapshot ≠ some .modified) := by
  unfold freshScores at hno hc
  cases hr : p.refusedDependency deps (some .dataSnapshot) with
  | some dep => simp [hr, StageStatus.isRefused] at hno
  | none =>
    rw [hr] at hno hc
    simp only at hno hc
    split_ifs at hno hc with h1 h2 h3 h4 h5
    · simp [StageStatus.isRefused] at hno
    · exact ⟨h2.1, rfl, fun hd => ⟨h2.2, fun hm => h1 ⟨hd, hm⟩⟩⟩
    · exact ⟨h4, rfl, fun hd => absurd h3 (by simp [hd])⟩
    · exact ⟨byChange_reused_of_unmarked hc, rfl, fun hd => absurd h3 (by simp [hd])⟩
    · simp [StageStatus.isRefused] at hno
    · simp [StageStatus.isRefused] at hno

/-- **An unmarked stage that is not refused passed `by_change`**, and so did everything it rests on;
only the snapshot of portable scores may have been refused. -/
theorem decide_unmarked (hno : (p.decide s).isRefused = false) (hc : changeOf (p.decide s) = none) :
    (p.byChange s (s.dependencies p.caps.retarget)).isReused = true ∧
      ∀ dep ∈ s.dependencies p.caps.retarget, ∀ status, p.statuses dep = some status →
        status.isRefused = true → s = .scoreArtifact ∧ dep = .dataSnapshot ∧
          ∀ resume, p.caps.boundary = .freshProcess resume → resume.suppliedData = false →
            resume.portableScores = true ∧ p.ownChange .dataSnapshot ≠ some .modified := by
  have free : p.refusedDependency (s.dependencies p.caps.retarget) none = none →
      ∀ dep ∈ s.dependencies p.caps.retarget, ∀ status, p.statuses dep = some status →
        status.isRefused = false := fun hr dep hd status hst =>
    refusedDependency_none hr hd (by simp) hst
  unfold Planner.decide at hno hc
  cases hreq : p.requestRefusal s with
  | some reason => simp [hreq, StageStatus.isRefused] at hno
  | none =>
    rw [hreq] at hno hc
    simp only at hno hc
    cases hb : p.caps.boundary with
    | inProcess =>
      rw [hb] at hno hc
      obtain ⟨h1, h2⟩ := decideByChange_unmarked hno hc
      exact ⟨h1, fun dep hd status hst h => absurd h (by simp [free h2 dep hd status hst])⟩
    | freshProcess resume =>
      rw [hb] at hno hc
      simp only at hno hc
      cases hf : p.freshStatus s (s.dependencies p.caps.retarget) resume with
      | none =>
        rw [hf] at hno hc
        simp only at hno hc
        have hd : (p.decideByChange s (s.dependencies p.caps.retarget)).isRefused = false ∧
            changeOf (p.decideByChange s (s.dependencies p.caps.retarget)) = none := by
          split_ifs at hno hc with hi
          · generalize p.decideByChange s (s.dependencies p.caps.retarget) = status at hi ⊢
            cases status <;> simp_all [StageStatus.isReused, StageStatus.isRefused, changeOf]
          · exact ⟨hno, hc⟩
        obtain ⟨h1, h2⟩ := decideByChange_unmarked hd.1 hd.2
        exact ⟨h1, fun dep hd status hst h => absurd h (by simp [free h2 dep hd status hst])⟩
      | some status =>
        rw [hf] at hno hc
        simp only at hno hc
        have hs : s = .scoreArtifact := by
          unfold freshStatus at hf
          cases s <;> simp only [reduceCtorEq] at hf ⊢
          all_goals
            split_ifs at hf
            cases hf
            simp [StageStatus.isRefused] at hno
        subst hs
        obtain rfl : p.freshScores (Stage.scoreArtifact.dependencies p.caps.retarget) resume = status :=
          Option.some.inj hf
        obtain ⟨h1, h2, h3⟩ := freshScores_unmarked hno hc
        refine ⟨h1, fun dep hd st hst h => ⟨rfl, ?_, fun r hr => ?_⟩⟩
        · by_contra hne
          rw [refusedDependency_none h2 hd (fun e => hne (Option.some.inj e)) hst] at h
          cases h
        · obtain rfl := Boundary.freshProcess.inj hr
          exact h3

theorem decideByChange_marked
    (h : changeOf (p.decideByChange s deps) = some m) : p.decideByChange s deps = p.byChange s deps := by
  unfold decideByChange at h ⊢
  cases hr : p.refusedDependency deps none with
  | some dep => simp [hr, changeOf] at h
  | none =>
    rw [hr] at h
    simp only at h ⊢
    split_ifs at h ⊢
    · simp [changeOf] at h
    · rfl

theorem freshScores_marked (h : changeOf (p.freshScores deps resume) = some m) :
    p.freshScores deps resume = p.byChange .scoreArtifact deps := by
  unfold freshScores at h ⊢
  cases hr : p.refusedDependency deps (some .dataSnapshot) with
  | some dep => simp [hr, changeOf] at h
  | none =>
    rw [hr] at h
    simp only at h ⊢
    split_ifs at h ⊢ <;> first | rfl | simp [changeOf] at h

/-- **A mark comes from `by_change`.** -/
theorem decide_marked (h : changeOf (p.decide s) = some m) :
    p.decide s = p.byChange s (s.dependencies p.caps.retarget) := by
  unfold Planner.decide at h ⊢
  cases hreq : p.requestRefusal s with
  | some reason => simp [hreq, changeOf] at h
  | none =>
    rw [hreq] at h
    simp only at h ⊢
    cases hb : p.caps.boundary with
    | inProcess =>
      rw [hb] at h
      exact decideByChange_marked h
    | freshProcess resume =>
      rw [hb] at h
      simp only at h ⊢
      cases hf : p.freshStatus s (s.dependencies p.caps.retarget) resume with
      | none =>
        rw [hf] at h
        simp only at h ⊢
        split_ifs at h ⊢
        · simp [changeOf] at h
        · exact decideByChange_marked h
      | some status =>
        rw [hf] at h
        simp only at h ⊢
        unfold freshStatus at hf
        cases s with
        | scoreArtifact =>
          obtain rfl : p.freshScores _ resume = status := Option.some.inj hf
          exact freshScores_marked h
        | _ =>
          simp only [reduceCtorEq] at hf
          try
            split_ifs at hf
            cases hf
            simp [changeOf] at h

end Decide

/-! ## Effective identities along the dependencies -/

section Agree

variable {previous requested : StageIdentities} {retarget : RetargetSupport} {s : Stage}

theorem nodup_dependencies (retarget : RetargetSupport) (s : Stage) :
    (s.dependencies retarget).Nodup := by
  have key : ∀ retarget ∈ [RetargetSupport.licensed, .notDeclared, .incompatible],
      ∀ s ∈ Stage.all, (s.dependencies retarget).Nodup := by
    decide +kernel
  exact key retarget (by cases retarget <;> simp) s (Stage.mem_all s)

theorem dependencyParts_agree : ∀ {deps : List Stage},
    (∀ dep ∈ deps, Agree previous requested retarget dep) →
    previous.dependencyParts (previous.effective retarget) deps =
      requested.dependencyParts (requested.effective retarget) deps
  | [], _ => rfl
  | dep :: deps, h => by
    have hd := h dep List.mem_cons_self
    unfold StageIdentities.dependencyParts
    rw [hd.contains, show previous.effective retarget dep = _ from hd,
      dependencyParts_agree fun d hm => h d (List.mem_cons_of_mem _ hm)]

theorem agree_of_dependencies (hown : previous.own s = requested.own s)
    (h : ∀ dep ∈ s.dependencies retarget, Agree previous requested retarget dep) :
    Agree previous requested retarget s := by
  unfold StageIdentities.Agree
  rw [StageIdentities.effective_eq, StageIdentities.effective_eq]
  unfold StageIdentities.effectiveAt
  rw [hown, dependencyParts_agree h]

/-- **Agreement goes down the dependencies**: a digest is read off from its value. -/
theorem dependencies_agree (h : Agree previous requested retarget s)
    (hs : requested.contains s = true) :
    previous.own s = requested.own s ∧
      ∀ dep ∈ s.dependencies retarget, Agree previous requested retarget dep := by
  have hp : previous.contains s = true := h.contains.trans hs
  unfold StageIdentities.Agree at h
  rw [StageIdentities.effective_eq, StageIdentities.effective_eq] at h
  unfold StageIdentities.effectiveAt at h
  obtain ⟨o, ho⟩ := Option.isSome_iff_exists.mp hp
  obtain ⟨o', ho'⟩ := Option.isSome_iff_exists.mp hs
  rw [ho, ho', Option.map_some, Option.map_some] at h
  injection h with h
  injection h with _ h
  injection h with hid hparts
  exact ⟨by rw [ho, ho', hid],
    StageIdentities.dependencyParts_inj (nodup_dependencies retarget s) hparts⟩

end Agree

/-! ## Marks and identities -/

section Marks

variable {previous requested : StageIdentities} {caps : RecalcCapabilities} {s : Stage}

theorem requested_of_changed {m : Stage × ChangeKind}
    (h : (run previous requested caps).changed s = some m) : requested.contains s = true := by
  by_contra hs
  rw [(status_none (Bool.eq_false_of_not_eq_true hs)).2] at h
  cases h

/-- **A marked stage has two effective identities**, and its mark names a changed stage below it. -/
theorem disagree_of_marked (s : Stage) : ∀ m, (run previous requested caps).changed s = some m →
    ¬ Agree previous requested caps.retarget s ∧ Stage.DependsOn caps.retarget s m.1 ∧
      Changes previous requested m.1 m.2 ∧
      NamesOrigin previous requested caps.retarget s ((run previous requested caps).decide s) := by
  induction s using Stage.dependency_induction caps.retarget with
  | step s ih =>
    intro m hm
    have hs := requested_of_changed hm
    have hc := (status_eq hs).2.symm.trans hm
    set p := run previous requested caps with hp
    have hdec := decide_marked hc
    have hprev : p.previous = previous := run_previous
    have hreq : p.requested = requested := run_requested
    have hcaps : p.caps = caps := run_caps
    rw [hdec] at hc ⊢
    rw [hcaps] at hc ⊢
    unfold byChange at hc ⊢
    cases ho : p.ownChange s with
    | some change =>
      rw [ho] at hc
      obtain rfl : (s, change) = m := Option.some.inj hc
      obtain ⟨hch, hne⟩ := ownChange_some ho
      rw [hprev, hreq] at hch hne
      exact ⟨fun ha => hne (dependencies_agree ha hs).1, .refl, hch, rfl, hch⟩
    | none =>
      cases hf : (s.dependencies caps.retarget).findSome? p.changedEdge with
      | none => simp [ho, hf, changeOf] at hc
      | some because =>
        rw [ho, hf] at hc
        simp only at hc ⊢
        obtain ⟨dep, hd, he⟩ := List.exists_of_findSome?_eq_some hf
        unfold changedEdge at he
        cases hcd : p.changed dep with
        | some m' =>
          obtain ⟨origin, change⟩ := m'
          rw [hcd] at he
          obtain rfl : ChangedDependency.upstream dep origin change = because := Option.some.inj he
          obtain rfl : (origin, change) = m := Option.some.inj hc
          obtain ⟨hna, hdo, hch, -⟩ := ih dep hd _ hcd
          exact ⟨fun ha => hna ((dependencies_agree ha hs).2 dep hd), .head hd hdo, hch, hd, hdo, hch⟩
        | none =>
          rw [hcd] at he
          simp only at he
          split_ifs at he with hrem
          obtain rfl : ChangedDependency.upstream dep dep .removed = because := Option.some.inj he
          obtain rfl : (dep, ChangeKind.removed) = m := Option.some.inj hc
          rw [hprev, hreq] at hrem
          refine ⟨fun ha => ?_, .single hd, hrem, hd, .refl, hrem⟩
          have hcon := ((dependencies_agree ha hs).2 dep hd).contains
          rw [hrem.1, hrem.2] at hcon
          cases hcon

/-- **An unmarked stage that is not refused has one effective identity.** -/
theorem agree_of_unmarked (hno : ∀ resume, ¬ ScoresMeetAddedSnapshot previous requested caps resume)
    (s : Stage) : requested.contains s = true →
      (run previous requested caps).changed s = none →
      ((run previous requested caps).decide s).isRefused = false →
      Agree previous requested caps.retarget s := by
  induction s using Stage.dependency_induction caps.retarget with
  | step s ih =>
    intro hs hm hnr
    have hprev : (run previous requested caps).previous = previous := run_previous
    have hreq : (run previous requested caps).requested = requested := run_requested
    have hcaps : (run previous requested caps).caps = caps := run_caps
    have hcm := (@status_eq previous requested caps _ hs).2
    rw [hm] at hcm
    obtain ⟨hby, href⟩ := decide_unmarked hnr hcm.symm
    rw [hcaps] at hby href
    obtain ⟨hown, hedge⟩ := byChange_reused.mp hby
    have hown := ownChange_none (by rw [hreq]; exact hs) hown
    rw [hprev, hreq] at hown
    -- a dependency that is not refused agrees; an undeclared one is undeclared on both sides
    have hdep : ∀ dep ∈ s.dependencies caps.retarget,
        (requested.contains dep = true →
          ((run previous requested caps).decide dep).isRefused = false) →
        Agree previous requested caps.retarget dep := by
      intro dep hd hr
      obtain ⟨hc, hrem⟩ := changedEdge_none (hedge dep hd)
      rw [hprev, hreq] at hrem
      by_cases hq : requested.contains dep = true
      · exact ih dep hd hq hc (hr hq)
      · have hq := Bool.eq_false_of_not_eq_true hq
        have hp : previous.contains dep = false :=
          Bool.eq_false_of_not_eq_true fun h => hrem ⟨h, hq⟩
        unfold StageIdentities.Agree
        rw [StageIdentities.effective_none.mpr hp, StageIdentities.effective_none.mpr hq]
    refine agree_of_dependencies hown fun dep hd => ?_
    by_cases hr : requested.contains dep = true →
        ((run previous requested caps).decide dep).isRefused = false
    · exact hdep dep hd hr
    · obtain ⟨hq, hr⟩ := Classical.not_imp.mp hr
      have hr := Bool.eq_true_of_not_eq_false hr
      have hst := (@status_eq previous requested caps _ hq).1
      obtain ⟨rfl, rfl, hsc⟩ := href dep hd _ hst hr
      obtain ⟨resume, hfresh, hnd⟩ := dataSnapshot_refused hr
      rw [hcaps] at hfresh
      obtain ⟨hport, hmod⟩ := hsc resume hfresh hnd
      cases ho : (run previous requested caps).ownChange .dataSnapshot with
      | none =>
        have := ownChange_none (by rw [hreq]; exact hq) ho
        rw [hprev, hreq] at this
        exact agree_of_dependencies this fun d hd => absurd hd List.not_mem_nil
      | some change =>
        have hch := (ownChange_some ho).1
        rw [hprev, hreq] at hch
        cases change with
        | modified => exact absurd ho hmod
        | removed => exact absurd (hch.2.symm.trans hq) Bool.false_ne_true
        | added =>
          refine absurd ⟨hfresh, hport, hnd, hch, hs, hown, fun dep hd hne => ?_, fun hg => ?_⟩
            (hno resume)
          · refine hdep dep hd fun hq => ?_
            by_contra hr
            have hst := (@status_eq previous requested caps _ hq).1
            exact hne (href dep hd _ hst (Bool.eq_true_of_not_eq_false hr)).2.1
          · by_contra hgrid
            have hg' : Stage.treatmentGrid ∈ Stage.scoreArtifact.dependencies caps.retarget := by
              simp [Stage.dependencies]
            have hr : ((run previous requested caps).decide .treatmentGrid).isRefused = true := by
              unfold Planner.decide requestRefusal
              rw [hcaps]
              cases hc : caps.request with
              | onGrid => exact absurd hc hgrid
              | offGrid route => rfl
              | unsupported route => rfl
            have hst := (@status_eq previous requested caps _ hg).1
            exact absurd (href _ hg' _ hst hr).2.1 (by decide)

theorem decide_inProcess (hb : caps.boundary = .inProcess) (hg : caps.request = .onGrid)
    (hr : caps.retarget ≠ .incompatible) (s : Stage) :
    (run previous requested caps).decide s =
      (run previous requested caps).byChange s (s.dependencies caps.retarget) := by
  induction s using Stage.dependency_induction caps.retarget with
  | step s ih =>
    have hcaps : (run previous requested caps).caps = caps := run_caps
    have hdep : (run previous requested caps).refusedDependency (s.dependencies caps.retarget) none =
        none := by
      refine List.find?_eq_none.mpr fun dep hd => ?_
      cases hq : requested.contains dep with
      | true => simp [(@status_eq previous requested caps _ hq).1, ih dep hd,
          byChange_not_refused]
      | false => simp [(@status_none previous requested caps _ hq).1]
    have hreq : (run previous requested caps).requestRefusal s = none := by
      unfold requestRefusal
      rw [hcaps, hg]
      split_ifs <;> rfl
    unfold Planner.decide
    rw [hreq, hcaps, hb]
    simp only
    unfold decideByChange
    rw [hdep, hcaps]
    simp only [hr, false_and, and_false, if_false]

theorem not_refused_input {p : Planner} (hi : s.isInput = true)
    (hd : s ≠ .dataSnapshot) (ht : s ≠ .treatmentGrid) : (p.decide s).isRefused = false := by
  have hdeps : s.dependencies p.caps.retarget = [] := by
    cases s <;> first | rfl | cases hi
  have hby : (p.decideByChange s []).isRefused = false := by
    have hno : p.refusedDependency [] none = none := rfl
    have hlaw : s ≠ .law := by
      rintro rfl
      cases hi
    unfold decideByChange
    simp only [hno, hlaw, false_and, if_false]
    exact byChange_not_refused
  have hfresh : ∀ resume, p.freshStatus s [] resume = none := by
    intro resume
    unfold freshStatus
    cases s <;> first | rfl | exact absurd rfl hd | cases hi
  unfold Planner.decide requestRefusal
  simp only [hdeps, ht, ne_eq, not_false_eq_true, if_true, hfresh, hi, Bool.true_eq_false,
    false_and, if_false]
  cases p.caps.boundary <;> exact hby

theorem not_refused_rest (hgrid : requested.contains .treatmentGrid = true → caps.request = .onGrid)
    {dep : Stage} (hd : dep ∈ Stage.scoreArtifact.dependencies caps.retarget)
    (hne : dep ≠ .dataSnapshot) (hq : requested.contains dep = true) :
    ((run previous requested caps).decide dep).isRefused = false := by
  have hcaps : (run previous requested caps).caps = caps := run_caps
  have hin : dep.isInput = true ∨ dep = .identification := by
    have key : ∀ retarget ∈ [RetargetSupport.licensed, .notDeclared, .incompatible],
        ∀ dep ∈ Stage.scoreArtifact.dependencies retarget, dep.isInput = true ∨
          dep = .identification := by
      decide
    exact key caps.retarget (by cases caps.retarget <;> simp) dep hd
  rcases hin with hi | rfl
  · by_cases ht : dep = .treatmentGrid
    · subst ht
      have hreq : (run previous requested caps).requestRefusal .treatmentGrid = none := by
        unfold requestRefusal
        rw [hcaps, hgrid hq]
        rfl
      have hby : ∀ p : Planner, (p.decideByChange .treatmentGrid []).isRefused = false := by
        intro p
        have hno : p.refusedDependency [] none = none := rfl
        unfold decideByChange
        simp only [hno, reduceCtorEq, false_and, if_false]
        exact byChange_not_refused
      unfold Planner.decide
      rw [hreq]
      simp only [Stage.dependencies, freshStatus, Stage.isInput, Bool.true_eq_false, false_and,
        if_false]
      cases (run previous requested caps).caps.boundary <;> exact hby _
    · exact not_refused_input hi hne ht
  · have hdep : (run previous requested caps).refusedDependency
        (Stage.identification.dependencies caps.retarget) none = none := by
      refine List.find?_eq_none.mpr fun d hm => ?_
      have hdi : d.isInput = true ∧ d ≠ .dataSnapshot ∧ d ≠ .treatmentGrid := by
        have : ∀ d ∈ [Stage.graph, .query, .regime, .evidence],
            d.isInput = true ∧ d ≠ .dataSnapshot ∧ d ≠ .treatmentGrid := by decide
        exact this d hm
      cases hq : requested.contains d with
      | true => simp [(@status_eq previous requested caps _ hq).1,
          not_refused_input hdi.1 hdi.2.1 hdi.2.2]
      | false => simp [(@status_none previous requested caps _ hq).1]
    have hby : ((run previous requested caps).decideByChange .identification
        (Stage.identification.dependencies caps.retarget)).isRefused = false := by
      unfold decideByChange
      rw [hdep]
      simp only [reduceCtorEq, false_and, if_false]
      exact byChange_not_refused
    have hreq : (run previous requested caps).requestRefusal .identification = none := rfl
    unfold Planner.decide
    rw [hreq, hcaps]
    simp only [freshStatus]
    cases caps.boundary with
    | inProcess => exact hby
    | freshProcess resume =>
      simp only
      split_ifs
      · rfl
      · exact hby

end Marks

/-- **A plan is exact unless frozen scores meet an added snapshot.** -/
theorem planExact_iff (previous requested : StageIdentities) (caps : RecalcCapabilities) :
    PlanExact previous requested caps ↔
      ∀ resume, ¬ ScoresMeetAddedSnapshot previous requested caps resume := by
  have hcaps : (run previous requested caps).caps = caps := run_caps
  have hprev : (run previous requested caps).previous = previous := run_previous
  have hreq : (run previous requested caps).requested = requested := run_requested
  have requested_of : ∀ {s st}, (run previous requested caps).statuses s = some st →
      requested.contains s = true := by
    intro s st h
    by_contra hs
    rw [(status_none (Bool.eq_false_of_not_eq_true hs)).1] at h
    cases h
  constructor
  · intro hex resume hbad
    -- the scores are reused, although the snapshot below them was added
    have hedge : ∀ dep ∈ Stage.scoreArtifact.dependencies caps.retarget,
        (run previous requested caps).changedEdge dep = none := by
      intro dep hd
      have hmark : (run previous requested caps).changed dep = none ∧
          ¬ (previous.contains dep = true ∧ requested.contains dep = false) := by
        by_cases hne : dep = .dataSnapshot
        · subst hne
          obtain ⟨hp, hr⟩ := hbad.snapshot
          refine ⟨?_, fun h => by rw [hp] at h; cases h.1⟩
          rw [(status_eq hr).2]
          unfold Planner.decide requestRefusal
          rw [hcaps, hbad.fresh]
          simp [freshStatus, hbad.no_data, hprev, hp, changeOf]
        · have ha := hbad.rest dep hd hne
          constructor
          · by_contra hc
            obtain ⟨m, hm⟩ := Option.ne_none_iff_exists'.mp hc
            exact (disagree_of_marked dep m hm).1 ha
          · rintro ⟨h1, h2⟩
            rw [ha.contains, h2] at h1
            cases h1
      unfold changedEdge
      rw [hmark.1, hprev, hreq, if_neg hmark.2]
    have hown : (run previous requested caps).ownChange .scoreArtifact = none := by
      have hd := hbad.declared
      unfold ownChange
      unfold StageIdentities.contains at hd
      rw [hprev, hreq, hbad.own]
      cases requested.own .scoreArtifact with
      | none => rfl
      | some o => simp
    have hby := byChange_reused.mpr ⟨hown, hedge⟩
    have href : (run previous requested caps).refusedDependency
        (Stage.scoreArtifact.dependencies caps.retarget) (some .dataSnapshot) = none := by
      refine List.find?_eq_none.mpr fun dep hd => ?_
      by_cases hne : dep = .dataSnapshot
      · simp [hne]
      · cases hq : requested.contains dep with
        | true => simp [(@status_eq previous requested caps _ hq).1,
            not_refused_rest hbad.grid hd hne hq]
        | false => simp [(@status_none previous requested caps _ hq).1]
    have hmod : (run previous requested caps).ownChange .dataSnapshot ≠ some .modified := by
      intro h
      have := (ownChange_some h).1.1
      rw [hprev, hbad.snapshot.1] at this
      cases this
    have hdec : (run previous requested caps).decide .scoreArtifact =
        (run previous requested caps).byChange .scoreArtifact
          (Stage.scoreArtifact.dependencies caps.retarget) := by
      unfold Planner.decide requestRefusal
      rw [hcaps, hbad.fresh]
      simp only [ne_eq, reduceCtorEq, not_false_eq_true, if_true, freshStatus, freshScores, href,
        hmod, and_false, if_false, hby, hbad.scores, and_self]
    cases hst : (run previous requested caps).byChange .scoreArtifact
        (Stage.scoreArtifact.dependencies caps.retarget) with
    | reused dep =>
      have ha := hex.reused .scoreArtifact dep (by
        rw [status_plan, (status_eq hbad.declared).1, hdec, hst])
      have hds := (dependencies_agree ha hbad.declared).2 .dataSnapshot
        (by simp [Stage.dependencies])
      have := hds.contains
      rw [hbad.snapshot.1, hbad.snapshot.2] at this
      cases this
    | recomputed because =>
      rw [hst] at hby
      cases hby
    | refused reason =>
      rw [hst] at hby
      cases hby
  · intro hno
    refine ⟨fun s dep hst => ?_, fun hb hg hr s hs => ?_⟩
    · rw [status_plan] at hst
      have hs := requested_of hst
      obtain ⟨h1, h2⟩ := @status_eq previous requested caps _ hs
      rw [h1] at hst
      rw [Option.some.inj hst] at h2
      exact agree_of_unmarked hno s hs h2 (by rw [Option.some.inj hst]; rfl)
    · obtain ⟨h1, h2⟩ := @status_eq previous requested caps _ hs
      have hdec := @decide_inProcess previous requested caps hb hg hr s
      have hreused : changeOf ((run previous requested caps).decide s) = none →
          ((run previous requested caps).decide s).isReused = true := by
        rw [hdec]
        exact byChange_reused_of_unmarked
      refine ⟨_, by rw [status_plan, h1], ⟨fun hre => ?_, fun ha => hreused ?_⟩, fun hre => ?_⟩
      · refine agree_of_unmarked hno s hs ?_ (by rw [hdec]; exact byChange_not_refused)
        rw [h2]
        cases hd : (run previous requested caps).decide s with
        | recomputed because =>
          rw [hd] at hre
          cases hre
        | _ => rfl
      · rw [← h2]
        by_contra hc
        obtain ⟨m, hm⟩ := Option.ne_none_iff_exists'.mp hc
        exact (disagree_of_marked s m hm).1 ha
      · cases hm : (run previous requested caps).changed s with
        | some m => exact (disagree_of_marked s m hm).2.2.2
        | none =>
          rw [hreused (by rw [← h2]; exact hm)] at hre
          cases hre

/-! ## Scores reused for an added snapshot -/

def scoresOnly : StageIdentities := ⟨fun s => if s = .scoreArtifact then some (.bytes 1) else none⟩

/-- The same workflow with a data snapshot. -/
def scoresWithSnapshot : StageIdentities :=
  ⟨fun s => if s = .scoreArtifact then some (.bytes 1)
    else if s = .dataSnapshot then some (.bytes 2) else none⟩

/-- A fresh process that holds portable scores and nothing else. -/
def portableScoresOnly : RecalcCapabilities :=
  ⟨.licensed, .onGrid, .freshProcess ⟨false, true, false, false, false⟩⟩

/-- The scores are reused although the snapshot below them was added. -/
theorem scoresMeetAddedSnapshot_not_exact :
    ¬ PlanExact scoresOnly scoresWithSnapshot portableScoresOnly := by
  intro h
  have ha := h.reused .scoreArtifact .identification (by decide +kernel)
  have hds := (dependencies_agree ha rfl).2 .dataSnapshot (by simp [Stage.dependencies])
  exact absurd hds.contains (by decide)

end Antecedent.Core
