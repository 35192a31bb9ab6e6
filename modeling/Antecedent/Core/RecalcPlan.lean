import Antecedent.Core.Recalc

/-!
# What a recalculation plan says

The planner never compares effective identities: it propagates change marks along the dependency
edges. `Planner.run` is the planner after the last stage; because the stages come in topological
order, the status of a stage is what the final planner decides for it (`status_eq`).
-/

namespace Antecedent.Core

/-! ## Folds in topological order -/

section Fold

variable {α β : Type} [DecidableEq α] {F : (α → β) → α → β}

/-- Entries of stages that come later are not touched. -/
theorem foldUpdate_of_notMem {l : List α} {init : α → β} {a : α} (h : a ∉ l) :
    l.foldl (fun out b => Function.update out b (F out b)) init a = init a := by
  induction l generalizing init with
  | nil => rfl
  | cons b l ih =>
    obtain ⟨hb, hl⟩ := not_or.mp (mt List.mem_cons.mpr h)
    rw [List.foldl_cons, ih hl, Function.update_of_ne hb]

/-- The entry of `a` is computed over what was there when `a` was visited. -/
theorem foldUpdate_eq {pre post : List α} (init : α → β) {a : α} (h : (pre ++ a :: post).Nodup) :
    let out := pre.foldl (fun out b => Function.update out b (F out b)) init
    let final := (pre ++ a :: post).foldl (fun out b => Function.update out b (F out b)) init
    final a = F out a ∧ ∀ b ∈ pre, final b = out b := by
  obtain ⟨-, hpost, hdis⟩ := List.nodup_append.mp h
  obtain ⟨ha, -⟩ := List.nodup_cons.mp hpost
  simp only [List.foldl_append, List.foldl_cons]
  refine ⟨?_, fun b hb => ?_⟩
  · rw [foldUpdate_of_notMem ha, Function.update_self]
  · rw [foldUpdate_of_notMem fun hm => hdis b hb b (List.mem_cons_of_mem _ hm) rfl,
      Function.update_of_ne (hdis b hb a List.mem_cons_self)]

end Fold

namespace Stage

theorem nodup_all : all.Nodup := by decide

theorem mem_all (s : Stage) : s ∈ all := by
  cases s <;> simp [all, branches]

theorem label_nodup : (all.map label).Nodup := by decide +kernel

theorem label_injective {s t : Stage} (h : s.label = t.label) : s = t :=
  List.inj_on_of_nodup_map label_nodup (mem_all s) (mem_all t) h

theorem idxOf_dependency (retarget : RetargetSupport) (s : Stage) :
    ∀ dep ∈ s.dependencies retarget, all.idxOf dep < all.idxOf s := by
  have key : ∀ retarget ∈ [RetargetSupport.licensed, .notDeclared, .incompatible],
      ∀ s ∈ all, ∀ dep ∈ s.dependencies retarget, all.idxOf dep < all.idxOf s := by
    decide +kernel
  exact key retarget (by cases retarget <;> simp) s (mem_all s)

/-- **The declaration order is a topological order.** -/
theorem dependency_earlier {retarget : RetargetSupport} {s dep : Stage} {pre post : List Stage}
    (he : all = pre ++ s :: post) (h : dep ∈ s.dependencies retarget) : dep ∈ pre := by
  have hlt := idxOf_dependency retarget s dep h
  have hnd := nodup_all
  rw [he] at hlt hnd
  have hs : s ∉ pre := fun hm => (List.nodup_append.mp hnd).2.2 s hm s List.mem_cons_self rfl
  rw [List.idxOf_append_of_notMem hs, List.idxOf_cons_self, Nat.add_zero] at hlt
  by_contra hd
  rw [List.idxOf_append_of_notMem hd] at hlt
  omega

/-- The stages a stage is computed from, itself included. -/
def DependsOn (retarget : RetargetSupport) (s origin : Stage) : Prop :=
  Relation.ReflTransGen (fun a b => b ∈ a.dependencies retarget) s origin

theorem dependency_induction {motive : Stage → Prop} (retarget : RetargetSupport)
    (step : ∀ s, (∀ dep ∈ s.dependencies retarget, motive dep) → motive s) (s : Stage) :
    motive s := by
  induction h : all.idxOf s using Nat.strong_induction_on generalizing s with
  | _ n ih =>
    refine step s fun dep hd => ih _ ?_ dep rfl
    rw [← h]
    exact idxOf_dependency retarget s dep hd

end Stage

/-! ## Effective identities -/

namespace StageIdentities

variable {w w' : StageIdentities} {retarget : RetargetSupport} {s : Stage}

theorem dependencyParts_congr {out out' : Stage → Option StageIdentity} {deps : List Stage}
    (h : ∀ dep ∈ deps, out dep = out' dep) :
    w.dependencyParts out deps = w.dependencyParts out' deps := by
  induction deps with
  | nil => rfl
  | cons dep deps ih =>
    unfold dependencyParts
    rw [ih fun d hd => h d (List.mem_cons_of_mem _ hd), h dep List.mem_cons_self]

/-- **An effective identity in terms of those of the dependencies.** -/
theorem effective_eq (w : StageIdentities) (retarget : RetargetSupport) (s : Stage) :
    w.effective retarget s = w.effectiveAt retarget (w.effective retarget) s := by
  obtain ⟨pre, post, he⟩ := List.append_of_mem (Stage.mem_all s)
  have hnd := Stage.nodup_all
  rw [he] at hnd
  obtain ⟨hs, hpre⟩ := foldUpdate_eq (F := w.effectiveAt retarget) (fun _ => none) hnd
  rw [← he] at hs hpre
  have hdeps : w.dependencyParts _ (s.dependencies retarget) = _ := dependencyParts_congr
    fun dep hd => hpre dep (Stage.dependency_earlier he hd)
  exact hs.trans (congrArg (fun parts => (w.own s).map fun own =>
    StageIdentity.of s.label (.own own parts)) hdeps.symm)

theorem effective_none {s : Stage} : w.effective retarget s = none ↔ w.contains s = false := by
  rw [effective_eq]
  unfold effectiveAt contains
  rw [Option.map_eq_none_iff, Option.isSome_eq_false_iff, Option.isNone_iff_eq_none]

/-- Both workflows give a stage one effective identity, or neither declares it. -/
def Agree (w w' : StageIdentities) (retarget : RetargetSupport) (s : Stage) : Prop :=
  w.effective retarget s = w'.effective retarget s

theorem Agree.contains (h : Agree w w' retarget s) : w.contains s = w'.contains s := by
  have hiff : w.contains s = false ↔ w'.contains s = false := by
    rw [← @effective_none w retarget, ← @effective_none w' retarget, h]
  cases h1 : w.contains s <;> cases h2 : w'.contains s <;> simp_all

theorem effective_ne_absent {s : Stage} : w.effective retarget s ≠ some .absent := by
  rw [effective_eq]
  unfold effectiveAt
  cases w.own s <;> simp

theorem getD_absent_inj
    (h : (w.effective retarget s).getD .absent = (w'.effective retarget s).getD .absent) :
    Agree w w' retarget s := by
  have h1 := @effective_ne_absent w retarget s
  have h2 := @effective_ne_absent w' retarget s
  unfold Agree
  cases ha : w.effective retarget s <;> cases hb : w'.effective retarget s <;> simp_all

theorem dependencyParts_inj : ∀ {deps : List Stage}, deps.Nodup →
    (w.dependencyParts (w.effective retarget) deps =
      w'.dependencyParts (w'.effective retarget) deps) →
    ∀ dep ∈ deps, Agree w w' retarget dep := by
  intro deps hnd h
  -- a part that one side skips is missing on the other: its label heads no later part
  have skip : ∀ {u : StageIdentities} {l : List Stage} {dep : Stage} {i : StageIdentity}
      {rest : IdentityParts}, dep ∉ l →
      u.dependencyParts (u.effective retarget) l ≠ .label dep.label i rest := by
    intro u l dep i rest hd he
    induction l with
    | nil => cases he
    | cons a l ih =>
      obtain ⟨hne, hl⟩ := not_or.mp (mt List.mem_cons.mpr hd)
      unfold dependencyParts at he
      split_ifs at he
      · exact ih hl he
      · injection he with hlabel
        exact hne (Stage.label_injective hlabel.symm)
  induction deps with
  | nil => exact fun dep hd => absurd hd List.not_mem_nil
  | cons a deps ih =>
    obtain ⟨ha, hnd⟩ := List.nodup_cons.mp hnd
    unfold dependencyParts at h
    intro dep hd
    split_ifs at h with h1 h2 h2
    · rcases List.mem_cons.mp hd with rfl | hd
      · unfold Agree
        rw [effective_none.mpr h1.2, effective_none.mpr h2.2]
      · exact ih hnd h dep hd
    · exact absurd h (skip ha)
    · exact absurd h.symm (skip ha)
    · injection h with _ hid hrest
      rcases List.mem_cons.mp hd with rfl | hd
      · exact getD_absent_inj hid
      · exact ih hnd hrest dep hd

end StageIdentities

/-! ## The planner after the last stage -/

namespace Planner

def run (previous requested : StageIdentities) (caps : RecalcCapabilities) : Planner :=
  Stage.all.foldl visit (.start previous requested caps)

/-- Two planners on the same request that agree on some stages. -/
structure SameOn (p q : Planner) (deps : List Stage) : Prop where
  previous : p.previous = q.previous
  requested : p.requested = q.requested
  caps : p.caps = q.caps
  statuses : ∀ dep ∈ deps, p.statuses dep = q.statuses dep
  changed : ∀ dep ∈ deps, p.changed dep = q.changed dep

theorem findSome?_congr {α β : Type} {f g : α → Option β} : ∀ {l : List α},
    (∀ a ∈ l, f a = g a) → l.findSome? f = l.findSome? g
  | [], _ => rfl
  | a :: l, h => by
    rw [List.findSome?_cons, List.findSome?_cons, h a List.mem_cons_self,
      findSome?_congr fun b hb => h b (List.mem_cons_of_mem a hb)]

theorem find?_congr {α : Type} {f g : α → Bool} : ∀ {l : List α}, (∀ a ∈ l, f a = g a) →
    l.find? f = l.find? g
  | [], _ => rfl
  | a :: l, h => by
    rw [List.find?_cons, List.find?_cons, h a List.mem_cons_self,
      find?_congr fun b hb => h b (List.mem_cons_of_mem a hb)]

section Congr

variable {p q : Planner} {deps : List Stage}

theorem SameOn.ownChange (h : p.SameOn q deps) : p.ownChange = q.ownChange := by
  funext s
  unfold Planner.ownChange
  rw [h.previous, h.requested]

theorem SameOn.byChange (h : p.SameOn q deps) (s : Stage) : p.byChange s deps = q.byChange s deps := by
  have hedge : deps.findSome? p.changedEdge = deps.findSome? q.changedEdge :=
    findSome?_congr fun dep hd => by
      unfold changedEdge
      rw [h.previous, h.requested, h.changed dep hd]
  unfold Planner.byChange
  rw [h.ownChange, hedge]

theorem SameOn.refusedDependency (h : p.SameOn q deps) (skip : Option Stage) :
    p.refusedDependency deps skip = q.refusedDependency deps skip := find?_congr fun dep hd => by
  rw [h.statuses dep hd]

/-- **A decision reads the stage's dependencies only.** -/
theorem decide_congr {s : Stage} (h : p.SameOn q (s.dependencies p.caps.retarget)) :
    p.decide s = q.decide s := by
  have hlaw : s = .law → p.changed .targetPopulation = q.changed .targetPopulation := by
    rintro rfl
    exact h.changed _ (by simp [Stage.dependencies])
  have hby : p.decideByChange s (s.dependencies p.caps.retarget) =
      q.decideByChange s (s.dependencies p.caps.retarget) := by
    unfold decideByChange
    rw [h.refusedDependency, h.byChange, h.caps]
    by_cases hs : s = .law
    · rw [hlaw hs]
    · simp [hs]
  have hfresh : ∀ resume, p.freshStatus s (s.dependencies p.caps.retarget) resume =
      q.freshStatus s (s.dependencies p.caps.retarget) resume := by
    intro resume
    unfold freshStatus freshScores
    rw [h.ownChange, h.refusedDependency, h.byChange, h.previous]
  unfold decide requestRefusal
  simp only [hby, hfresh]
  rw [h.caps]

end Congr

theorem foldl_visit_fixed (l : List Stage) (p : Planner) :
    (l.foldl visit p).previous = p.previous ∧ (l.foldl visit p).requested = p.requested ∧
      (l.foldl visit p).caps = p.caps := by
  induction l generalizing p with
  | nil => exact ⟨rfl, rfl, rfl⟩
  | cons s l ih =>
    obtain ⟨h1, h2, h3⟩ := ih (p.visit s)
    rw [List.foldl_cons, h1, h2, h3]
    unfold visit
    split_ifs <;> exact ⟨rfl, rfl, rfl⟩

theorem visit_of_ne {p : Planner} {s t : Stage} (h : t ≠ s) :
    (p.visit s).statuses t = p.statuses t ∧ (p.visit s).changed t = p.changed t := by
  unfold visit
  split_ifs
  · exact ⟨Function.update_of_ne h _ _, Function.update_of_ne h _ _⟩
  · exact ⟨rfl, rfl⟩

theorem foldl_visit_of_notMem {l : List Stage} {t : Stage} (h : t ∉ l) (p : Planner) :
    (l.foldl visit p).statuses t = p.statuses t ∧ (l.foldl visit p).changed t = p.changed t := by
  induction l generalizing p with
  | nil => exact ⟨rfl, rfl⟩
  | cons s l ih =>
    obtain ⟨hs, hl⟩ := not_or.mp (mt List.mem_cons.mpr h)
    obtain ⟨h1, h2⟩ := ih hl (p.visit s)
    rw [List.foldl_cons, h1, h2]
    exact visit_of_ne hs

variable {previous requested : StageIdentities} {caps : RecalcCapabilities}

theorem run_previous : (run previous requested caps).previous = previous :=
  (foldl_visit_fixed _ _).1

theorem run_requested : (run previous requested caps).requested = requested :=
  (foldl_visit_fixed _ _).2.1

theorem run_caps : (run previous requested caps).caps = caps := (foldl_visit_fixed _ _).2.2

/-- **The status of a requested stage is what the final planner decides for it.** -/
theorem status_eq {s : Stage} (hs : requested.contains s = true) :
    (run previous requested caps).statuses s = some ((run previous requested caps).decide s) ∧
      (run previous requested caps).changed s =
        changeOf ((run previous requested caps).decide s) := by
  obtain ⟨pre, post, he⟩ := List.append_of_mem (Stage.mem_all s)
  have hnd := Stage.nodup_all
  rw [he] at hnd
  obtain ⟨-, hpost, hdis⟩ := List.nodup_append.mp hnd
  obtain ⟨hsp, -⟩ := List.nodup_cons.mp hpost
  set q := pre.foldl visit (.start previous requested caps)
  obtain ⟨hq1, hq2, hq3⟩ := foldl_visit_fixed pre (.start previous requested caps)
  have hrun : run previous requested caps = post.foldl visit (q.visit s) := by
    unfold run
    rw [he, List.foldl_append, List.foldl_cons]
  have hsame : (run previous requested caps).SameOn q (s.dependencies caps.retarget) := by
    refine ⟨run_previous.trans hq1.symm, run_requested.trans hq2.symm, run_caps.trans hq3.symm,
      fun dep hd => ?_, fun dep hd => ?_⟩
    all_goals
      have hpre := Stage.dependency_earlier he hd
      obtain ⟨h1, h2⟩ := foldl_visit_of_notMem
        (fun hm => hdis dep hpre dep (List.mem_cons_of_mem s hm) rfl) (q.visit s)
      obtain ⟨h3, h4⟩ := visit_of_ne (p := q) (hdis dep hpre s List.mem_cons_self)
      rw [hrun]
    exacts [h1.trans h3, h2.trans h4]
  have hdec : (run previous requested caps).decide s = q.decide s :=
    decide_congr (by rw [run_caps]; exact hsame)
  have hnew : q.statuses s = none ∧ q.changed s = none :=
    foldl_visit_of_notMem (fun hm => hdis s hm s List.mem_cons_self rfl) _
  obtain ⟨h1, h2⟩ := foldl_visit_of_notMem hsp (q.visit s)
  have hv : q.visit s = q.record s (q.decide s) := if_pos (by rw [hq2]; exact hs)
  rw [hdec, hrun, h1, h2, hv]
  constructor
  · exact Function.update_self _ _ _
  · show Function.update q.changed s _ s = _
    rw [Function.update_self, hnew.2]
    cases changeOf (q.decide s) <;> rfl

theorem status_none {s : Stage} (hs : requested.contains s = false) :
    (run previous requested caps).statuses s = none ∧
      (run previous requested caps).changed s = none := by
  have key : ∀ (l : List Stage) (p : Planner), p.requested = requested →
      (l.foldl visit p).statuses s = p.statuses s ∧ (l.foldl visit p).changed s = p.changed s := by
    intro l
    induction l with
    | nil => exact fun p _ => ⟨rfl, rfl⟩
    | cons t l ih =>
      intro p hp
      by_cases ht : s = t
      · subst ht
        have hv : p.visit s = p := if_neg (by rw [hp, hs]; exact Bool.false_ne_true)
        rw [List.foldl_cons, hv]
        exact ih p hp
      · obtain ⟨h1, h2⟩ := ih (p.visit t) ((foldl_visit_fixed [t] p).2.1.trans hp)
        rw [List.foldl_cons, h1, h2]
        exact visit_of_ne ht
  unfold run
  obtain ⟨h1, h2⟩ := key Stage.all (.start previous requested caps) rfl
  exact ⟨h1, h2⟩

end Planner

open Planner

theorem status_plan (previous requested : StageIdentities) (caps : RecalcCapabilities) (s : Stage) :
    RecalcPlan.status (RecalcPlan.plan previous requested caps) s =
      (run previous requested caps).statuses s := by
  set step := fun (acc : Planner × List StageEntry) (stage : Stage) => (acc.1.visit stage,
    if acc.1.requested.contains stage then
      acc.2 ++ [⟨stage, acc.1.decide stage, (requested.effective caps.retarget stage).getD .absent⟩]
    else acc.2) with hstep
  have key : ∀ l : List Stage, l.Nodup →
      let acc := l.foldl step (.start previous requested caps, [])
      acc.1 = l.foldl visit (.start previous requested caps) ∧
        ∀ t, RecalcPlan.status acc.2 t = acc.1.statuses t := by
    intro l
    induction l using List.reverseRecOn with
    | nil => exact fun _ => ⟨rfl, fun _ => rfl⟩
    | append_singleton l a ih =>
      intro hnd
      obtain ⟨hl, -, hdis⟩ := List.nodup_append.mp hnd
      obtain ⟨h1, h2⟩ := ih hl
      simp only [List.foldl_append, List.foldl_cons, List.foldl_nil]
      set acc := l.foldl step (.start previous requested caps, [])
      refine ⟨by rw [← h1], fun t => ?_⟩
      have hnone : acc.1.statuses a = none := by
        rw [h1]
        exact (foldl_visit_of_notMem (fun hm => hdis a hm a List.mem_cons_self rfl) _).1
      have hfind : ∀ t, RecalcPlan.status acc.2 t = acc.1.statuses t := h2
      unfold RecalcPlan.status at hfind ⊢
      show Option.map _ (List.find? _ (step acc a).2) = (acc.1.visit a).statuses t
      by_cases hc : acc.1.requested.contains a = true
      · have hv : acc.1.visit a = acc.1.record a (acc.1.decide a) := if_pos hc
        simp only [hstep]
        rw [if_pos hc, hv, List.find?_append, Option.map_or, hfind]
        by_cases ht : t = a
        · subst ht
          rw [hnone]
          simp [record]
        · have hne : ¬ a = t := fun e => ht e.symm
          simp [record, Function.update_of_ne ht, hne]
      · have hv : acc.1.visit a = acc.1 := if_neg hc
        simp only [hstep]
        rw [if_neg hc, hv, hfind]
  obtain ⟨h1, h2⟩ := key Stage.all Stage.nodup_all
  rw [run, ← h1]
  exact h2 s

end Antecedent.Core
