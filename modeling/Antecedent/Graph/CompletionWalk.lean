import Antecedent.Graph.Completion

/-!
# The walk over the completions of a PAG

The proof that the walk of `completion.rs:373-411` classifies every assignment once, in ascending
order of the masks.

* `setEndpoint_spec`, `restoreCircle_spec`: on the graph of a partial assignment the mark of one
  site changes, or the graph refuses it for a directed cycle.
* `Done`: what the counters and the retained completions say once the masks below `q` are
  classified. `classify_done` and `prune_done` advance it, `walkLoop_spec` runs it to the end.
-/

namespace Antecedent.Graph

open Core
open Mixed

/-! ## Fallible calls -/

/-- The call answers when `h` holds, and every answer satisfies `P`. -/
def Outcome {E A : Type*} (h : Prop) (x : Except E A) (P : A → Prop) : Prop :=
  (h → ∃ r, x = .ok r) ∧ ∀ r, x = .ok r → P r

theorem Outcome.ok {E A : Type*} {h : Prop} {r : A} {P : A → Prop} (hr : P r) :
    Outcome h (.ok r : Except E A) P :=
  ⟨fun _ => ⟨r, rfl⟩, fun _ he => Except.ok.inj he ▸ hr⟩

theorem Outcome.bind {E A B : Type*} {h : Prop} {x : Except E A} {P : A → Prop}
    {f : A → Except E B} {Q : B → Prop} (hx : Outcome h x P)
    (hf : ∀ a, P a → Outcome h (f a) Q) : Outcome h (x.bind f) Q := by
  cases x with
  | error e =>
    exact ⟨fun hh => absurd (hx.1 hh) (by simp), fun r he => absurd he (by simp [Except.bind])⟩
  | ok a => exact hf a (hx.2 a rfl)

/-! ## The shared graph -/

section SharedGraph

variable {g : Pag}

/-- The marks of an edge after its circle at the first or the second end is set. -/
def siteMarks (atACircle : Bool) (ep : Endpoint) (w : Marks) : Marks :=
  if atACircle then (ep, w.2.1, w.2.2) else (w.1, ep, w.2.2)

theorem fill_setAt {a b : Nat} {f : Bool} (hs : (a, b, f) ∈ circleSites g)
    (val : Nat → Nat → Endpoint) (ep : Endpoint) {w : Marks}
    (hw : g.look.fill val a b = some w) (x y : Nat) :
    g.look.fill (setAt val (siteEnds (a, b, f)) ep) x y =
      if x = a ∧ y = b then some (siteMarks f ep w)
      else if x = b ∧ y = a then some (siteMarks f ep w).flip
      else g.look.fill val x y := by
  obtain ⟨hab, v, hv, hc⟩ := (mem_circleSites g).mp hs
  have hne : a ≠ b := Nat.ne_of_lt hab
  have hfwd : g.look.fill (setAt val (siteEnds (a, b, f)) ep) a b = some (siteMarks f ep w) := by
    obtain ⟨u, hu, rfl⟩ := Option.map_eq_some_iff.mp hw
    unfold Look.fill
    rw [hu]
    cases f with
    | true =>
      simp only [siteEnds, if_true] at hv
      rw [hu] at hv
      obtain rfl := Option.some.inj hv
      simp [setAt, siteEnds, siteMarks, hc, hne, hne.symm]
    | false =>
      simp only [siteEnds, Bool.false_eq_true, if_false] at hv
      have hv' := g.mirrored b a v hv
      rw [hu] at hv'
      obtain rfl := Option.some.inj hv'
      simp [setAt, siteEnds, siteMarks, hc, hne, hne.symm, Marks.flip]
  by_cases h1 : x = a ∧ y = b
  · obtain ⟨rfl, rfl⟩ := h1
    rw [if_pos ⟨rfl, rfl⟩, hfwd]
  · rw [if_neg h1]
    by_cases h2 : x = b ∧ y = a
    · obtain ⟨rfl, rfl⟩ := h2
      rw [if_pos ⟨rfl, rfl⟩, (g.mirrored.fill _) y x _ hfwd]
    · rw [if_neg h2]
      have hends : siteEnds (a, b, f) = (a, b) ∨ siteEnds (a, b, f) = (b, a) := by
        cases f
        · exact Or.inr rfl
        · exact Or.inl rfl
      have hxy : setAt val (siteEnds (a, b, f)) ep x y = val x y := if_neg fun h => by
        rcases hends with he | he <;> simp_all
      have hyx : setAt val (siteEnds (a, b, f)) ep y x = val y x := if_neg fun h => by
        rcases hends with he | he <;> simp_all
      unfold Look.fill
      rw [hxy, hyx]

variable {graph : Pag} {val : Nat → Nat → Endpoint} {s : CircleSite} {j p : Nat}

section

variable (hlook : graph.look = g.look.fill val) (hs : s ∈ circleSites g)

include hlook hs

/-- **Setting a site** of a partly assigned graph changes its mark alone; a refusal leaves the
graph, and the marks asked for close a directed cycle. -/
theorem setEndpoint_spec (ep : Endpoint) : (setEndpoint graph s ep).1.nodes = graph.nodes ∧
      (((setEndpoint graph s ep).2 = true ∧
          (setEndpoint graph s ep).1.look = g.look.fill (setAt val (siteEnds s) ep)) ∨
        ((setEndpoint graph s ep).2 = false ∧ ep ≠ .circle ∧
          (setEndpoint graph s ep).1.look = graph.look ∧
          (g.look.fill (setAt val (siteEnds s) ep)).Violates)) := by
  obtain ⟨a, b, f⟩ := s
  obtain ⟨hab, v, hv, hc⟩ := (mem_circleSites g).mp hs
  obtain ⟨w, hw⟩ : ∃ w, graph.look a b = some w := by
    have hsome : ∃ u, g.look a b = some u := by
      cases f with
      | true => exact ⟨v, hv⟩
      | false => exact ⟨_, g.mirrored b a v hv⟩
    obtain ⟨u, hu⟩ := hsome
    rw [hlook]
    unfold Look.fill
    rw [hu]
    exact ⟨_, rfl⟩
  have hfill := fill_setAt hs val ep (hlook ▸ hw)
  rw [← hlook] at hfill
  have hedge : edgeBetween graph.adj a b = some ⟨a, b, w.1, w.2.1, w.2.2⟩ := by
    rw [graph.stored.edgeBetween_eq a b, show Graph.look graph.adj a b = some w from hw]
    rfl
  have hmarks : siteMarks f ep w = ((if f then (ep, w.2.1) else (w.1, ep)).1,
      (if f then (ep, w.2.1) else (w.1, ep)).2, w.2.2) := by
    cases f <;> rfl
  obtain ⟨hnodes, hset⟩ := graph.setMarks_spec hw (if f then (ep, w.2.1) else (w.1, ep)).1
    (if f then (ep, w.2.1) else (w.1, ep)).2
  rw [← hmarks] at hset
  unfold setEndpoint
  simp only [hedge]
  rcases hset with ⟨hok, hu⟩ | ⟨src, dst, hp, herr, hsame, hpath⟩
  · cases hr : graph.setMarks a b (if f then (ep, w.2.1) else (w.1, ep)).1
      (if f then (ep, w.2.1) else (w.1, ep)).2 with
    | mk graph' r =>
      rw [hr] at hok hu hnodes
      simp only at hok hu hnodes
      subst hok
      refine ⟨hnodes, Or.inl ⟨rfl, ?_⟩⟩
      funext x y
      exact (hu x y).trans (hfill x y).symm
  · cases hr : graph.setMarks a b (if f then (ep, w.2.1) else (w.1, ep)).1
      (if f then (ep, w.2.1) else (w.1, ep)).2 with
    | mk graph' r =>
      rw [hr] at herr hsame hnodes
      simp only at herr hsame hnodes
      subst herr
      refine ⟨hnodes, Or.inr ⟨rfl, ?_, funext fun x => funext fun y => hsame x y, ?_⟩⟩
      · rintro rfl
        cases f <;> rcases parentChild_eq_some.mp hp with ⟨h1, h2, -⟩ | ⟨h1, h2, -⟩ <;> simp_all
      · have hdir : (g.look.fill (setAt val (siteEnds (a, b, f)) ep)).Dir src dst := by
          refine ⟨w.2.2, ?_⟩
          have hne : a ≠ b := Nat.ne_of_lt hab
          rcases parentChild_eq_some.mp hp with ⟨h1, h2, rfl, rfl⟩ | ⟨h1, h2, rfl, rfl⟩
          · simp only at h1 h2
            rw [hfill, if_pos ⟨rfl, rfl⟩, hmarks, h1, h2]
          · simp only at h1 h2
            rw [hfill, if_neg (by simp [hne.symm]), if_pos ⟨rfl, rfl⟩, hmarks, h1, h2]
            rfl
        refine Or.inr (Or.inr ⟨src, Relation.TransGen.head'_iff.mpr ⟨dst, hdir, ?_⟩⟩)
        refine Relation.ReflTransGen.mono ?_ _ _ hpath
        rintro x y ⟨⟨m, hm⟩, h1, h2⟩
        exact ⟨m, by rw [hfill, if_neg h1, if_neg h2, hm]⟩

theorem restoreCircle_spec :
    ∃ graph', restoreCircle graph s = .ok graph' ∧ graph'.nodes = graph.nodes ∧
      graph'.look = g.look.fill (setAt val (siteEnds s) .circle) := by
  obtain ⟨hnodes, ⟨hok, hl⟩ | ⟨-, hne, -⟩⟩ := setEndpoint_spec hlook hs .circle
  · unfold restoreCircle
    cases hr : setEndpoint graph s .circle with
    | mk graph' r =>
      rw [hr] at hok hnodes hl
      simp only at hok hnodes hl
      subst hok
      exact ⟨graph', rfl, hnodes, hl⟩
  · exact absurd rfl hne

end

theorem site_mem (hj : j < (circleSites g).length) :
    (circleSites g).getD j (0, 0, false) ∈ circleSites g := by
  rw [List.getD_eq_getElem _ _ hj]
  exact List.getElem_mem hj

theorem refused_below {lo : Nat} (hp : 2 ^ lo ∣ p)
    (hv : (g.look.fill (partialValue g p lo .circle)).Violates) {mask : Nat} (h1 : p ≤ mask)
    (h2 : mask < p + 2 ^ lo) : ¬ (assigned g mask).Ancestral := fun h =>
  h.not_violates (g.mirrored.fill _) ((refines_mask hp h1 h2).violates hv)

/-- **One choice of a frame**: the graph takes the bit, or no assignment below is ancestral. -/
theorem turn_spec {m : Endpoint} (hp : 2 ^ (j + 1) ∣ p) (hj : j < (circleSites g).length)
    (hlook : graph.look = g.look.fill (partialValue g p (j + 1) m)) (b : Bool) :
    let r := setEndpoint graph ((circleSites g).getD j (0, 0, false)) (bitMark b)
    r.1.nodes = graph.nodes ∧
      (∃ m', r.1.look = g.look.fill (partialValue g p (j + 1) m')) ∧
      if !r.2 || !ancestralUpToOpenMarks r.1 (decide (0 < j)) then
        ∀ mask, p + b.toNat * 2 ^ j ≤ mask → mask < p + b.toNat * 2 ^ j + 2 ^ j →
          ¬ (assigned g mask).Ancestral
      else r.1.look = g.look.fill (partialValue g (p + b.toNat * 2 ^ j) j .circle) := by
  have hq : 2 ^ j ∣ p + b.toNat * 2 ^ j :=
    Nat.dvd_add (Nat.dvd_trans (Nat.pow_dvd_pow 2 (Nat.le_succ j)) hp) (Nat.dvd_mul_left _ _)
  intro r
  obtain ⟨hnodes, hset⟩ := setEndpoint_spec hlook (site_mem hj) (bitMark b)
  rw [setAt_partialValue hj] at hset
  refine ⟨hnodes, ?_, ?_⟩
  · rcases hset with ⟨-, hl⟩ | ⟨-, -, hl, -⟩
    · exact ⟨_, hl⟩
    · exact ⟨m, hl.trans hlook⟩
  · rw [partialValue_descend hp b] at hset
    rcases hset with ⟨hok, hl⟩ | ⟨hno, -, -, hv⟩
    · cases hcheck : ancestralUpToOpenMarks r.1 (decide (0 < j)) with
      | true =>
        have hr : r.2 = true := hok
        rw [hr, Bool.not_true, Bool.or_false, if_neg Bool.false_ne_true]
        exact hl
      | false =>
        rw [if_pos (by simp)]
        intro mask h1 h2
        rcases Nat.eq_zero_or_pos j with rfl | hpos
        · obtain rfl : mask = p + b.toNat * 2 ^ 0 := by
            rw [Nat.pow_zero] at h1 h2 ⊢
            omega
          intro hanc
          rw [partialValue_zero] at hl
          have : isAncestralOrientation r.1 = true := isAncestralOrientation_iff.mpr (hl ▸ hanc)
          exact absurd (hcheck.symm.trans this) Bool.false_ne_true
        · rw [decide_eq_true hpos] at hcheck
          exact refused_below hq (hl ▸ violates_of_refused hcheck) h1 h2
    · have hr : r.2 = false := hno
      rw [hr, Bool.not_false, Bool.true_or, if_pos rfl]
      exact fun mask h1 h2 => refused_below hq hv h1 h2

end SharedGraph

/-! ## The enumeration -/

theorem assigned_mirrored (g : Pag) (mask : Nat) : (assigned g mask).Mirrored := g.mirrored.fill _

def assignedMixed (g : Pag) (mask : Nat) : MixedGraph Nat :=
  (assigned g mask).mixed (assigned_mirrored g mask)

/-- The assignment is a maximal ancestral graph with the unshielded colliders of the PAG. -/
def Completes (g : Pag) (mask : Nat) : Prop :=
  (assigned g mask).IsMag g.nodeCount ∧ SameColliders g.look (assigned g mask)

open Classical in
/-- The masks below `q` whose assignment completes the PAG, ascending. -/
noncomputable def members (g : Pag) (q : Nat) : List Nat :=
  (List.range q).filter fun mask => decide (Completes g mask)

/-- **The enumeration**: every mask over the circle sites. -/
noncomputable def enumeration (g : Pag) : List Nat := members g (2 ^ (circleSites g).length)

/-- `graph` carries the assignment of `mask`. -/
def Realizes (g : Pag) (graph : Pag) (mask : Nat) : Prop :=
  graph.nodes = g.nodes ∧ graph.look = assigned g mask

section Members

variable {g : Pag}

variable {q : Nat}

theorem mem_members {mask : Nat} : mask ∈ members g q ↔ mask < q ∧ Completes g mask := by
  simp only [members, List.mem_filter, List.mem_range, decide_eq_true_eq]

theorem members_succ_of (h : Completes g q) : members g (q + 1) = members g q ++ [q] := by
  unfold members
  rw [List.range_succ, List.filter_append, List.filter_singleton]
  simp [h]

theorem members_succ_of_not (h : ¬ Completes g q) : members g (q + 1) = members g q := by
  unfold members
  rw [List.range_succ, List.filter_append, List.filter_singleton]
  simp [h]

theorem members_skip {q : Nat} : ∀ {d : Nat}, (∀ mask, q ≤ mask → mask < q + d →
    ¬ Completes g mask) → members g (q + d) = members g q
  | 0, _ => rfl
  | d + 1, h =>
    (members_succ_of_not (h (q + d) (Nat.le_add_right q d) (Nat.lt_succ_self _))).trans
      (members_skip fun mask h1 h2 => h mask h1 (Nat.lt_succ_of_lt h2))

/-- A retained prefix takes the next member while it is below the cap. -/
theorem forall₂_retain {R : Pag → Nat → Prop} {cs : List Pag} {ms : List Nat} {n : Nat}
    (h : List.Forall₂ R cs (ms.take n)) {c : Pag} {m : Nat} (hc : R c m) :
    List.Forall₂ R (if cs.length < n then cs ++ [c] else cs) ((ms ++ [m]).take n) := by
  have hlen := h.length_eq
  rw [List.length_take] at hlen
  split_ifs with hlt
  · have hms : ms.length < n := by omega
    rw [List.take_of_length_le (Nat.le_of_lt hms)] at h
    rw [List.take_of_length_le (by rw [List.length_append, List.length_singleton]; omega)]
    exact List.rel_append h (List.Forall₂.cons hc List.Forall₂.nil)
  · rw [List.take_append_of_le_length (by omega)]
    exact h

end Members

/-! ## What the walk knows -/

/-- The masks below `q` are classified. -/
structure Done (g : Pag) (maxCompletions : Nat) (s : WalkState) (q : Nat) : Prop where
  examined : s.report.assignmentsExamined = min q u64Max
  audited : s.report.equivalenceAuditSkipped = false → s.auditClass = true
  represented : s.report.equivalenceAuditSkipped = false → s.report.ambiguousGlobalClass = false →
    s.representedCompletions = (members g q).length
  completions : s.report.equivalenceAuditSkipped = false → s.report.ambiguousGlobalClass = false →
    List.Forall₂ (Realizes g) s.completions ((members g q).take maxCompletions)
  model : s.report.equivalenceAuditSkipped = false → s.report.ambiguousGlobalClass = false →
    circleSites g ≠ [] → ∀ mask ∈ members g q,
      s.referenceSignature = some (answers (assignedMixed g mask) g.nodeCount)

section Classify

variable {g : Pag} {maxCompletions : Nat}

theorem satAdd_min (q d : Nat) : satAdd (min q u64Max) d = min (q + d) u64Max := by
  unfold satAdd
  omega

theorem satAdd_subtree (q j : Nat) :
    satAdd (min q u64Max) (subtreeAssignments j) = min (q + 2 ^ j) u64Max := by
  unfold subtreeAssignments
  split_ifs with hj
  · have hge : u64Max ≤ 2 ^ j := by
      have h64 : 64 ≤ j := by
        unfold u32Max at hj
        omega
      exact Nat.le_trans (by decide) (Nat.pow_le_pow_right Nat.two_pos h64)
    unfold satAdd
    omega
  · exact satAdd_min q _

variable {s s' : WalkState} {q : Nat} {candidate : Pag} {w : Walk}

/-- **A pruned subtree** holds no member. -/
theorem prune_done {j : Nat} (h : Done g maxCompletions s q)
    (hno : ∀ mask, q ≤ mask → mask < q + 2 ^ j → ¬ (assigned g mask).Ancestral) :
    Done g maxCompletions (Walk.prune s j) (q + 2 ^ j) := by
  have hskip : members g (q + 2 ^ j) = members g q :=
    members_skip fun mask h1 h2 hc => hno mask h1 h2 hc.1.toAncestral
  refine ⟨?_, h.audited, ?_, ?_, ?_⟩
  · unfold Walk.prune
    simp only
    rw [h.examined, satAdd_subtree]
  · rw [hskip]
    exact h.represented
  · rw [hskip]
    exact h.completions
  · rw [hskip]
    exact h.model

/-- The walk of `with_budget`: nothing is projected. -/
structure Plain (w : Walk) (g : Pag) (maxCompletions : Nat) : Prop where
  pag : w.pag = g
  sites : w.sites = circleSites g
  project : w.project = some
  auditSource : w.auditSource = g
  maxCompletions : w.maxCompletions = maxCompletions

/-- What a call that may meet a bound leaves behind, once it was not stopped. -/
def Leaves (budget : SearchBudget) (P : WalkState → Prop)
    (r : Option SearchStop × WalkState × SearchBudget) : Prop :=
  r.2.2.limits = budget.limits ∧ budget.operations ≤ r.2.2.operations ∧ (r.1 = none → P r.2.1)

theorem leaves_rejected {budget : SearchBudget} {P : WalkState → Prop} (h : P s) :
    Leaves budget P (none, s, budget) := ⟨rfl, Nat.le_refl _, fun _ => h⟩

theorem allowAudit_cases (w : Walk) (s : WalkState) (n : Nat) :
    (w.allowAudit s n).report.assignmentsExamined = s.report.assignmentsExamined ∧
      (((w.allowAudit s n).auditClass = false ∧
          (w.allowAudit s n).report.equivalenceAuditSkipped = true) ∨
        ∃ a, w.allowAudit s n = { s with auditAllowance := a }) := by
  unfold Walk.allowAudit
  simp only
  split_ifs
  · exact ⟨rfl, Or.inl ⟨rfl, rfl⟩⟩
  · exact ⟨rfl, Or.inr ⟨_, rfl⟩⟩
  · exact ⟨rfl, Or.inr ⟨s.auditAllowance, rfl⟩⟩

theorem realizes_mixed (hc : Realizes g candidate q) :
    candidate.mixed = assignedMixed g q := by
  have key : ∀ (L L' : Look) (h : L.Mirrored) (h' : L'.Mirrored), L = L' → L.mixed h = L'.mixed h' := by
    rintro L _ h h' rfl
    rfl
  exact key _ _ _ _ hc.2

theorem auditSignature_spec (hw : Plain w g maxCompletions)
    (hc : Realizes g candidate q) (hanc : candidate.look.Ancestral) (s : WalkState)
    (budget : SearchBudget) : Outcome (g.nodeCount ≤ u32Max) (w.auditSignature s candidate budget)
      fun r => r.2.limits = budget.limits ∧ budget.operations ≤ r.2.operations ∧
        ∀ sig, r.1 = .ok sig → circleSites g ≠ [] →
          sig = answers (assignedMixed g q) g.nodeCount := by
  unfold Walk.auditSignature
  rw [hw.sites]
  have hn : candidate.nodeCount = g.nodeCount := congrArg List.length hc.1
  split_ifs with he
  · exact Outcome.ok ⟨rfl, Nat.le_refl _, fun _ _ hne => absurd (List.isEmpty_iff.mp he) hne⟩
  · constructor
    · intro hle
      obtain ⟨r, b, hr, -⟩ := mSeparationSignature_spec hanc (hn ▸ hle) (circleSites g).length
        (w.liveBytes s) budget
      exact ⟨_, hr⟩
    · rintro ⟨r, b⟩ hr
      obtain ⟨h1, h2, h3⟩ := mSeparationSignature_sound hanc hr
      refine ⟨h1, h2, fun sig hs _ => ?_⟩
      rw [h3 sig hs, hn, realizes_mixed hc]

/-- A state that only rejected the mask `q`. -/
theorem reject_done (h : Done g maxCompletions s q) (hq : ¬ Completes g q)
    (hex : s'.report.assignmentsExamined = satAdd s.report.assignmentsExamined 1)
    (hskip : s'.report.equivalenceAuditSkipped = s.report.equivalenceAuditSkipped)
    (hamb : s'.report.ambiguousGlobalClass = s.report.ambiguousGlobalClass)
    (haud : s'.auditClass = s.auditClass)
    (hrep : s'.representedCompletions = s.representedCompletions)
    (hcomp : s'.completions = s.completions) (href : s'.referenceSignature = s.referenceSignature) :
    Done g maxCompletions s' (q + 1) := by
  refine ⟨by rw [hex, h.examined, satAdd_min], ?_, ?_, ?_, ?_⟩
  · rw [hskip, haud]
    exact h.audited
  all_goals rw [hskip, hamb, members_succ_of_not hq]
  · rw [hrep]
    exact h.represented
  · rw [hcomp]
    exact h.completions
  · rw [href]
    exact h.model

/-- Once the audit gave up or met two classes, only the count is known. -/
theorem done_of_open (hex : s.report.assignmentsExamined = min q u64Max)
    (haud : s.report.equivalenceAuditSkipped = false → s.auditClass = true)
    (hopen : ¬ (s.report.equivalenceAuditSkipped = false ∧
      s.report.ambiguousGlobalClass = false)) : Done g maxCompletions s q :=
  ⟨hex, haud, fun h1 h2 => absurd ⟨h1, h2⟩ hopen, fun h1 h2 => absurd ⟨h1, h2⟩ hopen,
    fun h1 h2 => absurd ⟨h1, h2⟩ hopen⟩

theorem retain_done (hw : Plain w g maxCompletions)
    (hc : Realizes g candidate q) (hq : Completes g q) (h : Done g maxCompletions s q)
    (hex : s'.report.assignmentsExamined = satAdd s.report.assignmentsExamined 1)
    (hskip : s'.report.equivalenceAuditSkipped = s.report.equivalenceAuditSkipped)
    (hamb : s'.report.ambiguousGlobalClass = s.report.ambiguousGlobalClass)
    (haud : s'.auditClass = s.auditClass)
    (hrep : s'.representedCompletions = s.representedCompletions)
    (hcomp : s'.completions = s.completions) (hnew : circleSites g ≠ [] →
      s'.referenceSignature = some (answers (assignedMixed g q) g.nodeCount))
    (hold : ∀ sig, s.referenceSignature = some sig → s'.referenceSignature = some sig) :
    Done g maxCompletions (w.retain s' candidate) (q + 1) := by
  have hmem := members_succ_of hq
  refine ⟨by rw [← satAdd_min, ← h.examined, ← hex]; rfl, ?_, fun h1 h2 => ?_, fun h1 h2 => ?_,
    fun h1 h2 hne mask hm => ?_⟩
  · exact fun h1 => haud.trans (h.audited (hskip.symm.trans h1))
  · rw [hmem, List.length_append, List.length_singleton,
      ← h.represented (hskip.symm.trans h1) (hamb.symm.trans h2), ← hrep]
    rfl
  · have := forall₂_retain (h.completions (hskip.symm.trans h1) (hamb.symm.trans h2)) hc
    unfold Walk.retain
    rw [hmem, hw.maxCompletions, hcomp]
    exact this
  · rw [hmem, List.mem_append, List.mem_singleton] at hm
    rcases hm with hm | rfl
    · exact hold _ (h.model (hskip.symm.trans h1) (hamb.symm.trans h2) hne mask hm)
    · exact hnew hne

/-- **A locally valid assignment audited.** -/
theorem auditCandidate_done (hw : Plain w g maxCompletions) {s₀ : WalkState}
    (h : Done g maxCompletions s₀ q) (hs : s = { s₀ with report := { s₀.report with
      assignmentsExamined := satAdd s₀.report.assignmentsExamined 1 } })
    (hc : Realizes g candidate q) (hq : Completes g q) (budget : SearchBudget) :
    Outcome (g.nodeCount ≤ u32Max) (w.auditCandidate s candidate candidate budget)
      (Leaves budget fun s' => Done g maxCompletions s' (q + 1)) := by
  have hanc : candidate.look.Ancestral := hc.2 ▸ hq.1.toAncestral
  obtain ⟨hex, hcases⟩ := allowAudit_cases w s candidate.nodeCount
  have hcount : (w.allowAudit s candidate.nodeCount).report.assignmentsExamined =
      min (q + 1) u64Max := by
    rw [hex, hs, ← satAdd_min, ← h.examined]
  unfold Walk.auditCandidate
  rcases hcases with ⟨hoff, hskip⟩ | ⟨a, ha⟩
  · simp only [hoff, Bool.false_eq_true, if_false]
    exact Outcome.ok (leaves_rejected (done_of_open hcount
      (fun h1 => absurd (hskip.symm.trans h1) (by simp))
      fun h1 => absurd (hskip.symm.trans h1.1) (by simp)))
  · rw [ha] at hcount ⊢
    cases haudit : s.auditClass with
    | false =>
      -- the audit is off, so it was skipped before
      have hskip : s.report.equivalenceAuditSkipped ≠ false := fun h1 => by
        rw [hs] at haudit h1
        exact absurd (haudit.symm.trans (h.audited h1)) Bool.false_ne_true
      simp only [Bool.false_eq_true, if_false]
      exact Outcome.ok (leaves_rejected (done_of_open hcount (fun h1 => absurd h1 hskip)
        fun h1 => hskip h1.1))
    | true =>
      simp only [if_true, bind, pure, Except.pure]
      refine Outcome.bind (auditSignature_spec hw hc hanc _ budget) fun r hr => ?_
      obtain ⟨r, b⟩ := r
      obtain ⟨hlim, hops, hsig⟩ := hr
      cases r with
      | error stop => exact Outcome.ok ⟨hlim, hops, fun hnone => absurd hnone (by simp)⟩
      | ok sig =>
        subst hs
        unfold Walk.compareSignature
        simp only
        cases href : s₀.referenceSignature with
        | none =>
          refine Outcome.ok ⟨hlim, hops, fun _ => retain_done hw hc hq h rfl rfl rfl haudit.symm
            rfl rfl (fun hne => ?_) fun old hold => absurd (href.symm.trans hold) (by simp)⟩
          rw [← hsig sig rfl hne]
        | some reference =>
          by_cases hne : reference = sig
          · subst hne
            simp only [ne_eq, not_true_eq_false, if_false]
            refine Outcome.ok ⟨hlim, hops, fun _ => retain_done hw hc hq h rfl rfl rfl haudit.symm
              rfl rfl (fun hne => ?_) fun old hold => href.symm.trans hold⟩
            rw [← hsig reference rfl hne]
          · simp only [ne_eq, hne, not_false_eq_true, if_true]
            exact Outcome.ok ⟨hlim, hops, fun _ => done_of_open hcount (fun _ => rfl)
              fun h1 => absurd h1.2 (by simp)⟩

/-- **One assignment classified.** -/
theorem classify_done (hw : Plain w g maxCompletions)
    (h : Done g maxCompletions s q) (hc : Realizes g candidate q)
    (budget : SearchBudget) : Outcome (g.nodeCount ≤ u32Max) (w.classify s candidate budget)
      (Leaves budget fun s' => Done g maxCompletions s' (q + 1)) := by
  have hn : candidate.nodeCount = g.nodeCount := congrArg List.length hc.1
  have hskel : ∀ a b, (g.look a b).isSome = (candidate.look a b).isSome := by
    intro a b
    rw [hc.2]
    unfold assigned Look.fill
    exact Option.isSome_map.symm
  unfold Walk.classify
  rw [hw.project, hw.auditSource]
  simp only [bind, pure, Except.pure]
  refine Outcome.bind (P := fun b => b = true ↔ (assigned g q).IsMag g.nodeCount) ⟨fun hle => ?_,
    fun b hb => ?_⟩ fun mag hmag => ?_
  · obtain ⟨b, hb, -⟩ := isMaximalAncestralGraph_spec (g := candidate) (hn ▸ hle)
    exact ⟨b, hb⟩
  · have := isMaximalAncestralGraph_sound hb
    rwa [hc.2, hn] at this
  cases mag with
  | false =>
    have hq : ¬ Completes g q := fun hq => absurd (hmag.mpr hq.1) Bool.false_ne_true
    exact Outcome.ok (leaves_rejected (reject_done h hq rfl rfl rfl rfl rfl rfl rfl))
  | true =>
    have hM := hmag.mp rfl
    obtain ⟨same, hsame, hiff⟩ := preservesUnshieldedColliders_spec hskel
    simp only [Bool.not_true, Bool.false_eq_true, if_false, hsame, Except.bind]
    rw [hc.2] at hiff
    cases same with
    | false =>
      have hq : ¬ Completes g q := fun hq => absurd (hiff.mpr hq.2) Bool.false_ne_true
      exact Outcome.ok (leaves_rejected (reject_done h hq rfl rfl rfl rfl rfl rfl rfl))
    | true => exact auditCandidate_done hw h rfl hc ⟨hM, hiff.mp rfl⟩ budget

end Classify

/-! ## The loop -/

/-- The frames below the top hold the bits of `p`: a frame that was left at choice `b + 1` chose
`b`. -/
def OpenFrames (k : Nat) : List (Nat × Nat) → Nat → Prop
  | [], p => p = 0
  | (depth, choice) :: rest, p => depth = rest.length ∧ depth < k ∧ ∃ p' b, OpenFrames k rest p' ∧
      choice = Bool.toNat b + 1 ∧ p = p' + b.toNat * 2 ^ (k - 1 - depth)

/-- The state between two turns: the marks follow the frames, and the masks the frames have passed
are classified. -/
def Resumes (g : Pag) (maxCompletions : Nat) (graph : Pag) (s : WalkState) :
    List (Nat × Nat) → Prop
  | [] => Done g maxCompletions s (2 ^ (circleSites g).length)
  | (depth, choice) :: rest => depth = rest.length ∧ depth < (circleSites g).length ∧
      choice ≤ 2 ∧ graph.nodes = g.nodes ∧ ∃ p m, OpenFrames (circleSites g).length rest p ∧
      graph.look = g.look.fill (partialValue g p ((circleSites g).length - 1 - depth + 1) m) ∧
      Done g maxCompletions s (p + choice * 2 ^ ((circleSites g).length - 1 - depth))

section Loop

variable {g : Pag} {maxCompletions : Nat}

theorem OpenFrames.dvd {k : Nat} : ∀ {frames : List (Nat × Nat)} {p : Nat}, OpenFrames k frames p →
    2 ^ (k - frames.length) ∣ p
  | [], p, h => by
    rw [show p = 0 from h]
    exact Nat.dvd_zero _
  | (depth, choice) :: rest, p, h => by
    obtain ⟨rfl, hd, p', b, hrest, -, rfl⟩ := h
    have hlen : ((rest.length, choice) :: rest).length = rest.length + 1 := rfl
    rw [hlen, show k - (rest.length + 1) = k - 1 - rest.length by omega]
    refine Nat.dvd_add (Nat.dvd_trans (Nat.pow_dvd_pow 2 ?_) hrest.dvd) (Nat.dvd_mul_left _ _)
    omega

variable {s : WalkState}

/-- **A finished frame closes**: its site is a circle again, and the frame below goes on where it
was left. -/
theorem pop_resumes {graph : Pag} {p : Nat} {rest : List (Nat × Nat)}
    (hd : rest.length < (circleSites g).length) (hopen : OpenFrames (circleSites g).length rest p)
    (hnodes : graph.nodes = g.nodes) (hlook : graph.look =
      g.look.fill (partialValue g p ((circleSites g).length - 1 - rest.length + 1) .circle))
    (hdone : Done g maxCompletions s (p + 2 * 2 ^ ((circleSites g).length - 1 - rest.length))) :
    Resumes g maxCompletions graph s rest := by
  have hpow : 2 * 2 ^ ((circleSites g).length - 1 - rest.length) =
      2 ^ ((circleSites g).length - rest.length) := by
    rw [Nat.mul_comm, ← Nat.pow_succ]
    congr 1
    omega
  rw [hpow] at hdone
  cases rest with
  | nil =>
    obtain rfl : p = 0 := hopen
    unfold Resumes
    simpa using hdone
  | cons frame rest =>
    obtain ⟨depth, choice⟩ := frame
    obtain ⟨rfl, hd', p', b, hopen', rfl, rfl⟩ := hopen
    have hj : (circleSites g).length - 1 - (rest.length + 1) + 1 =
        (circleSites g).length - 1 - rest.length := by
      rw [List.length_cons] at hd
      omega
    refine ⟨rfl, hd', ?_, hnodes, p', bitMark b, hopen', ?_, ?_⟩
    · cases b <;> simp
    · rw [hlook, List.length_cons, hj, partialValue_descend]
      have := hopen'.dvd
      rwa [show (circleSites g).length - rest.length =
        (circleSites g).length - 1 - rest.length + 1 by omega] at this
    · rw [List.length_cons, show (circleSites g).length - (rest.length + 1) =
        (circleSites g).length - 1 - rest.length by omega] at hdone
      rw [Nat.add_mul, Nat.one_mul, ← Nat.add_assoc]
      exact hdone

/-- **The walk classifies every mask.** -/
theorem walkLoop_spec {w : Walk} (hw : Plain w g maxCompletions) :
    ∀ (fuel : Nat) (graph : Pag) (frames : List (Nat × Nat)) (s : WalkState)
      (budget : SearchBudget), Resumes g maxCompletions graph s frames →
      2 * (budget.limits.operations - budget.operations) + frames.length < fuel →
      Outcome (g.nodeCount ≤ u32Max) (w.walkLoop fuel graph frames s budget) fun r =>
        r.1 = none → Done g maxCompletions r.2.1 (2 ^ (circleSites g).length)
  | 0, _, _, _, _, _, hf => absurd hf (Nat.not_lt_zero _)
  | fuel + 1, graph, [], s, budget, h, _ => Outcome.ok fun _ => h
  | fuel + 1, graph, (depth, choice) :: rest, s, budget, h, hf => by
    obtain ⟨rfl, hd, hchoice, hnodes, p, m, hopen, hlook, hdone⟩ := h
    have hdvd : 2 ^ ((circleSites g).length - 1 - rest.length + 1) ∣ p := by
      have := hopen.dvd
      rwa [show (circleSites g).length - rest.length =
        (circleSites g).length - 1 - rest.length + 1 by omega] at this
    have hj : (circleSites g).length - 1 - rest.length < (circleSites g).length := by omega
    rw [List.length_cons] at hf
    unfold Walk.walkLoop
    rw [hw.sites]
    simp only
    by_cases hc : choice = 2
    · subst hc
      obtain ⟨graph', hok, hn, hl⟩ := restoreCircle_spec hlook (site_mem hj)
      rw [if_pos rfl, hok]
      rw [setAt_partialValue hj] at hl
      exact walkLoop_spec hw fuel graph' rest s budget
        (pop_resumes hd hopen (hn.trans hnodes) hl hdone) (by omega)
    · rw [if_neg hc]
      obtain ⟨b, rfl⟩ : ∃ b : Bool, choice = b.toNat := by
        rcases Nat.lt_or_ge choice 1 with h0 | h1
        · exact ⟨false, by rw [Bool.toNat_false]; omega⟩
        · exact ⟨true, by rw [Bool.toNat_true]; omega⟩
      have hend : (if b.toNat = 0 then Endpoint.tail else Endpoint.arrow) = bitMark b := by
        cases b <;> rfl
      rw [hend]
      cases hch : budget.charge (rest.length + 1) (w.liveBytes s) with
      | mk budget' stop =>
        cases stop with
        | some stop => exact Outcome.ok fun hnone => absurd hnone (by simp)
        | none =>
          obtain ⟨hlt, hlim, hops⟩ := SearchBudget.charge_none hch
          obtain ⟨hn, ⟨m', hm'⟩, hturn⟩ := turn_spec hdvd hj hlook b
          simp only
          cases hset : setEndpoint graph ((circleSites g).getD
            ((circleSites g).length - 1 - rest.length) (0, 0, false)) (bitMark b) with
          | mk graph' set =>
            rw [hset] at hn hm' hturn
            simp only at hn hm' hturn ⊢
            have hb := Bool.toNat_le b
            -- the frame goes on with its next choice
            have hnext : ∀ s', Done g maxCompletions s'
                (p + b.toNat * 2 ^ ((circleSites g).length - 1 - rest.length) +
                  2 ^ ((circleSites g).length - 1 - rest.length)) →
                Resumes g maxCompletions graph' s' ((rest.length, b.toNat + 1) :: rest) := by
              intro s' hs'
              refine ⟨rfl, hd, by omega, hn.trans hnodes, p, m', hopen, hm', ?_⟩
              rw [Nat.add_mul, Nat.one_mul, ← Nat.add_assoc]
              exact hs'
            split_ifs at hturn ⊢ with hcut hlast
            · refine walkLoop_spec hw fuel graph' _ _ budget' (hnext _ (prune_done hdone hturn)) ?_
              rw [hlim, hops, List.length_cons]
              omega
            · have hreal : Realizes g graph' (p + b.toNat *
                  2 ^ ((circleSites g).length - 1 - rest.length)) := by
                refine ⟨hn.trans hnodes, ?_⟩
                rw [hturn, hlast, partialValue_zero]
                rfl
              refine Outcome.bind (classify_done hw hdone hreal budget') fun r hr => ?_
              obtain ⟨stop, s', budget''⟩ := r
              obtain ⟨hlim', hops', hdone'⟩ := hr
              cases stop with
              | some stop => exact Outcome.ok fun hnone => absurd hnone (by simp)
              | none =>
                refine walkLoop_spec hw fuel graph' _ _ budget'' (hnext s' ?_) ?_
                · have := hdone' rfl
                  rw [hlast] at this ⊢
                  exact this
                · simp only at hlim' hops'
                  rw [hlim', hlim, List.length_cons]
                  omega
            · refine walkLoop_spec hw fuel graph' _ _ budget' ⟨?_, ?_, Nat.zero_le _,
                hn.trans hnodes, _, .circle, ⟨rfl, hd, p, b, hopen, rfl, rfl⟩, ?_, ?_⟩ ?_
              · rfl
              · omega
              · rw [show (circleSites g).length - 1 - (rest.length + 1) + 1 =
                  (circleSites g).length - 1 - rest.length by omega]
                exact hturn
              · rw [Nat.zero_mul, Nat.add_zero]
                exact hdone
              · rw [hlim, hops, List.length_cons, List.length_cons]
                omega

theorem assigned_of_no_sites (h : circleSites g = []) (mask : Nat) : assigned g mask = g.look := by
  have := fill_partialValue_start (g := g) mask
  rwa [h, List.length_nil, partialValue_zero] at this

/-- **A run that no bound stopped classified every mask.** -/
theorem run_spec {w : Walk} (hw : Plain w g maxCompletions)
    (h : Done g maxCompletions s 0) (budget : SearchBudget) :
    Outcome (g.nodeCount ≤ u32Max) (w.run s budget) fun r =>
      r.1 = none → Done g maxCompletions r.2.1 (2 ^ (circleSites g).length) := by
  unfold Walk.run
  rw [hw.sites, hw.pag]
  by_cases he : (circleSites g).length = 0
  · have hnil := List.eq_nil_of_length_eq_zero he
    rw [if_pos he, he]
    cases hch : budget.charge 0 (w.liveBytes s) with
    | mk budget' stop =>
      cases stop with
      | some stop => exact Outcome.ok fun hnone => absurd hnone (by simp)
      | none =>
        simp only
        cases hanc : ancestralUpToOpenMarks g false with
        | false =>
          have hq : ¬ Completes g 0 := by
            intro hq
            have h1 := hq.1.toAncestral
            rw [assigned_of_no_sites hnil] at h1
            exact absurd (hanc.symm.trans (isAncestralOrientation_iff.mpr h1)) Bool.false_ne_true
          have hzero : s.report.assignmentsExamined = 0 := h.examined.trans (Nat.zero_min _)
          refine Outcome.ok fun _ => reject_done h hq ?_ rfl rfl rfl rfl rfl rfl
          simp only [hzero]
          rfl
        | true =>
          have hreal : Realizes g g 0 := ⟨rfl, (assigned_of_no_sites hnil 0).symm⟩
          obtain ⟨h1, h2⟩ := classify_done hw h hreal budget'
          exact ⟨h1, fun r hr => (h2 r hr).2.2⟩
  · rw [if_neg he]
    refine walkLoop_spec hw _ _ _ _ _ ⟨rfl, Nat.pos_of_ne_zero he, Nat.zero_le _, rfl, 0, .circle,
      rfl, ?_, ?_⟩ ?_
    · rw [show (circleSites g).length - 1 - 0 + 1 = (circleSites g).length by omega]
      exact (fill_partialValue_start 0).symm
    · rw [Nat.zero_mul]
      exact h
    · rw [List.length_singleton]
      omega

end Loop

/-! ## The sampler -/

namespace CompletionSampler

theorem Yields.spec {s : CompletionSampler} {ys : List PagCompletion} (h : s.Yields ys)
    (hcap : s.completions.length ≤ s.maxCompletions) :
    ys.map PagCompletion.graph = s.completions.drop s.nextIndex ∧
      ys.map PagCompletion.index = List.range' s.nextIndex ys.length := by
  induction h with
  | @ends s s' hn =>
    refine ⟨(List.drop_eq_nil_of_le ?_).symm, rfl⟩
    unfold next at hn
    split_ifs at hn with hc
    · exact Nat.le_trans hcap hc
    · cases hg : s.completions[s.nextIndex]? with
      | none => exact List.getElem?_eq_none_iff.mp hg
      | some graph =>
        rw [hg] at hn
        exact absurd (congrArg Prod.fst hn) (by simp)
  | @yields s s' y ys hn _ ih =>
    unfold next at hn
    split_ifs at hn with hc
    · exact absurd (congrArg Prod.fst hn) (by simp)
    cases hg : s.completions[s.nextIndex]? with
    | none =>
      rw [hg] at hn
      exact absurd (congrArg Prod.fst hn) (by simp)
    | some graph =>
      rw [hg] at hn
      obtain ⟨hy, rfl⟩ := Prod.mk.inj hn
      obtain rfl := Option.some.inj hy
      obtain ⟨h1, h2⟩ := ih hcap
      obtain ⟨hlt, hget⟩ := List.getElem?_eq_some_iff.mp hg
      refine ⟨?_, ?_⟩
      · rw [List.map_cons, h1, List.drop_eq_getElem_cons hlt, hget]
      · rw [List.map_cons, h2, List.length_cons, List.range'_succ]

theorem exists_yields (s : CompletionSampler) : ∃ ys, s.Yields ys := by
  induction hk : s.completions.length - s.nextIndex generalizing s with
  | zero =>
    have hnone : s.completions[s.nextIndex]? = none := List.getElem?_eq_none_iff.mpr (by omega)
    refine ⟨[], Yields.ends (show s.next = (none, s) from ?_)⟩
    unfold next
    rw [hnone]
    exact ite_self _
  | succ k ih =>
    have hlt : s.nextIndex < s.completions.length := by omega
    by_cases hc : s.maxCompletions ≤ s.nextIndex
    · refine ⟨[], Yields.ends (show s.next = (none, s) from ?_)⟩
      unfold next
      exact if_pos hc
    · obtain ⟨ys, hys⟩ := ih { s with nextIndex := s.nextIndex + 1 } (by simp only; omega)
      refine ⟨⟨s.completions[s.nextIndex], s.nextIndex⟩ :: ys, Yields.yields ?_ hys⟩
      unfold next
      rw [if_neg hc, List.getElem?_eq_getElem hlt]

end CompletionSampler

/-- What the sampler of a certified class says: the yields are the first members of the
enumeration, the report counts all of them and every assignment, and they have one model. -/
structure SamplerCorrect (g : Pag) (s : CompletionSampler) : Prop where
  yields : ∃ ys, s.Yields ys
  members : ∀ ys, s.Yields ys →
    List.Forall₂ (fun y mask => Realizes g y.graph mask) ys
      ((enumeration g).take s.maxCompletions) ∧
    ys.map PagCompletion.index = List.range ys.length
  represented : s.report.representedCompletions = (enumeration g).length
  model : ∀ mask ∈ enumeration g, ∀ mask' ∈ enumeration g,
    SameModel g.nodeCount (assignedMixed g mask) (assignedMixed g mask')
  examined : s.report.assignmentsExamined = min (2 ^ (circleSites g).length) u64Max

theorem sampler_run (pag : Pag) (maxCompletions allowance : Nat) (auditClass : Bool)
    (budget : SearchBudget) : Outcome (pag.nodeCount ≤ u32Max)
      ((⟨pag, circleSites pag, some, pag, maxCompletions, graphBytes pag,
          signatureBytes pag.nodeCount⟩ : Walk).run
        ⟨auditClass, { equivalenceAuditSkipped := !auditClass }, [], 0, none, allowance⟩ budget)
      fun r => r.1 = none →
        Done pag maxCompletions r.2.1 (2 ^ (circleSites pag).length) := by
  have hstart : Done pag maxCompletions ⟨auditClass, { equivalenceAuditSkipped := !auditClass },
      [], 0, none, allowance⟩ 0 :=
    ⟨rfl, fun h => by simpa using h, fun _ _ => rfl, fun _ _ => by simp [members],
      fun _ _ _ mask hm => absurd hm (by simp [members])⟩
  have hplain : Plain ⟨pag, circleSites pag, some, pag, maxCompletions, graphBytes pag,
      signatureBytes pag.nodeCount⟩ pag maxCompletions := ⟨rfl, rfl, rfl, rfl, rfl⟩
  exact run_spec hplain hstart budget

variable {pag : Pag}

/-- A sampler is built for every graph `as_admg` can index. -/
theorem withBudget_ok (hn : pag.nodeCount ≤ u32Max) (maxCompletions : Nat)
    (limits : SearchLimits) (ctx : ExecutionContext) :
    ∃ s, CompletionSampler.withBudget pag maxCompletions limits ctx = .ok s := by
  unfold CompletionSampler.withBudget CompletionSampler.withProjection
  simp only
  cases hb : SearchBudget.withMemory limits defaultSearchMemoryBytes ctx 0 with
  | error stop => exact ⟨_, rfl⟩
  | ok budget =>
    obtain ⟨r, hr⟩ := (sampler_run pag maxCompletions (limits.operations / 2)
      ((circleSites pag).isEmpty || signatureFitsBudget pag.nodeCount limits.operations
        budget.memoryLimitBytes) budget).1 hn
    simp only [hr]
    exact ⟨_, rfl⟩

/-- **A certified sampler yields the first members of the enumeration.** -/
theorem withBudget_certified {maxCompletions : Nat} {limits : SearchLimits}
    {ctx : ExecutionContext} {s : CompletionSampler}
    (hs : CompletionSampler.withBudget pag maxCompletions limits ctx = .ok s)
    (hstop : s.searchStop = none) (hskip : s.report.equivalenceAuditSkipped = false)
    (hamb : s.report.ambiguousGlobalClass = false) :
    s.maxCompletions = maxCompletions ∧ s.nextIndex = 0 ∧ SamplerCorrect pag s := by
  unfold CompletionSampler.withBudget CompletionSampler.withProjection at hs
  simp only at hs
  cases hb : SearchBudget.withMemory limits defaultSearchMemoryBytes ctx 0 with
  | error stop =>
    rw [hb] at hs
    obtain rfl := Except.ok.inj hs
    exact absurd hstop (by simp [CompletionSampler.searchStop])
  | ok budget =>
    rw [hb] at hs
    simp only at hs
    have hrun := (sampler_run pag maxCompletions (limits.operations / 2)
      ((circleSites pag).isEmpty || signatureFitsBudget pag.nodeCount limits.operations
        budget.memoryLimitBytes) budget).2
    generalize Walk.run _ _ budget = x at hs hrun
    cases x with
    | error e => exact absurd hs (by simp [bind, Except.bind])
    | ok r =>
      obtain ⟨stop, st, budget'⟩ := r
      obtain rfl := Except.ok.inj hs
      simp only [CompletionSampler.searchStop] at hstop hskip hamb
      subst hstop
      have hdone := hrun _ rfl rfl
      have hcomp := hdone.completions hskip hamb
      simp only at hdone hcomp
      refine ⟨rfl, rfl, ⟨CompletionSampler.exists_yields _, fun ys hys => ?_, ?_, ?_,
        hdone.examined⟩⟩
      · have hlen := hcomp.length_eq
        rw [List.length_take] at hlen
        obtain ⟨h1, h2⟩ := hys.spec (by simp only [hamb, Bool.false_eq_true, if_false]; omega)
        simp only [hamb, Bool.false_eq_true, if_false, List.drop_zero] at h1 h2
        refine ⟨?_, h2.trans List.range_eq_range'.symm⟩
        rw [← h1] at hcomp
        exact List.forall₂_map_left_iff.mp hcomp
      · simp only [hamb, Bool.false_eq_true, if_false]
        exact hdone.represented hskip hamb
      · intro mask hm mask' hm'
        have hacyc : ∀ {mask}, mask ∈ enumeration pag → (assignedMixed pag mask).Acyclic :=
          fun hm => (mem_members.mp hm).2.1.acyclic
        by_cases hne : circleSites pag = []
        · have hone : 2 ^ (circleSites pag).length = 1 := by rw [hne]; rfl
          have h1 := (mem_members.mp hm).1
          have h2 := (mem_members.mp hm').1
          obtain rfl : mask = mask' := by omega
          exact fun _ _ _ _ _ _ _ _ _ => Iff.rfl
        · have h1 := hdone.model hskip hamb hne mask hm
          have h2 := hdone.model hskip hamb hne mask' hm'
          exact sameModel_of_answers (hacyc hm) (hacyc hm')
            (Option.some.inj (h1.symm.trans h2))

/-- **The sampler is correct**: it is built for every graph `as_admg` can index, and whenever it
reports no stop, no skipped audit and no ambiguity, it yields the first members of the
enumeration. -/
theorem completionSampler_correct (pag : Pag) (maxCompletions : Nat) (limits : SearchLimits)
    (ctx : ExecutionContext) :
    (pag.nodeCount ≤ u32Max →
      ∃ s, CompletionSampler.withBudget pag maxCompletions limits ctx = .ok s) ∧
    ∀ s, CompletionSampler.withBudget pag maxCompletions limits ctx = .ok s →
      s.searchStop = none → s.report.equivalenceAuditSkipped = false →
      s.report.ambiguousGlobalClass = false →
      s.maxCompletions = maxCompletions ∧ SamplerCorrect pag s := by
  refine ⟨fun hn => withBudget_ok hn maxCompletions limits ctx, fun s hs hstop hskip hamb => ?_⟩
  obtain ⟨hmax, -, hcorrect⟩ := withBudget_certified hs hstop hskip hamb
  exact ⟨hmax, hcorrect⟩

/-- One circle, both of its values completions. -/
theorem completionSampler_correct_circleArrow :
    ∃ g, (Pag.withVariables 2).insertCircleArrow 0 1 = .ok g ∧
      ∃ s, CompletionSampler.withBudget g 8 defaultCompletionLimits .production = .ok s ∧
        s.report.representedCompletions = 2 ∧ SamplerCorrect g s := by
  have run : ∀ g s, CompletionSampler.withBudget g 8 defaultCompletionLimits .production = .ok s →
      s.searchStop = none → s.report.equivalenceAuditSkipped = false →
      s.report.ambiguousGlobalClass = false → SamplerCorrect g s := fun g s h1 h2 h3 h4 =>
    ((completionSampler_correct g 8 defaultCompletionLimits .production).2 s h1 h2 h3 h4).2
  refine ⟨_, rfl, _, rfl, ?_, run _ _ rfl ?_ ?_ ?_⟩
  · decide
  · decide
  · decide
  · decide

end Antecedent.Graph
