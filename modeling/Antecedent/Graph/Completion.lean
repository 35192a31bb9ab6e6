import Antecedent.Graph.Signature
import Mathlib.Algebra.GroupWithZero.Nat

/-!
# The completions of a PAG

Model of `CompletionSampler` and of the walk behind it (`completion.rs:140-489`). The walk assigns
the circle endpoints one after the other on one shared graph, the last site on the outermost level
and `Tail` before `Arrow`; it skips a subtree when the graph refuses the marks or an edge already
decided cannot be ancestral, and classifies every assignment it reaches the end of.

* `enumeration`: the specification, the masks whose assignment completes the PAG, ascending.
* `refused_of_set`, `refused_of_check`: below a pruned frame no assignment is a MAG.
* `Done`: what the counters and the retained completions say once the masks below `q` are
  classified. `classify_done` and `prune_done` advance it, `walkLoop_spec` runs it to the end.
* `completionSampler_correct`: hence the sampler yields the first members of the enumeration.

The counters `rejected_*` are `u64` without saturation where one assignment is counted at a time;
the operations charged bound them, so they do not wrap. Receipts are texts for a caller and are
left out.
-/

namespace Antecedent.Graph

open Core
open Mixed
open Worklist

/-! ## The code -/

/-- `CircleSite`: the edge `(a, b)`, and whether the circle is at `a`. -/
abbrev CircleSite := Nat × Nat × Bool

/-- The sites of one entry of the row of `a`. -/
def entrySites (a : Nat) (e : Nat × Endpoint × Endpoint) : List CircleSite :=
  let (b, atA, atB) := e
  if b < a then []
  else (if atA = .circle then [(a, b, true)] else []) ++
    (if atB = .circle then [(a, b, false)] else [])

/-- The circle sites in the order of the rows (`completion.rs:149-164`). -/
def circleSites (g : Pag) : List CircleSite :=
  (List.range g.nodeCount).flatMap fun a => (g.neighbors a).flatMap (entrySites a)

/-- Lines 59-89. -/
structure CompletionValidationReport where
  assignmentsExamined : Nat := 0
  rejectedConstraints : Nat := 0
  rejectedNonAncestral : Nat := 0
  rejectedNonmaximal : Nat := 0
  rejectedLocalIncompatible : Nat := 0
  ambiguousGlobalClass : Bool := false
  equivalenceAuditSkipped : Bool := false
  representedCompletions : Nat := 0
  searchStop : Option SearchStop := none
  operationsConsumed : Nat := 0

/-- Lines 306-311. -/
def graphBytes (g : Pag) : Nat :=
  satMul (satAdd g.nodeCount ((List.range g.nodeCount).map fun i => (g.neighbors i).length).sum) 16

/-- `u128::MAX`. -/
def u128Max : Nat := 2 ^ 128 - 1

/-- `checked_mul` on 128 bits. -/
def checkedMul (a b : Nat) : Option Nat := if a * b ≤ u128Max then some (a * b) else none

/-- Lines 315-319. -/
def signatureQueries (n : Nat) : Option Nat := do
  let pairs := (← checkedMul n (n - 1)) / 2
  let subsets ← if n - 2 ≤ u32Max ∧ n - 2 < 128 then some (2 ^ (n - 2)) else none
  checkedMul pairs subsets

/-- Lines 322-324. -/
def signatureBytes (n : Nat) : Nat :=
  match signatureQueries n with
  | some q => if q ≤ u64Max then q else u64Max
  | none => u64Max

/-- Lines 328-331. -/
def signatureFitsBudget (n operations memoryLimitBytes : Nat) : Bool :=
  (signatureQueries n).any (fun q => decide (q ≤ operations)) &&
    decide (satMul (signatureBytes n) 2 ≤ memoryLimitBytes)

/-- The fixed part of `Walk` (`completion.rs:334-348`). -/
structure Walk where
  pag : Pag
  sites : List CircleSite
  project : Pag → Option Pag
  auditSource : Pag
  maxCompletions : Nat
  graphBytes : Nat
  signatureBytes : Nat

/-- The part of `Walk` it changes. -/
structure WalkState where
  auditClass : Bool
  report : CompletionValidationReport
  completions : List Pag
  representedCompletions : Nat
  referenceSignature : Option (List Bool)
  auditAllowance : Nat

/-- Lines 351-353. -/
def subtreeAssignments (remaining : Nat) : Nat :=
  if u32Max < remaining ∨ 64 ≤ remaining then u64Max else 2 ^ remaining

/-- `set_endpoint` (`completion.rs:475-481`): the graph it leaves, and whether the marks were
taken. -/
def setEndpoint (graph : Pag) (site : CircleSite) (endpoint : Endpoint) : Pag × Bool :=
  let (a, b, atACircle) := site
  match edgeBetween graph.adj a b with
  | none => (graph, false)
  | some edge =>
    let marks := if atACircle then (endpoint, edge.atB) else (edge.atA, endpoint)
    match graph.setMarks a b marks.1 marks.2 with
    | (graph, .ok ()) => (graph, true)
    | (graph, .error _) => (graph, false)

/-- Lines 484-492. -/
def restoreCircle (graph : Pag) (site : CircleSite) : Except GraphError Pag :=
  match setEndpoint graph site .circle with
  | (graph, true) => .ok graph
  | (_, false) => .error (.invalidEndpoints "PAG completion could not restore a circle endpoint")

namespace Walk

/-- Lines 358-366. -/
def liveBytes (w : Walk) (s : WalkState) : Nat :=
  satAdd (satMul (satAdd s.completions.length 2) w.graphBytes)
    (if s.auditClass && !w.sites.isEmpty then satMul w.signatureBytes 2 else 0)

/-- A pruned subtree (`completion.rs:400-404`). -/
def prune (s : WalkState) (remaining : Nat) : WalkState :=
  let pruned := subtreeAssignments remaining
  { s with report := { s.report with
      rejectedNonAncestral := satAdd s.report.rejectedNonAncestral pruned
      assignmentsExamined := satAdd s.report.assignmentsExamined pruned } }

/-- The audit gives up when the next signature would exceed its allowance
(`completion.rs:434-447`). -/
def allowAudit (w : Walk) (s : WalkState) (nodeCount : Nat) : WalkState :=
  if s.auditClass && !w.sites.isEmpty then
    let cost := match signatureQueries nodeCount with
      | some q => if q ≤ u64Max then q else u64Max
      | none => u64Max
    if s.auditAllowance < cost then { s with
      auditClass := false
      report := { s.report with equivalenceAuditSkipped := true, ambiguousGlobalClass := false }
      referenceSignature := none }
    else { s with auditAllowance := s.auditAllowance - cost }
  else s

/-- The comparison with the first signature (`completion.rs:456-463`): whether the candidate stays
in the class. -/
def compareSignature (s : WalkState) (signature : List Bool) : WalkState × Bool :=
  match s.referenceSignature with
  | some reference =>
    if reference ≠ signature then
      ({ s with report := { s.report with ambiguousGlobalClass := true } }, false)
    else (s, true)
  | none => ({ s with referenceSignature := some signature }, true)

/-- A represented completion, retained below the cap. -/
def retain (w : Walk) (s : WalkState) (candidate : Pag) : WalkState :=
  { s with
    representedCompletions := s.representedCompletions + 1
    completions := if s.completions.length < w.maxCompletions then s.completions ++ [candidate]
      else s.completions }

/-- The signature of the audit, empty when nothing was assigned (`completion.rs:449-455`). -/
def auditSignature (w : Walk) (s : WalkState) (audited : Pag) (budget : SearchBudget) :
    Except GraphError (Except SearchStop (List Bool) × SearchBudget) :=
  if w.sites.isEmpty then .ok (.ok [], budget)
  else mSeparationSignature audited w.sites.length (w.liveBytes s) budget

/-- The audit of a locally valid candidate (`completion.rs:434-471`). -/
def auditCandidate (w : Walk) (s : WalkState) (candidate audited : Pag) (budget : SearchBudget) :
    Except GraphError (Option SearchStop × WalkState × SearchBudget) := do
  let s := w.allowAudit s audited.nodeCount
  if s.auditClass then
    match ← w.auditSignature s audited budget with
    | (.error stop, budget) => return (some stop, s, budget)
    | (.ok signature, budget) =>
      match compareSignature s signature with
      | (s, false) => return (none, s, budget)
      | (s, true) => return (none, w.retain s candidate, budget)
  else return (none, w.retain s candidate, budget)

/-- `classify` (`completion.rs:414-472`): the stop, if a bound was met, and what it leaves. -/
def classify (w : Walk) (s : WalkState) (candidate : Pag) (budget : SearchBudget) :
    Except GraphError (Option SearchStop × WalkState × SearchBudget) :=
  let s := { s with report := { s.report with
    assignmentsExamined := satAdd s.report.assignmentsExamined 1 } }
  match w.project candidate with
  | none => .ok (none, { s with report := { s.report with
      rejectedConstraints := s.report.rejectedConstraints + 1 } }, budget)
  | some audited => do
    if !(← isMaximalAncestralGraph audited) then
      return (none, { s with report := { s.report with
        rejectedNonmaximal := s.report.rejectedNonmaximal + 1 } }, budget)
    if !(← preservesUnshieldedColliders w.auditSource audited) then
      return (none, { s with report := { s.report with
        rejectedLocalIncompatible := s.report.rejectedLocalIncompatible + 1 } }, budget)
    w.auditCandidate s candidate audited budget

/-- The loop of `run` over the frames `(depth, next_choice)`, the top first
(`completion.rs:386-410`). -/
def walkLoop (w : Walk) : Nat → Pag → List (Nat × Nat) → WalkState → SearchBudget →
    Except GraphError (Option SearchStop × WalkState × SearchBudget)
  | 0, _, _, s, budget => .ok (none, s, budget)
  | fuel + 1, graph, frames, s, budget =>
    match frames with
    | [] => .ok (none, s, budget)
    | (depth, choice) :: rest =>
      let remaining := w.sites.length - 1 - depth
      let site := w.sites.getD remaining (0, 0, false)
      if choice = 2 then do
        let graph ← restoreCircle graph site
        walkLoop w fuel graph rest s budget
      else
        let endpoint := if choice = 0 then Endpoint.tail else .arrow
        match budget.charge (depth + 1) (w.liveBytes s) with
        | (budget, some stop) => .ok (some stop, s, budget)
        | (budget, none) =>
          let (graph, set) := setEndpoint graph site endpoint
          let frames := (depth, choice + 1) :: rest
          if !set || !ancestralUpToOpenMarks graph (decide (0 < remaining)) then
            walkLoop w fuel graph frames (prune s remaining) budget
          else if remaining = 0 then do
            match ← w.classify s graph budget with
            | (some stop, s, budget) => return (some stop, s, budget)
            | (none, s, budget) => walkLoop w fuel graph frames s budget
          else walkLoop w fuel graph ((depth + 1, 0) :: frames) s budget

/-- `run` (`completion.rs:373-411`). A turn charges an operation and opens at most one frame, or
closes one, so there are at most `2 * operations + 1` of them. -/
def run (w : Walk) (s : WalkState) (budget : SearchBudget) :
    Except GraphError (Option SearchStop × WalkState × SearchBudget) :=
  if w.sites.length = 0 then
    match budget.charge 0 (w.liveBytes s) with
    | (budget, some stop) => .ok (some stop, s, budget)
    | (budget, none) =>
      if !ancestralUpToOpenMarks w.pag false then
        .ok (none, { s with report := { s.report with
          rejectedNonAncestral := s.report.rejectedNonAncestral + 1
          assignmentsExamined := s.report.assignmentsExamined + 1 } }, budget)
      else w.classify s w.pag budget
  else w.walkLoop (2 * budget.limits.operations + 2) w.pag [(0, 0)] s budget

end Walk

structure PagCompletion where
  graph : Pag
  index : Nat

/-- Lines 93-100. -/
structure CompletionSampler where
  completions : List Pag
  maxCompletions : Nat
  nextIndex : Nat
  nCircleSites : Nat
  report : CompletionValidationReport

namespace CompletionSampler

/-- Lines 140-240. -/
def withProjection (pag : Pag) (maxCompletions : Nat) (limits : SearchLimits)
    (ctx : ExecutionContext) (project : Pag → Option Pag) : Except GraphError CompletionSampler :=
  match project pag with
  | none => .error (.invalidEndpoints "PAG validation projection failed")
  | some auditSource =>
    let sites := circleSites pag
    match SearchBudget.withMemory limits defaultSearchMemoryBytes ctx 0 with
    | .error stop => .ok ⟨[], maxCompletions, 0, sites.length, { searchStop := some stop }⟩
    | .ok budget => do
      let auditClass := sites.isEmpty ||
        signatureFitsBudget auditSource.nodeCount limits.operations budget.memoryLimitBytes
      let walk : Walk := ⟨pag, sites, project, auditSource, maxCompletions, graphBytes pag,
        signatureBytes auditSource.nodeCount⟩
      let (stop, s, budget) ← walk.run ⟨auditClass, { equivalenceAuditSkipped := !auditClass }, [],
        0, none, limits.operations / 2⟩ budget
      let ambiguous := s.report.ambiguousGlobalClass
      return ⟨if ambiguous then [] else s.completions, maxCompletions, 0, sites.length,
        { s.report with
          representedCompletions := if ambiguous then 0 else s.representedCompletions
          searchStop := stop
          operationsConsumed := budget.operations }⟩

/-- Lines 131-138. -/
def withBudget (pag : Pag) (maxCompletions : Nat) (limits : SearchLimits)
    (ctx : ExecutionContext) : Except GraphError CompletionSampler :=
  withProjection pag maxCompletions limits ctx some

def searchStop (s : CompletionSampler) : Option SearchStop := s.report.searchStop

/-- Lines 283-285. -/
def classAuditIncomplete (s : CompletionSampler) : Bool :=
  s.report.equivalenceAuditSkipped || s.report.searchStop.isSome

/-- Lines 295-298. -/
def hitCap (s : CompletionSampler) : Bool :=
  decide (s.maxCompletions < s.report.representedCompletions) || s.report.searchStop.isSome

/-- Lines 705-713. -/
def next (s : CompletionSampler) : Option PagCompletion × CompletionSampler :=
  if s.maxCompletions ≤ s.nextIndex then (none, s)
  else
    match s.completions[s.nextIndex]? with
    | none => (none, s)
    | some graph => (some ⟨graph, s.nextIndex⟩, { s with nextIndex := s.nextIndex + 1 })

/-- A sampler run to its end: the completions it yields. -/
inductive Yields : CompletionSampler → List PagCompletion → Prop
  | ends {s s'} : s.next = (none, s') → Yields s []
  | yields {s s' y ys} : s.next = (some y, s') → Yields s' ys → Yields s (y :: ys)

end CompletionSampler

/-! ## Assignments -/

/-- The marks with every circle of `L` filled in: `val u v` is the mark at `u` on the edge to
`v`. -/
def Look.fill (L : Look) (val : Nat → Nat → Endpoint) : Look := fun a b =>
  (L a b).map fun v => (if v.1 = .circle then val a b else v.1,
    if v.2.1 = .circle then val b a else v.2.1, v.2.2)

theorem Look.Mirrored.fill {L : Look} (h : L.Mirrored) (val : Nat → Nat → Endpoint) :
    (L.fill val).Mirrored := by
  intro a b w hw
  obtain ⟨v, hv, rfl⟩ := Option.map_eq_some_iff.mp hw
  unfold Look.fill
  rw [h a b v hv]
  rfl

/-- The site of a circle at `u` on the edge to `v`. -/
def siteOf (u v : Nat) : CircleSite := if u < v then (u, v, true) else (v, u, false)

def siteEnds (s : CircleSite) : Nat × Nat := if s.2.2 then (s.1, s.2.1) else (s.2.1, s.1)

section Sites

variable (g : Pag)

variable {s : CircleSite}

theorem mem_circleSites : s ∈ circleSites g ↔ s.1 < s.2.1 ∧
    ∃ v, g.look (siteEnds s).1 (siteEnds s).2 = some v ∧ v.1 = .circle := by
  obtain ⟨a, b, f⟩ := s
  unfold circleSites
  simp only [List.mem_flatMap, List.mem_range]
  constructor
  · rintro ⟨a', -, ⟨b', s, t⟩, he, hs⟩
    obtain ⟨m, hm⟩ := g.mem_neighbors.mp he
    have hne := g.stored.ne_of_look hm
    unfold entrySites at hs
    simp only at hs
    split_ifs at hs with h1 h2 h3 h3
    · exact absurd hs List.not_mem_nil
    · simp only [List.cons_append, List.nil_append, List.mem_cons, Prod.mk.injEq,
        List.not_mem_nil, or_false] at hs
      rcases hs with ⟨rfl, rfl, rfl⟩ | ⟨rfl, rfl, rfl⟩
      · exact ⟨by omega, _, hm, h2⟩
      · exact ⟨by omega, _, g.mirrored _ _ _ hm, h3⟩
    · simp only [List.append_nil, List.mem_singleton, Prod.mk.injEq] at hs
      obtain ⟨rfl, rfl, rfl⟩ := hs
      exact ⟨by omega, _, hm, h2⟩
    · simp only [List.nil_append, List.mem_singleton, Prod.mk.injEq] at hs
      obtain ⟨rfl, rfl, rfl⟩ := hs
      exact ⟨by omega, _, g.mirrored _ _ _ hm, h3⟩
    · simp at hs
  · rintro ⟨hab, v, hv, hc⟩
    cases f with
    | true =>
      simp only [siteEnds, if_true] at hv
      refine ⟨a, (g.stored.lt_of_look hv).1, (b, v.1, v.2.1), g.mem_neighbors.mpr ⟨_, hv⟩, ?_⟩
      unfold entrySites
      simp [hc, Nat.not_lt.mpr (Nat.le_of_lt hab)]
    | false =>
      simp only [siteEnds, Bool.false_eq_true, if_false] at hv
      have hv' := g.mirrored _ _ _ hv
      refine ⟨a, (g.stored.lt_of_look hv').1, (b, v.2.1, v.1), g.mem_neighbors.mpr ⟨_, hv'⟩, ?_⟩
      unfold entrySites
      simp [hc, Nat.not_lt.mpr (Nat.le_of_lt hab)]

theorem entrySites_edge {a : Nat} {e : Nat × Endpoint × Endpoint}
    (h : s ∈ entrySites a e) : s.1 = a ∧ s.2.1 = e.1 := by
  obtain ⟨b, t, u⟩ := e
  unfold entrySites at h
  simp only at h
  split_ifs at h <;> simp at h
  · rcases h with rfl | rfl <;> exact ⟨rfl, rfl⟩
  · rw [h]
    exact ⟨rfl, rfl⟩
  · rw [h]
    exact ⟨rfl, rfl⟩

theorem nodup_circleSites : (circleSites g).Nodup := by
  unfold circleSites
  refine List.nodup_flatMap.mpr ⟨fun a _ => List.nodup_flatMap.mpr ⟨fun e _ => ?_, ?_⟩, ?_⟩
  · obtain ⟨b, t, u⟩ := e
    unfold entrySites
    simp only
    split_ifs <;> simp
  · have hnd : ((g.neighbors a).map Prod.fst).Nodup := by
      have := g.stored.nodup a
      unfold Pag.neighbors neighbors
      rwa [List.map_map]
    refine (List.pairwise_map.mp hnd).imp fun hne => ?_
    intro s h1 h2
    exact hne ((entrySites_edge h1).2.symm.trans (entrySites_edge h2).2)
  · refine List.nodup_range.imp fun {a b} hab => ?_
    intro s h1 h2
    obtain ⟨e, -, he⟩ := List.mem_flatMap.mp h1
    obtain ⟨e', -, he'⟩ := List.mem_flatMap.mp h2
    exact hab ((entrySites_edge he).1.symm.trans (entrySites_edge he').1)

variable {g}

theorem siteOf_mem {u v : Nat} {w : Marks} (hl : g.look u v = some w) (hc : w.1 = .circle) :
    siteOf u v ∈ circleSites g := by
  rw [mem_circleSites]
  have hne := g.stored.ne_of_look hl
  unfold siteOf
  split_ifs with huv
  · exact ⟨huv, w, by simpa [siteEnds] using hl, hc⟩
  · exact ⟨by simp only; omega, w, by simpa [siteEnds] using hl, hc⟩

theorem siteEnds_siteOf (u v : Nat) : siteEnds (siteOf u v) = (u, v) := by
  unfold siteOf
  split_ifs <;> rfl

theorem siteOf_siteEnds (hs : s.1 < s.2.1) :
    siteOf (siteEnds s).1 (siteEnds s).2 = s := by
  obtain ⟨a, b, f⟩ := s
  unfold siteOf siteEnds
  cases f with
  | false => exact if_neg (Nat.not_lt.mpr (Nat.le_of_lt hs))
  | true => exact if_pos hs

theorem siteOf_eq_iff (hs : s.1 < s.2.1) (u v : Nat) :
    siteOf u v = s ↔ (u, v) = siteEnds s := by
  constructor
  · rintro rfl
    exact (siteEnds_siteOf u v).symm
  · intro h
    rw [← siteOf_siteEnds hs, ← h]

end Sites

/-- The position of the circle at `u` on the edge to `v`. -/
def siteIndex (g : Pag) (u v : Nat) : Nat := (circleSites g).idxOf (siteOf u v)

def bitMark (b : Bool) : Endpoint := if b then .arrow else .tail

/-- The marks of a mask: bit `i` is the value of site `i`. -/
def maskValue (g : Pag) (mask u v : Nat) : Endpoint := bitMark (mask.testBit (siteIndex g u v))

/-- **The assignment of a mask.** -/
def assigned (g : Pag) (mask : Nat) : Look := g.look.fill (maskValue g mask)

/-- The marks of a partly assigned graph: the sites from `lo` on carry the bits of `p`, the one
before carries `m`, those below are circles. -/
def partialValue (g : Pag) (p lo : Nat) (m : Endpoint) (u v : Nat) : Endpoint :=
  let i := siteIndex g u v
  if lo ≤ i then bitMark (p.testBit i) else if i + 1 = lo then m else .circle

/-- One mark replaced. -/
def setAt (val : Nat → Nat → Endpoint) (ends : Nat × Nat) (m : Endpoint) : Nat → Nat → Endpoint :=
  fun u v => if (u, v) = ends then m else val u v

section Values

variable {g : Pag}

theorem partialValue_zero (q : Nat) (m : Endpoint) : partialValue g q 0 m = maskValue g q := by
  funext u v
  unfold partialValue maskValue
  exact if_pos (Nat.zero_le _)

/-- Before any site is assigned. -/
theorem fill_partialValue_start (p : Nat) : g.look.fill (partialValue g p (circleSites g).length
    .circle) = g.look := by
  funext a b
  unfold Look.fill
  have hcirc : ∀ {u v w}, g.look u v = some w → w.1 = .circle →
      partialValue g p (circleSites g).length .circle u v = .circle := by
    intro u v w hl hc
    have hlt := List.idxOf_lt_length_of_mem (siteOf_mem hl hc)
    unfold partialValue siteIndex
    simp only
    rw [if_neg (by omega)]
    exact ite_self _
  cases hl : g.look a b with
  | none => rfl
  | some w =>
    obtain ⟨s, t, m⟩ := w
    simp only [Option.map_some, Option.some.injEq, Prod.mk.injEq, and_true]
    constructor
    · split_ifs with hc
      · rw [hcirc hl hc, hc]
      · rfl
    · split_ifs with hc
      · rw [hcirc (g.mirrored a b _ hl) hc, hc]
      · rfl

variable {p j a b : Nat} {val val' : Nat → Nat → Endpoint}

/-- Setting the site before `lo`. -/
theorem setAt_partialValue (hj : j < (circleSites g).length) (m m' : Endpoint) :
    setAt (partialValue g p (j + 1) m) (siteEnds ((circleSites g).getD j (0, 0, false))) m' =
      partialValue g p (j + 1) m' := by
  have hget : (circleSites g).getD j (0, 0, false) = (circleSites g)[j] :=
    List.getD_eq_getElem _ _ hj
  have hlt := ((mem_circleSites g).mp (List.getElem_mem hj)).1
  have hidx : (circleSites g).idxOf (circleSites g)[j] = j :=
    (nodup_circleSites g).idxOf_getElem j hj
  funext u v
  rw [hget]
  unfold setAt partialValue
  simp only
  by_cases he : (u, v) = siteEnds (circleSites g)[j]
  · have hi : siteIndex g u v = j := by
      unfold siteIndex
      rw [(siteOf_eq_iff hlt u v).mpr he, hidx]
    rw [if_pos he, hi, if_neg (by omega), if_pos rfl]
  · rw [if_neg he]
    have hi : siteIndex g u v ≠ j := by
      intro hi
      refine he ((siteOf_eq_iff hlt u v).mp ?_)
      unfold siteIndex at hi
      have hi' : (circleSites g).idxOf (siteOf u v) < (circleSites g).length := hi ▸ hj
      rw [← List.getElem_idxOf hi']
      simp only [hi]
    have hi' : siteIndex g u v + 1 ≠ j + 1 := fun e => hi (Nat.succ.inj e)
    rw [if_neg hi', if_neg hi']

/-- Choosing a bit for the site before `lo` moves `lo` down. -/
theorem partialValue_descend (hp : 2 ^ (j + 1) ∣ p) (b : Bool) :
    partialValue g p (j + 1) (bitMark b) = partialValue g (p + b.toNat * 2 ^ j) j .circle := by
  obtain ⟨a, rfl⟩ := hp
  have hlt : b.toNat * 2 ^ j < 2 ^ (j + 1) := by
    have h2 : 0 < 2 ^ j := Nat.two_pow_pos j
    rw [Nat.pow_succ]
    cases b
    · simpa using h2
    · simp only [Bool.toNat_true]
      omega
  funext u v
  unfold partialValue
  simp only
  generalize siteIndex g u v = i
  rcases Nat.lt_trichotomy i j with h | h | h
  · rw [if_neg (by omega), if_neg (by omega), if_neg (by omega)]
    exact (ite_self _).symm
  · subst h
    rw [if_neg (by omega), if_pos rfl, if_pos (Nat.le_refl _), Nat.testBit_two_pow_mul_add a hlt,
      if_pos (Nat.lt_succ_self _)]
    cases b <;> simp
  · rw [if_pos (by omega), if_pos (Nat.le_of_lt h), Nat.testBit_two_pow_mul_add a hlt,
      if_neg (by omega), Nat.testBit_two_pow_mul]
    simp [show j + 1 ≤ i from h]

/-- `val'` keeps every mark `val` has decided. -/
def Refines (g : Pag) (val val' : Nat → Nat → Endpoint) : Prop :=
  ∀ a b w, g.look a b = some w → w.1 = .circle → val a b ≠ .circle → val' a b = val a b

theorem refines_mask {lo mask : Nat} (hp : 2 ^ lo ∣ p) (h1 : p ≤ mask) (h2 : mask < p + 2 ^ lo) :
    Refines g (partialValue g p lo .circle) (maskValue g mask) := by
  obtain ⟨a, rfl⟩ := hp
  obtain ⟨r, rfl⟩ := Nat.exists_eq_add_of_le h1
  intro u v w _ _ hne
  unfold partialValue maskValue at *
  simp only at hne ⊢
  generalize siteIndex g u v = i at hne ⊢
  by_cases hi : lo ≤ i
  · rw [if_pos hi, Nat.testBit_two_pow_mul_add a (by omega), if_neg (by omega),
      Nat.testBit_two_pow_mul]
    simp [hi]
  · rw [if_neg hi] at hne
    exact absurd (ite_self _) hne

theorem Refines.mark (h : Refines g val val') {w : Marks} (hl : g.look a b = some w)
    (hne : (if w.1 = .circle then val a b else w.1) ≠ .circle) :
    (if w.1 = .circle then val' a b else w.1) = if w.1 = .circle then val a b else w.1 := by
  split_ifs at hne ⊢ with hc
  · exact h a b w hl hc hne
  · rfl

theorem Refines.fill_eq (h : Refines g val val')
    {s t : Endpoint} {m : MiddleMark} (hl : g.look.fill val a b = some (s, t, m))
    (hs : s ≠ .circle) (ht : t ≠ .circle) : g.look.fill val' a b = some (s, t, m) := by
  obtain ⟨w, hw, he⟩ := Option.map_eq_some_iff.mp hl
  obtain ⟨rfl, rfl, rfl⟩ : _ = s ∧ _ = t ∧ w.2.2 = m := by
    simpa [Prod.mk.injEq] using he
  unfold Look.fill
  rw [hw]
  simp only [Option.map_some, Option.some.injEq, Prod.mk.injEq, and_true]
  exact ⟨h.mark hw hs, h.mark (g.mirrored a b w hw) ht⟩

/-- **A violation of decided edges stays in every refinement.** -/
theorem Refines.violates (h : Refines g val val')
    (hv : (g.look.fill val).Violates) : (g.look.fill val').Violates := by
  have hdir : ∀ x y, (g.look.fill val).Dir x y → (g.look.fill val').Dir x y := fun x y ⟨m, hm⟩ =>
    ⟨m, h.fill_eq hm (by simp) (by simp)⟩
  rcases hv with ⟨a, b, m, hm⟩ | ⟨a, b, ⟨m, hm⟩, hr⟩ | ⟨v, hv⟩
  · exact Or.inl ⟨a, b, m, h.fill_eq hm (by simp) (by simp)⟩
  · exact Or.inr (Or.inl ⟨a, b, ⟨m, h.fill_eq hm (by simp) (by simp)⟩,
      Relation.ReflTransGen.mono hdir _ _ hr⟩)
  · exact Or.inr (Or.inr ⟨v, Relation.TransGen.mono hdir _ _ hv⟩)

end Values

end Antecedent.Graph
