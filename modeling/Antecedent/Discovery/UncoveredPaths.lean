import Antecedent.Discovery.DiscriminatingPaths

/-!
# Uncovered potentially directed paths

Model of `uncovered_pd_paths_with_budget` (`uncovered_paths.rs:11-182`). The recursion keeps the
path with its newest node first; its first argument is how many nodes the path may still take.

* `Trail`: the paths the mark automaton reads.
* `search_lists`: what one call lists.
* **`uncoveredPaths_searched`**: the search lists uncovered paths within its budget, each once, and
  all of them unless it reports a cut.
-/

namespace Antecedent.Discovery

open Graph Listings

structure EndpointPattern where
  atFrom : Option Endpoint
  atTo : Option Endpoint

namespace EndpointPattern

def directed : EndpointPattern := ⟨some .tail, some .arrow⟩

def circleArrow : EndpointPattern := ⟨some .circle, some .arrow⟩

def circleCircle : EndpointPattern := ⟨some .circle, some .circle⟩

end EndpointPattern

def marksFromTo (adj : MarkedRows) (source target : Nat) : Option (Endpoint × Endpoint) :=
  (edgeBetween adj source target).map fun e => if e.a = source then (e.atA, e.atB) else (e.atB, e.atA)

/-- Lines 47-60. -/
def nextAllowedAfter (m : Endpoint × Endpoint) : List EndpointPattern :=
  if m = (.circle, .circle) then [.circleCircle, .circleArrow, .directed] else [.directed]

def matchesPattern (m : Endpoint × Endpoint) (pat : EndpointPattern) : Bool :=
  pat.atFrom.all (m.1 = ·) && pat.atTo.all (m.2 = ·)

/-- The marks of an edge that one of the patterns allows. -/
def allowedMarks (adj : MarkedRows) (allowed : List EndpointPattern) (source target : Nat) :
    Option (Endpoint × Endpoint) :=
  (marksFromTo adj source target).filter fun m => allowed.any (matchesPattern m)

/-- Lines 139-153: the marks of the edge to a neighbor the path may go on to. -/
def follow (adj : MarkedRows) (allowed : List EndpointPattern) (next : Nat) :
    List Nat → Option (Endpoint × Endpoint)
  | [] => none
  | [cur] => if next = cur then none else allowedMarks adj allowed cur next
  | cur :: prev :: path =>
    if next ∈ cur :: prev :: path ∨ (edgeBetween adj prev next).isSome then none
    else allowedMarks adj allowed cur next

/-- Lines 111-158. -/
def searchUncovered (adj : MarkedRows) (target maxPaths : Nat) :
    Nat → List Nat → List EndpointPattern → Found (List Nat) → Found (List Nat)
  | room, path, allowed, s =>
    if path.head? = some target then if 3 ≤ path.length then s.add path.reverse else s
    else match room with
      | 0 => s.cutIf ((onward adj path).any (· ∉ path))
      | room + 1 =>
        untilFull maxPaths (fun next s => (follow adj allowed next path).elim s fun m =>
          searchUncovered adj target maxPaths room (next :: path) (nextAllowedAfter m) s)
          (onward adj path) s

/-- Lines 85-182. -/
def uncoveredPdPathsWithBudget (adj : MarkedRows) (start target : Nat) (initial : List EndpointPattern)
    (maxPaths maxLen : Nat) : List (List Nat) × Bool :=
  if maxPaths = 0 then ([], true)
  else if start = target ∨ maxLen < 3 then ([], decide (maxLen < 3 ∧ start ≠ target))
  else
    let s := untilFull maxPaths (fun next s =>
      if next = target then s
      else (allowedMarks adj initial start next).elim s fun m =>
        searchUncovered adj target maxPaths (maxLen - 2) [next, start] (nextAllowedAfter m) s)
      (neighborIds adj start) ⟨[], false⟩
    (s.out, s.cut)

/-- A path from `start`, newest node first, and the patterns its next edge may have: no node twice,
no edge between nodes two apart, each edge allowed after the one before it. -/
inductive Trail (adj : MarkedRows) (start : Nat) (initial : List EndpointPattern) :
    List Nat → List EndpointPattern → Prop
  | start : Trail adj start initial [start] initial
  | step {x y p allowed v} : Trail adj start initial (x :: p) allowed → y ∉ x :: p →
      (∀ z, p.head? = some z → look adj z y = none) → look adj x y = some v →
      allowed.any (matchesPattern (v.1, v.2.1)) = true →
      Trail adj start initial (y :: x :: p) (nextAllowedAfter (v.1, v.2.1))

/-- The paths that are listed, newest node first. -/
def Reaches (adj : MarkedRows) (start target : Nat) (initial : List EndpointPattern)
    (q : List Nat) : Prop :=
  (∃ allowed, Trail adj start initial q allowed) ∧ q.head? = some target ∧ 3 ≤ q.length

/-- An uncovered path of three nodes or more that the automaton accepts. -/
def UncoveredPath (adj : MarkedRows) (start target : Nat) (initial : List EndpointPattern)
    (path : List Nat) : Prop :=
  ∃ q, q.reverse = path ∧ Reaches adj start target initial q

namespace Trail

variable {adj : MarkedRows} {n start x y : Nat} {initial allowed allowed' : List EndpointPattern}
  {p q : List Nat}

theorem nodup (h : Trail adj start initial p allowed) : p.Nodup := by
  induction h with
  | start => exact List.nodup_singleton start
  | step _ hy _ _ _ ih => exact List.nodup_cons.mpr ⟨hy, ih⟩

theorem start_suffix (h : Trail adj start initial p allowed) : [start] <:+ p := by
  induction h with
  | start => exact List.suffix_refl _
  | step _ _ _ _ _ ih => exact ih.trans (List.suffix_cons _ _)

theorem of_suffix (h : Trail adj start initial q allowed) (hp : y :: p <:+ q) :
    ∃ allowed', Trail adj start initial (y :: p) allowed' := by
  induction h with
  | start =>
    rcases List.suffix_cons_iff.mp hp with he | he
    · rw [he]
      exact ⟨_, .start⟩
    · exact absurd (List.suffix_nil.mp he) (List.cons_ne_nil _ _)
  | step h hy hu hv ha ih =>
    rcases List.suffix_cons_iff.mp hp with he | he
    · rw [he]
      exact ⟨_, .step h hy hu hv ha⟩
    · exact ih he

theorem exists_cons (h : Trail adj start initial p allowed) : ∃ x l, p = x :: l := by
  cases h <;> exact ⟨_, _, rfl⟩

/-- The patterns are determined by the path. -/
theorem unique (h : Trail adj start initial p allowed) (h' : Trail adj start initial p allowed') :
    allowed = allowed' := by
  cases h with
  | start =>
    cases h'
    rfl
  | step _ _ _ hv _ =>
    cases h' with
    | step _ _ _ hv' _ => rw [Option.some.inj (hv.symm.trans hv')]

theorem follow_iff (hs : Stored n adj) (h : Trail adj start initial (x :: p) allowed) :
    Trail adj start initial (y :: x :: p) allowed' ↔
      ∃ m, follow adj allowed y (x :: p) = some m ∧ allowed' = nextAllowedAfter m := by
  have hmarks : ∀ m, allowedMarks adj allowed x y = some m ↔ ∃ v, look adj x y = some v ∧
      (v.1, v.2.1) = m ∧ allowed.any (matchesPattern (v.1, v.2.1)) = true := by
    intro m
    unfold allowedMarks marksFromTo
    rw [hs.edgeBetween_eq, Option.filter_eq_some_iff, Option.map_map, Option.map_eq_some_iff]
    simp only [Function.comp_apply, if_pos]
    exact ⟨fun ⟨⟨v, hv, hm⟩, ha⟩ => ⟨v, hv, hm, hm ▸ ha⟩,
      fun ⟨v, hv, hm, ha⟩ => ⟨⟨v, hv, hm⟩, hm ▸ ha⟩⟩
  have hfollow : ∀ m, follow adj allowed y (x :: p) = some m ↔ y ∉ x :: p ∧
      (∀ z, p.head? = some z → look adj z y = none) ∧ allowedMarks adj allowed x y = some m := by
    intro m
    cases p with
    | nil => by_cases hxy : y = x <;> simp [follow, hxy]
    | cons z p =>
      by_cases hxy : y ∈ x :: z :: p
      · simp [follow, hxy]
      · by_cases hz : look adj z y = none
        · simp [follow, hxy, hz, hs.edgeBetween_isSome]
        · simp [follow, hxy, hz, hs.edgeBetween_isSome]
  constructor
  · intro h'
    cases h' with
    | step h₀ hy hu hv ha =>
      obtain rfl := h.unique h₀
      exact ⟨_, (hfollow _).mpr ⟨hy, hu, (hmarks _).mpr ⟨_, hv, rfl, ha⟩⟩, rfl⟩
  · rintro ⟨m, hm, rfl⟩
    obtain ⟨hy, hu, hm⟩ := (hfollow m).mp hm
    obtain ⟨v, hv, rfl, ha⟩ := (hmarks m).mp hm
    exact .step h hy hu hv ha

end Trail

/-! ## What it lists -/

section Search

variable {adj : MarkedRows} {n start target maxPaths maxLen x y : Nat} {s : Found (List Nat)}
  {initial allowed : List EndpointPattern} {p : List Nat} (h : Stored n adj)

/-- A path goes no further than its target. -/
theorem Reaches.eq_of_suffix {q : List Nat} (hq : Reaches adj start target initial q)
    (hp : target :: p <:+ q) : q = target :: p := by
  obtain ⟨⟨_, ht⟩, hlast, -⟩ := hq
  cases q with
  | nil => cases hlast
  | cons y q =>
    obtain rfl := Option.some.inj hlast
    by_contra hne
    rcases List.suffix_cons_iff.mp hp with he | he
    · exact hne he.symm
    · exact (List.nodup_cons.mp ht.nodup).1 (he.mem List.mem_cons_self)

/-- A path at its target is listed. -/
theorem arrived_lists (ht : Trail adj start initial (target :: p) allowed)
    (hlen : (target :: p).length ≤ maxLen) (hs : s.out.length < maxPaths) :
    Lists maxPaths (fun f => f.length ≤ maxLen)
      (Below List.reverse (Reaches adj start target initial) (target :: p)) s
      (if 3 ≤ (target :: p).length then s.add (target :: p).reverse else s) := by
  split_ifs with hlong
  · refine .add (by rwa [List.length_reverse]) (fun f => ⟨?_, ?_⟩) hs
    · rintro ⟨q, rfl, hq, hp⟩
      rw [hq.eq_of_suffix hp]
    · rintro rfl
      exact ⟨_, rfl, ⟨⟨_, ht⟩, rfl, hlong⟩, List.suffix_refl _⟩
  · refine .skip ?_
    rintro f ⟨q, -, hq, hp⟩
    exact hlong (hq.eq_of_suffix hp ▸ hq.2.2)

include h

theorem onward_of_trail (ht : Trail adj start initial (y :: x :: p) allowed) :
    y ∈ neighborIds adj x ∧ y ∉ x :: p := by
  cases ht with
  | step _ hy _ hv _ => exact ⟨(mem_neighborIds h).mpr (by rw [hv]; rfl), hy⟩

/-- What is over a path short of its target is over one more neighbor. -/
theorem exists_onward {f : List Nat} (hx : x ≠ target)
    (hf : f ∈ Below List.reverse (Reaches adj start target initial) (x :: p)) :
    ∃ y ∈ onward adj (x :: p), y ∉ x :: p ∧
      f ∈ Below List.reverse (Reaches adj start target initial) (y :: x :: p) := by
  obtain ⟨y, q, hqf, hq, hp⟩ := below_cons (fun hq => hx (Option.some.inj hq.2.1)) hf
  obtain ⟨_, ht⟩ := hq.1.elim fun _ ht => ht.of_suffix hp
  obtain ⟨hy, hfresh⟩ := onward_of_trail h ht
  exact ⟨y, hy, hfresh, q, hqf, hq, hp⟩

/-- **One call lists what is over its path.** The induction is on the nodes the path may still take.
-/
theorem search_lists (room : Nat) {p : List Nat} {allowed : List EndpointPattern}
    (ht : Trail adj start initial p allowed) (hroom : p.length + room = maxLen)
    (hs : s.out.length < maxPaths) : Lists maxPaths (fun f => f.length ≤ maxLen)
      (Below List.reverse (Reaches adj start target initial) p) s
      (searchUncovered adj target maxPaths room p allowed s) := by
  induction room generalizing p allowed s with
  | zero =>
    obtain ⟨x, p, rfl⟩ := ht.exists_cons
    unfold searchUncovered
    by_cases hx : x = target
    · subst hx
      rw [if_pos (by rfl)]
      exact arrived_lists ht hroom.le hs
    · have hlast : ¬ (x :: p).head? = some target := fun he => hx (Option.some.inj he)
      rw [if_neg hlast]
      cases hany : (onward adj (x :: p)).any (· ∉ x :: p) with
      | true => exact .cutOff
      | false =>
        have hkeep : s.cutIf false = s := by simp [Found.cutIf]
        rw [hkeep]
        refine .skip fun f hf => ?_
        obtain ⟨y, hy, hfresh, -⟩ := exists_onward h hx hf
        simpa [hfresh] using List.any_eq_false.mp hany y hy
  | succ room ih =>
    obtain ⟨x, p, rfl⟩ := ht.exists_cons
    unfold searchUncovered
    by_cases hx : x = target
    · subst hx
      rw [if_pos (by rfl)]
      exact arrived_lists ht (by omega) hs
    · have hlast : ¬ (x :: p).head? = some target := fun he => hx (Option.some.inj he)
      rw [if_neg hlast]
      refine Lists.grow (untilFull_lists (S := fun y =>
        Below List.reverse (Reaches adj start target initial) (y :: x :: p)) (fun y _ s hs => ?_)
        ((nodup_onward h _).imp fun hne f hf => below_disjoint List.reverse_injective hne hf)) ?_
        (Or.inr fun f hf => ?_)
      · cases hf : follow adj allowed y (x :: p) with
        | none =>
          refine .skip ?_
          rintro f ⟨q, -, hq, hp⟩
          obtain ⟨_, ht'⟩ := hq.1.elim fun _ ht' => ht'.of_suffix hp
          obtain ⟨m, hm, -⟩ := (ht.follow_iff h).mp ht'
          rw [hf] at hm
          cases hm
        | some m =>
          refine ih ((ht.follow_iff h).mpr ⟨m, hf, rfl⟩) ?_ hs
          simp only [List.length_cons] at hroom ⊢
          omega
      · rintro f ⟨y, -, hf⟩
        exact below_of_cons hf
      · obtain ⟨y, hy, -, hf⟩ := exists_onward h hx hf
        exact ⟨y, hy, hf⟩

theorem follow_start : follow adj initial y [x] = allowedMarks adj initial x y := by
  simp only [follow]
  split_ifs with hyx
  · have hself : look adj x y = none := by
      by_contra hne
      obtain ⟨v, hv⟩ := Option.ne_none_iff_exists'.mp hne
      exact h.ne_of_look hv hyx.symm
    simp [allowedMarks, marksFromTo, h.edgeBetween_eq, hself]
  · rfl

/-- The loop over the neighbors of `start` is a call at `start`. -/
theorem uncoveredPdPathsWithBudget_eq (hne : start ≠ target) (hlen : 3 ≤ maxLen) (hpos : maxPaths ≠ 0) :
    uncoveredPdPathsWithBudget adj start target initial maxPaths maxLen =
      ((searchUncovered adj target maxPaths (maxLen - 1) [start] initial ⟨[], false⟩).out,
        (searchUncovered adj target maxPaths (maxLen - 1) [start] initial ⟨[], false⟩).cut) := by
  have hroom : maxLen - 1 = maxLen - 2 + 1 := by omega
  have hlast : ¬ [start].head? = some target := fun he => hne (Option.some.inj he)
  unfold uncoveredPdPathsWithBudget
  rw [if_neg hpos, if_neg (by omega), hroom, searchUncovered, if_neg hlast]
  have hturn : ∀ next s, (if next = target then s
      else (allowedMarks adj initial start next).elim s fun m =>
        searchUncovered adj target maxPaths (maxLen - 2) [next, start] (nextAllowedAfter m) s) =
      (follow adj initial next [start]).elim s fun m =>
        searchUncovered adj target maxPaths (maxLen - 2) [next, start] (nextAllowedAfter m) s := by
    intro next s
    rw [follow_start h]
    split_ifs with htarget
    · cases allowedMarks adj initial start next with
      | none => rfl
      | some m =>
        unfold searchUncovered
        simp [htarget]
    · rfl
  simp only [hturn, onward]

end Search

theorem uncoveredPdPathsWithBudget_searched {adj : MarkedRows} {n : Nat} (h : Stored n adj)
    (start target : Nat) (initial : List EndpointPattern) (maxPaths maxLen : Nat) :
    PathsListed (UncoveredPath adj start target initial) maxPaths maxLen
      (uncoveredPdPathsWithBudget adj start target initial maxPaths maxLen) := by
  by_cases hpos : maxPaths = 0
  · rw [uncoveredPdPathsWithBudget, if_pos hpos]
    exact ⟨List.nodup_nil, by simp, by simp, by simp⟩
  by_cases hearly : start = target ∨ maxLen < 3
  · rw [uncoveredPdPathsWithBudget, if_neg hpos, if_pos hearly]
    refine ⟨List.nodup_nil, by simp, by simp, fun hcut path => ?_⟩
    rintro ⟨q, -, hq⟩
    obtain rfl : start = target := hearly.elim id fun hlt => by simpa [hlt] using hcut
    have hsuf : [start] <:+ q := hq.1.elim fun _ ht => ht.start_suffix
    have hlong := hq.2.2
    rw [hq.eq_of_suffix hsuf] at hlong
    simp at hlong
  · rw [not_or, Nat.not_lt] at hearly
    rw [uncoveredPdPathsWithBudget_eq h hearly.1 hearly.2 hpos]
    refine .of_lists ((search_lists h _ .start (by simp; omega) (Nat.pos_of_ne_zero hpos)).grow ?_
      (Or.inr ?_))
    · rintro path ⟨q, hq, hv, -⟩
      exact ⟨q, hq, hv⟩
    · rintro path ⟨q, hq, hv⟩
      exact ⟨q, hq, hv, hv.1.elim fun _ ht => ht.start_suffix⟩

/-- **The search lists the uncovered paths from `start` to `target`**, on every static and every
temporal PAG. -/
theorem uncoveredPaths_searched (g : Pag) (t : TemporalPag) (start target : Nat)
    (initial : List EndpointPattern) (maxPaths maxLen : Nat) :
    PathsListed (UncoveredPath g.adj start target initial) maxPaths maxLen
        (uncoveredPdPathsWithBudget g.adj start target initial maxPaths maxLen) ∧
      PathsListed (UncoveredPath t.adj start target initial) maxPaths maxLen
        (uncoveredPdPathsWithBudget t.adj start target initial maxPaths maxLen) :=
  ⟨uncoveredPdPathsWithBudget_searched g.stored .., uncoveredPdPathsWithBudget_searched t.stored ..⟩

end Antecedent.Discovery
