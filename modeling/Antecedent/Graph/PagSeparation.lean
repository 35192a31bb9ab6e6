import Antecedent.Graph.CompletionWalk
import Antecedent.Mixed.Triples
import Antecedent.Search.SimplePaths

/-!
# m-separation in a PAG

Model of the class-wide separation query (`msep.rs:509-665`) and of the path tests behind it
(`pag.rs:396-643`): the walk over simple paths, the definite-status and the possibly-active test,
and the enumeration of the class when the marks leave the answer open.

* `mSeparationStatus_correct`: the three-way answer, on a certified class, is that of the members.

The members are cached per state of the graph; the cache holds what `build_class_members` would
return again and has no counterpart. The `seen` flags of the memo are cleared before each search
returns, so a search starts without any.
-/

namespace Antecedent.Graph

open Core Relation
open Mixed
open SimplePaths
open Worklist

/-! ## The code -/

namespace Pag

def validateNode (g : Pag) (id : Nat) : Except GraphError Unit :=
  if g.nodeCount ≤ id then .error (.unknownNode id) else .ok ()

/-- The neighbours of a row (`adj_of`). -/
def adjOf (g : Pag) (id : Nat) : List Nat := (row g.adj id).map AdjEntry.neighbor

/-- `walk_simple_paths` (`pag.rs:426-484`): whether `max_len` left a path unexplored, and the
note. -/
def walkSimplePaths {σ : Type} (g : Pag) (x y maxLen : Nat) (visit : List Nat → σ → σ × Bool)
    (note : σ) : Bool × σ :=
  walk g.adjOf y maxLen visit ((g.nodeCount + 2) ^ (g.nodeCount + 1) + 1) x note

/-- `pag.rs:491-500`. -/
def marksAt (g : Pag) (pred v succ : Nat) : Option (Endpoint × Endpoint) := do
  let e1 ← edgeBetween g.adj pred v
  let e2 ← edgeBetween g.adj v succ
  return (if e1.a = v then e1.atA else e1.atB, if e2.a = v then e2.atA else e2.atB)

/-- One triple of `path_is_definite_status`. -/
def definiteTriple (g : Pag) (w : Nat × Nat × Nat) : Bool :=
  match g.marksAt w.1 w.2.1 w.2.2 with
  | none => false
  | some (fromPred, fromSucc) =>
    let definiteCollider := fromPred == .arrow && fromSucc == .arrow
    let conflict := fromPred == .conflict || fromSucc == .conflict
    let definiteNoncollider := fromPred == .tail || fromSucc == .tail ||
      (!conflict && !definiteCollider && !g.hasEdge w.1 w.2.2)
    definiteCollider || definiteNoncollider

/-- `pag.rs:502-519`. -/
def pathIsDefiniteStatus (g : Pag) (path : List Nat) : Bool := (windows3 path).all g.definiteTriple

/-- `DescendantMemo`: the answers known. -/
structure DescendantMemo where
  answer : List (Option Bool) := []

/-- The neighbours of `a` no mark forbids reading as `a -> b`. -/
def possibleChildren (g : Pag) (a : Nat) : List Nat :=
  (g.neighbors a).filterMap fun e =>
    if e.2.1 == .arrow || e.2.2 == .tail then none else some e.1

/-- The search of `possible_descendant_in`: the start is seen, so it is not found again. -/
def possibleDescendant (g : Pag) (z : List Nat) (v : Nat) : Bool :=
  search g.possibleChildren
    (fun a => (g.possibleChildren a).any fun b => b != v && z.contains b) (g.nodeCount + 1) [v]

/-- `pag.rs:556-597`. -/
def possibleDescendantIn (g : Pag) (v : Nat) (z : List Nat) (memo : DescendantMemo) :
    Bool × DescendantMemo :=
  let answer := if memo.answer.length ≠ g.nodeCount then List.replicate g.nodeCount none
    else memo.answer
  match answer.getD v none with
  | some known => (known, ⟨answer⟩)
  | none =>
    let found := g.possibleDescendant z v
    (found, ⟨answer.set v (some found)⟩)

/-- `Endpoint::Circle | Endpoint::Conflict`, as `unknown` names it. -/
def unknownMark (m : Endpoint) : Bool := m == .circle || m == .conflict

/-- One triple of `path_possibly_active_given`. -/
def possiblyActiveTriple (g : Pag) (z : List Nat) (w : Nat × Nat × Nat) (memo : DescendantMemo) :
    Bool × DescendantMemo :=
  match g.marksAt w.1 w.2.1 w.2.2 with
  | none => (false, memo)
  | some (fromPred, fromSucc) =>
    let inZ := z.contains w.2.1
    let arrows := fromPred == .arrow && fromSucc == .arrow
    let conflict := fromPred == .conflict || fromSucc == .conflict
    let mayCollide := (fromPred == .arrow || unknownMark fromPred) &&
      (fromSucc == .arrow || unknownMark fromSucc) &&
      (arrows || conflict || g.hasEdge w.1 w.2.2)
    if !arrows && !inZ then (true, memo)
    else if !mayCollide then (false, memo)
    else if inZ then (true, memo)
    else g.possibleDescendantIn w.2.1 z memo

/-- `all` over the triples, the memo passed on. -/
def possiblyActiveTriples (g : Pag) (z : List Nat) :
    List (Nat × Nat × Nat) → DescendantMemo → Bool × DescendantMemo
  | [], memo => (true, memo)
  | w :: ws, memo =>
    match g.possiblyActiveTriple z w memo with
    | (true, memo) => possiblyActiveTriples g z ws memo
    | (false, memo) => (false, memo)

/-- `pag.rs:529-554`. -/
def pathPossiblyActiveGiven (g : Pag) (path z : List Nat) (memo : DescendantMemo) :
    Bool × DescendantMemo := g.possiblyActiveTriples z (windows3 path) memo

def colliderDescendantInZ (g : Pag) (v : Nat) (z : List Nat) : Bool :=
  z.any fun d => d != v && g.reachesDirected v d

/-- One inner node of `path_active_on_edges`. -/
def activeTriple (g : Pag) (z : List Nat) (w : Nat × Nat × Nat) : Bool :=
  match edgeBetween g.adj w.1 w.2.1, edgeBetween g.adj w.2.1 w.2.2 with
  | some e1, some e2 =>
    let markFromPred := if e1.a = w.2.1 then e1.atA else e1.atB
    let markFromSucc := if e2.a = w.2.1 then e2.atA else e2.atB
    if markFromPred == .arrow && markFromSucc == .arrow then
      z.contains w.2.1 || g.colliderDescendantInZ w.2.1 z
    else !z.contains w.2.1
  | _, _ => false

/-- `pag.rs:619-654`. -/
def pathActiveOnEdges (g : Pag) (path z : List Nat) : Bool :=
  match path with
  | first :: second :: rest =>
    if z.contains first || z.contains ((second :: rest).getLastD first) then true
    else (windows3 (first :: second :: rest)).all (g.activeTriple z)
  | _ => false

/-- The state of the closure of `separation_from_marks`. -/
structure MarksSearch where
  examined : Nat := 0
  capped : Bool
  definiteActive : Option (List Nat) := none
  possiblyActive : Option (List Nat) := none
  memo : DescendantMemo := {}

/-- The closure of `separation_from_marks` (`msep.rs:564-579`). -/
def visitPath (g : Pag) (z : List Nat) (maxPaths : Nat) (path : List Nat) (s : MarksSearch) :
    MarksSearch × Bool :=
  if maxPaths ≤ s.examined then ({ s with capped := true }, false)
  else
    let s := { s with examined := s.examined + 1 }
    if g.pathIsDefiniteStatus path && g.pathActiveOnEdges path z then
      ({ s with definiteActive := some path }, false)
    else if s.possiblyActive.isNone then
      match g.pathPossiblyActiveGiven path z s.memo with
      | (true, memo) => ({ s with possiblyActive := some path, memo := memo }, true)
      | (false, memo) => ({ s with memo := memo }, true)
    else (s, true)

/-- `msep.rs:552-588`. -/
def separationFromMarks (g : Pag) (x y : Nat) (z : List Nat) (maxPaths maxLen : Nat) :
    Except GraphError (Option Bool × Option (List Nat)) :=
  let (cut, s) := g.walkSimplePaths x y maxLen (g.visitPath z maxPaths)
    { capped := decide (maxPaths = 0) || decide (maxLen = 0) }
  if s.definiteActive.isSome then .ok (some false, s.definiteActive)
  else if s.capped || cut then .error (.searchBudgetExhausted maxPaths maxLen)
  else .ok (if s.possiblyActive.isNone then some true else none, s.possiblyActive)

end Pag

/-- The completions a sampler yields, at most `fuel` of them. -/
def CompletionSampler.collect : Nat → CompletionSampler → List PagCompletion
  | 0, _ => []
  | fuel + 1, s =>
    match s.next with
    | (none, _) => []
    | (some y, s) => y :: CompletionSampler.collect fuel s

/-- `msep.rs:526-530`. -/
inductive ClassSeparation
  | separated
  | connected (path : List Nat)
  | undetermined

/-- `msep.rs:511-523`. -/
inductive PagSeparation
  | separated
  | connected
  | undetermined
  deriving DecidableEq

namespace Pag

/-- `build_class_members` (`pag.rs:412-418`), with no cap and the default limits. -/
def buildClassMembers (g : Pag) : Except GraphError (Option (List Admg)) :=
  match CompletionSampler.withBudget g u64Max defaultCompletionLimits .production with
  | .error _ => .ok none
  | .ok sampler =>
    if sampler.classAuditIncomplete then .ok none
    else do
      let members ← (sampler.collect (sampler.completions.length + 1)).mapM fun member =>
        asAdmg member.graph
      return some members

/-- The loop over the members (`msep.rs:634-640`): the common answer, `none` for no member, and
whether two members disagree. -/
def compareMembers (x y : Nat) (z : List Nat) : List Admg → Option Bool →
    Except GraphError (Option Bool × Bool)
  | [], verdict => .ok (verdict, false)
  | member :: members, verdict => do
    let separated ← member.isMSeparated x y z
    let first := verdict.getD separated
    if first ≠ separated then return (some first, true)
    compareMembers x y z members (some first)

/-- `msep.rs:590-647`. -/
def classSeparation (g : Pag) (x y : Nat) (z : List Nat) (maxPaths maxLen : Nat) :
    Except GraphError ClassSeparation := do
  g.validateNode x
  g.validateNode y
  z.forM g.validateNode
  if x = y then return .connected [x]
  if z.any fun v => v == x || v == y then return .connected [x, y]
  let (decided, path) ← g.separationFromMarks x y z maxPaths maxLen
  match decided with
  | some true => return .separated
  | some false => return .connected (path.getD [])
  | none =>
    match ← g.buildClassMembers with
    | none => return .undetermined
    | some members =>
      match ← compareMembers x y z members none with
      | (_, true) => return .undetermined
      | (some true, false) => return .separated
      | (some false, false) => return .connected (path.getD [])
      | (none, false) => return .undetermined

/-- `msep.rs:664-676`. -/
def mSeparationStatus (g : Pag) (x y : Nat) (z : List Nat) (maxPaths maxLen : Nat) :
    Except GraphError PagSeparation := do
  match ← g.classSeparation x y z maxPaths maxLen with
  | .separated => return .separated
  | .connected _ => return .connected
  | .undetermined => return .undetermined

end Pag

/-! ## Reading the marks -/

section Marks

variable {g : Pag}

namespace Pag

variable {a b v : Nat} {w₁ w₂ : Marks}

theorem mem_adjOf : b ∈ g.adjOf a ↔ ∃ w, g.look a b = some w := by
  unfold adjOf
  rw [List.mem_map]
  constructor
  · rintro ⟨e, he, rfl⟩
    exact ⟨_, g.stored.mem_row.mp he⟩
  · rintro ⟨w, hw⟩
    exact ⟨AdjEntry.ofMarks b w, g.stored.look_iff.mp hw, rfl⟩

theorem adjOf_bounded (g : Pag) : Bounded g.adjOf (Finset.range g.nodeCount) := by
  refine ⟨fun v _ w hw => ?_, fun v _ => g.stored.nodup v⟩
  obtain ⟨m, hm⟩ := mem_adjOf.mp hw
  exact Finset.mem_range.mpr (g.stored.lt_of_look hm).2

theorem edgeBetween_of_look {w : Marks} (h : g.look a b = some w) :
    edgeBetween g.adj a b = some ⟨a, b, w.1, w.2.1, w.2.2⟩ := by
  rw [g.stored.edgeBetween_eq a b, show Graph.look g.adj a b = some w from h]
  rfl

variable (h₁ : g.look v a = some w₁) (h₂ : g.look v b = some w₂)

include h₁ h₂

theorem marksAt_eq : g.marksAt a v b = some (w₁.1, w₂.1) := by
  have hne := g.stored.ne_of_look h₁
  unfold marksAt
  rw [edgeBetween_of_look (g.mirrored v a w₁ h₁), edgeBetween_of_look h₂]
  simp [Marks.flip, hne.symm]

theorem activeTriple_eq (z : List Nat) : g.activeTriple z (a, v, b) =
      if w₁.1 == .arrow && w₂.1 == .arrow then z.contains v || g.colliderDescendantInZ v z
      else !z.contains v := by
  have hne := g.stored.ne_of_look h₁
  unfold activeTriple
  simp only
  rw [edgeBetween_of_look (g.mirrored v a w₁ h₁), edgeBetween_of_look h₂]
  simp [Marks.flip, hne.symm]

end Pag

variable {L : Look}

theorem Look.edge_iff (h : L.Mirrored) {k : EdgeKind} {a b : Nat} :
    (L.mixed h).Edge k a b ↔ ∃ m, L a b = some (bitMark k.headL, bitMark k.headR, m) := by
  cases k with
  | fwd => exact Iff.rfl
  | bwd =>
    constructor
    · rintro ⟨m, hm⟩
      exact ⟨m, h b a _ hm⟩
    · rintro ⟨m, hm⟩
      exact ⟨m, h a b _ hm⟩
  | bi => exact Iff.rfl

theorem bitMark_inj {b c : Bool} (h : bitMark b = bitMark c) : b = c := by
  cases b <;> cases c <;> simp [bitMark] at h ⊢

theorem Look.single (h : L.Mirrored) : (L.mixed h).Single := by
  intro k l a b hk hl
  obtain ⟨m, hm⟩ := (Look.edge_iff h).mp hk
  obtain ⟨m', hm'⟩ := (Look.edge_iff h).mp hl
  rw [hm] at hm'
  simp only [Option.some.injEq, Prod.mk.injEq] at hm'
  have h1 := bitMark_inj hm'.1
  have h2 := bitMark_inj hm'.2.1
  cases k <;> cases l <;> simp_all [EdgeKind.headL, EdgeKind.headR]

end Marks

/-! ## What a member keeps of the marks -/

section Members

variable {g : Pag} {mask : Nat}

variable {v a b : Nat} {w w₁ w₂ : Marks} {Z : Set Nat} {p : List Nat} {x y : Nat}

theorem member_mark (hq : Completes g mask) (hl : g.look v a = some w) :
    ∃ w', assigned g mask v a = some w' ∧ (w'.1 = .tail ∨ w'.1 = .arrow) ∧
      (w.1 ≠ .circle → w'.1 = w.1) := by
  obtain ⟨w', hw', hkeep⟩ : ∃ w', assigned g mask v a = some w' ∧ (w.1 ≠ .circle → w'.1 = w.1) := by
    unfold assigned Look.fill
    rw [hl]
    exact ⟨_, rfl, fun hne => if_neg hne⟩
  refine ⟨w', hw', ?_, hkeep⟩
  rcases hq.1.marks v a w' hw' with ⟨m, hm⟩ | ⟨m, hm⟩ | ⟨m, hm⟩
  · rw [hw'] at hm
    exact Or.inl (congrArg Prod.fst (Option.some.inj hm))
  · have := assigned_mirrored g mask a v _ hm
    rw [hw'] at this
    exact Or.inr (congrArg Prod.fst (Option.some.inj this))
  · rw [hw'] at hm
    exact Or.inr (congrArg Prod.fst (Option.some.inj hm))

theorem no_conflict (hq : Completes g mask) (hl : g.look v a = some w) :
    w.1 ≠ .conflict := by
  intro hc
  obtain ⟨w', -, hmark, hkeep⟩ := member_mark hq hl
  rw [hkeep (by rw [hc]; simp), hc] at hmark
  simp at hmark

theorem assigned_isSome : (assigned g mask a b).isSome = (g.look a b).isSome :=
  Option.isSome_map

theorem member_adj (hq : Completes g mask) :
    (∃ k, (assignedMixed g mask).Edge k a b) ↔ b ∈ g.adjOf a := by
  rw [Pag.mem_adjOf]
  constructor
  · rintro ⟨k, hk⟩
    obtain ⟨m, hm⟩ := (Look.edge_iff (assigned_mirrored g mask)).mp hk
    have hs : (assigned g mask a b).isSome = (g.look a b).isSome := assigned_isSome
    rw [hm] at hs
    exact Option.isSome_iff_exists.mp hs.symm
  · rintro ⟨w, hw⟩
    obtain ⟨w', hw', -, -⟩ := member_mark hq hw
    rcases hq.1.marks a b w' hw' with h | h | h
    · exact ⟨.fwd, h⟩
    · exact ⟨.bwd, h⟩
    · exact ⟨.bi, h⟩

theorem member_triple (hq : Completes g mask)
    (h₁ : assigned g mask v a = some w₁) (h₂ : assigned g mask v b = some w₂) :
    (assignedMixed g mask).TriplePasses Z (a, v, b) ↔
      (assignedMixed g mask).Passes Z (w₁.1 == .arrow && w₂.1 == .arrow) v := by
  have hmirror := assigned_mirrored g mask
  have hkind : ∀ {u : Nat} {w : Marks}, assigned g mask v u = some w →
      ∃ k : EdgeKind, (assignedMixed g mask).Edge k v u ∧ bitMark k.headL = w.1 := by
    intro u w hw
    rcases hq.1.marks v u w hw with ⟨m, hm⟩ | ⟨m, hm⟩ | ⟨m, hm⟩
    · refine ⟨.fwd, ⟨m, hm⟩, ?_⟩
      rw [hw] at hm
      exact (congrArg Prod.fst (Option.some.inj hm)).symm
    · refine ⟨.bwd, ⟨m, hm⟩, ?_⟩
      have := hmirror u v _ hm
      rw [hw] at this
      exact (congrArg Prod.fst (Option.some.inj this)).symm
    · refine ⟨.bi, ⟨m, hm⟩, ?_⟩
      rw [hw] at hm
      exact (congrArg Prod.fst (Option.some.inj hm)).symm
  have harrow : ∀ c : Bool, (bitMark c == .arrow) = c := by
    intro c
    cases c <;> rfl
  obtain ⟨k, hk, hk'⟩ := hkind h₁
  obtain ⟨l, hl, hl'⟩ := hkind h₂
  rw [← hk', ← hl', harrow, harrow]
  constructor
  · rintro ⟨k', l', hka, hlb, hp⟩
    have h1 := Look.single hmirror _ _ _ _ hk hka.symm
    have h2 := Look.single hmirror _ _ _ _ hl hlb
    rw [h1, h2, EdgeKind.headL_flip]
    exact hp
  · intro hp
    refine ⟨k.flip, l, hk.symm, hl, ?_⟩
    rw [EdgeKind.headR_flip]
    exact hp

theorem triple_marks (hp : SimplePath g.adjOf x y p)
    {t : Nat × Nat × Nat} (ht : t ∈ windows3 p) :
    ∃ w₁ w₂, g.look t.2.1 t.1 = some w₁ ∧ g.look t.2.1 t.2.2 = some w₂ := by
  obtain ⟨h1, h2⟩ := windows3_chain hp.chain t ht
  obtain ⟨w₁, hw₁⟩ := Pag.mem_adjOf.mp h1
  obtain ⟨w₂, hw₂⟩ := Pag.mem_adjOf.mp h2
  exact ⟨w₁.flip, w₂, g.mirrored _ _ _ hw₁, hw₂⟩

/-- **m-connection in a member**, over the simple paths of the PAG. -/
theorem member_connecting (hq : Completes g mask) :
    (assignedMixed g mask).MConnecting Z x y ↔ ∃ p, SimplePath g.adjOf x y p ∧
      ∀ t ∈ windows3 p, (assignedMixed g mask).TriplePasses Z t := by
  have hsingle : (assignedMixed g mask).Single := Look.single (assigned_mirrored g mask)
  rw [MixedGraph.mConnecting_iff_triples hsingle]
  have hrel : (fun a b => ∃ k, (assignedMixed g mask).Edge k a b) = fun a b => b ∈ g.adjOf a :=
    funext fun a => funext fun b => propext (member_adj hq)
  rw [hrel]
  constructor
  · rintro ⟨p, hc, hn, hx, hy, ht⟩
    exact ⟨p, ⟨hc, hn, hx, hy⟩, ht⟩
  · rintro ⟨p, ⟨hc, hn, hx, hy⟩, ht⟩
    exact ⟨p, hc, hn, hx, hy, ht⟩

theorem member_dir (h : g.look.Dir a b) : (assignedMixed g mask).dir a b := by
  obtain ⟨m, hm⟩ := h
  refine ⟨m, ?_⟩
  unfold assigned Look.fill
  rw [hm]
  simp

variable (hq : Completes g mask) {z : List Nat}

include hq

theorem definite_collider {w₁' w₂' : Marks} (h₁ : g.look v a = some w₁) (h₂ : g.look v b = some w₂)
    (h₁' : assigned g mask v a = some w₁') (h₂' : assigned g mask v b = some w₂') (hab : a ≠ b)
    (hdef : g.definiteTriple (a, v, b) = true) :
    (w₁'.1 == .arrow && w₂'.1 == .arrow) = (w₁.1 == .arrow && w₂.1 == .arrow) := by
  obtain ⟨u₁, hu₁, hm₁, hk₁⟩ := member_mark hq h₁
  obtain ⟨u₂, hu₂, hm₂, hk₂⟩ := member_mark hq h₂
  obtain rfl := Option.some.inj (hu₁.symm.trans h₁')
  obtain rfl := Option.some.inj (hu₂.symm.trans h₂')
  have hsame := hq.2 a v b w₁ w₂ u₁ u₂ hab h₁ h₂
  unfold Pag.definiteTriple at hdef
  simp only [Pag.marksAt_eq h₁ h₂, g.hasEdge_iff] at hdef
  cases hadj : g.look a b with
  | none =>
    have := hsame hadj hu₁ hu₂
    rw [Bool.eq_iff_iff]
    simpa using this.symm
  | some w =>
    rw [hadj] at hdef
    obtain ⟨s₁, t₁, m₁⟩ := w₁
    obtain ⟨s₂, t₂, m₂⟩ := w₂
    rw [Bool.eq_iff_iff]
    cases s₁ <;> cases s₂ <;> simp_all

/-- **A definite-status path active on the marks is m-connecting in every member.** -/
theorem definite_active (hx : x ∉ z) (hy : y ∉ z)
    (hp : SimplePath g.adjOf x y p) (hdef : g.pathIsDefiniteStatus p = true)
    (hact : g.pathActiveOnEdges p z = true) : (assignedMixed g mask).MConnecting {v | v ∈ z} x y := by
  refine (member_connecting hq).mpr ⟨p, hp, fun t ht => ?_⟩
  have htriple : g.activeTriple z t = true := by
    unfold Pag.pathActiveOnEdges at hact
    match p, hp with
    | a :: b :: rest, hp =>
      obtain rfl := Option.some.inj hp.head
      have hlast : (b :: rest).getLastD a = y := by
        have := hp.last
        rw [List.getLast?_cons] at this
        rw [List.getLastD_eq_getLast?]
        have hsome : ∃ u, (b :: rest).getLast? = some u := by
          rw [List.getLast?_cons]
          exact ⟨_, rfl⟩
        obtain ⟨u, hu⟩ := hsome
        rw [hu] at this ⊢
        exact Option.some.inj this
      simp only [hlast] at hact
      rw [if_neg (by simp [hx, hy])] at hact
      exact List.all_eq_true.mp hact t ht
    | [a], hp => exact absurd ht List.not_mem_nil
    | [], hp => exact absurd ht List.not_mem_nil
  have hdt := List.all_eq_true.mp hdef t ht
  obtain ⟨a, v, b⟩ := t
  obtain ⟨w₁, w₂, h₁, h₂⟩ := triple_marks hp ht
  obtain ⟨-, -, hab⟩ := windows3_ne hp.nodup _ ht
  obtain ⟨u₁, hu₁, -, -⟩ := member_mark hq h₁
  obtain ⟨u₂, hu₂, -, -⟩ := member_mark hq h₂
  rw [member_triple hq hu₁ hu₂, definite_collider hq h₁ h₂ hu₁ hu₂ hab hdt]
  rw [Pag.activeTriple_eq h₁ h₂] at htriple
  split_ifs at htriple with hcol
  · rw [hcol, MixedGraph.passes_collider]
    rcases Bool.or_eq_true_iff.mp htriple with hz | hz
    · exact MixedGraph.mem_ancSet_of_mem (List.contains_iff_mem.mp hz)
    · obtain ⟨d, hd, hr⟩ := List.any_eq_true.mp hz
      refine ⟨d, hd, ?_⟩
      exact ReflTransGen.mono (fun _ _ h => member_dir h) _ _
        (g.reachesDirected_sound (Bool.and_eq_true_iff.mp hr).2)
  · rw [Bool.not_eq_true] at hcol
    rw [hcol, MixedGraph.passes_noncollider]
    simpa using htriple

/-- A directed edge of a member is one no mark of the PAG forbids. -/
theorem mem_possibleChildren (h : (assignedMixed g mask).dir a b) : b ∈ g.possibleChildren a := by
  obtain ⟨m, hm⟩ := h
  have hs : (assigned g mask a b).isSome = (g.look a b).isSome := assigned_isSome
  rw [hm] at hs
  obtain ⟨w, hw⟩ := Option.isSome_iff_exists.mp hs.symm
  obtain ⟨u, hu, -, hk⟩ := member_mark hq hw
  obtain ⟨u', hu', -, hk'⟩ := member_mark hq (g.mirrored a b w hw)
  obtain rfl := Option.some.inj (hm.symm.trans hu)
  obtain rfl := Option.some.inj ((assigned_mirrored g mask a b _ hm).symm.trans hu')
  obtain ⟨s, t, n⟩ := w
  refine List.mem_filterMap.mpr ⟨(b, s, t), g.mem_neighbors.mpr ⟨n, hw⟩, ?_⟩
  have h1 : s ≠ .arrow := fun hs => by
    have := hk (by rw [hs]; simp)
    rw [hs] at this
    simp at this
  have h2 : t ≠ .tail := fun ht => by
    have := hk' (by rw [show (Marks.flip (s, t, n)).1 = t from rfl, ht]; simp)
    rw [show (Marks.flip (s, t, n)).1 = t from rfl, ht] at this
    simp [Marks.flip] at this
  simp [h1, h2]

/-- A directed path of a member into `z` is found by the search. -/
theorem possibleDescendant_of_anc (hv : v < g.nodeCount) (hvz : v ∉ z)
    (h : v ∈ (assignedMixed g mask).AncSet {u | u ∈ z}) : g.possibleDescendant z v = true := by
  obtain ⟨d, hd, hanc⟩ := h
  have hmono : ∀ {a b}, (assignedMixed g mask).Anc a b → Reach g.possibleChildren a b := fun h =>
    ReflTransGen.mono (fun _ _ h => mem_possibleChildren hq h) _ _ h
  have hU : Worklist.Bounded g.possibleChildren [v] (Finset.range g.nodeCount) := by
    refine ⟨fun s hs => ?_, fun u _ w hw => ?_⟩
    · rw [List.mem_singleton.mp hs]
      exact Finset.mem_range.mpr hv
    · obtain ⟨⟨b, s, t⟩, he, hb⟩ := List.mem_filterMap.mp hw
      obtain ⟨m, hm⟩ := g.mem_neighbors.mp he
      split_ifs at hb
      obtain rfl := Option.some.inj hb
      exact Finset.mem_range.mpr (g.stored.lt_of_look hm).2
  unfold Pag.possibleDescendant
  rw [search_iff hU (by rw [Finset.card_range]; exact Nat.lt_succ_self _)]
  rcases ReflTransGen.cases_tail hanc with rfl | ⟨a, hva, had⟩
  · exact absurd hd hvz
  · refine ⟨v, a, List.mem_singleton_self v, hmono hva, List.any_eq_true.mpr
      ⟨d, mem_possibleChildren hq had, ?_⟩⟩
    have hne : d ≠ v := fun h => hvz (h ▸ hd)
    simpa [hne] using hd

end Members

/-! ## The possibly-active test -/

namespace Pag

/-- `possiblyActiveTriple` without the memo. -/
def possiblyActiveAt (g : Pag) (z : List Nat) (w : Nat × Nat × Nat) : Bool :=
  match g.marksAt w.1 w.2.1 w.2.2 with
  | none => false
  | some (fromPred, fromSucc) =>
    let inZ := z.contains w.2.1
    let arrows := fromPred == .arrow && fromSucc == .arrow
    let conflict := fromPred == .conflict || fromSucc == .conflict
    let mayCollide := (fromPred == .arrow || unknownMark fromPred) &&
      (fromSucc == .arrow || unknownMark fromSucc) &&
      (arrows || conflict || g.hasEdge w.1 w.2.2)
    (!arrows && !inZ) || (mayCollide && (inZ || g.possibleDescendant z w.2.1))

/-- The memo holds answers of the search. -/
def Knows (g : Pag) (z : List Nat) (memo : DescendantMemo) : Prop :=
  ∀ v known, memo.answer.getD v none = some known → known = g.possibleDescendant z v

section Memo

variable {g : Pag} {z : List Nat}

theorem knows_empty : g.Knows z {} := fun v known h => absurd h (by simp)

variable {memo : DescendantMemo}

/-- **The memo changes no answer.** -/
theorem possibleDescendantIn_spec (v : Nat) (h : g.Knows z memo) :
    (g.possibleDescendantIn v z memo).1 = g.possibleDescendant z v ∧
      g.Knows z (g.possibleDescendantIn v z memo).2 := by
  have h' : ∀ v known, (if memo.answer.length ≠ g.nodeCount then List.replicate g.nodeCount none
      else memo.answer).getD v none = some known → known = g.possibleDescendant z v := by
    intro v known hk
    split_ifs at hk with hlen
    · rw [List.getD_eq_getElem?_getD, List.getElem?_replicate] at hk
      split_ifs at hk <;> simp at hk
    · exact h v known hk
  unfold possibleDescendantIn
  simp only
  generalize (if memo.answer.length ≠ g.nodeCount then List.replicate g.nodeCount none
      else memo.answer) = answer at h'
  cases hv : answer.getD v none with
  | some known => exact ⟨h' v known hv, h'⟩
  | none =>
    refine ⟨rfl, fun u known hu => ?_⟩
    simp only [List.getD_eq_getElem?_getD, List.getElem?_set] at hu
    split_ifs at hu with huv hlt
    · rw [← huv]
      exact (Option.some.inj hu).symm
    · exact absurd hu (by simp)
    · exact h' u known (by rw [List.getD_eq_getElem?_getD]; exact hu)

theorem possiblyActiveTriple_spec (w : Nat × Nat × Nat)
    (h : g.Knows z memo) : (g.possiblyActiveTriple z w memo).1 = g.possiblyActiveAt z w ∧
      g.Knows z (g.possiblyActiveTriple z w memo).2 := by
  unfold possiblyActiveTriple possiblyActiveAt
  cases g.marksAt w.1 w.2.1 w.2.2 with
  | none => exact ⟨rfl, h⟩
  | some m =>
    obtain ⟨hd, hk⟩ := possibleDescendantIn_spec w.2.1 h
    simp only
    split_ifs with h1 h2 h3
    · simp only [h1]
      exact ⟨rfl, h⟩
    · simp only [Bool.not_eq_true] at h1
      simp only [Bool.not_eq_true'] at h2
      rw [h1, h2]
      exact ⟨rfl, h⟩
    · simp only [Bool.not_eq_true] at h1
      simp only [Bool.not_eq_true', Bool.not_eq_false] at h2
      rw [h1, h2, h3]
      exact ⟨rfl, h⟩
    · simp only [Bool.not_eq_true] at h1 h3
      simp only [Bool.not_eq_true', Bool.not_eq_false] at h2
      rw [h1, h2, h3, Bool.false_or, Bool.true_and, Bool.false_or]
      exact ⟨hd, hk⟩

theorem possiblyActiveTriples_spec : ∀ (ws : List (Nat × Nat × Nat)) {memo : DescendantMemo},
    g.Knows z memo → (g.possiblyActiveTriples z ws memo).1 = ws.all (g.possiblyActiveAt z) ∧
      g.Knows z (g.possiblyActiveTriples z ws memo).2
  | [], _, h => ⟨rfl, h⟩
  | w :: ws, memo, h => by
    obtain ⟨h1, h2⟩ := possiblyActiveTriple_spec w h
    unfold possiblyActiveTriples
    cases hr : g.possiblyActiveTriple z w memo with
    | mk active memo' =>
      rw [hr] at h1 h2
      simp only at h1 h2
      rw [List.all_cons, ← h1]
      cases active with
      | true => exact possiblyActiveTriples_spec ws h2
      | false => exact ⟨rfl, h2⟩

end Memo

end Pag

section Connecting

variable {g : Pag} {mask : Nat}

/-- **A path m-connecting in a member passes the possibly-active test.** -/
theorem possiblyActive_of_connecting (hq : Completes g mask) {x y : Nat} {z : List Nat}
    (h : (assignedMixed g mask).MConnecting {v | v ∈ z} x y) :
    ∃ p, SimplePath g.adjOf x y p ∧ (windows3 p).all (g.possiblyActiveAt z) = true := by
  obtain ⟨p, hp, hpass⟩ := (member_connecting hq).mp h
  refine ⟨p, hp, List.all_eq_true.mpr fun t ht => ?_⟩
  have htp := hpass t ht
  obtain ⟨a, v, b⟩ := t
  obtain ⟨w₁, w₂, h₁, h₂⟩ := triple_marks hp ht
  obtain ⟨-, -, hab⟩ := windows3_ne hp.nodup _ ht
  obtain ⟨u₁, hu₁, hm₁, hk₁⟩ := member_mark hq h₁
  obtain ⟨u₂, hu₂, hm₂, hk₂⟩ := member_mark hq h₂
  have hn₁ := no_conflict hq h₁
  have hn₂ := no_conflict hq h₂
  rw [member_triple hq hu₁ hu₂] at htp
  have hsame := hq.2 a v b w₁ w₂ u₁ u₂ hab h₁ h₂
  have hopen : ∀ {w u : Marks}, w.1 ≠ .conflict → (w.1 ≠ .circle → u.1 = w.1) → u.1 = .arrow →
      (w.1 == .arrow || Pag.unknownMark w.1) = true := by
    intro w u hn hk hu
    have hcases : w.1 = .arrow ∨ w.1 = .circle := by
      by_cases hc : w.1 = .circle
      · exact Or.inr hc
      · exact Or.inl ((hk hc).symm.trans hu)
    rcases hcases with he | he <;> rw [he] <;> rfl
  have harrows : (w₁.1 == .arrow && w₂.1 == .arrow) = true → u₁.1 = .arrow ∧ u₂.1 = .arrow := by
    intro h
    obtain ⟨h1, h2⟩ := Bool.and_eq_true_iff.mp h
    rw [beq_iff_eq] at h1 h2
    exact ⟨(hk₁ (by rw [h1]; simp)).trans h1, (hk₂ (by rw [h2]; simp)).trans h2⟩
  unfold Pag.possiblyActiveAt
  simp only [Pag.marksAt_eq h₁ h₂, g.hasEdge_iff]
  by_cases hcol : u₁.1 = .arrow ∧ u₂.1 = .arrow
  · have hcol' : (u₁.1 == .arrow && u₂.1 == .arrow) = true := by rw [hcol.1, hcol.2]; rfl
    rw [hcol', MixedGraph.passes_collider] at htp
    -- an unshielded collider of the member is one of the PAG
    have hshield : (w₁.1 == .arrow && w₂.1 == .arrow ||
        (w₁.1 == .conflict || w₂.1 == .conflict) || (g.look a b).isSome) = true := by
      cases hl : g.look a b with
      | some _ => simp
      | none =>
        obtain ⟨h1, h2⟩ := (hsame hl hu₁ hu₂).mpr hcol
        rw [h1, h2]
        rfl
    rw [hopen hn₁ hk₁ hcol.1, hopen hn₂ hk₂ hcol.2, hshield, Bool.true_and, Bool.true_and,
      Bool.true_and, Bool.or_eq_true, Bool.or_eq_true]
    by_cases hvz : v ∈ z
    · exact Or.inr (Or.inl (List.contains_iff_mem.mpr hvz))
    · exact Or.inr (Or.inr (possibleDescendant_of_anc hq (g.stored.lt_of_look h₁).1 hvz htp))
  · have hcol' : (u₁.1 == .arrow && u₂.1 == .arrow) = false := by
      rw [← Bool.not_eq_true, Bool.and_eq_true, beq_iff_eq, beq_iff_eq]
      exact hcol
    rw [hcol', MixedGraph.passes_noncollider] at htp
    have hno : (w₁.1 == .arrow && w₂.1 == .arrow) = false := by
      rw [← Bool.not_eq_true]
      exact fun h => hcol (harrows h)
    have hz : z.contains v = false := by
      rw [← Bool.not_eq_true, List.contains_iff_mem]
      exact htp
    rw [hno, hz]
    rfl

end Connecting

/-! ## The answer of the marks -/

/-- What a visit keeps while no connection was found and the budget lasted. -/
structure Searching (g : Pag) (z : List Nat) (maxPaths maxLen : Nat) (ps : List (List Nat))
    (s : Pag.MarksSearch) : Prop where
  examined : s.examined = ps.length
  paths : ps.length ≤ maxPaths
  lengths : ∀ p ∈ ps, p.length ≤ maxLen
  capped : s.capped = (decide (maxPaths = 0) || decide (maxLen = 0))
  definite : s.definiteActive = none
  knows : g.Knows z s.memo
  possibly : s.possiblyActive = none →
    ∀ p ∈ ps, (windows3 p).all (g.possiblyActiveAt z) = false

/-- What a visit leaves when it stops the walk: a connection, or an exhausted budget. -/
def Stopped (g : Pag) (x y : Nat) (z : List Nat) (s : Pag.MarksSearch) : Prop :=
  (∃ p, s.definiteActive = some p ∧ SimplePath g.adjOf x y p ∧ g.pathIsDefiniteStatus p = true ∧
      g.pathActiveOnEdges p z = true) ∨
    (s.definiteActive = none ∧ s.capped = true)

theorem visitPath_keeps (g : Pag) (x y : Nat) (z : List Nat) (maxPaths maxLen : Nat) :
    Keeps g.adjOf x y maxLen (g.visitPath z maxPaths) (Searching g z maxPaths maxLen)
      (Stopped g x y z) := by
  constructor
  · intro ps p s s' h hp hlen hv
    have hlengths : ∀ q ∈ ps ++ [p], q.length ≤ maxLen := by
      intro q hq
      rcases List.mem_append.mp hq with hq | hq
      · exact h.lengths q hq
      · rw [List.mem_singleton.mp hq]
        exact hlen
    have hcount : s.examined + 1 = (ps ++ [p]).length := by
      rw [h.examined, List.length_append, List.length_singleton]
    unfold Pag.visitPath at hv
    simp only at hv
    split_ifs at hv with h1 h2 h3
    · simp at hv
    · simp at hv
    · have hpaths : (ps ++ [p]).length ≤ maxPaths := by
        rw [← hcount]
        omega
      obtain ⟨hact, hknows⟩ := Pag.possiblyActiveTriples_spec (windows3 p) h.knows
      unfold Pag.pathPossiblyActiveGiven at hv
      cases hr : g.possiblyActiveTriples z (windows3 p) s.memo with
      | mk active memo =>
        rw [hr] at hv hact hknows
        simp only at hact hknows
        cases active with
        | true =>
          obtain ⟨rfl, -⟩ := Prod.mk.inj hv
          exact ⟨hcount, hpaths, hlengths, h.capped, h.definite, hknows,
            fun hnone => absurd hnone (by simp)⟩
        | false =>
          obtain ⟨rfl, -⟩ := Prod.mk.inj hv
          refine ⟨hcount, hpaths, hlengths, h.capped, h.definite, hknows, fun hnone q hq => ?_⟩
          rcases List.mem_append.mp hq with hq | hq
          · exact h.possibly hnone q hq
          · rw [List.mem_singleton.mp hq]
            exact hact.symm
    · obtain ⟨rfl, -⟩ := Prod.mk.inj hv
      have hsome : s.possiblyActive ≠ none := by
        intro hnone
        rw [hnone] at h3
        exact h3 rfl
      exact ⟨hcount, by rw [← hcount]; omega, hlengths, h.capped, h.definite, h.knows,
        fun hnone => absurd hnone hsome⟩
  · intro ps p s s' h hp hlen hv
    unfold Pag.visitPath at hv
    simp only at hv
    split_ifs at hv with h1 h2 h3
    · obtain ⟨rfl, -⟩ := Prod.mk.inj hv
      exact Or.inr ⟨h.definite, rfl⟩
    · obtain ⟨rfl, -⟩ := Prod.mk.inj hv
      obtain ⟨hdef, hact⟩ := Bool.and_eq_true_iff.mp h2
      exact Or.inl ⟨p, rfl, hp, hdef, hact⟩
    · cases hr : g.pathPossiblyActiveGiven p z s.memo with
      | mk active memo =>
        rw [hr] at hv
        cases active <;> simp at hv
    · simp at hv

/-- The simple paths fit the budget: there are at most `maxPaths`, none longer than `maxLen`. -/
def WithinBudget (g : Pag) (x y maxPaths maxLen : Nat) : Prop :=
  ∃ ps : List (List Nat), ps.length ≤ maxPaths ∧ (∀ p ∈ ps, p.length ≤ maxLen) ∧
    ∀ p, SimplePath g.adjOf x y p → p ∈ ps

/-- **What the marks decide**: a connection is a definite-status active path; an answer that is
none has seen every simple path, and a separation none that may be active. -/
theorem separationFromMarks_spec {g : Pag} {x y : Nat} (hxy : x ≠ y) (hx : x < g.nodeCount)
    (z : List Nat) (maxPaths maxLen : Nat) :
    (∃ path, g.separationFromMarks x y z maxPaths maxLen = .ok (some false, path) ∧
        ∃ p, SimplePath g.adjOf x y p ∧ g.pathIsDefiniteStatus p = true ∧
          g.pathActiveOnEdges p z = true) ∨
      g.separationFromMarks x y z maxPaths maxLen =
        .error (.searchBudgetExhausted maxPaths maxLen) ∨
      (WithinBudget g x y maxPaths maxLen ∧
        ((∃ path, g.separationFromMarks x y z maxPaths maxLen = .ok (none, path)) ∨
          (g.separationFromMarks x y z maxPaths maxLen = .ok (some true, none) ∧
            ∀ p, SimplePath g.adjOf x y p →
              (windows3 p).all (g.possiblyActiveAt z) = false))) := by
  have hstart : Searching g z maxPaths maxLen []
      { capped := decide (maxPaths = 0) || decide (maxLen = 0) } :=
    ⟨rfl, Nat.zero_le _, fun _ h => absurd h List.not_mem_nil, rfl, rfl, Pag.knows_empty,
      fun _ _ h => absurd h List.not_mem_nil⟩
  have hends := walk_spec g.adjOf_bounded (Finset.mem_range.mpr hx) hxy
    (visitPath_keeps g x y z maxPaths maxLen) hstart
    (show ((Finset.range g.nodeCount).card + 2) ^ ((Finset.range g.nodeCount).card + 1) <
      (g.nodeCount + 2) ^ (g.nodeCount + 1) + 1 by
        rw [Finset.card_range]
        exact Nat.lt_succ_self _)
  unfold Pag.separationFromMarks Pag.walkSimplePaths
  simp only
  generalize walk g.adjOf y maxLen (g.visitPath z maxPaths)
    ((g.nodeCount + 2) ^ (g.nodeCount + 1) + 1) x
    { capped := decide (maxPaths = 0) || decide (maxLen = 0) } = r at hends
  obtain ⟨cut, s⟩ := r
  simp only [Ends] at hends ⊢
  rcases hends with (⟨p, hd, hp, hdef, hact⟩ | ⟨hd, hcap⟩) | ⟨ps, hI, hall⟩
  · refine Or.inl ⟨s.definiteActive, ?_, p, hp, hdef, hact⟩
    rw [hd]
    rfl
  · refine Or.inr (Or.inl ?_)
    rw [hd, hcap]
    rfl
  · rw [hI.definite]
    cases hstop : s.capped || cut with
    | true => exact Or.inr (Or.inl rfl)
    | false =>
      obtain ⟨-, hcut⟩ := Bool.or_eq_false_iff.mp hstop
      have hseen : ∀ p, SimplePath g.adjOf x y p → p ∈ ps := fun p hp =>
        (hall p hp).resolve_right (by rw [hcut]; exact Bool.false_ne_true)
      refine Or.inr (Or.inr ⟨⟨ps, hI.paths, hI.lengths, hseen⟩, ?_⟩)
      cases hpos : s.possiblyActive with
      | none => exact Or.inr ⟨rfl, fun p hp => hI.possibly hpos p (hseen p hp)⟩
      | some p => exact Or.inl ⟨some p, rfl⟩

/-! ## The members -/

theorem CompletionSampler.collect_yields : ∀ (fuel : Nat) (s : CompletionSampler),
    s.completions.length - s.nextIndex < fuel → s.Yields (s.collect fuel)
  | 0, _, h => absurd h (Nat.not_lt_zero _)
  | fuel + 1, s, h => by
    unfold CompletionSampler.collect
    cases hn : s.next with
    | mk y s' =>
      cases y with
      | none => exact Yields.ends hn
      | some y =>
        refine Yields.yields hn (CompletionSampler.collect_yields fuel s' ?_)
        unfold next at hn
        split_ifs at hn
        · simp at hn
        · cases hg : s.completions[s.nextIndex]? with
          | none =>
            rw [hg] at hn
            simp at hn
          | some graph =>
            rw [hg] at hn
            have hlt := (List.getElem?_eq_some_iff.mp hg).1
            obtain ⟨-, rfl⟩ := Prod.mk.inj hn
            simp only
            omega

section Certified

variable {g : Pag}

theorem asAdmg_member {graph : Pag} {mask : Nat} (hq : Completes g mask)
    (hr : Realizes g graph mask) {admg : Admg} (h : asAdmg graph = .ok admg) :
    admg.nodeCount = g.nodeCount ∧ admg.mixed = assignedMixed g mask := by
  have hn : graph.nodeCount ≤ u32Max := by
    by_contra hlt
    unfold asAdmg at h
    rw [if_pos (Nat.lt_of_not_le hlt)] at h
    exact absurd h (by simp)
  obtain ⟨admg', hok, hcount, hmixed⟩ := asAdmg_ok (hr.2 ▸ hq.1.toAncestral) hn
  obtain rfl := Except.ok.inj (hok.symm.trans h)
  exact ⟨hcount.trans (congrArg List.length hr.1), hmixed.trans (realizes_mixed hr)⟩

theorem compareMembers_spec {x y : Nat} {z : List Nat} {sep : Bool} : ∀ {members : List Admg}
    {verdict : Option Bool}, (∀ m ∈ members, m.isMSeparated x y z = .ok sep) →
    (verdict = none ∨ verdict = some sep) → (members ≠ [] ∨ verdict = some sep) →
    Pag.compareMembers x y z members verdict = .ok (some sep, false)
  | [], verdict, _, _, h => by
    rcases h with h | rfl
    · exact absurd rfl h
    · rfl
  | m :: members, verdict, hall, hv, _ => by
    have hfirst : verdict.getD sep = sep := by
      rcases hv with rfl | rfl <;> rfl
    unfold Pag.compareMembers
    rw [hall m List.mem_cons_self]
    simp only [bind, Except.bind, hfirst, ne_eq, not_true_eq_false, if_false]
    exact compareMembers_spec (fun m' hm' => hall m' (List.mem_cons_of_mem m hm'))
      (Or.inr rfl) (Or.inr rfl)

theorem mapM_forall₂ {A B C : Type} {R : A → C → Prop} {S : B → C → Prop}
    {f : A → Except GraphError B} (hf : ∀ a b c, R a c → f a = .ok b → S b c) :
    ∀ {as : List A} {cs : List C}, List.Forall₂ R as cs → ∀ {bs : List B}, as.mapM f = .ok bs →
      List.Forall₂ S bs cs
  | _, _, .nil, bs, h => by
    obtain rfl := Except.ok.inj h
    exact List.Forall₂.nil
  | a :: as, c :: cs, .cons hac hrest, bs, h => by
    rw [List.mapM_cons] at h
    obtain ⟨b, hb, h⟩ := bind_ok h
    obtain ⟨bs', hbs, h⟩ := bind_ok h
    simp only [pure, Except.pure, Except.ok.injEq] at h
    rw [← h]
    exact List.Forall₂.cons (hf a b c hac hb) (mapM_forall₂ hf hrest hbs)

/-- **The enumerated members answer for the whole certified class.** -/
theorem classMembers_spec {s : CompletionSampler} (hs : CompletionSampler.withBudget g u64Max
      defaultCompletionLimits .production = .ok s) (hstop : s.searchStop = none)
    (hskip : s.report.equivalenceAuditSkipped = false)
    (hamb : s.report.ambiguousGlobalClass = false) {result : Option (List Admg)}
    (h : g.buildClassMembers = .ok result) :
    ∃ members, result = some members ∧ List.Forall₂ (fun admg mask =>
      admg.nodeCount = g.nodeCount ∧ admg.mixed = assignedMixed g mask) members
        ((enumeration g).take u64Max) := by
  obtain ⟨hmax, hindex, hcorrect⟩ := withBudget_certified hs hstop hskip hamb
  have hyields := CompletionSampler.collect_yields (s.completions.length + 1) s (by omega)
  have hreal := (hcorrect.members _ hyields).1
  rw [hmax] at hreal
  have hfull : s.classAuditIncomplete = false := by
    unfold CompletionSampler.classAuditIncomplete
    rw [hskip, show s.report.searchStop = none from hstop]
    rfl
  unfold Pag.buildClassMembers at h
  simp only [hs, hfull, Bool.false_eq_true, if_false] at h
  cases hm : (s.collect (s.completions.length + 1)).mapM fun member => asAdmg member.graph with
  | error e =>
    rw [hm] at h
    exact absurd h (by simp [bind, Except.bind])
  | ok members =>
    rw [hm] at h
    refine ⟨members, (Except.ok.inj h).symm, ?_⟩
    -- the masks of the retained prefix are members
    have hreal' : List.Forall₂ (fun (y : PagCompletion) mask => Completes g mask ∧
        Realizes g y.graph mask) (s.collect (s.completions.length + 1))
        ((enumeration g).take u64Max) := by
      have hflip : List.Forall₂ (fun mask (y : PagCompletion) => Realizes g y.graph mask)
          ((enumeration g).take u64Max) (s.collect (s.completions.length + 1)) := hreal.flip
      refine ((List.forall₂_and_left _ _).mpr ⟨fun mask hmask => ?_, hflip⟩).flip
      exact (mem_members.mp (List.mem_of_mem_take hmask)).2
    exact mapM_forall₂ (fun y admg mask hy h => asAdmg_member hy.1 hy.2 h) hreal' hm

end Certified

/-! ## The class-wide answer -/

def MemberConnects (g : Pag) (x y : Nat) (z : List Nat) (mask : Nat) : Prop :=
  (assignedMixed g mask).MConnecting {v | v ∈ z} x y

/-- What the status says of the members: separated in all, connected in all, or neither. -/
structure StatusCorrect (g : Pag) (x y : Nat) (z : List Nat) (r : PagSeparation) : Prop where
  separated : r = .separated ↔ ∀ mask ∈ enumeration g, ¬ MemberConnects g x y z mask
  connected : r = .connected ↔ ∀ mask ∈ enumeration g, MemberConnects g x y z mask
  undetermined : r = .undetermined ↔ (∃ mask ∈ enumeration g, MemberConnects g x y z mask) ∧
    ∃ mask ∈ enumeration g, ¬ MemberConnects g x y z mask

section Status

variable {g : Pag} {x y : Nat} {z : List Nat} {maxPaths maxLen : Nat}

variable (h : Query g.nodeCount x y z)

include h

theorem classSeparation_eq : g.classSeparation x y z maxPaths maxLen = (do
      let (decided, path) ← g.separationFromMarks x y z maxPaths maxLen
      match decided with
      | some true => return .separated
      | some false => return .connected (path.getD [])
      | none =>
        match ← g.buildClassMembers with
        | none => return .undetermined
        | some members =>
          match ← Pag.compareMembers x y z members none with
          | (_, true) => return .undetermined
          | (some true, false) => return .separated
          | (some false, false) => return .connected (path.getD [])
          | (none, false) => return .undetermined) := by
  have hvalid : ∀ {v}, v < g.nodeCount → g.validateNode v = .ok () := fun {v} hv =>
    if_neg (Nat.not_le.mpr hv)
  unfold Pag.classSeparation
  rw [hvalid h.x_lt, hvalid h.y_lt, forM_ok fun v hv => hvalid (h.z_lt v hv)]
  simp only [bind, Except.bind, if_neg h.ne, h.any_eq_false]
  rfl

/-- **The shortcut never contradicts a member.** -/
theorem marks_sound {mask : Nat} (hq : Completes g mask) {path : Option (List Nat)}
    {separated : Bool}
    (hm : g.separationFromMarks x y z maxPaths maxLen = .ok (some separated, path)) :
    separated = true ↔ ¬ MemberConnects g x y z mask := by
  rcases separationFromMarks_spec h.ne h.x_lt z maxPaths maxLen with
    ⟨path', hok, p, hp, hdef, hact⟩ | herr | ⟨-, ⟨path', hok⟩ | ⟨hok, hnone⟩⟩
  · obtain ⟨rfl, -⟩ : false = separated ∧ _ := by simpa using hok.symm.trans hm
    exact iff_of_false Bool.false_ne_true
      (not_not.mpr (definite_active hq h.x_notMem h.y_notMem hp hdef hact))
  · exact absurd (herr.symm.trans hm) (by simp)
  · exact absurd (hok.symm.trans hm) (by simp)
  · obtain ⟨rfl, -⟩ : true = separated ∧ _ := by simpa using hok.symm.trans hm
    refine iff_of_true rfl fun hc => ?_
    obtain ⟨p, hp, hpos⟩ := possiblyActive_of_connecting hq hc
    exact absurd ((hnone p hp).symm.trans hpos) Bool.false_ne_true

theorem classAnswer {members : List Admg} {sep : Bool} {masks : List Nat} (hne : masks ≠ [])
    (hmem : List.Forall₂ (fun admg mask => admg.nodeCount = g.nodeCount ∧ admg.mixed = assignedMixed g mask) members masks)
    (hsep : ∀ mask ∈ masks, (sep = true ↔ ¬ MemberConnects g x y z mask)) :
    Pag.compareMembers x y z members none = .ok (some sep, false) := by
  refine compareMembers_spec (fun m hm => ?_) (Or.inl rfl) (Or.inl ?_)
  · obtain ⟨i, hi, rfl⟩ := List.getElem_of_mem hm
    have hi' : i < masks.length := hmem.length_eq ▸ hi
    obtain ⟨hcount, hmixed⟩ := hmem.get hi hi'
    simp only [List.get_eq_getElem] at hcount hmixed
    have hquery : Query members[i].nodeCount x y z := hcount ▸ h
    have hpath := Admg.isMSeparated_iff_path hquery
    rw [Admg.isMSeparated_eq hquery] at hpath ⊢
    rw [hmixed, Except.ok.injEq] at hpath
    rw [Except.ok.injEq, Bool.eq_iff_iff, hpath]
    exact (hsep _ (List.getElem_mem hi')).symm
  · rintro rfl
    exact hne (List.forall₂_nil_left_iff.mp hmem)

/-- **On a certified class the status is that of the members.** -/
theorem status_certified {s : CompletionSampler}
    (hs : CompletionSampler.withBudget g u64Max defaultCompletionLimits .production = .ok s)
    (hstop : s.searchStop = none) (hskip : s.report.equivalenceAuditSkipped = false)
    (hamb : s.report.ambiguousGlobalClass = false) (hne : enumeration g ≠ []) {r : PagSeparation}
    (hr : g.mSeparationStatus x y z maxPaths maxLen = .ok r) : StatusCorrect g x y z r := by
  obtain ⟨-, -, hcorrect⟩ := withBudget_certified hs hstop hskip hamb
  obtain ⟨m₀, hm₀⟩ := List.exists_mem_of_ne_nil _ hne
  have hZ : {v | v ∈ z} ⊆ {v | v < g.nodeCount} := fun v hv => h.z_lt v hv
  have hsame : ∀ mask ∈ enumeration g, (MemberConnects g x y z mask ↔ MemberConnects g x y z m₀) :=
    fun mask hmask => hcorrect.model mask hmask m₀ hm₀ x y h.x_lt h.y_lt h.ne _ hZ h.x_notMem
      h.y_notMem
  -- the members agree, so the answer is one of two
  have hdecide : (r = .separated ∧ ¬ MemberConnects g x y z m₀) ∨
      (r = .connected ∧ MemberConnects g x y z m₀) := by
    unfold Pag.mSeparationStatus at hr
    rw [classSeparation_eq h] at hr
    cases hmarks : g.separationFromMarks x y z maxPaths maxLen with
    | error e => simp [hmarks, bind, Except.bind] at hr
    | ok answer =>
      obtain ⟨decided, path⟩ := answer
      have hq₀ : Completes g m₀ := (mem_members.mp hm₀).2
      rw [hmarks] at hr
      cases decided with
      | some separated =>
        have hsound := marks_sound h hq₀ hmarks
        cases separated with
        | true => exact Or.inl ⟨(Except.ok.inj hr).symm, hsound.mp rfl⟩
        | false =>
          exact Or.inr ⟨(Except.ok.inj hr).symm, not_not.mp fun hc =>
            Bool.false_ne_true (hsound.mpr hc)⟩
      | none =>
        cases hclass : g.buildClassMembers with
        | error e => simp [hclass, bind, Except.bind] at hr
        | ok result =>
          obtain ⟨members, rfl, hmem⟩ := classMembers_spec hs hstop hskip hamb hclass
          have hprefix : (enumeration g).take u64Max ≠ [] := by
            rw [Ne, List.take_eq_nil_iff]
            rintro (h0 | h0)
            · exact absurd h0 (by decide)
            · exact hne h0
          obtain ⟨sep, hsep⟩ : ∃ sep : Bool, sep = true ↔ ¬ MemberConnects g x y z m₀ := by
            by_cases hc : MemberConnects g x y z m₀
            · exact ⟨false, iff_of_false Bool.false_ne_true (not_not.mpr hc)⟩
            · exact ⟨true, iff_of_true rfl hc⟩
          have hall := classAnswer h hprefix hmem fun mask hmask =>
            hsep.trans (not_congr (hsame mask (List.mem_of_mem_take hmask)).symm)
          simp only [hclass, hall, bind, Except.bind, pure, Except.pure] at hr
          cases sep with
          | true => exact Or.inl ⟨(Except.ok.inj hr).symm, hsep.mp rfl⟩
          | false =>
            exact Or.inr ⟨(Except.ok.inj hr).symm, not_not.mp fun hc =>
              Bool.false_ne_true (hsep.mpr hc)⟩
  rcases hdecide with ⟨rfl, hm⟩ | ⟨rfl, hm⟩
  · refine ⟨iff_of_true rfl fun mask hmask hc => hm ((hsame mask hmask).mp hc),
      iff_of_false (by simp) fun hall => hm (hall m₀ hm₀), iff_of_false (by simp) ?_⟩
    rintro ⟨⟨mask, hmask, hc⟩, -⟩
    exact hm ((hsame mask hmask).mp hc)
  · refine ⟨iff_of_false (by simp) fun hall => hall m₀ hm₀ hm,
      iff_of_true rfl fun mask hmask => (hsame mask hmask).mpr hm, iff_of_false (by simp) ?_⟩
    rintro ⟨-, mask, hmask, hc⟩
    exact hc ((hsame mask hmask).mpr hm)

/-- **An exhausted budget is an error**, unless a connection was found before. -/
theorem status_exhausted (hno : ¬ WithinBudget g x y maxPaths maxLen) :
    g.mSeparationStatus x y z maxPaths maxLen =
        .error (.searchBudgetExhausted maxPaths maxLen) ∨
      g.mSeparationStatus x y z maxPaths maxLen = .ok .connected := by
  unfold Pag.mSeparationStatus
  rw [classSeparation_eq h]
  rcases separationFromMarks_spec h.ne h.x_lt z maxPaths maxLen with
    ⟨path, hok, -⟩ | herr | ⟨hb, -⟩
  · rw [hok]
    exact Or.inr rfl
  · rw [herr]
    exact Or.inl rfl
  · exact absurd hb hno

end Status

/-- **The class-wide query is correct.** The shortcut of the marks agrees with every member; on a
certified class with a member the status is that of the members; an exhausted path budget is an
error unless a connection was found. -/
theorem mSeparationStatus_correct {g : Pag} {x y : Nat} {z : List Nat}
    (h : Query g.nodeCount x y z) (maxPaths maxLen : Nat) :
    (∀ mask, Completes g mask → ∀ separated path,
      g.separationFromMarks x y z maxPaths maxLen = .ok (some separated, path) →
      (separated = true ↔ ¬ MemberConnects g x y z mask)) ∧
    (∀ s, CompletionSampler.withBudget g u64Max defaultCompletionLimits .production = .ok s →
      s.searchStop = none → s.report.equivalenceAuditSkipped = false →
      s.report.ambiguousGlobalClass = false → enumeration g ≠ [] →
      ∀ r, g.mSeparationStatus x y z maxPaths maxLen = .ok r → StatusCorrect g x y z r) ∧
    (¬ WithinBudget g x y maxPaths maxLen →
      g.mSeparationStatus x y z maxPaths maxLen =
          .error (.searchBudgetExhausted maxPaths maxLen) ∨
        g.mSeparationStatus x y z maxPaths maxLen = .ok .connected) :=
  ⟨fun _ hq _ _ hm => marks_sound h hq hm,
    fun _ hs hstop hskip hamb hne _ hr => status_certified h hs hstop hskip hamb hne hr,
    status_exhausted h⟩

/-- Two circles into an unshielded collider: the members separate its ends. -/
theorem mSeparationStatus_correct_collider :
    ∃ g, ((Pag.withVariables 3).insertCircleArrow 0 1 >>= fun g => g.insertCircleArrow 2 1) =
        .ok g ∧
      g.mSeparationStatus 0 2 [] 8 3 = .ok .separated ∧ StatusCorrect g 0 2 [] .separated := by
  have run : ∀ g s, CompletionSampler.withBudget g u64Max defaultCompletionLimits .production =
      .ok s → s.searchStop = none → s.report.equivalenceAuditSkipped = false →
      s.report.ambiguousGlobalClass = false → s.report.representedCompletions = 4 →
      g.nodeCount = 3 → g.mSeparationStatus 0 2 [] 8 3 = .ok .separated →
      g.mSeparationStatus 0 2 [] 8 3 = .ok .separated ∧ StatusCorrect g 0 2 [] .separated := by
    intro g s h1 h2 h3 h4 h5 hn hr
    have hq : Query g.nodeCount 0 2 [] := by
      rw [hn]
      exact ⟨by decide, by decide, by simp, by decide, by simp, by simp⟩
    obtain ⟨-, -, hcorrect⟩ := withBudget_certified h1 h2 h3 h4
    have hne : enumeration g ≠ [] := by
      intro he
      have := hcorrect.represented
      rw [h5, he] at this
      exact absurd this (by decide)
    exact ⟨hr, (mSeparationStatus_correct hq 8 3).2.1 s h1 h2 h3 h4 hne _ hr⟩
  refine ⟨_, rfl, run _ _ rfl ?_ ?_ ?_ ?_ ?_ ?_⟩
  all_goals decide

end Antecedent.Graph
