import Antecedent.Core.Search
import Antecedent.Graph.Pdag

/-!
# The completions of a CPDAG

Model of `mec_search.rs` and of the two samplers over it (`cpdag_completion.rs`,
`temporal_cpdag_completion.rs`). The search keeps a stack of partial orientations. A popped one is
charged; it is yielded when every undirected edge is oriented, otherwise its next edge is oriented
both ways, and an orientation that closes a cycle, points into the past or makes an unshielded
collider the CPDAG lacks is dropped.

* `leaves`: the orientations below a partial one, in the order of the search. `leaves_sound`,
  `leaves_complete` and `leaves_pairwise`: they are the orientations of the class that extend it,
  each once.
* `pending`: the leaves below the stack. `expand_spec`, `nextOriented_spec`: every call takes the
  first pending leaf, or stops at a budget, or finds none pending; nothing is lost.

The loops of the source end because every turn is charged; their fuel is the operations left.
-/

namespace Antecedent.Graph

open Core Relation

/-! ## Unshielded colliders and membership -/

/-- `mec_search.rs:94-96`. -/
def sortedPair (a b : Nat) : Nat × Nat := if a ≤ b then (a, b) else (b, a)

/-- `(low parent, centre, high parent)`. -/
def colliderKey (center : Nat) (p : Nat × Nat) : Nat × Nat × Nat :=
  ((sortedPair p.1 p.2).1, center, (sortedPair p.1 p.2).2)

/-- `unshielded_colliders_cpdag` and `unshielded_colliders_dag` (`mec_search.rs:99-151`): the sorted
list without repetition is a finite set. -/
def unshieldedColliders (n : Nat) (parents : Nat → List Nat) (adjacent : Nat → Nat → Bool) :
    Finset (Nat × Nat × Nat) :=
  ((List.range n).flatMap fun center =>
    ((pairsOf (parents center)).filter fun p => !adjacent p.1 p.2).map (colliderKey center)).toFinset

def unshieldedCollidersCpdag {κ : Kind} (g : Pdag κ) : Finset (Nat × Nat × Nat) :=
  unshieldedColliders g.nodeCount g.parents g.hasEdge

def unshieldedCollidersDag (d : DirectedCore) : Finset (Nat × Nat × Nat) :=
  unshieldedColliders d.nodeCount d.parentsOf fun l r =>
    (d.childrenOf l).contains r || (d.childrenOf r).contains l

/-- `directed.rs:123-128`. -/
def DirectedCore.markedEdges (d : DirectedCore) : List MarkedEdge :=
  (List.range d.children.length).flatMap fun i => (row d.children i).map (MarkedEdge.directed i)

/-- What `is_mec_member` asks of one edge of the CPDAG. -/
def edgeKept (d : DirectedCore) (e : MarkedEdge) : Bool :=
  match e.parentChild with
  | some (src, dst) => (d.childrenOf src).contains dst
  | none =>
    if e.isUndirected then (d.childrenOf e.a).contains e.b != (d.childrenOf e.b).contains e.a
    else !e.isConflict

def edgeInSkeleton {κ : Kind} (g : Pdag κ) (e : MarkedEdge) : Bool :=
  match e.parentChild with
  | some (src, dst) => g.hasEdge src dst
  | none => true

/-- `mec_search.rs:156-183`. -/
def isMecMember {κ : Kind} (g : Pdag κ) (d : DirectedCore) (sameNodes : Bool) : Bool :=
  sameNodes && g.edges.all (edgeKept d) && d.markedEdges.all (edgeInSkeleton g) &&
    decide (unshieldedCollidersCpdag g = unshieldedCollidersDag d)

/-- The node check of the two samplers: `node_count` for the static one, the node tables for the
temporal one. -/
def Kind.sameNodes : Kind → List NodeRef → List NodeRef → Bool
  | static, ns, ms => ns.length == ms.length
  | temporal, ns, ms => ns == ms

/-- `mec_search.rs:186-206`. -/
def hasForbiddenColliderAt {κ : Kind} (allowed : Finset (Nat × Nat × Nat)) (g : Pdag κ)
    (center : Nat) : Bool :=
  (pairsOf (g.parents center)).any fun p =>
    !g.hasEdge p.1 p.2 && !decide (colliderKey center p ∈ allowed)

/-! ## The search -/

/-- `size_of::<MarkedEdge>()`: two `u32` nodes and three one-byte marks, aligned to four. -/
def markedEdgeBytes : Nat := 12

/-- `MecSearch` (`mec_search.rs:225-242`), the stack top first; `checks` counts the observations of
the cancellation token. -/
structure MecSearch (κ : Kind) where
  base : Pdag κ
  undirected : List (Nat × Nat)
  allowedColliders : Finset (Nat × Nat × Nat)
  maxCompletions : Nat
  nextIndex : Nat
  stack : List (Pdag κ × Nat)
  limits : SearchLimits
  ctx : ExecutionContext
  memoryLimitBytes : Nat
  stateBytes : Nat
  operations : Nat
  depthReached : Nat
  stop : Option SearchStop
  checks : Nat

/-- The order in which the undirected edges are sorted. -/
def pairLe (p q : Nat × Nat) : Bool := decide (p.1 < q.1) || (p.1 == q.1 && decide (p.2 ≤ q.2))

/-- The undirected edges, smaller node first, sorted, each once (`mec_search.rs:258-268`). -/
def undirectedPairs {κ : Kind} (g : Pdag κ) : List (Nat × Nat) :=
  dedupAdjacent (((g.edges.filter MarkedEdge.isUndirected).map fun e =>
    sortedPair e.a e.b).insertionSort (pairLe · ·))

namespace MecSearch

variable {κ : Kind}

/-- What the samplers say of a conflict edge. -/
def conflictMessage : Kind → String
  | .static => "CpdagCompletionSampler refuses conflict (x-x) edges"
  | .temporal => "TemporalCpdagCompletionSampler refuses conflict (x-x) edges"

/-- `MecSearch::new` (`mec_search.rs:248-301`) under the samplers' messages. -/
def new (cpdag : Pdag κ) (maxCompletions : Nat) (limits : SearchLimits) (ctx : ExecutionContext) :
    Except GraphError (MecSearch κ) :=
  if 0 < cpdag.conflictEdgeCount then .error (.invalidEndpoints (conflictMessage κ))
  else .ok {
    base := cpdag
    undirected := undirectedPairs cpdag
    allowedColliders := unshieldedCollidersCpdag cpdag
    maxCompletions
    nextIndex := 0
    stack := [(cpdag, 0)]
    limits
    ctx
    memoryLimitBytes := SearchBudget.memoryCap ctx defaultSearchMemoryBytes
    stateBytes := satMul (satAdd cpdag.nodeCount (satMul cpdag.edges.length 2)) markedEdgeBytes
    operations := 0
    depthReached := 0
    stop := none
    checks := 0 }

def hitCap (s : MecSearch κ) : Bool :=
  (decide (s.maxCompletions ≤ s.nextIndex) && !s.stack.isEmpty) || s.stop.isSome

def searchStop (s : MecSearch κ) : Option SearchStop := s.stop

/-- One orientation of an edge, unless it is refused or makes a forbidden collider
(`mec_search.rs:372-380`). -/
def tryOrient (allowed : Finset (Nat × Nat × Nat)) (g : Pdag κ) (src dst : Nat) : Option (Pdag κ) :=
  match g.orientUndirected src dst with
  | .error _ => none
  | .ok g' => if hasForbiddenColliderAt allowed g' dst then none else some g'

/-- Push an orientation that was not dropped, with the index of its next edge. -/
def pushOriented (i : Nat) (stack : List (Pdag κ × Nat)) : Option (Pdag κ) → List (Pdag κ × Nat)
  | some g => (g, i) :: stack
  | none => stack

/-- `expand` (`mec_search.rs:356-384`). The reversed orientation is pushed first, so the other one
is on top. -/
def expand : Nat → MecSearch κ → SearchBudget → Option (Pdag κ) × MecSearch κ × SearchBudget
  | 0, s, budget => (none, s, budget)
  | fuel + 1, s, budget =>
    match s.stack with
    | [] => (none, s, budget)
    | (g, i) :: rest =>
      match budget.charge i (satMul (satAdd rest.length 1) s.stateBytes) with
      | (budget, some stop) => (none, { s with stop := some stop }, budget)
      | (budget, none) =>
        if i = s.undirected.length then (some g, { s with stack := rest }, budget)
        else
          let (a, b) := s.undirected.getD i (0, 0)
          let stack := pushOriented (i + 1) rest (tryOrient s.allowedColliders g b a)
          let stack := pushOriented (i + 1) stack (tryOrient s.allowedColliders g a b)
          expand fuel { s with stack } budget

/-- `next_oriented` (`mec_search.rs:334-354`). The budget charges at most its limit, so one turn
more than that is enough. -/
def nextOriented (s : MecSearch κ) : Option (Pdag κ) × MecSearch κ :=
  if s.maxCompletions ≤ s.nextIndex ∨ s.stop.isSome ∨ s.stack.isEmpty then (none, s)
  else
    let remaining : SearchLimits := ⟨s.limits.operations - s.operations, s.limits.depth,
      Nat.le_trans (Nat.sub_le _ _) s.limits.operations_le⟩
    match SearchBudget.withMemory remaining s.memoryLimitBytes s.ctx s.checks with
    | .error stop => (none, { s with stop := some stop, checks := s.checks + 1 })
    | .ok budget =>
      match expand (remaining.operations + 1) s budget with
      | (found, s', budget') => (found, { s' with
          operations := satAdd s.operations budget'.operations
          depthReached := max s.depthReached budget'.depthReached
          checks := budget'.checks })

end MecSearch

/-- `CpdagCompletion`, `TemporalCpdagCompletion`. -/
structure Completion (D : Type) where
  graph : D
  index : Nat

namespace MecSearch

variable {κ : Kind} (D : Type) [DagTarget κ D]

/-- The loop of `next` (`cpdag_completion.rs:127-138`, `temporal_cpdag_completion.rs:119-130`): a
failed conversion ends the stream. -/
def nextLoop : Nat → MecSearch κ → Option (Completion D) × MecSearch κ
  | 0, s => (none, s)
  | fuel + 1, s =>
    match s.nextOriented with
    | (none, s) => (none, s)
    | (some oriented, s) =>
      match oriented.tryIntoDag D with
      | .error _ => (none, s)
      | .ok dag =>
        if !isMecMember s.base (DagTarget.core dag)
            (κ.sameNodes s.base.nodes (DagTarget.core dag).nodes) then nextLoop fuel s
        else (some ⟨dag, s.nextIndex⟩, { s with nextIndex := s.nextIndex + 1 })

/-- `next`: every oriented CPDAG was charged, so there are no more turns than operations left. -/
def next (s : MecSearch κ) : Option (Completion D) × MecSearch κ :=
  nextLoop D (s.limits.operations - s.operations + 1) s

/-- A stream run to its end: the completions it yields, and the search it leaves. -/
inductive Stream : MecSearch κ → List (Completion D) → MecSearch κ → Prop
  | ends {s s'} : s.next D = (none, s') → Stream s [] s'
  | yields {s s' s'' y ys} : s.next D = (some y, s') → Stream s' ys s'' → Stream s (y :: ys) s''

end MecSearch

/-! ## What a completion is -/

/-- The edges `R` orient the class of `g`: acyclic, over its skeleton, with its directed edges, none
into the past, and with exactly its unshielded colliders. -/
structure Orients {κ : Kind} (g : Pdag κ) (R : Nat → Nat → Prop) : Prop where
  acyclic : ∀ v, ¬ TransGen R v v
  skeleton : ∀ a b, (R a b ∨ R b a) ↔ (look g.adj a b).isSome = true
  keeps : ∀ a b, Dir g.adj a b → R a b
  ordered : ∀ a b, R a b → κ.direction g.nodes a b = .ok ()
  colliders : ∀ a b c, a ≠ b → look g.adj a b = none →
    (R a c ∧ R b c ↔ Dir g.adj a c ∧ Dir g.adj b c)

/-- A member of the class: an acyclic graph on the same nodes whose edges orient it. -/
structure MecMember {κ : Kind} (g : Pdag κ) (d : DirectedCore) : Prop where
  valid : d.Valid
  nodes : d.nodes = g.nodes
  orients : Orients g d.Dir

def SameEdges (d d' : DirectedCore) : Prop := ∀ a b, d.Dir a b ↔ d'.Dir a b

variable {a b : Nat} {n : Nat} {lo c hi : Nat}

theorem sortedPair_of_le (h : a ≤ b) : sortedPair a b = (a, b) := if_pos h

theorem sortedPair_comm (a b : Nat) : sortedPair a b = sortedPair b a := by
  unfold sortedPair
  split_ifs with h1 h2 h2
  · rw [Nat.le_antisymm h1 h2]
  · rfl
  · rfl
  · omega

/-- The pairs of a list, as the keys of `c` see them. -/
theorem exists_pair_key {l : List Nat} (hl : l.Nodup) (c lo hi : Nat) {P : Nat × Nat → Prop}
    (hP : ∀ a b, P (a, b) ↔ P (b, a)) :
    (∃ p ∈ pairsOf l, P p ∧ colliderKey c p = (lo, c, hi)) ↔
      lo < hi ∧ lo ∈ l ∧ hi ∈ l ∧ P (lo, hi) := by
  constructor
  · rintro ⟨⟨a, b⟩, hp, hP', hk⟩
    have hne := mem_pairsOf_ne hl hp
    obtain ⟨ha, hb⟩ := mem_of_mem_pairsOf hp
    unfold colliderKey sortedPair at hk
    split_ifs at hk with hab
    · simp only [Prod.mk.injEq, true_and] at hk
      obtain ⟨rfl, rfl⟩ := hk
      exact ⟨Nat.lt_of_le_of_ne hab hne, ha, hb, hP'⟩
    · simp only [Prod.mk.injEq, true_and] at hk
      obtain ⟨rfl, rfl⟩ := hk
      exact ⟨by omega, hb, ha, (hP _ _).mp hP'⟩
  · rintro ⟨hlt, hlo, hhi, hP'⟩
    rcases (mem_pairsOf (Nat.ne_of_lt hlt)).mpr ⟨hlo, hhi⟩ with h | h
    · exact ⟨_, h, hP', by simp [colliderKey, sortedPair_of_le (Nat.le_of_lt hlt)]⟩
    · exact ⟨_, h, (hP _ _).mp hP', by
        simp [colliderKey, sortedPair_comm hi lo, sortedPair_of_le (Nat.le_of_lt hlt)]⟩

theorem mem_unshieldedColliders {parents : Nat → List Nat} {adjacent : Nat → Nat → Bool}
    (hnd : ∀ c, (parents c).Nodup) (hsym : ∀ a b, adjacent a b = adjacent b a) :
    (lo, c, hi) ∈ unshieldedColliders n parents adjacent ↔
      c < n ∧ lo < hi ∧ lo ∈ parents c ∧ hi ∈ parents c ∧ adjacent lo hi = false := by
  have hkey := exists_pair_key (hnd c) c lo hi
    (P := fun p => (!adjacent p.1 p.2) = true) fun a b => by simp only [hsym a b]
  unfold unshieldedColliders
  simp only [List.mem_toFinset, List.mem_flatMap, List.mem_range, List.mem_map, List.mem_filter]
  constructor
  · rintro ⟨c', hc', p, ⟨hp, hadj⟩, hk⟩
    obtain rfl : c' = c := congrArg (fun t => t.2.1) hk
    obtain ⟨h1, h2, h3, h4⟩ := hkey.mp ⟨p, hp, hadj, hk⟩
    exact ⟨hc', h1, h2, h3, by simpa using h4⟩
  · rintro ⟨hc, h1, h2, h3, h4⟩
    obtain ⟨p, hp, hadj, hk⟩ := hkey.mpr ⟨h1, h2, h3, by simpa using h4⟩
    exact ⟨c, hc, p, ⟨hp, hadj⟩, hk⟩

section Colliders

variable {κ : Kind} (g : Pdag κ)

theorem hasEdge_comm (a b : Nat) : g.hasEdge a b = g.hasEdge b a := by
  unfold Pdag.hasEdge
  rw [g.stored.edgeBetween_isSome, g.stored.edgeBetween_isSome, g.stored.look_symm,
    Option.isSome_map]

theorem hasEdge_eq_false : g.hasEdge a b = false ↔ look g.adj a b = none := by
  rw [Bool.eq_false_iff, Ne, g.hasEdge_iff]
  simp

variable {c : Nat}

theorem mem_collidersCpdag {lo hi : Nat} : (lo, c, hi) ∈ unshieldedCollidersCpdag g ↔
    lo < hi ∧ Dir g.adj lo c ∧ Dir g.adj hi c ∧ look g.adj lo hi = none := by
  unfold unshieldedCollidersCpdag
  have hnd : ∀ c, (g.parents c).Nodup := fun c => g.stored.nodup_directedParents c
  rw [mem_unshieldedColliders hnd (hasEdge_comm g), g.mem_parents, g.mem_parents, hasEdge_eq_false]
  constructor
  · exact And.right
  · rintro ⟨h1, ⟨m, hm⟩, h3, h4⟩
    exact ⟨(g.stored.lt_of_look hm).2, h1, ⟨m, hm⟩, h3, h4⟩

theorem hasForbiddenColliderAt_eq_false {allowed : Finset (Nat × Nat × Nat)} :
    hasForbiddenColliderAt allowed g c = false ↔ ∀ lo hi, lo < hi → Dir g.adj lo c →
      Dir g.adj hi c → look g.adj lo hi = none → (lo, c, hi) ∈ allowed := by
  have hkey := fun lo hi => exists_pair_key (g.stored.nodup_directedParents c) c lo hi
    (P := fun p => g.hasEdge p.1 p.2 = false) fun a b => by
      simp only [hasEdge_comm g a b]
  unfold hasForbiddenColliderAt
  rw [List.any_eq_false]
  constructor
  · intro h lo hi hlt hlo hhi hnone
    obtain ⟨p, hp, hadj, hk⟩ := (hkey lo hi).mpr ⟨hlt, g.mem_parents.mpr hlo, g.mem_parents.mpr hhi,
      (hasEdge_eq_false g).mpr hnone⟩
    have := h p hp
    rw [hadj, hk] at this
    simpa using this
  · rintro h ⟨a, b⟩ hp hbad
    simp only [Bool.and_eq_true, Bool.not_eq_true', decide_eq_false_iff_not] at hbad
    obtain ⟨h1, h2, h3, h4⟩ := (hkey (sortedPair a b).1 (sortedPair a b).2).mp
      ⟨(a, b), hp, hbad.1, rfl⟩
    exact hbad.2 (h _ _ h1 (g.mem_parents.mp h2) (g.mem_parents.mp h3)
      ((hasEdge_eq_false g).mp h4))

end Colliders

/-! ## One orientation -/

section Orientation

variable {κ : Kind} {g₀ g g' : Pdag κ} {allowed : Finset (Nat × Nat × Nat)} {R : Nat → Nat → Prop}
  {src dst : Nat} {es : List (Nat × Nat)}

/-- `g` orients some undirected edges of `g₀`, without a collider outside `allowed`. -/
structure Descends (allowed : Finset (Nat × Nat × Nat)) (g₀ g : Pdag κ) : Prop where
  nodes : g.nodes = g₀.nodes
  skeleton : ∀ a b, (look g.adj a b).isSome = (look g₀.adj a b).isSome
  keeps : ∀ a b, Dir g₀.adj a b → Dir g.adj a b
  settled : ∀ a b v, look g.adj a b = some v → Dir g.adj a b ∨ Dir g.adj b a ∨
    ∃ m, look g.adj a b = some (.tail, .tail, m)
  colliders : ∀ a b c, a < b → Dir g.adj a c → Dir g.adj b c → look g.adj a b = none →
    (a, c, b) ∈ allowed

/-- The undirected edges of `adj`, smaller node first, are those listed. -/
structure Open (es : List (Nat × Nat)) (adj : MarkedRows) : Prop where
  nodup : es.Nodup
  lt : ∀ p ∈ es, p.1 < p.2
  undirected : ∀ p ∈ es, ∃ m, look adj p.1 p.2 = some (.tail, .tail, m)
  all : ∀ a b m, a < b → look adj a b = some (.tail, .tail, m) → (a, b) ∈ es

/-- The edges `R` orient the class: no cycle, the skeleton of `g`, no collider outside `allowed`. -/
structure Fits (allowed : Finset (Nat × Nat × Nat)) (g : Pdag κ) (R : Nat → Nat → Prop) : Prop where
  acyclic : ∀ v, ¬ TransGen R v v
  skeleton : ∀ a b, (R a b ∨ R b a) ↔ (look g.adj a b).isSome = true
  ordered : ∀ a b, R a b → κ.direction g.nodes a b = .ok ()
  colliders : ∀ a b c, a < b → look g.adj a b = none → R a c → R b c → (a, c, b) ∈ allowed

variable {a b : Nat} {adj adj' : MarkedRows}

theorem isSome_of_updates {v w : Marks}
    (hu : Updates adj adj' a b v) (hl : look adj a b = some w) (hst : Stored n adj) (x y : Nat) :
    (look adj' x y).isSome = (look adj x y).isSome := by
  rw [hu]
  split_ifs with h1 h2
  · rw [h1.1, h1.2, hl]
    rfl
  · rw [h2.1, h2.2, hst.mirrored _ _ _ hl]
    rfl
  · rfl

theorem look_none_of_isSome (h : (look adj' a b).isSome = (look adj a b).isSome) :
    look adj' a b = none ↔ look adj a b = none := by
  rw [← Option.not_isSome_iff_eq_none, h, Option.not_isSome_iff_eq_none]

theorem tryOrient_some (h : MecSearch.tryOrient allowed g src dst = some g') :
    ∃ m, look g.adj src dst = some (.tail, .tail, m) ∧ g'.nodes = g.nodes ∧
      Updates g.adj g'.adj src dst (.tail, .arrow, m) ∧
      ∀ lo hi, lo < hi → Dir g'.adj lo dst → Dir g'.adj hi dst → look g'.adj lo hi = none →
        (lo, dst, hi) ∈ allowed := by
  unfold MecSearch.tryOrient at h
  split at h
  · exact absurd h (by simp)
  · rename_i g₁ ho
    split_ifs at h with hf
    obtain rfl := Option.some.inj h
    obtain ⟨m, hl, hn, hu⟩ := Pdag.of_orientUndirected ho
    exact ⟨m, hl, hn, hu, (hasForbiddenColliderAt_eq_false _).mp (by simpa using hf)⟩

theorem tryOrient_of_fits (hR : Fits allowed g R) (hsub : ∀ a b, Dir g.adj a b → R a b)
    (hs : R src dst) {m : MiddleMark} (hl : look g.adj src dst = some (.tail, .tail, m)) :
    ∃ g', MecSearch.tryOrient allowed g src dst = some g' := by
  have hcyc : ¬ ReflTransGen (Dir g.adj) dst src := fun hr =>
    hR.acyclic src (TransGen.head' hs (ReflTransGen.mono hsub _ _ hr))
  obtain ⟨g', ho⟩ := g.orientUndirected_ok hl (hR.ordered src dst hs) hcyc
  obtain ⟨m', hl', -, hu⟩ := Pdag.of_orientUndirected ho
  have hdir : ∀ a b, Dir g'.adj a b → R a b := by
    intro a b hab
    rcases hu.dir hab with h | ⟨rfl, rfl, -, -⟩ | ⟨-, -, h, -⟩
    · exact hsub a b h
    · exact hs
    · exact absurd h (by simp)
  have hsome := isSome_of_updates hu hl' g.stored
  refine ⟨g', ?_⟩
  unfold MecSearch.tryOrient
  rw [ho]
  simp only
  rw [if_neg]
  rw [Bool.not_eq_true, hasForbiddenColliderAt_eq_false]
  intro lo hi hlt hlo hhi hnone
  exact hR.colliders lo hi dst hlt ((look_none_of_isSome (hsome lo hi)).mp hnone)
    (hdir _ _ hlo) (hdir _ _ hhi)

theorem Descends.step (h : Descends allowed g₀ g)
    (ho : MecSearch.tryOrient allowed g src dst = some g') : Descends allowed g₀ g' ∧
      (∀ a b, Dir g.adj a b → Dir g'.adj a b) ∧ Dir g'.adj src dst := by
  obtain ⟨m, hl, hn, hu, hcol⟩ := tryOrient_some ho
  have hsome := isSome_of_updates hu hl g.stored
  have hkeep : ∀ a b, Dir g.adj a b → Dir g'.adj a b := by
    rintro a b ⟨m', hm'⟩
    refine ⟨m', ?_⟩
    rw [hu, if_neg, if_neg, hm']
    · rintro ⟨rfl, rfl⟩
      rw [g.stored.mirrored _ _ _ hl] at hm'
      exact absurd hm' (by simp [Marks.flip])
    · rintro ⟨rfl, rfl⟩
      rw [hl] at hm'
      exact absurd hm' (by simp)
  refine ⟨⟨hn.trans h.nodes, fun a b => (hsome a b).trans (h.skeleton a b),
    fun a b hab => hkeep a b (h.keeps a b hab), fun a b v hv => ?_, fun a b c hlt ha hb hnone => ?_⟩,
    hkeep, ⟨m, by rw [hu, if_pos ⟨rfl, rfl⟩]⟩⟩
  · rw [hu] at hv
    split_ifs at hv with h1 h2
    · exact Or.inl ⟨m, by rw [hu, if_pos h1]⟩
    · exact Or.inr (Or.inl ⟨m, by rw [hu, if_pos ⟨h2.2, h2.1⟩]⟩)
    · rcases h.settled a b v hv with hd | hd | ⟨m', hm'⟩
      · exact Or.inl (hkeep _ _ hd)
      · exact Or.inr (Or.inl (hkeep _ _ hd))
      · exact Or.inr (Or.inr ⟨m', by rw [hu, if_neg h1, if_neg h2, hm']⟩)
  · -- a collider is centred at the new head, or was there before
    by_cases hc : c = dst
    · subst hc
      exact hcol a b hlt ha hb hnone
    · have hold : ∀ {x}, Dir g'.adj x c → Dir g.adj x c := by
        intro x hx
        rcases hu.dir hx with hx | ⟨-, rfl, -, -⟩ | ⟨-, -, hx, -⟩
        · exact hx
        · exact absurd rfl hc
        · exact absurd hx (by simp)
      exact h.colliders a b c hlt (hold ha) (hold hb)
        ((look_none_of_isSome (hsome a b)).mp hnone)

theorem Open.step (h : Open ((a, b) :: es) g.adj) (hend : (src = a ∧ dst = b) ∨ (src = b ∧ dst = a))
    (ho : MecSearch.tryOrient allowed g src dst = some g') : Open es g'.adj := by
  obtain ⟨m, hl, -, hu, -⟩ := tryOrient_some ho
  obtain ⟨hnotin, hnd⟩ := List.nodup_cons.mp h.nodup
  have hlt : a < b := h.lt (a, b) List.mem_cons_self
  have hother : ∀ x y, ¬ (x = a ∧ y = b) → ¬ (x = b ∧ y = a) → look g'.adj x y = look g.adj x y := by
    intro x y h1 h2
    rw [hu]
    rcases hend with ⟨rfl, rfl⟩ | ⟨rfl, rfl⟩
    · rw [if_neg h1, if_neg h2]
    · rw [if_neg h2, if_neg h1]
  have hself : look g'.adj a b = some (.tail, .arrow, m) ∨
      look g'.adj a b = some (.arrow, .tail, m) := by
    rcases hend with ⟨rfl, rfl⟩ | ⟨rfl, rfl⟩
    · exact Or.inl (by rw [hu, if_pos ⟨rfl, rfl⟩])
    · refine Or.inr ?_
      rw [hu, if_neg fun hc => absurd hc.1 (Nat.ne_of_lt hlt), if_pos ⟨rfl, rfl⟩]
      rfl
  refine ⟨hnd, fun p hp => h.lt p (List.mem_cons_of_mem _ hp), fun p hp => ?_,
    fun x y m' hxy hm' => ?_⟩
  · have hp' := h.lt p (List.mem_cons_of_mem _ hp)
    obtain ⟨m', hm'⟩ := h.undirected p (List.mem_cons_of_mem _ hp)
    refine ⟨m', (hother p.1 p.2 ?_ ?_).trans hm'⟩
    · rintro ⟨h1, h2⟩
      exact hnotin ((Prod.ext h1 h2 : p = (a, b)) ▸ hp)
    · rintro ⟨h1, h2⟩
      omega
  · by_cases h1 : x = a ∧ y = b
    · rw [h1.1, h1.2] at hm'
      rcases hself with hs | hs <;> rw [hs] at hm' <;> exact absurd hm' (by simp)
    · rw [hother x y h1 (by omega)] at hm'
      rcases List.mem_cons.mp (h.all x y m' hxy hm') with he | he
      · exact absurd ⟨congrArg Prod.fst he, congrArg Prod.snd he⟩ h1
      · exact he

theorem Fits.step (hR : Fits allowed g R)
    (ho : MecSearch.tryOrient allowed g src dst = some g') : Fits allowed g' R := by
  obtain ⟨m, hl, hn, hu, -⟩ := tryOrient_some ho
  have hsome := isSome_of_updates hu hl g.stored
  exact ⟨hR.acyclic, fun a b => by rw [hR.skeleton, hsome], fun a b hab => by
    rw [hn]; exact hR.ordered a b hab, fun a b c hlt hnone => hR.colliders a b c hlt
    ((look_none_of_isSome (hsome a b)).mp hnone)⟩

end Orientation

/-! ## The leaves of the search -/

section Leaves

variable {κ : Kind} {g₀ : Pdag κ} {allowed : Finset (Nat × Nat × Nat)} {R : Nat → Nat → Prop}
  {R : Nat → Nat → Prop}

/-- The orientations below `g`, with `es` still to orient, in the order of the search. -/
def leaves (allowed : Finset (Nat × Nat × Nat)) : List (Nat × Nat) → Pdag κ → List (Pdag κ)
  | [], g => [g]
  | (a, b) :: es, g =>
    (MecSearch.tryOrient allowed g a b).toList.flatMap (leaves allowed es) ++
      (MecSearch.tryOrient allowed g b a).toList.flatMap (leaves allowed es)

theorem mem_leaves_cons {es : List (Nat × Nat)} {g l : Pdag κ} :
    l ∈ leaves allowed ((a, b) :: es) g ↔
      (∃ g', MecSearch.tryOrient allowed g a b = some g' ∧ l ∈ leaves allowed es g') ∨
        ∃ g', MecSearch.tryOrient allowed g b a = some g' ∧ l ∈ leaves allowed es g' := by
  simp only [leaves, List.mem_append, List.mem_flatMap, Option.mem_toList]

theorem leaves_sound : ∀ {es : List (Nat × Nat)} {g l : Pdag κ}, Descends allowed g₀ g →
    Open es g.adj → l ∈ leaves allowed es g →
    Descends allowed g₀ l ∧ Open [] l.adj ∧ ∀ a b, Dir g.adj a b → Dir l.adj a b
  | [], g, l, hd, ho, hl => by
    rw [List.mem_singleton.mp hl]
    exact ⟨hd, ho, fun _ _ h => h⟩
  | (a, b) :: es, g, l, hd, ho, hl => by
    rcases mem_leaves_cons.mp hl with ⟨g', hg', hl⟩ | ⟨g', hg', hl⟩
    · obtain ⟨hd', hk, -⟩ := hd.step hg'
      obtain ⟨h1, h2, h3⟩ := leaves_sound hd' (ho.step (Or.inl ⟨rfl, rfl⟩) hg') hl
      exact ⟨h1, h2, fun x y hxy => h3 x y (hk x y hxy)⟩
    · obtain ⟨hd', hk, -⟩ := hd.step hg'
      obtain ⟨h1, h2, h3⟩ := leaves_sound hd' (ho.step (Or.inr ⟨rfl, rfl⟩) hg') hl
      exact ⟨h1, h2, fun x y hxy => h3 x y (hk x y hxy)⟩

/-- With no open edge a descendant that `R` extends has the edges `R`. -/
theorem dir_eq_of_closed {g : Pdag κ} (hd : Descends allowed g₀ g) (ho : Open [] g.adj)
    (hR : Fits allowed g R) (hsub : ∀ a b, Dir g.adj a b → R a b) (a b : Nat) :
    Dir g.adj a b ↔ R a b := by
  refine ⟨hsub a b, fun hab => ?_⟩
  obtain ⟨v, hv⟩ := Option.isSome_iff_exists.mp ((hR.skeleton a b).mp (Or.inl hab))
  rcases hd.settled a b v hv with h | h | ⟨m, hm⟩
  · exact h
  · exact absurd (TransGen.tail (TransGen.single hab) (hsub b a h))
      (hR.acyclic a)
  · rcases Nat.lt_or_gt_of_ne (g.stored.ne_of_look hm) with hlt | hlt
    · exact absurd (ho.all a b m hlt hm) List.not_mem_nil
    · exact absurd (ho.all b a m hlt (g.stored.mirrored _ _ _ hm)) List.not_mem_nil

theorem leaves_complete : ∀ {es : List (Nat × Nat)} {g : Pdag κ}, Descends allowed g₀ g →
    Open es g.adj → Fits allowed g R → (∀ a b, Dir g.adj a b → R a b) →
    ∃ l ∈ leaves allowed es g, ∀ a b, Dir l.adj a b ↔ R a b
  | [], g, hd, ho, hR, hsub => ⟨g, List.mem_singleton.mpr rfl, dir_eq_of_closed hd ho hR hsub⟩
  | (a, b) :: es, g, hd, ho, hR, hsub => by
    obtain ⟨m, hm⟩ := ho.undirected (a, b) List.mem_cons_self
    have hm' : look g.adj b a = some (.tail, .tail, m) := g.stored.mirrored _ _ _ hm
    have extend : ∀ {src dst g'}, MecSearch.tryOrient allowed g src dst = some g' → R src dst →
        ∀ x y, Dir g'.adj x y → R x y := by
      intro src dst g' hg' hs x y hxy
      obtain ⟨_, -, -, hu, -⟩ := tryOrient_some hg'
      rcases hu.dir hxy with h | ⟨rfl, rfl, -, -⟩ | ⟨-, -, h, -⟩
      · exact hsub x y h
      · exact hs
      · exact absurd h (by simp)
    rcases (hR.skeleton a b).mpr (by rw [hm]; rfl) with hab | hba
    · obtain ⟨g', hg'⟩ := tryOrient_of_fits hR hsub hab hm
      obtain ⟨l, hl, heq⟩ := leaves_complete (hd.step hg').1 (ho.step (Or.inl ⟨rfl, rfl⟩) hg')
        (hR.step hg') (extend hg' hab)
      exact ⟨l, mem_leaves_cons.mpr (Or.inl ⟨g', hg', hl⟩), heq⟩
    · obtain ⟨g', hg'⟩ := tryOrient_of_fits hR hsub hba hm'
      obtain ⟨l, hl, heq⟩ := leaves_complete (hd.step hg').1 (ho.step (Or.inr ⟨rfl, rfl⟩) hg')
        (hR.step hg') (extend hg' hba)
      exact ⟨l, mem_leaves_cons.mpr (Or.inr ⟨g', hg', hl⟩), heq⟩

/-- No two leaves have the same edges: they differ where the search branched. -/
theorem leaves_pairwise : ∀ {es : List (Nat × Nat)} {g : Pdag κ}, Descends allowed g₀ g →
    Open es g.adj →
    (leaves allowed es g).Pairwise fun l l' => ¬ ∀ a b, Dir l.adj a b ↔ Dir l'.adj a b
  | [], g, _, _ => List.pairwise_singleton _ g
  | (a, b) :: es, g, hd, ho => by
    have branch : ∀ {src dst}, (src = a ∧ dst = b) ∨ (src = b ∧ dst = a) →
        ((MecSearch.tryOrient allowed g src dst).toList.flatMap (leaves allowed es)).Pairwise
          fun l l' => ¬ ∀ a b, Dir l.adj a b ↔ Dir l'.adj a b := by
      intro src dst hend
      cases hg' : MecSearch.tryOrient allowed g src dst with
      | none => simp
      | some g' =>
        simp only [Option.toList_some, List.flatMap_singleton]
        exact leaves_pairwise (hd.step hg').1 (ho.step hend hg')
    have has : ∀ {src dst l}, (src = a ∧ dst = b) ∨ (src = b ∧ dst = a) →
        l ∈ (MecSearch.tryOrient allowed g src dst).toList.flatMap (leaves allowed es) →
        Dir l.adj src dst := by
      intro src dst l hend hl
      simp only [List.mem_flatMap, Option.mem_toList] at hl
      obtain ⟨g', hg', hl⟩ := hl
      obtain ⟨hd', -, hdir⟩ := hd.step hg'
      exact (leaves_sound hd' (ho.step hend hg') hl).2.2 _ _ hdir
    refine List.pairwise_append.mpr ⟨branch (Or.inl ⟨rfl, rfl⟩), branch (Or.inr ⟨rfl, rfl⟩),
      fun l hl l' hl' hsame => ?_⟩
    have h1 := (hsame a b).mp (has (Or.inl ⟨rfl, rfl⟩) hl)
    have h2 := has (Or.inr ⟨rfl, rfl⟩) hl'
    exact l'.acyclic a (TransGen.tail (TransGen.single h1) h2)

theorem isUndirected_iff {e : MarkedEdge} : e.isUndirected = true ↔ e.atA = .tail ∧ e.atB = .tail := by
  obtain ⟨a, b, s, t, m⟩ := e
  cases s <;> cases t <;> simp [MarkedEdge.isUndirected]

theorem mem_undirectedPairs {κ : Kind} (g : Pdag κ) {p : Nat × Nat} : p ∈ undirectedPairs g ↔
    p.1 < p.2 ∧ ∃ m, look g.adj p.1 p.2 = some (.tail, .tail, m) := by
  unfold undirectedPairs
  rw [mem_dedupAdjacent, List.mem_insertionSort, List.mem_map]
  simp only [List.mem_filter, g.mem_edges, isUndirected_iff]
  constructor
  · rintro ⟨e, ⟨⟨hlt, hl⟩, h1, h2⟩, rfl⟩
    rw [sortedPair_of_le (Nat.le_of_lt hlt)]
    exact ⟨hlt, e.middle, by rw [hl, h1, h2]⟩
  · rintro ⟨hlt, m, hl⟩
    exact ⟨⟨p.1, p.2, .tail, .tail, m⟩, ⟨⟨hlt, hl⟩, rfl, rfl⟩,
      sortedPair_of_le (Nat.le_of_lt hlt)⟩

theorem nodup_undirectedPairs {κ : Kind} (g : Pdag κ) : (undirectedPairs g).Nodup := by
  unfold undirectedPairs
  refine List.Nodup.sublist (dedupAdjacent_sublist _) ?_
  rw [(List.perm_insertionSort _ _).nodup_iff]
  refine List.Nodup.map_on (fun e he f hf hef => ?_) ((nodup_allMarkedEdges g.stored).filter _)
  obtain ⟨he, hue⟩ := List.mem_filter.mp he
  obtain ⟨hf, huf⟩ := List.mem_filter.mp hf
  obtain ⟨hlt, hl⟩ := g.mem_edges.mp he
  obtain ⟨hlt', hl'⟩ := g.mem_edges.mp hf
  rw [sortedPair_of_le (Nat.le_of_lt hlt), sortedPair_of_le (Nat.le_of_lt hlt'),
    Prod.mk.injEq] at hef
  rw [hef.1, hef.2, hl', Option.some.injEq, Prod.mk.injEq, Prod.mk.injEq] at hl
  obtain ⟨e1, e2, e3, e4, e5⟩ := e
  obtain ⟨f1, f2, f3, f4, f5⟩ := f
  simp only at hef hl
  rw [hef.1, hef.2, hl.1, hl.2.1, hl.2.2]

theorem open_undirectedPairs {κ : Kind} (g : Pdag κ) : Open (undirectedPairs g) g.adj where
  nodup := nodup_undirectedPairs g
  lt _ hp := ((mem_undirectedPairs g).mp hp).1
  undirected _ hp := ((mem_undirectedPairs g).mp hp).2
  all _ _ m hab hm := (mem_undirectedPairs g).mpr ⟨hab, m, hm⟩

theorem descends_refl {κ : Kind} (g : Pdag κ) (hc : g.conflictEdgeCount = 0) :
    Descends (unshieldedCollidersCpdag g) g g where
  nodes := rfl
  skeleton _ _ := rfl
  keeps _ _ h := h
  settled _ _ _ hv := g.directed_or_undirected hc hv
  colliders _ _ _ hlt ha hb hnone := (mem_collidersCpdag g).mpr ⟨hlt, ha, hb, hnone⟩

theorem Orients.fits {κ : Kind} {g : Pdag κ} (h : Orients g R) :
    Fits (unshieldedCollidersCpdag g) g R where
  acyclic := h.acyclic
  skeleton := h.skeleton
  ordered := h.ordered
  colliders a b c hlt hnone ha hb := (mem_collidersCpdag g).mpr
    ⟨hlt, ((h.colliders a b c (Nat.ne_of_lt hlt) hnone).mp ⟨ha, hb⟩).1,
      ((h.colliders a b c (Nat.ne_of_lt hlt) hnone).mp ⟨ha, hb⟩).2, hnone⟩

def classLeaves {κ : Kind} (g : Pdag κ) : List (Pdag κ) :=
  leaves (unshieldedCollidersCpdag g) (undirectedPairs g) g

/-- **A leaf orients the class.** -/
theorem orients_of_leaf {κ : Kind} {g l : Pdag κ} (hc : g.conflictEdgeCount = 0)
    (hl : l ∈ classLeaves g) : Orients g (Dir l.adj) := by
  obtain ⟨hd, ho, -⟩ := leaves_sound (descends_refl g hc) (open_undirectedPairs g) hl
  refine ⟨l.acyclic, fun a b => ?_, hd.keeps, fun a b hab => ?_, fun a b c hne hnone => ?_⟩
  · rw [← hd.skeleton]
    constructor
    · rintro (⟨m, hm⟩ | ⟨m, hm⟩)
      · rw [hm]
        rfl
      · rw [l.stored.mirrored _ _ _ hm]
        rfl
    · intro hs
      obtain ⟨v, hv⟩ := Option.isSome_iff_exists.mp hs
      rcases hd.settled a b v hv with h | h | ⟨m, hm⟩
      · exact Or.inl h
      · exact Or.inr h
      · rcases Nat.lt_or_gt_of_ne (l.stored.ne_of_look hm) with hlt | hlt
        · exact absurd (ho.all a b m hlt hm) List.not_mem_nil
        · exact absurd (ho.all b a m hlt (l.stored.mirrored _ _ _ hm)) List.not_mem_nil
  · rw [← hd.nodes]
    exact l.ordered a b hab
  · constructor
    · rintro ⟨ha, hb⟩
      have hnone' := (look_none_of_isSome (hd.skeleton a b)).mpr hnone
      rcases Nat.lt_or_gt_of_ne hne with hlt | hlt
      · obtain ⟨-, h1, h2, -⟩ := (mem_collidersCpdag g).mp (hd.colliders a b c hlt ha hb hnone')
        exact ⟨h1, h2⟩
      · obtain ⟨-, h1, h2, -⟩ := (mem_collidersCpdag g).mp (hd.colliders b a c hlt hb ha
          (by rw [l.stored.look_symm, hnone']; rfl))
        exact ⟨h2, h1⟩
    · rintro ⟨ha, hb⟩
      exact ⟨hd.keeps a c ha, hd.keeps b c hb⟩

/-- **Every orientation of the class is a leaf.** -/
theorem leaf_of_orients {κ : Kind} {g : Pdag κ} (hc : g.conflictEdgeCount = 0)
    (h : Orients g R) :
    ∃ l ∈ classLeaves g, ∀ a b, Dir l.adj a b ↔ R a b :=
  leaves_complete (descends_refl g hc) (open_undirectedPairs g) h.fits h.keeps

theorem classLeaves_pairwise {κ : Kind} {g : Pdag κ} (hc : g.conflictEdgeCount = 0) :
    (classLeaves g).Pairwise fun l l' => ¬ ∀ a b, Dir l.adj a b ↔ Dir l'.adj a b :=
  leaves_pairwise (descends_refl g hc) (open_undirectedPairs g)

theorem leaf_closed {κ : Kind} {g l : Pdag κ} (hc : g.conflictEdgeCount = 0)
    (hl : l ∈ classLeaves g) : l.nodes = g.nodes ∧
      ∀ e ∈ l.edges, e.isUndirected = false ∧ e.isConflict = false := by
  obtain ⟨hd, ho, -⟩ := leaves_sound (descends_refl g hc) (open_undirectedPairs g) hl
  refine ⟨hd.nodes, fun e he => ?_⟩
  obtain ⟨hlt, hlook⟩ := l.mem_edges.mp he
  obtain ⟨a, b, s, t, m⟩ := e
  simp only at hlook hlt
  rcases hd.settled a b _ hlook with ⟨m', hm⟩ | ⟨m', hm⟩ | ⟨m', hm⟩
  · rw [hlook] at hm
    cases hm
    exact ⟨rfl, rfl⟩
  · have hm' := l.stored.mirrored _ _ _ hm
    rw [hlook] at hm'
    cases hm'
    exact ⟨rfl, rfl⟩
  · exact absurd (ho.all a b m' hlt hm) List.not_mem_nil

end Leaves

/-! ## The search, call by call -/

namespace MecSearch

variable {κ : Kind}

/-- The leaves below the stack, in the order of the search. -/
def pending (s : MecSearch κ) : List (Pdag κ) :=
  s.stack.flatMap fun p => leaves s.allowedColliders (s.undirected.drop p.2) p.1

/-- What no call changes. -/
structure Same (s s' : MecSearch κ) : Prop where
  base : s'.base = s.base
  undirected : s'.undirected = s.undirected
  allowedColliders : s'.allowedColliders = s.allowedColliders
  maxCompletions : s'.maxCompletions = s.maxCompletions
  limits : s'.limits = s.limits

theorem Same.refl (s : MecSearch κ) : Same s s := ⟨rfl, rfl, rfl, rfl, rfl⟩

theorem Same.trans {s s' s'' : MecSearch κ} (h : Same s s') (h' : Same s' s'') : Same s s'' :=
  ⟨h'.base.trans h.base, h'.undirected.trans h.undirected,
    h'.allowedColliders.trans h.allowedColliders, h'.maxCompletions.trans h.maxCompletions,
    h'.limits.trans h.limits⟩

/-- The indices on the stack point into the list of undirected edges. -/
def Indexed (s : MecSearch κ) : Prop := ∀ p ∈ s.stack, p.2 ≤ s.undirected.length

variable {i : Nat} {st : List (Pdag κ × Nat)} {s : MecSearch κ}

theorem pending_push {g : Pdag κ} {rest : List (Pdag κ × Nat)}
    (hi : i < s.undirected.length) (hab : s.undirected.getD i (0, 0) = (a, b))
    (hs : s.stack = (g, i) :: rest) (hst : st = pushOriented (i + 1)
      (pushOriented (i + 1) rest (tryOrient s.allowedColliders g b a))
      (tryOrient s.allowedColliders g a b)) :
    pending { s with stack := st } = pending s := by
  subst hst
  have hdrop : s.undirected.drop i = (a, b) :: s.undirected.drop (i + 1) := by
    rw [List.drop_eq_getElem_cons hi, ← hab, List.getD_eq_getElem _ _ hi]
  have hpush : ∀ (st : List (Pdag κ × Nat)) (o : Option (Pdag κ)),
      (pushOriented (i + 1) st o).flatMap
          (fun p => leaves s.allowedColliders (s.undirected.drop p.2) p.1) =
        o.toList.flatMap (leaves s.allowedColliders (s.undirected.drop (i + 1))) ++
          st.flatMap fun p => leaves s.allowedColliders (s.undirected.drop p.2) p.1 := by
    intro st o
    cases o with
    | none => simp [pushOriented]
    | some g' => simp [pushOriented]
  unfold pending
  rw [hs]
  simp only [hpush, List.flatMap_cons, hdrop, leaves, List.append_assoc]

theorem pushOriented_index {o : Option (Pdag κ)}
    (hi : i ≤ n) (hst : ∀ p ∈ st, p.2 ≤ n) : ∀ p ∈ pushOriented i st o, p.2 ≤ n := by
  cases o with
  | none => exact hst
  | some g =>
    intro p hp
    rcases List.mem_cons.mp hp with rfl | hp
    · exact hi
    · exact hst p hp

/-- The outcome of `expand`: the first pending leaf, at the cost of some operation, or a stop that
leaves everything pending, or nothing pending. -/
structure Expanded (s : MecSearch κ) (b : SearchBudget) (o : Option (Pdag κ)) (s' : MecSearch κ)
    (b' : SearchBudget) : Prop where
  same : Same s s'
  index : s'.nextIndex = s.nextIndex
  operations : s'.operations = s.operations
  indexed : Indexed s'
  fits : b'.Fits
  limits : b'.limits = b.limits
  found : ∀ g, o = some g → pending s = g :: pending s' ∧ s'.stop = s.stop ∧
    b.operations < b'.operations
  lost : o = none → pending s' = pending s ∧ (s'.stop.isSome = true ∨ s'.stack = [])

theorem expand_spec : ∀ (fuel : Nat) (s : MecSearch κ) (b : SearchBudget), Indexed s → b.Fits →
    fuel + b.operations = b.limits.operations + 1 →
    Expanded s b (expand fuel s b).1 (expand fuel s b).2.1 (expand fuel s b).2.2
  | 0, s, b, _, hb, hf => by
    unfold SearchBudget.Fits at hb
    omega
  | fuel + 1, s, b, hi, hb, hf => by
    unfold expand
    cases hs : s.stack with
    | nil =>
      exact ⟨Same.refl s, rfl, rfl, hi, hb, rfl, fun _ h => absurd h (by simp),
        fun _ => ⟨rfl, Or.inr hs⟩⟩
    | cons p rest =>
      obtain ⟨g, i⟩ := p
      have hile : i ≤ s.undirected.length := hi (g, i) (by rw [hs]; exact List.mem_cons_self)
      have hrest : ∀ p ∈ rest, p.2 ≤ s.undirected.length := fun p hp =>
        hi p (by rw [hs]; exact List.mem_cons_of_mem _ hp)
      simp only
      cases hc : b.charge i (satMul (satAdd rest.length 1) s.stateBytes) with
      | mk b₁ stop =>
        cases stop with
        | some stop =>
          obtain ⟨h1, h2⟩ := SearchBudget.charge_some hc
          simp only
          refine ⟨⟨rfl, rfl, rfl, rfl, rfl⟩, rfl, rfl, ?_, ?_, h1, fun _ h => absurd h (by simp),
            fun _ => ⟨?_, Or.inl rfl⟩⟩
          · intro p hp
            exact hi p (by rw [hs]; exact hp)
          · unfold SearchBudget.Fits at hb ⊢
            rw [h1, h2]
            exact hb
          · unfold pending
            rw [hs]
        | none =>
          obtain ⟨h1, h2, h3⟩ := SearchBudget.charge_none hc
          have hb₁ : b₁.Fits := by
            unfold SearchBudget.Fits
            rw [h2, h3]
            omega
          simp only
          split_ifs with hend
          · refine ⟨⟨rfl, rfl, rfl, rfl, rfl⟩, rfl, rfl, hrest, hb₁, h2, fun g' hg' => ?_,
              fun h => absurd h (by simp)⟩
            obtain rfl := Option.some.inj hg'
            refine ⟨?_, rfl, by simp only; omega⟩
            unfold pending
            rw [hs, List.flatMap_cons, hend, List.drop_length]
            rfl
          · have hlt : i < s.undirected.length := Nat.lt_of_le_of_ne hile hend
            cases hab : s.undirected.getD i (0, 0) with
            | mk a c =>
              simp only
              generalize hst : pushOriented (i + 1)
                (pushOriented (i + 1) rest (tryOrient s.allowedColliders g c a))
                (tryOrient s.allowedColliders g a c) = st
              have hidx : ∀ p ∈ st, p.2 ≤ s.undirected.length := by
                rw [← hst]
                exact pushOriented_index hlt (pushOriented_index hlt hrest)
              have hpend : pending { s with stack := st } = pending s :=
                pending_push hlt hab hs hst.symm
              obtain ⟨e1, e2, e3, e4, e5, e6, e7, e8⟩ :=
                expand_spec fuel { s with stack := st } b₁ hidx hb₁ (by rw [h2, h3]; omega)
              refine ⟨⟨e1.base, e1.undirected, e1.allowedColliders, e1.maxCompletions, e1.limits⟩,
                e2, e3, e4, e5, e6.trans h2, fun g' hg' => ?_, fun hnone => ?_⟩
              · obtain ⟨f1, f2, f3⟩ := e7 g' hg'
                exact ⟨hpend ▸ f1, f2, by omega⟩
              · obtain ⟨f1, f2⟩ := e8 hnone
                exact ⟨f1.trans hpend, f2⟩

/-- What every call keeps: the operations charged are within the limit, the indices in range. -/
structure Sound (s : MecSearch κ) : Prop where
  indexed : Indexed s
  charged : s.operations ≤ s.limits.operations

/-- The search is over: at the cap, stopped by a budget, or with an empty stack. -/
def Over (s : MecSearch κ) : Prop :=
  s.maxCompletions ≤ s.nextIndex ∨ s.stop.isSome = true ∨ s.stack = []

/-- The outcome of one call of `next_oriented`. -/
structure Called (s : MecSearch κ) (o : Option (Pdag κ)) (s' : MecSearch κ) : Prop where
  same : Same s s'
  sound : Sound s'
  index : s'.nextIndex = s.nextIndex
  found : ∀ g, o = some g → pending s = g :: pending s' ∧ s'.stop = none ∧
    s.nextIndex < s.maxCompletions ∧ s.operations < s'.operations
  lost : o = none → pending s' = pending s ∧ Over s'

theorem nextOriented_spec (h : Sound s) :
    Called s s.nextOriented.1 s.nextOriented.2 := by
  unfold nextOriented
  split_ifs with hover
  · refine ⟨Same.refl s, h, rfl, fun _ hg => absurd hg (by simp), fun _ => ⟨rfl, ?_⟩⟩
    rcases hover with h1 | h1 | h1
    · exact Or.inl h1
    · exact Or.inr (Or.inl h1)
    · exact Or.inr (Or.inr (List.isEmpty_iff.mp h1))
  · rw [not_or, not_or] at hover
    obtain ⟨hidx, hstop, -⟩ := hover
    have hstop' : s.stop = none := by simpa using hstop
    simp only
    cases hb : SearchBudget.withMemory ⟨s.limits.operations - s.operations, s.limits.depth,
        Nat.le_trans (Nat.sub_le _ _) s.limits.operations_le⟩ s.memoryLimitBytes s.ctx s.checks with
    | error stop =>
      exact ⟨⟨rfl, rfl, rfl, rfl, rfl⟩, ⟨h.indexed, h.charged⟩, rfl,
        fun _ hg => absurd hg (by simp), fun _ => ⟨rfl, Or.inr (Or.inl rfl)⟩⟩
    | ok b =>
      obtain ⟨h1, h2, -⟩ := SearchBudget.withMemory_ok hb
      have hlim : b.limits.operations = s.limits.operations - s.operations := by rw [h1]
      have hx := expand_spec (s.limits.operations - s.operations + 1) s b h.indexed
        (by unfold SearchBudget.Fits; omega) (by omega)
      simp only
      obtain ⟨e1, e2, e3, e4, e5, e6, e7, e8⟩ := hx
      unfold SearchBudget.Fits at e5
      rw [e6, hlim] at e5
      have hch := h.charged
      have hbd := s.limits.operations_le
      have hsat : satAdd s.operations (expand (s.limits.operations - s.operations + 1) s b).2.2.operations =
          s.operations + (expand (s.limits.operations - s.operations + 1) s b).2.2.operations := by
        unfold satAdd
        omega
      refine ⟨⟨e1.base, e1.undirected, e1.allowedColliders, e1.maxCompletions, e1.limits⟩,
        ⟨e4, ?_⟩, e2, fun g hg => ?_, fun hnone => ?_⟩
      · simp only
        rw [hsat, e1.limits]
        omega
      · obtain ⟨f1, f2, f3⟩ := e7 g hg
        refine ⟨f1, f2.trans hstop', by omega, ?_⟩
        simp only
        rw [hsat]
        omega
      · obtain ⟨f1, f2⟩ := e8 hnone
        exact ⟨f1, Or.inr f2⟩

/-! ## The stream -/

section Streams

variable {D : Type} [DagTarget κ D]

/-- Every pending leaf converts, to a member. -/
def Converts (D : Type) [DagTarget κ D] (s : MecSearch κ) : Prop :=
  ∀ l ∈ pending s, ∃ d : D, l.tryIntoDag D = .ok d ∧ isMecMember s.base (DagTarget.core d)
    (κ.sameNodes s.base.nodes (DagTarget.core d).nodes) = true

theorem nextLoop_some : ∀ {fuel : Nat} {s s' : MecSearch κ} {y : Completion D}, Sound s →
    nextLoop D fuel s = (some y, s') → Sound s' ∧ Same s s' ∧ s.operations < s'.operations
  | 0, s, s', y, _, h => absurd (congrArg Prod.fst h) (by simp [nextLoop])
  | fuel + 1, s, s', y, hs, h => by
    have hc := nextOriented_spec hs
    unfold nextLoop at h
    cases hn : s.nextOriented with
    | mk o s₁ =>
      rw [hn] at h hc
      cases o with
      | none => exact absurd (congrArg Prod.fst h) (by simp)
      | some l =>
        obtain ⟨-, -, -, hop⟩ := hc.found l rfl
        simp only at h hop
        split at h
        · exact absurd (congrArg Prod.fst h) (by simp)
        · split_ifs at h
          · obtain ⟨h1, h2, h3⟩ := nextLoop_some hc.sound h
            exact ⟨h1, hc.same.trans h2, Nat.lt_trans hop h3⟩
          · obtain ⟨-, rfl⟩ := Prod.mk.inj h
            exact ⟨⟨hc.sound.indexed, hc.sound.charged⟩, ⟨hc.same.base, hc.same.undirected,
              hc.same.allowedColliders, hc.same.maxCompletions, hc.same.limits⟩, hop⟩

/-- **Every stream ends**: each completion costs an operation. -/
theorem stream_exists (hs : Sound s) : ∃ ys f, Stream D s ys f := by
  generalize hk : s.limits.operations - s.operations = k
  induction k using Nat.strong_induction_on generalizing s with
  | _ k ih =>
    cases hn : s.next D with
    | mk o s' =>
      cases o with
      | none => exact ⟨[], s', Stream.ends hn⟩
      | some y =>
        obtain ⟨h1, h2, h3⟩ := nextLoop_some hs hn
        have h4 := h1.charged
        rw [h2.limits] at h4
        obtain ⟨ys, f, hst⟩ := ih _ (by rw [h2.limits]; omega) h1 rfl
        exact ⟨y :: ys, f, Stream.yields hn hst⟩

/-- One call of `next` when every pending leaf converts: it yields the first one, or the search is
over. -/
theorem next_spec {s s' : MecSearch κ} (hs : Sound s) (hconv : Converts D s)
    {o : Option (Completion D)} (h : s.next D = (o, s')) : Sound s' ∧ Same s s' ∧
      (∀ y, o = some y → s'.nextIndex = s.nextIndex + 1 ∧ y.index = s.nextIndex ∧
        ∃ l, pending s = l :: pending s' ∧ l.tryIntoDag D = .ok y.graph) ∧
      (o = none → s'.nextIndex = s.nextIndex ∧ pending s' = pending s ∧ Over s') := by
  have hc := nextOriented_spec hs
  unfold next nextLoop at h
  cases hn : s.nextOriented with
  | mk found s₁ =>
    rw [hn] at h hc
    cases found with
    | none =>
      obtain ⟨rfl, rfl⟩ := Prod.mk.inj h
      obtain ⟨h1, h2⟩ := hc.lost rfl
      exact ⟨hc.sound, hc.same, fun _ hy => absurd hy (by simp), fun _ => ⟨hc.index, h1, h2⟩⟩
    | some l =>
      obtain ⟨hp, -, -, -⟩ := hc.found l rfl
      obtain ⟨d, hd, hm⟩ := hconv l (by rw [hp]; exact List.mem_cons_self)
      have hbase : s₁.base = s.base := hc.same.base
      simp only at h
      rw [hd] at h
      simp only [hbase, hm, Bool.not_true, Bool.false_eq_true, if_false] at h
      obtain ⟨rfl, rfl⟩ := Prod.mk.inj h
      refine ⟨⟨hc.sound.indexed, hc.sound.charged⟩, ⟨rfl, hc.same.undirected,
        hc.same.allowedColliders, hc.same.maxCompletions, hc.same.limits⟩, fun y hy => ?_,
        fun hnone => absurd hnone (by simp)⟩
      obtain rfl := Option.some.inj hy
      have hidx : s₁.nextIndex = s.nextIndex := hc.index
      exact ⟨by rw [hidx], hidx, l, hp, hd⟩

variable {f : MecSearch κ} {ys : List (Completion D)}

/-- **A stream yields a prefix of the pending leaves**, in order, numbered from `next_index`. -/
theorem stream_spec (h : Stream D s ys f)
    (hs : Sound s) (hconv : Converts D s) : Same s f ∧ Over f ∧
      f.nextIndex = s.nextIndex + ys.length ∧
      ys.map Completion.index = List.range' s.nextIndex ys.length ∧
      ∃ ls, pending s = ls ++ pending f ∧
        List.Forall₂ (fun l (y : Completion D) => l.tryIntoDag D = .ok y.graph) ls ys := by
  induction h with
  | ends hn =>
    obtain ⟨-, h1, -, h2⟩ := next_spec hs hconv hn
    obtain ⟨h3, h4, h5⟩ := h2 rfl
    exact ⟨h1, h5, h3, rfl, [], h4.symm, List.Forall₂.nil⟩
  | @yields s s' f y ys hn _ ih =>
    obtain ⟨h1, h2, h3, -⟩ := next_spec hs hconv hn
    obtain ⟨h4, h5, l, hp, hl⟩ := h3 y rfl
    have hconv' : Converts D s' := by
      intro l' hl'
      rw [h2.base]
      exact hconv l' (by rw [hp]; exact List.mem_cons_of_mem l hl')
    obtain ⟨i1, i2, i3, i4, ls, hls, hall⟩ := ih h1 hconv'
    refine ⟨h2.trans i1, i2, by rw [i3, h4, List.length_cons]; omega, ?_, l :: ls, ?_,
      List.Forall₂.cons hl hall⟩
    · rw [List.map_cons, i4, h5, h4]
      rfl
    · rw [hp, hls]
      rfl

theorem stream_empty (h : Stream D s ys f)
    (hfail : ∀ l ∈ pending s, ∃ e, l.tryIntoDag D = .error e) (hs : Sound s) :
    ys = [] ∧ Same s f ∧ f.nextIndex = s.nextIndex ∧
      (s.maxCompletions ≤ s.nextIndex → f.stack = s.stack) := by
  have hkey : ∀ {o s'}, s.next D = (o, s') → o = none ∧ Same s s' ∧ s'.nextIndex = s.nextIndex ∧
      (s.maxCompletions ≤ s.nextIndex → s'.stack = s.stack) := by
    intro o s' hn
    have hc := nextOriented_spec hs
    have hcap : s.maxCompletions ≤ s.nextIndex → s.nextOriented.2.stack = s.stack := by
      intro hle
      unfold nextOriented
      rw [if_pos (Or.inl hle)]
    unfold next nextLoop at hn
    cases hn' : s.nextOriented with
    | mk found s₁ =>
      rw [hn'] at hn hc hcap
      cases found with
      | none =>
        obtain ⟨rfl, rfl⟩ := Prod.mk.inj hn
        exact ⟨rfl, hc.same, hc.index, hcap⟩
      | some l =>
        obtain ⟨hp, -, -, -⟩ := hc.found l rfl
        obtain ⟨e, he⟩ := hfail l (by rw [hp]; exact List.mem_cons_self)
        simp only at hn
        rw [he] at hn
        obtain ⟨rfl, rfl⟩ := Prod.mk.inj hn
        exact ⟨rfl, hc.same, hc.index, hcap⟩
  cases h with
  | ends hn =>
    obtain ⟨-, h2, h3, h4⟩ := hkey hn
    exact ⟨rfl, h2, h3, h4⟩
  | yields hn _ => exact absurd (hkey hn).1 (by simp)

end Streams

end MecSearch

/-! ## The class -/

section Class

variable {κ : Kind} {D : Type} [DagTarget κ D] {g l : Pdag κ} {d : DirectedCore}

theorem mem_collidersDag (hd : d.Valid) : (lo, c, hi) ∈ unshieldedCollidersDag d ↔
    lo < hi ∧ d.Dir lo c ∧ d.Dir hi c ∧ ¬ (d.Dir lo hi ∨ d.Dir hi lo) := by
  unfold unshieldedCollidersDag
  rw [mem_unshieldedColliders hd.parents_nodup fun a b => Bool.or_comm _ _, hd.mirrored,
    hd.mirrored, Bool.or_eq_false_iff, Bool.eq_false_iff, Bool.eq_false_iff, Ne, Ne,
    List.contains_iff_mem, List.contains_iff_mem, not_or]
  constructor
  · exact And.right
  · rintro ⟨h1, h2, h3, h4⟩
    exact ⟨(hd.in_range lo c h2).2, h1, h2, h3, h4⟩

/-- **The membership test accepts an orientation of the class.** -/
theorem isMecMember_of_orients (hc : g.conflictEdgeCount = 0) (hd : d.Valid)
    (h : Orients g d.Dir) : isMecMember g d true = true := by
  have hside : ∀ a b, (d.childrenOf a).contains b = true ↔ d.Dir a b :=
    fun a b => List.contains_iff_mem
  unfold isMecMember
  rw [Bool.and_eq_true, Bool.and_eq_true, Bool.true_and, List.all_eq_true, List.all_eq_true,
    decide_eq_true_eq]
  refine ⟨⟨fun e he => ?_, fun e he => ?_⟩, ?_⟩
  · obtain ⟨hlt, hl⟩ := g.mem_edges.mp he
    unfold edgeKept
    rcases g.directed_or_undirected hc hl with ⟨m, hm⟩ | ⟨m, hm⟩ | ⟨m, hm⟩
    · rw [hl, Option.some.injEq, Prod.mk.injEq, Prod.mk.injEq] at hm
      rw [parentChild_eq_some.mpr (Or.inl ⟨hm.1, hm.2.1, rfl, rfl⟩)]
      exact (hside _ _).mpr (h.keeps _ _ ⟨e.middle, by rw [hl, hm.1, hm.2.1]⟩)
    · have hm' := g.stored.mirrored _ _ _ hm
      rw [hl, Option.some.injEq, Marks.flip, Prod.mk.injEq, Prod.mk.injEq] at hm'
      rw [parentChild_eq_some.mpr (Or.inr ⟨hm'.1, hm'.2.1, rfl, rfl⟩)]
      exact (hside _ _).mpr (h.keeps _ _ ⟨m, hm⟩)
    · rw [hl, Option.some.injEq, Prod.mk.injEq, Prod.mk.injEq] at hm
      have hp : e.parentChild = none := by
        unfold MarkedEdge.parentChild
        rw [hm.1, hm.2.1]
      rw [hp]
      simp only
      rw [if_pos (isUndirected_iff.mpr ⟨hm.1, hm.2.1⟩)]
      rcases (h.skeleton e.a e.b).mpr (by rw [hl]; rfl) with hab | hba
      · have hnot : ¬ d.Dir e.b e.a := fun hba =>
          h.acyclic e.a (TransGen.tail (TransGen.single hab) hba)
        rw [(hside _ _).mpr hab, Bool.eq_false_iff.mpr fun hx => hnot ((hside _ _).mp hx)]
        rfl
      · have hnot : ¬ d.Dir e.a e.b := fun hab =>
          h.acyclic e.a (TransGen.tail (TransGen.single hab) hba)
        rw [(hside _ _).mpr hba, Bool.eq_false_iff.mpr fun hx => hnot ((hside _ _).mp hx)]
        rfl
  · unfold DirectedCore.markedEdges at he
    obtain ⟨i, -, hi⟩ := List.mem_flatMap.mp he
    obtain ⟨c, hic, rfl⟩ := List.mem_map.mp hi
    exact g.hasEdge_iff.mpr ((h.skeleton i c).mp (Or.inl hic))
  · ext ⟨lo, c, hi⟩
    rw [mem_collidersCpdag, mem_collidersDag hd, h.skeleton, Option.not_isSome_iff_eq_none]
    constructor
    · rintro ⟨h1, h2, h3, h4⟩
      exact ⟨h1, h.keeps _ _ h2, h.keeps _ _ h3, h4⟩
    · rintro ⟨h1, h2, h3, h4⟩
      obtain ⟨h5, h6⟩ := (h.colliders lo hi c (Nat.ne_of_lt h1) h4).mp ⟨h2, h3⟩
      exact ⟨h1, h5, h6, h4⟩

theorem sameNodes_self (ns : List NodeRef) : κ.sameNodes ns ns = true := by
  cases κ <;> simp [Kind.sameNodes]

/-- **A leaf converts to a member of the class**, when the DAG admits the nodes. -/
theorem leaf_converts (hc : g.conflictEdgeCount = 0)
    (hacc : ∀ node ∈ g.nodes, DagTarget.accepts D node = true) (hl : l ∈ classLeaves g) :
    ∃ d : D, l.tryIntoDag D = .ok d ∧ (∀ a b, (DagTarget.core d).Dir a b ↔ Dir l.adj a b) ∧
      MecMember g (DagTarget.core d) := by
  obtain ⟨hn, hclosed⟩ := leaf_closed hc hl
  obtain ⟨d, hok, hnodes, hdir⟩ := l.toDirectedSkeleton_ok (D := D) (by rw [hn]; exact hacc)
  have hrel : (DagTarget.core d).Dir = Dir l.adj :=
    funext fun a => funext fun b => propext (hdir a b)
  refine ⟨d, by rw [l.tryIntoDag_eq hclosed, hok], hdir, DagTarget.valid d, hnodes.trans hn, ?_⟩
  rw [hrel]
  exact orients_of_leaf hc hl

theorem leaf_fails (hc : g.conflictEdgeCount = 0) {node : NodeRef} (hmem : node ∈ g.nodes)
    (hacc : DagTarget.accepts D node = false) (hl : l ∈ classLeaves g) :
    ∃ e, l.tryIntoDag D = .error e := by
  obtain ⟨hn, hclosed⟩ := leaf_closed hc hl
  rw [l.tryIntoDag_eq hclosed]
  exact l.toDirectedSkeleton_error (by rw [hn]; exact hmem) hacc

namespace MecSearch

variable {maxCompletions : Nat} {limits : SearchLimits} {ctx : ExecutionContext} {s : MecSearch κ}

/-- What the constructor sets up. -/
theorem new_spec (h : new g maxCompletions limits ctx = .ok s) : g.conflictEdgeCount = 0 ∧
    Sound s ∧ s.base = g ∧ s.nextIndex = 0 ∧ s.maxCompletions = maxCompletions ∧
      s.stack = [(g, 0)] ∧ pending s = classLeaves g := by
  unfold new at h
  split_ifs at h with hc
  cases h
  refine ⟨by omega, ⟨fun p hp => ?_, Nat.zero_le _⟩, rfl, rfl, rfl, rfl, ?_⟩
  · rw [List.mem_singleton.mp hp]
    exact Nat.zero_le _
  · simp [pending, classLeaves]

/-- What a stream over the class promises. -/
structure StreamCorrect (g : Pdag κ) (ys : List (Completion D)) (f : MecSearch κ) : Prop where
  members : ∀ y ∈ ys, MecMember g (DagTarget.core y.graph)
  once : ys.Pairwise fun y y' => ¬ SameEdges (DagTarget.core y.graph) (DagTarget.core y'.graph)
  indices : ys.map Completion.index = List.range ys.length
  complete : f.searchStop = none → f.nextIndex < f.maxCompletions → ∀ d, MecMember g d →
    ∃ y ∈ ys, SameEdges (DagTarget.core y.graph) d
  capped : ∀ d, MecMember g d → (∀ y ∈ ys, ¬ SameEdges (DagTarget.core y.graph) d) →
    f.hitCap = true

theorem forall₂_pairwise {α β : Type*} {R : α → β → Prop} {P : α → α → Prop} {Q : β → β → Prop}
    (h : ∀ a a' b b', R a b → R a' b' → P a a' → Q b b') {l : List α} {m : List β}
    (hr : List.Forall₂ R l m) (hl : l.Pairwise P) : m.Pairwise Q := by
  induction hr with
  | nil => exact List.Pairwise.nil
  | @cons a b l m hab hlm ih =>
    obtain ⟨h1, h2⟩ := List.pairwise_cons.mp hl
    refine List.pairwise_cons.mpr ⟨fun b' hb' => ?_, ih h2⟩
    obtain ⟨hlen, hget⟩ := List.forall₂_iff_get.mp hlm
    obtain ⟨i, hi, rfl⟩ := List.mem_iff_getElem.mp hb'
    exact h _ _ _ _ hab (hget i (by omega) hi) (h1 _ (List.getElem_mem _))

variable {f : MecSearch κ} {ys : List (Completion D)} {node : NodeRef}

theorem pending_of_not_hitCap (ho : Over f) (h : f.hitCap = false) :
    pending f = [] := by
  unfold hitCap at h
  rw [Bool.or_eq_false_iff] at h
  obtain ⟨h1, h2⟩ := h
  have hst : f.stack = [] := by
    rcases ho with ho | ho | ho
    · simpa [ho] using h1
    · rw [h2] at ho
      exact absurd ho Bool.false_ne_true
    · exact ho
  unfold pending
  rw [hst]
  rfl

section

variable (hnew : new g maxCompletions limits ctx = .ok s)

include hnew

/-- **Every stream over a class whose nodes the DAG admits is correct.** -/
theorem stream_correct (hacc : ∀ node ∈ g.nodes, DagTarget.accepts D node = true)
    (h : Stream D s ys f) : StreamCorrect g ys f := by
  obtain ⟨hc, hs, hbase, hidx, -, -, hpend⟩ := new_spec hnew
  have hconv : Converts D s := by
    intro l hl
    rw [hpend] at hl
    obtain ⟨d, hd, -, hm⟩ := leaf_converts (D := D) hc hacc hl
    refine ⟨d, hd, ?_⟩
    rw [hbase, hm.nodes, sameNodes_self]
    exact isMecMember_of_orients hc hm.valid hm.orients
  obtain ⟨-, hover, -, hind, ls, hls, hall⟩ := stream_spec h hs hconv
  rw [hpend] at hls
  have hsub : ∀ l ∈ ls, l ∈ classLeaves g := fun l hl => by
    rw [hls]
    exact List.mem_append_left _ hl
  have hmember : ∀ {l} {y : Completion D}, l ∈ classLeaves g → l.tryIntoDag D = .ok y.graph →
      (∀ a b, (DagTarget.core y.graph).Dir a b ↔ Dir l.adj a b) ∧
        MecMember g (DagTarget.core y.graph) := by
    intro l y hl hy
    obtain ⟨d, hd, hdir, hm⟩ := leaf_converts (D := D) hc hacc hl
    rw [hd] at hy
    obtain rfl := Except.ok.inj hy
    exact ⟨hdir, hm⟩
  -- a member not yielded is the conversion of a leaf still pending
  have hrest : ∀ d, MecMember g d → (∃ y ∈ ys, SameEdges (DagTarget.core y.graph) d) ∨
      pending f ≠ [] := by
    intro d hd
    obtain ⟨l, hl, hdir⟩ := leaf_of_orients hc hd.orients
    rw [hls] at hl
    rcases List.mem_append.mp hl with hl | hl
    · refine Or.inl ?_
      obtain ⟨hlen, hget⟩ := List.forall₂_iff_get.mp hall
      obtain ⟨i, hi, rfl⟩ := List.mem_iff_getElem.mp hl
      refine ⟨ys[i], List.getElem_mem _, fun a b => ?_⟩
      exact ((hmember (hsub _ hl) (hget i hi (by omega))).1 a b).trans (hdir a b)
    · exact Or.inr (List.ne_nil_of_mem hl)
  refine ⟨fun y hy => ?_, ?_, ?_, fun hstop hcap d hd => ?_, fun d hd hno => ?_⟩
  · obtain ⟨hlen, hget⟩ := List.forall₂_iff_get.mp hall
    obtain ⟨i, hi, rfl⟩ := List.mem_iff_getElem.mp hy
    exact (hmember (hsub _ (List.getElem_mem _)) (hget i (by omega) hi)).2
  · have hpw : ls.Pairwise fun l l' => l ∈ classLeaves g ∧ l' ∈ classLeaves g ∧
        ¬ ∀ a b, Dir l.adj a b ↔ Dir l'.adj a b := by
      have hp := classLeaves_pairwise hc
      rw [hls] at hp
      exact (List.pairwise_append.mp hp).1.imp_of_mem fun ha hb h => ⟨hsub _ ha, hsub _ hb, h⟩
    refine forall₂_pairwise (fun l l' y y' hy hy' hne => ?_) hall hpw
    obtain ⟨h1, h2, h3⟩ := hne
    refine fun hsame => h3 fun a b => ?_
    rw [← (hmember h1 hy).1 a b, ← (hmember h2 hy').1 a b]
    exact hsame a b
  · rw [hind, hidx, List.range_eq_range']
  · have hnot : f.hitCap = false := by
      have hstop' : f.stop = none := hstop
      unfold hitCap
      rw [hstop', decide_eq_false (Nat.not_le.mpr hcap)]
      rfl
    rcases hrest d hd with h | h
    · exact h
    · exact absurd (pending_of_not_hitCap hover hnot) h
  · by_contra hcap
    rcases hrest d hd with ⟨y, hy, h⟩ | h
    · exact hno y hy h
    · exact h (pending_of_not_hitCap hover (by simpa using hcap))

theorem stream_correct_iff (hmem : node ∈ g.nodes) (hacc : DagTarget.accepts D node = false)
    (h : Stream D s ys f) (hstop : f.searchStop = none) :
    StreamCorrect g ys f ↔ maxCompletions = 0 ∨ ¬ ∃ d, MecMember g d := by
  obtain ⟨hc, hs, -, hidx, hmax, hstack, hpend⟩ := new_spec hnew
  obtain ⟨rfl, hsame, hidx', hcap⟩ := stream_empty h (fun l hl => by
    rw [hpend] at hl
    exact leaf_fails hc hmem hacc hl) hs
  have hnext : f.nextIndex = 0 := hidx'.trans hidx
  have hfmax : f.maxCompletions = maxCompletions := hsame.maxCompletions.trans hmax
  constructor
  · intro hcor
    by_contra hne
    rw [not_or, not_not] at hne
    obtain ⟨d, hd⟩ := hne.2
    obtain ⟨y, hy, -⟩ := hcor.complete hstop (by rw [hnext, hfmax]; omega) d hd
    exact List.not_mem_nil hy
  · intro hor
    refine ⟨fun _ hy => absurd hy List.not_mem_nil, List.Pairwise.nil, rfl, fun _ hlt d hd => ?_,
      fun d hd _ => ?_⟩
    · rcases hor with hz | hno
      · rw [hfmax, hz] at hlt
        exact absurd hlt (Nat.not_lt_zero _)
      · exact absurd ⟨d, hd⟩ hno
    · rcases hor with hz | hno
      · unfold hitCap
        rw [hfmax, hz, hcap (by rw [hmax, hz]; exact Nat.zero_le _), hstack]
        simp
      · exact absurd ⟨d, hd⟩ hno

theorem stream_correct_of_stop (hmem : node ∈ g.nodes) (hacc : DagTarget.accepts D node = false)
    (h : Stream D s ys f) {stop : SearchStop} (hstop : f.searchStop = some stop) :
    StreamCorrect g ys f := by
  obtain ⟨hc, hs, -, -, -, -, hpend⟩ := new_spec hnew
  obtain ⟨rfl, -, -, -⟩ := stream_empty h (fun l hl => by
    rw [hpend] at hl
    exact leaf_fails hc hmem hacc hl) hs
  have hstop' : f.stop = some stop := hstop
  refine ⟨fun _ hy => absurd hy List.not_mem_nil, List.Pairwise.nil, rfl,
    fun hnone => absurd (hstop.symm.trans hnone) (by simp), fun _ _ _ => ?_⟩
  unfold hitCap
  rw [hstop', Option.isSome_some, Bool.or_true]

end

/-- The constructor refuses conflict edges and nothing else. -/
theorem new_ok (h : g.conflictEdgeCount = 0) (maxCompletions : Nat) (limits : SearchLimits)
    (ctx : ExecutionContext) : ∃ s, new g maxCompletions limits ctx = .ok s := by
  unfold new
  rw [if_neg (by omega)]
  exact ⟨_, rfl⟩

end MecSearch

end Class

/-! ## The two samplers -/

def TemporalCpdag.NoContext (g : TemporalCpdag) : Prop := ∀ node ∈ g.nodes, node.isLagged = true

open MecSearch

/-- **The completion samplers.** Every stream of the static one is correct. Every stream of the
temporal one is when no node stands for a context, and when a budget stopped it; with a context node
a stream that ran to its end is correct only when there was nothing to yield. -/
theorem completionStreams_correct (maxCompletions : Nat) (limits : SearchLimits)
    (ctx : ExecutionContext) :
    (∀ g : Cpdag, g.conflictEdgeCount = 0 →
      ∃ s, MecSearch.new g maxCompletions limits ctx = .ok s ∧
        (∃ ys f, Stream Dag s ys f) ∧ ∀ ys f, Stream Dag s ys f → StreamCorrect g ys f) ∧
    ∀ g : TemporalCpdag, g.conflictEdgeCount = 0 →
      ∃ s, MecSearch.new g maxCompletions limits ctx = .ok s ∧
        (∃ ys f, Stream TemporalDag s ys f) ∧ ∀ ys f, Stream TemporalDag s ys f →
          (g.NoContext → StreamCorrect g ys f) ∧
          (∀ stop, f.searchStop = some stop → StreamCorrect g ys f) ∧
          (f.searchStop = none → (StreamCorrect g ys f ↔
            g.NoContext ∨ maxCompletions = 0 ∨ ¬ ∃ d, MecMember g d)) := by
  constructor
  · intro g hc
    obtain ⟨s, hs⟩ := new_ok hc maxCompletions limits ctx
    exact ⟨s, hs, stream_exists (new_spec hs).2.1, fun ys f h => stream_correct hs g.admitted h⟩
  · intro g hc
    obtain ⟨s, hs⟩ := new_ok hc maxCompletions limits ctx
    refine ⟨s, hs, stream_exists (new_spec hs).2.1, fun ys f h => ?_⟩
    have hlag : g.NoContext → StreamCorrect g ys f := fun hl =>
      stream_correct (D := TemporalDag) hs hl h
    by_cases hno : g.NoContext
    · exact ⟨hlag, fun _ _ => hlag hno, fun _ => iff_of_true (hlag hno) (Or.inl hno)⟩
    · obtain ⟨node, hmem, hnode⟩ : ∃ node ∈ g.nodes, ¬ node.isLagged = true := by
        unfold TemporalCpdag.NoContext at hno
        push Not at hno
        exact hno
      have hacc : DagTarget.accepts TemporalDag node = false := Bool.eq_false_iff.mpr hnode
      refine ⟨hlag, fun stop hstop => stream_correct_of_stop hs hmem hacc h hstop, fun hstop => ?_⟩
      rw [stream_correct_iff hs hmem hacc h hstop]
      exact ⟨Or.inr, fun hor => hor.resolve_left hno⟩

/-- The context `c` and the variable `y`, with the edge `c → y`. -/
def contextEdge : Except GraphError TemporalCpdag := do
  let (g, c) ← (Pdag.empty : TemporalCpdag).addNode (.context 0 none)
  let (g, y) ← g.addNode (.lagged 0 0)
  g.insertDirected c y

theorem mecMember_of_directed {κ : Kind} {g : Pdag κ} {d : DirectedCore}
    (hc : g.conflictEdgeCount = 0) (hu : undirectedPairs g = []) (hd : d.Valid)
    (hn : d.nodes = g.nodes) (hdir : ∀ a b, d.Dir a b ↔ Dir g.adj a b) : MecMember g d := by
  have hrel : d.Dir = Dir g.adj := funext fun a => funext fun b => propext (hdir a b)
  refine ⟨hd, hn, ?_⟩
  rw [hrel]
  refine orients_of_leaf hc ?_
  unfold classLeaves
  rw [hu]
  exact List.mem_singleton_self g

/-- A context node with an edge: the class has a member, and the stream ends without it, neither
capped nor stopped. -/
theorem completionStreams_context : ∃ g s, contextEdge = .ok g ∧
    MecSearch.new g 8 defaultCompletionLimits .production = .ok s ∧ (∃ d, MecMember g d) ∧
    ∃ f, Stream TemporalDag s [] f ∧ f.hitCap = false ∧ f.searchStop = none ∧
      f.nextIndex < f.maxCompletions := by
  have run : ∀ g : TemporalCpdag, g.nodes = [.context 0 none, .lagged 0 0] →
      g.adj = [[⟨1, .tail, .arrow, .empty⟩], [⟨0, .arrow, .tail, .empty⟩]] →
      g.conflictEdgeCount = 0 → undirectedPairs g = [] → ∃ d, MecMember g d := by
    intro g hn hadj hc hu
    have h1 : DirectedCore.new.pushLabeled (.context 0 none) =
        .ok (⟨[.context 0 none], [[]], [[]]⟩, 0) := rfl
    have v1 := DirectedCore.pushLabeled_valid DirectedCore.new_valid h1
    have h2 : DirectedCore.pushLabeled ⟨[.context 0 none], [[]], [[]]⟩ (.lagged 0 0) =
        .ok (⟨[.context 0 none, .lagged 0 0], [[], []], [[], []]⟩, 1) := rfl
    have v2 := DirectedCore.pushLabeled_valid v1 h2
    have h3 : DirectedCore.tryInsert ⟨[.context 0 none, .lagged 0 0], [[], []], [[], []]⟩ 0 1 =
        .ok ⟨[.context 0 none, .lagged 0 0], [[1], []], [[], [0]]⟩ := rfl
    have v3 := DirectedCore.tryInsert_valid v2 (by decide) (by decide) h3
    refine ⟨_, mecMember_of_directed hc hu v3 hn.symm fun a b => ?_⟩
    rw [hadj]
    rcases a with _ | _ | a
    · rcases b with _ | _ | b <;>
        simp [DirectedCore.Dir, DirectedCore.childrenOf, Dir, look, row, AdjEntry.marks]
    · simp [DirectedCore.Dir, DirectedCore.childrenOf, Dir, look, row, AdjEntry.marks]
    · simp [DirectedCore.Dir, DirectedCore.childrenOf, Dir, look, row]
  exact ⟨_, _, rfl, rfl, run _ rfl rfl rfl rfl, _, Stream.ends rfl, rfl, rfl, by decide⟩

/-- One undirected edge over two variables, and the context edge. -/
theorem completionStreams_correct_edge :
    (∃ g, ((Pdag.empty : Cpdag).addNode (.static 0) >>= fun p =>
        p.1.addNode (.static 1) >>= fun p => p.1.insertUndirected 0 1) = .ok g ∧
      ∃ s, MecSearch.new g 8 defaultCompletionLimits .production = .ok s ∧
        ∃ ys f, Stream Dag s ys f ∧ StreamCorrect g ys f) ∧
    ∃ g, contextEdge = .ok g ∧
      ∃ s, MecSearch.new g 8 defaultCompletionLimits .production = .ok s ∧
        ∃ ys f, Stream TemporalDag s ys f := by
  have static : ∀ g : Cpdag, g.conflictEdgeCount = 0 →
      ∃ s, MecSearch.new g 8 defaultCompletionLimits .production = .ok s ∧
        ∃ ys f, Stream Dag s ys f ∧ StreamCorrect g ys f := by
    intro g hc
    obtain ⟨s, hs, ⟨ys, f, h⟩, hall⟩ :=
      (completionStreams_correct 8 defaultCompletionLimits .production).1 g hc
    exact ⟨s, hs, ys, f, h, hall ys f h⟩
  have temporal : ∀ g : TemporalCpdag, g.conflictEdgeCount = 0 →
      ∃ s, MecSearch.new g 8 defaultCompletionLimits .production = .ok s ∧
        ∃ ys f, Stream TemporalDag s ys f := by
    intro g hc
    obtain ⟨s, hs, h, -⟩ := (completionStreams_correct 8 defaultCompletionLimits .production).2 g hc
    exact ⟨s, hs, h⟩
  exact ⟨⟨_, rfl, static _ rfl⟩, _, rfl, temporal _ rfl⟩

end Antecedent.Graph
