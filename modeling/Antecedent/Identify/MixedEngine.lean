import Antecedent.Core.Search
import Antecedent.Graph.CopyFiltered
import Antecedent.Graph.Separation
import Antecedent.Identify.MixedChecker
import Antecedent.Search.Generations
import Mathlib.Data.List.Sublists

/-!
# The mixed-source rule engine

Model of the forward search (`antecedent-identify/src/sid/mixed_source/search.rs:26-399`): the
quantities derived so far, the rules it applies to each of them, and the run, generation by
generation. A `Mask` is the `Finset Nat` of its members. `known` and `by_dz` are read off the
steps, which hold one step for each quantity. A charge of the shared budget may be refused at any
time, hence the answers are an arbitrary function of how many charges were made before. Counters
that only receipts and reports read (`rule_counts`, `generation`, `completed`, `unexpanded`,
`operations_to_proof`) are left out.

* `mem_subsets`: the enumeration of submasks.
-/

namespace Antecedent.Identify

open Core
open Graph
open Mixed
open Worklist

/-! ## Masks -/

/-- `Mask::BITS`. -/
def maskBits : Nat := 16

/-- `mixed_source.rs:249-251`. -/
def members (mask : Finset Nat) : List Nat := (List.range maskBits).filter (· ∈ mask)

def maskValue (mask : Finset Nat) : Nat := ((members mask).map (2 ^ ·)).sum

/-- `subsets` (`mixed_source.rs:258-269`): the non-empty submasks with at most `max` members,
ordered by size, then by number. -/
def subsets (pool : Finset Nat) (max : Nat) : List (Finset Nat) :=
  (((members pool).sublists.map List.toFinset).filter fun s => s ≠ ∅ ∧ s.card ≤ max).insertionSort
    fun s t => s.card < t.card ∨ (s.card = t.card ∧ maskValue s ≤ maskValue t)

theorem mem_members {mask : Finset Nat} (h : ∀ v ∈ mask, v < maskBits) {v : Nat} :
    v ∈ members mask ↔ v ∈ mask := by
  rw [members, List.mem_filter, List.mem_range, decide_eq_true_iff]
  exact and_iff_right_of_imp (h v)

/-- The submasks of at most `max` members, the empty one apart. -/
theorem mem_subsets {pool s : Finset Nat} (h : ∀ v ∈ pool, v < maskBits) {max : Nat} :
    s ∈ subsets pool max ↔ s ⊆ pool ∧ s ≠ ∅ ∧ s.card ≤ max := by
  have hmem : (∃ l : List Nat, l.Sublist (members pool) ∧ l.toFinset = s) ↔ s ⊆ pool := by
    constructor
    · rintro ⟨l, hl, rfl⟩ v hv
      exact (mem_members h).mp (hl.mem (List.mem_toFinset.mp hv))
    · intro hs
      refine ⟨(members pool).filter (· ∈ s), List.filter_sublist, ?_⟩
      ext v
      rw [List.mem_toFinset, List.mem_filter, mem_members h, decide_eq_true_iff]
      exact and_iff_right_of_imp fun hv => hs hv
  rw [subsets, List.mem_insertionSort, List.mem_filter, List.mem_map, decide_eq_true_iff]
  simp only [List.mem_sublists]
  rw [hmem]

/-! ## The engine -/

/-- Lines 28-41. -/
structure Raw where
  rule : MixedRule
  premises : List Nat
  params : Finset Nat
  y : Finset Nat
  d : Finset Nat
  z : Finset Nat
  free : Finset Nat
  input : Option Nat
  relaxed : Bool

def Raw.key (raw : Raw) : Quantity := ⟨raw.y, raw.d, raw.z⟩

/-- Comparison with a key, one mask at a time. -/
def Raw.hasKey (raw : Raw) (key : Quantity) : Bool :=
  raw.y = key.y ∧ raw.d = key.d ∧ raw.z = key.z

theorem Raw.hasKey_iff {raw : Raw} {key : Quantity} : raw.hasKey key = true ↔ raw.key = key := by
  rw [Raw.hasKey, decide_eq_true_iff, Raw.key]
  constructor
  · rintro ⟨h1, h2, h3⟩
    rw [h1, h2, h3]
  · rintro rfl
    exact ⟨rfl, rfl, rfl⟩

instance : Inhabited Raw := ⟨⟨.input, [], ∅, ∅, ∅, ∅, ∅, none, false⟩⟩

/-- Lines 57-82. -/
structure Engine where
  graph : Admg
  vars : List Nat
  inputs : List MixedInput
  target : Quantity
  graphs : List ((Finset Nat × Finset Nat) × Admg)
  separations : List ((Finset Nat × Finset Nat × Finset Nat × Finset Nat × Finset Nat) × Bool)
  steps : List Raw
  alternatives : List Raw
  found : Option Nat
  operations : Nat

/-- `MAX_ALTERNATIVES`. -/
def maxAlternatives : Nat := 4

namespace Engine

/-- `universe`. -/
def everything (e : Engine) : Finset Nat := Finset.range e.vars.length

/-- `self.steps[i]`. -/
def step (e : Engine) (i : Nat) : Raw := e.steps.getD i default

/-- `self.known.get(&key)`. -/
def known (e : Engine) (key : Quantity) : Option Nat :=
  e.steps.findIdx? (·.hasKey key)

/-- `self.by_dz.get(&(d, z))`. -/
def byDz (e : Engine) (d z : Finset Nat) : List Nat :=
  (List.range e.steps.length).filter fun i => (e.step i).d = d ∧ (e.step i).z = z

/-- The test for a derivation that is recorded already. -/
def duplicate (raw other : Raw) : Bool :=
  other.rule = raw.rule ∧ other.premises = raw.premises ∧ other.params = raw.params ∧
    other.input = raw.input

/-- Lines 194-221. -/
def add (e : Engine) (raw : Raw) : Engine :=
  if (e.known raw.key).isSome then
    if raw.hasKey e.target ∧ e.alternatives.length < maxAlternatives ∧
        (e.found.any fun f => duplicate raw (e.step f)) = false ∧
        e.alternatives.any (duplicate raw) = false then
      { e with alternatives := e.alternatives ++ [raw] }
    else e
  else
    { e with
      found := if raw.hasKey e.target ∧ e.found = none then some e.steps.length else e.found
      steps := e.steps ++ [raw] }

def maskOf (vars vs : List Nat) : Except IdentificationError (Finset Nat) :=
  if ∀ v ∈ vs, v ∈ vars then .ok (vs.map fun v => vars.idxOf v).toFinset
  else .error (invalidQuery "variable outside the graph")

def inputRaw (index : Nat) (input : MixedInput) (y d : Finset Nat) : Raw :=
  ⟨.input, [], ∅, y, d, ∅, y ∪ d, some index, !input.marginals.isEmpty⟩

/-- The candidates of the inputs, numbered from `index` on. -/
def inputRaws (vars : List Nat) : Nat → List MixedInput → Except IdentificationError (List Raw)
  | _, [] => .ok []
  | index, input :: inputs => do
    let y ← maskOf vars input.measured
    let d ← maskOf vars input.intervened
    let rest ← inputRaws vars (index + 1) inputs
    .ok (inputRaw index input y d :: rest)

/-- Lines 98-166. -/
def new (graph : Admg) (vars : List Nat) (inputs : List MixedInput) (query : MixedSourceQuery) :
    Except IdentificationError Engine :=
  if maskBits ≤ vars.length then .error boundsExceeded
  else do
    let y ← maskOf vars query.outcomes
    let d ← maskOf vars query.treatments
    let raws ← inputRaws vars 0 inputs
    let engine := raws.foldl add ⟨graph, vars, [], ⟨y, d, ∅⟩, [], [], [], [], none, 0⟩
    .ok { engine with inputs := inputs }

/-- The inputs of a pass of `rule_search` (`search.rs:1453-1472`): the relaxed one adds those that are
separate marginals, in regime order. -/
def passInputs (v : ValidatedMixedSourceQuery) (relaxed : Bool) : List MixedInput :=
  if relaxed then (v.inputs ++ v.marginalInputs).insertionSort fun a b => a.regime ≤ b.regime
  else v.inputs

/-- `ancestors_without_into` (`search.rs:224-226`); the order in which `mask_closure` pops is not
kept. -/
def ancestorsWithoutInto (e : Engine) (seeds overline : Finset Nat) : Finset Nat :=
  closure (fun v => if v ∈ overline then [] else e.graph.parents v) (e.vars.length + 1)
    (members seeds)

/-- The mutilated graph of a side condition, built once (`search.rs:238-244`). -/
def mutilatedGraph (e : Engine) (overline underline : Finset Nat) : Engine × Admg :=
  match e.graphs.lookup (overline, underline) with
  | some graph => (e, graph)
  | none =>
    match e.graph.mutilated overline underline with
    | .ok graph => ({ e with graphs := ((overline, underline), graph) :: e.graphs }, graph)
    -- the copy keeps the nodes and drops edges, so it never fails
    | .error _ => (e, e.graph)

/-- Lines 231-253. -/
def separated (e : Engine) (overline underline a b cond : Finset Nat) : Engine × Bool :=
  match e.separations.lookup (overline, underline, a, b, cond) with
  | some decided => (e, decided)
  | none =>
    let (e, graph) := e.mutilatedGraph overline underline
    let decided := (members a).all fun x => (members b).all fun y =>
      (graph.isMSeparated x y (members cond)).toOption.getD false
    ({ e with separations := ((overline, underline, a, b, cond), decided) :: e.separations },
      decided)

/-- Lines 183-191. -/
def charge (meter : Nat → Option SearchStop) (e : Engine) : Except SearchStop Engine :=
  match meter e.operations with
  | some stop => .error stop
  | none => .ok { e with operations := e.operations + 1 }

/-- The candidate, if its side condition holds. -/
def whenSeparated (overline underline a b cond : Finset Nat) (raw : Raw) (e : Engine) :
    Engine × Option Raw :=
  let (e, holds) := e.separated overline underline a b cond
  (e, if holds then some raw else none)

/-- A loop of `expand`: every eligible item is charged and attempted. -/
def tryEach {α : Type} (meter : Nat → Option SearchStop) (eligible : α → Engine → Bool)
    (attempt : α → Engine → Engine × Option Raw) : List α → Engine → Except SearchStop Engine
  | [], e => .ok e
  | w :: ws, e =>
    if eligible w e then
      match e.charge meter with
      | .error stop => .error stop
      | .ok e =>
        let (e, raw) := attempt w e
        tryEach meter eligible attempt ws (raw.elim e e.add)
    else tryEach meter eligible attempt ws e

section Expand

variable (meter : Nat → Option SearchStop) (q : Nat) (base : Raw)

/-- A candidate with the one premise `q` (the closure `unary` of `expand`). -/
def unary (rule : MixedRule) (w y d z free : Finset Nat) : Raw :=
  ⟨rule, [q], w, y, d, z, free, none, false⟩

def moves : List (Finset Nat) := (subsets base.y mixedSourceMaxMove).filter (· ≠ base.y)

/-- What rules 1 and 3 may insert. -/
def outside (e : Engine) : List (Finset Nat) :=
  subsets (e.everything \ (base.y ∪ base.d ∪ base.z)) mixedSourceMaxMove

def tryMarginalize : Engine → Except SearchStop Engine :=
  tryEach meter (fun _ _ => 1 < base.y.card)
    (fun w e => (e, some (unary q .marginalize w (base.y \ w) base.d base.z (base.free \ w))))
    (moves base)

def tryCondition : Engine → Except SearchStop Engine :=
  tryEach meter (fun _ _ => 1 < base.y.card)
    (fun w e => (e, some (unary q .condition w (base.y \ w) base.d (base.z ∪ w) base.free)))
    (moves base)

/-- Rule 1, insertion. -/
def tryRule1Insert (e : Engine) : Except SearchStop Engine :=
  tryEach meter (fun _ _ => true)
    (fun w => whenSeparated base.d ∅ base.y w (base.d ∪ base.z)
      (unary q .rule1Insert w base.y base.d (base.z ∪ w) base.free))
    (outside base e) e

/-- Rule 2, observation to action. -/
def tryRule2ToDo : Engine → Except SearchStop Engine :=
  tryEach meter (fun w _ => base.d.card + w.card ≤ mixedSourceMaxDo)
    (fun w => whenSeparated base.d w base.y w (base.d ∪ (base.z \ w))
      (unary q .rule2ToDo w base.y (base.d ∪ w) (base.z \ w) base.free))
    (subsets base.z mixedSourceMaxMove)

/-- Rule 2, action to observation. -/
def tryRule2ToObservation : Engine → Except SearchStop Engine :=
  tryEach meter (fun _ _ => true)
    (fun w => whenSeparated (base.d \ w) w base.y w ((base.d \ w) ∪ base.z)
      (unary q .rule2ToObservation w base.y (base.d \ w) (base.z ∪ w) base.free))
    (subsets base.d mixedSourceMaxMove)

/-- Rule 3, insertion: the inserted actions that are ancestors of the observed set keep their
edges. -/
def tryRule3Insert (e : Engine) : Except SearchStop Engine :=
  let past := e.ancestorsWithoutInto base.z base.d
  tryEach meter (fun w _ => base.d.card + w.card ≤ mixedSourceMaxDo)
    (fun w => whenSeparated (base.d ∪ (w \ past)) ∅ base.y w (base.d ∪ base.z)
      (unary q .rule3Insert w base.y (base.d ∪ w) base.z base.free))
    (outside base e) e

/-- `q` as the conditional of a known marginal. -/
def tryConditional : Engine → Except SearchStop Engine :=
  tryEach meter (fun b e => (e.known ⟨b, base.d, base.z \ b⟩).isSome)
    (fun b e => (e, (e.known ⟨b, base.d, base.z \ b⟩).map fun j =>
      ⟨.product, [q, j], ∅, base.y ∪ b, base.d, base.z \ b, base.free ∪ (e.step j).free, none,
        false⟩))
    (subsets base.z base.z.card)

/-- `q` as the marginal of known conditionals. -/
def tryMarginal (e : Engine) : Except SearchStop Engine :=
  tryEach meter (fun _ _ => true)
    (fun j e => (e, some ⟨.product, [j, q], ∅, (e.step j).y ∪ base.y, base.d, base.z,
      (e.step j).free ∪ base.free, none, false⟩))
    (e.byDz base.d (base.z ∪ base.y)) e

end Expand

/-- Lines 259-353. -/
def expand (meter : Nat → Option SearchStop) (q : Nat) (e : Engine) :
    Except SearchStop Engine := do
  let e ← e.charge meter
  let base := e.step q
  let e ← tryMarginalize meter q base e
  let e ← tryCondition meter q base e
  let e ← tryRule1Insert meter q base e
  let e ← tryRule2ToDo meter q base e
  let e ← tryRule2ToObservation meter q base e
  let e ← tryRule3Insert meter q base e
  let e ← tryConditional meter q base e
  tryMarginal meter q base e

/-! ## The run -/

/-- The number of quantities so far. -/
def size (e : Engine) : Nat := e.steps.length

/-- Lines 360-385. -/
def run (meter : Nat → Option SearchStop) (fuel : Nat) (e : Engine) :
    Option (Generations.RunEnd Engine SearchStop) :=
  if e.found.isSome then some (.found e)
  else Generations.generations size (expand meter) (fun e => e.found.isSome) fuel 0 e

/-! ## The side conditions -/

/-- A side condition on disjoint masks over `n` nodes. -/
structure Askable (n : Nat) (a b cond : Finset Nat) : Prop where
  a_lt : ∀ v ∈ a, v < n
  b_lt : ∀ v ∈ b, v < n
  cond_lt : ∀ v ∈ cond, v < n
  ac : Disjoint a cond
  bc : Disjoint b cond
  ab : Disjoint a b

/-- The caches hold what their keys name. -/
structure CachesOk (c : Checker) (e : Engine) : Prop where
  graphs : ∀ o u g, ((o, u), g) ∈ e.graphs → g.nodeCount = c.vars.length ∧
    g.mixed = e.graph.mixed.mutilate o u
  separations : ∀ o u a b cond r, ((o, u, a, b, cond), r) ∈ e.separations →
    Askable c.vars.length a b cond → r = c.separated o u a b cond

variable {c : Checker} {e : Engine} {o u a b cond : Finset Nat}

theorem mem_of_lookup {α β : Type} [BEq α] [LawfulBEq α] {k : α} {v : β} : ∀ {l : List (α × β)},
    l.lookup k = some v → (k, v) ∈ l
  | [], h => by cases h
  | (k', v') :: l, h => by
    rw [List.lookup_cons] at h
    cases hk : k == k' with
    | true =>
      rw [hk] at h
      cases h
      rw [LawfulBEq.eq_of_beq hk]
      exact List.mem_cons_self
    | false =>
      rw [hk] at h
      exact List.mem_cons_of_mem _ (mem_of_lookup h)

theorem mutilatedGraph_spec (hc : c.Reads e.graph) (h : CachesOk c e) (o u : Finset Nat) :
    ∃ graphs, (e.mutilatedGraph o u).1 = { e with graphs := graphs } ∧
      CachesOk c (e.mutilatedGraph o u).1 ∧
      (e.mutilatedGraph o u).2.nodeCount = c.vars.length ∧
      (e.mutilatedGraph o u).2.mixed = e.graph.mixed.mutilate o u := by
  unfold mutilatedGraph
  cases hl : e.graphs.lookup (o, u) with
  | some g => exact ⟨e.graphs, rfl, h, h.graphs o u g (mem_of_lookup hl)⟩
  | none =>
    obtain ⟨g, hok, hn, hmix⟩ := Admg.mutilated_mixed e.graph o u
    rw [hok]
    refine ⟨_, rfl, ⟨fun o' u' g' hg => ?_, h.separations⟩, hn.trans hc.length.symm, hmix⟩
    rcases List.mem_cons.mp hg with heq | hg
    · obtain ⟨⟨rfl, rfl⟩, rfl⟩ : (o' = o ∧ u' = u) ∧ g' = g := by simpa using heq
      exact ⟨hn.trans hc.length.symm, hmix⟩
    · exact h.graphs o' u' g' hg

theorem getD_toOption {x : Except GraphError Bool} :
    x.toOption.getD false = true ↔ x = .ok true := by
  cases x with
  | error err => exact iff_of_false (by simp [Except.toOption]) (by simp)
  | ok b => simp [Except.toOption]

theorem all_isMSeparated_iff {graph g : Admg} (hc : c.Reads graph)
    (hsmall : c.vars.length ≤ maskBits)
    (hn : g.nodeCount = c.vars.length) (hmix : g.mixed = graph.mixed.mutilate o u)
    (h : Askable c.vars.length a b cond) :
    ((members a).all fun x => (members b).all fun y =>
      (g.isMSeparated x y (members cond)).toOption.getD false) = c.separated o u a b cond := by
  have hsub : ∀ {s : Finset Nat}, (∀ v ∈ s, v < c.vars.length) → ∀ v ∈ s, v < maskBits :=
    fun hs v hv => lt_of_lt_of_le (hs v hv) hsmall
  have hac : ∀ x ∈ (a : Set Nat), x ∉ (cond : Set Nat) := fun x hx =>
    Finset.disjoint_left.mp h.ac hx
  have hbc : ∀ y ∈ (b : Set Nat), y ∉ (cond : Set Nat) := fun y hy =>
    Finset.disjoint_left.mp h.bc hy
  have hcond : {v | v ∈ members cond} = (cond : Set Nat) :=
    Set.ext fun v => mem_members (hsub h.cond_lt)
  have hpair : ∀ x ∈ a, ∀ y ∈ b, (g.isMSeparated x y (members cond) = .ok true ↔
      (graph.mixed.mutilate o u).MSeparated {x} {y} cond) := by
    intro x hx y hy
    have hq : Query g.nodeCount x y (members cond) := by
      refine ⟨hn ▸ h.a_lt x hx, hn ▸ h.b_lt y hy, fun v hv => ?_, ?_, fun hm => ?_, fun hm => ?_⟩
      · exact hn ▸ h.cond_lt v ((mem_members (hsub h.cond_lt)).mp hv)
      · rintro rfl
        exact Finset.disjoint_left.mp h.ab hx hy
      · exact hac x hx ((mem_members (hsub h.cond_lt)).mp hm)
      · exact hbc y hy ((mem_members (hsub h.cond_lt)).mp hm)
    rw [Admg.isMSeparated_iff hq, hmix, hcond, MixedGraph.mSeparated_iff_ball
      (by rintro _ rfl; exact hac _ hx) (by rintro _ rfl; exact hbc _ hy)]
    simp
  rw [Bool.eq_iff_iff, Checker.separated_iff hc.rows h.a_lt h.b_lt h.cond_lt h.ac h.bc h.ab,
    MixedGraph.mSeparated_iff_pairs hac hbc]
  simp only [List.all_eq_true, getD_toOption, mem_members (hsub h.a_lt),
    mem_members (hsub h.b_lt)]
  exact ⟨fun hall x hx y hy => (hpair x hx y hy).mp (hall x hx y hy),
    fun hall x hx y hy => (hpair x hx y hy).mpr (hall x hx y hy)⟩

/-- **A side condition the engine decides, cached or not, is the one the checker decides**; only the
caches change. -/
theorem separated_spec (hc : c.Reads e.graph) (hsmall : c.vars.length ≤ maskBits)
    (h : CachesOk c e) (ha : Askable c.vars.length a b cond) :
    ∃ graphs separations,
      (e.separated o u a b cond).1 = { e with graphs := graphs, separations := separations } ∧
      CachesOk c (e.separated o u a b cond).1 ∧
      (e.separated o u a b cond).2 = c.separated o u a b cond := by
  unfold separated
  cases hl : e.separations.lookup (o, u, a, b, cond) with
  | some r =>
    exact ⟨e.graphs, e.separations, rfl, h, h.separations o u a b cond r (mem_of_lookup hl) ha⟩
  | none =>
    obtain ⟨graphs, he, hk, hn, hmix⟩ := mutilatedGraph_spec hc h o u
    rcases hm : e.mutilatedGraph o u with ⟨e₁, g⟩
    rw [hm] at he hk hn hmix
    subst he
    have hdec := all_isMSeparated_iff hc hsmall hn hmix ha
    refine ⟨graphs, _, rfl, ⟨hk.graphs, ?_⟩, hdec⟩
    intro o' u' a' b' cond' r hr ha'
    rcases List.mem_cons.mp hr with heq | hr
    · obtain ⟨⟨rfl, rfl, rfl, rfl, rfl⟩, rfl⟩ :
        (o' = o ∧ u' = u ∧ a' = a ∧ b' = b ∧ cond' = cond) ∧ r = _ := by simpa using heq
      exact hdec
    · exact hk.separations o' u' a' b' cond' r hr ha'

end Engine

end Antecedent.Identify
