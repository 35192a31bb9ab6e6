import Antecedent.Expr.Nodes

/-!
# Arenas with nodes of every kind

The tables of `CausalExprArena` and its interning operations (`antecedent-expr`, `lib.rs:436-688`). A hash
map from an entry to its position, and the cached id of an empty entry, are a search of the table; `none`
is a panic, or the refusal of an intervention at two levels. Positions are not bounded by a `u32`.
Derivation metadata is no part of the equality of arenas and is left out.

* `fold_node`, `fold_extends`: the value of a node, which a growing arena does not change.
-/

namespace Antecedent.Expr.Full

open Core

/-! ## Arenas -/

/-- The entries of a table. Entries of a list, and references of a node, are positions. -/
def Entry : Table → Type
  | .varSets => List Nat
  | .interventions => List InterventionAssignment
  | .populations => String
  | .lists => List Nat
  | .nodes => NodeOf fun _ => Nat

instance : ∀ t, DecidableEq (Entry t)
  | .varSets | .lists => inferInstanceAs (DecidableEq (List Nat))
  | .interventions => inferInstanceAs (DecidableEq (List InterventionAssignment))
  | .populations => inferInstanceAs (DecidableEq String)
  | .nodes => inferInstanceAs (DecidableEq (Node Nat Nat Nat Nat Nat))

/-- `ExprNode`, as an arena has it. -/
abbrev ExprNode : Type := NodeOf fun _ => Nat

/-- `CausalExprArena`. -/
structure CausalExprArena where
  table : ∀ t, List (Entry t)

namespace CausalExprArena

def new : CausalExprArena := ⟨fun _ => []⟩

def nodes (a : CausalExprArena) : List ExprNode := a.table .nodes

end CausalExprArena

abbrev ArenaM := StateT CausalExprArena Option

/-- The position of an entry, which is appended when it is new. -/
def internAt (t : Table) (x : Entry t) : ArenaM Nat := fun a =>
  let r := internIn (a.table t) x
  some (r.2, ⟨Function.update a.table t r.1⟩)

def internVarSet (vars : List Nat) : ArenaM Nat := internAt .varSets (sortDedup vars)

/-- The loop of `try_intern_intervention_assignments`, after `last`. -/
def mergeFrom (last : InterventionAssignment) :
    List InterventionAssignment → Option (List InterventionAssignment)
  | [] => some []
  | a :: rest =>
    if last.var = a.var then if last.value ≠ a.value then none else mergeFrom last rest
    else (mergeFrom a rest).map (a :: ·)

/-- The assignments by variable, each once; none when a variable has two levels. -/
def mergeAssignments (assignments : List InterventionAssignment) :
    Option (List InterventionAssignment) :=
  match assignments.insertionSort (·.var ≤ ·.var) with
  | [] => some []
  | a :: rest => (mergeFrom a rest).map (a :: ·)

def internInterventionAssignments (assignments : List InterventionAssignment) : ArenaM Nat := do
  internAt .interventions (← mergeAssignments assignments)

def internPopulation (key : String) : ArenaM Nat := internAt .populations key

def internList (exprs : List Nat) : ArenaM Nat := internAt .lists exprs

def intern (node : ExprNode) : ArenaM Nat := internAt .nodes node

/-! ## Reading -/

/-- What the references of a node stand for, over the values of its children. -/
def Content (β : Type) : Table → Type
  | .varSets => List Nat
  | .interventions => List InterventionAssignment
  | .populations => String
  | .lists => List β
  | .nodes => β

section Read

variable (a : CausalExprArena) {β : Type}

/-- The entry at a position, with the children of a list evaluated. -/
def read (child : Nat → Option β) : ∀ t, Nat → Option (Content β t)
  | .varSets, i => (a.table .varSets)[i]?
  | .interventions, i => (a.table .interventions)[i]?
  | .populations, i => (a.table .populations)[i]?
  | .lists, i => (a.table .lists)[i]?.bind fun (ids : List Nat) => ids.mapM child
  | .nodes, i => child i

/-- `fold_expr` (`walk.rs:27-45`): the value of a node by those of its children. -/
def fold (step : NodeOf (Content β) → β) (i : Nat) : Option β :=
  a.nodes[i]?.bind fun n =>
    (n.mapM (read a fun c => if _h : c < i then fold step c else none)).map step
termination_by i

end Read

/-- A reference that leads to an entry, and to positions with `P`. -/
def InPlace (a : CausalExprArena) (P : Nat → Prop) : Table → Nat → Prop
  | .lists, i => ∃ ids : List Nat, (a.table .lists)[i]? = some ids ∧ ∀ c ∈ ids, P c
  | .nodes, i => P i
  | t, i => i < (a.table t).length

/-- An entry that an operation may put at position `i`. -/
def Fits (a : CausalExprArena) (i : Nat) : ∀ t, Entry t → Prop
  | .varSets, (s : List Nat) => sortDedup s = s
  | .interventions, (s : List InterventionAssignment) => s.Pairwise (·.var < ·.var)
  | .nodes, (n : ExprNode) => n.All (InPlace a (· < i))
  | .populations, _ | .lists, _ => True

/-- What the operations keep. -/
structure Good (a : CausalExprArena) : Prop where
  fits : ∀ t i x, (a.table t)[i]? = some x → Fits a i t x
  distinct : ∀ t, (a.table t).Nodup

variable {a : CausalExprArena} {n : ExprNode}

theorem Good.backward (hg : Good a) {i : Nat}
    (hi : a.nodes[i]? = some n) : n.All (InPlace a (· < i)) := hg.fits .nodes i n hi

/-- Every table of `a` is a prefix of that of `b`. -/
def Extends (a b : CausalExprArena) : Prop := ∀ t, a.table t <+: b.table t

theorem Extends.rfl : Extends a a := fun _ => List.prefix_rfl

theorem Extends.trans {a b c : CausalExprArena} (h : Extends a b) (h' : Extends b c) : Extends a c :=
  fun t => (h t).trans (h' t)

section Read

variable {a b : CausalExprArena} {P Q : Nat → Prop} {β : Type} {t : Table} {x i : Nat}

theorem InPlace.mono (h : InPlace a P t x) (hab : Extends a b) (hPQ : ∀ c, P c → Q c) :
    InPlace b Q t x := by
  cases t with
  | lists =>
    obtain ⟨ids, hl, hids⟩ := h
    exact ⟨ids, getElem?_prefixed (hab .lists) hl, fun c hc => hPQ c (hids c hc)⟩
  | nodes => exact hPQ x h
  | varSets | interventions | populations => exact h.trans_le (hab _).length_le

theorem read_congr {f g : Nat → Option β} (h : InPlace a P t x) (hab : Extends a b)
    (hfg : ∀ c, P c → f c = g c) : read b f t x = read a g t x := by
  cases t with
  | lists =>
    obtain ⟨ids, hl, hids⟩ := h
    simp only [read, hl, getElem?_prefixed (hab .lists) hl]
    exact mapM_congr fun c hc => hfg c (hids c hc)
  | nodes => exact hfg x h
  | varSets | interventions | populations =>
    have hx := List.getElem?_eq_getElem h
    exact (getElem?_prefixed (hab _) hx).trans hx.symm

theorem mapM_some {f : Nat → Option β} : ∀ {ids : List Nat},
    (∃ ys, ids.mapM f = some ys) ↔ ∀ c ∈ ids, ∃ y, f c = some y
  | [] => by simp
  | c :: ids => by
    rw [List.forall_mem_cons, ← @mapM_some f ids]
    simp [Option.bind_eq_some_iff]

theorem read_some {f : Nat → Option β} :
    (∃ y, read a f t x = some y) ↔ InPlace a (fun c => ∃ y, f c = some y) t x := by
  cases t with
  | lists =>
    constructor
    · rintro ⟨ys, h⟩
      obtain ⟨ids, hl, h⟩ := Option.bind_eq_some_iff.mp h
      exact ⟨ids, hl, mapM_some.mp ⟨ys, h⟩⟩
    · rintro ⟨ids, hl, hids⟩
      obtain ⟨ys, h⟩ := mapM_some.mpr hids
      exact ⟨ys, Option.bind_eq_some_iff.mpr ⟨ids, hl, h⟩⟩
  | nodes => exact Iff.rfl
  | varSets | interventions | populations =>
    exact ⟨fun ⟨_, h⟩ => (List.getElem?_eq_some_iff.mp h).1, fun h => ⟨_, List.getElem?_eq_getElem h⟩⟩

variable {s : NodeOf (Content β) → β}

/-- **The value of a node**, over the values of the whole arena. -/
theorem fold_node (hg : Good a) (hi : a.nodes[i]? = some n) :
    fold a s i = (n.mapM (read a (fold a s))).map s := by
  rw [fold, hi, Option.bind_some, Node.mapM_congr]
  exact (hg.backward hi).imp fun t x hx => read_congr hx .rfl fun c (hc : c < i) => by rw [dif_pos hc]

theorem lt_of_fold {v : β} (h : fold a s i = some v) : i < a.nodes.length := by
  rw [fold] at h
  obtain ⟨n, hn, -⟩ := Option.bind_eq_some_iff.mp h
  exact (List.getElem?_eq_some_iff.mp hn).1

theorem fold_some (hg : Good a) : ∀ {i}, i < a.nodes.length → ∃ v, fold a s i = some v := by
  intro i
  induction i using Nat.strong_induction_on with
  | _ i ih =>
    intro hi
    have hn := List.getElem?_eq_getElem hi
    have hall : Node.All (fun t x => ∃ y, read a (fold a s) t x = some y) a.nodes[i] :=
      (hg.backward hn).imp fun t x hx =>
        read_some.mpr (hx.mono .rfl fun c hc => ih c hc (hc.trans hi))
    obtain ⟨r, hr⟩ := Node.mapM_all.mpr hall
    exact ⟨s r, by rw [fold_node hg hn, hr]; rfl⟩

/-- Growing an arena changes no value. -/
theorem fold_extends (ha : Good a) (hb : Good b) (hab : Extends a b) : ∀ {i}, i < a.nodes.length →
    fold b s i = fold a s i := by
  intro i
  induction i using Nat.strong_induction_on with
  | _ i ih =>
    intro hi
    have hn := List.getElem?_eq_getElem hi
    rw [fold_node ha hn, fold_node hb (getElem?_prefixed (hab .nodes) hn), Node.mapM_congr]
    exact (ha.backward hn).imp fun t x hx => read_congr hx hab fun c hc => ih c hc (hc.trans hi)

end Read

/-! ## Trees -/

/-- The expression at a node, with nothing left to look up. -/
inductive Tree
  | distribution (vars conditionedOn : List Nat) (intervention : List InterventionAssignment)
      (domain : DomainRef) (population : String) (regime : Option Nat)
  | kernel (body : Tree) (bound : List Nat) (population : String) (regime : Option Nat)
  | product (factors : List Tree)
  | sumOut (vars : List Nat) (expr : Tree)
  | integralOut (vars : List Nat) (expr : Tree)
  | ratio (numerator denominator : Tree)
  | expectation (function : Nat) (distribution : Tree)
  | contrast (left right : Tree) (op : ContrastOp)

namespace Tree

def ofNode : NodeOf (Content Tree) → Tree
  | .distribution v c i d p r => .distribution v c i d p r
  | .kernel b v p r => .kernel b v p r
  | .product l => .product l
  | .sumOut v e => .sumOut v e
  | .integralOut v e => .integralOut v e
  | .ratio n d => .ratio n d
  | .expectation y e => .expectation y e
  | .contrast l r op => .contrast l r op

def toNode : Tree → NodeOf (Content Tree)
  | .distribution v c i d p r => .distribution v c i d p r
  | .kernel b v p r => .kernel b v p r
  | .product l => .product l
  | .sumOut v e => .sumOut v e
  | .integralOut v e => .integralOut v e
  | .ratio n d => .ratio n d
  | .expectation y e => .expectation y e
  | .contrast l r op => .contrast l r op

theorem ofNode_injective : Function.Injective ofNode :=
  Function.LeftInverse.injective (g := toNode) fun n => by cases n <;> rfl

end Tree

section Injective

variable {a : CausalExprArena} {β : Type} {f : Nat → Option β}

theorem mapM_injective (hf : ∀ x y z, f x = some z → f y = some z → x = y) : ∀ {ids ids' : List Nat}
    {ys : List β}, ids.mapM f = some ys → ids'.mapM f = some ys → ids = ids'
  | [], [], _, _, _ => rfl
  | [], c :: ids, ys, h, h' => by
    simp [Option.bind_eq_some_iff] at h h'
    grind
  | c :: ids, [], ys, h, h' => by
    simp [Option.bind_eq_some_iff] at h h'
    grind
  | c :: ids, d :: ids', ys, h, h' => by
    simp only [List.mapM_cons, Option.bind_eq_bind, Option.bind_eq_some_iff, Option.pure_def,
      Option.some.injEq] at h h'
    obtain ⟨y, hc, zs, hids, rfl⟩ := h
    obtain ⟨y', hd, zs', hids', he⟩ := h'
    obtain ⟨rfl, rfl⟩ := List.cons.inj he
    rw [hf c d _ hc hd, mapM_injective hf hids hids']

theorem read_injective (hg : Good a) (hf : ∀ x y z, f x = some z → f y = some z → x = y) (t : Table)
    (x y : Nat) (z : Content β t) (hx : read a f t x = some z) (hy : read a f t y = some z) : x = y := by
  have htable : ∀ {z : Entry t}, (a.table t)[x]? = some z → (a.table t)[y]? = some z → x = y :=
    fun hx hy => (List.getElem?_inj (List.getElem?_eq_some_iff.mp hx).1 (hg.distinct t)).mp
      (hx.trans hy.symm)
  cases t with
  | lists =>
    obtain ⟨ids, hl, h⟩ := Option.bind_eq_some_iff.mp hx
    obtain ⟨ids', hl', h'⟩ := Option.bind_eq_some_iff.mp hy
    obtain rfl := mapM_injective hf h h'
    exact htable hl hl'
  | nodes => exact hf x y z hx hy
  | varSets | interventions | populations => exact htable hx hy

/-- The induction is on a bound for both positions, whose children are below it. -/
theorem fold_injective_below (hg : Good a) : ∀ k, ∀ i < k, ∀ j < k, ∀ v,
    fold a Tree.ofNode i = some v → fold a Tree.ofNode j = some v → i = j := by
  intro k
  induction k with
  | zero => exact fun i hi => absurd hi (Nat.not_lt_zero i)
  | succ k ih =>
    intro i hi j hj v hv hv'
    let below : Nat → Option Tree := fun c => if c < k then fold a Tree.ofNode c else none
    have hbelow : ∀ x y z, below x = some z → below y = some z → x = y := by
      intro x y z hx hy
      obtain ⟨hlt, hx⟩ := Option.ite_none_right_eq_some.mp hx
      obtain ⟨hlt', hy⟩ := Option.ite_none_right_eq_some.mp hy
      exact ih x hlt y hlt' z hx hy
    have hread : ∀ {i}, i < k + 1 → fold a Tree.ofNode i = some v → ∃ n r, a.nodes[i]? = some n ∧
        n.mapM (read a below) = some r ∧ Tree.ofNode r = v := by
      intro i hi hv
      have hn := List.getElem?_eq_getElem (lt_of_fold hv)
      rw [fold_node hg hn] at hv
      obtain ⟨r, hr, rfl⟩ := Option.map_eq_some_iff.mp hv
      refine ⟨_, r, hn, ?_, rfl⟩
      rw [← hr, Node.mapM_congr]
      exact (hg.backward hn).imp fun t x hx => read_congr hx .rfl fun c hc => if_pos (by omega)
    obtain ⟨n, r, hn, hr, rfl⟩ := hread hi hv
    obtain ⟨m, r', hm, hr', he⟩ := hread hj hv'
    obtain rfl := Tree.ofNode_injective he
    obtain rfl := Node.mapM_injective (read_injective hg hbelow) hr hr'
    exact (List.getElem?_inj (List.getElem?_eq_some_iff.mp hn).1 (hg.distinct .nodes)).mp
      (hn.trans hm.symm)

/-- **Two positions with one tree are one position.** -/
theorem fold_injective (hg : Good a) {i j : Nat} {v : Tree} (hi : fold a Tree.ofNode i = some v)
    (hj : fold a Tree.ofNode j = some v) : i = j :=
  fold_injective_below hg (max i j + 1) i (by omega) j (by omega) v hi hj

end Injective

end Antecedent.Expr.Full
