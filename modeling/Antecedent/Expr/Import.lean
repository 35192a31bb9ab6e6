import Antecedent.Expr.FullArena
import Antecedent.Search.Visited

/-!
# Copying an expression into another arena

Model of `CausalExprArena::import` (`lib.rs:690-798`). `Makes` says what a computation over an arena
returns: it grows the arena, and what is said of its result holds in every arena grown from there.

* `importNode_makes`: one copied node has the value of the node it copies, for every fold.
* **`import_faithful`**: a copy is the expression it copies, whenever it is made, and two calls return one
  id exactly for one content.
-/

namespace Antecedent.Expr.Full

open Core
open Worklist (visit mem_visit Reach)

/-! ## Computations that grow an arena -/

section Makes

variable {α β : Type} {a b : CausalExprArena} {m : ArenaM α} {f : α → ArenaM β} {x : α} {γ : Type}
  {t : Table}
  {xs : List γ}
  {o : Option α}
  {P P' : α → CausalExprArena → Prop} {Q : β → CausalExprArena → Prop}

/-- What holds in every arena grown from `b`. -/
def Kept (b : CausalExprArena) (P : CausalExprArena → Prop) : Prop := ∀ c, Extends b c → Good c → P c

/-- `m` runs on `a`, only grows it, and returns what has `P` from there on. -/
def Makes (m : ArenaM α) (a : CausalExprArena) (P : α → CausalExprArena → Prop) : Prop :=
  ∃ x b, m a = some (x, b) ∧ Extends a b ∧ Good b ∧ Kept b (P x)

theorem Kept.mono {P : CausalExprArena → Prop} (h : Kept a P) (hab : Extends a b) : Kept b P :=
  fun c hc => h c (hab.trans hc)

theorem Makes.pure (hg : Good a) (h : Kept a (P x)) : Makes (Pure.pure x) a P :=
  ⟨x, a, rfl, .rfl, hg, h⟩

/-- **Computations compose.** -/
theorem Makes.bind (h : Makes m a P)
    (hf : ∀ x b, Extends a b → Good b → Kept b (P x) → Makes (f x) b Q) : Makes (m >>= f) a Q := by
  obtain ⟨x, b, hm, hab, hgb, hx⟩ := h
  obtain ⟨y, c, hc, hbc, hgc, hy⟩ := hf x b hab hgb hx
  refine ⟨y, c, ?_, hab.trans hbc, hgc, hy⟩
  show (m a).bind _ = _
  rw [hm]
  exact hc

theorem Makes.some (ho : o = some x) (h : Makes (f x) a Q) :
    Makes (liftM o >>= f) a Q := by
  subst ho
  exact h

theorem Makes.lift (ho : o = Option.some x) (hg : Good a) (h : Kept a (P x)) :
    Makes (liftM o) a P := by
  subst ho
  exact .pure hg h

theorem Makes.imp (h : Makes m a P) (hP : ∀ x c, Good c → P x c → P' x c) : Makes m a P' := by
  obtain ⟨x, b, hm, hab, hgb, hx⟩ := h
  exact ⟨x, b, hm, hab, hgb, fun c hc hgc => hP x c hgc (hx c hc hgc)⟩

theorem internIn_cases [DecidableEq γ] {x y : γ} {i : Nat}
    (h : (internIn xs x).1[i]? = some y) : xs[i]? = some y ∨ i = xs.length ∧ y = x := by
  unfold internIn at h
  split_ifs at h with hx
  · exact Or.inl h
  · rcases Nat.lt_or_ge i xs.length with hi | hi
    · exact Or.inl (by rwa [List.getElem?_append_left hi] at h)
    · rw [List.getElem?_append_right hi, List.getElem?_singleton] at h
      split_ifs at h with h0
      exact Or.inr ⟨by omega, (Option.some.inj h).symm⟩

theorem internIn_nodup [DecidableEq γ] {x : γ} (h : xs.Nodup) :
    (internIn xs x).1.Nodup := by
  unfold internIn
  split_ifs with hx
  · exact h
  · exact List.nodup_append_comm.mp (List.nodup_cons.mpr ⟨hx, h⟩)

theorem Fits.mono {i : Nat} {x : Entry t} (h : Fits a i t x) (hab : Extends a b) :
    Fits b i t x := by
  cases t with
  | nodes => exact Node.All.imp (fun t y hy => hy.mono hab fun _ => id) h
  | varSets | interventions | populations | lists => exact h

/-- **Interning** an entry that fits puts it at the returned position. -/
theorem internAt_makes {x : Entry t} (hg : Good a) (hx : Fits a (a.table t).length t x) :
    Makes (internAt t x) a fun i c => (c.table t)[i]? = some x := by
  have hab : Extends a ⟨Function.update a.table t (internIn (a.table t) x).1⟩ := by
    intro t'
    by_cases ht : t' = t
    · subst ht
      simpa using internIn_extends _ x
    · simp [Function.update_of_ne ht]
  refine ⟨_, _, rfl, hab, ⟨fun t' i y h => ?_, fun t' => ?_⟩, fun c hc _ => getElem?_prefixed (hc t) ?_⟩
  · by_cases ht : t' = t
    · subst ht
      simp only [Function.update_self] at h
      rcases internIn_cases h with h | ⟨rfl, rfl⟩
      · exact (hg.fits t' i y h).mono hab
      · exact hx.mono hab
    · simp only [Function.update_of_ne ht] at h
      exact (hg.fits t' i y h).mono hab
  · by_cases ht : t' = t
    · subst ht
      simpa using internIn_nodup (hg.distinct t')
    · simpa [Function.update_of_ne ht] using hg.distinct t'
  · simpa using internIn_get (a.table t) x

end Makes

/-! ## Entries that fit -/

theorem sortDedup_pairwise (vs : List Nat) : (sortDedup vs).Pairwise (· < ·) := by
  have hle : (sortDedup vs).Pairwise (· ≤ ·) :=
    (List.pairwise_insertionSort (· ≤ ·) vs).sublist (List.dedup_sublist _)
  exact hle.imp₂ (fun _ _ => lt_of_le_of_ne) (List.nodup_dedup _)

theorem sortDedup_idem (vs : List Nat) : sortDedup (sortDedup vs) = sortDedup vs := by
  have hlt := sortDedup_pairwise vs
  show ((sortDedup vs).insertionSort (· ≤ ·)).dedup = sortDedup vs
  rw [List.Pairwise.insertionSort_eq (hlt.imp fun h => h.le)]
  exact List.Nodup.dedup (hlt.imp fun h => h.ne)

theorem mergeFrom_ok : ∀ {l : List InterventionAssignment} {last : InterventionAssignment}
    {v : List InterventionAssignment}, (last :: l).Pairwise (·.var ≤ ·.var) → mergeFrom last l = some v →
    (last :: v).Pairwise (·.var < ·.var) ∧ v ⊆ l
  | [], last, v, _, h => by
    obtain rfl := Option.some.inj h
    simp
  | a :: l, last, v, hs, h => by
    obtain ⟨hlast, hs⟩ := List.pairwise_cons.mp hs
    obtain ⟨ha, htail⟩ := List.pairwise_cons.mp hs
    unfold mergeFrom at h
    split_ifs at h with heq hval
    · obtain ⟨hv, hsub⟩ := mergeFrom_ok (List.pairwise_cons.mpr
        ⟨fun b hb => hlast b (List.mem_cons_of_mem a hb), htail⟩) h
      exact ⟨hv, fun b hb => List.mem_cons_of_mem a (hsub hb)⟩
    · obtain ⟨w, hw, rfl⟩ := Option.map_eq_some_iff.mp h
      obtain ⟨hv, hsub⟩ := mergeFrom_ok hs hw
      have hlt : last.var < a.var := lt_of_le_of_ne (hlast a List.mem_cons_self) heq
      refine ⟨List.pairwise_cons.mpr ⟨fun b hb => ?_, hv⟩, List.cons_subset_cons a hsub⟩
      rcases List.mem_cons.mp hb with rfl | hb
      · exact hlt
      · exact hlt.trans ((List.pairwise_cons.mp hv).1 b hb)

theorem mergeAssignments_ok {l v : List InterventionAssignment} (h : mergeAssignments l = some v) :
    v.Pairwise (·.var < ·.var) := by
  have hs := List.pairwise_insertionSort (fun a b : InterventionAssignment => a.var ≤ b.var) l
  unfold mergeAssignments at h
  split at h
  · obtain rfl := Option.some.inj h
    exact List.Pairwise.nil
  · rename_i a rest he
    rw [he] at hs
    obtain ⟨w, hw, rfl⟩ := Option.map_eq_some_iff.mp h
    exact (mergeFrom_ok hs hw).1

theorem mergeFrom_apart : ∀ {l : List InterventionAssignment} {last : InterventionAssignment},
    (last :: l).Pairwise (·.var < ·.var) → mergeFrom last l = some l
  | [], _, _ => rfl
  | a :: l, last, hs => by
    obtain ⟨hlast, hs⟩ := List.pairwise_cons.mp hs
    rw [mergeFrom, if_neg (hlast a List.mem_cons_self).ne, mergeFrom_apart hs]
    rfl

theorem mergeAssignments_apart {l : List InterventionAssignment} (h : l.Pairwise (·.var < ·.var)) :
    mergeAssignments l = some l := by
  unfold mergeAssignments
  rw [(h.imp fun h => h.le : l.Pairwise fun a b => a.var ≤ b.var).insertionSort_eq]
  cases l with
  | nil => rfl
  | cons a l => simp only [mergeFrom_apart h, Option.map_some]

/-! ## Copying -/

/-- A reference of a node of `source`, interned; `remap` has the copies of its children. -/
def copy (source : CausalExprArena) (remap : Nat → Option Nat) : ∀ _ : Table, Nat → ArenaM Nat
  | .varSets, i => do
    let vars ← (source.table .varSets)[i]?
    internVarSet vars
  | .interventions, i => do
    let assignments ← (source.table .interventions)[i]?
    internInterventionAssignments assignments
  | .populations, i => do
    let key ← (source.table .populations)[i]?
    internPopulation key
  | .lists, i => do
    let exprs ← (source.table .lists)[i]?
    let copies ← (List.mapM remap exprs : Option (List Nat))
    internList copies
  | .nodes, i => liftM (remap i)

/-- The turn of `import` at one node. -/
def importNode (source : CausalExprArena) (remap : Nat → Option Nat) (id : Nat) : ArenaM Nat := do
  let node ← source.nodes[id]?
  let copied ← Node.mapM (copy source remap) node
  intern copied

/-- The copy of one more node, noted. -/
def importStep (source : CausalExprArena) (remap : Nat → Option Nat) (id : Nat) :
    ArenaM (Nat → Option Nat) := do
  let new ← importNode source remap id
  return Function.update remap id (some new)

/-- `children_of`, of a node. -/
def childrenOf (a : CausalExprArena) : ExprNode → List Nat
  | .distribution .. => []
  | .kernel body .. => [body]
  | .product l => ((a.table .lists)[l]?).getD []
  | .sumOut _ e | .integralOut _ e | .expectation _ e => [e]
  | .ratio n d => [n, d]
  | .contrast l r _ => [l, r]

def childrenAt (a : CausalExprArena) (id : Nat) : List Nat := (a.nodes[id]?).elim [] (childrenOf a)

/-- The `BTreeSet` of `import`. Its loop is `Worklist.visit`, with more steps than it takes. -/
def reachable (a : CausalExprArena) (root : Nat) : List Nat :=
  sortDedup <| visit (childrenAt a)
    (2 + ((List.range a.nodes.length).map fun i => (childrenAt a i).length).sum) [root] []

/-- `import`. -/
def importRoot (source : CausalExprArena) (root : Nat) : ArenaM Nat := do
  let remap ← (reachable source root).foldlM (importStep source) fun _ => none
  liftM (remap root)

section Copy

variable {source b : CausalExprArena} {remap : Nat → Option Nat} {P : Nat → Prop} {t : Table} {x id : Nat}

/-- Position `j` has the value of position `x` of `source`, for every fold. -/
def Copies (source : CausalExprArena) (x : Nat) (j : Nat) (d : CausalExprArena) : Prop :=
  ∀ (β : Type) (step : NodeOf (Content β) → β), fold d step j = fold source step x

/-- A reference that reads as one of `source` does, for every fold. -/
def SameRef (source : CausalExprArena) (t : Table) (x : Nat) (y : Nat) (d : CausalExprArena) : Prop :=
  ∀ (β : Type) (step : NodeOf (Content β) → β),
    read d (fold d step) t y = read source (fold source step) t x

/-- The copies that `remap` has of the positions with `P`. -/
def Remaps (source : CausalExprArena) (remap : Nat → Option Nat) (P : Nat → Prop) (d : CausalExprArena) :
    Prop :=
  ∀ c, P c → ∃ j, remap c = some j ∧ Kept d (Copies source c j)

theorem Remaps.mono (h : Remaps source remap P b) {c : CausalExprArena} (hbc : Extends b c) :
    Remaps source remap P c := fun x hx =>
  let ⟨j, hj, hk⟩ := h x hx
  ⟨j, hj, hk.mono hbc⟩

theorem mapM_remap (h : Remaps source remap P b) : ∀ {ids : List Nat}, (∀ c ∈ ids, P c) →
    ∃ copies, ids.mapM remap = some copies ∧ Kept b fun d =>
      ∀ (β : Type) (step : NodeOf (Content β) → β), copies.mapM (fold d step) = ids.mapM (fold source step)
  | [], _ => ⟨[], rfl, fun _ _ _ _ _ => rfl⟩
  | c :: ids, hids => by
    obtain ⟨hc, hids⟩ := List.forall_mem_cons.mp hids
    obtain ⟨j, hj, hk⟩ := h c hc
    obtain ⟨copies, hcopies, hks⟩ := mapM_remap h hids
    refine ⟨j :: copies, by simp [hj, hcopies], fun d hd hg β step => ?_⟩
    rw [List.mapM_cons, List.mapM_cons, hk d hd hg β step, hks d hd hg β step]

variable (hs : Good source) (hg : Good b) {n : ExprNode}

include hs hg

/-- **One reference.** -/
theorem copy_makes (hx : InPlace source P t x) (hr : Remaps source remap P b) :
    Makes (copy source remap t x) b (SameRef source t x) := by
  cases t with
  | varSets =>
    obtain ⟨vars, hv⟩ : ∃ vars : List Nat, (source.table .varSets)[x]? = some vars :=
      ⟨_, List.getElem?_eq_getElem hx⟩
    have hfit : sortDedup vars = vars := hs.fits .varSets x vars hv
    refine .some hv ?_
    show Makes (internAt .varSets (sortDedup vars)) b _
    rw [hfit]
    exact (internAt_makes (t := .varSets) hg hfit).imp fun y d _ hy β step => hy.trans hv.symm
  | interventions =>
    obtain ⟨assignments, hv⟩ : ∃ l : List InterventionAssignment,
        (source.table .interventions)[x]? = some l := ⟨_, List.getElem?_eq_getElem hx⟩
    have hfit : assignments.Pairwise (·.var < ·.var) := hs.fits .interventions x assignments hv
    refine .some hv (.some (mergeAssignments_apart hfit) ?_)
    exact (internAt_makes (t := .interventions) hg hfit).imp fun y d _ hy β step => hy.trans hv.symm
  | populations =>
    have hv := List.getElem?_eq_getElem hx
    exact .some hv
      ((internAt_makes (t := .populations) hg trivial).imp fun y d _ hy β step => hy.trans hv.symm)
  | lists =>
    obtain ⟨ids, hl, hids⟩ := hx
    obtain ⟨copies, hcopies, hk⟩ := mapM_remap hr hids
    refine .some hl (.some hcopies ?_)
    obtain ⟨y, c, hm, hbc, hgc, hy⟩ := internAt_makes (t := .lists) (x := copies) hg trivial
    refine ⟨y, c, hm, hbc, hgc, fun d hd hgd β step => ?_⟩
    simp only [read, hl, hy d hd hgd]
    exact hk d (hbc.trans hd) hgd β step
  | nodes =>
    obtain ⟨j, hj, hk⟩ := hr x hx
    exact .lift hj hg hk

theorem mapM_copy_makes (hr : Remaps source remap P b)
    (hn : n.All (InPlace source P)) : Makes (Node.mapM (copy source remap) n) b fun n' d =>
      ∀ (β : Type) (step : NodeOf (Content β) → β),
        Node.mapM (read d (fold d step)) n' = Node.mapM (read source (fold source step)) n := by
  have hcopy : ∀ {c : CausalExprArena} {t x}, Extends b c → Good c → InPlace source P t x →
      Makes (copy source remap t x) c (SameRef source t x) :=
    fun hbc hgc hx => copy_makes hs hgc hx (hr.mono hbc)
  cases n with
  | distribution v c i dom p r =>
    obtain ⟨hv, hc, hi, hp⟩ := hn
    refine (hcopy .rfl hg hv).bind fun v' b₁ h₁ hg₁ hv' => ?_
    refine (hcopy h₁ hg₁ hc).bind fun c' b₂ h₂ hg₂ hc' => ?_
    refine (hcopy (h₁.trans h₂) hg₂ hi).bind fun i' b₃ h₃ hg₃ hi' => ?_
    refine (hcopy ((h₁.trans h₂).trans h₃) hg₃ hp).bind fun p' b₄ h₄ hg₄ hp' => ?_
    refine .pure hg₄ fun d hd hgd β step => ?_
    have h₃₄ := h₄.trans hd
    simp only [Node.mapM, hv' d (h₂.trans (h₃.trans h₃₄)) hgd β step, hc' d (h₃.trans h₃₄) hgd β step,
      hi' d h₃₄ hgd β step, hp' d hd hgd β step]
  | kernel e v p r =>
    obtain ⟨he, hv, hp⟩ := hn
    refine (hcopy .rfl hg he).bind fun e' b₁ h₁ hg₁ he' => ?_
    refine (hcopy h₁ hg₁ hv).bind fun v' b₂ h₂ hg₂ hv' => ?_
    refine (hcopy (h₁.trans h₂) hg₂ hp).bind fun p' b₃ h₃ hg₃ hp' => ?_
    refine .pure hg₃ fun d hd hgd β step => ?_
    simp only [Node.mapM, he' d (h₂.trans (h₃.trans hd)) hgd β step, hv' d (h₃.trans hd) hgd β step,
      hp' d hd hgd β step]
  | product l =>
    refine (hcopy (t := .lists) .rfl hg hn).bind fun l' b₁ _ hg₁ hl' => .pure hg₁ fun d hd hgd β step => ?_
    simp only [Node.mapM, hl' d hd hgd β step]
  | expectation y e =>
    refine (hcopy (t := .nodes) .rfl hg hn).bind fun e' b₁ _ hg₁ he' => .pure hg₁ fun d hd hgd β step => ?_
    simp only [Node.mapM, he' d hd hgd β step]
  | sumOut x y | integralOut x y | ratio x y | contrast x y =>
    obtain ⟨hx, hy⟩ := hn
    refine (hcopy .rfl hg hx).bind fun x' b₁ h₁ hg₁ hx' => ?_
    refine (hcopy h₁ hg₁ hy).bind fun y' b₂ h₂ hg₂ hy' => .pure hg₂ fun d hd hgd β step => ?_
    simp only [Node.mapM, hx' d (h₂.trans hd) hgd β step, hy' d hd hgd β step]

/-- **One node.** -/
theorem importNode_makes (hr : Remaps source remap P b)
    (hid : source.nodes[id]? = some n) (hn : n.All (InPlace source P)) :
    Makes (importNode source remap id) b (Copies source id) := by
  refine .some hid ((mapM_copy_makes hs hg hr hn).bind fun n' c hbc hgc hsame => ?_)
  have hfit : Node.All (InPlace c (· < c.nodes.length)) n' := by
    obtain ⟨v, hv⟩ := fold_some (s := fun _ => ()) hs (List.getElem?_eq_some_iff.mp hid).1
    rw [fold_node hs hid, ← hsame c .rfl hgc] at hv
    obtain ⟨r, hr, -⟩ := Option.map_eq_some_iff.mp hv
    exact (Node.mapM_all.mp ⟨r, hr⟩).imp fun t x hx =>
      (read_some.mp hx).mono .rfl fun e ⟨_, he⟩ => lt_of_fold he
  obtain ⟨j, d, hm, hcd, hgd, hj⟩ := internAt_makes (t := .nodes) (x := n') hgc hfit
  refine ⟨j, d, hm, hcd, hgd, fun e he hge β step => ?_⟩
  rw [fold_node hs hid, fold_node hge (hj e he hge), hsame e (hcd.trans he) hge]

end Copy

/-! ## The nodes below a root -/

section Reach

variable {a : CausalExprArena} {n : ExprNode} {P : Nat → Prop}

theorem childrenOf_inPlace (h : n.All (InPlace a P)) : ∀ c ∈ childrenOf a n, P c := by
  cases n with
  | product l =>
    obtain ⟨ids, hl, hids⟩ := h
    intro c hc
    simp only [childrenOf, hl] at hc
    exact hids c hc
  | _ => simp_all [childrenOf, Node.All, InPlace]

theorem inPlace_childrenOf (h : n.All (InPlace a P)) : n.All (InPlace a (· ∈ childrenOf a n)) := by
  cases n with
  | product l =>
    obtain ⟨ids, hl, -⟩ := h
    refine ⟨ids, hl, fun c hc => ?_⟩
    simp only [childrenOf, hl]
    exact hc
  | _ => simp_all [childrenOf, Node.All, InPlace]

theorem mem_reachable {root v : Nat} : v ∈ reachable a root ↔ Reach (childrenAt a) root v := by
  rw [reachable, mem_sortDedup]
  refine mem_visit (U := List.range a.nodes.length) (fun u hu => ?_) (by omega)
  rw [childrenAt, List.getElem?_eq_none (by simpa using hu)]
  rfl

/-- **What `import` goes over**: nodes of the arena, with all their children. -/
theorem reachable_closed (hg : Good a) {root id : Nat} (hroot : root < a.nodes.length)
    (hid : id ∈ reachable a root) :
    ∃ n, a.nodes[id]? = some n ∧ ∀ c ∈ childrenOf a n, c ∈ reachable a root := by
  have hat : ∀ {v}, v < a.nodes.length → ∃ n, a.nodes[v]? = some n ∧ childrenAt a v = childrenOf a n :=
    fun hv => ⟨_, List.getElem?_eq_getElem hv, by rw [childrenAt, List.getElem?_eq_getElem hv]; rfl⟩
  have hr := mem_reachable.mp hid
  have hlt : id < a.nodes.length := by
    clear hid
    induction hr with
    | refl => exact hroot
    | tail _ hbc ih =>
      obtain ⟨n, hn, he⟩ := hat ih
      exact (childrenOf_inPlace (hg.backward hn) _ (he ▸ hbc)).trans ih
  obtain ⟨n, hn, he⟩ := hat hlt
  exact ⟨n, hn, fun c hc => mem_reachable.mpr (hr.tail (he ▸ hc))⟩

end Reach

/-! ## The whole copy -/

section Import

variable {source b : CausalExprArena} {root : Nat}

theorem importAll_makes (hs : Good source) {ids : List Nat} (hsorted : ids.Pairwise (· < ·))
    (hids : ∀ id ∈ ids, ∃ n, source.nodes[id]? = some n ∧ ∀ c ∈ childrenOf source n, c ∈ ids) :
    ∀ (rest done : List Nat) (remap : Nat → Option Nat) (b : CausalExprArena), Good b →
      ids = done ++ rest → Remaps source remap (· ∈ done) b →
      Makes (rest.foldlM (importStep source) remap) b fun remap d => Remaps source remap (· ∈ ids) d
  | [], done, remap, b, hg, hsplit, hr =>
    .pure hg fun d hd _ c hc => hr.mono hd c (by rwa [hsplit, List.append_nil] at hc)
  | id :: rest, done, remap, b, hg, hsplit, hr => by
    obtain ⟨n, hn, hc⟩ := hids id (by simp [hsplit])
    have hdone : n.All (InPlace source (· ∈ done)) := by
      refine (inPlace_childrenOf (hs.backward hn)).imp fun t x hx => hx.mono .rfl fun c h => ?_
      have hlt := childrenOf_inPlace (hs.backward hn) c h
      rcases List.mem_append.mp (hsplit ▸ hc c h) with h | h
      · exact h
      · rcases List.mem_cons.mp h with rfl | h
        · exact absurd hlt (Nat.lt_irrefl _)
        · have := (List.pairwise_cons.mp (List.pairwise_append.mp (hsplit ▸ hsorted)).2.1).1 c h
          omega
    rw [List.foldlM_cons]
    have hstep : Makes (importStep source remap id) b fun remap' d =>
        Remaps source remap' (· ∈ done ++ [id]) d := by
      refine (importNode_makes hs hg hr hn hdone).bind fun j c hbc hgc hj => .pure hgc fun d hd _ x hx => ?_
      by_cases hxid : x = id
      · subst hxid
        exact ⟨j, Function.update_self .., hj.mono hd⟩
      · rw [Function.update_of_ne hxid]
        exact hr.mono (hbc.trans hd) x (by simpa [hxid] using hx)
    refine hstep.bind fun remap' c _ hgc hr' => ?_
    exact importAll_makes hs hsorted hids rest (done ++ [id]) remap' c hgc (by simpa using hsplit)
      (hr' c .rfl hgc)

/-- **The copy of a root has its value**, for every fold. -/
theorem importRoot_makes (hs : Good source) (hroot : root < source.nodes.length) (hg : Good b) :
    Makes (importRoot source root) b (Copies source root) := by
  refine (importAll_makes hs (sortDedup_pairwise _) (fun id hid => reachable_closed hs hroot hid) _ [] _ b
    hg rfl fun _ h => absurd h List.not_mem_nil).bind fun remap c _ hgc hr => ?_
  obtain ⟨j, hj, hk⟩ := hr c .rfl hgc root (mem_reachable.mpr .refl)
  exact .lift hj hgc hk

end Import

/-! ## What is built -/

/-- The calls of the operations that intern. -/
inductive Call : Table → Type
  | varSet (vars : List Nat) : Call .varSets
  | interventions (assignments : List InterventionAssignment) : Call .interventions
  | population (key : String) : Call .populations
  | list (exprs : List Nat) : Call .lists
  | node (node : ExprNode) : Call .nodes

namespace Call

variable {t : Table}

def run : Call t → ArenaM Nat
  | varSet vars => internVarSet vars
  | interventions assignments => internInterventionAssignments assignments
  | population key => internPopulation key
  | list exprs => internList exprs
  | node n => intern n

/-- The ids that are passed are ids of the arena. -/
def Valid (a : CausalExprArena) : Call t → Prop
  | list exprs => ∀ e ∈ exprs, e < a.nodes.length
  | node n => n.All (InPlace a (· < a.nodes.length))
  | varSet _ | interventions _ | population _ => True

def entry : Call t → Option (Entry t)
  | varSet vars => some (sortDedup vars)
  | interventions assignments => mergeAssignments assignments
  | population key => some key
  | list exprs => some exprs
  | node n => some n

end Call

def resolve (a : CausalExprArena) : ∀ t, Entry t → Option (Content Tree t)
  | .varSets, s => some s
  | .interventions, s => some s
  | .populations, s => some s
  | .lists, (ids : List Nat) => ids.mapM (fold a Tree.ofNode)
  | .nodes, (n : ExprNode) => (n.mapM (read a (fold a Tree.ofNode))).map Tree.ofNode

def Call.content {t : Table} (a : CausalExprArena) (c : Call t) : Option (Content Tree t) :=
  c.entry.bind (resolve a t)

/-- The arenas that the operations build. -/
inductive Built : CausalExprArena → Prop
  | new : Built .new
  | call {a b : CausalExprArena} {t : Table} {c : Call t} {id : Nat} : Built a → c.Valid a →
      c.run a = some (id, b) → Built b
  | copy {a b source : CausalExprArena} {root id : Nat} : Built a → Built source →
      root < source.nodes.length → importRoot source root a = some (id, b) → Built b

section Built

variable {a b : CausalExprArena} {t : Table} {c : Call t} {x : Entry t}

theorem Call.run_eq (c : Call t) : c.run = (do
    let x ← c.entry
    internAt t x) := by
  cases c <;> rfl

theorem Call.entry_fits (hv : c.Valid a) (hx : c.entry = some x) :
    Fits a (a.table t).length t x := by
  cases c with
  | varSet vars =>
    obtain rfl := Option.some.inj hx
    exact sortDedup_idem vars
  | interventions assignments => exact mergeAssignments_ok hx
  | population key => trivial
  | list exprs => trivial
  | node n =>
    obtain rfl := Option.some.inj hx
    exact hv

theorem Call.run_ok {i : Nat} (hg : Good a) (hv : c.Valid a) (h : c.run a = some (i, b)) :
    ∃ x, c.entry = some x ∧ Extends a b ∧ Good b ∧ Kept b fun d => (d.table t)[i]? = some x := by
  rw [Call.run_eq] at h
  cases hx : c.entry with
  | none =>
    rw [hx] at h
    cases h
  | some x =>
    obtain ⟨j, d, hm, had, hgd, hj⟩ := internAt_makes hg (c.entry_fits hv hx)
    rw [hx] at h
    obtain ⟨rfl, rfl⟩ := Prod.ext_iff.mp (Option.some.inj (hm.symm.trans h))
    exact ⟨x, rfl, had, hgd, hj⟩

theorem Built.good (h : Built a) : Good a := by
  induction h with
  | new => exact ⟨fun t i x h => by simp [CausalExprArena.new] at h, fun t => List.nodup_nil⟩
  | call _ hv hr ih =>
    obtain ⟨_, -, -, hg, -⟩ := Call.run_ok ih hv hr
    exact hg
  | copy _ _ hroot hr iha ihs =>
    obtain ⟨j, d, hm, -, hg, -⟩ := importRoot_makes ihs hroot iha
    obtain ⟨-, rfl⟩ := Prod.ext_iff.mp (Option.some.inj (hm.symm.trans hr))
    exact hg

/-- A call that is valid in `a` has a content, which a growing arena does not change. -/
theorem Call.resolve_extends (ha : Good a) (hb : Good b) (hab : Extends a b)
    (hv : c.Valid a) (hx : c.entry = some x) : ∃ z, resolve a t x = some z ∧ resolve b t x = some z := by
  cases c with
  | varSet | interventions | population => exact ⟨x, rfl, rfl⟩
  | list exprs =>
    obtain rfl := Option.some.inj hx
    obtain ⟨z, hz⟩ := mapM_some.mpr fun e he => fold_some (s := Tree.ofNode) ha (hv e he)
    exact ⟨z, hz, (mapM_congr fun e he => fold_extends ha hb hab (hv e he)).trans hz⟩
  | node n =>
    obtain rfl := Option.some.inj hx
    have hall : n.All fun t x => ∃ y, read a (fold a Tree.ofNode) t x = some y :=
      Node.All.imp (fun t x hx => read_some.mpr (hx.mono .rfl fun _ => fold_some ha)) hv
    obtain ⟨r, hr⟩ := Node.mapM_all.mpr hall
    refine ⟨Tree.ofNode r, congrArg (Option.map Tree.ofNode) hr, ?_⟩
    have hsame : n.mapM (read b (fold b Tree.ofNode)) = n.mapM (read a (fold a Tree.ofNode)) :=
      Node.mapM_congr (Node.All.imp (fun t x hx => read_congr hx hab fun _ => fold_extends ha hb hab) hv)
    exact congrArg (Option.map Tree.ofNode) (hsame.trans hr)

theorem resolve_injective (hg : Good a) {x y : Entry t} {z : Content Tree t} (hx : resolve a t x = some z)
    (hy : resolve a t y = some z) : x = y := by
  have hinj : ∀ i j v, fold a Tree.ofNode i = some v → fold a Tree.ofNode j = some v → i = j :=
    fun _ _ _ hi hj => fold_injective hg hi hj
  cases t with
  | varSets | interventions | populations => exact (Option.some.inj hx).trans (Option.some.inj hy).symm
  | lists => exact mapM_injective hinj hx hy
  | nodes =>
    obtain ⟨r, hr, rfl⟩ := Option.map_eq_some_iff.mp hx
    obtain ⟨r', hr', he⟩ := Option.map_eq_some_iff.mp hy
    obtain rfl := Tree.ofNode_injective he
    exact Node.mapM_injective (read_injective hg hinj) hr hr'

/-- **Two calls return one id exactly for one content**, the second on any arena grown from the first. -/
theorem Call.id_eq_iff {a' b' : CausalExprArena} {x y : Call t} {i j : Nat} (ha : Good a) (hv : x.Valid a)
    (hx : x.run a = some (i, a')) (hb : Good b) (hab : Extends a' b) (hw : y.Valid b)
    (hy : y.run b = some (j, b')) : i = j ↔ x.content a = y.content b := by
  obtain ⟨ex, hex, haa, -, hi⟩ := Call.run_ok ha hv hx
  obtain ⟨ey, hey, hbb, hgb, hj⟩ := Call.run_ok hb hw hy
  have hi := hi b' (hab.trans hbb) hgb
  have hj := hj b' .rfl hgb
  obtain ⟨z, hz, hz'⟩ := Call.resolve_extends ha hgb (haa.trans (hab.trans hbb)) hv hex
  obtain ⟨w, hw, hw'⟩ := Call.resolve_extends hb hgb hbb hw hey
  have hcx : x.content a = some z := by rw [Call.content, hex, Option.bind_some, hz]
  have hcy : y.content b = some w := by rw [Call.content, hey, Option.bind_some, hw]
  rw [hcx, hcy]
  constructor
  · rintro rfl
    obtain rfl := Option.some.inj (hi.symm.trans hj)
    exact hz'.symm.trans hw'
  · intro h
    obtain rfl := Option.some.inj h
    obtain rfl := resolve_injective hgb hz' hw'
    exact (List.getElem?_inj (List.getElem?_eq_some_iff.mp hi).1 (hgb.distinct t)).mp (hi.trans hj.symm)

end Built

/-! ## What a copy keeps -/

/-- `free_var_step` (`simplify.rs:372-419`). -/
def freeVarStep (node : NodeOf (Content (List Nat))) : List Nat :=
  sortDedup <| match node with
    | .distribution (v : List Nat) (c : List Nat) (i : List InterventionAssignment) _ _ _ =>
      v ++ (c.filter fun x => ¬ i.any fun a => a.var = x ∧ ¬ isSymbolic a) ++
        (i.filter isSymbolic).map (·.var)
    | .kernel e _ _ _ => e
    | .product (l : List (List Nat)) => l.flatten
    | .sumOut (v : List Nat) (e : List Nat) | .integralOut (v : List Nat) (e : List Nat) =>
      e.filter (· ∉ v)
    | .ratio (n : List Nat) (d : List Nat) | .contrast (n : List Nat) (d : List Nat) _ => n ++ d
    | .expectation y (e : List Nat) => e.filter (· ≠ y)

/-- `free_variables`. -/
def freeVariables (a : CausalExprArena) (id : Nat) : Option (List Nat) := fold a freeVarStep id

/-- The leaves of a node, in the order of the walk. -/
def leafStep : NodeOf (Content (List Leaf)) → List Leaf
  | .distribution v c i d p r => [⟨v, c, i, d, p, r⟩]
  | .product (l : List (List Leaf)) => l.flatten
  | .kernel e _ _ _ | .sumOut _ e | .integralOut _ e | .expectation _ e => e
  | .ratio (n : List Leaf) (d : List Leaf) | .contrast (n : List Leaf) (d : List Leaf) _ => n ++ d

/-- `leaf_signatures` (`scope.rs:110-139`): each leaf where the walk first meets it; equal leaves are one
node. -/
def leafSignatures (a : CausalExprArena) (id : Nat) : Option (List Leaf) :=
  (fold a leafStep id).map List.eraseDups

/-- **Import and interning are faithful.** The copy of a root into any arena has the tree of the root and,
with it, the value of every fold, as the free variables, the leaf signatures and an evaluation are; a copy
made later has the same id. Two calls return one id exactly for one content. -/
theorem import_faithful {source a : CausalExprArena} (hs : Built source) (ha : Built a) {root : Nat}
    (hroot : root < source.nodes.length) :
    (∃ id b, importRoot source root a = some (id, b) ∧ Built b ∧ Extends a b ∧
      (∃ tree, fold source Tree.ofNode root = some tree ∧ fold b Tree.ofNode id = some tree) ∧
      freeVariables b id = freeVariables source root ∧ leafSignatures b id = leafSignatures source root ∧
      (∀ (β : Type) (step : NodeOf (Content β) → β), fold b step id = fold source step root) ∧
      ∀ c, Built c → Extends b c → ∃ d, importRoot source root c = some (id, d)) ∧
    ∀ {t : Table} (x y : Call t) {i j : Nat} {a' b b' : CausalExprArena}, x.Valid a →
      x.run a = some (i, a') → Built b → Extends a' b → y.Valid b → y.run b = some (j, b') →
      (i = j ↔ x.content a = y.content b) := by
  refine ⟨?_, fun x y i j a' b b' hv hx hb hab hw hy => Call.id_eq_iff ha.good hv hx hb.good hab hw hy⟩
  obtain ⟨id, b, hm, hab, hgb, hk⟩ := importRoot_makes hs.good hroot ha.good
  obtain ⟨tree, htree⟩ := fold_some (s := Tree.ofNode) hs.good hroot
  have hsame := hk b .rfl hgb
  refine ⟨id, b, hm, .copy ha hs hroot hm, hab, ⟨tree, htree, (hsame Tree _).trans htree⟩,
    hsame _ _, congrArg _ (hsame _ _), hsame, fun c hc hbc => ?_⟩
  obtain ⟨j, d, hm', hcd, hgd, hk'⟩ := importRoot_makes hs.good hroot hc.good
  -- the two copies have one tree, in an arena where no two positions have
  have hj : fold d Tree.ofNode j = some tree := (hk' d .rfl hgd Tree _).trans htree
  have hid : fold d Tree.ofNode id = some tree := (hk d (hbc.trans hcd) hgd Tree _).trans htree
  obtain rfl := fold_injective hgd hid hj
  exact ⟨d, hm'⟩

/-- One observational factor, copied into an empty arena. -/
theorem import_faithful_leaf : ∃ source, Built source ∧ ∃ id b, importRoot source 0 .new = some (id, b) ∧
    leafSignatures b id = leafSignatures source 0 := by
  have hs := Built.call (c := .node (.distribution 0 0 0 .observational 0 none))
    (.call (c := .interventions []) (.call (c := .varSet [3]) (.call (c := .population "") .new trivial rfl)
      trivial rfl) trivial rfl)
    ⟨Nat.zero_lt_one, Nat.zero_lt_one, Nat.zero_lt_one, Nat.zero_lt_one⟩ rfl
  obtain ⟨⟨id, b, hm, -, -, -, -, hl, -⟩, -⟩ := @import_faithful _ _ hs .new 0 Nat.zero_lt_one
  exact ⟨_, hs, id, b, hm, hl⟩

end Antecedent.Expr.Full
