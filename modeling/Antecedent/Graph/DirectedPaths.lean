import Antecedent.Core.Search
import Antecedent.Dag.Basic
import Antecedent.Graph.Admg
import Antecedent.Search.OrderedPaths

/-!
# Directed paths within a budget

Model of `Dag::directed_paths_with_budget` (`dag.rs:375-451`) with `ancestors_mask` and
`longest_path_nodes_avoiding` (`dag.rs:272-316`), and of the enumeration the tests keep as an oracle
(`reference_paths`, `dag.rs:505-545`). `on_path` is the nodes of the frames; the loops carry fuel.

* `best_spec`: the longest-path pass bounds every path that avoids the target.
* `dfs_spec`: what is listed and what is still to list is a sublist of all paths, and all of them
  while no path is cut.
* **`directedPathsWithBudget_correct`**: the paths are distinct and within the bounds; without the
  truncation flag they are all paths, in the order of the oracle.
-/

namespace Antecedent.Graph

open Core Relation
open OrderedPaths
open SimplePaths
open Worklist

/-- The states of `longest_path_nodes_avoiding`: 0, 1 and 2. -/
inductive Visit
  | unvisited
  | onStack
  | finished
  deriving DecidableEq

namespace Dag

/-- `Dag::ancestors_mask` (`dag.rs:272-284`); the first turn pops `dst`. -/
def ancestorsMask (g : Dag) (dst : Nat) : Finset Nat :=
  closure g.parents (g.nodeCount + 1) (g.parents dst)

/-- The loop of `longest_path_nodes_avoiding`: the stack holds a node and its next child. -/
def longestLoop (g : Dag) (avoid : Nat) :
    Nat → List (Nat × Nat) → (Nat → Visit) → (Nat → Nat) → Nat → Nat
  | 0, _, _, best => best
  | _ + 1, [], _, best => best
  | fuel + 1, (v, next) :: rest, state, best =>
    match (g.children v)[next]? with
    | some c =>
      if c ≠ avoid ∧ state c = .unvisited then
        g.longestLoop avoid fuel ((c, 0) :: (v, next + 1) :: rest)
          (Function.update state c .onStack) best
      else g.longestLoop avoid fuel ((v, next + 1) :: rest) state best
    | none =>
      let deepest := (((g.children v).filter fun c => c ≠ avoid ∧ state c = .finished).map
        best).max?.getD 0
      g.longestLoop avoid fuel rest (Function.update state v .finished)
        (Function.update best v (deepest + 1))

/-- Lines 286-316. -/
def longestPathNodesAvoiding (g : Dag) (src avoid : Nat) : Nat :=
  g.longestLoop avoid (g.nodeCount * (g.nodeCount + 2) + 1) [(src, 0)]
    (Function.update (fun _ => .unvisited) src .onStack) (fun _ => 0) src

/-- The loop `'dfs` (`dag.rs:412-448`): each frame holds a node of the path and its cursor. -/
def pathsLoop (g : Dag) (dst maxPaths maxLen visitBudget : Nat) (live : Finset Nat) :
    Nat → Frames Nat → List (List Nat) → Nat → Bool → List (List Nat) × Bool
  | 0, _, out, _, truncated => (out, truncated)
  | _ + 1, [], out, _, truncated => (out, truncated)
  | fuel + 1, (_, 0) :: rest, out, visits, truncated =>
    g.pathsLoop dst maxPaths maxLen visitBudget live fuel rest out visits truncated
  | fuel + 1, (last, c + 1) :: rest, out, visits, truncated =>
    match (g.children last)[c]? with
    | none => g.pathsLoop dst maxPaths maxLen visitBudget live fuel ((last, c) :: rest) out visits
        truncated
    | some child =>
      if maxPaths ≤ out.length then (out, true)
      else if (last :: rest.map Prod.fst).contains child then
        g.pathsLoop dst maxPaths maxLen visitBudget live fuel ((last, c) :: rest) out visits truncated
      else if child = dst then
        g.pathsLoop dst maxPaths maxLen visitBudget live fuel ((last, c) :: rest)
          (out ++ [pathOf ((last, c) :: rest) ++ [child]]) visits truncated
      else if child ∉ live ∨ maxLen ≤ rest.length + 2 then
        g.pathsLoop dst maxPaths maxLen visitBudget live fuel ((last, c) :: rest) out visits truncated
      else if visitBudget < visits + 1 then (out, true)
      else
        g.pathsLoop dst maxPaths maxLen visitBudget live fuel
          ((child, (g.children child).length) :: (last, c) :: rest) out (visits + 1) truncated

/-- Lines 375-451. -/
def directedPathsWithBudget (g : Dag) (src dst maxPaths maxLen : Nat) :
    Except GraphError (List (List Nat) × Bool) := do
  g.validateNode src
  g.validateNode dst
  if maxPaths = 0 ∨ maxLen = 0 then return ([], true)
  if src = dst then return ([[src]], false)
  if maxLen = 1 then return ([], true)
  let live := g.ancestorsMask dst
  let truncated := decide (maxLen ≤ g.longestPathNodesAvoiding src dst)
  let visitBudget := satMul (satMul maxPaths maxLen) 16
  return g.pathsLoop dst maxPaths maxLen visitBudget live
    ((g.nodeCount + 2) ^ (g.nodeCount + 1) + 1) [(src, (g.children src).length)] [] 0 truncated

/-- The loop of `reference_paths`, with partial paths on the stack, top first. -/
def referenceLoop (g : Dag) (dst maxPaths maxLen : Nat) :
    Nat → List (List Nat) → List (List Nat) → Bool → List (List Nat) × Bool
  | 0, _, out, truncated => (out, truncated)
  | _ + 1, [], out, truncated => (out, truncated)
  | fuel + 1, path :: stack, out, truncated =>
    if maxPaths ≤ out.length then (out, true)
    else
      match path.getLast? with
      | none => (out, truncated)
      | some last =>
        if last = dst then g.referenceLoop dst maxPaths maxLen fuel stack (out ++ [path]) truncated
        else if maxLen ≤ path.length then
          g.referenceLoop dst maxPaths maxLen fuel stack out true
        else
          g.referenceLoop dst maxPaths maxLen fuel
            (((g.children last).filter fun c => !path.contains c).foldl
              (fun stack c => (path ++ [c]) :: stack) stack) out truncated

/-- `reference_paths` (`dag.rs:505-545`), the unpruned depth-first enumeration. -/
def referencePaths (g : Dag) (src dst maxPaths maxLen : Nat) : List (List Nat) × Bool :=
  if maxPaths = 0 ∨ maxLen = 0 then ([], true)
  else g.referenceLoop dst maxPaths maxLen ((g.nodeCount + 1) ^ (g.nodeCount + 1) + 1) [[src]] [] false

/-! ## The graph has no cycles -/

variable {g : Dag}

theorem descends (g : Dag) : Descends g.children := by
  have hfin : (Set.Iio g.nodeCount).Finite := Set.finite_Iio _
  have hwf : WellFounded (Function.swap (TransGen g.directed.Dir)) :=
    Antecedent.Dag.wellFounded_of_finite g.valid.acyclic (fun _ _ _ h h' => h'.trans h) hfin fun a b h => by
      obtain ⟨u, -, hu⟩ := TransGen.tail'_iff.mp h
      exact (g.valid.in_range u a hu).2
  exact Subrelation.wf (fun h => TransGen.single h) hwf

variable {v : Nat}

theorem children_lt {c : Nat} (h : c ∈ g.children v) : v < g.nodeCount ∧ c < g.nodeCount :=
  g.valid.in_range v c h

theorem length_children_le (v : Nat) : (g.children v).length ≤ g.nodeCount := by
  have hsub : (g.children v).toFinset ⊆ Finset.range g.nodeCount := fun c hc =>
    Finset.mem_range.mpr (children_lt (List.mem_toFinset.mp hc)).2
  have hcard := Finset.card_le_card hsub
  rw [List.toFinset_card_of_nodup (show (g.children v).Nodup from g.valid.children_nodup v),
    Finset.card_range] at hcard
  exact hcard

/-- The nodes that reach `dst`. -/
theorem mem_ancestorsMask {dst : Nat} :
    v ∈ g.ancestorsMask dst ↔ TransGen (fun a b => b ∈ g.children a) v dst := by
  have hmirror : ∀ a b, a ∈ g.parents b ↔ b ∈ g.children a := fun a b => g.valid.mirrored a b
  have hU : Worklist.Bounded g.parents (g.parents dst) (Finset.range g.nodeCount) :=
    ⟨fun s hs => Finset.mem_range.mpr (children_lt ((hmirror s dst).mp hs)).1,
      fun u _ w hw => Finset.mem_range.mpr (children_lt ((hmirror w u).mp hw)).1⟩
  have hreach : ∀ a b, Reach g.parents a b ↔
      ReflTransGen (fun a b => b ∈ g.children a) b a := by
    intro a b
    have he : (fun a b => b ∈ g.parents a) = Function.swap fun a b => b ∈ g.children a := by
      funext a b
      exact propext (hmirror b a)
    unfold Reach
    rw [he, Relation.reflTransGen_swap]
  unfold ancestorsMask
  rw [mem_closure hU (by simp)]
  constructor
  · rintro ⟨s, hs, hr⟩
    exact TransGen.tail' ((hreach s v).mp hr) ((hmirror s dst).mp hs)
  · intro h
    obtain ⟨s, hr, hs⟩ := TransGen.tail'_iff.mp h
    exact ⟨s, (hmirror s dst).mpr hs, (hreach s v).mpr hr⟩

/-! ## The longest path -/

section Longest

variable {avoid src : Nat} {stack : List (Nat × Nat)} {state : Nat → Visit} {best : Nat → Nat}

/-- `best` is right about the finished nodes, and these only lead to each other. -/
def Deep (g : Dag) (avoid : Nat) (state : Nat → Visit) (best : Nat → Nat) : Prop :=
  ∀ v, state v = .finished → 1 ≤ best v ∧
    ∀ c ∈ g.children v, c ≠ avoid → state c = .finished ∧ best c + 1 ≤ best v

/-- What every turn keeps. -/
structure Deepening (g : Dag) (avoid src : Nat) (stack : List (Nat × Nat)) (state : Nat → Visit)
    (best : Nat → Nat) : Prop where
  deep : g.Deep avoid state best
  onStack : ∀ v, state v = .onStack ↔ v ∈ stack.map Prod.fst
  nodup : (stack.map Prod.fst).Nodup
  chain : List.IsChain (fun c v => c ∈ g.children v) (stack.map Prod.fst)
  tried : ∀ f ∈ stack, ∀ c ∈ (g.children f.1).take f.2, c ≠ avoid → state c ≠ .unvisited
  seen : state src ≠ .unvisited

/-- The turns a pass still takes. -/
def longestLoad (g : Dag) (stack : List (Nat × Nat)) (state : Nat → Visit) : Nat :=
  ((Finset.range g.nodeCount).filter fun v => state v = .unvisited).card * (g.nodeCount + 2) +
    (stack.map fun f => (g.children f.1).length - f.2 + 1).sum

theorem Deep.length_le (h : g.Deep avoid state best) : ∀ {p : List Nat} {v : Nat},
    List.IsChain (fun a b => b ∈ g.children a) (v :: p) → avoid ∉ p → state v = .finished →
      (v :: p).length ≤ best v
  | [], v, _, _, hv => (h v hv).1
  | c :: p, v, hp, ha, hv => by
    obtain ⟨hc, hp⟩ := List.isChain_cons_cons.mp hp
    rw [List.mem_cons, not_or] at ha
    obtain ⟨hfin, hle⟩ := (h v hv).2 c hc (Ne.symm ha.1)
    have := h.length_le hp ha.2 hfin
    rw [List.length_cons]
    omega

variable {v next c : Nat} {rest : List (Nat × Nat)}

theorem reaches_top {l : List Nat}
    (h : List.IsChain (fun c v => c ∈ g.children v) (v :: l)) {u : Nat} (hu : u ∈ l) :
    TransGen (fun a b => b ∈ g.children a) u v := by
  have htrans : List.IsChain (Function.swap (TransGen fun a b => b ∈ g.children a))
      (v :: l) := h.imp fun _ _ hab => TransGen.single hab
  have : IsTrans Nat (Function.swap (TransGen fun a b => b ∈ g.children a)) :=
    ⟨fun _ _ _ h1 h2 => TransGen.trans h2 h1⟩
  exact (List.pairwise_cons.mp (List.isChain_iff_pairwise.mp htrans)).1 u hu

section

variable (h : Deepening g avoid src ((v, next) :: rest) state best)

include h

theorem Deepening.finish (hnext : (g.children v)[next]? = none) :
    Deepening g avoid src rest (Function.update state v .finished) (Function.update best v
      ((((g.children v).filter fun c => c ≠ avoid ∧ state c = .finished).map best).max?.getD 0
        + 1)) := by
  have hchain : List.IsChain (fun c v => c ∈ g.children v) (v :: rest.map Prod.fst) := h.chain
  have hnd : (v :: rest.map Prod.fst).Nodup := h.nodup
  have hv : state v = .onStack := (h.onStack v).mpr List.mem_cons_self
  have hchildren : ∀ c ∈ g.children v, c ≠ avoid → state c = .finished := by
    intro c hc ha
    have htake : (g.children v).take next = g.children v :=
      List.take_of_length_le (List.getElem?_eq_none_iff.mp hnext)
    have htried := h.tried (v, next) List.mem_cons_self c (by rw [htake]; exact hc) ha
    cases hs : state c with
    | unvisited => exact absurd hs htried
    | finished => rfl
    | onStack =>
      have hedge : TransGen (fun a b => b ∈ g.children a) v c := .single hc
      rcases List.mem_cons.mp ((h.onStack c).mp hs) with e | hm
      · have e : c = v := e
        exact absurd (e ▸ hedge) ((descends g).irrefl _)
      · exact absurd (hedge.trans (reaches_top hchain hm)) ((descends g).irrefl v)
  have hne : ∀ {c}, state c = .finished → c ≠ v := by
    rintro c hc rfl
    rw [hv] at hc
    cases hc
  refine ⟨fun u hu => ?_, fun u => ?_, (List.nodup_cons.mp hnd).2, hchain.tail, ?_, ?_⟩
  · by_cases huv : u = v
    · subst huv
      rw [Function.update_self]
      refine ⟨Nat.le_add_left 1 _, fun c hc ha => ?_⟩
      have hfin := hchildren c hc ha
      rw [Function.update_of_ne (hne hfin), Function.update_of_ne (hne hfin)]
      refine ⟨hfin, Nat.succ_le_succ (List.le_max?_getD_of_mem (List.mem_map.mpr ⟨c, ?_, rfl⟩))⟩
      exact List.mem_filter.mpr ⟨hc, decide_eq_true ⟨ha, hfin⟩⟩
    · rw [Function.update_of_ne huv] at hu
      obtain ⟨h1, h2⟩ := h.deep u hu
      rw [Function.update_of_ne huv]
      refine ⟨h1, fun c hc ha => ?_⟩
      have hfin := (h2 c hc ha).1
      rw [Function.update_of_ne (hne hfin), Function.update_of_ne (hne hfin)]
      exact h2 c hc ha
  · by_cases huv : u = v
    · subst huv
      rw [Function.update_self]
      exact iff_of_false (by simp) (List.nodup_cons.mp hnd).1
    · rw [Function.update_of_ne huv, h.onStack]
      exact ⟨fun hu => (List.mem_cons.mp hu).resolve_left huv, List.mem_cons_of_mem _⟩
  · intro f hf c hc ha
    by_cases hcv : c = v
    · rw [hcv, Function.update_self]
      simp
    · rw [Function.update_of_ne hcv]
      exact h.tried f (List.mem_cons_of_mem _ hf) c hc ha
  · by_cases hsv : src = v
    · rw [hsv, Function.update_self]
      simp
    · rw [Function.update_of_ne hsv]
      exact h.seen

/-- Moving on past a child that is settled. -/
theorem Deepening.skip (hnext : (g.children v)[next]? = some c)
    (hc : c ≠ avoid → state c ≠ .unvisited) :
    Deepening g avoid src ((v, next + 1) :: rest) state best := by
  refine ⟨h.deep, h.onStack, h.nodup, h.chain, fun f hf d hd ha => ?_, h.seen⟩
  rcases List.mem_cons.mp hf with rfl | hf
  · rw [List.take_add_one, hnext] at hd
    rcases List.mem_append.mp hd with hd | hd
    · exact h.tried (v, next) List.mem_cons_self d hd ha
    · obtain rfl : d = c := by simpa using hd
      exact hc ha
  · exact h.tried f (List.mem_cons_of_mem _ hf) d hd ha

/-- Going down to a child that was not visited. -/
theorem Deepening.push (hnext : (g.children v)[next]? = some c) (hc : state c = .unvisited) :
    Deepening g avoid src ((c, 0) :: (v, next + 1) :: rest)
      (Function.update state c .onStack) best := by
  have hnew : c ∉ ((v, next) :: rest).map Prod.fst := fun hm => by
    rw [(h.onStack c).mpr hm] at hc
    cases hc
  have hup : ∀ u, Function.update state c .onStack u = .unvisited → state u = .unvisited := by
    intro u hu
    by_cases huc : u = c
    · rw [huc]
      exact hc
    · rwa [Function.update_of_ne huc] at hu
  have hfin : ∀ u, Function.update state c .onStack u = .finished ↔ state u = .finished := by
    intro u
    by_cases huc : u = c
    · rw [huc, Function.update_self, hc]
      simp
    · rw [Function.update_of_ne huc]
  refine ⟨fun u hu => ?_, fun u => ?_, List.nodup_cons.mpr ⟨hnew, h.nodup⟩,
    List.isChain_cons_cons.mpr ⟨List.mem_of_getElem? hnext, h.chain⟩, fun f hf d hd ha => ?_,
    fun hs => h.seen (hup src hs)⟩
  · obtain ⟨h1, h2⟩ := h.deep u ((hfin u).mp hu)
    exact ⟨h1, fun d hd ha => ⟨(hfin d).mpr (h2 d hd ha).1, (h2 d hd ha).2⟩⟩
  · by_cases huc : u = c
    · rw [huc, Function.update_self]
      exact iff_of_true rfl List.mem_cons_self
    · rw [Function.update_of_ne huc, h.onStack]
      exact ⟨List.mem_cons_of_mem c, fun hu => (List.mem_cons.mp hu).resolve_left huc⟩
  · rcases List.mem_cons.mp hf with rfl | hf
    · exact absurd hd (by simp)
    · rcases List.mem_cons.mp hf with rfl | hf
      · rw [List.take_add_one, hnext] at hd
        rcases List.mem_append.mp hd with hd | hd
        · exact fun hu => h.tried (v, next) List.mem_cons_self d hd ha (hup d hu)
        · obtain rfl : d = c := by simpa using hd
          rw [Function.update_self]
          simp
      · exact fun hu => h.tried f (List.mem_cons_of_mem _ hf) d hd ha (hup d hu)

end

theorem longestLoad_push (hnext : (g.children v)[next]? = some c) (hc : state c = .unvisited) :
    g.longestLoad ((c, 0) :: (v, next + 1) :: rest) (Function.update state c .onStack) <
      g.longestLoad ((v, next) :: rest) state := by
  have hlt : next < (g.children v).length := (List.getElem?_eq_some_iff.mp hnext).1
  have hcn := (children_lt (List.mem_of_getElem? hnext)).2
  have hset : ((Finset.range g.nodeCount).filter fun u =>
      Function.update state c .onStack u = .unvisited) =
      ((Finset.range g.nodeCount).filter fun u => state u = .unvisited).erase c := by
    ext u
    simp only [Finset.mem_filter, Finset.mem_erase]
    by_cases huc : u = c
    · rw [huc, Function.update_self]
      simp
    · rw [Function.update_of_ne huc]
      simp [huc]
  have hmem : c ∈ (Finset.range g.nodeCount).filter fun u => state u = .unvisited :=
    Finset.mem_filter.mpr ⟨Finset.mem_range.mpr hcn, hc⟩
  have hcard := Finset.card_erase_add_one hmem
  have hdeg := g.length_children_le c
  unfold longestLoad
  rw [hset, ← hcard, Nat.add_mul]
  simp only [List.map_cons, List.sum_cons]
  omega

/-- **A pass with enough fuel finishes the node it starts from.** -/
theorem longestLoop_spec : ∀ (fuel : Nat) (stack : List (Nat × Nat)) (state : Nat → Visit)
    (best : Nat → Nat), Deepening g avoid src stack state best →
      g.longestLoad stack state < fuel →
      ∃ state', state' src = .finished ∧
        g.Deep avoid state' (g.longestLoop avoid fuel stack state best)
  | 0, _, _, _, _, hf => absurd hf (Nat.not_lt_zero _)
  | fuel + 1, [], state, best, h, _ => by
    refine ⟨state, ?_, h.deep⟩
    cases hs : state src with
    | unvisited => exact absurd hs h.seen
    | onStack => exact absurd ((h.onStack src).mp hs) List.not_mem_nil
    | finished => rfl
  | fuel + 1, (v, next) :: rest, state, best, h, hf => by
    unfold longestLoop
    cases hn : (g.children v)[next]? with
    | none =>
      refine longestLoop_spec fuel rest _ _ (h.finish hn) ?_
      have hv : state v = .onStack := (h.onStack v).mpr List.mem_cons_self
      have hset : ((Finset.range g.nodeCount).filter fun u =>
          Function.update state v .finished u = .unvisited) =
          (Finset.range g.nodeCount).filter fun u => state u = .unvisited := by
        refine Finset.filter_congr fun u _ => ?_
        by_cases huv : u = v
        · rw [huv, Function.update_self, hv]
          simp
        · rw [Function.update_of_ne huv]
      unfold longestLoad at hf ⊢
      rw [hset]
      simp only [List.map_cons, List.sum_cons] at hf
      omega
    | some c =>
      simp only
      split_ifs with hc
      · exact longestLoop_spec fuel _ _ _ (h.push hn hc.2)
          (Nat.lt_of_lt_of_le (longestLoad_push hn hc.2) (Nat.le_of_lt_succ hf))
      · refine longestLoop_spec fuel _ _ _ (h.skip hn fun ha hs => hc ⟨ha, hs⟩) ?_
        have hlt : next < (g.children v).length := (List.getElem?_eq_some_iff.mp hn).1
        unfold longestLoad at hf ⊢
        simp only [List.map_cons, List.sum_cons] at hf ⊢
        omega

/-- **No path from `src` that avoids a node is longer than the pass says.** -/
theorem length_le_longest (hs : src < g.nodeCount) {p : List Nat}
    (hp : List.IsChain (fun a b => b ∈ g.children a) (src :: p)) (ha : avoid ∉ p) :
    (src :: p).length ≤ g.longestPathNodesAvoiding src avoid := by
  have hstart : Deepening g avoid src [(src, 0)]
      (Function.update (fun _ => Visit.unvisited) src .onStack) fun _ => 0 := by
    refine ⟨fun v hv => ?_, fun v => ?_, List.nodup_singleton src, List.isChain_singleton src,
      fun f hf c hc => ?_, ?_⟩
    · by_cases hvs : v = src
      · rw [hvs, Function.update_self] at hv
        cases hv
      · rw [Function.update_of_ne hvs] at hv
        cases hv
    · by_cases hvs : v = src
      · rw [hvs, Function.update_self]
        exact iff_of_true rfl (List.mem_singleton_self src)
      · rw [Function.update_of_ne hvs]
        exact iff_of_false (by simp) fun h => hvs (List.mem_singleton.mp h)
    · rw [List.mem_singleton.mp hf] at hc
      exact absurd hc (by simp)
    · rw [Function.update_self]
      simp
  have hload : g.longestLoad [(src, 0)] (Function.update (fun _ => Visit.unvisited) src .onStack) <
      g.nodeCount * (g.nodeCount + 2) + 1 := by
    have hset : ((Finset.range g.nodeCount).filter fun u =>
        Function.update (fun _ => Visit.unvisited) src .onStack u = .unvisited) =
        (Finset.range g.nodeCount).erase src := by
      ext u
      simp only [Finset.mem_filter, Finset.mem_erase]
      by_cases hus : u = src
      · rw [hus, Function.update_self]
        simp
      · rw [Function.update_of_ne hus]
        simp [hus]
    have hcard := Finset.card_erase_add_one (Finset.mem_range.mpr hs)
    rw [Finset.card_range] at hcard
    have hmul := Nat.add_mul ((Finset.range g.nodeCount).erase src).card 1 (g.nodeCount + 2)
    rw [hcard] at hmul
    have hdeg := g.length_children_le src
    unfold longestLoad
    rw [hset]
    simp only [List.map_cons, List.map_nil, List.sum_cons, List.sum_nil]
    omega
  obtain ⟨state', hfin, hdeep⟩ := longestLoop_spec _ _ _ _ hstart hload
  exact hdeep.length_le hp ha hfin

end Longest

/-! ## The enumeration -/

section Enumeration

variable {src dst maxPaths maxLen visitBudget : Nat}

theorem bounded_children (g : Dag) : SimplePaths.Bounded g.children (Finset.range g.nodeCount) :=
  ⟨fun _ _ _ hw => Finset.mem_range.mpr (children_lt hw).2, fun v _ => g.valid.children_nodup v⟩

/-- The paths to `dst`, in depth-first order. -/
noncomputable abbrev pathsTo (g : Dag) (dst : Nat) : Nat → List (List Nat) :=
  OrderedPaths.pathsTo (descends g) dst

/-- Every path from `src` that has not met `dst` is shorter than the limit. -/
def Uncut (g : Dag) (src dst maxLen : Nat) : Prop :=
  ∀ p : List Nat, List.IsChain (fun a b => b ∈ g.children a) p → p.head? = some src → dst ∉ p →
    p.length < maxLen

theorem uncut_of_longest (hs : src < g.nodeCount)
    (h : g.longestPathNodesAvoiding src dst < maxLen) : g.Uncut src dst maxLen := by
  intro p hp hhead hdst
  cases p with
  | nil => exact absurd hhead (by simp)
  | cons a p =>
    obtain rfl := Option.some.inj hhead
    exact Nat.lt_of_le_of_lt (length_le_longest hs hp fun hm => hdst (List.mem_cons_of_mem _ hm)) h

theorem pathsTo_eq_nil {c : Nat} (hne : c ≠ dst) (hc : c ∉ g.ancestorsMask dst) :
    OrderedPaths.pathsTo (descends g) dst c = [] := by
  refine List.eq_nil_iff_forall_not_mem.mpr fun p hp => hc (mem_ancestorsMask.mpr ?_)
  have h := (mem_pathsTo (descends g) dst).mp hp
  cases p with
  | nil => exact absurd h.head (by simp)
  | cons a p =>
    obtain rfl := Option.some.inj h.head
    have htrans : List.IsChain (TransGen fun a b => b ∈ g.children a) (a :: p) :=
      h.chain.imp fun _ _ hab => TransGen.single hab
    refine (List.pairwise_cons.mp (List.isChain_iff_pairwise.mp htrans)).1 dst ?_
    exact (List.mem_cons.mp (List.mem_of_getLast? h.last)).resolve_left (Ne.symm hne)

/-- The flag is never taken back. -/
theorem pathsLoop_truncated {live : Finset Nat} (fuel : Nat) (frames : Frames Nat)
    (out : List (List Nat)) (visits : Nat) :
    (g.pathsLoop dst maxPaths maxLen visitBudget live fuel frames out visits true).2 = true := by
  induction fuel generalizing frames out visits with
  | zero => rfl
  | succ fuel ih =>
    rcases frames with _ | ⟨⟨last, _ | c⟩, rest⟩
    · rfl
    · exact ih _ _ _
    · unfold pathsLoop
      split
      · exact ih _ _ _
      · split_ifs
        all_goals first | rfl | exact ih _ _ _

/-- What a run of the loop lists. -/
structure Lists (g : Dag) (src dst maxPaths maxLen : Nat) (r : List (List Nat) × Bool) : Prop where
  sublist : r.1.Sublist (g.pathsTo dst src)
  length_le : ∀ p ∈ r.1, p.length ≤ maxLen
  count_le : r.1.length ≤ maxPaths
  complete : r.2 = false → r.1 = g.pathsTo dst src

/-- **The loop lists paths in order**, and all of them unless it stops early or the length cuts
one. -/
theorem pathsLoop_spec {truncated : Bool} (hcut : truncated = false → g.Uncut src dst maxLen) :
    ∀ (fuel : Nat) (frames : Frames Nat) (out : List (List Nat)) (visits : Nat),
      Live g.children src dst maxLen (Finset.range g.nodeCount) frames →
      (out ++ todo (descends g) dst frames).Sublist (g.pathsTo dst src) →
      (∀ p ∈ out, p.length ≤ maxLen) → out.length ≤ maxPaths →
      (truncated = false → out ++ todo (descends g) dst frames = g.pathsTo dst src) →
      potential g.nodeCount frames < fuel →
      g.Lists src dst maxPaths maxLen (g.pathsLoop dst maxPaths maxLen visitBudget
        (g.ancestorsMask dst) fuel frames out visits truncated)
  | 0, _, _, _, _, _, _, _, _, hf => absurd hf (Nat.not_lt_zero _)
  | fuel + 1, [], out, visits, _, hsub, hlen, hcount, hall, _ => by
    have he : out ++ todo (descends g) dst [] = out := List.append_nil out
    rw [he] at hsub hall
    exact ⟨hsub, hlen, hcount, hall⟩
  | fuel + 1, (last, 0) :: rest, out, visits, hlive, hsub, hlen, hcount, hall, hf => by
    refine pathsLoop_spec hcut fuel rest out visits hlive.rest hsub hlen hcount hall ?_
    simp only [potential] at hf
    omega
  | fuel + 1, (last, c + 1) :: rest, out, visits, hlive, hsub, hlen, hcount, hall, hf => by
    have hlow : potential g.nodeCount ((last, c) :: rest) < fuel := by
      have hpos : 0 < (g.nodeCount + 2) ^ (g.nodeCount - rest.length) := Nat.pow_pos (by omega)
      simp only [potential, Nat.add_mul] at hf ⊢
      omega
    have hshort : rest.length + 1 < maxLen := hlive.short (by simp)
    have hpathLen : (pathOf ((last, c) :: rest)).length = rest.length + 1 := by simp [pathOf]
    have hstop : g.Lists src dst maxPaths maxLen (out, true) :=
      ⟨(List.sublist_append_left _ _).trans hsub, hlen, hcount, fun h => by simp at h⟩
    unfold pathsLoop
    cases hn : (g.children last)[c]? with
    | none =>
      have htodo : todo (descends g) dst ((last, c + 1) :: rest) =
          todo (descends g) dst ((last, c) :: rest) := by
        rw [todo, todo, pathOf_cons, pathOf_cons, List.take_add_one, hn, Option.toList_none,
          List.append_nil]
      rw [htodo] at hsub hall
      exact pathsLoop_spec hcut fuel _ out visits hlive.cursor hsub hlen hcount hall hlow
    | some child =>
      have hrow : child ∈ g.children last := List.mem_of_getElem? hn
      have hchain : List.IsChain (fun a b => b ∈ g.children a)
          (pathOf ((last, c) :: rest) ++ [child]) := by
        refine List.isChain_append.mpr ⟨(hlive.cursor (d := c)).chain,
          List.isChain_singleton child, fun a ha b hb => ?_⟩
        rw [pathOf_cons, List.getLast?_concat] at ha
        rw [← Option.some.inj ha, ← Option.some.inj hb]
        exact hrow
      have hnew : child ∉ pathOf ((last, c) :: rest) := fun hm =>
        (List.nodup_append.mp ((descends g).nodup hchain)).2.2 child hm child
          (List.mem_singleton_self child) rfl
      have hhead : (pathOf ((last, c) :: rest) ++ [child]).head? = some src := by
        obtain ⟨v, hv⟩ : ∃ v, (pathOf ((last, c) :: rest)).head? = some v := by
          cases hp : (pathOf ((last, c) :: rest)).head? with
          | none => exact absurd (List.head?_eq_none_iff.mp hp) (by simp [pathOf])
          | some v => exact ⟨v, rfl⟩
        rw [List.head?_append, hv, (hlive.cursor (d := c)).head v hv]
        rfl
      rw [todo_lower (descends g) dst hn] at hsub hall
      simp only
      split_ifs with hfull hon hdst hskip hbudget
      · exact hstop
      · -- a child on the path would close a cycle
        refine absurd ?_ hnew
        rw [List.contains_iff_mem] at hon
        exact mem_pathOf.mpr hon
      · rw [hdst, pathsTo_self] at hsub hall
        have he : out ++ ([[dst]].map (pathOf ((last, c) :: rest) ++ ·) ++
            todo (descends g) dst ((last, c) :: rest)) =
            (out ++ [pathOf ((last, c) :: rest) ++ [dst]]) ++
              todo (descends g) dst ((last, c) :: rest) := by simp
        rw [he] at hsub hall
        rw [hdst]
        refine pathsLoop_spec hcut fuel _ _ visits hlive.cursor hsub (fun p hp => ?_) ?_ hall hlow
        · rcases List.mem_append.mp hp with hp | hp
          · exact hlen p hp
          · rw [List.mem_singleton.mp hp, List.length_append, hpathLen, List.length_singleton]
            omega
        · rw [List.length_append, List.length_singleton]
          omega
      · refine pathsLoop_spec hcut fuel _ out visits hlive.cursor ?_ hlen hcount (fun ht => ?_) hlow
        · exact ((List.sublist_append_right _ _).append_left out).trans hsub
        · rcases hskip with hdead | hlim
          · rw [← hall ht, pathsTo_eq_nil hdst hdead]
            rfl
          · have hlt := hcut ht _ hchain hhead fun hm => by
              rcases List.mem_append.mp hm with hm | hm
              · exact (hlive.cursor (d := c)).target hm
              · exact hdst (List.mem_singleton.mp hm).symm
            rw [List.length_append, hpathLen, List.length_singleton] at hlt
            omega
      · exact hstop
      · push Not at hskip
        obtain ⟨h1, h2, h3, h4⟩ := (hlive.cursor (d := c)).extend (d := (g.children child).length)
          (bounded_children g) hrow hnew
        have hlive' : Live g.children src dst maxLen (Finset.range g.nodeCount)
            ((child, (g.children child).length) :: (last, c) :: rest) := by
          refine ⟨h1, h2, h3, ?_, h4, fun _ => ?_⟩
          · rw [pathOf_cons, List.mem_append, List.mem_singleton]
            rintro (h | rfl)
            · exact (hlive.cursor (d := c)).target h
            · exact hdst rfl
          · rw [List.length_cons, List.length_cons]
            omega
        rw [← todo_push (descends g) dst hdst] at hsub hall
        refine pathsLoop_spec hcut fuel _ out (visits + 1) hlive' hsub hlen hcount hall ?_
        have hle := hlive'.length_le
        rw [List.length_cons, List.length_cons, Finset.card_range] at hle
        have hpush : potential g.nodeCount
            ((child, (g.children child).length) :: (last, c) :: rest) <
              potential g.nodeCount ((last, c + 1) :: rest) :=
          potential_push (g.length_children_le child) (Nat.le_of_succ_le hle)
        omega

/-! ## The oracle -/

def Partial (g : Dag) (src dst : Nat) (p : List Nat) : Prop :=
  ∃ q v, p = q ++ [v] ∧ List.IsChain (fun a b => b ∈ g.children a) p ∧ p.head? = some src ∧
    dst ∉ q ∧ ∀ a ∈ p, a < g.nodeCount

/-- The turns the stack still takes: a path of `k` nodes weighs more than all its extensions. -/
def referenceLoad (g : Dag) (stack : List (List Nat)) : Nat :=
  (stack.map fun p => (g.nodeCount + 1) ^ (g.nodeCount + 1 - p.length)).sum

theorem foldl_push {α β : Type} (f : α → β) : ∀ (l : List α) (stack : List β),
    l.foldl (fun stack c => f c :: stack) stack = l.reverse.map f ++ stack
  | [], _ => rfl
  | c :: l, stack => by
    rw [List.foldl_cons, foldl_push f l]
    simp

variable {p : List Nat}

theorem Partial.length_le (h : g.Partial src dst p) : p.length ≤ g.nodeCount := by
  obtain ⟨q, v, -, hchain, -, -, hlt⟩ := h
  rw [← List.toFinset_card_of_nodup ((descends g).nodup hchain), ← Finset.card_range g.nodeCount]
  exact Finset.card_le_card fun a ha => Finset.mem_range.mpr (hlt a (List.mem_toFinset.mp ha))

theorem referenceLoad_extend {v : Nat} (h : p.length ≤ g.nodeCount) :
    g.referenceLoad ((g.children v).reverse.map fun c => p ++ [c]) <
      (g.nodeCount + 1) ^ (g.nodeCount + 1 - p.length) := by
  have hconst : g.referenceLoad ((g.children v).reverse.map fun c => p ++ [c]) =
      (g.children v).length * (g.nodeCount + 1) ^ (g.nodeCount - p.length) := by
    unfold referenceLoad
    rw [List.map_map, List.map_congr_left (g := fun _ =>
      (g.nodeCount + 1) ^ (g.nodeCount - p.length)) fun c _ => by simp]
    simp
  have hpow : (g.nodeCount + 1) ^ (g.nodeCount + 1 - p.length) =
      (g.nodeCount + 1) * (g.nodeCount + 1) ^ (g.nodeCount - p.length) := by
    rw [← Nat.pow_succ', show g.nodeCount + 1 - p.length = g.nodeCount - p.length + 1 by omega]
  rw [hconst, hpow]
  exact Nat.mul_lt_mul_of_pos_right (Nat.lt_succ_of_le (g.length_children_le v))
    (Nat.pow_pos (Nat.succ_pos _))

/-- **Within its bounds the oracle lists all paths in order.** -/
theorem referenceLoop_spec (hcut : g.Uncut src dst maxLen)
    (hcount : (g.pathsTo dst src).length < maxPaths) :
    ∀ (fuel : Nat) (stack out : List (List Nat)), (∀ p ∈ stack, g.Partial src dst p) →
      out ++ completions (descends g) dst stack = g.pathsTo dst src →
      g.referenceLoad stack < fuel →
      g.referenceLoop dst maxPaths maxLen fuel stack out false = (g.pathsTo dst src, false)
  | 0, _, _, _, _, hf => absurd hf (Nat.not_lt_zero _)
  | fuel + 1, [], out, _, hall, _ => by
    rw [← hall]
    show (out, false) = (out ++ [], false)
    rw [List.append_nil]
  | fuel + 1, p :: stack, out, hstack, hall, hf => by
    have hp := hstack p List.mem_cons_self
    have hle := hp.length_le
    obtain ⟨q, v, rfl, hchain, hhead, hdst, hlt⟩ := hp
    have hout : ¬ maxPaths ≤ out.length := by
      have := congrArg List.length hall
      rw [List.length_append] at this
      omega
    have hsplit : completions (descends g) dst ((q ++ [v]) :: stack) =
        completion (descends g) dst (q ++ [v]) ++ completions (descends g) dst stack :=
      List.flatMap_cons
    have hload : g.referenceLoad ((q ++ [v]) :: stack) =
        (g.nodeCount + 1) ^ (g.nodeCount + 1 - (q ++ [v]).length) + g.referenceLoad stack := by
      unfold referenceLoad
      rw [List.map_cons, List.sum_cons]
    have hpos : 0 < (g.nodeCount + 1) ^ (g.nodeCount + 1 - (q ++ [v]).length) :=
      Nat.pow_pos (Nat.succ_pos _)
    have hrest := fun r hr => hstack r (List.mem_cons_of_mem (q ++ [v]) hr)
    rw [hsplit] at hall
    unfold referenceLoop
    rw [if_neg hout, List.getLast?_concat]
    simp only
    by_cases hv : v = dst
    · rw [if_pos hv]
      refine referenceLoop_spec hcut hcount fuel stack _ hrest ?_ (by omega)
      rw [hv, completion_done] at hall
      rw [hv, List.append_assoc]
      exact hall
    · have hmem : dst ∉ q ++ [v] := fun hm => by
        rcases List.mem_append.mp hm with hm | hm
        · exact hdst hm
        · exact hv (List.mem_singleton.mp hm).symm
      have hfilter : ((g.children v).filter fun c => !(q ++ [v]).contains c) = g.children v := by
        refine List.filter_eq_self.mpr fun c hc => ?_
        rw [Bool.not_eq_true', ← Bool.not_eq_true, List.contains_iff_mem]
        intro hm
        have hext : List.IsChain (fun a b => b ∈ g.children a) (q ++ [v] ++ [c]) := by
          refine List.isChain_append.mpr ⟨hchain, List.isChain_singleton c, fun a ha b hb => ?_⟩
          rw [List.getLast?_concat] at ha
          rw [← Option.some.inj ha, ← Option.some.inj hb]
          exact hc
        exact (List.nodup_append.mp ((descends g).nodup hext)).2.2 c hm c
          (List.mem_singleton_self c) rfl
      rw [if_neg hv, if_neg (Nat.not_le_of_lt (hcut _ hchain hhead hmem)), hfilter, foldl_push]
      refine referenceLoop_spec hcut hcount fuel _ out (fun r hr => ?_) ?_ ?_
      · rcases List.mem_append.mp hr with hr | hr
        · obtain ⟨c, hc, rfl⟩ := List.mem_map.mp hr
          have hc := List.mem_reverse.mp hc
          refine ⟨q ++ [v], c, rfl, ?_, ?_, hmem, fun a ha => ?_⟩
          · refine List.isChain_append.mpr ⟨hchain, List.isChain_singleton c, fun a ha b hb => ?_⟩
            rw [List.getLast?_concat] at ha
            rw [← Option.some.inj ha, ← Option.some.inj hb]
            exact hc
          · rw [List.head?_append, hhead]
            rfl
          · rcases List.mem_append.mp ha with ha | ha
            · exact hlt a ha
            · rw [List.mem_singleton.mp ha]
              exact (children_lt hc).2
        · exact hrest r hr
      · rw [← hall, completion_extend (descends g) dst hv]
        unfold completions
        rw [List.flatMap_append]
      · have happ : ∀ a b : List (List Nat), g.referenceLoad (a ++ b) =
            g.referenceLoad a + g.referenceLoad b := fun a b => by
          unfold referenceLoad
          rw [List.map_append, List.sum_append]
        have hext := g.referenceLoad_extend (v := v) hle
        rw [happ]
        omega

/-- A directed path of the graph. -/
structure DirectedPath (g : Dag) (src dst : Nat) (p : List Nat) : Prop where
  chain : List.IsChain g.mixed.dir p
  head : p.head? = some src
  last : p.getLast? = some dst

theorem directedPath_iff :
    g.DirectedPath src dst p ↔ SimplePath g.children src dst p :=
  ⟨fun h => ⟨h.chain, (descends g).nodup h.chain, h.head, h.last⟩,
    fun h => ⟨h.chain, h.head, h.last⟩⟩

theorem lists_correct {r : List (List Nat) × Bool} (hr : g.Lists src dst maxPaths maxLen r) :
    r.1.Nodup ∧ (∀ p ∈ r.1, g.DirectedPath src dst p ∧ p.length ≤ maxLen) ∧
      r.1.length ≤ maxPaths ∧ (r.2 = false → ∀ p, g.DirectedPath src dst p → p ∈ r.1) := by
  refine ⟨(nodup_pathsTo (descends g) dst g.valid.children_nodup src).sublist hr.sublist,
    fun p hp => ⟨?_, hr.length_le p hp⟩, hr.count_le, fun ht p hp => ?_⟩
  · exact directedPath_iff.mpr ((mem_pathsTo _ _).mp (hr.sublist.subset hp))
  · rw [hr.complete ht]
    exact (mem_pathsTo _ _).mpr (directedPath_iff.mp hp)

/-- **Directed paths within a budget.** The paths are distinct directed paths within both bounds;
without the truncation flag they are all of them, in the order of the unpruned enumeration wherever
its own bounds leave room. -/
theorem directedPathsWithBudget_correct (g : Dag) (src dst maxPaths maxLen : Nat)
    (hs : src < g.nodeCount) (hd : dst < g.nodeCount) :
    ∃ paths truncated,
      g.directedPathsWithBudget src dst maxPaths maxLen = .ok (paths, truncated) ∧
      paths.Nodup ∧ (∀ p ∈ paths, g.DirectedPath src dst p ∧ p.length ≤ maxLen) ∧
      paths.length ≤ maxPaths ∧
      (truncated = false →
        (∀ p, g.DirectedPath src dst p → p ∈ paths) ∧
        ∀ maxPaths' maxLen', paths.length < maxPaths' → maxLen ≤ maxLen' →
          g.referencePaths src dst maxPaths' maxLen' = (paths, false)) := by
  obtain ⟨r, hok, hlists, huncut⟩ : ∃ r,
      g.directedPathsWithBudget src dst maxPaths maxLen = .ok r ∧
      g.Lists src dst maxPaths maxLen r ∧
      (r.2 = false → maxLen ≠ 0 ∧ g.Uncut src dst maxLen) := by
    unfold directedPathsWithBudget
    rw [validateNode_ok hs, validateNode_ok hd]
    simp only [bind, Except.bind, pure, Except.pure]
    have hcutShort : g.Lists src dst maxPaths maxLen ([], true) :=
      ⟨List.nil_sublist _, fun _ h => absurd h List.not_mem_nil, Nat.zero_le _, fun h => by simp at h⟩
    by_cases hzero : maxPaths = 0 ∨ maxLen = 0
    · rw [if_pos hzero]
      exact ⟨_, rfl, hcutShort, fun h => by simp at h⟩
    rw [if_neg hzero]
    push Not at hzero
    by_cases hsd : src = dst
    · subst hsd
      rw [if_pos rfl]
      have hall : g.pathsTo src src = [[src]] := pathsTo_self (descends g) src
      refine ⟨_, rfl, ⟨by rw [hall], fun p hp => ?_, ?_, fun _ => hall.symm⟩,
        fun _ => ⟨hzero.2, fun p _ hhead hm => absurd (List.mem_of_mem_head? hhead) hm⟩⟩
      · rw [List.mem_singleton.mp hp, List.length_singleton]
        omega
      · rw [List.length_singleton]
        omega
    rw [if_neg hsd]
    split_ifs with hone
    · exact ⟨_, rfl, hcutShort, fun h => by simp at h⟩
    have hcut : decide (maxLen ≤ g.longestPathNodesAvoiding src dst) = false →
        g.Uncut src dst maxLen := fun h =>
      uncut_of_longest hs (Nat.lt_of_not_le (of_decide_eq_false h))
    have hlive : Live g.children src dst maxLen (Finset.range g.nodeCount)
        [(src, (g.children src).length)] := by
      refine ⟨List.isChain_singleton src, List.nodup_singleton src,
        fun v hv => (Option.some.inj hv).symm, fun hm => hsd (List.mem_singleton.mp hm).symm,
        fun v hv => ?_, fun _ => ?_⟩
      · rw [List.mem_singleton.mp hv]
        exact Finset.mem_range.mpr hs
      · rw [List.length_singleton]
        omega
    have hall : [] ++ todo (descends g) dst [(src, (g.children src).length)] =
        g.pathsTo dst src := by
      rw [List.nil_append, todo_push (descends g) dst hsd]
      simp [pathOf, todo]
    have hfuel : potential g.nodeCount [(src, (g.children src).length)] <
        (g.nodeCount + 2) ^ (g.nodeCount + 1) + 1 := by
      have hle := Nat.mul_le_mul_right ((g.nodeCount + 2) ^ g.nodeCount)
        (g.length_children_le src)
      have hpos : 0 < (g.nodeCount + 2) ^ g.nodeCount := Nat.pow_pos (by omega)
      simp only [potential, List.length_nil, Nat.sub_zero, Nat.add_zero]
      rw [Nat.pow_succ', Nat.add_mul]
      omega
    refine ⟨_, rfl, pathsLoop_spec hcut _ _ [] 0 hlive (by rw [hall])
      (fun _ h => absurd h List.not_mem_nil) (Nat.zero_le _) (fun _ => hall) hfuel,
      fun h => ⟨hzero.2, hcut ?_⟩⟩
    by_contra htrue
    rw [Bool.not_eq_false] at htrue
    rw [htrue, pathsLoop_truncated] at h
    simp at h
  obtain ⟨hnodup, hpaths, hcount, hcomplete⟩ := lists_correct hlists
  refine ⟨r.1, r.2, hok, hnodup, hpaths, hcount, fun ht => ⟨hcomplete ht, ?_⟩⟩
  intro maxPaths' maxLen' hroom hle
  obtain ⟨hzero, hcut⟩ := huncut ht
  have heq := hlists.complete ht
  unfold referencePaths
  rw [if_neg (by omega), heq]
  rw [heq] at hroom
  refine referenceLoop_spec (fun p h1 h2 h3 => Nat.lt_of_lt_of_le (hcut p h1 h2 h3) hle) hroom _ _ []
    (fun p hp => ?_) ?_ ?_
  · rw [List.mem_singleton.mp hp]
    refine ⟨[], src, rfl, List.isChain_singleton src, rfl, List.not_mem_nil, fun a ha => ?_⟩
    rw [List.mem_singleton.mp ha]
    exact hs
  · rw [List.nil_append]
    show completion (descends g) dst ([] ++ [src]) ++ [] = _
    rw [completion_concat, List.append_nil]
    simp
  · unfold referenceLoad
    have : (g.nodeCount + 1) ^ g.nodeCount ≤ (g.nodeCount + 1) ^ (g.nodeCount + 1) :=
      Nat.pow_le_pow_right (Nat.succ_pos _) (Nat.le_succ _)
    simp only [List.map_cons, List.map_nil, List.sum_cons, List.sum_nil, List.length_singleton,
      Nat.add_sub_cancel, Nat.add_zero]
    omega

/-- The two paths of a diamond. -/
theorem directedPathsWithBudget_correct_diamond :
    ∃ g, ((withVariables 4).insertDirected 0 1 >>= fun g => g.insertDirected 0 2 >>= fun g =>
        g.insertDirected 1 3 >>= fun g => g.insertDirected 2 3) = .ok g ∧
      ∃ paths truncated, g.directedPathsWithBudget 0 3 64 4 = .ok (paths, truncated) ∧
        paths.Nodup ∧ (truncated = false → ∀ p, g.DirectedPath 0 3 p → p ∈ paths) := by
  obtain ⟨g, hg, hn⟩ : ∃ g, ((withVariables 4).insertDirected 0 1 >>= fun g =>
      g.insertDirected 0 2 >>= fun g => g.insertDirected 1 3 >>= fun g =>
        g.insertDirected 2 3) = .ok g ∧ g.nodeCount = 4 := ⟨_, rfl, rfl⟩
  obtain ⟨paths, truncated, hok, hnodup, -, -, hall⟩ :=
    directedPathsWithBudget_correct g 0 3 64 4 (by omega) (by omega)
  exact ⟨g, hg, paths, truncated, hok, hnodup, fun h => (hall h).1⟩

end Enumeration

end Dag

end Antecedent.Graph
