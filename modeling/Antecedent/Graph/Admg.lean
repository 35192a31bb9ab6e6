import Antecedent.Graph.Directed

/-!
# `Dag` and `Admg`: the graphs the checked constructors build

Model of `dag.rs` and `admg.rs`. Both wrap a `DirectedCore` and carry its validity; an `Admg` adds
the bidirected rows, which `BiValid` keeps symmetric, irreflexive, in range and free of
repetition. The checked operations are `addNode`, `insertDirected` and `insertBidirected`.

* `Dag.mixed` and `Admg.mixed` are the mixed graphs they stand for; `Admg.acyclic` is the
  acyclicity every separation argument uses.
* `ancestorsOf_iff`, `descendantsOf_iff`: the closures are the directed ancestors and descendants.
-/

namespace Antecedent.Graph

open Mixed Relation
open Worklist

/-- What the checked constructors keep of bidirected rows over `n` nodes. -/
structure BiValid (n : Nat) (rows : List (List Nat)) : Prop where
  length : rows.length = n
  symm : ∀ a b, b ∈ row rows a → a ∈ row rows b
  irrefl : ∀ a, a ∉ row rows a
  in_range : ∀ a b, b ∈ row rows a → b < n
  nodup : ∀ a, (row rows a).Nodup

/-! ## `Dag` -/

/-- `dag.rs:18-21`. -/
structure Dag where
  directed : DirectedCore
  valid : directed.Valid
  static : ∀ node ∈ directed.nodes, node.isStaticGraphNode = true

/-- `admg.rs:31-36`. -/
structure Admg where
  directed : DirectedCore
  bidirected : List (List Nat)
  valid : directed.Valid
  static : ∀ node ∈ directed.nodes, node.isStaticGraphNode = true
  biValid : BiValid directed.nodeCount bidirected

variable {id : Nat} {c c' : DirectedCore} {node : NodeRef}

theorem static_pushLabeled
    (hs : ∀ nd ∈ c.nodes, nd.isStaticGraphNode = true) (hn : node.isStaticGraphNode = true)
    (h : c.pushLabeled node = .ok (c', id)) : ∀ nd ∈ c'.nodes, nd.isStaticGraphNode = true := by
  unfold DirectedCore.pushLabeled at h
  split_ifs at h
  cases h
  intro nd hnd
  rcases List.mem_append.mp hnd with hnd | hnd
  · exact hs nd hnd
  · rw [List.mem_singleton.mp hnd]
    exact hn

namespace Dag

def empty : Dag :=
  ⟨.new, DirectedCore.new_valid, fun _ h => absurd h List.not_mem_nil⟩

def nodeCount (g : Dag) : Nat := g.directed.nodeCount

def nodes (g : Dag) : List NodeRef := g.directed.nodes

def children (g : Dag) (id : Nat) : List Nat := g.directed.childrenOf id

def parents (g : Dag) (id : Nat) : List Nat := g.directed.parentsOf id

/-- `Dag::validate_node_pub`. -/
def validateNode (g : Dag) (id : Nat) : Except GraphError Unit :=
  if g.nodeCount ≤ id then .error (.unknownNode id) else .ok ()

/-- `dag.rs:166-173`. -/
def addNode (g : Dag) (node : NodeRef) : Except GraphError (Dag × Nat) :=
  if hn : node.isStaticGraphNode = true then
    match h : g.directed.pushLabeled node with
    | .ok (c, id) => .ok (⟨c, DirectedCore.pushLabeled_valid g.valid h,
        static_pushLabeled g.static hn h⟩, id)
    | .error e => .error e
  else .error (.invalidEndpoints "Dag accepts only Static or Unfolded nodes")

/-- `dag.rs:55-61`. -/
def withVariables (n : Nat) : Dag :=
  (List.range n).foldl (fun g i => match g.addNode (.static i) with
    | .ok (g', _) => g'
    | .error _ => g) empty

/-- `dag.rs:180-188`. -/
def insertDirected (g : Dag) (src dst : Nat) : Except GraphError Dag :=
  if hs : src < g.nodeCount then
    if hd : dst < g.nodeCount then
      match h : g.directed.tryInsert src dst with
      | .ok c => .ok ⟨c, DirectedCore.tryInsert_valid g.valid hs hd h, by
          obtain ⟨-, -, rfl⟩ := DirectedCore.tryInsert_cases h
          exact g.static⟩
      | .error e => .error e
    else .error (.unknownNode dst)
  else .error (.unknownNode src)

def mixed (g : Dag) : MixedGraph Nat where
  dir := g.directed.Dir
  bi _ _ := False
  bi_symm h := h

theorem addNode_ok {g : Dag} (hs : node.isStaticGraphNode = true)
    (hn : g.nodeCount ≤ u32Max) :
    ∃ g' : Dag, g.addNode node = .ok (g', g.nodeCount) ∧ g'.nodes = g.nodes ++ [node] ∧
      ∀ a b, g'.mixed.dir a b ↔ g.mixed.dir a b := by
  have hp : g.directed.pushLabeled node = .ok (⟨g.directed.nodes ++ [node],
      g.directed.children ++ [[]], g.directed.parents ++ [[]]⟩, g.nodeCount) := if_pos hn
  unfold addNode
  rw [dif_pos hs]
  split
  · rename_i c id h
    obtain ⟨rfl, rfl⟩ := Prod.mk.inj (Except.ok.inj (hp.symm.trans h))
    exact ⟨_, rfl, rfl, fun a b => DirectedCore.dir_pushLabeled hp a b⟩
  · rename_i e h
    exact absurd (hp.symm.trans h) (by simp)

/-- The graph over `n` variables: node `i` is the variable `i`, and there are no edges. -/
theorem withVariables_spec {n : Nat} (hn : n ≤ u32Max + 1) :
    (withVariables n).nodes = (List.range n).map .static ∧ ∀ a b, ¬ (withVariables n).mixed.dir a b := by
  refine foldl_static nodes (fun g => ∀ a b, ¬ g.mixed.dir a b) ⟨rfl, fun _ _ => List.not_mem_nil⟩
    (fun g n hg h => ?_) hn
  obtain ⟨g', hok, hnodes, hdir⟩ :=
    addNode_ok (show (NodeRef.static n).isStaticGraphNode = true from rfl) hg
  rw [hok]
  exact ⟨hnodes, fun a b hab => h a b ((hdir a b).mp hab)⟩

end Dag

/-! ## `Admg` -/

namespace Admg

def empty : Admg where
  directed := .new
  bidirected := []
  valid := DirectedCore.new_valid
  static _ h := absurd h List.not_mem_nil
  biValid := ⟨rfl, fun _ _ h => absurd h List.not_mem_nil, fun _ => List.not_mem_nil,
    fun _ _ h => absurd h List.not_mem_nil, fun _ => List.nodup_nil⟩

def nodeCount (g : Admg) : Nat := g.directed.nodeCount

def nodes (g : Admg) : List NodeRef := g.directed.nodes

def children (g : Admg) (id : Nat) : List Nat := g.directed.childrenOf id

def parents (g : Admg) (id : Nat) : List Nat := g.directed.parentsOf id

def bidirectedNeighbors (g : Admg) (id : Nat) : List Nat := row g.bidirected id

def hasBidirected (g : Admg) : Bool := g.bidirected.any fun neighbors => !neighbors.isEmpty

/-- `Admg::directed_part` (`admg.rs:181-183`); the directed core is shared as it stands. -/
def directedPart (g : Admg) : Dag := ⟨g.directed, g.valid, g.static⟩

def validateNode (g : Admg) (id : Nat) : Except GraphError Unit :=
  if g.nodeCount ≤ id then .error (.unknownNode id) else .ok ()

variable {n id a b src dst : Nat} {rows : List (List Nat)} {node : NodeRef} {g : Admg}

theorem biValid_append (h : BiValid n rows) :
    BiValid (n + 1) (rows ++ [[]]) := by
  refine ⟨by simp [h.length], fun a b hab => ?_, fun a => ?_, fun a b hab => ?_, fun a => ?_⟩
  · rw [row_append_nil] at hab ⊢
    exact h.symm a b hab
  · rw [row_append_nil]
    exact h.irrefl a
  · rw [row_append_nil] at hab
    exact Nat.lt_succ_of_lt (h.in_range a b hab)
  · rw [row_append_nil]
    exact h.nodup a

theorem nodeCount_pushLabeled
    (h : c.pushLabeled node = .ok (c', id)) : c'.nodeCount = c.nodeCount + 1 := by
  unfold DirectedCore.pushLabeled at h
  split_ifs at h
  cases h
  simp [DirectedCore.nodeCount]

/-- `admg.rs:208-217`. -/
def addNode (g : Admg) (node : NodeRef) : Except GraphError (Admg × Nat) :=
  if hn : node.isStaticGraphNode = true then
    match h : g.directed.pushLabeled node with
    | .ok (c, id) => .ok (⟨c, g.bidirected ++ [[]], DirectedCore.pushLabeled_valid g.valid h,
        static_pushLabeled g.static hn h, by
          rw [nodeCount_pushLabeled h]; exact biValid_append g.biValid⟩, id)
    | .error e => .error e
  else .error (.invalidEndpoints "Admg accepts only Static or Unfolded nodes")

/-- `Admg::with_variables` (`admg.rs:53-59`): one static node per variable, capacity errors
ignored. -/
def withVariables (n : Nat) : Admg :=
  (List.range n).foldl (fun g i => match g.addNode (.static i) with
    | .ok (g', _) => g'
    | .error _ => g) empty

/-- `admg.rs:237-250`. -/
def insertDirected (g : Admg) (src dst : Nat) : Except GraphError Admg :=
  if hs : src < g.nodeCount then
    if hd : dst < g.nodeCount then
      if src = dst then .error (.invalidEndpoints "Admg rejects directed self-loops")
      else
        match h : g.directed.tryInsert src dst with
        | .ok c => .ok ⟨c, g.bidirected, DirectedCore.tryInsert_valid g.valid hs hd h, by
            obtain ⟨-, -, rfl⟩ := DirectedCore.tryInsert_cases h
            exact g.static, by
            obtain ⟨-, -, rfl⟩ := DirectedCore.tryInsert_cases h
            exact g.biValid⟩
        | .error e => .error e
    else .error (.unknownNode dst)
  else .error (.unknownNode src)

/-- Both halves of a bidirected edge. -/
def pushBidirected (rows : List (List Nat)) (a b : Nat) : List (List Nat) :=
  pushRow (pushRow rows a b) b a

section

variable (h : BiValid n rows) (ha : a < n) (hb : b < n) (hab : a ≠ b)

include h ha hb hab

theorem row_pushBidirected (j : Nat) : row (pushBidirected rows a b) j =
      if j = a then row rows a ++ [b] else if j = b then row rows b ++ [a] else row rows j := by
  unfold pushBidirected
  rw [row_pushRow (by rw [length_pushRow, h.length]; exact hb),
    row_pushRow (by rw [h.length]; exact ha), row_pushRow (by rw [h.length]; exact ha)]
  by_cases h1 : j = b
  · subst h1
    rw [if_pos rfl, if_neg hab.symm, if_neg hab.symm, if_pos rfl]
  · rw [if_neg h1]
    by_cases h2 : j = a
    · rw [if_pos h2, if_pos h2]
    · rw [if_neg h2, if_neg h2, if_neg h1]

theorem mem_pushBidirected (x y : Nat) : y ∈ row (pushBidirected rows a b) x ↔
      y ∈ row rows x ∨ (x = a ∧ y = b) ∨ (x = b ∧ y = a) := by
  rw [row_pushBidirected h ha hb hab]
  split_ifs with h1 h2
  · subst h1
    simp only [List.mem_append, List.mem_singleton, true_and]
    constructor
    · tauto
    · rintro (h | h | ⟨h, -⟩)
      · exact Or.inl h
      · exact Or.inr h
      · exact absurd h hab
  · subst h2
    simp [h1]
  · simp [h1, h2]

theorem pushBidirected_valid (hnew : b ∉ row rows a) : BiValid n (pushBidirected rows a b) := by
  have hmem := mem_pushBidirected h ha hb hab
  refine ⟨by simp [pushBidirected, h.length], fun x y hxy => ?_, fun x hx => ?_,
    fun x y hxy => ?_, fun x => ?_⟩
  · rw [hmem] at hxy ⊢
    rcases hxy with hxy | ⟨rfl, rfl⟩ | ⟨rfl, rfl⟩
    · exact Or.inl (h.symm x y hxy)
    · exact Or.inr (Or.inr ⟨rfl, rfl⟩)
    · exact Or.inr (Or.inl ⟨rfl, rfl⟩)
  · rcases (hmem x x).mp hx with hx | ⟨rfl, h2⟩ | ⟨rfl, h2⟩
    · exact h.irrefl x hx
    · exact hab h2
    · exact hab h2.symm
  · rcases (hmem x y).mp hxy with hxy | ⟨-, rfl⟩ | ⟨-, rfl⟩
    · exact h.in_range x y hxy
    · exact hb
    · exact ha
  · have single : ∀ {l : List Nat} {z : Nat}, l.Nodup → z ∉ l → (l ++ [z]).Nodup := by
      intro l z hl hz
      refine List.nodup_append.mpr ⟨hl, List.nodup_singleton z, fun u hu w hw e => ?_⟩
      rw [List.mem_singleton.mp hw] at e
      exact hz (e ▸ hu)
    rw [row_pushBidirected h ha hb hab]
    split_ifs with h1 h2
    · exact single (h.nodup a) hnew
    · exact single (h.nodup b) fun hc => hnew (h.symm b a hc)
    · exact h.nodup x

end

/-- `admg.rs:257-271`. -/
def insertBidirected (g : Admg) (a b : Nat) : Except GraphError Admg :=
  if ha : a < g.nodeCount then
    if hb : b < g.nodeCount then
      if hab : a = b then .error (.invalidEndpoints "Admg rejects bidirected self-loops")
      else if hnew : (g.bidirectedNeighbors a).contains b = true then
        .error (.duplicateEdge a b)
      else .ok ⟨g.directed, pushBidirected g.bidirected a b, g.valid, g.static,
        pushBidirected_valid g.biValid ha hb hab (by simpa [bidirectedNeighbors] using hnew)⟩
    else .error (.unknownNode b)
  else .error (.unknownNode a)

/-- `admg.rs:356-365`. -/
def ancestorsOf (g : Admg) (nodes : List Nat) : Finset Nat :=
  closureInto g.nodeCount g.parents nodes fun _ _ => true

/-- `admg.rs:342-351`. -/
def descendantsOf (g : Admg) (nodes : List Nat) : Finset Nat :=
  closureInto g.nodeCount g.children nodes fun _ _ => true

def mixed (g : Admg) : MixedGraph Nat where
  dir := g.directed.Dir
  bi a b := b ∈ g.bidirectedNeighbors a
  bi_symm {a b} h := g.biValid.symm a b h

theorem acyclic (g : Admg) : g.mixed.Acyclic := g.valid.acyclic

theorem addNode_ok (hs : node.isStaticGraphNode = true) (hn : g.nodeCount ≤ u32Max) :
    ∃ g' : Admg, g.addNode node = .ok (g', g.nodeCount) ∧ g'.nodes = g.nodes ++ [node] ∧
      (∀ a b, g'.mixed.dir a b ↔ g.mixed.dir a b) ∧ ∀ a b, g'.mixed.bi a b ↔ g.mixed.bi a b := by
  have hp : g.directed.pushLabeled node = .ok (⟨g.directed.nodes ++ [node],
      g.directed.children ++ [[]], g.directed.parents ++ [[]]⟩, g.nodeCount) := if_pos hn
  unfold addNode
  rw [dif_pos hs]
  split
  · rename_i c id h
    obtain ⟨rfl, rfl⟩ := Prod.mk.inj (Except.ok.inj (hp.symm.trans h))
    refine ⟨_, rfl, rfl, fun a b => DirectedCore.dir_pushLabeled hp a b, fun a b => ?_⟩
    show b ∈ row (g.bidirected ++ [[]]) a ↔ b ∈ row g.bidirected a
    rw [row_append_nil]
  · rename_i e h
    exact absurd (hp.symm.trans h) (by simp)

/-- The graph over `n` variables: node `i` is the variable `i`, and there are no edges. -/
theorem withVariables_edgeless (hn : n ≤ u32Max + 1) :
    (withVariables n).nodes = (List.range n).map .static ∧
      (∀ a b, ¬ (withVariables n).mixed.dir a b) ∧ ∀ a b, ¬ (withVariables n).mixed.bi a b := by
  refine foldl_static nodes (fun g => (∀ a b, ¬ g.mixed.dir a b) ∧ ∀ a b, ¬ g.mixed.bi a b)
    ⟨rfl, fun _ _ => List.not_mem_nil, fun _ _ => List.not_mem_nil⟩ (fun g n hg h => ?_) hn
  obtain ⟨g', hok, hnodes, hdir, hbi⟩ :=
    addNode_ok (show (NodeRef.static n).isStaticGraphNode = true from rfl) hg
  rw [hok]
  exact ⟨hnodes, fun a b hab => h.1 a b ((hdir a b).mp hab), fun a b hab => h.2 a b ((hbi a b).mp hab)⟩

theorem withVariables_spec (hn : n ≤ u32Max + 1) : (withVariables n).nodeCount = n ∧
    (∀ a b, ¬ (withVariables n).mixed.dir a b) ∧ ∀ a b, ¬ (withVariables n).mixed.bi a b :=
  ⟨(congrArg List.length (withVariables_edgeless hn).1).trans (by simp), (withVariables_edgeless hn).2⟩

theorem nodes_withVariables (hn : n ≤ u32Max) :
    (withVariables n).nodes = (List.range n).map NodeRef.static :=
  (withVariables_edgeless (Nat.le_succ_of_le hn)).1

/-- What the checked insertion does with a new edge that closes no cycle. -/
theorem insertDirected_ok (hs : src < g.nodeCount)
    (hd : dst < g.nodeCount) (hnew : ¬ g.mixed.dir src dst) (hcyc : ¬ g.mixed.Anc dst src) :
    ∃ g' : Admg, g.insertDirected src dst = .ok g' ∧ g'.nodes = g.nodes ∧
      (∀ a b, g'.mixed.dir a b ↔ g.mixed.dir a b ∨ (a = src ∧ b = dst)) ∧
      ∀ a b, g'.mixed.bi a b ↔ g.mixed.bi a b := by
  have hne : src ≠ dst := fun e => hcyc (e ▸ ReflTransGen.refl)
  have ht := DirectedCore.tryInsert_ok g.valid hs hd hnew hcyc
  unfold insertDirected
  rw [dif_pos hs, dif_pos hd, if_neg hne]
  split
  · rename_i c h
    obtain rfl := Except.ok.inj (ht.symm.trans h)
    exact ⟨_, rfl, rfl, DirectedCore.dir_pushUnchecked g.valid hs, fun _ _ => Iff.rfl⟩
  · rename_i e h
    exact absurd (ht.symm.trans h) (by simp)

theorem insertDirected_duplicate (hs : src < g.nodeCount)
    (hd : dst < g.nodeCount) (h : g.mixed.dir src dst) :
    g.insertDirected src dst = .error (.duplicateEdge src dst) := by
  have hne : src ≠ dst := by
    rintro rfl
    exact g.acyclic src (TransGen.single h)
  have ht : g.directed.tryInsert src dst = .error (.duplicateEdge src dst) :=
    if_pos (List.contains_iff_mem.mpr h)
  unfold insertDirected
  rw [dif_pos hs, dif_pos hd, if_neg hne]
  split
  · rename_i c hc
    exact absurd (ht.symm.trans hc) (by simp)
  · rename_i e he
    rw [Except.error.inj (he.symm.trans ht)]

theorem insertBidirected_duplicate (ha : a < g.nodeCount)
    (hb : b < g.nodeCount) (h : g.mixed.bi a b) :
    g.insertBidirected a b = .error (.duplicateEdge a b) := by
  have hne : a ≠ b := by
    rintro rfl
    exact g.biValid.irrefl a h
  unfold insertBidirected
  rw [dif_pos ha, dif_pos hb, dif_neg hne, dif_pos (List.contains_iff_mem.mpr h)]

theorem insertBidirected_ok (ha : a < g.nodeCount) (hb : b < g.nodeCount)
    (hab : a ≠ b) (hnew : ¬ g.mixed.bi a b) :
    ∃ g' : Admg, g.insertBidirected a b = .ok g' ∧ g'.nodes = g.nodes ∧
      (∀ u v, g'.mixed.dir u v ↔ g.mixed.dir u v) ∧
      ∀ u v, g'.mixed.bi u v ↔ g.mixed.bi u v ∨ (u = a ∧ v = b) ∨ (u = b ∧ v = a) := by
  have hc : ¬ (g.bidirectedNeighbors a).contains b = true := by
    simpa [Admg.mixed] using hnew
  unfold insertBidirected
  rw [dif_pos ha, dif_pos hb, dif_neg hab, dif_neg hc]
  exact ⟨_, rfl, rfl, fun _ _ => Iff.rfl, mem_pushBidirected g.biValid ha hb hab⟩

theorem validateNode_ok (h : id < g.nodeCount) :
    g.validateNode id = .ok () := by
  unfold validateNode
  rw [if_neg (by omega)]

end Admg

theorem Dag.validateNode_ok {g : Dag} (h : id < g.nodeCount) :
    g.validateNode id = .ok () := by
  unfold Dag.validateNode
  rw [if_neg (by omega)]

/-! ## Closures -/

/-- **`closure_into` is the closure along the kept edges.** -/
theorem mem_closureInto {n : Nat} {next : Nat → List Nat} {seeds : List Nat}
    {keep : Nat → Nat → Bool} (hn : ∀ u w, w ∈ next u → w < n) {v : Nat} :
    v ∈ closureInto n next seeds keep ↔ ∃ s ∈ seeds, s < n ∧
      ReflTransGen (fun a b => b ∈ next a ∧ keep a b = true) s v := by
  have hU : Bounded (fun u => (next u).filter (keep u)) (seeds.filter (· < n))
      (Finset.range n) := by
    refine ⟨fun s hs => ?_, fun u _ w hw => ?_⟩
    · exact Finset.mem_range.mpr (by simpa using (List.mem_filter.mp hs).2)
    · exact Finset.mem_range.mpr (hn u w (List.mem_filter.mp hw).1)
  unfold closureInto
  rw [mem_closure hU (by rw [Finset.card_range]; exact Nat.lt_succ_self n)]
  have hrel : Reach (fun u => (next u).filter (keep u)) =
      ReflTransGen fun a b => b ∈ next a ∧ keep a b = true :=
    congrArg ReflTransGen (funext fun _ => funext fun _ => propext List.mem_filter)
  simp only [hrel, List.mem_filter, decide_eq_true_eq, and_assoc]

end Antecedent.Graph
