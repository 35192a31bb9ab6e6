import Antecedent.Io.WireForm

/-!
# The four wire forms

What the encoders and decoders of DAGs, ADMGs, CPDAGs and PAGs do, as instances of `WireForm`.

* `dag_inserts`, `admg_directed`, `admg_bidirected`, `marked_inserts`: the insertions a decoder makes.
* `dag_form`, `admg_form`, `cpdag_form`, `pag_form`.
-/

namespace Antecedent.Io

open Graph
open Machine

variable {n a b src dst : Nat} {e : Nat × Nat} {p : Statement} {r s : Nat → Nat → Prop}
  {l : List (Nat × Nat)}
  {g : Graph.Dag} {c : DirectedCore} {w : DagWire}

theorem checkGraphBudget_ok {e : Nat} : checkGraphBudget n e = .ok () ↔
    n ≤ maxGraphNodes ∧ e ≤ maxGraphEdges := by
  unfold checkGraphBudget
  split_ifs with hn he
  · simpa using fun h => absurd h (Nat.not_le.mpr hn)
  · simpa using fun _ => he
  · simpa using ⟨Nat.not_lt.mp hn, Nat.not_lt.mp he⟩

theorem countToWire_ok {m : Nat} : countToWire n = .ok m ↔ n ≤ u32Max ∧ m = n := by
  unfold countToWire
  split_ifs with h
  · simp [h, eq_comm]
  · simp [h]

/-- An encoder that refuses only what has too many nodes. -/
theorem countToWire_then {W : Type} {f : Nat → W} {w : W} :
    (countToWire n >>= fun k => .ok (f k)) = .ok w ↔ n ≤ u32Max ∧ w = f n := by
  unfold countToWire
  split_ifs with h
  · show Except.ok (f n) = Except.ok w ↔ _
    rw [Except.ok.injEq, eq_comm]
    exact (and_iff_right h).symm
  · exact iff_of_false nofun fun hw => h hw.1

/-! ## Views -/

/-- A statement of a directed edge of `r`. -/
def DirStates (r : Nat → Nat → Prop) (p : Statement) : Prop :=
  (p.2.2 = (.tail, .arrow, .empty) ∧ r p.1 p.2.1) ∨ (p.2.2 = (.arrow, .tail, .empty) ∧ r p.2.1 p.1)

instance : GraphView Graph.Dag where
  nodes := Dag.nodes
  Holds g := DirStates g.mixed.dir

instance : GraphView Admg where
  nodes := Admg.nodes
  Holds g p := DirStates g.mixed.dir p ∨ (p.2.2 = (.arrow, .arrow, .empty) ∧ g.mixed.bi p.1 p.2.1)

instance {κ : Kind} : GraphView (Pdag κ) where
  nodes := Pdag.nodes
  Holds g p := look g.adj p.1 p.2.1 = some p.2.2

instance : GraphView Pag where
  nodes := Pag.nodes
  Holds g p := look g.adj p.1 p.2.1 = some p.2.2

def directedOf (e : Nat × Nat) : MarkedEdge := .directed e.1 e.2

def undirectedOf (e : Nat × Nat) : MarkedEdge := .undirected e.1 e.2

def bidirectedOf (e : Nat × Nat) : MarkedEdge := .bidirected e.1 e.2

instance : WireView DagWire where
  nodeCount := DagWire.nodeCount
  edges w := w.edges.map directedOf

instance : WireView AdmgWire where
  nodeCount := AdmgWire.nodeCount
  edges w := w.directed.map directedOf ++ w.bidirected.map bidirectedOf

instance : WireView GraphCpdagWire where
  nodeCount := GraphCpdagWire.nodeCount
  edges w := w.directed.map directedOf ++ w.undirected.map undirectedOf

instance : WireView PagWire where
  nodeCount := PagWire.nodeCount
  edges w := w.edges.map markedFromWire

/-! ## What an edge states -/

theorem states_directedOf : states (directedOf e) p ↔
    DirStates (fun a b => a = e.1 ∧ b = e.2) p := by
  obtain ⟨a, b, v⟩ := p
  simp only [states, directedOf, MarkedEdge.directed, DirStates, Prod.mk.injEq]
  constructor
  · rintro (⟨rfl, rfl, rfl⟩ | ⟨rfl, rfl, rfl⟩)
    · exact Or.inl ⟨rfl, rfl, rfl⟩
    · exact Or.inr ⟨rfl, rfl, rfl⟩
  · rintro (⟨rfl, rfl, rfl⟩ | ⟨rfl, rfl, rfl⟩)
    · exact Or.inl ⟨rfl, rfl, rfl⟩
    · exact Or.inr ⟨rfl, rfl, rfl⟩

theorem states_bidirectedOf : states (bidirectedOf e) p ↔
    p.2.2 = (.arrow, .arrow, .empty) ∧ ((p.1 = e.1 ∧ p.2.1 = e.2) ∨ (p.1 = e.2 ∧ p.2.1 = e.1)) := by
  obtain ⟨a, b, v⟩ := p
  unfold states bidirectedOf MarkedEdge.bidirected
  split_ifs <;> simp only [Prod.mk.injEq] <;> tauto

theorem states_undirectedOf : states (undirectedOf e) p ↔
    p.2.2 = (.tail, .tail, .empty) ∧ ((p.1 = e.1 ∧ p.2.1 = e.2) ∨ (p.1 = e.2 ∧ p.2.1 = e.1)) := by
  obtain ⟨a, b, v⟩ := p
  unfold states undirectedOf MarkedEdge.undirected
  split_ifs <;> simp only [Prod.mk.injEq] <;> tauto

theorem dirStates_or {r' : Nat → Nat → Prop} (h : ∀ a b, r' a b ↔ r a b ∨ s a b) (p : Statement) :
    DirStates r' p ↔ DirStates r p ∨ DirStates s p := by
  unfold DirStates
  rw [h, h]
  tauto

theorem dirStates_exists {α : Type} {l : List α} {r : α → Nat → Nat → Prop} (p : Statement) :
    DirStates (fun a b => ∃ e ∈ l, r e a b) p ↔ ∃ e ∈ l, DirStates (r e) p := by
  unfold DirStates
  constructor
  · rintro (⟨h, e, he, hr⟩ | ⟨h, e, he, hr⟩)
    · exact ⟨e, he, Or.inl ⟨h, hr⟩⟩
    · exact ⟨e, he, Or.inr ⟨h, hr⟩⟩
  · rintro ⟨e, he, ⟨h, hr⟩ | ⟨h, hr⟩⟩
    · exact Or.inl ⟨h, e, he, hr⟩
    · exact Or.inr ⟨h, e, he, hr⟩

/-- A directed relation without two-cycles is read off its statements. -/
theorem dirStates_imp (h : ∀ p, DirStates r p → DirStates s p) (hr : r a b) : s a b := by
  rcases h (a, b, .tail, .arrow, .empty) (Or.inl ⟨rfl, hr⟩) with ⟨-, hs⟩ | ⟨hv, -⟩
  · exact hs
  · cases hv

/-! ## DAGs -/

theorem dag_insertDirected_ok {g' : Graph.Dag} (h : g.insertDirected src dst = .ok g') :
    g'.nodes = g.nodes ∧ ∀ a b, g'.mixed.dir a b ↔ g.mixed.dir a b ∨ (a = src ∧ b = dst) := by
  unfold Dag.insertDirected at h
  split_ifs at h with hs hd
  split at h
  · rename_i c hc
    cases h
    obtain ⟨-, -, rfl⟩ := DirectedCore.tryInsert_cases hc
    exact ⟨rfl, DirectedCore.dir_pushUnchecked g.valid hs⟩
  · cases h

theorem dag_inserts : Inserts (fun (g : Graph.Dag) (e : Nat × Nat) => converted (g.insertDirected e.1 e.2))
    Dag.nodes GraphView.Holds (fun e => states (directedOf e)) where
  base_eq h := (dag_insertDirected_ok (converted_ok.mp h)).1
  holds h p := by
    rw [states_directedOf]
    exact dirStates_or (dag_insertDirected_ok (converted_ok.mp h)).2 p

theorem dag_accepts {g₀ : Graph.Dag} (hn : g.nodeCount = g₀.nodeCount)
    (hsub : ∀ a b, g.mixed.dir a b → g₀.mixed.dir a b) (he : g₀.mixed.dir src dst)
    (hnew : ¬ g.mixed.dir src dst) : ∃ g', g.insertDirected src dst = .ok g' := by
  obtain ⟨hs, hd⟩ := g₀.valid.in_range src dst he
  have hs' : src < g.nodeCount := hn ▸ hs
  have hd' : dst < g.nodeCount := hn ▸ hd
  have ht := DirectedCore.tryInsert_ok g.valid hs' hd' hnew fun hr =>
    g₀.valid.acyclic src (Relation.TransGen.head' he (Relation.ReflTransGen.mono hsub _ _ hr))
  unfold Dag.insertDirected
  rw [dif_pos hs', dif_pos hd']
  split
  · exact ⟨_, rfl⟩
  · rename_i e h
    exact absurd (ht.symm.trans h) (by simp)

theorem mem_markedEdges (hc : c.Valid) {e : MarkedEdge} :
    e ∈ markedEdges c ↔ ∃ a b, c.Dir a b ∧ e = .directed a b := by
  unfold markedEdges
  rw [List.mem_flatMap]
  constructor
  · rintro ⟨a, -, ha⟩
    obtain ⟨b, hb, rfl⟩ := List.mem_map.mp ha
    exact ⟨a, b, hb, rfl⟩
  · rintro ⟨a, b, hab, rfl⟩
    refine ⟨a, ?_, List.mem_map.mpr ⟨b, hab, rfl⟩⟩
    rw [List.mem_range, hc.children_length]
    exact (hc.in_range a b hab).1

theorem nodup_markedEdges (hc : c.Valid) : (markedEdges c).Nodup := by
  unfold markedEdges
  refine List.nodup_flatMap.mpr ⟨fun a _ => ?_, ?_⟩
  · refine (hc.children_nodup a).map fun b b' h => ?_
    simpa [MarkedEdge.directed] using h
  · refine List.nodup_range.imp fun {a a'} hne e ha ha' => ?_
    obtain ⟨b, -, rfl⟩ := List.mem_map.mp ha
    obtain ⟨b', -, he⟩ := List.mem_map.mp ha'
    exact hne (congrArg MarkedEdge.a he).symm

theorem mapM_directedPair : ∀ {l : List MarkedEdge}, (∀ e ∈ l, ∃ a b, e = .directed a b) →
    l.mapM directedPair = .ok (l.map fun e => (e.a, e.b))
  | [], _ => rfl
  | e :: l, h => by
    obtain ⟨a, b, rfl⟩ := h e List.mem_cons_self
    rw [List.mapM_cons, mapM_directedPair fun f hf => h f (List.mem_cons_of_mem _ hf)]
    rfl

/-- The pairs `dag_to_wire` lists. -/
theorem dagToWire_eq : dagToWire g = .ok w ↔ g.nodeCount ≤ u32Max ∧
    w = ⟨g.nodeCount, (markedEdges g.directed).map fun e => (e.a, e.b)⟩ := by
  unfold dagToWire
  rw [mapM_directedPair fun e he => by
    obtain ⟨a, b, -, h⟩ := (mem_markedEdges g.valid).mp he
    exact ⟨a, b, h⟩]
  exact countToWire_then

/-- Different directed pairs state different things. -/
theorem pairwise_directed (hl : l.Nodup) : l.Pairwise fun e f =>
    ∀ p, states (directedOf e) p → ¬ states (directedOf f) p := by
  refine hl.pairwise_of_forall_ne fun e he f hf hne p hp hq => ?_
  obtain ⟨a, b, v⟩ := p
  rcases states_directedOf.mp hp with ⟨hv, h1, h2⟩ | ⟨hv, h1, h2⟩ <;>
    rcases states_directedOf.mp hq with ⟨hv', h3, h4⟩ | ⟨hv', h3, h4⟩
  · exact hne (Prod.ext (h1.symm.trans h3) (h2.symm.trans h4))
  · exact absurd (hv.symm.trans hv') (by decide)
  · exact absurd (hv.symm.trans hv') (by decide)
  · exact hne (Prod.ext (h1.symm.trans h3) (h2.symm.trans h4))

section Even

variable {edge : Nat × Nat → MarkedEdge} {v : Marks} {l : List (Nat × Nat)}

variable
  (hedge : ∀ {e p}, states (edge e) p ↔ p.2.2 = v ∧ ((p.1 = e.1 ∧ p.2.1 = e.2) ∨ (p.1 = e.2 ∧ p.2.1 = e.1)))

include hedge

/-- Different pairs with the smaller node first state different things. -/
theorem pairwise_even (hl : l.Nodup) (hlt : ∀ e ∈ l, e.1 < e.2) :
    l.Pairwise fun e f => ∀ p, states (edge e) p → ¬ states (edge f) p := by
  refine hl.pairwise_of_forall_ne fun e he f hf hne p hp hq => hne ?_
  have h1 := hlt e he
  have h2 := hlt f hf
  obtain ⟨-, h⟩ := hedge.mp hp
  obtain ⟨-, h'⟩ := hedge.mp hq
  exact Prod.ext (by omega) (by omega)

/-- The listed pairs state the symmetric relation they are the pairs of. -/
theorem exists_states_even {r : Nat → Nat → Prop} (hl : ∀ {a b}, (a, b) ∈ l ↔ a < b ∧ r a b)
    (hsymm : ∀ {a b}, r a b → r b a) (hne : ∀ {a b}, r a b → a ≠ b) (p : Statement) :
    (∃ e ∈ l, states (edge e) p) ↔ p.2.2 = v ∧ r p.1 p.2.1 := by
  constructor
  · rintro ⟨⟨a, b⟩, he, hs⟩
    obtain ⟨-, hr⟩ := hl.mp he
    obtain ⟨hv, ⟨h1, h2⟩ | ⟨h1, h2⟩⟩ := hedge.mp hs
    · exact ⟨hv, h1 ▸ h2 ▸ hr⟩
    · exact ⟨hv, h1 ▸ h2 ▸ hsymm hr⟩
  · rintro ⟨hv, hr⟩
    rcases Nat.lt_or_gt_of_ne (hne hr) with hlt | hlt
    · exact ⟨_, hl.mpr ⟨hlt, hr⟩, hedge.mpr ⟨hv, Or.inl ⟨rfl, rfl⟩⟩⟩
    · exact ⟨_, hl.mpr ⟨hlt, hsymm hr⟩, hedge.mpr ⟨hv, Or.inr ⟨rfl, rfl⟩⟩⟩

end Even

theorem exists_states_directed
    (hl : ∀ a b, (a, b) ∈ l ↔ r a b) (p : Statement) :
    (∃ e ∈ l, states (directedOf e) p) ↔ DirStates r p := by
  have hr : r = fun a b => ∃ e ∈ l, a = e.1 ∧ b = e.2 := by
    funext a b
    refine propext ⟨fun h => ⟨(a, b), (hl a b).mpr h, rfl, rfl⟩, ?_⟩
    rintro ⟨⟨a, b⟩, he, rfl, rfl⟩
    exact (hl a b).mp he
  rw [hr, dirStates_exists]
  simp only [states_directedOf]

theorem exists_mem_map {α β : Type} {f : α → β} {l : List α} {P : β → Prop} :
    (∃ b ∈ l.map f, P b) ↔ ∃ a ∈ l, P (f a) := by
  simp

theorem exists_states_append {l l' : List (Nat × Nat)} {f f' : Nat × Nat → MarkedEdge}
    (p : Statement) : (∃ e ∈ l.map f ++ l'.map f', states e p) ↔
      (∃ e ∈ l, states (f e) p) ∨ ∃ e ∈ l', states (f' e) p := by
  simp only [List.mem_append, or_and_right, exists_or, exists_mem_map]

theorem mem_pairs :
    (a, b) ∈ (markedEdges g.directed).map (fun e => (e.a, e.b)) ↔ g.mixed.dir a b := by
  rw [List.mem_map]
  constructor
  · rintro ⟨e, he, hab⟩
    obtain ⟨a', b', hd, rfl⟩ := (mem_markedEdges g.valid).mp he
    cases hab
    exact hd
  · exact fun h => ⟨.directed a b, (mem_markedEdges g.valid).mpr ⟨a, b, h, rfl⟩, rfl⟩

theorem nodup_pairs (g : Graph.Dag) : ((markedEdges g.directed).map fun e => (e.a, e.b)).Nodup := by
  refine List.Nodup.map_on (fun e he f hf hef => ?_) (nodup_markedEdges g.valid)
  obtain ⟨a, b, -, rfl⟩ := (mem_markedEdges g.valid).mp he
  obtain ⟨a', b', -, rfl⟩ := (mem_markedEdges g.valid).mp hf
  cases hef
  rfl

theorem dag_withVariables (hn : n ≤ u32Max + 1) :
    (Dag.withVariables n).nodes = staticNodes n ∧ ∀ p, ¬ GraphView.Holds (Dag.withVariables n) p := by
  obtain ⟨hnodes, hdir⟩ := Dag.withVariables_spec hn
  refine ⟨hnodes, ?_⟩
  rintro p (⟨-, h⟩ | ⟨-, h⟩)
  · exact hdir _ _ h
  · exact hdir _ _ h

/-- What `dag_from_wire` builds. -/
theorem dagFromWire_ok (h : dagFromWire w = .ok g) :
    w.nodeCount ≤ maxGraphNodes ∧ g.nodes = staticNodes w.nodeCount ∧
      ∀ p, GraphView.Holds g p ↔ ∃ e ∈ w.edges, states (directedOf e) p := by
  obtain ⟨_, hb, h⟩ := bind_ok h
  obtain ⟨g', hf, h⟩ := bind_ok h
  obtain ⟨_, -, h⟩ := bind_ok h
  cases h
  obtain ⟨hn, -⟩ := checkGraphBudget_ok.mp hb
  obtain ⟨hnodes, hholds⟩ := dag_inserts.foldlM hf
  obtain ⟨hv, hempty⟩ := dag_withVariables (n := w.nodeCount)
    (hn.trans (maxGraphNodes_le.trans (Nat.le_succ _)))
  refine ⟨hn, hnodes.trans hv, fun p => ?_⟩
  rw [hholds, or_iff_right (hempty p)]

theorem dag_noMiddle : NoMiddle g := by
  rintro p (⟨h, -⟩ | ⟨h, -⟩)
  all_goals exact congrArg (fun v : Marks => v.2.2) h

theorem dag_form : WireForm dagToWire dagFromWire (fun _ => False)
    (fun g => (markedEdges g.directed).length) where
  encodes _ hn := ⟨_, dagToWire_eq.mpr ⟨hn, rfl⟩⟩
  refuses _ h := h
  encoded_count h := by
    rw [(dagToWire_eq.mp h).2]
    rfl
  encoded h p := by
    rw [(dagToWire_eq.mp h).2, dag_noMiddle.wiped_iff]
    exact exists_mem_map.trans (exists_states_directed (fun a b => mem_pairs) p)
  decoded_count h := (dagFromWire_ok h).1
  decoded_nodes h := (dagFromWire_ok h).2.1
  decoded {w g} h p := ((dagFromWire_ok h).2.2 p).trans
    (exists_mem_map (f := directedOf) (l := w.edges) (P := fun e => states e p)).symm
  decoded_kept _ h := h
  listed_middle w e he := by
    obtain ⟨f, -, rfl⟩ := List.mem_map.mp he
    rfl
  accepts {g w} h hn he _ := by
    rw [(dagToWire_eq.mp h).2]
    have hn' : g.nodeCount ≤ u32Max + 1 := hn.trans (maxGraphNodes_le.trans (Nat.le_succ _))
    obtain ⟨hv, hempty⟩ := dag_withVariables hn'
    obtain ⟨g', hok⟩ := dag_inserts.accepts (T := DirStates g.mixed.dir) (b := staticNodes g.nodeCount)
      (l := (markedEdges g.directed).map fun e => (e.a, e.b)) (g := Dag.withVariables g.nodeCount) hv
      (fun p hp => absurd hp (hempty p))
      (fun e he p hp => ⟨(exists_states_directed (fun a b => mem_pairs) p).mp ⟨e, he, hp⟩, hempty p⟩)
      (pairwise_directed (nodup_pairs g))
      (fun e he g₁ hg₁ hsub hnew => by
        obtain ⟨g₂, hg₂⟩ := dag_accepts (length_of_static hg₁) (fun a b hab => dirStates_imp hsub hab)
          (mem_pairs.mp he) fun hold => hnew (e.1, e.2, .tail, .arrow, .empty)
            (states_directedOf.mpr (Or.inl ⟨rfl, rfl, rfl⟩)) (Or.inl ⟨rfl, hold⟩)
        exact ⟨g₂, converted_ok.mpr hg₂⟩)
    refine ⟨g', ?_⟩
    unfold dagFromWire
    simp only
    rw [show checkGraphBudget g.nodeCount _ = .ok () from
      checkGraphBudget_ok.mpr ⟨hn, by rwa [List.length_map]⟩, hok]
    show (converted g'.validate >>= fun _ => Except.ok g') = _
    rw [g'.validate_ok]
    rfl

end Antecedent.Io
