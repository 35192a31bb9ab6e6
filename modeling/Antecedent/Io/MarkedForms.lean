import Antecedent.Io.GraphForms

/-!
# The wire forms of PAGs and CPDAGs

Both keep their edges in marked rows. A PAG lists each edge from its smaller node; a CPDAG lists its
directed edges and then its undirected ones, and refuses a conflict.

* `updates_holds`, `fits_new`: what an insertion adds, and when one is not refused.
* **`pag_form`**, **`cpdag_form`**.
-/

namespace Antecedent.Io

open Graph Relation
open Machine

/-! ## Rows -/

section Rows

variable {n : Nat} {adj₀ adj adj' : MarkedRows} {e : MarkedEdge}

theorem updates_holds (h : Stored n adj) (hne : e.a ≠ e.b) (hnew : look adj e.a e.b = none)
    (hu : Updates adj adj' e.a e.b (e.atA, e.atB, e.middle)) (p : Statement) :
    look adj' p.1 p.2.1 = some p.2.2 ↔ look adj p.1 p.2.1 = some p.2.2 ∨ states e p := by
  obtain ⟨x, y, v⟩ := p
  have hnew' : look adj e.b e.a = none := by rw [h.look_symm, hnew]; rfl
  rw [hu]
  unfold states
  simp only [Prod.mk.injEq]
  by_cases h1 : x = e.a ∧ y = e.b
  · rw [if_pos h1, h1.1, h1.2, hnew]
    simp [hne, eq_comm]
  · rw [if_neg h1]
    split_ifs with h2
    · rw [h2.1, h2.2, hnew']
      simp [hne.symm, Marks.flip, eq_comm]
    · constructor
      · exact Or.inl
      · rintro (hl | ⟨hx, hy, -⟩ | ⟨hx, hy, -⟩)
        · exact hl
        · exact absurd ⟨hx, hy⟩ h1
        · exact absurd ⟨hx, hy⟩ h2

/-- What the insertions check holds of an edge of a graph that is new in a part of it. -/
theorem fits_new (h₀ : Stored n adj₀) (hac : DirAcyclic adj₀)
    (hsub : ∀ x y v, look adj x y = some v → look adj₀ x y = some v)
    (he : look adj₀ e.a e.b = some (e.atA, e.atB, e.middle))
    (hnew : look adj e.a e.b ≠ some (e.atA, e.atB, e.middle)) :
    e.a < n ∧ e.b < n ∧ e.a ≠ e.b ∧ look adj e.a e.b = none ∧
      ∀ src dst, e.parentChild = some (src, dst) → ¬ ReflTransGen (Dir adj) dst src := by
  obtain ⟨ha, hb⟩ := h₀.lt_of_look he
  refine ⟨ha, hb, h₀.ne_of_look he, ?_, fun src dst hpc hr => ?_⟩
  · cases hl : look adj e.a e.b with
    | none => rfl
    | some v =>
      obtain rfl := Option.some.inj ((hsub _ _ v hl).symm.trans he)
      exact absurd hl hnew
  · have hd : Dir adj₀ src dst := by
      rcases parentChild_eq_some.mp hpc with ⟨h1, h2, rfl, rfl⟩ | ⟨h1, h2, rfl, rfl⟩
      · exact ⟨e.middle, by rw [he, h1, h2]⟩
      · exact ⟨e.middle, by rw [h₀.mirrored _ _ _ he, Marks.flip, h1, h2]⟩
    exact hac src (TransGen.head' hd
      (ReflTransGen.mono (fun x y hd => hd.imp fun m => hsub x y _) _ _ hr))

end Rows

/-- `e` joins `x` and `y`. -/
def Ends (e : MarkedEdge) (x y : Nat) : Prop := (x = e.a ∧ y = e.b) ∨ (x = e.b ∧ y = e.a)

variable {e : MarkedEdge} {g : Cpdag} {w : GraphCpdagWire} {p : Statement}

theorem ends_of_states (h : states e p) : Ends e p.1 p.2.1 := by
  rcases h with rfl | rfl
  · exact Or.inl ⟨rfl, rfl⟩
  · exact Or.inr ⟨rfl, rfl⟩

/-! ## PAGs -/

theorem pag_insertMarked_ok {g g' : Pag} (h : g.insertMarked e = .ok g') :
    g'.nodes = g.nodes ∧ ∀ p, GraphView.Holds g' p ↔ GraphView.Holds g p ∨ states e p := by
  unfold Pag.insertMarked at h
  split_ifs at h with hne ha hb
  split at h
  · cases h
  · rename_i adj hi
    cases h
    obtain ⟨hnew, -, -, hu⟩ := insertMarkedFinish_ok g.stored g.acyclic ha hb hne hi
    exact ⟨rfl, updates_holds g.stored hne hnew hu⟩

theorem pag_insertMarked_new {g : Pag} (ha : e.a < g.nodeCount)
    (hb : e.b < g.nodeCount) (hne : e.a ≠ e.b) (hnone : look g.adj e.a e.b = none)
    (hcyc : ∀ src dst, e.parentChild = some (src, dst) →
      ¬ ReflTransGen (Dir g.adj) dst src) : ∃ g', g.insertMarked e = .ok g' := by
  have hfin := insertMarkedFinish_new g.stored hcyc ha hb hnone
  unfold Pag.insertMarked
  rw [dif_neg hne, dif_pos ha, dif_pos hb]
  split
  · rename_i err h
    exact absurd (hfin.symm.trans h) (by simp)
  · exact ⟨_, rfl⟩

theorem pag_accepts {g₀ g : Pag} (hn : g.nodeCount = g₀.nodeCount)
    (hsub : ∀ p, GraphView.Holds g p → GraphView.Holds g₀ p)
    (he : GraphView.Holds g₀ (e.a, e.b, e.atA, e.atB, e.middle))
    (hnew : ¬ GraphView.Holds g (e.a, e.b, e.atA, e.atB, e.middle)) :
    ∃ g', g.insertMarked e = .ok g' := by
  obtain ⟨ha, hb, hne, hnone, hcyc⟩ := fits_new g₀.stored g₀.acyclic
    (fun x y v hl => hsub (x, y, v) hl) he hnew
  exact pag_insertMarked_new (hn ▸ ha : e.a < g.nodeCount) (hn ▸ hb : e.b < g.nodeCount) hne hnone hcyc

theorem pag_inserts :
    Inserts (fun (g : Pag) (e : MarkedEdgeWire) => converted (g.insertMarked (markedFromWire e)))
      Pag.nodes GraphView.Holds (fun e => states (markedFromWire e)) where
  base_eq h := (pag_insertMarked_ok (converted_ok.mp h)).1
  holds h := (pag_insertMarked_ok (converted_ok.mp h)).2

@[simp] theorem endpoint_roundTrip (e : Endpoint) : endpointFromWire (endpointToWire e) = e := by
  cases e <;> rfl

@[simp] theorem endpointWire_roundTrip (e : EndpointWire) :
    endpointToWire (endpointFromWire e) = e := by
  cases e <;> rfl

section PagEncoder

variable {g : Pag}

theorem mem_pagEdges {e : MarkedEdgeWire} : e ∈ pagEdgesToWire g ↔ e.a < e.b ∧
    ∃ m, look g.adj e.a e.b = some (endpointFromWire e.atA, endpointFromWire e.atB, m) := by
  unfold pagEdgesToWire pagRowToWire
  simp only [List.mem_flatMap, List.mem_range, List.mem_map, List.mem_filter, decide_eq_true_eq]
  constructor
  · rintro ⟨a, -, ⟨b, s, t⟩, ⟨hmem, hlt⟩, rfl⟩
    obtain ⟨m, hm⟩ := g.mem_neighbors.mp hmem
    refine ⟨hlt, m, ?_⟩
    rw [endpoint_roundTrip, endpoint_roundTrip]
    exact hm
  · rintro ⟨hlt, m, hm⟩
    refine ⟨e.a, (g.stored.lt_of_look hm).1, (e.b, endpointFromWire e.atA, endpointFromWire e.atB),
      ⟨g.mem_neighbors.mpr ⟨m, hm⟩, hlt⟩, ?_⟩
    simp

theorem nodup_pagEdges : (pagEdgesToWire g).Nodup := by
  unfold pagEdgesToWire pagRowToWire
  refine List.nodup_flatMap.mpr ⟨fun a _ => ?_, ?_⟩
  · have hrow : ((g.neighbors a).map Prod.fst).Nodup := by
      have h := g.stored.nodup a
      unfold Pag.neighbors Graph.neighbors
      rwa [List.map_map]
    refine List.Nodup.map_on (fun d hd d' hd' he => ?_) (hrow.of_map.filter _)
    obtain ⟨b, s, t⟩ := d
    obtain ⟨b', s', t'⟩ := d'
    simp only [MarkedEdgeWire.mk.injEq, true_and] at he
    obtain ⟨rfl, hs, ht⟩ := he
    rw [← endpoint_roundTrip s, hs, endpoint_roundTrip, ← endpoint_roundTrip t, ht,
      endpoint_roundTrip]
  · refine List.nodup_range.imp fun {a a'} hne e ha ha' => ?_
    obtain ⟨b, -, rfl⟩ := List.mem_map.mp ha
    obtain ⟨b', -, he⟩ := List.mem_map.mp ha'
    exact hne (congrArg MarkedEdgeWire.a he).symm

theorem states_pagEdges (p : Statement) :
    (∃ e ∈ pagEdgesToWire g, states (markedFromWire e) p) ↔ Wiped g p := by
  obtain ⟨x, y, s, t, m⟩ := p
  constructor
  · rintro ⟨e, he, hs⟩
    obtain ⟨-, m', hl⟩ := mem_pagEdges.mp he
    rcases hs with hs | hs
    · cases hs
      exact ⟨rfl, m', hl⟩
    · cases hs
      exact ⟨rfl, m', g.stored.mirrored _ _ _ hl⟩
  · rintro ⟨hm, m', hl⟩
    obtain rfl : m = .empty := hm
    have hl : look g.adj x y = some (s, t, m') := hl
    rcases Nat.lt_or_gt_of_ne (g.stored.ne_of_look hl) with hlt | hlt
    · refine ⟨⟨x, y, endpointToWire s, endpointToWire t⟩, mem_pagEdges.mpr ⟨hlt, m', ?_⟩, Or.inl ?_⟩
      · simpa using hl
      · simp [markedFromWire]
    · refine ⟨⟨y, x, endpointToWire t, endpointToWire s⟩, mem_pagEdges.mpr ⟨hlt, m', ?_⟩, Or.inr ?_⟩
      · simpa [Marks.flip] using g.stored.mirrored _ _ _ hl
      · simp [markedFromWire]

/-- Different listed edges join different nodes. -/
theorem pairwise_pagEdges : (pagEdgesToWire g).Pairwise fun e f =>
    ∀ p, states (markedFromWire e) p → ¬ states (markedFromWire f) p := by
  refine nodup_pagEdges.pairwise_of_forall_ne fun e he f hf hne p hp hq => hne ?_
  obtain ⟨h1, m, hl⟩ := mem_pagEdges.mp he
  obtain ⟨h2, m', hl'⟩ := mem_pagEdges.mp hf
  have hab : e.a = f.a ∧ e.b = f.b := by
    have h3 := ends_of_states hp
    have h4 := ends_of_states hq
    simp only [Ends, markedFromWire] at h3 h4
    omega
  rw [hab.1, hab.2, hl'] at hl
  have hs := congrArg endpointToWire (Prod.mk.inj (Option.some.inj hl)).1
  have ht := congrArg endpointToWire (Prod.mk.inj (Prod.mk.inj (Option.some.inj hl)).2).1
  rw [endpointWire_roundTrip, endpointWire_roundTrip] at hs ht
  obtain ⟨a, b, s, t⟩ := e
  obtain ⟨a', b', s', t'⟩ := f
  simp only at hab hs ht
  rw [hab.1, hab.2, hs, ht]

theorem pagToWire_eq {w : PagWire} : pagToWire g = .ok w ↔ g.nodeCount ≤ u32Max ∧
    w = ⟨g.nodeCount, pagEdgesToWire g⟩ := countToWire_then

end PagEncoder

theorem pag_withVariables {n : Nat} (hn : n ≤ u32Max + 1) :
    (Pag.withVariables n).nodes = staticNodes n ∧ ∀ p, ¬ GraphView.Holds (Pag.withVariables n) p := by
  refine foldl_static Pag.nodes (fun g => ∀ p, ¬ GraphView.Holds g p) ⟨rfl, fun p hp => ?_⟩
    (fun g n hg h => ?_) hn
  · exact absurd (show look [] p.1 p.2.1 = some p.2.2 from hp) (by simp [look, row])
  · unfold Pag.addNode
    rw [dif_pos (show (NodeRef.static n).isStaticGraphNode = true from rfl), dif_pos hg]
    refine ⟨rfl, fun p hp => h p ?_⟩
    exact (look_append_nil g.adj p.1 p.2.1).symm.trans hp

theorem pagFromWire_ok {w : PagWire} {g : Pag} (h : pagFromWire w = .ok g) :
    w.nodeCount ≤ maxGraphNodes ∧ g.nodes = staticNodes w.nodeCount ∧
      ∀ p, GraphView.Holds g p ↔ Listed w p := by
  obtain ⟨_, hb, hf⟩ := bind_ok h
  obtain ⟨hn, -⟩ := checkGraphBudget_ok.mp hb
  obtain ⟨hnodes, hholds⟩ := pag_inserts.foldlM hf
  obtain ⟨hv, hempty⟩ := pag_withVariables (n := w.nodeCount)
    (hn.trans (maxGraphNodes_le.trans (Nat.le_succ _)))
  refine ⟨hn, hnodes.trans hv, fun p => ?_⟩
  rw [hholds, or_iff_right (hempty p)]
  exact (exists_mem_map (f := markedFromWire) (l := w.edges) (P := fun e => states e p)).symm

theorem pag_form : WireForm pagToWire pagFromWire (fun _ => False)
    (fun g => (pagEdgesToWire g).length) where
  encodes _ hn := ⟨_, pagToWire_eq.mpr ⟨hn, rfl⟩⟩
  refuses _ h := h
  encoded_count h := by
    rw [(pagToWire_eq.mp h).2]
    rfl
  encoded h p := by
    rw [(pagToWire_eq.mp h).2, ← states_pagEdges]
    exact exists_mem_map
  decoded_count h := (pagFromWire_ok h).1
  decoded_nodes h := (pagFromWire_ok h).2.1
  decoded h p := (pagFromWire_ok h).2.2 p
  decoded_kept _ h := h
  listed_middle w e he := by
    obtain ⟨f, -, rfl⟩ := List.mem_map.mp he
    rfl
  accepts {g w} h hn he hmid := by
    rw [(pagToWire_eq.mp h).2]
    obtain ⟨hv, hempty⟩ := pag_withVariables (n := g.nodeCount)
      (hn.trans (maxGraphNodes_le.trans (Nat.le_succ _)))
    have hstates : ∀ e ∈ pagEdgesToWire g, ∀ p, states (markedFromWire e) p →
        GraphView.Holds g p := fun e he p hp =>
      (hmid.wiped_iff p).mp ((states_pagEdges p).mp ⟨e, he, hp⟩)
    obtain ⟨g', hok⟩ := pag_inserts.accepts (T := GraphView.Holds g) (b := staticNodes g.nodeCount)
      hv (fun p hp => absurd hp (hempty p)) (fun e he p hp => ⟨hstates e he p hp, hempty p⟩)
      pairwise_pagEdges (fun e he g₁ hg₁ hsub hnew => by
        obtain ⟨g₂, hg₂⟩ := pag_accepts (length_of_static hg₁) hsub (hstates e he _ (Or.inl rfl))
          (hnew _ (Or.inl rfl))
        exact ⟨g₂, converted_ok.mpr hg₂⟩)
    refine ⟨g', ?_⟩
    unfold pagFromWire
    simp only
    rw [show checkGraphBudget g.nodeCount _ = .ok () from checkGraphBudget_ok.mpr ⟨hn, he⟩]
    exact hok

/-! ## CPDAGs -/

theorem cpdag_insertMarked_ok {g g' : Cpdag} (h : g.insertMarked e = .ok g') :
    g'.nodes = g.nodes ∧ ∀ p, GraphView.Holds g' p ↔ GraphView.Holds g p ∨ states e p := by
  unfold Pdag.insertMarked at h
  split_ifs at h with hl ha hb hne
  · split at h <;> cases h
  · split at h
    · cases h
    · split at h
      · cases h
      · split at h
        · cases h
        · rename_i adj hi
          cases h
          obtain ⟨hnew, -, -, hu⟩ := insertMarkedFinish_ok g.stored g.acyclic ha hb hne hi
          exact ⟨rfl, updates_holds g.stored hne hnew hu⟩

theorem cpdag_accepts {g₀ g : Cpdag} (hlegal : e.isCpdagLegal = true)
    (hn : g.nodeCount = g₀.nodeCount) (hsub : ∀ p, GraphView.Holds g p → GraphView.Holds g₀ p)
    (he : GraphView.Holds g₀ (e.a, e.b, e.atA, e.atB, e.middle))
    (hnew : ¬ GraphView.Holds g (e.a, e.b, e.atA, e.atB, e.middle)) :
    ∃ g', g.insertMarked e = .ok g' := by
  obtain ⟨ha, hb, hne, hnone, hcyc⟩ := fits_new g₀.stored g₀.acyclic
    (fun x y v hl => hsub (x, y, v) hl) he hnew
  obtain ⟨g', hok, -⟩ := g.insertMarked_ok hlegal hcyc (hn ▸ ha : e.a < g.nodeCount)
    (hn ▸ hb : e.b < g.nodeCount) hne hnone
  exact ⟨g', hok⟩

theorem cpdag_directed_inserts :
    Inserts (fun (g : Cpdag) (e : Nat × Nat) => converted (g.insertDirected e.1 e.2)) Pdag.nodes
      GraphView.Holds (fun e => states (directedOf e)) where
  base_eq h := (cpdag_insertMarked_ok (converted_ok.mp h)).1
  holds h := (cpdag_insertMarked_ok (converted_ok.mp h)).2

theorem cpdag_undirected_inserts :
    Inserts (fun (g : Cpdag) (e : Nat × Nat) => converted (g.insertUndirected e.1 e.2)) Pdag.nodes
      GraphView.Holds (fun e => states (undirectedOf e)) where
  base_eq h := (cpdag_insertMarked_ok (converted_ok.mp h)).1
  holds h := (cpdag_insertMarked_ok (converted_ok.mp h)).2

/-- An edge `cpdag_to_wire` writes: one with two definite marks, or an undirected one. -/
def Writable (e : MarkedEdge) : Prop := e.parentChild.isSome = true ∨ e.isUndirected = true

/-- The pair an undirected edge is written as. -/
def smallerFirst (e : MarkedEdge) : Nat × Nat := if e.a ≤ e.b then (e.a, e.b) else (e.b, e.a)

theorem parentChild_of_undirected (h : e.isUndirected = true) :
    e.parentChild = none := by
  obtain ⟨a, b, s, t, m⟩ := e
  cases s <;> cases t <;> first | rfl | exact absurd h Bool.false_ne_true

/-- The loop of `cpdag_to_wire` writes every edge or refuses one. -/
theorem foldlM_pushCpdagEdge : ∀ {l : List MarkedEdge} {lists r : List (Nat × Nat) × List (Nat × Nat)},
    l.foldlM pushCpdagEdge lists = .ok r ↔ (∀ e ∈ l, Writable e) ∧
      r = (lists.1 ++ l.filterMap MarkedEdge.parentChild,
        lists.2 ++ (l.filter MarkedEdge.isUndirected).map smallerFirst)
  | [], lists, r => by
    show Except.ok lists = Except.ok r ↔ _
    simp [eq_comm]
  | e :: l, lists, r => by
    rw [List.foldlM_cons, List.forall_mem_cons, List.filterMap_cons, List.filter_cons]
    unfold pushCpdagEdge Writable
    cases hp : e.parentChild with
    | some pair =>
      have hu : e.isUndirected = false := by
        rw [Bool.eq_false_iff]
        exact fun hu => absurd ((parentChild_of_undirected hu).symm.trans hp) (by simp)
      show l.foldlM pushCpdagEdge (lists.1 ++ [pair], lists.2) = .ok r ↔ _
      rw [foldlM_pushCpdagEdge, hu]
      simp [Writable]
    | none =>
      cases hu : e.isUndirected with
      | true =>
        show l.foldlM pushCpdagEdge (lists.1, lists.2 ++ [smallerFirst e]) = .ok r ↔ _
        rw [foldlM_pushCpdagEdge]
        simp [Writable]
      | false =>
        show Except.error _ = Except.ok r ↔ _
        simp

section CpdagEncoder

variable {g : Cpdag} {a b : Nat}

theorem conflict_iff : 0 < g.conflictEdgeCount ↔ ∃ e ∈ g.edges, ¬ Writable e := by
  unfold Pdag.conflictEdgeCount
  rw [List.length_pos_iff_exists_mem]
  simp only [List.mem_filter]
  refine exists_congr fun e => and_congr_right fun he => ?_
  obtain ⟨a, b, s, t, m⟩ := e
  have hleg := g.legal a b _ (g.mem_edges.mp he).2
  unfold Writable
  cases s <;> cases t <;>
    simp_all [MarkedEdge.isCpdagLegal, MarkedEdge.isConflict, MarkedEdge.parentChild,
      MarkedEdge.isUndirected]

/-- The pairs `cpdag_to_wire` lists as directed. -/
def cpdagDirected (g : Cpdag) : List (Nat × Nat) := g.edges.filterMap MarkedEdge.parentChild

/-- The pairs `cpdag_to_wire` lists as undirected. -/
def cpdagUndirected (g : Cpdag) : List (Nat × Nat) :=
  (g.edges.filter MarkedEdge.isUndirected).map smallerFirst

theorem cpdagToWire_eq {w : GraphCpdagWire} : cpdagToWire g = .ok w ↔ g.nodeCount ≤ u32Max ∧
    ¬ 0 < g.conflictEdgeCount ∧ w = ⟨g.nodeCount, cpdagDirected g, cpdagUndirected g⟩ := by
  unfold cpdagToWire
  constructor
  · intro h
    obtain ⟨n, hcount, h⟩ := bind_ok h
    obtain ⟨lists, hl, h⟩ := bind_ok h
    obtain ⟨hn, rfl⟩ := countToWire_ok.mp hcount
    obtain ⟨hw, rfl⟩ := foldlM_pushCpdagEdge.mp hl
    cases h
    refine ⟨hn, fun hc => ?_, rfl⟩
    obtain ⟨e, he, hne⟩ := conflict_iff.mp hc
    exact hne (hw e he)
  · rintro ⟨hn, hc, rfl⟩
    have hw : ∀ e ∈ g.edges, Writable e := fun e he =>
      by_contra fun h => hc (conflict_iff.mpr ⟨e, he, h⟩)
    rw [countToWire_ok.mpr ⟨hn, rfl⟩]
    show (g.edges.foldlM pushCpdagEdge ([], []) >>= fun lists =>
      Except.ok (GraphCpdagWire.mk g.nodeCount lists.1 lists.2)) = _
    rw [foldlM_pushCpdagEdge.mpr ⟨hw, rfl⟩]
    rfl

theorem mem_cpdagDirected : (a, b) ∈ cpdagDirected g ↔ Dir g.adj a b := by
  unfold cpdagDirected
  rw [List.mem_filterMap]
  constructor
  · rintro ⟨e, he, hp⟩
    obtain ⟨-, hl⟩ := g.mem_edges.mp he
    rcases parentChild_eq_some.mp hp with ⟨h1, h2, rfl, rfl⟩ | ⟨h1, h2, rfl, rfl⟩
    · exact ⟨e.middle, by rw [hl, h1, h2]⟩
    · exact ⟨e.middle, by rw [g.stored.mirrored _ _ _ hl, Marks.flip, h1, h2]⟩
  · rintro ⟨m, hm⟩
    rcases g.exists_edge hm with ⟨-, he⟩ | ⟨-, he⟩
    · exact ⟨_, he, rfl⟩
    · exact ⟨_, he, rfl⟩

theorem mem_cpdagUndirected :
    (a, b) ∈ cpdagUndirected g ↔ a < b ∧ Und g.adj a b := by
  unfold cpdagUndirected
  rw [List.mem_map]
  constructor
  · rintro ⟨e, he, hab⟩
    obtain ⟨he, hu⟩ := List.mem_filter.mp he
    obtain ⟨hlt, hl⟩ := g.mem_edges.mp he
    unfold smallerFirst at hab
    rw [if_pos hlt.le] at hab
    cases hab
    obtain ⟨a, b, s, t, m⟩ := e
    refine ⟨hlt, m, ?_⟩
    cases s <;> cases t <;> first | exact hl | exact absurd hu Bool.false_ne_true
  · rintro ⟨hlt, m, hm⟩
    refine ⟨⟨a, b, .tail, .tail, m⟩, List.mem_filter.mpr ⟨g.mem_edges.mpr ⟨hlt, hm⟩, rfl⟩, ?_⟩
    unfold smallerFirst
    rw [if_pos hlt.le]

theorem edge_eq_of_ends {e f : MarkedEdge} (he : e ∈ g.edges) (hf : f ∈ g.edges) {x y : Nat}
    (h : Ends e x y) (h' : Ends f x y) : e = f := by
  obtain ⟨h1, hl⟩ := g.mem_edges.mp he
  obtain ⟨h2, hl'⟩ := g.mem_edges.mp hf
  unfold Ends at h h'
  have ha : e.a = f.a := by omega
  have hb : e.b = f.b := by omega
  rw [ha, hb, hl'] at hl
  obtain ⟨a, b, s, t, m⟩ := e
  obtain ⟨a', b', s', t', m'⟩ := f
  simp only [Option.some.injEq, Prod.mk.injEq] at hl ha hb
  rw [ha, hb, hl.1, hl.2.1, hl.2.2]

theorem ends_of_parentChild {pair : Nat × Nat} (h : e.parentChild = some pair) :
    Ends e pair.1 pair.2 := by
  rcases parentChild_eq_some.mp h with ⟨-, -, h1, h2⟩ | ⟨-, -, h1, h2⟩
  · exact Or.inl ⟨h1, h2⟩
  · exact Or.inr ⟨h1, h2⟩

theorem nodup_cpdagDirected : (cpdagDirected g).Nodup := by
  unfold cpdagDirected List.Nodup
  rw [List.pairwise_filterMap]
  refine (nodup_allMarkedEdges g.stored).pairwise_of_forall_ne fun e he f hf hne p hp q hq hpq => ?_
  subst hpq
  exact hne (edge_eq_of_ends he hf (ends_of_parentChild hp) (ends_of_parentChild hq))

theorem nodup_cpdagUndirected : (cpdagUndirected g).Nodup := by
  unfold cpdagUndirected
  refine List.Nodup.map_on (fun e he f hf h => ?_) ((nodup_allMarkedEdges g.stored).filter _)
  have he := (List.mem_filter.mp he).1
  have hf := (List.mem_filter.mp hf).1
  have h1 : e.a < e.b := (g.mem_edges.mp he).1
  have h2 : f.a < f.b := (g.mem_edges.mp hf).1
  unfold smallerFirst at h
  rw [if_pos h1.le, if_pos h2.le] at h
  exact edge_eq_of_ends he hf (Or.inl ⟨rfl, rfl⟩) (Or.inl ⟨(Prod.mk.inj h).1, (Prod.mk.inj h).2⟩)

/-- A statement of an undirected edge of `r`. -/
def UndStates (r : Nat → Nat → Prop) (p : Statement) : Prop :=
  p.2.2 = (.tail, .tail, .empty) ∧ r p.1 p.2.1

theorem dirStates_not_und {r s : Nat → Nat → Prop} (h : DirStates r p) :
    ¬ UndStates s p := by
  rintro ⟨hv, -⟩
  rcases h with ⟨hv', -⟩ | ⟨hv', -⟩
  · exact absurd (hv'.symm.trans hv) (by decide)
  · exact absurd (hv'.symm.trans hv) (by decide)

theorem states_cpdagUndirected (p : Statement) :
    (∃ e ∈ cpdagUndirected g, states (undirectedOf e) p) ↔ UndStates (Und g.adj) p :=
  exists_states_even states_undirectedOf mem_cpdagUndirected g.stored.und_symm
    (fun ⟨_, hm⟩ => g.stored.ne_of_look hm) p

theorem states_cpdag (hc : ¬ 0 < g.conflictEdgeCount) (p : Statement) :
    (DirStates (Dir g.adj) p ∨ UndStates (Und g.adj) p) ↔ Wiped g p := by
  obtain ⟨x, y, s, t, m⟩ := p
  constructor
  · rintro ((⟨hv, m', hl⟩ | ⟨hv, m', hl⟩) | ⟨hv, m', hl⟩)
    · cases hv
      exact ⟨rfl, m', hl⟩
    · cases hv
      exact ⟨rfl, m', g.stored.mirrored _ _ _ hl⟩
    · cases hv
      exact ⟨rfl, m', hl⟩
  · rintro ⟨hm, m', hl⟩
    obtain rfl : m = .empty := hm
    have hl : look g.adj x y = some (s, t, m') := hl
    rcases g.directed_or_undirected (Nat.eq_zero_of_not_pos hc) hl with ⟨m₁, h⟩ | ⟨m₁, h⟩ | ⟨m₁, h⟩
    · cases Option.some.inj (hl.symm.trans h)
      exact Or.inl (Or.inl ⟨rfl, _, h⟩)
    · cases Option.some.inj (hl.symm.trans (g.stored.mirrored _ _ _ h))
      exact Or.inl (Or.inr ⟨rfl, _, h⟩)
    · cases Option.some.inj (hl.symm.trans h)
      exact Or.inr ⟨rfl, _, h⟩

end CpdagEncoder

theorem cpdag_withVariables {n : Nat} (hn : n ≤ u32Max + 1) :
    (Discovery.withVariables n).nodes = staticNodes n ∧
      ∀ p, ¬ GraphView.Holds (Discovery.withVariables n) p := by
  obtain ⟨hnodes, hlook⟩ := Discovery.withVariables_spec hn
  refine ⟨hnodes, fun p hp => ?_⟩
  exact absurd ((hlook p.1 p.2.1).symm.trans hp) nofun

theorem cpdagFromWire_ok (h : cpdagFromWire w = .ok g) :
    w.nodeCount ≤ maxGraphNodes ∧ g.nodes = staticNodes w.nodeCount ∧
      ∀ p, GraphView.Holds g p ↔ Listed w p := by
  obtain ⟨_, hb, h⟩ := bind_ok h
  obtain ⟨g₁, hf, hf'⟩ := bind_ok h
  obtain ⟨hn, -⟩ := checkGraphBudget_ok.mp hb
  obtain ⟨hnodes, hholds⟩ := cpdag_directed_inserts.foldlM hf
  obtain ⟨hnodes', hholds'⟩ := cpdag_undirected_inserts.foldlM hf'
  obtain ⟨hv, hempty⟩ := cpdag_withVariables (n := w.nodeCount)
    (hn.trans (maxGraphNodes_le.trans (Nat.le_succ _)))
  refine ⟨hn, hnodes'.trans (hnodes.trans hv), fun p => ?_⟩
  rw [hholds', hholds, or_iff_right (hempty p)]
  exact (exists_states_append p).symm

theorem cpdagFromWire_noConflict (h : cpdagFromWire w = .ok g) :
    ¬ 0 < g.conflictEdgeCount := by
  intro hc
  obtain ⟨e, he, hne⟩ := conflict_iff.mp hc
  obtain ⟨-, hl⟩ := g.mem_edges.mp he
  have hlist := ((cpdagFromWire_ok h).2.2 (e.a, e.b, e.atA, e.atB, e.middle)).mp hl
  obtain ⟨a, b, s, t, m⟩ := e
  rcases (exists_states_append _).mp hlist with ⟨f, -, hs⟩ | ⟨f, -, hs⟩
  · rcases states_directedOf.mp hs with ⟨hv, -⟩ | ⟨hv, -⟩
    · cases hv
      exact hne (Or.inl rfl)
    · cases hv
      exact hne (Or.inl rfl)
  · obtain ⟨hv, -⟩ := states_undirectedOf.mp hs
    cases hv
    exact hne (Or.inr rfl)

theorem undirectedOf_eq {e : Nat × Nat} (h : e.1 < e.2) :
    undirectedOf e = ⟨e.1, e.2, .tail, .tail, .empty⟩ := if_pos h.le

theorem cpdagFromWire_accepts (hn : g.nodeCount ≤ maxGraphNodes)
    (he : (cpdagDirected g).length + (cpdagUndirected g).length ≤ maxGraphEdges)
    (hc : ¬ 0 < g.conflictEdgeCount) (hmid : NoMiddle g) :
    ∃ g', cpdagFromWire ⟨g.nodeCount, cpdagDirected g, cpdagUndirected g⟩ = .ok g' := by
  obtain ⟨hv, hempty⟩ := cpdag_withVariables (hn.trans (maxGraphNodes_le.trans (Nat.le_succ _)))
  have hdir : ∀ e ∈ cpdagDirected g, ∀ p, states (directedOf e) p → DirStates (Dir g.adj) p :=
    fun e he p hp => (exists_states_directed (fun a b => mem_cpdagDirected) p).mp ⟨e, he, hp⟩
  have hund : ∀ e ∈ cpdagUndirected g, ∀ p, states (undirectedOf e) p → UndStates (Und g.adj) p :=
    fun e he p hp => (states_cpdagUndirected p).mp ⟨e, he, hp⟩
  have hholds_of : ∀ p, (DirStates (Dir g.adj) p ∨ UndStates (Und g.adj) p) → GraphView.Holds g p :=
    fun p hp => (hmid.wiped_iff p).mp ((states_cpdag hc p).mp hp)
  obtain ⟨g₁, hok⟩ := cpdag_directed_inserts.accepts (T := GraphView.Holds g)
    (b := staticNodes g.nodeCount) hv (fun p hp => absurd hp (hempty p))
    (fun e he p hp => ⟨hholds_of p (Or.inl (hdir e he p hp)), hempty p⟩)
    (pairwise_directed nodup_cpdagDirected) (fun e he g₁ hg₁ hsub hnew => by
      obtain ⟨g₂, hg₂⟩ := cpdag_accepts (e := directedOf e) rfl (length_of_static hg₁) hsub
        (hholds_of _ (Or.inl (hdir e he _ (Or.inl rfl)))) (hnew _ (Or.inl rfl))
      exact ⟨g₂, converted_ok.mpr hg₂⟩)
  obtain ⟨hnodes, hholds⟩ := cpdag_directed_inserts.foldlM hok
  have honly : ∀ p, GraphView.Holds g₁ p → DirStates (Dir g.adj) p := fun p hp => by
    obtain ⟨e, he, hs⟩ := ((hholds p).mp hp).resolve_left (hempty p)
    exact hdir e he p hs
  obtain ⟨g', hok'⟩ := cpdag_undirected_inserts.accepts (T := GraphView.Holds g)
    (b := staticNodes g.nodeCount) (hnodes.trans hv) (fun p hp => hholds_of p (Or.inl (honly p hp)))
    (fun e he p hp => ⟨hholds_of p (Or.inr (hund e he p hp)), fun hold =>
      dirStates_not_und (honly p hold) (hund e he p hp)⟩)
    (pairwise_even states_undirectedOf nodup_cpdagUndirected fun e he => (mem_cpdagUndirected.mp he).1)
    (fun e he g₁ hg₁ hsub hnew => by
      have hlegal : (undirectedOf e).isCpdagLegal = true := by
        rw [undirectedOf_eq (mem_cpdagUndirected.mp he).1]
        rfl
      obtain ⟨g₂, hg₂⟩ := cpdag_accepts hlegal (length_of_static hg₁) hsub
        (hholds_of _ (Or.inr (hund e he _ (Or.inl rfl)))) (hnew _ (Or.inl rfl))
      exact ⟨g₂, converted_ok.mpr hg₂⟩)
  refine ⟨g', ?_⟩
  unfold cpdagFromWire
  simp only
  rw [checkGraphBudget_ok.mpr ⟨hn, he⟩, hok]
  exact hok'

theorem length_cpdag_lists (g : Cpdag) :
    (cpdagDirected g).length + (cpdagUndirected g).length ≤ g.edges.length := by
  unfold cpdagDirected cpdagUndirected
  rw [List.length_map]
  induction g.edges with
  | nil => exact Nat.le_refl _
  | cons e l ih =>
    rw [List.filterMap_cons, List.filter_cons]
    cases hu : e.isUndirected with
    | true =>
      rw [parentChild_of_undirected hu]
      simp
      omega
    | false =>
      cases e.parentChild with
      | none =>
        simp
        omega
      | some pair =>
        simp
        omega

theorem cpdag_form : WireForm cpdagToWire cpdagFromWire (fun g => 0 < g.conflictEdgeCount)
    (fun g => g.edges.length) where
  encodes hc hn := ⟨_, cpdagToWire_eq.mpr ⟨hn, hc, rfl⟩⟩
  refuses h := (cpdagToWire_eq.mp h).2.1
  encoded_count h := by
    rw [(cpdagToWire_eq.mp h).2.2]
    rfl
  encoded {g w} h p := by
    obtain ⟨-, hc, rfl⟩ := cpdagToWire_eq.mp h
    rw [← states_cpdag hc, ← exists_states_directed (fun a b => mem_cpdagDirected (g := g)),
      ← states_cpdagUndirected]
    exact exists_states_append p
  decoded_count h := (cpdagFromWire_ok h).1
  decoded_nodes h := (cpdagFromWire_ok h).2.1
  decoded h p := (cpdagFromWire_ok h).2.2 p
  decoded_kept h := cpdagFromWire_noConflict h
  listed_middle w e he := by
    rcases List.mem_append.mp he with he | he
    · obtain ⟨f, -, rfl⟩ := List.mem_map.mp he
      rfl
    · obtain ⟨f, -, rfl⟩ := List.mem_map.mp he
      unfold undirectedOf MarkedEdge.undirected
      split_ifs <;> rfl
  accepts {g w} h hn he hmid := by
    obtain ⟨-, hc, rfl⟩ := cpdagToWire_eq.mp h
    exact cpdagFromWire_accepts hn ((length_cpdag_lists g).trans he) hc hmid

end Antecedent.Io
