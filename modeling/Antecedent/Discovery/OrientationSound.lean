import Antecedent.Dag.Meek
import Antecedent.Discovery.Orientation
import Antecedent.Machine.Folds

/-!
# What the orientation rules do on the skeleton of a DAG

The graph the rules work on has the skeleton of a DAG `G` and directs only edges that every graph
similar to `G` directs so (`Faithful`). Each rule keeps this, succeeds, and records no conflict.

* `orient_advance`: the one step all rules share. A shared edge closes no cycle, so orienting it
  succeeds and the count of changed edges goes up.
* `meekR1_spec` to `meekR4_spec`: a rule either orients shared edges or had no instance at its node.
-/

namespace Antecedent.Discovery

open Graph Machine Relation

variable {G H : Dag Nat} {g g' : Cpdag} {st : OrientationState} {a b c d n base : Nat}

/-- Every graph with the skeleton and the unshielded colliders of `G` has the edge. -/
def Shared (G : Dag Nat) (a b : Nat) : Prop := ∀ H : Dag Nat, G.Similar H → H.edge a b

/-- The skeleton is that of `G`, and the directed edges are shared. -/
structure Faithful (G : Dag Nat) (g : Cpdag) : Prop where
  skeleton : ∀ a b, (look g.adj a b).isSome = true ↔ G.Adj a b
  shared : ∀ a b, Dir g.adj a b → Shared G a b
  marks : ∀ a b, G.Adj a b → Dir g.adj a b ∨ Dir g.adj b a ∨ Und g.adj a b

def Colliders (G : Dag Nat) (g : Cpdag) : Prop := ∀ a c b, G.Unshielded a c b → Dir g.adj a c

/-- The same nodes, and the directed edges of `g` are directed in `g'`. -/
structure Grown (g g' : Cpdag) : Prop where
  nodes : g'.nodes = g.nodes
  dir : ∀ a b, Dir g.adj a b → Dir g'.adj a b

/-- The number of directed edges. -/
def arrowCount (g : Cpdag) : Nat :=
  ((Finset.range g.nodeCount ×ˢ Finset.range g.nodeCount).filter fun e => g.isParent e.1 e.2).card

/-- What a rule keeps while it runs. -/
structure PassInv (G : Dag Nat) (st : OrientationState) (base : Nat) (p : Pass .static) : Prop where
  faithful : Faithful G p.graph
  state : p.state = st
  conflicts : p.delta.conflicts = 0
  count : arrowCount p.graph = base + p.delta.edgesChanged

theorem Shared.edge (h : Shared G a b) : G.edge a b := h G (Dag.Similar.refl G)

theorem Grown.refl (g : Cpdag) : Grown g g := ⟨rfl, fun _ _ h => h⟩

theorem Grown.trans {g'' : Cpdag} (h : Grown g g') (h' : Grown g' g'') : Grown g g'' :=
  ⟨h'.nodes.trans h.nodes, fun a b hd => h'.dir a b (h.dir a b hd)⟩

theorem Colliders.mono (h : Colliders G g) (hg : Grown g g') : Colliders G g' :=
  fun a c b hu => hg.dir a c (h a c b hu)

namespace Faithful

variable (h : Faithful G g)

include h

theorem hasEdge_iff : g.hasEdge a b = true ↔ G.Adj a b := g.hasEdge_iff.trans (h.skeleton a b)

theorem adj_of_dir (hd : Dir g.adj a b) : G.Adj a b := Or.inl (h.shared a b hd).edge

theorem adj_of_und (hu : Und g.adj a b) : G.Adj a b := by
  obtain ⟨m, hm⟩ := hu
  exact (h.skeleton a b).mp (by rw [hm]; rfl)

theorem acyclic_orient (hs : Shared G a b) : ¬ ReflTransGen (Dir g.adj) b a := by
  intro hp
  have hG : ReflTransGen G.edge b a := ReflTransGen.mono (fun x y hd => (h.shared x y hd).edge) _ _ hp
  exact G.acyclic a (TransGen.head' hs.edge hG)

end Faithful

theorem mem_arrows : (a, b) ∈ ((Finset.range g.nodeCount ×ˢ Finset.range g.nodeCount).filter
    fun e => g.isParent e.1 e.2) ↔ Dir g.adj a b := by
  rw [Finset.mem_filter, Finset.mem_product, Finset.mem_range, Finset.mem_range, g.isParent_iff]
  exact ⟨And.right, fun h => ⟨g.stored.dir_lt h, h⟩⟩

theorem arrowCount_oriented (h : g.Oriented g' a b) : arrowCount g' = arrowCount g + 1 := by
  have hn : (a, b) ∉ ((Finset.range g.nodeCount ×ˢ Finset.range g.nodeCount).filter
      fun e => g.isParent e.1 e.2) := by
    rw [mem_arrows]
    exact h.was.not_dir
  rw [arrowCount, arrowCount, ← Finset.card_insert_of_notMem hn]
  congr 1
  ext ⟨x, y⟩
  rw [Finset.mem_insert, mem_arrows, mem_arrows, h.dir, Prod.mk.injEq]
  tauto

/-- The directed edges are edges of `G`. -/
theorem arrowCount_le (h : Faithful G g) : arrowCount g ≤ G.finite.toFinset.card := by
  refine Finset.card_le_card fun e he => ?_
  exact (Set.Finite.mem_toFinset _).mpr (h.shared _ _ (mem_arrows.mp he)).edge

theorem arrowCount_mono (h : Grown g g') : arrowCount g ≤ arrowCount g' := by
  refine Finset.card_le_card fun e he => ?_
  exact mem_arrows.mpr (h.dir e.1 e.2 (mem_arrows.mp he))

theorem Faithful.oriented (h : Faithful G g) (ho : g.Oriented g' a b) (hs : Shared G a b) :
    Faithful G g' where
  skeleton x y := by rw [ho.edge, h.skeleton]
  shared x y hd := by
    rcases (ho.dir x y).mp hd with hd | ⟨rfl, rfl⟩
    · exact h.shared x y hd
    · exact hs
  marks x y hxy := by
    rw [ho.dir, ho.dir, ho.und]
    have := h.marks x y hxy
    tauto

theorem grown_oriented (ho : g.Oriented g' a b) : Grown g g' :=
  ⟨ho.nodes, fun x y hd => (ho.dir x y).mpr (Or.inl hd)⟩

theorem orientUndirected_shared (h : Faithful G g) (hu : Und g.adj a b) (hs : Shared G a b) :
    ∃ g', g.orientUndirected a b = .ok g' ∧ g.Oriented g' a b := by
  obtain ⟨m, hm⟩ := hu
  obtain ⟨g', hok⟩ := g.orientUndirected_ok hm rfl (h.acyclic_orient hs)
  exact ⟨g', hok, Pdag.oriented_of_ok hok⟩

variable {p : Pass .static} {l : List Nat} {rest : List Nat} {g₀ : Cpdag}

/-- **Orienting an undirected shared edge succeeds and counts up.** -/
theorem orient_advance (h : PassInv G st base p) (hu : Und p.graph.adj a b)
    (hs : Shared G a b) : ∃ p', p.orient a b = .ok p' ∧ PassInv G st base p' ∧
      p.graph.Oriented p'.graph a b ∧ p.delta.edgesChanged < p'.delta.edgesChanged := by
  obtain ⟨g', hok, ho⟩ := orientUndirected_shared h.faithful hu hs
  refine ⟨({ p with graph := g' }.countEdge).push a b, ?_, ⟨h.faithful.oriented ho hs, h.state,
    h.conflicts, ?_⟩, ho, Nat.lt_succ_self _⟩
  · simp [Pass.orient, Pass.tryOrientUndirected, hok, bind, Except.bind, pure, Except.pure]
  · show arrowCount g' = base + (p.delta.edgesChanged + 1)
    rw [arrowCount_oriented ho, h.count, Nat.add_assoc]

/-! ## The rules are sound -/

section Sound

variable (h : Faithful G g)

include h

/-- R1. Otherwise `a → b ← c` would be an unshielded collider. -/
theorem shared_r1 (hc : Colliders G g) (hab : Dir g.adj a b) (hbc : Und g.adj b c)
    (hac : ¬ G.Adj a c) : Shared G b c := by
  intro H hH
  have hab' := h.shared a b hab H hH
  have hne : a ≠ c := fun he => (g.stored.und_symm hbc).not_dir (he ▸ hab)
  refine ((hH.adj b c).mp (h.adj_of_und hbc)).resolve_right fun hcb => ?_
  have hu : H.Unshielded a b c := ⟨hab', hcb, hne, fun hh => hac ((hH.adj a c).mpr hh)⟩
  exact (g.stored.und_symm hbc).not_dir (hc c b a ((hH.collider a b c).mpr hu).symm)

/-- R2. Otherwise there would be a cycle. -/
theorem shared_r2 (hab : Dir g.adj a b) (hbc : Dir g.adj b c) (hac : Und g.adj a c) : Shared G a c :=
  fun H hH => Dag.edge_of_path (h.shared a b hab H hH) (h.shared b c hbc H hH)
    ((hH.adj a c).mp (h.adj_of_und hac))

/-- R3. Otherwise `c → a ← d` would be an unshielded collider. -/
theorem shared_r3 (hab : G.Adj a b) (hcb : Dir g.adj c b) (hdb : Dir g.adj d b) (hac : G.Adj a c)
    (had : G.Adj a d) (hne : c ≠ d) (hcd : ¬ G.Adj c d) (hu : ¬ G.Unshielded c a d) : Shared G a b :=
  fun H hH => Dag.edge_of_fork ((hH.adj a b).mp hab) (h.shared c b hcb H hH) (h.shared d b hdb H hH)
    ((hH.adj a c).mp hac) ((hH.adj a d).mp had) hne (fun hh => hcd ((hH.adj c d).mpr hh))
    fun hh => hu ((hH.collider c a d).mpr hh)

/-- R4. Otherwise `c → a ← b` would be an unshielded collider. -/
theorem shared_r4 (hc : Colliders G g) (hab : Und g.adj a b) (hac : Und g.adj a c) (hcd : Dir g.adj c d)
    (hdb : Dir g.adj d b) (had : G.Adj a d) (hne : c ≠ b) (hcb : ¬ G.Adj c b) : Shared G a b := by
  intro H hH
  refine ((hH.adj a b).mp (h.adj_of_und hab)).resolve_right fun hba => ?_
  have hda : H.edge d a := Dag.edge_of_path (h.shared d b hdb H hH) hba ((hH.adj a d).mp had).symm
  have hca : H.edge c a := Dag.edge_of_path (h.shared c d hcd H hH) hda
    ((hH.adj a c).mp (h.adj_of_und hac)).symm
  have hu : H.Unshielded c a b := ⟨hca, hba, hne, fun hh => hcb ((hH.adj c b).mpr hh)⟩
  exact (g.stored.und_symm hac).not_dir (hc c a b ((hH.collider c a b).mpr hu))

end Sound

/-! ## What a rule does at a node -/

/-- At every node a rule keeps the invariant and what is directed, and either had no instance there
(`Q`) or counts up. -/
def RuleSpec (G : Dag Nat) (st : OrientationState) (rule : Rule .static)
    (Q : Cpdag → Nat → Prop) : Prop :=
  ∀ base p v, PassInv G st base p → Colliders G p.graph → ∃ p', rule p v = .ok p' ∧
    PassInv G st base p' ∧ Grown p.graph p'.graph ∧
    ((p' = p ∧ Q p.graph v) ∨ p.delta.edgesChanged < p'.delta.edgesChanged)

/-- While a loop over undirected neighbours of `a` orients edges out of `a`: those to come are still
undirected. -/
structure Neighbours (G : Dag Nat) (st : OrientationState) (base : Nat) (g₀ : Cpdag) (a : Nat)
    (rest : List Nat) (p : Pass .static) : Prop where
  inv : PassInv G st base p
  grown : Grown g₀ p.graph
  und : ∀ b ∈ rest, Und p.graph.adj a b
  nodup : rest.Nodup

theorem Neighbours.keep
    (h : Neighbours G st base g₀ a (b :: rest) p) : Neighbours G st base g₀ a rest p :=
  ⟨h.inv, h.grown, fun x hx => h.und x (.tail b hx), (List.nodup_cons.mp h.nodup).2⟩

theorem Neighbours.orient {p : Pass .static}
    (h : Neighbours G st base g₀ a (b :: rest) p) (hs : Shared G a b) :
    ∃ p', p.orient a b = .ok p' ∧ Neighbours G st base g₀ a rest p' ∧
      p.delta.edgesChanged < p'.delta.edgesChanged := by
  obtain ⟨p', hok, hinv, ho, hlt⟩ := orient_advance h.inv (h.und b (.head _)) hs
  refine ⟨p', hok, ⟨hinv, h.grown.trans (grown_oriented ho), fun x hx => (ho.und a x).mpr ?_,
    (List.nodup_cons.mp h.nodup).2⟩, hlt⟩
  have hxb : x ≠ b := fun he => (List.nodup_cons.mp h.nodup).1 (he ▸ hx)
  have hab : a ≠ b := (h.inv.faithful.adj_of_und (h.und b (.head _))).ne
  exact ⟨h.und x (.tail b hx), fun hc => hxb hc.2, fun hc => hab hc.1⟩

section

variable (h : PassInv G st base p) {α : Type}
  {f : Pass .static → α → Except OrientationError (Pass .static)}

include h

/-- A loop over undirected neighbours of `a` each of whose steps keeps the pass or orients a shared
edge out of `a`. -/
theorem neighbours_loop {f : Pass .static → Nat → Except OrientationError (Pass .static)}
    (hl : l.Nodup) (hund : ∀ b ∈ l, Und p.graph.adj a b)
    (hf : ∀ q b, PassInv G st base q → Grown p.graph q.graph → Und q.graph.adj a b → b ∈ l → f q b = .ok q ∨ (f q b = q.orient a b ∧ Shared G a b)) :
    ∃ p', l.foldlM f p = .ok p' ∧ PassInv G st base p' ∧ Grown p.graph p'.graph ∧
      ((p' = p ∧ ∀ b ∈ l, f p b = .ok p) ∨ p.delta.edgesChanged < p'.delta.edgesChanged) := by
  obtain ⟨p', hok, ⟨hN, -⟩, hpr⟩ := foldlM_advance (f := f)
    (J := fun rest q => Neighbours G st base p.graph a rest q ∧ ∀ b ∈ rest, b ∈ l)
    (μ := fun q => q.delta.edgesChanged) (fun b rest q ⟨hN, hsub⟩ => by
      rcases hf q b hN.inv hN.grown (hN.und b (.head _)) (hsub b (.head _)) with he | ⟨he, hs⟩
      · exact ⟨q, he, ⟨hN.keep, fun x hx => hsub x (.tail b hx)⟩, Or.inl rfl⟩
      · obtain ⟨q', hq, hN', hlt⟩ := hN.orient hs
        exact ⟨q', he.trans hq, ⟨hN', fun x hx => hsub x (.tail b hx)⟩, Or.inr hlt⟩)
    l p ⟨⟨h, Grown.refl _, hund, hl⟩, fun _ hb => hb⟩
  exact ⟨p', hok, hN.inv, hN.grown, hpr⟩

theorem orient_loop
    {l : List α}
    (hf : ∀ q x, PassInv G st base q → Grown p.graph q.graph → x ∈ l → f q x = .ok q ∨ ∃ a b, f q x = q.orient a b ∧ Und q.graph.adj a b ∧ Shared G a b) :
    ∃ p', l.foldlM f p = .ok p' ∧ PassInv G st base p' ∧ Grown p.graph p'.graph ∧
      ((p' = p ∧ ∀ x ∈ l, f p x = .ok p) ∨ p.delta.edgesChanged < p'.delta.edgesChanged) := by
  obtain ⟨p', hok, ⟨hinv, hg, -⟩, hpr⟩ := foldlM_advance (f := f)
    (J := fun rest q => PassInv G st base q ∧ Grown p.graph q.graph ∧ ∀ x ∈ rest, x ∈ l)
    (μ := fun q => q.delta.edgesChanged) (fun x rest q ⟨hinv, hg, hsub⟩ => by
      have hsub' : ∀ y ∈ rest, y ∈ l := fun y hy => hsub y (.tail x hy)
      rcases hf q x hinv hg (hsub x (.head _)) with he | ⟨a, b, he, hu, hs⟩
      · exact ⟨q, he, ⟨hinv, hg, hsub'⟩, Or.inl rfl⟩
      · obtain ⟨q', hq, hinv', ho, hlt⟩ := orient_advance hinv hu hs
        exact ⟨q', he.trans hq, ⟨hinv', hg.trans (grown_oriented ho), hsub'⟩, Or.inr hlt⟩)
    l p ⟨h, Grown.refl _, fun _ hx => hx⟩
  exact ⟨p', hok, hinv, hg, hpr⟩

theorem nested_loop
    {l : List α} {Q : α → Prop}
    (hf : ∀ q x, PassInv G st base q → Grown p.graph q.graph → x ∈ l → ∃ q', f q x = .ok q' ∧ PassInv G st base q' ∧ Grown q.graph q'.graph ∧ ((q' = q ∧ (q = p → Q x)) ∨ q.delta.edgesChanged < q'.delta.edgesChanged)) :
    ∃ p', l.foldlM f p = .ok p' ∧ PassInv G st base p' ∧ Grown p.graph p'.graph ∧
      ((p' = p ∧ ∀ x ∈ l, Q x) ∨ p.delta.edgesChanged < p'.delta.edgesChanged) := by
  obtain ⟨p', hok, ⟨hinv, hg, -⟩, hpr⟩ := foldlM_advance (f := f)
    (J := fun rest q => PassInv G st base q ∧ Grown p.graph q.graph ∧ ∀ x ∈ rest, x ∈ l)
    (μ := fun q => q.delta.edgesChanged) (fun x rest q ⟨hinv, hg, hsub⟩ => by
      obtain ⟨q', hq, hinv', hg', hpr⟩ := hf q x hinv hg (hsub x (.head _))
      exact ⟨q', hq, ⟨hinv', hg.trans hg', fun y hy => hsub y (.tail x hy)⟩, hpr.imp_left And.left⟩)
    l p ⟨h, Grown.refl _, fun _ hx => hx⟩
  refine ⟨p', hok, hinv, hg, hpr.imp_left fun ⟨he, hall⟩ => ⟨he, fun x hx => ?_⟩⟩
  -- the loop left the pass alone, so each of its elements had nothing to do in it
  obtain ⟨q', hq, -, -, hq'⟩ := hf p x h (Grown.refl _) hx
  rw [hall x hx] at hq
  cases hq
  exact hq'.elim (fun hh => hh.2 rfl) fun hlt => absurd hlt (Nat.lt_irrefl _)

theorem orient_ne (hu : Und p.graph.adj a b) (hs : Shared G a b) : p.orient a b ≠ .ok p := by
  obtain ⟨p', hok, -, -, hlt⟩ := orient_advance h hu hs
  intro he
  rw [hok] at he
  cases he
  exact Nat.lt_irrefl _ hlt

/-! ## The four rules of Meek -/

end

/-- No instance of R1 with its middle at `b`. -/
def QuietR1 (G : Dag Nat) (g : Cpdag) (b : Nat) : Prop :=
  ∀ a c, Dir g.adj a b → Und g.adj b c → G.Adj a c

/-- No instance of R2 that starts at `a`. -/
def QuietR2 (g : Cpdag) (a : Nat) : Prop :=
  ∀ b c, Dir g.adj a b → Dir g.adj b c → ¬ Und g.adj a c

/-- No instance of R3 at `a`. -/
def QuietR3 (G : Dag Nat) (g : Cpdag) (a : Nat) : Prop :=
  ∀ b c d, Und g.adj a b → Und g.adj a c → Und g.adj a d → Dir g.adj c b → Dir g.adj d b → c ≠ d →
    G.Adj c d

variable (hst : st.ambiguousTriples = ∅)

include hst

theorem not_ambiguous (h : PassInv G st base p) :
    p.state.isAmbiguousTriple a b c = false := by
  simp [OrientationState.isAmbiguousTriple, h.state, hst]

theorem meekR1_spec : RuleSpec G st MeekR1 (QuietR1 G) := by
  intro base p b h hc
  obtain ⟨p', hok, hinv, hg, hpr⟩ := nested_loop (l := p.graph.parents b)
    (f := fun p a => (p.graph.undirectedNeighbors b).foldlM (meekR1At (fun _ _ => true) b a) p)
    (Q := fun a => ∀ c, Und p.graph.adj b c → G.Adj a c) h (fun q a hq hgq ha => by
      have hab : Dir q.graph.adj a b := hgq.dir a b (p.graph.mem_parents.mp ha)
      have hstep : ∀ {r c}, PassInv G st base r → (meekR1At (fun _ _ => true) b a r c =
          if r.graph.hasEdge a c then .ok r else r.orient b c) := by
        intro r c hr
        simp only [meekR1At, not_ambiguous hst hr]
        cases r.graph.hasEdge a c <;> rfl
      obtain ⟨q', hq', hinv, hg, hpr⟩ := neighbours_loop (f := meekR1At (fun _ _ => true) b a) hq
        (q.graph.stored.nodup_undirectedNeighbors b)
        (fun c hc => q.graph.mem_undirectedNeighbors.mp hc) (fun r c hr hgr hbc _ => by
          rw [hstep hr]
          by_cases hac : G.Adj a c
          · exact Or.inl (if_pos (hr.faithful.hasEdge_iff.mpr hac))
          · refine Or.inr ⟨if_neg fun hh => hac (hr.faithful.hasEdge_iff.mp hh), ?_⟩
            exact shared_r1 hr.faithful (hc.mono (hgq.trans hgr)) (hgr.dir a b hab) hbc hac)
      refine ⟨q', hq', hinv, hg, hpr.imp_left fun ⟨he, hall⟩ => ⟨he, fun hqp c hbc => ?_⟩⟩
      subst hqp
      have hn := hall c (q.graph.mem_undirectedNeighbors.mpr hbc)
      rw [hstep hq] at hn
      refine by_contra fun hac => ?_
      rw [if_neg fun hh => hac (hq.faithful.hasEdge_iff.mp hh)] at hn
      exact orient_ne hq hbc (shared_r1 hq.faithful hc hab hbc hac) hn)
  refine ⟨p', hok, hinv, hg, hpr.imp_left fun ⟨he, hall⟩ => ⟨he, fun a c hab hbc => ?_⟩⟩
  exact hall a (p.graph.mem_parents.mpr hab) c hbc

omit hst in
theorem meekR2_spec : RuleSpec G st MeekR2 fun g a => QuietR2 g a := by
  intro base p a h hc
  have hstep : ∀ {r : Pass .static} {c}, meekR2At (fun _ _ => true) a r c =
      if (r.graph.edgeBetween a c).any MarkedEdge.isUndirected then r.orient a c else .ok r :=
    fun {r c} => rfl
  obtain ⟨p', hok, hinv, hg, hpr⟩ := nested_loop (l := p.graph.children a)
    (f := fun p b => (p.graph.children b).foldlM (meekR2At (fun _ _ => true) a) p)
    (Q := fun b => ∀ c, Dir p.graph.adj b c → ¬ Und p.graph.adj a c) h (fun q b hq hgq hb => by
      have hab : Dir q.graph.adj a b := hgq.dir a b (p.graph.mem_children.mp hb)
      obtain ⟨q', hq', hinv, hg, hpr⟩ := orient_loop (f := meekR2At (fun _ _ => true) a)
        (l := q.graph.children b) hq (fun r c hr hgr hbc => by
          rw [hstep]
          by_cases hac : Und r.graph.adj a c
          · refine Or.inr ⟨a, c, if_pos (r.graph.isUndirected_edgeBetween.mpr hac), hac, ?_⟩
            exact shared_r2 hr.faithful (hgr.dir a b hab) (hgr.dir b c (q.graph.mem_children.mp hbc)) hac
          · exact Or.inl (if_neg fun hh => hac (r.graph.isUndirected_edgeBetween.mp hh)))
      refine ⟨q', hq', hinv, hg, hpr.imp_left fun ⟨he, hall⟩ => ⟨he, fun hqp c hbc hac => ?_⟩⟩
      subst hqp
      have hn := hall c (q.graph.mem_children.mpr hbc)
      rw [hstep, if_pos (q.graph.isUndirected_edgeBetween.mpr hac)] at hn
      exact orient_ne hq hac (shared_r2 hq.faithful hab hbc hac) hn)
  refine ⟨p', hok, hinv, hg, hpr.imp_left fun ⟨he, hall⟩ => ⟨he, fun b c hab hbc => ?_⟩⟩
  exact hall b (p.graph.mem_children.mpr hab) c hbc

/-- What the mediator test of R3 finds. -/
theorem hasDefiniteNoncolliderPair_iff (h : PassInv G st base p)
    (hl : l.Nodup) : hasDefiniteNoncolliderPair p.graph p.state a l = true ↔
      ∃ c ∈ l, ∃ d ∈ l, c ≠ d ∧ ¬ G.Adj c d := by
  unfold hasDefiniteNoncolliderPair
  rw [List.any_eq_true]
  constructor
  · rintro ⟨⟨c, d⟩, hm, hcd⟩
    obtain ⟨hcl, hdl⟩ := mem_of_mem_pairsOf hm
    simp only [Bool.and_eq_true, Bool.not_eq_true'] at hcd
    refine ⟨c, hcl, d, hdl, mem_pairsOf_ne hl hm, fun hh => ?_⟩
    rw [h.faithful.hasEdge_iff.mpr hh] at hcd
    exact absurd hcd.1 (by decide)
  · rintro ⟨c, hcl, d, hdl, hne, hcd⟩
    have key : ∀ {c d}, (c, d) ∈ pairsOf l → ¬ G.Adj c d → ∃ x ∈ pairsOf l,
        (!p.graph.hasEdge x.1 x.2 && !p.state.isAmbiguousTriple x.1 a x.2) = true := by
      intro c d hm hcd
      refine ⟨(c, d), hm, ?_⟩
      rw [not_ambiguous hst h, Bool.eq_false_iff.mpr fun hh => hcd (h.faithful.hasEdge_iff.mp hh)]
      rfl
    rcases (mem_pairsOf hne).mpr ⟨hcl, hdl⟩ with hm | hm
    · exact key hm hcd
    · exact key hm fun hh => hcd hh.symm

theorem meekR3_spec : RuleSpec G st MeekR3 (QuietR3 G) := by
  intro base p a h hc
  have hund : ∀ {b}, b ∈ p.graph.undirectedNeighbors a ↔ Und p.graph.adj a b :=
    p.graph.mem_undirectedNeighbors
  have hnd : (p.graph.undirectedNeighbors a).Nodup := p.graph.stored.nodup_undirectedNeighbors a
  -- the edges of `a` that were undirected at the start are in no collider at `a`
  have hflat : ∀ {c d}, Und p.graph.adj a c → ¬ G.Unshielded c a d := fun hac hu =>
    (p.graph.stored.und_symm hac).not_dir (hc _ _ _ hu)
  have hmed : ∀ {r : Pass .static} {b x : Nat}, x ∈ ((p.graph.undirectedNeighbors a).filter fun c =>
      c != b && r.graph.isParent c b) ↔ Und p.graph.adj a x ∧ x ≠ b ∧ Dir r.graph.adj x b := by
    intro r b x
    rw [List.mem_filter, hund, Bool.and_eq_true, bne_iff_ne, r.graph.isParent_iff]
  have hvisit : MeekR3 p a = (p.graph.undirectedNeighbors a).foldlM
      (meekR3At a (p.graph.undirectedNeighbors a)) p := by
    simp [MeekR3, meekR3Visit]
  have hfires : ∀ {r : Pass .static} {b : Nat}, PassInv G st base r →
      (hasDefiniteNoncolliderPair r.graph r.state a ((p.graph.undirectedNeighbors a).filter fun c =>
        c != b && r.graph.isParent c b) = true ↔
      ∃ c d, (Und p.graph.adj a c ∧ Dir r.graph.adj c b) ∧ (Und p.graph.adj a d ∧ Dir r.graph.adj d b) ∧
        c ≠ d ∧ ¬ G.Adj c d) := by
    intro r b hr
    rw [hasDefiniteNoncolliderPair_iff hst hr (hnd.filter _)]
    constructor
    · rintro ⟨c, hcm, d, hdm, hne, hcd⟩
      obtain ⟨hac, -, hcb⟩ := hmed.mp hcm
      obtain ⟨had, -, hdb⟩ := hmed.mp hdm
      exact ⟨c, d, ⟨hac, hcb⟩, ⟨had, hdb⟩, hne, hcd⟩
    · rintro ⟨c, d, ⟨hac, hcb⟩, ⟨had, hdb⟩, hne, hcd⟩
      have hneb : ∀ {x}, Dir r.graph.adj x b → x ≠ b := fun hd => (hr.faithful.adj_of_dir hd).ne
      exact ⟨c, hmed.mpr ⟨hac, hneb hcb, hcb⟩, d, hmed.mpr ⟨had, hneb hdb, hdb⟩, hne, hcd⟩
  have hshared : ∀ {r : Pass .static} {b : Nat}, PassInv G st base r → Und r.graph.adj a b →
      hasDefiniteNoncolliderPair r.graph r.state a ((p.graph.undirectedNeighbors a).filter fun c =>
        c != b && r.graph.isParent c b) = true → Shared G a b := by
    intro r b hr hab hf
    obtain ⟨c, d, ⟨hac, hcb⟩, ⟨had, hdb⟩, hne, hcd⟩ := (hfires hr).mp hf
    exact shared_r3 hr.faithful (hr.faithful.adj_of_und hab) hcb hdb (h.faithful.adj_of_und hac)
      (h.faithful.adj_of_und had) hne hcd (hflat hac)
  obtain ⟨p', hok, hinv, hg, hpr⟩ := neighbours_loop
    (f := meekR3At a (p.graph.undirectedNeighbors a)) h hnd (fun b hb => hund.mp hb)
    (fun q b hq hgq hab _ => by
      unfold meekR3At
      split_ifs with hf
      · exact Or.inr ⟨rfl, hshared hq hab hf⟩
      · exact Or.inl rfl)
  refine ⟨p', hvisit.trans hok, hinv, hg, hpr.imp_left fun ⟨he, hall⟩ =>
    ⟨he, fun b c d hab hac had hcb hdb hne => by_contra fun hcd => ?_⟩⟩
  have hf := (hfires h).mpr ⟨c, d, ⟨hac, hcb⟩, ⟨had, hdb⟩, hne, hcd⟩
  have hn := hall b (hund.mpr hab)
  rw [meekR3At, if_pos hf] at hn
  exact orient_ne h hab (hshared h hab hf) hn

omit hst in
theorem meekR4_spec : RuleSpec G st MeekR4 fun _ _ => True := by
  intro base p a h hc
  have hvisit : MeekR4 p a = (p.graph.undirectedNeighbors a).foldlM
      (meekR4At (fun _ _ => true) a) p := rfl
  obtain ⟨p', hok, hinv, hg, hpr⟩ := neighbours_loop (f := meekR4At (fun _ _ => true) a) h
    (p.graph.stored.nodup_undirectedNeighbors a)
    (fun b hb => p.graph.mem_undirectedNeighbors.mp hb) (fun q b hq hgq hab _ => by
      unfold meekR4At
      rw [if_neg (by simp)]
      split_ifs with hf
      · refine Or.inr ⟨rfl, ?_⟩
        obtain ⟨c, hac, hf⟩ := List.any_eq_true.mp hf
        simp only [Bool.and_eq_true, Bool.not_eq_true', Bool.or_eq_false_iff, beq_eq_false_iff_ne,
          List.any_eq_true, Bool.true_and] at hf
        obtain ⟨⟨hne, -⟩, d, hcd, ⟨hdb, had⟩, hcb⟩ := hf
        refine shared_r4 hq.faithful (hc.mono hgq) hab (q.graph.mem_undirectedNeighbors.mp hac)
          (q.graph.mem_children.mp hcd) (q.graph.isParent_iff.mp hdb)
          (hq.faithful.hasEdge_iff.mp had) hne fun hh => ?_
        rw [hq.faithful.hasEdge_iff.mpr hh] at hcb
        exact absurd hcb (by decide)
      · exact Or.inl rfl)
  exact ⟨p', hvisit.trans hok, hinv, hg, hpr.imp_left fun hh => ⟨hh.1, trivial⟩⟩

end Antecedent.Discovery
