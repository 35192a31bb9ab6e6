import Antecedent.Discovery.OrientationSound

/-!
# The collider rule with correct separating sets

The state holds a separating set of every nonadjacent pair (`Separators`). Then the collider rule
succeeds at every node, meets no leg directed the other way, and leaves every unshielded collider at
its node directed (`collider_spec`).

The legs are read once, before the pairs: a leg that was undirected then may be directed when its pair
comes, and what the rule does depends on what it reads again.
-/

namespace Antecedent.Discovery

open Graph Machine Relation

variable {G : Dag Nat} {g g₀ : Cpdag} {st : OrientationState} {a b c n base : Nat}
  {leg : Nat × LegKind}
  {p q : Pass .static}

/-- The state knows a separating set of every nonadjacent pair below `n`, and no triple is marked
ambiguous. -/
structure Separators (G : Dag Nat) (n : Nat) (st : OrientationState) : Prop where
  sepset : ∀ a b, a < n → b < n → a ≠ b → ¬ G.Adj a b →
    ∃ sep, st.sepset a b = some sep ∧ G.DSep {z | z ∈ sep} a b
  ambiguous : st.ambiguousTriples = ∅

/-- What the kind of a leg of `c` says of its edge. -/
def LegOf (g : Cpdag) (c : Nat) (leg : Nat × LegKind) : Prop :=
  match leg.2 with
  | .undirected => Und g.adj c leg.1
  | .intoC => Dir g.adj leg.1 c
  | .outOfC => Dir g.adj c leg.1

theorem mem_legsOf : leg ∈ legsOf g c ↔ LegOf g c leg := by
  obtain ⟨x, k⟩ := leg
  unfold legsOf LegOf
  rw [List.mem_append, List.mem_append, List.mem_map, List.mem_map, List.mem_map]
  cases k <;> simp [g.mem_undirectedNeighbors, g.mem_parents, g.mem_children]

theorem nodup_legsOf : ((legsOf g c).map Prod.fst).Nodup := by
  have hdir : ∀ {x}, Dir g.adj x c → ¬ Dir g.adj c x := fun h h' =>
    g.acyclic c (TransGen.head h' (TransGen.single h))
  have hmap : (legsOf g c).map Prod.fst =
      g.undirectedNeighbors c ++ g.parents c ++ g.children c := by
    simp [legsOf, List.map_map, Function.comp_def]
  rw [hmap]
  refine List.Nodup.append (List.Nodup.append (g.stored.nodup_undirectedNeighbors c)
    (g.stored.nodup_directedParents c) fun x hx hx' => ?_) (g.stored.nodup_directedChildren c)
    fun x hx hx' => ?_
  · exact (g.stored.und_symm (g.mem_undirectedNeighbors.mp hx)).not_dir (g.mem_parents.mp hx')
  · rcases List.mem_append.mp hx with hx | hx
    · exact (g.mem_undirectedNeighbors.mp hx).not_dir (g.mem_children.mp hx')
    · exact hdir (g.mem_parents.mp hx) (g.mem_children.mp hx')

theorem LegOf.adj (hl : LegOf g c leg) (h : Faithful G g) : G.Adj leg.1 c := by
  obtain ⟨x, k⟩ := leg
  cases k with
  | undirected => exact (h.adj_of_und hl).symm
  | intoC => exact h.adj_of_dir hl
  | outOfC => exact (h.adj_of_dir hl).symm

theorem exists_leg (h : Faithful G g) (hac : G.Adj a c) : ∃ k, (a, k) ∈ legsOf g c := by
  rcases h.marks a c hac with hd | hd | hu
  · exact ⟨.intoC, mem_legsOf.mpr hd⟩
  · exact ⟨.outOfC, mem_legsOf.mpr hd⟩
  · exact ⟨.undirected, mem_legsOf.mpr (g.stored.und_symm hu)⟩

/-! ## One leg -/

theorem classify_settled (hd : Dir g.adj a c) : classifyColliderLeg g a c = .settled := by
  have hp := g.isParent_iff.mpr hd
  unfold Pdag.isParent at hp
  simp only [classifyColliderLeg, hp, Bool.true_or, if_true]

theorem classify_undirected (hu : Und g.adj a c) : classifyColliderLeg g a c = .undirected := by
  obtain ⟨m, hm⟩ := hu
  have he : g.edgeBetween a c = some ⟨a, c, .tail, .tail, m⟩ :=
    g.edgeBetween_eq_some.mpr ⟨rfl, rfl, hm⟩
  simp [classifyColliderLeg, he, MarkedEdge.parentChild, MarkedEdge.isConflict]

/-- A leg of a collider ends up directed into `c`. -/
theorem orientLeg_spec (h : PassInv G st base q) (hg : Grown g₀ q.graph)
    (hleg : LegOf g₀ c leg) (hs : Shared G leg.1 c) : ∃ q', orientLeg c q leg = .ok q' ∧
      PassInv G st base q' ∧ Grown q.graph q'.graph ∧ Dir q'.graph.adj leg.1 c ∧
      (q' = q ∨ q.delta.edgesChanged < q'.delta.edgesChanged) := by
  obtain ⟨x, k⟩ := leg
  cases k with
  | outOfC => exact absurd hs.edge fun he => Dag.asymm he (h.faithful.shared _ _ (hg.dir _ _ hleg)).edge
  | intoC => exact ⟨q, rfl, h, Grown.refl _, hg.dir _ _ hleg, Or.inl rfl⟩
  | undirected =>
    rcases h.faithful.marks x c (Or.inl hs.edge) with hd | hd | hu
    · refine ⟨q, ?_, h, Grown.refl _, hd, Or.inl rfl⟩
      simp only [orientLeg, classify_settled hd]
    · exact absurd hs.edge fun he => Dag.asymm he (h.faithful.shared _ _ hd).edge
    · obtain ⟨q', hok, hinv, ho, hlt⟩ := orient_advance h hu hs
      refine ⟨q', ?_, hinv, grown_oriented ho, (ho.dir x c).mpr (Or.inr ⟨rfl, rfl⟩), Or.inr hlt⟩
      simp only [orientLeg, classify_undirected hu]
      exact hok

/-! ## One pair of legs -/

variable (hst : Separators G n st) (hn : ∀ a b, G.edge a b → a < n ∧ b < n)

include hst hn

/-- **A pair of legs**: if it is an unshielded collider both legs end up directed into `c`, otherwise
nothing happens. -/
theorem colliderAt_spec {x y : Nat × LegKind} (h : PassInv G st base q) (hg : Grown g₀ q.graph)
    (h₀ : Faithful G g₀) (hx : LegOf g₀ c x) (hy : LegOf g₀ c y) (hne : x.1 ≠ y.1) :
    ∃ q', colliderAt c q (x, y) = .ok q' ∧ PassInv G st base q' ∧ Grown q.graph q'.graph ∧
      (G.Unshielded x.1 c y.1 → Dir q'.graph.adj x.1 c ∧ Dir q'.graph.adj y.1 c) ∧
      (q' = q ∨ q.delta.edgesChanged < q'.delta.edgesChanged) := by
  unfold colliderAt
  dsimp only
  have hxc := hx.adj h₀
  have hyc := hy.adj h₀
  by_cases hinto : x.2 = .intoC ∧ y.2 = .intoC
  · rw [if_pos hinto]
    have hd : ∀ {l : Nat × LegKind}, LegOf g₀ c l → l.2 = .intoC → Dir q.graph.adj l.1 c := by
      intro l hl hk
      unfold LegOf at hl
      rw [hk] at hl
      exact hg.dir _ _ hl
    exact ⟨q, rfl, h, Grown.refl _, fun _ => ⟨hd hx hinto.1, hd hy hinto.2⟩, Or.inl rfl⟩
  rw [if_neg hinto]
  by_cases hxy : G.Adj x.1 y.1
  · rw [if_pos (h.faithful.hasEdge_iff.mpr hxy)]
    exact ⟨q, rfl, h, Grown.refl _, fun hu => absurd hxy hu.not_adj, Or.inl rfl⟩
  rw [if_neg fun hh => hxy (h.faithful.hasEdge_iff.mp hh)]
  have hlt : ∀ {l : Nat × LegKind}, G.Adj l.1 c → l.1 < n := fun hl =>
    hl.elim (fun he => (hn _ _ he).1) fun he => (hn _ _ he).2
  obtain ⟨sep, hsep, hdsep⟩ := hst.sepset x.1 y.1 (hlt hxc) (hlt hyc) hne hxy
  rw [h.state, hsep]
  have hiff := Dag.unshielded_iff hxc hyc.symm hne hxy hdsep
  dsimp only
  split_ifs with hc
  · exact ⟨q, rfl, h, Grown.refl _, fun hu => absurd hc (hiff.mp hu), Or.inl rfl⟩
  · have hu := hiff.mpr hc
    have hsx : Shared G x.1 c := fun H hH => ((hH.collider _ _ _).mp hu).left
    have hsy : Shared G y.1 c := fun H hH => ((hH.collider _ _ _).mp hu).right
    obtain ⟨r, hr, hrinv, hrg, hrd, hrp⟩ := orientLeg_spec h hg hx hsx
    obtain ⟨s, hs, hsinv, hsg, hsd, hsp⟩ := orientLeg_spec hrinv (hg.trans hrg) hy hsy
    refine ⟨s, ?_, hsinv, hrg.trans hsg, fun _ => ⟨hsg.dir _ _ hrd, hsd⟩, ?_⟩
    · simp only [List.foldlM_cons, List.foldlM_nil, hr, hs, bind, Except.bind]
      rfl
    · rcases hrp with rfl | hlt
      · exact hsp
      · exact Or.inr (hsp.elim (fun he => he ▸ hlt) hlt.trans)

/-- **The collider rule at a node** succeeds, keeps the invariant, and directs every unshielded
collider there. -/
theorem collider_spec (h : PassInv G st base p) (c : Nat) : ∃ p', OrientCollider p c = .ok p' ∧
    PassInv G st base p' ∧ Grown p.graph p'.graph ∧
    (∀ a b, G.Unshielded a c b → Dir p'.graph.adj a c) ∧
    (p' = p ∨ p.delta.edgesChanged < p'.delta.edgesChanged) := by
  let settled : (Nat × LegKind) × (Nat × LegKind) → Pass .static → Prop := fun pr q =>
    G.Unshielded pr.1.1 c pr.2.1 → Dir q.graph.adj pr.1.1 c ∧ Dir q.graph.adj pr.2.1 c
  obtain ⟨p', hok, ⟨hinv, hg, -, hdone⟩, hpr⟩ := foldlM_advance (f := colliderAt c)
    (J := fun rest q => PassInv G st base q ∧ Grown p.graph q.graph ∧
      (∀ x ∈ rest, x ∈ pairsOf (legsOf p.graph c)) ∧
      ∀ x ∈ pairsOf (legsOf p.graph c), x ∉ rest → settled x q)
    (μ := fun q => q.delta.edgesChanged) (fun pr rest q ⟨hinv, hg, hsub, hdone⟩ => by
      obtain ⟨x, y⟩ := pr
      have hmem := hsub (x, y) (.head _)
      obtain ⟨hx, hy⟩ := mem_of_mem_pairsOf hmem
      have hne : x.1 ≠ y.1 := mem_pairsOf_ne nodup_legsOf (mem_pairsOf_map Prod.fst hmem)
      obtain ⟨q', hok, hinv', hg', hd, hpr⟩ := colliderAt_spec hst hn hinv hg h.faithful
        (mem_legsOf.mp hx) (mem_legsOf.mp hy) hne
      refine ⟨q', hok, ⟨hinv', hg.trans hg', fun z hz => hsub z (.tail _ hz), fun z hz hnot => ?_⟩, hpr⟩
      by_cases he : z = (x, y)
      · rw [he]
        exact hd
      · intro hu
        have := hdone z hz (fun hh => (List.mem_cons.mp hh).elim he hnot) hu
        exact ⟨hg'.dir _ _ this.1, hg'.dir _ _ this.2⟩)
    (pairsOf (legsOf p.graph c)) p ⟨h, Grown.refl _, fun _ hx => hx, fun x hx hnot => absurd hx hnot⟩
  refine ⟨p', hok, hinv, hg, fun a b hu => ?_, hpr.imp_left And.left⟩
  obtain ⟨k, hk⟩ := exists_leg h.faithful (Or.inl hu.left)
  obtain ⟨l, hl⟩ := exists_leg h.faithful (Or.inl hu.right)
  have hne : (a, k) ≠ (b, l) := fun he => hu.ne (congrArg Prod.fst he)
  rcases (mem_pairsOf hne).mpr ⟨hk, hl⟩ with hm | hm
  · exact (hdone _ hm List.not_mem_nil hu).1
  · exact (hdone _ hm List.not_mem_nil hu.symm).2

end Antecedent.Discovery
