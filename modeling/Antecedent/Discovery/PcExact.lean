import Mathlib.Tactic.NormNum
import Antecedent.Discovery.OrientationFixed
import Antecedent.Discovery.Pc
import Antecedent.Discovery.SkeletonExact

/-!
# PC with an oracle is exact

`pc_exact`: with a test that accepts exactly what a DAG separates, without background knowledge,
correction or parent limit and with room for every conditioning set, `Pc::run` returns the CPDAG of
the DAG and records no conflict.

The adjacency search leaves the edges of the DAG (`runStaticSkeleton_exact`). They become the
undirected edges of a graph on the positions (`insertEdges_spec`), the recorded sets become sets of
positions (`loadSepsets_spec`), and the rules do the rest (`orientation_exact`).
-/

namespace Antecedent.Discovery

open Graph Machine Relation

variable {G : Dag Nat} {vars : List Nat} {k : DiscoveryConstraints} {g : Cpdag}
  {adj : UndirectedAdj}

/-! ## No background knowledge -/

namespace DiscoveryConstraints.NoKnowledge

variable (h : k.NoKnowledge)

include h

theorem isRequired (l : LaggedLink) : k.isRequired l = false := by
  unfold DiscoveryConstraints.isRequired
  rw [h.required]
  rfl

theorem isForbidden (l : LaggedLink) : k.isForbidden l = false := by
  have htier : k.tierForbids l.source l.target = false := by
    unfold tierForbids tierOf
    rw [h.tiers]
    rfl
  unfold DiscoveryConstraints.isForbidden
  rw [h.forbidden, htier, h.multiDataset]
  rfl

theorem staticRequired (a b : Nat) : k.staticRequired a b = false := by
  unfold DiscoveryConstraints.staticRequired
  rw [h.isRequired, h.isRequired]
  rfl

theorem staticForbidden (a b : Nat) : k.staticForbidden a b = false := by
  unfold DiscoveryConstraints.staticForbidden
  rw [h.isForbidden]
  rfl

theorem staticDirection (a b : Nat) : k.staticDirection a b = none := by
  unfold DiscoveryConstraints.staticDirection
  rw [h.isRequired, h.isRequired, h.isForbidden, h.isForbidden]
  rfl

theorem checkConsistency : k.checkConsistency = .ok () := by
  unfold DiscoveryConstraints.checkConsistency
  rw [h.required]
  rfl

theorem validate : k.validate = .ok () := by
  unfold DiscoveryConstraints.validate
  rw [h.checkConsistency, h.required]
  rfl

theorem checkBackgroundKnowledge : k.checkBackgroundKnowledge .equivalenceClass vars = .ok () := by
  unfold DiscoveryConstraints.checkBackgroundKnowledge checkScope
  rw [h.checkConsistency, h.required, h.forbidden, h.tiers]
  rfl

theorem orientFixedDirections (varIndex : Nat → Option Nat) (st : OrientationState) :
    orientFixedDirections k vars varIndex g st = .ok (g, st) := by
  have hloop : ∀ (l : List (Nat × Nat)) (p : Pass .static),
      l.foldlM (orientFixedAt k varIndex) p = .ok p := by
    intro l
    induction l with
    | nil => exact fun p => rfl
    | cons e l ih =>
      intro p
      have he : orientFixedAt k varIndex p e = .ok p := by
        unfold orientFixedAt
        rw [h.staticDirection]
      rw [List.foldlM_cons, he]
      exact ih p
  unfold Discovery.orientFixedDirections
  rw [hloop]
  rfl

end DiscoveryConstraints.NoKnowledge

/-! ## The nodes -/

/-- `n` nodes and no edge. -/
structure Bare (g : Cpdag) (n : Nat) : Prop where
  count : g.nodes.length = n
  look : ∀ a b, look g.adj a b = none

theorem bare_empty : Bare (.empty : Cpdag) 0 := ⟨rfl, Pdag.look_empty⟩

theorem Bare.addNode {n : Nat} (h : Bare g n) (hn : n ≤ u32Max) (v : Nat) :
    ∃ g', g.addNode (.static v) = .ok (g', g.nodeCount) ∧ Bare g' (n + 1) := by
  obtain ⟨g', hok, hnodes, hl⟩ := g.addNode_ok (show Kind.static.admits (.static v) = true from rfl)
    (h.count.symm ▸ hn)
  refine ⟨g', hok, ?_, fun a b => by rw [hl, h.look]⟩
  rw [hnodes, List.length_append, h.count]
  rfl

theorem bare_withVariables {n : Nat} (hn : n ≤ u32Max + 1) : Bare (withVariables n) n :=
  ⟨(congrArg List.length (withVariables_spec hn).1).trans (by simp), (withVariables_spec hn).2⟩

theorem cpdagNodes_ok (hlen : vars.length ≤ u32Max) :
    ∃ g, cpdagNodes vars = .ok g ∧ Bare g vars.length := by
  unfold cpdagNodes
  split_ifs
  · obtain ⟨g, hok, n, hg, hn⟩ := foldlM_inv (J := fun rest g => ∃ n, Bare g n ∧
        n + rest.length = vars.length) (f := fun (g : Cpdag) v => do
        return (← liftGraph (g.addNode (.static v))).1) (fun v rest g hg => by
      obtain ⟨n, hg, hn⟩ := hg
      rw [List.length_cons] at hn
      obtain ⟨g', hok, hg'⟩ := hg.addNode (by omega) v
      exact ⟨g', by rw [hok]; rfl, n + 1, hg', by omega⟩) vars .empty
      ⟨0, bare_empty, Nat.zero_add _⟩
    exact ⟨g, hok, hn ▸ hg⟩
  · refine ⟨_, rfl, ?_⟩
    rw [Nat.min_eq_left hlen]
    exact bare_withVariables (by omega)

/-! ## The edges -/

/-- While the keys of `rest` are to come, the edges of the others are there and undirected. -/
structure EdgesInv (adj : UndirectedAdj) (rest : List (Nat × Nat)) (g : Cpdag) : Prop where
  count : g.nodes.length = adj.ids.length
  sub : ∀ e ∈ rest, e ∈ adj.edgePairs
  nodup : rest.Nodup
  und : ∀ a b x y, adj.ids[a]? = some x → adj.ids[b]? = some y → adj.rows a b = true →
    edgeKey x y ∉ rest → Und g.adj a b
  only : ∀ a b, (look g.adj a b).isSome = true → adj.rows a b = true ∧
    ∀ x y, adj.ids[a]? = some x → adj.ids[b]? = some y → edgeKey x y ∉ rest

theorem edgesInv_step (hwf : adj.Wf) (e : Nat × Nat) (rest : List (Nat × Nat))
    (g : Cpdag) (h : EdgesInv adj (e :: rest) g) :
    ∃ g', insertSkeletonEdge (lastIdx adj.ids) g e = .ok g' ∧ EdgesInv adj rest g' := by
  obtain ⟨x, y⟩ := e
  obtain ⟨hle, i, j, hr, hi, hj⟩ := hwf.mem_edgePairs.mp (h.sub (x, y) (.head _))
  have hkey : edgeKey x y = (x, y) := sortedPair_of_le hle
  have hne : i ≠ j := hwf.irrefl hr
  have hnew : look g.adj i j = none := by
    rw [← Option.not_isSome_iff_eq_none]
    exact fun hs => (h.only i j hs).2 x y hi hj (hkey ▸ .head _)
  have hlt : ∀ {p v}, adj.ids[p]? = some v → p < g.nodeCount := by
    intro p v hp
    rw [Pdag.nodeCount, h.count]
    exact lt_of_getElem? hp
  obtain ⟨g', hok, hn, m, hu⟩ := g.insertUndirected_ok (hlt hi) (hlt hj) hne hnew
  obtain ⟨hnot, hnd⟩ := List.nodup_cons.mp h.nodup
  have hpair : ∀ {a b u w}, adj.ids[a]? = some u → adj.ids[b]? = some w → edgeKey u w = (x, y) →
      (a = i ∧ b = j) ∨ (a = j ∧ b = i) := by
    intro a b u w ha hb he
    rcases sortedPair_inj (he.trans hkey.symm) with ⟨rfl, rfl⟩ | ⟨rfl, rfl⟩
    · exact Or.inl ⟨pos_inj hwf.nodup ha hi, pos_inj hwf.nodup hb hj⟩
    · exact Or.inr ⟨pos_inj hwf.nodup ha hj, pos_inj hwf.nodup hb hi⟩
  have hund : ∀ {a b}, (a = i ∧ b = j) ∨ (a = j ∧ b = i) → Und g'.adj a b := by
    rintro a b (hij | hji)
    · exact ⟨m, by rw [hu, if_pos hij]⟩
    · refine ⟨m, ?_⟩
      rw [hu, if_neg fun hij => hne (hij.1.symm.trans hji.1), if_pos hji]
      rfl
  have hsame : ∀ {a b}, ¬ ((a = i ∧ b = j) ∨ (a = j ∧ b = i)) → look g'.adj a b = look g.adj a b := by
    intro a b hnot
    rw [hu, if_neg fun hij => hnot (Or.inl hij), if_neg fun hji => hnot (Or.inr hji)]
  refine ⟨g', ?_, by rw [hn, h.count], fun e he => h.sub e (.tail _ he), hnd,
    fun a b u w ha hb hab hmem => ?_, fun a b hs => ?_⟩
  · have h1 : denseOf (lastIdx adj.ids) x = .ok i := by
      unfold denseOf
      rw [(lastIdx_eq_some hwf.nodup).mpr hi]
    have h2 : denseOf (lastIdx adj.ids) y = .ok j := by
      unfold denseOf
      rw [(lastIdx_eq_some hwf.nodup).mpr hj]
    simp only [insertSkeletonEdge, h1, h2, hok, bind, Except.bind, liftGraph]
  · by_cases hp : (a = i ∧ b = j) ∨ (a = j ∧ b = i)
    · exact hund hp
    · obtain ⟨m', hm'⟩ := h.und a b u w ha hb hab fun hm =>
        (List.mem_cons.mp hm).elim (fun he => hp (hpair ha hb he)) hmem
      exact ⟨m', by rw [hsame hp, hm']⟩
  · by_cases hp : (a = i ∧ b = j) ∨ (a = j ∧ b = i)
    · refine ⟨?_, fun u w ha hb hm => hnot ?_⟩
      · rcases hp with ⟨rfl, rfl⟩ | ⟨rfl, rfl⟩
        · exact hr
        · exact hwf.symm hr
      · rcases hp with ⟨rfl, rfl⟩ | ⟨rfl, rfl⟩
        · cases hi.symm.trans ha
          cases hj.symm.trans hb
          exact hkey ▸ hm
        · cases hj.symm.trans ha
          cases hi.symm.trans hb
          rw [← hkey, edgeKey, sortedPair_comm]
          exact hm
    · rw [hsame hp] at hs
      obtain ⟨hab, hkeys⟩ := h.only a b hs
      exact ⟨hab, fun u w ha hb hm => hkeys u w ha hb (.tail _ hm)⟩

/-- **The edges of the skeleton become the undirected edges of the graph.** -/
theorem insertEdges_spec (hwf : adj.Wf) (hg : Bare g adj.ids.length) :
    ∃ g', adj.edgePairs.foldlM (insertSkeletonEdge (lastIdx adj.ids)) g = .ok g' ∧
      g'.nodes.length = adj.ids.length ∧
      (∀ a b, (look g'.adj a b).isSome = true ↔ adj.rows a b = true) ∧
      ∀ a b, adj.rows a b = true → Und g'.adj a b := by
  have hstart : EdgesInv adj adj.edgePairs g := by
    refine ⟨hg.count, fun _ he => he, hwf.nodup_edgePairs, fun a b x y ha hb hab hm => ?_,
      fun a b hs => ?_⟩
    · exact absurd (hwf.key_mem_edgePairs ha hb hab) hm
    · rw [hg.look] at hs
      exact absurd hs Bool.false_ne_true
  obtain ⟨g', hok, hinv⟩ := foldlM_inv (J := EdgesInv adj) (edgesInv_step hwf) _ _ hstart
  have hund : ∀ a b, adj.rows a b = true → Und g'.adj a b := by
    intro a b hab
    obtain ⟨x, hx⟩ := exists_getElem? (hwf.lt hab)
    obtain ⟨y, hy⟩ := exists_getElem? (hwf.lt (hwf.symm hab))
    exact hinv.und a b x y hx hy hab List.not_mem_nil
  refine ⟨g', hok, hinv.count, fun a b => ⟨fun hs => (hinv.only a b hs).1, fun hab => ?_⟩, hund⟩
  obtain ⟨m, hm⟩ := hund a b hab
  rw [hm]
  rfl

/-! ## The separating sets -/

/-- What the state has of the recorded sets when `rest` is to come. -/
structure LoadInv (G : Dag Nat) (vars : List Nat) (m rest : PcSepsets) (st : OrientationState) :
    Prop where
  fresh : st.conflicts = 0 ∧ st.ambiguousTriples = ∅
  sub : ∀ e ∈ rest, e ∈ m
  sound : ∀ a b sep, st.sepset a b = some sep → a ≠ b → G.DSep {z | z ∈ sep} a b
  stored : ∀ i j x y sep, vars[i]? = some x → vars[j]? = some y → x ≤ y →
    ((x, 0, y, 0), sep) ∈ m → ((x, 0, y, 0), sep) ∈ rest ∨ (st.sepset i j).isSome = true

theorem sepset_setSepset (st : OrientationState) (a b c d : Nat) (sep : List Nat) :
    (st.setSepset a b sep).sepset c d =
      if sortedPair c d = sortedPair a b then some sep else st.sepset c d := by
  unfold OrientationState.setSepset OrientationState.sepset
  exact Function.update_apply ..

theorem mapM_denseOf {varIndex : Nat → Option Nat} : ∀ {z zi : List Nat},
    z.mapM varIndex = some zi →
    (z.map fun v => (v, 0)).mapM (fun v : Nat × Nat => denseOf varIndex v.1) = .ok zi
  | [], zi, h => by
    cases h
    rfl
  | v :: z, zi, h => by
    rw [List.mapM_cons] at h
    obtain ⟨i, hi, h⟩ := Option.bind_eq_some_iff.mp h
    obtain ⟨rest, hrest, h⟩ := Option.bind_eq_some_iff.mp h
    cases h
    have hv : denseOf varIndex v = .ok i := by
      unfold denseOf
      rw [hi]
    rw [List.map_cons, List.mapM_cons, hv, mapM_denseOf hrest]
    rfl

theorem loadInv_step (hv : vars.Nodup) {m : PcSepsets}
    (hm : ∀ key sep, (key, sep) ∈ m → ∃ i j x y z, vars[i]? = some x ∧ vars[j]? = some y ∧ i ≠ j ∧
      key = (x, 0, y, 0) ∧ sep = z.map (·, 0) ∧ (∀ v ∈ z, v ∈ vars ∧ v ≠ x ∧ v ≠ y) ∧
      G.DSep (positionSet vars z) i j)
    (e : SepKey × List (Nat × Nat)) (rest : PcSepsets) (st : OrientationState)
    (h : LoadInv G vars m (e :: rest) st) :
    ∃ st', loadSepset (lastIdx vars) st e = .ok st' ∧ LoadInv G vars m rest st' := by
  obtain ⟨key, sep⟩ := e
  obtain ⟨i, j, x, y, z, hi, hj, hne, rfl, rfl, hz, hsep⟩ := hm key sep (h.sub _ (.head _))
  have hsub : ∀ e ∈ rest, e ∈ m := fun e he => h.sub e (.tail _ he)
  by_cases hgt : x > y
  · refine ⟨st, if_pos hgt, h.fresh, hsub, h.sound, fun a b u w s ha hb hle hmem => ?_⟩
    rcases h.stored a b u w s ha hb hle hmem with hc | hc
    · rcases List.mem_cons.mp hc with he | hc
      · cases he
        exact absurd hle (Nat.not_le.mpr hgt)
      · exact Or.inl hc
    · exact Or.inr hc
  · obtain ⟨zi, hzi, hmem⟩ := mapM_lastIdx hv fun v hvz => (hz v hvz).1
    have hset : {p | p ∈ zi} = positionSet vars z := Set.ext hmem
    obtain ⟨hiz, hjz⟩ := notMem_positionSet hi hj hz
    refine ⟨st.setSepset i j zi, ?_, h.fresh, hsub, fun a b s hs hab => ?_,
      fun a b u w s ha hb hle hmem => ?_⟩
    · have h1 : denseOf (lastIdx vars) x = .ok i := by
        unfold denseOf
        rw [(lastIdx_eq_some hv).mpr hi]
      have h2 : denseOf (lastIdx vars) y = .ok j := by
        unfold denseOf
        rw [(lastIdx_eq_some hv).mpr hj]
      simp only [loadSepset, if_neg hgt, h1, h2, mapM_denseOf hzi, bind, Except.bind]
      rfl
    · rw [sepset_setSepset] at hs
      split_ifs at hs with hk
      · cases hs
        rw [hset]
        rcases sortedPair_inj hk with ⟨rfl, rfl⟩ | ⟨rfl, rfl⟩
        · exact hsep
        · exact Dag.DSep.symm hiz hjz hsep
      · exact h.sound a b s hs hab
    · rw [sepset_setSepset]
      split_ifs with hk
      · exact Or.inr rfl
      · refine (h.stored a b u w s ha hb hle hmem).imp_left fun hc => ?_
        rcases List.mem_cons.mp hc with he | hc
        · cases he
          exact absurd (by rw [pos_inj hv ha hi, pos_inj hv hb hj]) hk
        · exact hc

/-- **The recorded sets, in any order, become separating sets of positions.** -/
theorem loadSepsets_spec {skel : StaticSkeleton} (hk : SkelInv G vars skel)
    (hadj : ∀ i j, skel.adj.rows i j = true ↔ G.Adj i j) {order : PcSepsets}
    (horder : order.Perm skel.sepsets) :
    ∃ st, order.foldlM (loadSepset (lastIdx vars)) .empty = .ok st ∧ st.conflicts = 0 ∧
      Separators G vars.length st := by
  have hv : vars.Nodup := hk.ids ▸ hk.wf.nodup
  obtain ⟨st, hok, hinv⟩ := foldlM_inv (J := LoadInv G vars skel.sepsets)
    (loadInv_step hv hk.sound) order .empty ⟨⟨rfl, rfl⟩, fun e he => horder.mem_iff.mp he,
      fun _ _ _ hs => absurd hs (by simp [OrientationState.empty, OrientationState.sepset]),
      fun i j x y sep _ _ _ hmem => Or.inl (horder.mem_iff.mpr hmem)⟩
  have hsome : ∀ {i j x y}, vars[i]? = some x → vars[j]? = some y → i ≠ j → ¬ G.Adj i j → x ≤ y →
      (st.sepset i j).isSome = true := by
    intro i j x y hi hj hne hnot hle
    have hr : skel.adj.rows i j = false := Bool.eq_false_iff.mpr fun hr => hnot ((hadj i j).mp hr)
    obtain ⟨sep, hmem⟩ := hk.recorded i j x y hi hj hne hr
    exact (hinv.stored i j x y sep hi hj hle hmem).resolve_left List.not_mem_nil
  refine ⟨st, hok, hinv.fresh.1, fun i j hi hj hne hnot => ?_, hinv.fresh.2⟩
  obtain ⟨x, hx⟩ := exists_getElem? hi
  obtain ⟨y, hy⟩ := exists_getElem? hj
  have hs : (st.sepset i j).isSome = true := by
    rcases Nat.le_total x y with hle | hle
    · exact hsome hx hy hne hnot hle
    · have := hsome hy hx hne.symm (fun h => hnot h.symm) hle
      unfold OrientationState.sepset at this ⊢
      rwa [sortedPair_comm]
  obtain ⟨sep, hsep⟩ := Option.isSome_iff_exists.mp hs
  exact ⟨sep, hsep, hinv.sound i j sep hsep hne⟩

/-! ## The run -/

/-- The entries are sets that d-separate the pair of their key, one for each nonadjacent pair in
each order. -/
structure SepsetsOf (m : PcSepsets) (G : Dag Nat) (vars : List Nat) : Prop where
  recorded : ∀ i j x y, vars[i]? = some x → vars[j]? = some y → i ≠ j → ¬ G.Adj i j →
    ∃ sep, ((x, 0, y, 0), sep) ∈ m
  separates : ∀ e ∈ m, ∃ i j x y z, vars[i]? = some x ∧ vars[j]? = some y ∧ i ≠ j ∧
    e = ((x, 0, y, 0), z.map (·, 0)) ∧ (∀ v ∈ z, v ∈ vars ∧ v ≠ x ∧ v ≠ y) ∧
    G.DSep (positionSet vars z) i j

/-- **PC with an oracle returns the CPDAG of the DAG**, without a diagnostic, and the separating sets it
records d-separate. -/
theorem pc_exact {F : Type} (pc : Pc F) (data : TabularData F) (ctx : ExecutionContext)
    (test : CiTest) (hvars : vars.Nodup) (hlen : vars.length ≤ u32Max)
    (hnodes : ∀ i j, G.edge i j → i < vars.length ∧ j < vars.length)
    (hprep : prepareStaticColumns pc.ci pc.constraints.alpha pc.fdr.isSome
      "PC requires at least one variable" "insufficient rows for PC" data vars =
        .ok (lastIdx vars, test))
    (horacle : Oracle G vars.length pc.constraints.alpha test)
    (hk : pc.constraints.NoKnowledge) (hfdr : pc.fdr = none)
    (hlimit : pc.constraints.maxParents = none)
    (hcond : vars.length - 2 ≤ pc.constraints.maxCondSize)
    (hsize : G.finite.toFinset.card ≤ 2000) (hlive : ctx.cancelled = false)
    (horder : ∀ m, (ctx.hashOrder m).Perm m) :
    ∃ r, pc.run data vars ctx = .ok r ∧ r.diagnostics = [] ∧
      IsCpdagOf r.evidence.graph G vars.length ∧ SepsetsOf r.sepsets G vars := by
  have hin : OracleInput G
      ⟨test, pc.constraints, lastIdx vars, vars, "pc.depth", ctx.threads, ctx.cancelled⟩ :=
    ⟨hvars, rfl, hnodes, horacle, hk.staticRequired, hk.staticForbidden, hlive⟩
  obtain ⟨skel, hskel, hinv, hadj⟩ := runStaticSkeleton_exact hin
    (show vars.length ≤ pc.constraints.maxCondSize + 2 by omega) hlimit
  have hids : skel.adj.ids = vars := hinv.ids
  obtain ⟨g₀, hg₀, hbare⟩ := cpdagNodes_ok hlen
  obtain ⟨g₁, hg₁, hcount, hlook, hund⟩ := insertEdges_spec hinv.wf (hids.symm ▸ hbare)
  rw [hids] at hg₁ hcount
  obtain ⟨st, hst, hconf, hsep⟩ := loadSepsets_spec hinv hadj (horder skel.sepsets)
  have hskel₁ : ∀ a b, (look g₁.adj a b).isSome = true ↔ G.Adj a b := fun a b =>
    (hlook a b).trans (hadj a b)
  obtain ⟨g₂, t, hrun, ht, hnodes₂, hf, hdir⟩ := orientation_exact (g := g₁)
    (show Separators G g₁.nodeCount st by rw [Pdag.nodeCount, hcount]; exact hsep) hskel₁
    (fun a b hab => hund a b ((hadj a b).mpr hab)) hsize
  have hcorrect : pc.correct skel = ((pc.correct skel).1, skel.adj, none) := by
    simp [Pc.correct, hfdr]
  have hnone : (if st.conflicts > 0 ∨ t.conflicts > 0 then
      [(⟨"pc.orientation_conflict", toString (max st.conflicts t.conflicts) ++
        " orientation conflict(s)"⟩ : DiscoveryDiagnostic)] else []) = [] :=
    if_neg (by omega)
  refine ⟨{
    evidence := ⟨g₂, staticEdgeEvidence (pc.correct skel).1 skel.sepsets "pc", (pc.correct skel).1⟩
    iterations := skel.iterations
    diagnostics := []
    performance := ⟨skel.ciTests, skel.adj.nEdges, vars.length⟩
    sepsets := skel.sepsets }, ?_, rfl, ?_, ?_⟩
  · unfold Pc.run
    rw [hk.validate, hk.checkBackgroundKnowledge, hprep]
    simp only [bind, Except.bind]
    rw [hskel]
    dsimp only
    rw [hcorrect]
    dsimp only
    rw [hg₀]
    dsimp only
    rw [hg₁]
    dsimp only
    rw [hst]
    dsimp only
    rw [hk.orientFixedDirections]
    dsimp only
    rw [hrun]
    simp only [liftOrientation, hinv.removed, hnone]
    rfl
  · exact isCpdagOf_of_faithful (by rw [hnodes₂, hcount]) hf hdir
  · refine ⟨fun i j x y hi hj hne hnot => ?_, fun e he => ?_⟩
    · refine hinv.recorded i j x y hi hj hne (Bool.eq_false_iff.mpr fun hr => ?_)
      exact hnot ((hadj i j).mp hr)
    · obtain ⟨i, j, x, y, z, hi, hj, hne, hkey, hsepz, hz, hds⟩ := hinv.sound e.1 e.2 he
      exact ⟨i, j, x, y, z, hi, hj, hne, Prod.ext hkey hsepz, hz, hds⟩

/-! ## A collider -/

/-- `0 → 2 ← 1`. -/
def vee : Dag Nat where
  edge := fun a b => (a = 0 ∨ a = 1) ∧ b = 2
  finite := by
    refine (Set.toFinite {((0, 2) : Nat × Nat), (1, 2)}).subset ?_
    rintro ⟨a, b⟩ ⟨rfl | rfl, rfl⟩
    · exact Or.inl rfl
    · exact Or.inr rfl
  acyclic := by
    intro v h
    obtain ⟨w, ⟨hv, -⟩, -⟩ := TransGen.head'_iff.mp h
    obtain ⟨u, -, -, hv'⟩ := TransGen.tail'_iff.mp h
    omega

/-- Only the two causes are independent, and only without their effect. -/
def veeTest : CiTest := fun i j z => .ok ⟨some 0, some (if i + j = 1 ∧ z = [] then 1 else 0)⟩

theorem vee_oracle : Oracle vee 3 (1 / 20) veeTest := by
  have hvee : ∀ {i j}, i + j = 1 → vee.Unshielded i 2 j := by
    intro i j hij
    refine ⟨⟨by omega, rfl⟩, ⟨by omega, rfl⟩, by omega, ?_⟩
    rintro (⟨-, h⟩ | ⟨-, h⟩) <;> omega
  intro i j z hi hj hne hz
  refine ⟨0, _, rfl, ?_⟩
  by_cases hij : i + j = 1
  · by_cases hnil : z = []
    · subst hnil
      rw [if_pos ⟨hij, rfl⟩]
      refine iff_of_true (by norm_num) ?_
      have hsep : vee.DSep {p | vee.edge p i} i j := by
        refine Dag.dSep_parents (fun h => ?_) hne.symm fun h => ?_
        · exact absurd h.2 (by omega)
        · obtain ⟨u, -, -, hu⟩ := TransGen.tail'_iff.mp h
          omega
      have hset : {p | vee.edge p i} = {p | p ∈ ([] : List Nat)} := by
        ext p
        refine iff_of_false (fun h => ?_) List.not_mem_nil
        exact absurd h.2 (by omega)
      rwa [hset] at hsep
    · rw [if_neg fun h => hnil h.2]
      refine iff_of_false (by norm_num) fun h => ?_
      obtain ⟨v, hv⟩ := List.exists_mem_of_ne_nil z hnil
      obtain rfl : v = 2 := by
        have := hz v hv
        omega
      exact Dag.collider_notMem (hvee hij) h hv
  · rw [if_neg fun h => hij h.1]
    refine iff_of_false (by norm_num) (Dag.not_dSep_of_adj ?_)
    rcases Nat.lt_or_gt_of_ne hne with hlt | hlt
    · exact Or.inl ⟨by omega, by omega⟩
    · exact Or.inr ⟨by omega, by omega⟩

/-- PC without background knowledge or correction, with the test of the collider. -/
def veePc : Pc ℚ where
  constraints := ⟨[], [], [], none, 0, 0, 1, 1 / 20, .default⟩
  ci := ⟨0, true, none, fun _ => .ok veeTest, fun _ _ => ""⟩
  fdr := none

theorem pc_exact_vee : ∃ r, veePc.run (fun _ => .ok [1, 2, 3]) [7, 3, 5] ⟨2, false, id⟩ = .ok r ∧
    r.diagnostics = [] ∧ IsCpdagOf r.evidence.graph vee 3 ∧ SepsetsOf r.sepsets vee [7, 3, 5] := by
  refine pc_exact veePc _ _ veeTest (by decide) (by decide) ?_ ?_ vee_oracle
    ⟨rfl, rfl, rfl, rfl⟩ rfl rfl (Nat.le_refl _) ?_ rfl fun m => List.Perm.refl m
  · rintro i j ⟨hi, rfl⟩
    exact ⟨hi.elim (fun h => by simp [h]) fun h => by simp [h], by decide⟩
  · norm_num [prepareStaticColumns, ensureCiDecisionsMeaningful, ensureCiFitsRows,
      collectFloatColumns, veePc, bind, Except.bind, pure, Except.pure]
  · have hsub : vee.finite.toFinset ⊆ {((0, 2) : Nat × Nat), (1, 2)} := by
      rintro ⟨a, b⟩ h
      rw [Set.Finite.mem_toFinset] at h
      obtain ⟨rfl | rfl, rfl⟩ := h
      · exact Finset.mem_insert_self ..
      · exact Finset.mem_insert_of_mem (Finset.mem_singleton_self _)
    exact (Finset.card_le_card hsub).trans (by decide)

end Antecedent.Discovery
