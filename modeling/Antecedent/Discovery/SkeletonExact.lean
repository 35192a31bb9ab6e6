import Antecedent.Dag.Basic
import Antecedent.Discovery.SkeletonScan
import Mathlib.Data.Set.Card

/-!
# The adjacency search with an oracle is exact

The test accepts exactly what a DAG on the column positions separates (`OracleInput`). Then
`run_static_skeleton` succeeds and leaves exactly the edges of the DAG (`runStaticSkeleton_exact`).

* `SkelInv` is kept by every removal: no edge of the DAG is lost, and each missing pair has a recorded
  set that separates it.
* A nonadjacent pair is separated by the parents of one of its ends. While the pair is there these
  parents are neighbours of that end, so they are a candidate at the depth that is their number
  (`visitEdge_spec`), and that depth is reached (`depthLoop_spec`).
-/

namespace Antecedent.Discovery

open Graph Machine

def positionSet (vars z : List Nat) : Set Nat := {p | ∃ v ∈ z, vars[p]? = some v}

/-- A CI test on the columns of `n` variables that accepts exactly what the graph separates. -/
def Oracle (G : Dag Nat) (n : Nat) (alpha : ℚ) (ci : CiTest) : Prop :=
  ∀ i j Z, i < n → j < n → i ≠ j → (∀ z ∈ Z, z < n ∧ z ≠ i ∧ z ≠ j) →
    ∃ s p, ci i j Z = .ok ⟨some s, some p⟩ ∧ (p > alpha ↔ G.DSep {z | z ∈ Z} i j)

/-- The DAG has its nodes among the positions, and nothing but its separations decides. -/
structure OracleInput (G : Dag Nat) (input : StaticSkeletonInput) : Prop where
  nodup : input.vars.Nodup
  index : input.varIndex = lastIdx input.vars
  nodes : ∀ i j, G.edge i j → i < input.vars.length ∧ j < input.vars.length
  oracle : Oracle G input.vars.length input.constraints.alpha input.ci
  required : ∀ a b, input.constraints.staticRequired a b = false
  forbidden : ∀ a b, input.constraints.staticForbidden a b = false
  live : input.cancelled = false

/-- What the search keeps. -/
structure SkelInv (G : Dag Nat) (vars : List Nat) (skel : StaticSkeleton) : Prop where
  wf : skel.adj.Wf
  ids : skel.adj.ids = vars
  keeps : ∀ i j, G.Adj i j → skel.adj.rows i j = true
  recorded : ∀ i j x y, vars[i]? = some x → vars[j]? = some y → i ≠ j →
    skel.adj.rows i j = false → ∃ sep, ((x, 0, y, 0), sep) ∈ skel.sepsets
  sound : ∀ key sep, (key, sep) ∈ skel.sepsets → ∃ i j x y z, vars[i]? = some x ∧
    vars[j]? = some y ∧ i ≠ j ∧ key = (x, 0, y, 0) ∧ sep = z.map (·, 0) ∧
    (∀ v ∈ z, v ∈ vars ∧ v ≠ x ∧ v ≠ y) ∧ G.DSep (positionSet vars z) i j
  removed : skel.parentLimitRemoved = []

variable {G : Dag Nat} {input : StaticSkeletonInput} {skel : StaticSkeleton} {vars : List Nat}
  {z : List Nat}
  {i j x y depth : Nat}

/-- A test does not disturb what the search keeps. -/
theorem SkelInv.of_untouched {skel' : StaticSkeleton} (h : SkelInv G vars skel)
    (hu : Untouched skel skel') : SkelInv G vars skel' where
  wf := hu.adj ▸ h.wf
  ids := hu.adj ▸ h.ids
  keeps := hu.adj ▸ h.keeps
  recorded := hu.adj ▸ hu.sepsets ▸ h.recorded
  sound := hu.sepsets ▸ h.sound
  removed := hu.removed ▸ h.removed

/-! ## What the test says -/

theorem notMem_positionSet (hi : vars[i]? = some x) (hj : vars[j]? = some y)
    (hz : ∀ v ∈ z, v ∈ vars ∧ v ≠ x ∧ v ≠ y) :
    i ∉ positionSet vars z ∧ j ∉ positionSet vars z := by
  constructor
  · rintro ⟨v, hv, hiv⟩
    exact (hz v hv).2.1 (Option.some.inj (hiv.symm.trans hi))
  · rintro ⟨v, hv, hjv⟩
    exact (hz v hv).2.2 (Option.some.inj (hjv.symm.trans hj))

theorem mapM_lastIdx (hv : vars.Nodup) : ∀ {z : List Nat}, (∀ v ∈ z, v ∈ vars) →
    ∃ zi, z.mapM (lastIdx vars) = some zi ∧ ∀ p, p ∈ zi ↔ p ∈ positionSet vars z
  | [], _ => ⟨[], rfl, fun p => by simp [positionSet]⟩
  | v :: z, h => by
    obtain ⟨k, hk⟩ := Option.isSome_iff_exists.mp (lastIdx_isSome (h v (.head _)))
    obtain ⟨zi, hzi, hmem⟩ := mapM_lastIdx hv (z := z) fun u hu => h u (.tail _ hu)
    refine ⟨k :: zi, by simp [List.mapM_cons, hk, hzi], fun p => ?_⟩
    rw [List.mem_cons, hmem]
    simp only [positionSet, Set.mem_ofPred_eq, List.mem_cons, exists_eq_or_imp]
    refine or_congr_left ⟨?_, fun hp => pos_inj hv hp ((lastIdx_eq_some hv).mp hk)⟩
    rintro rfl
    exact (lastIdx_eq_some hv).mp hk

theorem OracleInput.decides (h : OracleInput G input) (hi : input.vars[i]? = some x)
    (hj : input.vars[j]? = some y) (hne : i ≠ j)
    (hz : ∀ v ∈ z, v ∈ input.vars ∧ v ≠ x ∧ v ≠ y) :
    Decides input x y (fun z => G.DSep (positionSet input.vars z) i j) z := by
  obtain ⟨zi, hzi, hmem⟩ := mapM_lastIdx h.nodup fun v hv => (hz v hv).1
  have hZ : ∀ p ∈ zi, p < input.vars.length ∧ p ≠ i ∧ p ≠ j := by
    intro p hp
    have hpz := (hmem p).mp hp
    obtain ⟨hiz, hjz⟩ := notMem_positionSet hi hj hz
    have hlt : p < input.vars.length := by
      obtain ⟨v, -, hpv⟩ := hpz
      exact lt_of_getElem? hpv
    exact ⟨hlt, fun he => hiz (he ▸ hpz), fun he => hjz (he ▸ hpz)⟩
  obtain ⟨s, p, hci, hp⟩ := h.oracle i j zi (lt_of_getElem? hi) (lt_of_getElem? hj) hne hZ
  have hset : {q | q ∈ zi} = positionSet input.vars z := Set.ext hmem
  rw [hset] at hp
  refine ⟨s, p, ?_, hp⟩
  have hx : input.column "x" x = .ok i := by
    unfold StaticSkeletonInput.column
    rw [h.index, (lastIdx_eq_some h.nodup).mpr hi]
  have hy : input.column "y" y = .ok j := by
    unfold StaticSkeletonInput.column
    rw [h.index, (lastIdx_eq_some h.nodup).mpr hj]
  have hzc : z.mapM (input.column "z") = .ok zi := mapM_column (h.index ▸ hzi)
  simp only [staticCiTest, hx, hy, hzc, hci, bind, Except.bind, CiResult.finite]

/-! ## The parents of an end as a candidate -/

/-- The parents of `i`, among the neighbours `x` has besides `y`. -/
theorem exists_parents_sublist (hn : ∀ a b, G.edge a b → a < vars.length ∧ b < vars.length)
    (h : SkelInv G vars skel) (hi : vars[i]? = some x) (hj : vars[j]? = some y)
    (hadj : ¬ G.Adj i j) : ∃ z, z.Sublist (sortedNeighbours x y skel.adj vars) ∧
      z.length = {p | G.edge p i}.ncard ∧ positionSet vars z = {p | G.edge p i} := by
  classical
  have hv : vars.Nodup := h.ids ▸ h.wf.nodup
  have hi' : skel.adj.ids[i]? = some x := h.ids.symm ▸ hi
  set z := (sortedNeighbours x y skel.adj vars).filter
    (fun v => ∃ p, vars[p]? = some v ∧ G.edge p i) with hz
  have hset : positionSet vars z = {p | G.edge p i} := by
    ext p
    simp only [positionSet, Set.mem_ofPred_eq, hz, List.mem_filter, decide_eq_true_eq]
    constructor
    · rintro ⟨v, ⟨-, q, hq, he⟩, hp⟩
      rwa [pos_inj hv hp hq]
    · intro he
      obtain ⟨v, hp⟩ := exists_getElem? (hn p i he).1
      have hmem : v ∈ sortedNeighbours x y skel.adj skel.adj.ids := by
        refine (h.wf.mem_sortedNeighbours hi').mpr ⟨?_, p, h.keeps i p (Or.inr he), h.ids.symm ▸ hp⟩
        rintro rfl
        exact hadj (pos_inj hv hp hj ▸ Or.inr he)
      exact ⟨v, ⟨h.ids ▸ hmem, p, hp, he⟩, hp⟩
  refine ⟨z, List.filter_sublist, ?_, hset⟩
  have hznd : z.Nodup := by
    have hnd : (sortedNeighbours x y skel.adj skel.adj.ids).Nodup := h.wf.nodup_sortedNeighbours
    rw [h.ids] at hnd
    exact hnd.filter _
  -- positions and ids correspond one to one
  rw [← hset, ← List.toFinset_card_of_nodup hznd, ← Set.ncard_coe_finset]
  refine Set.ncard_congr (fun v _ => (lastIdx vars v).getD 0) ?_ ?_ ?_
  · intro v hvz
    rw [Finset.mem_coe, List.mem_toFinset] at hvz
    obtain ⟨p, hp, -⟩ := of_decide_eq_true (List.mem_filter.mp hvz).2
    exact ⟨v, hvz, by rw [(lastIdx_eq_some hv).mpr hp]; exact hp⟩
  · intro v w hvz hwz he
    rw [Finset.mem_coe, List.mem_toFinset] at hvz hwz
    obtain ⟨p, hp, -⟩ := of_decide_eq_true (List.mem_filter.mp hvz).2
    obtain ⟨q, hq, -⟩ := of_decide_eq_true (List.mem_filter.mp hwz).2
    rw [(lastIdx_eq_some hv).mpr hp, (lastIdx_eq_some hv).mpr hq] at he
    dsimp only [Option.getD] at he
    exact Option.some.inj (hp.symm.trans (he ▸ hq))
  · rintro p ⟨v, hvz, hp⟩
    refine ⟨v, by simpa using hvz, ?_⟩
    rw [(lastIdx_eq_some hv).mpr hp]
    rfl

/-! ## One edge -/

theorem mem_insert_sepsets {m : PcSepsets} {key : SepKey} {sep : List (Nat × Nat)}
    {e : SepKey × List (Nat × Nat)} :
    e ∈ m.insert key sep ↔ e = (key, sep) ∨ e ∈ m ∧ e.1 ≠ key := by
  unfold PcSepsets.insert
  rw [List.mem_cons, List.mem_filter]
  simp

theorem SkelInv.remove (h : SkelInv G vars skel) (hi : vars[i]? = some x) (hj : vars[j]? = some y)
    (hne : i ≠ j) (hz : ∀ v ∈ z, v ∈ vars ∧ v ≠ x ∧ v ≠ y)
    (hsep : G.DSep (positionSet vars z) i j) :
    SkelInv G vars { skel with
      adj := skel.adj.remove (edgeKey x y)
      sepsets := recordSepset skel.sepsets x y z } := by
  have hs := h.wf.remove_spec (h.ids.symm ▸ hi) (h.ids.symm ▸ hj) hne
  have hnot : ¬ G.Adj i j := fun hadj => Dag.not_dSep_of_adj hadj hsep
  have hv : vars.Nodup := h.ids ▸ h.wf.nodup
  refine ⟨hs.wf, hs.ids.trans h.ids, fun a b hab => ?_, fun a b u w ha hb hab hr => ?_,
    fun key sep he => ?_, h.removed⟩
  · rw [hs.same a b]
    · exact h.keeps a b hab
    · rintro ⟨rfl, rfl⟩
      exact hnot hab
    · rintro ⟨rfl, rfl⟩
      exact hnot hab.symm
  · by_cases h1 : a = i ∧ b = j
    · obtain ⟨rfl, rfl⟩ := h1
      obtain rfl := Option.some.inj (ha.symm.trans hi)
      obtain rfl := Option.some.inj (hb.symm.trans hj)
      refine ⟨z.map (·, 0), mem_insert_sepsets.mpr (Or.inr ⟨mem_insert_sepsets.mpr (Or.inl rfl), ?_⟩)⟩
      intro hk
      simp only [Prod.mk.injEq] at hk
      exact hne (pos_inj hv hi (hk.1 ▸ hj))
    · by_cases h2 : a = j ∧ b = i
      · obtain ⟨rfl, rfl⟩ := h2
        obtain rfl := Option.some.inj (ha.symm.trans hj)
        obtain rfl := Option.some.inj (hb.symm.trans hi)
        exact ⟨z.map (·, 0), mem_insert_sepsets.mpr (Or.inl rfl)⟩
      · obtain ⟨sep, hmem⟩ := h.recorded a b u w ha hb hab (by rw [← hs.same a b h1 h2]; exact hr)
        have hk : ∀ {c d s t}, vars[c]? = some s → vars[d]? = some t → ¬ (a = c ∧ b = d) →
            ((u, 0, w, 0) : SepKey) ≠ (s, 0, t, 0) := by
          intro c d s t hc hd hcd hk
          simp only [Prod.mk.injEq, true_and, and_true] at hk
          exact hcd ⟨pos_inj hv ha (hk.1 ▸ hc), pos_inj hv hb (hk.2 ▸ hd)⟩
        refine ⟨sep, mem_insert_sepsets.mpr (Or.inr ⟨mem_insert_sepsets.mpr (Or.inr ⟨hmem, ?_⟩), ?_⟩)⟩
        · exact hk hi hj h1
        · exact hk hj hi h2
  · rcases mem_insert_sepsets.mp he with he | ⟨he, -⟩
    · cases he
      obtain ⟨hiz, hjz⟩ := notMem_positionSet hi hj hz
      exact ⟨j, i, y, x, z, hj, hi, hne.symm, rfl, rfl, fun v hvz => (hz v hvz).imp_right And.symm,
        Dag.DSep.symm hiz hjz hsep⟩
    · rcases mem_insert_sepsets.mp he with he | ⟨he, -⟩
      · cases he
        exact ⟨i, j, x, y, z, hi, hj, hne, rfl, rfl, hz, hsep⟩
      · exact h.sound key sep he

/-- At the depth of an edge whose end `i` has so many parents, they do not separate its ends. -/
def Tried (G : Dag Nat) (depth : Nat) (rows : Nat → Nat → Bool) (i j : Nat) : Prop :=
  rows i j = true → G.DSep {p | G.edge p i} i j → {p | G.edge p i}.ncard ≠ depth

theorem OracleInput.visitEdge_spec (h : OracleInput G input) (hk : SkelInv G input.vars skel)
    (hi : input.vars[i]? = some x) (hj : input.vars[j]? = some y) (hne : i ≠ j) (depth tests : Nat) :
    ∃ st, visitEdge input depth (skel, tests) (x, y) = .ok st ∧ SkelInv G input.vars st.1 ∧
      (∀ a b, st.1.adj.rows a b = true → skel.adj.rows a b = true) ∧
      Tried G depth st.1.adj.rows i j ∧ Tried G depth st.1.adj.rows j i := by
  have hi' : skel.adj.ids[i]? = some x := hk.ids.symm ▸ hi
  have hj' : skel.adj.ids[j]? = some y := hk.ids.symm ▸ hj
  unfold visitEdge
  dsimp only
  rw [h.live, h.required]
  simp only [Bool.false_eq_true, if_false]
  by_cases hc : skel.adj.rows i j = true
  swap
  · have hcon : skel.adj.contains (edgeKey x y) = false :=
      Bool.eq_false_iff.mpr fun hcon => hc ((hk.wf.contains_key hi' hj').mp hcon)
    refine ⟨(skel, tests), by rw [hcon]; rfl, hk, fun _ _ h => h, fun hr => absurd hr hc, fun hr => ?_⟩
    exact absurd (hk.wf.symm hr) hc
  have hcon : skel.adj.contains (edgeKey x y) = true := (hk.wf.contains_key hi' hj').mpr hc
  -- the candidates avoid both ends
  have hcand : ∀ z : List Nat, z.Sublist (sortedNeighbours x y skel.adj input.vars) ∨
      z.Sublist (sortedNeighbours y x skel.adj input.vars) →
      ∀ v ∈ z, v ∈ input.vars ∧ v ≠ x ∧ v ≠ y := by
    have hside : ∀ {s t k : Nat}, skel.adj.ids[k]? = some s →
        ∀ v ∈ sortedNeighbours s t skel.adj input.vars, v ∈ input.vars ∧ v ≠ s ∧ v ≠ t := by
      intro s t k hs v hv
      rw [← hk.ids] at hv
      obtain ⟨hvt, p, hr, hp⟩ := (hk.wf.mem_sortedNeighbours hs).mp hv
      refine ⟨hk.ids ▸ List.mem_of_getElem? hp, ?_, hvt⟩
      rintro rfl
      exact hk.wf.irrefl hr (pos_inj hk.wf.nodup hs hp)
    rintro z (hz | hz) v hv
    · exact hside hi' v (hz.subset hv)
    · obtain ⟨h1, h2, h3⟩ := hside hj' v (hz.subset hv)
      exact ⟨h1, h3, h2⟩
  obtain ⟨⟨found, s⟩, hok, hs⟩ := scanEdge_spec depth tests skel
    (P := fun z => G.DSep (positionSet input.vars z) i j) fun z hz => h.decides hi hj hne (hcand z hz)
  have hu : Untouched skel s.skel := hs.untouched
  rw [hcon, hok]
  cases found with
  | some z =>
    obtain ⟨hmem, hsep⟩ := hs.found z rfl
    have hk' := (hk.of_untouched hu).remove hi hj hne (hcand z (mem_candidates.mp hmem).1) hsep
    have hset := (hk.of_untouched hu).wf.remove_spec ((hk.of_untouched hu).ids.symm ▸ hi)
      ((hk.of_untouched hu).ids.symm ▸ hj) hne
    refine ⟨_, rfl, hk', fun a b hr => ?_, fun hr => ?_, fun hr => ?_⟩
    · by_cases h1 : a = i ∧ b = j
      · rw [h1.1, h1.2]
        exact hc
      · by_cases h2 : a = j ∧ b = i
        · rw [h2.1, h2.2]
          exact hk.wf.symm hc
        · rw [← hu.adj, ← hset.same a b h1 h2]
          exact hr
    · exact absurd hr (by simp [hset.left])
    · exact absurd hr (by simp [hset.right])
  | none =>
    have hnone := hs.none rfl
    have htried : ∀ {rows : Nat → Nat → Bool}, Tried G depth rows i j ∧ Tried G depth rows j i := by
      intro rows
      constructor
      · intro _ hopen hcard
        have hadj : ¬ G.Adj i j := fun hadj => Dag.not_dSep_of_adj hadj hopen
        obtain ⟨z, hz, hlen, hpos⟩ := exists_parents_sublist h.nodes hk hi hj hadj
        refine hnone z (mem_candidates.mpr ⟨Or.inl hz, hlen.trans hcard⟩) ?_
        rwa [hpos]
      · intro _ hopen hcard
        have hadj : ¬ G.Adj j i := fun hadj => Dag.not_dSep_of_adj hadj hopen
        obtain ⟨z, hz, hlen, hpos⟩ := exists_parents_sublist h.nodes hk hj hi hadj
        refine hnone z (mem_candidates.mpr ⟨Or.inr hz, hlen.trans hcard⟩) ?_
        rw [hpos]
        exact Dag.DSep.symm Dag.notMem_parents (fun he => hadj (Or.inr he)) hopen
    cases hw : s.weakest with
    | none =>
      refine ⟨(s.skel, s.depthTests), ?_, hk.of_untouched hu, fun a b hr => hu.adj ▸ hr, htried⟩
      simp only [Bool.not_true, Bool.false_eq_true, if_false, bind, Except.bind, hw]
      rfl
    | some e =>
      refine ⟨({ s.skel with edgeScores := keepWeakest s.skel.edgeScores x y e.1 e.2 }, s.depthTests),
        ?_, hk.of_untouched ⟨hu.adj, hu.sepsets, hu.removed⟩, fun a b hr => hu.adj ▸ hr, htried⟩
      simp only [Bool.not_true, Bool.false_eq_true, if_false, bind, Except.bind, hw]
      rfl

/-! ## One depth -/

/-- While the edges of `rest` are to come, the others that are left were tried. -/
structure DepthInv (G : Dag Nat) (vars : List Nat) (depth : Nat) (start : Nat → Nat → Bool)
    (rest : List (Nat × Nat)) (st : StaticSkeleton × Nat) : Prop where
  inv : SkelInv G vars st.1
  shrinks : ∀ a b, st.1.adj.rows a b = true → start a b = true
  edges : ∀ e ∈ rest, ∃ i j : Nat, vars[i]? = some e.1 ∧ vars[j]? = some e.2 ∧ i ≠ j
  tried : ∀ i j x y, vars[i]? = some x → vars[j]? = some y → i ≠ j → edgeKey x y ∉ rest →
    Tried G depth st.1.adj.rows i j

theorem edgeKey_cases (x y : Nat) : edgeKey x y = (x, y) ∨ edgeKey x y = (y, x) := by
  unfold edgeKey sortedPair
  split_ifs
  · exact Or.inl rfl
  · exact Or.inr rfl

theorem OracleInput.visit_step (h : OracleInput G input) {start : Nat → Nat → Bool}
    (e : Nat × Nat) (rest : List (Nat × Nat)) (st : StaticSkeleton × Nat)
    (hst : DepthInv G input.vars depth start (e :: rest) st) :
    ∃ st', visitEdge input depth st e = .ok st' ∧ DepthInv G input.vars depth start rest st' := by
  obtain ⟨i, j, hi, hj, hne⟩ := hst.edges e (.head _)
  obtain ⟨st', hok, hk, hsub, h1, h2⟩ := h.visitEdge_spec hst.inv hi hj hne depth st.2
  refine ⟨st', hok, hk, fun a b hr => hst.shrinks a b (hsub a b hr),
    fun e' he' => hst.edges e' (.tail _ he'), fun a b u w ha hb hab hmem hr => ?_⟩
  by_cases he : edgeKey u w = e
  · have hpair : (a = i ∧ b = j) ∨ (a = j ∧ b = i) := by
      rcases edgeKey_cases u w with hc | hc <;> rw [hc] at he <;> subst he
      · exact Or.inl ⟨pos_inj h.nodup ha hi, pos_inj h.nodup hb hj⟩
      · exact Or.inr ⟨pos_inj h.nodup ha hj, pos_inj h.nodup hb hi⟩
    rcases hpair with ⟨rfl, rfl⟩ | ⟨rfl, rfl⟩
    · exact h1 hr
    · exact h2 hr
  · refine hst.tried a b u w ha hb hab (fun hm => ?_) (hsub a b hr)
    exact (List.mem_cons.mp hm).elim he hmem

theorem OracleInput.runDepth_spec (h : OracleInput G input) (hk : SkelInv G input.vars skel)
    (depth : Nat) :
    ∃ skel', runDepth input depth skel = .ok skel' ∧ SkelInv G input.vars skel' ∧
      (∀ a b, skel'.adj.rows a b = true → skel.adj.rows a b = true) ∧
      ∀ i j, Tried G depth skel'.adj.rows i j := by
  have hstart : DepthInv G input.vars depth skel.adj.rows (sortedEdgePairs skel.adj) (skel, 0) := by
    refine ⟨hk, fun _ _ hr => hr, fun e he => ?_, fun i j x y hi hj hne hmem hr => absurd ?_ hmem⟩
    · obtain ⟨-, i, j, hr, hi, hj⟩ := hk.wf.mem_edgePairs.mp (mem_sortedEdgePairs.mp he)
      exact ⟨i, j, hk.ids ▸ hi, hk.ids ▸ hj, hk.wf.irrefl hr⟩
    · exact mem_sortedEdgePairs.mpr
        (hk.wf.key_mem_edgePairs (hk.ids.symm ▸ hi) (hk.ids.symm ▸ hj) hr)
  obtain ⟨⟨skel', tests⟩, hok, hinv⟩ := foldlM_inv (J := DepthInv G input.vars depth skel.adj.rows)
    (fun e rest st hst => h.visit_step e rest st hst) _ _ hstart
  refine ⟨{ skel' with
    iterations := skel'.iterations ++ [⟨input.label ++ "." ++ toString depth, tests⟩] }, ?_,
    hinv.inv.of_untouched ⟨rfl, rfl, rfl⟩, hinv.shrinks, fun i j hr => ?_⟩
  · unfold runDepth
    rw [hok]
    rfl
  · have hlt : ∀ {a b}, skel'.adj.rows a b = true → ∃ v, input.vars[a]? = some v := fun hr =>
      exists_getElem? (hinv.inv.ids ▸ hinv.inv.wf.lt hr)
    obtain ⟨x, hx⟩ := hlt hr
    obtain ⟨y, hy⟩ := hlt (hinv.inv.wf.symm hr)
    exact hinv.tried i j x y hx hy (hinv.inv.wf.irrefl hr) List.not_mem_nil hr

/-! ## Every depth -/

theorem OracleInput.depthLoop_spec (h : OracleInput G input) : ∀ (left depth : Nat)
    (skel : StaticSkeleton), SkelInv G input.vars skel →
    (∀ d < depth, ∀ i j, Tried G d skel.adj.rows i j) →
    ∃ skel', depthLoop input left depth skel = .ok skel' ∧ SkelInv G input.vars skel' ∧
      ∃ D, (∀ d < D, ∀ i j, Tried G d skel'.adj.rows i j) ∧
        (D = depth + left + 1 ∨ maxExcessDegree skel'.adj < D) := by
  have hstep : ∀ {depth : Nat} {skel : StaticSkeleton}, SkelInv G input.vars skel →
      (∀ d < depth, ∀ i j, Tried G d skel.adj.rows i j) →
      ∃ skel', runDepth input depth skel = .ok skel' ∧ SkelInv G input.vars skel' ∧
        ∀ d < depth + 1, ∀ i j, Tried G d skel'.adj.rows i j := by
    intro depth skel hk hd
    obtain ⟨skel', hok, hk', hsub, ht⟩ := h.runDepth_spec hk depth
    refine ⟨skel', hok, hk', fun d hlt i j => ?_⟩
    rcases Nat.lt_succ_iff_lt_or_eq.mp hlt with hlt | rfl
    · exact fun hr => hd d hlt i j (hsub i j hr)
    · exact ht i j
  intro left
  induction left with
  | zero =>
    intro depth skel hk hd
    obtain ⟨skel', hok, hk', ht⟩ := hstep hk hd
    exact ⟨skel', hok, hk', depth + 1, ht, Or.inl rfl⟩
  | succ left ih =>
    intro depth skel hk hd
    obtain ⟨skel₁, hok, hk₁, ht⟩ := hstep hk hd
    by_cases hmax : maxExcessDegree skel₁.adj < depth + 1
    · refine ⟨skel₁, ?_, hk₁, depth + 1, ht, Or.inr hmax⟩
      simp only [depthLoop, hok, bind, Except.bind, if_pos hmax]
      rfl
    · obtain ⟨skel', hok', hk', D, hD, hend⟩ := ih _ _ hk₁ ht
      refine ⟨skel', ?_, hk', D, hD, hend.imp_left fun he => by omega⟩
      simp only [depthLoop, hok, bind, Except.bind, if_neg hmax]
      exact hok'

/-- After the last depth no pair is left that the parents of an end separate. -/
theorem SkelInv.not_open (hk : SkelInv G vars skel)
    (hn : ∀ a b, G.edge a b → a < vars.length ∧ b < vars.length) {D cond : Nat}
    (hcond : vars.length ≤ cond + 2) (hD : ∀ d < D, ∀ i j, Tried G d skel.adj.rows i j)
    (hend : D = cond + 1 ∨ maxExcessDegree skel.adj < D) (hr : skel.adj.rows i j = true) :
    ¬ G.DSep {p | G.edge p i} i j := by
  classical
  intro hopen
  have hne : i ≠ j := hk.wf.irrefl hr
  have hlt : ∀ {a b}, skel.adj.rows a b = true → a < vars.length := fun hr => hk.ids ▸ hk.wf.lt hr
  have hadj : ¬ G.Adj i j := fun hadj => Dag.not_dSep_of_adj hadj hopen
  set P := (Finset.range vars.length).filter fun p => G.edge p i with hP
  have hcoe : (P : Set Nat) = {p | G.edge p i} := by
    ext p
    simp only [hP, Finset.coe_filter, Finset.mem_range, Set.mem_ofPred_eq, and_iff_right_iff_imp]
    exact fun he => (hn p i he).1
  have hcard : {p | G.edge p i}.ncard = P.card := by rw [← hcoe, Set.ncard_coe_finset]
  have hDle : D ≤ P.card := by
    by_contra hlt'
    exact hD P.card (Nat.lt_of_not_le hlt') i j hr hopen hcard
  have hjP : j ∉ P := fun hm => hadj (Or.inr (Finset.mem_filter.mp hm).2)
  have hiP : i ∉ insert j P := by
    rw [Finset.mem_insert, not_or]
    exact ⟨hne, fun hm => Dag.irrefl (Finset.mem_filter.mp hm).2⟩
  rcases hend with rfl | hmax
  · have hsub : insert i (insert j P) ⊆ Finset.range vars.length := by
      intro p hp
      rcases Finset.mem_insert.mp hp with rfl | hp
      · exact Finset.mem_range.mpr (hlt hr)
      · rcases Finset.mem_insert.mp hp with rfl | hp
        · exact Finset.mem_range.mpr (hlt (hk.wf.symm hr))
        · exact (Finset.mem_filter.mp hp).1
    have hle := Finset.card_le_card hsub
    rw [Finset.card_insert_of_notMem hiP, Finset.card_insert_of_notMem hjP, Finset.card_range] at hle
    omega
  · have hsub : insert j P ⊆ skel.adj.nbrs i := by
      intro p hp
      rcases Finset.mem_insert.mp hp with rfl | hp
      · exact hk.wf.mem_nbrs.mpr hr
      · exact hk.wf.mem_nbrs.mpr (hk.keeps i p (Or.inr (Finset.mem_filter.mp hp).2))
    have hle := Finset.card_le_card hsub
    rw [Finset.card_insert_of_notMem hjP] at hle
    have := hk.wf.le_maxExcessDegree (k := P.card) (hk.wf.lt hr) (by omega)
    omega

/-! ## The complete graph -/

/-- While the pairs of `rest` are to come, the others are joined. -/
structure StartInv (vars : List Nat) (rest : List (Nat × Nat)) (adj : UndirectedAdj) : Prop where
  wf : adj.Wf
  ids : adj.ids = vars
  edges : ∀ e ∈ rest, ∃ i j : Nat, vars[i]? = some e.1 ∧ vars[j]? = some e.2 ∧ i ≠ j
  joined : ∀ i j x y, vars[i]? = some x → vars[j]? = some y → i ≠ j → (x, y) ∉ rest →
    (y, x) ∉ rest → adj.rows i j = true

theorem startInv_foldl (hforb : ∀ a b, input.constraints.staticForbidden a b = false) :
    ∀ (rest : List (Nat × Nat)) (adj : UndirectedAdj), StartInv vars rest adj →
    StartInv vars [] (rest.foldl (fun adj p =>
      if input.constraints.staticForbidden p.1 p.2 then adj else adj.insert (edgeKey p.1 p.2)) adj)
  | [], _, h => h
  | e :: rest, adj, h => by
    rw [List.foldl_cons, hforb, if_neg Bool.false_ne_true]
    refine startInv_foldl hforb rest _ ?_
    obtain ⟨i, j, hi, hj, hne⟩ := h.edges e (.head _)
    have hv : vars.Nodup := h.ids ▸ h.wf.nodup
    have hs := h.wf.insert_spec (h.ids.symm ▸ hi) (h.ids.symm ▸ hj) hne
    refine ⟨hs.wf, hs.ids.trans h.ids, fun e' he' => h.edges e' (.tail _ he'),
      fun a b x y ha hb hab h1 h2 => ?_⟩
    by_cases hij : a = i ∧ b = j
    · rw [hij.1, hij.2, hs.left]
    · by_cases hji : a = j ∧ b = i
      · rw [hji.1, hji.2, hs.right]
      · rw [hs.same a b hij hji]
        refine h.joined a b x y ha hb hab (fun hm => ?_) fun hm => ?_
        · refine (List.mem_cons.mp hm).elim (fun he => hij ?_) h1
          subst he
          exact ⟨pos_inj hv ha hi, pos_inj hv hb hj⟩
        · refine (List.mem_cons.mp hm).elim (fun he => hji ?_) h2
          subst he
          exact ⟨pos_inj hv ha hj, pos_inj hv hb hi⟩

theorem OracleInput.start_inv (h : OracleInput G input) :
    SkelInv G input.vars (startSkeleton input.constraints input.vars) := by
  have hstart : StartInv input.vars (pairsOf input.vars) (.fromVariables input.vars) := by
    refine ⟨UndirectedAdj.wf_fromVariables h.nodup, rfl, fun e he => ?_,
      fun i j x y hi hj hne h1 h2 => ?_⟩
    · obtain ⟨h1, h2⟩ := mem_of_mem_pairsOf (a := e.1) (b := e.2) he
      obtain ⟨i, hi⟩ := List.mem_iff_getElem?.mp h1
      obtain ⟨j, hj⟩ := List.mem_iff_getElem?.mp h2
      refine ⟨i, j, hi, hj, ?_⟩
      rintro rfl
      exact mem_pairsOf_ne h.nodup he (Option.some.inj (hi.symm.trans hj))
    · have hxy : x ≠ y := by
        rintro rfl
        exact hne (pos_inj h.nodup hi hj)
      exact absurd ((mem_pairsOf hxy).mpr ⟨List.mem_of_getElem? hi, List.mem_of_getElem? hj⟩)
        (not_or.mpr ⟨h1, h2⟩)
  have hend := startInv_foldl h.forbidden _ _ hstart
  have hall : ∀ i j x y, input.vars[i]? = some x → input.vars[j]? = some y → i ≠ j →
      (startSkeleton input.constraints input.vars).adj.rows i j = true := fun i j x y hi hj hne =>
    hend.joined i j x y hi hj hne List.not_mem_nil List.not_mem_nil
  refine ⟨hend.wf, hend.ids, fun i j hadj => ?_, fun i j x y hi hj hne hr => ?_,
    fun _ _ hm => absurd hm List.not_mem_nil, rfl⟩
  · have hlt : i < input.vars.length ∧ j < input.vars.length :=
      hadj.elim (h.nodes i j) fun he => (h.nodes j i he).symm
    obtain ⟨x, hx⟩ := exists_getElem? hlt.1
    obtain ⟨y, hy⟩ := exists_getElem? hlt.2
    exact hall i j x y hx hy hadj.ne
  · rw [hall i j x y hi hj hne] at hr
    exact absurd hr.symm Bool.false_ne_true

/-- **With an oracle and room for every conditioning set, the search leaves exactly the edges of the
DAG.** -/
theorem runStaticSkeleton_exact (h : OracleInput G input)
    (hcond : input.vars.length ≤ input.constraints.maxCondSize + 2)
    (hlimit : input.constraints.maxParents = none) :
    ∃ skel, runStaticSkeleton input = .ok skel ∧ SkelInv G input.vars skel ∧
      ∀ i j, skel.adj.rows i j = true ↔ G.Adj i j := by
  obtain ⟨skel, hok, hk, D, hD, hend⟩ := h.depthLoop_spec input.constraints.maxCondSize 0
    _ h.start_inv (fun d hd => absurd hd (Nat.not_lt_zero d))
  refine ⟨skel, ?_, hk, fun i j => ⟨fun hr => by_contra fun hadj => ?_, hk.keeps i j⟩⟩
  · unfold runStaticSkeleton
    rw [hok]
    simp only [bind, Except.bind, enforceParentLimit, hlimit]
  · rw [Nat.zero_add] at hend
    rcases Dag.exists_separator (hk.wf.irrefl hr) hadj with hs | hs
    · exact hk.not_open h.nodes hcond hD hend hr hs
    · refine hk.not_open h.nodes hcond hD hend (hk.wf.symm hr) ?_
      exact Dag.DSep.symm (fun he => hadj (Or.inl he)) Dag.notMem_parents hs

end Antecedent.Discovery
