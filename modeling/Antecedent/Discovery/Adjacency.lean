import Antecedent.Discovery.Skeleton

/-!
# What the adjacency matrix stores

`UndirectedAdj` read through its positions: `Wf` says the ids are distinct, the rows symmetric and
irreflexive, and the degrees right. `insert` and `remove` keep it and change one pair (`insert_spec`,
`remove_spec`); the accessors by id (`contains`, `sortedEdgePairs`, `sortedNeighbours`) read the rows.
-/

namespace Antecedent.Discovery

open Graph

/-! ## Positions -/

theorem lt_of_lastIdx : ∀ {l : List Nat} {v i : Nat}, lastIdx l v = some i → l[i]? = some v
  | [], _, _, h => by cases h
  | a :: l, v, i, h => by
    unfold lastIdx at h
    cases hl : lastIdx l v with
    | some j =>
      rw [hl] at h
      cases h
      simpa using lt_of_lastIdx hl
    | none =>
      rw [hl] at h
      dsimp only at h
      split_ifs at h with ha
      cases h
      simp [ha]

theorem lastIdx_isSome : ∀ {l : List Nat} {v : Nat}, v ∈ l → (lastIdx l v).isSome = true
  | a :: l, v, h => by
    unfold lastIdx
    cases hl : lastIdx l v with
    | some j => rfl
    | none =>
      rcases List.mem_cons.mp h with rfl | h
      · simp
      · rw [Option.eq_none_iff_forall_ne_some] at hl
        obtain ⟨j, hj⟩ := Option.isSome_iff_exists.mp (lastIdx_isSome h)
        exact absurd hj (hl j)

variable {l : List Nat} {v : Nat} {i : Nat} {e : Nat × Nat}

/-- Of distinct ids each has one position. -/
theorem pos_inj (hl : l.Nodup) {i j : Nat} (hi : l[i]? = some v) (hj : l[j]? = some v) : i = j := by
  obtain ⟨h1, rfl⟩ := List.getElem?_eq_some_iff.mp hi
  obtain ⟨h2, he⟩ := List.getElem?_eq_some_iff.mp hj
  exact ((List.Nodup.getElem_inj_iff hl).mp he).symm

theorem lastIdx_eq_some (hl : l.Nodup) :
    lastIdx l v = some i ↔ l[i]? = some v := by
  refine ⟨lt_of_lastIdx, fun h => ?_⟩
  obtain ⟨j, hj⟩ := Option.isSome_iff_exists.mp (lastIdx_isSome (List.mem_of_getElem? h))
  rw [hj, pos_inj hl h (lt_of_lastIdx hj)]

theorem lt_of_getElem? (h : l[i]? = some v) : i < l.length :=
  (List.getElem?_eq_some_iff.mp h).1

theorem exists_getElem? (h : i < l.length) : ∃ v, l[i]? = some v :=
  ⟨l[i], List.getElem?_eq_getElem h⟩

theorem nodup_upperPairs (k : Nat) : (upperPairs k).Nodup := by
  unfold upperPairs
  refine List.nodup_flatMap.mpr ⟨fun i _ => ?_, ?_⟩
  · exact (List.nodup_range.filter _).map fun _ _ h => (Prod.mk.inj h).2
  · refine List.nodup_range.imp fun {i i'} hne => ?_
    refine List.disjoint_left.mpr ?_
    intro e he he'
    obtain ⟨j, -, rfl⟩ := List.mem_map.mp he
    obtain ⟨j', -, hj'⟩ := List.mem_map.mp he'
    exact hne (Prod.mk.inj hj').1.symm

theorem sortedPair_inj {a b c d : Nat} (h : sortedPair a b = sortedPair c d) :
    (a = c ∧ b = d) ∨ (a = d ∧ b = c) := by
  unfold sortedPair at h
  split_ifs at h <;> cases h <;> simp

theorem mem_sortedEdgePairs {adj : UndirectedAdj} :
    e ∈ sortedEdgePairs adj ↔ e ∈ adj.edgePairs := List.mem_insertionSort _

/-! ## The matrix -/

namespace UndirectedAdj

/-- The positions joined to `i`. -/
def nbrs (adj : UndirectedAdj) (i : Nat) : Finset Nat :=
  (Finset.range adj.ids.length).filter fun j => adj.rows i j = true

/-- Distinct ids, symmetric irreflexive rows of positions in range, and the degrees they have. -/
structure Wf (adj : UndirectedAdj) : Prop where
  nodup : adj.ids.Nodup
  symm : ∀ {i j}, adj.rows i j = true → adj.rows j i = true
  irrefl : ∀ {i j}, adj.rows i j = true → i ≠ j
  lt : ∀ {i j}, adj.rows i j = true → i < adj.ids.length
  degree : ∀ i, adj.degree i = (adj.nbrs i).card

variable {adj : UndirectedAdj} {i j x y : Nat}

theorem wf_fromVariables {vars : List Nat} (h : vars.Nodup) : (fromVariables vars).Wf where
  nodup := h
  symm := fun h => absurd h Bool.false_ne_true
  irrefl := fun h => absurd h Bool.false_ne_true
  lt := fun h => absurd h Bool.false_ne_true
  degree := fun i => by simp [nbrs, fromVariables]

namespace Wf

variable (h : adj.Wf)

include h

theorem comm : adj.rows i j = adj.rows j i := by
  rw [Bool.eq_iff_iff]
  exact ⟨h.symm, h.symm⟩

theorem mem_nbrs : j ∈ adj.nbrs i ↔ adj.rows i j = true := by
  unfold nbrs
  rw [Finset.mem_filter, Finset.mem_range, and_iff_right_iff_imp]
  exact fun hr => h.lt (h.symm hr)

section

variable (hi : adj.ids[i]? = some x) (hj : adj.ids[j]? = some y)

include hi hj

theorem positions_eq (hne : i ≠ j) : adj.positions (x, y) = some (i, j) := by
  unfold positions
  rw [(lastIdx_eq_some h.nodup).mpr hi, (lastIdx_eq_some h.nodup).mpr hj]
  exact if_pos hne

theorem positions_key (hne : i ≠ j) :
    adj.positions (edgeKey x y) = some (i, j) ∨ adj.positions (edgeKey x y) = some (j, i) := by
  unfold edgeKey sortedPair
  split_ifs
  · exact Or.inl (h.positions_eq hi hj hne)
  · exact Or.inr (h.positions_eq hj hi hne.symm)

theorem contains_key : adj.contains (edgeKey x y) = true ↔ adj.rows i j = true := by
  by_cases hne : i = j
  · subst hne
    obtain rfl : x = y := Option.some.inj (hi.symm.trans hj)
    refine iff_of_false (fun hc => ?_) fun hr => h.irrefl hr rfl
    have hpos : adj.positions (edgeKey x x) = none := by
      simp [edgeKey, sortedPair, positions, (lastIdx_eq_some h.nodup).mpr hi]
    rw [contains, hpos] at hc
    exact absurd hc Bool.false_ne_true
  · unfold contains
    rcases h.positions_key hi hj hne with hp | hp
    · rw [hp]
    · rw [hp, h.comm]

end

theorem mem_edgePairs : e ∈ adj.edgePairs ↔ e.1 ≤ e.2 ∧
    ∃ i j, adj.rows i j = true ∧ adj.ids[i]? = some e.1 ∧ adj.ids[j]? = some e.2 := by
  obtain ⟨x, y⟩ := e
  have hget : ∀ {i}, i < adj.ids.length → adj.ids[i]? = some (adj.ids.getD i 0) := by
    intro i hi
    simp [hi]
  simp only [edgePairs, mem_dedupAdjacent, List.mem_insertionSort, List.mem_filterMap, Prod.exists,
    mem_upperPairs, Option.ite_none_right_eq_some, Option.some.injEq]
  constructor
  · rintro ⟨i, j, ⟨hij, hj⟩, hr, hs⟩
    have hi : i < adj.ids.length := hij.trans hj
    unfold sortedPair at hs
    split_ifs at hs with hle
    · cases hs
      exact ⟨hle, i, j, hr, hget hi, hget hj⟩
    · cases hs
      exact ⟨by omega, j, i, h.symm hr, hget hj, hget hi⟩
  · rintro ⟨hle, i, j, hr, hi, hj⟩
    have hDi : adj.ids.getD i 0 = x := by simp [List.getD_eq_getElem?_getD, hi]
    have hDj : adj.ids.getD j 0 = y := by simp [List.getD_eq_getElem?_getD, hj]
    rcases Nat.lt_or_gt_of_ne (h.irrefl hr) with hij | hij
    · refine ⟨i, j, ⟨hij, lt_of_getElem? hj⟩, hr, ?_⟩
      rw [hDi, hDj, sortedPair_of_le hle]
    · refine ⟨j, i, ⟨hij, lt_of_getElem? hi⟩, h.symm hr, ?_⟩
      rw [hDi, hDj, sortedPair_comm, sortedPair_of_le hle]

theorem key_mem_edgePairs (hi : adj.ids[i]? = some x) (hj : adj.ids[j]? = some y)
    (hr : adj.rows i j = true) : edgeKey x y ∈ adj.edgePairs := by
  refine h.mem_edgePairs.mpr ?_
  unfold edgeKey sortedPair
  split_ifs with hle
  · exact ⟨hle, i, j, hr, hi, hj⟩
  · exact ⟨by omega, j, i, h.symm hr, hj, hi⟩

theorem nodup_edgePairs : adj.edgePairs.Nodup := by
  unfold edgePairs
  refine (dedupAdjacent_sublist _).nodup ((List.perm_insertionSort _ _).nodup_iff.mpr ?_)
  refine List.pairwise_filterMap.mpr
    ((nodup_upperPairs _).pairwise_of_forall_ne fun p hp q hq hne e he e' he' => ?_)
  obtain ⟨i, j⟩ := p
  obtain ⟨i', j'⟩ := q
  simp only [mem_upperPairs] at hp hq
  simp only [Option.ite_none_right_eq_some, Option.some.injEq] at he he'
  rintro rfl
  have hinj : ∀ {k k'}, k < adj.ids.length → k' < adj.ids.length →
      adj.ids.getD k 0 = adj.ids.getD k' 0 → k = k' := by
    intro k k' hk hk' he
    refine pos_inj (v := adj.ids.getD k 0) h.nodup (by simp [hk]) ?_
    rw [he]
    simp [hk']
  have hi : i < adj.ids.length := hp.1.trans hp.2
  have hi' : i' < adj.ids.length := hq.1.trans hq.2
  -- one key for two pairs of positions: the pairs agree, or one of them is out of order
  rcases sortedPair_inj (he.2.trans he'.2.symm) with ⟨h1, h2⟩ | ⟨h1, h2⟩
  · exact hne (by rw [hinj hi hi' h1, hinj hp.2 hq.2 h2])
  · have := hinj hi hq.2 h1
    have := hinj hp.2 hi' h2
    omega

theorem mem_adjacentVars (hi : adj.ids[i]? = some x) :
    y ∈ adjacentVars x adj adj.ids ↔ ∃ j, adj.rows i j = true ∧ adj.ids[j]? = some y := by
  simp only [adjacentVars, List.mem_filter, Bool.and_eq_true, bne_iff_ne, ne_eq]
  constructor
  · rintro ⟨hy, -, hc⟩
    obtain ⟨j, hj⟩ := List.mem_iff_getElem?.mp hy
    exact ⟨j, (h.contains_key hi hj).mp hc, hj⟩
  · rintro ⟨j, hr, hj⟩
    refine ⟨List.mem_of_getElem? hj, fun he => ?_, (h.contains_key hi hj).mpr hr⟩
    exact h.irrefl hr (pos_inj h.nodup hi (he ▸ hj))

variable {other : Nat}

theorem mem_sortedNeighbours {u : Nat} (hi : adj.ids[i]? = some x) :
    u ∈ sortedNeighbours x other adj adj.ids ↔
      u ≠ other ∧ ∃ j, adj.rows i j = true ∧ adj.ids[j]? = some u := by
  simp only [sortedNeighbours, List.mem_insertionSort, List.mem_filter, h.mem_adjacentVars hi,
    bne_iff_ne, ne_eq]
  exact and_comm

theorem nodup_sortedNeighbours : (sortedNeighbours x other adj adj.ids).Nodup :=
  (List.perm_insertionSort _ _).nodup_iff.mpr ((h.nodup.filter _).filter _)

end Wf

/-! ## Setting and clearing an edge -/

/-- `adj'` is `adj` with the pair of positions `i` and `j` joined or not. -/
structure SetsPair (adj adj' : UndirectedAdj) (i j : Nat) (v : Bool) : Prop where
  wf : adj'.Wf
  ids : adj'.ids = adj.ids
  same : ∀ a b, ¬ (a = i ∧ b = j) → ¬ (a = j ∧ b = i) → adj'.rows a b = adj.rows a b
  left : adj'.rows i j = v
  right : adj'.rows j i = v

theorem setBit_twice (rows : Nat → Nat → Bool) (i j a b : Nat) (v : Bool) :
    setBit (setBit rows i j v) j i v a b =
      if (a = i ∧ b = j) ∨ (a = j ∧ b = i) then v else rows a b := by
  unfold setBit
  by_cases h1 : a = j ∧ b = i <;> by_cases h2 : a = i ∧ b = j <;> simp [h1, h2]

theorem nbrs_insert (hi : i < adj.ids.length) (hj : j < adj.ids.length) (hne : i ≠ j) (a : Nat) :
    (Finset.range adj.ids.length).filter
        (fun b => setBit (setBit adj.rows i j true) j i true a b = true) =
      if a = i then Insert.insert j (adj.nbrs i)
      else if a = j then Insert.insert i (adj.nbrs j)
      else adj.nbrs a := by
  ext b
  simp only [setBit_twice, Finset.mem_filter, Finset.mem_range, nbrs]
  split_ifs with h1 h2 h2 h2 <;> simp only [Finset.mem_insert, Finset.mem_filter, Finset.mem_range]
  all_goals grind

theorem nbrs_remove (hne : i ≠ j) (a : Nat) :
    (Finset.range adj.ids.length).filter
        (fun b => setBit (setBit adj.rows i j false) j i false a b = true) =
      if a = i then (adj.nbrs i).erase j else if a = j then (adj.nbrs j).erase i
      else adj.nbrs a := by
  ext b
  simp only [setBit_twice, Finset.mem_filter, Finset.mem_range, nbrs]
  split_ifs with h1 h2 h2 h2 <;> simp only [Finset.mem_erase, Finset.mem_filter, Finset.mem_range]
  all_goals grind

theorem SetsPair.swap {adj' : UndirectedAdj} {v : Bool} (hs : SetsPair adj adj' j i v) :
    SetsPair adj adj' i j v :=
  ⟨hs.wf, hs.ids, fun a b h1 h2 => hs.same a b h2 h1, hs.right, hs.left⟩

namespace Wf

variable (h : adj.Wf)

include h

variable {edge : Nat × Nat}

theorem insert_at (hp : adj.positions edge = some (i, j))
    (hi : i < adj.ids.length) (hj : j < adj.ids.length) (hne : i ≠ j) :
    SetsPair adj (adj.insert edge) i j true := by
  unfold UndirectedAdj.insert
  rw [hp]
  dsimp only
  split_ifs with hr
  · exact ⟨h, rfl, fun _ _ _ _ => rfl, hr, h.symm hr⟩
  · have hr' : ¬ adj.rows j i = true := fun hc => hr (h.symm hc)
    refine ⟨⟨h.nodup, fun {a b} => ?_, fun {a b} => ?_, fun {a b} => ?_, fun a => ?_⟩, rfl,
      fun a b h1 h2 => ?_, ?_, ?_⟩
    · simp only [setBit_twice]
      have := @h.symm a b
      grind
    · simp only [setBit_twice]
      have := @h.irrefl a b
      grind
    · simp only [setBit_twice]
      have := @h.lt a b
      grind
    · have hni : j ∉ adj.nbrs i := fun hc => hr (h.mem_nbrs.mp hc)
      have hnj : i ∉ adj.nbrs j := fun hc => hr' (h.mem_nbrs.mp hc)
      dsimp only [nbrs]
      rw [nbrs_insert hi hj hne, h.degree]
      split_ifs with h1 h2 h2
      · exact absurd (h1.symm.trans h2) hne
      · rw [Finset.card_insert_of_notMem hni, h1]
      · rw [Finset.card_insert_of_notMem hnj, h2]
      · rfl
    · exact (setBit_twice ..).trans (if_neg (not_or.mpr ⟨h1, h2⟩))
    · simp [setBit_twice]
    · simp [setBit_twice]

theorem remove_at (hp : adj.positions edge = some (i, j)) (hne : i ≠ j) :
    SetsPair adj (adj.remove edge) i j false := by
  unfold UndirectedAdj.remove
  rw [hp]
  dsimp only
  split_ifs with hr
  · refine ⟨⟨h.nodup, fun {a b} => ?_, fun {a b} => ?_, fun {a b} => ?_, fun a => ?_⟩, rfl,
      fun a b h1 h2 => ?_, ?_, ?_⟩
    · simp only [setBit_twice]
      have := @h.symm a b
      grind
    · simp only [setBit_twice]
      have := @h.irrefl a b
      grind
    · simp only [setBit_twice]
      have := @h.lt a b
      grind
    · dsimp only [nbrs]
      rw [nbrs_remove hne, h.degree]
      split_ifs with h1 h2 h2
      · exact absurd (h1.symm.trans h2) hne
      · rw [Finset.card_erase_of_mem (h.mem_nbrs.mpr hr), h1, Nat.sub_zero]
      · rw [Finset.card_erase_of_mem (h.mem_nbrs.mpr (h.symm hr)), h2, Nat.sub_zero]
      · rfl
    · exact (setBit_twice ..).trans (if_neg (not_or.mpr ⟨h1, h2⟩))
    · simp [setBit_twice]
    · simp [setBit_twice]
  · rw [Bool.not_eq_true] at hr
    exact ⟨h, rfl, fun _ _ _ _ => rfl, hr, h.comm ▸ hr⟩

section

variable (hi : adj.ids[i]? = some x) (hj : adj.ids[j]? = some y) (hne : i ≠ j)

include hi hj hne

/-- `insert` joins the positions of the two ids. -/
theorem insert_spec : SetsPair adj (adj.insert (edgeKey x y)) i j true := by
  rcases h.positions_key hi hj hne with hp | hp
  · exact h.insert_at hp (lt_of_getElem? hi) (lt_of_getElem? hj) hne
  · exact (h.insert_at hp (lt_of_getElem? hj) (lt_of_getElem? hi) hne.symm).swap

/-- `remove` parts the positions of the two ids. -/
theorem remove_spec : SetsPair adj (adj.remove (edgeKey x y)) i j false := by
  rcases h.positions_key hi hj hne with hp | hp
  · exact h.remove_at hp hne
  · exact (h.remove_at hp hne.symm).swap

end

omit h in
theorem le_foldl_max {k : Nat} : ∀ {l : List Nat} {m : Nat}, k ≤ m ∨ k ∈ l → k ≤ l.foldl max m
  | [], m, hk => hk.resolve_right List.not_mem_nil
  | a :: l, m, hk => by
    rw [List.foldl_cons]
    refine le_foldl_max ?_
    rcases hk with hk | hk
    · exact Or.inl (hk.trans (le_max_left m a))
    · rcases List.mem_cons.mp hk with rfl | hk
      · exact Or.inl (le_max_right m _)
      · exact Or.inr hk

/-- A position with more than `k` neighbours has an excess degree of at least `k`. -/
theorem le_maxExcessDegree {k : Nat} (hi : i < adj.ids.length) (hk : k < (adj.nbrs i).card) :
    k ≤ maxExcessDegree adj := by
  have hmem : adj.degree i ∈ (List.range adj.ids.length).map adj.degree :=
    List.mem_map_of_mem (List.mem_range.mpr hi)
  have hle := le_foldl_max (m := 0) (Or.inr hmem)
  rw [h.degree] at hle
  unfold maxExcessDegree
  omega

end Wf

end UndirectedAdj

end Antecedent.Discovery
