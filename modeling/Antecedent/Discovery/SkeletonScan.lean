import Antecedent.Discovery.Adjacency

/-!
# The scan of one edge

`scan_edge` under a test that decides a predicate of the conditioning set (`Decides`): it succeeds, it
yields a candidate that the predicate accepts if there is one, and it yields nothing else
(`scanEdge_spec`). How the candidates are cut into chunks, and which chunks are evaluated as a batch,
does not matter.
-/

namespace Antecedent.Discovery

variable {input : StaticSkeletonInput} {x y : Nat} {key : Nat × Nat} {P : List Nat → Prop}
  {zs : List (List Nat)}

/-- The test of `x` and `y` given `z` runs, and accepts iff `P z`. -/
def Decides (input : StaticSkeletonInput) (x y : Nat) (P : List Nat → Prop) (z : List Nat) : Prop :=
  ∃ s p, staticCiTest input x y z = .ok (s, p) ∧ (p > input.constraints.alpha ↔ P z)

/-- What tests leave alone. -/
structure Untouched (k k' : StaticSkeleton) : Prop where
  adj : k'.adj = k.adj
  sepsets : k'.sepsets = k.sepsets
  removed : k'.parentLimitRemoved = k.parentLimitRemoved

theorem Untouched.refl (k : StaticSkeleton) : Untouched k k := ⟨rfl, rfl, rfl⟩

theorem Untouched.trans {k k' k'' : StaticSkeleton} (h : Untouched k k') (h' : Untouched k' k'') :
    Untouched k k'' :=
  ⟨h'.adj.trans h.adj, h'.sepsets.trans h.sepsets, h'.removed.trans h.removed⟩

theorem untouched_count (s : Scan) (key : Nat × Nat) (p : ℚ) : Untouched s.skel (s.count key p).skel :=
  ⟨rfl, rfl, rfl⟩

@[simp] theorem skel_weaken (s : Scan) (stat p : ℚ) : (s.weaken stat p).skel = s.skel := by
  unfold Scan.weaken
  split
  · split_ifs <;> rfl
  · rfl

/-! ## Batches -/

theorem mapM_getElem? {α β : Type} {f : α → Option β} : ∀ {l : List α} {out : List β} {m : Nat}
    {a : α} {b : β}, l.mapM f = some out → l[m]? = some a → out[m]? = some b → f a = some b
  | c :: l, out, m, a, b, h, ha, hb => by
    rw [List.mapM_cons] at h
    obtain ⟨d, hd, h⟩ := Option.bind_eq_some_iff.mp h
    obtain ⟨rest, hrest, h⟩ := Option.bind_eq_some_iff.mp h
    cases h
    cases m with
    | zero =>
      cases ha
      cases hb
      exact hd
    | succ m => exact mapM_getElem? hrest (by simpa using ha) (by simpa using hb)

theorem mapM_column {what : String} : ∀ {z zi : List Nat}, z.mapM input.varIndex = some zi →
    z.mapM (input.column what) = .ok zi
  | [], zi, h => by
    cases h
    rfl
  | v :: z, zi, h => by
    rw [List.mapM_cons] at h
    obtain ⟨i, hi, h⟩ := Option.bind_eq_some_iff.mp h
    obtain ⟨rest, hrest, h⟩ := Option.bind_eq_some_iff.mp h
    cases h
    have hv : input.column what v = .ok i := by
      unfold StaticSkeletonInput.column
      rw [hi]
    rw [List.mapM_cons, hv, mapM_column hrest]
    rfl

theorem finite_of_batch {results : List CiResult} {m : Nat} {z : List Nat}
    {r : CiResult} (h : staticCiBatch input x y zs = some results) (hz : zs[m]? = some z)
    (hr : results[m]? = some r) : r.finite = staticCiTest input x y z := by
  unfold staticCiBatch at h
  split_ifs at h
  obtain ⟨xi, hxi, h⟩ := Option.bind_eq_some_iff.mp h
  obtain ⟨yi, hyi, h⟩ := Option.bind_eq_some_iff.mp h
  obtain ⟨zi, hzi, hr⟩ := Option.bind_eq_some_iff.mp (mapM_getElem? (f := fun z => (z.mapM input.varIndex).bind
    fun zi => (input.ci xi yi zi).toOption) h hz hr)
  have hx : input.column "x" x = .ok xi := by
    unfold StaticSkeletonInput.column
    rw [hxi]
  have hy : input.column "y" y = .ok yi := by
    unfold StaticSkeletonInput.column
    rw [hyi]
  cases hci : input.ci xi yi zi with
  | error e =>
    rw [hci] at hr
    cases hr
  | ok r' =>
    rw [hci] at hr
    cases hr
    simp only [staticCiTest, hx, hy, mapM_column hzi, hci, bind, Except.bind]

/-! ## Chunks -/

/-- What a scan of `zs` found: a candidate that `P` accepts, or that there is none. -/
structure Scanned (P : List Nat → Prop) (zs : List (List Nat)) (s : Scan)
    (r : Option (List Nat) × Scan) : Prop where
  found : ∀ z, r.1 = some z → z ∈ zs ∧ P z
  none : r.1 = .none → ∀ z ∈ zs, ¬ P z
  untouched : Untouched s.skel r.2.skel

theorem scanChunk_spec {batch : Option (List CiResult)} : ∀ (zs : List (List Nat)) (k : Nat)
    (s : Scan), (∀ z ∈ zs, Decides input x y P z) →
    (∀ m z results r, zs[m]? = some z → batch = some results → results[k + m]? = some r →
      r.finite = staticCiTest input x y z) →
    ∃ r, scanChunk input x y key batch k zs s = .ok r ∧ Scanned P zs s r
  | [], k, s, _, _ => ⟨(none, s), rfl, ⟨fun _ h => absurd h (by simp),
      fun _ z hz => absurd hz List.not_mem_nil, .refl _⟩⟩
  | z :: zs, k, s, hd, hb => by
    obtain ⟨stat, p, htest, hp⟩ := hd z (.head _)
    have hread : candidateTest input x y batch k z = .ok (stat, p) := by
      unfold candidateTest
      cases hbatch : batch with
      | none => exact htest
      | some results =>
        cases hk : results[k]? with
        | none => simpa [hk] using htest
        | some r =>
          simp only [hk]
          rw [hb 0 z results r rfl hbatch (by simpa using hk), htest]
    unfold scanChunk
    by_cases hgt : p > input.constraints.alpha
    · refine ⟨(some z, s.count key p), ?_, ⟨?_, fun h => absurd h (by simp), untouched_count ..⟩⟩
      · simp only [hread, bind, Except.bind, if_pos hgt]
        rfl
      · rintro _ ⟨⟩
        exact ⟨.head _, hp.mp hgt⟩
    · obtain ⟨r, hok, hr⟩ := scanChunk_spec zs (k + 1)
        ((s.count key p).weaken stat p) (fun z hz => hd z (.tail _ hz)) (by
          intro m w results r hw hbatch hr
          exact hb (m + 1) w results r (by simpa using hw) hbatch
            (by rw [show k + (m + 1) = k + 1 + m by omega]; exact hr))
      refine ⟨r, ?_, ⟨fun w hw => ?_, fun hnone => ?_, ?_⟩⟩
      · simp only [hread, bind, Except.bind, if_neg hgt]
        exact hok
      · obtain ⟨hmem, hPw⟩ := hr.found w hw
        exact ⟨.tail _ hmem, hPw⟩
      · refine List.forall_mem_cons.mpr ⟨fun hPz => hgt (hp.mpr hPz), hr.none hnone⟩
      · refine (untouched_count s key p).trans ?_
        simpa using hr.untouched

theorem scanChunk_batch (key : Nat × Nat) (s : Scan)
    (hd : ∀ z ∈ zs, Decides input x y P z) :
    ∃ r, scanChunk input x y key (staticCiBatch input x y zs) 0 zs s = .ok r ∧ Scanned P zs s r :=
  scanChunk_spec zs 0 s hd fun m z results r hz hbatch hr =>
    finite_of_batch hbatch hz (by simpa using hr)

theorem next_pos_advance {s : ChunkSchedule} (h : 0 < s.next) (hc : 0 < s.cap) :
    0 < s.advance.next ∧ s.advance.cap = s.cap := by
  refine ⟨?_, rfl⟩
  unfold ChunkSchedule.advance minQueriesPerThread
  dsimp only
  split_ifs
  · exact Nat.one_pos
  · omega
  · exact lt_min (by omega) hc

theorem scanChunks_spec : ∀ (fuel : Nat) (schedule : ChunkSchedule) (cands : List (List Nat))
    (s : Scan), cands.length < fuel → 0 < schedule.next → 0 < schedule.cap →
    (∀ z ∈ cands, Decides input x y P z) →
    ∃ r, scanChunks input x y key fuel schedule cands s = .ok r ∧ Scanned P cands s r
  | fuel + 1, schedule, cands, s, hf, hn, hc, hd => by
    unfold scanChunks
    by_cases hnil : cands = []
    · subst hnil
      exact ⟨(none, s), by simp; rfl, ⟨fun _ h => absurd h (by simp),
        fun _ z hz => absurd hz List.not_mem_nil, .refl _⟩⟩
    · have hchunk : (cands.take schedule.next).isEmpty = false := by
        simp [hnil, Nat.pos_iff_ne_zero.mp hn]
      have hlen := List.length_pos_iff.mpr hnil
      have htake : ∀ z ∈ cands.take schedule.next, Decides input x y P z := fun z hz =>
        hd z (List.mem_of_mem_take hz)
      obtain ⟨⟨found, s'⟩, hok, hr⟩ := scanChunk_batch key s htake
      cases found with
      | some z =>
        refine ⟨(some z, s'), ?_, ⟨fun w hw => ?_, fun h => absurd h (by simp), hr.untouched⟩⟩
        · simp only [hchunk, Bool.false_eq_true, if_false, hok, bind, Except.bind]
          rfl
        · obtain ⟨hmem, hPw⟩ := hr.found w hw
          exact ⟨List.mem_of_mem_take hmem, hPw⟩
      | none =>
        obtain ⟨next_pos, cap_eq⟩ := next_pos_advance hn hc
        obtain ⟨r, hok', hr'⟩ := scanChunks_spec fuel schedule.advance
          (cands.drop schedule.next) s' (by rw [List.length_drop]; omega)
          next_pos (cap_eq ▸ hc) (fun z hz => hd z (List.mem_of_mem_drop hz))
        refine ⟨r, ?_, ⟨fun w hw => ?_, fun hnone z hz => ?_, hr.untouched.trans hr'.untouched⟩⟩
        · simp only [hchunk, Bool.false_eq_true, if_false, hok, bind, Except.bind]
          exact hok'
        · obtain ⟨hmem, hPw⟩ := hr'.found w hw
          exact ⟨List.mem_of_mem_drop hmem, hPw⟩
        · rw [← List.take_append_drop schedule.next cands] at hz
          rcases List.mem_append.mp hz with hz | hz
          · exact hr.none rfl z hz
          · exact hr'.none hnone z hz

theorem mem_candidates {nx ny z : List Nat} {depth : Nat} :
    z ∈ sortedUnion (combinations nx depth) (combinations ny depth) ↔
      (z.Sublist nx ∨ z.Sublist ny) ∧ z.length = depth := by
  rw [mem_sortedUnion, mem_combinations, mem_combinations]
  tauto

/-- **The scan finds a candidate the predicate accepts iff there is one.** -/
theorem scanEdge_spec (depth tests : Nat) (skel : StaticSkeleton)
    (hd : ∀ z, z.Sublist (sortedNeighbours x y skel.adj input.vars) ∨
      z.Sublist (sortedNeighbours y x skel.adj input.vars) → Decides input x y P z) :
    ∃ r, scanEdge input x y depth skel tests = .ok r ∧ Scanned P (sortedUnion
      (combinations (sortedNeighbours x y skel.adj input.vars) depth)
      (combinations (sortedNeighbours y x skel.adj input.vars) depth)) ⟨skel, tests, none⟩ r := by
  unfold scanEdge
  refine scanChunks_spec _ _ _ _ (Nat.lt_succ_self _) Nat.one_pos ?_ fun z hz =>
    hd z (mem_candidates.mp hz).1
  unfold ChunkSchedule.new
  dsimp only
  split_ifs
  · exact Nat.one_pos
  · omega

end Antecedent.Discovery
