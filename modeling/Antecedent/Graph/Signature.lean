import Antecedent.Core.Search
import Antecedent.Graph.Mag

/-!
# The m-separation signature of a MAG

Model of `m_separation_signature` (`completion.rs:643-700`): one answer for every pair of nodes under
every subset of the others, each charged to the budget before it is asked. The subsets come from a
counter that `increment` advances.

* `sameModel_of_answers`: graphs with the same answers have the same m-separations.
-/

namespace Antecedent.Graph

open Core
open Mixed

/-! ## The code -/

/-- `increment` (`completion.rs:690-700`): the next subset in counting order, bit `0` first. -/
def increment : List Bool → Option (List Bool)
  | [] => none
  | true :: bits => (increment bits).map (false :: ·)
  | false :: bits => some (true :: bits)

/-- The subsets from `bits` on; the fuel bounds how many follow. -/
def countFrom : Nat → List Bool → List (List Bool)
  | 0, bits => [bits]
  | fuel + 1, bits =>
    match increment bits with
    | none => [bits]
    | some next => bits :: countFrom fuel next

/-- The members of `others` at the bits set. -/
def pick (others : List Nat) (bits : List Bool) : List Nat :=
  (others.zip bits).filterMap fun p => if p.2 then some p.1 else none

/-- The queries of a signature, in order (`completion.rs:651-685`): every pair under every subset of
the other nodes. -/
def signatureOrder (n : Nat) : List (Nat × Nat × List Nat) :=
  (upperPairs n).flatMap fun (i, j) =>
    let others := (List.range n).filter fun k => k != i && k != j
    (countFrom (2 ^ others.length) (List.replicate others.length false)).map fun bits =>
      (i, j, pick others bits)

/-- The loop of `m_separation_signature`: a charge before each query. -/
def signatureLoop (admg : Admg) (depth bytes : Nat) : List (Nat × Nat × List Nat) → SearchBudget →
    Except GraphError (Except SearchStop (List Bool) × SearchBudget)
  | [], budget => .ok (.ok [], budget)
  | (i, j, z) :: queries, budget =>
    match budget.charge depth bytes with
    | (budget, some stop) => .ok (.error stop, budget)
    | (budget, none) => do
      let answer ← admg.isMSeparated i j z
      let (rest, budget) ← signatureLoop admg depth bytes queries budget
      return (rest.map (answer :: ·), budget)

/-- `m_separation_signature` (`completion.rs:643-688`), charging `depth` and `bytes`. -/
def mSeparationSignature (g : Pag) (depth bytes : Nat) (budget : SearchBudget) :
    Except GraphError (Except SearchStop (List Bool) × SearchBudget) := do
  let admg ← asAdmg g
  signatureLoop admg depth bytes (signatureOrder g.nodeCount) budget

/-! ## Signatures -/

section Signatures

/-- The number a counter stands for, bit `0` first. -/
def countValue : List Bool → Nat
  | [] => 0
  | b :: bits => b.toNat + 2 * countValue bits

theorem countValue_lt : ∀ bits : List Bool, countValue bits < 2 ^ bits.length
  | [] => Nat.one_pos
  | b :: bits => by
    have ih := countValue_lt bits
    have hb := Bool.toNat_le b
    rw [List.length_cons, Nat.pow_succ, countValue]
    omega

theorem countValue_inj : ∀ {bits bits' : List Bool}, bits.length = bits'.length →
    countValue bits = countValue bits' → bits = bits'
  | [], [], _, _ => rfl
  | b :: bits, b' :: bits', hl, hv => by
    unfold countValue at hv
    have hb : b = b' := by
      cases b <;> cases b' <;> simp at hv <;> first | rfl | omega
    subst hb
    rw [countValue_inj (Nat.succ.inj hl) (by omega)]

theorem countValue_replicate_false : ∀ n : Nat, countValue (List.replicate n false) = 0
  | 0 => rfl
  | n + 1 => by
    rw [List.replicate_succ, countValue, countValue_replicate_false n]
    rfl

/-- **Advancing a counter adds one**, and fails at the last subset only. -/
theorem increment_spec : ∀ bits : List Bool,
    (increment bits = none → countValue bits + 1 = 2 ^ bits.length) ∧
      ∀ next, increment bits = some next →
        next.length = bits.length ∧ countValue next = countValue bits + 1
  | [] => ⟨fun _ => rfl, fun _ h => absurd h (by simp [increment])⟩
  | false :: bits => by
    refine ⟨fun h => absurd h (by simp [increment]), fun next h => ?_⟩
    obtain rfl := Option.some.inj h
    exact ⟨rfl, by simp [countValue]; omega⟩
  | true :: bits => by
    obtain ⟨ih1, ih2⟩ := increment_spec bits
    unfold increment
    constructor
    · intro h
      have := ih1 (Option.map_eq_none_iff.mp h)
      rw [List.length_cons, Nat.pow_succ, countValue, Bool.toNat_true]
      omega
    · intro next h
      obtain ⟨rest, hr, rfl⟩ := Option.map_eq_some_iff.mp h
      obtain ⟨h1, h2⟩ := ih2 rest hr
      refine ⟨by simp [h1], ?_⟩
      simp [countValue, h2]
      omega

theorem mem_countFrom : ∀ (fuel : Nat) {bits bits' : List Bool}, bits'.length = bits.length →
    countValue bits ≤ countValue bits' → countValue bits' ≤ countValue bits + fuel →
    bits' ∈ countFrom fuel bits
  | 0, bits, bits', hl, h1, h2 => by
    rw [countValue_inj hl (by omega)]
    exact List.mem_singleton_self bits
  | fuel + 1, bits, bits', hl, h1, h2 => by
    obtain ⟨h3, h4⟩ := increment_spec bits
    unfold countFrom
    cases hi : increment bits with
    | none =>
      have := countValue_lt bits'
      rw [hl, ← h3 hi] at this
      rw [countValue_inj hl (by omega)]
      exact List.mem_singleton_self bits
    | some next =>
      obtain ⟨h5, h6⟩ := h4 next hi
      by_cases he : countValue bits' = countValue bits
      · rw [countValue_inj hl he]
        exact List.mem_cons_self
      · exact List.mem_cons_of_mem _ (mem_countFrom fuel (hl.trans h5.symm) (by omega) (by omega))

theorem pick_sub : ∀ {others : List Nat} {bits : List Bool} {v : Nat}, v ∈ pick others bits →
    v ∈ others := by
  intro others bits v hv
  obtain ⟨p, hp, he⟩ := List.mem_filterMap.mp hv
  split_ifs at he
  obtain rfl := Option.some.inj he
  exact (List.of_mem_zip hp).1

theorem pick_filter (P : Nat → Bool) : ∀ others : List Nat,
    pick others (others.map P) = others.filter P
  | [] => rfl
  | v :: others => by
    have ih := pick_filter P others
    unfold pick at ih ⊢
    rw [List.map_cons, List.zip_cons_cons, List.filterMap_cons, List.filter_cons]
    cases P v <;> simp [ih]

theorem query_of_mem_signatureOrder {n : Nat} {q : Nat × Nat × List Nat}
    (h : q ∈ signatureOrder n) : Query n q.1 q.2.1 q.2.2 := by
  obtain ⟨⟨i, j⟩, hp, hq⟩ := List.mem_flatMap.mp h
  obtain ⟨bits, -, rfl⟩ := List.mem_map.mp hq
  obtain ⟨hij, hj⟩ := mem_upperPairs.mp hp
  refine nodeQuery (by simp only; omega) hj (Nat.ne_of_lt hij) fun v hv => ?_
  obtain ⟨h1, h2⟩ := List.mem_filter.mp (pick_sub hv)
  simpa [List.mem_range.mp h1] using h2

/-- Every pair is asked under every set of other nodes. -/
theorem mem_signatureOrder {n i j : Nat} (hij : i < j) (hj : j < n) (P : Nat → Bool) :
    (i, j, ((List.range n).filter fun k => k != i && k != j).filter P) ∈ signatureOrder n := by
  refine List.mem_flatMap.mpr ⟨(i, j), mem_upperPairs.mpr ⟨hij, hj⟩, ?_⟩
  refine List.mem_map.mpr ⟨((List.range n).filter fun k => k != i && k != j).map P, ?_, ?_⟩
  · refine mem_countFrom _ (by simp) ?_ ?_
    · rw [countValue_replicate_false]
      exact Nat.zero_le _
    · have := countValue_lt (((List.range n).filter fun k => k != i && k != j).map P)
      rw [List.length_map] at this
      omega
  · rw [pick_filter]

open Classical in
noncomputable def answers (G : MixedGraph Nat) (n : Nat) : List Bool :=
  (signatureOrder n).map fun q => decide (¬ G.MConnecting {v | v ∈ q.2.2} q.1 q.2.1)

/-- The same m-separations between the nodes below `n`. -/
def SameModel (n : Nat) (G G' : MixedGraph Nat) : Prop :=
  ∀ x y, x < n → y < n → x ≠ y → ∀ Z ⊆ {v | v < n}, x ∉ Z → y ∉ Z →
    (G.MConnecting Z x y ↔ G'.MConnecting Z x y)

/-- **Graphs with one signature have the same model.** -/
theorem sameModel_of_answers {n : Nat} {G G' : MixedGraph Nat} (hG : G.Acyclic) (hG' : G'.Acyclic)
    (h : answers G n = answers G' n) : SameModel n G G' := by
  classical
  have key : ∀ x y, x < y → y < n → ∀ Z ⊆ {v | v < n}, x ∉ Z → y ∉ Z →
      (G.MConnecting Z x y ↔ G'.MConnecting Z x y) := by
    intro x y hxy hy Z hZ hx hyZ
    have hmem := mem_signatureOrder hxy hy fun v => decide (v ∈ Z)
    have hq := List.map_inj_left.mp h _ hmem
    have hset : {v | v ∈ ((List.range n).filter fun k => k != x && k != y).filter
        fun v => decide (v ∈ Z)} = Z := by
      ext v
      simp only [Set.mem_ofPred_eq, List.mem_filter, List.mem_range, decide_eq_true_eq,
        Bool.and_eq_true, bne_iff_ne]
      exact ⟨fun h => h.2, fun hv => ⟨⟨hZ hv, fun e => hx (e ▸ hv), fun e => hyZ (e ▸ hv)⟩, hv⟩⟩
    rw [hset, decide_eq_decide] at hq
    exact not_iff_not.mp hq
  intro x y hx hy hne Z hZ hxZ hyZ
  rcases Nat.lt_or_gt_of_ne hne with hxy | hyx
  · exact key x y hxy hy Z hZ hxZ hyZ
  · have hk := key y x hyx hx Z hZ hyZ hxZ
    exact ⟨fun hc => (hk.mp (hc.symm hG hxZ hyZ)).symm hG' hyZ hxZ,
      fun hc => (hk.mpr (hc.symm hG' hxZ hyZ)).symm hG hyZ hxZ⟩

theorem signatureLoop_spec {admg : Admg} (depth bytes : Nat) :
    ∀ (queries : List (Nat × Nat × List Nat)) (budget : SearchBudget),
      (∀ q ∈ queries, Query admg.nodeCount q.1 q.2.1 q.2.2) →
      ∃ r b, signatureLoop admg depth bytes queries budget = .ok (r, b) ∧
        b.limits = budget.limits ∧ budget.operations ≤ b.operations ∧ (budget.Fits → b.Fits) ∧
        ∀ sig, r = .ok sig → sig = queries.map fun q =>
          !admg.bayesBall.bayesBallReaches [q.1] [q.2.1] q.2.2
  | [], budget, _ => ⟨_, _, rfl, rfl, Nat.le_refl _, id, fun sig h => (Except.ok.inj h).symm⟩
  | (i, j, z) :: queries, budget, h => by
    unfold signatureLoop
    cases hc : budget.charge depth bytes with
    | mk b stop =>
      cases stop with
      | some stop =>
        obtain ⟨h1, h2⟩ := SearchBudget.charge_some hc
        refine ⟨_, _, rfl, h1, Nat.le_of_eq h2.symm, fun hf => ?_, fun sig hs => absurd hs (by simp)⟩
        unfold SearchBudget.Fits at hf ⊢
        rwa [h1, h2]
      | none =>
        obtain ⟨h1, h2, h3⟩ := SearchBudget.charge_none hc
        obtain ⟨r, b', hr, h4, h5, h6, h7⟩ := signatureLoop_spec depth bytes queries b fun q hq =>
          h q (List.mem_cons_of_mem _ hq)
        simp only [Admg.isMSeparated_eq (h _ List.mem_cons_self), hr, bind, Except.bind, pure,
          Except.pure]
        refine ⟨_, _, rfl, h4.trans h2, by omega, fun _ => h6 ?_, fun sig hs => ?_⟩
        · unfold SearchBudget.Fits
          rw [h2, h3]
          omega
        · cases r with
          | error stop => exact absurd hs (by simp [Except.map])
          | ok rest =>
            rw [List.map_cons, ← h7 rest rfl]
            exact (Except.ok.inj hs).symm

/-- **A signature is the answers of the graph.** -/
theorem mSeparationSignature_spec {g : Pag} (hanc : g.look.Ancestral) (hn : g.nodeCount ≤ u32Max)
    (depth bytes : Nat) (budget : SearchBudget) :
    ∃ r b, mSeparationSignature g depth bytes budget = .ok (r, b) ∧ b.limits = budget.limits ∧
      budget.operations ≤ b.operations ∧ (budget.Fits → b.Fits) ∧
      ∀ sig, r = .ok sig → sig = answers g.mixed g.nodeCount := by
  obtain ⟨admg, hok, hcount, hmixed⟩ := asAdmg_ok hanc hn
  have hq : ∀ q ∈ signatureOrder g.nodeCount, Query admg.nodeCount q.1 q.2.1 q.2.2 := by
    intro q hq
    rw [hcount]
    exact query_of_mem_signatureOrder hq
  obtain ⟨r, b, hr, h1, h2, h3, h4⟩ := signatureLoop_spec depth bytes _ budget hq
  refine ⟨r, b, ?_, h1, h2, h3, fun sig hs => ?_⟩
  · unfold mSeparationSignature
    rw [hok]
    exact hr
  · rw [h4 sig hs]
    refine List.map_congr_left fun q hmem => ?_
    have hsep := Admg.isMSeparated_iff_path (hq q hmem)
    rw [Admg.isMSeparated_eq (hq q hmem), Except.ok.injEq, hmixed] at hsep
    rw [Bool.eq_iff_iff, hsep]
    exact (@decide_eq_true_iff _ (@instDecidableNot _ (Classical.propDecidable _))).symm

theorem mSeparationSignature_sound {g : Pag} (hanc : g.look.Ancestral) {depth bytes : Nat}
    {budget b : SearchBudget} {r : Except SearchStop (List Bool)}
    (h : mSeparationSignature g depth bytes budget = .ok (r, b)) :
    b.limits = budget.limits ∧ budget.operations ≤ b.operations ∧
      ∀ sig, r = .ok sig → sig = answers g.mixed g.nodeCount := by
  by_cases hn : g.nodeCount ≤ u32Max
  · obtain ⟨r', b', hr, h1, h2, -, h3⟩ := mSeparationSignature_spec hanc hn depth bytes budget
    obtain ⟨rfl, rfl⟩ := Prod.mk.inj (Except.ok.inj (hr.symm.trans h))
    exact ⟨h1, h2, h3⟩
  · simp [mSeparationSignature, asAdmg, Nat.lt_of_not_le hn, bind, Except.bind] at h

end Signatures

end Antecedent.Graph
