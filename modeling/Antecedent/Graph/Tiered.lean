import Antecedent.Graph.Insertion
import Antecedent.Mixed.Tiers

/-!
# A background in tiers

Model of `tiered.rs` of the graph crate: the declared tiers, the closure of a treatment set and the
ADMG of a co-determined background. The PAG of an unknown one is left out.

* `tierOf_eq_some`: the tier of a variable.
* **`toAdmg_ok`**: the ADMG has an edge from each tier to each later one, and a clique in each.
* `tiered_of`: it is drawn in tiers.
-/

namespace Antecedent.Graph

open Machine
open Mixed

/-- Lines 20-27. -/
inductive WithinTier
  | coDetermined
  | unknown
  deriving DecidableEq

/-- `TieredBackground` (`tiered.rs:30-36`) with what `new` checks. -/
structure TieredBackground where
  tiers : List (List Nat)
  withinTier : WithinTier
  hasTier : tiers ≠ []
  nonempty : ∀ tier ∈ tiers, tier ≠ []
  nodup : tiers.flatten.Nodup

/-- A `CausalSchema`, its number of variables: `build` refuses more than a `u32` counts. -/
structure CausalSchema where
  len : Nat
  fits : len ≤ u32Max

namespace TieredBackground

/-- Lines 44-67. -/
def new (tiers : List (List Nat)) (withinTier : WithinTier) : Except GraphError TieredBackground :=
  if h : tiers ≠ [] ∧ ∀ tier ∈ tiers, tier ≠ [] then
    if hn : tiers.flatten.Nodup then .ok ⟨tiers, withinTier, h.1, h.2, hn⟩
    else .error (.invalidEndpoints "TieredBackground variables must be unique across tiers")
  else .error (.invalidEndpoints "TieredBackground requires non-empty tiers")

def tierOf (bg : TieredBackground) (id : Nat) : Option Nat :=
  bg.tiers.findIdx? fun tier => tier.contains id

/-- The loop of `tier_closure_set`: the latest tier of the treatments, all of them before `y`. -/
def latestTier (bg : TieredBackground) (y : Nat) : List Nat → List Nat → Nat →
    Except GraphError Nat
  | [], _, kMax => .ok kMax
  | treatment :: rest, seen, kMax =>
    match bg.tierOf treatment with
    | none => .error (.invalidEndpoints "treatment is not in a declared tier")
    | some k =>
      if seen.contains treatment then
        .error (.invalidEndpoints "treatment set must be distinct")
      else if y ≤ k then
        .error (.invalidEndpoints "outcome must sit in a later tier than every treatment")
      else latestTier bg y rest (seen ++ [treatment]) (max kMax k)

/-- Lines 119-163. -/
def tierClosureSet (bg : TieredBackground) (treatments : List Nat) (outcome : Nat) :
    Except GraphError (List Nat) :=
  if treatments.isEmpty then .error (.invalidEndpoints "treatment set is empty")
  else
    match bg.tierOf outcome with
    | none => .error (.invalidEndpoints "outcome is not in a declared tier")
    | some y => do
      let kMax ← bg.latestTier y treatments [] 0
      return (bg.tiers.take (kMax + 1)).flatten.filter fun v => !treatments.contains v

/-- Lines 101-107. -/
def tierClosure (bg : TieredBackground) (treatment outcome : Nat) : Except GraphError (List Nat) :=
  bg.tierClosureSet [treatment] outcome

/-- Lines 172-187. -/
def unknownCanonicalSets (bg : TieredBackground) (treatment outcome : Nat) :
    Except GraphError (List Nat × List Nat) :=
  match bg.tierOf treatment with
  | none => .error (.invalidEndpoints "treatment is not in a declared tier")
  | some k => do
    let closure ← bg.tierClosure treatment outcome
    return ((bg.tiers.take k).flatten, closure)

/-- The pairs of an earlier and a later variable, in the order of the loops. -/
def laterPairs : List (List Nat) → List (Nat × Nat)
  | [] => []
  | earlier :: rest => rest.flatMap (fun later => earlier.product later) ++ laterPairs rest

/-- Lines 197-233. -/
def toAdmg (bg : TieredBackground) (schema : CausalSchema) : Except GraphError Admg :=
  if bg.withinTier = .unknown then .error (.invalidEndpoints
    "Unknown tiers cannot be collapsed to an ADMG; use to_pag or explicit orientation scenarios")
  else if schema.len > u32Max then .error .tooManyNodes
  else do
    let g ← (laterPairs bg.tiers).foldlM (fun (g : Admg) e => g.insertDirected e.1 e.2)
      (Admg.withVariables schema.len)
    (bg.tiers.flatMap pairsOf).foldlM (fun (g : Admg) e => g.insertBidirected e.1 e.2) g

/-! ## The tier of a variable -/

variable {bg : TieredBackground} {schema : CausalSchema} {treatments : List Nat} {outcome v i : Nat}
  {a b : Nat}

theorem tierOf_eq_some : bg.tierOf v = some i ↔ ∃ tier, bg.tiers[i]? = some tier ∧ v ∈ tier := by
  have hdisj := (List.nodup_flatten.mp bg.nodup).2
  unfold tierOf
  rw [List.findIdx?_eq_some_iff_getElem]
  constructor
  · rintro ⟨hi, hv, -⟩
    exact ⟨bg.tiers[i], List.getElem?_eq_getElem hi, List.contains_iff_mem.mp hv⟩
  · rintro ⟨tier, htier, hv⟩
    obtain ⟨hi, rfl⟩ := List.getElem?_eq_some_iff.mp htier
    refine ⟨hi, List.contains_iff_mem.mpr hv, fun j hji hj => ?_⟩
    exact List.pairwise_iff_getElem.mp hdisj j i (hji.trans hi) hi hji (List.contains_iff_mem.mp hj) hv

theorem tierOf_isSome : (∃ i, bg.tierOf v = some i) ↔ v ∈ bg.tiers.flatten := by
  simp only [tierOf_eq_some, List.mem_flatten]
  constructor
  · rintro ⟨i, tier, htier, hv⟩
    exact ⟨tier, List.mem_of_getElem? htier, hv⟩
  · rintro ⟨tier, htier, hv⟩
    obtain ⟨i, hi⟩ := List.mem_iff_getElem?.mp htier
    exact ⟨i, tier, hi, hv⟩

/-- The tier of a variable; a variable in none comes last. -/
def rank (bg : TieredBackground) (v : Nat) : Nat := (bg.tierOf v).getD bg.tiers.length

theorem rank_of (h : bg.tierOf v = some i) : bg.rank v = i := by
  unfold rank
  rw [h]
  rfl

theorem rank_lt_iff : bg.rank v < bg.tiers.length ↔ v ∈ bg.tiers.flatten := by
  rw [← tierOf_isSome]
  unfold rank
  cases h : bg.tierOf v with
  | none => simp
  | some i =>
    obtain ⟨tier, htier, -⟩ := tierOf_eq_some.mp h
    simpa using (List.getElem?_eq_some_iff.mp htier).1

theorem tierOf_rank (h : v ∈ bg.tiers.flatten) : bg.tierOf v = some (bg.rank v) := by
  obtain ⟨i, hi⟩ := tierOf_isSome.mpr h
  rw [hi, rank_of hi]

theorem mem_take_flatten {k : Nat} :
    v ∈ (bg.tiers.take (k + 1)).flatten ↔ v ∈ bg.tiers.flatten ∧ bg.rank v ≤ k := by
  rw [← tierOf_isSome, List.mem_flatten]
  constructor
  · rintro ⟨tier, htier, hv⟩
    obtain ⟨i, hi⟩ := List.mem_iff_getElem?.mp htier
    rw [List.getElem?_take] at hi
    split_ifs at hi with hik
    have h := tierOf_eq_some.mpr ⟨tier, hi, hv⟩
    exact ⟨⟨i, h⟩, rank_of h ▸ Nat.lt_succ_iff.mp hik⟩
  · rintro ⟨⟨i, hi⟩, hk⟩
    rw [rank_of hi] at hk
    obtain ⟨tier, htier, hv⟩ := tierOf_eq_some.mp hi
    refine ⟨tier, List.mem_iff_getElem?.mpr ⟨i, ?_⟩, hv⟩
    rw [List.getElem?_take, if_pos (Nat.lt_succ_of_le hk), htier]

/-! ## The closure -/

/-- The treatments and the outcome a closure is asked for: distinct treatments, and the outcome in a
later tier than each. -/
structure Later (bg : TieredBackground) (treatments : List Nat) (outcome : Nat) : Prop where
  treated : treatments ≠ []
  nodup : treatments.Nodup
  declared : ∀ t ∈ treatments, t ∈ bg.tiers.flatten
  outcome_mem : outcome ∈ bg.tiers.flatten
  later : ∀ t ∈ treatments, bg.rank t < bg.rank outcome

theorem Later.apart (h : bg.Later treatments outcome) : outcome ∉ treatments := fun hy =>
  lt_irrefl _ (h.later outcome hy)

/-- **The loop finds the latest tier**, of distinct treatments before `y`. -/
theorem latestTier_ok {y : Nat} : ∀ {ts seen : List Nat} {kMax : Nat},
    (∀ t ∈ ts, t ∈ bg.tiers.flatten ∧ bg.rank t < y) → (seen ++ ts).Nodup →
    ∃ k, bg.latestTier y ts seen kMax = .ok k ∧ kMax ≤ k ∧ (∀ t ∈ ts, bg.rank t ≤ k) ∧
      (k = kMax ∨ ∃ t ∈ ts, bg.rank t = k)
  | [], _, kMax, _, _ => ⟨kMax, rfl, le_rfl, by simp, Or.inl rfl⟩
  | t :: ts, seen, kMax, hts, hnd => by
    obtain ⟨⟨htd, hty⟩, hrest⟩ := List.forall_mem_cons.mp hts
    have hsplit : seen ++ t :: ts = (seen ++ [t]) ++ ts := by
      rw [List.append_assoc, List.singleton_append]
    have hnot : t ∉ seen := fun h => (List.nodup_append.mp hnd).2.2 t h t (.head _) rfl
    obtain ⟨k, hk, hmax, hle, hat⟩ := @latestTier_ok y ts (seen ++ [t]) (max kMax (bg.rank t))
      hrest (hsplit ▸ hnd)
    refine ⟨k, ?_, (le_max_left _ _).trans hmax, ?_, ?_⟩
    · unfold latestTier
      simp only [tierOf_rank htd]
      rw [if_neg (fun h => hnot (List.contains_iff_mem.mp h)), if_neg (by omega)]
      exact hk
    · exact List.forall_mem_cons.mpr ⟨(le_max_right _ _).trans hmax, hle⟩
    · rcases hat with rfl | ⟨s, hs, hsk⟩
      · rcases max_choice kMax (bg.rank t) with h | h
        · exact Or.inl h
        · exact Or.inr ⟨t, .head _, h.symm⟩
      · exact Or.inr ⟨s, .tail _ hs, hsk⟩

/-- **The closure of a treatment set**: what is up to the tier of some treatment, the treatments
left out. -/
theorem tierClosureSet_ok (h : bg.Later treatments outcome) :
    ∃ z, bg.tierClosureSet treatments outcome = .ok z ∧ ∀ v, v ∈ z ↔
      v ∈ bg.tiers.flatten ∧ v ∉ treatments ∧ ∃ t ∈ treatments, bg.rank v ≤ bg.rank t := by
  obtain ⟨k, hk, -, hle, hat⟩ := @latestTier_ok bg _ treatments [] 0
    (fun t ht => ⟨h.declared t ht, h.later t ht⟩) h.nodup
  obtain ⟨t₀, ht₀⟩ := List.exists_mem_of_ne_nil _ h.treated
  have hempty : treatments.isEmpty = false := by
    rw [List.isEmpty_eq_false_iff]
    exact h.treated
  refine ⟨(bg.tiers.take (k + 1)).flatten.filter fun v => !treatments.contains v, ?_, fun v => ?_⟩
  · unfold tierClosureSet
    rw [hempty, if_neg Bool.false_ne_true]
    simp only [tierOf_rank h.outcome_mem, hk, bind, Except.bind, pure, Except.pure]
  · have hex : bg.rank v ≤ k ↔ ∃ t ∈ treatments, bg.rank v ≤ bg.rank t := by
      constructor
      · intro hv
        rcases hat with rfl | ⟨t, ht, rfl⟩
        · exact ⟨t₀, ht₀, hv.trans (Nat.zero_le _)⟩
        · exact ⟨t, ht, hv⟩
      · rintro ⟨t, ht, hv⟩
        exact hv.trans (hle t ht)
    rw [List.mem_filter, mem_take_flatten, hex, Bool.not_eq_true', List.contains_eq_mem,
      decide_eq_false_iff_not]
    tauto

/-- What a treatment list passes on its way through the loop. -/
theorem latestTier_of {y k : Nat} : ∀ {ts seen : List Nat} {kMax : Nat}, seen.Nodup →
    bg.latestTier y ts seen kMax = .ok k →
    (∀ t ∈ ts, t ∈ bg.tiers.flatten ∧ bg.rank t < y) ∧ (seen ++ ts).Nodup
  | [], seen, _, hs, _ => ⟨by simp, by simpa using hs⟩
  | t :: ts, seen, kMax, hs, h => by
    unfold latestTier at h
    cases ht : bg.tierOf t with
    | none => simp [ht] at h
    | some i =>
      simp only [ht] at h
      split_ifs at h with hseen hy
      have hnot : t ∉ seen := fun hm => hseen (List.contains_iff_mem.mpr hm)
      obtain ⟨hall, hnd⟩ := latestTier_of (List.nodup_append.mpr ⟨hs, List.nodup_singleton t,
        fun a ha b hb => by rintro rfl; exact hnot (List.mem_singleton.mp hb ▸ ha)⟩) h
      rw [List.append_assoc, List.singleton_append] at hnd
      refine ⟨List.forall_mem_cons.mpr ⟨⟨tierOf_isSome.mp ⟨i, ht⟩, ?_⟩, hall⟩, hnd⟩
      rw [rank_of ht]
      omega

theorem tierClosureSet_of {z : List Nat} (h : bg.tierClosureSet treatments outcome = .ok z) :
    bg.Later treatments outcome := by
  unfold tierClosureSet at h
  split_ifs at h with hempty
  cases hy : bg.tierOf outcome with
  | none => simp [hy] at h
  | some y =>
    simp only [hy] at h
    obtain ⟨k, hk, h⟩ := bind_ok h
    obtain ⟨hall, hnd⟩ := latestTier_of List.nodup_nil hk
    exact ⟨fun e => hempty (e ▸ rfl), hnd, fun t ht => (hall t ht).1, tierOf_isSome.mp ⟨y, hy⟩,
      fun t ht => (rank_of hy).symm ▸ (hall t ht).2⟩

/-! ## The ADMG -/

/-- An edge list in which no edge comes twice, in either direction. -/
abbrev Apart (p q : Nat × Nat) : Prop := p ≠ q ∧ p ≠ q.swap

theorem pairsOf_apart : ∀ {l : List Nat}, l.Nodup → (pairsOf l).Pairwise Apart
  | [], _ => List.Pairwise.nil
  | a :: l, h => by
    obtain ⟨ha, hl⟩ := List.nodup_cons.mp h
    unfold pairsOf
    refine List.pairwise_append.mpr ⟨?_, pairsOf_apart hl, ?_⟩
    · refine List.pairwise_map.mpr (hl.imp_of_mem fun {x y} hx _ hxy => ⟨fun e => ?_, fun e => ?_⟩)
      · exact hxy (Prod.mk.inj e).2
      · have hxa : x = a := (Prod.mk.inj e).2
        exact ha (hxa ▸ hx)
    · rintro p hp ⟨u, w⟩ hq
      obtain ⟨x, -, rfl⟩ := List.mem_map.mp hp
      obtain ⟨hu, hw⟩ := mem_of_mem_pairsOf hq
      exact ⟨fun e => ha ((Prod.mk.inj e).1 ▸ hu), fun e => ha ((Prod.mk.inj e).1 ▸ hw)⟩

theorem mem_laterPairs : ∀ {tiers : List (List Nat)}, (a, b) ∈ laterPairs tiers ↔
    ∃ (i j : Nat) (s t : List Nat), i < j ∧ tiers[i]? = some s ∧ tiers[j]? = some t ∧ a ∈ s ∧ b ∈ t
  | [] => by simp [laterPairs]
  | earlier :: rest => by
    unfold laterPairs
    rw [List.mem_append, List.mem_flatMap, mem_laterPairs]
    constructor
    · rintro (⟨later, hl, hp⟩ | ⟨i, j, s, t, hij, hs, ht, ha, hb⟩)
      · obtain ⟨j, hj⟩ := List.mem_iff_getElem?.mp hl
        obtain ⟨ha, hb⟩ := List.pair_mem_product.mp hp
        exact ⟨0, j + 1, earlier, later, Nat.succ_pos j, rfl, hj, ha, hb⟩
      · exact ⟨i + 1, j + 1, s, t, Nat.succ_lt_succ hij, hs, ht, ha, hb⟩
    · rintro ⟨i, j, s, t, hij, hs, ht, ha, hb⟩
      obtain ⟨j, rfl⟩ := Nat.exists_eq_succ_of_ne_zero (Nat.ne_zero_of_lt hij)
      cases i with
      | zero =>
        obtain rfl : earlier = s := Option.some.inj hs
        exact Or.inl ⟨t, List.mem_of_getElem? ht, List.pair_mem_product.mpr ⟨ha, hb⟩⟩
      | succ i => exact Or.inr ⟨i, j, s, t, Nat.succ_lt_succ_iff.mp hij, hs, ht, ha, hb⟩

theorem laterPairs_nodup : ∀ {tiers : List (List Nat)}, tiers.flatten.Nodup →
    (laterPairs tiers).Nodup
  | [], _ => List.nodup_nil
  | earlier :: rest, h => by
    rw [List.flatten_cons, List.nodup_append] at h
    obtain ⟨he, hr, hdisj⟩ := h
    obtain ⟨hall, hpair⟩ := List.nodup_flatten.mp hr
    unfold laterPairs
    refine List.nodup_append.mpr ⟨?_, laterPairs_nodup hr, ?_⟩
    · refine List.nodup_flatMap.mpr ⟨fun later hl => he.product (hall later hl), ?_⟩
      refine hpair.imp fun {s t} hst => ?_
      rintro ⟨a, b⟩ h1 h2
      exact hst (List.pair_mem_product.mp h1).2 (List.pair_mem_product.mp h2).2
    · rintro ⟨a, b⟩ hp q hq rfl
      obtain ⟨later, -, hp⟩ := List.mem_flatMap.mp hp
      obtain ⟨i, j, s, t, -, hs, -, ha, -⟩ := mem_laterPairs.mp hq
      exact hdisj a (List.pair_mem_product.mp hp).1 a
        (List.mem_flatten.mpr ⟨s, List.mem_of_getElem? hs, ha⟩) rfl

theorem mem_laterPairs_iff : (a, b) ∈ laterPairs bg.tiers ↔
    a ∈ bg.tiers.flatten ∧ b ∈ bg.tiers.flatten ∧ bg.rank a < bg.rank b := by
  rw [mem_laterPairs]
  constructor
  · rintro ⟨i, j, s, t, hij, hs, ht, ha, hb⟩
    have hi := tierOf_eq_some.mpr ⟨s, hs, ha⟩
    have hj := tierOf_eq_some.mpr ⟨t, ht, hb⟩
    exact ⟨tierOf_isSome.mp ⟨i, hi⟩, tierOf_isSome.mp ⟨j, hj⟩, by rwa [rank_of hi, rank_of hj]⟩
  · rintro ⟨ha, hb, hab⟩
    obtain ⟨s, hs, has⟩ := tierOf_eq_some.mp (tierOf_rank ha)
    obtain ⟨t, ht, hbt⟩ := tierOf_eq_some.mp (tierOf_rank hb)
    exact ⟨_, _, s, t, hab, hs, ht, has, hbt⟩

theorem peers_apart : (bg.tiers.flatMap pairsOf).Pairwise Apart := by
  obtain ⟨hall, hpair⟩ := List.nodup_flatten.mp bg.nodup
  refine List.pairwise_flatMap.mpr ⟨fun tier ht => pairsOf_apart (hall tier ht), ?_⟩
  refine hpair.imp fun {s t} hst => ?_
  rintro ⟨a, b⟩ h1 ⟨c, d⟩ h2
  obtain ⟨ha, -⟩ := mem_of_mem_pairsOf h1
  obtain ⟨hc, hd⟩ := mem_of_mem_pairsOf h2
  exact ⟨fun e => hst ha ((Prod.mk.inj e).1 ▸ hc), fun e => hst ha ((Prod.mk.inj e).1 ▸ hd)⟩

theorem mem_peers : ((a, b) ∈ bg.tiers.flatMap pairsOf ∨
    (b, a) ∈ bg.tiers.flatMap pairsOf) ↔
    a ≠ b ∧ a ∈ bg.tiers.flatten ∧ b ∈ bg.tiers.flatten ∧ bg.rank a = bg.rank b := by
  have hall := (List.nodup_flatten.mp bg.nodup).1
  have htier : ∀ {tier u w}, tier ∈ bg.tiers → u ∈ tier → w ∈ tier →
      u ∈ bg.tiers.flatten ∧ w ∈ bg.tiers.flatten ∧ bg.rank u = bg.rank w := by
    intro tier u w ht hu hw
    obtain ⟨i, hi⟩ := List.mem_iff_getElem?.mp ht
    have h1 := tierOf_eq_some.mpr ⟨tier, hi, hu⟩
    have h2 := tierOf_eq_some.mpr ⟨tier, hi, hw⟩
    exact ⟨tierOf_isSome.mp ⟨i, h1⟩, tierOf_isSome.mp ⟨i, h2⟩, (rank_of h1).trans (rank_of h2).symm⟩
  simp only [List.mem_flatMap]
  constructor
  · rintro (⟨tier, ht, hp⟩ | ⟨tier, ht, hp⟩)
    · obtain ⟨ha, hb⟩ := mem_of_mem_pairsOf hp
      exact ⟨mem_pairsOf_ne (hall tier ht) hp, htier ht ha hb⟩
    · obtain ⟨hb, ha⟩ := mem_of_mem_pairsOf hp
      exact ⟨(mem_pairsOf_ne (hall tier ht) hp).symm, htier ht ha hb⟩
  · rintro ⟨hab, ha, hb, hr⟩
    obtain ⟨s, hs, has⟩ := tierOf_eq_some.mp (tierOf_rank ha)
    obtain ⟨t, ht, hbt⟩ := tierOf_eq_some.mp (tierOf_rank hb)
    obtain rfl : s = t := Option.some.inj (hs.symm.trans (hr ▸ ht))
    exact ((mem_pairsOf hab).mpr ⟨has, hbt⟩).imp (fun h => ⟨s, List.mem_of_getElem? hs, h⟩)
      fun h => ⟨s, List.mem_of_getElem? hs, h⟩

def drawing (bg : TieredBackground) : MixedGraph Nat where
  dir a b := a ∈ bg.tiers.flatten ∧ b ∈ bg.tiers.flatten ∧ bg.rank a < bg.rank b
  bi a b := a ≠ b ∧ a ∈ bg.tiers.flatten ∧ b ∈ bg.tiers.flatten ∧ bg.rank a = bg.rank b
  bi_symm := fun ⟨hne, ha, hb, hr⟩ => ⟨hne.symm, hb, ha, hr.symm⟩

theorem drawing_acyclic : bg.drawing.Acyclic := by
  have hrank : ∀ {a b}, Relation.TransGen bg.drawing.dir a b → bg.rank a < bg.rank b := by
    intro a b h
    induction h with
    | single h => exact h.2.2
    | tail _ h ih => exact ih.trans h.2.2
  exact fun a h => (hrank h).false

/-- The edges in the order they are inserted. -/
def calls (bg : TieredBackground) : List EdgeCall :=
  (laterPairs bg.tiers).map (fun e => .directed e.1 e.2) ++
    (bg.tiers.flatMap pairsOf).map fun e => .bidirected e.1 e.2

theorem calls_apart : bg.calls.Pairwise fun e f => ∀ p, e.Adds p → ¬ f.Adds p := by
  refine List.pairwise_append.mpr ⟨List.pairwise_map.mpr ((laterPairs_nodup bg.nodup).imp ?_),
    List.pairwise_map.mpr (peers_apart.imp ?_), ?_⟩
  · rintro e f hne p rfl h
    exact hne (Prod.ext (EdgeCall.directed.inj h).1 (EdgeCall.directed.inj h).2)
  · rintro ⟨a, b⟩ ⟨c, d⟩ ⟨h1, h2⟩ p hp hq
    rcases hp with rfl | rfl <;> rcases hq with h | h <;> cases h <;>
      first | exact h1 rfl | exact h2 rfl
  · intro e he f hf p hp hq
    obtain ⟨_, -, rfl⟩ := List.mem_map.mp he
    obtain ⟨_, -, rfl⟩ := List.mem_map.mp hf
    obtain rfl := hp
    rcases hq with h | h <;> cases h

/-- What the ADMG of a co-determined background is. -/
structure Drawn (bg : TieredBackground) (schema : CausalSchema) (g : Admg) : Prop where
  nodes : g.nodes = (List.range schema.len).map NodeRef.static
  dir : ∀ a b, g.mixed.dir a b ↔
    a ∈ bg.tiers.flatten ∧ b ∈ bg.tiers.flatten ∧ bg.rank a < bg.rank b
  bi : ∀ a b, g.mixed.bi a b ↔
    a ≠ b ∧ a ∈ bg.tiers.flatten ∧ b ∈ bg.tiers.flatten ∧ bg.rank a = bg.rank b

/-- **The ADMG of a co-determined background**, over a schema that has its variables. -/
theorem toAdmg_ok (hco : bg.withinTier = .coDetermined)
    (hvars : ∀ v ∈ bg.tiers.flatten, v < schema.len) :
    ∃ g, bg.toAdmg schema = .ok g ∧ bg.Drawn schema g := by
  obtain ⟨hn, hdir, hbi⟩ := Admg.withVariables_spec (n := schema.len) (schema.fits.trans (by simp))
  have hlt : ∀ v ∈ bg.tiers.flatten, v < (Admg.withVariables schema.len).nodeCount := fun v hv =>
    hn.symm ▸ hvars v hv
  obtain ⟨g, hok, hnodes, hmixed⟩ := @Admg.insertEdges_ok bg.drawing bg.calls
    (Admg.withVariables schema.len) drawing_acyclic (fun a h => h.1 rfl)
    (fun a b h => h.elim (fun h => ⟨hlt a h.1, hlt b h.2.1⟩) fun h => ⟨hlt a h.2.1, hlt b h.2.2.1⟩)
    (fun p => by
      cases p with
      | directed a b => exact hdir a b
      | bidirected a b => exact hbi a b)
    (fun p => by
      simp only [calls, List.mem_append, List.mem_map]
      cases p with
      | directed a b =>
        refine Iff.trans ?_ mem_laterPairs_iff
        constructor
        · rintro ⟨_, ⟨e, he, rfl⟩ | ⟨e, -, rfl⟩, hp⟩
          · cases hp
            exact he
          · rcases hp with hp | hp <;> cases hp
        · exact fun h => ⟨_, Or.inl ⟨_, h, rfl⟩, rfl⟩
      | bidirected a b =>
        refine Iff.trans ?_ mem_peers
        constructor
        · rintro ⟨_, ⟨e, -, rfl⟩ | ⟨e, he, rfl⟩, hp⟩
          · cases hp
          · rcases hp with hp | hp <;> cases hp
            · exact Or.inl he
            · exact Or.inr he
        · rintro (h | h)
          · exact ⟨_, Or.inr ⟨_, h, rfl⟩, Or.inl rfl⟩
          · exact ⟨_, Or.inr ⟨_, h, rfl⟩, Or.inr rfl⟩)
    calls_apart
  refine ⟨g, ?_, hnodes.trans (Admg.nodes_withVariables schema.fits), fun a b => ?_, fun a b => ?_⟩
  · unfold toAdmg
    rw [hco, if_neg (by decide), if_neg schema.fits.not_gt]
    rw [calls, List.foldlM_append, List.foldlM_map] at hok
    simp only [List.foldlM_map] at hok
    exact hok
  · rw [hmixed, drawing]
  · rw [hmixed, drawing]

theorem Drawn.tiered {g : Admg} (h : bg.Drawn schema g) : Mixed.Tiered g.mixed bg.rank where
  dir a b hd := ((h.dir a b).mp hd).2.2
  bi a b hb := ((h.bi a b).mp hb).2.2.2

end TieredBackground

end Antecedent.Graph
