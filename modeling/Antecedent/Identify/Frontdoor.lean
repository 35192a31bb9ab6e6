import Antecedent.Expr.FrontDoor
import Antecedent.Identify.Backdoor

/-!
# Front-door identification

Model of `FrontDoorIdentifier::identify_ate` and `is_frontdoor_set` (`frontdoor.rs:130-349`): the
three overlapping families of candidate mediators, the criterion checked on two cut graphs and a
node-deleted one, the cap on results, and the flag that marks a bounded search. `combinations`
(`frontdoor.rs:323-349`) steps through positions as the one of `Discovery.Combinations` does. The
levels of the two interventions, which may be refused, are a parameter.

* **`frontdoor_correct`**: the functional of a set returned is the difference of the interventional
  means in every positive model, and an unbounded refusal means that no set satisfies the criterion.
-/

namespace Antecedent.Identify.Frontdoor

open Core Relation
open Discovery
open Expr
open Graph
open Mixed
open Prob
open Visits

/-- Lines 37-47. -/
structure FrontDoorSearchConfig where
  maxResults : Nat
  maxMediatorSetSize : Nat

/-- An estimand: the mediators and the functional. -/
structure FrontdoorEstimand where
  mediators : List Nat
  functional : Contrast

/-- `IdentificationResult` (`result.rs`), what the front-door search puts into it. -/
inductive FrontdoorResult
  | notIdentified (searchBounded : Bool) (examined : Nat)
  | identified (estimands : List FrontdoorEstimand) (searchBounded : Bool) (examined : Nat)

/-- `backdoor.rs:693-696`. -/
def removeNodes (dag : Graph.Dag) (nodes : List Nat) : Except IdentificationError Graph.Dag :=
  (dag.copyFiltered fun src dst => src ∉ nodes ∧ dst ∉ nodes).mapError .graph

/-- `dag.rs:240-242`. -/
def reaches (dag : Graph.Dag) (src dst : Nat) : Bool := bfsReaches dag.directed.children src dst

/-- The separation loops of `is_frontdoor_set` (`frontdoor.rs:302-317`): the
first pair that is not separated ends them. -/
def separatedAll (g : Graph.Dag) (z : List Nat) : List (Nat × Nat) → Except IdentificationError Bool
  | [] => .ok true
  | (a, b) :: rest => do
    if ← (g.isDSeparated a b z).mapError .graph then separatedAll g z rest else pure false

/-- Lines 281-320. -/
def isFrontdoorSet (dag : Graph.Dag) (t y : Nat) (m : List Nat) :
    Except IdentificationError Bool := do
  if m.isEmpty then pure false
  else
    let withoutM ← removeNodes dag m
    if reaches withoutM t y then pure false
    else
      let tMutilated ← removeOutgoing dag t
      if ← separatedAll tMutilated [] (m.map fun mi => (t, mi)) then
        let mMutilated ← removeOutgoingSet dag m
        separatedAll mMutilated [t] (m.map fun mi => (mi, y))
      else pure false

/-- The key of a candidate: its nodes in order. -/
def sorted (m : List Nat) : List Nat := m.insertionSort (· ≤ ·)

/-- `push_candidate` (`frontdoor.rs:143-149`): a set already there is dropped. -/
def pushCandidate (candidates : List (List Nat)) (m : List Nat) : List (List Nat) :=
  if candidates.any fun c => sorted c = sorted m then candidates else candidates ++ [m]

/-- `V \ {T, Y}`. -/
def intermediates (dag : Graph.Dag) (t y : Nat) : List Nat :=
  (List.range dag.nodeCount).filter fun v => v ≠ t ∧ v ≠ y

/-- `children(T) \ {Y}`. -/
def childrenOfT (dag : Graph.Dag) (t y : Nat) : List Nat := (dag.children t).filter (· ≠ y)

/-- The non-empty subsets of some nodes, at most `size` at a time. -/
def subsetsUpTo (nodes : List Nat) (size : Nat) : List (List Nat) :=
  (List.range' 1 (min size nodes.length)).flatMap (combinations nodes)

/-- The families of candidates in the order they are pushed (`frontdoor.rs:151-191`). -/
def families (dag : Graph.Dag) (t y : Nat) (config : FrontDoorSearchConfig) : List (List Nat) :=
  let children := childrenOfT dag t y
  let pool := intermediates dag t y
  pool.map ([·]) ++ subsetsUpTo children config.maxMediatorSetSize ++
    (if config.maxMediatorSetSize < children.length then [children] else []) ++
    if pool.length ≤ 12 then subsetsUpTo pool config.maxMediatorSetSize else []

def candidates (dag : Graph.Dag) (t y : Nat) (config : FrontDoorSearchConfig) : List (List Nat) :=
  (families dag t y config).foldl pushCandidate []

/-- Whether the pool leaves subsets out (`frontdoor.rs:181-183`). -/
def poolBounded (dag : Graph.Dag) (t y : Nat) (config : FrontDoorSearchConfig) : Bool :=
  config.maxMediatorSetSize < (childrenOfT dag t y).length ∨
    12 < (intermediates dag t y).length ∨
    max config.maxMediatorSetSize 1 < (intermediates dag t y).length

/-- What the search has done so far. -/
structure FrontdoorState where
  examined : Nat
  searchBounded : Bool
  valid : List (List Nat)

/-- The test of one candidate (`frontdoor.rs:196-205`). -/
def visit (dag : Graph.Dag) (t y : Nat) (config : FrontDoorSearchConfig) (st : FrontdoorState)
    (m : List Nat) : Except IdentificationError (FrontdoorState × Bool) := do
  if ← isFrontdoorSet dag t y m then
    let kept := { st with examined := st.examined + 1, valid := st.valid ++ [m] }
    if config.maxResults ≤ kept.valid.length then pure ({ kept with searchBounded := true }, true)
    else pure (kept, false)
  else pure ({ st with examined := st.examined + 1 }, false)

/-- The estimand of a set (`frontdoor.rs:238-256`). -/
def estimand (dag : Graph.Dag) (treatment outcome : Nat)
    (levels : Except IdentificationError (Value × Value)) (m : List Nat) :
    Except IdentificationError FrontdoorEstimand := do
  let vars ← m.mapM (denseToVar · dag)
  let (active, control) ← levels
  pure ⟨vars, frontdoorAte treatment outcome vars active control⟩

/-- Lines 130-277. -/
def identifyAte (dag : Graph.Dag) (treatment outcome : Nat) (config : FrontDoorSearchConfig)
    (levels : Except IdentificationError (Value × Value)) :
    Except IdentificationError FrontdoorResult := do
  let t ← varToDense treatment dag
  let y ← varToDense outcome dag
  let (st, _) ← visitAll (visit dag t y config) ⟨0, poolBounded dag t y config, []⟩
    (candidates dag t y config)
  if st.valid.isEmpty then pure (.notIdentified st.searchBounded st.examined)
  else
    let estimands ← st.valid.mapM (estimand dag treatment outcome levels)
    pure (.identified estimands st.searchBounded st.examined)

/-! ## The check -/

variable {dag : Graph.Dag} {t y : Nat} {config : FrontDoorSearchConfig} {g : Graph.Dag}

/-- The nodes `m` may be mediators: there is one, and neither end is. -/
structure Fit (dag : Graph.Dag) (t y : Nat) (m : List Nat) : Prop where
  nonempty : m ≠ []
  in_graph : ∀ v ∈ m, v < dag.nodeCount
  ne_treatment : ∀ v ∈ m, v ≠ t
  ne_outcome : ∀ v ∈ m, v ≠ y

theorem separatedAll_iff {z : List Nat} : ∀ {pairs : List (Nat × Nat)},
    (∀ q ∈ pairs, Query g.nodeCount q.1 q.2 z) → ∃ b, separatedAll g z pairs = .ok b ∧
      (b = true ↔ ∀ q ∈ pairs, g.mixed.MSeparated {q.1} {q.2} {v | v ∈ z})
  | [], _ => ⟨true, rfl, iff_of_true rfl fun _ h => by cases h⟩
  | (a, b) :: rest, hq => by
    obtain ⟨s, hs, hiff⟩ := isDSeparated_mSeparated (hq (a, b) List.mem_cons_self)
    obtain ⟨r, hr, hrest⟩ := separatedAll_iff fun q h => hq q (List.mem_cons_of_mem _ h)
    unfold separatedAll
    rw [hs, List.forall_mem_cons, ← hiff, ← hrest]
    cases s with
    | true => exact ⟨r, hr, by simp⟩
    | false => exact ⟨false, rfl, by simp⟩

variable {m : List Nat} {v : Nat} {r : FrontdoorState × Bool}

theorem removeNodes_reaches (h : removeNodes dag m = .ok g)
    (ht : t < dag.nodeCount) (hy : y < dag.nodeCount) : reaches g t y = true ↔
      ReflTransGen (fun a b => dag.mixed.dir a b ∧ a ∉ m ∧ b ∉ m) t y := by
  unfold removeNodes at h
  have hfit : dag.nodeCount ≤ u32Max := by
    by_contra hbig
    unfold Graph.Dag.copyFiltered at h
    rw [if_pos (Nat.lt_of_not_le hbig)] at h
    cases h
  obtain ⟨g', hok, hcount, hdir⟩ := dag.copyFiltered_ok (fun a b => a ∉ m ∧ b ∉ m) hfit
  rw [hok] at h
  obtain rfl := Except.ok.inj h
  have hrel : g'.directed.Dir = fun a b => dag.mixed.dir a b ∧ a ∉ m ∧ b ∉ m := by
    funext a b
    exact propext ((hdir a b).trans (and_congr_right fun _ => decide_eq_true_iff))
  unfold reaches
  rw [DirectedCore.bfsReaches_iff g'.valid (ht.trans_eq hcount.symm) (hy.trans_eq hcount.symm), hrel]

/-- **The check decides the front-door criterion.** -/
theorem isFrontdoorSet_iff (ht : t < dag.nodeCount) (hy : y < dag.nodeCount)
    (hm : Fit dag t y m) {b : Bool} (h : isFrontdoorSet dag t y m = .ok b) :
    b = true ↔ dag.mixed.FrontDoor t y {v | v ∈ m} := by
  unfold isFrontdoorSet at h
  rw [if_neg (by simpa using hm.nonempty)] at h
  simp only [bind, Except.bind] at h
  obtain ⟨withoutM, hw, h⟩ := bind_ok h
  have hreach := removeNodes_reaches hw ht hy
  split_ifs at h with hr
  · obtain rfl := Except.ok.inj h
    exact iff_of_false (by simp) fun hf => hf.intercepts (hreach.mp hr)
  · have hnone : ¬ ReflTransGen (fun a b => dag.mixed.dir a b ∧ a ∉ m ∧ b ∉ m) t y :=
      fun hp => hr (hreach.mpr hp)
    have hty : t ≠ y := fun e => hnone (e ▸ .refl)
    obtain ⟨tMutilated, htm, h⟩ := bind_ok h
    obtain ⟨-, htc, htcut⟩ := removeOutgoing_ok htm
    have hq₁ : ∀ q ∈ m.map fun mi => (t, mi), Query tMutilated.nodeCount q.1 q.2 [] :=
      fun q hq => by
        obtain ⟨mi, hmi, rfl⟩ := List.mem_map.mp hq
        exact ⟨htc ▸ ht, htc ▸ hm.in_graph mi hmi, by simp, (hm.ne_treatment mi hmi).symm,
          by simp, by simp⟩
    obtain ⟨b₁, hb₁, h₁⟩ := separatedAll_iff hq₁
    have hset : {v : Nat | v ∈ ([] : List Nat)} = ∅ := by simp
    rw [htcut, List.forall_mem_map, hset] at h₁
    simp only [hb₁] at h
    cases b₁ with
    | false =>
      obtain rfl := Except.ok.inj h
      exact iff_of_false (by simp) fun hf => Bool.false_ne_true (h₁.mpr hf.treatment_closed)
    | true =>
      rw [if_pos rfl] at h
      obtain ⟨mMutilated, hmm, h⟩ := bind_ok h
      obtain ⟨-, hmc, hmcut⟩ := removeOutgoingSet_ok hmm
      have hq₂ : ∀ q ∈ m.map fun mi => (mi, y), Query mMutilated.nodeCount q.1 q.2 [t] :=
        fun q hq => by
          obtain ⟨mi, hmi, rfl⟩ := List.mem_map.mp hq
          exact ⟨hmc ▸ hm.in_graph mi hmi, hmc ▸ hy, by simpa using hmc ▸ ht,
            hm.ne_outcome mi hmi, by simpa using hm.ne_treatment mi hmi,
            by simpa using hty.symm⟩
      obtain ⟨b₂, hb₂, h₂⟩ := separatedAll_iff hq₂
      have hset' : {v : Nat | v ∈ [t]} = {t} := by simp
      rw [hmcut, List.forall_mem_map, hset'] at h₂
      simp only [hb₂] at h
      obtain rfl := Except.ok.inj h
      exact h₂.trans ⟨fun hout => ⟨fun hmem => hm.ne_treatment t hmem rfl,
        fun hmem => hm.ne_outcome y hmem rfl, hnone, h₁.mp rfl, hout⟩,
        fun hf => hf.outcome_closed⟩

/-! ## The candidates -/

theorem mem_subsetsUpTo {nodes z : List Nat} {size : Nat} :
    z ∈ subsetsUpTo nodes size ↔ z.Sublist nodes ∧ z ≠ [] ∧ z.length ≤ size := by
  unfold subsetsUpTo
  simp only [List.mem_flatMap, List.mem_range'_1, mem_combinations]
  constructor
  · rintro ⟨k, ⟨hk₁, hk₂⟩, hsub, rfl⟩
    exact ⟨hsub, List.ne_nil_of_length_pos hk₁, by omega⟩
  · rintro ⟨hsub, hne, hsize⟩
    have hpos := List.length_pos_of_ne_nil hne
    have hle := hsub.length_le
    exact ⟨z.length, ⟨hpos, by omega⟩, hsub, rfl⟩

theorem pushCandidate_sub {cands : List (List Nat)} {c : List Nat}
    (h : c ∈ pushCandidate cands m) : c ∈ cands ∨ c = m := by
  unfold pushCandidate at h
  split at h
  · exact .inl h
  · simpa using h

theorem foldl_pushCandidate (ms : List (List Nat)) : ∀ cands : List (List Nat),
    (∀ c ∈ ms.foldl pushCandidate cands, c ∈ cands ∨ c ∈ ms) ∧
    (∀ m, m ∈ cands ∨ m ∈ ms → ∃ c ∈ ms.foldl pushCandidate cands, sorted c = sorted m) := by
  induction ms with
  | nil => exact fun cands => ⟨fun c hc => .inl hc, fun m hm => ⟨m, by simpa using hm, rfl⟩⟩
  | cons z ms ih =>
    intro cands
    obtain ⟨hsub, hcov⟩ := ih (pushCandidate cands z)
    have hgrow : ∀ m, m ∈ cands → m ∈ pushCandidate cands z := fun m hm => by
      unfold pushCandidate
      split
      · exact hm
      · exact List.mem_append_left _ hm
    have hz : ∃ c ∈ pushCandidate cands z, sorted c = sorted z := by
      unfold pushCandidate
      split
      · rename_i hany
        obtain ⟨c, hc, heq⟩ := List.any_eq_true.mp hany
        exact ⟨c, hc, decide_eq_true_iff.mp heq⟩
      · exact ⟨z, by simp, rfl⟩
    refine ⟨fun c hc => ?_, fun m hm => ?_⟩
    · rcases hsub c hc with hc | hc
      · rcases pushCandidate_sub hc with hc | rfl
        · exact .inl hc
        · exact .inr List.mem_cons_self
      · exact .inr (List.mem_cons_of_mem _ hc)
    · rcases hm with hm | hm
      · exact hcov m (.inl (hgrow m hm))
      · rcases List.mem_cons.mp hm with rfl | hm
        · obtain ⟨c, hc, heq⟩ := hz
          obtain ⟨c', hc', heq'⟩ := hcov c (.inl hc)
          exact ⟨c', hc', heq'.trans heq⟩
        · exact hcov m (.inr hm)

theorem mem_intermediates :
    v ∈ intermediates dag t y ↔ v < dag.nodeCount ∧ v ≠ t ∧ v ≠ y := by
  unfold intermediates
  rw [List.mem_filter, List.mem_range, decide_eq_true_eq]

theorem mem_childrenOfT (h : v ∈ childrenOfT dag t y) :
    v < dag.nodeCount ∧ v ≠ t ∧ v ≠ y := by
  unfold childrenOfT at h
  obtain ⟨hc, hy⟩ := List.mem_filter.mp h
  refine ⟨(dag.valid.in_range t v hc).2, ?_, of_decide_eq_true hy⟩
  rintro rfl
  exact dag.valid.acyclic v (TransGen.single hc)

/-- **Every candidate may be a set of mediators.** -/
theorem fit_of_candidate (h : m ∈ candidates dag t y config) : Fit dag t y m := by
  have hfit : m ≠ [] → (∀ v ∈ m, v < dag.nodeCount ∧ v ≠ t ∧ v ≠ y) → Fit dag t y m :=
    fun hne hall => ⟨hne, fun v hv => (hall v hv).1, fun v hv => (hall v hv).2.1,
      fun v hv => (hall v hv).2.2⟩
  have hmem : m ∈ families dag t y config :=
    ((foldl_pushCandidate _ []).1 m h).resolve_left (by simp)
  unfold families at hmem
  simp only [List.mem_append] at hmem
  rcases hmem with ((hm | hm) | hm) | hm
  · obtain ⟨v, hv, rfl⟩ := List.mem_map.mp hm
    exact hfit (by simp) fun w hw => by
      obtain rfl := List.mem_singleton.mp hw
      exact mem_intermediates.mp hv
  · obtain ⟨hsub, hne, -⟩ := mem_subsetsUpTo.mp hm
    exact hfit hne fun v hv => mem_childrenOfT (hsub.subset hv)
  · split at hm
    · rename_i hover
      obtain rfl := List.mem_singleton.mp hm
      exact hfit (List.ne_nil_of_length_pos (Nat.zero_lt_of_lt hover)) fun v hv => mem_childrenOfT hv
    · cases hm
  · split at hm
    · obtain ⟨hsub, hne, -⟩ := mem_subsetsUpTo.mp hm
      exact hfit hne fun v hv => mem_intermediates.mp (hsub.subset hv)
    · cases hm

/-- **A pool that leaves nothing out holds every set of mediators.** -/
theorem candidates_complete (hb : poolBounded dag t y config = false) {S : Set Nat}
    (hne : S.Nonempty) (hS : ∀ v ∈ S, v < dag.nodeCount ∧ v ≠ t ∧ v ≠ y) :
    ∃ m ∈ candidates dag t y config, {v | v ∈ m} = S := by
  classical
  unfold poolBounded at hb
  simp only [decide_eq_false_iff_not, not_or, Nat.not_lt] at hb
  obtain ⟨-, hpool, hsize⟩ := hb
  set z := (intermediates dag t y).filter (· ∈ S) with hz
  have hmem : ∀ v, v ∈ z ↔ v ∈ S := fun v => by
    rw [hz, List.mem_filter, decide_eq_true_eq]
    exact and_iff_right_of_imp fun hv => mem_intermediates.mpr (hS v hv)
  have hsub : z.Sublist (intermediates dag t y) := List.filter_sublist
  have hnil : z ≠ [] := by
    obtain ⟨v, hv⟩ := hne
    exact List.ne_nil_of_mem ((hmem v).mpr hv)
  have hfam : z ∈ families dag t y config := by
    have hpos := List.length_pos_of_ne_nil hnil
    have hle := hsub.length_le
    unfold families
    simp only [List.mem_append]
    by_cases hk : z.length ≤ config.maxMediatorSetSize
    · rw [if_pos hpool]
      exact .inr (mem_subsetsUpTo.mpr ⟨hsub, hnil, hk⟩)
    · -- the cap on sizes is zero here, so the set is a singleton
      obtain ⟨v, hv⟩ := List.length_eq_one_iff.mp (show z.length = 1 by omega)
      refine .inl (.inl (.inl (List.mem_map.mpr ⟨v, hsub.subset (by simp [hv]), hv.symm⟩)))
  obtain ⟨m, hm, hsort⟩ := (foldl_pushCandidate _ []).2 z (.inr hfam)
  refine ⟨m, hm, Set.ext fun v => ?_⟩
  have hsame : v ∈ m ↔ v ∈ z := by
    have hmz : v ∈ sorted m ↔ v ∈ sorted z := by rw [hsort]
    unfold sorted at hmz
    rwa [List.mem_insertionSort, List.mem_insertionSort] at hmz
  exact hsame.trans (hmem v)

/-! ## The search -/

/-- What holds of the search after the candidates before: it keeps sets of mediators, and without
one and without a cap none of the candidates is. -/
structure Kept (dag : Graph.Dag) (t y : Nat) (config : FrontDoorSearchConfig)
    (before : List (List Nat)) (st : FrontdoorState) : Prop where
  sound : ∀ m ∈ st.valid, Fit dag t y m ∧ dag.mixed.FrontDoor t y {v | v ∈ m}
  bounded : st.valid = [] → st.searchBounded = poolBounded dag t y config
  none_yet : st.valid = [] → ∀ m ∈ before, ¬ dag.mixed.FrontDoor t y {v | v ∈ m}

theorem visit_spec (ht : t < dag.nodeCount) (hy : y < dag.nodeCount) {st : FrontdoorState}
    {before : List (List Nat)} (hm : Fit dag t y m) (hk : Kept dag t y config before st)
    (h : visit dag t y config st m = .ok r) : Kept dag t y config (before ++ [m]) r.1 := by
  unfold visit at h
  simp only [bind, Except.bind] at h
  obtain ⟨b, hb, h⟩ := bind_ok h
  have hiff := isFrontdoorSet_iff ht hy hm hb
  cases b with
  | true =>
    have hkeep : ∀ st' : FrontdoorState, st'.valid = st.valid ++ [m] →
        Kept dag t y config (before ++ [m]) st' := fun st' hst' => by
      have hne : st'.valid ≠ [] := by simp [hst']
      refine ⟨fun w hw => ?_, fun e => absurd e hne, fun e => absurd e hne⟩
      rw [hst'] at hw
      rcases List.mem_append.mp hw with hw | hw
      · exact hk.sound w hw
      · obtain rfl := List.mem_singleton.mp hw
        exact ⟨hm, hiff.mp rfl⟩
    rw [if_pos rfl] at h
    split at h <;> obtain rfl := Except.ok.inj h <;> exact hkeep _ rfl
  | false =>
    obtain rfl := Except.ok.inj h
    refine ⟨hk.sound, hk.bounded, fun e w hw => ?_⟩
    rcases List.mem_append.mp hw with hw | hw
    · exact hk.none_yet e w hw
    · obtain rfl := List.mem_singleton.mp hw
      exact fun hf => Bool.false_ne_true (hiff.mpr hf)

/-- **What the search ends with**: mediators that satisfy the criterion; and when it has none and
left none out, there are none. -/
theorem search_spec (ht : t < dag.nodeCount) (hy : y < dag.nodeCount)
    (h : visitAll (visit dag t y config)
      ⟨0, poolBounded dag t y config, []⟩ (candidates dag t y config) = .ok r) :
    (∀ m ∈ r.1.valid, Fit dag t y m ∧ dag.mixed.FrontDoor t y {v | v ∈ m}) ∧
    (r.1.valid = [] → r.1.searchBounded = false → ∀ S : Set Nat, S.Nonempty →
      (∀ v ∈ S, v < dag.nodeCount) → ¬ dag.mixed.FrontDoor t y S) := by
  have hstart : Kept dag t y config [] ⟨0, poolBounded dag t y config, []⟩ :=
    ⟨fun m hm => (by cases hm), fun _ => rfl, fun _ m hm => (by cases hm)⟩
  have hstop : ∀ before m after st r, [] ++ candidates dag t y config = before ++ m :: after →
      Kept dag t y config before st → visit dag t y config st m = .ok r →
      (r.2 = false → Kept dag t y config (before ++ [m]) r.1) ∧
      (r.2 = true → (∀ m ∈ r.1.valid, Fit dag t y m ∧ dag.mixed.FrontDoor t y {v | v ∈ m}) ∧
        r.1.valid ≠ []) := fun before m after st r heq hk hr => by
    have hm : m ∈ candidates dag t y config := by
      rw [← List.nil_append (candidates dag t y config), heq]
      simp
    have hkept := visit_spec ht hy (fit_of_candidate hm) hk hr
    refine ⟨fun _ => hkept, fun hend => ⟨hkept.sound, fun hnil => ?_⟩⟩
    -- only a set that was just kept ends the search
    unfold visit at hr
    simp only [bind, Except.bind] at hr
    obtain ⟨b, hb, hr⟩ := bind_ok hr
    cases b with
    | true =>
      rw [if_pos rfl] at hr
      split at hr <;> obtain rfl := Except.ok.inj hr <;> simp at hnil
    | false =>
      obtain rfl := Except.ok.inj hr
      cases hend
  obtain ⟨hgo, hend⟩ := visitAll_ok (Kept dag t y config)
    (fun st => (∀ m ∈ st.valid, Fit dag t y m ∧ dag.mixed.FrontDoor t y {v | v ∈ m}) ∧
      st.valid ≠ []) _ [] _ hstart hstop h
  cases hr : r.2 with
  | true => exact ⟨(hend hr).1, fun hnil => absurd hnil (hend hr).2⟩
  | false =>
    have hk := hgo hr
    refine ⟨hk.sound, fun hnil hb S hne hS hf => ?_⟩
    obtain ⟨m, hm, rfl⟩ := candidates_complete ((hk.bounded hnil).symm.trans hb) hne
      fun v hv => ⟨hS v hv, fun e => hf.treatment_apart (e ▸ hv),
        fun e => hf.outcome_apart (e ▸ hv)⟩
    exact hk.none_yet hnil m (by simpa using hm) hf

/-! ## The result -/

def ownGraph (dag : Graph.Dag) : MixedGraph (Fin dag.nodeCount) := dag.mixed.comap Fin.val

def labelOf (dag : Graph.Dag) (i : Fin dag.nodeCount) : Nat :=
  (nodeVariableId dag.nodes i).getD 0

def DistinctLabels (dag : Graph.Dag) : Prop := Function.Injective (labelOf dag)

theorem nodeVariableId_labelOf (i : Fin dag.nodeCount) :
    nodeVariableId dag.nodes i = some (labelOf dag i) := by
  have hlt : i < dag.nodes.length := i.isLt
  have hs := dag.static _ (List.getElem_mem hlt)
  unfold labelOf nodeVariableId
  rw [List.getElem?_eq_getElem hlt]
  show _ = some (Option.getD _ 0)
  cases h : dag.nodes[i.val] with
  | static v => rfl
  | unfolded v o => rfl
  | lagged v l =>
    rw [h] at hs
    cases hs
  | context v e =>
    rw [h] at hs
    cases hs

theorem labelOf_varToDense {id : Nat} (h : varToDense id dag = .ok t) :
    ∃ hlt : t < dag.nodeCount, labelOf dag ⟨t, hlt⟩ = id := by
  have hlt : t < dag.nodeCount := denseOfStatic_lt h
  refine ⟨hlt, ?_⟩
  unfold varToDense denseOfStatic at h
  split at h
  · rename_i i hi
    obtain rfl := Except.ok.inj h
    have hid := List.find?_some hi
    rw [decide_eq_true_eq] at hid
    exact Option.some.inj ((nodeVariableId_labelOf ⟨i, hlt⟩).symm.trans hid)
  · cases h

theorem denseToVar_labelOf (i : Fin dag.nodeCount) : denseToVar i dag = .ok (labelOf dag i) := by
  unfold denseToVar
  rw [nodeVariableId_labelOf]

/-- The variables of a set name its nodes. -/
theorem label_mem_iff (hd : DistinctLabels dag) {vars : List Nat}
    (hm : ∀ v ∈ m, v < dag.nodeCount) (h : m.mapM (denseToVar · dag) = .ok vars)
    (i : Fin dag.nodeCount) : labelOf dag i ∈ vars ↔ i.val ∈ m := by
  rw [mem_mapM h]
  constructor
  · rintro ⟨v, hv, hok⟩
    have hlab := (denseToVar_labelOf ⟨v, hm v hv⟩).symm.trans hok
    obtain rfl := hd (Except.ok.inj hlab)
    exact hv
  · exact fun hi => ⟨i, hi, denseToVar_labelOf i⟩

/-- **What an estimand says** of the effect of `t` on `y`. -/
structure FrontdoorEstimand.Correct (dag : Graph.Dag) (t y : Fin dag.nodeCount)
    (active control : Value) (e : FrontdoorEstimand) : Prop where
  /-- The functional reads the treatment, the mediators and the outcome only. -/
  reads : ∀ side ∈ [e.functional.left, e.functional.right], ∀ leaf ∈ side.distribution.leaves,
    ∀ v ∈ leaf.vars ++ leaf.conditionedOn,
      v = labelOf dag t ∨ v = labelOf dag y ∨ v ∈ e.mediators
  /-- Its value is the difference of the interventional means, in every positive model. -/
  value_eq : ∀ (Ω : Fin dag.nodeCount → Type) [∀ v, Fintype (Ω v)] [∀ v, DecidableEq (Ω v)]
    (M : Model (ownGraph dag) Ω), M.Positive → ∀ (read : ∀ v, Value → Ω v)
    (value : Nat → (∀ v, Ω v) → ℝ) (x : ∀ v, Ω v),
    e.functional.eval (labelOf dag) read M value x =
      interventionalMean (labelOf dag) read M value t y active x -
        interventionalMean (labelOf dag) read M value t y control x

theorem estimand_correct (hd : DistinctLabels dag) {t y : Fin dag.nodeCount}
    (hm : Fit dag t y m) (hf : dag.mixed.FrontDoor t y {v | v ∈ m}) {active control : Value}
    (ha : active ≠ symbolicIntervention) (hc : control ≠ symbolicIntervention)
    {e : FrontdoorEstimand}
    (h : estimand dag (labelOf dag t) (labelOf dag y) (.ok (active, control)) m = .ok e) :
    e.Correct dag t y active control := by
  unfold estimand at h
  simp only [bind, Except.bind] at h
  obtain ⟨vars, hv, h⟩ := bind_ok h
  obtain rfl := Except.ok.inj h
  have hmem := label_mem_iff hd hm.in_graph hv
  refine ⟨fun side hside leaf hleaf v hv => ?_, fun Ω _ _ M hM read value x => ?_⟩
  · simp only [List.mem_cons, List.not_mem_nil, or_false] at hside
    rcases hside with rfl | rfl <;> exact frontdoor_leaves hleaf hv
  · set Ms : Finset (Fin dag.nodeCount) := Finset.univ.filter fun i => i.val ∈ m with hMs
    have himage : Fin.val '' (Ms : Set (Fin dag.nodeCount)) = {v | v ∈ m} := by
      ext v
      constructor
      · rintro ⟨i, hi, rfl⟩
        exact (Finset.mem_filter.mp hi).2
      · exact fun hv => ⟨⟨v, hm.in_graph v hv⟩, by simpa [hMs] using hv, rfl⟩
    have hown : (ownGraph dag).FrontDoor t y Ms :=
      MixedGraph.FrontDoor.comap Fin.val_injective (himage ▸ hf)
    have hac : dag.mixed.Acyclic := dag.valid.acyclic
    exact frontdoorAte_eval (hac.comap Fin.val) hM hd hown
      (fun i => (hmem i).trans (by simp [hMs])) ha hc value x

/-- **Front-door identification is correct.** Every estimand it returns gives the difference of the
interventional means in every positive model of the graph, from the treatment, the mediators and the
outcome alone; and a refusal that is not marked as a bounded search means that no set of other nodes
satisfies the criterion. -/
theorem frontdoor_correct (dag : Graph.Dag) (hd : DistinctLabels dag) (treatment outcome : Nat)
    (config : FrontDoorSearchConfig) (levels : Except IdentificationError (Value × Value)) :
    (∀ estimands bounded n, identifyAte dag treatment outcome config levels =
      .ok (.identified estimands bounded n) → ∃ t y active control,
        labelOf dag t = treatment ∧ labelOf dag y = outcome ∧ levels = .ok (active, control) ∧
        (active ≠ symbolicIntervention → control ≠ symbolicIntervention →
          ∀ e ∈ estimands, e.Correct dag t y active control)) ∧
    ∀ n, identifyAte dag treatment outcome config levels = .ok (.notIdentified false n) →
      ∃ t y : Fin dag.nodeCount, labelOf dag t = treatment ∧ labelOf dag y = outcome ∧
        ∀ S : Set Nat, S.Nonempty → (∀ v ∈ S, v < dag.nodeCount) → ¬ dag.mixed.FrontDoor t y S := by
  have hcases : ∀ r, identifyAte dag treatment outcome config levels = .ok r →
      ∃ (t y : Fin dag.nodeCount) (st : FrontdoorState), labelOf dag t = treatment ∧
        labelOf dag y = outcome ∧
        (∀ m ∈ st.valid, Fit dag t y m ∧ dag.mixed.FrontDoor t y {v | v ∈ m}) ∧
        (st.valid = [] → st.searchBounded = false → ∀ S : Set Nat, S.Nonempty →
          (∀ v ∈ S, v < dag.nodeCount) → ¬ dag.mixed.FrontDoor t y S) ∧
        ((st.valid = [] ∧ r = .notIdentified st.searchBounded st.examined) ∨
          ∃ estimands, st.valid ≠ [] ∧
            st.valid.mapM (estimand dag treatment outcome levels) = .ok estimands ∧
            r = .identified estimands st.searchBounded st.examined) := fun r h => by
    unfold identifyAte at h
    simp only [bind, Except.bind] at h
    obtain ⟨t, ht, h⟩ := bind_ok h
    obtain ⟨y, hy, h⟩ := bind_ok h
    cases hv : visitAll (visit dag t y config) ⟨0, poolBounded dag t y config, []⟩
        (candidates dag t y config) with
    | error e => simp [ht, hy, hv] at h
    | ok s =>
      obtain ⟨htlt, htl⟩ := labelOf_varToDense ht
      obtain ⟨hylt, hyl⟩ := labelOf_varToDense hy
      obtain ⟨hsound, hnone⟩ := search_spec htlt hylt hv
      refine ⟨⟨t, htlt⟩, ⟨y, hylt⟩, s.1, htl, hyl, hsound, hnone, ?_⟩
      simp only [ht, hy, hv] at h
      by_cases hnil : s.1.valid = []
      · rw [if_pos (List.isEmpty_iff.mpr hnil)] at h
        exact .inl ⟨hnil, (Except.ok.inj h).symm⟩
      · rw [if_neg fun hempty => hnil (List.isEmpty_iff.mp hempty)] at h
        obtain ⟨estimands, he, h⟩ := bind_ok h
        exact .inr ⟨estimands, hnil, he, (Except.ok.inj h).symm⟩
  constructor
  · intro estimands bounded n h
    obtain ⟨t, y, st, rfl, rfl, hsound, -, ⟨-, heq⟩ | ⟨es, hne, hes, heq⟩⟩ := hcases _ h
    · cases heq
    · cases heq
      -- the levels were read for the first set
      obtain ⟨active, control, rfl⟩ : ∃ active control, levels = .ok (active, control) := by
        obtain ⟨m, rest, hcons⟩ := List.exists_cons_of_ne_nil hne
        rw [hcons, List.mapM_cons] at hes
        cases levels with
        | ok l => exact ⟨l.1, l.2, rfl⟩
        | error e =>
          unfold estimand at hes
          cases hv : m.mapM (denseToVar · dag) <;> simp [hv, bind, Except.bind] at hes
      refine ⟨t, y, active, control, rfl, rfl, rfl, fun ha hc e he => ?_⟩
      obtain ⟨m, hm, hme⟩ := (mem_mapM hes e).mp he
      exact estimand_correct hd (hsound m hm).1 (hsound m hm).2 ha hc hme
  · intro n h
    obtain ⟨t, y, st, htl, hyl, -, hnone, ⟨hnil, heq⟩ | ⟨es, hne, hes, heq⟩⟩ := hcases _ h
    · have hb : st.searchBounded = false := by
        cases hs : st.searchBounded
        · rfl
        · rw [hs] at heq
          cases heq
      exact ⟨t, y, htl, hyl, hnone hnil hb⟩
    · cases heq

/-- `T → M → Y`: the mediator is found, and its functional is right. -/
theorem frontdoor_correct_chain : ∃ (dag : Graph.Dag) (e : FrontdoorEstimand)
    (t y : Fin dag.nodeCount), ((Graph.Dag.withVariables 3).insertDirected 0 2 >>= fun g =>
      g.insertDirected 2 1) = .ok dag ∧
    identifyAte dag 0 1 ⟨64, 4⟩ (.ok (.bool true, .bool false)) = .ok (.identified [e] false 1) ∧
    e.mediators = [2] ∧ e.Correct dag t y (.bool true) (.bool false) := by
  obtain ⟨dag, hdag, e, hr, hm, hn⟩ : ∃ dag : Graph.Dag,
      ((Graph.Dag.withVariables 3).insertDirected 0 2 >>= fun g => g.insertDirected 2 1) = .ok dag ∧
      ∃ e, identifyAte dag 0 1 ⟨64, 4⟩ (.ok (.bool true, .bool false)) =
        .ok (.identified [e] false 1) ∧ e.mediators = [2] ∧
        dag.nodes = [.static 0, .static 1, .static 2] := ⟨_, rfl, _, rfl, rfl, rfl⟩
  have hd : DistinctLabels dag := fun i j hij => by
    have hlen : dag.nodeCount = 3 := congrArg List.length hn
    have hlabel : ∀ k : Fin dag.nodeCount, labelOf dag k = k := fun k => by
      have hk : k.val < 3 := hlen ▸ k.isLt
      unfold labelOf nodeVariableId
      rw [hn]
      match k.val, hk with
      | 0, _ => rfl
      | 1, _ => rfl
      | 2, _ => rfl
    exact Fin.ext ((hlabel i).symm.trans (hij.trans (hlabel j)))
  obtain ⟨t, y, active, control, -, -, hl, hall⟩ :=
    (frontdoor_correct dag hd 0 1 ⟨64, 4⟩ (.ok (.bool true, .bool false))).1 [e] false 1 hr
  cases hl
  exact ⟨dag, e, t, y, hdag, hr, hm, hall (by decide) (by decide) e List.mem_cons_self⟩

end Antecedent.Identify.Frontdoor
