import Antecedent.Graph.Tiered
import Antecedent.Identify.GeneralQuery
import Antecedent.Identify.JointResponse
import Antecedent.Prob.Adjustment

/-!
# Identification in tiers

Model of `tiered.rs` of the identification crate and of `joint_adjustment_holds`. Without an ADMG the
closure of one treatment is returned unchecked; with one, and for several treatments, it is returned
where it passes the check.

* `adjustsIn_of_tiers`: one that does adjusts, in every positive model of the ADMG.
* **`tierAgreement`**: the two paths agree on the background's own ADMG.
-/

namespace Antecedent.Identify

open Graph
open Mixed
open Prob
open Core (Value)
open GeneralId (AverageEffectQuery)
open Finset (univ)

/-! ## Results -/

/-- `IdentificationStatus`, the three that tiers issue. -/
inductive TieredStatus
  | nonparametricallyIdentified
  | notIdentified
  | graphDependent

/-- What the arena holds for an estimand: the contrast of `backdoor_ate`, or the mean of
`joint_result`. -/
inductive TieredFunctional
  | backdoorAte (treatment outcome : Nat) (set : List Nat) (active control : Value)
  | jointMean (treatments : List Nat) (outcome : Nat) (set : List Nat)

/-- `IdentifiedEstimand::backdoor`. -/
structure TieredEstimand where
  method : String
  adjustmentSet : List Nat
  functional : TieredFunctional

/-- The assumptions of a result. -/
inductive TieredAssumption
  | noLatentToOutcome
  | causalMarkov (algorithm : String)

/-- `IdentificationResult`; a diagnostic is its code and its text. -/
structure TieredResult where
  status : TieredStatus
  estimands : List TieredEstimand
  assumptions : List TieredAssumption
  derivation : List (String × String)
  diagnostics : List (String × String)
  candidatesExamined : Nat
  setsReturned : Nat

def TieredResult.found (r : TieredResult) : TieredResult := { r with derivation := [] }

/-- Lines 311-326. -/
def namedNoLatentAssumption : List TieredAssumption :=
  [.noLatentToOutcome, .causalMarkov "tiered.closure"]

/-- Lines 328-336. -/
def noLatentDiagnostic : String × String :=
  ("tiered.no_latent_to_outcome", "tier-closure identification assumes no latent path to the " ++
    "outcome; attach an E-value on the estimate")

/-- `TIERED_JOINT_ADJUSTMENT_REFUSE`. -/
def tieredJointAdjustmentRefuse : String :=
  "no joint generalized back-door set on the CoDetermined closure ADMG; open back-door or a drawn " ++
    "treatment↔outcome edge"

/-- `TIERED_ADJUSTMENT_REFUSE`. -/
def tieredAdjustmentRefuse : String :=
  "tier closure is not a generalized back-door set on the CoDetermined ADMG; open back-door or a " ++
    "drawn treatment↔outcome edge"

/-- A refused closure: `not_identified` with what the two paths add. -/
def closureRefused (rule code text : String) (examined : Nat) : TieredResult where
  status := .notIdentified
  estimands := []
  assumptions := namedNoLatentAssumption
  derivation := [("generalized.adjustment", text), (rule, text)]
  diagnostics := [noLatentDiagnostic, (code, text)]
  candidatesExamined := examined
  setsReturned := 0

/-! ## The check -/

/-- `joint_adjustment_holds` (`joint_response.rs:293-322`), every edge visible. -/
def jointAdjustmentHolds (graph : Admg) (targets : List Nat) (y : Nat) (z : List Nat) :
    Except IdentificationError Bool :=
  if z.any fun v => v == y || targets.contains v then .ok false
  else if z.any fun v => v ∈ graph.descendantsOf targets then .ok false
  else do
    let backdoorGraphs ← targets.mapM (backdoorGraph graph)
    commonSet targets y z (targets.zip backdoorGraphs)

/-! ## The paths -/

/-- Lines 290-309. -/
def estimandsForSets (query : AverageEffectQuery) (sets : List (List Nat × String)) :
    Except IdentificationError (List TieredEstimand) := do
  let active ← query.active.setValue
  let control ← query.control.setValue
  return sets.map fun (set, method) =>
    ⟨method, set, .backdoorAte query.treatment query.outcome set active control⟩

/-- Lines 222-279. -/
def identifyClosure (bg : TieredBackground) (admg : Option Admg) (query : AverageEffectQuery) :
    Except IdentificationError TieredResult := do
  let set ← (bg.tierClosure query.treatment query.outcome).mapError .graph
  let holds ← match admg with
    | none => .ok true
    | some admg => do
      let t ← denseOfStatic admg.nodes query.treatment
      let y ← denseOfStatic admg.nodes query.outcome
      let z ← set.mapM (denseOfStatic admg.nodes)
      jointAdjustmentHolds admg [t] y z
  if !holds then
    return closureRefused "tiered.closure_admg" "identify.tiered.adjustment" tieredAdjustmentRefuse 0
  else do
    let estimands ← estimandsForSets query [(set, "generalized.adjustment")]
    return {
      status := .nonparametricallyIdentified
      estimands := estimands
      assumptions := namedNoLatentAssumption
      derivation := [("tiered.closure", "O(p) tier-closure |Z|=" ++ toString set.length ++
        (if admg.isSome then " certified as generalized.adjustment by one generalized back-door " ++
          "check on the supplied ADMG"
        else " certified as generalized.adjustment on the background's own closure ADMG"))]
      diagnostics := [noLatentDiagnostic]
      candidatesExamined := 1
      setsReturned := 1 }

/-- Lines 87-117. -/
def identifyTieredUnknown (bg : TieredBackground) (query : AverageEffectQuery) :
    Except IdentificationError TieredResult := do
  let (pre, closure) ← (bg.unknownCanonicalSets query.treatment query.outcome).mapError .graph
  let estimands ← estimandsForSets query
    [(pre, "tiered.unknown.pretreatment"), (closure, "tiered.unknown.closure")]
  return {
    status := .graphDependent
    estimands := estimands
    assumptions := namedNoLatentAssumption
    derivation := [("tiered.unknown.envelope",
      "pretreatment-only and tier-closure estimated as an envelope; never one set")]
    diagnostics := [noLatentDiagnostic, ("tiered.unknown.canonical_scenarios",
      "two declared orientation scenarios only: treatment precedes all same-tier peers, or follows " ++
        "all peers; these are not exhaustive completions or bounds over the unknown graph class")]
    candidatesExamined := 2
    setsReturned := 2 }

/-- Lines 55-63. -/
def identifyTiered (bg : TieredBackground) (query : AverageEffectQuery) :
    Except IdentificationError TieredResult :=
  match bg.withinTier with
  | .coDetermined => identifyClosure bg none query
  | .unknown => identifyTieredUnknown bg query

/-- Lines 76-85. -/
def identifyTieredOn (bg : TieredBackground) (admg : Admg) (query : AverageEffectQuery) :
    Except IdentificationError TieredResult :=
  match bg.withinTier with
  | .coDetermined => identifyClosure bg (some admg) query
  | .unknown => identifyTieredUnknown bg query

/-- The variables of some nodes; an `Admg` has static nodes only. -/
def variablesOf (nodes : List NodeRef) (z : List Nat) : List Nat :=
  z.filterMap fun v => match nodes[v]? with
    | some (NodeRef.static id) => some id
    | _ => none

/-- `identify_joint_closure_on` (`tiered.rs:162-207`) with `joint_result`. -/
def identifyJointClosureOn (bg : TieredBackground) (admg : Admg) (query : ResponseQuery) :
    Except IdentificationError TieredResult := do
  let prepared ← prepareJointResponse admg.nodes query
  let set ← (bg.tierClosureSet prepared.treatments prepared.outcome).mapError .graph
  let z ← set.mapM (denseOfStatic admg.nodes)
  let holds ← jointAdjustmentHolds admg prepared.targets prepared.y z
  if !holds then
    return closureRefused "tiered.joint.closure_admg" "identify.tiered.joint.adjustment"
      tieredJointAdjustmentRefuse prepared.treatments.length
  else
    let adjustment := variablesOf admg.nodes z
    return {
      status := .nonparametricallyIdentified
      estimands := [⟨"backdoor.adjustment", adjustment,
        .jointMean prepared.treatments prepared.outcome adjustment⟩]
      assumptions := namedNoLatentAssumption
      derivation := [
        ("response.joint_adjustment", "certified E[Y|do(X=x)] = sum_z E[Y|X=x,Z=z] P(z) for all " ++
          toString prepared.treatments.length ++ " targets; generalized back-door criterion " ++
          "(Perkovic et al., 2018, Definition 20)"),
        ("tiered.joint.closure", "O(p) treatment-set closure |Z|=" ++ toString set.length ++
          " certified with one m-separation check per treatment; not subset search"),
        ("tiered.joint.closure_admg", "joint ADMG generalized adjustment on the CoDetermined " ++
          "closure (known ancestral ADMG, not a MAG Markov equivalence class)")]
      diagnostics := [noLatentDiagnostic]
      candidatesExamined := prepared.treatments.length
      setsReturned := 1 }

def tieredJointUnknownRefuse : String :=
  "Unknown-tier joint InterventionResponse has no single ADMG; two canonical scenarios are not a " ++
    "cell-AIPW license"

/-- Lines 151-160. -/
def identifyTieredJointOn (bg : TieredBackground) (admg : Admg) (query : ResponseQuery) :
    Except IdentificationError TieredResult :=
  match bg.withinTier with
  | .unknown => .error (.unsupportedQuery tieredJointUnknownRefuse)
  | .coDetermined => identifyJointClosureOn bg admg query

/-- Lines 132-144. -/
def identifyTieredJoint (bg : TieredBackground) (schema : CausalSchema) (query : ResponseQuery) :
    Except IdentificationError TieredResult :=
  match bg.withinTier with
  | .unknown => .error (.unsupportedQuery tieredJointUnknownRefuse)
  | .coDetermined => do
    let admg ← (bg.toAdmg schema).mapError .graph
    identifyJointClosureOn bg admg query

/-! ## The check on the background's own ADMG -/

section Own

variable {bg : TieredBackground} {schema : CausalSchema} {g : Admg} {treatments z : List Nat}
  {outcome t y : Nat}

theorem denseOfStatic_positional {n id : Nat} (h : id < n) :
    denseOfStatic ((List.range n).map NodeRef.static) id = .ok id := by
  have hlabel : ∀ i < n, nodeVariableId ((List.range n).map NodeRef.static) i = some i := by
    intro i hi
    have hnode : ((List.range n).map NodeRef.static)[i]? = some (.static i) := by
      rw [List.getElem?_map, List.getElem?_range hi, Option.map_some]
    unfold nodeVariableId
    rw [hnode]
  have hfind : (List.range n).find?
      (fun i => nodeVariableId ((List.range n).map NodeRef.static) i = some id) = some id := by
    refine List.find?_range_eq_some.mpr ⟨decide_eq_true (hlabel id h), List.mem_range.mpr h,
      fun j hj => ?_⟩
    rw [hlabel j (hj.trans h), Bool.not_eq_true', decide_eq_false_iff_not]
    exact fun e => hj.ne (Option.some.inj e)
  unfold denseOfStatic
  rw [List.length_map, List.length_range, hfind]

theorem mapM_positional {n : Nat} : ∀ {ids : List Nat}, (∀ id ∈ ids, id < n) →
    ids.mapM (denseOfStatic ((List.range n).map NodeRef.static)) = .ok ids
  | [], _ => rfl
  | id :: ids, h => by
    obtain ⟨hid, hids⟩ := List.forall_mem_cons.mp h
    rw [List.mapM_cons, denseOfStatic_positional hid, mapM_positional hids]
    rfl

/-- What a closure holds. -/
structure Closure (bg : TieredBackground) (treatments z : List Nat) (outcome : Nat) : Prop where
  later : bg.Later treatments outcome
  mem : ∀ v, v ∈ z ↔
    v ∈ bg.tiers.flatten ∧ v ∉ treatments ∧ ∃ t ∈ treatments, bg.rank v ≤ bg.rank t

theorem closure_of (h : bg.tierClosureSet treatments outcome = .ok z) :
    Closure bg treatments z outcome := by
  have hlater := TieredBackground.tierClosureSet_of h
  obtain ⟨w, hw, hmem⟩ := TieredBackground.tierClosureSet_ok hlater
  obtain rfl := Except.ok.inj (hw.symm.trans h)
  exact ⟨hlater, hmem⟩

/-- A variable outside the set, after the earliest treatment and not after the latest. -/
def Between (bg : TieredBackground) (treatments : List Nat) (v : Nat) : Prop :=
  v ∈ bg.tiers.flatten ∧ v ∉ treatments ∧ (∃ t ∈ treatments, bg.rank t < bg.rank v) ∧
    ∃ t ∈ treatments, bg.rank v ≤ bg.rank t

namespace Closure

variable (h : Closure bg treatments z outcome)

include h

theorem outcome_apart : outcome ∉ z := fun hz => by
  obtain ⟨-, -, t, ht, hle⟩ := (h.mem outcome).mp hz
  exact (h.later.later t ht).not_ge hle

theorem apart (ht : t ∈ treatments) : t ∉ z := fun hz => ((h.mem t).mp hz).2.1 ht

theorem low (ht : t ∈ treatments) (v : Nat) (hv : bg.rank v ≤ bg.rank t) :
    v ∈ z ∨ v ∈ treatments := by
  by_cases hvt : v ∈ treatments
  · exact Or.inr hvt
  · have hd : v ∈ bg.tiers.flatten := TieredBackground.rank_lt_iff.mp
      (hv.trans_lt (TieredBackground.rank_lt_iff.mpr (h.later.declared t ht)))
    exact Or.inl ((h.mem v).mpr ⟨hd, hvt, t, ht, hv⟩)

variable (hd : bg.Drawn schema g)

include hd

/-- **What of a closure is below a treatment** lies between the treatments. -/
theorem below_iff : (∃ v ∈ z, ∃ t ∈ treatments, g.mixed.Anc t v) ↔ ∃ v, Between bg treatments v := by
  constructor
  · rintro ⟨v, hv, t, ht, hanc⟩
    obtain ⟨hdecl, hvt, hle⟩ := (h.mem v).mp hv
    refine ⟨v, hdecl, hvt, ⟨t, ht, ?_⟩, hle⟩
    rcases Relation.ReflTransGen.cases_head hanc with rfl | ⟨w, htw, hwv⟩
    · exact absurd ht hvt
    · exact (hd.tiered.dir _ _ htw).trans_le (hd.tiered.anc_tier_le hwv)
  · rintro ⟨v, hdecl, hvt, ⟨t, ht, hlt⟩, hle⟩
    exact ⟨v, (h.mem v).mpr ⟨hdecl, hvt, hle⟩, t, ht, Relation.ReflTransGen.single
      ((hd.dir t v).mpr ⟨h.later.declared t ht, hdecl, hlt⟩)⟩

theorem separates (ht : t ∈ treatments) : (g.mixed.mutilate ∅ {t}).MSeparated {t} {outcome}
      ({v | v ∈ z} ∪ otherTargets treatments t) := by
  refine hd.tiered.mSeparated rfl ?_ (fun v hv => ?_) ?_ (h.later.later t ht)
  · rintro (hz | ⟨-, hne⟩)
    · exact h.apart ht hz
    · exact hne rfl
  · by_cases hvt : v = t
    · exact Or.inr hvt
    · exact Or.inl ((h.low ht v hv).imp id fun hmem => ⟨hmem, hvt⟩)
  · rintro (hz | ⟨hy, -⟩)
    · exact h.outcome_apart hz
    · exact h.later.apart hy

/-- **On the background's own ADMG a closure passes** iff nothing lies between the treatments. -/
theorem jointAdjustmentHolds_iff (hvars : ∀ v ∈ bg.tiers.flatten, v < schema.len) :
    ∃ b, jointAdjustmentHolds g treatments outcome z = .ok b ∧
      (b = true ↔ ¬ ∃ v, Between bg treatments v) := by
  have hcount : g.nodeCount = schema.len := by
    show g.nodes.length = schema.len
    rw [hd.nodes, List.length_map, List.length_range]
  have htlt : ∀ t ∈ treatments, t < g.nodeCount := fun t ht =>
    hcount.symm ▸ hvars t (h.later.declared t ht)
  have hroles : (z.any fun v => v == outcome || treatments.contains v) = false := by
    refine List.any_eq_false.mpr fun v hv hor => ?_
    rcases Bool.or_eq_true_iff.mp hor with he | hc
    · exact h.outcome_apart (eq_of_beq he ▸ hv)
    · exact h.apart (List.contains_iff_mem.mp hc) hv
  have hdown : (z.any fun v => v ∈ g.descendantsOf treatments) = true ↔
      ∃ v, Between bg treatments v := by
    rw [← h.below_iff hd]
    simp only [List.any_eq_true, decide_eq_true_eq, mem_descendantsOf htlt]
  unfold jointAdjustmentHolds
  rw [hroles, if_neg Bool.false_ne_true]
  by_cases hb : ∃ v, Between bg treatments v
  · rw [if_pos (hdown.mpr hb)]
    exact ⟨false, rfl, by simpa using hb⟩
  · rw [if_neg (fun hany => hb (hdown.mp hany))]
    obtain ⟨graphs, b, hgraphs, hcommon, hiff⟩ := @commonSet_spec g treatments outcome z
      (hcount.symm ▸ hvars _ h.later.outcome_mem) h.later.apart htlt
      (fun v hv => hcount.symm ▸ hvars v ((h.mem v).mp hv).1) h.outcome_apart
      (fun t ht => h.apart ht) _ (List.Subset.refl treatments)
    refine ⟨b, ?_, iff_of_true (hiff.mpr fun t ht => h.separates hd ht) hb⟩
    rw [hgraphs]
    exact hcommon

theorem jointBackdoor (hb : ¬ ∃ v, Between bg treatments v) :
    JointBackdoor g.mixed {t | t ∈ treatments} outcome {v | v ∈ z} where
  treatments_apart t ht := ⟨fun e => h.later.apart (e ▸ ht), h.apart ht⟩
  outcome_apart := h.outcome_apart
  not_below t ht v hv hanc := hb ((h.below_iff hd).mp ⟨v, hv, t, ht, hanc⟩)
  closed := by
    refine (closed_iff_pairs (G := g.mixed) (T := {t | t ∈ treatments}) (Z := {v | v ∈ z})
      (y := outcome) (fun _ ht => h.apart ht) h.outcome_apart).mpr fun t ht => ?_
    exact hd.tiered.mSeparated (T := {t | t ∈ treatments}) (Z := {v | v ∈ z}) ht (h.apart ht)
      (h.low ht) h.outcome_apart (h.later.later t ht)

end Closure

/-- Adjusting for `z` gives the law of `y` with `treatments` set, in every positive model of the
graph. -/
def AdjustsIn (g : Admg) (treatments : List Nat) (y : Nat) (z : List Nat) : Prop :=
  ∃ hy : y < g.nodeCount, ∀ (Ω : Fin g.nodeCount → Type) [∀ v, Fintype (Ω v)]
    [∀ v, DecidableEq (Ω v)] (M : Model (g.mixed.comap Fin.val) Ω), M.Positive →
    M.kernel {⟨y, hy⟩} (univ.filter fun i => i.val ∈ treatments) ∅ =
      marg (univ.filter fun i => i.val ∈ z) fun x =>
        M.kernel {⟨y, hy⟩} ∅
            ((univ.filter fun i => i.val ∈ treatments) ∪ univ.filter fun i => i.val ∈ z) x *
          M.kernel (univ.filter fun i => i.val ∈ z) ∅ ∅ x

/-- **The joint back-door criterion adjusts**, over the nodes of an ADMG. -/
theorem adjustsIn_of_joint (hy : y < g.nodeCount) (ht : ∀ t ∈ treatments, t < g.nodeCount)
    (hz : ∀ v ∈ z, v < g.nodeCount)
    (h : JointBackdoor g.mixed {t | t ∈ treatments} y {v | v ∈ z}) : AdjustsIn g treatments y z := by
  refine ⟨hy, fun Ω _ _ M hM => Model.adjustment (g.acyclic.comap Fin.val) hM ?_⟩
  have himage : ∀ l : List Nat, (∀ v ∈ l, v < g.nodeCount) →
      Fin.val '' ((univ.filter fun i => i.val ∈ l : Finset (Fin g.nodeCount)) :
        Set (Fin g.nodeCount)) = {v | v ∈ l} := by
    intro l hl
    ext p
    constructor
    · rintro ⟨i, hi, rfl⟩
      simpa using hi
    · exact fun hp => ⟨⟨p, hl p hp⟩, by simpa using hp, rfl⟩
  exact JointBackdoor.comap Fin.val_injective ((himage _ ht).symm ▸ (himage _ hz).symm ▸ h)

end Own

/-! ## The two paths -/

/-- **The shortcut agrees with the checked path** on the ADMG of a co-determined background. -/
structure TierAgreement (bg : TieredBackground) (schema : CausalSchema) (admg : Admg) : Prop where
  /-- The closure of one treatment passes the check. -/
  checked : ∀ t y, bg.Later [t] y → ∃ z, bg.tierClosure t y = .ok z ∧
    jointAdjustmentHolds admg [t] y z = .ok true
  /-- Both paths answer alike, refusals of the query included. -/
  same : ∀ query, (identifyTieredOn bg admg query).map TieredResult.found =
    (identifyTiered bg query).map TieredResult.found
  /-- What they identify is the closure. -/
  identified : ∀ query active control, bg.Later [query.treatment] query.outcome →
    query.active.setValue = .ok active → query.control.setValue = .ok control →
    ∃ z r, bg.tierClosure query.treatment query.outcome = .ok z ∧
      identifyTieredOn bg admg query = .ok r ∧ r.status = .nonparametricallyIdentified ∧
      r.estimands = [⟨"generalized.adjustment", z,
        .backdoorAte query.treatment query.outcome z active control⟩]
  /-- A joint closure is accepted iff nothing else lies between the treatments. -/
  accepts : ∀ treatments y z, bg.tierClosureSet treatments y = .ok z →
    ∃ b, jointAdjustmentHolds admg treatments y z = .ok b ∧
      (b = true ↔ ¬ ∃ v, Between bg treatments v)
  /-- The joint path answers so. -/
  joint : ∀ response prepared z, prepareJointResponse admg.nodes response = .ok prepared →
    bg.tierClosureSet prepared.treatments prepared.outcome = .ok z →
    ∃ r, identifyTieredJoint bg schema response = .ok r ∧
      identifyTieredJointOn bg admg response = .ok r ∧
      ((∃ v, Between bg prepared.treatments v) → r.status = .notIdentified ∧ r.estimands = []) ∧
      ((¬ ∃ v, Between bg prepared.treatments v) → r.status = .nonparametricallyIdentified ∧
        r.estimands = [⟨"backdoor.adjustment", z,
          .jointMean prepared.treatments prepared.outcome z⟩])
  /-- Whatever is accepted adjusts. -/
  adjusts : ∀ treatments y z, bg.tierClosureSet treatments y = .ok z →
    jointAdjustmentHolds admg treatments y z = .ok true → AdjustsIn admg treatments y z

section Agreement

variable {bg : TieredBackground} {schema : CausalSchema} {g : Admg} {query : AverageEffectQuery}
  {z : List Nat}

theorem variablesOf_positional {n : Nat} : ∀ {ids : List Nat}, (∀ id ∈ ids, id < n) →
    variablesOf ((List.range n).map NodeRef.static) ids = ids
  | [], _ => rfl
  | id :: ids, h => by
    obtain ⟨hid, hids⟩ := List.forall_mem_cons.mp h
    have hnode : ((List.range n).map NodeRef.static)[id]? = some (.static id) := by
      rw [List.getElem?_map, List.getElem?_range hid, Option.map_some]
    have ih := variablesOf_positional hids
    unfold variablesOf at ih ⊢
    rw [List.filterMap_cons, hnode]
    exact congrArg (id :: ·) ih

theorem Closure.lt {treatments : List Nat} {outcome : Nat} (h : Closure bg treatments z outcome)
    (hvars : ∀ v ∈ bg.tiers.flatten, v < schema.len) : ∀ v ∈ z, v < schema.len := fun v hv =>
  hvars v ((h.mem v).mp hv).1

theorem not_between_single {t : Nat} : ¬ ∃ v, Between bg [t] v := by
  rintro ⟨v, -, -, ⟨t₁, h₁, hlt⟩, t₂, h₂, hle⟩
  obtain rfl := List.mem_singleton.mp h₁
  obtain rfl := List.mem_singleton.mp h₂
  exact hlt.not_ge hle

section

variable (hd : bg.Drawn schema g) (hvars : ∀ v ∈ bg.tiers.flatten, v < schema.len)

include hd hvars

/-- **The check on the background's own ADMG passes**, so it changes nothing. -/
theorem identifyClosure_own : (identifyClosure bg (some g) query).map TieredResult.found =
      (identifyClosure bg none query).map TieredResult.found := by
  unfold identifyClosure
  cases hz : bg.tierClosure query.treatment query.outcome with
  | error e => rfl
  | ok z =>
    have hc : Closure bg [query.treatment] z query.outcome := closure_of hz
    obtain ⟨b, hb, hiff⟩ := hc.jointAdjustmentHolds_iff hd hvars
    obtain rfl := hiff.mpr not_between_single
    have ht := denseOfStatic_positional (hvars _ (hc.later.declared _ (.head _)))
    have hy := denseOfStatic_positional (hvars _ hc.later.outcome_mem)
    simp only [Except.mapError, bind, Except.bind, hd.nodes, ht, hy,
      mapM_positional (hc.lt hvars), hb]
    cases estimandsForSets query [(z, "generalized.adjustment")] <;> rfl

theorem identifyClosure_identified {active control : Value}
    (hz : bg.tierClosure query.treatment query.outcome = .ok z)
    (ha : query.active.setValue = .ok active) (hc : query.control.setValue = .ok control) :
    ∃ r, identifyClosure bg (some g) query = .ok r ∧ r.status = .nonparametricallyIdentified ∧
      r.estimands = [⟨"generalized.adjustment", z,
        .backdoorAte query.treatment query.outcome z active control⟩] := by
  have hcl : Closure bg [query.treatment] z query.outcome := closure_of hz
  obtain ⟨b, hb, hiff⟩ := hcl.jointAdjustmentHolds_iff hd hvars
  obtain rfl := hiff.mpr not_between_single
  have ht := denseOfStatic_positional (hvars _ (hcl.later.declared _ (.head _)))
  have hy := denseOfStatic_positional (hvars _ hcl.later.outcome_mem)
  unfold identifyClosure estimandsForSets
  simp only [hz, Except.mapError, bind, Except.bind, hd.nodes, ht, hy,
    mapM_positional (hcl.lt hvars), hb, ha, hc]
  exact ⟨_, rfl, rfl, rfl⟩

/-- **The joint path accepts** iff nothing else lies between the treatments. -/
theorem identifyJointClosureOn_own {response : ResponseQuery} {prepared : PreparedJointResponse}
    (hp : prepareJointResponse g.nodes response = .ok prepared)
    (hz : bg.tierClosureSet prepared.treatments prepared.outcome = .ok z) :
    ∃ r, identifyJointClosureOn bg g response = .ok r ∧
      ((∃ v, Between bg prepared.treatments v) → r.status = .notIdentified ∧ r.estimands = []) ∧
      ((¬ ∃ v, Between bg prepared.treatments v) → r.status = .nonparametricallyIdentified ∧
        r.estimands = [⟨"backdoor.adjustment", z,
          .jointMean prepared.treatments prepared.outcome z⟩]) := by
  have hcl := closure_of hz
  obtain ⟨htargets, hy⟩ := prepareJointResponse_resolved hp
  have hnodes := hd.nodes
  rw [hnodes, mapM_positional fun t ht => hvars t (hcl.later.declared t ht)] at htargets
  rw [hnodes, denseOfStatic_positional (hvars _ hcl.later.outcome_mem)] at hy
  obtain ⟨b, hb, hiff⟩ := hcl.jointAdjustmentHolds_iff hd hvars
  unfold identifyJointClosureOn
  rw [hp]
  simp only [bind, Except.bind, hz, Except.mapError, hnodes, mapM_positional (hcl.lt hvars),
    ← Except.ok.inj htargets, ← Except.ok.inj hy, hb]
  cases b with
  | false =>
    have hbetween := not_not.mp fun h => Bool.false_ne_true (hiff.mpr h)
    exact ⟨_, rfl, fun _ => ⟨rfl, rfl⟩, fun h => absurd hbetween h⟩
  | true =>
    refine ⟨_, rfl, fun h => absurd h (hiff.mp rfl), fun _ => ⟨rfl, ?_⟩⟩
    rw [variablesOf_positional (hcl.lt hvars)]

end

/-- **The shortcut agrees with the checked path**: the unchecked closure of one treatment passes the
check on the background's own ADMG, a joint closure is accepted iff no other variable lies after the
earliest treatment and not after the latest, and what is accepted adjusts in every positive model. -/
theorem tierAgreement (hco : bg.withinTier = .coDetermined)
    (hvars : ∀ v ∈ bg.tiers.flatten, v < schema.len) :
    ∃ admg, bg.toAdmg schema = .ok admg ∧ TierAgreement bg schema admg := by
  obtain ⟨g, hg, hd⟩ := TieredBackground.toAdmg_ok hco hvars
  have hcount : g.nodeCount = schema.len := by
    show g.nodes.length = schema.len
    rw [hd.nodes, List.length_map, List.length_range]
  refine ⟨g, hg, ?_, fun query => ?_, fun query active control hl ha hc => ?_, fun ts y z hz => ?_,
    fun response prepared z hp hz => ?_, fun ts y z hz hb => ?_⟩
  · intro t y hl
    obtain ⟨z, hz, -⟩ := TieredBackground.tierClosureSet_ok hl
    obtain ⟨b, hb, hiff⟩ := (closure_of hz).jointAdjustmentHolds_iff hd hvars
    exact ⟨z, hz, hiff.mpr not_between_single ▸ hb⟩
  · unfold identifyTieredOn identifyTiered
    rw [hco]
    exact identifyClosure_own hd hvars
  · obtain ⟨z, hz, -⟩ := TieredBackground.tierClosureSet_ok hl
    obtain ⟨r, hr, hr'⟩ := identifyClosure_identified hd hvars hz ha hc
    refine ⟨z, r, hz, ?_, hr'⟩
    unfold identifyTieredOn
    rw [hco]
    exact hr
  · exact (closure_of hz).jointAdjustmentHolds_iff hd hvars
  · obtain ⟨r, hr, hr'⟩ := identifyJointClosureOn_own hd hvars hp hz
    refine ⟨r, ?_, ?_, hr'⟩
    · unfold identifyTieredJoint
      rw [hco, hg]
      exact hr
    · unfold identifyTieredJointOn
      rw [hco]
      exact hr
  · have hcl := closure_of hz
    obtain ⟨b, hb', hiff⟩ := hcl.jointAdjustmentHolds_iff hd hvars
    obtain rfl := Except.ok.inj (hb'.symm.trans hb)
    exact adjustsIn_of_joint (hcount.symm ▸ hvars _ hcl.later.outcome_mem)
      (fun t ht => hcount.symm ▸ hvars t (hcl.later.declared t ht))
      (fun v hv => hcount.symm ▸ hcl.lt hvars v hv) (hcl.jointBackdoor hd (hiff.mp rfl))

end Agreement

/-- Two treatments that share their tier with a third variable: their joint closure is accepted. -/
theorem tierAgreement_sameTier : ∃ bg admg, TieredBackground.new [[0], [1, 2, 3], [4]] .coDetermined =
      .ok bg ∧ bg.toAdmg ⟨5, by decide⟩ = .ok admg ∧ TierAgreement bg ⟨5, by decide⟩ admg ∧
    bg.tierClosureSet [1, 2] 4 = .ok [0, 3] := by
  obtain ⟨bg, hbg, hco, htiers, hz⟩ : ∃ bg, TieredBackground.new [[0], [1, 2, 3], [4]] .coDetermined =
      .ok bg ∧ bg.withinTier = .coDetermined ∧ bg.tiers = [[0], [1, 2, 3], [4]] ∧
      bg.tierClosureSet [1, 2] 4 = .ok [0, 3] := ⟨_, rfl, rfl, rfl, rfl⟩
  obtain ⟨admg, hadmg, h⟩ := @tierAgreement bg ⟨5, by decide⟩ hco (by
    rw [htiers]
    decide)
  exact ⟨bg, admg, hbg, hadmg, h, hz⟩

end Antecedent.Identify
