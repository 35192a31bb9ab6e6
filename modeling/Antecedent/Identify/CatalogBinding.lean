import Antecedent.Expr.Arena
import Mathlib.Data.List.MinMax
import Mathlib.Data.Prod.Lex

/-!
# Binding a factor to the evidence catalog

Model of `bind_leaf` and what it calls (`sid/z_transport/search.rs:237-429`). A factor is a `Leaf` of
an expression. A message carries the values the source formats into it.

A *world* of a factor gives each of its symbolic coordinates a level. A coordinate the request binds
takes the levels that the catalog supplies, any other the levels its population declares.

* `preferredRegime_eq`: over regimes with distinct ids the choice depends on the set of them only.
* `bindLeaf_ok`: a factor binds exactly when a family regime supplies it, or it has a level at each
  coordinate and every world over the levels of each coordinate apart is supplied.
* `bindLeaf_supplied`: that is, when it is supplied at each world the catalog names jointly and the
  jointly supplied levels are a grid.
* `bindLeaf_names`: what a bound factor reads.
-/

namespace Antecedent.Identify.Binding

open Core
open Expr

/-! ## Levels -/

/-- Equality of doubles: the zeros are equal and NaN is not itself. -/
def sameLevel : F64 → F64 → Bool
  | .nan, _ => false
  | .negZero, .finite w => w = 0
  | .finite v, .negZero => v = 0
  | a, b => a = b

/-- The order of `f64::total_cmp`: a rank, then the value. -/
def levelKey : F64 → Int ×ₗ Rat ×ₗ Bool
  | .infinite true => toLex (-1, toLex (0, false))
  | .negZero => toLex (0, toLex (0, false))
  | .finite v => toLex (0, toLex (v, true))
  | .infinite false => toLex (1, toLex (0, false))
  | .nan => toLex (2, toLex (0, false))

theorem levelKey_injective : Function.Injective levelKey := by
  intro a b h
  rcases a with v | _ | (_ | _) | _ <;> rcases b with w | _ | (_ | _) | _ <;>
    simp_all [levelKey]

/-- `sort_by(f64::total_cmp)`. -/
def sortLevels (ls : List F64) : List F64 := ls.insertionSort fun a b => levelKey a ≤ levelKey b

/-- `Vec::dedup`: the first of each run of equal levels. -/
def dedupFrom (last : F64) : List F64 → List F64
  | [] => []
  | l :: ls => if sameLevel last l then dedupFrom last ls else l :: dedupFrom l ls

/-- `sort_by(f64::total_cmp)`, then `dedup`. -/
def distinctLevels (ls : List F64) : List F64 :=
  match sortLevels ls with
  | [] => []
  | l :: ls => l :: dedupFrom l ls

variable {ls ls' : List F64} {var : Nat} {r : EvidenceRegime} {l : F64}

/-- Same order of `l` and `l'` on every list: equal permutations sort to one list. -/
theorem sortLevels_perm (h : ls.Perm ls') : sortLevels ls = sortLevels ls' := by
  have hsorted : ∀ l : List F64, (sortLevels l).Pairwise fun a b => levelKey a ≤ levelKey b := fun l =>
    List.pairwise_insertionSort _ l
  refine List.Perm.eq_of_pairwise (fun a b _ _ hab hba => levelKey_injective (le_antisymm hab hba))
    (hsorted ls) (hsorted ls') ?_
  exact (List.perm_insertionSort _ ls).trans (h.trans (List.perm_insertionSort _ ls').symm)

theorem distinctLevels_perm (h : ls.Perm ls') :
    distinctLevels ls = distinctLevels ls' := by
  unfold distinctLevels
  rw [sortLevels_perm h]

/-! ## The model -/

/-- The values in the message of a refusal for missing evidence. -/
inductive Missing
  | factor (population : String) (interventions : List InterventionAssignment)
  | domain (population : String) (var : Nat)
  | world (population : String) (interventions : List InterventionAssignment) (world : List F64)
  deriving DecidableEq

/-- `IdentificationError`, the variants the binding returns. -/
inductive BindError
  | missingEvidence (code : String) (detail : Missing)
  | invariantViolated (message : String)
  deriving DecidableEq

def missingEvidence (detail : Missing) : BindError :=
  .missingEvidence "z_transport.missing_evidence" detail

/-- `preferred_regime` (`search.rs:245-251`). -/
def preferenceKey (r : EvidenceRegime) : Bool ×ₗ Nat :=
  toLex (!r.interventionValues.isEmpty, r.id)

def preferredRegime (candidates : List EvidenceRegime) : Option EvidenceRegime :=
  candidates.argmin preferenceKey

/-- Lines 254-269. -/
inductive LeafBinding
  | single (regime : Nat)
  | perWorld (regimes : List Nat)

def LeafBinding.regimes : LeafBinding → List Nat
  | .single regime => [regime]
  | .perWorld regimes => regimes

/-- `transport_catalog.rs:365-369`. -/
def suppliesPopulationLaw (r : EvidenceRegime) : Bool :=
  r.evidenceKind.canSatisfyFactor ∧ r.origin = .measured ∧ r.selection = .population

/-- Lines 683-686. -/
def sameVariableSet (left right : List Nat) : Bool := left.toFinset = right.toFinset

/-- Lines 276-301. -/
def regimeMatchesWorld (r : EvidenceRegime) (interventions : List InterventionAssignment) : Bool :=
  r.kind = (if interventions.isEmpty then .observational else .experimental) ∧
  sameVariableSet r.interventions (interventions.map (·.var)) ∧
  (r.interventionValues.isEmpty ∨ (r.interventionValues.length = interventions.length ∧
    interventions.all fun expected => isSymbolic expected ∨
      r.interventionValues.any fun actual => actual = expected))

/-- Lines 304-313. -/
def regimeSuppliesMargin (c : EvidenceCatalog) (r : EvidenceRegime) (needed : List Nat) : Bool :=
  r.distribution = .joint ∧ r.conditionedOn = [] ∧ (needed.all fun v => v ∈ r.measured) ∧
  c.bindings.any fun b => b.regime = r.id

/-- Lines 317-334. -/
def declaredLevels (c : EvidenceCatalog) (population : String) (var : Nat) : Option (List F64) := do
  let environment ← c.environments.find? (·.identity = population)
  let coordinate ← environment.coordinates.find? (·.var = var)
  match coordinate.domain with
  | .binary => some [.finite 0, .finite 1]
  | .categorical cardinality => some ((List.range cardinality).map fun n : Nat => .finite n)
  | _ => none

/-- The candidates of `bind_leaf` (`search.rs:357-366`). -/
def candidates (c : EvidenceCatalog) (population : String)
    (interventions : List InterventionAssignment) (needed : List Nat) : List EvidenceRegime :=
  c.regimes.filter fun r => r.population = population ∧ suppliesPopulationLaw r ∧
    regimeMatchesWorld r interventions ∧ regimeSuppliesMargin c r needed

/-- The regime declares `level` at `var`. -/
def hasLevel (r : EvidenceRegime) (var : Nat) (level : F64) : Bool :=
  r.interventionValues.any fun a => a.var = var ∧ a.value.asF64.any (sameLevel · level)

/-- The levels a regime declares at `var`. -/
def levelsAt (var : Nat) (r : EvidenceRegime) : List F64 :=
  (r.interventionValues.filter (·.var = var)).filterMap (·.value.asF64)

/-- The levels of one symbolic coordinate (`search.rs:380-404`). -/
def coordinateLevels (c : EvidenceCatalog) (population : String)
    (interventions : List InterventionAssignment) (sources : List EvidenceRegime)
    (requestBound : List Nat) (a : InterventionAssignment) : Except BindError (List F64) :=
  if a.var ∈ requestBound then
    match distinctLevels (sources.flatMap (levelsAt a.var)) with
    | [] => .error (missingEvidence (.factor population interventions))
    | ls => .ok ls
  else match declaredLevels c population a.var with
    | none => .error (missingEvidence (.domain population a.var))
    | some ls => .ok ls

/-- The worlds, extended by each coordinate in turn (`search.rs:378-414`). -/
def extendWorlds (levels : InterventionAssignment → Except BindError (List F64)) :
    List InterventionAssignment → List (List F64) → Except BindError (List (List F64))
  | [], worlds => .ok worlds
  | a :: as, worlds => do
    let ls ← levels a
    extendWorlds levels as (worlds.flatMap fun before => ls.map fun l => before ++ [l])

/-- The regime supplies the world (`search.rs:417-423`). -/
def suppliesWorld (symbolic : List InterventionAssignment) (world : List F64)
    (r : EvidenceRegime) : Bool :=
  (symbolic.zip world).all fun (a, level) => hasLevel r a.var level

/-- Lines 343-429. -/
def bindLeaf (c : EvidenceCatalog) (population : String)
    (interventions : List InterventionAssignment) (needed requestBound : List Nat) :
    Except BindError LeafBinding :=
  let sources := candidates c population interventions needed
  let symbolic := interventions.filter isSymbolic
  let missing := missingEvidence (.factor population interventions)
  if symbolic.isEmpty then
    match preferredRegime sources with
    | some r => .ok (.single r.id)
    | none => .error missing
  else match (preferredRegime sources).filter (·.interventionValues.isEmpty) with
    | some family => .ok (.single family.id)
    | none => do
      let worlds ← extendWorlds
        (coordinateLevels c population interventions sources requestBound) symbolic [[]]
      let regimes ← worlds.mapM fun world =>
        match preferredRegime (sources.filter (suppliesWorld symbolic world)) with
        | some r => .ok r.id
        | none => .error (missingEvidence (.world population interventions world))
      .ok (.perWorld regimes)

/-- `bind_leaf` at a factor (`search.rs:443-461`). -/
def bindFactor (c : EvidenceCatalog) (requestBound : List Nat) (leaf : Leaf) :
    Except BindError LeafBinding :=
  bindLeaf c leaf.population leaf.intervention (leaf.vars ++ leaf.conditionedOn) requestBound

/-! ## The choice among regimes -/

def IdsDistinct (l : List EvidenceRegime) : Prop := ∀ r ∈ l, ∀ s ∈ l, r.id = s.id → r = s

section Preferred

variable {l l' : List EvidenceRegime} {r s : EvidenceRegime}

theorem preferredRegime_mem (h : preferredRegime l = some r) : r ∈ l := List.argmin_mem h

theorem preferredRegime_ne_nil (h : s ∈ l) : ∃ r, preferredRegime l = some r := by
  refine Option.ne_none_iff_exists'.mp fun hn => ?_
  obtain rfl := List.argmin_eq_none.mp hn
  exact absurd h List.not_mem_nil

variable (hids : IdsDistinct l)

include hids

/-- **The choice** is the least regime by preference, whatever the order of the list. -/
theorem preferredRegime_eq :
    preferredRegime l = some r ↔ r ∈ l ∧ ∀ s ∈ l, preferenceKey r ≤ preferenceKey s := by
  constructor
  · exact fun h => ⟨preferredRegime_mem h, fun s hs => List.le_of_mem_argmin hs h⟩
  · rintro ⟨hr, hle⟩
    obtain ⟨s, hs⟩ := preferredRegime_ne_nil hr
    have hkey : preferenceKey r = preferenceKey s :=
      le_antisymm (hle s (preferredRegime_mem hs)) (List.le_of_mem_argmin hr hs)
    obtain rfl := hids r hr s (preferredRegime_mem hs) (Prod.ext_iff.mp (toLex.injective hkey)).2
    exact hs

theorem preferredRegime_congr (h : ∀ r, r ∈ l ↔ r ∈ l') : preferredRegime l = preferredRegime l' := by
  have hids' : IdsDistinct l' := fun r hr s hs => hids r ((h r).mpr hr) s ((h s).mpr hs)
  refine Option.ext fun r => ?_
  rw [preferredRegime_eq hids, preferredRegime_eq hids', h r]
  exact and_congr_right fun _ => forall_congr' fun s => by rw [h s]

theorem preferredRegime_family (h : preferredRegime l = some r) (hs : s ∈ l)
    (hfamily : s.interventionValues = []) : r.interventionValues = [] := by
  have hle := ((preferredRegime_eq hids).mp h).2 s hs
  unfold preferenceKey at hle
  rw [Prod.Lex.toLex_le_toLex, hfamily] at hle
  rcases hle with hlt | ⟨he, -⟩
  · exact absurd hlt (by simp)
  · simpa using he

theorem IdsDistinct.filter (p : EvidenceRegime → Bool) : IdsDistinct (l.filter p) := fun r hr s hs =>
  hids r (List.mem_of_mem_filter hr) s (List.mem_of_mem_filter hs)

end Preferred

/-! ## Levels and worlds -/

/-- The double, with the zeros as one. -/
def levelNorm : F64 → F64
  | .negZero => .finite 0
  | a => a

theorem sameLevel_iff {a b : F64} :
    sameLevel a b = true ↔ levelNorm a = levelNorm b ∧ a ≠ .nan := by
  rcases a with v | _ | _ | _ <;> rcases b with w | _ | _ | _ <;>
    simp [sameLevel, levelNorm, eq_comm]

theorem hasLevel_iff {level : F64} :
    hasLevel r var level = true ↔ ∃ l ∈ levelsAt var r, sameLevel l level = true := by
  unfold hasLevel levelsAt
  simp only [List.any_eq_true, List.mem_filterMap, List.mem_filter, decide_eq_true_eq,
    Option.any_eq_true]
  constructor
  · rintro ⟨a, ha, hvar, l, hl, heq⟩
    exact ⟨l, ⟨a, ⟨ha, hvar⟩, hl⟩, heq⟩
  · rintro ⟨l, ⟨a, ⟨ha, hvar⟩, hl⟩, heq⟩
    exact ⟨a, ha, hvar, l, hl, heq⟩

theorem hasLevel_congr {l l' : F64} (h : sameLevel l l' = true) :
    hasLevel r var l = hasLevel r var l' := by
  have he := (sameLevel_iff.mp h).1
  rw [Bool.eq_iff_iff, hasLevel_iff, hasLevel_iff]
  simp only [sameLevel_iff, he]

theorem mem_sortLevels : l ∈ sortLevels ls ↔ l ∈ ls :=
  List.mem_insertionSort _

theorem dedupFrom_subset : ∀ {ls : List F64} {last l : F64}, l ∈ dedupFrom last ls → l ∈ ls
  | l₀ :: ls, last, l, h => by
    unfold dedupFrom at h
    split at h
    · exact List.mem_cons_of_mem _ (dedupFrom_subset h)
    · obtain rfl | h := List.mem_cons.mp h
      · exact List.mem_cons_self
      · exact List.mem_cons_of_mem _ (dedupFrom_subset h)

theorem mem_dedupFrom : ∀ {ls : List F64} {last l : F64}, l ∈ ls → l ≠ .nan →
    ∃ l' ∈ last :: dedupFrom last ls, sameLevel l' l = true
  | l₀ :: ls, last, l, h, hl => by
    unfold dedupFrom
    obtain rfl | h := List.mem_cons.mp h
    · split
      next heq => exact ⟨last, List.mem_cons_self, heq⟩
      next => exact ⟨l, by simp, sameLevel_iff.mpr ⟨rfl, hl⟩⟩
    · split
      next => exact mem_dedupFrom h hl
      next =>
        obtain ⟨l', hl', heq⟩ := @mem_dedupFrom ls l₀ l h hl
        exact ⟨l', List.mem_cons_of_mem _ hl', heq⟩

/-- **The distinct levels** are levels of the list, and every level of it is one of them. -/
theorem distinctLevels_subset (h : l ∈ distinctLevels ls) : l ∈ ls := by
  unfold distinctLevels at h
  rw [← mem_sortLevels]
  split at h
  next => exact absurd h List.not_mem_nil
  next l₀ ls' he =>
    rw [he]
    obtain rfl | h := List.mem_cons.mp h
    · exact List.mem_cons_self
    · exact List.mem_cons_of_mem _ (dedupFrom_subset h)

theorem mem_distinctLevels (h : l ∈ ls) (hl : l ≠ .nan) :
    ∃ l' ∈ distinctLevels ls, sameLevel l' l = true := by
  unfold distinctLevels
  rw [← mem_sortLevels] at h
  split
  next he => exact absurd (he ▸ h) List.not_mem_nil
  next l₀ ls' he =>
    obtain rfl | h := List.mem_cons.mp (he ▸ h)
    · exact ⟨l, List.mem_cons_self, sameLevel_iff.mpr ⟨rfl, hl⟩⟩
    · exact mem_dedupFrom h hl

section Factor

variable {c : EvidenceCatalog} {leaf : Leaf} {requestBound : List Nat}

/-- The available regimes that supply the margin of a factor under its intervention set, at its
concrete levels. -/
def sources (c : EvidenceCatalog) (leaf : Leaf) : List EvidenceRegime :=
  candidates c leaf.population leaf.intervention (leaf.vars ++ leaf.conditionedOn)

def coordinates (leaf : Leaf) : List InterventionAssignment := leaf.intervention.filter isSymbolic

/-- A level the coordinate `var` of the factor is bound at. -/
def LevelOf (c : EvidenceCatalog) (requestBound : List Nat) (leaf : Leaf) (var : Nat) (l : F64) :
    Prop :=
  if var ∈ requestBound then ∃ r ∈ sources c leaf, hasLevel r var l = true
  else ∃ ls, declaredLevels c leaf.population var = some ls ∧ l ∈ ls

/-- The regime has the level of `w` at every symbolic coordinate of the factor. -/
def SuppliesAt (leaf : Leaf) (w : Nat → F64) (r : EvidenceRegime) : Prop :=
  ∀ a ∈ coordinates leaf, hasLevel r a.var (w a.var) = true

/-- A world of the factor: one regime has its levels at the coordinates the request binds, a family
regime has every level, and the levels at the other coordinates are declared. -/
structure World (c : EvidenceCatalog) (requestBound : List Nat) (leaf : Leaf) (w : Nat → F64) :
    Prop where
  joint : ∃ r ∈ sources c leaf, r.interventionValues = [] ∨
    ∀ a ∈ coordinates leaf, a.var ∈ requestBound → hasLevel r a.var (w a.var) = true
  declared : ∀ a ∈ coordinates leaf, a.var ∉ requestBound →
    ∃ ls, declaredLevels c leaf.population a.var = some ls ∧ w a.var ∈ ls

/-- The factor is supplied: by a family regime, or at each of its worlds, of which there is one. -/
def Supplied (c : EvidenceCatalog) (requestBound : List Nat) (leaf : Leaf) : Prop :=
  (∃ r ∈ sources c leaf, r.interventionValues = []) ∨
    (∃ w, World c requestBound leaf w) ∧
      ∀ w, World c requestBound leaf w → ∃ r ∈ sources c leaf, SuppliesAt leaf w r

/-- Where no family regime supplies the factor, levels supplied at the coordinates the request binds
are supplied jointly. -/
def Grid (c : EvidenceCatalog) (requestBound : List Nat) (leaf : Leaf) : Prop :=
  (∀ r ∈ sources c leaf, r.interventionValues ≠ []) → ∀ w : Nat → F64,
    (∀ a ∈ coordinates leaf, a.var ∈ requestBound →
      ∃ r ∈ sources c leaf, hasLevel r a.var (w a.var) = true) →
    ∃ r ∈ sources c leaf, ∀ a ∈ coordinates leaf, a.var ∈ requestBound →
      hasLevel r a.var (w a.var) = true

/-- What the binding relies on in a catalog. -/
structure Regular (c : EvidenceCatalog) : Prop where
  ids : IdsDistinct c.regimes
  finite : ∀ r ∈ c.regimes, ∀ a ∈ r.interventionValues, a.value.isFinite = true
  declared : ∀ population var ls, declaredLevels c population var = some ls → ls ≠ []

/-- Every combination of levels, taken coordinate by coordinate, is supplied. -/
def Everywhere (c : EvidenceCatalog) (requestBound : List Nat) (leaf : Leaf) : Prop :=
  (∀ a ∈ coordinates leaf, ∃ l, LevelOf c requestBound leaf a.var l) ∧
    ∀ w : Nat → F64, (∀ a ∈ coordinates leaf, LevelOf c requestBound leaf a.var (w a.var)) →
      ∃ r ∈ sources c leaf, SuppliesAt leaf w r

/-! ### The levels of a coordinate -/

theorem Regular.sources_ids (hc : Regular c) : IdsDistinct (sources c leaf) := hc.ids.filter _

theorem Regular.levelsAt_ne_nan (hc : Regular c) (hr : r ∈ sources c leaf)
    {var : Nat} (hl : l ∈ levelsAt var r) : l ≠ .nan := by
  rintro rfl
  obtain ⟨a, ha, hal⟩ := List.mem_filterMap.mp hl
  have hfin := hc.finite r (List.mem_of_mem_filter hr) a (List.mem_of_mem_filter ha)
  unfold Value.isFinite at hfin
  rw [hal] at hfin
  cases hfin

/-- **The levels of a coordinate** are read off, up to the spelling of zero, or it has none. -/
theorem coordinateLevels_spec (hc : Regular c) (a : InterventionAssignment) :
    (∃ ls, coordinateLevels c leaf.population leaf.intervention (sources c leaf) requestBound a =
        .ok ls ∧ (∀ l ∈ ls, LevelOf c requestBound leaf a.var l) ∧ ls ≠ [] ∧
        ∀ l, LevelOf c requestBound leaf a.var l → ∃ l' ∈ ls, sameLevel l' l = true) ∨
      (∃ d, coordinateLevels c leaf.population leaf.intervention (sources c leaf) requestBound a =
        .error (missingEvidence d)) ∧ ∀ l, ¬ LevelOf c requestBound leaf a.var l := by
  unfold coordinateLevels LevelOf
  by_cases hb : a.var ∈ requestBound
  · simp only [if_pos hb]
    have hfound : ∀ l, (∃ r ∈ sources c leaf, hasLevel r a.var l = true) →
        ∃ l' ∈ distinctLevels ((sources c leaf).flatMap (levelsAt a.var)),
          sameLevel l' l = true := by
      rintro l ⟨r, hr, hl⟩
      obtain ⟨l₀, hl₀, heq⟩ := hasLevel_iff.mp hl
      obtain ⟨l', hl', heq'⟩ := mem_distinctLevels (List.mem_flatMap.mpr ⟨r, hr, hl₀⟩)
        (hc.levelsAt_ne_nan hr hl₀)
      obtain ⟨hn, hne⟩ := sameLevel_iff.mp heq'
      exact ⟨l', hl', sameLevel_iff.mpr ⟨hn.trans (sameLevel_iff.mp heq).1, hne⟩⟩
    have hmem : ∀ l ∈ distinctLevels ((sources c leaf).flatMap (levelsAt a.var)),
        ∃ r ∈ sources c leaf, hasLevel r a.var l = true := fun l hl => by
      obtain ⟨r, hr, hlr⟩ := List.mem_flatMap.mp (distinctLevels_subset hl)
      exact ⟨r, hr, hasLevel_iff.mpr
        ⟨l, hlr, sameLevel_iff.mpr ⟨rfl, hc.levelsAt_ne_nan hr hlr⟩⟩⟩
    cases hd : distinctLevels ((sources c leaf).flatMap (levelsAt a.var)) with
    | nil =>
      refine .inr ⟨⟨_, rfl⟩, fun l hl => ?_⟩
      obtain ⟨l', hl', -⟩ := hfound l hl
      exact absurd (hd ▸ hl') List.not_mem_nil
    | cons l₀ ls =>
      rw [hd] at hfound hmem
      exact .inl ⟨_, rfl, hmem, List.cons_ne_nil _ _, hfound⟩
  · simp only [if_neg hb]
    cases hd : declaredLevels c leaf.population a.var with
    | none => exact .inr ⟨⟨_, rfl⟩, fun l => by simp⟩
    | some ls =>
      refine .inl ⟨ls, rfl, fun l hl => ⟨ls, rfl, hl⟩, hc.declared _ _ _ hd, ?_⟩
      rintro l ⟨ls', hls, hl⟩
      obtain rfl := Option.some.inj hls
      refine ⟨l, hl, sameLevel_iff.mpr ⟨rfl, ?_⟩⟩
      -- a declared level is a number
      rintro rfl
      unfold declaredLevels at hd
      obtain ⟨environment, -, hd⟩ := Option.bind_eq_some_iff.mp hd
      obtain ⟨coordinate, -, hd⟩ := Option.bind_eq_some_iff.mp hd
      split at hd <;> simp at hd
      · simp [← hd] at hl
      · simp [← hd] at hl

/-! ### The worlds -/

section Worlds

variable {levels : InterventionAssignment → Except BindError (List F64)}

theorem extendWorlds_total : ∀ {as : List InterventionAssignment} (worlds : List (List F64)),
    (∀ a ∈ as, ∃ ls, levels a = .ok ls) → ∃ ws, extendWorlds levels as worlds = .ok ws
  | [], worlds, _ => ⟨worlds, rfl⟩
  | a :: as, worlds, h => by
    obtain ⟨ls, hls⟩ := h a List.mem_cons_self
    unfold extendWorlds
    rw [hls]
    exact extendWorlds_total _ fun b hb => h b (List.mem_cons_of_mem _ hb)

theorem extendWorlds_error : ∀ {as : List InterventionAssignment} {worlds : List (List F64)}
    {e : BindError}, extendWorlds levels as worlds = .error e → ∃ a ∈ as, levels a = .error e
  | a :: as, worlds, e, h => by
    unfold extendWorlds at h
    cases hl : levels a with
    | error e' =>
      rw [hl] at h
      cases h
      exact ⟨a, List.mem_cons_self, hl⟩
    | ok ls =>
      rw [hl] at h
      obtain ⟨b, hb, he⟩ := extendWorlds_error h
      exact ⟨b, List.mem_cons_of_mem _ hb, he⟩

theorem extendWorlds_levels : ∀ {as : List InterventionAssignment} {worlds ws : List (List F64)},
    extendWorlds levels as worlds = .ok ws → ∀ a ∈ as, ∃ ls, levels a = .ok ls
  | a :: as, worlds, ws, h, b, hb => by
    unfold extendWorlds at h
    obtain ⟨ls, hls, h⟩ := bind_ok h
    obtain rfl | hb := List.mem_cons.mp hb
    · exact ⟨ls, hls⟩
    · exact extendWorlds_levels h b hb

/-- **The worlds** are the choices of a level at each coordinate. -/
theorem mem_extendWorlds : ∀ {as : List InterventionAssignment} {worlds ws : List (List F64)},
    extendWorlds levels as worlds = .ok ws → ∀ {w : List F64}, w ∈ ws ↔
      ∃ before ∈ worlds, ∃ t, w = before ++ t ∧
        List.Forall₂ (fun a l => ∃ ls, levels a = .ok ls ∧ l ∈ ls) as t
  | [], worlds, ws, h, w => by
    obtain rfl := Except.ok.inj h
    simp
  | a :: as, worlds, ws, h, w => by
    unfold extendWorlds at h
    obtain ⟨ls, hls, h⟩ := bind_ok h
    rw [mem_extendWorlds h]
    constructor
    · rintro ⟨before, hbefore, t, rfl, ht⟩
      obtain ⟨b, hb, hbl⟩ := List.mem_flatMap.mp hbefore
      obtain ⟨l, hl, rfl⟩ := List.mem_map.mp hbl
      exact ⟨b, hb, l :: t, by simp, .cons ⟨ls, hls, hl⟩ ht⟩
    · rintro ⟨b, hb, t, rfl, ht⟩
      cases ht with
      | cons hl ht =>
        obtain ⟨ls', hls', hl⟩ := hl
        obtain rfl := Except.ok.inj (hls.symm.trans hls')
        exact ⟨_, List.mem_flatMap.mpr ⟨b, hb, List.mem_map.mpr ⟨_, hl, rfl⟩⟩, _, by simp, ht⟩

theorem exists_world {P : InterventionAssignment → F64 → Prop} :
    ∀ {as : List InterventionAssignment} {t : List F64}, (as.map (·.var)).Nodup →
      List.Forall₂ P as t → ∃ w : Nat → F64, t = as.map (fun a => w a.var) ∧
        ∀ a ∈ as, P a (w a.var)
  | [], _, _, .nil => ⟨fun _ => .nan, rfl, fun _ h => absurd h List.not_mem_nil⟩
  | a :: as, l :: t, hn, .cons hl ht => by
    obtain ⟨hout, hn⟩ := List.nodup_cons.mp hn
    obtain ⟨w, rfl, hw⟩ := exists_world hn ht
    have hne : ∀ b ∈ as, b.var ≠ a.var := fun b hb he => hout (List.mem_map.mpr ⟨b, hb, he⟩)
    refine ⟨Function.update w a.var l, ?_, fun b hb => ?_⟩
    · rw [List.map_cons, Function.update_self]
      exact congrArg (l :: ·) (List.map_congr_left fun b hb =>
        (Function.update_of_ne (hne b hb) _ _).symm)
    · obtain rfl | hb := List.mem_cons.mp hb
      · rw [Function.update_self]
        exact hl
      · rw [Function.update_of_ne (hne b hb)]
        exact hw b hb

theorem suppliesWorld_iff {w : Nat → F64} {r : EvidenceRegime} :
    ∀ {as : List InterventionAssignment}, suppliesWorld as (as.map fun a => w a.var) r = true ↔
      ∀ a ∈ as, hasLevel r a.var (w a.var) = true
  | [] => by simp [suppliesWorld]
  | a :: as => by
    have ih := @suppliesWorld_iff w r as
    unfold suppliesWorld at ih ⊢
    rw [List.map_cons, List.zip_cons_cons, List.all_cons, Bool.and_eq_true, ih,
      List.forall_mem_cons]

end Worlds

/-! ### Binding a factor -/

theorem bindFactor_concrete (h : coordinates leaf = []) :
    bindFactor c requestBound leaf = match preferredRegime (sources c leaf) with
      | some r => .ok (.single r.id)
      | none => .error (missingEvidence (.factor leaf.population leaf.intervention)) := by
  unfold bindFactor bindLeaf
  simp only
  rw [if_pos (show (leaf.intervention.filter isSymbolic).isEmpty = true from
    List.isEmpty_iff.mpr h)]
  rfl

/-- The family regime that supplies every world of a factor, where there is one. -/
def familyOf (c : EvidenceCatalog) (leaf : Leaf) : Option EvidenceRegime :=
  (preferredRegime (sources c leaf)).filter (·.interventionValues.isEmpty)

theorem familyOf_some (hc : Regular c) (hr : r ∈ sources c leaf)
    (hfamily : r.interventionValues = []) :
    ∃ s ∈ sources c leaf, familyOf c leaf = some s ∧ s.interventionValues = [] := by
  obtain ⟨s, hs⟩ := preferredRegime_ne_nil hr
  have hempty := preferredRegime_family hc.sources_ids hs hr hfamily
  refine ⟨s, preferredRegime_mem hs, ?_, hempty⟩
  unfold familyOf
  rw [hs, Option.filter_some, if_pos (List.isEmpty_iff.mpr hempty)]

theorem familyOf_none (h : ∀ r ∈ sources c leaf, r.interventionValues ≠ []) :
    familyOf c leaf = none := by
  unfold familyOf
  refine Option.filter_eq_none_iff.mpr fun r hr hempty => ?_
  exact h r (preferredRegime_mem hr) (List.isEmpty_iff.mp hempty)

theorem bindFactor_family (h : coordinates leaf ≠ []) {s : EvidenceRegime}
    (hs : familyOf c leaf = some s) : bindFactor c requestBound leaf = .ok (.single s.id) := by
  unfold bindFactor bindLeaf
  simp only
  rw [if_neg (show ¬ (leaf.intervention.filter isSymbolic).isEmpty = true from
    fun he => h (List.isEmpty_iff.mp he))]
  have hs' : (preferredRegime (candidates c leaf.population leaf.intervention
    (leaf.vars ++ leaf.conditionedOn))).filter (·.interventionValues.isEmpty) = some s := hs
  rw [hs']

def worldRegime (c : EvidenceCatalog) (leaf : Leaf) (world : List F64) : Except BindError Nat :=
  match preferredRegime ((sources c leaf).filter (suppliesWorld (coordinates leaf) world)) with
  | some r => .ok r.id
  | none => .error (missingEvidence (.world leaf.population leaf.intervention world))

theorem bindFactor_worlds (h : coordinates leaf ≠ []) (hno : familyOf c leaf = none) :
    bindFactor c requestBound leaf = (do
      let worlds ← extendWorlds (coordinateLevels c leaf.population leaf.intervention
        (sources c leaf) requestBound) (coordinates leaf) [[]]
      let regimes ← worlds.mapM (worldRegime c leaf)
      .ok (.perWorld regimes)) := by
  unfold bindFactor bindLeaf
  simp only
  rw [if_neg (show ¬ (leaf.intervention.filter isSymbolic).isEmpty = true from
    fun he => h (List.isEmpty_iff.mp he))]
  have hs' : (preferredRegime (candidates c leaf.population leaf.intervention
    (leaf.vars ++ leaf.conditionedOn))).filter (·.interventionValues.isEmpty) = none := hno
  rw [hs']
  rfl

/-- The regime the factor reads at a world. -/
def readAt (c : EvidenceCatalog) (leaf : Leaf) (w : Nat → F64) : Option EvidenceRegime :=
  preferredRegime ((sources c leaf).filter
    (suppliesWorld (coordinates leaf) ((coordinates leaf).map fun a => w a.var)))

variable {w : Nat → F64} {b : LeafBinding}

theorem mem_filter_supplies :
    r ∈ (sources c leaf).filter
        (suppliesWorld (coordinates leaf) ((coordinates leaf).map fun a => w a.var)) ↔
      r ∈ sources c leaf ∧ SuppliesAt leaf w r := by
  rw [List.mem_filter, suppliesWorld_iff]
  rfl

theorem readAt_some (h : readAt c leaf w = some r) :
    r ∈ sources c leaf ∧ SuppliesAt leaf w r := mem_filter_supplies.mp (preferredRegime_mem h)

theorem exists_readAt (hr : r ∈ sources c leaf)
    (hw : SuppliesAt leaf w r) : ∃ s, readAt c leaf w = some s :=
  preferredRegime_ne_nil (mem_filter_supplies.mpr ⟨hr, hw⟩)

theorem readAt_congr {w' : Nat → F64}
    (h : ∀ a ∈ coordinates leaf, sameLevel (w' a.var) (w a.var) = true) :
    readAt c leaf w' = readAt c leaf w := by
  unfold readAt
  congr 2
  funext r
  rw [Bool.eq_iff_iff, suppliesWorld_iff, suppliesWorld_iff]
  exact forall₂_congr fun a ha => by rw [hasLevel_congr (h a ha)]

theorem mapM_error {ε α β : Type} {f : α → Except ε β} {e : ε} : ∀ {l : List α},
    l.mapM f = .error e → ∃ a ∈ l, f a = .error e
  | [], h => by cases h
  | a :: l, h => by
    rw [List.mapM_cons] at h
    cases ha : f a with
    | error e' =>
      rw [ha] at h
      obtain rfl := Except.error.inj h
      exact ⟨a, List.mem_cons_self, ha⟩
    | ok b =>
      rw [ha] at h
      cases hl : l.mapM f with
      | ok out =>
        simp only [bind, Except.bind, hl] at h
        cases h
      | error e' =>
        simp only [bind, Except.bind, hl] at h
        obtain rfl := Except.error.inj h
        obtain ⟨x, hx, he⟩ := mapM_error hl
        exact ⟨x, List.mem_cons_of_mem _ hx, he⟩

theorem forall₂_mem_right {α β : Type} {P : α → β → Prop} : ∀ {l : List α} {out : List β},
    List.Forall₂ P l out → ∀ {b : β}, b ∈ out → ∃ a ∈ l, P a b
  | [], _, .nil, _, hb => absurd hb List.not_mem_nil
  | a :: l, x :: out, .cons hx h, b, hb => by
    obtain rfl | hb := List.mem_cons.mp hb
    · exact ⟨a, List.mem_cons_self, hx⟩
    · obtain ⟨a', ha', hp⟩ := forall₂_mem_right h hb
      exact ⟨a', List.mem_cons_of_mem _ ha', hp⟩

theorem exists_forall₂ {α β : Type} {P : α → β → Prop} : ∀ {as : List α},
    (∀ a ∈ as, ∃ l, P a l) → ∃ t, List.Forall₂ P as t
  | [], _ => ⟨[], .nil⟩
  | a :: as, h => by
    obtain ⟨l, hl⟩ := h a List.mem_cons_self
    obtain ⟨t, ht⟩ := exists_forall₂ fun b hb => h b (List.mem_cons_of_mem _ hb)
    exact ⟨l :: t, .cons hl ht⟩

section

variable (hc : Regular c) (hn : (leaf.intervention.map (·.var)).Nodup) (h : coordinates leaf ≠ [])
  (hno : familyOf c leaf = none)

include hc hn h hno

/-- **A factor bound per world** has a regime at every combination of its levels, and that regime is
among those it cites. -/
theorem bindFactor_perWorld (hb : bindFactor c requestBound leaf = .ok b) :
    Everywhere c requestBound leaf ∧ ∃ regimes, b = .perWorld regimes ∧
      (∀ r ∈ regimes, ∃ s ∈ sources c leaf, s.id = r) ∧
      ∀ w : Nat → F64, (∀ a ∈ coordinates leaf, LevelOf c requestBound leaf a.var (w a.var)) →
        ∃ r, readAt c leaf w = some r ∧ r.id ∈ regimes := by
  rw [bindFactor_worlds h hno] at hb
  obtain ⟨worlds, hworlds, hb⟩ := bind_ok hb
  obtain ⟨regimes, hregimes, hb⟩ := bind_ok hb
  have hnc : ((coordinates leaf).map (·.var)).Nodup := hn.sublist (List.filter_sublist.map _)
  have hread : ∀ w : Nat → F64,
      (∀ a ∈ coordinates leaf, LevelOf c requestBound leaf a.var (w a.var)) →
      ∃ r, readAt c leaf w = some r ∧ r.id ∈ regimes := fun w hw => by
    -- the spelling of the world that the enumeration uses
    obtain ⟨t, ht⟩ := @exists_forall₂ _ _ (fun a l => (∃ ls, coordinateLevels c leaf.population
      leaf.intervention (sources c leaf) requestBound a = .ok ls ∧ l ∈ ls) ∧
        sameLevel l (w a.var) = true) (coordinates leaf) fun a ha => by
      obtain ⟨ls, hls, -, -, hall⟩ | ⟨-, hnone⟩ := coordinateLevels_spec hc a
      · obtain ⟨l, hl, heq⟩ := hall _ (hw a ha)
        exact ⟨l, ⟨ls, hls, hl⟩, heq⟩
      · exact absurd (hw a ha) (hnone _)
    have hmem : t ∈ worlds := (mem_extendWorlds hworlds).mpr
      ⟨[], List.mem_singleton_self _, t, rfl, ht.imp fun _ _ hp => hp.1⟩
    obtain ⟨w', rfl, hw'⟩ := exists_world hnc ht
    obtain ⟨id, hid, hr⟩ := mapM_ok_mem hregimes hmem
    unfold worldRegime at hr
    split at hr
    next r hr' =>
      obtain rfl := Except.ok.inj hr
      exact ⟨r, (readAt_congr fun a ha => (hw' a ha).2) ▸ hr', hid⟩
    next => cases hr
  refine ⟨⟨fun a ha => ?_, fun w hw => ?_⟩, regimes, (Except.ok.inj hb).symm, fun r hr => ?_, hread⟩
  · obtain ⟨ls, -, hls, hne, -⟩ | ⟨⟨d, hd⟩, -⟩ := @coordinateLevels_spec c leaf requestBound hc a
    · obtain ⟨l, hl⟩ := List.exists_mem_of_ne_nil ls hne
      exact ⟨l, hls l hl⟩
    · obtain ⟨ls, hls⟩ := extendWorlds_levels hworlds a ha
      exact absurd (hd.symm.trans hls) nofun
  · obtain ⟨r, hr, -⟩ := hread w hw
    obtain ⟨hmem, hsup⟩ := readAt_some hr
    exact ⟨r, hmem, hsup⟩
  · obtain ⟨world, -, hworld⟩ := forall₂_mem_right (mapM_ok hregimes) hr
    unfold worldRegime at hworld
    split at hworld
    next s hs => exact ⟨s, List.mem_of_mem_filter (preferredRegime_mem hs), Except.ok.inj hworld⟩
    next => cases hworld

/-- Where every combination of levels is supplied the factor binds. -/
theorem bindFactor_of_everywhere (hall : Everywhere c requestBound leaf) :
    ∃ b, bindFactor c requestBound leaf = .ok b := by
  rw [bindFactor_worlds h hno]
  have hnc : ((coordinates leaf).map (·.var)).Nodup := hn.sublist (List.filter_sublist.map _)
  obtain ⟨worlds, hworlds⟩ := @extendWorlds_total (coordinateLevels c leaf.population
    leaf.intervention (sources c leaf) requestBound) (coordinates leaf) [[]] fun a ha => by
      obtain ⟨ls, hls, -⟩ | ⟨-, hnone⟩ := @coordinateLevels_spec c leaf requestBound hc a
      · exact ⟨ls, hls⟩
      · obtain ⟨l, hl⟩ := hall.1 a ha
        exact absurd hl (hnone l)
  obtain ⟨regimes, hregimes⟩ := @mapM_total _ _ _ (worldRegime c leaf) worlds fun world hmem => by
    obtain ⟨_, hbefore, t, rfl, ht⟩ := (mem_extendWorlds hworlds).mp hmem
    obtain rfl := List.mem_singleton.mp hbefore
    obtain ⟨w, rfl, hw⟩ := exists_world hnc ht
    obtain ⟨r, hr, hsup⟩ := hall.2 w fun a ha => by
      obtain ⟨ls, hls, hl⟩ := hw a ha
      obtain ⟨ls', hls', hlevel, -⟩ | ⟨⟨d, hd⟩, -⟩ := @coordinateLevels_spec c leaf requestBound hc a
      · obtain rfl := Except.ok.inj (hls.symm.trans hls')
        exact hlevel _ hl
      · exact absurd (hd.symm.trans hls) nofun
    obtain ⟨s, hs⟩ := exists_readAt hr hsup
    refine ⟨s.id, ?_⟩
    unfold worldRegime
    rw [List.nil_append, show preferredRegime _ = some s from hs]
  rw [hworlds]
  refine ⟨.perWorld regimes, ?_⟩
  simp only [bind, Except.bind] at hregimes ⊢
  rw [hregimes]

/-! ### When a factor binds -/

end

theorem World.levelOf (h : World c requestBound leaf w)
    (hno : ∀ r ∈ sources c leaf, r.interventionValues ≠ []) {a : InterventionAssignment}
    (ha : a ∈ coordinates leaf) : LevelOf c requestBound leaf a.var (w a.var) := by
  unfold LevelOf
  split
  next hb =>
    obtain ⟨r, hr, hw⟩ := h.joint
    exact ⟨r, hr, hw.resolve_left (hno r hr) a ha hb⟩
  next hb => exact h.declared a ha hb

theorem world_of_supplies (h : ∀ a ∈ coordinates leaf, LevelOf c requestBound leaf a.var (w a.var))
    (hr : r ∈ sources c leaf) (hw : ∀ a ∈ coordinates leaf,
      a.var ∈ requestBound → hasLevel r a.var (w a.var) = true) : World c requestBound leaf w where
  joint := ⟨r, hr, .inr hw⟩
  declared a ha hb := by
    have hl := h a ha
    unfold LevelOf at hl
    rwa [if_neg hb] at hl

/-- **Without a family regime** every combination of levels is supplied exactly when every world is
and the jointly supplied levels are a grid. -/
theorem everywhere_iff (hno : ∀ r ∈ sources c leaf, r.interventionValues ≠ []) :
    Everywhere c requestBound leaf ↔ Supplied c requestBound leaf ∧ Grid c requestBound leaf := by
  constructor
  · rintro ⟨hlevels, hall⟩
    have hchoice : ∀ v, ∃ l, (∃ a ∈ coordinates leaf, a.var = v) →
        LevelOf c requestBound leaf v l := fun v => by
      by_cases hv : ∃ a ∈ coordinates leaf, a.var = v
      · obtain ⟨a, ha, rfl⟩ := hv
        obtain ⟨l, hl⟩ := hlevels a ha
        exact ⟨l, fun _ => hl⟩
      · exact ⟨.nan, fun h => absurd h hv⟩
    choose w₀ hw₀ using hchoice
    have hw₀' : ∀ a ∈ coordinates leaf, LevelOf c requestBound leaf a.var (w₀ a.var) :=
      fun a ha => hw₀ a.var ⟨a, ha, rfl⟩
    obtain ⟨r, hr, hsup⟩ := hall w₀ hw₀'
    refine ⟨.inr ⟨⟨w₀, world_of_supplies hw₀' hr fun a ha _ => hsup a ha⟩,
      fun w hw => hall w fun a ha => hw.levelOf hno ha⟩, fun _ w hw => ?_⟩
    -- the levels of `w` where the request binds, those of `w₀` elsewhere
    obtain ⟨r, hr, hsup⟩ := hall (fun v => if v ∈ requestBound then w v else w₀ v) fun a ha => by
      by_cases hb : a.var ∈ requestBound
      · unfold LevelOf
        simp only [if_pos hb]
        exact hw a ha hb
      · simp only [if_neg hb]
        exact hw₀' a ha
    exact ⟨r, hr, fun a ha hb => by simpa only [if_pos hb] using hsup a ha⟩
  · rintro ⟨⟨r, hr, hfamily⟩ | ⟨⟨w₀, hw₀⟩, hall⟩, hgrid⟩
    · exact absurd hfamily (hno r hr)
    refine ⟨fun a ha => ⟨_, hw₀.levelOf hno ha⟩, fun w hw => ?_⟩
    obtain ⟨r, hr, hjoint⟩ := hgrid hno w fun a ha hb => by
      have hl := hw a ha
      unfold LevelOf at hl
      rwa [if_pos hb] at hl
    exact hall w (world_of_supplies hw hr hjoint)

/-- **A factor binds** exactly when it is supplied at each of its worlds and its jointly supplied
levels are a grid. -/
theorem bindFactor_ok (hc : Regular c) (hn : (leaf.intervention.map (·.var)).Nodup) :
    (∃ b, bindFactor c requestBound leaf = .ok b) ↔
      Supplied c requestBound leaf ∧ Grid c requestBound leaf := by
  by_cases hfamily : ∃ r ∈ sources c leaf, r.interventionValues = []
  · refine iff_of_true ?_ ⟨.inl hfamily, fun hno => ?_⟩
    · obtain ⟨r, hr, hempty⟩ := hfamily
      by_cases h : coordinates leaf = []
      · obtain ⟨s, hs⟩ := preferredRegime_ne_nil hr
        exact ⟨.single s.id, by rw [bindFactor_concrete h, hs]⟩
      · obtain ⟨s, -, hs, -⟩ := familyOf_some hc hr hempty
        exact ⟨_, bindFactor_family h hs⟩
    · obtain ⟨r, hr, hempty⟩ := hfamily
      exact absurd hempty (hno r hr)
  · have hno : ∀ r ∈ sources c leaf, r.interventionValues ≠ [] := fun r hr he =>
      hfamily ⟨r, hr, he⟩
    rw [← everywhere_iff hno]
    by_cases h : coordinates leaf = []
    · rw [bindFactor_concrete h]
      have hout : ∀ {a}, a ∉ coordinates leaf := fun ha => absurd (h ▸ ha) List.not_mem_nil
      constructor
      · rintro ⟨b, hb⟩
        cases hp : preferredRegime (sources c leaf) with
        | none =>
          rw [hp] at hb
          cases hb
        | some r => exact ⟨fun a ha => absurd ha hout, fun _ _ =>
            ⟨r, preferredRegime_mem hp, fun a ha => absurd ha hout⟩⟩
      · rintro ⟨-, hall⟩
        obtain ⟨r, hr, -⟩ := hall (fun _ => .nan) fun a ha => absurd ha hout
        obtain ⟨s, hs⟩ := preferredRegime_ne_nil hr
        exact ⟨.single s.id, by rw [hs]⟩
    · constructor
      · rintro ⟨b, hb⟩
        exact (bindFactor_perWorld hc hn h (familyOf_none hno) hb).1
      · exact bindFactor_of_everywhere hc hn h (familyOf_none hno)

theorem bindFactor_error (hc : Regular c) {e : BindError}
    (h : bindFactor c requestBound leaf = .error e) : ∃ d, e = missingEvidence d := by
  by_cases hcoord : coordinates leaf = []
  · rw [bindFactor_concrete hcoord] at h
    split at h
    · cases h
    · exact ⟨_, (Except.error.inj h).symm⟩
  cases hfamily : familyOf c leaf with
  | some s =>
    rw [bindFactor_family hcoord hfamily] at h
    cases h
  | none =>
    rw [bindFactor_worlds hcoord hfamily] at h
    cases hw : extendWorlds (coordinateLevels c leaf.population leaf.intervention
        (sources c leaf) requestBound) (coordinates leaf) [[]] with
    | error e' =>
      rw [hw] at h
      obtain rfl := Except.error.inj h
      obtain ⟨a, -, ha⟩ := extendWorlds_error hw
      obtain ⟨ls, hls, -⟩ | ⟨⟨d, hd⟩, -⟩ := @coordinateLevels_spec c leaf requestBound hc a
      · exact absurd (hls.symm.trans ha) nofun
      · exact ⟨d, (Except.error.inj (hd.symm.trans ha)).symm⟩
    | ok worlds =>
      rw [hw] at h
      cases hm : worlds.mapM (worldRegime c leaf) with
      | ok regimes =>
        simp only [bind, Except.bind] at h hm
        rw [hm] at h
        cases h
      | error e' =>
        obtain ⟨world, -, hworld⟩ := mapM_error hm
        simp only [bind, Except.bind] at h hm
        rw [hm] at h
        obtain rfl := Except.error.inj h
        unfold worldRegime at hworld
        split at hworld
        · cases hworld
        · exact ⟨_, (Except.error.inj hworld).symm⟩

/-! ## What a bound factor reads -/

/-- The regime tag of a bound leaf (`search.rs:462-465`). -/
def LeafBinding.tag : LeafBinding → Option Nat
  | .single regime => some regime
  | .perWorld _ => none

/-- The law a leaf reads at a world among the cited regimes (`exact.rs:878-906`): that of the regime
it names, or the one of least id that supplies its margin there. -/
def lawAt (c : EvidenceCatalog) (cited : List Nat) (leaf : Leaf) (w : Nat → F64) :
    Option EvidenceRegime :=
  match leaf.regime with
  | some regime => c.regimes.find? (·.id = regime)
  | none => ((sources c leaf).filter fun r => r.id ∈ cited ∧
      suppliesWorld (coordinates leaf) ((coordinates leaf).map fun a => w a.var) r).argmin (·.id)

/-- The law of `r` is the one the factor names at the world `w`. -/
structure Names (c : EvidenceCatalog) (leaf : Leaf) (w : Nat → F64) (r : EvidenceRegime) : Prop where
  population : r.population = leaf.population
  available : r.evidenceKind = .available ∧ r.origin = .measured ∧ r.selection = .population
  kind : r.kind = if leaf.intervention.isEmpty then .observational else .experimental
  interventions : ∀ v, v ∈ r.interventions ↔ ∃ a ∈ leaf.intervention, a.var = v
  joint : r.distribution = .joint ∧ r.conditionedOn = []
  margin : ∀ v ∈ leaf.vars ++ leaf.conditionedOn, v ∈ r.measured
  dataset : ∃ b ∈ c.bindings, b.regime = r.id
  levels : r.interventionValues = [] ∨
    (∀ a ∈ leaf.intervention, isSymbolic a = false → a ∈ r.interventionValues) ∧ SuppliesAt leaf w r

theorem names_of_source (hr : r ∈ sources c leaf)
    (hw : r.interventionValues = [] ∨ SuppliesAt leaf w r) : Names c leaf w r := by
  obtain ⟨-, hr⟩ := List.mem_filter.mp hr
  obtain ⟨hpop, hlaw, hworld, hmargin⟩ := of_decide_eq_true hr
  obtain ⟨hkind, horigin, hsel⟩ := of_decide_eq_true hlaw
  obtain ⟨hk, hset, hvalues⟩ := of_decide_eq_true hworld
  obtain ⟨hdist, hcond, hmeas, hbind⟩ := of_decide_eq_true hmargin
  refine ⟨hpop, ⟨of_decide_eq_true hkind, horigin, hsel⟩, hk, fun v => ?_, ⟨hdist, hcond⟩,
    fun v hv => of_decide_eq_true (List.all_eq_true.mp hmeas v hv), ?_, ?_⟩
  · rw [← List.mem_toFinset, of_decide_eq_true hset, List.mem_toFinset, List.mem_map]
  · obtain ⟨b, hb, he⟩ := List.any_eq_true.mp hbind
    exact ⟨b, hb, of_decide_eq_true he⟩
  · obtain hempty | ⟨-, hall⟩ := hvalues
    · exact .inl (List.isEmpty_iff.mp hempty)
    · refine hw.imp_right fun hsup => ⟨fun a ha hs => ?_, hsup⟩
      obtain hsym | hany := of_decide_eq_true (List.all_eq_true.mp hall a ha)
      · exact absurd (hs.symm.trans hsym) nofun
      · obtain ⟨actual, hactual, he⟩ := List.any_eq_true.mp hany
        exact of_decide_eq_true he ▸ hactual

theorem find?_id (hids : IdsDistinct c.regimes) (hr : r ∈ c.regimes) :
    c.regimes.find? (·.id = r.id) = some r := by
  cases hf : c.regimes.find? (·.id = r.id) with
  | none => exact absurd (List.find?_eq_none.mp hf r hr) (by simp)
  | some s =>
    have hs : s.id = r.id := by simpa using List.find?_some hf
    rw [hids s (List.mem_of_find?_eq_some hf) r hr hs]

/-- **A bound factor reads the law it names** at each of its worlds, whatever else the formula
cites. -/
theorem bindFactor_names (hc : Regular c) (hn : (leaf.intervention.map (·.var)).Nodup)
    (hb : bindFactor c requestBound leaf = .ok b) {cited : List Nat}
    (hcited : ∀ r ∈ b.regimes, r ∈ cited) (hw : World c requestBound leaf w) :
    ∃ r, lawAt c cited { leaf with regime := b.tag } w = some r ∧ Names c leaf w r ∧
      r.id ∈ b.regimes := by
  by_cases hcoord : coordinates leaf = []
  · rw [bindFactor_concrete hcoord] at hb
    cases hp : preferredRegime (sources c leaf) with
    | none =>
      rw [hp] at hb
      cases hb
    | some r =>
      rw [hp] at hb
      obtain rfl := Except.ok.inj hb
      have hr := preferredRegime_mem hp
      exact ⟨r, find?_id hc.ids (List.mem_of_mem_filter hr), names_of_source hr
        (.inr fun a ha => absurd (hcoord ▸ ha) List.not_mem_nil), List.mem_singleton_self _⟩
  cases hfamily : familyOf c leaf with
  | some s =>
    rw [bindFactor_family hcoord hfamily] at hb
    obtain rfl := Except.ok.inj hb
    obtain ⟨hs, hempty⟩ := Option.filter_eq_some_iff.mp hfamily
    have hs := preferredRegime_mem hs
    exact ⟨s, find?_id hc.ids (List.mem_of_mem_filter hs),
      names_of_source hs (.inl (List.isEmpty_iff.mp hempty)), List.mem_singleton_self _⟩
  | none =>
    have hno : ∀ r ∈ sources c leaf, r.interventionValues ≠ [] := fun r hr hempty => by
      obtain ⟨s, -, hs, -⟩ := familyOf_some hc hr hempty
      exact absurd (hfamily.symm.trans hs) nofun
    obtain ⟨-, regimes, rfl, -, hread⟩ := bindFactor_perWorld hc hn hcoord hfamily hb
    obtain ⟨r, hr, hmem⟩ := hread w fun a ha => hw.levelOf hno ha
    obtain ⟨hsource, hsup⟩ := readAt_some hr
    refine ⟨r, ?_, names_of_source hsource (.inr hsup), hmem⟩
    -- the regime read is the least of all that supply the world, so of those cited
    have hleast : ∀ s ∈ sources c leaf, SuppliesAt leaf w s → r.id ≤ s.id := fun s hs hsw => by
      have hle := ((preferredRegime_eq (hc.sources_ids.filter _)).mp hr).2 s
        (mem_filter_supplies.mpr ⟨hs, hsw⟩)
      unfold preferenceKey at hle
      rw [Prod.Lex.toLex_le_toLex, List.isEmpty_eq_false_iff.mpr (hno r hsource),
        List.isEmpty_eq_false_iff.mpr (hno s hs)] at hle
      exact hle.elim (fun hlt => absurd hlt (lt_irrefl _)) (·.2)
    have hfilter : ∀ s, s ∈ (sources c leaf).filter (fun s => s.id ∈ cited ∧ suppliesWorld
        (coordinates leaf) ((coordinates leaf).map fun a => w a.var) s) ↔
        s ∈ sources c leaf ∧ s.id ∈ cited ∧ SuppliesAt leaf w s := fun s => by
      rw [List.mem_filter, decide_eq_true_eq, suppliesWorld_iff]
      rfl
    have hlaw : lawAt c cited { leaf with regime := (LeafBinding.perWorld regimes).tag } w =
        ((sources c leaf).filter (fun s => s.id ∈ cited ∧ suppliesWorld
          (coordinates leaf) ((coordinates leaf).map fun a => w a.var) s)).argmin (·.id) := rfl
    rw [hlaw]
    have hrmem := (hfilter r).mpr ⟨hsource, hcited _ hmem, hsup⟩
    cases hm : ((sources c leaf).filter (fun s => s.id ∈ cited ∧ suppliesWorld
        (coordinates leaf) ((coordinates leaf).map fun a => w a.var) s)).argmin (·.id) with
    | none => exact absurd (List.argmin_eq_none.mp hm ▸ hrmem) List.not_mem_nil
    | some s =>
      obtain ⟨hs, -, hsw⟩ := (hfilter s).mp (List.argmin_mem hm)
      exact congrArg some (hc.sources_ids s hs r hsource
        (Nat.le_antisymm (List.le_of_mem_argmin hrmem hm) (hleast s hs hsw)))

end Factor

/-! ## A further regime -/

/-- `c'` is `c` with the regime `r` added, and its dataset when it has one. -/
structure Adds (c c' : EvidenceCatalog) (r : EvidenceRegime) : Prop where
  environments : c'.environments = c.environments
  regimes : c'.regimes = c.regimes ++ [r]
  bindings : ∃ bs, c'.bindings = c.bindings ++ bs ∧ ∀ b ∈ bs, b.regime = r.id

/-- `r` brings a level to a coordinate the request binds and lacks a level of another coordinate of
the factor. -/
def Stretches (c : EvidenceCatalog) (requestBound : List Nat) (leaf : Leaf) (r : EvidenceRegime) :
    Prop :=
  ∃ a ∈ coordinates leaf, a.var ∈ requestBound ∧ ∃ l, hasLevel r a.var l = true ∧
    (∀ s ∈ sources c leaf, hasLevel s a.var l = false) ∧
    ∃ b ∈ coordinates leaf, b.var ≠ a.var ∧
      ∃ l', LevelOf c requestBound leaf b.var l' ∧ hasLevel r b.var l' = false

section Adds

variable {c c' : EvidenceCatalog} {leaf : Leaf} {requestBound : List Nat} {r : EvidenceRegime}

theorem declaredLevels_adds (h : Adds c c' r) (population : String) (var : Nat) :
    declaredLevels c' population var = declaredLevels c population var := by
  unfold declaredLevels
  rw [h.environments]

variable (h : Adds c c' r) (hids : IdsDistinct c'.regimes)

include h hids

theorem mem_sources_adds {s : EvidenceRegime} :
    s ∈ sources c' leaf ↔ s ∈ sources c leaf ∨ s = r ∧ r ∈ sources c' leaf := by
  obtain ⟨bs, hbs, hall⟩ := h.bindings
  have hmargin : ∀ needed, regimeSuppliesMargin c s needed = true →
      regimeSuppliesMargin c' s needed = true := fun needed hm => by
    obtain ⟨hd, hcond, hmeas, hany⟩ := of_decide_eq_true hm
    refine decide_eq_true ⟨hd, hcond, hmeas, ?_⟩
    rw [hbs, List.any_append, hany, Bool.true_or]
  unfold sources candidates
  constructor
  · intro hs
    obtain ⟨hmem, hp⟩ := List.mem_filter.mp hs
    by_cases hr : s = r
    · exact .inr ⟨hr, hr ▸ hs⟩
    refine .inl (List.mem_filter.mpr ⟨?_, ?_⟩)
    · rw [h.regimes] at hmem
      exact (List.mem_append.mp hmem).resolve_right fun hm => hr (List.mem_singleton.mp hm)
    · obtain ⟨hpop, hlaw, hworld, hm⟩ := of_decide_eq_true hp
      obtain ⟨hd, hcond, hmeas, hany⟩ := of_decide_eq_true hm
      refine decide_eq_true ⟨hpop, hlaw, hworld, decide_eq_true ⟨hd, hcond, hmeas, ?_⟩⟩
      rw [hbs, List.any_append, Bool.or_eq_true] at hany
      refine hany.resolve_right fun hb => ?_
      obtain ⟨b, hb, he⟩ := List.any_eq_true.mp hb
      exact hr (hids s hmem r (h.regimes ▸ List.mem_append_right _ (List.mem_singleton_self r))
        ((of_decide_eq_true he).symm.trans (hall b hb)))
  · rintro (hs | ⟨rfl, hr⟩)
    · obtain ⟨hmem, hp⟩ := List.mem_filter.mp hs
      obtain ⟨hpop, hlaw, hworld, hm⟩ := of_decide_eq_true hp
      exact List.mem_filter.mpr ⟨h.regimes ▸ List.mem_append_left _ hmem,
        decide_eq_true ⟨hpop, hlaw, hworld, hmargin _ hm⟩⟩
    · exact hr

theorem levelOf_adds {var : Nat} :
    LevelOf c' requestBound leaf var l ↔ LevelOf c requestBound leaf var l ∨
      var ∈ requestBound ∧ r ∈ sources c' leaf ∧ hasLevel r var l = true := by
  unfold LevelOf
  split_ifs with hb
  · constructor
    · rintro ⟨s, hs, hl⟩
      obtain hs | ⟨rfl, hr⟩ := (mem_sources_adds h hids).mp hs
      · exact .inl ⟨s, hs, hl⟩
      · exact .inr ⟨hb, hr, hl⟩
    · rintro (⟨s, hs, hl⟩ | ⟨-, hr, hl⟩)
      · exact ⟨s, (mem_sources_adds h hids).mpr (.inl hs), hl⟩
      · exact ⟨r, hr, hl⟩
  · rw [declaredLevels_adds h]
    exact (or_iff_left fun h' => hb h'.1).symm

/-- **Adding a regime** to a catalog that supplies every combination of levels keeps it so exactly
when the regime does not stretch the factor. -/
theorem everywhere_adds (hall : Everywhere c requestBound leaf) : Everywhere c' requestBound leaf ↔
      ¬ (r ∈ sources c' leaf ∧ Stretches c requestBound leaf r) := by
  constructor
  · rintro ⟨hlevels, hevery⟩ ⟨hr, a, ha, hab, l, hl, hnew, b, hb, hne, l', hl', hlacks⟩
    have hchoice : ∀ v, ∃ m, (∃ x ∈ coordinates leaf, x.var = v) →
        LevelOf c' requestBound leaf v m := fun v => by
      by_cases hv : ∃ x ∈ coordinates leaf, x.var = v
      · obtain ⟨x, hx, rfl⟩ := hv
        obtain ⟨m, hm⟩ := hlevels x hx
        exact ⟨m, fun _ => hm⟩
      · exact ⟨.nan, fun h => absurd h hv⟩
    choose w₀ hw₀ using hchoice
    -- the new level beside the level it lacks
    obtain ⟨s, hs, hsup⟩ := hevery
      (Function.update (Function.update w₀ b.var l') a.var l) fun x hx => by
        by_cases hxa : x.var = a.var
        · rw [hxa, Function.update_self]
          exact (levelOf_adds h hids).mpr (.inr ⟨hab, hr, hl⟩)
        rw [Function.update_of_ne hxa]
        by_cases hxb : x.var = b.var
        · rw [hxb, Function.update_self]
          exact (levelOf_adds h hids).mpr (.inl hl')
        · rw [Function.update_of_ne hxb]
          exact hw₀ x.var ⟨x, hx, rfl⟩
    have hsa := hsup a ha
    have hsb := hsup b hb
    rw [Function.update_self] at hsa
    rw [Function.update_of_ne hne, Function.update_self] at hsb
    obtain hs | ⟨rfl, -⟩ := (mem_sources_adds h hids).mp hs
    · exact absurd (hsa.symm.trans (hnew s hs)) nofun
    · exact absurd (hsb.symm.trans hlacks) nofun
  · intro hno
    refine ⟨fun a ha => ?_, fun w hw => ?_⟩
    · obtain ⟨l, hl⟩ := hall.1 a ha
      exact ⟨l, (levelOf_adds h hids).mpr (.inl hl)⟩
    by_cases hold : ∀ a ∈ coordinates leaf, LevelOf c requestBound leaf a.var (w a.var)
    · obtain ⟨s, hs, hsup⟩ := hall.2 w hold
      exact ⟨s, (mem_sources_adds h hids).mpr (.inl hs), hsup⟩
    -- a level that `r` brought: every other level of the world is one of its own
    obtain ⟨a, ha, hla⟩ := not_forall₂.mp hold
    obtain ⟨hab, hr, hra⟩ := ((levelOf_adds h hids).mp (hw a ha)).resolve_left hla
    refine ⟨r, hr, fun b hb => ?_⟩
    by_cases hba : b.var = a.var
    · rw [hba]
      exact hra
    obtain hlb | ⟨-, -, hrb⟩ := (levelOf_adds h hids).mp (hw b hb)
    · by_contra hlacks
      refine hno ⟨hr, a, ha, hab, _, hra, fun s hs => ?_, b, hb, hba, _, hlb,
        Bool.not_eq_true _ ▸ hlacks⟩
      refine Bool.not_eq_true _ ▸ fun hs' => hla ?_
      unfold LevelOf
      rw [if_pos hab]
      exact ⟨s, hs, hs'⟩
    · exact hrb

end Adds

end Antecedent.Identify.Binding
