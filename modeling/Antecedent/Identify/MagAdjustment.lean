import Antecedent.Graph.Mag
import Antecedent.Identify.FirstSet
import Antecedent.Identify.Adjustment

/-!
# Generalized adjustment in a MAG

Model of `mag_adjustment_search` (`generalized.rs:791-862`), of the proper back-door graph
(`generalized.rs:736-759`), the candidates (`generalized.rs:980-1003`) and edge visibility
(`joint_response.rs:112-135`).

`Adjusts` is the generalized adjustment criterion: every causal path starts with a visible edge, no
adjustment node is below a causal one, and the set separates the two in the proper back-door graph.

* `properBackdoorMag_ok`: the cut graph is the proper back-door graph, and is refused exactly when
  some causal path starts with an invisible edge.
* **`magAdjustmentSearch_exact`**: no set is reported absent where one adjusts, and every set
  returned adjusts.
-/

namespace Antecedent.Mixed.MixedGraph

variable {V : Type*} (G : MixedGraph V) (t y : V)

/-- The nodes below a node on a causal path from `t` to `y`. -/
def Forbidden : Set V := {w | ∃ c, c ≠ t ∧ G.Anc t c ∧ G.Anc c y ∧ G.Anc c w}

/-- The proper back-door graph: without the first edges of the causal paths from `t` to `y`. -/
def properBackdoor : MixedGraph V where
  dir a b := G.dir a b ∧ ¬ (a = t ∧ G.Anc b y)
  bi := G.bi
  bi_symm := G.bi_symm

variable {G t y}

theorem properBackdoor_ancSet : (G.properBackdoor t y).AncSet {t, y} = G.AncSet {t, y} :=
  ancSet_cut_some (.inl rfl) (fun _ _ h => h.1) fun _ _ h hne => ⟨h, fun hc => hne hc.1⟩

end Antecedent.Mixed.MixedGraph

namespace Antecedent.Graph

/-! ## Visible edges -/

/-- The nodes on a collider path into `a` whose nodes, after `a`, are parents of `b`. -/
inductive Look.ColliderReach (L : Look) (a b : Nat) : Nat → Prop
  | start : L.ColliderReach a b a
  | step {c d : Nat} (h : L.ColliderReach a b c) (hbi : L.Bi c d) (hd : L.Dir d b) :
      L.ColliderReach a b d

/-- A visible edge `a → b`: some node away from `b` has an arrowhead at `a`, or at a node of a
collider path into `a` whose inner nodes are parents of `b`. -/
def Look.Visible (L : Look) (a b : Nat) : Prop :=
  ∃ c v s m, L.ColliderReach a b c ∧ L c v = some (.arrow, s, m) ∧ v ≠ b ∧ L v b = none

end Antecedent.Graph

namespace Antecedent.Identify

open Graph
open Mixed
open Worklist

section Visible

variable (mag : Pag)

/-- `adjacent` of `visible`. -/
def adjacent (a b : Nat) : Bool := (mag.neighbors a).any fun e => e.1 = b

/-- `parent` of `visible`. -/
def parent (a b : Nat) : Bool :=
  (mag.neighbors a).any fun e => e.1 = b ∧ e.2.1 = .tail ∧ e.2.2 = .arrow

/-- What `visible` pushes from a popped node. -/
def visibleNext (dst current : Nat) : List Nat :=
  ((mag.neighbors current).filter fun e => e.2.1 = .arrow ∧ e.1 ≠ dst ∧
    adjacent mag e.1 dst = true ∧ e.2.2 = .arrow ∧ parent mag e.1 dst = true).map Prod.fst

/-- Whether `visible` returns at a popped node. -/
def visibleGoal (dst current : Nat) : Bool :=
  (mag.neighbors current).any fun e => e.2.1 = .arrow ∧ e.1 ≠ dst ∧ adjacent mag e.1 dst = false

/-- `joint_response.rs:112-135`. -/
def visible (src dst : Nat) : Bool :=
  search (visibleNext mag dst) (visibleGoal mag dst) (mag.nodeCount + 1) [src]

variable {mag}

variable {a b dst c src : Nat}

theorem adjacent_iff : adjacent mag a b = true ↔ (mag.look a b).isSome = true := by
  unfold adjacent
  rw [List.any_eq_true]
  constructor
  · rintro ⟨⟨v, s, t⟩, hmem, hv⟩
    obtain ⟨m, hl⟩ := mag.mem_neighbors.mp hmem
    rw [← of_decide_eq_true hv, hl]
    rfl
  · intro hs
    obtain ⟨⟨s, t, m⟩, hl⟩ := Option.isSome_iff_exists.mp hs
    exact ⟨(b, s, t), mag.mem_neighbors.mpr ⟨m, hl⟩, decide_eq_true rfl⟩

theorem parent_iff : parent mag a b = true ↔ mag.look.Dir a b := by
  unfold parent
  rw [List.any_eq_true]
  constructor
  · rintro ⟨⟨v, s, t⟩, hmem, hv⟩
    obtain ⟨rfl, rfl, rfl⟩ := of_decide_eq_true hv
    exact mag.mem_neighbors.mp hmem
  · rintro ⟨m, hl⟩
    exact ⟨(b, .tail, .arrow), mag.mem_neighbors.mpr ⟨m, hl⟩, decide_eq_true ⟨rfl, rfl, rfl⟩⟩

theorem mem_visibleNext {d : Nat} :
    d ∈ visibleNext mag dst c ↔ mag.look.Bi c d ∧ mag.look.Dir d dst := by
  unfold visibleNext
  simp only [List.mem_map, List.mem_filter, decide_eq_true_eq, Prod.exists, exists_and_right,
    exists_eq_right]
  constructor
  · rintro ⟨s, t, hmem, rfl, -, -, rfl, hpar⟩
    exact ⟨mag.mem_neighbors.mp hmem, parent_iff.mp hpar⟩
  · rintro ⟨⟨m, hl⟩, hdir⟩
    have hadj : adjacent mag d dst = true := by
      obtain ⟨m', hl'⟩ := hdir
      exact adjacent_iff.mpr (by rw [hl']; rfl)
    have hne : d ≠ dst := by
      obtain ⟨m', hl'⟩ := hdir
      exact mag.stored.ne_of_look hl'
    exact ⟨.arrow, .arrow, mag.mem_neighbors.mpr ⟨m, hl⟩, rfl, hne, hadj, rfl,
      parent_iff.mpr hdir⟩

theorem visibleGoal_iff : visibleGoal mag dst c = true ↔
    ∃ v s m, mag.look c v = some (.arrow, s, m) ∧ v ≠ dst ∧ mag.look v dst = none := by
  have hnone : ∀ v, adjacent mag v dst = false ↔ mag.look v dst = none := fun v => by
    rw [← Bool.not_eq_true, adjacent_iff, Option.not_isSome_iff_eq_none]
  unfold visibleGoal
  rw [List.any_eq_true]
  constructor
  · rintro ⟨⟨v, s, t⟩, hmem, hv⟩
    obtain ⟨rfl, hne, hadj⟩ := of_decide_eq_true hv
    obtain ⟨m, hl⟩ := mag.mem_neighbors.mp hmem
    exact ⟨v, t, m, hl, hne, (hnone v).mp hadj⟩
  · rintro ⟨v, t, m, hl, hne, hno⟩
    exact ⟨(v, .arrow, t), mag.mem_neighbors.mpr ⟨m, hl⟩,
      decide_eq_true ⟨rfl, hne, (hnone v).mpr hno⟩⟩

theorem reach_iff_colliderReach :
    Reach (visibleNext mag dst) src c ↔ mag.look.ColliderReach src dst c := by
  constructor
  · intro h
    induction h with
    | refl => exact .start
    | tail _ hstep ih =>
      obtain ⟨hbi, hdir⟩ := mem_visibleNext.mp hstep
      exact ih.step hbi hdir
  · intro h
    induction h with
    | start => exact .refl
    | step _ hbi hdir ih => exact ih.tail (mem_visibleNext.mpr ⟨hbi, hdir⟩)

/-- **The search decides visibility.** -/
theorem visible_iff (hs : src < mag.nodeCount) :
    visible mag src dst = true ↔ mag.look.Visible src dst := by
  have hU : Bounded (visibleNext mag dst) [src] (Finset.range mag.nodeCount) := by
    refine ⟨fun v hv => ?_, fun u _ w hw => ?_⟩
    · rw [List.mem_singleton.mp hv]
      exact Finset.mem_range.mpr hs
    · obtain ⟨⟨m, hl⟩, -⟩ := mem_visibleNext.mp hw
      exact Finset.mem_range.mpr (mag.stored.lt_of_look hl).2
  unfold visible
  rw [search_iff hU (by rw [Finset.card_range]; exact Nat.lt_succ_self _)]
  simp only [List.mem_singleton, visibleGoal_iff]
  constructor
  · rintro ⟨s, c, rfl, hr, v, e, m, hl, hne, hno⟩
    exact ⟨c, v, e, m, reach_iff_colliderReach.mp hr, hl, hne, hno⟩
  · rintro ⟨c, v, e, m, hr, hl, hne, hno⟩
    exact ⟨src, c, rfl, reach_iff_colliderReach.mpr hr, v, e, m, hl, hne, hno⟩

end Visible

/-! ## The search -/

/-- `generalized.rs:369-371`. -/
def denseU32 (index : Nat) : Nat := index % (u32Max + 1)

/-- `mag_to_admg` (`generalized.rs:1053-1083`): an entry of a row is read as `as_admg` reads it. -/
def magToAdmg (mag : Pag) : Option Admg :=
  ((List.range mag.nodeCount).foldlM
    (fun admg a => (mag.neighbors a).foldlM (asAdmgEdge a) admg)
    (Admg.withVariables (denseU32 mag.nodeCount))).toOption

/-- The children of `t` on a causal path to `y`. -/
def causalChildren (graph : Admg) (t y : Nat) : List Nat :=
  (graph.children t).filter fun v => v ∈ graph.ancestorsOf [y]

/-- `generalized.rs:736-759`. -/
def properBackdoorMag (mag : Pag) (t y : Nat) : Option Admg :=
  match magToAdmg mag with
  | none => none
  | some graph =>
    if (causalChildren graph t y).any fun v => !visible mag t v then none
    else ((List.range graph.nodeCount).foldlM
      (graph.copyNode (fun a b => a ≠ t ∨ b ∉ causalChildren graph t y) fun _ _ => true)
      (Admg.withVariables (denseU32 graph.nodeCount))).toOption

/-- `generalized.rs:980-1003`. -/
def adjustmentCandidates (admg : Admg) (t y : Nat) : List Nat :=
  let an := admg.ancestorsOf [t, y]
  let deT := admg.descendantsOf [t]
  let anY := admg.ancestorsOf [y]
  let cn := (List.range admg.nodeCount).filter fun id => id ≠ t ∧ id ∈ deT ∧ id ∈ anY
  let forb := admg.descendantsOf cn
  (List.range admg.nodeCount).filter fun id =>
    (id ≠ t ∧ id ≠ y ∧ id ∉ forb) ∧ (id ∈ an ∨ id ∈ deT)

/-- Why `mag_adjustment_search` fails. -/
inductive MagFailure
  | notMag
  | notAmenable
  | notSeparated
  | capped (candidates maxCandidates : Nat)

/-- The failures that say that no adjustment set exists. -/
def MagFailure.absent : MagFailure → Prop
  | .notAmenable | .notSeparated => True
  | _ => False

/-- `generalized.rs:761-764`. -/
inductive MagAdjustment
  | found (zVars : List Nat) (examined : Nat) (budgetExhausted : Bool)
  | failed (why : MagFailure)

/-- `generalized.rs:967-973`. -/
def magDenseToVar (mag : Pag) (id : Nat) : Except IdentificationError Nat :=
  match nodeVariableId mag.nodes id with
  | some v => .ok v
  | none => .error (.unknownVariable id)

/-- `generalized.rs:791-862`. -/
def magAdjustmentSearch (mag : Pag) (t y maxCandidates maxExaminations : Nat) :
    Except IdentificationError MagAdjustment :=
  match magToAdmg mag with
  | none => .ok (.failed .notMag)
  | some admg => match properBackdoorMag mag t y with
    | none => .ok (.failed .notAmenable)
    | some mutilated => do
      let candidates := adjustmentCandidates admg t y
      let constructive := candidates.filter fun v => v ∈ admg.ancestorsOf [t, y]
      if ← separated mutilated t y constructive then
        if maxCandidates < candidates.length then
          pure (.failed (.capped candidates.length maxCandidates))
        else do
          let search ← firstSetBySize candidates 1 maxExaminations fun z =>
            if z = constructive then .ok true else separated mutilated t y z
          let zVars ← (search.found.getD constructive).mapM (magDenseToVar mag)
          pure (.found zVars search.examined search.budgetExhausted)
      else pure (.failed .notSeparated)

/-- **The generalized adjustment criterion.** -/
structure Adjusts (mag : Pag) (t y : Nat) (Z : Set Nat) : Prop where
  nodes : ∀ z ∈ Z, z < mag.nodeCount ∧ z ≠ t ∧ z ≠ y
  amenable : ∀ v, mag.mixed.dir t v → mag.mixed.Anc v y → mag.look.Visible t v
  allowed : ∀ z ∈ Z, z ∉ mag.mixed.Forbidden t y
  separated : (mag.mixed.properBackdoor t y).MSeparated {t} {y} Z

/-! ## The cut graph -/

section Cut

variable {mag : Pag} {t y : Nat}

theorem denseU32_of_le {n : Nat} (h : n ≤ u32Max) : denseU32 n = n :=
  Nat.mod_eq_of_lt (Nat.lt_succ_of_le h)

/-- **A MAG without undirected edges reads as an ADMG.** -/
theorem magToAdmg_ok (hanc : mag.look.Ancestral) (hn : mag.nodeCount ≤ u32Max) :
    ∃ admg, magToAdmg mag = some admg ∧ admg.nodeCount = mag.nodeCount ∧ admg.mixed = mag.mixed := by
  obtain ⟨admg, hok, hcount, hmixed⟩ := asAdmg_ok hanc hn
  unfold asAdmg at hok
  rw [if_neg (Nat.not_lt.mpr hn)] at hok
  refine ⟨admg, ?_, hcount, hmixed⟩
  unfold magToAdmg
  rw [denseU32_of_le hn, hok]
  rfl

variable {admg : Admg} {v : Nat}

theorem mem_causalChildren (hy : y < admg.nodeCount) :
    v ∈ causalChildren admg t y ↔ admg.mixed.dir t v ∧ admg.mixed.Anc v y := by
  unfold causalChildren
  rw [List.mem_filter, decide_eq_true_eq, Admg.mem_ancestorsOf (by simpa using hy)]
  refine and_congr_right fun _ => ?_
  constructor
  · rintro ⟨w, hw, hvw⟩
    rwa [List.mem_singleton.mp hw] at hvw
  · exact fun h => ⟨y, List.mem_singleton_self y, h⟩

/-- Every causal path starts with a visible edge. -/
def Amenable (mag : Pag) (t y : Nat) : Prop :=
  ∀ v, mag.mixed.dir t v → mag.mixed.Anc v y → mag.look.Visible t v

/-- **The cut graph**: refused when the MAG is not amenable, else the proper back-door graph. -/
theorem properBackdoorMag_spec (hanc : mag.look.Ancestral) (hn : mag.nodeCount ≤ u32Max)
    (ht : t < mag.nodeCount) (hy : y < mag.nodeCount) :
    (properBackdoorMag mag t y = none ∧ ¬ Amenable mag t y) ∨
      ∃ cut, properBackdoorMag mag t y = some cut ∧ Amenable mag t y ∧
        cut.nodeCount = mag.nodeCount ∧ cut.mixed = mag.mixed.properBackdoor t y := by
  obtain ⟨admg, hok, hcount, hmixed⟩ := magToAdmg_ok hanc hn
  have hcausal : ∀ v, v ∈ causalChildren admg t y ↔ mag.mixed.dir t v ∧ mag.mixed.Anc v y :=
    fun v => by rw [mem_causalChildren (hcount ▸ hy), hmixed]
  have hamen : ((causalChildren admg t y).any fun v => !visible mag t v) = false ↔
      Amenable mag t y := by
    rw [List.any_eq_false]
    simp only [hcausal, Bool.not_eq_true', Bool.not_eq_false, visible_iff ht, and_imp]
    exact Iff.rfl
  unfold properBackdoorMag
  rw [hok]
  cases hany : (causalChildren admg t y).any fun v => !visible mag t v with
  | true =>
    refine .inl ⟨if_pos hany, fun h => ?_⟩
    rw [hamen.mpr h] at hany
    cases hany
  | false =>
    obtain ⟨cut, hcut, hn', hdir, hbi⟩ := @Admg.copyFiltered_ok admg
      (fun a b => a ≠ t ∨ b ∉ causalChildren admg t y) (fun _ _ => true) admg.valid.node_ids
    unfold Admg.copyFiltered at hcut
    refine .inr ⟨cut, ?_, hamen.mp hany, hn'.trans hcount, MixedGraph.ext ?_ ?_⟩
    · refine (if_neg (hany ▸ Bool.false_ne_true)).trans ?_
      rw [denseU32_of_le (hcount.symm ▸ hn), hcut]
      rfl
    · funext a b
      refine propext ((hdir a b).trans ?_)
      rw [decide_eq_true_eq, hcausal, hmixed]
      show _ ∧ _ ↔ _ ∧ _
      refine and_congr_right fun hab => ?_
      constructor
      · rintro (hne | hno) ⟨rfl, hbanc⟩
        exacts [hne rfl, hno ⟨hab, hbanc⟩]
      · exact fun h => or_iff_not_imp_left.mpr fun hat hc => h ⟨not_not.mp hat, hc.2⟩
    · funext a b
      refine propext ((hbi a b).trans ?_)
      rw [hmixed]
      exact and_iff_left rfl

/-- **What may adjust**: other nodes that are not forbidden, and of them those above `t` or `y` or
below `t`. -/
theorem mem_adjustmentCandidates (ht : t < admg.nodeCount) (hy : y < admg.nodeCount)
    : v ∈ adjustmentCandidates admg t y ↔ v < admg.nodeCount ∧ v ≠ t ∧ v ≠ y ∧
      v ∉ admg.mixed.Forbidden t y ∧ (v ∈ admg.mixed.AncSet {t, y} ∨ admg.mixed.Anc t v) := by
  have hone : ∀ {s}, s < admg.nodeCount → ∀ v ∈ [s], v < admg.nodeCount := fun hs v hv =>
    List.mem_singleton.mp hv ▸ hs
  have hdown : ∀ v, v ∈ admg.descendantsOf [t] ↔ admg.mixed.Anc t v := fun v => by
    rw [mem_descendantsOf (hone ht)]
    simp
  have hup : ∀ v, v ∈ admg.ancestorsOf [y] ↔ admg.mixed.Anc v y := fun v => by
    rw [Admg.mem_ancestorsOf (hone hy)]
    simp [MixedGraph.AncSet]
  have hancs : ∀ v, v ∈ admg.ancestorsOf [t, y] ↔ v ∈ admg.mixed.AncSet {t, y} := fun v => by
    rw [Admg.mem_ancestorsOf (by simp [ht, hy])]
    simp [MixedGraph.AncSet]
  have hcn : ∀ c, c ∈ ((List.range admg.nodeCount).filter fun id =>
      id ≠ t ∧ id ∈ admg.descendantsOf [t] ∧ id ∈ admg.ancestorsOf [y]) ↔
      c < admg.nodeCount ∧ c ≠ t ∧ admg.mixed.Anc t c ∧ admg.mixed.Anc c y := fun c => by
    rw [List.mem_filter, List.mem_range, decide_eq_true_eq, hdown, hup]
  have hforb : ∀ v, v ∈ admg.descendantsOf ((List.range admg.nodeCount).filter fun id =>
      id ≠ t ∧ id ∈ admg.descendantsOf [t] ∧ id ∈ admg.ancestorsOf [y]) ↔
      v ∈ admg.mixed.Forbidden t y := fun v => by
    rw [mem_descendantsOf fun c hc => ((hcn c).mp hc).1]
    constructor
    · rintro ⟨c, hc, hcv⟩
      obtain ⟨-, hne, htc, hcy⟩ := (hcn c).mp hc
      exact ⟨c, hne, htc, hcy, hcv⟩
    · rintro ⟨c, hne, htc, hcy, hcv⟩
      refine ⟨c, (hcn c).mpr ⟨?_, hne, htc, hcy⟩, hcv⟩
      exact lt_of_mem_ancSet (S := {y}) (fun u hu => hu ▸ hy) ⟨y, rfl, hcy⟩
  unfold adjustmentCandidates
  rw [List.mem_filter, List.mem_range, decide_eq_true_eq, hforb, hancs, hdown]
  simp only [and_assoc]

theorem properBackdoor_acyclic_lt (ht : t < mag.nodeCount) (hy : y < mag.nodeCount)
    (h : v ∈ mag.mixed.AncSet {t, y}) : v < mag.nodeCount := by
  obtain ⟨w, hw, hvw⟩ := h
  have hlt : w < mag.nodeCount := by
    rcases hw with rfl | hw
    · exact ht
    · exact Set.mem_singleton_iff.mp hw ▸ hy
  obtain rfl | ⟨u, ⟨m, hvu⟩, -⟩ := Relation.ReflTransGen.cases_head hvw
  · exact hlt
  · exact (mag.stored.lt_of_look hvu).1

/-- **Where some set adjusts, the allowed ancestors of the two do.** -/
theorem Adjusts.constructive {Z : Set Nat} (h : Adjusts mag t y Z) :
    (mag.mixed.properBackdoor t y).MSeparated {t} {y}
      (mag.mixed.AncSet {t, y} ∩ {v | v ≠ t ∧ v ≠ y ∧ v ∉ mag.mixed.Forbidden t y}) := by
  have hsub : Z ⊆ {v | v ≠ t ∧ v ≠ y ∧ v ∉ mag.mixed.Forbidden t y} := fun z hz =>
    ⟨(h.nodes z hz).2.1, (h.nodes z hz).2.2, h.allowed z hz⟩
  have hsep := MixedGraph.mSeparated_ancestral hsub h.separated
  rwa [MixedGraph.properBackdoor_ancSet] at hsep

/-- What `mag_adjustment_search` may report. -/
structure SearchExact (mag : Pag) (t y : Nat) (r : Except IdentificationError MagAdjustment) :
    Prop where
  /-- No set is reported absent where one adjusts. -/
  absent : ∀ why : MagFailure, why.absent → r = .ok (.failed why) → ∀ Z, ¬ Adjusts mag t y Z
  /-- A set that is returned adjusts. -/
  found : ∀ zVars examined exhausted, r = .ok (.found zVars examined exhausted) →
    ∃ z : List Nat, z.mapM (magDenseToVar mag) = .ok zVars ∧ Adjusts mag t y {v | v ∈ z}

theorem magAdjustmentSearch_fits (hanc : mag.look.Ancestral) (hn : mag.nodeCount ≤ u32Max)
    (ht : t < mag.nodeCount) (hy : y < mag.nodeCount) (maxCandidates maxExaminations : Nat) :
    SearchExact mag t y (magAdjustmentSearch mag t y maxCandidates maxExaminations) := by
  obtain ⟨admg, hok, hcount, hmixed⟩ := magToAdmg_ok hanc hn
  unfold magAdjustmentSearch
  rw [hok]
  obtain ⟨hnone, hno⟩ | ⟨cut, hcut, hamen, hcutn, hcutm⟩ := properBackdoorMag_spec hanc hn ht hy
  · rw [hnone]
    exact ⟨fun why _ _ Z hZ => hno hZ.amenable, fun _ _ _ h => nomatch h⟩
  rw [hcut]
  simp only
  set candidates := adjustmentCandidates admg t y with hcand
  set constructive := candidates.filter fun v => v ∈ admg.ancestorsOf [t, y] with hcons
  have hmem : ∀ v, v ∈ candidates ↔ v < mag.nodeCount ∧ v ≠ t ∧ v ≠ y ∧
      v ∉ mag.mixed.Forbidden t y ∧ (v ∈ mag.mixed.AncSet {t, y} ∨ mag.mixed.Anc t v) := fun v => by
    rw [hcand, mem_adjustmentCandidates (hcount ▸ ht) (hcount ▸ hy), hmixed, hcount]
  have hset : {v | v ∈ constructive} = mag.mixed.AncSet {t, y} ∩
      {v | v ≠ t ∧ v ≠ y ∧ v ∉ mag.mixed.Forbidden t y} := by
    ext v
    rw [Set.mem_ofPred_eq, hcons, List.mem_filter, hmem, decide_eq_true_eq,
      Admg.mem_ancestorsOf (by simp [hcount ▸ ht, hcount ▸ hy]), hmixed]
    have hpair : {v | v ∈ [t, y]} = ({t, y} : Set Nat) := by
      ext u
      simp
    rw [hpair]
    constructor
    · rintro ⟨⟨-, hvt, hvy, hforb, -⟩, hva⟩
      exact ⟨hva, hvt, hvy, hforb⟩
    · rintro ⟨hva, hvt, hvy, hforb⟩
      exact ⟨⟨properBackdoor_acyclic_lt ht hy hva, hvt, hvy, hforb, .inl hva⟩, hva⟩
  -- the test decides which candidate sets adjust
  have htest : ∀ z : List Nat, z ⊆ candidates → ∃ b, separated cut t y z = .ok b ∧
      (b = true ↔ (mag.mixed.properBackdoor t y).MSeparated {t} {y} {v | v ∈ z}) := fun z hz =>
    hcutm ▸ separated_iff (hcutn ▸ ht) (hcutn ▸ hy)
      (fun v hv => hcutn ▸ ((hmem v).mp (hz hv)).1) (fun hv => ((hmem t).mp (hz hv)).2.1 rfl)
      fun hv => ((hmem y).mp (hz hv)).2.2.1 rfl
  have hadjusts : ∀ z : List Nat, z ⊆ candidates →
      (mag.mixed.properBackdoor t y).MSeparated {t} {y} {v | v ∈ z} →
      Adjusts mag t y {v | v ∈ z} := fun z hz hs => by
    refine ⟨fun v hv => ?_, hamen, fun v hv => ((hmem v).mp (hz hv)).2.2.2.1, hs⟩
    obtain ⟨hlt, hvt, hvy, -⟩ := (hmem v).mp (hz hv)
    exact ⟨hlt, hvt, hvy⟩
  have hsub : constructive ⊆ candidates := fun v hv => List.mem_of_mem_filter hv
  obtain ⟨b, hb, hbiff⟩ := htest constructive hsub
  rw [hb]
  cases b with
  | false =>
    refine ⟨fun why _ _ Z hZ => absurd (hbiff.mpr ?_) Bool.false_ne_true, fun _ _ _ h => nomatch h⟩
    rw [hset]
    exact hZ.constructive
  | true =>
    have hgood : Adjusts mag t y {v | v ∈ constructive} := hadjusts _ hsub (hbiff.mp rfl)
    simp only [bind, Except.bind, if_true]
    split
    · refine ⟨fun why habs h => ?_, fun _ _ _ h => nomatch h⟩
      obtain rfl := MagAdjustment.failed.inj (Except.ok.inj h)
      exact habs.elim
    · obtain ⟨r, hr, hof⟩ := @firstSetBySize_spec _ maxExaminations
        (fun z => if z = constructive then .ok true else separated cut t y z)
        (fun z => (mag.mixed.properBackdoor t y).MSeparated {t} {y} {v | v ∈ z}) candidates 1
        fun z hz => by
          by_cases he : z = constructive
          · exact ⟨true, if_pos he, iff_of_true rfl (he ▸ hgood.separated)⟩
          · obtain ⟨b, hb, hiff⟩ := htest z hz.subset
            exact ⟨b, (if_neg he).trans hb, hiff⟩
      rw [hr]
      have hz : Adjusts mag t y {v | v ∈ r.found.getD constructive} := by
        cases hf : r.found with
        | none => exact hgood
        | some z => exact hadjusts z (hof.found z hf).1.subset (hof.found z hf).2
      simp only
      cases hv : (r.found.getD constructive).mapM (magDenseToVar mag) with
      | error e => exact ⟨fun _ _ h => (nomatch h), fun _ _ _ h => nomatch h⟩
      | ok vars =>
        refine ⟨fun why _ h => (nomatch h), fun zVars examined exhausted h => ?_⟩
        obtain ⟨rfl, -, -⟩ := MagAdjustment.found.inj (Except.ok.inj h)
        exact ⟨_, hv, hz⟩

theorem foldlM_stays {σ α ε : Type} {f : σ → α → Except ε σ} {s : σ}
    (h : ∀ a s', f s a = .ok s' → s' = s) : ∀ {l : List α} {r : σ}, l.foldlM f s = .ok r → r = s
  | [], _, hr => (Except.ok.inj hr).symm
  | a :: l, r, hr => by
    rw [List.foldlM_cons] at hr
    cases hf : f s a with
    | error e =>
      rw [hf] at hr
      cases hr
    | ok s' =>
      rw [hf, h a s' hf] at hr
      exact foldlM_stays h hr

/-- Over a count that the ids do not hold the conversion starts from no nodes, and adds nothing. -/
theorem magToAdmg_overflow (hn : u32Max < mag.nodeCount)
    (h : magToAdmg mag = some admg) : admg.nodeCount = 0 := by
  have hzero : denseU32 mag.nodeCount = 0 := by
    have hle : mag.nodeCount ≤ u32Max + 1 := mag.node_ids
    have heq : mag.nodeCount = u32Max + 1 := Nat.le_antisymm hle hn
    unfold denseU32
    rw [heq, Nat.mod_self]
  have hempty : (Admg.withVariables 0).nodeCount = 0 := rfl
  have hd : ∀ a b, (Admg.withVariables 0).insertDirected a b = .error (.unknownNode a) := fun a b => by
    unfold Admg.insertDirected
    rw [dif_neg (hempty ▸ Nat.not_lt_zero a)]
  have hb : ∀ a b, (Admg.withVariables 0).insertBidirected a b = .error (.unknownNode a) := fun a b => by
    unfold Admg.insertBidirected
    rw [dif_neg (hempty ▸ Nat.not_lt_zero a)]
  have hedge : ∀ a e admg', asAdmgEdge a (Admg.withVariables 0) e = .ok admg' →
      admg' = Admg.withVariables 0 := fun a e admg' he => by
    unfold asAdmgEdge at he
    split at he
    · exact (Except.ok.inj he).symm
    · split at he
      · rw [hd] at he
        cases he
      · rw [hd] at he
        cases he
      · rw [hb] at he
        cases he
      · cases he
  unfold magToAdmg at h
  rw [hzero] at h
  cases hr : (List.range mag.nodeCount).foldlM
      (fun admg a => (mag.neighbors a).foldlM (asAdmgEdge a) admg) (Admg.withVariables 0) with
  | error e =>
    rw [hr] at h
    cases h
  | ok r =>
    rw [hr] at h
    obtain rfl := Option.some.inj h
    rw [foldlM_stays (fun a s' hs => foldlM_stays (hedge a) hs) hr]
    exact hempty

/-- **The search is exact**, whatever its budgets. -/
theorem magAdjustmentSearch_exact (hanc : mag.look.Ancestral) (ht : t < mag.nodeCount)
    (hy : y < mag.nodeCount) (maxCandidates maxExaminations : Nat) :
    SearchExact mag t y (magAdjustmentSearch mag t y maxCandidates maxExaminations) := by
  by_cases hn : mag.nodeCount ≤ u32Max
  · exact magAdjustmentSearch_fits hanc hn ht hy maxCandidates maxExaminations
  -- the converted graph has no node to ask about
  have hnone : magAdjustmentSearch mag t y maxCandidates maxExaminations = .ok (.failed .notMag) ∨
      ∃ e, magAdjustmentSearch mag t y maxCandidates maxExaminations = .error e := by
    unfold magAdjustmentSearch properBackdoorMag
    cases hadmg : magToAdmg mag with
    | none => exact .inl rfl
    | some admg =>
      have hzero := magToAdmg_overflow (Nat.lt_of_not_le hn) hadmg
      have hchild : admg.children t = [] := List.eq_nil_iff_forall_not_mem.mpr fun v hv =>
        absurd (hzero ▸ (admg.valid.in_range t v hv).1) (Nat.not_lt_zero t)
      have hcausal : causalChildren admg t y = [] := by
        unfold causalChildren
        rw [hchild, List.filter_nil]
      refine .inr ⟨.graph (.unknownNode t), ?_⟩
      simp only [hcausal, List.any_nil, if_neg Bool.false_ne_true, hzero]
      rfl
  obtain hmag | ⟨e, herr⟩ := hnone
  · rw [hmag]
    refine ⟨fun why habs h => ?_, fun _ _ _ h => nomatch h⟩
    obtain rfl := MagAdjustment.failed.inj (Except.ok.inj h)
    exact habs.elim
  · rw [herr]
    exact ⟨fun _ _ h => (nomatch h), fun _ _ _ h => nomatch h⟩

end Cut

end Antecedent.Identify
