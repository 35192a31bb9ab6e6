import Antecedent.Identify.MagAdjustment

/-!
# The joint response

Model of `identify_joint` over a known ADMG (`joint_response.rs:140-256`), where every edge is
visible. Of a response query only what `prepare_joint_response` reads is kept: the verdicts of its
checks, the treatments and the outcome.

* **`adjustment_refusals`**: the two searches for an adjustment refuse only where nothing adjusts.
-/

namespace Antecedent.Identify

open Graph
open Mixed

/-- What `prepare_joint_response` reads of a `ResponseQuery`. -/
structure ResponseQuery where
  valid : Bool
  temporal : Bool
  completeObservation : Bool
  interventionResponse : Bool
  treatmentIds : List Nat
  primaryOutcome : Option Nat

/-- Lines 141-147. -/
structure PreparedJointResponse where
  treatments : List Nat
  outcome : Nat
  targets : List Nat
  y : Nat

/-- Lines 149-189. -/
def prepareJointResponse (nodes : List NodeRef) (response : ResponseQuery) :
    Except IdentificationError PreparedJointResponse := do
  if !response.valid then
    throw (.unsupportedQuery "invalid joint response query")
  if response.temporal || !response.completeObservation then
    throw (.unsupportedQuery "joint adjustment requires complete-observation static data")
  if !response.interventionResponse then
    throw (.unsupportedQuery "joint adjustment requires InterventionResponse")
  if response.treatmentIds.length < 2 || !decide response.treatmentIds.Nodup then
    throw (.unsupportedQuery "joint response requires at least two distinct treatment targets")
  match response.primaryOutcome with
  | none => throw (.unsupportedQuery "joint response has no outcome")
  | some outcome =>
    let targets ← response.treatmentIds.mapM (denseOfStatic nodes)
    let y ← denseOfStatic nodes outcome
    pure ⟨response.treatmentIds, outcome, targets, y⟩

/-- What `identify_joint` reports. -/
inductive JointResponse
  | capped (candidates maxCandidates : Nat)
  | bounded (examined maxExaminations : Nat)
  | unidentified (examined : Nat)
  | identified (z : List Nat) (treatments : List Nat) (outcome : Nat) (examined : Nat)

/-- `backdoor_graph` (`joint_response.rs:319-333`), every edge visible. -/
def backdoorGraph (graph : Admg) (target : Nat) : Except IdentificationError Admg :=
  (graph.copyFiltered (fun src _ => src ≠ target) fun _ _ => true).mapError .graph

/-- The test of a common set: each treatment in its own graph, the others conditioned on. -/
def commonSet (targets : List Nat) (y : Nat) (z : List Nat) :
    List (Nat × Admg) → Except IdentificationError Bool
  | [] => .ok true
  | (target, graph) :: rest => do
    if ← separated graph target y (z ++ targets.filter (· ≠ target)) then
      commonSet targets y z rest
    else pure false

/-- `identify_joint` (`joint_response.rs:192-256`) as `identify_joint_admg_response` calls it. -/
def identifyJoint (graph : Admg) (response : ResponseQuery) (maxCandidates maxExaminations : Nat) :
    Except IdentificationError JointResponse := do
  let prepared ← prepareJointResponse graph.nodes response
  let descendants := graph.descendantsOf prepared.targets
  let ancestors := graph.ancestorsOf (prepared.targets ++ [prepared.y])
  let candidates := (List.range graph.nodeCount).filter fun v =>
    v ≠ prepared.y ∧ v ∉ descendants ∧ v ∈ ancestors
  if maxCandidates < candidates.length then pure (.capped candidates.length maxCandidates)
  else do
    let backdoorGraphs ← prepared.targets.mapM (backdoorGraph graph)
    let search ← firstSetBySize candidates 0 maxExaminations fun z =>
      commonSet prepared.targets prepared.y z (prepared.targets.zip backdoorGraphs)
    match search.found with
    | some z => pure (.identified z prepared.treatments prepared.outcome search.examined)
    | none =>
      if search.budgetExhausted then pure (.bounded search.examined maxExaminations)
      else pure (.unidentified search.examined)

/-! ## The criterion -/

def otherTargets (targets : List Nat) (t : Nat) : Set Nat := {s | s ∈ targets ∧ s ≠ t}

/-- **The joint criterion**: nothing of the set is below a treatment, and each treatment is separated
from the outcome, without the edges out of it, by the set and the other treatments. -/
structure JointCriterion (G : MixedGraph Nat) (targets : List Nat) (y : Nat) (Z : Set Nat) :
    Prop where
  apart : ∀ z ∈ Z, z ≠ y ∧ ∀ t ∈ targets, ¬ G.Anc t z
  separated : ∀ t ∈ targets,
    (G.mutilate ∅ {t}).MSeparated {t} {y} (Z ∪ otherTargets targets t)

section Criterion

variable {G : MixedGraph Nat} {targets : List Nat} {y : Nat} {Z : Set Nat}

theorem JointCriterion.outcome_apart (h : JointCriterion G targets y Z) : y ∉ targets := fun hy =>
  h.separated y hy y rfl y rfl .refl

def jointAncestors (G : MixedGraph Nat) (targets : List Nat) (y : Nat) : Set Nat :=
  G.AncSet ({s | s ∈ targets} ∪ {y})

/-- **A common set restricted to the ancestors is one.** -/
theorem jointCriterion_restrict (h : JointCriterion G targets y Z) :
    JointCriterion G targets y (Z ∩ jointAncestors G targets y) := by
  have hself : ∀ s ∈ targets, s ∈ jointAncestors G targets y := fun s hs =>
    MixedGraph.mem_ancSet_of_mem (.inl hs)
  refine ⟨fun z hz => h.apart z hz.1, fun t ht => ?_⟩
  have hclosed : (G.mutilate ∅ {t}).AncSet (jointAncestors G targets y) ⊆
      jointAncestors G targets y := by
    rintro v ⟨w, hw, hvw⟩
    exact MixedGraph.ancSet_of_anc hvw.of_mutilate hw
  have hcut : (Z ∪ otherTargets targets t) ∩ jointAncestors G targets y =
      Z ∩ jointAncestors G targets y ∪ otherTargets targets t := by
    rw [Set.union_inter_distrib_right]
    congr 1
    exact Set.inter_eq_left.mpr fun s hs => hself s hs.1
  rw [← hcut]
  refine MixedGraph.mSeparated_restrict hclosed ?_ ?_ (h.separated t ht)
  · exact Set.singleton_subset_iff.mpr (hself t ht)
  · exact Set.singleton_subset_iff.mpr (MixedGraph.mem_ancSet_of_mem (.inr rfl))

end Criterion

/-! ## The search -/

section Joint

variable {graph : Admg} {targets : List Nat} {y : Nat} {response : ResponseQuery}
  {nodes : List NodeRef}
  {prepared : PreparedJointResponse}

theorem backdoorGraph_ok (graph : Admg) (target : Nat) : ∃ g, backdoorGraph graph target = .ok g ∧
    g.nodeCount = graph.nodeCount ∧ g.mixed = graph.mixed.mutilate ∅ {target} := by
  obtain ⟨g, hg, hn, hdir, hbi⟩ := @Admg.copyFiltered_ok graph (fun src _ => src ≠ target)
    (fun _ _ => true) graph.valid.node_ids
  refine ⟨g, ?_, hn, MixedGraph.ext (funext₂ fun a b => propext ?_)
    (funext₂ fun a b => propext ?_)⟩
  · unfold backdoorGraph
    rw [hg]
    rfl
  · rw [hdir]
    simp [MixedGraph.mutilate]
  · rw [hbi]
    simp [MixedGraph.mutilate]

/-- **The test decides the common sets.** -/
theorem commonSet_spec {z : List Nat} (hy : y < graph.nodeCount) (hyt : y ∉ targets)
    (htlt : ∀ t ∈ targets, t < graph.nodeCount) (hz : ∀ v ∈ z, v < graph.nodeCount)
    (hzy : y ∉ z) (hzt : ∀ t ∈ targets, t ∉ z) : ∀ {ts : List Nat}, ts ⊆ targets →
    ∃ graphs b, ts.mapM (backdoorGraph graph) = .ok graphs ∧
      commonSet targets y z (ts.zip graphs) = .ok b ∧
      (b = true ↔ ∀ t ∈ ts, (graph.mixed.mutilate ∅ {t}).MSeparated {t} {y}
        ({v | v ∈ z} ∪ otherTargets targets t))
  | [], _ => ⟨[], true, rfl, rfl, by simp⟩
  | t :: ts, hsub => by
    obtain ⟨ht, hts⟩ := List.cons_subset.mp hsub
    obtain ⟨g, hg, hn, hmixed⟩ := backdoorGraph_ok graph t
    obtain ⟨graphs, b, hgs, hb, hiff⟩ := commonSet_spec hy hyt htlt hz hzy hzt hts
    have hset : {v | v ∈ z ++ targets.filter (· ≠ t)} = {v | v ∈ z} ∪ otherTargets targets t := by
      ext v
      simp [otherTargets]
    obtain ⟨c, hc, hciff⟩ := separated_iff (g := g) (x := t) (y := y)
      (z := z ++ targets.filter (· ≠ t)) (hn ▸ htlt t ht) (hn ▸ hy)
      (fun v hv => by
        obtain hv | hv := List.mem_append.mp hv
        · exact hn ▸ hz v hv
        · exact hn ▸ htlt v (List.mem_of_mem_filter hv))
      (fun hv => by
        obtain hv | hv := List.mem_append.mp hv
        · exact hzt t ht hv
        · exact of_decide_eq_true (List.mem_filter.mp hv).2 rfl)
      fun hv => by
        obtain hv | hv := List.mem_append.mp hv
        · exact hzy hv
        · exact hyt (List.mem_of_mem_filter hv)
    rw [hmixed, hset] at hciff
    refine ⟨g :: graphs, c && b, ?_, ?_, ?_⟩
    · rw [List.mapM_cons, hg, hgs]
      rfl
    · rw [List.zip_cons_cons]
      unfold commonSet
      rw [hc]
      cases c with
      | false => rfl
      | true => exact hb
    · rw [Bool.and_eq_true, hciff, hiff, List.forall_mem_cons]

theorem prepareJointResponse_resolved
    (h : prepareJointResponse nodes response = .ok prepared) :
    prepared.treatments.mapM (denseOfStatic nodes) = .ok prepared.targets ∧
      denseOfStatic nodes prepared.outcome = .ok prepared.y := by
  unfold prepareJointResponse at h
  simp only [bind, Except.bind, throw, throwThe, MonadExceptOf.throw, pure, Except.pure] at h
  split_ifs at h
  cases hp : response.primaryOutcome with
  | none => simp [hp] at h
  | some outcome =>
    cases ht : response.treatmentIds.mapM (denseOfStatic nodes) with
    | error e => simp [hp, ht] at h
    | ok targets =>
      cases hy : denseOfStatic nodes outcome with
      | error e => simp [hp, ht, hy] at h
      | ok y =>
        simp only [hp, ht, hy] at h
        obtain rfl := Except.ok.inj h
        exact ⟨ht, hy⟩

theorem prepareJointResponse_lt
    (h : prepareJointResponse nodes response = .ok prepared) :
    (∀ t ∈ prepared.targets, t < nodes.length) ∧ prepared.y < nodes.length := by
  obtain ⟨ht, hy⟩ := prepareJointResponse_resolved h
  refine ⟨fun t hmem => ?_, denseOfStatic_lt hy⟩
  obtain ⟨id, -, hid⟩ := (mem_mapM ht t).mp hmem
  exact denseOfStatic_lt hid

/-- The candidates are the nodes above a treatment or the outcome, and below no treatment. -/
theorem mem_jointCandidates (htlt : ∀ t ∈ targets, t < graph.nodeCount) (hy : y < graph.nodeCount)
    {v : Nat} : v ∈ ((List.range graph.nodeCount).filter fun v => v ≠ y ∧
        v ∉ graph.descendantsOf targets ∧ v ∈ graph.ancestorsOf (targets ++ [y])) ↔
      v ≠ y ∧ (∀ t ∈ targets, ¬ graph.mixed.Anc t v) ∧
        v ∈ jointAncestors graph.mixed targets y := by
  have hseeds : ∀ u ∈ targets ++ [y], u < graph.nodeCount := fun u hu => by
    obtain hu | hu := List.mem_append.mp hu
    · exact htlt u hu
    · exact List.mem_singleton.mp hu ▸ hy
  have hset : {u | u ∈ targets ++ [y]} = ({s | s ∈ targets} ∪ {y} : Set Nat) := by
    ext u
    simp [or_comm]
  rw [List.mem_filter, List.mem_range, decide_eq_true_eq, mem_descendantsOf htlt,
    Admg.mem_ancestorsOf hseeds, hset]
  constructor
  · rintro ⟨-, hvy, hno, hanc⟩
    exact ⟨hvy, fun t ht htv => hno ⟨t, ht, htv⟩, hanc⟩
  · rintro ⟨hvy, hno, hanc⟩
    refine ⟨lt_of_mem_ancSet (fun u hu => hseeds u (hset.symm.subset hu)) hanc, hvy, ?_, hanc⟩
    rintro ⟨t, ht, htv⟩
    exact hno t ht htv

/-- **A refusal that no budget forced means that no set is common.** -/
theorem identifyJoint_refuses {maxCandidates maxExaminations n : Nat}
    (h : identifyJoint graph response maxCandidates maxExaminations = .ok (.unidentified n)) :
    ∃ prepared, prepareJointResponse graph.nodes response = .ok prepared ∧
      ∀ Z : Set Nat, ¬ JointCriterion graph.mixed prepared.targets prepared.y Z := by
  unfold identifyJoint at h
  obtain ⟨prepared, hp, h⟩ := bind_ok h
  refine ⟨prepared, hp, fun Z hZ => ?_⟩
  obtain ⟨htlt, hylt⟩ := prepareJointResponse_lt hp
  have hyt := hZ.outcome_apart
  have hcand := fun v => @mem_jointCandidates graph _ _ htlt hylt v
  simp only [bind, Except.bind] at h
  set candidates := (List.range graph.nodeCount).filter fun v => v ≠ prepared.y ∧
    v ∉ graph.descendantsOf prepared.targets ∧
    v ∈ graph.ancestorsOf (prepared.targets ++ [prepared.y])
  -- the common set, read off among the candidates
  classical
  obtain ⟨z, hzsub, hzset⟩ := @Discovery.exists_sublist_of_subset candidates
    (Z ∩ jointAncestors graph.mixed prepared.targets prepared.y) _ fun v hv =>
      (hcand v).mpr ⟨(hZ.apart v hv.1).1, (hZ.apart v hv.1).2, hv.2⟩
  split at h
  · cases h
  have hspec := fun (w : List Nat) (hw : w.Sublist candidates) =>
    @commonSet_spec graph prepared.targets prepared.y w hylt hyt htlt
      (fun v hv => List.mem_range.mp (List.mem_of_mem_filter (hw.subset hv)))
      (fun hv => ((hcand _).mp (hw.subset hv)).1 rfl)
      (fun t ht hv => ((hcand _).mp (hw.subset hv)).2.1 t ht .refl)
      _ (List.Subset.refl prepared.targets)
  obtain ⟨graphs, -, hgraphs, -⟩ := hspec [] (List.nil_sublist _)
  rw [hgraphs] at h
  obtain ⟨r, hr, hof⟩ := @firstSetBySize_spec _ maxExaminations
    (fun w => commonSet prepared.targets prepared.y w (prepared.targets.zip graphs))
    (fun w => ∀ t ∈ prepared.targets, (graph.mixed.mutilate ∅ {t}).MSeparated {t} {prepared.y}
      ({v | v ∈ w} ∪ otherTargets prepared.targets t)) candidates 0
    fun w hw => by
      obtain ⟨gs, b, hgs, hb, hiff⟩ := hspec w hw
      obtain rfl := Except.ok.inj (hgraphs.symm.trans hgs)
      exact ⟨b, hb, hiff⟩
  simp only [hr] at h
  cases hf : r.found with
  | some w =>
    rw [hf] at h
    cases h
  | none =>
    rw [hf] at h
    cases hb : r.budgetExhausted with
    | true =>
      rw [hb] at h
      cases h
    | false =>
      refine hof.none hf hb z hzsub ?_
      rw [hzset]
      exact (jointCriterion_restrict hZ).separated

end Joint

/-- **Both searches refuse only where nothing adjusts**, whatever their budgets: over every MAG
without undirected edges the set search reports no set absent where one meets the generalized
adjustment criterion and returns such sets only, and over every ADMG the joint search refuses
without a budget only where no set meets the joint criterion. -/
theorem adjustment_refusals (maxCandidates maxExaminations : Nat) :
    (∀ (mag : Pag) (t y : Nat), mag.look.Ancestral → t < mag.nodeCount → y < mag.nodeCount →
      SearchExact mag t y (magAdjustmentSearch mag t y maxCandidates maxExaminations)) ∧
    ∀ (graph : Admg) (response : ResponseQuery) (examined : Nat),
      identifyJoint graph response maxCandidates maxExaminations = .ok (.unidentified examined) →
      ∃ prepared, prepareJointResponse graph.nodes response = .ok prepared ∧
        ∀ Z : Set Nat, ¬ JointCriterion graph.mixed prepared.targets prepared.y Z :=
  ⟨fun _ _ _ hanc ht hy => magAdjustmentSearch_exact hanc ht hy maxCandidates maxExaminations,
    fun _ _ _ h => identifyJoint_refuses h⟩

/-- `T ← Z → Y` in a MAG: `Z` is returned, and adjusts. Two treatments, one of them confounded with
the outcome: nothing is common. -/
theorem adjustment_refusals_confounded :
    (∃ mag : Pag, ((Pag.withVariables 3).insertDirected 2 0 >>= fun g => g.insertDirected 2 1) =
        .ok mag ∧ ∃ z : List Nat, z.mapM (magDenseToVar mag) = .ok [2] ∧
          Adjusts mag 0 1 {v | v ∈ z}) ∧
    ∃ graph : Admg, (Admg.withVariables 3).insertBidirected 0 2 = .ok graph ∧
      ∀ Z : Set Nat, ¬ JointCriterion graph.mixed [0, 1] 2 Z := by
  constructor
  · obtain ⟨mag, hmag, hanc, hn, hr⟩ : ∃ mag : Pag, ((Pag.withVariables 3).insertDirected 2 0 >>=
        fun g => g.insertDirected 2 1) = .ok mag ∧ isAncestralOrientation mag = true ∧
        mag.nodeCount = 3 ∧ magAdjustmentSearch mag 0 1 8 8 = .ok (.found [2] 3 false) :=
      ⟨_, rfl, rfl, rfl, rfl⟩
    have hexact := (adjustment_refusals 8 8).1 mag 0 1 (isAncestralOrientation_iff.mp hanc)
      (by omega) (by omega)
    exact ⟨mag, hmag, hexact.found _ _ _ hr⟩
  · obtain ⟨graph, hgraph, hr, hp⟩ : ∃ graph : Admg,
        (Admg.withVariables 3).insertBidirected 0 2 = .ok graph ∧
        identifyJoint graph ⟨true, false, true, true, [0, 1], some 2⟩ 8 8 = .ok (.unidentified 1) ∧
        prepareJointResponse graph.nodes ⟨true, false, true, true, [0, 1], some 2⟩ =
          .ok ⟨[0, 1], 2, [0, 1], 2⟩ := ⟨_, rfl, rfl, rfl⟩
    obtain ⟨prepared, hp', hno⟩ := (adjustment_refusals 8 8).2 graph _ _ hr
    obtain rfl := Except.ok.inj (hp.symm.trans hp')
    exact ⟨graph, hgraph, hno⟩

end Antecedent.Identify
