import Antecedent.Identify.Adjustment
import Antecedent.Io.AdmgForm
import Antecedent.Mixed.Subproblem

/-!
# Hedge certificates

Model of `antecedent-identify/src/hedge.rs`: a pair of node sets, the problem it was found in when
its producer attached one, and the check of the pair against a prepared graph. A captured problem
lists the edges of the graph; the graph it is rebuilt into has static nodes only.

* `isSingleCComponent_iff`: the test on the districts is bidirected connectedness.
* **`verify_iff`**: the check accepts a pair of sets of nodes iff it is a hedge.
* **`prepare_capture`**: the rebuilt graph has the nodes, labels and edges of the captured one.
* **`verifyCarried_capture`**: hence a hedge that carries its problem passes its own check.
-/

namespace Antecedent.Identify

open Graph Relation
open Machine
open Mixed

/-! ## The source -/

/-- Lines 19-30. -/
structure HedgeProblem where
  variableIds : List Nat
  directed : List (Nat × Nat)
  bidirected : List (Nat × Nat)
  treatments : List Nat
  outcomes : List Nat

/-- Lines 92-106. -/
structure HedgeCertificate where
  f : List Nat
  fPrime : List Nat
  fDense : List Nat
  fPrimeDense : List Nat
  problem : Option HedgeProblem

namespace HedgeProblem

/-- Lines 38-68. -/
def capture (p : PreparedAdmg) (x y : Finset Nat) : HedgeProblem where
  variableIds := (List.range p.admg.nodeCount).map p.denseToVar
  directed := (Io.directedPairs p.admg).insertionSort (pairLe · ·)
  bidirected := (Io.bidirectedPairs p.admg).insertionSort (pairLe · ·)
  treatments := p.vars x
  outcomes := p.vars y

/-- The graph `prepare` rebuilds (`hedge.rs:76-85`). -/
def rebuild (q : HedgeProblem) : Except GraphError Admg := do
  let g ← q.variableIds.foldlM (fun g v => (g.addNode (.static v)).map Prod.fst) Admg.empty
  let g ← q.directed.foldlM (fun g e => g.insertDirected e.1 e.2) g
  q.bidirected.foldlM (fun g e => g.insertBidirected e.1 e.2) g

/-- Lines 75-87. -/
def prepare (q : HedgeProblem) : Except IdentificationError PreparedAdmg :=
  match q.rebuild with
  | .ok g => PreparedAdmg.new g
  | .error e => .error (.graph e)

end HedgeProblem

namespace PreparedAdmg

variable (p : PreparedAdmg)

/-- `prepared.rs:187-193`. -/
def isSingleCComponent (nodes : Finset Nat) : Bool :=
  if nodes = ∅ then true
  else match p.cComponents nodes with
    | [c] => c = nodes
    | _ => false

/-- The nodes some variables name. -/
def resolve (ids : List Nat) : Except IdentificationError (Finset Nat) := do
  let nodes ← ids.mapM p.varToDense
  pure nodes.toFinset

/-- Lines 166-178. -/
def toSet (dense ids : List Nat) : Option (Finset Nat) :=
  if dense.length = ids.length ∧
      (dense.zip ids).all fun e => e.1 < p.admg.nodeCount ∧ p.denseToVar e.1 = e.2 then
    some dense.toFinset
  else none

end PreparedAdmg

namespace HedgeCertificate

/-- Lines 111-127. -/
def fromSets (p : PreparedAdmg) (f f' : Finset Nat) : HedgeCertificate :=
  ⟨p.vars f, p.vars f', f.sort (· ≤ ·), f'.sort (· ≤ ·), none⟩

/-- Lines 131-134. -/
def withProblem (c : HedgeCertificate) (q : HedgeProblem) : HedgeCertificate :=
  { c with problem := some q }

/-- A violated condition. -/
def fail (what : String) : Except IdentificationError Unit :=
  .error (.message ("not a hedge: " ++ what))

/-- The conditions on the sets (`hedge.rs:194-228`). -/
def checkSets (p : PreparedAdmg) (x y f f' : Finset Nat) : Except IdentificationError Unit :=
  let all := Finset.range p.admg.nodeCount
  let roots := p.ancestorsBarX y all x ∩ f'
  if f' = ∅ ∨ ¬ f' ⊆ f then fail "F' must be a non-empty subset of F"
  else if f ∩ x = ∅ then fail "F does not meet the treatments"
  else if f' ∩ x ≠ ∅ then fail "F' meets the treatments"
  else if ¬ p.isSingleCComponent f = true ∨ ¬ p.isSingleCComponent f' = true then
    fail "F and F' must each be bidirected-connected"
  else if roots = ∅ then
    fail "no node of F' is an ancestor of the outcomes once edges into X are cut"
  else if p.ancestorsBarX roots f ∅ ≠ f ∨ p.ancestorsBarX roots f' ∅ ≠ f' then
    fail "F and F' are not both forests rooted in the same set"
  else .ok ()

/-- Lines 158-230. -/
def verify (c : HedgeCertificate) (p : PreparedAdmg) (treatments outcomes : List Nat) :
    Except IdentificationError Unit :=
  match p.toSet c.fDense c.f, p.toSet c.fPrimeDense c.fPrime with
  | some f, some f' => do
    let x ← p.resolve treatments
    let y ← p.resolve outcomes
    checkSets p x y f f'
  | _, _ => fail "certificate nodes do not belong to this graph"

/-- Lines 141-146. -/
def verifyCarried (c : HedgeCertificate) : Except IdentificationError Unit :=
  match c.problem with
  | some q => do
    let p ← q.prepare
    c.verify p q.treatments q.outcomes
  | none => .error (.message "hedge certificate carries no graph to verify against")

end HedgeCertificate

/-! ## Closures and districts as relations -/

namespace PreparedAdmg

variable {p : PreparedAdmg} {x y N : Finset Nat}

theorem isSingleCComponent_iff (hN : ∀ v ∈ N, v < p.admg.nodeCount) :
    p.isSingleCComponent N = true ↔ p.admg.mixed.BiConnected (N : Set Nat) := by
  have hspec := Admg.components_spec hN
  unfold isSingleCComponent cComponents
  split_ifs with he
  · subst he
    exact ⟨fun _ a ha => absurd ha (by simp), fun _ => rfl⟩
  constructor
  · intro h a ha b hb
    split at h
    · rename_i c hc
      obtain rfl := of_decide_eq_true h
      exact hspec.joined c (by rw [hc]; exact List.mem_singleton_self c) a ha b hb
    · cases h
  · intro h
    obtain ⟨v, hv⟩ := Finset.nonempty_iff_ne_empty.mpr he
    obtain ⟨C, hC, hvC⟩ := hspec.cover v hv
    -- every component holds `v`, so there is one
    have hall : ∀ D ∈ p.admg.districtComponentsWithin N, v ∈ D := fun D hD => by
      obtain ⟨u, hu⟩ := hspec.nonempty D hD
      exact hspec.closed D hD u hu v (h u (hspec.sub D hD hu) v hv)
    cases hl : p.admg.districtComponentsWithin N with
    | nil =>
      rw [hl] at hC
      cases hC
    | cons D rest =>
      have hpair := hspec.apart
      rw [hl] at hall hpair
      cases rest with
      | nil =>
        refine decide_eq_true (Finset.Subset.antisymm (hspec.sub D (by simp [hl])) fun w hw => ?_)
        exact hspec.closed D (by simp [hl]) v (hall D List.mem_cons_self) w (h v hv w hw)
      | cons E _ =>
        have hd := (List.pairwise_cons.mp hpair).1 E List.mem_cons_self
        exact absurd (hall E (by simp)) (Finset.disjoint_left.mp hd.1 (hall D List.mem_cons_self))

theorem mem_ancestorsBarX_all {v : Nat} (hy : ∀ u ∈ y, u < p.admg.nodeCount) :
    v ∈ p.ancestorsBarX y (Finset.range p.admg.nodeCount) x ↔
      v ∈ p.admg.mixed.BarredAncestors x y := by
  unfold ancestorsBarX
  rw [Admg.mem_ancestorsWithin]
  constructor
  · rintro ⟨s, hs, -, -, hsv⟩
    exact ⟨s, hs, Relation.reflTransGen_swap.mp
      (ReflTransGen.mono (fun a b h => ⟨h.1, h.2.1⟩) _ _ hsv)⟩
  · rintro ⟨s, hs, hvs⟩
    refine ⟨s, hs, Finset.mem_range.mpr (hy s hs), hy s hs, ReflTransGen.mono
      (fun a b h => ⟨h.1, h.2, ?_⟩) _ _ (Relation.reflTransGen_swap.mpr hvs)⟩
    exact Finset.mem_range.mpr (p.admg.valid.in_range _ _ h.1).1

theorem mem_ancestorsBarX {y v x : Finset Nat} (hv : ∀ u ∈ v, u < p.admg.nodeCount) {u : Nat} :
    u ∈ p.ancestorsBarX y v x ↔ u ∈ p.admg.mixed.LocalAncestors (v : Set Nat) x y := by
  unfold ancestorsBarX
  rw [Admg.mem_ancestorsWithin]
  constructor
  · rintro ⟨t, ht, htv, -, htu⟩
    refine ⟨Admg.mem_active_of_up htv htu, t, ht, Relation.reflTransGen_swap.mp ?_⟩
    induction htu with
    | refl => exact .refl
    | @tail b c hb hbc ih => exact ih.tail ⟨⟨hbc.2.2, Admg.mem_active_of_up htv hb, hbc.1⟩, hbc.2.1⟩
  · rintro ⟨hu, t, ht, hut⟩
    have htv : t ∈ v := by
      rcases ReflTransGen.cases_tail hut with rfl | ⟨b, -, hbt⟩
      · exact hu
      · exact hbt.1.2.1
    exact ⟨t, ht, htv, hv t htv, ReflTransGen.mono
      (fun a b h => ⟨h.1.2.2, h.2, h.1.1⟩) _ _ (Relation.reflTransGen_swap.mpr hut)⟩

theorem ancestorsBarX_eq {roots : Finset Nat} (hN : ∀ v ∈ N, v < p.admg.nodeCount) :
    p.ancestorsBarX roots N ∅ = N ↔ p.admg.mixed.ReachesIn (N : Set Nat) roots := by
  have hfree : ∀ a b, p.admg.mixed.Inside (N : Set Nat) a b ↔
      p.admg.mixed.Inside (N : Set Nat) a b ∧ b ∉ ((∅ : Finset Nat) : Set Nat) := fun a b =>
    (and_iff_left (by simp)).symm
  constructor
  · intro h v hv
    obtain ⟨-, r, hr, hvr⟩ := (mem_ancestorsBarX hN).mp (Finset.ext_iff.mp h v |>.mpr hv)
    exact ⟨r, hr, ReflTransGen.mono (fun a b => (hfree a b).mpr) _ _ hvr⟩
  · intro h
    refine Finset.Subset.antisymm Admg.ancestorsWithin_subset fun v hv => ?_
    obtain ⟨r, hr, hvr⟩ := h v hv
    exact (mem_ancestorsBarX hN).mpr
      ⟨hv, r, hr, ReflTransGen.mono (fun a b => (hfree a b).mp) _ _ hvr⟩

theorem resolve_lt {ids : List Nat} (h : p.resolve ids = .ok x) :
    ∀ v ∈ x, v < p.admg.nodeCount := by
  unfold resolve at h
  obtain ⟨nodes, hm, h⟩ := bind_ok h
  cases h
  intro v hv
  obtain ⟨id, -, hid⟩ := (mem_mapM hm v).mp (List.mem_toFinset.mp hv)
  exact (varToDense_ok hid).1

theorem toSet_some {dense ids : List Nat} (h : p.toSet dense ids = some x) :
    ∀ v ∈ x, v < p.admg.nodeCount := by
  unfold toSet at h
  split_ifs at h with hc
  cases h
  intro v hv
  obtain ⟨i, hi, rfl⟩ := List.getElem_of_mem (List.mem_toFinset.mp hv)
  have hi' : i < ids.length := hc.1 ▸ hi
  have hz : (dense[i], ids[i]) ∈ dense.zip ids := by
    rw [← List.getElem_zip (h := by rw [List.length_zip]; omega)]
    exact List.getElem_mem _
  exact (of_decide_eq_true (List.all_eq_true.mp hc.2 _ hz)).1

/-- The nodes of a set and their variables are a certificate's lists. -/
theorem toSet_vars (hN : ∀ v ∈ N, v < p.admg.nodeCount) :
    p.toSet (N.sort (· ≤ ·)) (p.vars N) = some N := by
  unfold toSet vars
  rw [if_pos, Finset.sort_toFinset]
  refine ⟨(List.length_map _).symm, List.all_eq_true.mpr fun e he => decide_eq_true ?_⟩
  obtain ⟨i, hi, rfl⟩ := List.getElem_of_mem he
  rw [List.getElem_zip, List.getElem_map]
  exact ⟨hN _ ((Finset.mem_sort _).mp (List.getElem_mem _)), rfl⟩

end PreparedAdmg

/-! ## The check -/

namespace HedgeCertificate

variable {p : PreparedAdmg} {x y f f' : Finset Nat}

/-- **The conditions on the sets are those of a hedge.** -/
theorem checkSets_iff (hf : ∀ v ∈ f, v < p.admg.nodeCount) (hy : ∀ v ∈ y, v < p.admg.nodeCount) :
    checkSets p x y f f' = .ok () ↔ p.admg.mixed.Hedge (x : Set Nat) y f f' := by
  rw [MixedGraph.hedge_iff p.admg.acyclic f.finite_toSet]
  have hroots :
      ((p.ancestorsBarX y (Finset.range p.admg.nodeCount) x ∩ f' : Finset Nat) : Set Nat) =
        (f' : Set Nat) ∩ p.admg.mixed.BarredAncestors x y := by
    ext v
    rw [Finset.coe_inter, Set.inter_comm, Set.mem_inter_iff, Set.mem_inter_iff, Finset.mem_coe,
      Finset.mem_coe, PreparedAdmg.mem_ancestorsBarX_all hy]
  unfold checkSets
  simp only
  rw [← hroots]
  set roots := p.ancestorsBarX y (Finset.range p.admg.nodeCount) x ∩ f'
  have hsub' : roots ⊆ f' := Finset.inter_subset_right
  split_ifs with h₁ h₂ h₃ h₄ h₅ h₆
  · refine ⟨fun h => (nomatch h), fun ⟨hne, hsub, _⟩ => ?_⟩
    rcases h₁ with rfl | h₁
    · exact absurd hne (by simp)
    · exact absurd (Finset.coe_subset.mp hsub) h₁
  · refine ⟨fun h => (nomatch h), fun ⟨_, _, hm, _⟩ => absurd hm ?_⟩
    rw [← Finset.coe_inter, h₂]
    simp
  · refine ⟨fun h => (nomatch h), fun ⟨_, _, _, hd, _⟩ => absurd hd fun hd => h₃ ?_⟩
    exact Finset.disjoint_iff_inter_eq_empty.mp (Finset.disjoint_coe.mp hd)
  all_goals
    rw [not_or, not_not] at h₁
    obtain ⟨hne, hsub⟩ := h₁
    have hf' : ∀ v ∈ f', v < p.admg.nodeCount := fun v hv => hf v (hsub hv)
  · refine ⟨fun h => (nomatch h), fun ⟨_, _, _, _, hc, hc', _⟩ => ?_⟩
    rcases h₄ with h₄ | h₄
    · exact absurd ((PreparedAdmg.isSingleCComponent_iff hf).mpr hc) h₄
    · exact absurd ((PreparedAdmg.isSingleCComponent_iff hf').mpr hc') h₄
  · refine ⟨fun h => (nomatch h), fun ⟨_, _, _, _, _, _, hr, _⟩ => absurd hr ?_⟩
    rw [h₅]
    simp
  · refine ⟨fun h => (nomatch h), fun ⟨_, _, _, _, _, _, _, hr, hr'⟩ => ?_⟩
    rcases h₆ with h₆ | h₆
    · exact absurd ((PreparedAdmg.ancestorsBarX_eq hf).mpr hr) h₆
    · exact absurd ((PreparedAdmg.ancestorsBarX_eq hf').mpr hr') h₆
  · rw [not_or, not_not, not_not] at h₄ h₆
    refine ⟨fun _ => ⟨?_, Finset.coe_subset.mpr hsub, ?_, ?_, ?_, ?_, ?_, ?_, ?_⟩, fun _ => rfl⟩
    · exact Finset.coe_nonempty.mpr (Finset.nonempty_iff_ne_empty.mpr hne)
    · rw [← Finset.coe_inter]
      exact Finset.coe_nonempty.mpr (Finset.nonempty_iff_ne_empty.mpr h₂)
    · exact Finset.disjoint_coe.mpr (Finset.disjoint_iff_inter_eq_empty.mpr (not_not.mp h₃))
    · exact (PreparedAdmg.isSingleCComponent_iff hf).mp h₄.1
    · exact (PreparedAdmg.isSingleCComponent_iff hf').mp h₄.2
    · exact Finset.coe_nonempty.mpr (Finset.nonempty_iff_ne_empty.mpr h₅)
    · exact (PreparedAdmg.ancestorsBarX_eq hf).mp h₆.1
    · exact (PreparedAdmg.ancestorsBarX_eq hf').mp h₆.2

/-- **The check accepts a pair of sets of nodes iff it is a hedge** for the nodes the treatments and
the outcomes name. -/
theorem verify_iff {c : HedgeCertificate} {treatments outcomes : List Nat}
    (hf : p.toSet c.fDense c.f = some f) (hf' : p.toSet c.fPrimeDense c.fPrime = some f') :
    c.verify p treatments outcomes = .ok () ↔ ∃ x y, p.resolve treatments = .ok x ∧
      p.resolve outcomes = .ok y ∧ p.admg.mixed.Hedge (x : Set Nat) y f f' := by
  unfold verify
  rw [hf, hf']
  simp only [bind, Except.bind]
  cases hx : p.resolve treatments with
  | error e => simp
  | ok x =>
    cases hy : p.resolve outcomes with
    | error e => simp
    | ok y =>
      simp only [checkSets_iff (PreparedAdmg.toSet_some hf) (PreparedAdmg.resolve_lt hy)]
      constructor
      · exact fun h => ⟨x, y, rfl, rfl, h⟩
      · rintro ⟨_, _, hx', hy', h⟩
        cases hx'
        cases hy'
        exact h

end HedgeCertificate

/-! ## Rebuilding a captured problem -/

theorem addVariables_ok : ∀ (ids : List Nat) (g : Admg), g.nodeCount + ids.length ≤ u32Max + 1 →
    ∃ g', ids.foldlM (fun g v => (g.addNode (.static v)).map Prod.fst) g = .ok g' ∧
      g'.nodes = g.nodes ++ ids.map .static ∧ g'.mixed = g.mixed
  | [], g, _ => ⟨g, rfl, (List.append_nil _).symm, rfl⟩
  | v :: ids, g, h => by
    rw [List.length_cons] at h
    obtain ⟨g₁, hok, hnodes, hdir, hbi⟩ := Admg.addNode_ok (g := g)
      (show (NodeRef.static v).isStaticGraphNode = true from rfl) (by omega)
    have hcount : g₁.nodeCount = g.nodeCount + 1 := by
      have := congrArg List.length hnodes
      rwa [List.length_append, List.length_singleton] at this
    obtain ⟨g', hok', hnodes', hmixed⟩ := addVariables_ok ids g₁ (by omega)
    refine ⟨g', ?_, ?_, hmixed.trans ?_⟩
    · rw [List.foldlM_cons, hok]
      exact hok'
    · rw [hnodes', hnodes, List.append_assoc]
      rfl
    · ext a b
      · exact hdir a b
      · exact hbi a b

variable {p : PreparedAdmg} {x y : Finset Nat}

/-- **A captured problem is rebuilt with the nodes, labels and edges of its graph.** -/
theorem HedgeProblem.prepare_capture : ∃ p', (capture p x y).prepare = .ok p' ∧
    p'.admg.nodeCount = p.admg.nodeCount ∧ p'.admg.mixed = p.admg.mixed ∧
    nodeVariableId p'.admg.nodes = nodeVariableId p.admg.nodes := by
  obtain ⟨g₁, h₁, hnodes₁, hmixed₁⟩ := addVariables_ok
    ((List.range p.admg.nodeCount).map p.denseToVar) Admg.empty (by
      rw [List.length_map, List.length_range]
      exact (Nat.zero_add _).le.trans p.admg.valid.node_ids)
  have hcount₁ : g₁.nodeCount = p.admg.nodeCount := by
    refine (congrArg List.length hnodes₁).trans ?_
    rw [List.length_append, List.length_map, List.length_map, List.length_range]
    exact Nat.zero_add _
  have hno : (∀ a b, ¬ g₁.mixed.dir a b) ∧ ∀ a b, ¬ g₁.mixed.bi a b := by
    rw [hmixed₁]
    exact ⟨fun _ _ => List.not_mem_nil, fun _ _ => List.not_mem_nil⟩
  have hperm := List.perm_insertionSort (pairLe · ·) (Io.directedPairs p.admg)
  have hperm' := List.perm_insertionSort (pairLe · ·) (Io.bidirectedPairs p.admg)
  obtain ⟨g₂, g₃, h₂, h₃, hnodes₃, hmixed₃⟩ := Admg.rebuild_ok hcount₁ hno
    (hperm.mem_iff.trans Io.mem_directedPairs) (hperm.nodup_iff.mpr Io.nodup_directedPairs)
    (hperm'.mem_iff.trans Io.mem_bidirectedPairs) (hperm'.nodup_iff.mpr Io.nodup_bidirectedPairs)
  obtain ⟨p', hp', hadmg, -⟩ := PreparedAdmg.new_spec g₃
  have hnodes : g₃.nodes = ((List.range p.admg.nodeCount).map p.denseToVar).map .static :=
    hnodes₃.trans hnodes₁
  refine ⟨p', ?_, ?_, ?_, ?_⟩
  · unfold prepare rebuild capture
    simp only [bind, Except.bind, h₁, h₂, h₃, hp']
  · rw [hadmg]
    exact (congrArg List.length hnodes₃).trans hcount₁
  · rw [hadmg]
    exact hmixed₃
  · funext i
    rw [hadmg, hnodes]
    by_cases hi : i < p.admg.nodeCount
    · rw [PreparedAdmg.nodeVariableId_label hi]
      unfold nodeVariableId
      rw [List.getElem?_map, List.getElem?_map, List.getElem?_range hi]
      rfl
    · have hnone : p.admg.nodes[i]? = none := List.getElem?_eq_none (Nat.not_lt.mp hi)
      unfold nodeVariableId
      rw [List.getElem?_eq_none (by simpa using hi), hnone]

/-- The index inverts the labels at the nodes it names. -/
theorem PreparedAdmg.resolve_vars (hx : ∀ v ∈ x, p.varToDense (p.denseToVar v) = .ok v) :
    p.resolve (p.vars x) = .ok x := by
  have hmap : ∀ {l : List Nat}, (∀ v ∈ l, p.varToDense (p.denseToVar v) = .ok v) →
      (l.map p.denseToVar).mapM p.varToDense = .ok l := by
    intro l
    induction l with
    | nil => exact fun _ => rfl
    | cons v l ih =>
      intro h
      rw [List.map_cons, List.mapM_cons, h v List.mem_cons_self,
        ih fun w hw => h w (List.mem_cons_of_mem v hw)]
      rfl
  unfold resolve vars
  rw [hmap fun v hv => hx v ((Finset.mem_sort _).mp hv)]
  exact congrArg Except.ok (Finset.sort_toFinset x (· ≤ ·))

theorem PreparedAdmg.resolve_label {ids : List Nat} (h : p.resolve ids = .ok x) :
    ∀ v ∈ x, p.varToDense (p.denseToVar v) = .ok v := by
  unfold resolve at h
  obtain ⟨nodes, hm, h⟩ := bind_ok h
  cases h
  intro v hv
  obtain ⟨id, -, hid⟩ := (mem_mapM hm v).mp (List.mem_toFinset.mp hv)
  rwa [(varToDense_ok hid).2]

/-- **A hedge that carries its problem passes its own check**, also over the rebuilt graph. -/
theorem HedgeCertificate.verifyCarried_capture {f f' : Finset Nat}
    (hx : ∀ v ∈ x, p.varToDense (p.denseToVar v) = .ok v)
    (hy : ∀ v ∈ y, p.varToDense (p.denseToVar v) = .ok v) (hf : ∀ v ∈ f, v < p.admg.nodeCount)
    (hf' : ∀ v ∈ f', v < p.admg.nodeCount) :
    ((fromSets p f f').withProblem (.capture p x y)).verifyCarried = .ok () ↔
      p.admg.mixed.Hedge (x : Set Nat) y f f' := by
  obtain ⟨p', hp', hcount, hmixed, hlabels⟩ :=
    HedgeProblem.prepare_capture (p := p) (x := x) (y := y)
  have hvar : p'.denseToVar = p.denseToVar := by
    funext v
    unfold PreparedAdmg.denseToVar
    rw [hlabels]
  have hdense : p'.varToDense = p.varToDense := by
    funext id
    unfold PreparedAdmg.varToDense
    rw [hcount, hlabels]
  have hvars : p.vars = p'.vars := by
    funext s
    unfold PreparedAdmg.vars
    rw [hvar]
  have hresolve : ∀ {s : Finset Nat}, (∀ v ∈ s, p.varToDense (p.denseToVar v) = .ok v) →
      p'.resolve (p.vars s) = .ok s := fun hs => by
    rw [hvars]
    exact PreparedAdmg.resolve_vars fun v hv => by rw [hvar, hdense, hs v hv]
  have hset : ∀ {s : Finset Nat}, (∀ v ∈ s, v < p.admg.nodeCount) →
      p'.toSet (s.sort (· ≤ ·)) (p.vars s) = some s := fun hs => by
    rw [hvars]
    exact PreparedAdmg.toSet_vars fun v hv => hcount ▸ hs v hv
  unfold verifyCarried withProblem
  simp only [hp', bind, Except.bind]
  rw [verify_iff (hset hf) (hset hf')]
  show (∃ a b, p'.resolve (p.vars x) = .ok a ∧ p'.resolve (p.vars y) = .ok b ∧ _) ↔ _
  rw [hresolve hx, hresolve hy, hmixed]
  constructor
  · rintro ⟨_, _, ha, hb, h⟩
    cases ha
    cases hb
    exact h
  · exact fun h => ⟨x, y, rfl, rfl, h⟩

end Antecedent.Identify
