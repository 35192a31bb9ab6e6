import Antecedent.Identify.GeneralId
import Antecedent.Identify.Nodes
import Antecedent.Prob.CFactor

/-!
# The value of an emitted functional

A factor stands for a conditional law: an observed one for a kernel of the observed law, the
conditional of a marginalized law for that law's sum divided by its own sum over the variable. The
levels baked into the leaves read the assigned nodes at their levels, those that an enclosing sum
binds apart.

* **`emit_eval`**: an emitted factor evaluates to its conditional law at the levels.
-/

namespace Antecedent.Identify.GeneralId

open Core
open Expr
open Graph
open Mixed
open Prob
open Finset

/-! ## Interned levels -/

/-- The kept levels of the assignments read so far. -/
structure Kept (done kept : List InterventionAssignment) : Prop where
  sub : ∀ b ∈ kept, b ∈ done
  cover : ∀ a ∈ done, ∃ b ∈ kept, b.var = a.var ∧ b.value = a.value
  strict : kept.Pairwise fun a b => a.var < b.var

variable {done kept ints : List InterventionAssignment} {a : InterventionAssignment} {var : Nat}
  {assign : Assign}
  {domain : DomainRef}
  {conditionedOn : List Nat}

theorem Kept.eq (hk : Kept done kept)
    {b : InterventionAssignment} (ha : a ∈ kept) (hb : b ∈ kept) (h : a.var = b.var) : a = b := by
  have hn : (kept.map (·.var)).Nodup := List.pairwise_map.mpr (hk.strict.imp ne_of_lt)
  exact List.inj_on_of_nodup_map hn ha hb h

theorem Kept.push {kept' : List InterventionAssignment}
    (hk : Kept done kept) (hle : ∀ b ∈ done, b.var ≤ a.var)
    (h : pushAssignment kept a = .ok kept') : Kept (done ++ [a]) kept' := by
  have hnew : (∀ b ∈ kept, b.var < a.var) → Kept (done ++ [a]) (kept ++ [a]) := fun hlt => by
    refine ⟨fun b hb => ?_, fun c hc => ?_, List.pairwise_append.mpr
      ⟨hk.strict, List.pairwise_singleton _ _, fun b hb c hc => ?_⟩⟩
    · exact (List.mem_append.mp hb).elim (fun hb => List.mem_append_left _ (hk.sub b hb))
        (List.mem_append_right _)
    · rcases List.mem_append.mp hc with hc | hc
      · obtain ⟨b, hb, he⟩ := hk.cover c hc
        exact ⟨b, List.mem_append_left _ hb, he⟩
      · exact ⟨c, List.mem_append_right _ hc, rfl, rfl⟩
    · rw [List.mem_singleton.mp hc]
      exact hlt b hb
  unfold pushAssignment at h
  split at h
  · rename_i last hlast
    have hmem : last ∈ kept := List.mem_of_getLast? hlast
    split_ifs at h with hvar hval
    · -- a repeated level
      cases h
      refine ⟨fun b hb => List.mem_append_left _ (hk.sub b hb), fun c hc => ?_, hk.strict⟩
      rcases List.mem_append.mp hc with hc | hc
      · exact hk.cover c hc
      · rw [List.mem_singleton.mp hc]
        exact ⟨last, hmem, hvar, hval⟩
    · cases h
      refine hnew fun b hb => ?_
      have hlt : b.var ≤ last.var := by
        obtain ⟨init, rfl⟩ := List.getLast?_eq_some_iff.mp hlast
        rcases List.mem_append.mp hb with hb | hb
        · exact ((List.pairwise_append.mp hk.strict).2.2 b hb last (List.mem_singleton_self _)).le
        · rw [List.mem_singleton.mp hb]
      exact hlt.trans_lt (lt_of_le_of_ne (hle last (hk.sub last hmem)) hvar)
  · rename_i hlast
    cases h
    obtain rfl := List.getLast?_eq_none_iff.mp hlast
    exact hnew fun b hb => absurd hb List.not_mem_nil

theorem Kept.foldlM : ∀ {rest done kept ints : List InterventionAssignment}, Kept done kept →
    (done ++ rest).Pairwise (fun a b => a.var ≤ b.var) →
    rest.foldlM pushAssignment kept = .ok ints → Kept (done ++ rest) ints
  | [], done, kept, ints, hk, _, h => by
    cases h
    rwa [List.append_nil]
  | a :: rest, done, kept, ints, hk, hsorted, h => by
    rw [List.foldlM_cons] at h
    obtain ⟨kept', hp, h⟩ := bind_ok h
    have hle : ∀ b ∈ done, b.var ≤ a.var := fun b hb =>
      (List.pairwise_append.mp hsorted).2.2 b hb a List.mem_cons_self
    rw [List.append_cons] at hsorted ⊢
    exact (hk.push hle hp).foldlM hsorted h

/-- **The interned levels**: one for each assigned variable, the one it is assigned. -/
theorem internAssignments_spec {assignments : List InterventionAssignment}
    (h : internAssignments assignments = .ok ints) : Kept assignments ints := by
  have hperm := List.perm_insertionSort (fun a b : InterventionAssignment => a.var ≤ b.var)
    assignments
  have hsorted : (assignments.insertionSort fun a b => a.var ≤ b.var).Pairwise
      fun a b => a.var ≤ b.var :=
    List.pairwise_insertionSort (Order.Preimage InterventionAssignment.var (· ≤ ·)) _
  have hnil : Kept [] [] := ⟨fun _ hb => absurd hb List.not_mem_nil,
    fun _ ha => absurd ha List.not_mem_nil, .nil⟩
  have hk := hnil.foldlM hsorted h
  exact ⟨fun b hb => hperm.mem_iff.mp (hk.sub b hb),
    fun a ha => hk.cover a (hperm.mem_iff.mpr ha), hk.strict⟩

/-! ## Levels -/

def labelOf (p : PreparedAdmg) (v : Fin p.admg.nodeCount) : Nat := p.denseToVar v

/-- The levels that a sum over `bound` leaves. -/
def free (assign : Assign) (bound : Finset Nat) : Assign := assign.filter fun e => e.1 ∉ bound

/-- The nodes with a concrete level. -/
def assigned (p : PreparedAdmg) (assign : Assign) : Finset (Fin p.admg.nodeCount) :=
  univ.filter fun v => ∃ e ∈ assign, e.1 = v.val ∧ e.2 ≠ symbolicIntervention

/-- A variable without a level of its own binds nothing. -/
theorem free_unlabelled {bound : Finset Nat}
    (h : ¬ (var ∉ bound ∧ (assign.any fun e => e.1 = var) = true)) :
    free assign (bound ∪ {var}) = free assign bound := by
  refine List.filter_congr fun e he => ?_
  rw [decide_eq_decide, Finset.mem_union, Finset.mem_singleton, not_or, and_iff_left_iff_imp]
  rintro hb rfl
  exact h ⟨hb, List.any_eq_true.mpr ⟨e, he, decide_eq_true rfl⟩⟩

section Levels

variable {p : PreparedAdmg} {Ω : Fin p.admg.nodeCount → Type} (read : ∀ v, Value → Ω v)

/-- The assignment with the assigned nodes at their levels; a symbolic level is the assignment's. -/
def relevel (assign : Assign) (x : ∀ v, Ω v) : ∀ v, Ω v := fun v =>
  match assign.find? fun e => e.1 = v.val ∧ e.2 ≠ symbolicIntervention with
  | some e => read v e.2
  | none => x v

variable {read} {assign : Assign} {bound s : Finset Nat} {v : Fin p.admg.nodeCount}

theorem mem_assigned : v ∈ assigned p assign ↔
    ∃ e ∈ assign, e.1 = v.val ∧ e.2 ≠ symbolicIntervention := mem_filter_univ v

theorem relevel_free (x : ∀ v, Ω v) (v : Fin p.admg.nodeCount) :
    relevel read (free assign bound) x v = if v.val ∈ bound then x v else relevel read assign x v := by
  unfold relevel free
  rw [List.find?_filter]
  split_ifs with hv
  · rw [List.find?_eq_none.mpr fun e _ => ?_]
    simp only [decide_eq_true_eq, not_and]
    exact fun he hev => absurd (hev ▸ hv) he
  · congr 2
    funext e
    by_cases he : e.1 = v.val <;> simp [he, hv]

theorem relevel_of_notMem {x : ∀ v, Ω v} (hv : v ∉ assigned p assign) :
    relevel read assign x v = x v := by
  unfold relevel
  rw [List.find?_eq_none.mpr fun e he => ?_]
  rw [decide_eq_true_eq]
  exact fun h => hv (mem_assigned.mpr ⟨e, he, h⟩)

theorem relevel_eq_override (x z : ∀ v, Ω v) :
    relevel read assign z = override (assigned p assign) (relevel read assign x) z := by
  funext v
  by_cases hv : v ∈ assigned p assign
  · rw [override_of_mem hv]
    unfold relevel
    obtain ⟨e, he, h⟩ := mem_assigned.mp hv
    split
    · rfl
    · rename_i hnone
      exact absurd (decide_eq_true h) (List.find?_eq_none.mp hnone e he)
  · rw [override_of_notMem hv, relevel_of_notMem hv]

theorem notMem_of_assigned_free
    (h : v ∈ assigned p (free assign bound)) : v.val ∉ bound := by
  obtain ⟨e, he, hev, -⟩ := mem_assigned.mp h
  have := (List.mem_filter.mp he).2
  rwa [decide_eq_true_eq, hev] at this

variable [∀ v, Fintype (Ω v)] [∀ v, DecidableEq (Ω v)]

/-- Levels of nodes that are not summed go under the sum. -/
theorem marg_relevel {S : Finset (Fin p.admg.nodeCount)} (hS : Disjoint S (assigned p assign))
    (g : (∀ v, Ω v) → ℝ) (x : ∀ v, Ω v) :
    marg S g (relevel read assign x) = marg S (fun z => g (relevel read assign z)) x := by
  have h := marg_override (f := g) (y := relevel read assign x) (x := x) hS
  rw [← relevel_eq_override x x] at h
  rw [h]
  exact congrFun (congrArg _ (funext fun z => by rw [← relevel_eq_override x z])) x

/-- **A sum over some nodes hides the levels of these nodes.** -/
theorem marg_free (g : (∀ v, Ω v) → ℝ) (x : ∀ v, Ω v) :
    marg (lift p.admg.nodeCount s) g (relevel read (free assign bound) x) =
      marg (lift p.admg.nodeCount s) (fun z => g (relevel read (free assign (bound ∪ s)) z)) x := by
  rw [← marg_relevel (disjoint_left.mpr fun v hv hv' => ?_)]
  · refine dependsOn_marg (S := lift p.admg.nodeCount s) (dependsOn_univ g) fun v hv => ?_
    have hvs : v.val ∉ s := fun h => hv.2 (mem_coe.mpr (mem_lift.mpr h))
    rw [relevel_free, relevel_free]
    simp only [Finset.mem_union, hvs, or_false]
  · exact notMem_of_assigned_free hv' (mem_union_right _ (mem_lift.mp hv))

end Levels

/-! ## One conditional law -/

theorem interventionForFactor_kept {p : PreparedAdmg} {vi : Nat}
   
    (h : interventionForFactor p assign vi conditionedOn = .ok (ints, domain)) :
    Kept ((assign.filter fun e => e.1 = vi ∨ p.denseToVar e.1 ∈ conditionedOn).map
      fun e => ⟨p.denseToVar e.1, e.2⟩) ints := by
  unfold interventionForFactor at h
  dsimp only at h
  split_ifs at h with hempty
  · cases h
    rw [List.isEmpty_iff.mp hempty]
    exact ⟨fun _ hb => hb, fun _ ha => absurd ha List.not_mem_nil, .nil⟩
  · cases hi : internAssignments ((assign.filter fun e =>
        e.1 = vi ∨ p.denseToVar e.1 ∈ conditionedOn).map fun e => ⟨p.denseToVar e.1, e.2⟩) with
    | error e =>
      rw [hi] at h
      cases h
    | ok kept =>
      rw [hi] at h
      cases h
      exact internAssignments_spec hi

section Leaf

variable {p : PreparedAdmg} (hd : PreparedAdmg.Distinct p.admg) {v : Fin p.admg.nodeCount}
  {s : Finset Nat}
  {Ω : Fin p.admg.nodeCount → Type} {read : ∀ v, Value → Ω v} {assign : Assign}

include hd

theorem labelOf_mem_vars (hs : ∀ u ∈ s, u < p.admg.nodeCount)
    : labelOf p v ∈ p.vars s ↔ v.val ∈ s := by
  unfold PreparedAdmg.vars labelOf
  rw [List.mem_map]
  constructor
  · rintro ⟨u, hu, e⟩
    rw [Finset.mem_sort] at hu
    rwa [← PreparedAdmg.denseToVar_injective hd (hs u hu) v.isLt e]
  · exact fun hv => ⟨v.val, (Finset.mem_sort _).mpr hv, rfl⟩

/-- The nodes that the variables of a set name. -/
theorem named_vars (hs : ∀ u ∈ s, u < p.admg.nodeCount) :
    named (labelOf p) (sortDedup (p.vars s)) = lift p.admg.nodeCount s :=
  named_eq fun v => by rw [mem_sortDedup, labelOf_mem_vars hd hs, mem_lift]

theorem named_node (hv : var < p.admg.nodeCount) :
    named (labelOf p) [p.denseToVar var] = lift p.admg.nodeCount {var} :=
  named_eq fun v => by
    rw [List.mem_singleton, mem_lift, Finset.mem_singleton]
    refine ⟨fun h => PreparedAdmg.denseToVar_injective hd v.isLt hv h, fun h => ?_⟩
    rw [← h]
    rfl

/-- **A leaf reads the nodes it mentions at their levels.** -/
theorem bindLevels_interned (ha : ∀ e ∈ assign, e.1 < p.admg.nodeCount) {vi : Nat}
    {ints : List InterventionAssignment}
    (h : interventionForFactor p assign vi conditionedOn = .ok (ints, domain)) (x : ∀ v, Ω v)
    (hv : v.val = vi ∨ labelOf p v ∈ conditionedOn) :
    bindLevels (labelOf p) read ints x v = relevel read assign x v := by
  have hk := interventionForFactor_kept h
  unfold bindLevels relevel
  cases hf : assign.find? fun e => e.1 = v.val ∧ e.2 ≠ symbolicIntervention with
  | some e =>
    have he := List.find?_some hf
    rw [decide_eq_true_eq] at he
    have hlabel : p.denseToVar e.1 = labelOf p v := congrArg p.denseToVar he.1
    have htouch : e.1 = vi ∨ p.denseToVar e.1 ∈ conditionedOn := by
      rw [he.1]
      exact hv
    obtain ⟨b, hb, hvar, hval⟩ := hk.cover ⟨p.denseToVar e.1, e.2⟩ (List.mem_map.mpr
      ⟨e, List.mem_filter.mpr ⟨List.mem_of_find?_eq_some hf, decide_eq_true htouch⟩, rfl⟩)
    cases hg : ints.find? fun a => a.var = labelOf p v ∧ ¬ isSymbolic a with
    | none =>
      refine absurd (decide_eq_true ⟨?_, ?_⟩) (List.find?_eq_none.mp hg b hb)
      · exact hvar.trans hlabel
      · unfold isSymbolic
        rw [decide_eq_true_eq, hval]
        exact he.2
    | some a =>
      have hav := List.find?_some hg
      rw [decide_eq_true_eq] at hav
      have hab : a = b := hk.eq (List.mem_of_find?_eq_some hg) hb
        (hav.1.trans (hvar.trans hlabel).symm)
      show read v a.value = read v e.2
      rw [hab, hval]
  | none =>
    cases hg : ints.find? fun a => a.var = labelOf p v ∧ ¬ isSymbolic a with
    | none => rfl
    | some a =>
      have hav := List.find?_some hg
      rw [decide_eq_true_eq] at hav
      obtain ⟨e, he, rfl⟩ := List.mem_map.mp (hk.sub a (List.mem_of_find?_eq_some hg))
      have hmem := (List.mem_filter.mp he).1
      have hev := PreparedAdmg.denseToVar_injective hd (ha e hmem) v.isLt hav.1
      refine absurd (decide_eq_true ⟨hev, fun hsym => hav.2 ?_⟩) (List.find?_eq_none.mp hf e hmem)
      exact decide_eq_true hsym

end Leaf

/-! ## The value of a law -/

mutual

/-- The nodes of a factor are nodes of the graph. -/
def Factor.InRange (p : PreparedAdmg) : Factor → Prop
  | .observed var cond => var < p.admg.nodeCount ∧ ∀ u ∈ cond, u < p.admg.nodeCount
  | .conditional var sumset factors => var < p.admg.nodeCount ∧
      (∀ u ∈ sumset, u < p.admg.nodeCount) ∧ AllInRange p factors

/-- The nodes of some factors are nodes of the graph. -/
def AllInRange (p : PreparedAdmg) : List Factor → Prop
  | [] => True
  | f :: fs => f.InRange p ∧ AllInRange p fs

end

section Value

variable {p : PreparedAdmg} {Ω : Fin p.admg.nodeCount → Type} [∀ v, Fintype (Ω v)]
  [∀ v, DecidableEq (Ω v)] (M : Model (onNodes p.admg) Ω)

mutual

/-- The conditional law that a factor stands for. -/
noncomputable def Factor.value : Factor → (∀ v, Ω v) → ℝ
  | .observed var cond =>
    M.kernel (lift p.admg.nodeCount {var}) ∅ (lift p.admg.nodeCount cond)
  | .conditional var sumset factors => fun x =>
    marg (lift p.admg.nodeCount sumset) (valueAll factors) x /
      marg (lift p.admg.nodeCount {var}) (marg (lift p.admg.nodeCount sumset) (valueAll factors)) x

noncomputable def valueAll : List Factor → (∀ v, Ω v) → ℝ
  | [] => fun _ => 1
  | f :: fs => fun x => f.value x * valueAll fs x

end

variable {M} {read : ∀ v, Value → Ω v} {assign : Assign}

theorem productOf_eval (es : List ExprTree) :
    (productOf es).eval (named (labelOf p)) (observed (labelOf p) read M) =
      ExprTree.evalList (named (labelOf p)) (observed (labelOf p) read M) es := by
  unfold productOf
  split
  · rw [ExprTree.evalList, ExprTree.evalList]
    exact funext fun x => (mul_one _).symm
  · rw [ExprTree.eval]

variable (hd : PreparedAdmg.Distinct p.admg)

include hd

theorem sumOver_eval {nodes : Finset Nat} (hn : ∀ u ∈ nodes, u < p.admg.nodeCount)
    (body : ExprTree) :
    (sumOver p nodes body).eval (named (labelOf p)) (observed (labelOf p) read M) =
      marg (lift p.admg.nodeCount nodes)
        (body.eval (named (labelOf p)) (observed (labelOf p) read M)) := by
  unfold sumOver
  split_ifs with h
  · rw [h, lift_empty, marg_empty]
  · rw [ExprTree.eval, named_vars hd hn]

variable (ha : ∀ e ∈ assign, e.1 < p.admg.nodeCount)

include ha

variable {e : ExprTree}

/-- **A leaf is its conditional law at the levels.** -/
theorem emitDistribution_eval {cond : Finset Nat} (hv : var < p.admg.nodeCount)
    (hc : ∀ u ∈ cond, u < p.admg.nodeCount)
    (h : emitDistribution p assign var (p.vars cond) = .ok e) (x : ∀ v, Ω v) :
    e.eval (named (labelOf p)) (observed (labelOf p) read M) x =
      M.kernel (lift p.admg.nodeCount {var}) ∅ (lift p.admg.nodeCount cond)
        (relevel read assign x) := by
  unfold emitDistribution at h
  obtain ⟨r, hi, h⟩ := bind_ok h
  obtain ⟨ints, domain⟩ := r
  cases h
  show observed (labelOf p) read M ⟨sortDedup [p.denseToVar var], sortDedup (p.vars cond), ints,
    domain, "", none⟩ x = _
  have hone : named (labelOf p) (sortDedup [p.denseToVar var]) = lift p.admg.nodeCount {var} :=
    named_node hd hv
  unfold observed
  rw [hone, named_vars hd hc]
  refine M.kernel_dependsOn fun v hvm => bindLevels_interned hd ha hi x ?_
  simp only [coe_union, coe_empty, Set.union_empty, Set.mem_union, mem_coe, mem_lift,
    Finset.mem_singleton] at hvm
  exact hvm.imp_right (labelOf_mem_vars hd hc).mpr

omit ha in
theorem sumOver_productOf_eval {sumset outer : Finset Nat} (hs : ∀ u ∈ sumset, u < p.admg.nodeCount)
    {factors : List Factor} {es : List ExprTree} (hes : ∀ z : ∀ v, Ω v,
      ExprTree.evalList (named (labelOf p)) (observed (labelOf p) read M) es z =
        valueAll M factors (relevel read (free assign (outer ∪ sumset)) z)) (x : ∀ v, Ω v) :
    (sumOver p sumset (productOf es)).eval (named (labelOf p)) (observed (labelOf p) read M) x =
      marg (lift p.admg.nodeCount sumset) (valueAll M factors)
        (relevel read (free assign outer) x) := by
  rw [sumOver_eval hd hs, productOf_eval, marg_free, funext hes]

omit hd ha

mutual

/-- **An emitted factor is its conditional law at the levels no sum binds.** -/
theorem Factor.emit_eval (hd : PreparedAdmg.Distinct p.admg)
    (ha : ∀ e ∈ assign, e.1 < p.admg.nodeCount) : ∀ {f : Factor} {bound : Finset Nat} {e : ExprTree}, f.InRange p →
    f.emit p assign bound = .ok e → ∀ x : ∀ v, Ω v,
      e.eval (named (labelOf p)) (observed (labelOf p) read M) x =
        f.value M (relevel read (free assign bound) x)
  | .observed var cond, bound, e, hr, h, x => by
    rw [Factor.InRange] at hr
    rw [Factor.emit] at h
    rw [Factor.value]
    exact emitDistribution_eval hd (fun e he => ha e (List.mem_filter.mp he).1) hr.1 hr.2 h x
  | .conditional var sumset factors, bound, e, hr, h, x => by
    rw [Factor.InRange] at hr
    obtain ⟨hvar, hsum, hall⟩ := hr
    have hnum : ∀ {outer : Finset Nat} {es : List ExprTree},
        emitAll p assign (outer ∪ sumset) factors = .ok es → ∀ x : ∀ v, Ω v,
          (sumOver p sumset (productOf es)).eval (named (labelOf p))
            (observed (labelOf p) read M) x =
            marg (lift p.admg.nodeCount sumset) (valueAll M factors)
              (relevel read (free assign outer) x) := fun hes =>
      sumOver_productOf_eval hd hsum fun z => emitAll_eval hd ha hall hes z
    rw [Factor.emit] at h
    rw [Factor.value]
    obtain ⟨es, hes, h⟩ := bind_ok h
    have hden : ∀ {body : ExprTree}, (∀ z, body.eval (named (labelOf p))
        (observed (labelOf p) read M) z = marg (lift p.admg.nodeCount sumset)
          (valueAll M factors) (relevel read (free assign (bound ∪ {var})) z)) →
        e = .ratio (sumOver p sumset (productOf es)) (.sumOut [p.denseToVar var] body) →
        e.eval (named (labelOf p)) (observed (labelOf p) read M) x =
          marg (lift p.admg.nodeCount sumset) (valueAll M factors)
            (relevel read (free assign bound) x) /
          marg (lift p.admg.nodeCount {var}) (marg (lift p.admg.nodeCount sumset)
            (valueAll M factors)) (relevel read (free assign bound) x) := by
      rintro body hbody rfl
      rw [ExprTree.eval, ExprTree.eval, named_node hd hvar, funext hbody]
      show _ / _ = _
      rw [hnum hes x]
      exact congrArg _ (marg_free _ x).symm
    have hins : insert var bound = bound ∪ {var} := by
      rw [Finset.union_comm, ← Finset.insert_eq]
    by_cases hlab : var ∉ bound ∧ (assign.any fun e => e.1 = var) = true
    · -- the denominator is emitted again, its variable bound
      cases hes' : emitAll p assign (insert var bound ∪ sumset) factors with
      | error e =>
        simp only [hlab, hes'] at h
        cases h
      | ok es' =>
        simp only [hlab, hes'] at h
        cases h
        exact hden (fun z => by rw [hnum hes' z, hins]) rfl
    · simp only [hlab] at h
      cases h
      exact hden (fun z => by rw [hnum hes z, free_unlabelled hlab]) rfl

theorem emitAll_eval (hd : PreparedAdmg.Distinct p.admg)
    (ha : ∀ e ∈ assign, e.1 < p.admg.nodeCount) : ∀ {fs : List Factor} {bound : Finset Nat} {es : List ExprTree},
    AllInRange p fs → emitAll p assign bound fs = .ok es → ∀ x : ∀ v, Ω v,
      ExprTree.evalList (named (labelOf p)) (observed (labelOf p) read M) es x =
        valueAll M fs (relevel read (free assign bound) x)
  | [], bound, es, _, h, x => by
    rw [emitAll] at h
    cases h
    rw [ExprTree.evalList, valueAll]
  | f :: fs, bound, es, hr, h, x => by
    rw [AllInRange] at hr
    rw [emitAll] at h
    obtain ⟨e, hf, h⟩ := bind_ok h
    obtain ⟨es', hfs, h⟩ := bind_ok h
    cases h
    rw [ExprTree.evalList, valueAll]
    show _ * _ = _ * _
    rw [f.emit_eval hd ha hr.1 hf x, emitAll_eval hd ha hr.2 hfs x]

end

/-- **An emitted law.** -/
theorem Law.emit_eval (hd : PreparedAdmg.Distinct p.admg)
    (ha : ∀ e ∈ assign, e.1 < p.admg.nodeCount) {law : Law}
    (hs : ∀ u ∈ law.sumset, u < p.admg.nodeCount) (hall : AllInRange p law.factors)
    (h : Law.emit p assign ∅ law = .ok e) (x : ∀ v, Ω v) :
    e.eval (named (labelOf p)) (observed (labelOf p) read M) x =
      marg (lift p.admg.nodeCount law.sumset) (valueAll M law.factors) (relevel read assign x) := by
  unfold Law.emit at h
  obtain ⟨es, hes, h⟩ := bind_ok h
  cases h
  rw [sumOver_productOf_eval hd hs fun z => emitAll_eval hd ha hall hes z]
  congr 2
  exact List.filter_eq_self.mpr fun e _ => decide_eq_true (Finset.notMem_empty _)

/-- The chain-rule conditionals of a marginal, as they are emitted. -/
theorem mapM_emit_eval (hd : PreparedAdmg.Distinct p.admg)
    (ha : ∀ e ∈ assign, e.1 < p.admg.nodeCount) : ∀ {L : List (Nat × Finset Nat)}
    {es : List ExprTree}, (∀ c ∈ L, c.1 < p.admg.nodeCount ∧ ∀ u ∈ c.2, u < p.admg.nodeCount) →
      L.mapM (fun c => emitDistribution p assign c.1 (p.vars c.2)) = .ok es → ∀ x : ∀ v, Ω v,
        ExprTree.evalList (named (labelOf p)) (observed (labelOf p) read M) es x =
          valueAll M (L.map fun c => .observed c.1 c.2) (relevel read assign x)
  | [], es, _, h, x => by
    rw [List.mapM_nil] at h
    cases h
    rw [ExprTree.evalList, List.map_nil, valueAll]
  | c :: L, es, hL, h, x => by
    obtain ⟨hv, hc⟩ := hL c List.mem_cons_self
    rw [List.mapM_cons] at h
    obtain ⟨e, hf, h⟩ := bind_ok h
    obtain ⟨es', hfs, h⟩ := bind_ok h
    cases h
    rw [ExprTree.evalList, List.map_cons, valueAll]
    show _ * _ = _ * _
    rw [emitDistribution_eval hd ha hv hc hf x, Factor.value,
      mapM_emit_eval hd ha (fun c hc => hL c (List.mem_cons_of_mem _ hc)) hfs x]

end Value

end Antecedent.Identify.GeneralId
