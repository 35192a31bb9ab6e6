import Antecedent.Identify.GeneralIdEmit
import Antecedent.Identify.GeneralIdHedge

/-!
# The current law of a call

The current law of a call is the c-factor of its nodes. At first the nodes hold their parents and
the law is a marginal of the observed one; line 7 makes it a product of chain-rule factors, and
line 2 sums nodes out of it.

* `valueAll_preceding`: chain-rule factors along the topological order.
-/

namespace Antecedent.Identify.GeneralId

open Expr
open Graph
open Mixed
open Prob
open Finset

/-- `T` is a part of `v` that no bidirected edge inside `v` leaves. -/
structure Split (p : PreparedAdmg) (v T : Finset Nat) : Prop where
  sub : T ⊆ v
  apart : ∀ s ∈ T, ∀ t ∈ v \ T, ¬ p.admg.mixed.bi s t

/-- The nodes hold their parents. -/
def Ancestral (p : PreparedAdmg) (v : Finset Nat) : Prop :=
  ∀ t ∈ v, ∀ u, p.admg.mixed.dir u t → u ∈ v

variable {p : PreparedAdmg} {v s T : Finset Nat} {F : Nat × Finset Nat → Factor}

theorem Split.refl (v : Finset Nat) : Split p v v :=
  ⟨subset_rfl, fun _ _ _ ht => absurd (Finset.mem_sdiff.mp ht).1 (Finset.mem_sdiff.mp ht).2⟩

/-- A part of a part. -/
theorem Split.trans (hs : Split p v s) (hT : Split p s T) : Split p v T where
  sub := hT.sub.trans hs.sub
  apart a ha t ht := by
    obtain ⟨htv, htT⟩ := Finset.mem_sdiff.mp ht
    by_cases hts : t ∈ s
    · exact hT.apart a ha t (Finset.mem_sdiff.mpr ⟨hts, htT⟩)
    · exact hs.apart a (hT.sub ha) t (Finset.mem_sdiff.mpr ⟨htv, hts⟩)

/-- A district is such a part. -/
theorem split_of_mem_components {comps : List (Finset Nat)} (h : p.admg.Components v comps)
    (hs : s ∈ comps) : Split p v s where
  sub := h.sub s hs
  apart a ha t ht hbi := by
    obtain ⟨htv, hts⟩ := Finset.mem_sdiff.mp ht
    exact hts (h.closed s hs a ha t (.single ⟨h.sub s hs ha, htv, hbi⟩))

/-! ## The order -/

/-- The nodes of `v` in topological order. -/
structure Sequence (p : PreparedAdmg) (v : Finset Nat) (order : List (Fin p.admg.nodeCount)) :
    Prop where
  map : order.map Fin.val = p.topo.filter (· ∈ v)
  nodup : order.Nodup
  set : order.toFinset = lift p.admg.nodeCount v
  ordered : Model.Ordered (onNodes p.admg) order

theorem exists_sequence
    (ht : Kahn.Topological p.admg.children (Finset.range p.admg.nodeCount) p.topo)
    (v : Finset Nat) : ∃ order, Sequence p v order := by
  have hrange : ∀ u ∈ p.topo.filter (· ∈ v), u < p.admg.nodeCount := fun u hu =>
    Finset.mem_range.mp ((ht.mem u).mp (List.mem_filter.mp hu).1)
  set order := (p.topo.filter (· ∈ v)).pmap Fin.mk hrange with horder
  have hmap : order.map Fin.val = p.topo.filter (· ∈ v) := by
    rw [horder, List.map_pmap]
    exact List.pmap_eq_self.mpr fun _ _ => rfl
  have hmem : ∀ {i}, i ∈ order ↔ i.val ∈ v := fun {i} => by
    rw [← List.mem_map_of_injective Fin.val_injective, hmap, List.mem_filter, decide_eq_true_eq,
      and_iff_right ((ht.mem _).mpr (Finset.mem_range.mpr i.isLt))]
  refine ⟨order, hmap, ?_, ?_, fun pre i post he u hu hdir => ?_⟩
  · exact List.Nodup.of_map _ (hmap ▸ ht.nodup.filter _)
  · ext i
    rw [List.mem_toFinset, hmem, mem_lift]
  · -- the same place in the whole order
    have hsplit : p.topo.filter (· ∈ v) = pre.map Fin.val ++ i.val :: post.map Fin.val := by
      rw [← hmap, he, List.map_append, List.map_cons]
    obtain ⟨a, b, hab, ha, hb⟩ := List.filter_eq_append_iff.mp hsplit
    obtain ⟨c, d, rfl, hc, -, -⟩ := List.filter_eq_cons_iff.mp hb
    rw [← List.append_assoc] at hab
    have hmemu := ht.before (a ++ c) i.val d hab u.val (Finset.mem_range.mpr u.isLt) hdir
    have huv : u.val ∈ v := hmem.mp hu
    rcases List.mem_append.mp hmemu with hua | huc
    · have : u.val ∈ pre.map Fin.val := ha ▸ List.mem_filter.mpr ⟨hua, decide_eq_true huv⟩
      exact (List.mem_map_of_injective Fin.val_injective).mp this
    · exact absurd (decide_eq_true huv) (hc _ huc)

section Tail

variable {α : Type*} [DecidableEq α] {pre post : List α} {i : α}

variable (h : (pre ++ i :: post).Nodup)

include h

theorem sdiff_head : (pre ++ i :: post).toFinset \ insert i pre.toFinset = post.toFinset := by
  have hdis := List.disjoint_of_nodup_append h
  have hnot := (List.nodup_cons.mp (List.nodup_append.mp h).2.1).1
  ext a
  simp only [List.toFinset_append, List.toFinset_cons, Finset.mem_sdiff, Finset.mem_union,
    Finset.mem_insert, List.mem_toFinset, not_or]
  constructor
  · rintro ⟨hpre | rfl | hpost, hne, hnpre⟩
    · exact absurd hpre hnpre
    · exact absurd rfl hne
    · exact hpost
  · refine fun hpost => ⟨Or.inr (Or.inr hpost), ?_, fun hpre => ?_⟩
    · rintro rfl
      exact hnot hpost
    · exact hdis hpre (List.mem_cons_of_mem _ hpost)

theorem sdiff_pre : (pre ++ i :: post).toFinset \ pre.toFinset = {i} ∪ post.toFinset := by
  have hdis := List.disjoint_of_nodup_append h
  ext a
  simp only [List.toFinset_append, List.toFinset_cons, Finset.mem_sdiff, Finset.mem_union,
    Finset.mem_insert, List.mem_toFinset, Finset.mem_singleton]
  constructor
  · rintro ⟨hpre | h, hn⟩
    · exact absurd hpre hn
    · exact h
  · exact fun h => ⟨Or.inr h, fun hpre => hdis hpre (List.mem_cons.mpr h)⟩

theorem disjoint_head : Disjoint {i} post.toFinset := by
  rw [Finset.disjoint_singleton_left, List.mem_toFinset]
  exact (List.nodup_cons.mp (List.nodup_append.mp h).2.1).1

end Tail

/-! ## Chain-rule conditionals -/

/-- A law conditioned on the nodes before each node of `s`. -/
def chained (p : PreparedAdmg) (F : Nat × Finset Nat → Factor) (s v : Finset Nat) : List Factor :=
  ((preceding p v).filter fun e => e.1 ∈ s).map F

/-- The part of a part. -/
theorem filter_chained (hF : ∀ e, (F e).var = e.1) (hT : T ⊆ s) :
    (chained p F s v).filter (fun f => f.var ∈ T) = chained p F T v := by
  unfold chained
  rw [List.filter_map, List.filter_filter]
  refine congrArg _ (List.filter_congr fun e _ => ?_)
  show (decide ((F e).var ∈ T) && decide (e.1 ∈ s)) = decide (e.1 ∈ T)
  rw [hF, ← Bool.decide_and, decide_eq_decide]
  exact and_iff_left_of_imp fun h => hT h

theorem mem_preceding {c : Nat × Finset Nat} (h : c ∈ preceding p v) : c.1 ∈ v ∧ c.2 ⊆ v := by
  obtain ⟨e, he, rfl⟩ := List.mem_map.mp h
  have hsub : ∀ {u}, u ∈ p.topo.filter (· ∈ v) → u ∈ v := fun hu =>
    of_decide_eq_true (List.mem_filter.mp hu).2
  refine ⟨hsub (List.fst_mem_of_mem_zipIdx he), fun u hu => ?_⟩
  exact hsub (List.mem_of_mem_take (List.mem_toFinset.mp hu))

theorem allInRange_iff {fs : List Factor} : AllInRange p fs ↔ ∀ f ∈ fs, f.InRange p := by
  induction fs with
  | nil => simp [AllInRange]
  | cons f fs ih => rw [AllInRange, ih, List.forall_mem_cons]

section Value

variable {Ω : Fin p.admg.nodeCount → Type} [∀ v, Fintype (Ω v)] [∀ v, DecidableEq (Ω v)]
  {M : Model (onNodes p.admg) Ω} {order : List (Fin p.admg.nodeCount)}

/-- **Chain-rule factors along the order.** -/
theorem valueAll_chained (hs : Sequence p v order)
    {K : (∀ v, Ω v) → ℝ} {x : ∀ v, Ω v}
    (hF : ∀ pre i post, order = pre ++ i :: post →
      (F (i.val, (pre.map Fin.val).toFinset)).value M x = Model.chainFactor K i post.toFinset x) :
    valueAll M (chained p F T v) x = Model.chainFactors K (lift p.admg.nodeCount T) order x := by
  have key : ∀ post pre, order = pre ++ post →
      valueAll M (((((post.map Fin.val).zipIdx pre.length).map fun e =>
        (e.1, ((p.topo.filter (· ∈ v)).take e.2).toFinset)).filter fun e => e.1 ∈ T).map F) x =
          Model.chainFactors K (lift p.admg.nodeCount T) post x := by
    intro post
    induction post with
    | nil =>
      intro pre _
      rfl
    | cons i post ih =>
      intro pre he
      have htake : (p.topo.filter (· ∈ v)).take pre.length = pre.map Fin.val := by
        rw [← hs.map, he, List.map_append, List.take_left' (List.length_map ..)]
      have hrest := ih (pre ++ [i]) (by rw [he]; simp)
      rw [List.length_append, List.length_singleton] at hrest
      rw [Model.chainFactors, List.map_cons, List.zipIdx_cons, List.map_cons, List.filter_cons,
        ← hrest]
      by_cases hi : i.val ∈ T
      · rw [if_pos (decide_eq_true hi), if_pos (mem_lift.mpr hi), List.map_cons, valueAll, htake]
        show _ * _ = _ * _
        rw [hF pre i post he]
      · rw [if_neg (by simpa using hi), if_neg (fun h => hi (mem_lift.mp h)), one_mul]
  have h := key order [] rfl
  rw [hs.map] at h
  exact h

section

variable (hM : M.Positive) (hs : Sequence p v order)

include hM hs

theorem chainFactors_eq (hT : Split p v T) (x : ∀ v, Ω v) :
    Model.chainFactors (M.q (lift p.admg.nodeCount v))
      (lift p.admg.nodeCount T) order x = M.q (lift p.admg.nodeCount T) x := by
  rw [← hs.set]
  refine Model.q_chain (onNodes_acyclic p.admg) hM hs.nodup hs.ordered ?_ ?_ x
  · rw [hs.set]
    exact fun i hi => mem_lift.mpr (hT.sub (mem_lift.mp hi))
  · intro a ha b hb
    rw [hs.set, ← lift_sdiff] at hb
    exact hT.apart a (mem_lift.mp ha) b (mem_lift.mp hb)

/-- **The conditionals of a marginal**: a part that no bidirected edge leaves. -/
theorem marginal_value (hv : Ancestral p v) (hT : Split p v T) (x : ∀ v, Ω v) :
    valueAll M (chained p (fun e => .observed e.1 e.2) T v) x =
      M.q (lift p.admg.nodeCount T) x := by
  rw [valueAll_chained hs (K := M.q (lift p.admg.nodeCount v)) fun pre i post he => ?_]
  · exact chainFactors_eq hM hs hT x
  · have hclosed : Model.ParentClosed (onNodes p.admg) ∅ (lift p.admg.nodeCount v) :=
      fun t ht u hu _ => mem_lift.mpr (hv t.val (mem_lift.mp ht) u.val hu)
    have hlaw : ∀ {Y}, Y ⊆ lift p.admg.nodeCount v →
        M.law ∅ Y = marg (lift p.admg.nodeCount v \ Y) (M.q (lift p.admg.nodeCount v)) := fun hY =>
      Model.law_eq_marg (onNodes_acyclic p.admg) (disjoint_empty_right _) hclosed hY
    have hpre : lift p.admg.nodeCount (pre.map Fin.val).toFinset = pre.toFinset := by
      ext u
      rw [mem_lift, List.mem_toFinset, List.mem_toFinset,
        List.mem_map_of_injective Fin.val_injective]
    have hone : lift p.admg.nodeCount {i.val} = {i} := by
      ext u
      rw [mem_lift, Finset.mem_singleton, Finset.mem_singleton, Fin.ext_iff]
    have hn := he ▸ hs.nodup
    have hset := he ▸ hs.set
    rw [Factor.value, hpre, hone]
    unfold Model.kernel Model.chainFactor
    rw [marg_marg (disjoint_head hn), hlaw, hlaw, ← hset, ← Finset.insert_eq, sdiff_head hn,
      sdiff_pre hn]
    · rw [← hset]
      intro u hu
      exact List.mem_toFinset.mpr (List.mem_append_left _ (List.mem_toFinset.mp hu))
    · rw [← hset]
      intro u hu
      simp only [Finset.mem_union, Finset.mem_singleton, List.mem_toFinset] at hu
      simp only [List.mem_toFinset, List.mem_append, List.mem_cons]
      tauto

/-- **The conditionals of a marginalized law.** -/
theorem conditional_value {sumset : Finset Nat} {factors : List Factor} (hd : Disjoint sumset v)
    (hval : marg (lift p.admg.nodeCount sumset) (valueAll M factors) = M.q (lift p.admg.nodeCount v))
    (hT : Split p v T) (x : ∀ v, Ω v) :
    valueAll M (chained p (fun e => .conditional e.1 (sumset ∪ (v \ insert e.1 e.2)) factors) T v)
      x = M.q (lift p.admg.nodeCount T) x := by
  rw [valueAll_chained hs (K := M.q (lift p.admg.nodeCount v)) fun pre i post he => ?_]
  · exact chainFactors_eq hM hs hT x
  · have hn := he ▸ hs.nodup
    have hset := he ▸ hs.set
    have hone : lift p.admg.nodeCount {i.val} = {i} := by
      ext u
      rw [mem_lift, Finset.mem_singleton, Finset.mem_singleton, Fin.ext_iff]
    have hlater : lift p.admg.nodeCount (v \ insert i.val (pre.map Fin.val).toFinset) =
        post.toFinset := by
      rw [← sdiff_head hn, hset]
      ext u
      simp only [mem_lift, Finset.mem_sdiff, Finset.mem_insert, List.mem_toFinset,
        List.mem_map_of_injective Fin.val_injective, Fin.ext_iff]
    have hdis : Disjoint post.toFinset (lift p.admg.nodeCount sumset) := by
      rw [← hlater, ← disjoint_coe]
      exact disjoint_coe.mpr (disjoint_lift (hd.symm.mono_left Finset.sdiff_subset))
    rw [Factor.value, lift_union, hone, hlater, Finset.union_comm, ← marg_marg hdis, hval]
    rfl

/-! ## The invariant -/

end

variable (M)

/-- A law is the c-factor of `v`; without a sum, so is each part that no bidirected edge leaves. -/
structure Law.Denotes (law : Law) (v : Finset Nat) : Prop where
  sumset_lt : ∀ u ∈ law.sumset, u < p.admg.nodeCount
  factors_lt : AllInRange p law.factors
  apart : Disjoint law.sumset v
  value : marg (lift p.admg.nodeCount law.sumset) (valueAll M law.factors) =
    M.q (lift p.admg.nodeCount v)
  parts : law.sumset = ∅ → ∀ T, Split p v T → ∀ x,
    valueAll M (law.factors.filter fun f => f.var ∈ T) x = M.q (lift p.admg.nodeCount T) x

/-- The current law is the c-factor of `v`. -/
def DistCtx.Denotes (v : Finset Nat) : DistCtx → Prop
  | .marginal => Ancestral p v
  | .cFactor law => law.Denotes M v

variable {M} {dist : DistCtx} {factors : List Factor}

/-- **Line 2.** -/
theorem DistCtx.Denotes.marginalize (h : dist.Denotes M v) (hv : ∀ u ∈ v, u < p.admg.nodeCount)
    {v' : Finset Nat} (hsub : v' ⊂ v)
    (hclosed : ∀ t ∈ v', ∀ u ∈ v, p.admg.mixed.dir u t → u ∈ v') :
    (dist.marginalize (v \ v')).Denotes M v' := by
  cases dist with
  | marginal => exact fun t ht u hu => hclosed t ht u (h t (hsub.subset ht) u hu) hu
  | cFactor law =>
    refine ⟨fun u hu => ?_, h.factors_lt, ?_, ?_, fun hempty => ?_⟩
    · exact (Finset.mem_union.mp hu).elim (h.sumset_lt u) fun hu => hv u (Finset.mem_sdiff.mp hu).1
    · rw [Finset.disjoint_union_left]
      exact ⟨h.apart.mono_right hsub.subset, Finset.sdiff_disjoint⟩
    · have hdis : Disjoint (v \ v') law.sumset := h.apart.symm.mono_left Finset.sdiff_subset
      rw [Finset.union_comm, lift_union, ← marg_marg (disjoint_lift hdis), h.value, lift_sdiff]
      exact Model.marg_q (onNodes_acyclic p.admg)
        (fun i hi => mem_lift.mpr (hsub.subset (mem_lift.mp hi)))
        fun t ht u hu hut => mem_lift.mpr (hclosed t.val (mem_lift.mp ht) u.val (mem_lift.mp hu) hut)
    · obtain ⟨u, hu, hu'⟩ := Finset.exists_of_ssubset hsub
      have hset : law.sumset ∪ v \ v' = ∅ := hempty
      have := Finset.mem_union_right law.sumset (Finset.mem_sdiff.mpr ⟨hu, hu'⟩)
      rw [hset] at this
      exact absurd this (Finset.notMem_empty u)

theorem denotes_of_parts (hrange : AllInRange p factors)
    (hvar : factors.filter (fun f => f.var ∈ s) = factors)
    (h : ∀ T, Split p s T → ∀ x,
      valueAll M (factors.filter fun f => f.var ∈ T) x = M.q (lift p.admg.nodeCount T) x) :
    (⟨∅, factors⟩ : Law).Denotes M s where
  sumset_lt _ hu := absurd hu (Finset.notMem_empty _)
  factors_lt := hrange
  apart := Finset.disjoint_empty_left s
  value := by
    rw [lift_empty, marg_empty]
    funext x
    rw [← h s (.refl s) x, hvar]
  parts _ := h

/-- **Line 7**: the conditionals of the current law are the c-factor of a district. -/
theorem DistCtx.Denotes.conditionals
    (ht : Kahn.Topological p.admg.children (Finset.range p.admg.nodeCount) p.topo)
    (hM : M.Positive) (h : dist.Denotes M v) (hv : ∀ u ∈ v, u < p.admg.nodeCount)
    (hs : Split p v s) (hok : dist.conditionals p s v = .ok factors) :
    (⟨∅, factors⟩ : Law).Denotes M s := by
  obtain ⟨order, hseq⟩ := exists_sequence ht v
  have hfilter : ∀ {F : Nat × Finset Nat → Factor}, (∀ e, (F e).var = e.1) →
      (∀ T, Split p v T → ∀ x, valueAll M (chained p F T v) x = M.q (lift p.admg.nodeCount T) x) →
      (∀ e ∈ preceding p v, (F e).InRange p) → (⟨∅, chained p F s v⟩ : Law).Denotes M s := by
    intro F hF hval hrange
    refine denotes_of_parts (allInRange_iff.mpr fun f hf => ?_) (filter_chained hF subset_rfl)
      fun T hT x => ?_
    · obtain ⟨e, he, rfl⟩ := List.mem_map.mp hf
      exact hrange e (List.mem_filter.mp he).1
    · rw [filter_chained hF hT.sub]
      exact hval T (hs.trans hT) x
  cases dist with
  | marginal =>
    cases hok
    refine hfilter (fun _ => rfl) (fun T hT x => marginal_value hM hseq h hT x) fun e he => ?_
    have hmem := mem_preceding he
    rw [Factor.InRange]
    exact ⟨hv _ hmem.1, fun u hu => hv u (hmem.2 hu)⟩
  | cFactor law =>
    unfold DistCtx.conditionals Law.conditionals at hok
    dsimp only at hok
    split_ifs at hok with hsum hlen
    · -- the conditionals are the law's own factors
      cases hok
      have hfs : ∀ {T}, T ⊆ s → (law.factors.filter (fun f => f.var ∈ s)).filter
          (fun f => f.var ∈ T) = law.factors.filter fun f => f.var ∈ T := fun hT => by
        rw [List.filter_filter]
        refine List.filter_congr fun f _ => ?_
        rw [← Bool.decide_and, decide_eq_decide]
        exact and_iff_left_of_imp fun hf => hT hf
      refine denotes_of_parts (allInRange_iff.mpr fun f hf => ?_) (hfs subset_rfl)
        fun T hT x => ?_
      · exact allInRange_iff.mp h.factors_lt f (List.mem_filter.mp hf).1
      · rw [hfs hT.sub]
        exact h.parts hsum T (hs.trans hT) x
    · cases hok
      refine hfilter (fun _ => rfl)
        (fun T hT x => conditional_value hM hseq h.apart h.value hT x) fun e he => ?_
      rw [Factor.InRange]
      refine ⟨hv _ (mem_preceding he).1, fun u hu => ?_, h.factors_lt⟩
      exact (Finset.mem_union.mp hu).elim (h.sumset_lt u)
        fun hu => hv u (Finset.mem_sdiff.mp hu).1

end Value

end Antecedent.Identify.GeneralId
