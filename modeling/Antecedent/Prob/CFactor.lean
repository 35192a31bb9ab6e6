import Antecedent.Prob.SemiMarkov

/-!
# Chain-rule factors of a c-factor

The identification algorithms carry the c-factor of a vertex set as a kernel and read the c-factor
of a district off it: along a topological order, the factor of a node is the kernel with the later
nodes summed out, divided by the same with the node summed out as well. The product over a
district's nodes is the district's c-factor (Tian and Pearl).

* `law_compl`: `P(y | do(rest))` is a c-factor with the other nodes summed out.
* **`q_chain`**: the product of chain-rule factors over a district is its c-factor.
-/

namespace Antecedent.Prob

open Finset
open Mixed

variable {V : Type*} [Fintype V] [DecidableEq V] {G : MixedGraph V} {Ω : V → Type}
  [∀ v, Fintype (Ω v)] [∀ v, DecidableEq (Ω v)] {M : Model G Ω}

section Sums

variable {S : Finset V} {f g J : (∀ v, Ω v) → ℝ} {D : Set V}

end Sums

namespace Model

variable {R S T Y E : Finset V}

theorem law_compl : M.law Rᶜ Y = marg (R \ Y) (M.q R) := by
  unfold law
  rw [compl_union, compl_compl, inter_comm, ← sdiff_eq_inter_compl]

/-- **The law in a subsystem is a sum over a part of it closed under its parents.** -/
theorem law_compl_eq_marg (hac : G.Acyclic) (hER : E ⊆ R)
    (hE : ∀ t ∈ E, ∀ p ∈ R, G.dir p t → p ∈ E) (hYE : Y ⊆ E) :
    M.law Rᶜ Y = marg (E \ Y) (M.q E) := by
  refine law_eq_marg hac (disjoint_compl_right.mono_left hER) (fun t ht p hp hpR => ?_) hYE
  exact hE t ht p (by simpa using hpR) hp

/-! ## Blocks -/

omit [∀ v, DecidableEq (Ω v)] in
/-- **A c-factor is the product over blocks that no bidirected edge joins.** -/
theorem q_blocks : ∀ {blocks : List (Finset V)},
    blocks.Pairwise (fun A B => Disjoint A B ∧ ∀ a ∈ A, ∀ b ∈ B, ¬ G.bi a b) →
    ∀ x, M.q (blocks.foldr (· ∪ ·) ∅) x = (blocks.map fun A => M.q A x).prod
  | [], _, x => by simp
  | A :: blocks, h, x => by
    obtain ⟨hA, hrest⟩ := List.pairwise_cons.mp h
    have hmem : ∀ {v}, v ∈ blocks.foldr (· ∪ ·) ∅ → ∃ B ∈ blocks, v ∈ B := by
      intro v hv
      clear hA hrest h
      induction blocks with
      | nil => exact absurd hv (notMem_empty v)
      | cons B blocks ih =>
        rcases mem_union.mp hv with hv | hv
        · exact ⟨B, List.mem_cons_self, hv⟩
        · obtain ⟨C, hC, hvC⟩ := ih hv
          exact ⟨C, List.mem_cons_of_mem B hC, hvC⟩
    rw [List.foldr_cons, List.map_cons, List.prod_cons, ← q_blocks hrest x]
    refine q_mul (disjoint_left.mpr fun v hv hv' => ?_) (fun a ha b hb => ?_) x
    · obtain ⟨B, hB, hvB⟩ := hmem hv'
      exact disjoint_left.mp (hA B hB).1 hv hvB
    · obtain ⟨B, hB, hbB⟩ := hmem hb
      exact (hA B hB).2 a ha b hbB

/-! ## The chain rule -/

/-- The chain-rule factor of `v` in the kernel `K`, the nodes of `later` summed out. -/
noncomputable def chainFactor (K : (∀ v, Ω v) → ℝ) (v : V) (later : Finset V) (x : ∀ v, Ω v) : ℝ :=
  marg later K x / marg {v} (marg later K) x

/-- The chain-rule factors of the nodes of `T` along an order. -/
noncomputable def chainFactors (K : (∀ v, Ω v) → ℝ) (T : Finset V) : List V → (∀ v, Ω v) → ℝ
  | [], _ => 1
  | v :: later, x => (if v ∈ T then chainFactor K v later.toFinset x else 1) *
      chainFactors K T later x

/-- The part of an order before a node is closed under the parents in the order. -/
def Ordered (G : MixedGraph V) (order : List V) : Prop :=
  ∀ pre v post, order = pre ++ v :: post → ∀ u ∈ order, G.dir u v → u ∈ pre

omit [Fintype V] [∀ v, Fintype (Ω v)] [∀ v, DecidableEq (Ω v)] in
theorem Ordered.closed {order pre post : List V} (h : Ordered G order) (he : order = pre ++ post) :
    ∀ t ∈ pre.toFinset, ∀ p ∈ order.toFinset, G.dir p t → p ∈ pre.toFinset := by
  intro t ht p hp hpt
  obtain ⟨a, b, rfl⟩ := List.append_of_mem (List.mem_toFinset.mp ht)
  have hmem := h a t (b ++ post) (by rw [he]; simp) p (List.mem_toFinset.mp hp) hpt
  exact List.mem_toFinset.mpr (List.mem_append_left _ hmem)

/-- **Chain-rule factors multiply to the c-factor of a set that no bidirected edge leaves.** -/
theorem q_chain (hac : G.Acyclic) (hM : M.Positive) {order : List V} (hn : order.Nodup)
    (ho : Ordered G order) (hT : T ⊆ order.toFinset)
    (hbi : ∀ s ∈ T, ∀ t ∈ order.toFinset \ T, ¬ G.bi s t) (x : ∀ v, Ω v) :
    chainFactors (M.q order.toFinset) T order x = M.q T x := by
  have split : ∀ A ⊆ order.toFinset, M.q A x = M.q (A ∩ T) x * M.q (A \ T) x := fun A hA => by
    rw [← q_mul (disjoint_sdiff_inter A T).symm, union_comm, sdiff_union_inter]
    intro s hs t ht
    exact hbi s (mem_inter.mp hs).2 t
      (mem_sdiff.mpr ⟨hA (mem_sdiff.mp ht).1, (mem_sdiff.mp ht).2⟩)
  -- summing a tail of the order out of the kernel leaves the c-factor of the rest
  have head : ∀ pre post, order = pre ++ post →
      marg post.toFinset (M.q order.toFinset) = M.q pre.toFinset := fun pre post he => by
    have hdis : order.toFinset \ pre.toFinset = post.toFinset := by
      ext v
      have h := List.disjoint_of_nodup_append (he ▸ hn)
      simp only [mem_sdiff, List.mem_toFinset, he, List.mem_append]
      exact ⟨fun h' => h'.1.resolve_left h'.2, fun h' => ⟨Or.inr h', fun hc => h hc h'⟩⟩
    rw [← hdis]
    refine marg_q hac (fun v hv => ?_) (ho.closed he)
    rw [he, List.toFinset_append]
    exact mem_union_left _ hv
  have key : ∀ post pre, order = pre ++ post →
      M.q (pre.toFinset ∩ T) x * chainFactors (M.q order.toFinset) T post x = M.q T x := by
    intro post
    induction post with
    | nil =>
      intro pre he
      rw [List.append_nil] at he
      rw [chainFactors, mul_one, ← he, inter_eq_right.mpr hT]
    | cons v post ih =>
      intro pre he
      have he' : order = (pre ++ [v]) ++ post := by rw [he]; simp
      have hsub : ∀ {l : List V}, l <+: order → l.toFinset ⊆ order.toFinset := fun hl u hu =>
        List.mem_toFinset.mpr (hl.subset (List.mem_toFinset.mp hu))
      have hset : (pre ++ [v]).toFinset = insert v pre.toFinset := by
        ext u
        simp
      rw [← ih (pre ++ [v]) he', chainFactors, ← mul_assoc]
      congr 1
      by_cases hv : v ∈ T
      · have hone : marg {v} (M.q (pre ++ [v]).toFinset) = M.q pre.toFinset := by
          have hd : Disjoint {v} post.toFinset := by
            rw [disjoint_singleton_left, List.mem_toFinset]
            exact fun hc => (List.nodup_cons.mp (List.nodup_append.mp (he ▸ hn)).2.1).1 hc
          rw [← head _ _ he', marg_marg hd, ← head _ _ he]
          congr 1
          ext u
          simp
        have hpre : M.q pre.toFinset x ≠ 0 := (q_pos hM _ x).ne'
        rw [if_pos hv, chainFactor, head _ _ he', hone, mul_div_assoc', div_eq_iff hpre,
          split _ (hsub ⟨post, he'.symm⟩), split _ (hsub ⟨v :: post, he.symm⟩), hset,
          insert_sdiff_of_mem _ hv]
        ring
      · rw [if_neg hv, mul_one, hset, insert_inter_of_notMem hv]
  have h := key order [] rfl
  rwa [List.toFinset_nil, empty_inter, q_empty, one_mul] at h

end Model

end Antecedent.Prob
