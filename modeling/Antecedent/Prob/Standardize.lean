import Antecedent.Prob.Transport

/-!
# Factorisation and standardisation

Without bidirected edges every mechanism is a conditional law: a node given any part of its past
that holds its parents. A law of one population is carried to another by standardising over
covariates that the actions do not reach.

* **`Model.kernel_node`**, `Model.kernel_parents`: the law of a node given its past is its c-factor.
* **`TransportPair.standardize`**: `P*(y | do(d)) = ∑_z P(y | do(d), z) P*(z)`.
-/

namespace Antecedent.Prob

open Finset
open Mixed

variable {V : Type*} [Fintype V] [DecidableEq V] {G : MixedGraph V} {Ω : V → Type}
  [∀ v, Fintype (Ω v)]

namespace Model

variable {M : Model G Ω} {D E Z : Finset V}

/-- **The c-factor of nodes that no bidirected edge joins is the product of their own.** -/
theorem q_nodes (hbi : ∀ a b, ¬ G.bi a b) {order : List V} (hn : order.Nodup) (x : ∀ v, Ω v) :
    M.q order.toFinset x = (order.map fun v => M.q {v} x).prod := by
  induction order with
  | nil => simp
  | cons v order ih =>
    obtain ⟨hv, hn⟩ := List.nodup_cons.mp hn
    have hdis : Disjoint {v} order.toFinset := by
      rw [disjoint_singleton_left, List.mem_toFinset]
      exact hv
    rw [List.toFinset_cons, insert_eq, q_mul hdis fun s _ t _ => hbi s t, ih hn]
    simp

variable [∀ v, DecidableEq (Ω v)]

/-- **The law of a node given a part of a closed past that holds its parents is its c-factor.** -/
theorem kernel_node (hac : G.Acyclic) (hM : M.Positive) {v : V} (hv : v ∉ E)
    (hE : ParentClosed G ∅ E) (hbi : ∀ t ∈ E, ¬ G.bi v t) (hZ : Z ⊆ E)
    (hpa : ∀ p, G.dir p v → p ∈ Z) (x : ∀ v, Ω v) : M.kernel {v} ∅ Z x = M.q {v} x := by
  have past : ∀ {t}, t ∈ insert v E \ {v} → t ∈ E := fun ht =>
    (mem_insert.mp (mem_sdiff.mp ht).1).resolve_left fun e => (mem_sdiff.mp ht).2 (by simp [e])
  have hs : Split G ∅ (insert v E) {v} {v} := by
    refine ⟨disjoint_empty_right _, fun t ht p hp _ => ?_, by simp, by simp, fun s hs t ht => ?_,
      fun w hw hwv => ?_⟩
    · refine mem_insert_of_mem ?_
      rcases mem_insert.mp ht with rfl | ht
      · exact hZ (hpa p hp)
      · exact hE t ht p hp (notMem_empty p)
    · rw [mem_singleton.mp hs]
      exact hbi t (past ht)
    · obtain rfl := mem_singleton.mp hwv
      rcases hw with hw | ⟨t, ht, hwt⟩
      · exact hv (past hw)
      · exact hv (hE t (past ht) w hwt (notMem_empty w))
  have hown : marg {v} (M.q {v}) x = 1 := by
    have hirr : ∀ t ∈ ({v} : Finset V), ¬ G.dir v t := fun t ht h => by
      rw [mem_singleton.mp ht] at h
      exact hac v (.single h)
    rw [marg_q_singleton (mem_singleton_self v) hirr]
    simp
  have hZv : Disjoint Z {v} := by
    rw [disjoint_singleton_right]
    exact fun h => hv (hZ h)
  have hscope : ∀ w ∈ scope G {v}, w ∈ insert v E → w ∈ ({v} : Finset V) ∨ w ∈ Z := by
    rintro w (hw | ⟨t, ht, hwt⟩) -
    · exact Or.inl hw
    · rw [mem_singleton.mp ht] at hwt
      exact Or.inr (hpa w hwt)
  rw [hs.kernel_eq hac hM (hZ.trans (subset_insert v E)) hZv hscope subset_rfl, hown, div_one,
    sdiff_self, bot_eq_empty, marg_empty]

/-- **The law of a node given its parents is its c-factor**: its past is its strict ancestors. -/
theorem kernel_parents (hac : G.Acyclic) (hM : M.Positive) {v : V} (hbi : ∀ t, ¬ G.bi v t)
    (hZ : ∀ p, p ∈ Z ↔ G.dir p v) (x : ∀ v, Ω v) : M.kernel {v} ∅ Z x = M.q {v} x := by
  classical
  have hE : ∀ {t}, t ∈ univ.filter (fun t => Relation.TransGen G.dir t v) ↔
      Relation.TransGen G.dir t v := fun {t} => mem_filter_univ t
  refine kernel_node hac hM (fun h => hac v (hE.mp h)) (fun t ht p hp _ => hE.mpr ?_)
    (fun t _ => hbi t) (fun p hp => hE.mpr (.single ((hZ p).mp hp))) (fun p hp => (hZ p).mpr hp) x
  exact .head hp (hE.mp ht)

theorem law_unaffected (hac : G.Acyclic) (hED : Disjoint E D) (hE : ParentClosed G ∅ E)
    (hZ : Z ⊆ E) : M.law D Z = M.law ∅ Z := by
  rw [law_eq_marg hac hED (fun t ht p hp _ => hE t ht p hp (notMem_empty p)) hZ,
    law_eq_marg hac (disjoint_empty_right E) hE hZ]

end Model

namespace TransportPair

/-- Two populations that do not differ. -/
def same (M : Model G Ω) (S : Finset V) : TransportPair G Ω S where
  target := M
  mech := M.mech
  mech_nonneg := M.mech_nonneg
  mech_sum := M.mech_sum
  mech_parents := M.mech_parents
  mech_latents := M.mech_latents
  mech_eq _ _ := rfl

theorem same_positive {M : Model G Ω} (hM : M.Positive) (S : Finset V) : (same M S).Positive :=
  ⟨hM, hM⟩

variable [∀ v, DecidableEq (Ω v)] {S D E Y Z : Finset V} {P : TransportPair G Ω S}

/-- **Given the roots whose mechanisms differ, the outcomes have one law in both populations**: the
other ancestors' mechanisms do not differ. -/
theorem kernel_eq_of_exogenous (hac : G.Acyclic) (hP : P.Positive) (hED : Disjoint E D)
    (hE : Model.ParentClosed G D E) (hYE : Y ⊆ E) (hYZ : Disjoint Y Z) (hZE : Z ⊆ E)
    (hES : ∀ v ∈ E, v ∈ S → v ∈ Z) (hroot : ∀ z ∈ Z, ∀ p, ¬ G.dir p z)
    (hbi : ∀ z ∈ Z, ∀ w, ¬ G.bi z w) (x : ∀ v, Ω v) :
    P.source.kernel Y D Z x = P.target.kernel Y D Z x := by
  have root : ∀ {t}, t ∈ E \ (E \ Z) → t ∈ Z := fun ht => by
    rw [sdiff_sdiff_right_self, inf_eq_inter] at ht
    exact (mem_inter.mp ht).2
  have hs : Model.Split G D E (E \ Z) (E \ Z) := by
    refine ⟨hED, hE, sdiff_subset, sdiff_subset, fun s _ t ht h => ?_, fun v hv hvL => ?_⟩
    · exact hbi t (root ht) s (G.bi_symm h)
    · refine (mem_sdiff.mp hvL).2 ?_
      rcases hv with hv | ⟨t, ht, hvt⟩
      · exact root hv
      · exact absurd hvt (hroot t (root ht) v)
  have hside : ∀ v ∈ Model.scope G (E \ Z), v ∈ E → v ∈ E \ Z ∨ v ∈ Z := fun v _ hvE => by
    by_cases hvZ : v ∈ Z
    · exact Or.inr hvZ
    · exact Or.inl (mem_sdiff.mpr ⟨hvE, hvZ⟩)
  have hY : Y ⊆ E \ Z := fun v hv => mem_sdiff.mpr ⟨hYE hv, disjoint_left.mp hYZ hv⟩
  have hS : Disjoint (E \ Z) S := disjoint_left.mpr fun v hv hvS =>
    (mem_sdiff.mp hv).2 (hES v (mem_sdiff.mp hv).1 hvS)
  rw [hs.kernel_eq hac hP.2 hZE disjoint_sdiff hside hY,
    hs.kernel_eq hac hP.1 hZE disjoint_sdiff hside hY, q_eq hS]

/-- **Standardisation.** A conditional response that the populations share, averaged over the
target's covariates, is the target's response: the actions do not reach the covariates. -/
theorem standardize (hac : G.Acyclic) (hP : P.Positive) (hZ : Disjoint Z (Y ∪ D))
    (hkernel : ∀ x, P.source.kernel Y D Z x = P.target.kernel Y D Z x)
    (hlaw : P.target.law D Z = P.target.law ∅ Z) :
    marg Z (fun x => P.source.kernel Y D Z x * P.target.kernel Z ∅ ∅ x) = P.target.law D Y := by
  rw [← Model.marg_law hZ]
  refine congrArg _ (funext fun x => ?_)
  rw [hkernel, Model.kernel_unconditioned hac, ← hlaw]
  exact div_mul_cancel₀ _ (Model.law_pos hP.1 x).ne'

end TransportPair

end Antecedent.Prob
