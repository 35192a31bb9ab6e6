import Antecedent.Prob.DoCalculus

/-!
# The front door

`FrontDoor` is the criterion for a set of mediators: it intercepts every directed path from the
treatment to the outcome, no back-door path leads from the treatment to it, and the treatment closes
every back-door path from it to the outcome. Each separation is asked node by node.

* **`FrontDoor.kernel_eq`**: the front-door formula, for every positive model.
-/

namespace Antecedent.Mixed.MixedGraph

open Relation

variable {V : Type*} {G H : MixedGraph V}

/-- **A graph with fewer edges separates more.** -/
theorem MSeparated.mono_graph (hd : ∀ a b, H.dir a b → G.dir a b) (hb : ∀ a b, H.bi a b → G.bi a b)
    {X Y C : Set V} (h : G.MSeparated X Y C) : H.MSeparated X Y C := by
  have hanc : H.AncSet (X ∪ Y ∪ C) ⊆ G.AncSet (X ∪ Y ∪ C) := fun v ⟨z, hz, hvz⟩ =>
    ⟨z, hz, ReflTransGen.mono (fun a b => hd a b) _ _ hvz⟩
  have hinto : ∀ {a c : V}, H.Into a c → G.Into a c := fun hac => hac.imp id (hd _ _)
  intro x hx y hy hr
  refine h x hx y hy (ReflTransGen.mono (fun a b hab => ⟨?_, hab.2⟩) _ _ hr)
  obtain ⟨c, d, hc, hac, hcd, hbd⟩ := hab.1.joined
  refine ⟨hab.1.ne, hanc hab.1.left_mem, hanc hab.1.right_mem, c, d, hanc hc, hinto hac, ?_,
    hinto hbd⟩
  exact ReflTransGen.mono (fun u v huv => ⟨hanc huv.1, hanc huv.2.1, hb u v huv.2.2⟩) _ _
    hcd

/-- A node is not separated, around nothing, from a node it is an ancestor of. -/
theorem MSeparated.not_anc (hac : G.Acyclic) {x y : V} (h : G.MSeparated {x} {y} ∅) :
    ¬ G.Anc y x := by
  intro hyx
  have hx : x ∈ G.AncSet ({x} ∪ {y} ∪ ∅) := mem_ancSet_of_mem (Or.inl (Or.inl rfl))
  -- along the path, every node is an ancestor of `x`, and reached from it
  have key : ∀ a, G.Anc a x → a ∈ G.AncSet ({x} ∪ {y} ∪ ∅) ∧
      G.MoralReach (G.AncSet ({x} ∪ {y} ∪ ∅)) ∅ x a := by
    intro a ha
    induction ha using ReflTransGen.head_induction_on with
    | refl => exact ⟨hx, .refl⟩
    | @head a c hdir _ ih =>
      have haA : a ∈ G.AncSet ({x} ∪ {y} ∪ ∅) := ancSet_of_dir hdir ih.1
      have hne : c ≠ a := fun e => hac a (TransGen.single (e ▸ hdir))
      exact ⟨haA, ih.2.tail ⟨⟨hne, ih.1, haA, c, c, ih.1, Or.inl rfl, .refl, Or.inr hdir⟩,
        Set.notMem_empty a⟩⟩
  exact h x rfl y rfl (key y hyx).2

/-- The front-door criterion for the mediators `Ms` between `t` and `y`. -/
structure FrontDoor (G : MixedGraph V) (t y : V) (Ms : Set V) : Prop where
  treatment_apart : t ∉ Ms
  outcome_apart : y ∉ Ms
  intercepts : ¬ ReflTransGen (fun a b => G.dir a b ∧ a ∉ Ms ∧ b ∉ Ms) t y
  treatment_closed : ∀ m ∈ Ms, (G.mutilate ∅ {t}).MSeparated {t} {m} ∅
  outcome_closed : ∀ m ∈ Ms, (G.mutilate ∅ Ms).MSeparated {m} {y} {t}

namespace FrontDoor

variable {t y : V} {Ms : Set V}

theorem ne (h : G.FrontDoor t y Ms) : t ≠ y := fun e => h.intercepts (e ▸ .refl)

/-- The treatment is no ancestor of the outcome once the mediators are set. -/
theorem not_anc_outcome (h : G.FrontDoor t y Ms) : ¬ (G.mutilate Ms ∅).Anc t y := by
  intro hty
  -- from the treatment on, no node is a mediator
  have key : ∀ b, (G.mutilate Ms ∅).Anc t b →
      ReflTransGen (fun a b => G.dir a b ∧ a ∉ Ms ∧ b ∉ Ms) t b ∧ b ∉ Ms := by
    intro b hb
    induction hb with
    | refl => exact ⟨.refl, h.treatment_apart⟩
    | tail _ hbc ih => exact ⟨ih.1.tail ⟨hbc.1, ih.2, hbc.2.1⟩, hbc.2.1⟩
  exact h.intercepts (key y hty).1

theorem not_anc_treatment (h : G.FrontDoor t y Ms) (hac : G.Acyclic) {m : V} (hm : m ∈ Ms) :
    ¬ G.Anc m t := by
  intro hmt
  refine (h.treatment_closed m hm).not_anc hac.mutilate ?_
  -- a path to the treatment does not go through it
  have key : ∀ a, G.Anc a t → (G.mutilate ∅ {t}).Anc a t := by
    intro a ha
    induction ha using ReflTransGen.head_induction_on with
    | refl => exact .refl
    | @head a c hdir hct ih =>
      by_cases hat : a = t
      · exact hat ▸ .refl
      · exact ih.head ⟨hdir, Set.notMem_empty c, hat⟩
  exact key m hmt

/-- **The criterion survives passing to the nodes a graph is on.** -/
theorem comap {W : Type*} {f : W → V} (hf : Function.Injective f) {t y : W} {Ms : Set W}
    (h : G.FrontDoor (f t) (f y) (f '' Ms)) : (G.comap f).FrontDoor t y Ms := by
  have hnot : ∀ {a : W}, a ∉ Ms → f a ∉ f '' Ms := fun ha ⟨b, hb, e⟩ => ha (hf e ▸ hb)
  refine ⟨fun hm => h.treatment_apart ⟨t, hm, rfl⟩, fun hm => h.outcome_apart ⟨y, hm, rfl⟩,
    fun hp => h.intercepts (ReflTransGen.lift f (fun a b hab => ?_) _ _ hp),
    fun m hm => ?_, fun m hm => ?_⟩
  · exact ⟨hab.1, hnot hab.2.1, hnot hab.2.2⟩
  · have hsep : ((G.mutilate ∅ {f t}).comap f).MSeparated {t} {m} ∅ := by
      refine MSeparated.comap hf ?_
      rw [Set.image_singleton, Set.image_singleton, Set.image_empty]
      exact h.treatment_closed (f m) ⟨m, hm, rfl⟩
    refine hsep.mono_graph (fun a b hab => ?_) (fun a b hab => ?_)
    · exact ⟨hab.1, Set.notMem_empty _, fun e => hab.2.2 (hf e)⟩
    · exact ⟨hab.1, Set.notMem_empty _, Set.notMem_empty _⟩
  · have hsep : ((G.mutilate ∅ (f '' Ms)).comap f).MSeparated {m} {y} {t} := by
      refine MSeparated.comap hf ?_
      rw [Set.image_singleton, Set.image_singleton, Set.image_singleton]
      exact h.outcome_closed (f m) ⟨m, hm, rfl⟩
    refine hsep.mono_graph (fun a b hab => ?_) (fun a b hab => ?_)
    · exact ⟨hab.1, Set.notMem_empty _, hnot hab.2.2⟩
    · exact ⟨hab.1, Set.notMem_empty _, Set.notMem_empty _⟩

end FrontDoor

end Antecedent.Mixed.MixedGraph

namespace Antecedent.Prob.Model

open Finset
open Mixed

variable {V : Type*} [Fintype V] [DecidableEq V] {G : MixedGraph V} {Ω : V → Type}
  [∀ v, Fintype (Ω v)] [∀ v, DecidableEq (Ω v)] {M : Model G Ω} {t y : V} {Ms : Finset V}

theorem frontDoor_mediators (hac : G.Acyclic) (hM : M.Positive) (h : G.FrontDoor t y Ms)
    (x : ∀ v, Ω v) : M.kernel Ms {t} ∅ x = M.kernel Ms ∅ {t} x := by
  have htM : t ∉ Ms := fun hm => h.treatment_apart (mem_coe.mpr hm)
  have hsep : (G.mutilate (∅ : Finset V) ({t} : Finset V)).MSeparated ({t} : Finset V) Ms
      ((∅ : Finset V) ∪ (∅ : Finset V) : Set V) := by
    simp only [coe_empty, coe_singleton, Set.union_empty]
    rw [MixedGraph.mSeparated_iff_pairs (fun _ _ => Set.notMem_empty _)
      (fun _ _ => Set.notMem_empty _)]
    rintro _ rfl m hm
    exact h.treatment_closed m hm
  have h2 := rule2 (M := M) (Y := Ms) (D := ∅) (Z := ∅) (W := {t}) hac hM (disjoint_empty_right _)
    (disjoint_empty_right _) (disjoint_empty_right _) (by simp) hsep x
  simpa using h2.symm

omit [Fintype V] [DecidableEq V] in
theorem frontDoor_separated (h : G.FrontDoor t y Ms) :
    (G.mutilate ∅ Ms).MSeparated (Ms : Set V) {y} {t} := by
  have hMs : ∀ m ∈ (Ms : Set V), m ∉ ({t} : Set V) := fun m hm hmt =>
    h.treatment_apart (Set.mem_singleton_iff.mp hmt ▸ hm)
  rw [MixedGraph.mSeparated_iff_pairs hMs (by rintro _ rfl hyt; exact h.ne hyt.symm)]
  rintro m hm _ rfl
  exact h.outcome_closed m hm

variable (hac : G.Acyclic) (hM : M.Positive) (h : G.FrontDoor t y Ms)

include hac hM h

/-- Under `do(t)`, observed mediators act on the outcome as set ones, and the treatment drops. -/
theorem frontDoor_set (x : ∀ v, Ω v) : M.kernel {y} {t} Ms x = M.kernel {y} Ms ∅ x := by
  have htM : t ∉ Ms := fun hm => h.treatment_apart (mem_coe.mpr hm)
  have hyM : y ∉ Ms := fun hm => h.outcome_apart (mem_coe.mpr hm)
  have hsep : (G.mutilate ({t} : Finset V) Ms).MSeparated Ms ({y} : Finset V)
      (({t} : Finset V) ∪ (∅ : Finset V) : Set V) := by
    simp only [coe_empty, coe_singleton, Set.union_empty]
    refine MixedGraph.MSeparated.mono_graph (fun a b hab => ?_) (fun a b hab => ?_)
      (frontDoor_separated h)
    · exact ⟨hab.1, Set.notMem_empty b, hab.2.2⟩
    · exact ⟨hab.1, Set.notMem_empty a, Set.notMem_empty b⟩
  have h2 := rule2 (M := M) (Y := {y}) (D := {t}) (Z := ∅) (W := Ms) hac hM
    (by simpa using h.ne.symm) (disjoint_empty_right _) (disjoint_empty_left _)
    (by simpa using htM) hsep x
  have h3 : M.kernel {y} (Ms ∪ {t}) ∅ x = M.kernel {y} Ms ∅ x := by
    refine kernel_do_nonancestor hac (by simpa using hyM) (disjoint_empty_left _)
      (fun w hw hanc => ?_) x
    obtain rfl := mem_singleton.mp hw
    obtain ⟨v, hv, hwv⟩ := hanc
    obtain rfl : v = y := by simpa using hv
    exact h.not_anc_outcome hwv
  rw [empty_union] at h2
  rw [h2, union_comm, h3]

/-- Setting the mediators, the treatment keeps its law and closes their back doors. -/
theorem frontDoor_adjust :
    M.kernel {y} Ms ∅ = marg {t} fun x => M.kernel {y} ∅ (Ms ∪ {t}) x * M.kernel {t} ∅ ∅ x := by
  have htM : t ∉ Ms := fun hm => h.treatment_apart (mem_coe.mpr hm)
  have hsplit : M.kernel {y} Ms ∅ = marg {t} (M.kernel ({y} ∪ {t}) Ms ∅) := by
    refine (kernel_marginalize ?_).symm
    simp only [union_empty, disjoint_singleton_left, mem_union, mem_singleton]
    exact fun hor => hor.elim h.ne htM
  rw [hsplit]
  congr 1
  funext x
  have hprod := kernel_product (D := Ms) (Z := ∅) hM (A := {y}) (B := {t}) x
  rw [empty_union] at hprod
  rw [← hprod]
  congr 1
  · have hsep : (G.mutilate (∅ : Finset V) Ms).MSeparated Ms ({y} : Finset V)
        ((∅ : Finset V) ∪ ({t} : Finset V) : Set V) := by
      simp only [coe_empty, coe_singleton, Set.empty_union]
      exact frontDoor_separated h
    have h2 := rule2 (M := M) (Y := {y}) (D := ∅) (Z := {t}) (W := Ms) hac hM
      (disjoint_empty_right _) (by simpa using h.ne.symm) (disjoint_empty_right _)
      (by simpa using htM) hsep x
    rw [empty_union] at h2
    rw [← h2, union_comm]
  · have h3 : M.kernel {t} (∅ ∪ Ms) ∅ x = M.kernel {t} ∅ ∅ x := by
      refine kernel_do_nonancestor hac (disjoint_empty_right _) (disjoint_empty_right _)
        (fun m hm hanc => ?_) x
      obtain ⟨v, hv, hmv⟩ := hanc
      obtain rfl : v = t := by simpa using hv
      exact h.not_anc_treatment hac (mem_coe.mpr hm) hmv.of_mutilate
    rwa [empty_union] at h3

/-- **The front-door formula.** -/
theorem frontDoor_kernel : M.kernel {y} {t} ∅ = marg Ms fun x => M.kernel Ms ∅ {t} x *
      marg {t} (fun x => M.kernel {y} ∅ (Ms ∪ {t}) x * M.kernel {t} ∅ ∅ x) x := by
  have htM : t ∉ Ms := fun hm => h.treatment_apart (mem_coe.mpr hm)
  have hyM : y ∉ Ms := fun hm => h.outcome_apart (mem_coe.mpr hm)
  have hsplit : M.kernel {y} {t} ∅ = marg Ms (M.kernel ({y} ∪ Ms) {t} ∅) := by
    refine (kernel_marginalize ?_).symm
    simp only [union_empty, disjoint_union_right, disjoint_singleton_right]
    exact ⟨hyM, htM⟩
  rw [hsplit]
  congr 1
  funext x
  have hprod := kernel_product (D := {t}) (Z := ∅) hM (A := {y}) (B := Ms) x
  rw [empty_union] at hprod
  rw [← hprod, frontDoor_set hac hM h, frontDoor_mediators hac hM h, frontDoor_adjust hac hM h,
    mul_comm]

end Antecedent.Prob.Model
