import Antecedent.Prob.DoCalculus

/-!
# Two populations that share a graph

A `TransportPair` is a target model and a source that differs from it in the mechanisms of some
nodes only, the selection targets. A selection diagram adds a parentless selection node before each
of them.

* **`kernel_eq_of_separated`**: outcomes separated from the selection nodes have one conditional law
  in both populations (S-admissibility).
-/

namespace Antecedent.Prob

open Finset
open Mixed

variable {V : Type*} [Fintype V] [DecidableEq V] {G : MixedGraph V} {Ω : V → Type}
  [∀ v, Fintype (Ω v)] [∀ v, DecidableEq (Ω v)]

/-- A target model and the mechanisms of a source that differs from it at the nodes of `S` only. -/
structure TransportPair (G : MixedGraph V) (Ω : V → Type) [∀ v, Fintype (Ω v)]
    (S : Finset V) where
  target : Model G Ω
  mech : ∀ v, (∀ w, Ω w) → (∀ e, target.Lat e) → Ω v → ℝ
  mech_nonneg : ∀ v x u a, 0 ≤ mech v x u a
  mech_sum : ∀ v x u, ∑ a, mech v x u a = 1
  mech_parents : ∀ v x x' u, (∀ w, G.dir w v → x w = x' w) → mech v x u = mech v x' u
  mech_latents : ∀ v x u u', (∀ w, G.bi v w → u s(v, w) = u' s(v, w)) → mech v x u = mech v x u'
  mech_eq : ∀ v ∉ S, mech v = target.mech v

namespace TransportPair

variable {S T D Y Z E : Finset V} (P : TransportPair G Ω S)

def source : Model G Ω where
  Lat := P.target.Lat
  weight := P.target.weight
  weight_nonneg := P.target.weight_nonneg
  weight_sum := P.target.weight_sum
  mech := P.mech
  mech_nonneg := P.mech_nonneg
  mech_sum := P.mech_sum
  mech_parents := P.mech_parents
  mech_latents := P.mech_latents

/-- Both populations have every full observation with positive probability. -/
def Positive : Prop := P.target.Positive ∧ P.source.Positive

variable {P}

omit [∀ v, DecidableEq (Ω v)] in
/-- **Both populations agree on the c-factor of nodes whose mechanisms do not differ.** -/
theorem q_eq (h : Disjoint T S) : P.source.q T = P.target.q T := by
  funext x
  show ∑ u, _ = ∑ u, _
  refine sum_congr rfl fun u _ => congrArg _ (prod_congr rfl fun v hv => ?_)
  show P.mech v x u (x v) = _
  rw [P.mech_eq v (disjoint_left.mp h hv)]

/-- **Both agree on the law of outcomes whose ancestors outside the actions do not differ.** -/
theorem law_eq (hac : G.Acyclic) (hED : Disjoint E D) (hE : Model.ParentClosed G D E)
    (hYE : Y ⊆ E) (hES : Disjoint E S) : P.source.law D Y = P.target.law D Y := by
  rw [Model.law_eq_marg hac hED hE hYE, Model.law_eq_marg hac hED hE hYE, q_eq hES]

end TransportPair

/-! ## Selection nodes -/

/-- `G` with a selection node before each node of `S`. -/
def withSelection (G : MixedGraph V) (S : Finset V) : MixedGraph (V ⊕ S) where
  dir
    | .inl u, .inl v => G.dir u v
    | .inr t, .inl v => t.1 = v
    | _, .inr _ => False
  bi
    | .inl u, .inl v => G.bi u v
    | _, _ => False
  bi_symm {a b} h := by
    cases a <;> cases b <;> first | exact G.bi_symm h | exact h

namespace TransportPair

variable {S D Y Z : Finset V} {P : TransportPair G Ω S}

/-- The nodes of the graph in a set of nodes of the selection diagram. -/
def original {S : Finset V} (T : Finset (V ⊕ S)) : Finset V := univ.filter fun v => .inl v ∈ T

@[simp] theorem mem_original {T : Finset (V ⊕ S)} {v : V} : v ∈ original T ↔ .inl v ∈ T := by
  simp [original]

/-- **S-admissibility.** Outcomes separated from the selection nodes of the mechanisms that `do(D)`
leaves in place have one conditional law in both populations: the left factor of the separation
reads no differing mechanism. -/
theorem kernel_eq_of_separated (hac : G.Acyclic) (hP : P.Positive) (hYD : Disjoint Y D)
    (hYZ : Disjoint Y Z) (hZD : Disjoint Z D)
    (hsep : ((withSelection G S).mutilate (D.disjSum ∅ : Finset (V ⊕ S)) ∅).MSeparated
      ((∅ : Finset V).disjSum (univ.filter fun t : S => t.1 ∉ D) : Finset (V ⊕ S))
      (Y.disjSum ∅ : Finset (V ⊕ S)) ((D ∪ Z).disjSum ∅ : Finset (V ⊕ S))) (x : ∀ v, Ω v) :
    P.source.kernel Y D Z x = P.target.kernel Y D Z x := by
  have hYC : Disjoint (Y.disjSum ∅ : Finset (V ⊕ S)) ((D ∪ Z).disjSum ∅) := by
    rw [disjoint_left]
    rintro (v | t) hv hc
    · rw [inl_mem_disjSum] at hv hc
      exact (mem_union.mp hc).elim (disjoint_left.mp hYD hv) (disjoint_left.mp hYZ hv)
    · exact notMem_empty t (inr_mem_disjSum.mp hv)
  obtain ⟨A', TL', L', hs, -⟩ := Model.exists_sides (O := D.disjSum ∅) (U := ∅)
    (X := (∅ : Finset V).disjSum (univ.filter fun t : S => t.1 ∉ D)) hYC (by rwa [coe_empty])
  have hno : ∀ w : V ⊕ S, w ∉ (∅ : Finset (V ⊕ S)) := notMem_empty
  have inO : ∀ {v : V}, .inl v ∈ (D.disjSum ∅ : Finset (V ⊕ S)) ↔ v ∈ D := inl_mem_disjSum
  have inC : ∀ {v : V}, .inl v ∈ ((D ∪ Z).disjSum ∅ : Finset (V ⊕ S)) ↔ v ∈ D ∨ v ∈ Z :=
    fun {v} => inl_mem_disjSum.trans mem_union
  set A : Finset V := original A'
  set TL : Finset V := original TL'
  set L : Finset V := original L'
  have hLD : ∀ v ∈ L, v ∉ D := fun v hv hD =>
    disjoint_left.mp hs.side_context (mem_original.mp hv) (inC.mpr (Or.inl hD))
  have hLZ : Disjoint L Z := disjoint_left.mpr fun v hv hZ =>
    disjoint_left.mp hs.side_context (mem_original.mp hv) (inC.mpr (Or.inr hZ))
  have right : ∀ {t}, t ∈ (A \ D) \ TL → (.inl t : V ⊕ S) ∈ ( A' \ D.disjSum ∅) \ TL' := by
    intro t ht
    simp only [mem_sdiff, A, TL, mem_original] at ht
    exact mem_sdiff.mpr ⟨mem_sdiff.mpr ⟨ht.1.1, fun h => ht.1.2 (inO.mp h)⟩, ht.2⟩
  have left : ∀ {t}, t ∈ TL → t ∈ A ∧ t ∉ D := fun ht => by
    obtain ⟨hA, hO⟩ := mem_sdiff.mp (hs.left_sub (mem_original.mp ht))
    exact ⟨mem_original.mpr hA, fun h => hO (inO.mpr h)⟩
  have hsp : Model.Split G D (A \ D) TL L := by
    refine ⟨sdiff_disjoint, fun t ht p hp hpD => ?_, fun t ht => ?_, fun t ht => ?_,
      fun s hsm t ht => ?_, fun v hv hvL => ?_⟩
    · obtain ⟨htA, htD⟩ := mem_sdiff.mp ht
      exact mem_sdiff.mpr ⟨mem_original.mpr (hs.ancestral _ (mem_original.mp htA) (.inl p) hp
        (fun h => htD (inO.mp h)) (hno _)), hpD⟩
    · exact mem_sdiff.mpr (left ht)
    · exact mem_sdiff.mpr ⟨mem_original.mpr (hs.side_sub (mem_original.mp ht)), hLD t ht⟩
    · exact hs.bi _ (mem_original.mp hsm) _ (right ht)
    · rcases hv with hv | ⟨t, ht, hvt⟩
      · exact hs.right_mem _ (right hv) (mem_original.mp hvL)
      · exact hs.right_parent _ (right ht) (.inl v) hvt (hno _) (mem_original.mp hvL)
  have hZA : Z ⊆ A \ D := fun v hv => mem_sdiff.mpr
    ⟨mem_original.mpr (hs.context (inC.mpr (Or.inr hv))), disjoint_left.mp hZD hv⟩
  have hscope : ∀ v ∈ Model.scope G TL, v ∈ A \ D → v ∈ L ∨ v ∈ Z := by
    intro v hv hE
    have hD := (mem_sdiff.mp hE).2
    have hw : (.inl v : V ⊕ S) ∈ L' ∨ (.inl v : V ⊕ S) ∈ ((D ∪ Z).disjSum ∅ : Finset (V ⊕ S)) := by
      rcases hv with hv | ⟨t, ht, hvt⟩
      · exact hs.left_mem _ (mem_original.mp hv)
      · exact hs.left_parent _ (mem_original.mp ht) (.inl v) hvt (hno _)
    exact hw.imp mem_original.mpr fun h => (inC.mp h).resolve_left hD
  -- a selection node is a source of the separation, so no left mechanism reads one
  have hTS : Disjoint TL S := disjoint_left.mpr fun t ht htS => by
    have hX : (.inr ⟨t, htS⟩ : V ⊕ S) ∈ (∅ : Finset V).disjSum
        (univ.filter fun t : S => t.1 ∉ D) :=
      inr_mem_disjSum.mpr (mem_filter.mpr ⟨mem_univ _, (left ht).2⟩)
    rcases hs.left_parent _ (mem_original.mp ht) (.inr ⟨t, htS⟩) rfl (hno _) with h | h
    · exact disjoint_left.mp hs.side_source h hX
    · exact notMem_empty _ (inr_mem_disjSum.mp h)
  have hYL : Y ⊆ L := fun v hv => mem_original.mpr (hs.targets (inl_mem_disjSum.mpr hv))
  rw [hsp.kernel_eq hac hP.2 hZA hLZ.symm hscope hYL, hsp.kernel_eq hac hP.1 hZA hLZ.symm hscope hYL,
    q_eq hTS]

end TransportPair

end Antecedent.Prob
