import Antecedent.Mixed.Mutilate
import Antecedent.Prob.SemiMarkov

/-!
# The do-calculus over finite discrete semi-Markovian models

Pearl's three rules, for every positive model of an acyclic mixed graph. The argument is one
factorisation. Separation around `C` cuts the ancestral set, `C` apart, into a left side `L` that
holds the outcomes and a right side; each district lies with its parents in one side and `C`
(`Sides`, `exists_sides`), so the c-factor of the ancestral set is a left factor times a right
factor. The conditional law of the outcomes is then a quotient of marginals of the left factor
(`kernel_split`), which neither the observed nor the intervened right-hand variables enter.

* `rule1`: inserting or deleting an observation.
-/

namespace Antecedent.Prob

open Finset
open Mixed

variable {V : Type*} [Fintype V] [DecidableEq V] {G : MixedGraph V} {Ω : V → Type}
  [∀ v, Fintype (Ω v)] [∀ v, DecidableEq (Ω v)] {M : Model G Ω}

namespace Model

/-! ## A c-factor that splits -/

/-- The endogenous set `E` under `do(D)` splits into `TL` and the rest: no bidirected edge joins
them, and the right part neither contains nor reads a node of `L`. -/
structure Split (G : MixedGraph V) (D E TL L : Finset V) : Prop where
  disjoint : Disjoint E D
  closed : ParentClosed G D E
  left_sub : TL ⊆ E
  side_sub : L ⊆ E
  bi : ∀ s ∈ TL, ∀ t ∈ E \ TL, ¬ G.bi s t
  right_scope : ∀ v ∈ scope G (E \ TL), v ∉ L

variable {D E TL L K Y : Finset V}

theorem Split.law_eq (hs : Split G D E TL L) (hac : G.Acyclic) (hK : K ⊆ E)
    (hKL : Disjoint K L) (hTL : ∀ v ∈ scope G TL, v ∈ E → v ∈ L ∨ v ∈ K) (hY : Y ⊆ L) :
    M.law D (Y ∪ K) =
      fun x => marg (L \ Y) (M.q TL) x * marg (E \ (L ∪ K)) (M.q (E \ TL)) x := by
  have hYK : Y ∪ K ⊆ E := union_subset (hY.trans hs.side_sub) hK
  have hq : M.q E = fun x => M.q TL x * M.q (E \ TL) x := by
    funext x
    rw [← q_mul disjoint_sdiff hs.bi, union_sdiff_of_subset hs.left_sub]
  have hdis : Disjoint (L \ Y) (E \ (L ∪ K)) := disjoint_left.mpr fun v hv hc =>
    (mem_sdiff.mp hc).2 (mem_union_left _ (mem_sdiff.mp hv).1)
  have hset : E \ (Y ∪ K) = (L \ Y) ∪ (E \ (L ∪ K)) := by
    ext v
    have h1 : v ∈ L → v ∈ E := fun h => hs.side_sub h
    have h2 : v ∈ K → v ∉ L := fun h => disjoint_left.mp hKL h
    have h3 : v ∈ Y → v ∈ L := fun h => hY h
    simp only [mem_sdiff, mem_union]
    tauto
  rw [law_eq_marg hac hs.disjoint hs.closed hYK, hset, hq]
  refine marg_mul_marg hdis q_dependsOn ?_ q_dependsOn ?_
  · refine Set.disjoint_left.mpr fun v hv hc => ?_
    obtain ⟨hE, hLK⟩ := mem_sdiff.mp (mem_coe.mp hc)
    exact hLK (mem_union.mpr (hTL v hv hE))
  · refine Set.disjoint_left.mpr fun v hv hc => ?_
    exact hs.right_scope v hv (mem_sdiff.mp (mem_coe.mp hc)).1

/-- **The conditional law of left-hand outcomes is a quotient of marginals of the left factor.** -/
theorem Split.kernel_eq (hs : Split G D E TL L) (hac : G.Acyclic) (hM : M.Positive) (hK : K ⊆ E)
    (hKL : Disjoint K L) (hTL : ∀ v ∈ scope G TL, v ∈ E → v ∈ L ∨ v ∈ K) (hY : Y ⊆ L)
    (x : ∀ v, Ω v) :
    M.kernel Y D K x = marg (L \ Y) (M.q TL) x / marg L (M.q TL) x := by
  have h0 := hs.law_eq (M := M) hac hK hKL hTL (empty_subset L)
  rw [empty_union, sdiff_empty] at h0
  unfold kernel
  rw [hs.law_eq hac hK hKL hTL hY, h0]
  exact mul_div_mul_right _ _ (marg_pos (q_pos hM _) x).ne'

/-! ## The sides of a separation -/

/-- What separation of `X` and `Y` around `C` in the graph without the edges into `O` and out of
`U` gives: a left part `TL` of the ancestral nodes outside `O`, and a left side `L`. -/
structure Sides (G : MixedGraph V) (O U C X Y A TL L : Finset V) : Prop where
  ancestral : ∀ v ∈ A, ∀ p, G.dir p v → v ∉ O → p ∉ U → p ∈ A
  sources : X ⊆ A
  targets : Y ⊆ L
  context : C ⊆ A
  side_sub : L ⊆ A
  side_context : Disjoint L C
  side_source : Disjoint L X
  left_sub : TL ⊆ A \ O
  left_mem : ∀ v ∈ TL, v ∈ L ∨ v ∈ C
  left_parent : ∀ v ∈ TL, ∀ p, G.dir p v → p ∉ U → p ∈ L ∨ p ∈ C
  right_mem : ∀ v ∈ (A \ O) \ TL, v ∉ L
  right_parent : ∀ v ∈ (A \ O) \ TL, ∀ p, G.dir p v → p ∉ U → p ∉ L
  bi : ∀ s ∈ TL, ∀ t ∈ (A \ O) \ TL, ¬ G.bi s t

omit [Fintype V] [DecidableEq V] in
/-- Nodes joined to one district lie, `C` apart, on one side. -/
theorem same_side {H : MixedGraph V} {A C : Set V} {X : Set V} {u u' c c' : V} (hc : c ∈ A)
    (hu : H.Into u c) (hcc : H.District A c c') (hu' : H.Into u' c') (huA : u ∈ A) (huA' : u' ∈ A)
    (huC : u ∉ C) (hn : ¬ ∃ x ∈ X, H.MoralReach A C x u) : ¬ ∃ x ∈ X, H.MoralReach A C x u' := by
  rintro ⟨x, hx, hr⟩
  by_cases he : u' = u
  · exact hn ⟨x, hx, he ▸ hr⟩
  · have hadj : H.MoralAdj A u u' := ⟨fun e => he e.symm, huA, huA', c, c', hc, hu, hcc, hu'⟩
    exact hn ⟨x, hx, hr.tail ⟨hadj.symm, huC⟩⟩

/-- **Separation cuts the ancestral set into two sides.** -/
theorem exists_sides {O U C X Y : Finset V} (hYC : Disjoint Y C)
    (hsep : (G.mutilate O U).MSeparated X Y C) :
    ∃ A TL L : Finset V, Sides G O U C X Y A TL L ∧
      ∀ v, v ∈ A ↔ v ∈ (G.mutilate O U).AncSet (X ∪ Y ∪ C : Set V) := by
  classical
  set H := G.mutilate (O : Set V) (U : Set V) with hH
  set B : Set V := H.AncSet (X ∪ Y ∪ C : Set V) with hB
  set R : V → Prop := fun v => ∃ x ∈ (X : Set V), H.MoralReach B C x v with hR
  set A : Finset V := univ.filter (· ∈ B) with hA
  set L : Finset V := univ.filter fun v => v ∈ B ∧ v ∉ C ∧ ¬ R v with hL
  set TL : Finset V := univ.filter fun v =>
    (v ∈ B ∧ v ∉ O) ∧ ∃ c p, H.District B v c ∧ H.Into p c ∧ p ∈ L with hTL
  have memA : ∀ v, v ∈ A ↔ v ∈ B := fun v => by simp [hA]
  have memL : ∀ v, v ∈ L ↔ v ∈ B ∧ v ∉ C ∧ ¬ R v := fun v => by simp [hL]
  have memTL : ∀ v, v ∈ TL ↔ (v ∈ B ∧ v ∉ O) ∧ ∃ c p, H.District B v c ∧ H.Into p c ∧ p ∈ L :=
    fun v => by simp [hTL]
  have memR : ∀ v, v ∈ (A \ O) \ TL ↔ (v ∈ B ∧ v ∉ O) ∧ v ∉ TL := fun v => by
    rw [mem_sdiff, mem_sdiff, memA]
  have base : ∀ v, v ∈ X ∨ v ∈ Y ∨ v ∈ C → v ∈ B := fun v hv =>
    MixedGraph.mem_ancSet_of_mem (by
      rcases hv with h | h | h
      · exact Or.inl (Or.inl h)
      · exact Or.inl (Or.inr h)
      · exact Or.inr h)
  -- a node of `B` joined to the district of a left node is in `L` or in `C`
  have side : ∀ v ∈ TL, ∀ u, u ∈ B → H.Into u v → u ∈ L ∨ u ∈ C := by
    intro v hv u hu huv
    obtain ⟨⟨hvB, -⟩, c, p, hvc, hpc, hpL⟩ := (memTL v).mp hv
    obtain ⟨hpB, hpC, hpR⟩ := (memL p).mp hpL
    by_cases huC : u ∈ C
    · exact Or.inr huC
    · refine Or.inl ((memL u).mpr ⟨hu, huC, ?_⟩)
      exact same_side (MixedGraph.District.mem hvc hvB) hpc (MixedGraph.District.symm hvc) huv
        hpB hu hpC hpR
  have dirH : ∀ {p v}, G.dir p v → v ∉ O → p ∉ U → H.dir p v := fun h ho hu => ⟨h, ho, hu⟩
  refine ⟨A, TL, L, ⟨?_, ?_, ?_, ?_, ?_, ?_, ?_, ?_, ?_, ?_, ?_, ?_, ?_⟩, memA⟩
  · intro v hv p hp hO hU
    exact (memA p).mpr (MixedGraph.ancSet_of_dir (dirH hp hO hU) ((memA v).mp hv))
  · exact fun v hv => (memA v).mpr (base v (Or.inl hv))
  · intro y hy
    refine (memL y).mpr ⟨base y (Or.inr (Or.inl hy)), disjoint_left.mp hYC hy, ?_⟩
    rintro ⟨x, hx, hr⟩
    exact hsep x hx y hy hr
  · exact fun v hv => (memA v).mpr (base v (Or.inr (Or.inr hv)))
  · exact fun v hv => (memA v).mpr ((memL v).mp hv).1
  · exact disjoint_left.mpr fun v hv => ((memL v).mp hv).2.1
  · exact disjoint_left.mpr fun v hv hx => ((memL v).mp hv).2.2 ⟨v, hx, .refl⟩
  · intro v hv
    obtain ⟨⟨hB', hO⟩, -⟩ := (memTL v).mp hv
    exact mem_sdiff.mpr ⟨(memA v).mpr hB', hO⟩
  · exact fun v hv => side v hv v ((memTL v).mp hv).1.1 (Or.inl rfl)
  · intro v hv p hp hU
    obtain ⟨⟨hvB, hO⟩, -⟩ := (memTL v).mp hv
    have hpv := dirH hp hO hU
    exact side v hv p (MixedGraph.ancSet_of_dir hpv hvB) (Or.inr hpv)
  · intro v hv hvL
    obtain ⟨hvB, hn⟩ := (memR v).mp hv
    exact hn ((memTL v).mpr ⟨hvB, v, v, .refl, Or.inl rfl, hvL⟩)
  · intro v hv p hp hU hpL
    obtain ⟨hvB, hn⟩ := (memR v).mp hv
    exact hn ((memTL v).mpr ⟨hvB, v, p, .refl, Or.inr (dirH hp hvB.2 hU), hpL⟩)
  · intro s hs t ht hst
    obtain ⟨⟨hsB, hsO⟩, c, p, hsc, hpc, hpL⟩ := (memTL s).mp hs
    obtain ⟨⟨htB, htO⟩, hn⟩ := (memR t).mp ht
    exact hn ((memTL t).mpr ⟨⟨htB, htO⟩, c, p,
      hsc.head ⟨htB, hsB, G.bi_symm hst, htO, hsO⟩, hpc, hpL⟩)

omit [Fintype V] in
/-- The split a separation gives, with some right-hand sources intervened on as well. -/
theorem Sides.split {O U C X Y A TL L D : Finset V} (hs : Sides G O U C X Y A TL L)
    (hUX : U ⊆ X) (hXC : Disjoint X C) (hO : O ⊆ D) (hD : D ⊆ O ∪ X) (hOL : Disjoint L O) :
    Split G D (A \ D) TL L where
  disjoint := sdiff_disjoint
  closed t ht p hp hpD := by
    obtain ⟨htA, htD⟩ := mem_sdiff.mp ht
    refine mem_sdiff.mpr ⟨?_, hpD⟩
    by_cases hU : p ∈ U
    · exact hs.sources (hUX hU)
    · exact hs.ancestral t htA p hp (fun h => htD (hO h)) hU
  left_sub v hv := by
    obtain ⟨hvA, hvO⟩ := mem_sdiff.mp (hs.left_sub hv)
    refine mem_sdiff.mpr ⟨hvA, fun h => ?_⟩
    have hvX : v ∈ X := (mem_union.mp (hD h)).resolve_left hvO
    rcases hs.left_mem v hv with hl | hc
    · exact disjoint_left.mp hs.side_source hl hvX
    · exact disjoint_left.mp hXC hvX hc
  side_sub v hv := by
    refine mem_sdiff.mpr ⟨hs.side_sub hv, fun h => ?_⟩
    rcases mem_union.mp (hD h) with ho | hx
    · exact disjoint_left.mp hOL hv ho
    · exact disjoint_left.mp hs.side_source hv hx
  bi s hsm t ht := by
    obtain ⟨htE, htL⟩ := mem_sdiff.mp ht
    obtain ⟨htA, htD⟩ := mem_sdiff.mp htE
    exact hs.bi s hsm t (mem_sdiff.mpr ⟨mem_sdiff.mpr ⟨htA, fun h => htD (hO h)⟩, htL⟩)
  right_scope v hv hvL := by
    have right : ∀ t ∈ (A \ D) \ TL, t ∈ (A \ O) \ TL := fun t ht => by
      obtain ⟨htE, htL⟩ := mem_sdiff.mp ht
      obtain ⟨htA, htD⟩ := mem_sdiff.mp htE
      exact mem_sdiff.mpr ⟨mem_sdiff.mpr ⟨htA, fun h => htD (hO h)⟩, htL⟩
    rcases hv with hv | ⟨t, ht, hvt⟩
    · exact hs.right_mem v (right v hv) hvL
    · by_cases hU : v ∈ U
      · exact disjoint_left.mp hs.side_source hvL (hUX hU)
      · exact hs.right_parent t (right t ht) v hvt hU hvL

omit [Fintype V] in
theorem Sides.left_scope {O U C X Y A TL L : Finset V} (hs : Sides G O U C X Y A TL L) {v : V}
    (hv : v ∈ scope G TL) : v ∈ L ∨ v ∈ C ∨ v ∈ U := by
  rcases hv with hv | ⟨t, ht, hvt⟩
  · exact (hs.left_mem v hv).imp_right Or.inl
  · by_cases hU : v ∈ U
    · exact Or.inr (Or.inr hU)
    · exact (hs.left_parent t ht v hvt hU).imp_right Or.inl

/-! ## The rules -/

variable {W Z : Finset V} {W₁ : Finset V}

section

variable (hac : G.Acyclic) (hM : M.Positive) (hYD : Disjoint Y D) (hYZ : Disjoint Y Z)
  (hZD : Disjoint Z D) (hW : Disjoint W (D ∪ Z))

include hac hM hYD hYZ hZD hW

/-- **Rule 1.** An observation separated from the outcomes may be inserted or deleted. -/
theorem rule1 (hsep : (G.mutilate D ∅).MSeparated W Y (D ∪ Z)) (x : ∀ v, Ω v) :
    M.kernel Y D (Z ∪ W) x = M.kernel Y D Z x := by
  obtain ⟨A, TL, L, hs, -⟩ := exists_sides (O := D) (U := ∅) (C := D ∪ Z) (X := W) (Y := Y)
    (disjoint_union_right.mpr ⟨hYD, hYZ⟩) (by simpa using hsep)
  obtain ⟨hLD, hLZ⟩ := disjoint_union_right.mp hs.side_context
  obtain ⟨hWD, hWZ⟩ := disjoint_union_right.mp hW
  have hsp := hs.split (empty_subset _) hW (D := D) subset_rfl subset_union_left hLD
  have hZA : Z ⊆ A \ D := fun v hv =>
    mem_sdiff.mpr ⟨hs.context (mem_union_right _ hv), disjoint_left.mp hZD hv⟩
  have hWA : W ⊆ A \ D := fun v hv => mem_sdiff.mpr ⟨hs.sources hv, disjoint_left.mp hWD hv⟩
  have hscope : ∀ v ∈ scope G TL, v ∈ A \ D → v ∈ L ∨ v ∈ Z := fun v hv hE => by
    rcases hs.left_scope hv with h | h | h
    · exact Or.inl h
    · exact Or.inr ((mem_union.mp h).resolve_left (mem_sdiff.mp hE).2)
    · exact absurd h (notMem_empty v)
  rw [hsp.kernel_eq hac hM hZA hLZ.symm hscope hs.targets,
    hsp.kernel_eq hac hM (union_subset hZA hWA)
      (disjoint_union_left.mpr ⟨hLZ.symm, hs.side_source.symm⟩)
      (fun v hv hE => (hscope v hv hE).imp_right (mem_union_left _)) hs.targets]

/-- **Rule 2.** An observation whose back-door paths to the outcomes are closed may be exchanged
for an action. -/
theorem rule2 (hsep : (G.mutilate D W).MSeparated W Y (D ∪ Z)) (x : ∀ v, Ω v) :
    M.kernel Y D (Z ∪ W) x = M.kernel Y (D ∪ W) Z x := by
  obtain ⟨A, TL, L, hs, -⟩ := exists_sides (O := D) (U := W) (C := D ∪ Z) (X := W) (Y := Y)
    (disjoint_union_right.mpr ⟨hYD, hYZ⟩) (by simpa using hsep)
  obtain ⟨hLD, hLZ⟩ := disjoint_union_right.mp hs.side_context
  obtain ⟨hWD, hWZ⟩ := disjoint_union_right.mp hW
  have hsp := hs.split subset_rfl hW (D := D) subset_rfl subset_union_left hLD
  have hsp' := hs.split subset_rfl hW (D := D ∪ W) subset_union_left subset_rfl hLD
  have hZA : Z ⊆ A \ D := fun v hv =>
    mem_sdiff.mpr ⟨hs.context (mem_union_right _ hv), disjoint_left.mp hZD hv⟩
  have hWA : W ⊆ A \ D := fun v hv => mem_sdiff.mpr ⟨hs.sources hv, disjoint_left.mp hWD hv⟩
  have hZA' : Z ⊆ A \ (D ∪ W) := fun v hv => by
    refine mem_sdiff.mpr ⟨hs.context (mem_union_right _ hv), fun h => ?_⟩
    rcases mem_union.mp h with h | h
    · exact disjoint_left.mp hZD hv h
    · exact disjoint_left.mp hWZ h hv
  have hscope : ∀ v ∈ scope G TL, v ∉ D → v ∈ L ∨ v ∈ Z ∨ v ∈ W := fun v hv hD => by
    rcases hs.left_scope hv with h | h | h
    · exact Or.inl h
    · exact Or.inr (Or.inl ((mem_union.mp h).resolve_left hD))
    · exact Or.inr (Or.inr h)
  rw [hsp.kernel_eq hac hM (union_subset hZA hWA)
      (disjoint_union_left.mpr ⟨hLZ.symm, hs.side_source.symm⟩)
      (fun v hv hE => (hscope v hv (mem_sdiff.mp hE).2).imp_right mem_union.mpr) hs.targets,
    hsp'.kernel_eq hac hM hZA' hLZ.symm (fun v hv hE => ?_) hs.targets]
  have hn := (mem_sdiff.mp hE).2
  rcases hscope v hv fun h => hn (mem_union_left _ h) with h | h | h
  · exact Or.inl h
  · exact Or.inr h
  · exact absurd (mem_union_right _ h) hn

end

omit [Fintype V] in
theorem not_anc_of_separated (hac : G.Acyclic) {P : Set V}
    (hP : P = (G.mutilate D ∅).AncSet Z) (hW₁ : ∀ w ∈ W₁, w ∈ W ∧ w ∉ P)
    (hsep : (G.mutilate (D ∪ W₁ : Set V) ∅).MSeparated W Y (D ∪ Z)) {w y : V} (hw : w ∈ W₁)
    (hy : y ∈ Y) : ¬ (G.mutilate D ∅).Anc w y := by
  intro hwy
  set H := G.mutilate (D ∪ W₁ : Set V) ∅ with hH
  set B := H.AncSet (W ∪ Y ∪ (D ∪ Z) : Set V) with hB
  have hyB : y ∈ B := MixedGraph.mem_ancSet_of_mem (Or.inl (Or.inr hy))
  -- along the directed path: an action of `W₁` reaches `y`, or the node is in the past, or it
  -- reaches `y` itself
  have key : ∀ a, (G.mutilate D ∅).Anc a y →
      (∃ w ∈ W₁, H.MoralReach B (D ∪ Z : Set V) w y) ∨ a ∈ P ∨
        (a ∈ B ∧ H.MoralReach B (D ∪ Z : Set V) a y) := by
    intro a ha
    induction ha using Relation.ReflTransGen.head_induction_on with
    | refl => exact Or.inr (Or.inr ⟨hyB, .refl⟩)
    | @head a c hac' _ ih =>
      rcases ih with h | h | ⟨hcB, hr⟩
      · exact Or.inl h
      · refine Or.inr (Or.inl ?_)
        rw [hP] at h ⊢
        exact MixedGraph.ancSet_of_dir hac' h
      · by_cases hcW : c ∈ W₁
        · exact Or.inl ⟨c, hcW, hr⟩
        · by_cases hcZ : c ∈ Z
          · refine Or.inr (Or.inl ?_)
            rw [hP]
            exact MixedGraph.ancSet_of_dir hac' (MixedGraph.mem_ancSet_of_mem hcZ)
          · have hdir : H.dir a c := ⟨hac'.1, fun h => h.elim hac'.2.1 hcW, hac'.2.2⟩
            have haB : a ∈ B := MixedGraph.ancSet_of_dir hdir hcB
            have hne : a ≠ c := fun e => hac c (Relation.TransGen.single (e ▸ hac'.1))
            refine Or.inr (Or.inr ⟨haB, hr.head ⟨⟨hne, haB, hcB, c, c, hcB, Or.inr hdir, .refl,
              Or.inl rfl⟩, ?_⟩⟩)
            exact fun h => h.elim hac'.2.1 hcZ
  rcases key w hwy with ⟨w', hw', hr⟩ | h | ⟨-, hr⟩
  · exact hsep w' (hW₁ w' hw').1 y hy hr
  · exact (hW₁ w hw).2 h
  · exact hsep w (hW₁ w hw).1 y hy hr

/-- Actions that are no ancestors of what is asked change nothing. -/
theorem kernel_do_nonancestor (hac : G.Acyclic) (hYD : Disjoint Y D)
    (hZD : Disjoint Z D)
    (hW₁ : ∀ w ∈ W₁, w ∉ (G.mutilate D ∅).AncSet (Y ∪ Z : Set V)) (x : ∀ v, Ω v) :
    M.kernel Y (D ∪ W₁) Z x = M.kernel Y D Z x := by
  classical
  set B := (G.mutilate D ∅).AncSet (Y ∪ Z : Set V) with hB
  set E : Finset V := univ.filter fun v => v ∈ B ∧ v ∉ D with hE
  have memE : ∀ v, v ∈ E ↔ v ∈ B ∧ v ∉ D := fun v => by simp [hE]
  have hED : Disjoint E D := disjoint_left.mpr fun v hv => ((memE v).mp hv).2
  have hED' : Disjoint E (D ∪ W₁) := disjoint_union_right.mpr ⟨hED,
    disjoint_left.mpr fun v hv hw => hW₁ v hw ((memE v).mp hv).1⟩
  have hcl : ParentClosed G D E := fun t ht p hp hpD => by
    obtain ⟨htB, htD⟩ := (memE t).mp ht
    exact (memE p).mpr ⟨MixedGraph.ancSet_of_dir ⟨hp, htD, Set.notMem_empty _⟩ htB, hpD⟩
  have hcl' : ParentClosed G (D ∪ W₁) E := fun t ht p hp hpD =>
    hcl t ht p hp fun h => hpD (mem_union_left _ h)
  have hYE : Y ⊆ E := fun v hv => (memE v).mpr
    ⟨MixedGraph.mem_ancSet_of_mem (Or.inl hv), disjoint_left.mp hYD hv⟩
  have hZE : Z ⊆ E := fun v hv => (memE v).mpr
    ⟨MixedGraph.mem_ancSet_of_mem (Or.inr hv), disjoint_left.mp hZD hv⟩
  unfold kernel
  rw [law_eq_marg hac hED' hcl' (union_subset hYE hZE), law_eq_marg hac hED' hcl' hZE,
    law_eq_marg hac hED hcl (union_subset hYE hZE), law_eq_marg hac hED hcl hZE]

/-- **Rule 3.** An action separated from the outcomes may be inserted or deleted; the actions that
are ancestors of the observed set keep their incoming edges in the test. -/
theorem rule3 (hac : G.Acyclic) (hM : M.Positive) (hYD : Disjoint Y D) (hYZ : Disjoint Y Z)
    (hZD : Disjoint Z D) (hW : Disjoint W (D ∪ Z))
    (hsep : (G.mutilate (D ∪ (W \ (G.mutilate D ∅).AncSet Z) : Set V) ∅).MSeparated W Y (D ∪ Z))
    (x : ∀ v, Ω v) : M.kernel Y (D ∪ W) Z x = M.kernel Y D Z x := by
  classical
  set P : Set V := (G.mutilate D ∅).AncSet Z with hP
  set W₁ : Finset V := W.filter (· ∉ P) with hW₁
  have memW : ∀ w, w ∈ W₁ ↔ w ∈ W ∧ w ∉ P := fun w => mem_filter
  have hcoe : ((W : Set V) \ P) = (W₁ : Set V) := by
    ext w
    rw [mem_coe, memW]
    rfl
  rw [hcoe] at hsep
  have hanc : ∀ w ∈ W₁, w ∉ (G.mutilate D ∅).AncSet (Y ∪ Z : Set V) := by
    rintro w hw ⟨v, hv | hv, hwv⟩
    · exact not_anc_of_separated hac hP (fun w hw => (memW w).mp hw) hsep hw hv hwv
    · exact ((memW w).mp hw).2 ⟨v, hv, hwv⟩
  rw [← kernel_do_nonancestor hac hYD hZD hanc]
  obtain ⟨A, TL, L, hs, -⟩ := exists_sides (O := D ∪ W₁) (U := ∅) (C := D ∪ Z) (X := W) (Y := Y)
    (disjoint_union_right.mpr ⟨hYD, hYZ⟩) (by simpa using hsep)
  obtain ⟨hLD, hLZ⟩ := disjoint_union_right.mp hs.side_context
  obtain ⟨hWD, hWZ⟩ := disjoint_union_right.mp hW
  have hW₁W : W₁ ⊆ W := filter_subset _ _
  have hLO : Disjoint L (D ∪ W₁) :=
    disjoint_union_right.mpr ⟨hLD, hs.side_source.mono_right hW₁W⟩
  have hZX : ∀ v ∈ Z, v ∉ D ∪ W := fun v hv h => by
    rcases mem_union.mp h with h | h
    · exact disjoint_left.mp hZD hv h
    · exact disjoint_left.mp hWZ h hv
  have hsp := hs.split (empty_subset _) hW (D := D ∪ W₁) subset_rfl subset_union_left hLO
  have hsp' := hs.split (empty_subset _) hW (D := D ∪ W) (union_subset_union_right hW₁W)
    (by rw [union_assoc, union_eq_right.mpr hW₁W]) hLO
  have hZA : Z ⊆ A \ (D ∪ W₁) := fun v hv => mem_sdiff.mpr
    ⟨hs.context (mem_union_right _ hv), fun h => hZX v hv (union_subset_union_right hW₁W h)⟩
  have hZA' : Z ⊆ A \ (D ∪ W) := fun v hv => mem_sdiff.mpr
    ⟨hs.context (mem_union_right _ hv), hZX v hv⟩
  have hscope : ∀ v ∈ scope G TL, v ∉ D → v ∈ L ∨ v ∈ Z := fun v hv hD => by
    rcases hs.left_scope hv with h | h | h
    · exact Or.inl h
    · exact Or.inr ((mem_union.mp h).resolve_left hD)
    · exact absurd h (notMem_empty v)
  rw [hsp.kernel_eq hac hM hZA hLZ.symm
      (fun v hv hE => hscope v hv fun h => (mem_sdiff.mp hE).2 (mem_union_left _ h)) hs.targets,
    hsp'.kernel_eq hac hM hZA' hLZ.symm
      (fun v hv hE => hscope v hv fun h => (mem_sdiff.mp hE).2 (mem_union_left _ h)) hs.targets]

end Model

end Antecedent.Prob
