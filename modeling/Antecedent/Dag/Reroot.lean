import Antecedent.Dag.Basic

/-!
# Graphs without unshielded colliders, rooted anywhere

A DAG without unshielded colliders lists its nodes so that each one's neighbours further down the
list are adjacent to each other (`Perfect`); the list read backwards is such an orientation again.

* **`exists_rooted`**: hence any clique of neighbours of a node can be made its parents in a DAG with
  the same skeleton and no unshielded collider; the empty clique makes the node a root.
-/

namespace Antecedent.Dag

open Relation

variable {V : Type*} {U : V → V → Prop} {L M A P Q K : List V} {v w : V} {a : V}

/-! ## Perfect lists -/

/-- The neighbours of each element further down the list are pairwise adjacent. -/
def Perfect (U : V → V → Prop) : List V → Prop
  | [] => True
  | v :: l => (∀ a ∈ l, ∀ b ∈ l, U v a → U v b → a ≠ b → U a b) ∧ Perfect U l

/-- Pairwise adjacent. -/
def Clique (U : V → V → Prop) (K : List V) : Prop := ∀ a ∈ K, ∀ b ∈ K, a ≠ b → U a b

theorem Clique.subset (h : Clique U K) (hs : L ⊆ K) : Clique U L := fun a ha b hb =>
  h a (hs ha) b (hs hb)

theorem Clique.perfect : ∀ {K : List V}, Clique U K → Perfect U K
  | [], _ => trivial
  | v :: K, h => ⟨fun a ha b hb _ _ hne => h a (.tail v ha) b (.tail v hb) hne,
      (h.subset (List.subset_cons_self v K)).perfect⟩

theorem perfect_insert (hclique : Clique U (P ++ w :: Q)) : ∀ {A : List V},
    Perfect U (A ++ (P ++ Q)) → (∀ a ∈ A, ¬ U a w) → Perfect U (A ++ (P ++ w :: Q))
  | [], _, _ => hclique.perfect
  | a :: A, h, hw => by
    refine ⟨fun b hb c hc hab hac hne => ?_,
      perfect_insert hclique h.2 fun b hb => hw b (.tail a hb)⟩
    have hmem : ∀ {b}, b ∈ A ++ (P ++ w :: Q) → U a b → b ∈ A ++ (P ++ Q) := by
      intro b hb hab
      have hbw : b ≠ w := fun he => hw a List.mem_cons_self (he ▸ hab)
      simp only [List.mem_append, List.mem_cons] at hb ⊢
      tauto
    exact h.1 b (hmem hb hab) c (hmem hc hac) hab hac hne

/-- **A clique can be moved to the end of a perfect list.** -/
theorem exists_perfect (hsymm : ∀ a b, U a b → U b a) : ∀ {L : List V}, L.Nodup → Perfect U L →
    ∀ {K : List V}, K.Nodup → K ⊆ L → Clique U K → ∃ M, (M ++ K).Perm L ∧ Perfect U (M ++ K)
  | [], _, _, K, _, hs, _ => by
    obtain rfl := List.subset_nil.mp hs
    exact ⟨[], List.Perm.refl _, trivial⟩
  | w :: L, hnd, hp, K, hK, hs, hc => by
    classical
    obtain ⟨hwL, hL⟩ := List.nodup_cons.mp hnd
    by_cases hw : w ∈ K
    · obtain ⟨K₁, K₂, rfl⟩ := List.append_of_mem hw
      let N := L.filter fun v => U w v ∧ v ∉ K₁ ++ w :: K₂
      have hmemN : ∀ {v}, v ∈ N ↔ v ∈ L ∧ U w v ∧ v ∉ K₁ ++ w :: K₂ := by
        intro v
        simp [N]
      have hnd' := List.nodup_middle.mp hK
      obtain ⟨hwK, hK'⟩ := List.nodup_cons.mp hnd'
      have hrest : ∀ {v}, v ∈ K₁ ++ K₂ → v ∈ L ∧ U w v := by
        intro v hv
        have hmem : v ∈ K₁ ++ w :: K₂ := by
          simp only [List.mem_append, List.mem_cons] at hv ⊢
          tauto
        have hne : v ≠ w := fun he => hwK (he ▸ hv)
        exact ⟨(List.mem_cons.mp (hs hmem)).resolve_left hne, hc w hw v hmem hne.symm⟩
      have hall : ∀ {v}, v ∈ N ++ (K₁ ++ K₂) → v ∈ L ∧ U w v := fun hv =>
        (List.mem_append.mp hv).elim (fun h => ⟨(hmemN.mp h).1, (hmemN.mp h).2.1⟩) hrest
      obtain ⟨M, hperm, hperf⟩ := exists_perfect hsymm hL hp.2 (K := N ++ (K₁ ++ K₂)) (by
          refine (hL.filter _).append hK' fun v hv hv' => (hmemN.mp hv).2.2 ?_
          simp only [List.mem_append, List.mem_cons] at hv' ⊢
          tauto)
        (fun v hv => (hall hv).1)
        (fun a ha b hb hne => hp.1 a (hall ha).1 b (hall hb).1 (hall ha).2 (hall hb).2 hne)
      refine ⟨M ++ N, ?_, ?_⟩
      · have h1 : (M ++ N ++ (K₁ ++ w :: K₂)).Perm (w :: (M ++ N ++ (K₁ ++ K₂))) := by
          rw [← List.append_assoc, ← List.append_assoc]
          exact List.perm_middle
        refine h1.trans (List.Perm.cons w ?_)
        rwa [List.append_assoc]
      · have hclique : Clique U ((N ++ K₁) ++ w :: K₂) := by
          intro a ha b hb hne
          have key : ∀ {v}, v ∈ (N ++ K₁) ++ w :: K₂ → v = w ∨ v ∈ N ++ (K₁ ++ K₂) := by
            intro v hv
            simp only [List.mem_append, List.mem_cons] at hv ⊢
            tauto
          rcases key ha with rfl | ha
          · exact (hall ((key hb).resolve_left hne.symm)).2
          · rcases key hb with rfl | hb
            · exact hsymm _ _ (hall ha).2
            · exact hp.1 a (hall ha).1 b (hall hb).1 (hall ha).2 (hall hb).2 hne
        have := perfect_insert hclique (A := M) (by simpa [List.append_assoc] using hperf) (by
          intro a ha haw
          have haL : a ∈ L := hperm.subset (List.mem_append_left _ ha)
          have hanot : a ∉ N ++ (K₁ ++ K₂) := fun h =>
            (List.nodup_append.mp (hperm.nodup_iff.mpr hL)).2.2 a ha a h rfl
          refine hanot (List.mem_append.mpr ?_)
          by_cases hk : a ∈ K₁ ++ w :: K₂
          · refine Or.inr ?_
            have hne : a ≠ w := fun he => hwL (he ▸ haL)
            simp only [List.mem_append, List.mem_cons] at hk ⊢
            tauto
          · exact Or.inl (hmemN.mpr ⟨haL, hsymm _ _ haw, hk⟩))
        simpa [List.append_assoc] using this
    · have hsL : K ⊆ L := fun v hv => (List.mem_cons.mp (hs hv)).resolve_left fun he => hw (he ▸ hv)
      obtain ⟨M, hperm, hperf⟩ := exists_perfect hsymm hL hp.2 hK hsL hc
      refine ⟨w :: M, hperm.cons w, fun a ha b hb => ?_, hperf⟩
      exact hp.1 a (hperm.subset ha) b (hperm.subset hb)

/-! ## The order of a list -/

/-- How many elements of the list are not before `a`. -/
noncomputable def height : List V → V → Nat
  | [], _ => 0
  | v :: l, a => open Classical in if a = v then l.length + 1 else height l a

theorem height_head (v : V) (l : List V) : height (v :: l) v = l.length + 1 := if_pos rfl

theorem height_tail (h : a ≠ v) (l : List V) : height (v :: l) a = height l a := if_neg h

theorem height_le (a : V) : ∀ l : List V, height l a ≤ l.length
  | [] => Nat.le_refl _
  | v :: l => by
    by_cases h : a = v
    · rw [h, height_head]
      exact Nat.le_refl _
    · rw [height_tail h]
      exact (height_le a l).trans (Nat.le_succ _)

theorem height_inj {a b : V} : ∀ {l : List V}, a ∈ l → b ∈ l → height l a = height l b → a = b
  | v :: l, ha, hb, h => by
    have hva := height_le a l
    have hvb := height_le b l
    by_cases hav : a = v <;> by_cases hbv : b = v
    · rw [hav, hbv]
    · rw [hav, height_head, height_tail hbv] at h
      omega
    · rw [hbv, height_head, height_tail hav] at h
      omega
    · rw [height_tail hav, height_tail hbv] at h
      exact height_inj ((List.mem_cons.mp ha).resolve_left hav)
        ((List.mem_cons.mp hb).resolve_left hbv) h

theorem Perfect.adj {a b c : V} : ∀ {l : List V}, Perfect U l → a ∈ l → b ∈ l → c ∈ l → U c a →
    U c b → height l a < height l c → height l b < height l c → a ≠ b → U a b
  | v :: l, h, ha, hb, hc, hca, hcb, hlta, hltb, hne => by
    have hva := height_le a l
    have hvb := height_le b l
    have hvc := height_le c l
    have hav : a ≠ v := by
      rintro rfl
      rw [height_head] at hlta
      have := height_le c (a :: l)
      rw [List.length_cons] at this
      omega
    have hbv : b ≠ v := by
      rintro rfl
      rw [height_head] at hltb
      have := height_le c (b :: l)
      rw [List.length_cons] at this
      omega
    have ha' := (List.mem_cons.mp ha).resolve_left hav
    have hb' := (List.mem_cons.mp hb).resolve_left hbv
    by_cases hcv : c = v
    · exact h.1 a ha' b hb' (hcv ▸ hca) (hcv ▸ hcb) hne
    · rw [height_tail hav, height_tail hcv] at hlta
      rw [height_tail hbv, height_tail hcv] at hltb
      exact h.2.adj ha' hb' ((List.mem_cons.mp hc).resolve_left hcv) hca hcb hlta hltb hne

/-- An element is above what follows it. -/
theorem height_lt : ∀ {M : List V}, (M ++ v :: K).Nodup → a ∈ K →
    height (M ++ v :: K) a < height (M ++ v :: K) v
  | [], hnd, ha => by
    have hav : a ≠ v := fun he => (List.nodup_cons.mp hnd).1 (he ▸ ha)
    rw [List.nil_append, height_head, height_tail hav]
    exact Nat.lt_succ_of_le (height_le a K)
  | u :: M, hnd, ha => by
    obtain ⟨hu, hM⟩ := List.nodup_cons.mp hnd
    have hin : ∀ {w}, w ∈ v :: K → w ≠ u := fun hw he =>
      hu (he ▸ List.mem_append_right M hw)
    rw [List.cons_append, height_tail (hin (.head _)), height_tail (hin (.tail _ ha))]
    exact height_lt hM ha

/-- An element is below what stands before it. -/
theorem lt_height : ∀ {M : List V}, (M ++ v :: K).Nodup → a ∈ M →
    height (M ++ v :: K) v < height (M ++ v :: K) a
  | u :: M, hnd, ha => by
    obtain ⟨hu, hM⟩ := List.nodup_cons.mp hnd
    have hvu : v ≠ u := fun he => hu (by rw [he]; exact List.mem_append_right _ (.head _))
    by_cases hau : a = u
    · subst hau
      have hle := height_le v (M ++ v :: K)
      rw [List.cons_append, height_head, height_tail hvu]
      omega
    · rw [List.cons_append, height_tail hvu, height_tail hau]
      exact lt_height hM ((List.mem_cons.mp ha).resolve_left hau)

/-! ## Rooting a graph -/

/-- Any two parents of a node are adjacent. -/
def Moral (D : Dag V) : Prop := ∀ a b c, D.edge a c → D.edge b c → a ≠ b → D.Adj a b

variable {D : Dag V}

theorem exists_perfect_list (hD : D.Moral) (S : Finset V) :
    ∃ L : List V, L.Nodup ∧ (∀ v, v ∈ L ↔ v ∈ S) ∧ Perfect D.Adj L := by
  classical
  induction hn : S.card generalizing S with
  | zero =>
    obtain rfl := Finset.card_eq_zero.mp hn
    exact ⟨[], List.nodup_nil, by simp, trivial⟩
  | succ n ih =>
    obtain ⟨u, hu⟩ := Finset.card_pos.mp (by omega : 0 < S.card)
    obtain ⟨v, hv, hlast⟩ := D.wellFounded_down.has_min {v | v ∈ S} ⟨u, hu⟩
    obtain ⟨L, hnd, hmem, hp⟩ := ih (S.erase v) (by rw [Finset.card_erase_of_mem hv, hn]; rfl)
    refine ⟨v :: L, List.nodup_cons.mpr ⟨fun h => ?_, hnd⟩, fun a => ?_, fun a ha b hb hva hvb hne => ?_, hp⟩
    · exact Finset.notMem_erase v S ((hmem v).mp h)
    · rw [List.mem_cons, hmem, Finset.mem_erase]
      have hvS : v ∈ S := hv
      by_cases hav : a = v
      · simp [hav, hvS]
      · simp [hav]
    · have hin : ∀ {a}, a ∈ L → D.Adj v a → D.edge a v := fun {a} ha h => h.resolve_left fun he =>
        hlast a (Finset.mem_of_mem_erase ((hmem a).mp ha)) (.single he)
      exact hD a b v (hin ha hva) (hin hb hvb) hne

/-- The orientation of the edges from the end of a list to its start. -/
def ofList (D : Dag V) (L : List V) : Dag V where
  edge a b := D.Adj a b ∧ height L a < height L b
  finite := by
    refine (D.finite.union (D.finite.image Prod.swap)).subset ?_
    rintro ⟨a, b⟩ ⟨h | h, -⟩
    · exact Or.inl h
    · exact Or.inr ⟨(b, a), h, rfl⟩
  acyclic v hv := by
    have key : ∀ {a b}, TransGen (fun a b => D.Adj a b ∧ height L a < height L b) a b →
        height L a < height L b := by
      intro a b h
      induction h with
      | single h => exact h.2
      | tail _ h ih => exact ih.trans h.2
    exact absurd (key hv) (Nat.lt_irrefl _)

/-- **Any clique of neighbours of a node of a graph without unshielded colliders can be made its
parents.** -/
theorem exists_rooted (hD : D.Moral) (v : V) (hK : K.Nodup) (hv : ∀ k ∈ K, D.Adj v k)
    (hc : Clique D.Adj K) : ∃ D' : Dag V, (∀ a b, D'.Adj a b ↔ D.Adj a b) ∧ D'.Moral ∧
      ∀ a, D.Adj v a → (D'.edge a v ↔ a ∈ K) := by
  classical
  obtain ⟨L, hnd, hmem, hp⟩ := exists_perfect_list hD (insert v D.finite_adj.toFinset)
  have hadjL : ∀ {a b}, D.Adj a b → a ∈ L := by
    intro a b h
    refine (hmem a).mpr (Finset.mem_insert_of_mem ?_)
    exact (Set.Finite.mem_toFinset _).mpr ⟨b, h⟩
  have hvK : v ∉ K := fun h => (hv v h).ne rfl
  obtain ⟨M, hperm, hperf⟩ := exists_perfect (fun a b => Adj.symm) hnd hp
    (List.nodup_cons.mpr ⟨hvK, hK⟩)
    (List.cons_subset.mpr ⟨(hmem v).mpr (Finset.mem_insert_self ..), fun k hk =>
      hadjL (hv k hk).symm⟩) (by
      intro a ha b hb hne
      rcases List.mem_cons.mp ha with rfl | haK <;> rcases List.mem_cons.mp hb with rfl | hbK
      · exact absurd rfl hne
      · exact hv b hbK
      · exact (hv a haK).symm
      · exact hc a haK b hbK hne)
  have hnd' : (M ++ v :: K).Nodup := hperm.nodup_iff.mpr hnd
  have hin : ∀ {a b}, D.Adj a b → a ∈ M ++ v :: K := fun h => hperm.mem_iff.mpr (hadjL h)
  have hadj : ∀ a b, (D.ofList (M ++ v :: K)).Adj a b ↔ D.Adj a b := by
    intro a b
    refine ⟨fun h => h.elim And.left fun h => h.1.symm, fun h => ?_⟩
    rcases Nat.lt_trichotomy (height (M ++ v :: K) a) (height (M ++ v :: K) b) with hlt | heq | hlt
    · exact Or.inl ⟨h, hlt⟩
    · exact absurd (height_inj (hin h) (hin h.symm) heq) h.ne
    · exact Or.inr ⟨h.symm, hlt⟩
  refine ⟨D.ofList (M ++ v :: K), hadj, fun a b c hac hbc hne => (hadj a b).mpr ?_,
    fun a ha => ⟨fun h => ?_, fun h => ⟨ha.symm, height_lt hnd' h⟩⟩⟩
  · exact hperf.adj (hin hac.1) (hin hbc.1) (hin hac.1.symm) hac.1.symm hbc.1.symm hac.2 hbc.2 hne
  · rcases List.mem_append.mp (hin ha.symm) with hM | hK'
    · exact absurd h.2 (Nat.lt_asymm (lt_height hnd' hM))
    · exact (List.mem_cons.mp hK').resolve_left ha.symm.ne

end Antecedent.Dag
