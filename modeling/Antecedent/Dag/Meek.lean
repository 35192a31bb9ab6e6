import Antecedent.Dag.Covered
import Antecedent.Dag.Reroot

/-!
# The edges every equivalent graph directs alike

`Meek G` closes the unshielded colliders of `G` under the first three orientation rules. Its premises
speak of the edges of `G` itself, so that it is a part of `G` from the start.

* **`compelled_iff`**: an edge is in the closure iff every Markov equivalent graph has it. An open
  edge is turned by rooting the open part of the graph at its head (`exists_reversed`).
-/

namespace Antecedent.Dag

open Relation

variable {V : Type*} {G H : Dag V} {a b c x y z : V}

/-- The unshielded colliders of `G` closed under the orientation rules R1, R2 and R3. -/
inductive Meek (G : Dag V) : V → V → Prop
  | collider {a c b : V} : G.Unshielded a c b → Meek G a c
  | r1 {a b c : V} : Meek G a b → G.edge b c → ¬ G.Adj a c → Meek G b c
  | r2 {a b c : V} : Meek G a b → Meek G b c → G.Adj a c → Meek G a c
  | r3 {a b c d : V} : G.edge a b → Meek G c b → Meek G d b → G.Adj a c → G.Adj a d → c ≠ d →
      ¬ G.Adj c d → ¬ G.Unshielded c a d → Meek G a b

/-- An edge the closure leaves open. -/
structure Open (G : Dag V) (a b : V) : Prop where
  adj : G.Adj a b
  forward : ¬ G.Meek a b
  backward : ¬ G.Meek b a

def Compelled (G : Dag V) (a b : V) : Prop := ∀ H : Dag V, G.MarkovEquivalent H → H.edge a b

/-! ## Soundness -/

/-- Of an unshielded triple whose first edge points to the middle, the second points on unless the
triple is a collider. -/
theorem edge_of_unshielded (hab : G.edge a b) (hbc : G.Adj b c) (hac : ¬ G.Adj a c) (hne : a ≠ c)
    (h : ¬ G.Unshielded a b c) : G.edge b c :=
  hbc.resolve_right fun hcb => h ⟨hab, hcb, hne, hac⟩

/-- The third rule: an edge between the nonadjacent `c`, `d` and a node they both point to. -/
theorem edge_of_fork (hab : G.Adj a b) (hcb : G.edge c b) (hdb : G.edge d b) (hac : G.Adj a c)
    (had : G.Adj a d) (hne : c ≠ d) (hcd : ¬ G.Adj c d) (h : ¬ G.Unshielded c a d) : G.edge a b := by
  refine hab.resolve_right fun hba => h ⟨?_, ?_, hne, hcd⟩
  · exact edge_of_path hcb hba hac.symm
  · exact edge_of_path hdb hba had.symm

theorem meek_edge (h : G.Meek a b) : G.edge a b := by
  induction h with
  | collider hu => exact hu.left
  | r1 _ hbc _ _ => exact hbc
  | r2 _ _ hac ih ih' => exact edge_of_path ih ih' hac
  | r3 hab _ _ _ _ _ _ _ _ _ => exact hab

/-- **Every graph with the skeleton and the unshielded colliders of `G` has the edges of the
closure.** -/
theorem meek_sound (h : G.Similar H) (hm : G.Meek a b) : H.edge a b := by
  induction hm with
  | collider hu => exact ((h.collider _ _ _).mp hu).left
  | @r1 a b c hab hbc hac ih =>
    have hne : a ≠ c := fun he => asymm (meek_edge hab) (he ▸ hbc)
    exact edge_of_unshielded ih ((h.adj b c).mp (Or.inl hbc)) (fun hc => hac ((h.adj a c).mpr hc)) hne
      fun hu => asymm hbc ((h.collider a b c).mpr hu).right
  | r2 _ _ hac ih ih' => exact edge_of_path ih ih' ((h.adj _ _).mp hac)
  | r3 hab _ _ hac had hne hcd hu ihc ihd =>
    exact edge_of_fork ((h.adj _ _).mp (Or.inl hab)) ihc ihd ((h.adj _ _).mp hac)
      ((h.adj _ _).mp had) hne (fun hc => hcd ((h.adj _ _).mpr hc))
      fun hc => hu ((h.collider _ _ _).mpr hc)

/-! ## The open part -/

theorem Open.symm (h : G.Open a b) : G.Open b a := ⟨h.adj.symm, h.backward, h.forward⟩

theorem meek_or_open (h : G.Adj a b) : G.Meek a b ∨ G.Meek b a ∨ G.Open a b := by
  by_cases hab : G.Meek a b
  · exact Or.inl hab
  by_cases hba : G.Meek b a
  · exact Or.inr (Or.inl hba)
  exact Or.inr (Or.inr ⟨h, hab, hba⟩)

theorem Open.adj_of_edge (h : G.Open y z) (hxy : G.Meek x y) : G.Adj x z := by
  refine by_contra fun hxz => ?_
  have hne : x ≠ z := fun he => h.backward (he ▸ hxy)
  rcases h.adj with hyz | hzy
  · exact h.forward (.r1 hxy hyz hxz)
  · exact h.backward (.collider ⟨hzy, meek_edge hxy, hne.symm, fun hc => hxz hc.symm⟩)

/-- The edge from there to the other end is closed forwards or open. -/
theorem Open.meek_or_open (h : G.Open y z) (hxy : G.Meek x y) : G.Meek x z ∨ G.Open x z := by
  rcases Dag.meek_or_open (h.adj_of_edge hxy) with hxz | hzx | hxz
  · exact Or.inl hxz
  · exact absurd (.r2 hzx hxy h.adj.symm) h.backward
  · exact Or.inr hxz

/-- **What the closure directs into a node it directs into the nodes left open there.** By induction
on the closure: in each case an open third side would be closed by the rule that follows. -/
theorem meek_absorbs (h : G.Meek x y) : ∀ {z}, G.Open y z → G.Meek x z := by
  induction h with
  | @collider x y w hu =>
    intro z hz
    refine (hz.meek_or_open (.collider hu)).resolve_right fun hxz => ?_
    rcases hz.meek_or_open (.collider hu.symm) with hwz | hwz
    · -- `w → z` and `z — x` with `w`, `x` nonadjacent
      exact hu.not_adj (hxz.symm.adj_of_edge hwz).symm
    · -- `z — x → y`, `z — w → y`
      have hnu : ¬ G.Unshielded x z w := fun hc => hxz.forward (.collider hc)
      have hzy : G.edge z y := edge_of_fork hz.adj.symm hu.left hu.right hxz.adj.symm hwz.adj.symm
        hu.ne hu.not_adj hnu
      exact hz.backward (.r3 hzy (.collider hu) (.collider hu.symm) hxz.adj.symm hwz.adj.symm hu.ne
        hu.not_adj hnu)
  | @r1 a x y hax hxy hay ih =>
    intro z hz
    refine (hz.meek_or_open (.r1 hax hxy hay)).resolve_right fun hxz => ?_
    exact hay (hz.symm.adj_of_edge (ih hxz))
  | @r2 x b y hxb hby _ _ ih =>
    intro z hz
    have hxy : G.Meek x y := .r2 hxb hby ‹_›
    exact .r2 hxb (ih hz) (hz.adj_of_edge hxy)
  | @r3 x y c d hxy hcy hdy hxc hxd hne hcd hnu ihc ihd =>
    intro z hz
    have hm : G.Meek x y := .r3 hxy hcy hdy hxc hxd hne hcd hnu
    have hxz : G.edge x z := edge_of_fork (hz.adj_of_edge hm) (meek_edge (ihc hz)) (meek_edge (ihd hz))
      hxc hxd hne hcd hnu
    exact .r3 hxz (ihc hz) (ihd hz) hxc hxd hne hcd hnu

/-- The edges left open, as `G` has them. -/
def openPart (G : Dag V) : Dag V where
  edge a b := G.edge a b ∧ G.Open a b
  finite := G.finite.subset fun _ h => h.1
  acyclic v hv := G.acyclic v (TransGen.mono (fun _ _ h => h.1) _ _ hv)

theorem openPart_adj : G.openPart.Adj a b ↔ G.Open a b := by
  constructor
  · rintro (h | h)
    · exact h.2
    · exact h.2.symm
  · intro h
    exact h.adj.imp (fun he => ⟨he, h⟩) fun he => ⟨he, h.symm⟩

theorem Open.triangle (h : G.Open a c) (h' : G.Open b c) (hab : G.Adj a b) : G.Open a b := by
  rcases Dag.meek_or_open hab with hm | hm | ho
  · exact absurd (meek_absorbs hm h') h.forward
  · exact absurd (meek_absorbs hm h) h'.forward
  · exact ho

theorem moral_openPart (G : Dag V) : G.openPart.Moral := by
  intro a b c hac hbc hne
  refine openPart_adj.mpr (hac.2.triangle hbc.2 (by_contra fun hn => ?_))
  exact hac.2.forward (.collider ⟨hac.1, hbc.1, hne, hn⟩)

/-! ## Turning an open edge -/

theorem meek_path_absorbs (h : TransGen G.Meek a b) (ho : G.Open b c) : TransGen G.Meek a c := by
  obtain ⟨p, hap, hpb⟩ := TransGen.tail'_iff.mp h
  exact TransGen.tail' hap (meek_absorbs hpb ho)

/-- The closure with the open edges directed as in `D`. -/
def complete (G D : Dag V) (hD : ∀ a b, D.Adj a b ↔ G.Open a b) : Dag V where
  edge a b := G.Meek a b ∨ D.edge a b
  finite := by
    refine (G.finite.union D.finite).subset ?_
    rintro ⟨a, b⟩ (h | h)
    · exact Or.inl (meek_edge h)
    · exact Or.inr h
  acyclic v hv := by
    -- an open step after a closed one is absorbed
    have key : ∀ {a b}, TransGen (fun a b => G.Meek a b ∨ D.edge a b) a b →
        TransGen D.edge a b ∨ ∃ c, ReflTransGen D.edge a c ∧ TransGen G.Meek c b := by
      intro a b h
      induction h with
      | single he => exact he.elim (fun h => Or.inr ⟨a, .refl, .single h⟩) fun h => Or.inl (.single h)
      | tail _ he ih =>
        rcases he with he | he
        · rcases ih with ih | ⟨c, hac, hcb⟩
          · exact Or.inr ⟨_, ih.to_reflTransGen, .single he⟩
          · exact Or.inr ⟨c, hac, hcb.tail he⟩
        · rcases ih with ih | ⟨c, hac, hcb⟩
          · exact Or.inl (ih.tail he)
          · exact Or.inr ⟨c, hac, meek_path_absorbs hcb ((hD _ _).mp (Or.inl he))⟩
    rcases key hv with h | ⟨c, hvc, hcv⟩
    · exact D.acyclic v h
    · have hcc : ∀ {d}, ReflTransGen D.edge v d → TransGen G.Meek c d := by
        intro d hd
        induction hd with
        | refl => exact hcv
        | tail _ he ih => exact meek_path_absorbs ih ((hD _ _).mp (Or.inl he))
      exact G.acyclic c (TransGen.mono (fun _ _ => meek_edge) _ _ (hcc hvc))

variable {D : Dag V} (hD : ∀ a b, D.Adj a b ↔ G.Open a b)

theorem similar_complete (hmoral : D.Moral) : G.Similar (G.complete D hD) := by
  have hadj : ∀ a b, G.Adj a b ↔ (G.complete D hD).Adj a b := by
    intro a b
    constructor
    · intro h
      rcases meek_or_open h with hm | hm | ho
      · exact Or.inl (Or.inl hm)
      · exact Or.inr (Or.inl hm)
      · exact ((hD a b).mpr ho).imp Or.inr Or.inr
    · rintro ((h | h) | (h | h))
      · exact Or.inl (meek_edge h)
      · exact ((hD a b).mp (Or.inl h)).adj
      · exact Or.inr (meek_edge h)
      · exact ((hD a b).mp (Or.inr h)).adj
  refine ⟨hadj, fun a c b => ⟨fun h => ?_, fun h => ?_⟩⟩
  · exact ⟨Or.inl (.collider h), Or.inl (.collider h.symm), h.ne, fun hc => h.not_adj ((hadj a b).mpr hc)⟩
  · have hn : ¬ G.Adj a b := fun hc => h.not_adj ((hadj a b).mp hc)
    rcases h.left with hac | hac <;> rcases h.right with hbc | hbc
    · exact ⟨meek_edge hac, meek_edge hbc, h.ne, hn⟩
    · exact absurd (((hD b c).mp (Or.inl hbc)).symm.adj_of_edge hac) hn
    · exact absurd (((hD a c).mp (Or.inl hac)).symm.adj_of_edge hbc).symm hn
    · exact absurd ((hD a b).mp (hmoral a b c hac hbc h.ne)).adj hn

/-- **Any clique of nodes open at `y` can be the open parents of `y` in an equivalent graph.** -/
theorem exists_parents {K : List V} (hK : K.Nodup) (hy : ∀ k ∈ K, G.Open y k)
    (hc : Clique G.Adj K) : ∃ H : Dag V, G.Similar H ∧ ∀ a, H.edge a y ↔ G.Meek a y ∨ a ∈ K := by
  obtain ⟨D, hadj, hmoral, hroot⟩ := exists_rooted (moral_openPart G) y hK
    (fun k hk => openPart_adj.mpr (hy k hk))
    (fun a ha b hb hne => openPart_adj.mpr ((hy a ha).symm.triangle (hy b hb).symm (hc a ha b hb hne)))
  have hD : ∀ a b, D.Adj a b ↔ G.Open a b := fun a b => (hadj a b).trans openPart_adj
  refine ⟨G.complete D hD, similar_complete hD hmoral, fun a => or_congr_right ⟨fun h => ?_, fun h => ?_⟩⟩
  · exact (hroot a (openPart_adj.mpr ((hD a y).mp (Or.inl h)).symm)).mp h
  · exact (hroot a (openPart_adj.mpr (hy a h))).mpr h

/-- **An open edge is turned in some equivalent graph.** -/
theorem exists_reversed (h : G.Open a b) : ∃ H : Dag V, G.MarkovEquivalent H ∧ H.edge b a := by
  obtain ⟨H, hH, hpar⟩ := exists_parents (K := [b]) (List.nodup_singleton b)
    (List.forall_mem_singleton.mpr h) fun c hc d hd hne =>
      absurd ((List.mem_singleton.mp hc).trans (List.mem_singleton.mp hd).symm) hne
  exact ⟨H, hH.markovEquivalent, (hpar b).mpr (Or.inr (List.mem_singleton_self b))⟩

/-- **An edge is in the closure iff every Markov equivalent graph has it.** -/
theorem compelled_iff : G.Compelled a b ↔ G.Meek a b := by
  constructor
  · intro h
    have hab : G.edge a b := h G fun _ _ _ _ _ _ => Iff.rfl
    rcases meek_or_open (Or.inl hab) with hm | hm | ho
    · exact hm
    · exact absurd hab fun hc => asymm hc (meek_edge hm)
    · obtain ⟨H, hH, hba⟩ := exists_reversed ho
      exact absurd (h H hH) fun hc => asymm hc hba
  · intro h H hH
    exact meek_sound (Similar.of_markovEquivalent hH) h

end Antecedent.Dag
