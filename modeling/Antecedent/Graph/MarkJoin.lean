import Antecedent.Graph.Pag
import Mathlib.Order.ConditionallyCompleteLattice.Basic

/-!
# Joining copies of marked edges

`refine` (`unfold_pag.rs:72-82`) joins two endpoint marks in the order in which the circle is below
every mark and the others are unrelated. `Pag.mergeCopy` is the body of the loop of
`TemporalPag::unfold` (`unfold_pag.rs:51-66`): a copy of an edge meets the edge already there. It is
a partial join, and it refuses at once a joined edge that closes a directed cycle.

A family `PairCopies` says which marks were laid on which pair. `Mergeable` is what a family must
satisfy to be merged, `Merged` that a graph carries its joins.

* **`Merges.foldl`**: merging copies one by one gives the joins of all of them, or they are not
  mergeable. Neither side mentions the order.
-/

namespace Antecedent.Graph

open Relation

/-! ## The order of marks -/

/-- The circle is below every mark. -/
instance : PartialOrder Endpoint where
  le a b := a = .circle ∨ a = b
  le_refl _ := Or.inr rfl
  le_trans := by
    rintro a b c (rfl | rfl) hbc
    · exact Or.inl rfl
    · exact hbc
  le_antisymm := by
    rintro a b (rfl | rfl) (rfl | h)
    · rfl
    · exact h.symm
    · rfl
    · rfl

/-- Marks below one mark are comparable. -/
theorem Endpoint.le_total_of_le {a b c : Endpoint} (ha : a ≤ c) (hb : b ≤ c) : a ≤ b ∨ b ≤ a := by
  rcases ha with rfl | rfl
  · exact Or.inl (Or.inl rfl)
  · exact Or.inr hb

variable {S : Set Endpoint}

theorem Endpoint.exists_isLUB {c : Endpoint} (hc : c ∈ upperBounds S) :
    ∃ e, IsLUB S e := by
  by_cases h : ∃ e ∈ S, e ≠ .circle
  · obtain ⟨e, he, hne⟩ := h
    refine ⟨e, fun a ha => ?_, fun b hb => hb he⟩
    rcases Endpoint.le_total_of_le (hc ha) (hc he) with hle | hle
    · exact hle
    · rcases hle with rfl | rfl
      · exact absurd rfl hne
      · exact le_refl _
  · push Not at h
    refine ⟨.circle, fun a ha => Or.inl (h a ha), fun b _ => Or.inl rfl⟩

/-- Lines 72-82. -/
def refine (a b : Endpoint) : Except GraphError Endpoint :=
  if a = b ∨ b = .circle then .ok a
  else if a = .circle then .ok b
  else .error (.invalidEndpoints "incompatible stationary temporal PAG edge copies")

/-- **`refine` is the join of a mark with those already joined.** -/
theorem refine_ok {a b c : Endpoint} (ha : IsLUB S a) (h : refine a b = .ok c) :
    IsLUB (insert b S) c := by
  unfold refine at h
  split_ifs at h with h1 h2
  · obtain rfl := Except.ok.inj h
    refine ⟨?_, fun d hd => ha.2 fun e he => hd (Set.mem_insert_of_mem b he)⟩
    rintro e (rfl | he)
    · rcases h1 with rfl | rfl
      · exact le_refl _
      · exact Or.inl rfl
    · exact ha.1 he
  · obtain rfl := Except.ok.inj h
    refine ⟨?_, fun d hd => hd (Set.mem_insert b S)⟩
    rintro e (rfl | he)
    · exact le_refl _
    · refine (ha.1 he).trans ?_
      rw [h2]
      exact Or.inl rfl

/-- **`refine` fails where there is no join.** -/
theorem refine_error {a b : Endpoint} {e : GraphError} (ha : IsLUB S a)
    (h : refine a b = .error e) (c : Endpoint) : ¬ IsLUB (insert b S) c := by
  intro hc
  have hac : a ≤ c := ha.2 fun d hd => hc.1 (Set.mem_insert_of_mem b hd)
  have hbc : b ≤ c := hc.1 (Set.mem_insert b S)
  unfold refine at h
  split_ifs at h with h1 h2
  rcases Endpoint.le_total_of_le hac hbc with (h3 | h3) | h3 | h3
  · exact h2 h3
  · exact h1 (Or.inl h3)
  · exact h1 (Or.inr h3)
  · exact h1 (Or.inl h3.symm)

/-! ## Families of copies -/

abbrev PairCopies := Nat → Nat → Marks → Prop

namespace PairCopies

/-- Every copy is laid from both ends. -/
def Mirrored (P : PairCopies) : Prop := ∀ i j v, P i j v → P j i v.flip

/-- The marks at `i` of the copies between `i` and `j`. -/
def endsAt (P : PairCopies) (i j : Nat) : Set Endpoint := {e | ∃ v, P i j v ∧ v.1 = e}

/-- The copies between `i` and `j` join to `i → j`. -/
def JoinedDir (P : PairCopies) (i j : Nat) : Prop :=
  (∃ v, P i j v) ∧ IsLUB (P.endsAt i j) .tail ∧ IsLUB (P.endsAt j i) .arrow

/-- What a family must satisfy to be merged. -/
structure Mergeable (P : PairCopies) : Prop where
  loopless : ∀ i v, ¬ P i i v
  joins : ∀ i j v, P i j v → ∃ e, IsLUB (P.endsAt i j) e
  middles : ∀ i j v w, P i j v → P i j w → v.2.2 = w.2.2
  acyclic : ∀ i, ¬ TransGen P.JoinedDir i i

/-- The marks `L` are the joins of the family. -/
structure Merged (P : PairCopies) (L : Look) : Prop where
  none_iff : ∀ i j, L i j = none ↔ ∀ v, ¬ P i j v
  joins : ∀ i j w, L i j = some w → IsLUB (P.endsAt i j) w.1
  middles : ∀ i j v w, L i j = some w → P i j v → v.2.2 = w.2.2

/-- One more copy, between `a` and `b`. -/
def single (a b : Nat) (c : Marks) : PairCopies := fun i j v =>
  (i = a ∧ j = b ∧ v = c) ∨ (i = b ∧ j = a ∧ v = c.flip)

variable {P Q : PairCopies} {L : Look} {i j : Nat}

theorem single_mirrored (a b : Nat) (c : Marks) : (single a b c).Mirrored := by
  rintro i j v (⟨rfl, rfl, rfl⟩ | ⟨rfl, rfl, rfl⟩)
  · exact Or.inr ⟨rfl, rfl, rfl⟩
  · exact Or.inl ⟨rfl, rfl, rfl⟩

theorem Mirrored.sup (hP : P.Mirrored) (hQ : Q.Mirrored) : (P ⊔ Q).Mirrored :=
  fun i j v h => h.imp (hP i j v) (hQ i j v)

theorem endsAt_mono (h : P ≤ Q) (i j : Nat) : P.endsAt i j ⊆ Q.endsAt i j :=
  fun _ ⟨v, hv, he⟩ => ⟨v, h i j v hv, he⟩

/-- **A smaller family is mergeable**: its joins are there, and what is definite in it stays so. -/
theorem Mergeable.mono (hP : P.Mirrored) (h : P ≤ Q) (hQ : Q.Mergeable) : P.Mergeable where
  loopless i v hv := hQ.loopless i v (h i i v hv)
  joins i j v hv := by
    obtain ⟨e, he⟩ := hQ.joins i j v (h i j v hv)
    exact Endpoint.exists_isLUB fun a ha => he.1 (endsAt_mono h i j ha)
  middles i j v w hv hw := hQ.middles i j v w (h i j v hv) (h i j w hw)
  acyclic i hi := by
    have hkeep : ∀ a b v, P a b v → ∀ e, e ≠ .circle → IsLUB (P.endsAt a b) e →
        IsLUB (Q.endsAt a b) e := by
      intro a b v hv e hne he
      obtain ⟨f, hf⟩ := hQ.joins a b v (h a b v hv)
      have hle : e ≤ f := he.2 fun d hd => hf.1 (endsAt_mono h a b hd)
      rcases hle with hc | rfl
      · exact absurd hc hne
      · exact hf
    refine hQ.acyclic i (TransGen.mono ?_ i i hi)
    rintro a b ⟨⟨v, hv⟩, htail, harrow⟩
    exact ⟨⟨v, h a b v hv⟩, hkeep a b v hv _ (by simp) htail,
      hkeep b a _ (hP a b v hv) _ (by simp) harrow⟩

/-- The definite edges of merged marks are those of the family. -/
theorem Merged.dir_iff (hL : L.Mirrored) (h : P.Merged L) :
    L.Dir i j ↔ P.JoinedDir i j := by
  have hex : ∀ {w}, L i j = some w → ∃ v, P i j v := by
    intro w hw
    by_contra hno
    push Not at hno
    rw [(h.none_iff i j).mpr hno] at hw
    exact absurd hw (by simp)
  constructor
  · rintro ⟨m, hm⟩
    exact ⟨hex hm, h.joins i j _ hm, h.joins j i _ (hL i j _ hm)⟩
  · rintro ⟨⟨v, hv⟩, htail, harrow⟩
    cases hw : L i j with
    | none => exact absurd hv ((h.none_iff i j).mp hw v)
    | some w =>
      obtain ⟨s, t, m⟩ := w
      obtain rfl := (h.joins i j _ hw).unique htail
      obtain rfl : t = .arrow := (h.joins j i _ (hL i j _ hw)).unique harrow
      exact ⟨m, hw⟩

theorem Merged.mergeable (hL : L.Mirrored) (hself : ∀ i, L i i = none)
    (hac : ∀ i, ¬ TransGen L.Dir i i) (h : P.Merged L) : P.Mergeable where
  loopless i v := (h.none_iff i i).mp (hself i) v
  joins i j v hv := by
    cases hw : L i j with
    | none => exact absurd hv ((h.none_iff i j).mp hw v)
    | some w => exact ⟨w.1, h.joins i j w hw⟩
  middles i j v w hv hw := by
    cases hl : L i j with
    | none => exact absurd hv ((h.none_iff i j).mp hl v)
    | some u => exact (h.middles i j v u hl hv).trans (h.middles i j w u hl hw).symm
  acyclic i hi := by
    rw [show P.JoinedDir = L.Dir from by
      funext a b
      exact propext (h.dir_iff hL).symm] at hi
    exact hac i hi

/-- **Merged marks are determined by the family.** -/
theorem Merged.unique {L' : Look} (hL : L.Mirrored) (hL' : L'.Mirrored) (h : P.Merged L)
    (h' : P.Merged L') : L = L' := by
  funext i j
  cases hw : L i j with
  | none => exact ((h'.none_iff i j).mpr ((h.none_iff i j).mp hw)).symm
  | some w =>
    cases hw' : L' i j with
    | none =>
      rw [(h.none_iff i j).mpr ((h'.none_iff i j).mp hw')] at hw
      exact absurd hw (by simp)
    | some w' =>
      have hex : ∃ v, P i j v := by
        by_contra hno
        push Not at hno
        rw [(h.none_iff i j).mpr hno] at hw
        exact absurd hw (by simp)
      obtain ⟨v, hv⟩ := hex
      obtain ⟨s, t, m⟩ := w
      obtain ⟨s', t', m'⟩ := w'
      obtain rfl := (h.joins i j _ hw).unique (h'.joins i j _ hw')
      obtain rfl : t = t' :=
        (h.joins j i _ (hL i j _ hw)).unique (h'.joins j i _ (hL' i j _ hw'))
      obtain rfl : m = m' :=
        (h.middles i j v _ hw hv).symm.trans (h'.middles i j v _ hw' hv)
      rfl

/-! ## One more copy -/

/-- The marks with the pair `a`, `b` set. -/
def update (L : Look) (a b : Nat) (w : Marks) : Look := fun x y =>
  if x = a ∧ y = b then some w else if x = b ∧ y = a then some w.flip else L x y

section Update

variable {a b : Nat} {c w : Marks}

theorem endsAt_single (hne : a ≠ b) (P : PairCopies) :
    (P ⊔ single a b c).endsAt a b = insert c.1 (P.endsAt a b) := by
  ext e
  constructor
  · rintro ⟨v, hv | ⟨-, -, rfl⟩ | ⟨h, -⟩, rfl⟩
    · exact Or.inr ⟨v, hv, rfl⟩
    · exact Or.inl rfl
    · exact absurd h hne
  · rintro (rfl | ⟨v, hv, rfl⟩)
    · exact ⟨c, Or.inr (Or.inl ⟨rfl, rfl, rfl⟩), rfl⟩
    · exact ⟨v, Or.inl hv, rfl⟩

theorem single_comm (a b : Nat) (c : Marks) : single b a c.flip = single a b c := by
  funext i j v
  refine propext ⟨fun h => h.symm.imp ?_ ?_, fun h => h.symm.imp ?_ ?_⟩ <;>
    · rintro ⟨rfl, rfl, rfl⟩
      exact ⟨rfl, rfl, rfl⟩

theorem endsAt_single_of_ne (h1 : ¬ (i = a ∧ j = b)) (h2 : ¬ (i = b ∧ j = a))
    (P : PairCopies) : (P ⊔ single a b c).endsAt i j = P.endsAt i j := by
  ext e
  constructor
  · rintro ⟨v, hv | ⟨hi, hj, -⟩ | ⟨hi, hj, -⟩, rfl⟩
    · exact ⟨v, hv, rfl⟩
    · exact absurd ⟨hi, hj⟩ h1
    · exact absurd ⟨hi, hj⟩ h2
  · rintro ⟨v, hv, rfl⟩
    exact ⟨v, Or.inl hv, rfl⟩

theorem Merged.update (hP : P.Mirrored) (hne : a ≠ b) (h : P.Merged L)
    (hs : IsLUB (insert c.1 (P.endsAt a b)) w.1) (ht : IsLUB (insert c.2.1 (P.endsAt b a)) w.2.1)
    (hm : w.2.2 = c.2.2) (hall : ∀ v, P a b v → v.2.2 = c.2.2) :
    (P ⊔ single a b c).Merged (PairCopies.update L a b w) := by
  have hends : (P ⊔ single a b c).endsAt b a = insert c.2.1 (P.endsAt b a) := by
    rw [← single_comm a b c, endsAt_single hne.symm]
    rfl
  refine ⟨fun i j => ?_, fun i j u hu => ?_, fun i j v u hu hv => ?_⟩
  · unfold PairCopies.update
    split_ifs with h1 h2
    · refine iff_of_false (by simp) fun hno => hno c (Or.inr (Or.inl ⟨h1.1, h1.2, rfl⟩))
    · refine iff_of_false (by simp) fun hno => hno c.flip (Or.inr (Or.inr ⟨h2.1, h2.2, rfl⟩))
    · rw [h.none_iff]
      refine forall_congr' fun v => not_congr ⟨Or.inl, ?_⟩
      rintro (hv | ⟨hi, hj, -⟩ | ⟨hi, hj, -⟩)
      · exact hv
      · exact absurd ⟨hi, hj⟩ h1
      · exact absurd ⟨hi, hj⟩ h2
  · unfold PairCopies.update at hu
    split_ifs at hu with h1 h2
    · obtain rfl := Option.some.inj hu
      rw [h1.1, h1.2, endsAt_single hne]
      exact hs
    · obtain rfl := Option.some.inj hu
      rw [h2.1, h2.2, hends]
      exact ht
    · rw [endsAt_single_of_ne h1 h2]
      exact h.joins i j u hu
  · unfold PairCopies.update at hu
    split_ifs at hu with h1 h2
    · obtain rfl := Option.some.inj hu
      rcases hv with hv | ⟨-, -, rfl⟩ | ⟨-, -, rfl⟩
      · rw [h1.1, h1.2] at hv
        exact (hall v hv).trans hm.symm
      · exact hm.symm
      · exact hm.symm
    · obtain rfl := Option.some.inj hu
      rcases hv with hv | ⟨-, -, rfl⟩ | ⟨-, -, rfl⟩
      · rw [h2.1, h2.2] at hv
        exact (hall v.flip (hP b a v hv)).trans hm.symm
      · exact hm.symm
      · exact hm.symm
    · rcases hv with hv | ⟨hi, hj, -⟩ | ⟨hi, hj, -⟩
      · exact h.middles i j v u hu hv
      · exact absurd ⟨hi, hj⟩ h1
      · exact absurd ⟨hi, hj⟩ h2

theorem update_mirrored (hL : L.Mirrored) (hne : a ≠ b) :
    Look.Mirrored (PairCopies.update L a b w) := by
  intro i j v hv
  unfold PairCopies.update at hv ⊢
  split_ifs at hv with h1 h2
  · obtain rfl := Option.some.inj hv
    rw [if_neg fun h => hne (h1.1.symm.trans h.2), if_pos ⟨h1.2, h1.1⟩]
  · obtain rfl := Option.some.inj hv
    rw [if_pos ⟨h2.2, h2.1⟩]
    rfl
  · rw [if_neg fun h => h2 ⟨h.2, h.1⟩, if_neg fun h => h1 ⟨h.2, h.1⟩]
    exact hL i j v hv

theorem Merged.not_mergeable {s t : Endpoint} {m : MiddleMark} (hL : L.Mirrored) (hne : a ≠ b)
    (h : (P ⊔ single a b c).Merged (PairCopies.update L a b (s, t, m))) {src dst : Nat}
    (hp : (⟨a, b, s, t, m⟩ : MarkedEdge).parentChild = some (src, dst))
    (hcyc : ReflTransGen
      (fun x y => L.Dir x y ∧ ¬ (x = a ∧ y = b) ∧ ¬ (x = b ∧ y = a)) dst src) :
    ¬ (P ⊔ single a b c).Mergeable := by
  intro hM
  have hL' := update_mirrored (w := (s, t, m)) hL hne
  have hback : ReflTransGen (P ⊔ single a b c).JoinedDir dst src := by
    refine ReflTransGen.mono (fun x y hxy => (h.dir_iff hL').mp ?_) _ _ hcyc
    obtain ⟨⟨n, hn⟩, h1, h2⟩ := hxy
    refine ⟨n, ?_⟩
    unfold PairCopies.update
    rw [if_neg h1, if_neg h2]
    exact hn
  have hedge : (P ⊔ single a b c).JoinedDir src dst := by
    refine (h.dir_iff hL').mp ⟨m, ?_⟩
    unfold PairCopies.update
    rcases parentChild_eq_some.mp hp with ⟨h1, h2, rfl, rfl⟩ | ⟨h1, h2, rfl, rfl⟩
    · rw [if_pos ⟨rfl, rfl⟩]
      simp only at h1 h2
      rw [h1, h2]
    · simp only at h1 h2
      rw [if_neg fun h => hne h.2, if_pos ⟨rfl, rfl⟩, h1, h2]
      rfl
  exact hM.acyclic src (TransGen.head' hedge hback)

end Update

end PairCopies

/-! ## Merging on a graph -/

/-- The body of the loop of `TemporalPag::unfold` (`unfold_pag.rs:51-66`). -/
def Pag.mergeCopy (pag : Pag) (copy : MarkedEdge) : Except GraphError Pag :=
  match edgeBetween pag.adj copy.a copy.b with
  | some previous =>
    if previous.middle ≠ copy.middle then
      .error (.invalidEndpoints "incompatible stationary temporal PAG middle marks")
    else do
      let atA ← refine previous.atA copy.atA
      let atB ← refine previous.atB copy.atB
      let (pag', r) := pag.setMarks copy.a copy.b atA atB
      r.map fun _ => pag'
  | none => pag.insertMarked copy

/-- `f` merges the copies `R`, whatever was merged before. -/
def Merges (nodes : List NodeRef) (f : Pag → Except GraphError Pag) (R : PairCopies) : Prop :=
  R.Mirrored ∧ ∀ (P : PairCopies) (pag : Pag), P.Mirrored → pag.nodes = nodes → P.Merged pag.look →
    (∃ pag', f pag = .ok pag' ∧ pag'.nodes = nodes ∧ (P ⊔ R).Merged pag'.look) ∨
      ((∃ e, f pag = .error e) ∧ ¬ (P ⊔ R).Mergeable)

theorem Pag.insertMarked_cases (g : Pag) {edge : MarkedEdge} (hne : edge.a ≠ edge.b)
    (ha : edge.a < g.nodeCount) (hb : edge.b < g.nodeCount) (hl : g.look edge.a edge.b = none) :
    (∃ g', g.insertMarked edge = .ok g' ∧ g'.nodes = g.nodes ∧
      Updates g.adj g'.adj edge.a edge.b (edge.atA, edge.atB, edge.middle)) ∨
    ∃ src dst, edge.parentChild = some (src, dst) ∧ (∃ e, g.insertMarked edge = .error e) ∧
      ReflTransGen g.look.Dir dst src := by
  have hedge : ¬ (edgeBetween g.adj edge.a edge.b).isSome = true := by
    rw [g.stored.edgeBetween_isSome, show Graph.look g.adj edge.a edge.b = none from hl]
    simp
  have hfin : insertMarkedFinish g.adj edge = .ok (pushMarkedPair g.adj edge) ∨
      ∃ src dst, edge.parentChild = some (src, dst) ∧
        (∃ e, insertMarkedFinish g.adj edge = .error e) ∧
        ReflTransGen g.look.Dir dst src := by
    unfold insertMarkedFinish
    rw [if_neg hedge]
    cases hp : edge.parentChild with
    | none => exact Or.inl rfl
    | some p =>
      obtain ⟨src, dst⟩ := p
      simp only
      split_ifs with hcyc
      · exact Or.inr ⟨src, dst, rfl, ⟨_, rfl⟩, g.reachesDirected_sound hcyc⟩
      · exact Or.inl rfl
  unfold Pag.insertMarked
  rw [dif_neg hne, dif_pos ha, dif_pos hb]
  split
  · rename_i e hi
    rcases hfin with hok | ⟨src, dst, hp, -, hr⟩
    · exact absurd (hi.symm.trans hok) (by simp)
    · exact Or.inr ⟨src, dst, hp, ⟨_, rfl⟩, hr⟩
  · rename_i adj hi
    exact Or.inl ⟨_, rfl, rfl, (insertMarkedFinish_ok g.stored g.acyclic ha hb hne hi).2.2.2⟩

theorem Pag.look_self (g : Pag) (i : Nat) : g.look i i = none := by
  cases hl : g.look i i with
  | none => rfl
  | some v => exact absurd rfl (g.stored.ne_of_look hl)

/-- **One copy is merged, or makes the family unmergeable.** -/
theorem Pag.mergeCopy_merges {nodes : List NodeRef} (copy : MarkedEdge) (ha : copy.a < nodes.length)
    (hb : copy.b < nodes.length) : Merges nodes (Pag.mergeCopy · copy)
      (PairCopies.single copy.a copy.b (copy.atA, copy.atB, copy.middle)) := by
  obtain ⟨a, b, s, t, m⟩ := copy
  refine ⟨PairCopies.single_mirrored _ _ _, fun P pag hP hn hmerged => ?_⟩
  simp only at ha hb ⊢
  have hkeep : ∀ {pag' : Pag} {w : Marks}, Updates pag.adj pag'.adj a b w →
      pag'.look = PairCopies.update pag.look a b w := fun hu => by
    funext x y
    exact hu x y
  unfold Pag.mergeCopy
  simp only
  rw [pag.stored.edgeBetween_eq]
  cases hl : Graph.look pag.adj a b with
  | none =>
    simp only [Option.map_none]
    by_cases hne : a = b
    · refine Or.inr ⟨⟨.invalidEndpoints "Pag rejects self-loops", ?_⟩, fun hM => ?_⟩
      · unfold Pag.insertMarked
        rw [dif_pos hne]
      · exact hM.loopless a (s, t, m) (Or.inr (Or.inl ⟨rfl, hne, rfl⟩))
    have hno : ∀ v, ¬ P a b v := (hmerged.none_iff a b).mp hl
    have hempty : P.endsAt a b = ∅ ∧ P.endsAt b a = ∅ := by
      constructor
      · exact Set.eq_empty_of_forall_notMem fun e ⟨v, hv, _⟩ => hno v hv
      · exact Set.eq_empty_of_forall_notMem fun e ⟨v, hv, _⟩ => hno v.flip (hP b a v hv)
    have hnew : (P ⊔ PairCopies.single a b (s, t, m)).Merged
        (PairCopies.update pag.look a b (s, t, m)) := by
      refine hmerged.update hP hne ?_ ?_ rfl fun v hv => absurd hv (hno v)
      · rw [hempty.1]
        simp
      · rw [hempty.2]
        simp
    have hcount : pag.nodeCount = nodes.length := congrArg List.length hn
    rcases @Pag.insertMarked_cases pag ⟨a, b, s, t, m⟩ hne (hcount ▸ ha) (hcount ▸ hb) hl with
      ⟨pag', hok, hnodes, hu⟩ | ⟨src, dst, hp, herr, hr⟩
    · refine Or.inl ⟨pag', hok, hnodes.trans hn, ?_⟩
      rw [hkeep hu]
      exact hnew
    · refine Or.inr ⟨herr, hnew.not_mergeable pag.mirrored hne hp ?_⟩
      refine ReflTransGen.mono (fun x y hxy => ⟨hxy, ?_, ?_⟩) _ _ hr
      · rintro ⟨rfl, rfl⟩
        obtain ⟨n, hn'⟩ := hxy
        exact absurd (hl.symm.trans hn') (by simp)
      · rintro ⟨rfl, rfl⟩
        obtain ⟨n, hn'⟩ := hxy
        exact absurd (hl.symm.trans (pag.mirrored _ _ _ hn')) (by simp)
  | some v =>
    have hne := pag.stored.ne_of_look hl
    have hlub := hmerged.joins a b v hl
    have hlub' : IsLUB (P.endsAt b a) v.2.1 := hmerged.joins b a v.flip (pag.mirrored a b v hl)
    obtain ⟨u, hu⟩ : ∃ u, P a b u := by
      by_contra hno
      push Not at hno
      exact absurd (hl.symm.trans ((hmerged.none_iff a b).mpr hno)) (by simp)
    simp only [Option.map_some]
    by_cases hmid : v.2.2 = m
    swap
    · refine Or.inr ⟨⟨_, if_pos hmid⟩, fun hM => hmid ?_⟩
      exact (hmerged.middles a b u v hl hu).symm.trans
        (hM.middles a b u (s, t, m) (Or.inl hu) (Or.inr (Or.inl ⟨rfl, rfl, rfl⟩)))
    rw [if_neg (not_not.mpr hmid)]
    cases hs : refine v.1 s with
    | error e =>
      refine Or.inr ⟨⟨e, rfl⟩, fun hM => ?_⟩
      obtain ⟨f, hf⟩ := hM.joins a b (s, t, m) (Or.inr (Or.inl ⟨rfl, rfl, rfl⟩))
      rw [PairCopies.endsAt_single hne] at hf
      exact refine_error hlub hs f hf
    | ok s' =>
      cases ht : refine v.2.1 t with
      | error e =>
        refine Or.inr ⟨⟨e, rfl⟩, fun hM => ?_⟩
        obtain ⟨f, hf⟩ := hM.joins b a (t, s, m) (Or.inr (Or.inr ⟨rfl, rfl, rfl⟩))
        rw [← PairCopies.single_comm a b, PairCopies.endsAt_single hne.symm] at hf
        exact refine_error hlub' ht f hf
      | ok t' =>
        have hnew : (P ⊔ PairCopies.single a b (s, t, m)).Merged
            (PairCopies.update pag.look a b (s', t', v.2.2)) :=
          hmerged.update hP hne (refine_ok hlub hs) (refine_ok hlub' ht) hmid
            fun w hw => (hmerged.middles a b w v hl hw).trans hmid
        obtain ⟨hnodes, ⟨hr, hupd⟩ | ⟨src, dst, hp, hr, -, hcyc⟩⟩ := pag.setMarks_spec hl s' t'
        · refine Or.inl ⟨(pag.setMarks a b s' t').1, ?_, hnodes.trans hn, ?_⟩
          · show ((pag.setMarks a b s' t').2.map fun _ => (pag.setMarks a b s' t').1) = _
            rw [hr]
            rfl
          · rw [hkeep hupd]
            exact hnew
        · refine Or.inr ⟨⟨.cycle src dst, ?_⟩, hnew.not_mergeable pag.mirrored hne hp hcyc⟩
          show ((pag.setMarks a b s' t').2.map fun _ => (pag.setMarks a b s' t').1) = _
          rw [hr]
          rfl

/-- **A loop of merges merges the copies of all its steps.** -/
theorem Merges.foldl {β : Type} {nodes : List NodeRef} {f : Pag → β → Except GraphError Pag}
    {R : β → PairCopies} : ∀ l : List β, (∀ x ∈ l, Merges nodes (f · x) (R x)) →
      Merges nodes (fun pag => l.foldlM f pag) fun i j v => ∃ x ∈ l, R x i j v
  | [], _ => by
    refine ⟨fun i j v h => absurd h (by simp), fun P pag hP hn hm => Or.inl ⟨pag, rfl, hn, ?_⟩⟩
    have hsame : (P ⊔ fun i j v => ∃ x ∈ ([] : List β), R x i j v) = P := by
      funext i j v
      exact propext (or_iff_left (by simp))
    rw [hsame]
    exact hm
  | x :: l, h => by
    obtain ⟨hx, hstep⟩ := h x List.mem_cons_self
    obtain ⟨hl, hrest⟩ := Merges.foldl l fun y hy => h y (List.mem_cons_of_mem x hy)
    have hcons : ∀ P : PairCopies, (P ⊔ fun i j v => ∃ y ∈ x :: l, R y i j v) =
        (P ⊔ R x) ⊔ fun i j v => ∃ y ∈ l, R y i j v := by
      intro P
      rw [sup_assoc]
      congr 1
      funext i j v
      exact propext (by simp only [List.mem_cons, exists_eq_or_imp]; rfl)
    refine ⟨fun i j v ⟨y, hy, hv⟩ => ⟨y, hy, (h y hy).1 i j v hv⟩, fun P pag hP hn hm => ?_⟩
    rw [hcons]
    have hstep := hstep P pag hP hn hm
    simp only [List.foldlM_cons] at hstep ⊢
    rcases hstep with ⟨pag', hok, hn', hm'⟩ | ⟨⟨e, he⟩, hbad⟩
    · rw [hok]
      exact hrest (P ⊔ R x) pag' (hP.sup hx) hn' hm'
    · refine Or.inr ⟨⟨e, by rw [he]; rfl⟩, fun hM => hbad ?_⟩
      exact hM.mono (hP.sup hx) le_sup_left

end Antecedent.Graph
