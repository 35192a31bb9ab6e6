import Mathlib.Data.List.Induction
import Mathlib.Data.List.Nodup

/-!
# Minimal hits of a ranked list

A search goes through a list of things, one below another, that is ranked: what is below comes
first. It keeps a hit unless it kept one below it already. What it keeps are the minimal hits.

* `minimalHits_concat_hit`, `minimalHits_concat_pass`: one step of the search, in terms of the
  minimal hits so far.

`upTo k l` are the non-empty sublists of at most `k` entries, in the order of `k` nested loops.
-/

namespace Antecedent.MinimalHits

variable {α : Type*}

section Hits

variable (below : α → α → Prop) [DecidableRel below] [DecidableEq α] (hit : α → Bool)

def minimalHits (l : List α) : List α :=
  l.filter fun a => hit a && l.all fun b => !(hit b && decide (below b a) && decide (b ≠ a))

variable {below hit} {l : List α}

theorem mem_minimalHits {a : α} : a ∈ minimalHits below hit l ↔
    a ∈ l ∧ hit a = true ∧ ∀ b ∈ l, hit b = true → below b a → b = a := by
  unfold minimalHits
  rw [List.mem_filter, Bool.and_eq_true, List.all_eq_true]
  refine and_congr_right fun _ => and_congr_right fun _ => forall₂_congr fun b _ => ?_
  simp only [Bool.not_eq_true', Bool.and_eq_false_iff, decide_eq_false_iff_not]
  constructor
  · rintro ((h | h) | h) hh hb
    · rw [h] at hh
      cases hh
    · exact absurd hb h
    · exact not_not.mp h
  · intro h
    by_cases hh : hit b = true
    · by_cases hb : below b a
      · exact Or.inr (not_not.mpr (h hh hb))
      · exact Or.inl (Or.inr hb)
    · exact Or.inl (Or.inl (by simpa using hh))

/-- **Below every hit there is a minimal one.** -/
theorem exists_minimalHit (hrefl : ∀ a, below a a) (htrans : ∀ a b c, below a b → below b c → below a c)
    (hl : l.Pairwise fun a b => ¬below b a) :
    ∀ {b : α}, b ∈ l → hit b = true → ∃ m ∈ minimalHits below hit l, below m b := by
  induction l using List.reverseRecOn with
  | nil => exact fun h => absurd h List.not_mem_nil
  | append_singleton l a ih =>
    obtain ⟨hl', -, hla⟩ := List.pairwise_append.mp hl
    have hold : ∀ b ∈ l, ¬below a b := fun b hb => hla b hb a (List.mem_singleton_self a)
    have hkeep : ∀ m ∈ minimalHits below hit l, m ∈ minimalHits below hit (l ++ [a]) := by
      intro m hm
      obtain ⟨hm, hhit, hmin⟩ := mem_minimalHits.mp hm
      refine mem_minimalHits.mpr ⟨List.mem_append_left _ hm, hhit, fun b hb hh hbm => ?_⟩
      rcases List.mem_append.mp hb with hb | hb
      · exact hmin b hb hh hbm
      · obtain rfl := List.mem_singleton.mp hb
        exact absurd hbm (hold m hm)
    intro b hb hh
    rcases List.mem_append.mp hb with hb | hb
    · obtain ⟨m, hm, hmb⟩ := ih hl' hb hh
      exact ⟨m, hkeep m hm, hmb⟩
    · obtain rfl := List.mem_singleton.mp hb
      by_cases hex : ∃ c ∈ l, hit c = true ∧ below c b
      · obtain ⟨c, hc, hhc, hcb⟩ := hex
        obtain ⟨m, hm, hmc⟩ := ih hl' hc hhc
        exact ⟨m, hkeep m hm, htrans m c b hmc hcb⟩
      · refine ⟨b, mem_minimalHits.mpr ⟨by simp, hh, fun c hc hhc hcb => ?_⟩, hrefl b⟩
        rcases List.mem_append.mp hc with hc | hc
        · exact absurd ⟨c, hc, hhc, hcb⟩ hex
        · exact List.mem_singleton.mp hc

/-- **A minimal hit is below something iff a hit is.** -/
theorem exists_minimalHit_iff (hrefl : ∀ a, below a a)
    (htrans : ∀ a b c, below a b → below b c → below a c)
    (hl : l.Pairwise fun a b => ¬below b a) {a : α} :
    (∃ m ∈ minimalHits below hit l, below m a) ↔ ∃ b ∈ l, hit b = true ∧ below b a := by
  constructor
  · rintro ⟨m, hm, hma⟩
    obtain ⟨hm, hh, -⟩ := mem_minimalHits.mp hm
    exact ⟨m, hm, hh, hma⟩
  · rintro ⟨b, hb, hh, hba⟩
    obtain ⟨m, hm, hmb⟩ := exists_minimalHit hrefl htrans hl hb hh
    exact ⟨m, hm, htrans m b a hmb hba⟩

section Step

variable (hrefl : ∀ a, below a a) {l : List α} {a : α}
  (hl : (l ++ [a]).Pairwise fun a b => ¬below b a)

include hl in
theorem filter_concat : ((l ++ [a]).filter fun c => hit c && (l ++ [a]).all fun b =>
    !(hit b && decide (below b c) && decide (b ≠ c))) =
      minimalHits below hit l ++ [a].filter fun c => hit c && (l ++ [a]).all fun b =>
        !(hit b && decide (below b c) && decide (b ≠ c)) := by
  obtain ⟨-, -, hla⟩ := List.pairwise_append.mp hl
  rw [List.filter_append]
  congr 1
  refine List.filter_congr fun c hc => ?_
  have hca : ¬below a c := hla c hc a (List.mem_singleton_self a)
  rw [List.all_append]
  simp [hca]

include hrefl hl in
/-- **A hit that no hit before it is below is kept.** -/
theorem minimalHits_concat_hit (hh : hit a = true)
    (hnone : ¬∃ m ∈ minimalHits below hit l, below m a)
    (htrans : ∀ a b c, below a b → below b c → below a c) :
    minimalHits below hit (l ++ [a]) = minimalHits below hit l ++ [a] := by
  rw [exists_minimalHit_iff hrefl htrans (List.pairwise_append.mp hl).1] at hnone
  unfold minimalHits
  rw [filter_concat hl]
  unfold minimalHits
  congr 1
  rw [List.filter_eq_self]
  intro c hc
  obtain rfl := List.mem_singleton.mp hc
  rw [Bool.and_eq_true, List.all_eq_true]
  refine ⟨hh, fun b hb => ?_⟩
  rcases List.mem_append.mp hb with hb | hb
  · by_cases hhb : hit b = true
    · have hbc : ¬below b c := fun hbc => hnone ⟨b, hb, hhb, hbc⟩
      simp [hbc]
    · simp [hhb]
  · obtain rfl := List.mem_singleton.mp hb
    simp

include hrefl hl in
/-- **What is no hit, or has a kept hit below it, is passed over.** -/
theorem minimalHits_concat_pass
    (h : hit a = true → ∃ m ∈ minimalHits below hit l, below m a) :
    minimalHits below hit (l ++ [a]) = minimalHits below hit l := by
  obtain ⟨-, -, hla⟩ := List.pairwise_append.mp hl
  unfold minimalHits
  rw [filter_concat hl, List.filter_eq_nil_iff.mpr, List.append_nil]
  · rfl
  intro c hc
  obtain rfl := List.mem_singleton.mp hc
  rw [Bool.and_eq_true, not_and, List.all_eq_true]
  intro hh hall
  obtain ⟨m, hm, hmc⟩ := h hh
  obtain ⟨hm, hhm, -⟩ := mem_minimalHits.mp hm
  have hne : m ≠ c := fun he => hla m hm c (List.mem_singleton_self c) (he ▸ hrefl m)
  have := hall m (List.mem_append_left _ hm)
  simp [hhm, hmc, hne] at this

end Step

end Hits

/-! ## Small sublists -/

/-- The non-empty sublists of at most `k` entries, in the order of `k` nested loops. -/
def upTo : Nat → List α → List (List α)
  | 0, _ => []
  | _ + 1, [] => []
  | k + 1, a :: rest => ([a] :: (upTo k rest).map (a :: ·)) ++ upTo (k + 1) rest

theorem mem_upTo : ∀ {k : Nat} {l s : List α},
    s ∈ upTo k l ↔ s.Sublist l ∧ s ≠ [] ∧ s.length ≤ k
  | 0, l, s => by
    unfold upTo
    refine iff_of_false List.not_mem_nil ?_
    rintro ⟨-, hne, hlen⟩
    exact hne (List.length_eq_zero_iff.mp (Nat.le_zero.mp hlen))
  | k + 1, [], s => by
    unfold upTo
    refine iff_of_false List.not_mem_nil ?_
    rintro ⟨hs, hne, -⟩
    exact hne (List.sublist_nil.mp hs)
  | k + 1, a :: rest, s => by
    unfold upTo
    rw [List.mem_append, List.mem_cons, List.mem_map, mem_upTo (k := k + 1)]
    constructor
    · rintro ((rfl | ⟨t, ht, rfl⟩) | ⟨hs, hne, hlen⟩)
      · exact ⟨List.singleton_sublist.mpr List.mem_cons_self, List.cons_ne_nil _ _, by simp⟩
      · obtain ⟨ht, -, hlen⟩ := mem_upTo.mp ht
        exact ⟨ht.cons_cons a, List.cons_ne_nil _ _, Nat.succ_le_succ hlen⟩
      · exact ⟨hs.cons a, hne, hlen⟩
    · rintro ⟨hs, hne, hlen⟩
      cases hs with
      | cons _ hs => exact Or.inr ⟨hs, hne, hlen⟩
      | @cons_cons t _ _ ht =>
        by_cases hnil : t = []
        · exact Or.inl (Or.inl (by rw [hnil]))
        · exact Or.inl (Or.inr ⟨t, mem_upTo.mpr ⟨ht, hnil, Nat.le_of_succ_le_succ hlen⟩, rfl⟩)

theorem nodup_upTo : ∀ {k : Nat} {l : List α}, l.Nodup → (upTo k l).Nodup
  | 0, _, _ => by
    unfold upTo
    exact List.nodup_nil
  | _ + 1, [], _ => by
    unfold upTo
    exact List.nodup_nil
  | k + 1, a :: rest, h => by
    obtain ⟨ha, hrest⟩ := List.nodup_cons.mp h
    unfold upTo
    refine List.nodup_append.mpr ⟨List.nodup_cons.mpr ⟨fun hm => ?_, ?_⟩, nodup_upTo hrest, ?_⟩
    · obtain ⟨t, ht, he⟩ := List.mem_map.mp hm
      obtain rfl : t = [] := (List.cons.inj he).2
      exact (mem_upTo.mp ht).2.1 rfl
    · exact (nodup_upTo hrest).map List.cons_injective
    · intro s hs t ht he
      subst he
      refine ha ((mem_upTo.mp ht).1.subset ?_)
      rcases List.mem_cons.mp hs with rfl | hs
      · exact List.mem_singleton_self a
      · obtain ⟨t, -, rfl⟩ := List.mem_map.mp hs
        exact List.mem_cons_self

end Antecedent.MinimalHits
