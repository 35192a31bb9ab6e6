import Antecedent.Machine.Folds

/-!
# Checked insertion of a list of edges

A value is built by inserting the elements of a list one after the other. An insertion may be
refused; one that succeeds adds what the element states to what the value holds and leaves the rest
alone, the value's base (its node table) included.

* `Inserts.foldlM`: what a value built so holds.
* **`Inserts.accepts`**: a list of elements that state different facts of one target is inserted
  whole, if an insertion refuses nothing that fits the target and is new.
-/

namespace Antecedent.Machine

variable {G E P B ε : Type} {insert : G → E → Except ε G} {base : G → B} {Holds : G → P → Prop}
  {states : E → P → Prop}

/-- What a successful insertion does. -/
structure Inserts (insert : G → E → Except ε G) (base : G → B) (Holds : G → P → Prop)
    (states : E → P → Prop) : Prop where
  base_eq : ∀ {g e g'}, insert g e = .ok g' → base g' = base g
  holds : ∀ {g e g'}, insert g e = .ok g' → ∀ p, Holds g' p ↔ Holds g p ∨ states e p

theorem Inserts.foldlM (h : Inserts insert base Holds states) : ∀ {l : List E} {g g' : G},
    l.foldlM insert g = .ok g' →
      base g' = base g ∧ ∀ p, Holds g' p ↔ Holds g p ∨ ∃ e ∈ l, states e p
  | [], g, g', hok => by
    cases hok
    exact ⟨rfl, fun p => by simp⟩
  | e :: l, g, g', hok => by
    rw [List.foldlM_cons] at hok
    obtain ⟨g₁, hi, hok⟩ := bind_ok hok
    obtain ⟨hb, hh⟩ := h.foldlM (show l.foldlM insert g₁ = .ok g' from hok)
    refine ⟨hb.trans (h.base_eq hi), fun p => ?_⟩
    rw [hh, h.holds hi, or_assoc]
    simp only [List.mem_cons, exists_eq_or_imp]

/-- **A list that fits a target is inserted whole.** -/
theorem Inserts.accepts (h : Inserts insert base Holds states) {T : P → Prop} {b : B} :
    ∀ {l : List E} {g : G}, base g = b → (∀ p, Holds g p → T p) →
      (∀ e ∈ l, ∀ p, states e p → T p ∧ ¬ Holds g p) →
      l.Pairwise (fun e f => ∀ p, states e p → ¬ states f p) →
      (∀ e ∈ l, ∀ g, base g = b → (∀ p, Holds g p → T p) → (∀ p, states e p → ¬ Holds g p) →
        ∃ g', insert g e = .ok g') → ∃ g', l.foldlM insert g = .ok g'
  | [], g, _, _, _, _, _ => ⟨g, rfl⟩
  | e :: l, g, hb, hT, hnew, hpair, hacc => by
    obtain ⟨hfirst, hpair⟩ := List.pairwise_cons.mp hpair
    have he := hnew e List.mem_cons_self
    obtain ⟨g₁, hi⟩ := hacc e List.mem_cons_self g hb hT fun p hp => (he p hp).2
    obtain ⟨g', hok⟩ := h.accepts (l := l) (g := g₁) ((h.base_eq hi).trans hb)
      (fun p hp => ((h.holds hi p).mp hp).elim (hT p) fun hs => (he p hs).1)
      (fun f hf p hp => by
        have hff := hnew f (List.mem_cons_of_mem e hf) p hp
        refine ⟨hff.1, fun hh => ?_⟩
        rcases (h.holds hi p).mp hh with hh | hs
        · exact hff.2 hh
        · exact hfirst f hf p hs hp)
      hpair fun f hf => hacc f (List.mem_cons_of_mem e hf)
    refine ⟨g', ?_⟩
    rw [List.foldlM_cons, hi]
    exact hok

end Antecedent.Machine
