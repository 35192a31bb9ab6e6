import Antecedent.Dag.Extension

/-!
# Which graphs are the graph of a class

`Essential A D U G` says that directed edges `D` and undirected edges `U` are those of the class of `G`:
compelled edges are directed, the others undirected. A graph of the two kinds need not be essential. It is
exactly when it has a consistent extension, no extension can reverse a directed edge that is covered
there, and each undirected edge is directed both ways among the extensions (`exists_essential_iff`).

* `Extends.of_uncovered`: where no extension can reverse a directed edge, every graph similar to one is
  one: it would be reached by reversing covered edges, the first of them directed.
-/

namespace Antecedent.Dag

variable {V : Type*} {G H : Dag V} {A D U : V → V → Prop} {a b : V}

/-- The graph of the class of `G`. -/
structure Essential (A D U : V → V → Prop) (G : Dag V) : Prop where
  adj : ∀ a b, A a b ↔ G.Adj a b
  dir : ∀ a b, D a b ↔ G.Compelled a b
  und : ∀ a b, U a b ↔ G.Adj a b ∧ ¬ G.Compelled a b ∧ ¬ G.Compelled b a

/-- The edges of a graph of the two kinds. -/
structure TwoKinds (A D U : V → V → Prop) : Prop where
  adj : ∀ a b, A a b ↔ D a b ∨ D b a ∨ U a b
  symm : ∀ a b, U a b → U b a

/-- No directed edge is covered in an extension. -/
def Uncovered (A D U : V → V → Prop) : Prop :=
  ∀ H : Dag V, Extends A D U H → ∀ a b, D a b → ¬ H.Covered a b

/-- **Every graph similar to an extension is one**, by induction on the edges on which they differ. -/
theorem Extends.of_uncovered (hk : TwoKinds A D U) (hu : Uncovered A D U) (h : Extends A D U G)
    (hs : G.Similar H) : Extends A D U H := by
  induction hn : (G.diff H).ncard using Nat.strong_induction_on generalizing G with
  | h n ih =>
    rcases (G.diff H).eq_empty_or_nonempty with he | hd
    · obtain rfl : G = H := by
        ext a b
        exact hs.edge_iff he
      exact h
    · obtain ⟨x, y, hc, hyx⟩ := exists_covered hs hd
      have hrev : G.Similar hc.reverse := Similar.of_markovEquivalent hc.reversal.markovEquivalent
      have hdir : ∀ a b, D a b → hc.reverse.edge a b := fun a b hab =>
        Or.inl ⟨h.dir a b hab, by rintro ⟨rfl, rfl⟩; exact hu G h a b hab hc⟩
      have hlt : (hc.reverse.diff H).ncard < n :=
        hn ▸ Set.ncard_lt_ncard (hc.diff_reverse hyx) (G.finite_diff H)
      exact ih _ hlt (h.of_similar hk.adj hrev hdir) (hrev.symm.trans hs) rfl

theorem Essential.rules (h : Essential A D U G) : A = G.Adj ∧ D = G.Meek ∧ U = G.Open := by
  refine ⟨?_, ?_, ?_⟩
  · funext a b
    exact propext (h.adj a b)
  · funext a b
    exact propext ((h.dir a b).trans compelled_iff)
  · funext a b
    refine propext ((h.und a b).trans ?_)
    rw [compelled_iff, compelled_iff]
    exact ⟨fun ⟨h1, h2, h3⟩ => ⟨h1, h2, h3⟩, fun h => ⟨h.adj, h.forward, h.backward⟩⟩

theorem Essential.twoKinds (h : Essential A D U G) : TwoKinds A D U := by
  obtain ⟨rfl, rfl, rfl⟩ := h.rules
  refine ⟨fun a b => ⟨meek_or_open, ?_⟩, fun _ _ => Open.symm⟩
  rintro (h | h | h)
  · exact Or.inl (meek_edge h)
  · exact Or.inr (meek_edge h)
  · exact h.adj

/-- **The extensions of an essential graph are the class.** -/
theorem essential_extends_iff (h : Essential A D U G) : Extends A D U H ↔ G.Similar H := by
  obtain ⟨rfl, rfl, rfl⟩ := h.rules
  exact extends_iff_similar

/-- **Which graphs are essential.** -/
theorem exists_essential_iff (hk : TwoKinds A D U) : (∃ G, Essential A D U G) ↔
    (∃ G, Extends A D U G) ∧ Uncovered A D U ∧
      ∀ a b, U a b → ∃ H, Extends A D U H ∧ H.edge a b := by
  constructor
  · rintro ⟨G, hG⟩
    have hcompelled {a b : V} {H : Dag V} (hab : D a b) (hs : G.Similar H) : H.edge a b :=
      (hG.dir a b).mp hab H hs.markovEquivalent
    refine ⟨⟨G, (essential_extends_iff hG).mpr (Similar.refl G)⟩, fun H hH a b hab hc => ?_,
      fun a b hab => ?_⟩
    · -- a covered edge could be reversed within the class
      have hs : G.Similar H := (essential_extends_iff hG).mp hH
      have hrev := hs.trans (Similar.of_markovEquivalent hc.reversal.markovEquivalent)
      exact asymm (hcompelled hab hrev) hc.reversal.reversed
    · obtain ⟨hA, hD, hU⟩ := hG.rules
      obtain ⟨H, hH, hba⟩ := exists_reversed (hU ▸ hk.symm a b hab)
      exact ⟨H, (essential_extends_iff hG).mpr (Similar.of_markovEquivalent hH), hba⟩
  · rintro ⟨⟨G, hG⟩, hu, hboth⟩
    have hclass (H : Dag V) (hs : G.Similar H) : Extends A D U H := hG.of_uncovered hk hu hs
    have hturn {a b : V} (hab : U a b) : ¬ G.Compelled b a := fun hc => by
      obtain ⟨H, hH, he⟩ := hboth a b hab
      exact asymm he (hc H (hG.similar hk.adj hH).markovEquivalent)
    have hadj (a b : V) : A a b ↔ G.Adj a b := (hk.adj a b).trans (hG.adj a b).symm
    have hdir (a b : V) : D a b ↔ G.Compelled a b := by
      constructor
      · exact fun hab H hH => (hclass H (Similar.of_markovEquivalent hH)).dir a b hab
      · intro hc
        have hab : G.edge a b := hc G fun _ _ _ _ _ _ => Iff.rfl
        rcases (hG.adj a b).mp (Or.inl hab) with h | h | h
        · exact h
        · exact absurd (hG.dir b a h) fun hba => asymm hab hba
        · exact absurd hc (hturn (hk.symm a b h))
    refine ⟨G, hadj, hdir, fun a b => ⟨fun hab => ?_, ?_⟩⟩
    · exact ⟨(hadj a b).mp ((hk.adj a b).mpr (Or.inr (Or.inr hab))), hturn (hk.symm a b hab),
        hturn hab⟩
    · rintro ⟨hab, h1, h2⟩
      rcases (hk.adj a b).mp ((hadj a b).mpr hab) with h | h | h
      · exact absurd ((hdir a b).mp h) h1
      · exact absurd ((hdir b a).mp h) h2
      · exact h

end Antecedent.Dag
