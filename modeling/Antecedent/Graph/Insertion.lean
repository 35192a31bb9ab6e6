import Antecedent.Graph.Admg
import Antecedent.Machine.Inserts

/-!
# Inserting the edges of a mixed graph

The checked insertions of an ADMG refuse an edge that is there and one that closes a cycle. Neither
comes up when the edges of an acyclic mixed graph are inserted, each once, in whatever order.

* `insertEdge_inserts`: what an insertion adds.
* **`insertEdges_ok`**, `insertSorted_ok`: the edges of an acyclic mixed graph build it.
-/

namespace Antecedent.Graph

open Machine (Inserts)
open Mixed

/-- A loop of loops is one loop. -/
theorem foldlM_flatMap {m : Type → Type} [Monad m] [LawfulMonad m] {α β σ : Type} {f : α → List β}
    {step : σ → β → m σ} : ∀ {l : List α} {s : σ},
    l.foldlM (fun s a => (f a).foldlM step s) s = (l.flatMap f).foldlM step s
  | [], _ => rfl
  | a :: l, s => by
    rw [List.flatMap_cons, List.foldlM_append, List.foldlM_cons]
    simp only [foldlM_flatMap]

/-- An edge to insert. -/
inductive EdgeCall
  | directed (src dst : Nat)
  | bidirected (a b : Nat)

def EdgeCall.Adds : EdgeCall → EdgeCall → Prop
  | .directed a b, p => p = .directed a b
  | .bidirected a b, p => p = .bidirected a b ∨ p = .bidirected b a

def EdgeCall.In (G : MixedGraph Nat) : EdgeCall → Prop
  | .directed a b => G.dir a b
  | .bidirected a b => G.bi a b

namespace Admg

def insertEdge (g : Admg) : EdgeCall → Except GraphError Admg
  | .directed a b => g.insertDirected a b
  | .bidirected a b => g.insertBidirected a b

theorem insertDirected_spec {g g' : Admg} {src dst : Nat} (h : g.insertDirected src dst = .ok g') :
    g'.nodes = g.nodes ∧ (∀ a b, g'.mixed.dir a b ↔ g.mixed.dir a b ∨ (a = src ∧ b = dst)) ∧
      ∀ a b, g'.mixed.bi a b ↔ g.mixed.bi a b := by
  unfold insertDirected at h
  split_ifs at h with hs hd
  split at h
  · rename_i c hc
    cases h
    obtain ⟨-, -, rfl⟩ := DirectedCore.tryInsert_cases hc
    exact ⟨rfl, DirectedCore.dir_pushUnchecked g.valid hs, fun _ _ => Iff.rfl⟩
  · cases h

theorem insertBidirected_spec {g g' : Admg} {a b : Nat} (h : g.insertBidirected a b = .ok g') :
    g'.nodes = g.nodes ∧ (∀ u v, g'.mixed.dir u v ↔ g.mixed.dir u v) ∧
      ∀ u v, g'.mixed.bi u v ↔ g.mixed.bi u v ∨ (u = a ∧ v = b) ∨ (u = b ∧ v = a) := by
  unfold insertBidirected at h
  split_ifs at h with ha hb hab hnew
  cases h
  exact ⟨rfl, fun _ _ => Iff.rfl, mem_pushBidirected g.biValid ha hb hab⟩

theorem insertEdge_inserts :
    Inserts insertEdge nodes (fun g p => p.In g.mixed) fun e p => e.Adds p where
  base_eq {g e g'} h := by
    cases e with
    | directed a b => exact (insertDirected_spec h).1
    | bidirected a b => exact (insertBidirected_spec h).1
  holds {g e g'} h p := by
    cases e with
    | directed a b =>
      obtain ⟨-, hdir, hbi⟩ := insertDirected_spec h
      cases p with
      | directed u v => simpa [EdgeCall.In, EdgeCall.Adds] using hdir u v
      | bidirected u v => simpa [EdgeCall.In, EdgeCall.Adds] using hbi u v
    | bidirected a b =>
      obtain ⟨-, hdir, hbi⟩ := insertBidirected_spec h
      cases p with
      | directed u v => simpa [EdgeCall.In, EdgeCall.Adds] using hdir u v
      | bidirected u v => simpa [EdgeCall.In, EdgeCall.Adds] using hbi u v

variable {G : MixedGraph Nat} {l : List EdgeCall} {g₀ : Admg}

section

variable (hac : G.Acyclic) (hirr : ∀ a, ¬ G.bi a a)
  (hrange : ∀ a b, G.dir a b ∨ G.bi a b → a < g₀.nodeCount ∧ b < g₀.nodeCount)
  (hempty : ∀ p, ¬ EdgeCall.In g₀.mixed p)

include hac hirr hrange hempty

/-- **The edges of an acyclic mixed graph build it.** -/
theorem insertEdges_ok (hl : ∀ p, (∃ e ∈ l, e.Adds p) ↔ p.In G)
    (hone : l.Pairwise fun e f => ∀ p, e.Adds p → ¬ f.Adds p) :
    ∃ g, l.foldlM insertEdge g₀ = .ok g ∧ g.nodes = g₀.nodes ∧ g.mixed = G := by
  obtain ⟨g, hok⟩ := insertEdge_inserts.accepts (T := EdgeCall.In G) (b := g₀.nodes) rfl
    (fun p hp => absurd hp (hempty p)) (fun e he p hp => ⟨(hl p).mp ⟨e, he, hp⟩, hempty p⟩) hone
    (fun e he g hn hsub hnew => by
      have hcount : g.nodeCount = g₀.nodeCount := congrArg List.length hn
      cases e with
      | directed a b =>
        have hd : G.dir a b := (hl (.directed a b)).mp ⟨_, he, rfl⟩
        obtain ⟨ha, hb⟩ := hrange a b (Or.inl hd)
        obtain ⟨g', hok, -⟩ := insertDirected_ok (hcount ▸ ha) (hcount ▸ hb) (hnew (.directed a b) rfl)
          fun hr => hac a (Relation.TransGen.head' hd
            (Relation.ReflTransGen.mono (fun x y => hsub (.directed x y)) _ _ hr))
        exact ⟨g', hok⟩
      | bidirected a b =>
        have hb : G.bi a b := (hl (.bidirected a b)).mp ⟨_, he, Or.inl rfl⟩
        obtain ⟨ha, hb'⟩ := hrange a b (Or.inr hb)
        obtain ⟨g', hok, -⟩ := insertBidirected_ok (hcount ▸ ha) (hcount ▸ hb')
          (fun e => hirr a (by rwa [← e] at hb)) (hnew (.bidirected a b) (Or.inl rfl))
        exact ⟨g', hok⟩)
  obtain ⟨hnodes, hholds⟩ := insertEdge_inserts.foldlM hok
  have hin : ∀ p, EdgeCall.In g.mixed p ↔ p.In G := fun p =>
    (hholds p).trans ((or_iff_right (hempty p)).trans (hl p))
  exact ⟨g, hok, hnodes, MixedGraph.ext (funext₂ fun a b => propext (hin (.directed a b)))
    (funext₂ fun a b => propext (hin (.bidirected a b)))⟩

theorem insertSorted_ok (hdir : ∀ a b, .directed a b ∈ l ↔ G.dir a b)
    (hbi : ∀ a b, .bidirected a b ∈ l ↔ a < b ∧ G.bi a b) (hl : l.Nodup) :
    ∃ g, l.foldlM insertEdge g₀ = .ok g ∧ g.nodes = g₀.nodes ∧ g.mixed = G := by
  refine insertEdges_ok hac hirr hrange hempty (fun p => ?_) ?_
  · cases p with
    | directed a b =>
      rw [EdgeCall.In, ← hdir]
      constructor
      · rintro ⟨e, he, hp⟩
        cases e <;> simp [EdgeCall.Adds] at hp
        rwa [hp.1, hp.2]
      · exact fun h => ⟨_, h, rfl⟩
    | bidirected a b =>
      constructor
      · rintro ⟨e, he, hp⟩
        cases e <;> simp [EdgeCall.Adds] at hp
        obtain ⟨-, hb⟩ := (hbi _ _).mp he
        rcases hp with ⟨rfl, rfl⟩ | ⟨rfl, rfl⟩
        · exact hb
        · exact G.bi_symm hb
      · intro hb
        have hne : a ≠ b := fun e => hirr a (by rwa [EdgeCall.In, ← e] at hb)
        rcases Nat.lt_or_gt_of_ne hne with hlt | hlt
        · exact ⟨_, (hbi a b).mpr ⟨hlt, hb⟩, Or.inl rfl⟩
        · exact ⟨_, (hbi b a).mpr ⟨hlt, G.bi_symm hb⟩, Or.inr rfl⟩
  · refine hl.pairwise_of_forall_ne fun e he f hf hne p hp hq => hne ?_
    cases e <;> cases f <;> simp only [EdgeCall.Adds] at hp hq
    · exact hp.symm.trans hq
    · rcases hq with rfl | rfl <;> cases hp
    · rcases hp with rfl | rfl <;> cases hq
    · have h1 := ((hbi _ _).mp he).1
      have h2 := ((hbi _ _).mp hf).1
      rcases hp with rfl | rfl <;> rcases hq with h | h <;> cases h
      · rfl
      · omega
      · omega
      · rfl

end

theorem ends_lt {g : Admg} {a b : Nat} (h : g.mixed.dir a b ∨ g.mixed.bi a b) :
    a < g.nodeCount ∧ b < g.nodeCount := by
  rcases h with h | h
  · exact g.valid.in_range a b h
  · exact ⟨g.biValid.in_range b a (g.mixed.bi_symm h), g.biValid.in_range a b h⟩

/-- **A graph is rebuilt from its pairs**, the directed ones first. -/
theorem rebuild_ok {g : Admg} {ds bs : List (Nat × Nat)} (hcount : g₀.nodeCount = g.nodeCount)
    (hempty : (∀ a b, ¬ g₀.mixed.dir a b) ∧ ∀ a b, ¬ g₀.mixed.bi a b)
    (hdir : ∀ {a b}, (a, b) ∈ ds ↔ g.mixed.dir a b) (hds : ds.Nodup)
    (hbi : ∀ {a b}, (a, b) ∈ bs ↔ a < b ∧ g.mixed.bi a b) (hbs : bs.Nodup) :
    ∃ g₁ g₂, ds.foldlM (fun g e => g.insertDirected e.1 e.2) g₀ = .ok g₁ ∧
      bs.foldlM (fun g e => g.insertBidirected e.1 e.2) g₁ = .ok g₂ ∧ g₂.nodes = g₀.nodes ∧
      g₂.mixed = g.mixed := by
  have hd : Function.Injective fun e : Nat × Nat => EdgeCall.directed e.1 e.2 :=
    fun _ _ h => Prod.ext (EdgeCall.directed.inj h).1 (EdgeCall.directed.inj h).2
  have hb : Function.Injective fun e : Nat × Nat => EdgeCall.bidirected e.1 e.2 :=
    fun _ _ h => Prod.ext (EdgeCall.bidirected.inj h).1 (EdgeCall.bidirected.inj h).2
  obtain ⟨g₂, hok, hnodes, hmixed⟩ := @insertSorted_ok g.mixed
    (ds.map (fun e => .directed e.1 e.2) ++ bs.map fun e => .bidirected e.1 e.2) g₀
    g.acyclic g.biValid.irrefl (fun a b h => hcount ▸ ends_lt h)
    (fun p => by
      cases p with
      | directed a b => exact hempty.1 a b
      | bidirected a b => exact hempty.2 a b)
    (fun a b => by simpa using hdir) (fun a b => by simpa using hbi)
    (List.Nodup.append (hds.map hd) (hbs.map hb) fun e he he' => by
      obtain ⟨_, -, rfl⟩ := List.mem_map.mp he
      obtain ⟨_, -, he'⟩ := List.mem_map.mp he'
      cases he')
  simp only [List.foldlM_append, List.foldlM_map] at hok
  cases h₁ : ds.foldlM (fun g e => g.insertDirected e.1 e.2) g₀ with
  | error e =>
    rw [show ds.foldlM (fun g e => g.insertEdge (.directed e.1 e.2)) g₀ = _ from h₁] at hok
    cases hok
  | ok g₁ =>
    rw [show ds.foldlM (fun g e => g.insertEdge (.directed e.1 e.2)) g₀ = _ from h₁] at hok
    exact ⟨g₁, g₂, rfl, hok, hnodes, hmixed⟩

end Admg

end Antecedent.Graph
