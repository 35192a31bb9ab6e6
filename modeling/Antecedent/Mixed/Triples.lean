import Antecedent.Mixed.Basic
import Mathlib.Data.List.Chain

/-!
# Paths as lists of nodes

In a mixed graph with at most one edge between two nodes a path is its list of nodes, and whether
it is m-connecting is read off its consecutive triples.

* `active_iff_triples`: a walk is active iff every triple passes.
-/

namespace Antecedent.Mixed

/-- The consecutive triples of a list, `windows(3)`. -/
def windows3 {α : Type*} : List α → List (α × α × α)
  | a :: b :: c :: r => (a, b, c) :: windows3 (b :: c :: r)
  | _ => []

/-- The middle of a triple lies between two neighbours of a list without repetitions. -/
theorem windows3_ne {α : Type*} : ∀ {p : List α}, p.Nodup → ∀ t ∈ windows3 p,
    t.1 ≠ t.2.1 ∧ t.2.1 ≠ t.2.2 ∧ t.1 ≠ t.2.2
  | [], _, t, ht => absurd ht List.not_mem_nil
  | [_], _, t, ht => absurd ht List.not_mem_nil
  | [_, _], _, t, ht => absurd ht List.not_mem_nil
  | a :: b :: c :: r, hnd, t, ht => by
    obtain ⟨ha, hnd'⟩ := List.nodup_cons.mp hnd
    obtain ⟨hb, -⟩ := List.nodup_cons.mp hnd'
    rcases List.mem_cons.mp ht with rfl | ht
    · refine ⟨fun h => ha ?_, fun h => hb ?_, fun h => ha ?_⟩
      · exact (show a = b from h) ▸ List.mem_cons_self
      · exact (show b = c from h) ▸ List.mem_cons_self
      · exact (show a = c from h) ▸ List.mem_cons_of_mem _ List.mem_cons_self
    · exact windows3_ne hnd' t ht

/-- The edges of a triple. -/
theorem windows3_chain {α : Type*} {R : α → α → Prop} : ∀ {p : List α}, List.IsChain R p →
    ∀ t ∈ windows3 p, R t.1 t.2.1 ∧ R t.2.1 t.2.2
  | [], _, t, ht => absurd ht List.not_mem_nil
  | [_], _, t, ht => absurd ht List.not_mem_nil
  | [_, _], _, t, ht => absurd ht List.not_mem_nil
  | a :: b :: c :: r, h, t, ht => by
    obtain ⟨hab, h'⟩ := List.isChain_cons_cons.mp h
    rcases List.mem_cons.mp ht with rfl | ht
    · exact ⟨hab, (List.isChain_cons_cons.mp h').1⟩
    · exact windows3_chain h' t ht

namespace MixedGraph

variable {V : Type*} {G : MixedGraph V} {Z : Set V}

/-- At most one edge between two nodes. -/
def Single (G : MixedGraph V) : Prop := ∀ k l a b, G.Edge k a b → G.Edge l a b → k = l

/-- A triple passes: its middle node does, with the marks of the edges at it. -/
def TriplePasses (G : MixedGraph V) (Z : Set V) (t : V × V × V) : Prop :=
  ∃ k l, G.Edge k t.1 t.2.1 ∧ G.Edge l t.2.1 t.2.2 ∧ G.Passes Z (k.headR && l.headL) t.2.1

theorem getLast?_walkNodes (a : V) (w : List (EdgeKind × V)) :
    (walkNodes a w).getLast? = some (walkEnd a w) := by
  induction w generalizing a with
  | nil => rfl
  | cons e w ih =>
    rw [show walkNodes a (e :: w) = a :: walkNodes e.2 w from rfl, List.getLast?_cons, ih]
    rfl

theorem isChain_walkNodes {a : V} {w : List (EdgeKind × V)} (hw : G.IsWalk a w) :
    List.IsChain (fun a b => ∃ k, G.Edge k a b) (walkNodes a w) := by
  induction w generalizing a with
  | nil => exact List.isChain_singleton a
  | cons e w ih => exact List.isChain_cons_cons.mpr ⟨⟨e.1, hw.1⟩, ih hw.2⟩

theorem exists_walk : ∀ {a : V} {r : List V},
    List.IsChain (fun a b => ∃ k, G.Edge k a b) (a :: r) →
      ∃ w, G.IsWalk a w ∧ walkNodes a w = a :: r
  | a, [], _ => ⟨[], trivial, rfl⟩
  | a, b :: r, h => by
    obtain ⟨⟨k, hk⟩, h'⟩ := List.isChain_cons_cons.mp h
    obtain ⟨w, hw, hn⟩ := exists_walk h'
    exact ⟨(k, b) :: w, ⟨hk, hw⟩, congrArg (a :: ·) hn⟩

/-- **A walk is active iff every triple passes.** -/
theorem active_iff_triples (hG : G.Single) : ∀ {a : V} {w : List (EdgeKind × V)}, G.IsWalk a w →
    (G.Active Z w ↔ ∀ t ∈ windows3 (walkNodes a w), G.TriplePasses Z t)
  | a, [], _ => iff_of_true trivial fun t ht => absurd ht List.not_mem_nil
  | a, [_], _ => iff_of_true trivial fun t ht => absurd ht List.not_mem_nil
  | a, (k, v) :: (l, b) :: w, hw => by
    have ih := active_iff_triples hG hw.2
    have hcons : windows3 (walkNodes a ((k, v) :: (l, b) :: w)) =
        (a, v, b) :: windows3 (walkNodes v ((l, b) :: w)) := rfl
    rw [hcons, List.forall_mem_cons, ← ih]
    refine and_congr_left fun _ => ⟨fun hp => ⟨k, l, hw.1, hw.2.1, hp⟩, ?_⟩
    rintro ⟨k', l', hk, hl, hp⟩
    rwa [hG k' k a v hk hw.1, hG l' l v b hl hw.2.1] at hp

/-- **m-connection in terms of node lists.** -/
theorem mConnecting_iff_triples (hG : G.Single) {x y : V} : G.MConnecting Z x y ↔
    ∃ p : List V, List.IsChain (fun a b => ∃ k, G.Edge k a b) p ∧ p.Nodup ∧ p.head? = some x ∧
      p.getLast? = some y ∧ ∀ t ∈ windows3 p, G.TriplePasses Z t := by
  constructor
  · rintro ⟨w, hw, rfl, hnd, hact⟩
    exact ⟨walkNodes x w, isChain_walkNodes hw, hnd, rfl, getLast?_walkNodes x w,
      (active_iff_triples hG hw).mp hact⟩
  · rintro ⟨p, hchain, hnd, hhead, hlast, hpass⟩
    cases p with
    | nil => exact absurd hhead (by simp)
    | cons a r =>
      obtain rfl := Option.some.inj hhead
      obtain ⟨w, hw, hn⟩ := exists_walk hchain
      rw [← hn] at hnd hlast hpass
      exact ⟨w, hw, Option.some.inj ((getLast?_walkNodes a w).symm.trans hlast), hnd,
        (active_iff_triples hG hw).mpr hpass⟩

end MixedGraph

end Antecedent.Mixed
