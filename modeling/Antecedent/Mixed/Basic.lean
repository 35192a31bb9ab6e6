import Mathlib.Data.List.Duplicate
import Mathlib.Order.CompletePartialOrder

/-!
# Mixed graphs, m-connecting paths and the ball

A mixed graph has directed and bidirected edges over an arbitrary type of nodes. A bidirected edge
has an arrowhead at both ends.

* `MConnecting`: the path criterion. A path visits no node twice, every non-collider inside it is
  outside `Z`, and every collider inside it is in `Z` or has a directed descendant in `Z`.
* `Ball`: the reachability criterion. A ball at `v` remembers whether it arrived through an
  arrowhead at `v`, and leaves `v` along an edge under the same condition a path puts on `v`.
* `ball_iff_walk`: the ball reaches a node iff a walk, nodes repeated or not, is active.
* `walk_shorten`: an active walk between nodes outside `Z` shortens to an m-connecting path when
  the directed edges are acyclic. A loop at `v` is cut out; when that makes `v` a collider, the
  directed path the loop started with ends in a collider of the loop, so `v` has a descendant
  in `Z`.
* `ball_iff_mConnecting`: hence the two criteria agree.
-/

namespace Antecedent.Mixed

open Relation

/-- Directed and bidirected edges over `V`. -/
@[ext]
structure MixedGraph (V : Type*) where
  dir : V → V → Prop
  bi : V → V → Prop
  bi_symm : ∀ {a b}, bi a b → bi b a

/-- How an edge from `a` to `b` is traversed: `a → b`, `a ← b` or `a ↔ b`. -/
inductive EdgeKind
  | fwd
  | bwd
  | bi

namespace EdgeKind

/-- Arrowhead at the end the edge is traversed from. -/
def headL : EdgeKind → Bool
  | fwd => false
  | bwd => true
  | bi => true

/-- Arrowhead at the end the edge is traversed to. -/
def headR : EdgeKind → Bool
  | fwd => true
  | bwd => false
  | bi => true

/-- The same edge traversed the other way. -/
def flip : EdgeKind → EdgeKind
  | fwd => bwd
  | bwd => fwd
  | bi => bi

@[simp] theorem headL_flip (k : EdgeKind) : k.flip.headL = k.headR := by cases k <;> rfl

@[simp] theorem headR_flip (k : EdgeKind) : k.flip.headR = k.headL := by cases k <;> rfl

end EdgeKind

namespace MixedGraph

variable {V : Type*} (G : MixedGraph V)

/-- `a` and `b` are joined by an edge traversed as `k`. -/
def Edge : EdgeKind → V → V → Prop
  | .fwd, a, b => G.dir a b
  | .bwd, a, b => G.dir b a
  | .bi, a, b => G.bi a b

/-- `a` is `b` or a directed ancestor of `b`. -/
abbrev Anc : V → V → Prop := ReflTransGen G.dir

/-- The nodes with a directed descendant in `Z`, those of `Z` included. -/
def AncSet (Z : Set V) : Set V := {v | ∃ z ∈ Z, G.Anc v z}

/-- No directed cycle. -/
def Acyclic : Prop := ∀ v, ¬ TransGen G.dir v v

/-- The condition a path puts on an inner node `v`: a collider needs a descendant in `Z`, a
non-collider must be outside `Z`. -/
def Passes (Z : Set V) (collider : Bool) (v : V) : Prop :=
  if collider then v ∈ G.AncSet Z else v ∉ Z

/-- The steps traverse edges of `G`, starting at `a`. -/
def IsWalk : V → List (EdgeKind × V) → Prop
  | _, [] => True
  | a, (k, b) :: w => G.Edge k a b ∧ IsWalk b w

/-- Every inner node of the walk passes. -/
def Active (Z : Set V) : List (EdgeKind × V) → Prop
  | (k, v) :: (l, w) :: s => G.Passes Z (k.headR && l.headL) v ∧ Active Z ((l, w) :: s)
  | _ => True

/-- The last node of a walk from `a`. -/
def walkEnd : V → List (EdgeKind × V) → V
  | a, [] => a
  | _, (_, b) :: w => walkEnd b w

/-- The nodes of a walk from `a`, in order. -/
def walkNodes (a : V) (w : List (EdgeKind × V)) : List V := a :: w.map Prod.snd

/-- An m-connecting path from `a` to `b` given `Z`. -/
structure MConnectingPath (Z : Set V) (a b : V) (w : List (EdgeKind × V)) : Prop where
  isWalk : G.IsWalk a w
  ends : walkEnd a w = b
  nodup : (walkNodes a w).Nodup
  active : G.Active Z w

def MConnecting (Z : Set V) (a b : V) : Prop := ∃ w, G.MConnectingPath Z a b w

/-- The ball released at the sources: `Ball Z S v h` says it reaches `v`, through an arrowhead at
`v` iff `h`. A source counts as reached from a child. -/
inductive Ball (Z S : Set V) : V → Bool → Prop
  | source {v} : v ∈ S → Ball Z S v false
  | step {v w h} {k : EdgeKind} : Ball Z S v h → G.Passes Z (h && k.headL) v → G.Edge k v w →
      Ball Z S w k.headR

variable {G} {Z S : Set V}

variable {k : EdgeKind} {a b v : V} {s t w : List (EdgeKind × V)} {i : Bool}

theorem Edge.symm (h : G.Edge k a b) : G.Edge k.flip b a := by
  cases k with
  | fwd => exact h
  | bwd => exact h
  | bi => exact G.bi_symm h

theorem passes_collider : G.Passes Z true v ↔ v ∈ G.AncSet Z := by
  unfold Passes; simp

theorem passes_noncollider : G.Passes Z false v ↔ v ∉ Z := by
  unfold Passes; simp

theorem mem_ancSet_of_mem (h : v ∈ Z) : v ∈ G.AncSet Z :=
  ⟨v, h, ReflTransGen.refl⟩

theorem ancSet_of_anc (h : G.Anc a b) (hb : b ∈ G.AncSet Z) : a ∈ G.AncSet Z := by
  obtain ⟨z, hz, hbz⟩ := hb
  exact ⟨z, hz, h.trans hbz⟩

theorem ancSet_of_dir (h : G.dir a b) (hb : b ∈ G.AncSet Z) : a ∈ G.AncSet Z :=
  ancSet_of_anc (ReflTransGen.single h) hb

theorem ancSet_mono {Z' : Set V} (h : Z ⊆ Z') : G.AncSet Z ⊆ G.AncSet Z' := by
  rintro v ⟨z, hz, hv⟩
  exact ⟨z, h hz, hv⟩

/-! ## Walks -/

@[simp] theorem walkEnd_append (a : V) (s t : List (EdgeKind × V)) :
    walkEnd a (s ++ t) = walkEnd (walkEnd a s) t := by
  induction s generalizing a with
  | nil => rfl
  | cons e s ih => exact ih e.2

theorem walkEnd_snoc (a : V) (s : List (EdgeKind × V)) (k : EdgeKind) (v : V) :
    walkEnd a (s ++ [(k, v)]) = v := by
  rw [walkEnd_append]; rfl

theorem isWalk_append :
    G.IsWalk a (s ++ t) ↔ G.IsWalk a s ∧ G.IsWalk (walkEnd a s) t := by
  induction s generalizing a with
  | nil => simp [IsWalk, walkEnd]
  | cons e s ih =>
    obtain ⟨k, v⟩ := e
    simp only [List.cons_append, IsWalk, walkEnd, ih, and_assoc]

theorem Active.tail {e : EdgeKind × V} (h : G.Active Z (e :: w)) :
    G.Active Z w := by
  cases w with
  | nil => trivial
  | cons f w => exact h.2

theorem active_append_right (h : G.Active Z (s ++ t)) :
    G.Active Z t := by
  induction s with
  | nil => exact h
  | cons e s ih => exact ih h.tail

theorem active_append_left (h : G.Active Z (s ++ t)) :
    G.Active Z s := by
  induction s with
  | nil => trivial
  | cons e s ih =>
    cases s with
    | nil => trivial
    | cons f s => exact ⟨h.1, ih h.2⟩

/-- The condition at the node where two walks meet. -/
theorem active_junction {l : EdgeKind} {w : V} :
    G.Active Z (s ++ (k, v) :: (l, w) :: t) ↔
      G.Active Z (s ++ [(k, v)]) ∧ G.Passes Z (k.headR && l.headL) v ∧
        G.Active Z ((l, w) :: t) := by
  induction s with
  | nil => simp [Active]
  | cons e s ih =>
    cases s with
    | nil =>
      simp only [List.nil_append, List.cons_append, Active, and_true]
    | cons f s =>
      simp only [List.cons_append, Active] at ih ⊢
      rw [ih, and_assoc]

/-! ## The ball and active walks -/

theorem ball_of_walk {a : V} {h : Bool} (hb : G.Ball Z S a h) :
    ∀ {k : EdgeKind} {v : V} {w : List (EdgeKind × V)}, G.IsWalk a ((k, v) :: w) →
      G.Passes Z (h && k.headL) a → G.Active Z ((k, v) :: w) →
      ∃ h', G.Ball Z S (walkEnd v w) h'
  | k, v, [], hw, hp, _ => ⟨k.headR, hb.step hp hw.1⟩
  | k, v, (l, x) :: w, hw, hp, hact => by
    show ∃ h', G.Ball Z S (walkEnd x w) h'
    exact ball_of_walk (hb.step hp hw.1) hw.2 hact.1 hact.2

/-- The state the ball is in at the end of a walk: a source after the empty walk, the last
arrowhead otherwise. -/
def endHead : List (EdgeKind × V) → Bool
  | [] => false
  | [(k, _)] => k.headR
  | _ :: e :: w => endHead (e :: w)

theorem endHead_snoc (s : List (EdgeKind × V)) (k : EdgeKind) (v : V) :
    endHead (s ++ [(k, v)]) = k.headR := by
  induction s with
  | nil => rfl
  | cons e s ih =>
    cases s with
    | nil => rfl
    | cons f s => exact ih

theorem active_snoc (hs : G.Active Z s)
    (hp : s = [] ∨ G.Passes Z (endHead s && k.headL) (walkEnd a s)) :
    G.Active Z (s ++ [(k, v)]) := by
  rcases List.eq_nil_or_concat' s with rfl | ⟨t, ⟨l, u⟩, rfl⟩
  · trivial
  · rw [List.append_assoc, List.singleton_append, active_junction]
    rcases hp with hp | hp
    · exact absurd hp (by simp)
    · rw [endHead_snoc, walkEnd_snoc] at hp
      exact ⟨hs, hp, trivial⟩

theorem walk_of_ball {h : Bool} (hb : G.Ball Z S v h) :
    ∃ a ∈ S, ∃ w, G.IsWalk a w ∧ walkEnd a w = v ∧ G.Active Z w ∧ endHead w = h ∧
      (w ≠ [] → a ∉ Z) := by
  induction hb with
  | source hs => exact ⟨_, hs, [], trivial, rfl, trivial, rfl, fun hc => absurd rfl hc⟩
  | @step v x h k _ hp he ih =>
    obtain ⟨a, ha, w, hw, hend, hact, hh, hz⟩ := ih
    refine ⟨a, ha, w ++ [(k, x)], ?_, walkEnd_snoc _ _ _ _, ?_, endHead_snoc _ _ _, fun _ => ?_⟩
    · rw [isWalk_append, hend]
      exact ⟨hw, he, trivial⟩
    · refine active_snoc (a := a) hact (Or.inr ?_)
      rw [hh, hend]
      exact hp
    · by_cases hnil : w = []
      · subst hnil
        obtain rfl : a = v := hend
        obtain rfl : false = h := hh
        rw [Bool.false_and, passes_noncollider] at hp
        exact hp
      · exact hz hnil

/-! ## Shortening an active walk -/

/-- A walk that leaves `a` through a tail is directed all the way, or has a descendant of `a` in
`Z`: the first arrowhead against the direction makes a collider. -/
theorem directed_or_open {a v : V} : ∀ {k : EdgeKind} {w : List (EdgeKind × V)},
    k.headL = false → G.IsWalk a ((k, v) :: w) → G.Active Z ((k, v) :: w) →
    (TransGen G.dir a (walkEnd v w) ∧ endHead ((k, v) :: w) = true) ∨ a ∈ G.AncSet Z
  | .bwd, _, hk, _, _ => absurd hk (by decide)
  | .bi, _, hk, _, _ => absurd hk (by decide)
  | .fwd, [], _, hw, _ => Or.inl ⟨TransGen.single hw.1, rfl⟩
  | .fwd, (l, x) :: w, _, hw, hact => by
    have hav : G.dir a v := hw.1
    cases hl : l.headL with
    | true =>
      have hp := hact.1
      rw [hl] at hp
      exact Or.inr (ancSet_of_dir hav (passes_collider.mp hp))
    | false =>
      rcases directed_or_open hl hw.2 hact.2 with ⟨h1, h2⟩ | h
      · exact Or.inl ⟨TransGen.head hav h1, h2⟩
      · exact Or.inr (ancSet_of_dir hav h)

/-- The condition a loop from `v` back to `v` leaves on `v`: entered with mark `i` and left with
mark `o`, the node passes once the loop is gone. -/
theorem passes_without_loop (hac : G.Acyclic) {u : V}
    {o : Bool} (hw : G.IsWalk v ((k, u) :: w)) (hend : walkEnd u w = v)
    (hact : G.Active Z ((k, u) :: w)) (hin : G.Passes Z (i && k.headL) v)
    (hout : G.Passes Z (endHead ((k, u) :: w) && o) v) : G.Passes Z (i && o) v := by
  cases i with
  | false => rwa [Bool.false_and] at hin ⊢
  | true =>
    cases o with
    | false => rwa [Bool.and_false] at hout ⊢
    | true =>
      rw [Bool.true_and] at hin ⊢
      cases hk : k.headL with
      | true => rwa [hk] at hin
      | false =>
        rcases directed_or_open hk hw hact with ⟨h, -⟩ | h
        · rw [hend] at h
          exact absurd h (hac v)
        · exact passes_collider.mpr h

theorem exists_two_visits {α : Type*} {x : α} {l : List α} (h : List.Duplicate x l) :
    ∃ p q r, l = p ++ x :: (q ++ x :: r) := by
  induction h with
  | cons_mem hm =>
    obtain ⟨q, r, rfl⟩ := List.append_of_mem hm
    exact ⟨[], q, r, rfl⟩
  | @cons_duplicate y _ _ ih =>
    obtain ⟨p, q, r, rfl⟩ := ih
    exact ⟨y :: p, q, r, rfl⟩

/-- A walk that visits a node twice splits at the two visits. -/
theorem exists_loop (h : ¬ (walkNodes a w).Nodup) :
    ∃ s t r, w = s ++ (t ++ r) ∧ t ≠ [] ∧ walkEnd (walkEnd a s) t = walkEnd a s := by
  obtain ⟨x, hdup⟩ := List.exists_duplicate_iff_not_nodup.mpr h
  obtain ⟨p, q, r, he⟩ := exists_two_visits hdup
  cases p with
  | nil =>
    simp only [walkNodes, List.nil_append, List.cons.injEq] at he
    obtain ⟨rfl, he⟩ := he
    obtain ⟨t, r', rfl, -, ht⟩ := List.map_eq_append_iff.mp he
    obtain ⟨e, r'', rfl, hx, -⟩ := List.map_eq_cons_iff.mp ht
    refine ⟨[], t ++ [e], r'', by simp, by simp, ?_⟩
    rw [show e = (e.1, e.2) from rfl, walkEnd_snoc]
    exact hx
  | cons b p =>
    simp only [walkNodes, List.cons_append, List.cons.injEq] at he
    obtain ⟨rfl, he⟩ := he
    obtain ⟨s, r', rfl, -, hs⟩ := List.map_eq_append_iff.mp he
    obtain ⟨e, r'', rfl, hx, hr⟩ := List.map_eq_cons_iff.mp hs
    obtain ⟨t, u, rfl, -, ht⟩ := List.map_eq_append_iff.mp hr
    obtain ⟨f, u', rfl, hx', -⟩ := List.map_eq_cons_iff.mp ht
    refine ⟨s ++ [e], t ++ [f], u', by simp, by simp, ?_⟩
    rw [show f = (f.1, f.2) from rfl, walkEnd_snoc, show e = (e.1, e.2) from rfl, walkEnd_snoc,
      hx, hx']

theorem active_cut (hac : G.Acyclic) {r : List (EdgeKind × V)}
    (hw : G.IsWalk a (s ++ (t ++ r))) (hloop : walkEnd (walkEnd a s) t = walkEnd a s)
    (hact : G.Active Z (s ++ (t ++ r))) : G.Active Z (s ++ r) := by
  obtain ⟨hws, hwt⟩ := isWalk_append.mp hw
  have hwt' := (isWalk_append.mp hwt).1
  have hr : G.Active Z r := active_append_right (active_append_right hact)
  rcases List.eq_nil_or_concat' s with rfl | ⟨s', ⟨i, v⟩, rfl⟩
  · exact hr
  cases r with
  | nil =>
    rw [List.append_nil]
    exact active_append_left hact
  | cons e r =>
    obtain ⟨o, x⟩ := e
    cases t with
    | nil => exact hact
    | cons f t =>
      obtain ⟨k, u⟩ := f
      rw [walkEnd_snoc] at hloop hwt'
      rw [List.append_assoc, List.singleton_append, List.cons_append, active_junction] at hact
      obtain ⟨hs, hin, hmid⟩ := hact
      rw [List.append_assoc, List.singleton_append, active_junction]
      refine ⟨hs, ?_, hr⟩
      have hback : walkEnd u t = v := hloop
      have hact' : G.Active Z ((k, u) :: t) :=
        active_append_left (t := (o, x) :: r) hmid
      refine passes_without_loop hac hwt' hback hact' hin ?_
      -- the mark with which the loop comes back to `v`
      rcases List.eq_nil_or_concat' t with rfl | ⟨t', ⟨l, y⟩, rfl⟩
      · obtain rfl : u = v := hback
        exact hmid.1
      · rw [walkEnd_snoc] at hback
        subst hback
        rw [← List.cons_append, endHead_snoc]
        rw [List.append_assoc, List.singleton_append, ← List.cons_append, active_junction] at hmid
        exact hmid.2.1

/-- **An active walk shortens to an m-connecting path.** -/
theorem walk_shorten (hac : G.Acyclic) : ∀ (n : Nat) (w : List (EdgeKind × V)),
    w.length ≤ n → G.IsWalk a w → walkEnd a w = b → G.Active Z w → G.MConnecting Z a b := by
  intro n
  induction n with
  | zero =>
    intro w hn hw he hact
    obtain rfl := List.length_eq_zero_iff.mp (Nat.le_zero.mp hn)
    exact ⟨[], hw, he, List.nodup_singleton a, hact⟩
  | succ n ih =>
    intro w hn hw he hact
    by_cases hnd : (walkNodes a w).Nodup
    · exact ⟨w, hw, he, hnd, hact⟩
    · obtain ⟨s, t, r, rfl, ht, hloop⟩ := exists_loop hnd
      have hlen := List.length_pos_iff.mpr ht
      simp only [List.length_append] at hn
      obtain ⟨hws, hwt⟩ := isWalk_append.mp hw
      obtain ⟨-, hwr⟩ := isWalk_append.mp hwt
      rw [hloop] at hwr
      refine ih (s ++ r) ?_ (isWalk_append.mpr ⟨hws, hwr⟩) ?_ (active_cut hac hw hloop hact)
      · rw [List.length_append]; omega
      · rw [walkEnd_append, walkEnd_append, hloop] at he
        rw [walkEnd_append, he]

/-- **The ball reaches a target iff a path from a source is m-connecting.** -/
theorem ball_iff_mConnecting (hac : G.Acyclic) (hS : ∀ a ∈ S, a ∉ Z) :
    (∃ h, G.Ball Z S b h) ↔ ∃ a ∈ S, G.MConnecting Z a b := by
  constructor
  · rintro ⟨h, hb⟩
    obtain ⟨a, ha, w, hw, he, hact, -, -⟩ := walk_of_ball hb
    exact ⟨a, ha, walk_shorten hac w.length w (Nat.le_refl _) hw he hact⟩
  · rintro ⟨a, ha, w, hw, he, -, hact⟩
    cases w with
    | nil =>
      obtain rfl : a = b := he
      exact ⟨false, Ball.source ha⟩
    | cons e w =>
      obtain ⟨k, v⟩ := e
      obtain rfl : walkEnd v w = b := he
      exact ball_of_walk (Ball.source ha) hw (by
        rw [Bool.false_and, passes_noncollider]
        exact hS a ha) hact

theorem ball_mono_source {S' : Set V} (h : S ⊆ S') (hb : G.Ball Z S v i) :
    G.Ball Z S' v i := by
  induction hb with
  | source hs => exact Ball.source (h hs)
  | step _ hp he ih => exact ih.step hp he

theorem ball_singleton (hb : G.Ball Z S v i) : ∃ a ∈ S, G.Ball Z {a} v i := by
  induction hb with
  | source hs => exact ⟨_, hs, Ball.source rfl⟩
  | step _ hp he ih =>
    obtain ⟨a, ha, ih⟩ := ih
    exact ⟨a, ha, ih.step hp he⟩

end MixedGraph

end Antecedent.Mixed
