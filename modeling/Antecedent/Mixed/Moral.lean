import Antecedent.Mixed.Basic

/-!
# The moral graph of an ancestral set

The moral graph over a set `A` joins two nodes when both lie in `C ∪ pa(C)` for one district `C` of
the bidirected edges inside `A`. Over `A = An(S ∪ T ∪ Z)` undirected reachability around `Z` in it
is the same relation as m-connection.

* `moral_of_ball`: along an active walk every node is in `A`, and the last non-collider of the walk
  is joined to the current node by colliders only, so the non-colliders form a path in the moral
  graph.
* `ball_of_moral`: a moral edge expands to a walk through colliders that are in `A` but perhaps
  have no descendant in `Z`. Such a collider is an ancestor of a source or of a target, and the
  ball gets around it (`relay`): it comes up to it from the source, or runs down to the target.
* `ball_iff_moral`: hence the two agree, and m-connection is symmetric (`MConnecting.symm`).
-/

namespace Antecedent.Mixed.MixedGraph

open Relation

variable {V : Type*} (G : MixedGraph V)

/-- Joined by bidirected edges between nodes of `A`. -/
abbrev District (A : Set V) : V → V → Prop :=
  ReflTransGen fun a b => a ∈ A ∧ b ∈ A ∧ G.bi a b

/-- `a` is `c` or a parent of `c`. -/
def Into (a c : V) : Prop := a = c ∨ G.dir a c

/-- The moral graph over `A`: `a` and `b` lie in `C ∪ pa(C)` for one district `C` of `A`. -/
structure MoralAdj (A : Set V) (a b : V) : Prop where
  ne : a ≠ b
  left_mem : a ∈ A
  right_mem : b ∈ A
  joined : ∃ c d, c ∈ A ∧ G.Into a c ∧ G.District A c d ∧ G.Into b d

/-- Reachability in the moral graph over `A` that never enters `Z`. -/
abbrev MoralReach (A Z : Set V) : V → V → Prop :=
  ReflTransGen fun a b => G.MoralAdj A a b ∧ b ∉ Z

variable {G} {A S T Z : Set V}

variable {a b s v w t : V} {h : Bool} {k : EdgeKind}

theorem District.symm (h : G.District A a b) : G.District A b a := by
  induction h with
  | refl => exact ReflTransGen.refl
  | tail _ hbc ih => exact ih.head ⟨hbc.2.1, hbc.1, G.bi_symm hbc.2.2⟩

theorem District.mem (h : G.District A a b) (ha : a ∈ A) : b ∈ A := by
  induction h with
  | refl => exact ha
  | tail _ hbc _ => exact hbc.2.1

theorem MoralAdj.symm {a b : V} (h : G.MoralAdj A a b) : G.MoralAdj A b a := by
  obtain ⟨c, d, hc, ha, hcd, hb⟩ := h.joined
  exact ⟨h.ne.symm, h.right_mem, h.left_mem, d, c, hcd.mem hc, hb, hcd.symm, ha⟩

/-! ## From the ball to the moral graph -/

theorem mem_anc_of_walk {a : V} : ∀ {w : List (EdgeKind × V)}, G.IsWalk a w → walkEnd a w ∈ T →
    (∀ k v w', w = (k, v) :: w' → G.Passes Z k.headL a) → G.Active Z w →
    a ∈ G.AncSet (S ∪ T ∪ Z)
  | [], _, he, _, _ => mem_ancSet_of_mem (Or.inl (Or.inr he))
  | (.fwd, v) :: w, hw, he, _, hact => by
    refine ancSet_of_dir hw.1 (mem_anc_of_walk hw.2 he ?_ hact.tail)
    rintro k x w' rfl
    exact hact.1
  | (.bwd, v) :: w, _, _, hp, _ =>
    ancSet_mono (by intro z hz; exact Or.inr hz) (passes_collider.mp (hp _ _ _ rfl))
  | (.bi, v) :: w, _, _, hp, _ =>
    ancSet_mono (by intro z hz; exact Or.inr hz) (passes_collider.mp (hp _ _ _ rfl))

/-- What the walk so far says about its current node: some node `u` outside `Z`, already reached in
the moral graph, is joined to it through colliders. -/
def Linked (A Z : Set V) (s v : V) (h : Bool) : Prop :=
  ∃ u c d, G.MoralReach A Z s u ∧ u ∈ A ∧ c ∈ A ∧ G.Into u c ∧ G.District A c d ∧ G.Into v d ∧
    (h = true → d = v)

/-- A linked node outside `Z` is reached in the moral graph. -/
theorem Linked.reach (hl : G.Linked A Z s v h) (hv : v ∈ A) (hz : v ∉ Z) :
    G.MoralReach A Z s v := by
  obtain ⟨u, c, d, hr, hu, hc, huc, hcd, hvd, -⟩ := hl
  by_cases huv : u = v
  · exact huv ▸ hr
  · exact hr.tail ⟨⟨huv, hu, hv, c, d, hc, huc, hcd, hvd⟩, hz⟩

/-- The link at the next node, when the walk passes a non-collider: that node is the new `u`. -/
theorem linked_of_reach (hr : G.MoralReach A Z s v) (hv : v ∈ A)
    (hw : w ∈ A) (he : G.Edge k v w) : G.Linked A Z s w k.headR := by
  cases k with
  | fwd => exact ⟨v, w, w, hr, hv, hw, Or.inr he, .refl, Or.inl rfl, fun _ => rfl⟩
  | bwd =>
    exact ⟨v, v, v, hr, hv, hv, Or.inl rfl, .refl, Or.inr he, fun h => absurd h Bool.false_ne_true⟩
  | bi => exact ⟨v, v, w, hr, hv, hv, Or.inl rfl, .single ⟨hv, hw, he⟩, Or.inl rfl, fun _ => rfl⟩

theorem Linked.through (hl : G.Linked A Z s v true) (hv : v ∈ A)
    (hw : w ∈ A) (hk : k.headL = true) (he : G.Edge k v w) : G.Linked A Z s w k.headR := by
  obtain ⟨u, c, d, hr, hu, hc, huc, hcd, -, hd⟩ := hl
  obtain rfl := hd rfl
  cases k with
  | fwd => exact absurd hk Bool.false_ne_true
  | bwd =>
    exact ⟨u, c, d, hr, hu, hc, huc, hcd, Or.inr he, fun h => absurd h Bool.false_ne_true⟩
  | bi => exact ⟨u, c, w, hr, hu, hc, huc, hcd.tail ⟨hv, hw, he⟩, Or.inl rfl, fun _ => rfl⟩

theorem linked_walk {s a : V} (hA : A = G.AncSet (S ∪ T ∪ Z)) (hT : ∀ t ∈ T, t ∉ Z) :
    ∀ {h : Bool} {w : List (EdgeKind × V)}, G.Linked A Z s a h → a ∈ A → G.IsWalk a w →
      walkEnd a w ∈ T → (∀ k v w', w = (k, v) :: w' → G.Passes Z (h && k.headL) a) →
      G.Active Z w → ∃ t ∈ T, G.MoralReach A Z s t
  | _, [], hl, ha, _, he, _, _ => ⟨a, he, hl.reach ha (hT a he)⟩
  | h, (k, v) :: w, hl, ha, hw, he, hp, hact => by
    have hnext : ∀ l x w', w = (l, x) :: w' → G.Passes Z (k.headR && l.headL) v := by
      rintro l x w' rfl
      exact hact.1
    have hv : v ∈ A := by
      cases k with
      | fwd => exact hA ▸ mem_anc_of_walk hw.2 he hnext hact.tail
      | bwd => exact hA ▸ ancSet_of_dir hw.1 (hA ▸ ha)
      | bi => exact hA ▸ mem_anc_of_walk hw.2 he hnext hact.tail
    have hpass := hp k v w rfl
    refine linked_walk hA hT (s := s) (a := v) (h := k.headR) ?_ hv hw.2 he hnext hact.tail
    cases hc : (h && k.headL) with
    | false =>
      rw [hc, passes_noncollider] at hpass
      exact linked_of_reach (hl.reach ha hpass) ha hv hw.1
    | true =>
      rw [Bool.and_eq_true] at hc
      obtain ⟨rfl, hk⟩ := hc
      exact hl.through ha hv hk hw.1

/-- **An active walk gives a path around `Z` in the moral graph.** -/
theorem moral_of_ball (hS : ∀ s ∈ S, s ∉ Z) (hT : ∀ t ∈ T, t ∉ Z) (ht : t ∈ T)
    (hb : G.Ball Z S t h) :
    ∃ s ∈ S, ∃ t ∈ T, G.MoralReach (G.AncSet (S ∪ T ∪ Z)) Z s t := by
  obtain ⟨s, hs, w, hw, he, hact, -, -⟩ := walk_of_ball hb
  have hsA : s ∈ G.AncSet (S ∪ T ∪ Z) := mem_ancSet_of_mem (Or.inl (Or.inl hs))
  refine ⟨s, hs, linked_walk rfl hT (h := false) ?_ hsA hw (he ▸ ht) ?_ hact⟩
  · exact ⟨s, s, s, .refl, hsA, hsA, Or.inl rfl, .refl, Or.inl rfl, fun _ => rfl⟩
  · intro k v w' _
    rw [Bool.false_and, passes_noncollider]
    exact hS s hs

/-! ## From the moral graph to the ball -/

/-- The ball climbs from a source to an ancestor with no descendant in `Z`. -/
theorem ball_up (hs : s ∈ S) (ha : G.Anc v s) (hv : v ∉ G.AncSet Z) :
    G.Ball Z S v false := by
  induction ha using ReflTransGen.head_induction_on with
  | refl => exact Ball.source hs
  | @head a c hac hcs ih =>
    have hc : c ∉ G.AncSet Z := fun hc => hv (ancSet_of_dir hac hc)
    have hcz : c ∉ Z := fun h => hc (mem_ancSet_of_mem h)
    exact Ball.step (k := .bwd) (ih hc) (by
      rw [Bool.false_and, passes_noncollider]
      exact hcz) hac

/-- The ball runs down to a descendant, from a node with no descendant in `Z`. -/
theorem ball_down (hb : G.Ball Z S v h) (ha : G.Anc v t)
    (hv : v ∉ G.AncSet Z) : ∃ h', G.Ball Z S t h' := by
  induction ha using ReflTransGen.head_induction_on generalizing h with
  | refl => exact ⟨h, hb⟩
  | @head a c hac _ ih =>
    have haz : a ∉ Z := fun hz => hv (mem_ancSet_of_mem hz)
    refine ih (hb.step (k := .fwd) ?_ hac) fun hc => hv (ancSet_of_dir hac hc)
    rw [show EdgeKind.fwd.headL = false from rfl, Bool.and_false, passes_noncollider]
    exact haz

/-- **Getting around a collider.** The ball at a node of the ancestral set leaves it through an
arrowhead, or has reached a target. -/
theorem relay (hb : G.Ball Z S v h) (hv : v ∈ G.AncSet (S ∪ T ∪ Z)) (hz : h = true ∨ v ∉ Z) :
    (∃ t ∈ T, ∃ h', G.Ball Z S t h') ∨
      ∀ k w, k.headL = true → G.Edge k v w → G.Ball Z S w k.headR := by
  by_cases hvZ : v ∈ G.AncSet Z
  · right
    intro k w hk he
    refine hb.step ?_ he
    rw [hk, Bool.and_true]
    cases h with
    | true => exact passes_collider.mpr hvZ
    | false => exact passes_noncollider.mpr (hz.resolve_left Bool.false_ne_true)
  · obtain ⟨x, (hx | hx) | hx, hvx⟩ := hv
    · right
      intro k w _ he
      refine (ball_up hx hvx hvZ).step ?_ he
      rw [Bool.false_and, passes_noncollider]
      exact fun hz => hvZ (mem_ancSet_of_mem hz)
    · exact Or.inl ⟨x, hx, ball_down hb hvx hvZ⟩
    · exact absurd ⟨x, hx, hvx⟩ hvZ

theorem ball_district {c d : V} (hc : G.Ball Z S c true)
    (h : G.District (G.AncSet (S ∪ T ∪ Z)) c d) :
    (∃ t ∈ T, ∃ h', G.Ball Z S t h') ∨ G.Ball Z S d true := by
  induction h with
  | refl => exact Or.inr hc
  | tail _ hbc ih =>
    rcases ih with ih | ih
    · exact Or.inl ih
    · rcases relay (T := T) ih hbc.1 (Or.inl rfl) with h | h
      · exact Or.inl h
      · exact Or.inr (h .bi _ rfl hbc.2.2)

theorem ball_moralAdj {u : V} (hb : G.Ball Z S u h) (hu : u ∉ Z)
    (hadj : G.MoralAdj (G.AncSet (S ∪ T ∪ Z)) u v) :
    (∃ t ∈ T, ∃ h', G.Ball Z S t h') ∨ ∃ h', G.Ball Z S v h' := by
  obtain ⟨c, d, hc, huc, hcd, hvd⟩ := hadj.joined
  -- arrive at the district, or leave `u` through an arrowhead when `u` is in it
  have leave : ∀ {x : V} {i : Bool}, G.Ball Z S x i → x ∈ G.AncSet (S ∪ T ∪ Z) →
      (i = true ∨ x ∉ Z) → G.District (G.AncSet (S ∪ T ∪ Z)) x d →
      (∃ t ∈ T, ∃ h', G.Ball Z S t h') ∨ ∃ h', G.Ball Z S v h' := by
    intro x i hx hxA hxz hxd
    have last : ∀ {y : V} {j : Bool}, G.Ball Z S y j → y ∈ G.AncSet (S ∪ T ∪ Z) →
        (j = true ∨ y ∉ Z) → y = d → (∃ t ∈ T, ∃ h', G.Ball Z S t h') ∨ ∃ h', G.Ball Z S v h' := by
      rintro y j hy hyA hyz rfl
      rcases hvd with rfl | hvd
      · exact Or.inr ⟨j, hy⟩
      · rcases relay (T := T) hy hyA hyz with h | h
        · exact Or.inl h
        · exact Or.inr ⟨_, h .bwd v rfl hvd⟩
    rcases ReflTransGen.cases_head hxd with rfl | ⟨y, hxy, hyd⟩
    · exact last hx hxA hxz rfl
    · rcases relay (T := T) hx hxA hxz with h | h
      · exact Or.inl h
      · rcases ball_district (T := T) (h .bi y rfl hxy.2.2) hyd with h | h
        · exact Or.inl h
        · exact last h (hcd.mem hc) (Or.inl rfl) rfl
  rcases huc with rfl | huc
  · exact leave hb hc (Or.inr hu) hcd
  · refine leave (hb.step (k := .fwd) ?_ huc) hc (Or.inl rfl) hcd
    rw [show EdgeKind.fwd.headL = false from rfl, Bool.and_false, passes_noncollider]
    exact hu

/-- **A path around `Z` in the moral graph carries the ball to a target.** -/
theorem ball_of_moral (hS : ∀ s ∈ S, s ∉ Z) (hs : s ∈ S) (ht : t ∈ T)
    (hr : G.MoralReach (G.AncSet (S ∪ T ∪ Z)) Z s t) : ∃ t ∈ T, ∃ h, G.Ball Z S t h := by
  have key : (∃ t ∈ T, ∃ h, G.Ball Z S t h) ∨ ((∃ h, G.Ball Z S t h) ∧ t ∉ Z) := by
    clear ht
    induction hr with
    | refl => exact Or.inr ⟨⟨false, Ball.source hs⟩, hS s hs⟩
    | tail _ hbc ih =>
      rcases ih with ih | ⟨⟨h, ih⟩, hz⟩
      · exact Or.inl ih
      · rcases ball_moralAdj ih hz hbc.1 with h | h
        · exact Or.inl h
        · exact Or.inr ⟨h, hbc.2⟩
  rcases key with h | ⟨h, -⟩
  · exact h
  · exact ⟨t, ht, h⟩

/-- **The ball reaches a target iff the moral graph of the ancestral set joins a source to one
around `Z`.** -/
theorem ball_iff_moral (hS : ∀ s ∈ S, s ∉ Z) (hT : ∀ t ∈ T, t ∉ Z) :
    (∃ t ∈ T, ∃ h, G.Ball Z S t h) ↔
      ∃ s ∈ S, ∃ t ∈ T, G.MoralReach (G.AncSet (S ∪ T ∪ Z)) Z s t :=
  ⟨fun ⟨_, ht, _, hb⟩ => moral_of_ball hS hT ht hb,
    fun ⟨_, hs, _, ht, hr⟩ => ball_of_moral hS hs ht hr⟩

theorem MoralReach.symm {A : Set V} {a b : V} (h : G.MoralReach A Z a b) (ha : a ∉ Z) :
    G.MoralReach A Z b a := by
  induction h using ReflTransGen.head_induction_on with
  | refl => exact ReflTransGen.refl
  | head hab _ ih => exact (ih hab.2).tail ⟨hab.1.symm, ha⟩

/-- m-connection does not depend on the direction of travel. -/
theorem MConnecting.symm {x y : V} (h : G.MConnecting Z x y) (hac : G.Acyclic) (hx : x ∉ Z)
    (hy : y ∉ Z) : G.MConnecting Z y x := by
  have key : ∀ {a b : V}, a ∉ Z → b ∉ Z →
      (G.MConnecting Z a b ↔ G.MoralReach (G.AncSet ({a} ∪ {b} ∪ Z)) Z a b) := by
    intro a b ha hb
    have hS : ∀ s ∈ ({a} : Set V), s ∉ Z := by rintro s rfl; exact ha
    have hT : ∀ t ∈ ({b} : Set V), t ∉ Z := by rintro t rfl; exact hb
    have h1 := ball_iff_mConnecting (G := G) (S := {a}) (Z := Z) hac (b := b) hS
    have h2 := ball_iff_moral (G := G) (S := {a}) (T := {b}) (Z := Z) hS hT
    simp only [Set.mem_singleton_iff, exists_eq_left] at h1 h2
    exact h1.symm.trans h2
  rw [key hx hy] at h
  rw [key hy hx, Set.union_comm {y} {x}]
  exact h.symm hx

end Antecedent.Mixed.MixedGraph
