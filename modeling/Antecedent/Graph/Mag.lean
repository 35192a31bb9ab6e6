import Antecedent.Graph.Induced
import Antecedent.Graph.Insertion
import Antecedent.Graph.Pag
import Antecedent.Graph.Separation
import Antecedent.Mixed.Maximal

/-!
# Maximal ancestral graphs

Model of the local checks of `completion.rs` (lines 491-638), and of `Admg::strict_ancestor_sets`
(`admg.rs:462-481`): the ancestral-orientation check, the maximality test, the comparison of
unshielded colliders and the ADMG of a MAG.

* `isAncestralOrientation_iff`, `violates_of_refused`: the check says `true` exactly for ancestral
  marks; with open marks allowed, a `false` comes from edges whose marks are decided.

An `expect` that fails is an error of the model; the only one met is the node count `2^32`, which
`u32::try_from` refuses in `as_admg`.
-/

namespace Antecedent.Graph

open Mixed Relation
open Worklist

/-! ## The code -/

/-- `Endpoint::Circle | Endpoint::Conflict`. -/
def Endpoint.isOpen : Endpoint → Bool
  | .circle => true
  | .conflict => true
  | _ => false

/-- What `ancestral_up_to_open_marks` asks of one entry of the row of `a`. -/
def ancestralEntry (g : Pag) (allowOpen : Bool) (a : Nat) (e : Nat × Endpoint × Endpoint) : Bool :=
  let (b, atA, atB) := e
  if b < a then true
  else if atA.isOpen || atB.isOpen then allowOpen
  else if atA == .tail && atB == .tail then false
  else if atA == .arrow && atB == .arrow then !(g.reachesDirected a b || g.reachesDirected b a)
  else true

/-- `completion.rs:501-534`. -/
def ancestralUpToOpenMarks (g : Pag) (allowOpen : Bool) : Bool :=
  (List.range g.nodeCount).all fun a => (g.neighbors a).all (ancestralEntry g allowOpen a)

def isAncestralOrientation (g : Pag) : Bool := ancestralUpToOpenMarks g false

/-- One entry of the row of `a` in `as_admg`. -/
def asAdmgEdge (a : Nat) (admg : Admg) (e : Nat × Endpoint × Endpoint) : Except GraphError Admg :=
  if e.1 < a then .ok admg
  else
    match e.2.1, e.2.2 with
    | .tail, .arrow => admg.insertDirected a e.1
    | .arrow, .tail => admg.insertDirected e.1 a
    | .arrow, .arrow => admg.insertBidirected a e.1
    | _, _ => .error (.invalidEndpoints "validated directed MAG marks")

/-- `completion.rs:616-638`. -/
def asAdmg (g : Pag) : Except GraphError Admg :=
  if u32Max < g.nodeCount then .error .tooManyNodes
  else (List.range g.nodeCount).foldlM (fun admg a => (g.neighbors a).foldlM (asAdmgEdge a) admg)
    (Admg.withVariables g.nodeCount)

/-- What the sweep of `strict_ancestor_sets` does at a popped node `v`: each child takes the
ancestors of `v`, and `v`. -/
def ancestorsVisit : Kahn.Visit Nat (List (Finset Nat)) := fun v ancestors =>
  let done := ancestors.getD v ∅
  (ancestors, fun c ancestors => ancestors.modify c fun s => insert v (s ∪ done))

/-- `Admg::strict_ancestor_sets` (`admg.rs:462-481`); the node filled last into `ready` is popped
first. -/
def Admg.strictAncestorSets (g : Admg) : List (Finset Nat) :=
  let pending := fun v => (g.parents v).length
  let ready := ((List.range g.nodeCount).filter fun v => pending v == 0).reverse
  (Kahn.run g.children ancestorsVisit (g.nodeCount + 1)
    ⟨pending, ready, List.replicate g.nodeCount ∅⟩).acc

/-- `completion.rs:538-570`. -/
def isMaximalAncestralGraph (g : Pag) : Except GraphError Bool := do
  if !isAncestralOrientation g then return false
  let admg ← asAdmg g
  let ancestors := admg.strictAncestorSets
  (upperPairs g.nodeCount).allM fun (x, y) => do
    if g.hasEdge x y then return true
    let union := ((ancestors.getD x ∅ ∪ ancestors.getD y ∅).erase x).erase y
    admg.isMSeparated x y ((List.range g.nodeCount).filter fun v => decide (v ∈ union))

/-- The mark at `middle` on its edge to `node`; `expect("same skeleton")`. -/
def markAt (g : Pag) (middle node : Nat) : Except GraphError Endpoint :=
  match (g.neighbors middle).find? fun e => e.1 == node with
  | some e => .ok e.2.1
  | none => .error (.unknownNode node)

/-- `completion.rs:572-604`. -/
def preservesUnshieldedColliders (pag mag : Pag) : Except GraphError Bool :=
  (List.range pag.nodeCount).allM fun middle =>
    (pairsOf ((pag.neighbors middle).map fun e => (e.1, e.2.1))).allM
      fun ((left, pagLeft), (right, pagRight)) => do
        if pag.hasEdge left right then return true
        let magLeft ← markAt mag middle left
        let magRight ← markAt mag middle right
        return (pagLeft == .arrow && pagRight == .arrow) == (magLeft == .arrow && magRight == .arrow)

/-! ## What a MAG is -/

/-- Ancestral marks: only `→` and `↔`, no directed cycle and no almost directed one. -/
structure Look.Ancestral (L : Look) : Prop where
  marks : ∀ a b v, L a b = some v → L.Dir a b ∨ L.Dir b a ∨ L.Bi a b
  acyclic : ∀ v, ¬ TransGen L.Dir v v
  almost : ∀ a b, L.Bi a b → ¬ ReflTransGen L.Dir a b

/-- The marks of a maximal ancestral graph over `n` nodes: every missing edge is a separation. -/
structure Look.IsMag (n : Nat) (L : Look) : Prop extends L.Ancestral where
  mirrored : L.Mirrored
  maximal : ∀ a b, a < n → b < n → a ≠ b → L a b = none →
    (L.mixed mirrored).Separable {v | v < n} a b

/-- The unshielded colliders of two graphs over one skeleton agree. -/
def SameColliders (L L' : Look) : Prop :=
  ∀ l c r v w v' w', l ≠ r → L c l = some v → L c r = some w → L l r = none →
    L' c l = some v' → L' c r = some w' →
    ((v.1 = .arrow ∧ w.1 = .arrow) ↔ (v'.1 = .arrow ∧ w'.1 = .arrow))

/-- Edges with decided marks that no ancestral graph has: tails at both ends, a bidirected edge
beside a directed path, or a directed cycle. -/
def Look.Violates (L : Look) : Prop :=
  (∃ a b m, L a b = some (.tail, .tail, m)) ∨
    (∃ a b, L.Bi a b ∧ ReflTransGen L.Dir a b) ∨
    ∃ v, TransGen L.Dir v v

/-! ## The ancestral check -/

section Ancestral

variable {g : Pag}

variable {L : Look} {a b : Nat}

theorem Look.Mirrored.dir_or_bi (h : L.Mirrored)
    (hm : L.Dir a b ∨ L.Dir b a ∨ L.Bi a b) : L.Dir b a ∨ L.Dir a b ∨ L.Bi b a := by
  rcases hm with hm | hm | hm
  · exact Or.inr (Or.inl hm)
  · exact Or.inl hm
  · exact Or.inr (Or.inr (h.bi_symm hm))

/-- The check of one entry, read in the row of its smaller node. -/
theorem ancestralEntry_iff {s t : Endpoint} {m : MiddleMark} (hab : a < b)
    (hl : g.look a b = some (s, t, m)) (allowOpen : Bool) :
    ancestralEntry g allowOpen a (b, s, t) = true ↔
      (s.isOpen = true ∨ t.isOpen = true) ∧ allowOpen = true ∨
      (s = .tail ∧ t = .arrow) ∨ (s = .arrow ∧ t = .tail) ∨
      (s = .arrow ∧ t = .arrow ∧ ¬ ReflTransGen g.look.Dir a b ∧
        ¬ ReflTransGen g.look.Dir b a) := by
  obtain ⟨ha, hb⟩ := g.stored.lt_of_look hl
  rw [← g.reachesDirected_iff ha hb, ← g.reachesDirected_iff hb ha]
  unfold ancestralEntry
  simp only [if_neg (Nat.not_lt.mpr (Nat.le_of_lt hab))]
  cases s <;> cases t <;> simp [Endpoint.isOpen]

theorem ancestralUpToOpenMarks_iff {allowOpen : Bool} :
    ancestralUpToOpenMarks g allowOpen = true ↔ ∀ a b s t m, a < b →
      g.look a b = some (s, t, m) → ancestralEntry g allowOpen a (b, s, t) = true := by
  unfold ancestralUpToOpenMarks
  simp only [List.all_eq_true, List.mem_range]
  constructor
  · intro h a b s t m _ hl
    exact h a (g.stored.lt_of_look hl).1 _ (g.mem_neighbors.mpr ⟨m, hl⟩)
  · rintro h a - ⟨b, s, t⟩ he
    obtain ⟨m, hl⟩ := g.mem_neighbors.mp he
    rcases Nat.lt_or_gt_of_ne (g.stored.ne_of_look hl) with hab | hba
    · exact h a b s t m hab hl
    · unfold ancestralEntry
      exact if_pos hba

/-- **The check on a graph without open marks decides ancestrality.** -/
theorem isAncestralOrientation_iff : isAncestralOrientation g = true ↔ g.look.Ancestral := by
  unfold isAncestralOrientation
  rw [ancestralUpToOpenMarks_iff]
  constructor
  · intro h
    have key : ∀ a b v, a < b → g.look a b = some v →
        (g.look.Dir a b ∨ g.look.Dir b a ∨ g.look.Bi a b) ∧
          (g.look.Bi a b → ¬ ReflTransGen g.look.Dir a b ∧
            ¬ ReflTransGen g.look.Dir b a) := by
      rintro a b ⟨s, t, m⟩ hab hl
      have hbi : g.look.Bi a b → s = .arrow := by
        rintro ⟨m', hm'⟩
        rw [hl] at hm'
        simp_all
      rcases (ancestralEntry_iff hab hl false).mp (h a b s t m hab hl) with
        ⟨-, h0⟩ | ⟨rfl, rfl⟩ | ⟨rfl, rfl⟩ | ⟨rfl, rfl, h1, h2⟩
      · exact absurd h0 Bool.false_ne_true
      · exact ⟨Or.inl ⟨m, hl⟩, fun hb => absurd (hbi hb) (by simp)⟩
      · refine ⟨Or.inr (Or.inl ⟨m, g.mirrored a b _ hl⟩), fun ⟨m', hm'⟩ => ?_⟩
        rw [hl] at hm'
        simp at hm'
      · exact ⟨Or.inr (Or.inr ⟨m, hl⟩), fun _ => ⟨h1, h2⟩⟩
    refine ⟨fun a b v hl => ?_, g.acyclic, fun a b hb => ?_⟩
    · rcases Nat.lt_or_gt_of_ne (g.stored.ne_of_look hl) with hab | hba
      · exact (key a b v hab hl).1
      · exact g.mirrored.dir_or_bi (key b a v.flip hba (g.mirrored a b v hl)).1
    · obtain ⟨m, hl⟩ := hb
      rcases Nat.lt_or_gt_of_ne (g.stored.ne_of_look hl) with hab | hba
      · exact ((key a b _ hab hl).2 ⟨m, hl⟩).1
      · have hl' := g.mirrored a b _ hl
        exact ((key b a _ hba hl').2 ⟨m, hl'⟩).2
  · intro h a b s t m hab hl
    rw [ancestralEntry_iff hab hl]
    rcases h.marks a b _ hl with ⟨m', hm'⟩ | ⟨m', hm'⟩ | ⟨m', hm'⟩
    · rw [hl] at hm'
      simp_all
    · have := g.mirrored b a _ hm'
      rw [hl] at this
      simp_all [Marks.flip]
    · have h1 := h.almost a b ⟨m', hm'⟩
      have h2 := h.almost b a (g.mirrored.bi_symm ⟨m', hm'⟩)
      rw [hl] at hm'
      simp_all

/-- **A graph refused with open marks allowed has an edge no completion repairs.** -/
theorem violates_of_refused (h : ancestralUpToOpenMarks g true = false) : g.look.Violates := by
  by_contra hno
  refine absurd h ?_
  rw [Bool.not_eq_false, ancestralUpToOpenMarks_iff]
  intro a b s t m hab hl
  rw [ancestralEntry_iff hab hl]
  have htt : ¬ (s = .tail ∧ t = .tail) := by
    rintro ⟨rfl, rfl⟩
    exact hno (Or.inl ⟨a, b, m, hl⟩)
  have hbb : s = .arrow → t = .arrow → ¬ ReflTransGen g.look.Dir a b ∧
      ¬ ReflTransGen g.look.Dir b a := by
    rintro rfl rfl
    exact ⟨fun hr => hno (Or.inr (Or.inl ⟨a, b, ⟨m, hl⟩, hr⟩)),
      fun hr => hno (Or.inr (Or.inl ⟨b, a, g.mirrored.bi_symm ⟨m, hl⟩, hr⟩))⟩
  cases s <;> cases t <;> simp_all [Endpoint.isOpen]

theorem Look.Ancestral.not_violates (h : L.Ancestral) (hm : L.Mirrored) :
    ¬ L.Violates := by
  rintro (⟨a, b, m, hl⟩ | ⟨a, b, hb, hr⟩ | ⟨v, hv⟩)
  · rcases h.marks a b _ hl with ⟨m', hl'⟩ | ⟨m', hl'⟩ | ⟨m', hl'⟩
    · simp [hl] at hl'
    · simp [hm a b _ hl, Marks.flip] at hl'
    · simp [hl] at hl'
  · exact h.almost a b hb hr
  · exact h.acyclic v hv

end Ancestral

/-! ## The ADMG of a MAG -/

section Conversion

variable {g : Pag}

/-- What an entry of the row of `a` inserts. -/
def arrowAt (a : Nat) (e : Nat × Endpoint × Endpoint) : Option EdgeCall :=
  if e.1 < a then none
  else
    match e.2.1, e.2.2 with
    | .tail, .arrow => some (.directed a e.1)
    | .arrow, .tail => some (.directed e.1 a)
    | .arrow, .arrow => some (.bidirected a e.1)
    | _, _ => none

variable {a : Nat} {e : Nat × Endpoint × Endpoint} {c : EdgeCall}

theorem arrowAt_eq :
    arrowAt a e = some c ↔ ¬ e.1 < a ∧ (e.2 = (.tail, .arrow) ∧ c = .directed a e.1 ∨
      e.2 = (.arrow, .tail) ∧ c = .directed e.1 a ∨ e.2 = (.arrow, .arrow) ∧ c = .bidirected a e.1) := by
  obtain ⟨b, s, t⟩ := e
  unfold arrowAt
  split_ifs with h <;> cases s <;> cases t <;> simp [h, eq_comm]

theorem asAdmgEdge_eq (hanc : g.look.Ancestral)
    (he : e ∈ g.neighbors a) (admg : Admg) : asAdmgEdge a admg e =
      match arrowAt a e with
      | some c => admg.insertEdge c
      | none => pure admg := by
  obtain ⟨b, s, t⟩ := e
  obtain ⟨m, hl⟩ := g.mem_neighbors.mp he
  unfold asAdmgEdge arrowAt
  split_ifs
  · rfl
  rcases hanc.marks a b _ hl with ⟨m', hm'⟩ | ⟨m', hm'⟩ | ⟨m', hm'⟩
  · cases hl.symm.trans hm'
    rfl
  · cases (g.mirrored a b _ hl).symm.trans hm'
    rfl
  · cases hl.symm.trans hm'
    rfl

/-- The edges that the rows insert. -/
def arrows (g : Pag) : List EdgeCall :=
  (List.range g.nodeCount).flatMap fun a => (g.neighbors a).filterMap (arrowAt a)

theorem mem_arrows : c ∈ arrows g ↔
    ∃ a b s t m, g.look a b = some (s, t, m) ∧ arrowAt a (b, s, t) = some c := by
  simp only [arrows, List.mem_flatMap, List.mem_filterMap, List.mem_range]
  constructor
  · rintro ⟨a, -, ⟨b, s, t⟩, he, hc⟩
    obtain ⟨m, hl⟩ := g.mem_neighbors.mp he
    exact ⟨a, b, s, t, m, hl, hc⟩
  · rintro ⟨a, b, s, t, m, hl, hc⟩
    exact ⟨a, (g.stored.lt_of_look hl).1, _, g.mem_neighbors.mpr ⟨m, hl⟩, hc⟩

theorem nodup_arrows : (arrows g).Nodup := by
  refine List.pairwise_flatMap.mpr ⟨fun a _ => ?_, List.pairwise_lt_range.imp ?_⟩
  · have hkeys : ((g.neighbors a).map Prod.fst).Nodup := by
      have := g.stored.nodup a
      unfold Pag.neighbors neighbors
      rwa [List.map_map]
    refine List.pairwise_filterMap.mpr ((List.pairwise_map.mp hkeys).imp fun hne c hc c' hc' => ?_)
    obtain ⟨-, hc⟩ := arrowAt_eq.mp hc
    obtain ⟨-, hc'⟩ := arrowAt_eq.mp hc'
    grind
  · intro a a' hlt c hc c' hc' heq
    obtain ⟨e, -, he⟩ := List.mem_filterMap.mp hc
    obtain ⟨e', -, he'⟩ := List.mem_filterMap.mp hc'
    obtain ⟨hle, he⟩ := arrowAt_eq.mp he
    obtain ⟨hle', he'⟩ := arrowAt_eq.mp he'
    grind

theorem foldlM_congr {α : Type} {f f' : Admg → α → Except GraphError Admg} : ∀ {l : List α} {s : Admg},
    (∀ a ∈ l, ∀ s, f s a = f' s a) → l.foldlM f s = l.foldlM f' s
  | [], _, _ => rfl
  | a :: l, s, h => by
    rw [List.foldlM_cons, List.foldlM_cons, h a List.mem_cons_self s]
    exact congrArg _ (funext fun s => foldlM_congr fun a ha => h a (List.mem_cons_of_mem _ ha))

/-- **`as_admg` on ancestral marks** keeps every arrow. -/
theorem asAdmg_ok (hanc : g.look.Ancestral) (hn : g.nodeCount ≤ u32Max) :
    ∃ admg, asAdmg g = .ok admg ∧ admg.nodeCount = g.nodeCount ∧ admg.mixed = g.mixed := by
  obtain ⟨h0, hd0, hb0⟩ := Admg.withVariables_spec (n := g.nodeCount) (by omega)
  have hloop : (List.range g.nodeCount).foldlM
      (fun admg a => (g.neighbors a).foldlM (asAdmgEdge a) admg) (Admg.withVariables g.nodeCount) =
      (arrows g).foldlM Admg.insertEdge (Admg.withVariables g.nodeCount) := by
    rw [arrows, ← foldlM_flatMap]
    refine foldlM_congr fun a _ admg => ?_
    rw [List.foldlM_filterMap]
    refine foldlM_congr fun e he admg => (asAdmgEdge_eq hanc he admg).trans ?_
    cases arrowAt a e <;> rfl
  obtain ⟨admg, hok, hnodes, hmixed⟩ := @Admg.insertSorted_ok g.mixed (arrows g)
    (Admg.withVariables g.nodeCount) g.acyclic (fun a ⟨m, hl⟩ => g.stored.ne_of_look hl rfl)
    (fun a b h => by
      rw [h0]
      exact h.elim (fun ⟨m, hl⟩ => g.stored.lt_of_look hl) fun ⟨m, hl⟩ => g.stored.lt_of_look hl)
    (fun p => by
      cases p with
      | directed a b => exact hd0 a b
      | bidirected a b => exact hb0 a b)
    (fun u v => by
      rw [mem_arrows]
      constructor
      · rintro ⟨a, b, s, t, m, hl, hc⟩
        obtain ⟨-, ⟨he, hc⟩ | ⟨he, hc⟩ | ⟨-, hc⟩⟩ := arrowAt_eq.mp hc <;> cases hc <;> cases he
        · exact ⟨m, hl⟩
        · exact ⟨m, g.mirrored _ _ _ hl⟩
      · rintro ⟨m, hl⟩
        rcases Nat.lt_or_gt_of_ne (g.stored.ne_of_look hl) with hlt | hlt
        · exact ⟨u, v, _, _, m, hl, arrowAt_eq.mpr ⟨hlt.not_gt, Or.inl ⟨rfl, rfl⟩⟩⟩
        · exact ⟨v, u, _, _, m, g.mirrored _ _ _ hl,
            arrowAt_eq.mpr ⟨hlt.not_gt, Or.inr (Or.inl ⟨rfl, rfl⟩)⟩⟩)
    (fun u v => by
      rw [mem_arrows]
      constructor
      · rintro ⟨a, b, s, t, m, hl, hc⟩
        obtain ⟨hle, ⟨-, hc⟩ | ⟨-, hc⟩ | ⟨he, hc⟩⟩ := arrowAt_eq.mp hc <;> cases hc
        cases he
        exact ⟨(g.stored.ne_of_look hl).lt_of_le (Nat.not_lt.mp hle), m, hl⟩
      · rintro ⟨hlt, m, hl⟩
        exact ⟨u, v, _, _, m, hl, arrowAt_eq.mpr ⟨hlt.not_gt, Or.inr (Or.inr ⟨rfl, rfl⟩)⟩⟩)
    nodup_arrows
  refine ⟨admg, ?_, (congrArg List.length hnodes).trans h0, hmixed⟩
  unfold asAdmg
  rw [if_neg (Nat.not_lt.mpr hn), hloop]
  exact hok

end Conversion

/-! ## The ancestor sweep -/

section Ancestors

variable (g : Admg)

/-- The children of a popped node take what is known of it. -/
theorem mem_foldl_modify_insert (done : Finset Nat) (v : Nat) : ∀ (cs : List Nat)
    (ancestors : List (Finset Nat)), (∀ c ∈ cs, c < ancestors.length) →
    (cs.foldl (fun a c => a.modify c fun s => insert v (s ∪ done)) ancestors).length =
      ancestors.length ∧
    ∀ w u, u ∈ (cs.foldl (fun a c => a.modify c fun s => insert v (s ∪ done)) ancestors).getD w ∅ ↔
      u ∈ ancestors.getD w ∅ ∨ (w ∈ cs ∧ (u = v ∨ u ∈ done))
  | [], ancestors, _ => ⟨rfl, fun w u => by simp⟩
  | c :: cs, ancestors, h => by
    have hc := h c List.mem_cons_self
    obtain ⟨h1, h2⟩ := mem_foldl_modify_insert done v cs
      (ancestors.modify c fun s => insert v (s ∪ done)) fun c' hc' => by
        rw [List.length_modify]
        exact h c' (List.mem_cons_of_mem c hc')
    refine ⟨by rw [List.foldl_cons, h1, List.length_modify], fun w u => ?_⟩
    rw [List.foldl_cons, h2, List.getD_eq_getElem?_getD, List.getElem?_modify,
      List.getD_eq_getElem?_getD, List.mem_cons]
    by_cases hcw : c = w
    · subst hcw
      simp only [if_true, List.getElem?_eq_getElem hc, Option.map_eq_map, Option.map_some,
        Option.getD_some, Finset.mem_insert, Finset.mem_union]
      tauto
    · simp [hcw, Ne.symm hcw]

/-- **The sweep collects the proper ancestors.** -/
theorem mem_strictAncestorSets {v : Nat} (hv : v < g.nodeCount) (u : Nat) :
    u ∈ g.strictAncestorSets.getD v ∅ ↔ TransGen g.mixed.dir u v := by
  have hready : ∀ v, v ∈ ((List.range g.nodeCount).filter fun v =>
      (g.parents v).length == 0).reverse ↔ v ∈ Finset.range g.nodeCount ∧
        (g.parents v).length = 0 := fun v => by simp
  have hfuel : (Finset.range g.nodeCount).card < g.nodeCount + 1 := by
    rw [Finset.card_range]
    exact Nat.lt_succ_self _
  obtain ⟨order, htop, hacc⟩ := Kahn.run_spec ancestorsVisit (List.replicate g.nodeCount ∅)
    g.kahnGraph (fun v _ => g.card_parents) hready
    (List.nodup_reverse.mpr (List.nodup_range.filter _)) hfuel
  have key : ∀ pre post, order = pre ++ post →
      (pre.foldl (Kahn.visitAll g.children ancestorsVisit) (List.replicate g.nodeCount ∅)).length =
        g.nodeCount ∧
      ∀ w u, w < g.nodeCount → (u ∈ (pre.foldl (Kahn.visitAll g.children ancestorsVisit)
        (List.replicate g.nodeCount ∅)).getD w ∅ ↔
          ∃ p ∈ pre, g.mixed.dir p w ∧ ReflTransGen g.mixed.dir u p) := by
    intro pre
    induction pre using List.reverseRecOn with
    | nil =>
      intro post _
      exact ⟨by simp, fun w u hw => by simp [List.getD_eq_getElem?_getD, hw]⟩
    | append_singleton pre v ih =>
      intro post he
      obtain ⟨h1, h2⟩ := ih (v :: post) (by rw [he]; simp)
      have hv : v < g.nodeCount := Finset.mem_range.mp ((htop.mem v).mp (by rw [he]; simp))
      -- what is known of `v` when it is popped is all its proper ancestors
      have hdone : ∀ u, u ∈ (pre.foldl (Kahn.visitAll g.children ancestorsVisit)
          (List.replicate g.nodeCount ∅)).getD v ∅ ↔ TransGen g.mixed.dir u v := by
        intro u
        rw [h2 v u hv, TransGen.tail'_iff]
        constructor
        · rintro ⟨p, -, hp, hu⟩
          exact ⟨p, hu, hp⟩
        · rintro ⟨p, hu, hp⟩
          exact ⟨p, htop.before pre v post (by rw [he]; simp) p
            (Finset.mem_range.mpr (g.valid.in_range p v hp).1) hp, hp, hu⟩
      rw [List.foldl_append, List.foldl_cons, List.foldl_nil]
      generalize pre.foldl (Kahn.visitAll g.children ancestorsVisit)
        (List.replicate g.nodeCount ∅) = A at h1 h2 hdone
      obtain ⟨h3, h4⟩ := mem_foldl_modify_insert (A.getD v ∅) v (g.children v) A fun c hc => by
        rw [h1]
        exact (g.valid.in_range v c hc).2
      refine ⟨h3.trans h1, fun w u hw => ?_⟩
      refine (h4 w u).trans ?_
      rw [h2 w u hw, hdone]
      constructor
      · rintro (⟨p, hp, hpw, hup⟩ | ⟨hvw, rfl | huv⟩)
        · exact ⟨p, List.mem_append_left _ hp, hpw, hup⟩
        · exact ⟨u, by simp, hvw, ReflTransGen.refl⟩
        · exact ⟨v, by simp, hvw, huv.to_reflTransGen⟩
      · rintro ⟨p, hp, hpw, hup⟩
        rcases List.mem_append.mp hp with hp | hp
        · exact Or.inl ⟨p, hp, hpw, hup⟩
        · obtain rfl := List.mem_singleton.mp hp
          refine Or.inr ⟨hpw, ?_⟩
          rcases Relation.reflTransGen_iff_eq_or_transGen.mp hup with rfl | huv
          · exact Or.inl rfl
          · exact Or.inr huv
  have hfin := (key order [] (by simp)).2 v u hv
  have hset : g.strictAncestorSets = order.foldl (Kahn.visitAll g.children ancestorsVisit)
      (List.replicate g.nodeCount ∅) := hacc
  rw [hset, hfin, TransGen.tail'_iff]
  constructor
  · rintro ⟨p, -, hp, hu⟩
    exact ⟨p, hu, hp⟩
  · rintro ⟨p, hu, hp⟩
    exact ⟨p, (htop.mem p).mpr (Finset.mem_range.mpr (g.valid.in_range p v hp).1), hp, hu⟩

end Ancestors

/-! ## Maximality -/

section Maximality

variable {g : Pag}

variable {x y : Nat}

theorem nodeQuery {n : Nat} {z : List Nat} (hx : x < n) (hy : y < n) (hxy : x ≠ y)
    (hz : ∀ v ∈ z, v < n ∧ v ≠ x ∧ v ≠ y) : Query n x y z :=
  ⟨hx, hy, fun v hv => (hz v hv).1, hxy, fun h => (hz x h).2.1 rfl, fun h => (hz y h).2.2 rfl⟩

theorem mem_separating {admg : Admg} (hmixed : admg.mixed = g.mixed)
    (hn : admg.nodeCount = g.nodeCount) (hx : x < g.nodeCount) (hy : y < g.nodeCount) :
    {v | v ∈ (List.range g.nodeCount).filter fun v => decide (v ∈
      ((admg.strictAncestorSets.getD x ∅ ∪ admg.strictAncestorSets.getD y ∅).erase x).erase y)} =
      g.mixed.properAncestors x y := by
  ext v
  rw [Set.mem_ofPred_eq, List.mem_filter, List.mem_range, decide_eq_true_eq, Finset.mem_erase,
    Finset.mem_erase, Finset.mem_union, mem_strictAncestorSets admg (by rw [hn]; exact hx),
    mem_strictAncestorSets admg (by rw [hn]; exact hy), hmixed]
  unfold MixedGraph.properAncestors MixedGraph.AncSet
  simp only [Set.mem_sdiff, Set.mem_insert_iff, Set.mem_singleton_iff, Set.mem_ofPred_eq, not_or,
    exists_eq_or_imp, exists_eq_left, Relation.reflTransGen_iff_eq_or_transGen]
  constructor
  · rintro ⟨-, hvy, hvx, h | h⟩
    · exact ⟨Or.inl (Or.inr h), hvx, hvy⟩
    · exact ⟨Or.inr (Or.inr h), hvx, hvy⟩
  · rintro ⟨h, hvx, hvy⟩
    have htrans : TransGen g.mixed.dir v x ∨ TransGen g.mixed.dir v y := by
      rcases h with (h | h) | (h | h)
      · exact absurd h.symm hvx
      · exact Or.inl h
      · exact absurd h.symm hvy
      · exact Or.inr h
    refine ⟨?_, hvy, hvx, htrans⟩
    rcases htrans with h | h
    · obtain ⟨w, ⟨m, hm⟩, -⟩ := TransGen.head'_iff.mp h
      exact (g.stored.lt_of_look hm).1
    · obtain ⟨w, ⟨m, hm⟩, -⟩ := TransGen.head'_iff.mp h
      exact (g.stored.lt_of_look hm).1

/-- **The test decides whether the marks are those of a MAG.** -/
theorem isMaximalAncestralGraph_spec (hn : g.nodeCount ≤ u32Max) :
    ∃ b, isMaximalAncestralGraph g = .ok b ∧ (b = true ↔ g.look.IsMag g.nodeCount) := by
  unfold isMaximalAncestralGraph
  by_cases hanc : isAncestralOrientation g = true
  · have hA := isAncestralOrientation_iff.mp hanc
    obtain ⟨admg, hok, hcount, hmixed⟩ := asAdmg_ok hA hn
    simp only [hanc, Bool.not_true, Bool.false_eq_true, if_false, hok, bind, Except.bind]
    have hq : ∀ p ∈ upperPairs g.nodeCount, ∀ x y, p = (x, y) → Query admg.nodeCount x y
        ((List.range g.nodeCount).filter fun v => decide (v ∈ ((admg.strictAncestorSets.getD x ∅ ∪
          admg.strictAncestorSets.getD y ∅).erase x).erase y)) := by
      rintro p hp x y rfl
      obtain ⟨hxy, hy⟩ := mem_upperPairs.mp hp
      refine nodeQuery (by omega) (by omega) (Nat.ne_of_lt hxy) fun v hv => ?_
      obtain ⟨hv1, hv2⟩ := List.mem_filter.mp hv
      simp only [decide_eq_true_eq, Finset.mem_erase] at hv2
      exact ⟨by rw [hcount]; exact List.mem_range.mp hv1, hv2.2.1, hv2.1⟩
    rw [allM_ok (q := fun p => g.hasEdge p.1 p.2 ||
      !admg.bayesBall.bayesBallReaches [p.1] [p.2] ((List.range g.nodeCount).filter fun v =>
        decide (v ∈ ((admg.strictAncestorSets.getD p.1 ∅ ∪
          admg.strictAncestorSets.getD p.2 ∅).erase p.1).erase p.2))) (by
      rintro ⟨x, y⟩ hp
      cases he : g.hasEdge x y with
      | true => simp [pure, Except.pure]
      | false =>
        simp only [Bool.false_eq_true, if_false, Bool.false_or]
        exact Admg.isMSeparated_eq (hq _ hp x y rfl))]
    refine ⟨_, rfl, ?_⟩
    have hpair : ∀ x y, x < y → y < g.nodeCount → ((g.hasEdge x y ||
        !admg.bayesBall.bayesBallReaches [x] [y] ((List.range g.nodeCount).filter fun v =>
          decide (v ∈ ((admg.strictAncestorSets.getD x ∅ ∪
            admg.strictAncestorSets.getD y ∅).erase x).erase y))) = true ↔
        (g.look x y = none → g.mixed.Separable {v | v < g.nodeCount} x y)) := by
      intro x y hxy hy
      have hquery := hq (x, y) (mem_upperPairs.mpr ⟨hxy, hy⟩) x y rfl
      have hsep := Admg.isMSeparated_iff_path hquery
      rw [Admg.isMSeparated_eq hquery, Except.ok.injEq, hmixed,
        mem_separating hmixed hcount (by omega) hy] at hsep
      have hN : ∀ a b, g.mixed.dir a b → a ∈ {v | v < g.nodeCount} := fun a b hab =>
        (g.stored.dir_lt hab).1
      rw [Bool.or_eq_true, hsep, g.hasEdge_iff,
        MixedGraph.separable_iff (G := g.mixed) g.acyclic hN (Nat.ne_of_lt hxy), Option.isSome_iff_ne_none]
      exact imp_iff_not_or.symm
    rw [List.all_eq_true]
    constructor
    · intro h
      refine ⟨hA, g.mirrored, fun a b ha hb hne hnone => ?_⟩
      rcases Nat.lt_or_gt_of_ne hne with hab | hba
      · exact (hpair a b hab hb).mp (h (a, b) (mem_upperPairs.mpr ⟨hab, hb⟩)) hnone
      · have hnone' : g.look b a = none := by
          have := g.stored.look_symm (a := b) (b := a)
          exact this.trans (by rw [show Graph.look g.adj a b = none from hnone]; rfl)
        obtain ⟨Z, h1, h2, h3, h4⟩ :=
          (hpair b a hba ha).mp (h (b, a) (mem_upperPairs.mpr ⟨hba, ha⟩)) hnone'
        exact ⟨Z, h1, h3, h2, fun hc => h4 (hc.symm g.acyclic h3 h2)⟩
    · rintro h ⟨x, y⟩ hp
      obtain ⟨hxy, hy⟩ := mem_upperPairs.mp hp
      exact (hpair x y hxy hy).mpr (h.maximal x y (by omega) hy (Nat.ne_of_lt hxy))
  · simp only [Bool.not_eq_true] at hanc
    simp only [hanc, Bool.not_false, if_true, pure, Except.pure]
    refine ⟨false, rfl, iff_of_false Bool.false_ne_true fun h => ?_⟩
    rw [isAncestralOrientation_iff.mpr h.toAncestral] at hanc
    exact absurd hanc.symm Bool.false_ne_true

theorem isMaximalAncestralGraph_sound {b : Bool} (h : isMaximalAncestralGraph g = .ok b) :
    b = true ↔ g.look.IsMag g.nodeCount := by
  by_cases hn : g.nodeCount ≤ u32Max
  · obtain ⟨b', hb', hiff⟩ := isMaximalAncestralGraph_spec hn
    obtain rfl := Except.ok.inj (hb'.symm.trans h)
    exact hiff
  · unfold isMaximalAncestralGraph at h
    cases hanc : isAncestralOrientation g with
    | true =>
      simp [hanc, asAdmg, Nat.lt_of_not_le hn, bind, Except.bind] at h
    | false =>
      rw [hanc] at h
      obtain rfl := Except.ok.inj h
      refine iff_of_false Bool.false_ne_true fun hm => ?_
      rw [isAncestralOrientation_iff.mpr hm.toAncestral] at hanc
      exact absurd hanc.symm Bool.false_ne_true

/-- `completion.rs:506-508`. -/
def isMagCompletion (g : Pag) : Except GraphError Bool := isMaximalAncestralGraph g

/-- **`is_mag_completion` decides whether the marks are those of a MAG**, and the one set it tests
for a pair separates the pair exactly when some set does. -/
theorem isMagCompletion_correct (g : Pag) :
    (∀ b, isMagCompletion g = .ok b → (b = true ↔ g.look.IsMag g.nodeCount)) ∧
    (g.nodeCount ≤ u32Max → ∃ b, isMagCompletion g = .ok b) ∧
    ∀ x y, x ≠ y → (g.mixed.Separable {v | v < g.nodeCount} x y ↔
      ¬ g.mixed.MConnecting (g.mixed.properAncestors x y) x y) := by
  refine ⟨fun b h => isMaximalAncestralGraph_sound h, fun hn => ?_, fun x y hxy => ?_⟩
  · obtain ⟨b, hb, -⟩ := isMaximalAncestralGraph_spec hn
    exact ⟨b, hb⟩
  · have hN : ∀ a b, g.mixed.dir a b → a ∈ {v | v < g.nodeCount} := fun a b hab =>
      (g.stored.dir_lt hab).1
    exact MixedGraph.separable_iff (G := g.mixed) g.acyclic hN hxy

end Maximality

/-! ## Unshielded colliders -/

section Colliders

variable {pag mag : Pag}

theorem markAt_ok {c v : Nat} {w : Marks} (h : mag.look c v = some w) :
    markAt mag c v = .ok w.1 := by
  have hsome : ((mag.neighbors c).find? fun e => e.1 == v).isSome = true := by
    rw [List.find?_isSome]
    exact ⟨(v, w.1, w.2.1), mag.mem_neighbors.mpr ⟨w.2.2, h⟩, by simp⟩
  obtain ⟨⟨u, s, t⟩, he⟩ := Option.isSome_iff_exists.mp hsome
  obtain rfl : u = v := by simpa using List.find?_some he
  obtain ⟨m, hm⟩ := mag.mem_neighbors.mp (List.mem_of_find?_eq_some he)
  unfold markAt
  rw [he]
  rw [h] at hm
  cases hm
  rfl

/-- **The comparison decides whether the unshielded colliders agree**, over one skeleton. -/
theorem preservesUnshieldedColliders_spec
    (hskel : ∀ a b, (pag.look a b).isSome = (mag.look a b).isSome) :
    ∃ b, preservesUnshieldedColliders pag mag = .ok b ∧
      (b = true ↔ SameColliders pag.look mag.look) := by
  have harrow : ∀ s t : Endpoint, (s == .arrow && t == .arrow) = decide (s = .arrow ∧ t = .arrow) := by
    intro s t
    cases s <;> cases t <;> rfl
  have hmag : ∀ {a b : Nat} {v : Marks}, pag.look a b = some v → ∃ w, mag.look a b = some w := by
    intro a b v hv
    have := hskel a b
    rw [hv] at this
    exact Option.isSome_iff_exists.mp this.symm
  let verdict : Nat → (Nat × Endpoint) × (Nat × Endpoint) → Bool := fun c p =>
    pag.hasEdge p.1.1 p.2.1 || (decide (p.1.2 = .arrow ∧ p.2.2 = .arrow) ==
      decide ((mag.look c p.1.1).map Prod.fst = some .arrow ∧
        (mag.look c p.2.1).map Prod.fst = some .arrow))
  have hpairs : ∀ {c : Nat} {p : (Nat × Endpoint) × (Nat × Endpoint)},
      p ∈ pairsOf ((pag.neighbors c).map fun e => (e.1, e.2.1)) →
      (∃ v, pag.look c p.1.1 = some v ∧ v.1 = p.1.2) ∧
        ∃ v, pag.look c p.2.1 = some v ∧ v.1 = p.2.2 := by
    intro c p hp
    have hrow : ∀ q : Nat × Endpoint, q ∈ (pag.neighbors c).map (fun e => (e.1, e.2.1)) →
        ∃ v, pag.look c q.1 = some v ∧ v.1 = q.2 := by
      rintro q hq
      obtain ⟨⟨u, s, t⟩, he, rfl⟩ := List.mem_map.mp hq
      obtain ⟨m, hm⟩ := pag.mem_neighbors.mp he
      exact ⟨_, hm, rfl⟩
    obtain ⟨h1, h2⟩ := mem_of_mem_pairsOf (a := p.1) (b := p.2) hp
    exact ⟨hrow _ h1, hrow _ h2⟩
  unfold preservesUnshieldedColliders
  rw [allM_ok (q := fun c => (pairsOf ((pag.neighbors c).map fun e => (e.1, e.2.1))).all
    (verdict c)) fun c _ => allM_ok fun p hp => ?_]
  · refine ⟨_, rfl, ?_⟩
    simp only [List.all_eq_true, List.mem_range]
    have hverdict : ∀ {c : Nat} {p : (Nat × Endpoint) × (Nat × Endpoint)} {v w v' w' : Marks},
        pag.look c p.1.1 = some v → v.1 = p.1.2 → pag.look c p.2.1 = some w → w.1 = p.2.2 →
        mag.look c p.1.1 = some v' → mag.look c p.2.1 = some w' →
        (verdict c p = true ↔ (pag.look p.1.1 p.2.1 = none →
          ((v.1 = .arrow ∧ w.1 = .arrow) ↔ (v'.1 = .arrow ∧ w'.1 = .arrow)))) := by
      intro c p v w v' w' hv hve hw hwe hv' hw'
      simp only [verdict, hv', hw', Option.map_some, Option.some.injEq, ← hve, ← hwe,
        Bool.or_eq_true, beq_iff_eq, decide_eq_decide, pag.hasEdge_iff, Option.isSome_iff_ne_none]
      exact imp_iff_not_or.symm
    constructor
    · intro h l c r v w v' w' hlr hv hw hnone hv' hw'
      have hc : c < pag.nodeCount := (pag.stored.lt_of_look hv).1
      have hmem : ∀ {u : Nat} {v : Marks}, pag.look c u = some v →
          (u, v.1) ∈ (pag.neighbors c).map fun e => (e.1, e.2.1) := fun {u v} hu =>
        List.mem_map.mpr ⟨(u, v.1, v.2.1), pag.mem_neighbors.mpr ⟨v.2.2, hu⟩, rfl⟩
      rcases (mem_pairsOf (a := (l, v.1)) (b := (r, w.1)) fun e => hlr (congrArg Prod.fst e)).mpr
        ⟨hmem hv, hmem hw⟩ with hp | hp
      · exact (hverdict hv rfl hw rfl hv' hw').mp (h c hc _ hp) hnone
      · have hnone' : pag.look r l = none := by
          have := pag.stored.look_symm (a := r) (b := l)
          exact this.trans (by rw [show Graph.look pag.adj l r = none from hnone]; rfl)
        have := (hverdict hw rfl hv rfl hw' hv').mp (h c hc _ hp) hnone'
        rw [and_comm, this, and_comm]
    · intro h c hc p hp
      obtain ⟨⟨v, hv, hve⟩, ⟨w, hw, hwe⟩⟩ := hpairs hp
      obtain ⟨v', hv'⟩ := hmag hv
      obtain ⟨w', hw'⟩ := hmag hw
      rw [hverdict hv hve hw hwe hv' hw']
      intro hnone
      have hne : p.1.1 ≠ p.2.1 := by
        have hnd : (((pag.neighbors c).map fun e => (e.1, e.2.1)).map Prod.fst).Nodup := by
          have := pag.stored.nodup c
          unfold Pag.neighbors neighbors
          rwa [List.map_map, List.map_map]
        exact mem_pairsOf_ne hnd (mem_pairsOf_map Prod.fst (a := p.1) (b := p.2) hp)
      exact h _ c _ v w v' w' hne hv hw hnone hv' hw'
  · obtain ⟨⟨l, s⟩, ⟨r, t⟩⟩ := p
    obtain ⟨⟨v, hv, hve⟩, ⟨w, hw, hwe⟩⟩ := hpairs hp
    obtain ⟨v', hv'⟩ := hmag hv
    obtain ⟨w', hw'⟩ := hmag hw
    simp only at hv hw hv' hw'
    simp only [verdict]
    cases he : pag.hasEdge l r with
    | true => rfl
    | false =>
      simp only [Bool.false_eq_true, if_false, Bool.false_or, markAt_ok hv', markAt_ok hw', bind,
        Except.bind, pure, Except.pure, harrow, hv', hw', Option.map_some, Option.some.injEq]

end Colliders

end Antecedent.Graph
