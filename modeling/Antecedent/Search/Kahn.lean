import Mathlib.Data.Set.Finite.Basic
import Mathlib.Order.WellFounded

/-!
# Kahn's sweep

A sweep over a finite acyclic graph that pops a node once all its parents were popped. Every node
keeps the number of its parents not popped yet; popping a node lowers that number at its children
and makes ready those it leaves at zero. What a sweep computes is a parameter: `visit` is called at
a popped node and `note` at each of its children.

* `run_acyclic_iff`: a sweep over any finite graph stops after nodes it pops once each; it pops all
  of them iff the graph has no cycle.
-/

namespace Antecedent.Kahn

open Relation

variable {α σ : Type*} [DecidableEq α]

/-- The state between two pops. -/
structure Sweep (α σ : Type*) where
  pending : α → Nat
  ready : List α
  acc : σ

/-- One child of the popped node. -/
def relax (note : α → σ → σ) (s : Sweep α σ) (c : α) : Sweep α σ where
  pending := Function.update s.pending c (s.pending c - 1)
  ready := if s.pending c - 1 = 0 then c :: s.ready else s.ready
  acc := note c s.acc

/-- What the sweep does at a popped node: an update, and one more for each of its children. -/
abbrev Visit (α σ : Type*) := α → σ → σ × (α → σ → σ)

/-- The loop; the fuel bounds the pops. -/
def run (children : α → List α) (visit : Visit α σ) : Nat → Sweep α σ → Sweep α σ
  | 0, s => s
  | fuel + 1, s =>
    match s.ready with
    | [] => s
    | v :: rest =>
      let (acc, note) := visit v s.acc
      run children visit fuel ((children v).foldl (relax note) ⟨s.pending, rest, acc⟩)

def visitAll (children : α → List α) (visit : Visit α σ) (acc : σ) (v : α) : σ :=
  (children v).foldl (fun a c => (visit v acc).2 c a) (visit v acc).1

/-- The nodes of `U`, each once and after its parents. -/
structure Topological (children : α → List α) (U : Finset α) (order : List α) : Prop where
  nodup : order.Nodup
  mem : ∀ v, v ∈ order ↔ v ∈ U
  before : ∀ pre v post, order = pre ++ v :: post → ∀ u ∈ U, v ∈ children u → u ∈ pre

/-- The graph a sweep runs on. -/
structure Graph (children : α → List α) (U : Finset α) : Prop where
  in_range : ∀ u ∈ U, ∀ c ∈ children u, c ∈ U
  nodup : ∀ u, (children u).Nodup
  acyclic : ∀ v, ¬ TransGen (fun a b => b ∈ children a) v v

/-- What a sweep needs to stop: children in range, each listed once. -/
structure Wired (children : α → List α) (U : Finset α) : Prop where
  in_range : ∀ u ∈ U, ∀ c ∈ children u, c ∈ U
  nodup : ∀ u, (children u).Nodup

omit [DecidableEq α] in
theorem Graph.wired {children : α → List α} {U : Finset α} (hG : Graph children U) :
    Wired children U := ⟨hG.in_range, hG.nodup⟩

/-- The parents of `v` outside `order`. -/
def waiting (children : α → List α) (U : Finset α) (order : List α) (v : α) : Finset α :=
  U.filter fun u => v ∈ children u ∧ u ∉ order

theorem foldl_relax (note : α → σ → σ) : ∀ {cs : List α} (s : Sweep α σ), cs.Nodup →
    (∀ v, (cs.foldl (relax note) s).pending v = if v ∈ cs then s.pending v - 1 else s.pending v) ∧
      (cs.foldl (relax note) s).acc = cs.foldl (fun a c => note c a) s.acc ∧
      (∀ v, v ∈ (cs.foldl (relax note) s).ready ↔
        v ∈ s.ready ∨ (v ∈ cs ∧ s.pending v - 1 = 0)) ∧
      (s.ready.Nodup → (∀ c ∈ cs, c ∉ s.ready) → (cs.foldl (relax note) s).ready.Nodup)
  | [], s, _ => by simp
  | c :: cs, s, h => by
    obtain ⟨hc, hcs⟩ := List.nodup_cons.mp h
    obtain ⟨h1, h2, h3, h4⟩ := foldl_relax note (relax note s c) hcs
    have hpend : ∀ v, v ≠ c → (relax note s c).pending v = s.pending v := fun v hv =>
      Function.update_of_ne hv _ _
    have hready : ∀ v, v ∈ (relax note s c).ready ↔
        v ∈ s.ready ∨ (v = c ∧ s.pending c - 1 = 0) := by
      intro v
      unfold relax
      split_ifs with h0
      · simp [h0, or_comm]
      · simp [h0]
    refine ⟨fun v => ?_, h2, fun v => ?_, fun hn hd => h4 ?_ fun c' hc' => ?_⟩
    · rw [List.foldl_cons, h1]
      by_cases hv : v = c
      · subst hv
        rw [if_neg hc, if_pos List.mem_cons_self]
        exact Function.update_self _ _ _
      · rw [hpend v hv]
        simp only [List.mem_cons, hv, false_or]
    · rw [List.foldl_cons, h3, hready]
      by_cases hv : v = c
      · subst hv
        simp [hc]
      · rw [hpend v hv]
        simp only [List.mem_cons, hv, false_or, false_and, or_false]
    · unfold relax
      split_ifs
      · exact List.nodup_cons.mpr ⟨hd c List.mem_cons_self, hn⟩
      · exact hn
    · rw [hready]
      rintro (h5 | ⟨rfl, -⟩)
      · exact hd c' (List.mem_cons_of_mem c hc') h5
      · exact hc hc'

/-- What holds after the nodes of `order` were popped. -/
structure Popped (children : α → List α) (U : Finset α) (visit : Visit α σ) (acc : σ)
    (order : List α) (s : Sweep α σ) : Prop where
  acc_eq : s.acc = order.foldl (visitAll children visit) acc
  nodup : order.Nodup
  sub : ∀ v ∈ order, v ∈ U
  pending : ∀ v ∈ U, s.pending v = (waiting children U order v).card
  ready : ∀ v, v ∈ s.ready ↔ v ∈ U ∧ v ∉ order ∧ waiting children U order v = ∅
  ready_nodup : s.ready.Nodup
  before : ∀ pre v post, order = pre ++ v :: post → ∀ u ∈ U, v ∈ children u → u ∈ pre

section Sweeps

variable {children : α → List α} {U : Finset α} {visit : Visit α σ} {acc : σ} {order : List α}
  {s : Sweep α σ}

theorem waiting_snoc (v u : α) : waiting children U (order ++ [u]) v =
    (waiting children U order v).erase u := by
  ext w
  simp only [waiting, Finset.mem_filter, List.mem_append, List.mem_singleton, not_or,
    Finset.mem_erase]
  tauto

/-- One pop. -/
theorem Popped.step (hG : Wired children U) (h : Popped children U visit acc order s) {v : α}
    {rest : List α} (hr : s.ready = v :: rest) :
    Popped children U visit acc (order ++ [v])
      ((children v).foldl (relax (visit v s.acc).2) ⟨s.pending, rest, (visit v s.acc).1⟩) := by
  obtain ⟨hvU, hvo, hvw⟩ := (h.ready v).mp (by rw [hr]; exact List.mem_cons_self)
  have hnd := h.ready_nodup
  rw [hr] at hnd
  obtain ⟨hvr, hrest⟩ := List.nodup_cons.mp hnd
  obtain ⟨h1, h2, h3, h4⟩ := foldl_relax (visit v s.acc).2
    ⟨s.pending, rest, (visit v s.acc).1⟩ (hG.nodup v)
  have hself : v ∉ children v := fun hc => by
    have hwait : v ∈ waiting children U order v := Finset.mem_filter.mpr ⟨hvU, hc, hvo⟩
    rw [hvw] at hwait
    exact Finset.notMem_empty v hwait
  have hmem : ∀ c, v ∈ waiting children U order c ↔ c ∈ children v := by
    intro c
    simp only [waiting, Finset.mem_filter]
    exact ⟨fun hc => hc.2.1, fun hc => ⟨hvU, hc, hvo⟩⟩
  have hcard : ∀ c ∈ U, (waiting children U (order ++ [v]) c).card =
      if c ∈ children v then s.pending c - 1 else s.pending c := by
    intro c hc
    rw [waiting_snoc, h.pending c hc]
    split_ifs with hcv
    · exact Finset.card_erase_of_mem ((hmem c).mpr hcv)
    · rw [Finset.erase_eq_of_notMem fun hx => hcv ((hmem c).mp hx)]
  have hempty : ∀ c ∈ U, (waiting children U (order ++ [v]) c = ∅ ↔
      (if c ∈ children v then s.pending c - 1 else s.pending c) = 0) := fun c hc => by
    rw [← hcard c hc, Finset.card_eq_zero]
  refine ⟨?_, ?_, fun w hw => ?_, fun c hc => ?_, fun c => ?_, h4 hrest fun c hc hx => ?_,
    fun pre w post he u hu hwu => ?_⟩
  · rw [h2, List.foldl_append, ← h.acc_eq]
    rfl
  · exact List.nodup_append.mpr ⟨h.nodup, List.nodup_singleton v, fun a ha b hb hab => hvo (by
      rw [← List.mem_singleton.mp hb, ← hab]
      exact ha)⟩
  · rcases List.mem_append.mp hw with hw | hw
    · exact h.sub w hw
    · rw [List.mem_singleton.mp hw]
      exact hvU
  · rw [h1, hcard c hc]
  · rw [h3]
    constructor
    · rintro (hc | ⟨hc, h0⟩)
      · obtain ⟨hcU, hco, hcw⟩ := (h.ready c).mp (by rw [hr]; exact List.mem_cons_of_mem v hc)
        refine ⟨hcU, ?_, ?_⟩
        · rw [List.mem_append, List.mem_singleton]
          rintro (hx | rfl)
          · exact hco hx
          · exact hvr hc
        · rw [waiting_snoc, hcw, Finset.erase_empty]
      · have hcU := hG.in_range v hvU c hc
        refine ⟨hcU, ?_, (hempty c hcU).mpr (by rw [if_pos hc]; exact h0)⟩
        rw [List.mem_append, List.mem_singleton]
        rintro (hx | rfl)
        · obtain ⟨pre, post, rfl⟩ := List.append_of_mem hx
          exact hvo (List.mem_append_left _ (h.before pre c post rfl v hvU hc))
        · exact hself hc
    · rintro ⟨hcU, hco, hcw⟩
      rw [List.mem_append, List.mem_singleton, not_or] at hco
      have h0 := (hempty c hcU).mp hcw
      split_ifs at h0 with hc
      · exact Or.inr ⟨hc, h0⟩
      · rw [h.pending c hcU, Finset.card_eq_zero] at h0
        have hx := (h.ready c).mpr ⟨hcU, hco.1, h0⟩
        rw [hr, List.mem_cons] at hx
        exact Or.inl (hx.resolve_left hco.2)
  · obtain ⟨-, -, hcw⟩ := (h.ready c).mp (by rw [hr]; exact List.mem_cons_of_mem v hx)
    have hv := (hmem c).mpr hc
    rw [hcw] at hv
    exact Finset.notMem_empty v hv
  · rcases List.eq_nil_or_concat' post with rfl | ⟨post, z, rfl⟩
    · obtain ⟨rfl, hvw'⟩ := List.append_inj' he rfl
      obtain rfl : v = w := by simpa using hvw'
      by_contra hx
      have : u ∈ waiting children U order v := Finset.mem_filter.mpr ⟨hu, hwu, hx⟩
      rw [hvw] at this
      exact Finset.notMem_empty u this
    · have he' : order ++ [v] = (pre ++ w :: post) ++ [z] := by simpa using he
      exact h.before pre w post (List.append_inj' he' rfl).1 u hu hwu

/-- A sweep with nothing ready has popped every node: in an acyclic graph, a node left over has a
first one among its ancestors left over, and that one waits for nothing. -/
theorem Popped.topological (hG : Graph children U) (h : Popped children U visit acc order s)
    (hr : s.ready = []) : Topological children U order := by
  refine ⟨h.nodup, fun v => ⟨h.sub v, fun hv => ?_⟩, h.before⟩
  by_contra hvo
  have hfin : Finite {v // v ∈ U} := Finset.finite_toSet U
  let r : {v // v ∈ U} → {v // v ∈ U} → Prop := fun a b =>
    TransGen (fun a b => b ∈ children a) a.1 b.1
  have htrans : IsTrans {v // v ∈ U} r := ⟨fun _ _ _ hab hbc => hab.trans hbc⟩
  have hirr : Std.Irrefl r := ⟨fun a ha => hG.acyclic a.1 ha⟩
  have hwf : WellFounded r := Finite.wellFounded_of_trans_of_irrefl r
  obtain ⟨m, hm, hmin⟩ := hwf.has_min {a | a.1 ∉ order} ⟨⟨v, hv⟩, hvo⟩
  have hw : waiting children U order m.1 ≠ ∅ := by
    intro hw
    have := (h.ready m.1).mpr ⟨m.2, hm, hw⟩
    rw [hr] at this
    exact List.not_mem_nil this
  obtain ⟨u, hu⟩ := Finset.nonempty_iff_ne_empty.mpr hw
  obtain ⟨huU, huc, huo⟩ := Finset.mem_filter.mp hu
  exact hmin ⟨u, huU⟩ huo (TransGen.single huc)

theorem run_popped (hG : Wired children U) : ∀ (fuel : Nat) {order : List α} {s : Sweep α σ},
    Popped children U visit acc order s → U.card < order.length + fuel →
    ∃ order', Popped children U visit acc order' (run children visit fuel s) ∧
      (run children visit fuel s).ready = []
  | 0, order, s, h, hf => by
    have hle : order.length ≤ U.card := by
      rw [← List.toFinset_card_of_nodup h.nodup]
      exact Finset.card_le_card fun v hv => h.sub v (List.mem_toFinset.mp hv)
    omega
  | fuel + 1, order, s, h, hf => by
    unfold run
    cases hr : s.ready with
    | nil => exact ⟨order, h, hr⟩
    | cons v rest =>
      exact run_popped hG fuel (h.step hG hr) (by
        rw [List.length_append, List.length_singleton]
        omega)

variable {pending : α → Nat} {ready : List α} {fuel : Nat}

/-- Where a sweep starts. -/
theorem popped_nil (hp : ∀ v ∈ U, pending v = (U.filter fun u => v ∈ children u).card)
    (hr : ∀ v, v ∈ ready ↔ v ∈ U ∧ pending v = 0) (hn : ready.Nodup) :
    Popped children U visit acc [] ⟨pending, ready, acc⟩ := by
  have hw : ∀ v, waiting children U [] v = U.filter fun u => v ∈ children u := by
    intro v
    simp [waiting]
  refine ⟨rfl, List.nodup_nil, fun _ h => absurd h List.not_mem_nil,
    fun v hv => by rw [hw]; exact hp v hv, fun v => ?_, hn,
    fun pre v post he => absurd he (by simp)⟩
  rw [hr, hw, ← Finset.card_eq_zero]
  constructor
  · rintro ⟨hv, h0⟩
    exact ⟨hv, List.not_mem_nil, by rw [← hp v hv, h0]⟩
  · rintro ⟨hv, -, h0⟩
    exact ⟨hv, by rw [hp v hv, h0]⟩

/-- **A sweep visits the nodes in a topological order.** -/
theorem run_spec (visit : Visit α σ) (acc : σ) (hG : Graph children U)
    (hp : ∀ v ∈ U, pending v = (U.filter fun u => v ∈ children u).card)
    (hr : ∀ v, v ∈ ready ↔ v ∈ U ∧ pending v = 0) (hn : ready.Nodup)
    (hf : U.card < fuel) : ∃ order, Topological children U order ∧
      (run children visit fuel ⟨pending, ready, acc⟩).acc =
        order.foldl (visitAll children visit) acc := by
  obtain ⟨order, h, hend⟩ := run_popped hG.wired fuel
    (popped_nil hp hr hn : Popped children U visit acc [] ⟨pending, ready, acc⟩) (by simpa using hf)
  exact ⟨order, h.topological hG hend, h.acc_eq⟩

theorem Topological.idxOf_lt (h : Topological children U order) {a b : α} (ha : a ∈ U) (hb : b ∈ U)
    (hab : b ∈ children a) : order.idxOf a < order.idxOf b := by
  obtain ⟨pre, post, he⟩ := List.append_of_mem ((h.mem b).mpr hb)
  have ha' : a ∈ pre := h.before pre b post he a ha hab
  have hb' : b ∉ pre := fun hmem => by
    have hnd := h.nodup
    rw [he] at hnd
    exact (List.nodup_append.mp hnd).2.2 b hmem b List.mem_cons_self rfl
  have hlt := List.idxOf_lt_length_iff.mpr ha'
  rw [he, List.idxOf_append_of_mem ha', List.idxOf_append_of_notMem hb']
  omega

theorem Topological.acyclic (h : Topological children U order) (hG : Wired children U)
    (hsrc : ∀ a b, b ∈ children a → a ∈ U) (v : α) :
    ¬ TransGen (fun a b => b ∈ children a) v v := by
  have hlt : ∀ a b, TransGen (fun a b => b ∈ children a) a b →
      order.idxOf a < order.idxOf b := by
    intro a b hab
    induction hab with
    | single hst => exact h.idxOf_lt (hsrc _ _ hst) (hG.in_range _ (hsrc _ _ hst) _ hst) hst
    | tail _ hst ih =>
      exact ih.trans (h.idxOf_lt (hsrc _ _ hst) (hG.in_range _ (hsrc _ _ hst) _ hst) hst)
  exact fun hv => (hlt v v hv).false

/-- **A sweep pops every node iff there is no cycle.** -/
theorem run_acyclic_iff (visit : Visit α σ) (acc : σ) (hG : Wired children U)
    (hsrc : ∀ a b, b ∈ children a → a ∈ U)
    (hp : ∀ v ∈ U, pending v = (U.filter fun u => v ∈ children u).card)
    (hr : ∀ v, v ∈ ready ↔ v ∈ U ∧ pending v = 0) (hn : ready.Nodup)
    (hf : U.card < fuel) : ∃ order : List α,
      (run children visit fuel ⟨pending, ready, acc⟩).acc =
        order.foldl (visitAll children visit) acc ∧
      (order.length = U.card ↔
        ∀ v, ¬ TransGen (fun a b => b ∈ children a) v v) ∧
      (order.length = U.card → Topological children U order) := by
  obtain ⟨order, h, hend⟩ := run_popped hG fuel
    (popped_nil hp hr hn : Popped children U visit acc [] ⟨pending, ready, acc⟩) (by simpa using hf)
  have hcard : order.toFinset.card = order.length := List.toFinset_card_of_nodup h.nodup
  have htop : order.length = U.card → Topological children U order := fun hlen => by
    have hU : order.toFinset = U := Finset.eq_of_subset_of_card_le
      (fun v hv => h.sub v (List.mem_toFinset.mp hv)) (by omega)
    exact ⟨h.nodup, fun v => by rw [← List.mem_toFinset, hU], h.before⟩
  refine ⟨order, h.acc_eq, ⟨fun hlen => (htop hlen).acyclic hG hsrc, fun hac => ?_⟩, htop⟩
  have htop := h.topological ⟨hG.in_range, hG.nodup, hac⟩ hend
  rw [← hcard]
  congr 1
  ext v
  rw [List.mem_toFinset, htop.mem]

end Sweeps

end Antecedent.Kahn
