import Antecedent.Identify.ConditionalWitness
import Mathlib.Algebra.BigOperators.Ring.Finset

/-!
# The laws of a witness model

`Scm` is a latent model over the rationals and `law` its truncated factorisation. The tables of
`Integral::new` are the factors over the common denominators (`integral_computes`), and `cell` sums
them to the law of a world under an intervention (`cell_gives`); checked arithmetic refuses at most.
-/

namespace Antecedent.Identify.Witness

open Graph Core

/-! ## Models over the rationals -/

/-- A latent model in two populations: the latent laws, and per node the probability of `1` in each
row of its mechanism. -/
structure Scm where
  latents : List (List Rat)
  source : List (List Rat)
  target : List (List Rat)

/-- The configurations of latents with these cardinalities. -/
def configs : List Nat → List (List Nat)
  | [] => [[]]
  | c :: cards => (List.range c).flatMap fun l => (configs cards).map (l :: ·)

namespace Scm

variable (shape : Shape) (m : Scm)

def cards : List Nat := m.latents.map List.length

def mass (u : List Nat) : Rat := ((m.latents.zip u).map fun (law, l) => law.getD l 0).prod

def mechanisms (target : Bool) : List (List Rat) := if target then m.target else m.source

/-- `P(j = world_j | row)`. -/
def factor (target : Bool) (j world : Nat) (u : List Nat) : Rat :=
  let one := ((m.mechanisms target).getD j []).getD (shape.row j world u m.cards) 0
  if world.testBit j then one else 1 - one

/-- **Truncated factorisation**: the law of the world under `do(mask)`, summed over the latents. -/
def law (target : Bool) (mask world : Nat) : Rat :=
  ((configs m.cards).map fun u => m.mass u *
    (((List.range shape.n).filter fun j => !mask.testBit j).map
      fun j => m.factor shape target j world u).prod).sum

/-- `P*(y | do(x), w)` at a level. -/
def query (at_ : Level) : Rat :=
  (((at_.worlds shape.n).filter fun world => world &&& at_.yMask = at_.yBits).map
      fun world => m.law shape true at_.xMask world).sum /
    ((at_.worlds shape.n).map fun world => m.law shape true at_.xMask world).sum

end Scm

/-! ## Enumerating the configurations -/

section Configs

theorem mem_configs : ∀ {cards u : List Nat}, u ∈ configs cards ↔
    List.Forall₂ (fun l c => l < c) u cards
  | [], u => by simp [configs]
  | c :: cards, u => by
    unfold configs
    rw [List.mem_flatMap]
    constructor
    · rintro ⟨l, hl, hu⟩
      obtain ⟨t, ht, rfl⟩ := List.mem_map.mp hu
      exact .cons (List.mem_range.mp hl) (mem_configs.mp ht)
    · rintro (_ | ⟨hl, ht⟩)
      exact ⟨_, List.mem_range.mpr hl, List.mem_map.mpr ⟨_, mem_configs.mpr ht, rfl⟩⟩

/-- Each configuration of the list is the next of the one before it, and the last wraps to zero. -/
inductive Runs (cards : List Nat) : List (List Nat) → Prop
  | last (u : List Nat) : nextConfig u cards = (cards.map fun _ => 0, false) → Runs cards [u]
  | cons (u v : List Nat) (us : List (List Nat)) : nextConfig u cards = (v, true) →
      Runs cards (v :: us) → Runs cards (u :: v :: us)

variable {cards : List Nat} {us : List (List Nat)} {c l : Nat}

/-- A run under a head that is not the last level goes on with the next level. -/
theorem runs_append (hl : l + 1 < c) {us vs : List (List Nat)}
    (hus : Runs cards us) (hvs : Runs (c :: cards) (((l + 1) :: cards.map fun _ => 0) :: vs)) :
    Runs (c :: cards) (us.map (l :: ·) ++ ((l + 1) :: cards.map fun _ => 0) :: vs) := by
  induction hus with
  | last u h =>
    refine .cons _ _ _ ?_ hvs
    simp [nextConfig, h, hl]
  | cons u v us h _ ih =>
    refine .cons _ _ _ ?_ ih
    simp [nextConfig, h]

theorem runs_last (hl : l + 1 = c)
    (hus : Runs cards us) : Runs (c :: cards) (us.map (l :: ·)) := by
  induction hus with
  | last u h =>
    refine .last _ ?_
    simp [nextConfig, h, hl]
  | cons u v us h _ ih =>
    refine .cons _ _ _ ?_ ih
    simp [nextConfig, h]

theorem runs_from {c : Nat}
    (hus : Runs cards us) (hzero : us.head? = some (cards.map fun _ => 0)) :
    ∀ (k l : Nat), l + k + 1 = c →
      Runs (c :: cards) ((List.range' l (k + 1)).flatMap fun l => us.map (l :: ·))
  | 0, l, h => by
    rw [List.range'_one, List.flatMap_singleton]
    exact runs_last h hus
  | k + 1, l, h => by
    have ih := runs_from hus hzero k (l + 1) (show l + 1 + k + 1 = c by omega)
    rw [List.range'_succ, List.flatMap_cons]
    obtain ⟨u₀, us, rfl⟩ : ∃ u₀ us', us = u₀ :: us' := by
      cases hus with
      | last u => exact ⟨u, [], rfl⟩
      | cons u v us => exact ⟨u, v :: us, rfl⟩
    obtain rfl := Option.some.inj hzero
    rw [List.range'_succ, List.flatMap_cons, List.map_cons, List.cons_append] at ih ⊢
    exact runs_append (show l + 1 < c by omega) hus ih

theorem runs_configs : ∀ {cards : List Nat}, (∀ c ∈ cards, 0 < c) →
    Runs cards (configs cards) ∧ (configs cards).head? = some (cards.map fun _ => 0)
  | [], _ => ⟨.last [] rfl, rfl⟩
  | c :: cards, h => by
    obtain ⟨hruns, hhead⟩ := runs_configs fun d hd => h d (List.mem_cons_of_mem _ hd)
    obtain ⟨k, rfl⟩ := Nat.exists_eq_succ_of_ne_zero (h c List.mem_cons_self).ne'
    unfold configs
    rw [List.range_eq_range']
    refine ⟨runs_from hruns hhead k 0 (by omega), ?_⟩
    rw [List.range'_succ, List.flatMap_cons]
    cases hc : configs cards with
    | nil => rw [hc] at hhead; cases hhead
    | cons u us =>
      rw [hc] at hhead
      obtain rfl := Option.some.inj hhead
      rfl

theorem codesFrom_runs (h : Runs cards us) :
    ∀ u, us.head? = some u → codesFrom cards us.length u = us := by
  induction h with
  | last u h =>
    rintro _ ⟨⟩
    rfl
  | cons u v us h _ ih =>
    rintro _ ⟨⟩
    rw [List.length_cons, codesFrom, h, ih v rfl]

theorem length_configs : ∀ cards : List Nat, (configs cards).length = cards.prod
  | [] => rfl
  | c :: cards => by
    unfold configs
    rw [List.length_flatMap]
    simp [length_configs cards]

/-- **The enumeration** visits the configurations, each once. -/
theorem codesFrom_eq (h : ∀ c ∈ cards, 0 < c) :
    codesFrom cards cards.prod (cards.map fun _ => 0) = configs cards := by
  obtain ⟨hruns, hhead⟩ := runs_configs h
  rw [← length_configs]
  exact codesFrom_runs hruns _ hhead

end Configs

/-! ## Rows over a common denominator -/

section Rows

/-- `x` returns `v` or refuses, under a map. -/
theorem Computes.map {α β : Type} {x : Except Fault α} {v : α} (f : α → β) (h : Computes x v) :
    Computes (x >>= fun a => .ok (f a)) (f v) := h.bind fun _ => .inl rfl

theorem mapM_computes {α β : Type} {f : α → Except Fault β} {g : α → β} : ∀ {l : List α},
    (∀ x ∈ l, Computes (f x) (g x)) → Computes (l.mapM f) (l.map g)
  | [], _ => .inl rfl
  | x :: l, h => by
    rw [List.mapM_cons]
    exact (h x List.mem_cons_self).bind fun _ =>
      (mapM_computes fun y hy => h y (List.mem_cons_of_mem _ hy)).bind fun _ => .inl rfl

theorem foldlM_mul {α : Type} {f : α → Except Fault Int} {g : α → Int} : ∀ {l : List α},
    (∀ x ∈ l, f x = .ok (g x)) → ∀ acc : Int,
      Computes (l.foldlM (fun acc x => do checked (acc * (← f x))) acc) (acc * (l.map g).prod)
  | [], _, acc => .inl (by rw [List.map_nil, List.prod_nil, mul_one]; rfl)
  | x :: l, h, acc => by
    rw [List.foldlM_cons, List.map_cons, List.prod_cons, ← mul_assoc, h x List.mem_cons_self]
    exact (checked_computes _).bind fun _ =>
      foldlM_mul (fun y hy => h y (List.mem_cons_of_mem _ hy)) _

/-- The least common denominator of the rationals, above `l`. -/
def lcmFrom (l : Nat) (rs : List Rat) : Nat := rs.foldl (fun l r => Nat.lcm l r.den) l

theorem lcmFrom_cons (l : Nat) (r : Rat) (rs : List Rat) :
    lcmFrom l (r :: rs) = lcmFrom (Nat.lcm l r.den) rs := rfl

theorem dvd_lcmFrom : ∀ {rs : List Rat} {l : Nat}, l ∣ lcmFrom l rs ∧ ∀ r ∈ rs, r.den ∣ lcmFrom l rs
  | [], l => ⟨dvd_refl _, fun _ h => absurd h List.not_mem_nil⟩
  | r :: rs, l => by
    obtain ⟨hl, hrs⟩ := @dvd_lcmFrom rs (Nat.lcm l r.den)
    refine ⟨(Nat.dvd_lcm_left _ _).trans hl, fun s hs => ?_⟩
    obtain rfl | hs := List.mem_cons.mp hs
    · exact (Nat.dvd_lcm_right _ _).trans hl
    · exact hrs s hs

theorem lcmFrom_pos : ∀ {rs : List Rat} {l : Nat}, 0 < l → 0 < lcmFrom l rs
  | [], _, h => h
  | r :: rs, l, h => by
    rw [lcmFrom_cons]
    exact lcmFrom_pos (Nat.lcm_pos h r.den_pos)

/-- The fold of `common` is the least common denominator. -/
theorem foldlM_lcm : ∀ {rs : List Rat}, (∀ r ∈ rs, Fits r) → ∀ {l : Nat}, 0 < l → l < i128Bound →
    ((rs.map Q.ofRat).foldlM (fun lcm q => do checked ((← quot lcm (← gcd lcm q.d)) * q.d))
        (l : Int) = .ok ((lcmFrom l rs : Nat) : Int) ∧ lcmFrom l rs < i128Bound) ∨
      (rs.map Q.ofRat).foldlM (fun lcm q => do checked ((← quot lcm (← gcd lcm q.d)) * q.d))
        (l : Int) = .error .refused
  | [], _, _, _, hlt => .inl ⟨rfl, hlt⟩
  | r :: rs, h, l, hl, hlt => by
    have hr := h r List.mem_cons_self
    have hg : Nat.gcd l r.den ≠ 0 := Nat.gcd_ne_zero_left hl.ne'
    have hlcm : l / Nat.gcd l r.den * r.den = Nat.lcm l r.den :=
      (Nat.div_mul_right_comm (Nat.gcd_dvd_left _ _) _)
    rw [List.map_cons, List.foldlM_cons, lcmFrom_cons]
    have hd : (Q.ofRat r).d = (r.den : Int) := rfl
    rw [hd, gcd_natCast hlt hr.den, ok_bind, quot_natCast hlt hg, ok_bind, ← Nat.cast_mul, hlcm]
    obtain ⟨hc, hlt'⟩ | hc := checked_natCast (Nat.lcm l r.den)
    · rw [hc, ok_bind]
      exact foldlM_lcm (fun s hs => h s (List.mem_cons_of_mem _ hs)) (Nat.lcm_pos hl r.den_pos) hlt'
    · exact .inr (by rw [hc, error_bind])

/-- The numerator of `r` over the denominator `l`. -/
def numerOver (l : Nat) (r : Rat) : Nat := r.num.natAbs * (l / r.den)

theorem numerOver_div {l : Nat} {r : Rat} (hr : Fits r) (hd : r.den ∣ l) :
    (numerOver l r : Rat) = r * l := by
  obtain ⟨k, rfl⟩ := hd
  unfold numerOver
  rw [Nat.mul_div_cancel_left _ r.den_pos]
  have hn : ((r.num.natAbs : Nat) : Rat) = r.num := by
    rw [← Int.cast_natCast, Int.natAbs_of_nonneg (Rat.num_nonneg.mpr hr.nonneg)]
  rw [Nat.cast_mul, Nat.cast_mul, hn, ← mul_assoc, Rat.mul_den_eq_num]

/-- **A row** is put over its least common denominator. -/
theorem common_computes {rs : List Rat} (h : ∀ r ∈ rs, Fits r) :
    Computes (common (rs.map Q.ofRat))
      ((lcmFrom 1 rs : Nat), rs.map fun r => ((numerOver (lcmFrom 1 rs) r : Nat) : Int)) ∧
    ∀ p, common (rs.map Q.ofRat) = .ok p → lcmFrom 1 rs < i128Bound := by
  unfold common
  obtain ⟨hl, hlt⟩ | hl := @foldlM_lcm rs h 1 Nat.one_pos (by decide)
  · rw [Nat.cast_one] at hl
    refine ⟨?_, fun _ _ => hlt⟩
    rw [hl, ok_bind]
    refine Computes.map (fun ns => (((lcmFrom 1 rs : Nat) : Int), ns)) ?_
    rw [List.mapM_map]
    refine mapM_computes fun r hr => ?_
    show Computes (quot _ (Q.ofRat r).d >>= fun k => checked ((Q.ofRat r).n * k)) _
    rw [(h r hr).ofRat, quot_natCast hlt r.den_nz, ok_bind, ← Nat.cast_mul]
    exact checked_computes _
  · rw [Nat.cast_one] at hl
    rw [hl, error_bind]
    exact ⟨.inr rfl, fun _ h => absurd h nofun⟩

end Rows

/-! ## The tables of a model -/

/-- A probability of a witness. -/
structure Prob (r : Rat) : Prop where
  pos : 0 < r
  lt_one : r < 1
  den : r.den < i128Bound

theorem Prob.fits {r : Rat} (h : Prob r) : Fits r := by
  refine ⟨h.pos.le, ?_, h.den⟩
  have hn : r.num < r.den := by
    have := (of_decide_eq_true (ofRat_strict.mpr ⟨h.pos, h.lt_one⟩)).2
    exact this
  have := Rat.num_pos.mpr h.pos
  have := h.den
  omega

/-- What the shape asks of a model: one law per edge, one mechanism per node with a probability per
row, all strictly positive. -/
structure Scm.Of (shape : Shape) (m : Scm) : Prop where
  edges : m.latents.length = shape.edges.length
  laws : ∀ law ∈ m.latents, (∀ r ∈ law, Prob r) ∧ law.sum = 1 ∧ 2 ≤ law.length
  nodes : ∀ target, (m.mechanisms target).length = shape.n
  rows : ∀ target, ∀ j < shape.n,
    ((m.mechanisms target).getD j []).length = shape.rows j m.cards
  probs : ∀ target, ∀ kernel ∈ m.mechanisms target, ∀ r ∈ kernel, Prob r

/-- The shape of a diagram refers to its own edges. -/
def Shape.Indexed (shape : Shape) : Prop :=
  ∀ j < shape.n, ∀ e ∈ shape.incident.getD j [], e < shape.edges.length

namespace Scm

variable (shape : Shape) (m : Scm)

def toModel : Model where
  cards := m.cards
  latents := m.latents.map fun law => law.map Q.ofRat
  source := m.source.map fun kernel => kernel.map Q.ofRat
  target := m.target.map fun kernel => kernel.map Q.ofRat

def kernelDen (target : Bool) (j : Nat) : Nat := lcmFrom 1 ((m.mechanisms target).getD j [])

/-- The numerator of a factor over it. -/
def kernelNum (target : Bool) (j world : Nat) (u : List Nat) : Nat :=
  let one := numerOver (m.kernelDen target j)
    (((m.mechanisms target).getD j []).getD (shape.row j world u m.cards) 0)
  if world.testBit j then one else m.kernelDen target j - one

def massNum (u : List Nat) : Nat :=
  ((m.latents.zip u).map fun p => numerOver (lcmFrom 1 p.1) (p.1.getD p.2 0)).prod

def massDen : Nat := (m.latents.map (lcmFrom 1)).prod

def table (target : Bool) (j : Nat) : Int × List (List Int) :=
  ((m.kernelDen target j : Nat), (List.range (2 ^ shape.n)).map fun world =>
    (configs m.cards).map fun u => ((m.kernelNum shape target j world u : Nat) : Int))

/-- The tables over the rationals. -/
def integral : Integral where
  latentMass := (configs m.cards).map fun u => ((m.massNum u : Nat) : Int)
  latentDen := (m.massDen : Nat)
  source := (List.range shape.n).map (m.table shape false)
  target := (List.range shape.n).map (m.table shape true)

end Scm

section Tables

variable {shape : Shape} {m : Scm} {α : Type} {j : Nat} {cards u : List Nat} {xs : List α}
  {u : List Nat}

theorem index_ok {i : Nat} (d : α) (h : i < xs.length) :
    index xs i = .ok (xs.getD i d) := by
  unfold index
  rw [List.getElem?_eq_getElem h, List.getD_eq_getElem _ _ h]

theorem getD_map {α β : Type} (f : α → β) (d : β) (d' : α) {xs : List α} {i : Nat}
    (h : i < xs.length) : (xs.map f).getD i d = f (xs.getD i d') := by
  rw [List.getD_eq_getElem _ _ (by rwa [List.length_map]), List.getElem_map,
    List.getD_eq_getElem _ _ h]

theorem foldl_bits_lt (world : Nat) : ∀ (ps : List Nat) (row : Nat),
    ps.foldl (fun row p => row <<< 1 ||| (world >>> p &&& 1)) row + 1 ≤ (row + 1) * 2 ^ ps.length
  | [], row => by simp
  | p :: ps, row => by
    have hbit : world >>> p &&& 1 < 2 := Nat.lt_succ_of_le Nat.and_le_right
    have hrow : row <<< 1 ||| (world >>> p &&& 1) = 2 * row + (world >>> p &&& 1) := by
      rw [Nat.shiftLeft_eq, pow_one, Nat.mul_comm]
      exact (Nat.two_pow_add_eq_or_of_lt (i := 1) hbit row).symm
    rw [List.foldl_cons, hrow, List.length_cons]
    calc _ ≤ (2 * row + (world >>> p &&& 1) + 1) * 2 ^ ps.length := foldl_bits_lt world ps _
      _ ≤ (2 * row + 2) * 2 ^ ps.length := Nat.mul_le_mul_right _ (by omega)
      _ = (row + 1) * 2 ^ (ps.length + 1) := by ring

theorem foldl_levels_lt : ∀ (es : List Nat) (row : Nat),
    (∀ e ∈ es, u.getD e 0 < cards.getD e 0) →
    es.foldl (fun row e => row * cards.getD e 0 + u.getD e 0) row + 1 ≤
      (row + 1) * (es.map (cards.getD · 0)).prod
  | [], row, _ => by simp
  | e :: es, row, h => by
    have he := h e List.mem_cons_self
    rw [List.foldl_cons, List.map_cons, List.prod_cons]
    calc _ ≤ (row * cards.getD e 0 + u.getD e 0 + 1) * (es.map (cards.getD · 0)).prod :=
          foldl_levels_lt es _ fun e' he' => h e' (List.mem_cons_of_mem _ he')
      _ ≤ (row * cards.getD e 0 + cards.getD e 0) * (es.map (cards.getD · 0)).prod :=
          Nat.mul_le_mul_right _ (by omega)
      _ = (row + 1) * (cards.getD e 0 * (es.map (cards.getD · 0)).prod) := by ring

theorem getD_lt_of_configs (hu : u ∈ configs cards) {e : Nat}
    (he : e < cards.length) : u.getD e 0 < cards.getD e 0 := by
  have h := mem_configs.mp hu
  rw [List.getD_eq_getElem _ _ he, List.getD_eq_getElem _ _ (h.length_eq ▸ he)]
  exact h.get (h.length_eq ▸ he) he

theorem row_lt (hshape : shape.Indexed) (hm : m.Of shape) (hj : j < shape.n)
    (world : Nat) (hu : u ∈ configs m.cards) :
    shape.row j world u m.cards < shape.rows j m.cards := by
  have hlen : m.cards.length = shape.edges.length := by
    rw [Scm.cards, List.length_map, hm.edges]
  have hbits := foldl_bits_lt world (shape.parents.getD j []) 0
  rw [zero_add, one_mul] at hbits
  unfold Shape.row Shape.rows
  exact (foldl_levels_lt _ _ fun e he => getD_lt_of_configs hu (hlen ▸ hshape j hj e he)).trans
    (Nat.mul_le_mul_right _ hbits)

theorem numerOver_le {l : Nat} {r : Rat} (hr : Prob r) (hd : r.den ∣ l) : numerOver l r ≤ l := by
  have h := numerOver_div hr.fits hd
  have hle : (numerOver l r : Rat) ≤ l := by
    rw [h]
    exact mul_le_of_le_one_left (Nat.cast_nonneg l) hr.lt_one.le
  exact_mod_cast hle

theorem mechanism_mem (hm : m.Of shape) (target : Bool) (hj : j < shape.n) :
    (m.mechanisms target).getD j [] ∈ m.mechanisms target := by
  rw [List.getD_eq_getElem _ _ ((hm.nodes target).symm ▸ hj)]
  exact List.getElem_mem _

theorem entry_mem (hshape : shape.Indexed) (hm : m.Of shape) (target : Bool)
    (hj : j < shape.n) (world : Nat) (hu : u ∈ configs m.cards) :
    ((m.mechanisms target).getD j []).getD (shape.row j world u m.cards) 0 ∈
      (m.mechanisms target).getD j [] := by
  have hlt := row_lt hshape hm hj world hu
  rw [← hm.rows target j hj] at hlt
  rw [List.getD_eq_getElem _ _ hlt]
  exact List.getElem_mem _

theorem shiftRight_and_one (world j : Nat) : world >>> j &&& 1 = 1 ↔ world.testBit j = true := by
  unfold Nat.testBit
  rw [Nat.and_comm, bne_iff_ne]
  have : 1 &&& world >>> j < 2 := Nat.lt_succ_of_le Nat.and_le_left
  omega

/-- **A table** is computed, or checked arithmetic refuses. -/
theorem tableOf_computes (hshape : shape.Indexed) (hm : m.Of shape) (target : Bool)
    (hj : j < shape.n) :
    Computes (tableOf shape m.cards (configs m.cards) j
      (((m.mechanisms target).getD j []).map Q.ofRat)) (m.table shape target j) := by
  have hprob := hm.probs target _ (mechanism_mem hm target hj)
  obtain ⟨hcommon, hlt⟩ := common_computes fun r hr => (hprob r hr).fits
  unfold tableOf
  refine hcommon.bind fun hok => ?_
  have hlt := hlt _ hok
  refine Computes.map (fun factors => (((m.kernelDen target j : Nat) : Int), factors)) ?_
  refine mapM_computes fun world _ => mapM_computes fun u hu => ?_
  have hentry := entry_mem hshape hm target hj world hu
  have hrow : shape.row j world u m.cards < ((m.mechanisms target).getD j []).length :=
    hm.rows target j hj ▸ row_lt hshape hm hj world hu
  have hle := numerOver_le (hprob _ hentry) ((@dvd_lcmFrom _ 1).2 _ hentry)
  rw [index_ok 0 (by rwa [List.length_map]), getD_map _ 0 0 hrow, ok_bind]
  unfold Scm.kernelNum
  by_cases hbit : world.testBit j = true
  · rw [if_pos ((shiftRight_and_one world j).mpr hbit), if_pos hbit]
    exact .inl rfl
  · rw [if_neg fun h => hbit ((shiftRight_and_one world j).mp h), if_neg hbit]
    have hle' : numerOver (m.kernelDen target j) (((m.mechanisms target).getD j []).getD
      (shape.row j world u m.cards) 0) ≤ m.kernelDen target j := hle
    rw [show lcmFrom 1 ((m.mechanisms target).getD j []) = m.kernelDen target j from rfl,
      ← Nat.cast_sub hle']
    exact .inl (unchecked_natCast ((Nat.sub_le _ _).trans_lt hlt))

theorem zip_range (d : α) {n : Nat} (h : xs.length = n) :
    (List.range n).zip xs = (List.range n).map fun j => (j, xs.getD j d) := by
  refine List.ext_getElem (by simp [h]) fun i h₁ h₂ => ?_
  have hi : i < xs.length := by
    rw [List.length_map, List.length_range] at h₂
    exact h ▸ h₂
  rw [List.getElem_zip, List.getElem_map, List.getElem_range, List.getD_eq_getElem _ _ hi]

theorem tables_compute (hshape : shape.Indexed) (hm : m.Of shape) (target : Bool) :
    Computes (((List.range shape.n).zip ((m.mechanisms target).map fun kernel =>
        kernel.map Q.ofRat)).mapM fun (j, kernel) =>
          tableOf shape m.cards (configs m.cards) j kernel)
      ((List.range shape.n).map (m.table shape target)) := by
  rw [zip_range [] (by rw [List.length_map, hm.nodes]), List.mapM_map]
  refine mapM_computes fun j hj => ?_
  have hj := List.mem_range.mp hj
  have hget := getD_map (List.map Q.ofRat) [] [] ((hm.nodes target).symm ▸ hj)
  show Computes (tableOf shape m.cards (configs m.cards) j _) _
  rw [hget]
  exact tableOf_computes hshape hm target hj

theorem foldlM_checked_mul {α : Type} {g : α → Int} : ∀ {l : List α} (acc : Int),
    Computes (l.foldlM (fun acc x => checked (acc * g x)) acc) (acc * (l.map g).prod)
  | [], acc => .inl (by rw [List.map_nil, List.prod_nil, mul_one]; rfl)
  | x :: l, acc => by
    rw [List.foldlM_cons, List.map_cons, List.prod_cons, ← mul_assoc]
    exact (checked_computes _).bind fun _ => foldlM_checked_mul _

theorem natCast_prod (g : α → Nat) (l : List α) :
    ((l.map fun x => ((g x : Nat) : Int)).prod) = (((l.map g).prod : Nat) : Int) := by
  induction l with
  | nil => rfl
  | cons x l ih => rw [List.map_cons, List.map_cons, List.prod_cons, List.prod_cons, ih, Nat.cast_mul]

theorem level_lt : ∀ {laws : List (List Rat)} {u : List Nat},
    u ∈ configs (laws.map List.length) → ∀ p ∈ laws.zip u, p.2 < p.1.length
  | [], _, _, _, hp => absurd hp (by simp)
  | law :: laws, u, hu, p, hp => by
    rw [List.map_cons, mem_configs] at hu
    obtain ⟨⟩ | ⟨hl, ht⟩ := hu
    obtain rfl | hp := List.mem_cons.mp hp
    · exact hl
    · exact level_lt (mem_configs.mpr ht) p hp

/-- **The tables of a model** are computed, or checked arithmetic refuses. -/
theorem integral_computes (hshape : shape.Indexed) (hm : m.Of shape) :
    Computes (Integral.new shape m.toModel) (m.integral shape) := by
  have hcards : ∀ c ∈ m.cards, 0 < c := fun c hc => by
    obtain ⟨law, hlaw, rfl⟩ := List.mem_map.mp hc
    have := (hm.laws law hlaw).2.2
    omega
  unfold Integral.new
  simp only [show m.toModel.cards = m.cards from rfl, codesFrom_eq hcards]
  refine Computes.bind (v := m.latents.map fun law => (((lcmFrom 1 law : Nat) : Int),
    law.map fun r => ((numerOver (lcmFrom 1 law) r : Nat) : Int))) ?_ fun _ => ?_
  · show Computes ((m.latents.map fun law => law.map Q.ofRat).mapM common) _
    rw [List.mapM_map]
    exact mapM_computes fun law hlaw =>
      (common_computes fun r hr => ((hm.laws law hlaw).1 r hr).fits).1
  refine Computes.bind (v := ((m.massDen : Nat) : Int)) ?_ fun _ => ?_
  · have h := @foldlM_checked_mul _ (fun law : Int × List Int => law.1) (m.latents.map fun law =>
      (((lcmFrom 1 law : Nat) : Int), law.map fun r =>
        ((numerOver (lcmFrom 1 law) r : Nat) : Int))) 1
    rw [one_mul, List.map_map] at h
    rw [show m.massDen = (m.latents.map (lcmFrom 1)).prod from rfl, ← natCast_prod]
    exact h
  refine Computes.bind (v := (configs m.cards).map fun u => ((m.massNum u : Nat) : Int))
    (mapM_computes fun u hu => ?_) fun _ => ?_
  · have hlevel := level_lt hu
    rw [List.zip_map_left, List.foldlM_map]
    have h := @foldlM_mul _ (fun p : List Rat × Nat =>
        index (p.1.map fun r => ((numerOver (lcmFrom 1 p.1) r : Nat) : Int)) p.2)
      (fun p => ((numerOver (lcmFrom 1 p.1) (p.1.getD p.2 0) : Nat) : Int)) (m.latents.zip u)
      (fun p hp => by
        rw [index_ok 0 (by rw [List.length_map]; exact hlevel p hp), getD_map _ 0 0 (hlevel p hp)]) 1
    rw [one_mul, natCast_prod] at h
    exact h
  refine (tables_compute hshape hm false).bind fun _ => ?_
  exact (tables_compute hshape hm true).bind fun _ => .inl rfl

theorem foldlM_inRange {f : Int → α → Except Fault Int}
    (hf : ∀ acc x y, f acc x = .ok y → InI128 y) : ∀ {l : List α} {acc v : Int}, InI128 acc →
      l.foldlM f acc = .ok v → InI128 v
  | [], _, _, h, hv => Except.ok.inj hv ▸ h
  | x :: l, acc, v, _, hv => by
    rw [List.foldlM_cons] at hv
    obtain ⟨y, hy, hv⟩ := bind_ok hv
    exact foldlM_inRange hf (hf acc x y hy) hv

theorem checked_inRange {x y : Int} (h : checked x = .ok y) : InI128 y :=
  (checked_computes x).ok h ▸ inI128_of_checked h

theorem one_inI128 : InI128 1 := ⟨by decide, by decide⟩

theorem integral_latentDen {model : Model} {tables : Integral}
    (h : Integral.new shape model = .ok tables) : InI128 tables.latentDen := by
  unfold Integral.new at h
  obtain ⟨laws, -, h⟩ := bind_ok h
  obtain ⟨den, hden, h⟩ := bind_ok h
  obtain ⟨_, -, h⟩ := bind_ok h
  obtain ⟨_, -, h⟩ := bind_ok h
  obtain ⟨_, -, h⟩ := bind_ok h
  obtain rfl := Except.ok.inj h
  exact foldlM_inRange (fun _ _ _ => checked_inRange) one_inI128 hden

end Tables

/-! ## The cells -/

section Cells

variable {shape : Shape} {m : Scm} {u : List Nat}

/-- The nodes that `do(mask)` leaves free. -/
def Shape.free (shape : Shape) (mask : Nat) : List Nat :=
  (List.range shape.n).filter fun j => !mask.testBit j

theorem mask_and_shiftLeft (mask j : Nat) : mask &&& 1 <<< j = 0 ↔ mask.testBit j = false := by
  rw [Nat.one_shiftLeft]
  constructor
  · intro h
    have := congrArg (·.testBit j) h
    simpa [Nat.testBit_and, Nat.testBit_two_pow_self] using this
  · intro h
    refine Nat.eq_of_testBit_eq fun i => ?_
    rw [Nat.testBit_and, Nat.testBit_two_pow, Nat.zero_testBit]
    by_cases hij : j = i
    · rw [← hij, h, Bool.false_and]
    · rw [decide_eq_false hij, Bool.and_false]

theorem filterMap_free (shape : Shape) {α : Type} (mask : Nat) (table : Nat → α) :
    (((List.range shape.n).zip ((List.range shape.n).map table)).filterMap fun (j, kernel) =>
      if mask &&& 1 <<< j = 0 then some kernel else none) = (shape.free mask).map table := by
  unfold Shape.free
  rw [List.zip_map_right]
  induction List.range shape.n with
  | nil => rfl
  | cons j js ih =>
    rw [List.zip_cons_cons, List.map_cons, List.filterMap_cons, ih, List.filter_cons]
    by_cases h : mask.testBit j = true
    · have hm : ¬ mask &&& 1 <<< j = 0 := fun h0 => by simp [(mask_and_shiftLeft mask j).mp h0] at h
      simp [h, hm]
    · have hm := (mask_and_shiftLeft mask j).mpr (by simpa using h)
      simp [h, hm]

theorem numerOver_entry {l : Nat} {rs : List Rat} (hrs : ∀ r ∈ rs, Fits r) (i : Nat)
    (hi : i < rs.length) : (numerOver (lcmFrom l rs) (rs.getD i 0) : Rat) =
      rs.getD i 0 * lcmFrom l rs := by
  have hmem : rs.getD i 0 ∈ rs := by
    rw [List.getD_eq_getElem _ _ hi]
    exact List.getElem_mem _
  exact numerOver_div (hrs _ hmem) (dvd_lcmFrom.2 _ hmem)

theorem massNum_eq (hm : m.Of shape) (hu : u ∈ configs m.cards) :
    (m.massNum u : Rat) = m.mass u * m.massDen := by
  have hlevel := level_lt hu
  have hlen : m.latents.length ≤ u.length := by
    have := (mem_configs.mp hu).length_eq
    rw [this, Scm.cards, List.length_map]
  have hden : m.massDen = ((m.latents.zip u).map fun p => lcmFrom 1 p.1).prod := by
    conv_lhs => rw [Scm.massDen, ← List.map_fst_zip hlen, List.map_map]
    rfl
  have hfits : ∀ p ∈ m.latents.zip u, ∀ r ∈ p.1, Fits r := fun p hp r hr =>
    ((hm.laws _ (List.of_mem_zip hp).1).1 r hr).fits
  unfold Scm.massNum Scm.mass
  rw [hden]
  generalize m.latents.zip u = ps at hlevel hfits
  induction ps with
  | nil => simp
  | cons p ps ih =>
    rw [List.map_cons, List.map_cons, List.map_cons, List.prod_cons, List.prod_cons, List.prod_cons,
      Nat.cast_mul, Nat.cast_mul, ih (fun q hq => hlevel q (List.mem_cons_of_mem _ hq))
        (fun q hq => hfits q (List.mem_cons_of_mem _ hq)),
      numerOver_entry (hfits p List.mem_cons_self) _ (hlevel p List.mem_cons_self)]
    ring

theorem kernelNum_eq (hshape : shape.Indexed) (hm : m.Of shape) (target : Bool) {j : Nat}
    (hj : j < shape.n) (world : Nat) (hu : u ∈ configs m.cards) :
    (m.kernelNum shape target j world u : Rat) =
      m.factor shape target j world u * m.kernelDen target j := by
  have hprob := hm.probs target _ (mechanism_mem hm target hj)
  have hentry := entry_mem hshape hm target hj world hu
  have hle := numerOver_le (hprob _ hentry) ((@dvd_lcmFrom _ 1).2 _ hentry)
  have hone := @numerOver_entry 1 _ (fun r hr => (hprob r hr).fits) _
    (hm.rows target j hj ▸ row_lt hshape hm hj world hu)
  unfold Scm.kernelNum Scm.factor
  split
  · exact hone
  · rw [show m.kernelDen target j = lcmFrom 1 ((m.mechanisms target).getD j []) from rfl,
      Nat.cast_sub hle, hone]
    ring

theorem prod_kernelNum (hshape : shape.Indexed) (hm : m.Of shape) (target : Bool) (world : Nat)
    (hu : u ∈ configs m.cards) : ∀ {js : List Nat}, (∀ j ∈ js, j < shape.n) →
    (((js.map fun j => m.kernelNum shape target j world u).prod : Nat) : Rat) =
      (js.map fun j => m.factor shape target j world u).prod *
        ((js.map fun j => m.kernelDen target j).prod : Nat)
  | [], _ => by simp
  | j :: js, h => by
    rw [List.map_cons, List.map_cons, List.map_cons, List.prod_cons, List.prod_cons, List.prod_cons,
      Nat.cast_mul, Nat.cast_mul, kernelNum_eq hshape hm target (h j List.mem_cons_self) world hu,
      prod_kernelNum hshape hm target world hu fun k hk => h k (List.mem_cons_of_mem _ hk)]
    ring

def Scm.cellNum (shape : Shape) (m : Scm) (target : Bool) (mask world : Nat) : Nat :=
  ((configs m.cards).map fun u => m.massNum u *
    ((shape.free mask).map fun j => m.kernelNum shape target j world u).prod).sum

def Scm.cellDen (shape : Shape) (m : Scm) (target : Bool) (mask : Nat) : Nat :=
  m.massDen * ((shape.free mask).map fun j => m.kernelDen target j).prod

theorem mem_free {mask j : Nat} (h : j ∈ shape.free mask) : j < shape.n :=
  List.mem_range.mp (List.mem_of_mem_filter h)

theorem cellDen_pos (target : Bool) (mask : Nat) : 0 < m.cellDen shape target mask := by
  have hprod : ∀ ns : List Nat, (∀ n ∈ ns, 0 < n) → 0 < ns.prod := fun ns h =>
    Nat.pos_of_ne_zero fun h0 => absurd (h 0 (List.prod_eq_zero_iff.mp h0)) (lt_irrefl 0)
  refine Nat.mul_pos (hprod _ fun n hn => ?_) (hprod _ fun n hn => ?_)
  · obtain ⟨law, -, rfl⟩ := List.mem_map.mp hn
    exact lcmFrom_pos Nat.one_pos
  · obtain ⟨j, -, rfl⟩ := List.mem_map.mp hn
    exact lcmFrom_pos Nat.one_pos

/-- **The sum over the common denominator** is the law. -/
theorem cellNum_div (hshape : shape.Indexed) (hm : m.Of shape) (target : Bool) (mask world : Nat) :
    (m.cellNum shape target mask world : Rat) / m.cellDen shape target mask =
      m.law shape target mask world := by
  have hd : (m.cellDen shape target mask : Rat) ≠ 0 := by
    exact_mod_cast (cellDen_pos target mask).ne'
  rw [div_eq_iff hd]
  unfold Scm.cellNum Scm.law Scm.cellDen
  rw [Nat.cast_list_sum, List.map_map, ← List.sum_map_mul_right]
  refine congrArg List.sum (List.map_congr_left fun u hu => ?_)
  show ((m.massNum u * _ : Nat) : Rat) = _
  rw [Nat.cast_mul, massNum_eq hm hu,
    prod_kernelNum hshape hm target world hu fun j hj => mem_free hj, Nat.cast_mul]
  unfold Shape.free
  ring

theorem foldlM_total {α : Type} {f : α → Except Fault Int} {g : α → Int} : ∀ {ps : List α},
    (∀ p ∈ ps, Computes (f p) (g p)) → ∀ acc : Int,
      Computes (ps.foldlM (fun total p => do
        let mass ← f p
        checked (total + mass)) acc) (acc + (ps.map g).sum)
  | [], _, acc => .inl (by rw [List.map_nil, List.sum_nil, add_zero]; rfl)
  | p :: ps, h, acc => by
    rw [List.foldlM_cons, List.map_cons, List.sum_cons, ← add_assoc]
    refine Computes.bind (v := acc + g p) ?_ fun _ =>
      foldlM_total (fun q hq => h q (List.mem_cons_of_mem _ hq)) _
    exact (h p List.mem_cons_self).bind fun _ => checked_computes _

theorem map_range_getD {α β : Type} (d : α) (xs : List α) (h : α → β) :
    ((List.range xs.length).map fun k => h (xs.getD k d)) = xs.map h := by
  refine List.ext_getElem (by simp) fun i h₁ h₂ => ?_
  rw [List.length_map] at h₂
  rw [List.getElem_map, List.getElem_map, List.getElem_range, List.getD_eq_getElem _ _ h₂]

theorem mass_computes (target : Bool) (mask world k : Nat) (hk : k < (configs m.cards).length) :
    Computes (((shape.free mask).map fun j => (configs m.cards).map fun u =>
        ((m.kernelNum shape target j world u : Nat) : Int)).foldlM
        (fun mass row => do checked (mass * (← index row k))) (m.massNum ((configs m.cards).getD k []) : Int))
      ((m.massNum ((configs m.cards).getD k []) * ((shape.free mask).map fun j =>
        m.kernelNum shape target j world ((configs m.cards).getD k [])).prod : Nat) : Int) := by
  rw [List.foldlM_map]
  have h := @foldlM_mul _ (fun j => index ((configs m.cards).map fun u =>
      ((m.kernelNum shape target j world u : Nat) : Int)) k)
    (fun j => ((m.kernelNum shape target j world ((configs m.cards).getD k []) : Nat) : Int))
    (shape.free mask) (fun j _ => by
      rw [index_ok 0 (by rwa [List.length_map]), getD_map _ 0 [] hk])
    (m.massNum ((configs m.cards).getD k []) : Int)
  rw [natCast_prod, ← Nat.cast_mul] at h
  exact h

theorem total_computes (target : Bool) (mask world : Nat) :
    Computes ((List.range (configs m.cards).length).foldlM (fun total k => do
        let mass ← ((shape.free mask).map fun j => (configs m.cards).map fun u =>
          ((m.kernelNum shape target j world u : Nat) : Int)).foldlM
          (fun mass row => do checked (mass * (← index row k)))
            (((configs m.cards).map fun u => ((m.massNum u : Nat) : Int)).getD k 0)
        checked (total + mass)) 0)
      ((m.cellNum shape target mask world : Nat) : Int) := by
  have htotal := @foldlM_total _ (fun k => ((shape.free mask).map fun j => (configs m.cards).map fun u =>
        ((m.kernelNum shape target j world u : Nat) : Int)).foldlM
        (fun mass row => do checked (mass * (← index row k)))
          (((configs m.cards).map fun u => ((m.massNum u : Nat) : Int)).getD k 0))
    (fun k => ((m.massNum ((configs m.cards).getD k []) * ((shape.free mask).map fun j =>
        m.kernelNum shape target j world ((configs m.cards).getD k [])).prod : Nat) : Int))
    (List.range (configs m.cards).length) (fun k hk => by
      rw [getD_map _ 0 [] (List.mem_range.mp hk)]
      exact mass_computes target mask world k (List.mem_range.mp hk)) 0
  rw [map_range_getD [] (configs m.cards) fun u => ((m.massNum u * ((shape.free mask).map fun j =>
    m.kernelNum shape target j world u).prod : Nat) : Int), zero_add] at htotal
  have hsum : ((configs m.cards).map fun u => ((m.massNum u * ((shape.free mask).map fun j =>
      m.kernelNum shape target j world u).prod : Nat) : Int)).sum =
      ((m.cellNum shape target mask world : Nat) : Int) := by
    rw [Scm.cellNum, Nat.cast_list_sum, List.map_map]
    rfl
  exact hsum ▸ htotal

theorem rows_compute (target : Bool) (mask : Nat) {world : Nat} (hw : world < 2 ^ shape.n) :
    Computes (((shape.free mask).map (m.table shape target)).mapM fun kernel => index kernel.2 world)
      ((shape.free mask).map fun j => (configs m.cards).map fun u =>
        ((m.kernelNum shape target j world u : Nat) : Int)) := by
  rw [List.mapM_map]
  refine mapM_computes fun j _ => ?_
  have hlen : world < (List.range (2 ^ shape.n)).length := by rwa [List.length_range]
  have hget : (m.table shape target j).2.getD world [] = (configs m.cards).map fun u =>
      ((m.kernelNum shape target j world u : Nat) : Int) := by
    show ((List.range (2 ^ shape.n)).map _).getD world [] = _
    rw [getD_map _ [] 0 hlen, List.getD_eq_getElem _ _ hlen, List.getElem_range]
  rw [← hget]
  exact .inl (index_ok [] (by simpa [Scm.table] using hw))

/-- **A cell** is the law of its world under the intervention, or checked arithmetic refuses. -/
theorem cell_gives (hshape : shape.Indexed) (hm : m.Of shape) (hden : InI128 (m.massDen : Int))
    (target : Bool) (mask : Nat) {world : Nat} (hw : world < 2 ^ shape.n) :
    Gives (cell shape (m.integral shape) target mask world) (m.law shape target mask world) := by
  have hkernels : (if target then (m.integral shape).target else (m.integral shape).source) =
      (List.range shape.n).map (m.table shape target) := by cases target <;> rfl
  unfold cell
  simp only [hkernels, filterMap_free]
  -- the common denominator
  have hd := @foldlM_checked_mul _ (fun kernel : Int × List (List Int) => kernel.1)
    ((shape.free mask).map (m.table shape target)) (m.massDen : Int)
  rw [List.map_map] at hd
  have hdval : (m.massDen : Int) * ((shape.free mask).map
      ((fun kernel : Int × List (List Int) => kernel.1) ∘ m.table shape target)).prod =
        ((m.cellDen shape target mask : Nat) : Int) := by
    rw [Scm.cellDen, Nat.cast_mul, ← natCast_prod]
    rfl
  rw [hdval] at hd
  obtain hd | hd := hd
  swap
  · exact .inr (by rw [show (m.integral shape).latentDen = (m.massDen : Int) from rfl, hd]; rfl)
  have hdlt : m.cellDen shape target mask < i128Bound :=
    Int.ofNat_lt.mp (foldlM_inRange (fun _ _ _ => checked_inRange) hden hd).2
  rw [show (m.integral shape).latentDen = (m.massDen : Int) from rfl, hd, ok_bind]
  -- the rows of the world
  obtain hrows | hrows := @rows_compute shape m target mask world hw
  swap
  · exact .inr (by rw [hrows, error_bind])
  rw [hrows, ok_bind]
  -- the sum over the configurations
  have hmass : (m.integral shape).latentMass =
      (configs m.cards).map fun u => ((m.massNum u : Nat) : Int) := rfl
  rw [hmass, zip_range 0 rfl, List.length_map, List.foldlM_map]
  have htotal := @total_computes shape m target mask world
  obtain htotal | htotal := htotal
  swap
  · exact .inr (by rw [htotal, error_bind])
  have hnlt : m.cellNum shape target mask world < i128Bound := by
    refine Int.ofNat_lt.mp (foldlM_inRange (fun acc k y hy => ?_) ⟨by decide, by decide⟩ htotal).2
    obtain ⟨_, -, hy⟩ := bind_ok hy
    exact checked_inRange hy
  rw [htotal, ok_bind, ← cellNum_div hshape hm]
  exact new_gives hnlt hdlt (cellDen_pos target mask).ne'

end Cells

end Antecedent.Identify.Witness
