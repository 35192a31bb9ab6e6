import Antecedent.Core.Catalog
import Mathlib.Data.Rat.Cast.Order
import Mathlib.Tactic.FieldSimp
import Mathlib.Tactic.LinearCombination
import Mathlib.Tactic.Ring

/-!
# Checked rational arithmetic and its numerals

Model of `Q`, `gcd` and the numerals of `sid/conditional_witness.rs:143-211`. An operation returns a
value or ends in a `Fault`: checked arithmetic refuses, an unchecked operation panics.

* `new_natCast`, `add_gives`, `mul_gives`, `div_gives`: on rationals that are not negative each
  operation returns the rational in lowest terms or refuses, and does not panic.
-/

namespace Antecedent.Identify.Witness

open Core

/-! ## Checked arithmetic -/

/-- How an operation ends that returns no value: checked arithmetic refuses, an unchecked operation
overflows, divides by zero or indexes out of range. -/
inductive Fault
  | refused
  | panics

/-- `2 ^ 127`. -/
def i128Bound : Nat := 2 ^ 127

def InI128 (x : Int) : Prop := -(i128Bound : Int) ≤ x ∧ x < i128Bound

instance (x : Int) : Decidable (InI128 x) := inferInstanceAs (Decidable (_ ∧ _))

/-- A checked `i128` operation with the exact result `x`. -/
def checked (x : Int) : Except Fault Int := if InI128 x then .ok x else .error .refused

def unchecked (x : Int) : Except Fault Int := if InI128 x then .ok x else .error .panics

/-- `x / y` on `i128`. -/
def quot (x y : Int) : Except Fault Int := if y = 0 then .error .panics else unchecked (x.tdiv y)

/-- Euclid's loop in `gcd` (`conditional_witness.rs:155-159`). -/
def euclid (a b : Nat) : Nat := if b = 0 then a else euclid b (a % b)
termination_by b
decreasing_by exact Nat.mod_lt _ (Nat.pos_of_ne_zero ‹_›)

/-- Lines 152-161. -/
def gcd (a b : Int) : Except Fault Int := do
  let a ← unchecked a.natAbs
  let b ← unchecked b.natAbs
  .ok (euclid a.natAbs b.natAbs)

/-- Lines 146-150. -/
structure Q where
  n : Int
  d : Int
  deriving DecidableEq

namespace Q

/-- Lines 167-178. -/
def new (n d : Int) : Except Fault Q :=
  if d = 0 then .error .refused
  else do
    let g ← gcd n d
    let n ← quot n g
    let d ← quot d g
    if d < 0 then do
      let n ← checked (-n)
      let d ← checked (-d)
      .ok ⟨n, d⟩
    else .ok ⟨n, d⟩

/-- Lines 179-185. -/
def add (x y : Q) : Except Fault Q := do
  let g ← gcd x.d y.d
  let l ← checked ((← quot x.d g) * y.d)
  let a ← checked (x.n * (← quot l x.d))
  let b ← checked (y.n * (← quot l y.d))
  new (← checked (a + b)) l

/-- Lines 186-190. -/
def mul (x y : Q) : Except Fault Q := do
  let g₁ := max (← gcd x.n y.d) 1
  let g₂ := max (← gcd y.n x.d) 1
  let n ← checked ((← quot x.n g₁) * (← quot y.n g₂))
  let d ← checked ((← quot x.d g₂) * (← quot y.d g₁))
  new n d

/-- Lines 191-196. -/
def div (x y : Q) : Except Fault Q :=
  if y.n = 0 then .error .refused else do mul x (← new y.d y.n)

def zero : Q := ⟨0, 1⟩

def one : Q := ⟨1, 1⟩

/-- Lines 209-211. -/
def isStrictProbability (q : Q) : Bool := 0 < q.n ∧ q.n < q.d

/-- A rational in lowest terms. -/
def ofRat (r : Rat) : Q := ⟨r.num, r.den⟩

theorem ofRat_injective : Function.Injective ofRat := fun r s h => by
  obtain ⟨hn, hd⟩ := Q.mk.inj h
  exact Rat.ext hn (by exact_mod_cast hd)

end Q

/-! ### What the operations compute -/

/-- Steps of a run, as rewriting rules: unfolded definitionally they would have the kernel evaluate
the bounds. -/
theorem ok_bind {ε α β : Type} (a : α) (f : α → Except ε β) : (Except.ok a >>= f) = f a := by
  cases h : f a <;> exact h

theorem error_bind {ε α β : Type} (e : ε) (f : α → Except ε β) :
    (Except.error e >>= f) = .error e := Eq.trans rfl rfl

/-- `x` returns `v` or checked arithmetic refuses. -/
def Computes {α : Type} (x : Except Fault α) (v : α) : Prop := x = .ok v ∨ x = .error .refused

theorem Computes.ok {α : Type} {x : Except Fault α} {v w : α} (h : Computes x v) (hx : x = .ok w) :
    w = v := by
  obtain h | h := h
  · exact Except.ok.inj (hx.symm.trans h)
  · exact absurd (hx.symm.trans h) nofun

theorem Computes.bind {α β : Type} {x : Except Fault α} {v : α} {f : α → Except Fault β} {w : β}
    (hx : Computes x v) (hf : x = .ok v → Computes (f v) w) : Computes (x >>= f) w := by
  obtain hx' | rfl := hx
  · subst hx'
    exact hf rfl
  · exact .inr rfl

theorem checked_computes (x : Int) : Computes (checked x) x := by
  unfold checked
  split
  · exact .inl rfl
  · exact .inr rfl

variable {x d : Int} {m k : Nat} {r s : Rat} {cs : List Char} {e : Fault} {text : String}

theorem inI128_of_checked {y : Int} (h : checked x = .ok y) : InI128 x := by
  unfold checked at h
  split at h
  · assumption
  · cases h

theorem euclid_eq (a b : Nat) : euclid a b = Nat.gcd a b := by
  induction b using Nat.strong_induction_on generalizing a with
  | _ b ih =>
    unfold euclid
    split
    next h => rw [h, Nat.gcd_zero_right]
    next h => rw [ih _ (Nat.mod_lt _ (Nat.pos_of_ne_zero h)), Nat.gcd_comm b, ← Nat.gcd_rec,
        Nat.gcd_comm]

/-- On numbers that are not negative the operations do not leave the range. -/
theorem unchecked_natCast (h : m < i128Bound) : unchecked m = .ok (m : Int) :=
  if_pos ⟨by omega, Int.ofNat_lt.mpr h⟩

theorem gcd_natCast (hm : m < i128Bound) (hk : k < i128Bound) :
    gcd m k = .ok (Nat.gcd m k : Int) := by
  unfold gcd
  rw [Int.natAbs_natCast, Int.natAbs_natCast, unchecked_natCast hm, unchecked_natCast hk]
  show Except.ok (euclid (m : Int).natAbs (k : Int).natAbs : Int) = _
  rw [Int.natAbs_natCast, Int.natAbs_natCast, euclid_eq]

theorem quot_natCast (hm : m < i128Bound) (hk : k ≠ 0) :
    quot m k = .ok ((m / k : Nat) : Int) := by
  unfold quot
  rw [if_neg (by exact_mod_cast hk)]
  show unchecked ((m / k : Nat) : Int) = _
  exact unchecked_natCast ((Nat.div_le_self m k).trans_lt hm)

theorem ofRat_div (m k : Nat) (hk : k ≠ 0) :
    Q.ofRat (m / k) = ⟨(m / Nat.gcd m k : Nat), (k / Nat.gcd m k : Nat)⟩ := by
  have h : (m : Rat) / k = mkRat m k := (Rat.mkRat_eq_div m k).symm ▸ by simp
  unfold Q.ofRat
  rw [h, mkRat, dif_neg hk, Rat.normalize_eq]
  simp

/-- **`Q::new`** puts a fraction of numbers that are not negative in lowest terms. -/
theorem new_natCast (hm : m < i128Bound) (hk : k < i128Bound) (h0 : k ≠ 0) :
    Q.new m k = .ok (Q.ofRat (m / k)) := by
  have hg : Nat.gcd m k ≠ 0 := Nat.gcd_ne_zero_right h0
  unfold Q.new
  rw [if_neg (by exact_mod_cast h0), gcd_natCast hm hk]
  rw [ok_bind, quot_natCast hm hg, ok_bind, quot_natCast hk hg]
  rw [ok_bind, if_neg (not_lt.mpr (Int.natCast_nonneg _)), ofRat_div m k h0]

theorem checked_natCast (m : Nat) :
    checked m = .ok (m : Int) ∧ m < i128Bound ∨ checked m = .error .refused := by
  unfold checked
  split
  next h => exact .inl ⟨rfl, Int.ofNat_lt.mp h.2⟩
  next => exact .inr rfl

/-- A rational that the arithmetic holds: not negative, with numerator and denominator in range. -/
structure Fits (r : Rat) : Prop where
  nonneg : 0 ≤ r
  num : r.num.natAbs < i128Bound
  den : r.den < i128Bound

theorem Fits.ofRat {r : Rat} (h : Fits r) : Q.ofRat r = ⟨(r.num.natAbs : Nat), r.den⟩ := by
  unfold Q.ofRat
  rw [Int.natAbs_of_nonneg (Rat.num_nonneg.mpr h.nonneg)]

theorem Fits.eq_div (h : Fits r) : r = (r.num.natAbs : Rat) / r.den := by
  conv_lhs => rw [← Rat.num_div_den r]
  rw [← Int.cast_natCast r.num.natAbs, Int.natAbs_of_nonneg (Rat.num_nonneg.mpr h.nonneg)]

theorem fits_div (hm : m < i128Bound) (hk : k < i128Bound) (h0 : k ≠ 0) :
    Fits ((m : Rat) / k) := by
  obtain ⟨hn, hd⟩ := Q.mk.inj (ofRat_div m k h0)
  refine ⟨div_nonneg (Nat.cast_nonneg _) (Nat.cast_nonneg _), ?_, ?_⟩
  · rw [hn, Int.natAbs_natCast]
    exact (Nat.div_le_self _ _).trans_lt hm
  · have hd : ((m : Rat) / k).den = k / Nat.gcd m k := by exact_mod_cast hd
    rw [hd]
    exact (Nat.div_le_self _ _).trans_lt hk

/-- `x` returns `r` in lowest terms, and in range, or checked arithmetic refuses. -/
def Gives (x : Except Fault Q) (r : Rat) : Prop :=
  x = .ok (Q.ofRat r) ∧ Fits r ∨ x = .error .refused

theorem new_gives (hm : m < i128Bound) (hk : k < i128Bound) (h0 : k ≠ 0) :
    Gives (Q.new m k) ((m : Rat) / k) := .inl ⟨new_natCast hm hk h0, fits_div hm hk h0⟩

/-- **Addition.** -/
theorem add_gives (hr : Fits r) (hs : Fits s) :
    Gives (Q.add (Q.ofRat r) (Q.ofRat s)) (r + s) := by
  rw [hr.ofRat, hs.ofRat, show r + s = _ from congrArg₂ (· + ·) hr.eq_div hs.eq_div]
  obtain ⟨-, hm₁, hk₁⟩ := hr
  obtain ⟨-, hm₂, hk₂⟩ := hs
  have hn₁ := r.den_nz
  have hn₂ := s.den_nz
  generalize r.num.natAbs = m₁ at *
  generalize s.num.natAbs = m₂ at *
  generalize r.den = k₁ at *
  generalize s.den = k₂ at *
  have hg : Nat.gcd k₁ k₂ ≠ 0 := Nat.gcd_ne_zero_left hn₁
  obtain ⟨k, hk⟩ := Nat.gcd_dvd_left k₁ k₂
  obtain ⟨k', hk'⟩ := Nat.gcd_dvd_right k₁ k₂
  have hdiv : k₁ / Nat.gcd k₁ k₂ = k :=
    Nat.div_eq_of_eq_mul_right (Nat.pos_of_ne_zero hg) hk
  -- the common denominator
  have hl : k * k₂ = k' * k₁ := by
    calc k * k₂ = k * (Nat.gcd k₁ k₂ * k') := congrArg _ hk'
      _ = k' * (Nat.gcd k₁ k₂ * k) := by ring
      _ = k' * k₁ := congrArg _ hk.symm
  have hk0 : k ≠ 0 := fun h => hn₁ (by rw [hk, h, Nat.mul_zero])
  have hk0' : k' ≠ 0 := fun h => hn₂ (by rw [hk', h, Nat.mul_zero])
  have hl₁ : k * k₂ / k₁ = k' := hl ▸ Nat.mul_div_cancel _ (Nat.pos_of_ne_zero hn₁)
  have hl₂ : k * k₂ / k₂ = k := Nat.mul_div_cancel _ (Nat.pos_of_ne_zero hn₂)
  have hvalue : (m₁ : Rat) / k₁ + m₂ / k₂ = ((m₁ * k' + m₂ * k : Nat) : Rat) / (k * k₂ : Nat) := by
    have hq : (k : Rat) * k₂ = k' * k₁ := by exact_mod_cast hl
    have h' : (k' : Rat) ≠ 0 := by exact_mod_cast hk0'
    have h : (k : Rat) ≠ 0 := by exact_mod_cast hk0
    push_cast
    rw [add_div, hq, mul_comm (k' : Rat), mul_div_mul_right _ _ h', ← mul_comm (k' : Rat), ← hq,
      mul_comm (k : Rat), mul_div_mul_right _ _ h]
  rw [hvalue]
  unfold Q.add
  simp only [gcd_natCast hk₁ hk₂, quot_natCast hk₁ hg, hdiv, ok_bind, ← Nat.cast_mul]
  obtain ⟨hc, hlt⟩ | hc := checked_natCast (k * k₂)
  · simp only [hc, quot_natCast hlt hn₁, quot_natCast hlt hn₂, hl₁, hl₂, ok_bind, ← Nat.cast_mul]
    obtain ⟨ha, -⟩ | ha := checked_natCast (m₁ * k')
    · obtain ⟨hb, -⟩ | hb := checked_natCast (m₂ * k)
      · simp only [ha, hb, ok_bind, ← Nat.cast_add]
        obtain ⟨hs, hslt⟩ | hs := checked_natCast (m₁ * k' + m₂ * k)
        · simp only [hs, ok_bind]
          exact new_gives hslt hlt (Nat.mul_ne_zero hk0 hn₂)
        · simp only [hs, error_bind]
          exact .inr rfl
      · simp only [ha, hb, ok_bind, error_bind]
        exact .inr rfl
    · simp only [ha, error_bind]
      exact .inr rfl
  · simp only [hc, error_bind]
    exact .inr rfl

/-- **Multiplication.** -/
theorem mul_gives (hr : Fits r) (hs : Fits s) :
    Gives (Q.mul (Q.ofRat r) (Q.ofRat s)) (r * s) := by
  rw [hr.ofRat, hs.ofRat, show r * s = _ from congrArg₂ (· * ·) hr.eq_div hs.eq_div]
  obtain ⟨-, hm₁, hk₁⟩ := hr
  obtain ⟨-, hm₂, hk₂⟩ := hs
  have hn₁ := r.den_nz
  have hn₂ := s.den_nz
  generalize r.num.natAbs = m₁ at *
  generalize s.num.natAbs = m₂ at *
  generalize r.den = k₁ at *
  generalize s.den = k₂ at *
  have hg₁ : Nat.gcd m₁ k₂ ≠ 0 := Nat.gcd_ne_zero_right hn₂
  have hg₂ : Nat.gcd m₂ k₁ ≠ 0 := Nat.gcd_ne_zero_right hn₁
  have hmax : ∀ g : Nat, g ≠ 0 → max (g : Int) 1 = g := fun g hg => max_eq_left (by omega)
  obtain ⟨a₁, ha₁⟩ := Nat.gcd_dvd_left m₁ k₂
  obtain ⟨b₂, hb₂⟩ := Nat.gcd_dvd_right m₁ k₂
  obtain ⟨a₂, ha₂⟩ := Nat.gcd_dvd_left m₂ k₁
  obtain ⟨b₁, hb₁⟩ := Nat.gcd_dvd_right m₂ k₁
  unfold Q.mul
  simp only [gcd_natCast hm₁ hk₂, gcd_natCast hm₂ hk₁, hmax _ hg₁, hmax _ hg₂,
    quot_natCast hm₁ hg₁, quot_natCast hm₂ hg₂, quot_natCast hk₁ hg₂, quot_natCast hk₂ hg₁, ok_bind,
    ← Nat.cast_mul]
  generalize hG₁ : Nat.gcd m₁ k₂ = g₁ at *
  generalize hG₂ : Nat.gcd m₂ k₁ = g₂ at *
  subst ha₁ hb₂ ha₂ hb₁
  have hd : ∀ g x : Nat, g ≠ 0 → g * x / g = x := fun g x hg =>
    Nat.mul_div_cancel_left _ (Nat.pos_of_ne_zero hg)
  simp only [hd _ _ hg₁, hd _ _ hg₂]
  have hb0₁ : b₁ ≠ 0 := fun h => hn₁ (by rw [h, Nat.mul_zero])
  have hb0₂ : b₂ ≠ 0 := fun h => hn₂ (by rw [h, Nat.mul_zero])
  have hvalue : ((g₁ * a₁ : Nat) : Rat) / (g₂ * b₁ : Nat) * ((g₂ * a₂ : Nat) / (g₁ * b₂ : Nat)) =
      ((a₁ * a₂ : Nat) : Rat) / (b₁ * b₂ : Nat) := by
    have h₁ : (g₁ : Rat) ≠ 0 := by exact_mod_cast hg₁
    have h₂ : (g₂ : Rat) ≠ 0 := by exact_mod_cast hg₂
    have h₃ : (b₁ : Rat) ≠ 0 := by exact_mod_cast hb0₁
    have h₄ : (b₂ : Rat) ≠ 0 := by exact_mod_cast hb0₂
    push_cast
    field_simp
  rw [hvalue]
  obtain ⟨hn, hnlt⟩ | hn := checked_natCast (a₁ * a₂)
  · obtain ⟨hd, hdlt⟩ | hd := checked_natCast (b₁ * b₂)
    · simp only [hn, hd, ok_bind]
      exact new_gives hnlt hdlt (Nat.mul_ne_zero hb0₁ hb0₂)
    · simp only [hn, hd, ok_bind, error_bind]
      exact .inr rfl
  · simp only [hn, error_bind]
    exact .inr rfl

/-- **Division.** -/
theorem div_gives (hr : Fits r) (hs : Fits s) (h0 : s ≠ 0) :
    Gives (Q.div (Q.ofRat r) (Q.ofRat s)) (r / s) := by
  have hn : s.num.natAbs ≠ 0 := by simpa using h0
  have hinv : s⁻¹ = (s.den : Rat) / s.num.natAbs := by
    conv_lhs => rw [hs.eq_div]
    rw [inv_div]
  have hnew := new_natCast hs.den hs.num hn
  have hfits : Fits s⁻¹ := hinv ▸ fits_div hs.den hs.num hn
  rw [← hinv] at hnew
  unfold Q.div
  rw [if_neg (by simpa [Q.ofRat] using h0)]
  have hd : (Q.ofRat s).d = (s.den : Int) := rfl
  have hn' : (Q.ofRat s).n = (s.num.natAbs : Int) := by rw [hs.ofRat]
  rw [hd, hn', hnew, ok_bind, div_eq_mul_inv]
  exact mul_gives hr hfits

/-! ## Numerals -/

def splitOnce (c : Char) : List Char → Option (List Char × List Char)
  | [] => none
  | x :: xs => if x = c then some ([], xs) else (splitOnce c xs).map fun p => (x :: p.1, p.2)

/-- The value of a run of digits under a sign, where `i128` holds it. -/
def parseDigits (sign : Int) (ds : List Char) : Except Fault Int :=
  if ds ≠ [] ∧ ds.all Char.isDigit then checked (sign * Nat.ofDigitChars 10 ds 0)
  else .error .refused

/-- `str::parse::<i128>`. -/
def parseI128 : List Char → Except Fault Int
  | '-' :: ds => parseDigits (-1) ds
  | '+' :: ds => parseDigits 1 ds
  | ds => parseDigits 1 ds

/-- The numerals of `Q::parse` (`conditional_witness.rs:198-203`). -/
def fraction (text : String) : Except Fault (Int × Int) :=
  match splitOnce '/' text.toList with
  | none => .error .refused
  | some (n, d) =>
    if n = [] ∨ d = [] ∨ d.head? = some '-' ∨ d.head? = some '+' ∨ n.head? = some '+' then
      .error .refused
    else do
      let n ← parseI128 n
      let d ← parseI128 d
      .ok (n, d)

/-- `to_text` of a numeral. -/
def intText (x : Int) : List Char :=
  if x < 0 then '-' :: Nat.toDigits 10 x.natAbs else Nat.toDigits 10 x.natAbs

/-- Lines 206-208. -/
def Q.toText (q : Q) : List Char := intText q.n ++ '/' :: intText q.d

/-- Lines 197-205. -/
def Q.parse (text : String) : Except Fault Q := do
  let (n, d) ← fraction text
  let q ← Q.new n d
  if q.toText = text.toList then .ok q else .error .refused

/-- A numeral of a witness: a probability strictly between 0 and 1. -/
def probability (text : String) : Except Fault Q := do
  let q ← Q.parse text
  if q.isStrictProbability then .ok q else .error .refused

/-- The text is the canonical spelling of `r`, a probability the arithmetic holds. -/
structure Spells (text : String) (r : Rat) : Prop where
  pos : 0 < r
  lt_one : r < 1
  den : r.den < i128Bound
  text : text.toList = (Q.ofRat r).toText

/-- The fraction has the numerator that `abs` has no value for. -/
def LeastNumerator (text : String) : Prop :=
  ∃ d, fraction text = .ok (-(i128Bound : Int), d) ∧ 0 < d

theorem splitOnce_append {c : Char} : ∀ {a b : List Char}, c ∉ a →
    splitOnce c (a ++ c :: b) = some (a, b)
  | [], b, _ => if_pos rfl
  | x :: a, b, h => by
    obtain ⟨hx, ha⟩ := List.ne_and_not_mem_of_not_mem_cons h
    rw [List.cons_append, splitOnce, if_neg (Ne.symm hx), splitOnce_append ha]
    rfl

theorem parseI128_toDigits (h : m < i128Bound) :
    parseI128 (Nat.toDigits 10 m) = .ok (m : Int) := by
  have hdigit : ∀ c ∈ Nat.toDigits 10 m, c.isDigit = true := fun c hc =>
    Nat.isDigit_of_mem_toDigits (by decide) (by decide) hc
  have hne : Nat.toDigits 10 m ≠ [] := Nat.toDigits_ne_nil
  have hparse : parseI128 (Nat.toDigits 10 m) = parseDigits 1 (Nat.toDigits 10 m) := by
    cases hd : Nat.toDigits 10 m with
    | nil => exact absurd hd hne
    | cons c cs =>
      have hc := hdigit c (hd ▸ List.mem_cons_self)
      unfold parseI128
      split
      next he => rw [(List.cons.inj he).1] at hc; exact absurd hc (by decide)
      next he => rw [(List.cons.inj he).1] at hc; exact absurd hc (by decide)
      next => rfl
  rw [hparse]
  unfold parseDigits
  rw [if_pos ⟨hne, List.all_eq_true.mpr hdigit⟩, Nat.ofDigitChars_ten_toDigits, one_mul]
  exact if_pos ⟨by omega, Int.ofNat_lt.mpr h⟩

theorem parseDigits_one {ds : List Char} (h : parseDigits 1 ds = .ok x) : 0 ≤ x := by
  unfold parseDigits at h
  split at h
  next =>
    rw [one_mul] at h
    rw [(checked_computes _).ok h]
    exact Int.natCast_nonneg _
  next => cases h

theorem parseI128_inI128 (h : parseI128 cs = .ok x) : InI128 x := by
  have hdigits : ∀ sign ds, parseDigits sign ds = .ok x → InI128 x := fun sign ds h => by
    unfold parseDigits at h
    split at h
    next => exact (checked_computes _).ok h ▸ inI128_of_checked h
    next => cases h
  unfold parseI128 at h
  split at h
  · exact hdigits _ _ h
  · exact hdigits _ _ h
  · exact hdigits _ _ h

theorem parseI128_error (h : parseI128 cs = .error e) :
    e = .refused := by
  have hdigits : ∀ sign ds, parseDigits sign ds = .error e → e = .refused := fun sign ds h => by
    unfold parseDigits at h
    split at h
    next =>
      obtain hc | hc := checked_computes (sign * Nat.ofDigitChars 10 ds 0)
      · exact absurd (hc.symm.trans h) nofun
      · exact (Except.error.inj (hc.symm.trans h)).symm
    next => exact (Except.error.inj h).symm
  unfold parseI128 at h
  split at h
  · exact hdigits _ _ h
  · exact hdigits _ _ h
  · exact hdigits _ _ h

/-- A numeral without a sign is not negative. -/
theorem parseI128_nonneg (hsign : cs.head? ≠ some '-') (h : parseI128 cs = .ok x) : 0 ≤ x := by
  unfold parseI128 at h
  split at h
  · exact absurd rfl hsign
  · exact parseDigits_one h
  · exact parseDigits_one h

theorem fraction_range {n : Int} (h : fraction text = .ok (n, d)) :
    InI128 n ∧ InI128 d ∧ 0 ≤ d := by
  unfold fraction at h
  split at h
  · cases h
  next a b _ =>
    split at h
    · cases h
    next hsigns =>
      obtain ⟨n', hn, h⟩ := bind_ok h
      obtain ⟨d', hd, h⟩ := bind_ok h
      obtain ⟨rfl, rfl⟩ := Prod.mk.inj (Except.ok.inj h)
      exact ⟨parseI128_inI128 hn, parseI128_inI128 hd,
        parseI128_nonneg (fun he => hsigns (.inr (.inr (.inl he)))) hd⟩

theorem fraction_error (h : fraction text = .error e) :
    e = .refused := by
  unfold fraction at h
  split at h
  · exact (Except.error.inj h).symm
  next a b _ =>
    split at h
    · exact (Except.error.inj h).symm
    next =>
      cases hn : parseI128 a with
      | error e' =>
        rw [hn, error_bind] at h
        obtain rfl := Except.error.inj h
        exact parseI128_error hn
      | ok n =>
        rw [hn, ok_bind] at h
        cases hd : parseI128 b with
        | error e' =>
          rw [hd, error_bind] at h
          obtain rfl := Except.error.inj h
          exact parseI128_error hd
        | ok d =>
          rw [hd] at h
          cases h

/-- A negative numerator but the least one stays one. -/
theorem new_neg (hm : m < i128Bound) (hk : k < i128Bound) (hk0 : k ≠ 0) :
    ∃ q, Q.new (-(m : Int)) k = .ok q ∧ q.n ≤ 0 := by
  have hg : Nat.gcd m k ≠ 0 := Nat.gcd_ne_zero_right hk0
  have hgcd : gcd (-(m : Int)) k = .ok (Nat.gcd m k : Int) := by
    have h := gcd_natCast hm hk
    unfold gcd at h ⊢
    rwa [Int.natAbs_neg]
  have hquot : quot (-(m : Int)) (Nat.gcd m k : Nat) = .ok (-((m / Nat.gcd m k : Nat) : Int)) := by
    unfold quot
    rw [if_neg (by exact_mod_cast hg), Int.neg_tdiv]
    show unchecked (-((m / Nat.gcd m k : Nat) : Int)) = _
    have hle := Nat.div_le_self m (Nat.gcd m k)
    generalize m / Nat.gcd m k = a at hle ⊢
    exact if_pos ⟨by omega, by omega⟩
  refine ⟨⟨-((m / Nat.gcd m k : Nat) : Int), ((k / Nat.gcd m k : Nat) : Int)⟩, ?_, ?_⟩
  · unfold Q.new
    rw [if_neg (by exact_mod_cast hk0), hgcd, ok_bind, hquot, ok_bind, quot_natCast hk hg, ok_bind,
      if_neg (not_lt.mpr (Int.natCast_nonneg _))]
  · exact Int.neg_nonpos_of_nonneg (Int.natCast_nonneg _)

theorem new_least (hd : 0 < d) : Q.new (-(i128Bound : Int)) d = .error .panics := by
  unfold Q.new gcd
  rw [if_neg hd.ne', Int.natAbs_neg, Int.natAbs_natCast]
  have habs : unchecked (i128Bound : Int) = .error .panics := if_neg fun h => lt_irrefl _ h.2
  rw [habs]
  rfl

theorem ofRat_strict : (Q.ofRat r).isStrictProbability = true ↔ 0 < r ∧ r < 1 := by
  unfold Q.isStrictProbability Q.ofRat
  rw [decide_eq_true_eq, Rat.num_pos]
  refine and_congr_right fun _ => ?_
  rw [Rat.lt_iff]
  simp

theorem intText_natCast (m : Nat) : intText m = Nat.toDigits 10 m := by
  unfold intText
  rw [if_neg (not_lt.mpr (Int.natCast_nonneg _)), Int.natAbs_natCast]

theorem parse_spells (h : Spells text r) :
    probability text = .ok (Q.ofRat r) := by
  obtain ⟨hpos, hlt, hden, htext⟩ := h
  have hnum : r.num.natAbs < r.den := by
    have hstrict := ofRat_strict.mpr ⟨hpos, hlt⟩
    have := (of_decide_eq_true hstrict).2
    have hn := Rat.num_pos.mpr hpos
    simp only [Q.ofRat] at this
    omega
  have hfits : Fits r := ⟨hpos.le, hnum.trans hden, hden⟩
  have htext' : text.toList = Nat.toDigits 10 r.num.natAbs ++ '/' :: Nat.toDigits 10 r.den := by
    rw [htext, hfits.ofRat]
    unfold Q.toText
    rw [intText_natCast, intText_natCast]
  have hdigit : ∀ (m : Nat) (c : Char), c ∈ Nat.toDigits 10 m → c.isDigit = true := fun m c hc =>
    Nat.isDigit_of_mem_toDigits (by decide) (by decide) hc
  have hhead : ∀ (m : Nat) (c : Char), c.isDigit = false → (Nat.toDigits 10 m).head? ≠ some c :=
    fun m c hc he => by
      rw [hdigit m c (List.mem_of_mem_head? he)] at hc
      cases hc
  have hfrac : fraction text = .ok ((r.num.natAbs : Int), (r.den : Int)) := by
    unfold fraction
    rw [htext', splitOnce_append fun hc => absurd (hdigit _ _ hc) (by decide)]
    simp only
    rw [if_neg, parseI128_toDigits hfits.num, parseI128_toDigits hfits.den]
    · rfl
    · rintro (h | h | h | h | h)
      · exact Nat.toDigits_ne_nil h
      · exact Nat.toDigits_ne_nil h
      · exact hhead _ _ (by decide) h
      · exact hhead _ _ (by decide) h
      · exact hhead _ _ (by decide) h
  have hparse : Q.parse text = .ok (Q.ofRat r) := by
    unfold Q.parse
    rw [hfrac, ok_bind]
    simp only
    rw [new_natCast hfits.num hfits.den r.den_nz, ← hfits.eq_div, ok_bind, if_pos htext.symm]
  unfold probability
  rw [hparse, ok_bind, if_pos (ofRat_strict.mpr ⟨hpos, hlt⟩)]

/-- **A numeral is read as the probability it spells**, is refused, or has the least numerator. -/
theorem probability_cases (text : String) :
    (∃ r, Spells text r ∧ probability text = .ok (Q.ofRat r)) ∨
    ((∀ r, ¬ Spells text r) ∧ ¬ LeastNumerator text ∧ probability text = .error .refused) ∨
    (LeastNumerator text ∧ probability text = .error .panics) := by
  by_cases hspells : ∃ r, Spells text r
  · obtain ⟨r, hr⟩ := hspells
    exact .inl ⟨r, hr, parse_spells hr⟩
  have hno : ∀ r, ¬ Spells text r := fun r hr => hspells ⟨r, hr⟩
  refine .inr ?_
  cases hf : fraction text with
  | error e =>
    have he : e = .refused := fraction_error hf
    refine .inl ⟨hno, ?_, ?_⟩
    · rintro ⟨d, hd, -⟩
      exact absurd (hf.symm.trans hd) nofun
    · unfold probability Q.parse
      rw [hf, error_bind, error_bind, he]
  | ok p =>
    obtain ⟨n, d⟩ := p
    obtain ⟨hn, hd, hd0⟩ := fraction_range hf
    have hleast : LeastNumerator text ↔ n = -(i128Bound : Int) ∧ 0 < d := by
      unfold LeastNumerator
      rw [hf]
      constructor
      · rintro ⟨d', h, hd'⟩
        obtain ⟨rfl, rfl⟩ := Prod.mk.inj (Except.ok.inj h)
        exact ⟨rfl, hd'⟩
      · rintro ⟨rfl, h⟩
        exact ⟨d, rfl, h⟩
    obtain ⟨k, rfl⟩ := Int.eq_ofNat_of_zero_le hd0
    have hk : k < i128Bound := Int.ofNat_lt.mp hd.2
    unfold probability Q.parse
    rw [hf, ok_bind]
    simp only
    by_cases hk0 : k = 0
    · refine .inl ⟨hno, fun h => ?_, ?_⟩
      · exact absurd (hleast.mp h).2 (by simp [hk0])
      · unfold Q.new
        rw [if_pos (by exact_mod_cast hk0)]
        rfl
    by_cases hmin : n = -(i128Bound : Int)
    · refine .inr ⟨hleast.mpr ⟨hmin, by omega⟩, ?_⟩
      rw [hmin, new_least (by omega)]
      rfl
    refine .inl ⟨hno, fun h => hmin (hleast.mp h).1, ?_⟩
    by_cases hneg : n < 0
    · -- not a probability
      obtain ⟨m, rfl⟩ : ∃ m : Nat, n = -(m : Int) := ⟨n.natAbs, by omega⟩
      have := hn.1
      obtain ⟨q, hq, hqn⟩ := @new_neg m k (by omega) hk hk0
      rw [hq, ok_bind]
      split
      · rw [ok_bind, if_neg]
        intro hs
        have := (of_decide_eq_true hs).1
        omega
      · rfl
    · obtain ⟨m, rfl⟩ := Int.eq_ofNat_of_zero_le (not_lt.mp hneg)
      have hm : m < i128Bound := Int.ofNat_lt.mp hn.2
      rw [new_natCast hm hk hk0, ok_bind]
      split
      next htext =>
        rw [ok_bind, if_neg]
        intro hs
        obtain ⟨hpos, hlt⟩ := ofRat_strict.mp hs
        exact hno _ ⟨hpos, hlt, (fits_div hm hk hk0).den, htext.symm⟩
      next => rfl

end Antecedent.Identify.Witness
