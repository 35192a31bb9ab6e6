import Antecedent.Identify.WitnessVerify

/-!
# When the verification of a witness panics

The verification panics at one kind of numeral: a fraction whose numerator is `-2 ^ 127`, which has
no absolute value in `i128` (`gcd`, `conditional_witness.rs:152-154`). `ReadsLeast` says that such a
numeral is reached before another check refuses.

* `verification_exact_iff`: the verification is exact, and total but for these records.
-/

namespace Antecedent.Identify.Witness

open Graph Core

/-! ## Records that reach the least numerator -/

/-- The first element that `A` does not let through is in `L`. -/
def First {α : Type} (A L : α → Prop) : List α → Prop
  | [] => False
  | x :: xs => L x ∨ A x ∧ First A L xs

def TextsReadLeast : List String → Prop := First (fun text => ∃ r, Spells text r) LeastNumerator

structure LatentRecord.ReadsLeast (shape : Shape) (record : LatentRecord) (e : Nat × Nat) :
    Prop where
  edge : record.edge = shape.edgeIds e
  levels : 2 ≤ record.probabilities.length ∧ record.probabilities.length ≤ maxLatentLevels
  texts : TextsReadLeast record.probabilities

structure KernelRecord.ReadsLeast (shape : Shape) (cards : List Nat) (j : Nat)
    (record : KernelRecord) : Prop where
  wired : KernelOver shape j record
  rows : record.ones.length = shape.rows j cards
  texts : TextsReadLeast record.ones

/-- A mechanism that reaches the least numerator comes after mechanisms that are read. -/
def KernelsReadLeast (shape : Shape) (cards : List Nat) : List (Nat × KernelRecord) → Prop :=
  First (fun p => ∃ kernel, parseKernel shape cards p.1 p.2 = .ok kernel)
    fun p => p.2.ReadsLeast shape cards p.1

def ModelRecord.ReadsLeast (shape : Shape) (record : ModelRecord) : Prop :=
  record.latents.length = shape.edges.length ∧
  (First (fun p => ∃ law, parseLatent shape p.1 p.2 = .ok law)
      (fun p => p.1.ReadsLeast shape p.2) (record.latents.zip shape.edges) ∨
    ∃ latents, (record.latents.zip shape.edges).mapM (fun p => parseLatent shape p.1 p.2) =
        .ok latents ∧
      shape.work (latents.map List.length) ≤ maxWork ∧ record.source.length = shape.n ∧
      (KernelsReadLeast shape (latents.map List.length)
          ((List.range shape.n).zip record.source) ∨
        (∃ source, ((List.range shape.n).zip record.source).mapM
          (fun p => parseKernel shape (latents.map List.length) p.1 p.2) = .ok source) ∧
        record.target.length = shape.selection.length ∧
        KernelsReadLeast shape (latents.map List.length) (shape.selection.zip record.target)))

/-- **A numeral with the least numerator is reached.** -/
def WitnessRecord.ReadsLeast (diagram : SelectionDiagram) (query : ConditionalQuery)
    (record : WitnessRecord) : Prop :=
  ∃ vars, validate diagram query = .ok vars ∧
    (record.first.ReadsLeast (Shape.new diagram vars) ∨
      (∃ model tables, parseModel (Shape.new diagram vars) record.first = .ok model ∧
        Integral.new (Shape.new diagram vars) model = .ok tables) ∧
      record.second.ReadsLeast (Shape.new diagram vars))

/-! ## Errors of a run -/

theorem bind_error_iff {ε α β : Type} {x : Except ε α} {f : α → Except ε β} {e : ε} :
    (x >>= f) = .error e ↔ x = .error e ∨ ∃ a, x = .ok a ∧ f a = .error e := by
  cases x with
  | error e' =>
    rw [error_bind]
    constructor
    · exact fun h => .inl (congrArg _ (Except.error.inj h))
    · rintro (h | ⟨a, h, -⟩)
      · exact congrArg _ (Except.error.inj h)
      · cases h
  | ok a =>
    rw [ok_bind]
    constructor
    · exact fun h => .inr ⟨a, rfl, h⟩
    · rintro (h | ⟨b, h, hb⟩)
      · cases h
      · exact Except.ok.inj h ▸ hb

variable {why text : String} {α : Type} {x : Except Fault α}

theorem require_bind_panics {p : Prop} [Decidable p] {f : Unit → Except VerifyError α} :
    (require p why >>= f) = .error .panics ↔ p ∧ f () = .error .panics := by
  by_cases h : p
  · rw [require_ok h, ok_bind]
    exact (and_iff_right h).symm
  · rw [require, if_neg h, error_bind]
    exact ⟨fun h' => (by cases h'), fun h' => absurd h'.1 h⟩

theorem orReject_panics :
    orReject why x = .error .panics ↔ x = .error .panics := by
  obtain (_ | _) | a := x
  · exact ⟨nofun, nofun⟩
  · exact ⟨fun _ => rfl, fun _ => rfl⟩
  · exact ⟨nofun, nofun⟩

theorem mapM_error_iff {ε α β : Type} {f : α → Except ε β} {A L : α → Prop} {e : ε} :
    ∀ {l : List α}, (∀ x ∈ l, ((∃ b, f x = .ok b) ↔ A x) ∧ (f x = .error e ↔ L x)) →
      (l.mapM f = .error e ↔ First A L l)
  | [], _ => ⟨nofun, nofun⟩
  | x :: l, h => by
    obtain ⟨hA, hL⟩ := h x List.mem_cons_self
    have ih := mapM_error_iff fun y hy => h y (List.mem_cons_of_mem _ hy)
    rw [List.mapM_cons, bind_error_iff, First, hL]
    refine or_congr_right ?_
    constructor
    · rintro ⟨b, hb, h⟩
      obtain h | ⟨bs, -, h⟩ := bind_error_iff.mp h
      · exact ⟨hA.mp ⟨b, hb⟩, ih.mp h⟩
      · cases h
    · rintro ⟨ha, hl⟩
      obtain ⟨b, hb⟩ := hA.mpr ha
      exact ⟨b, hb, bind_error_iff.mpr (.inl (ih.mpr hl))⟩

theorem Computes.safe {v : α} (h : Computes x v) :
    x ≠ .error .panics := by
  obtain rfl | rfl := h <;> exact nofun

theorem Gives.safe {x : Except Fault Q} {r : Rat} (h : Gives x r) : x ≠ .error .panics := by
  obtain ⟨rfl, -⟩ | rfl := h <;> exact nofun

/-! ## Where parsing panics -/

theorem probability_panics :
    probability text = .error .panics ↔ LeastNumerator text := by
  refine ⟨fun h => ?_, ?_⟩
  · obtain ⟨r, -, hx⟩ | ⟨-, -, hx⟩ | ⟨hleast, -⟩ := probability_cases text
    · exact absurd (hx.symm.trans h) nofun
    · exact absurd (hx.symm.trans h) nofun
    · exact hleast
  · rintro ⟨d, hd, hpos⟩
    unfold probability Q.parse
    rw [hd, ok_bind]
    simp only
    rw [new_least hpos, error_bind, error_bind]

theorem probability_ok :
    (∃ q, probability text = .ok q) ↔ ∃ r, Spells text r := by
  constructor
  · rintro ⟨q, hq⟩
    obtain ⟨r, hr, -⟩ := (probability_reads text).sound q hq
    exact ⟨r, hr⟩
  · rintro ⟨r, hr⟩
    exact ⟨_, parse_spells hr⟩

theorem texts_panic {texts : List String} :
    orReject why (texts.mapM probability) = .error .panics ↔ TextsReadLeast texts :=
  orReject_panics.trans (mapM_error_iff fun _ _ => ⟨probability_ok, probability_panics⟩)

theorem parseLatent_panics (shape : Shape) (record : LatentRecord) (e : Nat × Nat) :
    parseLatent shape record e = .error .panics ↔ record.ReadsLeast shape e := by
  unfold parseLatent
  rw [require_bind_panics, require_bind_panics, bind_error_iff, texts_panic]
  constructor
  · rintro ⟨hedge, hlevels, htexts | ⟨law, hlaw, h⟩⟩
    · exact ⟨hedge, hlevels, htexts⟩
    · -- the sum of a law refuses at most
      obtain ⟨rs, hrs, rfl⟩ := (texts_read _ _).sound law hlaw
      have hsum := sum_gives (fun r hr => (forall₂_prob hrs r hr).fits) fits_zero
      rw [ofRat_zero] at hsum
      obtain h | ⟨total, -, h⟩ := bind_error_iff.mp h
      · exact absurd (orReject_panics.mp h) hsum.safe
      · exact absurd (require_bind_panics.mp h).2 nofun
  · rintro ⟨hedge, hlevels, htexts⟩
    exact ⟨hedge, hlevels, .inl htexts⟩

theorem parseKernel_panics (shape : Shape) (cards : List Nat) (j : Nat) (record : KernelRecord) :
    parseKernel shape cards j record = .error .panics ↔ record.ReadsLeast shape cards j := by
  unfold parseKernel
  rw [require_bind_panics, require_bind_panics, texts_panic]
  constructor
  · rintro ⟨⟨hnode, hparents, hlatents⟩, hrows, htexts⟩
    exact ⟨⟨hnode, hparents, hlatents⟩, hrows, htexts⟩
  · rintro ⟨⟨hnode, hparents, hlatents⟩, hrows, htexts⟩
    exact ⟨⟨hnode, hparents, hlatents⟩, hrows, htexts⟩

theorem kernels_panic (shape : Shape) (cards : List Nat) (ps : List (Nat × KernelRecord)) :
    ps.mapM (fun p => parseKernel shape cards p.1 p.2) = .error .panics ↔
      KernelsReadLeast shape cards ps :=
  mapM_error_iff fun p _ => ⟨Iff.rfl, parseKernel_panics shape cards p.1 p.2⟩

theorem parseModel_panics (shape : Shape) (record : ModelRecord) :
    parseModel shape record = .error .panics ↔ record.ReadsLeast shape := by
  unfold parseModel ModelRecord.ReadsLeast
  rw [require_bind_panics]
  refine and_congr_right fun _ => bind_error_iff.trans (or_congr ?_ ?_)
  · exact mapM_error_iff fun p _ => ⟨Iff.rfl, parseLatent_panics shape p.1 p.2⟩
  refine exists_congr fun latents => and_congr_right fun _ => ?_
  simp only
  rw [require_bind_panics, require_bind_panics]
  refine and_congr_right fun _ => and_congr_right fun _ => bind_error_iff.trans (or_congr ?_ ?_)
  · exact kernels_panic shape _ _
  have hrest : ∀ source : List (List Q), ((do
      require (record.target.length = shape.selection.length)
        "one target mechanism per selection target"
      let changed ← (shape.selection.zip record.target).mapM fun p =>
        parseKernel shape (latents.map List.length) p.1 p.2
      let target := (shape.selection.zip changed).foldl (fun target p => target.set p.1 p.2) source
      .ok ⟨latents.map List.length, latents, source, target⟩ : Except VerifyError Model) =
        .error .panics) ↔ record.target.length = shape.selection.length ∧
        KernelsReadLeast shape (latents.map List.length) (shape.selection.zip record.target) :=
    fun source => by
      rw [require_bind_panics, bind_error_iff]
      refine and_congr_right fun _ => ?_
      rw [← kernels_panic]
      refine or_iff_left ?_
      rintro ⟨_, -, h⟩
      cases h
  constructor
  · rintro ⟨source, hsource, h⟩
    exact ⟨⟨source, hsource⟩, (hrest source).mp h⟩
  · rintro ⟨⟨source, hsource⟩, h⟩
    exact ⟨source, hsource, (hrest source).mpr h⟩

/-! ## Levels -/

/-- The mask holds the nodes of the variables, the bits those at level 1. -/
structure Binds (shape : Shape) (vars levels : List Nat) (mask set : Nat) : Prop where
  length : vars.length = levels.length
  binary : ∀ l ∈ levels, l ≤ 1
  mask : ∀ j, mask.testBit j = true ↔ ∃ p ∈ vars.zip levels, shape.ids.findIdx? (· = p.1) = some j
  bits : ∀ j, set.testBit j = true ↔
    ∃ p ∈ vars.zip levels, p.2 = 1 ∧ shape.ids.findIdx? (· = p.1) = some j

structure Level.Binds (at_ : Level) (shape : Shape) (query : ConditionalQuery)
    (record : WitnessRecord) : Prop where
  treatments : Witness.Binds shape query.treatments record.treatmentLevel at_.xMask at_.xBits
  conditioned : Witness.Binds shape query.conditionedOn record.conditionedLevel at_.wMask at_.wBits
  outcomes : Witness.Binds shape query.outcomes record.outcomeLevel at_.yMask at_.yBits

section Levels

variable {shape : Shape}

theorem testBit_or_shiftLeft (x i j : Nat) :
    (x ||| 1 <<< i).testBit j = true ↔ x.testBit j = true ∨ i = j := by
  rw [Nat.testBit_or, Nat.one_shiftLeft, Nat.testBit_two_pow, Bool.or_eq_true, decide_eq_true_eq]

/-- The fold of `bits`. -/
theorem foldlM_bits : ∀ {ps : List (Nat × Nat)}, (∀ p ∈ ps, p.1 ∈ shape.ids) → (∀ p ∈ ps, p.2 ≤ 1) →
    ∀ mask set : Nat, ∃ r : Nat × Nat,
      (ps.foldlM (fun (s : Nat × Nat) (p : Nat × Nat) => match shape.ids.findIdx? (· = p.1) with
        | some j => .ok (s.1 ||| 1 <<< j, s.2 ||| p.2 <<< j)
        | none => .error invalidDerivation) (mask, set) : Except VerifyError (Nat × Nat)) = .ok r ∧
      (∀ j, r.1.testBit j = true ↔
        mask.testBit j = true ∨ ∃ p ∈ ps, shape.ids.findIdx? (· = p.1) = some j) ∧
      ∀ j, r.2.testBit j = true ↔ set.testBit j = true ∨
        ∃ p ∈ ps, p.2 = 1 ∧ shape.ids.findIdx? (· = p.1) = some j
  | [], _, _, mask, set => ⟨(mask, set), rfl, fun j => by simp, fun j => by simp⟩
  | p :: ps, hids, hbin, mask, set => by
    obtain ⟨i, hi⟩ : ∃ i, shape.ids.findIdx? (· = p.1) = some i := by
      rw [← Option.isSome_iff_exists, List.findIdx?_isSome, List.any_eq_true]
      exact ⟨p.1, hids p List.mem_cons_self, decide_eq_true rfl⟩
    obtain ⟨r, hr, hmask, hset⟩ := foldlM_bits (fun q hq => hids q (List.mem_cons_of_mem _ hq))
      (fun q hq => hbin q (List.mem_cons_of_mem _ hq)) (mask ||| 1 <<< i) (set ||| p.2 <<< i)
    refine ⟨r, ?_, fun j => ?_, fun j => ?_⟩
    · rw [List.foldlM_cons, hi, ok_bind]
      exact hr
    · rw [hmask, testBit_or_shiftLeft, List.exists_mem_cons_iff, hi, Option.some_inj, or_assoc]
    · have hbit : (set ||| p.2 <<< i).testBit j = true ↔ set.testBit j = true ∨ p.2 = 1 ∧ i = j := by
        obtain h | h := Nat.le_one_iff_eq_zero_or_eq_one.mp (hbin p List.mem_cons_self)
        · rw [h, Nat.zero_shiftLeft, Nat.or_zero]
          simp
        · rw [h, testBit_or_shiftLeft]
          simp
      rw [hset, hbit, List.exists_mem_cons_iff, hi, Option.some_inj, or_assoc]

variable {vars levels : List Nat}

/-- **`bits`** binds coordinates of the diagram to their levels, or refuses levels that do not fit. -/
theorem bits_cases (hvars : ∀ v ∈ vars, v ∈ shape.ids) :
    (∃ r, bits shape vars levels = .ok r ∧ Binds shape vars levels r.1 r.2) ∨
      (¬ (vars.length = levels.length ∧ ∀ l ∈ levels, l ≤ 1) ∧
        ∃ why, bits shape vars levels = .error (.rejected why)) := by
  unfold bits
  by_cases h : vars.length = levels.length ∧ (levels.all (· ≤ 1)) = true
  · have hbin : ∀ l ∈ levels, l ≤ 1 := fun l hl =>
      of_decide_eq_true (List.all_eq_true.mp h.2 l hl)
    obtain ⟨r, hr, hmask, hset⟩ := @foldlM_bits shape (vars.zip levels)
      (fun p hp => hvars _ (List.of_mem_zip hp).1) (fun p hp => hbin _ (List.of_mem_zip hp).2) 0 0
    refine .inl ⟨r, ?_, h.1, hbin, fun j => ?_, fun j => ?_⟩
    · rw [require_ok h, ok_bind]
      exact hr
    · rw [hmask, Nat.zero_testBit]
      simp
    · rw [hset, Nat.zero_testBit]
      simp
  · refine .inr ⟨fun h' => h ⟨h'.1, List.all_eq_true.mpr fun l hl => decide_eq_true (h'.2 l hl)⟩, ?_⟩
    exact ⟨_, by rw [require, if_neg h, error_bind]⟩

theorem Binds.unique {mask set mask' set' : Nat}
    (h : Binds shape vars levels mask set) (h' : Binds shape vars levels mask' set') :
    mask = mask' ∧ set = set' :=
  ⟨Nat.eq_of_testBit_eq fun j => Bool.eq_iff_iff.mpr ((h.mask j).trans (h'.mask j).symm),
    Nat.eq_of_testBit_eq fun j => Bool.eq_iff_iff.mpr ((h.bits j).trans (h'.bits j).symm)⟩

theorem bits_ok_iff (hvars : ∀ v ∈ vars, v ∈ shape.ids) {r : Nat × Nat} :
    bits shape vars levels = .ok r ↔ Binds shape vars levels r.1 r.2 := by
  obtain ⟨r', hr', hbinds⟩ | ⟨hno, why, herr⟩ := @bits_cases shape vars levels hvars
  · constructor
    · intro h
      exact Except.ok.inj (hr'.symm.trans h) ▸ hbinds
    · intro h
      rw [hr']
      exact congrArg _ (Prod.ext_iff.mpr (hbinds.unique h))
  · constructor
    · intro h
      exact absurd (herr.symm.trans h) nofun
    · intro h
      exact absurd ⟨h.length, h.binary⟩ hno

theorem bits_safe (hvars : ∀ v ∈ vars, v ∈ shape.ids) :
    bits shape vars levels ≠ .error .panics := by
  obtain ⟨r', hr', -⟩ | ⟨-, why, herr⟩ := @bits_cases shape vars levels hvars
  · rw [hr']
    exact nofun
  · rw [herr]
    exact nofun

variable {query : ConditionalQuery} {record : WitnessRecord}

section

variable (hids : ∀ v ∈ query.outcomes ++ query.treatments ++ query.conditionedOn, v ∈ shape.ids)

include hids

/-- **`level`** reads the recorded levels of the coordinates. -/
theorem level_ok_iff {at_ : Level} :
    level shape query record = .ok at_ ↔ at_.Binds shape query record := by
  have hx : ∀ v ∈ query.treatments, v ∈ shape.ids := fun v hv => hids v (by simp [hv])
  have hw : ∀ v ∈ query.conditionedOn, v ∈ shape.ids := fun v hv => hids v (by simp [hv])
  have hy : ∀ v ∈ query.outcomes, v ∈ shape.ids := fun v hv => hids v (by simp [hv])
  unfold level
  constructor
  · intro h
    obtain ⟨x, hx', h⟩ := bind_ok h
    obtain ⟨w, hw', h⟩ := bind_ok h
    obtain ⟨y, hy', h⟩ := bind_ok h
    obtain rfl := Except.ok.inj h
    exact ⟨(bits_ok_iff hx).mp hx', (bits_ok_iff hw).mp hw', (bits_ok_iff hy).mp hy'⟩
  · rintro ⟨hx', hw', hy'⟩
    rw [(bits_ok_iff (r := (at_.xMask, at_.xBits)) hx).mpr hx', ok_bind,
      (bits_ok_iff (r := (at_.wMask, at_.wBits)) hw).mpr hw', ok_bind,
      (bits_ok_iff (r := (at_.yMask, at_.yBits)) hy).mpr hy', ok_bind]

theorem level_safe : level shape query record ≠ .error .panics := by
  intro h
  obtain h | ⟨x, -, h⟩ := bind_error_iff.mp h
  · exact bits_safe (fun v hv => hids v (by simp [hv])) h
  obtain h | ⟨w, -, h⟩ := bind_error_iff.mp h
  · exact bits_safe (fun v hv => hids v (by simp [hv])) h
  obtain h | ⟨y, -, h⟩ := bind_error_iff.mp h
  · exact bits_safe (fun v hv => hids v (by simp [hv])) h
  cases h

end

/-- A validated query has its coordinates among the variables of the diagram. -/
theorem checkCoordinates_mem {known : List Nat} : ∀ {vs seen : List Nat},
    checkCoordinates known vs seen = .ok () → ∀ v ∈ vs, v ∈ known
  | [], _, _ => fun _ h => absurd h List.not_mem_nil
  | w :: vs, seen, h => by
    unfold checkCoordinates at h
    split at h
    · cases h
    next hknown =>
      split at h
      · cases h
      · intro v hv
        obtain rfl | hv := List.mem_cons.mp hv
        · exact not_not.mp hknown
        · exact checkCoordinates_mem h v hv

theorem validate_mem {diagram : SelectionDiagram} (h : validate diagram query = .ok vars) :
    ∀ v ∈ query.outcomes ++ query.treatments ++ query.conditionedOn, v ∈ vars := by
  unfold validate at h
  split at h
  · cases h
  split at h
  · cases h
  split at h
  · cases h
  split at h
  · cases h
  split at h
  · cases h
  next known _ =>
    obtain ⟨_, hcheck, h⟩ := bind_ok h
    obtain rfl := Except.ok.inj h
    exact checkCoordinates_mem hcheck

end Levels

/-! ## The verification -/

/-- **The record shows that the query is not transportable**: its two models agree on every supplied
law and differ on the query at the recorded level, with these values. -/
structure Witnesses (shape : Shape) (query : ConditionalQuery) (record : WitnessRecord)
    (m₁ m₂ : Scm) (at_ : Level) : Prop where
  first : Describes shape record.first m₁
  second : Describes shape record.second m₂
  level : at_.Binds shape query record
  agree : Agree shape m₁ m₂
  differ : m₁.query shape at_ ≠ m₂.query shape at_
  firstValue : record.firstValue.toList = (Q.ofRat (m₁.query shape at_)).toText
  secondValue : record.secondValue.toList = (Q.ofRat (m₂.query shape at_)).toText

section Verification

variable {shape : Shape} {query : ConditionalQuery} {record : WitnessRecord}

theorem parsed_tables (hshape : shape.Indexed) {record : ModelRecord} {model : Model}
    (h : parseModel shape record = .ok model) :
    ∃ m, Describes shape record m ∧ Integral.new shape model ≠ .error .panics ∧
      ∀ tables, Integral.new shape model = .ok tables →
        tables = m.integral shape ∧ InI128 (m.massDen : Int) := by
  obtain ⟨m, hm, rfl⟩ := (parseModel_reads shape record).sound model h
  have hcomputes := integral_computes hshape hm.of
  refine ⟨m, hm, hcomputes.safe, fun tables ht => ?_⟩
  have heq := hcomputes.ok ht
  exact ⟨heq, (heq ▸ integral_latentDen ht : InI128 (m.integral shape).latentDen)⟩

variable {why : String} {m₁ m₂ : Scm} {at_ : Level}

/-- `orReject` returns what the arithmetic does. -/
theorem of_orReject {a : α}
    (h : orReject why x = .ok a) : x = .ok a := by
  obtain (_ | _) | b := x
  · cases h
  · cases h
  · exact congrArg _ (Except.ok.inj h)

theorem Gives.of_orReject {x : Except Fault Q} {r : Rat} {q : Q} (h : Gives x r)
    (hq : orReject why x = .ok q) : q = Q.ofRat r := by
  obtain ⟨rfl, -⟩ | rfl := h
  · exact (Except.ok.inj hq).symm
  · cases hq

section

variable (hshape : shape.Indexed)
  (hids : ∀ v ∈ query.outcomes ++ query.treatments ++ query.conditionedOn, v ∈ shape.ids)

include hshape hids

/-- **What `evaluate` returns** are the values of the query in two models that agree. -/
theorem evaluate_sound {cancelled : Nat → Bool} {a b : Q}
    (h : evaluate shape query record cancelled = .ok (a, b)) :
    ∃ m₁ m₂ at_, Describes shape record.first m₁ ∧ Describes shape record.second m₂ ∧
      at_.Binds shape query record ∧ Agree shape m₁ m₂ ∧
      a = Q.ofRat (m₁.query shape at_) ∧ b = Q.ofRat (m₂.query shape at_) := by
  unfold evaluate at h
  obtain ⟨model₁, hmodel₁, h⟩ := bind_ok h
  obtain ⟨first, hfirst, h⟩ := bind_ok h
  obtain ⟨model₂, hmodel₂, h⟩ := bind_ok h
  obtain ⟨second, hsecond, h⟩ := bind_ok h
  obtain ⟨_, hlaws, h⟩ := bind_ok h
  obtain ⟨at_, hat, h⟩ := bind_ok h
  obtain ⟨a', ha, h⟩ := bind_ok h
  obtain ⟨b', hb, h⟩ := bind_ok h
  obtain ⟨rfl, rfl⟩ := Prod.mk.inj (Except.ok.inj h)
  obtain ⟨m₁, hm₁, -, ht₁⟩ := parsed_tables hshape hmodel₁
  obtain ⟨m₂, hm₂, -, ht₂⟩ := parsed_tables hshape hmodel₂
  obtain ⟨rfl, hd₁⟩ := ht₁ _ (of_orReject hfirst)
  obtain ⟨rfl, hd₂⟩ := ht₂ _ (of_orReject hsecond)
  exact ⟨m₁, m₂, at_, hm₁, hm₂, (level_ok_iff hids).mp hat,
    (laws_settle hshape hm₁.of hm₂.of hd₁ hd₂ cancelled).sound hlaws,
    (queryValue_gives hshape hm₁.of hd₁ at_).of_orReject ha,
    (queryValue_gives hshape hm₂.of hd₂ at_).of_orReject hb⟩

/-- **What `evaluate` is given of two models that agree** it evaluates, up to a bound or checked
arithmetic. -/
theorem evaluate_complete (cancelled : Nat → Bool) (hm₁ : Describes shape record.first m₁)
    (hm₂ : Describes shape record.second m₂) (hat : at_.Binds shape query record)
    (hagree : Agree shape m₁ m₂) : evaluate shape query record cancelled =
        .ok (Q.ofRat (m₁.query shape at_), Q.ofRat (m₂.query shape at_)) ∨
      ∃ e, evaluate shape query record cancelled = .error e ∧ Bounded e := by
  have harith : Bounded (.rejected "arithmetic overflow") := .inr (by simp)
  have hvalue : Bounded (.rejected "arithmetic overflow or a zero-mass conditioning event") :=
    .inr (by simp)
  have htables : ∀ m : Scm, m.Of shape → Integral.new shape m.toModel = .ok (m.integral shape) ∧
      InI128 (m.massDen : Int) ∨ Integral.new shape m.toModel = .error .refused := fun m hm =>
    (integral_computes hshape hm).imp_left fun h => ⟨h, integral_latentDen h⟩
  unfold evaluate
  obtain hx | ⟨e, hx, he⟩ := (parseModel_reads shape record.first).complete m₁ hm₁
  swap
  · exact .inr ⟨e, by rw [hx, error_bind], he⟩
  rw [hx, ok_bind]
  obtain ⟨hx, hd₁⟩ | hx := htables m₁ hm₁.of
  swap
  · exact .inr ⟨_, by rw [hx, orReject, error_bind], harith⟩
  rw [hx, orReject, ok_bind]
  obtain hx | ⟨e, hx, he⟩ := (parseModel_reads shape record.second).complete m₂ hm₂
  swap
  · exact .inr ⟨e, by rw [hx, error_bind], he⟩
  rw [hx, ok_bind]
  obtain ⟨hx, hd₂⟩ | hx := htables m₂ hm₂.of
  swap
  · exact .inr ⟨_, by rw [hx, orReject, error_bind], harith⟩
  rw [hx, orReject, ok_bind]
  obtain hx | ⟨e, hx, he⟩ :=
    (laws_settle hshape hm₁.of hm₂.of hd₁ hd₂ cancelled).complete hagree
  swap
  · exact .inr ⟨e, (congrArg (· >>= _) hx).trans (error_bind _ _), he⟩
  refine (congrArg (fun x => x = _ ∨ ∃ e, x = .error e ∧ Bounded e)
    ((congrArg (· >>= _) hx).trans (ok_bind _ _))).mpr ?_
  rw [(level_ok_iff hids).mpr hat, ok_bind]
  obtain ⟨hx, -⟩ | hx := queryValue_gives hshape hm₁.of hd₁ at_
  swap
  · exact .inr ⟨_, by rw [hx, orReject, error_bind], hvalue⟩
  rw [hx, orReject, ok_bind]
  obtain ⟨hx, -⟩ | hx := queryValue_gives hshape hm₂.of hd₂ at_
  swap
  · exact .inr ⟨_, by rw [hx, orReject, error_bind], hvalue⟩
  rw [hx, orReject, ok_bind]
  exact .inl rfl

/-- **`evaluate` panics** where the parsing of the first model does, or that of the second after
it. -/
theorem evaluate_panics (cancelled : Nat → Bool) :
    evaluate shape query record cancelled = .error .panics ↔
      record.first.ReadsLeast shape ∨
        (∃ model tables, parseModel shape record.first = .ok model ∧
          Integral.new shape model = .ok tables) ∧ record.second.ReadsLeast shape := by
  rw [← parseModel_panics, ← parseModel_panics]
  unfold evaluate
  constructor
  · intro h
    obtain h | ⟨model₁, hmodel₁, h⟩ := bind_error_iff.mp h
    · exact .inl h
    obtain ⟨m₁, hm₁, hsafe₁, ht₁⟩ := parsed_tables hshape hmodel₁
    obtain h | ⟨first, hfirst, h⟩ := bind_error_iff.mp h
    · exact absurd (orReject_panics.mp h) hsafe₁
    have hfirst := of_orReject hfirst
    obtain h | ⟨model₂, hmodel₂, h⟩ := bind_error_iff.mp h
    · exact .inr ⟨⟨model₁, first, hmodel₁, hfirst⟩, h⟩
    -- nothing panics once both models are read
    exfalso
    obtain ⟨m₂, hm₂, hsafe₂, ht₂⟩ := parsed_tables hshape hmodel₂
    obtain h | ⟨second, hsecond, h⟩ := bind_error_iff.mp h
    · exact hsafe₂ (orReject_panics.mp h)
    obtain ⟨rfl, hd₁⟩ := ht₁ _ hfirst
    obtain ⟨rfl, hd₂⟩ := ht₂ _ (of_orReject hsecond)
    obtain h | ⟨_, -, h⟩ := bind_error_iff.mp h
    · exact (laws_settle hshape hm₁.of hm₂.of hd₁ hd₂ cancelled).safe h
    obtain h | ⟨at_, -, h⟩ := bind_error_iff.mp h
    · exact level_safe hids h
    obtain h | ⟨a, -, h⟩ := bind_error_iff.mp h
    · exact (queryValue_gives hshape hm₁.of hd₁ at_).safe (orReject_panics.mp h)
    obtain h | ⟨b, -, h⟩ := bind_error_iff.mp h
    · exact (queryValue_gives hshape hm₂.of hd₂ at_).safe (orReject_panics.mp h)
    cases h
  · rintro (h | ⟨⟨model, tables, hmodel, htables⟩, h⟩)
    · exact bind_error_iff.mpr (.inl h)
    · rw [hmodel, ok_bind, htables, orReject, ok_bind]
      exact bind_error_iff.mpr (.inl h)

end

theorem Witnesses.mass_pos (hshape : shape.Indexed) (h : Witnesses shape query record m₁ m₂ at_) :
    0 < ((at_.worlds shape.n).map fun world => m₁.law shape true at_.xMask world).sum ∧
      0 < ((at_.worlds shape.n).map fun world => m₂.law shape true at_.xMask world).sum := by
  have hne : at_.worlds shape.n ≠ [] := fun hnil => h.differ (by
    unfold Scm.query
    rw [hnil]
    rfl)
  have hpos : ∀ m : Scm, m.Of shape →
      0 < ((at_.worlds shape.n).map fun world => m.law shape true at_.xMask world).sum :=
    fun m hm => by
      refine List.sum_pos _ (fun x hx => ?_) (by simpa using hne)
      obtain ⟨world, -, rfl⟩ := List.mem_map.mp hx
      exact law_pos hshape hm true at_.xMask world
  exact ⟨hpos m₁ h.first.of, hpos m₂ h.second.of⟩

end Verification

/-- What a verification promises: it accepts only witnesses, whose models are strictly positive and
change the mechanisms of the selection targets only; it accepts every witness but for a bound or
checked arithmetic; and it does not panic. -/
structure Promised (diagram : SelectionDiagram) (query : ConditionalQuery) (record : WitnessRecord)
    (cancelled : Nat → Bool) : Prop where
  sound : ∀ a b, verifyConditionalWitness diagram query record cancelled = .ok (a, b) →
    ∃ vars m₁ m₂ at_, validate diagram query = .ok vars ∧
      Witnesses (Shape.new diagram vars) query record m₁ m₂ at_ ∧
      (m₁.Of (Shape.new diagram vars) ∧ m₂.Of (Shape.new diagram vars)) ∧
      (∀ j < vars.length, (Shape.new diagram vars).selected.getD j false = false →
        m₁.target.getD j [] = m₁.source.getD j [] ∧ m₂.target.getD j [] = m₂.source.getD j []) ∧
      a = Q.ofRat (m₁.query (Shape.new diagram vars) at_) ∧
      b = Q.ofRat (m₂.query (Shape.new diagram vars) at_)
  complete : ∀ vars m₁ m₂ at_, validate diagram query = .ok vars →
    Witnesses (Shape.new diagram vars) query record m₁ m₂ at_ →
    (0 < ((at_.worlds vars.length).map fun world =>
        m₁.law (Shape.new diagram vars) true at_.xMask world).sum ∧
      0 < ((at_.worlds vars.length).map fun world =>
        m₂.law (Shape.new diagram vars) true at_.xMask world).sum) ∧
    (verifyConditionalWitness diagram query record cancelled =
        .ok (Q.ofRat (m₁.query (Shape.new diagram vars) at_),
          Q.ofRat (m₂.query (Shape.new diagram vars) at_)) ∨
      ∃ e, verifyConditionalWitness diagram query record cancelled = .error e ∧ Bounded e)
  total : verifyConditionalWitness diagram query record cancelled ≠ .error .panics

section Exact

variable {diagram : SelectionDiagram} {query : ConditionalQuery} {record : WitnessRecord}
  {cancelled : Nat → Bool}

theorem verify_sound {a b : Q}
    (h : verifyConditionalWitness diagram query record cancelled = .ok (a, b)) :
    ∃ vars m₁ m₂ at_, validate diagram query = .ok vars ∧
      Witnesses (Shape.new diagram vars) query record m₁ m₂ at_ ∧
      a = Q.ofRat (m₁.query (Shape.new diagram vars) at_) ∧
      b = Q.ofRat (m₂.query (Shape.new diagram vars) at_) := by
  unfold verifyConditionalWitness at h
  cases hv : validate diagram query with
  | error e =>
    rw [hv] at h
    cases h
  | ok vars =>
    rw [hv, Except.mapError, ok_bind] at h
    obtain ⟨⟨a', b'⟩, hab, h⟩ := bind_ok h
    obtain ⟨_, hne, h⟩ := bind_ok h
    obtain ⟨_, htexts, h⟩ := bind_ok h
    obtain ⟨rfl, rfl⟩ := Prod.mk.inj (Except.ok.inj h)
    obtain ⟨m₁, m₂, at_, hm₁, hm₂, hat, hagree, rfl, rfl⟩ :=
      evaluate_sound (shape_indexed diagram vars) (validate_mem hv) hab
    obtain ⟨hfirst, hsecond⟩ := of_require htexts
    exact ⟨vars, m₁, m₂, at_, rfl, ⟨hm₁, hm₂, hat, hagree,
      fun heq => of_require hne (by rw [heq]), hfirst.symm, hsecond.symm⟩, rfl, rfl⟩

theorem verify_complete {vars : List Nat} {m₁ m₂ : Scm} {at_ : Level}
    (hv : validate diagram query = .ok vars)
    (h : Witnesses (Shape.new diagram vars) query record m₁ m₂ at_) :
    verifyConditionalWitness diagram query record cancelled =
        .ok (Q.ofRat (m₁.query (Shape.new diagram vars) at_),
          Q.ofRat (m₂.query (Shape.new diagram vars) at_)) ∨
      ∃ e, verifyConditionalWitness diagram query record cancelled = .error e ∧ Bounded e := by
  unfold verifyConditionalWitness
  rw [hv, Except.mapError, ok_bind]
  obtain hx | ⟨e, hx, he⟩ := evaluate_complete (shape_indexed diagram vars) (validate_mem hv)
    cancelled h.first h.second h.level h.agree
  · rw [hx, ok_bind]
    have hdiffer : Q.ofRat (m₁.query (Shape.new diagram vars) at_) ≠
        Q.ofRat (m₂.query (Shape.new diagram vars) at_) := fun heq =>
      h.differ (Q.ofRat_injective heq)
    simp only
    rw [require_ok hdiffer, ok_bind,
      require_ok ⟨h.firstValue.symm, h.secondValue.symm⟩, ok_bind]
    exact .inl rfl
  · exact .inr ⟨e, by rw [hx, error_bind], he⟩

theorem verify_panics :
    verifyConditionalWitness diagram query record cancelled = .error .panics ↔
      record.ReadsLeast diagram query := by
  unfold verifyConditionalWitness WitnessRecord.ReadsLeast
  cases hv : validate diagram query with
  | error e =>
    rw [Except.mapError, error_bind]
    constructor
    · exact fun h => absurd (Except.error.inj h) nofun
    · rintro ⟨_, h, -⟩
      cases h
  | ok vars =>
    have heval := @evaluate_panics _ query record (shape_indexed diagram vars) (validate_mem hv)
      cancelled
    rw [Except.mapError, ok_bind]
    constructor
    · intro h
      obtain h | ⟨⟨a, b⟩, -, h⟩ := bind_error_iff.mp h
      · exact ⟨vars, rfl, heval.mp h⟩
      · exact absurd (require_bind_panics.mp (require_bind_panics.mp h).2).2 nofun
    · rintro ⟨vars', hvars, h⟩
      obtain rfl := Except.ok.inj hvars
      exact bind_error_iff.mpr (.inl (heval.mpr h))

end Exact

/-- **The verification keeps its promise** exactly where no numeral with the least numerator is
reached. -/
theorem verification_exact_iff (diagram : SelectionDiagram) (query : ConditionalQuery)
    (record : WitnessRecord) (cancelled : Nat → Bool) :
    Promised diagram query record cancelled ↔ ¬ record.ReadsLeast diagram query := by
  constructor
  · exact fun h hreads => h.total (verify_panics.mpr hreads)
  · intro h
    refine ⟨fun a b hab => ?_, fun vars m₁ m₂ at_ hv hw => ?_, fun hp => h (verify_panics.mp hp)⟩
    · obtain ⟨vars, m₁, m₂, at_, hv, hw, ha, hb⟩ := verify_sound hab
      exact ⟨vars, m₁, m₂, at_, hv, hw, ⟨hw.first.of, hw.second.of⟩,
        fun j hj hsel => ⟨hw.first.unchanged hj hsel, hw.second.unchanged hj hsel⟩, ha, hb⟩
    · exact ⟨hw.mass_pos (shape_indexed diagram vars), verify_complete hv hw⟩

/-! ### A record that is not refused -/

/-- Two variables without edges. -/
def pairDiagram : SelectionDiagram := ⟨Admg.withVariables 2, [0]⟩

/-- `P(0 | 1)`. -/
def pairQuery : ConditionalQuery := ⟨[0], [], "source", "target", [1]⟩

/-- The numeral `-2 ^ 127 / 3`. -/
def leastNumeral : String := "-170141183460469231731687303715884105728/3"

/-- A record with this numeral in its first mechanism. -/
def leastRecord : WitnessRecord where
  first := ⟨[], [⟨0, [], [], [leastNumeral]⟩, ⟨1, [], [], ["1/2"]⟩], [⟨0, [], [], ["1/2"]⟩]⟩
  second := ⟨[], [⟨0, [], [], ["1/3"]⟩, ⟨1, [], [], ["1/2"]⟩], [⟨0, [], [], ["1/2"]⟩]⟩
  treatmentLevel := []
  conditionedLevel := [1]
  outcomeLevel := [1]
  firstValue := "1/2"
  secondValue := "1/2"

theorem leastNumeral_least : LeastNumerator leastNumeral := by
  refine ⟨3, ?_, by decide⟩
  have hbound : (-1) * ((Nat.ofDigitChars 10 "170141183460469231731687303715884105728".toList 0 : Nat)
      : Int) = -(i128Bound : Int) := by decide
  have hn : parseI128 "-170141183460469231731687303715884105728".toList =
      .ok (-(i128Bound : Int)) := by
    show parseDigits (-1) "170141183460469231731687303715884105728".toList = _
    unfold parseDigits
    rw [if_pos ⟨by decide, by decide⟩, hbound]
    exact if_pos ⟨le_refl _, by decide⟩
  have hd : parseI128 "3".toList = .ok 3 := by
    show parseDigits 1 "3".toList = _
    unfold parseDigits
    rw [if_pos ⟨by decide, by decide⟩]
    exact if_pos ⟨by decide, by decide⟩
  unfold fraction
  rw [show splitOnce '/' leastNumeral.toList = some
    ("-170141183460469231731687303715884105728".toList, "3".toList) by decide]
  simp only
  rw [if_neg (by decide), hn, ok_bind, hd, ok_bind]

theorem leastRecord_reads : leastRecord.ReadsLeast pairDiagram pairQuery := by
  refine ⟨[0, 1], by decide, .inl ⟨by decide, .inr ⟨[], rfl, by decide, by decide, .inl ?_⟩⟩⟩
  exact .inl ⟨⟨by decide, by decide, by decide⟩, by decide, .inl leastNumeral_least⟩

/-- **On such a record the verification panics.** -/
theorem leastRecord_panics : ¬ Promised pairDiagram pairQuery leastRecord fun _ => false :=
  fun h => h.total (verify_panics.mpr leastRecord_reads)

end Antecedent.Identify.Witness
