import Antecedent.Identify.WitnessRead
import Mathlib.Algebra.Order.BigOperators.Group.List
import Mathlib.Algebra.Order.BigOperators.GroupWithZero.List

/-!
# The verification of a witness

`verify_conditional_witness` accepts the records of the pairs that distinguish the query, in
canonical spelling, and no others; short of a bound or of checked arithmetic it accepts them all. It
panics at a numeral whose numerator is `-2 ^ 127`, and nowhere else.
-/

namespace Antecedent.Identify.Witness

open Graph Core

/-! ## Described models have the shape of the diagram -/

section Describes

variable {shape : Shape} {m : Scm} {α : Type}

theorem forall₂_zip {α β γ : Type} {R : α → β → γ → Prop} : ∀ {as : List α} {bs : List β}
    {cs : List γ}, List.Forall₂ (fun p c => R p.1 p.2 c) (as.zip bs) cs →
      ∀ q ∈ as.zip cs, ∃ b, R q.1 b q.2
  | [], _, _, _, _, hq => absurd hq (by simp)
  | _ :: _, [], _, h, q, hq => by
    rw [List.zip_nil_right] at h
    cases h
    exact absurd hq (by simp)
  | a :: as, b :: bs, cs, h, q, hq => by
    rw [List.zip_cons_cons] at h
    obtain ⟨⟩ | ⟨hR, ht⟩ := h
    obtain rfl | hq := List.mem_cons.mp hq
    · exact ⟨b, hR⟩
    · exact forall₂_zip ht q hq

theorem length_override (js : List Nat) : ∀ ks source : List α,
    (override js ks source).length = source.length := by
  intro ks source
  unfold override
  induction js.zip ks generalizing source with
  | nil => rfl
  | cons p ps ih => rw [List.foldl_cons, ih, List.length_set]

variable {j : Nat} {js : List Nat} {record : ModelRecord}

theorem getD_set (xs : List α) (i : Nat) (x d : α) (hj : j < xs.length) :
    (xs.set i x).getD j d = if i = j then x else xs.getD j d := by
  rw [List.getD_eq_getElem _ _ (by rwa [List.length_set]), List.getElem_set,
    List.getD_eq_getElem _ _ hj]

/-- What holds of the mechanisms put in and of those in place holds of the result. -/
theorem override_induct {P : Nat → α → Prop} (d : α) :
    ∀ {ks source : List α}, (∀ p ∈ js.zip ks, P p.1 p.2) →
      (∀ j < source.length, P j (source.getD j d)) →
      ∀ j < source.length, P j ((override js ks source).getD j d) := by
  intro ks source hnew hold
  unfold override
  generalize js.zip ks = ps at hnew ⊢
  induction ps generalizing source with
  | nil => exact hold
  | cons p ps ih =>
    have hlen : (source.set p.1 p.2).length = source.length := List.length_set
    rw [List.foldl_cons, ← hlen]
    refine ih (fun j hj => ?_) fun q hq => hnew q (List.mem_cons_of_mem _ hq)
    rw [List.length_set] at hj
    rw [getD_set _ _ _ _ hj]
    split
    next h => exact h ▸ hnew p List.mem_cons_self
    next => exact hold j hj

/-- **The mechanism of any other node** is that of the source. -/
theorem override_of_notMem (d : α) {ks source : List α}
    (hj : j < source.length) (h : j ∉ js) : (override js ks source).getD j d = source.getD j d := by
  unfold override
  have hzip : ∀ p ∈ js.zip ks, p.1 ≠ j := fun p hp hpj => h (hpj ▸ (List.of_mem_zip hp).1)
  generalize js.zip ks = ps at hzip ⊢
  induction ps generalizing source with
  | nil => rfl
  | cons p ps ih =>
    rw [List.foldl_cons, ih (by rwa [List.length_set]) fun q hq => hzip q (List.mem_cons_of_mem _ hq),
      getD_set _ _ _ _ hj, if_neg (hzip p List.mem_cons_self)]

theorem forall₂_mem_right {α β : Type} {R : α → β → Prop} {as : List α} {bs : List β}
    (h : List.Forall₂ R as bs) : ∀ b ∈ bs, ∃ a, R a b := by
  induction h with
  | nil => exact fun _ h => absurd h List.not_mem_nil
  | cons hab _ ih =>
    intro b hb
    obtain rfl | hb := List.mem_cons.mp hb
    · exact ⟨_, hab⟩
    · exact ih b hb

/-- **A described model** has a positive law per edge and a positive mechanism per node. -/
theorem Describes.of (h : Describes shape record m) : m.Of shape := by
  obtain ⟨hedges, hlaws, hnodes, hsource, -, changed, hchanged, htarget⟩ := h
  have hlen : m.source.length = shape.n := by
    rw [← hsource.length_eq, List.length_zip, List.length_range, hnodes, Nat.min_self]
  have hmech : ∀ target, (m.mechanisms target).length = shape.n := fun target => by
    cases target
    · exact hlen
    · exact (congrArg List.length htarget).trans ((length_override _ _ _).trans hlen)
  -- a mechanism of either population is one that the record spells
  have hkernel : ∀ target, ∀ j < shape.n, ((m.mechanisms target).getD j []).length =
      shape.rows j m.cards ∧ ∀ r ∈ (m.mechanisms target).getD j [], Prob r := by
    have hof : ∀ {j record kernel}, KernelOf shape m.cards j record kernel →
        kernel.length = shape.rows j m.cards ∧ ∀ r ∈ kernel, Prob r := fun h =>
      ⟨h.rows, forall₂_prob h.spelled⟩
    have hsrc : ∀ j < shape.n, (m.source.getD j []).length = shape.rows j m.cards ∧
        ∀ r ∈ m.source.getD j [], Prob r := fun j hj => by
      have hmem : (j, m.source.getD j []) ∈ (List.range shape.n).zip m.source := by
        rw [zip_range [] hlen]
        exact List.mem_map_of_mem (List.mem_range.mpr hj)
      obtain ⟨_, hk⟩ := forall₂_zip hsource _ hmem
      exact hof hk
    intro target j hj
    cases target
    · exact hsrc j hj
    · show (m.target.getD j []).length = _ ∧ _
      rw [show m.mechanisms true = m.target from rfl, htarget]
      refine override_induct (P := fun j kernel => kernel.length = shape.rows j m.cards ∧
        ∀ r ∈ kernel, Prob r) [] (fun p hp => ?_) (fun j hj => hsrc j (hlen ▸ hj)) j (hlen.symm ▸ hj)
      obtain ⟨_, hk⟩ := forall₂_zip hchanged p hp
      exact hof hk
  refine ⟨?_, fun law hlaw => ?_, hmech, fun target j hj => (hkernel target j hj).1,
    fun target kernel hkernel' => ?_⟩
  · rw [← hlaws.length_eq, List.length_zip, hedges, Nat.min_self]
  · obtain ⟨p, hp⟩ := forall₂_mem_right hlaws law hlaw
    exact ⟨forall₂_prob hp.spelled, hp.total, hp.levels⟩
  · obtain ⟨j, hj, rfl⟩ := List.getElem_of_mem hkernel'
    have h := (hkernel target j (hmech target ▸ hj)).2
    rwa [List.getD_eq_getElem _ _ hj] at h

/-- **The populations differ at the selection targets only.** -/
theorem Describes.unchanged (h : Describes shape record m)
    (hj : j < shape.n) (hsel : shape.selected.getD j false = false) :
    m.target.getD j [] = m.source.getD j [] := by
  obtain ⟨-, -, hnodes, hsource, -, changed, -, htarget⟩ := h
  have hlen : m.source.length = shape.n := by
    rw [← hsource.length_eq, List.length_zip, List.length_range, hnodes, Nat.min_self]
  rw [htarget]
  refine override_of_notMem [] (hlen.symm ▸ hj) fun hmem => ?_
  have := List.of_mem_filter hmem
  rw [hsel] at this
  cases this

theorem mem_incident {diagram : SelectionDiagram} {vars : List Nat} {e : Nat}
    (hj : j < vars.length) : e ∈ (Shape.new diagram vars).incident.getD j [] ↔
      ∃ a b, (Shape.new diagram vars).edges[e]? = some (a, b) ∧ (a = j ∨ b = j) := by
  have hincident : (Shape.new diagram vars).incident.getD j [] =
      (List.range (Shape.new diagram vars).edges.length).filter fun e =>
        ((Shape.new diagram vars).edges.getD e (0, 0)).1 = j ∨
          ((Shape.new diagram vars).edges.getD e (0, 0)).2 = j := by
    refine (getD_map _ [] 0 (by rwa [List.length_range])).trans ?_
    rw [List.getD_eq_getElem _ _ (by rwa [List.length_range]), List.getElem_range]
    rfl
  rw [hincident, List.mem_filter, List.mem_range, decide_eq_true_eq]
  constructor
  · rintro ⟨he, h⟩
    refine ⟨_, _, List.getElem?_eq_getElem he, ?_⟩
    rwa [List.getD_eq_getElem _ _ he] at h
  · rintro ⟨a, b, hab, h⟩
    obtain ⟨he, hget⟩ := List.getElem?_eq_some_iff.mp hab
    refine ⟨he, ?_⟩
    rw [List.getD_eq_getElem _ _ he]
    exact hget ▸ h

theorem shape_indexed (diagram : SelectionDiagram) (vars : List Nat) :
    (Shape.new diagram vars).Indexed := by
  intro j hj e he
  obtain ⟨a, b, hab, -⟩ := (mem_incident hj).mp he
  exact (List.getElem?_eq_some_iff.mp hab).1

end Describes

/-! ## Positivity -/

section Positivity

variable {shape : Shape} {m : Scm}

variable {u : List Nat}

theorem mass_pos (hm : m.Of shape) (hu : u ∈ configs m.cards) : 0 < m.mass u := by
  refine List.prod_pos fun x hx => ?_
  obtain ⟨p, hp, rfl⟩ := List.mem_map.mp hx
  have hmem : p.1.getD p.2 0 ∈ p.1 := by
    rw [List.getD_eq_getElem _ _ (level_lt hu p hp)]
    exact List.getElem_mem _
  exact ((hm.laws _ (List.of_mem_zip hp).1).1 _ hmem).pos

theorem factor_pos (hshape : shape.Indexed) (hm : m.Of shape) (target : Bool) {j : Nat}
    (hj : j < shape.n) (world : Nat) (hu : u ∈ configs m.cards) :
    0 < m.factor shape target j world u := by
  have hprob := hm.probs target _ (mechanism_mem hm target hj) _
    (entry_mem hshape hm target hj world hu)
  unfold Scm.factor
  split
  · exact hprob.pos
  · exact sub_pos.mpr hprob.lt_one

/-- **Every world has a positive probability** under every intervention. -/
theorem law_pos (hshape : shape.Indexed) (hm : m.Of shape) (target : Bool) (mask world : Nat) :
    0 < m.law shape target mask world := by
  refine List.sum_pos _ (fun x hx => ?_) fun h => ?_
  · obtain ⟨u, hu, rfl⟩ := List.mem_map.mp hx
    refine mul_pos (mass_pos hm hu) (List.prod_pos fun y hy => ?_)
    obtain ⟨j, hj, rfl⟩ := List.mem_map.mp hy
    exact factor_pos hshape hm target (@mem_free shape mask j hj) world hu
  · have hcards : ∀ c ∈ m.cards, 0 < c := fun c hc => by
      obtain ⟨law, hlaw, rfl⟩ := List.mem_map.mp hc
      have := (hm.laws law hlaw).2.2
      omega
    have hhead := (runs_configs hcards).2
    rw [List.map_eq_nil_iff.mp h] at hhead
    cases hhead

end Positivity

/-! ## The query -/

section Query

variable {shape : Shape} {m : Scm}

/-- The two sums of `query_value`. -/
theorem foldlM_sums {p : Nat → Except Fault Q} {f : Nat → Rat} {y : Nat → Prop} [DecidablePred y] :
    ∀ {ws : List Nat}, (∀ w ∈ ws, Gives (p w) (f w)) → ∀ {a b : Rat}, Fits a → Fits b →
      (ws.foldlM (fun (s : Q × Q) w => do
          let q ← p w
          let den ← Q.add s.2 q
          let num ← if y w then Q.add s.1 q else .ok s.1
          .ok (num, den)) (Q.ofRat a, Q.ofRat b) =
        .ok (Q.ofRat (a + ((ws.filter fun w => y w).map f).sum), Q.ofRat (b + (ws.map f).sum)) ∧
        Fits (a + ((ws.filter fun w => y w).map f).sum) ∧ Fits (b + (ws.map f).sum)) ∨
      ws.foldlM (fun (s : Q × Q) w => do
          let q ← p w
          let den ← Q.add s.2 q
          let num ← if y w then Q.add s.1 q else .ok s.1
          .ok (num, den)) (Q.ofRat a, Q.ofRat b) = .error .refused
  | [], _, a, b, ha, hb => by
    simp only [List.filter_nil, List.map_nil, List.sum_nil, add_zero]
    exact .inl ⟨rfl, ha, hb⟩
  | w :: ws, h, a, b, ha, hb => by
    have hws := fun v hv => h v (List.mem_cons_of_mem _ hv)
    rw [List.foldlM_cons]
    obtain ⟨hq, hf⟩ | hq := h w List.mem_cons_self
    swap
    · exact .inr (by rw [hq, error_bind, error_bind])
    obtain ⟨hden, hdf⟩ | hden := add_gives hb hf
    swap
    · exact .inr (by rw [hq, ok_bind, hden, error_bind, error_bind])
    rw [hq, ok_bind, hden, ok_bind, List.map_cons, List.sum_cons, ← add_assoc, List.filter_cons]
    by_cases hy : y w
    · rw [if_pos hy, if_pos (decide_eq_true hy), List.map_cons, List.sum_cons, ← add_assoc]
      obtain ⟨hnum, hnf⟩ | hnum := add_gives ha hf
      · rw [hnum, ok_bind, ok_bind]
        exact foldlM_sums hws hnf hdf
      · exact .inr (by rw [hnum, error_bind, error_bind])
    · rw [if_neg hy, if_neg (by simpa using hy), ok_bind, ok_bind]
      exact foldlM_sums hws ha hdf

/-- **The value of the query** is the quotient of the two sums, or checked arithmetic refuses. -/
theorem queryValue_gives (hshape : shape.Indexed) (hm : m.Of shape)
    (hden : InI128 (m.massDen : Int)) (at_ : Level) :
    Gives (queryValue shape (m.integral shape) at_) (m.query shape at_) := by
  have hcell : ∀ w ∈ at_.worlds shape.n, Gives (cell shape (m.integral shape) true at_.xMask w)
      (m.law shape true at_.xMask w) := fun w hw =>
    cell_gives hshape hm hden true at_.xMask (List.mem_range.mp (List.mem_of_mem_filter hw))
  have hfold := @foldlM_sums _ _ (fun w => w &&& at_.yMask = at_.yBits) _ _ hcell 0 0 fits_zero
    fits_zero
  rw [zero_add, zero_add] at hfold
  unfold queryValue
  obtain ⟨hfold, hn, hd⟩ | hfold := hfold
  · refine (congrArg (Gives · _) ((congrArg (· >>= _) hfold).trans (ok_bind _ _))).mpr ?_
    simp only
    by_cases h0 : ((at_.worlds shape.n).map fun w => m.law shape true at_.xMask w).sum = 0
    · rw [h0]
      exact .inr rfl
    · rw [if_neg (by simpa [Q.ofRat] using h0)]
      exact div_gives hn hd h0
  · exact .inr ((congrArg (· >>= _) hfold).trans (error_bind _ _))

end Query

/-! ## Comparing the laws -/

/-- `x` passes where `P` holds, up to the errors of `Bounded`, and does not panic. -/
structure Settles (x : Except VerifyError Unit) (P : Prop) : Prop where
  sound : x = .ok () → P
  complete : P → x = .ok () ∨ ∃ e, x = .error e ∧ Bounded e
  safe : x ≠ .error .panics

theorem Settles.forM {α : Type} {f : α → Except VerifyError Unit} {P : α → Prop} : ∀ {l : List α},
    (∀ a ∈ l, Settles (f a) (P a)) → Settles (l.forM f) (∀ a ∈ l, P a)
  | [], _ => ⟨fun _ _ h => absurd h List.not_mem_nil, fun _ => .inl rfl, nofun⟩
  | a :: l, h => by
    have ha := h a List.mem_cons_self
    have hl := Settles.forM fun b hb => h b (List.mem_cons_of_mem _ hb)
    rw [List.forM_eq_forM] at hl ⊢
    rw [List.forM_cons]
    constructor
    · intro hx
      obtain ⟨_, hfa, hfl⟩ := bind_ok hx
      rw [List.forall_mem_cons]
      exact ⟨ha.sound hfa, hl.sound hfl⟩
    · intro hP
      rw [List.forall_mem_cons] at hP
      obtain hx | ⟨e, hx, he⟩ := ha.complete hP.1
      · rw [hx, ok_bind]
        exact hl.complete hP.2
      · exact .inr ⟨e, by rw [hx, error_bind], he⟩
    · intro hx
      cases hfa : f a with
      | ok u =>
        rw [hfa, ok_bind] at hx
        exact hl.safe hx
      | error e =>
        rw [hfa, error_bind] at hx
        exact ha.safe (hfa.trans hx)

theorem Settles.congr {x : Except VerifyError Unit} {P P' : Prop} (h : Settles x P) (hP : P ↔ P') :
    Settles x P' :=
  ⟨fun hx => hP.mp (h.sound hx), fun hp => h.complete (hP.mpr hp), h.safe⟩

/-- The models `m₁` and `m₂` agree on every law that is supplied: on every source law
`P(v ∖ z | do(z))` and on the target's observational one. -/
structure Agree (shape : Shape) (m₁ m₂ : Scm) : Prop where
  source : ∀ mask < 2 ^ shape.n, ∀ world < 2 ^ shape.n,
    m₁.law shape false mask world = m₂.law shape false mask world
  target : ∀ world < 2 ^ shape.n, m₁.law shape true 0 world = m₂.law shape true 0 world

section Compare

variable {shape : Shape} {m₁ m₂ : Scm}

variable (hshape : shape.Indexed) (h₁ : m₁.Of shape) (h₂ : m₂.Of shape)
  (hd₁ : InI128 (m₁.massDen : Int)) (hd₂ : InI128 (m₂.massDen : Int))

include hshape h₁ h₂ hd₁ hd₂

theorem compareLaw_settles (target : Bool) (mask : Nat) :
    Settles (compareLaw shape (m₁.integral shape) (m₂.integral shape) target mask)
      (∀ world < 2 ^ shape.n, m₁.law shape target mask world = m₂.law shape target mask world) := by
  refine Settles.congr (Settles.forM fun world hworld => ?_)
    (forall_congr' fun world => imp_congr_left List.mem_range)
  have hw := List.mem_range.mp hworld
  have hstop {p : Prop} : Settles (.error (.rejected "arithmetic overflow")) p := by
    refine ⟨?_, fun _ => .inr ⟨_, rfl, .inr (by simp)⟩, ?_⟩ <;> rintro ⟨⟩
  obtain ⟨ha, -⟩ | ha := cell_gives hshape h₁ hd₁ target mask hw
  · obtain ⟨hb, -⟩ | hb := cell_gives hshape h₂ hd₂ target mask hw
    · rw [ha, hb, orReject, ok_bind, orReject, ok_bind]
      refine ⟨fun h => Q.ofRat_injective (of_require h), fun h => .inl (require_ok (by rw [h]) _), ?_⟩
      unfold require
      split <;> rintro ⟨⟩
    · rw [ha, hb, orReject, ok_bind, orReject, error_bind]
      exact hstop
  · rw [ha, orReject, error_bind]
    exact hstop

/-- **The loop over the masks** settles whether the models agree. -/
theorem laws_settle (cancelled : Nat → Bool) :
    Settles ((List.range (2 ^ shape.n + 1)).forM fun mask => do
      if cancelled mask then .error .cancelled
      else if mask = 2 ^ shape.n then
        compareLaw shape (m₁.integral shape) (m₂.integral shape) true 0
      else compareLaw shape (m₁.integral shape) (m₂.integral shape) false mask)
      (Agree shape m₁ m₂) := by
  have hloop := @Settles.forM Nat (fun mask => do
      if cancelled mask then .error .cancelled
      else if mask = 2 ^ shape.n then
        compareLaw shape (m₁.integral shape) (m₂.integral shape) true 0
      else compareLaw shape (m₁.integral shape) (m₂.integral shape) false mask)
    (fun mask => if mask = 2 ^ shape.n then
      ∀ world < 2 ^ shape.n, m₁.law shape true 0 world = m₂.law shape true 0 world
    else ∀ world < 2 ^ shape.n, m₁.law shape false mask world = m₂.law shape false mask world)
    (List.range (2 ^ shape.n + 1)) fun mask _ => by
    split
    next => exact ⟨nofun, fun _ => .inr ⟨_, rfl, .inl rfl⟩, nofun⟩
    next =>
      split
      next => exact compareLaw_settles hshape h₁ h₂ hd₁ hd₂ true 0
      next => exact compareLaw_settles hshape h₁ h₂ hd₁ hd₂ false mask
  refine hloop.congr ⟨fun h => ⟨fun mask hmask => ?_, ?_⟩, fun h mask hmask => ?_⟩
  · have := h mask (List.mem_range.mpr (Nat.lt_succ_of_lt hmask))
    rwa [if_neg hmask.ne] at this
  · have := h (2 ^ shape.n) (List.mem_range.mpr (Nat.lt_succ_self _))
    rwa [if_pos rfl] at this
  · split
    next => exact h.target
    next hne => exact h.source mask (by have := List.mem_range.mp hmask; omega)

end Compare

end Antecedent.Identify.Witness
