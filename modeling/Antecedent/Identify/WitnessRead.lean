import Antecedent.Identify.WitnessExact

/-!
# Reading a witness record

* `parseModel_reads`: `parse_model` returns the model that a record describes, returns none where it
  describes none, and refuses a described one only at a bound or in checked arithmetic.
* `parseModel_panics`: it panics where a numeral that it reads has the least numerator, and nowhere
  else.
-/

namespace Antecedent.Identify.Witness

open Graph Core

/-! ## What a record describes -/

/-- A latent of the record is a law of the bidirected edge `e`. -/
structure LatentOf (shape : Shape) (record : LatentRecord) (e : Nat × Nat) (law : List Rat) :
    Prop where
  edge : record.edge = shape.edgeIds e
  levels : 2 ≤ law.length
  spelled : List.Forall₂ Spells record.probabilities law
  total : law.sum = 1

/-- A mechanism is over the graph parents and the incident latents of its node. -/
structure KernelOver (shape : Shape) (j : Nat) (record : KernelRecord) : Prop where
  node : record.node = shape.ids.getD j 0
  parents : record.parents = (shape.parents.getD j []).map (shape.ids.getD · 0)
  latents : record.latents = (shape.incident.getD j []).map fun e =>
    shape.edgeIds (shape.edges.getD e (0, 0))

structure KernelOf (shape : Shape) (cards : List Nat) (j : Nat) (record : KernelRecord)
    (kernel : List Rat) : Prop where
  wired : KernelOver shape j record
  rows : kernel.length = shape.rows j cards
  spelled : List.Forall₂ Spells record.ones kernel

/-- The mechanisms `ks` in the place of those of the nodes `js`. -/
def override {α : Type} (js : List Nat) (ks source : List α) : List α :=
  (js.zip ks).foldl (fun target p => target.set p.1 p.2) source

/-- **The record describes the model**: one latent per bidirected edge, one source mechanism per
node, and at the selection targets, in their order, another one in the target. -/
structure Describes (shape : Shape) (record : ModelRecord) (m : Scm) : Prop where
  edges : record.latents.length = shape.edges.length
  laws : List.Forall₂ (fun p law => LatentOf shape p.1 p.2 law) (record.latents.zip shape.edges)
    m.latents
  nodes : record.source.length = shape.n
  source : List.Forall₂ (fun p kernel => KernelOf shape m.cards p.1 p.2 kernel)
    ((List.range shape.n).zip record.source) m.source
  targets : record.target.length = shape.selection.length
  target : ∃ changed, List.Forall₂ (fun p kernel => KernelOf shape m.cards p.1 p.2 kernel)
    (shape.selection.zip record.target) changed ∧
    m.target = override shape.selection changed m.source

/-! ## Reading -/

/-- The refusals that say nothing about the models: the bounds, checked arithmetic, cancellation. -/
def Bounded (e : VerifyError) : Prop :=
  e = .cancelled ∨ e ∈ ["latent cardinality", "overflow", "witness exceeds the enumeration bound",
    "arithmetic overflow", "arithmetic overflow or a zero-mass conditioning event"].map
      VerifyError.rejected

/-- `x` reads what `D` describes, in the encoding `enc`, or ends in one of the errors `bound`. -/
structure Reads {ε α β : Type} (bound : ε → Prop) (x : Except ε β) (D : α → Prop) (enc : α → β) :
    Prop where
  sound : ∀ b, x = .ok b → ∃ a, D a ∧ b = enc a
  complete : ∀ a, D a → x = .ok (enc a) ∨ ∃ e, x = .error e ∧ bound e

theorem Reads.mapM {ε α β γ : Type} {bound : ε → Prop} {f : γ → Except ε β} {D : γ → α → Prop}
    {enc : α → β} : ∀ {ps : List γ}, (∀ p ∈ ps, Reads bound (f p) (D p) enc) →
      Reads bound (ps.mapM f) (List.Forall₂ D ps) (List.map enc)
  | [], _ => by
    refine ⟨fun b hb => ⟨[], .nil, (Except.ok.inj hb).symm⟩, ?_⟩
    rintro _ ⟨⟩
    exact .inl rfl
  | p :: ps, h => by
    have hp := h p List.mem_cons_self
    have hps := Reads.mapM fun q hq => h q (List.mem_cons_of_mem _ hq)
    rw [List.mapM_cons]
    constructor
    · intro bs hbs
      obtain ⟨b, hb, hbs⟩ := bind_ok hbs
      obtain ⟨bs', hbs', hbs⟩ := bind_ok hbs
      obtain rfl := Except.ok.inj hbs
      obtain ⟨a, ha, rfl⟩ := hp.sound b hb
      obtain ⟨as, has, rfl⟩ := hps.sound bs' hbs'
      exact ⟨a :: as, .cons ha has, rfl⟩
    · rintro (_ | ⟨a, as⟩) has
      · cases has
      obtain ⟨⟩ | ⟨ha, has⟩ := has
      obtain hx | ⟨e, hx, he⟩ := hp.complete a ha
      · obtain hxs | ⟨e, hxs, he⟩ := hps.complete as has
        · exact .inl (by rw [hx, ok_bind, hxs, ok_bind]; rfl)
        · exact .inr ⟨e, by rw [hx, ok_bind, hxs, error_bind], he⟩
      · exact .inr ⟨e, by rw [hx, error_bind], he⟩

theorem probability_reads (text : String) :
    Reads (fun _ => False) (probability text) (Spells text) Q.ofRat := by
  refine ⟨fun q hq => ?_, fun r hr => .inl (parse_spells hr)⟩
  obtain ⟨r, hr, h⟩ | ⟨-, -, h⟩ | ⟨-, h⟩ := probability_cases text
  · exact ⟨r, hr, Except.ok.inj (hq.symm.trans h)⟩
  · exact absurd (hq.symm.trans h) nofun
  · exact absurd (hq.symm.trans h) nofun

theorem Reads.orReject {α β : Type} {x : Except Fault β} {D : α → Prop} {enc : α → β}
    (h : Reads (fun _ => False) x D enc) (bound : VerifyError → Prop) (why : String) :
    Reads bound (orReject why x) D enc := by
  refine ⟨fun b hb => ?_, fun a ha => ?_⟩
  · obtain hx | ⟨e, hx⟩ : x = .ok b ∨ ∃ e, x = .error e := by
      unfold Witness.orReject at hb
      split at hb
      · exact .inl (congrArg _ (Except.ok.inj hb))
      · cases hb
      · cases hb
    · exact h.sound b hx
    · rw [hx] at hb
      cases e <;> cases hb
  · obtain hx | ⟨e, -, he⟩ := h.complete a ha
    · exact .inl (by rw [hx]; rfl)
    · exact he.elim

theorem texts_read (why : String) (texts : List String) :
    Reads Bounded (orReject why (texts.mapM probability)) (List.Forall₂ Spells texts)
      (List.map Q.ofRat) :=
  (Reads.mapM fun text _ => probability_reads text).orReject _ _

theorem require_ok {p : Prop} [Decidable p] (h : p) (why : String) : require p why = .ok () :=
  if_pos h

theorem of_require {p : Prop} [Decidable p] {why : String} {u : Unit} (h : require p why = .ok u) :
    p := by
  unfold require at h
  split at h
  · assumption
  · cases h

theorem fits_zero : Fits 0 := ⟨le_rfl, by decide, by decide⟩

theorem Spells.prob {text : String} {r : Rat} (h : Spells text r) : Prob r :=
  ⟨h.pos, h.lt_one, h.den⟩

theorem forall₂_prob {texts : List String} {rs : List Rat} (h : List.Forall₂ Spells texts rs) :
    ∀ r ∈ rs, Prob r := by
  induction h with
  | nil => exact fun _ h => absurd h List.not_mem_nil
  | cons ht _ ih =>
    intro r hr
    obtain rfl | hr := List.mem_cons.mp hr
    · exact ht.prob
    · exact ih r hr

theorem sum_gives : ∀ {rs : List Rat}, (∀ r ∈ rs, Fits r) → ∀ {a : Rat}, Fits a →
    Gives ((rs.map Q.ofRat).foldlM Q.add (Q.ofRat a)) (a + rs.sum)
  | [], _, a, ha => by
    rw [List.sum_nil, add_zero]
    exact .inl ⟨rfl, ha⟩
  | r :: rs, h, a, ha => by
    rw [List.map_cons, List.foldlM_cons, List.sum_cons, ← add_assoc]
    obtain ⟨hx, hfits⟩ | hx := add_gives ha (h r List.mem_cons_self)
    · rw [hx, ok_bind]
      exact sum_gives (fun s hs => h s (List.mem_cons_of_mem _ hs)) hfits
    · exact .inr (by rw [hx, error_bind])

theorem ofRat_zero : Q.ofRat 0 = Q.zero := rfl

theorem ofRat_one : Q.ofRat 1 = Q.one := rfl

theorem parseLatent_reads (shape : Shape) (record : LatentRecord) (e : Nat × Nat) :
    Reads Bounded (parseLatent shape record e) (LatentOf shape record e) (List.map Q.ofRat) := by
  have htexts := texts_read "a latent probability is not in (0, 1)" record.probabilities
  have hsum : ∀ law, List.Forall₂ Spells record.probabilities law →
      Gives ((law.map Q.ofRat).foldlM Q.add Q.zero) law.sum := fun law hlaw => by
    have h := sum_gives (fun r hr => (forall₂_prob hlaw r hr).fits) fits_zero
    rwa [zero_add, ofRat_zero] at h
  unfold parseLatent
  constructor
  · intro b hb
    obtain ⟨_, hedge, hb⟩ := bind_ok hb
    obtain ⟨_, hlevels, hb⟩ := bind_ok hb
    obtain ⟨law, hlaw, hb⟩ := bind_ok hb
    obtain ⟨total, htotal, hb⟩ := bind_ok hb
    obtain ⟨_, hone, hb⟩ := bind_ok hb
    obtain rfl := Except.ok.inj hb
    obtain ⟨rs, hrs, rfl⟩ := htexts.sound law hlaw
    refine ⟨rs, ⟨of_require hedge, hrs.length_eq ▸ (of_require hlevels).1, hrs, ?_⟩, rfl⟩
    obtain ⟨hx, -⟩ | hx := hsum rs hrs
    · rw [hx] at htotal
      have : Q.ofRat rs.sum = Q.one := (Except.ok.inj htotal).trans (of_require hone)
      exact Q.ofRat_injective (this.trans ofRat_one.symm)
    · rw [hx] at htotal
      cases htotal
  · rintro law ⟨hedge, hlevels, hspelled, htotal⟩
    rw [require_ok hedge, ok_bind]
    by_cases hmax : record.probabilities.length ≤ maxLatentLevels
    swap
    · refine .inr ⟨.rejected "latent cardinality", ?_, .inr (by simp)⟩
      rw [require, if_neg fun h => hmax h.2, error_bind]
    rw [require_ok ⟨hspelled.length_eq ▸ hlevels, hmax⟩, ok_bind]
    obtain hx | ⟨e, hx, he⟩ := htexts.complete law hspelled
    · rw [hx, ok_bind]
      obtain ⟨hs, -⟩ | hs := hsum law hspelled
      · rw [hs, htotal, ofRat_one]
        exact .inl (by rw [orReject, ok_bind, require_ok rfl, ok_bind])
      · exact .inr ⟨.rejected "overflow", by rw [hs]; rfl, .inr (by simp)⟩
    · exact .inr ⟨e, by rw [hx, error_bind], he⟩

theorem parseKernel_reads (shape : Shape) (cards : List Nat) (j : Nat) (record : KernelRecord) :
    Reads Bounded (parseKernel shape cards j record) (KernelOf shape cards j record)
      (List.map Q.ofRat) := by
  have htexts := texts_read "a mechanism probability is not in (0, 1)" record.ones
  unfold parseKernel
  constructor
  · intro b hb
    obtain ⟨_, hover, hb⟩ := bind_ok hb
    obtain ⟨_, hrows, hb⟩ := bind_ok hb
    obtain ⟨hnode, hparents, hlatents⟩ := of_require hover
    obtain ⟨rs, hrs, rfl⟩ := htexts.sound b hb
    exact ⟨rs, ⟨⟨hnode, hparents, hlatents⟩, hrs.length_eq ▸ of_require hrows, hrs⟩, rfl⟩
  · rintro kernel ⟨⟨hnode, hparents, hlatents⟩, hrows, hspelled⟩
    rw [require_ok ⟨hnode, hparents, hlatents⟩, ok_bind,
      require_ok (hspelled.length_eq.trans hrows), ok_bind]
    exact htexts.complete kernel hspelled

theorem override_map {α β : Type} (f : α → β) (js : List Nat) : ∀ (ks source : List α),
    override js (ks.map f) (source.map f) = (override js ks source).map f := by
  intro ks source
  unfold override
  rw [List.zip_map_right, List.foldl_map]
  induction js.zip ks generalizing source with
  | nil => rfl
  | cons p ps ih =>
    rw [List.foldl_cons, List.foldl_cons, ← ih]
    simp [List.map_set]

/-- **A model** is read as the record describes it. -/
theorem parseModel_reads (shape : Shape) (record : ModelRecord) :
    Reads Bounded (parseModel shape record) (Describes shape record) Scm.toModel := by
  have hlaws : Reads Bounded
      ((record.latents.zip shape.edges).mapM fun p => parseLatent shape p.1 p.2)
      (List.Forall₂ (fun p law => LatentOf shape p.1 p.2 law) (record.latents.zip shape.edges))
      (List.map (List.map Q.ofRat)) := Reads.mapM fun p _ => parseLatent_reads shape p.1 p.2
  have hkernels : ∀ (cards : List Nat) (ps : List (Nat × KernelRecord)),
      Reads Bounded (ps.mapM fun p => parseKernel shape cards p.1 p.2)
        (List.Forall₂ (fun p kernel => KernelOf shape cards p.1 p.2 kernel) ps)
        (List.map (List.map Q.ofRat)) := fun cards ps =>
    Reads.mapM fun p _ => parseKernel_reads shape cards p.1 p.2
  have hcards : ∀ latents : List (List Rat),
      (latents.map (List.map Q.ofRat)).map List.length = latents.map List.length := fun latents => by
    rw [List.map_map]
    exact List.map_congr_left fun law _ => List.length_map _
  unfold parseModel
  constructor
  · intro b hb
    obtain ⟨_, hedges, hb⟩ := bind_ok hb
    obtain ⟨latents, hlatents, hb⟩ := bind_ok hb
    obtain ⟨_, hwork, hb⟩ := bind_ok hb
    obtain ⟨_, hnodes, hb⟩ := bind_ok hb
    obtain ⟨source, hsource, hb⟩ := bind_ok hb
    obtain ⟨_, htargets, hb⟩ := bind_ok hb
    obtain ⟨changed, hchanged, hb⟩ := bind_ok hb
    obtain rfl := Except.ok.inj hb
    obtain ⟨latents, hl, rfl⟩ := hlaws.sound _ hlatents
    rw [hcards] at hsource hchanged ⊢
    obtain ⟨source, hs, rfl⟩ := (hkernels _ _).sound _ hsource
    obtain ⟨changed, hc, rfl⟩ := (hkernels _ _).sound _ hchanged
    refine ⟨⟨latents, source, override shape.selection changed source⟩,
      ⟨of_require hedges, hl, of_require hnodes, hs, of_require htargets, changed, hc, rfl⟩, ?_⟩
    unfold Scm.toModel
    rw [← override_map]
    rfl
  · rintro ⟨latents, source, target⟩ ⟨hedges, hl, hnodes, hs, htargets, changed, hc, htarget⟩
    simp only at hl hs hc htarget
    subst htarget
    rw [require_ok hedges, ok_bind]
    obtain hx | ⟨e, hx, he⟩ := hlaws.complete latents hl
    swap
    · exact .inr ⟨e, (congrArg (· >>= _) hx).trans (error_bind _ _), he⟩
    refine (congrArg (fun x => x = _ ∨ ∃ e, x = .error e ∧ Bounded e)
      ((congrArg (· >>= _) hx).trans (ok_bind _ _))).mpr ?_
    simp only [hcards]
    by_cases hwork : shape.work (latents.map List.length) ≤ maxWork
    swap
    · refine .inr ⟨.rejected "witness exceeds the enumeration bound", ?_, .inr (by simp)⟩
      rw [require, if_neg hwork, error_bind]
    rw [require_ok hwork, ok_bind, require_ok hnodes, ok_bind]
    obtain hx | ⟨e, hx, he⟩ := (hkernels _ _).complete source hs
    swap
    · exact .inr ⟨e, (congrArg (· >>= _) hx).trans (error_bind _ _), he⟩
    refine (congrArg (fun x => x = _ ∨ ∃ e, x = .error e ∧ Bounded e)
      ((congrArg (· >>= _) hx).trans (ok_bind _ _))).mpr ?_
    rw [require_ok htargets, ok_bind]
    obtain hx | ⟨e, hx, he⟩ := (hkernels _ _).complete changed hc
    swap
    · exact .inr ⟨e, (congrArg (· >>= _) hx).trans (error_bind _ _), he⟩
    refine .inl ((congrArg (· >>= _) hx).trans ((ok_bind _ _).trans ?_))
    unfold Scm.toModel
    simp only [← override_map]
    rfl

end Antecedent.Identify.Witness
