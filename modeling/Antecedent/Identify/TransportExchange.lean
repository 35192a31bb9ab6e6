import Antecedent.Identify.TransportSearch

/-!
# One exchange a branch

At a line-10 state the nodes outside the treatments are one district, and each of them reaches the
outcomes inside it. An exchange removes treatments only, so this stays true below it: `Exchanged`,
with the controllables of the active source gone from the treatments.

* **`exchange_once`**: below an exchange nothing is exchanged again, and the search is the one that
  exchanges with no active experiment only.
-/

namespace Antecedent.Identify.ZTransport

open Core Relation
open Expr
open Graph

variable (p : PreparedAdmg) (call : TrzCall)

/-! ## What a line says -/

/-- The state a line belongs to. -/
inductive State.At (s : State) : Line → Prop
  | marginal (h : s.x = ∅) : s.At .marginal
  | ancestors (h : p.ancestors s.y s.v ≠ s.v) : s.At (.ancestors (p.ancestors s.y s.v))
  | enlarge {w : Finset Nat} (hw : w = (s.v \ s.x) \ p.ancestorsBarX s.y s.v s.x) (h : w ≠ ∅) :
      s.At (.enlarge w)
  | emptyDistrict (h : p.cComponents (s.v \ s.x) = []) : s.At .emptyDistrict
  | districts {ds : List (Finset Nat)} (hds : ds = p.cComponents (s.v \ s.x))
      (h : 1 < ds.length) : s.At (.districts ds)
  | factor {d : Finset Nat} (h : p.cComponents (s.v \ s.x) = [d]) (hd : d ∈ p.cComponents s.v) :
      s.At (.factor d)
  | missingDistrict : s.At .missingDistrict
  | recurse {d larger : Finset Nat} (h : p.cComponents (s.v \ s.x) = [d])
      (hmany : 1 < (p.cComponents s.v).length) (hl : larger ∈ p.cComponents s.v) (hd : d ⊆ larger) :
      s.At (.recurse larger)
  | exchange {d : Finset Nat} (hup : s.v \ s.x ⊆ p.ancestorsBarX s.y s.v s.x)
      (h : p.cComponents (s.v \ s.x) = [d]) : s.At (.exchange d)

variable {p}

theorem State.line_spec (s : State) : s.At p (s.line p) := by
  unfold State.line
  split_ifs with hx
  · exact .marginal hx
  by_cases hanc : p.ancestors s.y s.v = s.v
  · simp only [hanc, ne_eq, not_true, if_false]
    by_cases hw : (s.v \ s.x) \ p.ancestorsBarX s.y s.v s.x = ∅
    · simp only [hw, not_true, if_false]
      split
      · rename_i h
        exact .emptyDistrict h
      · rename_i d h
        by_cases hmany : 1 < (p.cComponents s.v).length
        · rw [if_pos hmany]
          split_ifs with hd
          · exact .factor h hd
          · split
            · rename_i larger hf
              exact .recurse h hmany (List.mem_of_find?_eq_some hf)
                (by simpa using List.find?_some hf)
            · exact .missingDistrict
        · rw [if_neg hmany]
          exact .exchange (Finset.sdiff_eq_empty_iff_subset.mp hw) h
      · rename_i hnil hone
        refine .districts rfl ?_
        match hds : p.cComponents (s.v \ s.x) with
        | [] => exact absurd hds hnil
        | [d] => exact absurd hds (hone d)
        | _ :: _ :: _ => simp
    · simp only [hw, not_false_eq_true, if_true]
      exact .enlarge rfl hw
  · simp only [hanc, ne_eq, not_false_eq_true, if_true]
    exact .ancestors hanc

/-! ## The steps of a call -/

/-- A source that a frame exchanges into. -/
structure Exchanges (p : PreparedAdmg) (call : TrzCall) (a : Frame) (e : Eligibility) : Prop where
  line : ∃ d, a.line p = .exchange d
  candidate : (e.domain, e.index) ∈ a.candidates call
  controllable : e.controllable = a.controllable e.index e.domain
  activated : a.activated p e.controllable = .ok e.activated
  some : e.activated ≠ ∅

/-- **A line-10 exchange**, from the state to the call below it. -/
inductive Exchange (p : PreparedAdmg) (call : TrzCall) (a : Frame) : Frame → Prop
  | mk {e : Eligibility} {exchanged : List InterventionAssignment} {kernel : ExprTree}
      (h : Exchanges p call a e)
      (hlev : exchangedLevels p call e.domain a.irrelevant (p.vars e.activated) =
        .ok (.ok exchanged)) :
      Exchange p call a (a.toSource p e.index e.controllable e.activated
        (cumulate a.activeInterventions exchanged) kernel)

/-- **The calls a call may make.** -/
inductive Step (p : PreparedAdmg) (call : TrzCall) (a : Frame) : Frame → Prop
  | ancestors {anc : Finset Nat} (h : a.line p = .ancestors anc) : Step p call a (a.toAncestors p anc)
  | enlarge {w : Finset Nat} (h : a.line p = .enlarge w) : Step p call a (a.toEnlarged w)
  | district {ds : List (Finset Nat)} {d : Finset Nat} (h : a.line p = .districts ds) (hd : d ∈ ds) :
      Step p call a (a.toDistrict d)
  | larger {l : Finset Nat} (h : a.line p = .recurse l) : Step p call a (a.toLarger p l)
  | source {b : Frame} (h : Exchange p call a b) : Step p call a b

abbrev Below (p : PreparedAdmg) (call : TrzCall) : Frame → Frame → Prop :=
  ReflTransGen (Step p call)

variable {call}

variable {es : List Eligibility} {e : Eligibility} {d activated nodes v x : Finset Nat} {s : State}
  {a : Frame}
  {ds : List (Finset Nat)}
  {a b : Frame}
  {controllable : List Nat}

theorem mem_eligibility (h : a.eligibility p call = .ok es)
    (he : e ∈ es) : (e.domain, e.index) ∈ a.candidates call ∧
      e.controllable = a.controllable e.index e.domain ∧
      a.activated p e.controllable = .ok e.activated := by
  obtain ⟨c, hc, hok⟩ := (mem_mapM h e).mp he
  simp only [bind, Except.bind] at hok
  obtain ⟨activated, hact, hok⟩ := bind_ok hok
  obtain ⟨separated, hsep, hok⟩ := bind_ok hok
  simp only [pure, Except.pure, Except.ok.injEq] at hok
  obtain rfl := hok
  exact ⟨hc, rfl, hact⟩

theorem exchanges_of_mem (hline : a.line p = .exchange d)
    (h : a.eligibility p call = .ok es)
    (he : e ∈ es.filter Eligibility.usable) : Exchanges p call a e := by
  obtain ⟨hmem, huse⟩ := List.mem_filter.mp he
  obtain ⟨hc, hctl, hact⟩ := mem_eligibility h hmem
  exact ⟨⟨d, hline⟩, hc, hctl, hact, (of_decide_eq_true huse).1⟩

section Congr

variable {E : Type} {eng : Engine E} {next next' : Recursion E} {a : Frame}

theorem ofExcept_bind_congr {α β : Type} {r : Except IdentificationError α}
    {f g : α → SearchM E β} (h : ∀ x, r = .ok x → f x = g x) :
    (ofExcept r >>= f) = ofExcept r >>= g := by
  cases r with
  | error e => rfl
  | ok x =>
    show f x = g x
    exact h x rfl

theorem exchangeTrzSource_congr {e : Eligibility}
    (h : ∀ exchanged kernel, exchangedLevels p call e.domain a.irrelevant (p.vars e.activated) =
        .ok (.ok exchanged) →
      next (a.toSource p e.index e.controllable e.activated
          (cumulate a.activeInterventions exchanged) kernel) =
        next' (a.toSource p e.index e.controllable e.activated
          (cumulate a.activeInterventions exchanged) kernel)) :
    exchangeTrzSource p call eng next a e = exchangeTrzSource p call eng next' a e := by
  unfold exchangeTrzSource
  refine ofExcept_bind_congr fun levels hlev => ?_
  cases levels with
  | error unassigned => rfl
  | ok exchanged =>
    refine bind_congr fun _ => bind_congr fun kernel => ?_
    cases kernel with
    | none => rfl
    | some kernel => exact h exchanged kernel hlev

theorem exchangeInTurn_congr : ∀ {es : List Eligibility},
    (∀ e ∈ es, exchangeTrzSource p call eng next a e = exchangeTrzSource p call eng next' a e) →
    exchangeInTurn p call eng next a es = exchangeInTurn p call eng next' a es
  | [], _ => rfl
  | e :: later, h => by
    unfold exchangeInTurn
    rw [h e List.mem_cons_self,
      exchangeInTurn_congr fun e' he => h e' (List.mem_cons_of_mem _ he)]

theorem line10_congr {d : Finset Nat} (hline : a.line p = .exchange d)
    (h : ∀ b, Exchange p call a b → next b = next' b) :
    line10 p call eng next a d = line10 p call eng next' a d := by
  unfold line10
  refine ofExcept_bind_congr fun es hes => ?_
  rw [exchangeInTurn_congr fun e he => exchangeTrzSource_congr fun exchanged kernel hlev =>
    h _ (.mk (exchanges_of_mem hline hes he) hlev)]

theorem solveDistricts_congr {finish : List ExprTree → ExprTree} : ∀ {bs : List Frame}
    {expressions : List ExprTree}, (∀ b ∈ bs, next b = next' b) →
    solveDistricts next finish bs expressions = solveDistricts next' finish bs expressions
  | [], _, _ => rfl
  | b :: rest, expressions, h => by
    unfold solveDistricts
    rw [h b List.mem_cons_self]
    refine bind_congr fun child => ?_
    cases child with
    | none => rfl
    | some child => exact solveDistricts_congr fun b' hb => h b' (List.mem_cons_of_mem _ hb)

/-- **A call depends on the recursion at its steps only.** -/
theorem searchBody_congr {ten ten' : Recursion E → Frame → Finset Nat → SearchM E (Option ExprTree)}
    (h : ∀ b, Step p call a b → next b = next' b)
    (hten : ∀ d, a.line p = .exchange d → ten next a d = ten' next' a d) :
    searchBody p eng ten next a = searchBody p eng ten' next' a := by
  unfold searchBody
  refine bind_congr fun _ => ?_
  cases hline : a.line p with
  | marginal => rfl
  | ancestors anc => exact bind_congr fun _ => h _ (.ancestors hline)
  | enlarge w =>
    refine bind_congr fun _ => ?_
    rw [h _ (.enlarge hline)]
  | districts ds =>
    refine bind_congr fun _ => solveDistricts_congr fun b hb => ?_
    obtain ⟨d, hd, rfl⟩ := List.mem_map.mp hb
    exact h _ (.district hline hd)
  | emptyDistrict => rfl
  | factor d => rfl
  | missingDistrict => rfl
  | recurse l => exact bind_congr fun _ => h _ (.larger hline)
  | exchange d => exact hten d hline

end Congr

/-! ## States inside the graph -/

/-- The treatments of a frame are nodes of its graph. -/
structure Frame.Inside (p : PreparedAdmg) (a : Frame) : Prop where
  x_sub : a.x ⊆ a.v
  v_lt : ∀ u ∈ a.v, u < p.admg.nodeCount

theorem activated_subset (h : s.activated p controllable = .ok activated) : activated ⊆ s.x := by
  unfold State.activated at h
  obtain ⟨dense, hm, h⟩ := bind_ok h
  obtain rfl := Except.ok.inj h
  intro d hd
  exact of_decide_eq_true (List.mem_filter.mp (List.mem_toFinset.mp hd)).2

theorem mem_activated (h : s.activated p controllable = .ok activated) {d : Nat} :
    d ∈ activated ↔ d ∈ s.x ∧ ∃ c ∈ controllable, p.varToDense c = .ok d := by
  unfold State.activated at h
  obtain ⟨dense, hm, h⟩ := bind_ok h
  obtain rfl := Except.ok.inj h
  rw [List.mem_toFinset, List.mem_filter, mem_mapM hm, decide_eq_true_eq, and_comm]

/-- The blocks of a line-4 state. -/
theorem components (a : Frame) (hin : a.Inside p) :
    p.admg.Components (a.v \ a.x) (p.cComponents (a.v \ a.x)) :=
  Admg.components_spec fun u hu => hin.v_lt u (Finset.mem_sdiff.mp hu).1

/-- One block is everything. -/
theorem component_eq (hn : ∀ u ∈ nodes, u < p.admg.nodeCount)
    (h : p.cComponents nodes = [d]) : d = nodes := by
  have hc := Admg.components_spec (g := p.admg) hn
  rw [show p.admg.districtComponentsWithin nodes = [d] from h] at hc
  exact hc.eq_of_single

/-- One of several blocks is not everything. -/
theorem ne_of_many
    (hc : p.admg.Components nodes ds) (hmany : 1 < ds.length) (hd : d ∈ ds) : d ≠ nodes := by
  rintro rfl
  -- a block apart from everything is empty
  have hno : ∀ c ∈ ds, Disjoint c d → False := fun c hc' hdis =>
    (hc.nonempty c hc').ne_empty (Finset.disjoint_self_iff_empty c |>.mp
      (hdis.mono_right (hc.sub c hc')))
  match ds, hmany with
  | c :: c' :: rest, _ =>
    obtain ⟨hhead, -⟩ := List.pairwise_cons.mp hc.apart
    obtain rfl | hd := List.mem_cons.mp hd
    · exact hno c' (by simp) (hhead c' List.mem_cons_self).1.symm
    · exact hno c List.mem_cons_self (hhead d hd).1

/-- What leaves the treatments leaves the state. -/
theorem sdiff_sdiff_of_subset {s : Finset Nat} (h : s ⊆ x) : (v \ s) \ (x \ s) = v \ x := by
  ext u
  simp only [Finset.mem_sdiff]
  constructor
  · rintro ⟨⟨hv, hs⟩, hx⟩
    exact ⟨hv, fun hux => hx ⟨hux, hs⟩⟩
  · rintro ⟨hv, hx⟩
    exact ⟨⟨hv, fun hs => hx (h hs)⟩, fun hux => hx hux.1⟩

/-- The nodes of a state, and those outside its treatments: what every step makes smaller. -/
def Frame.size (a : Frame) : Nat := a.v.card + (a.v \ a.x).card

/-- **A step stays inside the graph, and makes the state smaller.** -/
theorem Step.inside (h : Step p call a b) (hin : a.Inside p) :
    b.Inside p ∧ b.size < a.size := by
  -- a smaller vertex set with no more outside the treatments
  have hshrink : ∀ {v x : Finset Nat}, v ⊂ a.v → v \ x ⊆ a.v \ a.x →
      v.card + (v \ x).card < a.size := fun hv hx =>
    Nat.add_lt_add_of_lt_of_le (Finset.card_lt_card hv) (Finset.card_le_card hx)
  -- the same vertex set with less outside the treatments
  have hfewer : ∀ {x : Finset Nat}, a.v \ x ⊂ a.v \ a.x → a.v.card + (a.v \ x).card < a.size :=
    fun hx => Nat.add_lt_add_left (Finset.card_lt_card hx) _
  cases h with
  | @ancestors anc h =>
    have hat := a.line_spec (p := p)
    rw [h] at hat
    cases hat with
    | ancestors hne =>
      have hsub : p.ancestors a.y a.v ⊆ a.v := Admg.ancestorsWithin_subset
      refine ⟨⟨Finset.inter_subset_right, fun u hu => hin.v_lt u (hsub hu)⟩,
        hshrink (hsub.ssubset_of_ne hne) fun u hu => ?_⟩
      obtain ⟨hu, hux⟩ := Finset.mem_sdiff.mp hu
      exact Finset.mem_sdiff.mpr ⟨hsub hu, fun hx => hux (Finset.mem_inter.mpr ⟨hx, hu⟩)⟩
  | @enlarge w h =>
    have hat := a.line_spec (p := p)
    rw [h] at hat
    cases hat with
    | enlarge hw hne =>
      have hsub : w ⊆ a.v \ a.x := hw ▸ Finset.sdiff_subset
      refine ⟨⟨Finset.union_subset hin.x_sub (hsub.trans Finset.sdiff_subset), hin.v_lt⟩,
        hfewer ?_⟩
      obtain ⟨u, hu⟩ := Finset.nonempty_iff_ne_empty.mpr hne
      show a.v \ (a.x ∪ w) ⊂ a.v \ a.x
      refine Finset.ssubset_iff_of_subset
        (Finset.sdiff_subset_sdiff subset_rfl Finset.subset_union_left) |>.mpr ⟨u, hsub hu, ?_⟩
      exact fun hmem => (Finset.mem_sdiff.mp hmem).2 (Finset.mem_union_right _ hu)
  | @district ds d h hd =>
    have hat := a.line_spec (p := p)
    rw [h] at hat
    cases hat with
    | districts hds hmany =>
      have hc := components a hin
      rw [← hds] at hc
      have hdv : d ⊆ a.v := (hc.sub d hd).trans Finset.sdiff_subset
      refine ⟨⟨Finset.sdiff_subset, hin.v_lt⟩, hfewer ?_⟩
      show a.v \ (a.v \ d) ⊂ a.v \ a.x
      rw [Finset.sdiff_sdiff_eq_self hdv]
      exact (hc.sub d hd).ssubset_of_ne (ne_of_many hc hmany hd)
  | @larger l h =>
    have hat := a.line_spec (p := p)
    rw [h] at hat
    cases hat with
    | recurse hone hmany hl hd =>
      have hc := Admg.components_spec (g := p.admg) hin.v_lt
      have hsub : l ⊆ a.v := hc.sub l hl
      refine ⟨⟨Finset.inter_subset_right, fun u hu => hin.v_lt u (hsub hu)⟩,
        hshrink (hsub.ssubset_of_ne (ne_of_many hc hmany hl)) fun u hu => ?_⟩
      obtain ⟨hu, hux⟩ := Finset.mem_sdiff.mp hu
      exact Finset.mem_sdiff.mpr ⟨hsub hu, fun hx => hux (Finset.mem_inter.mpr ⟨hx, hu⟩)⟩
  | source h =>
    cases h with
    | @mk e exchanged kernel h hlev =>
      have hact : e.activated ⊆ a.x := activated_subset h.activated
      refine ⟨⟨Finset.sdiff_subset_sdiff hin.x_sub subset_rfl,
        fun u hu => hin.v_lt u (Finset.mem_sdiff.mp hu).1⟩, hshrink ?_ ?_⟩
      · exact Finset.sdiff_ssubset (hact.trans hin.x_sub) (Finset.nonempty_iff_ne_empty.mpr h.some)
      · exact (sdiff_sdiff_of_subset hact).subset

/-! ## Below an exchange -/

def Frame.Free (p : PreparedAdmg) (a : Frame) (controllable : List Nat) : Prop :=
  ∀ c ∈ controllable, ∀ d, p.varToDense c = .ok d → d ∉ a.x

/-- **A frame below an exchange.** `D` is what the exchange left outside the treatments. -/
structure Exchanged (p : PreparedAdmg) (call : TrzCall) (D : Finset Nat) (a : Frame) : Prop where
  rest : a.v \ a.x = D
  reach : D ⊆ p.ancestors a.y D
  one : ∃ d, p.cComponents D = [d]
  source : ∃ e ∈ call.domains.zipIdx, a.active = some e.2 ∧ a.Free p e.1.controllable
  remaining : a.Free p a.remainingControllable

theorem Frame.Free.mono (h : a.Free p controllable)
    (hx : b.x ⊆ a.x) : b.Free p controllable := fun c hc d hd hb => h c hc d hd (hx hb)

/-- A walk up inside `D` is one in a state whose nodes outside the treatments are `D`. -/
theorem up_of_up {D : Finset Nat} (hD : v \ x = D) {s d : Nat} (hs : s ∈ D)
    (h : ReflTransGen (p.admg.Up D ∅) s d) : ReflTransGen (p.admg.Up v x) s d := by
  induction h with
  | refl => exact .refl
  | @tail b c hsb hbc ih =>
    have hb : b ∈ v \ x := hD ▸ Admg.mem_active_of_up hs hsb
    have hc : c ∈ v \ x := hD ▸ hbc.2.2
    exact ih.tail ⟨hbc.1, (Finset.mem_sdiff.mp hb).2, (Finset.mem_sdiff.mp hc).1⟩

/-- A walk up that ends outside the treatments stays outside them. -/
theorem up_inside {s d : Nat} (hs : s ∈ v) (hd : d ∉ x) (h : ReflTransGen (p.admg.Up v x) s d) :
    s ∈ v \ x ∧ ReflTransGen (p.admg.Up (v \ x) ∅) s d := by
  induction h with
  | refl => exact ⟨Finset.mem_sdiff.mpr ⟨hs, hd⟩, .refl⟩
  | @tail b c hsb hbc ih =>
    obtain ⟨hsx, hwalk⟩ := ih hbc.2.1
    exact ⟨hsx, hwalk.tail ⟨hbc.1, Finset.notMem_empty _,
      Finset.mem_sdiff.mpr ⟨hbc.2.2, hd⟩⟩⟩

namespace Exchanged

variable {D : Finset Nat} {a b : Frame}

variable (h : Exchanged p call D a)

include h

theorem reach_barred : D ⊆ p.ancestorsBarX a.y a.v a.x := by
  intro d hd
  obtain ⟨s, hsy, hsD, hlt, hup⟩ := Admg.mem_ancestorsWithin.mp (h.reach hd)
  have hsv : s ∈ a.v := (Finset.mem_sdiff.mp (h.rest ▸ hsD)).1
  exact Admg.mem_ancestorsWithin.mpr ⟨s, hsy, hsv, hlt, up_of_up h.rest hsD hup⟩

theorem reach_ancestors : D ⊆ p.ancestors a.y a.v := by
  intro d hd
  obtain ⟨s, hsy, hsv, hlt, hup⟩ := Admg.mem_ancestorsWithin.mp (h.reach_barred hd)
  refine Admg.mem_ancestorsWithin.mpr ⟨s, hsy, hsv, hlt, ?_⟩
  exact ReflTransGen.mono (fun _ _ hu => ⟨hu.1, Finset.notMem_empty _, hu.2.2⟩) _ _ hup

/-- **Line 3 does not fire.** -/
theorem not_enlarge {w : Finset Nat} : a.line p ≠ .enlarge w := by
  intro hl
  have hat := a.line_spec (p := p)
  rw [hl] at hat
  cases hat with
  | enlarge hw hne =>
    rw [h.rest, Finset.sdiff_eq_empty_iff_subset.mpr h.reach_barred] at hw
    exact hne hw

/-- **Line 4 does not fire.** -/
theorem not_districts : a.line p ≠ .districts ds := by
  intro hl
  have hat := a.line_spec (p := p)
  rw [hl] at hat
  cases hat with
  | districts hds hmany =>
    obtain ⟨d, hd⟩ := h.one
    rw [hds, h.rest, hd] at hmany
    exact absurd hmany (by simp)

theorem activated_eq {e : Eligibility} (hc : (e.domain, e.index) ∈ a.candidates call)
    (hctl : e.controllable = a.controllable e.index e.domain)
    (hact : a.activated p e.controllable = .ok e.activated) : e.activated = ∅ := by
  obtain ⟨s, -, hactive, -⟩ := h.source
  have hidx : a.active = some e.index := by
    obtain hnone | hsome := of_decide_eq_true (List.mem_filter.mp hc).2
    · rw [hactive] at hnone
      cases hnone
    · exact hsome
  refine Finset.eq_empty_of_forall_notMem fun d hd => ?_
  obtain ⟨hdx, c, hcc, hcd⟩ := (mem_activated hact).mp hd
  unfold Frame.controllable at hctl
  rw [hctl, if_pos hidx] at hcc
  exact h.remaining c hcc d hcd hdx

/-- **Line 10 does not fire again.** -/
theorem not_exchange : ¬ Exchange p call a b := by
  rintro ⟨hex, -⟩
  exact hex.some (h.activated_eq hex.candidate hex.controllable hex.activated)

theorem not_usable {es : List Eligibility} (hes : a.eligibility p call = .ok es) :
    es.any Eligibility.usable = false := by
  refine List.any_eq_false.mpr fun e he huse => ?_
  obtain ⟨hc, hctl, hact⟩ := mem_eligibility hes he
  exact (of_decide_eq_true huse).1 (h.activated_eq hc hctl hact)

/-- **A step keeps what an exchange left**, with no more treatments and under the same source. -/
theorem step (hin : a.Inside p) (hs : Step p call a b) :
    Exchanged p call D b ∧ b.x ⊆ a.x ∧ b.active = a.active ∧
      b.activeInterventions = a.activeInterventions := by
  -- a smaller vertex set around `D`
  have hkeep : ∀ {v : Finset Nat}, v ⊆ a.v → D ⊆ v → v \ (a.x ∩ v) = D := fun {v} hva hDv => by
    ext u
    rw [← h.rest] at hDv ⊢
    simp only [Finset.mem_sdiff, Finset.mem_inter, not_and]
    constructor
    · rintro ⟨hu, hx⟩
      exact ⟨hva hu, fun hux => hx hux hu⟩
    · rintro ⟨hu, hx⟩
      exact ⟨hDv (Finset.mem_sdiff.mpr ⟨hu, hx⟩), fun hux => absurd hux hx⟩
  have hsub : ∀ {v : Finset Nat}, a.x ∩ v ⊆ a.x := fun {_} => Finset.inter_subset_left
  obtain ⟨s, hmem, hactive, hfree⟩ := h.source
  cases hs with
  | @ancestors anc hl =>
    have hat := a.line_spec (p := p)
    rw [hl] at hat
    cases hat with
    | ancestors hne =>
      exact ⟨⟨hkeep Admg.ancestorsWithin_subset h.reach_ancestors, h.reach, h.one,
        ⟨s, hmem, hactive, hfree.mono hsub⟩, h.remaining.mono hsub⟩, hsub, rfl, rfl⟩
  | enlarge hl => exact absurd hl h.not_enlarge
  | district hl _ => exact absurd hl h.not_districts
  | @larger l hl =>
    have hat := a.line_spec (p := p)
    rw [hl] at hat
    cases hat with
    | @recurse d _ hone hmany hmem' hd =>
      have hlv : l ⊆ a.v := (Admg.components_spec (g := p.admg) hin.v_lt).sub l hmem'
      obtain rfl : d = D := by
        rw [h.rest] at hone
        refine component_eq (fun u hu => hin.v_lt u ?_) hone
        exact (Finset.mem_sdiff.mp (h.rest ▸ hu)).1
      exact ⟨⟨hkeep hlv hd, h.reach, h.one, ⟨s, hmem, hactive, hfree.mono hsub⟩,
        h.remaining.mono hsub⟩, hsub, rfl, rfl⟩
  | source hex => exact absurd hex h.not_exchange

/-- **What a run keeps below an exchange.** -/
theorem below (hin : a.Inside p) (hb : Below p call a b) :
    Exchanged p call D b ∧ b.Inside p ∧ b.x ⊆ a.x ∧ b.active = a.active ∧
      b.activeInterventions = a.activeInterventions := by
  induction hb with
  | refl => exact ⟨h, hin, subset_rfl, rfl, rfl⟩
  | tail _ hstep ih =>
    obtain ⟨hex, hin', hx, hact, hint⟩ := ih
    obtain ⟨hex', hx', hact', hint'⟩ := hex.step hin' hstep
    exact ⟨hex', (hstep.inside hin').1, hx'.trans hx, hact'.trans hact, hint'.trans hint⟩

end Exchanged

/-- **An exchange starts it.** -/
theorem Exchange.exchanged (hnone : a.active = none) (h : Exchange p call a b) :
    Exchanged p call (a.v \ a.x) b := by
  cases h with
  | @mk e exchanged kernel h hlev =>
    obtain ⟨d, hl⟩ := h.line
    have hat := a.line_spec (p := p)
    rw [hl] at hat
    cases hat with
    | exchange hup hone =>
      have hctl : e.controllable = e.domain.controllable := by
        rw [h.controllable]
        unfold Frame.controllable
        rw [hnone]
        exact if_neg nofun
      -- what the source controls has left the treatments
      have hfree : ∀ c ∈ e.domain.controllable, ∀ i, p.varToDense c = .ok i →
          i ∉ a.x \ e.activated := fun c hc i hi hx => by
        obtain ⟨hix, hno⟩ := Finset.mem_sdiff.mp hx
        exact hno ((mem_activated h.activated).mpr ⟨hix, c, hctl ▸ hc, hi⟩)
      refine ⟨sdiff_sdiff_of_subset (activated_subset h.activated), fun i hi => ?_, ⟨d, hone⟩,
        ⟨(e.domain, e.index), List.mem_of_mem_filter h.candidate, rfl, hfree⟩, fun c hc i hi => ?_⟩
      · obtain ⟨s, hsy, hsv, hlt, hwalk⟩ := Admg.mem_ancestorsWithin.mp (hup hi)
        obtain ⟨hsD, hwalk'⟩ := up_inside hsv (Finset.mem_sdiff.mp hi).2 hwalk
        exact Admg.mem_ancestorsWithin.mpr ⟨s, hsy, hsD, hlt, hwalk'⟩
      · exact hfree c (hctl ▸ List.mem_of_mem_filter hc) i hi

/-! ## The search with one exchange -/

section Once

variable (p call) {E : Type} (eng : Engine E)

/-- Line 10 with no active experiment only. -/
def line10Once (next : Recursion E) (a : Frame) (district : Finset Nat) :
    SearchM E (Option ExprTree) := do
  let eligibility ← ofExcept (a.eligibility p call)
  if a.active = none ∧ eligibility.any Eligibility.usable = true then
    exchangeInTurn p call eng next a (eligibility.filter Eligibility.usable)
  else do
    fail p call a district eligibility
    pure none

def searchOnce : Nat → Recursion E
  | 0, _ => throw (.message "unreachable")
  | depth + 1, a => searchBody p eng (line10Once p call eng) (searchOnce depth) a

variable {p call} {eng}

/-- A frame of a run: nothing has been exchanged, or one exchange has. -/
structure OfRun (p : PreparedAdmg) (call : TrzCall) (a : Frame) : Prop where
  inside : a.Inside p
  once : (a.active = none ∧ a.activeInterventions = []) ∨ ∃ D, Exchanged p call D a

theorem OfRun.exchange (h : OfRun p call a) (hb : Exchange p call a b) :
    a.active = none ∧ a.activeInterventions = [] := by
  obtain hnone | ⟨D, hex⟩ := h.once
  · exact hnone
  · exact absurd hb hex.not_exchange

/-- **A run's steps.** -/
theorem OfRun.step {a b : Frame} (h : OfRun p call a) (hb : Step p call a b) : OfRun p call b := by
  refine ⟨(hb.inside h.inside).1, ?_⟩
  obtain hnone | ⟨D, hex⟩ := h.once
  · cases hb with
    | ancestors _ => exact .inl hnone
    | enlarge _ => exact .inl hnone
    | district _ _ => exact .inl hnone
    | larger _ => exact .inl hnone
    | source hs => exact .inr ⟨_, hs.exchanged hnone.1⟩
  · exact .inr ⟨D, (hex.step h.inside hb).1⟩

theorem OfRun.below (h : OfRun p call a) (hb : Below p call a b) : OfRun p call b := by
  induction hb with
  | refl => exact h
  | tail _ hstep ih => exact ih.step hstep

/-- At a frame of a run line 10 is the one that exchanges once. -/
theorem OfRun.line10_eq {next next' : Recursion E} {d : Finset Nat}
    (h : OfRun p call a) (hline : a.line p = .exchange d)
    (hnext : ∀ b, Exchange p call a b → next b = next' b) :
    line10 p call eng next a d = line10Once p call eng next' a d := by
  rw [line10_congr hline hnext]
  unfold line10 line10Once
  refine ofExcept_bind_congr fun es hes => ?_
  obtain ⟨hnone, -⟩ | ⟨D, hex⟩ := h.once
  · simp only [hnone, true_and]
  · rw [hex.not_usable hes]
    simp

/-- **The search is the one that exchanges once**, from every frame of a run. -/
theorem searchTrzState_eq_once : ∀ (depth : Nat) {a : Frame}, OfRun p call a →
    searchTrzState p call eng depth a = searchOnce p call eng depth a
  | 0, _, _ => rfl
  | depth + 1, a, h => by
    unfold searchTrzState searchOnce
    have ih : ∀ b, Step p call a b →
        searchTrzState p call eng depth b = searchOnce p call eng depth b := fun b hb =>
      searchTrzState_eq_once depth (h.step hb)
    exact searchBody_congr ih fun d hline => h.line10_eq hline fun b hb => ih b (.source hb)

/-- **The bound on the depth is no restriction.** -/
theorem searchTrzState_settled : ∀ (depth : Nat) {a : Frame}, a.Inside p → a.size < depth →
    searchTrzState p call eng depth a = searchTrzState p call eng (a.size + 1) a
  | 0, _, _, h => absurd h (Nat.not_lt_zero _)
  | depth + 1, a, hin, h => by
    unfold searchTrzState
    have ih : ∀ b, Step p call a b →
        searchTrzState p call eng depth b = searchTrzState p call eng a.size b := fun b hb => by
      obtain ⟨hin', hlt⟩ := hb.inside hin
      rw [searchTrzState_settled depth hin' (Nat.lt_of_lt_of_le hlt (Nat.le_of_lt_succ h)),
        searchTrzState_settled a.size hin' hlt]
    exact searchBody_congr ih fun d hline => line10_congr hline fun b hb => ih b (.source hb)
  termination_by depth a => (depth, a.size)

end Once

/-- **What holds below an exchange** from `a` to `b`, in every run. -/
structure OnceBelow (p : PreparedAdmg) (call : TrzCall) (a b : Frame) : Prop where
  /-- Nothing was exchanged before: the interventions below are those of this exchange. -/
  first : a.active = none ∧ a.activeInterventions = []
  rest : ∀ c, Below p call b c → c.v \ c.x = a.v \ a.x
  shrinks : ∀ c c', Below p call b c → Below p call c c' → c'.x ⊆ c.x
  no_line3 : ∀ c w, Below p call b c → c.line p ≠ .enlarge w
  no_line4 : ∀ c ds, Below p call b c → c.line p ≠ .districts ds
  /-- The active source has no controllable left among the treatments. -/
  cleared : ∀ c, Below p call b c → ∃ e ∈ call.domains.zipIdx, c.active = some e.2 ∧
    c.Free p e.1.controllable
  last : ∀ c d, Below p call b c → ¬ Exchange p call c d
  same : ∀ c, Below p call b c → c.active = b.active ∧ c.activeInterventions = b.activeInterventions

theorem OfRun.onceBelow (h : OfRun p call a) (hb : Exchange p call a b) :
    OnceBelow p call a b := by
  have hex : Exchanged p call (a.v \ a.x) b := hb.exchanged (h.exchange hb).1
  have hin : b.Inside p := ((Step.source hb).inside h.inside).1
  have hall : ∀ c, Below p call b c → Exchanged p call (a.v \ a.x) c ∧ c.Inside p := fun c hc =>
    ⟨(hex.below hin hc).1, (hex.below hin hc).2.1⟩
  refine ⟨h.exchange hb, fun c hc => (hall c hc).1.rest, fun c c' hc hc' => ?_,
    fun c w hc => (hall c hc).1.not_enlarge, fun c ds hc => (hall c hc).1.not_districts,
    fun c hc => (hall c hc).1.source, fun c d hc => (hall c hc).1.not_exchange,
    fun c hc => (hex.below hin hc).2.2.2⟩
  obtain ⟨hc, hcin⟩ := hall c hc
  exact (hc.below hcin hc').2.2.1

theorem initialFrame_ofRun {admg : Admg} {root : Frame} (hp : PreparedAdmg.new admg = .ok p)
    (h : initialFrame p call = .ok root) : OfRun p call root := by
  unfold initialFrame at h
  simp only [bind, Except.bind] at h
  obtain ⟨y, hy, h⟩ := bind_ok h
  obtain ⟨x, hx, h⟩ := bind_ok h
  simp only [pure, Except.pure] at h
  obtain rfl := Except.ok.inj h
  obtain ⟨p', hp', hadmg, htopo⟩ := PreparedAdmg.new_spec admg
  obtain rfl := Except.ok.inj (hp.symm.trans hp')
  have hnode : ∀ v, v ∈ p.topo.toFinset ↔ v < p.admg.nodeCount := fun v => by
    rw [List.mem_toFinset, htopo.mem, Finset.mem_range, hadmg]
  refine ⟨⟨fun v hv => ?_, fun v hv => (hnode v).mp hv⟩, .inl ⟨rfl, rfl⟩⟩
  obtain ⟨id, -, hid⟩ := (mem_mapM hx v).mp (List.mem_toFinset.mp hv)
  exact (hnode v).mpr (PreparedAdmg.varToDense_ok hid).1

/-- **At most one exchange a branch.** In every run of the search, over every diagram, query and list
of sources: below an exchange the nodes outside the treatments stay the same, the treatments only
shrink, lines 3 and 4 do not fire, the active source has no controllable left and nothing is
exchanged again; and the search is the one that exchanges with no active experiment only. -/
theorem exchange_once {admg : Admg} {p : PreparedAdmg} {call : TrzCall} {root : Frame}
    (hp : PreparedAdmg.new admg = .ok p) (hroot : initialFrame p call = .ok root) :
    (∀ a b, Below p call root a → Exchange p call a b → OnceBelow p call a b) ∧
    ∀ (E : Type) (eng : Engine E) (depth : Nat),
      searchTrzState p call eng depth root = searchOnce p call eng depth root :=
  ⟨fun _ _ ha hb => ((initialFrame_ofRun hp hroot).below ha).onceBelow hb,
    fun _ _ depth => searchTrzState_eq_once depth (initialFrame_ofRun hp hroot)⟩

/-- `X → Y` confounded, with `X` controllable in the source: the first call exchanges. -/
theorem exchange_once_bow : ∃ (admg : Admg) (p : PreparedAdmg) (call : TrzCall) (root b : Frame),
    ((Admg.withVariables 2).insertDirected 0 1 >>= fun g => g.insertBidirected 0 1) = .ok admg ∧
    PreparedAdmg.new admg = .ok p ∧ call = ⟨[1], [0], "target", [⟨"source", [0], [], []⟩]⟩ ∧
    initialFrame p call = .ok root ∧ Exchange p call root b ∧ OnceBelow p call root b := by
  obtain ⟨admg, p, hadmg, hp, hanc, hbar, hcomp, hall, hid, hvar,
      htopo⟩ : ∃ (admg : Admg)
      (p : PreparedAdmg), ((Admg.withVariables 2).insertDirected 0 1 >>= fun g =>
        g.insertBidirected 0 1) = .ok admg ∧ PreparedAdmg.new admg = .ok p ∧
      (closureInto p.admg.nodeCount p.admg.parents [1] fun u q =>
        u ∉ (∅ : Finset Nat) ∧ q ∈ Finset.range 2) = .range 2 ∧
      (Finset.range 2 \ {0}) \ (closureInto p.admg.nodeCount p.admg.parents [1] fun u q =>
        u ∉ ({0} : Finset Nat) ∧ q ∈ Finset.range 2) = ∅ ∧
      p.cComponents (Finset.range 2 \ {0}) = [{1}] ∧ p.cComponents (.range 2) = [{0, 1}] ∧
      (∀ v < 2, p.varToDense v = .ok v) ∧ p.denseToVar 0 = 0 ∧ p.topo.toFinset = .range 2 := by
    refine ⟨_, _, rfl, rfl, by decide, by decide, by decide, by decide, fun v hv => ?_, rfl,
      by decide⟩
    match v, hv with
    | 0, _ => rfl
    | 1, _ => rfl
  let source : TrzDomain := ⟨"source", [0], [], []⟩
  let call : TrzCall := ⟨[1], [0], "target", [source]⟩
  obtain ⟨root, hroot, hy, hx, hv, hactive, hirr⟩ : ∃ root : Frame,
      initialFrame p call = .ok root ∧ root.y = {1} ∧ root.x = {0} ∧ root.v = .range 2 ∧
      root.active = none ∧ root.irrelevant = ∅ := by
    have hone : ∀ v < 2, [v].mapM p.varToDense = .ok [v] := fun v hv => by
      rw [List.mapM_cons, hid v hv]
      rfl
    unfold initialFrame
    rw [hone 1 (by decide), hone 0 (by decide), htopo]
    exact ⟨_, rfl, rfl, rfl, rfl, rfl, rfl⟩
  have hseeds : ({1} ∩ Finset.range 2 : Finset Nat) = {1} := by decide
  have hline : root.line p = .exchange {1} := by
    unfold State.line PreparedAdmg.ancestorsBarX PreparedAdmg.ancestors Admg.ancestorsWithin
    rw [hy, hx, hv, hseeds, Finset.sort_singleton, if_neg (by decide)]
    simp only [hanc, hbar, hcomp, hall]
    rfl
  have hact : root.activated p [0] = .ok {0} := by
    unfold State.activated
    rw [List.mapM_cons, hid 0 (by decide), hx]
    rfl
  have hlev : exchangedLevels p call source root.irrelevant (p.vars {0}) = .ok (.ok [symbolic 0]) := by
    unfold PreparedAdmg.vars
    rw [Finset.sort_singleton, List.map_singleton, hvar, hirr]
    unfold exchangedLevels
    rw [hid 0 (by decide)]
    rfl
  have hex : Exchange p call root (root.toSource p 0 [0] {0}
      (cumulate root.activeInterventions [symbolic 0]) default) := by
    refine .mk (e := ⟨0, source, [0], {0}, true⟩) ⟨⟨_, hline⟩, ?_, ?_, hact, by decide⟩ hlev
    · exact List.mem_filter.mpr ⟨List.mem_cons_self, decide_eq_true (.inl hactive)⟩
    · unfold Frame.controllable
      rw [hactive]
      rfl
  exact ⟨admg, p, call, root, _, hadmg, hp, rfl, hroot, hex,
    (exchange_once hp hroot).1 root _ .refl hex⟩

end Antecedent.Identify.ZTransport
