import Antecedent.Discovery.ColliderRule

/-!
# The fixed point of the collider rule and Meek's rules

Run on the undirected skeleton of a DAG with correct separating sets, the rules reach a fixed point
within the round budget when the skeleton has at most 2000 edges, record no conflict, and leave
exactly the edges directed that every Markov equivalent graph directs so.

* `Ran` is what one rule does from a queue: with the queue empty and no edge changed it had no
  instance at any node.
* **`orientation_exact`**, and `meek_exact` for Meek's rules alone.
-/

namespace Antecedent.Discovery

open Graph Machine

variable {G : Dag Nat} {g g' : Cpdag} {st : OrientationState} {n base : Nat} {p : Pass .static}
  {rule : Rule .static}
  {a b : Nat}
  {q q' : OrientationQueue}

/-! ## The queue -/

theorem finish_delta (q : OrientationQueue) : (p.finish q).1.graph = p.graph ∧
    (p.finish q).1.state = p.state ∧ (p.finish q).1.delta.edgesChanged = p.delta.edgesChanged ∧
    (p.finish q).1.delta.conflicts = p.delta.conflicts := by
  have key : ∀ (l : List Nat) (r : Pass .static × OrientationQueue),
      let s := l.foldl (fun (r : Pass .static × OrientationQueue) n =>
        let e := enqueueNeighbors r.1.graph n r.2
        ({ r.1 with delta := { r.1.delta with enqueued := r.1.delta.enqueued + e.2 } }, e.1)) r
      s.1.graph = r.1.graph ∧ s.1.state = r.1.state ∧
        s.1.delta.edgesChanged = r.1.delta.edgesChanged ∧ s.1.delta.conflicts = r.1.delta.conflicts := by
    intro l
    induction l with
    | nil => exact fun r => ⟨rfl, rfl, rfl, rfl⟩
    | cons a l ih => exact fun r => ih _
  exact key p.changed (p, q)

theorem focusNodes_eq (n : Nat) (q : OrientationQueue) :
    focusNodes n q = (if q.inner = [] then List.range n else q.inner, ⟨[]⟩) := by
  obtain ⟨l⟩ := q
  unfold focusNodes OrientationQueue.isEmpty
  cases l <;> rfl

theorem mem_foldl_push {v : Nat} : ∀ {l : List Nat} {q : OrientationQueue}, v ∈ l ∨ v ∈ q.inner →
    v ∈ (l.foldl OrientationQueue.push q).inner
  | [], _, h => h.resolve_left List.not_mem_nil
  | a :: l, q, h => by
    refine mem_foldl_push (l := l) (q := q.push a) ?_
    unfold OrientationQueue.push
    split_ifs with ha
    · rcases h with h | h
      · rcases List.mem_cons.mp h with rfl | h
        · exact Or.inr ha
        · exact Or.inl h
      · exact Or.inr h
    · simp only [List.mem_append, List.mem_singleton]
      rcases h with h | h
      · rcases List.mem_cons.mp h with rfl | h
        · exact Or.inr (Or.inr rfl)
        · exact Or.inl h
      · exact Or.inr (Or.inl h)

/-! ## One rule -/

/-- What a rule run from a queue does. -/
structure Ran (G : Dag Nat) (st : OrientationState) (g : Cpdag) (q : OrientationQueue)
    (Q : Cpdag → Nat → Prop) (p : Pass .static) (q' : OrientationQueue) : Prop where
  inv : PassInv G st (arrowCount g) p
  grown : Grown g p.graph
  quiet : p.delta.edgesChanged = 0 → p.graph = g ∧ q' = ⟨[]⟩ ∧
    (q = ⟨[]⟩ → ∀ v < g.nodeCount, Q g v)

theorem PassInv.start (h : Faithful G g) : PassInv G st (arrowCount g) ⟨g, st, .start, []⟩ :=
  ⟨h, rfl, rfl, rfl⟩

theorem PassInv.finish (h : PassInv G st base p) (q : OrientationQueue) :
    PassInv G st base (p.finish q).1 := by
  obtain ⟨h1, h2, h3, h4⟩ := finish_delta (p := p) q
  exact ⟨h1 ▸ h.faithful, h2.trans h.state, h4.trans h.conflicts, by rw [h1, h3, h.count]⟩

/-- A rule whose steps are specified is specified on its focus. -/
theorem runRule_spec {Q : Cpdag → Nat → Prop} {C : Cpdag → Prop}
    (hmono : ∀ {g g'}, C g → Grown g g' → C g')
    (hrule : ∀ base p v, PassInv G st base p → C p.graph → ∃ p', rule p v = .ok p' ∧
      PassInv G st base p' ∧ Grown p.graph p'.graph ∧
      ((p' = p ∧ Q p.graph v) ∨ p.delta.edgesChanged < p'.delta.edgesChanged))
    (h : Faithful G g) (hC : C g) (q : OrientationQueue) :
    ∃ p q', runRule rule g st q = .ok (p, q') ∧ Ran G st g q Q p q' := by
  set focus := if q.inner = [] then List.range g.nodeCount else q.inner with hfocus
  obtain ⟨p, hok, hinv, hg, hpr⟩ := nested_loop (l := focus) (f := rule) (p := ⟨g, st, .start, []⟩)
    (Q := fun v => Q g v) (PassInv.start h) (fun r v hr hgr _ => by
      obtain ⟨r', hr', hinv, hg', hpr⟩ := hrule _ r v hr (hmono hC hgr)
      refine ⟨r', hr', hinv, hg', hpr.imp_left fun hh => ⟨hh.1, fun he => ?_⟩⟩
      have := hh.2
      rwa [he] at this)
  obtain ⟨h1, h2, h3, h4⟩ := finish_delta (p := p) ⟨[]⟩
  refine ⟨(p.finish ⟨[]⟩).1, (p.finish ⟨[]⟩).2, ?_, hinv.finish _, by rw [h1]; exact hg, fun h0 => ?_⟩
  · unfold runRule
    rw [focusNodes_eq]
    simp only [← hfocus]
    rw [hok]
    rfl
  · rw [h3] at h0
    rcases hpr with ⟨rfl, hall⟩ | hlt
    · refine ⟨rfl, rfl, fun hq v hv => hall v ?_⟩
      rw [hfocus, hq, if_pos rfl]
      exact List.mem_range.mpr hv
    · exact absurd (h0 ▸ hlt) (Nat.not_lt_zero _)

/-- Every unshielded collider at `c` is directed. -/
def CollidersAt (G : Dag Nat) (g : Cpdag) (c : Nat) : Prop :=
  ∀ a b, G.Unshielded a c b → Dir g.adj a c

def Covers (n : Nat) (q : OrientationQueue) : Prop := ∀ v < n, v ∈ (focusNodes n q).1

/-! ## One round -/

/-- No rule has an instance left. -/
structure Quiet (G : Dag Nat) (g : Cpdag) : Prop where
  r1 : ∀ v < g.nodeCount, QuietR1 G g v
  r2 : ∀ v < g.nodeCount, QuietR2 g v
  r3 : ∀ v < g.nodeCount, QuietR3 G g v

/-- What a round of rules does that starts with the counters `d₀`. -/
structure Rounded (G : Dag Nat) (g : Cpdag) (q : OrientationQueue) (d₀ : RuleDelta) (g' : Cpdag)
    (q' : OrientationQueue) (d : RuleDelta) : Prop where
  faithful : Faithful G g'
  colliders : Colliders G g'
  grown : Grown g g'
  conflicts : d.conflicts = d₀.conflicts
  count : arrowCount g' + d₀.edgesChanged = arrowCount g + d.edgesChanged
  quiet : d.edgesChanged = d₀.edgesChanged → g' = g ∧ q' = ⟨[]⟩ ∧ (q = ⟨[]⟩ → Quiet G g)

/-- The rules in order from given counters. -/
def roundFrom (rules : List (Rule .static)) (r : (Cpdag × OrientationState) × OrientationQueue × RuleDelta) :
    Except OrientationError ((Cpdag × OrientationState) × OrientationQueue × RuleDelta) :=
  rules.foldlM (fun r rule => do
    let (p, q) ← runRule rule r.1.1 r.1.2 r.2.1
    return ((p.graph, p.state), q, r.2.2.add p.delta)) r

theorem roundFrom_cons {rules : List (Rule .static)} {d₀ : RuleDelta}
    (h : runRule rule g st q = .ok (p, q')) (hs : p.state = st) :
    roundFrom (rule :: rules) ((g, st), q, d₀) =
      roundFrom rules ((p.graph, st), q', d₀.add p.delta) := by
  unfold roundFrom
  rw [List.foldlM_cons, h, ← hs]
  rfl

/-- **Meek's rules**, on a graph whose unshielded colliders are directed. -/
theorem meekRound_spec (hst : st.ambiguousTriples = ∅) (h : Faithful G g) (hc : Colliders G g)
    (q : OrientationQueue) (d₀ : RuleDelta) :
    ∃ g' q' d, roundFrom meekRules ((g, st), q, d₀) = .ok ((g', st), q', d) ∧
      Rounded G g q d₀ g' q' d := by
  have hmono : ∀ {g g' : Cpdag}, Colliders G g → Grown g g' → Colliders G g' := Colliders.mono
  obtain ⟨p₁, q₁, h₁, r₁⟩ := runRule_spec hmono (meekR1_spec hst) h hc q
  have hc₁ := hc.mono r₁.grown
  obtain ⟨p₂, q₂, h₂, r₂⟩ := runRule_spec hmono (@meekR2_spec G st) r₁.inv.faithful hc₁ q₁
  have hc₂ := hc₁.mono r₂.grown
  obtain ⟨p₃, q₃, h₃, r₃⟩ := runRule_spec hmono (meekR3_spec hst) r₂.inv.faithful hc₂ q₂
  have hc₃ := hc₂.mono r₃.grown
  obtain ⟨p₄, q₄, h₄, r₄⟩ := runRule_spec (Q := fun _ _ => True) hmono
    (@meekR4_spec G st) r₃.inv.faithful hc₃ q₃
  refine ⟨p₄.graph, q₄, (((d₀.add p₁.delta).add p₂.delta).add p₃.delta).add p₄.delta, ?_,
    r₄.inv.faithful, hc₃.mono r₄.grown, ((r₁.grown.trans r₂.grown).trans r₃.grown).trans r₄.grown,
    ?_, ?_, fun h0 => ?_⟩
  · unfold meekRules
    rw [roundFrom_cons h₁ r₁.inv.state, roundFrom_cons h₂ r₂.inv.state,
      roundFrom_cons h₃ r₃.inv.state, roundFrom_cons h₄ r₄.inv.state]
    rfl
  · simp only [RuleDelta.add, r₁.inv.conflicts, r₂.inv.conflicts, r₃.inv.conflicts,
      r₄.inv.conflicts, Nat.add_zero]
  · rw [r₄.inv.count, r₃.inv.count, r₂.inv.count, r₁.inv.count]
    simp only [RuleDelta.add]
    omega
  · simp only [RuleDelta.add] at h0
    obtain ⟨e₁, f₁, u₁⟩ := r₁.quiet (by omega)
    obtain ⟨e₂, f₂, u₂⟩ := r₂.quiet (by omega)
    obtain ⟨e₃, f₃, u₃⟩ := r₃.quiet (by omega)
    obtain ⟨e₄, f₄, -⟩ := r₄.quiet (by omega)
    refine ⟨by rw [e₄, e₃, e₂, e₁], f₄, fun hq => ?_⟩
    have u₁ := u₁ hq
    have u₂ := u₂ f₁
    have u₃ := u₃ f₂
    rw [e₂, e₁] at u₃
    rw [e₁] at u₂
    exact ⟨u₁, u₂, u₃⟩

section Collider

variable (hst : Separators G n st) (hn : ∀ a b, G.edge a b → a < n ∧ b < n)

include hst hn

theorem colliders_of_covers (h : Faithful G g) (hnc : g.nodeCount = n) (hq : Covers n q)
    (hrun : runRule OrientCollider g st q = .ok (p, q')) : Colliders G p.graph := by
  obtain ⟨r, hok, -, hdone⟩ := foldlM_inv (f := OrientCollider)
    (J := fun rest r => PassInv G st (arrowCount g) r ∧ ∀ c ∈ (focusNodes n q).1, c ∉ rest →
      CollidersAt G r.graph c) (fun c rest r ⟨hinv, hdone⟩ => by
      obtain ⟨r', hok, hinv', hg, hc, -⟩ := collider_spec hst hn hinv c
      refine ⟨r', hok, hinv', fun x hx hnot => ?_⟩
      by_cases he : x = c
      · exact he ▸ hc
      · intro a b hu
        exact hg.dir _ _ (hdone x hx (fun hh => (List.mem_cons.mp hh).elim he hnot) a b hu))
    (focusNodes n q).1 ⟨g, st, .start, []⟩ ⟨PassInv.start h, fun _ hx hnot => absurd hx hnot⟩
  have hrun' : ((focusNodes n q).1.foldlM OrientCollider ⟨g, st, .start, []⟩ >>= fun p =>
      pure (p.finish (focusNodes n q).2)) = .ok (p, q') := hnc ▸ hrun
  rw [hok] at hrun'
  have hfin : r.finish (focusNodes n q).2 = (p, q') := Except.ok.inj hrun'
  have hgr := (finish_delta (p := r) (focusNodes n q).2).1
  rw [hfin] at hgr
  intro a c b hu
  rw [hgr]
  exact hdone c (hq c (hn _ _ hu.left).2) List.not_mem_nil a b hu

theorem pcRound_spec (h : Faithful G g) (hnc : g.nodeCount = n) (hc : Colliders G g ∨ Covers n q) :
    ∃ g' q' d, runRound pcRules (g, st) q = .ok ((g', st), q', d) ∧
      Rounded G g q .default g' q' d := by
  obtain ⟨p, q₁, h₁, r₁⟩ := runRule_spec (C := fun _ => True) (Q := fun g v => CollidersAt G g v)
    (fun _ _ => trivial) (fun base p c hp _ => by
      obtain ⟨p', hok, hinv, hg, hcol, hpr⟩ := collider_spec hst hn hp c
      exact ⟨p', hok, hinv, hg, hpr.imp_left fun he => ⟨he, he ▸ hcol⟩⟩) h trivial q
  have hcol : Colliders G p.graph :=
    hc.elim (fun hc => hc.mono r₁.grown) fun hq => colliders_of_covers hst hn h hnc hq h₁
  obtain ⟨g', q', d, h₂, r₂⟩ := meekRound_spec hst.ambiguous r₁.inv.faithful hcol q₁
    (RuleDelta.default.add p.delta)
  have hcount := r₂.count
  have hadd : (RuleDelta.default.add p.delta).edgesChanged = p.delta.edgesChanged := Nat.zero_add _
  refine ⟨g', q', d, ?_, r₂.faithful, r₂.colliders, r₁.grown.trans r₂.grown, ?_, ?_, fun h0 => ?_⟩
  · show roundFrom (OrientCollider :: meekRules) ((g, st), q, .default) = _
    rw [roundFrom_cons h₁ r₁.inv.state, h₂]
  · rw [r₂.conflicts]
    exact (Nat.zero_add _).trans r₁.inv.conflicts
  · rw [hadd, r₁.inv.count] at hcount
    show arrowCount g' + 0 = _
    omega
  · have hzero : d.edgesChanged = 0 := h0
    rw [hadd, r₁.inv.count] at hcount
    have hle : arrowCount p.graph ≤ arrowCount g' := arrowCount_mono r₂.grown
    rw [r₁.inv.count] at hle
    obtain ⟨e₁, f₁, -⟩ := r₁.quiet (by omega)
    obtain ⟨e₂, f₂, u₂⟩ := r₂.quiet (by rw [hadd]; omega)
    exact ⟨e₂.trans e₁, f₂, fun _ => e₁ ▸ u₂ f₁⟩

end Collider

/-! ## All rounds -/

/-- The complaint of the loop when the rounds run out. -/
def budgetExhausted : OrientationError :=
  .precondition "orientation did not reach fixed point within iteration budget"

/-- **The loop reaches a fixed point or runs out of rounds**, and the latter only when fewer rounds are
left than twice the edges to direct, and one for the last pass or two. `J` is what the first round needs. -/
theorem driveLoop_cases {R : List (Rule .static)} {J : Cpdag → OrientationQueue → Prop}
    (hround : ∀ g q, Faithful G g → g.nodeCount = n → J g q →
      ∃ g' q' d, runRound R (g, st) q = .ok ((g', st), q', d) ∧ Rounded G g q .default g' q' d)
    (hready : ∀ g q, Colliders G g → J g q) :
    ∀ (fuel : Nat) (verifying : Bool) (total : RuleDelta) (g : Cpdag)
    (q : OrientationQueue), Faithful G g → g.nodeCount = n → J g q →
    (verifying = true → q = ⟨[]⟩) → total.conflicts = 0 →
    (∃ g' t, driveLoop (runRound R) fuel verifying total (g, st) q = .ok ((g', st), t) ∧
      Faithful G g' ∧ Colliders G g' ∧ Quiet G g' ∧ Grown g g' ∧ t.conflicts = 0) ∨
    (driveLoop (runRound R) fuel verifying total (g, st) q = .error budgetExhausted ∧
      fuel < 2 * (G.finite.toFinset.card - arrowCount g) + (if verifying then 1 else 2)) := by
  intro fuel
  induction fuel with
  | zero =>
    intro verifying total g q _ _ _ _ _
    exact Or.inr ⟨rfl, by cases verifying <;> simp⟩
  | succ fuel ih =>
    intro verifying total g q h hnc hc hv ht
    obtain ⟨g', q', d, hok, hr⟩ := hround g q h hnc hc
    have hle := arrowCount_le hr.faithful
    have hcount : arrowCount g' = arrowCount g + d.edgesChanged := hr.count
    have hnc' : g'.nodeCount = n := by rw [← hnc, Pdag.nodeCount, Pdag.nodeCount, hr.grown.nodes]
    have ht' : (total.add d).conflicts = 0 := by
      show total.conflicts + d.conflicts = 0
      rw [ht, hr.conflicts]
      rfl
    by_cases hd : d.edgesChanged > 0
    · have hstep : driveLoop (runRound R) (fuel + 1) verifying total (g, st) q =
          driveLoop (runRound R) fuel false (total.add d) (g', st) q' := by
        simp only [driveLoop, hok, bind, Except.bind, if_pos hd]
      rw [hstep]
      rcases ih false (total.add d) g' q' hr.faithful hnc' (hready g' q' hr.colliders)
        (fun hh => absurd hh Bool.false_ne_true) ht' with ⟨g'', t, hrun, h1, h2, h3, h4, h5⟩ | ⟨he, hlt⟩
      · exact Or.inl ⟨g'', t, hrun, h1, h2, h3, hr.grown.trans h4, h5⟩
      · exact Or.inr ⟨he, by cases verifying <;> simp at hlt ⊢ <;> omega⟩
    · obtain ⟨rfl, rfl, hquiet⟩ := hr.quiet (Nat.eq_zero_of_not_pos hd)
      cases verifying with
      | true =>
        refine Or.inl ⟨g', { total.add d with fixedPoint := true }, ?_, hr.faithful, hr.colliders,
          hquiet (hv rfl), Grown.refl _, ht'⟩
        simp only [driveLoop, hok, bind, Except.bind, if_neg hd]
        rfl
      | false =>
        have hstep : driveLoop (runRound R) (fuel + 1) false total (g', st) q =
            driveLoop (runRound R) fuel true (total.add d) (g', st) ⟨[]⟩ := by
          simp only [driveLoop, hok, bind, Except.bind, if_neg hd]
          rfl
        rw [hstep]
        rcases ih true (total.add d) g' ⟨[]⟩ hr.faithful hnc' (hready g' ⟨[]⟩ hr.colliders)
          (fun _ => rfl) ht' with ⟨g'', t, hrun, h1, h2, h3, h4, h5⟩ | ⟨he, hlt⟩
        · exact Or.inl ⟨g'', t, hrun, h1, h2, h3, h4, h5⟩
        · exact Or.inr ⟨he, by simp at hlt ⊢; omega⟩

/-! ## What is directed in the end -/

/-- **A graph closed under the collider rule and R1 to R3 directs the whole closure.** -/
theorem dir_of_meek (h : Faithful G g) (hc : Colliders G g) (hq : Quiet G g)
    (hm : G.Meek a b) : Dir g.adj a b := by
  have hlt : ∀ {a b}, G.Adj a b → a < g.nodeCount := fun {a b} hab => by
    obtain ⟨v, hv⟩ := Option.isSome_iff_exists.mp ((h.skeleton a b).mpr hab)
    exact (g.stored.lt_of_look hv).1
  have back : ∀ {a b}, G.edge a b → ¬ Dir g.adj b a := fun hab hd =>
    Dag.asymm hab (h.shared _ _ hd).edge
  induction hm with
  | collider hu => exact hc _ _ _ hu
  | @r1 a b c _ hbc hac ih =>
    rcases h.marks b c (Or.inl hbc) with hd | hd | hu
    · exact hd
    · exact absurd hd (back hbc)
    · exact absurd (hq.r1 b (hlt (Or.inl hbc)) a c ih hu) hac
  | @r2 a b c hab hbc hac ih ih' =>
    have hG : G.edge a c := Dag.edge_of_path (Dag.meek_edge hab) (Dag.meek_edge hbc) hac
    rcases h.marks a c hac with hd | hd | hu
    · exact hd
    · exact absurd hd (back hG)
    · exact absurd hu (hq.r2 a (hlt hac) b c ih ih')
  | @r3 a b c d hab hcb hdb hac had hne hcd hnu ihc ihd =>
    rcases h.marks a b (Or.inl hab) with hd | hd | hu
    · exact hd
    · exact absurd hd (back hab)
    · have r2 : ∀ {x}, Dir g.adj a x → ¬ Dir g.adj x b := fun hax hxb =>
        hq.r2 a (hlt (Or.inl hab)) _ b hax hxb hu
      have r1 : ∀ {x y}, Dir g.adj x a → Und g.adj a y → G.Adj x y := fun hxa hay =>
        hq.r1 a (hlt (Or.inl hab)) _ _ hxa hay
      -- an edge between `a` and a mediator is undirected, or another rule had an instance
      rcases h.marks a c hac with hac' | hca | hac'
      · exact absurd ihc (r2 hac')
      · have hG : G.edge a d := Dag.edge_of_unshielded (h.shared _ _ hca).edge had hcd hne hnu
        rcases h.marks a d had with had' | hda | had'
        · exact absurd ihd (r2 had')
        · exact absurd hda (back hG)
        · exact absurd (r1 hca had') hcd
      · rcases h.marks a d had with had' | hda | had'
        · exact absurd ihd (r2 had')
        · exact absurd (r1 hda hac').symm hcd
        · exact absurd (hq.r3 a (hlt (Or.inl hab)) b c d hu hac' had' ihc ihd hne) hcd

theorem compelled_iff_shared : G.Compelled a b ↔ Shared G a b :=
  forall_congr' fun _ => imp_congr_left Dag.markovEquivalent_iff_similar

/-- A shared graph closed under the rules directs exactly the compelled edges. -/
theorem dir_iff_compelled (h : Faithful G g) (hc : Colliders G g) (hq : Quiet G g) :
    Dir g.adj a b ↔ G.Compelled a b :=
  ⟨fun hd => compelled_iff_shared.mpr (h.shared a b hd),
    fun hcomp => dir_of_meek h hc hq (Dag.compelled_iff.mp hcomp)⟩

/-- **On the undirected skeleton of a DAG, with correct separating sets, the rules direct exactly the
edges every Markov equivalent graph directs so, and record no conflict.** -/
theorem orientation_exact (hst : Separators G g.nodeCount st)
    (hskel : ∀ a b, (look g.adj a b).isSome = true ↔ G.Adj a b)
    (hund : ∀ a b, G.Adj a b → Und g.adj a b) (hsize : G.finite.toFinset.card ≤ 2000) :
    ∃ g' t, runOrientationToFixedPoint pcRules g st = .ok ((g', st), t) ∧ t.conflicts = 0 ∧
      g'.nodes = g.nodes ∧ Faithful G g' ∧ ∀ a b, Dir g'.adj a b ↔ G.Compelled a b := by
  have hn : ∀ a b, G.edge a b → a < g.nodeCount ∧ b < g.nodeCount := by
    intro a b hab
    obtain ⟨v, hv⟩ := Option.isSome_iff_exists.mp ((hskel a b).mpr (Or.inl hab))
    exact g.stored.lt_of_look hv
  have h : Faithful G g := by
    refine ⟨hskel, fun a b hd => ?_, fun a b hab => Or.inr (Or.inr (hund a b hab))⟩
    obtain ⟨m, hm⟩ := hd
    have hab : G.Adj a b := (hskel a b).mp (by rw [hm]; rfl)
    exact absurd ⟨m, hm⟩ (hund a b hab).not_dir
  have hcov : Covers g.nodeCount ((List.range g.nodeCount).foldl OrientationQueue.push ⟨[]⟩) := by
    intro v hv
    have hmem := mem_foldl_push (q := ⟨[]⟩) (Or.inl (List.mem_range.mpr hv))
    rw [focusNodes_eq, if_neg (List.ne_nil_of_mem hmem)]
    exact hmem
  obtain ⟨g', t, hok, hf, hc, hq, hg, ht⟩ := (driveLoop_cases
    (J := fun g' q => Colliders G g' ∨ Covers g.nodeCount q)
    (fun _ _ h hnc hr => pcRound_spec hst hn h hnc hr) (fun _ _ => Or.inl) maxOrientationRounds false
    .default g _ h rfl (Or.inr hcov) (fun hh => absurd hh Bool.false_ne_true) rfl).resolve_right
      fun ⟨_, hlt⟩ => by
        simp only [maxOrientationRounds, Bool.false_eq_true, if_false] at hlt
        omega
  exact ⟨g', t, hok, ht, hg.nodes, hf, fun a b => dir_iff_compelled hf hc hq⟩

/-- A graph on the positions below `n` is the CPDAG of `G`: the same adjacencies, and an edge directed
iff every Markov equivalent DAG directs it so. -/
structure IsCpdagOf (g : Cpdag) (G : Dag Nat) (n : Nat) : Prop where
  nodes : g.nodes.length = n
  adj : ∀ i j, (look g.adj i j).isSome = true ↔ G.Adj i j
  dir : ∀ i j, Dir g.adj i j ↔ G.Compelled i j
  und : ∀ i j, Und g.adj i j ↔ G.Adj i j ∧ ¬ G.Compelled i j ∧ ¬ G.Compelled j i

theorem isCpdagOf_of_faithful {n : Nat} (hn : g.nodes.length = n) (h : Faithful G g)
    (hdir : ∀ i j, Dir g.adj i j ↔ G.Compelled i j) : IsCpdagOf g G n where
  nodes := hn
  adj := h.skeleton
  dir := hdir
  und := fun i j => by
    constructor
    · intro hu
      refine ⟨h.adj_of_und hu, fun hc => hu.not_dir ((hdir i j).mpr hc), fun hc => ?_⟩
      exact (g.stored.und_symm hu).not_dir ((hdir j i).mpr hc)
    · rintro ⟨hadj, h1, h2⟩
      rcases h.marks i j hadj with hd | hd | hu
      · exact absurd ((hdir i j).mp hd) h1
      · exact absurd ((hdir j i).mp hd) h2
      · exact hu

/-- **Where the unshielded colliders of a DAG are directed, and nothing its class does not share,
Meek's rules complete its CPDAG**, unless the rounds run out. -/
theorem meek_exact (hst : st.ambiguousTriples = ∅) (h : Faithful G g) (hc : Colliders G g) :
    (∃ g' t, runOrientationToFixedPoint meekRules g st = .ok ((g', st), t) ∧ t.conflicts = 0 ∧
      g'.nodes = g.nodes ∧ IsCpdagOf g' G g.nodes.length) ∨
    (runOrientationToFixedPoint meekRules g st = .error budgetExhausted ∧
      4999 < G.finite.toFinset.card) := by
  rcases driveLoop_cases (R := meekRules) (J := fun g _ => Colliders G g)
    (fun _ q h _ hc => meekRound_spec hst h hc q .default) (fun _ _ => id) maxOrientationRounds false
    .default g ((List.range g.nodeCount).foldl OrientationQueue.push ⟨[]⟩) h rfl hc
    (fun hh => absurd hh Bool.false_ne_true) rfl with ⟨g', t, hok, hf, hc, hq, hg, ht⟩ | ⟨he, hlt⟩
  · refine Or.inl ⟨g', t, hok, ht, hg.nodes,
      isCpdagOf_of_faithful (congrArg List.length hg.nodes) hf ?_⟩
    exact fun a b => dir_iff_compelled hf hc hq
  · simp only [maxOrientationRounds, Bool.false_eq_true, if_false] at hlt
    exact Or.inr ⟨he, by omega⟩

end Antecedent.Discovery
