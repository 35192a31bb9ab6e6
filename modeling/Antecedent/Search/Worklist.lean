import Mathlib.Data.Finset.Card

/-!
# Worklist search: a stack, a visited set, and a note per discovered node

Every graph search here has one shape: pop a node, stop if it is a goal, otherwise push the
successors not seen before. `drain` is that loop over an arbitrary successor function, with a
note (`record`) taken when a node is discovered.

* `drain_seen_iff`: when it does not stop, the visited set is the set of reachable nodes.

The fuel is a bound on the pops. Each node is pushed at most once, so one more than the size of
any finite set closed under successors is enough.
-/

namespace Antecedent.Worklist

variable {α σ : Type*} [DecidableEq α] {U : Finset α} {P : Finset α → σ → Prop} {next : α → List α}

/-- The state of a search: the visited set, the stack (top first) and the note. -/
structure Frontier (α σ : Type*) where
  seen : Finset α
  stack : List α
  note : σ

/-- Mark and push `w` unless it has been seen. -/
def Frontier.discover (record : α → σ → σ) (f : Frontier α σ) (w : α) : Frontier α σ :=
  if w ∈ f.seen then f
  else { seen := insert w f.seen, stack := w :: f.stack, note := record w f.note }

def Frontier.discoverAll (record : α → σ → σ) (f : Frontier α σ) (ws : List α) : Frontier α σ :=
  ws.foldl (Frontier.discover record) f

/-- The search loop. The result is whether a goal was popped, and the final state. -/
def drain (next : α → List α) (goal : α → Bool) (record : α → α → σ → σ) :
    Nat → Frontier α σ → Bool × Frontier α σ
  | 0, f => (false, f)
  | fuel + 1, f =>
    match f.stack with
    | [] => (false, f)
    | u :: rest =>
      if goal u then (true, { f with stack := rest })
      else drain next goal record fuel
        (({ f with stack := rest } : Frontier α σ).discoverAll (record u) (next u))

abbrev Reach (next : α → List α) : α → α → Prop :=
  Relation.ReflTransGen fun a b => b ∈ next a

/-! ## One discovery -/

section

variable (record : α → σ → σ)

include record

theorem discover_seen (f : Frontier α σ) (w : α) : (f.discover record w).seen = insert w f.seen := by
  unfold Frontier.discover
  split_ifs with h
  · exact (Finset.insert_eq_of_mem h).symm
  · rfl

theorem discoverAll_seen (ws : List α) (f : Frontier α σ) (v : α) :
    v ∈ (f.discoverAll record ws).seen ↔ v ∈ f.seen ∨ v ∈ ws := by
  unfold Frontier.discoverAll
  induction ws generalizing f with
  | nil => simp
  | cons w ws ih =>
    rw [List.foldl_cons, ih, discover_seen, Finset.mem_insert, List.mem_cons]
    tauto

theorem discoverAll_cons (f : Frontier α σ) (w : α) (ws : List α) :
    f.discoverAll record (w :: ws) = (f.discover record w).discoverAll record ws := rfl

theorem discover_stack (f : Frontier α σ) (w v : α) :
    v ∈ (f.discover record w).stack ↔ v ∈ f.stack ∨ (v = w ∧ w ∉ f.seen) := by
  unfold Frontier.discover
  split_ifs with h
  · simp [h]
  · simp only [List.mem_cons]
    tauto

theorem discoverAll_stack (ws : List α) (f : Frontier α σ) (v : α) :
    v ∈ (f.discoverAll record ws).stack ↔ v ∈ f.stack ∨ (v ∈ ws ∧ v ∉ f.seen) := by
  induction ws generalizing f with
  | nil => simp [Frontier.discoverAll]
  | cons w ws ih =>
    rw [discoverAll_cons, ih, discover_stack, discover_seen, Finset.mem_insert, List.mem_cons]
    by_cases hv : v = w
    · subst hv; tauto
    · tauto

end

/-- What a stack still has to do, relative to a bound `U` on the nodes. -/
def Frontier.load (U : Finset α) (f : Frontier α σ) : Nat :=
  f.stack.length + (U \ f.seen).card

theorem discover_load (record : α → σ → σ) (f : Frontier α σ) {w : α} (hw : w ∈ U) :
    (f.discover record w).load U = f.load U := by
  unfold Frontier.discover
  split_ifs with h
  · rfl
  · have hmem : w ∈ U \ f.seen := Finset.mem_sdiff.mpr ⟨hw, h⟩
    have hcard := Finset.card_erase_of_mem hmem
    have hpos : 0 < (U \ f.seen).card := Finset.card_pos.mpr ⟨w, hmem⟩
    unfold Frontier.load
    rw [Finset.sdiff_insert, hcard, List.length_cons]
    omega

theorem discoverAll_load (record : α → σ → σ) (ws : List α) (f : Frontier α σ)
    (hw : ∀ w ∈ ws, w ∈ U) : (f.discoverAll record ws).load U = f.load U := by
  induction ws generalizing f with
  | nil => rfl
  | cons w ws ih =>
    rw [discoverAll_cons, ih _ fun v hv => hw v (List.mem_cons_of_mem w hv),
      discover_load record f (hw w List.mem_cons_self)]

/-! ## The loop -/

section Loop

variable {next : α → List α} {goal : α → Bool} {record : α → α → σ → σ} {seeds : α → Prop}
  {f : Frontier α σ}

/-- What every state of a search satisfies: pending nodes are seen, seen nodes are reachable from
the seeds, and a seen node that is no longer pending is no goal and has its successors seen. -/
structure Explored (next : α → List α) (goal : α → Bool) (seeds : α → Prop)
    (f : Frontier α σ) : Prop where
  seeds_seen : ∀ s, seeds s → s ∈ f.seen
  stack_seen : ∀ v ∈ f.stack, v ∈ f.seen
  reached : ∀ v ∈ f.seen, ∃ s, seeds s ∧ Reach next s v
  expanded : ∀ v ∈ f.seen, v ∉ f.stack → goal v = false ∧ ∀ w ∈ next v, w ∈ f.seen

/-- One pop that is not a goal keeps `Explored`. -/
theorem Explored.step {seeds : α → Prop} {f : Frontier α σ} (h : Explored next goal seeds f)
    {u : α} {rest : List α} (hs : f.stack = u :: rest) (hg : goal u = false) :
    Explored next goal seeds
      (({ f with stack := rest } : Frontier α σ).discoverAll (record u) (next u)) := by
  have hu : u ∈ f.seen := h.stack_seen u (by rw [hs]; exact List.mem_cons_self)
  refine ⟨fun s hs' => ?_, fun v hv => ?_, fun v hv => ?_, fun v hv hns => ?_⟩
  · exact (discoverAll_seen _ _ _ _).mpr (Or.inl (h.seeds_seen s hs'))
  · rw [discoverAll_seen]
    rcases (discoverAll_stack _ _ _ _).mp hv with hv | ⟨hv, -⟩
    · exact Or.inl (h.stack_seen v (by rw [hs]; exact List.mem_cons_of_mem u hv))
    · exact Or.inr hv
  · rcases (discoverAll_seen _ _ _ _).mp hv with hv | hv
    · exact h.reached v hv
    · obtain ⟨s, hs', hr⟩ := h.reached u hu
      exact ⟨s, hs', hr.tail hv⟩
  · rw [discoverAll_stack, not_or] at hns
    obtain ⟨hrest, hnew⟩ := hns
    have hvs : v ∈ f.seen := by
      rcases (discoverAll_seen _ _ _ _).mp hv with hv | hv
      · exact hv
      · by_contra hc
        exact hnew ⟨hv, hc⟩
    by_cases hvu : v = u
    · subst hvu
      exact ⟨hg, fun w hw => (discoverAll_seen _ _ _ _).mpr (Or.inr hw)⟩
    · have hnot : v ∉ f.stack := by
        rw [hs, List.mem_cons]
        rintro (e | e)
        · exact hvu e
        · exact hrest e
      obtain ⟨h1, h2⟩ := h.expanded v hvs hnot
      exact ⟨h1, fun w hw => (discoverAll_seen _ _ _ _).mpr (Or.inl (h2 w hw))⟩

def start (record : α → σ → σ) (note : σ) (seeds : List α) : Frontier α σ :=
  ({ seen := ∅, stack := [], note := note } : Frontier α σ).discoverAll record seeds

theorem start_explored (r : α → σ → σ) (note : σ) (seeds : List α) :
    Explored next goal (· ∈ seeds) (start r note seeds) := by
  unfold start
  refine ⟨fun s hs => ?_, fun v hv => ?_, fun v hv => ?_, fun v hv hns => ?_⟩
  · exact (discoverAll_seen _ _ _ _).mpr (Or.inr hs)
  · rcases (discoverAll_stack _ _ _ _).mp hv with hv | ⟨hv, -⟩
    · exact absurd hv (List.not_mem_nil)
    · exact (discoverAll_seen _ _ _ _).mpr (Or.inr hv)
  · rcases (discoverAll_seen _ _ _ _).mp hv with hv | hv
    · exact absurd hv (Finset.notMem_empty v)
    · exact ⟨v, hv, Relation.ReflTransGen.refl⟩
  · rw [discoverAll_stack, not_or] at hns
    rcases (discoverAll_seen _ _ _ _).mp hv with hv | hv
    · exact absurd hv (Finset.notMem_empty v)
    · exact absurd ⟨hv, Finset.notMem_empty v⟩ hns.2

theorem start_load (U : Finset α) (r : α → σ → σ) (note : σ) (seeds : List α)
    (hU : ∀ s ∈ seeds, s ∈ U) : (start r note seeds).load U = U.card := by
  unfold start
  rw [discoverAll_load _ _ _ hU]
  simp [Frontier.load]

omit [DecidableEq α] in
theorem Explored.closed (h : Explored next goal seeds f)
    (hs : f.stack = []) {s v : α} (hseed : seeds s) (hr : Reach next s v) :
    v ∈ f.seen ∧ goal v = false := by
  have hmem : v ∈ f.seen := by
    induction hr with
    | refl => exact h.seeds_seen s hseed
    | tail _ hbc ih => exact (h.expanded _ ih (by rw [hs]; exact List.not_mem_nil)).2 _ hbc
  exact ⟨hmem, (h.expanded v hmem (by rw [hs]; exact List.not_mem_nil)).1⟩

theorem drain_explored (hU : ∀ u ∈ U, ∀ w ∈ next u, w ∈ U) :
    ∀ (fuel : Nat) (f : Frontier α σ), Explored next goal seeds f → (∀ v ∈ f.seen, v ∈ U) →
      f.load U < fuel →
      ((drain next goal record fuel f).1 = true ∧
        ∃ s v, seeds s ∧ Reach next s v ∧ goal v = true) ∨
      ((drain next goal record fuel f).1 = false ∧
        (drain next goal record fuel f).2.stack = [] ∧
        Explored next goal seeds (drain next goal record fuel f).2)
  | 0, _, _, _, hl => absurd hl (Nat.not_lt_zero _)
  | fuel + 1, f, h, hsub, hl => by
    unfold drain
    cases hs : f.stack with
    | nil => exact Or.inr ⟨rfl, hs, h⟩
    | cons u rest =>
      have hu : u ∈ f.seen := h.stack_seen u (by rw [hs]; exact List.mem_cons_self)
      simp only
      split_ifs with hg
      · obtain ⟨s, hseed, hr⟩ := h.reached u hu
        exact Or.inl ⟨rfl, s, u, hseed, hr, hg⟩
      · have hnext : ∀ w ∈ next u, w ∈ U := hU u (hsub u hu)
        apply drain_explored hU fuel
        · exact h.step hs (by simpa using hg)
        · intro v hv
          rcases (discoverAll_seen _ _ _ _).mp hv with hv | hv
          · exact hsub v hv
          · exact hnext v hv
        · rw [discoverAll_load _ _ _ hnext]
          unfold Frontier.load at hl ⊢
          rw [hs, List.length_cons] at hl
          simp only
          omega

/-- A finite set the seeds lie in and successors stay in. -/
structure Bounded (next : α → List α) (seeds : List α) (U : Finset α) : Prop where
  seeds : ∀ s ∈ seeds, s ∈ U
  next : ∀ u ∈ U, ∀ w ∈ next u, w ∈ U

variable {seeds : List α} {U : Finset α} {fuel : Nat} (r : α → σ → σ) (note : σ) {fuel : Nat}
  {seeds : List α}

include r note in
theorem drain_start (goal : α → Bool) (record : α → α → σ → σ) (hU : Bounded next seeds U) (hfuel : U.card < fuel) :
    ((drain next goal record fuel (start r note seeds)).1 = true ∧
        ∃ s v, s ∈ seeds ∧ Reach next s v ∧ goal v = true) ∨
      ((drain next goal record fuel (start r note seeds)).1 = false ∧
        (drain next goal record fuel (start r note seeds)).2.stack = [] ∧
        Explored next goal (· ∈ seeds) (drain next goal record fuel (start r note seeds)).2) := by
  apply drain_explored hU.next fuel _ (start_explored r note seeds)
  · intro v hv
    rcases (discoverAll_seen _ _ _ _).mp hv with hv | hv
    · exact absurd hv (Finset.notMem_empty v)
    · exact hU.seeds v hv
  · rw [start_load U r note seeds hU.seeds]
    exact hfuel

/-- **The search stops at a goal iff one is reachable from the seeds.** -/
theorem drain_found_iff (hU : Bounded next seeds U) (hfuel : U.card < fuel) :
    (drain next goal record fuel (start r note seeds)).1 = true ↔
      ∃ s v, s ∈ seeds ∧ Reach next s v ∧ goal v = true := by
  rcases drain_start r note goal record hU hfuel with ⟨h1, h2⟩ | ⟨h1, h2, h3⟩
  · exact ⟨fun _ => h2, fun _ => h1⟩
  · rw [h1]
    refine ⟨fun hc => absurd hc Bool.false_ne_true, ?_⟩
    rintro ⟨s, v, hs, hr, hg⟩
    rw [(h3.closed h2 hs hr).2] at hg
    exact hg

/-- **A search without a goal visits exactly the reachable nodes.** -/
theorem drain_seen_iff (hU : Bounded next seeds U) (hfuel : U.card < fuel)
    (hnone : (drain next goal record fuel (start r note seeds)).1 = false) (v : α) :
    v ∈ (drain next goal record fuel (start r note seeds)).2.seen ↔
      ∃ s, s ∈ seeds ∧ Reach next s v := by
  rcases drain_start r note goal record hU hfuel with ⟨h1, -⟩ | ⟨-, h2, h3⟩
  · rw [h1] at hnone
    exact absurd hnone.symm Bool.false_ne_true
  · exact ⟨h3.reached v, fun ⟨s, hs, hr⟩ => (h3.closed h2 hs hr).1⟩

theorem drain_found_seen : ∀ (fuel : Nat) (f : Frontier α σ), (∀ v ∈ f.stack, v ∈ f.seen) →
    (drain next goal record fuel f).1 = true →
      ∃ u ∈ (drain next goal record fuel f).2.seen, goal u = true
  | 0, _, _, h => absurd h Bool.false_ne_true
  | fuel + 1, f, hst, h => by
    unfold drain at h ⊢
    cases hs : f.stack with
    | nil => rw [hs] at h; exact absurd h Bool.false_ne_true
    | cons u rest =>
      have hu : u ∈ f.seen := hst u (by rw [hs]; exact List.mem_cons_self)
      rw [hs] at h
      simp only at h ⊢
      by_cases hg : goal u = true
      · rw [if_pos hg]
        exact ⟨u, hu, hg⟩
      · rw [if_neg hg] at h ⊢
        refine drain_found_seen fuel _ (fun v hv => ?_) h
        rw [discoverAll_seen]
        rcases (discoverAll_stack _ _ _ _).mp hv with hv | ⟨hv, -⟩
        · exact Or.inl (hst v (by rw [hs]; exact List.mem_cons_of_mem u hv))
        · exact Or.inr hv

theorem drain_never :
    (drain next (fun _ => false) record fuel f).1 = false := by
  induction fuel generalizing f with
  | zero => rfl
  | succ fuel ih =>
    unfold drain
    cases f.stack with
    | nil => rfl
    | cons u rest => simpa using ih

/-! ## Searches without a note -/

def search (next : α → List α) (goal : α → Bool) (fuel : Nat) (seeds : List α) : Bool :=
  (drain next goal (fun _ _ n => n) fuel (start (fun _ n => n) () seeds)).1

def closure (next : α → List α) (fuel : Nat) (seeds : List α) : Finset α :=
  (drain next (fun _ => false) (fun _ _ n => n) fuel (start (fun _ n => n) () seeds)).2.seen

theorem search_iff (hU : Bounded next seeds U)
    (hfuel : U.card < fuel) :
    search next goal fuel seeds = true ↔ ∃ s v, s ∈ seeds ∧ Reach next s v ∧ goal v = true :=
  drain_found_iff _ _ hU hfuel

theorem mem_closure (hU : Bounded next seeds U)
    (hfuel : U.card < fuel) {v : α} :
    v ∈ closure next fuel seeds ↔ ∃ s, s ∈ seeds ∧ Reach next s v :=
  drain_seen_iff _ _ hU hfuel drain_never v

end Loop

/-! ## Invariants of the note -/

/-- A property of the visited set and the note that discovering a successor of a seen node keeps. -/
def Kept (next : α → List α) (record : α → α → σ → σ) (P : Finset α → σ → Prop) : Prop :=
  ∀ S n u w, P S n → u ∈ S → w ∈ next u → w ∉ S → P (insert w S) (record u w n)

theorem discoverAll_kept {record : α → α → σ → σ}
    (hP : Kept next record P) {u : α} :
    ∀ (ws : List α) (f : Frontier α σ), (∀ w ∈ ws, w ∈ next u) → u ∈ f.seen → P f.seen f.note →
      P (f.discoverAll (record u) ws).seen (f.discoverAll (record u) ws).note
  | [], _, _, _, h => h
  | w :: ws, f, hws, hu, h => by
    rw [discoverAll_cons]
    apply discoverAll_kept hP ws _ fun v hv => hws v (List.mem_cons_of_mem w hv)
    · rw [discover_seen]
      exact Finset.mem_insert_of_mem hu
    · unfold Frontier.discover
      split_ifs with hw
      · exact h
      · exact hP f.seen f.note u w h hu (hws w List.mem_cons_self) hw

/-- **An invariant of the note that every discovery keeps holds when the search ends.** -/
theorem drain_note {goal : α → Bool} {record : α → α → σ → σ}
    (hP : Kept next record P) :
    ∀ (fuel : Nat) (f : Frontier α σ), (∀ v ∈ f.stack, v ∈ f.seen) → P f.seen f.note →
      P (drain next goal record fuel f).2.seen (drain next goal record fuel f).2.note
  | 0, _, _, h => h
  | fuel + 1, f, hst, h => by
    unfold drain
    cases hs : f.stack with
    | nil => exact h
    | cons u rest =>
      have hu : u ∈ f.seen := hst u (by rw [hs]; exact List.mem_cons_self)
      simp only
      split_ifs with hg
      · exact h
      · apply drain_note hP fuel
        · intro v hv
          rw [discoverAll_seen]
          rcases (discoverAll_stack _ _ _ _).mp hv with hv | ⟨hv, -⟩
          · exact Or.inl (hst v (by rw [hs]; exact List.mem_cons_of_mem u hv))
          · exact Or.inr hv
        · exact discoverAll_kept hP (next u) _ (fun w hw => hw) hu h

/-! ## Loops that may fail -/

/-- The run lemma of a `for` loop with `?` in its body: a step that succeeds and keeps an invariant
of the elements done and the state carries it through the list. -/
theorem foldlM_inv {β τ E : Type*} {f : τ → β → Except E τ} {I : List β → τ → Prop} :
    ∀ (l done : List β) (s : τ), I done s →
      (∀ pre b post s, done ++ l = pre ++ b :: post → I pre s →
        ∃ s', f s b = .ok s' ∧ I (pre ++ [b]) s') →
      ∃ s', l.foldlM f s = .ok s' ∧ I (done ++ l) s'
  | [], done, s, h, _ => ⟨s, rfl, by rwa [List.append_nil]⟩
  | b :: l, done, s, h, hstep => by
    obtain ⟨s₁, h1, hI⟩ := hstep done b l s rfl h
    obtain ⟨s₂, h2, hI'⟩ := foldlM_inv l (done ++ [b]) s₁ hI fun pre c post s he hs =>
      hstep pre c post s (by rw [← he]; simp) hs
    refine ⟨s₂, ?_, by rwa [List.append_assoc] at hI'⟩
    rw [List.foldlM_cons, h1]
    exact h2

/-- A `for` loop that returns `false` early, over checks that do not fail. -/
theorem allM_ok {β E : Type*} {f : β → Except E Bool} {q : β → Bool} : ∀ {l : List β},
    (∀ b ∈ l, f b = .ok (q b)) → l.allM f = .ok (l.all q)
  | [], _ => rfl
  | b :: l, h => by
    have ih : l.allM f = .ok (l.all q) := allM_ok fun c hc => h c (List.mem_cons_of_mem b hc)
    unfold List.allM
    rw [h b List.mem_cons_self, List.all_cons]
    cases q b with
    | false => rfl
    | true => exact ih

end Antecedent.Worklist
