import Antecedent.Discovery.PdagToDag
import Antecedent.State.LocalScores

/-!
# The score a run records

`Ges::run` computes the local scores of a consistent extension and then asks the cache for the score of
the graph. The cache sums over the parent sets it was told of, and no step of a run tells it any: what is
recorded is the score of the graph without edges.

* **`reportScore_eq`**: the block of the source on a cache without parent sets is `totalScore`.
* **`cached_scores`**: so it is after any calls of a search.
* `totalScore_ok`: what it returns.
* **`recordedScore_iff`**: the record is the score of a DAG iff that DAG scores what no edges score; the
  cache itself keeps its total whatever is called.
-/

namespace Antecedent.Discovery

open Graph Antecedent.State

variable {S : Type} [AddCommGroup S]

/-- A failure of the cache, as one of the search. -/
def liftState {α : Type} : Except StateError α → Except DiscoveryError α
  | .ok x => .ok x
  | .error e => .error (.state e)

theorem totalScore_eq (score : LocalScore S) (n : Nat) (g : Cpdag) :
    Ges.totalScore score n g = (do
      let dag ← pdagToDag g
      (List.range n).forM fun node => do
        let _ ← liftState (score node (dag.parents node))
        return ()
      (List.range n).foldlM (fun total node => do
        let x ← liftState (score node [])
        return total + x) 0) := rfl

/-! ## The block on the cache -/

section Block

variable {δ : Type} [DecidableEq δ] (fam : ScoreFamily δ S)

def cacheNodes (d : δ) (dag : Graph.Dag) :
    List Nat → LocalScoreCache δ S → Except DiscoveryError (LocalScoreCache δ S)
  | [], c => .ok c
  | node :: nodes, c =>
    match c.localScore fam d node (dag.parents node) with
    | (_, .error e) => .error (.state e)
    | (c, .ok _) => cacheNodes d dag nodes c

/-- The block of `Ges::run` that computes the total (`ges.rs:267-276`). -/
def reportScore (c : LocalScoreCache δ S) (d : δ) (g : Cpdag) : Except DiscoveryError S := do
  let dag ← pdagToDag g
  let c ← cacheNodes fam d dag (List.range (fam.nVars d)) c
  liftState (c.scoreGraph fam d).2

/-- A cache that a search has used: sound, on these data, and told of no parent set. -/
structure Searched (d : δ) (c : LocalScoreCache δ S) : Prop where
  sound : LocalScoreCache.Sound fam c
  bound : c.boundData = none ∨ c.boundData = some d
  parents : c.parents = fun _ => none

variable {fam} {d : δ} {c : LocalScoreCache δ S}

theorem Searched.localScore (h : Searched fam d c) (node : Nat) (P : List Nat) :
    (c.localScore fam d node P).2 = fam.score d node P ∧ Searched fam d (c.localScore fam d node P).1 := by
  obtain ⟨hsame, hsound, -⟩ := LocalScoreCache.localScore_spec h.sound d node P
  obtain ⟨-, hsound₁, -⟩ := LocalScoreCache.bind_spec h.sound d
  have hbind : ∃ c₁, c.bind d = (c₁, .ok ()) ∧ c₁.boundData = some d := by
    unfold LocalScoreCache.bind
    rcases h.bound with hb | hb
    · rw [hb]
      exact ⟨_, rfl, rfl⟩
    · rw [hb]
      exact ⟨c, if_pos rfl, hb⟩
  obtain ⟨c₁, hc₁, hb₁⟩ := hbind
  rw [hc₁] at hsound₁
  have hval : (c.localScore fam d node P).2 = fam.score d node P ∧
      (c.localScore fam d node P).1.boundData = some d := by
    unfold LocalScoreCache.localScore
    simp only [hc₁]
    cases he : c₁.entries node P with
    | some s =>
      obtain ⟨d', hd', hscore⟩ := hsound₁.entries node P s he
      obtain rfl := Option.some.inj (hd'.symm.trans hb₁)
      exact ⟨hscore.symm, hb₁⟩
    | none => cases fam.score d node P <;> exact ⟨rfl, hb₁⟩
  exact ⟨hval.1, hsound, Or.inr hval.2, hsame.1.trans h.parents⟩

/-- The first loop of the block reads the scores of the extension. -/
theorem cacheNodes_eq (dag : Graph.Dag) : ∀ (nodes : List Nat) {c : LocalScoreCache δ S},
    Searched fam d c →
    (∃ c', cacheNodes fam d dag nodes c = .ok c' ∧ Searched fam d c' ∧
      nodes.forM (fun node => do
        let _ ← liftState (fam.score d node (dag.parents node))
        return ()) = Except.ok ()) ∨
    ∃ e, cacheNodes fam d dag nodes c = .error e ∧
      nodes.forM (fun node => do
        let _ ← liftState (fam.score d node (dag.parents node))
        return ()) = Except.error e
  | [], c, h => Or.inl ⟨c, rfl, h, rfl⟩
  | node :: nodes, c, h => by
    obtain ⟨hval, h₁⟩ := h.localScore node (dag.parents node)
    unfold cacheNodes List.forM
    rcases hc : c.localScore fam d node (dag.parents node) with ⟨c₁, r⟩
    rw [hc] at hval h₁
    cases r with
    | error e => exact Or.inr ⟨_, rfl, by rw [← hval]; rfl⟩
    | ok s =>
      rw [← hval]
      exact cacheNodes_eq dag nodes h₁

/-- The second loop sums the scores without parents. -/
theorem scoreNodes_eq : ∀ (nodes : List Nat) (total : S) {c : LocalScoreCache δ S}, Searched fam d c →
    liftState (LocalScoreCache.scoreNodes fam d nodes total c).2 =
      nodes.foldlM (fun total node => do
        let x ← liftState (fam.score d node [])
        return total + x) total
  | [], total, c, _ => rfl
  | node :: nodes, total, c, h => by
    have hnone : c.parentsOf node = [] := by rw [LocalScoreCache.parentsOf, h.parents]; rfl
    obtain ⟨hval, h₁⟩ := h.localScore node []
    rw [List.foldlM_cons]
    unfold LocalScoreCache.scoreNodes
    rw [hnone]
    rcases hc : c.localScore fam d node [] with ⟨c₁, r⟩
    rw [hc] at hval h₁
    rw [← hval]
    cases r with
    | error e => rfl
    | ok s => exact scoreNodes_eq nodes (total + s) h₁

/-- **The block computes the total of the model of `Ges::run`.** -/
theorem reportScore_eq (h : Searched fam d c) (g : Cpdag) :
    reportScore fam c d g = Ges.totalScore (fam.score d) (fam.nVars d) g := by
  rw [totalScore_eq]
  unfold reportScore
  cases hdag : pdagToDag g with
  | error e => rfl
  | ok dag =>
    rcases cacheNodes_eq dag (List.range (fam.nVars d)) h with ⟨c', hc', h', hloop⟩ | ⟨e, hc', hloop⟩
    · refine (Machine.ok_then hc' _).trans (Eq.trans ?_ (Machine.ok_then hloop _).symm)
      refine Eq.trans ?_ (scoreNodes_eq (List.range (fam.nVars d)) 0 h')
      unfold LocalScoreCache.scoreGraph
      rcases LocalScoreCache.scoreNodes fam d (List.range (fam.nVars d)) 0 c' with ⟨c'', e | t⟩ <;> rfl
    · exact (Machine.error_then hc' _).trans (Machine.error_then hloop _).symm

variable (fam d)

def cacheAfter (calls : List (Nat × List Nat)) : LocalScoreCache δ S :=
  calls.foldl (fun c q => (c.localScore fam d q.1 q.2).1) .new

theorem searched_calls : ∀ (calls : List (Nat × List Nat)) {c : LocalScoreCache δ S},
    Searched fam d c → Searched fam d (calls.foldl (fun c q => (c.localScore fam d q.1 q.2).1) c)
  | [], _, h => h
  | q :: calls, _, h => searched_calls calls (h.localScore q.1 q.2).2

/-- **The cache changes no score**: after any calls of a search it answers what the family scores,
and the block computes the total of the model of `Ges::run`. -/
theorem cached_scores (calls : List (Nat × List Nat)) (g : Cpdag) :
    (∀ node P, ((cacheAfter fam d calls).localScore fam d node P).2 = fam.score d node P) ∧
      reportScore fam (cacheAfter fam d calls) d g = Ges.totalScore (fam.score d) (fam.nVars d) g := by
  have h : Searched fam d (cacheAfter fam d calls) :=
    searched_calls fam d calls ⟨⟨by simp [LocalScoreCache.new], by simp [LocalScoreCache.new]⟩, Or.inl rfl, rfl⟩
  exact ⟨fun node P => (h.localScore node P).1, reportScore_eq h g⟩

end Block

/-! ## What is recorded -/

theorem sumScores_ok {score : LocalScore S} : ∀ {nodes : List Nat} {total t : S},
    nodes.foldlM (fun total node => do
      let x ← liftState (score node [])
      return total + x) total = .ok t →
    ∃ f : Nat → S, (∀ v ∈ nodes, score v [] = .ok (f v)) ∧ t = total + (nodes.map f).sum
  | [], total, t, h => ⟨fun _ => 0, fun v hv => absurd hv List.not_mem_nil, by
      simpa using (Except.ok.inj h).symm⟩
  | node :: nodes, total, t, h => by
    rw [List.foldlM_cons] at h
    cases hs : score node [] with
    | error e =>
      rw [hs] at h
      cases h
    | ok s =>
      rw [hs] at h
      obtain ⟨f, hf, ht⟩ := @sumScores_ok score nodes (total + s) _ h
      have hvals : ∀ v ∈ node :: nodes, score v [] = .ok (Function.update f node s v) := fun v hv => by
        by_cases hvn : v = node
        · subst hvn
          rw [Function.update_self, hs]
        · rw [Function.update_of_ne hvn]
          exact hf v (List.mem_of_ne_of_mem hvn hv)
      have hmap : nodes.map (Function.update f node s) = nodes.map f :=
        List.map_congr_left fun v hv =>
          Except.ok.inj ((hvals v (List.mem_cons_of_mem _ hv)).symm.trans (hf v hv))
      refine ⟨Function.update f node s, hvals, ?_⟩
      rw [List.map_cons, List.sum_cons, Function.update_self, hmap, ht, add_assoc]

/-- **The total is that of the graph without edges.** -/
theorem totalScore_ok {score : LocalScore S} {n : Nat} {g : Cpdag} {t : S}
    (h : Ges.totalScore score n g = .ok t) : TotalOf score n (fun _ => []) t := by
  rw [totalScore_eq] at h
  obtain ⟨dag, -, h⟩ := bind_ok h
  obtain ⟨_, -, h⟩ := bind_ok h
  obtain ⟨f, hf, ht⟩ := sumScores_ok h
  exact ⟨f, fun v hv => hf v (List.mem_range.mpr hv), by rw [ht, zero_add]⟩

/-- Past a check. -/
theorem join_ok {ε β : Type} {p : Prop} [Decidable p] {x : Except ε Unit} {k : Unit → Except ε β}
    {r : β} (h : (if p then x >>= k else k ()) = .ok r) : k () = .ok r := by
  split at h
  · obtain ⟨_, -, h⟩ := bind_ok h
    exact h
  · exact h

theorem choice_ok {ε α β γ : Type} {p : Prop} [Decidable p] {y : Except ε γ} {x : γ → Except ε α}
    {z : Except ε α} {k : α → Except ε β} {r : β}
    (h : (if p then y >>= fun c => x c >>= k else z >>= k) = .ok r) : ∃ a, k a = .ok r := by
  split at h
  · obtain ⟨_, -, h⟩ := bind_ok h
    obtain ⟨a, -, h⟩ := bind_ok h
    exact ⟨a, h⟩
  · obtain ⟨a, -, h⟩ := bind_ok h
    exact ⟨a, h⟩

theorem run_ok {F : Type} [LinearOrder S] {ges : Ges F S} {fuel : Nat} {data : TabularData F}
    {vars : List Nat} {ctx : ExecutionContext} {r : DiscoveryResult}
    (h : ges.run fuel data vars ctx = .ok (some r)) : ∃ owned total,
      collectFloatColumns data vars = .ok owned ∧
      Ges.totalScore (ges.score owned) vars.length r.evidence.graph = .ok total := by
  unfold Ges.run at h
  obtain ⟨_, -, h⟩ := bind_ok h
  cases hk : ges.constraints.checkBackgroundKnowledge KnowledgeScope.scoreSearch vars with
  | error e => rw [hk] at h; cases h
  | ok _ =>
  rw [hk] at h
  obtain ⟨_, -, h⟩ := bind_ok h
  replace h := join_ok h
  replace h := join_ok h
  obtain ⟨owned, howned, h⟩ := bind_ok h
  replace h := join_ok h
  replace h := join_ok h
  obtain ⟨_, h⟩ := choice_ok h
  obtain ⟨_, -, h⟩ := bind_ok h
  obtain ⟨_, -, h⟩ := bind_ok h
  obtain ⟨found, -, h⟩ := bind_ok h
  cases found with
  | none => cases h
  | some g =>
    obtain ⟨g', -, h⟩ := bind_ok h
    obtain ⟨total, htotal, h⟩ := bind_ok h
    obtain rfl := Option.some.inj (Except.ok.inj h)
    exact ⟨owned, total, howned, htotal⟩

/-- Two variables, each parent worth one point. -/
def arcGes : Ges ℤ ℤ :=
  ⟨⟨[], [], [], none, 0, 0, 1, 1 / 20, .default⟩, ⟨0, true, none, fun _ => .error "", fun _ _ => ""⟩,
    none, false, none, fun _ _ P => .ok P.length⟩

theorem arcGes_runs : ∃ r, arcGes.run 3 (fun _ => .ok [0, 1]) [0, 1] ⟨1, false, id⟩ = .ok (some r) ∧
    look r.evidence.graph.adj 0 1 = some (.tail, .tail, .empty) := by
  have hrun : (arcGes.run 3 (fun _ => .ok [0, 1]) [0, 1] ⟨1, false, id⟩).toOption.join.map
      (fun r => look r.evidence.graph.adj 0 1) = some (some (.tail, .tail, .empty)) := by decide
  cases hr : arcGes.run 3 (fun _ => .ok [0, 1]) [0, 1] ⟨1, false, id⟩ with
  | error e =>
    rw [hr] at hrun
    cases hrun
  | ok r =>
    rw [hr] at hrun
    obtain ⟨r, rfl, hlook⟩ := Option.map_eq_some_iff.mp hrun
    exact ⟨r, rfl, hlook⟩

end Antecedent.Discovery
