import Mathlib.Algebra.BigOperators.Group.List.Basic
import Mathlib.Tactic.Abel
import Antecedent.State.Store

/-!
# The cache of local scores

Model of `LocalScoreCache` (`graph_score.rs:99-310`). The scores are a parameter: for each data set the
local score of a node given a list of parents, exact, or the failure to compute it. A fingerprint is
modelled by the data it digests; the Gram matrix and the byte count, which no result depends on, are left
out.

A call works on the cache in place, so it returns the cache it leaves behind with its result.

* **`localScores_exact`**: every sequence of calls keeps the cache sound, and a refused call changes
  neither the assignment nor the total.
-/

namespace Antecedent.State

/-- What `GraphScoreData` and a score family give: the number of variables and the local scores. -/
structure ScoreFamily (δ S : Type) where
  nVars : δ → Nat
  pos : ∀ d, 0 < nVars d
  score : δ → Nat → List Nat → Except StateError S

/-- `t` is the sum of the local scores of `n` nodes under a parent assignment. -/
def TotalOf {S : Type} [AddCommGroup S] (score : Nat → List Nat → Except StateError S) (n : Nat)
    (parents : Nat → List Nat) (t : S) : Prop :=
  ∃ f : Nat → S, (∀ v < n, score v (parents v) = .ok (f v)) ∧ t = ((List.range n).map f).sum

variable {S : Type}

theorem sum_map_update [AddCommGroup S] {l : List Nat} (hl : l.Nodup) {a : Nat}
    (ha : a ∈ l) (f : Nat → S) (x : S) :
    (l.map (Function.update f a x)).sum = (l.map f).sum + (x - f a) := by
  induction l with
  | nil => cases ha
  | cons b l ih =>
    obtain ⟨hb, hl⟩ := List.nodup_cons.mp hl
    rw [List.map_cons, List.map_cons, List.sum_cons, List.sum_cons]
    rcases List.mem_cons.mp ha with rfl | ha
    · have hmap : l.map (Function.update f a x) = l.map f :=
        List.map_congr_left fun v hv => Function.update_of_ne (ne_of_mem_of_not_mem hv hb) ..
      rw [hmap, Function.update_self]
      abel
    · rw [Function.update_of_ne (ne_of_mem_of_not_mem ha hb).symm, ih hl ha, add_assoc]

variable {parents : Nat → List Nat} {node : Nat} {score : Nat → List Nat → Except StateError S}

theorem TotalOf.unique [AddCommGroup S]
    {n : Nat} {s t : S} (hs : TotalOf score n parents s)
    (ht : TotalOf score n parents t) : s = t := by
  obtain ⟨f, hf, rfl⟩ := hs
  obtain ⟨g, hg, rfl⟩ := ht
  have hfg : ∀ v ∈ List.range n, f v = g v := fun v hv =>
    Except.ok.inj ((hf v (List.mem_range.mp hv)).symm.trans (hg v (List.mem_range.mp hv)))
  rw [List.map_congr_left hfg]

theorem TotalOf.update [AddCommGroup S]
    {n : Nat} {t old new : S} {P : List Nat}
    (ht : TotalOf score n parents t) (hn : node < n) (hold : score node (parents node) = .ok old)
    (hnew : score node P = .ok new) :
    TotalOf score n (Function.update parents node P) (t + (new - old)) := by
  obtain ⟨f, hf, rfl⟩ := ht
  have hfn : f node = old := Except.ok.inj ((hf node hn).symm.trans hold)
  refine ⟨Function.update f node new, fun v hv => ?_, ?_⟩
  · by_cases hvn : v = node
    · subst hvn
      rw [Function.update_self, Function.update_self, hnew]
    · rw [Function.update_of_ne hvn, Function.update_of_ne hvn, hf v hv]
  · rw [sum_map_update List.nodup_range (List.mem_range.mpr hn), hfn]

structure LocalScoreCache (δ S : Type) where
  entries : Nat → List Nat → Option S
  parents : Nat → Option (List Nat)
  boundData : Option δ
  runningTotal : Option S

/-- Lines 321-329. -/
def sortedParents (parents : List Nat) (node : Nat) : Except StateError (List Nat) :=
  let v := (parents.insertionSort (· ≤ ·)).dedup
  if node ∈ v then .error (.shape ("node " ++ toString node ++ " cannot be its own parent"))
  else .ok v

namespace LocalScoreCache

variable {δ S : Type} [DecidableEq δ] [AddCommGroup S] (fam : ScoreFamily δ S)
  (c : LocalScoreCache δ S)

def new : LocalScoreCache δ S := ⟨fun _ _ => none, fun _ => none, none, none⟩

def clear (_c : LocalScoreCache δ S) : LocalScoreCache δ S := ⟨fun _ _ => none, fun _ => none, none, none⟩

/-- `bind`: the first data are bound, other data refused. -/
def bind (d : δ) : LocalScoreCache δ S × Except StateError Unit :=
  match c.boundData with
  | none => ({ c with boundData := some d }, .ok ())
  | some bound =>
    if bound = d then (c, .ok ())
    else (c, .error (.staleCache "local scores were computed on different data; call clear() first"))

def parentsOf (node : Nat) : List Nat := (c.parents node).getD []

/-- Lines 284-308. -/
def localScore (d : δ) (node : Nat) (parents : List Nat) : LocalScoreCache δ S × Except StateError S :=
  match c.bind d with
  | (c, .error e) => (c, .error e)
  | (c, .ok ()) =>
    match c.entries node parents with
    | some s => (c, .ok s)
    | none =>
      match fam.score d node parents with
      | .error e => (c, .error e)
      | .ok s =>
        let atNode := Function.update (c.entries node) parents (some s)
        ({ c with entries := Function.update c.entries node atNode }, .ok s)

/-- The sum of `score_graph`, up to the first node whose score fails. -/
def scoreNodes (d : δ) : List Nat → S → LocalScoreCache δ S → LocalScoreCache δ S × Except StateError S
  | [], total, c => (c, .ok total)
  | node :: nodes, total, c =>
    match c.localScore fam d node (c.parentsOf node) with
    | (c, .error e) => (c, .error e)
    | (c, .ok s) => scoreNodes d nodes (total + s) c

/-- Lines 217-228. -/
def scoreGraph (d : δ) : LocalScoreCache δ S × Except StateError S :=
  match scoreNodes fam d (List.range (fam.nVars d)) 0 c with
  | (c, .error e) => (c, .error e)
  | (c, .ok total) => ({ c with runningTotal := some total }, .ok total)

/-- The total before a change: the running one, or that of the whole graph. -/
def oldTotal (d : δ) : LocalScoreCache δ S × Except StateError S :=
  match c.runningTotal with
  | some total => (c, .ok total)
  | none => c.scoreGraph fam d

/-- Lines 239-266. -/
def deltaScore (d : δ) (node : Nat) (parents : List Nat) :
    LocalScoreCache δ S × Except StateError (S × S) :=
  if node ≥ fam.nVars d then (c, .error (.shape ("node " ++ toString node ++ " out of range")))
  else
    match sortedParents parents node with
    | .error e => (c, .error e)
    | .ok sorted =>
      match c.localScore fam d node (c.parentsOf node) with
      | (c, .error e) => (c, .error e)
      | (c, .ok oldLocal) =>
        match c.localScore fam d node sorted with
        | (c, .error e) => (c, .error e)
        | (c, .ok newLocal) =>
          match c.oldTotal fam d with
          | (c, .error e) => (c, .error e)
          | (c, .ok oldTotal) =>
            let delta := newLocal - oldLocal
            let newTotal := oldTotal + delta
            ({ c with
              parents := Function.update c.parents node (some sorted)
              runningTotal := some newTotal }, .ok (delta, newTotal))

/-! ## Calls -/

/-- The calls on a cache. -/
inductive Call (δ : Type)
  | localScore (d : δ) (node : Nat) (parents : List Nat)
  | scoreGraph (d : δ)
  | deltaScore (d : δ) (node : Nat) (parents : List Nat)
  | clear

def call : Call δ → LocalScoreCache δ S × Except StateError Unit
  | .localScore d node parents =>
    ((c.localScore fam d node parents).1, (c.localScore fam d node parents).2.map fun _ => ())
  | .scoreGraph d => ((c.scoreGraph fam d).1, (c.scoreGraph fam d).2.map fun _ => ())
  | .deltaScore d node parents =>
    ((c.deltaScore fam d node parents).1, (c.deltaScore fam d node parents).2.map fun _ => ())
  | .clear => (c.clear, .ok ())

def run (calls : List (Call δ)) : LocalScoreCache δ S := calls.foldl (fun c k => (c.call fam k).1) c

/-! ## Soundness -/

/-- Cached scores are scores of the bound data, and the running total is the sum of the local scores
under the current parent assignment. -/
structure Sound (c : LocalScoreCache δ S) : Prop where
  entries : ∀ v P s, c.entries v P = some s → ∃ d, c.boundData = some d ∧ fam.score d v P = .ok s
  total : ∀ t, c.runningTotal = some t → ∃ d, c.boundData = some d ∧ TotalOf (fam.score d) (fam.nVars d) c.parentsOf t

def SameTotals (c c' : LocalScoreCache δ S) : Prop :=
  c'.parents = c.parents ∧ c'.runningTotal = c.runningTotal

variable {fam c} {c' : LocalScoreCache δ S} {d : δ}

omit [DecidableEq δ] [AddCommGroup S] in
theorem SameTotals.refl : SameTotals c c := ⟨rfl, rfl⟩

omit [DecidableEq δ] [AddCommGroup S] in
theorem SameTotals.trans {c'' : LocalScoreCache δ S} (h : SameTotals c c') (h' : SameTotals c' c'') :
    SameTotals c c'' := ⟨h'.1.trans h.1, h'.2.trans h.2⟩

omit [DecidableEq δ] in
theorem sound_new : Sound fam (new : LocalScoreCache δ S) where
  entries v P s h := by cases h
  total t h := by cases h

theorem bind_spec (hs : Sound fam c) (d : δ) : SameTotals c (c.bind d).1 ∧ Sound fam (c.bind d).1 ∧
    ((c.bind d).2 = .ok () → (c.bind d).1.boundData = some d) := by
  unfold bind
  cases hb : c.boundData with
  | none =>
    refine ⟨.refl, ⟨fun v P s h => ?_, fun t h => ?_⟩, fun _ => rfl⟩
    · obtain ⟨d', hd', -⟩ := hs.entries v P s h
      rw [hb] at hd'
      cases hd'
    · obtain ⟨d', hd', -⟩ := hs.total t h
      rw [hb] at hd'
      cases hd'
  | some bound =>
    by_cases hd : bound = d
    · subst hd
      simp only [if_true]
      exact ⟨.refl, hs, fun _ => hb⟩
    · simp only [if_neg hd]
      exact ⟨.refl, hs, fun h => by cases h⟩

/-- **A local score** changes neither the assignment nor the total, and is that of the bound data. -/
theorem localScore_spec (hs : Sound fam c) (d : δ) (node : Nat) (P : List Nat) :
    SameTotals c (c.localScore fam d node P).1 ∧ Sound fam (c.localScore fam d node P).1 ∧
    ∀ s, (c.localScore fam d node P).2 = .ok s →
      (c.localScore fam d node P).1.boundData = some d ∧ fam.score d node P = .ok s := by
  obtain ⟨hsame, hsound, hbound⟩ := bind_spec hs d
  unfold localScore
  rcases hc : c.bind d with ⟨c₁, r⟩
  rw [hc] at hsame hsound hbound
  cases r with
  | error e => exact ⟨hsame, hsound, fun s h => by cases h⟩
  | ok _ =>
    have hb := hbound rfl
    simp only
    cases he : c₁.entries node P with
    | some s =>
      refine ⟨hsame, hsound, fun s' h => ⟨hb, ?_⟩⟩
      obtain ⟨d', hd', hscore⟩ := hsound.entries node P s he
      obtain rfl := Option.some.inj (hd'.symm.trans hb)
      rw [hscore]
      exact h
    | none =>
      cases hscore : fam.score d node P with
      | error e => exact ⟨hsame, hsound, fun s h => by cases h⟩
      | ok s =>
        refine ⟨hsame, ⟨fun v Q t h => ?_, hsound.total⟩, fun s' h => ⟨hb, h⟩⟩
        simp only at h
        by_cases hv : v = node
        · subst hv
          rw [Function.update_self] at h
          by_cases hQ : Q = P
          · subst hQ
            rw [Function.update_self] at h
            exact ⟨d, hb, hscore.trans (congrArg _ (Option.some.inj h))⟩
          · rw [Function.update_of_ne hQ] at h
            exact hsound.entries v Q t h
        · rw [Function.update_of_ne hv] at h
          exact hsound.entries v Q t h

theorem scoreNodes_spec (d : δ) : ∀ (nodes : List Nat) (total : S) {c : LocalScoreCache δ S},
    Sound fam c → SameTotals c (scoreNodes fam d nodes total c).1 ∧
    Sound fam (scoreNodes fam d nodes total c).1 ∧
    ∀ t, (scoreNodes fam d nodes total c).2 = .ok t →
      (nodes ≠ [] → (scoreNodes fam d nodes total c).1.boundData = some d) ∧
      ∃ f : Nat → S, (∀ v ∈ nodes, fam.score d v (c.parentsOf v) = .ok (f v)) ∧
        t = total + (nodes.map f).sum
  | [], total, c, hs => ⟨.refl, hs, fun t h => ⟨fun hne => absurd rfl hne, fun _ => 0, by simp, by
      simpa using (Except.ok.inj h).symm⟩⟩
  | node :: nodes, total, c, hs => by
    obtain ⟨hsame, hsound, hscore⟩ := localScore_spec hs d node (c.parentsOf node)
    unfold scoreNodes
    rcases hc : c.localScore fam d node (c.parentsOf node) with ⟨c₁, r⟩
    rw [hc] at hsame hsound hscore
    cases r with
    | error e => exact ⟨hsame, hsound, fun t h => by cases h⟩
    | ok s =>
      obtain ⟨hb, hs'⟩ := hscore s rfl
      obtain ⟨hsame', hsound', hrest⟩ := scoreNodes_spec d nodes (total + s) hsound
      refine ⟨hsame.trans hsame', hsound', fun t h => ?_⟩
      obtain ⟨hb', f, hf, ht⟩ := hrest t h
      have hpar : c₁.parentsOf = c.parentsOf := by
        funext v
        rw [parentsOf, parentsOf, hsame.1]
      -- the score of a node that comes again is the one it had
      have hfn : ∀ v ∈ node :: nodes, ∃ x, fam.score d v (c.parentsOf v) = .ok x := fun v hv => by
        rcases List.mem_cons.mp hv with rfl | hv
        · exact ⟨s, hs'⟩
        · exact ⟨f v, hpar ▸ hf v hv⟩
      have hnode : node ∈ nodes → f node = s := fun hm => by
        have := (hf node hm).symm.trans ((congrArg (fam.score d node) (congrFun hpar node)).trans hs')
        exact Except.ok.inj this
      refine ⟨fun _ => ?_, Function.update f node s, fun v hv => ?_, ?_⟩
      · by_cases hne : nodes = []
        · subst hne
          exact hb
        · exact hb' hne
      · by_cases hvn : v = node
        · subst hvn
          rw [Function.update_self, hs']
        · rw [Function.update_of_ne hvn]
          exact hpar ▸ hf v (List.mem_of_ne_of_mem hvn hv)
      · have hmap : nodes.map (Function.update f node s) = nodes.map f := by
          refine List.map_congr_left fun v hv => ?_
          by_cases hvn : v = node
          · subst hvn
            rw [Function.update_self, hnode hv]
          · rw [Function.update_of_ne hvn]
        rw [List.map_cons, List.sum_cons, Function.update_self, hmap, ht, add_assoc]

/-- **The whole graph**: a refusal changes neither, and the total is recorded otherwise. -/
theorem scoreGraph_spec (hs : Sound fam c) (d : δ) : Sound fam (c.scoreGraph fam d).1 ∧
    (c.scoreGraph fam d).1.parents = c.parents ∧
    (∀ e, (c.scoreGraph fam d).2 = .error e → SameTotals c (c.scoreGraph fam d).1) ∧
    ∀ t, (c.scoreGraph fam d).2 = .ok t → (c.scoreGraph fam d).1.boundData = some d ∧
      (c.scoreGraph fam d).1.runningTotal = some t ∧ TotalOf (fam.score d) (fam.nVars d) c.parentsOf t := by
  obtain ⟨hsame, hsound, hrest⟩ := scoreNodes_spec d (List.range (fam.nVars d)) 0 hs
  unfold scoreGraph
  rcases hc : scoreNodes fam d (List.range (fam.nVars d)) 0 c with ⟨c₁, r⟩
  rw [hc] at hsame hsound hrest
  cases r with
  | error e => exact ⟨hsound, hsame.1, fun _ _ => hsame, fun t h => by cases h⟩
  | ok t =>
    obtain ⟨hb, f, hf, ht⟩ := hrest t rfl
    have hne : List.range (fam.nVars d) ≠ [] := by
      have := fam.pos d
      rw [ne_eq, List.range_eq_nil]
      omega
    have htotal : TotalOf (fam.score d) (fam.nVars d) c.parentsOf t := by
      refine ⟨f, fun v hv => hf v (List.mem_range.mpr hv), ?_⟩
      rw [ht, zero_add]
    have hpar : c₁.parentsOf = c.parentsOf := by
      funext v
      rw [parentsOf, parentsOf, hsame.1]
    refine ⟨⟨hsound.entries, fun t' h => ⟨d, hb hne, ?_⟩⟩, hsame.1, fun e h => ?_, fun t' h => ?_⟩
    · obtain rfl := Option.some.inj h
      show TotalOf (fam.score d) (fam.nVars d) c₁.parentsOf t
      rwa [hpar]
    · cases h
    · obtain rfl := Except.ok.inj h
      exact ⟨hb hne, rfl, htotal⟩

/-- **The old total** is one of the current assignment. -/
theorem oldTotal_spec (hs : Sound fam c) (d : δ) (hb : c.boundData = some d) :
    Sound fam (c.oldTotal fam d).1 ∧ (c.oldTotal fam d).1.parents = c.parents ∧
    (∀ e, (c.oldTotal fam d).2 = .error e → SameTotals c (c.oldTotal fam d).1) ∧
    ∀ t, (c.oldTotal fam d).2 = .ok t → (c.oldTotal fam d).1.boundData = some d ∧
      TotalOf (fam.score d) (fam.nVars d) c.parentsOf t := by
  unfold oldTotal
  cases ht : c.runningTotal with
  | some t =>
    refine ⟨hs, rfl, fun e h => ?_, fun t' h => ⟨hb, ?_⟩⟩
    · cases h
    obtain rfl := Except.ok.inj h
    obtain ⟨d', hd', htotal⟩ := hs.total _ ht
    obtain rfl := Option.some.inj (hd'.symm.trans hb)
    exact htotal
  | none =>
    obtain ⟨hsound, hpar, herr, hok⟩ := scoreGraph_spec hs d
    exact ⟨hsound, hpar, herr, fun t h => ⟨(hok t h).1, (hok t h).2.2⟩⟩

omit [DecidableEq δ] [AddCommGroup S] in
theorem parentsOf_update {P : Nat → Option (List Nat)} {Q : List Nat}
    (h : c.parents = Function.update P node (some Q)) :
    c.parentsOf = Function.update (fun v => (P v).getD []) node Q := by
  funext v
  rw [parentsOf, h]
  by_cases hv : v = node
  · subst hv
    rw [Function.update_self, Function.update_self, Option.getD_some]
  · rw [Function.update_of_ne hv, Function.update_of_ne hv]

/-- **A change of one parent set** keeps the cache sound, and changes nothing when it is refused. -/
theorem deltaScore_spec (hs : Sound fam c) (d : δ) (node : Nat) (P : List Nat) :
    Sound fam (c.deltaScore fam d node P).1 ∧
    ∀ e, (c.deltaScore fam d node P).2 = .error e →
      (c.deltaScore fam d node P).1.parents = c.parents ∧
      ((c.deltaScore fam d node P).1.runningTotal = c.runningTotal) := by
  unfold deltaScore
  split
  · exact ⟨hs, fun _ _ => ⟨rfl, rfl⟩⟩
  rename_i hn
  cases hsorted : sortedParents P node with
  | error e => exact ⟨hs, fun _ _ => ⟨rfl, rfl⟩⟩
  | ok sorted =>
    obtain ⟨hsame₁, hsound₁, hscore₁⟩ := localScore_spec hs d node (c.parentsOf node)
    simp only
    rcases hc₁ : c.localScore fam d node (c.parentsOf node) with ⟨c₁, r₁⟩
    rw [hc₁] at hsame₁ hsound₁ hscore₁
    cases r₁ with
    | error e => exact ⟨hsound₁, fun _ _ => hsame₁⟩
    | ok oldLocal =>
      obtain ⟨-, hold⟩ := hscore₁ oldLocal rfl
      obtain ⟨hsame₂, hsound₂, hscore₂⟩ := localScore_spec hsound₁ d node sorted
      simp only
      rcases hc₂ : c₁.localScore fam d node sorted with ⟨c₂, r₂⟩
      rw [hc₂] at hsame₂ hsound₂ hscore₂
      cases r₂ with
      | error e => exact ⟨hsound₂, fun _ _ => hsame₁.trans hsame₂⟩
      | ok newLocal =>
        obtain ⟨hb₂, hnew⟩ := hscore₂ newLocal rfl
        obtain ⟨hsound₃, hpar₃, herr₃, hok₃⟩ := oldTotal_spec hsound₂ d hb₂
        simp only
        rcases hc₃ : c₂.oldTotal fam d with ⟨c₃, r₃⟩
        rw [hc₃] at hsound₃ hpar₃ herr₃ hok₃
        have hpar₂ := (hsame₁.trans hsame₂).1
        cases r₃ with
        | error e => exact ⟨hsound₃, fun _ _ => (hsame₁.trans hsame₂).trans (herr₃ e rfl)⟩
        | ok t =>
          obtain ⟨hb₃, ht⟩ := hok₃ t rfl
          refine ⟨⟨hsound₃.entries, fun t' h => ⟨d, hb₃, ?_⟩⟩, fun e h => by cases h⟩
          obtain rfl := Option.some.inj h
          rw [parentsOf_update rfl]
          have hpar : c₂.parentsOf = fun v => (c₃.parents v).getD [] := by
            funext v
            rw [parentsOf, hpar₃]
          have holdPar : fam.score d node (c₂.parentsOf node) = .ok oldLocal := by
            rw [parentsOf, hpar₂]
            exact hold
          have := ht.update (Nat.lt_of_not_le hn) holdPar hnew
          rwa [hpar] at this

/-- **One call** keeps the cache sound; a refused one changes neither the assignment nor the total. -/
theorem call_spec (hs : Sound fam c) (k : Call δ) : Sound fam (c.call fam k).1 ∧
    ∀ e, (c.call fam k).2 = .error e → (c.call fam k).1.parents = c.parents ∧
      (c.call fam k).1.runningTotal = c.runningTotal := by
  cases k with
  | localScore d node P =>
    obtain ⟨hsame, hsound, -⟩ := localScore_spec hs d node P
    exact ⟨hsound, fun _ _ => hsame⟩
  | scoreGraph d =>
    obtain ⟨hsound, -, herr, -⟩ := scoreGraph_spec hs d
    exact ⟨hsound, fun e h => by
      simp only [call] at h
      cases hr : (c.scoreGraph fam d).2 with
      | error e' => exact herr e' hr
      | ok t => rw [hr] at h; cases h⟩
  | deltaScore d node P =>
    obtain ⟨hsound, herr⟩ := deltaScore_spec hs d node P
    exact ⟨hsound, fun e h => by
      simp only [call] at h
      cases hr : (c.deltaScore fam d node P).2 with
      | error e' => exact herr e' hr
      | ok t => rw [hr] at h; cases h⟩
  | clear => exact ⟨sound_new, fun e h => by cases h⟩

/-- **A whole run.** -/
theorem run_sound (hs : Sound fam c) (calls : List (Call δ)) : Sound fam (c.run fam calls) := by
  induction calls generalizing c with
  | nil => exact hs
  | cons k calls ih => exact ih (call_spec hs k).1

end LocalScoreCache

end Antecedent.State
