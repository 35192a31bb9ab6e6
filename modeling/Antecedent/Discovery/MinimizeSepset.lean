import Mathlib.Data.Set.Lattice
import Antecedent.Discovery.Skeleton
import Antecedent.Mixed.Ancestral

/-!
# Minimizing a separating set

Model of `StaticCiRun::minimize_sepset` (`static_skeleton.rs:222-242`). The list `s` and the index `i` of
the source are kept as the elements before the index, which the loop has kept, and those from it on.

Separation is monotone among the ancestors of the two nodes and nowhere else: an element that is no
ancestor can open a collider, and an earlier element kept only because of it stays when it is dropped.

* `minimizeLoop_spec`: what the loop returns separates.
* **`minimizeSepset_minimal`**: no proper subset does, if no element is kept that only an element outside
  the ancestors made necessary.
-/

namespace Antecedent.Discovery

open Mixed Relation

/-- `StaticCiRun`; the count of the tests is left out. -/
structure StaticCiRun where
  input : StaticSkeletonInput
  alpha : ℚ

namespace StaticCiRun

variable (run : StaticCiRun)

def pValue (x y : Nat) (z : List Nat) : Except DiscoveryError ℚ := do
  let (_, p) ← staticCiTest run.input x y z
  return p

/-- The loop of `minimize_sepset`. -/
def minimizeLoop (x y : Nat) : List Nat → List Nat → Except DiscoveryError (List Nat)
  | kept, [] => .ok kept
  | kept, v :: rest => do
    let p ← run.pValue x y (kept ++ rest)
    if p > run.alpha then minimizeLoop x y kept rest else minimizeLoop x y (kept ++ [v]) rest

/-- Lines 222-242. -/
def minimizeSepset (x y : Nat) (z : List Nat) : Except DiscoveryError (List Nat) :=
  run.minimizeLoop x y [] z

end StaticCiRun

/-! ## Separating sets -/

section Separation

variable {V : Type} {G : MixedGraph V} {x y : V}

def MinimalSeparator (G : MixedGraph V) (x y : V) (Z : Set V) : Prop :=
  ¬ G.MConnecting Z x y ∧ ∀ S, S ⊂ Z → G.MConnecting S x y

/-- **A separator whose elements are all needed among the ancestors is minimal.** -/
theorem minimalSeparator_of_needed (hac : G.Acyclic) {Z : Set V} (hx : x ∉ Z) (hy : y ∉ Z)
    (hsep : ¬ G.MConnecting Z x y)
    (hneed : ∀ v ∈ Z, G.MConnecting (G.AncSet {x, y} ∩ (Z \ {v})) x y) : MinimalSeparator G x y Z := by
  refine ⟨hsep, fun S hS => ?_⟩
  by_contra hno
  obtain ⟨hsub, hne⟩ := hS
  obtain ⟨v, hv, hvS⟩ := Set.not_subset.mp hne
  have hSv : S ⊆ Z \ {v} := fun w hw => ⟨hsub hw, fun e => hvS (e ▸ hw)⟩
  -- the ancestors in a larger set separate at least as well
  have hanc := MixedGraph.mSeparated_ancestral hSv
    ((MixedGraph.mSeparated_singleton_iff hac (fun h => hx (hsub h)) fun h => hy (hsub h)).mpr hno)
  exact (MixedGraph.mSeparated_singleton_iff hac (fun h => hx h.2.1) fun h => hy h.2.1).mp hanc
    (hneed v hv)

end Separation

/-! ## The loop -/

def asSet (l : List Nat) : Set Nat := {v | v ∈ l}

/-- The test is m-separation for the subsets of `z`. -/
def DecidesSeparation (run : StaticCiRun) (G : MixedGraph Nat) (x y : Nat) (z : List Nat) : Prop :=
  ∀ s, s.Sublist z → ∃ p, run.pValue x y s = .ok p ∧ (p > run.alpha ↔ ¬ G.MConnecting (asSet s) x y)

/-- At no step is an element kept although the ancestors of the two nodes among the others separate. -/
def NeverNeedless (G : MixedGraph Nat) (x y : Nat) : List Nat → List Nat → Prop
  | _, [] => True
  | kept, v :: rest =>
    (¬ G.MConnecting (asSet (kept ++ rest)) x y → NeverNeedless G x y kept rest) ∧
    (G.MConnecting (asSet (kept ++ rest)) x y →
      G.MConnecting (G.AncSet {x, y} ∩ asSet (kept ++ rest)) x y ∧
        NeverNeedless G x y (kept ++ [v]) rest)

variable {run : StaticCiRun} {G : MixedGraph Nat} {x y : Nat} {z : List Nat} {Z : Set Nat}

/-- Each kept element is needed among the ancestors of what is still there. -/
def Needed (G : MixedGraph Nat) (x y : Nat) (kept s : List Nat) : Prop :=
  ∀ v ∈ kept, G.MConnecting (G.AncSet {x, y} ∩ (asSet s \ {v})) x y

theorem connects_mono (hac : G.Acyclic) {A B : Set Nat} (hAB : A ⊆ B) (hx : x ∉ B) (hy : y ∉ B)
    (h : G.MConnecting (G.AncSet {x, y} ∩ B) x y) : G.MConnecting (G.AncSet {x, y} ∩ A) x y := by
  by_contra hno
  have hsep := (MixedGraph.mSeparated_singleton_iff hac (fun h => hx (hAB h.2)) fun h =>
    hy (hAB h.2)).mpr hno
  have hanc := MixedGraph.mSeparated_ancestral (fun v hv => hAB hv.2) hsep
  exact (MixedGraph.mSeparated_singleton_iff hac (fun h => hx h.2) fun h => hy h.2).mp hanc h

theorem minimizeLoop_spec (hac : G.Acyclic) (hx : x ∉ z) (hy : y ∉ z)
    (htest : DecidesSeparation run G x y z) :
    ∀ (rest kept : List Nat), (kept ++ rest).Sublist z → (kept ++ rest).Nodup →
    ¬ G.MConnecting (asSet (kept ++ rest)) x y → NeverNeedless G x y kept rest →
    Needed G x y kept (kept ++ rest) →
    ∃ s, run.minimizeLoop x y kept rest = .ok s ∧ s.Sublist z ∧ ¬ G.MConnecting (asSet s) x y ∧
      Needed G x y s s
  | [], kept, hsub, _, hsep, _, hneed => by
    rw [List.append_nil] at hsub hsep hneed
    exact ⟨kept, rfl, hsub, hsep, hneed⟩
  | v :: rest, kept, hsub, hnd, hsep, hnn, hneed => by
    have hdrop : (kept ++ rest).Sublist (kept ++ v :: rest) :=
      (List.Sublist.refl kept).append (List.sublist_cons_self v rest)
    have hsub' := hdrop.trans hsub
    obtain ⟨p, hp, hpsep⟩ := htest (kept ++ rest) hsub'
    unfold StaticCiRun.minimizeLoop
    rw [hp]
    by_cases hgt : p > run.alpha
    · have hout : ∀ {u}, u ∉ z → u ∉ asSet (kept ++ v :: rest) := fun hu hm => hu (hsub.subset hm)
      obtain ⟨s, hs, hrest⟩ := minimizeLoop_spec hac hx hy htest rest kept hsub' (hnd.sublist hdrop)
        (hpsep.mp hgt) (hnn.1 (hpsep.mp hgt)) fun w hw =>
          connects_mono (A := asSet (kept ++ rest) \ {w}) (B := asSet (kept ++ v :: rest) \ {w}) hac
            (fun u hu => ⟨hdrop.subset hu.1, hu.2⟩) (fun h => hout hx h.1)
            (fun h => hout hy h.1) (hneed w hw)
      exact ⟨s, (if_pos hgt).trans hs, hrest⟩
    · have hconn : G.MConnecting (asSet (kept ++ rest)) x y := by
        by_contra hno
        exact hgt (hpsep.mpr hno)
      obtain ⟨hanc, hnn'⟩ := hnn.2 hconn
      have happ : kept ++ [v] ++ rest = kept ++ v :: rest := by simp
      obtain ⟨s, hs, hrest⟩ := minimizeLoop_spec hac hx hy htest rest (kept ++ [v]) (happ ▸ hsub)
        (happ ▸ hnd) (happ ▸ hsep) hnn' fun w hw => by
          rw [happ]
          rcases List.mem_append.mp hw with hw | hw
          · exact hneed w hw
          · obtain rfl := List.mem_singleton.mp hw
            have hset : asSet (kept ++ w :: rest) \ {w} = asSet (kept ++ rest) := by
              have hw' : w ∉ kept ++ rest := (List.nodup_middle.mp hnd).notMem
              ext u
              simp only [asSet, List.mem_append, List.mem_cons, Set.mem_sdiff, Set.mem_ofPred_eq,
                Set.mem_singleton_iff]
              constructor
              · rintro ⟨hu | rfl | hu, hne⟩
                · exact Or.inl hu
                · exact absurd rfl hne
                · exact Or.inr hu
              · intro hu
                refine ⟨hu.imp_right Or.inr, ?_⟩
                rintro rfl
                exact hw' (List.mem_append.mpr hu)
            rwa [hset]
      exact ⟨s, (if_neg hgt).trans hs, hrest⟩

/-- **What the loop returns separates, and no proper subset of it does**, if it never keeps an element
needlessly. -/
theorem minimizeSepset_minimal (hac : G.Acyclic) (hx : x ∉ z) (hy : y ∉ z) (hnd : z.Nodup)
    (hsep : ¬ G.MConnecting (asSet z) x y) (htest : DecidesSeparation run G x y z)
    (hneedless : NeverNeedless G x y [] z) :
    ∃ s, run.minimizeSepset x y z = .ok s ∧ s.Sublist z ∧ MinimalSeparator G x y (asSet s) := by
  obtain ⟨s, hs, hsub, hsep', hneed⟩ := minimizeLoop_spec hac hx hy htest z [] (List.Sublist.refl z)
    hnd hsep hneedless fun v hv => absurd hv List.not_mem_nil
  refine ⟨s, hs, hsub, minimalSeparator_of_needed hac (fun h => hx (hsub.subset h))
    (fun h => hy (hsub.subset h)) hsep' hneed⟩

/-! ## A fork beside a collider -/

/-- `0 → 1 ← 2 → 3`. -/
def forkGraph : MixedGraph Nat where
  dir a b := (a = 0 ∧ b = 1) ∨ (a = 2 ∧ (b = 1 ∨ b = 3))
  bi _ _ := False
  bi_symm h := h

def forkRun (connecting : List (List Nat)) : StaticCiRun where
  input := ⟨fun _ _ z => .ok ⟨some 0, some (if connecting.contains z then 0 else 1)⟩,
    ⟨[], [], [], none, 0, 0, 1, 1 / 20, .default⟩, some, [0, 1, 2, 3], "", 1, false⟩
  alpha := ⟨1, 20, by decide, by decide⟩

theorem forkGraph_acyclic : forkGraph.Acyclic := by
  intro v hv
  obtain ⟨w, hvw, -⟩ := TransGen.head'_iff.mp hv
  obtain ⟨u, -, huv⟩ := TransGen.tail'_iff.mp hv
  rcases hvw with ⟨rfl, -⟩ | ⟨rfl, -⟩ <;> rcases huv with ⟨-, h⟩ | ⟨-, h | h⟩ <;> cases h

theorem forkGraph_anc {v w : Nat} (h : forkGraph.Anc v w) (hv : v = 1 ∨ v = 3) : v = w := by
  rcases ReflTransGen.cases_head h with he | ⟨u, hu, -⟩
  · exact he
  · rcases hu with ⟨rfl, -⟩ | ⟨rfl, -⟩ <;> omega

/-- `0` and `3` are separated by what leaves the collider alone. -/
theorem forkGraph_closed (h0 : 0 ∉ Z) (h1 : 1 ∉ Z) : ¬ forkGraph.MConnecting Z 0 3 := by
  intro hconn
  have hinv : ∀ v i, forkGraph.Ball Z {0} v i → v = 0 ∨ (v = 1 ∧ i = true) := by
    intro v i hb
    induction hb with
    | source hs => exact Or.inl hs
    | step _ hp he ih =>
      rename_i u w j k _
      rcases ih with rfl | ⟨rfl, rfl⟩
      · cases k
        · rcases he with ⟨-, rfl⟩ | ⟨h, -⟩
          · exact Or.inr ⟨rfl, rfl⟩
          · cases h
        · rcases he with ⟨-, h⟩ | ⟨-, h | h⟩ <;> cases h
        · cases he
      · cases k
        · rcases he with ⟨h, -⟩ | ⟨h, -⟩ <;> cases h
        · obtain ⟨z, hz, hanc⟩ := MixedGraph.passes_collider.mp hp
          exact absurd (forkGraph_anc hanc (Or.inl rfl) ▸ hz) h1
        · cases he
  obtain ⟨i, hb⟩ := (MixedGraph.ball_iff_mConnecting (S := {0}) forkGraph_acyclic (by
    rintro _ rfl
    exact h0)).mpr ⟨0, rfl, hconn⟩
  rcases hinv 3 i hb with h | ⟨h, -⟩ <;> cases h

/-- The fork separates `3` from what is left of it. -/
theorem forkGraph_blocked {s : Nat} (hs : s = 0 ∨ s = 1) (hsZ : s ∉ Z) (h2 : 2 ∈ Z) :
    ¬ forkGraph.MConnecting Z s 3 := by
  intro hconn
  have hinv : ∀ v i, forkGraph.Ball Z {s} v i → v = 0 ∨ v = 1 ∨ (v = 2 ∧ i = false) := by
    intro v i hb
    induction hb with
    | source hv =>
      obtain rfl : _ = s := hv
      exact hs.imp_right Or.inl
    | step _ hp he ih =>
      rename_i u w j k _
      rcases ih with rfl | rfl | ⟨rfl, rfl⟩
      · cases k
        · rcases he with ⟨-, rfl⟩ | ⟨h, -⟩
          · exact Or.inr (Or.inl rfl)
          · cases h
        · rcases he with ⟨-, h⟩ | ⟨-, h | h⟩ <;> cases h
        · cases he
      · cases k
        · rcases he with ⟨h, -⟩ | ⟨h, -⟩ <;> cases h
        · rcases he with ⟨rfl, -⟩ | ⟨rfl, -⟩
          · exact Or.inl rfl
          · exact Or.inr (Or.inr ⟨rfl, rfl⟩)
        · cases he
      · exact absurd h2 (MixedGraph.passes_noncollider.mp hp)
  obtain ⟨i, hb⟩ := (MixedGraph.ball_iff_mConnecting (S := {s}) forkGraph_acyclic (by
    rintro _ rfl
    exact hsZ)).mpr ⟨s, rfl, hconn⟩
  rcases hinv 3 i hb with h | h | ⟨h, -⟩ <;> cases h

/-- `0` and `3` are connected given the collider alone. -/
theorem forkGraph_collider : forkGraph.MConnecting (asSet [1]) 0 3 := by
  have h1 : (1 : Nat) ∈ asSet [1] := List.mem_singleton_self 1
  have hb : forkGraph.Ball (asSet [1]) {0} 3 true := by
    have hb0 : forkGraph.Ball (asSet [1]) {0} 0 false := .source rfl
    have hb1 : forkGraph.Ball (asSet [1]) {0} 1 true :=
      hb0.step (k := .fwd) (MixedGraph.passes_noncollider.mpr (by simp [asSet])) (Or.inl ⟨rfl, rfl⟩)
    have hb2 : forkGraph.Ball (asSet [1]) {0} 2 false :=
      hb1.step (k := .bwd) (MixedGraph.passes_collider.mpr (MixedGraph.mem_ancSet_of_mem h1))
        (Or.inr ⟨rfl, Or.inl rfl⟩)
    exact hb2.step (k := .fwd) (MixedGraph.passes_noncollider.mpr (by simp [asSet]))
      (Or.inr ⟨rfl, Or.inr rfl⟩)
  obtain ⟨a, rfl, h⟩ := (MixedGraph.ball_iff_mConnecting (S := {0}) forkGraph_acyclic (by
    rintro _ rfl
    simp [asSet])).mp ⟨true, hb⟩
  exact h

/-- `1` and `3` are connected given nothing. -/
theorem forkGraph_fork (h1 : 1 ∉ Z) (h2 : 2 ∉ Z) : forkGraph.MConnecting Z 1 3 := by
  have hb : forkGraph.Ball Z {1} 3 true := by
    have hb1 : forkGraph.Ball Z {1} 2 false :=
      (MixedGraph.Ball.source rfl : forkGraph.Ball Z {1} 1 false).step (k := .bwd)
        (MixedGraph.passes_noncollider.mpr h1) (Or.inr ⟨rfl, Or.inl rfl⟩)
    exact hb1.step (k := .fwd) (MixedGraph.passes_noncollider.mpr h2) (Or.inr ⟨rfl, Or.inr rfl⟩)
  obtain ⟨a, rfl, h⟩ := (MixedGraph.ball_iff_mConnecting (S := {1}) forkGraph_acyclic (by
    rintro _ rfl
    exact h1)).mp ⟨true, hb⟩
  exact h

theorem minimizeSepset_minimal_fork :
    ∃ s, (forkRun [[]]).minimizeSepset 1 3 [2] = .ok s ∧ s.Sublist [2] ∧
      MinimalSeparator forkGraph 1 3 (asSet s) := by
  have hsep : ¬ forkGraph.MConnecting (asSet [2]) 1 3 :=
    forkGraph_blocked (Or.inr rfl) (by simp [asSet]) (by simp [asSet])
  have hopen : forkGraph.MConnecting (asSet []) 1 3 := forkGraph_fork (by simp [asSet]) (by simp [asSet])
  refine minimizeSepset_minimal forkGraph_acyclic (by decide) (by decide) (by decide) hsep ?_ ?_
  · intro s hs
    rcases List.sublist_singleton.mp hs with rfl | rfl
    · exact ⟨0, by decide, iff_of_false (by decide) (not_not.mpr hopen)⟩
    · exact ⟨1, by decide, iff_of_true (by decide) hsep⟩
  · refine ⟨fun h => absurd hopen h, fun _ => ⟨forkGraph_fork ?_ ?_, trivial⟩⟩
    · simp [asSet]
    · simp [asSet]

/-- The fork is kept while the collider is conditioned on, and then the collider is dropped: what is
returned separates, and so does the empty set. -/
theorem not_minimizeSepset_minimal : forkGraph.Acyclic ∧ DecidesSeparation (forkRun [[1]]) forkGraph 0 3 [2, 1] ∧
    ¬ forkGraph.MConnecting (asSet [2, 1]) 0 3 ∧
    (forkRun [[1]]).minimizeSepset 0 3 [2, 1] = .ok [2] ∧
    ¬ MinimalSeparator forkGraph 0 3 (asSet [2]) := by
  have hblocked : ∀ l : List Nat, 0 ∉ l → 2 ∈ l → ¬ forkGraph.MConnecting (asSet l) 0 3 :=
    fun l h0 h2 => forkGraph_blocked (Or.inl rfl) h0 h2
  refine ⟨forkGraph_acyclic, fun s hs => ?_, hblocked _ (by decide) (by decide), by decide, fun h => ?_⟩
  · have hmem : s ∈ [[], [2], [1], [2, 1]] := by
      rw [show [[], [2], [1], [2, 1]] = List.sublists [2, 1] by decide]
      exact List.mem_sublists.mpr hs
    simp only [List.mem_cons, List.not_mem_nil, or_false] at hmem
    rcases hmem with rfl | rfl | rfl | rfl
    · exact ⟨1, by decide, iff_of_true (by decide) (forkGraph_closed (by simp [asSet])
        (by simp [asSet]))⟩
    · exact ⟨1, by decide, iff_of_true (by decide) (hblocked _ (by decide) (by decide))⟩
    · exact ⟨0, by decide, iff_of_false (by decide) (not_not.mpr forkGraph_collider)⟩
    · exact ⟨1, by decide, iff_of_true (by decide) (hblocked _ (by decide) (by decide))⟩
  · have hempty : (∅ : Set Nat) ⊂ asSet [2] :=
      Set.ssubset_iff_subset_ne.mpr ⟨Set.empty_subset _, fun he =>
        Set.notMem_empty 2 (he ▸ List.mem_singleton_self 2)⟩
    exact forkGraph_closed (Set.notMem_empty 0) (Set.notMem_empty 1) (h.2 ∅ hempty)

end Antecedent.Discovery
