import Antecedent.Discovery.Combinations
import Antecedent.Graph.CopyFiltered
import Antecedent.Graph.Witness
import Antecedent.Identify.Prepared
import Antecedent.Mixed.Ancestral

/-!
# The first set by size

Model of `first_set_by_size` (`enum_masks.rs:24-69`), and of the closures and the separation test
that its callers run over an ADMG.

* `firstSetBySize_spec`: a set that is found passes its test, and a search that ends with neither a
  set nor a refused test has seen every subset fail.
-/

namespace Antecedent.Identify

open Discovery
open Graph
open Mixed

/-- Lines 10-17. -/
structure FirstSet where
  found : Option (List Nat)
  examined : Nat
  budgetExhausted : Bool

/-- The visits in order, until one passes or the budget refuses one. -/
def firstOf {ε : Type} (maxExaminations : Nat) (test : List Nat → Except ε Bool) :
    List (List Nat) → Nat → Except ε FirstSet
  | [], examined => .ok ⟨none, examined, false⟩
  | z :: zs, examined =>
    if maxExaminations ≤ examined then .ok ⟨none, examined, true⟩
    else do
      if ← test z then pure ⟨some z, examined + 1, false⟩
      else firstOf maxExaminations test zs (examined + 1)

/-- Lines 24-69. -/
def firstSetBySize {ε : Type} (candidates : List Nat) (spent maxExaminations : Nat)
    (test : List Nat → Except ε Bool) : Except ε FirstSet :=
  firstOf maxExaminations test
    ((List.range (candidates.length + 1)).flatMap (combinations candidates)) spent

/-- What a search over `sets` says of the sets that pass. -/
structure FirstSet.Of (r : FirstSet) (sets : List Nat → Prop) (passes : List Nat → Prop) : Prop where
  found : ∀ z, r.found = some z → sets z ∧ passes z
  none : r.found = none → r.budgetExhausted = false → ∀ z, sets z → ¬ passes z

section FirstSet

variable {ε : Type} {maxExaminations : Nat} {test : List Nat → Except ε Bool}
  {passes : List Nat → Prop}

theorem firstOf_spec : ∀ {zs : List (List Nat)} (examined : Nat),
    (∀ z ∈ zs, ∃ b, test z = .ok b ∧ (b = true ↔ passes z)) →
    ∃ r, firstOf maxExaminations test zs examined = .ok r ∧ r.Of (· ∈ zs) passes
  | [], examined, _ => ⟨_, rfl, nofun, fun _ _ _ hz => absurd hz List.not_mem_nil⟩
  | z :: zs, examined, h => by
    unfold firstOf
    split_ifs with hb
    · exact ⟨_, rfl, nofun, nofun⟩
    obtain ⟨b, htest, hpass⟩ := h z List.mem_cons_self
    rw [htest]
    cases b with
    | true =>
      refine ⟨_, rfl, fun w hw => ?_, nofun⟩
      obtain rfl := Option.some.inj hw
      exact ⟨List.mem_cons_self, hpass.mp rfl⟩
    | false =>
      obtain ⟨r, hr, hof⟩ := firstOf_spec (examined + 1) fun w hw => h w (List.mem_cons_of_mem _ hw)
      refine ⟨r, hr, fun w hw => ?_, fun hnone hex w hw => ?_⟩
      · obtain ⟨hmem, hw⟩ := hof.found w hw
        exact ⟨List.mem_cons_of_mem _ hmem, hw⟩
      · obtain rfl | hmem := List.mem_cons.mp hw
        · exact fun hw => absurd (hpass.mpr hw) Bool.false_ne_true
        · exact hof.none hnone hex w hmem

theorem mem_bySize {candidates z : List Nat} :
    z ∈ (List.range (candidates.length + 1)).flatMap (combinations candidates) ↔
      z.Sublist candidates := by
  rw [List.mem_flatMap]
  constructor
  · rintro ⟨k, -, hz⟩
    exact (mem_combinations.mp hz).1
  · exact fun hz => ⟨z.length, List.mem_range.mpr (Nat.lt_succ_of_le hz.length_le),
      mem_combinations.mpr ⟨hz, rfl⟩⟩

/-- **The search by size** finds a set that passes, or has seen every subset fail, or was refused a
test by its budget. -/
theorem firstSetBySize_spec {candidates : List Nat} (spent : Nat)
    (h : ∀ z : List Nat, z.Sublist candidates → ∃ b, test z = .ok b ∧ (b = true ↔ passes z)) :
    ∃ r, firstSetBySize candidates spent maxExaminations test = .ok r ∧
      r.Of (fun z => z.Sublist candidates) passes := by
  obtain ⟨r, hr, hof⟩ := @firstOf_spec _ maxExaminations _ _ _ spent
    fun z hz => h z (mem_bySize.mp hz)
  exact ⟨r, hr, fun z hz => ⟨mem_bySize.mp (hof.found z hz).1, (hof.found z hz).2⟩,
    fun hnone hex z hz => hof.none hnone hex z (mem_bySize.mpr hz)⟩

end FirstSet

/-! ## Closures and separation -/

/-- `is_m_separated` as the searches call it. -/
def separated (g : Admg) (x y : Nat) (z : List Nat) : Except IdentificationError Bool :=
  (g.isMSeparated x y z).mapError .graph

section Separated

variable {g : Admg} {x y : Nat} {z : List Nat}

/-- **The test is m-separation**, of nodes outside the set. -/
theorem separated_iff (hx : x < g.nodeCount) (hy : y < g.nodeCount) (hz : ∀ v ∈ z, v < g.nodeCount)
    (hxz : x ∉ z) (hyz : y ∉ z) : ∃ b, separated g x y z = .ok b ∧
      (b = true ↔ g.mixed.MSeparated {x} {y} {v | v ∈ z}) := by
  unfold separated
  by_cases hne : x = y
  · refine ⟨false, ?_, iff_of_false Bool.false_ne_true fun hs => hs x rfl y rfl (hne ▸ .refl)⟩
    unfold Admg.isMSeparated
    rw [Admg.validateNode_ok hx, Admg.validateNode_ok hy,
      forM_ok fun v hv => Admg.validateNode_ok (hz v hv)]
    simp only [bind, Except.bind, if_pos hne]
    rfl
  · have hq : Query g.nodeCount x y z := ⟨hx, hy, hz, hne, hxz, hyz⟩
    have hball := MixedGraph.mSeparated_iff_ball (G := g.mixed) (X := {x}) (Y := {y})
      (C := {v | v ∈ z}) (fun a ha => by rwa [Set.mem_singleton_iff.mp ha])
      (fun a ha => by rwa [Set.mem_singleton_iff.mp ha])
    have hsep := Admg.isMSeparated_iff hq
    rw [Admg.isMSeparated_eq hq, Except.ok.injEq] at hsep
    rw [Admg.isMSeparated_eq hq]
    refine ⟨_, rfl, ?_⟩
    rw [hsep, hball]
    constructor
    · rintro hno b rfl i hb
      exact hno ⟨i, hb⟩
    · rintro hno ⟨i, hb⟩
      exact hno y rfl i hb

theorem mem_descendantsOf {nodes : List Nat} (h : ∀ v ∈ nodes, v < g.nodeCount) {v : Nat} :
    v ∈ g.descendantsOf nodes ↔ ∃ s ∈ nodes, g.mixed.Anc s v := by
  have hrange : ∀ u w, w ∈ g.children u → w < g.nodeCount := fun u w hw =>
    (g.valid.in_range u w hw).2
  unfold Admg.descendantsOf
  rw [mem_closureInto hrange]
  have hrel : (fun a b => b ∈ g.children a ∧ true = true) = g.mixed.dir :=
    funext₂ fun a b => propext (and_iff_left rfl)
  rw [hrel]
  exact exists_congr fun s => and_congr_right fun hs => and_iff_right (h s hs)

/-- An ancestor of nodes of the graph is one. -/
theorem lt_of_mem_ancSet {S : Set Nat} (h : ∀ v ∈ S, v < g.nodeCount) {v : Nat}
    (hv : v ∈ g.mixed.AncSet S) : v < g.nodeCount := by
  obtain ⟨w, hw, hvw⟩ := hv
  obtain rfl | ⟨u, hvu, -⟩ := Relation.ReflTransGen.cases_head hvw
  · exact h _ hw
  · exact (g.valid.in_range v u hvu).1

end Separated

end Antecedent.Identify
