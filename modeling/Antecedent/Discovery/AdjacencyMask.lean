import Antecedent.Discovery.Pc
import Antecedent.Graph.Pag

/-!
# Packed adjacency

Model of `adjacency_mask.rs`: a graph on at most sixteen nodes as one bit for each ordered pair of nodes,
with a second set of bits for the circles of a PAG. The four words of the source are one bit vector; bit
`b` of it is bit `b % 64` of word `b / 64`.

* `Packs`: the bits of a mask are those of a relation between nodes.
-/

namespace Antecedent.Discovery

open Graph

/-- `MAX_POSTERIOR_NODES`. -/
def maxPosteriorNodes : Nat := 16

abbrev AdjacencyMask := BitVec 256

/-- `graph_posterior.rs:519-524`. -/
def edgeBit (n src dst : Nat) : Nat := src * (n - 1) + if dst < src then dst else dst - 1

namespace AdjacencyMask

/-- `EMPTY`. -/
def empty : AdjacencyMask := 0

def bit (mask : AdjacencyMask) (b : Nat) : Bool := mask.getLsbD b

def withBit (mask : AdjacencyMask) (b : Nat) (present : Bool) : AdjacencyMask :=
  if present then mask ||| BitVec.twoPow 256 b else mask &&& ~~~(BitVec.twoPow 256 b)

end AdjacencyMask

def hasEdge (mask : AdjacencyMask) (n src dst : Nat) : Bool :=
  if src = dst ∨ n ≤ src ∨ n ≤ dst then false else mask.bit (edgeBit n src dst)

def setEdge (mask : AdjacencyMask) (n src dst : Nat) (present : Bool) : AdjacencyMask :=
  mask.withBit (edgeBit n src dst) present

def requireMaskCapacity (n : Nat) (what : String) : Except DiscoveryError Unit :=
  if n = 0 then .error (.data (what ++ ": n_vars must be > 0"))
  else if n > maxPosteriorNodes then
    .error (.data (what ++ ": n_vars=" ++ toString n ++ " exceeds the " ++ toString maxPosteriorNodes ++
      "-variable adjacency packing"))
  else .ok ()

/-! ## CPDAGs -/

/-- One pair of `cpdag_from_adjacency_mask`. -/
def cpdagInsertAt (mask : AdjacencyMask) (n : Nat) (cpdag : Cpdag) (pair : Nat × Nat) :
    Except DiscoveryError Cpdag :=
  let (i, j) := pair
  let ij := hasEdge mask n i j
  let ji := hasEdge mask n j i
  if ij && ji then liftGraph (cpdag.insertUndirected i j)
  else if ij then liftGraph (cpdag.insertDirected i j)
  else if ji then liftGraph (cpdag.insertDirected j i)
  else .ok cpdag

/-- Lines 293-318. -/
def cpdagFromAdjacencyMask (mask : AdjacencyMask) (n : Nat) : Except DiscoveryError Cpdag := do
  requireMaskCapacity n "cpdag_from_adjacency_mask"
  (upperPairs n).foldlM (cpdagInsertAt mask n) (withVariables n)

/-- One edge of `adjacency_mask_from_cpdag`. -/
def packCpdagEdge (n : Nat) (mask : AdjacencyMask) (edge : MarkedEdge) : AdjacencyMask :=
  if edge.isUndirected then setEdge (setEdge mask n edge.a edge.b true) n edge.b edge.a true
  else if edge.atA = .tail ∧ edge.atB = .arrow then setEdge mask n edge.a edge.b true
  else if edge.atA = .arrow ∧ edge.atB = .tail then setEdge mask n edge.b edge.a true
  else mask

/-- Lines 325-343. -/
def adjacencyMaskFromCpdag (cpdag : Cpdag) : Except DiscoveryError AdjacencyMask := do
  requireMaskCapacity cpdag.nodeCount "adjacency_mask_from_cpdag"
  return cpdag.edges.foldl (packCpdagEdge cpdag.nodeCount) .empty

/-! ## PAGs -/

/-- One pair of `pag_from_adjacency_mask`. -/
def pagInsertAt (mask marks : AdjacencyMask) (n : Nat) (pag : Pag) (pair : Nat × Nat) :
    Except DiscoveryError Pag :=
  let (i, j) := pair
  let ij := hasEdge mask n i j
  let ji := hasEdge mask n j i
  if !ij && !ji then .ok pag
  else
    let circleA := hasEdge marks n i j
    let circleB := hasEdge marks n j i
    if ij && ji then
      if circleA && circleB then liftGraph (pag.insertCircleCircle i j)
      else if !circleA && !circleB then liftGraph (pag.insertBidirected i j)
      else if circleA then liftGraph (pag.insertCircleArrow i j)
      else liftGraph (pag.insertCircleArrow j i)
    else if ij then
      if circleA then liftGraph (pag.insertCircleArrow i j) else liftGraph (pag.insertDirected i j)
    else if circleB then liftGraph (pag.insertCircleArrow j i)
    else liftGraph (pag.insertDirected j i)

/-- Lines 353-397. -/
def pagFromAdjacencyMask (mask marks : AdjacencyMask) (n : Nat) : Except DiscoveryError Pag := do
  requireMaskCapacity n "pag_from_adjacency_mask"
  (upperPairs n).foldlM (pagInsertAt mask marks n) (Pag.withVariables n)

/-- The two sets after one edge with these marks at `i` and `j`. -/
def packMarks (n i j : Nat) (m : AdjacencyMask × AdjacencyMask) :
    Endpoint → Endpoint → Except DiscoveryError (AdjacencyMask × AdjacencyMask)
  | .tail, .arrow => .ok (setEdge m.1 n i j true, m.2)
  | .arrow, .tail => .ok (setEdge m.1 n j i true, m.2)
  | .arrow, .arrow => .ok (setEdge (setEdge m.1 n i j true) n j i true, m.2)
  | .circle, .arrow | .tail, .circle => .ok (setEdge m.1 n i j true, setEdge m.2 n i j true)
  | .arrow, .circle | .circle, .tail => .ok (setEdge m.1 n j i true, setEdge m.2 n j i true)
  | .circle, .circle => .ok (setEdge (setEdge m.1 n i j true) n j i true,
      setEdge (setEdge m.2 n i j true) n j i true)
  | .tail, .tail =>
    .error (.unsupported "PAG packing cannot represent a tail-tail edge; refusing to drop it")
  | .conflict, _ | _, .conflict =>
    .error (.unsupported "PAG packing cannot represent a conflict endpoint; refusing to drop it")

/-- One pair of `adjacency_masks_from_pag`. -/
def packPagAt (pag : Pag) (n : Nat) (m : AdjacencyMask × AdjacencyMask) (pair : Nat × Nat) :
    Except DiscoveryError (AdjacencyMask × AdjacencyMask) :=
  let (i, j) := pair
  match edgeBetween pag.adj i j with
  | none => .ok m
  | some edge =>
    if edge.a = i then packMarks n i j m edge.atA edge.atB else packMarks n i j m edge.atB edge.atA

/-- Lines 404-460. -/
def adjacencyMasksFromPag (pag : Pag) : Except DiscoveryError (AdjacencyMask × AdjacencyMask) := do
  requireMaskCapacity pag.nodeCount "adjacency_masks_from_pag"
  (upperPairs pag.nodeCount).foldlM (packPagAt pag pag.nodeCount) (.empty, .empty)

/-! ## ADMGs -/

/-- One pair of `admg_from_adjacency_mask`. -/
def admgInsertAt (mask : AdjacencyMask) (n : Nat) (admg : Admg) (pair : Nat × Nat) :
    Except DiscoveryError Admg :=
  let (i, j) := pair
  let ij := hasEdge mask n i j
  let ji := hasEdge mask n j i
  if !ij && !ji then .ok admg
  else if ij && ji then liftGraph (admg.insertBidirected i j)
  else if ij then liftGraph (admg.insertDirected i j)
  else liftGraph (admg.insertDirected j i)

/-- Lines 475-506. -/
def admgFromAdjacencyMask (mask : AdjacencyMask) (n : Nat) : Except DiscoveryError Admg := do
  requireMaskCapacity n "admg_from_adjacency_mask"
  (upperPairs n).foldlM (admgInsertAt mask n) (Admg.withVariables n)

/-- One node of `adjacency_mask_from_admg`. -/
def packAdmgAt (admg : Admg) (n : Nat) (mask : AdjacencyMask) (i : Nat) : AdjacencyMask :=
  let mask := (admg.children i).foldl (fun mask j => setEdge mask n i j true) mask
  (admg.bidirectedNeighbors i).foldl (fun mask j =>
    if i < j then setEdge (setEdge mask n i j true) n j i true else mask) mask

/-- Lines 513-530. -/
def adjacencyMaskFromAdmg (admg : Admg) : Except DiscoveryError AdjacencyMask := do
  requireMaskCapacity admg.nodeCount "adjacency_mask_from_admg"
  return (List.range admg.nodeCount).foldl (packAdmgAt admg admg.nodeCount) .empty

/-! ## Masks as relations -/

/-- The ordered pairs a mask has a bit for. -/
def InMask (n : Nat) (p : Nat × Nat) : Prop := p.1 ≠ p.2 ∧ p.1 < n ∧ p.2 < n

variable {n x y : Nat} {P : Nat × Nat → Prop} {mask : AdjacencyMask}

theorem edgeBit_lt (h : InMask n (x, y)) : edgeBit n x y < n * (n - 1) := by
  obtain ⟨hne, hx, hy⟩ := h
  simp only at hne hx hy
  have hrow : x * (n - 1) + (n - 1) ≤ n * (n - 1) := by
    rw [← Nat.succ_mul]
    exact Nat.mul_le_mul_right _ hx
  unfold edgeBit
  split_ifs <;> omega

/-- **Different pairs have different bits.** -/
theorem edgeBit_inj {x' y' : Nat} (h : InMask n (x, y)) (h' : InMask n (x', y')) :
    edgeBit n x y = edgeBit n x' y' ↔ x = x' ∧ y = y' := by
  obtain ⟨hne, hx, hy⟩ := h
  obtain ⟨hne', hx', hy'⟩ := h'
  simp only at hne hx hy hne' hx' hy'
  refine ⟨fun he => ?_, fun ⟨h1, h2⟩ => h1 ▸ h2 ▸ rfl⟩
  unfold edgeBit at he
  -- the row is the quotient of the bit, the place in the row its remainder
  have hpos : 0 < n - 1 := by omega
  have hcol : (if y < x then y else y - 1) < n - 1 := by split_ifs <;> omega
  have hcol' : (if y' < x' then y' else y' - 1) < n - 1 := by split_ifs <;> omega
  have hdiv := congrArg (· / (n - 1)) he
  have hmod := congrArg (· % (n - 1)) he
  simp only [Nat.mul_add_div hpos, Nat.mul_comm _ (n - 1), Nat.div_eq_of_lt hcol,
    Nat.div_eq_of_lt hcol', Nat.mul_add_mod, Nat.mod_eq_of_lt hcol, Nat.mod_eq_of_lt hcol',
    Nat.add_zero] at hdiv hmod
  refine ⟨hdiv, ?_⟩
  subst hdiv
  split_ifs at hmod <;> omega

/-- Every bit below `n (n - 1)` is that of a pair. -/
theorem exists_edgeBit {b : Nat} (h : b < n * (n - 1)) :
    ∃ x y, InMask n (x, y) ∧ edgeBit n x y = b := by
  have hpos : 0 < n - 1 := by
    rcases Nat.eq_zero_or_pos (n - 1) with h0 | h0
    · rw [h0, Nat.mul_zero] at h
      omega
    · exact h0
  have hx : b / (n - 1) < n := Nat.div_lt_of_lt_mul (Nat.mul_comm _ _ ▸ h)
  have hcol : b % (n - 1) < n - 1 := Nat.mod_lt _ hpos
  have hsum : b / (n - 1) * (n - 1) + b % (n - 1) = b := Nat.div_add_mod' b (n - 1)
  by_cases hlt : b % (n - 1) < b / (n - 1)
  · refine ⟨b / (n - 1), b % (n - 1), ⟨by simp only; omega, hx, by simp only; omega⟩, ?_⟩
    unfold edgeBit
    rw [if_pos hlt, hsum]
  · refine ⟨b / (n - 1), b % (n - 1) + 1, ⟨by simp only; omega, hx, by simp only; omega⟩, ?_⟩
    unfold edgeBit
    rw [if_neg (by omega), Nat.add_sub_cancel, hsum]

theorem mul_pred_le (h : n ≤ maxPosteriorNodes) : n * (n - 1) ≤ 256 := by
  unfold maxPosteriorNodes at h
  calc n * (n - 1) ≤ 16 * 16 := Nat.mul_le_mul h (by omega)
    _ = 256 := rfl

/-- The bits of the mask are those of the pairs of `P`. -/
def Packs (n : Nat) (P : Nat × Nat → Prop) (mask : AdjacencyMask) : Prop :=
  ∀ b, mask.bit b = true ↔ ∃ p, P p ∧ InMask n p ∧ b = edgeBit n p.1 p.2

theorem packs_empty : Packs n (fun _ => False) .empty := fun b => by
  simp [AdjacencyMask.bit, AdjacencyMask.empty]

/-- Setting one more bit. -/
theorem Packs.setEdge {n : Nat} {P : Nat × Nat → Prop} {mask : AdjacencyMask} (h : Packs n P mask)
    (hn : n ≤ maxPosteriorNodes) {x y : Nat} (hxy : InMask n (x, y)) :
    Packs n (fun p => P p ∨ p = (x, y)) (setEdge mask n x y true) := fun b => by
  have hlt : edgeBit n x y < 256 := (edgeBit_lt hxy).trans_le (mul_pred_le hn)
  have hbit : (Discovery.setEdge mask n x y true).bit b = true ↔
      mask.bit b = true ∨ b = edgeBit n x y := by
    unfold Discovery.setEdge AdjacencyMask.withBit AdjacencyMask.bit
    rw [if_pos rfl, BitVec.getLsbD_or, BitVec.getLsbD_twoPow, decide_eq_true hlt, Bool.true_and,
      Bool.or_eq_true, decide_eq_true_eq, @eq_comm _ b]
  rw [hbit, h b]
  constructor
  · rintro (⟨p, hp, hin, hb⟩ | hb)
    · exact ⟨p, Or.inl hp, hin, hb⟩
    · exact ⟨(x, y), Or.inr rfl, hxy, hb⟩
  · rintro ⟨p, hp | rfl, hin, hb⟩
    · exact Or.inl ⟨p, hp, hin, hb⟩
    · exact Or.inr hb

theorem Packs.congr {Q : Nat × Nat → Prop} (h : Packs n P mask)
    (hPQ : ∀ p, InMask n p → (P p ↔ Q p)) : Packs n Q mask := fun b => by
  rw [h b]
  exact exists_congr fun p => ⟨fun ⟨hp, hin, hb⟩ => ⟨(hPQ p hin).mp hp, hin, hb⟩,
    fun ⟨hq, hin, hb⟩ => ⟨(hPQ p hin).mpr hq, hin, hb⟩⟩

/-- **Bits set one step after the other.** -/
theorem packs_foldl {α : Type} {n : Nat} {f : AdjacencyMask → α → AdjacencyMask}
    {S : α → Nat × Nat → Prop} : ∀ {l : List α} {P : Nat × Nat → Prop} {mask : AdjacencyMask},
    (∀ a ∈ l, ∀ P mask, Packs n P mask → Packs n (fun p => P p ∨ S a p) (f mask a)) →
    Packs n P mask → Packs n (fun p => P p ∨ ∃ a ∈ l, S a p) (l.foldl f mask)
  | [], P, mask, _, h => h.congr fun p _ => by simp
  | a :: l, P, mask, hstep, h => by
    have ha := hstep a List.mem_cons_self P mask h
    refine (packs_foldl (l := l) (fun b hb => hstep b (List.mem_cons_of_mem a hb)) ha).congr
      fun p _ => ?_
    simp only [List.mem_cons, exists_eq_or_imp, or_assoc]

theorem Packs.hasEdge_iff (h : Packs n P mask)
    : hasEdge mask n x y = true ↔ P (x, y) ∧ InMask n (x, y) := by
  unfold hasEdge
  split_ifs with hout
  · refine ⟨fun h => (nomatch h), fun ⟨_, h1, h2, h3⟩ => ?_⟩
    simp only at h1 h2 h3
    omega
  · have hxy : InMask n (x, y) := ⟨by simp only; omega, by simp only; omega, by simp only; omega⟩
    rw [h]
    constructor
    · rintro ⟨⟨u, v⟩, hp, hin, hb⟩
      obtain ⟨rfl, rfl⟩ := (edgeBit_inj hxy hin).mp hb
      exact ⟨hp, hin⟩
    · exact fun ⟨hp, hin⟩ => ⟨(x, y), hp, hin, rfl⟩

theorem Packs.unique {mask' : AdjacencyMask} (h : Packs n P mask)
    (h' : Packs n P mask') : mask = mask' :=
  BitVec.eq_of_getLsbD_eq fun b _ => Bool.eq_iff_iff.mpr ((h b).trans (h' b).symm)

def NoStray (n : Nat) (mask : AdjacencyMask) : Prop := ∀ b, mask.bit b = true → b < n * (n - 1)

theorem packs_hasEdge_iff :
    Packs n (fun p => hasEdge mask n p.1 p.2 = true) mask ↔ NoStray n mask := by
  constructor
  · intro h b hb
    obtain ⟨p, -, hin, rfl⟩ := (h b).mp hb
    exact edgeBit_lt hin
  · intro h b
    constructor
    · intro hb
      obtain ⟨x, y, hin, rfl⟩ := exists_edgeBit (h b hb)
      have hread : hasEdge mask n x y = mask.bit (edgeBit n x y) := by
        obtain ⟨h1, h2, h3⟩ := hin
        simp only at h1 h2 h3
        exact if_neg (by omega)
      exact ⟨(x, y), hread.trans hb, hin, rfl⟩
    · rintro ⟨p, hp, hin, rfl⟩
      unfold hasEdge at hp
      split_ifs at hp
      exact hp

end Antecedent.Discovery
