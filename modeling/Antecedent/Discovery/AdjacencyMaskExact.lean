import Antecedent.Discovery.Adjacency
import Antecedent.Discovery.AdjacencyMask
import Antecedent.Io.AdmgForm
import Antecedent.Io.MarkedForms

/-!
# What packing keeps

A decoder reads each unordered pair of nodes off the bits of its two ordered pairs, an encoder sets those
bits from the marks of the pair; both are functions of one pair.

* `packPag_cases`, `packCpdag`, `packAdmg`: what the encoders set.
* **`packing_exact_iff`**: which graphs come back from their masks, and which masks from their graph.
-/

namespace Antecedent.Discovery

open Graph Relation
open Io
open Machine (Inserts ok_then)

/-! ## Reading a mask -/

/-- The marks of a pair of nodes, read from the first. -/
abbrev Code := Nat → Nat → Option (Endpoint × Endpoint)

/-- Both nodes of a pair read the same edge, between two of the `n` nodes. -/
structure Code.Regular (n : Nat) (code : Code) : Prop where
  symm : ∀ {x y s t}, code x y = some (s, t) → code y x = some (t, s)
  inMask : ∀ {x y st}, code x y = some st → InMask n (x, y)

def Says (code : Code) (p : Statement) : Prop :=
  p.middle = .empty ∧ code p.1 p.2.1 = some (p.2.2.1, p.2.2.2.1)

def SaysAt (code : Code) (e : Nat × Nat) (p : Statement) : Prop :=
  Says code p ∧ ((p.1, p.2.1) = e ∨ (p.2.1, p.1) = e)

def Code.Dir (code : Code) (a b : Nat) : Prop := code a b = some (.tail, .arrow)

variable {n : Nat} {code : Code} {m : MarkedEdge}

theorem exists_saysAt (hc : code.Regular n) (p : Statement) :
    (∃ e ∈ upperPairs n, SaysAt code e p) ↔ Says code p := by
  constructor
  · exact fun ⟨e, _, h⟩ => h.1
  · intro h
    obtain ⟨hne, hx, hy⟩ := hc.inMask h.2
    rcases Nat.lt_or_gt_of_ne hne with hlt | hlt
    · exact ⟨(p.1, p.2.1), mem_upperPairs.mpr ⟨hlt, hy⟩, h, Or.inl rfl⟩
    · exact ⟨(p.2.1, p.1), mem_upperPairs.mpr ⟨hlt, hx⟩, h, Or.inr rfl⟩

section Decode

variable {G : Type} [GraphView G] {insertAt : G → Nat × Nat → Except DiscoveryError G} {g₀ g : G}

/-- **What a decoder builds.** -/
theorem decode_reads (hc : code.Regular n)
    (hins : Inserts insertAt GraphView.nodes GraphView.Holds (SaysAt code))
    (hempty : ∀ p, ¬ GraphView.Holds g₀ p) (h : (upperPairs n).foldlM insertAt g₀ = .ok g) :
    GraphView.nodes g = GraphView.nodes g₀ ∧ ∀ p, GraphView.Holds g p ↔ Says code p := by
  obtain ⟨hnodes, hholds⟩ := hins.foldlM h
  refine ⟨hnodes, fun p => ?_⟩
  rw [hholds, or_iff_right (hempty p), exists_saysAt hc]

/-- **A decoder refuses nothing**, if no single insertion is refused that fits the code. -/
theorem decode_accepts
    (hins : Inserts insertAt GraphView.nodes GraphView.Holds (SaysAt code))
    (hempty : ∀ p, ¬ GraphView.Holds g₀ p)
    (hacc : ∀ e ∈ upperPairs n, ∀ g, GraphView.nodes g = GraphView.nodes g₀ →
      (∀ p, GraphView.Holds g p → Says code p) → (∀ p, SaysAt code e p → ¬ GraphView.Holds g p) →
      ∃ g', insertAt g e = .ok g') : ∃ g, (upperPairs n).foldlM insertAt g₀ = .ok g := by
  refine hins.accepts (T := Says code) rfl (fun p hp => absurd hp (hempty p))
    (fun e _ p hp => ⟨hp.1, hempty p⟩) ?_ hacc
  refine (nodup_upperPairs n).pairwise_of_forall_ne fun e he f hf hne p hp hq => hne ?_
  obtain ⟨i, j⟩ := e
  obtain ⟨i', j'⟩ := f
  have h1 := (mem_upperPairs.mp he).1
  have h2 := (mem_upperPairs.mp hf).1
  have h3 := hp.2
  have h4 := hq.2
  simp only [Prod.mk.injEq] at h3 h4 ⊢
  omega

end Decode

theorem liftGraph_ok {α : Type} {r : Except GraphError α} {a : α} :
    liftGraph r = .ok a ↔ r = .ok a := by
  cases r <;> simp [liftGraph]

theorem inserts_edges {G : Type} [GraphView G] {ins : G → MarkedEdge → Except GraphError G}
    {edgeOf : Nat × Nat → Option MarkedEdge} {insertAt : G → Nat × Nat → Except DiscoveryError G}
    (hat : ∀ g e, insertAt g e = match edgeOf e with
      | none => .ok g
      | some m => liftGraph (ins g m))
    (hins : ∀ e m, edgeOf e = some m → ∀ {g g'}, ins g m = .ok g' →
      GraphView.nodes g' = GraphView.nodes g ∧
        ∀ p, GraphView.Holds g' p ↔ GraphView.Holds g p ∨ states m p)
    (hcoded : ∀ e p, SaysAt code e p ↔ ∃ m, edgeOf e = some m ∧ states m p) :
    Inserts insertAt GraphView.nodes GraphView.Holds (SaysAt code) := by
  have hspec : ∀ {g e g'}, insertAt g e = .ok g' → GraphView.nodes g' = GraphView.nodes g ∧
      ∀ p, GraphView.Holds g' p ↔ GraphView.Holds g p ∨ SaysAt code e p := by
    intro g e g' h
    rw [hat] at h
    cases he : edgeOf e with
    | none =>
      rw [he] at h
      cases h
      refine ⟨rfl, fun p => ?_⟩
      rw [hcoded, he]
      simp
    | some m =>
      rw [he] at h
      obtain ⟨hnodes, hholds⟩ := hins e m he (liftGraph_ok.mp h)
      refine ⟨hnodes, fun p => ?_⟩
      rw [hcoded, he, hholds]
      simp
  exact ⟨fun h => (hspec h).1, fun h => (hspec h).2⟩

theorem fits_code {adj : MarkedRows} (hc : code.Regular n)
    (hac : ∀ v, ¬ TransGen code.Dir v v)
    (hsub : ∀ x y v, look adj x y = some v → Says code (x, y, v))
    (hm : ∀ p, states m p → Says code p) (hnew : ∀ p, states m p → look adj p.1 p.2.1 ≠ some p.2.2) :
    m.a < n ∧ m.b < n ∧ m.a ≠ m.b ∧ look adj m.a m.b = none ∧
      ∀ src dst, m.parentChild = some (src, dst) → ¬ ReflTransGen (Graph.Dir adj) dst src := by
  have hab := hm _ (Or.inl rfl)
  have hba := hm _ (Or.inr rfl)
  obtain ⟨hne, ha, hb⟩ := hc.inMask hab.2
  refine ⟨ha, hb, hne, ?_, fun src dst hpc hr => ?_⟩
  · cases hl : look adj m.a m.b with
    | none => rfl
    | some v =>
      obtain ⟨s, t, mid⟩ := v
      obtain ⟨hmid, hcode⟩ := hsub _ _ _ hl
      have hst := Option.some.inj (hcode.symm.trans hab.2)
      have hmid' : m.middle = .empty := hab.1
      refine absurd ?_ (hnew _ (Or.inl rfl))
      rw [hl]
      simp only [Prod.mk.injEq] at hst
      obtain rfl : mid = .empty := hmid
      rw [hst.1, hst.2, hmid']
  · have hd : code.Dir src dst := by
      rcases parentChild_eq_some.mp hpc with ⟨h1, h2, rfl, rfl⟩ | ⟨h1, h2, rfl, rfl⟩
      · exact hab.2.trans (by rw [h1, h2])
      · exact hba.2.trans (by rw [h1, h2])
    refine hac src (TransGen.head' hd (ReflTransGen.mono (fun x y => ?_) _ _ hr))
    rintro ⟨mid, hmid⟩
    exact (hsub _ _ _ hmid).2

/-! ## The three codes -/

def pagMarksOf : Bool → Bool → Bool → Bool → Option (Endpoint × Endpoint)
  | false, false, _, _ => none
  | true, true, true, true => some (.circle, .circle)
  | true, true, false, false => some (.arrow, .arrow)
  | true, true, true, false => some (.circle, .arrow)
  | true, true, false, true => some (.arrow, .circle)
  | true, false, true, _ => some (.circle, .arrow)
  | true, false, false, _ => some (.tail, .arrow)
  | false, true, _, true => some (.arrow, .circle)
  | false, true, _, false => some (.arrow, .tail)

def pagEdgeOf (i j : Nat) : Bool → Bool → Bool → Bool → Option MarkedEdge
  | false, false, _, _ => none
  | true, true, true, true =>
    some (if i ≤ j then ⟨i, j, .circle, .circle, .empty⟩ else ⟨j, i, .circle, .circle, .empty⟩)
  | true, true, false, false => some (.bidirected i j)
  | true, true, true, false => some ⟨i, j, .circle, .arrow, .empty⟩
  | true, true, false, true => some ⟨j, i, .circle, .arrow, .empty⟩
  | true, false, true, _ => some ⟨i, j, .circle, .arrow, .empty⟩
  | true, false, false, _ => some (.directed i j)
  | false, true, _, true => some ⟨j, i, .circle, .arrow, .empty⟩
  | false, true, _, false => some (.directed j i)

def cpdagMarksOf : Bool → Bool → Option (Endpoint × Endpoint)
  | true, true => some (.tail, .tail)
  | true, false => some (.tail, .arrow)
  | false, true => some (.arrow, .tail)
  | false, false => none

def cpdagEdgeOf (i j : Nat) : Bool → Bool → Option MarkedEdge
  | true, true => some (.undirected i j)
  | true, false => some (.directed i j)
  | false, true => some (.directed j i)
  | false, false => none

def admgMarksOf : Bool → Bool → Option (Endpoint × Endpoint)
  | true, true => some (.arrow, .arrow)
  | true, false => some (.tail, .arrow)
  | false, true => some (.arrow, .tail)
  | false, false => none

def admgEdgeOf (i j : Nat) : Bool → Bool → Option MarkedEdge
  | true, true => some ⟨i, j, .arrow, .arrow, .empty⟩
  | true, false => some (.directed i j)
  | false, true => some (.directed j i)
  | false, false => none

def MarkedEdge.Reads (e : MarkedEdge) (i j : Nat) (st : Endpoint × Endpoint) : Prop :=
  e = ⟨i, j, st.1, st.2, .empty⟩ ∨ e = ⟨j, i, st.2, st.1, .empty⟩

variable {i j x y : Nat} {P : Nat × Nat → Prop} {mask : AdjacencyMask} {g : Pag}
  {bit : Endpoint → Endpoint → Bool}

theorem states_of_reads {e : MarkedEdge} {st : Endpoint × Endpoint}
    (h : MarkedEdge.Reads e i j st) (p : Statement) : states e p ↔
      p = (i, j, st.1, st.2, .empty) ∨ p = (j, i, st.2, st.1, .empty) := by
  rcases h with rfl | rfl
  · exact Iff.rfl
  · exact or_comm

theorem saysAt_iff (hc : code.Regular n) {edge : Option MarkedEdge}
    (hedge : ∀ st, code i j = some st → ∃ m, edge = some m ∧ MarkedEdge.Reads m i j st)
    (hnone : code i j = none → edge = none) (p : Statement) :
    SaysAt code (i, j) p ↔ ∃ m, edge = some m ∧ states m p := by
  cases hcode : code i j with
  | none =>
    rw [hnone hcode]
    refine iff_of_false ?_ (by simp)
    rintro ⟨⟨-, hp⟩, hij | hij⟩
    · rw [(Prod.mk.inj hij).1, (Prod.mk.inj hij).2, hcode] at hp
      cases hp
    · have := hc.symm hp
      rw [(Prod.mk.inj hij).1, (Prod.mk.inj hij).2, hcode] at this
      cases this
  | some st =>
    obtain ⟨m, rfl, hm⟩ := hedge st hcode
    obtain ⟨s, t⟩ := st
    obtain ⟨x, y, u, v, mid⟩ := p
    simp only [Option.some.injEq, exists_eq_left', states_of_reads hm, SaysAt, Says, Statement.middle,
      Prod.mk.injEq]
    constructor
    · rintro ⟨⟨rfl, hp⟩, ⟨rfl, rfl⟩ | ⟨rfl, rfl⟩⟩
      · have := Option.some.inj (hp.symm.trans hcode)
        simp only [Prod.mk.injEq] at this
        exact Or.inl ⟨rfl, rfl, this.1, this.2, rfl⟩
      · have := Option.some.inj ((hc.symm hp).symm.trans hcode)
        simp only [Prod.mk.injEq] at this
        exact Or.inr ⟨rfl, rfl, this.2, this.1, rfl⟩
    · rintro (⟨rfl, rfl, rfl, rfl, rfl⟩ | ⟨rfl, rfl, rfl, rfl, rfl⟩)
      · exact ⟨⟨rfl, hcode⟩, Or.inl ⟨rfl, rfl⟩⟩
      · exact ⟨⟨rfl, hc.symm hcode⟩, Or.inr ⟨rfl, rfl⟩⟩

theorem inMask_of_hasEdge (h : hasEdge mask n x y = true) :
    InMask n (x, y) := by
  unfold hasEdge at h
  split_ifs at h with hout
  exact ⟨by simp only; omega, by simp only; omega, by simp only; omega⟩

theorem InMask.swap (h : InMask n (x, y)) : InMask n (y, x) :=
  ⟨h.1.symm, h.2.2, h.2.1⟩

def pagCode (mask marks : AdjacencyMask) (n : Nat) : Code := fun x y =>
  pagMarksOf (hasEdge mask n x y) (hasEdge mask n y x) (hasEdge marks n x y) (hasEdge marks n y x)

def cpdagCode (mask : AdjacencyMask) (n : Nat) : Code := fun x y =>
  cpdagMarksOf (hasEdge mask n x y) (hasEdge mask n y x)

def admgCode (mask : AdjacencyMask) (n : Nat) : Code := fun x y =>
  admgMarksOf (hasEdge mask n x y) (hasEdge mask n y x)

/-- Marks are read off a pair only where one of its bits is set. -/
theorem inMask_of_bits (mask : AdjacencyMask)
    (h : ¬ (hasEdge mask n x y = false ∧ hasEdge mask n y x = false)) : InMask n (x, y) := by
  rcases hxy : hasEdge mask n x y with _ | _
  · rcases hyx : hasEdge mask n y x with _ | _
    · exact absurd ⟨hxy, hyx⟩ h
    · exact (inMask_of_hasEdge hyx).swap
  · exact inMask_of_hasEdge hxy

theorem regular_of_marks (marksOf : Bool → Bool → Bool → Bool → Option (Endpoint × Endpoint))
    (hflip : ∀ ij ji ca cb s t, marksOf ij ji ca cb = some (s, t) → marksOf ji ij cb ca = some (t, s))
    (hnone : ∀ ca cb, marksOf false false ca cb = none) (mask marks : AdjacencyMask) (n : Nat) :
    Code.Regular n fun x y => marksOf (hasEdge mask n x y) (hasEdge mask n y x) (hasEdge marks n x y)
      (hasEdge marks n y x) where
  symm {x y s t} h := hflip _ _ _ _ s t h
  inMask {x y st} h := by
    refine inMask_of_bits mask fun ⟨h1, h2⟩ => ?_
    rw [h1, h2, hnone] at h
    cases h

theorem pagCode_regular (mask marks : AdjacencyMask) (n : Nat) : (pagCode mask marks n).Regular n := by
  refine regular_of_marks pagMarksOf (fun ij ji ca cb s t h => ?_) (fun _ _ => rfl) mask marks n
  cases ij <;> cases ji <;> cases ca <;> cases cb <;> cases h <;> rfl

theorem cpdagCode_regular (mask : AdjacencyMask) (n : Nat) : (cpdagCode mask n).Regular n := by
  refine regular_of_marks (fun ij ji _ _ => cpdagMarksOf ij ji) (fun ij ji _ _ s t h => ?_)
    (fun _ _ => rfl) mask mask n
  cases ij <;> cases ji <;> cases h <;> rfl

theorem admgCode_regular (mask : AdjacencyMask) (n : Nat) : (admgCode mask n).Regular n := by
  refine regular_of_marks (fun ij ji _ _ => admgMarksOf ij ji) (fun ij ji _ _ s t h => ?_)
    (fun _ _ => rfl) mask mask n
  cases ij <;> cases ji <;> cases h <;> rfl

theorem reads_undirected (i j : Nat) : MarkedEdge.Reads (.undirected i j) i j (.tail, .tail) := by
  unfold MarkedEdge.undirected
  split_ifs
  · exact Or.inl rfl
  · exact Or.inr rfl

theorem reads_bidirected (i j : Nat) : MarkedEdge.Reads (.bidirected i j) i j (.arrow, .arrow) := by
  unfold MarkedEdge.bidirected
  split_ifs
  · exact Or.inl rfl
  · exact Or.inr rfl

theorem pagEdgeOf_reads (i j : Nat) (ij ji ca cb : Bool) :
    (∀ st, pagMarksOf ij ji ca cb = some st →
      ∃ m, pagEdgeOf i j ij ji ca cb = some m ∧ MarkedEdge.Reads m i j st) ∧
    (pagMarksOf ij ji ca cb = none → pagEdgeOf i j ij ji ca cb = none) := by
  refine ⟨fun st h => ?_, fun h => ?_⟩
  · cases ij <;> cases ji <;> cases ca <;> cases cb <;> cases h <;>
      first
      | exact ⟨_, rfl, reads_bidirected i j⟩
      | exact ⟨_, rfl, Or.inl rfl⟩
      | exact ⟨_, rfl, Or.inr rfl⟩
      | skip
    refine ⟨_, rfl, ?_⟩
    split_ifs
    · exact Or.inl rfl
    · exact Or.inr rfl
  · cases ij <;> cases ji <;> cases ca <;> cases cb <;> cases h <;> rfl

theorem cpdagEdgeOf_reads (i j : Nat) (ij ji : Bool) :
    (∀ st, cpdagMarksOf ij ji = some st →
      ∃ m, cpdagEdgeOf i j ij ji = some m ∧ MarkedEdge.Reads m i j st) ∧
    (cpdagMarksOf ij ji = none → cpdagEdgeOf i j ij ji = none) := by
  refine ⟨fun st h => ?_, fun h => ?_⟩
  · cases ij <;> cases ji <;> cases h
    · exact ⟨_, rfl, Or.inr rfl⟩
    · exact ⟨_, rfl, Or.inl rfl⟩
    · exact ⟨_, rfl, reads_undirected i j⟩
  · cases ij <;> cases ji <;> cases h
    rfl

theorem admgEdgeOf_reads (i j : Nat) (ij ji : Bool) :
    (∀ st, admgMarksOf ij ji = some st →
      ∃ m, admgEdgeOf i j ij ji = some m ∧ MarkedEdge.Reads m i j st) ∧
    (admgMarksOf ij ji = none → admgEdgeOf i j ij ji = none) := by
  refine ⟨fun st h => ?_, fun h => ?_⟩
  · cases ij <;> cases ji <;> cases h
    · exact ⟨_, rfl, Or.inr rfl⟩
    · exact ⟨_, rfl, Or.inl rfl⟩
    · exact ⟨_, rfl, Or.inl rfl⟩
  · cases ij <;> cases ji <;> cases h
    rfl

/-! ## The three decoders -/

section Decoders

variable (mask marks : AdjacencyMask) (n : Nat)

def pagEdgeAt (e : Nat × Nat) : Option MarkedEdge :=
  pagEdgeOf e.1 e.2 (hasEdge mask n e.1 e.2) (hasEdge mask n e.2 e.1) (hasEdge marks n e.1 e.2)
    (hasEdge marks n e.2 e.1)

def cpdagEdgeAt (e : Nat × Nat) : Option MarkedEdge :=
  cpdagEdgeOf e.1 e.2 (hasEdge mask n e.1 e.2) (hasEdge mask n e.2 e.1)

def admgEdgeAt (e : Nat × Nat) : Option MarkedEdge :=
  admgEdgeOf e.1 e.2 (hasEdge mask n e.1 e.2) (hasEdge mask n e.2 e.1)

def admgInsertEdge (g : Admg) (m : MarkedEdge) : Except GraphError Admg :=
  if m.atA = .arrow then g.insertBidirected m.a m.b else g.insertDirected m.a m.b

theorem pagInsertAt_eq (g : Pag) (e : Nat × Nat) : pagInsertAt mask marks n g e =
    match pagEdgeAt mask marks n e with
    | none => .ok g
    | some m => liftGraph (g.insertMarked m) := by
  obtain ⟨i, j⟩ := e
  unfold pagInsertAt pagEdgeAt
  simp only
  cases hasEdge mask n i j <;> cases hasEdge mask n j i <;> cases hasEdge marks n i j <;>
    cases hasEdge marks n j i <;> rfl

theorem cpdagInsertAt_eq (g : Cpdag) (e : Nat × Nat) : cpdagInsertAt mask n g e =
    match cpdagEdgeAt mask n e with
    | none => .ok g
    | some m => liftGraph (g.insertMarked m) := by
  obtain ⟨i, j⟩ := e
  unfold cpdagInsertAt cpdagEdgeAt
  simp only
  cases hasEdge mask n i j <;> cases hasEdge mask n j i <;> rfl

theorem admgInsertAt_eq (g : Admg) (e : Nat × Nat) : admgInsertAt mask n g e =
    match admgEdgeAt mask n e with
    | none => .ok g
    | some m => liftGraph (admgInsertEdge g m) := by
  obtain ⟨i, j⟩ := e
  unfold admgInsertAt admgEdgeAt
  simp only
  cases hasEdge mask n i j <;> cases hasEdge mask n j i <;> rfl

theorem admgInsertEdge_ok {i j : Nat} {ij ji : Bool}
    (hm : admgEdgeOf i j ij ji = some m) {g g' : Admg} (h : admgInsertEdge g m = .ok g') :
    GraphView.nodes g' = GraphView.nodes g ∧
      ∀ p, GraphView.Holds g' p ↔ GraphView.Holds g p ∨ states m p := by
  have hdir : ∀ a b : Nat, g.insertDirected a b = .ok g' → GraphView.nodes g' = GraphView.nodes g ∧
      ∀ p, GraphView.Holds g' p ↔ GraphView.Holds g p ∨ states (directedOf (a, b)) p := fun a b hi =>
    ⟨admg_directed_inserts.base_eq (e := (a, b)) (converted_ok.mpr hi),
      admg_directed_inserts.holds (e := (a, b)) (converted_ok.mpr hi)⟩
  cases ij <;> cases ji <;> cases hm
  · exact hdir j i h
  · exact hdir i j h
  · have hbi := admg_bidirected_inserts.holds (e := (i, j)) (converted_ok.mpr h)
    refine ⟨admg_bidirected_inserts.base_eq (e := (i, j)) (converted_ok.mpr h), fun p => ?_⟩
    rw [hbi p]
    refine or_congr_right ?_
    exact (states_of_reads (reads_bidirected i j) p).trans
      (states_of_reads (Or.inl rfl : MarkedEdge.Reads ⟨i, j, .arrow, .arrow, .empty⟩ i j
        (.arrow, .arrow)) p).symm

theorem pag_decoder : Inserts (pagInsertAt mask marks n) GraphView.nodes GraphView.Holds
    (SaysAt (pagCode mask marks n)) :=
  inserts_edges (pagInsertAt_eq mask marks n) (fun _ _ _ => pag_insertMarked_ok) fun e p =>
    saysAt_iff (pagCode_regular mask marks n) (pagEdgeOf_reads e.1 e.2 _ _ _ _).1
      (pagEdgeOf_reads e.1 e.2 _ _ _ _).2 p

theorem cpdag_decoder : Inserts (cpdagInsertAt mask n) GraphView.nodes GraphView.Holds
    (SaysAt (cpdagCode mask n)) :=
  inserts_edges (cpdagInsertAt_eq mask n) (fun _ _ _ => cpdag_insertMarked_ok) fun e p =>
    saysAt_iff (cpdagCode_regular mask n) (cpdagEdgeOf_reads e.1 e.2 _ _).1
      (cpdagEdgeOf_reads e.1 e.2 _ _).2 p

theorem admg_decoder : Inserts (admgInsertAt mask n) GraphView.nodes GraphView.Holds
    (SaysAt (admgCode mask n)) :=
  inserts_edges (admgInsertAt_eq mask n) (fun _ _ hm => admgInsertEdge_ok hm) fun e p =>
    saysAt_iff (admgCode_regular mask n) (admgEdgeOf_reads e.1 e.2 _ _).1
      (admgEdgeOf_reads e.1 e.2 _ _).2 p

theorem requireMaskCapacity_ok {what : String} : requireMaskCapacity n what = .ok () ↔
    0 < n ∧ n ≤ maxPosteriorNodes := by
  unfold requireMaskCapacity
  split_ifs with h0 h1
  · exact iff_of_false (by simp) fun h => by omega
  · exact iff_of_false (by simp) fun h => by omega
  · exact iff_of_true rfl ⟨Nat.pos_of_ne_zero h0, Nat.not_lt.mp h1⟩

theorem maxPosteriorNodes_le : maxPosteriorNodes ≤ u32Max + 1 := by decide

variable {mask marks n}

/-- **What a decoded PAG holds.** -/
theorem pagFromAdjacencyMask_ok {g : Pag} (h : pagFromAdjacencyMask mask marks n = .ok g) :
    0 < n ∧ n ≤ maxPosteriorNodes ∧ g.nodes = staticNodes n ∧
      ∀ p, GraphView.Holds g p ↔ Says (pagCode mask marks n) p := by
  obtain ⟨_, hcap, h⟩ := bind_ok h
  obtain ⟨hpos, hn⟩ := (requireMaskCapacity_ok n).mp hcap
  obtain ⟨hnodes, hempty⟩ := pag_withVariables (hn.trans maxPosteriorNodes_le)
  obtain ⟨hsame, hholds⟩ := decode_reads (pagCode_regular mask marks n)
    (pag_decoder mask marks n) hempty h
  exact ⟨hpos, hn, hsame.trans hnodes, hholds⟩

/-- **What a decoded CPDAG holds.** -/
theorem cpdagFromAdjacencyMask_ok {g : Cpdag} (h : cpdagFromAdjacencyMask mask n = .ok g) :
    0 < n ∧ n ≤ maxPosteriorNodes ∧ g.nodes = staticNodes n ∧
      ∀ p, GraphView.Holds g p ↔ Says (cpdagCode mask n) p := by
  obtain ⟨_, hcap, h⟩ := bind_ok h
  obtain ⟨hpos, hn⟩ := (requireMaskCapacity_ok n).mp hcap
  obtain ⟨hnodes, hempty⟩ := cpdag_withVariables (hn.trans maxPosteriorNodes_le)
  obtain ⟨hsame, hholds⟩ := decode_reads (cpdagCode_regular mask n) (cpdag_decoder mask n) hempty h
  exact ⟨hpos, hn, hsame.trans hnodes, hholds⟩

/-- **What a decoded ADMG holds.** -/
theorem admgFromAdjacencyMask_ok {g : Admg} (h : admgFromAdjacencyMask mask n = .ok g) :
    0 < n ∧ n ≤ maxPosteriorNodes ∧ g.nodes = staticNodes n ∧
      ∀ p, GraphView.Holds g p ↔ Says (admgCode mask n) p := by
  obtain ⟨_, hcap, h⟩ := bind_ok h
  obtain ⟨hpos, hn⟩ := (requireMaskCapacity_ok n).mp hcap
  obtain ⟨hnodes, hempty⟩ := admg_withVariables (hn.trans maxPosteriorNodes_le)
  obtain ⟨hsame, hholds⟩ := decode_reads (admgCode_regular mask n) (admg_decoder mask n) hempty h
  exact ⟨hpos, hn, hsame.trans hnodes, hholds⟩

variable (hpos : 0 < n) (hn : n ≤ maxPosteriorNodes)

include hpos hn

/-- **A PAG code without a directed cycle is decoded.** -/
theorem pagFromAdjacencyMask_accepts (hac : ∀ v, ¬ TransGen (pagCode mask marks n).Dir v v) :
    ∃ g, pagFromAdjacencyMask mask marks n = .ok g := by
  obtain ⟨hnodes, hempty⟩ := pag_withVariables (hn.trans maxPosteriorNodes_le)
  obtain ⟨g, hg⟩ := decode_accepts (n := n) (pag_decoder mask marks n) hempty
    fun e _ g hg hsub hnew => by
      have hcount : g.nodeCount = n := length_of_static (hg.trans hnodes)
      rw [pagInsertAt_eq]
      cases hedge : pagEdgeAt mask marks n e with
      | none => exact ⟨g, rfl⟩
      | some m =>
        have hcoded : ∀ p, states m p → SaysAt (pagCode mask marks n) e p := fun p hp =>
          (saysAt_iff (pagCode_regular mask marks n) (pagEdgeOf_reads e.1 e.2 _ _ _ _).1
            (pagEdgeOf_reads e.1 e.2 _ _ _ _).2 p).mpr ⟨m, hedge, hp⟩
        obtain ⟨ha, hb, hne, hnone, hcyc⟩ := fits_code (pagCode_regular mask marks n) hac
          (fun x y v hl => hsub (x, y, v) hl) (fun p hp => (hcoded p hp).1)
          fun p hp hl => hnew p (hcoded p hp) hl
        obtain ⟨g', hg'⟩ := pag_insertMarked_new (hcount ▸ ha : m.a < g.nodeCount)
          (hcount ▸ hb : m.b < g.nodeCount) hne hnone hcyc
        exact ⟨g', liftGraph_ok.mpr hg'⟩
  exact ⟨g, (ok_then ((requireMaskCapacity_ok n).mpr ⟨hpos, hn⟩) _).trans hg⟩

/-- **A CPDAG code without a directed cycle is decoded.** -/
theorem cpdagFromAdjacencyMask_accepts (hac : ∀ v, ¬ TransGen (cpdagCode mask n).Dir v v) :
    ∃ g, cpdagFromAdjacencyMask mask n = .ok g := by
  obtain ⟨hnodes, hempty⟩ := cpdag_withVariables (hn.trans maxPosteriorNodes_le)
  obtain ⟨g, hg⟩ := decode_accepts (n := n) (cpdag_decoder mask n) hempty fun e _ g hg hsub hnew => by
    have hcount : g.nodeCount = n := length_of_static (hg.trans hnodes)
    rw [cpdagInsertAt_eq]
    cases hedge : cpdagEdgeAt mask n e with
    | none => exact ⟨g, rfl⟩
    | some m =>
      have hcoded : ∀ p, states m p → SaysAt (cpdagCode mask n) e p := fun p hp =>
        (saysAt_iff (cpdagCode_regular mask n) (cpdagEdgeOf_reads e.1 e.2 _ _).1
          (cpdagEdgeOf_reads e.1 e.2 _ _).2 p).mpr ⟨m, hedge, hp⟩
      obtain ⟨ha, hb, hne, hnone, hcyc⟩ := fits_code (cpdagCode_regular mask n) hac
        (fun x y v hl => hsub (x, y, v) hl) (fun p hp => (hcoded p hp).1)
        fun p hp hl => hnew p (hcoded p hp) hl
      have hlegal : m.isCpdagLegal = true := by
        unfold cpdagEdgeAt cpdagEdgeOf MarkedEdge.undirected at hedge
        split at hedge
        · split_ifs at hedge <;> cases hedge <;> rfl
        · cases hedge
          rfl
        · cases hedge
          rfl
        · cases hedge
      obtain ⟨g', hg', -⟩ := g.insertMarked_ok hlegal hcyc (hcount ▸ ha : m.a < g.nodeCount)
        (hcount ▸ hb : m.b < g.nodeCount) hne hnone
      exact ⟨g', liftGraph_ok.mpr hg'⟩
  exact ⟨g, (ok_then ((requireMaskCapacity_ok n).mpr ⟨hpos, hn⟩) _).trans hg⟩

/-- **An ADMG code without a directed cycle is decoded.** -/
theorem admgFromAdjacencyMask_accepts (hac : ∀ v, ¬ TransGen (admgCode mask n).Dir v v) :
    ∃ g, admgFromAdjacencyMask mask n = .ok g := by
  obtain ⟨hnodes, hempty⟩ := admg_withVariables (hn.trans maxPosteriorNodes_le)
  obtain ⟨g, hg⟩ := decode_accepts (n := n) (admg_decoder mask n) hempty fun e _ g hg hsub hnew => by
    have hcount : g.nodeCount = n := length_of_static (hg.trans hnodes)
    obtain ⟨i, j⟩ := e
    rw [admgInsertAt_eq]
    have hcoded : ∀ m, admgEdgeAt mask n (i, j) = some m → ∀ p, states m p →
        SaysAt (admgCode mask n) (i, j) p := fun m hm p hp =>
      (saysAt_iff (admgCode_regular mask n) (admgEdgeOf_reads i j _ _).1
        (admgEdgeOf_reads i j _ _).2 p).mpr ⟨m, hm, hp⟩
    have hdsub : ∀ a b, g.mixed.dir a b → (admgCode mask n).Dir a b := fun a b hab =>
      (hsub (a, b, .tail, .arrow, .empty) (Or.inl (Or.inl ⟨rfl, hab⟩))).2
    -- a directed edge of the code is inserted
    have hdir : ∀ a b, admgEdgeAt mask n (i, j) = some (.directed a b) →
        ∃ g', liftGraph (g.insertDirected a b) = .ok g' := fun a b hm => by
      have hab := hcoded _ hm (a, b, .tail, .arrow, .empty) (Or.inl rfl)
      obtain ⟨-, ha, hb⟩ := (admgCode_regular mask n).inMask hab.1.2
      obtain ⟨g', hg', -⟩ := Admg.insertDirected_ok (hcount ▸ ha : a < g.nodeCount)
        (hcount ▸ hb : b < g.nodeCount) (fun hold => hnew _ hab (Or.inl (Or.inl ⟨rfl, hold⟩)))
        (fun hr => hac a (TransGen.head' hab.1.2 (ReflTransGen.mono hdsub _ _ hr)))
      exact ⟨g', liftGraph_ok.mpr hg'⟩
    cases hij : hasEdge mask n i j <;> cases hji : hasEdge mask n j i
    · simp only [admgEdgeAt, hij, hji, admgEdgeOf]
      exact ⟨g, rfl⟩
    · simp only [admgEdgeAt, hij, hji, admgEdgeOf] at hdir ⊢
      exact hdir j i rfl
    · simp only [admgEdgeAt, hij, hji, admgEdgeOf] at hdir ⊢
      exact hdir i j rfl
    · simp only [admgEdgeAt, hij, hji, admgEdgeOf] at hcoded ⊢
      have hab := hcoded _ rfl (i, j, .arrow, .arrow, .empty) (Or.inl rfl)
      obtain ⟨hne, ha, hb⟩ := (admgCode_regular mask n).inMask hab.1.2
      obtain ⟨g', hg', -⟩ := Admg.insertBidirected_ok (hcount ▸ ha : i < g.nodeCount)
        (hcount ▸ hb : j < g.nodeCount) hne fun hold => hnew _ hab (Or.inr ⟨rfl, hold⟩)
      exact ⟨g', liftGraph_ok.mpr hg'⟩
  exact ⟨g, (ok_then ((requireMaskCapacity_ok n).mpr ⟨hpos, hn⟩) _).trans hg⟩

end Decoders

/-! ## The three encoders -/

/-- Whether the bit of a PAG pair is set, from the marks at its first and second node. -/
def pagBit : Endpoint → Endpoint → Bool
  | .tail, .arrow | .arrow, .arrow | .circle, .arrow | .tail, .circle | .circle, .circle => true
  | _, _ => false

def circleBit : Endpoint → Endpoint → Bool
  | .circle, .arrow | .tail, .circle | .circle, .circle => true
  | _, _ => false

def cpdagBit : Endpoint → Endpoint → Bool
  | .tail, .tail | .tail, .arrow => true
  | _, _ => false

/-- The marks the encoder of PAGs takes. -/
def packable : Endpoint → Endpoint → Bool
  | .tail, .tail | .conflict, _ | _, .conflict => false
  | _, _ => true

/-- The bits of both orders of a pair. -/
def setPair (n i j : Nat) (mask : AdjacencyMask) : Bool → Bool → AdjacencyMask
  | true, true => setEdge (setEdge mask n i j true) n j i true
  | true, false => setEdge mask n i j true
  | false, true => setEdge mask n j i true
  | false, false => mask

/-- The pairs whose bits an edge between `i` and `j` sets. -/
def PairBits (bit : Endpoint → Endpoint → Bool) (i j : Nat) (s t : Endpoint) (p : Nat × Nat) : Prop :=
  (p = (i, j) ∧ bit s t = true) ∨ (p = (j, i) ∧ bit t s = true)

theorem Packs.setPair {P : Nat × Nat → Prop} (h : Packs n P mask)
    (hn : n ≤ maxPosteriorNodes) {i j : Nat} (hij : InMask n (i, j)) (bit : Endpoint → Endpoint → Bool)
    (s t : Endpoint) : Packs n (fun p => P p ∨ PairBits bit i j s t p)
      (Discovery.setPair n i j mask (bit s t) (bit t s)) := by
  unfold PairBits
  cases hst : bit s t <;> cases hts : bit t s
  · exact h.congr fun p _ => by simp
  · exact (h.setEdge hn hij.swap).congr fun p _ => by simp
  · exact (h.setEdge hn hij).congr fun p _ => by simp
  · exact ((h.setEdge hn hij).setEdge hn hij.swap).congr fun p _ => by simp [or_assoc]

theorem packMarks_eq (n i j : Nat) (m : AdjacencyMask × AdjacencyMask) (s t : Endpoint) :
    (packable s t = true ∧ packMarks n i j m s t = .ok
      (setPair n i j m.1 (pagBit s t) (pagBit t s), setPair n i j m.2 (circleBit s t) (circleBit t s))) ∨
    (packable s t = false ∧ ∃ e, packMarks n i j m s t = .error e) := by
  cases s <;> cases t <;> first | exact Or.inl ⟨rfl, rfl⟩ | exact Or.inr ⟨rfl, _, rfl⟩

theorem packCpdagEdge_eq (n : Nat) (mask : AdjacencyMask) (e : MarkedEdge) : packCpdagEdge n mask e =
    setPair n e.a e.b mask (cpdagBit e.atA e.atB) (cpdagBit e.atB e.atA) := by
  obtain ⟨a, b, s, t, mid⟩ := e
  cases s <;> cases t <;> rfl

def pagPairs (bit : Endpoint → Endpoint → Bool) (g : Pag) (p : Nat × Nat) : Prop :=
  ∃ v, look g.adj p.1 p.2 = some v ∧ bit v.1 v.2.1 = true

theorem packPagAt_eq (m : AdjacencyMask × AdjacencyMask) :
    packPagAt g n m (i, j) = match look g.adj i j with
      | none => .ok m
      | some v => packMarks n i j m v.1 v.2.1 := by
  unfold packPagAt
  simp only
  rw [g.stored.edgeBetween_eq]
  cases look g.adj i j with
  | none => rfl
  | some v => exact if_pos rfl

theorem packPag_fold (hn : n ≤ maxPosteriorNodes) : ∀ (l : List (Nat × Nat))
    {P Q : Nat × Nat → Prop} {m : AdjacencyMask × AdjacencyMask}, (∀ e ∈ l, InMask n e) →
    Packs n P m.1 → Packs n Q m.2 →
    (∃ m', l.foldlM (packPagAt g n) m = .ok m' ∧
      (∀ e ∈ l, ∀ v, look g.adj e.1 e.2 = some v → packable v.1 v.2.1 = true) ∧
      Packs n (fun p => P p ∨ ∃ e ∈ l, ∃ v, look g.adj e.1 e.2 = some v ∧
        PairBits pagBit e.1 e.2 v.1 v.2.1 p) m'.1 ∧
      Packs n (fun p => Q p ∨ ∃ e ∈ l, ∃ v, look g.adj e.1 e.2 = some v ∧
        PairBits circleBit e.1 e.2 v.1 v.2.1 p) m'.2) ∨
    ((∃ err, l.foldlM (packPagAt g n) m = .error err) ∧
      ∃ e ∈ l, ∃ v, look g.adj e.1 e.2 = some v ∧ packable v.1 v.2.1 = false)
  | [], P, Q, m, _, hP, hQ => Or.inl ⟨m, rfl, by simp, hP.congr fun p _ => by simp,
      hQ.congr fun p _ => by simp⟩
  | (i, j) :: l, P, Q, m, hin, hP, hQ => by
    have hij := hin (i, j) List.mem_cons_self
    have hin' : ∀ e ∈ l, InMask n e := fun e he => hin e (List.mem_cons_of_mem _ he)
    rw [List.foldlM_cons, packPagAt_eq]
    cases hl : look g.adj i j with
    | none =>
      rcases packPag_fold hn l hin' hP hQ with ⟨m', hm', hpack, h1, h2⟩ | ⟨herr, e, he, hbad⟩
      · refine Or.inl ⟨m', hm', ?_, h1.congr fun p _ => ?_, h2.congr fun p _ => ?_⟩
        · intro e he v hv
          rcases List.mem_cons.mp he with rfl | he
          · rw [hl] at hv
            cases hv
          · exact hpack e he v hv
        · simp [hl]
        · simp [hl]
      · exact Or.inr ⟨herr, e, List.mem_cons_of_mem _ he, hbad⟩
    | some v =>
      rcases packMarks_eq n i j m v.1 v.2.1 with ⟨hok, heq⟩ | ⟨hbad, err, heq⟩
      · simp only [heq]
        have hP' := hP.setPair hn hij pagBit v.1 v.2.1
        have hQ' := hQ.setPair hn hij circleBit v.1 v.2.1
        rcases packPag_fold hn l hin' (m := (_, _)) hP' hQ' with
          ⟨m', hm', hpack, h1, h2⟩ | ⟨herr, e, he, hbad⟩
        · refine Or.inl ⟨m', hm', ?_, h1.congr fun p _ => ?_, h2.congr fun p _ => ?_⟩
          · intro e he w hw
            rcases List.mem_cons.mp he with rfl | he
            · rw [hl] at hw
              cases hw
              exact hok
            · exact hpack e he w hw
          · simp only [List.mem_cons, exists_eq_or_imp, hl, Option.some.injEq, exists_eq_left', or_assoc]
          · simp only [List.mem_cons, exists_eq_or_imp, hl, Option.some.injEq, exists_eq_left', or_assoc]
        · exact Or.inr ⟨herr, e, List.mem_cons_of_mem _ he, hbad⟩
      · refine Or.inr ⟨⟨err, ?_⟩, (i, j), List.mem_cons_self, v, hl, hbad⟩
        simp only [heq]
        rfl

/-- The pairs the loop over `i < j` sets are those of both orders. -/
theorem pagPairs_upper (p : Nat × Nat) :
    (∃ e ∈ upperPairs g.nodeCount, ∃ v, look g.adj e.1 e.2 = some v ∧
      PairBits bit e.1 e.2 v.1 v.2.1 p) ↔ pagPairs bit g p := by
  obtain ⟨x, y⟩ := p
  constructor
  · rintro ⟨⟨i, j⟩, -, v, hv, ⟨he, hb⟩ | ⟨he, hb⟩⟩
    · cases he
      exact ⟨v, hv, hb⟩
    · cases he
      exact ⟨v.flip, g.stored.mirrored _ _ _ hv, hb⟩
  · rintro ⟨v, hv, hb⟩
    obtain ⟨hx, hy⟩ := g.stored.lt_of_look hv
    rcases Nat.lt_or_gt_of_ne (g.stored.ne_of_look hv) with hlt | hlt
    · exact ⟨(x, y), mem_upperPairs.mpr ⟨hlt, hy⟩, v, hv, Or.inl ⟨rfl, hb⟩⟩
    · exact ⟨(y, x), mem_upperPairs.mpr ⟨hlt, hx⟩, v.flip, g.stored.mirrored _ _ _ hv,
        Or.inr ⟨rfl, hb⟩⟩

/-- The encoder takes every edge of the graph. -/
def PagPackable (g : Pag) : Prop :=
  0 < g.nodeCount ∧ g.nodeCount ≤ maxPosteriorNodes ∧
    ∀ x y v, look g.adj x y = some v → packable v.1 v.2.1 = true

/-- **What the encoder of PAGs does.** -/
theorem packPag_cases (g : Pag) :
    (PagPackable g ∧ ∃ m, adjacencyMasksFromPag g = .ok m ∧ Packs g.nodeCount (pagPairs pagBit g) m.1 ∧
      Packs g.nodeCount (pagPairs circleBit g) m.2) ∨
    (¬ PagPackable g ∧ ∃ e, adjacencyMasksFromPag g = .error e) := by
  unfold adjacencyMasksFromPag
  cases hcap : requireMaskCapacity g.nodeCount "adjacency_masks_from_pag" with
  | error e =>
    refine Or.inr ⟨fun h => ?_, e, rfl⟩
    rw [(requireMaskCapacity_ok g.nodeCount).mpr ⟨h.1, h.2.1⟩] at hcap
    cases hcap
  | ok _ =>
    obtain ⟨hpos, hn⟩ := (requireMaskCapacity_ok g.nodeCount).mp hcap
    have hin : ∀ e ∈ upperPairs g.nodeCount, InMask g.nodeCount e := fun e he => by
      obtain ⟨hlt, hj⟩ := mem_upperPairs.mp he
      exact ⟨hlt.ne, hlt.trans hj, hj⟩
    rcases packPag_fold (g := g) hn (upperPairs g.nodeCount) hin (m := (.empty, .empty)) packs_empty
        packs_empty with ⟨m, hm, hpack, h1, h2⟩ | ⟨⟨err, herr⟩, e, -, v, hv, hbad⟩
    · refine Or.inl ⟨⟨hpos, hn, fun x y v hv => ?_⟩, m, hm,
        h1.congr fun p _ => (or_iff_right id).trans (pagPairs_upper p),
        h2.congr fun p _ => (or_iff_right id).trans (pagPairs_upper p)⟩
      obtain ⟨hx, hy⟩ := g.stored.lt_of_look hv
      rcases Nat.lt_or_gt_of_ne (g.stored.ne_of_look hv) with hlt | hlt
      · exact hpack (x, y) (mem_upperPairs.mpr ⟨hlt, hy⟩) v hv
      · have hflip := hpack (y, x) (mem_upperPairs.mpr ⟨hlt, hx⟩) v.flip (g.stored.mirrored _ _ _ hv)
        have hsymm : ∀ s t : Endpoint, packable s t = packable t s := by
          intro s t
          cases s <;> cases t <;> rfl
        exact (hsymm _ _).trans hflip
    · refine Or.inr ⟨fun h => ?_, err, herr⟩
      rw [h.2.2 _ _ v hv] at hbad
      cases hbad

/-- **What the encoder of CPDAGs does.** -/
theorem packCpdag {g : Cpdag} (hpos : 0 < g.nodeCount) (hn : g.nodeCount ≤ maxPosteriorNodes) :
    ∃ m, adjacencyMaskFromCpdag g = .ok m ∧
      Packs g.nodeCount (fun p => ∃ v, look g.adj p.1 p.2 = some v ∧ cpdagBit v.1 v.2.1 = true) m := by
  refine ⟨_, (ok_then ((requireMaskCapacity_ok g.nodeCount).mpr ⟨hpos, hn⟩) _).trans rfl, ?_⟩
  refine (packs_foldl (S := fun e p => PairBits cpdagBit e.a e.b e.atA e.atB p)
    (fun e he P mask h => ?_) packs_empty).congr fun p _ => (or_iff_right id).trans ?_
  · obtain ⟨-, hl⟩ := g.mem_edges.mp he
    obtain ⟨ha, hb⟩ := g.stored.lt_of_look hl
    rw [packCpdagEdge_eq]
    exact h.setPair hn ⟨g.stored.ne_of_look hl, ha, hb⟩ cpdagBit e.atA e.atB
  · obtain ⟨x, y⟩ := p
    constructor
    · rintro ⟨e, he, ⟨hp, hb⟩ | ⟨hp, hb⟩⟩
      · cases hp
        exact ⟨_, (g.mem_edges.mp he).2, hb⟩
      · cases hp
        exact ⟨_, g.stored.mirrored _ _ _ (g.mem_edges.mp he).2, hb⟩
    · rintro ⟨v, hv, hb⟩
      rcases g.exists_edge hv with ⟨-, he⟩ | ⟨-, he⟩
      · exact ⟨_, he, Or.inl ⟨rfl, hb⟩⟩
      · exact ⟨_, he, Or.inr ⟨rfl, hb⟩⟩

/-- **What the encoder of ADMGs does.** -/
theorem packAdmg {g : Admg} (hpos : 0 < g.nodeCount) (hn : g.nodeCount ≤ maxPosteriorNodes) :
    ∃ m, adjacencyMaskFromAdmg g = .ok m ∧
      Packs g.nodeCount (fun p => g.mixed.dir p.1 p.2 ∨ g.mixed.bi p.1 p.2) m := by
  refine ⟨_, (ok_then ((requireMaskCapacity_ok g.nodeCount).mpr ⟨hpos, hn⟩) _).trans rfl, ?_⟩
  refine (packs_foldl (S := fun i p => (∃ j ∈ g.children i, p = (i, j)) ∨
    ∃ j ∈ g.bidirectedNeighbors i, i < j ∧ (p = (i, j) ∨ p = (j, i)))
    (fun i _ P mask h => ?_) packs_empty).congr fun p _ => (or_iff_right id).trans ?_
  · unfold packAdmgAt
    have h1 := packs_foldl (S := fun j p => p = (i, j)) (l := g.children i)
      (f := fun mask j => setEdge mask g.nodeCount i j true) (fun j hj P mask h => by
        obtain ⟨hi, hj'⟩ := g.valid.in_range i j hj
        have hne : i ≠ j := fun e => g.acyclic i (TransGen.single (by
          have := hj
          rwa [← e] at this))
        exact h.setEdge hn ⟨hne, hi, hj'⟩) h
    refine (packs_foldl (S := fun j p => i < j ∧ (p = (i, j) ∨ p = (j, i))) (fun j hj P mask h => ?_)
      h1).congr fun p _ => or_assoc
    split_ifs with hlt
    · have hin : InMask g.nodeCount (i, j) := ⟨hlt.ne, g.biValid.in_range j i (g.biValid.symm i j hj),
        g.biValid.in_range i j hj⟩
      exact ((h.setEdge hn hin).setEdge hn hin.swap).congr fun p _ => by simp [hlt, or_assoc]
    · exact h.congr fun p _ => by simp [hlt]
  · obtain ⟨x, y⟩ := p
    constructor
    · rintro ⟨i, -, ⟨j, hj, he⟩ | ⟨j, hj, -, he | he⟩⟩
      · cases he
        exact Or.inl hj
      · cases he
        exact Or.inr hj
      · cases he
        exact Or.inr (g.mixed.bi_symm hj)
    · rintro (hd | hb)
      · exact ⟨x, List.mem_range.mpr (g.valid.in_range x y hd).1, Or.inl ⟨y, hd, rfl⟩⟩
      · have hx := g.biValid.in_range y x (g.mixed.bi_symm hb)
        have hy := g.biValid.in_range x y hb
        have hne : x ≠ y := fun e => g.biValid.irrefl x (by have := hb; rwa [← e] at this)
        rcases Nat.lt_or_gt_of_ne hne with hlt | hlt
        · exact ⟨x, List.mem_range.mpr hx, Or.inr ⟨y, hb, hlt, Or.inl rfl⟩⟩
        · exact ⟨y, List.mem_range.mpr hy, Or.inr ⟨x, g.mixed.bi_symm hb, hlt, Or.inr rfl⟩⟩

/-! ## Round trips -/

def SameMarks {G : Type} [GraphView G] (g g' : G) : Prop := ∀ x y s t,
  (∃ m, GraphView.Holds g' (x, y, s, t, m)) ↔ ∃ m, GraphView.Holds g (x, y, s, t, m)

/-- The graph is refused, or decoded from its masks with the same marks. -/
def RoundTrips {G M : Type} [GraphView G] (pack : G → Except DiscoveryError M)
    (unpack : M → Nat → Except DiscoveryError G) (g : G) : Prop :=
  ∀ m, pack g = .ok m → ∃ g', unpack m (GraphView.nodes g).length = .ok g' ∧ SameMarks g g'

theorem sameMarks_iff {G : Type} [GraphView G] {g g' : G}
    (hg : ∀ p, GraphView.Holds g' p ↔ Says code p) : SameMarks g g' ↔
      ∀ x y s t, code x y = some (s, t) ↔ ∃ m, GraphView.Holds g (x, y, s, t, m) := by
  unfold SameMarks
  refine forall_congr' fun x => forall_congr' fun y => forall_congr' fun s => forall_congr' fun t => ?_
  refine iff_congr ⟨fun ⟨m, hm⟩ => ((hg _).mp hm).2, fun h => ⟨.empty, (hg _).mpr ⟨rfl, h⟩⟩⟩ Iff.rfl

section Packed

variable {adj : MarkedRows} {bit bit' : Endpoint → Endpoint → Bool} {mask marks : AdjacencyMask}

section

variable (hs : Stored n adj)
  (h : Packs n (fun p => ∃ v, look adj p.1 p.2 = some v ∧ bit v.1 v.2.1 = true) mask)

include hs h

theorem hasEdge_of_packs (x y : Nat) :
    hasEdge mask n x y = ((look adj x y).map fun v => bit v.1 v.2.1).getD false := by
  rw [Bool.eq_iff_iff, h.hasEdge_iff]
  cases hl : look adj x y with
  | none => simp
  | some v =>
    obtain ⟨hx, hy⟩ := hs.lt_of_look hl
    have hin : InMask n (x, y) := ⟨hs.ne_of_look hl, hx, hy⟩
    simp only [Option.some.injEq, exists_eq_left', Option.map_some, Option.getD_some]
    exact and_iff_left hin

theorem code_of_packs
    (h' : Packs n (fun p => ∃ v, look adj p.1 p.2 = some v ∧ bit' v.1 v.2.1 = true) marks)
    (marksOf : Bool → Bool → Bool → Bool → Option (Endpoint × Endpoint))
    (hnone : marksOf false false false false = none) (x y : Nat) :
    marksOf (hasEdge mask n x y) (hasEdge mask n y x) (hasEdge marks n x y) (hasEdge marks n y x) =
      (look adj x y).bind fun v =>
        marksOf (bit v.1 v.2.1) (bit v.2.1 v.1) (bit' v.1 v.2.1) (bit' v.2.1 v.1) := by
  rw [hasEdge_of_packs hs h, hasEdge_of_packs hs h, hasEdge_of_packs hs h', hasEdge_of_packs hs h']
  cases hl : look adj x y with
  | none =>
    rw [hs.look_symm, hl]
    exact hnone
  | some v =>
    rw [hs.mirrored _ _ _ hl]
    rfl

end

theorem reads_look {back : Marks → Option (Endpoint × Endpoint)}
    (hcode : ∀ x y, code x y = (look adj x y).bind back)
    (hback : ∀ x y v, look adj x y = some v → back v = some (v.1, v.2.1)) (x y : Nat) (s t : Endpoint) :
    code x y = some (s, t) ↔ ∃ mid, look adj x y = some (s, t, mid) := by
  rw [hcode]
  cases hl : look adj x y with
  | none => simp
  | some v =>
    obtain ⟨s', t', mid⟩ := v
    simp only [Option.bind_some, hback x y _ hl, Option.some.injEq, Prod.mk.injEq]
    exact ⟨fun ⟨h1, h2⟩ => ⟨mid, h1, h2, rfl⟩, fun ⟨_, h1, h2, _⟩ => ⟨h1, h2⟩⟩

end Packed

theorem roundTrips_of_reads {G M : Type} [GraphView G] {pack : G → Except DiscoveryError M}
    {unpack : M → Nat → Except DiscoveryError G} {g : G} {m : M} (hm : pack g = .ok m)
    (hok : ∀ g', unpack m (GraphView.nodes g).length = .ok g' →
      ∀ p, GraphView.Holds g' p ↔ Says code p)
    (haccepts : (∀ v, ¬ TransGen code.Dir v v) →
      ∃ g', unpack m (GraphView.nodes g).length = .ok g')
    (hac : ∀ v, ¬ TransGen (fun a b => ∃ mid, GraphView.Holds g (a, b, .tail, .arrow, mid)) v v)
    (hread : ∀ x y s t, code x y = some (s, t) ↔ ∃ mid, GraphView.Holds g (x, y, s, t, mid)) :
    RoundTrips pack unpack g := by
  intro m' hm'
  obtain rfl := Except.ok.inj (hm.symm.trans hm')
  obtain ⟨g', hg'⟩ := haccepts fun v hv =>
    hac v (TransGen.mono (fun a b hab => (hread a b .tail .arrow).mp hab) v v hv)
  exact ⟨g', hg', (sameMarks_iff (hok g' hg')).mpr hread⟩

/-- **A PAG is refused or comes back, unless it has an edge with a tail and a circle.** -/
theorem pag_roundTrips_iff (g : Pag) :
    RoundTrips adjacencyMasksFromPag (fun m n => pagFromAdjacencyMask m.1 m.2 n) g ↔
      (PagPackable g → ∀ x y m, look g.adj x y ≠ some (.tail, .circle, m)) := by
  rcases packPag_cases g with ⟨hpack, m, hm, h1, h2⟩ | ⟨hpack, e, he⟩
  · have hcode : ∀ x y, pagCode m.1 m.2 g.nodeCount x y = _ := code_of_packs g.stored h1 h2 pagMarksOf rfl
    have htc : ∀ x y mid, look g.adj x y = some (.tail, .circle, mid) →
        pagCode m.1 m.2 g.nodeCount x y = some (.circle, .arrow) := fun x y mid hl => by
      rw [hcode, hl]
      rfl
    constructor
    · intro h _ x y mid hl
      obtain ⟨g', hg', hsame⟩ := h m hm
      obtain ⟨-, -, -, hreads⟩ := pagFromAdjacencyMask_ok hg'
      have := ((sameMarks_iff hreads).mp hsame x y .tail .circle).mpr ⟨mid, hl⟩
      exact absurd ((htc x y mid hl).symm.trans this) (by decide)
    · intro h
      have hno := h hpack
      have hback : ∀ s t : Endpoint, packable s t = true → ¬ (s = .tail ∧ t = .circle) →
          ¬ (t = .tail ∧ s = .circle) →
          pagMarksOf (pagBit s t) (pagBit t s) (circleBit s t) (circleBit t s) = some (s, t) := by
        intro s t
        cases s <;> cases t <;> simp [packable, pagMarksOf, pagBit, circleBit]
      refine roundTrips_of_reads hm (fun g' hg' => (pagFromAdjacencyMask_ok hg').2.2.2)
        (pagFromAdjacencyMask_accepts hpack.1 hpack.2.1) g.acyclic (reads_look hcode fun x y v hl => ?_)
      obtain ⟨s, t, mid⟩ := v
      exact hback s t (hpack.2.2 x y _ hl) (fun h => hno x y mid (by rw [hl, h.1, h.2]))
        fun h => hno y x mid (by rw [g.stored.mirrored _ _ _ hl, Marks.flip, h.1, h.2])
  · refine iff_of_true (fun m hm => ?_) fun h => absurd h hpack
    cases he.symm.trans hm

/-- **A CPDAG is refused or comes back, unless it has a conflict edge.** -/
theorem cpdag_roundTrips_iff (g : Cpdag) :
    RoundTrips adjacencyMaskFromCpdag cpdagFromAdjacencyMask g ↔
      (0 < g.nodeCount ∧ g.nodeCount ≤ maxPosteriorNodes → g.conflictEdgeCount = 0) := by
  by_cases hcap : 0 < g.nodeCount ∧ g.nodeCount ≤ maxPosteriorNodes
  · obtain ⟨m, hm, hp⟩ := packCpdag hcap.1 hcap.2
    have hcode : ∀ x y, cpdagCode m g.nodeCount x y = _ :=
      code_of_packs g.stored hp hp (fun ij ji _ _ => cpdagMarksOf ij ji) rfl
    constructor
    · intro h _
      obtain ⟨g', hg', hsame⟩ := h m hm
      obtain ⟨-, -, -, hreads⟩ := cpdagFromAdjacencyMask_ok hg'
      by_contra hconf
      obtain ⟨⟨a, b, s, t, mid⟩, he, hw⟩ := conflict_iff.mp (Nat.pos_of_ne_zero hconf)
      have hl := (g.mem_edges.mp he).2
      have hst := (hcode a b).symm.trans (((sameMarks_iff hreads).mp hsame a b s t).mpr ⟨mid, hl⟩)
      rw [hl, Option.bind_some] at hst
      refine hw ?_
      cases s <;> cases t <;> first | exact Or.inl rfl | exact Or.inr rfl | cases hst
    · intro h
      refine roundTrips_of_reads hm (fun g' hg' => (cpdagFromAdjacencyMask_ok hg').2.2.2)
        (cpdagFromAdjacencyMask_accepts hcap.1 hcap.2) g.acyclic (reads_look hcode fun x y v hl => ?_)
      obtain ⟨s, t, mid⟩ := v
      rcases g.directed_or_undirected (h hcap) hl with ⟨w, hd⟩ | ⟨w, hd⟩ | ⟨w, hu⟩
      · rw [hl] at hd
        cases hd
        rfl
      · rw [g.stored.mirrored _ _ _ hl] at hd
        cases hd
        rfl
      · rw [hl] at hu
        cases hu
        rfl
  · refine iff_of_true (fun m hm => ?_) fun h => absurd h hcap
    obtain ⟨_, h, -⟩ := bind_ok hm
    exact absurd ((requireMaskCapacity_ok _).mp h) hcap

/-- Where each pair carries one edge, its bits say which. -/
theorem admgMarksOf_iff {d d' b : Prop} {ij ji : Bool} (hij : ij = true ↔ d ∨ b)
    (hji : ji = true ↔ d' ∨ b) (hd : ¬ (d ∧ b)) (hd' : ¬ (d' ∧ b)) (hno : d → ¬ d') (s t : Endpoint) :
    admgMarksOf ij ji = some (s, t) ↔ ((s = .tail ∧ t = .arrow) ∧ d) ∨
      ((s = .arrow ∧ t = .tail) ∧ d') ∨ ((s = .arrow ∧ t = .arrow) ∧ b) := by
  by_cases hb : b
  · obtain rfl : ij = true := hij.mpr (Or.inr hb)
    obtain rfl : ji = true := hji.mpr (Or.inr hb)
    have h1 : ¬ d := fun h => hd ⟨h, hb⟩
    have h2 : ¬ d' := fun h => hd' ⟨h, hb⟩
    simp [admgMarksOf, h1, h2, hb, eq_comm]
  · by_cases h1 : d
    · obtain rfl : ij = true := hij.mpr (Or.inl h1)
      have h2 : ¬ d' := hno h1
      obtain rfl : ji = false := Bool.eq_false_iff.mpr fun h => (hji.mp h).elim h2 hb
      simp [admgMarksOf, h1, h2, hb, eq_comm]
    · obtain rfl : ij = false := Bool.eq_false_iff.mpr fun h => (hij.mp h).elim h1 hb
      by_cases h2 : d'
      · obtain rfl : ji = true := hji.mpr (Or.inl h2)
        simp [admgMarksOf, h1, h2, hb, eq_comm]
      · obtain rfl : ji = false := Bool.eq_false_iff.mpr fun h => (hji.mp h).elim h2 hb
        simp [admgMarksOf, h1, h2, hb]

/-- **An ADMG is refused or comes back, unless a pair is both directed and bidirected.** -/
theorem admg_roundTrips_iff (g : Admg) :
    RoundTrips adjacencyMaskFromAdmg admgFromAdjacencyMask g ↔
      (0 < g.nodeCount ∧ g.nodeCount ≤ maxPosteriorNodes →
        ∀ x y, ¬ (g.mixed.dir x y ∧ g.mixed.bi x y)) := by
  by_cases hcap : 0 < g.nodeCount ∧ g.nodeCount ≤ maxPosteriorNodes
  · obtain ⟨m, hm, hp⟩ := packAdmg hcap.1 hcap.2
    have hbits : ∀ x y, hasEdge m g.nodeCount x y = true ↔ g.mixed.dir x y ∨ g.mixed.bi x y := by
      intro x y
      rw [hp.hasEdge_iff]
      refine and_iff_left_of_imp fun h => ?_
      rcases h with hd | hb
      · obtain ⟨hx, hy⟩ := g.valid.in_range x y hd
        exact ⟨fun e => g.acyclic x (TransGen.single (by
          have := hd
          rwa [← show x = y from e] at this)), hx, hy⟩
      · exact ⟨fun e => g.biValid.irrefl x (by
          have := hb
          rwa [← show x = y from e] at this), g.biValid.in_range y x (g.mixed.bi_symm hb),
          g.biValid.in_range x y hb⟩
    have hno2 : ∀ x y, g.mixed.dir x y → ¬ g.mixed.dir y x := fun x y h1 h2 =>
      g.acyclic x (TransGen.head h1 (TransGen.single h2))
    constructor
    · rintro h - x y ⟨hd, hb⟩
      obtain ⟨g', hg', hsame⟩ := h m hm
      obtain ⟨-, -, -, hreads⟩ := admgFromAdjacencyMask_ok hg'
      have hst : admgCode m g.nodeCount x y = some (.tail, .arrow) :=
        ((sameMarks_iff hreads).mp hsame x y .tail .arrow).mpr ⟨.empty, Or.inl (Or.inl ⟨rfl, hd⟩)⟩
      unfold admgCode at hst
      rw [(hbits x y).mpr (Or.inl hd), (hbits y x).mpr (Or.inr (g.mixed.bi_symm hb))] at hst
      exact absurd hst (by decide)
    · intro h
      have hno := h hcap
      have hread : ∀ x y s t, admgCode m g.nodeCount x y = some (s, t) ↔
          ∃ mid, GraphView.Holds g (x, y, s, t, mid) := fun x y s t => by
        have hholds : (∃ mid, GraphView.Holds g (x, y, s, t, mid)) ↔
            ((s = .tail ∧ t = .arrow) ∧ g.mixed.dir x y) ∨ ((s = .arrow ∧ t = .tail) ∧ g.mixed.dir y x) ∨
              ((s = .arrow ∧ t = .arrow) ∧ g.mixed.bi x y) := by
          simp only [admg_holds, DirStates, BiStates, Prod.mk.injEq]
          constructor
          · rintro ⟨mid, (⟨⟨h1, h2, -⟩, hd⟩ | ⟨⟨h1, h2, -⟩, hd⟩) | ⟨⟨h1, h2, -⟩, hb⟩⟩
            · exact Or.inl ⟨⟨h1, h2⟩, hd⟩
            · exact Or.inr (Or.inl ⟨⟨h1, h2⟩, hd⟩)
            · exact Or.inr (Or.inr ⟨⟨h1, h2⟩, hb⟩)
          · rintro (⟨⟨h1, h2⟩, hd⟩ | ⟨⟨h1, h2⟩, hd⟩ | ⟨⟨h1, h2⟩, hb⟩)
            · exact ⟨.empty, Or.inl (Or.inl ⟨⟨h1, h2, rfl⟩, hd⟩)⟩
            · exact ⟨.empty, Or.inl (Or.inr ⟨⟨h1, h2, rfl⟩, hd⟩)⟩
            · exact ⟨.empty, Or.inr ⟨⟨h1, h2, rfl⟩, hb⟩⟩
        rw [hholds]
        unfold admgCode
        have hxy := hbits x y
        have hyx := hbits y x
        have hsymm : g.mixed.bi y x ↔ g.mixed.bi x y := ⟨g.mixed.bi_symm, g.mixed.bi_symm⟩
        rw [hsymm] at hyx
        exact admgMarksOf_iff hxy hyx (hno x y) (fun h => hno y x ⟨h.1, hsymm.mpr h.2⟩) (hno2 x y) s t
      refine roundTrips_of_reads hm (fun g' hg' => (admgFromAdjacencyMask_ok hg').2.2.2)
        (admgFromAdjacencyMask_accepts hcap.1 hcap.2) (fun v hv => g.acyclic v ?_) hread
      refine TransGen.mono (fun a b hab => ?_) v v hv
      obtain ⟨mid, (⟨-, hd⟩ | ⟨hv, -⟩) | ⟨hv, -⟩⟩ := hab
      · exact hd
      · cases hv
      · cases hv
  · refine iff_of_true (fun m hm => ?_) fun h => absurd h hcap
    obtain ⟨_, h, -⟩ := bind_ok hm
    exact absurd ((requireMaskCapacity_ok _).mp h) hcap

/-- Every set bit stands for something that the decoder of PAGs reads. -/
structure NormalMasks (n : Nat) (mask marks : AdjacencyMask) : Prop where
  noStray : NoStray n mask ∧ NoStray n marks
  circled : ∀ x y, hasEdge marks n x y = true → hasEdge mask n x y = true
  both : ∀ x y, hasEdge mask n x y = true → hasEdge mask n y x = true →
    hasEdge marks n x y = true → hasEdge marks n y x = true

theorem bits_again_iff (ij ji ca cb : Bool) :
    ((∃ st, pagMarksOf ij ji ca cb = some st ∧ pagBit st.1 st.2 = true) ↔ ij = true) ∧
      ((∃ st, pagMarksOf ij ji ca cb = some st ∧ circleBit st.1 st.2 = true) ↔ ca = true) ∧
      ((∃ st, pagMarksOf ij ji ca cb = some st ∧ pagBit st.2 st.1 = true) ↔ ji = true) ∧
      ((∃ st, pagMarksOf ij ji ca cb = some st ∧ circleBit st.2 st.1 = true) ↔ cb = true) ↔
    (ca = true → ij = true) ∧ (cb = true → ji = true) ∧ (ij = true → ji = true → (ca = true ↔ cb = true)) := by
  cases ij <;> cases ji <;> cases ca <;> cases cb <;> simp [pagMarksOf, pagBit, circleBit]

theorem Packs.self (h : Packs n P mask) :
    Packs n (fun p => hasEdge mask n p.1 p.2 = true) mask :=
  h.congr fun _ hin => (and_iff_left hin).symm.trans h.hasEdge_iff.symm

theorem code_bits (hc : code.Regular n)
    (hP : ∀ p, P p ↔ ∃ st, code p.1 p.2 = some st ∧ bit st.1 st.2 = true) (h : Packs n P mask) :
    (∀ x y, (∃ st, code x y = some st ∧ bit st.1 st.2 = true) ↔ hasEdge mask n x y = true) ∧
      ∀ x y, (∃ st, code x y = some st ∧ bit st.2 st.1 = true) ↔ hasEdge mask n y x = true := by
  have hfirst : ∀ x y, (∃ st, code x y = some st ∧ bit st.1 st.2 = true) ↔
      hasEdge mask n x y = true := fun x y => by
    rw [h.hasEdge_iff, hP]
    exact (and_iff_left_of_imp fun ⟨st, hst, _⟩ => hc.inMask hst).symm
  refine ⟨hfirst, fun x y => Iff.trans ?_ (hfirst y x)⟩
  constructor
  · rintro ⟨⟨s, t⟩, hst, hb⟩
    exact ⟨(t, s), hc.symm hst, hb⟩
  · rintro ⟨⟨s, t⟩, hst, hb⟩
    exact ⟨(t, s), hc.symm hst, hb⟩

/-- **A decoded pair of masks is packed again iff it is normal.** -/
theorem pag_repacked_iff {mask marks : AdjacencyMask}
    (h : pagFromAdjacencyMask mask marks n = .ok g) :
    adjacencyMasksFromPag g = .ok (mask, marks) ↔ NormalMasks n mask marks := by
  obtain ⟨hpos, hn, hnodes, hreads⟩ := pagFromAdjacencyMask_ok h
  have hcount : g.nodeCount = n := length_of_static hnodes
  have hpairs : ∀ (bit : Endpoint → Endpoint → Bool) p, pagPairs bit g p ↔
      ∃ st, pagCode mask marks n p.1 p.2 = some st ∧ bit st.1 st.2 = true := fun bit p => by
    constructor
    · rintro ⟨⟨s, t, mid⟩, hv, hb⟩
      exact ⟨(s, t), ((hreads (p.1, p.2, s, t, mid)).mp hv).2, hb⟩
    · rintro ⟨⟨s, t⟩, hst, hb⟩
      exact ⟨(s, t, .empty), (hreads (p.1, p.2, s, t, .empty)).mpr ⟨rfl, hst⟩, hb⟩
  have hpackable : PagPackable g := by
    refine ⟨hcount ▸ hpos, hcount ▸ hn, fun x y v hv => ?_⟩
    obtain ⟨s, t, mid⟩ := v
    have hst := ((hreads (x, y, s, t, mid)).mp hv).2
    have hok : ∀ ij ji ca cb, pagMarksOf ij ji ca cb = some (s, t) → packable s t = true := by
      intro ij ji ca cb h
      cases ij <;> cases ji <;> cases ca <;> cases cb <;> cases h <;> rfl
    exact hok _ _ _ _ hst
  rcases packPag_cases g with ⟨-, m, hm, h1, h2⟩ | ⟨hbad, -⟩
  · rw [hcount] at h1 h2
    have hsame : adjacencyMasksFromPag g = .ok (mask, marks) ↔
        Packs n (pagPairs pagBit g) mask ∧ Packs n (pagPairs circleBit g) marks := by
      rw [hm]
      constructor
      · intro he
        cases he
        exact ⟨h1, h2⟩
      · rintro ⟨h1', h2'⟩
        rw [h1'.unique h1, h2'.unique h2]
    rw [hsame]
    constructor
    · rintro ⟨h1', h2'⟩
      have hbit := code_bits (pagCode_regular mask marks n) (hpairs pagBit) h1'
      have hcircle := code_bits (pagCode_regular mask marks n) (hpairs circleBit) h2'
      have hpair : ∀ x y, _ := fun x y => (bits_again_iff (hasEdge mask n x y) (hasEdge mask n y x)
        (hasEdge marks n x y) (hasEdge marks n y x)).mp
        ⟨hbit.1 x y, hcircle.1 x y, hbit.2 x y, hcircle.2 x y⟩
      exact ⟨⟨packs_hasEdge_iff.mp h1'.self, packs_hasEdge_iff.mp h2'.self⟩, fun x y => (hpair x y).1,
        fun x y hxy hyx => ((hpair x y).2.2 hxy hyx).mp⟩
    · rintro ⟨⟨hs1, hs2⟩, hcircled, hboth⟩
      have hpair : ∀ x y, _ := fun x y => (bits_again_iff (hasEdge mask n x y) (hasEdge mask n y x)
        (hasEdge marks n x y) (hasEdge marks n y x)).mpr
        ⟨hcircled x y, hcircled y x, fun hxy hyx => ⟨hboth x y hxy hyx, hboth y x hyx hxy⟩⟩
      exact ⟨(packs_hasEdge_iff.mpr hs1).congr fun p _ => (hpair p.1 p.2).1.symm.trans (hpairs _ p).symm,
        (packs_hasEdge_iff.mpr hs2).congr fun p _ => (hpair p.1 p.2).2.1.symm.trans (hpairs _ p).symm⟩
  · exact absurd hpackable hbad

/-- **What packing keeps.** A PAG that is not refused comes back from its masks iff it has no edge with a
tail and a circle, a CPDAG iff it has no conflict edge, an ADMG iff no pair is both directed and
bidirected; a decoded pair of masks is packed again iff it is normal. -/
theorem packing_exact_iff (pag : Pag) (cpdag : Cpdag) (admg : Admg) (mask marks : AdjacencyMask)
    (n : Nat) :
    (RoundTrips adjacencyMasksFromPag (fun m n => pagFromAdjacencyMask m.1 m.2 n) pag ↔
      (PagPackable pag → ∀ x y m, look pag.adj x y ≠ some (.tail, .circle, m))) ∧
    (RoundTrips adjacencyMaskFromCpdag cpdagFromAdjacencyMask cpdag ↔
      (0 < cpdag.nodeCount ∧ cpdag.nodeCount ≤ maxPosteriorNodes → cpdag.conflictEdgeCount = 0)) ∧
    (RoundTrips adjacencyMaskFromAdmg admgFromAdjacencyMask admg ↔
      (0 < admg.nodeCount ∧ admg.nodeCount ≤ maxPosteriorNodes →
        ∀ x y, ¬ (admg.mixed.dir x y ∧ admg.mixed.bi x y))) ∧
    ∀ g, pagFromAdjacencyMask mask marks n = .ok g →
      (adjacencyMasksFromPag g = .ok (mask, marks) ↔ NormalMasks n mask marks) :=
  ⟨pag_roundTrips_iff pag, cpdag_roundTrips_iff cpdag, admg_roundTrips_iff admg,
    fun _ => pag_repacked_iff⟩

/-- `0 --o 1` comes back as `0 o-> 1`. -/
theorem not_roundTrips_tail_circle : ∃ g m g',
    (Pag.withVariables 2).insertMarked ⟨0, 1, .tail, .circle, .empty⟩ = .ok g ∧
    adjacencyMasksFromPag g = .ok m ∧ pagFromAdjacencyMask m.1 m.2 2 = .ok g' ∧
    look g.adj 0 1 = some (.tail, .circle, .empty) ∧ look g'.adj 0 1 = some (.circle, .arrow, .empty) ∧
    ¬ SameMarks g g' := by
  have hrun : (match (Pag.withVariables 2).insertMarked ⟨0, 1, .tail, .circle, .empty⟩ with
      | .ok g => match adjacencyMasksFromPag g with
        | .ok m => match pagFromAdjacencyMask m.1 m.2 2 with
          | .ok g' => decide (look g.adj 0 1 = some (.tail, .circle, .empty)) &&
              decide (look g'.adj 0 1 = some (.circle, .arrow, .empty))
          | .error _ => false
        | .error _ => false
      | .error _ => false) = true := by decide
  split at hrun
  · rename_i g hg
    split at hrun
    · rename_i m hm
      split at hrun
      · rename_i g' hg'
        rw [Bool.and_eq_true, decide_eq_true_eq, decide_eq_true_eq] at hrun
        refine ⟨g, m, g', hg, hm, hg', hrun.1, hrun.2, fun hsame => ?_⟩
        obtain ⟨mid, hl⟩ := (hsame 0 1 .tail .circle).mpr ⟨.empty, hrun.1⟩
        exact absurd (hrun.2.symm.trans hl) (by simp)
      · cases hrun
    · cases hrun
  · cases hrun

end Antecedent.Discovery
