import Mathlib.Data.Finset.Card
import Mathlib.Data.List.Chain
import Mathlib.Algebra.GroupWithZero.Nat

/-!
# Depth-first enumeration of simple paths

The simple paths from one node to another, up to a length, over an arbitrary successor function.
The walk keeps a stack of frames, one for each node of the current path, each with a cursor that
counts down the successors still to be tried; `visit` takes a note of every path found and may stop
the walk.

* `Pending`: the paths a stack of frames will still come to.
* `loop_spec`: every path visited is simple, and a walk that was neither stopped nor cut has visited
  every simple path. An invariant of the notes that every visit keeps holds at the end.

The fuel bounds the turns. A turn lowers the cursor of a frame, or closes one; a frame opened at
depth `d` weighs less than one count of the cursor below it, which `potential` adds up.
-/

namespace Antecedent.SimplePaths

variable {α σ : Type*}

/-- A path through the successors of `row`, no node twice, from `x` to `y`. -/
structure SimplePath (row : α → List α) (x y : α) (p : List α) : Prop where
  chain : List.IsChain (fun a b => b ∈ row a) p
  nodup : p.Nodup
  head : p.head? = some x
  last : p.getLast? = some y

/-- The nodes on the path and their cursors, the last node first. -/
abbrev Frames (α : Type*) := List (α × Nat)

def pathOf (frames : Frames α) : List α := (frames.map Prod.fst).reverse

section Walk

variable [DecidableEq α]

/-- A node at the length limit cuts the walk when it has an onward successor. -/
def leafCut (row : α → List α) (onPath : List α) (node : α) : Bool :=
  (row node).any fun w => !onPath.contains w

/-- The walk: whether a path was cut, and the note. -/
def loop (row : α → List α) (y : α) (maxLen : Nat) (visit : List α → σ → σ × Bool) :
    Nat → Frames α → Bool → σ → Bool × σ
  | 0, _, cut, note => (cut, note)
  | fuel + 1, frames, cut, note =>
    match frames with
    | [] => (cut, note)
    | (_, 0) :: rest => loop row y maxLen visit fuel rest cut note
    | (last, c + 1) :: rest =>
      match (row last)[c]? with
      | none => loop row y maxLen visit fuel ((last, c) :: rest) cut note
      | some nbr =>
        if ((last :: rest.map Prod.fst).contains nbr) then
          loop row y maxLen visit fuel ((last, c) :: rest) cut note
        else if nbr = y then
          match visit (pathOf ((last, c) :: rest) ++ [nbr]) note with
          | (note, true) => loop row y maxLen visit fuel ((last, c) :: rest) cut note
          | (note, false) => (cut, note)
        else if maxLen ≤ rest.length + 2 then
          loop row y maxLen visit fuel ((last, c) :: rest)
            (cut || leafCut row (nbr :: last :: rest.map Prod.fst) nbr) note
        else loop row y maxLen visit fuel ((nbr, (row nbr).length) :: (last, c) :: rest) cut note

/-- The walk from `x`. -/
def walk (row : α → List α) (y : α) (maxLen : Nat) (visit : List α → σ → σ × Bool) (fuel : Nat)
    (x : α) (note : σ) : Bool × σ :=
  if maxLen ≤ 1 then (leafCut row [x] x, note)
  else loop row y maxLen visit fuel [(x, (row x).length)] false note

end Walk

/-! ## What is still to come -/

section Pending

variable {row : α → List α} {x y : α}

/-- The path continues some frame with a successor below its cursor. -/
def Pending (row : α → List α) : Frames α → List α → Prop
  | [], _ => False
  | (last, c) :: rest, p =>
    (∃ i < c, ∃ nbr, (row last)[i]? = some nbr ∧ pathOf ((last, c) :: rest) ++ [nbr] <+: p) ∨
      Pending row rest p

theorem pathOf_cons (last : α) (c : Nat) (rest : Frames α) :
    pathOf ((last, c) :: rest) = pathOf rest ++ [last] := by
  simp [pathOf]

variable {last : α} {p q : List α}

theorem pending_lower {c : Nat} {rest : Frames α} (h : Pending row ((last, c + 1) :: rest) p) :
    (∃ nbr, (row last)[c]? = some nbr ∧ pathOf ((last, c) :: rest) ++ [nbr] <+: p) ∨
      Pending row ((last, c) :: rest) p := by
  rcases h with ⟨i, hi, nbr, hn, hp⟩ | h
  · rw [pathOf_cons] at hp
    rcases Nat.lt_or_eq_of_le (Nat.le_of_lt_succ hi) with hlt | rfl
    · exact Or.inr (Or.inl ⟨i, hlt, nbr, hn, by rw [pathOf_cons]; exact hp⟩)
    · exact Or.inl ⟨nbr, hn, by rw [pathOf_cons]; exact hp⟩
  · exact Or.inr (Or.inr h)

theorem SimplePath.next (h : SimplePath row x y p) (hq : q ++ [last] <+: p) (hne : last ≠ y) :
    ∃ (i : Nat) (nbr : α), (row last)[i]? = some nbr ∧ nbr ∉ q ++ [last] ∧
      (q ++ [last]) ++ [nbr] <+: p := by
  obtain ⟨r, rfl⟩ := hq
  cases r with
  | nil =>
    have := h.last
    rw [List.append_nil, List.getLast?_append] at this
    exact absurd (by simpa using this) hne
  | cons nbr r =>
    have hrow : nbr ∈ row last := by
      have := h.chain
      rw [List.append_assoc, List.singleton_append, List.isChain_append] at this
      exact (List.isChain_cons_cons.mp this.2.1).1
    obtain ⟨i, hi, he⟩ := List.getElem_of_mem hrow
    refine ⟨i, nbr, by rw [List.getElem?_eq_getElem hi, he], ?_, ⟨r, by simp⟩⟩
    have hnd := h.nodup
    rw [List.nodup_append] at hnd
    exact fun hm => hnd.2.2 nbr hm nbr List.mem_cons_self rfl

theorem SimplePath.eq_of_ends (h : SimplePath row x y p) (hq : q ++ [y] <+: p) :
    p = q ++ [y] := by
  obtain ⟨r, rfl⟩ := hq
  rcases List.eq_nil_or_concat' r with rfl | ⟨r', b, rfl⟩
  · exact List.append_nil _
  · have hlast := h.last
    rw [← List.append_assoc, List.getLast?_append] at hlast
    obtain rfl : b = y := by simpa using hlast
    have hnd := h.nodup
    rw [List.nodup_append] at hnd
    exact absurd rfl (hnd.2.2 b (by simp) b (by simp))

end Pending

/-! ## The run -/

/-- A finite set that successors stay in, each row without repetitions. -/
structure Bounded (row : α → List α) (U : Finset α) : Prop where
  next : ∀ v ∈ U, ∀ w ∈ row v, w ∈ U
  nodup : ∀ v ∈ U, (row v).Nodup

/-- The path of the frames is a simple path from `x` within the limit that has not met `y`. -/
structure Live (row : α → List α) (x y : α) (maxLen : Nat) (U : Finset α) (frames : Frames α) :
    Prop where
  chain : List.IsChain (fun a b => b ∈ row a) (pathOf frames)
  nodup : (pathOf frames).Nodup
  head : ∀ v, (pathOf frames).head? = some v → v = x
  target : y ∉ pathOf frames
  sub : ∀ v ∈ pathOf frames, v ∈ U
  short : frames ≠ [] → frames.length < maxLen

/-- What bounds the turns that remain: a count of a cursor at depth `d` weighs `(n + 2) ^ (n - d)`,
more than any frame opened above it. -/
def potential (n : Nat) : Frames α → Nat
  | [] => 0
  | (_, c) :: rest => c * (n + 2) ^ (n - rest.length) + 1 + potential n rest

section Run

variable {row : α → List α} {x y : α} {maxLen : Nat} {U : Finset α} {frames : Frames α}

variable {v last nbr : α} {c d : Nat}

theorem mem_pathOf : v ∈ pathOf frames ↔ v ∈ frames.map Prod.fst := by
  unfold pathOf
  exact List.mem_reverse

theorem Live.rest {last : α} {c : Nat} {rest : Frames α}
    (h : Live row x y maxLen U ((last, c) :: rest)) : Live row x y maxLen U rest := by
  have hpre : pathOf rest <+: pathOf ((last, c) :: rest) := ⟨[last], (pathOf_cons _ _ _).symm⟩
  have hchain := List.IsChain.prefix h.chain hpre
  refine ⟨hchain, h.nodup.sublist hpre.sublist, fun v hv => h.head v ?_,
    fun hy => h.target (hpre.mem hy), fun v hv => h.sub v (hpre.mem hv), fun _ => ?_⟩
  · obtain ⟨t, ht⟩ := hpre
    rw [← ht, List.head?_append, hv]
    rfl
  · have := h.short (by simp)
    rw [List.length_cons] at this
    omega

theorem Live.cursor {rest : Frames α} (h : Live row x y maxLen U ((last, c) :: rest)) :
    Live row x y maxLen U ((last, d) :: rest) := by
  have he : pathOf ((last, d) :: rest) = pathOf ((last, c) :: rest) := by
    rw [pathOf_cons, pathOf_cons]
  refine ⟨by rw [he]; exact h.chain, by rw [he]; exact h.nodup, by rw [he]; exact h.head,
    by rw [he]; exact h.target, by rw [he]; exact h.sub, fun _ => ?_⟩
  have := h.short (by simp)
  rwa [List.length_cons] at this ⊢

theorem Live.extend {rest : Frames α} (hU : Bounded row U)
    (h : Live row x y maxLen U ((last, c) :: rest)) (hn : nbr ∈ row last)
    (hnew : nbr ∉ pathOf ((last, c) :: rest)) :
    List.IsChain (fun a b => b ∈ row a) (pathOf ((nbr, d) :: (last, c) :: rest)) ∧
      (pathOf ((nbr, d) :: (last, c) :: rest)).Nodup ∧
      (∀ v, (pathOf ((nbr, d) :: (last, c) :: rest)).head? = some v → v = x) ∧
      ∀ v ∈ pathOf ((nbr, d) :: (last, c) :: rest), v ∈ U := by
  have hlast : last ∈ pathOf ((last, c) :: rest) := by
    rw [pathOf_cons]
    simp
  have he : pathOf ((nbr, d) :: (last, c) :: rest) = pathOf ((last, c) :: rest) ++ [nbr] :=
    pathOf_cons _ _ _
  rw [he]
  refine ⟨?_, ?_, fun v hv => h.head v ?_, fun v hv => ?_⟩
  · refine List.isChain_append.mpr ⟨h.chain, List.isChain_singleton nbr, ?_⟩
    intro a ha b hb
    rw [pathOf_cons, List.getLast?_concat] at ha
    rw [← Option.some.inj ha, ← Option.some.inj hb]
    exact hn
  · rw [List.nodup_append]
    refine ⟨h.nodup, List.nodup_singleton nbr, fun a ha b hb hab => hnew ?_⟩
    rw [← List.mem_singleton.mp hb, ← hab]
    exact ha
  · rw [pathOf_cons] at hv ⊢
    rw [List.append_assoc, List.head?_append] at hv
    rw [List.head?_append]
    cases hr : (pathOf rest).head? with
    | none =>
      rw [hr] at hv
      simpa using hv
    | some u =>
      rw [hr] at hv
      exact hv
  · rcases List.mem_append.mp hv with hv | hv
    · exact h.sub v hv
    · rw [List.mem_singleton.mp hv]
      exact hU.next last (h.sub last hlast) nbr hn

theorem Live.length_le (h : Live row x y maxLen U frames) : frames.length ≤ U.card := by
  have hlen : (pathOf frames).length = frames.length := by simp [pathOf]
  classical
  rw [← hlen, ← List.toFinset_card_of_nodup h.nodup]
  exact Finset.card_le_card fun v hv => h.sub v (List.mem_toFinset.mp hv)

theorem Bounded.length_le (hU : Bounded row U) (hv : v ∈ U) :
    (row v).length ≤ U.card := by
  classical
  rw [← List.toFinset_card_of_nodup (hU.nodup v hv)]
  exact Finset.card_le_card fun w hw => hU.next v hv w (List.mem_toFinset.mp hw)

/-- Opening a frame weighs less than the count of the cursor spent on it. -/
theorem potential_push {n : Nat} {rest : Frames α} (hd : d ≤ n) (hlen : rest.length + 1 ≤ n) :
    potential n ((nbr, d) :: (last, c) :: rest) < potential n ((last, c + 1) :: rest) := by
  have hpow : (n + 2) ^ (n - rest.length) = (n + 2) * (n + 2) ^ (n - (rest.length + 1)) := by
    rw [← Nat.pow_succ', show n - rest.length = n - (rest.length + 1) + 1 by omega]
  have hpos : 0 < (n + 2) ^ (n - (rest.length + 1)) := Nat.pow_pos (by omega)
  have hle : d * (n + 2) ^ (n - (rest.length + 1)) ≤ n * (n + 2) ^ (n - (rest.length + 1)) :=
    Nat.mul_le_mul_right _ hd
  simp only [potential, List.length_cons]
  rw [Nat.add_mul c, Nat.one_mul, hpow, Nat.add_mul n]
  omega

variable [DecidableEq α] {visit : List α → σ → σ × Bool} {I : List (List α) → σ → Prop}
  {J : σ → Prop}

/-- What every visit keeps: `I` of the paths visited and the note while it goes on, `J` of the note
when it stops the walk. -/
structure Keeps (row : α → List α) (x y : α) (maxLen : Nat) (visit : List α → σ → σ × Bool)
    (I : List (List α) → σ → Prop) (J : σ → Prop) : Prop where
  goes : ∀ ps p note note', I ps note → SimplePath row x y p → p.length ≤ maxLen →
    visit p note = (note', true) → I (ps ++ [p]) note'
  stops : ∀ ps p note note', I ps note → SimplePath row x y p → p.length ≤ maxLen →
    visit p note = (note', false) → J note'

/-- How a walk ends: stopped by a visit, or with every simple path visited unless it was cut. -/
def Ends (row : α → List α) (x y : α) (I : List (List α) → σ → Prop) (J : σ → Prop)
    (r : Bool × σ) : Prop :=
  J r.2 ∨ ∃ ps, I ps r.2 ∧ ∀ p, SimplePath row x y p → p ∈ ps ∨ r.1 = true

theorem loop_spec (hU : Bounded row U) (hkeep : Keeps row x y maxLen visit I J) :
    ∀ (fuel : Nat) (frames : Frames α) (cut : Bool) (note : σ) (ps : List (List α)),
      Live row x y maxLen U frames → I ps note →
      (∀ p, SimplePath row x y p → p ∈ ps ∨ Pending row frames p ∨ cut = true) →
      potential U.card frames < fuel →
      Ends row x y I J (loop row y maxLen visit fuel frames cut note)
  | 0, _, _, _, _, _, _, _, hf => absurd hf (Nat.not_lt_zero _)
  | fuel + 1, [], cut, note, ps, _, hI, hall, _ => by
    refine Or.inr ⟨ps, hI, fun p hp => ?_⟩
    rcases hall p hp with h | h | h
    · exact Or.inl h
    · exact absurd h id
    · exact Or.inr h
  | fuel + 1, (last, 0) :: rest, cut, note, ps, hlive, hI, hall, hf => by
    refine loop_spec hU hkeep fuel rest cut note ps hlive.rest hI (fun p hp => ?_) ?_
    · rcases hall p hp with h | (⟨i, hi, -⟩ | h) | h
      · exact Or.inl h
      · exact absurd hi (Nat.not_lt_zero i)
      · exact Or.inr (Or.inl h)
      · exact Or.inr (Or.inr h)
    · simp only [potential] at hf
      omega
  | fuel + 1, (last, c + 1) :: rest, cut, note, ps, hlive, hI, hall, hf => by
    have hlast : last ∈ pathOf ((last, c) :: rest) := by
      rw [pathOf_cons]
      simp
    have hlastU : last ∈ U := hlive.cursor.sub last hlast
    have hlow : potential U.card ((last, c) :: rest) < fuel := by
      have hpos : 0 < (U.card + 2) ^ (U.card - rest.length) := Nat.pow_pos (by omega)
      simp only [potential, Nat.add_mul] at hf ⊢
      omega
    unfold loop
    simp only
    cases hn : (row last)[c]? with
    | none =>
      refine loop_spec hU hkeep fuel _ cut note ps hlive.cursor hI (fun p hp => ?_) hlow
      rcases hall p hp with h | h | h
      · exact Or.inl h
      · rcases pending_lower h with ⟨nbr, hnbr, -⟩ | h
        · exact absurd (hn.symm.trans hnbr) (by simp)
        · exact Or.inr (Or.inl h)
      · exact Or.inr (Or.inr h)
    | some nbr =>
      have hrow : nbr ∈ row last := List.mem_of_getElem? hn
      -- what is still to come once `nbr` is settled
      have hsettled : ∀ {cut' : Bool} {ps' : List (List α)}, (∀ q ∈ ps, q ∈ ps') →
          (cut = true → cut' = true) →
          (∀ p, SimplePath row x y p → pathOf ((last, c) :: rest) ++ [nbr] <+: p →
            p ∈ ps' ∨ cut' = true) →
          ∀ p, SimplePath row x y p → p ∈ ps' ∨ Pending row ((last, c) :: rest) p ∨ cut' = true := by
        intro cut' ps' hps hcut hnew p hp
        rcases hall p hp with h | h | h
        · exact Or.inl (hps p h)
        · rcases pending_lower h with ⟨nbr', hnbr', hpre⟩ | h
          · obtain rfl := Option.some.inj (hn.symm.trans hnbr')
            rcases hnew p hp hpre with h | h
            · exact Or.inl h
            · exact Or.inr (Or.inr h)
          · exact Or.inr (Or.inl h)
        · exact Or.inr (Or.inr (hcut h))
      have hmem : (last :: rest.map Prod.fst).contains nbr = true ↔
          nbr ∈ pathOf ((last, c) :: rest) := by
        rw [List.contains_iff_mem, mem_pathOf]
        rfl
      simp only
      split_ifs with hon hy hlim
      · -- a node on the path starts no simple path
        refine loop_spec hU hkeep fuel _ cut note ps hlive.cursor hI
          (hsettled (fun _ h => h) id fun p hp hpre => ?_) hlow
        have hnd := hp.nodup.sublist hpre.sublist
        rw [List.nodup_append] at hnd
        exact absurd rfl (hnd.2.2 nbr (hmem.mp hon) nbr (List.mem_singleton_self nbr))
      · obtain ⟨h1, h2, h3, -⟩ := hlive.cursor.extend (d := 0) hU hrow
          fun hm => hon (hmem.mpr hm)
        have he : pathOf ((nbr, 0) :: (last, c) :: rest) =
            pathOf ((last, c) :: rest) ++ [nbr] := pathOf_cons _ _ _
        have hsimple : SimplePath row x y (pathOf ((last, c) :: rest) ++ [nbr]) := by
          rw [he] at h1 h2 h3
          refine ⟨h1, h2, ?_, hy ▸ List.getLast?_concat⟩
          cases hh : (pathOf ((last, c) :: rest) ++ [nbr]).head? with
          | none => simp at hh
          | some v => rw [h3 v hh]
        have hshort : (pathOf ((last, c) :: rest) ++ [nbr]).length ≤ maxLen := by
          have := hlive.short (by simp)
          simp only [pathOf, List.length_append, List.length_reverse, List.length_map,
            List.length_cons, List.length_nil] at this ⊢
          omega
        cases hv : visit (pathOf ((last, c) :: rest) ++ [nbr]) note with
        | mk note' go =>
          cases go with
          | true =>
            refine loop_spec hU hkeep fuel _ cut note' _ hlive.cursor
              (hkeep.goes ps _ note note' hI hsimple hshort hv)
              (hsettled (fun q hq => List.mem_append_left _ hq) id fun p hp hpre => ?_) hlow
            rw [hp.eq_of_ends (hy ▸ hpre), hy]
            exact Or.inl (by simp)
          | false => exact Or.inl (hkeep.stops ps _ note note' hI hsimple hshort hv)
      · -- a path that goes on from the limit finds an onward successor
        refine loop_spec hU hkeep fuel _ _ note ps hlive.cursor hI
          (hsettled (fun _ h => h) (fun h => by rw [h, Bool.true_or]) fun p hp hpre => ?_) hlow
        obtain ⟨i, w, hw, hnew, -⟩ := hp.next hpre hy
        refine Or.inr (Bool.or_eq_true_iff.mpr (Or.inr ?_))
        refine List.any_eq_true.mpr ⟨w, List.mem_of_getElem? hw, ?_⟩
        rw [Bool.not_eq_true', ← Bool.not_eq_true, List.contains_iff_mem]
        intro hm
        refine hnew ?_
        rw [List.mem_append, mem_pathOf, List.mem_singleton]
        rcases List.mem_cons.mp hm with rfl | hm
        · exact Or.inr rfl
        · exact Or.inl hm
      · obtain ⟨h1, h2, h3, h4⟩ := hlive.cursor.extend (d := (row nbr).length) hU hrow
          fun hm => hon (hmem.mpr hm)
        have hlive' : Live row x y maxLen U ((nbr, (row nbr).length) :: (last, c) :: rest) := by
          refine ⟨h1, h2, h3, ?_, h4, fun _ => ?_⟩
          · rw [pathOf_cons, List.mem_append, List.mem_singleton]
            rintro (h | rfl)
            · exact hlive.cursor.target h
            · exact hy rfl
          · rw [List.length_cons, List.length_cons]
            omega
        have hnbrU : nbr ∈ U := hU.next last hlastU nbr hrow
        refine loop_spec hU hkeep fuel _ cut note ps hlive' hI (fun p hp => ?_) ?_
        · rcases hall p hp with h | h | h
          · exact Or.inl h
          · refine Or.inr (Or.inl ?_)
            rcases pending_lower h with ⟨nbr', hnbr', hpre⟩ | h
            · obtain rfl := Option.some.inj (hn.symm.trans hnbr')
              obtain ⟨i, w, hw, -, hpre'⟩ := hp.next hpre hy
              refine Or.inl ⟨i, (List.getElem?_eq_some_iff.mp hw).1, w, hw, ?_⟩
              rw [pathOf_cons]
              exact hpre'
            · exact Or.inr h
          · exact Or.inr (Or.inr h)
        · have hlen := hlive'.length_le
          rw [List.length_cons, List.length_cons] at hlen
          have hpush : potential U.card ((nbr, (row nbr).length) :: (last, c) :: rest) <
              potential U.card ((last, c + 1) :: rest) :=
            potential_push (hU.length_le hnbrU) (by omega)
          omega

/-- **A walk visits every simple path** unless a visit stopped it or the length cut it. -/
theorem walk_spec (hU : Bounded row U) (hx : x ∈ U) (hxy : x ≠ y)
    (hkeep : Keeps row x y maxLen visit I J) {note : σ} (hI : I [] note) {fuel : Nat}
    (hf : (U.card + 2) ^ (U.card + 1) < fuel) :
    Ends row x y I J (walk row y maxLen visit fuel x note) := by
  unfold walk
  have hnext : ∀ p, SimplePath row x y p →
      ∃ (i : Nat) (nbr : α), (row x)[i]? = some nbr ∧ nbr ∉ [x] ∧ [x] ++ [nbr] <+: p := by
    intro p hp
    have hpre : ([] : List α) ++ [x] <+: p := by
      cases p with
      | nil => exact absurd hp.head (by simp)
      | cons a p =>
        obtain rfl := Option.some.inj hp.head
        exact ⟨p, rfl⟩
    exact hp.next hpre hxy
  split_ifs with hlim
  · refine Or.inr ⟨[], hI, fun p hp => Or.inr ?_⟩
    obtain ⟨i, nbr, hn, hnew, -⟩ := hnext p hp
    refine List.any_eq_true.mpr ⟨nbr, List.mem_of_getElem? hn, ?_⟩
    rwa [Bool.not_eq_true', ← Bool.not_eq_true, List.contains_iff_mem]
  · refine loop_spec hU hkeep fuel _ false note [] ?_ hI (fun p hp => ?_) ?_
    · refine ⟨List.isChain_singleton x, List.nodup_singleton x, fun v hv => ?_, fun hy => ?_,
        fun v hv => ?_, fun _ => ?_⟩
      · exact (Option.some.inj hv).symm
      · exact hxy (List.mem_singleton.mp hy).symm
      · rw [List.mem_singleton.mp hv]
        exact hx
      · rw [List.length_singleton]
        omega
    · obtain ⟨i, nbr, hn, -, hpre⟩ := hnext p hp
      exact Or.inr (Or.inl (Or.inl ⟨i, (List.getElem?_eq_some_iff.mp hn).1, nbr, hn, hpre⟩))
    · have hle := Nat.mul_le_mul_right ((U.card + 2) ^ U.card) (hU.length_le hx)
      have hpos : 0 < (U.card + 2) ^ U.card := Nat.pow_pos (by omega)
      simp only [potential, List.length_nil, Nat.sub_zero, Nat.add_zero]
      rw [Nat.pow_succ', Nat.add_mul] at hf
      omega

end Run

end Antecedent.SimplePaths
