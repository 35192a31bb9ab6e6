import Antecedent.Graph.TemporalPag

/-!
# What a call on a PAG leaves behind

The four mutating calls of `Pag` and `TemporalPag` as one alphabet. `set_marks_finish`
(`marked_storage.rs:202-215`) takes the edge out of both rows before it checks for a cycle and pushes
the old marks back at the end of both rows when it finds one, so a refused call may leave the rows in
another order, and the derived equality compares rows in order.

* **`calls_atomic_iff`**: a call keeps the graph on an error, and everything but its own edge on
  success, exactly when it does not spoil the order so.
-/

namespace Antecedent.Graph

/-- The calls that change edges. -/
inductive PagCall
  | setMarks (a b : Nat) (atA atB : Endpoint)
  | insertMarked (edge : MarkedEdge)
  | removeEdge (a b : Nat)
  | markConflict (a b : Nat)

def PagCall.ends : PagCall → Nat × Nat
  | .setMarks a b _ _ => (a, b)
  | .insertMarked edge => (edge.a, edge.b)
  | .removeEdge a b => (a, b)
  | .markConflict a b => (a, b)

def settle {P : Type} (g : P) : Except GraphError P → P × Except GraphError Unit
  | .ok g' => (g', .ok ())
  | .error e => (g, .error e)

def Pag.call (g : Pag) : PagCall → Pag × Except GraphError Unit
  | .setMarks a b atA atB => g.setMarks a b atA atB
  | .insertMarked edge => settle g (g.insertMarked edge)
  | .removeEdge a b => settle g (g.removeEdge a b)
  | .markConflict a b => g.markConflict a b

def TemporalPag.call (g : TemporalPag) : PagCall → TemporalPag × Except GraphError Unit
  | .setMarks a b atA atB => g.setMarks a b atA atB
  | .insertMarked edge => settle g (g.insertMarked edge)
  | .removeEdge a b => settle g (g.removeEdge a b)
  | .markConflict a b => g.markConflict a b

/-- What a call promises. On an error the graph is the same. On success no other edge changed, every
edge reads the same from both ends and is the only one of its pair, and the directed edges are
acyclic. -/
structure Atomic {P : Type} (adj : P → MarkedRows) (g : P) (c : PagCall)
    (r : P × Except GraphError Unit) : Prop where
  refused : ∀ e, r.2 = .error e → r.1 = g
  others : r.2 = .ok () → ∀ x y, (x, y) ≠ c.ends → (y, x) ≠ c.ends →
    look (adj r.1) x y = look (adj g) x y
  stored : r.2 = .ok () → Stored (adj g).length (adj r.1)
  acyclic : r.2 = .ok () → DirAcyclic (adj r.1)

/-- The edge to `b` is the last entry in the row of `a`. -/
def LastIn (adj : MarkedRows) (a b : Nat) : Prop :=
  (row adj a).getLast?.map AdjEntry.neighbor = some b

instance (adj : MarkedRows) (a b : Nat) : Decidable (LastIn adj a b) :=
  inferInstanceAs (Decidable (_ = _))

/-- The call asks for a directed edge that no other rule refuses, other directed edges already lead
back, and the edge is not last in both rows. -/
def Spoils (allowed : MarkedEdge → Bool) (adj : MarkedRows) : PagCall → Bool
  | .setMarks a b atA atB =>
    match edgeBetween adj a b with
    | none => false
    | some previous =>
      let edge : MarkedEdge := ⟨a, b, atA, atB, previous.middle⟩
      match edge.parentChild with
      | none => false
      | some (src, dst) => allowed edge && reachesDirected (removeEdge adj a b) dst src &&
          !(decide (LastIn adj a b) && decide (LastIn adj b a))
  | _ => false

/-! ## Pushing an edge back -/

section Rows

variable {n : Nat} {adj : MarkedRows} {a b : Nat} {v : Marks}

theorem filter_concat_eq_iff {r : List AdjEntry} {e : AdjEntry}
    (hr : (r.map AdjEntry.neighbor).Nodup) (he : e ∈ r) :
    (r.filter fun x => x.neighbor != e.neighbor) ++ [e] = r ↔
      r.getLast?.map AdjEntry.neighbor = some e.neighbor := by
  constructor
  · intro h
    rw [← h, List.getLast?_concat]
    rfl
  · intro h
    rcases List.eq_nil_or_concat' r with rfl | ⟨l, x, rfl⟩
    · exact absurd he List.not_mem_nil
    rw [List.getLast?_concat] at h
    have hx : x.neighbor = e.neighbor := Option.some.inj h
    rw [List.map_append, List.map_singleton, List.nodup_append] at hr
    have hl : ∀ y ∈ l, y.neighbor ≠ e.neighbor := fun y hy hye =>
      hr.2.2 y.neighbor (List.mem_map.mpr ⟨y, hy, rfl⟩) x.neighbor (List.mem_singleton_self _)
        (hye.trans hx.symm)
    have hex : e = x := by
      rcases List.mem_append.mp he with he | he
      · exact absurd rfl (hl e he)
      · exact List.mem_singleton.mp he
    rw [List.filter_append, List.filter_eq_self.mpr fun y hy => by simpa using hl y hy, hex]
    simp

theorem row_removeEdge (hne : a ≠ b) (x : Nat) : row (removeEdge adj a b) x =
    if x = b then (row adj b).filter fun e => e.neighbor != a
    else if x = a then (row adj a).filter fun e => e.neighbor != b
    else row adj x := by
  unfold removeEdge
  rw [row_modify _ rfl, row_modify _ rfl]
  by_cases hxb : x = b
  · rw [hxb, if_pos rfl, if_neg hne.symm, if_pos rfl]
  · rw [if_neg hxb, if_neg hxb]
    by_cases hxa : x = a
    · rw [if_pos hxa, if_pos hxa, hxa]
    · rw [if_neg hxa, if_neg hxa]

/-- **Pushing an edge back gives the rows it was taken from iff it was last in both.** -/
theorem restored_iff (h : Stored n adj) (hl : look adj a b = some v) :
    pushMarkedPair (removeEdge adj a b) ⟨a, b, v.1, v.2.1, v.2.2⟩ = adj ↔
      LastIn adj a b ∧ LastIn adj b a := by
  obtain ⟨ha, hb⟩ := h.lt_of_look hl
  have hne := h.ne_of_look hl
  have hlen : (removeEdge adj a b).length = n := (removeEdge_stored h a b).length
  have hrow : ∀ x, row (pushMarkedPair (removeEdge adj a b) ⟨a, b, v.1, v.2.1, v.2.2⟩) x =
      if x = b then ((row adj b).filter fun e => e.neighbor != a) ++ [AdjEntry.ofMarks a v.flip]
      else if x = a then ((row adj a).filter fun e => e.neighbor != b) ++ [AdjEntry.ofMarks b v]
      else row adj x := by
    intro x
    unfold pushMarkedPair
    rw [row_pushRow (by rw [length_pushRow, hlen]; exact hb), row_pushRow (by rw [hlen]; exact ha),
      row_pushRow (by rw [hlen]; exact ha), if_neg hne.symm]
    rw [row_removeEdge hne, row_removeEdge hne, row_removeEdge hne, if_pos rfl, if_neg hne,
      if_pos rfl]
    by_cases h1 : x = b
    · rw [if_pos h1, if_pos h1]
      rfl
    · rw [if_neg h1, if_neg h1, if_neg h1]
      by_cases h2 : x = a
      · rw [if_pos h2, if_pos h2]
        rfl
      · rw [if_neg h2, if_neg h2, if_neg h2]
  have hin : ∀ {c d : Nat} {w : Marks}, look adj c d = some w →
      AdjEntry.ofMarks d w ∈ row adj c := fun {c d w} hw => h.mem_row.mpr hw
  have hkeepA := filter_concat_eq_iff (h.nodup a) (hin hl)
  have hkeepB := filter_concat_eq_iff (h.nodup b) (hin (h.mirrored a b v hl))
  constructor
  · intro he
    have hx := hrow a
    rw [he, if_neg hne, if_pos rfl] at hx
    have hy := hrow b
    rw [he, if_pos rfl] at hy
    exact ⟨hkeepA.mp hx.symm, hkeepB.mp hy.symm⟩
  · rintro ⟨hA, hB⟩
    have hrows : ∀ x, row (pushMarkedPair (removeEdge adj a b) ⟨a, b, v.1, v.2.1, v.2.2⟩) x =
        row adj x := by
      intro x
      rw [hrow]
      split_ifs with h1 h2
      · rw [h1]
        exact hkeepB.mpr hB
      · rw [h2]
        exact hkeepA.mpr hA
      · rfl
    refine List.ext_getElem (by simp [pushMarkedPair, hlen, h.length]) fun i h1 h2 => ?_
    have := hrows i
    unfold row at this
    rwa [List.getD_eq_getElem _ _ h1, List.getD_eq_getElem _ _ h2] at this

/-- `set_marks_finish` refuses what would close a cycle, and then pushes the edge back. -/
theorem setMarksFinish_refused (h : Stored n adj)
    (hl : look adj a b = some v) (s t : Endpoint) :
    (∀ e, (setMarksFinish adj a b s t ⟨a, b, v.1, v.2.1, v.2.2⟩).2 = .error e →
      (setMarksFinish adj a b s t ⟨a, b, v.1, v.2.1, v.2.2⟩).1 = adj) ↔
      ∀ src dst, (⟨a, b, s, t, v.2.2⟩ : MarkedEdge).parentChild = some (src, dst) →
        reachesDirected (removeEdge adj a b) dst src = true → LastIn adj a b ∧ LastIn adj b a := by
  unfold setMarksFinish
  simp only
  cases hp : (⟨a, b, s, t, v.2.2⟩ : MarkedEdge).parentChild with
  | none =>
    obtain ⟨adj', hok, -⟩ := setMarks_ok h hl s t
    simp [hok]
  | some p =>
    obtain ⟨src, dst⟩ := p
    simp only
    split_ifs with hcyc
    · constructor
      · intro hr _ _ _ _
        exact (restored_iff h hl).mp (hr _ rfl)
      · intro hr e _
        exact (restored_iff h hl).mpr (hr src dst rfl hcyc)
    · refine iff_of_true (fun e he => by cases he) fun s' d' hp' hc => absurd hc ?_
      obtain ⟨rfl, rfl⟩ := Prod.mk.inj (Option.some.inj hp')
      exact hcyc

end Rows

/-! ## The calls -/

section Calls

variable {P : Type} {adjOf : P → MarkedRows} {g : P} {c : PagCall} {g' : P} {v : Marks}

theorem Atomic.refuse (e : GraphError) : Atomic adjOf g c (g, .error e) :=
  ⟨fun _ _ => rfl, fun h => by simp at h, fun h => by simp at h, fun h => by simp at h⟩

theorem Atomic.succeed {n : Nat} (hn : (adjOf g).length = n)
    (hs : Stored n (adjOf g')) (hac : DirAcyclic (adjOf g'))
    (hother : ∀ x y, (x, y) ≠ c.ends → (y, x) ≠ c.ends →
      look (adjOf g') x y = look (adjOf g) x y) : Atomic adjOf g c (g', .ok ()) :=
  ⟨fun e h => by simp at h, fun _ => hother, fun _ => hn ▸ hs, fun _ => hac⟩

theorem Updates.others {adj adj' : MarkedRows} {a b : Nat} (hu : Updates adj adj' a b v)
    {x y : Nat} (h1 : (x, y) ≠ (a, b)) (h2 : (y, x) ≠ (a, b)) : look adj' x y = look adj x y := by
  rw [hu, if_neg fun h => h1 (by rw [h.1, h.2]), if_neg fun h => h2 (by rw [h.1, h.2])]

theorem removeEdge_others (adj : MarkedRows) {a b x y : Nat} (h1 : (x, y) ≠ (a, b))
    (h2 : (y, x) ≠ (a, b)) : look (removeEdge adj a b) x y = look adj x y := by
  rw [look_removeEdge, if_neg]
  rintro (h | h)
  · exact h1 (by rw [h.1, h.2])
  · exact h2 (by rw [h.1, h.2])

/-- `set_marks` on an edge that is there, once its own rules are passed. -/
theorem setMarks_atomic_iff {n a b : Nat} {s t : Endpoint} {allowed : MarkedEdge → Bool}
    (h : Stored n (adjOf g)) (hac : DirAcyclic (adjOf g)) (hl : look (adjOf g) a b = some v)
    (hallowed : allowed ⟨a, b, s, t, v.2.2⟩ = true)
    (hadj : adjOf g' = (setMarksFinish (adjOf g) a b s t ⟨a, b, v.1, v.2.1, v.2.2⟩).1)
    (hext : adjOf g' = adjOf g → g' = g) :
    Atomic adjOf g (.setMarks a b s t)
        (g', (setMarksFinish (adjOf g) a b s t ⟨a, b, v.1, v.2.1, v.2.2⟩).2) ↔
      Spoils allowed (adjOf g) (.setMarks a b s t) = false := by
  obtain ⟨hs', hac', hcase⟩ := setMarksFinish_spec h hac hl s t
  have hrefused := setMarksFinish_refused h hl s t
  have hbetween : edgeBetween (adjOf g) a b = some ⟨a, b, v.1, v.2.1, v.2.2⟩ := by
    rw [h.edgeBetween_eq, hl, Option.map_some]
  have hspoils : Spoils allowed (adjOf g) (.setMarks a b s t) = false ↔
      ∀ src dst, (⟨a, b, s, t, v.2.2⟩ : MarkedEdge).parentChild = some (src, dst) →
        reachesDirected (removeEdge (adjOf g) a b) dst src = true →
          LastIn (adjOf g) a b ∧ LastIn (adjOf g) b a := by
    unfold Spoils
    simp only [hbetween]
    cases hp : (⟨a, b, s, t, v.2.2⟩ : MarkedEdge).parentChild with
    | none => simp
    | some p =>
      obtain ⟨src, dst⟩ := p
      simp only [hallowed, Option.some.injEq, Prod.mk.injEq, and_imp]
      constructor
      · rintro hf _ _ rfl rfl hr
        simpa [hr] using hf
      · intro hf
        by_cases hr : reachesDirected (removeEdge (adjOf g) a b) dst src = true
        · simp [hr, hf src dst rfl rfl hr]
        · simp [hr]
  rw [hspoils, ← hrefused]
  constructor
  · intro hatomic e he
    rw [← hadj]
    exact congrArg adjOf (hatomic.refused e he)
  · intro hr
    refine ⟨fun e he => hext (hadj.trans (hr e he)), fun hok x y h1 h2 => ?_,
      fun _ => ?_, fun _ => ?_⟩
    · rcases hcase with ⟨-, hu⟩ | ⟨src, dst, -, herr, -⟩
      · show look (adjOf g') x y = _
        rw [hadj]
        exact hu.others h1 h2
      · rw [herr] at hok
        cases hok
    · show Stored _ (adjOf g')
      rw [hadj, h.length]
      exact hs'
    · show DirAcyclic (adjOf g')
      rw [hadj]
      exact hac'

theorem spoils_conflict (allowed : MarkedEdge → Bool) (adj : MarkedRows) (a b : Nat) :
    Spoils allowed adj (.setMarks a b .conflict .conflict) = false := by
  unfold Spoils
  simp only
  split <;> rfl

/-- What a type of PAGs keeps, and what its insertion and its removal do. -/
structure KeepsRows (adjOf : P → MarkedRows) (nodes : P → List NodeRef)
    (insert : P → MarkedEdge → Except GraphError P) (remove : P → Nat → Nat → Except GraphError P) :
    Prop where
  stored : ∀ g, Stored (nodes g).length (adjOf g)
  acyclic : ∀ g, DirAcyclic (adjOf g)
  insert_spec : ∀ {g g' edge}, insert g edge = .ok g' → nodes g' = nodes g ∧
    Updates (adjOf g) (adjOf g') edge.a edge.b (edge.atA, edge.atB, edge.middle)
  remove_spec : ∀ {g g' a b}, remove g a b = .ok g' → nodes g' = nodes g ∧
    adjOf g' = removeEdge (adjOf g) a b

variable {nodes : P → List NodeRef} {insert : P → MarkedEdge → Except GraphError P}
  {remove : P → Nat → Nat → Except GraphError P}

variable (h : KeepsRows adjOf nodes insert remove)

include h

theorem KeepsRows.succeed (hn : nodes g' = nodes g)
    (hother : ∀ x y, (x, y) ≠ c.ends → (y, x) ≠ c.ends → look (adjOf g') x y = look (adjOf g) x y) :
    Atomic adjOf g c (g', .ok ()) :=
  .succeed ((h.stored g).length.trans (congrArg List.length hn).symm) (h.stored g') (h.acyclic g') hother

theorem KeepsRows.insert_atomic (g : P) (edge : MarkedEdge) :
    Atomic adjOf g (.insertMarked edge) (settle g (insert g edge)) := by
  cases hi : insert g edge with
  | error e => exact .refuse e
  | ok g' =>
    obtain ⟨hn, hu⟩ := h.insert_spec hi
    exact h.succeed hn fun x y h1 h2 => hu.others h1 h2

theorem KeepsRows.remove_atomic (g : P) (a b : Nat) :
    Atomic adjOf g (.removeEdge a b) (settle g (remove g a b)) := by
  cases hi : remove g a b with
  | error e => exact .refuse e
  | ok g' =>
    obtain ⟨hn, hadj⟩ := h.remove_spec hi
    refine h.succeed hn fun x y h1 h2 => ?_
    rw [hadj]
    exact removeEdge_others (adjOf g) h1 h2

end Calls

namespace Pag

variable {g g' : Pag}

theorem eq_of_adj (hn : g'.nodes = g.nodes) (ha : g'.adj = g.adj) : g' = g := by
  cases g
  cases g'
  cases hn
  cases ha
  rfl

def allowed (_ : MarkedEdge) : Bool := true

theorem setMarks_iff (g : Pag) (a b : Nat) (s t : Endpoint) :
    Atomic Pag.adj g (.setMarks a b s t) (g.setMarks a b s t) ↔
      Spoils allowed g.adj (.setMarks a b s t) = false := by
  have hnone : edgeBetween g.adj a b = none → Spoils allowed g.adj (.setMarks a b s t) = false := by
    intro h
    unfold Spoils
    simp only [h]
  have hlen : g.adj.length = g.nodeCount := g.stored.length
  unfold setMarks
  by_cases ha : g.nodeCount ≤ a
  · rw [if_pos ha]
    exact iff_of_true (.refuse _) (hnone (if_pos (Or.inl (hlen ▸ ha))))
  rw [if_neg ha]
  split_ifs with hb
  · exact iff_of_true (.refuse _) (hnone (if_pos (Or.inr (hlen ▸ hb))))
  split
  · rename_i he
    exact iff_of_true (.refuse _) (hnone he)
  · rename_i previous he
    rw [g.stored.edgeBetween_eq, Option.map_eq_some_iff] at he
    obtain ⟨v, hl, rfl⟩ := he
    exact setMarks_atomic_iff g.stored g.acyclic hl rfl rfl (eq_of_adj rfl)

theorem insertMarked_spec {edge : MarkedEdge} (h : g.insertMarked edge = .ok g') :
    g'.nodes = g.nodes ∧
      Updates g.adj g'.adj edge.a edge.b (edge.atA, edge.atB, edge.middle) := by
  unfold insertMarked at h
  split_ifs at h with hne ha hb
  split at h
  · cases h
  · rename_i adj hi
    cases h
    exact ⟨rfl, (insertMarkedFinish_ok g.stored g.acyclic ha hb hne hi).2.2.2⟩

theorem removeEdge_spec {a b : Nat} (h : g.removeEdge a b = .ok g') :
    g'.nodes = g.nodes ∧ g'.adj = Graph.removeEdge g.adj a b := by
  unfold removeEdge at h
  split_ifs at h
  cases h
  exact ⟨rfl, rfl⟩

theorem keepsRows : KeepsRows Pag.adj Pag.nodes insertMarked removeEdge where
  stored := stored
  acyclic := acyclic
  insert_spec := insertMarked_spec
  remove_spec := removeEdge_spec

/-- **A call on a static PAG.** -/
theorem call_atomic_iff (g : Pag) (c : PagCall) :
    Atomic Pag.adj g c (g.call c) ↔ Spoils allowed g.adj c = false := by
  cases c with
  | setMarks a b s t => exact g.setMarks_iff a b s t
  | insertMarked edge => exact iff_of_true (keepsRows.insert_atomic g edge) rfl
  | removeEdge a b => exact iff_of_true (keepsRows.remove_atomic g a b) rfl
  | markConflict a b =>
    refine iff_of_true ?_ rfl
    obtain ⟨h1, h2, h3, h4⟩ := (g.setMarks_iff a b .conflict .conflict).mpr (spoils_conflict _ _ a b)
    exact ⟨h1, h2, h3, h4⟩

end Pag

namespace TemporalPag

variable {g g' : TemporalPag}

theorem eq_of_adj (hn : g'.nodes = g.nodes) (ha : g'.adj = g.adj) :
    g' = g := by
  cases g
  cases g'
  cases hn
  cases ha
  rfl

def allowed (g : TemporalPag) (edge : MarkedEdge) : Bool := (checkDirection g.nodes edge).isOk

theorem setMarks_iff (g : TemporalPag) (a b : Nat) (s t : Endpoint) :
    Atomic TemporalPag.adj g (.setMarks a b s t) (g.setMarks a b s t) ↔
      Spoils g.allowed g.adj (.setMarks a b s t) = false := by
  have hnone : edgeBetween g.adj a b = none →
      Spoils g.allowed g.adj (.setMarks a b s t) = false := by
    intro h
    unfold Spoils
    simp only [h]
  have hlen : g.adj.length = g.nodeCount := g.stored.length
  unfold setMarks
  by_cases ha : g.nodeCount ≤ a
  · rw [if_pos ha]
    exact iff_of_true (.refuse _) (hnone (if_pos (Or.inl (hlen ▸ ha))))
  rw [if_neg ha]
  split_ifs with hb
  · exact iff_of_true (.refuse _) (hnone (if_pos (Or.inr (hlen ▸ hb))))
  split
  · rename_i he
    exact iff_of_true (.refuse _) (hnone he)
  · rename_i previous he
    have hbetween := he
    rw [g.stored.edgeBetween_eq, Option.map_eq_some_iff] at he
    obtain ⟨v, hl, rfl⟩ := he
    split
    · rename_i e hdir
      refine iff_of_true (.refuse _) ?_
      have hbad : g.allowed ⟨a, b, s, t, v.2.2⟩ = false := by
        unfold allowed
        rw [hdir]
        rfl
      unfold Spoils
      simp only [hbetween, hbad, Bool.false_and]
      split <;> rfl
    · rename_i hdir
      have hgood : g.allowed ⟨a, b, s, t, v.2.2⟩ = true := by
        unfold allowed
        rw [hdir]
        rfl
      exact setMarks_atomic_iff g.stored g.acyclic hl hgood rfl (eq_of_adj rfl)

theorem insertMarked_spec {edge : MarkedEdge}
    (h : g.insertMarked edge = .ok g') : g'.nodes = g.nodes ∧
      Updates g.adj g'.adj edge.a edge.b (edge.atA, edge.atB, edge.middle) := by
  unfold insertMarked at h
  split_ifs at h with ha hb hne
  split at h
  · cases h
  · split at h
    · cases h
    · split at h
      · cases h
      · rename_i adj hi
        cases h
        exact ⟨rfl, (insertMarkedFinish_ok g.stored g.acyclic ha hb hne hi).2.2.2⟩

theorem removeEdge_spec {a b : Nat} (h : g.removeEdge a b = .ok g') :
    g'.nodes = g.nodes ∧ g'.adj = Graph.removeEdge g.adj a b := by
  unfold removeEdge at h
  split_ifs at h
  cases h
  exact ⟨rfl, rfl⟩

theorem keepsRows : KeepsRows TemporalPag.adj TemporalPag.nodes insertMarked removeEdge where
  stored := stored
  acyclic := acyclic
  insert_spec := insertMarked_spec
  remove_spec := removeEdge_spec

/-- **A call on a temporal PAG.** -/
theorem call_atomic_iff (g : TemporalPag) (c : PagCall) :
    Atomic TemporalPag.adj g c (g.call c) ↔ Spoils g.allowed g.adj c = false := by
  cases c with
  | setMarks a b s t => exact g.setMarks_iff a b s t
  | insertMarked edge => exact iff_of_true (keepsRows.insert_atomic g edge) rfl
  | removeEdge a b => exact iff_of_true (keepsRows.remove_atomic g a b) rfl
  | markConflict a b =>
    refine iff_of_true ?_ rfl
    obtain ⟨h1, h2, h3, h4⟩ := (g.setMarks_iff a b .conflict .conflict).mpr (spoils_conflict _ _ a b)
    exact ⟨h1, h2, h3, h4⟩

end TemporalPag

/-- **A call is atomic exactly when it does not spoil the order of the rows**, on every static and
every temporal PAG. -/
theorem calls_atomic_iff (g : Pag) (h : TemporalPag) (c : PagCall) :
    (Atomic Pag.adj g c (g.call c) ↔ Spoils Pag.allowed g.adj c = false) ∧
      (Atomic TemporalPag.adj h c (h.call c) ↔ Spoils h.allowed h.adj c = false) :=
  ⟨g.call_atomic_iff c, h.call_atomic_iff c⟩

/-- `2 → 1 → 0 o→ 2` with a later edge `0 o-o 3`: the refused `0 → 2` comes back behind that edge. -/
theorem calls_not_atomic : ∃ g, ((Pag.withVariables 4).insertDirected 2 1 >>= fun g =>
      g.insertDirected 1 0 >>= fun g => g.insertCircleArrow 0 2 >>= fun g =>
        g.insertCircleCircle 0 3) = .ok g ∧
    ¬ Atomic Pag.adj g (.setMarks 0 2 .tail .arrow) (g.call (.setMarks 0 2 .tail .arrow)) := by
  obtain ⟨g, hg, hspoils⟩ : ∃ g, ((Pag.withVariables 4).insertDirected 2 1 >>= fun g =>
      g.insertDirected 1 0 >>= fun g => g.insertCircleArrow 0 2 >>= fun g =>
        g.insertCircleCircle 0 3) = .ok g ∧
      Spoils Pag.allowed g.adj (.setMarks 0 2 .tail .arrow) = true := ⟨_, rfl, by decide +kernel⟩
  refine ⟨g, hg, ?_⟩
  rw [g.call_atomic_iff, hspoils]
  simp

end Antecedent.Graph
