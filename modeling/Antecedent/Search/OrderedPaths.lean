import Antecedent.Search.SimplePaths
import Mathlib.Data.List.Flatten
import Mathlib.Order.WellFounded

/-!
# The paths of an acyclic graph, in depth-first order

Over a successor function without cycles the paths to a node are a list by recursion on where they
start. A depth-first search that pops its last successor first comes to them in the order of
`pathsTo`.

* `mem_pathsTo`, `nodup_pathsTo`: the list holds every path once.
* `todo`: what a stack of frames still has to list, with what one turn does to it.
-/

namespace Antecedent.OrderedPaths

open SimplePaths Relation

variable {α : Type*} {row : α → List α}

/-- Successors lie strictly below. -/
abbrev Descends (row : α → List α) : Prop := WellFounded fun c v => c ∈ row v

theorem Descends.irrefl (hwf : Descends row) (v : α) :
    ¬ TransGen (fun a b => b ∈ row a) v v := by
  intro h
  have hswap : TransGen (fun c v => c ∈ row v) v v := Relation.transGen_swap.mp h
  exact hwf.transGen.irrefl.irrefl v hswap

theorem Descends.nodup (hwf : Descends row) {p : List α}
    (h : List.IsChain (fun a b => b ∈ row a) p) : p.Nodup := by
  have htrans : List.IsChain (TransGen fun a b => b ∈ row a) p :=
    h.imp fun _ _ hab => TransGen.single hab
  refine (List.isChain_iff_pairwise.mp htrans).imp fun {a b} hab e => ?_
  exact hwf.irrefl a (e ▸ hab)

section Paths

variable [DecidableEq α] (hwf : Descends row) (y : α)

/-- The paths from a node to `y`, those through its last successor first. -/
noncomputable def pathsTo : α → List (List α) :=
  hwf.fix fun v paths =>
    if v = y then [[v]]
    else (row v).reverse.attach.flatMap fun c =>
      (paths c.1 (List.mem_reverse.mp c.2)).map (v :: ·)

theorem pathsTo_eq (v : α) : pathsTo hwf y v =
    if v = y then [[v]]
    else (row v).reverse.flatMap fun c => (pathsTo hwf y c).map (v :: ·) := by
  have hattach : ∀ l : List α, (l.attach.flatMap fun c => (pathsTo hwf y c.1).map (v :: ·)) =
      l.flatMap fun c => (pathsTo hwf y c).map (v :: ·) := by
    intro l
    rw [← List.flatMap_map Subtype.val fun c => (pathsTo hwf y c).map (v :: ·),
      List.attach_map_subtype_val]
  rw [← hattach]
  exact hwf.fix_eq _ v

theorem pathsTo_self : pathsTo hwf y y = [[y]] := by
  rw [pathsTo_eq, if_pos rfl]

theorem pathsTo_ne {v : α} (h : v ≠ y) : pathsTo hwf y v =
    (row v).reverse.flatMap fun c => (pathsTo hwf y c).map (v :: ·) := by
  rw [pathsTo_eq, if_neg h]

/-- **The list holds exactly the paths to `y`.** -/
theorem mem_pathsTo : ∀ {v : α} {p : List α}, p ∈ pathsTo hwf y v ↔ SimplePath row v y p := by
  intro v
  induction v using hwf.induction with
  | _ v ih =>
    intro p
    rw [pathsTo_eq]
    split_ifs with hv
    · subst hv
      rw [List.mem_singleton]
      constructor
      · rintro rfl
        exact ⟨List.isChain_singleton v, List.nodup_singleton v, rfl, rfl⟩
      · intro h
        have hpre : ([] : List α) ++ [v] <+: p := by
          cases p with
          | nil => exact absurd h.head (by simp)
          | cons a p =>
            obtain rfl := Option.some.inj h.head
            exact ⟨p, rfl⟩
        exact h.eq_of_ends hpre
    · rw [List.mem_flatMap]
      constructor
      · rintro ⟨c, hc, hp⟩
        obtain ⟨q, hq, rfl⟩ := List.mem_map.mp hp
        have hc := List.mem_reverse.mp hc
        have h := (ih c hc).mp hq
        have hchain : List.IsChain (fun a b => b ∈ row a) (v :: q) := by
          cases q with
          | nil => exact absurd h.head (by simp)
          | cons a q =>
            obtain rfl := Option.some.inj h.head
            exact List.isChain_cons_cons.mpr ⟨hc, h.chain⟩
        refine ⟨hchain, hwf.nodup hchain, rfl, ?_⟩
        rw [List.getLast?_cons, h.last]
        rfl
      · intro h
        cases p with
        | nil => exact absurd h.head (by simp)
        | cons a q =>
          obtain rfl := Option.some.inj h.head
          cases q with
          | nil => exact absurd (Option.some.inj h.last) hv
          | cons c q =>
            obtain ⟨hc, hchain⟩ := List.isChain_cons_cons.mp h.chain
            refine ⟨c, List.mem_reverse.mpr hc, List.mem_map.mpr ⟨c :: q, ?_, rfl⟩⟩
            refine (ih c hc).mpr ⟨hchain, (List.nodup_cons.mp h.nodup).2, rfl, ?_⟩
            have hlast := h.last
            rwa [List.getLast?_cons_cons] at hlast

theorem nodup_pathsTo (hrow : ∀ v, (row v).Nodup) (v : α) : (pathsTo hwf y v).Nodup := by
  induction v using hwf.induction with
  | _ v ih =>
    rw [pathsTo_eq]
    split_ifs with hv
    · exact List.nodup_singleton _
    · refine List.nodup_flatMap.mpr ⟨fun c hc => ?_, ?_⟩
      · exact (ih c (List.mem_reverse.mp hc)).map fun p q h => (List.cons.inj h).2
      · refine (List.nodup_reverse.mpr (hrow v)).imp fun {c d} hcd => ?_
        rintro p hp hp'
        obtain ⟨q, hq, rfl⟩ := List.mem_map.mp hp
        obtain ⟨r, hr, he⟩ := List.mem_map.mp hp'
        obtain rfl := (List.cons.inj he).2
        have h1 := ((mem_pathsTo hwf y).mp hq).head
        have h2 := ((mem_pathsTo hwf y).mp hr).head
        exact hcd (Option.some.inj (h1.symm.trans h2))

/-! ## What a stack of frames still has to list -/

/-- The paths through the successors below the cursors, top frame first. -/
noncomputable def todo : Frames α → List (List α)
  | [] => []
  | (last, c) :: rest =>
    (((row last).take c).reverse.flatMap fun nbr =>
      (pathsTo hwf y nbr).map (pathOf ((last, c) :: rest) ++ ·)) ++ todo rest

theorem todo_lower {last nbr : α} {c : Nat} {rest : Frames α} (h : (row last)[c]? = some nbr) :
    todo hwf y ((last, c + 1) :: rest) =
      (pathsTo hwf y nbr).map (pathOf ((last, c) :: rest) ++ ·) ++
        todo hwf y ((last, c) :: rest) := by
  have hpath : pathOf ((last, c + 1) :: rest) = pathOf ((last, c) :: rest) := by
    rw [pathOf_cons, pathOf_cons]
  rw [todo, todo, hpath, List.take_add_one, h, Option.toList_some, List.reverse_append,
    List.reverse_singleton, List.singleton_append, List.flatMap_cons, List.append_assoc]

/-- A frame opened on a node lists the paths through it. -/
theorem todo_push {nbr : α} (hne : nbr ≠ y) (frames : Frames α) :
    todo hwf y ((nbr, (row nbr).length) :: frames) =
      (pathsTo hwf y nbr).map (pathOf frames ++ ·) ++ todo hwf y frames := by
  rw [todo, List.take_length, pathsTo_ne hwf y hne, List.map_flatMap]
  congr 1
  refine List.flatMap_congr fun c _ => ?_
  rw [List.map_map, pathOf_cons]
  refine List.map_congr_left fun p _ => ?_
  simp

/-! ## What a stack of partial paths still has to list -/

/-- The paths that go on from a partial path. -/
noncomputable def completion (p : List α) : List (List α) :=
  match p.getLast? with
  | none => []
  | some v => (pathsTo hwf y v).map (p.dropLast ++ ·)

/-- The paths that go on from a stack of partial paths, top first. -/
noncomputable def completions (stack : List (List α)) : List (List α) :=
  stack.flatMap (completion hwf y)

theorem completion_concat (p : List α) (v : α) :
    completion hwf y (p ++ [v]) = (pathsTo hwf y v).map (p ++ ·) := by
  unfold completion
  rw [List.getLast?_concat, List.dropLast_concat]

theorem completion_done (p : List α) : completion hwf y (p ++ [y]) = [p ++ [y]] := by
  rw [completion_concat, pathsTo_self]
  rfl

/-- Extending a partial path by every successor, the last one on top. -/
theorem completion_extend {v : α} (hne : v ≠ y) (p : List α) :
    completion hwf y (p ++ [v]) =
      completions hwf y ((row v).reverse.map fun c => p ++ [v] ++ [c]) := by
  rw [completion_concat, pathsTo_ne hwf y hne, List.map_flatMap, completions, List.flatMap_map]
  refine List.flatMap_congr fun c _ => ?_
  rw [completion_concat, List.map_map]
  refine List.map_congr_left fun q _ => ?_
  simp

end Paths

end Antecedent.OrderedPaths
