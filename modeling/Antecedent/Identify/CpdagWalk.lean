import Antecedent.Identify.CpdagCompletion

/-!
# What the orientation walk enumerates

The walk tries both directions of each undirected edge, prunes an attempt that would close a cycle or
make a collider, and puts everything back on the way out. `leaves` is the list of masks a walk without a
budget returns; what a walk returns is a part of it from the front, all of it if nothing stopped the walk.

* `admissible_iff`: an attempt is admitted iff the directed edges stay acyclic and make no new
  unshielded collider.
-/

namespace Antecedent.Identify.CpdagCompletion

open Core Antecedent.Graph Worklist Relation

variable {sk : Skeleton} {o : Orienter} {R S : Nat → Nat → Prop} {n a b i j k src dst : Nat}
  {m mask : Finset Nat} {es : List (Nat × Nat)}

/-! ## Rows and relations -/

/-- The rows are those of a relation over the nodes. -/
structure RowsOf (n : Nat) (o : Orienter) (R : Nat → Nat → Prop) : Prop where
  children : ∀ i j, j ∈ o.children i ↔ R i j
  parents : ∀ i j, i ∈ o.parents j ↔ R i j
  lt : ∀ i j, R i j → i < n ∧ j < n

/-- One more edge. -/
def Plus (R : Nat → Nat → Prop) (src dst : Nat) (i j : Nat) : Prop := R i j ∨ (i = src ∧ j = dst)

theorem mem_insertAt {rows : Nat → Finset Nat} {x y : Nat} :
    y ∈ insertAt rows src dst x ↔ y ∈ rows x ∨ (x = src ∧ y = dst) := by
  unfold insertAt
  by_cases hx : x = src
  · subst hx
    simp [or_comm]
  · simp [hx]

theorem RowsOf.orient (h : RowsOf n o R) (hs : src < n) (hd : dst < n) :
    RowsOf n (o.orient src dst true) (Plus R src dst) where
  children i j := by
    rw [Orienter.orient, if_pos rfl, mem_insertAt, h.children]
    rfl
  parents i j := by
    rw [Orienter.orient, if_pos rfl, mem_insertAt, h.parents]
    exact or_congr Iff.rfl and_comm
  lt i j := by
    rintro (hR | ⟨rfl, rfl⟩)
    · exact h.lt i j hR
    · exact ⟨hs, hd⟩

/-- Taking back an edge that was new restores the rows. -/
theorem orient_undo {o' : Orienter} (hc : o'.children = (o.orient src dst true).children)
    (hp : o'.parents = (o.orient src dst true).parents) (hcs : dst ∉ o.children src)
    (hps : src ∉ o.parents dst) : (o'.orient src dst false).children = o.children ∧
      (o'.orient src dst false).parents = o.parents := by
  have hundo {rows : Nat → Finset Nat} {x y : Nat} (hy : y ∉ rows x) :
      removeAt (insertAt rows x y) x y = rows := by
    unfold removeAt insertAt
    simp [hy]
  simp only [Orienter.orient, if_true, Bool.false_eq_true, if_false] at hc hp ⊢
  rw [hc, hp]
  exact ⟨hundo hcs, hundo hps⟩

theorem reaches_iff (h : RowsOf n o R) (hs : src < n) :
    o.reaches n src dst = true ↔ ReflTransGen R src dst := by
  have hnext {u w : Nat} : w ∈ (List.range n).filter (fun w => decide (w ∈ o.children u)) ↔ R u w := by
    rw [List.mem_filter, List.mem_range, decide_eq_true_iff, h.children]
    exact ⟨And.right, fun hR => ⟨(h.lt u w hR).2, hR⟩⟩
  have hU : Bounded (fun v => (List.range n).filter fun w => decide (w ∈ o.children v)) [src]
      (Finset.range n) := by
    refine ⟨fun s hs' => ?_, fun u _ w hw => ?_⟩
    · rw [List.mem_singleton.mp hs']
      exact Finset.mem_range.mpr hs
    · exact Finset.mem_range.mpr (h.lt u w (hnext.mp hw)).2
  have hrel : Reach (fun v => (List.range n).filter fun w => decide (w ∈ o.children v)) =
      ReflTransGen R :=
    congrArg ReflTransGen (funext fun u => funext fun w => propext hnext)
  rw [Orienter.reaches, search_iff hU (by simp), hrel]
  constructor
  · rintro ⟨s, v, hs', hr, hv⟩
    rw [List.mem_singleton.mp hs', beq_iff_eq.mp hv] at hr
    exact hr
  · exact fun hr => ⟨src, dst, List.mem_singleton.mpr rfl, hr, beq_iff_eq.mpr rfl⟩

/-! ## Good orientations -/

/-- Acyclic, and no unshielded collider but those of the fixed edges. -/
structure Good (sk : Skeleton) (R : Nat → Nat → Prop) : Prop where
  acyclic : ∀ v, ¬ TransGen R v v
  safe : ∀ i j c, R i c → R j c → i ≠ j → j ∉ sk.adjacent i → (i, c) ∈ sk.fixed

theorem Good.mono (h : Good sk S) (hRS : ∀ i j, R i j → S i j) : Good sk R where
  acyclic v hv := h.acyclic v (TransGen.mono hRS _ _ hv)
  safe i j c hi hj := h.safe i j c (hRS i c hi) (hRS j c hj)

/-- The undirected edges to come: each is new, and listed once. -/
structure Fresh (sk : Skeleton) (n : Nat) (R : Nat → Nat → Prop) (es : List (Nat × Nat)) : Prop where
  nodup : es.Nodup
  lt : ∀ e ∈ es, e.1 < e.2 ∧ e.2 < n
  new : ∀ e ∈ es, ¬ R e.1 e.2 ∧ ¬ R e.2 e.1
  notFixed : ∀ e ∈ es, e ∉ sk.fixed ∧ (e.2, e.1) ∉ sk.fixed

theorem Fresh.tail (h : Fresh sk n R ((a, b) :: es)) {src dst : Nat}
    (hdir : (src, dst) = (a, b) ∨ (src, dst) = (b, a)) : Fresh sk n (Plus R src dst) es where
  nodup := h.nodup.of_cons
  lt e he := h.lt e (List.mem_cons_of_mem _ he)
  notFixed e he := h.notFixed e (List.mem_cons_of_mem _ he)
  new e he := by
    have hne : e ≠ (a, b) := fun heq => (List.nodup_cons.mp h.nodup).1 (heq ▸ he)
    obtain ⟨hn1, hn2⟩ := h.new e (List.mem_cons_of_mem _ he)
    have hlt := (h.lt e (List.mem_cons_of_mem _ he)).1
    have hab := (h.lt (a, b) List.mem_cons_self).1
    obtain ⟨e1, e2⟩ := e
    simp only [ne_eq, Prod.mk.injEq] at hne hdir hlt hab hn1 hn2 ⊢
    unfold Plus
    constructor
    · rintro (hR | hR)
      · exact hn1 hR
      · omega
    · rintro (hR | hR)
      · exact hn2 hR
      · omega

/-- **The local test is the global one.** -/
theorem admissible_iff (hsymm : ∀ i j, j ∈ sk.adjacent i ↔ i ∈ sk.adjacent j)
    (h : RowsOf sk.vars.length o R) (hg : Good sk R) (hs : src < sk.vars.length)
    (hd : dst < sk.vars.length) (hnew : ¬ R src dst) (hfix : (src, dst) ∉ sk.fixed) :
    o.admissible sk src dst = true ↔ Good sk (Plus R src dst) := by
  have hsub : (o.parents dst).erase src ⊆ sk.adjacent src ↔
      ∀ p, R p dst → p ≠ src → p ∈ sk.adjacent src := by
    constructor
    · exact fun hs p hp hne => hs (Finset.mem_erase.mpr ⟨hne, (h.parents p dst).mpr hp⟩)
    · exact fun hall p hp => hall p ((h.parents p dst).mp (Finset.mem_erase.mp hp).2)
        (Finset.mem_erase.mp hp).1
  rw [Orienter.admissible, Bool.and_eq_true, decide_eq_true_iff, hsub, Bool.not_eq_true',
    ← Bool.not_eq_true, reaches_iff h hd]
  constructor
  · rintro ⟨hreach, hshield⟩
    refine ⟨acyclic_insert hg.acyclic (fun x y hxy => hxy) hreach, fun i j c hi hj hne hadj => ?_⟩
    rcases hi with hi | ⟨rfl, rfl⟩
    · rcases hj with hj | ⟨rfl, rfl⟩
      · exact hg.safe i j c hi hj hne hadj
      · exact absurd ((hsymm _ _).mp (hshield i hi hne)) hadj
    · rcases hj with hj | ⟨rfl, -⟩
      · exact absurd (hshield j hj hne.symm) hadj
      · exact absurd rfl hne
  · refine fun hg' => ⟨fun hr => ?_, fun p hp hne => ?_⟩
    · exact hg'.acyclic dst (TransGen.tail' (ReflTransGen.mono (fun _ _ => Or.inl) _ _ hr) (Or.inr ⟨rfl, rfl⟩))
    · by_contra hadj
      exact hfix (hg'.safe src p dst (Or.inr ⟨rfl, rfl⟩) (Or.inl hp) (Ne.symm hne) hadj)

/-! ## The leaves -/

/-- The masks of a walk that nothing stops. -/
def leaves (sk : Skeleton) : Nat → List (Nat × Nat) → Orienter → Finset Nat → List (Finset Nat)
  | _, [], _, mask => [mask]
  | k, (a, b) :: es, o, mask =>
    (if o.admissible sk a b then leaves sk (k + 1) es (o.orient a b true) (insert k mask) else []) ++
      (if o.admissible sk b a then leaves sk (k + 1) es (o.orient b a true) mask else [])

/-- The relation with the edges a mask chooses. -/
def With (R : Nat → Nat → Prop) (m : Finset Nat) (k : Nat) (es : List (Nat × Nat)) (i j : Nat) : Prop :=
  R i j ∨ (i, j) ∈ chosen m k es

theorem with_cons_pos (hk : k ∈ m) :
    With R m k ((a, b) :: es) = With (Plus R a b) m (k + 1) es := by
  funext i j
  simp only [With, chosen, Plus, if_pos hk, List.mem_cons, Prod.mk.injEq, or_assoc]

theorem with_cons_neg (hk : k ∉ m) :
    With R m k ((a, b) :: es) = With (Plus R b a) m (k + 1) es := by
  funext i j
  simp only [With, chosen, Plus, if_neg hk, List.mem_cons, Prod.mk.injEq, or_assoc]

/-- **A mask is a leaf iff its directions are good together.** -/
theorem mem_leaves (hsymm : ∀ i j, j ∈ sk.adjacent i ↔ i ∈ sk.adjacent j) :
    ∀ (es : List (Nat × Nat)) (k : Nat) (o : Orienter) (mask : Finset Nat) (R : Nat → Nat → Prop),
      RowsOf sk.vars.length o R → Good sk R → Fresh sk sk.vars.length R es → (∀ t ∈ mask, t < k) →
      (m ∈ leaves sk k es o mask ↔ (∀ t < k, t ∈ m ↔ t ∈ mask) ∧ (∀ t ∈ m, t < k + es.length) ∧
        Good sk (With R m k es))
  | [], k, o, mask, R, _, hg, _, hmask => by
    have hwith : With R m k [] = R := by funext i j; simp [With, chosen]
    rw [leaves, List.mem_singleton, hwith]
    constructor
    · rintro rfl
      exact ⟨fun _ _ => Iff.rfl, hmask, hg⟩
    · rintro ⟨hagree, hlt, -⟩
      ext t
      constructor
      · exact fun ht => (hagree t (hlt t ht)).mp ht
      · exact fun ht => (hagree t (hmask t ht)).mpr ht
  | (a, b) :: es, k, o, mask, R, h, hg, hf, hmask => by
    obtain ⟨hab, hb⟩ := hf.lt (a, b) List.mem_cons_self
    simp only at hab hb
    have ha : a < sk.vars.length := Nat.lt_trans hab hb
    obtain ⟨hnab, hnba⟩ := hf.new (a, b) List.mem_cons_self
    obtain ⟨hfab, hfba⟩ := hf.notFixed (a, b) List.mem_cons_self
    have hfwd := admissible_iff hsymm h hg ha hb hnab hfab
    have hbwd := admissible_iff hsymm h hg hb ha hnba hfba
    have hk : k ∉ mask := fun hk => Nat.lt_irrefl k (hmask k hk)
    have ihf (hg' : Good sk (Plus R a b)) := mem_leaves hsymm es (k + 1) (o.orient a b true)
      (insert k mask) (Plus R a b) (h.orient ha hb) hg' (hf.tail (Or.inl rfl)) (by
        intro t ht
        rcases Finset.mem_insert.mp ht with rfl | ht
        · exact Nat.lt_succ_self _
        · exact Nat.lt_succ_of_lt (hmask t ht))
    have ihb (hg' : Good sk (Plus R b a)) := mem_leaves hsymm es (k + 1) (o.orient b a true)
      mask (Plus R b a) (h.orient hb ha) hg' (hf.tail (Or.inr rfl))
        fun t ht => Nat.lt_succ_of_lt (hmask t ht)
    have hlen : k + ((a, b) :: es).length = k + 1 + es.length := by
      rw [List.length_cons]
      omega
    rw [leaves, List.mem_append, hlen]
    by_cases hkm : k ∈ m
    · rw [with_cons_pos hkm]
      constructor
      · rintro (hmem | hmem)
        · split_ifs at hmem with hadm
          · obtain ⟨hagree, hlt, hgood⟩ := (ihf (hfwd.mp hadm)).mp hmem
            refine ⟨fun t ht => ?_, hlt, hgood⟩
            rw [hagree t (Nat.lt_succ_of_lt ht), Finset.mem_insert, or_iff_right (Nat.ne_of_lt ht)]
          · cases hmem
        · split_ifs at hmem with hadm
          · obtain ⟨hagree, -, -⟩ := (ihb (hbwd.mp hadm)).mp hmem
            exact absurd ((hagree k (Nat.lt_succ_self k)).mp hkm) hk
          · cases hmem
      · rintro ⟨hagree, hlt, hgood⟩
        have hg' : Good sk (Plus R a b) := hgood.mono fun _ _ => Or.inl
        left
        rw [if_pos (hfwd.mpr hg')]
        refine (ihf hg').mpr ⟨fun t ht => ?_, hlt, hgood⟩
        rcases Nat.lt_succ_iff_lt_or_eq.mp ht with ht | rfl
        · rw [hagree t ht, Finset.mem_insert, or_iff_right (Nat.ne_of_lt ht)]
        · exact iff_of_true hkm (Finset.mem_insert_self _ _)
    · rw [with_cons_neg hkm]
      constructor
      · rintro (hmem | hmem)
        · split_ifs at hmem with hadm
          · obtain ⟨hagree, -, -⟩ := (ihf (hfwd.mp hadm)).mp hmem
            exact absurd ((hagree k (Nat.lt_succ_self k)).mpr (Finset.mem_insert_self _ _)) hkm
          · cases hmem
        · split_ifs at hmem with hadm
          · obtain ⟨hagree, hlt, hgood⟩ := (ihb (hbwd.mp hadm)).mp hmem
            exact ⟨fun t ht => hagree t (Nat.lt_succ_of_lt ht), hlt, hgood⟩
          · cases hmem
      · rintro ⟨hagree, hlt, hgood⟩
        have hg' : Good sk (Plus R b a) := hgood.mono fun _ _ => Or.inl
        right
        rw [if_pos (hbwd.mpr hg')]
        refine (ihb hg').mpr ⟨fun t ht => ?_, hlt, hgood⟩
        rcases Nat.lt_succ_iff_lt_or_eq.mp ht with ht | rfl
        · exact hagree t ht
        · exact iff_of_false hkm hk

theorem nodup_leaves (hsymm : ∀ i j, j ∈ sk.adjacent i ↔ i ∈ sk.adjacent j) :
    ∀ (es : List (Nat × Nat)) (k : Nat) (o : Orienter) (mask : Finset Nat) (R : Nat → Nat → Prop),
      RowsOf sk.vars.length o R → Good sk R → Fresh sk sk.vars.length R es → (∀ t ∈ mask, t < k) →
      (leaves sk k es o mask).Nodup
  | [], _, _, _, _, _, _, _, _ => List.nodup_singleton _
  | (a, b) :: es, k, o, mask, R, h, hg, hf, hmask => by
    obtain ⟨hab, hb⟩ := hf.lt (a, b) List.mem_cons_self
    simp only at hab hb
    have ha : a < sk.vars.length := Nat.lt_trans hab hb
    obtain ⟨hnab, hnba⟩ := hf.new (a, b) List.mem_cons_self
    obtain ⟨hfab, hfba⟩ := hf.notFixed (a, b) List.mem_cons_self
    have hfwd := admissible_iff hsymm h hg ha hb hnab hfab
    have hbwd := admissible_iff hsymm h hg hb ha hnba hfba
    have hk : k ∉ mask := fun hk => Nat.lt_irrefl k (hmask k hk)
    have hmask' : ∀ t ∈ insert k mask, t < k + 1 := by
      intro t ht
      rcases Finset.mem_insert.mp ht with rfl | ht
      · exact Nat.lt_succ_self _
      · exact Nat.lt_succ_of_lt (hmask t ht)
    have hmask'' : ∀ t ∈ mask, t < k + 1 := fun t ht => Nat.lt_succ_of_lt (hmask t ht)
    rw [leaves]
    refine List.Nodup.append ?_ ?_ fun m hm hm' => ?_
    · split_ifs with hadm
      · exact nodup_leaves hsymm es (k + 1) _ _ _ (h.orient ha hb) (hfwd.mp hadm)
          (hf.tail (Or.inl rfl)) hmask'
      · exact List.nodup_nil
    · split_ifs with hadm
      · exact nodup_leaves hsymm es (k + 1) _ _ _ (h.orient hb ha) (hbwd.mp hadm)
          (hf.tail (Or.inr rfl)) hmask''
      · exact List.nodup_nil
    -- the first kind holds `k`, the second does not
    · split_ifs at hm with hadm
      · split_ifs at hm' with hadm'
        · have h1 := ((mem_leaves hsymm es (k + 1) _ _ _ (h.orient ha hb) (hfwd.mp hadm)
            (hf.tail (Or.inl rfl)) hmask').mp hm).1 k (Nat.lt_succ_self k)
          have h2 := ((mem_leaves hsymm es (k + 1) _ _ _ (h.orient hb ha) (hbwd.mp hadm')
            (hf.tail (Or.inr rfl)) hmask'').mp hm').1 k (Nat.lt_succ_self k)
          exact hk (h2.mp (h1.mpr (Finset.mem_insert_self _ _)))
        · cases hm'
      · cases hm

/-! ## The walk -/

/-- What a walk returns from a state: the state again, with masks that begin `ls` and, if it was not
stopped, are `ls`. -/
structure Walked (w : Walk) (ls : List (Finset Nat)) (r : Walk × Option SearchStop) : Prop where
  children : r.1.orienter.children = w.orienter.children
  parents : r.1.orienter.parents = w.orienter.parents
  mask : r.1.mask = w.mask
  masks : ∃ found, r.1.orienter.masks = w.orienter.masks ++ found ∧ found <+: ls ∧
    (r.2 = none → found = ls)

variable {w : Walk} {r : Walk × Option SearchStop} {ls ls' : List (Finset Nat)}

theorem attempt_spec (sk : Skeleton) (next : Walk → Walk × Option SearchStop) (forward : Bool)
    (ls : Orienter → Finset Nat → List (Finset Nat))
    (hnext : w.orienter.admissible sk src dst = true → ∀ budget, Walked
      ⟨w.orienter.orient src dst true, if forward then insert k w.mask else w.mask, budget⟩
      (ls (w.orienter.orient src dst true) (if forward then insert k w.mask else w.mask))
      (next ⟨w.orienter.orient src dst true, if forward then insert k w.mask else w.mask, budget⟩))
    (hk : k ∉ w.mask) (hc : dst ∉ w.orienter.children src) (hp : src ∉ w.orienter.parents dst) :
    Walked w (if w.orienter.admissible sk src dst then
      ls (w.orienter.orient src dst true) (if forward then insert k w.mask else w.mask) else [])
      (attempt sk k next src dst forward w) := by
  unfold attempt
  rcases hcharge : w.budget.charge (k + 1) w.orienter.bytes with ⟨budget, _ | stop⟩
  · by_cases hadm : w.orienter.admissible sk src dst = true
    · simp only [if_pos hadm]
      obtain ⟨hch, hpa, hma, found, hmasks, hpre, hall⟩ := hnext hadm budget
      obtain ⟨hc', hp'⟩ := orient_undo hch hpa hc hp
      refine ⟨hc', hp', ?_, found, ?_, hpre, hall⟩
      · simp only [hma]
        cases forward <;> simp [hk]
      · have hkeep (o : Orienter) (x y : Nat) (on : Bool) : (o.orient x y on).masks = o.masks := by
          cases on <;> rfl
        simp only [hkeep] at hmasks ⊢
        exact hmasks
    · simp only [if_neg hadm]
      exact ⟨rfl, rfl, rfl, [], by simp, List.nil_prefix, fun _ => rfl⟩
  · exact ⟨rfl, rfl, rfl, [], by simp, List.nil_prefix, fun h => by cases h⟩

theorem Walked.append {r' : Walk × Option SearchStop}
    (h : Walked w ls r) (hr : r.2 = none) (h' : Walked r.1 ls' r') : Walked w (ls ++ ls') r' where
  children := h'.children.trans h.children
  parents := h'.parents.trans h.parents
  mask := h'.mask.trans h.mask
  masks := by
    obtain ⟨found, hm, -, hall⟩ := h.masks
    obtain ⟨found', hm', hpre', hall'⟩ := h'.masks
    obtain rfl := hall hr
    refine ⟨found ++ found', by rw [hm', hm, List.append_assoc],
      (List.prefix_append_right_inj found).mpr hpre', fun hn => by rw [hall' hn]⟩

theorem Walked.stopped
    {stop : SearchStop} (h : Walked w ls r) (hr : r.2 = some stop) : Walked w (ls ++ ls') r where
  children := h.children
  parents := h.parents
  mask := h.mask
  masks := by
    obtain ⟨found, hm, hpre, -⟩ := h.masks
    exact ⟨found, hm, hpre.trans (List.prefix_append _ _), fun hn => by rw [hr] at hn; cases hn⟩

theorem leaves_congr : ∀ (es : List (Nat × Nat)) (k : Nat) {o o' : Orienter} (mask : Finset Nat),
    o.children = o'.children → o.parents = o'.parents →
    leaves sk k es o mask = leaves sk k es o' mask
  | [], _, _, _, _, _, _ => rfl
  | (a, b) :: es, k, o, o', mask, hc, hp => by
    have hadm (x y : Nat) : o.admissible sk x y = o'.admissible sk x y := by
      simp only [Orienter.admissible, Orienter.reaches, hc, hp]
    have horient (x y : Nat) (mask : Finset Nat) : leaves sk (k + 1) es (o.orient x y true) mask =
        leaves sk (k + 1) es (o'.orient x y true) mask := by
      refine leaves_congr es (k + 1) mask ?_ ?_
      · simp only [Orienter.orient, if_true, hc]
      · simp only [Orienter.orient, if_true, hp]
    simp only [leaves, hadm, horient]

/-- **The walk restores what it walked on, and its masks begin the leaves.** -/
theorem walk_spec : ∀ (es : List (Nat × Nat)) (k : Nat) (w : Walk) (R : Nat → Nat → Prop),
    RowsOf n w.orienter R → Fresh sk n R es → (∀ t ∈ w.mask, t < k) →
    Walked w (leaves sk k es w.orienter w.mask) (walk sk k es w)
  | [], k, w, R, _, _, _ => by
    rw [walk]
    rcases hcharge : w.budget.charge k (satAdd w.orienter.bytes sk.completionBytes) with
      ⟨budget, _ | stop⟩
    · exact ⟨rfl, rfl, rfl, [w.mask], rfl, List.prefix_refl _, fun _ => rfl⟩
    · exact ⟨rfl, rfl, rfl, [], by simp, List.nil_prefix, fun h => by cases h⟩
  | (a, b) :: es, k, w, R, h, hf, hmask => by
    obtain ⟨hab, hb⟩ := hf.lt (a, b) List.mem_cons_self
    simp only at hab hb
    have ha : a < n := Nat.lt_trans hab hb
    obtain ⟨hnab, hnba⟩ := hf.new (a, b) List.mem_cons_self
    have hk : k ∉ w.mask := fun hk => Nat.lt_irrefl k (hmask k hk)
    have hmask' : ∀ t ∈ insert k w.mask, t < k + 1 := by
      intro t ht
      rcases Finset.mem_insert.mp ht with rfl | ht
      · exact Nat.lt_succ_self _
      · exact Nat.lt_succ_of_lt (hmask t ht)
    have hfirst := attempt_spec sk (walk sk (k + 1) es) true (fun o m => leaves sk (k + 1) es o m)
      (fun _ budget => walk_spec es (k + 1) _ _ (h.orient ha hb) (hf.tail (Or.inl rfl)) hmask')
      hk (by rw [h.children]; exact hnab) (by rw [h.parents]; exact hnab)
    rw [walk, leaves]
    rcases hatt : attempt sk k (walk sk (k + 1) es) a b true w with ⟨w', _ | stop⟩
    · rw [hatt] at hfirst
      refine hfirst.append rfl ?_
      have h' : RowsOf n w'.orienter R :=
        ⟨fun i j => by rw [hfirst.children]; exact h.children i j,
          fun i j => by rw [hfirst.parents]; exact h.parents i j, h.lt⟩
      have hk' : k ∉ w'.mask := by rw [hfirst.mask]; exact hk
      have hsecond := attempt_spec sk (walk sk (k + 1) es) false
        (fun o m => leaves sk (k + 1) es o m)
        (fun _ budget => walk_spec es (k + 1) _ _ (h'.orient hb ha) (hf.tail (Or.inr rfl))
          fun t ht => by
            simp only [Bool.false_eq_true, if_false] at ht
            rw [hfirst.mask] at ht
            exact Nat.lt_succ_of_lt (hmask t ht))
        hk' (by rw [h'.children]; exact hnba) (by rw [h'.parents]; exact hnba)
      have hch : w'.orienter.children = w.orienter.children := hfirst.children
      have hpa : w'.orienter.parents = w.orienter.parents := hfirst.parents
      have hadm : w'.orienter.admissible sk b a = w.orienter.admissible sk b a := by
        simp only [Orienter.admissible, Orienter.reaches, hch, hpa]
      have hleaves : leaves sk (k + 1) es (w'.orienter.orient b a true) w'.mask =
          leaves sk (k + 1) es (w.orienter.orient b a true) w.mask := by
        rw [hfirst.mask]
        refine leaves_congr es (k + 1) _ ?_ ?_
        · simp only [Orienter.orient, if_true, hch]
        · simp only [Orienter.orient, if_true, hpa]
      simp only [Bool.false_eq_true, if_false, hadm, hleaves] at hsecond
      exact hsecond
    · rw [hatt] at hfirst
      exact hfirst.stopped rfl

end Antecedent.Identify.CpdagCompletion
