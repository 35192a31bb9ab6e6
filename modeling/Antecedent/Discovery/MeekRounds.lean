import Antecedent.Discovery.DagToCpdag

/-!
# A DAG that needs a round an edge

In a chain whose edges lead to smaller and smaller positions, R1 finds one instance a round: it visits
the nodes in ascending order, and a node whose edge it directs has been visited already. The other rules
need a triangle. So a chain longer than the rounds of the driver is not completed.

* `Low`: how much of the chain is not directed yet; a round lowers it by one (`chainRound`).
* **`chain_exhausts`**: a chain of more edges than rounds is refused.
-/

namespace Antecedent.Discovery

open Graph Machine Relation

variable {dag : Graph.Dag} {g g' : Cpdag} {G : Dag Nat} {st : OrientationState} {a b m n v : Nat}
  {p p' : Pass .static}

/-! ## What a rule may direct -/

/-- What `p'` directs and `p` does not leads out of `v`. -/
def OutOf (v : Nat) (p p' : Pass .static) : Prop :=
  ∀ x y, Dir p'.graph.adj x y → Dir p.graph.adj x y ∨ x = v

theorem OutOf.trans {q : Pass .static} (h : OutOf v p p') (h' : OutOf v p' q) : OutOf v p q :=
  fun x y hd => (h' x y hd).elim (h x y) Or.inr

theorem dir_of_markConflict (h : g.markConflict a b = .ok g') {x y : Nat} (hd : Dir g'.adj x y) :
    Dir g.adj x y := by
  unfold Pdag.markConflict at h
  split_ifs at h
  split at h
  · cases h
  · rename_i adj hi
    obtain ⟨m, -, -, -, hu⟩ := g.conflict_spec hi
    obtain rfl := Except.ok.inj h
    obtain ⟨k, hk⟩ := hd
    have hk' : look adj x y = some (.tail, .arrow, k) := hk
    rw [hu] at hk'
    split_ifs at hk'
    · cases hk'
    · cases hk'
    · exact ⟨k, hk'⟩

theorem orient_out (h : p.orient v b = .ok p') : OutOf v p p' := by
  unfold Pass.orient Pass.tryOrientUndirected at h
  cases ho : p.graph.orientUndirected v b with
  | ok graph =>
    rw [ho] at h
    obtain rfl := Except.ok.inj h
    exact fun x y hd => (((Pdag.oriented_of_ok ho).dir x y).mp hd).imp_right And.left
  | error e =>
    rw [ho] at h
    cases e <;> try cases h
    -- a cycle: the edge is marked as a conflict
    unfold Pass.conflict
    cases hm : p.graph.markConflict v b with
    | ok graph => exact fun x y hd => Or.inl (dir_of_markConflict hm hd)
    | error e => exact fun _ _ => Or.inl

/-- **R1 at a node directs edges out of it.** -/
theorem meekR1_out (h : MeekR1 p v = .ok p') : OutOf v p p' := by
  have hat : ∀ (a : Nat) (q : Pass .static) (c : Nat) (q' : Pass .static),
      meekR1At (fun _ _ => true) v a q c = .ok q' → OutOf v q q' := by
    intro a q c q' hq
    unfold meekR1At at hq
    split_ifs at hq
    · obtain rfl := Except.ok.inj hq
      exact fun _ _ => Or.inl
    · obtain rfl := Except.ok.inj hq
      exact fun _ _ => Or.inl
    · exact orient_out hq
    · obtain rfl := Except.ok.inj hq
      exact fun _ _ => Or.inl
  refine foldlM_rel (R := OutOf v) (fun _ _ _ => Or.inl) OutOf.trans (fun q a q' hq => ?_) h
  exact foldlM_rel (R := OutOf v) (fun _ _ _ => Or.inl) OutOf.trans (hat a) hq

/-- R1 does nothing at a node no edge leads into. -/
theorem meekR1_still (h : ∀ x, ¬ Dir p.graph.adj x v) : MeekR1 p v = .ok p := by
  have hnil : p.graph.parents v = [] :=
    List.eq_nil_iff_forall_not_mem.mpr fun x hx => h x (p.graph.mem_parents.mp hx)
  unfold MeekR1 meekR1Visit
  rw [hnil]
  rfl

/-! ## Without triangles -/

/-- No three nodes are adjacent to each other. -/
def TriangleFree (G : Dag Nat) : Prop := ∀ a b c, G.Adj a b → G.Adj b c → ¬ G.Adj a c

section Still

variable (h : Faithful G p.graph) (ht : TriangleFree G)

include h ht

theorem meekR2_still (v : Nat) : MeekR2 p v = .ok p := by
  refine foldlM_same fun b hb => foldlM_same fun c hc => ?_
  have hvb := h.adj_of_dir (p.graph.mem_children.mp hb)
  have hbc := h.adj_of_dir (p.graph.mem_children.mp hc)
  unfold meekR2At
  rw [if_neg (by simp), if_neg]
  exact fun hu => ht v b c hvb hbc (h.adj_of_und (p.graph.isUndirected_edgeBetween.mp hu))

theorem meekR3_still (v : Nat) : MeekR3 p v = .ok p := by
  unfold MeekR3 meekR3Visit
  rw [if_neg (by simp)]
  refine foldlM_same fun b hb => ?_
  have hvb := h.adj_of_und (p.graph.mem_undirectedNeighbors.mp (List.mem_of_mem_filter hb))
  have hnil : (((p.graph.undirectedNeighbors v).filter fun _ => true).filter fun c =>
      c != b && p.graph.isParent c b) = [] := by
    refine List.filter_eq_nil_iff.mpr fun c hc hcb => ?_
    have hvc := h.adj_of_und (p.graph.mem_undirectedNeighbors.mp (List.mem_of_mem_filter hc))
    obtain ⟨-, hpar⟩ := Bool.and_eq_true_iff.mp hcb
    exact ht v c b hvc (h.adj_of_dir (p.graph.isParent_iff.mp hpar)) hvb
  unfold meekR3At
  rw [hnil, if_neg (show ¬ hasDefiniteNoncolliderPair p.graph p.state v [] = true from
    Bool.false_ne_true)]

theorem meekR4_still (v : Nat) : MeekR4 p v = .ok p := by
  unfold MeekR4 meekR4Visit
  rw [if_neg (by simp)]
  refine foldlM_same fun b hb => ?_
  unfold meekR4At
  rw [if_neg (by simp), if_neg]
  intro hany
  obtain ⟨c, hc, hf⟩ := List.any_eq_true.mp hany
  simp only [Bool.and_eq_true, Bool.not_eq_true', Bool.or_eq_false_iff, List.any_eq_true,
    Bool.true_and] at hf
  obtain ⟨-, d, hcd, ⟨-, had⟩, -⟩ := hf
  exact ht v c d (h.adj_of_und (p.graph.mem_undirectedNeighbors.mp hc))
    (h.adj_of_dir (p.graph.mem_children.mp hcd)) (h.hasEdge_iff.mp had)

end Still

theorem runRule_still {rule : Rule .static} (q : OrientationQueue)
    (h : ∀ v, rule ⟨g, st, .start, []⟩ v = .ok ⟨g, st, .start, []⟩) :
    runRule rule g st q = .ok (⟨g, st, .start, []⟩, ⟨[]⟩) := by
  unfold runRule
  rw [focusNodes_eq]
  show (List.foldlM rule _ (if q.inner = [] then List.range g.nodeCount else q.inner) >>= _) = _
  rw [foldlM_same fun v _ => h v]
  rfl

/-- **Without a triangle only R1 does anything in a round.** -/
theorem meekRound_still {q q₁ : OrientationQueue} (hp : runRule MeekR1 g st q = .ok (p, q₁))
    (hs : p.state = st) (h : Faithful G p.graph) (ht : TriangleFree G) :
    ∃ d, runRound meekRules (g, st) q = .ok ((p.graph, st), ⟨[]⟩, d) := by
  have hf : Faithful G (⟨p.graph, st, .start, []⟩ : Pass .static).graph := h
  have h2 := fun q => @runRule_still p.graph st MeekR2 q (meekR2_still hf ht)
  have h3 := fun q => @runRule_still p.graph st MeekR3 q (meekR3_still hf ht)
  have h4 := fun q => @runRule_still p.graph st MeekR4 q (meekR4_still hf ht)
  refine ⟨(((RuleDelta.default.add p.delta).add .start).add .start).add .start, ?_⟩
  show roundFrom meekRules ((g, st), q, .default) = _
  unfold meekRules
  rw [roundFrom_cons hp hs, roundFrom_cons (h2 _) rfl, roundFrom_cons (h3 _) rfl,
    roundFrom_cons (h4 _) rfl]
  rfl

/-! ## The chain -/

/-- The edges `m + 1 → m → … → 0` and `m + 2 → m`. -/
def ChainEdge (m a b : Nat) : Prop := (b ≤ m ∧ a = b + 1) ∨ (a = m + 2 ∧ b = m)

def chainDag (m : Nat) : Except GraphError Graph.Dag :=
  ((List.range (m + 1)).map (fun i => (i + 1, i)) ++ [(m + 2, m)]).foldlM
    (fun (g : Graph.Dag) (e : Nat × Nat) => g.insertDirected e.1 e.2) (.withVariables (m + 3))

/-- `G` is the chain. -/
def IsChain (G : Dag Nat) (m : Nat) : Prop := ∀ a b, G.edge a b ↔ ChainEdge m a b

theorem IsChain.triangleFree (h : IsChain G m) : TriangleFree G := by
  intro a b c hab hbc hac
  simp only [Dag.Adj, h a b, h b a, h b c, h c b, h a c, h c a, ChainEdge] at hab hbc hac
  omega

theorem mem_chainEdges {m a b : Nat} :
    (a, b) ∈ (List.range (m + 1)).map (fun i => (i + 1, i)) ++ [(m + 2, m)] ↔ ChainEdge m a b := by
  simp only [List.mem_append, List.mem_map, List.mem_range, Prod.mk.injEq, List.mem_singleton]
  unfold ChainEdge
  constructor
  · rintro (⟨i, hi, rfl, rfl⟩ | h)
    · exact Or.inl ⟨by omega, rfl⟩
    · exact Or.inr h
  · rintro (⟨hb, rfl⟩ | h)
    · exact Or.inl ⟨b, by omega, rfl, rfl⟩
    · exact Or.inr h

theorem chainEdges_nodup (m : Nat) :
    ((List.range (m + 1)).map (fun i => (i + 1, i)) ++ [(m + 2, m)]).Nodup := by
  refine List.nodup_append.mpr ⟨?_, List.nodup_singleton _, ?_⟩
  · exact List.nodup_range.map fun i j h => (Prod.mk.inj h).2
  · rintro e he f hf rfl
    obtain rfl := List.mem_singleton.mp hf
    obtain ⟨i, hi, h⟩ := List.mem_map.mp he
    have h1 := (Prod.mk.inj h).1
    have h2 := (Prod.mk.inj h).2
    omega

/-- **The chain is built.** -/
theorem chainDag_ok (hm : m + 3 ≤ u32Max) : ∃ dag, chainDag m = .ok dag ∧
    dag.nodes.length = m + 3 ∧ IsChain dag.toDag m := by
  obtain ⟨hn₀, hd₀⟩ := Graph.Dag.withVariables_spec (n := m + 3) (by omega)
  obtain ⟨dag, hok, hn, hdir⟩ := Worklist.foldlM_inv
    (f := fun (g : Graph.Dag) (e : Nat × Nat) => g.insertDirected e.1 e.2)
    (I := fun done (g : Graph.Dag) => g.nodes.length = m + 3 ∧
      ∀ a b, g.directed.Dir a b ↔ (a, b) ∈ done)
    ((List.range (m + 1)).map (fun i => (i + 1, i)) ++ [(m + 2, m)]) []
    (Graph.Dag.withVariables (m + 3))
    ⟨by rw [hn₀, List.length_map, List.length_range],
      fun a b => iff_of_false (hd₀ a b) List.not_mem_nil⟩ (by
      rintro done ⟨a, b⟩ rest g hdone ⟨hn, hdir⟩
      rw [List.nil_append] at hdone
      have hedge : ChainEdge m a b :=
        mem_chainEdges.mp (hdone ▸ List.mem_append_right _ (.head _))
      have hdown : ∀ x y, g.directed.Dir x y → y < x := by
        intro x y hd
        have hxy : ChainEdge m x y :=
          mem_chainEdges.mp (hdone ▸ List.mem_append_left _ ((hdir x y).mp hd))
        unfold ChainEdge at hxy
        omega
      have hback : ∀ {y}, ReflTransGen g.directed.Dir b y → y ≤ b := by
        intro y hy
        induction hy with
        | refl => exact le_rfl
        | tail _ hd ih => exact (hdown _ _ hd).le.trans ih
      have hlt : b < a ∧ a < m + 3 := by
        unfold ChainEdge at hedge
        omega
      have hcount : g.directed.nodeCount = m + 3 := hn
      obtain ⟨g', hok, hn', hdir'⟩ := DagTarget.insertDirected_ok (κ := .static) g a b
        (by show a < g.directed.nodeCount; omega) (by show b < g.directed.nodeCount; omega) rfl rfl
        (fun hd => (List.nodup_append.mp (hdone ▸ chainEdges_nodup m)).2.2 _ ((hdir a b).mp hd) _
          (.head _) rfl)
        fun hr => (hback hr).not_gt hlt.1
      refine ⟨g', hok, (congrArg List.length hn').trans hn, fun x y => ?_⟩
      rw [List.mem_append, List.mem_singleton, Prod.mk.injEq, ← hdir x y]
      exact hdir' x y)
  exact ⟨dag, hok, hn, fun a b => (hdir a b).trans mem_chainEdges⟩

/-! ## Slow progress -/

/-- Nothing below `k` is directed. -/
def Low (k : Nat) (g : Cpdag) : Prop := ∀ b < k, ¬ Dir g.adj (b + 1) b

theorem Low.mono {k j : Nat} (h : Low k g) (hj : j ≤ k) : Low j g := fun b hb => h b (hb.trans_le hj)

section Progress

variable (hG : IsChain G m) (hst : st.ambiguousTriples = ∅) {k : Nat} {q : OrientationQueue}

include hG hst

/-- **R1, over the nodes in ascending order, lowers by one what is not directed.** -/
theorem meekR1_slow (h : Faithful G g) (hc : Colliders G g) (hk : k ≤ m) (hlow : Low k g) :
    ∀ j, ∃ r : Pass .static, (List.range j).foldlM MeekR1 ⟨g, st, .start, []⟩ = .ok r ∧
      PassInv G st (arrowCount g) r ∧ Colliders G r.graph ∧ r.graph.nodes = g.nodes ∧
      Low (k - 1) r.graph ∧ (j ≤ k → Low k r.graph)
  | 0 => ⟨_, rfl, PassInv.start h, hc, rfl, hlow.mono (Nat.sub_le k 1), fun _ => hlow⟩
  | j + 1 => by
    obtain ⟨r, hr, hinv, hcol, hn, hl, hl'⟩ := meekR1_slow h hc hk hlow j
    obtain ⟨r', hr', hinv', hg, -⟩ := meekR1_spec hst (arrowCount g) r j hinv hcol
    have hrun : (List.range (j + 1)).foldlM MeekR1 ⟨g, st, .start, []⟩ = .ok r' := by
      rw [List.range_succ, List.foldlM_append, hr]
      show List.foldlM MeekR1 r [j] = _
      rw [List.foldlM_cons, hr']
      rfl
    refine ⟨r', hrun, hinv', hcol.mono hg, hg.nodes.trans hn, fun b hb hd => ?_, fun hj => ?_⟩
    · rcases meekR1_out hr' _ _ hd with hd | rfl
      · exact hl b hb hd
      · -- the node that precedes `k` had nothing to pass on
        have hstill : MeekR1 r (b + 1) = .ok r := meekR1_still fun x hx => ?_
        · rw [hstill] at hr'
          obtain rfl := Except.ok.inj hr'
          exact hl b hb hd
        · have hedge := (hG x (b + 1)).mp (hinv.faithful.shared x _ hx).edge
          obtain rfl : x = b + 1 + 1 := by
            unfold ChainEdge at hedge
            omega
          exact hl' (by omega) (b + 1) (by omega) hx
    · have hstill : MeekR1 r j = .ok r := meekR1_still fun x hx => by
        have hedge := (hG x j).mp (hinv.faithful.shared x _ hx).edge
        obtain rfl : x = j + 1 := by
          unfold ChainEdge at hedge
          omega
        exact hl' (by omega) j hj hx
      rw [hstill] at hr'
      obtain rfl := Except.ok.inj hr'
      exact hl' (by omega)

/-- The focus of R1 is every node, in ascending order. -/
def Ascends (n : Nat) (q : OrientationQueue) : Prop := q.inner = [] ∨ q.inner = List.range n

omit hG hst in
theorem Ascends.focus (h : Ascends n q) :
    focusNodes n q = (List.range n, ⟨[]⟩) := by
  rw [focusNodes_eq]
  split_ifs with h0
  · rfl
  · rw [h.resolve_left h0]

/-- **One round.** -/
theorem chainRound (h : Faithful G g) (hc : Colliders G g) (hk : k ≤ m)
    (hlow : Low k g) (hq : Ascends g.nodeCount q) :
    ∃ g' d, runRound meekRules (g, st) q = .ok ((g', st), ⟨[]⟩, d) ∧ Faithful G g' ∧
      Colliders G g' ∧ Low (k - 1) g' := by
  obtain ⟨r, hr, hinv, hcol, -, hl, -⟩ := meekR1_slow hG hst h hc hk hlow g.nodeCount
  obtain ⟨h1, h2, -, -⟩ := finish_delta (p := r) ⟨[]⟩
  have hrun : runRule MeekR1 g st q = .ok ((r.finish ⟨[]⟩).1, (r.finish ⟨[]⟩).2) := by
    unfold runRule
    rw [hq.focus]
    show (List.foldlM MeekR1 _ (List.range g.nodeCount) >>= _) = _
    rw [hr]
    rfl
  obtain ⟨d, hd⟩ := meekRound_still (G := G) hrun (h2.trans hinv.state) (by
    rw [h1]
    exact hinv.faithful) hG.triangleFree
  rw [h1] at hd
  exact ⟨r.graph, d, hd, hinv.faithful, hcol, hl⟩

/-- **All rounds**: each lowers by one what is not directed. -/
theorem chainLoop : ∀ {fuel : Nat} {verifying : Bool} {total t : RuleDelta} {g g' : Cpdag}
    {st' : OrientationState} {q : OrientationQueue} {k : Nat}, Faithful G g → Colliders G g → k ≤ m →
    Low k g → Ascends g.nodeCount q →
    driveLoop (runRound meekRules) fuel verifying total (g, st) q = .ok ((g', st'), t) →
    Low (k - fuel) g'
  | 0, _, _, _, _, _, _, _, _, _, _, _, _, _, h => by cases h
  | fuel + 1, verifying, total, t, g, g', st', q, k, hf, hc, hk, hlow, hq, h => by
    obtain ⟨g₁, d, hround, hf₁, hc₁, hl₁⟩ := chainRound hG hst hf hc hk hlow hq
    have hle : k - 1 - fuel = k - (fuel + 1) := by omega
    unfold driveLoop at h
    simp only [hround, bind, Except.bind] at h
    split_ifs at h with hd hv
    · exact hle ▸ chainLoop hf₁ hc₁ (by omega) hl₁ (Or.inl rfl) h
    · obtain rfl := (Prod.mk.inj (Prod.mk.inj (Except.ok.inj h)).1).1
      exact hl₁.mono (by omega)
    · exact hle ▸ chainLoop hf₁ hc₁ (by omega) hl₁ (Or.inl rfl) h

end Progress

theorem foldl_push {l : List Nat} : ∀ {q : OrientationQueue}, (q.inner ++ l).Nodup →
    (l.foldl OrientationQueue.push q).inner = q.inner ++ l := by
  induction l with
  | nil => exact fun _ => (List.append_nil _).symm
  | cons a l ih =>
    intro q h
    have hnot : a ∉ q.inner := fun ha => (List.nodup_append.mp h).2.2 a ha a (.head _) rfl
    have hpush : (q.push a).inner = q.inner ++ [a] := by
      unfold OrientationQueue.push
      rw [if_neg hnot]
    rw [List.foldl_cons, ih (by rw [hpush, List.append_assoc]; exact h), hpush, List.append_assoc]
    rfl

theorem IsChain.meek (h : IsChain G m) : ∀ {j : Nat}, j ≤ m → G.Meek (m + 1 - j) (m - j)
  | 0, _ => .collider (b := m + 2) ⟨(h _ _).mpr (Or.inl ⟨by omega, by omega⟩),
      (h _ _).mpr (Or.inr ⟨rfl, by omega⟩), by omega, fun hadj => by
        simp only [Dag.Adj, h _ _, ChainEdge] at hadj
        omega⟩
  | j + 1, hj => by
    have ih := IsChain.meek h (j := j) (by omega)
    rw [show m - j = m + 1 - (j + 1) by omega] at ih
    refine .r1 ih ((h _ _).mpr (Or.inl ⟨by omega, by omega⟩)) fun hadj => ?_
    simp only [Dag.Adj, h _ _, ChainEdge] at hadj
    omega

/-- **A chain of more edges than rounds is refused.** -/
theorem chain_exhausts (hm : maxOrientationRounds < m) (hdag : IsChain dag.toDag m) :
    dagToCpdag dag = .error roundsExhausted := by
  obtain ⟨g, -, hf, hc, hlegs, hrun⟩ := dagToCpdag_start dag
  rw [hrun]
  have hempty : OrientationState.empty.ambiguousTriples = ∅ := rfl
  rcases meek_exact hempty hf hc with ⟨g', t, hok, -, -, hcp⟩ | ⟨herr, -⟩
  · have hlow : Low m g := by
      intro b hb hd
      obtain ⟨w, hw⟩ := hlegs _ _ hd
      have hright := (hdag w b).mp hw.right
      refine hw.ne ?_
      unfold ChainEdge at hright
      omega
    have hq : Ascends g.nodeCount ((List.range g.nodeCount).foldl OrientationQueue.push ⟨[]⟩) :=
      Or.inr (foldl_push (q := ⟨[]⟩) List.nodup_range)
    have hend := chainLoop hdag rfl hf hc le_rfl hlow hq hok
    have hmeek := hdag.meek (j := m) le_rfl
    rw [Nat.add_sub_cancel_left, Nat.sub_self] at hmeek
    exact absurd ((hcp.dir 1 0).mpr (Dag.compelled_iff.mpr hmeek)) (hend 0 (by omega))
  · rw [herr]
    rfl

end Antecedent.Discovery
