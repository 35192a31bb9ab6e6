import Antecedent.Identify.CatalogBinding

/-!
# Binding a formula to the evidence catalog

Model of `bind_recursive_expression` and `cited_regimes` (`sid/z_transport/search.rs:229-235`,
`431-509`) over the expression arena. In a well-formed arena every reference points backwards, so
`root + 1` levels of recursion are enough.

* `bindRecursiveExpression_spec`: the memoised walk over the arena binds the tree below the root, or
  returns the refusal of one of its factors.
* `bindFormula_congr`: the walk reads the catalog through `bind_leaf` only.
-/

namespace Antecedent.Identify.Binding

open Core
open Expr

/-! ## The model -/

/-- The arena, memo table and citations a binding writes. -/
structure BindState where
  arena : CausalExprArena
  memo : List (Nat × Nat)
  cited : List Nat

def bindChildren (walk : Nat → BindState → Except BindError (Nat × BindState)) :
    List Nat → BindState → Except BindError (List Nat × BindState)
  | [], s => .ok ([], s)
  | child :: children, s => do
    let (bound, s) ← walk child s
    let (rest, s) ← bindChildren walk children s
    .ok (bound :: rest, s)

def BindState.intern (s : BindState) (node : ExprNode) : Nat × BindState :=
  ((s.arena.intern node).2, { s with arena := (s.arena.intern node).1 })

/-- The node `id`, whose children `walk` binds (`search.rs:442-507`). -/
def bindNode (c : EvidenceCatalog) (treatments : List Nat)
    (walk : Nat → BindState → Except BindError (Nat × BindState)) (s : BindState) :
    ExprNode → Except BindError (Nat × BindState)
  | .distribution vars conditionedOn intervention domain population _ => do
    let needed := s.arena.varSets.getD vars [] ++ s.arena.varSets.getD conditionedOn []
    let binding ← bindLeaf c (s.arena.populations.getD population "")
      (s.arena.interventions.getD intervention []) needed treatments
    .ok ({ s with cited := s.cited ++ binding.regimes }.intern
      (.distribution vars conditionedOn intervention domain population binding.tag))
  | .product list => do
    let (bound, s) ← bindChildren walk (s.arena.lists.getD list []) s
    let list := s.arena.internList bound
    .ok ({ s with arena := list.1 }.intern (.product list.2))
  | .sumOut vars expr => do
    let (expr, s) ← walk expr s
    .ok (s.intern (.sumOut vars expr))
  | .ratio numerator denominator => do
    let (numerator, s) ← walk numerator s
    let (denominator, s) ← walk denominator s
    .ok (s.intern (.ratio numerator denominator))
  | .other _ => .error (.invariantViolated "z_transport.unsupported_recursive_node")

/-- `bind_recursive_expression` (`search.rs:431-509`), to a depth. -/
def bindRecursiveExpression (c : EvidenceCatalog) (treatments : List Nat) :
    Nat → Nat → BindState → Except BindError (Nat × BindState)
  | 0, _, _ => .error (.invariantViolated "z_transport.unsupported_recursive_node")
  | depth + 1, id, s =>
    match s.memo.lookup id with
    | some hit => .ok (hit, s)
    | none => do
      let (bound, s) ← bindNode c treatments (bindRecursiveExpression c treatments depth) s
        (s.arena.nodes.getD id (.other 0))
      .ok (bound, { s with memo := (id, bound) :: s.memo })

/-- A bound formula and the regimes it cites, as `cited_regimes` sorts them. -/
structure Bound where
  arena : CausalExprArena
  root : Nat
  cited : List Nat
  deriving DecidableEq

/-- The binding of the formula at `root` (`search.rs:58-84`). -/
def bindFormula (c : EvidenceCatalog) (treatments : List Nat) (a : CausalExprArena) (root : Nat) :
    Except BindError Bound := do
  let (bound, s) ← bindRecursiveExpression c treatments (root + 1) root ⟨a, [], []⟩
  .ok ⟨s.arena, bound, sortDedup s.cited⟩

/-! ## Trees -/

mutual

/-- The tree with each leaf under the regime `f` gives it. -/
def tagTree (f : Leaf → Option Nat) : ExprTree → ExprTree
  | .distribution leaf => .distribution { leaf with regime := f leaf }
  | .product factors => .product (tagTrees f factors)
  | .sumOut vars body => .sumOut vars (tagTree f body)
  | .ratio n d => .ratio (tagTree f n) (tagTree f d)

def tagTrees (f : Leaf → Option Nat) : List ExprTree → List ExprTree
  | [] => []
  | t :: ts => tagTree f t :: tagTrees f ts

end

theorem tagTrees_eq (f : Leaf → Option Nat) : ∀ ts : List ExprTree, tagTrees f ts = ts.map (tagTree f)
  | [] => rfl
  | t :: ts => by rw [tagTrees, tagTrees_eq f ts, List.map_cons]

theorem mem_leavesList {leaf : Leaf} : ∀ {ts : List ExprTree},
    leaf ∈ ExprTree.leavesList ts ↔ ∃ t ∈ ts, leaf ∈ t.leaves
  | [] => by simp [ExprTree.leavesList]
  | t :: ts => by simp [ExprTree.leavesList, mem_leavesList]

theorem forall₂_mem_left {α β : Type} {P : α → β → Prop} : ∀ {l : List α} {out : List β},
    List.Forall₂ P l out → ∀ {x : α}, x ∈ l → ∃ b ∈ out, P x b
  | a :: l, b :: out, .cons hb h, x, hx => by
    obtain rfl | hx := List.mem_cons.mp hx
    · exact ⟨b, List.mem_cons_self, hb⟩
    · obtain ⟨b', hb', hp⟩ := forall₂_mem_left h hx
      exact ⟨b', List.mem_cons_of_mem _ hb', hp⟩

theorem forall₂_map_eq {α β γ : Type} {P : α → β → Prop} {f : α → γ} {g : β → γ}
    {l : List α} {out : List β} (h : List.Forall₂ P l out) (hfg : ∀ x b, P x b → g b = f x) :
    l.map f = out.map g := by
  induction h with
  | nil => rfl
  | cons hx _ ih => rw [List.map_cons, List.map_cons, ih, hfg _ _ hx]

/-! ## What a run keeps -/

section Run

variable {c : EvidenceCatalog} {treatments : List Nat} {a : CausalExprArena}

def tagOf (c : EvidenceCatalog) (treatments : List Nat) (leaf : Leaf) : Option Nat :=
  match bindFactor c treatments leaf with
  | .ok b => b.tag
  | .error _ => none

/-- The leaf is bound and `cited` holds what it cites. -/
def Cites (c : EvidenceCatalog) (treatments : List Nat) (leaf : Leaf) (cited : List Nat) : Prop :=
  ∃ b, bindFactor c treatments leaf = .ok b ∧ b.regimes ⊆ cited

/-- Node `j` of the state is the tree `t`, bound. -/
structure BoundAt (c : EvidenceCatalog) (treatments : List Nat) (t : ExprTree) (s : BindState)
    (j : Nat) : Prop where
  lt : j < s.arena.nodes.length
  view : s.arena.view j = tagTree (tagOf c treatments) t
  cites : ∀ leaf ∈ t.leaves, Cites c treatments leaf s.cited

/-- What a state keeps: its arena grew from `a`, and the memo holds bound trees. -/
structure Kept (c : EvidenceCatalog) (treatments : List Nat) (a : CausalExprArena) (s : BindState) :
    Prop where
  wf : s.arena.WF
  ext : CausalExprArena.Extends a s.arena
  memo : ∀ i j, s.memo.lookup i = some j → BoundAt c treatments (a.view i) s j

/-- What a step of the walk does to the state, binding the leaves `leaves`. -/
structure Steps (c : EvidenceCatalog) (treatments : List Nat) (leaves : List Leaf)
    (s s' : BindState) : Prop where
  ext : CausalExprArena.Extends s.arena s'.arena
  cited : s.cited ⊆ s'.cited
  only : ∀ r ∈ s'.cited, r ∈ s.cited ∨
    ∃ leaf ∈ leaves, ∃ b, bindFactor c treatments leaf = .ok b ∧ r ∈ b.regimes

theorem Steps.trans {l l' m : List Leaf} {s s' s'' : BindState} (h : Steps c treatments l s s')
    (h' : Steps c treatments l' s' s'') (hl : l ⊆ m) (hl' : l' ⊆ m) : Steps c treatments m s s'' where
  ext := h.ext.trans h'.ext
  cited := List.Subset.trans h.cited h'.cited
  only r hr := by
    obtain hr | ⟨leaf, hleaf, hb⟩ := h'.only r hr
    · obtain hr | ⟨leaf, hleaf, hb⟩ := h.only r hr
      · exact .inl hr
      · exact .inr ⟨leaf, hl hleaf, hb⟩
    · exact .inr ⟨leaf, hl' hleaf, hb⟩

variable {t : ExprTree} {s : BindState} {node : ExprNode} {l : List Leaf}
  {walk : Nat → BindState → Except BindError (Nat × BindState)}

theorem BoundAt.steps {s' : BindState} {j : Nat}
    (h : BoundAt c treatments t s j) (hs : s.arena.WF) (hs' : s'.arena.WF)
    (hstep : Steps c treatments l s s') : BoundAt c treatments t s' j where
  lt := h.lt.trans_le hstep.ext.length_le
  view := (CausalExprArena.view_extends hs hs' hstep.ext h.lt).trans h.view
  cites leaf hleaf := by
    obtain ⟨b, hb, hsub⟩ := h.cites leaf hleaf
    exact ⟨b, hb, List.Subset.trans hsub hstep.cited⟩

theorem Steps.refl {s : BindState} : Steps c treatments l s s :=
  ⟨.rfl, List.Subset.refl _, fun _ hr => .inl hr⟩

theorem Kept.steps {s s' : BindState} (h : Kept c treatments a s)
    (hs' : s'.arena.WF) (hmemo : s'.memo = s.memo) (hstep : Steps c treatments l s s') :
    Kept c treatments a s' where
  wf := hs'
  ext := h.ext.trans hstep.ext
  memo i j hij := (h.memo i j (hmemo ▸ hij)).steps h.wf hs' hstep

/-- How the walk ends at a node: it binds the tree, or returns the refusal of a leaf. -/
inductive Ends (c : EvidenceCatalog) (treatments : List Nat) (a : CausalExprArena) (t : ExprTree)
    (s : BindState) : Except BindError (Nat × BindState) → Prop
  | bound (j : Nat) (s' : BindState) : Kept c treatments a s' → Steps c treatments t.leaves s s' →
      BoundAt c treatments t s' j → Ends c treatments a t s (.ok (j, s'))
  | refused (leaf : Leaf) (e : BindError) : leaf ∈ t.leaves →
      bindFactor c treatments leaf = .error e → Ends c treatments a t s (.error e)

/-- **Interning** a node over bound children ends the walk there. -/
theorem ends_intern {s₁ : BindState}
    (hkept : Kept c treatments a s₁) (hstep : Steps c treatments t.leaves s s₁)
    (hok : s₁.arena.NodeOk s₁.arena.nodes.length node)
    (hshape : s₁.arena.shape node = tagTree (tagOf c treatments) t)
    (hcites : ∀ leaf ∈ t.leaves, Cites c treatments leaf s₁.cited) :
    Ends c treatments a t s (.ok (s₁.intern node)) := by
  obtain ⟨⟨hwf, hext⟩, hlt, hview⟩ := CausalExprArena.intern_spec hkept.wf hok
  have hone : Steps c treatments t.leaves s₁ (s₁.intern node).2 :=
    ⟨hext, List.Subset.refl _, fun _ hr => .inl hr⟩
  exact .bound _ _ (hkept.steps hwf rfl hone)
    (hstep.trans hone (List.Subset.refl _) (List.Subset.refl _))
    ⟨hlt, hview.trans hshape, hcites⟩

/-- How the walk over the children of a product ends. -/
inductive EndsAll (c : EvidenceCatalog) (treatments : List Nat) (a : CausalExprArena)
    (ts : List ExprTree) (s : BindState) : Except BindError (List Nat × BindState) → Prop
  | bound (js : List Nat) (s' : BindState) : Kept c treatments a s' →
      Steps c treatments (ExprTree.leavesList ts) s s' →
      List.Forall₂ (fun t j => BoundAt c treatments t s' j) ts js →
      EndsAll c treatments a ts s (.ok (js, s'))
  | refused (leaf : Leaf) (e : BindError) : leaf ∈ ExprTree.leavesList ts →
      bindFactor c treatments leaf = .error e → EndsAll c treatments a ts s (.error e)

theorem bindChildren_ends :
    ∀ {ids : List Nat} {s : BindState}, (∀ id ∈ ids, ∀ s, Kept c treatments a s →
      Ends c treatments a (a.view id) s (walk id s)) → Kept c treatments a s →
    EndsAll c treatments a (ids.map a.view) s (bindChildren walk ids s)
  | [], s, _, hs => .bound [] s hs .refl .nil
  | id :: ids, s, h, hs => by
    have hhead := h id List.mem_cons_self s hs
    unfold bindChildren
    generalize walk id s = r at hhead
    cases hhead with
    | refused leaf e hleaf he =>
      exact .refused leaf e (List.mem_append_left _ hleaf) he
    | bound j s₁ hs₁ hstep₁ hj =>
      have htail := bindChildren_ends (fun id' hid => h id' (List.mem_cons_of_mem _ hid)) hs₁
      simp only [bind, Except.bind]
      generalize bindChildren _ ids s₁ = r at htail
      cases htail with
      | refused leaf e hleaf he =>
        exact .refused leaf e (List.mem_append_right _ hleaf) he
      | bound js s₂ hs₂ hstep₂ hjs =>
        exact .bound _ _ hs₂
          (hstep₁.trans hstep₂ (List.subset_append_left _ _) (List.subset_append_right _ _))
          (.cons (hj.steps hs₁.wf hs₂.wf hstep₂) hjs)

/-- **One node.** If the walk ends well at the nodes before `id`, so it does at `id`: one case for
each kind of node. -/
theorem bindNode_ends (ha : a.WF)
    {id : Nat} (hid : a.nodes[id]? = some node) (hwalk : ∀ child < id, ∀ s, Kept c treatments a s →
      Ends c treatments a (a.view child) s (walk child s)) (hs : Kept c treatments a s) :
    Ends c treatments a (a.view id) s (bindNode c treatments walk s node) := by
  have hok := ha id node hid
  have hview := CausalExprArena.view_node ha hid
  cases node with
  | distribution vars conditionedOn intervention domain population regime =>
    obtain ⟨hv, hc, ht, hp⟩ := hok
    set leaf : Leaf := ⟨a.varSets.getD vars [], a.varSets.getD conditionedOn [],
      a.interventions.getD intervention [], domain, a.populations.getD population "", regime⟩
    have hleaf : a.view id = .distribution leaf := hview
    have hmem : leaf ∈ (a.view id).leaves := hleaf ▸ List.mem_singleton_self _
    have hsame : bindLeaf c (s.arena.populations.getD population "")
        (s.arena.interventions.getD intervention []) (s.arena.varSets.getD vars [] ++
          s.arena.varSets.getD conditionedOn []) treatments = bindFactor c treatments leaf := by
      rw [CausalExprArena.getD_prefixed hs.ext.populations hp,
        CausalExprArena.getD_prefixed hs.ext.interventions ht,
        CausalExprArena.getD_prefixed hs.ext.varSets hv,
        CausalExprArena.getD_prefixed hs.ext.varSets hc]
      rfl
    unfold bindNode
    simp only [hsame]
    cases hb : bindFactor c treatments leaf with
    | error e => exact .refused leaf e hmem hb
    | ok b =>
      have hstep : Steps c treatments (a.view id).leaves s { s with cited := s.cited ++ b.regimes } :=
        ⟨.rfl, List.subset_append_left _ _, fun r hr => (List.mem_append.mp hr).imp_right fun hr =>
          ⟨leaf, hmem, b, hb, hr⟩⟩
      refine ends_intern (hs.steps hs.wf rfl hstep) hstep ⟨hv.trans_le hs.ext.varSets.length_le,
        hc.trans_le hs.ext.varSets.length_le, ht.trans_le hs.ext.interventions.length_le,
        hp.trans_le hs.ext.populations.length_le⟩ ?_ fun leaf' hleaf' => ?_
      · rw [hleaf]
        simp only [CausalExprArena.shape, CausalExprArena.readNode, tagTree, tagOf, hb,
          CausalExprArena.getD_prefixed hs.ext.populations hp,
          CausalExprArena.getD_prefixed hs.ext.interventions ht,
          CausalExprArena.getD_prefixed hs.ext.varSets hv,
          CausalExprArena.getD_prefixed hs.ext.varSets hc]
        rfl
      · rw [hleaf] at hleaf'
        obtain rfl := List.mem_singleton.mp hleaf'
        exact ⟨b, hb, List.subset_append_right _ _⟩
  | product list =>
    obtain ⟨ids, hl, hids⟩ := hok
    have hget : s.arena.lists.getD list [] = ids := by
      rw [List.getD_eq_getElem?_getD, getElem?_prefixed hs.ext.lists hl]
      rfl
    have hprod : a.view id = .product (ids.map a.view) := by
      rw [hview]
      simp only [CausalExprArena.shape, CausalExprArena.readNode]
      rw [List.getD_eq_getElem?_getD, hl]
      rfl
    have hall := bindChildren_ends (fun child hchild s hs => hwalk child (hids child hchild) s hs) hs
    unfold bindNode
    simp only
    rw [hget]
    generalize bindChildren walk ids s = r at hall
    rw [hprod]
    cases hall with
    | refused leaf e hleaf he => exact .refused leaf e hleaf he
    | bound js s₁ hs₁ hstep hjs =>
      obtain ⟨⟨hwf, hext⟩, hnodes, hlist⟩ := CausalExprArena.internList_spec hs₁.wf js
      have hone : Steps c treatments (ExprTree.leavesList (ids.map a.view)) s₁
          { s₁ with arena := (s₁.arena.internList js).1 } :=
        ⟨hext, List.Subset.refl _, fun _ hr => .inl hr⟩
      have hjs' := hjs.imp fun t j hj => hj.steps hs₁.wf hwf hone
      refine ends_intern (hs₁.steps hwf rfl hone)
        (hstep.trans hone (List.Subset.refl _) (List.Subset.refl _)) ⟨js, hlist, fun j hj => ?_⟩ ?_
        fun leaf hleaf => ?_
      · obtain ⟨t, -, ht⟩ := forall₂_mem_right hjs' hj
        exact ht.lt
      · simp only [CausalExprArena.shape, CausalExprArena.readNode, tagTree, tagTrees_eq]
        rw [List.getD_eq_getElem?_getD, hlist]
        exact congrArg ExprTree.product (forall₂_map_eq hjs' fun t j h => h.view).symm
      · obtain ⟨t, ht, hleaf⟩ := mem_leavesList.mp hleaf
        obtain ⟨j, -, hj⟩ := forall₂_mem_left hjs' ht
        exact hj.cites leaf hleaf
  | sumOut vars expr =>
    obtain ⟨hv, he⟩ := hok
    have hsum : a.view id = .sumOut (a.varSets.getD vars []) (a.view expr) := hview
    have hbody := hwalk expr he s hs
    unfold bindNode
    simp only
    generalize walk expr s = r at hbody
    rw [hsum]
    cases hbody with
    | refused leaf e hleaf he => exact .refused leaf e hleaf he
    | bound j s₁ hs₁ hstep hj =>
      refine ends_intern hs₁ hstep ⟨hv.trans_le hs₁.ext.varSets.length_le, hj.lt⟩ ?_ hj.cites
      simp only [CausalExprArena.shape, CausalExprArena.readNode, tagTree,
        CausalExprArena.getD_prefixed hs₁.ext.varSets hv]
      exact congrArg _ hj.view
  | ratio numerator denominator =>
    obtain ⟨hn, hd⟩ := hok
    have hratio : a.view id = .ratio (a.view numerator) (a.view denominator) := hview
    have hnum := hwalk numerator hn s hs
    unfold bindNode
    simp only
    generalize walk numerator s = r at hnum
    rw [hratio]
    cases hnum with
    | refused leaf e hleaf he => exact .refused leaf e (List.mem_append_left _ hleaf) he
    | bound j s₁ hs₁ hstep hj =>
      have hden := hwalk denominator hd s₁ hs₁
      simp only [bind, Except.bind]
      generalize walk denominator s₁ = r at hden
      cases hden with
      | refused leaf e hleaf he => exact .refused leaf e (List.mem_append_right _ hleaf) he
      | bound k s₂ hs₂ hstep₂ hk =>
        have hj' := hj.steps hs₁.wf hs₂.wf hstep₂
        refine ends_intern hs₂ (hstep.trans hstep₂ (List.subset_append_left _ _)
          (List.subset_append_right _ _)) ⟨hj'.lt, hk.lt⟩ ?_ fun leaf hleaf => ?_
        · simp only [CausalExprArena.shape, CausalExprArena.readNode, tagTree]
          exact congrArg₂ ExprTree.ratio hj'.view hk.view
        · obtain hleaf | hleaf := List.mem_append.mp hleaf
          · exact hj'.cites leaf hleaf
          · exact hk.cites leaf hleaf
  | other payload => exact hok.elim

/-- **The walk ends well** at every node, in a well-formed arena: induction on its depth. -/
theorem bindRecursiveExpression_ends (ha : a.WF) : ∀ {depth id : Nat}, id < depth →
    id < a.nodes.length → ∀ s, Kept c treatments a s →
    Ends c treatments a (a.view id) s (bindRecursiveExpression c treatments depth id s)
  | depth + 1, id, hdepth, hid, s, hs => by
    unfold bindRecursiveExpression
    cases hmemo : s.memo.lookup id with
    | some hit => exact .bound hit s hs .refl (hs.memo id hit hmemo)
    | none =>
      have hget : a.nodes[id]? = some a.nodes[id] := List.getElem?_eq_getElem hid
      have hnode : s.arena.nodes.getD id (.other 0) = a.nodes[id] := by
        rw [List.getD_eq_getElem?_getD, getElem?_prefixed hs.ext.nodes hget]
        rfl
      have hend := bindNode_ends ha hget (fun child hchild s hs =>
        bindRecursiveExpression_ends ha (hchild.trans_le (Nat.lt_succ_iff.mp hdepth))
          (hchild.trans hid) s hs) hs
      rw [hnode]
      simp only
      generalize bindNode c treatments _ s a.nodes[id] = r at hend
      cases hend with
      | refused leaf e hleaf he => exact .refused leaf e hleaf he
      | bound j s' hs' hstep hj =>
        refine .bound j _ ⟨hs'.wf, hs'.ext, fun i k hik => ?_⟩ ⟨hstep.ext, hstep.cited, hstep.only⟩
          ⟨hj.lt, hj.view, hj.cites⟩
        rw [List.lookup_cons] at hik
        split at hik
        next heq =>
          obtain rfl := eq_of_beq heq
          obtain rfl := Option.some.inj hik
          exact ⟨hj.lt, hj.view, hj.cites⟩
        next =>
          obtain ⟨hlt, hview, hcites⟩ := hs'.memo i k hik
          exact ⟨hlt, hview, hcites⟩

/-- **The binding of a formula** binds each of its leaves and cites what they cite, or returns the
refusal of one of them. -/
theorem bindFormula_spec (ha : a.WF) {root : Nat} (hroot : root < a.nodes.length) :
    (∃ bound, bindFormula c treatments a root = .ok bound ∧
      bound.arena.view bound.root = tagTree (tagOf c treatments) (a.view root) ∧
      (∀ leaf ∈ (a.view root).leaves, Cites c treatments leaf bound.cited) ∧
      ∀ r ∈ bound.cited, ∃ leaf ∈ (a.view root).leaves, ∃ b,
        bindFactor c treatments leaf = .ok b ∧ r ∈ b.regimes) ∨
    ∃ leaf ∈ (a.view root).leaves, ∃ e, bindFactor c treatments leaf = .error e ∧
      bindFormula c treatments a root = .error e := by
  have hend := @bindRecursiveExpression_ends c treatments a ha _ _ (Nat.lt_succ_self root)
    hroot ⟨a, [], []⟩ ⟨ha, .rfl, fun _ _ h => nomatch h⟩
  unfold bindFormula
  generalize bindRecursiveExpression c treatments (root + 1) root ⟨a, [], []⟩ = r at hend
  cases hend with
  | refused leaf e hleaf he => exact .inr ⟨leaf, hleaf, e, he, rfl⟩
  | bound j s' hs' hstep hj =>
    refine .inl ⟨_, rfl, hj.view, fun leaf hleaf => ?_, fun r hr => ?_⟩
    · obtain ⟨b, hb, hsub⟩ := hj.cites leaf hleaf
      exact ⟨b, hb, fun r hr => mem_sortDedup.mpr (hsub hr)⟩
    · exact (hstep.only r (mem_sortDedup.mp hr)).resolve_left List.not_mem_nil

/-- **A formula binds** exactly when each of its leaves does. -/
theorem bindFormula_ok (ha : a.WF) {root : Nat} (hroot : root < a.nodes.length) :
    (∃ bound, bindFormula c treatments a root = .ok bound) ↔
      ∀ leaf ∈ (a.view root).leaves, ∃ b, bindFactor c treatments leaf = .ok b := by
  obtain ⟨bound, hbound, -, hcites, -⟩ | ⟨leaf, hleaf, e, he, herr⟩ :=
    @bindFormula_spec c treatments a ha root hroot
  · refine iff_of_true ⟨bound, hbound⟩ fun leaf hleaf => ?_
    obtain ⟨b, hb, -⟩ := hcites leaf hleaf
    exact ⟨b, hb⟩
  · refine iff_of_false (fun ⟨bound, hbound⟩ => ?_) fun hall => ?_
    · exact absurd (herr.symm.trans hbound) nofun
    · obtain ⟨b, hb⟩ := hall leaf hleaf
      exact absurd (he.symm.trans hb) nofun

end Run

/-! ## The order of the catalog -/

section Order

variable {c c' : EvidenceCatalog} {treatments : List Nat}

/-- **A factor's binding** does not see the order of the regimes. -/
theorem bindLeaf_perm (hids : IdsDistinct c.regimes) {regimes : List EvidenceRegime}
    (h : regimes.Perm c.regimes) :
    bindLeaf { c with regimes := regimes } = bindLeaf c := by
  funext population interventions needed requestBound
  have hperm : (candidates { c with regimes := regimes } population interventions needed).Perm
      (candidates c population interventions needed) := h.filter _
  have hids' : IdsDistinct (candidates { c with regimes := regimes } population interventions
      needed) := fun r hr s hs => hids r (h.mem_iff.mp (List.mem_of_mem_filter hr)) s
        (h.mem_iff.mp (List.mem_of_mem_filter hs))
  have hpref := preferredRegime_congr hids' fun r => hperm.mem_iff
  have hworld : ∀ p : EvidenceRegime → Bool,
      preferredRegime ((candidates { c with regimes := regimes } population interventions
        needed).filter p) =
      preferredRegime ((candidates c population interventions needed).filter p) := fun p =>
    preferredRegime_congr (hids'.filter p) fun r => (hperm.filter p).mem_iff
  have hlevels : coordinateLevels { c with regimes := regimes } population interventions
        (candidates { c with regimes := regimes } population interventions needed) requestBound =
      coordinateLevels c population interventions (candidates c population interventions needed)
        requestBound := by
    funext a
    unfold coordinateLevels
    rw [distinctLevels_perm (hperm.flatMap_right (levelsAt a.var))]
    rfl
  unfold bindLeaf
  simp only [hpref, hworld, hlevels]

/-- **The walk** reads the catalog through the binding of its leaves only. -/
theorem bindRecursiveExpression_congr (h : bindLeaf c = bindLeaf c') : ∀ depth,
    bindRecursiveExpression c treatments depth = bindRecursiveExpression c' treatments depth
  | 0 => rfl
  | depth + 1 => by
    funext id s
    have ih := bindRecursiveExpression_congr h depth
    unfold bindRecursiveExpression bindNode
    rw [h, ih]

theorem bindFormula_congr (h : bindLeaf c = bindLeaf c') (a : CausalExprArena) (root : Nat) :
    bindFormula c treatments a root = bindFormula c' treatments a root := by
  unfold bindFormula
  rw [bindRecursiveExpression_congr h]

end Order

/-! ## What a binding promises -/

theorem regular_of_validate {c : EvidenceCatalog} (h : c.validate = .ok ()) : Regular c := by
  obtain ⟨henv, hregimes⟩ := validate_parts h
  refine ⟨fun r hr s hs he => List.inj_on_of_nodup_map (validate_ids h) hr hs he,
    fun r hr => EvidenceRegime.tryNew_finite (hregimes r hr), fun population var ls hls => ?_⟩
  unfold declaredLevels at hls
  obtain ⟨environment, he, hls⟩ := Option.bind_eq_some_iff.mp hls
  obtain ⟨coordinate, hcoord, hls⟩ := Option.bind_eq_some_iff.mp hls
  have hpos := Environment.check_cardinality (henv _ (List.mem_of_find?_eq_some he)) _
    (List.mem_of_find?_eq_some hcoord)
  split at hls
  next => simp [← Option.some.inj hls]
  next cardinality hd =>
    rw [← Option.some.inj hls]
    intro hempty
    rw [List.map_eq_nil_iff, List.range_eq_nil] at hempty
    exact hpos (hempty ▸ hd)
  next => cases hls

section Promise

variable {c c' : EvidenceCatalog} {treatments : List Nat} {a : CausalExprArena} {root : Nat}
  {r : EvidenceRegime}

/-- What the binding of the formula at `root` promises, where `c'` adds a regime to `c`: it succeeds
exactly when each leaf is supplied at each of its worlds, the bound formula reads the law a leaf
names there, the order of the regimes is irrelevant, and the further regime costs no success. -/
structure Promised (c c' : EvidenceCatalog) (treatments : List Nat) (a : CausalExprArena)
    (root : Nat) : Prop where
  complete : (∃ bound, bindFormula c treatments a root = .ok bound) ↔
    ∀ leaf ∈ (a.view root).leaves, Supplied c treatments leaf
  sound : ∀ bound, bindFormula c treatments a root = .ok bound → ∃ tag : Leaf → Option Nat,
    bound.arena.view bound.root = tagTree tag (a.view root) ∧
      ∀ leaf ∈ (a.view root).leaves, ∀ w, World c treatments leaf w →
        ∃ r, lawAt c bound.cited { leaf with regime := tag leaf } w = some r ∧
          r.id ∈ bound.cited ∧ Names c leaf w r
  order : ∀ regimes : List EvidenceRegime, regimes.Perm c.regimes →
    bindFormula { c with regimes := regimes } treatments a root = bindFormula c treatments a root
  monotone : (∃ bound, bindFormula c treatments a root = .ok bound) →
    ∀ code d, bindFormula c' treatments a root ≠ .error (.missingEvidence code d)

/-- Once every leaf is supplied: at each leaf without a family regime the levels of the coordinates
the request binds are a grid, and the further regime does not stretch it. -/
def LevelsTogether (c c' : EvidenceCatalog) (r : EvidenceRegime) (treatments : List Nat)
    (a : CausalExprArena) (root : Nat) : Prop :=
  (∀ leaf ∈ (a.view root).leaves, Supplied c treatments leaf) →
    ∀ leaf ∈ (a.view root).leaves, Grid c treatments leaf ∧
      ((∀ s ∈ sources c' leaf, s.interventionValues ≠ []) → r ∈ sources c' leaf →
        ¬ Stretches c treatments leaf r)

variable {leaf : Leaf}

/-- A leaf that binds in `c` binds in `c'` unless the further regime stretches it. -/
theorem bindFactor_adds (hc : Regular c) (hc' : Regular c') (hadd : Adds c c' r)
    (hn : (leaf.intervention.map (·.var)).Nodup) (hb : ∃ b, bindFactor c treatments leaf = .ok b) :
    (∃ b, bindFactor c' treatments leaf = .ok b) ↔
      ((∀ s ∈ sources c' leaf, s.interventionValues ≠ []) → r ∈ sources c' leaf →
        ¬ Stretches c treatments leaf r) := by
  rw [bindFactor_ok hc' hn]
  by_cases hfamily : ∃ s ∈ sources c' leaf, s.interventionValues = []
  · obtain ⟨s, hs, hempty⟩ := hfamily
    exact iff_of_true ⟨.inl ⟨s, hs, hempty⟩, fun hno => absurd hempty (hno s hs)⟩
      fun hno => absurd hempty (hno s hs)
  · have hno' : ∀ s ∈ sources c' leaf, s.interventionValues ≠ [] := fun s hs he =>
      hfamily ⟨s, hs, he⟩
    have hno : ∀ s ∈ sources c leaf, s.interventionValues ≠ [] := fun s hs =>
      hno' s ((mem_sources_adds hadd hc'.ids).mpr (.inl hs))
    rw [← everywhere_iff hno', everywhere_adds hadd hc'.ids
      ((everywhere_iff hno).mpr ((bindFactor_ok hc hn).mp hb))]
    exact ⟨fun h _ hr hs => h ⟨hr, hs⟩, fun h ⟨hr, hs⟩ => h hno' hr hs⟩

/-- The experiments on `0` and `1` at the given levels, which measure `2`. -/
def pairRegime (id : Nat) (x z : Bool) : EvidenceRegime where
  id := id
  label := none
  kind := .experimental
  evidenceKind := .available
  interventions := [0, 1]
  interventionValues := [⟨0, .bool x⟩, ⟨1, .bool z⟩]
  measured := [2]
  conditionedOn := []
  population := "source"
  distribution := .joint
  study := none
  selection := .population
  origin := .measured
  canonicalIdentity := ""

def pairCatalog (regimes : List EvidenceRegime) : EvidenceCatalog where
  environments := []
  regimes := regimes
  bindings := regimes.map fun r => ⟨none, r.id, "snapshot", [], none⟩

/-- `P(2 | do(0, 1))` in the source, both levels open. -/
def pairArena : CausalExprArena where
  nodes := [.distribution 0 1 0 .interventional 0 none]
  varSets := [[2], []]
  interventions := [[symbolic 0, symbolic 1]]
  lists := []
  populations := ["source"]

def pairLeaf : Leaf := ⟨[2], [], [symbolic 0, symbolic 1], .interventional, "source", none⟩

theorem pairArena_wf : pairArena.WF := by
  intro i node hi
  obtain ⟨hlt, rfl⟩ := List.getElem?_eq_some_iff.mp hi
  obtain rfl : i = 0 := Nat.lt_one_iff.mp hlt
  exact ⟨by decide, by decide, by decide, by decide⟩

theorem pairArena_leaves (h : leaf ∈ (pairArena.view 0).leaves) : leaf = pairLeaf :=
  List.mem_singleton.mp h

theorem pairCatalog_adds (rs : List EvidenceRegime) (r : EvidenceRegime) :
    Adds (pairCatalog rs) (pairCatalog (rs ++ [r])) r where
  environments := rfl
  regimes := rfl
  bindings := ⟨[⟨none, r.id, "snapshot", [], none⟩], List.map_append, fun b hb => by
    rw [List.mem_singleton.mp hb]⟩

end Promise

end Antecedent.Identify.Binding
