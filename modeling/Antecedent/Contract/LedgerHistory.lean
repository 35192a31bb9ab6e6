import Antecedent.Contract.LedgerWf

/-!
# What a ledger keeps

The tables of a ledger only grow, and what is in them changes its standing only, forward: a source
from active over retired to withdrawn, a result from valid over outdated and withdrawn to replaced.

* `Advances`: the entries of a table keep their places and move along a relation.
* **`history_kept`**: a later ledger of a run keeps the history of an earlier one.
-/

namespace Antecedent.Contract

open Machine

/-! ## Tables that grow -/

section Tables

variable {α S : Type} {R : α → α → Prop} {x y : α} {xs ys zs : List α}

/-- What the first table holds is in the second, at the same place, moved along `R`. -/
def Advances (R : α → α → Prop) (xs ys : List α) : Prop :=
  ∀ (i : Nat) x, xs[i]? = some x → ∃ y, ys[i]? = some y ∧ R x y

theorem advances_append (hR : ∀ x, R x x) (xs ys : List α) : Advances R xs (xs ++ ys) := fun _ x hx =>
  ⟨x, (List.getElem?_append_left (List.getElem?_eq_some_iff.mp hx).1).trans hx, hR x⟩

theorem Advances.refl (hR : ∀ x, R x x) (xs : List α) : Advances R xs xs := fun _ x hx => ⟨x, hx, hR x⟩

theorem Advances.trans (hR : ∀ x y z, R x y → R y z → R x z) (h : Advances R xs ys)
    (h' : Advances R ys zs) : Advances R xs zs := by
  intro i x hx
  obtain ⟨y, hy, hxy⟩ := h i x hx
  obtain ⟨z, hz, hyz⟩ := h' i y hy
  exact ⟨z, hz, hR x y z hxy hyz⟩

theorem Advances.cons (hxy : R x y) (h : Advances R xs ys) : Advances R (x :: xs) (y :: ys)
  | 0, _, hz => ⟨y, rfl, Option.some.inj hz ▸ hxy⟩
  | i + 1, z, hz => h i z hz

theorem advances_middle (hR : ∀ x, R x x) (hxy : R x y) : ∀ before : List α,
    Advances R (before ++ x :: xs) (before ++ y :: xs)
  | [] => .cons hxy (.refl hR xs)
  | z :: before => .cons (hR z) (advances_middle hR hxy before)

theorem advances_map {f : α → α} (h : ∀ x ∈ xs, R x (f x)) : Advances R xs (xs.map f) := fun _ x hx =>
  ⟨f x, by rw [List.getElem?_map, hx]; rfl, h x (List.mem_of_getElem? hx)⟩

/-- A standing that stays or moves to a higher rank. -/
def Forward (rank : S → Nat) (a b : S) : Prop := b = a ∨ rank a < rank b

theorem Forward.trans {rank : S → Nat} {a b c : S} (h : Forward rank a b) (h' : Forward rank b c) :
    Forward rank a c := by
  rcases h with rfl | h
  · exact h'
  · rcases h' with rfl | h'
    · exact Or.inr h
    · exact Or.inr (h.trans h')

end Tables

/-! ## Standings -/

def SourceStatus.rank : SourceStatus → Nat
  | .active => 0
  | .withdrawn _ _ => 2
  | _ => 1

def ResultStatus.rank : ResultStatus → Nat
  | .valid => 0
  | .needsRecompute _ => 1
  | .withdrawn _ => 2
  | .replaced _ _ => 3

/-- The same source, at the standing it had or at one of higher rank. -/
def EvidenceSource.Moves (s s' : EvidenceSource) : Prop :=
  s' = { s with status := s'.status } ∧ Forward SourceStatus.rank s.status s'.status

/-- The same result, at the standing it had or at one of higher rank. -/
def ResultRecord.Moves (r r' : ResultRecord) : Prop :=
  r' = { r with status := r'.status } ∧ Forward ResultStatus.rank r.status r'.status

theorem EvidenceSource.Moves.refl (s : EvidenceSource) : s.Moves s := ⟨rfl, Or.inl rfl⟩

theorem ResultRecord.Moves.refl (r : ResultRecord) : r.Moves r := ⟨rfl, Or.inl rfl⟩

theorem EvidenceSource.Moves.trans (s s' s'' : EvidenceSource) (h : s.Moves s') (h' : s'.Moves s'') :
    s.Moves s'' :=
  ⟨by rw [h'.1, h.1], h.2.trans h'.2⟩

theorem ResultRecord.Moves.trans (r r' r'' : ResultRecord) (h : r.Moves r') (h' : r'.Moves r'') :
    r.Moves r'' :=
  ⟨by rw [h'.1, h.1], h.2.trans h'.2⟩

namespace EvidenceLedger

variable {ids : Identities} {l l' : EvidenceLedger} {op : LedgerOperation} {status : SourceStatus}
  {t : SourceId}

/-! ## A step -/

theorem setSource_advances (hw : l.Wf) {s : EvidenceSource}
    (hs : l.source t = some s) (hr : s.status.rank < status.rank) :
    Advances EvidenceSource.Moves l.sources (l.setSource t status).sources := by
  refine advances_map fun x hx => ?_
  split_ifs with hid
  · obtain rfl := Option.some.inj ((hid ▸ find?_key hw.sourceIds hx).symm.trans hs)
    exact ⟨rfl, Or.inr hr⟩
  · exact .refl _

theorem rank_retired {retire : Retire}
    (ht : checkRetirable retire t status = .ok ()) (o : OperationId) (reason : Option String)
    (successor : Option SourceId) (hw : retire = .withdraw ∨ successor.isSome) :
    status.rank < (retiredStatus o reason retire successor).rank := by
  cases successor <;> cases retire <;> cases status <;>
    simp_all [checkRetirable, retiredStatus, SourceStatus.rank]

theorem updated_forward (cause : OperationId) (cls : Revalidation) (status : ResultStatus) :
    Forward ResultStatus.rank status (updated cause cls status) := by
  cases status <;> cases cls <;> simp [updated, Forward, ResultStatus.rank]

theorem reclassifyLoop_advances (cause : OperationId) : ∀ todo done : List ResultRecord,
    Advances ResultRecord.Moves (done ++ todo) (l.reclassifyLoop cause done todo)
  | [], done => by
    rw [reclassifyLoop, List.append_nil]
    exact .refl .refl _
  | r :: todo, done => by
    rw [reclassifyLoop]
    refine Advances.trans ResultRecord.Moves.trans ?_ (reclassifyLoop_advances cause todo _)
    rw [List.append_assoc]
    exact advances_middle .refl ⟨rfl, updated_forward _ _ _⟩ done

theorem register_advances (hw : l.Wf) {request : CombinationRequest} {k : CheckedCombination}
    (hk : l.checkCombination ids request = .ok k) (o : OperationId) :
    Advances ResultRecord.Moves l.results (l.register k o).results := by
  obtain ⟨c, hc⟩ := checkCombination_ok hk
  have hreplaces := hc.replaces
  rw [← hc.replaced] at hreplaces
  have hset : Advances ResultRecord.Moves l.results (l.replacing k o) := by
    unfold replacing
    cases hrep : k.replaces with
    | none => exact .refl .refl _
    | some t =>
      refine advances_map fun r hr => ?_
      split_ifs with hid
      · refine ⟨rfl, Or.inr ?_⟩
        unfold checkReplaces at hreplaces
        simp only [hrep, ← hid, hw.result_mem hr] at hreplaces
        cases hst : r.status <;> simp_all [ResultStatus.rank]
      · exact .refl _
  rw [register_results]
  exact hset.trans ResultRecord.Moves.trans (advances_append .refl _ _)

/-- What a later ledger keeps of an earlier one. -/
structure Keeps (l l' : EvidenceLedger) : Prop where
  log : l.log <+: l'.log
  sources : Advances EvidenceSource.Moves l.sources l'.sources
  results : Advances ResultRecord.Moves l.results l'.results

theorem execute_log (o : OperationId) (plan : Plan) : (l.execute o plan).1.log = l.log := by
  cases plan with
  | add source overlaps => rfl
  | retire retire target reason replacement => cases replacement <;> rfl
  | revalidate => rfl
  | combine k =>
    rcases k with ⟨id, label, op, mass, cls, digest, transports, reuse, declared, _ | replaced⟩ <;> rfl

theorem apply_keeps (hw : l.Wf) (ha : l.apply ids op = .ok l') : l.Keeps l' := by
  have hlog : l.log <+: l'.log := by
    obtain ⟨plan, -, h⟩ := bind_ok ha
    cases h
    exact ⟨_, congrArg (· ++ [_]) (execute_log _ plan).symm⟩
  obtain ⟨m, head, log, hm, rfl⟩ := apply_cases ha
  suffices hall : Advances EvidenceSource.Moves l.sources m.sources ∧
      Advances ResultRecord.Moves l.results m.results from ⟨hlog, hall.1, hall.2⟩
  cases hm with
  | added o hc fresh => exact ⟨advances_append .refl _ _, .refl .refl _⟩
  | withdrawn o hsrc ht =>
    exact ⟨setSource_advances hw hsrc (rank_retired ht o (some _) none (Or.inl rfl)),
      reclassifyLoop_advances o l.results []⟩
  | @succeeded op retire target d c s o hop hsrc ht hc fresh apart =>
    exact ⟨(setSource_advances hw hsrc (rank_retired ht o none (some c.id) (Or.inr rfl))).trans
      EvidenceSource.Moves.trans (advances_append .refl _ _), reclassifyLoop_advances o l.results []⟩
  | revalidated o => exact ⟨.refl .refl _, reclassifyLoop_advances o l.results []⟩
  | combined o hk => exact ⟨by rw [register_sources]; exact .refl .refl _, register_advances hw hk o⟩

/-- **A ledger only goes forward.** In any two ledgers of a run the log of the earlier begins that
of the later, and the later holds the earlier's sources and results at their places with only their
standing changed, to one of higher rank. -/
theorem history_kept (ids : Identities) (ops more : List LedgerOperation) :
    (run (apply ids) (new ids) ops).Keeps (run (apply ids) (new ids) (ops ++ more)) := by
  unfold run
  rw [List.foldl_append]
  exact run_step (I := Wf) (fun l => ⟨List.prefix_refl _, .refl .refl _, .refl .refl _⟩)
    (fun a b c h h' => ⟨h.log.trans h'.log, h.sources.trans EvidenceSource.Moves.trans h'.sources,
      h.results.trans ResultRecord.Moves.trans h'.results⟩)
    (fun _ _ _ => apply_wf) (fun _ _ _ => apply_keeps) more _ (wf_run ids ops)

end EvidenceLedger

end Antecedent.Contract
