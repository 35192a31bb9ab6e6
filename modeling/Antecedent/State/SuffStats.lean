import Antecedent.Prob.Scatter
import Antecedent.State.Store

/-!
# Incremental sufficient statistics

Model of `LinearOlsSuffStats` and `StreamingCovariance` (`suff_stats.rs`), with the two kernels they
advance: `accumulate_xtx_xty_row` (`gram.rs:50-64`) and `update_scatter` (`welford.rs:92-110`).

A floating-point value is an exact rational, or `none` where it is not finite. A row-major `dim×dim`
buffer is a function of two indices; the loops over it write in the source's order. A call works on
the statistics in place, so it returns the statistics it leaves behind with its result.

* `appendRow_spec`: a row is refused and changes nothing, or all components take it.
* **`suffStats_exact_iff`**: after every prefix of a sequence of calls the statistics are those of the accepted
  rows and no refused call has changed them, if and only if no call is torn: a batch whose first row
  is taken and a later row of which is refused.
-/

namespace Antecedent.State

open Prob (cross mean scatter)

/-- An `f64`: its exact value, `none` where it is not finite. -/
abbrev Value := Option ℚ

/-- A row-major `dim×dim` buffer. -/
abbrev Square (dim : Nat) := Fin dim → Fin dim → ℚ

/-- `m[i * dim + j] = value`. -/
def Square.set {dim : Nat} (m : Square dim) (i j : Fin dim) (value : ℚ) : Square dim :=
  fun a b => if a = i ∧ b = j then value else m a b

/-- The pairs `for i in 0..dim { for j in i..dim }` visits, in order. -/
def upperPairs (dim : Nat) : List (Fin dim × Fin dim) :=
  (List.finRange dim).flatMap fun i => ((List.finRange dim).filter (i ≤ ·)).map fun j => (i, j)

def finiteEntries (dim : Nat) (x : List Value) : Option (Fin dim → ℚ) :=
  if x.all Option.isSome then some fun i => (x.getD i none).getD 0 else none

/-! ## The streaming covariance -/

structure StreamingCovariance (dim : Nat) where
  n : Nat
  mean : Fin dim → ℚ
  m2 : Square dim

namespace StreamingCovariance

variable {dim : Nat}

def new (dim : Nat) : StreamingCovariance dim := ⟨0, fun _ => 0, fun _ _ => 0⟩

/-- One write of the double loop of `update_scatter`. -/
def scatterWrite (mean x : Fin dim → ℚ) (correction : ℚ) (m2 : Square dim) (e : Fin dim × Fin dim) :
    Square dim :=
  let value := m2 e.1 e.2 + (x e.1 - mean e.1) * (x e.2 - mean e.2) * correction
  (m2.set e.1 e.2 value).set e.2 e.1 value

/-- `update_scatter`; the buffers have the lengths it asks for. -/
def updateScatter (mean : Fin dim → ℚ) (m2 : Square dim) (nBefore : Nat) (x : Fin dim → ℚ) :
    (Fin dim → ℚ) × Square dim :=
  if nBefore = 0 then (mean, m2)
  else
    let next := satAdd nBefore 1
    let correction : ℚ := nBefore / next
    let m2 := (upperPairs dim).foldl (scatterWrite mean x correction) m2
    (fun i => mean i + (x i - mean i) / next, m2)

/-- `suff_stats.rs:232-259`. -/
def append (s : StreamingCovariance dim) (x : List Value) :
    StreamingCovariance dim × Except StateError Unit :=
  if x.length ≠ dim then
    (s, .error (.shape ("cov dim " ++ toString x.length ++ " != " ++ toString dim)))
  else
    match finiteEntries dim x with
    | none => (s, .error (.numerical "covariance observations must be finite"))
    | some xs =>
      if s.n = u64Max then (s, .error (.numerical "covariance count overflow"))
      else if s.n = 0 then (⟨s.n + 1, xs, s.m2⟩, .ok ())
      else
        let (mean, m2) := updateScatter s.mean s.m2 s.n xs
        (⟨s.n + 1, mean, m2⟩, .ok ())

end StreamingCovariance

/-! ## The regression statistics -/

/-- `LinearOlsSuffStats` with `ncols` predictors. -/
structure LinearOlsSuffStats (ncols : Nat) where
  xtx : Square ncols
  xty : Fin ncols → ℚ
  n : Nat
  yty : ℚ
  joint : StreamingCovariance (ncols + 1)

namespace LinearOlsSuffStats

variable {ncols : Nat}

def new (ncols : Nat) : LinearOlsSuffStats ncols where
  xtx := fun _ _ => 0
  xty := fun _ => 0
  n := 0
  yty := 0
  joint := .new (ncols + 1)

/-- One write of the double loop of `accumulate_xtx_xty_row`. -/
def gramWrite (row : Fin ncols → ℚ) (xtx : Square ncols) (e : Fin ncols × Fin ncols) :
    Square ncols :=
  let v := row e.1 * row e.2
  let xtx := xtx.set e.1 e.2 (xtx e.1 e.2 + v)
  if e.1 ≠ e.2 then xtx.set e.2 e.1 (xtx e.2 e.1 + v) else xtx

def accumulateXtxXtyRow (row : Fin ncols → ℚ) (y : ℚ) (xtx : Square ncols) (xty : Fin ncols → ℚ) :
    Square ncols × (Fin ncols → ℚ) :=
  ((upperPairs ncols).foldl (gramWrite row) xtx, fun i => xty i + row i * y)

/-- `suff_stats.rs:55-75`. -/
def appendRow (s : LinearOlsSuffStats ncols) (row : List Value) (y : Value) :
    LinearOlsSuffStats ncols × Except StateError Unit :=
  if row.length ≠ ncols then
    (s, .error (.shape ("row len " ++ toString row.length ++ " != ncols " ++ toString ncols)))
  else
    match finiteEntries ncols row, y with
    | some xs, some v =>
      match s.joint.append (row ++ [y]) with
      | (joint, .error e) => ({ s with joint }, .error e)
      | (joint, .ok ()) =>
        let (xtx, xty) := accumulateXtxXtyRow xs v s.xtx s.xty
        (⟨xtx, xty, satAdd s.n 1, s.yty + v * v, joint⟩, .ok ())
    | _, _ => (s, .error (.numerical "design row and response must be finite"))

/-- The rows of a batch with their responses: `rows[i * ncols..(i + 1) * ncols]` and `y[i]`. -/
def batchRows (ncols : Nat) (rows y : List Value) : List (List Value × Value) :=
  (List.range (rows.length / ncols)).map fun i =>
    ((rows.drop (i * ncols)).take ncols, y.getD i none)

/-- The loop of `append_batch`, up to the first row that is refused. -/
def appendRows : List (List Value × Value) → LinearOlsSuffStats ncols →
    LinearOlsSuffStats ncols × Except StateError Unit
  | [], s => (s, .ok ())
  | r :: rest, s =>
    match s.appendRow r.1 r.2 with
    | (s, .ok ()) => appendRows rest s
    | (s, .error e) => (s, .error e)

/-- `suff_stats.rs:82-98`. -/
def appendBatch (s : LinearOlsSuffStats ncols) (rows y : List Value) :
    LinearOlsSuffStats ncols × Except StateError Unit :=
  if ncols = 0 then (s, .error (.shape "ncols is 0"))
  else if rows.length % ncols ≠ 0 then (s, .error (.shape "rows not multiple of ncols"))
  else if y.length ≠ rows.length / ncols then (s, .error (.shape "y length mismatch"))
  else appendRows (batchRows ncols rows y) s

/-! ## Calls -/

/-- A call that appends. -/
inductive Call
  | appendRow (row : List Value) (y : Value)
  | appendBatch (rows y : List Value)

/-- A call: the statistics it leaves, and whether it was accepted. -/
def call (s : LinearOlsSuffStats ncols) : Call → LinearOlsSuffStats ncols × Except StateError Unit
  | .appendRow row y => s.appendRow row y
  | .appendBatch rows y => s.appendBatch rows y

/-- The statistics after a sequence of calls. -/
def run (s : LinearOlsSuffStats ncols) (calls : List Call) : LinearOlsSuffStats ncols :=
  calls.foldl (fun s c => (s.call c).1) s

end LinearOlsSuffStats

/-! ## The loops over a square -/

section Loops

variable {dim : Nat} {v m : Square dim} {write : Square dim → Fin dim × Fin dim → Square dim}

theorem mem_upperPairs {e : Fin dim × Fin dim} : e ∈ upperPairs dim ↔ e.1 ≤ e.2 := by
  obtain ⟨i, j⟩ := e
  simp [upperPairs]

theorem nodup_upperPairs : (upperPairs dim).Nodup := by
  refine List.nodup_flatMap.mpr ⟨fun i _ => ?_, (List.nodup_finRange dim).imp fun {i j} hij => ?_⟩
  · exact ((List.nodup_finRange dim).filter _).map fun _ _ h => (Prod.mk.inj h).2
  · rintro e hi hj
    obtain ⟨_, -, rfl⟩ := List.mem_map.mp hi
    obtain ⟨_, -, h⟩ := List.mem_map.mp hj
    exact hij (Prod.mk.inj h).1.symm

/-- Both entries of a pair, with `v` added. -/
def bump (v m : Square dim) (e : Fin dim × Fin dim) : Square dim := fun a b =>
  if (a, b) = e ∨ (b, a) = e then m a b + v a b else m a b

/-- A loop whose writes add a symmetric `v` to the entries of their pairs. -/
theorem foldl_bump (hv : ∀ a b, v a b = v b a)
    (hwrite : ∀ m e, (∀ a b, m a b = m b a) → write m e = bump v m e) :
    ∀ {l : List (Fin dim × Fin dim)} {m : Square dim}, l.Nodup → (∀ e ∈ l, e.1 ≤ e.2) →
      (∀ a b, m a b = m b a) →
      l.foldl write m = fun a b => if (a, b) ∈ l ∨ (b, a) ∈ l then m a b + v a b else m a b
  | [], m, _, _, _ => by simp
  | e :: l, m, hl, hle, hm => by
    obtain ⟨he, hl⟩ := List.nodup_cons.mp hl
    obtain ⟨hle₁, htail⟩ := List.forall_mem_cons.mp hle
    have hm' : ∀ a b, bump v m e a b = bump v m e b a := fun a b => by
      simp only [bump, hm a b, hv a b, or_comm]
    rw [List.foldl_cons, hwrite m e hm, foldl_bump hv hwrite hl htail hm']
    funext a b
    -- a pair whose entries were bumped does not come again, nor does its transpose
    have hnew : (a, b) = e ∨ (b, a) = e → ¬ ((a, b) ∈ l ∨ (b, a) ∈ l) := by
      rintro (rfl | rfl) (h | h)
      · exact he h
      · obtain rfl : a = b := le_antisymm hle₁ (htail (b, a) h)
        exact he h
      · obtain rfl : b = a := le_antisymm hle₁ (htail (a, b) h)
        exact he h
      · exact he h
    simp only [List.mem_cons, bump]
    by_cases hab : (a, b) = e ∨ (b, a) = e
    · rw [if_neg (hnew hab), if_pos hab, if_pos (hab.imp Or.inl Or.inl)]
    · obtain ⟨h₁, h₂⟩ := not_or.mp hab
      simp only [h₁, h₂, false_or, if_false]

/-- **A loop over the upper pairs adds `v` everywhere.** -/
theorem foldl_upperPairs (hv : ∀ a b, v a b = v b a) (hm : ∀ a b, m a b = m b a)
    (hwrite : ∀ m e, (∀ a b, m a b = m b a) → write m e = bump v m e) :
    (upperPairs dim).foldl write m = fun a b => m a b + v a b := by
  rw [foldl_bump hv hwrite nodup_upperPairs (fun e he => mem_upperPairs.mp he) hm]
  funext a b
  rw [if_pos]
  exact (le_total a b).imp mem_upperPairs.mpr mem_upperPairs.mpr

theorem scatterWrite_eq (mean x : Fin dim → ℚ) (c : ℚ) (m : Square dim) (e : Fin dim × Fin dim)
    (hm : ∀ a b, m a b = m b a) : StreamingCovariance.scatterWrite mean x c m e =
      bump (fun a b => (x a - mean a) * (x b - mean b) * c) m e := by
  obtain ⟨i, j⟩ := e
  funext a b
  simp only [StreamingCovariance.scatterWrite, Square.set, bump, Prod.mk.injEq]
  by_cases h₁ : a = j ∧ b = i
  · obtain ⟨rfl, rfl⟩ := h₁
    rw [if_pos ⟨rfl, rfl⟩, if_pos (Or.inr ⟨rfl, rfl⟩), hm b a]
    ring
  · rw [if_neg h₁]
    by_cases h₂ : a = i ∧ b = j
    · obtain ⟨rfl, rfl⟩ := h₂
      rw [if_pos ⟨rfl, rfl⟩, if_pos (Or.inl ⟨rfl, rfl⟩)]
    · rw [if_neg h₂, if_neg]
      rintro (h | h)
      · exact h₂ h
      · exact h₁ h.symm

theorem gramWrite_eq (row : Fin dim → ℚ) (m : Square dim) (e : Fin dim × Fin dim) :
    LinearOlsSuffStats.gramWrite row m e = bump (fun a b => row a * row b) m e := by
  obtain ⟨i, j⟩ := e
  funext a b
  simp only [LinearOlsSuffStats.gramWrite, bump, Prod.mk.injEq]
  split_ifs with hij h h <;> simp only [Square.set] <;> split_ifs <;> grind

end Loops

/-! ## What a row adds -/

/-- The finite entries of a row with its response, `[x | y]`. -/
def observation (ncols : Nat) (r : List Value × Value) : Fin (ncols + 1) → ℚ :=
  fun i => ((r.1 ++ [r.2]).getD i none).getD 0

/-- A row of the right length without a value that is not finite. -/
def RowFits (ncols : Nat) (r : List Value × Value) : Prop :=
  r.1.length = ncols ∧ (∀ v ∈ r.1, v.isSome) ∧ r.2.isSome

instance (ncols : Nat) (r : List Value × Value) : Decidable (RowFits ncols r) :=
  inferInstanceAs (Decidable (_ ∧ _ ∧ _))

/-- All components are those of the observations `l`. -/
structure Summarizes {ncols : Nat} (s : LinearOlsSuffStats ncols) (l : List (Fin (ncols + 1) → ℚ)) :
    Prop where
  n : s.n = l.length
  jointN : s.joint.n = l.length
  fits : l.length ≤ u64Max
  xtx : ∀ i j, s.xtx i j = cross l i.castSucc j.castSucc
  xty : ∀ i, s.xty i = cross l i.castSucc (Fin.last ncols)
  yty : s.yty = cross l (Fin.last ncols) (Fin.last ncols)
  mean : ∀ a, s.joint.mean a = mean l a
  scatter : ∀ a b, s.joint.m2 a b = scatter l a b

section Rows

variable {dim ncols : Nat}

theorem summarizes_new : Summarizes (.new ncols) [] where
  n := rfl
  jointN := rfl
  fits := Nat.zero_le _
  xtx i j := rfl
  xty i := rfl
  yty := rfl
  mean a := by simp [LinearOlsSuffStats.new, StreamingCovariance.new, mean, Prob.total]
  scatter a b := rfl

variable {x row : List Value} {r : List Value × Value} {l : List (Fin (ncols + 1) → ℚ)}
  {s : LinearOlsSuffStats ncols}

theorem finiteEntries_some (h : ∀ v ∈ x, v.isSome) :
    finiteEntries dim x = some fun i : Fin dim => (x.getD i none).getD 0 := by
  rw [finiteEntries, if_pos (List.all_eq_true.mpr h)]

theorem finiteEntries_none (h : ¬ ∀ v ∈ x, v.isSome) :
    finiteEntries dim x = none := by
  rw [finiteEntries, if_neg fun hall => h (List.all_eq_true.mp hall)]

theorem updateScatter_spec {l : List (Fin dim → ℚ)} (hl : l ≠ []) (hlen : l.length < u64Max)
    {m : Fin dim → ℚ} {m2 : Square dim} (hm : ∀ a, m a = mean l a)
    (hm2 : ∀ a b, m2 a b = scatter l a b) (x : Fin dim → ℚ) :
    (∀ a, (StreamingCovariance.updateScatter m m2 l.length x).1 a = mean (l ++ [x]) a) ∧
      ∀ a b, (StreamingCovariance.updateScatter m m2 l.length x).2 a b = scatter (l ++ [x]) a b := by
  have hpos : l.length ≠ 0 := (List.length_pos_iff.mpr hl).ne'
  have hnext : satAdd l.length 1 = l.length + 1 := by
    unfold satAdd
    omega
  have hsymm : ∀ a b, m2 a b = m2 b a := fun a b => by
    rw [hm2, hm2, Prob.scatter_eq hl, Prob.scatter_eq hl, Prob.cross_comm]
    ring
  unfold StreamingCovariance.updateScatter
  rw [if_neg hpos]
  simp only [hnext, Nat.cast_add, Nat.cast_one]
  rw [foldl_upperPairs
    (v := fun a b => (x a - m a) * (x b - m b) * (l.length / (l.length + 1)))
    (fun a b => by ring) hsymm fun m2 e h => scatterWrite_eq m x _ m2 e h]
  refine ⟨fun a => ?_, fun a b => ?_⟩
  · rw [Prob.mean_concat hl, hm]
  · show m2 a b + (x a - m a) * (x b - m b) * _ = _
    rw [Prob.scatter_concat hl, hm2, hm, hm]

theorem observation_castSucc {y : Value} (hlen : row.length = ncols)
    (i : Fin ncols) : observation ncols (row, y) i.castSucc = (row.getD i none).getD 0 := by
  have hi : (i : Nat) < row.length := hlen ▸ i.isLt
  simp [observation, List.getD_eq_getElem?_getD, List.getElem?_append_left hi]

theorem observation_last {v : ℚ} (hlen : row.length = ncols) :
    observation ncols (row, some v) (Fin.last ncols) = v := by
  simp [observation, List.getD_eq_getElem?_getD, hlen ▸ List.getElem?_concat_length]

/-- **A row that does not fit, or comes after the last count, is refused without a change.** -/
theorem appendRow_refused
    (h : ¬ (RowFits ncols r ∧ s.joint.n ≠ u64Max)) : ∃ e, s.appendRow r.1 r.2 = (s, .error e) := by
  obtain ⟨row, y⟩ := r
  unfold LinearOlsSuffStats.appendRow
  by_cases hlen : row.length = ncols
  swap
  · exact ⟨_, if_pos hlen⟩
  rw [if_neg (not_not.mpr hlen)]
  by_cases hrow : ∀ v ∈ row, v.isSome
  swap
  · rw [finiteEntries_none hrow]
    exact ⟨_, rfl⟩
  rw [finiteEntries_some hrow]
  cases y with
  | none => exact ⟨_, rfl⟩
  | some v =>
    have hmax : s.joint.n = u64Max := not_not.mp fun hne => h ⟨⟨hlen, hrow, rfl⟩, hne⟩
    have hjoint : ∀ w ∈ row ++ [some v], w.isSome := by
      simpa [or_imp, forall_and] using hrow
    simp [StreamingCovariance.append, hlen, finiteEntries_some hjoint, hmax]

theorem joint_append {s : StreamingCovariance (ncols + 1)}
    {v : ℚ} (hrow : RowFits ncols (row, some v)) (hn : s.n = l.length)
    (hlt : l.length < u64Max) (hm : ∀ a, s.mean a = mean l a)
    (hm2 : ∀ a b, s.m2 a b = scatter l a b) :
    ∃ s', s.append (row ++ [some v]) = (s', .ok ()) ∧ s'.n = l.length + 1 ∧
      (∀ a, s'.mean a = mean (l ++ [observation ncols (row, some v)]) a) ∧
      ∀ a b, s'.m2 a b = scatter (l ++ [observation ncols (row, some v)]) a b := by
  obtain ⟨hlen, hfin, -⟩ := hrow
  have hjoint : ∀ w ∈ row ++ [some v], w.isSome := by
    simpa [or_imp, forall_and] using hfin
  have hjlen : (row ++ [some v]).length = ncols + 1 := by rw [List.length_append, hlen]; rfl
  unfold StreamingCovariance.append
  rw [if_neg (not_not.mpr hjlen), finiteEntries_some hjoint]
  simp only [hn, if_neg hlt.ne]
  by_cases hzero : l.length = 0
  · -- the first observation is the mean
    obtain rfl : l = [] := List.length_eq_zero_iff.mp hzero
    refine ⟨_, if_pos rfl, rfl, fun a => ?_, fun a b => ?_⟩
    · rw [List.nil_append, Prob.mean_singleton]
      rfl
    · rw [List.nil_append, Prob.scatter_singleton]
      exact hm2 a b
  · have hne : l ≠ [] := fun h => hzero (h ▸ rfl)
    obtain ⟨hmean, hscatter⟩ :=
      updateScatter_spec hne hlt hm hm2 (observation ncols (row, some v))
    exact ⟨_, if_neg hzero, rfl, hmean, hscatter⟩

/-- **A row that fits is taken by all components.** -/
theorem appendRow_taken
    (hs : Summarizes s l) (hr : RowFits ncols r) (hlt : l.length < u64Max) :
    ∃ s', s.appendRow r.1 r.2 = (s', .ok ()) ∧ Summarizes s' (l ++ [observation ncols r]) := by
  obtain ⟨row, y⟩ := r
  obtain ⟨hlen, hfin, hy⟩ := id hr
  obtain ⟨v, rfl⟩ := Option.isSome_iff_exists.mp hy
  obtain ⟨joint, hjoint, hjn, hmean, hscatter⟩ :=
    joint_append hr hs.jointN hlt hs.mean hs.scatter
  have hcount : (l ++ [observation ncols (row, some v)]).length = l.length + 1 := by simp
  unfold LinearOlsSuffStats.appendRow
  rw [if_neg (not_not.mpr hlen), finiteEntries_some hfin]
  simp only [hjoint]
  refine ⟨_, rfl, ?_, hjn.trans hcount.symm, hcount ▸ hlt, fun i j => ?_, fun i => ?_, ?_, hmean,
    hscatter⟩
  · show satAdd s.n 1 = _
    rw [hcount, satAdd, hs.n]
    omega
  · show (upperPairs ncols).foldl _ s.xtx i j = _
    rw [foldl_upperPairs
      (v := fun a b => (row.getD a none).getD 0 * (row.getD b none).getD 0)
      (fun a b => mul_comm _ _) (fun a b => by rw [hs.xtx, hs.xtx, Prob.cross_comm])
      fun m e _ => gramWrite_eq _ m e]
    show s.xtx i j + _ = _
    rw [Prob.cross_concat, observation_castSucc hlen, observation_castSucc hlen, hs.xtx]
  · show s.xty i + (row.getD i none).getD 0 * v = _
    rw [Prob.cross_concat, observation_castSucc hlen, observation_last hlen, hs.xty]
  · show s.yty + v * v = _
    rw [Prob.cross_concat, observation_last hlen, hs.yty]

end Rows

/-! ## Batches -/

namespace LinearOlsSuffStats

variable {ncols : Nat} {s : LinearOlsSuffStats ncols} {l : List (Fin (ncols + 1) → ℚ)}

/-- The shape `append_batch` asks for. -/
def WellShaped (ncols : Nat) (rows y : List Value) : Prop :=
  ncols ≠ 0 ∧ rows.length % ncols = 0 ∧ y.length = rows.length / ncols

def Call.rows (ncols : Nat) : Call → List (List Value × Value)
  | .appendRow row y => [(row, y)]
  | .appendBatch rows y => batchRows ncols rows y

/-- A batch whose first row fits, and a later row of which does not, or comes after the last
count. -/
def Torn (s : LinearOlsSuffStats ncols) : Call → Prop
  | .appendRow _ _ => False
  | .appendBatch rows y => WellShaped ncols rows y ∧ ∃ r rest, batchRows ncols rows y = r :: rest ∧
      RowFits ncols r ∧ s.n < u64Max ∧
      ((∃ r' ∈ rest, ¬ RowFits ncols r') ∨ u64Max < s.n + (rest.length + 1))

def accepted : LinearOlsSuffStats ncols → List Call → List (Fin (ncols + 1) → ℚ)
  | _, [] => []
  | s, c :: rest =>
    match s.call c with
    | (s', .ok ()) => (c.rows ncols).map (observation ncols) ++ accepted s' rest
    | (s', .error _) => accepted s' rest

/-- After every prefix of the calls the statistics are those of the accepted rows, and no refused
call changes them. -/
def Exact (ncols : Nat) (calls : List Call) : Prop :=
  ∀ before after, calls = before ++ after →
    Summarizes ((new ncols).run before) (accepted (new ncols) before) ∧
    ∀ c rest, after = c :: rest → ∀ e, (((new ncols).run before).call c).2 = .error e →
      (((new ncols).run before).call c).1 = (new ncols).run before

/-- **The loop of a batch** takes all its rows, or those before the first that is refused. -/
theorem appendRows_spec : ∀ (rs : List (List Value × Value)) {s : LinearOlsSuffStats ncols}
    {l : List (Fin (ncols + 1) → ℚ)}, Summarizes s l →
    ((∀ r ∈ rs, RowFits ncols r) ∧ l.length + rs.length ≤ u64Max →
      ∃ s', appendRows rs s = (s', .ok ()) ∧ Summarizes s' (l ++ rs.map (observation ncols))) ∧
    (¬ ((∀ r ∈ rs, RowFits ncols r) ∧ l.length + rs.length ≤ u64Max) →
      ∃ s' e k, appendRows rs s = (s', .error e) ∧
        Summarizes s' (l ++ (rs.take k).map (observation ncols)) ∧ k ≤ rs.length ∧
        (k = 0 → s' = s) ∧ (k = 0 ↔ ∀ r ∈ rs.head?, ¬ (RowFits ncols r ∧ l.length < u64Max)))
  | [], s, l, hs => by
    have hfit := hs.fits
    refine ⟨fun _ => ⟨s, rfl, by simpa using hs⟩, fun h => absurd ⟨?_, ?_⟩ h⟩
    · exact fun _ hr => absurd hr List.not_mem_nil
    · simpa using hfit
  | r :: rs, s, l, hs => by
    by_cases hr : RowFits ncols r ∧ l.length < u64Max
    · obtain ⟨s₁, happ, hs₁⟩ := appendRow_taken hs hr.1 hr.2
      obtain ⟨hok, herr⟩ := appendRows_spec rs hs₁
      have hrun : appendRows (r :: rs) s = appendRows rs s₁ := by rw [appendRows, happ]
      have hiff : ((∀ r' ∈ r :: rs, RowFits ncols r') ∧ l.length + (r :: rs).length ≤ u64Max) ↔
          (∀ r' ∈ rs, RowFits ncols r') ∧
            (l ++ [observation ncols r]).length + rs.length ≤ u64Max := by
        rw [List.forall_mem_cons, List.length_append, List.length_singleton, List.length_cons]
        refine and_congr ⟨fun h => h.2, fun h => ⟨hr.1, h⟩⟩ ?_
        omega
      rw [hiff, hrun]
      refine ⟨fun h => ?_, fun h => ?_⟩
      · obtain ⟨s', hs', hsum⟩ := hok h
        exact ⟨s', hs', by rwa [List.append_assoc] at hsum⟩
      · obtain ⟨s', e, k, hs', hsum, hk, -, -⟩ := herr h
        refine ⟨s', e, k + 1, hs', by rwa [List.append_assoc] at hsum, ?_, ?_, ?_⟩
        · exact Nat.succ_le_succ hk
        · exact fun h => absurd h (Nat.succ_ne_zero k)
        · exact iff_of_false (Nat.succ_ne_zero k) fun h => h r rfl hr
    · have hne : ¬ (RowFits ncols r ∧ s.joint.n ≠ u64Max) := fun h =>
        hr ⟨h.1, lt_of_le_of_ne hs.fits (hs.jointN ▸ h.2)⟩
      obtain ⟨e, happ⟩ := appendRow_refused hne
      have hrun : appendRows (r :: rs) s = (s, .error e) := by rw [appendRows, happ]
      refine ⟨fun h => ?_, fun _ => ?_⟩
      · have hroom := h.2
        rw [List.length_cons] at hroom
        exact absurd ⟨h.1 r (.head _), by omega⟩ hr
      · refine ⟨s, e, 0, hrun, by simpa using hs, Nat.zero_le _, fun _ => rfl, ?_⟩
        refine iff_of_true rfl fun r' hr' => ?_
        cases hr'
        exact hr

/-- **A call** is taken whole, or refused without a change, or a torn batch. -/
theorem call_spec (hs : Summarizes s l) (c : Call) :
    (¬ s.Torn c ∧ ∃ s', s.call c = (s', .ok ()) ∧
        Summarizes s' (l ++ (c.rows ncols).map (observation ncols))) ∨
      (¬ s.Torn c ∧ ∃ e, s.call c = (s, .error e)) ∨
      (s.Torn c ∧ ∃ s' e, s.call c = (s', .error e) ∧ s' ≠ s) := by
  cases c with
  | appendRow row y =>
    by_cases hr : RowFits ncols (row, y) ∧ l.length < u64Max
    · exact Or.inl ⟨id, appendRow_taken hs hr.1 hr.2⟩
    · refine Or.inr (Or.inl ⟨id, appendRow_refused (r := (row, y)) fun h => hr ⟨h.1, ?_⟩⟩)
      exact lt_of_le_of_ne hs.fits (hs.jointN ▸ h.2)
  | appendBatch rows y =>
    show (_ ∧ ∃ s', s.appendBatch rows y = _ ∧ _) ∨ (_ ∧ ∃ e, s.appendBatch rows y = _) ∨
      (_ ∧ ∃ s' e, s.appendBatch rows y = _ ∧ _)
    by_cases hshape : WellShaped ncols rows y
    swap
    · refine Or.inr (Or.inl ⟨fun h => hshape h.1, ?_⟩)
      unfold appendBatch
      split_ifs with h₁ h₂ h₃
      · exact ⟨_, rfl⟩
      · exact ⟨_, rfl⟩
      · exact ⟨_, rfl⟩
      · exact absurd ⟨h₁, not_not.mp h₂, not_not.mp h₃⟩ hshape
    have hbatch : s.appendBatch rows y = appendRows (batchRows ncols rows y) s := by
      obtain ⟨h₁, h₂, h₃⟩ := hshape
      rw [appendBatch, if_neg h₁, if_neg (not_not.mpr h₂), if_neg (not_not.mpr h₃)]
    rw [hbatch]
    obtain ⟨hok, herr⟩ := appendRows_spec (batchRows ncols rows y) hs
    by_cases hall : (∀ r ∈ batchRows ncols rows y, RowFits ncols r) ∧
        l.length + (batchRows ncols rows y).length ≤ u64Max
    · refine Or.inl ⟨?_, hok hall⟩
      rintro ⟨-, r, rest, hrows, -, -, ⟨r', hr', hbad⟩ | hmany⟩
      · exact hbad (hall.1 r' (hrows ▸ List.mem_cons_of_mem _ hr'))
      · have hle := hall.2
        rw [hrows, List.length_cons, ← hs.n] at hle
        omega
    · obtain ⟨s', e, k, hcall, hsum, hk, hzero, hfirst⟩ := herr hall
      by_cases hk0 : k = 0
      · refine Or.inr (Or.inl ⟨?_, e, by rw [hcall, hzero hk0]⟩)
        rintro ⟨-, r, rest, hrows, hfits, hlt, -⟩
        exact hfirst.mp hk0 r (by rw [hrows]; rfl) ⟨hfits, hs.n ▸ hlt⟩
      · refine Or.inr (Or.inr ⟨⟨hshape, ?_⟩, s', e, hcall, fun heq => ?_⟩)
        · cases hrows : batchRows ncols rows y with
          | nil =>
            rw [hrows] at hk
            exact absurd (Nat.le_zero.mp hk) hk0
          | cons r rest =>
            rw [hrows] at hfirst hall
            obtain ⟨hfits, hlt⟩ : RowFits ncols r ∧ l.length < u64Max := by
              by_contra hno
              exact hk0 (hfirst.mpr fun r' hr' => by cases hr'; exact hno)
            refine ⟨r, rest, rfl, hfits, hs.n ▸ hlt, ?_⟩
            by_contra hnone
            obtain ⟨hgood, hfew⟩ := not_or.mp hnone
            refine hall ⟨List.forall_mem_cons.mpr ⟨hfits, fun r' hr' => ?_⟩, ?_⟩
            · exact not_not.mp fun hbad => hgood ⟨r', hr', hbad⟩
            · rw [List.length_cons, ← hs.n]
              omega
        · -- the rows before the refused one were counted
          have hcount := hsum.n
          rw [heq, hs.n, List.length_append, List.length_map, List.length_take] at hcount
          omega

theorem run_summarizes : ∀ (calls : List Call) {s : LinearOlsSuffStats ncols}
    {l : List (Fin (ncols + 1) → ℚ)}, Summarizes s l →
    (∀ before c rest, calls = before ++ c :: rest → ¬ (s.run before).Torn c) →
    Summarizes (s.run calls) (l ++ accepted s calls)
  | [], s, l, hs, _ => by simpa [run, accepted] using hs
  | c :: calls, s, l, hs, hwhole => by
    have hrest : ∀ before d rest, calls = before ++ d :: rest →
        ¬ ((s.call c).1.run before).Torn d := fun before d rest h =>
      hwhole (c :: before) d rest (by rw [h]; rfl)
    have hrun : s.run (c :: calls) = (s.call c).1.run calls := rfl
    rw [hrun]
    rcases call_spec hs c with ⟨-, s', hc, hs'⟩ | ⟨-, e, hc⟩ | ⟨ht, -⟩
    · rw [hc] at hrest ⊢
      have := run_summarizes calls hs' hrest
      simpa only [accepted, hc, List.append_assoc] using this
    · rw [hc] at hrest ⊢
      have := run_summarizes calls hs hrest
      simpa only [accepted, hc] using this
    · exact absurd ht (hwhole [] c calls rfl)

/-- **The statistics are exact at every prefix if and only if no call is torn.** -/
theorem suffStats_exact_iff (calls : List Call) : Exact ncols calls ↔
    ∀ before c rest, calls = before ++ c :: rest → ¬ ((new ncols).run before).Torn c := by
  constructor
  · intro h before c rest hcalls ht
    obtain ⟨hsum, hatomic⟩ := h before (c :: rest) hcalls
    rcases call_spec hsum c with ⟨hno, -⟩ | ⟨hno, -⟩ | ⟨-, s', e, hc, hne⟩
    · exact hno ht
    · exact hno ht
    · have := hatomic c rest rfl e (by rw [hc])
      rw [hc] at this
      exact hne this
  · intro h before after hcalls
    have hsum := run_summarizes before summarizes_new fun b c rest hb =>
      h b c (rest ++ after) (by rw [hcalls, hb, List.append_assoc, List.cons_append])
    refine ⟨hsum, fun c rest hafter e he => ?_⟩
    rcases call_spec hsum c with ⟨-, s', hc, -⟩ | ⟨-, e', hc⟩ | ⟨ht, -⟩
    · rw [hc] at he
      cases he
    · rw [hc]
    · exact absurd ht (h before c rest (by rw [hcalls, hafter]))

/-- A batch of two rows, the second with a predictor that is not finite. -/
theorem suffStats_torn_batch : ¬ ∀ (ncols : Nat) (calls : List Call), Exact ncols calls := by
  intro h
  have hbatch := (h 1 [.appendBatch [some 1, none] [some 1, some 1]]) [] _ rfl
  have hn := congrArg LinearOlsSuffStats.n
    (hbatch.2 _ [] rfl (.numerical "design row and response must be finite") (by decide))
  revert hn
  decide

end LinearOlsSuffStats

end Antecedent.State
