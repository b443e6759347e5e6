import OdbcDriver.Param.Batch
import OdbcDriver.Param.BindRules

/-!
# Building a batch, row by row

When every parameter is sent, a row of the batch has the entries that the row has on its own,
and the batch is its executed rows written one after the other. A batch that leaves output
parameters out has holes in its arrays.
-/

namespace OdbcDriver

open Lib

/-! ### The arrays -/

section Arrays

variable {stride : Nat}

/-- The parameters of a row from number `i` on are written. -/
def BatchArgs.writeAll (stride : Nat) (b : BatchArgs) (i : Nat) : List BindParam → BatchArgs
  | [] => b
  | e :: es => (b.write stride i e).writeAll stride (i + 1) es

@[simp]
theorem writeAll_nBatchCount (b : BatchArgs) (i : Nat) (es : List BindParam) :
    (b.writeAll stride i es).nBatchCount = b.nBatchCount := by
  induction es generalizing b i with
  | nil => rfl
  | cons e es ih => exact (ih _ _).trans rfl

@[simp]
theorem writeAll_resultFormat (b : BatchArgs) (i : Nat) (es : List BindParam) :
    (b.writeAll stride i es).resultFormat = b.resultFormat := by
  induction es generalizing b i with
  | nil => rfl
  | cons e es ih => exact (ih _ _).trans rfl

/-- Counting parameters writes none. -/
theorem writeAll_nParams (b : BatchArgs) (i m : Nat) (es : List BindParam) :
    ({ b with nParams := m } : BatchArgs).writeAll stride i es =
      { b.writeAll stride i es with nParams := m } := by
  induction es generalizing b i with
  | nil => rfl
  | cons e es ih => exact ih (b.write stride i e) (i + 1)

/-- What comes before the parameters written stays. -/
theorem writeAll_before (b : BatchArgs) (i : Nat) (es : List BindParam) :
    (∀ a < b.nBatchCount * stride + i,
      (b.writeAll stride i es).paramValues a = b.paramValues a ∧
        (b.writeAll stride i es).paramLengths a = b.paramLengths a) ∧
      ∀ j < i, (b.writeAll stride i es).paramTypes j = b.paramTypes j ∧
        (b.writeAll stride i es).paramFormats j = b.paramFormats j := by
  induction es generalizing b i with
  | nil => exact ⟨fun _ _ => ⟨rfl, rfl⟩, fun _ _ => ⟨rfl, rfl⟩⟩
  | cons e es ih =>
    obtain ⟨hvalues, htypes⟩ := ih (b.write stride i e) (i + 1)
    constructor
    · intro a ha
      obtain ⟨hv, hl⟩ := hvalues a (by change a < b.nBatchCount * stride + (i + 1); omega)
      have hne : a ≠ b.nBatchCount * stride + i := by omega
      exact ⟨hv.trans (Function.update_of_ne hne _ _), hl.trans (Function.update_of_ne hne _ _)⟩
    · intro j hj
      obtain ⟨ht, hf⟩ := htypes j (by omega)
      have hne : j ≠ i := by omega
      exact ⟨ht.trans (Function.update_of_ne hne _ _), hf.trans (Function.update_of_ne hne _ _)⟩

/-- The parameters written are there. -/
theorem writeAll_at (b : BatchArgs) (i : Nat) {es : List BindParam} {j : Nat} {e : BindParam}
    (he : es[j]? = some e) :
    (b.writeAll stride i es).paramValues (b.nBatchCount * stride + (i + j)) = e.paramValue ∧
      (b.writeAll stride i es).paramLengths (b.nBatchCount * stride + (i + j)) =
        some e.paramLength ∧
      (b.writeAll stride i es).paramTypes (i + j) = some e.paramType ∧
      (b.writeAll stride i es).paramFormats (i + j) = some e.paramFormat := by
  induction es generalizing b i j with
  | nil => cases he
  | cons e' es ih =>
    cases j with
    | zero =>
      obtain rfl : e' = e := by simpa using he
      obtain ⟨hvalues, htypes⟩ := @writeAll_before stride (b.write stride i e') (i + 1) es
      obtain ⟨hv, hl⟩ := hvalues (b.nBatchCount * stride + i)
        (by change _ < b.nBatchCount * stride + (i + 1); omega)
      obtain ⟨ht, hf⟩ := htypes i (by omega)
      refine ⟨hv.trans ?_, hl.trans ?_, ht.trans ?_, hf.trans ?_⟩ <;>
        exact Function.update_self _ _ _
    | succ j =>
      have h := ih (b.write stride i e') (i + 1) (by simpa using he)
      rwa [Nat.add_right_comm, Nat.add_assoc] at h

/-- A row is added to the batch. -/
def BatchArgs.addRow (stride : Nat) (b : BatchArgs) (es : List BindParam) : BatchArgs :=
  { b.writeAll stride 0 es with nParams := stride, nBatchCount := b.nBatchCount + 1 }

/-- The arrays hold the rows `ess`: values and lengths row by row, types and formats those of
the last row. -/
structure Holds (stride : Nat) (b : BatchArgs) (ess : List (List BindParam)) : Prop where
  nParams : b.nParams = stride
  nBatchCount : b.nBatchCount = ess.length
  resultFormat : b.resultFormat = 0
  values : ∀ k es, ess[k]? = some es → ∀ j e, es[j]? = some e →
    b.paramValues (k * stride + j) = e.paramValue ∧
      b.paramLengths (k * stride + j) = some e.paramLength
  types : ∀ es, ess.getLast? = some es → ∀ j e, es[j]? = some e →
    b.paramTypes j = some e.paramType ∧ b.paramFormats j = some e.paramFormat

/-- Adding a row to the batch keeps the rows before it. -/
theorem Holds.addRow {b : BatchArgs} {ess : List (List BindParam)} {es : List BindParam}
    (h : Holds stride b ess) (hess : ∀ es ∈ ess, es.length = stride) :
    Holds stride (b.addRow stride es) (ess ++ [es]) where
  nParams := rfl
  nBatchCount := by
    change b.nBatchCount + 1 = _
    rw [h.nBatchCount, List.length_append, List.length_singleton]
  resultFormat := (writeAll_resultFormat b 0 es).trans h.resultFormat
  values := by
    intro k es' hk j e he
    rcases Nat.lt_or_ge k ess.length with hlt | hge
    · rw [List.getElem?_append_left hlt] at hk
      have hj : j < stride := by
        rw [← hess es' (List.mem_of_getElem? hk)]
        exact (List.getElem?_eq_some_iff.mp he).1
      have hbefore : k * stride + j < b.nBatchCount * stride + 0 := by
        rw [h.nBatchCount]
        calc k * stride + j < k * stride + stride := by omega
          _ = (k + 1) * stride := (Nat.succ_mul k stride).symm
          _ ≤ ess.length * stride := Nat.mul_le_mul_right _ hlt
      obtain ⟨hv, hl⟩ := (@writeAll_before stride b 0 es).1 _ hbefore
      obtain ⟨hv', hl'⟩ := h.values k es' hk j e he
      exact ⟨hv.trans hv', hl.trans hl'⟩
    · rw [List.getElem?_append_right hge] at hk
      obtain ⟨hk0, rfl⟩ : k = ess.length ∧ es = es' := by
        cases hsub : k - ess.length with
        | zero => exact ⟨by omega, by simpa [hsub] using hk⟩
        | succ m => simp [hsub] at hk
      obtain ⟨hv, hl, -, -⟩ := @writeAll_at stride b 0 _ _ _ he
      rw [h.nBatchCount, Nat.zero_add] at hv hl
      rw [hk0]
      exact ⟨hv, hl⟩
  types := by
    intro es' hlast j e he
    obtain rfl : es = es' := by simpa using hlast
    obtain ⟨-, -, ht, hf⟩ := @writeAll_at stride b 0 _ _ _ he
    rw [Nat.zero_add] at ht hf
    exact ⟨ht, hf⟩

/-- A batch built row by row holds its rows. -/
theorem holds_foldl {b : BatchArgs} {ess₀ : List (List BindParam)} (h : Holds stride b ess₀)
    (hess₀ : ∀ es ∈ ess₀, es.length = stride) (ess : List (List BindParam))
    (hess : ∀ es ∈ ess, es.length = stride) :
    Holds stride (ess.foldl (BatchArgs.addRow stride) b) (ess₀ ++ ess) := by
  induction ess generalizing b ess₀ with
  | nil => simpa using h
  | cons es ess ih =>
    obtain ⟨hes, hess⟩ := List.forall_mem_cons.mp hess
    have hall : ∀ es' ∈ ess₀ ++ [es], es'.length = stride := by
      intro es' hmem
      rcases List.mem_append.mp hmem with hmem | hmem
      · exact hess₀ es' hmem
      · obtain rfl := List.mem_singleton.mp hmem
        exact hes
    have hnext := ih (h.addRow hess₀) hall hess
    rwa [List.append_assoc, List.singleton_append] at hnext

end Arrays

/-! ### Rows whose parameters are all sent -/

section Rows

variable {env : Env} {stmt : StatementClass} {row i k : Nat} {qb : QueryBuild}

/-- Every parameter is sent: there is no return value and no output parameter. -/
structure SendsAll (stmt : StatementClass) : Prop where
  proc_return : stmt.proc_return ≤ 0
  isOutput : ∀ i < stmt.num_params, isOutput stmt i = false

/-- What libpq is given for parameter `i` of a row. -/
def entryAt (env : Env) (stmt : StatementClass) (row i : Nat) : Except BindError BindParam :=
  resolveAt env stmt row i >>= bindEntry

/-- What libpq is given for a row whose parameters are all sent. -/
def rowEntries (env : Env) (stmt : StatementClass) (row : Nat) :
    Except BindError (List BindParam) :=
  (List.range stmt.num_params).mapM (entryAt env stmt row)

variable (env) in
/-- The loop of `build_libpq_bind_params` collects the entries. -/
theorem bindParam_loop (hall : SendsAll stmt) (hqb : qb.clear = queryAt stmt row i)
    (hi : i + k ≤ stmt.num_params) (ps : List BindParam) :
    ((List.range' i k).foldlM (bindParam env (stmt.atRow row)) (qb, ps)).map Prod.snd =
      ((List.range' i k).mapM (entryAt env stmt row)).map (ps ++ ·) := by
  induction k generalizing i qb ps with
  | zero => simp [Except.map]
  | succ k ih =>
    rw [List.range'_succ, List.foldlM_cons, List.mapM_cons]
    have hret : ¬ (i : Int) < stmt.proc_return := by have := hall.proc_return; omega
    have hout := hall.isOutput i (by omega)
    have hstep : bindParam env (stmt.atRow row) (qb, ps) i =
        resolveAt env stmt row i >>= fun r => bindEntry r >>= fun e =>
          .ok (r.qb, ps ++ [e]) := by
      unfold bindParam
      simp only [resolveNext_of_clear hqb, atRow_proc_return, isOutput_atRow, hret, hout,
        Bool.false_eq_true, if_false]
      rfl
    rw [hstep, entryAt]
    cases hr : resolveAt env stmt row i with
    | error e => rfl
    | ok r =>
      cases he : bindEntry r with
      | error e => simp [he, Except.map]
      | ok e =>
        have hnext := ih (resolveAt_next hr).1 (by omega) (ps ++ [e])
        simp only [ok_bind, he]
        rw [hnext]
        cases (List.range' (i + 1) k).mapM (entryAt env stmt row) <;> simp [Except.map]

/-- No parameter is discarded. -/
theorem num_discard_params_eq (hall : SendsAll stmt) : num_discard_params stmt = 0 := by
  have hcount : num_output_params stmt = 0 := by
    unfold num_output_params
    rw [List.countP_eq_zero]
    intro i hi
    rw [hall.isOutput i (by have := List.mem_range.mp hi; omega)]
    decide
  have hret := hall.proc_return
  unfold num_discard_params
  rw [hcount]
  split <;> dsimp only <;> split <;> omega

/-- A row on its own has its entries. -/
theorem build_libpq_bind_params_eq (hall : SendsAll stmt) (hpos : 0 < stmt.num_params)
    (halloc : stmt.num_params ≤ stmt.ipdopts.parameters.length) (row : Nat) :
    build_libpq_bind_params env (stmt.atRow row) =
      (rowEntries env stmt row).map fun es => ⟨es, 0⟩ := by
  have hloop := bindParam_loop env hall (bindQuery_atRow stmt row)
    (Nat.le_of_eq (Nat.zero_add _)) []
  rw [← List.range_eq_range'] at hloop
  have hbuild : build_libpq_bind_params env (stmt.atRow row) =
      (((List.range stmt.num_params).foldlM (bindParam env (stmt.atRow row))
        (bindQuery (stmt.atRow row), [])).map Prod.snd).map fun params => ⟨params, 0⟩ := by
    unfold build_libpq_bind_params
    simp only [atRow_num_params, atRow_ipdopts, num_discard_params_atRow,
      num_discard_params_eq hall]
    rw [if_neg (by omega), if_pos (by omega)]
    cases (List.range stmt.num_params).foldlM (bindParam env (stmt.atRow row))
      (bindQuery (stmt.atRow row), []) <;> rfl
  rw [hbuild, hloop]
  unfold rowEntries
  cases (List.range stmt.num_params).mapM (entryAt env stmt row) <;> rfl

variable (env) in
/-- An executed row of a batch has the entries that it has on its own. -/
theorem batchParam_loop (hall : SendsAll stmt) (huse : isIgnored stmt row = false)
    (hqb : qb.clear = queryAt stmt row i) (hi : i + k ≤ stmt.num_params) (b : BatchArgs)
    (p : Bool) :
    ((List.range' i k).foldlM (batchParam env stmt row) ⟨qb, b, p⟩).map
        (fun s => (s.args, s.paramproceed)) =
      ((List.range' i k).mapM (entryAt env stmt row)).map fun es =>
        ({ b.writeAll stmt.num_params i es with nParams := b.nParams + k }, p || k ≠ 0) := by
  induction k generalizing i qb b p with
  | zero => simp [Except.map, BatchArgs.writeAll]
  | succ k ih =>
    rw [List.range'_succ, List.foldlM_cons, List.mapM_cons]
    have hstep : batchParam env stmt row ⟨qb, b, p⟩ i =
        resolveAt env stmt row i >>= fun r => bindEntry r >>= fun e =>
          .ok ⟨r.qb, (b.write stmt.num_params i e).count, true⟩ := by
      unfold batchParam
      rw [hall.isOutput i (by omega), Bool.and_false, if_neg Bool.false_ne_true,
        resolveNext_of_clear hqb]
      simp only [huse, Bool.false_eq_true, if_false]
      rfl
    rw [hstep, entryAt]
    cases hr : resolveAt env stmt row i with
    | error e => rfl
    | ok r =>
      cases he : bindEntry r with
      | error e => simp [he, Except.map]
      | ok e =>
        have hnext := ih (resolveAt_next hr).1 (by omega) (b.write stmt.num_params i e).count true
        simp only [ok_bind, he]
        rw [hnext]
        cases (List.range' (i + 1) k).mapM (entryAt env stmt row) with
        | error e' => rfl
        | ok es =>
          have hwrite := @writeAll_nParams stmt.num_params (b.write stmt.num_params i e) (i + 1)
            (b.nParams + 1) es
          simp only [BatchArgs.write] at hwrite
          simp [Except.map, BatchArgs.count, BatchArgs.writeAll, BatchArgs.write, hwrite]
          omega

variable (env) in
/-- The parameters of an ignored row are resolved too, and counted. -/
theorem batchParam_loop_ignored (hall : SendsAll stmt) (hign : isIgnored stmt row = true)
    (hqb : qb.clear = queryAt stmt row i) (hi : i + k ≤ stmt.num_params) (b : BatchArgs)
    (p : Bool) :
    ((List.range' i k).foldlM (batchParam env stmt row) ⟨qb, b, p⟩).map
        (fun s => (s.args, s.paramproceed)) =
      ((List.range' i k).mapM (resolveAt env stmt row)).map fun _ =>
        ({ b with nParams := b.nParams + k }, p) := by
  induction k generalizing i qb b p with
  | zero => simp [Except.map]
  | succ k ih =>
    rw [List.range'_succ, List.foldlM_cons, List.mapM_cons]
    have hstep : batchParam env stmt row ⟨qb, b, p⟩ i =
        resolveAt env stmt row i >>= fun r => .ok ⟨r.qb, b.count, p⟩ := by
      unfold batchParam
      rw [hall.isOutput i (by omega), Bool.and_false, if_neg Bool.false_ne_true,
        resolveNext_of_clear hqb]
      simp only [hign, if_true]
      rfl
    rw [hstep]
    cases hr : resolveAt env stmt row i with
    | error e => rfl
    | ok r =>
      have hnext := ih (resolveAt_next hr).1 (by omega) b.count p
      simp only [ok_bind]
      rw [hnext]
      cases (List.range' (i + 1) k).mapM (resolveAt env stmt row) with
      | error e' => rfl
      | ok rs =>
        simp [Except.map, BatchArgs.count]
        omega

/-- A row of the batch, from the results of its loop. -/
theorem batchRow_of_loop {β : Type} {loop : Except BindError β} {f : β → BatchArgs × Bool}
    {b : BatchArgs}
    (hloop : ((List.range stmt.num_params).foldlM (batchParam env stmt row)
      ⟨bindQuery (stmt.atRow row), { b with nParams := 0 }, false⟩).map
        (fun s => (s.args, s.paramproceed)) = loop.map f) :
    batchRow env stmt b row = loop.map fun a =>
      if (f a).2 then { (f a).1 with nBatchCount := (f a).1.nBatchCount + 1 } else (f a).1 := by
  unfold batchRow
  cases hs : (List.range stmt.num_params).foldlM (batchParam env stmt row)
      ⟨bindQuery (stmt.atRow row), { b with nParams := 0 }, false⟩ with
  | error e =>
    rw [hs] at hloop
    cases loop with
    | error e' => simpa [Except.map] using hloop
    | ok a => cases hloop
  | ok s =>
    rw [hs] at hloop
    cases loop with
    | error e => cases hloop
    | ok a =>
      obtain ⟨hargs, hproceed⟩ : s.args = (f a).1 ∧ s.paramproceed = (f a).2 := by
        simpa [Except.map, Prod.ext_iff] using hloop
      simp only [ok_bind, hargs, hproceed]
      split <;> simp [Except.map, *]

/-- An executed row is added to the batch. -/
theorem batchRow_eq (hall : SendsAll stmt) (hpos : 0 < stmt.num_params)
    (huse : isIgnored stmt row = false) (b : BatchArgs) :
    batchRow env stmt b row =
      (rowEntries env stmt row).map (BatchArgs.addRow stmt.num_params b) := by
  have hloop := batchParam_loop env hall huse (bindQuery_atRow stmt row)
    (Nat.le_of_eq (Nat.zero_add _)) { b with nParams := 0 } false
  rw [← List.range_eq_range'] at hloop
  rw [batchRow_of_loop hloop]
  have hne : stmt.num_params ≠ 0 := by omega
  unfold rowEntries
  congr 1
  funext es
  simp [hne, writeAll_nParams, BatchArgs.addRow]

/-- An ignored row leaves the batch as it is, if it resolves. -/
theorem batchRow_ignored (hall : SendsAll stmt) (hign : isIgnored stmt row = true)
    (b : BatchArgs) :
    batchRow env stmt b row =
      ((List.range stmt.num_params).mapM (resolveAt env stmt row)).map fun _ =>
        { b with nParams := stmt.num_params } := by
  have hloop := batchParam_loop_ignored env hall hign (bindQuery_atRow stmt row)
    (Nat.le_of_eq (Nat.zero_add _)) { b with nParams := 0 } false
  rw [← List.range_eq_range'] at hloop
  rw [batchRow_of_loop hloop]
  congr 1
  funext rs
  simp

end Rows

end OdbcDriver
