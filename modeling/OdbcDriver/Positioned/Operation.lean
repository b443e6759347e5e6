import Mathlib.Data.Option.Basic
import Mathlib.Data.List.Basic

/-!
# `SQLSetPos` and `SQLBulkOperations`

A positioned operation goes over rows and calls `SC_pos_update`, `SC_pos_add` and the like for
each of them. When one of these returns `SQL_NEED_DATA`, the rest of the operation is queued as a
callback of the statement, behind the callback of the row; both run when `SQLParamData` has the
row executed. `SQLCancel` ends the wait for data.

What the calls for a row do is left to the result of the row. Of `transact_status`, the bits that
`CC_does_autocommit` reads are kept.
-/

namespace OdbcDriver

/-! ### The connection -/

/-- `transact_status`: `CONN_IN_AUTOCOMMIT` and `CONN_IN_MANUAL_TRANSACTION`. -/
structure TransactStatus where
  autocommit : Bool
  manual : Bool
  deriving DecidableEq, Repr

/-- `CC_does_autocommit`. -/
def CC_does_autocommit (conn : TransactStatus) : Bool := conn.autocommit && !conn.manual

/-- `CC_set_autocommit`. -/
def CC_set_autocommit (conn : TransactStatus) (on : Bool) : TransactStatus :=
  if on = conn.autocommit then conn else { conn with autocommit := on }

@[simp]
theorem CC_set_autocommit_autocommit (conn : TransactStatus) (on : Bool) :
    (CC_set_autocommit conn on).autocommit = on := by
  unfold CC_set_autocommit
  split
  · rename_i h
    exact h.symm
  · rfl

/-! ### The operations -/

/-- The return codes other than `SQL_NEED_DATA`. -/
inductive RetCode
  | success | successWithInfo | noData | error
  deriving DecidableEq, Repr

/-- `SQL_SUCCEEDED`. -/
def RetCode.succeeded : RetCode → Bool
  | .success | .successWithInfo => true
  | _ => false

/-- What the call for a row comes to. -/
inductive RowResult
  | done (ret : RetCode)
  /-- `SQL_NEED_DATA`, and what the queued callback of the row makes of the code that the
  execution returns. -/
  | needData (callback : RetCode → RetCode)

/-- The operations of `SQLSetPos`. -/
inductive SetPosOption
  | position | refresh | update | delete | add
  deriving DecidableEq, Repr

/-- The operations of `SQLBulkOperations`. -/
inductive BulkOperation
  | add | updateByBookmark | deleteByBookmark | fetchByBookmark
  deriving DecidableEq, Repr

/-- A call of `PGAPI_SetPos`, with what it finds. -/
structure SetPosCall where
  irow : Nat
  fOption : SetPosOption
  /-- The concurrency is `SQL_CONCUR_READ_ONLY`. -/
  readOnly : Bool
  /-- There is a current result. -/
  curres : Bool
  rowsetSize : Nat
  last_fetch_count : Nat
  /-- The rows of the result from the start of the rowset on: is it in the rowset? -/
  rows : List Bool
  /-- `row_operation_ptr` does not tell to ignore the row. -/
  proceed : Nat → Bool
  /-- What the call for the row at an index comes to. -/
  outcome : Nat → RowResult

/-- `spos_cdata`. -/
structure SposData where
  auto_commit_needed : Bool
  start_row : Nat
  end_row : Int
  idx : Nat
  nrow : Nat
  processed : Nat

/-- A call of `PGAPI_BulkOperations`, with what it finds. -/
structure BulkCall where
  operation : BulkOperation
  /-- A bookmark is bound. -/
  bookmark : Bool
  size_of_rowset : Nat
  /-- What `SC_fetch_by_bookmark` returns. -/
  fetched : RetCode
  outcome : Nat → RowResult

/-- `bop_cdata`. -/
structure BopData where
  auto_commit_needed : Bool
  idx : Nat
  processed : Nat

/-- How a loop over rows ends: at its end, or where data are needed. -/
inductive LoopEnd (δ : Type)
  | finished (ret : RetCode) (data : δ)
  | needData (callback : RetCode → RetCode) (data : δ)

/-- The row at an index: in the rowset or not, or none. -/
def SetPosCall.rowAt (call : SetPosCall) (idx : Nat) : Option Bool :=
  if call.fOption = .add then some true else call.rows[idx]?

/-- The row is operated on. -/
def SetPosCall.operates (call : SetPosCall) (s : SposData) : Bool :=
  s.start_row ≤ s.nrow && (call.irow ≠ 0 || call.proceed s.nrow)

/-- The call for the row; `SQL_POSITION` makes none. -/
def SetPosCall.operate (call : SetPosCall) (idx : Nat) (ret : RetCode) : RowResult :=
  if call.fOption = .position then .done ret else call.outcome idx

/-- The loop of `spos_callback`. -/
def spos_loop (call : SetPosCall) (s : SposData) (ret : RetCode) : LoopEnd SposData :=
  if h : ret = .error ∨ s.end_row < s.nrow then .finished ret s
  else
    match hrow : call.rowAt s.idx with
    | none => .finished ret s
    | some false => spos_loop call { s with idx := s.idx + 1 } ret
    | some true =>
      if call.operates s then
        match call.operate s.idx ret with
        | .needData callback => .needData callback s
        | .done .error => .finished .error { s with processed := s.processed + 1, idx := s.idx + 1 }
        | .done r =>
          spos_loop call
            { s with processed := s.processed + 1, nrow := s.nrow + 1, idx := s.idx + 1 } r
      else spos_loop call { s with nrow := s.nrow + 1, idx := s.idx + 1 } ret
  termination_by (s.end_row + 1 - s.nrow).toNat + (call.rows.length - s.idx)
  decreasing_by
    · have hidx : s.idx < call.rows.length := by
        unfold SetPosCall.rowAt at hrow
        split at hrow
        · cases hrow
        · exact (List.getElem?_eq_some_iff.mp hrow).1
      omega
    · omega
    · omega

/-- The loop of `bulk_ope_callback`, with `n` rows to go. -/
def bulk_loop (call : BulkCall) : Nat → BopData → RetCode → LoopEnd BopData
  | 0, s, ret => .finished ret s
  | n + 1, s, ret =>
    if ret = .error then .finished ret s
    else
      match call.outcome s.idx with
      | .needData callback => .needData callback s
      | .done r =>
        bulk_loop call n { s with processed := s.processed + 1, idx := s.idx + 1 } r

/-! ### The statement -/

/-- A callback in the queue of a statement. -/
inductive Callback
  /-- `pos_update_callback`, `pos_add_callback` -/
  | row (callback : RetCode → RetCode)
  /-- `spos_callback` -/
  | spos (call : SetPosCall) (data : SposData)
  /-- `bulk_ope_callback` -/
  | bulk (call : BulkCall) (data : BopData)

/-- The statement that executes for another one. -/
structure Delegate where
  /-- It waits for data: `data_at_exec >= 0`. -/
  waiting : Bool
  callbacks : List Callback

/-- The connection, and what a statement keeps of its positioned operations. -/
structure PosState where
  conn : TransactStatus
  callbacks : List Callback
  execute_delegate : Option Delegate

/-- Data are needed: the statement waits in `SQLParamData`. -/
def PosState.waiting (st : PosState) : Bool := st.execute_delegate.any (·.waiting)

/-- `SQL_NEED_DATA`: the callback of the row and that of the operation are queued. -/
def PosState.enqueue (st : PosState) (row : RetCode → RetCode) (operation : Callback) :
    PosState where
  conn := st.conn
  callbacks := st.callbacks ++ [.row row, operation]
  execute_delegate := some ⟨true, []⟩

/-- The end of an operation: autocommit is switched on when it has been switched off. -/
def PosState.restore (st : PosState) (auto_commit_needed : Bool) : PosState :=
  if auto_commit_needed then { st with conn := CC_set_autocommit st.conn true } else st

/-- `spos_callback` from its loop on. The result is `none` for `SQL_NEED_DATA`, and with the code
comes the number of rows processed. -/
def spos_run (call : SetPosCall) (s : SposData) (ret : RetCode) (st : PosState) :
    PosState × Option (RetCode × Nat) :=
  match spos_loop call s ret with
  | .finished ret s => (st.restore s.auto_commit_needed, some (ret, s.processed))
  | .needData callback s => (st.enqueue callback (.spos call s), none)

/-- `bulk_ope_callback` from its loop on. -/
def bulk_run (call : BulkCall) (s : BopData) (ret : RetCode) (st : PosState) :
    PosState × Option (RetCode × Nat) :=
  match bulk_loop call (call.size_of_rowset - s.idx) s ret with
  | .finished ret s => (st.restore s.auto_commit_needed, some (ret, s.processed))
  | .needData callback s => (st.enqueue callback (.bulk call s), none)

/-- A queued callback, called with the code of what came before it. -/
def Callback.run (st : PosState) (ret : RetCode) : Callback → PosState × Option (RetCode × Nat)
  | .row callback => ({ st with execute_delegate := none }, some (callback ret, 0))
  | .spos call s =>
    let s := { s with processed := s.processed + 1 }
    spos_run call (if ret = .error then s else { s with nrow := s.nrow + 1, idx := s.idx + 1 })
      ret st
  | .bulk call s =>
    bulk_run call { s with processed := s.processed + 1, idx := s.idx + 1 } ret st

/-- `dequeueNeedDataCallback`. -/
def dequeueNeedDataCallback : List Callback → PosState → RetCode → PosState × Option RetCode
  | [], st, ret => (st, some ret)
  | callback :: callbacks, st, ret =>
    match callback.run { st with callbacks := callbacks } ret with
    | (st, none) => (st, none)
    | (st, some (ret, _)) => dequeueNeedDataCallback callbacks st ret

/-- `PGAPI_SetPos`. -/
def PGAPI_SetPos (call : SetPosCall) (st : PosState) : PosState × Option RetCode :=
  if call.readOnly ∧ call.fOption ≠ .position ∧ call.fOption ≠ .refresh then (st, some .error)
  else if !call.curres then (st, some .error)
  else if call.irow = 0 ∧ call.fOption = .position then (st, some .error)
  else if call.irow ≠ 0 ∧ call.fOption ≠ .add ∧ call.last_fetch_count < call.irow then
    (st, some .error)
  else
    let switches := call.fOption = .update ∨ call.fOption = .delete ∨ call.fOption = .add
    let auto_commit_needed := decide switches && CC_does_autocommit st.conn
    let st := if auto_commit_needed then { st with conn := CC_set_autocommit st.conn false } else st
    let s : SposData :=
      { auto_commit_needed := auto_commit_needed
        start_row := call.irow - 1
        end_row := if call.irow = 0 then call.rowsetSize - 1 else call.irow - 1
        idx := 0
        nrow := 0
        processed := 0 }
    match spos_run call s .success st with
    | (st, none) => (st, none)
    | (st, some (ret, processed)) =>
      (st, some (if ret.succeeded ∧ processed = 0 then .error else ret))

/-- `PGAPI_BulkOperations`. -/
def PGAPI_BulkOperations (call : BulkCall) (st : PosState) : PosState × Option RetCode :=
  let auto_commit_needed := call.operation ≠ .fetchByBookmark && CC_does_autocommit st.conn
  let st := if auto_commit_needed then { st with conn := CC_set_autocommit st.conn false } else st
  if call.operation ≠ .add ∧ !call.bookmark then (st, some .error)
  else if call.operation = .fetchByBookmark then (st, some call.fetched)
  else
    match bulk_run call ⟨auto_commit_needed, 0, 0⟩ .success st with
    | (st, none) => (st, none)
    | (st, some (ret, _)) => (st, some ret)

/-- `cancelNeedDataState`, of the statement that waits for data: the delegate. -/
def PGAPI_Cancel (st : PosState) : PosState :=
  match st.execute_delegate with
  | some d => if d.waiting then { st with execute_delegate := some ⟨false, []⟩ } else st
  | none => st

/-- `SQLFreeStmt(SQL_CLOSE)`, which recycles the statement with its callbacks. -/
def SC_recycle_statement (st : PosState) : PosState :=
  { st with callbacks := [], execute_delegate := none }

/-- `PGAPI_ParamData`, when it executes the row with the code `ret`. -/
def PGAPI_ParamData (ret : RetCode) (st : PosState) : PosState × Option RetCode :=
  if st.waiting then
    dequeueNeedDataCallback st.callbacks { st with execute_delegate := some ⟨false, []⟩ } ret
  else (st, some .error)

end OdbcDriver
