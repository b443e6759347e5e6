import OdbcDriver.Lib.Run
import OdbcDriver.Param.Batch

/-!
# The rows of an execution

`PGAPI_Execute` walks over the rows of a parameter array. Where it has got to is kept in the
handle: the first row, the last row, and the current one, each -1 while it is not set. A batch
sends all rows in one request and moves these bounds itself. A row with data at execution
interrupts the walk until `PGAPI_ParamData` has the data, and goes on with it.

A request is known here by the rows it carries; what it says of each row's parameters is in
`OdbcDriver.Param.Bind` and `OdbcDriver.Param.Batch`.
-/

namespace OdbcDriver.Execute

/-! ### The calls -/

/-- What the server makes of a request, as `SC_execute` returns it. -/
inductive RowAnswer | success | successWithInfo | error
  deriving DecidableEq, Repr

/-- A request of an execution. -/
inductive Request
  /-- It cannot be made, and nothing is sent; `bound` says whether the rows of a batch have been
  gone through by then. -/
  | failed (bound : Bool)
  | answered (answer : RowAnswer)
  deriving DecidableEq, Repr

/-- The values of the parameter status array (`SQL_PARAM_...`). -/
inductive ParamStatus | success | successWithInfo | error | unused
  deriving DecidableEq, Repr

/-- The status of a row with that answer. -/
def RowAnswer.status : RowAnswer → ParamStatus
  | .success => .success
  | .successWithInfo => .successWithInfo
  | .error => .error

/-- An execution of the handle. -/
structure ExecuteCall where
  /-- The handle, with its parameter array. -/
  stmt : StatementClass
  /-- The text holds several commands. -/
  multi_statement : Bool
  /-- The server describes the parameters, where `prepareParameters` asks it to. -/
  described : Bool
  /-- The status array, `none` when there is none. -/
  param_status_ptr : Option (Nat → ParamStatus)
  /-- The count of processed rows, `none` when it is not wanted. -/
  param_processed_ptr : Option Nat
  /-- What becomes of the request that is made at a row. -/
  request : Nat → Request

/-- The number of rows. -/
def ExecuteCall.size (x : ExecuteCall) : Nat := x.stmt.apdopts.paramset_size

/-- The rows go out in one batch: `libpq_bind_and_exec` runs, for a single command that the server
has prepared, and `SC_CanUseBatchProto` holds. -/
def ExecuteCall.sendsBatch (x : ExecuteCall) : Bool :=
  SC_CanUseBatchProto x.stmt && !x.multi_statement

def SQL_DATA_AT_EXEC : Int := -2
def SQL_LEN_DATA_AT_EXEC_OFFSET : Int := -100

/-- The length of a parameter says that its data comes at execution. -/
def isDataAtExec (apdopts : APDFields) (row : Nat) (apara : ParameterInfoClass) : Bool :=
  match apara.used with
  | some used =>
    used (lengthOffset apdopts row) = SQL_DATA_AT_EXEC ||
      used (lengthOffset apdopts row) ≤ SQL_LEN_DATA_AT_EXEC_OFFSET
  | none => false

/-- The parameters of a row whose data comes at execution. -/
def dataAtExec (stmt : StatementClass) (row : Nat) : List Nat :=
  (List.range stmt.num_params).filter fun i =>
    (stmt.apdopts.parameters[i]?.map (isDataAtExec stmt.apdopts row)).getD false

/-! ### The handle -/

/-- The bounds that the handle keeps, -1 where they are not set. -/
structure RowBounds where
  exec_start_row : Int
  exec_end_row : Int
  exec_current_row : Int
  deriving DecidableEq, Repr

/-- A new handle, and one whose parameters have been reset
(`SC_free_params(self, STMT_FREE_PARAMS_ALL)`). -/
def RowBounds.unset : RowBounds := ⟨-1, -1, -1⟩

/-- A row that has been sent: its number, the row that each parameter with data at execution was
supplied for, and the answer. -/
structure SentRow where
  row : Nat
  supplied : List (Nat × Nat)
  answer : RowAnswer
  deriving DecidableEq, Repr

/-- An execution under way. -/
structure Walk where
  bounds : RowBounds
  /-- The data supplied at execution: for each parameter, the row it was asked for. -/
  supplied : List (Nat × Nat)
  param_status_ptr : Option (Nat → ParamStatus)
  param_processed_ptr : Option Nat
  sent : List SentRow

/-- The current row. -/
def Walk.row (w : Walk) : Nat := w.bounds.exec_current_row.toNat

/-- `stmt->exec_current_row = row`. -/
def Walk.at (w : Walk) (row : Int) : Walk :=
  { w with bounds := { w.bounds with exec_current_row := row } }

/-- The first row of an execution, from the bounds. -/
def RowBounds.first (b : RowBounds) : Int := if b.exec_start_row < 0 then 0 else b.exec_start_row

/-- The last row of an execution, from the bounds and the size of the array. -/
def RowBounds.last (b : RowBounds) (paramset_size : Nat) : Int :=
  if b.exec_end_row < 0 then (paramset_size : Int) - 1 else b.exec_end_row

/-- The first row that is not ignored from `row` on, with `left` rows up to the last. -/
def skipIgnored (stmt : StatementClass) (row : Nat) : Nat → Option Nat
  | 0 => if isIgnored stmt row then none else some row
  | left + 1 => if isIgnored stmt row then skipIgnored stmt (row + 1) left else some row

/-- `SetIPDField`: the status of the current row, or in a batch of all rows before it. -/
def SetIPDField (x : ExecuteCall) (status : ParamStatus) (w : Walk) : Walk :=
  { w with
    param_status_ptr := w.param_status_ptr.map fun statuses i =>
      if SC_CanUseBatchProto x.stmt then
        if i < w.row then if isIgnored x.stmt i then .unused else status else statuses i
      else if i = w.row then status else statuses i }

/-- `SC_execute`: the current row is sent, or all rows in a batch, which sets the bounds. -/
def SC_execute (x : ExecuteCall) (w : Walk) : Walk × RowAnswer :=
  let n := x.size
  match x.request w.row with
  | .failed bound =>
    (if x.sendsBatch && bound then { w with bounds := ⟨0, n, w.bounds.exec_current_row⟩ } else w,
      .error)
  | .answered answer =>
    (if x.sendsBatch then
      { w with
        bounds := ⟨0, n, n⟩
        sent := w.sent ++ (usefulRows x.stmt).map fun row => ⟨row, w.supplied, answer⟩ }
    else { w with sent := w.sent ++ [⟨w.row, w.supplied, answer⟩] }, answer)

/-- How a call returns, for what the application does next. -/
inductive Returned | done (answer : RowAnswer) | needData
  deriving DecidableEq, Repr

/-- `Exec_with_parameters_resolved`, with `exec_end`. -/
def Exec_with_parameters_resolved (x : ExecuteCall) (w : Walk) : Walk × RowAnswer × Bool :=
  let (w, retval) := SC_execute x w
  if retval = .error then (w.at (-1), retval, true)
  else
    let w := SetIPDField x retval.status w
    let w := if SC_CanUseBatchProto x.stmt then
        { w with
          param_processed_ptr := w.param_processed_ptr.map fun _ =>
            ((List.range w.row).filter fun i => !isIgnored x.stmt i).length }
      else w
    if w.bounds.last x.size ≤ w.bounds.exec_current_row then (w.at (-1), retval, true)
    else (w.at (w.bounds.exec_current_row + 1), retval, false)

/-- A row is about to be executed: its status is an error until it is known, it is counted, and the
data of its parameters is asked for anew. -/
def Walk.begin (x : ExecuteCall) (row : Nat) (w : Walk) : Walk where
  bounds := { w.bounds with exec_current_row := row }
  supplied := (dataAtExec x.stmt row).map (·, row)
  param_status_ptr := w.param_status_ptr.map fun statuses i =>
    if i = row then .error else statuses i
  param_processed_ptr := w.param_processed_ptr.map (· + 1)
  sent := w.sent

/-- `PGAPI_Execute` from `next_param_row` on. `none` is a walk that `fuel` rows do not end. -/
def nextParamRow (x : ExecuteCall) (end_row : Int) : Nat → Walk → Option (Walk × Returned)
  | 0, _ => none
  | fuel + 1, w =>
    match skipIgnored x.stmt w.row (end_row - w.bounds.exec_current_row).toNat with
    | none => some (w.at (-1), .done .success)
    | some row =>
      let w := w.begin x row
      if w.supplied ≠ [] then some (w, .needData)
      else
        match Exec_with_parameters_resolved x w with
        | (w, retval, true) => some (w, .done retval)
        | (w, _, false) => nextParamRow x end_row fuel w

/-- The first row of an execution: the count starts again, and the rows are unused, but for those
of a batch. -/
def Walk.start (x : ExecuteCall) (end_row : Int) (w : Walk) : Walk :=
  { w with
    param_processed_ptr := w.param_processed_ptr.map fun _ => 0
    param_status_ptr := w.param_status_ptr.map fun statuses i =>
      if SC_CanUseBatchProto x.stmt = false ∧ (i : Int) ≤ end_row then .unused else statuses i }

/-- `PGAPI_Execute`. -/
def PGAPI_Execute (x : ExecuteCall) (fuel : Nat) (w : Walk) : Option (Walk × Returned) :=
  let start_row := w.bounds.first
  let end_row := w.bounds.last x.size
  let w := if w.bounds.exec_current_row < 0 then w.at start_row else w
  if w.bounds.exec_current_row = start_row then
    if x.described then nextParamRow x end_row fuel (w.start x end_row)
    else some (w, .done .error)
  else nextParamRow x end_row fuel w

/-- `PGAPI_ParamData`, once all data has been supplied: the row is executed, and the walk goes
on. -/
def PGAPI_ParamData (x : ExecuteCall) (fuel : Nat) (w : Walk) : Option (Walk × Returned) :=
  match Exec_with_parameters_resolved x w with
  | (w, retval, true) => some (w, .done retval)
  | (w, _, false) => PGAPI_Execute x fuel w

/-- The application supplies data until it is asked for no more. -/
def supplyData (x : ExecuteCall) (rows : Nat) :
    Nat → Option (Walk × Returned) → Option (Walk × RowAnswer)
  | _, none => none
  | _, some (w, .done answer) => some (w, answer)
  | 0, some (_, .needData) => none
  | fuel + 1, some (w, .needData) => supplyData x rows fuel (PGAPI_ParamData x rows w)

/-- The number of rows that an execution can come to. -/
def ExecuteCall.rows (x : ExecuteCall) (b : RowBounds) : Nat := (b.last x.size).toNat + 1

/-- `SQLExecute`, run to its end. -/
def SQLExecute (x : ExecuteCall) (b : RowBounds) : Option (Walk × RowAnswer) :=
  supplyData x (x.rows b) (x.rows b) (PGAPI_Execute x (x.rows b)
    { bounds := { b with exec_current_row := -1 }
      supplied := []
      param_status_ptr := x.param_status_ptr
      param_processed_ptr := x.param_processed_ptr
      sent := [] })

/-- The calls of the application for a handle. -/
inductive HandleCall
  | execute (x : ExecuteCall)
  /-- `SQLFreeStmt(SQL_RESET_PARAMS)`. -/
  | resetParams

/-- The handle, from call to call. An execution that does not end leaves it alone. -/
def handleMachine : Machine RowBounds HandleCall (Option (Walk × RowAnswer)) where
  step b call :=
    match call with
    | .execute x =>
      let r := SQLExecute x b
      ((r.map (·.1.bounds)).getD b, r)
    | .resetParams => (.unset, none)

end OdbcDriver.Execute
