import OdbcDriver.Execute.Rows
import OdbcDriver.Lib.Below
import OdbcDriver.Param.PutData

/-!
# Data at execution, call by call

An execution that comes to a row with data at execution returns, and the application goes on with
`SQLParamData`, which asks for the next parameter, and `SQLPutData`, which supplies it. Where the
two have got to is kept in the statement: the number of parameters still to be asked for, the
parameter asked for last, and the row of `OdbcDriver.Execute.Rows`. With the last parameter of a
row supplied, `SQLParamData` sends the row and goes on with the execution.

What was asked for, supplied and sent is recorded beside the statement.
-/

namespace OdbcDriver.Execute.DataAtExecution

/-! ### The statement -/

/-- The statement between two calls. -/
structure Handle where
  /-- The rows; `supplied` holds the parameters of the current row that `SQLPutData` has
  supplied. -/
  walk : Walk
  /-- The number of parameters that are still to be asked for, -1 where no row waits for data. -/
  data_at_exec : Int
  /-- The parameter asked for last, -1 before the first. -/
  current_exec_param : Int
  put_data : Bool
  /-- The `data_at_exec` marks of the parameters in the APD. -/
  marks : Nat → Bool
  pdata : Nat → PutDataClass
  lobj_fd : Int
  /-- The content of the large object behind `lobj_fd`. -/
  lobj : List Byte
  /-- The parameters asked for by this execution, each with its row. -/
  requested : List (Nat × Nat)

/-- `num_p`: the parameters that are both in the text and bound. -/
def numParams (x : ExecuteCall) : Nat := min x.stmt.num_params x.stmt.apdopts.parameters.length

/-- The data of parameter `i` comes at execution in that row. -/
def atExec (stmt : StatementClass) (row i : Nat) : Bool :=
  (stmt.apdopts.parameters[i]?.map (isDataAtExec stmt.apdopts row)).getD false

/-- `SC_free_params(self, STMT_FREE_PARAMS_DATA_AT_EXEC_ONLY)`. -/
def SC_free_params (h : Handle) : Handle :=
  { h with
    pdata := fun _ => ⟨none, none, 0⟩
    data_at_exec := -1
    current_exec_param := -1
    put_data := false }

/-- A row is about to be executed: the data of the row before is freed, the parameters are marked
anew, and the marked ones counted. -/
def Handle.begin (x : ExecuteCall) (row : Nat) (h : Handle) : Handle :=
  let h := SC_free_params h
  let marked := Below.below (atExec x.stmt row) (numParams x)
  { h with
    walk := { h.walk.begin x row with supplied := [] }
    marks := fun i => if i < numParams x then atExec x.stmt row i else h.marks i
    data_at_exec := if marked = [] then -1 else marked.length }

/-! ### Sending a row -/

/-- `ResolveOneParam` has something to send for the parameter. -/
def hasData (pdata : PutDataClass) : Bool := pdata.EXEC_buffer.isSome || pdata.lobj_oid ≠ 0

/-- The value of parameter `i` is read when a row is sent: it is neither an output parameter nor
what a function returns. -/
def isRead (stmt : StatementClass) (i : Nat) : Bool :=
  stmt.proc_return ≤ i && !isOutput stmt i

/-- A parameter that is read has no data: "unexpected NULL parameter value". -/
def Handle.lacks (x : ExecuteCall) (h : Handle) : Bool :=
  (List.range (numParams x)).any fun i => h.marks i && isRead x.stmt i && !hasData (h.pdata i)

/-- `Exec_with_parameters_resolved`. -/
def Exec_with_parameters_resolved (x : ExecuteCall) (h : Handle) : Handle × RowAnswer × Bool :=
  let x := if h.lacks x then { x with request := fun _ => .failed true } else x
  let (walk, retval, exec_end) := Execute.Exec_with_parameters_resolved x h.walk
  ({ h with walk := walk, current_exec_param := -1 }, retval, exec_end)

/-- `PGAPI_Execute` from `next_param_row` on. -/
def nextParamRow (x : ExecuteCall) (end_row : Int) : Nat → Handle → Option (Handle × Returned)
  | 0, _ => none
  | fuel + 1, h =>
    match skipIgnored x.stmt h.walk.row (end_row - h.walk.bounds.exec_current_row).toNat with
    | none => some ({ h with walk := h.walk.at (-1) }, .done .success)
    | some row =>
      let h := h.begin x row
      if 0 < h.data_at_exec then some (h, .needData)
      else
        match Exec_with_parameters_resolved x h with
        | (h, retval, true) => some (h, .done retval)
        | (h, _, false) => nextParamRow x end_row fuel h

/-- `PGAPI_Execute`. -/
def PGAPI_Execute (x : ExecuteCall) (h : Handle) : Option (Handle × Returned) :=
  let start_row := h.walk.bounds.first
  let end_row := h.walk.bounds.last x.size
  let fuel := x.rows h.walk.bounds
  let h := if h.walk.bounds.exec_current_row < 0 then { h with walk := h.walk.at start_row } else h
  if h.walk.bounds.exec_current_row = start_row then
    if x.described then nextParamRow x end_row fuel { h with walk := h.walk.start x end_row }
    else some (h, .done .error)
  else nextParamRow x end_row fuel h

/-! ### Asking for data, and supplying it -/

/-- The errors of the two calls. -/
inductive DataError
  | noParameters
  | tooMany
  | notCommitted
  | notAsked
  | put (e : PutError)
  /-- The parameter lies behind those of the IPD. -/
  | outside
  deriving DecidableEq, Repr

/-- The text of an error. Reading behind the IPD has none. -/
def DataError.errormsg : DataError → Option String
  | .noParameters => some "No execution-time parameters for this statement"
  | .tooMany => some "Too many execution-time parameters were present"
  | .notCommitted => some "Could not commit (in-line) a transaction"
  | .notAsked => some "Previous call was not SQLPutData or SQLParamData"
  | .put e => some e.errormsg
  | .outside => none

/-- What a call returns. -/
inductive Reply
  | returned (r : Returned)
  /-- The data was taken. -/
  | taken
  | refused (e : DataError)
  deriving DecidableEq, Repr

/-- The next parameter that is marked is asked for. -/
def requestNext (x : ExecuteCall) (h : Handle) : Handle :=
  let i := if 0 ≤ h.current_exec_param then h.current_exec_param + 1 else 0
  match Below.next h.marks i.toNat (numParams x) with
  | some i =>
    { h with
      data_at_exec := h.data_at_exec - 1
      current_exec_param := i
      put_data := false
      requested := h.requested ++ [(i, h.walk.row)] }
  | none => h

/-- `PGAPI_ParamData`, once the large object is closed: with nothing left to be asked for, the row
is sent and the execution goes on. -/
def goOn (x : ExecuteCall) (h : Handle) : Option (Handle × Reply) :=
  if h.data_at_exec = 0 then
    match Exec_with_parameters_resolved x h with
    | (h, retval, true) => some (h, .returned (.done retval))
    | (h, _, false) =>
      match PGAPI_Execute x h with
      | none => none
      | some (h, .done retval) => some (h, .returned (.done retval))
      | some (h, .needData) => some (requestNext x h, .returned .needData)
  else some (requestNext x h, .returned .needData)

/-- `PGAPI_ParamData`; `committed` says that the transaction of a large object could be closed, or
need not be. -/
def PGAPI_ParamData (x : ExecuteCall) (committed : Bool) (h : Handle) : Option (Handle × Reply) :=
  if h.data_at_exec < 0 then some (h, .refused .noParameters)
  else if x.stmt.apdopts.parameters.length < h.data_at_exec then some (h, .refused .tooMany)
  else if 0 ≤ h.lobj_fd ∧ !committed then some (h, .refused .notCommitted)
  else goOn x { h with lobj_fd := if 0 ≤ h.lobj_fd then -1 else h.lobj_fd }

/-- Parameter `i` of the current row has been supplied. -/
def Walk.supply (i : Nat) (w : Walk) : Walk :=
  if (i, w.row) ∈ w.supplied then w else { w with supplied := w.supplied ++ [(i, w.row)] }

/-- `PGAPI_PutData`. -/
def PGAPI_PutData (conn : ConnectionClass) (x : ExecuteCall) (lo : LoCalls) (call : PutCall)
    (h : Handle) : Handle × Reply :=
  if h.current_exec_param < 0 then (h, .refused .notAsked)
  else
    let i := h.current_exec_param.toNat
    match x.stmt.apdopts.parameters[i]?, x.stmt.ipdopts.parameters[i]? with
    | some apara, some ipara =>
      let (st, error) := OdbcDriver.PGAPI_PutData conn lo apara ipara
        ⟨h.put_data, h.pdata i, h.lobj_fd, h.lobj⟩ call
      let h := { h with
        put_data := st.put_data
        pdata := Function.update h.pdata i st.pdata
        lobj_fd := st.lobj_fd
        lobj := st.lobj }
      match error with
      | none => ({ h with walk := Walk.supply i h.walk }, .taken)
      | some e => (h, .refused (.put e))
    | _, _ => (h, .refused .outside)

/-! ### Runs -/

/-- The statement and what is bound to it for the execution. -/
structure Session where
  execution : ExecuteCall
  handle : Handle

/-- A new statement. -/
def Session.new (x : ExecuteCall) : Session where
  execution := x
  handle :=
    { walk := ⟨.unset, [], x.param_status_ptr, x.param_processed_ptr, []⟩
      data_at_exec := -1
      current_exec_param := -1
      put_data := false
      marks := fun _ => false
      pdata := fun _ => ⟨none, none, 0⟩
      lobj_fd := -1
      lobj := []
      requested := [] }

/-- The calls of the application. -/
inductive Call
  /-- `SQLExecute`, with what is bound by then. -/
  | execute (x : ExecuteCall)
  | paramData (committed : Bool)
  | putData (lo : LoCalls) (call : PutCall)

/-- The statement as `SQLExecute` enters the execution. -/
def Handle.enter (x : ExecuteCall) (h : Handle) : Handle :=
  { h with
    walk :=
      { bounds := { h.walk.bounds with exec_current_row := -1 }
        supplied := []
        param_status_ptr := x.param_status_ptr
        param_processed_ptr := x.param_processed_ptr
        sent := [] }
    requested := [] }

/-- A call. `none` is one that does not return. -/
def Session.perform (conn : ConnectionClass) (s : Session) : Call → Option (Session × Reply)
  | .execute x =>
    (PGAPI_Execute x (s.handle.enter x)).map fun (h, r) => (⟨x, h⟩, .returned r)
  | .paramData committed =>
    (PGAPI_ParamData s.execution committed s.handle).map fun (h, r) => ({ s with handle := h }, r)
  | .putData lo call =>
    let (h, r) := PGAPI_PutData conn s.execution lo call s.handle
    some ({ s with handle := h }, r)

/-- The calls of a statement. One that does not return leaves it alone. -/
def dataMachine (conn : ConnectionClass) : Machine Session Call (Option Reply) where
  step s call :=
    match s.perform conn call with
    | some (s, r) => (s, some r)
    | none => (s, none)

end OdbcDriver.Execute.DataAtExecution
