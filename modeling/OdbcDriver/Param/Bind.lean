import OdbcDriver.Param.Resolve

/-!
# The parameters of a Bind request

`build_libpq_bind_params` resolves the parameters of one row of the parameter array, each in a
Bind request of its own, and collects what libpq is given for them.
-/

namespace OdbcDriver

/-! ### The statement -/

/-- The kinds of statements that the batch protocol tells apart (`STMT_TYPE_...`). -/
inductive StatementType | insert | update | delete | other
  deriving DecidableEq, Repr

/-- A statement with parameters that is about to be executed. -/
structure StatementClass where
  conn : ConnectionClass
  /-- The number of parameter markers, as `PGAPI_NumParams` has found it. -/
  num_params : Nat
  proc_return : Int
  discard_output_params : Bool
  /-- The row of parameters being executed, -1 before the first. -/
  exec_current_row : Int
  apdopts : APDFields
  ipdopts : IPDFields
  pdata : List PutDataClass
  /-- What `statement_type` says of the statement's text. -/
  statement_type : StatementType
  use_server_side_prepare : Bool
  use_batch_protocol : Bool
  backend_support_batch_proto : Bool

/-- The statement, about to execute row `row`. -/
def StatementClass.atRow (stmt : StatementClass) (row : Nat) : StatementClass :=
  { stmt with exec_current_row := row }

/-- Parameter `i` is an output parameter. -/
def isOutput (stmt : StatementClass) (i : Nat) : Bool :=
  stmt.ipdopts.parameters[i]?.map (·.paramType) = some .output

section AtRow

variable (stmt : StatementClass) (row i : Nat)

@[simp]
theorem atRow_num_params : (stmt.atRow row).num_params = stmt.num_params := rfl

@[simp]
theorem atRow_proc_return : (stmt.atRow row).proc_return = stmt.proc_return := rfl

@[simp]
theorem atRow_discard_output_params :
    (stmt.atRow row).discard_output_params = stmt.discard_output_params := rfl

@[simp]
theorem atRow_ipdopts : (stmt.atRow row).ipdopts = stmt.ipdopts := rfl

@[simp]
theorem isOutput_atRow : isOutput (stmt.atRow row) i = isOutput stmt i := rfl

end AtRow

/-- `CountParameters`, the output parameters. -/
def num_output_params (stmt : StatementClass) : Nat :=
  (List.range (min stmt.num_params stmt.ipdopts.parameters.length)).countP (isOutput stmt)

/-- `qb->num_discard_params`: the parameters that are not sent. -/
def num_discard_params (stmt : StatementClass) : Int :=
  let n : Int := if stmt.discard_output_params then num_output_params stmt else 0
  if n < stmt.proc_return then stmt.proc_return else n

@[simp]
theorem num_discard_params_atRow (stmt : StatementClass) (row : Nat) :
    num_discard_params (stmt.atRow row) = num_discard_params stmt := rfl

/-- `QB_initialize`. -/
def QB_initialize (stmt : StatementClass) (param_mode : ResolveParamMode) : QueryBuild where
  query_statement := []
  current_row := stmt.exec_current_row.toNat
  param_number := -1
  dollar_number := 0
  proc_return := stmt.proc_return
  apdopts := stmt.apdopts
  ipdopts := stmt.ipdopts
  pdata := stmt.pdata
  param_mode := param_mode
  flags := initFlags stmt.conn stmt.discard_output_params
  conn := stmt.conn

/-- The query of a Bind request: binary values are sent as such (`FLGB_BINARY_AS_POSSIBLE`). -/
def bindQuery (stmt : StatementClass) : QueryBuild :=
  let qb := QB_initialize stmt .buildingBindRequest
  { qb with flags := { qb.flags with binaryAsPossible := true } }

/-- `qb.npos = 0`. -/
def QueryBuild.clear (qb : QueryBuild) : QueryBuild := { qb with query_statement := [] }

/-! ### Errors -/

/-- How building the parameters of a request fails. -/
inductive BindError
  /-- The driver's descriptor has fewer parameters than there are markers. -/
  | fewParameters (allocated num_params : Nat)
  | resolve (f : Fault)
  /-- A value is longer than `INT_MAX` bytes. -/
  | tooLong
  /-- The same as `fewParameters`, in a batch. -/
  | fewBatchParameters
  | noMarker
  | paramsetSize
  | arraySizeOverflow
  | arraySize
  deriving DecidableEq, Repr

/-- The error number and the message that are set. A value that is too long, and memory that
cannot be read, set none. -/
def BindError.message : BindError → Option (StmtError × String)
  | .fewParameters allocated num_params =>
    some (.STMT_COUNT_FIELD_INCORRECT,
      if allocated = 0 then
        "Parameters exist but IPD isn't set. Please call SQLDescribeParam()"
      else "The # of IPD parameters " ++ toString allocated ++ " < " ++ toString num_params ++
        " the # of parameter markers")
  | .resolve (.error e) => some (e.errornumber, e.errormsg)
  | .resolve .undefined | .tooLong => none
  | .fewBatchParameters =>
    some (.STMT_COUNT_FIELD_INCORRECT,
      "The # of binded parameters < the # of parameter markers")
  | .noMarker => some (.STMT_COUNT_FIELD_INCORRECT, "No parameter marker for batch execution")
  | .paramsetSize => some (.STMT_VALUE_OUT_OF_RANGE, "SQL_ATTR_PARAMSET_SIZE is too large")
  | .arraySizeOverflow =>
    some (.STMT_VALUE_OUT_OF_RANGE, "batch parameter array size is too large")
  | .arraySize => some (.STMT_VALUE_OUT_OF_RANGE, "batch parameter array size is invalid")

/-- `INT_MAX`. -/
def INT_MAX : Nat := 2147483647

/-! ### One row -/

/-- What libpq is given for one parameter. -/
structure BindParam where
  paramType : Oid
  /-- `none` is the null pointer, an SQL null. -/
  paramValue : Option (List Byte)
  paramLength : Nat
  paramFormat : Nat
  deriving DecidableEq, Repr

/-- What libpq is given for a row. -/
structure BindArgs where
  params : List BindParam
  resultFormat : Nat
  deriving DecidableEq, Repr

/-- `ResolveOneParam`, its failure passed on. -/
def resolveNext (env : Env) (qb : QueryBuild) : Except BindError Resolved :=
  (ResolveOneParam env qb.clear none).mapError .resolve

/-- What is given for a parameter that has been resolved. -/
def bindEntry (r : Resolved) : Except BindError BindParam :=
  let format := if r.isbinary then 1 else 0
  if r.isnull then .ok ⟨r.pgType, none, 0, format⟩
  else if INT_MAX < r.qb.query_statement.length then .error .tooLong
  else .ok ⟨r.pgType, some r.qb.query_statement, r.qb.query_statement.length, format⟩

/-- The loop of `build_libpq_bind_params`, for parameter `i`: a function's return value and a
discarded output parameter are left out, any other output parameter has type `void`. -/
def bindParam (env : Env) (stmt : StatementClass) (s : QueryBuild × List BindParam) (i : Nat) :
    Except BindError (QueryBuild × List BindParam) := do
  let (qb, params) := s
  let r ← resolveNext env qb
  if (i : Int) < stmt.proc_return then return (r.qb, params)
  else if isOutput stmt i then
    if stmt.discard_output_params then return (r.qb, params)
    else return (r.qb, params ++ [⟨PG_TYPE_VOID, none, 0, 0⟩])
  else
    let entry ← bindEntry r
    return (r.qb, params ++ [entry])

/-- `build_libpq_bind_params`: the parameters of the current row. -/
def build_libpq_bind_params (env : Env) (stmt : StatementClass) : Except BindError BindArgs := do
  let allocated := stmt.ipdopts.parameters.length
  if allocated < stmt.num_params then throw (.fewParameters allocated stmt.num_params)
  else if 0 < (stmt.num_params : Int) - num_discard_params stmt then
    let (_, params) ← (List.range stmt.num_params).foldlM (bindParam env stmt) (bindQuery stmt, [])
    return ⟨params, 0⟩
  else return ⟨[], 0⟩

end OdbcDriver
