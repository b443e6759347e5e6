import Mathlib.Logic.Function.Basic
import OdbcDriver.Param.Bind

/-!
# The parameters of a batch

`build_libpq_bind_params_batch` resolves the parameters of all rows into one request. The
values and lengths of a row follow those of the row before, `num_params` apart; types and
formats have one entry a parameter, which every row writes.
-/

namespace OdbcDriver

/-! ### When a batch is used -/

/-- Row `row` is marked `SQL_PARAM_IGNORE`. -/
def isIgnored (stmt : StatementClass) (row : Nat) : Bool :=
  match stmt.apdopts.param_operation_ptr with
  | some ignored => ignored row
  | none => false

/-- The rows of the parameter array that are executed, in order. -/
def usefulRows (stmt : StatementClass) : List Nat :=
  (List.range stmt.apdopts.paramset_size).filter fun row => !isIgnored stmt row

/-- `SC_CanUseBatchProto`. -/
def SC_CanUseBatchProto (stmt : StatementClass) : Bool :=
  stmt.use_server_side_prepare && stmt.use_batch_protocol && stmt.backend_support_batch_proto &&
    1 < stmt.apdopts.paramset_size && 1 < (usefulRows stmt).length &&
    (stmt.statement_type = .insert || stmt.statement_type = .update ||
      stmt.statement_type = .delete)

/-! ### The arrays -/

/-- What libpq is given for a batch. The arrays are memory: `none` is an entry that has not
been written, except for a value, which is the null pointer until it is written. -/
structure BatchArgs where
  nParams : Nat
  nBatchCount : Nat
  paramTypes : Nat → Option Oid
  paramValues : Nat → Option (List Byte)
  paramLengths : Nat → Option Nat
  paramFormats : Nat → Option Nat
  resultFormat : Nat

/-- The arrays before the first row. -/
def BatchArgs.empty : BatchArgs where
  nParams := 0
  nBatchCount := 0
  paramTypes := fun _ => none
  paramValues := fun _ => none
  paramLengths := fun _ => none
  paramFormats := fun _ => none
  resultFormat := 0

/-- Parameter `i` of the row being built is written. -/
def BatchArgs.write (stride : Nat) (b : BatchArgs) (i : Nat) (e : BindParam) : BatchArgs :=
  { b with
    paramTypes := Function.update b.paramTypes i (some e.paramType)
    paramValues := Function.update b.paramValues (b.nBatchCount * stride + i) e.paramValue
    paramLengths :=
      Function.update b.paramLengths (b.nBatchCount * stride + i) (some e.paramLength)
    paramFormats := Function.update b.paramFormats i (some e.paramFormat) }

/-- `(*nParams)++`. -/
def BatchArgs.count (b : BatchArgs) : BatchArgs := { b with nParams := b.nParams + 1 }

/-- What the server is told of parameter `j` of row `k` of the batch. -/
def BatchArgs.entry (b : BatchArgs) (k j : Nat) : Option BindParam := do
  let type ← b.paramTypes j
  let length ← b.paramLengths (k * b.nParams + j)
  let format ← b.paramFormats j
  return ⟨type, b.paramValues (k * b.nParams + j), length, format⟩

/-! ### The rows -/

/-- The state of the loop over the parameters of a row: the query, the arrays, and
`paramproceed`. -/
structure RowState where
  qb : QueryBuild
  args : BatchArgs
  paramproceed : Bool

/-- The inner loop of `build_libpq_bind_params_batch`, for parameter `i` of row `row`: a
discarded output parameter is left out before it is resolved, a parameter of an ignored row
afterwards. -/
def batchParam (env : Env) (stmt : StatementClass) (row : Nat) (s : RowState) (i : Nat) :
    Except BindError RowState :=
  if stmt.discard_output_params && isOutput stmt i then .ok s
  else do
    let r ← resolveNext env s.qb
    if isIgnored stmt row then return ⟨r.qb, s.args.count, s.paramproceed⟩
    else
      let entry ← bindEntry r
      return ⟨r.qb, (s.args.write stmt.num_params i entry).count, true⟩

/-- The outer loop, for row `row`. -/
def batchRow (env : Env) (stmt : StatementClass) (b : BatchArgs) (row : Nat) :
    Except BindError BatchArgs := do
  let s ← (List.range stmt.num_params).foldlM (batchParam env stmt row)
    ⟨bindQuery (stmt.atRow row), { b with nParams := 0 }, false⟩
  if s.paramproceed then return { s.args with nBatchCount := s.args.nBatchCount + 1 }
  else return s.args

/-- `checked_mul_size`: the product, unless it overflows a `size_t`. -/
def checked_mul_size (left right : Nat) : Option Nat :=
  if left ≠ 0 ∧ right > (2 ^ 64 - 1) / left then none else some (left * right)

/-- `MAX_BATCH_PARAM_ALLOC_SIZE`. -/
def MAX_BATCH_PARAM_ALLOC_SIZE : Nat := INT_MAX

/-- The sizes of the arrays: of the types, of the values, and of the lengths and formats. -/
def arrayBytes (num_params total_rows : Nat) : Option (Nat × Nat × Nat) := do
  let param_type_bytes ← checked_mul_size 4 num_params
  let batch_elems ← checked_mul_size num_params total_rows
  let param_value_bytes ← checked_mul_size 8 batch_elems
  let param_int_bytes ← checked_mul_size 4 batch_elems
  return (param_type_bytes, param_value_bytes, param_int_bytes)

/-- An array of that size is allocated. -/
def allocates (bytes : Nat) : Bool := bytes ≠ 0 && bytes ≤ MAX_BATCH_PARAM_ALLOC_SIZE

/-- `build_libpq_bind_params_batch`. -/
def build_libpq_bind_params_batch (env : Env) (stmt : StatementClass) :
    Except BindError BatchArgs :=
  let total_rows := stmt.apdopts.paramset_size
  if stmt.ipdopts.parameters.length < stmt.num_params then .error .fewBatchParameters
  else if stmt.num_params = 0 then .error .noMarker
  else if total_rows = 0 ∨ INT_MAX < total_rows then .error .paramsetSize
  else
    match arrayBytes stmt.num_params total_rows with
    | none => .error .arraySizeOverflow
    | some (param_type_bytes, param_value_bytes, param_int_bytes) =>
      if !allocates param_type_bytes || !allocates param_value_bytes ||
          !allocates param_int_bytes then
        .error .arraySize
      else if 0 < (stmt.num_params : Int) - num_discard_params stmt then
        (List.range total_rows).foldlM (batchRow env stmt) .empty
      else .ok .empty

end OdbcDriver
