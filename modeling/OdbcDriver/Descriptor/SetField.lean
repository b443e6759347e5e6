import Mathlib.Tactic.Linarith
import OdbcDriver.Encoding.Ascii
import OdbcDriver.Lib.Except
import OdbcDriver.Lib.RecordArray

/-!
# Setting and getting the fields of parameter descriptors

`PGAPI_SetDescField` and `PGAPI_GetDescField` for application and implementation parameter
descriptors. The records of a descriptor are `parameters`, of which `allocated` are there; setting
`SQL_DESC_COUNT`, or a field of a record behind them, changes how many there are. A type is kept in
one number, which three fields show.
-/

namespace OdbcDriver.DescField

/-! ### Descriptors -/

/-- The fields of a descriptor; `unknown` stands for the identifiers that no case names. -/
inductive FieldIdentifier
  | SQL_DESC_ARRAY_SIZE
  | SQL_DESC_ARRAY_STATUS_PTR
  | SQL_DESC_BIND_OFFSET_PTR
  | SQL_DESC_BIND_TYPE
  | SQL_DESC_ROWS_PROCESSED_PTR
  | SQL_DESC_COUNT
  | SQL_DESC_TYPE
  | SQL_DESC_DATETIME_INTERVAL_CODE
  | SQL_DESC_CONCISE_TYPE
  | SQL_DESC_DATA_PTR
  | SQL_DESC_INDICATOR_PTR
  | SQL_DESC_OCTET_LENGTH
  | SQL_DESC_OCTET_LENGTH_PTR
  | SQL_DESC_PRECISION
  | SQL_DESC_SCALE
  | SQL_DESC_NAME
  | SQL_DESC_UNNAMED
  | SQL_DESC_PARAMETER_TYPE
  | SQL_DESC_ALLOC_TYPE
  | SQL_DESC_NUM_PREC_RADIX
  | unknown
  deriving DecidableEq, Repr

/-- One call of `SQLSetDescField`: `Value` as a number, and what it points to when it is a text.
`granted` says whether the memory that the call asks for is there. -/
structure Call where
  RecNumber : ℤ
  FieldIdentifier : FieldIdentifier
  Value : Int64
  text : List Byte
  granted : Bool
  deriving DecidableEq

/-- `ParameterInfoClass`; pointers are numbers, `NULL` is 0. -/
structure ParameterInfoClass where
  buflen : Int64
  buffer : Int64
  used : Int64
  indicator : Int64
  CType : Int16
  precision : Int16
  scale : Int16
  data_at_exec : Bool
  deriving DecidableEq

/-- `ParameterImplClass` -/
structure ParameterImplClass where
  paramName : Option (List Byte)
  paramType : Int16
  SQLType : Int16
  PGType : UInt32
  column_size : UInt64
  decimal_digits : Int16
  precision : Int16
  scale : Int16
  deriving DecidableEq

/-- What `memset` leaves. -/
def ParameterInfoClass.zero : ParameterInfoClass := ⟨0, 0, 0, 0, 0, 0, 0, false⟩

def ParameterImplClass.zero : ParameterImplClass := ⟨none, 0, 0, 0, 0, 0, 0, 0⟩

/-- `APDFields`; of `records` the block is `parameters`, and `allocated` are in use. -/
structure APDFields where
  paramset_size : Int64
  param_bind_type : UInt32
  param_operation_ptr : Int64
  param_offset_ptr : Int64
  records : RecordArray ParameterInfoClass
  deriving DecidableEq

/-- `IPDFields` -/
structure IPDFields where
  param_processed_ptr : Int64
  param_status_ptr : Int64
  records : RecordArray ParameterImplClass
  deriving DecidableEq

/-- The fields of a parameter descriptor, by its type. -/
inductive Fields
  | apdf (opts : APDFields)
  | ipdf (ipdopts : IPDFields)
  deriving DecidableEq

inductive ErrorNumber
  | DESC_BAD_PARAMETER_NUMBER_ERROR
  | DESC_VALUE_OUT_OF_RANGE
  | DESC_INVALID_DESCRIPTOR_IDENTIFIER
  deriving DecidableEq, Repr

/-- The error of a descriptor. -/
structure DescError where
  number : ErrorNumber
  message : String
  deriving DecidableEq, Repr

/-- `DescriptorClass` -/
structure DescriptorClass where
  embedded : Bool
  error : Option DescError
  fields : Fields
  deriving DecidableEq

/-- What the functions may run into. -/
inductive Fault
  /-- a record that is not in the block, which may be `NULL` -/
  | noRecord
  /-- `memset` from before the block on -/
  | beforeBlock
  deriving DecidableEq, Repr

def SQL_SUCCESS : ℤ := 0
def SQL_ERROR : ℤ := -1
def SQL_IS_SMALLINT : ℤ := -8
def INT_MAX : UInt64 := 2147483647

def SQL_DATETIME : Int16 := 9
def SQL_NUMERIC : Int16 := 2
def SQL_TYPE_DATE : Int16 := 91
def SQL_TYPE_TIME : Int16 := 92
def SQL_TYPE_TIMESTAMP : Int16 := 93
def SQL_CODE_DATE : Int64 := 1
def SQL_CODE_TIME : Int64 := 2
def SQL_CODE_TIMESTAMP : Int64 := 3
def SQL_NAMED : Int64 := 0
def SQL_UNNAMED : Int64 := 1
def SQL_DESC_ALLOC_AUTO : Int64 := 1
def SQL_DESC_ALLOC_USER : Int64 := 2

def badParameterNumber : DescError := ⟨.DESC_BAD_PARAMETER_NUMBER_ERROR, "bad parameter number"⟩
def invalidIdentifier (message : String) : DescError :=
  ⟨.DESC_INVALID_DESCRIPTOR_IDENTIFIER, message⟩

/-! ### How many records there are -/

/-- `reset_a_parameter_binding` and `reset_a_iparameter_binding`, where `reset` clears a record. -/
def reset_a_binding {α : Type} (reset : α → α) (self : RecordArray α) (ipar : ℤ) : RecordArray α :=
  if ipar < 1 ∨ self.used < ipar then self else self.modify (ipar - 1).toNat reset

/-- `extend_parameter_bindings` and `extend_iparameter_bindings`. -/
def extend_bindings {α : Type} (zero : α) (granted : Bool) (self : RecordArray α)
    (num_params : ℤ) : Except Fault (RecordArray α) :=
  if self.used < num_params then
    if granted then
      if self.used < 0 then .error .beforeBlock else .ok (self.grow zero num_params)
    else .ok .empty
  else .ok self

/-- `for (i = allocated; i > params; i--)` -/
def resetLoop {α : Type} (reset : α → α) (params : ℤ) : ℕ → RecordArray α → RecordArray α
  | 0, opts => opts
  | i + 1, opts =>
    if params < i + 1 then resetLoop reset params i (reset_a_binding reset opts (i + 1)) else opts

/-- `parameter_bindings_set` and `parameter_ibindings_set`. -/
def bindings_set {α : Type} (zero : α) (reset : α → α) (granted : Bool) (opts : RecordArray α)
    (params : ℤ) (maxset : Bool) : Except Fault (RecordArray α) :=
  if params = opts.used then .ok opts
  else if opts.used < params then extend_bindings zero granted opts params
  else if maxset then .ok opts
  else
    let opts := (resetLoop reset params opts.used.toNat opts).shrink params
    .ok (if params = 0 then { opts with block := [] } else opts)

/-- What `reset_a_parameter_binding` does to the record. -/
def ParameterInfoClass.reset (p : ParameterInfoClass) : ParameterInfoClass :=
  { p with
    buflen := 0, buffer := 0, used := 0, indicator := 0, CType := 0, data_at_exec := false
    precision := 0, scale := 0 }

/-- What `reset_a_iparameter_binding` does to the record. -/
def ParameterImplClass.reset (p : ParameterImplClass) : ParameterImplClass :=
  { p with
    paramName := none, paramType := 0, SQLType := 0, column_size := 0, decimal_digits := 0
    precision := 0, scale := 0, PGType := 0 }

/-- `parameter_bindings_set` -/
def parameter_bindings_set (granted : Bool) (opts : APDFields) (params : ℤ) (maxset : Bool) :
    Except Fault APDFields := do
  let records ← bindings_set .zero ParameterInfoClass.reset granted opts.records params maxset
  return { opts with records }

/-- `parameter_ibindings_set` -/
def parameter_ibindings_set (granted : Bool) (opts : IPDFields) (params : ℤ) (maxset : Bool) :
    Except Fault IPDFields := do
  let records ← bindings_set .zero ParameterImplClass.reset granted opts.records params maxset
  return { opts with records }

/-! ### Types -/

/-- Setting `SQL_DESC_DATETIME_INTERVAL_CODE`: only a date or time type changes, and only for one of
the three codes. -/
def setDatetimeCode (type : Int16) (Value : Int64) : Int16 :=
  if type = SQL_DATETIME ∨ type = SQL_TYPE_DATE ∨ type = SQL_TYPE_TIME ∨
      type = SQL_TYPE_TIMESTAMP then
    if Value = SQL_CODE_DATE then SQL_TYPE_DATE
    else if Value = SQL_CODE_TIME then SQL_TYPE_TIME
    else if Value = SQL_CODE_TIMESTAMP then SQL_TYPE_TIMESTAMP
    else type
  else type

/-- What `SQL_DESC_TYPE` shows. -/
def verboseType (type : Int16) : Int16 :=
  if type = SQL_TYPE_DATE ∨ type = SQL_TYPE_TIME ∨ type = SQL_TYPE_TIMESTAMP then SQL_DATETIME
  else type

/-- What `SQL_DESC_DATETIME_INTERVAL_CODE` shows. -/
def datetimeCode (type : Int16) : Int64 :=
  if type = SQL_TYPE_DATE then SQL_CODE_DATE
  else if type = SQL_TYPE_TIME then SQL_CODE_TIME
  else if type = SQL_TYPE_TIMESTAMP then SQL_CODE_TIMESTAMP
  else 0

/-! ### Setting -/

/-- A record, by its number. -/
def recordAt {α : Type} (r : RecordArray α) (RecNumber : ℤ) : Except Fault α :=
  match r.block[(RecNumber - 1).toNat]? with
  | some para => .ok para
  | none => .error .noRecord

/-- The record of an application descriptor, whether it is unbound, and the error if any. -/
def setParameterInfo (field : FieldIdentifier) (Value : Int64) (para : ParameterInfoClass) :
    ParameterInfoClass × Bool × Option DescError :=
  match field with
  | .SQL_DESC_TYPE => ({ para with CType := Value.toInt16 }, true, none)
  | .SQL_DESC_DATETIME_INTERVAL_CODE =>
    ({ para with CType := setDatetimeCode para.CType Value }, true, none)
  | .SQL_DESC_CONCISE_TYPE => ({ para with CType := Value.toInt16 }, true, none)
  | .SQL_DESC_DATA_PTR => ({ para with buffer := Value }, false, none)
  | .SQL_DESC_INDICATOR_PTR => ({ para with indicator := Value }, false, none)
  | .SQL_DESC_OCTET_LENGTH => ({ para with buflen := Value.toInt32.toInt64 }, true, none)
  | .SQL_DESC_OCTET_LENGTH_PTR => ({ para with used := Value }, false, none)
  | .SQL_DESC_PRECISION => ({ para with precision := Value.toInt16 }, true, none)
  | .SQL_DESC_SCALE => ({ para with scale := Value.toInt16 }, true, none)
  | _ => (para, true, some (invalidIdentifier "invaid descriptor identifier"))

/-- Where `p` holds, at least the record of the call is made to be there. -/
def APDFields.extendIf (p : Prop) [Decidable p] (opts : APDFields) (c : Call) :
    Except Fault APDFields :=
  if p then parameter_bindings_set c.granted opts c.RecNumber true else .ok opts

/-- `APDSetField` behind the fields of the header. -/
def APDSetRecordField (opts : APDFields) (c : Call) :
    Except Fault (APDFields × Option DescError) := do
  let opts ← opts.extendIf (c.FieldIdentifier = .SQL_DESC_TYPE ∨
    c.FieldIdentifier = .SQL_DESC_DATETIME_INTERVAL_CODE ∨
    c.FieldIdentifier = .SQL_DESC_CONCISE_TYPE) c
  if c.RecNumber ≤ 0 then return (opts, some badParameterNumber)
  let opts ← opts.extendIf (opts.records.used < c.RecNumber) c
  let para ← recordAt opts.records c.RecNumber
  let (para, unbind, error) := setParameterInfo c.FieldIdentifier c.Value para
  let para := if unbind then { para with buffer := 0 } else para
  return ({ opts with records :=
    opts.records.modify (c.RecNumber - 1).toNat fun _ => para }, error)

/-- `APDSetField`, with the error it sets when it returns `SQL_ERROR`. -/
def APDSetField (opts : APDFields) (c : Call) : Except Fault (APDFields × Option DescError) :=
  match c.FieldIdentifier with
  | .SQL_DESC_ARRAY_SIZE =>
    let array_size := c.Value.toUInt64
    if INT_MAX < array_size then
      .ok (opts, some ⟨.DESC_VALUE_OUT_OF_RANGE, "SQL_DESC_ARRAY_SIZE is too large"⟩)
    else .ok ({ opts with paramset_size := c.Value }, none)
  | .SQL_DESC_ARRAY_STATUS_PTR => .ok ({ opts with param_operation_ptr := c.Value }, none)
  | .SQL_DESC_BIND_OFFSET_PTR => .ok ({ opts with param_offset_ptr := c.Value }, none)
  | .SQL_DESC_BIND_TYPE =>
    .ok ({ opts with param_bind_type := c.Value.toUInt64.toUInt32 }, none)
  | .SQL_DESC_COUNT => do
    let opts ← parameter_bindings_set c.granted opts c.Value.toInt16.toInt false
    return (opts, none)
  | _ => APDSetRecordField opts c

/-- The record of an implementation descriptor, and the error if there is one. -/
def setParameterImpl (c : Call) (para : ParameterImplClass) :
    ParameterImplClass × Option DescError :=
  match c.FieldIdentifier with
  | .SQL_DESC_TYPE =>
    (if para.SQLType ≠ c.Value.toInt16 then { para.reset with SQLType := c.Value.toInt16 }
      else para, none)
  | .SQL_DESC_DATETIME_INTERVAL_CODE =>
    ({ para with SQLType := setDatetimeCode para.SQLType c.Value }, none)
  | .SQL_DESC_CONCISE_TYPE => ({ para with SQLType := c.Value.toInt16 }, none)
  | .SQL_DESC_NAME =>
    -- `strdup` of the text
    ({ para with paramName := if c.Value ≠ 0 ∧ c.granted then some c.text else none }, none)
  | .SQL_DESC_PARAMETER_TYPE => ({ para with paramType := c.Value.toInt16 }, none)
  | .SQL_DESC_SCALE => ({ para with decimal_digits := c.Value.toInt16 }, none)
  | .SQL_DESC_UNNAMED =>
    if SQL_UNNAMED.toInt16 ≠ c.Value.toInt16 then
      (para, some (invalidIdentifier "invalid descriptor identifier"))
    else ({ para with paramName := none }, none)
  | _ => (para, some (invalidIdentifier "invalid descriptor identifier"))

/-- Where `p` holds, at least the record of the call is made to be there. -/
def IPDFields.extendIf (p : Prop) [Decidable p] (ipdopts : IPDFields) (c : Call) :
    Except Fault IPDFields :=
  if p then parameter_ibindings_set c.granted ipdopts c.RecNumber true else .ok ipdopts

/-- `IPDSetField` behind the fields of the header. -/
def IPDSetRecordField (ipdopts : IPDFields) (c : Call) :
    Except Fault (IPDFields × Option DescError) := do
  -- only SQL_UNNAMED is allowed
  if c.FieldIdentifier = .SQL_DESC_UNNAMED ∧ SQL_UNNAMED.toInt16 ≠ c.Value.toInt16 then
    return (ipdopts, some (invalidIdentifier "invalid descriptor identifier"))
  let ipdopts ← ipdopts.extendIf (c.FieldIdentifier = .SQL_DESC_UNNAMED ∨
    c.FieldIdentifier = .SQL_DESC_NAME ∨ c.FieldIdentifier = .SQL_DESC_TYPE ∨
    c.FieldIdentifier = .SQL_DESC_DATETIME_INTERVAL_CODE ∨
    c.FieldIdentifier = .SQL_DESC_CONCISE_TYPE) c
  if c.RecNumber ≤ 0 ∨ ipdopts.records.used < c.RecNumber then
    return (ipdopts, some badParameterNumber)
  let para ← recordAt ipdopts.records c.RecNumber
  let (para, error) := setParameterImpl c para
  return ({ ipdopts with records :=
    ipdopts.records.modify (c.RecNumber - 1).toNat fun _ => para }, error)

/-- `IPDSetField`, with the error it sets when it returns `SQL_ERROR`. -/
def IPDSetField (ipdopts : IPDFields) (c : Call) : Except Fault (IPDFields × Option DescError) :=
  match c.FieldIdentifier with
  | .SQL_DESC_ARRAY_STATUS_PTR => .ok ({ ipdopts with param_status_ptr := c.Value }, none)
  | .SQL_DESC_ROWS_PROCESSED_PTR => .ok ({ ipdopts with param_processed_ptr := c.Value }, none)
  | .SQL_DESC_COUNT => do
    let ipdopts ← parameter_ibindings_set c.granted ipdopts c.Value.toInt16.toInt false
    return (ipdopts, none)
  | _ => IPDSetRecordField ipdopts c

/-- The descriptor after the call, with the error if there is one, and the return code. -/
def DescriptorClass.finish (desc : DescriptorClass) (fields : Fields) (error : Option DescError) :
    DescriptorClass × ℤ :=
  match error with
  | some error => ({ desc with fields, error := some error }, SQL_ERROR)
  | none => ({ desc with fields }, SQL_SUCCESS)

/-- `PGAPI_SetDescField`, for the two types of parameter descriptors. -/
def PGAPI_SetDescField (desc : DescriptorClass) (c : Call) :
    Except Fault (DescriptorClass × ℤ) :=
  match desc.fields with
  | .apdf opts => do
    let (opts, error) ← APDSetField opts c
    return desc.finish (.apdf opts) error
  | .ipdf ipdopts => do
    let (ipdopts, error) ← IPDSetField ipdopts c
    return desc.finish (.ipdf ipdopts) error

/-! ### Getting -/

/-- The C type of what is written at `Value`. -/
inductive RetType
  | SQL_IS_LEN
  | SQL_IS_INTEGER
  | SQL_IS_SMALLINT
  | SQL_IS_POINTER
  deriving DecidableEq, Repr

/-- What a call of `SQLGetDescField` gives: the return code, what is written, and the error. -/
structure Got where
  ret : ℤ
  written : Option (RetType × Int64)
  error : Option DescError
  deriving DecidableEq

/-- The value as it is written, which is `ival` or, for a pointer, `ptr`. -/
def Got.ok (rettype : RetType) (value : Int64) (ret : ℤ) : Got where
  ret := ret
  written := some (rettype, match rettype with
    | .SQL_IS_LEN => value
    | .SQL_IS_INTEGER => value.toInt32.toInt64
    | .SQL_IS_SMALLINT => value.toInt16.toInt64
    | .SQL_IS_POINTER => value)
  error := none

/-- An error that is found late; a 0 is written all the same. -/
def Got.invalid (message : String) : Got :=
  ⟨SQL_ERROR, some (.SQL_IS_INTEGER, 0), some (invalidIdentifier message)⟩

/-- An error that is found at once. -/
def Got.badNumber : Got := ⟨SQL_ERROR, none, some badParameterNumber⟩

/-- What `APDGetField` gives of a record. -/
def getParameterInfo (embedded : Bool) (para : ParameterInfoClass) : FieldIdentifier → Got
  | .SQL_DESC_TYPE => .ok .SQL_IS_SMALLINT (verboseType para.CType).toInt64 SQL_SUCCESS
  | .SQL_DESC_DATETIME_INTERVAL_CODE => .ok .SQL_IS_SMALLINT (datetimeCode para.CType) SQL_SUCCESS
  | .SQL_DESC_CONCISE_TYPE => .ok .SQL_IS_SMALLINT para.CType.toInt64 SQL_SUCCESS
  | .SQL_DESC_DATA_PTR => .ok .SQL_IS_POINTER para.buffer SQL_SUCCESS
  | .SQL_DESC_INDICATOR_PTR => .ok .SQL_IS_POINTER para.indicator SQL_SUCCESS
  | .SQL_DESC_OCTET_LENGTH => .ok .SQL_IS_INTEGER para.buflen SQL_SUCCESS
  | .SQL_DESC_OCTET_LENGTH_PTR => .ok .SQL_IS_POINTER para.used SQL_SUCCESS
  | .SQL_DESC_ALLOC_TYPE =>
    .ok .SQL_IS_SMALLINT (if embedded then SQL_DESC_ALLOC_AUTO else SQL_DESC_ALLOC_USER) SQL_SUCCESS
  | .SQL_DESC_NUM_PREC_RADIX => .ok .SQL_IS_INTEGER 10 SQL_SUCCESS
  | .SQL_DESC_PRECISION => .ok .SQL_IS_SMALLINT para.precision.toInt64 SQL_SUCCESS
  | .SQL_DESC_SCALE => .ok .SQL_IS_SMALLINT para.scale.toInt64 SQL_SUCCESS
  | _ => .invalid "invalid descriptor identifer"

/-- `APDGetField` behind the fields of the header. -/
def APDGetRecordField (embedded : Bool) (opts : APDFields) (RecNumber : ℤ)
    (field : FieldIdentifier) : Except Fault Got :=
  if RecNumber ≤ 0 ∨ opts.records.used < RecNumber then .ok .badNumber
  else do
    let para ← recordAt opts.records RecNumber
    return getParameterInfo embedded para field

/-- `APDGetField`. For `SQL_DESC_COUNT` the type of the value is assigned to the return code. -/
def APDGetField (embedded : Bool) (opts : APDFields) (RecNumber : ℤ) (field : FieldIdentifier) :
    Except Fault Got :=
  match field with
  | .SQL_DESC_ARRAY_SIZE => .ok (.ok .SQL_IS_LEN opts.paramset_size SQL_SUCCESS)
  | .SQL_DESC_ARRAY_STATUS_PTR => .ok (.ok .SQL_IS_POINTER opts.param_operation_ptr SQL_SUCCESS)
  | .SQL_DESC_BIND_OFFSET_PTR => .ok (.ok .SQL_IS_POINTER opts.param_offset_ptr SQL_SUCCESS)
  | .SQL_DESC_BIND_TYPE =>
    .ok (.ok .SQL_IS_INTEGER opts.param_bind_type.toUInt64.toInt64 SQL_SUCCESS)
  | .SQL_DESC_COUNT => .ok (.ok .SQL_IS_INTEGER (Int64.ofInt opts.records.used) SQL_IS_SMALLINT)
  | _ => APDGetRecordField embedded opts RecNumber field

/-- What `IPDGetField` gives of a record. -/
def getParameterImpl (para : ParameterImplClass) : FieldIdentifier → Got
  | .SQL_DESC_UNNAMED =>
    .ok .SQL_IS_SMALLINT (if para.paramName = none then SQL_UNNAMED else SQL_NAMED) SQL_SUCCESS
  | .SQL_DESC_TYPE => .ok .SQL_IS_SMALLINT (verboseType para.SQLType).toInt64 SQL_SUCCESS
  | .SQL_DESC_DATETIME_INTERVAL_CODE =>
    .ok .SQL_IS_SMALLINT (datetimeCode para.SQLType) SQL_SUCCESS
  | .SQL_DESC_CONCISE_TYPE => .ok .SQL_IS_SMALLINT para.SQLType.toInt64 SQL_SUCCESS
  | .SQL_DESC_PARAMETER_TYPE => .ok .SQL_IS_SMALLINT para.paramType.toInt64 SQL_SUCCESS
  | .SQL_DESC_PRECISION =>
    .ok .SQL_IS_SMALLINT
      (if para.SQLType = SQL_TYPE_DATE ∨ para.SQLType = SQL_TYPE_TIME ∨
          para.SQLType = SQL_TYPE_TIMESTAMP ∨ para.SQLType = SQL_DATETIME then
        para.decimal_digits.toInt64 else 0) SQL_SUCCESS
  | .SQL_DESC_SCALE =>
    .ok .SQL_IS_SMALLINT (if para.SQLType = SQL_NUMERIC then para.decimal_digits.toInt64 else 0)
      SQL_SUCCESS
  | .SQL_DESC_ALLOC_TYPE => .ok .SQL_IS_SMALLINT SQL_DESC_ALLOC_AUTO SQL_SUCCESS
  | _ => .invalid "invalid descriptor identifier"

/-- `IPDGetField` behind the fields of the header. -/
def IPDGetRecordField (ipdopts : IPDFields) (RecNumber : ℤ) (field : FieldIdentifier) :
    Except Fault Got :=
  if RecNumber ≤ 0 ∨ ipdopts.records.used < RecNumber then .ok .badNumber
  else do
    let para ← recordAt ipdopts.records RecNumber
    return getParameterImpl para field

/-- `IPDGetField` -/
def IPDGetField (ipdopts : IPDFields) (RecNumber : ℤ) (field : FieldIdentifier) :
    Except Fault Got :=
  match field with
  | .SQL_DESC_ARRAY_STATUS_PTR => .ok (.ok .SQL_IS_POINTER ipdopts.param_status_ptr SQL_SUCCESS)
  | .SQL_DESC_ROWS_PROCESSED_PTR =>
    .ok (.ok .SQL_IS_POINTER ipdopts.param_processed_ptr SQL_SUCCESS)
  | .SQL_DESC_COUNT => .ok (.ok .SQL_IS_SMALLINT (Int64.ofInt ipdopts.records.used) SQL_SUCCESS)
  | _ => IPDGetRecordField ipdopts RecNumber field

/-- `PGAPI_GetDescField`, for the two types of parameter descriptors. -/
def PGAPI_GetDescField (desc : DescriptorClass) (RecNumber : ℤ) (field : FieldIdentifier) :
    Except Fault Got :=
  match desc.fields with
  | .apdf opts => APDGetField desc.embedded opts RecNumber field
  | .ipdf ipdopts => IPDGetField ipdopts RecNumber field

end OdbcDriver.DescField
