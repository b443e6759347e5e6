import OdbcDriver.Encoding.Multibyte

/-!
# Parameters: types and descriptors

The C type of a bound parameter (the application's side, APD), its SQL type (the driver's
side, IPD), the type the server sees, and the records that hold them. A pointer of the
application is a function from a displacement to what can be read there, because
`ResolveOneParam` displaces every pointer by the row it resolves.
-/

namespace OdbcDriver

/-! ### Types -/

/-- The thirteen units of an interval type. -/
inductive IntervalUnit
  | year | month | yearToMonth | day | hour | dayToHour | minute | dayToMinute | hourToMinute
  | second | dayToSecond | hourToSecond | minuteToSecond
  deriving DecidableEq, Repr

/-- The C types of a parameter (`SQL_C_CHAR`, ...). -/
inductive CType
  | char | wchar | binary | default
  | sshort | short | ushort | slong | long | ulong | sbigint | bigint | ubigint
  | float | double | bit | stinyint | tinyint | utinyint
  | date | typeDate | time | typeTime | timestamp | typeTimestamp
  | numeric | guid | interval (unit : IntervalUnit) | other (code : Int)
  deriving DecidableEq, Repr

/-- The SQL types of a parameter (`SQL_CHAR`, ...); `unknown` is the code 0. -/
inductive SqlType
  | unknown | char | varchar | longvarchar | wchar | wvarchar | wlongvarchar
  | decimal | numeric | bigint | bit | tinyint | smallint | integer | real | float | double
  | binary | varbinary | longvarbinary
  | date | time | timestamp | typeDate | typeTime | typeTimestamp
  | guid | interval (unit : IntervalUnit) | other (code : Int)
  deriving DecidableEq, Repr

/-- An object identifier of the server (`OID`, 32 bits). -/
abbrev Oid := BitVec 32

def PG_TYPE_BOOL : Oid := 16
def PG_TYPE_BYTEA : Oid := 17
def PG_TYPE_INT8 : Oid := 20
def PG_TYPE_INT2 : Oid := 21
def PG_TYPE_INT4 : Oid := 23
def PG_TYPE_TEXT : Oid := 25
def PG_TYPE_OID : Oid := 26
def PG_TYPE_RAW : Oid := 86
def PG_TYPE_BLOB : Oid := 88
def PG_TYPE_LONG_RAW : Oid := 94
def PG_TYPE_FLOAT4 : Oid := 700
def PG_TYPE_FLOAT8 : Oid := 701
def PG_TYPE_BPCHAR : Oid := 1042
def PG_TYPE_VARCHAR : Oid := 1043
def PG_TYPE_DATE : Oid := 1082
def PG_TYPE_TIME : Oid := 1083
def PG_TYPE_TIMESTAMP_NO_TMZONE : Oid := 1114
def PG_TYPE_DATETIME : Oid := 1184
def PG_TYPE_INTERVAL : Oid := 1186
def PG_TYPE_NUMERIC : Oid := 1700
def PG_TYPE_VOID : Oid := 2278
def PG_TYPE_UUID : Oid := 2950
def PG_TYPE_INT1 : Oid := 5545
def PG_TYPE_MYSQL_BINARY : Oid := 9779

/-- `ctype_length`: the size of a value of a fixed-size C type, 0 for the others. -/
def ctype_length : CType → Nat
  | .sshort | .short | .ushort => 2
  | .slong | .long | .ulong => 4
  | .float => 4
  | .double => 8
  | .bit | .stinyint | .tinyint | .utinyint => 1
  | .date | .typeDate => 6
  | .time | .typeTime => 6
  | .timestamp | .typeTimestamp => 16
  | .guid => 16
  | .interval _ => 28
  | .numeric => 19
  | .sbigint | .ubigint => 8
  | .binary | .char | .wchar => 0
  | .default | .bigint | .other _ => 0

/-! ### The connection -/

/-- The settings of a connection that parameter processing reads. -/
structure ConnectionClass where
  /-- The client encoding. -/
  ccsc : Ccsc
  /-- `CC_get_escape`: the escape character of an ordinary literal, 0 under
  `standard_conforming_strings`. -/
  escape_in_literal : Byte
  /-- The server's version, major and minor. -/
  pg_version : Nat × Nat
  lf_conversion : Bool
  bytea_as_longvarbinary : Bool
  text_as_longvarchar : Bool
  cvt_null_date_string : Bool
  ms_jet : Bool
  /-- `ALLOW_WCHAR`. -/
  allow_wchar : Bool
  /-- `get_convtype() > 0`: wide characters can be converted to the current locale. -/
  convtype : Bool
  wcs_debug : Bool
  /-- `ccsc == pg_CS_code(locale_encoding)`. -/
  same_encoding : Bool
  /-- The type of large objects, 0 when there is no usable one. -/
  lobj_type : Oid
  /-- The server numbers a type that is not built in from 16384 on; the driver's mark for "not
  looked up yet" is larger still. -/
  lobj_type_not_builtin : lobj_type = 0 ∨ 16384 ≤ lobj_type.toNat
  lo_is_domain : Bool

/-- `PG_VERSION_GE`. -/
def PG_VERSION_GE (conn : ConnectionClass) (major minor : Nat) : Bool :=
  major < conn.pg_version.1 || (conn.pg_version.1 = major && minor ≤ conn.pg_version.2)

/-- `PG_VERSION_LT`. -/
def PG_VERSION_LT (conn : ConnectionClass) (major minor : Nat) : Bool :=
  !PG_VERSION_GE conn major minor

/-- `sqltype_to_default_ctype`, with `ansi_to_wtype` for the wide character types. -/
def sqltype_to_default_ctype (conn : ConnectionClass) : SqlType → CType
  | .char | .varchar | .longvarchar | .decimal | .numeric => .char
  | .bigint => .sbigint
  | .wchar | .wvarchar | .wlongvarchar => if conn.allow_wchar then .wchar else .char
  | .bit => .bit
  | .tinyint => .utinyint
  | .smallint => .sshort
  | .integer => .slong
  | .real => .float
  | .float | .double => .double
  | .binary | .varbinary | .longvarbinary => .binary
  | .date => .date
  | .time => .time
  | .timestamp => .timestamp
  | .typeDate => .typeDate
  | .typeTime => .typeTime
  | .typeTimestamp => .typeTimestamp
  | .guid => if conn.ms_jet then .char else .guid
  | .unknown | .interval _ | .other _ => .char

/-- The C type a parameter is read as: `SQL_C_DEFAULT` stands for the default of the SQL type,
which is never wide (`CC_default_is_c`). -/
def resolveDefault (conn : ConnectionClass) (ctype : CType) (sqltype : SqlType) : CType :=
  if ctype = .default then
    match sqltype_to_default_ctype conn sqltype with
    | .wchar => .char
    | c => c
  else ctype

/-- `sqltype_to_pgtype`: the server's type for an SQL type, 0 where there is none. -/
def sqltype_to_pgtype (conn : ConnectionClass) : SqlType → Oid
  | .binary | .varbinary => PG_TYPE_BYTEA
  | .char | .wchar => PG_TYPE_BPCHAR
  | .bit => PG_TYPE_BOOL
  | .typeDate | .date => PG_TYPE_DATE
  | .double | .float => PG_TYPE_FLOAT8
  | .decimal | .numeric => PG_TYPE_NUMERIC
  | .bigint => PG_TYPE_INT8
  | .integer => PG_TYPE_INT4
  | .longvarbinary => if conn.bytea_as_longvarbinary then PG_TYPE_BYTEA else conn.lobj_type
  | .longvarchar | .wlongvarchar =>
    if conn.text_as_longvarchar then PG_TYPE_TEXT else PG_TYPE_VARCHAR
  | .real => PG_TYPE_FLOAT4
  | .smallint => PG_TYPE_INT2
  | .tinyint => PG_TYPE_INT1
  | .time | .typeTime => PG_TYPE_TIME
  | .timestamp | .typeTimestamp => PG_TYPE_DATETIME
  | .varchar | .wvarchar => PG_TYPE_VARCHAR
  | .guid => if PG_VERSION_GE conn 8 3 then PG_TYPE_UUID else 0
  | .interval _ => PG_TYPE_INTERVAL
  | .unknown | .other _ => 0

/-- `sqltype_to_bind_pgtype`: the driver lets the server decide. -/
def sqltype_to_bind_pgtype (_ : ConnectionClass) (_ : SqlType) : Oid := 0

/-! ### Descriptors -/

/-- The direction of a parameter. -/
inductive ParamType | input | inputOutput | output
  deriving DecidableEq, Repr

/-- `SQL_NULL_DATA`. -/
def SQL_NULL_DATA : Int := -1
/-- `SQL_NTS`: the text ends at its first NUL. -/
def SQL_NTS : Int := -3
/-- `SQL_DEFAULT_PARAM`. -/
def SQL_DEFAULT_PARAM : Int := -5

/-- `ParameterInfoClass`: a parameter as the application bound it (APD). -/
structure ParameterInfoClass where
  CType : CType
  buflen : Nat
  /-- What can be read from a displacement of the bound buffer on; `none` is the null
  pointer. -/
  buffer : Option (Nat → List Byte)
  used : Option (Nat → Int)
  indicator : Option (Nat → Int)
  precision : Int
  data_at_exec : Bool

/-- `ParameterImplClass`: a parameter as the driver describes it (IPD). -/
structure ParameterImplClass where
  paramType : ParamType
  SQLType : SqlType
  PGType : Oid
  deriving DecidableEq, Repr

/-- `PIC_dsp_pgtype`. -/
def PIC_dsp_pgtype (conn : ConnectionClass) (pari : ParameterImplClass) : Oid :=
  if pari.PGType ≠ 0 then pari.PGType else sqltype_to_pgtype conn pari.SQLType

/-- `PutDataClass`: what `SQLPutData` has supplied for a parameter. `EXEC_buffer` is the data
without the NUL that the driver stores behind it. -/
structure PutDataClass where
  EXEC_used : Option Int
  EXEC_buffer : Option (List Byte)
  lobj_oid : Oid
  deriving DecidableEq, Repr

/-- The application's descriptor (`APDFields`). -/
structure APDFields where
  parameters : List ParameterInfoClass
  /-- `*param_offset_ptr`, 0 when not set. -/
  param_offset : Nat
  /-- The size of a row of parameters, 0 for column-wise binding. -/
  param_bind_type : Nat
  paramset_size : Nat
  /-- The rows marked `SQL_PARAM_IGNORE`; `none` when no operation array is set. -/
  param_operation_ptr : Option (Nat → Bool)

/-- The driver's descriptor (`IPDFields`). -/
structure IPDFields where
  parameters : List ParameterImplClass

end OdbcDriver
