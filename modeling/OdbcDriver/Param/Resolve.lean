import OdbcDriver.Param.Literal

/-!
# `ResolveOneParam`

One call resolves the next parameter of a query being built: it advances the parameter
number, leaves out function return values and discarded output parameters, writes a `$n`
marker when the query is being prepared, and otherwise reads the parameter of the current row
and appends its value.
-/

namespace OdbcDriver

/-! ### The query being built -/

/-- What parameter conversion takes from outside the driver. -/
structure Env where
  fm : Formats
  /-- The large-object calls made for a row and a parameter. -/
  lo : Nat → Int → LoCalls

/-- `QueryBuild`: the query being built. `npos` is the length of `query_statement`. -/
structure QueryBuild where
  query_statement : List Byte
  /-- The row whose parameters are resolved. -/
  current_row : Nat
  /-- The parameter resolved last, -1 before the first. -/
  param_number : Int
  dollar_number : Int
  /-- 1 when the first parameter is the return value of a function. -/
  proc_return : Int
  apdopts : APDFields
  ipdopts : IPDFields
  /-- The data supplied at execution; an entry that is not there has none. -/
  pdata : List PutDataClass
  param_mode : ResolveParamMode
  flags : Flags
  conn : ConnectionClass

/-- The part of a `QueryParse` that `ResolveOneParam` reads: the statement being parsed and
the position of the marker in it. -/
structure OldPos where
  statement : List Byte
  opos : Nat
  deriving DecidableEq, Repr

/-- The codes `ResolveOneParam` returns, other than `SQL_ERROR`. -/
inductive ResolveRet
  | success
  /-- `SQL_SUCCESS_WITH_INFO`: an output parameter was left out. -/
  | successWithInfo
  deriving DecidableEq, Repr

/-- The result of `ResolveOneParam`. -/
structure Resolved where
  qb : QueryBuild
  qp : Option OldPos
  ret : ResolveRet
  isnull : Bool
  isbinary : Bool
  pgType : Oid
  /-- The large object that was created for the value. -/
  lobj : Option (Oid × List Byte)

/-- `CVT_APPEND_STR`. -/
def QueryBuild.append (qb : QueryBuild) (s : List Byte) : QueryBuild :=
  { qb with query_statement := qb.query_statement ++ s }

/-- The flags `QB_initialize` sets. -/
def initFlags (conn : ConnectionClass) (discard_output_params : Bool) : Flags where
  inaccurateResult := false
  convertLf := conn.lf_conversion
  discardOutput := discard_output_params
  binaryAsPossible := false
  literalExtension := conn.escape_in_literal ≠ 0 && PG_VERSION_GE conn 8 1
  hexBinFormat := PG_VERSION_GE conn 9 0
  paramCast := false

/-! ### Reading the parameter of a row -/

/-- The data of a parameter: its length and where it is. -/
structure ParamData where
  used : Int
  buffer : Pointer
  handling_large_object : Bool
  deriving DecidableEq, Repr

/-- The data supplied by `SQLPutData`. A parameter without any length counts as a text. -/
def putData (pdata : PutDataClass) : ParamData where
  used := pdata.EXEC_used.getD SQL_NTS
  buffer := match pdata.EXEC_buffer with
    | some data => .mem (data ++ [0])
    | none => .null
  handling_large_object := pdata.lobj_oid ≠ 0

/-- The displacement of row `row` in the bound buffer; it is the offset alone for row 0. -/
def bufferOffset (apdopts : APDFields) (apara : ParameterInfoClass) (row : Nat) : Nat :=
  apdopts.param_offset +
    (if 0 < apdopts.param_bind_type then apdopts.param_bind_type * row
    else if 0 < ctype_length apara.CType then row * ctype_length apara.CType
    else row * apara.buflen)

/-- The displacement of row `row` in the length and indicator arrays. -/
def lengthOffset (apdopts : APDFields) (row : Nat) : Nat :=
  apdopts.param_offset +
    (if 0 < apdopts.param_bind_type then apdopts.param_bind_type * row else 8 * row)

/-- The data of a bound parameter in row `row`: the length is the indicator's if that says
null, else the length array's, else that of a text. -/
def boundData (apdopts : APDFields) (apara : ParameterInfoClass) (row : Nat) : ParamData where
  used :=
    match apara.indicator.map (· (lengthOffset apdopts row)) with
    | some ind =>
      if ind = SQL_NULL_DATA then SQL_NULL_DATA
      else (apara.used.map (· (lengthOffset apdopts row))).getD SQL_NTS
    | none => (apara.used.map (· (lengthOffset apdopts row))).getD SQL_NTS
  buffer :=
    match apara.buffer with
    | some buffer => .mem (buffer (bufferOffset apdopts apara row))
    | none => if bufferOffset apdopts apara row = 0 then .null else .invalid
  handling_large_object := false

/-- The entry of parameter `param_number` in the data supplied at execution. -/
def pdataOf (pdata : List PutDataClass) (param_number : Int) : PutDataClass :=
  pdata.getD param_number.toNat ⟨none, none, 0⟩

/-- The data of a parameter, supplied at execution or bound. -/
def paramData (qb : QueryBuild) (apara : ParameterInfoClass) : ParamData :=
  if apara.data_at_exec then putData (pdataOf qb.pdata qb.param_number)
  else boundData qb.apdopts apara qb.current_row

/-- The SQL type a value is converted to; a missing one is derived from the server's type. -/
def effectiveSqlType (fm : Formats) (sqltype : SqlType) (pgtype : Oid) : SqlType :=
  if sqltype = .unknown ∧ pgtype ≠ 0 then fm.pgtype_attr_to_concise_type pgtype else sqltype

/-- What a parameter with the given data resolves to. -/
def resolveData (env : Env) (conn : ConnectionClass) (mode : ResolveParamMode)
    (flags : Flags) (lo : LoCalls) (pdataOid : Oid) (apara : ParameterInfoClass)
    (ipara : ParameterImplClass) (data : ParamData) : Except Fault Converted :=
  let param_pgtype := PIC_dsp_pgtype conn ipara
  let param_sqltype := effectiveSqlType env.fm ipara.SQLType param_pgtype
  if ipara.paramType = .output ∨ data.used = SQL_NULL_DATA ∨ data.used = SQL_DEFAULT_PARAM then
    .ok .null
  -- no buffer, and not null
  else if data.buffer = .null ∧ mode = .fakeParams then .ok .unknown
  else if data.buffer = .null ∧ !data.handling_large_object then
    .error (.error .unexpectedNull)
  else
    convertParam env.fm conn lo flags.binaryAsPossible apara.data_at_exec pdataOid
      apara.precision (resolveDefault conn apara.CType param_sqltype) param_sqltype
      param_pgtype data.buffer data.used

/-! ### Markers and discarded parameters -/

/-- `parameter_is_with_cast`: the marker is followed by a cast of its own. -/
def parameter_is_with_cast (qp : OldPos) : Bool :=
  match qp.statement.drop qp.opos with
  | c :: rest =>
    let str := rest.dropWhile isSpace
    c = 0x3f && (str.take 2 = ascii "::" ||
      ((str.headD 0 = 0x61 || str.headD 0 = 0x41) &&
        ((str.drop 1).headD 0 = 0x73 || (str.drop 1).headD 0 = 0x53) &&
        isSpace ((str.drop 2).headD 0)))
  | [] => false

/-- `sqltype_to_pgcast`. -/
def sqltype_to_pgcast (conn : ConnectionClass) : SqlType → String
  | .binary | .varbinary => "::bytea"
  | .typeDate | .date => "::date"
  | .decimal | .numeric => "::numeric"
  | .bigint => "::int8"
  | .integer => "::int4"
  | .real => "::float4"
  | .smallint => "::int2"
  | .tinyint => "::int1"
  | .time | .typeTime => "::time"
  | .timestamp | .typeTimestamp => "::timestamp"
  | .guid => if PG_VERSION_GE conn 8 3 then "::uuid" else ""
  | .interval _ => "::interval"
  | _ => ""

/-- The text of the marker `$n`, with a cast when casts are wanted and the statement has
none. -/
def dollarMarker (qb : QueryBuild) (qp : Option OldPos) (ipara : Option ParameterImplClass) :
    List Byte :=
  ascii ("$" ++ toString qb.dollar_number) ++
    match ipara with
    | some ipara =>
      if ipara.paramType ≠ .output ∧ qb.flags.paramCast ∧
          (qp.map parameter_is_with_cast).getD false = false then
        ascii (sqltype_to_pgcast qb.conn ipara.SQLType)
      else []
    | none => []

/-- The comma that separated a discarded output parameter goes with it: the one before it, or
the one after it when it is the first. -/
def discardOutput (qb : QueryBuild) (qp : Option OldPos) : QueryBuild × Option OldPos :=
  match qb.query_statement.reverse.dropWhile isSpace with
  | c :: before =>
    if c = 0x2c then ({ qb with query_statement := before.reverse }, qp)
    else if c = 0x28 then
      (qb, qp.map fun qp =>
        let npos := qp.opos + 1 + ((qp.statement.drop (qp.opos + 1)).takeWhile isSpace).length
        if qp.statement[npos]? = some 0x2c then { qp with opos := npos } else qp)
    else (qb, qp)
  | [] => (qb, qp)

/-! ### The function -/

/-- A result without a value. -/
def Resolved.plain (qb : QueryBuild) (qp : Option OldPos) (ret : ResolveRet) : Resolved :=
  ⟨qb, qp, ret, false, false, 0, none⟩

/-- The value part of `ResolveOneParam`: the parameter `qb.param_number` of the current row is
read, converted and appended. -/
def resolveValue (env : Env) (qb : QueryBuild) (qp : Option OldPos)
    (apara : ParameterInfoClass) (ipara : ParameterImplClass) : Except Fault Resolved := do
  let pgType := sqltype_to_bind_pgtype qb.conn ipara.SQLType
  let data := paramData qb apara
  match ← resolveData env qb.conn qb.param_mode qb.flags
      (env.lo qb.current_row qb.param_number)
      (pdataOf qb.pdata qb.param_number).lobj_oid apara ipara data with
  | .null =>
    let qb := if qb.param_mode = .buildingBindRequest then qb else qb.append (ascii "NULL")
    return ⟨qb, qp, .success, true, false, pgType, none⟩
  | .unknown =>
    let qb := qb.append (ascii "NULL")
    return .plain { qb with flags := { qb.flags with inaccurateResult := true } } qp .success
  | .value v =>
    let out ← emit qb.conn qb.flags qb.param_mode v
    return ⟨qb.append out, qp, .success, false, v.isbinary, pgType, v.lobj⟩

/-- `ResolveOneParam`: the next parameter of the query. -/
def ResolveOneParam (env : Env) (qb : QueryBuild) (qp : Option OldPos) :
    Except Fault Resolved :=
  let qb := { qb with param_number := qb.param_number + 1 }
  let apara := qb.apdopts.parameters[qb.param_number.toNat]?
  let ipara := qb.ipdopts.parameters[qb.param_number.toNat]?
  let paramType := ipara.map (·.paramType)
  let valueOutput := qb.param_mode ≠ .fakeParams ∧ qb.param_mode ≠ .buildingPrepareStatement
  if (apara.isNone ∨ ipara.isNone) ∧ valueOutput then .error (.error .countField)
  else if qb.param_number < qb.proc_return then
    if paramType = some .input ∨ paramType = some .inputOutput then
      .error (.error .returnNotOutput)
    else .ok (.plain qb qp .success)
  else if paramType = some .output ∧ PG_VERSION_LT qb.conn 8 1 then
    .error (.error .outputUnavailable)
  else if paramType = some .output ∧ qb.flags.discardOutput then
    let (qb, qp) := discardOutput qb qp
    .ok (.plain qb qp .successWithInfo)
  else if (apara.isNone ∨ ipara.isNone) ∧ qb.param_mode = .fakeParams then
    let qb := qb.append (ascii "NULL")
    .ok (.plain { qb with flags := { qb.flags with inaccurateResult := true } } qp .success)
  else if qb.param_mode = .buildingPrepareStatement then
    let qb := { qb with dollar_number := qb.dollar_number + 1 }
    .ok (.plain (qb.append (dollarMarker qb qp ipara)) qp .success)
  else
    match apara, ipara with
    | some apara, some ipara => resolveValue env qb qp apara ipara
    | _, _ => .error (.error .countField)

/-! ### A plain setting

A UTF-8 connection to a server with standard conforming strings, and a text parameter whose
value passes through unchanged. -/

/-- A setting in which texts need no conversion. -/
def sampleEnv : Env where
  fm :=
    { printC := fun _ _ _ => []
      readTime := fun _ _ => .zero
      parse_datetime := fun _ st => st
      printTimestamp := fun _ => []
      printDate := fun _ => []
      printTime := fun _ => []
      stime2timestamp := fun _ => []
      decimal_point := 0x2e
      ucs2_to_utf8 := fun _ _ => none
      bindpara_msg_to_utf8 := some
      bindpara_wchar_to_msg := some
      zeroLengthOnError := false
      pgtype_attr_to_concise_type := fun _ => .varchar }
  lo := fun _ _ => ⟨true, 16385, 0, true, true⟩

def sampleLo : LoCalls := ⟨true, 16385, 0, true, true⟩

def sampleConn : ConnectionClass where
  ccsc := .utf8
  escape_in_literal := 0
  pg_version := (9, 2)
  lf_conversion := false
  bytea_as_longvarbinary := true
  text_as_longvarchar := true
  cvt_null_date_string := false
  ms_jet := false
  allow_wchar := true
  convtype := false
  wcs_debug := false
  same_encoding := true
  lobj_type := 16384
  lobj_type_not_builtin := by decide
  lo_is_domain := false

def sampleFlags : Flags := ⟨false, false, false, false, false, true, false⟩

/-- A text buffer with nothing in it, for a parameter supplied at execution. -/
def sampleText : ParameterInfoClass where
  CType := .char
  buflen := 0
  buffer := none
  used := none
  indicator := none
  precision := 0
  data_at_exec := true

def sampleVarchar : ParameterImplClass := ⟨.input, .varchar, 0⟩

end OdbcDriver
