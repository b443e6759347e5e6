import OdbcDriver.Lib.CInt
import OdbcDriver.Param.Types

/-!
# Converting one parameter value

The middle part of `ResolveOneParam`: from the buffer and the length of a parameter to the
text, or the binary value, that is sent for it. The value passes through a neutral form (a
text in `send_buf`, a text in `param_string`, or the fields of a date and time) to a form
that depends on the SQL type. What the C library prints and parses, and the conversions
between the locale's encoding and the client encoding, are parameters (`Formats`).
-/

namespace OdbcDriver

open CInt (wrap)

/-! ### Failures -/

/-- The errors that `ResolveOneParam` reports. -/
inductive ResolveError
  | countField | returnNotOutput | outputUnavailable | unexpectedNull | toWide | toLocale
  | unrecognizedCType | notBinary | notLo | loBegin | loCreate | loOpen | loWrite | loCommit
  | noConversion
  deriving DecidableEq, Repr

/-- `qb->errormsg`. -/
def ResolveError.errormsg : ResolveError → String
  | .countField => "The # of binded parameters < the # of parameter markers"
  | .returnNotOutput => "The function return value isn't marked as output parameter"
  | .outputUnavailable => "Output parameter isn't available before 8.1 version"
  | .unexpectedNull => "unexpected NULL parameter value"
  | .toWide => "could not convert the current data to wide chars"
  | .toLocale => "Could not convert from wide characters to the current locale"
  | .unrecognizedCType => "Unrecognized C_parameter type in copy_statement_with_parameters"
  | .notBinary => "Could not convert the ctype to binary type"
  | .notLo => "Could not convert binary other than LO type"
  | .loBegin => "Could not begin (in-line) a transaction"
  | .loCreate => "Couldn't create (in-line) large object."
  | .loOpen => "Couldn't open (in-line) large object for writing."
  | .loWrite => "Couldn't write to (in-line) large object."
  | .loCommit => "Could not commit (in-line) a transaction"
  | .noConversion => "Could not convert parameter ctype to sqltype"

/-- The error numbers of a statement that parameter processing uses. -/
inductive StmtError
  | STMT_EXEC_ERROR | STMT_COUNT_FIELD_INCORRECT | STMT_INTERNAL_ERROR
  | STMT_NOT_IMPLEMENTED_ERROR | STMT_INVALID_ARGUMENT_NO | STMT_SEQUENCE_ERROR
  | STMT_VALUE_OUT_OF_RANGE
  deriving DecidableEq, Repr

/-- `qb->errornumber`. -/
def ResolveError.errornumber : ResolveError → StmtError
  | .countField => .STMT_COUNT_FIELD_INCORRECT
  | .outputUnavailable => .STMT_INTERNAL_ERROR
  | .unrecognizedCType => .STMT_NOT_IMPLEMENTED_ERROR
  | _ => .STMT_EXEC_ERROR

/-- How a step of `ResolveOneParam` fails: with an error, or by reading memory that a null
or invalid pointer does not give. -/
inductive Fault
  | error (e : ResolveError)
  | undefined
  deriving DecidableEq, Repr

/-- A pointer to bytes: null, not null but not readable, or to memory. Memory that ends with
the list reads as NUL from there on. -/
inductive Pointer
  | null
  | invalid
  | mem (bytes : List Byte)
  deriving DecidableEq, Repr

/-- What a dereference reads. -/
def Pointer.read : Pointer → Except Fault (List Byte)
  | .mem bytes => .ok bytes
  | _ => .error .undefined

/-- What a copy of `n` bytes reads; nothing is read when `n` is 0. -/
def Pointer.readN (p : Pointer) (n : Int) : Except Fault (List Byte) :=
  if n = 0 then .ok [] else p.read

@[simp]
theorem Pointer.read_mem (s : List Byte) : (Pointer.mem s).read = .ok s := rfl

@[simp]
theorem Pointer.read_null : Pointer.null.read = .error .undefined := rfl

@[simp]
theorem Pointer.readN_zero (p : Pointer) : p.readN 0 = .ok [] := rfl

theorem Pointer.readN_mem (s : List Byte) (n : Int) :
    (Pointer.mem s).readN n = .ok (if n = 0 then [] else s) := by
  unfold Pointer.readN
  split <;> rfl

theorem Pointer.readN_null_of_ne {n : Int} (hn : n ≠ 0) :
    Pointer.null.readN n = .error .undefined := by
  rw [Pointer.readN, if_neg hn, Pointer.read_null]

/-! ### Texts -/

/-- `strlen`. -/
def strlen (s : List Byte) : Nat := (s.takeWhile (· ≠ 0)).length

/-- `ucs2strlen`: the number of wide characters before the NUL. -/
def ucs2strlen : List Byte → Nat
  | a :: b :: rest => if a = 0 ∧ b = 0 then 0 else ucs2strlen rest + 1
  | _ => 0

/-- `sizeof(SQLWCHAR)`. -/
def WCLEN : Nat := 2

/-- The value of one hexadecimal digit, as `pg_hex2bin` computes it for any byte. -/
def hexVal (chr : Byte) : Byte :=
  if 0x61 ≤ chr ∧ chr ≤ 0x66 then chr - 0x61 + 10
  else if 0x41 ≤ chr ∧ chr ≤ 0x46 then chr - 0x41 + 10
  else chr - 0x30

/-- The digits of a hexadecimal text, two a byte; a last digit alone is dropped. -/
def hexBytes : List Byte → List Byte
  | h :: l :: rest => ((hexVal h <<< 4) + hexVal l) :: hexBytes rest
  | _ => []

/-- `pg_hex2bin` over the first `length` bytes of `src`, into an allocation of
`length / 2 + 1` bytes. It stops at a NUL byte; what it leaves of the allocation is
indeterminate and reads as NUL here. -/
def pg_hex2bin (src : List Byte) (length : Nat) : List Byte :=
  let out := hexBytes ((src.take length).takeWhile (· ≠ 0))
  out ++ List.replicate (length / 2 + 1 - out.length) 0

/-- `set_server_decimal_point` after its first `i` bytes: the first decimal point of the
locale becomes a `.`. -/
def replaceDecimalPoint (decimal_point : Byte) (len : Int) : Nat → List Byte → List Byte
  | _, [] => []
  | i, c :: num =>
    if c = 0 then c :: num
    else if c = decimal_point then 0x2e :: num
    else if len ≠ SQL_NTS ∧ len ≤ i then c :: num
    else c :: replaceDecimalPoint decimal_point len (i + 1) num

/-- `set_server_decimal_point`. -/
def set_server_decimal_point (decimal_point : Byte) (num : Pointer) (len : Int) :
    Except Fault Pointer :=
  if decimal_point = 0x2e then .ok num
  else do
    let num ← num.read
    return .mem (replaceDecimalPoint decimal_point len 0 num)

/-- `valid_int_literal`: whether the text is an integer, and whether it is negative. -/
def valid_int_literal (str : List Byte) (len : Int) : Bool × Bool :=
  let negative := (len = SQL_NTS ∨ 0 < len) ∧ str.head? = some 0x2d
  let i : Nat := if negative then 1 else 0
  let body := if len = SQL_NTS then (str.drop i).takeWhile (· ≠ 0)
    else ((str.drop i).take (len - i).toNat).takeWhile (· ≠ 0)
  (len ≠ i && isDigit ((str.drop i).headD 0) && body.all isDigit, negative)

/-- `filed_is_bytea`: the server types that hold binary data. -/
def filed_is_bytea (field_type : Oid) : Bool :=
  field_type = PG_TYPE_BYTEA || field_type = PG_TYPE_MYSQL_BINARY ||
    field_type = PG_TYPE_RAW || field_type = PG_TYPE_LONG_RAW || field_type = PG_TYPE_BLOB

/-! ### The environment -/

/-- The date and time fields of a value (`SIMPLE_TIME`). -/
structure SimpleTime where
  y : Int
  m : Int
  d : Int
  hh : Int
  mm : Int
  ss : Int
  fr : Int
  deriving DecidableEq, Repr

/-- `memset(&st, 0, sizeof(st))`. -/
def SimpleTime.zero : SimpleTime := ⟨0, 0, 0, 0, 0, 0, 0⟩

/-- What the C library and the locale do for parameter conversion. -/
structure Formats where
  /-- What the case of a fixed-size C type prints into `param_string`, from the precision of
  the parameter and the bytes of its value. -/
  printC : CType → Int → List Byte → List Byte
  /-- The fields that the case of a date or time C type reads. -/
  readTime : CType → List Byte → SimpleTime
  parse_datetime : List Byte → SimpleTime → SimpleTime
  /-- `"%.4d-%.2d-%.2d %.2d:%.2d:%.2d"`. -/
  printTimestamp : SimpleTime → List Byte
  /-- `"%.4d-%.2d-%.2d"`, with `BC` for a negative year. -/
  printDate : SimpleTime → List Byte
  /-- `"%.2d:%.2d:%.2d"` and the fraction. -/
  printTime : SimpleTime → List Byte
  stime2timestamp : SimpleTime → List Byte
  /-- `get_current_decimal_point`. -/
  decimal_point : Byte
  /-- The text of a number of wide characters; `none` for an unpaired surrogate. -/
  ucs2_to_utf8 : List Byte → Nat → Option (List Byte)
  /-- The client encoding of a text in the locale's encoding. -/
  bindpara_msg_to_utf8 : List Byte → Option (List Byte)
  /-- The locale's encoding of a text in wide characters. -/
  bindpara_wchar_to_msg : List Byte → Option (List Byte)
  /-- `convert_err_flag` is `ReturnZeroLengthString`. -/
  zeroLengthOnError : Bool
  pgtype_attr_to_concise_type : Oid → SqlType

/-- The server's large-object calls for one parameter of one row. -/
structure LoCalls where
  /-- A transaction is open, or `CC_begin` opens one. -/
  begun : Bool
  /-- `odbc_lo_creat`: the new object, 0 on failure. -/
  creat : Oid
  /-- `odbc_lo_open`: a descriptor, negative on failure. -/
  open_ : Int
  /-- `odbc_lo_write` succeeds. -/
  written : Bool
  /-- The transaction was open at entry, or `CC_commit` succeeds. -/
  committed : Bool
  deriving DecidableEq, Repr

/-! ### The neutral form -/

/-- The neutral form of a value: `send_buf` with its length, `param_string`, and the fields
of a date and time. -/
structure Neutral where
  send_buf : Pointer
  used : Int
  param_string : List Byte
  st : SimpleTime

/-- The text the locale conversions read: up to the NUL for `SQL_NTS`, else `used` bytes;
`none` for any other negative length. -/
def localeText (wide : Bool) (buffer : Pointer) (used : Int) :
    Except Fault (Option (List Byte)) :=
  if used = SQL_NTS then do
    let s ← buffer.read
    return some (s.take (if wide then WCLEN * ucs2strlen s else strlen s))
  else if used < 0 then .ok none
  else do
    let s ← buffer.readN used
    return some (s.take used.toNat)

/-- The conversion between the locale's encoding and the client encoding: the converted text
and its length, when there is a conversion to make. -/
def localeConvert (fm : Formats) (conn : ConnectionClass) (param_ctype : CType)
    (buffer : Pointer) (used : Int) : Except Fault (Pointer × Int) :=
  if !conn.convtype then .ok (.null, used)
  else match param_ctype with
    | .char =>
      if !conn.same_encoding || conn.wcs_debug then do
        let text ← localeText false buffer used
        match text.bind fm.bindpara_msg_to_utf8 with
        | some out => return (.mem out, out.length)
        | none =>
          -- `handle_lu_onvert_error`: an empty string stands for the value, if so configured
          if buffer ≠ .null ∧ fm.zeroLengthOnError then return (.mem [], 0)
          else throw (.error .toWide)
      else .ok (.null, used)
    | .wchar =>
      if conn.ccsc ≠ .utf8 || (conn.same_encoding && conn.wcs_debug) then do
        let text ← localeText true buffer used
        match text.bind fm.bindpara_wchar_to_msg with
        | some out => return (.mem out, out.length)
        | none => throw (.error .toLocale)
      else .ok (.null, used)
    | _ => .ok (.null, used)

/-- `ucs2_to_utf8` with its length argument: the text, and its length or a negative code. -/
def wideText (fm : Formats) (buffer : Pointer) (used : Int) : Except Fault (Pointer × Int) :=
  if buffer = .null then .ok (.null, SQL_NULL_DATA)
  else if used < 0 ∧ used ≠ SQL_NTS then .ok (.null, -1)
  else do
    let s ← buffer.readN (if used = SQL_NTS then used else used / WCLEN)
    let ilen := if used = SQL_NTS then ucs2strlen s else (used / WCLEN).toNat
    match fm.ucs2_to_utf8 s ilen with
    | some out => return (.mem out, out.length)
    | none => return (.null, -1)

/-- The first switch of `ResolveOneParam`: the value of a C type in neutral form. -/
def neutralForm (fm : Formats) (conn : ConnectionClass) (precision : Int) (param_ctype : CType)
    (buffer : Pointer) (used : Int) : Except Fault Neutral := do
  let (send_buf, used) ← localeConvert fm conn param_ctype buffer used
  match param_ctype with
  | .binary => return ⟨buffer, used, [], .zero⟩
  | .char => return ⟨if send_buf = .null then buffer else send_buf, used, [], .zero⟩
  | .wchar =>
    if send_buf = .null then
      let (send_buf, used) ← wideText fm buffer used
      return ⟨send_buf, used, [], .zero⟩
    else return ⟨send_buf, used, [], .zero⟩
  | .date | .typeDate | .time | .typeTime | .timestamp | .typeTimestamp =>
    let s ← buffer.read
    return ⟨.null, used, [], fm.readTime param_ctype s⟩
  | .default | .other _ => throw (.error .unrecognizedCType)
  | _ =>
    let s ← buffer.read
    return ⟨.null, used, fm.printC param_ctype precision s, .zero⟩

/-- Whether the value is the empty string that stands for a null date
(`cvt_null_date_string`). -/
def isNullDate (conn : ConnectionClass) (param_pgtype : Oid) (param_ctype : CType)
    (send_buf : Pointer) : Bool :=
  conn.cvt_null_date_string &&
    (param_pgtype = PG_TYPE_DATE || param_pgtype = PG_TYPE_DATETIME ||
      param_pgtype = PG_TYPE_TIMESTAMP_NO_TMZONE) &&
    match send_buf with
    | .mem s =>
      (param_ctype = .char && s.getD 0 0 = 0) ||
        (param_ctype = .wchar && s.getD 0 0 = 0 && s.getD 1 0 = 0)
    | _ => false

/-! ### The form of the SQL type -/

/-- A converted value: what is sent and how it is written into a statement. -/
structure Value where
  send_buf : List Byte
  used : Int
  isbinary : Bool
  /-- The value still has to be written as an escaped binary string. -/
  final_binary_convert : Bool
  need_quotes : Bool
  add_parens : Bool
  /-- The cast that may follow the literal. -/
  lastadd : Option String
  /-- The large object that was created for the value, with its content. -/
  lobj : Option (Oid × List Byte)
  deriving DecidableEq, Repr

/-- What a parameter resolves to. -/
inductive Converted
  | null
  /-- No value is known: `NULL` stands for it in a query that is only described. -/
  | unknown
  | value (v : Value)
  deriving DecidableEq, Repr

/-- The state of the second switch of `ResolveOneParam`. -/
structure SqlForm where
  send_buf : Pointer
  used : Int
  isbinary : Bool := false
  final_binary_convert : Bool := false
  need_quotes : Bool := true
  add_parens : Bool := false
  lastadd : Option String := none
  lobj : Option (Oid × List Byte) := none

/-- `my_strcpy` of the value into a buffer of `2 * PG_NUMERIC_MAX_PRECISION` bytes. -/
def cbufText (send_buf : List Byte) (used : Int) : List Byte :=
  let len : Int := if used = SQL_NTS then strlen send_buf else used
  (send_buf.take (min len.toNat 1999)).takeWhile (· ≠ 0)

/-- The date and time fields of a value: parsed from its text, if it is one. -/
def timeFields (fm : Formats) (n : Neutral) : Except Fault SimpleTime :=
  match n.send_buf with
  | .null => .ok n.st
  | p => do
    let s ← p.read
    return fm.parse_datetime (cbufText s n.used) n.st

/-- The binary SQL types. -/
def SqlType.isBinary : SqlType → Bool
  | .binary | .varbinary | .longvarbinary => true
  | _ => false

/-- The bytes of a value of a binary SQL type: those of a hexadecimal text, or the bytes
themselves. -/
def binaryBytes (param_ctype : CType) (n : Neutral) : Except Fault (Pointer × Int) :=
  match param_ctype with
  | .binary => .ok (n.send_buf, n.used)
  | .char | .wchar => do
    let used ← (if n.used = SQL_NTS then do
      let s ← n.send_buf.read
      return (strlen s : Int)
    else .ok n.used)
    let s ← n.send_buf.readN (if used < 0 then 0 else used)
    return (.mem (pg_hex2bin s used.toNat), used.tdiv 2)
  | _ => .error (.error .notBinary)

/-- The value that stands for a large object: its number. -/
def loForm (oid : Oid) (lobj : Option (Oid × List Byte)) : SqlForm where
  send_buf := .mem (ascii (toString oid.toNat))
  used := SQL_NTS
  lastadd := some "::lo"
  lobj := lobj

/-- A new large object with the bytes of the buffer, as many as the converted value has. -/
def createLo (lo : LoCalls) (buffer : Pointer) (used : Int) : Except Fault SqlForm :=
  if !lo.begun then .error (.error .loBegin)
  else if lo.creat = 0 then .error (.error .loCreate)
  else if lo.open_ < 0 then .error (.error .loOpen)
  else do
    let s ← buffer.readN used
    if !lo.written then .error (.error .loWrite)
    else if !lo.committed then .error (.error .loCommit)
    else return loForm lo.creat (some (lo.creat, s.take (wrap 32 used).toNat))

/-- The server types that stand for a large object. -/
def isLoType (conn : ConnectionClass) (param_pgtype : Oid) : Bool :=
  (param_pgtype = PG_TYPE_OID && conn.lo_is_domain) || param_pgtype = conn.lobj_type

/-- A binary SQL type: the value goes into a binary column, or into a large object. A
parameter supplied at execution has its large object already (`pdataOid`). -/
def binaryForm (conn : ConnectionClass) (lo : LoCalls) (binaryAsPossible : Bool)
    (dataAtExec : Bool) (pdataOid : Oid) (param_ctype : CType) (param_pgtype : Oid)
    (buffer : Pointer) (n : Neutral) : Except Fault SqlForm := do
  let (send_buf, used) ← binaryBytes param_ctype n
  if filed_is_bytea param_pgtype then
    if binaryAsPossible then
      return { send_buf := send_buf, used := used, isbinary := true }
    else return { send_buf := send_buf, used := used, final_binary_convert := true }
  else if !isLoType conn param_pgtype then .error (.error .notLo)
  else if dataAtExec then return loForm pdataOid none
  else createLo lo buffer used

/-- An integer SQL type: a text that is an integer needs no quotes. -/
def integerForm (cast : String) (n : Neutral) : Except Fault SqlForm := do
  let s ← (if n.used = 0 then .ok [] else n.send_buf.read)
  let (valid, negative) := valid_int_literal s n.used
  if valid then
    return { send_buf := n.send_buf, used := n.used, need_quotes := false,
             add_parens := negative }
  else return { send_buf := n.send_buf, used := n.used, lastadd := some cast }

/-- A character SQL type, or `SQL_BIT`. -/
def charForm (fm : Formats) (param_pgtype : Oid) (n : Neutral) : Except Fault SqlForm := do
  match n.send_buf with
  | .null =>
    -- it was a date or a time
    return { send_buf := .mem (fm.printTimestamp n.st), used := SQL_NTS }
  | p =>
    if param_pgtype = PG_TYPE_BOOL then
      let s ← p.read
      if s.getD 0 0 = 0x2d ∧ s.getD 1 0 = 0x31 then
        return { send_buf := .mem (ascii "1"), used := 1 }
      else return { send_buf := p, used := n.used }
    else if param_pgtype = PG_TYPE_FLOAT4 ∨ param_pgtype = PG_TYPE_FLOAT8 ∨
        param_pgtype = PG_TYPE_NUMERIC then
      let p ← set_server_decimal_point fm.decimal_point p n.used
      return { send_buf := p, used := n.used }
    else return { send_buf := p, used := n.used }

/-- The second switch of `ResolveOneParam`: the value in the form of its SQL type. -/
def sqlForm (fm : Formats) (conn : ConnectionClass) (lo : LoCalls) (binaryAsPossible : Bool)
    (dataAtExec : Bool) (pdataOid : Oid) (param_ctype : CType) (param_sqltype : SqlType)
    (param_pgtype : Oid) (buffer : Pointer) (n : Neutral) : Except Fault SqlForm :=
  match param_sqltype with
  | .char | .varchar | .longvarchar | .wchar | .wvarchar | .wlongvarchar | .bit =>
    charForm fm param_pgtype n
  | .date | .typeDate => do
    let st ← timeFields fm n
    return { send_buf := .mem (fm.printDate st), used := SQL_NTS, lastadd := some "::date" }
  | .time | .typeTime => do
    let st ← timeFields fm n
    return { send_buf := .mem (fm.printTime st), used := SQL_NTS, lastadd := some "::time" }
  | .timestamp | .typeTimestamp => do
    let st ← timeFields fm n
    return { send_buf := .mem (fm.stime2timestamp st), used := SQL_NTS,
             lastadd := some "::timestamp" }
  | .binary | .varbinary | .longvarbinary =>
    binaryForm conn lo binaryAsPossible dataAtExec pdataOid param_ctype param_pgtype buffer n
  | .real => do
    let p ← set_server_decimal_point fm.decimal_point n.send_buf n.used
    return { send_buf := p, used := n.used, lastadd := some "::float4" }
  | .float | .double => do
    let p ← set_server_decimal_point fm.decimal_point n.send_buf n.used
    return { send_buf := p, used := n.used, lastadd := some "::float8" }
  | .integer => integerForm "::int4" n
  | .smallint => integerForm "::smallint" n
  | .numeric | .decimal | .bigint | .tinyint | .guid | .interval _ | .unknown | .other _ =>
    .ok { send_buf := n.send_buf, used := n.used }

/-- The last step: the final text has a length. -/
def finish (f : SqlForm) : Except Fault Value :=
  match f.send_buf with
  | .null => .error (.error .noConversion)
  | p => do
    let s ← p.read
    return { send_buf := s, used := if f.used = SQL_NTS then strlen s else f.used,
             isbinary := f.isbinary, final_binary_convert := f.final_binary_convert,
             need_quotes := f.need_quotes, add_parens := f.add_parens, lastadd := f.lastadd,
             lobj := f.lobj }

/-- From the buffer and the length of a value that is not null to what is sent for it. -/
def convertParam (fm : Formats) (conn : ConnectionClass) (lo : LoCalls)
    (binaryAsPossible : Bool) (dataAtExec : Bool) (pdataOid : Oid) (precision : Int)
    (param_ctype : CType) (param_sqltype : SqlType) (param_pgtype : Oid) (buffer : Pointer)
    (used : Int) : Except Fault Converted := do
  let n ← neutralForm fm conn precision param_ctype buffer used
  if isNullDate conn param_pgtype param_ctype n.send_buf then return .null
  else
    let n := if n.send_buf = .null ∧ n.param_string ≠ [] then
      { n with send_buf := .mem n.param_string, used := SQL_NTS } else n
    let f ← sqlForm fm conn lo binaryAsPossible dataAtExec pdataOid param_ctype param_sqltype
      param_pgtype buffer n
    let v ← finish f
    return .value v

end OdbcDriver
