import OdbcDriver.Lib.CInt
import OdbcDriver.Param.Literal

/-!
# Converting a text or binary value

What `SQLGetData` makes of a value before any of it is delivered: line feeds are expanded, binary
values are decoded or spelled in hexadecimal digits, wide characters are taken apart. The server
sends every value as a text.
-/

namespace OdbcDriver

/-! ### Types -/

def PG_TYPE_XML : Oid := 142
def PG_TYPE_XMLARRAY : Oid := 143
def PG_TYPE_UNKNOWN : Oid := 705
def PG_TYPE_TEXTARRAY : Oid := 1009
def PG_TYPE_BPCHARARRAY : Oid := 1014
def PG_TYPE_VARCHARARRAY : Oid := 1015
def PG_TYPE_NVARCHAR2 : Oid := 3969

/-- The types a text or binary column is read as: `SQL_C_CHAR`, `SQL_C_WCHAR`, `SQL_C_BINARY`. -/
inductive TargetType | char | wchar | binary
  deriving DecidableEq, Repr

/-- `get_terminator_len`. -/
def get_terminator_len : TargetType → Nat
  | .wchar => WCLEN
  | .binary => 0
  | .char => 1

/-- `get_adjust_len`: whole wide characters are delivered. -/
def get_adjust_len (fCType : TargetType) (len : Nat) : Nat :=
  match fCType with
  | .wchar => len / WCLEN * WCLEN
  | _ => len

/-- The types whose values are converted between the client encoding and the locale. -/
def isLocalized (field_type : Oid) : Bool :=
  field_type = PG_TYPE_UNKNOWN || field_type = PG_TYPE_BPCHAR || field_type = PG_TYPE_VARCHAR ||
    field_type = PG_TYPE_NVARCHAR2 || field_type = PG_TYPE_TEXT ||
    field_type = PG_TYPE_BPCHARARRAY || field_type = PG_TYPE_VARCHARARRAY ||
    field_type = PG_TYPE_TEXTARRAY

/-- The types that can be read as any of the target types. -/
def text_bin_handling (field_type : Oid) : Bool :=
  isLocalized field_type || field_type = PG_TYPE_XML || field_type = PG_TYPE_XMLARRAY ||
    filed_is_bytea field_type

/-- `filed_is_bytea` is `FIELD_BINARY_RAWOUT`: the server sends hexadecimal digits without `\x`. -/
def isRawOut (field_type : Oid) : Bool :=
  field_type = PG_TYPE_RAW || field_type = PG_TYPE_LONG_RAW || field_type = PG_TYPE_BLOB

/-- What `SQLGetData` takes from the locale: a text of the client encoding in the locale's, and a
text of the locale's in wide characters. A failure is a negative length. -/
structure Locale where
  localize : List Byte → Bool → Except Int (List Byte)
  hybrid : List Byte → Bool → Option (List Byte)

/-! ### Texts -/

/-- The loop of `convert_linefeeds` behind the byte `prev`, when `out` bytes have been written. -/
def linefeedsLoop (convlf : Bool) (max : Nat) : Option Byte → Nat → List Byte → List Byte × Bool
  | _, _, [] => ([], false)
  | prev, out, c :: si =>
    if ¬ out < max - 1 then ([], false)
    else if convlf ∧ c = PG_LINEFEED ∧ prev ≠ some PG_CARRIAGE_RETURN then
      let r := linefeedsLoop convlf max (some c) (out + 2) si
      (PG_CARRIAGE_RETURN :: PG_LINEFEED :: r.1, true)
    else
      let r := linefeedsLoop convlf max (some c) (out + 1) si
      (c :: r.1, r.2)

/-- `convert_linefeeds`: what is written, and whether anything was changed. -/
def convert_linefeeds (si : List Byte) (max : Nat) (convlf : Bool) : List Byte × Bool :=
  linefeedsLoop convlf (if max = 0 then 0xffffffff else max) none 0 si

/-- A wide character in memory. -/
def wideBytes (w : UInt16) : List Byte := [w.toUInt8, (w >>> 8).toUInt8]

/-- The loop of `utf8_to_ucs2_lf` behind the byte `prev`; `none` where a byte begins no character. -/
def utf8Loop (lfconv : Bool) : Option Byte → List Byte → Option (List UInt16)
  | _, [] => some []
  | prev, c :: str =>
    let wide (n : Nat) : UInt32 := (str.getD n 0).toUInt32
    if c &&& 0x80 = 0 then
      let cr := lfconv ∧ c = PG_LINEFEED ∧ prev ≠ some PG_CARRIAGE_RETURN
      (utf8Loop lfconv (some c) str).map fun ws =>
        if cr then PG_CARRIAGE_RETURN.toUInt16 :: c.toUInt16 :: ws else c.toUInt16 :: ws
    else if c &&& 0xf8 = 0xf8 then none
    else if c &&& 0xf8 = 0xf0 then
      let w₁ := ((0xd800 : UInt32) ||| ((c.toUInt32 &&& 0x07) <<< 8) ||| ((wide 0 &&& 0x3f) <<< 2) |||
        ((wide 1 &&& 0x30) >>> 4)) - 0x40
      let w₂ := (0xdc00 : UInt32) ||| ((wide 1 &&& 0x0f) <<< 6) ||| (wide 2 &&& 0x3f)
      (utf8Loop lfconv (some (str.getD 2 0)) (str.drop 3)).map fun ws =>
        w₁.toUInt16 :: w₂.toUInt16 :: ws
    else if c &&& 0xf0 = 0xe0 then
      let w := ((c.toUInt32 &&& 0x0f) <<< 12) ||| ((wide 0 &&& 0x3f) <<< 6) ||| (wide 1 &&& 0x3f)
      (utf8Loop lfconv (some (str.getD 1 0)) (str.drop 2)).map (w.toUInt16 :: ·)
    else if c &&& 0xe0 = 0xc0 then
      let w := ((c.toUInt32 &&& 0x1f) <<< 6) ||| (wide 0 &&& 0x3f)
      (utf8Loop lfconv (some (str.getD 0 0)) (str.drop 1)).map (w.toUInt16 :: ·)
    else none
termination_by _ s => s.length
decreasing_by all_goals simp; try omega

/-- `utf8_to_ucs2_lf`, without `errcheck`: a text that is no UTF-8 has no wide characters. -/
def utf8_to_ucs2_lf (utf8str : List Byte) (lfconv : Bool) : List Byte :=
  ((utf8Loop lfconv none utf8str).getD []).flatMap wideBytes

/-! ### Binary values -/

/-- `conv_from_octal`, behind the backslash. -/
def conv_from_octal (s : List Byte) : Byte :=
  ((s.getD 0 0 - 0x30) <<< 6) + ((s.getD 1 0 - 0x30) <<< 3) + (s.getD 2 0 - 0x30)

/-- `convert_from_pgbinary`: hexadecimal digits behind `\x`, or from the beginning
(`binary_rawout`), or octal escapes. -/
def convert_from_pgbinary (binary_rawout : Bool) : List Byte → List Byte
  | [] => []
  | c :: value =>
    if c = BACKSLASH then
      if value.headD 0 = BACKSLASH then BACKSLASH :: convert_from_pgbinary binary_rawout value.tail
      else if value.headD 0 = 0x78 then hexBytes value.tail
      else conv_from_octal value :: convert_from_pgbinary binary_rawout (value.drop 3)
    else if binary_rawout then hexBytes (c :: value)
    else c :: convert_from_pgbinary binary_rawout value
termination_by value => value.length
decreasing_by all_goals simp; try omega

/-- `pg_bin2whex`: the digits as wide characters. -/
def pg_bin2whex (src : List Byte) : List Byte := (pg_bin2hex src).flatMap fun c => [c, 0]

/-! ### The value -/

/-- `bytea_process_kind`. -/
inductive ByteaProcess | none | escape | binary
  deriving DecidableEq, Repr

/-- How a value is decoded, and the text that is left of it. -/
def byteaProcess (field_type : Oid) (fCType : TargetType) (neut_str : List Byte) :
    ByteaProcess × List Byte :=
  if isRawOut field_type then (if fCType = .binary then .binary else .none, neut_str)
  else if filed_is_bytea field_type then
    if fCType = .binary then (.binary, neut_str)
    else if neut_str.head? = some BACKSLASH ∧
        (neut_str[1]? = some 0x78 ∨ neut_str[1]? = some 0x58) then (.none, neut_str.drop 2)
    else (.escape, neut_str)
  else (.none, neut_str)

/-- A value that has been converted. -/
structure ConvertedValue where
  /-- The converted value, as it is measured (`len`). -/
  bytes : List Byte
  /-- It is not the text itself. -/
  changed : Bool
  /-- The text. -/
  text : List Byte
  /-- What the conversion leaves of it in a buffer of the given size. -/
  fill : Nat → List Byte

/-- A value whose conversion does not look at the size of the buffer. -/
def ConvertedValue.plain (bytes text : List Byte) : ConvertedValue :=
  ⟨bytes, true, text, fun _ => bytes⟩

/-- A text in which line feeds are expanded. Behind what fits in the buffer there is a NUL. -/
def ConvertedValue.linefeeds (conn : ConnectionClass) (text : List Byte) : ConvertedValue :=
  let r := convert_linefeeds text 0 conn.lf_conversion
  ⟨r.1, r.2, text, fun max =>
    ((convert_linefeeds text max conn.lf_conversion).1 ++ [0]).take r.1.length⟩

/-- The conversions of `setup_getdataclass`. -/
def convertValue (loc : Locale) (conn : ConnectionClass) (field_type : Oid) (fCType : TargetType)
    (neut_str : List Byte) : Except Int ConvertedValue :=
  let (kind, text) := byteaProcess field_type fCType neut_str
  let current := kind = .none ∧ conn.convtype ∧ isLocalized field_type
  if fCType = .wchar then
    if kind = .escape then .ok (.plain (pg_bin2whex (convert_from_pgbinary false text)) text)
    else if current ∧ (conn.ccsc ≠ .utf8 ∨ (conn.same_encoding ∧ conn.wcs_debug)) then
      match loc.hybrid text conn.lf_conversion with
      | some wide => .ok (.plain wide text)
      | none => .error (-2)
    else .ok (.plain (utf8_to_ucs2_lf text conn.lf_conversion) text)
  else if current ∧ (!conn.same_encoding ∨ conn.wcs_debug) then
    (loc.localize text conn.lf_conversion).map (.plain · text)
  else if kind = .binary then
    .ok (.plain (convert_from_pgbinary (isRawOut field_type) text) text)
  else if kind = .escape then .ok (.plain (pg_bin2hex (convert_from_pgbinary false text)) text)
  else .ok (.linefeeds conn text)

end OdbcDriver
