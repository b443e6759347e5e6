import OdbcDriver.Param.Convert

/-!
# Writing a value into a statement

`convert_special_chars` writes a text between quotes, `convert_to_pgbinary` a binary value,
and `emit` is the end of `ResolveOneParam`: the literal, or the bare value of a Bind request.
-/

namespace OdbcDriver

def LITERAL_QUOTE : Byte := 0x27
def LITERAL_EXT : Byte := 0x45
def BACKSLASH : Byte := 0x5c
def PG_CARRIAGE_RETURN : Byte := 0x0d
def PG_LINEFEED : Byte := 0x0a

/-- `ResolveParamMode`: what a parameter marker is replaced with. -/
inductive ResolveParamMode
  /-- the value of the parameter -/
  | replaceParams
  /-- the value where it is known, else `NULL` -/
  | fakeParams
  /-- a `$n` marker -/
  | buildingPrepareStatement
  /-- the bare value, for a Bind request -/
  | buildingBindRequest
  deriving DecidableEq, Repr

/-- The flags of a query being built (`FLGB_...`). -/
structure Flags where
  inaccurateResult : Bool
  convertLf : Bool
  discardOutput : Bool
  binaryAsPossible : Bool
  literalExtension : Bool
  hexBinFormat : Bool
  paramCast : Bool
  deriving DecidableEq, Repr

/-! ### Text -/

/-- The loop of `convert_special_chars` over the memory `si`, of which `max` bytes are left to
convert, in the multibyte state `stat`. `doubled` is the escape character that is doubled
like the quote (`escape_in_literal`, which may be 0). -/
def specialChars (ccsc : Ccsc) (convlf double_special : Bool) (escape_in_literal : Byte) :
    Nat → Nat → List Byte → List Byte
  | _, 0, _ => []
  | _, _ + 1, [] => []
  | stat, max + 1, tchar :: si =>
    if tchar = 0 then []
    else
      let stat' := nextStat ccsc stat tchar
      let rest := specialChars ccsc convlf double_special escape_in_literal stat' max si
      if nonAscii stat' tchar then tchar :: rest
      else if convlf ∧ tchar = PG_CARRIAGE_RETURN ∧ si.headD 0 = PG_LINEFEED then rest
      else if double_special ∧ (tchar = LITERAL_QUOTE ∨ tchar = escape_in_literal) then
        tchar :: tchar :: rest
      else tchar :: rest

/-- `convert_special_chars`: the body of a literal. -/
def convert_special_chars (conn : ConnectionClass) (flags : Flags) (mode : ResolveParamMode)
    (si : List Byte) (used : Int) : List Byte :=
  specialChars conn.ccsc flags.convertLf (mode ≠ .buildingBindRequest) conn.escape_in_literal 0
    (if 0 ≤ used then used.toNat else si.length) si

/-! ### Binary values -/

/-- The digit of `hextbl`. -/
def hexDigit (v : Byte) : Byte := if v < 10 then 0x30 + v else 0x41 + (v - 10)

/-- `pg_bin2hex`. -/
def pg_bin2hex (src : List Byte) : List Byte :=
  src.flatMap fun chr => [hexDigit (chr / 16), hexDigit (chr % 16)]

/-- `conv_to_octal2`: a backslash and three octal digits. -/
def conv_to_octal2 (val : Byte) : List Byte :=
  [BACKSLASH, val / 64 % 8 + 0x30, val / 8 % 8 + 0x30, val % 8 + 0x30]

/-- `convert_to_pgbinary`: `\x` and hexadecimal digits, or octal escapes before 9.0; the
backslash is doubled inside a literal whose escape character it is. -/
def convert_to_pgbinary (conn : ConnectionClass) (flags : Flags) (mode : ResolveParamMode)
    (data : List Byte) : List Byte :=
  let esc := conn.escape_in_literal
  let esc_double := mode ≠ .buildingBindRequest ∧ esc ≠ 0
  if flags.hexBinFormat then
    (if esc_double then [esc] else []) ++ [BACKSLASH, 0x78] ++ pg_bin2hex data
  else
    data.flatMap fun inc =>
      if inc < 128 ∧ (isAlnum inc ∨ inc = 0x20) then [inc]
      else (if esc_double then [esc] else []) ++ conv_to_octal2 inc

/-! ### The output of `ResolveOneParam` -/

/-- A text as a literal: the optional `E`, the quotes, and the escaped body. -/
def quotedLiteral (conn : ConnectionClass) (flags : Flags) (mode : ResolveParamMode)
    (si : List Byte) (used : Int) : List Byte :=
  (if flags.literalExtension then [LITERAL_EXT] else []) ++
    LITERAL_QUOTE :: (convert_special_chars conn flags mode si used ++ [LITERAL_QUOTE])

/-- What `ResolveOneParam` appends for a value that is not null. -/
def emit (conn : ConnectionClass) (flags : Flags) (mode : ResolveParamMode) (v : Value) :
    Except Fault (List Byte) :=
  let cast := if flags.paramCast then (v.lastadd.map ascii).getD [] else []
  let parens := fun s : List Byte => if v.add_parens then 0x28 :: (s ++ [0x29]) else s
  if mode = .buildingBindRequest then
    if v.used < 0 then .error .undefined else .ok (v.send_buf.take v.used.toNat)
  else if v.need_quotes then
    if v.final_binary_convert then
      .ok (parens ((if flags.literalExtension then [LITERAL_EXT] else []) ++
        LITERAL_QUOTE :: (convert_to_pgbinary conn flags mode (v.send_buf.take v.used.toNat) ++
          [LITERAL_QUOTE])) ++ cast)
    else .ok (parens (quotedLiteral conn flags mode v.send_buf v.used) ++ cast)
  else if v.used < 0 then .error .undefined
  else .ok (parens (v.send_buf.take v.used.toNat) ++ cast)

end OdbcDriver
