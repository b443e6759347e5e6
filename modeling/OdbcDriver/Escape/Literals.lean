import OdbcDriver.Lexer.Status
import OdbcDriver.Lib.CString
import OdbcDriver.Lib.Except
import OdbcDriver.Lib.Scanf
import OdbcDriver.Param.Resolve

/-!
# ODBC escapes of literals

`convert_escape` reads the keyword of an escape and, for `d`, `t`, `ts` and `escape`, takes what is up
to the next closing brace into a buffer of 128 bytes, from which the output is made. The escapes
`call`, `oj` and `fn` do not use the buffer; the model stops in front of them, with their keyword.

The statement is read as a C string: from its end on, and from a NUL on, there is nothing.
-/

namespace OdbcDriver.Escape

open CString (write)

/-! ### The statement -/

/-- `F_OldChar`. -/
def F_OldChar (qp : OldPos) : Byte := qp.statement.getD qp.opos 0

/-- `F_OldPtr`. -/
def F_OldPtr (qp : OldPos) : List Byte := qp.statement.drop qp.opos

/-- `F_OldNext`, so many times. -/
def F_OldNext (qp : OldPos) (n : Nat) : OldPos := { qp with opos := qp.opos + n }

/-- `while ((ucv = F_OldChar(qp)) != '\0' && isspace(ucv)) F_OldNext(qp);` -/
def skipSpaces (qp : OldPos) : OldPos := F_OldNext qp ((F_OldPtr qp).takeWhile isSpace).length

/-- `while ((ucv = F_OldChar(qp)) != '\0' && (IS_NOT_SPACE(ucv))) F_OldNext(qp);` -/
def skipWord (qp : OldPos) : OldPos :=
  F_OldNext qp ((F_OldPtr qp).takeWhile IS_NOT_SPACE).length

/-- The loop of `F_ExtractOldTo`: what is left of the statement, the buffer, and how many bytes are
in it. -/
def extractLoop (ch : Byte) (maxsize : Nat) :
    List Byte → List Byte → Nat → Except CString.Fault (List Byte × List Byte × Nat)
  | [], buf, c => .ok ([], buf, c)
  | b :: rest, buf, c =>
    if b = 0 ∨ b = ch then .ok (b :: rest, buf, c)
    else if maxsize ≤ c then .ok (b :: rest, buf, c)
    else do extractLoop ch maxsize rest (← write buf c b) (c + 1)

/-- `F_ExtractOldTo`. Where the statement ends there is no text. -/
def F_ExtractOldTo (qp : OldPos) (buf : List Byte) (ch : Byte) (maxsize : Nat) :
    Except CString.Fault (Option (OldPos × List Byte)) := do
  let (rest, buf, c) ← extractLoop ch maxsize (F_OldPtr qp) buf 0
  if rest.headD 0 = 0 then return none
  else return some (F_OldNext qp ((F_OldPtr qp).length - rest.length), ← write buf c 0)

/-! ### The escape -/

/-- The local variables as they are before they are written. -/
structure Locals where
  buf_small : List Byte
  key : List Byte
  sizeof_buf_small : buf_small.length = 128

/-- What comes of an escape. -/
inductive Converted
  /-- `SQL_ERROR`. -/
  | error
  | success (qp : OldPos) (qb : QueryBuild)
  /-- `{?`, and no `=` behind it. -/
  | noReturn (qp : OldPos) (qb : QueryBuild)
  /-- `call`, `oj`, `fn`. -/
  | other (key : List Byte) (qp : OldPos) (qb : QueryBuild)

/-- What is printed for a text, of the escapes that take one. -/
def literalForm (key text : List Byte) : Option (List Byte) :=
  if stricmp key (ascii "d") then some (text ++ ascii "::date")
  else if stricmp key (ascii "t") then some (text ++ ascii "::time")
  else if stricmp key (ascii "ts") then some (text ++ ascii "::timestamp")
  else if stricmp key (ascii "escape") then some (key ++ ascii " " ++ text)
  else none

/-- The byte behind an escape would go on with what the escape ends with. -/
def joins (ccsc : Ccsc) (b : Byte) : Bool :=
  nonAscii (nextStat ccsc 0 b) b || isAlnum b || b = 0x5f || b = 0x24

/-- `QB_append_space_to_separate_identifiers`. -/
def QB_append_space_to_separate_identifiers (qb : QueryBuild) (qp : OldPos) : QueryBuild :=
  if F_OldChar qp ≠ ODBC_ESCAPE_END then qb
  else if joins qb.conn.ccsc (F_OldChar (F_OldNext qp 1)) then qb.append (ascii " ")
  else qb

/-- The escapes that take a text: `buf` is printed into with its size as the limit. -/
def convertLiteral (locals : Locals) (key : List Byte) (qp : OldPos) (qb : QueryBuild) :
    Except CString.Fault Converted := do
  match ← F_ExtractOldTo qp locals.buf_small ODBC_ESCAPE_END 128 with
  | none => return .error
  | some (qp, buf_small) =>
    match literalForm key (CString.text buf_small 0) with
    | none => return .error
    | some form =>
      let qb := qb.append (Scanf.snprintf 1024 form).1
      return .success qp (QB_append_space_to_separate_identifiers qb qp)

/-- The keyword, and the escape from behind it on. -/
def convertKey (locals : Locals) (qp : OldPos) (qb : QueryBuild) : Except CString.Fault Converted :=
  let scanned := Scanf.sscanf (Scanf.format "%32s") ((F_OldPtr qp).takeWhile (· ≠ 0))
  -- without a word the variable is as it was
  let key := (scanned.bind (·.strs[0]?)).getD locals.key
  let qp := skipSpaces (skipWord qp)
  if stricmp key (ascii "call") ∨ stricmp key (ascii "oj") ∨ stricmp key (ascii "fn") then
    return .other key qp qb
  else if (literalForm key []).isSome then convertLiteral locals key qp qb
  else return .error

/-- `convert_escape`. -/
def convert_escape (locals : Locals) (qp : OldPos) (qb : QueryBuild) : Except CString.Fault Converted :=
  let qp := if F_OldChar qp = ODBC_ESCAPE_START then F_OldNext qp 1 else qp
  let qp := skipSpaces qp
  if F_OldChar qp = 0x3f then
    let qb := { qb with param_number := qb.param_number + 1, proc_return := 1 }
    let qp := skipSpaces (F_OldNext qp 1)
    if F_OldChar qp ≠ 0x3d then return .noReturn { qp with opos := qp.opos - 1 } qb
    else convertKey locals (skipSpaces (F_OldNext qp 1)) qb
  else convertKey locals qp qb

/-! ### What an escape of a literal is -/

/-- A literal of a content: between quotes, with its quotes doubled. -/
def literal (content : List Byte) : List Byte :=
  [0x27] ++ content.flatMap (fun c => if c = 0x27 then [0x27, 0x27] else [c]) ++ [0x27]

/-- `{d '..'}`, `{t '..'}`, `{ts '..'}` or `{escape '..'}`: its keyword, the content of its literal, and
the white space around them. -/
structure LiteralEscape where
  lead : List Byte
  key : List Byte
  gap : List Byte
  content : List Byte
  trail : List Byte
  isKey : (literalForm key []).isSome = true
  lead_space : ∀ c ∈ lead, isSpace c = true
  gap_space : ∀ c ∈ gap, isSpace c = true
  gap_ne : gap ≠ []
  trail_space : ∀ c ∈ trail, isSpace c = true

/-- What is between the white space behind the keyword and the brace. -/
def LiteralEscape.body (e : LiteralEscape) : List Byte := literal e.content ++ e.trail

/-- The escape up to its closing brace. -/
def LiteralEscape.text (e : LiteralEscape) : List Byte :=
  [ODBC_ESCAPE_START] ++ e.lead ++ e.key ++ e.gap ++ e.body

/-- The literal is copied as it is, with what makes it a date, a time, a timestamp or an escape
character; the position is at the closing brace; and no byte is written outside the buffer. -/
def Copied (locals : Locals) (before : List Byte) (e : LiteralEscape) (after : List Byte)
    (qb : QueryBuild) : Prop :=
  let statement := before ++ e.text ++ [ODBC_ESCAPE_END] ++ after
  ∃ form, literalForm e.key e.body = some form ∧
    convert_escape locals ⟨statement, before.length⟩ qb =
      .ok (.success ⟨statement, (before ++ e.text).length⟩
        (qb.append (form ++ if joins qb.conn.ccsc (after.headD 0) then ascii " " else [])))

end OdbcDriver.Escape
