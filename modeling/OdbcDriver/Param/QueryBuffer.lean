import OdbcDriver.Lib.HeapArray
import OdbcDriver.Lib.Run
import OdbcDriver.Param.ByteaLiteral

/-!
# The buffer of a query that is built

Everything that `convert.c` makes of a statement goes through the same few appends, each with its
own arithmetic for the room it needs: one byte and one more, a text and its NUL, three bytes for
every byte of a literal, an upper bound for a binary value. The model keeps what is asked of the
heap and every byte that is written, with the `str_alsize` of that moment; no write is checked.

A builder starts by `QB_initialize`, or by `QB_initialize_copy` for the arguments of `{fn …}`. What
the second of them answers when there is no memory is not looked at.
-/

namespace OdbcDriver.QueryBuffer

open HeapArray (realloc)
open Lib (Post)

/-! ### The builder -/

/-- What happens to the buffer. -/
inductive Event
  /-- The heap gives a block of `size` bytes. -/
  | granted (size : Nat)
  /-- The heap gives no block of `size` bytes. -/
  | refused (size : Nat)
  /-- A byte is written at the index `i`, when `str_alsize` is `alsize`. -/
  | write (i alsize : Nat)
  deriving DecidableEq, Repr

/-- The error of a statement. -/
structure StatementClass where
  errornumber : Int
  errormsg : Option String
  deriving DecidableEq, Repr

/-- `QueryBuild`, as far as the appends use it. -/
structure QueryBuild where
  query_statement : Option (List Byte)
  str_alsize : Nat
  npos : Nat
  errornumber : Int
  errormsg : Option String
  stmt : Option StatementClass
  /-- The events so far, the last one first. -/
  trace : List Event
  deriving DecidableEq, Repr

/-- Why an append comes to no regular end. -/
inductive Stop
  /-- `retval = SQL_ERROR; goto cleanup;` -/
  | cleanup (qb : QueryBuild)
  /-- An index of type `int` overflows. -/
  | undefined
  deriving DecidableEq, Repr

/-- What the appends depend on: the heap, which may answer anything after what has happened so far,
what a new block holds, and the connection, the flags and the mode of the builder. -/
structure Env where
  given : List Event → Nat → Bool
  fresh : Byte
  conn : ConnectionClass
  flags : Flags
  mode : ResolveParamMode

def INIT_MIN_ALLOC : Nat := 4096
def STMT_EXEC_ERROR : Int := 1
def allocateError : String :=
  "Query buffer allocate error in copy_statement_with_parameters"

/-- `while (newalsize <= newsize) newalsize *= 2;`, within `fuel` rounds. -/
def alsizeLoop (newsize : Nat) : Nat → Nat → Nat
  | 0, newalsize => newalsize
  | fuel + 1, newalsize =>
    if newalsize ≤ newsize then alsizeLoop newsize fuel (newalsize * 2) else newalsize

/-- The size of a block that has room for more than `newsize` bytes. -/
def newAlsize (newsize : Nat) : Nat := alsizeLoop newsize (newsize + 1) INIT_MIN_ALLOC

/-- `query_statement[i] = b` -/
def QueryBuild.store (qb : QueryBuild) (i : Nat) (b : Byte) : QueryBuild :=
  { qb with
    query_statement := qb.query_statement.map fun mem => mem.set i b
    trace := .write i qb.str_alsize :: qb.trace }

/-- `memcpy(&query_statement[i], s, len)` -/
def QueryBuild.copy (qb : QueryBuild) (i : Nat) : List Byte → QueryBuild
  | [] => qb
  | b :: s => (qb.store i b).copy (i + 1) s

/-- The error of `enlarge_query_statement` is that of the statement, if there is one. -/
def QueryBuild.allocateFailed (qb : QueryBuild) : QueryBuild :=
  match qb.stmt with
  | some _ => { qb with stmt := some ⟨STMT_EXEC_ERROR, some allocateError⟩ }
  | none => { qb with errormsg := some allocateError, errornumber := STMT_EXEC_ERROR }

/-- `enlarge_query_statement`. The answer is whether the new size is positive. -/
def enlarge_query_statement (e : Env) (qb : QueryBuild) (newsize : Nat) : Bool × QueryBuild :=
  let newalsize := newAlsize newsize
  if e.given qb.trace newalsize then
    (true, { qb with
      query_statement := some (realloc (qb.query_statement.getD []) newalsize e.fresh)
      str_alsize := newalsize
      trace := .granted newalsize :: qb.trace })
  else
    (false, ({ qb with
      query_statement := none
      str_alsize := 0
      trace := .refused newalsize :: qb.trace } : QueryBuild).allocateFailed)

/-! ### The appends -/

/-- `ENLARGE_NEWSTATEMENT` -/
def ENLARGE_NEWSTATEMENT (e : Env) (qb : QueryBuild) (newpos : Nat) : Except Stop QueryBuild :=
  if qb.str_alsize ≤ newpos then
    let (enlarged, qb) := enlarge_query_statement e qb newpos
    if enlarged then .ok qb else .error (.cleanup qb)
  else .ok qb

/-- `CVT_TERMINATE` -/
def CVT_TERMINATE (qb : QueryBuild) : Except Stop QueryBuild :=
  if qb.query_statement = none then .error (.cleanup qb) else .ok (qb.store qb.npos 0)

/-- `CVT_APPEND_DATA` -/
def CVT_APPEND_DATA (e : Env) (qb : QueryBuild) (s : List Byte) : Except Stop QueryBuild := do
  let newpos := qb.npos + s.length
  let qb ← ENLARGE_NEWSTATEMENT e qb newpos
  return { qb.copy qb.npos s with npos := newpos }.store newpos 0

/-- `CVT_APPEND_STR`: the text before the first NUL. -/
def CVT_APPEND_STR (e : Env) (qb : QueryBuild) (s : List Byte) : Except Stop QueryBuild :=
  CVT_APPEND_DATA e qb (s.take (strlen s))

/-- `query_statement[npos++] = c` -/
def QueryBuild.push (qb : QueryBuild) (c : Byte) : QueryBuild :=
  { qb.store qb.npos c with npos := qb.npos + 1 }

/-- `CVT_APPEND_CHAR` -/
def CVT_APPEND_CHAR (e : Env) (qb : QueryBuild) (c : Byte) : Except Stop QueryBuild := do
  let qb ← ENLARGE_NEWSTATEMENT e qb (qb.npos + 1)
  return qb.push c

/-- The loop of `pg_bin2hex` from the index `i` on, writing at `dst`. -/
def bin2hexLoop (i dst : Nat) : List Byte → QueryBuild → Except Stop QueryBuild
  | [], qb => .ok qb
  | chr :: src, qb =>
    let qb := (qb.store dst (hexDigit (chr / 16))).store (dst + 1) (hexDigit (chr % 16))
    if i + 1 < 2 ^ 31 then bin2hexLoop (i + 1) (dst + 2) src qb else .error .undefined

/-- `pg_bin2hex`: the digits and a NUL, and the number of digits. -/
def pg_bin2hex (src : List Byte) (dst : Nat) (qb : QueryBuild) :
    Except Stop (QueryBuild × Nat) := do
  let qb ← bin2hexLoop 0 dst src qb
  return (qb.store (dst + 2 * src.length) 0, 2 * src.length)

/-- `conv_to_octal`: the escape character if there is one, a backslash, the NUL behind, and the
three digits from the last to the first; without an escape character it is `conv_to_octal2`. The
number is how many bytes come before the NUL. -/
def conv_to_octal (val : Byte) (octal : Nat) (escape_ch : Byte) (qb : QueryBuild) :
    QueryBuild × Nat :=
  let (qb, pos) := if escape_ch ≠ 0 then (qb.store octal escape_ch, 1) else (qb, 0)
  let len := 4 + pos
  let qb := (qb.store (octal + pos) BACKSLASH).store (octal + len) 0
  let qb := qb.store (octal + pos + 3) (val % 8 + 0x30)
  let qb := qb.store (octal + pos + 2) (val / 8 % 8 + 0x30)
  (qb.store (octal + pos + 1) (val / 64 % 8 + 0x30), len)

/-- The loop of `convert_to_pgbinary` that writes octal escapes, from the offset `o` on. -/
def octalLoop (escape_ch : Byte) (out : Nat) : Nat → List Byte → QueryBuild → QueryBuild × Nat
  | o, [], qb => (qb, o)
  | o, inc :: data, qb =>
    if inc < 128 ∧ (isAlnum inc ∨ inc = 0x20) then
      octalLoop escape_ch out (o + 1) data (qb.store (out + o) inc)
    else
      let (qb, n) := conv_to_octal inc (out + o) escape_ch qb
      octalLoop escape_ch out (o + n) data qb

/-- `convert_to_pgbinary`: what is written at `out`, and how long it is. -/
def convert_to_pgbinary (e : Env) (data : List Byte) (out : Nat) (qb : QueryBuild) :
    Except Stop (QueryBuild × Nat) :=
  let esc_double := Bytea.esc_double e.conn e.mode
  if e.flags.hexBinFormat then do
    let (qb, o) := if esc_double then (qb.store out e.conn.escape_in_literal, 1) else (qb, 0)
    let qb := (qb.store (out + o) BACKSLASH).store (out + o + 1) 0x78
    let (qb, digits) ← pg_bin2hex data (out + o + 2) qb
    return (qb, o + 2 + digits)
  else .ok (octalLoop (if esc_double then e.conn.escape_in_literal else 0) out 0 data qb)

/-- `CVT_APPEND_BINARY` -/
def CVT_APPEND_BINARY (e : Env) (qb : QueryBuild) (buf : List Byte) : Except Stop QueryBuild := do
  let newlimit := qb.npos + Bytea.newlimit e.flags buf.length
  let qb ← ENLARGE_NEWSTATEMENT e qb newlimit
  let (qb', n) ← convert_to_pgbinary e buf qb.npos qb
  return { qb' with npos := qb'.npos + n }

/-- The loop of `convert_special_chars` over the memory `si`, of which `max` bytes are left to
convert, in the multibyte state `stat`. -/
def specialLoop (e : Env) : Nat → Nat → List Byte → QueryBuild → Except Stop QueryBuild
  | _, 0, _, qb => .ok qb
  | _, _ + 1, [], qb => .ok qb
  | stat, max + 1, tchar :: si, qb =>
    if tchar = 0 then .ok qb
    else do
      let stat := nextStat e.conn.ccsc stat tchar
      -- room for three more bytes: a character that is doubled, and the NUL
      let qb ← ENLARGE_NEWSTATEMENT e qb (qb.npos + 3)
      if nonAscii stat tchar then specialLoop e stat max si (qb.push tchar)
      else if e.flags.convertLf ∧ tchar = PG_CARRIAGE_RETURN ∧ si.headD 0 = PG_LINEFEED then
        specialLoop e stat max si qb
      else if e.mode ≠ .buildingBindRequest ∧
          (tchar = LITERAL_QUOTE ∨ tchar = e.conn.escape_in_literal) then
        specialLoop e stat max si ((qb.push tchar).push tchar)
      else specialLoop e stat max si (qb.push tchar)

/-- `convert_special_chars`, as `CVT_SPECIAL_CHARS` calls it. The block is always asked for anew at
first, whatever its size. -/
def CVT_SPECIAL_CHARS (e : Env) (qb : QueryBuild) (si : List Byte) (used : Int) :
    Except Stop QueryBuild := do
  let max := if used = SQL_NTS then strlen si else (used % 2 ^ 64).toNat
  let (enlarged, qb) := enlarge_query_statement e qb (qb.npos + 1)
  if enlarged then
    let qb ← specialLoop e 0 max si qb
    return qb.store qb.npos 0
  else .error (.cleanup qb)

/-! ### Runs -/

/-- One use of the builder. -/
inductive Append
  | char (c : Byte)
  | data (s : List Byte)
  | str (s : List Byte)
  | specialChars (si : List Byte) (used : Int)
  | binary (buf : List Byte)
  | terminate
  /-- `qb.npos = 0`, before the value of the next parameter -/
  | restart

/-- What an append does. -/
def Append.apply (e : Env) (qb : QueryBuild) : Append → Except Stop QueryBuild
  | .char c => CVT_APPEND_CHAR e qb c
  | .data s => CVT_APPEND_DATA e qb s
  | .str s => CVT_APPEND_STR e qb s
  | .specialChars si used => CVT_SPECIAL_CHARS e qb si used
  | .binary buf => CVT_APPEND_BINARY e qb buf
  | .terminate => CVT_TERMINATE qb
  | .restart => .ok { qb with npos := 0 }

/-- How far a run has come. -/
inductive Run
  | building (qb : QueryBuild)
  /-- An append has failed, and its callers have returned. -/
  | failed (qb : QueryBuild)
  | undefined
  deriving DecidableEq, Repr

/-- After a failed append there are no more. -/
def Run.step (e : Env) : Run → Append → Run
  | .building qb, a =>
    match a.apply e qb with
    | .ok qb => .building qb
    | .error (.cleanup qb) => .failed qb
    | .error .undefined => .undefined
  | .failed qb, _ => .failed qb
  | .undefined, _ => .undefined

/-- The appends of one builder, one after the other. -/
def runMachine (e : Env) : Machine Run Append Unit where
  step s a := (s.step e a, ())

/-- How a builder comes to be. -/
inductive Start
  /-- `QB_initialize`, for a statement whose error state is `stmt` -/
  | whole (size : Nat) (stmt : StatementClass)
  /-- `QB_initialize_copy`, from the builder of the whole statement -/
  | copy (qb_from : QueryBuild)

/-- What a builder gets at first. After a failed `QB_initialize` nothing is built; a copy goes on
with the `npos` it has been copied with. -/
def Start.run (e : Env) : Start → Option Run
  | .whole size stmt =>
    let newsize := newAlsize size
    if e.given [] newsize then
      let qb : QueryBuild :=
        { query_statement := some (List.replicate newsize e.fresh), str_alsize := newsize, npos := 0
          errornumber := 0, errormsg := none, stmt := some stmt, trace := [.granted newsize] }
      some (.building (qb.store 0 0))
    else none
  | .copy qb_from =>
    let size := 1024
    if e.given [] size then
      let qb : QueryBuild :=
        { qb_from with
          query_statement := some (List.replicate size e.fresh), str_alsize := size, npos := 0
          trace := [.granted size] }
      some (.building (qb.store 0 0))
    else
      some (.building { qb_from with query_statement := none, str_alsize := 0, trace := [] })

/-! ### What shall hold of a run -/

/-- The append has failed for want of memory, and says so. -/
def QueryBuild.InError (qb : QueryBuild) : Prop :=
  match qb.stmt with
  | some stmt => stmt = ⟨STMT_EXEC_ERROR, some allocateError⟩
  | none => qb.errornumber = STMT_EXEC_ERROR ∧ qb.errormsg = some allocateError

/-- Between two appends: `npos` is below `str_alsize`, which is the size of the block, every byte
has been written below the `str_alsize` of its time, and no enlargement has failed. -/
structure Built (qb : QueryBuild) : Prop where
  npos_lt : qb.npos < qb.str_alsize
  block : ∃ mem, qb.query_statement = some mem ∧ mem.length = qb.str_alsize
  writes : ∀ i alsize, .write i alsize ∈ qb.trace → i < alsize
  granted : ∀ size, .refused size ∉ qb.trace

/-- After a failed enlargement: the builder has no block and is in its error state, and nothing has
happened since. -/
structure Failed (qb : QueryBuild) : Prop where
  block : qb.query_statement = none
  str_alsize : qb.str_alsize = 0
  error : qb.InError
  writes : ∀ i alsize, .write i alsize ∈ qb.trace → i < alsize
  last : ∀ later earlier size, qb.trace = later ++ .refused size :: earlier → later = []

/-- What shall hold of every state of a run. -/
def Run.Sound : Run → Prop
  | .building qb => Built qb
  | .failed qb => Failed qb
  | .undefined => False

/-- The state before the appends and the state after each of them are sound. -/
def Right (e : Env) (start : Start) (appends : List Append) : Prop :=
  ∀ s ∈ start.run e, s.Sound ∧
    (runMachine e).AllSteps (fun s a => (s.step e a).Sound) s appends

/-- The first block of the builder is there. -/
def Start.Given (e : Env) : Start → Prop
  | .whole _ _ => True
  | .copy _ => e.given [] 1024

/-- The room for a binary value is there, or the heap gives it. -/
def QueryBuild.HasRoom (e : Env) (qb : QueryBuild) (used : Nat) : Prop :=
  let newlimit := qb.npos + Bytea.newlimit e.flags used
  newlimit < qb.str_alsize ∨ e.given qb.trace (newAlsize newlimit)

/-- The digits of a binary value can be counted by an `int`. -/
def Fits (e : Env) : Run → Append → Prop
  | .building qb, .binary buf =>
    e.flags.hexBinFormat → qb.HasRoom e buf.length → buf.length < 2 ^ 31
  | _, _ => True

end OdbcDriver.QueryBuffer
