import Mathlib.Logic.Function.Basic
import OdbcDriver.GetData.Scratch
import OdbcDriver.Lib.Run

/-!
# A value in pieces

`SQLGetData` delivers a text or binary value in as many calls as the application needs. Between
two calls the `GetDataClass` of the column keeps how much of the value is left (`data_left`) and the
converted value in its scratch buffer. The first half of this file is the driver: its calls, and
what else resets a column.

The second half says what the calls are for. A `Reader` keeps what is left of the one value that is
being read, and nothing of the values before it.
-/

namespace OdbcDriver.Pieces

/-! ### The driver -/

/-- `SQL_NULL_DATA` -/
def SQL_NULL_DATA : Int := -1

/-- An element of `gdata`, with what stands in its `ttlbuf`. -/
structure Column where
  gdc : GetDataClass
  ttlbuf : List Byte

/-- A column that `reset_a_getdata_info` has reset. -/
def Column.reset : Column := ⟨.init, []⟩

/-- A column of a row: its type, and the text of its value unless it is NULL. -/
structure Field where
  field_type : Oid
  value : Option (List Byte)

/-- What a call of `SQLGetData` asks for. A `rgbValue` that is NULL is a buffer of no bytes. -/
structure Request where
  /-- The type, unless it is one of fixed size. -/
  fCType : Option TargetType
  cbValueMax : Nat
  /-- `pcbValue` is not NULL. -/
  pcbValue : Bool
  /-- The conversion into a type of fixed size succeeds. -/
  converts : Bool

/-- What `copy_and_convert_field` returns. -/
inductive CopyResult
  | ok
  | unsupportedType
  | truncated
  | generalError
  | noData
  | invalidString
deriving DecidableEq, Repr

/-- What a call answers: `*pcbValue`, if it is set, and the bytes that are stored from the beginning
of the application's buffer on. What a conversion into a type of fixed size stores is left out. -/
structure Answer where
  result : CopyResult
  length : Option Int
  stored : List Byte
deriving DecidableEq, Repr

/-- What stands in a buffer when `bytes` have been written from its beginning on. -/
def overwrite (buffer bytes : List Byte) : List Byte := bytes ++ buffer.drop bytes.length

/-- The terminator, as far as the buffer has room for it behind `copied` bytes. -/
def terminator (fCType : TargetType) (cbValueMax copied : Nat) : List Byte :=
  List.replicate (min (get_terminator_len fCType) (cbValueMax - copied)) 0

/-- What is left of a value of `len` bytes. -/
def left (gdc : GetDataClass) (len : Nat) : Int :=
  if 0 < gdc.data_left then gdc.data_left else len

/-- The bytes that have to fit in (`needbuflen`). -/
def needed (gdc : GetDataClass) (needbuflen : Int) : Int :=
  if 0 < gdc.data_left then gdc.data_left + (gdc.ttlbuflen - gdc.ttlbufused) else needbuflen

/-- `copy_len` -/
def copyLen (fCType : TargetType) (cbValueMax : Nat) (len : Int) : Int :=
  if cbValueMax ≤ get_terminator_len fCType then 0
  else if (cbValueMax : Int) < len + get_terminator_len fCType then
    get_adjust_len fCType (cbValueMax - get_terminator_len fCType)
  else len

/-- The second half of `convert_text_field_to_sql_c`: the value `ptr` of `len` bytes, or the rest
of it, is copied. -/
def copyPiece (col : Column) (r : ColumnRead) (ptr : List Byte) (len : Nat) (needbuflen : Int) :
    Column × Answer :=
  let left := left col.gdc len
  let copy_len := (copyLen r.fCType r.cbValueMax left).toNat
  (⟨deliver col.gdc r len needbuflen, col.ttlbuf⟩,
    { result := if 0 < r.cbValueMax ∧ (r.cbValueMax : Int) < needed col.gdc needbuflen then .truncated
        else .ok
      length := some left
      stored := (ptr.drop (len - left).toNat).take copy_len ++
        terminator r.fCType r.cbValueMax copy_len })

/-- `convert_text_field_to_sql_c`, for `SQLGetData`. -/
def convert_text_field (loc : Locale) (conn : ConnectionClass) (col : Column) (r : ColumnRead) :
    Column × Answer :=
  if col.gdc.data_left < 0 then
    let s := setup_getdataclass loc conn col.gdc r
    let col : Column := ⟨s.gdc, s.writes.foldl overwrite col.ttlbuf⟩
    match convertValue loc conn r.field_type r.fCType r.neut_str with
    | .error code => (col, ⟨.invalidString, some code, []⟩)
    | .ok cv =>
      match s.value with
      -- just returns length info
      | none => (col, ⟨.truncated, some cv.bytes.length, []⟩)
      | some (len, needbuflen) =>
        copyPiece col r (if s.gdc.ttlbuf.isSome then col.ttlbuf else cv.text) len needbuflen
  else copyPiece col r col.ttlbuf col.gdc.ttlbufused 0

/-- The type a value is read as when it is handled as a text or as binary data
(`text_bin_handling`). -/
def Request.target (q : Request) (field_type : Oid) : Option TargetType :=
  q.fCType.filter fun t => t ≠ .binary || text_bin_handling field_type

/-- `copy_and_convert_field`, for the column `SQLGetData` reads. -/
def copy_and_convert_field (loc : Locale) (conn : ConnectionClass) (col : Column) (f : Field)
    (q : Request) : Column × Answer :=
  match beginRead col.gdc q.cbValueMax with
  | none => (⟨delivered col.gdc, col.ttlbuf⟩, ⟨.noData, none, []⟩)
  | some gdc =>
    let col : Column := ⟨gdc, col.ttlbuf⟩
    match f.value with
    | none =>
      (col, if q.pcbValue then ⟨.ok, some SQL_NULL_DATA, []⟩ else ⟨.generalError, none, []⟩)
    | some neut_str =>
      match q.target f.field_type with
      | some fCType =>
        let (col, a) := convert_text_field loc conn col
          ⟨false, neut_str, f.field_type, fCType, q.cbValueMax⟩
        (if a.result = .ok then { col with gdc := { col.gdc with data_left := 0 } } else col,
          if q.pcbValue then a else { a with length := none })
      | none =>
        if q.converts then ({ col with gdc := { gdc with data_left := 0 } }, ⟨.ok, none, []⟩)
        else (col, ⟨.unsupportedType, none, []⟩)

/-- A row of a result. -/
abbrev Row := Nat → Field

/-- What the calls use of a statement. Every column has an element of `gdata`. -/
structure StatementClass where
  gdata : Nat → Column
  /-- -1 where there is none. -/
  current_col : Option Nat
  /-- The row the statement is positioned on. -/
  row : Option Row

/-- A statement that has not been used. -/
def StatementClass.init : StatementClass := ⟨fun _ => .reset, none, none⟩

/-- `SC_set_current_col` -/
def SC_set_current_col (stmt : StatementClass) (col : Option Nat) : StatementClass :=
  if col = stmt.current_col then stmt
  else
    { stmt with
      gdata := col.elim stmt.gdata fun c => Function.update stmt.gdata c .reset
      current_col := col }

/-- `GETDATA_RESET` -/
def Column.begun (col : Column) : Column := { col with gdc := { col.gdc with data_left := -1 } }

/-- The calls of an application that matter to `SQLGetData`. -/
inductive Call
  /-- `SQLGetData` -/
  | getData (icol : Nat) (q : Request)
  /-- A row is fetched, or there is no other. With `SQL_RD_OFF` nothing is done with its columns; a
  bookmark may be bound. -/
  | fetch (row : Option Row) (retrieve_data bookmark : Bool)
  /-- `SQLSetPos` -/
  | setPos (row : Row)
  /-- The statement is closed, or executed again. -/
  | close
  /-- `SQLBindCol` -/
  | bindCol (icol : Nat) (unbind : Bool)

/-- `PGAPI_GetData` -/
def PGAPI_GetData (loc : Locale) (conn : ConnectionClass) (stmt : StatementClass) (icol : Nat)
    (q : Request) : StatementClass × Answer :=
  match stmt.row with
  | none => (stmt, ⟨.generalError, none, []⟩)
  | some row =>
    let stmt := SC_set_current_col stmt (some icol)
    let (col, a) := copy_and_convert_field loc conn (stmt.gdata icol) (row icol) q
    ({ stmt with gdata := Function.update stmt.gdata icol col }, a)

/-- One call. -/
def StatementClass.call (loc : Locale) (conn : ConnectionClass) (stmt : StatementClass) :
    Call → StatementClass × Option Answer
  | .getData icol q => (PGAPI_GetData loc conn stmt icol q).map id some
  | .fetch none _ _ => ({ stmt with row := none }, none)
  | .fetch (some row) retrieve_data bookmark =>
    let stmt := if bookmark then SC_set_current_col stmt none else stmt
    ({ stmt with
        gdata := if retrieve_data then fun c => (stmt.gdata c).begun else stmt.gdata
        row := some row }, none)
  | .setPos row => ({ stmt with gdata := fun c => (stmt.gdata c).begun, row := some row }, none)
  | .close => ({ SC_set_current_col stmt none with row := none }, none)
  | .bindCol icol unbind =>
    ({ stmt with
        gdata := Function.update stmt.gdata icol
          (if unbind then .reset else (stmt.gdata icol).begun) }, none)

/-- The driver. -/
def driver (loc : Locale) (conn : ConnectionClass) : Machine StatementClass Call (Option Answer) where
  step := StatementClass.call loc conn

/-! ### What the calls are for -/

/-- What has become of a value. -/
inductive Progress
  /-- These bytes are left. -/
  | part (rest : List Byte)
  /-- All of it has been delivered. -/
  | whole
  /-- And the application has been told so. -/
  | told

/-- The row that is read, and the column that is being read. -/
structure Reader where
  row : Option Row
  reading : Option (Nat × Progress)

/-- Nothing has been read. -/
def Reader.init : Reader := ⟨none, none⟩

/-- What a buffer takes of the bytes that are left: all of them if they fit in with a terminator. -/
def piece (fCType : TargetType) (cbValueMax : Nat) (rest : List Byte) : List Byte :=
  if rest.length + get_terminator_len fCType ≤ cbValueMax then rest
  else rest.take (get_adjust_len fCType (cbValueMax - get_terminator_len fCType))

/-- The answer to a call when `rest` is left, and what is left then. -/
def readPiece (fCType : TargetType) (q : Request) (rest : List Byte) : Progress × Answer :=
  let p := piece fCType q.cbValueMax rest
  (if p.length = rest.length then .whole else .part (rest.drop p.length),
    { result := if rest.length + get_terminator_len fCType ≤ q.cbValueMax then .ok else .truncated
      length := if q.pcbValue then some rest.length else none
      stored := p ++ terminator fCType q.cbValueMax p.length })

/-- A conversion into a type of fixed size. -/
def readFixed (q : Request) (p : Option Progress) : Option Progress × Answer :=
  if q.converts then (some .whole, ⟨.ok, none, []⟩) else (p, ⟨.unsupportedType, none, []⟩)

/-- A value of which nothing has been read. -/
def beginValue (loc : Locale) (conn : ConnectionClass) (f : Field) (q : Request) :
    Option Progress × Answer :=
  match f.value with
  | none => (none, if q.pcbValue then ⟨.ok, some SQL_NULL_DATA, []⟩ else ⟨.generalError, none, []⟩)
  | some neut_str =>
    match q.target f.field_type with
    | none => readFixed q none
    | some fCType =>
      match convertValue loc conn f.field_type fCType neut_str with
      | .error code => (none, ⟨.invalidString, if q.pcbValue then some code else none, []⟩)
      | .ok cv =>
        if q.cbValueMax = 0 then
          (none, ⟨.truncated, if q.pcbValue then some cv.bytes.length else none, []⟩)
        else (readPiece fCType q cv.bytes).map some id

/-- What a call makes of a value. When all of it has been delivered, a call that only asks for the
length begins it anew. -/
def readValue (loc : Locale) (conn : ConnectionClass) (f : Field) (q : Request) :
    Option Progress → Option Progress × Answer
  | none => beginValue loc conn f q
  | some (.part rest) =>
    match q.target f.field_type with
    | none => readFixed q (some (.part rest))
    | some fCType => (readPiece fCType q rest).map some id
  | some .whole => (some .told, ⟨.noData, none, []⟩)
  | some .told =>
    if q.cbValueMax = 0 then beginValue loc conn f q else (some .told, ⟨.noData, none, []⟩)

/-- What has become of the value of a column. -/
def Reader.progress (t : Reader) (icol : Nat) : Option Progress :=
  (t.reading.filter (·.1 = icol)).map (·.2)

/-- One call. -/
def Reader.call (loc : Locale) (conn : ConnectionClass) (t : Reader) :
    Call → Reader × Option Answer
  | .getData icol q =>
    match t.row with
    | none => (t, some ⟨.generalError, none, []⟩)
    | some row =>
      let (p, a) := readValue loc conn (row icol) q (t.progress icol)
      ({ t with reading := p.map (icol, ·) }, some a)
  | .fetch row _ _ => (⟨row, none⟩, none)
  | .setPos row => (⟨some row, none⟩, none)
  | .close => (.init, none)
  | .bindCol icol _ => ({ t with reading := t.reading.filter (·.1 ≠ icol) }, none)

/-- What an application sees. -/
def reader (loc : Locale) (conn : ConnectionClass) : Machine Reader Call (Option Answer) where
  step := Reader.call loc conn

end OdbcDriver.Pieces
