import OdbcDriver.GetData.Conversion

/-!
# The scratch buffer of a column

A value that does not go into the application's buffer as it is, or not whole, is converted into
`ttlbuf` of a `GetDataClass`: that of the column for `SQLGetData`, one for all bound columns. The
buffer stays when the value has not been delivered whole, and the next value that needs no more
bytes than `ttlbuflen` is written into it.
-/

namespace OdbcDriver

open CInt (wrap)

/-- `GetDataClass`. Of `ttlbuf` the model keeps how many bytes have been allocated. -/
structure GetDataClass where
  ttlbuf : Option Nat
  ttlbuflen : Nat
  ttlbufused : Nat
  data_left : Int
  deriving DecidableEq, Repr

/-- `GetDataInfoInitialize` -/
def GetDataClass.init : GetDataClass := ⟨none, 0, 0, -1⟩

/-- A value that is read as a text or as binary data. -/
structure ColumnRead where
  /-- The column is bound; it is read by `SQLGetData` otherwise. -/
  bound : Bool
  neut_str : List Byte
  field_type : Oid
  fCType : TargetType
  cbValueMax : Nat

/-- What is done with a `GetDataClass`. -/
inductive Access
  | text (r : ColumnRead)
  /-- A value that is converted otherwise, read by `SQLGetData`. -/
  | other (cbValueMax : Nat) (ok : Bool)
  /-- `GETDATA_RESET` -/
  | reset
  /-- The columns are unbound. -/
  | release

/-- What is written into the scratch buffer, and the bytes that are allocated then. -/
structure Written where
  size : Nat
  writes : List (List Byte)
  deriving DecidableEq, Repr

/-- What the conversions of `setup_getdataclass` write from the beginning of the buffer on, when
`ttlbuflen` is `max`. -/
def scratchWrites (loc : Locale) (conn : ConnectionClass) (r : ColumnRead) (max : Nat) :
    List (List Byte) :=
  let (kind, text) := byteaProcess r.field_type r.fCType r.neut_str
  let current := kind = .none ∧ conn.convtype ∧ isLocalized r.field_type
  if r.fCType = .wchar then
    if kind = .escape then
      let bin := convert_from_pgbinary false text
      [bin ++ [0], pg_bin2whex bin ++ [0, 0]]
    else if current ∧ (conn.ccsc ≠ .utf8 ∨ (conn.same_encoding ∧ conn.wcs_debug)) then
      match loc.hybrid text conn.lf_conversion with
      | some wide => [wide ++ [0, 0]]
      | none => []
    -- as many characters as have been counted, without a terminator
    else [utf8_to_ucs2_lf text conn.lf_conversion]
  else if current ∧ (!conn.same_encoding ∨ conn.wcs_debug) then
    match loc.localize text conn.lf_conversion with
    | .ok localized => [localized ++ [0]]
    | .error _ => []
  else if kind = .binary then [convert_from_pgbinary (isRawOut r.field_type) text ++ [0]]
  else if kind = .escape then
    let bin := convert_from_pgbinary false text
    [bin ++ [0], pg_bin2hex bin ++ [0]]
  else [(convert_linefeeds text max conn.lf_conversion).1 ++ [0]]

/-- What `setup_getdataclass` leaves. -/
structure SetUp where
  gdc : GetDataClass
  /-- The length of the value and `needbuflen`, unless it has failed or was asked for the length. -/
  value : Option (Nat × Int)
  writes : List (List Byte)

/-- `setup_getdataclass`. The functions that write do nothing when they are given no buffer. -/
def setup_getdataclass (loc : Locale) (conn : ConnectionClass) (gdc : GetDataClass)
    (r : ColumnRead) : SetUp :=
  match convertValue loc conn r.field_type r.fCType r.neut_str with
  | .error _ => ⟨gdc, none, []⟩
  | .ok cv =>
    if r.cbValueMax = 0 then ⟨gdc, none, []⟩
    else
      let gdc := if gdc.ttlbuf = none then { gdc with ttlbuflen := 0 } else gdc
      let needbuflen := wrap 32 (cv.bytes.length + get_terminator_len r.fCType)
      let len_for_wcs_term := if r.fCType = .binary then 1 else 0
      if cv.changed ∨ (r.cbValueMax : Int) < needbuflen then
        let gdc := if (gdc.ttlbuflen : Int) < needbuflen then
            { gdc with
              ttlbuf := some (needbuflen + len_for_wcs_term).toNat
              ttlbuflen := needbuflen.toNat }
          else gdc
        ⟨{ gdc with ttlbufused := cv.bytes.length }, some (cv.bytes.length, needbuflen),
          if gdc.ttlbuf = none then [] else scratchWrites loc conn r gdc.ttlbuflen⟩
      else ⟨{ gdc with ttlbuf := none }, some (cv.bytes.length, needbuflen), []⟩

/-- What `convert_text_field_to_sql_c` does once `ptr`, `len` and `needbuflen` are known. -/
def deliver (gdc : GetDataClass) (r : ColumnRead) (len : Nat) (needbuflen : Int) : GetDataClass :=
  let continued := !r.bound ∧ 0 < gdc.data_left
  let needbuflen := if continued then gdc.data_left + (gdc.ttlbuflen - gdc.ttlbufused) else needbuflen
  let len : Int := if continued then gdc.data_left else len
  let gdc := if r.bound then gdc else { gdc with data_left := len }
  let terminatorlen := get_terminator_len r.fCType
  let copy_len : Int :=
    if r.cbValueMax ≤ terminatorlen then 0
    else if (r.cbValueMax : Int) < len + terminatorlen then
      get_adjust_len r.fCType (r.cbValueMax - terminatorlen)
    else len
  let gdc := if r.bound then gdc else { gdc with data_left := gdc.data_left - copy_len }
  if 0 < r.cbValueMax ∧ (r.cbValueMax : Int) < needbuflen then gdc
  else { gdc with ttlbuf := none, data_left := if r.bound then gdc.data_left else 0 }

/-- `convert_text_field_to_sql_c` -/
def convert_text_field_to_sql_c (loc : Locale) (conn : ConnectionClass) (gdc : GetDataClass)
    (r : ColumnRead) : GetDataClass × Written :=
  let gdc := if r.bound then { gdc with data_left := -1 } else gdc
  let s := if gdc.data_left < 0 then setup_getdataclass loc conn gdc r
    else ⟨gdc, some (gdc.ttlbufused, 0), []⟩
  (match s.value with
    | none => s.gdc
    | some (len, needbuflen) => deliver s.gdc r len needbuflen,
    ⟨s.gdc.ttlbuf.getD 0, s.writes⟩)

/-- The beginning of `copy_and_convert_field`, for a column that is not bound: nothing is read when
all of the value has been delivered. -/
def beginRead (gdc : GetDataClass) (cbValueMax : Nat) : Option GetDataClass :=
  let gdc := if gdc.data_left = -2 then
      { gdc with data_left := if 0 < cbValueMax then 0 else -1 } else gdc
  if gdc.data_left = 0 then none else some gdc

/-- What is left when all of the value has been delivered. -/
def delivered (gdc : GetDataClass) : GetDataClass :=
  { gdc with
    ttlbuf := none
    ttlbuflen := if gdc.ttlbuf = none then gdc.ttlbuflen else 0
    data_left := -2 }

/-- One access. -/
def GetDataClass.access (loc : Locale) (conn : ConnectionClass) (gdc : GetDataClass) :
    Access → GetDataClass × Written
  | .text r =>
    if r.bound then convert_text_field_to_sql_c loc conn gdc r
    else
      match beginRead gdc r.cbValueMax with
      | none => (delivered gdc, ⟨0, []⟩)
      | some gdc => convert_text_field_to_sql_c loc conn gdc r
  | .other cbValueMax ok =>
    (match beginRead gdc cbValueMax with
      | none => delivered gdc
      | some gdc => if ok then { gdc with data_left := 0 } else gdc, ⟨0, []⟩)
  | .reset => ({ gdc with data_left := -1 }, ⟨0, []⟩)
  | .release => (.init, ⟨0, []⟩)

end OdbcDriver
