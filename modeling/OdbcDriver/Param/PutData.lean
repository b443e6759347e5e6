import OdbcDriver.Lib.Run
import OdbcDriver.Param.ConvertRules
import OdbcDriver.Param.Resolve

/-!
# Data supplied at execution

`SQLPutData` supplies the value of a data-at-execution parameter in chunks. The driver keeps
the chunks in `EXEC_buffer` with their total length in `EXEC_used`, or writes them to a large
object; `ResolveOneParam` reads these fields when the statement is executed at last.

The value delivered is the concatenation of the chunks only when the driver has a buffer to
find them in: a null value, an empty value and an empty chunk after the first have none, and
are errors.
-/

namespace OdbcDriver

open CInt (wrap)

/-! ### One call -/

/-- The arguments of one `SQLPutData` call: the memory from `rgbValue` on, and `cbValue`. -/
structure PutCall where
  rgbValue : List Byte
  cbValue : Int
  deriving DecidableEq, Repr

/-- The errors of `PGAPI_PutData`. -/
inductive PutError | negativeLength | loBegin | loCreate | loOpen | badCbValue
  deriving DecidableEq, Repr

/-- The error text of `PGAPI_PutData`. -/
def PutError.errormsg : PutError → String
  | .negativeLength => "Invalid negative length in SQLPutData"
  | .loBegin => "Could not begin (in-line) a transaction"
  | .loCreate => "Couldnt create large object."
  | .loOpen => "Couldnt open large object for writing."
  | .badCbValue => "bad cbValue"

/-- What a statement keeps for the parameter that is being supplied. -/
structure PutState where
  /-- A chunk was put already. -/
  put_data : Bool
  pdata : PutDataClass
  lobj_fd : Int
  /-- The content of the large object behind `lobj_fd`. -/
  lobj : List Byte
  deriving DecidableEq, Repr

/-- `putlen`: the number of bytes a call supplies. -/
def putLength (ctype : CType) (call : PutCall) : Except PutError Nat :=
  if call.cbValue = SQL_NTS ∧ ctype = .wchar then .ok (WCLEN * ucs2strlen call.rgbValue)
  else if call.cbValue = SQL_NTS ∧ ctype = .char then .ok (strlen call.rgbValue)
  else if call.cbValue < 0 then
    if call.cbValue = SQL_NULL_DATA then .ok 0 else .error .negativeLength
  else if ctype = .char ∨ ctype = .binary ∨ ctype = .wchar then .ok call.cbValue.toNat
  else .ok (ctype_length ctype)

/-- `odbc_lo_write` at the end of a large object. The length is passed as an `Int4`. -/
def odbc_lo_write (lo : LoCalls) (content buf : List Byte) (len : Nat) : List Byte :=
  if lo.written then content ++ buf.take (wrap 32 len).toNat else content

/-- The bytes put and their number: a hexadecimal text for a large object is decoded, chunk
by chunk. -/
def putBuffer (handling_lo : Bool) (ctype : CType) (rgbValue : List Byte) (putlen : Nat) :
    List Byte × Nat :=
  if handling_lo ∧ ctype = .char then (pg_hex2bin rgbValue putlen, putlen / 2)
  else (rgbValue, putlen)

/-- The first call for a parameter. -/
def putFirst (lo : LoCalls) (handling_lo : Bool) (call : PutCall) (putbuf : List Byte)
    (putlen : Nat) (st : PutState) : PutState × Option PutError :=
  let st := { st with put_data := true, pdata := { st.pdata with EXEC_used := some putlen } }
  if call.cbValue = SQL_NULL_DATA then (st, none)
  else if handling_lo then
    if !lo.begun then (st, some .loBegin)
    else
      let st := { st with pdata := { st.pdata with lobj_oid := lo.creat } }
      if lo.creat = 0 then (st, some .loCreate)
      else
        let st := { st with lobj_fd := lo.open_ }
        if lo.open_ < 0 then (st, some .loOpen)
        else ({ st with lobj := odbc_lo_write lo [] putbuf putlen }, none)
  else if 0 < putlen then
    ({ st with pdata := { st.pdata with EXEC_buffer := some (putbuf.take putlen) } }, none)
  else (st, none)

/-- A later call for a parameter: the data goes behind the `EXEC_used` bytes already there. -/
def putNext (lo : LoCalls) (handling_lo : Bool) (putbuf : List Byte) (putlen : Nat)
    (st : PutState) : PutState × Option PutError :=
  let old_pos := st.pdata.EXEC_used.getD 0
  if handling_lo then
    ({ st with
        pdata := { st.pdata with EXEC_used := some (old_pos + putlen) }
        lobj := odbc_lo_write lo st.lobj putbuf putlen }, none)
  else if 0 < putlen then
    ({ st with
        pdata :=
          { st.pdata with
            EXEC_used := some (old_pos + putlen)
            EXEC_buffer := some ((st.pdata.EXEC_buffer.getD []).take old_pos.toNat ++
              putbuf.take putlen) } }, none)
  else (st, some .badCbValue)

/-- `PGAPI_PutData`: the state after the call, and the error it reports. -/
def PGAPI_PutData (conn : ConnectionClass) (lo : LoCalls) (apara : ParameterInfoClass)
    (ipara : ParameterImplClass) (st : PutState) (call : PutCall) :
    PutState × Option PutError :=
  let ctype := resolveDefault conn apara.CType ipara.SQLType
  match putLength ctype call with
  | .error e => (st, some e)
  | .ok putlen =>
    let handling_lo : Bool := PIC_dsp_pgtype conn ipara = conn.lobj_type
    let (putbuf, putlen) := putBuffer handling_lo ctype call.rgbValue putlen
    if !st.put_data then putFirst lo handling_lo call putbuf putlen st
    else putNext lo handling_lo putbuf putlen st

/-- The calls of one parameter as a machine. -/
def putMachine (conn : ConnectionClass) (lo : LoCalls) (apara : ParameterInfoClass)
    (ipara : ParameterImplClass) : Machine PutState PutCall (Option PutError) where
  step := PGAPI_PutData conn lo apara ipara

/-- The state in which `SQLParamData` asks for a parameter: nothing was put yet. The number of
a large object may be left from an earlier execution. -/
def PutState.asked (oid : Oid) : PutState := ⟨false, ⟨none, none, oid⟩, -1, []⟩

/-! ### What an application supplies -/

/-- The number of bytes of the value that a call supplies: those before the NUL for a text
that is marked so, the size of the type for a fixed-size type, else the length given. -/
def dataLength (ctype : CType) (call : PutCall) : Nat :=
  match ctype with
  | .char => if call.cbValue = SQL_NTS then strlen call.rgbValue else call.cbValue.toNat
  | .wchar =>
    if call.cbValue = SQL_NTS then WCLEN * ucs2strlen call.rgbValue else call.cbValue.toNat
  | .binary => call.cbValue.toNat
  | ctype => ctype_length ctype

/-- The bytes of one chunk. -/
def chunk (ctype : CType) (call : PutCall) : List Byte :=
  call.rgbValue.take (dataLength ctype call)

/-- The call supplies data that can be read. -/
structure PutCall.IsData (ctype : CType) (call : PutCall) : Prop where
  not_null : call.cbValue ≠ SQL_NULL_DATA
  readable : dataLength ctype call ≤ call.rgbValue.length

/-- A call that supplies data. -/
abbrev DataCall (ctype : CType) := {call : PutCall // call.IsData ctype}

/-- What an application supplies for a parameter: null in one call, or data in one or more. -/
inductive Supplied (ctype : CType)
  | null (rgbValue : List Byte)
  | data (first : DataCall ctype) (rest : List (DataCall ctype))

/-- The `SQLPutData` calls that supply it. -/
def Supplied.calls {ctype : CType} : Supplied ctype → List PutCall
  | .null rgbValue => [⟨rgbValue, SQL_NULL_DATA⟩]
  | .data first rest => first.1 :: rest.map (·.1)

/-- The chunks, concatenated in order. -/
def concatenation (ctype : CType) (calls : List PutCall) : List Byte :=
  calls.flatMap (chunk ctype)

/-- A length that is not negative, or the mark of a text that ends with NUL. -/
def PutCall.ValidLength (ctype : CType) (call : PutCall) : Prop :=
  0 ≤ call.cbValue ∨ (call.cbValue = SQL_NTS ∧ (ctype = .char ∨ ctype = .wchar))

instance (ctype : CType) (call : PutCall) : Decidable (call.ValidLength ctype) :=
  inferInstanceAs (Decidable (_ ∨ _))

theorem putLength_of_valid {ctype : CType} {call : PutCall} (h : call.ValidLength ctype) :
    putLength ctype call = .ok (dataLength ctype call) := by
  unfold putLength dataLength
  rcases h with h | ⟨h, rfl | rfl⟩
  · have hnts : call.cbValue ≠ SQL_NTS := by unfold SQL_NTS; omega
    rw [if_neg (by tauto), if_neg (by tauto), if_neg (by omega)]
    cases ctype <;> simp [hnts]
  · simp [h]
  · simp [h]

theorem putLength_of_invalid {ctype : CType} {call : PutCall} (hdata : call.IsData ctype)
    (h : ¬ call.ValidLength ctype) : putLength ctype call = .error .negativeLength := by
  have hnull := hdata.not_null
  unfold PutCall.ValidLength at h
  push Not at h
  unfold putLength
  rw [if_neg (by tauto), if_neg (by tauto), if_pos h.1, if_neg hnull]

/-! ### Runs that keep a buffer -/

section Buffered

variable {conn : ConnectionClass} {lo : LoCalls} {apara : ParameterInfoClass}
  {ipara : ParameterImplClass}

/-- The C type `SQLPutData` reads a parameter as. -/
abbrev putCType (conn : ConnectionClass) (apara : ParameterInfoClass)
    (ipara : ParameterImplClass) : CType :=
  resolveDefault conn apara.CType ipara.SQLType

/-- The statement holds `acc` in its buffer. -/
structure Buffered (oid : Oid) (acc : List Byte) (st : PutState) : Prop where
  put_data : st.put_data = true
  pdata : st.pdata = ⟨some acc.length, if acc = [] then none else some acc, oid⟩

theorem chunk_length {ctype : CType} {call : PutCall} (h : call.IsData ctype) :
    (chunk ctype call).length = dataLength ctype call := by
  simpa [chunk] using h.readable

/-- A call without a valid length is refused. -/
theorem PGAPI_PutData_invalid {st : PutState} {call : PutCall}
    (hdata : call.IsData (putCType conn apara ipara))
    (h : ¬ call.ValidLength (putCType conn apara ipara)) :
    PGAPI_PutData conn lo apara ipara st call = (st, some .negativeLength) := by
  simp only [PGAPI_PutData, putLength_of_invalid hdata h]

/-- The first chunk of a buffered value is kept, if there is anything in it. -/
theorem PGAPI_PutData_first (hlo : PIC_dsp_pgtype conn ipara ≠ conn.lobj_type) (oid : Oid)
    {call : PutCall} (hdata : call.IsData (putCType conn apara ipara))
    (hvalid : call.ValidLength (putCType conn apara ipara)) :
    (PGAPI_PutData conn lo apara ipara (.asked oid) call).2 = none ∧
      Buffered oid (chunk (putCType conn apara ipara) call)
        (PGAPI_PutData conn lo apara ipara (.asked oid) call).1 := by
  have hlen := chunk_length hdata
  simp only [PGAPI_PutData, putLength_of_valid hvalid, PutState.asked, putFirst, putBuffer, hlo,
    decide_false, Bool.false_eq_true, false_and, if_false, Bool.not_false, if_true,
    if_neg hdata.not_null]
  by_cases hpos : 0 < dataLength (putCType conn apara ipara) call
  · have hne : chunk (putCType conn apara ipara) call ≠ [] := by
      rw [← List.length_pos_iff]; omega
    rw [if_pos hpos]
    exact ⟨rfl, rfl, by rw [if_neg hne, hlen]; rfl⟩
  · have hnil : chunk (putCType conn apara ipara) call = [] := by
      rw [← List.length_eq_zero_iff]; omega
    rw [if_neg hpos]
    exact ⟨rfl, rfl, by rw [if_pos hnil, hlen]⟩

/-- A later chunk of a buffered value goes behind what is there; an empty one is an error. -/
theorem PGAPI_PutData_next (hlo : PIC_dsp_pgtype conn ipara ≠ conn.lobj_type) (oid : Oid)
    (acc : List Byte) (st : PutState) (call : PutCall) (hst : Buffered oid acc st)
    (hdata : call.IsData (putCType conn apara ipara)) :
    ((PGAPI_PutData conn lo apara ipara st call).2 = none ↔
      call.ValidLength (putCType conn apara ipara) ∧
        chunk (putCType conn apara ipara) call ≠ []) ∧
    (call.ValidLength (putCType conn apara ipara) ∧
        chunk (putCType conn apara ipara) call ≠ [] →
      Buffered oid (acc ++ chunk (putCType conn apara ipara) call)
        (PGAPI_PutData conn lo apara ipara st call).1) := by
  have hlen := chunk_length hdata
  by_cases hvalid : call.ValidLength (putCType conn apara ipara)
  · simp only [PGAPI_PutData, putLength_of_valid hvalid, putBuffer, hlo, decide_false,
      Bool.false_eq_true, false_and, if_false, hst.put_data, Bool.not_true, putNext, hst.pdata,
      Option.getD_some]
    by_cases hpos : 0 < dataLength (putCType conn apara ipara) call
    · have hne : chunk (putCType conn apara ipara) call ≠ [] := by
        rw [← List.length_pos_iff]; omega
      rw [if_pos hpos]
      refine ⟨by simp [hvalid, hne], fun _ => ⟨rfl, ?_⟩⟩
      have hold : ((if acc = [] then none else some acc).getD []).take acc.length = acc := by
        split <;> simp_all
      rw [PutDataClass.mk.injEq]
      refine ⟨by simp [hlen], ?_, rfl⟩
      rw [Int.toNat_natCast, hold, if_neg (by simp [hne])]
      rfl
    · have hnil : chunk (putCType conn apara ipara) call = [] := by
        rw [← List.length_eq_zero_iff]; omega
      rw [if_neg hpos]
      simp [hnil]
  · simp [PGAPI_PutData_invalid hdata hvalid, hvalid]

/-- The calls of a buffered value succeed exactly when their lengths are valid and no chunk
after the first is empty; the statement then holds the concatenation. -/
theorem putMachine_buffered (hlo : PIC_dsp_pgtype conn ipara ≠ conn.lobj_type) (oid : Oid)
    (first : DataCall (putCType conn apara ipara))
    (rest : List (DataCall (putCType conn apara ipara))) :
    ((∀ o ∈ (putMachine conn lo apara ipara).outputs (.asked oid)
        (Supplied.data first rest).calls, o = none) ↔
      first.1.ValidLength (putCType conn apara ipara) ∧
        ∀ c ∈ rest.map (·.1), c.ValidLength (putCType conn apara ipara) ∧
          chunk (putCType conn apara ipara) c ≠ []) ∧
    ((first.1.ValidLength (putCType conn apara ipara) ∧
        ∀ c ∈ rest.map (·.1), c.ValidLength (putCType conn apara ipara) ∧
          chunk (putCType conn apara ipara) c ≠ []) →
      Buffered oid (concatenation (putCType conn apara ipara) (Supplied.data first rest).calls)
        ((putMachine conn lo apara ipara).final (.asked oid) (Supplied.data first rest).calls)) := by
  have hrest : ∀ c ∈ rest.map (·.1), c.IsData (putCType conn apara ipara) := by
    simp only [List.mem_map]
    rintro _ ⟨c, -, rfl⟩
    exact c.2
  simp only [Supplied.calls, Machine.outputs_cons, Machine.final_cons, List.forall_mem_cons,
    concatenation, List.flatMap_cons]
  by_cases hvalid : first.1.ValidLength (putCType conn apara ipara)
  · obtain ⟨hnone, hbuf⟩ := @PGAPI_PutData_first conn lo apara ipara hlo oid first.1 first.2 hvalid
    obtain ⟨hiff, hfinal⟩ :=
      @Machine.accumulate _ _ _ _ (putMachine conn lo apara ipara) (Buffered oid) (· = none)
        (fun call => call.ValidLength (putCType conn apara ipara) ∧
          chunk (putCType conn apara ipara) call ≠ [])
        (fun acc call => acc ++ chunk (putCType conn apara ipara) call) _
        (fun acc st call hst hdata => PGAPI_PutData_next hlo oid acc st call hst hdata)
        _ _ _ hbuf hrest
    simp only [putMachine] at hiff hfinal ⊢
    refine ⟨by simp only [hnone, hvalid, true_and, hiff], fun h => ?_⟩
    simpa only [List.foldl_append_eq_append, List.flatMap_def] using hfinal h.2
  · simp [putMachine, PGAPI_PutData_invalid first.2 hvalid, hvalid]

end Buffered

/-! ### Runs that write a large object -/

section Stored

variable {conn : ConnectionClass} {lo : LoCalls} {apara : ParameterInfoClass}
  {ipara : ParameterImplClass}

/-- The server's large-object calls work. -/
structure LoCalls.Works (lo : LoCalls) : Prop where
  begun : lo.begun = true
  creat : lo.creat ≠ 0
  open_ : 0 ≤ lo.open_
  written : lo.written = true

/-- The bytes of a hexadecimal text, as many as half its length. -/
def hexDecode (text : List Byte) : List Byte :=
  (pg_hex2bin text text.length).take (text.length / 2)

/-- The bytes that one chunk gives to a large object: a text is decoded. -/
def loChunk (ctype : CType) (call : PutCall) : List Byte :=
  if ctype = .char then hexDecode (chunk ctype call) else chunk ctype call

/-- The bytes that the whole value gives to a large object. -/
def loContent (ctype : CType) (calls : List PutCall) : List Byte :=
  if ctype = .char then hexDecode (concatenation ctype calls) else concatenation ctype calls

/-- What arrives of `bytes` when their number is passed as an `Int4`. -/
def arrives (bytes : List Byte) : List Byte := bytes.take (wrap 32 bytes.length).toNat

theorem arrives_eq {bytes : List Byte} (h : bytes.length < 2 ^ 31) : arrives bytes = bytes := by
  have hwrap : wrap 32 bytes.length = bytes.length := by
    simp only [wrap]; omega
  rw [arrives, hwrap, Int.toNat_natCast, List.take_length]

theorem arrives_length_le (bytes : List Byte) : (arrives bytes).length ≤ bytes.length :=
  List.length_take_le' _ _

theorem arrives_length_lt {bytes : List Byte} (h : ¬ bytes.length < 2 ^ 31) :
    (arrives bytes).length < bytes.length := by
  have hwrap : (wrap 32 bytes.length).toNat < bytes.length := by
    simp only [wrap]; omega
  rw [arrives, List.length_take]
  omega

theorem hexDecode_length (text : List Byte) : (hexDecode text).length = text.length / 2 := by
  simp only [hexDecode, pg_hex2bin, List.length_take, List.length_append, List.length_replicate]
  omega

theorem pg_hex2bin_take (src : List Byte) (n : Nat) :
    pg_hex2bin (src.take n) n = pg_hex2bin src n := by
  rw [pg_hex2bin, pg_hex2bin, List.take_take, min_self]

/-- What `PGAPI_PutData` passes on for a large object. -/
theorem putBuffer_lo {ctype : CType} {call : PutCall} (hdata : call.IsData ctype) :
    (putBuffer true ctype call.rgbValue (dataLength ctype call)).2 = (loChunk ctype call).length ∧
      (putBuffer true ctype call.rgbValue (dataLength ctype call)).1.take
        (loChunk ctype call).length = loChunk ctype call := by
  have hlen := chunk_length hdata
  unfold putBuffer loChunk
  by_cases hc : ctype = .char
  · simp only [hc, and_self, if_true]
    rw [hc] at hlen
    refine ⟨by rw [hexDecode_length, hlen], ?_⟩
    rw [hexDecode_length, hlen, hexDecode, hlen, chunk, pg_hex2bin_take]
  · simp only [hc, and_false, if_false, hlen, true_and]
    rfl

/-- The statement has written `content` to its large object, and counts `total` bytes. -/
structure Stored (creat : Oid) (value : List Byte × Nat) (st : PutState) : Prop where
  put_data : st.put_data = true
  pdata : st.pdata = ⟨some value.2, none, creat⟩
  lobj : st.lobj = value.1

theorem odbc_lo_write_eq (hworks : lo.Works) {content buf bytes : List Byte}
    (hbuf : buf.take bytes.length = bytes) :
    odbc_lo_write lo content buf bytes.length = content ++ arrives bytes := by
  have hle : (wrap 32 bytes.length).toNat ≤ bytes.length := by
    simp only [wrap]; omega
  rw [odbc_lo_write, if_pos hworks.written, arrives]
  conv_rhs => rw [← hbuf]
  simp only [List.length_take, List.take_take]
  have hlen : min bytes.length buf.length = bytes.length := by
    rw [← hbuf]; simp
  rw [hlen, min_eq_left hle]

/-- The first chunk of a large object is written to a new one. -/
theorem PGAPI_PutData_lo_first (hworks : lo.Works)
    (hlo : PIC_dsp_pgtype conn ipara = conn.lobj_type) (oid : Oid) {call : PutCall}
    (hdata : call.IsData (putCType conn apara ipara))
    (hvalid : call.ValidLength (putCType conn apara ipara)) :
    (PGAPI_PutData conn lo apara ipara (.asked oid) call).2 = none ∧
      Stored lo.creat (arrives (loChunk (putCType conn apara ipara) call),
          (loChunk (putCType conn apara ipara) call).length)
        (PGAPI_PutData conn lo apara ipara (.asked oid) call).1 := by
  obtain ⟨hlen, hbuf⟩ := putBuffer_lo hdata
  simp only [PGAPI_PutData, putLength_of_valid hvalid, PutState.asked, hlo, decide_true, hlen,
    putFirst, Bool.not_false, if_true, if_neg hdata.not_null, hworks.begun, hworks.creat,
    Bool.not_true, Bool.false_eq_true, if_false, not_lt.mpr hworks.open_]
  refine ⟨trivial, rfl, rfl, ?_⟩
  rw [odbc_lo_write_eq hworks hbuf, List.nil_append]

/-- A later chunk of a large object is written behind the others. -/
theorem PGAPI_PutData_lo_next (hworks : lo.Works)
    (hlo : PIC_dsp_pgtype conn ipara = conn.lobj_type) (value : List Byte × Nat)
    (st : PutState) (call : PutCall) (hst : Stored lo.creat value st)
    (hdata : call.IsData (putCType conn apara ipara)) :
    ((PGAPI_PutData conn lo apara ipara st call).2 = none ↔
      call.ValidLength (putCType conn apara ipara)) ∧
    (call.ValidLength (putCType conn apara ipara) →
      Stored lo.creat (value.1 ++ arrives (loChunk (putCType conn apara ipara) call),
          value.2 + (loChunk (putCType conn apara ipara) call).length)
        (PGAPI_PutData conn lo apara ipara st call).1) := by
  by_cases hvalid : call.ValidLength (putCType conn apara ipara)
  · obtain ⟨hlen, hbuf⟩ := putBuffer_lo hdata
    simp only [PGAPI_PutData, putLength_of_valid hvalid, hlo, decide_true, hlen, hst.put_data,
      Bool.not_true, Bool.false_eq_true, if_false, putNext, if_true, hst.pdata, hst.lobj,
      Option.getD_some, hvalid, true_implies]
    refine ⟨trivial, rfl, by simp, ?_⟩
    rw [odbc_lo_write_eq hworks hbuf]
  · simp [PGAPI_PutData_invalid hdata hvalid, hvalid]

/-- The calls for a large object succeed exactly when their lengths are valid; the object
then holds what arrived of each chunk. -/
theorem putMachine_stored (hworks : lo.Works)
    (hlo : PIC_dsp_pgtype conn ipara = conn.lobj_type) (oid : Oid)
    (first : DataCall (putCType conn apara ipara))
    (rest : List (DataCall (putCType conn apara ipara))) :
    let calls := (Supplied.data first rest).calls
    ((∀ o ∈ (putMachine conn lo apara ipara).outputs (.asked oid) calls, o = none) ↔
      ∀ c ∈ calls, c.ValidLength (putCType conn apara ipara)) ∧
    ((∀ c ∈ calls, c.ValidLength (putCType conn apara ipara)) →
      Stored lo.creat
        (calls.flatMap fun c => arrives (loChunk (putCType conn apara ipara) c),
          (calls.map fun c => (loChunk (putCType conn apara ipara) c).length).sum)
        ((putMachine conn lo apara ipara).final (.asked oid) calls)) := by
  intro calls
  have hrest : ∀ c ∈ rest.map (·.1), c.IsData (putCType conn apara ipara) := by
    simp only [List.mem_map]
    rintro _ ⟨c, -, rfl⟩
    exact c.2
  have hfold : ∀ (cs : List PutCall) (v : List Byte × Nat),
      cs.foldl (fun v c => (v.1 ++ arrives (loChunk (putCType conn apara ipara) c),
          v.2 + (loChunk (putCType conn apara ipara) c).length)) v =
        (v.1 ++ cs.flatMap fun c => arrives (loChunk (putCType conn apara ipara) c),
          v.2 + (cs.map fun c => (loChunk (putCType conn apara ipara) c).length).sum) := by
    intro cs
    induction cs with
    | nil => simp
    | cons c cs ih => intro v; simp [ih, Nat.add_assoc]
  simp only [calls, Supplied.calls, Machine.outputs_cons, Machine.final_cons,
    List.forall_mem_cons, List.flatMap_cons, List.map_cons, List.sum_cons]
  by_cases hvalid : first.1.ValidLength (putCType conn apara ipara)
  · obtain ⟨hnone, hst⟩ :=
      @PGAPI_PutData_lo_first conn lo apara ipara hworks hlo oid first.1 first.2 hvalid
    obtain ⟨hiff, hfinal⟩ :=
      @Machine.accumulate _ _ _ _ (putMachine conn lo apara ipara) (Stored lo.creat) (· = none)
        (fun call => call.ValidLength (putCType conn apara ipara)) _ _
        (PGAPI_PutData_lo_next hworks hlo) _ _ _ hst hrest
    simp only [putMachine] at hiff hfinal ⊢
    refine ⟨by simp only [hnone, hvalid, true_and, hiff], fun h => ?_⟩
    simpa only [hfold] using hfinal h.2
  · simp [putMachine, PGAPI_PutData_invalid first.2 hvalid, hvalid]

/-- Decoding chunk by chunk gives no more bytes than decoding the whole. -/
theorem loChunks_length_le (ctype : CType) (calls : List PutCall) :
    (calls.flatMap (loChunk ctype)).length ≤ (loContent ctype calls).length := by
  unfold loContent
  split
  case isTrue hc =>
    rw [hexDecode_length, concatenation]
    induction calls with
    | nil => simp
    | cons c cs ih =>
      have hlen : (loChunk ctype c).length = (chunk ctype c).length / 2 := by
        rw [loChunk, if_pos hc, hexDecode_length]
      simp only [List.flatMap_cons, List.length_append, hlen]
      omega
  case isFalse hc =>
    have heq : loChunk ctype = chunk ctype := funext fun c => by rw [loChunk, if_neg hc]
    rw [heq, concatenation]

theorem arrives_chunks_length_lt {ctype : CType} {calls : List PutCall} {c : PutCall}
    (hc : c ∈ calls) (hlong : ¬ (loChunk ctype c).length < 2 ^ 31) :
    (calls.flatMap fun c => arrives (loChunk ctype c)).length <
      (calls.flatMap (loChunk ctype)).length := by
  have hle : ∀ cs : List PutCall, (cs.flatMap fun c => arrives (loChunk ctype c)).length ≤
      (cs.flatMap (loChunk ctype)).length := by
    intro cs
    induction cs with
    | nil => simp
    | cons d ds ih =>
      simp only [List.flatMap_cons, List.length_append]
      exact Nat.add_le_add (arrives_length_le _) ih
  obtain ⟨before, after, rfl⟩ := List.append_of_mem hc
  simp only [List.flatMap_append, List.flatMap_cons, List.length_append]
  have hlt := arrives_length_lt hlong
  have hbefore := hle before
  have hafter := hle after
  omega

/-- What arrives is the content exactly when every chunk arrives whole and the chunks, decoded
one by one, are the value decoded. -/
theorem arrives_eq_content_iff {ctype : CType} {calls : List PutCall} :
    (calls.flatMap fun c => arrives (loChunk ctype c)) = loContent ctype calls ↔
      (∀ c ∈ calls, (loChunk ctype c).length < 2 ^ 31) ∧
        calls.flatMap (loChunk ctype) = loContent ctype calls := by
  by_cases hshort : ∀ c ∈ calls, (loChunk ctype c).length < 2 ^ 31
  · have heq : (calls.flatMap fun c => arrives (loChunk ctype c)) =
        calls.flatMap (loChunk ctype) :=
      List.flatMap_congr fun c hc => arrives_eq (hshort c hc)
    rw [heq]
    exact ⟨fun h => ⟨hshort, h⟩, fun h => h.2⟩
  · refine ⟨fun h => ?_, fun h => absurd h.1 hshort⟩
    push Not at hshort
    obtain ⟨c, hc, hlong⟩ := hshort
    have hlt := arrives_chunks_length_lt hc (not_lt.mpr hlong)
    have hle := loChunks_length_le ctype calls
    rw [h] at hlt
    omega

end Stored

end OdbcDriver
