import OdbcDriver.Param.PutData

/-!
# What arrives of data supplied at execution

The value that `ResolveOneParam` sends for a parameter supplied by `SQLPutData`, against what
the application supplied: null for a null, and otherwise what an ordinary parameter with the
concatenated chunks sends, or a large object that holds them.
-/

namespace OdbcDriver

open Lib

section Delivery

variable (env : Env) (conn : ConnectionClass) (mode : ResolveParamMode) (flags : Flags)
  (lo : LoCalls) (apara : ParameterInfoClass) (ipara : ParameterImplClass)

/-- The parameter, resolved from what the `SQLPutData` calls left. -/
def resolveSupplied (st : PutState) : Except Fault Converted :=
  resolveData env conn mode flags lo st.pdata.lobj_oid { apara with data_at_exec := true } ipara
    (putData st.pdata)

/-- An ordinary parameter whose buffer holds `value`, ended with NUL, and whose length says
so. -/
def resolveOrdinary (value : List Byte) : Except Fault Converted :=
  resolveData env conn mode flags lo 0 { apara with data_at_exec := false } ipara
    ⟨value.length, .mem (value ++ [0]), false⟩

/-- The result sends the number of a large object. -/
def SendsObject (oid : Oid) (r : Except Fault Converted) : Prop :=
  ∃ v, r = .ok (.value v) ∧ v.send_buf = ascii (toString oid.toNat) ∧ v.lastadd = some "::lo"

/-- What was supplied arrives: no call fails, a null is sent as null, and data is sent as an
ordinary parameter with the concatenation of the chunks would be, or as a large object that
holds it. -/
def Delivers (oid : Oid) (s : Supplied (putCType conn apara ipara)) : Prop :=
  let m := putMachine conn lo apara ipara
  let st := m.final (.asked oid) s.calls
  (∀ o ∈ m.outputs (.asked oid) s.calls, o = none) ∧
    match s with
    | .null _ => resolveSupplied env conn mode flags lo apara ipara st = .ok .null
    | .data .. =>
      if PIC_dsp_pgtype conn ipara = conn.lobj_type then
        st.lobj = loContent (putCType conn apara ipara) s.calls ∧
          SendsObject lo.creat (resolveSupplied env conn mode flags lo apara ipara st)
      else
        resolveSupplied env conn mode flags lo apara ipara st =
          resolveOrdinary env conn mode flags lo apara ipara
            (concatenation (putCType conn apara ipara) s.calls)

/-- The SQL type the parameter is converted to. -/
abbrev paramSqlType : SqlType :=
  effectiveSqlType env.fm ipara.SQLType (PIC_dsp_pgtype conn ipara)

/-- The C type the parameter is converted from. -/
abbrev paramCType : CType :=
  resolveDefault conn apara.CType (paramSqlType env conn ipara)

/-- What the driver can deliver. A null never is. Of the data, every length is valid, and:
for a large object, the SQL type is binary, every chunk arrives whole, decoding the chunks one
by one decodes the value, and the value is resolved without reading the buffer that is not
there; otherwise no chunk after the first is empty, the value is not empty, and it is not to be
stored in a large object after all. -/
def Deliverable : Supplied (putCType conn apara ipara) → Prop
  | .null _ => False
  | .data first rest =>
    let ctype := putCType conn apara ipara
    let calls := (Supplied.data first rest).calls
    (∀ c ∈ calls, c.ValidLength ctype) ∧
      if PIC_dsp_pgtype conn ipara = conn.lobj_type then
        (paramSqlType env conn ipara).isBinary ∧
          (∀ c ∈ calls, (loChunk ctype c).length < 2 ^ 31) ∧
          calls.flatMap (loChunk ctype) = loContent ctype calls ∧
          ReachesStore env.fm conn (paramCType env conn apara ipara) .null
            ((calls.map fun c => (loChunk ctype c).length).sum : Nat)
      else
        (∀ c ∈ rest.map (·.1), chunk ctype c ≠ []) ∧
          concatenation ctype calls ≠ [] ∧
          ¬ ((paramSqlType env conn ipara).isBinary ∧
            isLoType conn (PIC_dsp_pgtype conn ipara) ∧
            ReachesStore env.fm conn (paramCType env conn apara ipara)
              (.mem (concatenation ctype calls ++ [0]))
              (concatenation ctype calls).length)

variable {env conn mode flags lo apara ipara}

/-- An ordinary value is converted. -/
theorem resolveOrdinary_eq (hin : ipara.paramType ≠ .output) (value : List Byte) :
    resolveOrdinary env conn mode flags lo apara ipara value =
      convertParam env.fm conn lo flags.binaryAsPossible false 0 apara.precision
        (paramCType env conn apara ipara) (paramSqlType env conn ipara)
        (PIC_dsp_pgtype conn ipara) (.mem (value ++ [0])) value.length := by
  have hnull : ¬ ((value.length : Int) = SQL_NULL_DATA ∨ (value.length : Int) = SQL_DEFAULT_PARAM) := by
    unfold SQL_NULL_DATA SQL_DEFAULT_PARAM; omega
  unfold resolveOrdinary resolveData
  simp [hin, hnull]

/-- A buffered value that is not empty is converted from the buffer. -/
theorem resolveSupplied_buffered (hin : ipara.paramType ≠ .output) {oid : Oid}
    {value : List Byte} {st : PutState} (hst : Buffered oid value st) (hne : value ≠ []) :
    resolveSupplied env conn mode flags lo apara ipara st =
      convertParam env.fm conn lo flags.binaryAsPossible true oid apara.precision
        (paramCType env conn apara ipara) (paramSqlType env conn ipara)
        (PIC_dsp_pgtype conn ipara) (.mem (value ++ [0])) value.length := by
  have hnull : ¬ ((value.length : Int) = SQL_NULL_DATA ∨ (value.length : Int) = SQL_DEFAULT_PARAM) := by
    unfold SQL_NULL_DATA SQL_DEFAULT_PARAM; omega
  unfold resolveSupplied resolveData
  simp [hin, hnull, putData, hst.pdata, hne]

/-- Without a buffer, and without a large object, there is nothing to send. -/
theorem resolveSupplied_empty (hin : ipara.paramType ≠ .output) (hmode : mode ≠ .fakeParams)
    {st : PutState} (hst : st.pdata = ⟨some 0, none, 0⟩) :
    resolveSupplied env conn mode flags lo apara ipara st = .error (.error .unexpectedNull) := by
  unfold resolveSupplied resolveData
  simp [hin, hmode, putData, hst, SQL_NULL_DATA, SQL_DEFAULT_PARAM]

/-- A large object is converted without a buffer. -/
theorem resolveSupplied_stored (hin : ipara.paramType ≠ .output) (hmode : mode ≠ .fakeParams)
    (hcreat : lo.creat ≠ 0) {value : List Byte × Nat} {st : PutState}
    (hst : Stored lo.creat value st) :
    resolveSupplied env conn mode flags lo apara ipara st =
      convertParam env.fm conn lo flags.binaryAsPossible true lo.creat apara.precision
        (paramCType env conn apara ipara) (paramSqlType env conn ipara)
        (PIC_dsp_pgtype conn ipara) .null (value.2 : Int) := by
  have hnull : ¬ ((value.2 : Int) = SQL_NULL_DATA ∨ (value.2 : Int) = SQL_DEFAULT_PARAM) := by
    unfold SQL_NULL_DATA SQL_DEFAULT_PARAM; omega
  unfold resolveSupplied resolveData
  simp [hin, hmode, hnull, putData, hst.pdata]
  exact fun h => absurd h hcreat

/-- A null is not delivered: it leaves a length of 0 and no buffer. -/
theorem not_delivers_null (hin : ipara.paramType ≠ .output) (hmode : mode ≠ .fakeParams)
    (rgbValue : List Byte) :
    ¬ Delivers env conn mode flags lo apara ipara 0 (.null rgbValue) := by
  rintro ⟨-, hnull⟩
  have hput : putLength (putCType conn apara ipara) ⟨rgbValue, SQL_NULL_DATA⟩ = .ok 0 := by
    simp [putLength, SQL_NULL_DATA, SQL_NTS]
  have hbuf : ∀ b, (putBuffer b (putCType conn apara ipara) rgbValue 0).2 = 0 := by
    intro b
    unfold putBuffer
    split <;> rfl
  have hst : ((putMachine conn lo apara ipara).final (.asked 0)
      (@Supplied.null (putCType conn apara ipara) rgbValue).calls).pdata =
        ⟨some 0, none, 0⟩ := by
    simp [Supplied.calls, putMachine, PGAPI_PutData, hput, PutState.asked, putFirst, hbuf]
  dsimp only at hnull
  rw [resolveSupplied_empty hin hmode hst] at hnull
  cases hnull

/-- A buffered value: it is delivered exactly when no chunk after the first is empty, the
value is not empty, and it is not to be stored in a large object after all. -/
theorem delivers_buffered (hin : ipara.paramType ≠ .output) (hmode : mode ≠ .fakeParams)
    (hlo : PIC_dsp_pgtype conn ipara ≠ conn.lobj_type) (oid : Oid)
    (first : DataCall (putCType conn apara ipara))
    (rest : List (DataCall (putCType conn apara ipara))) :
    (Deliverable env conn apara ipara (.data first rest) →
      Delivers env conn mode flags lo apara ipara oid (.data first rest)) ∧
    (oid = 0 → Delivers env conn mode flags lo apara ipara oid (.data first rest) →
      Deliverable env conn apara ipara (.data first rest)) := by
  obtain ⟨hiff, hfinal⟩ := @putMachine_buffered conn lo apara ipara hlo oid first rest
  have hcalls : ∀ P : PutCall → Prop, (∀ c ∈ (Supplied.data first rest).calls, P c) ↔
      P first.1 ∧ ∀ c ∈ rest.map (·.1), P c := fun P => List.forall_mem_cons
  have hused : (0 : Int) ≤ ((concatenation (putCType conn apara ipara)
      (Supplied.data first rest).calls).length : Int) := by omega
  simp only [Delivers, Deliverable, if_neg hlo, hcalls, hiff]
  constructor
  · rintro ⟨⟨hfirst, hrest⟩, hchunks, hne, hstore⟩
    have hst := hfinal ⟨hfirst, fun c hc => ⟨hrest c hc, hchunks c hc⟩⟩
    refine ⟨⟨hfirst, fun c hc => ⟨hrest c hc, hchunks c hc⟩⟩, ?_⟩
    rw [resolveSupplied_buffered hin hst hne, resolveOrdinary_eq hin]
    by_cases hlotype : (paramSqlType env conn ipara).isBinary = true ∧
        isLoType conn (PIC_dsp_pgtype conn ipara) = true
    · obtain ⟨e, he⟩ := convertParam_lo_error hlotype.2 hlotype.1 (by nofun) hused
        (fun h => hstore ⟨hlotype.1, hlotype.2, h⟩)
      rw [he, he]
    · exact convertParam_of_not_lo hlotype ..
  · rintro rfl ⟨⟨hfirst, hrest⟩, hsent⟩
    have hst := hfinal ⟨hfirst, hrest⟩
    have hne : concatenation (putCType conn apara ipara)
        (Supplied.data first rest).calls ≠ [] := by
      intro hnil
      have hpdata := hst.pdata
      rw [hnil] at hpdata
      rw [resolveSupplied_empty hin hmode hpdata, resolveOrdinary_eq hin] at hsent
      exact findsBuffer_convertParam _ _ _ _ _ _ _ _ _ _ _ _ hsent.symm
    refine ⟨⟨hfirst, fun c hc => (hrest c hc).1⟩, fun c hc => (hrest c hc).2, hne, ?_⟩
    rintro ⟨hsq, hlotype, hstore⟩
    obtain ⟨used', hconv⟩ := convertParam_lo hlotype hsq (by nofun) hused hstore
    rw [resolveSupplied_buffered hin hst hne, resolveOrdinary_eq hin, hconv, hconv] at hsent
    exact createLo_ne _ _ _ _ hsent.symm

/-- A large object: it is delivered exactly when its bytes arrive whole and decode chunk by
chunk, and its number is found without a buffer. -/
theorem delivers_stored (hworks : lo.Works) (hin : ipara.paramType ≠ .output)
    (hmode : mode ≠ .fakeParams) (hlo : PIC_dsp_pgtype conn ipara = conn.lobj_type) (oid : Oid)
    (first : DataCall (putCType conn apara ipara))
    (rest : List (DataCall (putCType conn apara ipara))) :
    Delivers env conn mode flags lo apara ipara oid (.data first rest) ↔
      Deliverable env conn apara ipara (.data first rest) := by
  obtain ⟨hiff, hfinal⟩ := @putMachine_stored conn lo apara ipara hworks hlo oid first rest
  have hlotype : isLoType conn (PIC_dsp_pgtype conn ipara) = true := by
    simp [isLoType, hlo]
  simp only [Delivers, Deliverable, if_pos hlo, hiff]
  refine and_congr_right fun hvalid => ?_
  have hst := hfinal hvalid
  rw [hst.lobj, resolveSupplied_stored hin hmode hworks.creat hst, arrives_eq_content_iff]
  have hsends : SendsObject lo.creat (convertParam env.fm conn lo flags.binaryAsPossible true
      lo.creat apara.precision (paramCType env conn apara ipara) (paramSqlType env conn ipara)
      (PIC_dsp_pgtype conn ipara) .null
      (((Supplied.data first rest).calls.map fun c =>
        (loChunk (putCType conn apara ipara) c).length).sum : Nat)) ↔
      (paramSqlType env conn ipara).isBinary = true ∧
        ReachesStore env.fm conn (paramCType env conn apara ipara) .null
          (((Supplied.data first rest).calls.map fun c =>
            (loChunk (putCType conn apara ipara) c).length).sum : Nat) := by
    constructor
    · rintro ⟨v, hv, -, hadd⟩
      have hsq := isBinary_of_lastadd hv hadd
      refine ⟨hsq, ?_⟩
      by_contra hstore
      obtain ⟨e, he⟩ := convertParam_lo_error hlotype hsq (by rintro ⟨⟩) (by omega) hstore
      rw [he] at hv
      cases hv
    · rintro ⟨hsq, hstore⟩
      obtain ⟨used', hconv⟩ := convertParam_lo hlotype hsq (by rintro ⟨⟩) (by omega) hstore
      exact ⟨loValue lo.creat none, hconv true lo.creat, rfl, rfl⟩
  rw [hsends]
  tauto

end Delivery

/-- **Data supplied at execution.** For every input parameter, every null or sequence of
chunks, and a server whose large-object calls work: what `Deliverable` allows is delivered, in
whatever state an earlier execution left the parameter; and in a fresh state nothing else is. -/
theorem delivers_iff_deliverable (env : Env) (conn : ConnectionClass) (mode : ResolveParamMode)
    (flags : Flags) (lo : LoCalls) (apara : ParameterInfoClass) (ipara : ParameterImplClass)
    (hworks : lo.Works) (hin : ipara.paramType ≠ .output) (hmode : mode ≠ .fakeParams)
    (s : Supplied (putCType conn apara ipara)) :
    (∀ oid, Deliverable env conn apara ipara s →
      Delivers env conn mode flags lo apara ipara oid s) ∧
    (Delivers env conn mode flags lo apara ipara 0 s ↔ Deliverable env conn apara ipara s) := by
  cases s with
  | null rgbValue =>
    exact ⟨fun _ h => h.elim, fun h => not_delivers_null hin hmode rgbValue h, fun h => h.elim⟩
  | data first rest =>
    by_cases hlo : PIC_dsp_pgtype conn ipara = conn.lobj_type
    · exact ⟨fun oid => (delivers_stored hworks hin hmode hlo oid first rest).mpr,
        delivers_stored hworks hin hmode hlo 0 first rest⟩
    · exact ⟨fun oid => (delivers_buffered hin hmode hlo oid first rest).1,
        (delivers_buffered hin hmode hlo 0 first rest).2 rfl,
        (delivers_buffered hin hmode hlo 0 first rest).1⟩

/-- A text in two chunks is delivered to a text parameter. -/
theorem delivers_iff_deliverable_two_chunks :
    Delivers sampleEnv sampleConn .replaceParams sampleFlags sampleLo sampleText sampleVarchar 0
      (.data ⟨⟨ascii "ab", 2⟩, by decide, by decide⟩ [⟨⟨ascii "c", SQL_NTS⟩, by decide, by decide⟩]) :=
  (delivers_iff_deliverable sampleEnv sampleConn .replaceParams sampleFlags sampleLo sampleText
    sampleVarchar ⟨rfl, by decide, by decide, rfl⟩ (by decide) (by decide) _).2.mpr
    ⟨by decide, by decide, by decide, fun h => absurd h.1 (by decide)⟩

/-- The empty value, in a single chunk of length 0, is not delivered to a text parameter. -/
theorem empty_chunk_not_delivered :
    ¬ Delivers sampleEnv sampleConn .replaceParams sampleFlags sampleLo sampleText sampleVarchar
      0 (.data ⟨⟨[], 0⟩, by decide, by decide⟩ []) := by
  intro h
  exact ((delivers_buffered (by decide) (by decide) (by decide) 0 _ _).2 rfl h).2.2.1 rfl

end OdbcDriver
