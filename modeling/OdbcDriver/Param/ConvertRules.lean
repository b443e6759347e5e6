import OdbcDriver.Lib.Except
import OdbcDriver.Param.Convert

/-!
# Rules for parameter conversion

What the conversion of a value can and cannot answer, without going back into its cases:
it never reports a missing buffer, it depends on where the data came from only when the value
becomes a large object, and when it does become one.
-/

namespace OdbcDriver

open Lib

/-! ### Errors that conversion does not report -/

/-- The step does not report a missing buffer. -/
def FindsBuffer {α : Type} (x : Except Fault α) : Prop :=
  x ≠ .error (.error .unexpectedNull)

@[simp]
theorem findsBuffer_ok {α : Type} (a : α) : FindsBuffer (.ok a : Except Fault α) := nofun

@[simp]
theorem findsBuffer_pure {α : Type} (a : α) : FindsBuffer (pure a : Except Fault α) := nofun

@[simp]
theorem findsBuffer_error {α : Type} {e : Fault} :
    FindsBuffer (.error e : Except Fault α) ↔ e ≠ .error .unexpectedNull := by
  simp [FindsBuffer]

@[simp]
theorem findsBuffer_throw {α : Type} {e : Fault} :
    FindsBuffer (throw e : Except Fault α) ↔ e ≠ .error .unexpectedNull :=
  findsBuffer_error

theorem FindsBuffer.bind {α β : Type} {x : Except Fault α} {f : α → Except Fault β}
    (hx : FindsBuffer x) (hf : ∀ a, FindsBuffer (f a)) : FindsBuffer (x >>= f) := by
  cases x with
  | ok a => exact hf a
  | error e => exact fun h => hx (by injection h with h; rw [h])

theorem findsBuffer_read (p : Pointer) : FindsBuffer p.read := by
  cases p <;> simp [Pointer.read]

theorem findsBuffer_readN (p : Pointer) (n : Int) : FindsBuffer (p.readN n) := by
  unfold Pointer.readN
  split
  · simp
  · exact findsBuffer_read p

theorem findsBuffer_localeText (wide : Bool) (p : Pointer) (used : Int) :
    FindsBuffer (localeText wide p used) := by
  unfold localeText
  split
  · exact (findsBuffer_read p).bind fun _ => by simp
  · split
    · simp
    · exact (findsBuffer_readN p used).bind fun _ => by simp

theorem findsBuffer_localeConvert (fm : Formats) (conn : ConnectionClass) (ctype : CType)
    (p : Pointer) (used : Int) : FindsBuffer (localeConvert fm conn ctype p used) := by
  unfold localeConvert
  split
  · simp
  · split
    · split
      · refine (findsBuffer_localeText _ p used).bind fun text => ?_
        split
        · simp
        · split <;> simp
      · simp
    · split
      · refine (findsBuffer_localeText _ p used).bind fun text => ?_
        split <;> simp
      · simp
    · simp

theorem findsBuffer_wideText (fm : Formats) (p : Pointer) (used : Int) :
    FindsBuffer (wideText fm p used) := by
  unfold wideText
  split
  · simp
  · split
    · simp
    · refine (findsBuffer_readN p _).bind fun s => ?_
      dsimp only
      split <;> simp

theorem findsBuffer_neutralForm (fm : Formats) (conn : ConnectionClass) (precision : Int)
    (ctype : CType) (p : Pointer) (used : Int) :
    FindsBuffer (neutralForm fm conn precision ctype p used) := by
  unfold neutralForm
  refine (findsBuffer_localeConvert fm conn ctype p used).bind fun ⟨send_buf, used⟩ => ?_
  dsimp only
  split
  · simp
  · simp
  · split
    · exact (findsBuffer_wideText fm p used).bind fun _ => by simp
    · simp
  all_goals first
    | exact (findsBuffer_read p).bind fun _ => by simp
    | simp

theorem findsBuffer_decimalPoint (c : Byte) (p : Pointer) (len : Int) :
    FindsBuffer (set_server_decimal_point c p len) := by
  unfold set_server_decimal_point
  split
  · simp
  · exact (findsBuffer_read p).bind fun _ => by simp

theorem findsBuffer_timeFields (fm : Formats) (n : Neutral) : FindsBuffer (timeFields fm n) := by
  unfold timeFields
  split
  · simp
  · exact (findsBuffer_read _).bind fun _ => by simp

theorem findsBuffer_binaryForm (conn : ConnectionClass) (lo : LoCalls) (bap dae : Bool)
    (oid : Oid) (ctype : CType) (pgtype : Oid) (p : Pointer) (n : Neutral) :
    FindsBuffer (binaryForm conn lo bap dae oid ctype pgtype p n) := by
  have hbytes : FindsBuffer (binaryBytes ctype n) := by
    unfold binaryBytes
    split
    · simp
    · refine FindsBuffer.bind ?_ fun _ => (findsBuffer_readN _ _).bind fun _ => by simp
      split
      · exact (findsBuffer_read _).bind fun _ => by simp
      · simp
    · refine FindsBuffer.bind ?_ fun _ => (findsBuffer_readN _ _).bind fun _ => by simp
      split
      · exact (findsBuffer_read _).bind fun _ => by simp
      · simp
    · simp
  have hlo : ∀ used, FindsBuffer (createLo lo p used) := by
    intro used
    unfold createLo
    split
    · simp
    · split
      · simp
      · split
        · simp
        · refine (findsBuffer_readN _ _).bind fun _ => ?_
          split
          · simp
          · split <;> simp
  unfold binaryForm
  refine hbytes.bind fun ⟨send_buf, used⟩ => ?_
  dsimp only
  repeat' split
  all_goals first
    | simp
    | exact hlo used

theorem findsBuffer_charForm (fm : Formats) (pgtype : Oid) (n : Neutral) :
    FindsBuffer (charForm fm pgtype n) := by
  unfold charForm
  split
  · simp
  · split
    · exact (findsBuffer_read _).bind fun _ => by split <;> simp
    · split
      · exact (findsBuffer_decimalPoint _ _ _).bind fun _ => by simp
      · simp

theorem findsBuffer_integerForm (cast : String) (n : Neutral) :
    FindsBuffer (integerForm cast n) := by
  unfold integerForm
  refine FindsBuffer.bind ?_ fun s => ?_
  · split
    · simp
    · exact findsBuffer_read _
  · dsimp only
    split <;> simp

theorem findsBuffer_sqlForm (fm : Formats) (conn : ConnectionClass) (lo : LoCalls)
    (bap dae : Bool) (oid : Oid) (ctype : CType) (sqltype : SqlType) (pgtype : Oid) (p : Pointer)
    (n : Neutral) : FindsBuffer (sqlForm fm conn lo bap dae oid ctype sqltype pgtype p n) := by
  unfold sqlForm
  split
  all_goals first
    | exact findsBuffer_charForm _ _ _
    | exact (findsBuffer_timeFields _ _).bind fun _ => by simp
    | exact findsBuffer_binaryForm _ _ _ _ _ _ _ _ _
    | exact (findsBuffer_decimalPoint _ _ _).bind fun _ => by simp
    | exact findsBuffer_integerForm _ _
    | simp

theorem findsBuffer_finish (f : SqlForm) : FindsBuffer (finish f) := by
  unfold finish
  split
  · simp
  · exact (findsBuffer_read _).bind fun _ => by simp

/-- Conversion never reports a missing buffer. -/
theorem findsBuffer_convertParam (fm : Formats) (conn : ConnectionClass) (lo : LoCalls)
    (bap dae : Bool) (oid : Oid) (precision : Int) (ctype : CType) (sqltype : SqlType)
    (pgtype : Oid) (p : Pointer) (used : Int) :
    FindsBuffer (convertParam fm conn lo bap dae oid precision ctype sqltype pgtype p used) := by
  unfold convertParam
  refine (findsBuffer_neutralForm fm conn precision ctype p used).bind fun n => ?_
  dsimp only
  split
  · simp
  · exact (findsBuffer_sqlForm _ _ _ _ _ _ _ _ _ _ _).bind fun f =>
      (findsBuffer_finish f).bind fun v => by simp

/-- Conversion never leaves a value unknown. -/
theorem convertParam_ne_unknown (fm : Formats) (conn : ConnectionClass) (lo : LoCalls)
    (bap dae : Bool) (oid : Oid) (precision : Int) (ctype : CType) (sqltype : SqlType)
    (pgtype : Oid) (p : Pointer) (used : Int) :
    convertParam fm conn lo bap dae oid precision ctype sqltype pgtype p used ≠
      .ok .unknown := by
  intro h
  unfold convertParam at h
  obtain ⟨n, -, h⟩ := bind_eq_ok.mp h
  split at h
  · cases h
  · obtain ⟨f, -, h⟩ := bind_eq_ok.mp h
    obtain ⟨v, -, h⟩ := bind_eq_ok.mp h
    cases h

/-! ### Values that become a large object -/

/-- A value of binary SQL type reaches the point where it is stored: it is binary, or a text
whose conversion from the locale succeeds. A null pointer is a text only if nothing is read
from it. -/
def ReachesStore (fm : Formats) (conn : ConnectionClass) (ctype : CType) (p : Pointer)
    (used : Int) : Prop :=
  ctype = .binary ∨
    ((ctype = .wchar ∨ (ctype = .char ∧ (p = .null → used = 0))) ∧
      (localeConvert fm conn ctype p used).isOk)

/-- The value that stands for a large object. -/
def loValue (oid : Oid) (lobj : Option (Oid × List Byte)) : Value where
  send_buf := ascii (toString oid.toNat)
  used := strlen (ascii (toString oid.toNat))
  isbinary := false
  final_binary_convert := false
  need_quotes := true
  add_parens := false
  lastadd := some "::lo"
  lobj := lobj

@[simp]
theorem finish_loForm (oid : Oid) (lobj : Option (Oid × List Byte)) :
    finish (loForm oid lobj) = .ok (loValue oid lobj) := rfl

/-- Nothing is read from a null pointer, unless there is nothing to read. -/
theorem localeText_null {wide : Bool} {used : Int} {t : Option (List Byte)}
    (h : localeText wide .null used = .ok t) : used ≤ 0 := by
  by_contra hpos
  unfold localeText at h
  rw [if_neg (by unfold SQL_NTS; omega), if_neg (by omega),
    Pointer.readN_null_of_ne (by omega)] at h
  simp at h

/-- A locale conversion leaves the value alone or gives a text with its length, having read
the value. -/
theorem localeConvert_ok {fm : Formats} {conn : ConnectionClass} {ctype : CType} {p : Pointer}
    {used : Int} {r : Pointer × Int} (h : localeConvert fm conn ctype p used = .ok r) :
    r = (.null, used) ∨
      ((∃ out : List Byte, r = (.mem out, (out.length : Int))) ∧ (p = .null → used ≤ 0)) := by
  have hread : ∀ wide text, localeText wide p used = .ok text → p = .null → used ≤ 0 :=
    fun wide text htext hp => localeText_null (by rw [← hp]; exact htext)
  unfold localeConvert at h
  split at h
  · left; injection h with h; exact h.symm
  · split at h
    · split at h
      · obtain ⟨text, htext, h⟩ := bind_eq_ok.mp h
        refine .inr ⟨?_, hread _ _ htext⟩
        split at h
        · injection h with h; exact ⟨_, h.symm⟩
        · split at h
          · injection h with h; exact ⟨[], h.symm⟩
          · cases h
      · left; injection h with h; exact h.symm
    · split at h
      · obtain ⟨text, htext, h⟩ := bind_eq_ok.mp h
        refine .inr ⟨?_, hread _ _ htext⟩
        split at h
        · injection h with h; exact ⟨_, h.symm⟩
        · cases h
      · left; injection h with h; exact h.symm
    · left; injection h with h; exact h.symm

/-- The bytes of a text that is there can be read. -/
theorem binaryBytes_mem {ctype : CType} (hc : ctype = .char ∨ ctype = .wchar) (s : List Byte)
    (used : Int) (ps : List Byte) (st : SimpleTime) :
    ∃ r, binaryBytes ctype ⟨.mem s, used, ps, st⟩ = .ok r := by
  rcases hc with rfl | rfl <;>
  · simp only [binaryBytes, Pointer.read_mem, Pointer.readN_mem, ok_bind, pure_eq_ok]
    split <;> simp only [ok_bind] <;> exact ⟨_, rfl⟩

/-- Of a null pointer, only nothing can be read. -/
theorem binaryBytes_null {ctype : CType} (hc : ctype = .char ∨ ctype = .wchar) {used : Int}
    (hnts : used ≠ SQL_NTS) (ps : List Byte) (st : SimpleTime) :
    (∃ r, binaryBytes ctype ⟨.null, used, ps, st⟩ = .ok r) ↔ used ≤ 0 := by
  have hread : (∃ s, Pointer.null.readN (if used < 0 then 0 else used) = .ok s) ↔ used ≤ 0 := by
    by_cases hpos : 0 < used
    · rw [if_neg (by omega), Pointer.readN_null_of_ne (by omega)]
      simpa using hpos
    · have hzero : (if used < 0 then 0 else used) = 0 := by split <;> omega
      simp only [hzero, Pointer.readN_zero]
      exact ⟨fun _ => by omega, fun _ => ⟨_, rfl⟩⟩
  rcases hc with rfl | rfl <;>
  · simp only [binaryBytes, if_neg hnts, ok_bind, pure_eq_ok, ← hread, bind_eq_ok]
    constructor
    · rintro ⟨r, s, hs, -⟩
      exact ⟨s, hs⟩
    · rintro ⟨s, hs⟩
      exact ⟨_, s, hs, rfl⟩

/-- The wide characters of a buffer that is not invalid: a text, or nothing with a negative
length that is not `SQL_NTS`. -/
theorem wideText_ok (fm : Formats) {p : Pointer} {used : Int} (hp : p ≠ .invalid)
    (hused : 0 ≤ used) : wideText fm p used = .ok (.null, -1) ∨
      ∃ out : List Byte, wideText fm p used = .ok (.mem out, (out.length : Int)) := by
  have hnts : used ≠ SQL_NTS := by unfold SQL_NTS; omega
  unfold wideText
  cases p with
  | invalid => exact absurd rfl hp
  | null => exact .inl rfl
  | mem s =>
    rw [if_neg nofun, if_neg (by omega)]
    simp only [Pointer.readN_mem, ok_bind, pure_eq_ok]
    split
    · exact .inr ⟨_, rfl⟩
    · exact .inl rfl

theorem finish_ok {f : SqlForm} {v : Value} (h : finish f = .ok v) :
    v.isbinary = f.isbinary ∧ v.lastadd = f.lastadd := by
  unfold finish at h
  split at h
  · cases h
  · obtain ⟨s, -, h⟩ := bind_eq_ok.mp h
    simp at h
    simp [← h]

/-- A new large object is sent as its number, with its content. -/
theorem createLo_ok {lo : LoCalls} {p : Pointer} {used : Int} {f : SqlForm}
    (h : createLo lo p used = .ok f) : ∃ content, f = loForm lo.creat (some content) := by
  unfold createLo at h
  split at h
  · cases h
  · split at h
    · cases h
    · split at h
      · cases h
      · obtain ⟨s, -, h⟩ := bind_eq_ok.mp h
        split at h
        · cases h
        · split at h
          · cases h
          · exact ⟨_, (Except.ok.inj h).symm⟩

/-- A value stored in a new large object is not one that has its object already. -/
theorem createLo_ne (lo : LoCalls) (p : Pointer) (used : Int) (oid : Oid) :
    (createLo lo p used >>= finish >>= fun v => .ok (Converted.value v)) ≠
      .ok (.value (loValue oid none)) := by
  intro h
  obtain ⟨v, h, hv⟩ := bind_eq_ok.mp h
  obtain ⟨f, hf, h⟩ := bind_eq_ok.mp h
  obtain rfl : v = loValue oid none := by simpa using hv
  obtain ⟨content, rfl⟩ := createLo_ok hf
  simp [loValue] at h

section LoType

variable {fm : Formats} {conn : ConnectionClass} {ctype : CType} {p : Pointer} {used : Int}

/-- Reaching the store, step by step. -/
theorem reachesStore_iff (precision : Int) (hp : p ≠ .invalid) (hused : 0 ≤ used) :
    ReachesStore fm conn ctype p used ↔
      ∃ n, neutralForm fm conn precision ctype p used = .ok n ∧
        ∃ r, binaryBytes ctype n = .ok r := by
  have hnts : used ≠ SQL_NTS := by unfold SQL_NTS; omega
  unfold ReachesStore neutralForm
  simp only [isOk_iff]
  cases ctype
  case binary =>
    have hloc : localeConvert fm conn .binary p used = .ok (.null, used) := by
      simp [localeConvert]
    simp only [true_or, hloc, true_iff]
    exact ⟨_, rfl, _, rfl⟩
  case char =>
    cases hloc : localeConvert fm conn .char p used with
    | error e => simp
    | ok r =>
      rcases localeConvert_ok hloc with rfl | ⟨⟨out, rfl⟩, hnull⟩
      · cases p with
        | invalid => exact absurd rfl hp
        | null =>
          have hbytes := binaryBytes_null (.inl rfl) hnts [] SimpleTime.zero
          simp [-Prod.exists, hbytes]
          omega
        | mem s =>
          have hbytes := binaryBytes_mem (.inl rfl) s used [] SimpleTime.zero
          simpa [-Prod.exists] using hbytes
      · have hbytes := binaryBytes_mem (.inl rfl) out out.length [] SimpleTime.zero
        simp [-Prod.exists, hbytes]
        exact fun h => le_antisymm (hnull h) hused
  case wchar =>
    cases hloc : localeConvert fm conn .wchar p used with
    | error e => simp
    | ok r =>
      rcases localeConvert_ok hloc with rfl | ⟨⟨out, rfl⟩, hnull⟩
      · rcases wideText_ok fm hp hused with hwide | ⟨out, hwide⟩
        · have hbytes := @binaryBytes_null .wchar (.inr rfl) (-1) (by decide) [] SimpleTime.zero
          simp [-Prod.exists, hwide, hbytes]
        · have hbytes := binaryBytes_mem (.inr rfl) out out.length [] SimpleTime.zero
          simp [-Prod.exists, hwide, hbytes]
      · have hbytes := binaryBytes_mem (.inr rfl) out out.length [] SimpleTime.zero
        simp [-Prod.exists, hbytes]
  all_goals simp [binaryBytes]

/-- Only a character or binary C type has bytes. -/
theorem binaryBytes_of_not_text (hb : ctype ≠ .binary) (hc : ctype ≠ .char) (hw : ctype ≠ .wchar)
    (n : Neutral) : binaryBytes ctype n = .error (.error .notBinary) := by
  cases ctype <;> first | rfl | contradiction

/-- The neutral form of a character or binary C type has no `param_string`. -/
theorem param_string_of_text {precision : Int} {n : Neutral}
    (hc : ctype = .binary ∨ ctype = .char ∨ ctype = .wchar)
    (hn : neutralForm fm conn precision ctype p used = .ok n) : n.param_string = [] := by
  unfold neutralForm at hn
  obtain ⟨⟨send_buf, used'⟩, -, hn⟩ := bind_eq_ok.mp hn
  rcases hc with rfl | rfl | rfl
  · simp at hn; simp [← hn]
  · simp at hn; simp [← hn]
  · dsimp only at hn
    split at hn
    · obtain ⟨⟨_, _⟩, -, hn⟩ := bind_eq_ok.mp hn
      simp at hn; simp [← hn]
    · simp at hn; simp [← hn]

/-- A type that stands for a large object is not the type of binary data or of a date. -/
theorem isLoType_not_builtin {pgtype : Oid} (hlo : isLoType conn pgtype = true) :
    filed_is_bytea pgtype = false ∧ pgtype ≠ PG_TYPE_DATE ∧ pgtype ≠ PG_TYPE_DATETIME ∧
      pgtype ≠ PG_TYPE_TIMESTAMP_NO_TMZONE := by
  have hsmall : ∀ t : Oid, t.toNat = pgtype.toNat → t = pgtype := fun t h => BitVec.eq_of_toNat_eq h
  have hcases : pgtype = PG_TYPE_OID ∨ pgtype = 0 ∨ 16384 ≤ pgtype.toNat := by
    simp only [isLoType, Bool.or_eq_true, Bool.and_eq_true, decide_eq_true_eq] at hlo
    rcases hlo with ⟨h, -⟩ | h
    · exact .inl h
    · rw [h]; exact .inr conn.lobj_type_not_builtin
  rcases hcases with rfl | rfl | hlarge
  · decide
  · decide
  · have hne : ∀ t : Oid, t.toNat < 16384 → pgtype ≠ t := by
      rintro t ht rfl
      omega
    refine ⟨?_, hne _ (by decide), hne _ (by decide), hne _ (by decide)⟩
    simp [filed_is_bytea, hne PG_TYPE_BYTEA (by decide), hne PG_TYPE_MYSQL_BINARY (by decide),
      hne PG_TYPE_RAW (by decide), hne PG_TYPE_LONG_RAW (by decide), hne PG_TYPE_BLOB (by decide)]

theorem isNullDate_of_isLoType {pgtype : Oid} (hlo : isLoType conn pgtype = true) :
    isNullDate conn pgtype ctype p = false := by
  obtain ⟨-, h1, h2, h3⟩ := isLoType_not_builtin hlo
  simp [isNullDate, h1, h2, h3]

variable {lo : LoCalls} {bap : Bool} {precision : Int} {sqltype : SqlType} {pgtype : Oid}

/-- A binary SQL type is converted by `binaryForm`. -/
theorem sqlForm_of_isBinary (hsq : sqltype.isBinary = true) (dae : Bool) (oid : Oid)
    (n : Neutral) : sqlForm fm conn lo bap dae oid ctype sqltype pgtype p n =
      binaryForm conn lo bap dae oid ctype pgtype p n := by
  cases sqltype <;> first | rfl | cases hsq

/-- **Large objects, stored.** A value that reaches the store is sent as the number of the
object it has already, or of a new one. -/
theorem convertParam_lo (hlo : isLoType conn pgtype = true) (hsq : sqltype.isBinary = true)
    (hp : p ≠ .invalid) (hused : 0 ≤ used) (h : ReachesStore fm conn ctype p used) :
    ∃ used' : Int, ∀ dae oid,
      convertParam fm conn lo bap dae oid precision ctype sqltype pgtype p used =
        if dae then .ok (.value (loValue oid none))
        else createLo lo p used' >>= finish >>= fun v => .ok (.value v) := by
  obtain ⟨n, hn, ⟨send_buf, used'⟩, hr⟩ := (reachesStore_iff precision hp hused).mp h
  have htext : ctype = .binary ∨ ctype = .char ∨ ctype = .wchar := by
    unfold ReachesStore at h; tauto
  refine ⟨used', fun dae oid => ?_⟩
  have hform : binaryForm conn lo bap dae oid ctype pgtype p n =
      if dae then .ok (loForm oid none) else createLo lo p used' := by
    simp only [binaryForm, hr, ok_bind, (isLoType_not_builtin hlo).1, hlo]
    simp
  simp only [convertParam, hn, ok_bind, isNullDate_of_isLoType hlo, Bool.false_eq_true, if_false,
    param_string_of_text htext hn, ne_eq, not_true, and_false, sqlForm_of_isBinary hsq, hform]
  cases dae
  · simp [bind_assoc]
  · simp

/-- **Large objects, not stored.** A value that does not reach the store fails alike,
wherever its data came from. -/
theorem convertParam_lo_error (hlo : isLoType conn pgtype = true)
    (hsq : sqltype.isBinary = true) (hp : p ≠ .invalid) (hused : 0 ≤ used)
    (h : ¬ ReachesStore fm conn ctype p used) :
    ∃ e, ∀ dae oid,
      convertParam fm conn lo bap dae oid precision ctype sqltype pgtype p used = .error e := by
  cases hn : neutralForm fm conn precision ctype p used with
  | error e => exact ⟨e, fun dae oid => by simp [convertParam, hn]⟩
  | ok n =>
    -- the bytes are missing in `n`, and folding `param_string` into it gives none
    obtain ⟨e, he⟩ : ∃ e, binaryBytes ctype
        (if n.send_buf = .null ∧ n.param_string ≠ [] then
          { n with send_buf := .mem n.param_string, used := SQL_NTS } else n) = .error e := by
      by_cases htext : ctype = .binary ∨ ctype = .char ∨ ctype = .wchar
      · rw [if_neg (by simp [param_string_of_text htext hn])]
        cases hr : binaryBytes ctype n with
        | ok r => exact absurd ((reachesStore_iff precision hp hused).mpr ⟨n, hn, r, hr⟩) h
        | error e => exact ⟨e, rfl⟩
      · push Not at htext
        exact ⟨_, binaryBytes_of_not_text htext.1 htext.2.1 htext.2.2 _⟩
    refine ⟨e, fun dae oid => ?_⟩
    simp only [convertParam, hn, ok_bind, isNullDate_of_isLoType hlo, Bool.false_eq_true,
      if_false, sqlForm_of_isBinary hsq, binaryForm, he, error_bind]

/-- A value that does not become a large object is converted alike, wherever its data came
from. -/
theorem convertParam_of_not_lo (h : ¬ (sqltype.isBinary = true ∧ isLoType conn pgtype = true))
    (dae dae' : Bool) (oid oid' : Oid) :
    convertParam fm conn lo bap dae oid precision ctype sqltype pgtype p used =
      convertParam fm conn lo bap dae' oid' precision ctype sqltype pgtype p used := by
  have hform : ∀ n, sqlForm fm conn lo bap dae oid ctype sqltype pgtype p n =
      sqlForm fm conn lo bap dae' oid' ctype sqltype pgtype p n := by
    intro n
    by_cases hsq : sqltype.isBinary = true
    · have hlo : isLoType conn pgtype = false := by simpa [hsq] using h
      simp only [sqlForm_of_isBinary hsq, binaryForm, hlo, Bool.not_false, if_true]
    · cases sqltype <;> first | rfl | exact absurd rfl hsq
  simp only [convertParam, hform]

/-- A value of any other SQL type is sent as text, and its cast is not that of a large
object. -/
theorem sqlForm_of_not_binary (hsq : sqltype.isBinary = false) {dae : Bool} {oid : Oid}
    {n : Neutral} {f : SqlForm}
    (hf : sqlForm fm conn lo bap dae oid ctype sqltype pgtype p n = .ok f) :
    f.isbinary = false ∧ f.lastadd ≠ some "::lo" := by
  have hchar : ∀ f, charForm fm pgtype n = .ok f → f.isbinary = false ∧ f.lastadd = none := by
    intro f hf
    unfold charForm at hf
    split at hf
    · simp at hf; simp [← hf]
    · split at hf
      · obtain ⟨s, -, hf⟩ := bind_eq_ok.mp hf
        split at hf <;> (simp at hf; simp [← hf])
      · split at hf
        · obtain ⟨q, -, hf⟩ := bind_eq_ok.mp hf
          simp at hf; simp [← hf]
        · simp at hf; simp [← hf]
  have hint : ∀ cast f, cast ≠ "::lo" → integerForm cast n = .ok f →
      f.isbinary = false ∧ f.lastadd ≠ some "::lo" := by
    intro cast f hcast hf
    unfold integerForm at hf
    obtain ⟨s, -, hf⟩ := bind_eq_ok.mp hf
    dsimp only at hf
    split at hf <;> (simp at hf; simp [← hf, hcast])
  cases sqltype
  case binary | varbinary | longvarbinary => cases hsq
  case integer | smallint => exact hint _ _ (by decide) hf
  case char | varchar | longvarchar | wchar | wvarchar | wlongvarchar | bit =>
    obtain ⟨hbin, hadd⟩ := hchar _ hf
    rw [hbin, hadd]
    decide
  case date | typeDate | time | typeTime | timestamp | typeTimestamp | real | float | double =>
    obtain ⟨st, -, hf⟩ := bind_eq_ok.mp hf
    simp only [pure_eq_ok, Except.ok.injEq] at hf
    simp [← hf]
  all_goals
    simp only [sqlForm, Except.ok.injEq] at hf
    simp [← hf]

/-- A value sent with the cast of a large object is of a binary SQL type. -/
theorem isBinary_of_lastadd {dae : Bool} {oid : Oid} {v : Value}
    (hv : convertParam fm conn lo bap dae oid precision ctype sqltype pgtype p used =
      .ok (.value v)) (hadd : v.lastadd = some "::lo") : sqltype.isBinary = true := by
  by_contra hsq
  unfold convertParam at hv
  obtain ⟨n, -, hv⟩ := bind_eq_ok.mp hv
  split at hv
  · cases hv
  · obtain ⟨f, hf, hv⟩ := bind_eq_ok.mp hv
    obtain ⟨v', hfin, hv⟩ := bind_eq_ok.mp hv
    obtain rfl : v' = v := by simpa using hv
    exact (sqlForm_of_not_binary (by simpa using hsq) hf).2 (by rw [← hadd, (finish_ok hfin).2])

/-- A value of binary SQL type goes to a binary column as it is, when binary values may be
sent. -/
theorem sqlForm_isbinary {dae : Bool} {oid : Oid} {n : Neutral} {f : SqlForm}
    (hf : sqlForm fm conn lo true dae oid ctype sqltype pgtype p n = .ok f) :
    f.isbinary = (sqltype.isBinary && filed_is_bytea pgtype) := by
  by_cases hsq : sqltype.isBinary = true
  · rw [sqlForm_of_isBinary hsq] at hf
    unfold binaryForm at hf
    obtain ⟨⟨send_buf, used⟩, -, hf⟩ := bind_eq_ok.mp hf
    dsimp only at hf
    by_cases hbytea : filed_is_bytea pgtype = true
    · simp only [hbytea, if_true, pure_eq_ok, Except.ok.injEq] at hf
      simp [← hf, hsq, hbytea]
    · simp only [hbytea, if_false, Bool.false_eq_true] at hf
      have hlo : f.isbinary = false := by
        split at hf
        · cases hf
        · split at hf
          · obtain rfl : loForm oid none = f := by simpa using hf
            rfl
          · obtain ⟨content, rfl⟩ := createLo_ok hf
            rfl
      simp [hlo, hbytea]
  · rw [(sqlForm_of_not_binary (by simpa using hsq) hf).1]
    simp [hsq]

/-- A value of a fixed binary column is sent in binary format. -/
theorem convertParam_isbinary {dae : Bool} {oid : Oid} {v : Value}
    (hv : convertParam fm conn lo true dae oid precision ctype sqltype pgtype p used =
      .ok (.value v)) : v.isbinary = (sqltype.isBinary && filed_is_bytea pgtype) := by
  unfold convertParam at hv
  obtain ⟨n, -, hv⟩ := bind_eq_ok.mp hv
  split at hv
  · cases hv
  · obtain ⟨f, hf, hv⟩ := bind_eq_ok.mp hv
    obtain ⟨v', hfin, hv⟩ := bind_eq_ok.mp hv
    obtain rfl : v' = v := by simpa using hv
    rw [← sqlForm_isbinary hf]
    exact (finish_ok hfin).1

/-- Only a date may be null without being marked as null. -/
theorem convertParam_null {dae : Bool} {oid : Oid}
    (hv : convertParam fm conn lo bap dae oid precision ctype sqltype pgtype p used =
      .ok .null) : filed_is_bytea pgtype = false := by
  unfold convertParam at hv
  obtain ⟨n, -, hv⟩ := bind_eq_ok.mp hv
  split at hv
  · rename_i hdate
    simp only [isNullDate, Bool.and_eq_true, Bool.or_eq_true, decide_eq_true_eq] at hdate
    rcases hdate.1.2 with (rfl | rfl) | rfl <;> decide
  · obtain ⟨f, -, hv⟩ := bind_eq_ok.mp hv
    obtain ⟨v, -, hv⟩ := bind_eq_ok.mp hv
    cases hv

end LoType

end OdbcDriver
