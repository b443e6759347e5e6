import Mathlib.Algebra.Order.BigOperators.Group.List
import OdbcDriver.Lib.Regrow
import OdbcDriver.Unicode.RoundTrip

/-!
# Names for the application

`SQLDescribeColW`, `SQLGetCursorNameW` and `SQLNativeSqlW` ask the functions behind them for a text
in UTF-8, with a buffer of three bytes for each code unit of the application's, and ask again when
this is too small. The text is then converted to UTF-16 in the buffer of the application.

* `full_answer`: what the application gets of a text that has arrived in full;
* `convert_part`: what is counted of a text that has not;
* `answers_full_iff`: when a text that has arrived in full is answered right.
-/

namespace OdbcDriver.WideNames

open CInt (wrap uwrap Fits)
open Lib (utf8Encode utf16Encode ok_bind error_bind)
open Regrow (Grown regrow)
open Unicode (ucs2_to_utf8)

inductive Retcode
  | SQL_SUCCESS
  | SQL_SUCCESS_WITH_INFO
  | SQL_ERROR
deriving DecidableEq, Repr

inductive Fault
  /-- A fault of the conversion. -/
  | conversion (fault : Unicode.Fault)
  /-- An `int` passes `INT_MAX`. -/
  | overflow
deriving DecidableEq, Repr

/-! ### The narrow functions -/

/-- What is answered: the text left in the buffer, and the length reported. -/
structure Narrow where
  ret : Retcode
  text : List Byte
  len : ℤ
deriving DecidableEq, Repr

/-- The string that `strncpy_null` leaves in a buffer of `len` bytes. -/
def strncpy_null (src : List Byte) (len : ℤ) : List Byte := src.take (len - 1).toNat

/-- `PGAPI_DescribeCol`, as for the name of the column. -/
def PGAPI_DescribeCol (col_name : Option (List Byte)) (cbColNameMax : ℤ) : Narrow :=
  let len : ℤ :=
    match col_name with
    | some name => wrap 32 name.length
    | none => 0
  if 0 < cbColNameMax then
    { ret := if cbColNameMax ≤ len then .SQL_SUCCESS_WITH_INFO else .SQL_SUCCESS
      text := strncpy_null (col_name.getD []) cbColNameMax
      len := wrap 16 len }
  else ⟨.SQL_SUCCESS, [], wrap 16 len⟩

/-- `PGAPI_GetCursorName` -/
def PGAPI_GetCursorName (cursor_name : List Byte) (cbCursorMax : ℤ) : Narrow where
  ret := if uwrap 64 cbCursorMax ≤ cursor_name.length then .SQL_SUCCESS_WITH_INFO else .SQL_SUCCESS
  text := strncpy_null cursor_name cbCursorMax
  len := wrap 16 cursor_name.length

/-- `make_string`, without a buffer. The source has no NUL. -/
def make_string (memory : ℕ → Bool) (s : Option (List Byte)) (len : ℤ) : Option (List Byte) :=
  match s with
  | none => none
  | some s =>
    if len = -1 then none
    else
      let length := if 0 ≤ len then some len.toNat else if len = -3 then some s.length else none
      length.bind fun length => if memory (length + 1) then some (s.take length) else none

/-- `PGAPI_NativeSql` -/
def PGAPI_NativeSql (memory : ℕ → Bool) (szSqlStrIn : Option (List Byte)) (cbSqlStrIn : ℤ)
    (cbSqlStrMax : ℤ) : Narrow :=
  match if cbSqlStrIn = 0 then some [] else make_string memory szSqlStrIn cbSqlStrIn with
  | none => ⟨.SQL_ERROR, [], 0⟩
  | some ptr =>
    { ret := if uwrap 64 cbSqlStrMax ≤ ptr.length then .SQL_SUCCESS_WITH_INFO else .SQL_SUCCESS
      text := strncpy_null ptr cbSqlStrMax
      len := wrap 32 ptr.length }

/-! ### The wide functions -/

/-- What the application gets: what is written to its buffer, and the length. -/
structure Outcome where
  ret : Retcode
  written : List UInt16
  length : Option ℤ
deriving DecidableEq, Repr

/-- Whether `malloc` or `realloc` gives so many bytes. -/
def allocated (memory : ℕ → Bool) (size : ℤ) : Bool := 0 < size && memory size.toNat

/-- The loop ends: the answer was cut, and a larger buffer would help, or it was not. -/
def enough (buflen : ℤ) (n : Narrow) : Bool := n.ret ≠ .SQL_SUCCESS_WITH_INFO || n.len < buflen

/-- `buflen = len + 1`, as `SQLSMALLINT`. -/
def next16 (n : Narrow) : Except Fault ℤ := .ok (wrap 16 (n.len + 1))

/-- `buflen = len + 1`, as `SQLINTEGER`. -/
def next32 (n : Narrow) : Except Fault ℤ :=
  if Fits 32 (n.len + 1) then .ok (n.len + 1) else .error .overflow

/-- `utf8_to_ucs2`, of the `len` bytes at the front of a string, or of all of it if `len` is
negative. -/
def utf8_to_ucs2 (text : List Byte) (len : ℤ) (bufcount : ℤ) :
    Except Fault (ℤ × List UInt16) := do
  let ilen := if 0 ≤ len then len.toNat else text.length
  let r ← (Unicode.utf8_to_ucs2_lf (some (text.take ilen)) false (uwrap 64 bufcount).toNat
    false).mapError .conversion
  return (r.rtn.toInt, r.ucs2str)

/-- The code units of the answer, and their number. -/
def convert (n : Narrow) (buflen bufferLength : ℤ) : Except Fault (ℤ × List UInt16) :=
  if n.len < buflen then utf8_to_ucs2 n.text n.len bufferLength else .ok (n.len, [])

/-- What is done with the answer. It is tested whether the buffer has been too small, unless
`tested` says not to, and the length is stored with `width` bits. -/
def answer (tested : Bool) (width : ℕ) (bufferLength : ℤ) :
    Grown ℤ Fault Narrow → Option (Except Fault Outcome)
  | .unfinished => none
  | .fault e => some (.error e)
  | .refused => some (.ok ⟨.SQL_ERROR, [], none⟩)
  | .done buflen n =>
    if n.ret = .SQL_ERROR then some (.ok ⟨.SQL_ERROR, [], none⟩)
    else some do
      let (count, written) ← convert n buflen bufferLength
      let ret :=
        if n.ret = .SQL_SUCCESS ∧ tested ∧ bufferLength < count then .SQL_SUCCESS_WITH_INFO
        else n.ret
      return ⟨ret, written, some (wrap width count)⟩

/-- `SQLDescribeColW`, asked for the length as well, within so many rounds. -/
def SQLDescribeColW (memory : ℕ → Bool) (rounds : ℕ) (col_name : Option (List Byte))
    (bufferLength : ℤ) : Option (Except Fault Outcome) :=
  let buflen := if 0 < bufferLength then wrap 16 (bufferLength * 3) else 32
  answer (0 < bufferLength) 16 bufferLength
    (regrow (allocated memory) (PGAPI_DescribeCol col_name) enough next16 rounds buflen)

/-- `SQLGetCursorNameW`, within so many rounds. -/
def SQLGetCursorNameW (memory : ℕ → Bool) (rounds : ℕ) (cursor_name : List Byte)
    (bufferLength : ℤ) : Option (Except Fault Outcome) :=
  let buflen := if 0 < bufferLength then wrap 16 (bufferLength * 3) else 32
  answer true 16 bufferLength
    (regrow (allocated memory) (PGAPI_GetCursorName cursor_name) enough next16 rounds buflen)

/-- `SQLNativeSqlW`, of a text whose length is given, within so many rounds. -/
def SQLNativeSqlW (memory : ℕ → Bool) (rounds : ℕ) (szSqlStrIn : List UInt16)
    (cbSqlStrMax : ℤ) : Option (Except Fault Outcome) :=
  match ucs2_to_utf8 (some szSqlStrIn) false with
  | .error e => some (.error (.conversion e))
  | .ok (szIn, slen) =>
    if Fits 32 (3 * cbSqlStrMax) then
      answer true 32 cbSqlStrMax
        (regrow (allocated memory) (PGAPI_NativeSql memory szIn (wrap 32 slen)) enough next32
          rounds (3 * cbSqlStrMax))
    else some (.error .overflow)

/-! ### Parts of a text -/

variable {cs : List Char} {p : List Byte}

/-- A part of the bytes of a character cannot be read. -/
theorem utf8Loop_char_part {c : Char} (hp : p <+: String.utf8EncodeChar c) (hne : p ≠ [])
    (hlt : p.length < (String.utf8EncodeChar c).length) (i : ℕ) (out : List UInt16) :
    ∃ e, Unicode.utf8Loop false false i none out p = .error e := by
  have hfail : ∀ x : Except Unicode.Fault ℕ,
      ∃ e, (x >>= fun _ => Except.error (ε := Unicode.Fault) (α := Option (List UInt16))
        .outOfBounds) = .error e := by
    intro x
    cases x with
    | error e => exact ⟨e, rfl⟩
    | ok i => exact ⟨_, rfl⟩
  have hpos := List.length_pos_of_ne_nil hne
  have htake := List.prefix_iff_eq_take.mp hp
  generalize p.length = k at htake hlt hpos
  subst htake
  cases Unicode.charForm c with
  | one h henc =>
    rw [henc] at hlt
    exact absurd hpos (by simp at hlt; omega)
  | two hlo h henc =>
    have ha := Unicode.head2_toNat (c.val >>> 6).toUInt8
    rw [henc] at hlt ⊢
    match k, hpos, hlt with
    | 1, _, _ =>
      rw [List.take_succ_cons, Unicode.utf8Loop_lead2 (by omega) (by omega)]
      exact hfail _
  | three hlo h henc =>
    have ha := Unicode.head3_toNat (c.val >>> 12).toUInt8
    rw [henc] at hlt ⊢
    match k, hpos, hlt with
    | 1, _, _ =>
      rw [List.take_succ_cons, Unicode.utf8Loop_lead3 (by omega) (by omega)]
      exact hfail _
    | 2, _, _ =>
      rw [List.take_succ_cons, Unicode.utf8Loop_lead3 (by omega) (by omega)]
      exact hfail _
  | four hlo henc =>
    have ha := Unicode.head4_toNat (c.val >>> 18).toUInt8
    rw [henc] at hlt ⊢
    match k, hpos, hlt with
    | 1, _, _ =>
      rw [List.take_succ_cons, Unicode.utf8Loop_lead4 (by omega) (by omega)]
      exact hfail _
    | 2, _, _ =>
      rw [List.take_succ_cons, Unicode.utf8Loop_lead4 (by omega) (by omega)]
      exact hfail _
    | 3, _, _ =>
      rw [List.take_succ_cons, Unicode.utf8Loop_lead4 (by omega) (by omega)]
      exact hfail _

/-- What is read of a part of a text: some, but not all of its characters. -/
theorem utf8Loop_part (hc : ∀ c ∈ cs, c.toNat ≠ 0) (hp : p <+: utf8Encode cs)
    (hlt : p.length < (utf8Encode cs).length) {i : ℕ} (hi : i + (utf8Encode cs).length < 2 ^ 31)
    (out : List UInt16) :
    (∃ e, Unicode.utf8Loop false false i none out p = .error e) ∨
      ∃ us, Unicode.utf8Loop false false i none out p = .ok (some (out ++ us)) ∧
        us.length < (utf16Encode cs).length := by
  induction cs generalizing p i out with
  | nil => exact absurd hlt (Nat.not_lt_zero _)
  | cons c cs ih =>
    obtain ⟨hc, hcs⟩ := List.forall_mem_cons.mp hc
    have hpos : 0 < (Lib.utf16EncodeChar c).length := by
      rw [Lib.utf16EncodeChar]
      split <;> exact Nat.succ_pos _
    rw [Lib.utf8Encode_cons] at hp hlt hi
    rw [Lib.utf16Encode_cons, List.length_append]
    rw [List.length_append] at hlt hi
    rcases List.eq_nil_or_concat p with rfl | hne
    · exact .inr ⟨[], by simp [Unicode.utf8Loop], by simp; omega⟩
    by_cases hlen : (String.utf8EncodeChar c).length ≤ p.length
    · obtain ⟨q, rfl⟩ := List.prefix_of_prefix_length_le (List.prefix_append _ _) hp hlen
      have hq : q <+: utf8Encode cs := (List.prefix_append_right_inj _).mp hp
      rw [List.length_append] at hlt
      rw [Unicode.utf8Loop_char hc, Unicode.intAdd, if_pos (by omega), ok_bind]
      have hrest : i + (String.utf8EncodeChar c).length + (utf8Encode cs).length < 2 ^ 31 := by
        omega
      rcases ih hcs hq (by omega) hrest (out ++ Lib.utf16EncodeChar c) with h | ⟨us, h, hless⟩
      · exact .inl h
      · refine .inr ⟨Lib.utf16EncodeChar c ++ us, by rw [h, List.append_assoc], ?_⟩
        rw [List.length_append]
        omega
    · have hpart : p <+: String.utf8EncodeChar c :=
        List.prefix_of_prefix_length_le hp (List.prefix_append _ _) (by omega)
      exact .inl (utf8Loop_char_part hpart (by obtain ⟨_, _, rfl⟩ := hne; simp) (by omega) i out)

/-! ### Calls -/

/-- A call with a text and a buffer of the application, whose length has `w` bits. -/
structure Call (w : ℕ) where
  memory : ℕ → Bool
  text : List Char
  bufferLength : ℤ
  ne_zero : ∀ c ∈ text, c.toNat ≠ 0
  fits : Fits w bufferLength

namespace Call

variable {w : ℕ} (c : Call w)

def utf8 : List Byte := utf8Encode c.text

def units : List UInt16 := utf16Encode c.text

/-- A narrow function's answer for the text, with the length it reports. -/
def asked (len buflen : ℤ) : Narrow where
  ret := if buflen ≤ c.utf8.length then .SQL_SUCCESS_WITH_INFO else .SQL_SUCCESS
  text := strncpy_null c.utf8 buflen
  len := len

/-- What is written of the code units to the application's buffer. -/
def written : List UInt16 :=
  c.units.take (uwrap 64 c.bufferLength).toNat ++
    if c.units.length < (uwrap 64 c.bufferLength).toNat then [0] else []

/-- What the application gets of the text when it has arrived in full. -/
def full (tested : Bool) (width : ℕ) : Outcome where
  ret :=
    if tested = true ∧ c.bufferLength < c.units.length then .SQL_SUCCESS_WITH_INFO
    else .SQL_SUCCESS
  written := c.written
  length := some (wrap width c.units.length)

theorem length_units_le : c.units.length ≤ c.utf8.length :=
  Unicode.length_utf16Encode_le c.text

theorem length_utf8_le : c.utf8.length ≤ c.units.length * 3 := by
  have hle : ∀ n ∈ c.units.map Unicode.unitLength, n ≤ 3 := by
    intro n hn
    obtain ⟨u, -, rfl⟩ := List.mem_map.mp hn
    rw [Unicode.unitLength]
    split_ifs <;> decide
  have hsum := List.sum_le_card_nsmul _ 3 hle
  rw [units, Unicode.sum_unitLength, List.length_map] at hsum
  exact hsum

variable {c}

/-- A text that has arrived in full. -/
theorem full_answer {buflen : ℤ} (hlen : c.utf8.length < buflen) (hint : c.utf8.length < 2 ^ 31)
    (tested : Bool) (width : ℕ) :
    answer tested width c.bufferLength (.done buflen (c.asked c.utf8.length buflen)) =
      some (.ok (c.full tested width)) := by
  have hret : (c.asked c.utf8.length buflen).ret = .SQL_SUCCESS := if_neg (by omega)
  have htext : (c.asked c.utf8.length buflen).text = c.utf8 :=
    List.take_of_length_le (by omega)
  have hunits : (BitVec.ofNat 64 c.units.length).toInt = c.units.length := by
    have hle := length_units_le c
    have hmod : (BitVec.ofNat 64 c.units.length).toNat = c.units.length := by
      rw [BitVec.toNat_ofNat]
      exact Nat.mod_eq_of_lt (by omega)
    rw [BitVec.toInt_eq_toNat_of_lt (by omega), hmod]
  have hconvert : convert (c.asked c.utf8.length buflen) buflen c.bufferLength =
      .ok ((c.units.length : ℤ), c.written) := by
    have hchars := Unicode.utf8_to_ucs2_chars c.ne_zero hint (uwrap 64 c.bufferLength).toNat false
    have hcond : (c.asked c.utf8.length buflen).len < buflen := hlen
    have htake : c.utf8.take (if (0 : ℤ) ≤ (c.asked c.utf8.length buflen).len then
        (c.asked c.utf8.length buflen).len.toNat else c.utf8.length) = utf8Encode c.text := by
      have hnonneg : (0 : ℤ) ≤ (c.asked c.utf8.length buflen).len := Int.natCast_nonneg _
      have hall : (c.asked c.utf8.length buflen).len.toNat = c.utf8.length := Int.toNat_natCast _
      rw [if_pos hnonneg, hall, List.take_length]
      rfl
    rw [convert, if_pos hcond, htext, utf8_to_ucs2, htake, hchars]
    exact congrArg (fun n => Except.ok (n, c.written)) hunits
  rw [answer, hret, if_neg (by decide), hconvert]
  simp [full]

/-- Of a text that has not, fewer code units are counted. -/
theorem convert_part {len buflen : ℤ} (hpos : 0 < buflen) (hlen : buflen ≤ c.utf8.length)
    (hless : len < buflen) (hint : c.utf8.length < 2 ^ 31) {count : ℤ} {out : List UInt16}
    (h : convert (c.asked len buflen) buflen c.bufferLength = .ok (count, out)) :
    0 ≤ count ∧ count < c.units.length := by
  have hcond : (c.asked len buflen).len < buflen := hless
  rw [convert, if_pos hcond, utf8_to_ucs2] at h
  generalize hp : (c.asked len buflen).text.take (if 0 ≤ (c.asked len buflen).len then
    (c.asked len buflen).len.toNat else (c.asked len buflen).text.length) = p at h
  have hprefix : p <+: utf8Encode c.text :=
    hp ▸ (List.take_prefix _ _).trans (List.take_prefix _ _)
  have hlt : p.length < (utf8Encode c.text).length := by
    have hle : p.length ≤ (c.asked len buflen).text.length := hp ▸ List.length_take_le' _ _
    have htext : (c.asked len buflen).text.length ≤ (buflen - 1).toNat := List.length_take_le _ _
    rw [utf8] at hlen
    omega
  obtain ⟨r, hr, hcount⟩ := Lib.bind_eq_ok.mp h
  rw [Lib.mapError_eq_ok, Unicode.utf8_to_ucs2_lf] at hr
  rcases utf8Loop_part c.ne_zero hprefix hlt (i := 0) (by rw [utf8] at hint; omega) [] with
    ⟨e, hloop⟩ | ⟨us, hloop, hus⟩
  · rw [hloop, error_bind] at hr
    cases hr
  · rw [hloop, ok_bind, List.nil_append] at hr
    have hrtn : r.rtn = BitVec.ofNat 64 us.length := by
      rw [← Except.ok.inj hr]
    have hmod : (BitVec.ofNat 64 us.length).toNat = us.length := by
      have hle := length_units_le c
      rw [BitVec.toNat_ofNat]
      exact Nat.mod_eq_of_lt (by rw [units] at hle; omega)
    have hint : r.rtn.toInt = us.length := by
      have hle := length_units_le c
      rw [hrtn, BitVec.toInt_eq_toNat_of_lt (by rw [units] at hle; omega), hmod]
    have heq : r.rtn.toInt = count := (Prod.mk.inj (Except.ok.inj hcount)).1
    rw [units]
    omega

/-! ### The answer -/

/-- The text is in the buffer up to its terminator, or at least the front of it, and the call tells
its length and whether it fits. -/
structure Answers (c : Call w) (o : Outcome) : Prop where
  inside : (o.written.length : ℤ) ≤ max c.bufferLength 0
  text : 0 < c.bufferLength → ∃ k, o.written = c.units.take k ++ [0]
  length : o.length = some (c.units.length : ℤ)
  info : o.ret = .SQL_SUCCESS_WITH_INFO ↔ c.bufferLength < c.units.length + 1
  success : o.ret = .SQL_SUCCESS ↔ c.units.length + 1 ≤ c.bufferLength

/-- The call comes to an end, and is answered. -/
def Right (c : Call w) (run : ℕ → Option (Except Fault Outcome)) : Prop :=
  ∃ rounds o, run rounds = some (.ok o) ∧ c.Answers o

theorem zero_not_mem_units : 0 ∉ c.units := by
  intro h
  obtain ⟨chr, hchr, hmem⟩ := List.mem_flatMap.mp h
  have hne := c.ne_zero chr hchr
  have hlt := Unicode.char_toNat_lt chr
  have hnat : ∀ n : ℕ, n < 0x10000 → 0 = UInt16.ofNat n → n = 0 := by
    intro n hn h
    have htoNat := congrArg UInt16.toNat h
    rw [UInt16.toNat_ofNat'] at htoNat
    have hmod : n % 2 ^ 16 = n := Nat.mod_eq_of_lt hn
    exact (hmod.symm.trans htoNat.symm)
  rw [Lib.utf16EncodeChar] at hmem
  split at hmem
  · rename_i hlow
    exact hne (hnat _ hlow (List.mem_singleton.mp hmem))
  · rw [List.mem_pair] at hmem
    rcases hmem with h | h
    · have hzero := hnat _ (by omega) h
      omega
    · have hzero := hnat _ (by omega) h
      omega

/-- What arrives in full is answered where the terminator fits as well, or, if it is tested whether
the buffer is too small, where there is no buffer at all. -/
theorem answers_full_iff (hfits : Fits 64 c.bufferLength) {tested : Bool} {width : ℕ}
    (hlen : wrap width c.units.length = c.units.length) :
    c.Answers (c.full tested width) ↔
      (0 < c.bufferLength ∧ c.units.length < c.bufferLength) ∨
        (tested = true ∧ c.bufferLength = 0 ∧ 0 < c.units.length) := by
  have hcount : 0 ≤ c.bufferLength → uwrap 64 c.bufferLength = c.bufferLength := by
    intro hB
    have hlt := hfits.2
    exact Int.emod_eq_of_lt hB (by omega)
  constructor
  · intro h
    have hinside : (c.written.length : ℤ) ≤ max c.bufferLength 0 := h.inside
    rcases Int.lt_trichotomy c.bufferLength 0 with hneg | hzero | hpos
    · -- a negative length is taken for a large one
      have hle := hfits.1
      have hbuf : uwrap 64 c.bufferLength = c.bufferLength + 2 ^ 64 := by
        rw [uwrap, ← Int.add_emod_right]
        exact Int.emod_eq_of_lt (by omega) (by omega)
      have hwritten : 0 < c.written.length := by
        rw [written, List.length_append, List.length_take]
        split
        · rw [List.length_singleton]
          omega
        · omega
      omega
    · have hret := h.info.mpr (by omega)
      right
      by_contra hnot
      have hfull : (c.full tested width).ret = .SQL_SUCCESS :=
        if_neg fun hshort => hnot ⟨hshort.1, hzero, by omega⟩
      rw [hfull] at hret
      cases hret
    · left
      refine ⟨hpos, ?_⟩
      by_contra hroom
      obtain ⟨k, hk⟩ := h.text hpos
      have hnul : (0 : UInt16) ∈ c.written := by
        have htext : c.written = c.units.take k ++ [0] := hk
        rw [htext]
        simp
      have hall : c.written = c.units.take (uwrap 64 c.bufferLength).toNat := by
        have hbuf := hcount (by omega)
        rw [written, if_neg (by omega), List.append_nil]
      rw [hall] at hnul
      exact zero_not_mem_units (List.mem_of_mem_take hnul)
  · rintro (⟨hpos, hroom⟩ | ⟨htested, hzero, hpos⟩)
    · have hbuf := hcount (by omega)
      have hwritten : (c.full tested width).written = c.units ++ [0] := by
        have htake : c.units.take (uwrap 64 c.bufferLength).toNat = c.units :=
          List.take_of_length_le (by omega)
        exact (congrArg (· ++ _) htake).trans (by rw [if_pos (by omega)])
      have hret : (c.full tested width).ret = .SQL_SUCCESS := if_neg fun h => by omega
      refine ⟨?_, fun _ => ⟨c.units.length, ?_⟩, congrArg some hlen, ?_, ?_⟩
      · rw [hwritten, List.length_append, List.length_singleton]
        omega
      · rw [hwritten, List.take_length]
      · rw [hret]
        exact iff_of_false (by decide) (by omega)
      · exact iff_of_true hret (by omega)
    · have hbuf := hcount (by omega)
      have hwritten : (c.full tested width).written = [] := by
        have hnone : (uwrap 64 c.bufferLength).toNat = 0 := by omega
        have hfull : (c.full tested width).written = c.written := rfl
        rw [hfull, written, hnone, if_neg (Nat.not_lt_zero _)]
        rfl
      have hret : (c.full tested width).ret = .SQL_SUCCESS_WITH_INFO :=
        if_pos ⟨htested, by omega⟩
      refine ⟨?_, fun h => by omega, congrArg some hlen, iff_of_true hret (by omega), ?_⟩
      · rw [hwritten]
        exact Int.le_max_right _ _
      · rw [hret]
        exact iff_of_false (by decide) (by omega)

theorem allocated_pos {memory : ℕ → Bool} {size : ℤ} (h : allocated memory size = true) :
    0 < size := of_decide_eq_true (Bool.and_eq_true_iff.mp h).1

/-- An answer with a length is the last one of the loop, converted. -/
theorem of_answer {tested : Bool} {width : ℕ} {g : Grown ℤ Fault Narrow} {o : Outcome} {len : ℤ}
    (h : answer tested width c.bufferLength g = some (.ok o)) (hlen : o.length = some len) :
    ∃ buflen n count out, g = .done buflen n ∧ n.ret ≠ .SQL_ERROR ∧
      convert n buflen c.bufferLength = .ok (count, out) ∧ len = wrap width count := by
  cases g with
  | unfinished => cases h
  | refused =>
    cases Except.ok.inj (Option.some.inj h)
    cases hlen
  | fault e => cases Option.some.inj h
  | done buflen n =>
    rw [answer] at h
    split at h
    · cases Except.ok.inj (Option.some.inj h)
      cases hlen
    · rename_i hret
      obtain ⟨⟨count, out⟩, hconvert, ho⟩ := Lib.bind_eq_ok.mp (Option.some.inj h)
      refine ⟨buflen, n, count, out, rfl, hret, hconvert, ?_⟩
      rw [← Except.ok.inj ho] at hlen
      exact (Option.some.inj hlen).symm

theorem enough_of_lt {len buflen : ℤ} (h : c.utf8.length < buflen) :
    enough buflen (c.asked len buflen) = true := by
  have hret : (c.asked len buflen).ret = .SQL_SUCCESS := if_neg (by omega)
  rw [enough, hret]
  rfl

theorem not_enough {len buflen : ℤ} (h : buflen ≤ c.utf8.length) (hlen : buflen ≤ len) :
    enough buflen (c.asked len buflen) = false := by
  have hret : (c.asked len buflen).ret = .SQL_SUCCESS_WITH_INFO := if_pos h
  have hnot : decide ((c.asked len buflen).len < buflen) = false :=
    decide_eq_false (Int.not_lt.mpr hlen)
  rw [enough, hret, hnot]
  rfl

/-- The last answer is enough: the text fits, or the length reported says so. -/
theorem enough_asked {len buflen : ℤ} (h : enough buflen (c.asked len buflen) = true) :
    c.utf8.length < buflen ∨ len < buflen := by
  by_cases hlen : buflen ≤ c.utf8.length
  · have hret : (c.asked len buflen).ret = .SQL_SUCCESS_WITH_INFO := if_pos hlen
    rw [enough, hret] at h
    exact .inr (of_decide_eq_true h)
  · exact .inl (by omega)

end Call

end OdbcDriver.WideNames
