import OdbcDriver.Unicode.WideNames

/-!
# Names for the application, call by call

The length that a narrow function reports tells the loop whether to go on, and what buffer to get
next. It has 16 bits for a column and for a cursor, and 32 for an SQL text, and so has the size of
the first buffer, three times the length of the application's.

* `right16_iff`: when `SQLDescribeColW` and `SQLGetCursorNameW` are right;
* `right_native_iff`: when `SQLNativeSqlW` is;
* `wide_names_iff`: all three, and that their loops end.
-/

namespace OdbcDriver.WideNames

open CInt (wrap uwrap Fits)
open Regrow (Grown regrow)
open Unicode (ucs2_to_utf8)

/-! ### Sixteen bits -/

/-- The size of the first buffer of `SQLDescribeColW` and `SQLGetCursorNameW`. -/
def firstSize (bufferLength : ℤ) : ℤ := if 0 < bufferLength then wrap 16 (bufferLength * 3) else 32

theorem fits_firstSize (bufferLength : ℤ) : Fits 16 (firstSize bufferLength) := by
  rw [firstSize]
  split
  · exact CInt.fits_wrap (by decide) _
  · decide

namespace Call

variable (c : Call 16)

/-- The whole text is obtained: its length is less than `SHRT_MAX`, and there is memory for the
first buffer and, if this is too small, for the second. -/
def Obtained : Prop :=
  c.utf8.length < 32767 ∧ allocated c.memory (firstSize c.bufferLength) = true ∧
    (firstSize c.bufferLength ≤ c.utf8.length → c.memory (c.utf8.length + 1) = true)

variable {c} {ask : ℤ → Narrow} {tested : Bool}

theorem right16_iff
    (hask : c.utf8.length < 2 ^ 31 →
      ∀ buflen, 0 < buflen → buflen < 2 ^ 31 →
        ask buflen = c.asked (wrap 16 c.utf8.length) buflen) :
    (c.Right fun rounds => answer tested 16 c.bufferLength
        (regrow (allocated c.memory) ask enough next16 rounds (firstSize c.bufferLength))) ↔
      c.Obtained ∧ (0 < c.bufferLength ∧ c.units.length < c.bufferLength ∨
        tested = true ∧ c.bufferLength = 0 ∧ 0 < c.units.length) := by
  have hfits := c.fits
  have hfits64 : Fits 64 c.bufferLength := ⟨by have := hfits.1; omega, by have := hfits.2; omega⟩
  have hunits := length_units_le c
  have hutf8 := length_utf8_le c
  constructor
  · rintro ⟨rounds, o, hrun, hans⟩
    obtain ⟨buflen, n, count, out, hdone, hret, hconvert, hcount⟩ := of_answer hrun hans.length
    -- the length reported fits in sixteen bits, and the text in thirty-two
    have hshort := CInt.fits_wrap (w := 16) (by decide) count
    rw [← hcount] at hshort
    have hlen : c.units.length < 32768 := by
      have hlt := hshort.2
      omega
    have hask := hask (by omega)
    obtain ⟨hgiven, hn, henough⟩ := Regrow.end_of_done hdone
    have hsize : Fits 16 buflen := by
      refine Regrow.size_of_done (P := Fits 16) (fits_firstSize _) (fun n size hnext => ?_) hdone
      exact Except.ok.inj hnext ▸ CInt.fits_wrap (by decide) _
    have hlt := hsize.2
    rw [hask buflen (allocated_pos hgiven) (by omega)] at hn
    subst hn
    by_cases hall : c.utf8.length < buflen
    · have hwrap : wrap 16 c.utf8.length = c.utf8.length :=
        CInt.wrap_of_fits (by decide) ⟨by omega, by omega⟩
      have hunit : wrap 16 c.units.length = c.units.length :=
        CInt.wrap_of_fits (by decide) ⟨by omega, by omega⟩
      obtain ⟨hfirst, hrounds⟩ := Regrow.done_cases hdone
      refine ⟨⟨by omega, hfirst, fun hle => ?_⟩, ?_⟩
      · -- the first buffer is too small
        rcases hrounds with ⟨hsame, -⟩ | ⟨-, size, rounds, hnext, hdone'⟩
        · omega
        · rw [hask _ (allocated_pos hfirst) (by omega), hwrap] at hnext
          have hsize : size = c.utf8.length + 1 := by
            rw [← Except.ok.inj hnext]
            exact CInt.wrap_of_fits (by decide) ⟨by simp [asked]; omega, by simp [asked]; omega⟩
          have hsecond := (Regrow.done_cases hdone').1
          rw [hsize] at hsecond
          exact (Bool.and_eq_true_iff.mp hsecond).2
      · have hfull := full_answer hall (by omega) tested 16
        simp only [hdone, hwrap, hfull] at hrun
        rw [← Except.ok.inj (Option.some.inj hrun)] at hans
        exact (answers_full_iff hfits64 hunit).mp hans
    · -- fewer code units are counted
      have hless := (enough_asked henough).resolve_left hall
      have hpart := convert_part (allocated_pos hgiven) (by omega) hless (by omega) hconvert
      have hwrap : wrap 16 count = count := CInt.wrap_of_fits (by decide) ⟨by omega, by omega⟩
      omega
  · rintro ⟨⟨hshort, hfirst, hsecond⟩, hcond⟩
    have hwrap : wrap 16 c.utf8.length = c.utf8.length :=
      CInt.wrap_of_fits (by decide) ⟨by omega, by omega⟩
    have hunit : wrap 16 c.units.length = c.units.length :=
      CInt.wrap_of_fits (by decide) ⟨by omega, by omega⟩
    have hask : ∀ buflen, 0 < buflen → buflen < 2 ^ 31 →
        ask buflen = c.asked c.utf8.length buflen := by
      intro buflen hbuflen hlt
      rw [hask (by omega) buflen hbuflen hlt, hwrap]
    obtain ⟨buflen, hlen, hdone⟩ : ∃ buflen : ℤ, c.utf8.length < buflen ∧
        regrow (allocated c.memory) ask enough next16 2 (firstSize c.bufferLength) =
          .done buflen (c.asked c.utf8.length buflen) := by
      have hfits16 := (fits_firstSize c.bufferLength).2
      have hfirstAsk := hask _ (allocated_pos hfirst) (by omega)
      by_cases hle : firstSize c.bufferLength ≤ c.utf8.length
      · have hagain : enough (firstSize c.bufferLength) (ask (firstSize c.bufferLength)) = false :=
          hfirstAsk ▸ not_enough hle hle
        have hnext : next16 (ask (firstSize c.bufferLength)) = .ok (c.utf8.length + 1) := by
          rw [hfirstAsk, next16]
          exact congrArg Except.ok (CInt.wrap_of_fits (by decide)
            ⟨by simp [asked]; omega, by simp [asked]; omega⟩)
        have hgiven : allocated c.memory (c.utf8.length + 1) = true := by
          rw [allocated, decide_eq_true (by omega)]
          exact hsecond hle
        have hsecondAsk := hask (c.utf8.length + 1) (by omega) (by omega)
        refine ⟨c.utf8.length + 1, by omega, ?_⟩
        rw [Regrow.regrow_again hfirst hagain hnext,
          Regrow.regrow_done hgiven (hsecondAsk ▸ enough_of_lt (by omega)), hsecondAsk]
      · refine ⟨firstSize c.bufferLength, by omega, ?_⟩
        rw [Regrow.regrow_done hfirst (hfirstAsk ▸ enough_of_lt (by omega)), hfirstAsk]
    refine ⟨2, c.full tested 16, ?_, (answers_full_iff hfits64 hunit).mpr hcond⟩
    simp only [hdone]
    exact full_answer hlen (by omega) tested 16

theorem right_describe_iff :
    (c.Right fun rounds =>
      SQLDescribeColW c.memory rounds (some c.utf8) c.bufferLength) ↔
      c.Obtained ∧ 0 < c.bufferLength ∧ c.units.length < c.bufferLength := by
  have hask : c.utf8.length < 2 ^ 31 → ∀ buflen, 0 < buflen → buflen < 2 ^ 31 →
      PGAPI_DescribeCol (some c.utf8) buflen = c.asked (wrap 16 c.utf8.length) buflen := by
    intro hint buflen hpos _
    have hwrap : wrap 32 c.utf8.length = c.utf8.length :=
      CInt.wrap_of_fits (by decide) ⟨by omega, by omega⟩
    rw [PGAPI_DescribeCol, if_pos hpos]
    simp only [hwrap]
    rfl
  refine (right16_iff hask).trans (and_congr_right fun _ => ?_)
  constructor
  · rintro (h | ⟨htested, hzero, -⟩)
    · exact h
    · have hpos := of_decide_eq_true htested
      omega
  · exact .inl

theorem right_cursor_iff :
    (c.Right fun rounds => SQLGetCursorNameW c.memory rounds c.utf8 c.bufferLength) ↔
      c.Obtained ∧ (0 < c.bufferLength ∧ c.units.length < c.bufferLength ∨
        c.bufferLength = 0 ∧ 0 < c.units.length) := by
  have hask : c.utf8.length < 2 ^ 31 → ∀ buflen, 0 < buflen → buflen < 2 ^ 31 →
      PGAPI_GetCursorName c.utf8 buflen = c.asked (wrap 16 c.utf8.length) buflen := by
    intro _ buflen hpos hlt
    have hwrap : uwrap 64 buflen = buflen := Int.emod_eq_of_lt (by omega) (by omega)
    rw [PGAPI_GetCursorName, hwrap]
    rfl
  refine (right16_iff hask).trans (and_congr_right fun _ => ?_)
  simp

end Call

/-! ### Thirty-two bits -/

namespace Call

variable {c : Call 32}

theorem right_native_iff :
    (c.Right fun rounds => SQLNativeSqlW c.memory rounds c.units c.bufferLength) ↔
      0 < c.bufferLength ∧ 3 * c.bufferLength < 2 ^ 31 ∧ c.units.length < c.bufferLength ∧
        c.memory (3 * c.bufferLength).toNat = true ∧
        (0 < c.utf8.length → c.memory (c.utf8.length + 1) = true) := by
  have hfits := c.fits
  have hfits64 : Fits 64 c.bufferLength := ⟨by have := hfits.1; omega, by have := hfits.2; omega⟩
  have hunits := length_units_le c
  have hutf8 := length_utf8_le c
  have hin : ucs2_to_utf8 (some c.units) false =
      if c.utf8.length < 2 ^ 31 then .ok (some c.utf8, (c.utf8.length : ℤ))
      else .error .overflow := by
    have hloop := Unicode.ucs2Loop_chars c.text c.ne_zero 0 [] (by decide)
    rw [Nat.zero_add, List.nil_append] at hloop
    rw [ucs2_to_utf8, units, hloop, utf8]
    split
    · rfl
    · rfl
  have hask : c.utf8.length < 2 ^ 31 → ∀ buflen, 0 < buflen → buflen < 2 ^ 31 →
      PGAPI_NativeSql c.memory (some c.utf8) (wrap 32 c.utf8.length) buflen =
        if 0 < c.utf8.length → c.memory (c.utf8.length + 1) = true then
          c.asked c.utf8.length buflen
        else ⟨.SQL_ERROR, [], 0⟩ := by
    intro hint buflen hpos hlt
    have hbuf : uwrap 64 buflen = buflen := Int.emod_eq_of_lt (by omega) (by omega)
    have hwrap : wrap 32 c.utf8.length = c.utf8.length :=
      CInt.wrap_of_fits (by decide) ⟨by omega, by omega⟩
    rw [PGAPI_NativeSql, hwrap]
    by_cases hzero : (c.utf8.length : ℤ) = 0
    · have hnil : c.utf8 = [] := List.eq_nil_of_length_eq_zero (by omega)
      rw [if_pos hzero, if_pos fun h => by omega, hnil]
      simp only [hbuf]
      rw [asked, hnil]
      rfl
    · have hstring : make_string c.memory (some c.utf8) c.utf8.length =
          if c.memory (c.utf8.length + 1) = true then some c.utf8 else none := by
        rw [make_string]
        simp only
        rw [if_neg (by omega), if_pos (Int.natCast_nonneg _), Int.toNat_natCast,
          Option.bind_some, List.take_length]
      rw [if_neg hzero, hstring]
      by_cases hmemory : c.memory (c.utf8.length + 1) = true
      · rw [if_pos hmemory, if_pos fun _ => hmemory]
        simp only [hbuf, hwrap]
        rfl
      · rw [if_neg hmemory, if_neg fun h => hmemory (h (by omega))]
  constructor
  · rintro ⟨rounds, o, hrun, hans⟩
    simp only [SQLNativeSqlW, hin] at hrun
    by_cases hint : c.utf8.length < 2 ^ 31
    · rw [if_pos hint] at hrun
      by_cases hbuf : Fits 32 (3 * c.bufferLength)
      · simp only [if_pos hbuf] at hrun
        obtain ⟨buflen, n, count, out, hdone, hret, hconvert, hcount⟩ := of_answer hrun hans.length
        obtain ⟨hgiven, hn, henough⟩ := Regrow.end_of_done hdone
        have hsize : Fits 32 buflen := by
          refine Regrow.size_of_done (P := Fits 32) hbuf (fun n size hnext => ?_) hdone
          rw [next32] at hnext
          split at hnext
          · exact Except.ok.inj hnext ▸ ‹_›
          · cases hnext
        have hlt := hsize.2
        rw [hask hint buflen (allocated_pos hgiven) (by omega)] at hn
        by_cases hmemory : 0 < c.utf8.length → c.memory (c.utf8.length + 1) = true
        · rw [if_pos hmemory] at hn
          subst hn
          have hall : c.utf8.length < buflen := (enough_asked henough).elim id id
          have hunit : wrap 32 c.units.length = c.units.length :=
            CInt.wrap_of_fits (by decide) ⟨by omega, by omega⟩
          rw [hdone, full_answer hall hint] at hrun
          rw [← Except.ok.inj (Option.some.inj hrun)] at hans
          have hfirst := (Regrow.done_cases hdone).1
          have hpos := allocated_pos hfirst
          have hroom := (answers_full_iff hfits64 hunit).mp hans
          exact ⟨by omega, by have := hbuf.2; omega, by omega,
            (Bool.and_eq_true_iff.mp hfirst).2, hmemory⟩
        · rw [if_neg hmemory] at hn
          exact absurd (congrArg Narrow.ret hn) hret
      · simp only [if_neg hbuf] at hrun
        cases Option.some.inj hrun
    · rw [if_neg hint] at hrun
      cases Option.some.inj hrun
  · rintro ⟨hpos, hlt, hroom, hfirst, hsecond⟩
    have hint : c.utf8.length < 2 ^ 31 := by omega
    have hbuf : Fits 32 (3 * c.bufferLength) := ⟨by omega, by omega⟩
    have hunit : wrap 32 c.units.length = c.units.length :=
      CInt.wrap_of_fits (by decide) ⟨by omega, by omega⟩
    have hall : c.utf8.length < 3 * c.bufferLength := by omega
    have hgiven : allocated c.memory (3 * c.bufferLength) = true := by
      rw [allocated, decide_eq_true (by omega)]
      exact hfirst
    have hfirstAsk := hask hint (3 * c.bufferLength) (by omega) hlt
    rw [if_pos hsecond] at hfirstAsk
    refine ⟨1, c.full true 32, ?_, (answers_full_iff hfits64 hunit).mpr (.inl ⟨hpos, hroom⟩)⟩
    simp only [SQLNativeSqlW, hin, if_pos hint, if_pos hbuf]
    rw [Regrow.regrow_done hgiven (hfirstAsk ▸ enough_of_lt hall), hfirstAsk]
    exact full_answer hall hint true 32

end Call

/-! ### The loops end -/

variable {memory : ℕ → Bool} {ask : ℤ → Narrow} {len : ℤ}

theorem answer_ne_none {tested : Bool} {width : ℕ} {bufferLength : ℤ} {g : Grown ℤ Fault Narrow}
    (h : g ≠ .unfinished) : answer tested width bufferLength g ≠ none := by
  cases g with
  | unfinished => exact absurd rfl h
  | refused => exact Option.some_ne_none _
  | fault e => exact Option.some_ne_none _
  | done buflen n =>
    rw [answer]
    split <;> exact Option.some_ne_none _

theorem enough_of_len {buflen : ℤ} {n : Narrow} (h : n.len < buflen) : enough buflen n = true := by
  rw [enough, decide_eq_true h, Bool.or_true]

/-- A second buffer that is given is larger than the length reported. -/
theorem ends16 (hlen : ∀ buflen, (ask buflen).len = len) (hfits : Fits 16 len) (size : ℤ) :
    regrow (allocated memory) ask enough next16 2 size ≠ .unfinished := by
  refine Regrow.regrow_ends fun size' hnext hgiven => enough_of_len ?_
  have hsize : wrap 16 (len + 1) = size' := by
    rw [← hlen size]
    exact Except.ok.inj hnext
  have hpos := Call.allocated_pos hgiven
  rw [hlen]
  by_cases hnext : Fits 16 (len + 1)
  · rw [CInt.wrap_of_fits (by decide) hnext] at hsize
    omega
  · have hlt := hfits.2
    have hmax : len = 32767 := by
      by_contra hne
      exact hnext ⟨by have := hfits.1; omega, by omega⟩
    subst hmax
    have hneg : wrap 16 (32767 + 1) = -32768 := by decide
    omega

theorem describe_ends (memory : ℕ → Bool) (name : List Byte) (bufferLength : ℤ) :
    SQLDescribeColW memory 2 (some name) bufferLength ≠ none := by
  have hlen : ∀ buflen, (PGAPI_DescribeCol (some name) buflen).len =
      wrap 16 (wrap 32 name.length) := by
    intro buflen
    rw [PGAPI_DescribeCol]
    split
    · rfl
    · rfl
  exact answer_ne_none (ends16 hlen (CInt.fits_wrap (by decide) _) _)

theorem cursor_ends (memory : ℕ → Bool) (name : List Byte) (bufferLength : ℤ) :
    SQLGetCursorNameW memory 2 name bufferLength ≠ none := by
  have hlen : ∀ buflen, (PGAPI_GetCursorName name buflen).len = wrap 16 name.length :=
    fun _ => rfl
  exact answer_ne_none (ends16 hlen (CInt.fits_wrap (by decide) _) _)

theorem ends_native (szIn : Option (List Byte)) (slen size : ℤ) :
    regrow (allocated memory) (PGAPI_NativeSql memory szIn slen) enough next32 2 size ≠
      .unfinished := by
  refine Regrow.regrow_ends fun size' hnext _ => ?_
  rw [PGAPI_NativeSql] at hnext ⊢
  split
  · rfl
  · rename_i ptr hptr
    simp only [hptr, next32] at hnext
    split at hnext
    · refine enough_of_len ?_
      have hsize := Except.ok.inj hnext
      simp only
      omega
    · cases hnext

theorem native_ends (memory : ℕ → Bool) (szSqlStrIn : List UInt16) (cbSqlStrMax : ℤ) :
    SQLNativeSqlW memory 2 szSqlStrIn cbSqlStrMax ≠ none := by
  rw [SQLNativeSqlW]
  split
  · exact Option.some_ne_none _
  · split
    · exact answer_ne_none (ends_native _ _ _)
    · exact Option.some_ne_none _

/-- **Names for the application.** Each of the loops ends with the second round. What
`SQLDescribeColW` answers is right exactly when the application's buffer has more units than the
text and the text is obtained: three times the buffer's length, cut to 16 bits, must be positive,
the UTF-8 form be shorter than `SHRT_MAX`, and there must be memory. `SQLGetCursorNameW` is right in
these cases and for a text that is not empty without a buffer, and `SQLNativeSqlW` where the buffer
has more units than the text, three times its length is an `int`, and there is memory. -/
theorem wide_names_iff (c : Call 16) (d : Call 32) :
    (SQLDescribeColW c.memory 2 (some c.utf8) c.bufferLength ≠ none ∧
      ((c.Right fun rounds => SQLDescribeColW c.memory rounds (some c.utf8) c.bufferLength) ↔
        c.Obtained ∧ 0 < c.bufferLength ∧ c.units.length < c.bufferLength)) ∧
    (SQLGetCursorNameW c.memory 2 c.utf8 c.bufferLength ≠ none ∧
      ((c.Right fun rounds => SQLGetCursorNameW c.memory rounds c.utf8 c.bufferLength) ↔
        c.Obtained ∧ (0 < c.bufferLength ∧ c.units.length < c.bufferLength ∨
          c.bufferLength = 0 ∧ 0 < c.units.length))) ∧
    (SQLNativeSqlW d.memory 2 d.units d.bufferLength ≠ none ∧
      ((d.Right fun rounds => SQLNativeSqlW d.memory rounds d.units d.bufferLength) ↔
        0 < d.bufferLength ∧ 3 * d.bufferLength < 2 ^ 31 ∧ d.units.length < d.bufferLength ∧
          d.memory (3 * d.bufferLength).toNat = true ∧
          (0 < d.utf8.length → d.memory (d.utf8.length + 1) = true))) :=
  ⟨⟨describe_ends _ _ _, Call.right_describe_iff⟩, ⟨cursor_ends _ _ _, Call.right_cursor_iff⟩,
    ⟨native_ends _ _ _, Call.right_native_iff⟩⟩

/-- A column without a name is described as one with an empty name. -/
theorem describe_none (cbColNameMax : ℤ) :
    PGAPI_DescribeCol none cbColNameMax = PGAPI_DescribeCol (some []) cbColNameMax := rfl

/-- The name `a`, for a buffer of one unit. -/
def oneUnit : Call 16 where
  memory _ := true
  text := ['a']
  bufferLength := 1
  ne_zero := List.forall_mem_singleton.mpr (by decide)
  fits := by decide

/-- The buffer is filled without a terminator, and the call succeeds. -/
theorem unit_unterminated :
    ¬oneUnit.Right fun rounds =>
      SQLDescribeColW oneUnit.memory rounds (some oneUnit.utf8) oneUnit.bufferLength := by
  intro h
  have hroom := (Call.right_describe_iff.mp h).2.2
  exact absurd hroom (by decide)

end OdbcDriver.WideNames
