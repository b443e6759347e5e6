import Mathlib.Data.List.TakeWhile
import OdbcDriver.Param.BindRules
import OdbcDriver.Unicode.RoundTrip

/-!
# Where a value ends

The parts of `ResolveOneParam` decide each for itself where a text in memory ends.
`convert_special_chars` stops at the length or at the NUL, whichever comes first, but looks one
byte further for the line feed behind a carriage return. `valid_int_literal` stops at either as
well, but the text it has found to be an integer is appended up to the length.
-/

namespace OdbcDriver

open Lib

/-! ### The body of a literal -/

/-- The bytes that count among the first `max` in memory: those up to the NUL. -/
def textWithin (max : Nat) (si : List Byte) : List Byte := (si.take max).takeWhile (· ≠ 0)

/-- The bytes of a text in memory that count: those within the length, if one is given, up to
the NUL. -/
def countedText (si : List Byte) (used : Int) : List Byte :=
  textWithin (if 0 ≤ used then used.toNat else si.length) si

/-- The counted bytes fill the length and end with a carriage return that is read as one, so
that the byte behind them decides whether it is written. -/
def LooksBehind (conn : ConnectionClass) (flags : Flags) (si : List Byte) (used : Int) : Prop :=
  flags.convertLf = true ∧ (countedText si used).length = used ∧
    (countedText si used).getLast? = some PG_CARRIAGE_RETURN ∧
    statAfter conn.ccsc 0 (countedText si used) = 0

section Body

variable {ccsc : Ccsc} {convlf double : Bool} {esc : Byte}

/-- What is written for one byte, in front of the byte `next`. -/
def specialChar (ccsc : Ccsc) (convlf double_special : Bool) (escape_in_literal : Byte)
    (stat : Nat) (tchar next : Byte) : List Byte :=
  if nonAscii (nextStat ccsc stat tchar) tchar then [tchar]
  else if convlf ∧ tchar = PG_CARRIAGE_RETURN ∧ next = PG_LINEFEED then []
  else if double_special ∧ (tchar = LITERAL_QUOTE ∨ tchar = escape_in_literal) then
    [tchar, tchar]
  else [tchar]

theorem specialChars_cons {stat max : Nat} {tchar : Byte} {si : List Byte} (h : tchar ≠ 0) :
    specialChars ccsc convlf double esc stat (max + 1) (tchar :: si) =
      specialChar ccsc convlf double esc stat tchar (si.headD 0) ++
        specialChars ccsc convlf double esc (nextStat ccsc stat tchar) max si := by
  simp only [specialChars, if_neg h, specialChar]
  split
  · rfl
  · split
    · rfl
    · split <;> rfl

theorem textWithin_cons {b : Byte} (hb : b ≠ 0) (max : Nat) (s : List Byte) :
    textWithin (max + 1) (b :: s) = b :: textWithin max s :=
  List.takeWhile_cons_of_pos (by simpa using hb)

/-- The byte behind the counted ones. -/
def byteBehind (max : Nat) (si : List Byte) : Byte := (si.drop (textWithin max si).length).headD 0

theorem byteBehind_cons {b : Byte} (hb : b ≠ 0) (max : Nat) (s : List Byte) :
    byteBehind (max + 1) (b :: s) = byteBehind max s := by
  rw [byteBehind, textWithin_cons hb, List.length_cons, List.drop_succ_cons, byteBehind]

/-- The first of some bytes is the first that counts, or the one behind those. -/
theorem headD_counted (max : Nat) (si : List Byte) :
    (textWithin max si ++ [byteBehind max si]).headD 0 = si.headD 0 := by
  cases si with
  | nil => cases max <;> rfl
  | cons c si =>
    match max with
    | 0 => rfl
    | max + 1 =>
      by_cases hc : c = 0
      · simp [textWithin, byteBehind, hc]
      · rw [textWithin_cons hc]
        rfl

/-- The conversion reads the counted bytes and the one behind them. -/
theorem specialChars_counted (si : List Byte) :
    ∀ stat max : Nat, specialChars ccsc convlf double esc stat max si =
      specialChars ccsc convlf double esc stat (textWithin max si).length
        (textWithin max si ++ [byteBehind max si]) := by
  induction si with
  | nil =>
    intro stat max
    cases max <;> rfl
  | cons b si ih =>
    intro stat max
    match max with
    | 0 => rfl
    | max + 1 =>
      by_cases hb : b = 0
      · simp [specialChars, textWithin, hb]
      · rw [textWithin_cons hb, byteBehind_cons hb, List.length_cons, List.cons_append,
          specialChars_cons hb, specialChars_cons hb, headD_counted, ← ih]

/-- The byte behind another makes a difference only where it may be the line feed of a carriage
return. -/
theorem specialChar_eq_iff (stat : Nat) (tchar next next' : Byte) :
    specialChar ccsc convlf double esc stat tchar next =
        specialChar ccsc convlf double esc stat tchar next' ↔
      (convlf = true → tchar = PG_CARRIAGE_RETURN → nextStat ccsc stat tchar = 0 →
        (next = PG_LINEFEED ↔ next' = PG_LINEFEED)) := by
  by_cases hcr : convlf = true ∧ tchar = PG_CARRIAGE_RETURN
  · obtain ⟨rfl, rfl⟩ := hcr
    by_cases hstat : nextStat ccsc stat PG_CARRIAGE_RETURN = 0
    · -- one of the two drops the carriage return, the other writes it
      have hascii : nonAscii 0 PG_CARRIAGE_RETURN = false := by decide
      by_cases h : next = PG_LINEFEED <;> by_cases h' : next' = PG_LINEFEED <;>
        simp [specialChar, hstat, hascii, h, h'] <;> split <;> simp
    · simp [specialChar, nonAscii, hstat]
  · have hnot (c : Byte) : ¬ (convlf = true ∧ tchar = PG_CARRIAGE_RETURN ∧ c = PG_LINEFEED) :=
      fun h => hcr ⟨h.1, h.2.1⟩
    simp only [specialChar, if_neg (hnot next), if_neg (hnot next'), true_iff]
    exact fun hlf hb => absurd ⟨hlf, hb⟩ hcr

/-- What lies behind a text makes no difference but for one case: a carriage return at the end,
and a line feed behind it or not. -/
theorem specialChars_behind_iff (text : List Byte) :
    ∀ (stat : Nat) (next next' : Byte), (∀ b ∈ text, b ≠ 0) →
      (specialChars ccsc convlf double esc stat text.length (text ++ [next]) =
          specialChars ccsc convlf double esc stat text.length (text ++ [next']) ↔
        (convlf = true → text.getLast? = some PG_CARRIAGE_RETURN →
          statAfter ccsc stat text = 0 → (next = PG_LINEFEED ↔ next' = PG_LINEFEED))) := by
  induction text with
  | nil => simp [specialChars]
  | cons b text ih =>
    intro stat next next' hnul
    obtain ⟨hb, hnul⟩ := List.forall_mem_cons.mp hnul
    simp only [List.length_cons, List.cons_append, specialChars_cons hb]
    cases text with
    | nil =>
      have hend (s : List Byte) : specialChars ccsc convlf double esc (nextStat ccsc stat b) 0 s =
          [] := by
        rw [specialChars]
      simpa [hend] using specialChar_eq_iff stat b next next'
    | cons c text =>
      rw [List.cons_append, List.cons_append, List.headD_cons, List.headD_cons,
        List.append_cancel_left_eq]
      exact ih (nextStat ccsc stat b) next next' hnul

/-- Text that does not fill the length ends at a NUL. -/
theorem byteBehind_of_short {max : Nat} {si : List Byte} (h : (textWithin max si).length ≠ max) :
    byteBehind max si = 0 := by
  induction si generalizing max with
  | nil => cases max <;> rfl
  | cons b si ih =>
    match max with
    | 0 => exact absurd rfl h
    | max + 1 =>
      by_cases hb : b = 0
      · simp [byteBehind, textWithin, hb]
      · rw [byteBehind_cons hb]
        rw [textWithin_cons hb, List.length_cons] at h
        exact ih (by omega)

/-- Nothing lies behind all of memory. -/
theorem byteBehind_length (si : List Byte) : byteBehind si.length si = 0 := by
  by_cases h : (textWithin si.length si).length = si.length
  · simp [byteBehind, h]
  · exact byteBehind_of_short h

theorem ne_zero_of_mem_textWithin {max : Nat} {si : List Byte} :
    ∀ b ∈ textWithin max si, b ≠ 0 := by
  intro b hb
  simpa using List.mem_takeWhile_imp hb

/-- A text without NUL is all counted. -/
theorem textWithin_append {text : List Byte} (h : ∀ b ∈ text, b ≠ 0) (behind : List Byte) :
    textWithin text.length (text ++ behind) = text := by
  rw [textWithin, List.take_left, List.takeWhile_eq_self_iff]
  simpa using h

end Body

section Literal

variable (conn : ConnectionClass) (flags : Flags) (mode : ResolveParamMode)

/-- The body of a literal is made from the counted bytes and the one behind them. -/
theorem convert_special_chars_counted (si : List Byte) (used : Int) :
    convert_special_chars conn flags mode si used =
      specialChars conn.ccsc flags.convertLf (mode ≠ .buildingBindRequest)
        conn.escape_in_literal 0 (countedText si used).length
        (countedText si used ++ [byteBehind (if 0 ≤ used then used.toNat else si.length) si]) :=
  specialChars_counted si 0 _

/-- **What a literal depends on.** The body of a literal is the same for all memories with the
same counted bytes, unless these fill the length and end with a carriage return that is read as
one while line feeds are converted. -/
theorem literal_body_bounded_iff (si : List Byte) (used : Int) :
    (∀ si', countedText si' used = countedText si used →
      convert_special_chars conn flags mode si' used =
        convert_special_chars conn flags mode si used) ↔
      ¬ LooksBehind conn flags si used := by
  have hnul : ∀ b ∈ countedText si used, b ≠ 0 := ne_zero_of_mem_textWithin
  constructor
  · rintro h ⟨hlf, hfull, hcr, hstat⟩
    set text := countedText si used
    have hcounted (next : Byte) : countedText (text ++ [next]) used = text := by
      rw [countedText, ← hfull, if_pos (Int.natCast_nonneg _), Int.toNat_natCast]
      exact textWithin_append hnul [next]
    have hbody (next : Byte) : convert_special_chars conn flags mode si used =
        specialChars conn.ccsc flags.convertLf (mode ≠ .buildingBindRequest)
          conn.escape_in_literal 0 text.length (text ++ [next]) := by
      rw [← h _ (hcounted next), convert_special_chars, ← hfull,
        if_pos (Int.natCast_nonneg _), Int.toNat_natCast]
    have hsame := (specialChars_behind_iff text 0 PG_LINEFEED 0 hnul).mp
      ((hbody PG_LINEFEED).symm.trans (hbody 0)) hlf hcr hstat
    exact absurd (hsame.mp rfl) (by decide)
  · intro h si' hsame
    have hbehind (si' : List Byte) (hsame : countedText si' used = countedText si used)
        (hlf : flags.convertLf = true)
        (hcr : (countedText si used).getLast? = some PG_CARRIAGE_RETURN)
        (hstat : statAfter conn.ccsc 0 (countedText si used) = 0) :
        byteBehind (if 0 ≤ used then used.toNat else si'.length) si' = 0 := by
      split
      · rename_i hused
        refine byteBehind_of_short fun hfull => h ⟨hlf, ?_, hcr, hstat⟩
        rw [← hsame, countedText, if_pos hused, hfull, Int.toNat_of_nonneg hused]
      · exact byteBehind_length si'
    rw [convert_special_chars_counted, convert_special_chars_counted, hsame]
    refine (specialChars_behind_iff _ 0 _ _ hnul).mpr fun hlf hcr hstat => ?_
    rw [hbehind si' hsame hlf hcr hstat, hbehind si rfl hlf hcr hstat]

end Literal

/-- The carriage return of `61 0D` is dropped when a line feed lies behind the value. -/
theorem literal_body_unbounded :
    ¬ ∀ (conn : ConnectionClass) (flags : Flags) (mode : ResolveParamMode) (si si' : List Byte)
      (used : Int), countedText si' used = countedText si used →
        convert_special_chars conn flags mode si' used =
          convert_special_chars conn flags mode si used := by
  intro h
  have hsame := h sampleConn { sampleFlags with convertLf := true } .replaceParams
    [0x61, PG_CARRIAGE_RETURN, 0] [0x61, PG_CARRIAGE_RETURN, PG_LINEFEED] 2 (by decide)
  exact absurd hsame (by decide)

/-! ### Integers without quotes -/

/-- An integer as the server reads it: a sign and digits. -/
def IsIntegerLiteral (s : List Byte) : Prop :=
  ∃ digits : List Byte, digits ≠ [] ∧ (∀ b ∈ digits, isDigit b = true) ∧
    (s = digits ∨ s = 0x2d :: digits)

/-- An integer in a statement: a negative one stands in parentheses, so that its sign does not
make a comment of the minus in front of it. -/
def bareInteger (s : List Byte) : List Byte :=
  if s.head? = some 0x2d then 0x28 :: (s ++ [0x29]) else s

theorem IsIntegerLiteral.ne_zero {s : List Byte} (h : IsIntegerLiteral s) : ∀ b ∈ s, b ≠ 0 := by
  obtain ⟨digits, -, hdigits, hs⟩ := h
  have hne : ∀ b ∈ digits, b ≠ 0 := by
    rintro b hb rfl
    exact absurd (hdigits 0 hb) (by decide)
  rcases hs with rfl | rfl
  · exact hne
  · exact List.forall_mem_cons.mpr ⟨by decide, hne⟩

/-- A digit is no sign. -/
theorem ne_minus_of_isDigit {b : Byte} (h : isDigit b = true) : b ≠ 0x2d := by
  rintro rfl
  exact absurd h (by decide)

/-- Digits that count, of which there is one. -/
theorem textWithin_ne_nil {max : Nat} {s : List Byte} (hmax : 0 < max)
    (h : isDigit (s.headD 0) = true) : textWithin max s ≠ [] := by
  obtain ⟨max, rfl⟩ := Nat.exists_eq_succ_of_ne_zero hmax.ne'
  cases s with
  | nil => exact absurd h (by decide)
  | cons b s =>
    have hb : b ≠ 0 := by
      rintro rfl
      exact absurd (show isDigit 0 = true from h) (by decide)
    rw [textWithin_cons hb]
    exact List.cons_ne_nil _ _

/-- The digits that `valid_int_literal` checks are those that count behind the sign. -/
theorem valid_int_literal_body {str : List Byte} {len : Int} (hlen : len = SQL_NTS ∨ 0 ≤ len)
    (i : Nat) :
    (if len = SQL_NTS then (str.drop i).takeWhile (· ≠ 0)
      else ((str.drop i).take (len - i).toNat).takeWhile (· ≠ 0)) =
      textWithin ((if 0 ≤ len then len.toNat else str.length) - i) (str.drop i) := by
  rcases hlen with rfl | hlen
  · rw [if_pos rfl, if_neg (by decide), textWithin, List.take_of_length_le (by simp)]
  · rw [if_neg (by unfold SQL_NTS; omega), if_pos hlen, textWithin,
      show (len - i).toNat = len.toNat - i by omega]

/-- The counted text of what `valid_int_literal` accepts is an integer, and negative as it
says. -/
theorem valid_int_literal_counted {str : List Byte} {len : Int} {negative : Bool}
    (hlen : len = SQL_NTS ∨ 0 ≤ len) (h : valid_int_literal str len = (true, negative)) :
    IsIntegerLiteral (countedText str len) ∧
      (negative = true ↔ (countedText str len).head? = some 0x2d) := by
  simp only [valid_int_literal, valid_int_literal_body hlen, Prod.mk.injEq, Bool.and_eq_true,
    decide_eq_true_eq] at h
  obtain ⟨⟨⟨hne, hdigit⟩, hbody⟩, rfl⟩ := h
  rw [List.all_eq_true] at hbody
  set max := if 0 ≤ len then len.toNat else str.length with hmax
  by_cases hneg : (len = SQL_NTS ∨ 0 < len) ∧ str.head? = some 0x2d
  · obtain ⟨rest, rfl⟩ : ∃ rest, str = 0x2d :: rest := by
      cases str with
      | nil => exact absurd hneg.2 (by simp)
      | cons c rest => exact ⟨rest, by rw [Option.some.inj hneg.2]⟩
    have hlt : 1 < max := by
      rw [if_pos hneg] at hne
      rcases hneg.1 with rfl | hpos
      · cases rest with
        | nil => rw [if_pos hneg] at hdigit; exact absurd hdigit (by decide)
        | cons d rest => rw [hmax, if_neg (by decide)]; simp
      · rw [hmax, if_pos hpos.le]
        omega
    rw [if_pos hneg, List.drop_succ_cons, List.drop_zero] at hdigit hbody
    have hcounted : countedText (0x2d :: rest) len = 0x2d :: textWithin (max - 1) rest := by
      rw [countedText, ← hmax, ← textWithin_cons (by decide), Nat.sub_add_cancel (by omega)]
    rw [hcounted]
    refine ⟨⟨_, textWithin_ne_nil (by omega) hdigit, hbody, .inr rfl⟩, ?_⟩
    simp [hneg.1]
  · rw [if_neg hneg] at hne hdigit hbody
    rw [List.drop_zero, Nat.sub_zero] at hbody
    have hpos : 0 < max := by
      rcases hlen with rfl | hlen
      · cases str with
        | nil => exact absurd (show isDigit 0 = true from hdigit) (by decide)
        | cons d rest => rw [hmax, if_neg (by decide)]; simp
      · rw [hmax, if_pos hlen]
        omega
    have hcounted : countedText str len ≠ [] := textWithin_ne_nil hpos hdigit
    refine ⟨⟨_, hcounted, hbody, .inl rfl⟩, ?_⟩
    simp only [hneg, decide_false, Bool.false_eq_true, false_iff]
    intro hhead
    exact ne_minus_of_isDigit (hbody _ (List.mem_of_head? hhead)) rfl

/-! ### From the buffer to the statement -/

/-- The code units of a wide text in memory. -/
def codeUnits : List Byte → List UInt16
  | a :: b :: rest => UInt16.ofNat (a.toNat + 256 * b.toNat) :: codeUnits rest
  | _ => []

/-- What the conversions to the client encoding do: those of the C library end at a NUL, and the
one from UTF-16 is that of `ucs2_to_utf8`. -/
structure Converts (fm : Formats) : Prop where
  msg_to_utf8 : ∀ s out, fm.bindpara_msg_to_utf8 s = some out → ∀ b ∈ out, b ≠ 0
  wchar_to_msg : ∀ s out, fm.bindpara_wchar_to_msg s = some out → ∀ b ∈ out, b ≠ 0
  ucs2_to_utf8 : ∀ s ilen out, fm.ucs2_to_utf8 s ilen = some out →
    Unicode.ucs2_to_utf8 (some ((codeUnits s).take ilen)) false = .ok (some out, out.length)

/-- The bytes of the buffer are the value: no conversion of the text is made. -/
def SentAsIs (conn : ConnectionClass) : CType → Bool
  | .binary => true
  | .char => !conn.convtype || (conn.same_encoding && !conn.wcs_debug)
  | _ => false

/-- A NUL lies within the length of a value. -/
def NulWithin (buffer : Pointer) (used : Int) : Prop :=
  ∃ bytes, buffer = .mem bytes ∧ 0 ∈ bytes.take used.toNat

section Integer

variable {fm : Formats} {conn : ConnectionClass} {ctype : CType} {p : Pointer} {used : Int}

/-- A text in the client encoding: none, or one without NUL and its length. -/
def IsConverted (r : Pointer × Int) : Prop :=
  r.1 = .null ∨ ∃ out : List Byte, r = (.mem out, (out.length : Int)) ∧ ∀ b ∈ out, b ≠ 0

theorem localeConvert_isConverted (hfm : Converts fm) {r : Pointer × Int}
    (h : localeConvert fm conn ctype p used = .ok r) :
    r = (.null, used) ∨ ∃ out : List Byte, r = (.mem out, (out.length : Int)) ∧
      ∀ b ∈ out, b ≠ 0 := by
  unfold localeConvert at h
  split at h
  · cases h; exact .inl rfl
  · split at h
    · split at h
      · obtain ⟨text, -, h⟩ := bind_eq_ok.mp h
        split at h
        · rename_i out hout
          obtain ⟨s, -, hs⟩ := Option.bind_eq_some_iff.mp hout
          cases h
          exact .inr ⟨out, rfl, hfm.msg_to_utf8 s out hs⟩
        · split at h
          · cases h; exact .inr ⟨[], rfl, by simp⟩
          · cases h
      · cases h; exact .inl rfl
    · split at h
      · obtain ⟨text, -, h⟩ := bind_eq_ok.mp h
        split at h
        · rename_i out hout
          obtain ⟨s, -, hs⟩ := Option.bind_eq_some_iff.mp hout
          cases h
          exact .inr ⟨out, rfl, hfm.wchar_to_msg s out hs⟩
        · cases h
      · cases h; exact .inl rfl
    · cases h; exact .inl rfl

/-- A text is converted from the locale exactly where it is not sent as it is. -/
theorem localeConvert_char {r : Pointer × Int}
    (h : localeConvert fm conn .char p used = .ok r) :
    r = (.null, used) ↔ SentAsIs conn .char = true := by
  unfold localeConvert at h
  split at h
  · rename_i hconv
    cases h
    simp [SentAsIs, hconv]
  · rename_i hconv
    dsimp only at h
    split at h
    · rename_i hlocale
      have hsent : SentAsIs conn .char = false := by
        simp only [SentAsIs]
        grind
      obtain ⟨text, -, h⟩ := bind_eq_ok.mp h
      rw [hsent]
      split at h
      · cases h; simp
      · split at h
        · cases h; simp
        · cases h
    · rename_i hlocale
      cases h
      simp only [SentAsIs, true_iff]
      grind

theorem wideText_isConverted (hfm : Converts fm) {r : Pointer × Int}
    (h : wideText fm p used = .ok r) : IsConverted r := by
  unfold wideText at h
  split at h
  · cases h; exact .inl rfl
  · split at h
    · cases h; exact .inl rfl
    · obtain ⟨s, -, h⟩ := bind_eq_ok.mp h
      dsimp only at h
      split at h
      · rename_i out hout
        cases h
        exact .inr ⟨out, rfl, Unicode.ucs2_to_utf8_ne_zero (hfm.ucs2_to_utf8 _ _ out hout)⟩
      · cases h; exact .inl rfl

/-- A value in neutral form: the bytes of the buffer, or a text without NUL. -/
theorem neutralForm_extent (hfm : Converts fm) {precision : Int} {n : Neutral}
    (h : neutralForm fm conn precision ctype p used = .ok n) :
    (SentAsIs conn ctype = true ∧ n.send_buf = p ∧ n.used = used) ∨
      (SentAsIs conn ctype = false ∧ IsConverted (n.send_buf, n.used)) := by
  unfold neutralForm at h
  obtain ⟨⟨send_buf, used'⟩, hlocale, h⟩ := bind_eq_ok.mp h
  have hconv := localeConvert_isConverted hfm hlocale
  have hconverted : send_buf ≠ .null → IsConverted (send_buf, used') := fun hne =>
    hconv.elim (fun h => absurd (Prod.ext_iff.mp h).1 hne) .inr
  dsimp only at h
  split at h
  · cases h
    have hsame : used' = used := by
      unfold localeConvert at hlocale
      split at hlocale <;> (cases hlocale; rfl)
    exact .inl ⟨rfl, rfl, hsame⟩
  · cases h
    have hchar := localeConvert_char hlocale
    by_cases hsent : SentAsIs conn .char = true
    · obtain ⟨rfl, rfl⟩ : send_buf = .null ∧ used' = used := by simpa using hchar.mpr hsent
      exact .inl ⟨hsent, rfl, rfl⟩
    · refine .inr ⟨by simpa using hsent, ?_⟩
      obtain ⟨out, hout, hnul⟩ := hconv.resolve_left (mt hchar.mp hsent)
      obtain ⟨rfl, rfl⟩ : send_buf = .mem out ∧ used' = out.length := by simpa using hout
      exact .inr ⟨out, rfl, hnul⟩
  · refine .inr ⟨rfl, ?_⟩
    split at h
    · obtain ⟨r, hr, h⟩ := bind_eq_ok.mp h
      cases h
      exact wideText_isConverted hfm hr
    · rename_i hne
      cases h
      exact hconverted hne
  all_goals first
    | cases h
    | (obtain ⟨s, -, h⟩ := bind_eq_ok.mp h
       cases h
       exact .inr ⟨by unfold SentAsIs; split <;> simp_all, .inl rfl⟩)

theorem read_eq_ok {t : List Byte} (h : p.read = .ok t) : p = .mem t := by
  cases p <;> cases h
  rfl

/-- A value that is sent without quotes is one that `valid_int_literal` accepts with the length it
has been given. -/
theorem integerForm_bare {cast : String} {n : Neutral} {f : SqlForm} {v : Value}
    (hf : integerForm cast n = .ok f) (hv : finish f = .ok v) (hbare : v.need_quotes = false) :
    n.send_buf = .mem v.send_buf ∧ valid_int_literal v.send_buf n.used = (true, v.add_parens) ∧
      v.used = (if n.used = SQL_NTS then (strlen v.send_buf : Int) else n.used) ∧
      v.lastadd = none := by
  unfold integerForm at hf
  obtain ⟨s, hs, hf⟩ := bind_eq_ok.mp hf
  have hform : ∃ t, f.send_buf.read = .ok t ∧ v.send_buf = t ∧
      v.used = (if f.used = SQL_NTS then (strlen t : Int) else f.used) ∧
      v.need_quotes = f.need_quotes ∧ v.add_parens = f.add_parens ∧ v.lastadd = f.lastadd := by
    unfold finish at hv
    split at hv
    · cases hv
    · obtain ⟨t, ht, hv⟩ := bind_eq_ok.mp hv
      cases hv
      exact ⟨t, ht, rfl, rfl, rfl, rfl, rfl⟩
  obtain ⟨t, ht, rfl, hused, hquotes, hparens, hadd⟩ := hform
  dsimp only at hf
  split at hf
  · rename_i hvalid
    cases hf
    have hmem : n.send_buf = .mem v.send_buf := read_eq_ok ht
    by_cases h0 : n.used = 0
    · -- nothing is no integer
      rw [if_pos h0] at hs
      cases hs
      rw [h0] at hvalid
      exact absurd hvalid (by decide)
    · rw [if_neg h0, hmem] at hs
      cases hs
      exact ⟨hmem, Prod.ext hvalid hparens.symm, hused, hadd⟩
  · cases hf
    rw [hbare] at hquotes
    exact absurd (show false = true from hquotes) (by decide)

/-- The bytes up to the NUL, as a text of that length. -/
theorem take_strlen (s : List Byte) : s.take (strlen s) = s.takeWhile (· ≠ 0) :=
  (List.prefix_iff_eq_take.mp (List.takeWhile_prefix _)).symm

/-- The bytes before a NUL begin as all of them do, if there are any. -/
theorem head?_takeWhile {s : List Byte} (h : s.takeWhile (· ≠ 0) ≠ []) :
    (s.takeWhile (· ≠ 0)).head? = s.head? := by
  cases s with
  | nil => rfl
  | cons b s =>
    by_cases hb : b = 0
    · exact absurd (by simp [hb]) h
    · simp [hb]

theorem IsIntegerLiteral.ne_nil {s : List Byte} (h : IsIntegerLiteral s) : s ≠ [] := by
  obtain ⟨digits, hne, -, rfl | rfl⟩ := h
  · exact hne
  · exact List.cons_ne_nil _ _

/-- What `finish` appends of a text: the counted part is the part up to the first NUL. -/
theorem countedText_of_used {s : List Byte} {len used : Int}
    (hused : used = if len = SQL_NTS then (strlen s : Int) else len) (hpos : 0 ≤ used) :
    countedText s len = (s.take used.toNat).takeWhile (· ≠ 0) := by
  split at hused
  · rename_i hnts
    have hnul : ∀ b ∈ s.takeWhile (· ≠ 0), b ≠ 0 := fun b hb => by
      simpa using List.mem_takeWhile_imp hb
    rw [hused, Int.toNat_natCast, take_strlen, hnts, countedText, if_neg (by decide), textWithin,
      List.take_length, eq_comm, List.takeWhile_eq_self_iff]
    simpa using hnul
  · rw [hused, countedText, if_pos (hused ▸ hpos), textWithin]

/-- The bytes of a value sent without quotes: up to the NUL if it has no length, else that many
bytes; in these a NUL lies only if the buffer is sent as it is and has one. -/
theorem convertParam_bare (hfm : Converts fm) {lo : LoCalls} {bap dae : Bool} {oid pgtype : Oid}
    {precision : Int} {sqltype : SqlType} {v : Value}
    (hint : sqltype = .integer ∨ sqltype = .smallint)
    (h : convertParam fm conn lo bap dae oid precision ctype sqltype pgtype p used =
      .ok (.value v)) (hbare : v.need_quotes = false) (hused : 0 ≤ v.used) :
    v.lastadd = none ∧
      IsIntegerLiteral ((v.send_buf.take v.used.toNat).takeWhile (· ≠ 0)) ∧
      (v.add_parens = true ↔ (v.send_buf.take v.used.toNat).head? = some 0x2d) ∧
      (0 ∈ v.send_buf.take v.used.toNat ↔ SentAsIs conn ctype = true ∧ NulWithin p used) := by
  unfold convertParam at h
  obtain ⟨n, hn, h⟩ := bind_eq_ok.mp h
  have hext := neutralForm_extent hfm hn
  split at h
  · cases h
  set n' := if n.send_buf = .null ∧ n.param_string ≠ [] then
    { n with send_buf := .mem n.param_string, used := SQL_NTS } else n with hn'
  obtain ⟨f, hf, h⟩ := bind_eq_ok.mp h
  obtain ⟨v', hv, h⟩ := bind_eq_ok.mp h
  obtain rfl : v' = v := by simpa using h
  have hform : ∃ cast, integerForm cast n' = .ok f := by
    rcases hint with rfl | rfl
    · exact ⟨_, hf⟩
    · exact ⟨_, hf⟩
  obtain ⟨cast, hf⟩ := hform
  obtain ⟨hmem, hvalid, hlen, hadd⟩ := integerForm_bare hf hv hbare
  have hnts : n'.used = SQL_NTS ∨ 0 ≤ n'.used := by
    split at hlen
    · exact .inl ‹_›
    · exact .inr (hlen ▸ hused)
  obtain ⟨hliteral, hneg⟩ := valid_int_literal_counted hnts hvalid
  rw [countedText_of_used hlen hused] at hliteral hneg
  refine ⟨hadd, hliteral, hneg.trans (by rw [head?_takeWhile hliteral.ne_nil]), ?_⟩
  by_cases hfold : n'.used = SQL_NTS
  · -- the bytes end at the NUL
    rw [if_pos hfold] at hlen
    rw [hlen, Int.toNat_natCast, take_strlen]
    refine ⟨fun h0 => absurd (List.mem_takeWhile_imp h0) (by simp), ?_⟩
    rintro ⟨hsent, bytes, rfl, h0⟩
    rcases hext with ⟨-, hbuf, hused⟩ | ⟨hsent', -⟩
    · rw [hn', if_neg (by rw [hbuf]; simp), hused] at hfold
      rw [hfold, show SQL_NTS.toNat = 0 from rfl] at h0
      exact absurd h0 (by simp)
    · exact absurd hsent (by simp [hsent'])
  · have hsame : n' = n := by
      rw [hn']
      split
      · rename_i hnull
        rw [hn', if_pos hnull] at hfold
        exact absurd rfl hfold
      · rfl
    rw [if_neg hfold, hsame] at hlen
    rw [hsame] at hmem
    rcases hext with ⟨hsent, hbuf, hused⟩ | ⟨hsent, hnull | ⟨out, hout, hnul⟩⟩
    · have hp : p = .mem v'.send_buf := hbuf.symm.trans hmem
      rw [hlen, hused, hp]
      simp [hsent, NulWithin]
    · exact absurd (hmem.symm.trans hnull) nofun
    · obtain ⟨hbuf, -⟩ := Prod.ext_iff.mp hout
      obtain rfl : v'.send_buf = out := by simpa using hmem.symm.trans hbuf
      simp only [hsent, Bool.false_eq_true, false_and, iff_false]
      exact fun h0 => hnul 0 (List.mem_of_mem_take h0) rfl

end Integer

/-! ### Integer parameters -/

/-- The SQL type and the C type that a parameter is converted between. -/
def sqlTypeOf (env : Env) (conn : ConnectionClass) (ipara : ParameterImplClass) : SqlType :=
  effectiveSqlType env.fm ipara.SQLType (PIC_dsp_pgtype conn ipara)

def cTypeOf (env : Env) (conn : ConnectionClass) (apara : ParameterInfoClass)
    (ipara : ParameterImplClass) : CType :=
  resolveDefault conn apara.CType (sqlTypeOf env conn ipara)

/-- The next parameter of a query is of an integer type, and its value `v` goes into the statement
without quotes. -/
structure SentBare (env : Env) (qb : QueryBuild) (apara : ParameterInfoClass)
    (ipara : ParameterImplClass) (v : Value) : Prop where
  bound : qb.apdopts.parameters[qb.next.param_number.toNat]? = some apara
  described : qb.ipdopts.parameters[qb.next.param_number.toNat]? = some ipara
  notReturn : qb.proc_return ≤ qb.next.param_number
  mode : qb.param_mode = .replaceParams ∨ qb.param_mode = .fakeParams
  integer : sqlTypeOf env qb.conn ipara = .integer ∨ sqlTypeOf env qb.conn ipara = .smallint
  value : resolveData env qb.conn qb.param_mode qb.flags
    (env.lo qb.current_row qb.next.param_number)
    (pdataOf qb.pdata qb.next.param_number).lobj_oid apara ipara (paramData qb.next apara) =
      .ok (.value v)
  bare : v.need_quotes = false

section Bare

variable {env : Env} {qb : QueryBuild} {qp : Option OldPos} {apara : ParameterInfoClass}
  {ipara : ParameterImplClass} {v : Value} {r : Resolved}

/-- A value that is found is that of an input parameter, converted. -/
theorem resolveData_value {conn : ConnectionClass} {mode : ResolveParamMode} {flags : Flags}
    {lo : LoCalls} {oid : Oid} {data : ParamData}
    (h : resolveData env conn mode flags lo oid apara ipara data = .ok (.value v)) :
    ipara.paramType ≠ .output ∧
      convertParam env.fm conn lo flags.binaryAsPossible apara.data_at_exec oid apara.precision
        (cTypeOf env conn apara ipara) (sqlTypeOf env conn ipara) (PIC_dsp_pgtype conn ipara)
        data.buffer data.used = .ok (.value v) := by
  unfold resolveData at h
  dsimp only at h
  split at h
  · cases h
  · rename_i hnull
    split at h
    · cases h
    · split at h
      · cases h
      · exact ⟨fun hout => hnull (.inl hout), h⟩

/-- A bare value is appended, in parentheses if it is negative. -/
theorem SentBare.appended (hs : SentBare env qb apara ipara v)
    (h : ResolveOneParam env qb qp = .ok r) :
    0 ≤ v.used ∧ (v.lastadd = none → r.qb.query_statement = qb.query_statement ++
      if v.add_parens then 0x28 :: (v.send_buf.take v.used.toNat ++ [0x29])
        else v.send_buf.take v.used.toNat) := by
  have hmode : qb.param_mode ≠ .buildingBindRequest ∧
      qb.param_mode ≠ .buildingPrepareStatement := by
    rcases hs.mode with h | h <;> simp [h]
  have hin := (resolveData_value hs.value).1
  have hvalue : resolveValue env qb.next qp apara ipara = .ok r := by
    have hbound : qb.apdopts.parameters[(qb.param_number + 1).toNat]? = some apara := hs.bound
    have hdescribed : qb.ipdopts.parameters[(qb.param_number + 1).toNat]? = some ipara :=
      hs.described
    have hreturn : ¬ qb.param_number + 1 < qb.proc_return := not_lt.mpr hs.notReturn
    rw [QueryBuild.next]
    simpa [ResolveOneParam, hbound, hdescribed, hreturn, hin, hmode.2] using h
  unfold resolveValue at hvalue
  obtain ⟨c, hc, hvalue⟩ := bind_eq_ok.mp hvalue
  obtain rfl : c = .value v := by simpa using hc.symm.trans hs.value
  obtain ⟨out, hout, hvalue⟩ := bind_eq_ok.mp hvalue
  cases hvalue
  have hbare := hs.bare
  unfold emit at hout
  dsimp only at hout
  rw [if_neg (show qb.next.param_mode ≠ _ from hmode.1), if_neg (by simp [hbare])] at hout
  split at hout
  · cases hout
  · rename_i hused
    cases hout
    refine ⟨not_lt.mp hused, fun hadd => ?_⟩
    simp [QueryBuild.append, QueryBuild.next, hadd]

/-- **Integers without quotes.** What is appended for an integer parameter without quotes is an
integer, and nothing else, exactly when no NUL lies within the length of a buffer that is sent as
it is. -/
theorem unquoted_integer_iff (hfm : Converts env.fm) (hs : SentBare env qb apara ipara v)
    (h : ResolveOneParam env qb qp = .ok r) :
    (∃ literal, IsIntegerLiteral literal ∧
        r.qb.query_statement = qb.query_statement ++ bareInteger literal) ↔
      ¬ (SentAsIs qb.conn (cTypeOf env qb.conn apara ipara) = true ∧
        NulWithin (paramData qb.next apara).buffer (paramData qb.next apara).used) := by
  obtain ⟨hused, happ⟩ := hs.appended h
  obtain ⟨hadd, hliteral, hneg, hnul⟩ := convertParam_bare hfm hs.integer
    (resolveData_value hs.value).2 hs.bare hused
  rw [happ hadd, ← hnul]
  set sent := v.send_buf.take v.used.toNat
  have hsent : (if v.add_parens then 0x28 :: (sent ++ [0x29]) else sent) = bareInteger sent := by
    rw [bareInteger]
    exact if_congr hneg rfl rfl
  rw [hsent]
  constructor
  · rintro ⟨literal, hlit, heq⟩ h0
    have hmem : (0 : Byte) ∈ bareInteger literal := by
      rw [← List.append_cancel_left heq, bareInteger]
      split <;> simp [h0]
    have : (0 : Byte) ∈ literal := by
      unfold bareInteger at hmem
      split at hmem
      · simpa using hmem
      · exact hmem
    exact hlit.ne_zero 0 this rfl
  · intro h0
    refine ⟨sent, ?_, rfl⟩
    rwa [List.takeWhile_eq_self_iff.mpr] at hliteral
    intro b hb
    have : b ≠ 0 := fun h => h0 (h ▸ hb)
    simpa using this

end Bare

/-! ### A text bound as an integer -/

/-- The conversions where the locale is one of UTF-8. -/
def utf8Formats : Formats :=
  { sampleEnv.fm with
    bindpara_msg_to_utf8 := fun s => some (s.takeWhile (· ≠ 0))
    bindpara_wchar_to_msg := fun s => some (s.takeWhile (· ≠ 0))
    ucs2_to_utf8 := fun s ilen =>
      match Unicode.ucs2_to_utf8 (some ((codeUnits s).take ilen)) false with
      | .ok (some out, _) => some out
      | _ => none }

theorem utf8Formats_converts : Converts utf8Formats where
  msg_to_utf8 s out h b hb := by
    cases h
    simpa using List.mem_takeWhile_imp hb
  wchar_to_msg s out h b hb := by
    cases h
    simpa using List.mem_takeWhile_imp hb
  ucs2_to_utf8 s ilen out h := by
    simp only [utf8Formats] at h
    split at h
    · rename_i out' olen heq
      cases h
      rw [heq]
      obtain ⟨r, -, hr⟩ := bind_eq_ok.mp heq
      cases r with
      | none => simp at hr
      | some s => cases hr; rfl
    · cases h

/-- A parameter bound to a text of a given length. -/
def boundText (text : List Byte) : ParameterInfoClass :=
  { sampleText with
    buffer := some fun _ => text ++ [0]
    used := some fun _ => text.length
    data_at_exec := false }

/-- A query whose only parameter is an integer, bound to a text. -/
def integerQuery (text : List Byte) : QueryBuild where
  query_statement := ascii "SELECT "
  current_row := 0
  param_number := -1
  dollar_number := 0
  proc_return := 0
  apdopts := ⟨[boundText text], 0, 0, 1, none⟩
  ipdopts := ⟨[⟨.input, .integer, 0⟩]⟩
  pdata := []
  param_mode := .replaceParams
  flags := sampleFlags
  conn := sampleConn

/-- The value of a text bound as an integer that has no minus sign. -/
def bareValue (text : List Byte) : Value where
  send_buf := text ++ [0]
  used := text.length
  isbinary := false
  final_binary_convert := false
  need_quotes := false
  add_parens := false
  lastadd := none
  lobj := none

def integerEnv : Env := ⟨utf8Formats, sampleEnv.lo⟩

theorem sentBare_integerQuery {text : List Byte}
    (h : resolveData integerEnv sampleConn .replaceParams sampleFlags sampleLo 0 (boundText text)
      ⟨.input, .integer, 0⟩ ⟨text.length, .mem (text ++ [0]), false⟩ =
        .ok (.value (bareValue text))) :
    SentBare integerEnv (integerQuery text) (boundText text) ⟨.input, .integer, 0⟩
      (bareValue text) where
  bound := rfl
  described := rfl
  notReturn := by simp [integerQuery, QueryBuild.next]
  mode := .inl rfl
  integer := .inl rfl
  bare := rfl
  value := h

/-- `12`, bound as an integer with its length, is sent as it is. -/
theorem unquoted_integer_twelve :
    ∃ r, ResolveOneParam integerEnv (integerQuery [0x31, 0x32]) none = .ok r ∧
      ∃ literal, IsIntegerLiteral literal ∧
        r.qb.query_statement = ascii "SELECT " ++ bareInteger literal :=
  ⟨_, rfl, (unquoted_integer_iff (r := _) utf8Formats_converts
    (@sentBare_integerQuery [0x31, 0x32] rfl) rfl).mpr (by
      rintro ⟨-, bytes, hbytes, h0⟩
      obtain rfl : [0x31, 0x32, 0] = bytes := Pointer.mem.inj hbytes
      exact absurd h0 (by decide))⟩

/-- The NUL of `31 00 32` goes into the statement, and the byte behind it. -/
theorem unquoted_text_behind_nul :
    Converts integerEnv.fm ∧ SentBare integerEnv (integerQuery [0x31, 0, 0x32]) (boundText [0x31, 0, 0x32])
        ⟨.input, .integer, 0⟩ (bareValue [0x31, 0, 0x32]) ∧
      ∃ r, ResolveOneParam integerEnv (integerQuery [0x31, 0, 0x32]) none = .ok r ∧
        ¬ ∃ literal, IsIntegerLiteral literal ∧
          r.qb.query_statement = ascii "SELECT " ++ bareInteger literal := by
  refine ⟨utf8Formats_converts, sentBare_integerQuery rfl, _, rfl, ?_⟩
  rintro ⟨literal, hlit, heq⟩
  have hsent : bareInteger literal = [0x31, 0, 0x32] := (List.append_cancel_left heq).symm
  unfold bareInteger at hsent
  split at hsent
  · cases hsent
  · exact hlit.ne_zero 0 (by simp [hsent]) rfl

end OdbcDriver
