import OdbcDriver.Escape.Literals
import OdbcDriver.Server.Bytea

/-!
# When the literal of an escape is copied

`F_ExtractOldTo` stops at the first brace or NUL, wherever it is, or when 128 bytes have been read,
and then writes a terminator behind what it has read. So a literal is copied exactly when there is
no brace and no NUL in it and it leaves room for the terminator, with the white space behind it.
-/

namespace OdbcDriver.Escape

open CString (write)
open Lib (ok_bind error_bind pure_eq_ok)

/-! ### The statement in parts -/

variable {qp : OldPos} {f a z : List Byte}

theorem F_OldPtr_eq (hst : qp.statement = f ++ z) (hpos : qp.opos = f.length) : F_OldPtr qp = z := by
  rw [F_OldPtr, hst, hpos, List.drop_left]

theorem F_OldChar_eq {c : Byte} (hst : qp.statement = f ++ c :: z) (hpos : qp.opos = f.length) :
    F_OldChar qp = c := by
  rw [F_OldChar, hst, hpos, List.getD_eq_getElem?_getD, List.getElem?_append_right (le_refl _),
    Nat.sub_self]
  rfl

theorem takeWhile_append_stop {p : Byte → Bool} (ha : ∀ c ∈ a, p c = true)
    (hz : ∀ c ∈ z.head?, p c = false) : (a ++ z).takeWhile p = a := by
  rw [List.takeWhile_append_of_pos ha]
  cases z with
  | nil => simp
  | cons c z => simp [hz c rfl]

theorem skipSpaces_eq {statement : List Byte} (hst : statement = f ++ (a ++ z))
    (ha : ∀ c ∈ a, isSpace c = true) (hz : ∀ c ∈ z.head?, isSpace c = false) :
    skipSpaces ⟨statement, f.length⟩ = ⟨statement, (f ++ a).length⟩ := by
  rw [skipSpaces, F_OldPtr_eq (f := f) hst rfl, takeWhile_append_stop ha hz, F_OldNext,
    List.length_append]

theorem skipWord_eq {statement : List Byte} (hst : statement = f ++ (a ++ z))
    (ha : ∀ c ∈ a, IS_NOT_SPACE c = true) (hz : ∀ c ∈ z.head?, IS_NOT_SPACE c = false) :
    skipWord ⟨statement, f.length⟩ = ⟨statement, (f ++ a).length⟩ := by
  rw [skipWord, F_OldPtr_eq (f := f) hst rfl, takeWhile_append_stop ha hz, F_OldNext,
    List.length_append]

/-! ### The buffer -/

/-- A byte at which the loop stops. -/
abbrev Stops (ch b : Byte) : Prop := b = 0 ∨ b = ch

/-- What fits the buffer is read up to where the loop stops. -/
theorem extractLoop_fits (ch : Byte) {b : Byte} {maxsize : Nat} (hb : Stops ch b) :
    ∀ {a buf : List Byte} {c : Nat}, (∀ x ∈ a, ¬ Stops ch x) → buf.length = maxsize →
      c + a.length ≤ maxsize →
      extractLoop ch maxsize (a ++ b :: z) buf c =
        .ok (b :: z, buf.take c ++ (a ++ buf.drop (c + a.length)), c + a.length) := by
  intro a
  induction a with
  | nil =>
    intro buf c _ hbuf hc
    rw [List.nil_append, extractLoop, if_pos hb]
    simp
  | cons x a ih =>
    intro buf c ha hbuf hc
    obtain ⟨hx, ha⟩ := List.forall_mem_cons.mp ha
    rw [List.length_cons] at hc
    have hlt : c < buf.length := by omega
    have hwrite : write buf c x = .ok (buf.set c x) := if_pos hlt
    rw [List.cons_append, extractLoop, if_neg hx, if_neg (show ¬ maxsize ≤ c by omega), hwrite, ok_bind,
      ih ha (by rw [List.length_set, hbuf]) (by omega)]
    have htake : (buf.set c x).take (c + 1) = buf.take c ++ [x] := by
      rw [List.take_set, List.take_add_one, List.getElem?_eq_getElem hlt, Option.toList_some,
        List.set_append_right _ _ (by rw [List.length_take]; omega), List.length_take,
        Nat.min_eq_left (by omega), Nat.sub_self]
      rfl
    have hdrop : (buf.set c x).drop (c + 1 + a.length) = buf.drop (c + (a.length + 1)) := by
      rw [List.drop_set_of_lt (by omega), show c + 1 + a.length = c + (a.length + 1) by omega]
    rw [htake, hdrop, List.length_cons, List.append_assoc]
    simp [Nat.add_comm 1, Nat.add_assoc]

/-- What does not fit is read until the buffer is full. -/
theorem extractLoop_full (ch : Byte) {maxsize : Nat} :
    ∀ {a buf : List Byte} {c : Nat}, (∀ x ∈ a, ¬ Stops ch x) → buf.length = maxsize → c ≤ maxsize →
      maxsize < c + a.length →
      ∃ x rest full, extractLoop ch maxsize (a ++ z) buf c = .ok (x :: rest, full, maxsize) ∧
        x ≠ 0 ∧ full.length = maxsize := by
  intro a
  induction a with
  | nil =>
    intro buf c _ _ hc hfull
    rw [List.length_nil] at hfull
    omega
  | cons x a ih =>
    intro buf c ha hbuf hc hfull
    obtain ⟨hx, ha⟩ := List.forall_mem_cons.mp ha
    rw [List.length_cons] at hfull
    rw [List.cons_append, extractLoop, if_neg hx]
    by_cases hlt : maxsize ≤ c
    · obtain rfl : c = maxsize := by omega
      exact ⟨x, a ++ z, buf, if_pos hlt, fun h0 => hx (Or.inl h0), hbuf⟩
    · have hwrite : write buf c x = .ok (buf.set c x) := if_pos (by omega)
      rw [if_neg hlt, hwrite, ok_bind]
      exact ih ha (by rw [List.length_set, hbuf]) (by omega) (by omega)

/-- After the loop, at a byte. -/
theorem F_ExtractOldTo_eq {ch x : Byte} {maxsize c : Nat} {buf rest full : List Byte}
    (h : extractLoop ch maxsize (F_OldPtr qp) buf 0 = .ok (x :: rest, full, c)) :
    F_ExtractOldTo qp buf ch maxsize = if x = 0 then .ok none
      else (write full c 0).map fun b =>
        some (F_OldNext qp ((F_OldPtr qp).length - (x :: rest).length), b) := by
  rw [F_ExtractOldTo, h]
  by_cases hx : x = 0
  · rw [if_pos hx]
    exact if_pos hx
  · rw [if_neg hx]
    refine Eq.trans (if_neg hx) ?_
    cases write full c 0 <;> rfl

section Extract

variable (qp) {buf : List Byte} {b : Byte} (hst : qp.statement = f ++ (a ++ b :: z))
  (hpos : qp.opos = f.length) (ha : ∀ x ∈ a, ¬ Stops ODBC_ESCAPE_END x) (hbuf : buf.length = 128)
include hst hpos ha hbuf

/-- A text that ends at a brace, and leaves room for a terminator, is in the buffer. -/
theorem extract_fits (hb : b = ODBC_ESCAPE_END) (hlen : a.length < 128) :
    ∃ small, F_ExtractOldTo qp buf ODBC_ESCAPE_END 128 = .ok (some (F_OldNext qp a.length, small)) ∧
      CString.text small 0 = a := by
  subst hb
  have hptr := F_OldPtr_eq hst hpos
  have hloop := extractLoop_fits ODBC_ESCAPE_END (z := z) (Or.inr rfl) ha hbuf
    (show 0 + a.length ≤ 128 by omega)
  simp only [Nat.zero_add, List.take_zero, List.nil_append] at hloop
  obtain ⟨y, rest, hrest⟩ : ∃ y rest, buf.drop a.length = y :: rest := by
    refine List.exists_cons_of_ne_nil fun hnil => ?_
    have hle := List.drop_eq_nil_iff.mp hnil
    omega
  rw [hrest] at hloop
  have hwrite : write (a ++ y :: rest) a.length 0 = .ok (a ++ 0 :: rest) :=
    CString.write_eq rfl rfl 0
  refine ⟨a ++ 0 :: rest, ?_, ?_⟩
  · rw [F_ExtractOldTo_eq (by rw [hptr]; exact hloop),
      if_neg (show ¬ ODBC_ESCAPE_END = 0 by decide), hwrite, hptr]
    simp [Except.map]
  · exact CString.text_eq (f := []) rfl rfl fun x hx h0 => ha x hx (Or.inl h0)

/-- A text of 128 bytes or more leaves no room for the terminator. -/
theorem extract_overrun (hb : b = ODBC_ESCAPE_END ∨ 128 < a.length) (hlen : 128 ≤ a.length) :
    F_ExtractOldTo qp buf ODBC_ESCAPE_END 128 = .error .beyond := by
  have hptr := F_OldPtr_eq hst hpos
  have hover : ∀ full : List Byte, full.length = 128 → write full 128 0 = .error .beyond :=
    fun full hfull => if_neg (by omega)
  by_cases hmore : 128 < a.length
  · obtain ⟨x, rest, full, hloop, hx, hfull⟩ := extractLoop_full ODBC_ESCAPE_END
      (z := b :: z) ha hbuf (Nat.zero_le _) (show 128 < 0 + a.length by omega)
    rw [F_ExtractOldTo_eq (by rw [hptr]; exact hloop), if_neg (show ¬ x = 0 from hx),
      hover full hfull]
    rfl
  · have hend : b = ODBC_ESCAPE_END := hb.resolve_right hmore
    have heq : a.length = 128 := by omega
    have hloop := extractLoop_fits ODBC_ESCAPE_END (z := z) (Or.inr hend) ha hbuf
      (show 0 + a.length ≤ 128 by omega)
    rw [F_ExtractOldTo_eq (by rw [hptr]; exact hloop),
      if_neg (show ¬ b = 0 by rw [hend]; decide), Nat.zero_add, heq, hover _ (by simp [heq, hbuf])]
    rfl

/-- Where the statement ends before the brace there is no text. -/
theorem extract_none (hb : b = 0) (hlen : a.length ≤ 128) :
    F_ExtractOldTo qp buf ODBC_ESCAPE_END 128 = .ok none := by
  have hptr := F_OldPtr_eq hst hpos
  have hloop := extractLoop_fits ODBC_ESCAPE_END (z := z) (Or.inl hb) ha hbuf
    (show 0 + a.length ≤ 128 by omega)
  rw [F_ExtractOldTo_eq (by rw [hptr]; exact hloop), if_pos (show b = 0 from hb)]

end Extract

/-! ### The keyword -/

/-- A letter is no white space, no NUL and no question mark. -/
theorem letter_word : ∀ c : Byte, (0x61 ≤ tolower c && tolower c ≤ 0x7a) = true →
    IS_NOT_SPACE c = true ∧ isSpace c = false ∧ c ≠ 0 ∧ c ≠ 0x3f :=
  Server.byte_all (by decide +kernel)

/-- The keywords of the escapes that take a literal. -/
def keywords : List (List Byte) := [ascii "d", ascii "t", ascii "ts", ascii "escape"]

/-- A keyword, up to case. -/
theorem isKey_iff {key : List Byte} (h : (literalForm key []).isSome = true) :
    ∃ k ∈ keywords, key.map tolower = k := by
  simp only [literalForm, stricmp, decide_eq_true_eq] at h
  split at h
  · next hk => exact ⟨ascii "d", by simp [keywords], hk⟩
  split at h
  · next hk => exact ⟨ascii "t", by simp [keywords], hk⟩
  split at h
  · next hk => exact ⟨ascii "ts", by simp [keywords], hk⟩
  split at h
  · next hk => exact ⟨ascii "escape", by simp [keywords], hk⟩
  · exact absurd h (by simp)

/-- What a keyword is made of. -/
theorem isKey_word {key : List Byte} (h : (literalForm key []).isSome = true) :
    (∀ c ∈ key, IS_NOT_SPACE c = true ∧ isSpace c = false ∧ c ≠ 0 ∧ c ≠ 0x3f) ∧ key ≠ [] ∧
      key.length ≤ 32 ∧
      ¬ (stricmp key (ascii "call") ∨ stricmp key (ascii "oj") ∨ stricmp key (ascii "fn")) := by
  obtain ⟨k, hk, heq⟩ := isKey_iff h
  have hletters : ∀ k ∈ keywords, (k.all fun c => 0x61 ≤ c && c ≤ 0x7a) = true := by decide
  have hshort : ∀ k ∈ keywords, 0 < k.length ∧ k.length ≤ 32 := by decide
  have hnone : ∀ k ∈ keywords, k ≠ (ascii "call").map tolower ∧ k ≠ (ascii "oj").map tolower ∧
      k ≠ (ascii "fn").map tolower := by decide
  have hlen : key.length = k.length := by rw [← heq, List.length_map]
  refine ⟨fun c hc => letter_word c ?_, ?_, ?_, ?_⟩
  · have hall := hletters k hk
    rw [List.all_eq_true] at hall
    exact hall _ (by rw [← heq]; exact List.mem_map_of_mem hc)
  · rintro rfl
    have hpos := (hshort k hk).1
    rw [← hlen] at hpos
    exact absurd hpos (by simp)
  · rw [hlen]
    exact (hshort k hk).2
  · simp only [stricmp, decide_eq_true_eq, heq]
    rintro (hcall | hoj | hfn)
    · exact (hnone k hk).1 hcall
    · exact (hnone k hk).2.1 hoj
    · exact (hnone k hk).2.2 hfn

section Keyword

variable {locals : Locals} {e : LiteralEscape} {before after : List Byte} {qb : QueryBuild}

/-- The quote with which the body begins. -/
theorem LiteralEscape.body_cons (e : LiteralEscape) : ∃ rest, e.body = 0x27 :: rest := ⟨_, rfl⟩

/-- The escape is read up to its literal. -/
theorem convert_escape_eq (e : LiteralEscape) (before after : List Byte) {statement : List Byte}
    (hst : statement = before ++ e.text ++ [ODBC_ESCAPE_END] ++ after) :
    convert_escape locals ⟨statement, before.length⟩ qb = convertLiteral locals e.key
      ⟨statement, (before ++ [ODBC_ESCAPE_START] ++ e.lead ++ e.key ++ e.gap).length⟩ qb := by
  obtain ⟨hword, hne, hlen, hother⟩ := isKey_word e.isKey
  obtain ⟨c, key, hkey⟩ := List.exists_cons_of_ne_nil hne
  obtain ⟨g, gap, hgap⟩ := List.exists_cons_of_ne_nil e.gap_ne
  obtain ⟨rest, hbody⟩ := e.body_cons
  obtain ⟨-, hcspace, hc0, hcq⟩ := hword c (by rw [hkey]; exact List.mem_cons_self)
  have hg : isSpace g = true := e.gap_space g (by rw [hgap]; exact List.mem_cons_self)
  -- the brace, the white space before the keyword, and the keyword
  have h0 : F_OldChar ⟨statement, before.length⟩ = ODBC_ESCAPE_START :=
    F_OldChar_eq (f := before) (z := e.lead ++ e.key ++ e.gap ++ e.body ++ [ODBC_ESCAPE_END] ++ after)
      (by simp [hst, LiteralEscape.text]) rfl
  have h1 : skipSpaces ⟨statement, (before ++ [ODBC_ESCAPE_START]).length⟩ =
      ⟨statement, (before ++ [ODBC_ESCAPE_START] ++ e.lead).length⟩ :=
    skipSpaces_eq (z := e.key ++ e.gap ++ e.body ++ [ODBC_ESCAPE_END] ++ after)
      (by simp [hst, LiteralEscape.text]) e.lead_space
      (by rw [hkey]; intro x hx; obtain rfl := Option.some.inj hx; exact hcspace)
  have h2 : F_OldPtr ⟨statement, (before ++ [ODBC_ESCAPE_START] ++ e.lead).length⟩ =
      e.key ++ (e.gap ++ e.body ++ [ODBC_ESCAPE_END] ++ after) :=
    F_OldPtr_eq (by simp [hst, LiteralEscape.text]) rfl
  have h3 : F_OldChar ⟨statement, (before ++ [ODBC_ESCAPE_START] ++ e.lead).length⟩ = c :=
    F_OldChar_eq (z := key ++ (e.gap ++ e.body ++ [ODBC_ESCAPE_END] ++ after))
      (by simp [hst, LiteralEscape.text, hkey]) rfl
  have h4 : skipWord ⟨statement, (before ++ [ODBC_ESCAPE_START] ++ e.lead).length⟩ =
      ⟨statement, (before ++ [ODBC_ESCAPE_START] ++ e.lead ++ e.key).length⟩ :=
    skipWord_eq (z := e.gap ++ e.body ++ [ODBC_ESCAPE_END] ++ after)
      (by simp [hst, LiteralEscape.text]) (fun x hx => (hword x hx).1)
      (by rw [hgap]; intro x hx; obtain rfl := Option.some.inj hx; simp [IS_NOT_SPACE, hg])
  have h5 : skipSpaces ⟨statement, (before ++ [ODBC_ESCAPE_START] ++ e.lead ++ e.key).length⟩ =
      ⟨statement, (before ++ [ODBC_ESCAPE_START] ++ e.lead ++ e.key ++ e.gap).length⟩ :=
    skipSpaces_eq (z := e.body ++ [ODBC_ESCAPE_END] ++ after)
      (by simp [hst, LiteralEscape.text]) e.gap_space
      (by rw [hbody]; intro x hx; obtain rfl := Option.some.inj hx; decide)
  -- `sscanf` reads the same word
  have hscan : Scanf.sscanf (Scanf.format "%32s")
      ((e.key ++ (e.gap ++ e.body ++ [ODBC_ESCAPE_END] ++ after)).takeWhile (· ≠ 0)) =
      some ⟨[], [e.key], false⟩ := by
    rw [List.takeWhile_append_of_pos (fun x hx => by simpa using (hword x hx).2.2.1)]
    have hformat : Scanf.format "%32s" = [.str 32] := by decide
    rw [hformat, Scanf.sscanf_word (fun x hx => (hword x hx).2.1) hne hlen]
    · rfl
    · refine Or.inl fun x hx => ?_
      have hg0 : g ≠ 0 := by
        rintro rfl
        exact absurd hg (by decide)
      rw [hgap, List.cons_append, List.cons_append, List.cons_append,
        List.takeWhile_cons_of_pos (by simpa using hg0)] at hx
      obtain rfl := Option.some.inj hx
      exact hg
  rw [convert_escape]
  simp only [h0, if_true]
  have hnext : F_OldNext ⟨statement, before.length⟩ 1 =
      ⟨statement, (before ++ [ODBC_ESCAPE_START]).length⟩ := by simp [F_OldNext]
  rw [hnext, h1, h3, if_neg hcq, convertKey]
  simp only [h2, hscan, h4, h5, Option.bind_some, List.getElem?_cons_zero, Option.getD_some]
  rw [if_neg hother, if_pos e.isKey]

end Keyword

end OdbcDriver.Escape
