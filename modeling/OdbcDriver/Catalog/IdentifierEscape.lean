import OdbcDriver.Encoding.NextChar
import OdbcDriver.Lexer.Status
import OdbcDriver.Lib.Filling

/-!
# Escaping an identifier

`identifierEscape` writes a name with its quotes and escape characters doubled, into a buffer of the
caller or one of its own. It tests the buffer before each byte of the name, but writes up to two
bytes for it, and a quote and the terminator behind the last; and it moves on to the next byte of
the name before it tests whether there is one.

* `escapeLoop_eq`: the loop, in terms of the pieces that fill the buffer;
* `escapeInto_eq`: what is written, and where it is written or read beyond.
-/

namespace OdbcDriver.Identifier

open Filling (taken lengthTake)
open Lib (ok_bind error_bind pure_eq_ok)

def INT_MAX : ℕ := 2147483647

/-- `dest[outlen++] = c`, where `dest` has room for `bufsize` bytes and `outlen` is an `int`. -/
def put (bufsize : ℕ) (dest : List Byte) (c : Byte) : Except CString.Fault (List Byte) :=
  if dest.length < bufsize ∧ dest.length < INT_MAX then .ok (dest ++ [c]) else .error .beyond

/-- The body of the loop. -/
def escapeChar (escape_ch : Byte) (double_quote : Bool) (bufsize : ℕ) (tchar : Byte)
    (encstr : EncodedStr) (dest : List Byte) : Except CString.Fault (List Byte) := do
  if ← MBCS_NON_ASCII encstr then put bufsize dest tchar
  else if tchar = LITERAL_QUOTE ∨ tchar = escape_ch then
    let dest ← put bufsize dest tchar
    put bufsize dest tchar
  else if double_quote ∧ tchar = IDENTIFIER_QUOTE then
    let dest ← put bufsize dest tchar
    put bufsize dest tchar
  else put bufsize dest tchar

/-- The loop, with so many bytes to go. -/
def escapeLoop (escape_ch : Byte) (double_quote : Bool) (bufsize : ℕ) :
    ℕ → Byte → EncodedStr → List Byte → Except CString.Fault (List Byte)
  | 0, _, _, dest => .ok dest
  | n + 1, tchar, encstr, dest =>
    if dest.length < bufsize - 1 then do
      let dest ← escapeChar escape_ch double_quote bufsize tchar encstr dest
      let (tchar, encstr) ← encoded_nextchar encstr
      escapeLoop escape_ch double_quote bufsize n tchar encstr dest
    else .ok dest

/-- A quote, if there shall be one. -/
def putQuote (double_quote : Bool) (bufsize : ℕ) (dest : List Byte) :
    Except CString.Fault (List Byte) :=
  if double_quote then put bufsize dest IDENTIFIER_QUOTE else .ok dest

/-- The terminator at the end of `dest`. -/
def terminate (bufsize : ℕ) (dest : List Byte) : Except CString.Fault (List Byte) :=
  if dest.length < bufsize then .ok dest else .error .beyond

/-- What is written to `dest`, in front of the terminator. -/
def escapeInto (conn : ConnectionClass) (src : List Byte) (srclen bufsize : ℕ)
    (double_quote : Bool) : Except CString.Fault (List Byte) := do
  let dest ← putQuote double_quote bufsize []
  let (tchar, encstr) ← encoded_nextchar (encoded_str_constr conn.ccsc src)
  let dest ← escapeLoop conn.escape_in_literal double_quote bufsize srclen tchar encstr dest
  let dest ← putQuote double_quote bufsize dest
  terminate bufsize dest

/-- The size of the buffer: of the one supplied, or of what `malloc` gives. -/
def destSize (buf : Option ℕ) (srclen : ℕ) (malloc : Bool) : Option ℕ :=
  match buf with
  | some (bufsize + 1) => some (bufsize + 1)
  | _ => if malloc then some (2 * srclen + 1) else none

/-- The part of `identifierEscape` behind the log. -/
def escapeTo (conn : ConnectionClass) (src : List Byte) (srclen : ℕ) (buf : Option ℕ)
    (double_quote malloc : Bool) : Except CString.Fault (Option (List Byte)) :=
  match destSize buf srclen malloc with
  | none => .ok none
  | some bufsize => some <$> escapeInto conn src srclen bufsize double_quote

/-- `identifierEscape`. `buf` is the size of the buffer that is supplied; `log` says whether the
log is on, to which the source is written as a string. -/
def identifierEscape (src : Option (List Byte)) (srclen : ℤ) (conn : ConnectionClass)
    (buf : Option ℕ) (double_quote log malloc : Bool) : Except CString.Fault (Option (List Byte)) :=
  match src with
  | none => .ok none
  | some src =>
    if srclen = SQL_NULL_DATA then .ok none
    else do
      let strlen := CString.find (fun b => decide (b = 0)) src 0
      let srclen ← if srclen = SQL_NTS then (fun n : ℕ => (n : ℤ)) <$> strlen else .ok srclen
      if srclen ≤ 0 then return none
      else if log then
        let _ ← strlen
        escapeTo conn src srclen.toNat buf double_quote malloc
      else escapeTo conn src srclen.toNat buf double_quote malloc

/-! ### The pieces -/

/-- The bytes that are doubled where they are ASCII characters. -/
def isDoubled (escape_ch : Byte) (double_quote : Bool) (b : Byte) : Bool :=
  b = LITERAL_QUOTE || b = escape_ch || (double_quote && b = IDENTIFIER_QUOTE)

/-- What is written for a byte, behind which the state is `stat`. -/
def piece (escape_ch : Byte) (double_quote : Bool) (stat : ℕ) (b : Byte) : List Byte :=
  if nonAscii stat b then [b] else if isDoubled escape_ch double_quote b then [b, b] else [b]

/-- What is written for each byte of a text. -/
def pieces (ccsc : Ccsc) (escape_ch : Byte) (double_quote : Bool) :
    ℕ → List Byte → List (List Byte)
  | _, [] => []
  | stat, b :: s =>
    piece escape_ch double_quote (nextStat ccsc stat b) b ::
      pieces ccsc escape_ch double_quote (nextStat ccsc stat b) s

variable {ccsc : Ccsc} {esc : Byte} {dq : Bool} {stat bufsize : ℕ} {b : Byte}
variable {s dest f z : List Byte}

theorem isDoubled_iff :
    isDoubled esc dq b = true ↔
      (b = LITERAL_QUOTE ∨ b = esc) ∨ dq = true ∧ b = IDENTIFIER_QUOTE := by
  simp [isDoubled]

theorem piece_ne_nil : piece esc dq stat b ≠ [] := by
  rw [piece]
  split
  · exact List.cons_ne_nil _ _
  · split <;> exact List.cons_ne_nil _ _

@[simp]
theorem length_pieces : (pieces ccsc esc dq stat s).length = s.length := by
  induction s generalizing stat with
  | nil => rfl
  | cons b s ih => rw [pieces, List.length_cons, List.length_cons, ih]

theorem ne_nil_of_mem_pieces : ∀ p ∈ pieces ccsc esc dq stat s, p ≠ [] := by
  induction s generalizing stat with
  | nil => exact List.forall_mem_nil _
  | cons b s ih =>
    rw [pieces, List.forall_mem_cons]
    exact ⟨piece_ne_nil, ih⟩

/-! ### The loop -/

theorem put_ok (hsize : dest.length < bufsize) (hint : dest.length < INT_MAX) (c : Byte) :
    put bufsize dest c = .ok (dest ++ [c]) := if_pos ⟨hsize, hint⟩

theorem put_beyond (h : ¬(dest.length < bufsize ∧ dest.length < INT_MAX)) (c : Byte) :
    put bufsize dest c = .error .beyond := if_neg h

/-- A piece is written, as long as the loop has left room for it and the count does not overflow. -/
theorem escapeChar_eq (hroom : dest.length < bufsize - 1) (hbuf : z = f ++ b :: s) :
    escapeChar esc dq bufsize b ⟨ccsc, z, (f ++ [b]).length - 1, stat⟩ dest =
      if dest.length + (piece esc dq stat b).length ≤ INT_MAX then
        .ok (dest ++ piece esc dq stat b)
      else .error .beyond := by
  have hone : put bufsize dest b =
      if dest.length + 1 ≤ INT_MAX then .ok (dest ++ [b]) else .error .beyond := by
    split
    · exact put_ok (by omega) (by omega) b
    · exact put_beyond (by omega) b
  have htwo : (put bufsize dest b >>= fun dest => put bufsize dest b) =
      if dest.length + 2 ≤ INT_MAX then .ok (dest ++ [b, b]) else .error .beyond := by
    rw [hone]
    by_cases hfit : dest.length + 2 ≤ INT_MAX
    · have hlen : (dest ++ [b]).length = dest.length + 1 := List.length_append
      rw [if_pos hfit, if_pos (by omega), ok_bind, put_ok (by omega) (by omega), List.append_assoc]
      rfl
    · rw [if_neg hfit]
      by_cases hnext : dest.length + 1 ≤ INT_MAX
      · have hlen : (dest ++ [b]).length = dest.length + 1 := List.length_append
        rw [if_pos hnext, ok_bind, put_beyond (by omega)]
      · rw [if_neg hnext, error_bind]
  have hpos : ((f ++ [b]).length - 1 : Int) = f.length := by simp
  have hmbcs : MBCS_NON_ASCII ⟨ccsc, z, (f ++ [b]).length - 1, stat⟩ = .ok (nonAscii stat b) := by
    rw [MBCS_NON_ASCII, hpos, current_eq hbuf, ok_bind]
    rfl
  rw [escapeChar, hmbcs, ok_bind]
  by_cases hnon : nonAscii stat b = true
  · have hpiece : piece esc dq stat b = [b] := if_pos hnon
    rw [if_pos hnon, hpiece]
    exact hone
  rw [if_neg hnon]
  by_cases hdoubled : isDoubled esc dq b = true
  · have hpiece : piece esc dq stat b = [b, b] := by rw [piece, if_neg hnon, if_pos hdoubled]
    rw [hpiece]
    split
    · exact htwo
    · rename_i hlit
      rw [if_pos ((isDoubled_iff.mp hdoubled).resolve_left hlit)]
      exact htwo
  · have hpiece : piece esc dq stat b = [b] := by rw [piece, if_neg hnon, if_neg hdoubled]
    rw [isDoubled_iff, not_or] at hdoubled
    rw [hpiece, if_neg hdoubled.1, if_neg hdoubled.2]
    exact hone

theorem escapeLoop_room (hroom : dest.length < bufsize - 1) (hbuf : z = f ++ b :: s) (n : ℕ) :
    escapeLoop esc dq bufsize (n + 1) b ⟨ccsc, z, (f ++ [b]).length - 1, stat⟩ dest =
      if (dest ++ piece esc dq stat b).length ≤ INT_MAX then do
        let (tchar, encstr) ← encoded_nextchar ⟨ccsc, z, (f ++ [b]).length - 1, stat⟩
        escapeLoop esc dq bufsize n tchar encstr (dest ++ piece esc dq stat b)
      else .error .beyond := by
  have hlen : (dest ++ piece esc dq stat b).length = dest.length + (piece esc dq stat b).length :=
    List.length_append
  rw [escapeLoop, if_pos hroom, escapeChar_eq hroom hbuf, hlen]
  split
  · rw [ok_bind]
  · rw [error_bind]

/-- At the end of the memory there is no next byte. -/
theorem encoded_nextchar_end (hf : ∀ x ∈ f, x ≠ 0) :
    encoded_nextchar ⟨ccsc, f, f.length - 1, stat⟩ = .error .beyond := by
  have hnext : (f.length - 1 + 1 : Int) = f.length := by omega
  have hread : CString.read f f.length = .error .beyond := by
    rw [CString.read, List.getElem?_eq_none (Nat.le_refl _)]
  rw [encoded_nextchar, not_atEnd (z := []) (List.append_nil f).symm hf, ok_bind]
  simp only [Bool.false_eq_true, if_false, hnext, EncodedStr.current, Int.toNat_natCast,
    Int.natCast_nonneg, if_true, hread, error_bind]

/-- From the next byte on, the loop writes the pieces that fill the buffer. It reads beyond the
source if it takes all of them and nothing follows the source. -/
theorem escapeLoop_eq (hf : ∀ x ∈ f, x ≠ 0) (hs : ∀ x ∈ s, x ≠ 0) (hdest : dest.length ≤ INT_MAX)
    {t : ℕ} (ht : taken (bufsize - 1) dest.length (pieces ccsc esc dq stat s) = t) :
    (do
      let (tchar, encstr) ← encoded_nextchar ⟨ccsc, f ++ (s ++ z), f.length - 1, stat⟩
      escapeLoop esc dq bufsize s.length tchar encstr dest) =
      if dest.length + lengthTake (pieces ccsc esc dq stat s) t ≤ INT_MAX ∧
          ¬(t = s.length ∧ z = []) then
        .ok (dest ++ ((pieces ccsc esc dq stat s).take t).flatten)
      else .error .beyond := by
  induction s generalizing f dest stat t with
  | nil =>
    obtain rfl : t = 0 := ht.symm
    cases z with
    | nil =>
      rw [List.append_nil, List.append_nil, encoded_nextchar_end hf, if_neg (by simp)]
      rfl
    | cons x z =>
      rw [List.nil_append, encoded_nextchar_eq rfl hf, ok_bind, if_pos ⟨hdest, by simp⟩]
      simp [escapeLoop]
  | cons b s ih =>
    obtain ⟨hb, hs⟩ := List.forall_mem_cons.mp hs
    have hnul : ∀ x ∈ f ++ [b], x ≠ 0 := by
      intro x hx
      rcases List.mem_append.mp hx with hx | hx
      · exact hf x hx
      · exact List.mem_singleton.mp hx ▸ hb
    have hbuf : f ++ (b :: s ++ z) = f ++ [b] ++ (s ++ z) := by simp
    rw [List.cons_append, encoded_nextchar_eq rfl hf, ok_bind, List.length_cons, ← List.cons_append]
    by_cases hroom : dest.length < bufsize - 1
    · obtain ⟨t, rfl⟩ : ∃ k, t = k + 1 := by
        rw [pieces, taken, if_pos hroom] at ht
        exact ⟨_, ht.symm⟩
      rw [pieces, taken, if_pos hroom, ← List.length_append, Nat.add_right_cancel_iff] at ht
      have hstep : escapeLoop esc dq bufsize (s.length + 1) b
          ⟨ccsc, f ++ [b] ++ (s ++ z), (f ++ [b]).length - 1, nextStat ccsc stat b⟩ dest = _ :=
        escapeLoop_room hroom (List.append_cons f b (s ++ z)).symm s.length
      simp only
      rw [hbuf, hstep, pieces, Filling.lengthTake_succ, List.take_succ_cons, List.flatten_cons,
        ← Nat.add_assoc, ← List.length_append]
      by_cases hint : (dest ++ piece esc dq (nextStat ccsc stat b) b).length ≤ INT_MAX
      · rw [if_pos hint, ih hnul hs hint ht, List.append_assoc]
        simp only [Nat.add_right_cancel_iff]
      · rw [if_neg hint, if_neg fun h => hint (by omega)]
    · obtain rfl : t = 0 := by
        rw [pieces, taken, if_neg hroom] at ht
        exact ht.symm
      simp only
      rw [escapeLoop, if_neg hroom, Filling.lengthTake_zero,
        if_pos ⟨hdest, fun h => absurd h.1 (Nat.succ_ne_zero _).symm⟩]
      simp

/-! ### The buffer -/

/-- The quote in front of a name and behind it. -/
def quotes (double_quote : Bool) : List Byte := if double_quote then [IDENTIFIER_QUOTE] else []

/-- A quote and the terminator behind what has been written. -/
theorem close_eq (hdest : dest.length ≤ INT_MAX) :
    (putQuote dq bufsize dest >>= terminate bufsize) =
      if (dest ++ quotes dq).length < bufsize ∧ (dest ++ quotes dq).length ≤ INT_MAX then
        .ok (dest ++ quotes dq)
      else .error .beyond := by
  cases dq with
  | true =>
    have hlen : (dest ++ [IDENTIFIER_QUOTE]).length = dest.length + 1 := List.length_append
    have hput : putQuote true bufsize dest = put bufsize dest IDENTIFIER_QUOTE := if_pos rfl
    rw [hput, quotes, if_pos rfl, hlen]
    by_cases hroom : dest.length < bufsize ∧ dest.length < INT_MAX
    · rw [put_ok hroom.1 hroom.2, ok_bind, terminate, hlen]
      by_cases hend : dest.length + 1 < bufsize
      · rw [if_pos hend, if_pos ⟨hend, hroom.2⟩]
      · rw [if_neg hend, if_neg fun h => hend h.1]
    · rw [put_beyond hroom, error_bind, if_neg fun h => hroom ⟨by omega, by omega⟩]
  | false =>
    have hput : putQuote false bufsize dest = .ok dest := if_neg Bool.false_ne_true
    rw [hput, ok_bind, quotes, if_neg Bool.false_ne_true, List.append_nil, terminate]
    by_cases hend : dest.length < bufsize
    · rw [if_pos hend, if_pos ⟨hend, hdest⟩]
    · rw [if_neg hend, if_neg fun h => hend h.1]

/-- What is written: the pieces that fill the buffer, between the quotes. The closing quote and the
terminator may lie beyond the buffer, and the byte behind the source is read if all of it is
taken. -/
theorem escapeInto_eq (conn : ConnectionClass) (hs : ∀ x ∈ s, x ≠ 0) (hsize : 0 < bufsize) {t : ℕ}
    (ht : taken (bufsize - 1) (quotes dq).length
      (pieces conn.ccsc conn.escape_in_literal dq 0 s) = t) :
    escapeInto conn (s ++ z) s.length bufsize dq =
      if (quotes dq).length + lengthTake (pieces conn.ccsc conn.escape_in_literal dq 0 s) t +
            (quotes dq).length < bufsize ∧
          (quotes dq).length + lengthTake (pieces conn.ccsc conn.escape_in_literal dq 0 s) t +
            (quotes dq).length ≤ INT_MAX ∧ ¬(t = s.length ∧ z = []) then
        .ok (quotes dq ++ ((pieces conn.ccsc conn.escape_in_literal dq 0 s).take t).flatten ++
          quotes dq)
      else .error .beyond := by
  have hopen : putQuote dq bufsize [] = .ok (quotes dq) := by
    cases dq with
    | true => exact put_ok hsize (by decide) IDENTIFIER_QUOTE
    | false => rfl
  have hquotes : (quotes dq).length ≤ INT_MAX := by cases dq <;> decide
  have hloop : (do
      let (tchar, encstr) ← encoded_nextchar (encoded_str_constr conn.ccsc (s ++ z))
      escapeLoop conn.escape_in_literal dq bufsize s.length tchar encstr (quotes dq)) = _ :=
    escapeLoop_eq (List.forall_mem_nil _) hs hquotes ht
  have hassoc : ∀ (x : Except CString.Fault (Byte × EncodedStr))
      (loop : Byte → EncodedStr → Except CString.Fault (List Byte))
      (close : List Byte → Except CString.Fault (List Byte)),
      (do
        let (tchar, encstr) ← x
        let dest ← loop tchar encstr
        close dest) =
      (do
        let (tchar, encstr) ← x
        loop tchar encstr) >>= close := by
    intro x loop close
    cases x <;> rfl
  have hsplit := hassoc (encoded_nextchar (encoded_str_constr conn.ccsc (s ++ z)))
    (fun tchar encstr =>
      escapeLoop conn.escape_in_literal dq bufsize s.length tchar encstr (quotes dq))
    fun dest => putQuote dq bufsize dest >>= terminate bufsize
  rw [escapeInto, hopen, ok_bind]
  refine hsplit.trans ?_
  simp only [hloop]
  have hlen : (quotes dq ++
      ((pieces conn.ccsc conn.escape_in_literal dq 0 s).take t).flatten).length =
      (quotes dq).length + lengthTake (pieces conn.ccsc conn.escape_in_literal dq 0 s) t :=
    List.length_append
  by_cases hrun : (quotes dq).length +
        lengthTake (pieces conn.ccsc conn.escape_in_literal dq 0 s) t ≤ INT_MAX ∧
      ¬(t = s.length ∧ z = [])
  · rw [if_pos hrun, ok_bind, close_eq (hlen ▸ hrun.1), List.length_append, hlen]
    exact if_congr ⟨fun h => ⟨h.1, h.2, hrun.2⟩, fun h => ⟨h.1, h.2.1⟩⟩ rfl rfl
  · rw [if_neg hrun, error_bind, if_neg fun h => hrun ⟨by omega, h.2.2⟩]

/-! ### Calls -/

/-- A call for a text of the client encoding, with its length or `SQL_NTS`. -/
structure Call where
  conn : ConnectionClass
  text : List Chr
  explicit : Bool
  buf : Option ℕ
  double_quote : Bool
  log : Bool
  malloc : Bool
  wellFormed : WellFormed conn.ccsc text
  escape_eq : conn.escape_in_literal = 0 ∨ conn.escape_in_literal = BACKSLASH

namespace Call

variable (c : Call)

/-- What stands in memory behind the text. With a length, it may not be read. -/
def behind : List Byte := if c.explicit then [] else [0]

def srclen : ℤ := if c.explicit then c.text.flatten.length else SQL_NTS

def run : Except CString.Fault (Option (List Byte)) :=
  identifierEscape (some (c.text.flatten ++ c.behind)) c.srclen c.conn c.buf c.double_quote c.log
    c.malloc

def pieces : List (List Byte) :=
  Identifier.pieces c.conn.ccsc c.conn.escape_in_literal c.double_quote 0 c.text.flatten

/-- The text with what is doubled in it, and its quotes. -/
def whole : List Byte := quotes c.double_quote ++ c.pieces.flatten ++ quotes c.double_quote

/-- There is room for the text, its quotes and the terminator. -/
def Fits (bufsize : ℕ) : Prop := c.whole.length < bufsize

/-- The text ends with a terminator and fits. -/
def Whole (bufsize : ℕ) : Prop :=
  c.explicit = false ∧ c.Fits bufsize ∧ c.whole.length ≤ INT_MAX

/-- The text is not quoted, and what is written for some, but not all of its bytes just fits. -/
def Cut (bufsize : ℕ) : Prop :=
  c.double_quote = false ∧ ∃ k < c.text.flatten.length,
    lengthTake c.pieces k + 1 = bufsize ∧ lengthTake c.pieces k ≤ INT_MAX

theorem ne_zero_of_mem : ∀ x ∈ c.text.flatten, x ≠ 0 := by
  intro x hx
  obtain ⟨chr, hchr, hx⟩ := List.mem_flatten.mp hx
  exact ne_zero_of_isChar (c.wellFormed chr hchr) x hx

theorem length_whole :
    c.whole.length = (quotes c.double_quote).length + lengthTake c.pieces c.text.flatten.length +
      (quotes c.double_quote).length := by
  have hall := Filling.lengthTake_all c.pieces
  rw [pieces, length_pieces] at hall
  rw [whole, List.length_append, List.length_append, pieces, hall]

/-- What is written to a buffer of so many bytes. -/
def into (bufsize : ℕ) : Except CString.Fault (List Byte) :=
  escapeInto c.conn (c.text.flatten ++ c.behind) c.text.flatten.length bufsize c.double_quote

theorem into_eq (hsize : 0 < bufsize) {t : ℕ}
    (ht : taken (bufsize - 1) (quotes c.double_quote).length c.pieces = t) :
    c.into bufsize =
      if (quotes c.double_quote).length + lengthTake c.pieces t +
            (quotes c.double_quote).length < bufsize ∧
          (quotes c.double_quote).length + lengthTake c.pieces t +
            (quotes c.double_quote).length ≤ INT_MAX ∧
          ¬(t = c.text.flatten.length ∧ c.behind = []) then
        .ok (quotes c.double_quote ++ (c.pieces.take t).flatten ++ quotes c.double_quote)
      else .error .beyond :=
  escapeInto_eq c.conn c.ne_zero_of_mem hsize ht

variable {c}

theorem length_pieces_eq : c.pieces.length = c.text.flatten.length := length_pieces

theorem into_whole (h : c.Whole bufsize) : c.into bufsize = .ok c.whole := by
  obtain ⟨hnts, hfits, hint⟩ := h
  rw [Fits] at hfits
  have hlen := length_whole c
  have htaken : taken (bufsize - 1) (quotes c.double_quote).length c.pieces =
      c.text.flatten.length := by
    have hroom : (quotes c.double_quote).length + c.pieces.flatten.length ≤ bufsize - 1 := by
      rw [whole, List.length_append, List.length_append] at hfits
      omega
    exact (Filling.taken_all ne_nil_of_mem_pieces hroom).trans length_pieces_eq
  have hbehind : c.behind ≠ [] := by
    rw [behind, hnts]
    exact List.cons_ne_nil _ _
  have htake : c.pieces.take c.text.flatten.length = c.pieces :=
    List.take_of_length_le (Nat.le_of_eq length_pieces_eq)
  rw [into_eq c (by omega) htaken, htake, if_pos ⟨by omega, by omega, fun h => hbehind h.2⟩]
  rfl

theorem into_cut (h : c.Cut bufsize) : ∃ dest, c.into bufsize = .ok dest := by
  obtain ⟨hdq, k, hk, hroom, hint⟩ := h
  have hquotes : (quotes c.double_quote).length = 0 := by
    rw [hdq]
    rfl
  have hle : k ≤ c.pieces.length := length_pieces_eq (c := c) ▸ Nat.le_of_lt hk
  have htaken : taken (bufsize - 1) (quotes c.double_quote).length c.pieces = k :=
    Filling.taken_eq ne_nil_of_mem_pieces hle (by omega)
  refine ⟨_, (into_eq c (by omega) htaken).trans (if_pos ?_)⟩
  exact ⟨by omega, by omega, fun h => absurd h.1 (Nat.ne_of_lt hk)⟩

theorem whole_or_cut {dest : List Byte} (hsize : 0 < bufsize) (h : c.into bufsize = .ok dest) :
    c.Whole bufsize ∨ c.Cut bufsize := by
  have hlen := length_whole c
  obtain ⟨t, ht⟩ : ∃ t, taken (bufsize - 1) (quotes c.double_quote).length c.pieces = t := ⟨_, rfl⟩
  rw [into_eq c hsize ht] at h
  split at h
  case isFalse => cases h
  rename_i hok
  obtain ⟨hfit, hint, hend⟩ := hok
  by_cases hall : t = c.text.flatten.length
  · rw [hall, ← hlen] at hfit hint
    refine .inl ⟨?_, hfit, hint⟩
    by_contra hexp
    refine hend ⟨hall, ?_⟩
    rw [behind, if_pos (by simpa using hexp)]
  · have hle : t ≤ c.pieces.length := ht ▸ Filling.taken_le
    rw [length_pieces_eq] at hle
    have hlt : taken (bufsize - 1) (quotes c.double_quote).length c.pieces < c.pieces.length := by
      rw [ht, length_pieces_eq]
      omega
    have hlimit := Filling.taken_stops hlt
    rw [ht] at hlimit
    have hquotes : (quotes c.double_quote).length = 0 := by omega
    refine .inr ⟨?_, t, by omega, by omega, by omega⟩
    cases hdq : c.double_quote with
    | false => rfl
    | true =>
      rw [hdq] at hquotes
      cases hquotes

/-- What is cut does not fit. -/
theorem not_fits_of_cut (h : c.Cut bufsize) : ¬c.Fits bufsize := by
  obtain ⟨-, k, hk, hroom, -⟩ := h
  have hless : lengthTake c.pieces k < lengthTake c.pieces c.text.flatten.length :=
    Filling.lengthTake_lt ne_nil_of_mem_pieces hk (Nat.le_of_eq length_pieces_eq.symm)
  rw [Fits, length_whole]
  omega

/-! ### The function -/

/-- Nothing is written for an empty text. -/
theorem run_nil (h : c.text = []) : c.run = .ok none := by
  rw [run, srclen, behind, h]
  cases c.explicit with
  | false => rfl
  | true => rfl

theorem strlen_nts (h : c.explicit = false) :
    CString.find (fun b => decide (b = 0)) (c.text.flatten ++ c.behind) 0 =
      .ok c.text.flatten.length := by
  have hpre : ∀ b ∈ c.text.flatten, decide (b = (0 : Byte)) = false := by
    intro b hb
    exact decide_eq_false (c.ne_zero_of_mem b hb)
  have hfind := CString.find_eq (f := []) (z := []) rfl rfl hpre (decide_eq_true rfl)
  rw [behind, h, if_neg Bool.false_ne_true]
  exact hfind.trans (congrArg Except.ok (Nat.zero_add _))

theorem strlen_explicit (h : c.explicit = true) :
    CString.find (fun b => decide (b = 0)) (c.text.flatten ++ c.behind) 0 = .error .beyond := by
  have hnone : (c.text.flatten.findIdx? fun b => decide (b = 0)) = none := by
    rw [List.findIdx?_eq_none_iff]
    intro b hb
    exact decide_eq_false (c.ne_zero_of_mem b hb)
  rw [CString.find, behind, if_pos h, List.append_nil, List.drop_zero, hnone]

/-- A text is written to the log, for which it needs a terminator, and then to the buffer. -/
theorem run_eq (h : c.text ≠ []) :
    c.run =
      if c.explicit = true ∧ c.log = true then .error .beyond
      else
        match destSize c.buf c.text.flatten.length c.malloc with
        | none => .ok none
        | some bufsize => some <$> c.into bufsize := by
  have hpos : ¬(c.text.flatten.length : ℤ) ≤ 0 := by
    obtain ⟨chr, text, htext⟩ := List.exists_cons_of_ne_nil h
    have hchr : chr ≠ [] := ne_nil_of_isChar (c.wellFormed chr (by simp [htext]))
    have hlen := List.length_pos_of_ne_nil hchr
    rw [htext, List.flatten_cons, List.length_append]
    omega
  have hnull : c.srclen ≠ SQL_NULL_DATA := by
    rw [srclen]
    split
    · exact fun h => by rw [SQL_NULL_DATA] at h; omega
    · decide
  rw [run, identifierEscape]
  simp only [if_neg hnull]
  cases hexp : c.explicit with
  | false =>
    have hnts : c.srclen = SQL_NTS := by rw [srclen, if_neg (by simp [hexp])]
    have hcast : (fun n : ℕ => (n : ℤ)) <$>
        (Except.ok c.text.flatten.length : Except CString.Fault ℕ) =
        .ok (c.text.flatten.length : ℤ) := rfl
    rw [strlen_nts hexp, if_pos hnts, hcast, ok_bind, if_neg hpos, ok_bind, Int.toNat_natCast,
      ite_self, if_neg fun h => Bool.false_ne_true h.1]
    rfl
  | true =>
    have hsrclen : c.srclen = c.text.flatten.length := by rw [srclen, if_pos hexp]
    have hnts : c.srclen ≠ SQL_NTS := by
      rw [hsrclen, SQL_NTS]
      omega
    rw [strlen_explicit hexp, if_neg hnts, hsrclen, ok_bind, if_neg hpos, error_bind,
      Int.toNat_natCast]
    by_cases hlog : c.log = true
    · rw [if_pos hlog, if_pos ⟨rfl, hlog⟩]
    · rw [if_neg hlog, if_neg fun h => hlog h.2]
      rfl

end Call

end OdbcDriver.Identifier
