import OdbcDriver.Encoding.Multibyte

/-!
# The tokens of the parser

`getNextToken` gives `parse_the_statement` the next token of a statement: a word, a number, a
quoted literal or identifier, or a punctuation mark of its own. It copies the token into a buffer
and returns a pointer behind it and the blanks that follow.

The text is the list of the bytes from the pointer to the terminator, which is not part of it, so
that every read but one is of a byte of the list or of the terminator. The exception is the byte in
front of a literal, `tstr[-1]`. The function is called with the byte in front of the pointer, if
there is one.
-/

namespace OdbcDriver.NextToken

/-! ### Characters -/

/-- `ispunct`. -/
def isPunct (c : Byte) : Bool :=
  (0x21 ≤ c && c ≤ 0x2f) || (0x3a ≤ c && c ≤ 0x40) || (0x5b ≤ c && c ≤ 0x60) ||
    (0x7b ≤ c && c ≤ 0x7e)

/-- `DOLLAR_QUOTE`. -/
def dollarQuote : Byte := 0x24

/-- `LITERAL_QUOTE`. -/
def literalQuote : Byte := 0x27

/-- `IDENTIFIER_QUOTE`. -/
def identifierQuote : Byte := 0x22

/-- `ESCAPE_IN_LITERAL`. -/
def escapeInLiteral : Byte := 0x5c

/-- `LITERAL_EXT`. -/
def literalExt : Byte := 0x45

/-- `isspace(*tstr) || *tstr == ','`. -/
def isDelimiter (c : Byte) : Bool := isSpace c || c = 0x2c

/-! ### Scanning -/

/-- What a loop has copied into the buffer, and where it has stopped. -/
structure Scanned where
  value : List Byte
  rest : List Byte
  deriving DecidableEq, Repr

/-- `token[out++] = c` in front of what follows. -/
def Scanned.push (c : Byte) (scanned : Scanned) : Scanned :=
  { scanned with value := c :: scanned.value }

/-- The quoted text being read: the quote, the escape character of a literal, if it has one, and the
tag of a dollar quote. -/
structure Quote where
  qc : Byte
  escape_in_literal : Option Byte
  tag : Option (List Byte)
  deriving DecidableEq, Repr

/-- `if (tchar == qc) tstr++`. -/
def Quote.skip (q : Quote) (tchar : Byte) : List Byte → List Byte
  | [] => []
  | c :: s => if tchar = q.qc then s else c :: s

/-- The text, from the last byte of the closing tag of a dollar quote on. Here `tchar` is not the
byte that `encstr` stands on, but its position, from `encoded_position_shift`, cut to a byte. -/
def Quote.close (q : Quote) (tag : List Byte) (pos : ℕ) (s : List Byte) : List Byte :=
  q.skip (pos + (tag.length - 1)).toUInt8 (s.drop (tag.length - 1))

/-- The loop over a quoted text, from the byte at `pos` on, with so much room in the buffer. When
the buffer is full, it has read one byte more, and skips it if it is the quote. -/
def quotedLoop (ccsc : Ccsc) (q : Quote) (stat : ℕ) (in_escape : Bool) (pos room : ℕ) :
    List Byte → Scanned
  | [] => ⟨[], []⟩
  | tchar :: s =>
    let stat := nextStat ccsc stat tchar
    if room = 0 then ⟨[], q.skip tchar (tchar :: s)⟩
    else if nonAscii stat tchar then
      .push tchar (quotedLoop ccsc q stat in_escape (pos + 1) (room - 1) s)
    else if in_escape then quotedLoop ccsc q stat false (pos + 1) room s
    else if tchar = q.qc then
      match q.tag with
      | none =>
        match s with
        | d :: s' =>
          -- the quote is escaped by doubling it
          if d = q.qc then
            .push d (quotedLoop ccsc q (nextStat ccsc stat d) false (pos + 2) (room - 1) s')
          else ⟨[], q.skip tchar (tchar :: d :: s')⟩
        | [] => ⟨[], q.skip tchar [tchar]⟩
      | some tag =>
        if tag <+: tchar :: s then ⟨[], q.close tag pos (tchar :: s)⟩
        else .push tchar (quotedLoop ccsc q stat false (pos + 1) (room - 1) s)
    else if q.qc = literalQuote ∧ q.escape_in_literal = some tchar then
      quotedLoop ccsc q stat true (pos + 1) room s
    else .push tchar (quotedLoop ccsc q stat false (pos + 1) (room - 1) s)

/-- The loop over a word, behind its first byte. -/
def wordLoop (ccsc : Ccsc) (stat room : ℕ) : List Byte → Scanned
  | [] => ⟨[], []⟩
  | tchar :: s =>
    let stat := nextStat ccsc stat tchar
    if room = 0 then ⟨[], tchar :: s⟩
    else if nonAscii stat tchar then .push tchar (wordLoop ccsc stat (room - 1) s)
    else if isDelimiter tchar then ⟨[], tchar :: s⟩
    else if isPunct tchar ∧ tchar ≠ 0x5f then ⟨[], tchar :: s⟩
    else .push tchar (wordLoop ccsc stat (room - 1) s)

/-- The loop over a number, behind its first digit. -/
def numberLoop (room : ℕ) : List Byte → Scanned
  | [] => ⟨[], []⟩
  | c :: s =>
    if (isAlnum c ∨ c = 0x2e) ∧ room ≠ 0 then .push c (numberLoop (room - 1) s)
    else ⟨[], c :: s⟩

/-- The tag of a dollar quote: the bytes from the first dollar sign, `c`, to the next one, or the
first alone if there is no other. -/
def dollarTag (c : Byte) (s : List Byte) : List Byte :=
  if dollarQuote ∈ s then c :: s.takeWhile (· ≠ dollarQuote) ++ [dollarQuote] else [c]

/-! ### The function -/

/-- What a call reports of a token. -/
structure Token where
  token : List Byte
  delim : Byte
  quote : Bool
  dquote : Bool
  numeric : Bool
  deriving DecidableEq, Repr

/-- The outcome of a call: a null pointer, a token and the text behind it, or the read of a byte in
front of the text. -/
inductive Call
  | null
  | token (token : Token) (rest : List Byte)
  | outside
  deriving DecidableEq, Repr

/-- The return behind a token: blanks are skipped, and the delimiter is reported. -/
def finish (quote dquote numeric : Bool) (scanned : Scanned) : Call :=
  let rest := scanned.rest.dropWhile isSpace
  let delim := match rest with
    | [] => 0
    | c :: _ => if c = 0x2c then c else 0x20
  .token ⟨scanned.value, delim, quote, dquote, numeric⟩ rest

/-- The byte in front of `rest`, a part of `s` in front of which `prev` stands. -/
def behind (prev : Option Byte) (s rest : List Byte) : Option Byte :=
  (s.take (s.length - rest.length)).getLast?.or prev

/-- The literal behind an opening quote that `prev` stands in front of. -/
def literal (ccsc : Ccsc) (escape_ch prev : Option Byte) (stat room : ℕ) (s : List Byte) : Call :=
  match escape_ch, prev with
  | none, none => .outside
  | none, some p =>
    let escape := if p = literalExt then some escapeInLiteral else none
    finish true false false (quotedLoop ccsc ⟨literalQuote, escape, none⟩ stat false 1 room s)
  | some e, _ =>
    finish true false false (quotedLoop ccsc ⟨literalQuote, some e, none⟩ stat false 1 room s)

/-- The token that begins with `c`. In the source this is the first round of the loop over a word,
which is the only one with `out == 0`. -/
def firstRound (ccsc : Ccsc) (escape_ch prev : Option Byte) (room : ℕ) (c : Byte)
    (s : List Byte) : Call :=
  let stat := nextStat ccsc 0 c
  if nonAscii stat c then
    finish false false false (.push c (wordLoop ccsc stat (room - 1) s))
  else if c = dollarQuote then
    let tag := dollarTag c s
    finish true false false (quotedLoop ccsc ⟨dollarQuote, none, some tag⟩ stat false tag.length
      room (s.drop (tag.length - 1)))
  else if c = literalQuote then literal ccsc escape_ch prev stat room s
  else if c = identifierQuote then
    finish false true false (quotedLoop ccsc ⟨identifierQuote, none, none⟩ stat false 1 room s)
  else if isDigit c then finish false false true (.push c (numberLoop (room - 1) s))
  else if isPunct c ∧ c ≠ 0x5f then finish false false false ⟨[c], s⟩
  else finish false false false (.push c (wordLoop ccsc stat (room - 1) s))

/-- `getNextToken`, for a buffer of `smax` bytes, on the text `s` that `prev` stands in front of. -/
def getNextToken (ccsc : Ccsc) (escape_ch prev : Option Byte) (smax : ℕ) (s : List Byte) : Call :=
  if smax ≤ 1 then .null
  else
    match s.dropWhile isDelimiter with
    | [] => .null
    | c :: s' => firstRound ccsc escape_ch (behind prev s (c :: s')) (smax - 1) c s'

/-! ### Bounds -/

/-- A loop over `s` stays within it and within the buffer. -/
structure Scanned.Within (scanned : Scanned) (room : ℕ) (s : List Byte) : Prop where
  fits : scanned.value.length ≤ room
  part : scanned.rest <:+ s

section Bounds

variable {ccsc : Ccsc} {escape_ch prev : Option Byte} {q : Quote} {x : Scanned} {c : Byte}
  {room smax : ℕ} {s s' : List Byte}

theorem Quote.skip_suffix (q : Quote) (tchar : Byte) (s : List Byte) : q.skip tchar s <:+ s := by
  cases s with
  | nil => exact List.suffix_refl _
  | cons c s =>
    rw [Quote.skip]
    split
    · exact List.suffix_cons c s
    · exact List.suffix_refl _

theorem Quote.close_suffix (q : Quote) (tag : List Byte) (pos : ℕ) (s : List Byte) :
    q.close tag pos s <:+ s :=
  (q.skip_suffix _ _).trans (List.drop_suffix _ _)

theorem Scanned.Within.stop (hpart : s' <:+ s) : Scanned.Within ⟨[], s'⟩ room s :=
  ⟨Nat.zero_le _, hpart⟩

theorem Scanned.Within.behind (h : x.Within room s) : x.Within room (c :: s) :=
  ⟨h.fits, h.part.trans (List.suffix_cons c s)⟩

theorem Scanned.Within.push (hroom : room ≠ 0) (h : x.Within (room - 1) s) :
    (Scanned.push c x).Within room s := by
  refine ⟨?_, h.part⟩
  have hfits := h.fits
  rw [Scanned.push, List.length_cons]
  omega

theorem quotedLoop_within (ccsc : Ccsc) (q : Quote) (stat : ℕ) (in_escape : Bool) (pos room : ℕ)
    (s : List Byte) : (quotedLoop ccsc q stat in_escape pos room s).Within room s := by
  fun_induction quotedLoop ccsc q stat in_escape pos room s with
  | case1 => exact .stop (List.suffix_refl _)
  | case2 => exact .stop (q.skip_suffix _ _)
  | case3 stat in_escape pos room c s stat' hroom hwide ih => exact (ih.push hroom).behind
  | case4 stat pos room c s stat' hroom hwide ih => exact ih.behind
  | case5 stat in_escape pos room hroom hin htag s stat' hwide ih =>
    exact (ih.push hroom).behind.behind
  | case6 => exact .stop (q.skip_suffix _ _)
  | case7 => exact .stop (q.skip_suffix _ _)
  | case8 => exact .stop (q.close_suffix _ _ _)
  | case9 stat in_escape pos room s hroom hin tag htag stat' hwide hmatch ih =>
    exact (ih.push hroom).behind
  | case10 stat in_escape pos room c s stat' hroom hwide hin hquote hescape ih => exact ih.behind
  | case11 stat in_escape pos room c s stat' hroom hwide hin hquote hescape ih =>
    exact (ih.push hroom).behind

theorem wordLoop_within (ccsc : Ccsc) (stat room : ℕ) (s : List Byte) :
    (wordLoop ccsc stat room s).Within room s := by
  fun_induction wordLoop ccsc stat room s with
  | case1 => exact .stop (List.suffix_refl _)
  | case2 => exact .stop (List.suffix_refl _)
  | case3 stat room c s stat' hroom hwide ih => exact (ih.push hroom).behind
  | case4 => exact .stop (List.suffix_refl _)
  | case5 => exact .stop (List.suffix_refl _)
  | case6 stat room c s stat' hroom hwide hdelimiter hpunct ih => exact (ih.push hroom).behind

theorem numberLoop_within (room : ℕ) (s : List Byte) : (numberLoop room s).Within room s := by
  fun_induction numberLoop room s with
  | case1 => exact .stop (List.suffix_refl _)
  | case2 room c s h ih => exact (ih.push h.2).behind
  | case3 => exact .stop (List.suffix_refl _)

theorem behind_of_suffix {u : List Byte} (hu : u ≠ []) :
    behind prev (u ++ s) s = u.getLast? := by
  rw [behind, List.length_append, Nat.add_sub_cancel, List.take_left]
  cases hlast : u.getLast? with
  | none => exact absurd (List.getLast?_eq_none_iff.mp hlast) hu
  | some b => rfl

@[simp]
theorem behind_self : behind prev s s = prev := by
  rw [behind, Nat.sub_self, List.take_zero, List.getLast?_nil, Option.none_or]

/-- The round stays within the text and the buffer. -/
theorem firstRound_within {token : Token} {rest : List Byte} (hroom : room ≠ 0)
    (h : firstRound ccsc escape_ch prev room c s = .token token rest) :
    token.token.length ≤ room ∧ rest <:+ s := by
  have hfinish : ∀ {quote dquote numeric : Bool} {x : Scanned}, x.Within room s →
      finish quote dquote numeric x = .token token rest →
      token.token.length ≤ room ∧ rest <:+ s := by
    intro quote dquote numeric x hx heq
    obtain ⟨htoken, hrest⟩ := Call.token.inj heq
    rw [← htoken, ← hrest]
    exact ⟨hx.fits, (List.dropWhile_suffix _).trans hx.part⟩
  have hquoted : ∀ {q : Quote} {stat pos n : ℕ},
      (quotedLoop ccsc q stat false pos room (s.drop n)).Within room s := by
    intro q stat pos n
    have hx := quotedLoop_within ccsc q stat false pos room (s.drop n)
    exact ⟨hx.fits, hx.part.trans (List.drop_suffix n s)⟩
  have hword : ∀ {stat : ℕ}, (Scanned.push c (wordLoop ccsc stat (room - 1) s)).Within room s :=
    (wordLoop_within ccsc _ _ s).push hroom
  have hsingle : (Scanned.mk [c] s).Within room s :=
    ⟨Nat.one_le_iff_ne_zero.mpr hroom, List.suffix_refl _⟩
  unfold firstRound at h
  dsimp only at h
  split at h
  · exact hfinish hword h
  split at h
  · exact hfinish hquoted h
  split at h
  · rw [literal.eq_def] at h
    split at h
    · cases h
    · exact hfinish (hquoted (n := 0)) h
    · exact hfinish (hquoted (n := 0)) h
  split at h
  · exact hfinish (hquoted (n := 0)) h
  split at h
  · exact hfinish ((numberLoop_within _ s).push hroom) h
  split at h
  · exact hfinish hsingle h
  · exact hfinish hword h

/-- **Bounds.** A call that returns a token has moved ahead within the text, and the token fits into
the buffer with its terminator. -/
theorem getNextToken_within {token : Token} {rest : List Byte}
    (h : getNextToken ccsc escape_ch prev smax s = .token token rest) :
    rest <:+ s ∧ rest.length < s.length ∧ token.token.length < smax := by
  rw [getNextToken] at h
  split at h
  · cases h
  · rename_i hsmax
    split at h
    · cases h
    · rename_i c s' hdrop
      have hpart : c :: s' <:+ s := hdrop ▸ List.dropWhile_suffix _
      obtain ⟨hfits, hrest⟩ := firstRound_within (by omega) h
      refine ⟨(hrest.trans (List.suffix_cons c s')).trans hpart, ?_, by omega⟩
      have hlt := hpart.length_le
      have hle := hrest.length_le
      rw [List.length_cons] at hlt
      omega

end Bounds

end OdbcDriver.NextToken
