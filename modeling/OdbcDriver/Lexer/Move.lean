import OdbcDriver.Lexer.ProcessTokens

/-!
# What the lexers do at a byte

Both lexers move between the same regions by the same rules, and differ in one thing: at the
opening of a comment, `SC_scanQueryAndCountParams` passes over both of its bytes (`eager`),
`inner_process_tokens` over the first one. Here is the rule, and that each of them follows it.
-/

namespace OdbcDriver

open CInt (wrap)

/-- What a lexer does at a byte: the status behind it, the bytes after it that it passes over,
and whether the byte is a parameter marker. -/
structure Move where
  status : Status
  skip : Nat
  marker : Bool
  deriving DecidableEq, Repr

/-- A comment opens with the bytes `a`, `b`. -/
abbrev opens (a b c : Byte) (rest : List Byte) : Prop := c = a ∧ rest.headD 0 = b

/-- A byte in plain SQL. `prev` stands before it. -/
def plainMove (conn : ConnectionClass) (eager : Bool) (prev c : Byte) (rest : List Byte) : Move :=
  if isAlnum c then ⟨.identKeyword, 0, false⟩
  else if c = QUESTION_MARK then ⟨.idle, 0, true⟩
  else if c = DOLLAR_QUOTE then
    let taglen := findTag (c :: rest) conn.ccsc
    if 0 < taglen then ⟨.dollarQuote ((c :: rest).take taglen), taglen - 1, false⟩
    else ⟨.idle, 0, false⟩
  else if c = LITERAL_QUOTE then ⟨.literal (literalEscape conn prev), 0, false⟩
  else if c = IDENTIFIER_QUOTE then ⟨.dquoteIdentifier, 0, false⟩
  else if opens HYPHEN HYPHEN c rest then ⟨.lineComment, if eager then 1 else 0, false⟩
  else if opens SLASH ASTERISK c rest then ⟨.commentBlock 0, if eager then 1 else 0, false⟩
  else ⟨.idle, 0, false⟩

section PlainMove

variable (conn : ConnectionClass) (eager : Bool) (prev c : Byte) (rest : List Byte)

/-- A dollar that begins a tag. -/
theorem plainMove_tag (h : 0 < findTag (DOLLAR_QUOTE :: rest) conn.ccsc) :
    plainMove conn eager prev DOLLAR_QUOTE rest =
      ⟨.dollarQuote ((DOLLAR_QUOTE :: rest).take (findTag (DOLLAR_QUOTE :: rest) conn.ccsc)),
        findTag (DOLLAR_QUOTE :: rest) conn.ccsc - 1, false⟩ := by
  unfold plainMove
  rw [if_neg (by decide), if_neg (by decide), if_pos rfl]
  exact if_pos h

/-- Any other dollar. -/
theorem plainMove_dollar (h : ¬ 0 < findTag (DOLLAR_QUOTE :: rest) conn.ccsc) :
    plainMove conn eager prev DOLLAR_QUOTE rest = ⟨.idle, 0, false⟩ := by
  unfold plainMove
  rw [if_neg (by decide), if_neg (by decide), if_pos rfl]
  exact if_neg h

/-- A semicolon means nothing to the statuses. -/
theorem plainMove_semicolon : plainMove conn eager prev SEMICOLON rest = ⟨.idle, 0, false⟩ := by
  unfold plainMove
  rw [if_neg (by decide), if_neg (by decide), if_neg (by decide), if_neg (by decide),
    if_neg (by decide), if_neg fun h => absurd h.1 (by decide),
    if_neg fun h => absurd h.1 (by decide)]

theorem plainMove_lineComment (h : rest.headD 0 = HYPHEN) :
    plainMove conn eager prev HYPHEN rest = ⟨.lineComment, if eager then 1 else 0, false⟩ := by
  unfold plainMove
  rw [if_neg (by decide), if_neg (by decide), if_neg (by decide), if_neg (by decide),
    if_neg (by decide), if_pos ⟨rfl, h⟩]

theorem plainMove_commentBlock (h : rest.headD 0 = ASTERISK) :
    plainMove conn eager prev SLASH rest = ⟨.commentBlock 0, if eager then 1 else 0, false⟩ := by
  unfold plainMove
  rw [if_neg (by decide), if_neg (by decide), if_neg (by decide), if_neg (by decide),
    if_neg (by decide), if_neg fun h => absurd h.1 (by decide), if_pos ⟨rfl, h⟩]

theorem plainMove_alnum (h : isAlnum c = true) :
    plainMove conn eager prev c rest = ⟨.identKeyword, 0, false⟩ :=
  if_pos h

/-- Any other byte. -/
theorem plainMove_other (halnum : ¬ isAlnum c = true) (hmark : c ≠ QUESTION_MARK)
    (hdollar : c ≠ DOLLAR_QUOTE) (hquote : c ≠ LITERAL_QUOTE) (hdquote : c ≠ IDENTIFIER_QUOTE)
    (hline : ¬ opens HYPHEN HYPHEN c rest) (hcomment : ¬ opens SLASH ASTERISK c rest) :
    plainMove conn eager prev c rest = ⟨.idle, 0, false⟩ := by
  unfold plainMove
  rw [if_neg halnum, if_neg hmark, if_neg hdollar, if_neg hquote, if_neg hdquote, if_neg hline,
    if_neg hcomment]

end PlainMove

/-- A byte that is no part of a multibyte character. -/
def asciiMove (conn : ConnectionClass) (eager : Bool) (status : Status) (prev c : Byte)
    (rest : List Byte) : Move :=
  match status with
  | .identKeyword =>
    if continuesIdent c then ⟨.identKeyword, 0, false⟩ else plainMove conn eager prev c rest
  | .idle => plainMove conn eager prev c rest
  | .dollarQuote tag =>
    if c = DOLLAR_QUOTE ∧ (c :: rest).take tag.length = tag then ⟨.idle, tag.length - 1, false⟩
    else ⟨.dollarQuote tag, 0, false⟩
  | .escape e => ⟨.literal e, 0, false⟩
  | .literal e =>
    if c = LITERAL_QUOTE then ⟨.idle, 0, false⟩
    else if c = e then ⟨.escape e, 0, false⟩
    else ⟨.literal e, 0, false⟩
  | .dquoteIdentifier => ⟨if c = IDENTIFIER_QUOTE then .idle else .dquoteIdentifier, 0, false⟩
  | .lineComment => ⟨if c = PG_LINEFEED then .idle else .lineComment, 0, false⟩
  | .commentBlock level =>
    if opens SLASH ASTERISK c rest then ⟨.commentBlock (level + 1), 1, false⟩
    else if opens ASTERISK SLASH c rest then
      ⟨if level = 0 then .idle else .commentBlock (level - 1), 1, false⟩
    else ⟨.commentBlock level, 0, false⟩

/-- A byte of the text, after which the multibyte state is `stat`. -/
def lexMove (conn : ConnectionClass) (eager : Bool) (stat : Nat) (status : Status) (prev c : Byte)
    (rest : List Byte) : Move :=
  if nonAscii stat c then ⟨if status = .idle then .identKeyword else status, 0, false⟩
  else asciiMove conn eager status prev c rest

/-! ### The lexer -/

/-- What both lexers keep. -/
structure LexState where
  status : Status
  ccst : Nat
  /-- The positions of the parameter markers. -/
  markers : List Nat
  deriving DecidableEq, Repr

/-- The state in front of a text. -/
def LexState.init : LexState := ⟨.idle, 0, []⟩

/-- The state behind a move. -/
def Move.after (m : Move) (stat : Nat) (markers : List Nat) (done : List Byte) : LexState :=
  ⟨m.status, stat, if m.marker then markers ++ [done.length] else markers⟩

/-- One byte further. -/
def lexStep (conn : ConnectionClass) (before : Byte) (eager : Bool) (s : LexState)
    (done : List Byte) (c : Byte) (rest : List Byte) : LexState × Nat :=
  let stat := nextStat conn.ccsc s.ccst c
  let m := lexMove conn eager stat s.status (done.headD before) c rest
  (m.after stat s.markers done, m.skip)

/-- The scanner that moves by `lexMove`. -/
def lexer (conn : ConnectionClass) (before : Byte) (eager : Bool) : Scanner LexState Byte where
  step := lexStep conn before eager

@[simp]
theorem lexer_step (conn : ConnectionClass) (before : Byte) (eager : Bool) :
    (lexer conn before eager).step = lexStep conn before eager := rfl

/-! ### Multibyte states -/

theorem stat_of_not_nonAscii {stat : Nat} {c : Byte} (h : nonAscii stat c = false) :
    stat = 0 ∧ c.toNat < 0x80 := by
  simpa [nonAscii] using h

/-- Behind an ASCII byte another one is read as such. -/
theorem nextStat_ascii (ccsc : Ccsc) {c : Byte} (hc : c.toNat < 0x80) : nextStat ccsc 0 c = 0 :=
  pg_CS_stat_ascii ccsc (by decide) hc

theorem nonAscii_zero {c : Byte} (hc : c.toNat < 0x80) : nonAscii 0 c = false := by
  simp [nonAscii, hc]

/-- One byte that is no part of a multibyte character. -/
theorem lexStep_ascii (conn : ConnectionClass) (before : Byte) (eager : Bool) (status : Status)
    (markers : List Nat) (done : List Byte) {c : Byte} (hc : c.toNat < 0x80) (rest : List Byte) :
    lexStep conn before eager ⟨status, 0, markers⟩ done c rest =
      ((asciiMove conn eager status (done.headD before) c rest).after 0 markers done,
        (asciiMove conn eager status (done.headD before) c rest).skip) := by
  unfold lexStep lexMove
  dsimp only
  rw [nextStat_ascii _ hc, nonAscii_zero hc, if_neg Bool.false_ne_true]

/-! ### Escape characters -/

/-- `CC_get_escape`: literals have a backslash as escape character, or none of their own. -/
def EscapeSet (conn : ConnectionClass) : Prop :=
  conn.escape_in_literal = 0 ∨ conn.escape_in_literal = ESCAPE_IN_LITERAL

/-- The escape character of a literal is not its quote. -/
def EscapeOk : Status → Prop
  | .literal e | .escape e => e ≠ LITERAL_QUOTE
  | _ => True

variable {conn : ConnectionClass}

theorem literalEscape_ne_quote (hesc : EscapeSet conn) (prev : Byte) :
    literalEscape conn prev ≠ LITERAL_QUOTE := by
  unfold literalEscape
  rcases hesc with h | h <;> rw [h]
  · split_ifs <;> decide
  · rw [if_pos (by decide)]
    decide

theorem plainMove_escapeOk (hesc : EscapeSet conn) (eager : Bool) (prev c : Byte)
    (rest : List Byte) : EscapeOk (plainMove conn eager prev c rest).status := by
  unfold plainMove
  dsimp only
  split_ifs
  all_goals first
    | exact trivial
    | exact literalEscape_ne_quote hesc prev

theorem lexMove_escapeOk (hesc : EscapeSet conn) {eager : Bool} {stat : Nat} {status : Status}
    {prev c : Byte} {rest : List Byte} (h : EscapeOk status) :
    EscapeOk (lexMove conn eager stat status prev c rest).status := by
  unfold lexMove
  split
  · dsimp only
    split
    · exact trivial
    · exact h
  · cases status with
    | identKeyword =>
      unfold asciiMove
      dsimp only
      split
      · exact trivial
      · exact plainMove_escapeOk hesc eager prev c rest
    | idle => exact plainMove_escapeOk hesc eager prev c rest
    | literal e =>
      unfold asciiMove
      dsimp only
      split_ifs
      · exact trivial
      · exact h
      · exact h
    | escape e => exact h
    | _ =>
      unfold asciiMove
      dsimp only
      split_ifs <;> exact trivial

end OdbcDriver
