import OdbcDriver.Server.StringLiteral

/-!
# Quoted text and comments

How the server reads a text from the front: a character is part of a string literal, a quoted
identifier, a dollar quote or a comment, or it is outside of all of them. Only outside is a
semicolon the end of a statement.

* `scan`: the characters of a text, each with whether it is outside;
* `statements`: the texts between the semicolons that are outside;
* `map_fst_scan`: nothing of a text is lost.
-/

namespace OdbcDriver.Server

/-! ### Characters -/

/-- An ASCII character. -/
def chr (c : Char) : Chr := [c.toNat.toUInt8]

def doubleQuote : Chr := chr '"'
def dollar : Chr := chr '$'
def hyphen : Chr := chr '-'
def slash : Chr := chr '/'
def asterisk : Chr := chr '*'
def semicolon : Chr := chr ';'

/-- A newline or a carriage return. -/
def isNewline (c : Chr) : Bool := c = chr '\n' || c = chr '\r'

/-- A blank between tokens. -/
def isBlank (c : Chr) : Bool :=
  isNewline c || c = chr ' ' || c = chr '\t' || c = [0x0b] || c = [0x0c]

/-- A digit. -/
def isNumeral : Chr → Bool
  | [b] => isDigit b
  | _ => false

/-- A character an identifier or the tag of a dollar quote begins with; those behind ASCII do. -/
def startsName : Chr → Bool
  | [b] => (isAlnum b && !isDigit b) || b = 0x5f || 0x80 ≤ b
  | _ => true

/-- A character that continues an identifier. -/
def continuesName (c : Chr) : Bool := startsName c || isNumeral c || c = dollar

/-! ### Regions -/

/-- Where a character is. -/
inductive Region
  /-- Outside; `word` behind a character of an identifier, `escape` behind an `E` that is one. -/
  | outside (word escape : Bool)
  | literal (escapes : Bool)
  | identifier
  | dollarQuote (tag : List Chr)
  | lineComment
  /-- In so many comments. -/
  | comment (depth : Nat)
  /-- A number of characters more that belong to what has been read. -/
  | skip (n : Nat) (next : Region)
deriving DecidableEq, Repr

/-- Outside, with no word begun. -/
def Region.start : Region := .outside false false

/-- The tag of a dollar quote, from behind its first dollar sign. -/
def dollarTag (text : List Chr) : Option (List Chr) :=
  let tag := text.takeWhile fun c => startsName c || isNumeral c
  if (text.drop tag.length).head? = some dollar ∧ tag.head?.all startsName then some tag else none

/-- The number of blanks before the quote that goes on with a literal, if there is a newline among
them. -/
def continuation (text : List Chr) : Option Nat :=
  let blanks := text.takeWhile isBlank
  if (text.drop blanks.length).head? = some quote ∧ blanks.any isNewline then some blanks.length
  else none

/-- What a character outside begins, with the text behind it. -/
def stepOutside (s : Settings) (word escape : Bool) (c : Chr) (rest : List Chr) : Bool × Region :=
  if c = quote then (false, .literal (escape || !s.standard_conforming_strings))
  else if c = doubleQuote then (false, .identifier)
  else if c = hyphen ∧ rest.head? = some hyphen then (false, .lineComment)
  else if c = slash ∧ rest.head? = some asterisk then (false, .skip 1 (.comment 1))
  else if c = dollar ∧ word = false then
    match dollarTag rest with
    | some tag => (false, .skip (tag.length + 1) (.dollarQuote tag))
    | none => (true, .start)
  else if word then (true, .outside (continuesName c) false)
  else (true, .outside (startsName c) (c = chr 'E' || c = chr 'e'))

/-- Whether a character is outside, and where the next one is. -/
def step (s : Settings) : Region → Chr → List Chr → Bool × Region
  | .outside word escape, c, rest => stepOutside s word escape c rest
  | .literal escapes, c, rest =>
    if c = quote then
      if rest.head? = some quote then (false, .skip 1 (.literal escapes))
      else
        match continuation rest with
        | some n => (false, .skip (n + 1) (.literal escapes))
        | none => (false, .start)
    else if escapes ∧ c = backslash then (false, .skip 1 (.literal escapes))
    else (false, .literal escapes)
  | .identifier, c, _ => (false, if c = doubleQuote then .start else .identifier)
  | .dollarQuote tag, c, rest =>
    if c = dollar ∧ (tag ++ [dollar]).isPrefixOf rest then
      (false, .skip (tag.length + 1) .start)
    else (false, .dollarQuote tag)
  | .lineComment, c, _ => (false, if isNewline c then .start else .lineComment)
  | .comment depth, c, rest =>
    if c = asterisk ∧ rest.head? = some slash then
      (false, .skip 1 (if depth ≤ 1 then .start else .comment (depth - 1)))
    else if c = slash ∧ rest.head? = some asterisk then (false, .skip 1 (.comment (depth + 1)))
    else (false, .comment depth)
  | .skip n next, _, _ => (false, if n ≤ 1 then next else .skip (n - 1) next)

/-- The characters of a text, each with whether it is outside. -/
def scan (s : Settings) : Region → List Chr → List (Chr × Bool)
  | _, [] => []
  | region, c :: rest =>
    let (outside, next) := step s region c rest
    (c, outside) :: scan s next rest

@[simp]
theorem map_fst_scan (s : Settings) (region : Region) (text : List Chr) :
    (scan s region text).map Prod.fst = text := by
  induction text generalizing region with
  | nil => rfl
  | cons c rest ih => rw [scan, List.map_cons, ih]

/-! ### Statements -/

/-- A semicolon that ends a statement. -/
def ends (c : Chr × Bool) : Bool := c.2 && c.1 == semicolon

/-- The texts between the semicolons that end statements. -/
def pieces (s : Settings) (text : List Chr) : List (List Chr) :=
  ((scan s .start text).splitOnP ends).map fun piece => piece.map Prod.fst

/-- The statements of a text. -/
def statements (s : Settings) (text : List Chr) : List (List Chr) :=
  (pieces s text).filter (· ≠ [])

end OdbcDriver.Server
