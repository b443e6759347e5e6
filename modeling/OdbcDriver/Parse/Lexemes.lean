import OdbcDriver.Encoding.Characters
import OdbcDriver.Parse.NextToken

/-!
# The tokens of a statement

What a statement's tokens are, in terms of its characters. Blanks and commas separate them.

* A word is made of letters, digits, `_` and `$`, of the characters outside ASCII and of those that
  are no marks. A number is a digit with the letters, digits and points behind it.
* A literal or a quoted identifier goes to its closing quote, or to the end of the text, and its
  value is the content, with the doubled quotes made single. In a literal, a backslash escapes the
  character behind it if the session says so or the literal stands behind the word `E`.
* A dollar quote goes from its tag to the next one. A dollar sign that begins no tag is a parameter,
  with the digits behind it.
* Every other mark is a token.
-/

namespace OdbcDriver.NextToken

/-! ### Characters -/

/-- The byte of an ASCII character. -/
def asciiOf : Chr → Option Byte
  | [b] => if b.toNat < 0x80 then some b else none
  | _ => none

/-- An ASCII character of a kind. -/
def isAscii (p : Byte → Bool) (c : Chr) : Bool := (asciiOf c).any p

/-- A character of a word. -/
def isWordChr (c : Chr) : Bool :=
  (asciiOf c).all fun b => b = 0x5f || b = dollarQuote || !(isDelimiter b || isPunct b)

/-- A character of a number. -/
def isNumberChr (c : Chr) : Bool := isAscii (fun b => isAlnum b || b = 0x2e) c

/-- A character of a tag. -/
def isTagChr (c : Chr) : Bool := (asciiOf c).all fun b => isAlnum b || b = 0x5f

/-! ### Readings -/

/-- A token read: its value, the text behind it, and whether a quoted one is closed. -/
structure Reading where
  value : List Chr
  rest : List Chr
  closed : Bool
  deriving DecidableEq, Repr

/-- A character in front of what is read. -/
def Reading.push (c : Chr) (r : Reading) : Reading := { r with value := c :: r.value }

/-- The content of a literal or a quoted identifier, behind its opening quote. -/
def content (q : Byte) (escapes : Bool) : List Chr → Reading
  | [] => ⟨[], [], false⟩
  | c :: t =>
    if c = [q] then
      match t with
      | d :: t' => if d = [q] then .push d (content q escapes t') else ⟨[], d :: t', true⟩
      | [] => ⟨[], [], true⟩
    else if escapes && c = [escapeInLiteral] then
      match t with
      | d :: t' => .push c (.push d (content q escapes t'))
      | [] => ⟨[c], [], false⟩
    else .push c (content q escapes t)

/-- The content of a dollar quote, behind its opening tag. -/
def dollarContent (tag : List Chr) : List Chr → Reading
  | [] => ⟨[], [], false⟩
  | c :: t =>
    if tag <+: c :: t then ⟨[], (c :: t).drop tag.length, true⟩
    else .push c (dollarContent tag t)

/-- The name of the tag of a dollar quote, behind its first dollar sign, if there is one. -/
def tagName (t : List Chr) : Option (List Chr) :=
  let name := t.takeWhile isTagChr
  if name.head?.any (isAscii isDigit) then none
  else if (t.dropWhile isTagChr).head? = some [dollarQuote] then some name
  else none

/-- The kinds of tokens. -/
inductive Kind
  | word
  | number
  | mark
  | literal
  | identifier
  | dollar (name : List Chr)
  | parameter
  deriving DecidableEq, Repr

/-- The kind of the token that begins with `c` and goes on in `t`. -/
def kindOf (c : Chr) (t : List Chr) : Kind :=
  match asciiOf c with
  | none => .word
  | some b =>
    if b = dollarQuote then (tagName t).elim .parameter .dollar
    else if b = literalQuote then .literal
    else if b = identifierQuote then .identifier
    else if isDigit b then .number
    else if isPunct b ∧ b ≠ 0x5f then .mark
    else .word

/-- The tag of a dollar quote. -/
def tagOf (name : List Chr) : List Chr := [dollarQuote] :: name ++ [[dollarQuote]]

/-- The token that begins with `c` and goes on in `t`. -/
def readingOf (escapes : Bool) (c : Chr) (t : List Chr) : Reading :=
  match kindOf c t with
  | .word => ⟨c :: t.takeWhile isWordChr, t.dropWhile isWordChr, true⟩
  | .number => ⟨c :: t.takeWhile isNumberChr, t.dropWhile isNumberChr, true⟩
  | .mark => ⟨[c], t, true⟩
  | .literal => content literalQuote escapes t
  | .identifier => content identifierQuote false t
  | .dollar name => dollarContent (tagOf name) (t.drop (name.length + 1))
  | .parameter =>
    ⟨c :: t.takeWhile (isAscii isDigit), t.dropWhile (isAscii isDigit), true⟩

theorem content_suffix (q : Byte) (escapes : Bool) (t : List Chr) :
    (content q escapes t).rest <:+ t := by
  fun_induction content q escapes t with
  | case1 => exact List.suffix_refl _
  | case2 t ih => exact (ih.trans (List.suffix_cons _ _)).trans (List.suffix_cons _ _)
  | case3 => exact List.suffix_cons _ _
  | case4 => exact List.suffix_cons _ _
  | case5 c hq hescape d t ih =>
    exact (ih.trans (List.suffix_cons _ _)).trans (List.suffix_cons _ _)
  | case6 => exact List.suffix_cons _ _
  | case7 c t hq hescape ih => exact ih.trans (List.suffix_cons _ _)

theorem dollarContent_suffix (tag t : List Chr) : (dollarContent tag t).rest <:+ t := by
  fun_induction dollarContent tag t with
  | case1 => exact List.suffix_refl _
  | case2 => exact List.drop_suffix _ _
  | case3 c t htag ih => exact ih.trans (List.suffix_cons _ _)

theorem readingOf_suffix (escapes : Bool) (c : Chr) (t : List Chr) :
    (readingOf escapes c t).rest <:+ t := by
  rw [readingOf]
  split
  · exact List.dropWhile_suffix _
  · exact List.dropWhile_suffix _
  · exact List.suffix_refl _
  · exact content_suffix _ _ _
  · exact content_suffix _ _ _
  · exact (dollarContent_suffix _ _).trans (List.drop_suffix _ _)
  · exact List.dropWhile_suffix _

/-! ### The tokens of a text -/

/-- A token of a text: the byte in front of it, whether backslashes escape in it, where it begins
and how it goes on. -/
structure Lexeme where
  prev : Option Byte
  escapes : Bool
  first : Chr
  tail : List Chr
  deriving DecidableEq, Repr

namespace Lexeme

def kind (l : Lexeme) : Kind := kindOf l.first l.tail

def reading (l : Lexeme) : Reading := readingOf l.escapes l.first l.tail

/-- The text behind the token and the blanks that follow. -/
def rest (l : Lexeme) : List Chr := l.reading.rest.dropWhile (isAscii isSpace)

/-- The token is the word `E`, with no blank behind it. -/
def introducesEscapes (l : Lexeme) : Bool :=
  l.kind = .word && (l.reading.value = [[literalExt]] || l.reading.value = [[0x65]]) &&
    l.reading.rest = l.rest

end Lexeme

/-- The tokens of `t`, which stands behind the byte `prev`, and behind the word `E` or not. -/
def lexemes (setting : Bool) (prev : Option Byte) (ext : Bool) (t : List Chr) : List Lexeme :=
  match h : t.dropWhile (isAscii isDelimiter) with
  | [] => []
  | c :: t' =>
    let l : Lexeme :=
      ⟨behind prev t.flatten (c :: t').flatten, setting || (ext && decide (c :: t' = t)), c, t'⟩
    l :: lexemes setting (behind prev t.flatten l.rest.flatten) l.introducesEscapes l.rest
termination_by t.length
decreasing_by
  have hdrop : c :: t' <:+ t := h ▸ List.dropWhile_suffix _
  have hrest : l.rest <:+ t' :=
    (List.dropWhile_suffix _).trans (readingOf_suffix _ c t')
  exact Nat.lt_of_le_of_lt hrest.length_le (Nat.lt_of_succ_le hdrop.length_le)

end OdbcDriver.NextToken
