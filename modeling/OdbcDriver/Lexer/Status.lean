import OdbcDriver.Encoding.Multibyte
import OdbcDriver.Param.Literal

/-!
# The status of the lexers

The driver reads a statement with two hand-written lexers, which know the same regions of an
SQL text. A region is one value here, with the data that the code keeps for it: the escape
character of a literal, the tag of a dollar quote, the depth of a comment. The code's flags
and counters take no other combination.
-/

namespace OdbcDriver

def IDENTIFIER_QUOTE : Byte := 0x22
def ODBC_ESCAPE_START : Byte := 0x7b
def ODBC_ESCAPE_END : Byte := 0x7d
def DOLLAR_QUOTE : Byte := 0x24
def ESCAPE_IN_LITERAL : Byte := 0x5c
def QUESTION_MARK : Byte := 0x3f
def SEMICOLON : Byte := 0x3b
def SLASH : Byte := 0x2f
def ASTERISK : Byte := 0x2a
def HYPHEN : Byte := 0x2d
def UNDERSCORE : Byte := 0x5f

/-- `IS_NOT_SPACE`. -/
def IS_NOT_SPACE (c : Byte) : Bool := c ≠ 0 && !isSpace c

/-- Where in a text a lexer is. -/
inductive Status
  /-- plain SQL -/
  | idle
  /-- an identifier, a keyword or a number -/
  | identKeyword
  | dquoteIdentifier
  | literal (escape_in_literal : Byte)
  /-- a literal, behind its escape character -/
  | escape (escape_in_literal : Byte)
  | dollarQuote (dollar_tag : List Byte)
  /-- a block comment inside `level` others -/
  | commentBlock (level : Nat)
  | lineComment
  deriving DecidableEq, Repr

/-- The byte continues an identifier, a keyword or a number. -/
def continuesIdent (c : Byte) : Bool := isAlnum c || c = DOLLAR_QUOTE || c = UNDERSCORE

/-- The loop of `findTag` over what follows the first dollar, of which `pos` bytes have been
read, in the multibyte state `stat`. -/
def findTagLoop (ccsc : Ccsc) : Nat → Nat → List Byte → Nat
  | _, _, [] => 0
  | stat, pos, tchar :: s =>
    if tchar = 0 then 0
    else
      let stat' := nextStat ccsc stat tchar
      if nonAscii stat' tchar then findTagLoop ccsc stat' (pos + 1) s
      else if tchar = DOLLAR_QUOTE then pos + 2
      else if !isAlnum tchar then 0
      else findTagLoop ccsc stat' (pos + 1) s

/-- `findTag`: the length of the dollar-quoted tag that `tag`, which begins with a dollar,
begins with; 0 when there is none. -/
def findTag (tag : List Byte) (ccsc : Ccsc) : Nat := findTagLoop ccsc 0 0 tag.tail

/-- The escape character of a literal that `prev` stands before. -/
def literalEscape (conn : ConnectionClass) (prev : Byte) : Byte :=
  if conn.escape_in_literal ≠ 0 then conn.escape_in_literal
  else if prev = LITERAL_EXT then ESCAPE_IN_LITERAL
  else 0

end OdbcDriver
