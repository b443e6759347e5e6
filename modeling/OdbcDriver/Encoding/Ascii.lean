import Mathlib.Data.List.Basic
import Mathlib.Data.UInt

/-!
# Bytes and the C locale

Texts and values are byte strings. The character classes are those of `<ctype.h>` in the C
locale, which is where the driver's lexer and its conversions run.
-/

namespace OdbcDriver

/-- A byte of a text or of a value (`UCHAR`). -/
abbrev Byte := UInt8

/-- The bytes of an ASCII text. -/
def ascii (s : String) : List Byte := s.toList.map fun c => c.toNat.toUInt8

/-- `isdigit`. -/
def isDigit (c : Byte) : Bool := 0x30 ≤ c && c ≤ 0x39

/-- `isalnum`. -/
def isAlnum (c : Byte) : Bool :=
  isDigit c || (0x41 ≤ c && c ≤ 0x5a) || (0x61 ≤ c && c ≤ 0x7a)

/-- `isspace`. -/
def isSpace (c : Byte) : Bool := (0x09 ≤ c && c ≤ 0x0d) || c = 0x20

/-- `tolower`. -/
def tolower (b : Byte) : Byte := if 0x41 ≤ b ∧ b ≤ 0x5a then b + 0x20 else b

/-- `stricmp` finds no difference. -/
def stricmp (a b : List Byte) : Bool := decide (a.map tolower = b.map tolower)

end OdbcDriver
