import OdbcDriver.Encoding.NextChar
import OdbcDriver.Lib.Scanf
import OdbcDriver.Param.Types

/-!
# The server's texts of arrays

An array is written between braces with commas between its elements, a vector of object identifiers
with blanks and without braces. An element of characters is put in quotes where it could be
misunderstood, and then a backslash stands in front of its quotes and backslashes. The text is made
of characters: no byte of a longer character is meant.
-/

namespace OdbcDriver.Server

/-! ### Elements in a row -/

/-- What follows an element: the others, each behind a separator, and the end. -/
def follow (sep : Byte) (close : List Byte) (es : List (List Byte)) : List Byte :=
  es.flatMap (sep :: ·) ++ close

/-- The elements, separated, and the end. -/
def joined (sep : Byte) (close : List Byte) : List (List Byte) → List Byte
  | [] => close
  | e :: es => e ++ follow sep close es

/-- `array_out` -/
def arrayOut (es : List (List Byte)) : List Byte := 0x7b :: joined 0x2c [0x7d] es

/-- An object identifier. -/
def oidText (o : Oid) : List Byte := Scanf.digits 1 o.toNat

/-- `oidvectorout` -/
def oidvectorOut (os : List Oid) : List Byte := joined 0x20 [] (os.map oidText)

theorem follow_nil (sep : Byte) (close : List Byte) : follow sep close [] = close := rfl

theorem follow_cons (sep : Byte) (close e : List Byte) (es : List (List Byte)) :
    follow sep close (e :: es) = sep :: joined sep close (e :: es) := by
  simp [follow, joined]

/-! ### Elements of characters -/

/-- A character that an element is quoted for. -/
def isDelimiter : Chr → Bool
  | [b] => isSpace b || b = 0x22 || b = 0x5c || b = 0x7b || b = 0x7d || b = 0x2c
  | _ => false

/-- An element is put in quotes. -/
def needsQuotes (name : List Chr) : Bool :=
  name.isEmpty || stricmp name.flatten (ascii "NULL") || name.any isDelimiter

/-- A character between quotes. -/
def escapedChar (c : Chr) : List Byte := if c = [0x22] ∨ c = [0x5c] then 0x5c :: c else c

/-- An element of an array of characters. -/
def elementText (name : List Chr) : List Byte :=
  if needsQuotes name then 0x22 :: (name.flatMap escapedChar ++ [0x22]) else name.flatten

/-! ### Bytes of characters -/

variable {ccsc : Ccsc}

/-- A low byte is a character of its own wherever it occurs in a text. -/
theorem mem_of_mem_flatten {text : List Chr} (h : WellFormed ccsc text) {x : Byte}
    (hx : x ∈ text.flatten) (hlow : x.toNat < 0x30) : [x] ∈ text := by
  obtain ⟨c, hc, hxc⟩ := List.mem_flatten.mp hx
  match c, h c hc with
  | [a], _ =>
    obtain rfl := List.mem_singleton.mp hxc
    exact hc
  | a :: b :: p, hchar => exact absurd (bytes_of_isChar hchar x hxc) (by omega)

/-- An element without quotes has no delimiters but, inside a longer character, a brace. -/
theorem not_delimiter {name : List Chr} (h : WellFormed ccsc name) (hneeds : needsQuotes name = false)
    {x : Byte} (hx : x ∈ name.flatten) : isSpace x = false ∧ x ≠ 0x22 ∧ x ≠ 0x2c := by
  have hnone : ∀ c ∈ name, isDelimiter c = false := by
    simp only [needsQuotes, Bool.or_eq_false_iff, List.any_eq_false] at hneeds
    exact fun c hc => Bool.eq_false_iff.mpr (hneeds.2 c hc)
  have hnot : isDelimiter [x] = true → ¬x.toNat < 0x30 := fun hdelim hlow =>
    Bool.false_ne_true ((hnone _ (mem_of_mem_flatten h hx hlow)).symm.trans hdelim)
  refine ⟨?_, ?_, ?_⟩
  · by_contra hspace
    rw [Bool.not_eq_false] at hspace
    refine hnot (by simp [isDelimiter, hspace]) ?_
    have hle : x ≤ 0x0d ∨ x = 0x20 := by
      simp only [isSpace, Bool.or_eq_true, Bool.and_eq_true, decide_eq_true_eq] at hspace
      exact hspace.imp_left And.right
    rcases hle with hle | rfl
    · have : x.toNat ≤ 0x0d := hle
      omega
    · decide
  · rintro rfl
    exact hnot rfl (by decide)
  · rintro rfl
    exact hnot rfl (by decide)

end OdbcDriver.Server
