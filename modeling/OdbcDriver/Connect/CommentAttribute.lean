import OdbcDriver.Encoding.Ascii

/-!
# An attribute in a comment

`extract_extra_attribute_setting` looks through the comments of a setting for `attribute=value` or
`attribute='value'` and returns the last value. The loop goes over the bytes once; where it is, in a
quote, in a comment or in one of the steps of an attribute, is kept in flags.

The pointers of the loop are known here by the text that lies behind them, up to the terminator.
-/

namespace OdbcDriver.CommentAttribute

/-! ### The loop -/

/-- `LITERAL_QUOTE`. -/
def literalQuote : Byte := 0x27

/-- The comment is closed here: `*/`. -/
def closes (cptr : List Byte) : Bool := cptr.take 2 = [0x2a, 0x2f]

/-- A comment is opened here. -/
def opens (cptr : List Byte) : Bool := cptr.take 2 = [0x2f, 0x2a]

/-- `';' == *cptr || isspace(*cptr)`. -/
def separates (c : Byte) : Bool := c = 0x3b || isSpace c

/-- The attribute stands here, with its equals sign. -/
def names (attr cptr : List Byte) : Bool :=
  stricmp (cptr.take attr.length) attr && cptr[attr.length]? = some 0x3d

/-- What the loop keeps. -/
structure Scan where
  in_quote : Bool
  in_comment : Bool
  allowed_cmd : Bool
  /-- 0 before the attribute, 1 behind its equals sign, 2 in its value. -/
  step : Nat
  /-- The text from the value on. -/
  sptr : Option (List Byte)
  len : Nat
  deriving DecidableEq, Repr

/-- `if (step_last == step) { len = cptr - sptr; step = 0; }` -/
def Scan.close (s : Scan) (cptr : List Byte) : Scan :=
  if s.step = 2 then { s with len := (s.sptr.getD []).length - cptr.length, step := 0 } else s

/-- A turn of the loop at the byte `c`: what it keeps, and by how much it moves `cptr` itself. -/
def turn (attr : List Byte) (s : Scan) (c : Byte) (rest : List Byte) : Scan × Nat :=
  let cptr := c :: rest
  if s.in_quote then
    if c = literalQuote then ({ s.close cptr with in_quote := false }, 0) else (s, 0)
  else if s.in_comment then
    if closes cptr then ({ s.close cptr with in_comment := false, allowed_cmd := false }, 1)
    else if separates c then ({ s.close cptr with allowed_cmd := true, step := 0 }, 0)
    else if !s.allowed_cmd then (s, 0)
    else
      match s.step with
      | 0 =>
        if names attr cptr then ({ s with step := 1 }, attr.length)
        else ({ s with allowed_cmd := false }, 0)
      | 1 =>
        if c = literalQuote then ({ s with in_quote := true, sptr := some rest, step := 2 }, 1)
        else ({ s with sptr := some cptr, step := 2 }, 0)
      | _ => (s, 0)
  else if opens cptr then ({ s with in_comment := true, allowed_cmd := true }, 1)
  else if c = literalQuote then ({ s with in_quote := true }, 0)
  else (s, 0)

/-- The loop over the text from `cptr` on; `none` where it reads behind the terminator. -/
def scan (attr : List Byte) (s : Scan) : List Byte → Option Scan
  | [] => some s
  | c :: rest =>
    let (s, moved) := turn attr s c rest
    -- the head of the loop moves `cptr` by one more
    if moved ≤ rest.length then scan attr s (rest.drop moved) else none
  termination_by cptr => cptr.length
  decreasing_by simp only [List.length_drop, List.length_cons]; omega

/-- What the loop keeps before the first byte. -/
def Scan.start : Scan := ⟨false, false, false, 0, none, 0⟩

/-- `extract_extra_attribute_setting`: the value, if there is one. The outer `none` is a read
outside of the text and its terminator. -/
def extract_extra_attribute_setting (setting : Option (List Byte)) (attr : List Byte) :
    Option (Option (List Byte)) := do
  let s ← scan attr .start (setting.getD [])
  match s.sptr with
  | none => return none
  | some sptr => if s.len ≤ sptr.length + 1 then return some (sptr.take s.len) else none

end OdbcDriver.CommentAttribute
