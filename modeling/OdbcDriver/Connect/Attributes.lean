import OdbcDriver.Encoding.Ascii
import OdbcDriver.Lib.CString

/-!
# The attributes of a connection string

A connection string is a list of settings `attribute=value;`. A value in braces may hold any byte,
semicolons included, with its closing braces doubled: `makeBracketConnectString` writes it,
`dconn_get_attributes` finds its end and `decode_or_remove_braces` reads it.

`dconn_get_attributes` cuts the string at the semicolons with `strtok_r`. At a value that starts
with a brace it looks for the brace that closes it, puts back the semicolon at which the value
was cut, and has `strtok_r` start again behind the closing brace.
-/

namespace OdbcDriver.Connect

open CString

/-- `ATTRIBUTE_DELIMITER` -/
def ATTRIBUTE_DELIMITER : Byte := 0x3b

/-- `OPENING_BRACKET` -/
def OPENING_BRACKET : Byte := 0x7b

/-- `CLOSING_BRACKET` -/
def CLOSING_BRACKET : Byte := 0x7d

/-- `=` -/
def EQUALS : Byte := 0x3d

/-! ### Values in braces -/

/-- The closing braces of a value doubled. -/
def doubleBrackets : List Byte → List Byte
  | [] => []
  | b :: s => if b = CLOSING_BRACKET then b :: b :: doubleBrackets s else b :: doubleBrackets s

/-- A value in braces. -/
def bracket (value : List Byte) : List Byte :=
  OPENING_BRACKET :: doubleBrackets value ++ [CLOSING_BRACKET]

/-- `makeBracketConnectString`: an item that is empty is not written. -/
def makeBracketConnectString (item optname : List Byte) : List Byte :=
  if item.isEmpty then []
  else optname ++ EQUALS :: bracket item ++ [ATTRIBUTE_DELIMITER]

/-- The loop of `decode_or_remove_braces`, from behind the opening brace to the closing one. -/
def removeBraces : List Byte → List Byte
  | [] => []
  | [_] => []
  | a :: b :: s =>
    if a = CLOSING_BRACKET ∧ b = CLOSING_BRACKET then b :: removeBraces s
    else a :: removeBraces (b :: s)

/-- The value of a digit in `conv_from_hex`. -/
def hexDigit (b : Byte) : Int :=
  if 0x61 ≤ b ∧ b ≤ 0x66 then b.toNat - 0x61 + 10
  else if 0x41 ≤ b ∧ b ≤ 0x46 then b.toNat - 0x41 + 10
  else (if b < 0x80 then (b.toNat : Int) else b.toNat - 256) - 0x30

/-- `conv_from_hex` of the two bytes after a percent sign, as `%c` prints it. -/
def conv_from_hex (a b : Byte) : Byte := UInt8.ofInt (hexDigit a * 16 + hexDigit b)

/-- The loop of `decode`. The terminator may count as a digit, and so may what lies behind it,
which is taken for a terminator too. -/
def decodeBytes : List Byte → List Byte
  | [] => []
  | [0x25] => [conv_from_hex 0 0]
  | [0x25, a] => [conv_from_hex a 0]
  | 0x25 :: a :: b :: s => conv_from_hex a b :: decodeBytes s
  | b :: s => (if b = 0x2b then 0x20 else b) :: decodeBytes s

/-- `decode`: the name ends with a terminator that has been decoded. -/
def decode (value : List Byte) : List Byte := (decodeBytes value).takeWhile (· ≠ 0)

/-- `decode_or_remove_braces` -/
def decode_or_remove_braces (value : List Byte) : List Byte :=
  if value.head? = some OPENING_BRACKET ∧ value.getLast? = some CLOSING_BRACKET then
    removeBraces value.tail
  else decode value

/-! ### Reading the string -/

/-- How the search for the closing brace ends. -/
structure Closing where
  buf : List Byte
  /-- Where `strtok_r` is to start again. -/
  strtok_arg : Option Nat
  eoftok : Bool
  ret : Bool

/-- The search for the closing brace, from `valuen`, where `closep` is the next closing brace if
there is one before a terminator, and `delp` the semicolon that has been overwritten. -/
def closingBracket (termp : Nat) :
    Nat → List Byte → Nat → Option Nat → Option Nat → Except Fault Closing
  | 0, _, _, _, _ => .error .fuel
  | fuel + 1, buf, valuen, closep, delp =>
    if termp ≤ valuen then .ok ⟨buf, none, false, true⟩
    else do
      let found ← match closep, delp with
        | some k, _ => pure (some (buf, k, delp))
        | none, none => pure none
        | none, some d => do
          match ← strchr buf (d + 1) CLOSING_BRACKET with
          | none => pure none
          | some k => pure (some (buf.set d ATTRIBUTE_DELIMITER, k, none))
      match found with
      | none => return ⟨buf, none, false, false⟩
      | some (buf, k, delp) =>
        let next ← read buf (k + 1)
        if next = CLOSING_BRACKET then
          if termp ≤ k + 2 then return ⟨buf, none, false, true⟩
          else
            let (buf, delp) := if delp = some (k + 2) then
                (buf.set (k + 2) ATTRIBUTE_DELIMITER, none) else (buf, delp)
            let closep ← strchr buf (k + 2) CLOSING_BRACKET
            closingBracket termp fuel buf (k + 2) closep delp
        else if next = ATTRIBUTE_DELIMITER ∨ next = 0 ∨ delp = some (k + 1) then
          return ⟨buf.set (k + 1) 0, some (k + 2), decide (termp ≤ k + 3), true⟩
        else return ⟨buf, none, false, false⟩

variable {σ : Type}

/-- The loop of `dconn_get_attributes`. A setter may use the strings it is given up, not what lies
around them. -/
def getAttributes (func : σ → List Byte → List Byte → σ) (termp : Nat) :
    Nat → List Byte → Option Nat → Nat → σ → Except Fault (Bool × σ)
  | 0, _, _, _, _ => .error .fuel
  | fuel + 1, buf, strtok_arg, last, ci =>
    if strtok_arg.any (termp ≤ ·) then .ok (true, ci)
    else do
      let (pair, buf, last) ← strtok_r buf (strtok_arg.getD last) ATTRIBUTE_DELIMITER
      match pair with
      | none => return (true, ci)
      | some attr =>
        match ← strchr buf attr EQUALS with
        | none => getAttributes func termp fuel buf none last ci
        | some equals =>
          let buf := buf.set equals 0
          let value := equals + 1
          let set (buf : List Byte) := func ci (text buf attr) (text buf value)
          if (← read buf value) = OPENING_BRACKET then
            match ← strchr buf value 0 with
            | none => return (true, ci)
            | some delp =>
              if termp ≤ delp then return (true, set buf)
              else
                let closep ← strchr buf value CLOSING_BRACKET
                let next ← closep.mapM fun k => read buf (k + 1)
                if next = some 0 then getAttributes func termp fuel buf none last (set buf)
                else
                  let r ← closingBracket termp (termp + 1) buf value closep (some delp)
                  if !r.ret then return (false, ci)
                  else if r.eoftok then return (true, set r.buf)
                  else getAttributes func termp fuel r.buf r.strtok_arg last (set r.buf)
          else getAttributes func termp fuel buf none last (set buf)

/-- `dconn_get_attributes` -/
def dconn_get_attributes (func : σ → List Byte → List Byte → σ) (connect_string : List Byte)
    (ci : σ) : Except Fault (Bool × σ) :=
  getAttributes func connect_string.length (connect_string.length + 1) (connect_string ++ [0])
    (some 0) 0 ci

end OdbcDriver.Connect
