import OdbcDriver.Encoding.Ascii

/-!
# Conversions between UTF-16 and UTF-8

`ucs2_to_utf8` and `utf8_to_ucs2_lf` are how the wide-character entry points of the driver reach
the others. A string is the list of what lies within the length that is given with it. Both
functions count in an `int`, also where the length is wider.
-/

namespace OdbcDriver.Unicode

/-- What C leaves undefined. -/
inductive Fault
  /-- An `int` passes `INT_MAX`. -/
  | overflow
  /-- A read behind the length that is given. -/
  | outOfBounds
  deriving DecidableEq, Repr

/-- `i + k` in an `int`. -/
def intAdd (i k : Nat) : Except Fault Nat :=
  if i + k < 2 ^ 31 then .ok (i + k) else .error .overflow

/-! ### UTF-16 to UTF-8 -/

/-- A byte of an integer, counted from the least significant one: `memcpy` on a little-endian
machine, and what the other branch does on a big-endian one. -/
def byteOf (code : BitVec 32) (k : Nat) : Byte := ⟨code.extractLsb' (8 * k) 8⟩

/-- `tolower`, of an ASCII letter. -/
def tolower (c : BitVec 32) : BitVec 32 := if 0x41 ≤ c ∧ c ≤ 0x5a then c + 0x20 else c

/-- `byte2code`. -/
def byte2code (w : BitVec 32) : BitVec 32 :=
  0x80c0 ||| (0x07c0 &&& w) >>> 6 ||| (0x003f &&& w) <<< 8

/-- `byte4code`, of a code unit of its own. -/
def byte3code (w : BitVec 32) : BitVec 32 :=
  0x8080e0 ||| (0xf000 &&& w) >>> 12 ||| (0x0fc0 &&& w) <<< 2 ||| (0x003f &&& w) <<< 16

/-- `byte4code`, of the two halves of a surrogate pair. -/
def byte4code (surrd1 surrd2 : BitVec 32) : BitVec 32 :=
  0x808080f0 ||| (0x0700 &&& surrd1) >>> 8 ||| (0x00fc &&& surrd1) <<< 6 |||
    (0x0003 &&& surrd1) <<< 20 ||| (0x03c0 &&& surrd2) <<< 10 ||| (0x003f &&& surrd2) <<< 24

/-- `surrog_check`. -/
def surrogCheck (w : BitVec 32) : BitVec 32 := w &&& 0xfc00

/-- `& ~surrog_check`. -/
def surrogRest (w : BitVec 32) : BitVec 32 := w &&& ~~~0xfc00#32

/-- `surrogate_adjust`. -/
def surrogateAdjust : BitVec 32 := 0x10000 >>> 10

/-- The loop of `ucs2_to_utf8`; `none` when a high surrogate has no low one behind it. -/
def ucs2Loop (lower_identifier : Bool) (len : Nat) (utf8str : List Byte) :
    List UInt16 → Except Fault (Option (List Byte))
  | [] => .ok (some utf8str)
  | c :: wstr => do
    let w := c.toBitVec.setWidth 32
    if w = 0 then .ok (some utf8str)
    else if w &&& 0xffffff80 = 0 then
      ucs2Loop lower_identifier (← intAdd len 1)
        (utf8str ++ [byteOf (if lower_identifier then tolower w else w) 0]) wstr
    else if w &&& 0xfffff800 = 0 then
      let code := byte2code w
      ucs2Loop lower_identifier (← intAdd len 2) (utf8str ++ [byteOf code 0, byteOf code 1]) wstr
    else if surrogCheck w = 0xd800 then
      match wstr with
      | [] => .ok none
      | c' :: wstr =>
        let w' := c'.toBitVec.setWidth 32
        if surrogCheck w' ≠ 0xdc00 then .ok none
        else
          let code := byte4code (surrogRest w + surrogateAdjust) (surrogRest w')
          ucs2Loop lower_identifier (← intAdd len 4)
            (utf8str ++ [byteOf code 0, byteOf code 1, byteOf code 2, byteOf code 3]) wstr
    else
      let code := byte3code w
      ucs2Loop lower_identifier (← intAdd len 3)
        (utf8str ++ [byteOf code 0, byteOf code 1, byteOf code 2]) wstr

/-- `ucs2_to_utf8`, of a string whose length is given: the text, and its length in `*olen`; without
a text `*olen` is `SQL_NULL_DATA` or `SQL_ERROR`, which are both -1. -/
def ucs2_to_utf8 (ucs2str : Option (List UInt16)) (lower_identifier : Bool) :
    Except Fault (Option (List Byte) × Int) :=
  match ucs2str with
  | none => .ok (none, -1)
  | some wstr => do
    match ← ucs2Loop lower_identifier 0 [] wstr with
    | none => return (none, -1)
    | some utf8str => return (some utf8str, utf8str.length)

/-! ### UTF-8 to UTF-16 -/

/-- The code unit of two bytes. -/
def wide2 (a b : Byte) : UInt16 :=
  let a := a.toBitVec.setWidth 32
  let b := b.toBitVec.setWidth 32
  ⟨((a &&& 0x1f) <<< 6 ||| (b &&& 0x3f)).setWidth 16⟩

/-- The code unit of three bytes. -/
def wide3 (a b c : Byte) : UInt16 :=
  let a := a.toBitVec.setWidth 32
  let b := b.toBitVec.setWidth 32
  let c := c.toBitVec.setWidth 32
  ⟨((a &&& 0x0f) <<< 12 ||| (b &&& 0x3f) <<< 6 ||| (c &&& 0x3f)).setWidth 16⟩

/-- The high surrogate of four bytes. -/
def wide4Hi (a b c : Byte) : UInt16 :=
  let a := a.toBitVec.setWidth 32
  let b := b.toBitVec.setWidth 32
  let c := c.toBitVec.setWidth 32
  ⟨((0xd800 ||| (a &&& 0x07) <<< 8 ||| (b &&& 0x3f) <<< 2 ||| (c &&& 0x30) >>> 4) -
    surrogateAdjust).setWidth 16⟩

/-- The low surrogate of four bytes. -/
def wide4Lo (c d : Byte) : UInt16 :=
  let c := c.toBitVec.setWidth 32
  let d := d.toBitVec.setWidth 32
  ⟨(0xdc00 ||| (c &&& 0x0f) <<< 6 ||| (d &&& 0x3f)).setWidth 16⟩

/-- The first bit of a byte is clear, so that it continues no character. -/
def highClear (b : Byte) : Bool := b &&& 0x80 = 0

/-- The loop of `utf8_to_ucs2_lf`, from the byte `*str` on; `prev` is `str[-1]`. `none` when it
gives up. `i + 4 > ilen` is that fewer than four bytes are left. -/
def utf8Loop (lfconv errcheck : Bool) (i : Nat) (prev : Option Byte) (out : List UInt16) :
    List Byte → Except Fault (Option (List UInt16))
  | [] => .ok (some out)
  | a :: str => do
    if a = 0 then .ok (some out)
    else if a &&& 0x80 = 0 then
      let lf := if lfconv ∧ a = 0x0a ∧ prev ≠ some 0x0d then [0x0d] else []
      utf8Loop lfconv errcheck (← intAdd i 1) (some a) (out ++ lf ++ [a.toUInt16]) str
    else if 0xf8 = a &&& 0xf8 then .ok none
    else if 0xf0 = a &&& 0xf8 then
      let i ← intAdd i 4
      match str with
      | b :: c :: d :: str =>
        if errcheck ∧ (highClear b ∨ highClear c ∨ highClear d) then .ok none
        else utf8Loop lfconv errcheck i (some d) (out ++ [wide4Hi a b c, wide4Lo c d]) str
      | _ => if errcheck then .ok none else .error .outOfBounds
    else if 0xe0 = a &&& 0xf0 then
      let i ← intAdd i 3
      match str with
      | b :: c :: str =>
        if errcheck ∧ (highClear b ∨ highClear c) then .ok none
        else utf8Loop lfconv errcheck i (some c) (out ++ [wide3 a b c]) str
      | _ => if errcheck then .ok none else .error .outOfBounds
    else if 0xc0 = a &&& 0xe0 then
      let i ← intAdd i 2
      match str with
      | b :: str =>
        if errcheck ∧ highClear b then .ok none
        else utf8Loop lfconv errcheck i (some b) (out ++ [wide2 a b]) str
      | _ => if errcheck then .ok none else .error .outOfBounds
    else .ok none

/-- What `utf8_to_ucs2_lf` returns, and the string it leaves in a buffer of `bufcount` units. -/
structure Ucs2 where
  rtn : BitVec 64
  ucs2str : List UInt16
  deriving DecidableEq, Repr

/-- `utf8_to_ucs2_lf`, of a string whose length is given. Without a buffer `bufcount` is 0. -/
def utf8_to_ucs2_lf (utf8str : Option (List Byte)) (lfconv : Bool) (bufcount : Nat)
    (errcheck : Bool) : Except Fault Ucs2 :=
  match utf8str with
  | none => .ok ⟨0, []⟩
  | some str => do
    match ← utf8Loop lfconv errcheck 0 none [] str with
    | none => return ⟨if errcheck then -1 else 0, if 0 < bufcount then [0] else []⟩
    | some out =>
      return ⟨BitVec.ofNat 64 out.length,
        out.take bufcount ++ if out.length < bufcount then [0] else []⟩

end OdbcDriver.Unicode
