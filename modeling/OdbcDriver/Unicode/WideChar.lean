import OdbcDriver.Unicode.WinUnicode

/-!
# Conversions from and to UTF-32

Where `wchar_t` has 32 bits, the driver goes through UTF-32: `ucs4_to_utf8` and `utf8_to_ucs4_lf`,
`ucs4_to_ucs2_lf` and `ucs2_to_ucs4`. The machine is little-endian, as these functions take for
granted. A string is the list of what lies within the length that is given with it. All but the
first write into a buffer of `bufcount` units and go on counting where it is full.
-/

namespace OdbcDriver.Unicode

/-- What has been written of a string: the units counted so far, and those that found room in the
buffer. -/
structure Written (α : Type) where
  ocount : Nat
  buf : List α
  deriving DecidableEq, Repr

/-- Nothing has been written. -/
def Written.empty {α : Type} : Written α := ⟨0, []⟩

/-- `if (ocount < bufcount) buf[ocount] = x; ocount++`. -/
def Written.put {α : Type} (bufcount : Nat) (w : Written α) (x : α) : Written α :=
  ⟨w.ocount + 1, if w.ocount < bufcount then w.buf ++ [x] else w.buf⟩

/-- The same, where an `int` counts. -/
def Written.putInt {α : Type} (bufcount : Nat) (w : Written α) (x : α) :
    Except Fault (Written α) := do
  let outlen ← intAdd w.ocount 1
  return ⟨outlen, if w.ocount < bufcount then w.buf ++ [x] else w.buf⟩

/-- The terminator, where there is room for one. -/
def Written.terminated {α : Type} (bufcount : Nat) (w : Written α) (nul : α) : List α :=
  w.buf ++ if w.ocount < bufcount then [nul] else []

/-! ### UTF-32 to UTF-8 -/

/-- `byte4code`, of a character of four bytes. -/
def byte4code4 (w : BitVec 32) : BitVec 32 :=
  0x808080f0 ||| (0x1c0000 &&& w) >>> 18 ||| (0x3f000 &&& w) >>> 4 ||| (0x0fc0 &&& w) <<< 10 |||
    (0x003f &&& w) <<< 24

/-- The loop of `ucs4_to_utf8` from the index `i` on. -/
def ucs4Utf8Loop (lower_identifier : Bool) (i len : Nat) (utf8str : List Byte) :
    List UInt32 → Except Fault (List Byte)
  | [] => .ok utf8str
  | wstr :: rest => do
    let w := wstr.toBitVec
    if w = 0 then .ok utf8str
    else if w &&& 0xffffff80 = 0 then
      let len ← intAdd len 1
      ucs4Utf8Loop lower_identifier (← intAdd i 1) len
        (utf8str ++ [byteOf (if lower_identifier then tolower w else w) 0]) rest
    else if w &&& 0xfffff800 = 0 then
      let code := byte2code w
      let len ← intAdd len 2
      ucs4Utf8Loop lower_identifier (← intAdd i 1) len
        (utf8str ++ [byteOf code 0, byteOf code 1]) rest
    else if w &&& 0xffff0000 = 0 then
      let code := byte3code w
      let len ← intAdd len 3
      ucs4Utf8Loop lower_identifier (← intAdd i 1) len
        (utf8str ++ [byteOf code 0, byteOf code 1, byteOf code 2]) rest
    else
      let code := byte4code4 w
      let len ← intAdd len 4
      ucs4Utf8Loop lower_identifier (← intAdd i 1) len
        (utf8str ++ [byteOf code 0, byteOf code 1, byteOf code 2, byteOf code 3]) rest

/-- `ucs4_to_utf8`, of a string whose length is given: the text, and its length in `*olen`. It
allocates four bytes for each unit, and one for the terminator. -/
def ucs4_to_utf8 (ucs4str : Option (List UInt32)) (lower_identifier : Bool) :
    Except Fault (Option (List Byte) × Int) :=
  match ucs4str with
  | none => .ok (none, -1)
  | some wstr => do
    let utf8str ← ucs4Utf8Loop lower_identifier 0 0 [] wstr
    return (some utf8str, utf8str.length)

/-! ### UTF-8 to UTF-32 -/

/-- The character of two bytes. -/
def wcode2 (a b : Byte) : UInt32 :=
  (((a.toUInt32 &&& 0x1f) <<< 6) ||| (b.toUInt32 &&& 0x3f)).toUInt16.toUInt32

/-- The character of three bytes. -/
def wcode3 (a b c : Byte) : UInt32 :=
  ((a.toUInt32 &&& 0x0f) <<< 12) ||| ((b.toUInt32 &&& 0x3f) <<< 6) ||| (c.toUInt32 &&& 0x3f)

/-- The character of four bytes. -/
def wcode4 (a b c d : Byte) : UInt32 :=
  ((a.toUInt32 &&& 0x07) <<< 18) ||| ((b.toUInt32 &&& 0x3f) <<< 12) |||
    ((c.toUInt32 &&& 0x3f) <<< 6) ||| (d.toUInt32 &&& 0x3f)

/-- The loop of `utf8_to_ucs4_lf`, from the byte `*str` on; `prev` is `str[-1]`. `none` when it
gives up. `i + 4 > ilen` is that fewer than four bytes are left. -/
def utf8Ucs4Loop (lfconv errcheck : Bool) (bufcount i : Nat) (prev : Option Byte)
    (w : Written UInt32) : List Byte → Except Fault (Option (Written UInt32))
  | [] => .ok (some w)
  | a :: str => do
    if a = 0 then .ok (some w)
    else if a &&& 0x80 = 0 then
      let w := if lfconv ∧ a = 0x0a ∧ prev ≠ some 0x0d then w.put bufcount 0x0d else w
      utf8Ucs4Loop lfconv errcheck bufcount (← intAdd i 1) (some a) (w.put bufcount a.toUInt32) str
    else if 0xf8 = a &&& 0xf8 then .ok none
    else if 0xf0 = a &&& 0xf8 then
      let i ← intAdd i 4
      match str with
      | b :: c :: d :: str =>
        if errcheck ∧ (highClear b ∨ highClear c ∨ highClear d) then .ok none
        else
          utf8Ucs4Loop lfconv errcheck bufcount i (some d) (w.put bufcount (wcode4 a b c d)) str
      | _ => if errcheck then .ok none else .error .outOfBounds
    else if 0xe0 = a &&& 0xf0 then
      let i ← intAdd i 3
      match str with
      | b :: c :: str =>
        if errcheck ∧ (highClear b ∨ highClear c) then .ok none
        else utf8Ucs4Loop lfconv errcheck bufcount i (some c) (w.put bufcount (wcode3 a b c)) str
      | _ => if errcheck then .ok none else .error .outOfBounds
    else if 0xc0 = a &&& 0xe0 then
      let i ← intAdd i 2
      match str with
      | b :: str =>
        if errcheck ∧ highClear b then .ok none
        else utf8Ucs4Loop lfconv errcheck bufcount i (some b) (w.put bufcount (wcode2 a b)) str
      | _ => if errcheck then .ok none else .error .outOfBounds
    else .ok none

/-- What `utf8_to_ucs4_lf` returns, and the string it leaves in a buffer of `bufcount` units. -/
structure Ucs4 where
  rtn : BitVec 64
  ucs4str : List UInt32
  deriving DecidableEq, Repr

/-- `utf8_to_ucs4_lf`, of a string whose length is given. Without a buffer `bufcount` is 0. -/
def utf8_to_ucs4_lf (utf8str : Option (List Byte)) (lfconv : Bool) (bufcount : Nat)
    (errcheck : Bool) : Except Fault Ucs4 :=
  match utf8str with
  | none => .ok ⟨0, []⟩
  | some str => do
    match ← utf8Ucs4Loop lfconv errcheck bufcount 0 none .empty str with
    | none => return ⟨if errcheck then -1 else 0, if 0 < bufcount then [0] else []⟩
    | some w => return ⟨BitVec.ofNat 64 w.ocount, w.terminated bufcount 0⟩

/-! ### UTF-32 to UTF-16 -/

/-- `*((SQLWCHAR *) udt)`. -/
def unitOf (udt0 udt1 : Byte) : UInt16 := udt0.toUInt16 ||| udt1.toUInt16 <<< 8

/-- `sqlwdt[1]`. -/
def upperHalf (uintdt : UInt32) : UInt16 := (uintdt >>> 16).toUInt16

/-- `sqlwdt[0]`. -/
def lowerHalf (uintdt : UInt32) : UInt16 := uintdt.toUInt16

/-- The high surrogate, of what is left when `sqlwdt[1]` has been decremented. -/
def surrogate1 (uintdt : UInt32) : UInt16 :=
  let ucdt := byteOf uintdt.toBitVec
  unitOf ((ucdt 1 &&& 0xfc) >>> 2 ||| (ucdt 2 &&& 0x03) <<< 6) ((ucdt 2 &&& 0x0c) >>> 2 ||| 0xd8)

/-- The low surrogate. -/
def surrogate2 (uintdt : UInt32) : UInt16 :=
  let ucdt := byteOf uintdt.toBitVec
  unitOf (ucdt 0) (ucdt 1 &&& 0x03 ||| 0xdc)

/-- The loop of `ucs4_to_ucs2_lf` from the index `i` on; `prev` is `ucs4str[i - 1]`. Only the lowest
byte of a character is compared with a line feed, and only that of `prev` with a carriage
return. -/
def ucs4Loop (lfconv : Bool) (bufcount i : Nat) (prev : Option UInt32) (w : Written UInt16) :
    List UInt32 → Except Fault (Written UInt16)
  | [] => .ok w
  | uintdt :: ucs4str => do
    if uintdt = 0 then .ok w
    else if upperHalf uintdt = 0 then
      let w ← if lfconv ∧ uintdt.toUInt8 = 0x0a ∧ prev.map UInt32.toUInt8 ≠ some 0x0d then
        w.putInt bufcount 0x0d else pure w
      let w ← w.putInt bufcount (lowerHalf uintdt)
      ucs4Loop lfconv bufcount (← intAdd i 1) (some uintdt) w ucs4str
    else
      let w ← w.putInt bufcount (surrogate1 (uintdt - 0x10000))
      let w ← w.putInt bufcount (surrogate2 (uintdt - 0x10000))
      ucs4Loop lfconv bufcount (← intAdd i 1) (some uintdt) w ucs4str

/-- `ucs4_to_ucs2_lf`, of a string whose length is given: the length it returns, and the string it
leaves in a buffer of `bufcount` units. -/
def ucs4_to_ucs2_lf (ucs4str : List UInt32) (bufcount : Nat) (lfconv : Bool) :
    Except Fault (Int × List UInt16) := do
  let w ← ucs4Loop lfconv bufcount 0 none .empty ucs4str
  return (w.ocount, w.terminated bufcount 0)

/-! ### UTF-16 to UTF-32 -/

/-- `*((unsigned int *) udt)`. -/
def uintOf (udt0 udt1 udt2 : Byte) : UInt32 :=
  udt0.toUInt32 ||| udt1.toUInt32 <<< 8 ||| udt2.toUInt32 <<< 16

/-- `ucdt[1]`, of a code unit. -/
def upperByte (sqlwdt : UInt16) : Byte := (sqlwdt >>> 8).toUInt8

/-- The character of a surrogate pair. -/
def pairOf (hi lo : UInt16) : UInt32 :=
  let ucdt0 := hi.toUInt8
  let ucdt1 := upperByte hi
  let ucdt2 := lo.toUInt8
  let ucdt3 := upperByte lo
  uintOf ucdt2 ((ucdt3 &&& 0x03 : Byte) ||| (ucdt0 &&& 0x3f) <<< 2)
    (((ucdt0 &&& 0xc0) >>> 6 ||| (ucdt1 &&& 0x03) <<< 2) + 1)

/-- The loop of `ucs2_to_ucs4` from the index `i` on. Behind a high surrogate it takes the next unit
for a low one. -/
def ucs2Ucs4Loop (bufcount i : Nat) (w : Written UInt32) :
    List UInt16 → Except Fault (Written UInt32)
  | [] => .ok w
  | sqlwdt :: ucs2str => do
    if sqlwdt = 0 then .ok w
    else if upperByte sqlwdt &&& 0xfc = 0xd8 then
      match ucs2str with
      | [] => .error .outOfBounds
      | low :: ucs2str =>
        let w ← w.putInt bufcount (pairOf sqlwdt low)
        ucs2Ucs4Loop bufcount (← intAdd i 2) w ucs2str
    else
      let w ← w.putInt bufcount (uintOf sqlwdt.toUInt8 (upperByte sqlwdt) 0)
      ucs2Ucs4Loop bufcount (← intAdd i 1) w ucs2str

/-- `ucs2_to_ucs4`, of a string whose length is given: the length it returns, and the string it
leaves in a buffer of `bufcount` units. -/
def ucs2_to_ucs4 (ucs2str : List UInt16) (bufcount : Nat) : Except Fault (Int × List UInt32) := do
  let w ← ucs2Ucs4Loop bufcount 0 .empty ucs2str
  return (w.ocount, w.terminated bufcount 0)

end OdbcDriver.Unicode
