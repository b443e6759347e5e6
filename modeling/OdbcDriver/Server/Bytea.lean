import OdbcDriver.Encoding.Ascii

/-!
# The server's binary values

The texts in which the server sends a binary value, and the texts it reads one from. The output
format is `escape` or `hex`; the types `raw`, `long raw` and `blob` are sent as hexadecimal digits
alone. On input a text that begins with `\x` is a hexadecimal one, whatever the setting.
-/

namespace OdbcDriver.Server

/-! ### Output -/

/-- An octal digit. -/
def octalDigit (v : Byte) : Byte := 0x30 + v % 8

/-- A backslash and three octal digits. -/
def octalEscape (x : Byte) : List Byte :=
  [0x5c, octalDigit (x / 64), octalDigit (x / 8), octalDigit x]

/-- One byte in the `escape` format. -/
def escapeByte (x : Byte) : List Byte :=
  if x = 0x5c then [0x5c, 0x5c]
  else if x < 0x20 ∨ 0x7e < x then octalEscape x
  else [x]

/-- The `escape` format. -/
def escapeOut (b : List Byte) : List Byte := b.flatMap escapeByte

/-- A hexadecimal digit, of which the letters begin at `ten`. -/
def hexDigit (ten : Byte) (v : Byte) : Byte := if v < 10 then 0x30 + v else ten + (v - 10)

/-- The hexadecimal digits of a value. -/
def hexDigits (ten : Byte) (b : List Byte) : List Byte :=
  b.flatMap fun x => [hexDigit ten (x / 16), hexDigit ten (x % 16)]

/-- The `hex` format. -/
def hexOut (b : List Byte) : List Byte := 0x5c :: 0x78 :: hexDigits 0x61 b

/-- The text of a `raw` value. -/
def rawOut (b : List Byte) : List Byte := hexDigits 0x41 b

/-! ### Input -/

/-- The value of a hexadecimal digit. -/
def hexValue (c : Byte) : Option Byte :=
  if 0x30 ≤ c ∧ c ≤ 0x39 then some (c - 0x30)
  else if 0x41 ≤ c ∧ c ≤ 0x46 then some (c - 0x41 + 10)
  else if 0x61 ≤ c ∧ c ≤ 0x66 then some (c - 0x61 + 10)
  else none

/-- The bytes of a hexadecimal text. White space may stand between them. -/
def hexIn : List Byte → Option (List Byte)
  | [] => some []
  | c :: text =>
    if c = 0x20 ∨ c = 0x0a ∨ c = 0x09 ∨ c = 0x0d then hexIn text
    else
      match text with
      | [] => none
      | d :: text => do
        let hi ← hexValue c
        let lo ← hexValue d
        return (16 * hi + lo) :: (← hexIn text)

/-- An octal digit up to `last`. -/
def isOctal (last : Byte) (c : Byte) : Bool := 0x30 ≤ c && c ≤ last

/-- The bytes of a text with escapes: a backslash stands before another one, or before three octal
digits. -/
def escapeIn : List Byte → Option (List Byte)
  | [] => some []
  | c :: text =>
    if c ≠ 0x5c then (escapeIn text).map (c :: ·)
    else
      match text with
      | d :: text =>
        if d = 0x5c then (escapeIn text).map (d :: ·)
        else
          match text with
          | e :: f :: text =>
            if isOctal 0x33 d && isOctal 0x37 e && isOctal 0x37 f then
              (escapeIn text).map ((64 * (d - 0x30) + 8 * (e - 0x30) + (f - 0x30)) :: ·)
            else none
          | _ => none
      | [] => none

/-- The value of a text. -/
def byteain (text : List Byte) : Option (List Byte) :=
  if text.take 2 = [0x5c, 0x78] then hexIn (text.drop 2) else escapeIn text

/-! ### Digits -/

/-- What holds of the first 256 numbers holds of every byte. -/
theorem byte_all {P : Byte → Prop} (h : ∀ n < 256, P (UInt8.ofNat n)) (x : Byte) : P x := by
  have hx := h x.toNat x.toNat_lt
  rwa [UInt8.ofNat_toNat] at hx

/-- The same for every byte of a text that is made from one byte. -/
theorem bytes_all {L : Byte → List Byte} {p : Byte → Prop} [DecidablePred p]
    (h : ∀ n < 256, (L (UInt8.ofNat n)).all (fun c => decide (p c)) = true) (x : Byte) :
    ∀ c ∈ L x, p c := by
  have hx := byte_all (P := fun x => (L x).all (fun c => decide (p c)) = true) h x
  simpa using hx

/-- What holds of the eight octal digits. -/
theorem octalDigit_all {p : Byte → Prop} (h : ∀ n < 8, p (0x30 + UInt8.ofNat n)) (v : Byte) :
    p (octalDigit v) := by
  have hlow : v % 8 = UInt8.ofNat (v.toNat % 8) := by
    rw [← UInt8.ofNat_toNat (x := v % 8), UInt8.toNat_mod]
    rfl
  rw [octalDigit, hlow]
  exact h _ (Nat.mod_lt _ (by decide))

/-- What holds of the first sixteen numbers holds of both halves of every byte. -/
theorem nibble_all {P : Byte → Prop} (h : ∀ n < 16, P (UInt8.ofNat n)) (x : Byte) :
    P (x / 16) ∧ P (x % 16) := by
  have hx := x.toNat_lt
  have hhi : x / 16 = UInt8.ofNat (x.toNat / 16) := by
    rw [← UInt8.ofNat_toNat (x := x / 16), UInt8.toNat_div]
    rfl
  have hlo : x % 16 = UInt8.ofNat (x.toNat % 16) := by
    rw [← UInt8.ofNat_toNat (x := x % 16), UInt8.toNat_mod]
    rfl
  rw [hhi, hlo]
  exact ⟨h _ (by omega), h _ (Nat.mod_lt _ (by decide))⟩

/-- The two halves of a byte. -/
theorem add_halves (x : Byte) : 16 * (x / 16) + x % 16 = x := by
  refine UInt8.toNat_inj.mp ?_
  have hx := x.toNat_lt
  rw [UInt8.toNat_add, UInt8.toNat_mul, UInt8.toNat_div, UInt8.toNat_mod]
  change (16 * (x.toNat / 16) % 2 ^ 8 + x.toNat % 16) % 2 ^ 8 = _
  omega

theorem hexIn_digits_upper (b : List Byte) : hexIn (hexDigits 0x41 b) = some b := by
  have hdigit : ∀ n < 16, (hexDigit 0x41 (UInt8.ofNat n) ≠ 0x20 ∧
      hexDigit 0x41 (UInt8.ofNat n) ≠ 0x0a ∧ hexDigit 0x41 (UInt8.ofNat n) ≠ 0x09 ∧
        hexDigit 0x41 (UInt8.ofNat n) ≠ 0x0d) ∧
      hexValue (hexDigit 0x41 (UInt8.ofNat n)) = some (UInt8.ofNat n) := by decide
  have hpair : ∀ x : Byte,
      (hexDigit 0x41 (x / 16) ≠ 0x20 ∧ hexDigit 0x41 (x / 16) ≠ 0x0a ∧
        hexDigit 0x41 (x / 16) ≠ 0x09 ∧ hexDigit 0x41 (x / 16) ≠ 0x0d) ∧
      hexValue (hexDigit 0x41 (x / 16)) = some (x / 16) ∧
      hexValue (hexDigit 0x41 (x % 16)) = some (x % 16) ∧ 16 * (x / 16) + x % 16 = x := by
    intro x
    obtain ⟨hhi, hlo⟩ := nibble_all (P := fun v => (hexDigit 0x41 v ≠ 0x20 ∧
      hexDigit 0x41 v ≠ 0x0a ∧ hexDigit 0x41 v ≠ 0x09 ∧ hexDigit 0x41 v ≠ 0x0d) ∧
        hexValue (hexDigit 0x41 v) = some v) hdigit x
    exact ⟨hhi.1, hhi.2, hlo.2, add_halves x⟩
  induction b with
  | nil => rfl
  | cons x b ih =>
    obtain ⟨⟨h1, h2, h3, h4⟩, hhi, hlo, hx⟩ := hpair x
    change hexIn (hexDigit 0x41 (x / 16) :: hexDigit 0x41 (x % 16) :: hexDigits 0x41 b) = _
    rw [hexIn, if_neg (by simp [h1, h2, h3, h4]), hhi, hlo, ih]
    simp [hx]

theorem escapeIn_octal (x : Byte) (text : List Byte) :
    escapeIn (octalEscape x ++ text) = (escapeIn text).map (x :: ·) := by
  have hdigits : ∀ x : Byte, octalDigit (x / 64) ≠ 0x5c ∧
      (isOctal 0x33 (octalDigit (x / 64)) && isOctal 0x37 (octalDigit (x / 8)) &&
        isOctal 0x37 (octalDigit x)) = true ∧
      64 * (octalDigit (x / 64) - 0x30) + 8 * (octalDigit (x / 8) - 0x30) +
        (octalDigit x - 0x30) = x :=
    byte_all (by decide +kernel)
  obtain ⟨hne, hoctal, hx⟩ := hdigits x
  change escapeIn (0x5c :: octalDigit (x / 64) :: octalDigit (x / 8) :: octalDigit x :: text) = _
  rw [escapeIn, if_neg (by decide)]
  simp only [if_neg hne, hoctal, if_true, hx]

theorem escapeIn_plain {x : Byte} (hx : x ≠ 0x5c) (text : List Byte) :
    escapeIn (x :: text) = (escapeIn text).map (x :: ·) := by
  rw [escapeIn.eq_def]
  exact if_pos hx

end OdbcDriver.Server
