import Mathlib.Data.List.Basic
import Mathlib.Tactic.IntervalCases

/-!
# Unicode encoding forms

Characters are Unicode scalar values, and a byte string is well-formed UTF-8 when it is what
`String.utf8EncodeChar` writes for some characters. UTF-16 is defined here in the same way, and a
string of code units is well formed exactly when its surrogates come in pairs.
-/

namespace OdbcDriver.Lib

/-- The bytes of some characters. -/
def utf8Encode (cs : List Char) : List UInt8 := cs.flatMap String.utf8EncodeChar

/-- Well-formed UTF-8: shortest forms of scalar values, and nothing else. -/
def WellFormedUtf8 (bytes : List UInt8) : Prop := ∃ cs, bytes = utf8Encode cs

/-- The code units of a character. -/
def utf16EncodeChar (c : Char) : List UInt16 :=
  if c.toNat < 0x10000 then [UInt16.ofNat c.toNat]
  else [UInt16.ofNat (0xd800 + (c.toNat - 0x10000) / 0x400),
    UInt16.ofNat (0xdc00 + (c.toNat - 0x10000) % 0x400)]

/-- The code units of some characters. -/
def utf16Encode (cs : List Char) : List UInt16 := cs.flatMap utf16EncodeChar

@[simp] theorem utf8Encode_nil : utf8Encode [] = [] := rfl

@[simp] theorem utf8Encode_cons (c : Char) (cs : List Char) :
    utf8Encode (c :: cs) = String.utf8EncodeChar c ++ utf8Encode cs := rfl

@[simp] theorem utf16Encode_nil : utf16Encode [] = [] := rfl

@[simp] theorem utf16Encode_cons (c : Char) (cs : List Char) :
    utf16Encode (c :: cs) = utf16EncodeChar c ++ utf16Encode cs := rfl

theorem utf8Encode_append (cs ds : List Char) :
    utf8Encode (cs ++ ds) = utf8Encode cs ++ utf8Encode ds := List.flatMap_append

theorem length_utf8Encode (cs : List Char) :
    (utf8Encode cs).length = (cs.map Char.utf8Size).sum := by
  induction cs with
  | nil => rfl
  | cons c cs ih => simp [ih]

/-! ### Surrogate pairs -/

/-- A high, or leading, surrogate. -/
def IsHigh (u : UInt16) : Prop := 0xd800 ≤ u.toNat ∧ u.toNat < 0xdc00

/-- A low, or trailing, surrogate. -/
def IsLow (u : UInt16) : Prop := 0xdc00 ≤ u.toNat ∧ u.toNat < 0xe000

instance (u : UInt16) : Decidable (IsHigh u) := inferInstanceAs (Decidable (_ ∧ _))

instance (u : UInt16) : Decidable (IsLow u) := inferInstanceAs (Decidable (_ ∧ _))

/-- Every high surrogate is followed by a low one, and no low one stands alone. -/
inductive Paired : List UInt16 → Prop
  | nil : Paired []
  | unit {u : UInt16} {us : List UInt16} (hhigh : ¬ IsHigh u) (hlow : ¬ IsLow u)
      (h : Paired us) : Paired (u :: us)
  | pair {u v : UInt16} {us : List UInt16} (hhigh : IsHigh u) (hlow : IsLow v)
      (h : Paired us) : Paired (u :: v :: us)

/-- The character of a code unit that is no surrogate. -/
theorem exists_char_of_unit {u : UInt16} (hhigh : ¬ IsHigh u) (hlow : ¬ IsLow u) :
    ∃ c : Char, utf16EncodeChar c = [u] := by
  rw [IsHigh] at hhigh
  rw [IsLow] at hlow
  have hlt := u.toNat_lt
  have hvalid : u.toNat.isValidChar := by
    rw [Nat.isValidChar]
    omega
  refine ⟨Char.ofNat u.toNat, ?_⟩
  have hnat : (Char.ofNat u.toNat).toNat = u.toNat := by
    rw [Char.ofNat, dif_pos hvalid]
    rfl
  rw [utf16EncodeChar, hnat, if_pos (by omega), UInt16.ofNat_toNat]

/-- The character of a surrogate pair. -/
theorem exists_char_of_pair {u v : UInt16} (hhigh : IsHigh u) (hlow : IsLow v) :
    ∃ c : Char, utf16EncodeChar c = [u, v] := by
  rw [IsHigh] at hhigh
  rw [IsLow] at hlow
  have hvalid : (0x10000 + (u.toNat - 0xd800) * 0x400 + (v.toNat - 0xdc00)).isValidChar := by
    rw [Nat.isValidChar]
    omega
  refine ⟨Char.ofNat (0x10000 + (u.toNat - 0xd800) * 0x400 + (v.toNat - 0xdc00)), ?_⟩
  have hnat : (Char.ofNat (0x10000 + (u.toNat - 0xd800) * 0x400 + (v.toNat - 0xdc00))).toNat =
      0x10000 + (u.toNat - 0xd800) * 0x400 + (v.toNat - 0xdc00) := by
    rw [Char.ofNat, dif_pos hvalid]
    rfl
  have hhi : 0xd800 + (0x10000 + (u.toNat - 0xd800) * 0x400 + (v.toNat - 0xdc00) - 0x10000) / 0x400 =
      u.toNat := by omega
  have hlo : 0xdc00 + (0x10000 + (u.toNat - 0xd800) * 0x400 + (v.toNat - 0xdc00) - 0x10000) % 0x400 =
      v.toNat := by omega
  rw [utf16EncodeChar, hnat, if_neg (by omega), hhi, hlo, UInt16.ofNat_toNat, UInt16.ofNat_toNat]

/-- Paired code units are those of some characters. -/
theorem Paired.exists_chars {us : List UInt16} (h : Paired us) : ∃ cs, us = utf16Encode cs := by
  induction h with
  | nil => exact ⟨[], rfl⟩
  | unit hhigh hlow _ ih =>
    obtain ⟨cs, rfl⟩ := ih
    obtain ⟨c, hc⟩ := exists_char_of_unit hhigh hlow
    exact ⟨c :: cs, by rw [utf16Encode_cons, hc]; rfl⟩
  | pair hhigh hlow _ ih =>
    obtain ⟨cs, rfl⟩ := ih
    obtain ⟨c, hc⟩ := exists_char_of_pair hhigh hlow
    exact ⟨c :: cs, by rw [utf16Encode_cons, hc]; rfl⟩

end OdbcDriver.Lib
