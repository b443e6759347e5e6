import Mathlib.Algebra.BigOperators.Group.List.Basic
import OdbcDriver.Lib.CInt
import OdbcDriver.Lib.Except
import OdbcDriver.Lib.Utf
import OdbcDriver.Unicode.WinUnicode

/-!
# UTF-16 there and back

Both loops go by characters: `ucs2Loop_char` and `utf8Loop_char` say what they do with the code units
and the bytes of one. A string of paired surrogates is that of some characters, so that it comes
back as it was, as long as its UTF-8 form is one that an `int` counts.
-/

namespace OdbcDriver.Unicode

open OdbcDriver.Lib

/-- Without conversion of line feeds, the byte before does not matter. -/
theorem utf8Loop_prev (errcheck : Bool) (i : Nat) (prev : Option Byte) (out : List UInt16)
    (str : List Byte) :
    utf8Loop false errcheck i prev out str = utf8Loop false errcheck i none out str := by
  cases str with
  | nil => rfl
  | cons a str =>
    rw [utf8Loop.eq_def, utf8Loop.eq_def false errcheck i none]
    simp

/-! ### The bits of a character -/

theorem char_toNat_lt (c : Char) : c.toNat < 0x110000 := by
  have h := c.valid
  rw [UInt32.isValidChar, Nat.isValidChar] at h
  rw [Char.toNat]
  omega

theorem char_not_surrogate (c : Char) : ¬ (0xd800 ≤ c.toNat ∧ c.toNat < 0xe000) := by
  have h := c.valid
  rw [UInt32.isValidChar, Nat.isValidChar] at h
  rw [Char.toNat]
  omega

theorem setWidth_unit {c : Char} (h : c.toNat < 0x10000) :
    (UInt16.ofNat c.toNat).toBitVec.setWidth 32 = c.val.toBitVec := by
  apply BitVec.eq_of_toNat_eq
  rw [BitVec.toNat_setWidth]
  change c.toNat % 2 ^ 16 % 2 ^ 32 = c.toNat
  omega

/-- The four forms of a character in UTF-8. -/
inductive CharForm (c : Char) : Prop
  | one (h : c.toNat < 0x80) (henc : String.utf8EncodeChar c = [c.val.toUInt8])
  | two (hlo : 0x80 ≤ c.toNat) (h : c.toNat < 0x800) (henc : String.utf8EncodeChar c =
      [(c.val >>> 6).toUInt8 &&& 0x1f ||| 0xc0, c.val.toUInt8 &&& 0x3f ||| 0x80])
  | three (hlo : 0x800 ≤ c.toNat) (h : c.toNat < 0x10000) (henc : String.utf8EncodeChar c =
      [(c.val >>> 12).toUInt8 &&& 0x0f ||| 0xe0, (c.val >>> 6).toUInt8 &&& 0x3f ||| 0x80,
        c.val.toUInt8 &&& 0x3f ||| 0x80])
  | four (hlo : 0x10000 ≤ c.toNat) (henc : String.utf8EncodeChar c =
      [(c.val >>> 18).toUInt8 &&& 0x07 ||| 0xf0, (c.val >>> 12).toUInt8 &&& 0x3f ||| 0x80,
        (c.val >>> 6).toUInt8 &&& 0x3f ||| 0x80, c.val.toUInt8 &&& 0x3f ||| 0x80])

theorem charForm (c : Char) : CharForm c := by
  have henc : String.utf8EncodeChar c = String.utf8EncodeCharFast c := by
    rw [String.utf8EncodeChar_eq_utf8EncodeCharFast]
  have hle : ∀ n : UInt32, c.val ≤ n ↔ c.toNat ≤ n.toNat := fun n => UInt32.le_iff_toNat_le
  unfold String.utf8EncodeCharFast at henc
  simp only [hle] at henc
  split at henc
  · next h => exact .one (Nat.lt_succ_of_le h) henc
  · next h =>
    split at henc
    · next h' => exact .two (Nat.lt_of_not_le h) (Nat.lt_succ_of_le h') henc
    · next h' =>
      split at henc
      · next h'' => exact .three (Nat.lt_of_not_le h') (Nat.lt_succ_of_le h'') henc
      · next h'' => exact .four (Nat.lt_of_not_le h'') henc

theorem ascii_iff (w : BitVec 32) : w &&& 0xffffff80 = 0 ↔ w.toNat < 0x80 := by
  have h := CInt.toNat_and_high w 7
  change (w &&& 0xffffff80).toNat = _ at h
  rw [← BitVec.toNat_inj, h]
  change _ = 0 ↔ _
  omega

theorem byte2_iff (w : BitVec 32) : w &&& 0xfffff800 = 0 ↔ w.toNat < 0x800 := by
  have h := CInt.toNat_and_high w 11
  change (w &&& 0xfffff800).toNat = _ at h
  rw [← BitVec.toNat_inj, h]
  change _ = 0 ↔ _
  omega

/-- The upper six bits of a code unit. -/
theorem surrogCheck_iff {w : BitVec 32} (hw : w.toNat < 0x10000) (b : BitVec 32) :
    surrogCheck w = b ↔ w.toNat / 0x400 * 0x400 = b.toNat := by
  have hshift : surrogCheck w = w >>> 10 <<< 10 := by
    have hw' : w = (w.setWidth 16).setWidth 32 := by
      apply BitVec.eq_of_toNat_eq
      rw [BitVec.toNat_setWidth, BitVec.toNat_setWidth]
      omega
    rw [surrogCheck, hw']
    ext i hi
    interval_cases i <;> simp
  rw [hshift, ← BitVec.toNat_inj, BitVec.toNat_shiftLeft, BitVec.toNat_ushiftRight,
    Nat.shiftRight_eq_div_pow, Nat.shiftLeft_eq, Nat.mod_eq_of_lt (by omega)]

/-! ### One character to UTF-8 -/

theorem byteOf_zero (v : UInt32) : byteOf v.toBitVec 0 = v.toUInt8 := by
  rw [← UInt8.toBitVec_inj, byteOf]
  ext i hi
  simp

theorem byte2code_bytes (v : UInt32) :
    [byteOf (byte2code v.toBitVec) 0, byteOf (byte2code v.toBitVec) 1] =
      [(v >>> 6).toUInt8 &&& 0x1f ||| 0xc0, v.toUInt8 &&& 0x3f ||| 0x80] := by
  simp only [List.cons.injEq, and_true, ← UInt8.toBitVec_inj, byteOf, byte2code]
  refine ⟨?_, ?_⟩ <;> ext i hi <;> interval_cases i <;> simp

theorem byte3code_bytes (v : UInt32) :
    [byteOf (byte3code v.toBitVec) 0, byteOf (byte3code v.toBitVec) 1,
        byteOf (byte3code v.toBitVec) 2] =
      [(v >>> 12).toUInt8 &&& 0x0f ||| 0xe0, (v >>> 6).toUInt8 &&& 0x3f ||| 0x80,
        v.toUInt8 &&& 0x3f ||| 0x80] := by
  simp only [List.cons.injEq, and_true, ← UInt8.toBitVec_inj, byteOf, byte3code]
  refine ⟨?_, ?_, ?_⟩ <;> ext i hi <;> interval_cases i <;> simp

theorem byte4code_bytes (v : UInt32) :
    let code := byte4code (v.toBitVec >>> 10) (v.toBitVec &&& 0x3ff)
    [byteOf code 0, byteOf code 1, byteOf code 2, byteOf code 3] =
      [(v >>> 18).toUInt8 &&& 0x07 ||| 0xf0, (v >>> 12).toUInt8 &&& 0x3f ||| 0x80,
        (v >>> 6).toUInt8 &&& 0x3f ||| 0x80, v.toUInt8 &&& 0x3f ||| 0x80] := by
  simp only [List.cons.injEq, and_true, ← UInt8.toBitVec_inj, byteOf, byte4code]
  refine ⟨?_, ?_, ?_, ?_⟩ <;> ext i hi <;> interval_cases i <;> simp

/-- The surrogates of a character, and what they carry of it. -/
theorem surrogate_bits {c : Char} (h : 0x10000 ≤ c.toNat) :
    ∃ w w' : BitVec 32,
      (UInt16.ofNat (0xd800 + (c.toNat - 0x10000) / 0x400)).toBitVec.setWidth 32 = w ∧
      (UInt16.ofNat (0xdc00 + (c.toNat - 0x10000) % 0x400)).toBitVec.setWidth 32 = w' ∧
      w.toNat = 0xd800 + (c.toNat - 0x10000) / 0x400 ∧
      w'.toNat = 0xdc00 + (c.toNat - 0x10000) % 0x400 ∧
      surrogRest w + surrogateAdjust = c.val.toBitVec >>> 10 ∧
      surrogRest w' = c.val.toBitVec &&& 0x3ff := by
  have hlt := char_toNat_lt c
  have hval : c.val.toBitVec.toNat = c.toNat := rfl
  have hlow : ∀ w : BitVec 32, w.toNat < 0x10000 → (surrogRest w).toNat = w.toNat % 0x400 := by
    intro w hw
    have hmask : surrogRest w = w &&& 0x3ff := by
      have hw' : w = (w.setWidth 16).setWidth 32 := by
        apply BitVec.eq_of_toNat_eq
        rw [BitVec.toNat_setWidth, BitVec.toNat_setWidth]
        omega
      rw [surrogRest, hw']
      ext i hi
      interval_cases i <;> simp
    rw [hmask, BitVec.toNat_and]
    exact Nat.and_two_pow_sub_one_eq_mod _ 10
  have hto : ∀ n : Nat, n < 0x10000 → ((UInt16.ofNat n).toBitVec.setWidth 32).toNat = n := by
    intro n hn
    rw [BitVec.toNat_setWidth]
    change n % 2 ^ 16 % 2 ^ 32 = n
    omega
  have hw := hto (0xd800 + (c.toNat - 0x10000) / 0x400) (by omega)
  have hw' := hto (0xdc00 + (c.toNat - 0x10000) % 0x400) (by omega)
  refine ⟨_, _, rfl, rfl, hw, hw', ?_, ?_⟩
  · apply BitVec.eq_of_toNat_eq
    rw [BitVec.toNat_add, hlow _ (by omega), hw, BitVec.toNat_ushiftRight, hval,
      Nat.shiftRight_eq_div_pow]
    change (_ + 0x40) % _ = _
    omega
  · apply BitVec.eq_of_toNat_eq
    rw [hlow _ (by omega), hw', BitVec.toNat_and, hval]
    change _ = c.toNat &&& (2 ^ 10 - 1)
    rw [Nat.and_two_pow_sub_one_eq_mod]
    omega

/-- The loop of `ucs2_to_utf8` writes a character, where an `int` counts its bytes. -/
theorem ucs2Loop_char {c : Char} (hc : c.toNat ≠ 0) (len : Nat) (out : List Byte)
    (us : List UInt16) :
    ucs2Loop false len out (utf16EncodeChar c ++ us) =
      intAdd len (String.utf8EncodeChar c).length >>= fun len =>
        ucs2Loop false len (out ++ String.utf8EncodeChar c) us := by
  have hlt := char_toNat_lt c
  have hsur := char_not_surrogate c
  have hval : c.val.toBitVec.toNat = c.toNat := rfl
  by_cases hunit : c.toNat < 0x10000
  · have hne : c.val.toBitVec ≠ 0 := by
      intro h0
      rw [h0] at hval
      exact hc hval.symm
    rw [utf16EncodeChar, if_pos hunit, List.singleton_append, ucs2Loop.eq_def]
    simp only [setWidth_unit hunit, hne, if_false, ascii_iff, byte2_iff, hval]
    have hcheck : ¬ surrogCheck c.val.toBitVec = 0xd800 := by
      rw [surrogCheck_iff (hval ▸ hunit), hval]
      change ¬ _ = 0xd800
      omega
    cases charForm c with
    | one h henc =>
      rw [if_pos h, henc, ← byteOf_zero]
      rfl
    | two hlo h henc => 
      rw [if_neg (by omega), if_pos h, henc, ← byte2code_bytes]
      rfl
    | three hlo h henc =>
      rw [if_neg (by omega), if_neg (by omega), if_neg hcheck, henc, ← byte3code_bytes]
      rfl
    | four hlo henc => omega
  · cases charForm c with
    | one h _ => omega
    | two _ h _ => omega
    | three _ h _ => omega
    | four hlo henc =>
      obtain ⟨w, w', hw, hw', hwn, hwn', hsurrd1, hsurrd2⟩ := surrogate_bits hlo
      have hne : w ≠ 0 := by
        rintro rfl
        change 0 = _ at hwn
        omega
      have hhigh : surrogCheck w = 0xd800 := by
        rw [surrogCheck_iff (by omega), hwn]
        change _ = 0xd800
        omega
      have hlow : surrogCheck w' = 0xdc00 := by
        rw [surrogCheck_iff (by omega), hwn']
        change _ = 0xdc00
        omega
      rw [utf16EncodeChar, if_neg hunit, List.cons_append, List.cons_append, List.nil_append,
        ucs2Loop.eq_def]
      simp only [hw, hw', hne, if_false, ascii_iff, byte2_iff, hhigh, hlow, if_true, ne_eq,
        not_true, hsurrd1, hsurrd2]
      rw [if_neg (by omega), if_neg (by omega), henc, ← byte4code_bytes]
      rfl

/-! ### No NUL is written -/

/-- A byte whose highest bit is set is no NUL. -/
theorem byteOf_ne_zero {code : BitVec 32} {k : Nat} (h : code.getLsbD (8 * k + 7) = true) :
    byteOf code k ≠ 0 := by
  intro h0
  have hbit := congrArg (fun b : Byte => b.toBitVec.getLsbD 7) h0
  simp [byteOf, h] at hbit

/-- The byte of an ASCII character is no NUL. -/
theorem byteOf_ascii_ne_zero {w : BitVec 32} (hw : ¬ w = 0) (hascii : w &&& 0xffffff80 = 0) :
    byteOf w 0 ≠ 0 := by
  intro h0
  refine hw (BitVec.eq_of_getLsbD_eq fun i hi => ?_)
  have hlow := congrArg (fun b : Byte => b.toBitVec.getLsbD i) h0
  have hhigh : (w &&& 0xffffff80).getLsbD i = (0 : BitVec 32).getLsbD i := by rw [hascii]
  rcases lt_or_ge i 8 with h8 | h8
  · simpa [byteOf, h8] using hlow
  · interval_cases i <;> simpa using hhigh

theorem byte2code_ne_zero (w : BitVec 32) :
    ∀ b ∈ [byteOf (byte2code w) 0, byteOf (byte2code w) 1], b ≠ 0 := by
  simp only [List.forall_mem_cons, List.not_mem_nil, false_imp_iff, implies_true, and_true]
  exact ⟨byteOf_ne_zero (by simp [byte2code]), byteOf_ne_zero (by simp [byte2code])⟩

theorem byte3code_ne_zero (w : BitVec 32) :
    ∀ b ∈ [byteOf (byte3code w) 0, byteOf (byte3code w) 1, byteOf (byte3code w) 2], b ≠ 0 := by
  simp only [List.forall_mem_cons, List.not_mem_nil, false_imp_iff, implies_true, and_true]
  exact ⟨byteOf_ne_zero (by simp [byte3code]), byteOf_ne_zero (by simp [byte3code]),
    byteOf_ne_zero (by simp [byte3code])⟩

theorem byte4code_ne_zero (w w' : BitVec 32) :
    ∀ b ∈ [byteOf (byte4code w w') 0, byteOf (byte4code w w') 1, byteOf (byte4code w w') 2,
      byteOf (byte4code w w') 3], b ≠ 0 := by
  simp only [List.forall_mem_cons, List.not_mem_nil, false_imp_iff, implies_true, and_true]
  exact ⟨byteOf_ne_zero (by simp [byte4code]), byteOf_ne_zero (by simp [byte4code]),
    byteOf_ne_zero (by simp [byte4code]), byteOf_ne_zero (by simp [byte4code])⟩

/-- `ucs2_to_utf8` writes no NUL: it stops at one. -/
theorem ucs2Loop_ne_zero {wstr : List UInt16} {len : Nat} {utf8str out : List Byte}
    (hnul : ∀ b ∈ utf8str, b ≠ 0) (h : ucs2Loop false len utf8str wstr = .ok (some out)) :
    ∀ b ∈ out, b ≠ 0 := by
  fun_induction ucs2Loop false len utf8str wstr with
  | case1 => cases h; exact hnul
  | case2 => cases h; exact hnul
  | case3 len utf8str c wstr w hw hascii ih =>
    obtain ⟨len, -, h⟩ := bind_eq_ok.mp h
    refine ih len (List.forall_mem_append.mpr ⟨hnul, ?_⟩) h
    simpa using byteOf_ascii_ne_zero hw hascii
  | case4 len utf8str c wstr w _ _ _ code ih =>
    obtain ⟨len, -, h⟩ := bind_eq_ok.mp h
    exact ih len (List.forall_mem_append.mpr ⟨hnul, byte2code_ne_zero w⟩) h
  | case5 => cases h
  | case6 => cases h
  | case7 len utf8str c w _ _ _ _ c' wstr w' _ code ih =>
    obtain ⟨len, -, h⟩ := bind_eq_ok.mp h
    exact ih len (List.forall_mem_append.mpr ⟨hnul, byte4code_ne_zero _ _⟩) h
  | case8 len utf8str c wstr w _ _ _ _ code ih =>
    obtain ⟨len, -, h⟩ := bind_eq_ok.mp h
    exact ih len (List.forall_mem_append.mpr ⟨hnul, byte3code_ne_zero w⟩) h

theorem ucs2_to_utf8_ne_zero {wstr : List UInt16} {out : List Byte} {olen : Int}
    (h : ucs2_to_utf8 (some wstr) false = .ok (some out, olen)) : ∀ b ∈ out, b ≠ 0 := by
  obtain ⟨r, hr, h⟩ := bind_eq_ok.mp h
  cases r with
  | none => simp at h
  | some utf8str =>
    obtain ⟨rfl, -⟩ := by simpa using h
    exact ucs2Loop_ne_zero (by simp) hr

/-! ### One character from UTF-8 -/

/-- The bits of a byte from `k` on. -/
theorem byte_and_iff (a b : Byte) (k : Nat) :
    b = a &&& ⟨BitVec.allOnes 8 <<< k⟩ ↔ a.toNat / 2 ^ k * 2 ^ k = b.toNat := by
  have h : a.toNat / 2 ^ k * 2 ^ k = (a &&& ⟨BitVec.allOnes 8 <<< k⟩ : Byte).toNat :=
    (CInt.toNat_and_high a.toBitVec k).symm
  rw [h, ← UInt8.toNat_inj, eq_comm]

theorem highClear_iff (a : Byte) : a &&& 0x80 = 0 ↔ a.toNat < 0x80 := by
  have h := byte_and_iff a 0 7
  change 0 = a &&& 0x80 ↔ _ = 0 at h
  have hlt := a.toNat_lt
  rw [eq_comm, h]
  omega

theorem lead5_iff (a : Byte) : 0xf8 = a &&& 0xf8 ↔ 0xf8 ≤ a.toNat := by
  have h := byte_and_iff a 0xf8 3
  change 0xf8 = a &&& 0xf8 ↔ _ = 0xf8 at h
  have hlt := a.toNat_lt
  rw [h]
  omega

theorem lead4_iff (a : Byte) : 0xf0 = a &&& 0xf8 ↔ 0xf0 ≤ a.toNat ∧ a.toNat < 0xf8 := by
  have h := byte_and_iff a 0xf0 3
  change 0xf0 = a &&& 0xf8 ↔ _ = 0xf0 at h
  rw [h]
  omega

theorem lead3_iff (a : Byte) : 0xe0 = a &&& 0xf0 ↔ 0xe0 ≤ a.toNat ∧ a.toNat < 0xf0 := by
  have h := byte_and_iff a 0xe0 4
  change 0xe0 = a &&& 0xf0 ↔ _ = 0xe0 at h
  rw [h]
  omega

theorem lead2_iff (a : Byte) : 0xc0 = a &&& 0xe0 ↔ 0xc0 ≤ a.toNat ∧ a.toNat < 0xe0 := by
  have h := byte_and_iff a 0xc0 5
  change 0xc0 = a &&& 0xe0 ↔ _ = 0xc0 at h
  rw [h]
  omega

/-- A number of few bits. -/
theorem setWidth_of_lt (v : BitVec 32) (k : Nat) (h : v.toNat < 2 ^ k) (hk : k ≤ 32) :
    v = (v.setWidth k).setWidth 32 := by
  apply BitVec.eq_of_toNat_eq
  have hle : 2 ^ k ≤ 2 ^ 32 := Nat.pow_le_pow_right (by decide) hk
  rw [BitVec.toNat_setWidth, BitVec.toNat_setWidth, Nat.mod_eq_of_lt h, Nat.mod_eq_of_lt (by omega)]

theorem toBitVec_unit (v : UInt32) : (UInt16.ofNat v.toNat).toBitVec = v.toBitVec.setWidth 16 := by
  apply BitVec.eq_of_toNat_eq
  rw [BitVec.toNat_setWidth]
  rfl

theorem wide2_bytes {v : UInt32} (h : v.toNat < 0x800) :
    wide2 ((v >>> 6).toUInt8 &&& 0x1f ||| 0xc0) (v.toUInt8 &&& 0x3f ||| 0x80) =
      UInt16.ofNat v.toNat := by
  rw [← UInt16.toBitVec_inj, toBitVec_unit, wide2]
  have hv := setWidth_of_lt v.toBitVec 11 h (by decide)
  ext i hi
  interval_cases i <;> simp <;> rw [hv] <;> simp

theorem wide3_bytes (v : UInt32) :
    wide3 ((v >>> 12).toUInt8 &&& 0x0f ||| 0xe0) ((v >>> 6).toUInt8 &&& 0x3f ||| 0x80)
      (v.toUInt8 &&& 0x3f ||| 0x80) = UInt16.ofNat v.toNat := by
  rw [← UInt16.toBitVec_inj, toBitVec_unit, wide3]
  ext i hi
  interval_cases i <;> simp

theorem wide4Lo_bytes (v : UInt32) :
    wide4Lo ((v >>> 6).toUInt8 &&& 0x3f ||| 0x80) (v.toUInt8 &&& 0x3f ||| 0x80) =
      UInt16.ofNat (0xdc00 + v.toNat % 0x400) := by
  have hbits : wide4Lo ((v >>> 6).toUInt8 &&& 0x3f ||| 0x80) (v.toUInt8 &&& 0x3f ||| 0x80) =
      ⟨(0xdc00 ||| (v.toBitVec &&& 0x3ff)).setWidth 16⟩ := by
    rw [← UInt16.toBitVec_inj, wide4Lo]
    ext i hi
    interval_cases i <;> simp
  have hmod : (v.toBitVec &&& 0x3ff).toNat = v.toNat % 0x400 := by
    rw [BitVec.toNat_and]
    exact Nat.and_two_pow_sub_one_eq_mod _ 10
  rw [hbits, ← UInt16.toNat_inj, UInt16.toNat_ofNat']
  change ((0xdc00 ||| (v.toBitVec &&& 0x3ff)).setWidth 16).toNat = _
  rw [BitVec.toNat_setWidth, BitVec.toNat_or, hmod]
  congr 1
  exact (Nat.two_pow_add_eq_or_of_lt (i := 10) (Nat.mod_lt _ (by decide)) 55).symm

theorem wide4Hi_bytes {v : UInt32} (hlo : 0x10000 ≤ v.toNat) (h : v.toNat < 0x110000) :
    wide4Hi ((v >>> 18).toUInt8 &&& 0x07 ||| 0xf0) ((v >>> 12).toUInt8 &&& 0x3f ||| 0x80)
      ((v >>> 6).toUInt8 &&& 0x3f ||| 0x80) =
      UInt16.ofNat (0xd800 + (v.toNat - 0x10000) / 0x400) := by
  have hbits : wide4Hi ((v >>> 18).toUInt8 &&& 0x07 ||| 0xf0)
      ((v >>> 12).toUInt8 &&& 0x3f ||| 0x80) ((v >>> 6).toUInt8 &&& 0x3f ||| 0x80) =
      ⟨((0xd800 ||| (v.toBitVec >>> 10 &&& 0x7ff)) - surrogateAdjust).setWidth 16⟩ := by
    rw [← UInt16.toBitVec_inj, wide4Hi]
    dsimp only
    congr 2
    ext i hi
    interval_cases i <;> simp
  have hdiv : (v.toBitVec >>> 10 &&& 0x7ff).toNat = v.toNat / 0x400 := by
    rw [BitVec.toNat_and, BitVec.toNat_ushiftRight, Nat.shiftRight_eq_div_pow]
    change v.toNat / 0x400 &&& (2 ^ 11 - 1) = _
    rw [Nat.and_two_pow_sub_one_eq_mod]
    omega
  have hor : (0xd800 ||| (v.toBitVec >>> 10 &&& 0x7ff)).toNat = 0xd800 + v.toNat / 0x400 := by
    rw [BitVec.toNat_or, hdiv]
    exact (Nat.two_pow_add_eq_or_of_lt (i := 11) (by omega) 27).symm
  rw [hbits, ← UInt16.toNat_inj, UInt16.toNat_ofNat']
  change ((_ - surrogateAdjust : BitVec 32).setWidth 16).toNat = _
  rw [BitVec.toNat_setWidth, BitVec.toNat_sub, hor]
  change (2 ^ 32 - 0x40 + _) % _ % _ = _
  omega

/-- The bytes of a character: some bits of it under a fixed head. -/
theorem headed_toNat (x m b : Byte) (k a : Nat) (hm : m.toNat = 2 ^ k - 1)
    (hb : b.toNat = 2 ^ k * a) : (x &&& m ||| b).toNat = b.toNat + x.toNat % 2 ^ k := by
  rw [UInt8.toNat_or, UInt8.toNat_and, hm, hb, Nat.and_two_pow_sub_one_eq_mod, Nat.or_comm,
    Nat.two_pow_add_eq_or_of_lt (Nat.mod_lt _ (Nat.two_pow_pos k))]

theorem tail_toNat (x : Byte) : (x &&& 0x3f ||| 0x80).toNat = 0x80 + x.toNat % 64 :=
  headed_toNat x 0x3f 0x80 6 2 rfl rfl

theorem head2_toNat (x : Byte) : (x &&& 0x1f ||| 0xc0).toNat = 0xc0 + x.toNat % 32 :=
  headed_toNat x 0x1f 0xc0 5 6 rfl rfl

theorem head3_toNat (x : Byte) : (x &&& 0x0f ||| 0xe0).toNat = 0xe0 + x.toNat % 16 :=
  headed_toNat x 0x0f 0xe0 4 14 rfl rfl

theorem head4_toNat (x : Byte) : (x &&& 0x07 ||| 0xf0).toNat = 0xf0 + x.toNat % 8 :=
  headed_toNat x 0x07 0xf0 3 30 rfl rfl

theorem tail_highClear (x : Byte) : highClear (x &&& 0x3f ||| 0x80) = false := by
  have h := tail_toNat x
  rw [highClear, decide_eq_false_iff_not, highClear_iff]
  omega

/-! The loop over the bytes of one, two, three and four, whatever they stand for. -/

theorem utf8Loop_one {a : Byte} (h0 : a ≠ 0) (h : a.toNat < 0x80) (errcheck : Bool) (i : Nat)
    (out : List UInt16) (str : List Byte) :
    utf8Loop false errcheck i none out (a :: str) =
      intAdd i 1 >>= fun i => utf8Loop false errcheck i none (out ++ [a.toUInt16]) str := by
  rw [utf8Loop.eq_def]
  simp only [h0, if_false, highClear_iff, h, if_true, utf8Loop_prev]
  simp

theorem lead_ne_zero {a : Byte} (h : 0x80 ≤ a.toNat) : a ≠ 0 := by
  rintro rfl
  exact absurd h (by decide)

theorem utf8Loop_lead2 {a : Byte} (hlo : 0xc0 ≤ a.toNat) (hhi : a.toNat < 0xe0) (errcheck : Bool)
    (i : Nat) (out : List UInt16) (str : List Byte) :
    utf8Loop false errcheck i none out (a :: str) = intAdd i 2 >>= fun i =>
      match str with
      | b :: str =>
        if errcheck ∧ highClear b then .ok none
        else utf8Loop false errcheck i none (out ++ [wide2 a b]) str
      | _ => if errcheck then .ok none else .error .outOfBounds := by
  have h0 := lead_ne_zero (a := a) (by omega)
  rw [utf8Loop.eq_def]
  simp only [h0, if_false, highClear_iff, lead5_iff, lead4_iff, lead3_iff, lead2_iff,
    utf8Loop_prev]
  rw [if_neg (by omega), if_neg (by omega), if_neg (by omega), if_neg (by omega)]
  exact if_pos ⟨hlo, hhi⟩

theorem utf8Loop_lead3 {a : Byte} (hlo : 0xe0 ≤ a.toNat) (hhi : a.toNat < 0xf0) (errcheck : Bool)
    (i : Nat) (out : List UInt16) (str : List Byte) :
    utf8Loop false errcheck i none out (a :: str) = intAdd i 3 >>= fun i =>
      match str with
      | b :: c :: str =>
        if errcheck ∧ (highClear b ∨ highClear c) then .ok none
        else utf8Loop false errcheck i none (out ++ [wide3 a b c]) str
      | _ => if errcheck then .ok none else .error .outOfBounds := by
  have h0 := lead_ne_zero (a := a) (by omega)
  rw [utf8Loop.eq_def]
  simp only [h0, if_false, highClear_iff, lead5_iff, lead4_iff, lead3_iff, lead2_iff,
    utf8Loop_prev]
  rw [if_neg (by omega), if_neg (by omega), if_neg (by omega)]
  exact if_pos ⟨hlo, hhi⟩

theorem utf8Loop_lead4 {a : Byte} (hlo : 0xf0 ≤ a.toNat) (hhi : a.toNat < 0xf8) (errcheck : Bool)
    (i : Nat) (out : List UInt16) (str : List Byte) :
    utf8Loop false errcheck i none out (a :: str) = intAdd i 4 >>= fun i =>
      match str with
      | b :: c :: d :: str =>
        if errcheck ∧ (highClear b ∨ highClear c ∨ highClear d) then .ok none
        else utf8Loop false errcheck i none (out ++ [wide4Hi a b c, wide4Lo c d]) str
      | _ => if errcheck then .ok none else .error .outOfBounds := by
  have h0 := lead_ne_zero (a := a) (by omega)
  rw [utf8Loop.eq_def]
  simp only [h0, if_false, highClear_iff, lead5_iff, lead4_iff, lead3_iff, lead2_iff,
    utf8Loop_prev]
  rw [if_neg (by omega), if_neg (by omega)]
  exact if_pos ⟨hlo, hhi⟩

/-- No character starts with the byte. -/
theorem utf8Loop_stray {a : Byte} (h : 0x80 ≤ a.toNat ∧ a.toNat < 0xc0 ∨ 0xf8 ≤ a.toNat)
    (errcheck : Bool) (i : Nat) (out : List UInt16) (str : List Byte) :
    utf8Loop false errcheck i none out (a :: str) = .ok none := by
  have h0 := lead_ne_zero (a := a) (by omega)
  rw [utf8Loop.eq_def]
  simp only [h0, if_false, highClear_iff, lead5_iff, lead4_iff, lead3_iff, lead2_iff]
  rw [if_neg (by omega)]
  split
  · rfl
  · rw [if_neg (by omega), if_neg (by omega), if_neg (by omega)]

theorem utf8Loop_two {a b : Byte} (hlo : 0xc0 ≤ a.toNat) (hhi : a.toNat < 0xe0)
    (hb : highClear b = false) (errcheck : Bool) (i : Nat) (out : List UInt16) (str : List Byte) :
    utf8Loop false errcheck i none out (a :: b :: str) =
      intAdd i 2 >>= fun i => utf8Loop false errcheck i none (out ++ [wide2 a b]) str := by
  rw [utf8Loop_lead2 hlo hhi]
  simp only [hb, Bool.false_eq_true, and_false, if_false]

theorem utf8Loop_three {a b c : Byte} (hlo : 0xe0 ≤ a.toNat) (hhi : a.toNat < 0xf0)
    (hb : highClear b = false) (hc : highClear c = false) (errcheck : Bool) (i : Nat)
    (out : List UInt16) (str : List Byte) :
    utf8Loop false errcheck i none out (a :: b :: c :: str) =
      intAdd i 3 >>= fun i => utf8Loop false errcheck i none (out ++ [wide3 a b c]) str := by
  rw [utf8Loop_lead3 hlo hhi]
  simp only [hb, hc, Bool.false_eq_true, or_self, and_false, if_false]

theorem utf8Loop_four {a b c d : Byte} (hlo : 0xf0 ≤ a.toNat) (hhi : a.toNat < 0xf8)
    (hb : highClear b = false) (hc : highClear c = false) (hd : highClear d = false)
    (errcheck : Bool) (i : Nat) (out : List UInt16) (str : List Byte) :
    utf8Loop false errcheck i none out (a :: b :: c :: d :: str) =
      intAdd i 4 >>= fun i =>
        utf8Loop false errcheck i none (out ++ [wide4Hi a b c, wide4Lo c d]) str := by
  rw [utf8Loop_lead4 hlo hhi]
  simp only [hb, hc, hd, Bool.false_eq_true, or_self, and_false, if_false]

/-- The loop of `utf8_to_ucs2_lf` reads a character, where an `int` counts its bytes. -/
theorem utf8Loop_char {c : Char} (hc : c.toNat ≠ 0) (errcheck : Bool) (i : Nat)
    (out : List UInt16) (str : List Byte) :
    utf8Loop false errcheck i none out (String.utf8EncodeChar c ++ str) =
      intAdd i (String.utf8EncodeChar c).length >>= fun i =>
        utf8Loop false errcheck i none (out ++ utf16EncodeChar c) str := by
  have hval : c.val.toNat = c.toNat := rfl
  have hlt := char_toNat_lt c
  cases charForm c with
  | one h henc =>
    have ha : c.val.toUInt8.toNat = c.toNat := by
      rw [UInt32.toNat_toUInt8, hval]
      omega
    have hne : c.val.toUInt8 ≠ 0 := by
      rw [ne_eq, ← UInt8.toNat_inj, ha]
      exact hc
    have hunit : utf16EncodeChar c = [c.val.toUInt8.toUInt16] := by
      rw [utf16EncodeChar, if_pos (by omega), ← UInt16.ofNat_toNat (x := c.val.toUInt8.toUInt16),
        UInt8.toNat_toUInt16, ha]
    rw [henc, hunit]
    exact utf8Loop_one hne (by omega) errcheck i out str
  | two hlo h henc =>
    have ha := head2_toNat (c.val >>> 6).toUInt8
    have hunit : utf16EncodeChar c = [UInt16.ofNat c.val.toNat] := if_pos (by omega)
    rw [henc, hunit, ← wide2_bytes h]
    exact utf8Loop_two (by omega) (by omega) (tail_highClear _) errcheck i out str
  | three hlo h henc =>
    have ha := head3_toNat (c.val >>> 12).toUInt8
    have hunit : utf16EncodeChar c = [UInt16.ofNat c.val.toNat] := if_pos (by omega)
    rw [henc, hunit, ← wide3_bytes]
    exact utf8Loop_three (by omega) (by omega) (tail_highClear _) (tail_highClear _) errcheck i
      out str
  | four hlo henc =>
    have ha := head4_toNat (c.val >>> 18).toUInt8
    have hunit : utf16EncodeChar c = [UInt16.ofNat (0xd800 + (c.val.toNat - 0x10000) / 0x400),
        UInt16.ofNat (0xdc00 + c.val.toNat % 0x400)] := by
      have hmod : (c.toNat - 0x10000) % 0x400 = c.toNat % 0x400 := by omega
      rw [utf16EncodeChar, if_neg (by omega), hval, hmod]
    rw [henc, hunit, ← wide4Hi_bytes hlo hlt, ← wide4Lo_bytes]
    exact utf8Loop_four (by omega) (by omega) (tail_highClear _) (tail_highClear _)
      (tail_highClear _) errcheck i out str

/-! ### Strings -/

/-- `ucs2_to_utf8` writes the characters of a string, where an `int` counts their bytes. -/
theorem ucs2Loop_chars (cs : List Char) (hc : ∀ c ∈ cs, c.toNat ≠ 0) (len : Nat)
    (out : List Byte) (hlen : len < 2 ^ 31) :
    ucs2Loop false len out (utf16Encode cs) =
      if len + (utf8Encode cs).length < 2 ^ 31 then .ok (some (out ++ utf8Encode cs))
      else .error .overflow := by
  induction cs generalizing len out with
  | nil => simpa [ucs2Loop] using hlen
  | cons c cs ih =>
    rw [List.forall_mem_cons] at hc
    rw [utf16Encode_cons, utf8Encode_cons, ucs2Loop_char hc.1, intAdd, List.length_append]
    by_cases h : len + (String.utf8EncodeChar c).length < 2 ^ 31
    · rw [if_pos h, ok_bind, ih hc.2 _ _ h, List.append_assoc, Nat.add_assoc]
    · rw [if_neg h, error_bind, if_neg (by omega)]

/-- `utf8_to_ucs2_lf` reads the characters of a string, where an `int` counts their bytes. -/
theorem utf8Loop_chars (cs : List Char) (hc : ∀ c ∈ cs, c.toNat ≠ 0) (errcheck : Bool) (i : Nat)
    (out : List UInt16) (str : List Byte) (hi : i + (utf8Encode cs).length < 2 ^ 31) :
    utf8Loop false errcheck i none out (utf8Encode cs ++ str) =
      utf8Loop false errcheck (i + (utf8Encode cs).length) none (out ++ utf16Encode cs) str := by
  induction cs generalizing i out with
  | nil => simp
  | cons c cs ih =>
    rw [List.forall_mem_cons] at hc
    rw [utf8Encode_cons, List.length_append] at hi
    rw [utf8Encode_cons, utf16Encode_cons, List.append_assoc, utf8Loop_char hc.1, intAdd,
      if_pos (by omega), ok_bind, ih hc.2 _ _ (by omega), List.append_assoc, List.length_append,
      Nat.add_assoc]

/-- A text of well-formed bytes becomes the code units of its characters. -/
theorem utf8_to_ucs2_chars {cs : List Char} (hc : ∀ c ∈ cs, c.toNat ≠ 0)
    (hlen : (utf8Encode cs).length < 2 ^ 31) (bufcount : Nat) (errcheck : Bool) :
    utf8_to_ucs2_lf (some (utf8Encode cs)) false bufcount errcheck =
      .ok ⟨BitVec.ofNat 64 (utf16Encode cs).length, (utf16Encode cs).take bufcount ++
        if (utf16Encode cs).length < bufcount then [0] else []⟩ := by
  have hloop := utf8Loop_chars cs hc errcheck 0 [] [] (by omega)
  rw [List.append_nil, List.nil_append, utf8Loop] at hloop
  rw [utf8_to_ucs2_lf, hloop]
  rfl

/-- The bytes of a character in UTF-8, by its code units: two for each half of a pair. -/
def unitLength (u : UInt16) : Nat :=
  if u.toNat < 0x80 then 1
  else if u.toNat < 0x800 then 2
  else if 0xd800 ≤ u.toNat ∧ u.toNat < 0xe000 then 2
  else 3

theorem sum_unitLength_char (c : Char) :
    ((utf16EncodeChar c).map unitLength).sum = (String.utf8EncodeChar c).length := by
  have hlt := char_toNat_lt c
  have hsur := char_not_surrogate c
  have hnat : ∀ n : Nat, n < 0x10000 → (UInt16.ofNat n).toNat = n := by
    intro n hn
    rw [UInt16.toNat_ofNat']
    exact Nat.mod_eq_of_lt hn
  cases charForm c with
  | one h henc =>
    rw [utf16EncodeChar, if_pos (by omega), henc, List.map_singleton, unitLength,
      hnat _ (by omega), if_pos h]
    rfl
  | two hlo h henc =>
    rw [utf16EncodeChar, if_pos (by omega), henc, List.map_singleton, unitLength,
      hnat _ (by omega), if_neg (by omega), if_pos h]
    rfl
  | three hlo h henc =>
    rw [utf16EncodeChar, if_pos h, henc, List.map_singleton, unitLength, hnat _ h,
      if_neg (by omega), if_neg (by omega), if_neg hsur]
    rfl
  | four hlo henc =>
    rw [utf16EncodeChar, if_neg (by omega), henc, List.map_cons, List.map_singleton, unitLength,
      unitLength, hnat _ (by omega), hnat _ (by omega), if_neg (by omega), if_neg (by omega),
      if_pos (by omega), if_neg (by omega), if_neg (by omega), if_pos (by omega)]
    rfl

theorem sum_unitLength (cs : List Char) :
    ((utf16Encode cs).map unitLength).sum = (utf8Encode cs).length := by
  induction cs with
  | nil => rfl
  | cons c cs ih =>
    rw [utf16Encode_cons, utf8Encode_cons, List.map_append, List.sum_append, List.length_append,
      sum_unitLength_char, ih]

/-- Characters whose code units have no NUL are not NUL. -/
theorem chars_ne_zero {cs : List Char} (h0 : 0 ∉ utf16Encode cs) : ∀ c ∈ cs, c.toNat ≠ 0 := by
  intro c hc hzero
  refine h0 (List.mem_flatMap.mpr ⟨c, hc, ?_⟩)
  rw [utf16EncodeChar, hzero, if_pos (by decide)]
  exact List.mem_singleton.mpr rfl

/-- The string becomes the UTF-8 of its characters, and from that the same string again, in a buffer
of any size and also where only its length is asked for. -/
def RoundTrips (us : List UInt16) : Prop :=
  ∃ cs, us = utf16Encode cs ∧
    ucs2_to_utf8 (some us) false = .ok (some (utf8Encode cs), (utf8Encode cs).length) ∧
    ∀ bufcount errcheck, ∃ r,
      utf8_to_ucs2_lf (some (utf8Encode cs)) false bufcount errcheck = .ok r ∧
      r.rtn.toNat = us.length ∧
      r.ucs2str = us.take bufcount ++ if us.length < bufcount then [0] else []

theorem length_utf16Encode_le (cs : List Char) :
    (utf16Encode cs).length ≤ (utf8Encode cs).length := by
  rw [← sum_unitLength, ← List.length_map unitLength]
  refine List.length_le_sum_of_one_le _ fun n hn => ?_
  obtain ⟨u, -, rfl⟩ := List.mem_map.mp hn
  rw [unitLength]
  split_ifs <;> decide

/-- A string whose UTF-8 form is too long for an `int` is not converted. -/
theorem ucs2_to_utf8_overflow {us : List UInt16} (h : Paired us) (h0 : 0 ∉ us)
    (hlen : 2 ^ 31 ≤ (us.map unitLength).sum) :
    ucs2_to_utf8 (some us) false = .error .overflow := by
  obtain ⟨cs, rfl⟩ := h.exists_chars
  rw [sum_unitLength] at hlen
  rw [ucs2_to_utf8, ucs2Loop_chars cs (chars_ne_zero h0) 0 [] (by decide), if_neg (by omega)]
  rfl

/-- A string of paired surrogates without NUL comes back from UTF-8 exactly when an `int` counts
its UTF-8 form. -/
theorem utf16_round_trips_iff {us : List UInt16} (h : Paired us) (h0 : 0 ∉ us) :
    RoundTrips us ↔ (us.map unitLength).sum < 2 ^ 31 := by
  constructor
  · rintro ⟨cs, -, hrun, -⟩
    by_contra hlen
    rw [ucs2_to_utf8_overflow h h0 (by omega)] at hrun
    exact absurd hrun (by simp)
  · intro hlen
    obtain ⟨cs, rfl⟩ := h.exists_chars
    have hc := chars_ne_zero h0
    rw [sum_unitLength] at hlen
    refine ⟨cs, rfl, ?_, fun bufcount errcheck =>
      ⟨_, utf8_to_ucs2_chars hc hlen bufcount errcheck, ?_, rfl⟩⟩
    · rw [ucs2_to_utf8, ucs2Loop_chars cs hc 0 [] (by decide), if_pos (by omega)]
      rfl
    · have hle := length_utf16Encode_le cs
      rw [BitVec.toNat_ofNat]
      exact Nat.mod_eq_of_lt (by omega)

theorem utf16_round_trips_emoji : RoundTrips [0x41, 0xe9, 0x20ac, 0xd83d, 0xde00] :=
  (utf16_round_trips_iff
    (.unit (by decide) (by decide) (.unit (by decide) (by decide) (.unit (by decide) (by decide)
      (.pair (by decide) (by decide) .nil)))) (by decide)).mpr (by decide)

/-- A string of 2^30 letters of two bytes each is not converted. -/
theorem long_string_not_converted :
    Paired (List.replicate (2 ^ 30) 0xe9) ∧ 0 ∉ List.replicate (2 ^ 30) (0xe9 : UInt16) ∧
      ¬ RoundTrips (List.replicate (2 ^ 30) 0xe9) := by
  have hpaired : ∀ n, Paired (List.replicate n 0xe9) := by
    intro n
    induction n with
    | zero => exact .nil
    | succ n ih => exact .unit (by simp [IsHigh]) (by simp [IsLow]) ih
  have hzero : 0 ∉ List.replicate (2 ^ 30) (0xe9 : UInt16) := by
    rw [List.mem_replicate]
    rintro ⟨-, h⟩
    exact absurd h (by decide)
  refine ⟨hpaired _, hzero, ?_⟩
  rintro ⟨cs, -, hrun, -⟩
  have hlen : 2 ^ 31 ≤ ((List.replicate (2 ^ 30) (0xe9 : UInt16)).map unitLength).sum := by
    rw [List.map_replicate, List.sum_replicate_nat]
    decide
  rw [ucs2_to_utf8_overflow (hpaired _) hzero hlen] at hrun
  exact absurd hrun (by simp)

end OdbcDriver.Unicode
