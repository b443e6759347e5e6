import OdbcDriver.Unicode.RoundTrip
import OdbcDriver.Unicode.WideChar

/-!
# One code point in each form

How the loops over UTF-32, UTF-16 and UTF-8 take one code point. A surrogate is a code point too; its
UTF-8 form is the one of three bytes that the pattern gives.
-/

namespace OdbcDriver.Unicode

open OdbcDriver.Lib

/-! ### Bytes and halves -/

theorem byteOf_toNat (w : BitVec 32) (k : Nat) :
    (byteOf w k).toNat = w.toNat / 2 ^ (8 * k) % 256 := by
  change (w.extractLsb' (8 * k) 8).toNat = _
  rw [BitVec.extractLsb'_toNat, Nat.shiftRight_eq_div_pow]

theorem unitOf_toNat (lo hi : Byte) : (unitOf lo hi).toNat = lo.toNat + hi.toNat * 256 := by
  have hlo := lo.toNat_lt
  have hhi := hi.toNat_lt
  rw [unitOf, UInt16.toNat_or, UInt16.toNat_shiftLeft, UInt8.toNat_toUInt16, UInt8.toNat_toUInt16,
    Nat.or_comm]
  change hi.toNat <<< 8 % 2 ^ 16 ||| _ = _
  rw [Nat.mod_eq_of_lt (by rw [Nat.shiftLeft_eq]; omega),
    ← Nat.shiftLeft_add_eq_or_of_lt (i := 8) hlo, Nat.shiftLeft_eq]
  omega

theorem uintOf_toNat (a b c : Byte) :
    (uintOf a b c).toNat = a.toNat + b.toNat * 2 ^ 8 + c.toNat * 2 ^ 16 := by
  have ha := a.toNat_lt
  have hb := b.toNat_lt
  have hc := c.toNat_lt
  rw [uintOf, UInt32.toNat_or, UInt32.toNat_or, UInt32.toNat_shiftLeft, UInt32.toNat_shiftLeft,
    UInt8.toNat_toUInt32, UInt8.toNat_toUInt32, UInt8.toNat_toUInt32]
  change (_ ||| b.toNat <<< 8 % 2 ^ 32) ||| c.toNat <<< 16 % 2 ^ 32 = _
  rw [Nat.mod_eq_of_lt (by rw [Nat.shiftLeft_eq]; omega),
    Nat.mod_eq_of_lt (by rw [Nat.shiftLeft_eq]; omega), Nat.or_comm a.toNat,
    ← Nat.shiftLeft_add_eq_or_of_lt (i := 8) ha, Nat.or_comm,
    ← Nat.shiftLeft_add_eq_or_of_lt (i := 16) (by rw [Nat.shiftLeft_eq]; omega), Nat.shiftLeft_eq,
    Nat.shiftLeft_eq]
  omega

/-- The bits of a byte from `k` on, below `k + n`. -/
theorem and_shiftRight_toNat (x m : Byte) (k n : Nat) (s : Byte) (hs : s.toNat % 8 = k)
    (hm : m.toNat >>> k = 2 ^ n - 1) :
    ((x &&& m) >>> s).toNat = x.toNat / 2 ^ k % 2 ^ n := by
  rw [UInt8.toNat_shiftRight, UInt8.toNat_and, hs, Nat.shiftRight_and_distrib, hm,
    Nat.and_two_pow_sub_one_eq_mod, Nat.shiftRight_eq_div_pow]

/-- The low bits of a byte, moved up. -/
theorem and_shiftLeft_toNat (x m : Byte) (k n : Nat) (s : Byte) (hs : s.toNat % 8 = k)
    (hm : m.toNat = 2 ^ n - 1) (hkn : k + n ≤ 8) :
    ((x &&& m) <<< s).toNat = x.toNat % 2 ^ n * 2 ^ k := by
  have hlt : x.toNat % 2 ^ n < 2 ^ n := Nat.mod_lt _ (Nat.two_pow_pos n)
  have hle : 2 ^ n * 2 ^ k ≤ 2 ^ 8 := by
    rw [← pow_add]
    exact Nat.pow_le_pow_right (by decide) (by omega)
  rw [UInt8.toNat_shiftLeft, UInt8.toNat_and, hs, hm, Nat.and_two_pow_sub_one_eq_mod,
    Nat.shiftLeft_eq]
  exact Nat.mod_eq_of_lt ((Nat.mul_lt_mul_of_pos_right hlt (Nat.two_pow_pos k)).trans_le hle)

/-- Two parts of a byte, one above the other. -/
theorem or_toNat (lo hi : Byte) (k a : Nat) (hlo : lo.toNat < 2 ^ k) (hhi : hi.toNat = a * 2 ^ k) :
    (lo ||| hi).toNat = lo.toNat + hi.toNat := by
  rw [UInt8.toNat_or, Nat.or_comm, hhi, ← Nat.shiftLeft_eq, ← Nat.shiftLeft_add_eq_or_of_lt hlo,
    Nat.add_comm]

theorem eq_ofNat_of_toNat {u : UInt16} {n : Nat} (h : u.toNat = n) : u = UInt16.ofNat n := by
  rw [← h, UInt16.ofNat_toNat]

theorem surrogate1_eq {w : UInt32} (h : w.toNat < 0x100000) :
    surrogate1 w = UInt16.ofNat (0xd800 + w.toNat / 0x400) := by
  have h1 := byteOf_toNat w.toBitVec 1
  have h2 := byteOf_toNat w.toBitVec 2
  change _ = w.toNat / 256 % 256 at h1
  change _ = w.toNat / 65536 % 256 at h2
  have hlow := and_shiftRight_toNat (byteOf w.toBitVec 1) 0xfc 2 6 2 rfl rfl
  have hmid := and_shiftLeft_toNat (byteOf w.toBitVec 2) 0x03 6 2 6 rfl rfl (by decide)
  have hhigh := and_shiftRight_toNat (byteOf w.toBitVec 2) 0x0c 2 2 2 rfl rfl
  refine eq_ofNat_of_toNat ?_
  rw [surrogate1, unitOf_toNat, or_toNat _ _ 6 _ (by omega) hmid, hlow, hmid,
    or_toNat _ 0xd8 3 27 (by omega) rfl, hhigh, h1, h2]
  change _ + (_ + 0xd8) * 256 = _
  omega

theorem surrogate2_eq (w : UInt32) :
    surrogate2 w = UInt16.ofNat (0xdc00 + w.toNat % 0x400) := by
  have h0 := byteOf_toNat w.toBitVec 0
  have h1 := byteOf_toNat w.toBitVec 1
  change _ = w.toNat / 1 % 256 at h0
  change _ = w.toNat / 256 % 256 at h1
  have hlow : (byteOf w.toBitVec 1 &&& 0x03).toNat = (byteOf w.toBitVec 1).toNat % 2 ^ 2 := by
    rw [UInt8.toNat_and]
    exact Nat.and_two_pow_sub_one_eq_mod _ 2
  refine eq_ofNat_of_toNat ?_
  rw [surrogate2, unitOf_toNat, or_toNat _ 0xdc 2 55 (by omega) rfl, hlow, h0, h1]
  change _ + (_ + 0xdc) * 256 = _
  omega

theorem upperByte_toNat (u : UInt16) : (upperByte u).toNat = u.toNat / 256 := by
  have hu := u.toNat_lt
  rw [upperByte, UInt16.toNat_toUInt8, UInt16.toNat_shiftRight]
  change u.toNat >>> 8 % 2 ^ 8 = _
  rw [Nat.shiftRight_eq_div_pow]
  omega

/-- The character of a surrogate pair, which begins at `0x10000`. -/
theorem pairOf_toNat (hi lo : UInt16) : (pairOf hi lo).toNat =
    0x10000 + hi.toNat % 0x400 * 0x400 + lo.toNat % 0x400 := by
  have hhi := hi.toNat_lt
  have hlo := lo.toNat_lt
  have hu1 := upperByte_toNat hi
  have hu3 := upperByte_toNat lo
  have h0 : hi.toUInt8.toNat = hi.toNat % 256 := UInt16.toNat_toUInt8 hi
  have h2 : lo.toUInt8.toNat = lo.toNat % 256 := UInt16.toNat_toUInt8 lo
  have h3 : (upperByte lo &&& 0x03).toNat = (upperByte lo).toNat % 2 ^ 2 := by
    rw [UInt8.toNat_and]
    exact Nat.and_two_pow_sub_one_eq_mod _ 2
  have hmid := and_shiftLeft_toNat hi.toUInt8 0x3f 2 6 2 rfl rfl (by decide)
  have hlow := and_shiftRight_toNat hi.toUInt8 0xc0 6 2 6 rfl rfl
  have hhigh := and_shiftLeft_toNat (upperByte hi) 0x03 2 2 2 rfl rfl (by decide)
  rw [pairOf, uintOf_toNat, or_toNat _ _ 2 _ (by omega) hmid, UInt8.toNat_add,
    or_toNat _ _ 2 _ (by omega) hhigh, h3, hmid, hlow, hhigh, h2]
  change _ + _ + (_ + 1) % 256 * _ = _
  omega

/-! ### Forms -/

/-- A code point, a surrogate or not. -/
def IsCodePoint (v : UInt32) : Prop := v.toNat < 0x110000

instance (v : UInt32) : Decidable (IsCodePoint v) := inferInstanceAs (Decidable (_ < _))

/-- The bytes of a code point in UTF-8. -/
def utf8Form (v : UInt32) : List Byte :=
  if v.toNat < 0x80 then [v.toUInt8]
  else if v.toNat < 0x800 then
    [(v >>> 6).toUInt8 &&& 0x1f ||| 0xc0, v.toUInt8 &&& 0x3f ||| 0x80]
  else if v.toNat < 0x10000 then
    [(v >>> 12).toUInt8 &&& 0x0f ||| 0xe0, (v >>> 6).toUInt8 &&& 0x3f ||| 0x80,
      v.toUInt8 &&& 0x3f ||| 0x80]
  else
    [(v >>> 18).toUInt8 &&& 0x07 ||| 0xf0, (v >>> 12).toUInt8 &&& 0x3f ||| 0x80,
      (v >>> 6).toUInt8 &&& 0x3f ||| 0x80, v.toUInt8 &&& 0x3f ||| 0x80]

/-- The code units of a code point. -/
def utf16Form (v : UInt32) : List UInt16 :=
  if v.toNat < 0x10000 then [UInt16.ofNat v.toNat]
  else [UInt16.ofNat (0xd800 + (v.toNat - 0x10000) / 0x400),
    UInt16.ofNat (0xdc00 + (v.toNat - 0x10000) % 0x400)]

theorem length_pos_utf16Form (v : UInt32) : 0 < (utf16Form v).length := by
  rw [utf16Form]
  split <;> simp

/-- The string ends at a NUL. -/
def upToNul (vs : List UInt32) : List UInt32 := vs.takeWhile (· ≠ 0)

theorem upToNul_cons {v : UInt32} (h : v ≠ 0) (vs : List UInt32) :
    upToNul (v :: vs) = v :: upToNul vs := by
  rw [upToNul, List.takeWhile_cons_of_pos (by simpa using h)]
  rfl

/-- The bytes of some code points. -/
def utf8Forms (vs : List UInt32) : List Byte := vs.flatMap utf8Form

/-- The code units of some code points. -/
def utf16Forms (vs : List UInt32) : List UInt16 := vs.flatMap utf16Form

/-- A string in a buffer of `bufcount` units, with a terminator where there is room for one. -/
def inBuffer {α : Type} [OfNat α 0] (bufcount : Nat) (units : List α) : List α :=
  units.take bufcount ++ if units.length < bufcount then [0] else []

/-- The form of a character is the one that Lean writes. -/
theorem utf8Form_char (c : Char) : utf8Form c.val = String.utf8EncodeChar c := by
  have hval : c.val.toNat = c.toNat := rfl
  cases charForm c with
  | one h henc => rw [henc, utf8Form, if_pos (by omega)]
  | two hlo h henc => rw [henc, utf8Form, if_neg (by omega), if_pos (by omega)]
  | three hlo h henc =>
    rw [henc, utf8Form, if_neg (by omega), if_neg (by omega), if_pos (by omega)]
  | four hlo henc =>
    rw [henc, utf8Form, if_neg (by omega), if_neg (by omega), if_neg (by omega)]

theorem utf16Form_char (c : Char) : utf16Form c.val = utf16EncodeChar c := rfl

/-- Some bits of a byte, as a wider number, moved up. -/
theorem wide_bits_toNat (x : Byte) (m : UInt32) (n k : Nat) (s : UInt32) (hs : s.toNat % 32 = k)
    (hm : m.toNat = 2 ^ n - 1) (hkn : n + k ≤ 32) :
    ((x.toUInt32 &&& m) <<< s).toNat = x.toNat % 2 ^ n * 2 ^ k := by
  have hlt : x.toNat % 2 ^ n < 2 ^ n := Nat.mod_lt _ (Nat.two_pow_pos n)
  have hle : 2 ^ n * 2 ^ k ≤ 2 ^ 32 := by
    rw [← pow_add]
    exact Nat.pow_le_pow_right (by decide) hkn
  rw [UInt32.toNat_shiftLeft, UInt32.toNat_and, hs, hm, UInt8.toNat_toUInt32,
    Nat.and_two_pow_sub_one_eq_mod, Nat.shiftLeft_eq]
  exact Nat.mod_eq_of_lt ((Nat.mul_lt_mul_of_pos_right hlt (Nat.two_pow_pos k)).trans_le hle)

theorem low_bits_toNat (x : Byte) : (x.toUInt32 &&& 0x3f).toNat = x.toNat % 64 := by
  rw [UInt32.toNat_and, UInt8.toNat_toUInt32]
  exact Nat.and_two_pow_sub_one_eq_mod _ 6

/-- Two parts of a number, one above the other. -/
theorem or_toNat32 (hi lo : UInt32) (k a : Nat) (hlo : lo.toNat < 2 ^ k)
    (hhi : hi.toNat = a * 2 ^ k) : (hi ||| lo).toNat = hi.toNat + lo.toNat := by
  rw [UInt32.toNat_or, hhi, ← Nat.shiftLeft_eq, ← Nat.shiftLeft_add_eq_or_of_lt hlo]

theorem shifted_toNat (v : UInt32) (s : UInt32) (k : Nat) (hs : s.toNat % 32 = k) :
    (v >>> s).toUInt8.toNat = v.toNat / 2 ^ k % 256 := by
  rw [UInt32.toNat_toUInt8, UInt32.toNat_shiftRight, hs, Nat.shiftRight_eq_div_pow]

theorem wcode2_bytes {v : UInt32} (h : v.toNat < 0x800) :
    wcode2 ((v >>> 6).toUInt8 &&& 0x1f ||| 0xc0) (v.toUInt8 &&& 0x3f ||| 0x80) = v := by
  have h6 := shifted_toNat v 6 6 rfl
  have h0 : v.toUInt8.toNat = v.toNat % 256 := UInt32.toNat_toUInt8 v
  have ha := head2_toNat (v >>> 6).toUInt8
  have hb := tail_toNat v.toUInt8
  refine UInt32.toNat_inj.mp ?_
  have hhi := wide_bits_toNat ((v >>> 6).toUInt8 &&& 0x1f ||| 0xc0) 0x1f 5 6 6 rfl rfl (by decide)
  have hlo := low_bits_toNat (v.toUInt8 &&& 0x3f ||| 0x80)
  rw [wcode2, UInt16.toNat_toUInt32, UInt32.toNat_toUInt16, or_toNat32 _ _ 6 _ (by omega) hhi, hhi,
    hlo]
  omega

/-- The bits of a character that one of its bytes keeps under the byte's mark, moved back up. -/
theorem kept_bits_toNat (v s : UInt32) (m mark : Byte) (m' : UInt32) (n c k : Nat)
    (hs : s.toNat % 32 = k) (hm : m.toNat = 2 ^ n - 1) (hmark : mark.toNat = 2 ^ n * c)
    (hm' : m'.toNat = 2 ^ n - 1) (hn : n ≤ 8) (hk : n + k ≤ 32) :
    ((((v >>> s).toUInt8 &&& m ||| mark).toUInt32 &&& m') <<< s).toNat =
      v.toNat / 2 ^ k % 2 ^ n * 2 ^ k := by
  have hsplit : (256 : Nat) = 2 ^ n * 2 ^ (8 - n) := by
    rw [← pow_add, Nat.add_sub_cancel' hn]
    rfl
  rw [wide_bits_toNat _ m' n k s hs hm' hk, headed_toNat _ m mark n c hm hmark,
    shifted_toNat v s k hs, hmark, Nat.mul_add_mod_self_left, Nat.mod_mod, hsplit,
    Nat.mod_mul_right_mod]

/-- The lowest bits of a character. -/
theorem lowest_bits_toNat (v : UInt32) :
    ((v.toUInt8 &&& 0x3f ||| 0x80).toUInt32 &&& 0x3f).toNat = v.toNat % 64 := by
  have h : v.toUInt8.toNat = v.toNat % 256 := UInt32.toNat_toUInt8 v
  rw [low_bits_toNat, tail_toNat, h]
  omega

/-- Some bits that have been moved up lie below a power of two. -/
theorem moved_lt {a m k : Nat} (n j : Nat) (ha : a = n % m * 2 ^ j) (hm : m * 2 ^ j ≤ 2 ^ k)
    (hpos : 0 < m) : a < 2 ^ k := by
  rw [ha]
  exact (Nat.mul_lt_mul_of_pos_right (Nat.mod_lt n hpos) (Nat.two_pow_pos j)).trans_le hm

theorem bits_of_three {n : Nat} (h : n < 0x10000) :
    n / 2 ^ 12 % 2 ^ 4 * 2 ^ 12 + n / 2 ^ 6 % 2 ^ 6 * 2 ^ 6 + n % 64 = n := by
  omega

theorem bits_of_four {n : Nat} (h : n < 0x110000) :
    n / 2 ^ 18 % 2 ^ 3 * 2 ^ 18 + n / 2 ^ 12 % 2 ^ 6 * 2 ^ 12 + n / 2 ^ 6 % 2 ^ 6 * 2 ^ 6 + n % 64 =
      n := by
  omega

theorem wcode3_bytes {v : UInt32} (h : v.toNat < 0x10000) :
    wcode3 ((v >>> 12).toUInt8 &&& 0x0f ||| 0xe0) ((v >>> 6).toUInt8 &&& 0x3f ||| 0x80)
      (v.toUInt8 &&& 0x3f ||| 0x80) = v := by
  have hhi := kept_bits_toNat v 12 0x0f 0xe0 0x0f 4 14 12 rfl rfl rfl rfl (by decide) (by decide)
  have hmid := kept_bits_toNat v 6 0x3f 0x80 0x3f 6 2 6 rfl rfl rfl rfl (by decide) (by decide)
  have hlo := lowest_bits_toNat v
  have htop := (or_toNat32 _ _ 12 _ (moved_lt _ 6 hmid (by decide) (by decide)) hhi).trans
    (congrArg₂ (· + ·) hhi hmid)
  refine UInt32.toNat_inj.mp ?_
  rw [wcode3, or_toNat32 _ _ 6 (v.toNat / 2 ^ 12 % 2 ^ 4 * 2 ^ 6 + v.toNat / 2 ^ 6 % 2 ^ 6)
    (hlo.trans_lt (Nat.mod_lt _ (by decide))) (htop.trans (by ring)), htop, hlo]
  exact bits_of_three h

theorem wcode4_bytes {v : UInt32} (h : v.toNat < 0x110000) :
    wcode4 ((v >>> 18).toUInt8 &&& 0x07 ||| 0xf0) ((v >>> 12).toUInt8 &&& 0x3f ||| 0x80)
      ((v >>> 6).toUInt8 &&& 0x3f ||| 0x80) (v.toUInt8 &&& 0x3f ||| 0x80) = v := by
  have h1 := kept_bits_toNat v 18 0x07 0xf0 0x07 3 30 18 rfl rfl rfl rfl (by decide) (by decide)
  have h2 := kept_bits_toNat v 12 0x3f 0x80 0x3f 6 2 12 rfl rfl rfl rfl (by decide) (by decide)
  have h3 := kept_bits_toNat v 6 0x3f 0x80 0x3f 6 2 6 rfl rfl rfl rfl (by decide) (by decide)
  have hlo := lowest_bits_toNat v
  have htop := (or_toNat32 _ _ 18 _ (moved_lt _ 12 h2 (by decide) (by decide)) h1).trans
    (congrArg₂ (· + ·) h1 h2)
  have hmid := (or_toNat32 _ _ 12 (v.toNat / 2 ^ 18 % 2 ^ 3 * 2 ^ 6 + v.toNat / 2 ^ 12 % 2 ^ 6)
    (moved_lt _ 6 h3 (by decide) (by decide)) (htop.trans (by ring))).trans
    (congrArg₂ (· + ·) htop h3)
  refine UInt32.toNat_inj.mp ?_
  rw [wcode4, or_toNat32 _ _ 6 (v.toNat / 2 ^ 18 % 2 ^ 3 * 2 ^ 12 +
      v.toNat / 2 ^ 12 % 2 ^ 6 * 2 ^ 6 + v.toNat / 2 ^ 6 % 2 ^ 6)
    (hlo.trans_lt (Nat.mod_lt _ (by decide))) (hmid.trans (by ring)), hmid, hlo]
  exact bits_of_four h

theorem byte4code4_bytes (v : UInt32) :
    [byteOf (byte4code4 v.toBitVec) 0, byteOf (byte4code4 v.toBitVec) 1,
        byteOf (byte4code4 v.toBitVec) 2, byteOf (byte4code4 v.toBitVec) 3] =
      [(v >>> 18).toUInt8 &&& 0x07 ||| 0xf0, (v >>> 12).toUInt8 &&& 0x3f ||| 0x80,
        (v >>> 6).toUInt8 &&& 0x3f ||| 0x80, v.toUInt8 &&& 0x3f ||| 0x80] := by
  simp only [List.cons.injEq, and_true, ← UInt8.toBitVec_inj, byteOf, byte4code4]
  refine ⟨?_, ?_, ?_, ?_⟩ <;> ext i hi <;> interval_cases i <;> simp

theorem byte4_iff (w : BitVec 32) : w &&& 0xffff0000 = 0 ↔ w.toNat < 0x10000 := by
  have h := CInt.toNat_and_high w 16
  change (w &&& 0xffff0000).toNat = _ at h
  rw [← BitVec.toNat_inj, h]
  change _ = 0 ↔ _
  omega

/-! ### What has been written -/

section Written

variable {α : Type} {n : Nat} {xs : List α} {x : α}

/-- The units `xs` have been written. -/
def Written.of (n : Nat) (xs : List α) : Written α := ⟨xs.length, xs.take n⟩

theorem take_snoc : (if xs.length < n then xs.take n ++ [x] else xs.take n) =
    (xs ++ [x]).take n := by
  split
  · next h =>
    have hlen : (xs ++ [x]).length ≤ n := by
      rw [List.length_append]
      exact h
    rw [List.take_of_length_le h.le, List.take_of_length_le hlen]
  · next h => rw [List.take_append_of_le_length (by omega)]

@[simp]
theorem Written.put_of : (Written.of n xs).put n x = .of n (xs ++ [x]) := by
  rw [put, of, of, take_snoc, List.length_append, List.length_singleton]

theorem Written.putInt_of : (Written.of n xs).putInt n x =
    if xs.length + 1 < 2 ^ 31 then .ok (.of n (xs ++ [x])) else .error .overflow := by
  rw [putInt, of, of, List.length_append, List.length_singleton, ← take_snoc, intAdd]
  split <;> rfl

theorem Written.empty_eq : (Written.empty : Written α) = .of n [] := by
  rw [of, List.take_nil]
  rfl

end Written

/-! ### One code point to UTF-8 -/

section Steps

variable {v : UInt32}

/-- The loop of `ucs4_to_utf8` writes a code point, where an `int` counts its bytes. -/
theorem ucs4Utf8Loop_form (h0 : v ≠ 0) (i len : Nat) (out : List Byte) (rest : List UInt32) :
    ucs4Utf8Loop false i len out (v :: rest) =
      intAdd len (utf8Form v).length >>= fun len => intAdd i 1 >>= fun i =>
        ucs4Utf8Loop false i len (out ++ utf8Form v) rest := by
  have hval : v.toBitVec.toNat = v.toNat := rfl
  have hne : v.toBitVec ≠ 0 := fun h => h0 (UInt32.toBitVec_inj.mp h)
  rw [ucs4Utf8Loop.eq_def, utf8Form]
  simp only [hne, if_false, ascii_iff, byte2_iff, byte4_iff, hval]
  split
  · rw [← byteOf_zero]
    rfl
  · split
    · rw [← byte2code_bytes]
      rfl
    · split
      · rw [← byte3code_bytes]
        rfl
      · rw [← byte4code4_bytes]
        rfl

/-! ### One code point from UTF-8 -/

/-- A carriage return is to be inserted: before a line feed behind no carriage return. -/
def StartsLine (prev : Option Byte) (v : UInt32) : Prop := v = 0x0a ∧ prev ≠ some 0x0d

instance (prev : Option Byte) (v : UInt32) : Decidable (StartsLine prev v) :=
  inferInstanceAs (Decidable (_ ∧ _))

theorem startsLine_ascii (prev : Option Byte) (h : v.toNat < 0x80) :
    v.toUInt8 = 0x0a ∧ prev ≠ some 0x0d ↔ StartsLine prev v := by
  refine and_congr_left fun _ => ?_
  rw [← UInt8.toNat_inj, ← UInt32.toNat_inj, UInt32.toNat_toUInt8]
  change _ % 256 = 10 ↔ _ = 10
  omega

theorem not_startsLine (prev : Option Byte) (h : 0x80 ≤ v.toNat) : ¬ StartsLine prev v := by
  rintro ⟨rfl, -⟩
  exact absurd h (by decide)

/-- The first byte of a form says how many there are. -/
theorem utf8Form_step {P : List Byte → Prop} (hv : IsCodePoint v)
    (one : v.toNat < 0x80 → P [v.toUInt8])
    (two : 0x80 ≤ v.toNat → v.toNat < 0x800 → ∀ a b, 0xc0 ≤ a.toNat → a.toNat < 0xe0 →
      highClear b = false → wide2 a b = UInt16.ofNat v.toNat → wcode2 a b = v → P [a, b])
    (three : 0x800 ≤ v.toNat → v.toNat < 0x10000 → ∀ a b c, 0xe0 ≤ a.toNat → a.toNat < 0xf0 →
      highClear b = false → highClear c = false → wide3 a b c = UInt16.ofNat v.toNat →
      wcode3 a b c = v → P [a, b, c])
    (four : 0x10000 ≤ v.toNat → ∀ a b c d, 0xf0 ≤ a.toNat → a.toNat < 0xf8 →
      highClear b = false → highClear c = false → highClear d = false →
      [wide4Hi a b c, wide4Lo c d] = utf16Form v → wcode4 a b c d = v → P [a, b, c, d]) :
    P (utf8Form v) := by
  have hlt : v.toNat < 0x110000 := hv
  rw [utf8Form]
  split
  · next h => exact one h
  · next h =>
    split
    · next h' =>
      have ha := head2_toNat (v >>> 6).toUInt8
      exact two (by omega) h' _ _ (by omega) (by omega) (tail_highClear _) (wide2_bytes h')
        (wcode2_bytes h')
    · next h' =>
      split
      · next h'' =>
        have ha := head3_toNat (v >>> 12).toUInt8
        exact three (by omega) h'' _ _ _ (by omega) (by omega) (tail_highClear _) (tail_highClear _)
          (wide3_bytes v) (wcode3_bytes h'')
      · next h'' =>
        have ha := head4_toNat (v >>> 18).toUInt8
        have hmod : (v.toNat - 0x10000) % 0x400 = v.toNat % 0x400 := by omega
        refine four (by omega) _ _ _ _ (by omega) (by omega) (tail_highClear _) (tail_highClear _)
          (tail_highClear _) ?_ (wcode4_bytes hlt)
        rw [wide4Hi_bytes (by omega) hlt, wide4Lo_bytes, utf16Form, if_neg h'', hmod]

/-- The loop of `utf8_to_ucs2_lf` reads a code point, where an `int` counts its bytes. -/
theorem utf8Loop_form (hv : IsCodePoint v) (h0 : v ≠ 0) (lfconv errcheck : Bool) (i : Nat)
    (prev : Option Byte) (out : List UInt16) (str : List Byte) :
    utf8Loop lfconv errcheck i prev out (utf8Form v ++ str) =
      intAdd i (utf8Form v).length >>= fun i =>
        utf8Loop lfconv errcheck i (utf8Form v).getLast?
          (out ++ (if lfconv ∧ StartsLine prev v then [0x0d] else []) ++ utf16Form v) str := by
  refine utf8Form_step (P := fun s => utf8Loop lfconv errcheck i prev out (s ++ str) =
    intAdd i s.length >>= fun i => utf8Loop lfconv errcheck i s.getLast?
      (out ++ (if lfconv ∧ StartsLine prev v then [0x0d] else []) ++ utf16Form v) str) hv ?_ ?_ ?_ ?_
  · intro h
    have ha : v.toUInt8.toNat = v.toNat := by
      rw [UInt32.toNat_toUInt8]
      omega
    have hne : v.toUInt8 ≠ 0 := by
      rw [ne_eq, ← UInt8.toNat_inj, ha]
      exact fun h => h0 (UInt32.toNat_inj.mp h)
    have hunit : utf16Form v = [v.toUInt8.toUInt16] := by
      rw [utf16Form, if_pos (by omega), ← UInt16.ofNat_toNat (x := v.toUInt8.toUInt16),
        UInt8.toNat_toUInt16, ha]
    rw [List.singleton_append, utf8Loop.eq_def]
    simp only [hne, if_false, highClear_iff, ha, h, if_true, startsLine_ascii prev h, hunit]
    rfl
  all_goals intro hlo
  · intro hhi a b hlead hlead' hb hwide _
    have hunit : utf16Form v = [wide2 a b] := by
      rw [hwide, utf16Form, if_pos (by omega)]
    have hne := lead_ne_zero (a := a) (by omega)
    rw [if_neg (fun h => not_startsLine prev hlo h.2), List.append_nil, hunit, List.cons_append,
      List.singleton_append, utf8Loop.eq_def]
    simp only [hne, if_false, highClear_iff, lead5_iff, lead4_iff, lead3_iff, lead2_iff]
    rw [if_neg (by omega), if_neg (by omega), if_neg (by omega), if_neg (by omega),
      if_pos ⟨hlead, hlead'⟩]
    simp only [hb, Bool.false_eq_true, and_false, if_false]
    rfl
  · intro hhi a b c hlead hlead' hb hc hwide _
    have hunit : utf16Form v = [wide3 a b c] := by
      rw [hwide, utf16Form, if_pos (by omega)]
    have hne := lead_ne_zero (a := a) (by omega)
    rw [if_neg (fun h => not_startsLine prev (by omega) h.2), List.append_nil, hunit,
      List.cons_append, List.cons_append, List.singleton_append, utf8Loop.eq_def]
    simp only [hne, if_false, highClear_iff, lead5_iff, lead4_iff, lead3_iff, lead2_iff]
    rw [if_neg (by omega), if_neg (by omega), if_neg (by omega), if_pos ⟨hlead, hlead'⟩]
    simp only [hb, hc, Bool.false_eq_true, or_self, and_false, if_false]
    rfl
  · intro a b c d hlead hlead' hb hc hd hwide _
    have hne := lead_ne_zero (a := a) (by omega)
    rw [if_neg (fun h => not_startsLine prev (by omega) h.2), List.append_nil, ← hwide,
      List.cons_append, List.cons_append, List.cons_append, List.singleton_append,
      utf8Loop.eq_def]
    simp only [hne, if_false, highClear_iff, lead5_iff, lead4_iff, lead3_iff, lead2_iff]
    rw [if_neg (by omega), if_neg (by omega), if_pos ⟨hlead, hlead'⟩]
    simp only [hb, hc, hd, Bool.false_eq_true, or_self, and_false, if_false]
    rfl

/-- The loop of `utf8_to_ucs4_lf` reads a code point, where an `int` counts its bytes. -/
theorem utf8Ucs4Loop_form (hv : IsCodePoint v) (h0 : v ≠ 0) (lfconv errcheck : Bool) (n i : Nat)
    (prev : Option Byte) (out : List UInt32) (str : List Byte) :
    utf8Ucs4Loop lfconv errcheck n i prev (.of n out) (utf8Form v ++ str) =
      intAdd i (utf8Form v).length >>= fun i =>
        utf8Ucs4Loop lfconv errcheck n i (utf8Form v).getLast?
          (.of n (out ++ (if lfconv ∧ StartsLine prev v then [0x0d] else []) ++ [v])) str := by
  refine utf8Form_step
    (P := fun s => utf8Ucs4Loop lfconv errcheck n i prev (.of n out) (s ++ str) =
      intAdd i s.length >>= fun i => utf8Ucs4Loop lfconv errcheck n i s.getLast?
        (.of n (out ++ (if lfconv ∧ StartsLine prev v then [0x0d] else []) ++ [v])) str)
    hv ?_ ?_ ?_ ?_
  · intro h
    have ha : v.toUInt8.toNat = v.toNat := by
      rw [UInt32.toNat_toUInt8]
      omega
    have hne : v.toUInt8 ≠ 0 := by
      rw [ne_eq, ← UInt8.toNat_inj, ha]
      exact fun h => h0 (UInt32.toNat_inj.mp h)
    have hwide : v.toUInt8.toUInt32 = v := by
      rw [← UInt32.toNat_inj, UInt8.toNat_toUInt32, ha]
    rw [List.singleton_append, utf8Ucs4Loop.eq_def]
    simp only [hne, if_false, highClear_iff, ha, h, if_true, startsLine_ascii prev h, hwide]
    split
    · simp
    · simp
  all_goals intro hlo
  · intro hhi a b hlead hlead' hb _ hcode
    have hne := lead_ne_zero (a := a) (by omega)
    rw [if_neg (fun h => not_startsLine prev hlo h.2), List.append_nil, List.cons_append,
      List.singleton_append, utf8Ucs4Loop.eq_def]
    simp only [hne, if_false, highClear_iff, lead5_iff, lead4_iff, lead3_iff, lead2_iff]
    rw [if_neg (by omega), if_neg (by omega), if_neg (by omega), if_neg (by omega),
      if_pos ⟨hlead, hlead'⟩]
    simp only [hb, Bool.false_eq_true, and_false, if_false, hcode, Written.put_of]
    rfl
  · intro hhi a b c hlead hlead' hb hc _ hcode
    have hne := lead_ne_zero (a := a) (by omega)
    rw [if_neg (fun h => not_startsLine prev (by omega) h.2), List.append_nil, List.cons_append,
      List.cons_append, List.singleton_append, utf8Ucs4Loop.eq_def]
    simp only [hne, if_false, highClear_iff, lead5_iff, lead4_iff, lead3_iff, lead2_iff]
    rw [if_neg (by omega), if_neg (by omega), if_neg (by omega), if_pos ⟨hlead, hlead'⟩]
    simp only [hb, hc, Bool.false_eq_true, or_self, and_false, if_false, hcode, Written.put_of]
    rfl
  · intro a b c d hlead hlead' hb hc hd _ hcode
    have hne := lead_ne_zero (a := a) (by omega)
    rw [if_neg (fun h => not_startsLine prev (by omega) h.2), List.append_nil, List.cons_append,
      List.cons_append, List.cons_append, List.singleton_append, utf8Ucs4Loop.eq_def]
    simp only [hne, if_false, highClear_iff, lead5_iff, lead4_iff, lead3_iff, lead2_iff]
    rw [if_neg (by omega), if_neg (by omega), if_pos ⟨hlead, hlead'⟩]
    simp only [hb, hc, hd, Bool.false_eq_true, or_self, and_false, if_false, hcode, Written.put_of]
    rfl

/-! ### One code point to UTF-16, and from it -/

theorem upperHalf_iff (v : UInt32) : upperHalf v = 0 ↔ v.toNat < 0x10000 := by
  have hlt := v.toNat_lt
  rw [upperHalf, ← UInt16.toNat_inj, UInt32.toNat_toUInt16, UInt32.toNat_shiftRight]
  change v.toNat >>> 16 % 2 ^ 16 = 0 ↔ _
  rw [Nat.shiftRight_eq_div_pow]
  omega

theorem lowerHalf_eq (v : UInt32) : lowerHalf v = UInt16.ofNat v.toNat := by
  rw [lowerHalf, ← UInt16.toNat_inj, UInt32.toNat_toUInt16, UInt16.toNat_ofNat']

/-- What `ucs4_to_ucs2_lf` takes for a line feed behind no carriage return. -/
def LooksLikeLine (prev : Option UInt32) (v : UInt32) : Prop :=
  v.toNat < 0x10000 ∧ v.toUInt8 = 0x0a ∧ prev.map UInt32.toUInt8 ≠ some 0x0d

instance (prev : Option UInt32) (v : UInt32) : Decidable (LooksLikeLine prev v) :=
  inferInstanceAs (Decidable (_ ∧ _))

/-- The loop of `ucs4_to_ucs2_lf` takes a code point, where an `int` counts its units. -/
theorem ucs4Loop_form (hv : IsCodePoint v) (h0 : v ≠ 0) (lfconv : Bool) (n i : Nat)
    (prev : Option UInt32) (out : List UInt16) (rest : List UInt32) :
    ucs4Loop lfconv n i prev (.of n out) (v :: rest) =
      if (out ++ ((if lfconv ∧ LooksLikeLine prev v then [0x0d] else []) ++ utf16Form v)).length <
          2 ^ 31 then
        intAdd i 1 >>= fun i => ucs4Loop lfconv n i (some v)
          (.of n (out ++ ((if lfconv ∧ LooksLikeLine prev v then [0x0d] else []) ++ utf16Form v)))
          rest
      else .error .overflow := by
  have hlt : v.toNat < 0x110000 := hv
  rw [ucs4Loop.eq_def]
  simp only [h0, if_false, upperHalf_iff, utf16Form]
  split
  · next h =>
    simp only [LooksLikeLine, h, true_and, lowerHalf_eq]
    split
    · rw [Written.putInt_of]
      split
      · rw [ok_bind, Written.putInt_of]
        split <;> simp_all
      · rw [error_bind, if_neg (by simp; omega)]
    · rw [pure_eq_ok, ok_bind, Written.putInt_of]
      split <;> simp_all
  · next h =>
    have hsub : (v - 0x10000).toNat = v.toNat - 0x10000 := by
      rw [UInt32.toNat_sub]
      change (2 ^ 32 - 0x10000 + v.toNat) % 2 ^ 32 = _
      omega
    have hnot : ¬ (lfconv = true ∧ LooksLikeLine prev v) := fun hline => h hline.2.1
    rw [if_neg hnot, List.nil_append, surrogate1_eq (by omega), surrogate2_eq, hsub,
      Written.putInt_of]
    split
    · rw [ok_bind, Written.putInt_of]
      split <;> simp_all
    · rw [error_bind, if_neg (by simp; omega)]

/-- The loop of `ucs2_to_ucs4` takes the units of a scalar value, where an `int` counts. -/
theorem ucs2Ucs4Loop_form (hv : IsCodePoint v) (h0 : v ≠ 0)
    (hsur : ¬ (0xd800 ≤ v.toNat ∧ v.toNat < 0xe000)) (n i : Nat) (out : List UInt32)
    (us : List UInt16) :
    ucs2Ucs4Loop n i (.of n out) (utf16Form v ++ us) =
      if out.length + 1 < 2 ^ 31 then
        intAdd i (utf16Form v).length >>= fun i => ucs2Ucs4Loop n i (.of n (out ++ [v])) us
      else .error .overflow := by
  have hlt : v.toNat < 0x110000 := hv
  have hhigh : ∀ u : UInt16, upperByte u &&& 0xfc = 0xd8 ↔ u.toNat / 0x400 = 54 := by
    intro u
    have h := byte_and_iff (upperByte u) 0xd8 2
    change 0xd8 = upperByte u &&& 0xfc ↔ _ = 0xd8 at h
    rw [eq_comm, h, upperByte_toNat]
    omega
  have hto : ∀ m : Nat, m < 0x10000 → (UInt16.ofNat m).toNat = m := by
    intro m hm
    rw [UInt16.toNat_ofNat']
    exact Nat.mod_eq_of_lt hm
  rw [utf16Form]
  split
  · next h =>
    have hu := hto v.toNat h
    have hne : UInt16.ofNat v.toNat ≠ 0 := by
      rw [ne_eq, ← UInt16.toNat_inj, hu]
      exact fun h => h0 (UInt32.toNat_inj.mp h)
    have hvalue : uintOf (UInt16.ofNat v.toNat).toUInt8 (upperByte (UInt16.ofNat v.toNat)) 0 = v := by
      rw [← UInt32.toNat_inj, uintOf_toNat, upperByte_toNat, UInt16.toNat_toUInt8, hu]
      change _ + _ + 0 * _ = _
      omega
    rw [List.singleton_append, ucs2Ucs4Loop.eq_def]
    simp only [hne, if_false, hhigh, hu]
    rw [if_neg (by omega), hvalue, Written.putInt_of]
    split <;> rfl
  · next h =>
    have hhi := hto (0xd800 + (v.toNat - 0x10000) / 0x400) (by omega)
    have hlo := hto (0xdc00 + (v.toNat - 0x10000) % 0x400) (by omega)
    have hne : UInt16.ofNat (0xd800 + (v.toNat - 0x10000) / 0x400) ≠ 0 := by
      rw [ne_eq, ← UInt16.toNat_inj, hhi]
      change ¬ _ = 0
      omega
    have hvalue : pairOf (UInt16.ofNat (0xd800 + (v.toNat - 0x10000) / 0x400))
        (UInt16.ofNat (0xdc00 + (v.toNat - 0x10000) % 0x400)) = v := by
      rw [← UInt32.toNat_inj, pairOf_toNat, hhi, hlo]
      omega
    rw [List.cons_append, List.singleton_append, ucs2Ucs4Loop.eq_def]
    simp only [hne, if_false, hhigh, hhi]
    rw [if_pos (by omega), hvalue, Written.putInt_of]
    split <;> rfl

end Steps

end OdbcDriver.Unicode
