import Mathlib.Data.List.TakeWhile
import OdbcDriver.Lib.Scanf

/-!
# Numbers in a base

The text of a number in a base up to sixteen, and how `strtoul` reads one: white space, a sign, the
prefix of a hexadecimal number, and the digits, of which letters may be in either case.

* `strtoul_text`: a number that fits is read back from its text;
* `strtoul_prefixed`: a hexadecimal one from its text behind `0x` as well.
-/

namespace OdbcDriver.Radix

open Scanf (isspace skip splitSign)

/-! ### Texts -/

/-- A digit as a character. The letters follow the nine. -/
def digitChar (d : ℕ) : UInt8 := UInt8.ofNat (if d < 10 then 0x30 + d else 0x57 + d)

/-- The value of a character as a digit. -/
def charValue (c : UInt8) : ℕ :=
  if 0x30 ≤ c ∧ c ≤ 0x39 then c.toNat - 0x30
  else if 0x61 ≤ c ∧ c ≤ 0x66 then c.toNat - 0x57
  else if 0x41 ≤ c ∧ c ≤ 0x46 then c.toNat - 0x37
  else 16

/-- `%x`, `%u` and `%o`. -/
def text (b n : ℕ) : List UInt8 :=
  if n = 0 then [0x30] else ((Nat.digits b n).map digitChar).reverse

/-- `0x` in front of digits. -/
def hexPrefix (s : List UInt8) : Bool := s.take 2 == [0x30, 0x78] || s.take 2 == [0x30, 0x58]

/-- `strtoul`, for a long of 64 bits; there is no result where there is no digit. -/
def strtoul (b : ℕ) (s : List UInt8) : Option ℕ :=
  let (neg, t) := splitSign (skip s)
  let t := if b = 16 ∧ hexPrefix t = true then t.drop 2 else t
  let ds := t.takeWhile fun c => decide (charValue c < b)
  let n := Nat.ofDigits b (ds.map charValue).reverse
  if ds = [] then none
  else if 2 ^ 64 ≤ n then some (2 ^ 64 - 1)
  else if neg then some ((2 ^ 64 - n) % 2 ^ 64)
  else some n

/-! ### Reading a text back -/

section

variable {b n : ℕ}

theorem charValue_digitChar {d : ℕ} (h : d < 16) :
    charValue (digitChar d) = d ∧ isspace (digitChar d) = false ∧ digitChar d ≠ 0x2d ∧
      digitChar d ≠ 0x2b ∧ digitChar d ≠ 0x78 ∧ digitChar d ≠ 0x58 := by
  revert d
  decide

/-- The digits of a number, the first of them in front. -/
def places (b n : ℕ) : List ℕ := if n = 0 then [0] else (Nat.digits b n).reverse

theorem text_eq (b n : ℕ) : text b n = (places b n).map digitChar := by
  rw [text, places]
  split
  · rfl
  · rw [List.map_reverse]

theorem places_ne_nil (b n : ℕ) : places b n ≠ [] := by
  rw [places]
  split
  · simp
  · simpa [Nat.digits_eq_nil_iff_eq_zero]

theorem places_lt (hb : 1 < b) : ∀ d ∈ places b n, d < b := by
  intro d hd
  rw [places] at hd
  split at hd
  · rw [List.mem_singleton.mp hd]
    omega
  · exact Nat.digits_lt_base hb (List.mem_reverse.mp hd)

theorem ofDigits_places (b n : ℕ) : Nat.ofDigits b (places b n).reverse = n := by
  rw [places]
  split
  · rename_i h
    simp [h]
  · rw [List.reverse_reverse, Nat.ofDigits_digits]

/-- What the digits of a number are read as. -/
theorem digits_read (hb : 1 < b) (hb16 : b ≤ 16) :
    (text b n).takeWhile (fun c => decide (charValue c < b)) = text b n ∧
      (text b n).map charValue = places b n := by
  rw [text_eq]
  constructor
  · rw [List.takeWhile_eq_self_iff]
    intro c hc
    obtain ⟨d, hd, rfl⟩ := List.mem_map.mp hc
    have hlt := places_lt hb d hd
    rw [(charValue_digitChar (by omega)).1]
    exact decide_eq_true hlt
  · rw [List.map_map]
    refine (List.map_congr_left fun d hd => ?_).trans (List.map_id _)
    exact (charValue_digitChar (Nat.lt_of_lt_of_le (places_lt hb d hd) hb16)).1

/-- Digits are read from where they begin. -/
theorem text_unsigned (hb : 1 < b) (hb16 : b ≤ 16) :
    skip (text b n) = text b n ∧ splitSign (text b n) = (false, text b n) := by
  obtain ⟨d, ds, hplaces⟩ := List.exists_cons_of_ne_nil (places_ne_nil b n)
  have hd : d < 16 := by
    have hlt := places_lt hb d (hplaces ▸ List.mem_cons_self)
    omega
  obtain ⟨-, hspace, hminus, hplus, -⟩ := charValue_digitChar hd
  rw [text_eq, hplaces, List.map_cons]
  constructor
  · simp [skip, hspace]
  · simp [splitSign, hminus, hplus]

theorem not_hexPrefix_text (hb : 1 < b) (hb16 : b ≤ 16) : hexPrefix (text b n) = false := by
  have hx : ∀ c ∈ text b n, c ≠ 0x78 ∧ c ≠ 0x58 := by
    intro c hc
    rw [text_eq] at hc
    obtain ⟨d, hd, rfl⟩ := List.mem_map.mp hc
    exact (charValue_digitChar (Nat.lt_of_lt_of_le (places_lt hb d hd) hb16)).2.2.2.2
  rw [hexPrefix, Bool.or_eq_false_iff, beq_eq_false_iff_ne, beq_eq_false_iff_ne]
  constructor
  · intro h
    exact (hx 0x78 (List.mem_of_mem_take (i := 2) (by simp [h]))).1 rfl
  · intro h
    exact (hx 0x58 (List.mem_of_mem_take (i := 2) (by simp [h]))).2 rfl

theorem strtoul_text (hb : 1 < b) (hb16 : b ≤ 16) (hn : n < 2 ^ 64) :
    strtoul b (text b n) = some n := by
  obtain ⟨hskip, hsign⟩ := @text_unsigned b n hb hb16
  obtain ⟨htake, hmap⟩ := @digits_read b n hb hb16
  have hne : text b n ≠ [] := by
    rw [text_eq]
    simpa using places_ne_nil b n
  simp only [strtoul, hskip, hsign, not_hexPrefix_text hb hb16, Bool.false_eq_true, and_false,
    if_false, htake, hmap, ofDigits_places, if_neg hne, if_neg (Nat.not_le.mpr hn)]

theorem strtoul_prefixed (hn : n < 2 ^ 64) :
    strtoul 16 (0x30 :: 0x78 :: text 16 n) = some n := by
  obtain ⟨htake, hmap⟩ := @digits_read 16 n (by decide) (by decide)
  have hne : text 16 n ≠ [] := by
    rw [text_eq]
    simpa using places_ne_nil 16 n
  have hskip : skip (0x30 :: 0x78 :: text 16 n) = 0x30 :: 0x78 :: text 16 n := by
    simp [skip, isspace]
  have hsign : splitSign (0x30 :: 0x78 :: text 16 n) = (false, 0x30 :: 0x78 :: text 16 n) := by
    simp [splitSign]
  have hprefix : hexPrefix (0x30 :: 0x78 :: text 16 n) = true := by
    simp [hexPrefix]
  simp only [strtoul, hskip, hsign, hprefix, Bool.false_eq_true, and_self, if_true, if_false,
    List.drop_succ_cons, List.drop_zero, htake, hmap, ofDigits_places, if_neg hne,
    if_neg (Nat.not_le.mpr hn)]

end

end OdbcDriver.Radix
