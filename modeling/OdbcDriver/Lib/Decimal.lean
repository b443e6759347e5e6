import Mathlib.Data.Nat.Digits.Defs
import Mathlib.Data.Rat.Defs
import Mathlib.Data.UInt
import Mathlib.Tactic.Ring

/-!
# Decimal texts

A decimal text is an optional minus sign, digits, and optionally a point with further digits behind
it; it denotes a rational number. `digitsValue` is the number its digits spell without the point.
The digits of a number that was divided by ten again and again stand in an array with the last one
first: `descending` writes them out from some place on, with zeros in front.
-/

namespace OdbcDriver.Decimal

/-! ### Numbers in bytes -/

/-- The number in an array of bytes, of which the first is the least significant. -/
def limbs (xs : List UInt8) : ℕ := Nat.ofDigits 256 (xs.map UInt8.toNat)

@[simp]
theorem limbs_nil : limbs [] = 0 := rfl

theorem limbs_cons (x : UInt8) (xs : List UInt8) : limbs (x :: xs) = x.toNat + 256 * limbs xs :=
  Nat.ofDigits_cons

theorem limbs_append (xs ys : List UInt8) :
    limbs (xs ++ ys) = limbs xs + 256 ^ xs.length * limbs ys := by
  rw [limbs, List.map_append, Nat.ofDigits_append, List.length_map, limbs, limbs]

theorem limbs_lt (xs : List UInt8) : limbs xs < 256 ^ xs.length := by
  have hlt := Nat.ofDigits_lt_base_pow_length (b := 256) (l := xs.map UInt8.toNat) (by decide)
    fun n hn => by
      obtain ⟨x, -, rfl⟩ := List.mem_map.mp hn
      exact x.toNat_lt
  rwa [List.length_map] at hlt

theorem limbs_eq_zero {xs : List UInt8} : limbs xs = 0 ↔ ∀ x ∈ xs, x = 0 := by
  induction xs with
  | nil => simp
  | cons x xs ih =>
    have hx : x.toNat = 0 ↔ x = 0 := by rw [← UInt8.toNat_inj]; rfl
    rw [limbs_cons, Nat.add_eq_zero_iff, hx, List.forall_mem_cons, ← ih, Nat.mul_eq_zero]
    simp

/-! ### Digits -/

/-- A decimal digit, as a character. -/
def IsDigit (c : UInt8) : Prop := 0x30 ≤ c.toNat ∧ c.toNat ≤ 0x39

instance (c : UInt8) : Decidable (IsDigit c) := inferInstanceAs (Decidable (_ ∧ _))

/-- The value of a digit. -/
def digit (c : UInt8) : ℕ := c.toNat - 0x30

/-- The number that digits spell. -/
def digitsValue (ds : List UInt8) : ℕ := Nat.ofDigits 10 (ds.map digit).reverse

@[simp]
theorem digitsValue_nil : digitsValue [] = 0 := rfl

theorem digitsValue_append (ds es : List UInt8) :
    digitsValue (ds ++ es) = digitsValue ds * 10 ^ es.length + digitsValue es := by
  rw [digitsValue, List.map_append, List.reverse_append, Nat.ofDigits_append, List.length_reverse,
    List.length_map, digitsValue, digitsValue]
  ring

theorem digitsValue_singleton (c : UInt8) : digitsValue [c] = digit c := Nat.ofDigits_singleton

theorem digitsValue_cons (c : UInt8) (ds : List UInt8) :
    digitsValue (c :: ds) = digit c * 10 ^ ds.length + digitsValue ds := by
  rw [← List.singleton_append, digitsValue_append, digitsValue_singleton]

theorem digit_lt {c : UInt8} (h : IsDigit c) : digit c < 10 := by
  have := h.2
  rw [digit]
  omega

theorem digitsValue_lt {ds : List UInt8} (h : ∀ c ∈ ds, IsDigit c) :
    digitsValue ds < 10 ^ ds.length := by
  have hlt := Nat.ofDigits_lt_base_pow_length (b := 10) (l := (ds.map digit).reverse) (by decide)
    fun x hx => by
      obtain ⟨c, hc, rfl⟩ := List.mem_map.mp (List.mem_reverse.mp hx)
      exact digit_lt (h c hc)
  rwa [List.length_reverse, List.length_map] at hlt

/-- That bytes are digits is computed. -/
theorem all_digits {ds : List UInt8} (h : ds.all (fun c => decide (IsDigit c)) = true) :
    ∀ c ∈ ds, IsDigit c := by
  simpa using h

theorem all_frac_digits {frac : Option (List UInt8)}
    (h : (frac.getD []).all (fun c => decide (IsDigit c)) = true) :
    ∀ ds ∈ frac, ∀ c ∈ ds, IsDigit c := by
  intro ds hds
  obtain rfl := Option.mem_def.mp hds
  exact all_digits h

/-! ### Texts -/

/-- A decimal text, in its parts. -/
structure Text where
  neg : Bool
  int : List UInt8
  frac : Option (List UInt8)
  int_digits : ∀ c ∈ int, IsDigit c
  frac_digits : ∀ ds ∈ frac, ∀ c ∈ ds, IsDigit c
  some_digit : int ++ frac.getD [] ≠ []

namespace Text

/-- The digits on both sides of the point. -/
def digits (t : Text) : List UInt8 := t.int ++ t.frac.getD []

/-- The number of digits behind the point. -/
def scale (t : Text) : ℕ := (t.frac.getD []).length

/-- What is written behind the sign. -/
def unsigned (t : Text) : List UInt8 :=
  t.int ++ match t.frac with
    | none => []
    | some ds => 0x2e :: ds

/-- The text. -/
def bytes (t : Text) : List UInt8 := (if t.neg then [0x2d] else []) ++ t.unsigned

/-- The number that the text denotes. -/
def value (t : Text) : ℚ := (if t.neg then -1 else 1) * digitsValue t.digits / 10 ^ t.scale

/-- Behind the digits of the whole part there is nothing, or a point. -/
theorem takeWhile_unsigned (t : Text) :
    t.unsigned.takeWhile (fun c => decide (IsDigit c)) = t.int := by
  have hint : ∀ c ∈ t.int, decide (IsDigit c) = true := fun c hc =>
    decide_eq_true (t.int_digits c hc)
  rw [unsigned, List.takeWhile_append_of_pos hint]
  cases t.frac with
  | none => rw [List.takeWhile_nil, List.append_nil]
  | some ds => exact List.append_nil _

theorem head_unsigned (t : Text) : t.unsigned.head? ≠ some 0x2d := by
  intro h
  rw [unsigned] at h
  cases hint : t.int with
  | nil =>
    rw [hint] at h
    cases hfrac : t.frac with
    | none => simp [hfrac] at h
    | some ds =>
      rw [hfrac] at h
      exact absurd (Option.some.inj h) (by decide)
  | cons c cs =>
    rw [hint] at h
    have hc : IsDigit c := t.int_digits c (hint ▸ List.mem_cons_self)
    rw [Option.some.inj h] at hc
    exact absurd hc (by decide)

/-- A text is read in one way only. -/
theorem bytes_injective {t t' : Text} (h : t.bytes = t'.bytes) : t = t' := by
  have hsign : ∀ t : Text, t.neg = true ↔ t.bytes.head? = some 0x2d := by
    intro t
    rw [bytes]
    cases t.neg with
    | true => simp
    | false => exact iff_of_false Bool.false_ne_true t.head_unsigned
  have hneg : t.neg = t'.neg := Bool.eq_iff_iff.mpr (by rw [hsign, hsign, h])
  rw [bytes, bytes, hneg, List.append_cancel_left_eq] at h
  have hint : t.int = t'.int := by rw [← takeWhile_unsigned, h, takeWhile_unsigned]
  rw [unsigned, unsigned, hint, List.append_cancel_left_eq] at h
  have hfrac : t.frac = t'.frac := by
    cases hf : t.frac <;> cases hf' : t'.frac <;> simp_all
  cases t
  cases t'
  cases hneg
  cases hint
  cases hfrac
  rfl

end Text

/-! ### Digits from an array -/

/-- The digits in the places below `n`, the last first in `cells`, and zero where there is none. -/
def descending (cells : List UInt8) : ℕ → List UInt8
  | 0 => []
  | n + 1 => (cells.getD n 0 + 0x30) :: descending cells n

variable {cells : List UInt8}

@[simp]
theorem length_descending (n : ℕ) : (descending cells n).length = n := by
  induction n with
  | zero => rfl
  | succ n ih => rw [descending, List.length_cons, ih]

theorem digit_char {x : UInt8} (h : x.toNat < 10) : (x + 0x30).toNat = x.toNat + 48 := by
  rw [UInt8.toNat_add]
  change (x.toNat + 48) % 256 = _
  omega

/-- Cells of digits. -/
def Cells (cells : List UInt8) : Prop := ∀ x ∈ cells, x.toNat < 10

theorem Cells.getD_lt (h : Cells cells) (n : ℕ) : (cells.getD n 0).toNat < 10 := by
  rw [List.getD_eq_getElem?_getD]
  cases hn : cells[n]? with
  | none => decide
  | some x => exact h x (List.mem_of_getElem? hn)

theorem isDigit_descending (h : Cells cells) (n : ℕ) : ∀ c ∈ descending cells n, IsDigit c := by
  induction n with
  | zero => exact fun c hc => absurd hc List.not_mem_nil
  | succ n ih =>
    refine List.forall_mem_cons.mpr ⟨?_, ih⟩
    have hlt := h.getD_lt n
    have hchar := digit_char hlt
    exact ⟨by omega, by omega⟩

/-- The digits spell the number in the cells, as far as they go. -/
theorem digitsValue_descending (h : Cells cells) (n : ℕ) :
    digitsValue (descending cells n) = Nat.ofDigits 10 ((cells.take n).map UInt8.toNat) := by
  induction n with
  | zero => rfl
  | succ n ih =>
    rw [descending, digitsValue_cons, ih, length_descending, digit, digit_char (h.getD_lt n),
      Nat.add_sub_cancel, List.take_add_one, List.getD_eq_getElem?_getD]
    cases hn : cells[n]? with
    | none => simp
    | some x =>
      have hlt : n < cells.length := (List.getElem?_eq_some_iff.mp hn).1
      simp only [Option.getD_some, Option.toList_some, List.map_append, Nat.ofDigits_append,
        List.length_map, List.length_take, List.map_cons, List.map_nil, Nat.ofDigits_singleton,
        Nat.min_eq_left hlt.le]
      ring

theorem drop_descending (m n : ℕ) : (descending cells (m + n)).drop m = descending cells n := by
  induction m with
  | zero => rw [Nat.zero_add, List.drop_zero]
  | succ m ih => rw [Nat.add_right_comm, descending, List.drop_succ_cons, ih]

/-- The last `k` digits, and those in front of them. -/
theorem take_descending_append {k n : ℕ} (h : k ≤ n) :
    (descending cells n).take (n - k) ++ descending cells k = descending cells n := by
  obtain ⟨m, rfl⟩ := Nat.exists_eq_add_of_le' h
  rw [Nat.add_sub_cancel, ← drop_descending m k, List.take_append_drop]

end OdbcDriver.Decimal
