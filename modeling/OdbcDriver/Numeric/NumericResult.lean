import OdbcDriver.Numeric.NumericParam

/-!
# Numeric results

`parse_to_numeric_struct` collects the digits of a decimal text, and multiplies them up to a number
of 128 bits. It has room for 48 digits. A whole part that is longer overflows anyway, but of a long
fraction the digits that find no room are dropped without a word; zeros in front count, when they
stand behind the point.
-/

namespace OdbcDriver.Numeric

open Decimal (limbs digitsValue IsDigit)
open Lib (ok_bind)

/-! ### The conversion -/

/-- The size of `calv`. -/
def CALV_SIZE : Nat := SQL_MAX_NUMERIC_LEN * 3

/-- `while (*wv && isspace(*wv)) wv++`. -/
def skipSpaces : List Byte → Except CString.Fault (List Byte)
  | [] => .error .beyond
  | c :: wv => if c ≠ 0 ∧ isSpace c then skipSpaces wv else .ok (c :: wv)

/-- The sign, and what stands behind it. -/
def readSign : List Byte → Except CString.Fault (UInt8 × List Byte)
  | [] => .error .beyond
  | c :: wv => .ok (if c = 0x2d then (0, wv) else if c = 0x2b then (1, wv) else (1, c :: wv))

/-- `while (*wv == '0') wv++`. -/
def skipZeros : List Byte → Except CString.Fault (List Byte)
  | [] => .error .beyond
  | c :: wv => if c = 0x30 then skipZeros wv else .ok (c :: wv)

/-- What the loop over the digits has found. -/
structure Collected where
  calv : List Byte
  scale : Int8
  overflow : Bool
  deriving DecidableEq, Repr

/-- `calv[nlen++] = *wv`. -/
def Collected.store (r : Collected) (c : Byte) : Except CString.Fault Collected :=
  if r.calv.length < CALV_SIZE then .ok { r with calv := r.calv ++ [c] } else .error .beyond

/-- The loop that reads the digits into `calv`. -/
def readDigits (r : Collected) (dot_exist : Bool) : List Byte → Except CString.Fault Collected
  | [] => .error .beyond
  | c :: wv =>
    if c = 0x2e then if dot_exist then .ok r else readDigits r true wv
    else if c = 0 ∨ ¬ isDigit c then .ok r
    else if CALV_SIZE ≤ r.calv.length then
      if dot_exist then .ok r
      else readDigits { r with scale := r.scale - 1, overflow := true } dot_exist wv
    else do
      let r ← (if dot_exist then { r with scale := r.scale + 1 } else r).store c
      readDigits r dot_exist wv

/-- The loop that multiplies the number by ten and adds `carry`: the number, and the last carry. -/
def multiplyLoop (carry : Nat) : List Byte → List Byte × Nat
  | [] => ([], carry)
  | x :: val =>
    let t := x.toNat * 10 + carry
    let r := multiplyLoop (t / 256) val
    (UInt8.ofNat t :: r.1, r.2)

theorem length_multiplyLoop (carry : Nat) (val : List Byte) :
    (multiplyLoop carry val).1.length = val.length := by
  induction val generalizing carry with
  | nil => rfl
  | cons x val ih => exact congrArg (· + 1) (ih _)

/-- A number of 128 bits. -/
abbrev Val : Type := { val : List Byte // val.length = SQL_MAX_NUMERIC_LEN }

/-- `carry = calv[dig] - '0'`, and the loop over the bytes of the number. -/
def multiplyAdd (val : Val) (c : Byte) : Val × Nat :=
  let r := multiplyLoop (c.toNat - 0x30) val.1
  (⟨r.1, (length_multiplyLoop _ _).trans val.2⟩, r.2)

/-- The loop over the digits, and whether a carry was left over. -/
def toBinary : Val → Bool → List Byte → Val × Bool
  | val, overflow, [] => (val, overflow)
  | val, overflow, c :: calv =>
    let r := multiplyAdd val c
    toBinary r.1 (if r.2 ≠ 0 then true else overflow) calv

/-- `parse_to_numeric_struct`: the structure, and `*overflow`. -/
def parse_to_numeric_struct (wv : List Byte) :
    Except CString.Fault (SQL_NUMERIC_STRUCT × Bool) := do
  let wv ← skipSpaces wv
  let (sign, wv) ← readSign wv
  let wv ← skipZeros wv
  let r ← readDigits ⟨[], 0, false⟩ false wv
  let (val, overflow) := toBinary ⟨List.replicate SQL_MAX_NUMERIC_LEN 0, rfl⟩ r.overflow r.calv
  return (⟨UInt8.ofNat r.calv.length, r.scale, sign, val.1, val.2⟩, overflow)

/-! ### Multiplication -/

/-- One digit is added behind the number. -/
theorem multiplyLoop_eq (carry : Nat) (val : List Byte) :
    limbs (multiplyLoop carry val).1 + 256 ^ val.length * (multiplyLoop carry val).2 =
      10 * limbs val + carry := by
  induction val generalizing carry with
  | nil =>
    change 0 + 1 * carry = 10 * 0 + carry
    omega
  | cons x val ih =>
    have hstep := ih ((x.toNat * 10 + carry) / 256)
    have hlow : (UInt8.ofNat (x.toNat * 10 + carry)).toNat = (x.toNat * 10 + carry) % 256 :=
      UInt8.toNat_ofNat'
    have hsplit := Nat.mod_add_div (x.toNat * 10 + carry) 256
    change limbs (UInt8.ofNat (x.toNat * 10 + carry) ::
        (multiplyLoop ((x.toNat * 10 + carry) / 256) val).1) +
      256 ^ (val.length + 1) * (multiplyLoop ((x.toNat * 10 + carry) / 256) val).2 = _
    rw [Decimal.limbs_cons, Decimal.limbs_cons, hlow, pow_succ]
    linear_combination 256 * hstep + hsplit

theorem val_lt (val : Val) : limbs val.1 < 2 ^ 128 := by
  have h := Decimal.limbs_lt val.1
  rw [val.2] at h
  exact h

/-- The digits overflow exactly when the number they spell does not fit. -/
theorem toBinary_eq (ds : List Byte) (val : Val) (overflow : Bool) :
    ((toBinary val overflow ds).2 = true ↔
      overflow = true ∨ 2 ^ 128 ≤ limbs val.1 * 10 ^ ds.length + digitsValue ds) ∧
    ((toBinary val overflow ds).2 = false →
      limbs (toBinary val overflow ds).1.1 = limbs val.1 * 10 ^ ds.length + digitsValue ds) := by
  induction ds generalizing val overflow with
  | nil =>
    have hval := val_lt val
    refine ⟨?_, fun _ => by simp [toBinary]⟩
    change overflow = true ↔ _
    rw [List.length_nil, pow_zero, Nat.mul_one, Decimal.digitsValue_nil, Nat.add_zero]
    exact ⟨.inl, fun h => h.resolve_right (Nat.not_le.mpr hval)⟩
  | cons c ds ih =>
    have hmul : limbs (multiplyAdd val c).1.1 + 2 ^ 128 * (multiplyAdd val c).2 =
        10 * limbs val.1 + Decimal.digit c := by
      have h := multiplyLoop_eq (c.toNat - 0x30) val.1
      rw [val.2] at h
      exact h
    have hall : limbs val.1 * 10 ^ (c :: ds).length + digitsValue (c :: ds) =
        (10 * limbs val.1 + Decimal.digit c) * 10 ^ ds.length + digitsValue ds := by
      rw [Decimal.digitsValue_cons, List.length_cons, pow_succ]
      ring
    rw [hall]
    by_cases hcarry : (multiplyAdd val c).2 = 0
    · have hrun : toBinary val overflow (c :: ds) = toBinary (multiplyAdd val c).1 overflow ds := by
        rw [toBinary]
        exact congrArg (toBinary _ · ds) (if_neg (not_not.mpr hcarry))
      rw [hcarry, Nat.mul_zero, Nat.add_zero] at hmul
      rw [hrun, ← hmul]
      exact ih _ _
    · -- once a carry is left over, the number is too large for good
      have hrun : toBinary val overflow (c :: ds) = toBinary (multiplyAdd val c).1 true ds := by
        rw [toBinary]
        exact congrArg (toBinary _ · ds) (if_pos hcarry)
      have htrue : (toBinary (multiplyAdd val c).1 true ds).2 = true := (ih _ true).1.mpr (.inl rfl)
      have hlarge : 2 ^ 128 ≤ (10 * limbs val.1 + Decimal.digit c) * 10 ^ ds.length +
          digitsValue ds := by
        have hpow : 1 ≤ 10 ^ ds.length := Nat.one_le_pow _ _ (by decide)
        have hone : 1 ≤ (multiplyAdd val c).2 := Nat.one_le_iff_ne_zero.mpr hcarry
        calc 2 ^ 128 ≤ limbs (multiplyAdd val c).1.1 + 2 ^ 128 * (multiplyAdd val c).2 := by omega
          _ = 10 * limbs val.1 + Decimal.digit c := hmul
          _ ≤ (10 * limbs val.1 + Decimal.digit c) * 10 ^ ds.length :=
            Nat.le_mul_of_pos_right _ hpow
          _ ≤ _ := Nat.le_add_right _ _
      rw [hrun]
      refine ⟨iff_of_true htrue (.inr hlarge), fun h => ?_⟩
      rw [htrue] at h
      cases h

/-! ### Collection -/

theorem isDigit_iff (c : Byte) : isDigit c = true ↔ IsDigit c := by
  rw [isDigit, Bool.and_eq_true, decide_eq_true_eq, decide_eq_true_eq, UInt8.le_iff_toNat_le,
    UInt8.le_iff_toNat_le]
  rfl

theorem digit_ne {c : Byte} (h : IsDigit c) : c ≠ 0x2e ∧ c ≠ 0 := by
  constructor <;> rintro rfl <;> exact absurd h (by decide)

variable {r : Collected} {dot_exist : Bool} {wv : List Byte} {c : Byte}

/-- A digit that finds room is stored, and counted behind the point. -/
theorem readDigits_store (hc : IsDigit c) (hroom : r.calv.length < CALV_SIZE) :
    readDigits r dot_exist (c :: wv) =
      readDigits ⟨r.calv ++ [c], if dot_exist then r.scale + 1 else r.scale, r.overflow⟩
        dot_exist wv := by
  have hstop : ¬ (c = 0 ∨ ¬ isDigit c = true) := by
    rw [isDigit_iff]
    exact fun h => h.elim (digit_ne hc).2 (· hc)
  rw [readDigits, if_neg (digit_ne hc).1, if_neg hstop, if_neg (Nat.not_le.mpr hroom)]
  have hstore : (if dot_exist then { r with scale := r.scale + 1 } else r).store c =
      .ok ⟨r.calv ++ [c], if dot_exist then r.scale + 1 else r.scale, r.overflow⟩ := by
    cases dot_exist <;> exact if_pos hroom
  rw [hstore, ok_bind]

/-- Digits of the whole part that find no room overflow. -/
theorem readDigits_whole_full (wv : List Byte) (hfull : r.calv.length = CALV_SIZE) {ds : List Byte}
    (hds : ∀ c ∈ ds, IsDigit c) :
    ∃ scale, readDigits r false (ds ++ wv) =
      readDigits ⟨r.calv, scale, r.overflow || decide (ds ≠ [])⟩ false wv := by
  induction ds generalizing r with
  | nil => exact ⟨r.scale, by simp⟩
  | cons c ds ih =>
    rw [List.forall_mem_cons] at hds
    have hstop : ¬ (c = 0 ∨ ¬ isDigit c = true) := by
      rw [isDigit_iff]
      exact fun h => h.elim (digit_ne hds.1).2 (· hds.1)
    obtain ⟨scale, hrun⟩ := ih (r := { r with scale := r.scale - 1, overflow := true }) hfull hds.2
    refine ⟨scale, ?_⟩
    rw [List.cons_append, readDigits, if_neg (digit_ne hds.1).1, if_neg hstop, if_pos hfull.ge,
      if_neg Bool.false_ne_true, hrun]
    simp

/-- The digits of the whole part. -/
theorem readDigits_whole (wv : List Byte) {ds : List Byte} (hds : ∀ c ∈ ds, IsDigit c)
    (hroom : r.calv.length ≤ CALV_SIZE) :
    ∃ scale, (r.calv.length + ds.length ≤ CALV_SIZE → scale = r.scale) ∧
      readDigits r false (ds ++ wv) =
        readDigits ⟨(r.calv ++ ds).take CALV_SIZE, scale,
          r.overflow || decide (CALV_SIZE < r.calv.length + ds.length)⟩ false wv := by
  induction ds generalizing r with
  | nil =>
    refine ⟨r.scale, fun _ => rfl, ?_⟩
    rw [List.append_nil, List.take_of_length_le hroom, List.length_nil, Nat.add_zero,
      decide_eq_false (Nat.not_lt.mpr hroom), Bool.or_false]
    rfl
  | cons c ds ih =>
    by_cases hlt : r.calv.length < CALV_SIZE
    · rw [List.forall_mem_cons] at hds
      obtain ⟨scale, hscale, hrun⟩ := ih (r := ⟨r.calv ++ [c], r.scale, r.overflow⟩) hds.2
        (by rw [List.length_append]; exact hlt)
      refine ⟨scale, fun h => hscale ?_, ?_⟩
      · rw [List.length_append, List.length_singleton]
        rw [List.length_cons] at h
        omega
      · rw [List.cons_append, readDigits_store hds.1 hlt]
        refine hrun.trans ?_
        rw [List.append_assoc, List.singleton_append, List.length_append, List.length_singleton,
          List.length_cons, Nat.add_assoc, Nat.add_comm 1]
    · have hfull : r.calv.length = CALV_SIZE := by omega
      obtain ⟨scale, hrun⟩ := readDigits_whole_full wv hfull hds
      refine ⟨scale, fun h => ?_, ?_⟩
      · rw [List.length_cons] at h
        omega
      · rw [hrun, List.take_append_of_le_length hfull.ge, List.take_of_length_le hfull.le]
        have hlong : CALV_SIZE < r.calv.length + (c :: ds).length := by
          rw [List.length_cons]
          omega
        rw [decide_eq_true hlong, decide_eq_true (List.cons_ne_nil c ds)]

/-- The digits behind the point, up to the end of the text. -/
theorem readDigits_frac {ds : List Byte} (hds : ∀ c ∈ ds, IsDigit c)
    (hroom : r.calv.length ≤ CALV_SIZE)
    (hscale : r.calv.length < CALV_SIZE → 0 ≤ r.scale.toInt ∧ r.scale.toInt ≤ r.calv.length) :
    ∃ scale : Int8, scale.toInt = r.scale.toInt + min ds.length (CALV_SIZE - r.calv.length) ∧
      readDigits r true (ds ++ [0]) =
        .ok ⟨(r.calv ++ ds).take CALV_SIZE, scale, r.overflow⟩ := by
  induction ds generalizing r with
  | nil =>
    refine ⟨r.scale, by simp, ?_⟩
    rw [List.append_nil, List.take_of_length_le hroom]
    rfl
  | cons c ds ih =>
    rw [List.forall_mem_cons] at hds
    by_cases hlt : r.calv.length < CALV_SIZE
    · have hsize : CALV_SIZE = 48 := rfl
      have hone : (1 : Int8).toInt = 1 := rfl
      obtain ⟨hlow, hhigh⟩ := hscale hlt
      have hnext : (r.scale + 1).toInt = r.scale.toInt + 1 := by
        rw [Int8.toInt_add, hone]
        exact Int.bmod_eq_of_le (by omega) (by omega)
      have hlen : (r.calv ++ [c]).length = r.calv.length + 1 := List.length_append
      obtain ⟨scale, hscale', hrun⟩ := ih (r := ⟨r.calv ++ [c], r.scale + 1, r.overflow⟩) hds.2
        (by simp only [hlen]; omega) (by simp only [hlen, hnext]; omega)
      refine ⟨scale, ?_, ?_⟩
      · rw [hscale', hnext, hlen, List.length_cons]
        omega
      · rw [List.cons_append, readDigits_store hds.1 hlt, if_pos rfl, hrun, List.append_assoc,
          List.singleton_append]
    · have hfull : r.calv.length = CALV_SIZE := by omega
      have hstop : ¬ (c = 0 ∨ ¬ isDigit c = true) := by
        rw [isDigit_iff]
        exact fun h => h.elim (digit_ne hds.1).2 (· hds.1)
      refine ⟨r.scale, by rw [hfull]; simp, ?_⟩
      rw [List.cons_append, readDigits, if_neg (digit_ne hds.1).1, if_neg hstop, if_pos hfull.ge,
        if_pos rfl, List.take_append_of_le_length hfull.ge, List.take_of_length_le hfull.le]

/-! ### Texts -/

/-- The whole part without the zeros in front, which are skipped. -/
def whole (t : Decimal.Text) : List Byte := t.int.dropWhile (· = 0x30)

/-- The digits that are collected. -/
def significant (t : Decimal.Text) : List Byte := whole t ++ t.frac.getD []

/-- The text as the driver gets it: spaces may stand in front of it, and a plus sign. -/
def Spelled (t : Decimal.Text) (wv : List Byte) : Prop :=
  ∃ spaces sign : List Byte, (∀ c ∈ spaces, isSpace c = true) ∧
    (if t.neg then sign = [0x2d] else sign = [] ∨ sign = [0x2b]) ∧
    wv = spaces ++ (sign ++ (t.unsigned ++ [0]))

/-- The structure holds the sign, the digits and the scale of the text. -/
structure Holds (ns : SQL_NUMERIC_STRUCT) (t : Decimal.Text) : Prop where
  sign : ns.sign = if t.neg then 0 else 1
  val : limbs ns.val = digitsValue t.digits
  scale : ns.scale.toInt = t.scale

/-- Overflow is reported exactly when the digits do not fit in 128 bits; otherwise the structure
holds the text. -/
def Parses (t : Decimal.Text) (wv : List Byte) : Prop :=
  ∃ ns overflow, parse_to_numeric_struct wv = .ok (ns, overflow) ∧
    (overflow = true ↔ 2 ^ 128 ≤ digitsValue t.digits) ∧ (overflow = false → Holds ns t)

theorem digitsValue_dropWhile (ds es : List Byte) :
    digitsValue (ds.dropWhile (· = 0x30) ++ es) = digitsValue (ds ++ es) := by
  induction ds with
  | nil => rfl
  | cons c ds ih =>
    by_cases hc : c = 0x30
    · rw [List.dropWhile_cons_of_pos (by simpa using hc), ih, List.cons_append,
        Decimal.digitsValue_cons, hc]
      change _ = 0 * _ + _
      rw [Nat.zero_mul, Nat.zero_add]
    · rw [List.dropWhile_cons_of_neg (by simpa using hc)]

/-- Leading zeros change nothing. -/
theorem digitsValue_significant (t : Decimal.Text) :
    digitsValue (significant t) = digitsValue t.digits :=
  digitsValue_dropWhile t.int (t.frac.getD [])

/-- What stands behind the whole part, up to the end of the text. -/
def fracPart (t : Decimal.Text) : List Byte :=
  (match t.frac with
    | none => []
    | some ds => 0x2e :: ds) ++ [0]

theorem unsigned_eq (t : Decimal.Text) : t.unsigned ++ [0] = t.int ++ fracPart t :=
  List.append_assoc _ _ _

theorem fracPart_cons (t : Decimal.Text) : ∃ c wv, fracPart t = c :: wv ∧ (c = 0 ∨ c = 0x2e) := by
  rw [fracPart]
  cases t.frac with
  | none => exact ⟨0, [], rfl, .inl rfl⟩
  | some ds => exact ⟨0x2e, ds ++ [0], rfl, .inr rfl⟩

/-- A text begins with a digit or with the point. -/
theorem unsigned_cons (t : Decimal.Text) :
    ∃ c wv, t.unsigned ++ [0] = c :: wv ∧ (IsDigit c ∨ c = 0x2e) := by
  rw [unsigned_eq]
  cases hint : t.int with
  | cons c ds => exact ⟨c, ds ++ fracPart t, rfl, .inl (t.int_digits c (hint ▸ List.mem_cons_self))⟩
  | nil =>
    have hsome := t.some_digit
    rw [hint] at hsome
    rw [fracPart]
    cases hfrac : t.frac with
    | none =>
      rw [hfrac] at hsome
      exact absurd rfl hsome
    | some ds => exact ⟨0x2e, ds ++ [0], rfl, .inr rfl⟩

theorem skipSpaces_eq {spaces : List Byte} (h : ∀ c ∈ spaces, isSpace c = true)
    (hc : isSpace c = false) : skipSpaces (spaces ++ c :: wv) = .ok (c :: wv) := by
  induction spaces with
  | nil => exact if_neg (by simp [hc])
  | cons x spaces ih =>
    rw [List.forall_mem_cons] at h
    have hx : x ≠ 0 := by
      rintro rfl
      exact absurd h.1 (by decide)
    rw [List.cons_append, skipSpaces, if_pos ⟨hx, h.1⟩, ih h.2]

theorem skipZeros_eq (ds : List Byte) (hc : c ≠ 0x30) :
    skipZeros (ds ++ c :: wv) = .ok (ds.dropWhile (· = 0x30) ++ c :: wv) := by
  induction ds with
  | nil => exact if_neg hc
  | cons x ds ih =>
    rw [List.cons_append, skipZeros]
    by_cases hx : x = 0x30
    · rw [if_pos hx, ih, List.dropWhile_cons_of_pos (by simpa using hx)]
    · rw [if_neg hx, List.dropWhile_cons_of_neg (by simpa using hx), List.cons_append]

/-- The sign, and the text behind it. -/
theorem readSign_eq {t : Decimal.Text} {sign : List Byte}
    (hsign : if t.neg then sign = [0x2d] else sign = [] ∨ sign = [0x2b]) :
    ∃ c wv, sign ++ (t.unsigned ++ [0]) = c :: wv ∧ isSpace c = false ∧
      readSign (c :: wv) = .ok (if t.neg then 0 else 1, t.unsigned ++ [0]) := by
  obtain ⟨c, wv, hcons, hc⟩ := unsigned_cons t
  have hplain : isSpace c = false ∧ c ≠ 0x2d ∧ c ≠ 0x2b := by
    rcases hc with hc | rfl
    · refine ⟨?_, ?_, ?_⟩
      · by_contra hspace
        rw [Bool.not_eq_false, isSpace, Bool.or_eq_true, Bool.and_eq_true, decide_eq_true_eq,
          decide_eq_true_eq, decide_eq_true_eq, UInt8.le_iff_toNat_le, UInt8.le_iff_toNat_le] at hspace
        have hlow := hc.1
        rcases hspace with ⟨-, hle⟩ | rfl
        · change c.toNat ≤ 13 at hle
          omega
        · exact absurd hlow (by decide)
      · rintro rfl
        exact absurd hc (by decide)
      · rintro rfl
        exact absurd hc (by decide)
    · decide
  cases hneg : t.neg with
  | true =>
    rw [hneg, if_pos rfl] at hsign
    subst hsign
    exact ⟨0x2d, _, rfl, by decide, rfl⟩
  | false =>
    rw [hneg, if_neg Bool.false_ne_true] at hsign
    rcases hsign with rfl | rfl
    · refine ⟨c, wv, hcons, hplain.1, ?_⟩
      rw [hcons, readSign, if_neg hplain.2.1, if_neg hplain.2.2]
      rfl
    · exact ⟨0x2b, _, rfl, by decide, rfl⟩

theorem whole_digits (t : Decimal.Text) : ∀ c ∈ whole t, IsDigit c := fun c hc =>
  t.int_digits c ((List.dropWhile_suffix _).subset hc)

/-- The digits that are found. -/
theorem readDigits_eq (t : Decimal.Text) :
    ∃ scale : Int8, readDigits ⟨[], 0, false⟩ false (whole t ++ fracPart t) =
      .ok ⟨(significant t).take CALV_SIZE, scale, decide (CALV_SIZE < (whole t).length)⟩ ∧
      ((whole t).length ≤ CALV_SIZE →
        scale.toInt = min t.scale (CALV_SIZE - (whole t).length)) := by
  obtain ⟨scale, hscale, hrun⟩ := readDigits_whole (r := ⟨[], 0, false⟩) (fracPart t)
    (whole_digits t) (Nat.zero_le _)
  simp only [List.nil_append, List.length_nil, Nat.zero_add, Bool.false_or] at hscale hrun
  have htake : ((whole t).take CALV_SIZE ++ t.frac.getD []).take CALV_SIZE =
      (significant t).take CALV_SIZE := by
    rw [significant, List.take_append, List.take_append, List.take_take, Nat.min_self,
      List.length_take]
    congr 2
    omega
  rw [hrun, fracPart, Decimal.Text.scale]
  cases hfrac : t.frac with
  | none =>
    rw [hfrac] at htake
    simp only [Option.getD_none, List.append_nil, List.take_take, Nat.min_self] at htake
    refine ⟨scale, by rw [htake]; rfl, fun h => ?_⟩
    rw [hscale h]
    simp
  | some ds =>
    rw [hfrac, Option.getD_some] at htake
    have hds : ∀ c ∈ ds, IsDigit c := t.frac_digits ds (by rw [hfrac]; rfl)
    have hlen : ((whole t).take CALV_SIZE).length = min CALV_SIZE (whole t).length :=
      List.length_take
    obtain ⟨scale', hscale', hrun'⟩ := readDigits_frac
      (r := ⟨(whole t).take CALV_SIZE, scale, decide (CALV_SIZE < (whole t).length)⟩) hds
      (by simp only [hlen]; omega) (fun h => by
        simp only [hlen] at h ⊢
        rw [hscale (by omega)]
        exact ⟨le_rfl, Int.natCast_nonneg _⟩)
    refine ⟨scale', ?_, fun h => ?_⟩
    · rw [← htake]
      exact hrun'
    · simp only [hlen] at hscale'
      rw [hscale', hscale h, Option.getD_some]
      change 0 + _ = _
      omega

theorem whole_head {t : Decimal.Text} {ds : List Byte} (h : whole t = c :: ds) : c ≠ 0x30 := by
  have hhead := List.head?_dropWhile_not (fun c => decide (c = 0x30)) t.int
  rw [whole] at h
  rw [h] at hhead
  exact of_decide_eq_false hhead

/-- Forty-eight digits of which the first is not zero are too many for 128 bits. -/
theorem long_whole {t : Decimal.Text} (h : CALV_SIZE < (whole t).length) :
    2 ^ 128 ≤ digitsValue ((significant t).take CALV_SIZE) := by
  rw [significant, List.take_append_of_le_length h.le]
  have hdigits := whole_digits t
  cases hwhole : whole t with
  | nil =>
    rw [hwhole] at h
    exact absurd h (Nat.not_lt_zero _)
  | cons c ds =>
    rw [hwhole] at h hdigits
    have hc : 1 ≤ Decimal.digit c := by
      have hne := whole_head hwhole
      have hlow := (hdigits c List.mem_cons_self).1
      have hne' : c.toNat ≠ 0x30 := fun h => hne (UInt8.toNat_inj.mp h)
      rw [Decimal.digit]
      omega
    have htake : (c :: ds).take CALV_SIZE = c :: ds.take 47 := rfl
    have hlen : (ds.take 47).length = 47 := by
      rw [List.length_take, Nat.min_eq_left]
      have : CALV_SIZE = 48 := rfl
      rw [List.length_cons] at h
      omega
    rw [htake, Decimal.digitsValue_cons, hlen]
    calc 2 ^ 128 ≤ 1 * 10 ^ 47 := by decide
      _ ≤ Decimal.digit c * 10 ^ 47 := Nat.mul_le_mul_right _ hc
      _ ≤ _ := Nat.le_add_right _ _

/-- What is left in the structure: of the digits that count, the first 48. -/
theorem parse_eq {t : Decimal.Text} {wv : List Byte} (hwv : Spelled t wv) :
    ∃ ns overflow, parse_to_numeric_struct wv = .ok (ns, overflow) ∧
      ns.sign = (if t.neg then 0 else 1) ∧
      (overflow = true ↔ 2 ^ 128 ≤ digitsValue ((significant t).take CALV_SIZE)) ∧
      (overflow = false → limbs ns.val = digitsValue ((significant t).take CALV_SIZE) ∧
        ns.scale.toInt = min t.scale (CALV_SIZE - (whole t).length)) := by
  obtain ⟨spaces, sign, hspaces, hsign, rfl⟩ := hwv
  obtain ⟨c, wv, hcons, hplain, hreadSign⟩ := readSign_eq hsign
  obtain ⟨d, wv', hfrac, hd⟩ := fracPart_cons t
  have hzeros : skipZeros (t.unsigned ++ [0]) = .ok (whole t ++ fracPart t) := by
    have hne : d ≠ 0x30 := by
      rcases hd with rfl | rfl <;> decide
    rw [unsigned_eq, hfrac]
    exact skipZeros_eq t.int hne
  obtain ⟨scale, hdigits, hscale⟩ := readDigits_eq t
  obtain ⟨hover, hval⟩ := toBinary_eq ((significant t).take CALV_SIZE)
    ⟨List.replicate SQL_MAX_NUMERIC_LEN 0, rfl⟩ (decide (CALV_SIZE < (whole t).length))
  have hzero : limbs (List.replicate SQL_MAX_NUMERIC_LEN 0) = 0 := by decide
  simp only [hzero, Nat.zero_mul, Nat.zero_add, decide_eq_true_eq] at hover hval
  have hover' := hover.trans (or_iff_right_of_imp long_whole)
  generalize hbinary : toBinary _ _ _ = b at hover' hval
  obtain ⟨val, overflow⟩ := b
  refine ⟨⟨UInt8.ofNat ((significant t).take CALV_SIZE).length, scale, if t.neg then 0 else 1,
    val.1, val.2⟩, overflow, ?_, rfl, hover', fun hfalse => ⟨hval hfalse, hscale ?_⟩⟩
  · rw [hcons, parse_to_numeric_struct, skipSpaces_eq hspaces hplain, ok_bind, hreadSign, ok_bind]
    dsimp only
    rw [hzeros, ok_bind, hdigits, ok_bind, hbinary]
    rfl
  · by_contra hlong
    have htrue := hover'.mpr (long_whole (Nat.lt_of_not_le hlong))
    rw [hfalse] at htrue
    cases htrue

/-- **Numeric results.** The digits come over, unless there are more than 48 of them, not counting
zeros in front of the whole part, and the first 48 fit in 128 bits. -/
theorem parses_iff {t : Decimal.Text} {wv : List Byte} (hwv : Spelled t wv) :
    Parses t wv ↔ (significant t).length ≤ CALV_SIZE ∨
      2 ^ 128 ≤ digitsValue ((significant t).take CALV_SIZE) := by
  obtain ⟨ns, overflow, hrun, hsign, hover, hval⟩ := parse_eq hwv
  have hlen : (significant t).length = (whole t).length + t.scale := List.length_append
  have hall := digitsValue_significant t
  constructor
  · rintro ⟨ns', overflow', hrun', -, hholds⟩
    obtain ⟨rfl, rfl⟩ := Prod.mk.inj (Except.ok.inj (hrun.symm.trans hrun'))
    by_contra hnot
    rw [not_or, Nat.not_le, ← hover, Bool.not_eq_true] at hnot
    have hwhole : (whole t).length ≤ CALV_SIZE := by
      refine Nat.le_of_not_lt fun hlong => ?_
      rw [hover.mpr (long_whole hlong)] at hnot
      cases hnot.2
    -- the digits that find no room are missing behind the point
    have hscale := (hval hnot.2).2
    rw [(hholds hnot.2).scale] at hscale
    omega
  · intro h
    refine ⟨ns, overflow, hrun, ?_, fun hfalse => ?_⟩
    · rw [hover, ← hall]
      rcases h with hshort | hlarge
      · rw [List.take_of_length_le hshort]
      · refine iff_of_true hlarge (hlarge.trans ?_)
        conv_rhs => rw [← List.take_append_drop CALV_SIZE (significant t),
          Decimal.digitsValue_append]
        exact (Nat.le_mul_of_pos_right _ (Nat.pow_pos (by decide))).trans (Nat.le_add_right _ _)
    · have hshort : (significant t).length ≤ CALV_SIZE := by
        refine h.resolve_right fun hlarge => ?_
        rw [hover.mpr hlarge] at hfalse
        cases hfalse
      obtain ⟨hdigits, hscale⟩ := hval hfalse
      rw [List.take_of_length_le hshort, hall] at hdigits
      exact ⟨hsign, hdigits, by omega⟩

/-- ` -7.70`. -/
theorem negative_parsed : Parses
    ⟨true, ascii "7", some (ascii "70"), Decimal.all_digits rfl, Decimal.all_frac_digits rfl,
      by decide⟩
    (ascii " -7.70" ++ [0]) := by
  refine (parses_iff ?_).mpr (.inl (by decide))
  exact ⟨[0x20], [0x2d], by simp [isSpace], rfl, rfl⟩

/-- A one in the forty-ninth place behind the point. -/
def lateOne : Decimal.Text :=
  ⟨false, [0x30], some (List.replicate 48 0x30 ++ [0x31]), zeroText.int_digits,
    Decimal.all_frac_digits rfl, by decide⟩

/-- The one is dropped. -/
theorem late_one_dropped : ¬ Parses lateOne (lateOne.bytes ++ [0]) := by
  have hwv : Spelled lateOne (lateOne.bytes ++ [0]) :=
    ⟨[], [], List.forall_mem_nil _, .inl rfl, rfl⟩
  obtain ⟨ns, overflow, hrun, -, hover, hval⟩ := parse_eq hwv
  have hzero : digitsValue ((significant lateOne).take CALV_SIZE) = 0 := by decide +kernel
  have hfalse : overflow = false := by
    rw [← Bool.not_eq_true, hover, hzero]
    decide
  rintro ⟨ns', overflow', hrun', -, hholds⟩
  obtain ⟨rfl, rfl⟩ := Prod.mk.inj (Except.ok.inj (hrun.symm.trans hrun'))
  have hscale := (hval hfalse).2
  rw [(hholds hfalse).scale] at hscale
  revert hscale
  decide +kernel

end OdbcDriver.Numeric
