import Mathlib.Data.Nat.Digits.Lemmas
import OdbcDriver.Lib.CInt
import OdbcDriver.Lib.Decimal

/-!
# Formatted texts

Numbers are written with a least number of digits, and read back by `sscanf`. A format is a list of
directives: white space, a character that has to stand there, a decimal number, a word. Conversions
skip white space in front of what they convert; the first directive that does not fit ends the scan.
A number that an `int` does not hold leaves the scan undefined.

The rules go over a text directive by directive: `sscanf_int` passes a number, `sscanf_str` a word,
`sscanf_int_stop` and `sscanf_int_end` say where a scan ends.
-/

namespace OdbcDriver.Scanf

open Decimal (IsDigit digit digitsValue)

/-! ### Numbers written -/

/-- A digit as a character. -/
def digitChar (n : ℕ) : UInt8 := UInt8.ofNat (0x30 + n)

/-- `%.ku`: the digits of `n`, at least `k` of them. -/
def digits (k n : ℕ) : List UInt8 :=
  List.replicate (k - (Nat.digits 10 n).length) 0x30 ++ ((Nat.digits 10 n).map digitChar).reverse

/-- A minus sign, if there is to be one. -/
def signText (neg : Bool) : List UInt8 := if neg then [0x2d] else []

/-- A number with a sign. -/
def signed (neg : Bool) (n : ℕ) : ℤ := if neg then -n else n

/-- `%.kd` -/
def decimal (k : ℕ) (n : ℤ) : List UInt8 := signText (decide (n < 0)) ++ digits k n.natAbs

/-- `%0wd`: zeros up to a width in which the sign counts. -/
def zeroPadded (w : ℕ) (n : ℤ) : List UInt8 :=
  signText (decide (n < 0)) ++ digits (if n < 0 then w - 1 else w) n.natAbs

/-- `snprintf`: what is stored in `size` bytes, and the length of the whole text. -/
def snprintf (size : ℕ) (text : List UInt8) : List UInt8 × ℕ :=
  (text.take (size - 1), text.length)

theorem zeroPadded_natCast (w n : ℕ) : zeroPadded w n = digits w n := by
  have hn : ¬ (n : ℤ) < 0 := by omega
  rw [zeroPadded, decide_eq_false hn, if_neg hn, Int.natAbs_natCast]
  rfl

theorem digit_digitChar {n : ℕ} (h : n < 10) :
    IsDigit (digitChar n) ∧ digit (digitChar n) = n := by
  have hsize : 0x30 + n < UInt8.size := by
    rw [UInt8.size]
    omega
  have hn : (digitChar n).toNat = 0x30 + n := UInt8.toNat_ofNat_of_lt' hsize
  rw [IsDigit, digit, hn]
  omega

theorem digits_isDigit (k n : ℕ) : ∀ c ∈ digits k n, IsDigit c := by
  intro c hc
  rcases List.mem_append.mp hc with hc | hc
  · rw [List.eq_of_mem_replicate hc]
    decide
  · obtain ⟨d, hd, rfl⟩ := List.mem_map.mp (List.mem_reverse.mp hc)
    exact (digit_digitChar (Nat.digits_lt_base (by decide) hd)).1

theorem digitsValue_zeros (k : ℕ) (ds : List UInt8) :
    digitsValue (List.replicate k 0x30 ++ ds) = digitsValue ds := by
  induction k with
  | zero => rfl
  | succ k ih =>
    have hzero : digit 0x30 = 0 := rfl
    rw [List.replicate_succ, List.cons_append, Decimal.digitsValue_cons, ih, hzero, Nat.zero_mul,
      Nat.zero_add]

@[simp]
theorem digitsValue_digits (k n : ℕ) : digitsValue (digits k n) = n := by
  have hmap : ((Nat.digits 10 n).map digitChar).map digit = Nat.digits 10 n := by
    rw [List.map_map]
    refine (List.map_congr_left fun d hd => ?_).trans (List.map_id _)
    exact (digit_digitChar (Nat.digits_lt_base (by decide) hd)).2
  rw [digits, digitsValue_zeros, digitsValue, List.map_reverse, List.reverse_reverse, hmap,
    Nat.ofDigits_digits]

theorem length_digits (k n : ℕ) : (digits k n).length = max k (Nat.digits 10 n).length := by
  rw [digits, List.length_append, List.length_replicate, List.length_reverse, List.length_map]
  omega

theorem length_digits_of_lt {k n : ℕ} (h : n < 10 ^ k) : (digits k n).length = k := by
  have hle := (Nat.digits_length_le_iff (by decide : 1 < 10) n).mpr h
  rw [length_digits]
  omega

theorem length_digits_le {k j n : ℕ} (hk : k ≤ j) (h : n < 10 ^ j) : (digits k n).length ≤ j := by
  have hle := (Nat.digits_length_le_iff (by decide : 1 < 10) n).mpr h
  rw [length_digits]
  omega

theorem lt_length_digits {k j n : ℕ} (h : 10 ^ j ≤ n) : j < (digits k n).length := by
  have hlt := (Nat.lt_digits_length_iff (by decide : 1 < 10) n).mpr h
  rw [length_digits]
  omega

theorem digits_ne_nil {k : ℕ} (hk : 0 < k) (n : ℕ) : digits k n ≠ [] := by
  intro h
  have hlen := length_digits k n
  rw [h, List.length_nil] at hlen
  omega

/-! ### Scanning -/

/-- `isspace`, in the C locale. -/
def isspace (c : UInt8) : Bool := (0x09 ≤ c && c ≤ 0x0d) || c = 0x20

inductive Directive
  /-- White space. -/
  | space
  /-- A character. -/
  | lit (c : UInt8)
  /-- `%d`, of at most so many characters. -/
  | int (width : Option ℕ)
  /-- `%s`, of at most so many characters. -/
  | str (width : ℕ)
deriving DecidableEq, Repr

/-- The directives that a format spells, behind a `%` and the width read so far. -/
def directives : Option (Option ℕ) → List Char → List Directive
  | _, [] => []
  | none, c :: cs =>
    if c = '%' then directives (some none) cs
    else if c = ' ' then .space :: directives none cs
    else .lit c.toNat.toUInt8 :: directives none cs
  | some width, c :: cs =>
    if c = 'd' then .int width :: directives none cs
    else if c = 's' then .str (width.getD 0) :: directives none cs
    else directives (some (some (width.getD 0 * 10 + (c.toNat - 0x30)))) cs

/-- What a format means. -/
def format (s : String) : List Directive := directives none s.toList

/-- What has been converted. -/
structure Scanned where
  ints : List ℤ
  strs : List (List UInt8)
  /-- The text ended before anything was converted. -/
  eof : Bool
deriving DecidableEq, Repr

namespace Scanned

/-- What `sscanf` returns. -/
def count (r : Scanned) : ℤ := if r.eof then -1 else (r.ints.length + r.strs.length : ℕ)

@[simp]
theorem count_mk (is : List ℤ) (ws : List (List UInt8)) :
    (mk is ws false).count = (is.length + ws.length : ℕ) := rfl

/-- The number in the `i`-th variable; what has not been converted is not to be looked at. -/
def int (r : Scanned) (i : ℕ) : ℤ := r.ints.getD i 0

/-- The word in the `i`-th buffer. -/
def str (r : Scanned) (i : ℕ) : List UInt8 := r.strs.getD i []

/-- The scan stops. -/
def stop (eof : Bool) : Scanned := ⟨[], [], eof⟩

/-- A number in front of the rest. -/
def withInt (n : ℤ) (r : Scanned) : Scanned := ⟨n :: r.ints, r.strs, false⟩

/-- A word in front of the rest. -/
def withStr (word : List UInt8) (r : Scanned) : Scanned := ⟨r.ints, word :: r.strs, false⟩

end Scanned

open Scanned (stop)

/-- The text behind white space. -/
def skip (s : List UInt8) : List UInt8 := s.dropWhile isspace

/-- The sign of a number, and what is behind it. -/
def splitSign : List UInt8 → Bool × List UInt8
  | [] => (false, [])
  | c :: s => if c = 0x2d then (true, s) else if c = 0x2b then (false, s) else (false, c :: s)

/-- A number at the front of `s`, and what is behind it. -/
def number (width : Option ℕ) (s : List UInt8) : Option (ℤ × List UInt8) :=
  let w := s.take (width.getD s.length)
  let (neg, t) := splitSign w
  let ds := t.takeWhile fun c => decide (IsDigit c)
  if ds = [] then none
  else some (signed neg (digitsValue ds), s.drop (w.length - t.length + ds.length))

/-- The word at the front of `s`. -/
def word (width : ℕ) (s : List UInt8) : List UInt8 := (s.takeWhile fun c => !isspace c).take width

/-- `sscanf`. There is no result where an `int` does not hold a number. -/
def sscanf : List Directive → List UInt8 → Option Scanned
  | [], _ => some (stop false)
  | .space :: fmt, s => sscanf fmt (skip s)
  | .lit c :: fmt, s =>
    match s with
    | [] => some (stop true)
    | x :: s => if x = c then sscanf fmt s else some (stop false)
  | .int width :: fmt, s =>
    if skip s = [] then some (stop true)
    else match number width (skip s) with
      | none => some (stop false)
      | some (n, s) => if CInt.Fits 32 n then (sscanf fmt s).map (Scanned.withInt n) else none
  | .str width :: fmt, s =>
    if skip s = [] then some (stop true)
    else (sscanf fmt ((skip s).drop (word width (skip s)).length)).map
      (Scanned.withStr (word width (skip s)))

/-- `atoi`, which has no result where an `int` does not hold the number. -/
def atoi (s : List UInt8) : Option ℤ :=
  match number none (skip s) with
  | none => some 0
  | some (n, _) => if CInt.Fits 32 n then some n else none

/-! ### Rules -/

variable {fmt : List Directive} {pad ds t w : List UInt8} {width : Option ℕ} {c : UInt8}

theorem skip_append (hpad : ∀ c ∈ pad, isspace c = true) (ht : ∀ c ∈ t.head?, isspace c = false) :
    skip (pad ++ t) = t := by
  rw [skip, List.dropWhile_append_of_pos hpad]
  cases t with
  | nil => rfl
  | cons c t => rw [List.dropWhile_cons, ht c rfl]; rfl

theorem skip_self (ht : ∀ c ∈ t.head?, isspace c = false) : skip t = t :=
  skip_append (List.forall_mem_nil _) ht

theorem not_space_of_isDigit (hc : IsDigit c) : isspace c = false := by
  have h1 := hc.1
  have h2 := hc.2
  simp only [isspace, Bool.or_eq_false_iff, Bool.and_eq_false_iff, decide_eq_false_iff_not,
    UInt8.le_iff_toNat_le, ← UInt8.toNat_inj, UInt8.reduceToNat]
  omega

theorem not_sign_of_isDigit (hc : IsDigit c) : c ≠ 0x2d ∧ c ≠ 0x2b := by
  constructor
  · rintro rfl
    exact absurd hc (by decide)
  · rintro rfl
    exact absurd hc (by decide)

/-- A number of `used` characters ends in front of `t`. -/
structure Ends (width : Option ℕ) (used : ℕ) (t : List UInt8) : Prop where
  fits : ∀ w ∈ width, used ≤ w
  ends : (∀ c ∈ t.head?, ¬ IsDigit c) ∨ width = some used

theorem splitSign_signText {neg : Bool} (hds : ∀ c ∈ ds, IsDigit c) (hne : ds ≠ []) :
    splitSign (signText neg ++ (ds ++ t)) = (neg, ds ++ t) := by
  cases neg with
  | true => rfl
  | false =>
    obtain ⟨c, ds, rfl⟩ := List.exists_cons_of_ne_nil hne
    obtain ⟨hminus, hplus⟩ := not_sign_of_isDigit (hds c List.mem_cons_self)
    change splitSign (c :: (ds ++ t)) = _
    rw [splitSign, if_neg hminus, if_neg hplus]
    rfl

theorem takeWhile_digits (hds : ∀ c ∈ ds, IsDigit c) (ht : ∀ c ∈ t.head?, ¬ IsDigit c) :
    (ds ++ t).takeWhile (fun c => decide (IsDigit c)) = ds := by
  rw [List.takeWhile_append_of_pos fun c hc => decide_eq_true (hds c hc)]
  cases t with
  | nil => rw [List.takeWhile_nil, List.append_nil]
  | cons c t => rw [List.takeWhile_cons_of_neg (by simpa using ht c rfl), List.append_nil]

/-- The number at the front is the one that is written there. -/
theorem number_eq {neg : Bool} (hds : ∀ c ∈ ds, IsDigit c) (hne : ds ≠ [])
    (hend : Ends width (signText neg ++ ds).length t) :
    number width (signText neg ++ (ds ++ t)) =
      some (signed neg (digitsValue ds), t) := by
  obtain ⟨t', htake, hstop⟩ : ∃ t', (signText neg ++ (ds ++ t)).take
      (width.getD (signText neg ++ (ds ++ t)).length) = signText neg ++ (ds ++ t') ∧
      ∀ c ∈ t'.head?, ¬ IsDigit c := by
    cases width with
    | none =>
      refine ⟨t, List.take_length, hend.ends.resolve_right nofun⟩
    | some w =>
      have hfits := hend.fits w rfl
      refine ⟨t.take (w - (signText neg ++ ds).length), ?_, ?_⟩
      · rw [← List.append_assoc, Option.getD_some, List.take_append,
          List.take_of_length_le hfits, List.append_assoc]
      · intro c hc
        rcases hend.ends with hstop | hw
        · refine hstop c ?_
          cases t with
          | nil => simp at hc
          | cons x t =>
            cases hn : w - (signText neg ++ ds).length with
            | zero => rw [hn] at hc; simp at hc
            | succ n => rw [hn] at hc; exact hc
        · rw [Option.some.inj hw, Nat.sub_self] at hc
          simp at hc
  have hdigits := takeWhile_digits hds hstop
  have hlen : (signText neg ++ (ds ++ t')).length - (ds ++ t').length + ds.length =
      (signText neg ++ ds).length := by
    simp only [List.length_append]
    omega
  simp only [number, htake, splitSign_signText hds hne, hdigits, if_neg hne, hlen]
  rw [← List.append_assoc, List.drop_left]

/-- A sign or a digit stands in front of a number. -/
theorem skip_number {neg : Bool} (hpad : ∀ c ∈ pad, isspace c = true) (hds : ∀ c ∈ ds, IsDigit c)
    (hne : ds ≠ []) :
    skip (pad ++ (signText neg ++ (ds ++ t))) = signText neg ++ (ds ++ t) ∧
      signText neg ++ (ds ++ t) ≠ [] := by
  obtain ⟨d, ds, rfl⟩ := List.exists_cons_of_ne_nil hne
  refine ⟨skip_append hpad ?_, by simp⟩
  cases neg with
  | true =>
    rintro _ ⟨⟩
    rfl
  | false =>
    rintro _ ⟨⟩
    exact not_space_of_isDigit (hds d List.mem_cons_self)

/-- A number is passed over. -/
theorem sscanf_int {neg : Bool} (hpad : ∀ c ∈ pad, isspace c = true) (hds : ∀ c ∈ ds, IsDigit c)
    (hne : ds ≠ []) (hend : Ends width (signText neg ++ ds).length t) :
    sscanf (.int width :: fmt) (pad ++ (signText neg ++ (ds ++ t))) =
      if CInt.Fits 32 (signed neg (digitsValue ds)) then
        (sscanf fmt t).map (Scanned.withInt (signed neg (digitsValue ds)))
      else none := by
  obtain ⟨hskip, hcons⟩ := skip_number hpad hds hne
  rw [sscanf, hskip, if_neg hcons, number_eq hds hne hend]

theorem fits_of_length {neg : Bool} (hds : ∀ c ∈ ds, IsDigit c) (hlen : ds.length ≤ 9) :
    CInt.Fits 32 (signed neg (digitsValue ds)) := by
  have hlt := Decimal.digitsValue_lt hds
  have hpow : 10 ^ ds.length ≤ 10 ^ 9 := Nat.pow_le_pow_right (by decide) hlen
  rw [signed]
  constructor
  · split <;> omega
  · split <;> omega

/-- A number of nine digits at most. -/
theorem sscanf_int_fits {neg : Bool} (hds : ∀ c ∈ ds, IsDigit c)
    (hne : ds ≠ []) (hlen : ds.length ≤ 9)
    (hend : Ends width (signText neg ++ ds).length t) :
    sscanf (.int width :: fmt) (signText neg ++ (ds ++ t)) =
      (sscanf fmt t).map (Scanned.withInt (signed neg (digitsValue ds))) := by
  have h : sscanf (.int width :: fmt) ([] ++ (signText neg ++ (ds ++ t))) = _ :=
    sscanf_int (List.forall_mem_nil _) hds hne hend
  rw [if_pos (fits_of_length hds hlen)] at h
  exact h

/-- A number with as many digits as are converted. -/
theorem sscanf_decimal {k : ℕ} {n : ℤ} (hk : 0 < k) (hk9 : k ≤ 9) (hn : 0 ≤ n) (hlt : n < 10 ^ k) :
    sscanf (.int (some k) :: fmt) (decimal k n ++ t) = (sscanf fmt t).map (Scanned.withInt n) := by
  obtain ⟨n, rfl⟩ := Int.eq_ofNat_of_zero_le hn
  have hlen : (digits k n).length = k := length_digits_of_lt (by exact_mod_cast hlt)
  have hpow : (10 : ℤ) ^ k ≤ 10 ^ 9 := by exact_mod_cast Nat.pow_le_pow_right (by decide) hk9
  have hused : (signText false ++ digits k n).length = k := hlen
  have hend : Ends (some k) (signText false ++ digits k n).length t := by
    rw [hused]
    exact ⟨fun w hw => (Option.some.inj hw).le, .inr rfl⟩
  have h : sscanf (.int (some k) :: fmt) ([] ++ (signText false ++ (digits k n ++ t))) = _ :=
    sscanf_int (List.forall_mem_nil _) (digits_isDigit k n) (digits_ne_nil hk n) hend
  have hval : signed false (digitsValue (digits k n)) = n := by rw [digitsValue_digits]; rfl
  have hfits : CInt.Fits 32 (n : ℤ) := ⟨by omega, by omega⟩
  rw [hval, if_pos hfits] at h
  exact h

theorem sscanf_digits {k n : ℕ} (hk : 0 < k) (hk9 : k ≤ 9) (hlt : n < 10 ^ k) :
    sscanf (.int (some k) :: fmt) (digits k n ++ t) = (sscanf fmt t).map (Scanned.withInt n) :=
  sscanf_decimal (n := n) hk hk9 (Int.natCast_nonneg n) (by exact_mod_cast hlt)

theorem head_decimal {k : ℕ} {n : ℤ} (hk : 0 < k) (hn : 0 ≤ n) :
    ∀ c ∈ (decimal k n ++ t).head?, isspace c = false := by
  obtain ⟨n, rfl⟩ := Int.eq_ofNat_of_zero_le hn
  obtain ⟨d, ds, hds⟩ := List.exists_cons_of_ne_nil (digits_ne_nil hk n)
  have htext : decimal k n = d :: ds := hds
  rw [htext]
  rintro _ ⟨⟩
  exact not_space_of_isDigit (digits_isDigit k n d (by rw [hds]; exact List.mem_cons_self))

/-- Nothing is left for a conversion. -/
theorem sscanf_int_end (hpad : ∀ c ∈ pad, isspace c = true) :
    sscanf (.int width :: fmt) pad = some (stop true) := by
  have hskip := skip_append (t := []) hpad nofun
  rw [List.append_nil] at hskip
  rw [sscanf, hskip, if_pos rfl]

theorem sscanf_str_end (hpad : ∀ c ∈ pad, isspace c = true) {n : ℕ} :
    sscanf (.str n :: fmt) pad = some (stop true) := by
  have hskip := skip_append (t := []) hpad nofun
  rw [List.append_nil] at hskip
  rw [sscanf, hskip, if_pos rfl]

/-- What stands here is no number. -/
theorem sscanf_int_stop (hpad : ∀ c ∈ pad, isspace c = true) (hspace : isspace c = false)
    (hdigit : ¬ IsDigit c) (hsign : c ≠ 0x2d ∧ c ≠ 0x2b) :
    sscanf (.int width :: fmt) (pad ++ c :: t) = some (stop false) := by
  have hskip : skip (pad ++ c :: t) = c :: t := skip_append hpad fun x hx => by
    obtain rfl := Option.some.inj hx
    exact hspace
  have hnumber : number width (c :: t) = none := by
    rw [number]
    cases (width.getD (c :: t).length) with
    | zero => rfl
    | succ n =>
      have hsplit : splitSign (c :: t.take n) = (false, c :: t.take n) := by
        rw [splitSign, if_neg hsign.1, if_neg hsign.2]
      have hdigits : (c :: t.take n).takeWhile (fun c => decide (IsDigit c)) = [] :=
        List.takeWhile_cons_of_neg (by simpa using hdigit)
      simp only [List.take_succ_cons, hsplit, hdigits, if_true]
  rw [sscanf, hskip, if_neg (List.cons_ne_nil c t), hnumber]

/-- A word is passed over. -/
theorem sscanf_str (hpad : ∀ c ∈ pad, isspace c = true) {n : ℕ} (hw : ∀ c ∈ w, isspace c = false)
    (hne : w ≠ []) (hlen : w.length ≤ n)
    (hend : (∀ c ∈ t.head?, isspace c = true) ∨ w.length = n) :
    sscanf (.str n :: fmt) (pad ++ (w ++ t)) = (sscanf fmt t).map (Scanned.withStr w) := by
  have hskip : skip (pad ++ (w ++ t)) = w ++ t := by
    obtain ⟨c, w, rfl⟩ := List.exists_cons_of_ne_nil hne
    refine skip_append hpad fun x hx => ?_
    obtain rfl := Option.some.inj hx
    exact hw c List.mem_cons_self
  have hword : word n (w ++ t) = w := by
    rw [word, List.takeWhile_append_of_pos fun c hc => by rw [hw c hc]; rfl]
    rcases hend with hend | hfull
    · have hrest : t.takeWhile (fun c => !isspace c) = [] := by
        cases t with
        | nil => rfl
        | cons c t => rw [List.takeWhile_cons_of_neg (by simpa using hend c rfl)]
      rw [hrest, List.append_nil, List.take_of_length_le hlen]
    · rw [← hfull, List.take_left]
  have hcons : w ++ t ≠ [] := List.append_ne_nil_of_left_ne_nil hne t
  rw [sscanf, hskip, if_neg hcons, hword, List.drop_left]

theorem sscanf_word {n : ℕ} (hw : ∀ c ∈ w, isspace c = false) (hne : w ≠ []) (hlen : w.length ≤ n)
    (hend : (∀ c ∈ t.head?, isspace c = true) ∨ w.length = n) :
    sscanf (.str n :: fmt) (w ++ t) = (sscanf fmt t).map (Scanned.withStr w) := by
  have h : sscanf (.str n :: fmt) ([] ++ (w ++ t)) = _ :=
    sscanf_str (List.forall_mem_nil _) hw hne hlen hend
  exact h

@[simp]
theorem sscanf_lit : sscanf (.lit c :: fmt) (c :: t) = sscanf fmt t := by
  rw [sscanf, if_pos rfl]

theorem sscanf_lit_stop {x : UInt8} (hx : x ≠ c) :
    sscanf (.lit c :: fmt) (x :: t) = some (stop false) := by
  rw [sscanf, if_neg hx]

/-- More characters stand there than are converted, and what comes next is a digit. -/
theorem sscanf_int_cut {neg : Bool} {n : ℕ} (hpad : ∀ c ∈ pad, isspace c = true) (hds : ∀ c ∈ ds, IsDigit c)
    (hn : (signText neg).length < n) (hn9 : n ≤ 9) (hlong : n < (signText neg ++ ds).length)
    (hc : ¬ IsDigit c) : ∃ v, sscanf (.int (some n) :: .lit c :: fmt)
      (pad ++ (signText neg ++ (ds ++ t))) = some ⟨[v], [], false⟩ := by
  obtain ⟨j, hj⟩ := Nat.exists_eq_add_of_le hn.le
  rw [List.length_append] at hlong
  have hlt : j < ds.length := by omega
  have hsplit : ds ++ t = ds.take j ++ (ds[j] :: ds.drop (j + 1) ++ t) := by
    rw [List.cons_append, ← List.cons_append, ← List.drop_eq_getElem_cons hlt,
      ← List.append_assoc, List.take_append_drop]
  have htake : (ds.take j).length = j := List.length_take_of_le hlt.le
  have hdigits : ∀ c ∈ ds.take j, IsDigit c := fun c hc => hds c (List.mem_of_mem_take hc)
  have hne : ds.take j ≠ [] := fun h => by
    rw [h, List.length_nil] at htake
    omega
  have hend : Ends (some n) (signText neg ++ ds.take j).length (ds[j] :: ds.drop (j + 1) ++ t) := by
    rw [List.length_append, htake, ← hj]
    exact ⟨fun w hw => (Option.some.inj hw).le, .inr rfl⟩
  have hother : ds[j] ≠ c := fun h => hc (h ▸ hds _ (List.getElem_mem hlt))
  refine ⟨signed neg (digitsValue (ds.take j)), ?_⟩
  rw [hsplit, sscanf_int hpad hdigits hne hend, if_pos (fits_of_length hdigits (by omega)),
    List.cons_append, sscanf_lit_stop hother]
  rfl

theorem sscanf_space (hpad : ∀ c ∈ pad, isspace c = true)
    (ht : ∀ c ∈ t.head?, isspace c = false) :
    sscanf (.space :: fmt) (pad ++ t) = sscanf fmt t := by
  rw [sscanf, skip_append hpad ht]

/-- `atoi` reads a number that stands at the front. -/
theorem atoi_digits (hds : ∀ c ∈ ds, IsDigit c) (hne : ds ≠ []) (hfits : digitsValue ds < 2 ^ 31)
    (ht : ∀ c ∈ t.head?, ¬ IsDigit c) : atoi (ds ++ t) = some (digitsValue ds : ℤ) := by
  have hskip : skip ([] ++ (signText false ++ (ds ++ t))) = signText false ++ (ds ++ t) :=
    (skip_number (List.forall_mem_nil _) hds hne).1
  have hend : Ends none (signText false ++ ds).length t := ⟨nofun, .inl ht⟩
  have hnumber := number_eq hds hne hend
  change skip (ds ++ t) = ds ++ t at hskip
  change number none (ds ++ t) = some ((digitsValue ds : ℤ), t) at hnumber
  have hint : CInt.Fits 32 (digitsValue ds : ℤ) := ⟨by omega, by exact_mod_cast hfits⟩
  rw [atoi, hskip, hnumber]
  exact if_pos hint

end OdbcDriver.Scanf
