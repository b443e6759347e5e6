import Mathlib.Order.Bounds.Basic
import OdbcDriver.Lib.Scanf
import OdbcDriver.Types.Attributes

/-!
# The display size of a numeric column

A `numeric(p,s)` column has its precision and scale in the type modifier. For a numeric column
without one, `getAtttypmodEtc` looks for the largest scale among the values in the cache and packs
it above the longest length that has been read.

* `display_declared_iff`: every value of `numeric(p,s)` fits its display size exactly when the scale
  is less than the precision;
* `display_undeclared_iff`: what is said about an undeclared column is right exactly when nothing is
  in the cache, or sizes that are unknown are to be told and neither half overflows the other.
-/

namespace OdbcDriver.Types

open CInt Scanf
open Decimal (IsDigit)

/-! ### Numeric texts -/

/-- A number as the server writes it: digits in front of the point and behind it. -/
structure Numeral where
  neg : Bool
  whole : List Byte
  fraction : List Byte
  whole_ne_nil : whole ≠ []
  whole_digits : ∀ c ∈ whole, IsDigit c
  fraction_digits : ∀ c ∈ fraction, IsDigit c

/-- A value of a numeric column. -/
inductive NumericValue
  | nan
  | number (n : Numeral)

/-- The text of a value. -/
def NumericValue.text : NumericValue → List Byte
  | .nan => ascii "NaN"
  | .number n =>
    signText n.neg ++ n.whole ++ if n.fraction = [] then [] else 0x2e :: n.fraction

/-- The number of digits behind the point. -/
def NumericValue.fractionDigits : NumericValue → ℕ
  | .nan => 0
  | .number n => n.fraction.length

/-- The number `k` with `s` digits behind the point, or `-s` zeros behind it. -/
def numeral (neg : Bool) (k : ℕ) (s : ℤ) : Numeral where
  neg := neg
  whole := digits 1 (k * 10 ^ (-s).toNat / 10 ^ s.toNat)
  fraction := digits s.toNat (k * 10 ^ (-s).toNat % 10 ^ s.toNat)
  whole_ne_nil := digits_ne_nil Nat.one_pos _
  whole_digits := digits_isDigit _ _
  fraction_digits := digits_isDigit _ _

/-- The values of a column `numeric(p,s)`. -/
def Holds (p : ℕ) (s : ℤ) (v : NumericValue) : Prop :=
  v = .nan ∨ ∃ neg k, k < 10 ^ p ∧ (neg = true → k ≠ 0) ∧ v = .number (numeral neg k s)

/-! ### The result -/

/-- A numeric column of a result that is no catalogue result. -/
structure ResultColumn where
  atttypmod : ℤ
  /-- The texts read so far that have left the cache. -/
  earlier : List (Option (List Byte))
  /-- The texts in the cache. -/
  cached : List (Option (List Byte))

/-- `QR_get_display_size`: the longest length, kept while the rows are read. -/
def QR_get_display_size (col : ResultColumn) : ℤ :=
  (col.earlier ++ col.cached).foldl (fun longest value =>
    match value with
    | none => longest
    | some tval => if longest < tval.length then tval.length else longest) PG_ADT_UNSET

/-- The loop of `getAtttypmodEtc`. -/
def maxscale (cached : List (Option (List Byte))) : ℕ :=
  cached.foldl (fun scale value =>
    match value with
    | none => scale
    | some tval =>
      match tval.findIdx? (· = 0x2e) with
      | none => scale
      | some sptr =>
        let sval := tval.length - (sptr + 1)
        if scale < sval then sval else scale) 0

/-- `getAtttypmodEtc`: the length goes with the type modifier. -/
def getAtttypmodEtc (col : ResultColumn) : ℤ :=
  let longestlen := QR_get_display_size col
  if col.atttypmod < 0 ∧ 0 < longestlen then
    wrap 32 (longestlen + wrap 32 (maxscale col.cached * 2 ^ 16))
  else longestlen

/-- `pgtype_column_size` -/
def pgtype_column_size (conn : SizeSettings) (col : ResultColumn) (handle_unknown_size_as : ℤ) : ℤ :=
  pgtype_attr_column_size conn PG_TYPE_NUMERIC col.atttypmod (getAtttypmodEtc col)
    handle_unknown_size_as

/-- `pgtype_display_size` -/
def pgtype_display_size (conn : SizeSettings) (col : ResultColumn)
    (handle_unknown_size_as : ℤ) : ℤ :=
  pgtype_attr_display_size conn PG_TYPE_NUMERIC col.atttypmod (getAtttypmodEtc col)
    handle_unknown_size_as

/-- `pgtype_decimal_digits` -/
def pgtype_decimal_digits (col : ResultColumn) : ℤ :=
  pgtype_attr_decimal_digits PG_TYPE_NUMERIC col.atttypmod (getAtttypmodEtc col)

/-- `pgtype_scale` -/
def pgtype_scale (col : ResultColumn) : ℤ :=
  pgtype_attr_scale PG_TYPE_NUMERIC col.atttypmod (getAtttypmodEtc col)

/-- The column of the given values, with the type modifier `-1`. -/
def undeclared (earlier cached : List (Option NumericValue)) : ResultColumn :=
  ⟨-1, earlier.map (Option.map NumericValue.text), cached.map (Option.map NumericValue.text)⟩

/-! ### Declared columns -/

variable {p : ℕ} {s : ℤ} {v : NumericValue} {conn : SizeSettings} {adt handle : ℤ}

/-- The type modifier of `numeric(p,s)`, without its header. -/
def numericTypmod (p : ℕ) (s : ℤ) : ℤ := p * 2 ^ 16 + s % 2 ^ 16

theorem length_number (n : Numeral) : (NumericValue.number n).text.length =
    (if n.neg then 1 else 0) + n.whole.length +
      if n.fraction = [] then 0 else n.fraction.length + 1 := by
  rw [NumericValue.text, List.length_append, List.length_append]
  congr 1
  · cases n.neg <;> simp [signText]
  · split <;> simp

theorem length_fraction (neg : Bool) (k : ℕ) (s : ℤ) :
    (numeral neg k s).fraction.length = s.toNat :=
  length_digits_of_lt (Nat.mod_lt _ (by positivity))

/-- The length of a value: a sign, the digits in front of the point, the point and the scale. -/
theorem length_numeral (neg : Bool) (k : ℕ) (s : ℤ) :
    (NumericValue.number (numeral neg k s)).text.length =
      (if neg then 1 else 0) + (digits 1 (k * 10 ^ (-s).toNat / 10 ^ s.toNat)).length +
        if s ≤ 0 then 0 else s.toNat + 1 := by
  have hfraction : (numeral neg k s).fraction = [] ↔ s ≤ 0 := by
    rw [← List.length_eq_zero_iff, length_fraction]
    omega
  rw [length_number, length_fraction]
  simp only [hfraction]
  rfl

theorem scale_declared (hlo : -2 ^ 15 < s) (hhi : s < 2 ^ 15) :
    getNumericDecimalDigitsX (numericTypmod p s) adt = s := by
  have hpos : 0 ≤ numericTypmod p s := by
    unfold numericTypmod
    omega
  have hmod : numericTypmod p s % 2 ^ 16 = s % 2 ^ 16 := by
    unfold numericTypmod
    omega
  rw [getNumericDecimalDigitsX, if_neg (by omega), if_pos (by omega), hmod, wrap]
  omega

theorem size_declared (hp : p < 2 ^ 15) :
    getNumericColumnSizeX (numericTypmod p s) adt handle = p := by
  have hpos : 0 ≤ numericTypmod p s := by
    unfold numericTypmod
    omega
  rw [getNumericColumnSizeX, if_pos (by omega), numericTypmod]
  omega

/-- The numeric case of `pgtype_attr_display_size`. -/
theorem display_numeric (atttypmod : ℤ) :
    pgtype_attr_display_size conn PG_TYPE_NUMERIC atttypmod adt handle =
      let scale := getNumericDecimalDigitsX atttypmod adt
      let dsize := getNumericColumnSizeX atttypmod adt handle
      if scale < 0 then if scale ≠ -32768 then dsize - scale + 2 else adt
      else if dsize < scale then scale + 2
      else if dsize ≤ 0 then dsize else dsize + 2 :=
  rfl

theorem display_declared (hp : 0 < p) (hhigh : p < 2 ^ 15) (hlo : -2 ^ 15 < s) (hhi : s < 2 ^ 15) :
    pgtype_attr_display_size conn PG_TYPE_NUMERIC (numericTypmod p s) adt handle =
      if s < 0 then p - s + 2 else if (p : ℤ) < s then s + 2 else p + 2 := by
  have hfloat : s ≠ -32768 := by omega
  rw [display_numeric, scale_declared hlo hhi, size_declared hhigh]
  simp only [if_pos hfloat]
  split
  · rfl
  · split
    · rfl
    · rw [if_neg (by omega)]

/-- A value of `numeric(p,s)` with a scale below its precision. -/
theorem length_le_of_lt (hp : 0 < p) (hs : s < p) (hv : Holds p s v) :
    (v.text.length : ℤ) ≤ if s < 0 then p - s + 2 else p + 2 := by
  rcases hv with rfl | ⟨neg, k, hk, -, rfl⟩
  · have hlen : NumericValue.nan.text.length = 3 := rfl
    rw [hlen]
    split <;> omega
  · have hsign : (if neg then 1 else 0) ≤ 1 := by cases neg <;> decide
    rw [length_numeral]
    by_cases hneg : s ≤ 0
    · have hwhole : (digits 1 (k * 10 ^ (-s).toNat / 10 ^ s.toNat)).length ≤ p + (-s).toNat := by
        refine length_digits_le (by omega) ?_
        rw [Int.toNat_of_nonpos hneg, pow_zero, Nat.div_one, pow_add]
        exact Nat.mul_lt_mul_of_pos_right hk (by positivity)
      rw [if_pos hneg]
      split <;> omega
    · have hwhole : (digits 1 (k * 10 ^ (-s).toNat / 10 ^ s.toNat)).length ≤ p - s.toNat := by
        refine length_digits_le (by omega) (Nat.div_lt_of_lt_mul ?_)
        rw [← pow_add, Int.toNat_of_nonpos (by omega : -s ≤ 0), pow_zero, Nat.mul_one]
        rwa [show s.toNat + (p - s.toNat) = p by omega]
      rw [if_neg hneg, if_neg (show ¬ s < 0 by omega)]
      omega

/-- Every value of `numeric(p,s)` fits the display size exactly when the scale is below the
precision: a fraction has a zero in front of the point. -/
theorem display_declared_iff (hp : 0 < p) (hhigh : p < 2 ^ 15) (hlo : -2 ^ 15 < s)
    (hhi : s < 2 ^ 15) :
    (∀ v, Holds p s v → (v.text.length : ℤ) ≤
      pgtype_attr_display_size conn PG_TYPE_NUMERIC (numericTypmod p s) adt handle) ↔ s < p := by
  rw [display_declared hp hhigh hlo hhi]
  constructor
  · intro h
    by_contra hs
    have hone : 1 < 10 ^ p := Nat.one_lt_pow (by omega) (by decide)
    have hlen := h _ (.inr ⟨true, 1, hone, fun _ => by decide, rfl⟩)
    have hpos : 0 < (digits 1 (1 * 10 ^ (-s).toNat / 10 ^ s.toNat)).length :=
      List.length_pos_of_ne_nil (digits_ne_nil Nat.one_pos _)
    rw [length_numeral, if_pos rfl, if_neg (by omega)] at hlen
    split at hlen
    · omega
    · split at hlen <;> omega
  · intro hs v hv
    have hlen := length_le_of_lt hp hs hv
    split
    · rwa [if_pos ‹_›] at hlen
    · rw [if_neg ‹_›] at hlen
      rw [if_neg (by omega)]
      exact hlen

/-! ### The largest of some values -/

/-- A loop that keeps the largest number it meets, beginning with `x`. -/
theorem foldl_largest {α β : Type} [LinearOrder α] (m : β → Option α) (l : List β) {x r : α}
    (hr : r = l.foldl (fun r b => (m b).elim r fun n => if r < n then n else r) x) :
    x ≤ r ∧ (∀ b ∈ l, ∀ n, m b = some n → n ≤ r) ∧ (r = x ∨ ∃ b ∈ l, m b = some r) := by
  induction l generalizing x with
  | nil => simp [hr]
  | cons b l ih =>
    rw [List.foldl_cons] at hr
    obtain ⟨hle, hall, hlast⟩ := ih hr
    cases hb : m b with
    | none =>
      rw [hb, Option.elim_none] at hle hlast
      refine ⟨hle, fun c hc n hn => ?_, hlast.imp id fun ⟨c, hc, hcr⟩ =>
        ⟨c, List.mem_cons_of_mem _ hc, hcr⟩⟩
      rcases List.mem_cons.mp hc with rfl | hc
      · rw [hb] at hn
        cases hn
      · exact hall c hc n hn
    | some k =>
      rw [hb, Option.elim_some] at hle hlast
      have hk : x ≤ r ∧ k ≤ r ∧ (r = x ∨ r = k ∨ ∃ b ∈ l, m b = some r) := by
        split at hle
        · rw [if_pos ‹_›] at hlast
          exact ⟨‹x < k›.le.trans hle, hle, .inr hlast⟩
        · rw [if_neg ‹_›] at hlast
          exact ⟨hle, (not_lt.mp ‹_›).trans hle, hlast.imp id .inr⟩
      refine ⟨hk.1, fun c hc n hn => ?_, hk.2.2.imp id ?_⟩
      · rcases List.mem_cons.mp hc with rfl | hc
        · rw [hb] at hn
          exact Option.some.inj hn ▸ hk.2.1
        · exact hall c hc n hn
      · rintro (hrk | ⟨c, hc, hcr⟩)
        · exact ⟨b, List.mem_cons_self, by rw [hb, hrk]⟩
        · exact ⟨c, List.mem_cons_of_mem _ hc, hcr⟩

variable {earlier cached : List (Option NumericValue)}

/-- The longest length is that of a value, and no value is longer. -/
theorem longest_spec :
    (∀ v, some v ∈ earlier ++ cached →
      (v.text.length : ℤ) ≤ QR_get_display_size (undeclared earlier cached)) ∧
    (QR_get_display_size (undeclared earlier cached) = -3 ∨
      ∃ v, some v ∈ earlier ++ cached ∧
        QR_get_display_size (undeclared earlier cached) = v.text.length) := by
  have hsize : QR_get_display_size (undeclared earlier cached) =
      (earlier ++ cached).foldl (fun r b => (b.map fun v => (v.text.length : ℤ)).elim r
        fun n => if r < n then n else r) PG_ADT_UNSET := by
    rw [QR_get_display_size, undeclared, ← List.map_append, List.foldl_map]
    refine congrArg₂ (fun f l => List.foldl f PG_ADT_UNSET l) ?_ rfl
    funext r b
    cases b <;> rfl
  obtain ⟨-, hall, hlast⟩ := foldl_largest (fun value : Option NumericValue =>
    value.map fun v => (v.text.length : ℤ)) (earlier ++ cached) hsize
  refine ⟨fun v hv => hall _ hv _ rfl, hlast.imp id ?_⟩
  rintro ⟨b, hb, hr⟩
  obtain ⟨v, rfl, hv⟩ := Option.map_eq_some_iff.mp hr
  exact ⟨v, hb, hv.symm⟩

/-- The digits behind the point, as the loop of `getAtttypmodEtc` counts them. -/
theorem fraction_found (v : NumericValue) :
    (match v.text.findIdx? (· = 0x2e) with
      | none => none
      | some sptr => some (v.text.length - (sptr + 1))) =
      if v.fractionDigits = 0 then none else some v.fractionDigits := by
  cases v with
  | nan => rfl
  | number n =>
    have hfront : ∀ c ∈ signText n.neg ++ n.whole, (fun c : Byte => decide (c = 0x2e)) c = false := by
      intro c hc
      have hne : c ≠ 0x2e := by
        rcases List.mem_append.mp hc with hc | hc
        · intro h
          subst h
          cases hneg : n.neg <;> rw [hneg] at hc <;> simp [signText] at hc
        · intro h
          subst h
          exact absurd (n.whole_digits _ hc) (by decide)
      exact decide_eq_false hne
    have hnone : (signText n.neg ++ n.whole).findIdx? (· = 0x2e) = none :=
      List.findIdx?_eq_none_iff.mpr fun c hc => hfront c hc
    by_cases hf : n.fraction = []
    · rw [NumericValue.text, if_pos hf, List.append_nil, hnone]
      simp [NumericValue.fractionDigits, hf]
    · have hlen : n.fraction.length ≠ 0 := by simpa using hf
      rw [NumericValue.text, if_neg hf, List.findIdx?_append, hnone]
      rw [if_neg (show (NumericValue.number n).fractionDigits ≠ 0 from hlen)]
      simp only [NumericValue.fractionDigits, List.findIdx?_cons, decide_true, if_true,
        Option.none_or, Option.map_some, List.length_append, List.length_cons]
      congr 1
      omega

/-- The scale found is the largest number of digits behind the point. -/
theorem isGreatest_maxscale (hv : some v ∈ cached) :
    IsGreatest {n | ∃ v, some v ∈ cached ∧ v.fractionDigits = n}
      (maxscale (undeclared earlier cached).cached) := by
  have hscale : maxscale (undeclared earlier cached).cached =
      cached.foldl (fun r b => (b.bind fun v =>
        if v.fractionDigits = 0 then none else some v.fractionDigits).elim r
        fun n => if r < n then n else r) 0 := by
    rw [maxscale, undeclared, List.foldl_map]
    refine congrArg₂ (fun f l => List.foldl f 0 l) ?_ rfl
    funext r b
    cases b with
    | none => rfl
    | some v =>
      rw [Option.bind_some, ← fraction_found v, Option.map_some]
      dsimp only
      cases v.text.findIdx? (· = 0x2e) <;> rfl
  obtain ⟨-, hall, hlast⟩ := foldl_largest (fun value : Option NumericValue =>
    value.bind fun v => if v.fractionDigits = 0 then none else some v.fractionDigits) cached hscale
  have hbound : ∀ w, some w ∈ cached →
      w.fractionDigits ≤ maxscale (undeclared earlier cached).cached := by
    intro w hw
    by_cases hzero : w.fractionDigits = 0
    · omega
    · exact hall _ hw _ (by rw [Option.bind_some, if_neg hzero])
  constructor
  · rcases hlast with hr | ⟨b, hb, hr⟩
    · exact ⟨v, hv, by have hle := hbound v hv; omega⟩
    · obtain ⟨w, rfl, hw⟩ := Option.bind_eq_some_iff.mp hr
      refine ⟨w, hb, ?_⟩
      split at hw
      · cases hw
      · exact Option.some.inj hw
  · rintro n ⟨w, hw, rfl⟩
    exact hbound w hw

/-! ### Undeclared columns -/

theorem text_ne_nil (v : NumericValue) : 0 < v.text.length := by
  cases v with
  | nan => exact Nat.succ_pos _
  | number n =>
    have hpos := List.length_pos_of_ne_nil n.whole_ne_nil
    rw [length_number]
    omega

theorem fractionDigits_lt (v : NumericValue) : v.fractionDigits < v.text.length := by
  cases v with
  | nan => exact Nat.succ_pos _
  | number n =>
    have hpos := List.length_pos_of_ne_nil n.whole_ne_nil
    rw [length_number, NumericValue.fractionDigits]
    by_cases hf : n.fraction = []
    · rw [hf, List.length_nil]
      omega
    · rw [if_neg hf]
      omega

/-- What is derived from a length `l` with a scale `m` packed above it. -/
theorem unpacked {l m : ℕ} (hl : 0 < l) (hl16 : l < 2 ^ 16) (hm : m < 2 ^ 15) :
    wrap 32 (l + wrap 32 (m * 2 ^ 16)) = l + m * 2 ^ 16 ∧
      getNumericDecimalDigitsX (-1) (l + m * 2 ^ 16) = m ∧
      getNumericColumnSizeX (-1) (l + m * 2 ^ 16) handle =
        if handle = UNKNOWNS_AS_DONTKNOW then SQL_NO_TOTAL
        else if handle = UNKNOWNS_AS_MAX then max l 28 else max l 10 := by
  refine ⟨?_, ?_, ?_⟩
  · simp only [wrap]
    omega
  · rw [getNumericDecimalDigitsX, if_neg (by omega), if_neg (by omega), if_neg (by omega)]
    omega
  · have hmod : ((l : ℤ) + m * 2 ^ 16) % 2 ^ 16 = l := by omega
    rw [getNumericColumnSizeX, if_neg (by omega), if_neg (show ¬ (l : ℤ) + m * 2 ^ 16 ≤ 0 by omega)]
    simp only [hmod]
    by_cases hdont : handle = UNKNOWNS_AS_DONTKNOW
    · rw [if_pos hdont, if_pos hdont]
    · rw [if_neg hdont, if_neg hdont]
      by_cases hmax : handle = UNKNOWNS_AS_MAX
      · rw [if_pos hmax, if_pos hmax]
        split <;> omega
      · rw [if_neg hmax, if_neg hmax]
        split <;> omega

/-- A scale that is read back was packed without touching the length. -/
theorem packed_of_scale {l m : ℕ} (hl : 0 < l) (hl30 : l < 2 ^ 30) (hm : m < l)
    (h : getNumericDecimalDigitsX (-1) (wrap 32 (l + wrap 32 (m * 2 ^ 16))) = m) :
    l < 2 ^ 16 ∧ m < 2 ^ 15 := by
  have hwrap : wrap 32 ((l : ℤ) + wrap 32 (m * 2 ^ 16)) = wrap 32 (l + m * 2 ^ 16) := by
    simp only [wrap]
    omega
  rw [hwrap] at h
  unfold getNumericDecimalDigitsX at h
  by_cases hpos : wrap 32 ((l : ℤ) + m * 2 ^ 16) ≤ 0
  · have hsix : (m : ℤ) = 6 := by
      rw [if_neg (by omega : ¬ (-1 : ℤ) < -1), if_pos hpos, ite_self] at h
      exact h.symm
    simp only [wrap] at hpos
    omega
  · rw [if_neg (by omega), if_neg (by omega), if_neg hpos] at h
    simp only [wrap] at h hpos
    omega

/-- What is said about a column without a type modifier is right exactly when its cache holds no
value, or when sizes that are unknown are to be told, no value that has been read is as long as
`2 ^ 16` and none in the cache has `2 ^ 15` digits behind its point. The server sends no value as
long as `2 ^ 30`. -/
theorem display_undeclared_iff
    (hlen : ∀ v, some v ∈ earlier ++ cached → v.text.length < 2 ^ 30) :
    ((∀ v, some v ∈ cached →
        (v.text.length : ℤ) ≤ pgtype_display_size conn (undeclared earlier cached) handle) ∧
      (∀ n, IsGreatest {n | ∃ v, some v ∈ cached ∧ v.fractionDigits = n} n →
        pgtype_decimal_digits (undeclared earlier cached) = n ∧
          pgtype_scale (undeclared earlier cached) = n) ∧
      ∀ v, some v ∈ cached →
        (v.text.length : ℤ) ≤ pgtype_column_size conn (undeclared earlier cached) handle) ↔
    (∀ v, some v ∉ cached) ∨
      (handle ≠ UNKNOWNS_AS_DONTKNOW ∧
        (∀ v, some v ∈ earlier ++ cached → v.text.length < 2 ^ 16) ∧
        ∀ v, some v ∈ cached → v.fractionDigits < 2 ^ 15) := by
  by_cases hcache : ∀ v, some v ∉ cached
  · refine iff_of_true ⟨fun v hv => absurd hv (hcache v), ?_, fun v hv => absurd hv (hcache v)⟩
      (.inl hcache)
    rintro n ⟨⟨v, hv, -⟩, -⟩
    exact absurd hv (hcache v)
  obtain ⟨v, hv⟩ : ∃ v, some v ∈ cached := by simpa using hcache
  obtain ⟨hall, hlast⟩ := @longest_spec earlier cached
  have hgreatest := @isGreatest_maxscale _ earlier _ hv
  have hvall := hall v (List.mem_append_right _ hv)
  have hvpos := text_ne_nil v
  -- The longest length is that of a value `w`.
  obtain ⟨w, hw, hsize⟩ := hlast.resolve_left (by omega)
  have hwlen := hlen w hw
  have hwpos := text_ne_nil w
  rw [hsize] at hall
  set m := maxscale (undeclared earlier cached).cached with hm
  have hml : m < w.text.length := by
    obtain ⟨u, hu, hum⟩ := hgreatest.1
    have hlt := fractionDigits_lt u
    have hle := hall u (List.mem_append_right _ hu)
    omega
  have hadt : getAtttypmodEtc (undeclared earlier cached) =
      wrap 32 (w.text.length + wrap 32 (m * 2 ^ 16)) := by
    have hneg : (undeclared earlier cached).atttypmod < 0 := (by decide : (-1 : ℤ) < 0)
    rw [getAtttypmodEtc, hsize]
    simp only [if_pos (show (undeclared earlier cached).atttypmod < 0 ∧ (0 : ℤ) < w.text.length from
      ⟨hneg, by omega⟩)]
    rfl
  have hscale : pgtype_decimal_digits (undeclared earlier cached) =
      getNumericDecimalDigitsX (-1) (wrap 32 (w.text.length + wrap 32 (m * 2 ^ 16))) := by
    rw [← hadt]
    rfl
  have hcol : pgtype_column_size conn (undeclared earlier cached) handle =
      getNumericColumnSizeX (-1) (wrap 32 (w.text.length + wrap 32 (m * 2 ^ 16))) handle := by
    rw [← hadt]
    rfl
  have hdisplay : pgtype_display_size conn (undeclared earlier cached) handle =
      pgtype_attr_display_size conn PG_TYPE_NUMERIC (-1)
        (wrap 32 (w.text.length + wrap 32 (m * 2 ^ 16))) handle := by
    rw [← hadt]
    rfl
  constructor
  · rintro ⟨-, hdigits, hcolumn⟩
    obtain ⟨hl16, hm15⟩ := packed_of_scale hwpos hwlen hml (hscale ▸ (hdigits m hgreatest).1)
    obtain ⟨hpack, -, hunsize⟩ := @unpacked handle _ _ hwpos hl16 hm15
    refine .inr ⟨fun hdont => ?_, fun u hu => ?_, fun u hu => ?_⟩
    · have hlow := hcolumn v hv
      rw [hcol, hpack, hunsize, if_pos hdont] at hlow
      simp only [SQL_NO_TOTAL] at hlow
      omega
    · have hle := hall u hu
      omega
    · have hle := hgreatest.2 ⟨u, hu, rfl⟩
      omega
  · rintro (h | ⟨hdont, hshort, hfew⟩)
    · exact absurd hv (h v)
    obtain ⟨u, hu, hum⟩ := hgreatest.1
    obtain ⟨hpack, hunscale, hunsize⟩ := @unpacked handle _ _ hwpos (hshort w hw)
      (hum ▸ hfew u hu)
    rw [hpack] at hscale hcol hdisplay
    rw [hunsize, if_neg hdont] at hcol
    have hwide : (w.text.length : ℤ) ≤ pgtype_column_size conn (undeclared earlier cached) handle := by
      rw [hcol]
      split <;> omega
    refine ⟨fun x hx => ?_, fun n hn => ?_, fun x hx => ?_⟩
    · have hle := hall x (List.mem_append_right _ hx)
      rw [hdisplay, display_numeric]
      dsimp only
      rw [hunscale, hunsize, if_neg hdont, if_neg (by omega)]
      rw [hcol] at hwide
      rw [if_neg (by omega), if_neg (by omega)]
      omega
    · have hnm : n = m := hn.unique hgreatest
      rw [hnm]
      exact ⟨hscale.trans hunscale, hscale.trans hunscale⟩
    · have hle := hall x (List.mem_append_right _ hx)
      omega

/-! ### Both kinds of columns -/

/-- The sizes of a declared column `numeric(p,s)` and of an undeclared one. -/
theorem numeric_sizes_iff (conn : SizeSettings) (p : ℕ) (s adt handle : ℤ)
    (earlier cached : List (Option NumericValue)) (hp : 0 < p) (hhigh : p < 2 ^ 15)
    (hlo : -2 ^ 15 < s) (hhi : s < 2 ^ 15)
    (hlen : ∀ v, some v ∈ earlier ++ cached → v.text.length < 2 ^ 30) :
    ((∀ v, Holds p s v → (v.text.length : ℤ) ≤
      pgtype_attr_display_size conn PG_TYPE_NUMERIC (numericTypmod p s) adt handle) ↔ s < p) ∧
    (((∀ v, some v ∈ cached →
        (v.text.length : ℤ) ≤ pgtype_display_size conn (undeclared earlier cached) handle) ∧
      (∀ n, IsGreatest {n | ∃ v, some v ∈ cached ∧ v.fractionDigits = n} n →
        pgtype_decimal_digits (undeclared earlier cached) = n ∧
          pgtype_scale (undeclared earlier cached) = n) ∧
      ∀ v, some v ∈ cached →
        (v.text.length : ℤ) ≤ pgtype_column_size conn (undeclared earlier cached) handle) ↔
    (∀ v, some v ∉ cached) ∨
      (handle ≠ UNKNOWNS_AS_DONTKNOW ∧
        (∀ v, some v ∈ earlier ++ cached → v.text.length < 2 ^ 16) ∧
        ∀ v, some v ∈ cached → v.fractionDigits < 2 ^ 15)) :=
  ⟨display_declared_iff hp hhigh hlo hhi, display_undeclared_iff hlen⟩

/-- The settings used in the examples. -/
def sampleSettings : SizeSettings where
  text_as_longvarchar := true
  unknowns_as_longvarchar := false
  bytea_as_longvarbinary := true
  bools_as_char := false
  max_varchar_size := 255
  max_longvarchar_size := 8190
  unicode_sql_server := false
  lobj_type := PG_TYPE_LO_UNDEFINED
  max_idlen := 63

/-- A `numeric(5,2)` and an undeclared column that holds `NaN`. -/
theorem numeric_sizes_five_two :
    (∀ v, Holds 5 2 v → (v.text.length : ℤ) ≤
      pgtype_attr_display_size sampleSettings PG_TYPE_NUMERIC (numericTypmod 5 2) 0 0) ∧
    (∀ v, some v ∈ [some NumericValue.nan] → (v.text.length : ℤ) ≤
      pgtype_display_size sampleSettings (undeclared [] [some .nan]) UNKNOWNS_AS_MAX) := by
  have hnan : ∀ v, some v ∈ [] ++ [some NumericValue.nan] → v.text.length = 3 := by
    intro v hv
    obtain rfl : v = .nan := by simpa using hv
    rfl
  obtain ⟨hdeclared, -⟩ := numeric_sizes_iff sampleSettings 5 2 0 0 [] [some .nan] (by decide)
    (by decide) (by decide) (by decide) fun v hv => by rw [hnan v hv]; decide
  obtain ⟨-, hcached⟩ := numeric_sizes_iff sampleSettings 5 2 0 UNKNOWNS_AS_MAX [] [some .nan]
    (by decide) (by decide) (by decide) (by decide) fun v hv => by rw [hnan v hv]; decide
  refine ⟨hdeclared.mpr (by decide), (hcached.mpr (.inr ⟨by decide, fun v hv => ?_, ?_⟩)).1⟩
  · rw [hnan v hv]
    decide
  · intro v hv
    obtain rfl : v = .nan := by simpa using hv
    decide

/-- The value `-0.1` of a column `numeric(1,1)` needs four places, and the display size is
three. -/
theorem display_too_small :
    Holds 1 1 (.number (numeral true 1 1)) ∧
    (NumericValue.number (numeral true 1 1)).text = ascii "-0.1" ∧
    pgtype_attr_display_size sampleSettings PG_TYPE_NUMERIC (numericTypmod 1 1) PG_ADT_UNSET 0 =
      3 := by
  refine ⟨.inr ⟨true, 1, by decide, fun _ => by decide, rfl⟩, ?_, by decide⟩
  simp [NumericValue.text, numeral, digits, signText, digitChar]
  rfl

end OdbcDriver.Types
