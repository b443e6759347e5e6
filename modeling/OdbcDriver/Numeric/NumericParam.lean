import Mathlib.Tactic.LinearCombination
import OdbcDriver.Encoding.Ascii
import OdbcDriver.Lib.CString
import OdbcDriver.Lib.Decimal
import OdbcDriver.Lib.Except

/-!
# Numeric parameters

`ResolveNumericParam` divides the 16 bytes of an `SQL_NUMERIC_STRUCT` by ten again and again, and
writes the remainders out with a point among them. As many digits are written as the precision
allows, so the text denotes the value modulo a power of ten; a place that the number does not reach
holds a zero.
-/

namespace OdbcDriver.Numeric

open Decimal (limbs descending digitsValue Cells)
open Lib (ok_bind)

def SQL_MAX_NUMERIC_LEN : Nat := 16
def MAX_NUMERIC_DIGITS : Nat := 39

/-- `SQL_NUMERIC_STRUCT`. The first byte of `val` is the least significant; `sign` is 0 for a
negative number. -/
structure SQL_NUMERIC_STRUCT where
  precision : UInt8
  scale : Int8
  sign : UInt8
  val : List Byte
  val_length : val.length = SQL_MAX_NUMERIC_LEN
  deriving DecidableEq, Repr

/-! ### The conversion -/

/-- The loop that divides by ten, with `i` bytes left to divide and the remainder `r`. -/
def divideLoop (r : Nat) (lastnonzero : Int) :
    Nat → List Byte → Except CString.Fault (List Byte × Nat × Int)
  | 0, vals => .ok (vals, r, lastnonzero)
  | i + 1, vals => do
    let v := (← CString.read vals i).toNat + r * 256
    let d := v / 10
    let vals ← CString.write vals i (UInt8.ofNat d)
    divideLoop (v % 10) (if d ≠ 0 ∧ lastnonzero = -1 then i else lastnonzero) i vals

/-- The loop that finds the digits, of which `calv` holds those found. -/
def digitLoop (precision vlen : Nat) (vals calv : List Byte) :
    Except CString.Fault (List Byte) := do
  let (vals, r, lastnonzero) ← divideLoop 0 (-1) vlen vals
  if calv.length < MAX_NUMERIC_DIGITS then
    if 0 ≤ lastnonzero ∧ calv.length + 1 < precision then
      digitLoop precision (lastnonzero + 1).toNat vals (calv ++ [UInt8.ofNat r])
    else .ok (calv ++ [UInt8.ofNat r])
  else .error .beyond
termination_by MAX_NUMERIC_DIGITS - calv.length
decreasing_by simp; omega

/-- `(i >= len) ? '0' : calv[i] + '0'`. -/
def digitAt (calv : List Byte) (i : Int) : Except CString.Fault Byte :=
  if calv.length ≤ i then .ok 0x30
  else if 0 ≤ i then do return (← CString.read calv i.toNat) + 0x30
  else .error .beyond

/-- The digits from the place `i` down to `last`. -/
def digitsDown (calv : List Byte) (last i : Int) : Except CString.Fault (List Byte) :=
  if last ≤ i then do
    let c ← digitAt calv i
    return c :: (← digitsDown calv last (i - 1))
  else .ok []
termination_by (i + 1 - last).toNat

/-- `if (ns->scale > 0)`: the point, and the digits behind it. -/
def pointAndDigits (calv : List Byte) (scale : Int) : Except CString.Fault (List Byte) :=
  if 0 < scale then (0x2e :: ·) <$> digitsDown calv 0 (scale - 1) else .ok []

/-- `ResolveNumericParam`: the text, without its terminator. -/
def ResolveNumericParam (ns : SQL_NUMERIC_STRUCT) : Except CString.Fault (List Byte) :=
  if ns.precision = 0 then .ok [0x30]
  else do
    let precision := if MAX_NUMERIC_DIGITS < ns.precision.toNat then MAX_NUMERIC_DIGITS
      else ns.precision.toNat
    let calv ← digitLoop precision SQL_MAX_NUMERIC_LEN ns.val []
    let scale := ns.scale.toInt
    let i : Int := if (calv.length : Int) - 1 < scale then scale else calv.length - 1
    let whole ← digitsDown calv scale i
    -- the first loop has left `scale - 1` in `i`
    let frac ← pointAndDigits calv scale
    return (if ns.sign = 0 then [0x2d] else []) ++ whole ++ frac ++
      if calv.length = 0 then [0x30] else []

/-! ### Division -/

/-- What the division of `lo` leaves: the quotient `q` and the remainder `r'`. -/
structure Divided (lo : List Byte) (r : Nat) (q : List Byte) (r' : Nat) : Prop where
  length : q.length = lo.length
  value : limbs q * 10 + r' = limbs lo + 256 ^ lo.length * r
  lt : r' < 10

/-- Behind `last` the quotient is zero. -/
structure LastNonzero (q : List Byte) (last : Int) : Prop where
  ge : -1 ≤ last
  lt : last < q.length
  above : ∀ x ∈ q.drop (last + 1).toNat, x = 0

theorem LastNonzero.concat_zero {q : List Byte} {last : Int} (h : LastNonzero q last) :
    LastNonzero (q ++ [0]) last where
  ge := h.ge
  lt := by
    have := h.lt
    rw [List.length_append]
    push_cast
    omega
  above := by
    intro x hx
    rw [List.drop_append] at hx
    rcases List.mem_append.mp hx with hx | hx
    · exact h.above x hx
    · exact List.mem_singleton.mp (List.mem_of_mem_drop hx)

theorem LastNonzero.concat (q : List Byte) (x : Byte) : LastNonzero (q ++ [x]) q.length where
  ge := by omega
  lt := by simp
  above := by
    have hlen : ((q.length : Int) + 1).toNat = (q ++ [x]).length := by simp
    rw [hlen, List.drop_length]
    exact List.forall_mem_nil _

/-- The loop divides the bytes that are left, from the last one down. -/
theorem divideLoop_eq (lo z : List Byte) {r : Nat} (hr : r < 10) (last : Int) :
    ∃ q r' last', divideLoop r last lo.length (lo ++ z) = .ok (q ++ z, r', last') ∧
      Divided lo r q r' ∧ (last ≠ -1 → last' = last) ∧ (last = -1 → LastNonzero q last') := by
  induction lo using List.reverseRecOn generalizing z r last with
  | nil =>
    refine ⟨[], r, last, rfl, ⟨rfl, by simp, hr⟩, fun _ => rfl, ?_⟩
    rintro rfl
    exact ⟨le_rfl, by simp, by simp⟩
  | append_singleton lo x ih =>
    have hx := x.toNat_lt
    -- the quotient of one step fits in a byte
    have hd : (UInt8.ofNat ((x.toNat + r * 256) / 10)).toNat = (x.toNat + r * 256) / 10 :=
      UInt8.toNat_ofNat_of_lt' (by change _ < 256; omega)
    have hread : CString.read (lo ++ [x] ++ z) lo.length = .ok x :=
      CString.read_eq (z := z) (by simp) rfl
    have hwrite := CString.write_eq (m := lo ++ [x] ++ z) (f := lo) (x := x) (z := z) (by simp) rfl
      (UInt8.ofNat ((x.toNat + r * 256) / 10))
    obtain ⟨q, r', last', hrun, hdiv, hkeep, hnew⟩ :=
      ih (UInt8.ofNat ((x.toNat + r * 256) / 10) :: z)
        (Nat.mod_lt (x.toNat + r * 256) (by decide))
        (if (x.toNat + r * 256) / 10 ≠ 0 ∧ last = -1 then lo.length else last)
    refine ⟨q ++ [UInt8.ofNat ((x.toNat + r * 256) / 10)], r', last', ?_, ⟨?_, ?_, hdiv.lt⟩, ?_, ?_⟩
    · rw [List.length_append, List.length_singleton, divideLoop, hread, ok_bind]
      dsimp only
      rw [hwrite, ok_bind, hrun, List.append_assoc, List.singleton_append]
    · rw [List.length_append, List.length_append, hdiv.length]
      rfl
    · have hvalue := hdiv.value
      rw [Decimal.limbs_append, Decimal.limbs_append, hdiv.length, Decimal.limbs_cons,
        Decimal.limbs_cons, hd, List.length_append, pow_add]
      have hstep := congrArg (256 ^ lo.length * ·) (Nat.div_add_mod (x.toNat + r * 256) 10)
      simp only [Decimal.limbs_nil, List.length_singleton] at hstep ⊢
      linear_combination hvalue + hstep
    · intro hne
      rw [if_neg (fun h => hne h.2)] at hkeep
      exact hkeep hne
    · rintro rfl
      by_cases h0 : (x.toNat + r * 256) / 10 = 0
      · rw [if_neg (fun h => h.1 h0)] at hnew
        rw [h0]
        exact (hnew rfl).concat_zero
      · rw [if_pos ⟨h0, rfl⟩] at hkeep
        rw [hkeep (by omega), ← hdiv.length]
        exact .concat _ _

/-- One round: the last digit, and what is left of the number. -/
theorem digitLoop_round (precision : Nat) {vlen : Nat} {vals calv : List Byte}
    (hroom : calv.length < MAX_NUMERIC_DIGITS) (hvlen : vlen ≤ vals.length)
    (hzero : ∀ x ∈ vals.drop vlen, x = 0) :
    ∃ vals' last', LastNonzero vals' last' ∧ limbs vals' = limbs vals / 10 ∧
      digitLoop precision vlen vals calv =
        if 0 ≤ last' ∧ calv.length + 1 < precision then
          digitLoop precision (last' + 1).toNat vals' (calv ++ [UInt8.ofNat (limbs vals % 10)])
        else .ok (calv ++ [UInt8.ofNat (limbs vals % 10)]) := by
  obtain ⟨q, r, last', hrun, hdiv, -, hlast⟩ :=
    divideLoop_eq (vals.take vlen) (vals.drop vlen) (r := 0) (by decide) (-1)
  have hvals : limbs vals = limbs (vals.take vlen) := by
    conv_lhs => rw [← List.take_append_drop vlen vals, Decimal.limbs_append,
      Decimal.limbs_eq_zero.mpr hzero, Nat.mul_zero, Nat.add_zero]
  have hvalue : limbs q * 10 + r = limbs vals := by
    rw [hdiv.value, hvals, Nat.mul_zero, Nat.add_zero]
  have hr := hdiv.lt
  have hmod : limbs vals % 10 = r := by omega
  have hquot : limbs (q ++ vals.drop vlen) = limbs vals / 10 := by
    rw [Decimal.limbs_append, Decimal.limbs_eq_zero.mpr hzero]
    omega
  have hfar : LastNonzero (q ++ vals.drop vlen) last' := by
    have h := hlast rfl
    refine ⟨h.ge, ?_, ?_⟩
    · have := h.lt
      rw [List.length_append]
      push_cast
      omega
    · intro x hx
      rw [List.drop_append] at hx
      rcases List.mem_append.mp hx with hx | hx
      · exact h.above x hx
      · exact hzero x (List.mem_of_mem_drop hx)
  refine ⟨q ++ vals.drop vlen, last', hfar, hquot, ?_⟩
  rw [List.take_append_drop, List.length_take, Nat.min_eq_left hvlen] at hrun
  rw [digitLoop.eq_def, hrun, ok_bind, hmod]
  exact if_pos hroom

theorem digit_cell (n : Nat) : (UInt8.ofNat (n % 10)).toNat = n % 10 :=
  UInt8.toNat_ofNat_of_lt' ((Nat.mod_lt n (by decide)).trans (by decide))

/-- The digits that are found are those of the number, as many as the precision allows. -/
theorem digitLoop_eq {precision : Nat} (hprec : precision ≤ MAX_NUMERIC_DIGITS) (m : Nat)
    {vlen : Nat} {vals : List Byte} (calv : List Byte) (hlen : calv.length + (m + 1) = precision)
    (hvlen : vlen ≤ vals.length) (hzero : ∀ x ∈ vals.drop vlen, x = 0) :
    ∃ ds, digitLoop precision vlen vals calv = .ok (calv ++ ds) ∧ Cells ds ∧ ds ≠ [] ∧
      ds.length ≤ m + 1 ∧
      Nat.ofDigits 10 (ds.map UInt8.toNat) = limbs vals % 10 ^ (m + 1) := by
  induction m generalizing vlen vals calv with
  | zero =>
    obtain ⟨vals', last', -, -, hround⟩ := digitLoop_round precision
      (by omega : calv.length < MAX_NUMERIC_DIGITS) hvlen hzero
    refine ⟨[UInt8.ofNat (limbs vals % 10)], ?_, ?_, List.cons_ne_nil _ _, le_rfl, ?_⟩
    · rw [hround, if_neg (by omega)]
    · rintro x hx
      rw [List.mem_singleton.mp hx, digit_cell]
      exact Nat.mod_lt _ (by decide)
    · rw [List.map_singleton, Nat.ofDigits_singleton, digit_cell, Nat.zero_add, pow_one]
  | succ m ih =>
    obtain ⟨vals', last', hlast, hquot, hround⟩ := digitLoop_round precision
      (by omega : calv.length < MAX_NUMERIC_DIGITS) hvlen hzero
    have hcell : (UInt8.ofNat (limbs vals % 10)).toNat < 10 := by
      rw [digit_cell]
      exact Nat.mod_lt _ (by decide)
    by_cases hmore : 0 ≤ last'
    · obtain ⟨ds, hrun, hcells, -, hle, hvalue⟩ :=
        ih (calv ++ [UInt8.ofNat (limbs vals % 10)])
          (by rw [List.length_append, List.length_singleton]; omega)
          (by have := hlast.lt; omega) hlast.above
      refine ⟨UInt8.ofNat (limbs vals % 10) :: ds, ?_, ?_, List.cons_ne_nil _ _,
        Nat.succ_le_succ hle, ?_⟩
      · rw [hround, if_pos ⟨hmore, by omega⟩, hrun, List.append_assoc, List.singleton_append]
      · exact List.forall_mem_cons.mpr ⟨hcell, hcells⟩
      · rw [List.map_cons, Nat.ofDigits_cons, hvalue, digit_cell, hquot, pow_succ' 10 (m + 1),
          Nat.mod_mul]
    · -- nothing is left of the number
      have hnone : limbs vals / 10 = 0 := by
        rw [← hquot, Decimal.limbs_eq_zero]
        have hend : (last' + 1).toNat = 0 := by
          have := hlast.ge
          omega
        simpa only [hend, List.drop_zero] using hlast.above
      refine ⟨[UInt8.ofNat (limbs vals % 10)], ?_, ?_, List.cons_ne_nil _ _,
        by rw [List.length_singleton]; omega, ?_⟩
      · rw [hround, if_neg (fun h => hmore h.1)]
      · exact List.forall_mem_cons.mpr ⟨hcell, List.forall_mem_nil _⟩
      · have hsmall : limbs vals < 10 ^ (m + 2) := by
          have : 10 ^ 1 ≤ 10 ^ (m + 2) := Nat.pow_le_pow_right (by decide) (by omega)
          omega
        rw [List.map_singleton, Nat.ofDigits_singleton, digit_cell, Nat.mod_eq_of_lt hsmall]
        omega

/-! ### The text -/

theorem digitAt_eq {calv : List Byte} (n : Nat) :
    digitAt calv n = .ok (calv.getD n 0 + 0x30) := by
  rw [digitAt, List.getD_eq_getElem?_getD]
  by_cases h : calv.length ≤ n
  · rw [if_pos (by exact_mod_cast h), List.getElem?_eq_none h]
    rfl
  · have hlt : n < calv.length := Nat.lt_of_not_le h
    rw [if_neg (by exact_mod_cast h), if_pos (Int.natCast_nonneg n), Int.toNat_natCast,
      CString.read, List.getElem?_eq_getElem hlt]
    rfl

/-- The digits from one place down to another. -/
theorem digitsDown_eq (calv : List Byte) {k n : Nat} (h : k ≤ n) :
    digitsDown calv k (n - 1 : Int) = .ok ((descending calv n).take (n - k)) := by
  induction n with
  | zero =>
    rw [digitsDown, if_neg (by omega)]
    simp
  | succ n ih =>
    by_cases hk : k = n + 1
    · rw [digitsDown, if_neg (by omega), hk, Nat.sub_self, List.take_zero]
    · have hprev : ((n + 1 : Nat) - 1 : Int) = n := by omega
      rw [hprev, digitsDown, if_pos (by omega), digitAt_eq, ok_bind, ih (by omega), ok_bind,
        Nat.succ_sub (by omega), descending, List.take_succ_cons]
      rfl

/-- The text of the digits `ds`, of which `k` stand behind the point. -/
def digitsText {ds : List Byte} (hds : Cells ds) (neg : Bool) (k : Nat) : Decimal.Text where
  neg := neg
  int := (descending ds (max ds.length (k + 1))).take (max ds.length (k + 1) - k)
  frac := if 0 < k then some (descending ds k) else none
  int_digits c hc := Decimal.isDigit_descending hds _ c (List.mem_of_mem_take hc)
  frac_digits := by
    intro fs hfs
    split at hfs
    · obtain rfl := Option.mem_some_iff.mp hfs
      exact Decimal.isDigit_descending hds k
    · cases hfs
  some_digit := by
    refine List.append_ne_nil_of_left_ne_nil (List.ne_nil_of_length_pos ?_) _
    rw [List.length_take, Decimal.length_descending]
    omega

section Text

variable {ds : List Byte} (hds : Cells ds) (neg : Bool) (k : Nat)

theorem frac_digitsText : (digitsText hds neg k).frac.getD [] = descending ds k := by
  change (if 0 < k then some (descending ds k) else none).getD [] = _
  split
  · rfl
  · next h => rw [Nat.eq_zero_of_not_pos h]; rfl

theorem digits_digitsText :
    (digitsText hds neg k).digits = descending ds (max ds.length (k + 1)) := by
  rw [Decimal.Text.digits, frac_digitsText]
  exact Decimal.take_descending_append (by omega)

theorem scale_digitsText : (digitsText hds neg k).scale = k := by
  rw [Decimal.Text.scale, frac_digitsText, Decimal.length_descending]

theorem value_digitsText : (digitsText hds neg k).value =
    (if neg then -1 else 1) * (Nat.ofDigits 10 (ds.map UInt8.toNat) : Nat) / 10 ^ k := by
  rw [Decimal.Text.value, digits_digitsText, scale_digitsText, Decimal.digitsValue_descending hds,
    List.take_of_length_le (le_max_left _ _)]
  rfl

/-- A sign and a point stand beside the digits. -/
theorem length_digitsText_le :
    (digitsText hds neg k).bytes.length ≤ max ds.length (k + 1) + 2 := by
  have hdigits := congrArg List.length (digits_digitsText hds neg k)
  rw [Decimal.length_descending, Decimal.Text.digits, List.length_append] at hdigits
  have hunsigned : (digitsText hds neg k).unsigned.length ≤ max ds.length (k + 1) + 1 := by
    rw [Decimal.Text.unsigned, List.length_append]
    cases hfrac : (digitsText hds neg k).frac with
    | none =>
      rw [hfrac] at hdigits
      change _ + 0 ≤ _
      change _ + 0 = _ at hdigits
      omega
    | some fs =>
      rw [hfrac] at hdigits
      change _ + (fs.length + 1) ≤ _
      change _ + fs.length = _ at hdigits
      omega
  rw [Decimal.Text.bytes, List.length_append]
  have hsign : (if (digitsText hds neg k).neg then [(0x2d : Byte)] else []).length ≤ 1 := by
    split <;> simp
  omega

end Text

/-! ### What is written -/

/-- `0`. -/
def zeroText : Decimal.Text :=
  ⟨false, [0x30], none, Decimal.all_digits rfl, Decimal.all_frac_digits rfl, by decide⟩

theorem value_zeroText : zeroText.value = 0 := by
  simp [zeroText, Decimal.Text.value, Decimal.Text.digits, Decimal.Text.scale,
    Decimal.digitsValue, Decimal.digit]

/-- The text that is written denotes `n`, with the sign and the scale of the structure, and there is
room for it and its terminator in `param_string`. -/
def Writes (ns : SQL_NUMERIC_STRUCT) (n : Nat) : Prop :=
  ∃ t : Decimal.Text, ResolveNumericParam ns = .ok t.bytes ∧ t.bytes.length < 150 ∧
    t.value = (if ns.sign = 0 then -1 else 1) * n * (10 : ℚ) ^ (-ns.scale.toInt)

/-- The digits that the precision allows. -/
def digitCount (ns : SQL_NUMERIC_STRUCT) : Nat := min ns.precision.toNat MAX_NUMERIC_DIGITS

/-- The text that the digits `ds` are written as. -/
theorem resolve_digits {ns : SQL_NUMERIC_STRUCT} {ds : List Byte} {k : Nat} (hds : Cells ds)
    (hne : ds ≠ []) (hprec : ns.precision ≠ 0) (hscale : ns.scale.toInt = k)
    (hrun : digitLoop (digitCount ns) SQL_MAX_NUMERIC_LEN ns.val [] = .ok ds) :
    ResolveNumericParam ns = .ok (digitsText hds (decide (ns.sign = 0)) k).bytes := by
  have hpos : 0 < ds.length := List.length_pos_iff.mpr hne
  have hcount : (if MAX_NUMERIC_DIGITS < ns.precision.toNat then MAX_NUMERIC_DIGITS
      else ns.precision.toNat) = digitCount ns := by
    rw [digitCount]
    split <;> omega
  have hfirst : (if (ds.length : Int) - 1 < (k : Int) then (k : Int) else ds.length - 1) =
      ((max ds.length (k + 1) : Nat) - 1 : Int) := by
    split <;> omega
  have hfrac : pointAndDigits ds k = .ok (if 0 < k then 0x2e :: descending ds k else []) := by
    rw [pointAndDigits]
    by_cases hk : 0 < k
    · have hdown := digitsDown_eq ds (Nat.zero_le k)
      rw [Nat.sub_zero, List.take_of_length_le (by rw [Decimal.length_descending])] at hdown
      rw [if_pos (by exact_mod_cast hk), if_pos hk]
      exact congrArg ((0x2e :: ·) <$> ·) hdown
    · rw [if_neg (by exact_mod_cast hk), if_neg hk]
  rw [ResolveNumericParam, if_neg hprec, hcount]
  dsimp only
  have hbound : k ≤ max ds.length (k + 1) := by omega
  rw [hrun, ok_bind, hscale, hfirst, digitsDown_eq ds hbound, ok_bind, hfrac, ok_bind,
    if_neg hpos.ne', List.append_nil]
  refine congrArg Except.ok ?_
  rw [Decimal.Text.bytes, Decimal.Text.unsigned, ← List.append_assoc]
  have hsign : (if ns.sign = 0 then [(0x2d : Byte)] else []) =
      if (digitsText hds (decide (ns.sign = 0)) k).neg then [0x2d] else [] := by
    change _ = if decide (ns.sign = 0) = true then _ else _
    simp only [decide_eq_true_eq]
  rw [hsign]
  refine congrArg₂ (· ++ ·) rfl ?_
  have hfs : (digitsText hds (decide (ns.sign = 0)) k).frac =
      if 0 < k then some (descending ds k) else none := rfl
  rw [hfs]
  by_cases hk : 0 < k
  · rw [if_pos hk, if_pos hk]
  · rw [if_neg hk, if_neg hk]

/-- **Numeric parameters.** With a scale that is not negative, as many of the last digits of the value
are written as the precision allows. -/
theorem writes_last_digits {ns : SQL_NUMERIC_STRUCT} (hscale : 0 ≤ ns.scale.toInt) :
    Writes ns (limbs ns.val % 10 ^ digitCount ns) := by
  obtain ⟨k, hk⟩ := Int.eq_ofNat_of_zero_le hscale
  by_cases hprec : ns.precision = 0
  · refine ⟨zeroText, ?_, by decide, ?_⟩
    · rw [ResolveNumericParam, if_pos hprec]
      rfl
    · have hzero : digitCount ns = 0 := by
        rw [digitCount, hprec]
        rfl
      rw [hzero, pow_zero, Nat.mod_one, value_zeroText]
      simp
  · have hpos : 0 < ns.precision.toNat := by
      have h0 : ns.precision.toNat ≠ 0 := fun h => hprec (UInt8.toNat_inj.mp h)
      omega
    have hle : digitCount ns ≤ MAX_NUMERIC_DIGITS := Nat.min_le_right _ _
    obtain ⟨m, hm⟩ : ∃ m, digitCount ns = m + 1 := ⟨digitCount ns - 1, by
      have : 0 < digitCount ns := Nat.lt_min.mpr ⟨hpos, by decide⟩
      omega⟩
    obtain ⟨ds, hrun, hds, hne, hlen, hvalue⟩ := digitLoop_eq hle m [] (by rw [hm]; simp)
      ns.val_length.ge (by simp [← ns.val_length])
    rw [List.nil_append] at hrun
    refine ⟨digitsText hds (decide (ns.sign = 0)) k, resolve_digits hds hne hprec hk hrun, ?_, ?_⟩
    · have hbytes := length_digitsText_le hds (decide (ns.sign = 0)) k
      have hmax : k ≤ 127 := by
        have := ns.scale.toInt_lt
        omega
      rw [MAX_NUMERIC_DIGITS] at hle
      omega
    · rw [value_digitsText, hvalue, hm, hk, zpow_neg, div_eq_mul_inv]
      simp [zpow_natCast]

/-- Precision 3 and scale 5 leave the last three digits of 12345. -/
theorem last_three_digits : Writes
    ⟨3, 5, 1, [0x39, 0x30, 0, 0, 0, 0, 0, 0, 0, 0, 0, 0, 0, 0, 0, 0], rfl⟩ 345 :=
  writes_last_digits (by decide)

/-- With precision 0 the value 1 is written as `0`. -/
theorem one_written_as_zero :
    ¬ Writes ⟨0, 0, 1, [1, 0, 0, 0, 0, 0, 0, 0, 0, 0, 0, 0, 0, 0, 0, 0], rfl⟩
      (limbs [1, 0, 0, 0, 0, 0, 0, 0, 0, 0, 0, 0, 0, 0, 0, 0]) := by
  rintro ⟨t, hrun, -, hvalue⟩
  have ht : t = zeroText := Decimal.Text.bytes_injective (Except.ok.inj hrun).symm
  have hone : limbs [1, 0, 0, 0, 0, 0, 0, 0, 0, 0, 0, 0, 0, 0, 0, 0] = 1 := by decide
  have hscale : (-(0 : Int8).toInt) = 0 := by decide
  have hsign : (1 : UInt8) ≠ 0 := by decide
  rw [ht, value_zeroText, hone, hscale, if_neg hsign] at hvalue
  norm_num at hvalue

end OdbcDriver.Numeric
