import OdbcDriver.DateTime.IntervalRules

/-!
# Which intervals come back

An interval has the fields of its type, and a fraction in units that the precision gives. For each
form of its text, and each type, the intervals that `interval2istruct` recovers are found out.
-/

namespace OdbcDriver.Intervals

open Scanf (digits signText signed isspace)
open Decimal (IsDigit)

/-! ### Intervals and forms -/

/-- The number of digits that the fraction of an interval has. -/
def fractionPrecision (precision : Int) : Nat := if precision < 0 then 6 else precision.toNat

/-- The fields that the type does not have are zero, and the fraction is less than a second. -/
def IsInterval (precision : Int) (iv : SQL_INTERVAL_STRUCT) : Prop :=
  match iv.interval_type, iv.intval with
  | .SQL_IS_YEAR, .year_month _ month => month = 0
  | .SQL_IS_MONTH, .year_month year _ => year = 0
  | .SQL_IS_YEAR_TO_MONTH, .year_month _ _ => True
  | .SQL_IS_DAY, .day_second _ hour minute second fraction =>
    hour = 0 ∧ minute = 0 ∧ second = 0 ∧ fraction = 0
  | .SQL_IS_HOUR, .day_second day _ minute second fraction =>
    day = 0 ∧ minute = 0 ∧ second = 0 ∧ fraction = 0
  | .SQL_IS_MINUTE, .day_second day hour _ second fraction =>
    day = 0 ∧ hour = 0 ∧ second = 0 ∧ fraction = 0
  | .SQL_IS_SECOND, .day_second day hour minute _ fraction =>
    day = 0 ∧ hour = 0 ∧ minute = 0 ∧ fraction.toNat < 10 ^ fractionPrecision precision
  | .SQL_IS_DAY_TO_HOUR, .day_second _ _ minute second fraction =>
    minute = 0 ∧ second = 0 ∧ fraction = 0
  | .SQL_IS_DAY_TO_MINUTE, .day_second _ _ _ second fraction => second = 0 ∧ fraction = 0
  | .SQL_IS_DAY_TO_SECOND, .day_second _ _ _ _ fraction =>
    fraction.toNat < 10 ^ fractionPrecision precision
  | .SQL_IS_HOUR_TO_MINUTE, .day_second day _ _ second fraction =>
    day = 0 ∧ second = 0 ∧ fraction = 0
  | .SQL_IS_HOUR_TO_SECOND, .day_second day _ _ _ fraction =>
    day = 0 ∧ fraction.toNat < 10 ^ fractionPrecision precision
  | .SQL_IS_MINUTE_TO_SECOND, .day_second day hour _ _ fraction =>
    day = 0 ∧ hour = 0 ∧ fraction.toNat < 10 ^ fractionPrecision precision
  | _, _ => False

/-- The server keeps six digits of a fraction. -/
def ServerDigits (precision : Int) (iv : SQL_INTERVAL_STRUCT) : Prop :=
  match iv.intval with
  | .year_month _ _ => True
  | .day_second _ _ _ _ fraction =>
    (fractionDigits (fractionPrecision precision) fraction.toNat).length ≤ 6

/-- Where a text comes from. -/
inductive Form
  /-- From `ResolveOneParam`, with the precision of the parameter. -/
  | resolved (prec : Int)
  /-- From the server, in the style `postgres`. -/
  | postgres
  /-- From the server, in the style `sql_standard`. -/
  | sqlStandard

/-- The intervals of which there is such a text. -/
def Form.Holds (form : Form) (precision : Int) (iv : SQL_INTERVAL_STRUCT) : Prop :=
  match form with
  | .resolved _ => True
  | .postgres => ServerDigits precision iv
  | .sqlStandard => ServerDigits precision iv

/-- The text of an interval. -/
def Form.text (form : Form) (precision : Int) (iv : SQL_INTERVAL_STRUCT) : List Byte :=
  match form with
  | .resolved prec => resolvedText prec iv
  | .postgres => (toServer (fractionPrecision precision) iv).postgres
  | .sqlStandard => (toServer (fractionPrecision precision) iv).sqlStandard

/-- The interval comes back from its text, with its fields and its sign. -/
def Recovers (form : Form) (precision : Int) (iv : SQL_INTERVAL_STRUCT) : Prop :=
  interval2istruct iv.interval_type precision (form.text precision iv) = .ok (some iv)

/-- A number that an `int` holds with either sign, and that shows a sign. -/
def Leads (sign : Bool) (n : UInt32) : Prop := n.toNat < 2 ^ 31 ∧ (sign = true → n ≠ 0)

/-- The clock shows the minutes and the seconds as they are. -/
def OnClock (minute second : UInt32) : Prop := minute.toNat < 60 ∧ second.toNat < 60

/-- The fraction is written with four digits or more, and `fraction` has room for the precision. -/
def LongFraction (precision : Int) (fraction : UInt32) : Prop :=
  3 < (fractionDigits (fractionPrecision precision) fraction.toNat).length ∧ precision < 10

/-- The intervals that come back. -/
def Form.Good (form : Form) (precision : Int) (iv : SQL_INTERVAL_STRUCT) : Prop :=
  let sign := iv.interval_sign
  match form, iv.interval_type, iv.intval with
  | .resolved _, .SQL_IS_YEAR, .year_month year _ => Leads sign year
  | .resolved _, _, .year_month year month => Leads sign year ∧ month.toNat < 2 ^ 31
  | .resolved _, .SQL_IS_DAY, .day_second day _ _ _ _ => Leads sign day
  | .resolved _, _, .day_second _ _ _ _ _ => False
  | .postgres, .SQL_IS_YEAR, .year_month year _ => year ≠ 0 ∧ year.toNat < 2 ^ 31
  | .postgres, .SQL_IS_MONTH, .year_month _ month => month ≠ 0 ∧ month.toNat < 12
  | .postgres, _, .year_month year month =>
    (year ≠ 0 ∧ year.toNat < 2 ^ 31) ∧ month ≠ 0 ∧ month.toNat < 12
  | .postgres, .SQL_IS_DAY, .day_second day _ _ _ _ => day ≠ 0 ∧ day.toNat < 2 ^ 31
  | .postgres, _, .day_second day hour minute second fraction =>
    sign = false ∧ day = 0 ∧ hour.toNat < 100 ∧ OnClock minute second ∧
      LongFraction precision fraction
  | .sqlStandard, .SQL_IS_YEAR_TO_MONTH, .year_month year month =>
    (year ≠ 0 ∨ month ≠ 0) ∧ Leads sign year ∧ month.toNat < 12
  | .sqlStandard, _, .year_month _ _ => False
  | .sqlStandard, _, .day_second day hour minute second fraction =>
    OnClock minute second ∧
      if day = 0 then LongFraction precision fraction ∧
        if sign then 0 < hour.toNat ∧ hour.toNat < 10 else hour.toNat < 100
      else day.toNat < 2 ^ 31 ∧ hour.toNat < 100 ∧ (fraction ≠ 0 → precision < 10)

/-! ### The leading number -/

variable {itype : SQLINTERVAL} {precision : Int} {sign : Bool} {k a b : Nat} {w t : List Byte}

theorem signed_neg (sign : Bool) (a : Nat) :
    decide (signed sign a < 0) = (sign && decide (a ≠ 0)) := by
  cases sign with
  | false => simp [signed]
  | true =>
    have hiff : signed true a < 0 ↔ a ≠ 0 := by
      change -(a : Int) < 0 ↔ a ≠ 0
      omega
    rw [Bool.true_and, decide_eq_decide]
    exact hiff

theorem fits_signed (sign : Bool) (h : a < 2 ^ 31) : CInt.Fits 32 (signed sign a) := by
  rw [signed]
  constructor
  · split <;> omega
  · split <;> omega

theorem unsign_signed (h : a < 2 ^ 31) :
    unsign (decide (signed sign a < 0)) (signed sign a) = .ok (UInt32.ofNat a) := by
  have hvalue : (if decide (signed sign a < 0) = true then -signed sign a else signed sign a) =
      (a : Int) := by
    rw [signed]
    split <;> split <;> simp_all
    omega
  have hfits : CInt.Fits 32 (a : Int) := fits_signed false h
  rw [unsign, hvalue, if_pos hfits, toUnsigned_natCast]

/-- What becomes of the number that leads: where it is too large, nothing. -/
theorem leading {α : Type} (sign : Bool) (a : Nat) (f : UInt32 → Except Undefined α) :
    (if CInt.Fits 32 (signed sign a) then
      unsign (decide (signed sign a < 0)) (signed sign a) >>= f else .error .overflow) =
        if a < 2 ^ 31 then f (UInt32.ofNat a) else .error .overflow := by
  by_cases h : a < 2 ^ 31
  · rw [if_pos (fits_signed sign h), unsign_signed h, if_pos h]
    rfl
  · rw [if_neg h]
    split
    · next hfits =>
      -- Only the least `int` is left, which has no opposite.
      have hmin : signed sign a = -2 ^ 31 := by
        have h1 := hfits.1
        have h2 := hfits.2
        rw [signed] at h1 h2 ⊢
        split at h1 <;> simp_all <;> omega
      rw [hmin]
      rfl
    · rfl

theorem leading_iff {α : Type} {f : UInt32 → Except Undefined α} {v : α} :
    (if CInt.Fits 32 (signed sign a) then
      unsign (decide (signed sign a < 0)) (signed sign a) >>= f else .error .overflow) = .ok v ↔
        a < 2 ^ 31 ∧ f (UInt32.ofNat a) = .ok v := by
  rw [leading]
  split
  · next ha => exact (and_iff_right ha).symm
  · next ha => exact iff_of_false nofun fun h => ha h.1

theorem leading_fits_iff {α : Type} {f : UInt32 → Except Undefined α} {v : α}
    (hfits : CInt.Fits 32 (signed sign a)) :
    unsign (decide (signed sign a < 0)) (signed sign a) >>= f = .ok v ↔
      a < 2 ^ 31 ∧ f (UInt32.ofNat a) = .ok v := by
  rw [← leading_iff, if_pos hfits]

theorem some_iff {iv iv' : SQL_INTERVAL_STRUCT} :
    (Except.ok (some iv') : Except Undefined (Option SQL_INTERVAL_STRUCT)) = .ok (some iv) ↔
      iv = iv' := by
  constructor
  · intro h
    exact (Option.some.inj (Except.ok.inj h)).symm
  · rintro rfl
    rfl

/-! ### Units -/

/-- A number and a word. -/
theorem unit_eq (hw : IsWord w) :
    interval2istruct itype precision (num sign 1 a ++ 0x20 :: w) =
      if CInt.Fits 32 (signed sign a) then readUnit itype (signed sign a) w
      else .error .overflow := by
  split
  · next hfits =>
    obtain ⟨c, w', rfl, hc⟩ := hw.head
    exact (interval2istruct_words (by decide) hfits one_space hc).trans
      (readWords_unit (by decide) hfits one_space hw)
  · next hfits =>
    refine interval2istruct_overflow (by decide) hfits ?_
    rintro _ ⟨⟩
    decide

/-- What is made of a word that is the unit of the type `itype₀`. -/
def IsUnit (itype₀ : SQLINTERVAL) (make : UInt32 → Intval) (w : List Byte) : Prop :=
  IsWord w ∧ ∀ itype n, readUnit itype n w =
    if itype = itype₀ then
      unsign (decide (n < 0)) n >>= fun x => .ok (some ⟨itype₀, decide (n < 0), make x⟩)
    else .ok none

theorem unit_iff {itype₀ : SQLINTERVAL} {make : UInt32 → Intval} (hw : IsUnit itype₀ make w)
    (iv : SQL_INTERVAL_STRUCT) :
    interval2istruct itype precision (num sign 1 a ++ 0x20 :: w) = .ok (some iv) ↔
      itype = itype₀ ∧ a < 2 ^ 31 ∧ iv = ⟨itype₀, sign && decide (a ≠ 0), make (UInt32.ofNat a)⟩ := by
  rw [unit_eq hw.1, hw.2]
  by_cases hitype : itype = itype₀
  · rw [if_pos hitype, leading_iff, some_iff, signed_neg]
    exact (and_iff_right hitype).symm
  · rw [if_neg hitype]
    refine iff_of_false ?_ fun h => hitype h.1
    split <;> nofun

theorem isWord_ascii {w : List Byte} (h : w.all (fun c => !isspace c) = true) (hlen : w.length ≤ 10)
    (hhead : ∃ c w', w = c :: w' ∧ Plain c) : IsWord w := by
  refine ⟨fun c hc => ?_, hlen, hhead⟩
  have hall := List.all_eq_true.mp h c hc
  rwa [Bool.not_eq_true'] at hall

theorem isUnit_year {plural : List Byte} (h : plural = [] ∨ plural = [0x73]) :
    IsUnit .SQL_IS_YEAR (.year_month · 0) (ascii "year" ++ plural) := by
  rcases h with rfl | rfl
  · refine ⟨isWord_ascii rfl (by decide) ⟨_, _, rfl, rfl, by decide, by decide⟩, fun itype n => ?_⟩
    cases itype <;> rfl
  · refine ⟨isWord_ascii rfl (by decide) ⟨_, _, rfl, rfl, by decide, by decide⟩, fun itype n => ?_⟩
    cases itype <;> rfl

theorem isUnit_mon {plural : List Byte} (h : plural = [] ∨ plural = [0x73]) :
    IsUnit .SQL_IS_MONTH (.year_month 0 ·) (ascii "mon" ++ plural) := by
  rcases h with rfl | rfl
  · refine ⟨isWord_ascii rfl (by decide) ⟨_, _, rfl, rfl, by decide, by decide⟩, fun itype n => ?_⟩
    cases itype <;> rfl
  · refine ⟨isWord_ascii rfl (by decide) ⟨_, _, rfl, rfl, by decide, by decide⟩, fun itype n => ?_⟩
    cases itype <;> rfl

theorem isUnit_day {plural : List Byte} (h : plural = [] ∨ plural = [0x73]) :
    IsUnit .SQL_IS_DAY (.day_second · 0 0 0 0) (ascii "day" ++ plural) := by
  rcases h with rfl | rfl
  · refine ⟨isWord_ascii rfl (by decide) ⟨_, _, rfl, rfl, by decide, by decide⟩, fun itype n => ?_⟩
    cases itype <;> rfl
  · refine ⟨isWord_ascii rfl (by decide) ⟨_, _, rfl, rfl, by decide, by decide⟩, fun itype n => ?_⟩
    cases itype <;> rfl

theorem two_units_eq {pad : List Byte} {c : Byte} (hw : IsWord w) (hk : 0 < k)
    (hpad : ∀ c ∈ pad, isspace c = true) (hc : Plain c) :
    interval2istruct itype precision
        (num sign 1 a ++ 0x20 :: (w ++ 0x20 :: (num sign k b ++ (pad ++ c :: t)))) =
      if CInt.Fits 32 (signed sign a) then
        if CInt.Fits 32 (signed sign b) then
          readTwoUnits itype (signed sign a) (signed sign b) w (Scanf.word 10 (c :: t))
        else .error .overflow
      else .error .overflow := by
  split
  · next hfits =>
    obtain ⟨d, w', rfl, hd⟩ := hw.head
    exact (interval2istruct_words (by decide) hfits one_space hd).trans
      (readWords_two (by decide) hk hfits hw hpad hc)
  · next hfits =>
    refine interval2istruct_overflow (by decide) hfits ?_
    rintro _ ⟨⟩
    decide

theorem unsign_same (sign : Bool) (b : Nat) :
    unsign sign (signed sign b) =
      if b < 2 ^ 31 then .ok (UInt32.ofNat b) else .error .overflow := by
  have hvalue : (if sign = true then -signed sign b else signed sign b) = (b : Int) := by
    cases sign with
    | false => rfl
    | true => exact Int.neg_neg _
  rw [unsign, hvalue, toUnsigned_natCast]
  split
  · next hfits => rw [if_pos (by have := hfits.2; omega)]
  · next hfits =>
    rw [if_neg]
    exact fun hb => hfits (fits_signed false hb)

/-- Years and months. Where the sign does not show in the years, it is not found. -/
theorem years_mons_iff {plural plural' : List Byte} (hp : plural = [] ∨ plural = [0x73])
    (hp' : plural' = [] ∨ plural' = [0x73]) {iv : SQL_INTERVAL_STRUCT}
    (hsign : iv.interval_sign = sign) :
    interval2istruct itype precision (num sign 1 a ++ 0x20 :: ((ascii "year" ++ plural) ++
        0x20 :: (num sign 1 b ++ 0x20 :: (ascii "mon" ++ plural')))) = .ok (some iv) ↔
      (itype = .SQL_IS_MONTH ∨ itype = .SQL_IS_YEAR_TO_MONTH) ∧ (sign = true → a ≠ 0) ∧
        a < 2 ^ 31 ∧ b < 2 ^ 31 ∧
        iv = ⟨itype, sign, .year_month (UInt32.ofNat a) (UInt32.ofNat b)⟩ := by
  obtain ⟨t, ht⟩ : ∃ t, ascii "mon" ++ plural' = 0x6d :: t := ⟨_, rfl⟩
  have hword : Scanf.word 10 (0x6d :: t) = 0x6d :: t := by
    rw [← ht]
    rcases hp' with rfl | rfl <;> rfl
  have hread : ∀ y m : Int, readTwoUnits itype y m (ascii "year" ++ plural) (0x6d :: t) =
      if itype = .SQL_IS_MONTH ∨ itype = .SQL_IS_YEAR_TO_MONTH then
        unsign (decide (y < 0)) y >>= fun year => unsign (decide (y < 0)) m >>= fun month =>
          .ok (some ⟨itype, decide (y < 0), .year_month year month⟩)
      else .ok none := by
    intro y m
    rw [← ht]
    rcases hp with rfl | rfl <;> rcases hp' with rfl | rfl <;> cases itype <;> rfl
  have htext : interval2istruct itype precision (num sign 1 a ++ 0x20 :: ((ascii "year" ++ plural) ++
      0x20 :: (num sign 1 b ++ ([0x20] ++ 0x6d :: t)))) = _ :=
    two_units_eq (isUnit_year hp).1 Nat.zero_lt_one one_space ⟨by decide, by decide, by decide⟩
  rw [hword, hread] at htext
  rw [ht]
  refine (Eq.congr_left htext).trans ?_
  by_cases htypes : itype = .SQL_IS_MONTH ∨ itype = .SQL_IS_YEAR_TO_MONTH
  · rw [if_pos htypes, and_iff_right htypes]
    by_cases hfits : CInt.Fits 32 (signed sign b)
    · rw [if_pos hfits, leading_iff, signed_neg]
      by_cases hzero : sign = true ∧ a = 0
      · -- No sign is found in front of the zero.
        obtain ⟨rfl, rfl⟩ := hzero
        refine iff_of_false ?_ fun h => h.1 rfl rfl
        rintro ⟨-, h⟩
        cases hmonth : unsign false (signed true b) with
        | error e =>
          change (unsign false (signed true b) >>= _) = _ at h
          rw [hmonth] at h
          cases h
        | ok month =>
          change (unsign false (signed true b) >>= _) = _ at h
          rw [hmonth] at h
          rw [← Option.some.inj (Except.ok.inj h)] at hsign
          cases hsign
      · have hshown : sign = true → a ≠ 0 := fun hs ha => hzero ⟨hs, ha⟩
        have hand : (sign && decide (a ≠ 0)) = sign := by
          cases sign with
          | false => rfl
          | true => rw [Bool.true_and, decide_eq_true (hshown rfl)]
        rw [hand, unsign_same, and_iff_right hshown]
        refine and_congr_right fun _ => ?_
        split
        · next hb => exact some_iff.trans (and_iff_right hb).symm
        · next hb => exact iff_of_false nofun fun h => hb h.1
    · rw [if_neg hfits]
      refine iff_of_false ?_ fun h => hfits (fits_signed sign h.2.2.1)
      split <;> nofun
  · rw [if_neg htypes]
    refine iff_of_false ?_ fun h => htypes h.1
    split
    · split <;> nofun
    · nofun

/-- Days, and a time: the words are not those of years and months. -/
theorem days_never {plural pad : List Byte} {c : Byte} (hp : plural = [] ∨ plural = [0x73])
    (hk : 0 < k) (hpad : ∀ c ∈ pad, isspace c = true) (hc : Plain c) (iv : SQL_INTERVAL_STRUCT) :
    interval2istruct itype precision (num sign 1 a ++ 0x20 :: ((ascii "day" ++ plural) ++
        0x20 :: (num sign k b ++ (pad ++ c :: t)))) ≠ .ok (some iv) := by
  have hread : ∀ y m : Int, readTwoUnits itype y m (ascii "day" ++ plural)
      (Scanf.word 10 (c :: t)) = .ok none := fun y m => readTwoUnits_other (by decide) y m
  rw [two_units_eq (isUnit_day hp).1 hk hpad hc, hread]
  split
  · split <;> nofun
  · nofun

/-! ### Fractions -/

variable {p f h mi se : Nat}

theorem digits_eq_append (p f : Nat) :
    ∃ k, digits p f = fractionDigits p f ++ List.replicate k 0x30 := by
  have happend := List.rdropWhile_append_rtakeWhile (p := fun c => decide (c = (0x30 : Byte)))
    (l := digits p f)
  refine ⟨_, happend.symm.trans (congrArg (fractionDigits p f ++ ·) (List.eq_replicate_of_mem ?_))⟩
  intro c hc
  have hzero : decide (c = 0x30) = true :=
    List.mem_rtakeWhile_imp (p := fun c => decide (c = (0x30 : Byte))) hc
  exact of_decide_eq_true hzero

theorem fractionDigits_isDigit (p f : Nat) : ∀ c ∈ fractionDigits p f, IsDigit c := by
  obtain ⟨k, hk⟩ := digits_eq_append p f
  exact fun c hc => Scanf.digits_isDigit p f c (by rw [hk]; exact List.mem_append_left _ hc)

theorem length_fractionDigits (hf : f < 10 ^ p) : (fractionDigits p f).length ≤ p := by
  obtain ⟨k, hk⟩ := digits_eq_append p f
  have hlen := congrArg List.length hk
  rw [Scanf.length_digits_of_lt hf, List.length_append] at hlen
  omega

theorem fractionDigits_eq_nil (hf : f < 10 ^ p) : fractionDigits p f = [] ↔ f = 0 := by
  obtain ⟨k, hk⟩ := digits_eq_append p f
  constructor
  · intro hnil
    have hvalue := congrArg Decimal.digitsValue hk
    rw [hnil, Scanf.digitsValue_digits, List.nil_append, ← List.append_nil (List.replicate k _),
      Scanf.digitsValue_zeros] at hvalue
    exact hvalue
  · rintro rfl
    rw [fractionDigits, List.rdropWhile_eq_nil_iff]
    intro c hc
    have hzeros : digits p 0 = List.replicate p 0x30 := by simp [digits]
    rw [hzeros] at hc
    exact decide_eq_true (List.eq_of_mem_replicate hc)

/-- The fraction comes back where `fraction` has room for the precision. -/
theorem fractionPart_eq (hf : f < 10 ^ fractionPrecision precision) :
    fractionPart (decide (fractionDigits (fractionPrecision precision) f ≠ [])) precision
        (fractionDigits (fractionPrecision precision) f) =
      if f = 0 ∨ precision < 10 then .ok (UInt32.ofNat f) else .error .index := by
  by_cases h0 : f = 0
  · have hnil := (fractionDigits_eq_nil hf).mpr h0
    rw [hnil, if_pos (.inl h0), h0]
    rfl
  · have hne : fractionDigits (fractionPrecision precision) f ≠ [] := fun h =>
      h0 ((fractionDigits_eq_nil hf).mp h)
    have hprec : (if precision < 0 then 6 else precision) = (fractionPrecision precision : Int) := by
      rw [fractionPrecision]
      split
      · rfl
      · omega
    have hten : precision < 10 ↔ fractionPrecision precision < 10 := by
      rw [fractionPrecision]
      split <;> omega
    generalize fractionPrecision precision = p at hf hne hprec hten
    obtain ⟨k, hk⟩ := digits_eq_append p f
    have hlen := length_fractionDigits hf
    have hpos : 0 < p := (List.length_pos_iff.mpr hne).trans_le hlen
    rw [decide_eq_true hne, fractionPart, if_pos rfl, getPrecisionPart, hprec]
    simp only [Nat.cast_eq_zero, hpos.ne', if_false, h0, false_or, Int.toNat_natCast]
    by_cases h10 : precision < 10
    · have hp : p < 10 := hten.mp h10
      have hpow : (10 : Nat) ^ p ≤ 10 ^ 9 := Nat.pow_le_pow_right (by decide) (by omega)
      have hsum : (fractionDigits p f).length + k = p := by
        have hsum := congrArg List.length hk
        rw [Scanf.length_digits_of_lt hf, List.length_append, List.length_replicate] at hsum
        exact hsum.symm
      have htake : ((fractionDigits p f).take 9 ++
          List.replicate (9 - (fractionDigits p f).length) 0x30).take p = digits p f := by
        have hnine : (fractionDigits p f).take 9 = fractionDigits p f :=
          List.take_of_length_le (by omega)
        rw [hnine, List.take_append, List.take_of_length_le hlen, List.take_replicate]
        refine Eq.trans ?_ hk.symm
        exact congrArg (fractionDigits p f ++ List.replicate · 0x30) (by omega)
      have hatoi : Scanf.atoi (digits p f ++ []) = some (f : Int) := by
        have hvalue := Scanf.digitsValue_digits p f
        have h := Scanf.atoi_digits (t := []) (Scanf.digits_isDigit p f)
          (Scanf.digits_ne_nil hpos f) (by rw [hvalue]; omega) nofun
        rwa [hvalue] at h
      rw [List.append_nil] at hatoi
      rw [if_pos (by exact_mod_cast hp), if_pos h10, htake, hatoi]
      exact congrArg Except.ok (toUnsigned_natCast f)
    · rw [if_neg (by exact_mod_cast fun hp => h10 (hten.mpr hp)), if_neg h10]
      rfl

/-! ### Times -/

theorem hours_of_short (hshort : (num sign k h).length ≤ 2) : h < 100 := by
  by_contra hlong
  have hlt : 2 < (digits k h).length := Scanf.lt_length_digits (j := 2) (Nat.le_of_not_lt hlong)
  rw [num, List.length_append] at hshort
  omega

/-- A time alone. -/
theorem time_iff {iv : SQL_INTERVAL_STRUCT} (hitype : ¬ (itype = .SQL_IS_YEAR ∨
      itype = .SQL_IS_MONTH ∨ itype = .SQL_IS_YEAR_TO_MONTH)) (hk : 0 < k) (hmi : mi < 60)
    (hse : se < 60) (hf : f < 10 ^ fractionPrecision precision)
    (hsix : (fractionDigits (fractionPrecision precision) f).length ≤ 6) :
    interval2istruct itype precision (num sign k h ++
        clock mi se (point (fractionDigits (fractionPrecision precision) f))) = .ok (some iv) ↔
      3 < (fractionDigits (fractionPrecision precision) f).length ∧ precision < 10 ∧
        (num sign k h).length ≤ 2 ∧ iv = ⟨itype, sign && decide (h ≠ 0),
          .day_second 0 (UInt32.ofNat h) (UInt32.ofNat mi) (UInt32.ofNat se) (UInt32.ofNat f)⟩ := by
  have hds := fractionDigits_isDigit (fractionPrecision precision) f
  have hnil := fractionDigits_eq_nil hf
  have hfraction := fractionPart_eq hf
  generalize fractionDigits (fractionPrecision precision) f = ds at hsix hds hnil hfraction
  have hcolon : Plain 0x3a := ⟨by decide, by decide, by decide⟩
  by_cases hfits : CInt.Fits 32 (signed sign h)
  · have hwords : interval2istruct itype precision (num sign k h ++ clock mi se (point ds)) =
        readWords itype precision (num sign k h ++ clock mi se (point ds)) :=
      interval2istruct_words hk hfits (List.forall_mem_nil _) hcolon
    rw [hwords]
    by_cases hlong : 3 < ds.length
    · rw [and_iff_right hlong, readWords_long hk hfits hmi hse hds hlong (by omega) hitype]
      by_cases hshort : (num sign k h).length ≤ 2
      · have hh := hours_of_short hshort
        have hf0 : f ≠ 0 := fun h0 => by
          rw [hnil.mpr h0] at hlong
          exact absurd hlong (by decide)
        rw [readClock_eq hk hshort hmi hse hds (by omega), unsign_signed (by omega), Lib.ok_bind,
          hfraction, and_iff_right hshort, signed_neg]
        by_cases h10 : precision < 10
        · rw [if_pos (.inr h10), and_iff_right h10]
          exact some_iff
        · rw [if_neg fun h => h.elim hf0 h10]
          exact iff_of_false nofun fun h => h10 h.1
      · rw [readClock_long (Nat.lt_of_not_le hshort)]
        exact iff_of_false nofun fun h => hshort h.2.1
    · rw [readWords_short hk hfits hmi hse hds (Nat.le_of_not_lt hlong)]
      exact iff_of_false nofun fun h => hlong h.1
  · refine iff_of_false ?_ fun h => hfits (fits_signed sign ?_)
    · have hoverflow : interval2istruct itype precision (num sign k h ++ clock mi se (point ds)) =
          .error .overflow := by
        refine interval2istruct_overflow hk hfits ?_
        rintro _ ⟨⟩
        decide
      rw [hoverflow]
      nofun
    · have hh := hours_of_short h.2.2.1
      omega

/-- Days and a time in the style `sql_standard`. -/
theorem days_iff {iv : SQL_INTERVAL_STRUCT} {d : Nat} (hmi : mi < 60) (hse : se < 60)
    (hf : f < 10 ^ fractionPrecision precision)
    (hsix : (fractionDigits (fractionPrecision precision) f).length ≤ 6) :
    interval2istruct itype precision (num sign 1 d ++ 0x20 :: (num false 1 h ++
        clock mi se (point (fractionDigits (fractionPrecision precision) f)))) = .ok (some iv) ↔
      d < 2 ^ 31 ∧ h < 100 ∧ (f = 0 ∨ precision < 10) ∧ iv = ⟨itype, sign && decide (d ≠ 0),
        .day_second (UInt32.ofNat d) (UInt32.ofNat h) (UInt32.ofNat mi) (UInt32.ofNat se)
          (UInt32.ofNat f)⟩ := by
  have hds := fractionDigits_isDigit (fractionPrecision precision) f
  have hfraction := fractionPart_eq hf
  generalize fractionDigits (fractionPrecision precision) f = ds at hsix hds hfraction
  by_cases hfits : CInt.Fits 32 (signed sign d)
  · by_cases hh : h < 100
    · rw [interval2istruct_days Nat.zero_lt_one hfits hh hmi hse hds (by omega)]
      refine (leading_fits_iff hfits).trans (and_congr_right fun _ => ?_)
      rw [and_iff_right hh, hfraction, signed_neg]
      split
      · next h10 => exact some_iff.trans (and_iff_right h10).symm
      · next h10 => exact iff_of_false nofun fun h => h10 h.1
    · refine iff_of_false ?_ fun h => hh h.2.1
      exact interval2istruct_days_long Nat.zero_lt_one hfits (Nat.le_of_not_lt hh) _ iv
  · refine iff_of_false ?_ fun h => hfits (fits_signed sign h.1)
    rw [interval2istruct_overflow Nat.zero_lt_one hfits (by rintro _ ⟨⟩; decide)]
    nofun

/-- Years and months in the style `sql_standard`. -/
theorem dash_iff {iv : SQL_INTERVAL_STRUCT} :
    interval2istruct itype precision (num sign 1 a ++ 0x2d :: num false 1 b) = .ok (some iv) ↔
      itype = .SQL_IS_YEAR_TO_MONTH ∧ a < 2 ^ 31 ∧ b < 2 ^ 31 ∧
        iv = ⟨itype, sign && decide (a ≠ 0), .year_month (UInt32.ofNat a) (UInt32.ofNat b)⟩ := by
  have hfits_iff : CInt.Fits 32 (b : Int) ↔ b < 2 ^ 31 :=
    ⟨fun h => by have := h.2; omega, fun h => fits_signed false h⟩
  by_cases hfits : CInt.Fits 32 (signed sign a)
  · rw [interval2istruct_dash Nat.zero_lt_one hfits]
    by_cases hb : CInt.Fits 32 (b : Int)
    · rw [if_pos hb]
      by_cases hitype : itype = .SQL_IS_YEAR_TO_MONTH
      · rw [if_pos hitype, and_iff_right hitype]
        refine (leading_fits_iff hfits).trans (and_congr_right fun _ => ?_)
        rw [signed_neg, and_iff_right (hfits_iff.mp hb)]
        exact some_iff
      · rw [if_neg hitype]
        exact iff_of_false nofun fun h => hitype h.1
    · rw [if_neg hb]
      exact iff_of_false nofun fun h => hb (hfits_iff.mpr h.2.2.1)
  · refine iff_of_false ?_ fun h => hfits (fits_signed sign h.2.1)
    rw [interval2istruct_overflow Nat.zero_lt_one hfits (by rintro _ ⟨⟩; decide)]
    nofun

/-! ### The forms -/

variable {year month day hour minute second fraction : UInt32}

theorem toNat_ne_zero {n : UInt32} : n.toNat ≠ 0 ↔ n ≠ 0 := by
  rw [ne_eq, ne_eq, ← UInt32.toNat_inj]
  rfl

/-- The sign is found where it stands in front of a number that is not zero. -/
theorem same_sign_iff {n : UInt32} {v v' : Intval} :
    (⟨itype, sign, v⟩ : SQL_INTERVAL_STRUCT) = ⟨itype, sign && decide (n.toNat ≠ 0), v'⟩ ↔
      (sign = true → n ≠ 0) ∧ v = v' := by
  have hsign : sign = (sign && decide (n.toNat ≠ 0)) ↔ (sign = true → n ≠ 0) := by
    rw [← toNat_ne_zero]
    cases sign <;> simp
  rw [SQL_INTERVAL_STRUCT.mk.injEq, hsign]
  exact and_iff_right rfl

theorem resolved_iff (prec : Int) {iv : SQL_INTERVAL_STRUCT} (hiv : IsInterval precision iv) :
    Recovers (.resolved prec) precision iv ↔ (Form.resolved prec).Good precision iv := by
  obtain ⟨itype, sign, intval⟩ := iv
  have hyears : ∀ {year month : UInt32}, itype = .SQL_IS_MONTH ∨ itype = .SQL_IS_YEAR_TO_MONTH →
      (interval2istruct itype precision (num sign 1 year.toNat ++ (ascii " years " ++
        (num sign 1 month.toNat ++ ascii " mons"))) =
          .ok (some ⟨itype, sign, .year_month year month⟩) ↔
        Leads sign year ∧ month.toNat < 2 ^ 31) := by
    intro year month htypes
    have h : interval2istruct itype precision (num sign 1 year.toNat ++ 0x20 ::
        ((ascii "year" ++ [0x73]) ++ 0x20 :: (num sign 1 month.toNat ++
          0x20 :: (ascii "mon" ++ [0x73])))) =
            .ok (some ⟨itype, sign, .year_month year month⟩) ↔ _ :=
      years_mons_iff (.inr rfl) (.inr rfl) rfl
    refine h.trans ?_
    rw [and_iff_right htypes, toNat_ne_zero, UInt32.ofNat_toNat, UInt32.ofNat_toNat]
    exact ⟨fun h => ⟨⟨h.2.1, h.1⟩, h.2.2.1⟩, fun h => ⟨h.1.2, h.1.1, h.2, rfl⟩⟩
  have hdays : ∀ (d h : Nat) (t : List Byte) (iv : SQL_INTERVAL_STRUCT),
      interval2istruct itype precision (num sign 1 d ++ (ascii " days " ++
        (num sign 2 h ++ 0x3a :: t))) ≠ .ok (some iv) := by
    intro d h t iv
    exact days_never (.inr rfl) (by decide) (List.forall_mem_nil _)
      ⟨by decide, by decide, by decide⟩ iv
  cases intval with
  | year_month year month =>
    cases itype with
    | SQL_IS_YEAR =>
      obtain rfl : month = 0 := hiv
      refine (unit_iff (isUnit_year (.inr rfl)) _).trans ?_
      rw [same_sign_iff, UInt32.ofNat_toNat]
      exact ⟨fun h => ⟨h.2.1, h.2.2.1⟩, fun h => ⟨rfl, h.1, h.2, rfl⟩⟩
    | SQL_IS_MONTH => exact hyears (.inl rfl)
    | SQL_IS_YEAR_TO_MONTH => exact hyears (.inr rfl)
    | _ => exact hiv.elim
  | day_second day hour minute second fraction =>
    cases itype with
    | SQL_IS_YEAR => exact hiv.elim
    | SQL_IS_MONTH => exact hiv.elim
    | SQL_IS_YEAR_TO_MONTH => exact hiv.elim
    | SQL_IS_DAY =>
      obtain ⟨rfl, rfl, rfl, rfl⟩ := hiv
      refine (unit_iff (isUnit_day (.inr rfl)) _).trans ?_
      rw [same_sign_iff, UInt32.ofNat_toNat]
      exact ⟨fun h => ⟨h.2.1, h.2.2.1⟩, fun h => ⟨rfl, h.1, h.2, rfl⟩⟩
    | _ => exact iff_of_false (hdays _ _ _ _) id

/-- A time of nothing has no place for its unit. -/
theorem zero_time (itype : SQLINTERVAL) (precision : Int) :
    interval2istruct itype precision (ascii "00:00:00") = .ok none := by
  have htext : ascii "00:00:00" = num false 2 0 ++ ([] ++ clock 0 0 (point [])) := rfl
  have hfits := fits_signed false (a := 0) (by decide)
  rw [htext]
  exact (interval2istruct_words (by decide) hfits (List.forall_mem_nil _)
    ⟨by decide, by decide, by decide⟩).trans
      (readWords_short (by decide) hfits (by decide) (by decide) (List.forall_mem_nil _)
        (by decide))

theorem zero_number (itype : SQLINTERVAL) (precision : Int) :
    interval2istruct itype precision (ascii "0") = .ok none := by
  cases itype <;> rfl

/-- A number that is left of a division shows that there is nothing to carry. -/
theorem ofNat_eq {n : UInt32} {m : Nat} (hm : m < 2 ^ 32) : n = UInt32.ofNat m ↔ n.toNat = m := by
  rw [← UInt32.toNat_inj, UInt32.toNat_ofNat_of_lt' hm]

/-- A unit as the server writes it. -/
theorem unit_text (name : List Byte) (sign : Bool) (n : Nat) :
    ∃ plural, (plural = [] ∨ plural = [0x73]) ∧
      unit name sign n = num sign 1 n ++ 0x20 :: (name ++ plural) := by
  refine ⟨_, ?_, rfl⟩
  split
  · exact .inl rfl
  · exact .inr rfl

theorem server_unit_iff {itype₀ : SQLINTERVAL} {make : UInt32 → Intval} {name : List Byte} {n : Nat}
    {iv : SQL_INTERVAL_STRUCT}
    (hname : ∀ {plural : List Byte}, plural = [] ∨ plural = [0x73] →
      IsUnit itype₀ make (name ++ plural)) :
    interval2istruct itype precision (unit name sign n) = .ok (some iv) ↔
      itype = itype₀ ∧ n < 2 ^ 31 ∧
        iv = ⟨itype₀, sign && decide (n ≠ 0), make (UInt32.ofNat n)⟩ := by
  obtain ⟨plural, hplural, htext⟩ := unit_text name sign n
  rw [htext]
  exact unit_iff (hname hplural) iv

theorem server_units_iff {iv : SQL_INTERVAL_STRUCT} (hsign : iv.interval_sign = sign) :
    interval2istruct itype precision
        (unit (ascii "year") sign a ++ 0x20 :: unit (ascii "mon") sign b) = .ok (some iv) ↔
      (itype = .SQL_IS_MONTH ∨ itype = .SQL_IS_YEAR_TO_MONTH) ∧ (sign = true → a ≠ 0) ∧
        a < 2 ^ 31 ∧ b < 2 ^ 31 ∧
        iv = ⟨itype, sign, .year_month (UInt32.ofNat a) (UInt32.ofNat b)⟩ := by
  obtain ⟨plural, hplural, htext⟩ := unit_text (ascii "year") sign a
  obtain ⟨plural', hplural', htext'⟩ := unit_text (ascii "mon") sign b
  rw [htext, htext', List.append_assoc, List.cons_append]
  exact years_mons_iff hplural hplural' hsign

theorem postgres_months {iv : SQL_INTERVAL_STRUCT} (hiv : IsInterval precision iv)
    (hm : iv.intval = .year_month year month) :
    Recovers .postgres precision iv ↔ Form.postgres.Good precision iv := by
  obtain ⟨itype, sign, intval⟩ := iv
  obtain rfl : intval = .year_month year month := hm
  have hyear := year.toNat_lt
  have hmonth := month.toNat_lt
  have hy0 : year ≠ 0 ↔ year.toNat ≠ 0 := toNat_ne_zero.symm
  have hm0 : month ≠ 0 ↔ month.toNat ≠ 0 := toNat_ne_zero.symm
  obtain ⟨months, hmonths⟩ : ∃ months, months = 12 * year.toNat + month.toNat := ⟨_, rfl⟩
  have hyear0 : itype = .SQL_IS_YEAR → month = 0 := by
    rintro rfl
    exact hiv
  have hmonth0 : itype = .SQL_IS_MONTH → year = 0 := by
    rintro rfl
    exact hiv
  have htext : Form.postgres.text precision ⟨itype, sign, .year_month year month⟩ =
      if months % 12 = 0 then
        if months / 12 = 0 then ascii "00:00:00" else unit (ascii "year") sign (months / 12)
      else if months / 12 = 0 then unit (ascii "mon") sign (months % 12)
      else unit (ascii "year") sign (months / 12) ++
        0x20 :: unit (ascii "mon") sign (months % 12) := by
    rw [hmonths]
    rfl
  have hgood : Form.postgres.Good precision ⟨itype, sign, .year_month year month⟩ ↔
      (itype = .SQL_IS_YEAR ∧ year.toNat ≠ 0 ∧ year.toNat < 2 ^ 31) ∨
      (itype = .SQL_IS_MONTH ∧ month.toNat ≠ 0 ∧ month.toNat < 12) ∨
      (itype = .SQL_IS_YEAR_TO_MONTH ∧ (year.toNat ≠ 0 ∧ year.toNat < 2 ^ 31) ∧
        month.toNat ≠ 0 ∧ month.toNat < 12) := by
    rw [← hy0, ← hm0]
    cases itype <;> simp [Form.Good, IsInterval] at hiv ⊢
  have hzero : (0 : UInt32).toNat = 0 := rfl
  rw [Recovers, htext, hgood]
  by_cases hM : months % 12 = 0
  · by_cases hY : months / 12 = 0
    · rw [if_pos hM, if_pos hY, zero_time]
      refine iff_of_false nofun ?_
      rintro (⟨-, h⟩ | ⟨-, h⟩ | ⟨-, h⟩) <;> omega
    · rw [if_pos hM, if_neg hY, server_unit_iff isUnit_year]
      constructor
      · rintro ⟨rfl, hlt, -⟩
        rw [hyear0 rfl, hzero] at hmonths
        exact .inl ⟨rfl, by omega, by omega⟩
      · rintro (⟨rfl, h⟩ | ⟨rfl, h⟩ | ⟨rfl, h⟩)
        · obtain rfl := hyear0 rfl
          have hsame : months / 12 = year.toNat := by
            rw [hzero] at hmonths
            omega
          refine ⟨rfl, by omega, ?_⟩
          rw [hsame, same_sign_iff, UInt32.ofNat_toNat]
          exact ⟨fun _ => hy0.mpr h.1, rfl⟩
        · rw [hmonth0 rfl, hzero] at hmonths
          omega
        · omega
  · by_cases hY : months / 12 = 0
    · rw [if_neg hM, if_pos hY, server_unit_iff isUnit_mon]
      constructor
      · rintro ⟨rfl, hlt, -⟩
        exact .inr (.inl ⟨rfl, by omega, by omega⟩)
      · rintro (⟨rfl, h⟩ | ⟨rfl, h⟩ | ⟨rfl, h⟩)
        · omega
        · obtain rfl := hmonth0 rfl
          have hsame : months % 12 = month.toNat := by
            rw [hzero] at hmonths
            omega
          refine ⟨rfl, by omega, ?_⟩
          rw [hsame, same_sign_iff, UInt32.ofNat_toNat]
          exact ⟨fun _ => hm0.mpr h.1, rfl⟩
        · omega
    · have hsign : (⟨itype, sign, .year_month year month⟩ : SQL_INTERVAL_STRUCT).interval_sign =
        sign := rfl
      rw [if_neg hM, if_neg hY, server_units_iff hsign]
      constructor
      · rintro ⟨htypes, -, hlt, -, heq⟩
        obtain ⟨heqY, heqM⟩ := Intval.year_month.inj (SQL_INTERVAL_STRUCT.mk.inj heq).2.2
        rw [ofNat_eq (by omega)] at heqY heqM
        rcases htypes with rfl | rfl
        · rw [hmonth0 rfl, hzero] at heqY
          omega
        · exact .inr (.inr ⟨rfl, by omega, by omega⟩)
      · rintro (⟨rfl, h⟩ | ⟨rfl, h⟩ | ⟨rfl, h⟩)
        · rw [hyear0 rfl, hzero] at hmonths
          omega
        · rw [hmonth0 rfl, hzero] at hmonths
          omega
        · have hsameY : months / 12 = year.toNat := by omega
          have hsameM : months % 12 = month.toNat := by omega
          refine ⟨.inr rfl, fun _ => hY, by omega, by omega, ?_⟩
          rw [hsameY, hsameM, UInt32.ofNat_toNat, UInt32.ofNat_toNat]

theorem sqlStandard_months {iv : SQL_INTERVAL_STRUCT} (hiv : IsInterval precision iv)
    (hm : iv.intval = .year_month year month) :
    Recovers .sqlStandard precision iv ↔ Form.sqlStandard.Good precision iv := by
  obtain ⟨itype, sign, intval⟩ := iv
  obtain rfl : intval = .year_month year month := hm
  have hyear := year.toNat_lt
  have hmonth := month.toNat_lt
  have hy0 : year ≠ 0 ↔ year.toNat ≠ 0 := toNat_ne_zero.symm
  have hm0 : month ≠ 0 ↔ month.toNat ≠ 0 := toNat_ne_zero.symm
  obtain ⟨months, hmonths⟩ : ∃ months, months = 12 * year.toNat + month.toNat := ⟨_, rfl⟩
  have htext : Form.sqlStandard.text precision ⟨itype, sign, .year_month year month⟩ =
      if months / 12 = 0 ∧ months % 12 = 0 then ascii "0"
      else num sign 1 (months / 12) ++ 0x2d :: num false 1 (months % 12) := by
    rw [hmonths]
    rfl
  have hgood : Form.sqlStandard.Good precision ⟨itype, sign, .year_month year month⟩ ↔
      itype = .SQL_IS_YEAR_TO_MONTH ∧ (year ≠ 0 ∨ month ≠ 0) ∧ Leads sign year ∧
        month.toNat < 12 := by
    cases itype <;> simp [Form.Good, IsInterval] at hiv ⊢
  rw [Recovers, htext, hgood]
  by_cases hzero : months / 12 = 0 ∧ months % 12 = 0
  · rw [if_pos hzero, zero_number]
    refine iff_of_false nofun ?_
    rintro ⟨-, h, -⟩
    rw [hy0, hm0] at h
    omega
  · rw [if_neg hzero, dash_iff]
    constructor
    · rintro ⟨rfl, hlt, -, heq⟩
      obtain ⟨-, hsign, hfields⟩ := SQL_INTERVAL_STRUCT.mk.inj heq
      obtain ⟨heqY, heqM⟩ := Intval.year_month.inj hfields
      rw [ofNat_eq (by omega)] at heqY heqM
      rw [← heqY] at hsign hlt
      refine ⟨rfl, ?_, ⟨hlt, ?_⟩, by omega⟩
      · rw [hy0, hm0]
        omega
      · rintro rfl
        rw [hy0]
        rw [Bool.true_and] at hsign
        exact of_decide_eq_true hsign.symm
    · rintro ⟨rfl, -, hlead, hlt⟩
      have hsameY : months / 12 = year.toNat := by omega
      have hsameM : months % 12 = month.toNat := by omega
      refine ⟨rfl, ?_, by omega, ?_⟩
      · rw [hsameY]
        exact hlead.1
      · rw [hsameY, hsameM, same_sign_iff, UInt32.ofNat_toNat, UInt32.ofNat_toNat]
        exact ⟨hlead.2, rfl⟩

/-- Minutes and seconds below sixty are carried nowhere. -/
theorem onClock_iff {h' mi' se' : Nat}
    (hse : se' = second.toNat % 60) (hmi : mi' = (minute.toNat + second.toNat / 60) % 60)
    (hh : h' = hour.toNat + (minute.toNat + second.toNat / 60) / 60) :
    (minute = UInt32.ofNat mi' ∧ second = UInt32.ofNat se' ↔ OnClock minute second) ∧
      (OnClock minute second → h' = hour.toNat) := by
  have hminute := minute.toNat_lt
  have hsecond := second.toNat_lt
  constructor
  · rw [ofNat_eq (by omega), ofNat_eq (by omega), OnClock]
    constructor
    · rintro ⟨hm, hs⟩
      omega
    · rintro ⟨hm, hs⟩
      omega
  · rintro ⟨hm, hs⟩
    omega

/-- The fields that come back are those of the interval, `s` being the sign that the hours show. -/
theorem fields_iff {h' mi' se' : Nat} (s : Nat → Bool)
    (hse : se' = second.toNat % 60) (hmi : mi' = (minute.toNat + second.toNat / 60) % 60)
    (hh : h' = hour.toNat + (minute.toNat + second.toNat / 60) / 60) :
    (h' < 100 ∧ (⟨itype, sign, .day_second day hour minute second fraction⟩ : SQL_INTERVAL_STRUCT) =
      ⟨itype, s h', .day_second day (UInt32.ofNat h') (UInt32.ofNat mi') (UInt32.ofNat se')
        fraction⟩) ↔ sign = s hour.toNat ∧ hour.toNat < 100 ∧ OnClock minute second := by
  obtain ⟨hclock, hsame⟩ := onClock_iff hse hmi hh
  constructor
  · rintro ⟨hlt, heq⟩
    obtain ⟨-, hsign, hfields⟩ := SQL_INTERVAL_STRUCT.mk.inj heq
    obtain ⟨-, -, hminute, hsecond, -⟩ := Intval.day_second.inj hfields
    have hon := hclock.mp ⟨hminute, hsecond⟩
    rw [hsame hon] at hsign hlt
    exact ⟨hsign, hlt, hon⟩
  · rintro ⟨hsign, hlt, hon⟩
    obtain ⟨hminute, hsecond⟩ := hclock.mpr hon
    rw [hsame hon, ← hminute, ← hsecond, UInt32.ofNat_toNat, ← hsign]
    exact ⟨hlt, rfl⟩

theorem fraction_lt {itype : SQLINTERVAL}
    (hiv : IsInterval precision ⟨itype, sign, .day_second day hour minute second fraction⟩) :
    fraction.toNat < 10 ^ fractionPrecision precision ∧
      ¬ (itype = .SQL_IS_YEAR ∨ itype = .SQL_IS_MONTH ∨ itype = .SQL_IS_YEAR_TO_MONTH) := by
  have hpos : (0 : UInt32).toNat < 10 ^ fractionPrecision precision :=
    Nat.pow_pos (by decide)
  cases itype <;> simp [IsInterval] at hiv ⊢ <;> simp_all

/-- Two characters have room for hours below a hundred, and for no sign before two digits. -/
theorem length_num_two : (num sign 2 h).length ≤ 2 ↔ sign = false ∧ h < 100 := by
  constructor
  · intro hshort
    have htwo : 2 ≤ (digits 2 h).length := by
      rw [Scanf.length_digits]
      exact Nat.le_max_left 2 _
    refine ⟨?_, hours_of_short hshort⟩
    cases sign with
    | false => rfl
    | true =>
      rw [num, List.length_append] at hshort
      have hone : (signText true).length = 1 := rfl
      omega
  · rintro ⟨rfl, hh⟩
    exact (Scanf.length_digits_of_lt hh).le

theorem length_num_one : (num sign 1 h).length ≤ 2 ↔ if sign then h < 10 else h < 100 := by
  cases sign with
  | false => exact ⟨hours_of_short, Scanf.length_digits_le (Nat.le_succ 1)⟩
  | true =>
    constructor
    · intro hshort
      rw [if_pos rfl]
      by_contra hlong
      have hlt : 1 < (digits 1 h).length := Scanf.lt_length_digits (j := 1) (Nat.le_of_not_lt hlong)
      have hone : (signText true).length = 1 := rfl
      rw [num, List.length_append] at hshort
      omega
    · intro hh
      rw [if_pos rfl] at hh
      have hone : (digits 1 h).length ≤ 1 := Scanf.length_digits_le (Nat.le_refl 1) hh
      exact Nat.succ_le_succ hone

theorem postgres_days {iv : SQL_INTERVAL_STRUCT} (hiv : IsInterval precision iv)
    (hserver : ServerDigits precision iv)
    (hd : iv.intval = .day_second day hour minute second fraction) :
    Recovers .postgres precision iv ↔ Form.postgres.Good precision iv := by
  obtain ⟨itype, sign, intval⟩ := iv
  obtain rfl : intval = .day_second day hour minute second fraction := hd
  obtain ⟨hf, hitype⟩ := fraction_lt hiv
  have hd0 : day ≠ 0 ↔ day.toNat ≠ 0 := toNat_ne_zero.symm
  have hf0 := fractionDigits_eq_nil hf
  obtain ⟨se', hse⟩ : ∃ se', se' = second.toNat % 60 := ⟨_, rfl⟩
  obtain ⟨mi', hmi⟩ : ∃ mi', mi' = (minute.toNat + second.toNat / 60) % 60 := ⟨_, rfl⟩
  obtain ⟨h', hh⟩ : ∃ h', h' = hour.toNat + (minute.toNat + second.toNat / 60) / 60 := ⟨_, rfl⟩
  have htext : Form.postgres.text precision
      ⟨itype, sign, .day_second day hour minute second fraction⟩ =
        let ds := fractionDigits (fractionPrecision precision) fraction.toNat
        let time := num sign 2 h' ++ clock mi' se' (point ds)
        if h' = 0 ∧ mi' = 0 ∧ se' = 0 ∧ ds = [] then
          if day.toNat = 0 then ascii "00:00:00" else unit (ascii "day") sign day.toNat
        else if day.toNat = 0 then time
        else unit (ascii "day") sign day.toNat ++ 0x20 :: time := by
    rw [hse, hmi, hh]
    rfl
  have hgood : Form.postgres.Good precision
      ⟨itype, sign, .day_second day hour minute second fraction⟩ ↔
        if itype = .SQL_IS_DAY then day ≠ 0 ∧ day.toNat < 2 ^ 31
        else sign = false ∧ day = 0 ∧ hour.toNat < 100 ∧ OnClock minute second ∧
          LongFraction precision fraction := by
    cases itype <;> rfl
  rw [Recovers, htext, hgood]
  by_cases hday : itype = .SQL_IS_DAY
  · obtain rfl := hday
    obtain ⟨rfl, rfl, rfl, rfl⟩ := hiv
    obtain rfl : se' = 0 := hse
    obtain rfl : mi' = 0 := hmi
    obtain rfl : h' = 0 := hh
    rw [if_pos rfl, if_pos ⟨rfl, rfl, rfl, hf0.mpr rfl⟩]
    by_cases h0 : day.toNat = 0
    · rw [if_pos h0, zero_time]
      exact iff_of_false nofun fun h => hd0.mp h.1 h0
    · rw [if_neg h0, server_unit_iff isUnit_day, same_sign_iff, UInt32.ofNat_toNat, hd0]
      exact ⟨fun h => ⟨h0, h.2.1⟩, fun h => ⟨rfl, h.2, fun _ => h.1, rfl⟩⟩
  · rw [if_neg hday]
    dsimp only
    by_cases htime : h' = 0 ∧ mi' = 0 ∧ se' = 0 ∧
        fractionDigits (fractionPrecision precision) fraction.toNat = []
    · -- Nothing is written behind the days.
      rw [if_pos htime]
      refine iff_of_false ?_ fun h => ?_
      · by_cases h0 : day.toNat = 0
        · rw [if_pos h0, zero_time]
          nofun
        · rw [if_neg h0, server_unit_iff isUnit_day]
          exact fun h => hday h.1
      · have hlong := h.2.2.2.2.1
        rw [htime.2.2.2] at hlong
        exact absurd hlong (by decide)
    · rw [if_neg htime]
      by_cases h0 : day.toNat = 0
      · obtain rfl : day = 0 := not_not.mp fun h => hd0.mp h h0
        have hiff : (h' < 100 ∧ (⟨itype, sign, .day_second 0 hour minute second fraction⟩ :
            SQL_INTERVAL_STRUCT) = ⟨itype, sign && decide (h' ≠ 0), .day_second 0 (UInt32.ofNat h')
              (UInt32.ofNat mi') (UInt32.ofNat se') fraction⟩) ↔ _ :=
          fields_iff (fun h => sign && decide (h ≠ 0)) hse hmi hh
        rw [if_pos h0, time_iff hitype (by decide) (by omega) (by omega) hf hserver, length_num_two,
          UInt32.ofNat_toNat]
        constructor
        · rintro ⟨hlong, h10, ⟨hsign, hlt⟩, heq⟩
          obtain ⟨-, hlt', hclock⟩ := hiff.mp ⟨hlt, heq⟩
          exact ⟨hsign, rfl, hlt', hclock, hlong, h10⟩
        · rintro ⟨hsign, -, hlt', hclock, hlong, h10⟩
          obtain ⟨hlt, heq⟩ := hiff.mpr ⟨by rw [hsign]; rfl, hlt', hclock⟩
          exact ⟨hlong, h10, ⟨hsign, hlt⟩, heq⟩
      · -- The third format takes the time for a second number and its unit.
        rw [if_neg h0]
        refine iff_of_false ?_ fun h => hd0.mpr h0 h.2.1
        obtain ⟨plural, hplural, htext⟩ := unit_text (ascii "day") sign day.toNat
        have hcolon : Plain 0x3a := ⟨by decide, by decide, by decide⟩
        rw [htext, List.append_assoc]
        exact days_never hplural (by decide) (List.forall_mem_nil _) hcolon _

theorem sqlStandard_days {iv : SQL_INTERVAL_STRUCT} (hiv : IsInterval precision iv)
    (hserver : ServerDigits precision iv)
    (hd : iv.intval = .day_second day hour minute second fraction) :
    Recovers .sqlStandard precision iv ↔ Form.sqlStandard.Good precision iv := by
  obtain ⟨itype, sign, intval⟩ := iv
  obtain rfl : intval = .day_second day hour minute second fraction := hd
  obtain ⟨hf, hitype⟩ := fraction_lt hiv
  have hd0 : day ≠ 0 ↔ day.toNat ≠ 0 := toNat_ne_zero.symm
  have hfraction0 : fraction ≠ 0 ↔ fraction.toNat ≠ 0 := toNat_ne_zero.symm
  obtain ⟨se', hse⟩ : ∃ se', se' = second.toNat % 60 := ⟨_, rfl⟩
  obtain ⟨mi', hmi⟩ : ∃ mi', mi' = (minute.toNat + second.toNat / 60) % 60 := ⟨_, rfl⟩
  obtain ⟨h', hh⟩ : ∃ h', h' = hour.toNat + (minute.toNat + second.toNat / 60) / 60 := ⟨_, rfl⟩
  have htext : Form.sqlStandard.text precision
      ⟨itype, sign, .day_second day hour minute second fraction⟩ =
        let ds := fractionDigits (fractionPrecision precision) fraction.toNat
        if day.toNat = 0 then
          if h' = 0 ∧ mi' = 0 ∧ se' = 0 ∧ ds = [] then ascii "0"
          else num sign 1 h' ++ clock mi' se' (point ds)
        else num sign 1 day.toNat ++ 0x20 :: (num false 1 h' ++ clock mi' se' (point ds)) := by
    rw [hse, hmi, hh]
    rfl
  have hgood : Form.sqlStandard.Good precision
      ⟨itype, sign, .day_second day hour minute second fraction⟩ ↔
        OnClock minute second ∧
          if day = 0 then LongFraction precision fraction ∧
            if sign then 0 < hour.toNat ∧ hour.toNat < 10 else hour.toNat < 100
          else day.toNat < 2 ^ 31 ∧ hour.toNat < 100 ∧ (fraction ≠ 0 → precision < 10) := by
    cases itype <;> rfl
  rw [Recovers, htext, hgood]
  dsimp only
  by_cases h0 : day.toNat = 0
  · obtain rfl : day = 0 := not_not.mp fun h => hd0.mp h h0
    rw [if_pos h0, if_pos rfl]
    by_cases htime : h' = 0 ∧ mi' = 0 ∧ se' = 0 ∧
        fractionDigits (fractionPrecision precision) fraction.toNat = []
    · rw [if_pos htime, zero_number]
      refine iff_of_false nofun fun h => ?_
      have hlong := h.2.1.1
      rw [htime.2.2.2] at hlong
      exact absurd hlong (by decide)
    · have hiff : (h' < 100 ∧ (⟨itype, sign, .day_second 0 hour minute second fraction⟩ :
          SQL_INTERVAL_STRUCT) = ⟨itype, sign && decide (h' ≠ 0), .day_second 0 (UInt32.ofNat h')
            (UInt32.ofNat mi') (UInt32.ofNat se') fraction⟩) ↔ _ :=
        fields_iff (fun h => sign && decide (h ≠ 0)) hse hmi hh
      have hsame : OnClock minute second → h' = hour.toNat := (onClock_iff hse hmi hh).2
      rw [if_neg htime, time_iff hitype Nat.zero_lt_one (by omega) (by omega) hf hserver,
        length_num_one, UInt32.ofNat_toNat]
      constructor
      · rintro ⟨hlong, h10, hshort, heq⟩
        obtain ⟨hsign, hlt, hclock⟩ := hiff.mp ⟨by split at hshort <;> omega, heq⟩
        rw [hsame hclock] at hshort
        refine ⟨hclock, ⟨hlong, h10⟩, ?_⟩
        cases sign with
        | false => exact hlt
        | true => exact ⟨Nat.pos_of_ne_zero (of_decide_eq_true hsign.symm), hshort⟩
      · rintro ⟨hclock, ⟨hlong, h10⟩, hhour⟩
        have hshown : sign = (sign && decide (hour.toNat ≠ 0)) ∧ hour.toNat < 100 ∧
            if sign then h' < 10 else h' < 100 := by
          rw [hsame hclock]
          cases sign with
          | false => exact ⟨rfl, hhour, hhour⟩
          | true => exact ⟨(decide_eq_true hhour.1.ne').symm, hhour.2.trans (by decide), hhour.2⟩
        obtain ⟨-, heq⟩ := hiff.mpr ⟨hshown.1, hshown.2.1, hclock⟩
        exact ⟨hlong, h10, hshown.2.2, heq⟩
  · have hday : sign = (sign && decide (day.toNat ≠ 0)) := by
      rw [decide_eq_true h0, Bool.and_true]
    have hiff : (h' < 100 ∧ (⟨itype, sign, .day_second day hour minute second fraction⟩ :
        SQL_INTERVAL_STRUCT) = ⟨itype, sign && decide (day.toNat ≠ 0), .day_second day
          (UInt32.ofNat h') (UInt32.ofNat mi') (UInt32.ofNat se') fraction⟩) ↔ _ :=
      fields_iff (fun _ => sign && decide (day.toNat ≠ 0)) hse hmi hh
    have hroom : fraction.toNat = 0 ∨ precision < 10 ↔ (fraction ≠ 0 → precision < 10) := by
      rw [hfraction0]
      exact Decidable.or_iff_not_imp_left
    rw [if_neg h0, if_neg (hd0.mpr h0), days_iff (by omega) (by omega) hf hserver,
      UInt32.ofNat_toNat, UInt32.ofNat_toNat, hroom]
    constructor
    · rintro ⟨hlead, hlt, h10, heq⟩
      obtain ⟨-, hlt', hclock⟩ := hiff.mp ⟨hlt, heq⟩
      exact ⟨hclock, hlead, hlt', h10⟩
    · rintro ⟨hclock, hlead, hlt', h10⟩
      obtain ⟨hlt, heq⟩ := hiff.mpr ⟨hday, hlt', hclock⟩
      exact ⟨hlead, hlt, h10, heq⟩

/-! ### The intervals that come back -/

/-- Of the texts that `ResolveOneParam` and the server make of intervals, `interval2istruct` makes
the same interval exactly where this is `Form.Good`. -/
theorem interval_recovered_iff (form : Form) (precision : Int) (iv : SQL_INTERVAL_STRUCT)
    (hiv : IsInterval precision iv) (hform : form.Holds precision iv) :
    Recovers form precision iv ↔ form.Good precision iv := by
  cases form with
  | resolved prec => exact resolved_iff prec hiv
  | postgres =>
    cases hfields : iv.intval with
    | year_month year month => exact postgres_months hiv hfields
    | day_second day hour minute second fraction => exact postgres_days hiv hform hfields
  | sqlStandard =>
    cases hfields : iv.intval with
    | year_month year month => exact sqlStandard_months hiv hfields
    | day_second day hour minute second fraction => exact sqlStandard_days hiv hform hfields

/-- Ten years and two months ago. -/
theorem years_and_months_recovered :
    Recovers .postgres 6 ⟨.SQL_IS_YEAR_TO_MONTH, true, .year_month 10 2⟩ :=
  (interval_recovered_iff .postgres 6 ⟨.SQL_IS_YEAR_TO_MONTH, true, .year_month 10 2⟩ trivial
    trivial).mpr ⟨⟨by decide, by decide⟩, by decide, by decide⟩

/-- One hour is lost in either form, and a fraction of ten digits is written out of its range. -/
theorem hour_not_recovered :
    Form.text (.resolved 6) 6 ⟨.SQL_IS_HOUR, false, .day_second 0 1 0 0 0⟩ =
        ascii "0 days 01:00:00" ∧
      Form.text .postgres 6 ⟨.SQL_IS_HOUR, false, .day_second 0 1 0 0 0⟩ = ascii "01:00:00" ∧
      ¬ Recovers (.resolved 6) 6 ⟨.SQL_IS_HOUR, false, .day_second 0 1 0 0 0⟩ ∧
      ¬ Recovers .postgres 6 ⟨.SQL_IS_HOUR, false, .day_second 0 1 0 0 0⟩ ∧
      interval2istruct .SQL_IS_SECOND 10 (ascii "00:00:01.12345") = .error .index := by
  have hlost : ∀ str ∈ [ascii "0 days 01:00:00", ascii "01:00:00"],
      interval2istruct .SQL_IS_HOUR 6 str = .ok none := by
    decide
  refine ⟨rfl, rfl, ?_, ?_, rfl⟩
  · exact fun h => nomatch (hlost _ (by decide)).symm.trans h
  · exact fun h => nomatch (hlost _ (by decide)).symm.trans h

end OdbcDriver.Intervals
