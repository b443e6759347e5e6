import Mathlib.Data.List.DropRight
import OdbcDriver.DateTime.Interval

/-!
# Intervals there and back

The texts in which an interval reaches `interval2istruct`: those that `ResolveOneParam` makes of the
parameters, and those of the server, in the styles `postgres`, which the driver's tests ask for, and
`sql_standard`, at which the first two formats aim. In all of them a sign stands in front of every
number that it concerns, and zeros are left out at the end of a fraction.

The third format takes a time behind days for a second number with its unit, and the fourth a time
alone for the unit of its hours, so that only some of the texts come back.
-/

namespace OdbcDriver.Intervals

open Scanf (sscanf format digits signText signed)

/-! ### Texts -/

/-- A number of at least `k` digits, behind its sign. -/
def num (sign : Bool) (k n : Nat) : List Byte := signText sign ++ digits k n

/-- What stands behind the hours. -/
def clock (minute second : Nat) (fraction : List Byte) : List Byte :=
  0x3a :: (digits 2 minute ++ 0x3a :: (digits 2 second ++ fraction))

/-- The loop of `ResolveOneParam` over the zeros at the end of a fraction. -/
def dropZeros : Nat → Int → Int → Int × Int
  | 0, fraction, prec => (fraction, prec)
  | fuel + 1, fraction, prec =>
    if fraction.tmod 10 = 0 then dropZeros fuel (fraction.tdiv 10) (prec - 1) else (fraction, prec)

/-- `%0*d`, which is left-justified where the width is negative. -/
def starPadded (width n : Int) : List Byte :=
  if 0 ≤ width then Scanf.zeroPadded width.toNat n
  else Scanf.decimal 1 n ++
    List.replicate (width.natAbs - (Scanf.decimal 1 n).length) 0x20

/-- The fraction in `ResolveOneParam`. An `int` has no more than nine zeros at its end. -/
def resolvedFraction (prec : Int) (fraction : UInt32) : List Byte :=
  if 0 < fraction then
    let (fraction, prec) := dropZeros 9 (CInt.wrap 32 fraction.toNat) prec
    0x2e :: starPadded prec fraction
  else []

/-- What `ResolveOneParam` makes of an interval, `prec` being the precision of the parameter. -/
def resolvedText (prec : Int) (iv : SQL_INTERVAL_STRUCT) : List Byte :=
  let sign := iv.interval_sign
  match iv.interval_type, iv.intval with
  | .SQL_IS_YEAR, .year_month year _ => num sign 1 year.toNat ++ ascii " years"
  | .SQL_IS_MONTH, .year_month year month
  | .SQL_IS_YEAR_TO_MONTH, .year_month year month =>
    num sign 1 year.toNat ++ (ascii " years " ++ (num sign 1 month.toNat ++ ascii " mons"))
  | .SQL_IS_DAY, .day_second day _ _ _ _ => num sign 1 day.toNat ++ ascii " days"
  | .SQL_IS_HOUR, .day_second day hour _ _ _
  | .SQL_IS_DAY_TO_HOUR, .day_second day hour _ _ _ =>
    num sign 1 day.toNat ++ (ascii " days " ++ (num sign 2 hour.toNat ++ ascii ":00:00"))
  | .SQL_IS_MINUTE, .day_second day hour minute _ _
  | .SQL_IS_HOUR_TO_MINUTE, .day_second day hour minute _ _
  | .SQL_IS_DAY_TO_MINUTE, .day_second day hour minute _ _ =>
    num sign 1 day.toNat ++ (ascii " days " ++ (num sign 2 hour.toNat ++
      0x3a :: (digits 2 minute.toNat ++ ascii ":00")))
  | .SQL_IS_SECOND, .day_second day hour minute second fraction
  | .SQL_IS_DAY_TO_SECOND, .day_second day hour minute second fraction
  | .SQL_IS_HOUR_TO_SECOND, .day_second day hour minute second fraction
  | .SQL_IS_MINUTE_TO_SECOND, .day_second day hour minute second fraction =>
    num sign 1 day.toNat ++ (ascii " days " ++ (num sign 2 hour.toNat ++
      clock minute.toNat second.toNat (resolvedFraction prec fraction)))
  | _, _ => []

/-- The digits of a fraction in units of `10 ^ (-p)` that are written. -/
def fractionDigits (p fraction : Nat) : List Byte :=
  (digits p fraction).rdropWhile fun c => decide (c = 0x30)

/-- A point and digits, if there are any. -/
def point (ds : List Byte) : List Byte := if ds = [] then [] else 0x2e :: ds

/-- A number and its unit, which has an `s` unless the number is one. -/
def unit (name : List Byte) (sign : Bool) (n : Nat) : List Byte :=
  num sign 1 n ++ 0x20 :: (name ++ if n = 1 ∧ sign = false then [] else [0x73])

/-- What an interval is to the server: months, days, and a time whose minutes and seconds are below
sixty. -/
structure ServerInterval where
  sign : Bool
  year : Nat
  month : Nat
  day : Nat
  hour : Nat
  minute : Nat
  second : Nat
  /-- The digits that are written. -/
  fraction : List Byte

/-- The interval that the fields amount to, the fraction being in units of `10 ^ (-p)`. -/
def toServer (p : Nat) (iv : SQL_INTERVAL_STRUCT) : ServerInterval :=
  match iv.intval with
  | .year_month year month =>
    let months := 12 * year.toNat + month.toNat
    ⟨iv.interval_sign, months / 12, months % 12, 0, 0, 0, 0, []⟩
  | .day_second day hour minute second fraction =>
    let minutes := minute.toNat + second.toNat / 60
    ⟨iv.interval_sign, 0, 0, day.toNat, hour.toNat + minutes / 60, minutes % 60, second.toNat % 60,
      fractionDigits p fraction.toNat⟩

namespace ServerInterval

variable (iv : ServerInterval)

/-- There is no time in it. -/
def NoTime : Prop := iv.hour = 0 ∧ iv.minute = 0 ∧ iv.second = 0 ∧ iv.fraction = []

instance : Decidable iv.NoTime := inferInstanceAs (Decidable (_ ∧ _))

/-- The text in the style `postgres`. An interval with months has neither days nor a time. -/
def postgres : List Byte :=
  let time := num iv.sign 2 iv.hour ++ clock iv.minute iv.second (point iv.fraction)
  if iv.month = 0 then
    if iv.year = 0 then
      if iv.NoTime then
        if iv.day = 0 then ascii "00:00:00" else unit (ascii "day") iv.sign iv.day
      else if iv.day = 0 then time
      else unit (ascii "day") iv.sign iv.day ++ 0x20 :: time
    else unit (ascii "year") iv.sign iv.year
  else if iv.year = 0 then unit (ascii "mon") iv.sign iv.month
  else unit (ascii "year") iv.sign iv.year ++ 0x20 :: unit (ascii "mon") iv.sign iv.month

/-- The text in the style `sql_standard`. -/
def sqlStandard : List Byte :=
  if iv.year = 0 ∧ iv.month = 0 then
    if iv.day = 0 then
      if iv.NoTime then ascii "0"
      else num iv.sign 1 iv.hour ++ clock iv.minute iv.second (point iv.fraction)
    else num iv.sign 1 iv.day ++
      0x20 :: (digits 1 iv.hour ++ clock iv.minute iv.second (point iv.fraction))
  else num iv.sign 1 iv.year ++ 0x2d :: digits 1 iv.month

end ServerInterval

end OdbcDriver.Intervals
