import OdbcDriver.Encoding.Ascii
import OdbcDriver.Lib.Except
import OdbcDriver.Lib.Scanf

/-!
# Intervals read from texts

`interval2istruct` tries six formats on a text, one after the other, and goes by how many items of
each are found. The formats are not exclusive: what is written for a later one may be found by an
earlier one, and then the text is given up unless the words and the type are the ones that the
earlier format is meant for.
-/

namespace OdbcDriver

open Scanf (format)

/-- The interval types. The C types correspond to them (`interval2itype`). -/
inductive SQLINTERVAL
  | SQL_IS_YEAR
  | SQL_IS_MONTH
  | SQL_IS_DAY
  | SQL_IS_HOUR
  | SQL_IS_MINUTE
  | SQL_IS_SECOND
  | SQL_IS_YEAR_TO_MONTH
  | SQL_IS_DAY_TO_HOUR
  | SQL_IS_DAY_TO_MINUTE
  | SQL_IS_DAY_TO_SECOND
  | SQL_IS_HOUR_TO_MINUTE
  | SQL_IS_HOUR_TO_SECOND
  | SQL_IS_MINUTE_TO_SECOND
deriving DecidableEq, Repr

/-- `intval`: one of the two structures. -/
inductive Intval
  | year_month (year month : UInt32)
  | day_second (day hour minute second fraction : UInt32)
deriving DecidableEq, Repr

structure SQL_INTERVAL_STRUCT where
  interval_type : SQLINTERVAL
  interval_sign : Bool
  intval : Intval
deriving DecidableEq, Repr

namespace Intervals

/-- Why C leaves undefined what becomes of a text. -/
inductive Undefined
  /-- An `int` does not hold a number. -/
  | overflow
  /-- `fraction` is written at an index that it has not. -/
  | index
deriving DecidableEq, Repr

def scan (fmt : String) (str : List Byte) : Except Undefined Scanf.Scanned :=
  (Scanf.sscanf (format fmt) str).elim (.error .overflow) .ok

/-- `strnicmp` finds no difference. -/
def strnicmp (a b : List Byte) (n : Nat) : Bool := stricmp (a.take n) (b.take n)

/-- An `int` that is stored as an `SQLUINTEGER`. -/
def toUnsigned (n : Int) : UInt32 := UInt32.ofNat (n % 2 ^ 32).toNat

/-- `sign ? (-n) : n` -/
def unsign (sign : Bool) (n : Int) : Except Undefined UInt32 :=
  if CInt.Fits 32 (if sign then -n else n) then .ok (toUnsigned (if sign then -n else n))
  else .error .overflow

def fromOption (n : Option Int) : Except Undefined Int := n.elim (.error .overflow) .ok

/-- `getPrecisionPart` -/
def getPrecisionPart (precision : Int) (precPart : List Byte) : Except Undefined Int :=
  let precision := if precision < 0 then 6 else precision
  if precision = 0 then .ok 0
  else
    let fraction := precPart.take 9 ++ List.replicate (9 - precPart.length) 0x30
    if precision < 10 then fromOption (Scanf.atoi (fraction.take precision.toNat))
    else .error .index

/-- The fraction, if one has been found. -/
def fractionPart (found : Bool) (precision : Int) (lit : List Byte) : Except Undefined UInt32 :=
  if found then toUnsigned <$> getPrecisionPart precision lit else .ok 0

/-- The format of a time alone. -/
def readClock (itype : SQLINTERVAL) (precision : Int) (str : List Byte) :
    Except Undefined (Option SQL_INTERVAL_STRUCT) := do
  let r ← scan "%02d:%02d:%02d.%09s" str
  if r.count = 3 ∨ r.count = 4 then
    let sign := decide (r.int 0 < 0)
    let hour ← unsign sign (r.int 0)
    let fraction ← fractionPart (3 < r.count) precision (r.str 0)
    return some ⟨itype, sign,
      .day_second 0 hour (toUnsigned (r.int 1)) (toUnsigned (r.int 2)) fraction⟩
  else return none

/-- The format of a time behind days. -/
def readTime (itype : SQLINTERVAL) (precision : Int) (str : List Byte) :
    Except Undefined (Option SQL_INTERVAL_STRUCT) := do
  let r ← scan "%d %10s %02d:%02d:%02d.%09s" str
  if r.count = 5 ∨ r.count = 6 then
    if strnicmp (r.str 0) (ascii "day") 3 then
      let sign := decide (r.int 0 < 0)
      let day ← unsign sign (r.int 0)
      let hour ← unsign sign (r.int 1)
      let fraction ← fractionPart (5 < r.count) precision (r.str 1)
      return some ⟨itype, sign,
        .day_second day hour (toUnsigned (r.int 2)) (toUnsigned (r.int 3)) fraction⟩
    else return none
  else readClock itype precision str

/-- One number and its unit. -/
def readUnit (itype : SQLINTERVAL) (n : Int) (lit1 : List Byte) :
    Except Undefined (Option SQL_INTERVAL_STRUCT) := do
  let sign := decide (n < 0)
  if itype = .SQL_IS_YEAR ∧ (stricmp lit1 (ascii "year") ∨ stricmp lit1 (ascii "years")) then
    return some ⟨itype, sign, .year_month (← unsign sign n) 0⟩
  else if itype = .SQL_IS_MONTH ∧ (stricmp lit1 (ascii "mon") ∨ stricmp lit1 (ascii "mons")) then
    return some ⟨itype, sign, .year_month 0 (← unsign sign n)⟩
  else if itype = .SQL_IS_DAY ∧ (stricmp lit1 (ascii "day") ∨ stricmp lit1 (ascii "days")) then
    return some ⟨itype, sign, .day_second (← unsign sign n) 0 0 0 0⟩
  else return none

/-- Two numbers, each with its unit. -/
def readTwoUnits (itype : SQLINTERVAL) (years mons : Int) (lit1 lit2 : List Byte) :
    Except Undefined (Option SQL_INTERVAL_STRUCT) := do
  if strnicmp lit1 (ascii "year") 4 ∧ strnicmp lit2 (ascii "mon") 2 ∧
      (itype = .SQL_IS_MONTH ∨ itype = .SQL_IS_YEAR_TO_MONTH) then
    let sign := decide (years < 0)
    return some ⟨itype, sign, .year_month (← unsign sign years) (← unsign sign mons)⟩
  else return none

/-- The formats with units, and those of a time. -/
def readWords (itype : SQLINTERVAL) (precision : Int) (str : List Byte) :
    Except Undefined (Option SQL_INTERVAL_STRUCT) := do
  let r ← scan "%d %10s %d %10s" str
  if 4 ≤ r.count then readTwoUnits itype (r.int 0) (r.int 1) (r.str 0) (r.str 1)
  else
    let r ← scan "%d %10s %d" str
    if r.count = 2 then readUnit itype (r.int 0) (r.str 0)
    else if itype = .SQL_IS_YEAR ∨ itype = .SQL_IS_MONTH ∨ itype = .SQL_IS_YEAR_TO_MONTH then
      return none
    else readTime itype precision str

end Intervals

open Intervals in
/-- `interval2istruct`: what is left in the structure, or nothing where `FALSE` is returned. -/
def interval2istruct (itype : SQLINTERVAL) (precision : Int) (str : List Byte) :
    Except Undefined (Option SQL_INTERVAL_STRUCT) := do
  let r ← scan "%d-%d" str
  if 2 ≤ r.count then
    if itype = .SQL_IS_YEAR_TO_MONTH then
      let sign := decide (r.int 0 < 0)
      return some ⟨itype, sign, .year_month (← unsign sign (r.int 0)) (toUnsigned (r.int 1))⟩
    else return none
  else
    let r ← scan "%d %02d:%02d:%02d.%09s" str
    if r.count = 5 ∨ r.count = 4 then
      let sign := decide (r.int 0 < 0)
      let day ← unsign sign (r.int 0)
      let fraction ← fractionPart (4 < r.count) precision (r.str 0)
      return some ⟨itype, sign, .day_second day (toUnsigned (r.int 1)) (toUnsigned (r.int 2))
        (toUnsigned (r.int 3)) fraction⟩
    else readWords itype precision str

end OdbcDriver
