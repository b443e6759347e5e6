import OdbcDriver.Lib.CInt
import OdbcDriver.Param.Types

/-!
# Sizes and digits of a column

What the driver says about a column of some type: `pgtype_attr_column_size`,
`pgtype_attr_precision`, `pgtype_attr_decimal_digits`, `pgtype_attr_scale` and
`pgtype_attr_display_size`, from the type modifier (`atttypmod`, without its header) and, where
there is none, from the size or the longest value of the column. Both are an `int`.
-/

namespace OdbcDriver.Types

open CInt

def PG_TYPE_CHAR : Oid := 18
def PG_TYPE_NAME : Oid := 19
def PG_TYPE_XID : Oid := 28
def PG_TYPE_XMLARRAY : Oid := 143
def PG_TYPE_CIDR : Oid := 650
def PG_TYPE_ABSTIME : Oid := 702
def PG_TYPE_MONEY : Oid := 790
def PG_TYPE_MACADDR : Oid := 829
def PG_TYPE_INET : Oid := 869
def PG_TYPE_TIME_WITH_TMZONE : Oid := 1266
def PG_TYPE_TIMESTAMP : Oid := 1296
def PG_TYPE_BIT : Oid := 1560
def PG_TYPE_REFCURSOR : Oid := 1790
def PG_TYPE_NVARCHAR2 : Oid := 3969
def PG_TYPE_SMALLDATETIME : Oid := 9003
def PG_TYPE_LO_UNDEFINED : Oid := -999

/-- `SQL_NO_TOTAL` -/
def SQL_NO_TOTAL : ℤ := -4

/-- `PG_ADT_UNSET` -/
def PG_ADT_UNSET : ℤ := -3

/-- `PG_REAL_DIGITS` -/
def PG_REAL_DIGITS : ℤ := 9

/-- `PG_DOUBLE_DIGITS` -/
def PG_DOUBLE_DIGITS : ℤ := 17

/-- `UNKNOWNS_AS_MAX` -/
def UNKNOWNS_AS_MAX : ℤ := 0

/-- `UNKNOWNS_AS_DONTKNOW` -/
def UNKNOWNS_AS_DONTKNOW : ℤ := 1

/-- `UNKNOWNS_AS_LONGEST` -/
def UNKNOWNS_AS_LONGEST : ℤ := 2

/-- The settings of a connection that the sizes depend on. -/
structure SizeSettings where
  text_as_longvarchar : Bool
  unknowns_as_longvarchar : Bool
  bytea_as_longvarbinary : Bool
  bools_as_char : Bool
  max_varchar_size : ℤ
  max_longvarchar_size : ℤ
  /-- The driver is the Unicode one and is used for SQL Server. -/
  unicode_sql_server : Bool
  lobj_type : Oid
  /-- `CC_get_max_idlen` -/
  max_idlen : ℤ

/-! ### Bits of a type modifier -/

/-- The bit `k` of an `int` is set. -/
def hasBit (k : ℕ) (x : ℤ) : Bool := x / 2 ^ k % 2 = 1

/-- `MONTH_BIT` -/
def MONTH_BIT : ℕ := 17

/-- `YEAR_BIT` -/
def YEAR_BIT : ℕ := 18

/-- `DAY_BIT` -/
def DAY_BIT : ℕ := 19

/-- `HOUR_BIT` -/
def HOUR_BIT : ℕ := 26

/-- `MINUTE_BIT` -/
def MINUTE_BIT : ℕ := 27

/-- `SECOND_BIT` -/
def SECOND_BIT : ℕ := 28

/-- `get_interval_type`: the type of an interval, if it is one of some fields only. -/
def get_interval_type (atttypmod : ℤ) : Option IntervalUnit :=
  if atttypmod = -1 then none
  else if hasBit YEAR_BIT atttypmod then
    if hasBit MONTH_BIT atttypmod then some .yearToMonth else some .year
  else if hasBit MONTH_BIT atttypmod then some .month
  else if hasBit DAY_BIT atttypmod then
    if hasBit SECOND_BIT atttypmod then some .dayToSecond
    else if hasBit MINUTE_BIT atttypmod then some .dayToMinute
    else if hasBit HOUR_BIT atttypmod then some .dayToHour
    else some .day
  else if hasBit HOUR_BIT atttypmod then
    if hasBit SECOND_BIT atttypmod then some .hourToSecond
    else if hasBit MINUTE_BIT atttypmod then some .hourToMinute
    else some .hour
  else if hasBit MINUTE_BIT atttypmod then
    if hasBit SECOND_BIT atttypmod then some .minuteToSecond else some .minute
  else if hasBit SECOND_BIT atttypmod then some .second
  else none

/-! ### Each kind of type -/

/-- `TYPE_MAY_BE_ARRAY` -/
def TYPE_MAY_BE_ARRAY (type : Oid) : Bool :=
  type = PG_TYPE_XMLARRAY || (1000 ≤ type.toNat && type.toNat ≤ 1041)

/-- `getCharColumnSizeX` -/
def getCharColumnSizeX (conn : SizeSettings) (type : Oid)
    (atttypmod adtsize_or_longestlen handle_unknown_size_as : ℤ) : ℤ :=
  let maxsize :=
    if type = PG_TYPE_TEXT then
      if conn.text_as_longvarchar then conn.max_longvarchar_size else conn.max_varchar_size
    else if type = PG_TYPE_VARCHAR ∨ type = PG_TYPE_NVARCHAR2 ∨ type = PG_TYPE_BPCHAR then
      conn.max_varchar_size
    else if conn.unknowns_as_longvarchar then conn.max_longvarchar_size
    else conn.max_varchar_size
  let maxsize := if conn.unicode_sql_server ∧ 4000 < maxsize then 4000 else maxsize
  -- The size of a text field and one more is a mark for testing.
  let maxsize := if maxsize = 8191 then 0 else maxsize
  let p := adtsize_or_longestlen
  if atttypmod < 0 ∧ p < 0 then maxsize
  else if handle_unknown_size_as = UNKNOWNS_AS_LONGEST ∧ 0 < p ∧
      (atttypmod < 0 ∨ p < atttypmod) then p
  else if TYPE_MAY_BE_ARRAY type then if 0 < p then p else maxsize
  else if 0 < atttypmod then atttypmod
  else if handle_unknown_size_as ≠ UNKNOWNS_AS_LONGEST ∧
      handle_unknown_size_as ≠ UNKNOWNS_AS_MAX then -1
  else if maxsize ≤ 0 then maxsize
  else if type = PG_TYPE_NVARCHAR2 ∨ type = PG_TYPE_BPCHAR ∨ type = PG_TYPE_VARCHAR ∨
      type = PG_TYPE_TEXT then maxsize
  else max maxsize p

/-- `getNumericDecimalDigitsX`: the scale is the low half of the type modifier, and the high half
of the longest length. -/
def getNumericDecimalDigitsX (atttypmod adtsize_or_longest : ℤ) : ℤ :=
  if atttypmod < 0 ∧ adtsize_or_longest < 0 then 6
  else if -1 < atttypmod then wrap 16 (atttypmod % 2 ^ 16)
  else if adtsize_or_longest ≤ 0 then 6
  else adtsize_or_longest / 2 ^ 16

/-- `getNumericColumnSizeX`: the precision is the high half of the type modifier, and the low half
of the longest length. -/
def getNumericColumnSizeX (atttypmod adtsize_or_longest handle_unknown_size_as : ℤ) : ℤ :=
  if -1 < atttypmod then atttypmod / 2 ^ 16 % 2 ^ 16
  else if handle_unknown_size_as = UNKNOWNS_AS_DONTKNOW then SQL_NO_TOTAL
  else if adtsize_or_longest ≤ 0 then 28
  else
    let longest := adtsize_or_longest % 2 ^ 16
    if handle_unknown_size_as = UNKNOWNS_AS_MAX then if 28 < longest then longest else 28
    else if longest < 10 then 10 else longest

/-- `getTimestampDecimalDigitsX` -/
def getTimestampDecimalDigitsX (atttypmod : ℤ) : ℤ := wrap 16 (if -1 < atttypmod then atttypmod else 6)

/-- `getTimestampColumnSizeX`: `USE_ZONE` is `FALSE`. -/
def getTimestampColumnSizeX (type : Oid) (atttypmod : ℤ) : ℤ :=
  let fixed := if type = PG_TYPE_TIME then 8 else if type = PG_TYPE_TIME_WITH_TMZONE then 11 else 19
  let scale := getTimestampDecimalDigitsX atttypmod
  wrap 16 (if 0 < scale then fixed + 1 + scale else fixed)

/-- `getIntervalDecimalDigits` -/
def getIntervalDecimalDigits (atttypmod : ℤ) : ℤ :=
  if !hasBit SECOND_BIT atttypmod then 0
  else
    let prec := atttypmod % 2 ^ 16
    wrap 16 (if prec = 0xffff then 6 else prec)

/-- `getIntervalColumnSize`: a type that the list does not name keeps the leading precision. -/
def getIntervalColumnSize (atttypmod : ℤ) : ℤ :=
  let ttl :=
    match get_interval_type atttypmod with
    | none => 25
    | some .year | some .month | some .day => 16
    | some .dayToSecond | some .dayToMinute | some .dayToHour => 25
    | some .hourToSecond | some .hourToMinute | some .hour => 17
    | some .minuteToSecond | some .minute => 15
    | some .yearToMonth => 24
    | some .second => 9
  let scale := getIntervalDecimalDigits atttypmod
  wrap 16 (if 0 < scale then ttl + 1 + scale else ttl)

/-! ### The attributes of a column -/

/-- `pgtype_attr_column_size` -/
def pgtype_attr_column_size (conn : SizeSettings) (type : Oid)
    (atttypmod adtsize_or_longest handle_unknown_size_as : ℤ) : ℤ :=
  if type = PG_TYPE_CHAR then 1
  else if type = PG_TYPE_NAME ∨ type = PG_TYPE_REFCURSOR then
    if conn.max_idlen = 0 then 64 else conn.max_idlen
  else if type = PG_TYPE_INT1 then 3
  else if type = PG_TYPE_INT2 then 5
  else if type = PG_TYPE_OID ∨ type = PG_TYPE_XID ∨ type = PG_TYPE_INT4 then 10
  else if type = PG_TYPE_INT8 then 19
  else if type = PG_TYPE_NUMERIC then
    getNumericColumnSizeX atttypmod adtsize_or_longest handle_unknown_size_as
  else if type = PG_TYPE_MONEY then 10
  else if type = PG_TYPE_FLOAT4 then PG_REAL_DIGITS
  else if type = PG_TYPE_FLOAT8 then PG_DOUBLE_DIGITS
  else if type = PG_TYPE_DATE then 10
  else if type = PG_TYPE_TIME then 8
  else if type = PG_TYPE_ABSTIME ∨ type = PG_TYPE_TIMESTAMP then 22
  else if type = PG_TYPE_SMALLDATETIME then 16
  else if type = PG_TYPE_DATETIME ∨ type = PG_TYPE_TIMESTAMP_NO_TMZONE then
    getTimestampColumnSizeX type atttypmod
  else if type = PG_TYPE_BOOL then if conn.bools_as_char then 5 else 1
  else if type = PG_TYPE_MACADDR then 17
  else if type = PG_TYPE_INET ∨ type = PG_TYPE_CIDR then 50
  else if type = PG_TYPE_UUID then 37
  else if type = PG_TYPE_LO_UNDEFINED then SQL_NO_TOTAL
  else if type = PG_TYPE_INTERVAL then getIntervalColumnSize atttypmod
  else if type = conn.lobj_type then SQL_NO_TOTAL
  else if type = PG_TYPE_BYTEA ∧ conn.bytea_as_longvarbinary then SQL_NO_TOTAL
  else getCharColumnSizeX conn type atttypmod adtsize_or_longest handle_unknown_size_as

/-- `pgtype_attr_precision` -/
def pgtype_attr_precision (type : Oid)
    (atttypmod adtsize_or_longest handle_unknown_size_as : ℤ) : ℤ :=
  if type = PG_TYPE_NUMERIC then
    wrap 16 (getNumericColumnSizeX atttypmod adtsize_or_longest handle_unknown_size_as)
  else if type = PG_TYPE_TIME ∨ type = PG_TYPE_DATETIME ∨ type = PG_TYPE_TIMESTAMP_NO_TMZONE then
    getTimestampDecimalDigitsX atttypmod
  else if type = PG_TYPE_INTERVAL then getIntervalDecimalDigits atttypmod
  else -1

/-- `pgtype_attr_display_size`. A numeric column of scale -32768 is a `float(p)` that
`float_as_numeric` has made numeric. -/
def pgtype_attr_display_size (conn : SizeSettings) (type : Oid)
    (atttypmod adtsize_or_longestlen handle_unknown_size_as : ℤ) : ℤ :=
  let scale := getNumericDecimalDigitsX atttypmod adtsize_or_longestlen
  let float_scale := -32768
  if type = PG_TYPE_INT2 then 6
  else if type = PG_TYPE_OID ∨ type = PG_TYPE_XID then 10
  else if type = PG_TYPE_INT4 then 11
  else if type = PG_TYPE_INT1 then 3
  else if type = PG_TYPE_INT8 then 20
  else if type = PG_TYPE_NUMERIC then
    let dsize := getNumericColumnSizeX atttypmod adtsize_or_longestlen handle_unknown_size_as
    if scale < 0 then
      if scale ≠ float_scale then dsize - scale + 2 else adtsize_or_longestlen
    else if dsize < scale then scale + 2
    else if dsize ≤ 0 then dsize else dsize + 2
  else if type = PG_TYPE_MONEY then 15
  else if type = PG_TYPE_FLOAT4 then 1 + PG_REAL_DIGITS + 1 + 1 + 3
  else if type = PG_TYPE_FLOAT8 then 1 + PG_DOUBLE_DIGITS + 1 + 1 + 1 + 3
  else if type = PG_TYPE_MACADDR then 17
  else if type = PG_TYPE_INET ∨ type = PG_TYPE_CIDR then 50
  else if type = PG_TYPE_UUID then 36
  else if type = PG_TYPE_INTERVAL then 30
  else pgtype_attr_column_size conn type atttypmod adtsize_or_longestlen handle_unknown_size_as

/-- `pgtype_attr_decimal_digits` -/
def pgtype_attr_decimal_digits (type : Oid) (atttypmod adtsize_or_longestlen : ℤ) : ℤ :=
  if type = PG_TYPE_INT2 ∨ type = PG_TYPE_OID ∨ type = PG_TYPE_XID ∨ type = PG_TYPE_INT4 ∨
      type = PG_TYPE_INT8 ∨ type = PG_TYPE_FLOAT4 ∨ type = PG_TYPE_FLOAT8 ∨ type = PG_TYPE_MONEY ∨
      type = PG_TYPE_BOOL ∨ type = PG_TYPE_INT1 ∨ type = PG_TYPE_ABSTIME ∨
      type = PG_TYPE_TIMESTAMP ∨ type = PG_TYPE_SMALLDATETIME then 0
  else if type = PG_TYPE_TIME ∨ type = PG_TYPE_DATETIME ∨ type = PG_TYPE_TIMESTAMP_NO_TMZONE then
    getTimestampDecimalDigitsX atttypmod
  else if type = PG_TYPE_NUMERIC then getNumericDecimalDigitsX atttypmod adtsize_or_longestlen
  else if type = PG_TYPE_INTERVAL then getIntervalDecimalDigits atttypmod
  else -1

/-- `pgtype_attr_scale` -/
def pgtype_attr_scale (type : Oid) (atttypmod adtsize_or_longestlen : ℤ) : ℤ :=
  if type = PG_TYPE_NUMERIC then getNumericDecimalDigitsX atttypmod adtsize_or_longestlen else -1

end OdbcDriver.Types
