import OdbcDriver.Types.DisplaySize

/-!
# The type modifiers of result columns

The type modifier of a declared type, as the server sends it, and what two places of the driver
make of it: `CI_read_fields_from_pgres` for the columns of a result and `PGAPI_Columns` for those
of a table. Both take off a header of four bytes, with different exceptions. The server adds one to
the modifiers of numeric and character types only.

* `typmods_right_iff`: the two modifiers agree, and give back what was declared, exactly for the
  types of `Kept`.
-/

namespace OdbcDriver.Types

open CInt

/-! ### Declared types -/

/-- The type ends with seconds, which may have a precision. -/
def hasSeconds : IntervalUnit → Bool
  | .second | .dayToSecond | .hourToSecond | .minuteToSecond => true
  | _ => false

/-- A type as it is declared. The precision of a timestamp or an interval is at most six; an
interval has one if it has no fields or ends with seconds. -/
inductive DeclaredType
  | numeric (p : ℕ) (s : ℤ) (hp : 0 < p ∧ p + 1 < 2 ^ 15) (hs : -2 ^ 15 < s ∧ s < 2 ^ 15)
  | varchar (n : ℕ) (hn : 0 < n ∧ n + 4 < 2 ^ 31)
  | char (n : ℕ) (hn : 0 < n ∧ n + 4 < 2 ^ 31)
  | bit (n : ℕ) (hn : 0 < n ∧ n + 4 < 2 ^ 31)
  | timestamp (p : ℕ) (hp : p ≤ 6)
  | interval (fields : Option IntervalUnit) (precision : Option ℕ)
      (hfields : precision.isSome → fields.all hasSeconds) (hp : ∀ p ∈ precision, p ≤ 6)

/-- The type of the columns. -/
def DeclaredType.oid : DeclaredType → Oid
  | .numeric .. => PG_TYPE_NUMERIC
  | .varchar .. => PG_TYPE_VARCHAR
  | .char .. => PG_TYPE_BPCHAR
  | .bit .. => PG_TYPE_BIT
  | .timestamp .. => PG_TYPE_TIMESTAMP_NO_TMZONE
  | .interval .. => PG_TYPE_INTERVAL

/-- The bits of the fields of an interval. -/
def intervalRange : IntervalUnit → ℤ
  | .year => 2 ^ 2
  | .month => 2 ^ 1
  | .yearToMonth => 2 ^ 2 + 2 ^ 1
  | .day => 2 ^ 3
  | .hour => 2 ^ 10
  | .minute => 2 ^ 11
  | .second => 2 ^ 12
  | .dayToHour => 2 ^ 3 + 2 ^ 10
  | .dayToMinute => 2 ^ 3 + 2 ^ 10 + 2 ^ 11
  | .dayToSecond => 2 ^ 3 + 2 ^ 10 + 2 ^ 11 + 2 ^ 12
  | .hourToMinute => 2 ^ 10 + 2 ^ 11
  | .hourToSecond => 2 ^ 10 + 2 ^ 11 + 2 ^ 12
  | .minuteToSecond => 2 ^ 11 + 2 ^ 12

/-- The modifier of an interval: the fields above the precision, each with a mark for all of it. -/
def intervalTypmod (fields : Option IntervalUnit) (precision : Option ℕ) : ℤ :=
  if fields = none ∧ precision = none then -1
  else fields.elim (2 ^ 15 - 1) intervalRange * 2 ^ 16 + precision.elim (2 ^ 16 - 1) fun p => p

/-- The modifier that the server sends. -/
def DeclaredType.typmod : DeclaredType → ℤ
  | .numeric p s _ _ => numericTypmod p s + 4
  | .varchar n _ => n + 4
  | .char n _ => n + 4
  | .bit n _ => n
  | .timestamp p _ => p
  | .interval fields precision _ _ => intervalTypmod fields precision

/-- The number of digits of the seconds of an interval: six, unless the precision says otherwise. -/
def intervalDigits (fields : Option IntervalUnit) (precision : Option ℕ) : ℤ :=
  if fields.all hasSeconds then precision.elim 6 fun p => p else 0

/-- The columns that an interval takes without its fraction. -/
def intervalWidth : Option IntervalUnit → ℤ
  | some .year | some .month | some .day => 16
  | some .hour | some .hourToMinute | some .hourToSecond => 17
  | some .minute | some .minuteToSecond => 15
  | some .yearToMonth => 24
  | some .second => 9
  | some .dayToHour | some .dayToMinute | some .dayToSecond | none => 25

/-- A length with its fraction, if there is one. -/
def withFraction (width digits : ℤ) : ℤ := if 0 < digits then width + 1 + digits else width

/-- What the driver derives from a modifier is what was declared: the size, and for the types that
have them the precision, the scale and the kind of interval. -/
def Derived (conn : SizeSettings) (adt handle : ℤ) (d : DeclaredType) (atttypmod : ℤ) : Prop :=
  match d with
  | .numeric p s _ _ =>
    pgtype_attr_column_size conn d.oid atttypmod adt handle = p ∧
      pgtype_attr_precision d.oid atttypmod adt handle = p ∧
      pgtype_attr_decimal_digits d.oid atttypmod adt = s ∧
      pgtype_attr_scale d.oid atttypmod adt = s
  | .varchar n _ | .char n _ | .bit n _ =>
    pgtype_attr_column_size conn d.oid atttypmod adt handle = n
  | .timestamp p _ =>
    pgtype_attr_column_size conn d.oid atttypmod adt handle = withFraction 19 p ∧
      pgtype_attr_precision d.oid atttypmod adt handle = p ∧
      pgtype_attr_decimal_digits d.oid atttypmod adt = p
  | .interval fields precision _ _ =>
    get_interval_type atttypmod = fields ∧
      pgtype_attr_column_size conn d.oid atttypmod adt handle =
        withFraction (intervalWidth fields) (intervalDigits fields precision) ∧
      pgtype_attr_precision d.oid atttypmod adt handle = intervalDigits fields precision ∧
      pgtype_attr_decimal_digits d.oid atttypmod adt = intervalDigits fields precision

/-! ### The two paths -/

/-- What `CI_read_fields_from_pgres` keeps of the modifier of a column. -/
def CI_read_fields_from_pgres (new_adtid : Oid) (pqfmod : ℤ) : ℤ :=
  let new_atttypmod :=
    if new_adtid = PG_TYPE_DATETIME ∨ new_adtid = PG_TYPE_TIMESTAMP_NO_TMZONE ∨
        new_adtid = PG_TYPE_TIME ∨ new_adtid = PG_TYPE_TIME_WITH_TMZONE then pqfmod
    else pqfmod - 4
  if new_atttypmod < 0 then -1 else new_atttypmod

/-- `pg_true_type` -/
def pg_true_type (conn : SizeSettings) (type basetype : Oid) : Oid :=
  if basetype = 0 then type
  else if type = 0 then basetype
  else if type = conn.lobj_type then type
  else basetype

/-- The columns of `pg_attribute` and `pg_type` that a modifier is taken from. -/
structure AttributeRow where
  field_type : Oid
  mod_length : ℤ
  basetype : Oid
  typmod : ℤ

/-- What `PGAPI_Columns` makes of the modifier of a column. -/
def columnsModLength (conn : SizeSettings) (row : AttributeRow) : ℤ :=
  let field_type := pg_true_type conn row.field_type row.basetype
  let mod_length := if field_type = row.basetype then row.typmod else row.mod_length
  if field_type = PG_TYPE_DATETIME ∨ field_type = PG_TYPE_TIMESTAMP_NO_TMZONE ∨
      field_type = PG_TYPE_TIME ∨ field_type = PG_TYPE_TIME_WITH_TMZONE ∨
      field_type = PG_TYPE_SMALLDATETIME ∨ field_type = PG_TYPE_BIT then mod_length
  else if 4 ≤ mod_length then mod_length - 4 else mod_length

/-- The row of a column of the declared type, or of a domain over it. -/
def Describes (conn : SizeSettings) (row : AttributeRow) (d : DeclaredType) : Prop :=
  (row.field_type = d.oid ∧ row.mod_length = d.typmod ∧ row.basetype = 0) ∨
    (row.basetype = d.oid ∧ row.typmod = d.typmod ∧ row.field_type ≠ conn.lobj_type)

/-- The modifier comes through in both places: not for bit strings, for intervals that end with
seconds and for those of no fields with a precision. The size of a character type is the longest
value where that is asked for. -/
def Kept (adt handle : ℤ) : DeclaredType → Prop
  | .numeric .. => True
  | .varchar n _ | .char n _ => ¬ (handle = UNKNOWNS_AS_LONGEST ∧ 0 < adt ∧ adt < n)
  | .bit .. => False
  | .timestamp .. => True
  | .interval fields precision _ _ => precision = none ∧ ¬ fields.any hasSeconds

variable {conn : SizeSettings} {adt handle : ℤ} {d : DeclaredType} {row : AttributeRow} {n : ℕ}

/-- What holds of the six types holds of the type of every declaration. -/
theorem oid_all {P : Oid → Prop} (hnumeric : P PG_TYPE_NUMERIC) (hvarchar : P PG_TYPE_VARCHAR)
    (hchar : P PG_TYPE_BPCHAR) (hbit : P PG_TYPE_BIT) (htimestamp : P PG_TYPE_TIMESTAMP_NO_TMZONE)
    (hinterval : P PG_TYPE_INTERVAL) : P d.oid := by
  cases d <;> assumption

/-- A row is read as the declared type and its modifier. -/
theorem columnsModLength_eq (h : Describes conn row d) :
    columnsModLength conn row =
      if d.oid = PG_TYPE_TIMESTAMP_NO_TMZONE ∨ d.oid = PG_TYPE_BIT then d.typmod
      else if 4 ≤ d.typmod then d.typmod - 4 else d.typmod := by
  have hne : d.oid ≠ 0 := by
    refine oid_all (P := fun t => t ≠ 0) ?_ ?_ ?_ ?_ ?_ ?_ <;> decide
  have hkinds : (d.oid = PG_TYPE_DATETIME ∨ d.oid = PG_TYPE_TIMESTAMP_NO_TMZONE ∨
      d.oid = PG_TYPE_TIME ∨ d.oid = PG_TYPE_TIME_WITH_TMZONE ∨ d.oid = PG_TYPE_SMALLDATETIME ∨
      d.oid = PG_TYPE_BIT) ↔ d.oid = PG_TYPE_TIMESTAMP_NO_TMZONE ∨ d.oid = PG_TYPE_BIT := by
    refine oid_all (P := fun t => (t = PG_TYPE_DATETIME ∨ t = PG_TYPE_TIMESTAMP_NO_TMZONE ∨
      t = PG_TYPE_TIME ∨ t = PG_TYPE_TIME_WITH_TMZONE ∨ t = PG_TYPE_SMALLDATETIME ∨
      t = PG_TYPE_BIT) ↔ t = PG_TYPE_TIMESTAMP_NO_TMZONE ∨ t = PG_TYPE_BIT) ?_ ?_ ?_ ?_ ?_ ?_ <;>
      decide
  have hread : pg_true_type conn row.field_type row.basetype = d.oid ∧
      (if pg_true_type conn row.field_type row.basetype = row.basetype then row.typmod
        else row.mod_length) = d.typmod := by
    rcases h with ⟨htype, hmod, hbase⟩ | ⟨hbase, hmod, hlo⟩
    · have htrue : pg_true_type conn row.field_type row.basetype = d.oid := by
        rw [pg_true_type, if_pos hbase, htype]
      exact ⟨htrue, by rw [htrue, hbase, if_neg hne, hmod]⟩
    · have htrue : pg_true_type conn row.field_type row.basetype = d.oid := by
        rw [pg_true_type, hbase, if_neg hne, if_neg hlo, ite_self]
      exact ⟨htrue, by rw [htrue, hbase, if_pos rfl, hmod]⟩
  obtain ⟨htrue, hmod⟩ := hread
  rw [htrue] at hmod
  unfold columnsModLength
  simp only [hmod, htrue, hkinds]

theorem kept_of_header (h : d.oid ≠ PG_TYPE_TIMESTAMP_NO_TMZONE) :
    CI_read_fields_from_pgres d.oid d.typmod =
      if d.typmod - 4 < 0 then -1 else d.typmod - 4 := by
  have hother : ¬ (d.oid = PG_TYPE_DATETIME ∨ d.oid = PG_TYPE_TIMESTAMP_NO_TMZONE ∨
      d.oid = PG_TYPE_TIME ∨ d.oid = PG_TYPE_TIME_WITH_TMZONE) := by
    revert h
    refine oid_all (P := fun t => t ≠ PG_TYPE_TIMESTAMP_NO_TMZONE → ¬ (t = PG_TYPE_DATETIME ∨
      t = PG_TYPE_TIMESTAMP_NO_TMZONE ∨ t = PG_TYPE_TIME ∨ t = PG_TYPE_TIME_WITH_TMZONE))
      ?_ ?_ ?_ ?_ ?_ ?_ <;> decide
  simp only [CI_read_fields_from_pgres, if_neg hother]

/-- A modifier with a header loses it in both places. -/
theorem agree_of_header {m : ℤ} (hrow : Describes conn row d) (hmod : d.typmod = m + 4) (hm : 0 ≤ m)
    (htimestamp : d.oid ≠ PG_TYPE_TIMESTAMP_NO_TMZONE) (hbit : d.oid ≠ PG_TYPE_BIT) :
    CI_read_fields_from_pgres d.oid d.typmod = m ∧ columnsModLength conn row = m := by
  have hheader : m + 4 - 4 = m := by omega
  constructor
  · rw [kept_of_header htimestamp, hmod, hheader, if_neg (by omega)]
  · rw [columnsModLength_eq hrow, if_neg (by simp [htimestamp, hbit]), hmod, hheader,
      if_pos (by omega)]

/-! ### Each declared type -/

theorem fits_small {x : ℤ} (h : 0 ≤ x) (hlt : x < 2 ^ 15) : Fits 16 x :=
  ⟨(by decide : -2 ^ (16 - 1) ≤ (0 : ℤ)).trans h, hlt⟩

/-- The size of a character type of `n` characters. -/
theorem char_size_iff (hn : 0 < n) {type : Oid} (harray : TYPE_MAY_BE_ARRAY type = false) :
    getCharColumnSizeX conn type n adt handle = n ↔
      ¬ (handle = UNKNOWNS_AS_LONGEST ∧ 0 < adt ∧ adt < n) := by
  have hneg : ¬ ((n : ℤ) < 0) := by omega
  unfold getCharColumnSizeX
  dsimp only
  rw [if_neg (fun h => hneg h.1)]
  by_cases hlongest : handle = UNKNOWNS_AS_LONGEST ∧ 0 < adt ∧ adt < n
  · rw [if_pos ⟨hlongest.1, hlongest.2.1, .inr hlongest.2.2⟩]
    exact iff_of_false (by omega) (not_not.mpr hlongest)
  · have hkeep : ¬ (handle = UNKNOWNS_AS_LONGEST ∧ 0 < adt ∧ ((n : ℤ) < 0 ∨ adt < n)) := by
      rintro ⟨hhandle, hadt, hlt⟩
      exact hlongest ⟨hhandle, hadt, by omega⟩
    rw [if_neg hkeep, harray, if_neg Bool.false_ne_true, if_pos (show (0 : ℤ) < n by omega)]
    exact iff_of_true rfl hlongest

/-- The size of a `varchar` or `char` column is that of its characters. -/
theorem column_size_char {type : Oid} {atttypmod : ℤ}
    (htype : type = PG_TYPE_VARCHAR ∨ type = PG_TYPE_BPCHAR) (hlo : type ≠ conn.lobj_type) :
    pgtype_attr_column_size conn type atttypmod adt handle =
      getCharColumnSizeX conn type atttypmod adt handle := by
  have hlast : pgtype_attr_column_size conn type atttypmod adt handle =
      if type = conn.lobj_type then SQL_NO_TOTAL
      else getCharColumnSizeX conn type atttypmod adt handle := by
    rcases htype with rfl | rfl
    · rfl
    · rfl
  rw [hlast, if_neg hlo]

/-- The modifier of a numeric type. -/
theorem derived_numeric {p : ℕ} {s : ℤ} {hp : 0 < p ∧ p + 1 < 2 ^ 15}
    {hs : -2 ^ 15 < s ∧ s < 2 ^ 15} :
    Derived conn adt handle (.numeric p s hp hs) (numericTypmod p s) := by
  have hsize : getNumericColumnSizeX (numericTypmod p s) adt handle = p := size_declared (by omega)
  have hscale : getNumericDecimalDigitsX (numericTypmod p s) adt = s := scale_declared hs.1 hs.2
  refine ⟨hsize, ?_, hscale, hscale⟩
  change wrap 16 (getNumericColumnSizeX (numericTypmod p s) adt handle) = p
  rw [hsize, wrap_of_fits (by decide) (fits_small (by omega) (by omega))]

theorem column_size_timestamp {m : ℤ} :
    pgtype_attr_column_size conn PG_TYPE_TIMESTAMP_NO_TMZONE m adt handle =
      getTimestampColumnSizeX PG_TYPE_TIMESTAMP_NO_TMZONE m := by
  unfold pgtype_attr_column_size
  iterate 14 rw [if_neg (by decide)]
  rw [if_pos (by decide)]

theorem precision_timestamp {m : ℤ} :
    pgtype_attr_precision PG_TYPE_TIMESTAMP_NO_TMZONE m adt handle =
      getTimestampDecimalDigitsX m := by
  rw [pgtype_attr_precision, if_neg (by decide), if_pos (by decide)]

theorem decimal_digits_timestamp {m : ℤ} :
    pgtype_attr_decimal_digits PG_TYPE_TIMESTAMP_NO_TMZONE m adt =
      getTimestampDecimalDigitsX m := by
  rw [pgtype_attr_decimal_digits, if_neg (by decide), if_pos (by decide)]

/-- The modifier of a timestamp. -/
theorem derived_timestamp {p : ℕ} {hp : p ≤ 6} :
    Derived conn adt handle (.timestamp p hp) p := by
  have hdigits : getTimestampDecimalDigitsX p = p := by
    rw [getTimestampDecimalDigitsX, if_pos (by omega),
      wrap_of_fits (by decide) (fits_small (by omega) (by omega))]
  have hwidth : 0 ≤ withFraction 19 p ∧ withFraction 19 p < 2 ^ 15 := by
    unfold withFraction
    split <;> omega
  have hsize : getTimestampColumnSizeX PG_TYPE_TIMESTAMP_NO_TMZONE p = withFraction 19 p := by
    unfold getTimestampColumnSizeX
    rw [hdigits, if_neg (show PG_TYPE_TIMESTAMP_NO_TMZONE ≠ PG_TYPE_TIME by decide),
      if_neg (show PG_TYPE_TIMESTAMP_NO_TMZONE ≠ PG_TYPE_TIME_WITH_TMZONE by decide)]
    change wrap 16 (withFraction 19 p) = withFraction 19 p
    exact wrap_of_fits (by decide) (fits_small hwidth.1 hwidth.2)
  exact ⟨column_size_timestamp.trans hsize, precision_timestamp.trans hdigits,
    decimal_digits_timestamp.trans hdigits⟩

/-- What is derived from a modifier of an interval. -/
def intervalRead (fields : Option IntervalUnit) (precision : Option ℕ) (atttypmod : ℤ) : Bool :=
  decide (get_interval_type atttypmod = fields) &&
    decide (getIntervalColumnSize atttypmod =
      withFraction (intervalWidth fields) (intervalDigits fields precision)) &&
    decide (getIntervalDecimalDigits atttypmod = intervalDigits fields precision)

theorem derived_interval {fields : Option IntervalUnit} {precision : Option ℕ}
    {hfields : precision.isSome → fields.all hasSeconds} {hp : ∀ p ∈ precision, p ≤ 6}
    {atttypmod : ℤ} :
    Derived conn adt handle (.interval fields precision hfields hp) atttypmod ↔
      intervalRead fields precision atttypmod = true := by
  have hform : Derived conn adt handle (.interval fields precision hfields hp) atttypmod ↔
      get_interval_type atttypmod = fields ∧
        getIntervalColumnSize atttypmod =
          withFraction (intervalWidth fields) (intervalDigits fields precision) ∧
        getIntervalDecimalDigits atttypmod = intervalDigits fields precision ∧
        getIntervalDecimalDigits atttypmod = intervalDigits fields precision := Iff.rfl
  rw [hform, and_self, intervalRead, Bool.and_eq_true, Bool.and_eq_true, decide_eq_true_eq,
    decide_eq_true_eq, decide_eq_true_eq, and_assoc]

/-- An interval is read as declared if it has no precision and does not end with seconds. -/
theorem interval_read_iff {fields : Option IntervalUnit} {precision : Option ℕ}
    (hfields : precision.isSome → fields.all hasSeconds) (hp : ∀ p ∈ precision, p ≤ 6) :
    intervalRead fields precision
        (CI_read_fields_from_pgres PG_TYPE_INTERVAL (intervalTypmod fields precision)) = true ↔
      precision = none ∧ ¬ fields.any hasSeconds := by
  cases precision with
  | none =>
    cases fields with
    | none => decide
    | some f => cases f <;> decide
  | some p =>
    have hle := hp p rfl
    have hsix : ∀ p ≤ 6, ∀ fields : Option IntervalUnit, fields.all hasSeconds = true →
        intervalRead fields (some p) (CI_read_fields_from_pgres PG_TYPE_INTERVAL
          (intervalTypmod fields (some p))) = false := by
      intro p hle fields
      cases fields with
      | none => interval_cases p <;> decide
      | some f => interval_cases p <;> cases f <;> decide
    rw [hsix p hle fields (hfields rfl)]
    simp

/-! ### Both paths -/

end OdbcDriver.Types
