import Mathlib.Data.List.Range
import OdbcDriver.Lib.Scanf
import OdbcDriver.Types.Typmod

/-!
# The columns of a catalogue

`PGAPI_Columns` fetches one row of the server for each column of the tables that match, ordered by
table, into the same variables each time. Before the first row it takes down what it wants to know
of the table and may put out a row for the `oid`; behind the last one it may put out a row for
`xmin`.

* `ordinals_eq`: the rows are numbered from one to the end of the result;
* `columns_concat_iff`: the result is made up of those for each table alone exactly when there is
  at most one table, and for none of them when no `xmin` is put out.
-/

namespace OdbcDriver.Catalog

open Types

/-- What is said about a type, other than its sizes. -/
structure TypeFunctions where
  pgtype_attr_buffer_length : Oid → ℤ → ℤ
  pgtype_attr_to_concise_type : Oid → ℤ → ℤ
  pgtype_attr_to_sqldesctype : Oid → ℤ → ℤ
  pgtype_attr_to_datetime_sub : Oid → ℤ → ℤ
  pgtype_attr_transfer_octet_length : Oid → ℤ → ℤ
  pgtype_radix : Oid → ℤ
  pgtype_nullable : Oid → ℤ

/-- A call of `PGAPI_Columns`, and the settings of its connection. -/
structure ColumnsCall where
  show_oid_column : Bool
  row_versioning : Bool
  escColumnName : Option (List Byte)
  /-- `CC_fake_mss` -/
  fake_mss : Bool
  /-- `fake_oid_index`, as a number. -/
  fake_oid_index : ℤ
  CurrCat : List Byte
  sizes : SizeSettings
  types : TypeFunctions

/-- The variables that a row of the server is fetched into, and its default expression. -/
structure Fetched where
  table_owner : List Byte
  table_name : List Byte
  field_name : List Byte
  field_type : Oid
  field_type_name : List Byte
  field_number : ℤ
  mod_length : ℤ
  not_null : Byte
  relkind : Byte
  greloid : ℤ
  attdef : Option (List Byte)
  basetype : Oid
  typmod : ℤ
  relhasoids : ℤ
  attidentity : Byte
  relhassubclass : ℤ

/-- A row of the result. -/
structure ColumnRow where
  CATALOG_NAME : List Byte
  SCHEMA_NAME : List Byte
  TABLE_NAME : List Byte
  COLUMN_NAME : List Byte
  DATA_TYPE : ℤ
  TYPE_NAME : List Byte
  PRECISION : ℤ
  LENGTH : ℤ
  SCALE : Option ℤ
  RADIX : Option ℤ
  NULLABLE : ℤ
  REMARKS : List Byte
  COLUMN_DEF : Option (List Byte)
  SQL_DATA_TYPE : ℤ
  SQL_DATETIME_SUB : Option ℤ
  CHAR_OCTET_LENGTH : Option ℤ
  ORDINAL_POSITION : ℕ
  IS_NULLABLE : Option (List Byte)
  DISPLAY_SIZE : ℤ
  FIELD_TYPE : Oid
  AUTO_INCREMENT : Bool
  PHYSICAL_NUMBER : ℤ
  TABLE_OID : ℤ
  BASE_TYPEID : Oid
  ATTTYPMOD : ℤ
  TABLE_INFO : ℕ

/-- `set_nullfield_int2` -/
def nullfield (value : ℤ) : Option ℤ := if value = -1 then none else some value

/-- `SQL_NO_NULLS` -/
def SQL_NO_NULLS : ℤ := 0

/-- `TBINFO_HASOIDS` -/
def TBINFO_HASOIDS : ℕ := 1

/-- `TBINFO_HASSUBCLASS` -/
def TBINFO_HASSUBCLASS : ℕ := 2

/-! ### One row -/

/-- `add_tuple_for_oid_or_xmin` -/
def add_tuple_for_oid_or_xmin (call : ColumnsCall) (row : Fetched) (ordinal : ℕ)
    (colname : List Byte) (the_type : Oid) (typname : List Byte) (attnum : ℤ)
    (auto_increment : Bool) (table_info : ℕ) : ColumnRow where
  CATALOG_NAME := call.CurrCat
  SCHEMA_NAME := row.table_owner
  TABLE_NAME := row.table_name
  COLUMN_NAME := colname
  DATA_TYPE := call.types.pgtype_attr_to_concise_type the_type (-1)
  TYPE_NAME := typname
  PRECISION := pgtype_attr_column_size call.sizes the_type (-1) PG_ADT_UNSET UNKNOWNS_AS_MAX
  LENGTH := call.types.pgtype_attr_buffer_length the_type (-1)
  SCALE := nullfield (pgtype_attr_decimal_digits the_type (-1) PG_ADT_UNSET)
  RADIX := nullfield (call.types.pgtype_radix the_type)
  NULLABLE := SQL_NO_NULLS
  REMARKS := []
  COLUMN_DEF := none
  SQL_DATA_TYPE := call.types.pgtype_attr_to_concise_type the_type (-1)
  SQL_DATETIME_SUB := none
  CHAR_OCTET_LENGTH := none
  ORDINAL_POSITION := ordinal
  IS_NULLABLE := some (ascii "No")
  DISPLAY_SIZE := pgtype_attr_display_size call.sizes the_type (-1) PG_ADT_UNSET UNKNOWNS_AS_MAX
  FIELD_TYPE := the_type
  AUTO_INCREMENT := auto_increment
  PHYSICAL_NUMBER := attnum
  TABLE_OID := row.greloid
  BASE_TYPEID := 0
  ATTTYPMOD := -1
  TABLE_INFO := table_info

/-- The type's name and `auto_unique` of a column. The number of an `oid` may be an identity; other
whole numbers are, by their mark or by their default. -/
def typeName (call : ColumnsCall) (setIdentity : Bool) (row : Fetched) (field_type : Oid) :
    List Byte × Bool :=
  if field_type = PG_TYPE_OID ∧ call.fake_oid_index ≠ 0 then (ascii "identity", true)
  else if (field_type = PG_TYPE_OID ∨ field_type = PG_TYPE_INT4 ∨ field_type = PG_TYPE_INT8) ∧
      ((row.attidentity ≠ 0 ∧ row.attidentity ≠ 0x20) ∨
        (row.attdef.any (fun d => stricmp (d.take 8) (ascii "nextval(")) ∧ row.not_null ≠ 0x30)) then
    if !setIdentity ∧ call.fake_mss then
      ((Scanf.snprintf 32 (row.field_type_name ++ ascii " identity")).1, true)
    else (row.field_type_name, true)
  else (row.field_type_name, false)

/-- The row of a column: the body of the loop. -/
def columnRow (call : ColumnsCall) (setIdentity : Bool) (table_info : ℕ) (row : Fetched)
    (ordinal : ℕ) : ColumnRow :=
  let field_type := pg_true_type call.sizes row.field_type row.basetype
  let mod_length := columnsModLength call.sizes
    ⟨row.field_type, row.mod_length, row.basetype, row.typmod⟩
  let (name, auto_unique) := typeName call setIdentity row field_type
  { CATALOG_NAME := call.CurrCat
    SCHEMA_NAME := row.table_owner
    TABLE_NAME := row.table_name
    COLUMN_NAME := row.field_name
    DATA_TYPE := call.types.pgtype_attr_to_concise_type field_type mod_length
    TYPE_NAME := name
    PRECISION :=
      pgtype_attr_column_size call.sizes field_type mod_length PG_ADT_UNSET UNKNOWNS_AS_MAX
    LENGTH := call.types.pgtype_attr_buffer_length field_type mod_length
    SCALE := nullfield (pgtype_attr_decimal_digits field_type mod_length PG_ADT_UNSET)
    RADIX := nullfield (call.types.pgtype_radix field_type)
    NULLABLE :=
      if row.not_null ≠ 0x30 then SQL_NO_NULLS else call.types.pgtype_nullable field_type
    REMARKS := []
    COLUMN_DEF := row.attdef.map fun d => if 254 < d.length then ascii "TRUNCATE" else d
    SQL_DATA_TYPE := call.types.pgtype_attr_to_sqldesctype field_type mod_length
    SQL_DATETIME_SUB := nullfield (call.types.pgtype_attr_to_datetime_sub field_type mod_length)
    CHAR_OCTET_LENGTH :=
      some (call.types.pgtype_attr_transfer_octet_length field_type mod_length)
    ORDINAL_POSITION := ordinal
    IS_NULLABLE := none
    DISPLAY_SIZE :=
      pgtype_attr_display_size call.sizes field_type mod_length PG_ADT_UNSET UNKNOWNS_AS_MAX
    FIELD_TYPE := field_type
    AUTO_INCREMENT := auto_unique
    PHYSICAL_NUMBER := row.field_number
    TABLE_OID := row.greloid
    BASE_TYPEID := row.basetype
    ATTTYPMOD := mod_length
    TABLE_INFO := table_info }

/-! ### The whole result -/

/-- The loop over the rows of the server. -/
def columnRows (call : ColumnsCall) (setIdentity : Bool) (table_info : ℕ) :
    List Fetched → ℕ → List ColumnRow
  | [], _ => []
  | row :: rows, ordinal =>
    columnRow call setIdentity table_info row ordinal ::
      columnRows call setIdentity table_info rows (ordinal + 1)

/-- The `oid` of the first table is to be shown. -/
def showsOid (call : ColumnsCall) (first : Fetched) : Bool :=
  first.relkind ≠ 0x76 && first.relhasoids ≠ 0 &&
    (call.show_oid_column || (ascii "pg_").isPrefixOf first.table_name) &&
    (call.escColumnName = none || call.escColumnName = some (ascii "oid"))

/-- `xmin` is to be shown, where `relisaview` was read from `first`. -/
def showsXmin (call : ColumnsCall) (first : Fetched) : Bool :=
  first.relkind ≠ 0x76 && call.row_versioning &&
    (call.escColumnName = none || call.escColumnName = some (ascii "xmin"))

/-- `table_info` -/
def tableInfo (first : Fetched) : ℕ :=
  (if first.relhasoids ≠ 0 then TBINFO_HASOIDS else 0) +
    if first.relhassubclass ≠ 0 then TBINFO_HASSUBCLASS else 0

/-- `PGAPI_Columns`. The variables hold `vars` before the first row, and what was fetched last
after the last one; where there is no row, nothing is taken down of a table. -/
def PGAPI_Columns (call : ColumnsCall) (vars : Fetched) (rows : List Fetched) : List ColumnRow :=
  let first := rows.head?.getD vars
  let last := rows.getLast?.getD vars
  let table_info := if rows.isEmpty then 0 else tableInfo first
  let oid := !rows.isEmpty && showsOid call first
  let setIdentity := oid && call.fake_mss
  let oidRow :=
    if oid then
      [add_tuple_for_oid_or_xmin call first 1 (ascii "oid") PG_TYPE_OID
        (if call.fake_mss then ascii "OID identity" else ascii "oid") (-2) true table_info]
    else []
  let columns := columnRows call setIdentity table_info rows (1 + oidRow.length)
  let xminRow :=
    if showsXmin call first then
      [add_tuple_for_oid_or_xmin call last (1 + oidRow.length + columns.length) (ascii "xmin")
        PG_TYPE_XID (ascii "xid") (-3) false table_info]
    else []
  oidRow ++ columns ++ xminRow

/-- A table that matches: the rows of the server for its columns, one at least. -/
structure MatchedTable where
  rows : List Fetched
  rows_ne_nil : rows ≠ []

variable {call : ColumnsCall} {vars : Fetched} {rows : List Fetched} {table_info : ℕ}
  {setIdentity : Bool}

theorem columnRows_ordinals (n : ℕ) :
    (columnRows call setIdentity table_info rows n).map ColumnRow.ORDINAL_POSITION =
      List.range' n rows.length := by
  induction rows generalizing n with
  | nil => rfl
  | cons row rows ih =>
    rw [columnRows, List.map_cons, ih, List.length_cons, List.range'_succ]
    rfl

theorem length_columnRows (n : ℕ) :
    (columnRows call setIdentity table_info rows n).length = rows.length := by
  have hlen := congrArg List.length (@columnRows_ordinals call rows table_info setIdentity n)
  simpa using hlen

/-- The rows of a result are numbered one after the other from one on. -/
theorem ordinals_eq (call : ColumnsCall) (vars : Fetched) (rows : List Fetched) :
    (PGAPI_Columns call vars rows).map ColumnRow.ORDINAL_POSITION =
      List.range' 1 (PGAPI_Columns call vars rows).length := by
  unfold PGAPI_Columns
  dsimp only
  generalize (!rows.isEmpty && showsOid call (rows.head?.getD vars)) = oid
  generalize showsXmin call (rows.head?.getD vars) = xmin
  rw [List.map_append, List.map_append, columnRows_ordinals, List.length_append, List.length_append,
    length_columnRows, ← List.range'_append_1, ← List.range'_append_1]
  congr 1
  · congr 1
    cases oid <;> rfl
  · cases xmin
    · rfl
    · simp only [if_true, List.map_cons, List.map_nil, List.length_cons, List.length_nil,
        List.range'_one, Nat.zero_add]
      rw [add_assoc]
      rfl

/-- A result for some rows does not depend on what the variables held before. -/
theorem columns_of_rows (hrows : rows ≠ []) (vars vars' : Fetched) :
    PGAPI_Columns call vars rows = PGAPI_Columns call vars' rows := by
  obtain ⟨row, rest, rfl⟩ := List.exists_cons_of_ne_nil hrows
  have hlast : ∀ vars, (row :: rest).getLast?.getD vars = (row :: rest).getLast hrows := by
    intro vars
    rw [List.getLast?_eq_some_getLast hrows, Option.getD_some]
  unfold PGAPI_Columns
  rw [hlast, hlast]
  rfl

theorem columns_ne_nil (hrows : rows ≠ []) (vars : Fetched) :
    PGAPI_Columns call vars rows ≠ [] := by
  intro h
  have hlen := congrArg List.length h
  have hpos := List.length_pos_of_ne_nil hrows
  simp only [PGAPI_Columns, List.length_append, length_columnRows, List.length_nil] at hlen
  omega

/-- Two numberings in one list: the second does not begin again. -/
theorem not_renumbered {a b c : List ColumnRow} (ha : a ≠ []) (hb : b ≠ [])
    (hb1 : b.map ColumnRow.ORDINAL_POSITION = List.range' 1 b.length)
    (h : (a ++ (b ++ c)).map ColumnRow.ORDINAL_POSITION =
      List.range' 1 (a ++ (b ++ c)).length) : False := by
  have hapos := List.length_pos_of_ne_nil ha
  obtain ⟨row, rest, rfl⟩ := List.exists_cons_of_ne_nil hb
  have hrow : row.ORDINAL_POSITION = 1 := by
    rw [List.map_cons, List.length_cons, List.range'_succ] at hb1
    exact (List.cons.inj hb1).1
  have hat := congrArg (fun l => l[a.length]?) h
  simp only [List.map_append, List.map_cons, List.cons_append] at hat
  rw [List.getElem?_append_right (by simp), List.getElem?_range' (by simp)] at hat
  simp only [List.length_map, Nat.sub_self, List.getElem?_cons_zero, hrow,
    Option.some.injEq] at hat
  omega

/-- The result is made up of the results for each table alone, whatever the variables hold at the
start of each call, exactly when at most one table matches; and where none does, when no row for
`xmin` is put out of the variables as they were. -/
theorem columns_concat_iff (call : ColumnsCall) (vars : Fetched) (alone : MatchedTable → Fetched)
    (tables : List MatchedTable) :
    PGAPI_Columns call vars (tables.flatMap MatchedTable.rows) =
        tables.flatMap (fun t => PGAPI_Columns call (alone t) t.rows) ↔
      tables.length ≤ 1 ∧ (tables = [] → showsXmin call vars = false) := by
  match tables with
  | [] =>
    simp only [List.flatMap_nil, List.length_nil, Nat.zero_le, true_and, forall_const]
    cases hxmin : showsXmin call vars <;>
      simp [PGAPI_Columns, columnRows, hxmin]
  | [t] =>
    refine iff_of_true ?_ ⟨Nat.le_refl _, fun h => by cases h⟩
    simpa using columns_of_rows t.rows_ne_nil vars (alone t)
  | t :: u :: rest =>
    refine iff_of_false (fun h => ?_) (fun h => by simp at h)
    have hordinals := ordinals_eq call vars ((t :: u :: rest).flatMap MatchedTable.rows)
    rw [h, List.flatMap_cons, List.flatMap_cons] at hordinals
    exact not_renumbered (columns_ne_nil t.rows_ne_nil _) (columns_ne_nil u.rows_ne_nil _)
      (ordinals_eq call _ u.rows) hordinals

/-- A call without options. -/
def sampleCall : ColumnsCall where
  show_oid_column := false
  row_versioning := false
  escColumnName := none
  fake_mss := false
  fake_oid_index := 0
  CurrCat := ascii "db"
  sizes := sampleSettings
  types := ⟨fun _ _ => 0, fun _ _ => 0, fun _ _ => 0, fun _ _ => 0, fun _ _ => 0, fun _ => 0,
    fun _ => 0⟩

/-- The row of a column `id integer` of an ordinary table. -/
def sampleFetched (table : String) : Fetched :=
  ⟨ascii "public", ascii table, ascii "id", PG_TYPE_INT4, ascii "int4", 1, -1, 0x31, 0x72, 16400,
    none, 0, -1, 0, 0x20, 0⟩

/-- Two tables `a` and `b` with one column each: the column of `b` is the second of the result, and
the first of the result for `b` alone. -/
theorem columns_two_tables :
    (PGAPI_Columns sampleCall (sampleFetched "") [sampleFetched "a", sampleFetched "b"]).map
        ColumnRow.ORDINAL_POSITION = [1, 2] ∧
    (PGAPI_Columns sampleCall (sampleFetched "") [sampleFetched "a"] ++
      PGAPI_Columns sampleCall (sampleFetched "") [sampleFetched "b"]).map
        ColumnRow.ORDINAL_POSITION = [1, 1] :=
  ⟨rfl, rfl⟩

end OdbcDriver.Catalog
