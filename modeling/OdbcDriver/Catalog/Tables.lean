import Mathlib.Data.List.Basic
import OdbcDriver.Encoding.Ascii

/-!
# The tables of a catalogue

`PGAPI_Tables` asks the server for the relations whose names match and returns those of the
requested types, each with the type it is reported under. Three chains of conditions take part: the
list of requested types is read into one flag for each type, a relation is selected by the flags,
and a relation is given a type.

The relations are the rows of the server in its order. The calls that list the catalogs, the
schemas or the table types themselves are left out.
-/

namespace OdbcDriver.Catalog

/-- The types of `TABLE_TYPE`. -/
inductive TableType
  | sysTable
  | table
  | view
  | foreignTable
  | matview
deriving DecidableEq, Repr

/-- `CSTR_SYS_TABLE`, `CSTR_TABLE`, `CSTR_VIEW`, `CSTR_FOREIGN_TABLE` and `CSTR_MATVIEW`. -/
def TableType.cstr : TableType → List Byte
  | .sysTable => ascii "SYSTEM TABLE"
  | .table => ascii "TABLE"
  | .view => ascii "VIEW"
  | .foreignTable => ascii "FOREIGN TABLE"
  | .matview => ascii "MATVIEW"

/-- A relation in the catalogue of the server. -/
structure Relation where
  relname : List Byte
  nspname : List Byte
  relkind : Byte

/-- A row of the result. -/
structure TableRow where
  TABLE_CAT : List Byte
  TABLE_SCHEM : List Byte
  TABLE_NAME : List Byte
  TABLE_TYPE : List Byte
  REMARKS : List Byte

/-- The settings of the connection. -/
structure TableSettings where
  /-- `show_system_tables`, as a number. -/
  show_system_tables : ℤ
  extra_systable_prefixes : List Byte
  CurrCat : List Byte

/-- `strtok` with one delimiter, called until there is no token left. -/
def strtok (delim : Byte) (s : List Byte) : List (List Byte) :=
  (s.splitOn delim).filter fun token => !token.isEmpty

/-- `strnicmp` with the length of `t` finds no difference. -/
def strnicmp (s t : List Byte) : Bool := stricmp (s.take t.length) t

/-! ### The requested types -/

/-- The type that an item of the list asks for. -/
def typeOfItem (item : List Byte) : Option TableType :=
  let typestr := item.dropWhile isSpace
  let typestr := if typestr.head? = some 0x27 then typestr.tail else typestr
  if strnicmp typestr (TableType.cstr .sysTable) then some .sysTable
  else if strnicmp typestr (TableType.cstr .table) then some .table
  else if strnicmp typestr (TableType.cstr .view) then some .view
  else if strnicmp typestr (TableType.cstr .foreignTable) then some .foreignTable
  else if strnicmp typestr (TableType.cstr .matview) then some .matview
  else none

/-- `show_system_tables`, `show_regular_tables`, `show_views`, `show_foreign_tables` and
`show_matviews`, after the list has been read. -/
def shows (tableType : Option (List Byte)) (t : TableType) : Bool :=
  match tableType with
  | none => t ≠ .sysTable
  | some list =>
    if stricmp list (ascii "%") then t ≠ .sysTable
    else (strtok 0x2c list).any fun item => typeOfItem item = some t

/-! ### The query -/

/-- `TABLE_IN_RELKIND` -/
def TABLE_IN_RELKIND : List Byte := ascii "rvmfp"

/-- The schemas that the query leaves out when system tables are not of interest. -/
def systemSchemas : List (List Byte) :=
  [ascii "pg_catalog", ascii "information_schema", ascii "pg_toast", ascii "pg_temp_1"]

/-- The condition of the query. `found` says which relations the names match, and which the user
may read where only these are listed. -/
def inQuery (settings : TableSettings) (tableType : Option (List Byte)) (found : Relation → Bool)
    (r : Relation) : Bool :=
  TABLE_IN_RELKIND.contains r.relkind && found r &&
    (settings.show_system_tables ≠ 0 || shows tableType .sysTable ||
      !systemSchemas.contains r.nspname)

/-! ### The relations that are found -/

/-- `prefix` -/
def prefixes (settings : TableSettings) : List (List Byte) :=
  (strtok 0x3b settings.extra_systable_prefixes).take 32

/-- `systable` -/
def systable (settings : TableSettings) (r : Relation) : Bool :=
  settings.show_system_tables = 0 &&
    (stricmp r.nspname (ascii "pg_catalog") || stricmp r.nspname (ascii "pg_toast") ||
      strnicmp r.nspname (ascii "pg_temp_") || stricmp r.nspname (ascii "information_schema") ||
      (prefixes settings).any fun p => p.isPrefixOf r.relname)

/-- `view` -/
def view (r : Relation) : Bool := r.relkind = 0x76

/-- `foreign_table` -/
def foreign_table (r : Relation) : Bool := r.relkind = 0x66

/-- `matview` -/
def matview (r : Relation) : Bool := r.relkind = 0x6d

/-- `regular_table` -/
def regular_table (settings : TableSettings) (r : Relation) : Bool := !systable settings r && !view r

/-- A relation meets the criteria for a row. -/
def included (settings : TableSettings) (tableType : Option (List Byte)) (r : Relation) : Bool :=
  (systable settings r && shows tableType .sysTable) ||
    (view r && shows tableType .view) ||
    (foreign_table r && shows tableType .foreignTable) ||
    (matview r && shows tableType .matview) ||
    (regular_table settings r && shows tableType .table)

/-- The type a relation is reported under. -/
def reported (settings : TableSettings) (r : Relation) : TableType :=
  if systable settings r then .sysTable
  else if view r then .view
  else if matview r then .matview
  else if foreign_table r then .foreignTable
  else .table

/-- The row of a relation. -/
def tableRow (settings : TableSettings) (r : Relation) : TableRow :=
  ⟨settings.CurrCat, r.nspname, r.relname, (reported settings r).cstr, []⟩

/-- `PGAPI_Tables` -/
def PGAPI_Tables (settings : TableSettings) (tableType : Option (List Byte))
    (found : Relation → Bool) (relations : List Relation) : List TableRow :=
  ((relations.filter (inQuery settings tableType found)).filter
    (included settings tableType)).map (tableRow settings)

/-! ### What is asked for -/

/-- An item of the list names a type: white space and a quote may stand on both sides. -/
def Names (item : List Byte) (t : TableType) : Prop :=
  ∃ before opening name closing after, item = before ++ opening ++ name ++ closing ++ after ∧
    (∀ c ∈ before, isSpace c = true) ∧ (∀ c ∈ after, isSpace c = true) ∧
    (opening = [] ∨ opening = [0x27]) ∧ (closing = [] ∨ closing = [0x27]) ∧
    stricmp name t.cstr = true

/-- The types a list asks for. Without a list, and with a percent sign for it, these are all but
the system tables. -/
def Asked (tableType : Option (List Byte)) (t : TableType) : Prop :=
  match tableType with
  | none => t ≠ .sysTable
  | some list =>
    if stricmp list (ascii "%") then t ≠ .sysTable else ∃ item ∈ strtok 0x2c list, Names item t

/-- The other types whose flags select a relation: a system relation that is no table is selected
by its kind too, and any foreign table and materialized view that is not a system relation by
`TABLE`. -/
def alsoSelectedBy (settings : TableSettings) (r : Relation) : Option TableType :=
  if systable settings r then
    if view r then some .view
    else if foreign_table r then some .foreignTable
    else if matview r then some .matview
    else none
  else if foreign_table r || matview r then some .table
  else none

end OdbcDriver.Catalog
