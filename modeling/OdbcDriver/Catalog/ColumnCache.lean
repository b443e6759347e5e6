import OdbcDriver.Encoding.Ascii
import OdbcDriver.Lib.CInt
import Mathlib.Logic.Function.Basic

/-!
# The column cache

A connection keeps the results of `SQLColumns` for the tables of its statements. Each `COL_INFO`
counts the `TABLE_INFO`s that point to it, so that it is not freed or used again before the last of
them is gone.

* `getColumnsInfo`, `getCOLIfromTI`: a `COL_INFO` is looked up or made for a `TABLE_INFO`;
* `TI_Destructor`, `CC_clear_col_info`, `CC_cleanup`: references and `COL_INFO`s are given up;
* `CacheCall`: the calls on a connection that touch its cache.
-/

namespace OdbcDriver.ColumnCache

open CInt

/-! ### Data -/

/-- `pgNAME` -/
abbrev Name := Option (List Byte)

/-- `SAFE_NAME` -/
def SAFE_NAME (name : Name) : List Byte := name.getD []

/-- `NAMEICMP` finds no difference. -/
def NAMEICMP (name1 name2 : Name) : Bool := stricmp (SAFE_NAME name1) (SAFE_NAME name2)

/-- A result of `SQLColumns` that has a row: what is read from its first row. -/
structure Columns where
  table_oid : BitVec 32
  schema_name : Name
  table_name : Name
  table_info : ℤ
deriving DecidableEq, Repr

/-- `COL_INFO` -/
structure COL_INFO where
  /-- An `Int2`. -/
  refcnt : ℤ
  result : Option Columns
  schema_name : Name
  table_name : Name
  table_oid : BitVec 32
  table_info : ℤ
  acc_time : ℤ
deriving DecidableEq, Repr

/-- `col_info_initialize` -/
def COL_INFO.initialized : COL_INFO := ⟨0, none, none, none, 0, 0, 0⟩

/-- What `free_col_info_contents` leaves. -/
def COL_INFO.contentsFreed (coli : COL_INFO) : COL_INFO :=
  { coli with
    refcnt := 0, result := none, schema_name := none, table_name := none, table_oid := 0,
    acc_time := 0 }

/-- `TABLE_INFO` -/
structure TABLE_INFO where
  table_oid : BitVec 32
  schema_name : Name
  table_name : Name
  col_info : Option ℕ
  /-- `TI_COLATTRIBUTE` -/
  colAttribute : Bool
deriving DecidableEq, Repr

/-- A connection with the `TABLE_INFO`s of its statements. -/
structure State where
  /-- The places of the first `ntables` elements of `conn->col_info`. -/
  col_info : List ℕ
  /-- An `Int2`. -/
  coli_allocated : ℤ
  /-- The `COL_INFO`s that are allocated, by their places. -/
  heap : ℕ → Option COL_INFO
  /-- The place of the next `COL_INFO`. -/
  next : ℕ
  ti : List (Option TABLE_INFO)
  /-- The counters of the `COL_INFO`s at the time when their contents were freed. -/
  freed : List ℤ

/-- A new connection. -/
def State.start : State := ⟨[], 0, fun _ => none, 0, [], []⟩

/-- The `COL_INFO` at a place. -/
def State.col (s : State) (id : ℕ) : COL_INFO := (s.heap id).getD .initialized

/-- A `TABLE_INFO` that is still there. -/
def State.table (s : State) (k : ℕ) : Option TABLE_INFO := s.ti[k]?.join

def State.setCol (s : State) (id : ℕ) (coli : COL_INFO) : State :=
  { s with heap := Function.update s.heap id (some coli) }

def State.setTable (s : State) (k : ℕ) (wti : TABLE_INFO) : State :=
  { s with ti := s.ti.set k (some wti) }

/-- `free_col_info_contents` -/
def State.free_col_info_contents (s : State) (id : ℕ) : State :=
  { s.setCol id (s.col id).contentsFreed with freed := s.freed ++ [(s.col id).refcnt] }

/-! ### Looking up -/

/-- What a call reads from the server, and the memory that it gets, when it asks for columns. -/
structure Fetched where
  /-- The result, if there is one with a row. -/
  columns : Option Columns
  /-- `realloc` for `conn->col_info` succeeds. -/
  arrayMemory : Bool
  /-- `malloc` for the `COL_INFO` succeeds. -/
  memory : Bool

/-- What a call of `getCOLIfromTI` reads. -/
structure Reads extends Fetched where
  /-- `CC_get_current_schema` -/
  curschema : Name
  /-- The schema of the table for the server. -/
  nspname : Name
  /-- `SC_get_time` -/
  time : ℤ

/-- The first cached `COL_INFO` with an oid. -/
def State.findOid (s : State) (oid : BitVec 32) : Option ℕ :=
  s.col_info.find? fun id => (s.col id).table_oid = oid

/-- The first cached `COL_INFO` with a name, in a schema. -/
def State.findName (s : State) (schema : List Byte) (table_name : Name) : Option ℕ :=
  s.col_info.find? fun id =>
    NAMEICMP (s.col id).table_name table_name && stricmp (SAFE_NAME (s.col id).schema_name) schema

/-- `getCOLIfromTable`: the schema name with what is found, or nothing where it returns `FALSE`. -/
def State.getCOLIfromTable (s : State) (schema_name table_name curschema nspname : Name) :
    Option (Name × Option ℕ) :=
  if table_name = none then some (schema_name, none)
  else
    match schema_name with
    | some schema => some (schema_name, s.findName schema table_name)
    | none =>
      match curschema.bind fun schema => s.findName schema table_name with
      | some id => some (curschema, some id)
      | none => nspname.map fun schema => (some schema, s.findName schema table_name)

/-- The `COL_INFO` that is used again for another table: an empty one or one of a temporary table,
else the oldest if there are many. -/
def State.reusable (s : State) : List ℕ → Option (ℕ × ℤ) → Option ℕ
  | [], ccoli => if 128 ≤ s.col_info.length then ccoli.map Prod.fst else none
  | id :: rest, ccoli =>
    let tcoli := s.col id
    if 0 < tcoli.refcnt then s.reusable rest ccoli
    else if (tcoli.table_oid = 0 ∧ tcoli.table_name = none) ∨
        stricmp ((SAFE_NAME tcoli.schema_name).take 8) (ascii "pg_temp_") then some id
    else if ccoli.all (tcoli.acc_time < ·.2) then s.reusable rest (some (id, tcoli.acc_time))
    else s.reusable rest ccoli

/-- The array is made larger where it is full. -/
def State.grow (s : State) : State :=
  if s.coli_allocated ≤ s.col_info.length then
    let new_alloc := wrap 16 (s.coli_allocated * 2)
    { s with coli_allocated := if new_alloc ≤ s.col_info.length then 16 else new_alloc }
  else s

/-- A `COL_INFO` is filled and becomes that of a `TABLE_INFO`. -/
def State.fill (s : State) (id k : ℕ) (wti : TABLE_INFO) (greloid : BitVec 32) (res : Columns) :
    State :=
  let greloid := if greloid = 0 then res.table_oid else greloid
  let wti := { wti with
    table_oid := if wti.table_oid = 0 then greloid else wti.table_oid
    schema_name := wti.schema_name.or res.schema_name
    table_name := wti.table_name.or res.table_name
    col_info := some id }
  (s.setCol id { COL_INFO.initialized with
    refcnt := COL_INFO.initialized.refcnt + 1
    result := some res
    schema_name := wti.schema_name
    table_name := wti.table_name
    table_oid := wti.table_oid
    table_info := res.table_info }).setTable k wti

/-- `getColumnsInfo`; there is no state where it stores behind the end of the array. -/
def State.getColumnsInfo (s : State) (k : ℕ) (wti : TABLE_INFO) (greloid : BitVec 32)
    (reads : Fetched) : Option (State × Bool) :=
  match reads.columns with
  | none => some (s, false)
  | some res =>
    match (if greloid = 0 then none else s.findOid greloid).or (s.reusable s.col_info none) with
    | some id => some ((s.free_col_info_contents id).fill id k wti greloid res, true)
    | none =>
      if s.coli_allocated ≤ s.col_info.length ∧ reads.arrayMemory = false then some (s, false)
      else if s.grow.coli_allocated ≤ s.col_info.length then none
      else if reads.memory = false then some (s.grow, false)
      else
        some (({ s.grow with
          col_info := s.col_info ++ [s.next]
          next := s.next + 1 }).fill s.next k wti greloid res, true)

/-- A `TABLE_INFO` points to a cached `COL_INFO`. -/
def State.attach (s : State) (id k : ℕ) (wti : TABLE_INFO) : State :=
  (s.setCol id { s.col id with refcnt := wrap 16 ((s.col id).refcnt + 1) }).setTable k
    { wti with col_info := some id }

/-- What `getCOLIfromTI` finds in the cache, by the oid or by the name, with the schema name; it is
nothing where it returns `FALSE` at once. -/
def State.find (s : State) (wti : TABLE_INFO) (greloid : BitVec 32) (reads : Reads) :
    Option (Name × Option ℕ) :=
  if greloid ≠ 0 then some (wti.schema_name, s.findOid greloid)
  else s.getCOLIfromTable wti.schema_name wti.table_name reads.curschema reads.nspname

/-- The first part of `getCOLIfromTI`, with `found`. -/
def State.obtain (s : State) (k : ℕ) (wti : TABLE_INFO) (greloid : BitVec 32) (reads : Reads) :
    Option (State × Bool) :=
  if wti.col_info.isSome then some (s, true)
  else
    match s.find wti greloid reads with
    | none => some (s, false)
    | some (schema_name, some id) =>
      some (s.attach id k { wti with schema_name := schema_name }, true)
    | some (schema_name, none) =>
      let wti := { wti with schema_name := schema_name }
      if greloid ≠ 0 ∨ wti.table_name.isSome then
        (s.setTable k wti).getColumnsInfo k wti greloid reads.toFetched
      else some (s.setTable k wti, false)

/-- `getColumnsInfo` as it is called by `ColAttSet`, for a column that the `COL_INFO` lacks. -/
def State.refresh (k : ℕ) (s : State) (reads : Fetched) : Option State :=
  match s.table k with
  | none => some s
  | some wti => (s.getColumnsInfo k wti wti.table_oid reads).map Prod.fst

/-- `ColAttSet`, as far as it touches the cache. It may return before it sets the flag. -/
def State.ColAttSet (s : State) (k : ℕ) (refreshes : List Fetched) (returns : Bool) :
    Option State :=
  match s.table k with
  | none => some s
  | some wti =>
    if wti.table_oid = 0 ∨ wti.colAttribute then some s
    else
      (refreshes.foldlM (State.refresh k) s).map fun s =>
        match s.table k with
        | none => s
        | some wti => if returns then s else s.setTable k { wti with colAttribute := true }

/-- The names of a `TABLE_INFO` are filled in. -/
def TABLE_INFO.complete (wti : TABLE_INFO) (greloid : BitVec 32) (res : Columns) : TABLE_INFO :=
  let greloid := if greloid = 0 then res.table_oid else greloid
  { wti with
    table_oid := if wti.table_oid = 0 then greloid else wti.table_oid
    schema_name := wti.schema_name.or res.schema_name
    table_name := wti.table_name.or res.table_name }

def State.complete (s : State) (k : ℕ) (wti : TABLE_INFO) (greloid : BitVec 32) : State :=
  match wti.col_info.bind fun id => (s.col id).result with
  | some res => s.setTable k (wti.complete greloid res)
  | none => s

/-- The time of the access. -/
def State.touch (s : State) (k : ℕ) (time : ℤ) : State :=
  match (s.table k).bind TABLE_INFO.col_info with
  | none => s
  | some id => s.setCol id { s.col id with acc_time := time }

/-- The last part of `getCOLIfromTI`, where a `COL_INFO` has been found. -/
def State.finish (s : State) (k : ℕ) (greloid : BitVec 32) (time : ℤ)
    (colatt : Option (List Fetched × Bool)) : Option State :=
  match s.table k with
  | none => some s
  | some wti =>
    match colatt with
    | none => some ((s.complete k wti greloid).touch k time)
    | some (refreshes, returns) =>
      ((s.complete k wti greloid).ColAttSet k refreshes returns).map (State.touch · k time)

/-- The oid that `getCOLIfromTI` looks for. -/
def TABLE_INFO.sought (wti : TABLE_INFO) (reloid : BitVec 32) : BitVec 32 :=
  if reloid = 0 then wti.table_oid else reloid

/-- `getCOLIfromTI` for a `TABLE_INFO`; with `colatt` it is the call by `SQLColAttribute`. -/
def State.getCOLIfromTI (s : State) (k : ℕ) (reloid : BitVec 32) (reads : Reads)
    (colatt : Option (List Fetched × Bool)) : Option State :=
  match s.table k with
  | none => some s
  | some wti =>
    match s.obtain k wti (wti.sought reloid) reads with
    | none => none
    | some (s, false) => some s
    | some (s, true) => s.finish k (wti.sought reloid) reads.time colatt

/-! ### Giving up -/

/-- `free` of a `COL_INFO` -/
def State.freeCol (s : State) (id : ℕ) : State :=
  { s with heap := Function.update s.heap id none }

/-- `free` of a `TABLE_INFO` -/
def State.freeTable (s : State) (k : ℕ) : State := { s with ti := s.ti.set k none }

/-- The counter of the `COL_INFO` of a `TABLE_INFO` goes down. -/
def State.unref (s : State) (wti : TABLE_INFO) : State :=
  match wti.col_info with
  | none => s
  | some id =>
    let s := s.setCol id { s.col id with refcnt := wrap 16 ((s.col id).refcnt - 1) }
    if (s.col id).refcnt ≤ 0 ∧ (s.col id).acc_time = 0 then s.free_col_info_contents id else s

/-- `TI_Destructor`, for one `TABLE_INFO`. -/
def State.destroy (s : State) (k : ℕ) : State :=
  match s.table k with
  | none => s
  | some wti => (s.unref wti).freeTable k

/-- `TI_Destructor` -/
def State.TI_Destructor (s : State) (ti : List ℕ) : State := ti.foldl State.destroy s

/-- The part of `CC_clear_col_info` for one `COL_INFO`. -/
def State.clearCol (destroy : Bool) (s : State) (id : ℕ) : State :=
  if destroy ∨ (s.col id).refcnt = 0 then (s.free_col_info_contents id).freeCol id
  else s.setCol id { s.col id with acc_time := 0 }

/-- `CC_clear_col_info` -/
def State.CC_clear_col_info (s : State) (destroy : Bool) : State :=
  let s' := s.col_info.foldl (State.clearCol destroy) s
  { s' with col_info := [], coli_allocated := if destroy then 0 else s.coli_allocated }

/-- `CC_cleanup`. A statement that is executing is not freed, and keeps its `TABLE_INFO`s. -/
def State.CC_cleanup (s : State) (executing : List ℕ) : State :=
  (s.TI_Destructor ((List.range s.ti.length).filter (· ∉ executing))).CC_clear_col_info true

/-! ### Calls -/

/-- A call on a connection that touches its cache or its `TABLE_INFO`s. -/
inductive CacheCall
  /-- `increaseNtab`, and the name that the parser has read. -/
  | construct (schema_name table_name : Name)
  /-- Another oid or name is written to a `TABLE_INFO`. -/
  | rename (k : ℕ) (table_oid : BitVec 32) (schema_name table_name : Name)
  /-- The tables of a statement that is parsed anew or freed. -/
  | destruct (ti : List ℕ)
  /-- A table of a statement that is parsed. -/
  | lookup (k : ℕ) (reads : Reads)
  /-- A table that `SQLColAttribute` asks for, of a statement with some tables. -/
  | colAttribute (ti : List ℕ) (reloid : BitVec 32) (memory : Bool) (reads : Reads)
      (refreshes : List Fetched) (returns : Bool)
  /-- `@@identity`, with the last table that rows were inserted into. -/
  | identity (schemaIns tableIns : Name) (reads : Reads)
  /-- `DROP TABLE` or `ALTER TABLE` -/
  | clear
  | cleanup (executing : List ℕ)

/-- `TI_Constructor` -/
def TABLE_INFO.new : TABLE_INFO := ⟨0, none, none, none, false⟩

def State.construct (s : State) (wti : TABLE_INFO) : State := { s with ti := s.ti ++ [some wti] }

/-- The `TABLE_INFO` that `getCOLIfromTI` takes for `SQLColAttribute`, and makes where there is
none. -/
def State.attributeTable (s : State) (ti : List ℕ) (reloid : BitVec 32) (memory : Bool) :
    Option (State × ℕ) :=
  if reloid = 0 then none
  else
    match ti.find? fun k => (s.table k).any (·.table_oid = reloid) with
    | some k => some (s, k)
    | none =>
      if memory then some (s.construct { TABLE_INFO.new with table_oid := reloid }, s.ti.length)
      else none

/-- What a call leads to. -/
def CacheCall.run (s : State) : CacheCall → Option State
  | construct schema_name table_name =>
    some (s.construct { TABLE_INFO.new with schema_name := schema_name, table_name := table_name })
  | rename k table_oid schema_name table_name =>
    match s.table k with
    | none => some s
    | some wti =>
      some (s.setTable k { wti with
        table_oid := table_oid, schema_name := schema_name, table_name := table_name })
  | destruct ti => some (s.TI_Destructor ti)
  | lookup k reads => s.getCOLIfromTI k 0 reads none
  | colAttribute ti reloid memory reads refreshes returns =>
    match s.attributeTable ti reloid memory with
    | none => some s
    | some (s, k) => s.getCOLIfromTI k reloid reads (some (refreshes, returns))
  | identity schemaIns tableIns reads =>
    if tableIns = none then some s
    else
      -- the `TABLE_INFO` is a local variable
      ((s.construct { TABLE_INFO.new with
        schema_name := schemaIns, table_name := tableIns }).getCOLIfromTI s.ti.length 0 reads
          none).map fun s' => s'.freeTable s.ti.length
  | clear => some (s.CC_clear_col_info false)
  | cleanup executing => some (s.CC_cleanup executing)

/-- The references to `COL_INFO`s. -/
def State.refs (s : State) : List (Option ℕ) := s.ti.map (·.bind TABLE_INFO.col_info)

/-- Every counter is the number of `TABLE_INFO`s that point to the `COL_INFO`, and contents have
been freed only where the counter was zero. -/
structure Right (s : State) : Prop where
  refcnt_eq : ∀ id coli, s.heap id = some coli → coli.refcnt = s.refs.count (some id)
  freed_zero : ∀ refcnt ∈ s.freed, refcnt = 0

end OdbcDriver.ColumnCache
