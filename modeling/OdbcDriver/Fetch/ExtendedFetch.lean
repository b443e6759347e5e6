import OdbcDriver.Lib.CInt
import OdbcDriver.Lib.Run
import OdbcDriver.Fetch.Position
import OdbcDriver.Result.KeySet

/-!
# Positioning a rowset: `getNthValid`, `SC_fetch`, `PGAPI_ExtendedFetch`

The driver's side of scrolling. `getNthValid` is embedded in full; `PGAPI_ExtendedFetch`
is embedded for a static result: all of its rows are cached, it has no server cursor
(`QR_get_cursor(res)` is `NULL`, so `reached_eof` and `useCursor` are false and
`QR_move_cursor_to_last` returns at once) and no key set. Row starts are zero-based here,
as in the source.
-/

namespace OdbcDriver.Fetch

open OdbcDriver.CInt OdbcDriver.Result

/-- `INT_MAX` -/
def intMax : Int := 2 ^ 31 - 1

/-! ### `getNthValid` -/

/-- What `getNthValid` reads of a `QResultClass`. -/
structure RowIndex where
  /-- `QR_get_num_total_tuples(res)` -/
  numTotalTuples : Int
  /-- `QR_once_reached_eof(res)` -/
  onceReachedEof : Bool := true
  /-- `NULL != QR_get_cursor(res)` -/
  hasCursor : Bool := false
  /-- `res->dl_count` -/
  dlCount : Nat := 0
  /-- `res->deleted[0 .. dl_count)` -/
  deleted : List Int := []
  /-- `res->keyset` -/
  keyset : List KeySet := []

/-- A key-set entry `getNthValid` counts: none of the deletion bits is set. -/
def countsAsValid (k : KeySet) : Bool :=
  k.status &&& (cursSelfDeleting ||| cursSelfDeleted ||| cursOtherDeleted) = 0

/-- The backward pass over the deleted list of a declared cursor: `(*nearest, delsta)`
after the entries `i = dl_count - 1 .. 0` at or after `*nearest`. -/
def deletedBackward (sta : Int) : List (Nat × Int) → Int → Int → Int × Int
  | [], nearest, delsta => (nearest, delsta)
  | (i, d) :: rest, nearest, delsta =>
    if nearest ≤ d then
      if d ≤ sta then deletedBackward sta rest (nearest - 1) (max delsta i)
      else deletedBackward sta rest nearest delsta
    else (nearest, delsta)

/-- The forward pass over the deleted list of a declared cursor. -/
def deletedForward (sta : Int) : List (Nat × Int) → Int → Int → Int × Int
  | [], nearest, delsta => (nearest, delsta)
  | (i, d) :: rest, nearest, delsta =>
    if d ≤ nearest then
      if sta ≤ d then deletedForward sta rest (nearest + 1) (min delsta i)
      else deletedForward sta rest nearest delsta
    else (nearest, delsta)

/-- The key-set walk: `(count, *nearest)` when the walk over the listed entries ends, or at
the entry that makes the count `nth`. -/
def walkKeyset (nth : Int) : List (Int × KeySet) → Int → Int → Int × Int
  | [], count, nearest => (count, nearest)
  | (i, k) :: rest, count, nearest =>
    if countsAsValid k then
      if count + 1 = nth then (count + 1, i) else walkKeyset nth rest (count + 1) i
    else walkKeyset nth rest count nearest

/-- `getNthValid`: the return value and `*nearest`. `nth` is unsigned and one-based. -/
def getNthValid (res : RowIndex) (sta : Int) (backward : Bool) (nth : Int) : Int × Int :=
  let num_tuples := if res.onceReachedEof then res.numTotalTuples else intMax
  if res.dlCount = 0 then
    if backward then
      if wrap 64 nth ≤ sta + 1 then (wrap 64 nth, wrap 64 (sta + 1 - nth))
      else (-(sta + 1), -1)
    else
      let nearp := wrap 64 (sta - 1 + nth)
      if nearp < num_tuples then (wrap 64 nth, nearp) else (-(num_tuples - sta), num_tuples)
  else if res.hasCursor then
    let indexed := (res.deleted.take res.dlCount).zipIdx.map Prod.swap
    if backward then
      let (nearest, delsta) := deletedBackward sta indexed.reverse (wrap 64 (sta + 1 - nth)) (-1)
      if nearest < 0 then (-(sta - delsta), -1) else (wrap 64 nth, nearest)
    else
      let (nearest, delsta) := deletedForward sta indexed (wrap 64 (sta - 1 + nth)) res.dlCount
      if num_tuples ≤ nearest then (-(num_tuples - sta + delsta - res.dlCount), num_tuples)
      else (wrap 64 nth, nearest)
  else
    let entries := res.keyset.zipIdx.map fun (k, i) => ((i : Int), k)
    if backward then
      let (count, nearest) := walkKeyset nth (entries.take (sta + 1).toNat).reverse 0 (-1)
      if count = nth then (count, nearest) else (-count, -1)
    else
      let (count, nearest) :=
        walkKeyset nth ((entries.take num_tuples.toNat).drop sta.toNat) 0 num_tuples
      if count = nth then (count, nearest) else (-count, num_tuples)

/-! ### The statement and its static result -/

/-- The statement fields the fetch functions read and write. -/
structure FetchStmt where
  /-- `stmt->rowset_start` -/
  rowsetStart : Int := -1
  /-- `stmt->save_rowset_size` -/
  saveRowsetSize : Int := -1
  /-- `stmt->last_fetch_count` -/
  lastFetchCount : Int := 0
  /-- `stmt->last_fetch_count_include_ommitted` -/
  lastFetchCountIncludeOmmitted : Int := 0
  /-- `stmt->currTuple` -/
  currTuple : Int := -1
  /-- `SC_get_errornumber(stmt) == STMT_POS_BEFORE_RECORDSET` -/
  posBeforeRecordset : Bool := false
deriving DecidableEq, Repr

/-- A static result: its number of rows, which a C `int` holds, the row limit of the
statement, which it respects, and which rows are truncated on their way to the bound
buffers. -/
structure StaticResult where
  numTuples : Int
  numTuples_nonneg : 0 ≤ numTuples
  numTuples_le : numTuples ≤ intMax
  maxRows : Int := 0
  maxRows_ok : maxRows ≤ 0 ∨ numTuples ≤ maxRows
  rowTruncated : Int → Bool := fun _ => false

/-- The static result as `getNthValid` sees it: no deleted rows. -/
def StaticResult.index (res : StaticResult) : RowIndex where
  numTotalTuples := res.numTuples

/-- Return codes of the fetch functions on a static result. -/
inductive RetCode
  | success | successWithInfo | noDataFound
deriving DecidableEq, Repr

/-- `SC_fetch` on a static result: step `currTuple` to the next row, or past the end. -/
def scFetch (res : StaticResult) (stmt : FetchStmt) : FetchStmt × RetCode :=
  if wrap 32 res.numTuples - 1 ≤ stmt.currTuple ∨
      (0 < res.maxRows ∧ stmt.currTuple = res.maxRows - 1) then
    ({ stmt with
        lastFetchCount := 0
        lastFetchCountIncludeOmmitted := 0
        currTuple := res.numTuples },
      .noDataFound)
  else
    ({ stmt with
        currTuple := stmt.currTuple + 1
        lastFetchCount := 1
        lastFetchCountIncludeOmmitted := 1 },
      if res.rowTruncated (stmt.currTuple + 1) then .successWithInfo else .success)

/-! ### `PGAPI_ExtendedFetch` -/

/-- `EXTFETCH_RETURN_BOF` -/
def FetchStmt.returnBof (stmt : FetchStmt) : FetchStmt :=
  { stmt with rowsetStart := -1, currTuple := -1 }

/-- `EXTFETCH_RETURN_EOF` -/
def FetchStmt.returnEof (stmt : FetchStmt) (num_tuples : Int) : FetchStmt :=
  { stmt with rowsetStart := num_tuples, currTuple := -1 }

/-- What the positioning `switch` decides. -/
inductive Placement
  /-- `EXTFETCH_RETURN_BOF`: no data, before the first row. -/
  | bof
  /-- `EXTFETCH_RETURN_EOF`: no data, after the last row. -/
  | eof
  /-- `SC_set_rowset_start` has stored a start. -/
  | stored (rowsetStart : Int)
  /-- Before the first row: `STMT_POS_BEFORE_RECORDSET` is raised and start `0` stored. -/
  | restart
  /-- `getNthValid` found a start, to be stored later (`should_set_rowset_start`). -/
  | found (rowsetStart : Int)
deriving DecidableEq, Repr

/-- The `SQL_FETCH_NEXT` case of the `switch`. -/
def placeNext (rowset_start saveRowsetSize rowsetSize : Int) : Placement :=
  let progress_size := if 0 < saveRowsetSize then saveRowsetSize else rowsetSize
  if rowset_start < 0 then .stored 0 else .stored (wrap 64 (rowset_start + progress_size))

/-- The `SQL_FETCH_PRIOR` case of the `switch`. -/
def placePrior (num_tuples rowset_start rowsetSize : Int) : Placement :=
  if rowset_start ≤ 0 then .bof
  else if num_tuples ≤ rowset_start ∧ num_tuples < rowsetSize then .restart
  else if rowset_start < rowsetSize then .restart
  else .stored (wrap 64 (rowset_start - rowsetSize))

/-- A backward search with `getNthValid`, whose return value goes through the `int` variable
`min_nth`: no valid row at all is the beginning of the result, too few of them mean the
first rowset. -/
def placeBackward (res : RowIndex) (sta nth : Int) : Placement :=
  let r := getNthValid res sta true nth
  let min_nth := wrap 32 r.1
  if min_nth ≤ 0 then if min_nth = 0 then .bof else .restart
  else .found r.2

/-- A forward search with `getNthValid`. -/
def placeForward (res : RowIndex) (sta nth : Int) : Placement :=
  let r := getNthValid res sta false nth
  if r.1 ≤ 0 then .eof else .found r.2

/-- The positioning `switch` of `PGAPI_ExtendedFetch`. -/
def placeRowset (res : StaticResult) (rowset_start saveRowsetSize : Int)
    (fFetchType : Orientation) (irow rowsetSize : Int) : Placement :=
  match fFetchType with
  | .next => placeNext rowset_start saveRowsetSize rowsetSize
  | .prior => placePrior res.numTuples rowset_start rowsetSize
  | .first => .stored 0
  | .last => placeBackward res.index (res.numTuples - 1) (uwrap 64 rowsetSize)
  | .absolute =>
    if irow = 0 then .bof
    else if 0 < irow then placeForward res.index 0 (uwrap 64 irow)
    else placeBackward res.index (res.numTuples - 1) (uwrap 64 (-irow))
  | .relative =>
    if irow = 0 then .stored rowset_start
    else if 0 < irow then placeForward res.index (rowset_start + 1) (uwrap 64 irow)
    else placeBackward res.index (rowset_start - 1) (uwrap 64 (-irow))

/-- The fetch loop from the result of the first `SC_fetch`: `left` more rows still fit the
rowset after the current one. Returns the statement, the number of rows fetched and whether
one of them was truncated. -/
def fetchLoop (res : StaticResult) : Nat → FetchStmt × RetCode → Int → Bool →
    FetchStmt × Int × Bool
  | left, (stmt, result), i, truncated =>
    if result = .noDataFound then (stmt, i, truncated)
    else
      let truncated := truncated || decide (result = .successWithInfo)
      match left with
      | 0 => (stmt, i + 1, truncated)
      | left + 1 => fetchLoop res left (scFetch res stmt) (i + 1) truncated

/-- The outcome of a fetch call: the statement afterwards, the return code and `*pcrow`. -/
structure Fetched where
  stmt : FetchStmt
  ret : RetCode
  pcrow : Int
deriving DecidableEq, Repr

/-- Fetch the rowset the statement is placed on: the part of `PGAPI_ExtendedFetch` after the
checks of the cursor state. -/
def fetchRowset (res : StaticResult) (stmt : FetchStmt) (rowsetSize : Int) : Fetched :=
  let stmt := { stmt with currTuple := stmt.rowsetStart - 1 }
  let (stmt, i, truncated) :=
    fetchLoop res (rowsetSize - 1).toNat (scFetch res stmt) 0 false
  { stmt := { stmt with
      lastFetchCount := i
      saveRowsetSize := rowsetSize
      lastFetchCountIncludeOmmitted := i
      currTuple := stmt.rowsetStart }
    ret :=
      if i = 0 then .noDataFound
      else if truncated ∨ stmt.posBeforeRecordset then .successWithInfo
      else .success
    pcrow := i }

/-- The checks of the cursor state on the new start, and the fetch. -/
def checkAndFetch (res : StaticResult) (stmt : FetchStmt) (rowset_start rowsetSize : Int) :
    Fetched :=
  if res.numTuples ≤ rowset_start then ⟨stmt.returnEof res.numTuples, .noDataFound, 0⟩
  else if rowset_start < 0 then
    if wrap 64 (rowset_start + rowsetSize) ≤ 0 then ⟨stmt.returnBof, .noDataFound, 0⟩
    else fetchRowset res { stmt with rowsetStart := 0 } rowsetSize
  else fetchRowset res { stmt with rowsetStart := rowset_start } rowsetSize

/-- `PGAPI_ExtendedFetch` on a static result. -/
def extendedFetch (res : StaticResult) (stmt : FetchStmt) (fFetchType : Orientation)
    (irow rowsetSize : Int) : Fetched :=
  let save_rowset_size := stmt.saveRowsetSize
  let stmt := { stmt with posBeforeRecordset := false, saveRowsetSize := -1 }
  match placeRowset res stmt.rowsetStart save_rowset_size fFetchType irow rowsetSize with
  | .bof => ⟨stmt.returnBof, .noDataFound, 0⟩
  | .eof => ⟨stmt.returnEof res.numTuples, .noDataFound, 0⟩
  | .stored rowset_start => checkAndFetch res stmt rowset_start rowsetSize
  | .restart => checkAndFetch res { stmt with posBeforeRecordset := true } 0 rowsetSize
  | .found rowset_start => checkAndFetch res stmt rowset_start rowsetSize

end OdbcDriver.Fetch
