import OdbcDriver.Lib.HeapArray
import OdbcDriver.Result.RemovedRows
import OdbcDriver.Result.UndoLog

/-!
# Rows that are added, and their undoing

A row that was inserted is read back from the server (`SC_pos_newload`) and goes behind the rows of
the result. Where it is kept depends on the cursor: with one, its key goes to the list of added rows
(`AddAdded`), with its data unless the cursor is keyset-driven; without one, its key goes behind the
cached keys, and its data behind the cached rows if these reach the end of the result. In a
transaction the addition is noted in the undo log. A row without a cursor has the number it has in
the result there, and one with a cursor a negative number. `UndoRollback` goes through the log from
the newest entry on; after a partial rollback it first looks which rows still exist.

An array is what was allocated: a write behind it, or to an array that was not allocated, is an
error. Memory is taken to be there. Rows can only be added to a result that has a keyset, and
nothing is ever noted in the log as `SQL_REFRESH`, so the branches for these cases are left out.
-/

namespace OdbcDriver.RowAdd

open Result RowLists HeapArray

/-! ### The state -/

/-- What the driver must not do. -/
inductive Fault
  /-- An array is touched that was not allocated. -/
  | unallocated
  /-- An array is touched outside of what was allocated. -/
  | outOfBounds
  /-- A loop does not end. -/
  | endless
  deriving DecidableEq, Repr

/-- A row as the server gives it: its columns, and where it is. -/
structure NewRow where
  tuple : Tuple
  tid : Tid
  deriving DecidableEq, Repr

/-- What `positioned_load` finds. -/
inductive Load
  | failed
  | rows (found : List NewRow)
  deriving DecidableEq, Repr

/-- The part of a `QResultClass` that added rows use, and of its statement. -/
structure QResult where
  /-- It is read through a server cursor (`cursor_name`). -/
  cursor : Bool
  /-- The cursor is held over a commit. -/
  withhold : Bool
  /-- The cursor was there before the transaction. -/
  permanent : Bool
  /-- The cursor type of the statement is `SQL_CURSOR_KEYSET_DRIVEN`. -/
  keyset_driven : Bool
  reached_eof : Bool
  has_valid_base : Bool
  rowset_start : ℤ
  base : ℤ
  key_base : ℤ
  cache_size : ℕ
  num_fields : ℕ
  num_total_read : ℕ
  /-- What is allocated for keys, `count_keyset_allocated` of them. -/
  keyset : List KeySet
  num_cached_keys : ℕ
  /-- What is allocated for rows, `count_backend_allocated` of them. -/
  backend_tuples : List Tuple
  num_cached_rows : ℕ
  added_keyset : List KeySet
  /-- `none` when the array was not allocated. -/
  added_tuples : Option (List Tuple)
  ad_alloc : ℕ
  ad_count : ℕ
  log : UndoLog
  updated : UpdatedRows
  deleted : DeletedRows

namespace QResult

/-- `QR_get_num_total_tuples`. -/
def num_total_tuples (r : QResult) : ℕ :=
  if r.reached_eof then r.num_total_read + r.ad_count else r.num_total_read

/-- `GIdx2KResIdx`. -/
def kresIdx (r : QResult) (gidx : ℤ) : ℤ :=
  gidx - if r.has_valid_base then r.rowset_start - r.key_base else 0

/-- `GIdx2CacheIdx`. -/
def cacheIdx (r : QResult) (gidx : ℤ) : ℤ :=
  gidx - if r.has_valid_base then r.rowset_start - r.base else 0

/-- `CacheIdx2GIdx`. -/
def gIdx (r : QResult) (ridx : ℤ) : ℤ := ridx - r.base + r.rowset_start

/-- The key of a row is cached. -/
def HasKey (r : QResult) (gidx : ℤ) : Prop :=
  0 ≤ r.kresIdx gidx ∧ r.kresIdx gidx < r.num_cached_keys

instance (r : QResult) (gidx : ℤ) : Decidable (r.HasKey gidx) :=
  inferInstanceAs (Decidable (_ ∧ _))

/-- The data of a row is cached. -/
def HasRow (r : QResult) (gidx : ℤ) : Prop :=
  0 ≤ r.cacheIdx gidx ∧ r.cacheIdx gidx < r.num_cached_rows

instance (r : QResult) (gidx : ℤ) : Decidable (r.HasRow gidx) :=
  inferInstanceAs (Decidable (_ ∧ _))

/-- The status of a row's key is set, where the key is cached. -/
def modifyKey (r : QResult) (gidx : ℤ) (f : KeySet → KeySet) : QResult :=
  if r.HasKey gidx then { r with keyset := r.keyset.modify (r.kresIdx gidx).toNat f } else r

end QResult

/-! ### Adding a row -/

/-- The status of a row that was added. -/
def addedStatus (in_trans : Bool) : BitVec 16 :=
  sqlRowAdded ||| (if in_trans then cursSelfAdding else cursSelfAdded)

/-- A key for a row. -/
def keyOf (tid : Tid) (status : BitVec 16) : KeySet :=
  { KeySet.zero.setTid tid with status := status }

/-- `AddRollback`: an entry behind the log is an error here. -/
def QResult.note (r : QResult) (in_trans : Bool) (index : ℤ) (tid : Tid) (code : DmlCode) :
    Except Fault QResult :=
  match RowLists.AddRollback in_trans r.log index tid code with
  | (log, some w) =>
    if 0 ≤ w.row ∧ w.row < w.alloc then .ok { r with log := log } else .error .outOfBounds
  | (log, none) => .ok { r with log := log }

/-- `while (alloc < number) alloc *= 2` on 32 bits. A number that 32 rounds do not reach is never
reached. -/
def doubledTo (number : ℕ) : ℕ → ℕ → Option ℕ
  | 0, alloc => if alloc < number then none else some alloc
  | fuel + 1, alloc =>
    if alloc < number then doubledTo number fuel (2 * alloc % 2 ^ 32) else some alloc

/-- `enlargeAdded`. -/
def enlargeAdded (r : QResult) (number : ℕ) : Except Fault QResult :=
  match if r.ad_alloc = 0 then some (max number 10) else doubledTo number 32 r.ad_alloc with
  | none => .error .endless
  | some alloc =>
    if alloc ≤ r.ad_alloc then .ok r
    else .ok { r with
      added_keyset := realloc r.added_keyset alloc .zero
      added_tuples := if r.keyset_driven then r.added_tuples
        else some (realloc (r.added_tuples.getD []) alloc [])
      ad_alloc := alloc }

/-- The data of a row is put into the list of added rows, if that is kept. -/
def putTuple (tuples : Option (List Tuple)) (i : ℕ) (tuple : Tuple) :
    Except Fault (Option (List Tuple)) :=
  match tuples with
  | none => .ok none
  | some ts => some <$> put .outOfBounds ts i tuple

/-- The end of `AddAdded`: a result that is read through a cursor keeps the row. -/
def keepAdded (r : QResult) (ad_count : ℕ) (keys : KeySet) (tuple : Tuple) : Except Fault QResult :=
  if !r.cursor then .ok r
  else if 0 < ad_count ∧ r.ad_alloc = 0 then .ok r
  else do
    let r ← enlargeAdded r ((ad_count + 1) % 2 ^ 32)
    let added_keyset ← put .outOfBounds r.added_keyset ad_count keys
    let added_tuples ← putTuple r.added_tuples ad_count tuple
    .ok { r with added_keyset := added_keyset, added_tuples := added_tuples }

/-- `AddAdded`. -/
def AddAdded (in_trans : Bool) (r : QResult) (index : ℤ) (row : NewRow) : Except Fault QResult := do
  let counted := { r with ad_count := (r.ad_count + 1) % 2 ^ 32 }
  let index := if r.cursor then -(counted.ad_count : ℤ) else index
  let noted ← counted.note in_trans index row.tid .add
  keepAdded noted r.ad_count (keyOf row.tid (addedStatus in_trans)) row.tuple

/-- The new row goes to the key cache. -/
def appendKey (r : QResult) (kres_ridx : ℤ) (row : NewRow) : Except Fault QResult :=
  if kres_ridx < 0 then .error .outOfBounds
  else do
    let keyset ← put .outOfBounds (growFull 100 r.keyset r.num_cached_keys .zero) kres_ridx.toNat
      (keyOf row.tid 0)
    .ok { r with keyset := keyset, num_cached_keys := r.num_cached_keys + 1 }

/-- The new row goes behind the cached rows. -/
def appendData (r : QResult) (row : NewRow) : Except Fault QResult := do
  let backend_tuples ← put .outOfBounds (growFull 100 r.backend_tuples r.num_cached_rows [])
    r.num_cached_rows row.tuple
  .ok { r with backend_tuples := backend_tuples, num_cached_rows := r.num_cached_rows + 1 }

/-- The caches after a row was added. Without a cursor the key is always cached, and the data if the
cached rows reach the end of the result; with one both are if there is a place for the key. -/
def appendRow (r : QResult) (num_total_rows : ℤ) (row : NewRow) : Except Fault QResult :=
  let kres_ridx := r.kresIdx num_total_rows
  if r.cursor then
    if 0 ≤ kres_ridx ∧ kres_ridx < r.cache_size then
      appendKey r kres_ridx row >>= (appendData · row)
    else .ok r
  else if num_total_rows = r.gIdx r.num_cached_rows then
    appendKey r kres_ridx row >>= (appendData · row)
  else appendKey r kres_ridx row

/-- `SC_pos_newload`, of a row that is found. -/
def addRow (in_trans : Bool) (r : QResult) (row : NewRow) : Except Fault QResult := do
  let added ← AddAdded in_trans r r.num_total_tuples row
  appendRow added r.num_total_tuples row

/-- What `SC_pos_newload` returns. -/
inductive Loaded
  | success
  | noDataFound
  | error
  deriving DecidableEq, Repr

/-- `SC_pos_newload`: "the driver could not identify inserted rows" if there are several. -/
def SC_pos_newload (in_trans : Bool) (r : QResult) : Load → Except Fault (Loaded × QResult)
  | .rows [row] => (fun r => (Loaded.success, r)) <$> addRow in_trans r row
  | .rows [] => .ok (.noDataFound, r)
  | .rows (_ :: _ :: _) => .ok (.error, r)
  | .failed => .ok (.error, r)

/-- The insert that an addition sends, and what the server answers. -/
structure Insertion where
  /-- What the execution of the statement returns. -/
  retcode : Result.RetCode
  /-- The number of rows in the command tag, if it is the tag of an insert. -/
  addcnt : Option ℤ
  /-- What is found where the row was inserted. -/
  first : Load
  /-- What is found then by its oid alone. -/
  second : Load
  deriving DecidableEq, Repr

/-- `irow_insert`. What the command tag says is an error only of the statement's diagnostics. -/
def irow_insert (in_trans : Bool) (r : QResult) (ins : Insertion) :
    Except Fault (Result.RetCode × QResult) :=
  if ins.retcode = .error then .ok (.error, r)
  else if ins.addcnt = some 1 then do
    match ← SC_pos_newload in_trans r ins.first with
    | (.error, r) => .ok (.error, r)
    | (.success, r) => .ok (ins.retcode, r)
    | (.noDataFound, r) =>
      match ← SC_pos_newload in_trans r ins.second with
      | (.error, r) => .ok (.error, r)
      | (_, r) => .ok (ins.retcode, r)
  else .ok (ins.retcode, r)

/-- What the application is told of a row: that it was added, or the return code. -/
inductive RowStatus
  | added
  | code (ret : Result.RetCode)
  deriving DecidableEq, Repr

/-- The end of `pos_add_callback`: the last row of the result is marked as added. -/
def markAdded (in_trans : Bool) (ret : Result.RetCode) (r : QResult) : QResult × RowStatus :=
  if ret = .success then
    (r.modifyKey ((r.num_total_tuples : ℤ) - 1) fun k => { k with status := addedStatus in_trans },
      .added)
  else (r, .code ret)

/-- `SC_pos_add`: without a column to insert nothing is sent. -/
def SC_pos_add (in_trans : Bool) (r : QResult) :
    Option Insertion → Except Fault (QResult × RowStatus)
  | none => .ok (r, .code .successWithInfo)
  | some ins => do
    let (ret, r) ← irow_insert in_trans r ins
    .ok (markAdded in_trans ret r)

/-! ### Undoing -/

/-- `RemoveDeleted` and `RemoveUpdated`. -/
def QResult.removeChanged (r : QResult) (index : ℤ) : QResult :=
  { r with
    deleted := RemoveDeleted r.num_total_read r.deleted index
    updated := RemoveUpdated r.updated index }

/-- `ClearCachedRows` of one added row. -/
def clearAdded (num_fields : ℕ) (tuples : Option (List Tuple)) (i : ℕ) :
    Except Fault (Option (List Tuple)) :=
  if num_fields = 0 then .ok tuples
  else
    match tuples with
    | none => .error .unallocated
    | some ts => some <$> put .outOfBounds ts i (List.replicate num_fields none)

/-- The data of the rows behind an added row moves up. -/
def moveTuples (tuples : Option (List Tuple)) (i n : ℕ) : Except Fault (Option (List Tuple)) :=
  match tuples with
  | none => .ok none
  | some ts => some <$> moveUp .outOfBounds ts i n

/-- `RemoveAdded`. -/
def RemoveAdded (r : QResult) (index : ℤ) : Except Fault QResult :=
  let rmidx : ℤ := if index < 0 then -index - 1 else index - r.num_total_read
  if r.ad_count ≤ rmidx then .ok r
  else if rmidx < 0 then .error .outOfBounds
  else do
    let mv_count := r.ad_count - rmidx.toNat - 1
    let cleared ← clearAdded r.num_fields r.added_tuples rmidx.toNat
    let added_keyset ← moveUp .outOfBounds r.added_keyset rmidx.toNat mv_count
    let added_tuples ← moveTuples cleared rmidx.toNat mv_count
    .ok { r.removeChanged index with
      added_keyset := added_keyset, added_tuples := added_tuples, ad_count := r.ad_count - 1 }

/-- What the server says while changes are undone. -/
structure UndoServer where
  /-- `tupleExists`. -/
  tupleExists : Tid → Bool
  /-- The row that `positioned_load` finds, if it is one. -/
  positioned_load : Tid → Option Tuple

/-- The status of a row whose change is undone. -/
def undoneStatus (option : DmlCode) (status : BitVec 16) : BitVec 16 :=
  let kept := status &&& ~~~keysetInfoPublic
  (match option with
    | .delete => kept &&& ~~~cursSelfDeleting
    | .update => kept &&& ~~~cursSelfUpdating
    | _ => kept) ||| cursNeedsReread

/-- The lists of a result that is read through a cursor, when a change is undone. -/
def undoListed (r : QResult) (e : Rollback) : Except Fault QResult :=
  if !r.cursor then .ok r
  else
    (if e.option = .add then RemoveAdded r e.index else .ok r) >>= fun r =>
      .ok (r.removeChanged e.index)

/-- The cached row that was added is taken back. -/
def dropRow (r : QResult) (index : ℤ) : Except Fault QResult :=
  if r.HasRow index then do
    let backend_tuples ← put .outOfBounds r.backend_tuples (r.cacheIdx index).toNat
      (List.replicate r.num_fields none)
    .ok { r with backend_tuples := backend_tuples, num_cached_rows := r.num_cached_rows - 1 }
  else .ok r

/-- The cached key of a row is what it was before the change. -/
def restoreKey (r : QResult) (e : Rollback) (reread : Bool) : QResult :=
  r.modifyKey e.index fun k =>
    { k.setTid e.tid with
      status := if reread then undoneStatus e.option k.status &&& ~~~cursNeedsReread
        else undoneStatus e.option k.status }

/-- The cached row whose change is undone is read again. -/
def restoreRow (server : UndoServer) (r : QResult) (e : Rollback) : Except Fault QResult :=
  match if r.HasRow e.index then server.positioned_load e.tid else none with
  | none => .ok (restoreKey r e false)
  | some tuple => do
    let backend_tuples ← put .outOfBounds r.backend_tuples (r.cacheIdx e.index).toNat tuple
    .ok (restoreKey { r with backend_tuples := backend_tuples } e true)

/-- The caches, when a change is undone. -/
def undoCached (server : UndoServer) (r : QResult) (e : Rollback) : Except Fault QResult :=
  if ¬ (0 ≤ e.index ∧ r.HasKey e.index) then .ok r
  else if e.option = .add then do
    let r ← dropRow r e.index
    .ok { r with
      num_cached_keys := r.num_cached_keys - 1
      ad_count := if r.cursor then r.ad_count else (r.ad_count + 2 ^ 32 - 1) % 2 ^ 32 }
  else restoreRow server r e

/-- One round of the loop of `UndoRollback`. -/
def undoEntry (server : UndoServer) (r : QResult) (e : Rollback) : Except Fault QResult :=
  undoListed r e >>= (undoCached server · e)

/-- The first loop of a partial undo: the entry from which the changes are in doubt, and the entry
up to which they are. -/
def doubtLoop (tupleExists : Tid → Bool) : List Rollback → ℕ → ℕ → ℕ × ℕ
  | [], i, doubtp => (doubtp, i)
  | e :: es, i, doubtp =>
    if e.option = .add then
      doubtLoop tupleExists es (i + 1) (if tupleExists e.tid then i + 1 else doubtp)
    else if tupleExists e.tid then (doubtp, i)
    else doubtLoop tupleExists es (i + 1) (if doubtp = i then i + 1 else doubtp)

/-- The addition of entry `i` is undone: it is not followed by a deletion of the row. -/
def Lost (num_total_read : ℕ) (entries : List Rollback) (rollbp i : ℕ) : Bool :=
  match entries[i]? with
  | none => false
  | some e =>
    e.option = .add &&
      ((entries.take rollbp).drop (i + 1)).all fun d =>
        !(d.option = .delete &&
          (d.index = (if e.index < 0 then e.index else num_total_read - e.index - 1) ||
            d.index = (if e.index < 0 then num_total_read - e.index - 1 else e.index)))

/-- The second loop of a partial undo: from `doubtp` on to the first addition that is undone, again
and again. -/
def lostLoop (num_total_read : ℕ) (entries : List Rollback) (doubtp : ℕ) : ℕ → ℕ → ℕ
  | 0, rollbp => rollbp
  | fuel + 1, rollbp =>
    match (List.range' doubtp (rollbp - doubtp)).find? (Lost num_total_read entries rollbp) with
    | some i => lostLoop num_total_read entries doubtp fuel i
    | none => rollbp

/-- The entry from which a partial rollback undoes the log. Every round but the last one comes to an
earlier entry, so there are no more rounds than entries. -/
def rollbackPoint (tupleExists : Tid → Bool) (num_total_read : ℕ) (entries : List Rollback) : ℕ :=
  let (doubtp, rollbp) := doubtLoop tupleExists entries 0 0
  lostLoop num_total_read entries doubtp rollbp rollbp

/-- The log up to an entry. -/
def cutLog (log : UndoLog) (rollbp : ℕ) : UndoLog :=
  if rollbp = 0 then .cleared else ⟨some (log.entries.take rollbp), log.rb_alloc, rollbp⟩

/-- `UndoRollback`. -/
def UndoRollback (server : UndoServer) (partially : Bool) (r : QResult) : Except Fault QResult :=
  if r.log.rb_count = 0 ∨ r.log.rollback.isNone then .ok r
  else do
    let rollbp :=
      if partially then rollbackPoint server.tupleExists r.num_total_read r.log.entries else 0
    let undone ← (r.log.entries.drop rollbp).reverse.foldlM (undoEntry server) r
    .ok { undone with log := cutLog r.log rollbp }

/-- `CC_clear_cursors`, of a rollback: only a held cursor from before the transaction is left. -/
def clearCursors (r : QResult) : QResult :=
  if r.cursor && !(r.permanent && r.withhold) then
    { r with cursor := false, withhold := false, permanent := false }
  else r

/-- A rollback: to a savepoint, or of the transaction. -/
structure RollbackCall where
  partially : Bool
  server : UndoServer

/-- `CC_on_abort_partial` and `CC_on_abort`. -/
def RollbackCall.run (call : RollbackCall) (r : QResult) : Except Fault QResult :=
  UndoRollback call.server call.partially (if call.partially then r else clearCursors r)

end OdbcDriver.RowAdd
