import Mathlib.Algebra.Group.Int.Defs
import Mathlib.Algebra.Group.Nat.Defs
import OdbcDriver.Lib.Run
import OdbcDriver.Result.KeySet

/-!
# The bookkeeping of positioned changes

A positioned add, update or delete is a statement of its own on the server. What it did to the row
is kept in the status word of the row's key: a bit for a change that is under way in a transaction,
and another for one that is committed. Within a transaction the change also goes to the undo log of
the result. A result that is read through a server cursor has no keys for rows outside its cache,
and keeps lists of the rows that were added, updated and deleted.

The row that a change affects is looked for on the server afterwards; what is found there is part of
the call. The data of the rows is left out.
-/

namespace OdbcDriver.Result

/-! ### The state -/

/-- Where a row is: its tuple identifier and oid. -/
structure Tid where
  blocknum : BitVec 32 := 0
  offset : BitVec 16 := 0
  oid : BitVec 32 := 0
  deriving DecidableEq, Repr

/-- `KeySetSet`, which leaves the status alone. -/
def KeySet.setTid (k : KeySet) (t : Tid) : KeySet :=
  { k with blocknum := t.blocknum, offset := t.offset, oid := t.oid }

/-- A key that is cleared. -/
def KeySet.zero : KeySet := ⟨0, 0, 0, 0⟩

def KeySet.tid (k : KeySet) : Tid := ⟨k.blocknum, k.offset, k.oid⟩

/-- The codes of the undo log; `none` is the code 0, of a row that is only loaded again. -/
inductive DmlCode | none | add | update | delete
  deriving DecidableEq, Repr

/-- An entry of the undo log. -/
structure Rollback where
  index : Int
  tid : Tid
  option : DmlCode
  deriving DecidableEq, Repr

/-- The part of a `QResultClass` that positioned changes use. -/
structure QResult where
  /-- It is read through a server cursor (`cursor_name`). -/
  cursor : Bool
  /-- The cursor is held over a commit. -/
  withhold : Bool
  reached_eof : Bool
  num_total_read : Nat
  ad_count : Nat
  /-- The number of the first row whose key is cached: `rowset_start - key_base`. -/
  key_start : Nat
  /-- The number of the first row that is cached, and how many are. -/
  row_start : Int
  num_cached_rows : Nat
  cache_size : Nat
  /-- The keys that are cached. -/
  keyset : List KeySet
  added_keyset : List KeySet
  /-- `updated` and `updated_keyset`. -/
  updated : List (Int × KeySet)
  /-- `deleted` and `deleted_keyset`. -/
  deleted : List (Int × KeySet)
  rollback : List Rollback
  /-- 0 when there is no log. -/
  rb_alloc : Nat
  deriving DecidableEq, Repr

/-- A connection and a result on it. -/
structure Session where
  in_trans : Bool
  result_uncommitted : Bool
  res : QResult
  deriving DecidableEq, Repr

/-- `QR_get_num_total_tuples`. -/
def QResult.num_total_tuples (r : QResult) : Nat :=
  if r.reached_eof then r.num_total_read + r.ad_count else r.num_total_read

/-- `GIdx2KResIdx`: where the key of a row is cached. -/
def QResult.keyIndex (r : QResult) (index : Int) : Int := index - r.key_start

/-- The key of a row is cached. -/
def QResult.hasKey (r : QResult) (index : Int) : Bool :=
  0 ≤ r.keyIndex index && r.keyIndex index < r.keyset.length

/-- The key of a row. -/
def QResult.keyAt (r : QResult) (index : Int) : Option KeySet :=
  if r.hasKey index then r.keyset[(r.keyIndex index).toNat]? else none

/-- The key of a row is changed, where it is cached. -/
def QResult.modifyKey (r : QResult) (index : Int) (f : KeySet → KeySet) : QResult :=
  if r.hasKey index then { r with keyset := r.keyset.modify (r.keyIndex index).toNat f } else r

/-- The data of a row is cached: its `GIdx2CacheIdx` is. -/
def QResult.hasRow (r : QResult) (index : Int) : Bool :=
  r.row_start ≤ index && index < r.row_start + r.num_cached_rows

/-- The row cannot be changed: its key is not cached, and the caller has none that says where it is
("the target keys are out of the rowset"). -/
def QResult.outOfRowset (r : QResult) (index : Int) (key : Option KeySet) : Bool :=
  !r.hasKey index && ((key.map (·.offset)).getD 0 = 0)

/-- The three bits of changes that are under way. -/
def pendingBits : BitVec 16 := cursSelfAdding ||| cursSelfUpdating ||| cursSelfDeleting

/-! ### The undo log and the lists -/

/-- `AddRollback`. The allocation doubles, in 16 bits: an entry that it has no room for is written
behind it. -/
def AddRollback (s : Session) (index : Int) (tid : Tid) (code : DmlCode) : Option Session :=
  if !s.in_trans then some s
  else
    let alloc := if s.res.rb_alloc = 0 then 10
      else if s.res.rb_alloc ≤ s.res.rollback.length then 2 * s.res.rb_alloc % 2 ^ 16
      else s.res.rb_alloc
    if alloc ≤ s.res.rollback.length then none
    else some
      { s with
        result_uncommitted := true
        res := { s.res with rollback := s.res.rollback ++ [⟨index, tid, code⟩], rb_alloc := alloc } }

/-- `AddAdded`. -/
def AddAdded (s : Session) (index : Int) (tid : Tid) : Option Session := do
  let keys := { KeySet.zero.setTid tid with
    status := sqlRowAdded ||| (if s.in_trans then cursSelfAdding else cursSelfAdded) }
  let ad_count := s.res.ad_count + 1
  let index := if s.res.cursor then -(ad_count : Int) else index
  let s ← AddRollback { s with res := { s.res with ad_count := ad_count } } index tid .add
  if s.res.cursor then
    return { s with res := { s.res with added_keyset := s.res.added_keyset ++ [keys] } }
  else return s

/-- The status of an updated row in the lists. -/
def updatedStatus (in_trans : Bool) (status : BitVec 16) : BitVec 16 :=
  let status := status &&& ~~~keysetInfoPublic ||| sqlRowUpdated
  if in_trans then status ||| cursSelfUpdating
  else (status ||| cursSelfUpdated) &&& ~~~pendingBits

/-- `AddUpdated`. Outside a transaction the entry of the row itself is changed where there is one:
its last update, or, for the row behind all others, the first added row. -/
def AddUpdated (s : Session) (index : Int) (key : KeySet) : Session :=
  if !s.res.cursor then s
  else
    let status := updatedStatus s.in_trans key.status
    let setStatus (k : KeySet) : KeySet := { k with status := status }
    let s := { s with result_uncommitted := s.result_uncommitted || s.in_trans }
    let upd_idx := if s.in_trans then none
      else (List.range s.res.updated.length).reverse.find? fun i =>
        decide ((s.res.updated[i]?.map (·.1)) = some index)
    match upd_idx with
    | some i =>
      { s with res := { s.res with updated := s.res.updated.modify i fun e => (e.1, setStatus e.2) } }
    | none =>
      if !s.in_trans ∧ index = s.res.num_total_tuples then
        { s with res := { s.res with added_keyset := s.res.added_keyset.modify 0 setStatus } }
      else { s with res := { s.res with updated := s.res.updated ++ [(index, setStatus key)] } }

/-- The status of a deleted row in the list. -/
def deletedStatus (in_trans : Bool) (status : BitVec 16) : BitVec 16 :=
  let status := status &&& ~~~keysetInfoPublic ||| sqlRowDeleted
  if in_trans then status ||| cursSelfDeleting
  else status &&& ~~~pendingBits ||| cursSelfDeleted

/-- `AddDeleted`. The indexes are sorted as unsigned numbers. -/
def AddDeleted (s : Session) (index : Int) (key : KeySet) : Session :=
  if !s.res.cursor then s
  else
    let before := s.res.deleted.takeWhile fun e => !decide (index % 2 ^ 64 < e.1 % 2 ^ 64)
    let after := s.res.deleted.dropWhile fun e => !decide (index % 2 ^ 64 < e.1 % 2 ^ 64)
    { s with
      result_uncommitted := s.result_uncommitted || s.in_trans
      res := { s.res with
        deleted := before ++ (index, { key with status := deletedStatus s.in_trans key.status }) ::
          after } }

/-! ### Loading a row again -/

/-- What a row that is looked for on the server turns out to be. -/
inductive Reload
  | failed
  | found (tid : Tid)
  /-- There is no such row, or more than one. -/
  | gone
  deriving DecidableEq, Repr

/-- The codes the functions return. -/
inductive RetCode | success | successWithInfo | error
  deriving DecidableEq, Repr

/-- How `SC_pos_reload_with_key` notes a row that is found. -/
def logReload (s : Session) (index : Int) (logKind : DmlCode) (key : KeySet) : Option Session :=
  match logKind with
  | .none => some s
  | .update => some (AddUpdated s index key)
  | code => AddRollback s index key.tid code

/-- `SC_pos_reload_with_key`. The row counts as updated: its identifier is compared as a text with
another layout. -/
def SC_pos_reload_with_key (s : Session) (index : Int) (logKind : DmlCode) (key : Option KeySet)
    (reload : Reload) : Option (Session × RetCode) :=
  if s.res.outOfRowset index key then some (s, .error)
  else
    let logged := (key <|> s.res.keyAt index).getD KeySet.zero
    match reload with
    | .failed => some (s, .error)
    | .found tid => do
      let s ← logReload s index logKind logged
      let res := if s.res.hasRow index then
          s.res.modifyKey index fun k => { k with status := k.status ||| sqlRowUpdated }.setTid tid
        else s.res
      return ({ s with res := res }, .success)
    | .gone => do
      let s ← AddRollback s index logged.tid logKind
      return ({ s with
        res := s.res.modifyKey index fun k => { k with status := k.status ||| sqlRowDeleted } },
        .successWithInfo)

/-! ### The positioned operations -/

/-- What the server answers to the update or the delete of a row. -/
inductive RowChange
  /-- An error, or an answer that is not understood. -/
  | refused
  /-- One row; its new identifier, and what is found there. -/
  | one (tid : Tid) (reload : Reload)
  /-- No row; what is found of it. -/
  | zero (reload : Reload)
  deriving DecidableEq, Repr

/-- What comes of the insert of a row. -/
inductive RowAdded
  | refused
  /-- One row, which is found, by its identifier or else by its oid; `info` says that the insert
  succeeds with information. -/
  | loaded (tid : Tid) (info : Bool)
  /-- It cannot be looked for. -/
  | loadFailed
  /-- No row is inserted, or it is not found: the driver goes on as after success. -/
  | lost
  deriving DecidableEq, Repr

/-- `irow_update`. -/
def irow_update (s : Session) (index : Int) (old : Tid) (change : RowChange) :
    Option (Session × RetCode) :=
  match change with
  | .refused => some (s, .error)
  | .one tid reload => do
    let (s, ret) ← SC_pos_reload_with_key s index .update (some (KeySet.zero.setTid tid)) reload
    if ret = .error then return (s, ret)
    else return (← AddRollback s index old .update, ret)
  | .zero reload => do
    let (s, _) ← SC_pos_reload_with_key s index .none none reload
    return (s, .error)

/-- `SC_pos_update`, with `pos_update_callback`. -/
def SC_pos_update (s : Session) (index : Int) (key : Option KeySet) (change : RowChange) :
    Option Session :=
  if s.res.outOfRowset index key then some s
  else do
    let old := ((s.res.keyAt index <|> key).getD KeySet.zero).tid
    let (s, ret) ← irow_update s index old change
    if ret = .success then
      return { s with
        res := s.res.modifyKey index fun k => { k with
          status := k.status ||| (sqlRowUpdated |||
            (if s.in_trans then cursSelfUpdating else cursSelfUpdated)) } }
    else return s

/-- The change that `SC_pos_delete` makes once the row is deleted. -/
def markDeleted (s : Session) (index : Int) (key : Option KeySet) : Session :=
  let s := match s.res.keyAt index <|> key with
    | some key => AddDeleted s index key
    | none => s
  { s with
    res := s.res.modifyKey index fun k => { k with
      status := k.status &&& ~~~keysetInfoPublic ||| (sqlRowDeleted |||
        (if s.in_trans then cursSelfDeleting else cursSelfDeleted)) } }

/-- `SC_pos_delete`. -/
def SC_pos_delete (s : Session) (index : Int) (key : Option KeySet) (change : RowChange) :
    Option Session :=
  if s.res.outOfRowset index key then some s
  else
    match change with
    | .refused => some s
    | .one _ reload => do
      let (s, ret) ← SC_pos_reload_with_key s index .delete (s.res.keyAt index <|> key) reload
      if ret = .error then return s else return markDeleted s index key
    | .zero reload =>
      if s.res.hasKey index then do
        let (s, _) ← SC_pos_reload_with_key s index .none none reload
        return s
      else some s

/-- `SC_pos_newload`, of a row that is found: its key goes behind the others, in a result without a
cursor or within its cache. -/
def SC_pos_newload (s : Session) (tid : Tid) : Option Session := do
  let index : Int := s.res.num_total_tuples
  let s ← AddAdded s index tid
  let k := s.res.keyIndex index
  if !s.res.cursor || (0 ≤ k && k < s.res.cache_size) then
    return { s with
      res := { s.res with keyset := s.res.keyset ++ [KeySet.zero] }.modifyKey index
        fun _ => KeySet.zero.setTid tid }
  else return s

/-- The key of the last row is marked as added. -/
def markAdded (s : Session) : Session :=
  { s with
    res := s.res.modifyKey ((s.res.num_total_tuples : Int) - 1) fun k => { k with
      status := sqlRowAdded ||| (if s.in_trans then cursSelfAdding else cursSelfAdded) } }

/-- `SC_pos_add`, with `irow_insert` and `pos_add_callback`. -/
def SC_pos_add (s : Session) (added : RowAdded) : Option Session :=
  match added with
  | .refused | .loadFailed => some s
  | .loaded tid info => do
    let s ← SC_pos_newload s tid
    if info then return s else return markAdded s
  | .lost => some (markAdded s)

/-! ### The end of a transaction -/

/-- The bits of changes that are under way become those of committed changes, in the lists. -/
def commitStatus (status : BitVec 16) : BitVec 16 :=
  let promote (under done status : BitVec 16) :=
    if status &&& under ≠ 0 then (status ||| done) &&& ~~~under else status
  promote cursSelfDeleting cursSelfDeleted (promote cursSelfUpdating cursSelfUpdated
    (promote cursSelfAdding cursSelfAdded status))

def KeySet.commit (k : KeySet) : KeySet := { k with status := commitStatus k.status }

/-- `CommitAdded`. -/
def CommitAdded (r : QResult) : QResult := { r with added_keyset := r.added_keyset.map KeySet.commit }

/-- `CommitUpdated`. -/
def CommitUpdated (r : QResult) : QResult :=
  { r with updated := r.updated.map fun e => (e.1, e.2.commit) }

/-- `CommitDeleted`. -/
def CommitDeleted (r : QResult) : QResult :=
  { r with deleted := r.deleted.map fun e => (e.1, e.2.commit) }

/-- The change that `DiscardRollback` makes to the status of a key. -/
def discardStatus (status : BitVec 16) : BitVec 16 :=
  status &&& ~~~pendingBits ||| (status &&& pendingBits) <<< 3

def KeySet.discard (k : KeySet) : KeySet := { k with status := discardStatus k.status }

/-- The body of the loop in `DiscardRollback`. -/
def discardEntry (r : QResult) (e : Rollback) : QResult :=
  if 0 ≤ e.index then r.modifyKey e.index KeySet.discard else r

/-- `DiscardRollback`. -/
def DiscardRollback (r : QResult) : QResult :=
  if r.cursor then CommitDeleted (CommitUpdated (CommitAdded r))
  else if r.rollback.isEmpty then r
  else
    { r.rollback.foldl discardEntry r with rollback := [], rb_alloc := 0 }

/-- `CC_on_commit`. A cursor that is not held is closed with the transaction; `survives` says
whether a held one is still there. -/
def CC_on_commit (survives : Bool) (s : Session) : Session where
  in_trans := false
  result_uncommitted := false
  res :=
    let r := { s.res with cursor := s.res.cursor && s.res.withhold && survives }
    if s.result_uncommitted then DiscardRollback r else r

/-! ### Runs -/

/-- The calls of the application. `begins` says that the request begins a transaction. -/
inductive ChangeCall
  | add (begins : Bool) (added : RowAdded)
  | update (begins : Bool) (index : Int) (key : Option KeySet) (change : RowChange)
  | delete (begins : Bool) (index : Int) (key : Option KeySet) (change : RowChange)
  | commit (survives : Bool)

/-- A transaction begins, where the request begins one. -/
def Session.begin (s : Session) (begins : Bool) : Session :=
  { s with in_trans := s.in_trans || begins }

/-- The session after a call; `none` when memory behind the undo log is written. -/
def ChangeCall.run (s : Session) : ChangeCall → Option Session
  | .add begins added => SC_pos_add (s.begin begins) added
  | .update begins index key change => SC_pos_update (s.begin begins) index key change
  | .delete begins index key change => SC_pos_delete (s.begin begins) index key change
  | .commit survives => some (if s.in_trans then CC_on_commit survives s else s)

end OdbcDriver.Result
