import OdbcDriver.Result.AddedRows
import OdbcDriver.Lib.Run

/-!
# A row that is added goes to its place

The calls here are those on a keyset result that was read without a server cursor: rows are added,
loaded again one by one or around a rowset, and their changes undone or committed. `Whole` is what
all of them keep: the cached keys are those of all rows, and the cached rows are some of them that
follow each other. So the number of cached keys, which the test of the capacity uses, is the number
of the new row, at which its key is stored. `Pending` says the same of the log: the additions in it
are those of the last rows.

Before the first rowset is fetched the driver takes the cached rows for one row fewer than they are
(`base` is 0 and `rowset_start` is -1), so the data of a row that is added then is not cached.
-/

namespace OdbcDriver.RowAdd

open Lib (ok_bind)
open Result RowLists HeapArray

/-! ### Moving the rowset -/

/-- What is loaded again around a rowset (`SC_pos_reload_needed`): the number of rows that are asked
for, their data, and what becomes of their keys. -/
structure Window where
  rows : ℕ
  tuple : ℕ → Tuple
  key : ℕ → KeySet → KeySet

/-- `SC_set_rowset_start` with a valid base, of a result without a cursor. -/
def SC_set_rowset_start (r : QResult) (start : ℤ) : QResult :=
  { r with
    has_valid_base := true
    base := if r.has_valid_base then r.base + (start - r.rowset_start)
      else if start < 0 then -1 else start
    key_base := start
    rowset_start := start }

/-- `SC_pos_reload_needed`, when it loads the rows of a keyset-driven cursor from its keys. -/
def loadWindow (r : QResult) (w : Window) : QResult :=
  let limitrow : ℤ := min (r.rowset_start + w.rows) r.num_cached_keys
  let brows := (limitrow - r.rowset_start).toNat
  let mem := if r.backend_tuples.length < brows then realloc r.backend_tuples brows []
    else r.backend_tuples
  { r with
    backend_tuples := (List.range brows).map w.tuple ++ mem.drop brows
    num_cached_rows := brows
    base := 0
    keyset := r.keyset.mapIdx fun i k =>
      if r.kresIdx r.rowset_start ≤ i ∧ i < r.kresIdx limitrow then w.key i k else k }

/-- The end of `PGAPI_ExtendedFetch`: the rowset starts before the first row, behind the last one or
at a row. -/
def moveTo (r : QResult) (start : ℤ) (window : Option Window) : QResult :=
  if start < 0 then SC_set_rowset_start r (-1)
  else if r.num_total_tuples ≤ start then SC_set_rowset_start r r.num_total_tuples
  else if r.keyset_driven then
    match window with
    | none => SC_set_rowset_start r start
    | some w => loadWindow (SC_set_rowset_start r start) w
  else { SC_set_rowset_start r start with base := start }

/-! ### Loading a row again -/

/-- Why a row is loaded again. -/
inductive LogKind
  | none
  | update
  | delete
  deriving DecidableEq, Repr

/-- The code of the entry in the log. -/
def LogKind.code : LogKind → DmlCode
  | .none => .none
  | .update => .update
  | .delete => .delete

/-- The row that is found takes the place of the cached one. The two texts of its place that are
compared are written in different ways, so a keyset-driven cursor always marks the row. -/
def replaceRow (r : QResult) (index : ℤ) (row : NewRow) : Except Fault QResult :=
  if ¬ r.HasRow index then .ok r
  else if ¬ r.HasKey index then .error .outOfBounds
  else do
    let backend_tuples ← put .outOfBounds r.backend_tuples (r.cacheIdx index).toNat row.tuple
    .ok ({ r with backend_tuples := backend_tuples }.modifyKey index fun k =>
      { k.setTid row.tid with
        status := if r.keyset_driven then k.status ||| sqlRowUpdated else k.status })

/-- The place of a row that the log notes: the one that the caller says, or the cached one. -/
def notedTid (r : QResult) (index : ℤ) (keyset : Option KeySet) : Tid :=
  (keyset.getD (r.keyset[(r.kresIdx index).toNat]?.getD .zero)).tid

/-- `SC_pos_reload_with_key`, of a result without a cursor: `AddUpdated` leaves that alone. -/
def SC_pos_reload_with_key (in_trans : Bool) (r : QResult) (index : ℤ) (logKind : LogKind)
    (keyset : Option KeySet) (load : Load) : Except Fault QResult :=
  if ¬ r.HasKey index ∧ (keyset.map (·.offset)).getD 0 = 0 then .ok r
  else
    match load with
    | .failed => .ok r
    | .rows [row] =>
      (if logKind = .delete then r.note in_trans index (notedTid r index keyset) .delete
        else .ok r) >>= fun r => replaceRow r index row
    | .rows _ =>
      r.note in_trans index (notedTid r index keyset) logKind.code >>= fun r =>
        .ok (if r.keyset_driven then
          r.modifyKey index fun k => { k with status := k.status ||| sqlRowDeleted } else r)

/-! ### Calls -/

/-- `DiscardRollback`, of a result without a cursor. -/
def DiscardRollback (r : QResult) : QResult :=
  if r.log.rb_count = 0 ∨ r.log.rollback.isNone then r
  else
    { r.log.entries.foldl
        (fun r e => if 0 ≤ e.index then r.modifyKey e.index KeySet.discard else r) r with
      log := .cleared }

/-- A connection and the result on it. -/
structure Session where
  in_trans : Bool
  res : QResult

/-- A call on a result without a cursor. -/
inductive Call
  /-- A transaction begins. -/
  | begin
  | add (ins : Option Insertion)
  | fetch (start : ℤ) (window : Option Window)
  | reload (index : ℤ) (logKind : LogKind) (keyset : Option KeySet) (load : Load)
  | rollback (call : RollbackCall)
  | commit

/-- What a call does. -/
def Call.run (s : Session) : Call → Except Fault Session
  | .begin => .ok { s with in_trans := true }
  | .add ins => (fun added => { s with res := added.1 }) <$> SC_pos_add s.in_trans s.res ins
  | .fetch start window => .ok { s with res := moveTo s.res start window }
  | .reload index logKind keyset load =>
    (fun res => { s with res := res }) <$>
      SC_pos_reload_with_key s.in_trans s.res index logKind keyset load
  | .rollback call =>
    (fun res => { s with in_trans := s.in_trans && call.partially, res := res }) <$> call.run s.res
  | .commit => .ok { s with in_trans := false, res := DiscardRollback s.res }

/-- The history of a result; it ends at the first thing that the driver must not do. -/
def history : Machine (Except Fault Session) Call Unit := ⟨fun s call => (s >>= call.run, ())⟩

/-! ### What a call is to do -/

/-- The row that the server added and that was found again. -/
def Insertion.found (ins : Insertion) : Option NewRow :=
  if ins.retcode = .error ∨ ins.addcnt ≠ some 1 then none
  else
    match ins.first, ins.second with
    | .rows [row], _ => some row
    | .rows [], .rows [row] => some row
    | _, _ => none

/-- The new row is stored as the last one, within the allocations: its key with the status of an
added row, and its data if the cached rows reach the end of the result. -/
structure Stored (in_trans : Bool) (row : NewRow) (r r' : QResult) : Prop where
  count : r'.num_cached_keys = r.num_total_tuples + 1
  key : r'.keyset[r.num_total_tuples]? = some (keyOf row.tid (addedStatus in_trans))
  others : ∀ i < r.num_total_tuples, r'.keyset[i]? = r.keyset[i]?
  row : r.cacheIdx r.num_total_tuples = r.num_cached_rows →
    r'.num_cached_rows = r.num_cached_rows + 1 ∧
      r'.backend_tuples[r.num_cached_rows]? = some row.tuple

/-- No key is new, and none is marked. -/
structure Unmarked (r r' : QResult) : Prop where
  count : r'.num_cached_keys = r.num_cached_keys
  keys : ∀ i < r.num_cached_keys, r'.keyset[i]? = r.keyset[i]?

/-- What the claim to have added a row stands on. -/
def AddRight (in_trans : Bool) (r : QResult) (ins : Option Insertion) : Prop :=
  ∃ r' status, SC_pos_add in_trans r ins = .ok (r', status) ∧
    (status = .added → ins.bind Insertion.addcnt = some 1) ∧
    match ins.bind Insertion.found with
    | some row => Stored in_trans row r r'
    | none => status ≠ .added ∧ Unmarked r r'

/-- Every addition is right, in a history that goes on. -/
def AddsRight (s : Except Fault Session) (call : Call) : Prop :=
  ∃ s₁ s₂, s = .ok s₁ ∧ call.run s₁ = .ok s₂ ∧
    ∀ ins, call = .add ins → AddRight s₁.in_trans s₁.res ins

/-- There is room for one more entry in the log. -/
def Session.Room (s : Session) : Prop := s.in_trans = true → s.res.log.rb_count < 40960

/-- The insert does what it is to: when it succeeds, one row was inserted, and is found again or
cannot be looked for; a row that is found comes without a warning, after a rowset was fetched or
when the cached rows do not reach the end of the result; and there is room for it. -/
structure Insertion.Fine (s : Session) (ins : Insertion) : Prop where
  one : ins.retcode = .success → ins.addcnt = some 1
  looked : ins.retcode = .success → ins.first = .rows [] → ins.second ≠ .rows []
  found : ins.found.isSome = true → ins.retcode = .success
  fetched : ins.found.isSome = true → s.res.has_valid_base = true ∨
    s.res.cacheIdx s.res.num_total_tuples ≠ s.res.num_cached_rows
  room : ins.found.isSome = true → s.Room ∧ s.res.ad_count + 1 < 2 ^ 32

/-- The additions of a history do what they are to, and the log of a transaction has room. -/
def Call.Fine (s : Session) : Call → Prop
  | .add (some ins) => ins.Fine s
  | .reload _ _ _ _ => s.Room
  | _ => True

/-- The result as it is read without a cursor: all its rows and their keys are cached, and no rowset
was fetched. -/
structure Session.Start (s : Session) : Prop where
  cursor : s.res.cursor = false
  reached_eof : s.res.reached_eof = true
  has_valid_base : s.res.has_valid_base = false
  base : s.res.base = 0
  rowset_start : s.res.rowset_start = -1
  num_cached_keys : s.res.num_cached_keys = s.res.num_total_read
  num_cached_rows : s.res.num_cached_rows = s.res.num_total_read
  keys_room : s.res.num_cached_keys ≤ s.res.keyset.length
  rows_room : s.res.num_cached_rows ≤ s.res.backend_tuples.length
  ad_count : s.res.ad_count = 0
  log : s.res.log = .cleared

end OdbcDriver.RowAdd
