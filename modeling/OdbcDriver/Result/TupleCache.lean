import OdbcDriver.Lib.CInt
import OdbcDriver.Lib.HeapArray
import OdbcDriver.Lib.Run
import OdbcDriver.Result.KeySet

/-!
# The row cache and the key cache of a result

The rows that are read go to `backend_tuples`, and of an updatable result their keys to `keyset`. The
two arrays grow by separate rules: `QR_prepare_for_tupledata` for the rows of a result that has no
cursor, or not yet one, and `enlargeKeyCache` before rows are fetched through a cursor, by as many as
`QR_next_tuple` finds that the cache has to hold.

An array has the length that was allocated, and a write behind it stops the run. What the server
answers to a MOVE and to a FETCH is a parameter, and so is where the application has placed the next
rowset. Allocations that fail are left out.
-/

namespace OdbcDriver.TupleCache

open CInt HeapArray Result

/-- Why a run does not go on. -/
inductive Stop
  /-- `Result set exceeds maximum allowed rows`. -/
  | refused
  /-- A row or a key would be written behind its array. -/
  | beyond
  deriving DecidableEq, Repr

/-- `move_direction`. -/
inductive MoveDirection | none | forward | backward | fromTheLast
  deriving DecidableEq, Repr

/-- The part of a `QResultClass` that fetches use. `count_backend_allocated` and
`count_keyset_allocated` are the lengths of the arrays. -/
structure QResult (ρ : Type) where
  num_fields : Nat
  haskeyset : Bool
  synchronize_keys : Bool
  /-- `QR_get_cursor` -/
  cursor : Bool
  reached_eof : Bool
  has_valid_base : Bool
  dataFilled : Bool
  num_total_read : Int
  cursTuple : Int
  backend_tuples : List (Option ρ)
  num_cached_rows : Nat
  keyset : List KeySet
  num_cached_keys : Nat
  fetch_number : Int
  /-- `QR_get_rowstart_in_cache` -/
  base : Int
  key_base : Int
  cache_size : Nat
  cmd_fetch_size : Nat
  /-- `QR_get_reqsize` -/
  req_size : Int
  move_offset : Nat
  move_direction : MoveDirection
  /-- The rows that the application added: `added_tuples` and `added_keyset`. -/
  added : List (ρ × KeySet)
  /-- `deleted`, with the status of `deleted_keyset`. -/
  deleted : List (Int × BitVec 16)
  /-- `updated`, `updated_keyset` and `updated_tuples`. -/
  updated : List (Int × KeySet × ρ)

def QR_MAX_BACKEND_TUPLES : Nat := 10000000
def QR_MAX_BACKEND_TUPLES_HALF : Nat := QR_MAX_BACKEND_TUPLES / 2
def TUPLE_MALLOC_INC : Nat := 100
def TUPLE_GROWTH_FACTOR : Nat := 2

variable {ρ : Type}

/-- `QR_get_num_total_tuples`. -/
def QR_get_num_total_tuples (self : QResult ρ) : Int :=
  if self.reached_eof then self.num_total_read + self.added.length else self.num_total_read

/-- `QR_Constructor`, and what is set before the rows are read. -/
def QR_Constructor (num_fields : Nat) (haskeyset synchronize_keys : Bool) (cache_size : Nat) :
    QResult ρ where
  num_fields := num_fields
  haskeyset := haskeyset
  synchronize_keys := synchronize_keys
  cursor := false
  reached_eof := false
  has_valid_base := false
  dataFilled := false
  num_total_read := 0
  cursTuple := -1
  backend_tuples := []
  num_cached_rows := 0
  keyset := []
  num_cached_keys := 0
  fetch_number := 0
  base := -1
  key_base := -1
  cache_size := cache_size
  cmd_fetch_size := cache_size
  req_size := 1
  move_offset := 0
  move_direction := .none
  added := []
  deleted := []
  updated := []

/-! ### Growing -/

/-- The new size of an array that is full. -/
def nextSize (tuple_size : Nat) : Except Stop Nat :=
  if tuple_size < 1 then .ok TUPLE_MALLOC_INC
  else if QR_MAX_BACKEND_TUPLES_HALF ≤ tuple_size then .error .refused
  else .ok (min (tuple_size * TUPLE_GROWTH_FACTOR) QR_MAX_BACKEND_TUPLES_HALF)

/-- An array is enlarged if it is full. -/
def growIf {α : Type} (full : Prop) [Decidable full] (mem : List α) (fill : α) :
    Except Stop (List α) :=
  if full then (nextSize mem.length).map fun n => realloc mem n fill else .ok mem

/-- `QR_prepare_for_tupledata`. -/
def QR_prepare_for_tupledata (self : QResult ρ) : Except Stop (QResult ρ) :=
  if self.cursor then .ok self
  else do
    let num_total_rows := QR_get_num_total_tuples self
    let backend_tuples ← growIf
      (0 < self.num_fields ∧ (self.backend_tuples.length : Int) ≤ num_total_rows)
      self.backend_tuples none
    let keyset ← growIf (self.haskeyset ∧ self.keyset.length ≤ self.num_cached_keys) self.keyset {}
    return { self with backend_tuples := backend_tuples, keyset := keyset }

/-- The new size of an array of `alloc` entries that has to hold `alloc_req`. -/
def enlargedSize (curs : Bool) (alloc alloc_req : Nat) : Nat :=
  if alloc < 1 then
    if curs then alloc_req else if TUPLE_MALLOC_INC < alloc_req then alloc_req else TUPLE_MALLOC_INC
  else doubleTo alloc_req alloc_req alloc

/-- `enlargeKeyCache`. An array of no entries is a null pointer. -/
def enlargeKeyCache (self : QResult ρ) (add_size : Int) : QResult ρ :=
  if add_size ≤ 0 then self
  else
    let alloc_req := (wrap 32 self.num_cached_rows + add_size).toNat
    let backend_tuples :=
      if 0 < self.num_fields ∧
          (self.backend_tuples.length < alloc_req ∨ self.backend_tuples.length = 0) then
        realloc self.backend_tuples (enlargedSize self.cursor self.backend_tuples.length alloc_req)
          none
      else self.backend_tuples
    let alloc_req := (wrap 32 self.num_cached_keys + add_size).toNat
    let keyset :=
      if self.haskeyset ∧ (self.keyset.length < alloc_req ∨ self.keyset.length = 0) then
        realloc self.keyset (enlargedSize self.cursor self.keyset.length alloc_req) {}
      else self.keyset
    { self with backend_tuples := backend_tuples, keyset := keyset }

/-! ### Reading rows -/

/-- One row of `QR_read_tuples_from_pgres`, with its key. -/
def readTuple (self : QResult ρ) (row : ρ × KeySet) : Except Stop (QResult ρ) := do
  let self ← QR_prepare_for_tupledata self
  let backend_tuples ← putIf (0 < self.num_fields) .beyond self.backend_tuples self.num_cached_rows
    (some row.1)
  let keyset ← putIf (self.haskeyset = true) .beyond self.keyset self.num_cached_keys row.2
  let cursTuple := self.cursTuple + 1
  return { self with
    backend_tuples := backend_tuples
    keyset := keyset
    cursTuple := cursTuple
    num_cached_rows := if 0 < self.num_fields then self.num_cached_rows + 1 else self.num_cached_rows
    num_cached_keys := if self.haskeyset then self.num_cached_keys + 1 else self.num_cached_keys
    num_total_read := if self.num_total_read ≤ cursTuple then cursTuple + 1 else self.num_total_read }

/-- What the server sends: rows, up to the end or up to an error. -/
structure Reply (ρ : Type) where
  rows : List (ρ × KeySet)
  complete : Bool

/-- `QR_read_tuples_from_pgres`; the flag is what it returns. -/
def QR_read_tuples_from_pgres (self : QResult ρ) (reply : Reply ρ) :
    Except Stop (QResult ρ × Bool) := do
  let self ← reply.rows.foldlM readTuple self
  return ({ self with dataFilled := self.dataFilled || reply.complete }, reply.complete)

/-- `QR_from_PGresult`, after the rows have been read: behind `num_cached_rows` others. `newConn` says
that it is the first read of the result. -/
def afterRead (self : QResult ρ) (num_cached_rows : Nat) (newConn cursor : Bool) : QResult ρ :=
  let self := if !self.reached_eof ∧ self.num_total_read ≤ self.cursTuple then
    { self with num_total_read := self.cursTuple + 1 } else self
  let reached_eof_now := self.num_cached_rows - num_cached_rows < self.cmd_fetch_size
  let self := if reached_eof_now then { self with reached_eof := true } else self
  let self := if reached_eof_now ∧ self.cursTuple < self.num_total_read then
    { self with cursTuple := self.num_total_read } else self
  let self := if newConn then { self with fetch_number := 0, base := 0, key_base := 0 } else self
  { self with cursor := cursor, reached_eof := self.reached_eof || !cursor }

/-- `QR_from_PGresult`. -/
def QR_from_PGresult (self : QResult ρ) (newConn cursor : Bool) (reply : Reply ρ) :
    Except Stop (QResult ρ × Bool) := do
  let (read, ok) ← QR_read_tuples_from_pgres self reply
  return (if ok then afterRead read self.num_cached_rows newConn cursor else read, ok)

/-! ### The cache and the position -/

/-- `QR_set_num_cached_rows`. -/
def QR_set_num_cached_rows (self : QResult ρ) (num_rows : Nat) : QResult ρ :=
  { self with
    num_cached_rows := num_rows
    num_cached_keys := if self.synchronize_keys then num_rows else self.num_cached_keys }

/-- `QR_set_rowstart_in_cache`. -/
def QR_set_rowstart_in_cache (self : QResult ρ) (start : Int) : QResult ρ :=
  { self with
    base := start
    key_base := if self.synchronize_keys then start else self.key_base }

/-- `ClearCachedRows`, of the first rows. -/
def ClearCachedRows (tuple : List (Option ρ)) (num_rows : Nat) : List (Option ρ) :=
  List.replicate (min num_rows tuple.length) none ++ tuple.drop num_rows

/-- The positions of the statement. -/
structure Stmt where
  rowset_start : Int
  currTuple : Int

/-- `CacheIdx2GIdx`. -/
def CacheIdx2GIdx (ridx : Int) (stmt : Stmt) (res : QResult ρ) : Int :=
  ridx - res.base + stmt.rowset_start

/-- `GIdx2KResIdx`. -/
def GIdx2KResIdx (gidx : Int) (stmt : Stmt) (res : QResult ρ) : Int :=
  gidx - if res.has_valid_base then stmt.rowset_start - res.key_base else 0

/-! ### The next row -/

/-- What the server answers to a MOVE: nothing good; or a command tag, with the number of rows where
it has one. -/
inductive MoveReply
  | failed
  | moved (count : Option Nat)

/-- The settings and the server, for one call. -/
structure Server (ρ : Type) where
  fetch_max : Nat
  move : MoveReply
  /-- The answer to `fetch n`; there is none where the command fails as a whole. -/
  fetch : Int → Option (Reply ρ)
  /-- At most so many rows are sent as were asked for. -/
  fetch_le : ∀ n reply, 0 ≤ n → fetch n = some reply → (reply.rows.length : Int) ≤ n

/-- How the cursor is moved: the result after it, and the place of the row in the cache; or the result
as the failed command leaves it. -/
def moveCursor (self : QResult ρ) (fetch_size : Int) (move : MoveReply) :
    QResult ρ × Option Int :=
  let curr_eof := self.reached_eof ∧ self.num_total_read ≤ self.cursTuple
  let backward := self.move_direction = .backward
  let movement : Int :=
    if backward then
      if self.req_size < fetch_size then
        let movement := self.move_offset + (fetch_size - if self.req_size < 0 then 1 else self.req_size)
        if self.cursTuple + 1 < movement then self.cursTuple + 1 else movement
      else self.move_offset
    else if self.move_direction = .forward then self.move_offset
    else 2147483647
  let self := if backward ∧ ¬ self.req_size < fetch_size then
    { self with cache_size := self.req_size.toNat } else self
  match move with
  | .failed => (self, none)
  | .moved count =>
    let moved : Int := match count with | some n => n | none => movement
    let fewer := count.isSome ∧ moved < movement
    let moved := if fewer ∧ ¬ (moved = 0 ∧ ((backward ∧ self.cursTuple < 0) ∨
      (¬ backward ∧ self.move_direction ≠ .none ∧ curr_eof))) then moved + 1 else moved
    let self := if fewer ∧ ¬ backward ∧ self.move_direction ≠ .none ∧ ¬ self.reached_eof then
      { self with num_total_read := self.cursTuple + moved, reached_eof := true } else self
    let self := QR_set_rowstart_in_cache self (-1)
    if backward then
      ({ self with cursTuple := self.cursTuple - moved, move_offset := 0 },
        some (moved - self.move_offset))
    else
      ({ self with cursTuple := self.cursTuple + moved, move_offset := 0 },
        some (self.move_offset - moved))

/-- At the end, the rows that the application added, behind the last row that was read; and the place of
the row that is looked for, which is the first one where no row was read. -/
def appendAdded (self : QResult ρ) (stmt : Stmt) (offset fetch_size cur_fetch : Int) :
    Except Stop (QResult ρ × Int) :=
  if ¬ (self.reached_eof ∧ self.num_total_read ≤ self.cursTuple) ∨ self.added.length = 0 ∨
      fetch_size ≤ cur_fetch then .ok (self, offset)
  else do
    let start_idx := CacheIdx2GIdx offset stmt self - self.num_total_read
    let add_size := if 0 ≤ start_idx then self.added.length - start_idx else self.added.length
    let first := 0 ≤ start_idx ∧ self.num_cached_rows = 0
    let self := if first then { QR_set_rowstart_in_cache self 0 with fetch_number := 0 } else self
    let offset := if first then 0 else offset
    let start_idx := max start_idx 0
    let add_size := if fetch_size - cur_fetch < add_size then fetch_size - cur_fetch
      else max add_size 0
    let self := enlargeKeyCache self add_size
    let rows := (self.added.drop start_idx.toNat).take add_size.toNat
    let keyset ← putAll .beyond self.keyset self.num_cached_rows (rows.map (·.2))
    let backend_tuples ← putAllIf (0 < self.num_fields) .beyond self.backend_tuples
      self.num_cached_rows (rows.map fun row => some row.1)
    return ({ self with
      keyset := keyset
      backend_tuples := backend_tuples
      num_cached_rows := self.num_cached_rows + add_size.toNat
      num_cached_keys := self.num_cached_keys + add_size.toNat }, offset)

/-- The status of a key is changed. -/
def modifyKey (keyset : List KeySet) (i : Int) (f : KeySet → KeySet) : Except Stop (List KeySet) :=
  match if 0 ≤ i then keyset[i.toNat]? else none with
  | some key => .ok (keyset.set i.toNat (f key))
  | none => .error .beyond

def markKey (key : KeySet) : KeySet := { key with status := key.status ||| cursNeedsReread }
def unmarkKey (key : KeySet) : KeySet := { key with status := key.status &&& ~~~cursNeedsReread }

/-- The keys from `i` on. -/
def modifyKeys (f : KeySet → KeySet) : Nat → Int → List KeySet → Except Stop (List KeySet)
  | 0, _, keyset => .ok keyset
  | n + 1, i, keyset => do modifyKeys f n (i + 1) (← modifyKey keyset i f)

/-- The rows that the application deleted get their status back. -/
def applyDeleted (stmt : Stmt) (lidx hidx : Int) :
    List (Int × BitVec 16) → QResult ρ → Except Stop (QResult ρ)
  | [], self => .ok self
  | (d, status) :: deleted, self =>
    if hidx ≤ d then .ok self
    else do
      let lf := GIdx2KResIdx d stmt self
      if lidx ≤ d ∧ 0 ≤ lf ∧ lf < self.num_cached_keys then
        let keyset ← modifyKey self.keyset lf fun key => unmarkKey { key with status := status }
        applyDeleted stmt lidx hidx deleted { self with keyset := keyset }
      else applyDeleted stmt lidx hidx deleted self

/-- The rows that the application updated get their keys and their data back, the newest first. -/
def applyUpdated (stmt : Stmt) (lidx hidx : Int) :
    List (Int × KeySet × ρ) → QResult ρ → Except Stop (QResult ρ)
  | [], self => .ok self
  | (u, key, row) :: updated, self =>
    if u < hidx ∧ lidx ≤ u then do
      let lf := GIdx2KResIdx u stmt self
      match if 0 ≤ lf then self.keyset[lf.toNat]? else none with
      | none => .error .beyond
      | some old =>
        if old.status &&& cursNeedsReread = 0 then applyUpdated stmt lidx hidx updated self
        else do
          let backend_tuples ← putIf (0 < self.num_fields) .beyond self.backend_tuples lf.toNat
            (some row)
          applyUpdated stmt lidx hidx updated { self with
            keyset := self.keyset.set lf.toNat (unmarkKey key)
            backend_tuples := backend_tuples }
    else applyUpdated stmt lidx hidx updated self

/-- What the application changed in the rows that were read. -/
def applyChanges (self : QResult ρ) (stmt : Stmt) (num_rows_in : Nat) :
    Except Stop (QResult ρ) := do
  if self.keyset.length = 0 ∨ (self.deleted = [] ∧ self.updated = []) then return self
  else
    let lidx := CacheIdx2GIdx num_rows_in stmt self
    let hidx := CacheIdx2GIdx self.num_cached_rows stmt self
    let lkidx := GIdx2KResIdx lidx stmt self
    let hkidx := GIdx2KResIdx hidx stmt self
    let keyset ← modifyKeys markKey (hkidx - lkidx).toNat lkidx self.keyset
    let self ← applyDeleted stmt lidx hidx self.deleted { self with keyset := keyset }
    let self ← applyUpdated stmt lidx hidx self.updated.reverse self
    let keyset ← modifyKeys unmarkKey self.num_cached_rows 0 self.keyset
    return { self with keyset := keyset }

/-- What `QR_next_tuple` returns. -/
inductive Ret | found | endOfTuples | failed
  deriving DecidableEq, Repr

/-- The fetch: `adjusted` says that the rows are read behind those of the cache. -/
def fetchGroup (self : QResult ρ) (stmt : Stmt) (server : Server ρ) (offset fetch_size : Int)
    (adjusted : Bool) : Except Stop (QResult ρ × Ret) := do
  let self := enlargeKeyCache self (self.cache_size - self.num_cached_rows)
  let self := if adjusted then self
    else QR_set_rowstart_in_cache (QR_set_num_cached_rows self 0) offset
  let num_rows_in := self.num_cached_rows
  let self := { self with cmd_fetch_size := fetch_size.toNat }
  match server.fetch fetch_size with
  | none => return (self, .failed)
  | some reply =>
    let (self, ok) ← QR_from_PGresult self false self.cursor reply
    if !ok then return (self, .failed)
    else
      let cur_fetch : Int := (self.num_cached_rows : Int) - num_rows_in
      let (self, offset) ← appendAdded self stmt offset fetch_size cur_fetch
      let self ← applyChanges self stmt num_rows_in
      return (self, if offset < self.num_cached_rows then .found else .endOfTuples)

/-- `QR_next_tuple`, from where the rows are fetched: at the place `offset` in the cache, if the cursor
was moved. -/
def fetchMore (self : QResult ρ) (stmt : Stmt) (server : Server ρ) (fetch_size offset : Int) :
    Except Stop (QResult ρ × Ret) := do
  let end_tuple := self.req_size + self.base
  if !self.cursor then return ({ self with reached_eof := true }, .endOfTuples)
  else if self.num_cached_rows ≤ self.base ∨ self.move_direction ≠ .none then
    let self := { self with
      cache_size := fetch_size.toNat
      backend_tuples := ClearCachedRows self.backend_tuples self.num_cached_rows
      dataFilled := false
      move_direction := .none
      move_offset := 0
      fetch_number := offset + 1 }
    fetchGroup self stmt server offset fetch_size false
  else
    -- the rowset ends behind the cache
    let fetch_size := wrap 32 (end_tuple - self.num_cached_rows)
    if fetch_size ≤ 0 then return (self, .endOfTuples)
    else
      let offset := self.fetch_number
      let self := { self with
        cache_size := self.cache_size + fetch_size.toNat
        fetch_number := self.fetch_number + 1 }
      fetchGroup self stmt server offset fetch_size true

/-- `QR_next_tuple`. -/
def QR_next_tuple (self : QResult ρ) (stmt : Stmt) (server : Server ρ) :
    Except Stop (QResult ρ × Ret) :=
  let fetch_size := max (server.fetch_max : Int) self.req_size
  if self.move_offset ≠ 0 then
    match moveCursor self fetch_size server.move with
    | (self, none) => .ok (self, .endOfTuples)
    | (self, some offset) => fetchMore self stmt server fetch_size offset
  else if self.fetch_number < self.num_cached_rows then
    if self.dataFilled then .ok ({ self with fetch_number := self.fetch_number + 1 }, .found)
    else .ok (self, .endOfTuples)
  else if self.reached_eof ∧ QR_get_num_total_tuples self ≤ stmt.currTuple + 1 then
    .ok (self, .endOfTuples)
  else fetchMore self stmt server fetch_size 0

/-! ### Runs -/

/-- A statement is executed: without a cursor, or with a cursor and the first FETCH. -/
structure Execution (ρ : Type) where
  /-- The columns other than the key. -/
  num_fields : Nat
  /-- `CREATE_KEYSET` -/
  haskeyset : Bool
  /-- `fetch_max`, where there is a cursor. -/
  cursor : Option Nat
  reply : Reply ρ
  fetch_le : ∀ fetch_max ∈ cursor, reply.rows.length ≤ fetch_max

/-- The first read. -/
def Execution.run (e : Execution ρ) : Except Stop (QResult ρ × Bool) :=
  QR_from_PGresult
    (QR_Constructor e.num_fields e.haskeyset (e.haskeyset && e.cursor.isSome) (e.cursor.getD 0))
    true e.cursor.isSome e.reply

/-- What happens to a result afterwards. -/
inductive Step (ρ : Type)
  /-- The application asks for another rowset. -/
  | place (base fetch_number req_size : Int) (move_offset : Nat) (direction : MoveDirection)
  /-- It adds, deletes or updates rows, which is noted for later fetches. -/
  | note (added : List (ρ × KeySet)) (deleted : List (Int × BitVec 16))
      (updated : List (Int × KeySet × ρ))
  | next (stmt : Stmt) (server : Server ρ)

/-- One step. -/
def QResult.step (self : QResult ρ) : Step ρ → Except Stop (QResult ρ)
  | .place base fetch_number req_size move_offset direction =>
    .ok { QR_set_rowstart_in_cache self base with
      fetch_number := fetch_number
      req_size := req_size
      move_offset := move_offset
      move_direction := direction
      has_valid_base := true }
  | .note added deleted updated =>
    .ok { self with added := added, deleted := deleted, updated := updated }
  | .next stmt server => (QR_next_tuple self stmt server).map (·.1)

/-- The steps of a run, one after the other, until one of them stops it. -/
def fetches (ρ : Type) : Machine (Except Stop (QResult ρ)) (Step ρ) Unit where
  step s i := (s >>= fun self => self.step i, ())

end OdbcDriver.TupleCache
