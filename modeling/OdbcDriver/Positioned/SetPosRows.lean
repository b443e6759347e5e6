import OdbcDriver.Lib.CInt
import OdbcDriver.Positioned.Operation
import Mathlib.Data.List.Range

/-!
# The rows of `SQLSetPos`

`spos_callback` goes over the result from the start of the rowset on and passes over the rows that
are not in the rowset. It ends for a while where data are needed, and goes on when the row is
completed; both parts are one loop here. Autocommit is left to `Positioned/Operation`.

* `spos_loop`, `PGAPI_SetPos`: the rows that are acted on, in order, and what is reported;
* `seen`: the rows that the application sees, as the last fetch has left them;
* `spos_loop_acts`: the rows acted on, as a function of the rows that the loop goes to.
-/

namespace OdbcDriver.SetPosRows

/-! ### The statement -/

/-- A statement with its current result. -/
structure Stmt where
  rowset_start : ℤ
  has_valid_base : Bool
  key_base : ℤ
  /-- `QR_get_num_total_tuples` -/
  num_total_tuples : ℕ
  /-- The `CURS_IN_ROWSET` bits of the cached keys. -/
  keyset : Option (List Bool)
  last_fetch_count : ℕ
  last_fetch_count_include_ommitted : ℕ
deriving DecidableEq, Repr

/-- `RowIdx2GIdx` -/
def RowIdx2GIdx (ridx : ℤ) (stmt : Stmt) : ℤ := ridx + stmt.rowset_start

/-- `GIdx2KResIdx` -/
def GIdx2KResIdx (gidx : ℤ) (stmt : Stmt) : ℤ :=
  gidx - if stmt.has_valid_base then stmt.rowset_start - stmt.key_base else 0

/-- `(int) global_ridx >= QR_get_num_total_tuples(res)`, where the number is unsigned. -/
def Stmt.outside (stmt : Stmt) (global_ridx : ℤ) : Bool :=
  stmt.num_total_tuples ≤ CInt.uwrap 64 (CInt.wrap 32 global_ridx)

/-- The row at an index from the start of the rowset: in the rowset or not; the loop ends where
there is none. -/
def Stmt.rowAt (stmt : Stmt) (idx : ℕ) : Option Bool :=
  let global_ridx := RowIdx2GIdx idx stmt
  if stmt.outside global_ridx then none
  else
    match stmt.keyset with
    | none => some true
    | some keyset =>
      let kres_ridx := GIdx2KResIdx global_ridx stmt
      if keyset.length ≤ kres_ridx then none
      -- the row may be deleted and not in the rowset
      else if 0 ≤ kres_ridx then some (keyset.getD kres_ridx.toNat false)
      else some true

/-- Behind this index no row is passed over. -/
def Stmt.bound (stmt : Stmt) : ℕ :=
  ((stmt.keyset.getD []).length - GIdx2KResIdx (RowIdx2GIdx 0 stmt) stmt).toNat

theorem GIdx2KResIdx_eq (stmt : Stmt) (idx : ℕ) : GIdx2KResIdx (RowIdx2GIdx idx stmt) stmt =
    idx + GIdx2KResIdx (RowIdx2GIdx 0 stmt) stmt := by
  simp only [GIdx2KResIdx, RowIdx2GIdx]
  omega

theorem lt_bound {stmt : Stmt} {idx : ℕ} (h : stmt.rowAt idx = some false) :
    idx < stmt.bound := by
  rw [Stmt.rowAt] at h
  split_ifs at h
  cases hkeyset : stmt.keyset with
  | none => simp [hkeyset] at h
  | some keyset =>
    simp only [hkeyset] at h
    split_ifs at h with hlen hneg
    · rw [GIdx2KResIdx_eq] at hlen
      rw [Stmt.bound, hkeyset, Option.getD_some]
      omega
    · cases h

/-! ### The driver -/

/-- What the call for a row comes to. -/
inductive Outcome
  | done (ret : RetCode)
  /-- `SQL_NEED_DATA`, and the code that the row is completed with. -/
  | needData (ret : RetCode)
  /-- `SQL_NEED_DATA`, without the memory to go on later. -/
  | noMemory
deriving DecidableEq, Repr

/-- A call of `PGAPI_SetPos`. -/
structure Call where
  irow : ℕ
  fOption : SetPosOption
  /-- The concurrency is `SQL_CONCUR_READ_ONLY`. -/
  read_only : Bool
  /-- There is a current result. -/
  curres : Bool
  rowsetSize : BitVec 64
  row_operation_ptr : Option (ℕ → Bool)
  outcome : ℕ → Outcome

/-- `spos_cdata` -/
structure Data where
  start_row : ℕ
  end_row : ℕ
  idx : ℕ
  ridx : ℤ
  nrow : ℕ
  processed : ℕ
deriving DecidableEq, Repr

/-- The row at an index; it does not matter to `SQL_ADD`. -/
def Call.row (call : Call) (stmt : Stmt) (idx : ℕ) : Option Bool :=
  if call.fOption = .add then some true else stmt.rowAt idx

/-- A row is not excluded by the row operation array. -/
def Call.proceeds (call : Call) (nrow : ℕ) : Bool :=
  call.irow ≠ 0 || call.row_operation_ptr.all fun ptr => ptr nrow

/-- The call for the row; `SQL_POSITION` makes none. -/
def Call.operate (call : Call) (idx : ℕ) (ret : RetCode) : Outcome :=
  if call.fOption = .position then .done ret else call.outcome idx

theorem lt_bound_of_row {call : Call} {stmt : Stmt} {idx : ℕ}
    (h : call.row stmt idx = some false) : idx < stmt.bound := by
  rw [Call.row] at h
  split_ifs at h
  · cases h
  · exact lt_bound h

/-- `pos_ridx` and the code behind the call for a row. Where data have been needed, the callback has
started anew with `pos_ridx` 0. -/
def Outcome.after (idx : ℕ) : Outcome → Option (ℕ × RetCode)
  | .done ret => some (idx, ret)
  | .needData ret => some (0, ret)
  | .noMemory => none

/-- The loop of `spos_callback`: the rows acted on, and the data at its end with `pos_ridx`. -/
def spos_loop (call : Call) (stmt : Stmt) (s : Data) (pos_ridx : ℕ) (ret : RetCode) :
    List (ℕ × ℕ) × Option (Data × ℕ × RetCode) :=
  if h : ret = .error ∨ s.end_row < s.nrow then ([], some (s, pos_ridx, ret))
  else
    match hrow : call.row stmt s.idx with
    | none => ([], some (s, pos_ridx, ret))
    | some false => spos_loop call stmt { s with idx := s.idx + 1 } pos_ridx ret
    | some true =>
      if s.nrow < s.start_row then
        spos_loop call stmt { s with nrow := s.nrow + 1, idx := s.idx + 1 } pos_ridx ret
      else if call.proceeds s.nrow then
        match (call.operate s.idx ret).after s.idx with
        | none => ([(s.nrow, s.idx)], none)
        | some (pos_ridx, ret) =>
          let s' := { s with ridx := s.nrow, processed := s.processed + 1 }
          if ret = .error then ([(s.nrow, s.idx)], some (s', pos_ridx, ret))
          else
            let (acts, e) := spos_loop call stmt { s' with nrow := s.nrow + 1, idx := s.idx + 1 }
              pos_ridx ret
            ((s.nrow, s.idx) :: acts, e)
      else
        spos_loop call stmt { s with ridx := s.nrow, nrow := s.nrow + 1, idx := s.idx + 1 }
          s.idx ret
  termination_by s.end_row + 1 - s.nrow + (stmt.bound - s.idx)
  decreasing_by
    · have hbound := lt_bound_of_row hrow
      omega
    all_goals omega

/-- What a call comes to. -/
structure Ran where
  /-- The rows acted on: the row in the application's buffers, and the row of the result. -/
  acts : List (ℕ × ℕ)
  ret : RetCode
  /-- The number of rows that is reported. -/
  processed : Option ℕ
  /-- Where the cursor is positioned. -/
  currTuple : Option ℤ
deriving DecidableEq, Repr

/-- An error, before or in place of what is done at the end. -/
def Ran.error (acts : List (ℕ × ℕ)) : Ran := ⟨acts, .error, none, none⟩

/-- The data that `PGAPI_SetPos` begins with. -/
def Call.data (call : Call) : Data where
  start_row := call.irow - 1
  end_row := if call.irow = 0 then (call.rowsetSize - 1).toNat else call.irow - 1
  idx := 0
  ridx := -1
  nrow := 0
  processed := 0

/-- `PGAPI_SetPos`, with the calls of its callback. -/
def PGAPI_SetPos (call : Call) (stmt : Stmt) : Ran :=
  if call.read_only ∧ call.fOption ≠ .position ∧ call.fOption ≠ .refresh then .error []
  else if call.curres = false then .error []
  else if call.irow = 0 ∧ call.fOption = .position then .error []
  else if call.irow ≠ 0 ∧ call.fOption ≠ .add ∧ stmt.last_fetch_count < call.irow then .error []
  else
    match spos_loop call stmt call.data 0 .success with
    | (acts, none) => .error acts
    | (acts, some (s, pos_ridx, ret)) =>
      { acts := acts
        ret := if ret.succeeded ∧ s.processed = 0 then .error else ret
        processed := some s.processed
        currTuple :=
          if 0 < call.irow ∧ call.fOption ≠ .add ∧ 0 ≤ s.ridx then some (RowIdx2GIdx pos_ridx stmt)
          else none }

/-! ### What the application sees -/

/-- A row with the `CURS_IN_ROWSET` bit; without a keyset there are no other rows. -/
def Stmt.inRowset (stmt : Stmt) (idx : ℕ) : Bool :=
  match stmt.keyset with
  | none => true
  | some keyset => keyset.getD (GIdx2KResIdx (RowIdx2GIdx idx stmt) stmt).toNat false

/-- The rows that the last fetch went over and left in the rowset. -/
def Stmt.seen (stmt : Stmt) : List ℕ :=
  (List.range stmt.last_fetch_count_include_ommitted).filter stmt.inRowset

/-- A statement behind a fetch. -/
structure Rowset extends Stmt where
  counted : last_fetch_count = toStmt.seen.length
  cached : keyset.isSome → 0 ≤ GIdx2KResIdx (RowIdx2GIdx 0 toStmt) toStmt

/-- The operation is refused as a whole. -/
def Call.Refused (call : Call) (stmt : Stmt) : Prop :=
  (call.read_only ∧ call.fOption ≠ .position ∧ call.fOption ≠ .refresh) ∨ call.curres = false ∨
    (call.irow = 0 ∧ call.fOption = .position) ∨
    (call.irow ≠ 0 ∧ call.fOption ≠ .add ∧ stmt.last_fetch_count < call.irow)

/-- The rows that an operation is for: for `SQL_ADD` the rows of the application's buffers, else
those that it sees. -/
def Call.rows (call : Call) (stmt : Stmt) : List ℕ :=
  if call.fOption = .add then
    List.range (if call.irow = 0 then call.rowsetSize.toNat else call.irow)
  else if call.irow = 0 then stmt.seen
  else stmt.seen.take call.irow

/-- A row is to be acted on. -/
def Call.operates (call : Call) (nrow : ℕ) : Bool :=
  decide (call.irow - 1 ≤ nrow) && call.proceeds nrow

/-- The call for a row fails. -/
def Call.fails (call : Call) (idx : ℕ) : Bool :=
  match call.operate idx .success with
  | .done ret => ret = .error
  | .needData ret => ret = .error
  | .noMemory => true

/-- The rows to be acted on of some rows, which are numbered, up to the first that fails. -/
def Call.actsOn (call : Call) : ℕ → List ℕ → List (ℕ × ℕ)
  | _, [] => []
  | nrow, idx :: rows =>
    if call.operates nrow then
      if call.fails idx then [(nrow, idx)] else (nrow, idx) :: call.actsOn (nrow + 1) rows
    else call.actsOn (nrow + 1) rows

/-- The rows to be acted on. -/
def Call.expected (call : Call) (stmt : Stmt) : List (ℕ × ℕ) :=
  call.actsOn 0 (call.rows stmt)

/-- An operation acts on the rows it is for and reports their number; a cursor is positioned on the
row that it is for. -/
def Right (call : Call) (stmt : Stmt) : Prop :=
  let ran := PGAPI_SetPos call stmt
  call.Refused stmt ∧ ran.acts = [] ∧ ran.processed = none ∨
    ran.acts = call.expected stmt ∧ ran.processed = some ran.acts.length ∧
      (call.fOption = .position →
        ran.currTuple = ran.acts.head?.map fun act => RowIdx2GIdx act.2 stmt)

end OdbcDriver.SetPosRows
