import OdbcDriver.Encoding.Ascii
import OdbcDriver.Lib.CInt
import Mathlib.Order.Bounds.Basic

/-!
# Diagnostic records

The message of an error is given to the application in records: `ER_ReturnError` takes the size of a
record from the buffer of the first request and finds a record by its number.

* `record_eq`: what one record holds;
* `records_pieces`: the first records are the pieces of the message;
* `diag_number_le_one`: no more than one record is ever reported;
* `records_iff`: the messages and buffers for which the application finds the message.
-/

namespace OdbcDriver.Diagnostics

open CInt

/-- What makes `ER_ReturnError` or its caller fail. -/
inductive Fault
  /-- It copies what is not the message, or divides by zero. -/
  | undefined
deriving DecidableEq, Repr

/-- `RETCODE`, as far as the functions use it. -/
inductive Retcode
  | SQL_SUCCESS
  | SQL_SUCCESS_WITH_INFO
  | SQL_NO_DATA_FOUND
deriving DecidableEq, Repr

/-- `SQL_SUCCEEDED` -/
def Retcode.succeeded (ret : Retcode) : Prop := ret ≠ .SQL_NO_DATA_FOUND

/-- `PG_ErrorInfo` -/
structure PG_ErrorInfo where
  status : ℤ
  errorsize : ℤ
  recsize : ℤ
  errorpos : ℤ
  sqlstate : List Byte
  __error_message : List Byte
deriving DecidableEq, Repr

/-- What a call gives to the application. -/
structure Reply where
  ret : Retcode
  szErrorMsg : Option (List Byte)
  pcbErrorMsg : Option ℤ
  pfNativeError : Option ℤ
  szSqlState : Option (List Byte)
deriving DecidableEq, Repr

/-- There is no such record. -/
def noData : Reply := ⟨.SQL_NO_DATA_FOUND, none, none, none, none⟩

/-- `DRVMNGRDIV` -/
def DRVMNGRDIV : ℤ := 511

/-- `STMT_NO_MEMORY_ERROR` -/
def STMT_NO_MEMORY_ERROR : ℤ := 4

/-! ### The driver -/

/-- `ER_Constructor` -/
def ER_Constructor (errnumber : ℤ) (msg : List Byte) : Option PG_ErrorInfo :=
  if errnumber = 0 then none
  else some ⟨uwrap 32 errnumber, wrap 16 msg.length, -1, 0, [], msg⟩

/-- The size of the records, which the first request sets. -/
def recordSize (error : PG_ErrorInfo) (RecNumber cbErrorMsgMax : ℤ) : ℤ :=
  if error.recsize < 0 then if 0 < cbErrorMsgMax then cbErrorMsgMax - 1 else DRVMNGRDIV
  else if RecNumber = 1 ∧ 0 < cbErrorMsgMax then cbErrorMsgMax - 1
  else error.recsize

/-- The number of the record: a negative one stands for the next. -/
def recordNumber (error : PG_ErrorInfo) (RecNumber : ℤ) : Except Fault ℤ :=
  if RecNumber < 0 then
    if error.errorpos = 0 then .ok 1
    else if error.recsize = 0 then .error .undefined
    else .ok (wrap 16 (2 + (error.errorpos - 1).tdiv error.recsize))
  else .ok RecNumber

/-- The length that is copied, with `pcblen` for the length of the record. -/
def writeLength (recsize cbErrorMsgMax pcblen wrtlen : ℤ) (partial_ok : Bool) : ℤ :=
  let wrtlen :=
    if cbErrorMsgMax = 0 then 0
    else if cbErrorMsgMax ≤ wrtlen then
      if partial_ok then wrap 16 (cbErrorMsgMax - 1)
      else if cbErrorMsgMax ≤ recsize then wrap 16 (cbErrorMsgMax - 1)
      else recsize
    else wrtlen
  if pcblen < wrtlen then pcblen else wrtlen

/-- `memcpy` from the message, with a terminator, where there is a buffer. -/
def copyMessage (msg : List Byte) (stapos wrtlen cbErrorMsgMax : ℤ) :
    Except Fault (Option (List Byte)) :=
  if cbErrorMsgMax ≤ 0 then .ok none
  else if 0 ≤ stapos ∧ 0 ≤ wrtlen ∧ stapos + wrtlen ≤ msg.length ∧ wrtlen < cbErrorMsgMax then
    .ok (some ((msg.drop stapos.toNat).take wrtlen.toNat))
  else .error .undefined

/-- `ER_ReturnError` for an error that is there. -/
def ER_ReturnError (error : PG_ErrorInfo) (RecNumber cbErrorMsgMax : ℤ) (partial_ok : Bool) :
    Except Fault (Reply × PG_ErrorInfo) :=
  let msg := error.__error_message
  let msglen := wrap 16 msg.length
  let recsize := recordSize error RecNumber cbErrorMsgMax
  let error := { error with recsize }
  match recordNumber error RecNumber with
  | .error e => .error e
  | .ok RecNumber =>
    let stapos := wrap 16 ((RecNumber - 1) * recsize)
    if msglen < stapos then .ok (noData, error)
    else
      let wrtlen := wrap 16 (msglen - stapos)
      let pcblen := if recsize < wrtlen then recsize else wrtlen
      let wrtlen := writeLength recsize cbErrorMsgMax pcblen wrtlen partial_ok
      match copyMessage msg stapos wrtlen cbErrorMsgMax with
      | .error e => .error e
      | .ok szErrorMsg =>
        let ret := if wrtlen < pcblen then Retcode.SQL_SUCCESS_WITH_INFO else .SQL_SUCCESS
        .ok (⟨ret, szErrorMsg, some pcblen, some (wrap 32 error.status), some error.sqlstate⟩,
          error)

/-- A statement: the number of its error, with the text and the state that `SC_create_errorinfo`
puts together for it, and the error information that has been made of it. -/
structure StatementClass where
  __error_number : ℤ
  ermsg : List Byte
  sqlstate : List Byte
  pgerror : Option PG_ErrorInfo
deriving DecidableEq, Repr

/-- `SC_create_errorinfo` -/
def SC_create_errorinfo (self : StatementClass) : Option PG_ErrorInfo :=
  match self.pgerror with
  | some pgerror => some pgerror
  | none =>
    (ER_Constructor self.__error_number self.ermsg).map fun e =>
      { e with sqlstate := self.sqlstate }

/-- The error information that `PGAPI_StmtError` goes on with. -/
def errorinfo (stmt : StatementClass) : Option PG_ErrorInfo :=
  (SC_create_errorinfo stmt).map fun e =>
    if stmt.__error_number = STMT_NO_MEMORY_ERROR ∧ e.__error_message = [] then
      { e with __error_message := ascii "Memory Allocation Error??" }
    else e

/-- `PGAPI_StmtError` -/
def PGAPI_StmtError (stmt : StatementClass) (RecNumber cbErrorMsgMax : ℤ) (partial_ok : Bool) :
    Except Fault (Reply × StatementClass) :=
  match errorinfo stmt with
  | none => .ok (noData, stmt)
  | some pgerror =>
    match ER_ReturnError pgerror RecNumber cbErrorMsgMax partial_ok with
    | .error e => .error e
    | .ok (reply, pgerror) => .ok (reply, { stmt with pgerror := some pgerror })

/-- `PGAPI_GetDiagRec` for a statement. -/
def PGAPI_GetDiagRec (stmt : StatementClass) (RecNumber BufferLength : ℤ) :
    Except Fault (Reply × StatementClass) :=
  PGAPI_StmtError stmt RecNumber BufferLength false

/-- `PGAPI_GetDiagField` for `SQL_DIAG_NUMBER` of a statement: what it writes to `DiagInfoPtr`. -/
def diagNumber (stmt : StatementClass) : Except Fault ℤ :=
  match PGAPI_StmtError stmt (-1) 0 false with
  | .error e => .error e
  | .ok (reply, stmt) =>
    match reply.pcbErrorMsg, stmt.pgerror with
    | some pcbErrm, some pgerror =>
      if 0 < pcbErrm then
        if pgerror.recsize = 0 then .error .undefined
        else .ok ((pcbErrm - 1).tdiv pgerror.recsize + 1)
      else .ok 0
    | _, _ => .ok 0

/-! ### What the application should find -/

/-- A value of the type `SQLSMALLINT`. -/
def SQLSMALLINT : Type := { x : ℤ // Fits 16 x }

/-- A statement with an error, of which nothing has been asked yet. -/
structure Failed where
  __error_number : ℤ
  ermsg : List Byte
  sqlstate : List Byte
  number_ne : __error_number ≠ 0

/-- The statement. -/
def Failed.stmt (f : Failed) : StatementClass := ⟨f.__error_number, f.ermsg, f.sqlstate, none⟩

/-- Its message. -/
def Failed.message (f : Failed) : List Byte :=
  if f.__error_number = STMT_NO_MEMORY_ERROR ∧ f.ermsg = [] then ascii "Memory Allocation Error??"
  else f.ermsg

/-- The records from the first to the `k`-th, asked for one after the other. -/
def records (stmt : StatementClass) (BufferLength : ℤ) :
    ℕ → Except Fault (List Reply × StatementClass)
  | 0 => .ok ([], stmt)
  | k + 1 =>
    match records stmt BufferLength k with
    | .error e => .error e
    | .ok (replies, stmt) =>
      match PGAPI_GetDiagRec stmt (wrap 16 (k + 1)) BufferLength with
      | .error e => .error e
      | .ok (reply, stmt) => .ok (replies ++ [reply], stmt)

/-- The least number of records, at least one, that hold a message of `n` bytes when each holds as
many as the buffer has before its terminator. -/
def Needed (n : ℕ) (BufferLength : ℤ) (k : ℕ) : Prop :=
  IsLeast { k : ℕ | 1 ≤ k ∧ (n : ℤ) ≤ k * (BufferLength - 1) } k

/-- The length of the message, and the numbers and positions of the records up to the one that is
not there, are values of their type. -/
structure NoOverflow (n : ℕ) (BufferLength : ℤ) (k : ℕ) : Prop where
  length_fits : Fits 16 n
  number_fits : ∀ r ≤ k + 1, Fits 16 r
  position_fits : ∀ r ≤ k, Fits 16 (r * (BufferLength - 1))

/-- What the application should find. -/
def Right (f : Failed) (B : SQLSMALLINT) : Prop :=
  ∃ k, Needed f.message.length B.val k ∧ NoOverflow f.message.length B.val k ∧
    ∃ replies stmt last stmt', records f.stmt B.val k = .ok (replies, stmt) ∧
      (∀ reply ∈ replies, reply.ret.succeeded) ∧
      (replies.flatMap fun reply => reply.szErrorMsg.getD []) = f.message ∧
      PGAPI_GetDiagRec stmt (wrap 16 (k + 1)) B.val = .ok (last, stmt') ∧
      last.ret = .SQL_NO_DATA_FOUND ∧ diagNumber stmt' = .ok (k : ℤ)

/-! ### A record -/

variable {e e' : PG_ErrorInfo} {r cb : ℤ} {partial_ok : Bool} {reply : Reply}

/-- A request changes nothing but the size of the records. -/
theorem returnError_keeps (h : ER_ReturnError e r cb partial_ok = .ok (reply, e')) :
    e' = { e with recsize := recordSize e r cb } := by
  rw [ER_ReturnError] at h
  dsimp only at h
  split at h
  · cases h
  · split at h
    · exact (Prod.mk.inj (Except.ok.inj h)).2.symm
    · split at h
      · cases h
      · exact (Prod.mk.inj (Except.ok.inj h)).2.symm

theorem recordNumber_of_nonneg (h : 0 ≤ r) : recordNumber e r = .ok r := if_neg (by omega)

theorem recordNumber_next (h : e.errorpos = 0) : recordNumber e (-1) = .ok 1 := by
  have hneg : (-1 : ℤ) < 0 := by decide
  rw [recordNumber, if_pos hneg, if_pos h]

/-- A record that is not longer than the buffer is copied whole. -/
theorem writeLength_eq (hcb : 0 < cb) (w : ℤ) :
    writeLength (cb - 1) cb (if cb - 1 < w then cb - 1 else w) w false =
      if cb - 1 < w then cb - 1 else w := by
  rw [writeLength, if_neg hcb.ne']
  have hsize : ¬ cb ≤ cb - 1 := by omega
  by_cases hw : cb ≤ w
  · have hlt : cb - 1 < w := by omega
    rw [if_pos hw, if_neg Bool.false_ne_true, if_neg hsize, if_pos hlt, if_neg (lt_irrefl _)]
  · have hle : ¬ cb - 1 < w := by omega
    rw [if_neg hw, if_neg hle, if_neg (lt_irrefl _)]

theorem copyMessage_eq {msg : List Byte} {stapos wrtlen : ℕ} (hcb : (wrtlen : ℤ) < cb)
    (h : stapos + wrtlen ≤ msg.length) :
    copyMessage msg stapos wrtlen cb = .ok (some ((msg.drop stapos).take wrtlen)) := by
  rw [copyMessage, if_neg (by omega), if_pos ⟨by omega, by omega, by omega, hcb⟩, Int.toNat_natCast,
    Int.toNat_natCast]

/-- What a record holds: the bytes from its position on, as many as a record has. -/
theorem record_eq {k n : ℕ} (hcb : cb = n + 1) (hsize : recordSize e (k + 1) cb = n)
    (hlength : Fits 16 e.__error_message.length) (hpos : Fits 16 (k * n)) :
    ∃ reply, ER_ReturnError e (k + 1) cb false = .ok (reply, { e with recsize := n }) ∧
      if e.__error_message.length < k * n then reply = noData
      else reply.ret = .SQL_SUCCESS ∧
        reply.szErrorMsg = some ((e.__error_message.drop (k * n)).take n) := by
  have hrecord : recordNumber { e with recsize := n } (k + 1) = .ok ((k : ℤ) + 1) :=
    recordNumber_of_nonneg (by omega)
  have hstapos : wrap 16 (((k : ℤ) + 1 - 1) * n) = (k * n : ℕ) := by
    rw [Int.add_sub_cancel, wrap_of_fits (by decide) hpos, Nat.cast_mul]
  have hmsglen : wrap 16 (e.__error_message.length : ℤ) = e.__error_message.length :=
    wrap_of_fits (by decide) hlength
  by_cases hout : e.__error_message.length < k * n
  · refine ⟨noData, ?_, if_pos hout ▸ rfl⟩
    rw [ER_ReturnError, hsize]
    dsimp only
    rw [hrecord, hmsglen]
    dsimp only
    rw [hstapos, if_pos (by omega)]
  · obtain ⟨w, hw⟩ := Nat.exists_eq_add_of_le (Nat.le_of_not_lt hout)
    have hrest : (e.__error_message.length : ℤ) - (k * n : ℕ) = w := by omega
    have hfits : Fits 16 (w : ℤ) := by
      rw [Fits] at hlength ⊢
      omega
    have hmin : (if (n : ℤ) < w then (n : ℤ) else w) = (min n w : ℕ) := by
      split <;> omega
    have hwrite : writeLength n cb (min n w : ℕ) w false = (min n w : ℕ) := by
      rw [← hmin]
      have hpos : 0 < cb := by omega
      have hcopied := writeLength_eq hpos w
      rw [hcb, Int.add_sub_cancel] at hcopied
      rw [hcb, hcopied]
    have hcopied : (e.__error_message.drop (k * n)).take (min n w) =
        (e.__error_message.drop (k * n)).take n := by
      rw [← List.take_take, List.take_of_length_le (l := e.__error_message.drop (k * n))]
      rw [List.length_drop]
      omega
    refine ⟨⟨.SQL_SUCCESS, some ((e.__error_message.drop (k * n)).take n), some (min n w : ℕ),
      some (wrap 32 e.status), some e.sqlstate⟩, ?_, ?_⟩
    · rw [ER_ReturnError, hsize]
      dsimp only
      rw [hrecord, hmsglen]
      dsimp only
      rw [hstapos, if_neg (by omega), hrest, wrap_of_fits (by decide) hfits, hmin, hwrite,
        copyMessage_eq (by omega) (by omega), hcopied]
      dsimp only
      rw [if_neg (lt_irrefl _)]
    · rw [if_neg hout]
      exact ⟨rfl, rfl⟩

/-! ### The records of a statement -/

variable {s s' : StatementClass} {replies : List Reply}

theorem errorinfo_stmt (f : Failed) :
    errorinfo f.stmt =
      some ⟨uwrap 32 f.__error_number, wrap 16 f.ermsg.length, -1, 0, f.sqlstate, f.message⟩ := by
  have hmake : SC_create_errorinfo f.stmt =
      some ⟨uwrap 32 f.__error_number, wrap 16 f.ermsg.length, -1, 0, f.sqlstate, f.ermsg⟩ := by
    rw [SC_create_errorinfo, Failed.stmt]
    dsimp only
    rw [ER_Constructor, if_neg f.number_ne]
    rfl
  rw [errorinfo, hmake, Option.map_some, Failed.message]
  change some (if f.__error_number = STMT_NO_MEMORY_ERROR ∧ f.ermsg = [] then _ else _) = _
  split
  · rfl
  · rfl

/-- The error information is made once. -/
theorem errorinfo_next (h : errorinfo s = some e)
    (hmessage : e'.__error_message = e.__error_message) :
    errorinfo { s with pgerror := some e' } = some e' := by
  have hshown : ¬ (s.__error_number = STMT_NO_MEMORY_ERROR ∧ e.__error_message = []) := by
    rintro ⟨hnumber, hempty⟩
    rw [errorinfo, Option.map_eq_some_iff] at h
    obtain ⟨e₀, -, h⟩ := h
    split at h
    · have htext : ascii "Memory Allocation Error??" ≠ [] := by decide
      rw [← h] at hempty
      exact htext hempty
    · rename_i hshown
      exact hshown ⟨hnumber, h ▸ hempty⟩
  rw [errorinfo, SC_create_errorinfo]
  change some (if s.__error_number = STMT_NO_MEMORY_ERROR ∧ e'.__error_message = [] then _
    else e') = _
  rw [hmessage, if_neg hshown]

/-- The error information of a statement as far as it is the same from call to call. -/
def Keeps (s : StatementClass) (m : List Byte) : Prop :=
  ∃ e, errorinfo s = some e ∧ e.errorpos = 0 ∧ e.__error_message = m

theorem stmtError_keeps {m : List Byte} (hkeeps : Keeps s m)
    (h : PGAPI_StmtError s r cb partial_ok = .ok (reply, s')) : Keeps s' m := by
  obtain ⟨e, hinfo, hpos, hmessage⟩ := hkeeps
  rw [PGAPI_StmtError, hinfo] at h
  dsimp only at h
  split at h
  · cases h
  · rename_i reply' e' hreturn
    obtain ⟨-, rfl⟩ := Prod.mk.inj (Except.ok.inj h)
    have hkept := returnError_keeps hreturn
    refine ⟨e', errorinfo_next hinfo (by rw [hkept]), ?_, ?_⟩
    · rw [hkept]
      exact hpos
    · rw [hkept]
      exact hmessage

theorem records_keeps {m : List Byte} {k : ℕ} (hkeeps : Keeps s m)
    (h : records s cb k = .ok (replies, s')) : Keeps s' m := by
  induction k generalizing replies s' with
  | zero =>
    obtain ⟨-, rfl⟩ := Prod.mk.inj (Except.ok.inj h)
    exact hkeeps
  | succ k ih =>
    rw [records] at h
    split at h
    · cases h
    · rename_i replies' s₁ hrun
      split at h
      · cases h
      · rename_i reply s₂ hcall
        obtain ⟨-, rfl⟩ := Prod.mk.inj (Except.ok.inj h)
        exact stmtError_keeps (ih hrun) hcall

theorem keeps_stmt (f : Failed) : Keeps f.stmt f.message := ⟨_, errorinfo_stmt f, rfl, rfl⟩

/-! ### The number of records -/

/-- One record is reported, however many there are. -/
theorem diagNumber_eq (hinfo : errorinfo s = some e) (hpos : e.errorpos = 0) :
    diagNumber s = .ok
      (if 0 < recordSize e (-1) 0 ∧ 0 < wrap 16 e.__error_message.length then 1 else 0) := by
  have hstapos : wrap 16 ((1 - 1) * recordSize e (-1) 0) = 0 := by
    rw [Int.sub_self, Int.zero_mul]
    rfl
  have hagain : wrap 16 (wrap 16 e.__error_message.length - 0) =
      wrap 16 e.__error_message.length := by
    rw [Int.sub_zero]
    exact wrap_of_fits (by decide) (fits_wrap (by decide) _)
  have hnext : recordNumber { e with recsize := recordSize e (-1) 0 } (-1) = .ok 1 :=
    recordNumber_next hpos
  rw [diagNumber, PGAPI_StmtError, hinfo]
  dsimp only
  rw [ER_ReturnError]
  dsimp only
  rw [hnext]
  dsimp only
  rw [hstapos, hagain]
  generalize recordSize e (-1) 0 = n
  generalize wrap 16 (e.__error_message.length : ℤ) = w
  by_cases hnone : w < 0
  · rw [if_pos hnone, if_neg (by omega)]
    rfl
  · rw [if_neg hnone]
    have hcopy : ∀ wrtlen, copyMessage e.__error_message 0 wrtlen 0 = .ok none := fun _ => rfl
    rw [hcopy]
    dsimp only
    by_cases hsome : 0 < n ∧ 0 < w
    · have hpcb : 0 < if n < w then n else w := by split <;> omega
      have hlt : (if n < w then n else w) - 1 < n := by split <;> omega
      rw [if_pos hpcb, if_pos hsome, if_neg hsome.1.ne', Int.tdiv_eq_zero_of_lt (by omega) hlt]
      rfl
    · rw [if_neg hsome, if_neg]
      split <;> omega

theorem diag_number_le_one {m : List Byte} {k : ℤ} (hkeeps : Keeps s m)
    (h : diagNumber s = .ok k) : k ≤ 1 := by
  obtain ⟨e, hinfo, hpos, -⟩ := hkeeps
  rw [diagNumber_eq hinfo hpos] at h
  rw [← Except.ok.inj h]
  split <;> decide

/-! ### The pieces of a message -/

theorem recordSize_first (hcb : 0 < cb) : recordSize e 1 cb = cb - 1 := by
  rw [recordSize]
  by_cases h : e.recsize < 0
  · rw [if_pos h, if_pos hcb]
  · rw [if_neg h, if_pos ⟨rfl, hcb⟩]

theorem recordSize_later (hr : r ≠ 1) (hsize : 0 ≤ e.recsize) : recordSize e r cb = e.recsize := by
  rw [recordSize, if_neg (by omega), if_neg (fun h => hr h.1)]

/-- The first `k` records of size `n` have been asked for. -/
def Asked (s : StatementClass) (m : List Byte) (n k : ℕ) : Prop :=
  ∃ e, errorinfo s = some e ∧ e.errorpos = 0 ∧ e.__error_message = m ∧ (k = 0 ∨ e.recsize = n)

/-- The next record is the next piece of the message, if there is something left or the last piece
has ended where the message ends. -/
theorem diagRec_eq {m : List Byte} {n k : ℕ} (hasked : Asked s m n k) (hcb : cb = n + 1)
    (hnumber : Fits 16 (k + 1)) (hlength : Fits 16 m.length) (hpos : Fits 16 (k * n)) :
    ∃ reply s', PGAPI_GetDiagRec s (wrap 16 (k + 1)) cb = .ok (reply, s') ∧ Asked s' m n (k + 1) ∧
      if m.length < k * n then reply = noData
      else reply.ret = .SQL_SUCCESS ∧ reply.szErrorMsg = some ((m.drop (k * n)).take n) := by
  obtain ⟨e, hinfo, herrorpos, rfl, hk⟩ := hasked
  have hsize : recordSize e (k + 1) cb = n := by
    rcases Nat.eq_zero_or_pos k with rfl | hkpos
    · rw [Nat.cast_zero, Int.zero_add, recordSize_first (by omega)]
      omega
    · have hrecsize := hk.resolve_left hkpos.ne'
      rw [recordSize_later (by omega) (by omega), hrecsize]
  obtain ⟨reply, hreturn, hreply⟩ := record_eq hcb hsize hlength hpos
  refine ⟨reply, { s with pgerror := some { e with recsize := n } }, ?_,
    ⟨{ e with recsize := n }, errorinfo_next hinfo rfl, herrorpos, rfl, .inr rfl⟩, hreply⟩
  rw [PGAPI_GetDiagRec, PGAPI_StmtError, hinfo, wrap_of_fits (by decide) hnumber]
  dsimp only
  rw [hreturn]

/-- The first records hold the first bytes of the message. -/
theorem records_pieces {m : List Byte} {n k : ℕ} (hasked : Asked s m n 0) (hcb : cb = n + 1)
    (hnumber : Fits 16 k) (hlength : Fits 16 m.length) (hk : ∀ i < k, i * n ≤ m.length) :
    ∃ replies s', records s cb k = .ok (replies, s') ∧ Asked s' m n k ∧
      (∀ reply ∈ replies, reply.ret = .SQL_SUCCESS) ∧
      (replies.flatMap fun reply => reply.szErrorMsg.getD []) = m.take (k * n) := by
  induction k with
  | zero =>
    refine ⟨[], s, rfl, hasked, fun _ h => absurd h List.not_mem_nil, ?_⟩
    rw [Nat.zero_mul, List.take_zero]
    rfl
  | succ k ih =>
    have hin : k * n ≤ m.length := hk k (Nat.lt_succ_self k)
    have hfits : Fits 16 (k : ℤ) ∧ Fits 16 ((k : ℤ) + 1) ∧ Fits 16 ((k : ℤ) * n) := by
      rw [Fits] at hlength
      push_cast [Fits] at hnumber ⊢
      have hcast : ((k * n : ℕ) : ℤ) = k * n := by push_cast; rfl
      omega
    obtain ⟨replies, s₁, hrun, hnow, hsuccess, htext⟩ :=
      ih hfits.1 fun i hi => hk i (Nat.lt_succ_of_lt hi)
    obtain ⟨reply, s₂, hcall, hthen, hreply⟩ := diagRec_eq hnow hcb hfits.2.1 hlength hfits.2.2
    rw [if_neg (Nat.not_lt.mpr hin)] at hreply
    refine ⟨replies ++ [reply], s₂, ?_, hthen, ?_, ?_⟩
    · rw [records, hrun]
      dsimp only
      rw [hcall]
    · intro reply' h
      rcases List.mem_append.mp h with h | h
      · exact hsuccess reply' h
      · rw [List.mem_singleton.mp h]
        exact hreply.1
    · rw [List.flatMap_append, htext, List.flatMap_singleton, hreply.2, Nat.succ_mul, List.take_add]
      rfl

/-! ### The application -/

theorem asked_stmt (f : Failed) (n : ℕ) : Asked f.stmt f.message n 0 :=
  ⟨_, errorinfo_stmt f, rfl, rfl, .inl rfl⟩

/-- No more than one record is ever enough, since no more than one is reported. -/
theorem needed_one {f : Failed} {B : SQLSMALLINT} {k : ℕ} {replies : List Reply}
    {stmt stmt' : StatementClass} {last : Reply} (hneeded : Needed f.message.length B.val k)
    (hrun : records f.stmt B.val k = .ok (replies, stmt))
    (hlast : PGAPI_GetDiagRec stmt (wrap 16 (k + 1)) B.val = .ok (last, stmt'))
    (hnumber : diagNumber stmt' = .ok (k : ℤ)) : k = 1 := by
  have hkeeps := stmtError_keeps (records_keeps (keeps_stmt f) hrun) hlast
  have hle := diag_number_le_one hkeeps hnumber
  have hge := hneeded.1.1
  omega

/-- A message that one record holds is followed by no other record unless it fills the record. -/
theorem first_record {f : Failed} {B : SQLSMALLINT} {n : ℕ} (hn : B.val = n + 1)
    (hlength : f.message.length ≤ n) :
    ∃ replies s reply s', records f.stmt B.val 1 = .ok (replies, s) ∧
      (∀ reply ∈ replies, reply.ret = .SQL_SUCCESS) ∧
      (replies.flatMap fun reply => reply.szErrorMsg.getD []) = f.message ∧
      PGAPI_GetDiagRec s (wrap 16 ((1 : ℕ) + 1)) B.val = .ok (reply, s') ∧
      Asked s' f.message n 2 ∧
      if f.message.length < n then reply = noData else reply.ret = .SQL_SUCCESS := by
  have hB := B.property.2
  have hfits : Fits 16 (f.message.length : ℤ) ∧ Fits 16 (((1 : ℕ) : ℤ) * n) := by
    norm_num [Fits] at hB ⊢
    omega
  obtain ⟨replies, s, hrun, hasked, hsuccess, htext⟩ :=
    records_pieces (k := 1) (asked_stmt f n) hn (by decide) hfits.1 (by simp)
  obtain ⟨reply, s', hcall, hthen, hreply⟩ := diagRec_eq hasked hn (by decide) hfits.1 hfits.2
  rw [Nat.one_mul, List.take_of_length_le hlength] at htext
  refine ⟨replies, s, reply, s', hrun, hsuccess, htext, hcall, hthen, ?_⟩
  rw [Nat.one_mul] at hreply
  split
  · rename_i h
    rwa [if_pos h] at hreply
  · rename_i h
    rw [if_neg h] at hreply
    exact hreply.1

/-- The number that is reported after the records. -/
theorem diagNumber_asked {m : List Byte} {n k : ℕ} (hasked : Asked s m n (k + 1))
    (hlength : Fits 16 m.length) :
    diagNumber s = .ok (if 0 < n ∧ 0 < m.length then 1 else 0) := by
  obtain ⟨e, hinfo, hpos, rfl, hk⟩ := hasked
  have hsize := hk.resolve_left k.succ_ne_zero
  rw [diagNumber_eq hinfo hpos, recordSize_later (by decide) (by omega), hsize,
    wrap_of_fits (by decide) hlength]
  simp only [Int.natCast_pos]

/-- **Diagnostic records**: the application finds the message in as many records as are needed, and
their number, exactly when the message is not empty and one record holds it with a byte to spare. -/
theorem records_iff (f : Failed) (B : SQLSMALLINT) :
    Right f B ↔ 0 < f.message.length ∧ (f.message.length : ℤ) + 1 < B.val := by
  constructor
  · rintro ⟨k, hneeded, hfits, replies, s, last, s', hrun, -, -, hlast, hret, hnumber⟩
    obtain rfl := needed_one hneeded hrun hlast hnumber
    have hholds := hneeded.1.2
    obtain ⟨n, hn⟩ := Int.eq_ofNat_of_zero_le (a := B.val - 1) (by omega)
    have hB : B.val = n + 1 := by omega
    obtain ⟨replies', t, reply, t', hrun', -, -, hcall, hasked, hreply⟩ :=
      first_record hB (f := f) (by omega)
    rw [hrun'] at hrun
    obtain ⟨-, rfl⟩ := Prod.mk.inj (Except.ok.inj hrun)
    rw [hcall] at hlast
    obtain ⟨rfl, rfl⟩ := Prod.mk.inj (Except.ok.inj hlast)
    rw [diagNumber_asked hasked hfits.length_fits] at hnumber
    have hpos : 0 < n ∧ 0 < f.message.length := by
      by_contra h
      rw [if_neg h] at hnumber
      exact absurd (Except.ok.inj hnumber) (by decide)
    have hlt : f.message.length < n := by
      by_contra h
      rw [if_neg h, hret] at hreply
      exact absurd hreply (by decide)
    omega
  · rintro ⟨hpos, hlt⟩
    obtain ⟨n, hn⟩ := Int.eq_ofNat_of_zero_le (a := B.val - 1) (by omega)
    have hB : B.val = n + 1 := by omega
    have hBfits := B.property.2
    have hlength : Fits 16 (f.message.length : ℤ) := by
      norm_num [Fits] at hBfits ⊢
      omega
    obtain ⟨replies, s, reply, s', hrun, hsuccess, htext, hcall, hasked, hreply⟩ :=
      first_record hB (f := f) (by omega)
    rw [if_pos (by omega)] at hreply
    refine ⟨1, ⟨⟨le_refl 1, by omega⟩, fun k hk => hk.1⟩, ⟨hlength, ?_, ?_⟩, replies, s, reply, s',
      hrun, ?_, htext, hcall, ?_, ?_⟩
    · intro r hr
      norm_num [Fits]
      omega
    · intro r hr
      have hr : r = 0 ∨ r = 1 := by omega
      norm_num [Fits] at hBfits ⊢
      rcases hr with rfl | rfl
      · omega
      · omega
    · intro reply' h
      rw [Retcode.succeeded, hsuccess reply' h]
      decide
    · rw [hreply]
      rfl
    · rw [diagNumber_asked hasked hlength, if_pos ⟨by omega, hpos⟩]
      rfl

/-- A statement with a message of four bytes. -/
def fourBytes : Failed where
  __error_number := 1
  ermsg := ascii "abcd"
  sqlstate := ascii "HY000"
  number_ne := by decide

/-- A buffer for two bytes and the terminator. -/
def threeBytes : SQLSMALLINT := ⟨3, by decide⟩

/-- Of the two records of four bytes one is reported. -/
theorem second_unreported : ¬ Right fourBytes threeBytes := by
  rintro ⟨k, hneeded, -, replies, s, last, s', hrun, -, -, hlast, -, hnumber⟩
  obtain rfl := needed_one hneeded hrun hlast hnumber
  exact absurd hneeded.1.2 (by decide)

end OdbcDriver.Diagnostics
