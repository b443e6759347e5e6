import OdbcDriver.Lib.Run
import OdbcDriver.Positioned.Operation

/-!
# Autocommit across positioned operations

An operation that writes switches autocommit off and queues the switching on with the rest of its
work. Here is when the mode is back once the operation is over: unless `SQLBulkOperations` finds
no bookmark, or the wait for data ends without the queued work.

The invariant counts the callbacks in the queue that will switch autocommit on: there is one of
them exactly while it is switched off.
-/

namespace OdbcDriver

/-! ### The statement over time -/

/-- What an application does with a statement that is used for positioned operations. An
operation finds the connection as other calls have left it. -/
inductive PosEvent
  | setPos (conn : TransactStatus) (call : SetPosCall)
  | bulkOperations (conn : TransactStatus) (call : BulkCall)
  /-- `SQLParamData` for the last parameter of a row, whose execution returns `ret`. -/
  | paramData (ret : RetCode)
  | cancel
  /-- `SQLFreeStmt(SQL_CLOSE)` -/
  | freeStmt

/-- The driver's state, and the mode that the last operation found. -/
structure PosRun where
  st : PosState
  /-- `CONN_IN_AUTOCOMMIT` before the operation. -/
  before : Bool

/-- One call. The driver manager keeps operations from a statement that waits for data. -/
def PosRun.step (r : PosRun) : PosEvent → PosRun
  | .setPos conn call =>
    if r.st.waiting then r else ⟨(PGAPI_SetPos call { r.st with conn := conn }).1, conn.autocommit⟩
  | .bulkOperations conn call =>
    if r.st.waiting then r
    else ⟨(PGAPI_BulkOperations call { r.st with conn := conn }).1, conn.autocommit⟩
  | .paramData ret => { r with st := (PGAPI_ParamData ret r.st).1 }
  | .cancel => { r with st := PGAPI_Cancel r.st }
  | .freeStmt => { r with st := SC_recycle_statement r.st }

/-- The statement under positioned operations. -/
def posMachine : Machine PosRun PosEvent Unit where
  step r e := (r.step e, ())

/-- Before the first operation. -/
def PosRun.start (conn : TransactStatus) : PosRun := ⟨⟨conn, [], none⟩, conn.autocommit⟩

/-- Once an operation is over, the mode is what it was before. -/
def PosRun.Restored (r : PosRun) : Prop :=
  r.st.waiting = false → r.st.conn.autocommit = r.before

/-- The callback will switch autocommit on. -/
def Callback.restores : Callback → Bool
  | .row _ => false
  | .spos _ s => s.auto_commit_needed
  | .bulk _ s => s.auto_commit_needed

/-- A call after which autocommit is what it was: an operation by bookmark that would switch it
off has a bookmark, and no wait for data ends that has switched it off. -/
def PosRun.Keeps (r : PosRun) : PosEvent → Prop
  | .bulkOperations conn call => r.st.waiting = false → CC_does_autocommit conn = true →
      call.operation = .updateByBookmark ∨ call.operation = .deleteByBookmark →
        call.bookmark = true
  | .cancel | .freeStmt => r.st.waiting = true → r.st.callbacks.all (!·.restores) = true
  | _ => True

/-! ### What an operation leaves behind -/

/-- How many callbacks of a queue will switch autocommit on. -/
def restoring (callbacks : List Callback) : Nat := callbacks.countP (·.restores)

/-- With `n` callbacks in the queue that switch autocommit on, the mode will be `before`. -/
structure Owes (before : Bool) (n : Nat) (conn : TransactStatus) : Prop where
  once : n ≤ 1
  off : n = 1 → before = true ∧ conn.autocommit = false
  back : n = 0 → conn.autocommit = before

/-- How an operation ends that has to restore autocommit or not: at its end, or with its rest in
the queue. -/
inductive Ran (needed : Bool) (st : PosState) : PosState × Option (RetCode × Nat) → Prop
  | finished (r : RetCode × Nat) : Ran needed st (st.restore needed, some r)
  | needData (row : RetCode → RetCode) (operation : Callback)
      (h : operation.restores = needed) : Ran needed st (st.enqueue row operation, none)

variable {before needed : Bool} {st : PosState} {r : PosState × Option (RetCode × Nat)}

/-- The data of a loop at its end. -/
def LoopEnd.data {δ : Type} : LoopEnd δ → δ
  | .finished _ s => s
  | .needData _ s => s

/-- The loops know nothing of autocommit. -/
theorem spos_loop_needed (call : SetPosCall) (s : SposData) (ret : RetCode) :
    (spos_loop call s ret).data.auto_commit_needed = s.auto_commit_needed := by
  fun_induction spos_loop call s ret with
  | case1 => rfl
  | case2 => rfl
  | case3 _ _ _ _ ih => exact ih
  | case4 => rfl
  | case5 => rfl
  | case6 _ _ _ _ _ _ _ _ ih => exact ih
  | case7 _ _ _ _ _ ih => exact ih

theorem bulk_loop_needed (call : BulkCall) (n : Nat) (s : BopData) (ret : RetCode) :
    (bulk_loop call n s ret).data.auto_commit_needed = s.auto_commit_needed := by
  fun_induction bulk_loop call n s ret with
  | case1 => rfl
  | case2 => rfl
  | case3 => rfl
  | case4 _ _ _ _ _ _ ih => exact ih

theorem spos_run_ran (call : SetPosCall) (s : SposData) (ret : RetCode) (st : PosState) :
    Ran s.auto_commit_needed st (spos_run call s ret st) := by
  have hneeded := spos_loop_needed call s ret
  unfold spos_run
  cases hloop : spos_loop call s ret with
  | finished ret t =>
    rw [hloop] at hneeded
    rw [← hneeded]
    exact .finished _
  | needData row t =>
    rw [hloop] at hneeded
    exact .needData _ _ hneeded

theorem bulk_run_ran (call : BulkCall) (s : BopData) (ret : RetCode) (st : PosState) :
    Ran s.auto_commit_needed st (bulk_run call s ret st) := by
  have hneeded := bulk_loop_needed call (call.size_of_rowset - s.idx) s ret
  unfold bulk_run
  cases hloop : bulk_loop call (call.size_of_rowset - s.idx) s ret with
  | finished ret t =>
    rw [hloop] at hneeded
    rw [← hneeded]
    exact .finished _
  | needData row t =>
    rw [hloop] at hneeded
    exact .needData _ _ hneeded

/-- The callback of a row lets go of the delegate; that of an operation goes on with it. -/
theorem callback_ran (st : PosState) (ret : RetCode) (callback : Callback) :
    Ran callback.restores st (callback.run st ret) ∨
      callback.restores = false ∧
        ∃ r, callback.run st ret = ({ st with execute_delegate := none }, some r) := by
  cases callback with
  | row f => exact .inr ⟨rfl, _, rfl⟩
  | spos call s =>
    refine .inl ?_
    by_cases hret : ret = .error
    · have h := spos_run_ran call { s with processed := s.processed + 1 } ret st
      simpa only [Callback.run, if_pos hret, Callback.restores] using h
    · have h := spos_run_ran call
        { s with processed := s.processed + 1, nrow := s.nrow + 1, idx := s.idx + 1 } ret st
      simpa only [Callback.run, if_neg hret, Callback.restores] using h
  | bulk call s =>
    exact .inl (bulk_run_ran call { s with processed := s.processed + 1, idx := s.idx + 1 } ret st)

theorem restoring_cons (callback : Callback) (callbacks : List Callback) :
    restoring (callback :: callbacks) = restoring callbacks + callback.restores.toNat := by
  rw [restoring, List.countP_cons]
  cases callback.restores <;> rfl

theorem restoring_enqueue (callbacks : List Callback) (row : RetCode → RetCode)
    (operation : Callback) : restoring (callbacks ++ [.row row, operation]) =
      restoring callbacks + operation.restores.toNat := by
  rw [restoring, List.countP_append]
  change _ + restoring [.row row, operation] = _
  rw [restoring_cons, restoring_cons]
  exact congrArg _ (Nat.zero_add _)

@[simp]
theorem restore_callbacks : (st.restore needed).callbacks = st.callbacks := by
  unfold PosState.restore
  split <;> rfl

@[simp]
theorem restore_waiting (st : PosState) : (st.restore needed).waiting = st.waiting := by
  unfold PosState.restore
  split <;> rfl

/-- The count of the queue and of the operation itself is taken over by the queue. -/
theorem Ran.owes (h : Ran needed st r)
    (howes : Owes before (restoring st.callbacks + needed.toNat) st.conn) :
    Owes before (restoring r.1.callbacks) r.1.conn := by
  cases h with
  | finished r =>
    rw [restore_callbacks]
    cases needed with
    | false => exact howes
    | true =>
      have hzero : restoring st.callbacks = 0 := Nat.le_zero.mp (Nat.le_of_succ_le_succ howes.once)
      have hbefore : before = true := (howes.off (by rw [hzero]; rfl)).1
      rw [hzero, hbefore]
      exact ⟨Nat.zero_le 1, nofun, fun _ => CC_set_autocommit_autocommit _ _⟩
  | needData row operation hneeded =>
    change Owes before (restoring (st.callbacks ++ [.row row, operation])) st.conn
    rw [restoring_enqueue, hneeded]
    exact howes

/-! ### The run -/

/-- Between calls: the mode is owed to the last operation, and nothing is in the queue for it
unless the statement waits. -/
structure PosRun.Ok (r : PosRun) : Prop where
  owes : Owes r.before (restoring r.st.callbacks) r.st.conn
  settled : r.st.waiting = false → restoring r.st.callbacks = 0

theorem PosRun.Ok.restored {r : PosRun} (h : r.Ok) : r.Restored :=
  fun hwaiting => h.owes.back (h.settled hwaiting)

/-- The queue is worked off until it is empty or data are needed. -/
theorem dequeue_ok (callbacks : List Callback) :
    ∀ (st : PosState) (ret : RetCode), st.callbacks = callbacks → st.waiting = false →
      Owes before (restoring callbacks) st.conn →
      PosRun.Ok ⟨(dequeueNeedDataCallback callbacks st ret).1, before⟩ := by
  induction callbacks with
  | nil =>
    intro st ret hcallbacks hwaiting howes
    have hnone : restoring st.callbacks = 0 := by rw [hcallbacks]; rfl
    exact ⟨by rw [dequeueNeedDataCallback, hcallbacks]; exact howes, fun _ => hnone⟩
  | cons callback callbacks ih =>
    intro st ret hcallbacks hwaiting howes
    rw [restoring_cons] at howes
    rcases callback_ran { st with callbacks := callbacks } ret callback with hran | ⟨hno, r, hrun⟩
    · have howes' := hran.owes howes
      rw [dequeueNeedDataCallback]
      generalize callback.run { st with callbacks := callbacks } ret = result at hran howes'
      cases hran with
      | finished r =>
        refine ih _ _ restore_callbacks ((restore_waiting _).trans hwaiting) ?_
        rwa [restore_callbacks] at howes'
      | needData row operation h => exact ⟨howes', nofun⟩
    · rw [dequeueNeedDataCallback, hrun]
      refine ih _ _ rfl rfl ?_
      rw [hno] at howes
      exact howes

/-- An operation that begins. -/
theorem ran_ok {conn : TransactStatus} {switches : Bool} (hnone : restoring st.callbacks = 0)
    (hst : st.conn = if switches && CC_does_autocommit conn then CC_set_autocommit conn false
      else conn)
    (h : Ran (switches && CC_does_autocommit conn) st r) :
    PosRun.Ok ⟨r.1, conn.autocommit⟩ := by
  have howes : Owes conn.autocommit
      (restoring st.callbacks + (switches && CC_does_autocommit conn).toNat) st.conn := by
    rw [hnone, hst]
    cases hneeded : switches && CC_does_autocommit conn with
    | false => exact ⟨Nat.zero_le 1, nofun, fun _ => rfl⟩
    | true =>
      have hdoes : conn.autocommit = true := by
        simp only [CC_does_autocommit, Bool.and_eq_true] at hneeded
        exact hneeded.2.1
      exact ⟨Nat.le_refl 1, fun _ => ⟨hdoes, CC_set_autocommit_autocommit _ _⟩, nofun⟩
  refine ⟨h.owes howes, ?_⟩
  cases h with
  | finished r =>
    intro _
    rw [restore_callbacks]
    exact hnone
  | needData row operation _ => nofun

/-- A call that does nothing to the connection. -/
theorem idle_ok {conn : TransactStatus} (hnone : restoring st.callbacks = 0) :
    PosRun.Ok ⟨{ st with conn := conn }, conn.autocommit⟩ :=
  ⟨⟨Nat.le_trans (Nat.le_of_eq hnone) (Nat.zero_le 1), fun h => absurd (hnone.symm.trans h) (by decide),
    fun _ => rfl⟩, fun _ => hnone⟩

/-- `PGAPI_SetPos` restores the mode, or queues the restoring. -/
theorem setPos_ok (conn : TransactStatus) (call : SetPosCall)
    (hnone : restoring st.callbacks = 0) :
    PosRun.Ok ⟨(PGAPI_SetPos call { st with conn := conn }).1, conn.autocommit⟩ := by
  unfold PGAPI_SetPos
  split
  · exact idle_ok hnone
  split
  · exact idle_ok hnone
  split
  · exact idle_ok hnone
  split
  · exact idle_ok hnone
  dsimp only
  generalize hswitch : decide (call.fOption = .update ∨ call.fOption = .delete ∨
    call.fOption = .add) = switches
  generalize hstate : (if (switches && CC_does_autocommit conn) = true then
    ({ { st with conn := conn } with conn := CC_set_autocommit conn false } : PosState)
      else { st with conn := conn }) = st'
  have hst : st'.conn = if switches && CC_does_autocommit conn then CC_set_autocommit conn false
      else conn := by
    rw [← hstate]
    split <;> rfl
  have hnone' : restoring st'.callbacks = 0 := by
    rw [← hstate]
    split <;> exact hnone
  have hrun := ran_ok hnone' hst (spos_run_ran call
    { auto_commit_needed := switches && CC_does_autocommit conn
      start_row := call.irow - 1
      end_row := if call.irow = 0 then call.rowsetSize - 1 else call.irow - 1
      idx := 0
      nrow := 0
      processed := 0 } .success st')
  split
  · rename_i heq
    rwa [heq] at hrun
  · rename_i heq
    rwa [heq] at hrun

/-- `PGAPI_BulkOperations` does so too, unless it looks for a bookmark in vain. -/
theorem bulkOperations_ok (conn : TransactStatus) (call : BulkCall)
    (hnone : restoring st.callbacks = 0)
    (hbookmark : CC_does_autocommit conn = true →
      call.operation = .updateByBookmark ∨ call.operation = .deleteByBookmark →
        call.bookmark = true) :
    PosRun.Ok ⟨(PGAPI_BulkOperations call { st with conn := conn }).1, conn.autocommit⟩ := by
  unfold PGAPI_BulkOperations
  dsimp only
  generalize hswitch : decide (call.operation ≠ .fetchByBookmark) = switches
  generalize hstate : (if (switches && CC_does_autocommit conn) = true then
    ({ { st with conn := conn } with conn := CC_set_autocommit conn false } : PosState)
      else { st with conn := conn }) = st'
  have hst : st'.conn = if switches && CC_does_autocommit conn then CC_set_autocommit conn false
      else conn := by
    rw [← hstate]
    split <;> rfl
  have hnone' : restoring st'.callbacks = 0 := by
    rw [← hstate]
    split <;> exact hnone
  -- where nothing has been switched, nothing has to be restored
  have hidle : (switches && CC_does_autocommit conn) = false →
      PosRun.Ok ⟨st', conn.autocommit⟩ := by
    intro hno
    rw [← hstate, hno]
    exact idle_ok hnone
  split
  · rename_i hmissing
    refine hidle (Bool.eq_false_iff.mpr fun hneeded => ?_)
    rw [Bool.and_eq_true] at hneeded
    have hfetch : call.operation ≠ .fetchByBookmark := of_decide_eq_true (hswitch.trans hneeded.1)
    have hno : call.bookmark = false := by simpa using hmissing.2
    refine absurd (hno.symm.trans (hbookmark hneeded.2 ?_)) Bool.false_ne_true
    cases hop : call.operation with
    | add => exact absurd hop hmissing.1
    | updateByBookmark => exact .inl rfl
    | deleteByBookmark => exact .inr rfl
    | fetchByBookmark => exact absurd hop hfetch
  split
  · rename_i hfetch
    refine hidle ?_
    rw [← hswitch, hfetch]
    rfl
  · have hrun := ran_ok hnone' hst
      (bulk_run_ran call ⟨switches && CC_does_autocommit conn, 0, 0⟩ .success st')
    split
    · rename_i heq
      rwa [heq] at hrun
    · rename_i heq
      rwa [heq] at hrun

/-- Without a bookmark, autocommit stays off. -/
theorem bulkOperations_lost (st : PosState) (conn : TransactStatus) (call : BulkCall)
    (hdoes : CC_does_autocommit conn = true)
    (hop : call.operation = .updateByBookmark ∨ call.operation = .deleteByBookmark)
    (hbookmark : call.bookmark = false) :
    (PGAPI_BulkOperations call { st with conn := conn }).1 =
      { st with conn := CC_set_autocommit conn false } := by
  unfold PGAPI_BulkOperations
  rcases hop with h | h
  · simp [h, hbookmark, hdoes]
  · simp [h, hbookmark, hdoes]

/-- What each call that keeps the mode leaves behind. -/
theorem step_ok (r : PosRun) (e : PosEvent) (h : r.Ok) (hkeeps : r.Keeps e) : (r.step e).Ok := by
  obtain ⟨st, before⟩ := r
  cases e with
  | setPos conn call =>
    unfold PosRun.step
    dsimp only
    split
    · exact h
    · rename_i hwaiting
      exact setPos_ok conn call (h.settled (Bool.eq_false_iff.mpr hwaiting))
  | bulkOperations conn call =>
    unfold PosRun.step
    dsimp only
    split
    · exact h
    · rename_i hwaiting
      have hwaiting := Bool.eq_false_iff.mpr hwaiting
      exact bulkOperations_ok conn call (h.settled hwaiting) (hkeeps hwaiting)
  | paramData ret =>
    change PosRun.Ok ⟨(PGAPI_ParamData ret st).1, before⟩
    unfold PGAPI_ParamData
    split
    · exact dequeue_ok st.callbacks { st with execute_delegate := some ⟨false, []⟩ } ret rfl rfl
        h.owes
    · exact h
  | cancel =>
    have hnone : restoring st.callbacks = 0 := by
      cases hwaiting : st.waiting with
      | false => exact h.settled hwaiting
      | true =>
        rw [restoring, List.countP_eq_zero]
        simpa using hkeeps hwaiting
    have hcancel : (PGAPI_Cancel st).callbacks = st.callbacks ∧
        (PGAPI_Cancel st).conn = st.conn := by
      unfold PGAPI_Cancel
      split
      · split <;> exact ⟨rfl, rfl⟩
      · exact ⟨rfl, rfl⟩
    change PosRun.Ok ⟨PGAPI_Cancel st, before⟩
    refine ⟨?_, fun _ => ?_⟩
    · rw [hcancel.1, hcancel.2]
      exact h.owes
    · rw [hcancel.1]
      exact hnone
  | freeStmt =>
    have hnone : restoring st.callbacks = 0 := by
      cases hwaiting : st.waiting with
      | false => exact h.settled hwaiting
      | true =>
        rw [restoring, List.countP_eq_zero]
        simpa using hkeeps hwaiting
    refine ⟨?_, fun _ => rfl⟩
    have howes := h.owes
    rw [hnone] at howes
    exact howes

/-- A wait that ends without the queued work leaves autocommit as it is. -/
theorem all_kept_of_restored {r : PosRun} {s : PosState} (h : r.Ok)
    (hwaiting : s.waiting = false) (hconn : s.conn = r.st.conn)
    (hrestored : PosRun.Restored ⟨s, r.before⟩) :
    r.st.callbacks.all (!·.restores) = true := by
  have hzero : restoring r.st.callbacks = 0 := by
    by_contra hne
    have hone : restoring r.st.callbacks = 1 :=
      Nat.le_antisymm h.owes.once (Nat.one_le_iff_ne_zero.mpr hne)
    obtain ⟨hbefore, hoff⟩ := h.owes.off hone
    have hback : s.conn.autocommit = r.before := hrestored hwaiting
    rw [hconn, hoff, hbefore] at hback
    exact Bool.false_ne_true hback
  rw [restoring, List.countP_eq_zero] at hzero
  simpa using hzero

/-- A call behind which the mode is back keeps it. -/
theorem keeps_of_restored (r : PosRun) (e : PosEvent) (h : r.Ok)
    (hrestored : (r.step e).Restored) : r.Keeps e := by
  obtain ⟨st, before⟩ := r
  cases e with
  | setPos conn call => exact trivial
  | paramData ret => exact trivial
  | bulkOperations conn call =>
    intro hwaiting hdoes hop
    by_contra hbookmark
    have hlost := bulkOperations_lost st conn call hdoes hop
      (Bool.eq_false_iff.mpr hbookmark)
    rw [PosRun.step, if_neg (Bool.eq_false_iff.mp hwaiting), hlost] at hrestored
    have hback : (CC_set_autocommit conn false).autocommit = conn.autocommit := hrestored hwaiting
    rw [CC_set_autocommit_autocommit] at hback
    rw [CC_does_autocommit, ← hback] at hdoes
    exact Bool.false_ne_true hdoes
  | cancel =>
    intro hwaiting
    obtain ⟨conn, callbacks, delegate⟩ := st
    cases delegate with
    | none => exact absurd hwaiting Bool.false_ne_true
    | some d =>
      have hd : d.waiting = true := by simpa [PosState.waiting] using hwaiting
      refine all_kept_of_restored (s := ⟨conn, callbacks, some ⟨false, []⟩⟩) h rfl rfl ?_
      have hcancel : PGAPI_Cancel ⟨conn, callbacks, some d⟩ =
          ⟨conn, callbacks, some ⟨false, []⟩⟩ := if_pos hd
      rw [← hcancel]
      exact hrestored
  | freeStmt =>
    intro hwaiting
    exact all_kept_of_restored (s := SC_recycle_statement st) h rfl rfl hrestored

/-- **Autocommit is given back.** In a run of positioned operations the mode is, whenever an
operation is over, what it was before, exactly when every call keeps it: no operation by bookmark
that switches autocommit off lacks a bookmark, and none that has switched it off is cancelled or
closed while it waits for data. -/
theorem autocommit_restored_iff (conn : TransactStatus) (events : List PosEvent) :
    posMachine.AllSteps (fun r e => (r.step e).Restored) (.start conn) events ↔
      posMachine.AllSteps PosRun.Keeps (.start conn) events := by
  have hstart : (PosRun.start conn).Ok :=
    ⟨⟨Nat.zero_le 1, nofun, fun _ => rfl⟩, fun _ => rfl⟩
  exact Machine.allSteps_iff (m := posMachine) (Q := PosRun.Restored)
    (fun r e h => ⟨keeps_of_restored r e h, fun hkeeps => (step_ok r e h hkeeps).restored⟩)
    (fun r e h hkeeps => step_ok r e h hkeeps) hstart

/-- An update by bookmark without a bookmark: autocommit is off behind it. -/
theorem autocommit_lost :
    let call : BulkCall := ⟨.updateByBookmark, false, 1, .success, fun _ => .done .success⟩
    let conn : TransactStatus := ⟨true, false⟩
    let r := (PosRun.start conn).step (.bulkOperations conn call)
    r.st.waiting = false ∧ r.before = true ∧ r.st.conn.autocommit = false := by
  decide

end OdbcDriver
