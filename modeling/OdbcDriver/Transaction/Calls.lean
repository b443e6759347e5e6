import OdbcDriver.Lib.Run
import OdbcDriver.Transaction.ConnectionRules

/-!
# Calls and the exchanges they are made of

A call of the driver is put together from a few exchanges: a query, the savepoint commands, the
rollback of a statement, a command of the extended protocol, an internal query. What each of
these preserves, every call preserves, and every run of calls.
-/

namespace OdbcDriver

variable {o : SavepointOptions} {c d : Conn} {Inv Ready : Conn → Prop}

/-! ### Flags that claims about transactions do not mention -/

/-- The connections agree in all but options, the operation in progress, and the flags of
statements and of autocommit. -/
structure SameMemory (d c : Conn) : Prop extends SameServer d c where
  in_trans : d.in_trans = c.in_trans
  in_error_trans : d.in_error_trans = c.in_error_trans
  internal_svp : d.internal_svp = c.internal_svp
  on_commits : d.on_commits = c.on_commits
  on_aborts : d.on_aborts = c.on_aborts

theorem restrict_opt_memory (rdonly : Bool) : SameMemory (c.restrict_opt rdonly) c :=
  ⟨⟨rfl, rfl, rfl⟩, rfl, rfl, rfl, rfl, rfl⟩

theorem set_accessed_db_memory : SameMemory c.set_accessed_db c :=
  ⟨⟨rfl, rfl, rfl⟩, rfl, rfl, rfl, rfl, rfl⟩

theorem set_internal_op_memory (op : InternalOp) : SameMemory (c.set_internal_op op) c :=
  ⟨⟨rfl, rfl, rfl⟩, rfl, rfl, rfl, rfl, rfl⟩

theorem set_in_manual_trans_memory : SameMemory c.set_in_manual_trans c :=
  ⟨⟨rfl, rfl, rfl⟩, rfl, rfl, rfl, rfl, rfl⟩

theorem set_autocommit_memory (on : Bool) : SameMemory (c.set_autocommit on) c :=
  ⟨⟨rfl, rfl, rfl⟩, rfl, rfl, rfl, rfl, rfl⟩

theorem start_stmt_memory : SameMemory c.start_stmt c :=
  ⟨⟨rfl, rfl, rfl⟩, rfl, rfl, rfl, rfl, rfl⟩

theorem next_opt_memory : SameMemory c.next_opt c :=
  ⟨⟨rfl, rfl, rfl⟩, rfl, rfl, rfl, rfl, rfl⟩

/-! ### Two ways to send a query -/

/-- `sendQuery` for a query that is not to be rolled back on error. -/
theorem sendQuery_eq {flag : QueryFlags} {query : List Command}
    (hflag : (flag.rollback_on_error && considerRollback flag query c) = false)
    (appendq : List Command) : (sendQuery o flag query appendq c).1 =
      let opening :=
        if issueBegin flag c then [ours .start]
        else if c.internal_op = .prepend_in_progress then savepointCommand c else []
      let c' := if issueBegin flag c = false ∧ c.internal_op = .prepend_in_progress then
        c.set_internal_op .savepoint_in_progress else c
      let l := queryLoop .simple false (opening ++ theirs (query ++ appendq)) c'
      LIBPQ_update_transaction_status l.conn.server.status l.conn := by
  simp [sendQuery, rollbackOnError, hflag]

/-- The commands of an internal query between `SAVEPOINT` and `RELEASE`. -/
def perQueryText (w : Work) : List Sent :=
  [ours (.savepoint .per_query_svp), ⟨.work w, false⟩, ours (.release .per_query_svp)]

/-- The flags of an internal query. -/
def internalFlags (read_only : Bool) : QueryFlags := ⟨true, false, true, false, read_only⟩

/-- `sendQuery` for an internal query that is to be rolled back on error. -/
theorem sendQuery_internal (read_only : Bool) (w : Work) (htrans : c.in_trans = true)
    (herror : c.in_error_trans = false) (hop : c.internal_op ≠ .prepend_in_progress) :
    (sendQuery o (internalFlags read_only) [.work w] [] c).1 =
      let l :=
        if o.version_ge_8_0 = true ∧ o.for_extension_connector = false then
          queryLoop .simple true (perQueryText w) c
        else
          queryLoop (if o.version_ge_8_0 then .unprotected else .simple) false (theirs [.work w]) c
      let d := (rollbackOnError (internalFlags read_only) true o.version_ge_8_0 l).1
      LIBPQ_update_transaction_status d.server.status d := by
  obtain ⟨ext, ignore, version⟩ := o
  cases version <;> cases ext <;>
    simp [sendQuery, considerRollback, issueBegin, internalFlags, perQueryText, theirs, htrans,
      herror, hop]

/-! ### What the exchanges preserve -/

/-- An invariant between calls, and what it is when a savepoint command may wait to be
prepended: the single exchanges preserve it. -/
structure Preserved (o : SavepointOptions) (Inv Ready : Conn → Prop) : Prop where
  ready {c : Conn} : Inv c → Ready c
  flags {c d : Conn} : Inv c → SameMemory d c → d.internal_op = c.internal_op → Inv d
  update {c : Conn} : Inv c → Inv (LIBPQ_update_transaction_status c.server.status c)
  prepend {c : Conn} : Inv c → c.in_trans = true → c.in_error_trans = false →
    Ready (c.set_internal_op .prepend_in_progress).set_accessed_db
  send {c : Conn} (flag : QueryFlags) (query appendq : List Command) :
    (flag.rollback_on_error && considerRollback flag query c) = false → Ready c →
      Inv (sendQuery o flag query appendq c).1
  savepoint {c : Conn} : Inv c → c.in_trans = true → c.in_error_trans = false →
    Inv (sendSavepoint c).1
  statement {c : Conn} : Inv c → c.internal_svp = true → Inv (CC_internal_rollback_statement c).1
  extended {c d : Conn} (command : Command) : Inv c →
    Exchanged .extended [⟨command, false⟩] c d →
      Inv (receiveExtended command d (c.server.exec ⟨command, false⟩).2).1
  internal {c : Conn} (read_only : Bool) (w : Work) : Inv c → c.in_trans = true →
    c.in_error_trans = false → Inv (sendQuery o (internalFlags read_only) [.work w] [] c).1

namespace Preserved

theorem setStatementSvp (P : Preserved o Inv Ready) (stmt : Stmt) (rdonly reduce : Bool)
    (h : Inv c) :
    Ready (SetStatementSvp o stmt rdonly reduce c).1 ∧
      ((SetStatementSvp o stmt rdonly reduce c).2 = false ∨ reduce = false →
        Inv (SetStatementSvp o stmt rdonly reduce c).1) := by
  unfold SetStatementSvp
  split
  · exact ⟨P.ready h, fun _ => h⟩
  next herror =>
    have hopt : Inv (c.restrict_opt rdonly) := P.flags h (restrict_opt_memory rdonly) rfl
    have hplain := P.flags hopt set_accessed_db_memory rfl
    dsimp only
    split
    · exact ⟨P.ready hopt, fun _ => hopt⟩
    · split
      next hneed =>
        rw [needSavepoint, Bool.and_eq_true, Bool.and_eq_true] at hneed
        have htrans : (c.restrict_opt rdonly).in_trans = true := hneed.1.2
        have herror' : (c.restrict_opt rdonly).in_error_trans = false :=
          Bool.eq_false_iff.mpr herror
        split
        next hreduce =>
          refine ⟨P.prepend hopt htrans herror', ?_⟩
          rintro (h' | h')
          · cases h'
          · exact absurd (h'.symm.trans hreduce) (by decide)
        next =>
          have hsend := P.flags (P.savepoint hopt htrans herror') set_accessed_db_memory rfl
          exact ⟨P.ready hsend, fun _ => hsend⟩
      next => exact ⟨P.ready hplain, fun _ => hplain⟩

theorem sendQueryText (P : Preserved o Inv Ready) {flag : QueryFlags}
    (hflag : flag.rollback_on_error = false) (stmt : Option Stmt) (query appendq : List Command)
    (h : Inv c) : Inv (CC_send_query_text o flag stmt query appendq c).1 := by
  have hsend : ∀ {d : Conn}, Ready d → Inv (sendQuery o flag query appendq d).1 :=
    P.send flag query appendq (by rw [hflag]; rfl)
  unfold CC_send_query_text
  split
  · exact h
  · cases stmt with
    | none => exact hsend (P.ready h)
    | some stmt =>
      dsimp only
      split
      · have hset := P.setStatementSvp stmt flag.read_only_query (!o.ignore_roundtrip_time) h
        split
        · exact hsend hset.1
        next hok => exact P.update (hset.2 (.inl (Bool.eq_false_iff.mpr hok)))
      · exact hsend (P.ready h)

theorem sendQueryAppend (P : Preserved o Inv Ready) {flag : QueryFlags}
    (hflag : flag.rollback_on_error = false) (stmt : Option Stmt) (query appendq : List Command)
    (h : Inv c) : Inv (CC_send_query_append o flag stmt query appendq c).1 := by
  unfold CC_send_query_append
  split
  · have hfirst := P.sendQueryText hflag stmt query [] h
    have hflag' : { flag with go_into_transaction := false }.rollback_on_error = false := hflag
    dsimp only
    split
    · exact P.sendQueryText hflag' stmt appendq [] hfirst
    · exact hfirst
  · exact P.sendQueryText hflag stmt query appendq h

theorem begin_ (P : Preserved o Inv Ready) (h : Inv c) : Inv (CC_begin o c).1 := by
  unfold CC_begin
  split
  · exact h
  · exact P.send _ _ _ rfl (P.ready h)

theorem commit (P : Preserved o Inv Ready) (ok notice : Bool) (h : Inv c) :
    Inv (CC_commit o ok notice c).1 := by
  unfold CC_commit
  split
  · exact P.send _ _ _ rfl (P.ready h)
  · exact h

theorem abort (P : Preserved o Inv Ready) (h : Inv c) : Inv (CC_abort o c).1 := by
  unfold CC_abort
  split
  · exact P.send _ _ _ rfl (P.ready h)
  · exact h

theorem discard (P : Preserved o Inv Ready) (stmt : Stmt) (ret : StatementReturn)
    (errorOnly : Bool) (h : Inv c) : Inv (DiscardStatementSvp o stmt ret errorOnly c) := by
  have hclean : ∀ {d : Conn} (b : Bool), Inv d →
      Inv (if b then (if ret ≠ .error ∧ d.accessed_db = true then d.next_opt else d).start_stmt
        else d) := by
    intro d b hd
    split
    · split
      · exact P.flags (P.flags hd next_opt_memory rfl) start_stmt_memory rfl
      · exact P.flags hd start_stmt_memory rfl
    · exact hd
  unfold DiscardStatementSvp
  dsimp only
  split
  · exact hclean _ h
  · split
    · exact hclean _ h
    · split
      · split
        next hsvp => exact hclean _ (P.statement h (Bool.and_eq_true_iff.mp hsvp).2)
        next =>
          split
          · exact hclean _ (P.abort h)
          · exact hclean _ h
      · split
        · exact h
        · exact hclean _ h

theorem requestStart (P : Preserved o Inv Ready) (stmt : Stmt) (h : Inv c) :
    Inv (RequestStart o stmt c).1 := by
  unfold RequestStart
  split
  · exact h
  · have hset := (P.setStatementSvp stmt stmt.readonly false h).2 (.inr rfl)
    dsimp only
    split
    · exact hset
    · split
      · exact P.begin_ hset
      · exact hset

theorem bindAndExec (P : Preserved o Inv Ready) (stmt : Stmt) (bound : Bool) (command : Command)
    (h : Inv c) : Inv (libpq_bind_and_exec o stmt bound command c).1 := by
  have hstart := P.requestStart stmt h
  unfold libpq_bind_and_exec
  generalize RequestStart o stmt c = r at hstart
  obtain ⟨c', ok⟩ := r
  dsimp only at hstart ⊢
  split
  · exact hstart
  · obtain ⟨d, hd, hexch⟩ := exchange_eq .extended [⟨command, false⟩] c'
    have hd' : c'.exchange .extended (theirs [command]) = _ := hd
    rw [hd', Server.query_single]
    exact P.extended command hstart hexch

theorem execute (P : Preserved o Inv Ready) (e : ExecuteCall) (h : Inv c) :
    Inv (SC_execute o e c).1 := by
  have hbegin : Inv (executeBegin o e c).1 := by
    unfold executeBegin
    split
    · exact h
    · split
      · split
        · exact P.commit _ _ h
        · exact h
      · split <;> exact h
  have hsend : Inv (executeSend o e (executeBegin o e c).2 (executeBegin o e c).1).1 := by
    unfold executeSend
    split
    · exact P.sendQueryAppend rfl _ _ _ hbegin
    · refine P.bindAndExec _ _ _ ?_
      split
      · exact P.begin_ hbegin
      · exact hbegin
  have hend : ∀ {d : Conn} (b : Bool), Inv d → Inv (executeEnd o e b d) := by
    intro d b hd
    have hmanual : Inv (if b then d else d.set_in_manual_trans) := by
      split
      · exact hd
      · exact P.flags hd set_in_manual_trans_memory rfl
    unfold executeEnd
    split
    · dsimp only
      generalize (if b then d else d.set_in_manual_trans) = d' at hmanual ⊢
      split
      · exact P.commit _ _ hmanual
      · exact hmanual
    · exact hd
  unfold SC_execute
  dsimp only
  generalize executeSend o e _ _ = r at hsend
  obtain ⟨d, ok⟩ := r
  cases ok with
  | none => exact hsend
  | some ok => exact hend _ hsend

theorem call (P : Preserved o Inv Ready) (call : ConnCall) (h : Inv c) : Inv (call.run o c) := by
  cases call with
  | internalQuery read_only w =>
    have hrun : ConnCall.run o (.internalQuery read_only w) c =
        (sendQuery o (internalFlags read_only) [.work w] [] c).1 := rfl
    rw [hrun]
    cases hcons : considerRollback (internalFlags read_only) [.work w] c with
    | false => exact P.send _ _ _ (by rw [hcons]; rfl) (P.ready h)
    | true =>
      have hopen : c.in_trans = true ∧ c.in_error_trans = false := by
        simpa [considerRollback, issueBegin, internalFlags] using hcons
      exact P.internal read_only w h hopen.1 hopen.2
  | query flag text => exact P.sendQueryAppend rfl _ _ _ h
  | statementQuery stmt go_into_transaction read_only text =>
    exact P.sendQueryAppend rfl _ _ _ h
  | execute e => exact P.execute e h
  | discard stmt ret errorOnly => exact P.discard stmt ret errorOnly h
  | begin_ => exact P.begin_ h
  | commit ok notice => exact P.commit ok notice h
  | abort => exact P.abort h
  | setAutocommit on ok notice =>
    rw [ConnCall.run]
    split
    · exact h
    · refine P.flags ?_ (set_autocommit_memory on) rfl
      split
      · exact P.commit ok notice h
      · exact h

end Preserved

/-- A connection that takes one call after the other. -/
def connMachine (o : SavepointOptions) : Machine Conn ConnCall Unit where
  step c call := (call.run o c, ())

/-- **Runs.** What the exchanges preserve holds at the end of every run of calls. -/
theorem Preserved.run (P : Preserved o Inv Ready) (h : Inv c) (calls : List ConnCall) :
    Inv ((connMachine o).final c calls) :=
  Machine.invariant (m := connMachine o) (fun _ call hc => P.call call hc) h

/-- An insert sent as a simple query in manual-commit mode, and the clearing up after it. -/
def insertCalls (row : Nat) (ok : Bool) : List ConnCall :=
  let stmt : Stmt := ⟨.other, .rb_stmt, true, false⟩
  [.execute ⟨stmt, false, false, .simple [.work ⟨some row, ok, false, false⟩] [], true, false⟩,
    .discard stmt (if ok then .other else .error) false]

end OdbcDriver
