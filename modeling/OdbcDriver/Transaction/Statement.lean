import OdbcDriver.Transaction.Connection

/-!
# Statements and their savepoints

A statement that is to be rolled back alone has a savepoint set before it, by
`SetStatementSvp`, and is cleared up after by `DiscardStatementSvp`. Between them it runs
through `SC_execute`: as a simple query with its parameters in the text, or in the extended
protocol by `libpq_bind_and_exec`.
-/

namespace OdbcDriver

/-- The statement types that matter to transactions. -/
inductive StatementKind
  | special
  | transaction
  | start
  | other
deriving DecidableEq, Repr

/-- `rb_or_tc`: what an error of the statement rolls back. -/
inductive RollbackState
  | none
  | tc_stmt
  | rb_stmt
deriving DecidableEq, Repr

/-- What `StatementClass` says about transactions. -/
structure Stmt where
  statement_type : StatementKind
  rb_or_tc : RollbackState
  /-- The handle is the application's. -/
  external : Bool
  /-- `SC_is_readonly` -/
  readonly : Bool
deriving DecidableEq, Repr

/-- What an API function returns, as far as the savepoints care. -/
inductive StatementReturn
  | need_data
  | error
  | other
deriving DecidableEq, Repr

/-- `StartRollbackState` -/
def StartRollbackState (o : SavepointOptions) (rollback_on_error : Int) (stmt : Stmt) : Stmt :=
  let ret :=
    if rollback_on_error < 0 then (if o.version_ge_8_0 then 2 else 1)
    else if rollback_on_error = 2 ∧ o.version_ge_8_0 = false then 1
    else rollback_on_error
  if ret = 1 then { stmt with rb_or_tc := .tc_stmt }
  else if ret = 2 then { stmt with rb_or_tc := .rb_stmt }
  else stmt

/-! ### The savepoint of a statement -/

/-- `opt_in_progress &= option` -/
def Conn.restrict_opt (rdonly : Bool) (c : Conn) : Conn :=
  { c with opt_in_progress := c.opt_in_progress && rdonly }

/-- `SetStatementSvp`: a savepoint is called for. Before the first command of a transaction, and
after a statement that only read, it is not. -/
def needSavepoint (o : SavepointOptions) (stmt : Stmt) (c : Conn) : Bool :=
  !c.started_rbpoint && !c.opt_previous && decide (stmt.rb_or_tc = .rb_stmt) && c.in_trans &&
    !o.for_extension_connector

/-- `SetStatementSvp`: the savepoint commands are sent by `CC_send_query`, as a text that sets
no savepoint of its own. -/
def sendSavepoint (c : Conn) : Conn × Bool :=
  let l := queryLoop .simple false (savepointCommand c)
    (c.set_internal_op .savepoint_in_progress)
  ((LIBPQ_update_transaction_status l.conn.server.status l.conn).set_internal_op .none,
    !l.aborted)

/-- `SetStatementSvp`, with the options `SVPOPT_RDONLY` and `SVPOPT_REDUCE_ROUNDTRIP`. The
result is `false` for `SQL_ERROR`. -/
def SetStatementSvp (o : SavepointOptions) (stmt : Stmt) (rdonly reduce_roundtrip : Bool)
    (c : Conn) : Conn × Bool :=
  if c.in_error_trans then (c, true)
  else
    let c := c.restrict_opt rdonly
    if stmt.statement_type = .special ∨ stmt.statement_type = .transaction then (c, true)
    else if needSavepoint o stmt c then
      if reduce_roundtrip then ((c.set_internal_op .prepend_in_progress).set_accessed_db, true)
      else ((sendSavepoint c).1.set_accessed_db, (sendSavepoint c).2)
    else (c.set_accessed_db, true)

/-- `CC_send_query_append` for one text, with or without a statement. No caller asks for the
rollback of a query that belongs to a statement. -/
def CC_send_query_text (o : SavepointOptions) (flag : QueryFlags) (stmt : Option Stmt)
    (query appendq : List Command) (c : Conn) : Conn × Bool :=
  if query.isEmpty then (c, false)
  else
    match stmt with
    | none => sendQuery o flag query appendq c
    | some stmt =>
      let considered := considerRollback flag query c
      let query_rollback :=
        flag.rollback_on_error && considered && !flag.end_with_commit && o.version_ge_8_0
      if !query_rollback && considered && !flag.end_with_commit && !c.started_rbpoint then
        let (c, ok) := SetStatementSvp o stmt flag.read_only_query (!o.ignore_roundtrip_time) c
        if ok then sendQuery o flag query appendq c
        else (LIBPQ_update_transaction_status c.server.status c, false)
      else sendQuery o flag query appendq c

/-- `CC_send_query_append`: the appended query travels alone when round trips cost nothing. -/
def CC_send_query_append (o : SavepointOptions) (flag : QueryFlags) (stmt : Option Stmt)
    (query appendq : List Command) (c : Conn) : Conn × Bool :=
  if !appendq.isEmpty && o.ignore_roundtrip_time then
    let (c, ok) := CC_send_query_text o flag stmt query [] c
    if ok then CC_send_query_text o { flag with go_into_transaction := false } stmt appendq [] c
    else (c, false)
  else CC_send_query_text o flag stmt query appendq c

/-- The options of the statement become those of the previous one. -/
def Conn.next_opt (c : Conn) : Conn :=
  { c with opt_previous := c.opt_in_progress, opt_in_progress := true }

/-- `DiscardStatementSvp` -/
def DiscardStatementSvp (o : SavepointOptions) (stmt : Stmt) (ret : StatementReturn)
    (errorOnly : Bool) (c : Conn) : Conn :=
  let start_stmt := match ret with
    | .need_data => false
    | .error => true
    | .other => !errorOnly
  let cleanup (c : Conn) : Conn :=
    if start_stmt then
      (if ret ≠ .error ∧ c.accessed_db = true then c.next_opt else c).start_stmt
    else c
  if !c.accessed_db || !c.in_trans then cleanup c
  else if stmt.rb_or_tc = .none then cleanup c
  else if ret = .error then
    if c.started_rbpoint && c.internal_svp then cleanup (CC_internal_rollback_statement c).1
    else if !o.for_extension_connector then cleanup (CC_abort o c).1
    else cleanup c
  else if errorOnly then c
  else cleanup c

/-! ### Executing a statement -/

/-- How a statement is sent. -/
inductive Execution
  /-- With its parameters in the text, and for a server cursor the first fetch appended. -/
  | simple (query appendq : List Command)
  /-- Parsed or executed by the extended protocol, once its parameters are bound. -/
  | extended (bound : Bool) (command : Command)

/-- `RequestStart` -/
def RequestStart (o : SavepointOptions) (stmt : Stmt) (c : Conn) : Conn × Bool :=
  if c.started_rbpoint then (c, true)
  else
    let (c, ok) := SetStatementSvp o stmt stmt.readonly false c
    if !ok then (c, false)
    else if !c.in_trans && c.loves_visible_trans && decide (stmt.statement_type ≠ .special) then
      CC_begin o c
    else (c, true)

/-- The answer to an execution in the extended protocol; libpq has the final status. -/
def receiveExtended (command : Command) (c : Conn) (r : Reply) : Conn × Bool :=
  match r.outcome with
  | .tag _ =>
    match c.server.status with
    | .inTrans | .inError =>
      let c := { c with in_trans := true }
      (if command = .begin_ ∨ command = .start then c.set_in_manual_trans else c, true)
    | _ => (c.set_no_trans, true)
  | .tuples => (c, true)
  | .error => (handle_pgres_error true c.server.status c, false)

/-- `libpq_bind_and_exec`, whose result may be missing. A parse or a describe by libpq goes the
same way and returns no tag. -/
def libpq_bind_and_exec (o : SavepointOptions) (stmt : Stmt) (bound : Bool) (command : Command)
    (c : Conn) : Conn × Option Bool :=
  let (c, ok) := RequestStart o stmt c
  if !ok || !bound then (c, none)
  else
    let (c, rs) := c.exchange .extended (theirs [command])
    let (c, ok) := rs.foldl (fun s r => receiveExtended command s.1 r) (c, true)
    (c, some ok)

/-- What is open to `SC_execute` besides the statement. -/
structure ExecuteCall where
  stmt : Stmt
  /-- A server cursor is declared. -/
  useCursor : Bool
  isSelectType : Bool
  execution : Execution
  /-- How the server takes a commit of the driver before and after the statement. -/
  commit_ok : Bool
  commit_notice : Bool

/-- `SC_execute`: whether it is to begin a transaction, after a `BEGIN` in autocommit mode has
committed the open one. -/
def executeBegin (o : SavepointOptions) (e : ExecuteCall) (c : Conn) : Conn × Bool :=
  if !e.stmt.external then (c, false)
  else if c.in_trans then
    if e.stmt.statement_type = .start ∧ c.does_autocommit = true then
      ((CC_commit o e.commit_ok e.commit_notice c).1, false)
    else (c, false)
  else if c.does_autocommit && !e.useCursor then (c, false)
  else (c, decide (e.stmt.statement_type ≠ .special))

/-- `SC_execute`: the statement is sent. -/
def executeSend (o : SavepointOptions) (e : ExecuteCall) (issue_begin : Bool) (c : Conn) :
    Conn × Option Bool :=
  match e.execution with
  | .simple query appendq =>
    let (c, ok) := CC_send_query_append o
      { QueryFlags.none with go_into_transaction := issue_begin } (some e.stmt) query appendq c
    (c, some ok)
  | .extended bound command =>
    libpq_bind_and_exec o e.stmt bound command (if issue_begin then (CC_begin o c).1 else c)

/-- `SC_execute`: what follows a statement that is no select. -/
def executeEnd (o : SavepointOptions) (e : ExecuteCall) (is_in_trans : Bool) (c : Conn) : Conn :=
  if !e.isSelectType && c.in_trans then
    let c := if is_in_trans then c else c.set_in_manual_trans
    if e.stmt.external && c.does_autocommit && !c.in_manual_trans then
      (CC_commit o e.commit_ok e.commit_notice c).1
    else c
  else c

/-- `SC_execute`, and whether the statement succeeded. A setting of the statement timeout is a
query of its own before it. -/
def SC_execute (o : SavepointOptions) (e : ExecuteCall) (c : Conn) : Conn × Bool :=
  let (c, issue_begin) := executeBegin o e c
  let is_in_trans := c.in_trans
  match executeSend o e issue_begin c with
  | (c, some ok) => (executeEnd o e is_in_trans c, ok)
  | (c, none) => (c, false)

/-! ### A connection in use -/

/-- What the driver does with a connection, as far as transactions go. -/
inductive ConnCall
  /-- A query of the driver to be rolled back on error, such as `MOVE`, `CLOSE` or
  `DEALLOCATE`. -/
  | internalQuery (read_only : Bool) (w : Work)
  /-- Any query without a statement, such as the closing of a cursor with the commit. -/
  | query (flag : QueryFlags) (query : List Command)
  /-- A query for a statement: of a catalog function, a fetch, a positioned delete. -/
  | statementQuery (stmt : Stmt) (go_into_transaction read_only : Bool) (query : List Command)
  | execute (e : ExecuteCall)
  | discard (stmt : Stmt) (ret : StatementReturn) (errorOnly : Bool)
  | begin_
  | commit (ok notice : Bool)
  | abort
  /-- `CC_set_autocommit` -/
  | setAutocommit (on commit_ok commit_notice : Bool)

/-- The flag `CONN_IN_AUTOCOMMIT`. -/
def Conn.set_autocommit (on : Bool) (c : Conn) : Conn := { c with in_autocommit := on }

/-- One call. A query without a statement is never to be rolled back on error, the internal
queries apart. -/
def ConnCall.run (o : SavepointOptions) : ConnCall → Conn → Conn
  | .internalQuery read_only w, c =>
    (CC_send_query_append o ⟨true, false, true, false, read_only⟩ none [.work w] [] c).1
  | .query flag text, c =>
    (CC_send_query_append o
      { flag with rollback_on_error := false, go_into_transaction := false } none text [] c).1
  | .statementQuery stmt go_into_transaction read_only text, c =>
    (CC_send_query_append o ⟨false, go_into_transaction, false, false, read_only⟩ (some stmt)
      text [] c).1
  | .execute e, c => (SC_execute o e c).1
  | .discard stmt ret errorOnly, c => DiscardStatementSvp o stmt ret errorOnly c
  | .begin_, c => (CC_begin o c).1
  | .commit ok notice, c => (CC_commit o ok notice c).1
  | .abort, c => (CC_abort o c).1
  | .setAutocommit on ok notice, c =>
    if on = c.in_autocommit then c
    else ((if c.in_trans then (CC_commit o ok notice c).1 else c)).set_autocommit on

/-- A connection just made, autocommit on. -/
def Conn.fresh : Conn where
  server := ⟨none, 0, 0⟩
  in_trans := false
  in_error_trans := false
  in_manual_trans := false
  in_autocommit := true
  internal_svp := false
  internal_op := .none
  accessed_db := false
  started_rbpoint := false
  opt_in_progress := false
  opt_previous := false
  exchanges := []
  strays := []
  on_commits := 0
  on_aborts := 0

end OdbcDriver
