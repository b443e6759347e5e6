import OdbcDriver.Transaction.Server

/-!
# The connection's view of the transaction

The flags in which a connection remembers the transaction and its internal savepoints, what the
commit and abort hooks do to them, and how they follow the answers to a query: the tags in the
query loop of `CC_send_query_append`, errors and notices in `handle_pgres_error`, and at the end
the status libpq reports.

The connection carries its server along, with an account of what the claims are about: every
exchange with the server, the commands that referred to no savepoint, and how often each hook
has run.

The hooks' own work on cursors and on objects marked for discard is left out: its queries are
internal queries of the connection like others.
-/

namespace OdbcDriver

/-- The connection settings that savepoints depend on. -/
structure SavepointOptions where
  for_extension_connector : Bool
  ignore_roundtrip_time : Bool
  /-- `PG_VERSION_GE(conn, 8.0)` -/
  version_ge_8_0 : Bool
deriving DecidableEq, Repr

/-- `internal_op`: the operation in progress on the internal savepoint. -/
inductive InternalOp
  | none
  | savepoint_in_progress
  | prepend_in_progress
deriving DecidableEq, Repr

/-- How a query travels: as a simple query, as one that is to be rolled back on error but goes
without its savepoint, as a rollback of the driver through `PQexec` or `PQsendQuery`, or in the
extended protocol. -/
inductive Protocol
  | simple
  | unprotected
  | recovery
  | extended
deriving DecidableEq, Repr

/-- A query, and the server that answered it. -/
structure Exchange where
  protocol : Protocol
  /-- `internal_svp` when the query was sent. -/
  internal_svp : Bool
  server : Server
  query : List Sent

/-- The server after the query. -/
def Exchange.after (x : Exchange) : Server := (x.server.query x.query).1

/-- The answers to the query. -/
def Exchange.replies (x : Exchange) : List Reply := (x.server.query x.query).2

/-- What `ConnectionClass` keeps about transactions. -/
structure Conn where
  server : Server
  /-- `CONN_IN_TRANSACTION` -/
  in_trans : Bool
  /-- `CONN_IN_ERROR_BEFORE_IDLE` -/
  in_error_trans : Bool
  /-- `CONN_IN_MANUAL_TRANSACTION` -/
  in_manual_trans : Bool
  /-- `CONN_IN_AUTOCOMMIT` -/
  in_autocommit : Bool
  internal_svp : Bool
  internal_op : InternalOp
  /-- The two bits of `rbonerr`. -/
  accessed_db : Bool
  started_rbpoint : Bool
  /-- `SVPOPT_RDONLY` in `opt_in_progress`, its only bit that is ever set. -/
  opt_in_progress : Bool
  /-- `SVPOPT_RDONLY` in `opt_previous`. -/
  opt_previous : Bool
  /-- The exchanges so far, latest first. -/
  exchanges : List Exchange
  /-- The commands so far that referred to no savepoint of the driver. -/
  strays : List Sent
  /-- How often `CC_on_commit` has run. -/
  on_commits : Nat
  /-- How often `CC_on_abort` has run. -/
  on_aborts : Nat

namespace Conn

/-- `CC_svp_init` -/
def svp_init (c : Conn) : Conn :=
  { c with internal_svp := false, internal_op := .none, opt_in_progress := true,
           opt_previous := true }

/-- `CC_start_stmt` -/
def start_stmt (c : Conn) : Conn := { c with accessed_db := false, started_rbpoint := false }

/-- `CC_set_no_trans` and `CC_set_no_manual_trans` -/
def set_no_trans (c : Conn) : Conn :=
  { c with in_trans := false, in_error_trans := false, in_manual_trans := false }

/-- An operation on the internal savepoint is in progress. -/
def set_internal_op (op : InternalOp) (c : Conn) : Conn := { c with internal_op := op }

/-- `CC_set_accessed_db` -/
def set_accessed_db (c : Conn) : Conn := { c with accessed_db := true }

/-- `CC_set_no_error_trans` -/
def set_no_error_trans (c : Conn) : Conn := { c with in_error_trans := false }

/-- `CC_set_in_manual_trans` -/
def set_in_manual_trans (c : Conn) : Conn := { c with in_manual_trans := true }

/-- `CC_does_autocommit` -/
def does_autocommit (c : Conn) : Bool := c.in_autocommit && !c.in_manual_trans

/-- `CC_loves_visible_trans` -/
def loves_visible_trans (c : Conn) : Bool := !c.in_autocommit || c.in_manual_trans

/-- A query goes to the server and is answered. -/
def exchange (c : Conn) (protocol : Protocol) (query : List Sent) : Conn × List Reply :=
  ({ c with server := (c.server.query query).1,
            exchanges := ⟨protocol, c.internal_svp, c.server, query⟩ :: c.exchanges,
            strays := c.server.strays query ++ c.strays },
    (c.server.query query).2)

end Conn

/-! ### Hooks and status -/

/-- `CC_on_commit` -/
def CC_on_commit (c : Conn) : Conn :=
  let c := if c.in_trans then c.set_no_trans else c
  { c.svp_init.start_stmt with on_commits := c.on_commits + 1 }

/-- `CC_on_abort` with `NO_TRANS` -/
def CC_on_abort (c : Conn) : Conn :=
  let c := if c.in_trans then c.set_no_trans else c
  { c.svp_init.start_stmt with on_aborts := c.on_aborts + 1 }

/-- The flags follow the status libpq reports. The hook of a partial abort does not change
them. -/
def LIBPQ_update_transaction_status (status : TransactionStatus) (c : Conn) : Conn :=
  match status with
  | .idle =>
    if c.in_trans then
      if c.in_error_trans then CC_on_abort c else CC_on_commit c
    else c
  | .inTrans => { c with in_trans := true, in_error_trans := false }
  | .inError => { c with in_trans := true, in_error_trans := true }
  | .active => { c with in_trans := true }

/-- An error, or a notice, that leaves the connection usable. libpq reports `active` while
results are still to come. -/
def handle_pgres_error (error_not_a_notice : Bool) (status : TransactionStatus) (c : Conn) :
    Conn :=
  LIBPQ_update_transaction_status status
    (if error_not_a_notice && c.in_trans then { c with in_error_trans := true } else c)

/-! ### Sending a query -/

/-- `GenerateSvpCommand` for `INTERNAL_SAVEPOINT_OPERATION` -/
def savepointCommand (c : Conn) : List Sent :=
  if c.internal_svp then [ours (.release .exec_svp), ours (.savepoint .exec_svp)]
  else [ours (.savepoint .exec_svp)]

/-- `GenerateSvpCommand` for `INTERNAL_ROLLBACK_OPERATION` -/
def rollbackCommand (c : Conn) : Sent :=
  if c.internal_svp then ours (.rollbackTo .exec_svp) else ours .rollback

/-- The locals of the query loop that outlive a result. -/
structure QueryLoop where
  conn : Conn
  discard_next_savepoint : Bool
  discard_next_release : Bool
  aborted : Bool

/-- A command tag in the query loop. -/
def QueryLoop.tag (l : QueryLoop) : Tag → QueryLoop
  | .start_transaction => { l with conn := { l.conn with in_trans := true, in_manual_trans := true } }
  | .savepoint =>
    if l.discard_next_savepoint then
      { l with discard_next_savepoint := false, discard_next_release := true }
    else if l.conn.internal_op = .savepoint_in_progress then
      { l with conn := { l.conn with started_rbpoint := true, internal_svp := true,
                                     internal_op := .none } }
    else { l with conn := { l.conn with internal_svp := false } }
  | .rollback =>
    { l with conn := { l.conn with in_error_trans := true, internal_svp := false,
                                   opt_previous := false, opt_in_progress := true } }
  | .release =>
    if l.discard_next_release then { l with discard_next_release := false }
    else { l with conn := { l.conn with internal_svp := false } }
  -- `bgncmd` is "START TRANSACTION", so the tag of `BEGIN` is one of the others
  | .begin_ | .commit | .other => l

/-- One answer in the query loop. -/
def QueryLoop.receive (l : QueryLoop) (r : Reply) : QueryLoop :=
  let l := if r.notice then { l with conn := handle_pgres_error false .active l.conn } else l
  match r.outcome with
  | .tag t => l.tag t
  | .tuples => l
  | .error => { l with conn := handle_pgres_error true .active l.conn, aborted := true }

/-- A text is sent and its results are received. -/
def queryLoop (protocol : Protocol) (discard_next_savepoint : Bool) (text : List Sent)
    (c : Conn) : QueryLoop :=
  let (c, rs) := c.exchange protocol text
  rs.foldl QueryLoop.receive ⟨c, discard_next_savepoint, false, false⟩

/-- `CC_internal_rollback` with `PER_STATEMENT_ROLLBACK`. No notice is received, and libpq has
the final status when an error is handled. -/
def CC_internal_rollback_statement (c : Conn) : Conn × Bool :=
  if !c.in_error_trans then (c, true)
  else
    let (c', rs) := c.exchange .recovery [rollbackCommand c]
    if rs.any Reply.failed then (handle_pgres_error true c'.server.status c', false)
    else (LIBPQ_update_transaction_status c'.server.status c', true)

/-- One answer in the loop of `CC_internal_rollback`: after a first success an error counts as
a notice. -/
def receiveRollback (s : Conn × Bool) (r : Reply) : Conn × Bool :=
  if r.failed then (handle_pgres_error (!s.2) .active s.1, s.2) else (s.1, true)

/-- `CC_internal_rollback` with `PER_QUERY_ROLLBACK` -/
def CC_internal_rollback_query (ignore_abort : Bool) (c : Conn) : Conn × Bool :=
  if !c.in_error_trans then (c, true)
  else
    let (c', rs) := c.exchange .recovery
      [ours (.rollbackTo .per_query_svp), ours (.release .per_query_svp)]
    let (c'', ret) := rs.foldl receiveRollback (c', false)
    let c'' := if !ret && ignore_abort then c''.set_no_error_trans else c''
    (LIBPQ_update_transaction_status c''.server.status c'', ret)

/-- The flags of `CC_send_query`. -/
structure QueryFlags where
  ignore_abort_on_conn : Bool
  go_into_transaction : Bool
  rollback_on_error : Bool
  end_with_commit : Bool
  read_only_query : Bool
deriving DecidableEq, Repr

/-- No flag. -/
def QueryFlags.none : QueryFlags := ⟨false, false, false, false, false⟩

/-- `issue_begin` of `CC_send_query_append` -/
def issueBegin (flag : QueryFlags) (c : Conn) : Bool := flag.go_into_transaction && !c.in_trans

/-- `consider_rollback` of `CC_send_query_append` -/
def considerRollback (flag : QueryFlags) (query : List Command) (c : Conn) : Bool :=
  issueBegin flag c || (c.in_trans && !c.in_error_trans) || query.head? == some .begin_

/-- The clean-up of `CC_send_query_append`: a query to be rolled back on error is. -/
def rollbackOnError (flag : QueryFlags) (rollback_on_error query_rollback : Bool)
    (l : QueryLoop) : Conn × Bool :=
  if rollback_on_error && l.conn.in_trans && !l.discard_next_savepoint then
    if query_rollback then CC_internal_rollback_query flag.ignore_abort_on_conn l.conn
    else if l.conn.in_error_trans then ((l.conn.exchange .recovery [ours .rollback]).1, true)
    else (l.conn, true)
  else (l.conn, true)

/-- `CC_send_query_append` from the point where the savepoint of a statement has been seen to.
The result tells whether the command may have been successful. -/
def sendQuery (o : SavepointOptions) (flag : QueryFlags) (query appendq : List Command)
    (c : Conn) : Conn × Bool :=
  let issue_begin := issueBegin flag c
  let rollback_on_error := flag.rollback_on_error && considerRollback flag query c
  let query_rollback := rollback_on_error && !flag.end_with_commit && o.version_ge_8_0
  let per_query := query_rollback && !o.for_extension_connector
  let prepend := decide (c.internal_op = .prepend_in_progress)
  let opening :=
    if issue_begin then [ours .start]
    else if per_query then [ours (.savepoint .per_query_svp)]
    else if prepend then savepointCommand c
    else []
  let c := if !issue_begin && !per_query && prepend then
      c.set_internal_op .savepoint_in_progress else c
  let text := opening ++ theirs (query ++ appendq) ++
    if per_query then [ours (.release .per_query_svp)] else []
  let protocol := if query_rollback && !per_query then .unprotected else .simple
  let l := queryLoop protocol (!issue_begin && per_query) text c
  let (c, ok) := rollbackOnError flag rollback_on_error query_rollback l
  (LIBPQ_update_transaction_status c.server.status c,
    !l.aborted || (flag.ignore_abort_on_conn && ok))

/-! ### Ending a transaction -/

/-- `CC_begin` -/
def CC_begin (o : SavepointOptions) (c : Conn) : Conn × Bool :=
  if c.in_trans then (c, true) else sendQuery o .none [.start] [] c

/-- `CC_commit`; the server may refuse, and send a notice. -/
def CC_commit (o : SavepointOptions) (ok notice : Bool) (c : Conn) : Conn × Bool :=
  if c.in_trans then sendQuery o .none [.commit ok notice] [] c else (c, true)

/-- `CC_abort` -/
def CC_abort (o : SavepointOptions) (c : Conn) : Conn × Bool :=
  if c.in_trans then sendQuery o .none [.rollback] [] c else (c, true)

end OdbcDriver
