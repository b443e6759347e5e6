import OdbcDriver.Transaction.Discards

/-!
# Discard commands that fail

A discard command that the server carries out leaves the transaction as it was. Where it fails in a
transaction, it is taken back to a savepoint, or the transaction is rolled back, and the hook for that
calls `CC_discard_marked_objects` with the entry of the command still in place; where it fails outside
a transaction, an answer that is still to come counts as one, and the hook for its end does the same
unless it is running already. Only a transaction that stays in error, as it does without savepoints,
has no hook.

* `sendDiscard_calm`: a command without a hook;
* `sendDiscard_nested`: a command whose hook starts again.
-/

namespace OdbcDriver.Discards

open Lib (bind_eq_ok)

/-! ### What a connection shows -/

/-- The server's block and the driver's flags. No savepoint waits to be prepended. -/
structure Shows (c : Conn) (block : Option Block) (in_trans in_error : Bool) : Prop where
  block_eq : c.server.block = block
  in_trans_eq : c.in_trans = in_trans
  in_error_eq : c.in_error_trans = in_error
  no_prepend : c.internal_op ≠ .prepend_in_progress

/-- How the driver and the server stand when a discard command is sent. -/
inductive Mode
  /-- There is no transaction. -/
  | outside
  /-- A transaction is open, and not in error. -/
  | inside
  /-- The transaction is in error. -/
  | failed
  /-- There is no transaction, but the driver takes itself to be in one while it commits. -/
  | stale
deriving DecidableEq

def Mode.Of (m : Mode) (s : DiscardConn) : Prop :=
  match m with
  | .outside => Shows s.conn none false false
  | .inside => ∃ log : Log Savepoint ℕ, Shows s.conn (some ⟨log, false⟩) true false ∧
      log.latest (·.name == .per_query_svp) = none
  | .failed => ∃ log : Log Savepoint ℕ, Shows s.conn (some ⟨log, true⟩) true true
  | .stale => Shows s.conn none true false ∧ s.on_commit_in_progress = true

/-- The mode behind a command that is carried out or not, if no hook calls. -/
def Mode.next (o : SavepointOptions) (committing : Bool) : Mode → Bool → Option Mode
  | .outside, true => some .outside
  | .outside, false => if committing then some .stale else none
  | .inside, true => some .inside
  | .inside, false => if o.version_ge_8_0 && o.for_extension_connector then some .failed else none
  | .failed, _ => some .failed
  | .stale, ok =>
    if if o.version_ge_8_0 then o.for_extension_connector else ok then some .stale else none

/-! ### At the server -/

section Server

variable {s : Server} {log : Log Savepoint ℕ}

/-- A block that has failed. -/
def failBlock (block : Option Block) : Option Block := block.map fun b => ⟨b.log, true⟩

theorem exec_discard_ok (h : s.failed = false) :
    ∃ r, s.exec ⟨discardWork true, false⟩ = (r, ⟨false, .tag .other⟩) ∧ r.block = s.block := by
  cases hblock : s.block with
  | none => exact ⟨s, by simp [Server.exec, discardWork, hblock], hblock⟩
  | some b =>
    obtain ⟨log, failed⟩ := b
    obtain rfl : failed = false := by simpa [Server.failed, hblock] using h
    exact ⟨{ s with block := some ⟨log, false⟩ }, by simp [Server.exec, discardWork, hblock], rfl⟩

theorem exec_discard_failed {ok : Bool} (h : ok = false ∨ s.failed = true) :
    ∃ r, s.exec ⟨discardWork ok, false⟩ = (r, ⟨false, .error⟩) ∧ r.block = failBlock s.block := by
  cases hblock : s.block with
  | none =>
    have hok : ok = false := h.resolve_right (by simp [Server.failed, hblock])
    exact ⟨s, by simp [Server.exec, discardWork, hblock, hok], hblock⟩
  | some b =>
    refine ⟨s.fail.1, ?_, by simp [Server.fail, failBlock, hblock]⟩
    rcases h with rfl | h
    · by_cases hb : b.failed = true <;> simp [Server.exec, discardWork, hblock, hb, Server.fail]
    · have hb : b.failed = true := by simpa [Server.failed, hblock] using h
      simp [Server.exec, discardWork, hblock, hb, Server.fail]

/-- The log with the savepoint of a query. -/
def protect (log : Log Savepoint ℕ) : Log Savepoint ℕ := .savepoint ⟨.per_query_svp, true⟩ :: log

theorem latest_protect {failed : Bool} (h : s.block = some ⟨protect log, failed⟩) :
    (s.latest .per_query_svp).isSome = true := by
  simp [Server.latest, h, protect, Log.latest]

theorem exec_protect (h : s.block = some ⟨log, false⟩) :
    ∃ r, s.exec (ours (.savepoint .per_query_svp)) = (r, ⟨false, .tag .savepoint⟩) ∧
      r.block = some ⟨protect log, false⟩ :=
  ⟨{ s with block := some ⟨protect log, false⟩ }, by simp [Server.exec, ours, h, protect], rfl⟩

theorem exec_release (h : s.block = some ⟨protect log, false⟩) :
    ∃ r, s.exec (ours (.release .per_query_svp)) = (r, ⟨false, .tag .release⟩) ∧
      r.block = some ⟨log, false⟩ := by
  refine ⟨{ s with block := some ⟨log, false⟩ }, ?_, rfl⟩
  simp [Server.exec, ours, h, latest_protect h, protect, Log.release]

theorem exec_rollbackTo (h : s.block = some ⟨protect log, true⟩) :
    ∃ r, s.exec (ours (.rollbackTo .per_query_svp)) = (r, ⟨false, .tag .rollback⟩) ∧
      r.block = some ⟨protect log, false⟩ := by
  refine ⟨{ s with block := some ⟨protect log, false⟩ }, ?_, rfl⟩
  simp [Server.exec, ours, h, latest_protect h, protect, Log.rollbackTo]

/-- Without a savepoint there is nothing to go back to. -/
theorem exec_rollbackTo_missing (h : s.latest .per_query_svp = none) :
    ∃ r, s.exec (ours (.rollbackTo .per_query_svp)) = (r, ⟨false, .error⟩) ∧
      r.block = failBlock s.block := by
  refine ⟨s.fail.1, ?_, by simp [Server.fail, failBlock]⟩
  cases hblock : s.block with
  | none => simp [Server.exec, ours, hblock, Server.fail]
  | some b => simp [Server.exec, ours, hblock, h, Server.fail]

/-- Nor is there one to set. -/
theorem exec_protect_outside (h : s.block = none) :
    ∃ r, s.exec (ours (.savepoint .per_query_svp)) = (r, ⟨false, .error⟩) ∧ r.block = none :=
  ⟨s.fail.1, by simp [Server.exec, ours, h, Server.fail], by simp [Server.fail, h]⟩

end Server

/-! ### In the query loop -/

section Loop

variable {c : Conn} {block : Option Block} {log : Log Savepoint ℕ} {t e : Bool} {p : Protocol}

/-- A command that goes by itself and is carried out. -/
theorem loop_ok (h : Shows c block t e) (hfailed : c.server.failed = false) :
    ∃ l, queryLoop p false (theirs [discardWork true]) c = l ∧ l.discard_next_savepoint = false ∧
      Shows l.conn block t e := by
  obtain ⟨r, hexec, hblock⟩ := exec_discard_ok hfailed
  refine ⟨_, rfl, ?_⟩
  simp only [queryLoop, Conn.exchange, theirs, Server.query, hexec, Reply.failed, List.map_cons,
    List.map_nil, List.foldl_cons, List.foldl_nil, QueryLoop.receive, QueryLoop.tag,
    Bool.false_eq_true, reduceCtorEq, decide_false, if_false, true_and]
  exact ⟨hblock.trans h.block_eq, h.in_trans_eq, h.in_error_eq, h.no_prepend⟩

/-- One that fails. An answer that is still to come counts as a transaction. -/
theorem loop_failed (h : Shows c block t e) {ok : Bool} (hfail : ok = false ∨ c.server.failed = true) :
    ∃ l, queryLoop p false (theirs [discardWork ok]) c = l ∧ l.discard_next_savepoint = false ∧
      Shows l.conn (failBlock block) true (t || e) := by
  obtain ⟨r, hexec, hblock⟩ := exec_discard_failed hfail
  refine ⟨_, rfl, ?_⟩
  simp only [queryLoop, Conn.exchange, theirs, Server.query, hexec, Reply.failed, List.map_cons,
    List.map_nil, List.foldl_cons, List.foldl_nil, QueryLoop.receive, handle_pgres_error,
    LIBPQ_update_transaction_status, Bool.false_eq_true, decide_true, if_false, if_true, true_and,
    Bool.true_and]
  rw [h.block_eq] at hblock
  cases t with
  | false => exact ⟨by simp [h.in_trans_eq, hblock], rfl, by simp [h.in_trans_eq, h.in_error_eq],
      by simp [h.in_trans_eq, h.no_prepend]⟩
  | true => exact ⟨by simp [h.in_trans_eq, hblock], rfl, by simp [h.in_trans_eq],
      by simp [h.in_trans_eq, h.no_prepend]⟩

/-- The command between a savepoint and its release. -/
def protectedText (ok : Bool) : List Sent :=
  [ours (.savepoint .per_query_svp)] ++ theirs [discardWork ok] ++ [ours (.release .per_query_svp)]

theorem loop_protected_ok (h : Shows c (some ⟨log, false⟩) t e) :
    ∃ l, queryLoop p true (protectedText true) c = l ∧ l.discard_next_savepoint = false ∧
      Shows l.conn (some ⟨log, false⟩) t e := by
  obtain ⟨r, hexec, hblock⟩ := exec_protect h.block_eq
  obtain ⟨r', hexec', hblock'⟩ := exec_discard_ok (s := r) (by simp [Server.failed, hblock])
  obtain ⟨r'', hexec'', hblock''⟩ := exec_release (hblock'.trans hblock)
  refine ⟨_, rfl, ?_⟩
  simp only [queryLoop, Conn.exchange, protectedText, theirs, Server.query, hexec, hexec', hexec'',
    Reply.failed, List.map_cons, List.map_nil, List.cons_append, List.nil_append, List.foldl_cons,
    List.foldl_nil, QueryLoop.receive, QueryLoop.tag, Bool.false_eq_true, reduceCtorEq, decide_false,
    if_false, if_true, true_and]
  exact ⟨hblock'', h.in_trans_eq, h.in_error_eq, h.no_prepend⟩

theorem loop_protected_failed (h : Shows c (some ⟨log, false⟩) true e) :
    ∃ l, queryLoop p true (protectedText false) c = l ∧ l.discard_next_savepoint = false ∧
      Shows l.conn (some ⟨protect log, true⟩) true true := by
  obtain ⟨r, hexec, hblock⟩ := exec_protect h.block_eq
  obtain ⟨r', hexec', hblock'⟩ := @exec_discard_failed r false (Or.inl rfl)
  rw [hblock] at hblock'
  refine ⟨_, rfl, ?_⟩
  simp only [queryLoop, Conn.exchange, protectedText, theirs, Server.query, hexec, hexec',
    Reply.failed, List.map_cons, List.map_nil, List.cons_append, List.nil_append, List.foldl_cons,
    List.foldl_nil, QueryLoop.receive, QueryLoop.tag, handle_pgres_error,
    LIBPQ_update_transaction_status, Bool.false_eq_true, reduceCtorEq, decide_false, decide_true,
    if_false, if_true, true_and, Bool.true_and, h.in_trans_eq]
  exact ⟨hblock', rfl, rfl, h.no_prepend⟩

/-- Outside a transaction the savepoint is refused, and the command with it. -/
theorem loop_protected_outside (h : Shows c none true e) {ok : Bool} :
    ∃ l, queryLoop p true (protectedText ok) c = l ∧ l.discard_next_savepoint = true ∧
      Shows l.conn none true true := by
  obtain ⟨r, hexec, hblock⟩ := exec_protect_outside h.block_eq
  refine ⟨_, rfl, ?_⟩
  simp only [queryLoop, Conn.exchange, protectedText, theirs, Server.query, hexec, Reply.failed,
    List.map_cons, List.map_nil, List.cons_append, List.nil_append, List.foldl_cons, List.foldl_nil,
    QueryLoop.receive, handle_pgres_error, LIBPQ_update_transaction_status, Bool.false_eq_true,
    decide_true, if_false, if_true, true_and, Bool.true_and, h.in_trans_eq]
  exact ⟨hblock, rfl, rfl, h.no_prepend⟩

end Loop

/-! ### Behind the query -/

section Behind

variable {discard : DiscardConn → Except Fault DiscardConn} {s : DiscardConn} {block : Option Block}
  {log : Log Savepoint ℕ} {t e : Bool}

/-- A connection with other flags. -/
def DiscardConn.withConn (s : DiscardConn) (c : Conn) : DiscardConn := { s with conn := c }

theorem update_outside (h : Shows s.conn none false e) : update_transaction_status discard s = .ok s := by
  simp [update_transaction_status, Server.status, h.block_eq, h.in_trans_eq]

/-- The hook for the end of a transaction does nothing while it is running. -/
theorem update_committing (h : Shows s.conn none true false) (hc : s.on_commit_in_progress = true) :
    update_transaction_status discard s = .ok s := by
  simp [update_transaction_status, Server.status, h.block_eq, h.in_trans_eq, h.in_error_eq,
    on_commit, hc]

theorem update_inside (h : Shows s.conn (some ⟨log, false⟩) t false) :
    ∃ c, update_transaction_status discard s = .ok (s.withConn c) ∧
      Shows c (some ⟨log, false⟩) true false := by
  refine ⟨{ s.conn with in_trans := true }, ?_, h.block_eq, rfl, h.in_error_eq, h.no_prepend⟩
  simp [update_transaction_status, Server.status, h.block_eq, h.in_error_eq, DiscardConn.withConn]

theorem update_failed (h : Shows s.conn (some ⟨log, true⟩) t e) :
    ∃ c, update_transaction_status discard s = .ok (s.withConn c) ∧
      Shows c (some ⟨log, true⟩) true true := by
  refine ⟨{ s.conn with in_trans := true, in_error_trans := true }, ?_, h.block_eq, rfl, rfl,
    h.no_prepend⟩
  simp [update_transaction_status, Server.status, h.block_eq, DiscardConn.withConn]

/-- The status makes a hook start again. -/
def Hooked (s : DiscardConn) : Prop :=
  (∃ e, Shows s.conn none true e ∧ (e = true ∨ s.on_commit_in_progress = false)) ∨
    ∃ log, Shows s.conn (some ⟨log, false⟩) true true

/-- A hook sends a command for each entry that is left. -/
theorem length_le_of_hook (h : Sends discard) (hook : Hooked s) {u : DiscardConn}
    (hok : update_transaction_status discard s = .ok u) :
    s.sent.length + s.num_discardp.toNat ≤ u.sent.length := by
  rcases hook with ⟨e, hshows, hwhich⟩ | ⟨log, hshows⟩
  · by_cases he : e = true
    · simp only [update_transaction_status, Server.status, hshows.block_eq, hshows.in_trans_eq,
        hshows.in_error_eq, he, if_true, on_abort] at hok
      have hlength := h _ _ hok
      exact hlength
    · rw [Bool.not_eq_true] at he
      have hc : s.on_commit_in_progress = false := hwhich.resolve_left (by simp [he])
      simp only [update_transaction_status, Server.status, hshows.block_eq, hshows.in_trans_eq,
        hshows.in_error_eq, he, if_true, on_commit, hc, Bool.false_eq_true, if_false] at hok
      obtain ⟨v, hv, hu⟩ := bind_eq_ok.mp hok
      obtain rfl := Except.ok.inj hu
      have hlength := h _ _ hv
      exact hlength
  · simp only [update_transaction_status, Server.status, hshows.block_eq, hshows.in_error_eq,
      Bool.false_eq_true, if_false, if_true, on_abort_partial] at hok
    have hlength := h _ _ hok
    exact hlength

theorem internal_rollback_skip (h : Shows s.conn block t false) :
    internal_rollback discard s = .ok s := by
  simp [internal_rollback, h.in_error_eq]

/-- The savepoint is there. -/
theorem internal_rollback_inside (h : Shows s.conn (some ⟨protect log, true⟩) true true) :
    ∃ c, internal_rollback discard s = update_transaction_status discard (s.withConn c) ∧
      Shows c (some ⟨log, false⟩) true true := by
  obtain ⟨r, hexec, hblock⟩ := exec_rollbackTo h.block_eq
  obtain ⟨r', hexec', hblock'⟩ := exec_release hblock
  have hquery : s.conn.server.query
      [ours (.rollbackTo .per_query_svp), ours (.release .per_query_svp)] =
      (r', [⟨false, .tag .rollback⟩, ⟨false, .tag .release⟩]) := by
    simp [Server.query, hexec, hexec', Reply.failed]
  refine ⟨(s.conn.exchange .recovery
    [ours (.rollbackTo .per_query_svp), ours (.release .per_query_svp)]).1, ?_, ?_⟩
  · simp [internal_rollback, h.in_error_eq, Conn.exchange, hquery, receiveRollback, Reply.failed,
      DiscardConn.withConn]
  · refine ⟨?_, h.in_trans_eq, h.in_error_eq, h.no_prepend⟩
    rw [← hblock']
    exact congrArg (·.1.block) hquery

/-- Without one the transaction stays as it is, and the driver takes it not to be in error. -/
theorem internal_rollback_missing (h : Shows s.conn block true true)
    (hlatest : s.conn.server.latest .per_query_svp = none) :
    ∃ c, internal_rollback discard s = update_transaction_status discard (s.withConn c) ∧
      Shows c (failBlock block) true false := by
  obtain ⟨r, hexec, hblock⟩ := exec_rollbackTo_missing hlatest
  rw [h.block_eq] at hblock
  have hquery : s.conn.server.query
      [ours (.rollbackTo .per_query_svp), ours (.release .per_query_svp)] =
      (r, [⟨false, .error⟩]) := by
    simp [Server.query, hexec, Reply.failed]
  refine ⟨(handle_pgres_error true .active (s.conn.exchange .recovery
    [ours (.rollbackTo .per_query_svp), ours (.release .per_query_svp)]).1).set_no_error_trans,
    ?_, ?_⟩
  · simp [internal_rollback, h.in_error_eq, Conn.exchange, hquery, receiveRollback, Reply.failed,
      DiscardConn.withConn]
  · have hserver : (s.conn.exchange .recovery
        [ours (.rollbackTo .per_query_svp), ours (.release .per_query_svp)]).1.server = r :=
      congrArg Prod.fst hquery
    have hin : (s.conn.exchange .recovery
        [ours (.rollbackTo .per_query_svp), ours (.release .per_query_svp)]).1.in_trans = true :=
      h.in_trans_eq
    simp only [handle_pgres_error, LIBPQ_update_transaction_status, hin, Bool.and_self, if_true]
    exact ⟨by rw [← hblock, ← hserver]; rfl, rfl, rfl, h.no_prepend⟩

end Behind

/-! ### One command -/

section Command

variable {discard : DiscardConn → Except Fault DiscardConn} {s : DiscardConn} {o : SavepointOptions}
  {block : Option Block} {t e ok : Bool} {cmd : List Byte}

/-- The connection behind the query loop. -/
def DiscardConn.queried (s : DiscardConn) (cmd : List Byte) (c : Conn) : DiscardConn :=
  { s with conn := c, sent := cmd :: s.sent }

theorem considerRollback_discard {c : Conn} (h : Shows c block t e) :
    considerRollback discardFlags [discardWork ok] c = (t && !e) := by
  simp [considerRollback, issueBegin, discardFlags, discardWork, h.in_trans_eq, h.in_error_eq]

/-- A command without its savepoint. -/
theorem sendDiscard_plain (h : Shows s.conn block t e)
    (hplain : (t && !e && o.version_ge_8_0 && !o.for_extension_connector) = false) {l : QueryLoop}
    (hl : queryLoop (if t && !e && o.version_ge_8_0 then .unprotected else .simple) false
      (theirs [discardWork ok]) s.conn = l) :
    sendDiscard discard o ok cmd s =
      roll_back_on_error discard (t && !e) (t && !e && o.version_ge_8_0) l.discard_next_savepoint
        (s.queried cmd l.conn) >>= update_transaction_status discard := by
  subst hl
  simp only [sendDiscard, considerRollback_discard h, hplain, h.no_prepend, decide_false,
    Bool.and_false, Bool.false_eq_true, if_false, List.nil_append, List.append_nil, Bool.not_false,
    Bool.and_true]
  rfl

/-- A command with its savepoint. -/
theorem sendDiscard_protected (h : Shows s.conn block true false) (hversion : o.version_ge_8_0 = true)
    (hext : o.for_extension_connector = false) {l : QueryLoop}
    (hl : queryLoop .simple true (protectedText ok) s.conn = l) :
    sendDiscard discard o ok cmd s =
      roll_back_on_error discard true true l.discard_next_savepoint
        (s.queried cmd l.conn) >>= update_transaction_status discard := by
  subst hl
  simp only [sendDiscard, considerRollback_discard h, hversion, hext, Bool.not_false, Bool.and_self,
    Bool.not_true, Bool.false_and, Bool.and_false, Bool.false_eq_true, if_false, if_true]
  rfl

/-- Outside a transaction, or in one in error, nothing is taken back. -/
theorem roll_back_idle {b b' : Bool} :
    roll_back_on_error discard false b b' s = .ok s := by
  simp [roll_back_on_error]

/-- Nor is anything where the command was carried out. -/
theorem roll_back_ok {b b' b'' : Bool} (h : Shows s.conn block t false) :
    roll_back_on_error discard b b' b'' s = .ok s := by
  have hskip : internal_rollback discard s = .ok s := internal_rollback_skip h
  rw [roll_back_on_error, hskip, h.in_error_eq]
  simp

/-- The transaction is over when there are no savepoints. -/
theorem roll_back_whole (h : Shows s.conn block true true) :
    ∃ c, roll_back_on_error discard true false false s = .ok (s.withConn c) ∧
      Shows c none true true := by
  refine ⟨(s.conn.exchange .recovery [ours .rollback]).1, ?_, ?_⟩
  · simp [roll_back_on_error, h.in_trans_eq, h.in_error_eq, DiscardConn.withConn]
  · refine ⟨?_, h.in_trans_eq, h.in_error_eq, h.no_prepend⟩
    cases hblock : s.conn.server.block <;>
      simp [Conn.exchange, Server.query, Server.exec, ours, hblock, Reply.failed]

theorem roll_back_query (h : Shows s.conn block true e) :
    roll_back_on_error discard true true false s = internal_rollback discard s := by
  simp [roll_back_on_error, h.in_trans_eq]

/-! ### One command, by what the connection shows -/

theorem send_outside_ok (h : Shows s.conn none false false) :
    ∃ c, sendDiscard discard o true cmd s = .ok (s.queried cmd c) ∧ Shows c none false false := by
  obtain ⟨l, hl, -, hafter⟩ := loop_ok h (by simp [Server.failed, h.block_eq])
  rw [sendDiscard_plain h rfl hl, Bool.false_and, roll_back_idle]
  exact ⟨l.conn, update_outside hafter, hafter⟩

theorem send_outside_failed (h : Shows s.conn none false false) :
    ∃ c, sendDiscard discard o false cmd s = update_transaction_status discard (s.queried cmd c) ∧
      Shows c none true false := by
  obtain ⟨l, hl, -, hafter⟩ := loop_failed h (Or.inl rfl)
  rw [sendDiscard_plain h rfl hl, Bool.false_and, roll_back_idle]
  exact ⟨l.conn, rfl, hafter⟩

theorem send_inside_ok {log : Log Savepoint ℕ} (h : Shows s.conn (some ⟨log, false⟩) true false) :
    ∃ c, sendDiscard discard o true cmd s = .ok (s.queried cmd c) ∧
      Shows c (some ⟨log, false⟩) true false := by
  by_cases hprotected : o.version_ge_8_0 = true ∧ o.for_extension_connector = false
  · obtain ⟨l, hl, -, hafter⟩ := loop_protected_ok h
    have hshows : Shows (s.queried cmd l.conn).conn (some ⟨log, false⟩) true false := hafter
    rw [sendDiscard_protected h hprotected.1 hprotected.2 hl, roll_back_ok hshows]
    exact update_inside hshows
  · obtain ⟨l, hl, -, hafter⟩ := loop_ok h (by simp [Server.failed, h.block_eq])
    have hshows : Shows (s.queried cmd l.conn).conn (some ⟨log, false⟩) true false := hafter
    have hplain : (true && !false && o.version_ge_8_0 && !o.for_extension_connector) = false := by
      simpa using hprotected
    rw [sendDiscard_plain h hplain hl, roll_back_ok hshows]
    exact update_inside hshows

/-- Taken back to its savepoint, for the hook of the savepoint. -/
theorem send_inside_protected {log : Log Savepoint ℕ}
    (h : Shows s.conn (some ⟨log, false⟩) true false) (hversion : o.version_ge_8_0 = true)
    (hext : o.for_extension_connector = false) :
    ∃ c, sendDiscard discard o false cmd s =
        (update_transaction_status discard (s.queried cmd c) >>= update_transaction_status discard) ∧
      Shows c (some ⟨log, false⟩) true true := by
  obtain ⟨l, hl, hnext, hafter⟩ := loop_protected_failed h
  have hshows : Shows (s.queried cmd l.conn).conn (some ⟨protect log, true⟩) true true := hafter
  obtain ⟨c, hback, hc⟩ := @internal_rollback_inside discard _ _ hshows
  refine ⟨c, ?_, hc⟩
  rw [sendDiscard_protected h hversion hext hl, hnext, roll_back_query hshows, hback]
  rfl

/-- Without a savepoint the transaction stays in error. -/
theorem send_inside_unprotected {log : Log Savepoint ℕ}
    (h : Shows s.conn (some ⟨log, false⟩) true false)
    (hlatest : log.latest (·.name == .per_query_svp) = none) (hversion : o.version_ge_8_0 = true)
    (hext : o.for_extension_connector = true) :
    ∃ c, sendDiscard discard o false cmd s = .ok (s.queried cmd c) ∧
      Shows c (some ⟨log, true⟩) true true := by
  obtain ⟨l, hl, hnext, hafter⟩ := loop_failed h (Or.inl rfl)
  have hshows : Shows (s.queried cmd l.conn).conn (some ⟨log, true⟩) true true := hafter
  have hmissing : (s.queried cmd l.conn).conn.server.latest .per_query_svp = none := by
    rw [Server.latest, hshows.block_eq]
    exact hlatest
  obtain ⟨c, hback, hc⟩ := @internal_rollback_missing discard _ _ hshows hmissing
  have hc' : Shows ((s.queried cmd l.conn).withConn c).conn (some ⟨log, true⟩) true false := hc
  obtain ⟨d, hupdate, hd⟩ := @update_failed discard _ _ _ _ hc'
  have hd' : Shows (((s.queried cmd l.conn).withConn c).withConn d).conn (some ⟨log, true⟩) true true := hd
  obtain ⟨d', hupdate', hfinal⟩ := @update_failed discard _ _ _ _ hd'
  refine ⟨d', ?_, hfinal⟩
  have hplain : (true && !false && o.version_ge_8_0 && !o.for_extension_connector) = false := by
    simp [hext]
  rw [sendDiscard_plain h hplain hl, hnext, hversion]
  show roll_back_on_error discard true true false _ >>= _ = _
  rw [roll_back_query hshows, hback, hupdate]
  exact hupdate'

/-- Where there are no savepoints the whole transaction is taken back, for the hook of its end. -/
theorem send_whole (h : Shows s.conn block true false) (hversion : o.version_ge_8_0 = false) :
    ∃ c, sendDiscard discard o false cmd s = update_transaction_status discard (s.queried cmd c) ∧
      Shows c none true true := by
  obtain ⟨l, hl, hnext, hafter⟩ := loop_failed h (Or.inl rfl)
  have hshows : Shows (s.queried cmd l.conn).conn (failBlock block) true true := hafter
  obtain ⟨c, hback, hc⟩ := @roll_back_whole discard _ _ hshows
  refine ⟨c, ?_, hc⟩
  have hplain : (true && !false && o.version_ge_8_0 && !o.for_extension_connector) = false := by
    simp [hversion]
  rw [sendDiscard_plain h hplain hl, hnext, hversion]
  show roll_back_on_error discard true false false _ >>= _ = _
  rw [hback]
  rfl

theorem send_failed {log : Log Savepoint ℕ} (h : Shows s.conn (some ⟨log, true⟩) true true) :
    ∃ c, sendDiscard discard o ok cmd s = .ok (s.queried cmd c) ∧
      Shows c (some ⟨log, true⟩) true true := by
  obtain ⟨l, hl, -, hafter⟩ := loop_failed h (Or.inr (by simp [Server.failed, h.block_eq]))
  have hshows : Shows (s.queried cmd l.conn).conn (some ⟨log, true⟩) true true := hafter
  rw [sendDiscard_plain h rfl hl, Bool.not_true, Bool.and_false, roll_back_idle]
  exact update_failed hshows

/-- While the hook is running, a command that goes by itself leaves the driver in its belief. -/
theorem send_stale_ok (h : Shows s.conn none true false) (hc : s.on_commit_in_progress = true)
    (hplain : (o.version_ge_8_0 && !o.for_extension_connector) = false) :
    ∃ c, sendDiscard discard o true cmd s = .ok (s.queried cmd c) ∧ Shows c none true false := by
  obtain ⟨l, hl, -, hafter⟩ := loop_ok h (by simp [Server.failed, h.block_eq])
  have hshows : Shows (s.queried cmd l.conn).conn none true false := hafter
  rw [sendDiscard_plain h hplain hl, roll_back_ok hshows]
  exact ⟨l.conn, update_committing hshows hc, hafter⟩

theorem send_stale_failed (h : Shows s.conn none true false) (hc : s.on_commit_in_progress = true)
    (hversion : o.version_ge_8_0 = true) (hext : o.for_extension_connector = true) :
    ∃ c, sendDiscard discard o false cmd s = .ok (s.queried cmd c) ∧ Shows c none true false := by
  obtain ⟨l, hl, hnext, hafter⟩ := loop_failed h (Or.inl rfl)
  have hshows : Shows (s.queried cmd l.conn).conn none true true := hafter
  have hmissing : (s.queried cmd l.conn).conn.server.latest .per_query_svp = none := by
    rw [Server.latest, hshows.block_eq]
    rfl
  obtain ⟨c, hback, hc'⟩ := @internal_rollback_missing discard _ _ hshows hmissing
  have hshows' : Shows ((s.queried cmd l.conn).withConn c).conn none true false := hc'
  have hupdate := @update_committing discard _ hshows' hc
  refine ⟨c, ?_, hc'⟩
  have hplain : (true && !false && o.version_ge_8_0 && !o.for_extension_connector) = false := by
    simp [hext]
  rw [sendDiscard_plain h hplain hl, hnext, hversion]
  show roll_back_on_error discard true true false _ >>= _ = _
  rw [roll_back_query hshows, hback, hupdate]
  exact hupdate

/-- With its savepoint no command is carried out then. -/
theorem send_stale_protected (h : Shows s.conn none true false) (hversion : o.version_ge_8_0 = true)
    (hext : o.for_extension_connector = false) :
    ∃ c, sendDiscard discard o ok cmd s = update_transaction_status discard (s.queried cmd c) ∧
      Shows c none true true := by
  obtain ⟨l, hl, hnext, hafter⟩ := loop_protected_outside h
  refine ⟨l.conn, ?_, hafter⟩
  rw [sendDiscard_protected h hversion hext hl, hnext]
  simp [roll_back_on_error]

/-! ### One command, with a hook or without -/

/-- Without a hook a command leaves everything but its own traces. -/
theorem sendDiscard_calm {m m' : Mode} (h : m.Of s)
    (hnext : m.next o s.on_commit_in_progress ok = some m') :
    ∃ c, sendDiscard discard o ok cmd s = .ok (s.queried cmd c) ∧ m'.Of (s.queried cmd c) := by
  cases m with
  | outside =>
    cases ok with
    | true =>
      obtain rfl : Mode.outside = m' := Option.some.inj hnext
      exact send_outside_ok h
    | false =>
      rw [Mode.next] at hnext
      split at hnext
      · rename_i hc
        obtain rfl := Option.some.inj hnext
        obtain ⟨c, hsend, hshows⟩ := send_outside_failed h
        exact ⟨c, hsend.trans (update_committing hshows hc), hshows, hc⟩
      · exact absurd hnext (by simp)
  | inside =>
    obtain ⟨log, hshows, hlatest⟩ := h
    cases ok with
    | true =>
      obtain rfl : Mode.inside = m' := Option.some.inj hnext
      obtain ⟨c, hsend, hafter⟩ := send_inside_ok hshows
      exact ⟨c, hsend, log, hafter, hlatest⟩
    | false =>
      rw [Mode.next] at hnext
      split at hnext
      · rename_i hoptions
        rw [Bool.and_eq_true] at hoptions
        obtain rfl := Option.some.inj hnext
        obtain ⟨c, hsend, hafter⟩ :=
          send_inside_unprotected hshows hlatest hoptions.1 hoptions.2
        exact ⟨c, hsend, log, hafter⟩
      · exact absurd hnext (by simp)
  | failed =>
    obtain rfl : Mode.failed = m' := Option.some.inj (by cases ok <;> exact hnext)
    obtain ⟨log, hshows⟩ := h
    obtain ⟨c, hsend, hafter⟩ := send_failed hshows
    exact ⟨c, hsend, log, hafter⟩
  | stale =>
    obtain ⟨hshows, hc⟩ := h
    rw [Mode.next] at hnext
    split at hnext
    · rename_i hversion
      split at hnext
      · rename_i hext
        obtain rfl := Option.some.inj hnext
        cases ok with
        | true =>
          have hplain : (o.version_ge_8_0 && !o.for_extension_connector) = false := by simp [hext]
          obtain ⟨c, hsend, hafter⟩ := send_stale_ok hshows hc hplain
          exact ⟨c, hsend, hafter, hc⟩
        | false =>
          obtain ⟨c, hsend, hafter⟩ := send_stale_failed hshows hc hversion hext
          exact ⟨c, hsend, hafter, hc⟩
      · exact absurd hnext (by simp)
    · rename_i hversion
      split at hnext
      · rename_i hcarried
        obtain rfl := Option.some.inj hnext
        subst hcarried
        have hplain : (o.version_ge_8_0 && !o.for_extension_connector) = false := by simp [hversion]
        obtain ⟨c, hsend, hafter⟩ := send_stale_ok hshows hc hplain
        exact ⟨c, hsend, hafter, hc⟩
      · exact absurd hnext (by simp)

/-- With one, the hook sends a command for each entry that is left, the command's own among them. -/
theorem sendDiscard_nested (hsends : Sends discard) {m : Mode} (h : m.Of s)
    (hnext : m.next o s.on_commit_in_progress ok = none) {u : DiscardConn}
    (hok : sendDiscard discard o ok cmd s = .ok u) :
    s.sent.length + 1 + s.num_discardp.toNat ≤ u.sent.length := by
  have hhook : ∀ c, Hooked (s.queried cmd c) → ∀ v,
      update_transaction_status discard (s.queried cmd c) = .ok v →
      s.sent.length + 1 + s.num_discardp.toNat ≤ v.sent.length := fun c hook v hv =>
    length_le_of_hook hsends hook hv
  cases m with
  | outside =>
    cases ok with
    | true => exact absurd hnext (by simp [Mode.next])
    | false =>
      rw [Mode.next] at hnext
      split at hnext
      · exact absurd hnext (by simp)
      · rename_i hc
        rw [Bool.not_eq_true] at hc
        obtain ⟨c, hsend, hshows⟩ := @send_outside_failed discard s o cmd h
        exact hhook c (Or.inl ⟨false, hshows, Or.inr hc⟩) u (hsend ▸ hok)
  | inside =>
    obtain ⟨log, hshows, -⟩ := h
    cases ok with
    | true => exact absurd hnext (by simp [Mode.next])
    | false =>
      rw [Mode.next] at hnext
      split at hnext
      · exact absurd hnext (by simp)
      · rename_i hoptions
        by_cases hversion : o.version_ge_8_0 = true
        · have hext : o.for_extension_connector = false := by simpa [hversion] using hoptions
          obtain ⟨c, hsend, hafter⟩ := @send_inside_protected discard s o cmd log hshows hversion hext
          rw [hsend] at hok
          obtain ⟨v, hv, hu⟩ := bind_eq_ok.mp hok
          exact (hhook c (Or.inr ⟨log, hafter⟩) v hv).trans (length_le_of_update hsends hu)
        · rw [Bool.not_eq_true] at hversion
          obtain ⟨c, hsend, hafter⟩ := @send_whole discard s o _ cmd hshows hversion
          exact hhook c (Or.inl ⟨true, hafter, Or.inl rfl⟩) u (hsend ▸ hok)
  | failed => exact absurd hnext (by cases ok <;> simp [Mode.next])
  | stale =>
    obtain ⟨hshows, hc⟩ := h
    rw [Mode.next] at hnext
    split at hnext
    · rename_i hversion
      split at hnext
      · exact absurd hnext (by simp)
      · rename_i hext
        rw [Bool.not_eq_true] at hext
        obtain ⟨c, hsend, hafter⟩ := @send_stale_protected discard s o ok cmd hshows hversion hext
        exact hhook c (Or.inl ⟨true, hafter, Or.inl rfl⟩) u (hsend ▸ hok)
    · rename_i hversion
      rw [Bool.not_eq_true] at hversion
      split at hnext
      · exact absurd hnext (by simp)
      · rename_i hfailed
        rw [Bool.not_eq_true] at hfailed
        subst hfailed
        obtain ⟨c, hsend, hafter⟩ := @send_whole discard s o _ cmd hshows hversion
        exact hhook c (Or.inl ⟨true, hafter, Or.inl rfl⟩) u (hsend ▸ hok)

end Command

end OdbcDriver.Discards
