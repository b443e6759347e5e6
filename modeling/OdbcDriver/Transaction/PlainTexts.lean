import OdbcDriver.Transaction.Hooks
import OdbcDriver.Transaction.LiveSavepoints

/-!
# Texts without transaction control

Inside a transaction block a text of plain commands adds effects to the log, and fails the block
when one of them is refused; the connection notices that and nothing else. With the commands the
driver puts before it (`START TRANSACTION`, or those of a savepoint) this says what sending the
text of a statement does, in `Inside` and `Outside`.
-/

namespace OdbcDriver

variable {o : SavepointOptions} {c d : Conn} {s : Server} {ws : List Work}
  {es : List Nat} {base : Log Savepoint Nat} {failed : Bool}

/-- A text of commands without transaction control. -/
def works (ws : List Work) : List Command := ws.map .work

/-- The server refuses one of the commands. -/
def refused (ws : List Work) : Bool := ws.any (!·.ok)

/-! ### The server and the loop -/

/-- A plain command inside a block that has not failed. -/
theorem exec_work {b : Block} (w : Work) (hblock : s.block = some b) (hb : b.failed = false) :
    s.exec ⟨.work w, false⟩ =
      if w.ok then
        ({ s with block := some { b with log := w.effect.toList.map .effect ++ b.log } },
          ⟨w.notice, if w.tuples then .tuples else .tag .other⟩)
      else ({ s with block := some { b with failed := true } }, ⟨w.notice, .error⟩) := by
  cases hok : w.ok <;> simp [Server.exec, Server.fail, hblock, hb, hok]

theorem Conn.set_in_trans_self (h : c.in_trans = true) : { c with in_trans := true } = c := by
  cases c
  cases h
  rfl

theorem Conn.set_in_error_trans_self (h : c.in_error_trans = failed) :
    { c with in_error_trans := failed } = c := by
  cases c
  cases h
  rfl

/-- In a transaction an answer that is no error and no transaction command's changes nothing. -/
theorem receive_plain {l : QueryLoop} (htrans : l.conn.in_trans = true) (n : Bool) {out : Outcome}
    (hout : out = .tuples ∨ out = .tag .other) : l.receive ⟨n, out⟩ = l := by
  rw [receive_notice, htrans, Bool.or_true, Conn.set_in_trans_self htrans]
  rcases hout with rfl | rfl <;> rfl

theorem receive_refusal {l : QueryLoop} (htrans : l.conn.in_trans = true) (n : Bool) :
    l.receive ⟨n, .error⟩ =
      { l with conn := { l.conn with in_error_trans := true }, aborted := true } := by
  rw [receive_notice, htrans, Bool.or_true, Conn.set_in_trans_self htrans]
  simp only [QueryLoop.receive, handle_pgres_error, LIBPQ_update_transaction_status, htrans,
    Bool.false_eq_true, if_false, Bool.and_self, if_true]

/-- **Plain texts.** Inside a block that has not failed the commands add their effects up to the
first that is refused. The loop learns of the refusal. -/
theorem query_works (ws : List Work) {l : QueryLoop} {b : Block} (hblock : s.block = some b)
    (hb : b.failed = false) (htrans : l.conn.in_trans = true)
    (herror : l.conn.in_error_trans = false) (haborted : l.aborted = false) :
    ∃ es : List Nat, (s.query (theirs (works ws))).1 =
        { s with block := some ⟨es.map .effect ++ b.log, refused ws⟩ } ∧
      (s.query (theirs (works ws))).2.foldl QueryLoop.receive l =
        { l with conn := { l.conn with in_error_trans := refused ws }, aborted := refused ws } := by
  induction ws generalizing s b with
  | nil =>
    refine ⟨[], ?_, ?_⟩
    · obtain ⟨log, f⟩ := b
      cases hb
      obtain ⟨block, committed, aborted⟩ := s
      cases hblock
      rfl
    · have hl : l = { l with conn := { l.conn with in_error_trans := false }, aborted := false } := by
        rw [Conn.set_in_error_trans_self herror, ← haborted]
      exact hl
  | cons w ws ih =>
    have hexec := exec_work w hblock hb
    have htext : theirs (works (w :: ws)) = ⟨.work w, false⟩ :: theirs (works ws) := rfl
    rw [htext]
    cases hok : w.ok with
    | true =>
      rw [hok, if_pos rfl] at hexec
      have hsound : (s.exec ⟨.work w, false⟩).2.failed = false := by
        rw [hexec]
        cases w.tuples <;> rfl
      obtain ⟨es, hserver, hloop⟩ := ih (s := (s.exec ⟨.work w, false⟩).1)
        (b := { b with log := w.effect.toList.map .effect ++ b.log }) (by rw [hexec]) hb
      have hrefused : refused (w :: ws) = refused ws := by
        rw [refused, List.any_cons, hok]
        rfl
      rw [Server.query_cons_of_ok hsound, hrefused]
      refine ⟨es ++ w.effect.toList, ?_, ?_⟩
      · rw [hserver, hexec, List.map_append, List.append_assoc]
      · rw [List.foldl_cons, hexec, receive_plain htrans _ (Server.tuplesOr _), ← hexec, hloop]
    | false =>
      rw [hok, if_neg Bool.false_ne_true] at hexec
      have hrefused : refused (w :: ws) = true := by
        rw [refused, List.any_cons, hok]
        rfl
      rw [Server.query_cons_of_failed (by rw [hexec]; rfl), hexec, hrefused]
      exact ⟨[], rfl, receive_refusal htrans _⟩

/-- The driver's savepoint commands inside a block that has not failed: the savepoint is the
latest entry, no effect is lost, and the driver remembers it. -/
theorem query_savepointCommand {b : Block} (hblock : c.server.block = some b)
    (hb : b.failed = false) (hlive : c.internal_svp = true → c.server.ExecLive)
    (hop : d.internal_op = .savepoint_in_progress) :
    ∃ older : Log Savepoint Nat, older.effects = b.log.effects ∧
      (c.server.query (savepointCommand c)).1 =
        { c.server with block := some ⟨.savepoint ⟨.exec_svp, true⟩ :: older, false⟩ } ∧
      (c.server.query (savepointCommand c)).2.all (!·.failed) = true ∧
      (c.server.query (savepointCommand c)).2.foldl QueryLoop.receive ⟨d, false, false, false⟩ =
        ⟨{ d with started_rbpoint := true, internal_svp := true, internal_op := .none }, false,
          false, false⟩ := by
  have hreceive : ∀ e : Conn, e.internal_op = .savepoint_in_progress →
      QueryLoop.receive ⟨e, false, false, false⟩ ⟨false, .tag .savepoint⟩ =
        ⟨{ e with started_rbpoint := true, internal_svp := true, internal_op := .none }, false,
          false, false⟩ := by
    intro e he
    simp [QueryLoop.receive, QueryLoop.tag, he]
  rw [savepointCommand]
  cases hsvp : c.internal_svp with
  | false =>
    have hexec := Server.exec_savepoint .exec_svp hblock hb
    rw [if_neg Bool.false_ne_true, Server.query_single, hexec]
    exact ⟨b.log, rfl, by rw [hb], rfl, hreceive d hop⟩
  | true =>
    have hl' := hlive hsvp
    rw [Server.ExecLive] at hl'
    have hrel := Server.exec_release .exec_svp hblock hb (by rw [hl']; rfl)
    have hexec := Server.exec_savepoint (s := { c.server with
      block := some { b with log := b.log.release (·.name == .exec_svp) } }) .exec_svp rfl hb
    have hquery : c.server.query [ours (.release .exec_svp), ours (.savepoint .exec_svp)] = _ :=
      Server.query_cons_of_ok (by rw [hrel]; rfl)
    rw [if_pos rfl, hquery, hrel, Server.query_single, hexec]
    refine ⟨b.log.release (·.name == .exec_svp), ?_, by rw [hb], rfl, ?_⟩
    · rw [Server.latest, hblock] at hl'
      exact Log.effects_release hl'
    · exact hreceive { d with internal_svp := false } hop

/-! ### A statement in progress -/

/-- No transaction block is open. -/
structure Outside (c : Conn) : Prop where
  manual : c.in_autocommit = false
  block : c.server.block = none
  trans : c.in_trans = false
  error : c.in_error_trans = false
  op : c.internal_op = .none
  internal_svp : c.internal_svp = false
  started : c.started_rbpoint = false

/-- The open block has the log `base` and above it the effects `es`; a savepoint set for the
statement is the latest entry of `base`. -/
structure Inside (es : List Nat) (base : Log Savepoint Nat) (failed : Bool) (c : Conn) :
    Prop where
  manual : c.in_autocommit = false
  block : c.server.block = some ⟨es.map .effect ++ base, failed⟩
  trans : c.in_trans = true
  error : c.in_error_trans = failed
  op : c.internal_op = .none
  live : c.internal_svp = true → base.latest (·.name == .exec_svp) = some ⟨.exec_svp, true⟩
  armed : c.started_rbpoint = true →
    c.internal_svp = true ∧ ∃ older, base = .savepoint ⟨.exec_svp, true⟩ :: older

/-- The flags of the statement are as they were. -/
structure SameStatement (d c : Conn) : Prop where
  accessed : d.accessed_db = c.accessed_db
  started : d.started_rbpoint = c.started_rbpoint
  previous : d.opt_previous = c.opt_previous

theorem Inside.execLive (h : Inside es base failed c) (hsvp : c.internal_svp = true) :
    c.server.ExecLive := by
  rw [Server.ExecLive, Server.latest, h.block, Option.bind_some, Log.latest_effects]
  exact h.live hsvp

/-- Inside a block, flags that are right are what the status of the server makes them. -/
theorem update_inside {b : Block} (hblock : c.server.block = some b) (htrans : c.in_trans = true)
    (herror : c.in_error_trans = b.failed) :
    LIBPQ_update_transaction_status c.server.status c = c := by
  obtain ⟨log, f⟩ := b
  cases c
  cases htrans
  cases herror
  dsimp only at hblock
  rw [Server.status, hblock]
  cases f <;> rfl

/-- `sendQuery` for a query with no flag but the one that begins a transaction. -/
theorem sendQuery_plain {flag : QueryFlags} (hrollback : flag.rollback_on_error = false)
    (hignore : flag.ignore_abort_on_conn = false) (query appendq : List Command) :
    sendQuery o flag query appendq c =
      let opening :=
        if issueBegin flag c then [ours .start]
        else if c.internal_op = .prepend_in_progress then savepointCommand c else []
      let c' := if issueBegin flag c = false ∧ c.internal_op = .prepend_in_progress then
        c.set_internal_op .savepoint_in_progress else c
      let l := queryLoop .simple false (opening ++ theirs (query ++ appendq)) c'
      (LIBPQ_update_transaction_status l.conn.server.status l.conn, !l.aborted) := by
  simp [sendQuery, rollbackOnError, hrollback, hignore]

/-- A plain text after commands of the driver that leave a block open. -/
theorem queryLoop_plain {p : Protocol} (pre : List Sent) (ws : List Work) {b : Block} {d : Conn}
    (hpre : (c.server.query pre).2.all (!·.failed) = true)
    (hserver : (c.server.query pre).1.block = some b) (hb : b.failed = false)
    (hloop : (c.server.query pre).2.foldl QueryLoop.receive
      ⟨(c.exchange p (pre ++ theirs (works ws))).1, false, false, false⟩ = ⟨d, false, false, false⟩)
    (htrans : d.in_trans = true) (herror : d.in_error_trans = false) :
    let l := queryLoop p false (pre ++ theirs (works ws)) c
    ∃ es : List Nat, d.server.block = some ⟨es.map .effect ++ b.log, refused ws⟩ ∧
      LIBPQ_update_transaction_status l.conn.server.status l.conn =
        { d with in_error_trans := refused ws } ∧ l.aborted = refused ws := by
  have hquery := Server.query_append hpre (theirs (works ws))
  obtain ⟨es, hend, hrest⟩ := query_works ws (l := ⟨d, false, false, false⟩) hserver hb
    htrans herror rfl
  have hd : d.server = (c.exchange p (pre ++ theirs (works ws))).1.server := by
    have hsame := receives_same (l := ⟨(c.exchange p (pre ++ theirs (works ws))).1, false, false,
      false⟩) (c.server.query pre).2
    rw [hloop] at hsame
    exact hsame.server
  have hblock : d.server.block = some ⟨es.map .effect ++ b.log, refused ws⟩ := by
    rw [hd, Conn.exchange, hquery]
    exact congrArg Server.block hend
  have hfold : queryLoop p false (pre ++ theirs (works ws)) c =
      ⟨{ d with in_error_trans := refused ws }, false, false, refused ws⟩ := by
    have hparts : queryLoop p false (pre ++ theirs (works ws)) c =
        ((c.server.query pre).2 ++ ((c.server.query pre).1.query (theirs (works ws))).2).foldl
          QueryLoop.receive ⟨(c.exchange p (pre ++ theirs (works ws))).1, false, false, false⟩ :=
      congrArg (fun rs => List.foldl QueryLoop.receive
        ⟨(c.exchange p (pre ++ theirs (works ws))).1, false, false, false⟩ rs)
        (congrArg Prod.snd hquery)
    rw [hparts, List.foldl_append, hloop]
    exact hrest
  intro l
  refine ⟨es, hblock, ?_, congrArg QueryLoop.aborted hfold⟩
  rw [show l = _ from hfold]
  exact update_inside (c := { d with in_error_trans := refused ws }) hblock htrans rfl

/-! ### Sending the text of a statement -/

/-- The flags of a query of a statement. -/
structure QueryFlags.Plain (flag : QueryFlags) : Prop where
  rollback_on_error : flag.rollback_on_error = false
  ignore_abort_on_conn : flag.ignore_abort_on_conn = false
  end_with_commit : flag.end_with_commit = false

variable {flag : QueryFlags} {query appendq : List Command}

theorem Inside.not_issueBegin (h : Inside es base failed c) (flag : QueryFlags) :
    issueBegin flag c = false := by
  rw [issueBegin, h.trans]
  exact Bool.and_false _

/-- A text in an open block. -/
theorem sendQuery_inside (h : Inside es base false c) (hflag : flag.Plain)
    (htext : query ++ appendq = works ws) :
    ∃ es' : List Nat,
      Inside (es' ++ es) base (refused ws) (sendQuery o flag query appendq c).1 ∧
        SameStatement (sendQuery o flag query appendq c).1 c ∧
          (sendQuery o flag query appendq c).2 = !refused ws := by
  obtain ⟨es', hblock, hupdate, haborted⟩ := queryLoop_plain (c := c) (p := .simple) [] ws
    (d := (c.exchange .simple (theirs (works ws))).1) rfl h.block rfl rfl h.trans h.error
  have hop : ¬c.internal_op = .prepend_in_progress := by
    rw [h.op]
    decide
  rw [sendQuery_plain hflag.rollback_on_error hflag.ignore_abort_on_conn, h.not_issueBegin flag,
    htext]
  simp only [Bool.false_eq_true, if_false, true_and, if_neg hop]
  rw [List.nil_append] at hupdate haborted
  rw [List.nil_append, hupdate, haborted]
  refine ⟨es', ⟨h.manual, ?_, h.trans, rfl, h.op, h.live, h.armed⟩, ⟨rfl, rfl, rfl⟩, rfl⟩
  rw [List.map_append, List.append_assoc]
  exact hblock

/-- A text in an open block, after the commands of the driver's savepoint. -/
theorem sendQuery_prepend (h : Inside es base false c) (hflag : flag.Plain)
    (htext : query ++ appendq = works ws) :
    let c' := (c.set_internal_op .prepend_in_progress).set_accessed_db
    ∃ (es' : List Nat) (older : Log Savepoint Nat), older.effects = es ++ base.effects ∧
      Inside es' (.savepoint ⟨.exec_svp, true⟩ :: older) (refused ws)
        (sendQuery o flag query appendq c').1 ∧
      (sendQuery o flag query appendq c').1.accessed_db = true ∧
      (sendQuery o flag query appendq c').1.started_rbpoint = true ∧
      (sendQuery o flag query appendq c').1.opt_previous = c.opt_previous ∧
      (sendQuery o flag query appendq c').2 = !refused ws := by
  intro c'
  let c'' := c'.set_internal_op .savepoint_in_progress
  let d := (c''.exchange .simple (savepointCommand c' ++ theirs (works ws))).1
  obtain ⟨older, hbefore, hserver, hpre, hsave⟩ := query_savepointCommand (c := c'') (d := d)
    h.block rfl h.execLive rfl
  obtain ⟨es', hblock, hupdate, haborted⟩ := queryLoop_plain (c := c'') (p := .simple) _ ws hpre
    (by rw [hserver]) rfl hsave h.trans h.error
  have hbegin : issueBegin flag c' = false := h.not_issueBegin flag
  have hop : c'.internal_op = .prepend_in_progress := rfl
  rw [sendQuery_plain hflag.rollback_on_error hflag.ignore_abort_on_conn, hbegin, htext]
  simp only [Bool.false_eq_true, if_false, true_and, if_pos hop]
  have hcommand : savepointCommand c'' = savepointCommand c' := rfl
  rw [hcommand] at hupdate haborted
  rw [hupdate, haborted]
  refine ⟨es', older, ?_, ⟨h.manual, hblock, h.trans, rfl, rfl, fun _ => ?_, fun _ => ?_⟩, rfl, rfl,
    rfl, rfl⟩
  · rw [hbefore, Log.effects_effects]
  · exact Log.latest_savepoint_self rfl
  · exact ⟨rfl, older, rfl⟩

/-- The savepoint of the driver travels alone. -/
theorem sendSavepoint_inside (h : Inside es base false c) :
    ∃ older : Log Savepoint Nat, older.effects = es ++ base.effects ∧
      Inside [] (.savepoint ⟨.exec_svp, true⟩ :: older) false (sendSavepoint c).1 ∧
        (sendSavepoint c).1.started_rbpoint = true ∧
          (sendSavepoint c).1.opt_previous = c.opt_previous ∧ (sendSavepoint c).2 = true := by
  let c' := c.set_internal_op .savepoint_in_progress
  let d := (c'.exchange .simple (savepointCommand c')).1
  obtain ⟨older, hbefore, hserver, hpre, hsave⟩ := query_savepointCommand (c := c') (d := d)
    h.block rfl h.execLive rfl
  have hloop : queryLoop .simple false (savepointCommand c) c' =
      ⟨{ d with started_rbpoint := true, internal_svp := true, internal_op := .none }, false,
        false, false⟩ := hsave
  have hblock : d.server.block = some ⟨.savepoint ⟨.exec_svp, true⟩ :: older, false⟩ :=
    congrArg Server.block hserver
  let e : Conn := { d with started_rbpoint := true, internal_svp := true, internal_op := .none }
  have hupdate := update_inside (c := e) hblock h.trans h.error
  rw [sendSavepoint]
  dsimp only at hupdate ⊢
  rw [hloop]
  dsimp only
  rw [hupdate]
  refine ⟨older, ?_, ⟨h.manual, hblock, h.trans, h.error, rfl, fun _ => ?_, fun _ => ?_⟩, rfl, rfl,
    rfl⟩
  · rw [hbefore, Log.effects_effects]
  · exact Log.latest_savepoint_self rfl
  · exact ⟨rfl, older, rfl⟩

/-- `START TRANSACTION` where no block is open. -/
theorem exec_start {x : Sent} (hx : x.command = .start) (hblock : s.block = none) :
    s.exec x = ({ s with block := some ⟨[], false⟩ }, ⟨false, .tag .start_transaction⟩) := by
  rw [Server.exec, hx, hblock]

/-- A text that begins the transaction. -/
theorem sendQuery_begin (h : Outside c) (hflag : flag.Plain)
    (hbegin : flag.go_into_transaction = true) (htext : query ++ appendq = works ws) :
    ∃ es' : List Nat,
      Inside es' [] (refused ws) (sendQuery o flag query appendq c).1 ∧
        SameStatement (sendQuery o flag query appendq c).1 c ∧
          (sendQuery o flag query appendq c).2 = !refused ws := by
  let d := (c.exchange .simple ([ours .start] ++ theirs (works ws))).1
  have hexec := exec_start (x := ours .start) rfl h.block
  have hquery : c.server.query [ours .start] = _ := Server.query_single.trans (by rw [hexec])
  obtain ⟨es', hblock, hupdate, haborted⟩ := queryLoop_plain (c := c) (p := .simple) [ours .start] ws
    (b := ⟨[], false⟩) (d := { d with in_trans := true, in_manual_trans := true })
    (by rw [hquery]; rfl) (by rw [hquery]) rfl (by rw [hquery]; rfl) rfl h.error
  have hissue : issueBegin flag c = true := by
    rw [issueBegin, hbegin, h.trans]
    rfl
  rw [sendQuery_plain hflag.rollback_on_error hflag.ignore_abort_on_conn, hissue, htext]
  simp only [Bool.true_eq_false, false_and, if_false, if_true]
  rw [hupdate, haborted]
  refine ⟨es', ⟨h.manual, hblock, rfl, rfl, h.op, fun hsvp => ?_, fun hstarted => ?_⟩,
    ⟨rfl, rfl, rfl⟩, rfl⟩
  · exact absurd (hsvp.symm.trans h.internal_svp) (by decide)
  · exact absurd (hstarted.symm.trans h.started) (by decide)

/-! ### The end of a transaction -/

/-- No answer touches the autocommit mode. -/
theorem receives_autocommit (rs : List Reply) {l : QueryLoop} :
    (rs.foldl QueryLoop.receive l).conn.in_autocommit = l.conn.in_autocommit := by
  induction rs generalizing l with
  | nil => rfl
  | cons r rs ih =>
    refine ih.trans ?_
    rw [receive_notice]
    obtain ⟨n, out⟩ := r
    cases out with
    | tuples => rfl
    | error =>
      simp only [QueryLoop.receive, handle_pgres_error, LIBPQ_update_transaction_status]
      split <;> split <;> rfl
    | tag t =>
      have htag : ∀ l' : QueryLoop, (l'.tag t).conn.in_autocommit = l'.conn.in_autocommit := by
        intro l'
        cases t with
        | savepoint =>
          rw [QueryLoop.tag]
          split
          · rfl
          · split <;> rfl
        | release =>
          rw [QueryLoop.tag]
          split <;> rfl
        | _ => rfl
      exact htag _

/-- Once the block is gone the hooks clear every flag. -/
theorem update_outside (hmanual : c.in_autocommit = false) (hblock : c.server.block = none)
    (htrans : c.in_trans = true) :
    Outside (LIBPQ_update_transaction_status c.server.status c) ∧
      (LIBPQ_update_transaction_status c.server.status c).accessed_db = false := by
  have hstatus : c.server.status = .idle := by rw [Server.status, hblock]
  rw [hstatus, LIBPQ_update_transaction_status, if_pos htrans]
  split
  · rw [CC_on_abort, if_pos htrans]
    exact ⟨⟨hmanual, hblock, rfl, rfl, rfl, rfl, rfl⟩, rfl⟩
  · rw [CC_on_commit, if_pos htrans]
    exact ⟨⟨hmanual, hblock, rfl, rfl, rfl, rfl, rfl⟩, rfl⟩

/-- A query that ends the open block. -/
theorem sendQuery_end (h : Inside es base failed c) {command : Command}
    (hend : (c.server.exec ⟨command, false⟩).1.block = none) :
    Outside (sendQuery o .none [command] [] c).1 ∧
      (sendQuery o .none [command] [] c).1.accessed_db = false := by
  have hop : ¬c.internal_op = .prepend_in_progress := by
    rw [h.op]
    decide
  rw [sendQuery_plain rfl rfl, h.not_issueBegin]
  simp only [Bool.false_eq_true, if_false, true_and, if_neg hop, List.nil_append]
  have hkeep := receives_in_trans (c.server.query (theirs ([command] ++ []))).2
    (l := ⟨(c.exchange .simple (theirs ([command] ++ []))).1, false, false, false⟩)
  have htrans : (c.exchange .simple (theirs ([command] ++ []))).1.in_trans = true := h.trans
  rw [htrans, Bool.or_true] at hkeep
  refine update_outside ((receives_autocommit _).trans h.manual) ?_ hkeep
  have hserver := (receives_same (c.server.query (theirs ([command] ++ []))).2
    (l := ⟨(c.exchange .simple (theirs ([command] ++ []))).1, false, false, false⟩)).server
  have hquery : c.server.query (theirs ([command] ++ [])) = _ := Server.query_single
  refine (congrArg Server.block hserver).trans ?_
  rw [Conn.exchange, hquery]
  exact hend

theorem CC_abort_inside (h : Inside es base failed c) :
    Outside (CC_abort o c).1 ∧ (CC_abort o c).1.accessed_db = false := by
  rw [CC_abort, if_pos h.trans]
  exact sendQuery_end h (by rw [Server.exec, h.block])

theorem CC_commit_inside (h : Inside es base false c) (ok notice : Bool) :
    Outside (CC_commit o ok notice c).1 ∧ (CC_commit o ok notice c).1.accessed_db = false := by
  rw [CC_commit, if_pos h.trans]
  refine sendQuery_end h ?_
  rw [Server.exec, h.block]
  cases ok <;> rfl

theorem CC_begin_outside (h : Outside c) :
    Inside [] [] false (CC_begin o c).1 ∧ SameStatement (CC_begin o c).1 c ∧
      (CC_begin o c).2 = true := by
  let d := (c.exchange .simple (theirs [.start])).1
  have hexec := exec_start (x := ⟨.start, false⟩) rfl h.block
  have hquery : c.server.query (theirs [.start]) = _ := Server.query_single.trans (by rw [hexec])
  obtain ⟨es', hblock, hupdate, haborted⟩ := queryLoop_plain (c := c) (p := .simple)
    (theirs [.start]) [] (b := ⟨[], false⟩)
    (d := { d with in_trans := true, in_manual_trans := true })
    (by rw [hquery]; rfl) (by rw [hquery]) rfl (by rw [hquery]; rfl) rfl h.error
  have hop : ¬c.internal_op = .prepend_in_progress := by
    rw [h.op]
    decide
  have htrans : ¬c.in_trans = true := by
    rw [h.trans]
    decide
  have hissue : issueBegin .none c = false := rfl
  rw [CC_begin, if_neg htrans, sendQuery_plain rfl rfl, hissue]
  simp only [Bool.false_eq_true, if_false, true_and, if_neg hop, List.nil_append]
  have htext : theirs [.start] ++ theirs (works []) = theirs ([.start] ++ []) := rfl
  rw [htext] at hupdate haborted
  rw [hupdate, haborted]
  have hlog : d.server.block = some ⟨[], false⟩ := congrArg (Server.block ∘ Prod.fst) hquery
  refine ⟨⟨h.manual, hlog, rfl, rfl, h.op, fun hsvp => ?_, fun hstarted => ?_⟩, ⟨rfl, rfl, rfl⟩,
    rfl⟩
  · exact absurd (hsvp.symm.trans h.internal_svp) (by decide)
  · exact absurd (hstarted.symm.trans h.started) (by decide)

/-- The rollback of the statement: the block is as it was when the savepoint was set. -/
theorem CC_internal_rollback_statement_inside {older : Log Savepoint Nat}
    (h : Inside es (.savepoint ⟨.exec_svp, true⟩ :: older) failed c)
    (hsvp : c.internal_svp = true) (hes : failed = false → es = []) :
    Inside [] (.savepoint ⟨.exec_svp, true⟩ :: older) false
        (CC_internal_rollback_statement c).1 ∧
      (CC_internal_rollback_statement c).1.opt_previous = c.opt_previous := by
  rw [CC_internal_rollback_statement, h.error]
  cases failed with
  | false =>
    cases hes rfl
    exact ⟨h, rfl⟩
  | true =>
    have hlive := h.execLive hsvp
    rw [Server.ExecLive] at hlive
    have hcommand : rollbackCommand c = ours (.rollbackTo .exec_svp) := by
      rw [rollbackCommand, if_pos hsvp]
    have hexec := Server.exec_rollbackTo .exec_svp h.block (by rw [hlive]; rfl)
    rw [Log.rollbackTo_effects, Log.rollbackTo_savepoint_self rfl] at hexec
    have hquery : c.server.query [ours (.rollbackTo .exec_svp)] = _ :=
      Server.query_single.trans (by rw [hexec])
    rw [hcommand, Conn.exchange, hquery]
    exact ⟨⟨h.manual, rfl, rfl, rfl, h.op, h.live, h.armed⟩, rfl⟩

/-! ### The extended protocol -/

/-- One plain command in the extended protocol, inside a block. -/
theorem receiveExtended_inside (h : Inside es base false c) (w : Work) :
    let r := receiveExtended (.work w) (c.exchange .extended (theirs [.work w])).1
      (c.server.exec ⟨.work w, false⟩).2
    ∃ es' : List Nat, Inside (es' ++ es) base (!w.ok) r.1 ∧ SameStatement r.1 c ∧ r.2 = w.ok := by
  have hexec := exec_work w h.block rfl
  have hcommand : ¬(Command.work w = .begin_ ∨ Command.work w = .start) := by simp
  let d := (c.exchange .extended (theirs [.work w])).1
  have hserver : d.server = (c.server.exec ⟨.work w, false⟩).1 :=
    congrArg Prod.fst Server.query_single
  intro r
  have hr : r = receiveExtended (.work w) d (c.server.exec ⟨.work w, false⟩).2 := rfl
  rw [hexec] at hserver hr
  cases hok : w.ok with
  | true =>
    rw [hok, if_pos rfl] at hserver hr
    have hinside : Inside (w.effect.toList ++ es) base false d := by
      refine ⟨h.manual, ?_, h.trans, h.error, h.op, h.live, h.armed⟩
      rw [hserver, List.map_append, List.append_assoc]
    have hd : r = (d, true) := by
      have hstatus : d.server.status = .inTrans := by
        rw [Server.status, hserver]
        rfl
      rw [hr]
      cases w.tuples with
      | true => rfl
      | false =>
        simp only [receiveExtended, Bool.false_eq_true, if_false, hstatus, if_neg hcommand]
        rw [Conn.set_in_trans_self hinside.trans]
    rw [hd]
    exact ⟨_, hinside, ⟨rfl, rfl, rfl⟩, rfl⟩
  | false =>
    rw [hok, if_neg Bool.false_ne_true] at hserver hr
    have hd : r = ({ d with in_error_trans := true }, false) := by
      have hstatus : d.server.status = .inError := by
        rw [Server.status, hserver]
        rfl
      have htrans : d.in_trans = true := h.trans
      rw [hr]
      simp only [receiveExtended, hstatus, handle_pgres_error, htrans, Bool.and_self, if_true,
        LIBPQ_update_transaction_status]
    have hblock : d.server.block = some ⟨es.map .effect ++ base, true⟩ := by
      rw [hserver]
    rw [hd]
    exact ⟨[], ⟨h.manual, hblock, h.trans, rfl, h.op, h.live, h.armed⟩, ⟨rfl, rfl, rfl⟩, rfl⟩

/-! ### Where no block is open -/

/-- A plain command where no block is open leaves none. -/
theorem exec_work_idle (w : Work) (hblock : s.block = none) :
    ∃ out, s.exec ⟨.work w, false⟩ = (s, ⟨w.notice, out⟩) ∧
      (out = .error ∨ out = .tuples ∨ out = .tag .other) := by
  rw [Server.exec, hblock]
  refine ⟨_, rfl, ?_⟩
  cases w.ok
  · exact .inl rfl
  · exact .inr (Server.tuplesOr _)

/-- Outside a block the loop may come to think that there is one, from a notice or an error, but
changes nothing else without that. -/
theorem query_works_idle (ws : List Work) {l : QueryLoop} (hblock : s.block = none) :
    (s.query (theirs (works ws))).1 = s ∧ ∃ (t e a : Bool),
      (s.query (theirs (works ws))).2.foldl QueryLoop.receive l =
        { l with conn := { l.conn with in_trans := t, in_error_trans := e }, aborted := a } ∧
      (t = false → e = l.conn.in_error_trans) := by
  induction ws generalizing l with
  | nil => exact ⟨rfl, l.conn.in_trans, l.conn.in_error_trans, l.aborted, rfl, fun _ => rfl⟩
  | cons w ws ih =>
    have htext : theirs (works (w :: ws)) = ⟨.work w, false⟩ :: theirs (works ws) := rfl
    obtain ⟨out, hexec, hout⟩ := exec_work_idle w hblock
    rw [htext]
    rcases hout with rfl | hout
    · rw [Server.query_cons_of_failed (by rw [hexec]; rfl), hexec]
      refine ⟨rfl, true, (w.notice || l.conn.in_trans) || l.conn.in_error_trans, true, ?_,
        fun h => nomatch h⟩
      rw [List.foldl_cons, List.foldl_nil, receive_notice]
      simp only [QueryLoop.receive, handle_pgres_error, LIBPQ_update_transaction_status]
      cases w.notice || l.conn.in_trans <;> rfl
    · have hreceive : l.receive ⟨w.notice, out⟩ =
          { l with conn := { l.conn with in_trans := w.notice || l.conn.in_trans } } := by
        rw [receive_notice]
        rcases hout with rfl | rfl <;> rfl
      rw [Server.query_cons_of_ok (by rw [hexec]; rcases hout with rfl | rfl <;> rfl), hexec,
        List.foldl_cons, hreceive]
      obtain ⟨hserver, t, e, a, hloop, he⟩ := ih (l :=
        { l with conn := { l.conn with in_trans := w.notice || l.conn.in_trans } })
      exact ⟨hserver, t, e, a, hloop, he⟩

/-- A text where no block is open, and none is begun. -/
theorem sendQuery_outside (h : Outside c) (hflag : flag.Plain)
    (hbegin : flag.go_into_transaction = false) (htext : query ++ appendq = works ws) :
    Outside (sendQuery o flag query appendq c).1 ∧ (c.accessed_db = false →
      (sendQuery o flag query appendq c).1.accessed_db = false) := by
  have hop : ¬c.internal_op = .prepend_in_progress := by
    rw [h.op]
    decide
  have hissue : issueBegin flag c = false := by
    rw [issueBegin, hbegin]
    rfl
  obtain ⟨hserver, t, e, a, hloop, he⟩ := query_works_idle ws
    (l := ⟨(c.exchange .simple (theirs (works ws))).1, false, false, false⟩) h.block
  have hl : queryLoop .simple false (theirs (works ws)) c = _ := hloop
  rw [sendQuery_plain hflag.rollback_on_error hflag.ignore_abort_on_conn, hissue, htext]
  simp only [Bool.false_eq_true, if_false, true_and, if_neg hop, List.nil_append, hl]
  have hblock : (c.exchange .simple (theirs (works ws))).1.server.block = none :=
    (congrArg Server.block hserver).trans h.block
  cases t with
  | true =>
    have hend := update_outside (c := { (c.exchange .simple (theirs (works ws))).1 with
      in_trans := true, in_error_trans := e }) h.manual hblock rfl
    exact ⟨hend.1, fun _ => hend.2⟩
  | false =>
    have hstatus : (c.exchange .simple (theirs (works ws))).1.server.status = .idle := by
      rw [Server.status, hblock]
    have herror : e = false := (he rfl).trans h.error
    rw [hstatus, LIBPQ_update_transaction_status, if_neg Bool.false_ne_true]
    exact ⟨⟨h.manual, hblock, rfl, herror, h.op, h.internal_svp, h.started⟩, fun ha => ha⟩

/-- One plain command in the extended protocol, outside a block. -/
theorem receiveExtended_outside (h : Outside c) (w : Work) :
    let r := receiveExtended (.work w) (c.exchange .extended (theirs [.work w])).1
      (c.server.exec ⟨.work w, false⟩).2
    Outside r.1 ∧ r.1.accessed_db = c.accessed_db := by
  obtain ⟨out, hexec, hout⟩ := exec_work_idle w h.block
  let d := (c.exchange .extended (theirs [.work w])).1
  have hserver : d.server = (c.server.exec ⟨.work w, false⟩).1 :=
    congrArg Prod.fst Server.query_single
  have hblock : d.server.block = none := by
    rw [hserver, hexec]
    exact h.block
  have hstatus : d.server.status = .idle := by rw [Server.status, hblock]
  have htrans : d.in_trans = false := h.trans
  intro r
  have hr : r = receiveExtended (.work w) d (c.server.exec ⟨.work w, false⟩).2 := rfl
  rw [hr, hexec]
  rcases hout with rfl | rfl | rfl
  · simp only [receiveExtended, handle_pgres_error, htrans, hstatus, Bool.and_false,
      Bool.false_eq_true, if_false, LIBPQ_update_transaction_status]
    exact ⟨⟨h.manual, hblock, h.trans, h.error, h.op, h.internal_svp, h.started⟩, rfl⟩
  · exact ⟨⟨h.manual, hblock, h.trans, h.error, h.op, h.internal_svp, h.started⟩, rfl⟩
  · simp only [receiveExtended, hstatus]
    exact ⟨⟨h.manual, hblock, rfl, rfl, h.op, h.internal_svp, h.started⟩, rfl⟩

end OdbcDriver
