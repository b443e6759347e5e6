import OdbcDriver.Transaction.PlainTexts

/-!
# Statements that fail

In manual-commit mode with statement-level rollback, a statement that fails is undone and
nothing else, as long as the driver has set a savepoint for it or it is the first of its
transaction. No savepoint is set after a statement that only read (`opt_previous`), for a
statement that the driver takes for one of transaction control or for a `VACUUM`, nor for the
extension connector; then the driver aborts the transaction, or leaves it failed.
-/

namespace OdbcDriver

variable {o : SavepointOptions} {c d : Conn} {ws : List Work} {es : List Nat}
  {base : Log Savepoint Nat} {failed : Bool}

/-! ### Statements of the application -/

/-- A plain command. -/
def Command.isWork : Command → Bool
  | .work _ => true
  | _ => false

/-- A plain command that the server refuses. -/
def Command.isRefused : Command → Bool
  | .work w => !w.ok
  | _ => false

/-- What is sent of a statement, its first fetch included. -/
def Execution.text : Execution → List Command
  | .simple query appendq => query ++ appendq
  | .extended _ command => [command]

/-- The parameters of the statement cannot be bound, or the server refuses one of its commands. -/
def Execution.refused : Execution → Bool
  | .simple query appendq => (query ++ appendq).any Command.isRefused
  | .extended bound command => !bound || command.isRefused

/-- The statement goes in one query. -/
def Execution.inOneGo (o : SavepointOptions) : Execution → Bool
  | .simple _ appendq => appendq.isEmpty || !o.ignore_roundtrip_time
  | .extended _ _ => true

/-- A statement of the application: executed, or sent as a query for a statement handle by a
catalog function, a fetch or a positioned operation. -/
inductive StatementCall
  | execute (e : ExecuteCall)
  | query (stmt : Stmt) (go_into_transaction read_only : Bool) (text : List Command)

def StatementCall.stmt : StatementCall → Stmt
  | .execute e => e.stmt
  | .query stmt _ _ _ => stmt

def StatementCall.execution : StatementCall → Execution
  | .execute e => e.execution
  | .query _ _ _ text => .simple text []

/-- The statement is sent, with `rollback_on_error` 2. -/
def StatementCall.send (o : SavepointOptions) : StatementCall → Conn → Conn × Bool
  | .execute e, c => SC_execute o { e with stmt := StartRollbackState o 2 e.stmt } c
  | .query stmt go_into_transaction read_only text, c =>
    CC_send_query_append o ⟨false, go_into_transaction, false, false, read_only⟩
      (some (StartRollbackState o 2 stmt)) text [] c

/-- A statement from `StartRollbackState` to `DiscardStatementSvp`, and whether it succeeds. -/
def StatementCall.run (o : SavepointOptions) (call : StatementCall) (c : Conn) : Conn × Bool :=
  let (c', ok) := call.send o c
  (DiscardStatementSvp o (StartRollbackState o 2 call.stmt) (if ok then .other else .error) false
    c', ok)

/-- What the application does: statements, and the end of transactions by `SQLEndTran`. -/
inductive AppCall
  | statement (call : StatementCall)
  | endTran (commit ok notice : Bool)

/-- `PGAPI_Transact` for one connection -/
def PGAPI_Transact (o : SavepointOptions) (commit ok notice : Bool) (c : Conn) : Conn × Bool :=
  if c.loves_visible_trans && c.in_trans then
    let (c, done) := if commit then CC_commit o ok notice c else CC_abort o c
    if done then (c, true) else (CC_on_abort c, false)
  else (c, true)

/-- An application that uses a connection. -/
def appMachine (o : SavepointOptions) : Machine Conn AppCall Bool where
  step c
    | .statement call => call.run o c
    | .endTran commit ok notice => PGAPI_Transact o commit ok notice c

/-- An insert sent as a simple query. -/
def insertCall (row : Nat) (ok : Bool) : ExecuteCall :=
  ⟨⟨.other, .none, true, false⟩, false, false, .simple [.work ⟨some row, ok, false, false⟩] [], true,
    false⟩

/-- A connection just made, autocommit off. -/
def Conn.manual : Conn := Conn.fresh.set_autocommit false

/-! ### What is claimed -/

/-- The effects in the open block. -/
def Server.effects (s : Server) : List Nat :=
  match s.block with
  | none => []
  | some b => b.log.effects

/-- From `s` to `t` nothing is lost or done: an open block stays open and usable. -/
structure Server.Kept (s t : Server) : Prop where
  isOpen : s.isOpen = true → t.isOpen = true
  usable : t.failed = false
  effects : t.effects = s.effects

/-- A statement that fails leaves the transaction as it was; one that succeeds keeps what was
done before. -/
def AppCall.Undone (o : SavepointOptions) (c : Conn) : AppCall → Prop
  | .statement call =>
    ((call.run o c).2 = false → c.server.Kept (call.run o c).1.server) ∧
      ((call.run o c).2 = true → c.server.effects <:+ (call.run o c).1.server.effects)
  | .endTran _ _ _ => True

/-- The driver looks after statements of this type. -/
def Stmt.guarded (stmt : Stmt) : Prop :=
  stmt.statement_type ≠ .special ∧ stmt.statement_type ≠ .transaction

instance (stmt : Stmt) : Decidable stmt.guarded := inferInstanceAs (Decidable (_ ∧ _))

/-- A savepoint is set for the statement, or it is the first of its transaction and goes in one
query. -/
structure Recoverable (o : SavepointOptions) (c : Conn) (stmt : Stmt) (inOneGo : Bool) : Prop where
  connector : o.for_extension_connector = false
  guarded : stmt.guarded
  savepoint : c.in_trans = true → c.opt_previous = false
  first : c.in_trans = false → inOneGo = true ∨ c.opt_previous = true

instance (o : SavepointOptions) (c : Conn) (stmt : Stmt) (inOneGo : Bool) :
    Decidable (Recoverable o c stmt inOneGo) :=
  decidable_of_iff (o.for_extension_connector = false ∧ stmt.guarded ∧
      (c.in_trans = true → c.opt_previous = false) ∧
        (c.in_trans = false → inOneGo = true ∨ c.opt_previous = true))
    ⟨fun ⟨h₁, h₂, h₃, h₄⟩ => ⟨h₁, h₂, h₃, h₄⟩, fun ⟨h₁, h₂, h₃, h₄⟩ => ⟨h₁, h₂, h₃, h₄⟩⟩

/-- Statements are without transaction control, and those that fail are recoverable. -/
def AppCall.Sound (o : SavepointOptions) (c : Conn) : AppCall → Prop
  | .statement call =>
    call.execution.text.all Command.isWork = true ∧
      (call.execution.refused = true → Recoverable o c call.stmt (call.execution.inOneGo o))
  | .endTran _ _ _ => True

instance (o : SavepointOptions) (c : Conn) : ∀ call : AppCall, Decidable (call.Sound o c)
  | .statement _ => inferInstanceAs (Decidable (_ ∧ _))
  | .endTran _ _ _ => inferInstanceAs (Decidable True)

theorem exists_works {text : List Command} (h : text.all Command.isWork = true) :
    ∃ ws, text = works ws ∧ text.any Command.isRefused = OdbcDriver.refused ws := by
  induction text with
  | nil => exact ⟨[], rfl, rfl⟩
  | cons command text ih =>
    rw [List.all_cons, Bool.and_eq_true] at h
    obtain ⟨ws, htext, hrefused⟩ := ih h.2
    cases command with
    | work w => exact ⟨w :: ws, congrArg (Command.work w :: ·) htext, congrArg (!w.ok || ·) hrefused⟩
    | _ => exact absurd h.1 Bool.false_ne_true

/-! ### The savepoint before the statement -/

theorem Inside.restrict_opt (h : Inside es base failed c) (rdonly : Bool) :
    Inside es base failed (c.restrict_opt rdonly) :=
  ⟨h.manual, h.block, h.trans, h.error, h.op, h.live, h.armed⟩

theorem Inside.set_accessed_db (h : Inside es base failed c) :
    Inside es base failed c.set_accessed_db :=
  ⟨h.manual, h.block, h.trans, h.error, h.op, h.live, h.armed⟩

theorem Outside.set_accessed_db (h : Outside c) : Outside c.set_accessed_db :=
  ⟨h.manual, h.block, h.trans, h.error, h.op, h.internal_svp, h.started⟩

theorem Outside.restrict_opt (h : Outside c) (rdonly : Bool) : Outside (c.restrict_opt rdonly) :=
  ⟨h.manual, h.block, h.trans, h.error, h.op, h.internal_svp, h.started⟩

/-- What a statement in progress can tell about its savepoint: with one set already the log is as
it was; otherwise one is set on top, unless the previous statement only read. -/
structure Guarded (o : SavepointOptions) (stmt : Stmt) (es : List Nat)
    (base base' : Log Savepoint Nat) (c d : Conn) : Prop where
  previous : d.opt_previous = c.opt_previous
  started : c.started_rbpoint = true →
    base' = base ∧ d.started_rbpoint = true ∧ d.accessed_db = c.accessed_db
  accessed : c.started_rbpoint = false → stmt.guarded → d.accessed_db = true
  savepoint : c.started_rbpoint = false → stmt.guarded → o.for_extension_connector = false →
    c.opt_previous = false → base'.effects = es ++ base.effects ∧ d.started_rbpoint = true
  readonly : c.opt_previous = true → base' = base ∧ d.started_rbpoint = c.started_rbpoint

variable {stmt : Stmt} {flag : QueryFlags} {query appendq : List Command}

/-- `SetStatementSvp` finds that a savepoint is called for. -/
theorem needSavepoint_eq_true (h : needSavepoint o stmt c = true) :
    c.started_rbpoint = false ∧ c.opt_previous = false := by
  simp only [needSavepoint, Bool.and_eq_true, Bool.not_eq_true'] at h
  exact ⟨h.1.1.1.1, h.1.1.1.2⟩

theorem needSavepoint_eq_false (h : needSavepoint o stmt c = false) (hrb : stmt.rb_or_tc = .rb_stmt)
    (htrans : c.in_trans = true) (hstarted : c.started_rbpoint = false)
    (hext : o.for_extension_connector = false) : c.opt_previous = true := by
  simpa [needSavepoint, hrb, htrans, hstarted, hext] using h

/-- A statement that no savepoint is set for, and whose text only adds effects. -/
theorem Guarded.of_same {x : Conn} (hprev : x.opt_previous = c.opt_previous)
    (hstarted' : x.started_rbpoint = c.started_rbpoint) (hd : SameStatement d x)
    (hstarted : c.started_rbpoint = true → x.accessed_db = c.accessed_db)
    (haccessed : c.started_rbpoint = false → stmt.guarded → x.accessed_db = true)
    (hsavepoint : c.started_rbpoint = false → stmt.guarded → o.for_extension_connector = false →
      c.opt_previous = true) : Guarded o stmt es base base c d where
  previous := hd.previous.trans hprev
  started hs := ⟨rfl, hd.started.trans (hstarted'.trans hs), hd.accessed.trans (hstarted hs)⟩
  accessed hs hg := hd.accessed.trans (haccessed hs hg)
  savepoint hs hg hext hp := absurd ((hsavepoint hs hg hext).symm.trans hp) (by decide)
  readonly _ := ⟨rfl, hd.started.trans hstarted'⟩

/-- A statement that a savepoint is set for. -/
theorem Guarded.of_savepoint {base' : Log Savepoint Nat} (hneed : needSavepoint o stmt c = true)
    (hprev : d.opt_previous = c.opt_previous) (hstarted : d.started_rbpoint = true)
    (haccessed : d.accessed_db = true) (hbase : base'.effects = es ++ base.effects) :
    Guarded o stmt es base base' c d where
  previous := hprev
  started hs := absurd (hs.symm.trans (needSavepoint_eq_true hneed).1) (by decide)
  accessed _ _ := haccessed
  savepoint _ _ _ _ := ⟨hbase, hstarted⟩
  readonly hp := absurd (hp.symm.trans (needSavepoint_eq_true hneed).2) (by decide)

/-- **A text in a transaction.** It adds its effects, above a savepoint if one is called for. -/
theorem sendText_inside (h : Inside es base false c) (hrb : stmt.rb_or_tc = .rb_stmt)
    (hflag : flag.Plain) (hne : query.isEmpty = false) (htext : query ++ appendq = works ws) :
    let r := CC_send_query_text o flag (some stmt) query appendq c
    ∃ (es' : List Nat) (base' : Log Savepoint Nat), Inside es' base' (refused ws) r.1 ∧
      r.2 = (!refused ws) ∧ es ++ base.effects <:+ es' ++ base'.effects ∧
        Guarded o stmt es base base' c r.1 := by
  have hconsidered : considerRollback flag query c = true := by
    rw [considerRollback, h.trans, h.error]
    simp
  have hext : c.in_error_trans = false := h.error
  simp only [CC_send_query_text, hne, Bool.false_eq_true, if_false, hflag.rollback_on_error,
    Bool.false_and, Bool.not_false, hconsidered, hflag.end_with_commit, Bool.true_and]
  cases hstarted : c.started_rbpoint with
  | true =>
    simp only [Bool.not_true, Bool.false_eq_true, if_false]
    obtain ⟨es', hinside, hsame, hok⟩ := sendQuery_inside (o := o) h hflag htext
    refine ⟨es' ++ es, base, hinside, hok, ?_, ?_⟩
    · rw [List.append_assoc]
      exact List.suffix_append _ _
    · refine .of_same rfl rfl hsame (fun _ => rfl) (fun hs => ?_) (fun hs => ?_)
      · exact absurd (hs.symm.trans hstarted) (by decide)
      · exact absurd (hs.symm.trans hstarted) (by decide)
  | false =>
    simp only [Bool.not_false, if_true, SetStatementSvp, hext, Bool.false_eq_true, if_false]
    have hopt := h.restrict_opt flag.read_only_query
    by_cases htype : stmt.statement_type = .special ∨ stmt.statement_type = .transaction
    · simp only [if_pos htype, if_true]
      obtain ⟨es', hinside, hsame, hok⟩ := sendQuery_inside (o := o) hopt hflag htext
      have hnot : ¬stmt.guarded := fun hg => htype.elim hg.1 hg.2
      refine ⟨es' ++ es, base, hinside, hok, ?_, ?_⟩
      · rw [List.append_assoc]
        exact List.suffix_append _ _
      · refine .of_same (x := c.restrict_opt flag.read_only_query) rfl rfl hsame (fun hs => ?_)
          (fun _ hg => absurd hg hnot) (fun _ hg => absurd hg hnot)
        exact absurd (hs.symm.trans hstarted) (by decide)
    · simp only [if_neg htype]
      cases hneed : needSavepoint o stmt (c.restrict_opt flag.read_only_query) with
      | false =>
        simp only [Bool.false_eq_true, if_false, if_true]
        obtain ⟨es', hinside, hsame, hok⟩ :=
          sendQuery_inside (o := o) hopt.set_accessed_db hflag htext
        refine ⟨es' ++ es, base, hinside, hok, ?_, ?_⟩
        · rw [List.append_assoc]
          exact List.suffix_append _ _
        · refine .of_same (x := (c.restrict_opt flag.read_only_query).set_accessed_db) rfl rfl
            hsame (fun hs => ?_) (fun _ _ => rfl) (fun _ _ hext => ?_)
          · exact absurd (hs.symm.trans hstarted) (by decide)
          · exact needSavepoint_eq_false hneed hrb hopt.trans hstarted hext
      | true =>
        have hneed' : needSavepoint o stmt c = true := hneed
        simp only [if_true]
        cases o.ignore_roundtrip_time with
        | false =>
          simp only [Bool.not_false, if_true]
          obtain ⟨es', older, hbefore, hinside, haccessed, hstarted', hprev, hok⟩ :=
            sendQuery_prepend (o := o) hopt hflag htext
          refine ⟨es', _, hinside, hok, ?_, .of_savepoint hneed' hprev hstarted' haccessed hbefore⟩
          rw [Log.effects_savepoint, hbefore]
          exact List.suffix_append _ _
        | true =>
          obtain ⟨older, hbefore, hsave, hstarted', hprev, hok⟩ := sendSavepoint_inside hopt
          simp only [Bool.not_true, Bool.false_eq_true, if_false, hok, if_true]
          obtain ⟨es', hinside, hsame, hok⟩ :=
            sendQuery_inside (o := o) hsave.set_accessed_db hflag htext
          rw [List.append_nil] at hinside
          refine ⟨es', _, hinside, hok, ?_, .of_savepoint hneed' (hsame.previous.trans hprev)
            (hsame.started.trans hstarted') hsame.accessed hbefore⟩
          rw [Log.effects_savepoint, hbefore]
          exact List.suffix_append _ _

/-- `SetStatementSvp` where no block is open: a savepoint is not called for. -/
theorem setStatementSvp_outside (stmt : Stmt) (h : Outside c) (rdonly reduce : Bool) :
    let r := SetStatementSvp o stmt rdonly reduce c
    Outside r.1 ∧ r.2 = true ∧ r.1.opt_previous = c.opt_previous ∧
      (stmt.guarded → r.1.accessed_db = true) := by
  have hneed : ∀ b, needSavepoint o stmt (c.restrict_opt b) = false := by
    intro b
    have htrans : (c.restrict_opt b).in_trans = false := h.trans
    simp [needSavepoint, htrans]
  simp only [SetStatementSvp, h.error, hneed, Bool.false_eq_true, if_false]
  split
  next htype =>
    exact ⟨h.restrict_opt _, rfl, rfl, fun hg => absurd htype (not_or_intro hg.1 hg.2)⟩
  next => exact ⟨(h.restrict_opt _).set_accessed_db, rfl, rfl, fun _ => rfl⟩

/-- **The first text of a transaction.** -/
theorem sendText_begin (stmt : Stmt) (h : Outside c) (hflag : flag.Plain)
    (hbegin : flag.go_into_transaction = true) (hne : query.isEmpty = false)
    (htext : query ++ appendq = works ws) :
    let r := CC_send_query_text o flag (some stmt) query appendq c
    ∃ es' : List Nat, Inside es' [] (refused ws) r.1 ∧ r.2 = (!refused ws) ∧
      r.1.opt_previous = c.opt_previous ∧ r.1.started_rbpoint = false ∧
        (stmt.guarded → r.1.accessed_db = true) := by
  have hconsidered : considerRollback flag query c = true := by
    rw [considerRollback, issueBegin, hbegin, h.trans]
    rfl
  obtain ⟨hset, hok, hprev, haccessed⟩ := setStatementSvp_outside (o := o) stmt h
    flag.read_only_query (!o.ignore_roundtrip_time)
  simp only [CC_send_query_text, hne, Bool.false_eq_true, if_false, hflag.rollback_on_error,
    Bool.false_and, Bool.not_false, hconsidered, hflag.end_with_commit, Bool.true_and, h.started,
    if_true, hok]
  obtain ⟨es', hinside, hsame, hok'⟩ := sendQuery_begin (o := o) hset hflag hbegin htext
  exact ⟨es', hinside, hok', hsame.previous.trans hprev, hsame.started.trans hset.started,
    fun hg => hsame.accessed.trans (haccessed hg)⟩

/-- A text where no block is open, and none is begun. -/
theorem sendText_outside (h : Outside c) (hflag : flag.Plain)
    (hbegin : flag.go_into_transaction = false) (htext : query ++ appendq = works ws) :
    Outside (CC_send_query_text o flag (some stmt) query appendq c).1 := by
  rw [CC_send_query_text]
  split
  · exact h
  · have hhead : (query.head? == some .begin_) = false := by
      cases query with
      | nil => rfl
      | cons command query =>
        cases ws with
        | nil => cases htext
        | cons w ws =>
          cases (List.cons.inj htext).1
          rfl
    have hconsidered : considerRollback flag query c = false := by
      rw [considerRollback, issueBegin, hbegin, h.trans, hhead]
      rfl
    simp only [hconsidered, hflag.rollback_on_error, Bool.false_and, Bool.not_false, Bool.and_false,
      Bool.false_eq_true, if_false]
    exact (sendQuery_outside h hflag hbegin htext).1

/-! ### The extended protocol -/

/-- `RequestStart` in a transaction. -/
theorem requestStart_inside (h : Inside [] base false c) (hrb : stmt.rb_or_tc = .rb_stmt)
    (hstarted : c.started_rbpoint = false) :
    let r := RequestStart o stmt c
    ∃ base' : Log Savepoint Nat, Inside [] base' false r.1 ∧ r.2 = true ∧
      base'.effects = base.effects ∧ Guarded o stmt [] base base' c r.1 := by
  have herror : c.in_error_trans = false := h.error
  have hopt := h.restrict_opt stmt.readonly
  simp only [RequestStart, hstarted, Bool.false_eq_true, if_false, SetStatementSvp, herror]
  by_cases htype : stmt.statement_type = .special ∨ stmt.statement_type = .transaction
  · have hnot : ¬stmt.guarded := fun hg => htype.elim hg.1 hg.2
    simp only [if_pos htype, Bool.not_true, Bool.false_eq_true, if_false, hopt.trans,
      Bool.false_and]
    refine ⟨base, hopt, trivial, rfl, .of_same (x := c.restrict_opt stmt.readonly) rfl rfl
      ⟨rfl, rfl, rfl⟩ (fun hs => ?_) (fun _ hg => absurd hg hnot) (fun _ hg => absurd hg hnot)⟩
    exact absurd (hs.symm.trans hstarted) (by decide)
  · simp only [if_neg htype]
    cases hneed : needSavepoint o stmt (c.restrict_opt stmt.readonly) with
    | false =>
      have hacc := hopt.set_accessed_db
      simp only [Bool.false_eq_true, if_false, Bool.not_true, hacc.trans, Bool.false_and]
      refine ⟨base, hacc, trivial, rfl, .of_same
        (x := (c.restrict_opt stmt.readonly).set_accessed_db) rfl rfl ⟨rfl, rfl, rfl⟩
        (fun hs => ?_) (fun _ _ => rfl) (fun _ _ hext => ?_)⟩
      · exact absurd (hs.symm.trans hstarted) (by decide)
      · exact needSavepoint_eq_false hneed hrb hopt.trans hstarted hext
    | true =>
      have hneed' : needSavepoint o stmt c = true := hneed
      obtain ⟨older, hbefore, hsave, hstarted', hprev, hok⟩ := sendSavepoint_inside hopt
      have hacc := hsave.set_accessed_db
      simp only [if_true, Bool.false_eq_true, if_false, hok, Bool.not_true, hacc.trans,
        Bool.false_and]
      exact ⟨_, hacc, trivial, hbefore, .of_savepoint hneed' hprev hstarted' rfl hbefore⟩

/-- `RequestStart` where no block is open: it begins one, but not for a `VACUUM`. -/
theorem requestStart_outside (stmt : Stmt) (h : Outside c) :
    let r := RequestStart o stmt c
    (Outside r.1 ∨ Inside [] [] false r.1 ∧ r.2 = true) ∧
      (stmt.guarded → r.1.accessed_db = true) := by
  obtain ⟨hset, hok, hprev, haccessed⟩ := setStatementSvp_outside (o := o) stmt h
    stmt.readonly false
  have hloves : (SetStatementSvp o stmt stmt.readonly false c).1.loves_visible_trans = true := by
    rw [Conn.loves_visible_trans, hset.manual]
    rfl
  simp only [RequestStart, h.started, Bool.false_eq_true, if_false, hok, Bool.not_true, hset.trans,
    Bool.not_false, hloves, Bool.true_and]
  by_cases htype : stmt.statement_type = .special
  · simp only [htype, ne_eq, not_true_eq_false, decide_false, Bool.false_eq_true, if_false]
    exact ⟨.inl hset, haccessed⟩
  · simp only [ne_eq, htype, not_false_eq_true, decide_true, if_true]
    obtain ⟨hinside, hsame, hok⟩ := CC_begin_outside (o := o) hset
    exact ⟨.inr ⟨hinside, hok⟩, fun hg => hsame.accessed.trans (haccessed hg)⟩

/-! ### A statement sent -/

/-- The connection between two statements. -/
structure Usable (c : Conn) : Prop where
  accessed : c.accessed_db = false
  started : c.started_rbpoint = false
  state : Outside c ∨ ∃ log, Inside [] log false c

/-- A failed statement can be undone: below its effects is what there was before. -/
structure Restorable (o : SavepointOptions) (c : Conn) (es : List Nat)
    (base : Log Savepoint Nat) (failed : Bool) (d : Conn) : Prop where
  effects : base.effects = c.server.effects
  clean : failed = false → es = []
  untouched : d.accessed_db = false → failed = false
  savepoint : d.accessed_db = true → o.for_extension_connector = false ∧
    (d.started_rbpoint = true ∨ c.server.block = none)

/-- What sending a plain statement leaves behind. -/
inductive Attempted (o : SavepointOptions) (c : Conn) : Conn × Bool → Prop
  | outside {d : Conn} {ok : Bool} (hc : c.server.block = none) (hd : Outside d) :
      Attempted o c (d, ok)
  | inside {d : Conn} {ok : Bool} {es : List Nat} {base : Log Savepoint Nat} {failed : Bool}
      (hd : Inside es base failed d)
      (hok : ok = true → failed = false ∧ c.server.effects <:+ es ++ base.effects)
      (herr : ok = false → Restorable o c es base failed d) : Attempted o c (d, ok)

theorem Outside.effects (h : Outside c) : c.server.effects = [] := by
  rw [Server.effects, h.block]

theorem Inside.effects (h : Inside es base failed c) :
    c.server.effects = es ++ base.effects := by
  rw [Server.effects, h.block]
  exact Log.effects_effects es

/-- A statement that fails exactly when the block does. -/
theorem Attempted.of_inside {r : Conn × Bool} (hinside : Inside es base failed r.1)
    (hok : r.2 = (!failed)) (hkept : c.server.effects <:+ es ++ base.effects)
    (hrec : failed = true → o.for_extension_connector = false ∧
      base.effects = c.server.effects ∧ r.1.accessed_db = true ∧
        (r.1.started_rbpoint = true ∨ c.server.block = none)) : Attempted o c r := by
  obtain ⟨d, ok⟩ := r
  dsimp only at hinside hok hrec
  refine .inside hinside (fun h => ⟨by simpa [hok] using h, hkept⟩) (fun h => ?_)
  have hfailed : failed = true := by simpa [hok] using h
  obtain ⟨hext, hbase, hacc, hstarted⟩ := hrec hfailed
  refine ⟨hbase, fun hf => ?_, fun ha => ?_, fun _ => ⟨hext, hstarted⟩⟩
  · exact absurd (hf.symm.trans hfailed) (by decide)
  · exact absurd (ha.symm.trans hacc) (by decide)

theorem works_eq_append (h : query ++ appendq = works ws) :
    ∃ ws₁ ws₂, query = works ws₁ ∧ appendq = works ws₂ ∧
      OdbcDriver.refused ws = (OdbcDriver.refused ws₁ || OdbcDriver.refused ws₂) := by
  obtain ⟨ws₁, ws₂, rfl, h₁, h₂⟩ := List.map_eq_append_iff.mp h.symm
  exact ⟨ws₁, ws₂, h₁.symm, h₂.symm, List.any_append⟩

/-- Nothing is sent. -/
theorem attempted_nothing (huse : Usable c) : Attempted o c (c, false) := by
  rcases huse.state with h | ⟨log, h⟩
  · exact .outside h.block h
  · refine .inside h (fun hok => nomatch hok) fun _ =>
      ⟨h.effects.symm, fun _ => rfl, fun _ => rfl, fun ha => ?_⟩
    exact absurd (ha.symm.trans huse.accessed) (by decide)

/-- A statement in one text. -/
theorem attempted_text (huse : Usable c) (hrb : stmt.rb_or_tc = .rb_stmt) (hflag : flag.Plain)
    (htext : query ++ appendq = works ws)
    (hrec : refused ws = true → o.for_extension_connector = false ∧ stmt.guarded ∧
      (c.in_trans = true → c.opt_previous = false)) :
    Attempted o c (CC_send_query_text o flag (some stmt) query appendq c) := by
  cases hne : query.isEmpty with
  | true =>
    rw [CC_send_query_text, if_pos hne]
    exact attempted_nothing huse
  | false =>
    rcases huse.state with h | ⟨log, h⟩
    · cases hbegin : flag.go_into_transaction with
      | false => exact .outside h.block (sendText_outside h hflag hbegin htext)
      | true =>
        obtain ⟨es', hinside, hok, -, -, haccessed⟩ :=
          sendText_begin (o := o) stmt h hflag hbegin hne htext
        refine .of_inside hinside hok ?_ fun hr => ?_
        · rw [h.effects]
          exact List.nil_suffix
        · obtain ⟨hext, hg, -⟩ := hrec hr
          exact ⟨hext, h.effects.symm, haccessed hg, .inr h.block⟩
    · obtain ⟨es', base', hinside, hok, hkept, hguard⟩ :=
        sendText_inside (o := o) h hrb hflag hne htext
      refine .of_inside hinside hok (by rwa [h.effects]) fun hr => ?_
      obtain ⟨hext, hg, hprev⟩ := hrec hr
      obtain ⟨hbase, hstarted⟩ := hguard.savepoint huse.started hg hext (hprev h.trans)
      exact ⟨hext, by rw [hbase, h.effects], hguard.accessed huse.started hg, .inl hstarted⟩

/-- A statement whose first fetch follows in a text of its own. -/
theorem attempted_twice (huse : Usable c) (hrb : stmt.rb_or_tc = .rb_stmt) (hflag : flag.Plain)
    (hquery : query = works ws) {ws' : List Work} (happend : appendq = works ws')
    (hne' : appendq.isEmpty = false)
    (hrec : (refused ws || refused ws') = true → Recoverable o c stmt false)
    (hok : (CC_send_query_text o flag (some stmt) query [] c).2 = true) :
    Attempted o c (CC_send_query_text o { flag with go_into_transaction := false } (some stmt)
      appendq [] (CC_send_query_text o flag (some stmt) query [] c).1) := by
  have hflag' : ({ flag with go_into_transaction := false } : QueryFlags).Plain :=
    ⟨hflag.1, hflag.2, hflag.3⟩
  have htext : query ++ [] = works ws := (List.append_nil _).trans hquery
  have htext' : appendq ++ [] = works ws' := (List.append_nil _).trans happend
  cases hne : query.isEmpty with
  | true =>
    rw [CC_send_query_text, if_pos hne] at hok
    cases hok
  | false =>
    rcases huse.state with h | ⟨log, h⟩
    · cases hbegin : flag.go_into_transaction with
      | false =>
        exact .outside h.block (sendText_outside (sendText_outside h hflag hbegin htext) hflag' rfl
          htext')
      | true =>
        obtain ⟨es₁, hfirst, hok₁, hprev, hstarted, haccessed⟩ :=
          sendText_begin (o := o) stmt h hflag hbegin hne htext
        rw [hok₁, Bool.not_eq_true'] at hok
        rw [hok] at hfirst
        obtain ⟨es₂, base₂, hinside, hok₂, -, hguard⟩ :=
          sendText_inside (o := o) hfirst hrb hflag' hne' htext'
        refine .of_inside hinside hok₂ ?_ fun hr => ?_
        · rw [h.effects]
          exact List.nil_suffix
        · have hrec' := hrec (by rw [hr, Bool.or_true])
          have hread : c.opt_previous = true :=
            (hrec'.first h.trans).resolve_left Bool.false_ne_true
          obtain ⟨rfl, -⟩ := hguard.readonly (hprev.trans hread)
          exact ⟨hrec'.connector, h.effects.symm, hguard.accessed hstarted hrec'.guarded,
            .inr h.block⟩
    · obtain ⟨es₁, base₁, hfirst, hok₁, hkept₁, hguard₁⟩ :=
        sendText_inside (o := o) h hrb hflag hne htext
      rw [hok₁, Bool.not_eq_true'] at hok
      rw [hok] at hfirst
      obtain ⟨es₂, base₂, hinside, hok₂, hkept₂, hguard₂⟩ :=
        sendText_inside (o := o) hfirst hrb hflag' hne' htext'
      refine .of_inside hinside hok₂ ?_ fun hr => ?_
      · rw [h.effects]
        exact hkept₁.trans hkept₂
      · have hrec' := hrec (by rw [hr, Bool.or_true])
        obtain ⟨hbase, hstarted₁⟩ := hguard₁.savepoint huse.started hrec'.guarded hrec'.connector
          (hrec'.savepoint h.trans)
        have haccessed := hguard₁.accessed huse.started hrec'.guarded
        obtain ⟨rfl, hstarted₂, hsame⟩ := hguard₂.started hstarted₁
        exact ⟨hrec'.connector, by rw [hbase, h.effects], hsame.trans haccessed, .inl hstarted₂⟩

/-- **A simple query.** With its first fetch appended, or sent after it. -/
theorem attempted_append (huse : Usable c) (hrb : stmt.rb_or_tc = .rb_stmt) (hflag : flag.Plain)
    (htext : query ++ appendq = works ws)
    (hrec : refused ws = true →
      Recoverable o c stmt (appendq.isEmpty || !o.ignore_roundtrip_time)) :
    Attempted o c (CC_send_query_append o flag (some stmt) query appendq c) := by
  unfold CC_send_query_append
  split
  next htwo =>
    simp only [Bool.and_eq_true, Bool.not_eq_true'] at htwo
    obtain ⟨ws₁, ws₂, hquery, happend, hrefused⟩ := works_eq_append htext
    rw [hrefused, htwo.1, htwo.2] at hrec
    dsimp only
    cases hok : (CC_send_query_text o flag (some stmt) query [] c).2 with
    | true =>
      rw [if_pos rfl]
      exact attempted_twice huse hrb hflag hquery happend htwo.1 hrec hok
    | false =>
      have hfirst := attempted_text (o := o) huse hrb hflag
        ((List.append_nil query).trans hquery) fun hr => by
          have hrec' := hrec (by rw [hr, Bool.true_or])
          exact ⟨hrec'.connector, hrec'.guarded, hrec'.savepoint⟩
      rw [if_neg Bool.false_ne_true, ← hok]
      exact hfirst
  next =>
    exact attempted_text huse hrb hflag htext fun hr =>
      ⟨(hrec hr).connector, (hrec hr).guarded, (hrec hr).savepoint⟩

/-! ### A statement executed -/

/-- What the commands of the extended protocol do to a statement in progress. -/
def bindAndExec (bound : Bool) (w : Work) (r : Conn × Bool) : Conn × Option Bool :=
  if !r.2 || !bound then (r.1, none)
  else
    let (c, rs) := r.1.exchange .extended (theirs [.work w])
    let (c, ok) := rs.foldl (fun s r => receiveExtended (.work w) s.1 r) (c, true)
    (c, some ok)

theorem bindAndExec_bound (w : Work) {r : Conn × Bool} (hok : r.2 = true) :
    bindAndExec true w r =
      let x := receiveExtended (.work w) (r.1.exchange .extended (theirs [.work w])).1
        (r.1.server.exec ⟨.work w, false⟩).2
      (x.1, some x.2) := by
  have hquery : r.1.server.query (theirs [.work w]) = _ := Server.query_single
  simp only [bindAndExec, hok, Bool.not_true, Bool.or_self, Bool.false_eq_true, if_false,
    Conn.exchange, hquery]
  rfl

theorem bindAndExec_outside {r : Conn × Bool} (h : Outside r.1) (bound : Bool) (w : Work) :
    Outside (bindAndExec bound w r).1 := by
  cases hgo : r.2 && bound with
  | false =>
    have hr : bindAndExec bound w r = (r.1, none) := by
      rw [bindAndExec, ← Bool.not_and, hgo]
      rfl
    rwa [hr]
  | true =>
    rw [Bool.and_eq_true] at hgo
    rw [hgo.2, bindAndExec_bound w hgo.1]
    exact (receiveExtended_outside h w).1

/-- A statement in progress inside a block, whose savepoint has been seen to. -/
theorem attempted_bindAndExec {bound : Bool} {w : Work} {r : Conn × Bool}
    (h : Inside [] base false r.1) (hok : r.2 = true) (hbase : base.effects = c.server.effects)
    (hrec : (!bound || !w.ok) = true → o.for_extension_connector = false ∧
      r.1.accessed_db = true ∧ (r.1.started_rbpoint = true ∨ c.server.block = none)) :
    Attempted o c ((bindAndExec bound w r).1, (bindAndExec bound w r).2.getD false) := by
  cases bound with
  | false =>
    have hr : bindAndExec false w r = (r.1, none) := by
      rw [bindAndExec, hok]
      rfl
    obtain ⟨hext, -, hstarted⟩ := hrec rfl
    rw [hr]
    exact .inside h (fun hok => nomatch hok) fun _ =>
      ⟨hbase, fun _ => rfl, fun _ => rfl, fun _ => ⟨hext, hstarted⟩⟩
  | true =>
    rw [bindAndExec_bound w hok]
    obtain ⟨es', hinside, hsame, hok'⟩ := receiveExtended_inside h w
    refine .of_inside hinside (by rw [Bool.not_not]; exact hok') ?_ fun hr => ?_
    · rw [← hbase]
      exact List.suffix_append _ _
    · obtain ⟨hext, hacc, hstarted⟩ := hrec (by rw [hr, Bool.or_true])
      refine ⟨hext, hbase, hsame.accessed.trans hacc, hstarted.imp_left fun hs => ?_⟩
      exact hsame.started.trans hs

theorem libpq_bind_and_exec_eq (bound : Bool) (w : Work) :
    libpq_bind_and_exec o stmt bound (.work w) c =
      bindAndExec bound w (RequestStart o stmt c) := rfl

/-- **The extended protocol.** -/
theorem attempted_extended (huse : Usable c) (hrb : stmt.rb_or_tc = .rb_stmt) (begins bound : Bool)
    (w : Work) (hbegins : begins = true → c.in_trans = false)
    (hrec : (!bound || !w.ok) = true → Recoverable o c stmt true) :
    let r := libpq_bind_and_exec o stmt bound (.work w) (if begins then (CC_begin o c).1 else c)
    Attempted o c (r.1, r.2.getD false) := by
  dsimp only
  rw [libpq_bind_and_exec_eq]
  rcases huse.state with h | ⟨log, h⟩
  · cases begins with
    | true =>
      obtain ⟨hinside, hsame, -⟩ := CC_begin_outside (o := o) h
      rw [if_pos rfl]
      obtain ⟨base', hstart, hok, hbase, hguard⟩ :=
        requestStart_inside (o := o) hinside hrb (hsame.started.trans huse.started)
      refine attempted_bindAndExec hstart hok (hbase.trans h.effects.symm) fun hr => ?_
      have hrec' := hrec hr
      exact ⟨hrec'.connector,
        hguard.accessed (hsame.started.trans huse.started) hrec'.guarded, .inr h.block⟩
    | false =>
      obtain ⟨hstate, haccessed⟩ := requestStart_outside (o := o) stmt h
      rw [if_neg Bool.false_ne_true]
      rcases hstate with hout | ⟨hinside, hok⟩
      · exact .outside h.block (bindAndExec_outside hout bound w)
      · refine attempted_bindAndExec hinside hok h.effects.symm fun hr => ?_
        exact ⟨(hrec hr).connector, haccessed (hrec hr).guarded, .inr h.block⟩
  · have hnot : begins = false := by
      cases begins with
      | false => rfl
      | true => exact absurd (h.trans.symm.trans (hbegins rfl)) (by decide)
    rw [hnot, if_neg Bool.false_ne_true]
    obtain ⟨base', hstart, hok, hbase, hguard⟩ := requestStart_inside (o := o) h hrb huse.started
    refine attempted_bindAndExec hstart hok (hbase.trans h.effects.symm) fun hr => ?_
    have hrec' := hrec hr
    obtain ⟨-, hstarted⟩ := hguard.savepoint huse.started hrec'.guarded hrec'.connector
      (hrec'.savepoint h.trans)
    exact ⟨hrec'.connector, hguard.accessed huse.started hrec'.guarded, .inl hstarted⟩

theorem executeBegin_manual (e : ExecuteCall) (h : c.in_autocommit = false) :
    (executeBegin o e c).1 = c ∧ ((executeBegin o e c).2 = true → c.in_trans = false) := by
  have hauto : c.does_autocommit = false := by
    rw [Conn.does_autocommit, h]
    rfl
  unfold executeBegin
  rw [hauto]
  cases htrans : c.in_trans with
  | true => split <;> simp
  | false => split <;> simp

theorem executeEnd_manual (e : ExecuteCall) (b : Bool) (h : c.in_autocommit = false) :
    executeEnd o e b c = c ∨ executeEnd o e b c = c.set_in_manual_trans := by
  have hauto : ∀ d : Conn, d.in_autocommit = false → d.does_autocommit = false := by
    intro d hd
    rw [Conn.does_autocommit, hd]
    rfl
  unfold executeEnd
  split
  · cases b with
    | true => simp [hauto c h]
    | false => simp [hauto c.set_in_manual_trans h]
  · exact .inl rfl

theorem Attempted.manual {r : Conn × Bool} (h : Attempted o c r) : r.1.in_autocommit = false := by
  cases h with
  | outside _ hd => exact hd.manual
  | inside hd _ _ => exact hd.manual

theorem Attempted.set_in_manual_trans {ok : Bool} (h : Attempted o c (d, ok)) :
    Attempted o c (d.set_in_manual_trans, ok) := by
  cases h with
  | outside hc hd =>
    exact .outside hc ⟨hd.manual, hd.block, hd.trans, hd.error, hd.op, hd.internal_svp, hd.started⟩
  | inside hd hok herr =>
    refine .inside ⟨hd.manual, hd.block, hd.trans, hd.error, hd.op, hd.live, hd.armed⟩ hok fun h => ?_
    obtain ⟨heffects, hclean, huntouched, hsavepoint⟩ := herr h
    exact ⟨heffects, hclean, huntouched, hsavepoint⟩

theorem Usable.manual (h : Usable c) : c.in_autocommit = false := by
  rcases h.state with h | ⟨log, h⟩
  · exact h.manual
  · exact h.manual

theorem attempted_executeSend {e : ExecuteCall} (huse : Usable c) (hrb : e.stmt.rb_or_tc = .rb_stmt)
    {begins : Bool} (hbegins : begins = true → c.in_trans = false)
    (hplain : e.execution.text.all Command.isWork = true)
    (hrec : e.execution.refused = true → Recoverable o c e.stmt (e.execution.inOneGo o)) :
    Attempted o c ((executeSend o e begins c).1, (executeSend o e begins c).2.getD false) := by
  obtain ⟨stmt, useCursor, isSelectType, execution, commit_ok, commit_notice⟩ := e
  cases execution with
  | simple query appendq =>
    obtain ⟨ws, htext, hrefused⟩ := exists_works hplain
    exact attempted_append huse hrb ⟨rfl, rfl, rfl⟩ htext fun hr => hrec (hrefused.trans hr)
  | extended bound command =>
    cases command with
    | work w => exact attempted_extended huse hrb begins bound w hbegins hrec
    | _ => exact absurd hplain (by simp [Execution.text, Command.isWork])

theorem attempted_execute {e : ExecuteCall} (huse : Usable c) (hrb : e.stmt.rb_or_tc = .rb_stmt)
    (hplain : e.execution.text.all Command.isWork = true)
    (hrec : e.execution.refused = true → Recoverable o c e.stmt (e.execution.inOneGo o)) :
    Attempted o c (SC_execute o e c) := by
  obtain ⟨hconn, hbegins⟩ := executeBegin_manual (o := o) e huse.manual
  have hsend := attempted_executeSend (o := o) huse hrb hbegins hplain hrec
  unfold SC_execute
  dsimp only
  rw [hconn]
  generalize executeSend o e (executeBegin o e c).2 c = x at hsend
  obtain ⟨d, ok⟩ := x
  cases ok with
  | none => exact hsend
  | some ok =>
    rcases executeEnd_manual (o := o) e c.in_trans hsend.manual with hend | hend
    · dsimp only at hend ⊢
      rwa [hend]
    · dsimp only at hend ⊢
      rw [hend]
      exact hsend.set_in_manual_trans

/-- **Sending a statement.** -/
theorem attempted_send {call : StatementCall} (huse : Usable c) (h8 : o.version_ge_8_0 = true)
    (hsound : (AppCall.statement call).Sound o c) : Attempted o c (call.send o c) := by
  have hrb : ∀ stmt : Stmt, StartRollbackState o 2 stmt = { stmt with rb_or_tc := .rb_stmt } := by
    intro stmt
    simp [StartRollbackState, h8]
  obtain ⟨hplain, hrec⟩ := hsound
  cases call with
  | query stmt go_into_transaction read_only text =>
    obtain ⟨ws, htext, hrefused⟩ := exists_works hplain
    rw [StatementCall.send, hrb]
    refine attempted_append huse rfl ⟨rfl, rfl, rfl⟩ htext fun hr => ?_
    obtain ⟨hext, hg, hsavepoint, hfirst⟩ := hrec (hrefused.trans hr)
    exact ⟨hext, hg, hsavepoint, hfirst⟩
  | execute e =>
    rw [StatementCall.send, hrb]
    refine attempted_execute huse rfl hplain fun hr => ?_
    obtain ⟨hext, hg, hsavepoint, hfirst⟩ := hrec hr
    exact ⟨hext, hg, hsavepoint, hfirst⟩

/-! ### The clearing up -/

theorem Outside.usable (h : Outside c) : Usable c.start_stmt :=
  ⟨rfl, rfl, .inl ⟨h.manual, h.block, h.trans, h.error, h.op, h.internal_svp, rfl⟩⟩

theorem Inside.usable (h : Inside es base false c) : Usable c.start_stmt := by
  refine ⟨rfl, rfl, .inr ⟨es.map Entry.effect ++ base, h.manual, ?_, h.trans, h.error, h.op, ?_,
    fun hs => nomatch hs⟩⟩
  · rw [List.map_nil, List.nil_append]
    exact h.block
  · rw [Log.latest_effects]
    exact h.live

theorem Outside.next_opt (h : Outside c) : Outside c.next_opt :=
  ⟨h.manual, h.block, h.trans, h.error, h.op, h.internal_svp, h.started⟩

theorem Inside.next_opt (h : Inside es base failed c) : Inside es base failed c.next_opt :=
  ⟨h.manual, h.block, h.trans, h.error, h.op, h.live, h.armed⟩

/-- `DiscardStatementSvp` after a statement that succeeds. -/
theorem discard_success (hrb : stmt.rb_or_tc = .rb_stmt) :
    DiscardStatementSvp o stmt .other false c =
      (if c.accessed_db then c.next_opt else c).start_stmt := by
  simp [DiscardStatementSvp, hrb]

/-- `DiscardStatementSvp` after a statement that fails. -/
theorem discard_error (hrb : stmt.rb_or_tc = .rb_stmt) :
    DiscardStatementSvp o stmt .error false c =
      (if !c.accessed_db || !c.in_trans then c
        else if c.started_rbpoint && c.internal_svp then (CC_internal_rollback_statement c).1
        else if !o.for_extension_connector then (CC_abort o c).1 else c).start_stmt := by
  simp only [DiscardStatementSvp, hrb]
  split
  · rfl
  · simp only [reduceCtorEq, if_false, if_true]
    split
    · rfl
    · split <;> rfl

/-- A statement that fails is undone. -/
theorem discard_failed (h : Attempted o c (d, false)) (hrb : stmt.rb_or_tc = .rb_stmt) :
    Usable (DiscardStatementSvp o stmt .error false d) ∧
      c.server.Kept (DiscardStatementSvp o stmt .error false d).server := by
  rw [discard_error hrb]
  cases h with
  | outside hc hd =>
    have hstart : (!d.accessed_db || !d.in_trans) = true := by rw [hd.trans, Bool.not_false, Bool.or_true]
    have hopen : c.server.isOpen = false := by rw [Server.isOpen, hc]; rfl
    rw [if_pos hstart]
    refine ⟨hd.usable, fun h => absurd (h.symm.trans hopen) (by decide), ?_, ?_⟩
    · exact Server.failed_of_idle hd.block
    · rw [Server.effects, Server.effects, hc]
      exact hd.effects
  | @inside d ok es base failed hd hok herr =>
    obtain ⟨heffects, hclean, huntouched, hsavepoint⟩ := herr rfl
    have hkept : ∀ e : Conn, Inside [] base false e → c.server.Kept e.server := fun e he =>
      ⟨fun _ => by rw [Server.isOpen, he.block]; rfl, Server.failed_of_block he.block,
        he.effects.trans heffects⟩
    cases haccessed : d.accessed_db with
    | false =>
      cases huntouched haccessed
      cases hclean rfl
      exact ⟨hd.usable, hkept d hd⟩
    | true =>
      obtain ⟨hext, hsave⟩ := hsavepoint haccessed
      rw [hd.trans, hext]
      cases hstarted : d.started_rbpoint with
      | true =>
        obtain ⟨hsvp, older, rfl⟩ := hd.armed hstarted
        obtain ⟨hback, -⟩ := CC_internal_rollback_statement_inside hd hsvp hclean
        rw [hsvp]
        exact ⟨hback.usable, hkept (CC_internal_rollback_statement d).1 hback⟩
      | false =>
        have hc : c.server.block = none :=
          hsave.resolve_left (by rw [hstarted]; decide)
        have hopen : c.server.isOpen = false := by rw [Server.isOpen, hc]; rfl
        obtain ⟨hback, -⟩ := CC_abort_inside (o := o) hd
        refine ⟨hback.usable, fun h => absurd (h.symm.trans hopen) (by decide), ?_, ?_⟩
        · exact Server.failed_of_idle hback.block
        · rw [Server.effects, Server.effects, hc]
          exact hback.effects

/-- A statement that succeeds stays. -/
theorem discard_ok (h : Attempted o c (d, true)) (hrb : stmt.rb_or_tc = .rb_stmt) :
    Usable (DiscardStatementSvp o stmt .other false d) ∧
      c.server.effects <:+ (DiscardStatementSvp o stmt .other false d).server.effects := by
  rw [discard_success hrb]
  have hserver : (if d.accessed_db then d.next_opt else d).start_stmt.server = d.server := by
    cases d.accessed_db <;> rfl
  rw [hserver]
  cases h with
  | outside hc hd =>
    refine ⟨?_, ?_⟩
    · split
      · exact hd.next_opt.usable
      · exact hd.usable
    · rw [Server.effects, hc]
      exact List.nil_suffix
  | inside hd hok herr =>
    obtain ⟨rfl, hkept⟩ := hok rfl
    refine ⟨?_, ?_⟩
    · split
      · exact hd.next_opt.usable
      · exact hd.usable
    · rwa [hd.effects]

/-! ### Runs -/

/-- The end of a transaction leaves the connection usable. -/
theorem PGAPI_Transact_usable (h : Usable c) (commit ok notice : Bool) :
    Usable (PGAPI_Transact o commit ok notice c).1 := by
  rw [PGAPI_Transact]
  split
  next hopen =>
    rcases h.state with hc | ⟨log, hc⟩
    · rw [hc.trans, Bool.and_false] at hopen
      cases hopen
    · have hend : Outside (if commit then CC_commit o ok notice c else CC_abort o c).1 ∧
          (if commit then CC_commit o ok notice c else CC_abort o c).1.accessed_db = false := by
        split
        · exact CC_commit_inside hc ok notice
        · exact CC_abort_inside hc
      generalize (if commit then CC_commit o ok notice c else CC_abort o c) = r at hend
      obtain ⟨d, done⟩ := r
      obtain ⟨hd, haccessed⟩ := hend
      dsimp only at hd haccessed ⊢
      split
      · exact ⟨haccessed, hd.started, .inl hd⟩
      · have habort : CC_on_abort d = { d.svp_init.start_stmt with on_aborts := d.on_aborts + 1 } := by
          rw [CC_on_abort, if_neg (by rw [hd.trans]; decide)]
        rw [habort]
        exact ⟨rfl, rfl, .inl ⟨hd.manual, hd.block, hd.trans, hd.error, rfl, rfl, rfl⟩⟩
  · exact h

/-- **A statement.** From a usable connection, one that fails is undone, one that succeeds stays,
and the connection is usable again. -/
theorem statement_undone {call : AppCall} (h : Usable c) (h8 : o.version_ge_8_0 = true)
    (hsound : call.Sound o c) : call.Undone o c ∧ Usable ((appMachine o).step c call).1 := by
  cases call with
  | endTran commit ok notice => exact ⟨trivial, PGAPI_Transact_usable h commit ok notice⟩
  | statement call =>
    have hrb : (StartRollbackState o 2 call.stmt).rb_or_tc = .rb_stmt := by
      simp [StartRollbackState, h8]
    have hsend := attempted_send h h8 hsound
    have hrun : call.run o c = (DiscardStatementSvp o (StartRollbackState o 2 call.stmt)
        (if (call.send o c).2 then .other else .error) false (call.send o c).1,
          (call.send o c).2) := rfl
    have hstep : (appMachine o).step c (.statement call) = call.run o c := rfl
    rw [AppCall.Undone, hstep, hrun]
    generalize call.send o c = r at hsend ⊢
    obtain ⟨d, ok⟩ := r
    cases ok with
    | true =>
      obtain ⟨huse, hkept⟩ := discard_ok hsend hrb
      exact ⟨⟨(nomatch ·), fun _ => hkept⟩, huse⟩
    | false =>
      obtain ⟨huse, hkept⟩ := discard_failed hsend hrb
      exact ⟨⟨fun _ => hkept, (nomatch ·)⟩, huse⟩

theorem manual_usable : Usable .manual :=
  ⟨rfl, rfl, .inl ⟨rfl, rfl, rfl, rfl, rfl, rfl, rfl⟩⟩

/-- **Statement-level rollback.** In a run of statements without transaction control, in which each
one that the server refuses has a savepoint set for it or is the first of its transaction, every
statement that fails is undone and nothing else is. -/
theorem statements_undone (o : SavepointOptions) (h8 : o.version_ge_8_0 = true)
    (calls : List AppCall) (h : (appMachine o).AllSteps (fun c call => call.Sound o c) .manual calls) :
    (appMachine o).AllSteps (fun c call => call.Undone o c) .manual calls :=
  Machine.allSteps_of (fun _ _ hc hs => statement_undone hc h8 hs) manual_usable h

/-- An insert, a second one that fails, and a third; then the end of the transaction. -/
theorem statements_undone_insert :
    (appMachine ⟨false, false, true⟩).AllSteps
      (fun c call => call.Undone ⟨false, false, true⟩ c) .manual
      [.statement (.execute (insertCall 1 true)), .statement (.execute (insertCall 2 false)),
        .statement (.execute (insertCall 3 true)), .endTran true true false] :=
  statements_undone _ rfl _ (by decide)

/-- An insert, a query that only reads, and an insert that fails: the driver aborts the
transaction, and the first insert is lost. -/
theorem insert_lost :
    ¬(appMachine ⟨false, false, true⟩).AllSteps
      (fun c call => call.Undone ⟨false, false, true⟩ c) .manual
      [.statement (.execute (insertCall 1 true)),
        .statement (.query ⟨.other, .none, true, true⟩ false true
          [.work ⟨none, true, false, true⟩]),
        .statement (.execute (insertCall 2 false))] := by
  intro h
  have hlost := h.2.2.1.1 (by decide)
  exact absurd hlost.effects (by decide)

end OdbcDriver
