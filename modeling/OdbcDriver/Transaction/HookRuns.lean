import OdbcDriver.Transaction.Hooks

/-!
# Hooks over whole runs

The exchanges that make up a call keep the flags and the hooks in step with the server, as long
as the driver hears the end of every transaction; so do the calls, and every run of calls.
-/

namespace OdbcDriver

variable {o : SavepointOptions} {c d : Conn} {s : Server} {x : Sent} {cs : List Sent}

/-! ### Texts that leave a block open -/

/-- The command ends no block and begins none. -/
def Command.keepsBlock : Command → Bool
  | .savepoint _ | .rollbackTo _ | .release _ | .work _ => true
  | _ => false

theorem Server.exec_keeps (hx : x.command.keepsBlock = true) (hopen : s.isOpen = true) :
    (s.exec x).1.isOpen = true ∧ (s.exec x).1.committed = s.committed ∧
      (s.exec x).1.aborted = s.aborted := by
  obtain ⟨command, internal⟩ := x
  rw [Server.isOpen, Option.isSome_iff_exists] at hopen
  obtain ⟨b, hblock⟩ := hopen
  cases command with
  | start => cases hx
  | begin_ => cases hx
  | commit => cases hx
  | rollback => cases hx
  | savepoint name =>
    rw [Server.exec, hblock]
    dsimp only
    split <;> simp [Server.fail, Server.isOpen, hblock]
  | rollbackTo name =>
    rw [Server.exec, hblock]
    dsimp only
    split <;> simp [Server.fail, Server.isOpen, hblock]
  | release name =>
    rw [Server.exec, hblock]
    dsimp only
    split
    · simp [Server.fail, Server.isOpen, hblock]
    · split <;> simp [Server.fail, Server.isOpen, hblock]
  | work w =>
    rw [Server.exec, hblock]
    dsimp only
    split
    · simp [Server.fail, Server.isOpen, hblock]
    · split <;> simp [Server.fail, Server.isOpen, hblock]

theorem Server.query_keeps (hcs : cs.all (·.command.keepsBlock) = true)
    (hopen : s.isOpen = true) :
    (s.query cs).1.isOpen = true ∧ (s.query cs).1.committed = s.committed ∧
      (s.query cs).1.aborted = s.aborted := by
  induction cs generalizing s with
  | nil => exact ⟨hopen, rfl, rfl⟩
  | cons x cs ih =>
    rw [List.all_cons, Bool.and_eq_true] at hcs
    obtain ⟨hopen', hcommitted, haborted⟩ := Server.exec_keeps hcs.1 hopen
    cases hx : (s.exec x).2.failed with
    | true =>
      rw [Server.query_cons_of_failed hx]
      exact ⟨hopen', hcommitted, haborted⟩
    | false =>
      rw [Server.query_cons_of_ok hx]
      obtain ⟨h, hc, ha⟩ := ih hcs.2 hopen'
      exact ⟨h, hc.trans hcommitted, ha.trans haborted⟩

/-- The hooks have kept step with a server that is in a transaction, whatever the flags say. -/
structure Conn.InStep (c : Conn) : Prop where
  isOpen : c.server.isOpen = true
  commits : c.on_commits = c.server.committed
  aborts : c.on_aborts = c.server.aborted
  op : c.internal_op ≠ .prepend_in_progress

theorem Conn.InStep.update (h : c.InStep) :
    (LIBPQ_update_transaction_status c.server.status c).Tracked :=
  tracked_update_open h.isOpen h.commits h.aborts h.op

/-- A text that leaves the block open leaves the hooks in step. -/
theorem Conn.InStep.exchanged {p : Protocol} (h : c.InStep) (hd : Exchanged p cs c d)
    (hcs : cs.all (·.command.keepsBlock) = true) : d.InStep := by
  obtain ⟨hopen, hcommitted, haborted⟩ := Server.query_keeps hcs h.isOpen
  refine ⟨by rw [hd.server]; exact hopen, ?_, ?_, by rw [hd.internal_op]; exact h.op⟩
  · rw [hd.on_commits, h.commits, hd.server, hcommitted]
  · rw [hd.on_aborts, h.aborts, hd.server, haborted]

theorem Conn.InStep.receives {b b' b'' : Bool} (h : c.InStep) (rs : List Reply) :
    (rs.foldl QueryLoop.receive ⟨c, b, b', b''⟩).conn.InStep := by
  have hsame := receives_same (l := ⟨c, b, b', b''⟩) rs
  have hhooks := receives_hooks (l := ⟨c, b, b', b''⟩) rs
  refine ⟨by rw [hsame.server]; exact h.isOpen, ?_, ?_, receives_op rs h.op⟩
  · rw [hhooks.1, hsame.server]
    exact h.commits
  · rw [hhooks.2, hsame.server]
    exact h.aborts

/-- Answers to a rollback run no hook while libpq is still busy. -/
theorem Conn.InStep.receivesRollback (h : c.InStep) (rs : List Reply) (b : Bool) :
    (rs.foldl receiveRollback (c, b)).1.InStep := by
  induction rs generalizing c b with
  | nil => exact h
  | cons r rs ih =>
    rw [List.foldl_cons, receiveRollback]
    split
    · refine ih (c := handle_pgres_error (!b) .active c) ?_ b
      rw [handle_pgres_error, LIBPQ_update_transaction_status]
      split <;> exact ⟨h.isOpen, h.commits, h.aborts, h.op⟩
    · exact ih h true

theorem Conn.InStep.handle (h : c.InStep) (error : Bool) :
    (handle_pgres_error error c.server.status c).Tracked := by
  unfold handle_pgres_error
  cases error && c.in_trans with
  | true =>
    exact Conn.InStep.update (c := { c with in_error_trans := true })
      ⟨h.isOpen, h.commits, h.aborts, h.op⟩
  | false => exact h.update

theorem Conn.Tracked.inStep (h : c.Tracked) (htrans : c.in_trans = true) : c.InStep :=
  ⟨h.trans.symm.trans htrans, h.commits, h.aborts, h.op⟩

theorem Conn.Tracked.of_memory (h : c.Tracked) (hd : SameMemory d c)
    (hop : d.internal_op ≠ .prepend_in_progress) : d.Tracked :=
  ⟨by rw [hd.in_trans, hd.server, h.trans], by rw [hd.in_error_trans, hd.server, h.error],
    by rw [hd.on_commits, hd.server, h.commits], by rw [hd.on_aborts, hd.server, h.aborts], hop⟩

theorem Conn.Tracked.update (h : c.Tracked) :
    (LIBPQ_update_transaction_status c.server.status c).Tracked := by
  cases hopen : c.server.isOpen with
  | true => exact tracked_update_open hopen h.commits h.aborts h.op
  | false =>
    refine tracked_update_idle hopen (h.trans.trans hopen) ?_ h.commits h.aborts h.op
    exact h.error.trans (Server.idle_of_not_open hopen).2

/-! ### The exchanges -/

theorem sendQuery_tracked {flag : QueryFlags} {query appendq : List Command}
    (hflag : (flag.rollback_on_error && considerRollback flag query c) = false)
    (h : (∀ x ∈ c.exchanges, x.Heard) → (c.set_internal_op .none).Tracked ∧
      (c.internal_op = .prepend_in_progress → c.in_trans = true)) :
    (sendQuery o flag query appendq c).1.Hears := by
  intro hx
  rw [sendQuery_eq hflag] at hx ⊢
  dsimp only at hx ⊢
  generalize hc' : (if issueBegin flag c = false ∧ c.internal_op = .prepend_in_progress then
    c.set_internal_op .savepoint_in_progress else c) = c' at hx ⊢
  have hmem : SameMemory c' c := by
    rw [← hc']
    split
    · exact set_internal_op_memory _
    · exact ⟨.rfl, rfl, rfl, rfl, rfl, rfl⟩
  rw [(update_same _).exchanges, queryLoop, (receives_same _).exchanges, Conn.exchange,
    List.forall_mem_cons] at hx
  obtain ⟨hheard, hrest⟩ := hx
  obtain ⟨htracked, hprepend⟩ := h fun x hmem' => hrest x (by rw [hmem.exchanges]; exact hmem')
  refine queryLoop_tracked (.inl rfl) false _ (htracked.of_memory ?_ ?_) hheard
  · exact ⟨⟨hmem.server, hmem.exchanges, hmem.strays⟩, hmem.in_trans, hmem.in_error_trans,
      hmem.internal_svp, hmem.on_commits, hmem.on_aborts⟩
  · -- a savepoint command that waits is prepended: no transaction is begun
    rw [← hc']
    split
    · rintro ⟨⟩
    next hnot =>
      intro hop
      refine hnot ⟨?_, hop⟩
      rw [issueBegin, hprepend hop]
      cases flag.go_into_transaction <;> rfl

theorem sendSavepoint_hears (h : c.Hears) : (sendSavepoint c).1.Hears := by
  intro hx
  rw [sendSavepoint] at hx ⊢
  rw [(set_internal_op_memory _).exchanges, (update_same _).exchanges, queryLoop,
    (receives_same _).exchanges, Conn.exchange, List.forall_mem_cons] at hx
  obtain ⟨hheard, hrest⟩ := hx
  have hc : (c.set_internal_op .savepoint_in_progress).Tracked :=
    (h hrest).of_memory (set_internal_op_memory _) (by rintro ⟨⟩)
  have hmain := queryLoop_tracked (.inl rfl) false (savepointCommand c) hc hheard
  exact hmain.of_memory (set_internal_op_memory _) (by rintro ⟨⟩)

theorem CC_internal_rollback_statement_hears (h : c.Hears) (hsvp : c.internal_svp = true) :
    (CC_internal_rollback_statement c).1.Hears := by
  unfold CC_internal_rollback_statement
  split
  · exact h
  next herror =>
    rw [Bool.not_eq_true', Bool.not_eq_false] at herror
    obtain ⟨d, hd, hexch⟩ := exchange_eq .recovery [rollbackCommand c] c
    have hstep : (∀ x ∈ d.exchanges, x.Heard) → d.InStep := by
      intro hx
      rw [hexch.exchanges, List.forall_mem_cons] at hx
      have hc := h hx.2
      -- only an open transaction has failed
      have hopen : c.server.isOpen = true := by
        rw [← Bool.not_eq_false]
        intro hidle
        have hfailed := hc.error.symm.trans herror
        rw [(Server.idle_of_not_open hidle).2] at hfailed
        cases hfailed
      refine (hc.inStep (hc.trans.trans hopen)).exchanged hexch ?_
      rw [rollbackCommand, if_pos hsvp]
      rfl
    rw [hd]
    dsimp only
    split
    · intro hx
      rw [(handle_same _ _).exchanges] at hx
      exact (hstep hx).handle true
    · intro hx
      rw [(update_same _).exchanges] at hx
      exact (hstep hx).update

/-- One command in the extended protocol: the driver sets its flags by the status, and runs no
hook. -/
theorem receiveExtended_tracked {command : Command} (h : c.Tracked)
    (hd : Exchanged .extended [⟨command, false⟩] c d)
    (hheard : (c.server.exec ⟨command, false⟩).2.failed = true ∨
      d.server.ended = c.server.ended ∧ d.server.failed = c.server.failed) :
    (receiveExtended command d (c.server.exec ⟨command, false⟩).2).1.Tracked := by
  have hserver : d.server = (c.server.exec ⟨command, false⟩).1 := by
    rw [hd.server, Server.query_single]
  have hcommitted := Server.committed_le_exec c.server ⟨command, false⟩
  have haborted := Server.aborted_le_exec c.server ⟨command, false⟩
  rw [← hserver] at hcommitted haborted
  have hop : d.internal_op ≠ .prepend_in_progress := by
    rw [hd.internal_op]
    exact h.op
  have hcounters : d.server.ended = c.server.ended →
      d.on_commits = d.server.committed ∧ d.on_aborts = d.server.aborted := by
    intro hended
    rw [hd.on_commits, hd.on_aborts, h.commits, h.aborts]
    rw [Server.ended, Server.ended] at hended
    omega
  rw [Reply.failed, decide_eq_true_eq] at hheard
  unfold receiveExtended
  cases hout : (c.server.exec ⟨command, false⟩).2.outcome with
  | tag t =>
    have hkept : d.server.ended = c.server.ended ∧ d.server.failed = c.server.failed := by
      rcases hheard with hf | hk
      · rw [hout] at hf
        cases hf
      · exact hk
    obtain ⟨hcommits, haborts⟩ := hcounters hkept.1
    have herror : d.in_error_trans = d.server.failed := by
      rw [hd.in_error_trans, h.error, hkept.2]
    have hset : ({ d with in_trans := true } : Conn).server.isOpen = true →
        ({ d with in_trans := true } : Conn).Tracked := fun hopen =>
      ⟨hopen.symm, herror, hcommits, haborts, hop⟩
    dsimp only
    cases hopen : d.server.isOpen with
    | false =>
      obtain ⟨hstatus, hfailed⟩ := Server.idle_of_not_open hopen
      rw [hstatus]
      exact ⟨hopen.symm, hfailed.symm, hcommits, haborts, hop⟩
    | true =>
      have hstatus : d.server.status = .inTrans ∨ d.server.status = .inError := by
        rw [Server.status]
        rw [Server.isOpen, Option.isSome_iff_exists] at hopen
        obtain ⟨b, hblock⟩ := hopen
        rw [hblock]
        dsimp only
        split
        · exact .inr rfl
        · exact .inl rfl
      have hmain := hset hopen
      rcases hstatus with hst | hst <;> rw [hst] <;> dsimp only <;> split
      · exact hmain.of_memory set_in_manual_trans_memory hop
      · exact hmain
      · exact hmain.of_memory set_in_manual_trans_memory hop
      · exact hmain
  | tuples =>
    have hkept : d.server.ended = c.server.ended ∧ d.server.failed = c.server.failed := by
      rcases hheard with hf | hk
      · rw [hout] at hf
        cases hf
      · exact hk
    obtain ⟨hcommits, haborts⟩ := hcounters hkept.1
    refine ⟨?_, by rw [hd.in_error_trans, h.error, hkept.2], hcommits, haborts, hop⟩
    rw [hd.in_trans, h.trans, hserver, Server.isOpen_exec_of_tuples hout]
  | error =>
    dsimp only
    rw [handle_pgres_error]
    have hmain : ∀ d' : Conn, d'.server = d.server → d'.in_trans = d.in_trans →
        (d.in_trans = true → d'.in_error_trans = true) →
          (d.in_trans = false → d'.in_error_trans = d.in_error_trans) →
            d'.on_commits = d.on_commits → d'.on_aborts = d.on_aborts →
              d'.internal_op = d.internal_op →
                (LIBPQ_update_transaction_status d.server.status d').Tracked := by
      intro d' hs hin herr hkeep hc ha ho
      have hop' : d'.internal_op ≠ .prepend_in_progress := by
        rw [ho]
        exact hop
      have hcases := Server.exec_cases c.server ⟨command, false⟩
      rw [← hs]
      rw [← hs] at hserver
      generalize c.server.exec ⟨command, false⟩ = y at hcases hout hserver
      cases hcases with
      | refused n =>
        have hcounts : d'.on_commits = d'.server.committed ∧
            d'.on_aborts = d'.server.aborted := by
          rw [hc, ha, hserver, hd.on_commits, hd.on_aborts, h.commits, h.aborts]
          exact ⟨rfl, rfl⟩
        cases hopen : d'.server.isOpen with
        | true => exact tracked_update_open hopen hcounts.1 hcounts.2 hop'
        | false =>
          have hidle : c.server.isOpen = false := by
            rw [hserver, Server.fail, Server.isOpen] at hopen
            rw [Server.isOpen]
            simpa using hopen
          have hin' : d.in_trans = false := by rw [hd.in_trans, h.trans, hidle]
          refine tracked_update_idle hopen (hin.trans hin') ?_ hcounts.1 hcounts.2 hop'
          rw [hkeep hin', hd.in_error_trans, h.error, (Server.idle_of_not_open hidle).2]
      | undone b n hblock =>
        have hin' : d.in_trans = true := by
          rw [hd.in_trans, h.trans, Server.isOpen, hblock]
          rfl
        refine tracked_update_abort (by rw [hserver]; rfl) (hin.trans hin') (herr hin') ?_ ?_ hop'
        · rw [hc, hserver, hd.on_commits, h.commits]
        · rw [ha, hserver, hd.on_aborts, h.aborts]
      | opened => cases hout
      | warned => cases hout
      | committed => cases hout
      | rolledBack => cases hout
      | marked => cases hout
      | returned => cases hout
      | released => cases hout
      | idle n out hblock hor => rcases hor with rfl | rfl <;> cases hout
      | worked b es n out hblock hb hor => rcases hor with rfl | rfl <;> cases hout
    cases hin : d.in_trans with
    | true => exact hmain _ rfl hin.symm (fun _ => rfl) (fun hf => by rw [hin] at hf; cases hf) rfl rfl rfl
    | false => exact hmain _ rfl rfl (fun hf => by rw [hin] at hf; cases hf) (fun _ => rfl) rfl rfl rfl

/-- The rollback of an internal query leaves the hooks in step, and its status puts the flags
right. -/
theorem CC_internal_rollback_query_tracked (ignore_abort : Bool) (h : c.InStep) :
    let d := (CC_internal_rollback_query ignore_abort c).1
    (LIBPQ_update_transaction_status d.server.status d).Tracked := by
  dsimp only
  unfold CC_internal_rollback_query
  split
  · exact h.update
  · obtain ⟨d, hd, hexch⟩ := exchange_eq .recovery
      [ours (.rollbackTo .per_query_svp), ours (.release .per_query_svp)] c
    have hstep := (h.exchanged hexch rfl).receivesRollback (c.server.query
      [ours (.rollbackTo .per_query_svp), ours (.release .per_query_svp)]).2 false
    rw [hd]
    dsimp only
    generalize List.foldl receiveRollback _ _ = r at hstep ⊢
    have hflag : (if (!r.2 && ignore_abort) = true then r.1.set_no_error_trans else r.1).InStep := by
      split
      · exact ⟨hstep.isOpen, hstep.commits, hstep.aborts, hstep.op⟩
      · exact hstep
    exact hflag.update.update

/-- The clean-up after a query that has left its block open. -/
theorem rollbackOnError_tracked {l : QueryLoop} (flag : QueryFlags) (b b' : Bool)
    (h : l.conn.InStep) :
    let d := (rollbackOnError flag b b' l).1
    (LIBPQ_update_transaction_status d.server.status d).Tracked := by
  dsimp only
  unfold rollbackOnError
  split
  next hcond =>
    simp only [Bool.and_eq_true] at hcond
    have htrans := hcond.1.2
    split
    · exact CC_internal_rollback_query_tracked _ h
    · split
      next herror =>
        -- `ROLLBACK` ends the block; the flags still say that it has failed
        obtain ⟨d, hd, hexch⟩ := exchange_eq .recovery [ours .rollback] l.conn
        rw [hd]
        have hopen := h.isOpen
        rw [Server.isOpen, Option.isSome_iff_exists] at hopen
        obtain ⟨blk, hblock⟩ := hopen
        have hserver : d.server = { l.conn.server with
            block := none, aborted := l.conn.server.aborted + 1 } := by
          rw [hexch.server, Server.query_single]
          simp [Server.exec, ours, hblock]
        refine tracked_update_abort (by rw [hserver]; rfl) (hexch.in_trans.trans htrans)
          (hexch.in_error_trans.trans herror) ?_ ?_ (by rw [hexch.internal_op]; exact h.op)
        · rw [hserver, hexch.on_commits, h.commits]
        · rw [hserver, hexch.on_aborts, h.aborts]
      · exact h.update
  · exact h.update

theorem internalQuery_tracked (read_only : Bool) (w : Work) (h : c.Tracked)
    (htrans : c.in_trans = true) (herror : c.in_error_trans = false) :
    (sendQuery o (internalFlags read_only) [.work w] [] c).1.Tracked := by
  rw [sendQuery_internal read_only w htrans herror h.op]
  refine rollbackOnError_tracked _ _ _ ?_
  have hloop : ∀ (p : Protocol) (b : Bool) (text : List Sent),
      text.all (·.command.keepsBlock) = true → (queryLoop p b text c).conn.InStep := by
    intro p b text htext
    obtain ⟨d, hd, hexch⟩ := exchange_eq p text c
    rw [queryLoop, hd]
    exact ((h.inStep htrans).exchanged hexch htext).receives _
  split
  · exact hloop _ _ _ rfl
  · exact hloop _ _ _ rfl

/-! ### Runs -/

/-- Exchanges the driver hears the end of keep the flags and the hooks in step. -/
theorem preserved_hears (o : SavepointOptions) :
    Preserved o Conn.Hears (fun c => (∀ x ∈ c.exchanges, x.Heard) →
      (c.set_internal_op .none).Tracked ∧
        (c.internal_op = .prepend_in_progress → c.in_trans = true)) where
  ready h hx := ⟨(h hx).of_memory (set_internal_op_memory _) (fun h => nomatch h),
    fun hop => absurd hop (h hx).op⟩
  flags h hd hop hx := by
    rw [hd.exchanges] at hx
    exact (h hx).of_memory hd (by rw [hop]; exact (h hx).op)
  update h hx := (h fun x hmem => hx x ((update_same _).grows x hmem)).update
  prepend h htrans _ hx :=
    ⟨(h hx).of_memory ⟨⟨rfl, rfl, rfl⟩, rfl, rfl, rfl, rfl, rfl⟩ (fun h => nomatch h),
      fun _ => htrans⟩
  send _ _ _ hflag h := sendQuery_tracked hflag h
  savepoint h _ _ := sendSavepoint_hears h
  statement := CC_internal_rollback_statement_hears
  extended command h hexch hx := by
    rw [(receiveExtended_same _).exchanges, hexch.exchanges, List.forall_mem_cons] at hx
    refine receiveExtended_tracked (h hx.2) hexch ?_
    have hheard := hx.1.2 rfl
    rw [Exchange.replies, Exchange.after, ← hexch.server, Server.query_single] at hheard
    simpa using hheard
  internal read_only w h htrans herror hx :=
    internalQuery_tracked read_only w (h fun x hmem => hx x (sendQuery_grows o _ _ _ x hmem))
      htrans herror

theorem fresh_hears : Conn.fresh.Hears := fun _ => ⟨rfl, rfl, rfl, rfl, fun h => nomatch h⟩

end OdbcDriver
