import OdbcDriver.Transaction.LiveSavepoints

/-!
# Live savepoints over whole runs

Every call of the driver keeps its memory of the transaction right, as long as the exchanges are
safe; so a run of safe exchanges sends no `ROLLBACK TO` or `RELEASE` in vain.
-/

namespace OdbcDriver

variable {o : SavepointOptions} {c d : Conn} {s : Server}

/-! ### The driver's memory -/

theorem Conn.Steady.of_memory (h : c.Steady) (hd : SameMemory d c) (hop : d.internal_op = .none) :
    d.Steady where
  trans := by rw [hd.in_trans, h.trans, hd.server]
  failed hf := by
    rw [hd.in_error_trans]
    rw [hd.server] at hf
    exact h.failed hf
  live hs := by
    rw [hd.server]
    rw [hd.internal_svp] at hs
    exact h.live hs
  op := hop
  strays := hd.strays.trans h.strays

theorem Conn.Safe.of_memory (h : c.Safe) (hd : SameMemory d c)
    (hop : d.internal_op = c.internal_op) : d.Safe := by
  intro hx
  rw [hd.exchanges] at hx
  exact (h hx).of_memory hd (hop.trans (h hx).op)

theorem Conn.Safe.ready (h : c.Safe) : (∀ x ∈ c.exchanges, x.Safe) → c.Ready :=
  fun hx => (h hx).ready

theorem Conn.Steady.update (h : c.Steady) :
    (LIBPQ_update_transaction_status c.server.status c).Steady :=
  steady_update h.op h.strays
    (fun hs => h.trans.trans (Server.isOpen_of_execLive (h.live hs))) (fun hs _ => h.live hs)

/-! ### Queries -/

/-- The savepoint commands travel alone. -/
theorem sendSavepoint_safe (h : c.Safe) (htrans : c.in_trans = true)
    (herror : c.in_error_trans = false) : (sendSavepoint c).1.Safe := by
  intro hx
  rw [sendSavepoint] at hx ⊢
  rw [(set_internal_op_memory _).exchanges, (update_same _).exchanges, queryLoop,
    (receives_same _).exchanges, Conn.exchange, List.forall_mem_cons] at hx
  obtain ⟨hsafe, hrest⟩ := hx
  have hc := h hrest
  obtain ⟨b, hblock, hb⟩ := hc.ready.block htrans herror
  let c' := c.set_internal_op .savepoint_in_progress
  have hpre := savepointCommand_settled (c := c') hblock hb hc.live htrans rfl
    (d := (c'.exchange .simple (savepointCommand c' ++ theirs [])).1) rfl rfl
  have htext : savepointCommand c' ++ theirs [] = savepointCommand c := List.append_nil _
  have hmem : ours (.savepoint .exec_svp) ∈ savepointCommand c := by
    rw [savepointCommand]
    split <;> simp
  have hmain := queryLoop_settled (c := c') (p := .simple) _ [] hpre.1 hc.strays hpre.2.1
    hpre.2.2 (by rw [htext]; exact hsafe.1 rfl (.inr hmem))
  rw [htext] at hmain
  exact hmain.of_memory (set_internal_op_memory _) rfl

/-! ### Queries to be rolled back on error -/

/-- The server after an internal query that succeeds: with the effect of the command. -/
theorem query_perQueryText_ok {b : Block} {w : Work} (hblock : s.block = some b)
    (hb : b.failed = false) (hok : w.ok = true) :
    ∃ t n out, s.query (perQueryText w) = (t, [⟨false, .tag .savepoint⟩, ⟨n, out⟩,
        ⟨false, .tag .release⟩]) ∧ (out = .tuples ∨ out = .tag .other) ∧
      t = { s with block := some { b with log := w.effect.toList.map .effect ++ b.log } } ∧
        s.strays (perQueryText w) = [] := by
  have hsave := Server.exec_savepoint .per_query_svp hblock hb
  have hsave' : (s.exec (ours (.savepoint .per_query_svp))).2.failed = false := by
    rw [hsave]
    rfl
  let s₁ : Server := { s with
    block := some { b with log := .savepoint ⟨.per_query_svp, true⟩ :: b.log } }
  have hwork : s₁.exec ⟨.work w, false⟩ = ({ s₁ with block := some { b with
      log := w.effect.toList.map .effect ++ .savepoint ⟨.per_query_svp, true⟩ :: b.log } },
      ⟨w.notice, if w.tuples then .tuples else .tag .other⟩) := by
    simp [Server.exec, s₁, hb, hok]
  have hwork' : (s₁.exec ⟨.work w, false⟩).2.failed = false := by
    rw [hwork]
    cases w.tuples <;> rfl
  let s₂ : Server := { s₁ with block := some { b with
    log := w.effect.toList.map .effect ++ .savepoint ⟨.per_query_svp, true⟩ :: b.log } }
  have hlatest : s₂.latest .per_query_svp = some ⟨.per_query_svp, true⟩ := by
    rw [Server.latest, Option.bind_some, Log.latest_effects, Log.latest_savepoint_self rfl]
  have hrelease := Server.exec_release (s := s₂) .per_query_svp rfl hb (by rw [hlatest]; rfl)
  have hrelease' : (s₂.exec (ours (.release .per_query_svp))).2.failed = false := by
    rw [hrelease]
    rfl
  have href : s₂.refers (ours (.release .per_query_svp)) = true := by
    simp [Server.refers, ours, hlatest]
  refine ⟨_, w.notice, if w.tuples then .tuples else .tag .other, ?_, Server.tuplesOr _, rfl, ?_⟩
  · rw [perQueryText, Server.query_cons_of_ok hsave', hsave, Server.query_cons_of_ok hwork', hwork,
      Server.query_single, hrelease]
    simp [s₁, s₂, Log.release_effects, Log.release]
  · rw [perQueryText, Server.strays_cons_of_ok hsave', hsave, Server.strays_cons_of_ok hwork',
      hwork, Server.strays_cons_of_ok hrelease', if_pos href]
    rfl

/-- The server after an internal query that fails: the block has failed, above the savepoint. -/
theorem query_perQueryText_error {b : Block} {w : Work} (hblock : s.block = some b)
    (hb : b.failed = false) (hok : w.ok = false) :
    s.query (perQueryText w) =
        ({ s with block := some ⟨.savepoint ⟨.per_query_svp, true⟩ :: b.log, true⟩ },
          [⟨false, .tag .savepoint⟩, ⟨w.notice, .error⟩]) ∧
      s.strays (perQueryText w) = [] := by
  have hsave := Server.exec_savepoint .per_query_svp hblock hb
  have hsave' : (s.exec (ours (.savepoint .per_query_svp))).2.failed = false := by
    rw [hsave]
    rfl
  let s₁ : Server := { s with
    block := some { b with log := .savepoint ⟨.per_query_svp, true⟩ :: b.log } }
  let b₂ : Block := ⟨.savepoint ⟨.per_query_svp, true⟩ :: b.log, true⟩
  have hwork : s₁.exec ⟨.work w, false⟩ = ({ s₁ with block := some b₂ }, ⟨w.notice, .error⟩) := by
    simp [Server.exec, Server.fail, s₁, b₂, hb, hok]
  have hwork' : (s₁.exec ⟨.work w, false⟩).2.failed = true := by
    rw [hwork]
    rfl
  refine ⟨?_, ?_⟩
  · rw [perQueryText, Server.query_cons_of_ok hsave', hsave, Server.query_cons_of_failed hwork',
      hwork]
  · rw [perQueryText, Server.strays_cons_of_ok hsave', hsave, Server.strays_cons_of_failed hwork',
      hwork]
    simp [Server.refers, ours, Server.latest, b₂]

/-- The rollback of an internal query: the block is what it was before the savepoint. -/
theorem query_rollback_perQuery {l : Log Savepoint Nat}
    (hblock : s.block = some ⟨.savepoint ⟨.per_query_svp, true⟩ :: l, true⟩) :
    s.query [ours (.rollbackTo .per_query_svp), ours (.release .per_query_svp)] =
        ({ s with block := some ⟨l, false⟩ },
          [⟨false, .tag .rollback⟩, ⟨false, .tag .release⟩]) ∧
      s.strays [ours (.rollbackTo .per_query_svp), ours (.release .per_query_svp)] = [] := by
  have hlatest : s.latest .per_query_svp = some ⟨.per_query_svp, true⟩ := by
    rw [Server.latest, hblock, Option.bind_some, Log.latest_savepoint_self rfl]
  have hback := Server.exec_rollbackTo .per_query_svp hblock (by rw [hlatest]; rfl)
  rw [Log.rollbackTo_savepoint_self rfl] at hback
  have hback' : (s.exec (ours (.rollbackTo .per_query_svp))).2.failed = false := by
    rw [hback]
    rfl
  let s₁ : Server := { s with block := some ⟨.savepoint ⟨.per_query_svp, true⟩ :: l, false⟩ }
  have hlatest₁ : s₁.latest .per_query_svp = some ⟨.per_query_svp, true⟩ := by
    rw [Server.latest, Option.bind_some, Log.latest_savepoint_self rfl]
  have hrelease := Server.exec_release (s := s₁) .per_query_svp rfl rfl (by rw [hlatest₁]; rfl)
  rw [Log.release_savepoint_self rfl] at hrelease
  have hrelease' : (s₁.exec (ours (.release .per_query_svp))).2.failed = false := by
    rw [hrelease]
    rfl
  have href : ∀ t : Server, t.latest .per_query_svp = some ⟨.per_query_svp, true⟩ →
      t.refers (ours (.rollbackTo .per_query_svp)) = true ∧
        t.refers (ours (.release .per_query_svp)) = true := by
    intro t ht
    simp [Server.refers, ours, ht]
  refine ⟨?_, ?_⟩
  · rw [Server.query_cons_of_ok hback', hback, Server.query_single, hrelease]
  · rw [Server.strays_cons_of_ok hback', hback, Server.strays_cons_of_ok hrelease',
      if_pos (href s hlatest).1, if_pos (href s₁ hlatest₁).2]
    rfl

/-- The loop over the answers to an internal query. -/
theorem receives_perQuery_ok (d : Conn) (n : Bool) {out : Outcome}
    (hout : out = .tuples ∨ out = .tag .other) :
    [⟨false, .tag .savepoint⟩, ⟨n, out⟩, ⟨false, .tag .release⟩].foldl QueryLoop.receive
        ⟨d, true, false, false⟩ =
      ⟨{ d with in_trans := n || d.in_trans }, false, false, false⟩ := by
  rcases hout with rfl | rfl <;> cases n <;> rfl

theorem receives_perQuery_error (d : Conn) (n : Bool) (htrans : d.in_trans = true) :
    [⟨false, .tag .savepoint⟩, ⟨n, .error⟩].foldl QueryLoop.receive ⟨d, true, false, false⟩ =
      ⟨{ d with in_trans := true, in_error_trans := true }, false, true, true⟩ := by
  cases n <;> simp [QueryLoop.receive, QueryLoop.tag, handle_pgres_error,
    LIBPQ_update_transaction_status, htrans]

/-- A command alone in an open block that has not failed. -/
theorem query_work_ok {b : Block} {w : Work} (hblock : s.block = some b) (hb : b.failed = false)
    (hok : w.ok = true) :
    ∃ out, (out = .tuples ∨ out = .tag .other) ∧ s.query (theirs [.work w]) =
      ({ s with block := some { b with log := w.effect.toList.map .effect ++ b.log } },
        [⟨w.notice, out⟩]) := by
  refine ⟨if w.tuples then .tuples else .tag .other, Server.tuplesOr _, ?_⟩
  refine Server.query_single.trans ?_
  simp [Server.exec, hblock, hb, hok]

theorem query_work_error {b : Block} {w : Work} (hblock : s.block = some b)
    (hb : b.failed = false) (hok : w.ok = false) :
    s.query (theirs [.work w]) =
      ({ s with block := some { b with failed := true } }, [⟨w.notice, .error⟩]) := by
  refine Server.query_single.trans ?_
  simp [Server.exec, Server.fail, hblock, hb, hok]

theorem receives_work_ok (d : Conn) (n : Bool) {out : Outcome}
    (hout : out = .tuples ∨ out = .tag .other) :
    [⟨n, out⟩].foldl QueryLoop.receive ⟨d, false, false, false⟩ =
      ⟨{ d with in_trans := n || d.in_trans }, false, false, false⟩ := by
  rcases hout with rfl | rfl <;> cases n <;> rfl

theorem receives_work_error (d : Conn) (n : Bool) (htrans : d.in_trans = true) :
    [⟨n, .error⟩].foldl QueryLoop.receive ⟨d, false, false, false⟩ =
      ⟨{ d with in_trans := true, in_error_trans := true }, false, false, true⟩ := by
  cases n <;> simp [QueryLoop.receive, handle_pgres_error, LIBPQ_update_transaction_status, htrans]

/-- An internal query keeps the driver's memory right. -/
theorem internalQuery_steady (read_only : Bool) (w : Work) (hc : c.Steady)
    (htrans : c.in_trans = true) (herror : c.in_error_trans = false)
    (hsafe : ∀ x ∈ (sendQuery o (internalFlags read_only) [.work w] [] c).1.exchanges, x.Safe) :
    (sendQuery o (internalFlags read_only) [.work w] [] c).1.Steady := by
  obtain ⟨b, hblock, hb⟩ := hc.ready.block htrans herror
  have hopen : c.server.isOpen = true := hc.trans.symm.trans htrans
  -- what a successful command leaves of the savepoint
  have hkept : ∀ (d : Conn) (es : List Nat), d.server =
      { c.server with block := some { b with log := es.map .effect ++ b.log } } →
        d.in_trans = true → d.internal_op = .none → d.internal_svp = c.internal_svp →
          d.strays = [] → (LIBPQ_update_transaction_status d.server.status d).Steady := by
    intro d es hserver hin hop hsvp hstrays
    refine steady_update hop hstrays (fun _ => hin) fun hs _ => ?_
    rw [hserver]
    exact Server.execLive_effects es hblock (hc.live (hsvp ▸ hs))
  rw [sendQuery_internal read_only w htrans herror (by rw [hc.op]; decide)] at hsafe ⊢
  by_cases hper : o.version_ge_8_0 = true ∧ o.for_extension_connector = false
  · simp only [if_pos hper] at hsafe ⊢
    obtain ⟨d, hd, hexch⟩ := exchange_eq .simple (perQueryText w) c
    rw [queryLoop, hd, hper.1]
    dsimp only
    cases hok : w.ok with
    | true =>
      obtain ⟨t, n, out, hquery, hout, ht, hstrays⟩ := query_perQueryText_ok hblock hb hok
      have hserver := hexch.server
      rw [hquery] at hserver ⊢
      rw [receives_perQuery_ok d n hout]
      have hd' : (rollbackOnError (internalFlags read_only) true true
          ⟨{ d with in_trans := n || d.in_trans }, false, false, false⟩).1 =
            { d with in_trans := n || d.in_trans } := by
        simp [rollbackOnError, CC_internal_rollback_query, hexch.in_error_trans, herror]
      rw [hd']
      refine hkept _ w.effect.toList (hserver.trans ht) ?_ (hexch.internal_op.trans hc.op)
        hexch.internal_svp ?_
      · rw [hexch.in_trans, htrans, Bool.or_true]
      · rw [hexch.strays, hstrays, hc.strays]
        rfl
    | false =>
      obtain ⟨hquery, hstrays⟩ := query_perQueryText_error (w := w) hblock hb hok
      have hserver := hexch.server
      rw [hquery] at hserver ⊢
      rw [receives_perQuery_error d w.notice (hexch.in_trans.trans htrans)]
      obtain ⟨hback, hback'⟩ := query_rollback_perQuery (s := d.server) (l := b.log) (by
        rw [hserver])
      obtain ⟨e, he, hexch'⟩ := exchange_eq .recovery
        [ours (.rollbackTo .per_query_svp), ours (.release .per_query_svp)]
        { d with in_trans := true, in_error_trans := true }
      have hrec : (rollbackOnError (internalFlags read_only) true true
          ⟨{ d with in_trans := true, in_error_trans := true }, false, true, true⟩).1 =
            LIBPQ_update_transaction_status e.server.status e := by
        simp only [rollbackOnError, CC_internal_rollback_query, he, hback]
        rfl
      rw [hrec]
      have hstep : (LIBPQ_update_transaction_status e.server.status e).Steady := by
        refine hkept e [] ?_ hexch'.in_trans (hexch'.internal_op.trans
          (hexch.internal_op.trans hc.op)) (hexch'.internal_svp.trans hexch.internal_svp) ?_
        · have hserver' := hexch'.server
          rw [hback, hserver] at hserver'
          rw [hserver', ← hb]
          rfl
        · have hstrays' := hexch'.strays
          rw [hback'] at hstrays'
          rw [hstrays', List.nil_append]
          exact hexch.strays.trans (by rw [hstrays, hc.strays]; rfl)
      exact hstep.update
  · simp only [if_neg hper] at hsafe ⊢
    generalize hp : (if o.version_ge_8_0 then Protocol.unprotected else .simple) = p at hsafe ⊢
    obtain ⟨d, hd, hexch⟩ := exchange_eq p (theirs [.work w]) c
    have hstrays : d.strays = [] := by
      rw [hexch.strays, Server.strays_theirs, hc.strays]
      rfl
    rw [queryLoop, hd] at hsafe ⊢
    dsimp only at hsafe ⊢
    cases hok : w.ok with
    | true =>
      obtain ⟨out, hout, hquery⟩ := query_work_ok hblock hb hok
      have hserver := hexch.server
      rw [hquery] at hserver ⊢
      rw [receives_work_ok d w.notice hout]
      have hd' : (rollbackOnError (internalFlags read_only) true o.version_ge_8_0
          ⟨{ d with in_trans := w.notice || d.in_trans }, false, false, false⟩).1 =
            { d with in_trans := w.notice || d.in_trans } := by
        cases o.version_ge_8_0 <;>
          simp [rollbackOnError, CC_internal_rollback_query, hexch.in_error_trans, herror]
      rw [hd']
      refine hkept _ w.effect.toList hserver ?_ (hexch.internal_op.trans hc.op)
        hexch.internal_svp hstrays
      rw [hexch.in_trans, htrans, Bool.or_true]
    | false =>
      have hquery := query_work_error hblock hb hok
      cases hversion : o.version_ge_8_0 with
      | true =>
        -- without a savepoint the query must not fail
        rw [hversion, if_pos rfl] at hp
        have hmem : (⟨p, c.internal_svp, c.server, theirs [.work w]⟩ : Exchange).Safe := by
          refine hsafe _ ?_
          rw [(update_same _).exchanges]
          refine rollbackOnError_grows _ _ _ _ ?_
          rw [(receives_same _).exchanges, hexch.exchanges]
          exact List.mem_cons_self
        have hall := hmem.2.1 hp.symm hopen
        rw [Exchange.replies, hquery] at hall
        cases hall
      | false =>
        -- an old server rolls the whole transaction back
        rw [hquery, receives_work_error d w.notice (hexch.in_trans.trans htrans)]
        obtain ⟨e, he, hexch'⟩ := exchange_eq .recovery [ours .rollback]
          { d with in_trans := true, in_error_trans := true }
        have hrec : (rollbackOnError (internalFlags read_only) true false
            ⟨{ d with in_trans := true, in_error_trans := true }, false, false, true⟩).1 = e := by
          simp [rollbackOnError, he]
        rw [hrec]
        have hserver := hexch'.server
        have hidle : (d.server.query [ours .rollback]).1.isOpen = false := by
          rw [Server.query_single]
          cases hblock' : d.server.block <;> simp [Server.exec, ours, hblock', Server.isOpen]
        refine steady_update (hexch'.internal_op.trans (hexch.internal_op.trans hc.op)) ?_
          (fun _ => hexch'.in_trans) (fun _ h => ?_)
        · rw [hexch'.strays, List.append_eq_nil_iff]
          refine ⟨?_, hstrays⟩
          rw [Server.strays, if_pos (by rfl), List.nil_append]
          split <;> rfl
        · rw [hserver] at h
          exact absurd (h.symm.trans hidle) (by decide)

/-! ### Clearing up after a statement -/

/-- Back to the remembered savepoint of a statement. -/
theorem CC_internal_rollback_statement_safe (h : c.Safe) (hsvp : c.internal_svp = true) :
    (CC_internal_rollback_statement c).1.Safe := by
  unfold CC_internal_rollback_statement
  split
  · exact h
  · intro hx
    have hsteady : c.Steady := by
      refine h fun x hmem => hx x ?_
      dsimp only
      split
      · rw [(handle_same _ _).exchanges]
        exact List.mem_cons_of_mem _ hmem
      · rw [(update_same _).exchanges]
        exact List.mem_cons_of_mem _ hmem
    have hlive := hsteady.live hsvp
    have hblock := Server.isOpen_of_execLive hlive
    rw [Server.isOpen, Option.isSome_iff_exists] at hblock
    obtain ⟨b, hblock⟩ := hblock
    have hcmd : rollbackCommand c = ours (.rollbackTo .exec_svp) := by
      rw [rollbackCommand, hsvp]
      rfl
    have hexec := Server.exec_rollbackTo .exec_svp hblock (by
      rw [Server.ExecLive] at hlive
      rw [hlive]
      rfl)
    obtain ⟨d, hd, hexch⟩ := exchange_eq .recovery [rollbackCommand c] c
    have hserver := hexch.server
    rw [hcmd, Server.query_single, hexec] at hserver
    rw [hd, hcmd, Server.query_single, hexec]
    refine steady_update (hexch.internal_op.trans hsteady.op) ?_ (fun _ => ?_) (fun _ _ => ?_)
    · have href : c.server.refers (ours (.rollbackTo .exec_svp)) = true := by
        rw [Server.ExecLive] at hlive
        simp [Server.refers, ours, hlive]
      have hstrays : c.server.strays [rollbackCommand c] = [] := by
        rw [hcmd, Server.strays_cons_of_ok (by rw [hexec]; rfl), if_pos href]
        rfl
      rw [hexch.strays, hstrays, hsteady.strays]
      rfl
    · rw [hexch.in_trans, hsteady.trans, Server.isOpen, hblock]
      rfl
    · rw [Server.ExecLive, Server.latest, hblock] at hlive
      rw [hserver]
      exact Log.latest_rollbackTo.trans hlive

/-! ### Executing a statement -/

/-- One command in the extended protocol. -/
theorem receiveExtended_steady {command : Command} (h : c.Steady)
    (hd : Exchanged .extended [⟨command, false⟩] c d)
    (hsafe : c.internal_svp = true → d.server.ExecLive) :
    (receiveExtended command d (c.server.exec ⟨command, false⟩).2).1.Steady := by
  have hlive : d.internal_svp = true → d.server.ExecLive := by
    rw [hd.internal_svp]
    exact hsafe
  have hstrays : d.strays = [] := by
    rw [hd.strays, h.strays, List.append_nil]
    exact Server.strays_theirs c.server [command]
  have hop : d.internal_op = .none := hd.internal_op.trans h.op
  have htrans : d.in_trans = c.server.isOpen := hd.in_trans.trans h.trans
  have hopen : d.internal_svp = true → d.in_trans = true := by
    intro hs
    rw [hd.internal_svp] at hs
    exact htrans.trans (Server.isOpen_of_execLive (h.live hs))
  have hok := Server.failed_exec_of_ok (s := c.server) (c := ⟨command, false⟩)
  have htuples := Server.isOpen_exec_of_tuples (s := c.server) (c := ⟨command, false⟩)
  have hserver : d.server = (c.server.exec ⟨command, false⟩).1 := by
    rw [hd.server, Server.query_single]
  rw [Reply.failed] at hok
  rw [← hserver] at hok htuples
  unfold receiveExtended
  cases hout : (c.server.exec ⟨command, false⟩).2.outcome with
  | tag t =>
    have hfailed : d.server.failed = false := hok (by rw [hout]; rfl)
    dsimp only
    cases hblock : d.server.block with
    | none =>
      have hstatus : d.server.status = .idle := by rw [Server.status, hblock]
      rw [hstatus]
      refine ⟨?_, fun hf => ?_, fun hs => hlive hs, hop, hstrays⟩
      · exact (show d.server.isOpen = false by rw [Server.isOpen, hblock]; rfl).symm
      · exact absurd ((show d.server.failed = true from hf).symm.trans hfailed) (by decide)
    | some b =>
      have hb : b.failed = false := by rw [← Server.failed_of_block hblock, hfailed]
      have hstatus : d.server.status = .inTrans := by
        rw [Server.status, hblock]
        exact if_neg (Bool.eq_false_iff.mp hb)
      rw [hstatus]
      have hmain : ({ d with in_trans := true } : Conn).Steady := by
        refine ⟨?_, fun hf => ?_, fun hs => hlive hs, hop, hstrays⟩
        · exact (show d.server.isOpen = true by rw [Server.isOpen, hblock]; rfl).symm
        · exact absurd ((show d.server.failed = true from hf).symm.trans hfailed) (by decide)
      dsimp only
      split
      · exact hmain.of_memory set_in_manual_trans_memory hop
      · exact hmain
  | tuples =>
    have hfailed : d.server.failed = false := hok (by rw [hout]; rfl)
    refine ⟨htrans.trans (htuples hout).symm, fun hf => ?_, hlive, hop, hstrays⟩
    exact absurd (hf.symm.trans hfailed) (by decide)
  | error =>
    have hmain : ∀ d' : Conn, SameServer d' d → d'.in_trans = d.in_trans →
        d'.internal_svp = d.internal_svp → d'.internal_op = .none →
          (LIBPQ_update_transaction_status d.server.status d').Steady := by
      intro d' hsame hin hsvp hop'
      rw [← hsame.server]
      refine steady_update hop' (hsame.strays.trans hstrays) (fun hs => ?_) (fun hs _ => ?_)
      · rw [hin]
        exact hopen (hsvp ▸ hs)
      · rw [hsame.server]
        exact hlive (hsvp ▸ hs)
    dsimp only
    rw [handle_pgres_error]
    refine hmain _ ?_ ?_ ?_ ?_
    · split <;> exact ⟨rfl, rfl, rfl⟩
    · split <;> rfl
    · split <;> rfl
    · split <;> exact hop

/-! ### Runs -/

/-- Safe exchanges keep the driver's memory right. -/
theorem preserved_safe (o : SavepointOptions) :
    Preserved o Conn.Safe (fun c => (∀ x ∈ c.exchanges, x.Safe) → c.Ready) where
  ready h hx := (h hx).ready
  flags h := h.of_memory
  update h hx := (h fun x hmem => hx x ((update_same _).grows x hmem)).update
  prepend h htrans herror hx :=
    ⟨(h hx).of_memory ⟨⟨rfl, rfl, rfl⟩, rfl, rfl, rfl, rfl, rfl⟩ rfl, .inr ⟨rfl, htrans, herror⟩⟩
  send _ _ _ hflag h := sendQuery_steady hflag h
  savepoint := sendSavepoint_safe
  statement := CC_internal_rollback_statement_safe
  extended command h hexch hx := by
    rw [(receiveExtended_same _).exchanges, hexch.exchanges, List.forall_mem_cons] at hx
    refine receiveExtended_steady (h hx.2) hexch fun hs => ?_
    rw [hexch.server]
    exact hx.1.2.2 rfl hs
  internal read_only w h htrans herror hx :=
    internalQuery_steady read_only w (h fun x hmem => hx x (sendQuery_grows o _ _ _ x hmem))
      htrans herror hx

theorem fresh_safe : Conn.fresh.Safe := fun _ =>
  ⟨rfl, (nomatch ·), (nomatch ·), rfl, rfl⟩

/-- **Live savepoints.** In a run whose exchanges are all safe, every `ROLLBACK TO` and every
`RELEASE` that the driver sends for a savepoint of its own finds that savepoint live. -/
theorem savepoints_live (o : SavepointOptions) (calls : List ConnCall)
    (h : ∀ x ∈ ((connMachine o).final .fresh calls).exchanges, x.Safe) :
    ((connMachine o).final .fresh calls).strays = [] :=
  ((preserved_safe o).run fresh_safe calls h).strays

/-- Three inserts, the last of which fails and is rolled back to its savepoint. -/
theorem savepoints_live_insert :
    ((connMachine ⟨false, false, true⟩).final .fresh (.setAutocommit false true false ::
      insertCalls 1 true ++ insertCalls 2 true ++ insertCalls 3 false)).strays = [] :=
  savepoints_live _ _ (by decide)

/-- A commit through the extended protocol leaves the savepoint of the second insert remembered,
and the fourth insert releases it in another transaction. -/
theorem savepoint_released_dead :
    ((connMachine ⟨false, false, true⟩).final .fresh (.setAutocommit false true false ::
      insertCalls 1 true ++ insertCalls 2 true ++
      [.execute ⟨⟨.transaction, .rb_stmt, true, false⟩, false, false,
        .extended true (.commit true false), true, false⟩] ++
      insertCalls 3 true ++ insertCalls 4 true)).strays = [ours (.release .exec_svp)] := by
  decide

end OdbcDriver
