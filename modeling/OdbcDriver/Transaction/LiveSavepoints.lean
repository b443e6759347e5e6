import OdbcDriver.Transaction.Calls

/-!
# The driver's savepoints are live

Every `ROLLBACK TO` and `RELEASE` of the driver refers to a savepoint that it has set in the same
transaction and that is still there, as long as three kinds of exchanges stay out: a text that
commits the transaction and opens the next, a query to be rolled back on error that fails
without its savepoint, and a command of the extended protocol that destroys the savepoint the
driver remembers.

The invariant is that `in_trans` tells whether a transaction is open, that a failed one is known
to have failed, and that `internal_svp` is set only while `_EXEC_SVP_` is live.
-/

namespace OdbcDriver

/-- The latest savepoint called `_EXEC_SVP_` is the driver's. -/
def Server.ExecLive (s : Server) : Prop := s.latest .exec_svp = some ⟨.exec_svp, true⟩

instance (s : Server) : Decidable s.ExecLive := inferInstanceAs (Decidable (_ = _))

/-- An exchange after which the driver knows of its savepoint what there is to know. -/
def Exchange.Safe (x : Exchange) : Prop :=
  (x.protocol = .simple → x.internal_svp = true ∨ ours (.savepoint .exec_svp) ∈ x.query →
    x.after.isOpen = true → x.after.committed = x.server.committed) ∧
  (x.protocol = .unprotected → x.server.isOpen = true → x.replies.all (!·.failed) = true) ∧
  (x.protocol = .extended → x.internal_svp = true → x.after.ExecLive)

instance (x : Exchange) : Decidable x.Safe := inferInstanceAs (Decidable (_ ∧ _))

/-- The driver's memory of the transaction and of its savepoint, between two exchanges. -/
structure Conn.Steady (c : Conn) : Prop where
  trans : c.in_trans = c.server.isOpen
  failed : c.server.failed = true → c.in_error_trans = true
  live : c.internal_svp = true → c.server.ExecLive
  op : c.internal_op = .none
  strays : c.strays = []

/-- The driver's memory is right, provided that the exchanges so far were safe. -/
def Conn.Safe (c : Conn) : Prop := (∀ x ∈ c.exchanges, x.Safe) → c.Steady

variable {o : SavepointOptions} {c d : Conn} {l : QueryLoop} {s : Server} {K : Nat}

/-! ### The end of a query -/

theorem Server.isOpen_of_execLive (h : s.ExecLive) : s.isOpen = true := by
  rw [Server.ExecLive, Server.latest] at h
  rw [Server.isOpen]
  cases hblock : s.block with
  | none => simp [hblock] at h
  | some b => rfl

/-- At the end of a query the status of the server puts the flags right. -/
theorem steady_update (hop : c.internal_op = .none) (hstrays : c.strays = [])
    (htrans : c.internal_svp = true → c.in_trans = true)
    (hlive : c.internal_svp = true → c.server.isOpen = true → c.server.ExecLive) :
    (LIBPQ_update_transaction_status c.server.status c).Steady := by
  have hsame := update_same (c := c) c.server.status
  cases hblock : c.server.block with
  | none =>
    have hopen : c.server.isOpen = false := by rw [Server.isOpen, hblock]; rfl
    have hstatus : c.server.status = .idle := by rw [Server.status, hblock]
    have hfailed : c.server.failed = false := Server.failed_of_idle hblock
    rw [hstatus] at hsame ⊢
    -- the hooks clear every flag; without them nothing was set
    cases htr : c.in_trans with
    | false =>
      have hc : LIBPQ_update_transaction_status .idle c = c := by
        rw [LIBPQ_update_transaction_status, htr]
        rfl
      rw [hc]
      refine ⟨by rw [htr, hopen], fun h => ?_, fun h => ?_, hop, hstrays⟩
      · rw [hfailed] at h
        cases h
      · rw [htrans h] at htr
        cases htr
    | true =>
      have hflags : ∀ d, d = CC_on_abort c ∨ d = CC_on_commit c → SameServer d c → d.Steady := by
        intro d hd hsame
        have hin : d.in_trans = false ∧ d.internal_svp = false ∧ d.internal_op = .none := by
          rcases hd with rfl | rfl
          · rw [CC_on_abort, htr]
            exact ⟨rfl, rfl, rfl⟩
          · rw [CC_on_commit, htr]
            exact ⟨rfl, rfl, rfl⟩
        refine ⟨?_, ?_, ?_, hin.2.2, hsame.strays.trans hstrays⟩
        · rw [hin.1, hsame.server, hopen]
        · rw [hsame.server, hfailed]
          rintro ⟨⟩
        · rw [hin.2.1]
          rintro ⟨⟩
      rw [LIBPQ_update_transaction_status, htr, if_pos rfl] at hsame ⊢
      split at hsame
      next he => rw [if_pos he]; exact hflags _ (.inl rfl) hsame
      next he => rw [if_neg he]; exact hflags _ (.inr rfl) hsame
  | some b =>
    have hopen : c.server.isOpen = true := by rw [Server.isOpen, hblock]; rfl
    have hfailed := Server.failed_of_block hblock
    cases hb : b.failed with
    | true =>
      have hstatus : c.server.status = .inError := by
        rw [Server.status, hblock]
        exact if_pos hb
      rw [hstatus]
      exact ⟨hopen.symm, fun _ => rfl, fun h => hlive h hopen, hop, hstrays⟩
    | false =>
      have hstatus : c.server.status = .inTrans := by
        rw [Server.status, hblock]
        exact if_neg (Bool.eq_false_iff.mp hb)
      rw [hstatus]
      refine ⟨hopen.symm, fun h => ?_, fun h => hlive h hopen, hop, hstrays⟩
      have hf : c.server.failed = true := h
      rw [hfailed, hb] at hf
      cases hf

/-! ### The loop over the answers -/

/-- The query loop between two answers to the application's commands: the remembered savepoint is
live, unless a transaction has been committed since there were `K` of them. -/
structure Settled (K : Nat) (l : QueryLoop) (s : Server) : Prop where
  op : l.conn.internal_op = .none
  savepoint : l.discard_next_savepoint = false
  release : l.discard_next_release = false
  trans : l.conn.internal_svp = true → l.conn.in_trans = true
  live : l.conn.internal_svp = true → s.ExecLive ∨ K < s.committed
  le : K ≤ s.committed

theorem Settled.notice (h : Settled K l s) (n : Bool) :
    Settled K { l with conn := { l.conn with in_trans := n || l.conn.in_trans } } s :=
  ⟨h.op, h.savepoint, h.release, fun hs => by rw [h.trans hs, Bool.or_true], h.live, h.le⟩

/-- The tags of savepoint commands make the driver forget its savepoint; other tags move the
flags of the transaction at most. -/
theorem Settled.tag (h : Settled K l s) (t : Tag) {s' : Server} (hle : s.committed ≤ s'.committed)
    (hlive : t ≠ .savepoint → t ≠ .rollback → t ≠ .release → s.ExecLive →
      s'.ExecLive ∨ K < s'.committed) : Settled K (l.tag t) s' := by
  have hle' := Nat.le_trans h.le hle
  have hkeep : t ≠ .savepoint → t ≠ .rollback → t ≠ .release → l.conn.internal_svp = true →
      s'.ExecLive ∨ K < s'.committed := by
    intro h₁ h₂ h₃ hs
    rcases h.live hs with hl | hl
    · exact hlive h₁ h₂ h₃ hl
    · exact .inr (Nat.lt_of_lt_of_le hl hle)
  cases t with
  | start_transaction =>
    exact ⟨h.op, h.savepoint, h.release, fun _ => rfl, hkeep (by decide) (by decide) (by decide),
      hle'⟩
  | savepoint =>
    rw [QueryLoop.tag, h.savepoint, if_neg Bool.false_ne_true, h.op, if_neg (by decide)]
    exact ⟨h.op, rfl, h.release, by rintro ⟨⟩, by rintro ⟨⟩, hle'⟩
  | rollback => exact ⟨h.op, h.savepoint, h.release, by rintro ⟨⟩, by rintro ⟨⟩, hle'⟩
  | release =>
    rw [QueryLoop.tag, h.release, if_neg Bool.false_ne_true]
    exact ⟨h.op, h.savepoint, rfl, by rintro ⟨⟩, by rintro ⟨⟩, hle'⟩
  | begin_ =>
    exact ⟨h.op, h.savepoint, h.release, h.trans, hkeep (by decide) (by decide) (by decide), hle'⟩
  | commit =>
    exact ⟨h.op, h.savepoint, h.release, h.trans, hkeep (by decide) (by decide) (by decide), hle'⟩
  | other =>
    exact ⟨h.op, h.savepoint, h.release, h.trans, hkeep (by decide) (by decide) (by decide), hle'⟩

theorem Server.execLive_effects {b : Block} (es : List Nat) (hblock : s.block = some b)
    (h : s.ExecLive) :
    ({ s with block := some { b with log := es.map .effect ++ b.log } } : Server).ExecLive := by
  rw [Server.ExecLive, Server.latest, hblock] at h
  rw [Server.ExecLive, Server.latest, Option.bind_some, Log.latest_effects]
  exact h

/-- One command that succeeds, and its answer. -/
theorem Settled.receive (h : Settled K l s) {x : Sent} (hok : (s.exec x).2.failed = false) :
    Settled K (l.receive (s.exec x).2) (s.exec x).1 := by
  have hcases := Server.exec_cases s x
  generalize s.exec x = y at hcases hok ⊢
  rw [receive_notice]
  have hn := h.notice y.2.notice
  cases hcases with
  | refused n => cases hok
  | undone b n hblock => cases hok
  | opened t hblock ht =>
    refine hn.tag t (Nat.le_refl _) fun _ _ _ hl => ?_
    have hopen := Server.isOpen_of_execLive hl
    rw [Server.isOpen, hblock] at hopen
    cases hopen
  | warned t => exact hn.tag t (Nat.le_refl _) fun _ _ _ hl => .inl hl
  | committed b n hblock hb =>
    exact hn.tag .commit (Nat.le_succ _) fun _ _ _ _ => .inr (Nat.lt_succ_of_le h.le)
  | rolledBack b hblock => exact hn.tag .rollback (Nat.le_refl _) fun _ h' => absurd rfl h'
  | marked b name hblock hb => exact hn.tag .savepoint (Nat.le_refl _) fun h' => absurd rfl h'
  | returned b name hblock => exact hn.tag .rollback (Nat.le_refl _) fun _ h' => absurd rfl h'
  | released b name hblock hb => exact hn.tag .release (Nat.le_refl _) fun _ _ h' => absurd rfl h'
  | idle n out hblock hout =>
    rcases hout with rfl | rfl
    · exact hn
    · exact hn.tag .other (Nat.le_refl _) fun _ _ _ hl => .inl hl
  | worked b es n out hblock hb hout =>
    have hl : s.ExecLive → _ := Server.execLive_effects es hblock
    rcases hout with rfl | rfl
    · exact ⟨hn.op, hn.savepoint, hn.release, hn.trans, fun hs => (hn.live hs).imp hl id, hn.le⟩
    · exact hn.tag .other (Nat.le_refl _) fun _ _ _ h' => .inl (hl h')

/-- The end of the query loop: what `steady_update` needs of the connection, for a server that
commits nothing and stays open. -/
structure Settles (K : Nat) (c : Conn) (s : Server) : Prop where
  op : c.internal_op = .none
  trans : c.internal_svp = true → c.in_trans = true
  live : c.internal_svp = true → s.isOpen = true → s.ExecLive ∨ K < s.committed

theorem Settled.settles (h : Settled K l s) : Settles K l.conn s :=
  ⟨h.op, h.trans, fun hs _ => h.live hs⟩

/-- A command that fails, and its answer. -/
theorem Settled.receive_error (h : Settled K l s) {x : Sent} (hfail : (s.exec x).2.failed = true) :
    Settles K (l.receive (s.exec x).2).conn (s.exec x).1 := by
  have hcases := Server.exec_cases s x
  have hle := Server.committed_le_exec s x
  generalize s.exec x = y at hcases hfail hle ⊢
  rw [receive_notice]
  have hn := h.notice y.2.notice
  have hflags : ∀ l' : QueryLoop, Settled K l' s →
      (l'.receive ⟨false, .error⟩).conn.internal_op = .none ∧
        (l'.receive ⟨false, .error⟩).conn.in_trans = true ∧
          ((l'.receive ⟨false, .error⟩).conn.internal_svp = true → l'.conn.internal_svp = true) := by
    intro l' hl'
    have hr : (l'.receive ⟨false, .error⟩).conn = handle_pgres_error true .active l'.conn := rfl
    rw [hr, handle_pgres_error, LIBPQ_update_transaction_status]
    dsimp only
    split <;> exact ⟨hl'.op, rfl, id⟩
  cases hcases with
  | refused n =>
    obtain ⟨hop, htrans, hsvp⟩ := hflags _ hn
    refine ⟨hop, fun _ => htrans, fun hs _ => (hn.live (hsvp hs)).imp ?_ id⟩
    intro hl
    rw [Server.ExecLive, Server.latest] at hl ⊢
    cases hblock : s.block with
    | none => simp [hblock] at hl
    | some b =>
      rw [hblock] at hl
      simpa [Server.fail, hblock] using hl
  | undone b n hblock =>
    obtain ⟨hop, htrans, hsvp⟩ := hflags _ hn
    exact ⟨hop, fun _ => htrans, by rintro _ ⟨⟩⟩
  | opened => cases hfail
  | warned => cases hfail
  | committed => cases hfail
  | rolledBack => cases hfail
  | marked => cases hfail
  | returned => cases hfail
  | released => cases hfail
  | idle n out hblock hout => rcases hout with rfl | rfl <;> cases hfail
  | worked b es n out hblock hb hout => rcases hout with rfl | rfl <;> cases hfail

/-- **The loop.** Over the answers to a query of the application, `internal_svp` keeps to the
savepoint. -/
theorem Settled.receives (h : Settled K l s) (cs : List Sent) :
    Settles K ((s.query cs).2.foldl QueryLoop.receive l).conn (s.query cs).1 := by
  induction cs generalizing l s with
  | nil => exact h.settles
  | cons x cs ih =>
    cases hx : (s.exec x).2.failed with
    | true =>
      rw [Server.query_cons_of_failed hx]
      exact h.receive_error hx
    | false =>
      rw [Server.query_cons_of_ok hx]
      exact ih (h.receive hx)

/-- Without a savepoint of its own in progress the loop sets `internal_svp` never. -/
theorem receives_clear (rs : List Reply) (hop : l.conn.internal_op = .none)
    (hsvp : l.conn.internal_svp = false) :
    (rs.foldl QueryLoop.receive l).conn.internal_op = .none ∧
      (rs.foldl QueryLoop.receive l).conn.internal_svp = false := by
  induction rs generalizing l with
  | nil => exact ⟨hop, hsvp⟩
  | cons r rs ih =>
    rw [List.foldl_cons]
    have hr : (l.receive r).conn.internal_op = .none ∧ (l.receive r).conn.internal_svp = false := by
      rw [receive_notice]
      generalize hl : ({ l with conn := { l.conn with in_trans := r.notice || l.conn.in_trans } } :
        QueryLoop) = l'
      have hop' : l'.conn.internal_op = .none := by rw [← hl]; exact hop
      have hsvp' : l'.conn.internal_svp = false := by rw [← hl]; exact hsvp
      obtain ⟨n, out⟩ := r
      cases out with
      | tuples => exact ⟨hop', hsvp'⟩
      | error =>
        have hr : (l'.receive ⟨false, .error⟩).conn = handle_pgres_error true .active l'.conn := rfl
        rw [hr, handle_pgres_error, LIBPQ_update_transaction_status]
        dsimp only
        split <;> exact ⟨hop', hsvp'⟩
      | tag t =>
        have hr : l'.receive ⟨false, .tag t⟩ = l'.tag t := rfl
        rw [hr]
        cases t with
        | savepoint =>
          rw [QueryLoop.tag]
          split
          · exact ⟨hop', hsvp'⟩
          · rw [if_neg (by rw [hop']; decide)]
            exact ⟨hop', rfl⟩
        | release =>
          rw [QueryLoop.tag]
          split
          · exact ⟨hop', hsvp'⟩
          · exact ⟨hop', rfl⟩
        | rollback => exact ⟨hop', rfl⟩
        | start_transaction => exact ⟨hop', hsvp'⟩
        | begin_ => exact ⟨hop', hsvp'⟩
        | commit => exact ⟨hop', hsvp'⟩
        | other => exact ⟨hop', hsvp'⟩
    exact ih hr.1 hr.2

/-! ### Queries -/

/-- The connection as a query may find it: a savepoint command may wait to be prepended. -/
structure Conn.Ready (c : Conn) : Prop where
  steady : (c.set_internal_op .none).Steady
  op : c.internal_op = .none ∨
    c.internal_op = .prepend_in_progress ∧ c.in_trans = true ∧ c.in_error_trans = false

theorem Conn.Steady.ready (h : c.Steady) : c.Ready :=
  ⟨⟨h.trans, h.failed, h.live, rfl, h.strays⟩, .inl h.op⟩

/-- An open transaction that the driver does not know to have failed has not. -/
theorem Conn.Ready.block (h : c.Ready) (htrans : c.in_trans = true)
    (herror : c.in_error_trans = false) : ∃ b, c.server.block = some b ∧ b.failed = false := by
  have hopen : c.in_trans = c.server.isOpen := h.steady.trans
  have hfailed : c.server.failed = true → c.in_error_trans = true := h.steady.failed
  rw [htrans, Server.isOpen] at hopen
  cases hblock : c.server.block with
  | none => simp [hblock] at hopen
  | some b =>
    refine ⟨b, rfl, Bool.eq_false_iff.mpr fun hb => ?_⟩
    rw [Server.failed_of_block hblock, herror] at hfailed
    exact absurd (hfailed hb) Bool.false_ne_true

/-- A text sent by a driver that remembers no savepoint. -/
theorem queryLoop_clear {p : Protocol} {discard : Bool} {text : List Sent}
    (hop : c.internal_op = .none) (hsvp : c.internal_svp = false) (hc : c.strays = [])
    (htext : c.server.strays text = []) :
    (LIBPQ_update_transaction_status (queryLoop p discard text c).conn.server.status
      (queryLoop p discard text c).conn).Steady := by
  have hclear := receives_clear (c.server.query text).2
    (l := ⟨(c.exchange p text).1, discard, false, false⟩) hop hsvp
  have hsame := receives_same (c.server.query text).2
    (l := ⟨(c.exchange p text).1, discard, false, false⟩)
  refine steady_update hclear.1 ?_ ?_ ?_
  · refine hsame.strays.trans ?_
    rw [Conn.exchange, htext, hc]
    rfl
  · intro h
    exact absurd (h.symm.trans hclear.2) (by decide)
  · intro h
    exact absurd (h.symm.trans hclear.2) (by decide)

/-- A text of the application after commands of the driver that succeed and settle the loop. -/
theorem queryLoop_settled {p : Protocol} (pre : List Sent) (query : List Command)
    (hpre : (c.server.query pre).2.all (!·.failed) = true) (hc : c.strays = [])
    (hstrays : c.server.strays pre = [])
    (hset : Settled c.server.committed ((c.server.query pre).2.foldl QueryLoop.receive
      ⟨(c.exchange p (pre ++ theirs query)).1, false, false, false⟩) (c.server.query pre).1)
    (hsafe : (c.server.query (pre ++ theirs query)).1.isOpen = true →
      (c.server.query (pre ++ theirs query)).1.committed = c.server.committed) :
    (LIBPQ_update_transaction_status
      (queryLoop p false (pre ++ theirs query) c).conn.server.status
      (queryLoop p false (pre ++ theirs query) c).conn).Steady := by
  have hloop := hset.receives (theirs query)
  have hquery := Server.query_append hpre (theirs query)
  have hsame := receives_same (c.server.query (pre ++ theirs query)).2
    (l := ⟨(c.exchange p (pre ++ theirs query)).1, false, false, false⟩)
  have hconn : (queryLoop p false (pre ++ theirs query) c).conn =
      (((c.server.query pre).1.query (theirs query)).2.foldl QueryLoop.receive
        ((c.server.query pre).2.foldl QueryLoop.receive
          ⟨(c.exchange p (pre ++ theirs query)).1, false, false, false⟩)).conn := by
    rw [← List.foldl_append]
    exact congrArg (fun rs => (List.foldl QueryLoop.receive _ rs).conn) (congrArg Prod.snd hquery)
  have hserver : (queryLoop p false (pre ++ theirs query) c).conn.server =
      ((c.server.query pre).1.query (theirs query)).1 :=
    hsame.server.trans (by rw [Conn.exchange, hquery])
  refine steady_update (by rw [hconn]; exact hloop.op) ?_ (by rw [hconn]; exact hloop.trans) ?_
  · refine hsame.strays.trans ?_
    rw [Conn.exchange, Server.strays_append hpre, hstrays, Server.strays_theirs, hc]
    rfl
  · intro hsvp hopen
    rw [hserver] at hopen ⊢
    rw [hconn] at hsvp
    rw [hquery] at hsafe
    rcases hloop.live hsvp hopen with hl | hl
    · exact hl
    · exact absurd (hsafe hopen) (Nat.ne_of_gt hl)

/-- `SAVEPOINT` in an open transaction that has not failed. -/
theorem Server.exec_savepoint {b : Block} (name : SavepointName) (hblock : s.block = some b)
    (hb : b.failed = false) :
    s.exec (ours (.savepoint name)) =
      ({ s with block := some { b with log := .savepoint ⟨name, true⟩ :: b.log } },
        ⟨false, .tag .savepoint⟩) := by
  simp [Server.exec, ours, hblock, hb]

/-- `ROLLBACK TO` a live savepoint. -/
theorem Server.exec_rollbackTo {b : Block} (name : SavepointName) (hblock : s.block = some b)
    (hlive : (s.latest name).isSome = true) :
    s.exec (ours (.rollbackTo name)) =
      ({ s with block := some ⟨b.log.rollbackTo (·.name == name), false⟩ },
        ⟨false, .tag .rollback⟩) := by
  simp [Server.exec, ours, hblock, hlive]

/-- `RELEASE` of a live savepoint. -/
theorem Server.exec_release {b : Block} (name : SavepointName) (hblock : s.block = some b)
    (hb : b.failed = false) (hlive : (s.latest name).isSome = true) :
    s.exec (ours (.release name)) =
      ({ s with block := some { b with log := b.log.release (·.name == name) } },
        ⟨false, .tag .release⟩) := by
  simp [Server.exec, ours, hblock, hb, hlive]

/-- The driver's savepoint commands succeed in an open transaction that has not failed, refer to
no savepoint but a live one, and leave the new savepoint remembered. -/
theorem savepointCommand_settled {b : Block} (hblock : c.server.block = some b)
    (hb : b.failed = false) (hlive : c.internal_svp = true → c.server.ExecLive)
    (htrans : c.in_trans = true) (hop : c.internal_op = .savepoint_in_progress) {d : Conn}
    (hd : d.in_trans = c.in_trans) (hdop : d.internal_op = c.internal_op) :
    (c.server.query (savepointCommand c)).2.all (!·.failed) = true ∧
      c.server.strays (savepointCommand c) = [] ∧
        Settled c.server.committed ((c.server.query (savepointCommand c)).2.foldl
          QueryLoop.receive ⟨d, false, false, false⟩) (c.server.query (savepointCommand c)).1 := by
  have hdop' : d.internal_op = .savepoint_in_progress := hdop.trans hop
  have hset : ∀ (s' : Server) (log : Log Savepoint Nat), s'.committed = c.server.committed →
      s'.block = some ⟨.savepoint ⟨.exec_svp, true⟩ :: log, b.failed⟩ → ∀ d' : Conn,
        d'.internal_op = .savepoint_in_progress → d'.in_trans = true →
          Settled c.server.committed (QueryLoop.receive ⟨d', false, false, false⟩
            ⟨false, .tag .savepoint⟩) s' := by
    intro s' log hs hblock' d' hop' htrans'
    have hr : QueryLoop.receive ⟨d', false, false, false⟩ ⟨false, .tag .savepoint⟩ =
        ⟨{ d' with started_rbpoint := true, internal_svp := true, internal_op := .none }, false,
          false, false⟩ := by
      simp [QueryLoop.receive, QueryLoop.tag, hop']
    rw [hr]
    refine ⟨rfl, rfl, rfl, fun _ => htrans', fun _ => .inl ?_, Nat.le_of_eq hs.symm⟩
    rw [Server.ExecLive, Server.latest, hblock', Option.bind_some, Log.latest_savepoint_self rfl]
  rw [savepointCommand]
  cases hsvp : c.internal_svp with
  | false =>
    have hexec := Server.exec_savepoint .exec_svp hblock hb
    rw [if_neg Bool.false_ne_true, Server.query_single, hexec]
    refine ⟨rfl, ?_, ?_⟩
    · rw [Server.strays_cons_of_ok (by rw [hexec]; rfl)]
      rfl
    · exact hset { c.server with block := some { b with log := .savepoint _ :: b.log } } b.log rfl
        rfl d hdop' (hd.trans htrans)
  | true =>
    have hl := hlive hsvp
    have hrelease := Server.exec_release .exec_svp hblock hb (by
      rw [Server.ExecLive] at hl
      rw [hl]
      rfl)
    have hexec := Server.exec_savepoint (s := { c.server with
      block := some { b with log := b.log.release (·.name == .exec_svp) } }) .exec_svp rfl hb
    have hquery : c.server.query [ours (.release .exec_svp), ours (.savepoint .exec_svp)] = _ :=
      Server.query_cons_of_ok (by rw [hrelease]; rfl)
    rw [if_pos rfl, hquery, hrelease, Server.query_single, hexec]
    refine ⟨rfl, ?_, ?_⟩
    · rw [Server.strays_cons_of_ok (by rw [hrelease]; rfl), hrelease,
        Server.strays_cons_of_ok (by rw [hexec]; rfl)]
      have href : c.server.refers (ours (.release .exec_svp)) = true := by
        rw [Server.ExecLive] at hl
        simp [Server.refers, ours, hl]
      rw [if_pos href]
      rfl
    · exact hset { c.server with block := some { b with log := .savepoint _ :: _ } } _ rfl rfl
        { d with internal_svp := false } hdop' (hd.trans htrans)

/-- **A query.** A driver whose memory is right sends no savepoint command in vain, and its memory
is right after a safe exchange. -/
theorem sendQuery_steady {flag : QueryFlags} {query appendq : List Command}
    (hflag : (flag.rollback_on_error && considerRollback flag query c) = false) (h : (∀ x ∈ c.exchanges, x.Safe) → c.Ready)
    (hsafe : ∀ x ∈ (sendQuery o flag query appendq c).1.exchanges, x.Safe) :
    (sendQuery o flag query appendq c).1.Steady := by
  rw [sendQuery_eq hflag] at hsafe ⊢
  dsimp only at hsafe ⊢
  rw [(update_same _).exchanges, queryLoop, (receives_same _).exchanges, Conn.exchange,
    List.forall_mem_cons] at hsafe
  obtain ⟨hsafe, hrest⟩ := hsafe
  have hready : c.Ready := by
    refine h fun x hx => hrest x ?_
    split <;> exact hx
  cases hbegin : issueBegin flag c with
  | true =>
    -- a transaction is begun: none is open, and no savepoint is remembered
    have htrans : c.in_trans = false := by
      rw [issueBegin] at hbegin
      simpa using (Bool.and_eq_true_iff.mp hbegin).2
    have hop : c.internal_op = .none := by
      rcases hready.op with hop | ⟨-, hin, -⟩
      · exact hop
      · exact absurd (hin.symm.trans htrans) (by decide)
    have hidle : c.server.block = none := by
      have hopen : c.in_trans = c.server.isOpen := hready.steady.trans
      rw [htrans, Server.isOpen] at hopen
      cases hblock : c.server.block with
      | none => rfl
      | some b => simp [hblock] at hopen
    have hsvp : c.internal_svp = false := by
      refine Bool.eq_false_iff.mpr fun hs => ?_
      have hopen : c.server.isOpen = true := Server.isOpen_of_execLive (hready.steady.live hs)
      rw [Server.isOpen, hidle] at hopen
      cases hopen
    simp only [Bool.true_eq_false, false_and, if_false, if_true]
    refine queryLoop_clear hop hsvp hready.steady.strays ?_
    have hstart : (c.server.exec (ours .start)).2.failed = false := by
      simp [Server.exec, ours, hidle, Reply.failed]
    rw [List.singleton_append, Server.strays_cons_of_ok hstart, Server.strays_theirs]
    rfl
  | false =>
    rw [hbegin] at hsafe
    simp only [Bool.false_eq_true, true_and, if_false] at hsafe ⊢
    rcases hready.op with hop | ⟨hop, htrans, herror⟩
    · have hne : ¬c.internal_op = .prepend_in_progress := by
        rw [hop]
        decide
      simp only [if_neg hne, List.nil_append] at hsafe ⊢
      cases hsvp : c.internal_svp with
      | false =>
        exact queryLoop_clear hop hsvp hready.steady.strays (Server.strays_theirs _ _)
      | true =>
        have hlive := hready.steady.live hsvp
        refine queryLoop_settled [] (query ++ appendq) rfl hready.steady.strays rfl ?_
          (hsafe.1 rfl (.inl hsvp))
        refine ⟨hop, rfl, rfl, fun _ => ?_, fun _ => .inl hlive, Nat.le_refl _⟩
        exact hready.steady.trans.trans (Server.isOpen_of_execLive hlive)
    · simp only [if_pos hop] at hsafe ⊢
      obtain ⟨b, hblock, hb⟩ := hready.block htrans herror
      let d : Conn := c.set_internal_op .savepoint_in_progress
      have hpre := savepointCommand_settled (c := d) hblock hb hready.steady.live htrans rfl
        (d := (d.exchange .simple (savepointCommand c ++ theirs (query ++ appendq))).1) rfl rfl
      refine queryLoop_settled _ (query ++ appendq) hpre.1 hready.steady.strays hpre.2.1 hpre.2.2
        (hsafe.1 rfl (.inr ?_))
      refine List.mem_append_left _ ?_
      rw [savepointCommand]
      split <;> simp

end OdbcDriver
