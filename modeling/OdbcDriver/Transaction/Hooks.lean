import OdbcDriver.Transaction.Calls

/-!
# Hooks and transactions

`CC_on_commit` runs for every transaction the server commits and `CC_on_abort` for every one it
rolls back, and `in_trans` tells whether one is open, as long as the driver hears of every
transaction that ends: what it hears are the tags `START TRANSACTION` and `ROLLBACK`, errors and
notices, and the status once a text is over.

The invariant adds that `in_error_trans` is set exactly while the open transaction has failed.
-/

namespace OdbcDriver

/-! ### What the driver hears -/

/-- The answer makes the driver believe that a transaction is open. -/
def Reply.stirs (r : Reply) : Bool :=
  r.notice || r.failed || decide (r.outcome = .tag .start_transaction)

/-- The answer makes the driver believe that a transaction is lost. -/
def Reply.rollsBack (r : Reply) : Bool := r.failed || decide (r.outcome = .tag .rollback)

/-- A text that leaves no transaction open either has nothing to do with any, or ends exactly
one, which the driver knows to be open, and after a commit nothing looks like a rollback. -/
def Exchange.EndsHeard (x : Exchange) : Prop :=
  x.server.isOpen = false ∧ x.after.ended = x.server.ended ∧
      x.replies.all (fun r => !r.stirs && !r.rollsBack) = true ∨
    (x.server.isOpen = true ∨ x.replies.any (decide <| ·.outcome = .tag .start_transaction) = true) ∧
      x.after.ended = x.server.ended + 1 ∧
        (x.after.committed = x.server.committed + 1 → x.replies.all (!·.rollsBack) = true)

instance (x : Exchange) : Decidable x.EndsHeard := inferInstanceAs (Decidable (_ ∨ _))

/-- An exchange after which the driver knows what has become of the transaction. -/
def Exchange.Heard (x : Exchange) : Prop :=
  (x.protocol = .simple ∨ x.protocol = .unprotected →
    (x.after.isOpen = true → x.after.ended = x.server.ended) ∧
      (x.after.isOpen = false → x.EndsHeard)) ∧
  (x.protocol = .extended → x.replies.any Reply.failed = true ∨
    x.after.ended = x.server.ended ∧ x.after.failed = x.server.failed)

instance (x : Exchange) : Decidable x.Heard := inferInstanceAs (Decidable (_ ∧ _))

/-- The flags and the hooks agree with the server. -/
structure Conn.Tracked (c : Conn) : Prop where
  trans : c.in_trans = c.server.isOpen
  error : c.in_error_trans = c.server.failed
  commits : c.on_commits = c.server.committed
  aborts : c.on_aborts = c.server.aborted
  op : c.internal_op ≠ .prepend_in_progress

/-- The flags and the hooks agree with the server, provided that the driver has heard it all. -/
def Conn.Hears (c : Conn) : Prop := (∀ x ∈ c.exchanges, x.Heard) → c.Tracked

variable {o : SavepointOptions} {c d : Conn} {l : QueryLoop} {s : Server} {x : Sent}
  {cs : List Sent}

/-! ### The flags in the query loop -/

theorem tag_flags (t : Tag) :
    (l.tag t).conn.in_trans = (decide (t = .start_transaction) || l.conn.in_trans) ∧
      (l.tag t).conn.in_error_trans = (decide (t = .rollback) || l.conn.in_error_trans) ∧
        (l.tag t).conn.on_commits = l.conn.on_commits ∧
          (l.tag t).conn.on_aborts = l.conn.on_aborts := by
  cases t with
  | savepoint =>
    rw [QueryLoop.tag]
    split
    · exact ⟨rfl, rfl, rfl, rfl⟩
    · split <;> exact ⟨rfl, rfl, rfl, rfl⟩
  | release =>
    rw [QueryLoop.tag]
    split <;> exact ⟨rfl, rfl, rfl, rfl⟩
  | _ => exact ⟨rfl, rfl, rfl, rfl⟩

/-- One answer: what the flags have heard. -/
theorem receive_flags (r : Reply) :
    (l.receive r).conn.in_trans = (r.stirs || l.conn.in_trans) ∧
      ((l.receive r).conn.in_error_trans = true → r.rollsBack = true ∨
        l.conn.in_error_trans = true) ∧
      (l.conn.in_error_trans = true ∨ r.outcome = .tag .rollback ∨
        r.rollsBack = true ∧ l.conn.in_trans = true →
          (l.receive r).conn.in_error_trans = true) ∧
      (l.receive r).conn.on_commits = l.conn.on_commits ∧
        (l.receive r).conn.on_aborts = l.conn.on_aborts := by
  obtain ⟨n, out⟩ := r
  rw [receive_notice]
  generalize hl : ({ l with conn := { l.conn with in_trans := n || l.conn.in_trans } } :
    QueryLoop) = l'
  have htrans : l'.conn.in_trans = (n || l.conn.in_trans) := by rw [← hl]
  have herror : l'.conn.in_error_trans = l.conn.in_error_trans := by rw [← hl]
  have hhooks : l'.conn.on_commits = l.conn.on_commits ∧
      l'.conn.on_aborts = l.conn.on_aborts := by
    rw [← hl]
    exact ⟨rfl, rfl⟩
  cases out with
  | tuples =>
    have hr : l'.receive ⟨false, .tuples⟩ = l' := rfl
    rw [hr, htrans, herror]
    exact ⟨by simp [Reply.stirs, Reply.failed], .inr, by simp [Reply.rollsBack, Reply.failed],
      hhooks⟩
  | tag t =>
    have hr : l'.receive ⟨false, .tag t⟩ = l'.tag t := rfl
    obtain ⟨hin, herr, hcommits, haborts⟩ := tag_flags (l := l') t
    rw [hr, hin, herr, htrans, herror]
    refine ⟨?_, ?_, ?_, hcommits.trans hhooks.1, haborts.trans hhooks.2⟩
    · cases t <;> cases n <;> simp [Reply.stirs, Reply.failed]
    · cases t <;> simp [Reply.rollsBack, Reply.failed]
    · cases t <;> simp [Reply.rollsBack, Reply.failed]
  | error =>
    have hr : (l'.receive ⟨false, .error⟩).conn = handle_pgres_error true .active l'.conn := rfl
    rw [hr, handle_pgres_error, LIBPQ_update_transaction_status]
    refine ⟨by simp [Reply.stirs, Reply.failed], fun _ => .inl rfl, fun h => ?_, ?_, ?_⟩
    · dsimp only
      split
      · rfl
      next hnot =>
        rw [herror]
        rcases h with h | h | ⟨-, h⟩
        · exact h
        · cases h
        · rw [htrans, h, Bool.or_true] at hnot
          exact absurd rfl hnot
    · dsimp only
      split <;> exact hhooks.1
    · dsimp only
      split <;> exact hhooks.2

theorem receive_op (r : Reply) (h : l.conn.internal_op ≠ .prepend_in_progress) :
    (l.receive r).conn.internal_op ≠ .prepend_in_progress := by
  rw [receive_notice]
  generalize hl : ({ l with conn := { l.conn with in_trans := r.notice || l.conn.in_trans } } :
    QueryLoop) = l'
  have hop : l'.conn.internal_op ≠ .prepend_in_progress := by rw [← hl]; exact h
  obtain ⟨n, out⟩ := r
  cases out with
  | tuples => exact hop
  | error =>
    have hr : (l'.receive ⟨false, .error⟩).conn = handle_pgres_error true .active l'.conn := rfl
    rw [hr, handle_pgres_error, LIBPQ_update_transaction_status]
    dsimp only
    split <;> exact hop
  | tag t =>
    have hr : l'.receive ⟨false, .tag t⟩ = l'.tag t := rfl
    rw [hr]
    cases t with
    | savepoint =>
      rw [QueryLoop.tag]
      split
      · exact hop
      · split
        · rintro ⟨⟩
        · exact hop
    | release =>
      rw [QueryLoop.tag]
      split <;> exact hop
    | _ => exact hop

theorem receives_op (rs : List Reply) (h : l.conn.internal_op ≠ .prepend_in_progress) :
    (rs.foldl QueryLoop.receive l).conn.internal_op ≠ .prepend_in_progress := by
  induction rs generalizing l with
  | nil => exact h
  | cons r rs ih => exact ih (receive_op r h)

/-- The answers of a loop: a transaction is believed open if it was, or if an answer stirs. -/
theorem receives_in_trans (rs : List Reply) :
    (rs.foldl QueryLoop.receive l).conn.in_trans = (rs.any Reply.stirs || l.conn.in_trans) := by
  induction rs generalizing l with
  | nil => rfl
  | cons r rs ih =>
    rw [List.foldl_cons, ih, (receive_flags r).1, List.any_cons]
    cases r.stirs <;> cases rs.any Reply.stirs <;> rfl

theorem receives_hooks (rs : List Reply) :
    (rs.foldl QueryLoop.receive l).conn.on_commits = l.conn.on_commits ∧
      (rs.foldl QueryLoop.receive l).conn.on_aborts = l.conn.on_aborts := by
  induction rs generalizing l with
  | nil => exact ⟨rfl, rfl⟩
  | cons r rs ih =>
    obtain ⟨-, -, -, hcommits, haborts⟩ := receive_flags (l := l) r
    exact ⟨ih.1.trans hcommits, ih.2.trans haborts⟩

/-- Without a sign of a rollback none is believed. -/
theorem receives_no_error {rs : List Reply} (hrs : rs.all (!·.rollsBack) = true)
    (h : l.conn.in_error_trans = false) :
    (rs.foldl QueryLoop.receive l).conn.in_error_trans = false := by
  induction rs generalizing l with
  | nil => exact h
  | cons r rs ih =>
    rw [List.all_cons, Bool.and_eq_true] at hrs
    refine ih hrs.2 (Bool.eq_false_iff.mpr fun herr => ?_)
    rcases (receive_flags r).2.1 herr with hr | hr
    · rw [hr] at hrs
      cases hrs.1
    · rw [h] at hr
      cases hr

theorem receives_error_stays (rs : List Reply) (h : l.conn.in_error_trans = true) :
    (rs.foldl QueryLoop.receive l).conn.in_error_trans = true := by
  induction rs generalizing l with
  | nil => exact h
  | cons r rs ih => exact ih ((receive_flags r).2.2.1 (.inl h))

/-- In a transaction every sign of a rollback is heeded. -/
theorem receives_error {rs : List Reply} (hrs : rs.any Reply.rollsBack = true)
    (h : l.conn.in_trans = true) :
    (rs.foldl QueryLoop.receive l).conn.in_error_trans = true := by
  induction rs generalizing l with
  | nil => cases hrs
  | cons r rs ih =>
    rw [List.any_cons, Bool.or_eq_true] at hrs
    rcases hrs with hr | hr
    · exact receives_error_stays rs ((receive_flags r).2.2.1 (.inr (.inr ⟨hr, h⟩)))
    · exact ih hr (by rw [(receive_flags r).1, h, Bool.or_true])

/-- Once a transaction is heard to begin, every sign of a rollback is heeded: an error is the last
answer. -/
theorem receives_error_of_start
    (hstart : (s.query cs).2.any (decide <| ·.outcome = .tag .start_transaction) = true)
    (hrs : (s.query cs).2.any Reply.rollsBack = true) :
    ((s.query cs).2.foldl QueryLoop.receive l).conn.in_error_trans = true := by
  induction cs generalizing s l with
  | nil => cases hrs
  | cons x cs ih =>
    cases hx : (s.exec x).2.failed with
    | true =>
      rw [Server.query_cons_of_failed hx] at hstart
      rw [Reply.failed, decide_eq_true_eq] at hx
      simp [hx] at hstart
    | false =>
      rw [Server.query_cons_of_ok hx] at hstart hrs ⊢
      rw [List.any_cons, Bool.or_eq_true, decide_eq_true_eq] at hstart
      rw [List.any_cons, Bool.or_eq_true, Reply.rollsBack, hx, Bool.false_or,
        decide_eq_true_eq] at hrs
      rw [List.foldl_cons]
      rcases hrs with hr | hr
      · exact receives_error_stays _ ((receive_flags _).2.2.1 (.inr (.inl hr)))
      · rcases hstart with h | h
        · refine receives_error hr ?_
          rw [(receive_flags _).1, Reply.stirs, h]
          simp
        · exact ih h hr

/-! ### What the answers tell -/

namespace Server

theorem aborted_le_exec (s : Server) (x : Sent) : s.aborted ≤ (s.exec x).1.aborted := by
  have h := exec_cases s x
  generalize s.exec x = y at h ⊢
  cases h with
  | rolledBack => exact Nat.le_succ _
  | undone => exact Nat.le_succ _
  | _ => exact Nat.le_refl _

/-- No transaction is rolled back without a sign. -/
theorem aborted_exec (h : (s.exec x).2.rollsBack = false) : (s.exec x).1.aborted = s.aborted := by
  have hcases := exec_cases s x
  generalize s.exec x = y at hcases h ⊢
  cases hcases with
  | rolledBack => cases h
  | undone => cases h
  | _ => rfl

/-- In a failed block every answer is a sign of a rollback. -/
theorem rollsBack_of_failed (h : s.failed = true) : (s.exec x).2.rollsBack = true := by
  have hcases := exec_cases s x
  generalize s.exec x = y at hcases ⊢
  have hblock : ∀ {b : Block}, s.block = some b → b.failed = true :=
    fun hb => (failed_of_block hb).symm.trans h
  cases hcases with
  | refused => rfl
  | rolledBack => rfl
  | undone => rfl
  | returned => rfl
  | opened t hb => rw [failed_of_idle hb] at h; cases h
  | warned t hf => rw [hf] at h; cases h
  | committed b n hb hf => rw [hblock hb] at hf; cases hf
  | marked b name hb hf => rw [hblock hb] at hf; cases hf
  | released b name hb hf => rw [hblock hb] at hf; cases hf
  | idle n out hb => rw [failed_of_idle hb] at h; cases h
  | worked b es n out hb hf => rw [hblock hb] at hf; cases hf

theorem counters_le_query (cs : List Sent) :
    s.committed ≤ (s.query cs).1.committed ∧ s.aborted ≤ (s.query cs).1.aborted := by
  induction cs generalizing s with
  | nil => exact ⟨Nat.le_refl _, Nat.le_refl _⟩
  | cons x cs ih =>
    have hc := committed_le_exec s x
    have ha := aborted_le_exec s x
    cases hx : (s.exec x).2.failed with
    | true =>
      rw [query_cons_of_failed hx]
      exact ⟨hc, ha⟩
    | false =>
      rw [query_cons_of_ok hx]
      exact ⟨Nat.le_trans hc ih.1, Nat.le_trans ha ih.2⟩

theorem aborted_query (h : (s.query cs).2.all (!·.rollsBack) = true) :
    (s.query cs).1.aborted = s.aborted := by
  induction cs generalizing s with
  | nil => rfl
  | cons x cs ih =>
    cases hx : (s.exec x).2.failed with
    | true =>
      rw [query_cons_of_failed hx, List.all_cons, Reply.rollsBack, hx] at h
      cases h
    | false =>
      rw [query_cons_of_ok hx, List.all_cons, Bool.and_eq_true, Bool.not_eq_true'] at h
      rw [query_cons_of_ok hx]
      exact (ih h.2).trans (aborted_exec h.1)

/-- Nothing happens in a failed block without a sign of a rollback. -/
theorem query_of_failed (hf : s.failed = true)
    (h : (s.query cs).2.all (!·.rollsBack) = true) : (s.query cs).1 = s := by
  cases cs with
  | nil => rfl
  | cons x cs =>
    cases hx : (s.exec x).2.failed with
    | true =>
      rw [query_cons_of_failed hx, List.all_cons, rollsBack_of_failed hf] at h
      cases h
    | false =>
      rw [query_cons_of_ok hx, List.all_cons, rollsBack_of_failed hf] at h
      cases h

end Server

/-! ### The end of a query -/

/-- While a transaction is open, the status at the end of a query tells all there is to tell. -/
theorem tracked_update_open (hopen : c.server.isOpen = true)
    (hcommits : c.on_commits = c.server.committed) (haborts : c.on_aborts = c.server.aborted)
    (hop : c.internal_op ≠ .prepend_in_progress) :
    (LIBPQ_update_transaction_status c.server.status c).Tracked := by
  rw [Server.isOpen, Option.isSome_iff_exists] at hopen
  obtain ⟨b, hblock⟩ := hopen
  have hisOpen : c.server.isOpen = true := by rw [Server.isOpen, hblock]; rfl
  have hfailed := Server.failed_of_block hblock
  cases hb : b.failed with
  | true =>
    have hstatus : c.server.status = .inError := by
      rw [Server.status, hblock]
      exact if_pos hb
    rw [hstatus]
    exact ⟨hisOpen.symm, (hfailed.trans hb).symm, hcommits, haborts, hop⟩
  | false =>
    have hstatus : c.server.status = .inTrans := by
      rw [Server.status, hblock]
      exact if_neg (Bool.eq_false_iff.mp hb)
    rw [hstatus]
    exact ⟨hisOpen.symm, (hfailed.trans hb).symm, hcommits, haborts, hop⟩

theorem Server.idle_of_not_open (h : s.isOpen = false) : s.status = .idle ∧ s.failed = false := by
  rw [Server.isOpen] at h
  cases hblock : s.block with
  | none => exact ⟨by rw [Server.status, hblock], Server.failed_of_idle hblock⟩
  | some b => simp [hblock] at h

/-- After a commit that the driver has heard of, `CC_on_commit` runs. -/
theorem tracked_update_commit (hopen : c.server.isOpen = false) (htrans : c.in_trans = true)
    (herror : c.in_error_trans = false) (hcommits : c.on_commits + 1 = c.server.committed)
    (haborts : c.on_aborts = c.server.aborted)
    (hop : c.internal_op ≠ .prepend_in_progress) :
    (LIBPQ_update_transaction_status c.server.status c).Tracked := by
  obtain ⟨hstatus, hfailed⟩ := Server.idle_of_not_open hopen
  rw [hstatus, LIBPQ_update_transaction_status, if_pos htrans, herror, CC_on_commit,
    if_pos htrans]
  exact ⟨hopen.symm, hfailed.symm, hcommits, haborts, by rintro ⟨⟩⟩

/-- After a rollback that the driver has heard of, `CC_on_abort` runs. -/
theorem tracked_update_abort (hopen : c.server.isOpen = false) (htrans : c.in_trans = true)
    (herror : c.in_error_trans = true) (hcommits : c.on_commits = c.server.committed)
    (haborts : c.on_aborts + 1 = c.server.aborted)
    (hop : c.internal_op ≠ .prepend_in_progress) :
    (LIBPQ_update_transaction_status c.server.status c).Tracked := by
  obtain ⟨hstatus, hfailed⟩ := Server.idle_of_not_open hopen
  rw [hstatus, LIBPQ_update_transaction_status, if_pos htrans, if_pos herror, CC_on_abort,
    if_pos htrans]
  exact ⟨hopen.symm, hfailed.symm, hcommits, haborts, by rintro ⟨⟩⟩

/-- Outside a transaction nothing happens. -/
theorem tracked_update_idle (hopen : c.server.isOpen = false) (htrans : c.in_trans = false)
    (herror : c.in_error_trans = false) (hcommits : c.on_commits = c.server.committed)
    (haborts : c.on_aborts = c.server.aborted)
    (hop : c.internal_op ≠ .prepend_in_progress) :
    (LIBPQ_update_transaction_status c.server.status c).Tracked := by
  obtain ⟨hstatus, hfailed⟩ := Server.idle_of_not_open hopen
  rw [hstatus, LIBPQ_update_transaction_status, htrans]
  exact ⟨htrans.trans hopen.symm, herror.trans hfailed.symm, hcommits, haborts, hop⟩

/-- **A text.** After a text that the driver has heard the end of, the flags and the hooks agree
with the server. -/
theorem queryLoop_tracked {p : Protocol} (hp : p = .simple ∨ p = .unprotected) (discard : Bool)
    (text : List Sent) (h : c.Tracked)
    (hx : (⟨p, c.internal_svp, c.server, text⟩ : Exchange).Heard) :
    (LIBPQ_update_transaction_status (queryLoop p discard text c).conn.server.status
      (queryLoop p discard text c).conn).Tracked := by
  obtain ⟨d, hd, hexch⟩ := exchange_eq p text c
  have hheard := hx.1 hp
  rw [queryLoop, hd]
  dsimp only
  generalize hl : (⟨d, discard, false, false⟩ : QueryLoop) = l
  have hconn : l.conn = d := by rw [← hl]
  have hsame := receives_same (l := l) (c.server.query text).2
  have hserver : ((c.server.query text).2.foldl QueryLoop.receive l).conn.server =
      (c.server.query text).1 := by
    rw [hsame.server, hconn, hexch.server]
  have hin := receives_in_trans (l := l) (c.server.query text).2
  have hhooks := receives_hooks (l := l) (c.server.query text).2
  rw [hconn, hexch.in_trans, h.trans] at hin
  rw [hconn, hexch.on_commits, hexch.on_aborts, h.commits, h.aborts] at hhooks
  have hop := receives_op (c.server.query text).2
    (show l.conn.internal_op ≠ .prepend_in_progress by rw [hconn, hexch.internal_op]; exact h.op)
  have hle := Server.counters_le_query (s := c.server) text
  have herror : l.conn.in_error_trans = c.server.failed := by
    rw [hconn, hexch.in_error_trans, h.error]
  simp only [Exchange.EndsHeard, Exchange.after, Exchange.replies, Server.ended] at hheard
  by_cases hopen : (c.server.query text).1.isOpen = true
  · have hheard := hheard.1 hopen
    refine tracked_update_open (by rw [hserver]; exact hopen) ?_ ?_ hop
    · rw [hserver, hhooks.1]
      omega
    · rw [hserver, hhooks.2]
      omega
  · have hopen' := Bool.eq_false_iff.mpr hopen
    rcases hheard.2 hopen' with ⟨hidle, hended, hquiet⟩ | ⟨hknown, hended, hcommit⟩
    · -- nothing to do with a transaction
      have hstirs : (c.server.query text).2.any Reply.stirs = false := by
        rw [List.any_eq_false]
        intro r hr
        have := List.all_eq_true.mp hquiet r hr
        rw [Bool.and_eq_true, Bool.not_eq_true'] at this
        rw [this.1]
        decide
      have hback : (c.server.query text).2.all (!·.rollsBack) = true := by
        rw [List.all_eq_true]
        intro r hr
        exact (Bool.and_eq_true_iff.mp (List.all_eq_true.mp hquiet r hr)).2
      refine tracked_update_idle (by rw [hserver]; exact hopen') ?_ ?_ ?_ ?_ hop
      · rw [hin, hstirs, hidle]
        rfl
      · refine receives_no_error hback (herror.trans ?_)
        exact (Server.idle_of_not_open hidle).2
      · rw [hserver, hhooks.1]
        omega
      · rw [hserver, hhooks.2]
        omega
    · -- one transaction ends, and the driver knows of it
      have htrans : ((c.server.query text).2.foldl QueryLoop.receive l).conn.in_trans = true := by
        rw [hin]
        rcases hknown with hk | hk
        · rw [hk, Bool.or_true]
        · rw [List.any_eq_true] at hk
          obtain ⟨r, hr, hstart⟩ := hk
          have : (c.server.query text).2.any Reply.stirs = true := by
            rw [List.any_eq_true]
            exact ⟨r, hr, by rw [Reply.stirs, hstart, Bool.or_true]⟩
          rw [this]
          rfl
      by_cases hc : (c.server.query text).1.committed = c.server.committed + 1
      · have hback := hcommit hc
        refine tracked_update_commit (by rw [hserver]; exact hopen') htrans ?_ ?_ ?_ hop
        · refine receives_no_error hback (herror.trans (Bool.eq_false_iff.mpr fun hf => ?_))
          rw [Server.query_of_failed hf hback] at hc
          omega
        · rw [hserver, hhooks.1, hc]
        · rw [hserver, hhooks.2]
          omega
      · have hback : (c.server.query text).2.any Reply.rollsBack = true := by
          rw [← Bool.not_eq_false]
          intro hnone
          have hall : (c.server.query text).2.all (!·.rollsBack) = true := by
            rw [List.all_eq_true]
            intro r hr
            rw [Bool.not_eq_true', Bool.eq_false_iff]
            exact List.any_eq_false.mp hnone r hr
          have := Server.aborted_query hall
          omega
        refine tracked_update_abort (by rw [hserver]; exact hopen') htrans ?_ ?_ ?_ hop
        · rcases hknown with hk | hk
          · refine receives_error hback ?_
            rw [hconn, hexch.in_trans, h.trans, hk]
          · exact receives_error_of_start hk hback
        · rw [hserver, hhooks.1]
          omega
        · rw [hserver, hhooks.2]
          omega

end OdbcDriver
