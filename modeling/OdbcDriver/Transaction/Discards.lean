import OdbcDriver.Encoding.Ascii
import OdbcDriver.Lib.CInt
import OdbcDriver.Lib.Except
import OdbcDriver.Lib.HeapArray
import OdbcDriver.Transaction.Connection

/-!
# Objects marked for discard

Prepared statements and portals that cannot be discarded in a transaction in error are marked, and
`CC_discard_marked_objects` sends their commands when the transaction is over or has been taken back
to a savepoint. It is called by the hooks that follow the transaction status; each of its commands is
a query like others, after which the status is followed again, so that a hook may call it while it is
running. An entry is freed and taken off the count only when its command has been answered.

The hooks' other work, on cursors and on the rows that changed, is left out.

* `length_le_of_discard`: a call sends a command for each entry at least;
* `length_le_of_sendDiscard`: so does a command by way of the hooks.
-/

namespace OdbcDriver.Discards

open Lib (bind_eq_ok)

/-! ### Marking -/

/-- A marked object, `pname`: the type in front of the name. -/
structure Marked where
  type : Byte
  plan : List Byte
deriving DecidableEq

/-- A connection, with the objects that are marked. -/
structure DiscardConn where
  conn : Conn
  on_commit_in_progress : Bool
  /-- The entries, of which those that have been freed are `NULL`. -/
  discardp : List (Option Marked)
  /-- `Int2` -/
  num_discardp : ℤ
  /-- What `num_discardp` has been, latest first. -/
  counts : List ℤ
  /-- The commands that have been sent, latest first. -/
  sent : List (List Byte)

/-- `CC_mark_a_object_to_discard`. There is no memory of a negative size. -/
def CC_mark_a_object_to_discard (pname : Marked) (s : DiscardConn) : Option DiscardConn :=
  let cnt := s.num_discardp + 1
  if cnt ≤ 0 then none
  else
    some { s with
      discardp := (HeapArray.realloc s.discardp cnt.toNat none).set s.num_discardp.toNat (some pname)
      num_discardp := CInt.wrap 16 cnt }

/-- The command in `cmd[64]`. -/
def discardCommand (pname : Marked) : List Byte :=
  (ascii (if pname.type = 0x73 then "DEALLOCATE \"" else "CLOSE \"") ++ pname.plan ++ [0x22]).take 63

/-! ### Hooks -/

/-- Why there is no result. -/
inductive Fault
  /-- An entry is used that has been freed, or was never there. -/
  | freed
  /-- The calls are nested deeper than allowed. -/
  | fuel
deriving DecidableEq

section Hooks

variable (discard : DiscardConn → Except Fault DiscardConn)

/-- `CC_on_commit` -/
def on_commit (s : DiscardConn) : Except Fault DiscardConn :=
  if s.on_commit_in_progress then .ok s
  else do
    let s ← discard { s with conn := CC_on_commit s.conn, on_commit_in_progress := true }
    return { s with on_commit_in_progress := false }

/-- `CC_on_abort` with `NO_TRANS` -/
def on_abort (s : DiscardConn) : Except Fault DiscardConn :=
  let t := { s with conn := CC_on_abort s.conn }
  if s.conn.in_trans then discard t else .ok t

/-- `CC_on_abort_partial` -/
def on_abort_partial (s : DiscardConn) : Except Fault DiscardConn := discard s

/-- `LIBPQ_update_transaction_status`, once a query is over. -/
def update_transaction_status (s : DiscardConn) : Except Fault DiscardConn :=
  match s.conn.server.status with
  | .idle =>
    if s.conn.in_trans then
      if s.conn.in_error_trans then on_abort discard s else on_commit discard s
    else .ok s
  | .inTrans =>
    let t := { s with conn := { s.conn with in_trans := true } }
    if s.conn.in_error_trans then
      on_abort_partial discard { t with conn := t.conn.set_no_error_trans }
    else .ok t
  | .inError => .ok { s with conn := { s.conn with in_trans := true, in_error_trans := true } }
  | .active => .ok { s with conn := { s.conn with in_trans := true } }

/-! ### A command -/

/-- `CC_internal_rollback` with `PER_QUERY_ROLLBACK`, ignoring the abort. -/
def internal_rollback (s : DiscardConn) : Except Fault DiscardConn :=
  if !s.conn.in_error_trans then .ok s
  else
    let (c, rs) := s.conn.exchange .recovery
      [ours (.rollbackTo .per_query_svp), ours (.release .per_query_svp)]
    let (c, ret) := rs.foldl receiveRollback (c, false)
    update_transaction_status discard { s with conn := if !ret then c.set_no_error_trans else c }

/-- The flags of `CC_send_query` for a discard command. -/
def discardFlags : QueryFlags :=
  { ignore_abort_on_conn := true, go_into_transaction := false, rollback_on_error := true,
    end_with_commit := false, read_only_query := true }

/-- The command at the server, which carries it out or not. -/
def discardWork (ok : Bool) : Command := .work ⟨none, ok, false, false⟩

/-- The clean-up of `CC_send_query_append`: a query to be rolled back on error is. -/
def roll_back_on_error (rollback_on_error query_rollback discard_next_savepoint : Bool)
    (s : DiscardConn) : Except Fault DiscardConn :=
  if rollback_on_error && s.conn.in_trans && !discard_next_savepoint then
    if query_rollback then internal_rollback discard s
    else if s.conn.in_error_trans then
      .ok { s with conn := (s.conn.exchange .recovery [ours .rollback]).1 }
    else .ok s
  else .ok s

/-- `CC_send_query` with a discard command. -/
def sendDiscard (o : SavepointOptions) (ok : Bool) (cmd : List Byte) (s : DiscardConn) :
    Except Fault DiscardConn :=
  let rollback_on_error := considerRollback discardFlags [discardWork ok] s.conn
  let query_rollback := rollback_on_error && o.version_ge_8_0
  let per_query := query_rollback && !o.for_extension_connector
  let prepend := decide (s.conn.internal_op = .prepend_in_progress)
  let opening :=
    if per_query then [ours (.savepoint .per_query_svp)]
    else if prepend then savepointCommand s.conn
    else []
  let c := if !per_query && prepend then s.conn.set_internal_op .savepoint_in_progress else s.conn
  let text := opening ++ theirs [discardWork ok] ++
    if per_query then [ours (.release .per_query_svp)] else []
  let protocol := if query_rollback && !per_query then .unprotected else .simple
  let l := queryLoop protocol per_query text c
  roll_back_on_error discard rollback_on_error query_rollback l.discard_next_savepoint
      { s with conn := l.conn, sent := cmd :: s.sent } >>=
    update_transaction_status discard

end Hooks

/-! ### The loop -/

/-- The entry is freed, and taken off the count. -/
def DiscardConn.free (i : ℕ) (s : DiscardConn) : DiscardConn :=
  { s with
    discardp := s.discardp.set i none
    num_discardp := s.num_discardp - 1
    counts := (s.num_discardp - 1) :: s.counts }

/-- The loop of `CC_discard_marked_objects`, from the entry in front of `i` down. -/
def discardLoop (send : Marked → DiscardConn → Except Fault DiscardConn) :
    ℕ → DiscardConn → Except Fault DiscardConn
  | 0, s => .ok s
  | i + 1, s =>
    match s.discardp[i]?.join with
    | none => .error .freed
    | some pname => do
      let s ← send pname s
      discardLoop send i (s.free i)

/-- `CC_discard_marked_objects`, with calls nested so many deep. `answers` tells which of the
commands the server carries out when it can, in the order they are sent in. -/
def CC_discard_marked_objects (o : SavepointOptions) (answers : ℕ → Bool) :
    ℕ → DiscardConn → Except Fault DiscardConn
  | 0, _ => .error .fuel
  | fuel + 1, s =>
    if s.num_discardp ≤ 0 then .ok s
    else
      discardLoop (fun pname s =>
        sendDiscard (CC_discard_marked_objects o answers fuel) o (answers s.sent.length)
          (discardCommand pname) s) s.num_discardp.toNat s

/-! ### What has been sent -/

/-- A call that ends has sent a command for each entry, at least. -/
def Sends (discard : DiscardConn → Except Fault DiscardConn) : Prop :=
  ∀ s t, discard s = .ok t → s.sent.length + s.num_discardp.toNat ≤ t.sent.length

variable {discard : DiscardConn → Except Fault DiscardConn} {s t : DiscardConn}

theorem length_le_of_update (h : Sends discard)
    (hok : update_transaction_status discard s = .ok t) : s.sent.length ≤ t.sent.length := by
  have hsends : ∀ {u v : DiscardConn}, discard u = .ok v → u.sent = s.sent →
      s.sent.length ≤ v.sent.length :=
    fun hok heq => heq ▸ (Nat.le_add_right _ _).trans (h _ _ hok)
  have hsame : ∀ {u : DiscardConn}, Except.ok u = (Except.ok t : Except Fault DiscardConn) →
      u.sent = s.sent → s.sent.length ≤ t.sent.length :=
    fun hok heq => (Except.ok.inj hok) ▸ heq ▸ le_rfl
  unfold update_transaction_status at hok
  split at hok
  · split at hok
    · rename_i hin
      split at hok
      · rw [on_abort, if_pos hin] at hok
        exact hsends hok rfl
      · unfold on_commit at hok
        split at hok
        · exact hsame hok rfl
        · obtain ⟨u, hu, hv⟩ := bind_eq_ok.mp hok
          obtain rfl := Except.ok.inj hv
          have hlength := hsends hu rfl
          exact hlength
    · exact hsame hok rfl
  · dsimp only at hok
    split at hok
    · exact hsends hok rfl
    · exact hsame hok rfl
  · exact hsame hok rfl
  · exact hsame hok rfl

theorem length_le_of_internal_rollback (h : Sends discard)
    (hok : internal_rollback discard s = .ok t) : s.sent.length ≤ t.sent.length := by
  unfold internal_rollback at hok
  split at hok
  · exact (Except.ok.inj hok) ▸ le_rfl
  · have hlength := length_le_of_update h hok
    exact hlength

theorem length_le_of_roll_back (h : Sends discard) {b b' b'' : Bool}
    (hok : roll_back_on_error discard b b' b'' s = .ok t) : s.sent.length ≤ t.sent.length := by
  unfold roll_back_on_error at hok
  split at hok
  · split at hok
    · exact length_le_of_internal_rollback h hok
    · split at hok <;> exact (Except.ok.inj hok) ▸ le_rfl
  · exact (Except.ok.inj hok) ▸ le_rfl

theorem length_le_of_sendDiscard (h : Sends discard) {o : SavepointOptions} {ok : Bool}
    {cmd : List Byte} (hok : sendDiscard discard o ok cmd s = .ok t) :
    s.sent.length + 1 ≤ t.sent.length := by
  obtain ⟨u, hu, ht⟩ := bind_eq_ok.mp hok
  have hrecover := length_le_of_roll_back h hu
  exact hrecover.trans (length_le_of_update h ht)

theorem length_le_of_loop {send : Marked → DiscardConn → Except Fault DiscardConn}
    (hsend : ∀ pname s t, send pname s = .ok t → s.sent.length + 1 ≤ t.sent.length) (i : ℕ)
    (hok : discardLoop send i s = .ok t) : s.sent.length + i ≤ t.sent.length := by
  induction i generalizing s with
  | zero => exact (Except.ok.inj hok) ▸ le_rfl
  | succ i ih =>
    rw [discardLoop] at hok
    split at hok
    · exact absurd hok (by simp)
    · obtain ⟨u, hu, ht⟩ := bind_eq_ok.mp hok
      have hone := hsend _ _ _ hu
      have hrest : (u.free i).sent.length + i ≤ t.sent.length := ih ht
      have hfree : (u.free i).sent = u.sent := rfl
      rw [hfree] at hrest
      omega

/-- However deep the calls are nested, each sends a command for each entry it finds. -/
theorem length_le_of_discard (o : SavepointOptions) (answers : ℕ → Bool) (fuel : ℕ) :
    Sends (CC_discard_marked_objects o answers fuel) := by
  induction fuel with
  | zero => exact fun s t hok => absurd hok (by simp [CC_discard_marked_objects])
  | succ fuel ih =>
    intro s t hok
    rw [CC_discard_marked_objects] at hok
    split at hok
    · rename_i hnone
      obtain rfl := Except.ok.inj hok
      omega
    · exact length_le_of_loop (fun _ _ _ hsend => length_le_of_sendDiscard ih hsend) _ hok

end OdbcDriver.Discards
