import OdbcDriver.Transaction.ServerRules
import OdbcDriver.Transaction.Statement

/-!
# Rules about the connection

The flags are the driver's and the server is the server's: receiving answers moves flags only.
With the status the server reports at the end of a query, the flags tell whether a transaction
is open.
-/

namespace OdbcDriver

/-- The connections differ in flags alone. -/
structure SameServer (c d : Conn) : Prop where
  server : c.server = d.server
  exchanges : c.exchanges = d.exchanges
  strays : c.strays = d.strays

namespace SameServer

theorem rfl {c : Conn} : SameServer c c := ⟨.refl _, .refl _, .refl _⟩

theorem trans {c d e : Conn} (h : SameServer c d) (h' : SameServer d e) : SameServer c e :=
  ⟨h.server.trans h'.server, h.exchanges.trans h'.exchanges, h.strays.trans h'.strays⟩

end SameServer

variable {c : Conn} {l : QueryLoop} {s : Server}

/-- `d` is `c` after the exchange of a text. -/
structure Exchanged (p : Protocol) (text : List Sent) (c d : Conn) : Prop where
  server : d.server = (c.server.query text).1
  exchanges : d.exchanges = ⟨p, c.internal_svp, c.server, text⟩ :: c.exchanges
  strays : d.strays = c.server.strays text ++ c.strays
  in_trans : d.in_trans = c.in_trans
  in_error_trans : d.in_error_trans = c.in_error_trans
  internal_svp : d.internal_svp = c.internal_svp
  internal_op : d.internal_op = c.internal_op
  on_commits : d.on_commits = c.on_commits
  on_aborts : d.on_aborts = c.on_aborts

theorem exchange_eq (p : Protocol) (text : List Sent) (c : Conn) :
    ∃ d, c.exchange p text = (d, (c.server.query text).2) ∧ Exchanged p text c d :=
  ⟨(c.exchange p text).1, rfl, rfl, rfl, rfl, rfl, rfl, rfl, rfl, rfl, rfl⟩

theorem CC_on_commit_same : SameServer (CC_on_commit c) c := by
  unfold CC_on_commit
  dsimp only
  split <;> exact ⟨rfl, rfl, rfl⟩

theorem CC_on_abort_same : SameServer (CC_on_abort c) c := by
  unfold CC_on_abort
  dsimp only
  split <;> exact ⟨rfl, rfl, rfl⟩

theorem update_same (status : TransactionStatus) :
    SameServer (LIBPQ_update_transaction_status status c) c := by
  cases status with
  | idle =>
    rw [LIBPQ_update_transaction_status]
    split
    · split
      · exact CC_on_abort_same
      · exact CC_on_commit_same
    · exact .rfl
  | _ => exact ⟨rfl, rfl, rfl⟩

theorem handle_same (error : Bool) (status : TransactionStatus) :
    SameServer (handle_pgres_error error status c) c := by
  refine (update_same status).trans ?_
  split
  · exact ⟨rfl, rfl, rfl⟩
  · exact .rfl

theorem tag_same (t : Tag) : SameServer (l.tag t).conn l.conn := by
  cases t with
  | savepoint =>
    rw [QueryLoop.tag]
    split
    · exact .rfl
    · split <;> exact ⟨rfl, rfl, rfl⟩
  | release =>
    rw [QueryLoop.tag]
    split <;> exact ⟨rfl, rfl, rfl⟩
  | _ => exact ⟨rfl, rfl, rfl⟩

/-- The notice of an answer moves `in_trans` alone. -/
theorem receive_notice (r : Reply) :
    l.receive r = { l with conn := { l.conn with in_trans := r.notice || l.conn.in_trans } }.receive
      { r with notice := false } := by
  obtain ⟨notice, o⟩ := r
  cases notice <;> rfl

theorem receive_same (r : Reply) : SameServer (l.receive r).conn l.conn := by
  rw [receive_notice]
  obtain ⟨notice, o⟩ := r
  refine SameServer.trans (d := { l.conn with in_trans := notice || l.conn.in_trans }) ?_
    ⟨rfl, rfl, rfl⟩
  cases o with
  | tag t => exact tag_same t
  | tuples => exact .rfl
  | error => exact handle_same true .active

theorem receives_same (rs : List Reply) :
    SameServer (rs.foldl QueryLoop.receive l).conn l.conn := by
  induction rs generalizing l with
  | nil => exact .rfl
  | cons r rs ih => exact ih.trans (receive_same r)

theorem receiveRollback_same (rs : List Reply) (b : Bool) :
    SameServer (rs.foldl receiveRollback (c, b)).1 c := by
  induction rs generalizing c b with
  | nil => exact .rfl
  | cons r rs ih =>
    rw [List.foldl_cons, receiveRollback]
    split
    · exact (ih b).trans (handle_same _ _)
    · exact ih true

/-! ### Exchanges add up -/

/-- The exchanges of `c` are among those of `d`. -/
def Grows (c d : Conn) : Prop := ∀ x ∈ c.exchanges, x ∈ d.exchanges

theorem SameServer.grows {d : Conn} (h : SameServer d c) : Grows c d := by
  intro x hx
  rw [h.exchanges]
  exact hx

theorem Grows.trans {d e : Conn} (h : Grows c d) (h' : Grows d e) : Grows c e :=
  fun x hx => h' x (h x hx)

theorem exchange_grows (p : Protocol) (text : List Sent) : Grows c (c.exchange p text).1 :=
  fun _ hx => List.mem_cons_of_mem _ hx

theorem queryLoop_grows (p : Protocol) (discard : Bool) (text : List Sent) :
    Grows c (queryLoop p discard text c).conn := by
  refine (exchange_grows p text).trans ?_
  exact (receives_same (l := ⟨(c.exchange p text).1, discard, false, false⟩) _).grows

theorem CC_internal_rollback_query_grows (ignore_abort : Bool) :
    Grows c (CC_internal_rollback_query ignore_abort c).1 := by
  unfold CC_internal_rollback_query
  split
  · exact SameServer.rfl.grows
  · obtain ⟨d, hd, hexch⟩ := exchange_eq .recovery
      [ours (.rollbackTo .per_query_svp), ours (.release .per_query_svp)] c
    have hgrows : Grows c d := by
      intro x hx
      rw [hexch.exchanges]
      exact List.mem_cons_of_mem _ hx
    rw [hd]
    dsimp only
    have hsame := receiveRollback_same (c := d) (c.server.query
      [ours (.rollbackTo .per_query_svp), ours (.release .per_query_svp)]).2 false
    generalize List.foldl receiveRollback _ _ = r at hsame ⊢
    refine (hgrows.trans hsame.grows).trans (Grows.trans ?_ (update_same _).grows)
    split <;> exact fun _ hx => hx

theorem rollbackOnError_grows (flag : QueryFlags) (b b' : Bool) :
    Grows l.conn (rollbackOnError flag b b' l).1 := by
  unfold rollbackOnError
  split
  · split
    · exact CC_internal_rollback_query_grows _
    · split
      · exact exchange_grows _ _
      · exact fun _ hx => hx
  · exact fun _ hx => hx

theorem sendQuery_grows (o : SavepointOptions) (flag : QueryFlags) (query appendq : List Command) :
    Grows c (sendQuery o flag query appendq c).1 := by
  unfold sendQuery
  dsimp only
  refine Grows.trans ?_ (update_same _).grows
  refine Grows.trans ?_ (rollbackOnError_grows _ _ _)
  refine Grows.trans ?_ (queryLoop_grows _ _ _)
  split <;> exact fun _ hx => hx

theorem receiveExtended_same {command : Command} (r : Reply) :
    SameServer (receiveExtended command c r).1 c := by
  unfold receiveExtended
  split
  · split
    · dsimp only
      split <;> exact ⟨rfl, rfl, rfl⟩
    · dsimp only
      split <;> exact ⟨rfl, rfl, rfl⟩
    · exact ⟨rfl, rfl, rfl⟩
  · exact .rfl
  · exact handle_same _ _

end OdbcDriver
