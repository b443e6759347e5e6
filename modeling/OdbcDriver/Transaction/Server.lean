import OdbcDriver.Lib.Savepoint

/-!
# The server's side of a transaction

What the server does with the commands of a query as far as transaction blocks go: outside a
block every command stands for itself, inside one an error fails the block until it is ended or
taken back to a savepoint. A query is answered command by command up to the first error.

Which commands fail for a reason of their own and which come with a notice is the server's
choice, and part of the command here.
-/

namespace OdbcDriver

/-! ### Commands -/

/-- The names of savepoints: `_per_query_svp_`, `_EXEC_SVP_` with the address of the connection,
and any other. -/
inductive SavepointName
  | per_query_svp
  | exec_svp
  | named (name : String)
deriving DecidableEq, Repr

/-- A savepoint, and whether the driver has sent it of its own accord. -/
structure Savepoint where
  name : SavepointName
  internal : Bool
deriving DecidableEq, Repr

/-- A command that leaves the transaction block to the others. -/
structure Work where
  /-- What it changes, if anything. -/
  effect : Option Nat
  /-- The server carries it out. -/
  ok : Bool
  notice : Bool
  /-- It returns rows. -/
  tuples : Bool
deriving DecidableEq, Repr

/-- A command of a query. -/
inductive Command
  /-- `START TRANSACTION` -/
  | start
  /-- `BEGIN` -/
  | begin_
  /-- `COMMIT`, which deferred checks may refuse, with a notice or not. -/
  | commit (ok notice : Bool)
  | rollback
  | savepoint (name : SavepointName)
  | rollbackTo (name : SavepointName)
  | release (name : SavepointName)
  | work (w : Work)
deriving DecidableEq, Repr

/-- A command on its way, and whether the driver sends it of its own accord. -/
structure Sent where
  command : Command
  internal : Bool
deriving DecidableEq, Repr

/-- Commands of the application. -/
def theirs (query : List Command) : List Sent := query.map (⟨·, false⟩)

/-- A command of the driver. -/
def ours (command : Command) : Sent := ⟨command, true⟩

/-! ### Answers -/

/-- The command tags the driver looks at. -/
inductive Tag
  | start_transaction
  | begin_
  | commit
  | rollback
  | savepoint
  | release
  | other
deriving DecidableEq, Repr

/-- How a command ends. -/
inductive Outcome
  | tag (t : Tag)
  | tuples
  | error
deriving DecidableEq, Repr

/-- The answer to a command: a notice or not, then how it ends. -/
structure Reply where
  notice : Bool
  outcome : Outcome
deriving DecidableEq, Repr

/-- The answer is an error. -/
def Reply.failed (r : Reply) : Bool := decide (r.outcome = .error)

/-! ### Transaction blocks -/

/-- An open transaction block. -/
structure Block where
  log : Log Savepoint Nat
  /-- Commands are ignored until the end of the block. -/
  failed : Bool

/-- The server: the open transaction block, and how many have been committed and rolled back. -/
structure Server where
  block : Option Block
  committed : Nat
  aborted : Nat

/-- `PQtransactionStatus` -/
inductive TransactionStatus
  | idle
  | active
  | inTrans
  | inError
deriving DecidableEq, Repr

namespace Server

/-- The status the server reports once a query is over. -/
def status (s : Server) : TransactionStatus :=
  match s.block with
  | none => .idle
  | some b => if b.failed then .inError else .inTrans

/-- A transaction block is open. -/
def isOpen (s : Server) : Bool := s.block.isSome

/-- The open transaction block has failed. -/
def failed (s : Server) : Bool := s.block.any (·.failed)

/-- The latest savepoint of a name. -/
def latest (s : Server) (name : SavepointName) : Option Savepoint :=
  s.block.bind fun b => b.log.latest (·.name == name)

/-- How many transaction blocks have ended. -/
def ended (s : Server) : Nat := s.committed + s.aborted

/-- An error: the open block fails. -/
def fail (s : Server) : Server × Reply :=
  ({ s with block := s.block.map ({ · with failed := true }) }, ⟨false, .error⟩)

/-- A command that no transaction block, or one that has not failed, carries out. -/
def exec (s : Server) (c : Sent) : Server × Reply :=
  match c.command, s.block with
  | .start, none => ({ s with block := some ⟨[], false⟩ }, ⟨false, .tag .start_transaction⟩)
  | .start, some b => if b.failed then s.fail else (s, ⟨true, .tag .start_transaction⟩)
  | .begin_, none => ({ s with block := some ⟨[], false⟩ }, ⟨false, .tag .begin_⟩)
  | .begin_, some b => if b.failed then s.fail else (s, ⟨true, .tag .begin_⟩)
  | .commit _ _, none => (s, ⟨true, .tag .commit⟩)
  | .commit ok notice, some b =>
    if b.failed then
      ({ s with block := none, aborted := s.aborted + 1 }, ⟨false, .tag .rollback⟩)
    else if ok then
      ({ s with block := none, committed := s.committed + 1 }, ⟨notice, .tag .commit⟩)
    else ({ s with block := none, aborted := s.aborted + 1 }, ⟨notice, .error⟩)
  | .rollback, none => (s, ⟨true, .tag .rollback⟩)
  | .rollback, some _ =>
    ({ s with block := none, aborted := s.aborted + 1 }, ⟨false, .tag .rollback⟩)
  | .savepoint _, none => s.fail
  | .savepoint name, some b =>
    if b.failed then s.fail
    else
      ({ s with block := some { b with log := .savepoint ⟨name, c.internal⟩ :: b.log } },
        ⟨false, .tag .savepoint⟩)
  | .rollbackTo _, none => s.fail
  | .rollbackTo name, some b =>
    if (s.latest name).isSome then
      ({ s with block := some ⟨b.log.rollbackTo (·.name == name), false⟩ },
        ⟨false, .tag .rollback⟩)
    else s.fail
  | .release _, none => s.fail
  | .release name, some b =>
    if b.failed then s.fail
    else if (s.latest name).isSome then
      ({ s with block := some { b with log := b.log.release (·.name == name) } },
        ⟨false, .tag .release⟩)
    else s.fail
  | .work w, none =>
    (s, ⟨w.notice, if w.ok then (if w.tuples then .tuples else .tag .other) else .error⟩)
  | .work w, some b =>
    if b.failed then s.fail
    else if w.ok then
      ({ s with block := some { b with log := w.effect.toList.map .effect ++ b.log } },
        ⟨w.notice, if w.tuples then .tuples else .tag .other⟩)
    else (s.fail.1, ⟨w.notice, .error⟩)

/-- The commands of a query, up to the first error. -/
def query (s : Server) : List Sent → Server × List Reply
  | [] => (s, [])
  | c :: cs =>
    let (t, r) := s.exec c
    if r.failed then (t, [r])
    else
      let (u, rs) := query t cs
      (u, r :: rs)

/-- The savepoint that a command of the driver goes back to or releases is there, and the
driver's. -/
def refers (s : Server) (c : Sent) : Bool :=
  match c.command with
  | .rollbackTo name | .release name => !c.internal || s.latest name == some ⟨name, true⟩
  | _ => true

/-- The commands of a query that refer to no savepoint of the driver when their turn comes; what
follows an error has its turn then. -/
def strays (s : Server) : List Sent → List Sent
  | [] => []
  | c :: cs =>
    (if s.refers c then [] else [c]) ++
      if (s.exec c).2.failed then cs.filter (!(s.exec c).1.refers ·) else strays (s.exec c).1 cs

end Server

end OdbcDriver
