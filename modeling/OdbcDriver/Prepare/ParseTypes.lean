import OdbcDriver.Lib.Except
import OdbcDriver.Param.Bind

/-!
# The parameter types of a Parse request

With server-side prepare, `prepareParametersNoDesc` replaces the markers of a statement by `$1`,
`$2`, ..., command by command, and `desc_params_and_sync` has each command parsed. `ParseWithLibpq`
tells the server the type of every parameter: it counts the parameters with `SC_param_next`,
allocates as many types, and fills them in by the parameters' numbers. The marker of a return
value, as in `{? = call f(?)}`, is a parameter of the statement that no `$n` stands for.

A statement is the commands that the lexers divide it into, and a command its markers.
-/

namespace OdbcDriver.Prepare

open CInt (wrap)
open Lib

/-! ### The statement -/

/-- A marker of a statement. -/
inductive Marker
  /-- The marker behind the opening brace of a procedure call. -/
  | returnValue
  | parameter
  deriving DecidableEq, Repr

/-- `PGAPI_NumParams`: the markers of all commands. The return value of a procedure is one only
where it is the first marker. -/
def PGAPI_NumParams (stmt : StatementClass) (commands : List (List Marker)) : StatementClass :=
  { stmt with
    num_params := commands.flatten.length
    proc_return := match commands.flatten with
      | .returnValue :: _ => 1
      | _ => 0 }

/-! ### The numbers of the markers -/

/-- A marker: the query being built behind it and, where a `$n` is written, the number of the
parameter and `n`. The model stops where the number of a parameter leaves its type, `Int2`. -/
def processMarker (env : Env) (qb : QueryBuild) (m : Marker) :
    Except Fault (QueryBuild × List (Int × Int)) :=
  if qb.param_number = 32767 then .error .undefined
  else
    match m with
    | .returnValue =>
      .ok ({ qb with param_number := qb.param_number + 1, proc_return := 1 }, [])
    | .parameter => do
      let r ← ResolveOneParam env qb none
      return (r.qb, if r.qb.dollar_number = qb.dollar_number then []
        else [(r.qb.param_number, r.qb.dollar_number)])

/-- The markers of a command. -/
def processMarkers (env : Env) (qb : QueryBuild) :
    List Marker → Except Fault (QueryBuild × List (Int × Int))
  | [] => .ok (qb, [])
  | m :: ms => do
    let (qb, numbered) ← processMarker env qb m
    let (qb, rest) ← processMarkers env qb ms
    return (qb, numbered ++ rest)

/-- The commands. A semicolon resets the dollar number. -/
def processCommands (env : Env) (qb : QueryBuild) :
    List (List Marker) → Except Fault (QueryBuild × List (List (Int × Int)))
  | [] => .ok (qb, [])
  | c :: cs => do
    let (qb, numbered) ← processMarkers env qb c
    let (qb, rest) ← processCommands env { qb with dollar_number := 0 } cs
    return (qb, numbered :: rest)

/-- What `prepareParametersNoDesc` leaves. -/
structure Prepared where
  /-- The statement; `convert_escape` sets its `proc_return`. -/
  stmt : StatementClass
  /-- The `num_params` of each command. -/
  counts : List Int
  /-- The parameters of each command that a `$n` stands for, with their `n`. -/
  numbered : List (List (Int × Int))

/-- `prepareParametersNoDesc` -/
def prepareParametersNoDesc (env : Env) (stmt : StatementClass) (fake_params param_cast : Bool)
    (commands : List (List Marker)) : Except Fault Prepared := do
  let qb := QB_initialize stmt (if fake_params then .fakeParams else .buildingPrepareStatement)
  let (qb, numbered) ←
    processCommands env { qb with flags := { qb.flags with paramCast := param_cast } } commands
  return {
    stmt := { stmt with proc_return := qb.proc_return }
    counts := commands.map fun c => if fake_params then 0 else wrap 16 c.length
    numbered := numbered }

/-! ### The Parse requests -/

/-- A call of `ParseAndDescribeWithLibpq`. -/
structure ParseCall where
  /-- The number of the command. -/
  command : Nat
  current_exec_param : Int
  num_params : Int
  deriving DecidableEq, Repr

/-- The commands behind the first one: those that have parameters. -/
def laterCalls (command : Nat) (num_pa : Int) : List Int → List ParseCall
  | [] => []
  | n :: ns =>
    if 0 < n then ⟨command, num_pa, n⟩ :: laterCalls (command + 1) (wrap 16 (num_pa + n)) ns
    else laterCalls (command + 1) num_pa ns

/-- `desc_params_and_sync`, as far as the server accepts the commands. -/
def desc_params_and_sync : List Int → List ParseCall
  | [] => []
  | n :: ns => ⟨0, 0, n⟩ :: laterCalls 1 (wrap 16 n) ns

/-- `SC_param_next` -/
def SC_param_next (stmt : StatementClass) (param_number : Int) : Int :=
  let next := if param_number < 0 then stmt.proc_return else param_number + 1
  if stmt.discard_output_params then
    next + ((stmt.ipdopts.parameters.drop next.toNat).takeWhile (·.paramType = .output)).length
  else next

/-- The loop of `ParseWithLibpq` that counts the parameters: `sta_pidx` and `num_params` behind
it. -/
def countTypes (stmt : StatementClass) (end_pidx : Int) :
    Nat → Int → Int → Int → Option (Int × Int)
  | 0, _, _, _ => none
  | fuel + 1, pidx, sta_pidx, num_params =>
    let pidx := SC_param_next stmt pidx
    if end_pidx < pidx then some (sta_pidx, num_params)
    else if pidx < end_pidx then
      countTypes stmt end_pidx fuel pidx (if num_params = 0 then pidx else sta_pidx)
        (num_params + 1)
    else some (sta_pidx, num_params + 1)

/-- The type that the server is told for a parameter: output parameters are void, and of one that
is not described nothing is known. -/
def paramType (conn : ConnectionClass) (ipdopts : IPDFields) (i : Int) : Oid :=
  match ipdopts.parameters[i.toNat]? with
  | some p => if p.paramType = .output then PG_TYPE_VOID else sqltype_to_bind_pgtype conn p.SQLType
  | none => 0

/-- The arguments of `PQprepare`: the number of types, which is that of the types allocated, and
the types written. -/
structure ParamTypes where
  num_params : Int
  paramTypes : List Oid
  deriving DecidableEq, Repr

/-- `ParseWithLibpq` -/
def ParseWithLibpq (stmt : StatementClass) (call : ParseCall) : Option ParamTypes :=
  if stmt.discard_output_params ∨ call.num_params = 0 then some ⟨0, []⟩
  else
    let sta_pidx := call.current_exec_param
    let end_pidx :=
      if call.num_params < 0 then wrap 16 stmt.num_params - 1 else sta_pidx + call.num_params - 1
    match countTypes stmt end_pidx (end_pidx.toNat + 2) (sta_pidx - 1) sta_pidx 0 with
    | none => none
    | some (sta_pidx, num_params) =>
      some ⟨num_params, if 0 < num_params then
        (List.range (end_pidx + 1 - sta_pidx).toNat).map fun (d : Nat) =>
          paramType stmt.conn stmt.ipdopts (sta_pidx + d)
        else []⟩

end OdbcDriver.Prepare
