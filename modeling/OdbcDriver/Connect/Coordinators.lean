import Mathlib.Logic.Function.Basic

/-!
# Choosing a coordinator

With `autobalance`, a connection goes to a coordinator of a list: `get_location` picks one at
random and walks on from it, with the step that its place in the list has recorded, while the one
reached is of no use. The loops need not end; they are run with fuel, and without a result where it
runs out.
-/

namespace OdbcDriver.Connect

/-- `EMPTY`, `CORRECT`, `WRONG`. -/
inductive IpStatus
  | empty | correct | wrong
  deriving DecidableEq, Repr

/-- `CnEntry`: a list of coordinators. An array is a function of its index. -/
structure CnEntry where
  ip_count : Nat
  ip_status : Nat → IpStatus
  /-- The step of a walk that begins at a coordinator. It outlives the walk. -/
  step : Nat → Nat

/-- A list, and the coordinators that one connection has visited. -/
structure Visits where
  entry : CnEntry
  visited : Nat → Bool
  visited_count : Nat

/-- `visited[ind] = TRUE; visited_count++`. -/
def Visits.visit (v : Visits) (ind : Nat) : Visits :=
  { v with
    visited := Function.update v.visited ind true
    visited_count := v.visited_count + 1 }

/-- The inner loop of `get_location`: the place and the step, growing at each turn, until a
coordinator is found that has not been visited. -/
def skipVisited (v : Visits) : Nat → Nat → Nat → Option (Nat × Nat)
  | 0, _, _ => none
  | fuel + 1, ind, offset =>
    if v.visited ind = true ∧ v.visited_count ≠ v.entry.ip_count then
      skipVisited v fuel ((ind + offset) % v.entry.ip_count) (offset + 1)
    else some (ind, offset)

/-- The outer loop of `get_location`: a coordinator that is of no use counts as visited. -/
def findUsable : Nat → Visits → Nat → Nat → Option (Visits × Nat × Nat)
  | 0, _, _, _ => none
  | fuel + 1, v, ind, offset =>
    if (v.entry.ip_status ind = .wrong ∨ v.visited ind = true) ∧
        v.visited_count ≠ v.entry.ip_count then
      let v := if v.visited ind then v else v.visit ind
      match skipVisited v fuel ind offset with
      | none => none
      | some (ind, offset) => findUsable fuel v ind offset
    else some (v, ind, offset)

/-- `get_location`, from the random index `start`: the index found, or -1. -/
def get_location (fuel : Nat) (v : Visits) (start : Nat) : Option (Int × Visits) :=
  if v.entry.ip_count = 0 then some (-1, v)
  else
    match findUsable fuel v start (v.entry.step start) with
    | none => none
    | some (v, ind, offset) =>
      let v := { v with
        entry := { v.entry with step := Function.update v.entry.step start offset } }
      if v.visited ind then some (-1, v) else some (ind, v.visit ind)

/-! ### A connection -/

/-- What a connection meets: the coordinators that answer the check, the random number of each
call, and whether the connection made after a call succeeds. -/
structure Network where
  answers : Nat → Bool
  rand : Nat → Nat
  connects : Nat → Nat → Bool

/-- `check_IP_connection`: the status of every coordinator, and whether there is one that
answers. -/
def check_IP_connection (net : Network) (entry : CnEntry) : Bool × CnEntry :=
  ((List.range entry.ip_count).any net.answers,
    { entry with
      ip_status := fun i =>
        if i < entry.ip_count then if net.answers i then .correct else .wrong
        else entry.ip_status i })

/-- How a connection ends. -/
structure Attempt where
  connected : Bool
  /-- The coordinators that were tried, in order. -/
  tried : List Nat

/-- The loop of `connect_random_IP`, at the call number `call`. -/
def tryCoordinators (net : Network) : Nat → Nat → Visits → List Nat → Option Attempt
  | 0, _, _, _ => none
  | fuel + 1, call, v, tried =>
    match get_location fuel v (net.rand call % v.entry.ip_count) with
    | none => none
    | some (ind, v) =>
      if ind = -1 then some ⟨false, tried⟩
      else
        let tried := tried ++ [ind.toNat]
        if net.connects call ind.toNat then some ⟨true, tried⟩
        else tryCoordinators net fuel (call + 1) v tried

/-- No coordinator visited. -/
def Visits.fresh (entry : CnEntry) : Visits := ⟨entry, fun _ => false, 0⟩

/-- `connect_random_IP`. -/
def connect_random_IP (net : Network) (fuel : Nat) (entry : CnEntry) : Option Attempt :=
  let (usable, entry) := check_IP_connection net entry
  if usable then tryCoordinators net fuel 0 (.fresh entry) [] else some ⟨false, []⟩

end OdbcDriver.Connect
