import OdbcDriver.Lib.NthPresent
import OdbcDriver.Result.KeySet

/-!
# The n-th valid row of a result

To position on a row `getNthValid` skips the rows that were deleted. It has three ways: where no
deletion is counted it computes the position; of a result with a server cursor it goes through the
sorted list of deleted rows; of any other result it looks at the status of each key.

What is valid is said by `RowTable.isDeleted`, of the list and of the keys that are cached; `Right`
says what the claim of the function is. The list and the keys may disagree: a row that another
transaction deleted is marked in its key when it is read again, and neither goes to the list nor is
counted (`RowTable.Consistent`).
-/

namespace OdbcDriver.ValidRows

open CInt Gaps Result

/-- The directions: `SQL_FETCH_PRIOR`, and any other. -/
inductive Orientation | next | prior
  deriving DecidableEq

/-- The part of a `QResultClass` that valid rows are looked for in. -/
structure RowTable where
  cursor : Bool
  reached_eof : Bool
  num_total_tuples : Nat
  dl_count : Nat
  deleted : List Int
  keyset : List KeySet
  /-- The row of the first key that is cached. -/
  key_start : Int
  rows_lt : num_total_tuples < 2 ^ 62
  counted : cursor = true → dl_count = deleted.length
  sorted : deleted.Pairwise (· < ·)
  /-- The deleted rows are rows of the result. -/
  rows : ∀ d ∈ deleted, 0 ≤ d ∧ d < if reached_eof then (num_total_tuples : Int) else 2147483647
  /-- All keys of a result without a cursor are cached, from the first row on. -/
  key_first : cursor = false → key_start = 0
  keys_le : cursor = false → keyset.length ≤ if reached_eof then num_total_tuples else 2147483647

/-- `num_tuples`: `INT_MAX` while the end has not been reached. -/
def RowTable.num_tuples (r : RowTable) : Nat :=
  if r.reached_eof then r.num_total_tuples else 2147483647

/-- The bits of a row that is deleted. -/
def deletedBits : BitVec 16 := cursSelfDeleting ||| cursSelfDeleted ||| cursOtherDeleted

/-- The key says that its row is deleted. -/
def gone (k : KeySet) : Bool := k.status &&& deletedBits != 0

/-- `for (i = sta; i >= 0; i--)`, of the rows before place `i`. -/
def scanPrior (keyset : List KeySet) (nth : Nat) : Nat → Nat → Option (Int × Int)
  | 0, count => some (-(count : Int), -1)
  | i + 1, count =>
    match keyset[i]? with
    | none => none
    | some k =>
      if gone k then scanPrior keyset nth i count
      else if count + 1 = nth then some ((count + 1 : Nat), (i : Int))
      else scanPrior keyset nth i (count + 1)

/-- `for (i = sta; i < num_tuples; i++)`, of as many rows as are left. -/
def scanNext (keyset : List KeySet) (num_tuples : Int) (nth : Nat) :
    Nat → Int → Nat → Option (Int × Int)
  | 0, _, count => some (-(count : Int), num_tuples)
  | left + 1, i, count =>
    match if 0 ≤ i then keyset[i.toNat]? else none with
    | none => none
    | some k =>
      if gone k then scanNext keyset num_tuples nth left (i + 1) count
      else if count + 1 = nth then some ((count + 1 : Nat), i)
      else scanNext keyset num_tuples nth left (i + 1) (count + 1)

/-- `getNthValid`: what it returns, and `*nearest`. There is no answer where it looks at a key that is
not there. -/
def getNthValid (r : RowTable) (sta : Int) (orientation : Orientation) (nth : Nat) :
    Option (Int × Int) :=
  let num_tuples : Int := r.num_tuples
  if r.dl_count = 0 then
    match orientation with
    | .prior =>
      if wrap 64 nth ≤ wrap 64 (sta + 1) then some (wrap 64 nth, wrap 64 (sta + 1 - nth))
      else some (wrap 64 (-(sta + 1)), -1)
    | .next =>
      let nearp := wrap 64 (sta - 1 + nth)
      if nearp < num_tuples then some (wrap 64 nth, nearp)
      else some (wrap 64 (-(num_tuples - sta)), num_tuples)
  else if r.cursor then
    match orientation with
    | .prior =>
      let s := skipDown sta r.deleted.reverse (r.dl_count - 1) (wrap 64 (sta + 1 - nth)) (-1)
      if s.1 < 0 then some (wrap 64 (-(sta - s.2)), -1) else some (wrap 64 nth, s.1)
    | .next =>
      let s := skipUp sta r.deleted 0 (wrap 64 (sta - 1 + nth)) r.dl_count
      if num_tuples ≤ s.1 then
        some (wrap 64 (-(num_tuples - sta + s.2 - r.dl_count)), num_tuples)
      else some (wrap 64 nth, s.1)
  else
    match orientation with
    | .prior => scanPrior r.keyset nth (sta + 1).toNat 0
    | .next => scanNext r.keyset num_tuples nth (num_tuples - sta).toNat sta 0

/-! ### The n-th valid row -/

/-- The key of a row, where it is cached. -/
def RowTable.keyAt (r : RowTable) (i : Int) : Option KeySet :=
  if 0 ≤ i - r.key_start then r.keyset[(i - r.key_start).toNat]? else none

/-- The row is deleted: the list has it, or its key says so. -/
def RowTable.isDeleted (r : RowTable) (i : Int) : Bool :=
  (r.cursor && decide (i ∈ r.deleted)) || (r.keyAt i).any gone

/-- The answer is the `n`-th valid row from the start on, in the direction; or the negated number of
valid rows, where there are fewer. -/
def Right (r : RowTable) (sta : Int) (orientation : Orientation) (nth : Nat) : Prop :=
  ∃ answer, getNthValid r sta orientation nth = some answer ∧
    match orientation with
    | .next => FirstUp r.num_tuples (fun i => !r.isDeleted i) sta nth answer
    | .prior => FirstDown r.num_tuples (fun i => !r.isDeleted i) sta nth answer

/-- What is looked at says which rows are deleted: the list, or no deletion, is not contradicted by a
key; and where the keys are looked at, each row has one. -/
def RowTable.Consistent (r : RowTable) : Prop :=
  ∀ i : Nat, i < r.num_tuples →
    if r.cursor = false ∧ r.dl_count ≠ 0 then i < r.keyset.length
    else (r.keyAt i).any gone = true → r.cursor = true ∧ (i : Int) ∈ r.deleted

/-- The rows that the list has, where there is a list. -/
def RowTable.listed (r : RowTable) : List Int := if r.cursor then r.deleted else []

/-- The start is a row or the place next to the rows, and the position stays in 64 bits. Keys are only
looked at from a row on. -/
def RowTable.Within (r : RowTable) (sta : Int) (orientation : Orientation) (nth : Nat) : Prop :=
  if r.cursor = false ∧ r.dl_count ≠ 0 then
    match orientation with
    | .next => 0 ≤ sta
    | .prior => sta < r.num_tuples
  else
    match orientation with
    | .next => 0 ≤ sta ∧ sta ≤ r.num_tuples ∧
        sta - 1 + nth + missingIn r.listed sta r.num_tuples < 2 ^ 63
    | .prior => -1 ≤ sta ∧ sta < r.num_tuples ∧
        if r.dl_count = 0 then nth < 2 ^ 63
        else -2 ^ 63 ≤ sta + 1 - nth - missingIn r.listed 0 (sta + 1)

end OdbcDriver.ValidRows
