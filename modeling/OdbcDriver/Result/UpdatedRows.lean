import OdbcDriver.Lib.Doubling
import OdbcDriver.Lib.SkipErase
import OdbcDriver.Result.PositionedChanges

/-!
# The lists of updated rows

A result that is read through a server cursor keeps what its rows were updated to: for each update
the number of the row, the row's key and, unless the cursor is keyset-driven, the row's data. The
three arrays run in parallel and are enlarged together (`enlargeUpdated`).

The arrays are lists of the `up_count` entries that are used. `UpdatedRows.Holds` says which entries
the arrays hold together; `UpdatedRows.Reachable` are the states that the functions here lead to,
whatever the rest of the driver does to the rows that were read and added meanwhile. The flag of the
connection that `AddUpdated` sets is left out.
-/

namespace OdbcDriver.RowLists

open CInt Doubling Result SkipErase

/-- The fields of a row; a field without a text is NULL. -/
abbrev Tuple := List (Option (List UInt8))

/-- The row version a key says: its `ctid`. -/
def ctid (k : KeySet) : BitVec 32 × BitVec 16 := (k.blocknum, k.offset)

/-- The rows that were added: their keys, and their data unless the cursor is keyset-driven. -/
structure AddedRows where
  added_keyset : List KeySet
  added_tuples : Option (List Tuple)
  ad_alloc : Nat
  aligned : ∀ ts, added_tuples = some ts → ts.length = added_keyset.length
  room : added_keyset.length ≤ ad_alloc

/-- The part of a `QResultClass` that the updated rows use. -/
structure UpdatedRows where
  /-- The cursor type of the statement is `SQL_CURSOR_KEYSET_DRIVEN`. -/
  keyset_driven : Bool
  reached_eof : Bool
  num_total_read : Nat
  added : AddedRows
  updated : List Int
  updated_keyset : List KeySet
  updated_tuples : Option (List Tuple)
  up_alloc : Nat
  up_count : Nat

/-- A write of an entry: the allocation of the array that it goes to, and the place in the array. -/
structure ArrayWrite where
  alloc : Nat
  row : Int
  deriving DecidableEq

/-- The write is within the array. -/
def ArrayWrite.InBounds (w : ArrayWrite) : Prop := 0 ≤ w.row ∧ w.row < w.alloc

/-! ### The added rows -/

/-- The status of an added row is set. -/
def AddedRows.setStatus (a : AddedRows) (i : Nat) (status : BitVec 16) : AddedRows where
  added_keyset := a.added_keyset.modify i fun k => { k with status := status }
  added_tuples := a.added_tuples
  ad_alloc := a.ad_alloc
  aligned ts h := by rw [a.aligned ts h, List.length_modify]
  room := by rw [List.length_modify]; exact a.room

/-- The data of an added row is replaced. -/
def AddedRows.setTuple (a : AddedRows) (i : Nat) (tuple : Tuple) : AddedRows where
  added_keyset := a.added_keyset
  added_tuples := a.added_tuples.map (·.set i tuple)
  ad_alloc := a.ad_alloc
  aligned ts h := by
    obtain ⟨us, hus, rfl⟩ := Option.map_eq_some_iff.mp h
    rw [List.length_set, a.aligned us hus]
  room := a.room

/-- `QR_get_num_total_tuples`. -/
def UpdatedRows.num_total_tuples (r : UpdatedRows) : Nat :=
  if r.reached_eof then r.num_total_read + r.added.added_keyset.length else r.num_total_read

/-! ### Updates -/

/-- `enlargeUpdated`. -/
def enlargeUpdated (fuel : Nat) (r : UpdatedRows) (number : Int) : Option UpdatedRows := do
  let alloc ←
    if r.up_alloc = 0 then some (wrap 16 (if number > 10 then number else 10))
    else doubleUntil 16 number fuel (wrap 16 r.up_alloc)
  if alloc ≤ r.up_alloc then return r
  else
    return { r with
      updated_tuples := if r.keyset_driven then r.updated_tuples else some (r.updated_tuples.getD [])
      up_alloc := (uwrap 16 alloc).toNat }

/-- The last of the first `n` places where the row is: the loop
`for (i = up_count - 1; i >= 0; i--)` of `AddUpdated`. -/
def lastUpdated (updated : List Int) (index : Int) : Nat → Option Nat
  | 0 => none
  | i + 1 => if updated[i]? = some index then some i else lastUpdated updated index i

/-- The entry behind the others. -/
def UpdatedRows.append (r : UpdatedRows) (index : Int) (key : KeySet) (tuple : Tuple) :
    UpdatedRows :=
  { r with
    updated := r.updated ++ [index]
    updated_keyset := r.updated_keyset ++ [key]
    updated_tuples := r.updated_tuples.map (· ++ [tuple])
    up_count := (r.up_count + 1) % 2 ^ 16 }

/-- The status of an entry is set. -/
def UpdatedRows.setStatus (r : UpdatedRows) (i : Nat) (status : BitVec 16) : UpdatedRows :=
  { r with updated_keyset := r.updated_keyset.modify i fun k => { k with status := status } }

/-- `AddUpdated`. The data of the row is written to the place that is returned with the state; a place
outside its array leaves the arrays alone here. -/
def AddUpdated (fuel : Nat) (in_trans : Bool) (r : UpdatedRows) (index : Int) (keyset : KeySet)
    (tuple_updated : Tuple) : Option (UpdatedRows × List ArrayWrite) :=
  if r.up_count > 0 ∧ r.up_alloc = 0 then some (r, [])
  else
    let status := updatedStatus in_trans keyset.status
    let found := if in_trans then none else lastUpdated r.updated index r.up_count
    let upd_add_idx : Int :=
      if !in_trans && found.isNone && decide ((r.num_total_tuples : Int) ≤ index)
      then r.num_total_tuples - index else -1
    if 0 ≤ upd_add_idx then
      let i := upd_add_idx.toNat
      some ({ r with added := (r.added.setStatus i status).setTuple i tuple_updated },
        if r.added.added_tuples.isSome then [⟨r.added.ad_alloc, upd_add_idx⟩] else [])
    else
      match found with
      | some upd_idx =>
        -- the data goes to a place in the added rows, at an index that is -1 here
        some (r.setStatus upd_idx status,
          if r.updated_tuples.isSome then [⟨r.added.ad_alloc, upd_add_idx⟩] else [])
      | none =>
        match enlargeUpdated fuel r (r.up_count + 1) with
        | none => none
        | some r' =>
          some (r'.append index { keyset with status := status } tuple_updated,
            if r'.updated_tuples.isSome then [⟨r'.up_alloc, r.up_count⟩] else [])

/-! ### Removals -/

/-- The entry is taken out of the three arrays: those behind it move up. -/
def UpdatedRows.removeAt (r : UpdatedRows) (i : Nat) : UpdatedRows :=
  { r with
    updated := r.updated.eraseIdx i
    updated_keyset := r.updated_keyset.eraseIdx i
    updated_tuples := r.updated_tuples.map (·.eraseIdx i)
    up_count := r.up_count - 1 }

/-- The two numbers of a row, `pidx` and `midx`: an added row also has a negative one. -/
def rowNumbers (num_read : Nat) (index : Int) : Int × Int :=
  if index < 0 then (num_read - index - 1, index)
  else (index, if num_read ≤ index then num_read - index - 1 else index)

/-- The loop of `RemoveUpdatedAfterTheKey`: it stops at an entry of the row that has the key. -/
def removeLoop (row : Int × Int) (keyset : Option KeySet) : Nat → Nat → UpdatedRows → UpdatedRows :=
  eraseLoop UpdatedRows.up_count
    (fun r i => r.updated[i]? == some row.1 || r.updated[i]? == some row.2)
    (fun r i => keyset.isSome && r.updated_keyset[i]?.map ctid == keyset.map ctid)
    UpdatedRows.removeAt

/-- `RemoveUpdatedAfterTheKey`: every round of its loop goes one place on. -/
def RemoveUpdatedAfterTheKey (r : UpdatedRows) (index : Int) (keyset : Option KeySet) :
    UpdatedRows :=
  removeLoop (rowNumbers r.num_total_read index) keyset r.up_count 0 r

/-- `RemoveUpdated`. -/
def RemoveUpdated (r : UpdatedRows) (index : Int) : UpdatedRows :=
  RemoveUpdatedAfterTheKey r index none

/-- `CommitUpdated`. -/
def CommitUpdated (r : UpdatedRows) : UpdatedRows :=
  { r with updated_keyset := r.updated_keyset.map KeySet.commit }

/-- What `QR_free_memory` leaves, and a result starts with. -/
def UpdatedRows.cleared (keyset_driven : Bool) : UpdatedRows where
  keyset_driven := keyset_driven
  reached_eof := false
  num_total_read := 0
  added := ⟨[], none, 0, by simp, by simp⟩
  updated := []
  updated_keyset := []
  updated_tuples := none
  up_alloc := 0
  up_count := 0

/-! ### Calls -/

/-- A call that concerns the updated rows. -/
inductive UpdateCall
  | update (in_trans : Bool) (index : Int) (keyset : KeySet) (tuple : Tuple)
  | remove (index : Int) (keyset : Option KeySet)
  | commit
  | free
  /-- Rows are read, added or taken back: what that does to the fields that are only read here. -/
  | rows (reached_eof : Bool) (num_total_read : Nat) (added : AddedRows)

/-- The call leads from one state to the other. -/
inductive UpdateCall.Leads : UpdateCall → UpdatedRows → UpdatedRows → Prop
  | update {fuel : Nat} {in_trans : Bool} {index : Int} {keyset : KeySet} {tuple : Tuple}
      {r r' : UpdatedRows} {ws : List ArrayWrite} :
      AddUpdated fuel in_trans r index keyset tuple = some (r', ws) →
        Leads (.update in_trans index keyset tuple) r r'
  | remove {index : Int} {keyset : Option KeySet} {r : UpdatedRows} :
      Leads (.remove index keyset) r (RemoveUpdatedAfterTheKey r index keyset)
  | commit {r : UpdatedRows} : Leads .commit r (CommitUpdated r)
  | free {r : UpdatedRows} : Leads .free r (.cleared r.keyset_driven)
  | rows {reached_eof : Bool} {num_total_read : Nat} {added : AddedRows} {r : UpdatedRows} :
      Leads (.rows reached_eof num_total_read added) r
        { r with reached_eof := reached_eof, num_total_read := num_total_read, added := added }

/-- The states that calls lead to. -/
inductive UpdatedRows.Reachable : UpdatedRows → Prop
  | start (keyset_driven : Bool) : Reachable (.cleared keyset_driven)
  | step {r r' : UpdatedRows} {call : UpdateCall} : Reachable r → call.Leads r r' → Reachable r'

/-! ### What the arrays hold -/

/-- An update of a row. -/
structure Entry where
  index : Int
  key : KeySet
  /-- None where no data is kept. -/
  tuple : Option Tuple

/-- The three arrays, read in parallel, hold the entries. -/
structure UpdatedRows.Holds (r : UpdatedRows) (es : List Entry) : Prop where
  count : r.up_count = es.length
  index : r.updated = es.map Entry.index
  key : r.updated_keyset = es.map Entry.key
  tuple : r.updated_tuples.elim (∀ e ∈ es, e.tuple = none) fun ts =>
    es.map Entry.tuple = ts.map some

/-- An allocation is none, or ten entries that were doubled at most `m` times. -/
def Alloc (m n : Nat) : Prop := n = 0 ∨ ∃ k ≤ m, n = 10 * 2 ^ k

/-- What holds in every state: the arrays are aligned and there is room for their entries. -/
structure UpdatedRows.Inv (r : UpdatedRows) : Prop where
  holds : ∃ es, r.Holds es
  room : r.up_count ≤ r.up_alloc
  alloc : Alloc 11 r.up_alloc
  kept : r.updated_tuples = none → r.keyset_driven ∨ r.up_alloc = 0

end OdbcDriver.RowLists
