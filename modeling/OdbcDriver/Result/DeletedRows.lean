import OdbcDriver.Result.UpdatedRules

/-!
# The list of deleted rows

A result that is read through a server cursor keeps the numbers of its deleted rows, sorted as
unsigned numbers, and their keys in parallel. Without a cursor only the number of deleted rows is
kept.

`DeletedRows.Holds` says which entries the two arrays hold together. What `AddDeleted` does is stated
by `AddDeleted_insert`, up to 20480 entries: the allocation for more of them is negative in 16 bits, so
`realloc` refuses it and the whole result is given up (`AddDeleted_full`). The flag of the connection
is left out, as for updated rows.
-/

namespace OdbcDriver.RowLists

open CInt Result SkipErase

/-- The part of a `QResultClass` that the deleted rows use. -/
structure DeletedRows where
  /-- It is read through a server cursor. -/
  cursor : Bool
  deleted : List Int
  deleted_keyset : List KeySet
  /-- 0 when there are no arrays. -/
  dl_alloc : Nat
  dl_count : Nat

/-- What `QR_free_memory` leaves, and a result starts with. -/
def DeletedRows.cleared (cursor : Bool) : DeletedRows := ⟨cursor, [], [], 0, 0⟩

/-- The place of a row: before the first one with a larger number. -/
def deletedPlace (deleted : List Int) (index : Int) : Nat :=
  (deleted.takeWhile fun x => !decide (uwrap 64 index < uwrap 64 x)).length

/-- The entry is moved in between the others. -/
def DeletedRows.insertAt (d : DeletedRows) (i : Nat) (index : Int) (key : KeySet) (alloc : Nat)
    (count : Nat) : DeletedRows :=
  { d with
    deleted := d.deleted.take i ++ index :: d.deleted.drop i
    deleted_keyset := d.deleted_keyset.take i ++ key :: d.deleted_keyset.drop i
    dl_alloc := alloc
    dl_count := count }

/-- `AddDeleted`, and whether it succeeds. -/
def AddDeleted (in_trans : Bool) (d : DeletedRows) (index : Int) (keyset : KeySet) :
    Bool × DeletedRows :=
  let dl_count := wrap 16 d.dl_count
  let counted := { d with dl_count := (d.dl_count + 1) % 2 ^ 16 }
  let key := { keyset with status := deletedStatus in_trans keyset.status }
  if !d.cursor then (true, counted)
  else if d.dl_alloc = 0 then (true, { d with
    deleted := [index], deleted_keyset := [key], dl_alloc := 10, dl_count := 1 })
  else
    let new_alloc := wrap 16 (2 * d.dl_alloc)
    let place := deletedPlace d.deleted index
    let count := (uwrap 16 (dl_count + 1)).toNat
    if d.dl_alloc ≤ dl_count then
      -- `realloc` refuses a negative size, which it takes for a huge one
      if new_alloc < 0 then (false, .cleared d.cursor)
      else (true, d.insertAt place index key (uwrap 16 new_alloc).toNat count)
    else (true, d.insertAt place index key d.dl_alloc count)

/-- The entry is taken out of the two arrays: those behind it move up. -/
def DeletedRows.removeAt (d : DeletedRows) (i : Nat) : DeletedRows :=
  { d with
    deleted := d.deleted.eraseIdx i
    deleted_keyset := d.deleted_keyset.eraseIdx i
    dl_count := d.dl_count - 1 }

/-- `RemoveDeleted`, of a result of which `num_read` rows have been read. -/
def RemoveDeleted (num_read : Nat) (d : DeletedRows) (index : Int) : DeletedRows :=
  let row := rowNumbers num_read index
  eraseLoop DeletedRows.dl_count
    (fun d i => d.deleted[i]? == some row.1 || d.deleted[i]? == some row.2) (fun _ _ => false)
    DeletedRows.removeAt d.dl_count 0 d

/-- `CommitDeleted`. -/
def CommitDeleted (d : DeletedRows) : DeletedRows :=
  { d with deleted_keyset := d.deleted_keyset.map KeySet.commit }

/-- The two arrays, read in parallel, hold the entries. -/
structure DeletedRows.Holds (d : DeletedRows) (es : List (Int × KeySet)) : Prop where
  count : d.dl_count = es.length
  index : d.deleted = es.map Prod.fst
  key : d.deleted_keyset = es.map Prod.snd

/-- What holds in every state of a result with a cursor. -/
structure DeletedRows.Inv (d : DeletedRows) : Prop where
  holds : ∃ es, d.Holds es
  room : d.dl_count ≤ d.dl_alloc
  alloc : Alloc 11 d.dl_alloc

/-! ### Entries -/

/-- Where an entry goes among the others. -/
def insertDeleted (e : Int × KeySet) (es : List (Int × KeySet)) : List (Int × KeySet) :=
  let i := deletedPlace (es.map Prod.fst) e.1
  es.take i ++ e :: es.drop i

/-- The allocation with room for one more entry. -/
def DeletedRows.nextAlloc (d : DeletedRows) : Nat := nextCap d.dl_count d.dl_alloc

theorem Alloc.le {m n : Nat} (h : Alloc m n) : n ≤ 10 * 2 ^ m := by
  rcases h with rfl | ⟨k, hk, rfl⟩
  · omega
  · exact Nat.mul_le_mul_left 10 (Nat.pow_le_pow_right (by omega) hk)

theorem wrap_of_le {n : Nat} (h : n ≤ 20481) : wrap 16 (n : Int) = n :=
  wrap_of_fits (by decide) ⟨by omega, by omega⟩

/-- Of a number of entries in 16 bits, one more. -/
theorem count_succ {n : Nat} (h : n ≤ 20480) : (uwrap 16 ((n : Int) + 1)).toNat = n + 1 := by
  rw [uwrap, Int.emod_eq_of_lt (by omega) (by omega)]
  omega

/-- Below 20481 entries `AddDeleted` makes room for the entry and puts it among the others. -/
theorem AddDeleted_insert {d : DeletedRows} (h : d.Inv) (hc : d.cursor = true)
    (hn : d.dl_count + 1 ≤ 20480) (in_trans : Bool) (index : Int) (keyset : KeySet) :
    AddDeleted in_trans d index keyset = (true, d.insertAt (deletedPlace d.deleted index) index
      { keyset with status := deletedStatus in_trans keyset.status } d.nextAlloc
      (d.dl_count + 1)) := by
  have hroom := h.room
  obtain ⟨es, hes⟩ := h.holds
  rw [AddDeleted]
  simp only [hc, Bool.not_true, Bool.false_eq_true, if_false,
    wrap_of_le (show d.dl_count ≤ 20481 by omega), Nat.cast_le,
    count_succ (show d.dl_count ≤ 20480 by omega)]
  by_cases h0 : d.dl_alloc = 0
  · -- the first entry
    have hcount : d.dl_count = 0 := by omega
    have hnil : es = [] := List.length_eq_zero_iff.mp (by rw [← hes.count, hcount])
    have hd : d.deleted = [] := by rw [hes.index, hnil]; rfl
    have hk : d.deleted_keyset = [] := by rw [hes.key, hnil]; rfl
    simp [h0, hc, DeletedRows.insertAt, DeletedRows.nextAlloc, nextCap, hd, hk, hcount]
  · have hnext := h.alloc.next hroom hn
    have hcap := hnext.2.le
    rw [if_neg h0, DeletedRows.nextAlloc]
    by_cases hfull : d.dl_alloc ≤ d.dl_count
    · have htwice : nextCap d.dl_count d.dl_alloc = 2 * d.dl_alloc := by
        rw [nextCap, if_neg h0, if_neg (by omega)]
      have hnew : wrap 16 (2 * (d.dl_alloc : Int)) = (2 * d.dl_alloc : Nat) := by
        rw [← wrap_of_le (show 2 * d.dl_alloc ≤ 20481 by omega)]
        push_cast
        rfl
      have hstore : (uwrap 16 ((2 * d.dl_alloc : Nat) : Int)).toNat = 2 * d.dl_alloc := by
        rw [uwrap, Int.emod_eq_of_lt (by omega) (by omega), Int.toNat_natCast]
      rw [if_pos hfull, hnew, if_neg (by omega), hstore, htwice]
    · rw [if_neg hfull, nextCap, if_neg h0, if_pos (by omega)]

/-- At 20480 entries `AddDeleted` gives the result up. -/
theorem AddDeleted_full {d : DeletedRows} (h : d.Inv) (hc : d.cursor = true)
    (hn : ¬ d.dl_count + 1 ≤ 20480) (in_trans : Bool) (index : Int) (keyset : KeySet) :
    AddDeleted in_trans d index keyset = (false, .cleared true) := by
  have hroom := h.room
  have hle := h.alloc.le
  have hcount : d.dl_count = 20480 := by omega
  have halloc : d.dl_alloc = 20480 := by omega
  rw [AddDeleted]
  simp [hc, hcount, halloc, wrap]

/-- The arrays stay aligned. -/
theorem DeletedRows.Holds.insertAt {d : DeletedRows} {es : List (Int × KeySet)} (h : d.Holds es)
    (index : Int) (key : KeySet) (alloc : Nat) :
    (d.insertAt (deletedPlace d.deleted index) index key alloc (d.dl_count + 1)).Holds
      (insertDeleted (index, key) es) where
  count := by
    simp only [DeletedRows.insertAt, h.count, insertDeleted, List.length_append, List.length_cons,
      List.length_take, List.length_drop]
    omega
  index := by simp [DeletedRows.insertAt, insertDeleted, h.index]
  key := by simp [DeletedRows.insertAt, insertDeleted, h.index, h.key]

theorem DeletedRows.Holds.removeAt {d : DeletedRows} {es : List (Int × KeySet)} (h : d.Holds es)
    {i : Nat} (hi : i < es.length) : (d.removeAt i).Holds (es.eraseIdx i) where
  count := by rw [DeletedRows.removeAt, List.length_eraseIdx_of_lt hi, h.count]
  index := by simp [DeletedRows.removeAt, h.index, List.eraseIdx_map]
  key := by simp [DeletedRows.removeAt, h.key, List.eraseIdx_map]

/-- The entries that arrays hold are determined. -/
theorem DeletedRows.Holds.holds_iff {d : DeletedRows} {es es' : List (Int × KeySet)}
    (h : d.Holds es) : d.Holds es' ↔ es = es' := by
  constructor
  · intro h'
    rw [List.zip_of_prod h.index.symm h.key.symm, List.zip_of_prod h'.index.symm h'.key.symm]
  · rintro rfl
    exact h

/-- The deleted row is the one with the numbers. -/
def deletedRow (row : Int × Int) (e : Int × KeySet) : Bool := e.1 == row.1 || e.1 == row.2

/-- `RemoveDeleted` leaves the arrays aligned. -/
theorem RemoveDeleted_holds {d : DeletedRows} {es : List (Int × KeySet)} (h : d.Holds es)
    (num_read : Nat) (index : Int) :
    (RemoveDeleted num_read d index).Holds
      (skipErase (deletedRow (rowNumbers num_read index)) (fun _ => false) es) := by
  refine eraseLoop_holds (fun h => h.count) ?_ (fun _ _ => rfl) (fun h hi => h.removeAt hi) [] h
    h.count.ge
  intro s l i e hl he
  rw [hl.index, List.getElem?_map, he]
  rfl

/-! ### Calls -/

/-- A call that concerns the deleted rows. -/
inductive DeleteCall
  | add (in_trans : Bool) (index : Int) (keyset : KeySet)
  | remove (num_read : Nat) (index : Int)
  | commit
  | free

/-- What a call leaves. -/
def DeleteCall.run (d : DeletedRows) : DeleteCall → DeletedRows
  | .add in_trans index keyset => (AddDeleted in_trans d index keyset).2
  | .remove num_read index => RemoveDeleted num_read d index
  | .commit => CommitDeleted d
  | .free => .cleared d.cursor

/-- The states that calls lead to, of a result with a server cursor. -/
def DeletedRows.Reachable (d : DeletedRows) : Prop :=
  ∃ calls : List DeleteCall, calls.foldl DeleteCall.run (.cleared true) = d

theorem DeletedRows.cleared_inv (cursor : Bool) : (DeletedRows.cleared cursor).Inv :=
  ⟨⟨[], rfl, rfl, rfl⟩, le_refl _, Or.inl rfl⟩

/-- A removal leaves the allocation alone. -/
theorem RemoveDeleted_frame (num_read : Nat) (d : DeletedRows) (index : Int) :
    (RemoveDeleted num_read d index).dl_alloc = d.dl_alloc ∧
      (RemoveDeleted num_read d index).cursor = d.cursor := by
  refine eraseLoop_invariant (P := fun t : DeletedRows => t.dl_alloc = d.dl_alloc ∧
    t.cursor = d.cursor) ?_ ⟨rfl, rfl⟩
  exact fun _ _ h => h

/-- Every call keeps the invariant. -/
theorem DeleteCall.run_inv {d : DeletedRows} (h : d.Inv) (hc : d.cursor = true)
    (call : DeleteCall) : (call.run d).Inv ∧ (call.run d).cursor = true := by
  obtain ⟨es, hes⟩ := h.holds
  cases call with
  | add in_trans index keyset =>
    rw [DeleteCall.run]
    by_cases hn : d.dl_count + 1 ≤ 20480
    · obtain ⟨hlt, halloc⟩ := h.alloc.next h.room hn
      rw [AddDeleted_insert h hc hn]
      exact ⟨⟨⟨_, hes.insertAt _ _ _⟩, hlt, halloc⟩, hc⟩
    · rw [AddDeleted_full h hc hn]
      exact ⟨DeletedRows.cleared_inv true, rfl⟩
  | remove num_read index =>
    obtain ⟨halloc, hcursor⟩ := RemoveDeleted_frame num_read d index
    have hleft := RemoveDeleted_holds hes num_read index
    have hle : (skipErase (deletedRow (rowNumbers num_read index)) (fun _ => false) es).length ≤
        es.length := (skipErase_sublist es).length_le
    refine ⟨⟨⟨_, hleft⟩, ?_, halloc.symm ▸ h.alloc⟩, hcursor.trans hc⟩
    calc (RemoveDeleted num_read d index).dl_count
        _ ≤ es.length := hleft.count ▸ hle
        _ ≤ d.dl_alloc := hes.count ▸ h.room
        _ = _ := halloc.symm
  | commit =>
    refine ⟨⟨⟨es.map fun e => (e.1, e.2.commit), ?_, ?_, ?_⟩, h.room, h.alloc⟩, hc⟩
    · rw [List.length_map]
      exact hes.count
    · rw [List.map_map]
      exact hes.index
    · simp [DeleteCall.run, CommitDeleted, hes.key]
  | free => exact ⟨DeletedRows.cleared_inv _, hc⟩

/-- The invariant holds in every state that calls lead to. -/
theorem DeletedRows.Reachable.inv {d : DeletedRows} (h : d.Reachable) :
    d.Inv ∧ d.cursor = true := by
  obtain ⟨calls, rfl⟩ := h
  have hrun : ∀ {start : DeletedRows}, start.Inv → start.cursor = true →
      (calls.foldl DeleteCall.run start).Inv ∧ (calls.foldl DeleteCall.run start).cursor = true := by
    induction calls with
    | nil => exact fun hs hc => ⟨hs, hc⟩
    | cons call calls ih =>
      intro start hs hc
      obtain ⟨hs', hc'⟩ := call.run_inv hs hc
      exact ih hs' hc'
  exact hrun (DeletedRows.cleared_inv true) rfl

end OdbcDriver.RowLists
