import OdbcDriver.Result.UpdatedRules

/-!
# The room for updated rows

`enlargeUpdated` doubles a capacity of 16 signed bits until it reaches the number of entries that are
asked for. Every state asks for one entry more than there are, so one doubling is enough; but 20480
doubled is a negative number in 16 bits, and no doubling after that reaches 20481. The transaction
that updates a row of one result for the 20481st time does not come back.
-/

namespace OdbcDriver.RowLists

open CInt Doubling Result

/-- The computation of the capacity for a number of entries is cut somewhere. -/
def UpdatedRows.Wraps (r : UpdatedRows) (number : Int) : Prop :=
  if r.up_alloc = 0 then ¬ Fits 16 (if number > 10 then number else 10)
  else Overflows 16 number (wrap 16 r.up_alloc)

/-- For one more update `enlargeUpdated` ends, with an allocation larger than `n`, and its capacity is
never cut. -/
def UpdatedRows.MakesRoom (r : UpdatedRows) (n : Nat) : Prop :=
  (∃ fuel r', enlargeUpdated fuel r (r.up_count + 1) = some r' ∧ n < r'.up_alloc) ∧
    ¬ r.Wraps (r.up_count + 1)

/-- Up to 20480 entries the allocation becomes `nextAlloc`. -/
theorem UpdatedRows.Inv.makesRoom_iff {r : UpdatedRows} (h : r.Inv) (n : Nat) :
    r.MakesRoom n ↔ r.up_count + 1 ≤ 20480 ∧ n < r.nextAlloc := by
  constructor
  · rintro ⟨⟨fuel, r', hr, hn⟩, -⟩
    obtain ⟨hle, rfl⟩ := enlargeUpdated_some h hr
    exact ⟨hle, hn⟩
  · rintro ⟨hle, hn⟩
    obtain ⟨⟨fuel, hr⟩, hover⟩ := enlargeUpdated_of_room h hle
    refine ⟨⟨fuel, _, hr, hn⟩, ?_⟩
    rw [UpdatedRows.Wraps]
    split
    · next h0 =>
      -- the first allocation is of ten entries
      have hroom := h.room
      have hcount : r.up_count = 0 := by omega
      rw [hcount, not_not]
      decide
    · next h0 => exact hover h0

/-- **The room for updated rows.** In every state that calls lead to, recording one more update finds
or makes room for it exactly while there are at most 20480 entries with it. An allocation that is
larger than the number of entries that are then recorded, it leaves exactly when they moreover do not
just fill the allocation that is there. -/
theorem enlargeUpdated_makesRoom_iff {r : UpdatedRows} (h : r.Reachable) :
    (r.MakesRoom r.up_count ↔ r.up_count + 1 ≤ 20480) ∧
      (r.MakesRoom (r.up_count + 1) ↔
        r.up_count + 1 ≤ 20480 ∧ r.up_count + 1 ≠ r.up_alloc) := by
  have hinv := h.inv
  constructor
  · rw [hinv.makesRoom_iff]
    exact and_iff_left_of_imp fun hle => (hinv.nextAlloc hle).1
  · rw [hinv.makesRoom_iff]
    refine and_congr_right fun hle => ?_
    have hroom := hinv.room
    rw [UpdatedRows.nextAlloc, nextCap]
    rcases hinv.alloc with h0 | ⟨k, -, ha⟩
    · rw [if_pos h0]
      omega
    · have hpow : 1 ≤ 2 ^ k := Nat.one_le_two_pow
      have hpos : r.up_alloc ≠ 0 := by rw [ha]; positivity
      rw [if_neg hpos]
      split <;> omega

theorem enlargeUpdated_makesRoom_first :
    ((UpdatedRows.cleared false).MakesRoom 0 ↔ 0 + 1 ≤ 20480) ∧
      ((UpdatedRows.cleared false).MakesRoom (0 + 1) ↔ 0 + 1 ≤ 20480 ∧ 0 + 1 ≠ 0) :=
  enlargeUpdated_makesRoom_iff (.start false)

/-! ### A long transaction -/

/-- `n` updates of row 0 in one transaction lead to the state. -/
inductive RowUpdated : Nat → UpdatedRows → Prop
  | start : RowUpdated 0 (.cleared true)
  | update {n : Nat} {r r' : UpdatedRows} : RowUpdated n r →
      (UpdateCall.update true 0 .zero []).Leads r r' → RowUpdated (n + 1) r'

theorem RowUpdated.reachable {n : Nat} {r : UpdatedRows} (h : RowUpdated n r) : r.Reachable := by
  induction h with
  | start => exact .start true
  | update _ hstep ih => exact .step ih hstep

/-- The first 20480 updates are recorded. -/
theorem exists_rowUpdated {n : Nat} (hn : n ≤ 20480) : ∃ r, RowUpdated n r ∧ r.up_count = n := by
  induction n with
  | zero => exact ⟨_, .start, rfl⟩
  | succ n ih =>
    obtain ⟨r, hr, hcount⟩ := ih (by omega)
    have hinv := hr.reachable.inv
    obtain ⟨⟨fuel, hsome⟩, -⟩ := enlargeUpdated_of_room hinv (by omega)
    have hadd : AddUpdated fuel true r 0 .zero [] = _ :=
      AddUpdated_append hinv (Or.inl rfl) fuel .zero []
    rw [hsome, Option.map_some] at hadd
    refine ⟨_, hr.update (.update hadd), ?_⟩
    rw [UpdatedRows.append, UpdatedRows.enlarged, hcount]
    exact Nat.mod_eq_of_lt (by omega)

/-- The next one is not: `enlargeUpdated` does not come back. -/
theorem rowUpdated_stuck :
    ∃ r, RowUpdated 20480 r ∧ r.up_count = 20480 ∧
      ∀ fuel, enlargeUpdated fuel r 20481 = none := by
  obtain ⟨r, hr, hcount⟩ := exists_rowUpdated (le_refl 20480)
  refine ⟨r, hr, hcount, fun fuel => ?_⟩
  have hnone := enlargeUpdated_none hr.reachable.inv (by omega) fuel
  rwa [hcount] at hnone

end OdbcDriver.RowLists
