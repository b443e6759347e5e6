import Mathlib.Data.List.Basic

/-!
# Blocks of memory

What a record owns is a block: its address, and what is stored there. New blocks come from `malloc`,
which may refuse a request and never gives an address twice. Two things are equal up to their
addresses when they are equal after `forget`.

* `forget_copy`, `forget_copyArray`: a copy is equal up to its address unless it is refused;
* `addr_of_copy`: it has a new address.
-/

namespace OdbcDriver.Blocks

universe u

variable {α : Type u}

/-- A block: its address and what is stored in it. -/
structure Block (α : Type u) where
  addr : ℕ
  val : α
deriving DecidableEq, Repr

/-- The memory: the next address, and the requests that are refused, by the address they would
get. -/
structure Memory where
  next : ℕ
  refuses : ℕ → Bool

/-- A request for a block. -/
def Memory.malloc (m : Memory) (x : α) : Option (Block α) × Memory :=
  (if m.refuses m.next then none else some ⟨m.next, x⟩, { m with next := m.next + 1 })

/-- A copy of a block, if there is one. -/
def Memory.copy (m : Memory) : Option (Block α) → Option (Block α) × Memory
  | none => (none, m)
  | some b => m.malloc b.val

/-- A block that holds at least one entry. -/
def occupied (b : Option (Block (List α))) : Option (Block (List α)) :=
  b.filter fun b => !b.val.isEmpty

/-- A copy of an array that has entries. -/
def Memory.copyArray (m : Memory) (b : Option (Block (List α))) :
    Option (Block (List α)) × Memory :=
  m.copy (occupied b)

/-- What is stored, without the address. -/
def forget (b : Option (Block α)) : Option (Block α) := b.map fun b => ⟨0, b.val⟩

/-- The address, if there is a block. -/
def addrs (b : Option (Block α)) : List ℕ := (b.map Block.addr).toList

/-- The next requests are not refused. -/
def Memory.Serves (m : Memory) (n : ℕ) : Prop := ∀ i < n, m.refuses (m.next + i) = false

variable {m : Memory} {b : Option (Block α)} {l : Option (Block (List α))}

theorem serves_zero (m : Memory) : m.Serves 0 := fun i hi => absurd hi (Nat.not_lt_zero i)

theorem serves_one : m.Serves 1 ↔ m.refuses m.next = false := by
  constructor
  · intro h
    exact h 0 Nat.one_pos
  · intro h i hi
    obtain rfl := Nat.lt_one_iff.mp hi
    exact h

@[simp] theorem copy_none : m.copy (none : Option (Block α)) = (none, m) := rfl

@[simp] theorem addrs_none : addrs (none : Option (Block α)) = [] := rfl

@[simp] theorem length_addrs_some (c : Block α) : (addrs (some c)).length = 1 := rfl

theorem forget_eq_none : forget b = none ↔ addrs b = [] := by
  cases b with
  | none => exact iff_of_true rfl rfl
  | some c => exact iff_of_false (by simp [forget]) (by simp [addrs])

/-- A copy is made of what is stored, or the request is refused. -/
theorem copy_cases (m : Memory) (b : Option (Block α)) :
    m.Serves (addrs b).length ∧ (m.copy b).1.map Block.val = b.map Block.val ∨
      ¬ m.Serves (addrs b).length ∧ (m.copy b).1 = none ∧ b ≠ none := by
  cases b with
  | none => exact .inl ⟨serves_zero m, rfl⟩
  | some c =>
    rw [length_addrs_some, serves_one, Memory.copy, Memory.malloc]
    cases m.refuses m.next with
    | true => exact .inr ⟨by simp, rfl, by simp⟩
    | false => exact .inl ⟨rfl, rfl⟩

theorem forget_eq_iff {c : Option (Block α)} :
    forget b = forget c ↔ b.map Block.val = c.map Block.val := by
  cases b with
  | none => cases c <;> simp [forget]
  | some b => cases c <;> simp [forget]

theorem forget_copy : forget (m.copy b).1 = forget b ↔ m.Serves (addrs b).length := by
  rw [forget_eq_iff]
  rcases copy_cases m b with ⟨hserves, hval⟩ | ⟨hrefused, hnone, hsome⟩
  · exact iff_of_true hval hserves
  · refine iff_of_false ?_ hrefused
    rw [hnone]
    intro h
    exact hsome (Option.map_eq_none_iff.mp h.symm)

theorem addr_of_copy {c : Block α} (h : (m.copy b).1 = some c) : c.addr = m.next := by
  cases b with
  | none => cases h
  | some b =>
    rw [Memory.copy, Memory.malloc] at h
    dsimp only at h
    split at h
    · cases h
    · cases h
      rfl

theorem addrs_copy : ∀ a ∈ addrs (m.copy b).1, a = m.next := by
  intro a ha
  cases hc : (m.copy b).1 with
  | none =>
    rw [hc] at ha
    exact absurd ha List.not_mem_nil
  | some c =>
    rw [hc] at ha
    rw [List.mem_singleton.mp ha]
    exact addr_of_copy hc

/-- A copy takes a request for each block there is. -/
theorem copy_snd : (m.copy b).2 = { m with next := m.next + (addrs b).length } := by
  cases b with
  | none => rfl
  | some b => rfl

theorem occupied_copy : occupied (m.copy (occupied l)).1 = (m.copy (occupied l)).1 := by
  cases hl : occupied l with
  | none => rfl
  | some c =>
    have hc : !c.val.isEmpty := (Option.filter_eq_some_iff.mp hl).2
    rw [Memory.copy, Memory.malloc]
    dsimp only
    split
    · rfl
    · exact Option.filter_some_pos hc

theorem copyArray_cases (m : Memory) (l : Option (Block (List α))) :
    m.Serves (addrs (occupied l)).length ∧
        (m.copyArray l).1.map Block.val = (occupied l).map Block.val ∨
      ¬ m.Serves (addrs (occupied l)).length ∧ (m.copyArray l).1 = none ∧ occupied l ≠ none :=
  copy_cases m (occupied l)

theorem occupied_copyArray : occupied (m.copyArray l).1 = (m.copyArray l).1 := occupied_copy

/-- The entries of an array, none if there is no array. -/
def entries (l : Option (Block (List α))) : List α := (l.map Block.val).getD []

theorem entries_occupied : entries (occupied l) = entries l := by
  cases l with
  | none => rfl
  | some c =>
    obtain ⟨addr, val⟩ := c
    cases val with
    | nil => rfl
    | cons x xs => rfl

theorem forget_copyArray :
    forget (occupied (m.copyArray l).1) = forget (occupied l) ↔
      m.Serves (addrs (occupied l)).length := by
  rw [Memory.copyArray, occupied_copy]
  exact forget_copy

/-- Requests for two things, one after the other. -/
theorem serves_add {n k : ℕ} :
    m.Serves (n + k) ↔ m.Serves n ∧ Memory.Serves { m with next := m.next + n } k := by
  constructor
  · intro h
    refine ⟨fun i hi => h i (by omega), fun i hi => ?_⟩
    have hi' := h (n + i) (by omega)
    rwa [← Nat.add_assoc] at hi'
  · rintro ⟨hn, hk⟩ i hi
    rcases Nat.lt_or_ge i n with h | h
    · exact hn i h
    · have hi' := hk (i - n) (by omega)
      dsimp only at hi'
      rwa [Nat.add_assoc, Nat.add_sub_cancel' h] at hi'

end OdbcDriver.Blocks
