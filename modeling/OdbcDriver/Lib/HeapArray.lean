import Mathlib.Data.List.Basic
import Mathlib.Tactic.Linarith
import OdbcDriver.Lib.Except

/-!
# Arrays on the heap

An array is what was allocated: its length is its capacity, and a write behind it is an error. It
grows by `realloc`, which keeps what is in it (`prefix_realloc`), to a capacity that is doubled
until it is large enough (`le_doubleTo`). Writes within the capacity succeed and do not change it
(`put_of_lt`, `putAll_of_le`).
-/

namespace OdbcDriver.HeapArray

open Lib (ok_bind)

variable {α ε : Type}

/-! ### Growing -/

/-- `realloc` to `n` entries. What is new holds `fill`. -/
def realloc (mem : List α) (n : Nat) (fill : α) : List α :=
  mem.take n ++ List.replicate (n - mem.length) fill

@[simp]
theorem length_realloc (mem : List α) (n : Nat) (fill : α) : (realloc mem n fill).length = n := by
  rw [realloc, List.length_append, List.length_take, List.length_replicate]
  omega

/-- A larger array begins with the entries of the smaller one. -/
theorem prefix_realloc {mem : List α} {n : Nat} (h : mem.length ≤ n) (fill : α) :
    mem <+: realloc mem n fill := by
  rw [realloc, List.take_of_length_le h]
  exact List.prefix_append _ _

/-- What was in use is still there. -/
theorem take_realloc {mem : List α} {n k : Nat} (hk : k ≤ mem.length) (h : mem.length ≤ n)
    (fill : α) : (realloc mem n fill).take k = mem.take k := by
  obtain ⟨rest, hrest⟩ := prefix_realloc h fill
  rw [← hrest, List.take_append_of_le_length hk]

/-- `do cap *= 2; while (cap < n);`, within `fuel` rounds. -/
def doubleTo (n : Nat) : Nat → Nat → Nat
  | 0, cap => cap
  | fuel + 1, cap => if 2 * cap < n then doubleTo n fuel (2 * cap) else 2 * cap

/-- A capacity that is not zero is doubled beyond `n`. -/
theorem le_doubleTo {n : Nat} : ∀ {fuel cap : Nat}, 0 < cap → n < cap + fuel → 0 < fuel →
    n ≤ doubleTo n fuel cap := by
  intro fuel
  induction fuel with
  | zero => intro cap _ _ hfuel; exact absurd hfuel (lt_irrefl 0)
  | succ fuel ih =>
    intro cap hcap hn _
    rw [doubleTo]
    by_cases hmore : 2 * cap < n
    · rw [if_pos hmore]
      exact ih (by omega) (by omega) (by omega)
    · rw [if_neg hmore]
      omega

theorem le_doubleTo_self (n : Nat) : ∀ (fuel cap : Nat), cap ≤ doubleTo n fuel cap := by
  intro fuel
  induction fuel with
  | zero => intro cap; exact le_refl cap
  | succ fuel ih =>
    intro cap
    rw [doubleTo]
    split
    · exact le_trans (by omega) (ih (2 * cap))
    · omega

/-! ### Writing -/

/-- `mem[i] = x`. -/
def put (e : ε) (mem : List α) (i : Nat) (x : α) : Except ε (List α) :=
  if i < mem.length then .ok (mem.set i x) else .error e

theorem put_of_lt {mem : List α} {i : Nat} (h : i < mem.length) (e : ε) (x : α) :
    put e mem i x = .ok (mem.set i x) := if_pos h

/-- Writing behind what is in use puts an entry behind it. -/
theorem take_set_succ {mem : List α} {i : Nat} (h : i < mem.length) (x : α) :
    (mem.set i x).take (i + 1) = mem.take i ++ [x] := by
  rw [List.take_add_one, List.getElem?_set_self h, List.take_set_of_le (le_refl i)]
  rfl

/-- The same, if there is anything to write. -/
def putIf (c : Prop) [Decidable c] (e : ε) (mem : List α) (i : Nat) (x : α) : Except ε (List α) :=
  if c then put e mem i x else .ok mem

theorem putIf_of_lt {c : Prop} [Decidable c] {mem : List α} {i : Nat} (h : c → i < mem.length)
    (e : ε) (x : α) : ∃ mem', putIf c e mem i x = .ok mem' ∧ mem'.length = mem.length := by
  by_cases hc : c
  · exact ⟨mem.set i x, (if_pos hc).trans (put_of_lt (h hc) e x), List.length_set⟩
  · exact ⟨mem, if_neg hc, rfl⟩

/-- Entries one after the other from `i` on: `memcpy`. -/
def putAll (e : ε) (mem : List α) (i : Nat) : List α → Except ε (List α)
  | [] => .ok mem
  | x :: xs => do putAll e (← put e mem i x) (i + 1) xs

theorem putAll_of_le (e : ε) (xs : List α) : ∀ (mem : List α) (i : Nat),
    i + xs.length ≤ mem.length →
      ∃ mem', putAll e mem i xs = .ok mem' ∧ mem'.length = mem.length := by
  induction xs with
  | nil => intro mem i _; exact ⟨mem, rfl, rfl⟩
  | cons x xs ih =>
    intro mem i h
    rw [List.length_cons] at h
    obtain ⟨mem', heq, hlen⟩ := ih (mem.set i x) (i + 1) (by rw [List.length_set]; omega)
    refine ⟨mem', ?_, by rw [hlen, List.length_set]⟩
    rw [putAll, put_of_lt (by omega), ok_bind]
    exact heq

/-- The same, if there is anything to write. -/
def putAllIf (c : Prop) [Decidable c] (e : ε) (mem : List α) (i : Nat) (xs : List α) :
    Except ε (List α) := if c then putAll e mem i xs else .ok mem

theorem putAllIf_of_le (c : Prop) [Decidable c] (e : ε) (mem : List α) (i : Nat) (xs : List α)
    (h : c → i + xs.length ≤ mem.length) :
    ∃ mem', putAllIf c e mem i xs = .ok mem' ∧ mem'.length = mem.length := by
  by_cases hc : c
  · obtain ⟨mem', heq, hlen⟩ := putAll_of_le e xs mem i (h hc)
    exact ⟨mem', (if_pos hc).trans heq, hlen⟩
  · exact ⟨mem, if_neg hc, rfl⟩

/-- `memmove(mem + i, mem + i + 1, n)`: the `n` entries behind entry `i` move up by one. -/
def moveUp (e : ε) (mem : List α) (i n : Nat) : Except ε (List α) :=
  if n = 0 then .ok mem
  else if i + 1 + n ≤ mem.length then
    .ok (mem.take i ++ (mem.drop (i + 1)).take n ++ mem.drop (i + n))
  else .error e

@[simp]
theorem moveUp_zero (e : ε) (mem : List α) (i : Nat) : moveUp e mem i 0 = .ok mem := if_pos rfl

/-! ### Growing when full -/

/-- An array that is full is given twice its capacity, or `first` if it has none. -/
def growFull (first : Nat) (mem : List α) (count : Nat) (fill : α) : List α :=
  if mem.length ≤ count then
    realloc mem (if mem.length = 0 then first else 2 * mem.length) fill
  else mem

/-- There is room for one more entry, and the others are still there. -/
theorem growFull_spec {first : Nat} (hfirst : 0 < first) {mem : List α} {count : Nat}
    (h : count ≤ mem.length) (fill : α) :
    count < (growFull first mem count fill).length ∧ mem <+: growFull first mem count fill := by
  rw [growFull]
  by_cases hfull : mem.length ≤ count
  · rw [if_pos hfull, length_realloc]
    have hle : mem.length ≤ if mem.length = 0 then first else 2 * mem.length := by
      split <;> omega
    refine ⟨?_, prefix_realloc hle fill⟩
    split <;> omega
  · rw [if_neg hfull]
    exact ⟨by omega, List.prefix_refl mem⟩

/-- An entry is put behind the others, which stay. -/
theorem put_growFull {first : Nat} (hfirst : 0 < first) {mem : List α} {count : Nat}
    (h : count ≤ mem.length) (fill : α) (e : ε) (x : α) :
    ∃ mem', put e (growFull first mem count fill) count x = .ok mem' ∧ mem'[count]? = some x ∧
      (∀ i < count, mem'[i]? = mem[i]?) ∧ count < mem'.length := by
  obtain ⟨hlt, hprefix⟩ := growFull_spec hfirst h fill
  refine ⟨_, put_of_lt hlt e x, ?_, fun i hi => ?_, ?_⟩
  · rw [List.getElem?_set_self hlt]
  · have hi' : i < mem.length := by omega
    rw [List.getElem?_set_ne (by omega), List.prefix_iff_getElem?.mp hprefix i hi',
      List.getElem?_eq_getElem hi']
  · rwa [List.length_set]

end OdbcDriver.HeapArray
