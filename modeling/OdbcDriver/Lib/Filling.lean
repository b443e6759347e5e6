import Mathlib.Data.List.Basic

/-!
# Filling a buffer with pieces

Pieces are appended one by one, and before each of them, but not within, it is tested whether there
is room. `taken` is their number when what is there already has a length.

* `taken_all`: everything is taken if it fits;
* `taken_stops`: if not, the limit has been reached, and maybe passed;
* `taken_eq`: where it is reached exactly.
-/

namespace OdbcDriver.Filling

universe u

variable {α : Type u} {limit n k : ℕ} {ps : List (List α)}

/-- How many pieces are taken, with `n` entries there already. -/
def taken (limit : ℕ) : ℕ → List (List α) → ℕ
  | _, [] => 0
  | n, p :: ps => if n < limit then taken limit (n + p.length) ps + 1 else 0

/-- The length of the first pieces. -/
def lengthTake (ps : List (List α)) (k : ℕ) : ℕ := (ps.take k).flatten.length

@[simp] theorem lengthTake_zero (ps : List (List α)) : lengthTake ps 0 = 0 := rfl

theorem lengthTake_succ (p : List α) (ps : List (List α)) (k : ℕ) :
    lengthTake (p :: ps) (k + 1) = p.length + lengthTake ps k := by
  rw [lengthTake, List.take_succ_cons, List.flatten_cons, List.length_append]
  rfl

theorem lengthTake_all (ps : List (List α)) : lengthTake ps ps.length = ps.flatten.length := by
  rw [lengthTake, List.take_length]

theorem taken_le : taken limit n ps ≤ ps.length := by
  induction ps generalizing n with
  | nil => exact Nat.le_refl 0
  | cons p ps ih =>
    rw [taken]
    split
    · exact Nat.succ_le_succ ih
    · exact Nat.zero_le _

/-- Where not everything is taken, the limit has been reached. -/
theorem taken_stops (h : taken limit n ps < ps.length) :
    limit ≤ n + lengthTake ps (taken limit n ps) := by
  induction ps generalizing n with
  | nil => exact absurd h (Nat.not_lt_zero _)
  | cons p ps ih =>
    rw [taken] at h ⊢
    split
    · rename_i hn
      rw [if_pos hn, List.length_cons] at h
      have hrest := ih (n := n + p.length) (by omega)
      rw [lengthTake_succ]
      omega
    · rw [lengthTake_zero]
      omega

/-- Before the last piece that is taken, it has not. -/
theorem lt_of_lt_taken (h : k < taken limit n ps) : n + lengthTake ps k < limit := by
  induction ps generalizing n k with
  | nil => exact absurd h (Nat.not_lt_zero _)
  | cons p ps ih =>
    rw [taken] at h
    split at h
    · cases k with
      | zero =>
        rw [lengthTake_zero]
        assumption
      | succ k =>
        have hrest := ih (n := n + p.length) (Nat.lt_of_succ_lt_succ h)
        rw [lengthTake_succ]
        omega
    · exact absurd h (Nat.not_lt_zero _)

theorem lengthTake_lt (hne : ∀ p ∈ ps, p ≠ []) {j : ℕ} (hjk : j < k) (hk : k ≤ ps.length) :
    lengthTake ps j < lengthTake ps k := by
  induction ps generalizing j k with
  | nil =>
    rw [List.length_nil] at hk
    omega
  | cons p ps ih =>
    obtain ⟨k, rfl⟩ := Nat.exists_eq_add_one_of_ne_zero (show k ≠ 0 by omega)
    have hp := List.length_pos_of_ne_nil (hne p List.mem_cons_self)
    rw [List.length_cons] at hk
    rw [lengthTake_succ]
    cases j with
    | zero =>
      rw [lengthTake_zero]
      omega
    | succ j =>
      have hrest := ih (fun p hp => hne p (List.mem_cons_of_mem _ hp)) (j := j) (k := k) (by omega)
        (by omega)
      rw [lengthTake_succ]
      omega

/-- Everything is taken if it fits. -/
theorem taken_all (hne : ∀ p ∈ ps, p ≠ []) (h : n + ps.flatten.length ≤ limit) :
    taken limit n ps = ps.length := by
  by_contra hnot
  have hlt := Nat.lt_of_le_of_ne taken_le hnot
  have hstops := taken_stops hlt
  have hless := lengthTake_lt hne hlt (Nat.le_refl _)
  rw [lengthTake_all] at hless
  omega

/-- The limit is reached exactly where the first pieces have just the length. -/
theorem taken_eq (hne : ∀ p ∈ ps, p ≠ []) (hk : k ≤ ps.length) (h : n + lengthTake ps k = limit) :
    taken limit n ps = k := by
  rcases Nat.lt_trichotomy (taken limit n ps) k with hlt | heq | hgt
  · have hstops := taken_stops (Nat.lt_of_lt_of_le hlt hk)
    have hless := lengthTake_lt hne hlt hk
    omega
  · exact heq
  · have hbelow := lt_of_lt_taken hgt
    omega

end OdbcDriver.Filling
