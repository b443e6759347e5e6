import Mathlib.Data.Nat.Notation

/-!
# Asking again with a larger buffer

A caller asks for something with a buffer of a guessed size, and if the answer says that the buffer
was too small, gets another of the size that follows from the answer, and asks again. The loop need
not come to an end by itself, so it is run for a number of rounds.

* `regrow_done`, `regrow_again`: what one round does, and `regrow_ends`: when two are enough;
* `done_cases`: how a run has come to its end;
* `end_of_done`: what holds of the last answer, and `size_of_done` of its size.
-/

namespace OdbcDriver.Regrow

universe u v w

/-- How a run ends. -/
inductive Grown (σ : Type u) (ε : Type v) (α : Type w)
  /-- The rounds are used up. -/
  | unfinished
  /-- No buffer of the size is given. -/
  | refused
  /-- There is no next size. -/
  | fault (e : ε)
  /-- The answer, with the size of its buffer. -/
  | done (size : σ) (answer : α)
deriving DecidableEq, Repr

variable {σ : Type u} {ε : Type v} {α : Type w}

/-- The loop. -/
def regrow (given : σ → Bool) (ask : σ → α) (enough : σ → α → Bool) (next : α → Except ε σ) :
    ℕ → σ → Grown σ ε α
  | 0, _ => .unfinished
  | rounds + 1, size =>
    if given size then
      if enough size (ask size) then .done size (ask size)
      else
        match next (ask size) with
        | .ok size => regrow given ask enough next rounds size
        | .error e => .fault e
    else .refused

variable {given : σ → Bool} {ask : σ → α} {enough : σ → α → Bool} {next : α → Except ε σ}
variable {rounds : ℕ} {size size' : σ} {a : α}

/-- One round. -/
theorem regrow_succ (rounds : ℕ) (size : σ) :
    regrow given ask enough next (rounds + 1) size =
      if given size then
        if enough size (ask size) then .done size (ask size)
        else
          match next (ask size) with
          | .ok size => regrow given ask enough next rounds size
          | .error e => .fault e
      else .refused :=
  rfl

theorem regrow_done (hgiven : given size = true) (henough : enough size (ask size) = true)
    (rounds : ℕ) :
    regrow given ask enough next (rounds + 1) size = .done size (ask size) := by
  rw [regrow_succ, if_pos hgiven, if_pos henough]

theorem regrow_again (hgiven : given size = true) (henough : enough size (ask size) = false)
    (hnext : next (ask size) = .ok size') (rounds : ℕ) :
    regrow given ask enough next (rounds + 1) size =
      regrow given ask enough next rounds size' := by
  rw [regrow_succ, if_pos hgiven, henough, if_neg Bool.false_ne_true, hnext]

theorem regrow_refused (hgiven : given size = false) (rounds : ℕ) :
    regrow given ask enough next (rounds + 1) size = .refused := by
  rw [regrow_succ, hgiven, if_neg Bool.false_ne_true]

/-- Where the answer to every next size that is given is enough, two rounds are. -/
theorem regrow_ends (hnext : ∀ size', next (ask size) = .ok size' → given size' = true →
    enough size' (ask size') = true) :
    regrow given ask enough next 2 size ≠ .unfinished := by
  rw [regrow_succ]
  split
  · split
    · simp
    · split
      · rename_i size₁ heq
        rw [regrow_succ]
        split
        · rename_i hgiven
          rw [if_pos (hnext size₁ heq hgiven)]
          simp
        · simp
      · simp
  · simp

/-- Either the first answer is enough, or there is a run from the next size. -/
theorem done_cases (h : regrow given ask enough next rounds size = .done size' a) :
    given size = true ∧
      (size' = size ∧ enough size (ask size) = true ∨
        enough size (ask size) = false ∧ ∃ size₁ rounds', next (ask size) = .ok size₁ ∧
          regrow given ask enough next rounds' size₁ = .done size' a) := by
  cases rounds with
  | zero => cases h
  | succ rounds =>
    rw [regrow_succ] at h
    split at h
    case isFalse => cases h
    rename_i hgiven
    refine ⟨hgiven, ?_⟩
    split at h
    · rename_i henough
      cases h
      exact .inl ⟨rfl, henough⟩
    · rename_i henough
      rw [Bool.not_eq_true] at henough
      split at h
      · rename_i size₁ hnext
        exact .inr ⟨henough, size₁, rounds, hnext, h⟩
      · cases h

/-- The last answer is enough, and is that to the last size, which was given. -/
theorem end_of_done (h : regrow given ask enough next rounds size = .done size' a) :
    given size' = true ∧ a = ask size' ∧ enough size' a = true := by
  induction rounds generalizing size with
  | zero => cases h
  | succ rounds ih =>
    rw [regrow_succ] at h
    split at h
    case isFalse => cases h
    rename_i hgiven
    split at h
    · rename_i henough
      cases h
      exact ⟨hgiven, rfl, henough⟩
    · split at h
      · exact ih h
      · cases h

/-- What holds of the first size and of every next one holds of the last. -/
theorem size_of_done {P : σ → Prop} (hsize : P size)
    (hnext : ∀ a size, next a = .ok size → P size)
    (h : regrow given ask enough next rounds size = .done size' a) : P size' := by
  induction rounds generalizing size with
  | zero => cases h
  | succ rounds ih =>
    rw [regrow_succ] at h
    split at h
    case isFalse => cases h
    split at h
    · cases h
      exact hsize
    · split at h
      · rename_i size₁ heq
        exact ih (hnext _ _ heq) h
      · cases h

end OdbcDriver.Regrow
