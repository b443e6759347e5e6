import Mathlib.Data.List.Count

/-!
# Tables with holes

An array of pointers in which an entry that is given up leaves a hole: a new entry takes the first
hole, or the first place behind the table when it has been made larger. What counts is how often an
entry stands in the table.

* `count_fill`, `count_grow`, `count_clear`, `count_drop`: what each operation does to the counts.
-/

namespace OdbcDriver.Slots

universe u

variable {α : Type u}

/-- The first hole is taken. -/
def fill (x : α) : List (Option α) → Option (List (Option α))
  | [] => none
  | none :: t => some (some x :: t)
  | some y :: t => (fill x t).map (some y :: ·)

/-- A table made larger, with an entry in the first of the new places. -/
def grow (x : α) (places : ℕ) (t : List (Option α)) : List (Option α) :=
  t ++ some x :: List.replicate places none

section

variable [DecidableEq α]

/-- The first place of an entry becomes a hole. -/
def clear (x : α) : List (Option α) → List (Option α)
  | [] => []
  | o :: t => if o = some x then none :: t else o :: clear x t

variable {t t' : List (Option α)} {x y : α}

theorem count_some_cons (x : α) (t : List (Option α)) (y : α) :
    (some x :: t).count (some y) = t.count (some y) + if y = x then 1 else 0 := by
  rw [List.count_cons]
  congr 1
  simp only [beq_iff_eq, Option.some.injEq, @eq_comm α x y]

theorem count_none_cons (t : List (Option α)) (y : α) :
    (none :: t).count (some y) = t.count (some y) := by
  rw [List.count_cons, if_neg (by simp), Nat.add_zero]

theorem count_fill (h : fill x t = some t') (y : α) :
    t'.count (some y) = t.count (some y) + if y = x then 1 else 0 := by
  induction t generalizing t' with
  | nil => exact absurd h (by simp [fill])
  | cons o t ih =>
    cases o with
    | none =>
      obtain rfl := Option.some.inj h
      rw [count_some_cons, count_none_cons]
    | some z =>
      obtain ⟨u, hu, rfl⟩ := Option.map_eq_some_iff.mp h
      rw [count_some_cons, count_some_cons, ih hu]
      omega

theorem count_grow (x : α) (places : ℕ) (t : List (Option α)) (y : α) :
    (grow x places t).count (some y) = t.count (some y) + if y = x then 1 else 0 := by
  have hholes : (List.replicate places (none : Option α)).count (some y) = 0 := by
    simp [List.count_replicate]
  rw [grow, List.count_append, count_some_cons, hholes, Nat.zero_add]

theorem count_clear (x : α) (t : List (Option α)) (y : α) :
    (clear x t).count (some y) = t.count (some y) - if y = x then 1 else 0 := by
  induction t with
  | nil => simp [clear]
  | cons o t ih =>
    rw [clear]
    by_cases ho : o = some x
    · subst ho
      rw [if_pos rfl, count_none_cons, count_some_cons]
      omega
    · rw [if_neg ho]
      cases o with
      | none => rw [count_none_cons, count_none_cons, ih]
      | some z =>
        rw [count_some_cons, count_some_cons, ih]
        by_cases hy : y = x
        · have hz : y ≠ z := fun h => ho (by rw [← h, hy])
          simp [hz]
        · simp [hy]

/-- The entries of a kind are given up. -/
def drop (p : α → Bool) (t : List (Option α)) : List (Option α) :=
  t.map fun o => o.filter fun x => !p x

theorem count_drop (p : α → Bool) (t : List (Option α)) (y : α) :
    (drop p t).count (some y) = if p y = true then 0 else t.count (some y) := by
  induction t with
  | nil => simp [drop]
  | cons o t ih =>
    rw [drop, List.map_cons, ← drop]
    cases o with
    | none => rw [Option.filter_none, count_none_cons, count_none_cons, ih]
    | some z =>
      rw [count_some_cons]
      by_cases hz : p z = true
      · have hgone : (some z).filter (fun x => !p x) = none := by simp [hz]
        rw [hgone, count_none_cons, ih]
        by_cases hy : y = z
        · simp [hy, hz]
        · simp [hy]
      · have hkept : (some z).filter (fun x => !p x) = some z := by simp [hz]
        rw [hkept, count_some_cons, ih]
        by_cases hy : y = z
        · simp [hy, hz]
        · simp [hy]

end

end OdbcDriver.Slots
