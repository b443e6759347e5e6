import Mathlib.Data.List.Count
import Mathlib.Logic.Function.Basic
import Mathlib.Data.Int.Order.Basic

/-!
# Reference counts

Cells that have a counter each, and a list of references, each of which points to a cell or to
none. The counters are right when each is the number of references to its cell, and when no
reference points to a cell that does not exist.

* `Counted.acquire`, `Counted.release`: a reference is set or taken away, and the counter follows;
* `Counted.alloc`, `Counted.free`: a new cell, and one without references that is given up;
* `Counted.zero_iff`: a counter is zero where no reference points to the cell.
-/

namespace OdbcDriver.RefCount

universe u

variable {ι : Type u} [DecidableEq ι] {count : ι → Option ℤ} {refs : List (Option ι)} {i j : ι}
  {n : ℤ} {k : ℕ}

/-- Every counter is the number of references to its cell, and every reference is to a cell. -/
structure Counted (count : ι → Option ℤ) (refs : List (Option ι)) : Prop where
  eq : ∀ i n, count i = some n → n = refs.count (some i)
  live : ∀ i, some i ∈ refs → (count i).isSome

theorem Counted.zero_iff (h : Counted count refs) (hi : count i = some n) :
    n = 0 ↔ some i ∉ refs := by
  rw [h.eq i n hi, Int.natCast_eq_zero, List.count_eq_zero]

theorem Counted.nonneg (h : Counted count refs) (hi : count i = some n) : 0 ≤ n :=
  h.eq i n hi ▸ Int.natCast_nonneg _

theorem counted_nil : Counted (fun _ : ι => none) [] :=
  ⟨fun _ _ h => (nomatch h), fun _ h => (nomatch h)⟩

/-- A reference that points nowhere. -/
theorem Counted.append_none (h : Counted count refs) : Counted count (refs ++ [none]) := by
  constructor
  · intro i n hi
    rw [List.count_append, List.count_singleton, h.eq i n hi]
    simp
  · intro i hi
    rcases List.mem_append.mp hi with hi | hi
    · exact h.live i hi
    · simp at hi

/-- What a reference points to instead. -/
theorem count_set {r : Option ι} (hk : refs[k]? = some r) (r' : Option ι) (i : ι) :
    ((refs.set k r').count (some i) : ℤ) + (if r = some i then 1 else 0) =
      refs.count (some i) + if r' = some i then 1 else 0 := by
  obtain ⟨hlt, hget⟩ := List.getElem?_eq_some_iff.mp hk
  have hpos : r = some i → 0 < refs.count (some i) := by
    rintro rfl
    exact List.count_pos_iff.mpr (hget ▸ List.getElem_mem hlt)
  have hset := List.count_set hlt (a := r') (b := some i)
  rw [hget] at hset
  simp only [beq_iff_eq] at hset
  by_cases hr : r = some i
  · have hone := hpos hr
    rw [if_pos hr] at hset ⊢
    split_ifs at hset ⊢ <;> omega
  · rw [if_neg hr] at hset ⊢
    split_ifs at hset ⊢ <;> omega

omit [DecidableEq ι] in
theorem mem_set_some {r' : Option ι} (h : some i ∈ refs.set k r') :
    some i ∈ refs ∨ r' = some i :=
  (List.mem_or_eq_of_mem_set h).imp_right Eq.symm

/-- **A reference is set**, and the counter goes up. -/
theorem Counted.acquire (h : Counted count refs) (hk : refs[k]? = some none)
    (hi : count i = some n) :
    Counted (Function.update count i (some (n + 1))) (refs.set k (some i)) := by
  constructor
  · intro j m hj
    have hset := count_set hk (some i) j
    simp only [reduceCtorEq, if_false, Int.add_zero, Option.some.injEq] at hset
    by_cases hji : j = i
    · subst hji
      rw [Function.update_self, Option.some.injEq] at hj
      rw [hset, if_pos rfl, ← hj, h.eq j n hi]
    · rw [Function.update_of_ne hji] at hj
      rw [hset, if_neg (Ne.symm hji), Int.add_zero, h.eq j m hj]
  · intro j hj
    by_cases hji : j = i
    · rw [hji, Function.update_self]
      rfl
    · rw [Function.update_of_ne hji]
      rcases mem_set_some hj with hj | hj
      · exact h.live j hj
      · exact absurd (Option.some.inj hj).symm hji

/-- **A reference is taken away**, and the counter goes down. -/
theorem Counted.release (h : Counted count refs) (hk : refs[k]? = some (some i))
    (hi : count i = some n) :
    Counted (Function.update count i (some (n - 1))) (refs.set k none) := by
  constructor
  · intro j m hj
    have hset := count_set hk none j
    simp only [reduceCtorEq, if_false, Int.add_zero, Option.some.injEq] at hset
    by_cases hji : j = i
    · subst hji
      rw [Function.update_self, Option.some.injEq] at hj
      rw [if_pos rfl, ← h.eq j n hi] at hset
      omega
    · rw [Function.update_of_ne hji] at hj
      rw [if_neg (Ne.symm hji), Int.add_zero] at hset
      rw [hset, h.eq j m hj]
  · intro j hj
    by_cases hji : j = i
    · rw [hji, Function.update_self]
      rfl
    · rw [Function.update_of_ne hji]
      rcases mem_set_some hj with hj | hj
      · exact h.live j hj
      · cases hj

/-- A new cell. -/
theorem Counted.alloc (h : Counted count refs) (hi : count i = none) :
    Counted (Function.update count i (some 0)) refs := by
  constructor
  · intro j m hj
    by_cases hji : j = i
    · subst hji
      rw [Function.update_self, Option.some.injEq] at hj
      have hnot : some j ∉ refs := fun hmem => by
        have hlive := h.live j hmem
        rw [hi] at hlive
        cases hlive
      rw [← hj, List.count_eq_zero.mpr hnot]
      rfl
    · rw [Function.update_of_ne hji] at hj
      exact h.eq j m hj
  · intro j hj
    by_cases hji : j = i
    · rw [hji, Function.update_self]
      rfl
    · rw [Function.update_of_ne hji]
      exact h.live j hj

/-- A cell without references is given up. -/
theorem Counted.free (h : Counted count refs) (hi : count i = some 0) :
    Counted (Function.update count i none) refs := by
  constructor
  · intro j m hj
    by_cases hji : j = i
    · rw [hji, Function.update_self] at hj
      cases hj
    · rw [Function.update_of_ne hji] at hj
      exact h.eq j m hj
  · intro j hj
    by_cases hji : j = i
    · exact absurd (hji ▸ hj) ((h.zero_iff hi).mp rfl)
    · rw [Function.update_of_ne hji]
      exact h.live j hj

end OdbcDriver.RefCount
