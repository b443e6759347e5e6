import Mathlib.Data.List.Flatten
import Mathlib.Data.List.Range

/-!
# The chosen numbers below a bound

A loop over `0, 1, …` that acts at some numbers and passes over the others has, when it stands at
`k`, acted at `below chosen k`. `next chosen k n` is where it acts next before `n`; between the two
nothing is chosen, so the numbers below the next one are those below `k`.
-/

namespace OdbcDriver.Below

variable {chosen : Nat → Bool} {k m n i : Nat}

/-- The chosen numbers below `k`, in order. -/
def below (chosen : Nat → Bool) (k : Nat) : List Nat := (List.range k).filter chosen

/-- The first chosen number from `k` on and below `n`. -/
def next (chosen : Nat → Bool) (k n : Nat) : Option Nat := (List.range' k (n - k)).find? chosen

@[simp]
theorem below_zero (chosen : Nat → Bool) : below chosen 0 = [] := rfl

theorem mem_below : i ∈ below chosen k ↔ i < k ∧ chosen i = true := by
  rw [below, List.mem_filter, List.mem_range]

theorem below_succ (chosen : Nat → Bool) (k : Nat) :
    below chosen (k + 1) = below chosen k ++ if chosen k then [k] else [] := by
  rw [below, List.range_succ, List.filter_append, List.filter_singleton]
  cases chosen k <;> rfl

theorem below_succ_of_chosen (h : chosen k = true) :
    below chosen (k + 1) = below chosen k ++ [k] := by
  rw [below_succ, if_pos h]

/-- Where nothing is chosen in between, nothing is added. -/
theorem below_skip (hkm : k ≤ m) (h : ∀ i, k ≤ i → i < m → chosen i = false) :
    below chosen m = below chosen k := by
  induction m, hkm using Nat.le_induction with
  | base => rfl
  | succ m hm ih =>
    rw [below_succ, h m hm (Nat.lt_succ_self m)]
    exact (List.append_nil _).trans (ih fun i hi hi' => h i hi (Nat.lt_succ_of_lt hi'))

theorem prefix_below (chosen : Nat → Bool) (h : k ≤ m) :
    below chosen k <+: below chosen m := by
  induction m, h using Nat.le_induction with
  | base => exact List.prefix_rfl
  | succ m hm ih =>
    rw [below_succ]
    exact ih.trans (List.prefix_append _ _)

theorem below_nodup (chosen : Nat → Bool) (k : Nat) : (below chosen k).Nodup :=
  List.nodup_range.filter _

/-! ### The next one -/

theorem next_some (h : next chosen k n = some i) :
    k ≤ i ∧ i < n ∧ chosen i = true ∧ below chosen i = below chosen k := by
  obtain ⟨hchosen, hmem, hbetween⟩ := List.find?_range'_eq_some.mp h
  obtain ⟨hle, hlt⟩ := List.mem_range'_1.mp hmem
  refine ⟨hle, by omega, hchosen, below_skip hle fun j hj hj' => ?_⟩
  exact Bool.not_eq_true' _ ▸ hbetween j hj hj'

theorem next_congr {other : Nat → Bool} (h : ∀ i < n, chosen i = other i) :
    next chosen k n = next other k n := by
  have hrange : ∀ i ∈ List.range' k (n - k), chosen i = other i := by
    intro i hi
    obtain ⟨hle, hlt⟩ := List.mem_range'_1.mp hi
    exact h i (by omega)
  rw [next, next, ← List.head?_filter, ← List.head?_filter, List.filter_congr hrange]

/-- The one chosen next is chosen behind the others. -/
theorem below_next (h : next chosen k n = some i) :
    below chosen (i + 1) = below chosen k ++ [i] := by
  obtain ⟨-, -, hchosen, hskip⟩ := next_some h
  rw [below_succ_of_chosen hchosen, hskip]

theorem next_none (hkn : k ≤ n) (h : next chosen k n = none) : below chosen n = below chosen k := by
  refine below_skip hkn fun i hi hi' => ?_
  have hnot := List.find?_eq_none.mp h i (List.mem_range'_1.mpr ⟨hi, by omega⟩)
  exact Bool.eq_false_iff.mpr hnot

/-- While fewer are chosen below `k` than below `n`, there is a next one. -/
theorem exists_next (hkn : k ≤ n) (h : (below chosen k).length < (below chosen n).length) :
    ∃ i, next chosen k n = some i := by
  cases hnext : next chosen k n with
  | some i => exact ⟨i, rfl⟩
  | none => exact absurd (next_none hkn hnext) fun heq => by rw [heq] at h; omega

/-- As many below `k` as below `n` are all of them. -/
theorem below_eq_of_length (hkn : k ≤ n)
    (h : (below chosen k).length = (below chosen n).length) : below chosen k = below chosen n :=
  (prefix_below chosen hkn).eq_of_length h

/-! ### What is done at each -/

variable {α : Type*}

/-- What is done at the numbers below `k` is the beginning of what is done below `m`. -/
theorem flatMap_prefix_below (chosen : Nat → Bool) (f : Nat → List α) (h : k ≤ m) :
    (below chosen k).flatMap f <+: (below chosen m).flatMap f := by
  obtain ⟨rest, hrest⟩ := prefix_below chosen h
  rw [← hrest, List.flatMap_append]
  exact List.prefix_append _ _

/-- With the beginning of what is done at a chosen number, it still is one. -/
theorem flatMap_below_append_prefix {f : Nat → List α} {part : List α} (hk : chosen k = true)
    (hpart : part <+: f k) (h : k < m) :
    (below chosen k).flatMap f ++ part <+: (below chosen m).flatMap f := by
  have hupto : (below chosen k).flatMap f ++ part <+: (below chosen (k + 1)).flatMap f := by
    rw [below_succ_of_chosen hk, List.flatMap_append, List.flatMap_singleton]
    exact (List.prefix_append_right_inj _).mpr hpart
  exact hupto.trans (flatMap_prefix_below chosen f h)

end OdbcDriver.Below
