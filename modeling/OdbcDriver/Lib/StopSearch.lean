import Mathlib.Data.List.TakeWhile
import Mathlib.Order.Lattice

/-!
# Sorted lists searched with an early stop

An entry goes before the first entry of a list that ranks above it. A search that stops at what is
past the entry it looks for finds the entry where nothing past it comes before it, which depends on
whether the order of the list and the test of the search agree.

* `pairwise_insertBy`: the list stays sorted;
* `searchUpTo_eq_find?`: what the search finds.
-/

namespace OdbcDriver.StopSearch

universe u v

variable {α : Type u} {β : Type v}

section Insert

variable [LinearOrder β] (rank : α → β)

/-- The entry goes before the first one that ranks above it. -/
def insertBy (x : α) (l : List α) : List α :=
  l.takeWhile (fun a => !decide (rank x < rank a)) ++
    x :: l.dropWhile fun a => !decide (rank x < rank a)

variable {rank} {x a : α} {l : List α}

theorem mem_insertBy : a ∈ insertBy rank x l ↔ a = x ∨ a ∈ l := by
  rw [insertBy, List.mem_append, List.mem_cons, or_left_comm, ← List.mem_append,
    List.takeWhile_append_dropWhile]

/-- A sorted list stays sorted. -/
theorem pairwise_insertBy (h : l.Pairwise fun a b => rank a ≤ rank b) :
    (insertBy rank x l).Pairwise fun a b => rank a ≤ rank b := by
  induction l with
  | nil => exact List.pairwise_singleton _ x
  | cons a l ih =>
    obtain ⟨ha, hl⟩ := List.pairwise_cons.mp h
    by_cases hlt : rank x < rank a
    · have hfront : insertBy rank x (a :: l) = x :: a :: l := by
        simp [insertBy, hlt]
      rw [hfront]
      refine List.pairwise_cons.mpr ⟨fun b hb => ?_, h⟩
      rcases List.mem_cons.mp hb with rfl | hb
      · exact hlt.le
      · exact hlt.le.trans (ha b hb)
    · have hbehind : insertBy rank x (a :: l) = a :: insertBy rank x l := by
        simp [insertBy, hlt]
      rw [hbehind]
      refine List.pairwise_cons.mpr ⟨fun b hb => ?_, ih hl⟩
      rcases mem_insertBy.mp hb with rfl | hb
      · exact not_lt.mp hlt
      · exact ha b hb

end Insert

section Search

variable (hit past : α → Bool)

/-- The first entry that is looked for, unless one that is past it comes before. -/
def searchUpTo : List α → Option α
  | [] => none
  | a :: l => if hit a then some a else if past a then none else searchUpTo l

variable {hit past} {l : List α}

/-- Where nothing that is past comes before what is looked for, the stop hides nothing. -/
theorem searchUpTo_eq_find? (h : l.Pairwise fun a b => hit b = true → past a = false) :
    searchUpTo hit past l = l.find? hit := by
  induction l with
  | nil => rfl
  | cons a l ih =>
    obtain ⟨ha, hl⟩ := List.pairwise_cons.mp h
    rw [searchUpTo, List.find?_cons]
    cases hhit : hit a with
    | true => rfl
    | false =>
      cases hpast : past a with
      | true =>
        have hnone : l.find? hit = none := by
          refine List.find?_eq_none.mpr fun b hb hit_b => ?_
          exact absurd hpast (by simp [ha b hb hit_b])
        exact hnone.symm
      | false => exact ih hl

/-- What is past in front hides everything. -/
theorem searchUpTo_stopped {a : α} (hhit : hit a = false) (hpast : past a = true) :
    searchUpTo hit past (a :: l) = none := by
  rw [searchUpTo, hhit, hpast]
  rfl

end Search

end OdbcDriver.StopSearch
