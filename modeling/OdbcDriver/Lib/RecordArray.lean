import Mathlib.Data.List.GetD
import OdbcDriver.Lib.HeapArray

/-!
# Records that come and go

A block of memory of which the first records are in use. Growing keeps the records in use and clears
the new ones; shrinking leaves the block as it is, so that what lies behind the records in use is no
longer known. `view` is what can be relied on: the records in use, and a cleared record everywhere
else.

* `view_grow`, `view_shrink`, `view_modify`: what the operations do to the view;
* `wellFormed_grow`, `wellFormed_shrink`, `wellFormed_modify`: they keep the records within their
  block.
-/

namespace OdbcDriver

open HeapArray (realloc)

/-- A block of records, and how many of them are in use. -/
structure RecordArray (α : Type) where
  block : List α
  used : ℤ
  deriving DecidableEq, Repr

namespace RecordArray

variable {α : Type} {a : RecordArray α} {zero : α}

/-- The records in use lie within the block. -/
structure WellFormed (a : RecordArray α) : Prop where
  nonneg : 0 ≤ a.used
  le_length : a.used ≤ a.block.length

/-- No block, and no record. -/
def empty : RecordArray α := ⟨[], 0⟩

/-- The block is allocated anew for `n` records, and those that were not in use are cleared. -/
def grow (zero : α) (n : ℤ) (a : RecordArray α) : RecordArray α where
  block := (realloc a.block n.toNat zero).take a.used.toNat ++
    List.replicate (n - a.used).toNat zero
  used := n

/-- Only the first `n` records stay in use. -/
def shrink (n : ℤ) (a : RecordArray α) : RecordArray α := { a with used := n }

/-- One record is changed. -/
def modify (i : ℕ) (f : α → α) (a : RecordArray α) : RecordArray α :=
  { a with block := a.block.modify i f }

/-- What can be relied on. -/
def view (zero : α) (a : RecordArray α) (i : ℕ) : α :=
  if (i : ℤ) < a.used then a.block.getD i zero else zero

@[simp]
theorem used_modify (i : ℕ) (f : α → α) : (a.modify i f).used = a.used := rfl

theorem wellFormed_empty : (empty : RecordArray α).WellFormed := ⟨le_refl _, le_refl _⟩

theorem wellFormed_grow (h : a.WellFormed) {n : ℤ} (hn : a.used ≤ n) :
    (a.grow zero n).WellFormed := by
  obtain ⟨hpos, hlen⟩ := h
  refine ⟨le_trans hpos hn, ?_⟩
  change n ≤ _
  rw [grow, List.length_append, List.length_take, HeapArray.length_realloc,
    List.length_replicate]
  omega

theorem wellFormed_shrink (h : a.WellFormed) {n : ℤ} (hpos : 0 ≤ n) (hn : n ≤ a.used) :
    (a.shrink n).WellFormed := ⟨hpos, le_trans hn h.le_length⟩

theorem wellFormed_modify (h : a.WellFormed) (i : ℕ) (f : α → α) :
    (a.modify i f).WellFormed := by
  refine ⟨h.nonneg, ?_⟩
  rw [modify, List.length_modify]
  exact h.le_length

theorem view_of_lt {i : ℕ} (hi : (i : ℤ) < a.used) : a.view zero i = a.block.getD i zero :=
  if_pos hi

theorem view_of_le {i : ℕ} (hi : a.used ≤ i) : a.view zero i = zero := if_neg (not_lt.mpr hi)

/-- A record in use lies in the block. -/
theorem getElem?_of_lt (zero : α) (h : a.WellFormed) {i : ℕ} (hi : (i : ℤ) < a.used) :
    a.block[i]? = some (a.view zero i) := by
  have hlen : i < a.block.length := by
    have := h.le_length
    omega
  rw [view_of_lt hi, List.getD_eq_getElem _ _ hlen, List.getElem?_eq_getElem hlen]

/-- Growing changes nothing of the view. -/
theorem view_grow (h : a.WellFormed) {n : ℤ} (hn : a.used ≤ n) (i : ℕ) :
    (a.grow zero n).view zero i = a.view zero i := by
  obtain ⟨hpos, hlen⟩ := h
  have hused : ((realloc a.block n.toNat zero).take a.used.toNat).length = a.used.toNat := by
    rw [List.length_take, HeapArray.length_realloc]
    omega
  by_cases hi : (i : ℤ) < a.used
  · -- a record that was in use
    have hin : i < a.block.length := by omega
    rw [view_of_lt hi, view_of_lt (show (i : ℤ) < (a.grow zero n).used from lt_of_lt_of_le hi hn)]
    rw [grow, List.getD_append _ _ _ _ (by rw [hused]; omega), List.getD_eq_getElem?_getD,
      List.getElem?_take_of_lt (by omega), realloc,
      List.getElem?_append_left (by rw [List.length_take]; omega),
      List.getElem?_take_of_lt (by omega), ← List.getD_eq_getElem?_getD]
  · rw [view_of_le (not_lt.mp hi)]
    by_cases hnew : (i : ℤ) < n
    · rw [view_of_lt (show (i : ℤ) < (a.grow zero n).used from hnew), grow,
        List.getD_append_right _ _ _ _ (by rw [hused]; omega), hused]
      rw [List.getD_eq_getElem _ _ (by rw [List.length_replicate]; omega), List.getElem_replicate]
    · exact view_of_le (not_lt.mp hnew)

/-- Shrinking forgets the records behind. -/
theorem view_shrink {n : ℤ} (hn : n ≤ a.used) (i : ℕ) :
    (a.shrink n).view zero i = if (i : ℤ) < n then a.view zero i else zero := by
  by_cases hi : (i : ℤ) < n
  · rw [if_pos hi, view_of_lt (show (i : ℤ) < (a.shrink n).used from hi),
      view_of_lt (lt_of_lt_of_le hi hn)]
    rfl
  · rw [if_neg hi, view_of_le (not_lt.mp hi)]

/-- Of the records in use one is changed. -/
theorem view_modify (h : a.WellFormed) {i : ℕ} (hi : (i : ℤ) < a.used) (f : α → α) (j : ℕ) :
    (a.modify i f).view zero j = if j = i then f (a.view zero i) else a.view zero j := by
  by_cases hj : (j : ℤ) < a.used
  · have hin : j < a.block.length := by
      have := h.le_length
      omega
    rw [view_of_lt (show (j : ℤ) < (a.modify i f).used from hj), view_of_lt hj, modify,
      List.getD_eq_getElem?_getD, List.getElem?_modify, List.getElem?_eq_getElem hin]
    by_cases hij : j = i
    · subst hij
      rw [if_pos rfl, view_of_lt hi, List.getD_eq_getElem _ _ hin]
      simp
    · rw [if_neg hij, List.getD_eq_getElem _ _ hin]
      simp [Ne.symm hij]
  · rw [view_of_le (not_lt.mp hj), view_of_le (show (a.modify i f).used ≤ j from not_lt.mp hj),
      if_neg]
    rintro rfl
    exact hj hi

end RecordArray

end OdbcDriver
