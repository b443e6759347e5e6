import Mathlib.Data.List.DropRight
import Mathlib.Data.List.Induction

/-!
# A list up to its last mark

* `upToLast_append`: what stands in front of the last mark, and the mark, is kept;
* `upToLast_cases`: there is no mark, or one is the last.
-/

namespace OdbcDriver.LastMark

universe u

variable {α : Type u} [DecidableEq α]

/-- The list up to its last mark. -/
def upToLast (mark : α) (l : List α) : List α := l.rdropWhile fun x => decide (x ≠ mark)

variable {mark x : α} {l front rest : List α}

@[simp] theorem upToLast_nil : upToLast mark [] = [] := List.rdropWhile_nil _

theorem upToLast_mark (mark : α) (l : List α) : upToLast mark (l ++ [mark]) = l ++ [mark] :=
  List.rdropWhile_concat_neg _ _ _ (by simp)

theorem upToLast_other (h : x ≠ mark) (l : List α) : upToLast mark (l ++ [x]) = upToLast mark l :=
  List.rdropWhile_concat_pos _ _ _ (decide_eq_true h)

theorem prefix_upToLast (mark : α) (l : List α) : upToLast mark l <+: l :=
  List.rdropWhile_prefix _ _

theorem upToLast_of_not_mem (h : mark ∉ l) : upToLast mark l = [] := by
  rw [upToLast, List.rdropWhile_eq_nil_iff]
  intro x hx
  exact decide_eq_true fun heq => h (heq ▸ hx)

theorem upToLast_append (h : mark ∉ rest) :
    upToLast mark (front ++ mark :: rest) = front ++ [mark] := by
  induction rest using List.reverseRecOn with
  | nil => exact upToLast_mark mark front
  | append_singleton rest x ih =>
    rw [List.mem_append, not_or, List.mem_singleton] at h
    rw [← List.cons_append, ← List.append_assoc, upToLast_other (Ne.symm h.2)]
    exact ih h.1

theorem upToLast_cases (mark : α) (l : List α) :
    mark ∉ l ∨ ∃ front rest, l = front ++ mark :: rest ∧ mark ∉ rest := by
  induction l using List.reverseRecOn with
  | nil => exact .inl List.not_mem_nil
  | append_singleton l x ih =>
    by_cases hx : x = mark
    · exact .inr ⟨l, [], by rw [hx], List.not_mem_nil⟩
    · rcases ih with h | ⟨front, rest, rfl, h⟩
      · left
        rw [List.mem_append, not_or, List.mem_singleton]
        exact ⟨h, Ne.symm hx⟩
      · refine .inr ⟨front, rest ++ [x], by simp, ?_⟩
        rw [List.mem_append, not_or, List.mem_singleton]
        exact ⟨h, Ne.symm hx⟩

end OdbcDriver.LastMark
