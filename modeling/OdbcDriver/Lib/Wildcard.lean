import Mathlib.Data.List.Perm.Subperm

/-!
# Wildcard patterns

A pattern is a sequence of literals and of two wildcards, for any one character and for any run of
characters. Its literals are all found in a text it matches, and it has a least match, which holds
nothing else but a filler for every wildcard of one character.

* `count_literals_le`, `count_leastMatch`: how often a character is in a match;
* `exists_match_not_match`: a pattern with fewer literals than another matches a text which that one
  does not.
-/

namespace OdbcDriver.Wildcard

/-- An element of a pattern. -/
inductive Element (α : Type)
  /-- Any run of characters. -/
  | any
  /-- Any one character. -/
  | one
  | lit (c : α)
deriving DecidableEq

variable {α : Type} {p q : List (Element α)} {s : List α} {c : α}

/-- A pattern matches a text. -/
def Matches : List (Element α) → List α → Prop
  | [], s => s = []
  | .any :: p, s => ∃ t u, s = t ++ u ∧ Matches p u
  | .one :: p, s => ∃ c t, s = c :: t ∧ Matches p t
  | .lit c :: p, s => ∃ t, s = c :: t ∧ Matches p t

/-- The literals of a pattern. -/
def literals : List (Element α) → List α
  | [] => []
  | .any :: p => literals p
  | .one :: p => literals p
  | .lit c :: p => c :: literals p

/-- The shortest match, with a filler for any one character. -/
def leastMatch (filler : α) : List (Element α) → List α
  | [] => []
  | .any :: p => leastMatch filler p
  | .one :: p => filler :: leastMatch filler p
  | .lit c :: p => c :: leastMatch filler p

theorem matches_leastMatch (filler : α) (p : List (Element α)) :
    Matches p (leastMatch filler p) := by
  induction p with
  | nil => rfl
  | cons e p ih =>
    cases e with
    | any => exact ⟨[], _, rfl, ih⟩
    | one => exact ⟨filler, _, rfl, ih⟩
    | lit c => exact ⟨_, rfl, ih⟩

/-- What is in the shortest match. -/
theorem mem_leastMatch {filler : α} (h : c ∈ leastMatch filler p) : c = filler ∨ c ∈ literals p := by
  induction p with
  | nil => cases h
  | cons e p ih =>
    cases e with
    | any => exact ih h
    | one =>
      rcases List.mem_cons.mp h with rfl | h
      · exact .inl rfl
      · exact ih h
    | lit d =>
      rcases List.mem_cons.mp h with rfl | h
      · exact .inr List.mem_cons_self
      · exact (ih h).imp_right (List.mem_cons_of_mem d)

section Counts

variable [DecidableEq α]

/-- A match has every literal. -/
theorem count_literals_le (h : Matches p s) (c : α) : (literals p).count c ≤ s.count c := by
  induction p generalizing s with
  | nil => exact Nat.zero_le _
  | cons e p ih =>
    cases e with
    | any =>
      obtain ⟨t, u, rfl, hu⟩ := h
      rw [List.count_append]
      exact Nat.le_trans (ih hu) (Nat.le_add_left _ _)
    | one =>
      obtain ⟨d, t, rfl, ht⟩ := h
      exact Nat.le_trans (ih ht) ((List.sublist_cons_self d t).count_le c)
    | lit d =>
      obtain ⟨t, rfl, ht⟩ := h
      have hle := ih ht
      rw [literals, List.count_cons, List.count_cons]
      omega

/-- Fillers apart, the shortest match has nothing but the literals. -/
theorem count_leastMatch {filler : α} (hc : c ≠ filler) (p : List (Element α)) :
    (leastMatch filler p).count c = (literals p).count c := by
  induction p with
  | nil => rfl
  | cons e p ih =>
    cases e with
    | any => exact ih
    | one => rw [leastMatch, List.count_cons_of_ne hc.symm, ih, literals]
    | lit d => rw [leastMatch, literals, List.count_cons, List.count_cons, ih]

/-- Of two patterns the one with fewer literals has a match that the other has not. -/
theorem exists_match_not_match (h : (literals p).length < (literals q).length) :
    ∃ c ∈ literals q, ∀ filler, c ≠ filler →
      Matches p (leastMatch filler p) ∧ ¬Matches q (leastMatch filler p) := by
  obtain ⟨c, hc, hcount⟩ : ∃ c ∈ literals q, (literals p).count c < (literals q).count c := by
    by_contra hnone
    have hall : ∀ c ∈ literals q, (literals q).count c ≤ (literals p).count c := fun c hc =>
      Nat.le_of_not_lt fun hlt => hnone ⟨c, hc, hlt⟩
    have hle := (List.subperm_ext_iff.mpr hall).length_le
    omega
  refine ⟨c, hc, fun filler hne => ⟨matches_leastMatch filler p, fun hmatch => ?_⟩⟩
  have hle := count_literals_le hmatch c
  rw [count_leastMatch hne] at hle
  omega

end Counts

end OdbcDriver.Wildcard
