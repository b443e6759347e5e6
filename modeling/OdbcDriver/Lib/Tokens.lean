import Mathlib.Data.List.TakeWhile

/-!
# Tokens

`strtok` with one delimiter passes over delimiters to the next token, so that the elements of a
list that are empty are not seen.

* `strtok_none`, `strtok_some`: a call in terms of the elements that are not empty;
* `take_tokens`, `collect_tokens`: the loops that take a number of tokens, or all if they are not
  too many.
-/

namespace OdbcDriver.Tokens

universe u

variable {α : Type u} [DecidableEq α]

/-- The next token, and the text behind it. -/
def strtok (delim : α) (s : List α) : Option (List α × List α) :=
  let s := s.dropWhile fun c => decide (c = delim)
  if s = [] then none
  else
    let token := s.takeWhile fun c => decide (c ≠ delim)
    some (token, s.drop (token.length + 1))

/-- The first tokens, up to a number. -/
def take (delim : α) : ℕ → List α → List (List α)
  | 0, _ => []
  | n + 1, s =>
    match strtok delim s with
    | none => []
    | some (token, rest) => token :: take delim n rest

/-- All tokens, if there are not more than a number. -/
def collect (delim : α) : ℕ → List α → Option (List (List α))
  | 0, s => if (strtok delim s).isSome then none else some []
  | n + 1, s =>
    match strtok delim s with
    | none => some []
    | some (token, rest) => (collect delim n rest).map (token :: ·)

/-- The elements of a list that are not empty. -/
def words (delim : α) (s : List α) : List (List α) := (s.splitOn delim).filter (· ≠ [])

section

variable {delim : α} {s t token rest : List α} {n : ℕ}

@[simp]
theorem words_nil : words delim ([] : List α) = [] := by
  simp [words, List.splitOn_nil]

theorem words_append (s t : List α) :
    words delim (s ++ delim :: t) = words delim s ++ words delim t := by
  simp only [words, List.splitOn_eq_splitOnP]
  rw [List.splitOnP_append_cons s t (by simp), List.filter_append]

theorem words_single (hdelim : delim ∉ s) (hs : s ≠ []) : words delim s = [s] := by
  have hsplit : s.splitOnP (· == delim) = [s] :=
    List.splitOnP_eq_singleton fun x hx => beq_false_of_ne fun h => hdelim (h ▸ hx)
  rw [words, List.splitOn_eq_splitOnP, hsplit]
  simp [hs]

/-- Delimiters in front do not count. -/
theorem words_dropWhile (s : List α) :
    words delim (s.dropWhile fun c => decide (c = delim)) = words delim s := by
  induction s with
  | nil => rfl
  | cons c s ih =>
    by_cases hc : c = delim
    · subst hc
      rw [List.dropWhile_cons_of_pos (by simp), ih]
      exact (words_append [] s).symm
    · rw [List.dropWhile_cons_of_neg (by simpa using hc)]

/-- A text without a delimiter in front begins with a token. -/
theorem words_token (hs : s ≠ []) (hhead : ∀ c ∈ s.head?, c ≠ delim) :
    words delim s = (s.takeWhile fun c => decide (c ≠ delim)) ::
      words delim (s.drop ((s.takeWhile fun c => decide (c ≠ delim)).length + 1)) := by
  obtain ⟨c, r, rfl⟩ := List.exists_cons_of_ne_nil hs
  have hc : c ≠ delim := hhead c rfl
  set token := (c :: r).takeWhile fun c => decide (c ≠ delim) with htoken
  have hne : token ≠ [] := by
    rw [htoken, List.takeWhile_cons_of_pos (by simpa using hc)]
    exact List.cons_ne_nil _ _
  have hfree : delim ∉ token := by
    intro h
    simpa using List.mem_takeWhile_imp h
  have hsplit := List.takeWhile_append_dropWhile (p := fun c => decide (c ≠ delim)) (l := c :: r)
  rw [← htoken] at hsplit
  cases hdrop : (c :: r).dropWhile fun c => decide (c ≠ delim) with
  | nil =>
    rw [hdrop, List.append_nil] at hsplit
    rw [← hsplit, words_single hfree hne, List.drop_eq_nil_of_le (by omega), words_nil]
  | cons d tail =>
    have hd : d = delim := by
      have hnot := List.head_dropWhile_not (fun c => decide (c ≠ delim)) (l := c :: r)
        (by rw [hdrop]; exact List.cons_ne_nil _ _)
      simp only [hdrop, List.head_cons, decide_eq_false_iff_not, not_not] at hnot
      exact hnot
    rw [hdrop, hd] at hsplit
    rw [← hsplit, words_append, words_single hfree hne, ← List.drop_drop, List.drop_left,
      List.drop_one, List.tail_cons]
    rfl

theorem strtok_none (h : strtok delim s = none) : words delim s = [] := by
  rw [← words_dropWhile]
  by_cases hs : (s.dropWhile fun c => decide (c = delim)) = []
  · rw [hs, words_nil]
  · simp [strtok, hs] at h

theorem strtok_some (h : strtok delim s = some (token, rest)) :
    words delim s = token :: words delim rest := by
  rw [← words_dropWhile]
  by_cases hs : (s.dropWhile fun c => decide (c = delim)) = []
  · simp [strtok, hs] at h
  · rw [strtok, if_neg hs, Option.some.injEq, Prod.mk.injEq] at h
    obtain ⟨rfl, rfl⟩ := h
    refine words_token hs fun c hc => ?_
    have hnot := List.head_dropWhile_not (fun c => decide (c = delim)) hs
    rw [List.head?_eq_some_head hs, Option.mem_some_iff] at hc
    simpa [hc] using hnot

/-- The loop that takes the first tokens. -/
theorem take_tokens (n : ℕ) (s : List α) : take delim n s = (words delim s).take n := by
  induction n generalizing s with
  | zero => rfl
  | succ n ih =>
    rw [take]
    cases h : strtok delim s with
    | none => rw [strtok_none h]; rfl
    | some p =>
      rw [strtok_some h, List.take_succ_cons, ← ih]

/-- The loop that takes all of them. -/
theorem collect_tokens (n : ℕ) (s : List α) :
    collect delim n s = if (words delim s).length ≤ n then some (words delim s) else none := by
  induction n generalizing s with
  | zero =>
    rw [collect]
    cases h : strtok delim s with
    | none => simp [strtok_none h]
    | some p => simp [strtok_some h]
  | succ n ih =>
    rw [collect]
    cases h : strtok delim s with
    | none => simp [strtok_none h]
    | some p =>
      rw [strtok_some h]
      simp only [ih, List.length_cons, Nat.add_le_add_iff_right]
      split <;> rfl

/-- The elements are the tokens when none is empty. -/
theorem words_eq_iff : (words delim s).length = (s.splitOn delim).length ↔
    ∀ e ∈ s.splitOn delim, e ≠ [] := by
  rw [words, List.length_filter_eq_length_iff]
  simp

theorem words_of_forall (h : ∀ e ∈ s.splitOn delim, e ≠ []) : words delim s = s.splitOn delim :=
  List.filter_eq_self.mpr fun e he => decide_eq_true (h e he)

end

/-! ### Pieces between the elements that separate -/

section

variable {α : Type u}

/-- An element that separates is found, or the list is one piece. -/
theorem splitOnP_cases (sep : α → Bool) (l : List α) :
    (∀ a ∈ l, sep a = false) ∨ ∃ front a back, l = front ++ a :: back ∧ sep a = true := by
  by_cases h : ∃ a ∈ l, sep a = true
  · obtain ⟨a, ha, hsep⟩ := h
    obtain ⟨front, back, rfl⟩ := List.append_of_mem ha
    exact .inr ⟨front, a, back, rfl, hsep⟩
  · refine .inl fun a ha => Bool.eq_false_iff.mpr fun hsep => h ⟨a, ha, hsep⟩

/-- The elements of the pieces are those that do not separate. -/
theorem mem_splitOnP (sep : α → Bool) (l : List α) (a : α) :
    (∃ piece ∈ l.splitOnP sep, a ∈ piece) ↔ a ∈ l ∧ sep a = false := by
  induction hn : l.length using Nat.strong_induction_on generalizing l with
  | _ n ih =>
    rcases splitOnP_cases sep l with hnone | ⟨front, b, back, rfl, hsep⟩
    · rw [List.splitOnP_eq_singleton hnone]
      simpa using fun ha => hnone a ha
    · rw [List.length_append, List.length_cons] at hn
      rw [List.splitOnP_append_cons front back hsep]
      simp only [List.mem_append, or_and_right, exists_or, List.mem_cons]
      rw [ih _ (by omega) front rfl, ih _ (by omega) back rfl]
      constructor
      · rintro (⟨ha, hp⟩ | ⟨ha, hp⟩)
        · exact .inl ⟨ha, hp⟩
        · exact .inr (.inr ⟨ha, hp⟩)
      · rintro (⟨ha, hp⟩ | ⟨rfl, hp⟩ | ⟨ha, hp⟩)
        · exact .inl ⟨ha, hp⟩
        · rw [hsep] at hp
          cases hp
        · exact .inr ⟨ha, hp⟩

end

end OdbcDriver.Tokens
