import Mathlib.Data.List.Basic

/-!
# Delimited texts

A text between delimiters, in which the delimiters of the text itself are doubled.

* `readDelimited_iff`: a reader finds just the texts that are written so;
* `readDelimited_pasted`: a text pasted between delimiters as it is, and cut at a length, is found
  just when it has no delimiter and its closing delimiter is not cut off.
-/

namespace OdbcDriver.Delimited

universe u

variable {α : Type u} [DecidableEq α]

/-- The delimiters of a text doubled. -/
def double (q : α) (v : List α) : List α := v.flatMap fun c => if c = q then [c, c] else [c]

/-- The rest of a delimited text: the text, and what stands behind its closing delimiter. -/
def readDelimited (q : α) : List α → Option (List α × List α)
  | [] => none
  | [c] => if c = q then some ([], []) else none
  | c :: d :: l =>
    if c = q then
      if d = q then (readDelimited q l).map fun (v, rest) => (q :: v, rest)
      else some ([], d :: l)
    else (readDelimited q (d :: l)).map fun (v, rest) => (c :: v, rest)

variable {q c : α} {v l rest : List α}

@[simp] theorem double_nil (q : α) : double q [] = [] := rfl

theorem double_delimiter (q : α) (v : List α) : double q (q :: v) = q :: q :: double q v := by
  rw [double, List.flatMap_cons, if_pos rfl]
  rfl

theorem double_other (hc : c ≠ q) (v : List α) : double q (c :: v) = c :: double q v := by
  rw [double, List.flatMap_cons, if_neg hc]
  rfl

theorem readDelimited_other (hc : c ≠ q) (l : List α) :
    readDelimited q (c :: l) = (readDelimited q l).map fun (v, rest) => (c :: v, rest) := by
  cases l with
  | nil =>
    have hone : readDelimited q [c] = if c = q then some ([], []) else none := rfl
    rw [hone, if_neg hc]
    rfl
  | cons d l => rw [readDelimited, if_neg hc]

theorem readDelimited_double (hrest : rest.head? ≠ some q) :
    readDelimited q (double q v ++ q :: rest) = some (v, rest) := by
  induction v with
  | nil =>
    rw [double_nil, List.nil_append]
    cases rest with
    | nil => rw [readDelimited, if_pos rfl]
    | cons d rest =>
      have hd : d ≠ q := fun h => hrest (congrArg some h)
      rw [readDelimited, if_pos rfl, if_neg hd]
  | cons c v ih =>
    by_cases hc : c = q
    · rw [hc, double_delimiter, List.cons_append, List.cons_append, readDelimited, if_pos rfl,
        if_pos rfl, ih]
      rfl
    · rw [double_other hc, List.cons_append, readDelimited_other hc, ih]
      rfl

theorem eq_of_readDelimited (h : readDelimited q l = some (v, rest)) :
    l = double q v ++ q :: rest ∧ rest.head? ≠ some q := by
  induction l using readDelimited.induct q generalizing v with
  | case1 => cases h
  | case2 =>
    rw [readDelimited, if_pos rfl] at h
    cases h
    exact ⟨rfl, by simp⟩
  | case3 c hc =>
    rw [readDelimited, if_neg hc] at h
    cases h
  | case4 l ih =>
    rw [readDelimited, if_pos rfl, if_pos rfl, Option.map_eq_some_iff] at h
    obtain ⟨⟨w, rest'⟩, hw, heq⟩ := h
    obtain ⟨rfl, rfl⟩ := Prod.mk.inj heq
    obtain ⟨rfl, hrest⟩ := ih hw
    exact ⟨by rw [double_delimiter]; rfl, hrest⟩
  | case5 d l hd =>
    rw [readDelimited, if_pos rfl, if_neg hd] at h
    obtain ⟨rfl, rfl⟩ := Prod.mk.inj (Option.some.inj h)
    exact ⟨rfl, by simpa using hd⟩
  | case6 c d l hc ih =>
    rw [readDelimited, if_neg hc, Option.map_eq_some_iff] at h
    obtain ⟨⟨w, rest'⟩, hw, heq⟩ := h
    obtain ⟨rfl, rfl⟩ := Prod.mk.inj heq
    obtain ⟨htail, hrest⟩ := ih hw
    exact ⟨by rw [double_other hc, htail]; rfl, hrest⟩

theorem readDelimited_iff :
    readDelimited q l = some (v, rest) ↔ l = double q v ++ q :: rest ∧ rest.head? ≠ some q := by
  constructor
  · exact eq_of_readDelimited
  · rintro ⟨rfl, hrest⟩
    exact readDelimited_double hrest

/-! ### A text that is pasted -/

variable {post : List α} {k : ℕ}

theorem double_of_notMem (h : q ∉ v) : double q v = v := by
  induction v with
  | nil => rfl
  | cons c v ih =>
    rw [List.mem_cons, not_or] at h
    rw [double_other (Ne.symm h.1), ih h.2]

/-- Delimiters ahead of a doubled text never stand in front of the pasted one: each shows the next
character to be a delimiter too, which is doubled in turn. -/
theorem not_ahead (hpost : post.head? ≠ some q) (n : ℕ) :
    ¬(List.replicate (n + 1) q ++ (double q v ++ [q]) <+: v ++ q :: post) := by
  induction v generalizing n with
  | nil =>
    intro h
    rw [List.replicate_succ, List.cons_append, List.nil_append, List.cons_prefix_cons,
      double_nil, List.nil_append, ← List.replicate_succ', List.replicate_succ] at h
    obtain ⟨t, ht⟩ := h.2
    rw [← ht] at hpost
    exact hpost rfl
  | cons c v ih =>
    intro h
    rw [List.replicate_succ, List.cons_append, List.cons_append, List.cons_prefix_cons] at h
    obtain ⟨rfl, h⟩ := h
    refine ih (n + 1) ?_
    have hrep : List.replicate (n + 1 + 1) q ++ (double q v ++ [q]) =
        List.replicate n q ++ (q :: q :: double q v ++ [q]) := by
      rw [Nat.add_assoc, List.replicate_add, List.append_assoc]
      rfl
    rw [hrep]
    rwa [double_delimiter] at h

theorem notMem_of_pasted (hpost : post.head? ≠ some q)
    (h : double q v ++ [q] <+: v ++ q :: post) : q ∉ v := by
  induction v with
  | nil => exact List.not_mem_nil
  | cons c v ih =>
    by_cases hc : c = q
    · subst hc
      rw [double_delimiter, List.cons_append, List.cons_append, List.cons_append,
        List.cons_prefix_cons] at h
      exact absurd h.2 (not_ahead hpost 0)
    · rw [double_other hc, List.cons_append, List.cons_append, List.cons_prefix_cons] at h
      rw [List.mem_cons, not_or]
      exact ⟨Ne.symm hc, ih h.2⟩

theorem readDelimited_pasted (hpost : post.head? ≠ some q) :
    readDelimited q ((v ++ q :: post).take k) = some (v, rest) ↔
      q ∉ v ∧ v.length < k ∧ rest = post.take (k - v.length - 1) := by
  constructor
  · intro h
    obtain ⟨heq, -⟩ := eq_of_readDelimited h
    have hfront : double q v ++ [q] <+: (v ++ q :: post).take k := by
      rw [heq]
      exact ⟨rest, by simp⟩
    have hfree := notMem_of_pasted hpost (hfront.trans (List.take_prefix _ _))
    rw [double_of_notMem hfree] at heq hfront
    have hlen := hfront.length_le
    rw [List.length_take, List.length_append, List.length_singleton] at hlen
    refine ⟨hfree, by omega, ?_⟩
    rw [List.take_append, List.take_of_length_le (by omega),
      List.append_cancel_left_eq] at heq
    obtain ⟨m, hm⟩ : ∃ m, k - v.length = m + 1 := ⟨k - v.length - 1, by omega⟩
    rw [hm, List.take_succ_cons] at heq
    rw [hm, Nat.add_sub_cancel]
    exact (List.cons.inj heq).2.symm
  · rintro ⟨hfree, hk, rfl⟩
    obtain ⟨m, hm⟩ : ∃ m, k - v.length = m + 1 := ⟨k - v.length - 1, by omega⟩
    have hhead : (post.take m).head? ≠ some q := by
      intro h
      cases hp : post with
      | nil => simp [hp] at h
      | cons c post' =>
        cases m with
        | zero => simp at h
        | succ m =>
          rw [hp, List.take_succ_cons] at h
          rw [hp] at hpost
          exact hpost h
    rw [List.take_append, List.take_of_length_le (by omega), hm, List.take_succ_cons,
      Nat.add_sub_cancel]
    have hread := readDelimited_double (v := v) hhead
    rwa [double_of_notMem hfree] at hread

end OdbcDriver.Delimited
