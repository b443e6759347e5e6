import Mathlib.Data.List.Nodup
import Mathlib.Data.List.Perm.Subperm
import Mathlib.Tactic.Linarith
import OdbcDriver.Lib.CInt

/-!
# Counting past the members of a sorted list

Rows are numbered from 0 on, and some of them are missing: their numbers are in a sorted list. To get
to the `n`-th row that is there, one goes `n` on and one further for each missing row that is passed.
`skipUp` does so upwards and `skipDown` downwards; the position is a signed number of 64 bits.

`skipUp_spec` and `skipDown_spec` say where they end: as many missing rows were passed as are between
the start and the end, and the end is not one of them. `countIn_add_countP` counts the rows that are
there. A position that leaves the 64 bits ends on the wrong side (`skipUp_neg`, `le_skipDown`).
-/

namespace OdbcDriver.Gaps

open CInt

/-! ### Rows that are there -/

/-- How many of the first `N` rows are there, from `a` on and before `b`. -/
def countIn (N : Nat) (there : Int → Bool) (a b : Int) : Nat :=
  (List.range N).countP fun k : Nat => decide (a ≤ k) && decide ((k : Int) < b) && there k

/-- The bounds of the rows do not matter. -/
theorem countIn_clip (N : Nat) (there : Int → Bool) (a b : Int) :
    countIn N there a b = countIn N there (max a 0) (min b N) := by
  rw [countIn, countIn]
  refine List.countP_congr fun k hk => ?_
  have hlt : k < N := List.mem_range.mp hk
  have ha : (max a 0 ≤ (k : Int)) ↔ a ≤ k := by omega
  have hb : ((k : Int) < min b N) ↔ (k : Int) < b := by omega
  simp only [ha, hb]

/-- No row is there between bounds in the wrong order. -/
theorem countIn_of_le {N : Nat} {there : Int → Bool} {a b : Int} (h : b ≤ a) :
    countIn N there a b = 0 := by
  rw [countIn, List.countP_eq_zero]
  intro k _
  simp only [Bool.and_eq_true, decide_eq_true_eq, not_and]
  omega

/-- The rows of two intervals, one after the other. -/
theorem countIn_add (N : Nat) (there : Int → Bool) {a b c : Int} (hab : a ≤ b) (hbc : b ≤ c) :
    countIn N there a b + countIn N there b c = countIn N there a c := by
  simp only [countIn]
  induction List.range N with
  | nil => rfl
  | cons k l ih =>
    simp only [List.countP_cons, ← ih]
    by_cases hk : there k = true
    · simp only [hk, Bool.and_true, Bool.and_eq_true, decide_eq_true_eq]
      split <;> split <;> split <;> omega
    · simp only [Bool.not_eq_true] at hk
      simp [hk]

/-- A single row. -/
theorem countIn_single {N i : Nat} (hi : i < N) (there : Int → Bool) :
    countIn N there i (i + 1) = if there i then 1 else 0 := by
  have hone : ((List.range N).countP fun k : Nat => decide ((i : Int) ≤ k) &&
      decide ((k : Int) < i + 1)) = (List.range N).count i := by
    rw [List.count]
    refine List.countP_congr fun k _ => ?_
    simp only [Bool.and_eq_true, decide_eq_true_eq, beq_iff_eq]
    omega
  have hmem : (List.range N).count i = 1 :=
    List.count_eq_one_of_mem List.nodup_range (List.mem_range.mpr hi)
  split
  · next hthere =>
    rw [countIn, ← hmem, ← hone]
    refine List.countP_congr fun k _ => ?_
    simp only [Bool.and_eq_true, decide_eq_true_eq]
    constructor
    · exact fun h => h.1
    · intro h
      obtain rfl : k = i := by omega
      exact ⟨h, hthere⟩
  · next hthere =>
    rw [countIn, List.countP_eq_zero]
    intro k _
    simp only [Bool.and_eq_true, decide_eq_true_eq, not_and]
    intro h
    obtain rfl : k = i := by omega
    exact hthere

/-- Of the first rows, those in an interval. -/
theorem countP_range (N : Nat) {a b : Int} (ha : 0 ≤ a) (hab : a ≤ b) (hb : b ≤ N) :
    (((List.range N).countP fun k : Nat => decide (a ≤ k) && decide ((k : Int) < b) : Nat) : Int) =
      b - a := by
  induction N generalizing b with
  | zero =>
    have hz : b - a = 0 := by omega
    simp [hz]
  | succ N ih =>
    rw [List.range_succ, List.countP_append]
    by_cases hlast : b ≤ N
    · have hno : ¬ ((N : Int) < b) := by omega
      push_cast
      rw [ih hab hlast]
      simp [hno]
    · obtain rfl : b = N + 1 := by omega
      have hsame : ((List.range N).countP fun k : Nat => decide (a ≤ k) && decide ((k : Int) < N + 1)) =
          (List.range N).countP fun k : Nat => decide (a ≤ k) && decide ((k : Int) < N) := by
        refine List.countP_congr fun k hk => ?_
        have hlt : k < N := List.mem_range.mp hk
        have h1 : (k : Int) < N + 1 := by omega
        have h2 : (k : Int) < N := by omega
        simp [h1, h2]
      by_cases hle : a ≤ N
      · push_cast
        rw [hsame, ih hle (le_refl _)]
        simp [hle]
        ring
      · have hz : ((List.range N).countP fun k : Nat => decide (a ≤ k) && decide ((k : Int) < N + 1)) =
            0 := by
          rw [List.countP_eq_zero]
          intro k hk
          have hlt : k < N := List.mem_range.mp hk
          simp only [Bool.and_eq_true, decide_eq_true_eq, not_and]
          omega
        rw [hz]
        simp [hle]
        omega

variable {missing : List Int} {N : Nat} {there : Int → Bool}

/-- The rows of an interval are there or missing. -/
theorem countIn_add_countP (hsorted : missing.Pairwise (· < ·))
    (hrows : ∀ d ∈ missing, 0 ≤ d ∧ d < N) (hthere : ∀ k : Nat, k < N → (there k = true ↔ ↑k ∉ missing))
    {a b : Int} (ha : 0 ≤ a) (hab : a ≤ b) (hb : b ≤ N) :
    (countIn N there a b : Int) + missing.countP (fun d => decide (a ≤ d) && decide (d < b)) =
      b - a := by
  have hnodup : missing.Nodup := hsorted.imp fun h => ne_of_lt h
  -- the missing rows of the interval, counted among all rows
  have hperm : (((List.range N).map Int.ofNat).filter (· ∈ missing)).Perm missing := by
    rw [List.perm_ext_iff_of_nodup ((List.nodup_range.map Int.ofNat_injective).filter _) hnodup]
    intro d
    simp only [List.mem_filter, List.mem_map, List.mem_range, decide_eq_true_eq]
    constructor
    · exact fun h => h.2
    · intro h
      obtain ⟨h0, hlt⟩ := hrows d h
      exact ⟨⟨d.toNat, by omega, Int.toNat_of_nonneg h0⟩, h⟩
  have hcount : missing.countP (fun d => decide (a ≤ d) && decide (d < b)) =
      (List.range N).countP fun k : Nat =>
        (decide (a ≤ k) && decide ((k : Int) < b)) && decide ((k : Int) ∈ missing) := by
    rw [← hperm.countP_eq, List.countP_filter, List.countP_map]
    rfl
  have hin : countIn N there a b = (List.range N).countP fun k : Nat =>
      (decide (a ≤ k) && decide ((k : Int) < b)) && !decide ((k : Int) ∈ missing) := by
    refine List.countP_congr fun k hk => ?_
    have hiff := hthere k (List.mem_range.mp hk)
    simp only [Bool.and_eq_true, hiff, Bool.not_eq_true', decide_eq_false_iff_not]
  have hsplit : ∀ l : List Nat, ((l.countP fun k : Nat =>
      (decide (a ≤ k) && decide ((k : Int) < b)) && !decide ((k : Int) ∈ missing)) +
        l.countP fun k : Nat => (decide (a ≤ k) && decide ((k : Int) < b)) && decide ((k : Int) ∈ missing)) =
          l.countP fun k : Nat => decide (a ≤ k) && decide ((k : Int) < b) := by
    intro l
    induction l with
    | nil => rfl
    | cons k l ih =>
      simp only [List.countP_cons, ← ih]
      by_cases hm : (k : Int) ∈ missing <;>
        by_cases hk : (decide (a ≤ (k : Int)) && decide ((k : Int) < b)) = true <;>
          simp [hm, hk] <;> omega
  rw [hcount, hin, ← countP_range N ha hab hb, ← hsplit]
  push_cast
  ring

/-! ### Going up -/

/-- From a position on upwards past the missing rows, one further for each that is not before the
start; and the place in the list of the first of them, where there was one. -/
def skipUp (start : Int) : List Int → Int → Int → Int → Int × Int
  | [], _, p, first => (p, first)
  | d :: l, i, p, first =>
    if d ≤ p then
      if start ≤ d then skipUp start l (i + 1) (wrap 64 (p + 1)) (if i < first then i else first)
      else skipUp start l (i + 1) p first
    else (p, first)

/-- Where the way up ends, if it stays in 64 bits. -/
theorem skipUp_spec {start : Int} {l : List Int} (hsorted : l.Pairwise (· < ·)) :
    ∀ (i p first : Int), -2 ^ 63 ≤ p → p + l.countP (fun d => decide (start ≤ d)) < 2 ^ 63 →
      let q := (skipUp start l i p first).1
      q = p + l.countP (fun d => decide (start ≤ d) && decide (d ≤ q)) ∧
        (∀ d ∈ l, start ≤ d → d ≠ q) ∧
        ((∀ d ∈ l, d ≤ q) → (skipUp start l i p first).2 =
          if l.countP (fun d => decide (start ≤ d)) = 0 then first
          else min first (i + l.countP fun d => !decide (start ≤ d))) := by
  induction l with
  | nil => intro i p first _ _; simp [skipUp]
  | cons d l ih =>
    intro i p first hlow hhigh
    obtain ⟨hd, hl⟩ := List.pairwise_cons.mp hsorted
    rw [List.countP_cons] at hhigh
    by_cases hdp : d ≤ p
    · by_cases hstart : start ≤ d
      · -- the row is passed, and so the position goes one further
        have hall : ∀ x ∈ l, start ≤ x := fun x hx => hstart.trans (le_of_lt (hd x hx))
        have hnone : (l.countP fun d => !decide (start ≤ d)) = 0 := by
          rw [List.countP_eq_zero]
          intro x hx
          simp [hall x hx]
        have hw : wrap 64 (p + 1) = p + 1 := by
          refine wrap_of_fits (by decide) ⟨?_, ?_⟩ <;> norm_num at * <;> omega
        have hstep : skipUp start (d :: l) i p first =
            skipUp start l (i + 1) (p + 1) (if i < first then i else first) := by
          rw [skipUp, if_pos hdp, if_pos hstart, hw]
        have hih := ih hl (i + 1) (p + 1) (if i < first then i else first)
          (by omega) (by simp [hstart] at hhigh; omega)
        rw [hstep]
        generalize skipUp start l (i + 1) (p + 1) (if i < first then i else first) = r at hih ⊢
        obtain ⟨hq, hne, hfirst⟩ := hih
        have hlt : d < r.1 := by omega
        refine ⟨?_, ?_, ?_⟩
        · rw [List.countP_cons]
          simp only [hstart, le_of_lt hlt, decide_true, Bool.and_self, if_true]
          push_cast
          omega
        · intro x hx
          rcases List.mem_cons.mp hx with rfl | hx
          · intro _
            omega
          · exact hne x hx
        · intro hle
          rw [hfirst fun x hx => hle x (by simp [hx]), List.countP_cons, List.countP_cons, hnone]
          simp only [hstart, decide_true, if_true, Bool.not_true, Bool.false_eq_true, if_false]
          split <;> split <;> omega
      · have hstep : skipUp start (d :: l) i p first = skipUp start l (i + 1) p first := by
          rw [skipUp, if_pos hdp, if_neg hstart]
        have hih := ih hl (i + 1) p first hlow
          (by simp [hstart] at hhigh; omega)
        rw [hstep]
        generalize skipUp start l (i + 1) p first = r at hih ⊢
        obtain ⟨hq, hne, hfirst⟩ := hih
        refine ⟨?_, ?_, ?_⟩
        · rw [List.countP_cons]
          simpa [hstart] using hq
        · intro x hx
          rcases List.mem_cons.mp hx with rfl | hx
          · exact fun h => absurd h hstart
          · exact hne x hx
        · intro hle
          rw [hfirst fun x hx => hle x (by simp [hx]), List.countP_cons, List.countP_cons]
          simp only [hstart, decide_false, Bool.false_eq_true, if_false, Bool.not_false, if_true]
          split <;> omega
    · -- the row is beyond, and so are those after it
      have hstep : skipUp start (d :: l) i p first = (p, first) := by rw [skipUp, if_neg hdp]
      rw [hstep]
      refine ⟨?_, ?_, fun hle => absurd (hle d (by simp)) hdp⟩
      · have hz : ((d :: l).countP fun d => decide (start ≤ d) && decide (d ≤ p)) = 0 := by
          rw [List.countP_eq_zero]
          intro x hx
          rcases List.mem_cons.mp hx with rfl | hx
          · simp [hdp]
          · have hxp : ¬ x ≤ p := by
              have := hd x hx
              omega
            simp [hxp]
        simp only [hz]
        simp
      · intro x hx _
        rcases List.mem_cons.mp hx with rfl | hx
        · omega
        · have := hd x hx
          omega

/-- Below all missing rows nothing is passed. -/
theorem skipUp_of_lt {start : Int} {l : List Int} {p : Int} (h : ∀ d ∈ l, p < d) (i first : Int) :
    skipUp start l i p first = (p, first) := by
  cases l with
  | nil => rfl
  | cons d l =>
    have hd : ¬ d ≤ p := not_le.mpr (h d List.mem_cons_self)
    rw [skipUp, if_neg hd]

/-- A way up that leaves the 64 bits ends below all rows. -/
theorem skipUp_neg {start : Int} {l : List Int} :
    ∀ {i p first : Int}, (∀ d ∈ l, 0 ≤ d ∧ d ≤ p) → p < 2 ^ 63 →
      2 ^ 63 ≤ p + l.countP (fun d => decide (start ≤ d)) → (skipUp start l i p first).1 < 0 := by
  induction l with
  | nil =>
    intro i p first _ hhigh hover
    simp at hover
    omega
  | cons d l ih =>
    intro i p first hrows hhigh hover
    obtain ⟨hd0, hdp⟩ := hrows d List.mem_cons_self
    have hrest : ∀ x ∈ l, 0 ≤ x ∧ x ≤ p := fun x hx => hrows x (List.mem_cons_of_mem d hx)
    rw [List.countP_cons] at hover
    rw [skipUp, if_pos hdp]
    by_cases hstart : start ≤ d
    · rw [if_pos hstart]
      by_cases hlast : p + 1 < 2 ^ 63
      · have hw : wrap 64 (p + 1) = p + 1 := wrap_of_fits (by decide)
          ⟨by norm_num; omega, by norm_num at hlast ⊢; omega⟩
        rw [hw]
        refine ih (fun x hx => ⟨(hrest x hx).1, by have := (hrest x hx).2; omega⟩) hlast ?_
        simp [hstart] at hover
        omega
      · -- the position wraps, and no row is below it
        obtain rfl : p = 2 ^ 63 - 1 := by omega
        have hw : wrap 64 ((2 ^ 63 - 1 : Int) + 1) = -2 ^ 63 := by decide
        rw [hw, skipUp_of_lt fun x hx => by have := (hrest x hx).1; omega]
        show (-2 ^ 63 : Int) < 0
        decide
    · rw [if_neg hstart]
      refine ih hrest hhigh ?_
      simpa [hstart] using hover

/-! ### Going down -/

/-- From a position on downwards past the missing rows, one further for each that is not behind the
start; and the place in the list of the first of them, where there was one. -/
def skipDown (start : Int) : List Int → Int → Int → Int → Int × Int
  | [], _, p, first => (p, first)
  | d :: l, i, p, first =>
    if p ≤ d then
      if d ≤ start then skipDown start l (i - 1) (wrap 64 (p - 1)) (if first < i then i else first)
      else skipDown start l (i - 1) p first
    else (p, first)

/-- Where the way down ends, if it stays in 64 bits. -/
theorem skipDown_spec {start : Int} {l : List Int} (hsorted : l.Pairwise (· > ·)) :
    ∀ (i p first : Int), p < 2 ^ 63 → -2 ^ 63 ≤ p - l.countP (fun d => decide (d ≤ start)) →
      let q := (skipDown start l i p first).1
      q = p - l.countP (fun d => decide (d ≤ start) && decide (q ≤ d)) ∧
        (∀ d ∈ l, d ≤ start → d ≠ q) ∧
        ((∀ d ∈ l, q ≤ d) → (skipDown start l i p first).2 =
          if l.countP (fun d => decide (d ≤ start)) = 0 then first
          else max first (i - l.countP fun d => !decide (d ≤ start))) := by
  induction l with
  | nil => intro i p first _ _; simp [skipDown]
  | cons d l ih =>
    intro i p first hhigh hlow
    obtain ⟨hd, hl⟩ := List.pairwise_cons.mp hsorted
    rw [List.countP_cons] at hlow
    by_cases hdp : p ≤ d
    · by_cases hstart : d ≤ start
      · -- the row is passed, and so the position goes one further
        have hall : ∀ x ∈ l, x ≤ start := fun x hx => (le_of_lt (hd x hx)).trans hstart
        have hnone : (l.countP fun d => !decide (d ≤ start)) = 0 := by
          rw [List.countP_eq_zero]
          intro x hx
          simp [hall x hx]
        have hw : wrap 64 (p - 1) = p - 1 := by
          simp [hstart] at hlow
          refine wrap_of_fits (by decide) ⟨?_, ?_⟩ <;> norm_num at * <;> omega
        have hstep : skipDown start (d :: l) i p first =
            skipDown start l (i - 1) (p - 1) (if first < i then i else first) := by
          rw [skipDown, if_pos hdp, if_pos hstart, hw]
        have hih := ih hl (i - 1) (p - 1) (if first < i then i else first)
          (by omega) (by simp [hstart] at hlow; omega)
        rw [hstep]
        generalize skipDown start l (i - 1) (p - 1) (if first < i then i else first) = r at hih ⊢
        obtain ⟨hq, hne, hfirst⟩ := hih
        have hlt : r.1 < d := by omega
        refine ⟨?_, ?_, ?_⟩
        · rw [List.countP_cons]
          simp only [hstart, le_of_lt hlt, decide_true, Bool.and_self, if_true]
          push_cast
          omega
        · intro x hx
          rcases List.mem_cons.mp hx with rfl | hx
          · intro _
            omega
          · exact hne x hx
        · intro hle
          rw [hfirst fun x hx => hle x (by simp [hx]), List.countP_cons, List.countP_cons, hnone]
          simp only [hstart, decide_true, if_true, Bool.not_true, Bool.false_eq_true, if_false]
          split <;> split <;> omega
      · have hstep : skipDown start (d :: l) i p first = skipDown start l (i - 1) p first := by
          rw [skipDown, if_pos hdp, if_neg hstart]
        have hih := ih hl (i - 1) p first hhigh
          (by simp [hstart] at hlow; omega)
        rw [hstep]
        generalize skipDown start l (i - 1) p first = r at hih ⊢
        obtain ⟨hq, hne, hfirst⟩ := hih
        refine ⟨?_, ?_, ?_⟩
        · rw [List.countP_cons]
          simpa [hstart] using hq
        · intro x hx
          rcases List.mem_cons.mp hx with rfl | hx
          · exact fun h => absurd h hstart
          · exact hne x hx
        · intro hle
          rw [hfirst fun x hx => hle x (by simp [hx]), List.countP_cons, List.countP_cons]
          simp only [hstart, decide_false, Bool.false_eq_true, if_false, Bool.not_false, if_true]
          split <;> omega
    · -- the row is beyond, and so are those after it
      have hstep : skipDown start (d :: l) i p first = (p, first) := by rw [skipDown, if_neg hdp]
      rw [hstep]
      refine ⟨?_, ?_, fun hle => absurd (hle d (by simp)) hdp⟩
      · have hz : ((d :: l).countP fun d => decide (d ≤ start) && decide (p ≤ d)) = 0 := by
          rw [List.countP_eq_zero]
          intro x hx
          rcases List.mem_cons.mp hx with rfl | hx
          · simp [hdp]
          · have hxp : ¬ p ≤ x := by
              have := hd x hx
              omega
            simp [hxp]
        simp only [hz]
        simp
      · intro x hx _
        rcases List.mem_cons.mp hx with rfl | hx
        · omega
        · have := hd x hx
          omega

/-- Above all missing rows nothing is passed. -/
theorem skipDown_of_lt {start : Int} {l : List Int} {p : Int} (h : ∀ d ∈ l, d < p) (i first : Int) :
    skipDown start l i p first = (p, first) := by
  cases l with
  | nil => rfl
  | cons d l =>
    have hd : ¬ p ≤ d := not_le.mpr (h d List.mem_cons_self)
    rw [skipDown, if_neg hd]

/-- A way down that leaves the 64 bits ends above all rows. -/
theorem le_skipDown {start : Int} {l : List Int} :
    ∀ {i p first : Int}, (∀ d ∈ l, p ≤ d ∧ d < 2 ^ 62) → -2 ^ 63 ≤ p →
      p - l.countP (fun d => decide (d ≤ start)) < -2 ^ 63 →
        2 ^ 62 ≤ (skipDown start l i p first).1 := by
  induction l with
  | nil =>
    intro i p first _ hlow hover
    simp at hover
    omega
  | cons d l ih =>
    intro i p first hrows hlow hover
    obtain ⟨hdp, hd62⟩ := hrows d List.mem_cons_self
    have hrest : ∀ x ∈ l, p ≤ x ∧ x < 2 ^ 62 := fun x hx => hrows x (List.mem_cons_of_mem d hx)
    rw [List.countP_cons] at hover
    rw [skipDown, if_pos hdp]
    by_cases hstart : d ≤ start
    · rw [if_pos hstart]
      by_cases hlast : -2 ^ 63 ≤ p - 1
      · have hw : wrap 64 (p - 1) = p - 1 := wrap_of_fits (by decide)
          ⟨by norm_num at hlast ⊢; omega, by norm_num at hd62 ⊢; omega⟩
        rw [hw]
        refine ih (fun x hx => ⟨by have := (hrest x hx).1; omega, (hrest x hx).2⟩) hlast ?_
        simp [hstart] at hover
        omega
      · -- the position wraps, and no row is above it
        obtain rfl : p = -2 ^ 63 := by omega
        have hw : wrap 64 ((-2 ^ 63 : Int) - 1) = 2 ^ 63 - 1 := by decide
        rw [hw, skipDown_of_lt fun x hx => by have := (hrest x hx).2; omega]
        show (2 ^ 62 : Int) ≤ 2 ^ 63 - 1
        decide
    · rw [if_neg hstart]
      refine ih hrest hlow ?_
      simpa [hstart] using hover

end OdbcDriver.Gaps
