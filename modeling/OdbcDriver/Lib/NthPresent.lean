import OdbcDriver.Lib.Gaps

/-!
# The n-th row that is there

From a start, which counts itself, the `n`-th row that is there is looked for, upwards or downwards.
The answer is `n` and its number; or, where there are fewer, their negated number and the end that was
reached. `FirstUp` and `FirstDown` say so of an answer.

With the missing rows in a sorted list the position is computed by `skipUp` or `skipDown`. The answer
that is read off is right exactly when the start is among the rows, or next to them, and the position
stays in 64 bits (`up_iff`, `down_iff`).
-/

namespace OdbcDriver.Gaps

open CInt

/-- The answer for the `n`-th of the first `N` rows that is there, from `start` on upwards. -/
def FirstUp (N : Nat) (there : Int → Bool) (start : Int) (n : Nat) (answer : Int × Int) : Prop :=
  (∃ p : Nat, p < N ∧ there p = true ∧ start ≤ p ∧ countIn N there start (p + 1) = n ∧
    answer = ((n : Int), (p : Int))) ∨
    countIn N there start N < n ∧ answer = (-(countIn N there start N : Int), (N : Int))

/-- The answer for the `n`-th of the first `N` rows that is there, from `start` on downwards. -/
def FirstDown (N : Nat) (there : Int → Bool) (start : Int) (n : Nat) (answer : Int × Int) : Prop :=
  (∃ p : Nat, p < N ∧ there p = true ∧ p ≤ start ∧ countIn N there p (start + 1) = n ∧
    answer = ((n : Int), (p : Int))) ∨
    countIn N there 0 (start + 1) < n ∧ answer = (-(countIn N there 0 (start + 1) : Int), -1)

/-- A row that is there counts. -/
theorem countIn_pos {N : Nat} {there : Int → Bool} {a b : Int} {p : Nat} (hp : p < N)
    (hthere : there p = true) (ha : a ≤ p) (hb : (p : Int) < b) : 0 < countIn N there a b := by
  have h1 := countIn_add N there ha (show (p : Int) ≤ p + 1 by omega)
  have h2 := countIn_add N there (show a ≤ p + 1 by omega) (show (p : Int) + 1 ≤ b by omega)
  rw [countIn_single hp, if_pos hthere] at h1
  omega

/-- There is one answer upwards. -/
theorem FirstUp.unique {N : Nat} {there : Int → Bool} {start : Int} {n : Nat} {x y : Int × Int}
    (hx : FirstUp N there start n x) (hy : FirstUp N there start n y) : x = y := by
  -- of two rows, the further one has one more row before it
  have hnot : ∀ p q : Nat, q < N → there q = true → start ≤ p → p < q →
      countIn N there start (p + 1) < countIn N there start (q + 1) := by
    intro p q hq hthere hp hlt
    have hsum := countIn_add N there (show start ≤ p + 1 by omega)
      (show (p : Int) + 1 ≤ q + 1 by omega)
    have hpos := countIn_pos (a := p + 1) (b := q + 1) hq hthere (by omega) (by omega)
    omega
  have hend : ∀ p : Nat, p < N → start ≤ p →
      countIn N there start (p + 1) ≤ countIn N there start N := by
    intro p hp hle
    have hsum := countIn_add N there (show start ≤ p + 1 by omega) (show (p : Int) + 1 ≤ N by omega)
    omega
  rcases hx with ⟨p, hpN, hp, hsp, hpn, rfl⟩ | ⟨hx, rfl⟩ <;>
    rcases hy with ⟨q, hqN, hq, hsq, hqn, rfl⟩ | ⟨hy, rfl⟩
  · rcases Nat.lt_trichotomy p q with hlt | rfl | hlt
    · have := hnot p q hqN hq hsp hlt
      omega
    · rfl
    · have := hnot q p hpN hp hsq hlt
      omega
  · have := hend p hpN hsp
    omega
  · have := hend q hqN hsq
    omega
  · rfl

/-- There is one answer downwards. -/
theorem FirstDown.unique {N : Nat} {there : Int → Bool} {start : Int} {n : Nat} {x y : Int × Int}
    (hx : FirstDown N there start n x) (hy : FirstDown N there start n y) : x = y := by
  have hnot : ∀ p q : Nat, p < N → there p = true → q ≤ start → p < q →
      countIn N there q (start + 1) < countIn N there p (start + 1) := by
    intro p q hp hthere hq hlt
    have hsum := countIn_add N there (show (p : Int) ≤ q by omega) (show (q : Int) ≤ start + 1 by omega)
    have hpos := countIn_pos (a := p) (b := q) hp hthere (by omega) (by omega)
    omega
  have hend : ∀ p : Nat, p ≤ start →
      countIn N there p (start + 1) ≤ countIn N there 0 (start + 1) := by
    intro p hle
    have hsum := countIn_add N there (show (0 : Int) ≤ p by omega) (show (p : Int) ≤ start + 1 by omega)
    omega
  rcases hx with ⟨p, hpN, hp, hsp, hpn, rfl⟩ | ⟨hx, rfl⟩ <;>
    rcases hy with ⟨q, hqN, hq, hsq, hqn, rfl⟩ | ⟨hy, rfl⟩
  · rcases Nat.lt_trichotomy p q with hlt | rfl | hlt
    · have := hnot p q hpN hp hsq hlt
      omega
    · rfl
    · have := hnot q p hqN hq hsp hlt
      omega
  · have := hend p hsp
    omega
  · have := hend q hsq
    omega
  · rfl

/-- Two signed numbers of 64 bits that differ by a multiple of 2^64 are equal. -/
theorem wrap64_eq_iff {x y : Int} (hy : Fits 64 y) : wrap 64 x = y ↔ ∃ k, x = y + 2 ^ 64 * k := by
  simp only [Fits, wrap] at *
  norm_num at *
  constructor
  · intro h
    exact ⟨(x + 9223372036854775808) / 18446744073709551616, by omega⟩
  · rintro ⟨k, rfl⟩
    omega

/-- What a number of 64 bits holds. -/
theorem wrap_spec (x : Int) : (∃ k, x = wrap 64 x + 2 ^ 64 * k) ∧ -2 ^ 63 ≤ wrap 64 x ∧
    wrap 64 x < 2 ^ 63 := by
  simp only [wrap]
  norm_num
  exact ⟨⟨(x + 9223372036854775808) / 18446744073709551616, by omega⟩, by omega, by omega⟩

/-- A number of 64 bits is kept. -/
theorem wrap_small {x : Int} (hlow : -2 ^ 63 ≤ x) (hhigh : x < 2 ^ 63) : wrap 64 x = x :=
  wrap_of_fits (by decide) ⟨hlow, hhigh⟩

variable {missing : List Int} {N : Nat} {there : Int → Bool}

/-- The missing rows, sorted, and those that are there. -/
structure Listed (N : Nat) (there : Int → Bool) (missing : List Int) : Prop where
  sorted : missing.Pairwise (· < ·)
  rows : ∀ d ∈ missing, 0 ≤ d ∧ d < N
  there : ∀ k : Nat, k < N → (there k = true ↔ ↑k ∉ missing)

/-- Of the missing rows, those from `a` on and before `b`. -/
def missingIn (missing : List Int) (a b : Int) : Nat :=
  missing.countP fun d => decide (a ≤ d) && decide (d < b)

theorem Listed.count (h : Listed N there missing) {a b : Int} (ha : 0 ≤ a) (hab : a ≤ b)
    (hb : b ≤ N) : (countIn N there a b : Int) + missingIn missing a b = b - a :=
  countIn_add_countP h.sorted h.rows h.there ha hab hb

/-- All missing rows are in the rows. -/
theorem Listed.missingIn_eq_length (h : Listed N there missing) {a b : Int} (ha : a ≤ 0)
    (hb : N ≤ b) : missingIn missing a b = missing.length := by
  rw [missingIn, List.countP_eq_length]
  intro d hd
  obtain ⟨h0, hN⟩ := h.rows d hd
  simp only [Bool.and_eq_true, decide_eq_true_eq]
  omega

/-- The missing rows from a start on. -/
theorem Listed.countP_start (h : Listed N there missing) (start : Int) :
    (missing.countP fun d => decide (start ≤ d)) = missingIn missing start N := by
  rw [missingIn]
  refine List.countP_congr fun d hd => ?_
  have hN := (h.rows d hd).2
  simp [hN]

/-- The missing rows up to a start, from the last one on. -/
theorem Listed.countP_end (h : Listed N there missing) (start : Int) :
    (missing.reverse.countP fun d => decide (d ≤ start)) = missingIn missing 0 (start + 1) := by
  rw [missingIn, List.countP_reverse]
  refine List.countP_congr fun d hd => ?_
  have h0 := (h.rows d hd).1
  simp only [Bool.and_eq_true, decide_eq_true_eq]
  omega

/-- There are not more missing rows in an interval than numbers. -/
theorem Listed.missingIn_le (h : Listed N there missing) {a b : Int} (hab : a ≤ b) :
    (missingIn missing a b : Int) ≤ b - a := by
  have hclip : missingIn missing a b = missingIn missing (max a 0) (min (max b 0) N) := by
    rw [missingIn, missingIn]
    refine List.countP_congr fun d hd => ?_
    obtain ⟨h0, hN⟩ := h.rows d hd
    simp only [Bool.and_eq_true, decide_eq_true_eq]
    omega
  by_cases hle : max a 0 ≤ min (max b 0) N
  · have hcount := h.count (le_max_right a 0) hle (min_le_right _ _)
    rw [hclip]
    omega
  · have hz : missingIn missing a b = 0 := by
      rw [hclip, missingIn, List.countP_eq_zero]
      intro d _
      simp only [Bool.and_eq_true, decide_eq_true_eq]
      omega
    rw [hz]
    omega

/-- Behind the rows nothing is missing. -/
theorem Listed.missingIn_end (h : Listed N there missing) (a : Int) {b : Int} (hb : N ≤ b) :
    missingIn missing a b = missingIn missing a N := by
  rw [missingIn, missingIn]
  refine List.countP_congr fun d hd => ?_
  have hN := (h.rows d hd).2
  simp only [Bool.and_eq_true, decide_eq_true_eq]
  omega

/-- Before the rows nothing is missing. -/
theorem Listed.missingIn_zero (h : Listed N there missing) {a : Int} (b : Int) (ha : a ≤ 0) :
    missingIn missing a b = missingIn missing 0 b := by
  rw [missingIn, missingIn]
  refine List.countP_congr fun d hd => ?_
  have h0 := (h.rows d hd).1
  simp only [Bool.and_eq_true, decide_eq_true_eq]
  omega

theorem Listed.length_le (h : Listed N there missing) : missing.length ≤ N := by
  have hle := h.missingIn_le (show (0 : Int) ≤ N by omega)
  rw [h.missingIn_eq_length (le_refl _) (le_refl _)] at hle
  omega

/-- Between bounds in the wrong order nothing is missing. -/
theorem missingIn_of_le {missing : List Int} {a b : Int} (h : b ≤ a) : missingIn missing a b = 0 := by
  rw [missingIn, List.countP_eq_zero]
  intro d _
  simp only [Bool.and_eq_true, decide_eq_true_eq]
  omega

theorem missingIn_le_length (missing : List Int) (a b : Int) :
    missingIn missing a b ≤ missing.length := List.countP_le_length

/-! ### Upwards -/

/-- Where the way up ends. -/
theorem Listed.skipUp (h : Listed N there missing) {start p : Int} (hp : -2 ^ 63 ≤ p)
    (hk : p + missingIn missing start N < 2 ^ 63) :
    let s := skipUp start missing 0 p missing.length
    s.1 = p + missingIn missing start (s.1 + 1) ∧ (start ≤ s.1 → s.1 ∉ missing) ∧
      (N ≤ s.1 → s.2 = missing.length - missingIn missing start N) := by
  have hspec := @skipUp_spec start missing h.sorted 0 p missing.length hp
    (by rw [h.countP_start]; exact hk)
  generalize Gaps.skipUp start missing 0 p missing.length = s at hspec ⊢
  obtain ⟨hq, hne, hfirst⟩ := hspec
  refine ⟨?_, fun hle hmem => hne _ hmem hle rfl, fun hN => ?_⟩
  · have hcongr : (missing.countP fun d => decide (start ≤ d) && decide (d ≤ s.1)) =
        missingIn missing start (s.1 + 1) := by
      rw [missingIn]
      refine List.countP_congr fun d _ => ?_
      simp only [Bool.and_eq_true, decide_eq_true_eq]
      omega
    rw [← hcongr]
    exact hq
  · have hall : ∀ d ∈ missing, d ≤ s.1 := fun d hd => by
      have := (h.rows d hd).2
      omega
    have hsum := List.length_eq_countP_add_countP (fun d => decide (start ≤ d)) (l := missing)
    have hnot : (missing.countP fun d => decide ¬ decide (start ≤ d) = true) =
        missing.countP fun d => !decide (start ≤ d) := by
      refine List.countP_congr fun d _ => ?_
      simp
    rw [hnot, h.countP_start] at hsum
    rw [hfirst hall, h.countP_start]
    split <;> omega

/-- The answer that is read off the way up. -/
def upAnswer (N : Nat) (missing : List Int) (start : Int) (n : Nat) : Int × Int :=
  let s := Gaps.skipUp start missing 0 (wrap 64 (start - 1 + n)) missing.length
  if s.1 < N then (wrap 64 n, s.1)
  else (wrap 64 (-(N - start + s.2 - missing.length)), N)

/-- The answer is right exactly when the start is not before the rows, nor behind the place after the
last one, and the position stays in 64 bits. -/
theorem up_iff (h : Listed N there missing) (hN : N < 2 ^ 62) {start : Int} (hstart : Fits 64 start)
    {n : Nat} (hn0 : 0 < n) (hn : n < 2 ^ 64) :
    FirstUp N there start n (upAnswer N missing start n) ↔
      0 ≤ start ∧ start ≤ N ∧ start - 1 + n + missingIn missing start N < 2 ^ 63 := by
  obtain ⟨hs1, hs2⟩ := hstart
  norm_num at hs1 hs2
  obtain ⟨⟨j, hj⟩, hp1, hp2⟩ := wrap_spec (start - 1 + n)
  have hlen := h.length_le
  have hkle := missingIn_le_length missing start N
  rw [upAnswer]
  generalize wrap 64 (start - 1 + n) = p at hj hp1 hp2
  by_cases hover : p + missingIn missing start N < 2 ^ 63
  · obtain ⟨hq, hthere, hfirst⟩ := h.skipUp hp1 hover
    generalize Gaps.skipUp start missing 0 p missing.length = s at hq hthere hfirst ⊢
    by_cases hin : s.1 < N
    · -- a position among the rows
      simp only [if_pos hin]
      constructor
      · rintro (⟨q, hqN, -, hle, hcount, heq⟩ | ⟨-, heq⟩)
        · have hs : s.1 = q := congrArg Prod.snd heq
          by_cases h0 : 0 ≤ start
          · have hsum := h.count h0 (show start ≤ (q : Int) + 1 by omega) (by omega)
            rw [hs] at hq
            omega
          · -- the rows before the first one count for the position, but are not there
            have hclip := countIn_clip N there start (q + 1)
            rw [show max start 0 = 0 by omega, show min ((q : Int) + 1) N = q + 1 by omega] at hclip
            have hsum := h.count (le_refl 0) (show (0 : Int) ≤ (q : Int) + 1 by omega) (by omega)
            rw [hs, h.missingIn_zero _ (by omega)] at hq
            omega
        · have hs : s.1 = N := congrArg Prod.snd heq
          omega
      · rintro ⟨h0, hle, hfits⟩
        have hpe : p = start - 1 + n := by omega
        have hsq : start ≤ s.1 := by omega
        have hnat : (s.1.toNat : Int) = s.1 := Int.toNat_of_nonneg (by omega)
        have hlt : s.1.toNat < N := by omega
        have hsum := h.count h0 (show start ≤ s.1 + 1 by omega) (by omega)
        refine Or.inl ⟨s.1.toNat, hlt, (h.there _ hlt).mpr ?_, by omega, ?_, ?_⟩
        · rw [hnat]
          exact hthere hsq
        · rw [hnat]
          omega
        · have hmod : wrap 64 (n : Int) = n := by
            have := h.missingIn_le (show start ≤ s.1 + 1 by omega)
            exact wrap_small (by omega) (by omega)
          rw [hnat, hmod]
    · -- the rows are too few
      simp only [if_neg hin]
      have hsN : (N : Int) ≤ s.1 := not_lt.mp hin
      rw [hfirst hsN]
      rw [h.missingIn_end start (show (N : Int) ≤ s.1 + 1 by omega)] at hq
      constructor
      · rintro (⟨q, hqN, -, -, -, heq⟩ | ⟨hfew, heq⟩)
        · have hs : (N : Int) = q := congrArg Prod.snd heq
          omega
        · have hret := congrArg Prod.fst heq
          simp only at hret
          by_cases h0 : 0 ≤ start
          · by_cases hle : start ≤ N
            · have hmiss := h.missingIn_le hle
              omega
            · -- behind the rows none is left, and the answer is a positive number
              rw [countIn_of_le (by omega), missingIn_of_le (by omega),
                wrap_small (by omega) (by omega)] at hret
              omega
          · have hclip := countIn_clip N there start N
            rw [show max start 0 = 0 by omega, min_self] at hclip
            have hsum := h.count (le_refl 0) (show (0 : Int) ≤ N by omega) (le_refl _)
            rw [hclip, h.missingIn_zero _ (show start ≤ 0 by omega)] at hret
            have hfits : Fits 64 (-(countIn N there 0 N : Int)) :=
              ⟨by norm_num; omega, by norm_num; omega⟩
            obtain ⟨m, hm⟩ := (wrap64_eq_iff hfits).mp hret
            omega
      · rintro ⟨h0, hle, hfits⟩
        have hpe : p = start - 1 + n := by omega
        have hsum := h.count h0 hle (le_refl _)
        refine Or.inr ⟨by omega, ?_⟩
        have hval : -((N : Int) - start + (missing.length - missingIn missing start N) -
            missing.length) = -(countIn N there start N : Int) := by omega
        rw [hval, wrap_small (by omega) (by omega)]
  · -- the position leaves the 64 bits
    have hneg : (Gaps.skipUp start missing 0 p missing.length).1 < 0 := by
      refine skipUp_neg (fun d hd => ?_) hp2 ?_
      · have hrow := h.rows d hd
        omega
      · rw [h.countP_start]
        omega
    generalize Gaps.skipUp start missing 0 p missing.length = s at hneg
    simp only [if_pos (show s.1 < (N : Int) by omega)]
    refine iff_of_false ?_ (by omega)
    rintro (⟨q, -, -, -, -, heq⟩ | ⟨-, heq⟩)
    · have hs : s.1 = q := congrArg Prod.snd heq
      omega
    · have hs : s.1 = N := congrArg Prod.snd heq
      omega

/-! ### Downwards -/

/-- Where the way down ends. -/
theorem Listed.skipDown (h : Listed N there missing) {start p : Int} (hp : p < 2 ^ 63)
    (hk : -2 ^ 63 ≤ p - missingIn missing 0 (start + 1)) :
    let s := skipDown start missing.reverse (missing.length - 1) p (-1)
    s.1 = p - missingIn missing s.1 (start + 1) ∧ (s.1 ≤ start → s.1 ∉ missing) ∧
      (s.1 < 0 → s.2 = missingIn missing 0 (start + 1) - 1) := by
  have hbelow := h.countP_end start
  have hspec := @skipDown_spec start missing.reverse (List.pairwise_reverse.mpr h.sorted)
    (missing.length - 1) p (-1) hp (by rw [hbelow]; exact hk)
  generalize Gaps.skipDown start missing.reverse (missing.length - 1) p (-1) = s at hspec ⊢
  obtain ⟨hq, hne, hfirst⟩ := hspec
  refine ⟨?_, fun hle hmem => hne _ (List.mem_reverse.mpr hmem) hle rfl, fun hneg => ?_⟩
  · have hcongr : (missing.reverse.countP fun d => decide (d ≤ start) && decide (s.1 ≤ d)) =
        missingIn missing s.1 (start + 1) := by
      rw [missingIn, List.countP_reverse]
      refine List.countP_congr fun d _ => ?_
      simp only [Bool.and_eq_true, decide_eq_true_eq]
      omega
    rw [← hcongr]
    exact hq
  · have hall : ∀ d ∈ missing.reverse, s.1 ≤ d := fun d hd => by
      have := (h.rows d (List.mem_reverse.mp hd)).1
      omega
    have hsum := List.length_eq_countP_add_countP (fun d => decide (d ≤ start))
      (l := missing.reverse)
    have hnot : (missing.reverse.countP fun d => decide ¬ decide (d ≤ start) = true) =
        missing.reverse.countP fun d => !decide (d ≤ start) := by
      refine List.countP_congr fun d _ => ?_
      simp
    rw [hnot, hbelow, List.length_reverse] at hsum
    rw [hfirst hall, hbelow]
    split <;> omega

/-- The answer that is read off the way down. -/
def downAnswer (missing : List Int) (start : Int) (n : Nat) : Int × Int :=
  let s := Gaps.skipDown start missing.reverse (missing.length - 1) (wrap 64 (start + 1 - n)) (-1)
  if s.1 < 0 then (wrap 64 (-(start - s.2)), -1) else (wrap 64 n, s.1)

/-- The answer is right exactly when the start is a row or the place before the first one, and the
position stays in 64 bits. -/
theorem down_iff (h : Listed N there missing) (hN : N < 2 ^ 62) {start : Int}
    (hstart : Fits 64 start) {n : Nat} (hn0 : 0 < n) (hn : n < 2 ^ 64) :
    FirstDown N there start n (downAnswer missing start n) ↔
      -1 ≤ start ∧ start < N ∧ -2 ^ 63 ≤ start + 1 - n - missingIn missing 0 (start + 1) := by
  obtain ⟨hs1, hs2⟩ := hstart
  norm_num at hs1 hs2
  obtain ⟨⟨j, hj⟩, hp1, hp2⟩ := wrap_spec (start + 1 - n)
  have hlen := h.length_le
  have hkle := missingIn_le_length missing 0 (start + 1)
  rw [downAnswer]
  generalize wrap 64 (start + 1 - n) = p at hj hp1 hp2
  by_cases hover : -2 ^ 63 ≤ p - missingIn missing 0 (start + 1)
  · obtain ⟨hq, hthere, hfirst⟩ := h.skipDown hp2 hover
    generalize Gaps.skipDown start missing.reverse (missing.length - 1) p (-1) = s
      at hq hthere hfirst ⊢
    by_cases hin : s.1 < 0
    · -- the rows are too few
      simp only [if_pos hin]
      rw [hfirst hin]
      rw [h.missingIn_zero _ (le_of_lt hin)] at hq
      constructor
      · rintro (⟨q, -, -, -, -, heq⟩ | ⟨hfew, heq⟩)
        · have hs : -1 = (q : Int) := congrArg Prod.snd heq
          omega
        · have hret := congrArg Prod.fst heq
          simp only at hret
          by_cases h0 : -1 ≤ start
          · by_cases hlt : start < N
            · have hmiss := h.missingIn_le (show (0 : Int) ≤ start + 1 by omega)
              omega
            · have hclip := countIn_clip N there 0 (start + 1)
              rw [max_self, show min (start + 1) (N : Int) = N by omega] at hclip
              have hsum := h.count (le_refl 0) (show (0 : Int) ≤ N by omega) (le_refl _)
              rw [hclip, h.missingIn_end _ (show (N : Int) ≤ start + 1 by omega)] at hret
              have hfits : Fits 64 (-(countIn N there 0 N : Int)) :=
                ⟨by norm_num; omega, by norm_num; omega⟩
              obtain ⟨m, hm⟩ := (wrap64_eq_iff hfits).mp hret
              omega
          · -- before the rows none is left, and the answer is a positive number
            rw [countIn_of_le (by omega), missingIn_of_le (by omega),
              wrap_small (by omega) (by omega)] at hret
            omega
      · rintro ⟨h0, hlt, hfits⟩
        have hsum := h.count (le_refl 0) (show (0 : Int) ≤ start + 1 by omega) (by omega)
        refine Or.inr ⟨by omega, ?_⟩
        have hval : -(start - ((missingIn missing 0 (start + 1) : Int) - 1)) =
            -(countIn N there 0 (start + 1) : Int) := by omega
        rw [hval, wrap_small (by omega) (by omega)]
    · -- a position among the rows
      simp only [if_neg hin]
      constructor
      · rintro (⟨q, hqN, -, hle, hcount, heq⟩ | ⟨-, heq⟩)
        · have hs : s.1 = q := congrArg Prod.snd heq
          rw [hs] at hq
          by_cases hlt : start < N
          · have hsum := h.count (show (0 : Int) ≤ q by omega) (show (q : Int) ≤ start + 1 by omega)
              (by omega)
            omega
          · -- the rows behind the last one count for the position, but are not there
            have hclip := countIn_clip N there q (start + 1)
            rw [show max (q : Int) 0 = q by omega, show min (start + 1) (N : Int) = N by omega]
              at hclip
            have hsum := h.count (show (0 : Int) ≤ q by omega) (show (q : Int) ≤ N by omega)
              (le_refl _)
            rw [h.missingIn_end _ (show (N : Int) ≤ start + 1 by omega)] at hq
            omega
        · have hs : s.1 = -1 := congrArg Prod.snd heq
          omega
      · rintro ⟨h0, hlt, hfits⟩
        have hpe : p = start + 1 - n := by omega
        have hsq : s.1 ≤ start := by omega
        have hnat : (s.1.toNat : Int) = s.1 := Int.toNat_of_nonneg (by omega)
        have hltN : s.1.toNat < N := by omega
        have hsum := h.count (show 0 ≤ s.1 by omega) (show s.1 ≤ start + 1 by omega) (by omega)
        refine Or.inl ⟨s.1.toNat, hltN, (h.there _ hltN).mpr ?_, by omega, ?_, ?_⟩
        · rw [hnat]
          exact hthere hsq
        · rw [hnat]
          omega
        · have hmod : wrap 64 (n : Int) = n := by
            have := h.missingIn_le (show s.1 ≤ start + 1 by omega)
            exact wrap_small (by omega) (by omega)
          rw [hnat, hmod]
  · -- the position leaves the 64 bits
    have hbig : 2 ^ 62 ≤
        (Gaps.skipDown start missing.reverse (missing.length - 1) p (-1)).1 := by
      refine le_skipDown (fun d hd => ?_) hp1 ?_
      · have hrow := h.rows d (List.mem_reverse.mp hd)
        omega
      · rw [h.countP_end]
        omega
    generalize Gaps.skipDown start missing.reverse (missing.length - 1) p (-1) = s at hbig
    simp only [if_neg (show ¬ s.1 < 0 by omega)]
    refine iff_of_false ?_ (by omega)
    rintro (⟨q, hqN, -, -, -, heq⟩ | ⟨-, heq⟩)
    · have hs : s.1 = q := congrArg Prod.snd heq
      omega
    · have hs : s.1 = -1 := congrArg Prod.snd heq
      omega

end OdbcDriver.Gaps
