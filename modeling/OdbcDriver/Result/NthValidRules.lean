import OdbcDriver.Result.NthValid

/-!
# When the n-th valid row is found

Each of the three ways of `getNthValid` is measured against the same statement of its purpose. The
way through the list and the shortcut are the two of `Lib.NthPresent`, with no row missing for the
shortcut; the scan of the keys is an induction over the rows that are left.
-/

namespace OdbcDriver.ValidRows

open CInt Gaps Result

variable {r : RowTable}

/-- The keys are looked at. -/
def RowTable.Scans (r : RowTable) : Prop := r.cursor = false ∧ r.dl_count ≠ 0

theorem RowTable.num_tuples_lt (r : RowTable) : r.num_tuples < 2 ^ 62 := by
  rw [RowTable.num_tuples]
  split
  · exact r.rows_lt
  · decide

/-! ### The list -/

/-- The rows that are not in the list. -/
theorem RowTable.listed_spec (r : RowTable) :
    Listed r.num_tuples (fun i => !decide (i ∈ r.listed)) r.listed where
  sorted := by
    rw [RowTable.listed]
    split
    · exact r.sorted
    · exact .nil
  rows := by
    intro d hd
    rw [RowTable.listed] at hd
    split at hd
    · have hrow := r.rows d hd
      rw [RowTable.num_tuples]
      split <;> simp_all
    · exact absurd hd List.not_mem_nil
  there := by
    intro k _
    simp

/-- A consistent result's deleted rows are those in the list. -/
theorem RowTable.Consistent.listed (h : r.Consistent) (hscan : ¬ r.Scans) :
    Listed r.num_tuples (fun i => !r.isDeleted i) r.listed where
  sorted := r.listed_spec.sorted
  rows := r.listed_spec.rows
  there := by
    intro k hk
    have hkey := h k hk
    rw [if_neg (show ¬ (r.cursor = false ∧ r.dl_count ≠ 0) from hscan)] at hkey
    simp only [Bool.not_eq_true', RowTable.isDeleted, RowTable.listed, Bool.or_eq_false_iff]
    constructor
    · rintro ⟨hlist, -⟩ hmem
      split at hmem
      · next hc => simp [hc, hmem] at hlist
      · exact absurd hmem List.not_mem_nil
    · intro hmem
      constructor
      · by_cases hc : r.cursor = true
        · rw [if_pos hc] at hmem
          simp [hmem]
        · simp [hc]
      · rw [← Bool.not_eq_true]
        intro hgone
        obtain ⟨hc, hdel⟩ := hkey hgone
        rw [if_pos hc] at hmem
        exact hmem hdel

/-- Upwards, the shortcut is the way through an empty list. -/
theorem getNthValid_next (hscan : ¬ r.Scans) (sta : Int) (nth : Nat) :
    getNthValid r sta .next nth = some (upAnswer r.num_tuples r.listed sta nth) := by
  by_cases h0 : r.dl_count = 0
  · have hnil : r.listed = [] := by
      rw [RowTable.listed]
      split
      · next hc => exact List.length_eq_zero_iff.mp ((r.counted hc).symm.trans h0)
      · rfl
    simp only [getNthValid, if_pos h0, upAnswer, hnil, skipUp]
    split <;> simp
  · have hc : r.cursor = true := by
      by_contra hc
      exact hscan ⟨by simpa using hc, h0⟩
    have hlist : r.listed = r.deleted := if_pos hc
    rw [upAnswer, hlist, ← r.counted hc]
    simp only [getNthValid, if_neg h0, if_pos hc]
    by_cases hin : (skipUp sta r.deleted 0 (wrap 64 (sta - 1 + nth)) r.dl_count).1 <
        (r.num_tuples : Int)
    · rw [if_pos hin, if_neg (not_le.mpr hin)]
    · rw [if_neg hin, if_pos (not_lt.mp hin)]

/-- Downwards through the list. -/
theorem getNthValid_prior (hc : r.cursor = true) (h0 : r.dl_count ≠ 0) (sta : Int) (nth : Nat) :
    getNthValid r sta .prior nth = some (downAnswer r.listed sta nth) := by
  have hlist : r.listed = r.deleted := if_pos hc
  rw [downAnswer, hlist, ← r.counted hc]
  simp only [getNthValid, if_neg h0, if_pos hc]
  by_cases hin : (skipDown sta r.deleted.reverse (r.dl_count - 1) (wrap 64 (sta + 1 - nth)) (-1)).1 < 0
  · rw [if_pos hin, if_pos hin]
  · rw [if_neg hin, if_neg hin]

/-- Downwards with no row missing, the shortcut. -/
theorem shortcut_iff {N : Nat} {there : Int → Bool} (h : Listed N there []) (hN : N < 2 ^ 62)
    {sta : Int} (hsta : Fits 64 sta) {nth : Nat} (hn0 : 0 < nth) (hn : nth < 2 ^ 64) :
    FirstDown N there sta nth
        (if wrap 64 nth ≤ wrap 64 (sta + 1) then (wrap 64 nth, wrap 64 (sta + 1 - nth))
          else (wrap 64 (-(sta + 1)), -1)) ↔
      -1 ≤ sta ∧ sta < N ∧ nth < 2 ^ 63 := by
  obtain ⟨hs1, hs2⟩ := hsta
  norm_num at hs1 hs2
  obtain ⟨⟨j, hj⟩, hj1, hj2⟩ := wrap_spec (nth : Int)
  obtain ⟨⟨k, hk⟩, hk1, hk2⟩ := wrap_spec (sta + 1)
  have hnone : ∀ a b : Int, missingIn [] a b = 0 := fun a b => rfl
  constructor
  · rintro (⟨q, hqN, -, hle, hcount, heq⟩ | ⟨hfew, heq⟩)
    · -- a row was found, and so no more than the rows were asked for
      have hclip := countIn_clip N there q (sta + 1)
      rw [show max (q : Int) 0 = q by omega] at hclip
      have hsum := h.count (show (0 : Int) ≤ q by omega) (show (q : Int) ≤ min (sta + 1) N by omega)
        (min_le_right _ _)
      rw [← hclip, hnone] at hsum
      split at heq
      · have hpos : wrap 64 (sta + 1 - nth) = q := congrArg Prod.snd heq
        obtain ⟨m, hm⟩ := (wrap64_eq_iff ⟨by omega, by omega⟩).mp hpos
        omega
      · have hpos : -1 = (q : Int) := congrArg Prod.snd heq
        omega
    · have hret := congrArg Prod.fst heq
      have hpos := congrArg Prod.snd heq
      have hclip := countIn_clip N there 0 (sta + 1)
      rw [max_self] at hclip
      have hc : (countIn N there 0 (sta + 1) : Int) = max 0 (min (sta + 1) N) := by
        by_cases h0 : 0 ≤ sta + 1
        · have hsum := h.count (le_refl 0) (show (0 : Int) ≤ min (sta + 1) N by omega)
            (min_le_right _ _)
          rw [← hclip, hnone] at hsum
          omega
        · rw [countIn_of_le (by omega)]
          omega
      have hfits : Fits 64 (-(countIn N there 0 (sta + 1) : Int)) :=
        ⟨by norm_num; omega, by norm_num; omega⟩
      split at hret
      · next hbranch =>
        simp only [if_pos hbranch] at hpos hret
        obtain ⟨m, hm⟩ := (wrap64_eq_iff hfits).mp hret
        obtain ⟨m', hm'⟩ := (wrap64_eq_iff (y := -1) (by decide)).mp hpos
        omega
      · obtain ⟨m, hm⟩ := (wrap64_eq_iff hfits).mp hret
        omega
  · rintro ⟨h0, hlt, hfits⟩
    rw [wrap_small (show -2 ^ 63 ≤ (nth : Int) by omega) (by omega),
      wrap_small (show -2 ^ 63 ≤ sta + 1 by omega) (by omega)]
    by_cases hle : (nth : Int) ≤ sta + 1
    · have hnat : ((sta + 1 - nth).toNat : Int) = sta + 1 - nth := Int.toNat_of_nonneg (by omega)
      have hsum := h.count (show 0 ≤ sta + 1 - nth by omega) (show sta + 1 - nth ≤ sta + 1 by omega)
        (by omega)
      rw [hnone] at hsum
      rw [if_pos hle, wrap_small (by omega) (by omega)]
      refine Or.inl ⟨(sta + 1 - nth).toNat, by omega, (h.there _ (by omega)).mpr List.not_mem_nil,
        by omega, ?_, ?_⟩
      · rw [hnat]
        omega
      · rw [hnat]
    · have hsum := h.count (le_refl 0) (show (0 : Int) ≤ sta + 1 by omega) (by omega)
      rw [hnone] at hsum
      rw [if_neg hle, wrap_small (by omega) (by omega)]
      refine Or.inr ⟨by omega, ?_⟩
      rw [show (countIn N there 0 (sta + 1) : Int) = sta + 1 by omega]

/-! ### The keys -/

variable {keyset : List KeySet} (there : Int → Bool)

/-- The rows before a place, the last one first. -/
theorem scanPrior_spec (hthere : ∀ (k : Nat) (key : KeySet), keyset[k]? = some key →
    there k = !gone key) (nth sta i : Nat) (hi : i ≤ sta + 1) (hsta : sta < keyset.length)
    (count : Nat) (hcount : count = countIn keyset.length there i (sta + 1)) (hlt : count < nth) :
    ∃ answer, scanPrior keyset nth i count = some answer ∧
      FirstDown keyset.length there sta nth answer := by
  induction i generalizing count with
  | zero =>
    refine ⟨_, rfl, Or.inr ⟨?_, ?_⟩⟩
    · simpa [hcount] using hlt
    · simp [hcount]
  | succ i ih =>
    have hkey : keyset[i]? = some keyset[i] := List.getElem?_eq_getElem (by omega)
    have hsum := countIn_add keyset.length there (show (i : Int) ≤ i + 1 by omega)
      (show (i : Int) + 1 ≤ sta + 1 by omega)
    rw [countIn_single (by omega), hthere i _ hkey] at hsum
    push_cast at hcount
    by_cases hgone : gone keyset[i] = true
    · simp only [scanPrior, hkey, hgone, if_true]
      refine ih (by omega) count ?_ hlt
      simp [hgone] at hsum
      omega
    · simp only [Bool.not_eq_true] at hgone
      have hnext : count + 1 = countIn keyset.length there i (sta + 1) := by
        simp [hgone] at hsum
        omega
      by_cases hfound : count + 1 = nth
      · simp only [scanPrior, hkey, hgone, Bool.false_eq_true, if_false, if_pos hfound]
        refine ⟨_, rfl, Or.inl ⟨i, by omega, ?_, by omega, ?_, ?_⟩⟩
        · rw [hthere i _ hkey, hgone]
          rfl
        · omega
        · rw [hfound]
      · simp only [scanPrior, hkey, hgone, Bool.false_eq_true, if_false, if_neg hfound]
        exact ih (by omega) (count + 1) hnext (by omega)

/-- The rows from a place on. -/
theorem scanNext_spec (hthere : ∀ (k : Nat) (key : KeySet), keyset[k]? = some key →
    there k = !gone key) {nth sta : Nat} (left i : Nat) (hi : i + left = keyset.length)
    (hsta : sta ≤ i) (count : Nat) (hcount : count = countIn keyset.length there sta i)
    (hlt : count < nth) :
    ∃ answer, scanNext keyset keyset.length nth left i count = some answer ∧
      FirstUp keyset.length there sta nth answer := by
  induction left generalizing i count with
  | zero =>
    obtain rfl : i = keyset.length := by omega
    refine ⟨_, rfl, Or.inr ⟨by omega, ?_⟩⟩
    rw [hcount]
  | succ left ih =>
    have hkey : keyset[i]? = some keyset[i] := List.getElem?_eq_getElem (by omega)
    have hsum := countIn_add keyset.length there (show (sta : Int) ≤ i by omega)
      (show (i : Int) ≤ i + 1 by omega)
    rw [countIn_single (by omega), hthere i _ hkey] at hsum
    have hread : (if (0 : Int) ≤ (i : Int) then keyset[(i : Int).toNat]? else none) =
        some keyset[i] := by
      rw [if_pos (by omega), Int.toNat_natCast, hkey]
    by_cases hgone : gone keyset[i] = true
    · simp only [scanNext, hread, hgone, if_true]
      refine ih (i + 1) (by omega) (by omega) count ?_ hlt
      simp [hgone] at hsum
      push_cast
      omega
    · simp only [Bool.not_eq_true] at hgone
      have hnext : count + 1 = countIn keyset.length there sta (i + 1) := by
        simp [hgone] at hsum
        omega
      by_cases hfound : count + 1 = nth
      · simp only [scanNext, hread, hgone, Bool.false_eq_true, if_false, if_pos hfound]
        refine ⟨_, rfl, Or.inl ⟨i, by omega, ?_, by omega, by omega, ?_⟩⟩
        · rw [hthere i _ hkey, hgone]
          rfl
        · rw [hfound]
      · simp only [scanNext, hread, hgone, Bool.false_eq_true, if_false, if_neg hfound]
        exact ih (i + 1) (by omega) (by omega) (count + 1) (by push_cast; exact hnext) (by omega)

end OdbcDriver.ValidRows
