import OdbcDriver.Result.NthValidRules

/-!
# What is found

A consistent result answers each query that stays within its rows, and no other; of a result that is
not consistent some query within the rows is answered wrongly. Two results with the same rows give
one answer where both are right, whichever of the three ways each goes.
-/

namespace OdbcDriver.ValidRows

open CInt Gaps Result

variable {r : RowTable}

/-! ### The keys -/

/-- Where the keys are looked at, each row is valid as its key says. -/
theorem RowTable.Scans.there (h : r.Scans) (k : Nat) (key : KeySet) (hkey : r.keyset[k]? = some key) :
    (!r.isDeleted k) = !gone key := by
  simp only [RowTable.isDeleted, RowTable.keyAt, h.1, r.key_first h.1, Bool.false_and, sub_zero]
  rw [if_pos (by omega), Int.toNat_natCast, hkey]
  simp

/-- Each row of a consistent result has a key. -/
theorem RowTable.Consistent.length (h : r.Consistent) (hscan : r.Scans) :
    r.keyset.length = r.num_tuples := by
  have hle : r.keyset.length ≤ r.num_tuples := r.keys_le hscan.1
  by_contra hne
  have hlast := h (r.num_tuples - 1) (by omega)
  rw [if_pos (show r.cursor = false ∧ r.dl_count ≠ 0 from hscan)] at hlast
  omega

theorem RowTable.Scans.getNthValid_next (h : r.Scans) (sta : Int) (nth : Nat) :
    getNthValid r sta .next nth =
      scanNext r.keyset r.num_tuples nth (r.num_tuples - sta).toNat sta 0 := by
  simp [getNthValid, h.1, h.2]

theorem RowTable.Scans.getNthValid_prior (h : r.Scans) (sta : Int) (nth : Nat) :
    getNthValid r sta .prior nth = scanPrior r.keyset nth (sta + 1).toNat 0 := by
  simp [getNthValid, h.1, h.2]

/-- Upwards the keys are right from a row on. -/
theorem RowTable.Consistent.scanNext_iff (h : r.Consistent) (hscan : r.Scans) {sta : Int} {nth : Nat}
    (hn0 : 0 < nth) : Right r sta .next nth ↔ 0 ≤ sta := by
  have hlen := h.length hscan
  have heq := hscan.getNthValid_next sta nth
  constructor
  · rintro ⟨answer, hanswer, -⟩
    by_contra hneg
    -- the key before the first one is looked at
    obtain ⟨left, hleft⟩ : ∃ left, ((r.num_tuples : Int) - sta).toNat = left + 1 :=
      ⟨((r.num_tuples : Int) - sta).toNat - 1, by omega⟩
    rw [heq, hleft, scanNext, if_neg hneg] at hanswer
    exact absurd hanswer (by simp)
  · intro h0
    obtain ⟨i, rfl⟩ := Int.eq_ofNat_of_zero_le h0
    by_cases hle : i ≤ r.num_tuples
    · have hspec := scanNext_spec (fun i => !r.isDeleted i) hscan.there
        (((r.num_tuples : Int) - i).toNat) i (by omega) (le_refl i) 0
        (countIn_of_le (le_refl _)).symm hn0
      rw [hlen] at hspec
      obtain ⟨answer, hanswer, hfirst⟩ := hspec
      exact ⟨answer, heq.trans hanswer, hfirst⟩
    · have hleft : ((r.num_tuples : Int) - i).toNat = 0 := by omega
      refine ⟨(-((0 : Nat) : Int), r.num_tuples), by rw [heq, hleft]; rfl, ?_⟩
      have hnone : countIn r.num_tuples (fun i => !r.isDeleted i) i r.num_tuples = 0 :=
        countIn_of_le (by omega)
      refine Or.inr ⟨?_, ?_⟩
      · rw [hnone]
        exact hn0
      · rw [hnone]

/-- Downwards the keys are right up to the last row. -/
theorem RowTable.Consistent.scanPrior_iff (h : r.Consistent) (hscan : r.Scans) {sta : Int} {nth : Nat}
    (hn0 : 0 < nth) : Right r sta .prior nth ↔ sta < r.num_tuples := by
  have hlen := h.length hscan
  have heq := hscan.getNthValid_prior sta nth
  constructor
  · rintro ⟨answer, hanswer, -⟩
    by_contra hge
    obtain ⟨i, hi⟩ : ∃ i, (sta + 1).toNat = i + 1 := ⟨(sta + 1).toNat - 1, by omega⟩
    have hnone : r.keyset[i]? = none := List.getElem?_eq_none (by omega)
    rw [heq, hi, scanPrior, hnone] at hanswer
    exact absurd hanswer (by simp)
  · intro hlt
    by_cases h0 : 0 ≤ sta
    · obtain ⟨i, rfl⟩ := Int.eq_ofNat_of_zero_le h0
      have hspec := scanPrior_spec (fun i => !r.isDeleted i) hscan.there nth i
        (i + 1) (le_refl _) (by omega) 0 (by rw [countIn_of_le]; push_cast; omega) hn0
      rw [hlen] at hspec
      obtain ⟨answer, hanswer, hfirst⟩ := hspec
      refine ⟨answer, heq.trans ?_, hfirst⟩
      rw [← hanswer]
      rfl
    · have hleft : (sta + 1).toNat = 0 := by omega
      refine ⟨(-((0 : Nat) : Int), -1), by rw [heq, hleft]; rfl, ?_⟩
      have hnone : countIn r.num_tuples (fun i => !r.isDeleted i) 0 (sta + 1) = 0 :=
        countIn_of_le (by omega)
      refine Or.inr ⟨?_, ?_⟩
      · rw [hnone]
        exact hn0
      · rw [hnone]

/-! ### A result -/

/-- A consistent result answers the queries within its rows. -/
theorem RowTable.Consistent.right_iff (h : r.Consistent) {sta : Int} (hsta : Fits 64 sta)
    (orientation : Orientation) {nth : Nat} (hn0 : 0 < nth) (hn : nth < 2 ^ 64) :
    Right r sta orientation nth ↔ r.Within sta orientation nth := by
  rw [RowTable.Within.eq_def]
  by_cases hscan : r.Scans
  · rw [if_pos (show r.cursor = false ∧ r.dl_count ≠ 0 from hscan)]
    cases orientation with
    | next => exact h.scanNext_iff hscan hn0
    | prior => exact h.scanPrior_iff hscan hn0
  · rw [if_neg (show ¬ (r.cursor = false ∧ r.dl_count ≠ 0) from hscan)]
    have hlist := h.listed hscan
    cases orientation with
    | next =>
      rw [← up_iff hlist r.num_tuples_lt hsta hn0 hn]
      simp [Right, getNthValid_next hscan]
    | prior =>
      by_cases h0 : r.dl_count = 0
      · have hnil : r.listed = [] := by
          rw [RowTable.listed]
          split
          · next hc => exact List.length_eq_zero_iff.mp ((r.counted hc).symm.trans h0)
          · rfl
        rw [hnil] at hlist
        simp only [if_pos h0]
        rw [← shortcut_iff hlist r.num_tuples_lt hsta hn0 hn]
        simp only [Right, getNthValid, if_pos h0]
        split <;> simp
      · have hc : r.cursor = true := by
          by_contra hc
          exact hscan ⟨by simpa using hc, h0⟩
        simp only [if_neg h0]
        rw [← down_iff hlist r.num_tuples_lt hsta hn0 hn]
        simp [Right, getNthValid_prior hc h0]

/-- A deleted row that is not in the list is taken for the first valid one from itself on. -/
theorem wrong_of_gone (hscan : ¬ r.Scans) {i : Nat} (hi : i < r.num_tuples)
    (hgone : (r.keyAt i).any gone = true) (hnot : ¬ (r.cursor = true ∧ (i : Int) ∈ r.deleted)) :
    r.Within i .next 1 ∧ ¬ Right r i .next 1 := by
  have hlt := r.num_tuples_lt
  have hmem : (i : Int) ∉ r.listed := by
    rw [RowTable.listed]
    split
    · next hc => exact fun h => hnot ⟨hc, h⟩
    · exact List.not_mem_nil
  have hwithin : 0 ≤ (i : Int) ∧ (i : Int) ≤ r.num_tuples ∧
      (i : Int) - 1 + (1 : Nat) + missingIn r.listed i r.num_tuples < 2 ^ 63 := by
    have hle := r.listed_spec.missingIn_le (show (i : Int) ≤ r.num_tuples by omega)
    omega
  refine ⟨?_, ?_⟩
  · rw [RowTable.Within, if_neg (show ¬ (r.cursor = false ∧ r.dl_count ≠ 0) from hscan)]
    exact hwithin
  · rintro ⟨answer, hanswer, hright⟩
    rw [getNthValid_next hscan] at hanswer
    obtain rfl := Option.some.inj hanswer
    have hup := (up_iff r.listed_spec hlt ⟨by omega, by omega⟩ (by decide) (by decide)).mpr hwithin
    -- the list has the row as the first one
    have hfirst : FirstUp r.num_tuples (fun i => !decide (i ∈ r.listed)) i 1 (1, i) := by
      refine Or.inl ⟨i, hi, by simpa using hmem, le_refl _, ?_, rfl⟩
      rw [countIn_single hi, if_pos (by simpa using hmem)]
    rw [hup.unique hfirst] at hright
    rcases hright with ⟨p, -, hthere, -, -, heq⟩ | ⟨-, heq⟩
    · have hp : (i : Int) = p := congrArg Prod.snd heq
      simp [RowTable.isDeleted, ← hp, hgone] at hthere
    · have hone := congrArg Prod.fst heq
      simp only at hone
      omega

/-- A result whose list and keys disagree has a query that is answered wrongly. -/
theorem wrong_of_not_consistent (h : ¬ r.Consistent) :
    ∃ i : Nat, i < r.num_tuples ∧ r.Within i .next 1 ∧ ¬ Right r i .next 1 := by
  simp only [RowTable.Consistent, not_forall] at h
  obtain ⟨i, hi, hkey⟩ := h
  refine ⟨i, hi, ?_⟩
  by_cases hscan : r.Scans
  · have hscan' : r.cursor = false ∧ r.dl_count ≠ 0 := hscan
    rw [if_pos hscan'] at hkey
    refine ⟨?_, ?_⟩
    · rw [RowTable.Within, if_pos hscan']
      exact Int.natCast_nonneg i
    · -- the row has no key
      rintro ⟨answer, hanswer, -⟩
      have hnone : r.keyset[i]? = none := List.getElem?_eq_none (not_lt.mp hkey)
      obtain ⟨left, hleft⟩ : ∃ left, ((r.num_tuples : Int) - i).toNat = left + 1 :=
        ⟨((r.num_tuples : Int) - i).toNat - 1, by omega⟩
      rw [hscan.getNthValid_next, hleft, scanNext, if_pos (Int.natCast_nonneg i),
        Int.toNat_natCast, hnone] at hanswer
      exact absurd hanswer (by simp)
  · rw [if_neg (show ¬ (r.cursor = false ∧ r.dl_count ≠ 0) from hscan)] at hkey
    rw [Classical.not_imp] at hkey
    exact wrong_of_gone hscan hi hkey.1 hkey.2

/-- **The n-th valid row**: the answers are right exactly for the queries within the rows, if and only
if the result is consistent; and two results with the same rows, which may go different ways, give
the same answer where both are right. -/
theorem getNthValid_right_iff (r : RowTable) :
    (r.Consistent ↔ ∀ (sta : Int) (orientation : Orientation) (nth : Nat), Fits 64 sta → 0 < nth →
      nth < 2 ^ 64 → (Right r sta orientation nth ↔ r.Within sta orientation nth)) ∧
    ∀ (r' : RowTable) (sta : Int) (orientation : Orientation) (nth : Nat),
      r'.num_tuples = r.num_tuples → (∀ i, r'.isDeleted i = r.isDeleted i) →
      Right r sta orientation nth → Right r' sta orientation nth →
      getNthValid r' sta orientation nth = getNthValid r sta orientation nth := by
  refine ⟨⟨fun h sta orientation nth hsta hn0 hn => h.right_iff hsta orientation hn0 hn, ?_⟩, ?_⟩
  · intro h
    by_contra hnot
    obtain ⟨i, hi, hwithin, hwrong⟩ := wrong_of_not_consistent hnot
    have hlt := r.num_tuples_lt
    exact hwrong ((h i .next 1 ⟨by omega, by omega⟩ (by decide) (by decide)).mpr hwithin)
  · rintro r' sta orientation nth hnum hrows ⟨answer, heq, hright⟩ ⟨answer', heq', hright'⟩
    have hdel : r'.isDeleted = r.isDeleted := funext hrows
    rw [heq, heq']
    cases orientation with
    | next =>
      simp only [hnum, hdel] at hright'
      exact congrArg some (hright'.unique hright)
    | prior =>
      simp only [hnum, hdel] at hright'
      exact congrArg some (hright'.unique hright)

/-- A result of one row, which another transaction deleted. -/
def otherDeleted : RowTable where
  cursor := false
  reached_eof := true
  num_total_tuples := 1
  dl_count := 0
  deleted := []
  keyset := [{ status := cursOtherDeleted, blocknum := 0, offset := 1, oid := 0 }]
  key_start := 0
  rows_lt := by decide
  counted := by decide
  sorted := .nil
  rows := by simp
  key_first := fun _ => rfl
  keys_le := by decide

/-- The row is found as the first valid one. -/
theorem otherDeleted_found : getNthValid otherDeleted 0 .next 1 = some (1, 0) ∧
    otherDeleted.isDeleted 0 = true ∧ ¬ Right otherDeleted 0 .next 1 := by
  have hfound : getNthValid otherDeleted 0 .next 1 = some (1, 0) := by decide
  refine ⟨hfound, by decide, ?_⟩
  rintro ⟨answer, hanswer, hright⟩
  rw [hfound] at hanswer
  obtain rfl := Option.some.inj hanswer
  rcases hright with ⟨p, hp, hthere, -, -, heq⟩ | ⟨-, heq⟩
  · have hp0 : (0 : Int) = p := congrArg Prod.snd heq
    rw [← hp0] at hthere
    exact absurd hthere (by decide)
  · have hone : (0 : Int) = otherDeleted.num_tuples := congrArg Prod.snd heq
    exact absurd hone (by decide)

end OdbcDriver.ValidRows
