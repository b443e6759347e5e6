import OdbcDriver.Param.BatchRules

/-!
# Building a batch

`build_libpq_bind_params_batch` as a whole: the sizes of its arrays, and the run over the rows
of the parameter array.
-/

namespace OdbcDriver

open Lib

section Run

variable {env : Env} {stmt : StatementClass}

/-- The parameters of a row resolve, which is all that happens to those of an ignored row. -/
def RowResolves (env : Env) (stmt : StatementClass) (row : Nat) : Prop :=
  ∀ i < stmt.num_params, ∃ r, ResolveOneParam env (queryAt stmt row i) none = .ok r

theorem rowResolves_iff {row : Nat} : RowResolves env stmt row ↔
    ∃ rs, (List.range stmt.num_params).mapM (resolveAt env stmt row) = .ok rs := by
  rw [exists_mapM_eq_ok]
  simp only [List.mem_range, resolveAt, resolveNext, mapError_eq_ok]
  rfl

/-- **The run of a batch.** The executed rows are added one after the other; ignored rows have
to resolve. -/
theorem batchRows_eq_ok (hall : SendsAll stmt) (hpos : 0 < stmt.num_params) {rows : List Nat}
    {b b' : BatchArgs} (hb : b.nParams = stmt.num_params) :
    rows.foldlM (batchRow env stmt) b = .ok b' ↔
      (∀ row ∈ rows, isIgnored stmt row = true → RowResolves env stmt row) ∧
        ∃ ess, (rows.filter fun row => !isIgnored stmt row).mapM (rowEntries env stmt) =
          .ok ess ∧ ess.foldl (BatchArgs.addRow stmt.num_params) b = b' := by
  induction rows generalizing b with
  | nil => simp
  | cons row rows ih =>
    rw [List.foldlM_cons, bind_eq_ok, List.forall_mem_cons]
    cases hign : isIgnored stmt row with
    | true =>
      rw [batchRow_ignored hall hign]
      have hsame : ({ b with nParams := stmt.num_params } : BatchArgs) = b := by rw [← hb]
      simp only [Except.map, List.filter_cons, hign, Bool.not_true, Bool.false_eq_true, if_false,
        true_implies, rowResolves_iff]
      constructor
      · rintro ⟨c, hc, h⟩
        cases hrs : (List.range stmt.num_params).mapM (resolveAt env stmt row) with
        | error e => simp [hrs] at hc
        | ok rs =>
          obtain rfl : b = c := by simpa [hrs, hsame] using hc
          obtain ⟨hres, hess⟩ := (ih hb).mp h
          exact ⟨⟨⟨rs, rfl⟩, fun r hr hi => rowResolves_iff.mp (hres r hr hi)⟩, hess⟩
      · rintro ⟨⟨⟨rs, hrs⟩, hres⟩, hess⟩
        refine ⟨b, by simp [hrs, hsame], (ih hb).mpr ⟨fun r hr hi => ?_, hess⟩⟩
        exact rowResolves_iff.mpr (hres r hr hi)
    | false =>
      rw [batchRow_eq hall hpos hign]
      simp only [List.filter_cons, hign, Bool.not_false, if_true, List.mapM_cons,
        Bool.false_eq_true, false_implies, true_and]
      constructor
      · rintro ⟨c, hc, h⟩
        cases hes : rowEntries env stmt row with
        | error e => simp [hes, Except.map] at hc
        | ok es =>
          obtain rfl : b.addRow stmt.num_params es = c := by simpa [hes, Except.map] using hc
          obtain ⟨hres, ess, hess, hb'⟩ := (ih rfl).mp h
          exact ⟨hres, es :: ess, by rw [hess]; rfl, hb'⟩
      · rintro ⟨hres, ess, hess, hb'⟩
        obtain ⟨es, hes, hess⟩ := bind_eq_ok.mp hess
        obtain ⟨ess', hess', hess⟩ := bind_eq_ok.mp hess
        obtain rfl := Except.ok.inj hess
        refine ⟨b.addRow stmt.num_params es, by simp [hes, Except.map], ?_⟩
        exact (ih rfl).mpr ⟨hres, ess', hess', hb'⟩

end Run

/-! ### The sizes of the arrays -/

theorem checked_mul_size_eq (left right : Nat) :
    checked_mul_size left right =
      if left * right < 2 ^ 64 then some (left * right) else none := by
  unfold checked_mul_size
  by_cases hleft : left = 0
  · simp [hleft]
  · have hdiv : right > (2 ^ 64 - 1) / left ↔ ¬ left * right < 2 ^ 64 := by
      rw [gt_iff_lt, Nat.div_lt_iff_lt_mul (by omega), Nat.mul_comm right left]
      omega
    by_cases hlt : left * right < 2 ^ 64
    · rw [if_pos hlt, if_neg (fun h => hdiv.mp h.2 hlt)]
    · rw [if_neg hlt, if_pos ⟨hleft, hdiv.mpr hlt⟩]

/-- The sizes that are computed are the products. -/
theorem arrayBytes_eq_some {num_params total_rows : Nat} {r : Nat × Nat × Nat}
    (h : arrayBytes num_params total_rows = some r) :
    r = (4 * num_params, 8 * (num_params * total_rows), 4 * (num_params * total_rows)) := by
  simp only [arrayBytes, checked_mul_size_eq, Option.bind_eq_bind] at h
  obtain ⟨t, ht, h⟩ := Option.bind_eq_some_iff.mp h
  obtain ⟨n, hn, h⟩ := Option.bind_eq_some_iff.mp h
  obtain ⟨v, hv, h⟩ := Option.bind_eq_some_iff.mp h
  obtain ⟨l, hl, h⟩ := Option.bind_eq_some_iff.mp h
  rw [Option.ite_none_right_eq_some, Option.some.injEq] at ht hn hv hl
  obtain ⟨-, rfl⟩ := ht
  obtain ⟨-, rfl⟩ := hn
  obtain ⟨-, rfl⟩ := hv
  obtain ⟨-, rfl⟩ := hl
  exact (Option.some.inj h).symm

theorem allocates_iff {bytes : Nat} : allocates bytes = true ↔ 0 < bytes ∧ bytes ≤ INT_MAX := by
  rw [allocates, Bool.and_eq_true, decide_eq_true_eq, decide_eq_true_eq]
  exact and_congr Nat.pos_iff_ne_zero.symm Iff.rfl

/-- The arrays can be allocated as long as that of the values can. -/
theorem arrayBytes_fits {num_params total_rows : Nat} (hpos : 0 < num_params)
    (hrows : 0 < total_rows) :
    (∃ t v l, arrayBytes num_params total_rows = some (t, v, l) ∧ allocates t = true ∧
        allocates v = true ∧ allocates l = true) ↔
      8 * (num_params * total_rows) ≤ INT_MAX := by
  have hprod : num_params ≤ num_params * total_rows := Nat.le_mul_of_pos_right _ hrows
  constructor
  · rintro ⟨t, v, l, h, -, hv, -⟩
    obtain ⟨-, rfl, -⟩ : t = _ ∧ v = _ ∧ l = _ := by
      simpa only [Prod.mk.injEq] using arrayBytes_eq_some h
    exact (allocates_iff.mp hv).2
  · intro h
    have hmax : INT_MAX < 2 ^ 64 := by decide
    refine ⟨4 * num_params, 8 * (num_params * total_rows), 4 * (num_params * total_rows), ?_,
      allocates_iff.mpr (by omega), allocates_iff.mpr (by omega), allocates_iff.mpr (by omega)⟩
    simp only [arrayBytes, checked_mul_size_eq, Option.bind_eq_bind]
    rw [if_pos (by omega), if_pos (by omega), Option.bind_some, Option.bind_some,
      if_pos (by omega), if_pos (by omega)]
    rfl

section Build

variable {env : Env} {stmt : StatementClass} {b : BatchArgs}

/-- **How a batch is built.** -/
theorem build_batch_eq_ok :
    build_libpq_bind_params_batch env stmt = .ok b ↔
      stmt.num_params ≤ stmt.ipdopts.parameters.length ∧ 0 < stmt.num_params ∧
        0 < stmt.apdopts.paramset_size ∧
        8 * (stmt.num_params * stmt.apdopts.paramset_size) ≤ INT_MAX ∧
        if num_discard_params stmt < stmt.num_params then
          (List.range stmt.apdopts.paramset_size).foldlM (batchRow env stmt) .empty = .ok b
        else b = .empty := by
  unfold build_libpq_bind_params_batch
  dsimp only
  by_cases halloc : stmt.ipdopts.parameters.length < stmt.num_params
  · rw [if_pos halloc]
    exact ⟨nofun, fun h => absurd h.1 (by omega)⟩
  rw [if_neg halloc]
  by_cases hpos : stmt.num_params = 0
  · simp [hpos]
  rw [if_neg hpos]
  by_cases hrows : stmt.apdopts.paramset_size = 0
  · simp [hrows]
  have hfits := arrayBytes_fits (Nat.pos_of_ne_zero hpos) (Nat.pos_of_ne_zero hrows)
  have hprod : stmt.apdopts.paramset_size ≤ stmt.num_params * stmt.apdopts.paramset_size :=
    Nat.le_mul_of_pos_left _ (Nat.pos_of_ne_zero hpos)
  by_cases hmax : INT_MAX < stmt.apdopts.paramset_size
  · rw [if_pos (.inr hmax)]
    simp
    omega
  rw [if_neg (by tauto)]
  by_cases h8 : 8 * (stmt.num_params * stmt.apdopts.paramset_size) ≤ INT_MAX
  · obtain ⟨t, v, l, harrays, ht, hv, hl⟩ := hfits.mpr h8
    rw [harrays]
    simp only [ht, hv, hl, Bool.not_true, Bool.or_self, Bool.false_eq_true, if_false]
    have hsent : (0 : Int) < stmt.num_params - num_discard_params stmt ↔
        num_discard_params stmt < stmt.num_params := by omega
    simp only [hsent]
    by_cases hn : num_discard_params stmt < stmt.num_params
    · simp only [if_pos hn]
      constructor
      · exact fun h => ⟨by omega, by omega, by omega, h8, h⟩
      · exact fun h => h.2.2.2.2
    · simp only [if_neg hn]
      constructor
      · exact fun h => ⟨by omega, by omega, by omega, h8, (Except.ok.inj h).symm⟩
      · exact fun h => by rw [h.2.2.2.2]
  · have hnone : ∀ t v l, arrayBytes stmt.num_params stmt.apdopts.paramset_size =
        some (t, v, l) → (!allocates t || !allocates v || !allocates l) = true := by
      intro t v l h
      by_contra hall
      simp only [Bool.or_eq_true, Bool.not_eq_true', not_or, Bool.not_eq_false] at hall
      exact h8 (hfits.mp ⟨t, v, l, h, hall.1.1, hall.1.2, hall.2⟩)
    constructor
    · intro h
      cases harrays : arrayBytes stmt.num_params stmt.apdopts.paramset_size with
      | none => simp [harrays] at h
      | some tvl =>
        obtain ⟨t, v, l⟩ := tvl
        simp [harrays, hnone t v l harrays] at h
    · exact fun h => absurd h.2.2.2.1 h8

end Build

end OdbcDriver
