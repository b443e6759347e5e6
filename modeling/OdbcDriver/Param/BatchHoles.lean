import OdbcDriver.Param.BatchRules

/-!
# Parameters that are left out

A batch leaves a discarded output parameter out without moving its neighbours up, and gives an
entry to a return value and a type to an output parameter. What a batch and a row on its own
make of such parameters is read off one step of their loops.
-/

namespace OdbcDriver

open Lib

/-! ### Batches that leave parameters out -/

section Holes

variable {env : Env} {stmt : StatementClass} {row i : Nat} {b b' : BatchArgs} {p : BindArgs}

/-- The parameter is written into the batch. -/
def isSent (stmt : StatementClass) (i : Nat) : Bool :=
  !(stmt.discard_output_params && isOutput stmt i)

theorem isSent_eq_false_iff : isSent stmt i = false ↔
    stmt.discard_output_params = true ∧ isOutput stmt i = true := by
  simp [isSent]

/-- **One parameter of a row of the batch.** It is left out; or it is resolved and counted,
and written if the row is executed. -/
theorem batchParam_ok {s s' : RowState} (h : batchParam env stmt row s i = .ok s') :
    (isSent stmt i = false ∧ s' = s) ∨
      (isSent stmt i = true ∧ ∃ r, resolveNext env s.qb = .ok r ∧ s'.qb = r.qb ∧
        (s'.args = s.args.count ∨ ∃ e, bindEntry r = .ok e ∧
          s'.args = (s.args.write stmt.num_params i e).count)) := by
  unfold batchParam at h
  by_cases hskip : (stmt.discard_output_params && isOutput stmt i) = true
  · rw [if_pos hskip] at h
    exact .inl ⟨by simp [isSent, hskip], (Except.ok.inj h).symm⟩
  · rw [if_neg hskip] at h
    refine .inr ⟨by simp [isSent, hskip], ?_⟩
    obtain ⟨r, hr, h⟩ := bind_eq_ok.mp h
    refine ⟨r, hr, ?_⟩
    split at h
    · obtain rfl := Except.ok.inj h
      exact ⟨rfl, .inl rfl⟩
    · obtain ⟨e, he, h⟩ := bind_eq_ok.mp h
      obtain rfl := Except.ok.inj h
      exact ⟨rfl, .inr ⟨e, he, rfl⟩⟩

/-- A row of the batch is its loop over the parameters. -/
theorem batchRow_ok (h : batchRow env stmt b row = .ok b') :
    ∃ s, (List.range stmt.num_params).foldlM (batchParam env stmt row)
        ⟨bindQuery (stmt.atRow row), { b with nParams := 0 }, false⟩ = .ok s ∧
      b'.nParams = s.args.nParams ∧ b'.paramTypes = s.args.paramTypes ∧
      b'.paramLengths = s.args.paramLengths := by
  obtain ⟨s, hs, h⟩ := bind_eq_ok.mp h
  refine ⟨s, hs, ?_⟩
  split at h <;> obtain rfl := Except.ok.inj h <;> exact ⟨rfl, rfl, rfl⟩

/-- The parameters of a row that are written are counted. -/
theorem batchParam_count {l : List Nat} {s s' : RowState}
    (h : l.foldlM (batchParam env stmt row) s = .ok s') :
    s'.args.nParams = s.args.nParams + l.countP (isSent stmt) := by
  induction l generalizing s with
  | nil =>
    obtain rfl := Except.ok.inj h
    rfl
  | cons i l ih =>
    rw [List.foldlM_cons] at h
    obtain ⟨t, ht, h⟩ := bind_eq_ok.mp h
    have hstep : t.args.nParams = s.args.nParams + if isSent stmt i then 1 else 0 := by
      rcases batchParam_ok ht with ⟨hi, rfl⟩ | ⟨hi, r, -, -, hargs | ⟨e, -, hargs⟩⟩
      · simp [hi]
      · rw [hargs, hi]; rfl
      · rw [hargs, hi]; rfl
    rw [ih h, hstep, List.countP_cons]
    omega

theorem batchRow_nParams (h : batchRow env stmt b row = .ok b') :
    b'.nParams = (List.range stmt.num_params).countP (isSent stmt) := by
  obtain ⟨s, hs, hn, -, -⟩ := batchRow_ok h
  rw [hn, batchParam_count hs]
  exact Nat.zero_add _

/-- After some rows the count is that of the parameters written for one. -/
theorem batchRows_nParams {n : Nat} (hpos : 0 < n)
    (h : (List.range n).foldlM (batchRow env stmt) b = .ok b') :
    b'.nParams = (List.range stmt.num_params).countP (isSent stmt) := by
  obtain ⟨m, rfl⟩ : ∃ m, n = m + 1 := ⟨n - 1, by omega⟩
  rw [List.range_succ, List.foldlM_append] at h
  obtain ⟨c, -, h⟩ := bind_eq_ok.mp h
  rw [List.foldlM_cons] at h
  obtain ⟨d, hd, h⟩ := bind_eq_ok.mp h
  obtain rfl := Except.ok.inj h
  exact batchRow_nParams hd

/-- The place of a parameter that is left out of the first row stays unwritten. -/
theorem batchRows_hole {o : Nat} (ho : o < stmt.num_params) (hout : isSent stmt o = false)
    {rows : List Nat} (hb : b.paramLengths o = none)
    (h : rows.foldlM (batchRow env stmt) b = .ok b') : b'.paramLengths o = none := by
  refine @foldlM_invariant _ _ _ (fun b : BatchArgs => b.paramLengths o = none) _ _
    (fun c row _ c' hc hrow => ?_) _ _ hb h
  obtain ⟨s, hs, -, -, hl⟩ := batchRow_ok hrow
  rw [hl]
  refine @foldlM_invariant _ _ _ (fun s : RowState => s.args.paramLengths o = none) _ _
    (fun s i hi s' hs hstep => ?_) _ _ hc hs
  rcases batchParam_ok hstep with ⟨-, rfl⟩ | ⟨hsent, r, -, -, hargs | ⟨e, -, hargs⟩⟩
  · exact hs
  · rw [hargs]
    exact hs
  · rw [hargs]
    refine (Function.update_of_ne ?_ _ _).trans hs
    -- of the first row's places, the one of `o` is that of no parameter written
    intro heq
    cases hc : s.args.nBatchCount with
    | zero =>
      rw [hc, Nat.zero_mul, Nat.zero_add] at heq
      rw [heq, hsent] at hout
      cases hout
    | succ m =>
      rw [hc, Nat.succ_mul] at heq
      omega

/-- Every type of a batch is left to the server to find. -/
theorem batchRows_types {rows : List Nat} (hb : ∀ j t, b.paramTypes j = some t → t = 0)
    (h : rows.foldlM (batchRow env stmt) b = .ok b') :
    ∀ j t, b'.paramTypes j = some t → t = 0 := by
  refine @foldlM_invariant _ _ _ (fun b : BatchArgs => ∀ j t, b.paramTypes j = some t → t = 0)
    _ _ (fun c row _ c' hc hrow => ?_) _ _ hb h
  obtain ⟨s, hs, -, ht, -⟩ := batchRow_ok hrow
  rw [ht]
  refine (@foldlM_invariant _ _ _ (fun s : RowState => s.qb.param_mode = .buildingBindRequest ∧
    ∀ j t, s.args.paramTypes j = some t → t = 0) _ _ (fun s i hi s' hs hstep => ?_) _ _
    ⟨rfl, hc⟩ hs).2
  rcases batchParam_ok hstep with ⟨-, rfl⟩ | ⟨-, r, hr, hqb, hargs⟩
  · exact hs
  · obtain ⟨hclear, htype⟩ := @ResolveOneParam_next env s.qb.clear r hs.1 (mapError_eq_ok.mp hr)
    have hmode : s'.qb.param_mode = .buildingBindRequest := by
      rw [hqb]
      exact (congrArg QueryBuild.param_mode hclear).trans hs.1
    refine ⟨hmode, ?_⟩
    rcases hargs with hargs | ⟨e, he, hargs⟩
    · rw [hargs]
      exact hs.2
    · rw [hargs]
      intro j t hj
      by_cases hji : j = i
      · subst hji
        simp only [BatchArgs.count, BatchArgs.write, Function.update_self] at hj
        rw [← Option.some.inj hj, (bindEntry_ok he).1, htype]
      · simp only [BatchArgs.count, BatchArgs.write, Function.update_of_ne hji] at hj
        exact hs.2 j t hj

/-! ### Rows on their own that leave parameters out -/

/-- A row that has a parameter to send is its loop over the parameters. -/
theorem build_ok (h : build_libpq_bind_params env (stmt.atRow row) = .ok p)
    (hsent : num_discard_params stmt < stmt.num_params) :
    stmt.num_params ≤ stmt.ipdopts.parameters.length ∧
      ∃ qb, (List.range stmt.num_params).foldlM (bindParam env (stmt.atRow row))
        (bindQuery (stmt.atRow row), []) = .ok (qb, p.params) := by
  have hdiscard : num_discard_params (stmt.atRow row) < stmt.num_params := hsent
  unfold build_libpq_bind_params at h
  dsimp only at h
  split at h
  · cases h
  · rename_i halloc
    rw [if_pos (by rw [atRow_num_params]; omega)] at h
    obtain ⟨⟨qb, params⟩, hloop, h⟩ := bind_eq_ok.mp h
    obtain rfl := Except.ok.inj h
    exact ⟨Nat.le_of_not_lt halloc, qb, hloop⟩

/-- **One parameter of a row on its own.** It is resolved, and left out, or described as an
output parameter, or as its value. -/
theorem bindParam_ok {s s' : QueryBuild × List BindParam}
    (h : bindParam env (stmt.atRow row) s i = .ok s') :
    ∃ r, resolveNext env s.1 = .ok r ∧ s'.1 = r.qb ∧
      (((i : Int) < stmt.proc_return ∧ s'.2 = s.2) ∨
        (¬ (i : Int) < stmt.proc_return ∧ isOutput stmt i = true ∧
          stmt.discard_output_params = true ∧ s'.2 = s.2) ∨
        (¬ (i : Int) < stmt.proc_return ∧ isOutput stmt i = true ∧
          stmt.discard_output_params = false ∧ s'.2 = s.2 ++ [⟨PG_TYPE_VOID, none, 0, 0⟩]) ∨
        (¬ (i : Int) < stmt.proc_return ∧ isOutput stmt i = false ∧
          ∃ e, s'.2 = s.2 ++ [e])) := by
  obtain ⟨qb, ps⟩ := s
  obtain ⟨r, hr, h⟩ := bind_eq_ok.mp h
  refine ⟨r, hr, ?_⟩
  split at h
  · obtain rfl := Except.ok.inj h
    exact ⟨rfl, .inl ⟨‹_›, rfl⟩⟩
  · split at h
    · split at h
      · obtain rfl := Except.ok.inj h
        exact ⟨rfl, .inr (.inl ⟨‹_›, ‹_›, ‹_›, rfl⟩)⟩
      · obtain rfl := Except.ok.inj h
        exact ⟨rfl, .inr (.inr (.inl ⟨‹_›, ‹_›, Bool.eq_false_iff.mpr ‹_›, rfl⟩))⟩
    · obtain ⟨e, -, h⟩ := bind_eq_ok.mp h
      obtain rfl := Except.ok.inj h
      exact ⟨rfl, .inr (.inr (.inr ⟨‹_›, Bool.eq_false_iff.mpr ‹_›, e, rfl⟩))⟩

/-- A row has at most one entry for each parameter. -/
theorem bindParam_length {l : List Nat} {s s' : QueryBuild × List BindParam}
    (h : l.foldlM (bindParam env (stmt.atRow row)) s = .ok s') :
    s'.2.length ≤ s.2.length + l.length := by
  induction l generalizing s with
  | nil =>
    obtain rfl := Except.ok.inj h
    simp
  | cons i l ih =>
    rw [List.foldlM_cons] at h
    obtain ⟨t, ht, h⟩ := bind_eq_ok.mp h
    have hstep : t.2.length ≤ s.2.length + 1 := by
      obtain ⟨r, -, -, ⟨-, ht⟩ | ⟨-, -, -, ht⟩ | ⟨-, -, -, ht⟩ | ⟨-, -, e, ht⟩⟩ := bindParam_ok ht <;>
        simp [ht]
    have := ih h
    rw [List.length_cons]
    omega

/-- The return value of a function has no entry, and is an output parameter. -/
theorem build_return (h : build_libpq_bind_params env (stmt.atRow row) = .ok p)
    (hsent : num_discard_params stmt < stmt.num_params) (hret : 0 < stmt.proc_return) :
    p.params.length < stmt.num_params ∧ isOutput stmt 0 = true := by
  obtain ⟨-, qb, hloop⟩ := build_ok h hsent
  have hpos : 0 < stmt.num_params := by
    by_contra hzero
    have hdiscard : stmt.proc_return ≤ num_discard_params stmt := by
      unfold num_discard_params
      dsimp only
      split <;> omega
    omega
  obtain ⟨m, hm⟩ : ∃ m, stmt.num_params = m + 1 := ⟨stmt.num_params - 1, by omega⟩
  rw [hm, List.range_eq_range', List.range'_succ, List.foldlM_cons] at hloop
  obtain ⟨t, ht, hloop⟩ := bind_eq_ok.mp hloop
  have hlength := bindParam_length hloop
  obtain ⟨r, hr, -, hcase⟩ := bindParam_ok ht
  have ht : t.2 = [] := by
    rcases hcase with ⟨-, ht⟩ | ⟨hlt, -⟩ | ⟨hlt, -⟩ | ⟨hlt, -⟩
    · exact ht
    all_goals exact absurd hret hlt
  rw [ht, List.length_range'] at hlength
  refine ⟨by simp at hlength; omega, ?_⟩
  rcases ResolveOneParam_bind rfl (mapError_eq_ok.mp hr) with ⟨-, htype, -⟩ | ⟨-, htype, -⟩ |
    ⟨hlt, -⟩
  · exact (@isOutput_iff stmt row 0).mpr htype
  · exact (@isOutput_iff stmt row 0).mpr htype
  · exact absurd hret hlt

/-- When nothing is left out, a row has one entry for each parameter, and an output parameter
is of type `void`. -/
theorem bindParam_void (hdiscard : stmt.discard_output_params = false)
    (hret : stmt.proc_return ≤ 0) {n : Nat} {s s' : QueryBuild × List BindParam}
    (hs : s.2 = []) (h : (List.range n).foldlM (bindParam env (stmt.atRow row)) s = .ok s') :
    s'.2.length = n ∧ ∀ o < n, isOutput stmt o = true →
      s'.2[o]? = some ⟨PG_TYPE_VOID, none, 0, 0⟩ := by
  induction n generalizing s' with
  | zero =>
    obtain rfl := Except.ok.inj h
    simp [hs]
  | succ n ih =>
    rw [List.range_succ, List.foldlM_append] at h
    obtain ⟨t, ht, h⟩ := bind_eq_ok.mp h
    rw [List.foldlM_cons] at h
    obtain ⟨u, hu, h⟩ := bind_eq_ok.mp h
    obtain rfl := Except.ok.inj h
    obtain ⟨hlength, hvoid⟩ := ih ht
    obtain ⟨e, he, hout⟩ : ∃ e, u.2 = t.2 ++ [e] ∧
        (isOutput stmt n = true → e = ⟨PG_TYPE_VOID, none, 0, 0⟩) := by
      obtain ⟨r, -, -, ⟨hlt, -⟩ | ⟨-, -, hd, -⟩ | ⟨-, -, -, he⟩ | ⟨-, hin, e, he⟩⟩ := bindParam_ok hu
      · omega
      · rw [hdiscard] at hd
        cases hd
      · exact ⟨_, he, fun _ => rfl⟩
      · exact ⟨e, he, fun hout => by rw [hin] at hout; cases hout⟩
    rw [he]
    refine ⟨by simp [hlength], fun o ho hoout => ?_⟩
    rcases Nat.lt_succ_iff_lt_or_eq.mp ho with hlt | rfl
    · rw [List.getElem?_append_left (by omega)]
      exact hvoid o hlt hoout
    · rw [List.getElem?_append_right (by omega), hlength, Nat.sub_self]
      simp [hout hoout]

end Holes

end OdbcDriver
