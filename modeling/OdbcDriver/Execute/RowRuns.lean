import OdbcDriver.Execute.Rows
import OdbcDriver.Param.BatchRefinement

/-!
# Which rows an execution sends

A batch leaves its own bounds in the handle: `exec_end_row` is then the size of the array, and no
later execution sets it back. An execution row by row takes it for the number of its last row.
Where the bound is not in the way, an execution sends the rows that are not ignored, each once and
in order, and reports on each.

The walk row by row is followed by what it has done before the current row (`Progress`): a row that
is ignored is skipped, and one that is executed is sent and reported on.
-/

namespace OdbcDriver.Execute

variable {x : ExecuteCall} {b : RowBounds} {w : Walk}

/-! ### What an execution is for -/

/-- The rows before `row` that are not ignored. -/
def usefulBelow (stmt : StatementClass) (row : Nat) : List Nat :=
  (List.range row).filter fun i => !isIgnored stmt i

/-- A row with the data that was supplied for it. -/
def asBound (stmt : StatementClass) (row : Nat) : Nat × List (Nat × Nat) :=
  (row, (dataAtExec stmt row).map (·, row))

/-- The execution has sent the rows that are not ignored, each once, in order and with its own
data; the status array holds the outcome of each, and calls an ignored row unused; and the rows are
counted. -/
structure Delivers (x : ExecuteCall) (w : Walk) : Prop where
  sent : w.sent.map (fun s => (s.row, s.supplied)) = (usefulRows x.stmt).map (asBound x.stmt)
  statuses : w.param_status_ptr.isSome = x.param_status_ptr.isSome
  outcome : ∀ statuses, w.param_status_ptr = some statuses → ∀ s ∈ w.sent,
    statuses s.row = s.answer.status
  unused : ∀ statuses, w.param_status_ptr = some statuses → ∀ row < x.size,
    isIgnored x.stmt row = true → statuses row = .unused
  processed : w.param_processed_ptr = x.param_processed_ptr.map fun _ => (usefulRows x.stmt).length

/-- What a call has to do. -/
def HandleCall.Met (b : RowBounds) : HandleCall → Prop
  | .execute x => ∃ w answer, SQLExecute x b = some (w, answer) ∧ Delivers x w
  | .resetParams => True

/-- Row by row: the bound left in the handle is that of this array, and no row but the last is
refused. -/
structure RowsSound (b : RowBounds) (x : ExecuteCall) : Prop where
  rows : SC_CanUseBatchProto x.stmt = false
  bound : b.exec_end_row < 0 ∨ b.exec_end_row = (x.size : Int) - 1
  answered : ∀ row ∈ usefulRows x.stmt, ∃ answer, x.request row = .answered answer
  accepted : ∀ row ∈ (usefulRows x.stmt).dropLast, x.request row ≠ .answered .error

/-- In a batch: the first row lies within the bound left in the handle, no data comes at
execution, and the batch is accepted. -/
structure BatchSound (b : RowBounds) (x : ExecuteCall) : Prop where
  batch : x.sendsBatch = true
  bound : b.exec_end_row < 0 ∨ ((usefulRows x.stmt).headD 0 : Int) ≤ b.exec_end_row
  bound_data : ∀ row ∈ usefulRows x.stmt, dataAtExec x.stmt row = []
  accepted : ∃ answer, x.request ((usefulRows x.stmt).headD 0) = .answered answer ∧ answer ≠ .error

/-- The condition on a call. -/
def HandleCall.Sound (b : RowBounds) : HandleCall → Prop
  | .execute x => x.described = true ∧ 0 < x.size ∧ (RowsSound b x ∨ BatchSound b x)
  | .resetParams => True

/-! ### Ignored rows -/

theorem skipIgnored_none {stmt : StatementClass} {row left : Nat}
    (h : skipIgnored stmt row left = none) :
    ∀ i, row ≤ i → i ≤ row + left → isIgnored stmt i = true := by
  induction left generalizing row with
  | zero =>
    intro i hi hi'
    obtain rfl : i = row := by omega
    rw [skipIgnored] at h
    by_contra hnot
    rw [if_neg hnot] at h
    exact nomatch h
  | succ left ih =>
    intro i hi hi'
    rw [skipIgnored] at h
    split at h
    next hrow =>
      rcases Nat.eq_or_lt_of_le hi with rfl | hlt
      · exact hrow
      · exact ih h i hlt (by omega)
    next => exact nomatch h

theorem skipIgnored_some {stmt : StatementClass} {row left r : Nat}
    (h : skipIgnored stmt row left = some r) :
    row ≤ r ∧ r ≤ row + left ∧ isIgnored stmt r = false ∧
      ∀ i, row ≤ i → i < r → isIgnored stmt i = true := by
  induction left generalizing row with
  | zero =>
    rw [skipIgnored] at h
    split at h
    next => exact nomatch h
    next hrow =>
      obtain rfl := Option.some.inj h
      exact ⟨le_refl _, le_refl _, Bool.eq_false_iff.mpr hrow, fun i hi hi' => by omega⟩
  | succ left ih =>
    rw [skipIgnored] at h
    split at h
    next hrow =>
      obtain ⟨hle, hle', hnot, hbetween⟩ := ih h
      refine ⟨by omega, by omega, hnot, fun i hi hi' => ?_⟩
      rcases Nat.eq_or_lt_of_le hi with rfl | hlt
      · exact hrow
      · exact hbetween i hlt hi'
    next hrow =>
      obtain rfl := Option.some.inj h
      exact ⟨le_refl _, by omega, Bool.eq_false_iff.mpr hrow, fun i hi hi' => by omega⟩

/-- The walk finds the first row that is not ignored, where one lies up to the last. -/
theorem skipIgnored_eq {stmt : StatementClass} {row left r : Nat} (hr : row ≤ r)
    (hr' : r ≤ row + left) (hnot : isIgnored stmt r = false)
    (h : ∀ i, row ≤ i → i < r → isIgnored stmt i = true) : skipIgnored stmt row left = some r := by
  cases hskip : skipIgnored stmt row left with
  | none => exact absurd (skipIgnored_none hskip r hr hr') (by rw [hnot]; exact Bool.false_ne_true)
  | some r' =>
    obtain ⟨hle, -, hnot', hbetween⟩ := skipIgnored_some hskip
    rcases Nat.lt_trichotomy r' r with hlt | rfl | hlt
    · exact absurd (h r' hle hlt) (by rw [hnot']; exact Bool.false_ne_true)
    · rfl
    · exact absurd (hbetween r hr hlt) (by rw [hnot]; exact Bool.false_ne_true)

theorem usefulBelow_succ (stmt : StatementClass) (row : Nat) :
    usefulBelow stmt (row + 1) =
      usefulBelow stmt row ++ if isIgnored stmt row then [] else [row] := by
  rw [usefulBelow, List.range_succ, List.filter_append]
  congr 1
  cases h : isIgnored stmt row <;> simp [h]

theorem usefulBelow_ignored {stmt : StatementClass} {row r : Nat} (hr : row ≤ r)
    (h : ∀ i, row ≤ i → i < r → isIgnored stmt i = true) :
    usefulBelow stmt r = usefulBelow stmt row := by
  induction r, hr using Nat.le_induction with
  | base => rfl
  | succ r hr ih =>
    rw [usefulBelow_succ, if_pos (h r hr (Nat.lt_succ_self r)), List.append_nil]
    exact ih fun i hi hi' => h i hi (Nat.lt_succ_of_lt hi')

theorem mem_usefulBelow {stmt : StatementClass} {row i : Nat} :
    i ∈ usefulBelow stmt row ↔ i < row ∧ isIgnored stmt i = false := by
  rw [usefulBelow, List.mem_filter, List.mem_range, Bool.not_eq_true']

theorem prefix_usefulBelow (stmt : StatementClass) {row r : Nat} (hr : row ≤ r) :
    usefulBelow stmt row <+: usefulBelow stmt r := by
  induction r, hr using Nat.le_induction with
  | base => exact List.prefix_rfl
  | succ r hr ih =>
    rw [usefulBelow_succ]
    exact ih.trans (List.prefix_append _ _)

/-- A row that is not ignored and has such a row behind it is not the last of them. -/
theorem mem_dropLast {stmt : StatementClass} {r i n : Nat} (hr : isIgnored stmt r = false)
    (hi : isIgnored stmt i = false) (hri : r < i) (hin : i < n) :
    r ∈ (usefulBelow stmt n).dropLast := by
  obtain ⟨rest, hrest⟩ := prefix_usefulBelow stmt (Nat.lt_trans hri hin : r + 1 ≤ n)
  have hne : rest ≠ [] := by
    rintro rfl
    rw [List.append_nil] at hrest
    have hmem : i ∈ usefulBelow stmt (r + 1) := hrest ▸ mem_usefulBelow.mpr ⟨hin, hi⟩
    have := (mem_usefulBelow.mp hmem).1
    omega
  rw [← hrest, List.dropLast_append_of_ne_nil hne]
  exact List.mem_append_left _ (mem_usefulBelow.mpr ⟨Nat.lt_succ_self r, hr⟩)

/-! ### Every execution ends -/

@[simp]
theorem supplyData_done (rows fuel : Nat) (w : Walk) (a : RowAnswer) :
    supplyData x rows fuel (some (w, .done a)) = some (w, a) := by
  cases fuel <;> rfl

theorem SC_execute_bounds {v : Walk} {a : RowAnswer} (h : SC_execute x w = (v, a))
    (ha : a ≠ .error) : v.bounds = w.bounds ∨ v.bounds = ⟨0, x.size, x.size⟩ := by
  rw [SC_execute] at h
  cases hreq : x.request w.row with
  | failed bound =>
    rw [hreq] at h
    exact absurd (Prod.mk.inj h).2.symm ha
  | answered answer =>
    simp only [hreq, Prod.mk.injEq] at h
    obtain ⟨rfl, -⟩ := h
    split
    · exact .inr rfl
    · exact .inl rfl

/-- Where the walk goes on behind a row, it moves by one, and has not reached the last. -/
theorem exec_moves {w' : Walk} {a : RowAnswer}
    (h : Exec_with_parameters_resolved x w = (w', a, false)) :
    w'.bounds = { w.bounds with exec_current_row := w.bounds.exec_current_row + 1 } ∧
      w.bounds.exec_current_row < w.bounds.last x.size := by
  obtain ⟨v, a', hexec⟩ : ∃ v a', SC_execute x w = (v, a') := ⟨_, _, rfl⟩
  have hbounds : ∀ u : Walk,
      (if u.bounds.last x.size ≤ u.bounds.exec_current_row then (u.at (-1), a', true)
        else (u.at (u.bounds.exec_current_row + 1), a', false)) = (w', a, false) →
      u.bounds = v.bounds → a' ≠ .error →
      w'.bounds = { w.bounds with exec_current_row := w.bounds.exec_current_row + 1 } ∧
        w.bounds.exec_current_row < w.bounds.last x.size := by
    intro u hends hu ha
    rw [hu] at hends
    split_ifs at hends with hlast
    · exact absurd (Prod.mk.inj (Prod.mk.inj hends).2).2 (by decide)
    · obtain rfl := (Prod.mk.inj hends).1
      rcases SC_execute_bounds hexec ha with hv | hv
      · rw [hv] at hlast
        exact ⟨by simp only [Walk.at, hu, hv], Int.not_le.mp hlast⟩
      · rw [hv] at hlast
        exact absurd (by
          change (if (x.size : Int) < 0 then (x.size : Int) - 1 else (x.size : Int)) ≤ x.size
          split <;> omega) hlast
  rw [Exec_with_parameters_resolved, hexec] at h
  by_cases ha : a' = .error
  · simp only [if_pos ha] at h
    exact nomatch (Prod.mk.inj (Prod.mk.inj h).2).2
  · simp only [if_neg ha] at h
    split at h
    · exact hbounds _ h rfl ha
    · exact hbounds _ h rfl ha

/-- The first row of an execution is the first of the array. -/
theorem first_eq (hstart : b.exec_start_row ≤ 0) (k : Int) :
    RowBounds.first { b with exec_current_row := k } = 0 := by
  change (if b.exec_start_row < 0 then 0 else b.exec_start_row) = 0
  split <;> omega

/-- Behind the first row `PGAPI_Execute` just goes on. -/
theorem execute_goes_on (rows : Nat) (hstart : w.bounds.exec_start_row ≤ 0)
    (hcurrent : 0 < w.bounds.exec_current_row) :
    PGAPI_Execute x rows w = nextParamRow x (w.bounds.last x.size) rows w := by
  have hfirst := first_eq hstart w.bounds.exec_current_row
  have hset : ¬w.bounds.exec_current_row < 0 := by omega
  have hlater : ¬w.bounds.exec_current_row = 0 := by omega
  simp only [PGAPI_Execute, hfirst, if_neg hset, if_neg hlater]

/-- The walk ends within the rows that are left. -/
theorem walk_ends {rows left : Nat} (hrows : left ≤ rows) :
    ∀ {fuel fuel' : Nat} {w : Walk}, w.bounds.exec_start_row ≤ 0 →
      w.bounds.last x.size < w.row + left → 0 < left → left ≤ fuel → left ≤ fuel' →
      (supplyData x rows fuel' (nextParamRow x (w.bounds.last x.size) fuel w)).isSome = true := by
  induction left using Nat.strong_induction_on with
  | _ left ih =>
    intro fuel fuel' w hstart hleft hpos hfuel hfuel'
    obtain ⟨fuel, rfl⟩ : ∃ f, fuel = f + 1 := ⟨fuel - 1, by omega⟩
    rw [nextParamRow]
    cases hskip : skipIgnored x.stmt w.row
        (w.bounds.last x.size - w.bounds.exec_current_row).toNat with
    | none => simp only [supplyData_done, Option.isSome_some]
    | some r =>
      obtain ⟨hr, -⟩ := skipIgnored_some hskip
      obtain ⟨w', a, goes, hexec⟩ : ∃ w' a goes,
          Exec_with_parameters_resolved x (w.begin x r) = (w', a, goes) := ⟨_, _, _, rfl⟩
      have hnext : goes = false → w'.bounds.exec_start_row ≤ 0 ∧
          w'.bounds.last x.size = w.bounds.last x.size ∧ w'.row = r + 1 ∧
            0 < w'.bounds.exec_current_row ∧ (r : Int) < w.bounds.last x.size := by
        rintro rfl
        obtain ⟨hbounds, hlt⟩ := exec_moves hexec
        rw [hbounds, Walk.row, hbounds]
        exact ⟨hstart, rfl, show ((r : Int) + 1).toNat = r + 1 by omega,
          show 0 < (r : Int) + 1 by omega, hlt⟩
      dsimp only
      split
      next =>
        obtain ⟨fuel', rfl⟩ : ∃ f, fuel' = f + 1 := ⟨fuel' - 1, by omega⟩
        rw [supplyData, PGAPI_ParamData, hexec]
        cases goes with
        | true => simp only [supplyData_done, Option.isSome_some]
        | false =>
          obtain ⟨hstart', hlast, hrow, hcurrent, hlt⟩ := hnext rfl
          simp only [execute_goes_on rows hstart' hcurrent]
          exact ih (left - 1) (by omega) (by omega) hstart' (by omega) (by omega) (by omega)
            (by omega)
      next =>
        rw [hexec]
        cases goes with
        | true => simp only [supplyData_done, Option.isSome_some]
        | false =>
          obtain ⟨hstart', hlast, hrow, -, hlt⟩ := hnext rfl
          rw [← hlast]
          exact ih (left - 1) (by omega) (by omega) hstart' (by omega) (by omega) (by omega)
            (by omega)

/-! ### Row by row -/

/-- What the walk has done when `row` is next: the rows before it are sent and reported on, and
the rows of the array from it on are unused. -/
structure Progress (b : RowBounds) (x : ExecuteCall) (row : Nat) (w : Walk) : Prop where
  bounds : w.bounds = { b with exec_current_row := row }
  sent : w.sent.map (fun s => (s.row, s.supplied)) = (usefulBelow x.stmt row).map (asBound x.stmt)
  statuses : w.param_status_ptr.isSome = x.param_status_ptr.isSome
  outcome : ∀ statuses, w.param_status_ptr = some statuses → ∀ s ∈ w.sent,
    statuses s.row = s.answer.status
  unused : ∀ statuses, w.param_status_ptr = some statuses → ∀ i < x.size,
    row ≤ i ∨ isIgnored x.stmt i = true → statuses i = .unused
  processed : w.param_processed_ptr = x.param_processed_ptr.map fun _ =>
    (usefulBelow x.stmt row).length

theorem Progress.row_eq {row : Nat} (h : Progress b x row w) : w.row = row := by
  rw [Walk.row, h.bounds]
  rfl

theorem Progress.row_lt {row : Nat} (h : Progress b x row w) : ∀ s ∈ w.sent, s.row < row := by
  intro s hs
  have hmem : (s.row, s.supplied) ∈ (usefulBelow x.stmt row).map (asBound x.stmt) := by
    rw [← h.sent]
    exact List.mem_map_of_mem hs
  obtain ⟨i, hi, hs'⟩ := List.mem_map.mp hmem
  rw [← (Prod.mk.inj hs').1]
  exact List.mem_range.mp (List.mem_filter.mp hi).1

/-- Behind the last row that is not ignored the execution has done its work. -/
theorem Progress.delivers {row : Nat} (h : Progress b x row w) (hrow : row ≤ x.size)
    (hrest : ∀ i, row ≤ i → i < x.size → isIgnored x.stmt i = true) (k : Int) :
    Delivers x (w.at k) := by
  have huseful : usefulRows x.stmt = usefulBelow x.stmt row := usefulBelow_ignored hrow hrest
  exact
    { sent := by rw [huseful]; exact h.sent
      statuses := h.statuses
      outcome := h.outcome
      unused := fun statuses hs i hi hignored => h.unused statuses hs i hi (.inr hignored)
      processed := by rw [huseful]; exact h.processed }

/-- A row is sent, and the walk moves behind it, to `next`. -/
theorem Progress.send {row r : Nat} {a : RowAnswer} (statuses : Option (Nat → ParamStatus))
    (h : Progress b x row w) (hr : row ≤ r) (hnot : isIgnored x.stmt r = false)
    (hbetween : ∀ i, row ≤ i → i < r → isIgnored x.stmt i = true)
    (hsome : statuses.isSome = w.param_status_ptr.isSome)
    (hstatus : ∀ f, statuses = some f → ∃ g, w.param_status_ptr = some g ∧
      f r = a.status ∧ ∀ i, i ≠ r → f i = g i) :
    Progress b x (r + 1)
      { bounds := { b with exec_current_row := ((r + 1 : Nat) : Int) }
        supplied := (dataAtExec x.stmt r).map (·, r)
        param_status_ptr := statuses
        param_processed_ptr := w.param_processed_ptr.map (· + 1)
        sent := w.sent ++ [⟨r, (dataAtExec x.stmt r).map (·, r), a⟩] } := by
  have huseful : usefulBelow x.stmt (r + 1) = usefulBelow x.stmt row ++ [r] := by
    rw [usefulBelow_succ, hnot, usefulBelow_ignored hr hbetween]
    rfl
  refine
    { bounds := rfl
      sent := ?_
      statuses := hsome.trans h.statuses
      outcome := ?_
      unused := ?_
      processed := ?_ }
  · rw [huseful, List.map_append, List.map_append, h.sent]
    rfl
  · intro f hf s hs
    obtain ⟨g, hg, hfr, hfi⟩ := hstatus f hf
    rcases List.mem_append.mp hs with hs | hs
    · rw [hfi s.row (by have := h.row_lt s hs; omega)]
      exact h.outcome g hg s hs
    · rw [List.mem_singleton.mp hs]
      exact hfr
  · intro f hf i hi hcases
    obtain ⟨g, hg, -, hfi⟩ := hstatus f hf
    have hne : i ≠ r := by
      rintro rfl
      rcases hcases with hle | hignored
      · omega
      · rw [hnot] at hignored
        exact absurd hignored Bool.false_ne_true
    rw [hfi i hne]
    exact h.unused g hg i hi (hcases.imp_left fun hle => by omega)
  · rw [h.processed, huseful, Option.map_map, List.length_append]
    rfl

theorem SC_execute_row {a : RowAnswer} (hsends : x.sendsBatch = false)
    (hreq : x.request w.row = .answered a) :
    SC_execute x w = ({ w with sent := w.sent ++ [⟨w.row, w.supplied, a⟩] }, a) := by
  simp only [SC_execute, hreq, hsends, Bool.false_eq_true, if_false]

theorem exec_refused {v : Walk} (h : SC_execute x w = (v, .error)) :
    Exec_with_parameters_resolved x w = (v.at (-1), .error, true) := by
  simp only [Exec_with_parameters_resolved, h, if_true]

theorem exec_accepted {v : Walk} {a : RowAnswer} (h : SC_execute x w = (v, a)) (ha : a ≠ .error)
    (hbatch : SC_CanUseBatchProto x.stmt = false) :
    Exec_with_parameters_resolved x w =
      if v.bounds.last x.size ≤ v.bounds.exec_current_row then
        ((SetIPDField x a.status v).at (-1), a, true)
      else ((SetIPDField x a.status v).at (v.bounds.exec_current_row + 1), a, false) := by
  simp only [Exec_with_parameters_resolved, h, if_neg ha, hbatch, Bool.false_eq_true, if_false]
  rfl

/-- **One row.** -/
theorem exec_row {row r : Nat} {a : RowAnswer} (hbatch : SC_CanUseBatchProto x.stmt = false)
    (h : Progress b x row w) (hr : row ≤ r) (hnot : isIgnored x.stmt r = false)
    (hbetween : ∀ i, row ≤ i → i < r → isIgnored x.stmt i = true)
    (hreq : x.request r = .answered a) :
    ∃ w', Progress b x (r + 1) w' ∧ Exec_with_parameters_resolved x (w.begin x r) =
      if a = .error ∨ b.last x.size ≤ r then (w'.at (-1), a, true) else (w', a, false) := by
  let v : Walk := { w.begin x r with
    bounds := { b with exec_current_row := r }
    sent := w.sent ++ [⟨r, (dataAtExec x.stmt r).map (·, r), a⟩] }
  have hsends : x.sendsBatch = false := by rw [ExecuteCall.sendsBatch, hbatch]; rfl
  have hexec : SC_execute x (w.begin x r) = (v, a) := by
    rw [SC_execute_row (w := w.begin x r) hsends hreq]
    simp only [Walk.begin, h.bounds, v]
    rfl
  by_cases herror : a = .error
  · subst herror
    refine ⟨_, h.send (a := .error) v.param_status_ptr hr hnot hbetween ?_ ?_, ?_⟩
    · exact Option.isSome_map
    · intro f hf
      obtain ⟨g, hg, rfl⟩ := Option.map_eq_some_iff.mp hf
      exact ⟨g, hg, if_pos rfl, fun i hi => if_neg hi⟩
    · rw [if_pos (.inl rfl), exec_refused hexec]
      rfl
  · refine ⟨_, h.send (a := a) (SetIPDField x a.status v).param_status_ptr hr hnot hbetween ?_ ?_, ?_⟩
    · exact Option.isSome_map.trans Option.isSome_map
    · intro f hf
      obtain ⟨g', hg', rfl⟩ := Option.map_eq_some_iff.mp hf
      obtain ⟨g, hg, rfl⟩ := Option.map_eq_some_iff.mp hg'
      simp only [hbatch, Bool.false_eq_true, if_false]
      exact ⟨g, hg, if_pos rfl, fun i hi => (if_neg hi).trans (if_neg hi)⟩
    · rw [exec_accepted hexec herror hbatch]
      simp only [herror, false_or]
      rfl

@[simp]
theorem Walk.at_bounds (w : Walk) (k : Int) :
    (w.at k).bounds = { w.bounds with exec_current_row := k } := rfl

/-- **The walk row by row.** It is followed from the current row to the end, through every
interruption for data at execution; the induction is on the rows that are left. -/
theorem walk_delivers (hsound : RowsSound b x) (hstart : b.exec_start_row ≤ 0) {rows : Nat}
    (hrows : x.size ≤ rows) {left : Nat} :
    ∀ {row fuel fuel' : Nat} {w : Walk}, row + left = x.size → 0 < left → left ≤ fuel →
      left ≤ fuel' → Progress b x row w →
      ∃ w' a, supplyData x rows fuel' (nextParamRow x (b.last x.size) fuel w) = some (w', a) ∧
        Delivers x w' ∧ w'.bounds = { b with exec_current_row := -1 } := by
  have hlast : b.last x.size = (x.size : Int) - 1 := by
    have hbound := hsound.bound
    rw [RowBounds.last]
    split <;> omega
  induction left using Nat.strong_induction_on with
  | _ left ih =>
    intro row fuel fuel' w hsize hleft hfuel hfuel' h
    obtain ⟨fuel, rfl⟩ : ∃ f, fuel = f + 1 := ⟨fuel - 1, by omega⟩
    have htoLast : (b.last x.size - w.bounds.exec_current_row).toNat = x.size - 1 - row := by
      rw [h.bounds, hlast]
      simp only
      omega
    rw [nextParamRow, h.row_eq, htoLast]
    cases hskip : skipIgnored x.stmt row (x.size - 1 - row) with
    | none =>
      have hignored := skipIgnored_none hskip
      exact ⟨_, _, supplyData_done _ _ _ _,
        h.delivers (by omega) (fun i hi hi' => hignored i hi (by omega)) _, by
          rw [Walk.at_bounds, h.bounds]⟩
    | some r =>
      obtain ⟨hr, hr', hnot, hbetween⟩ := skipIgnored_some hskip
      have huseful : r ∈ usefulRows x.stmt := mem_usefulBelow.mpr
        ⟨show r < x.size by omega, hnot⟩
      obtain ⟨a, hreq⟩ := hsound.answered r huseful
      obtain ⟨w', hw', hexec⟩ := exec_row hsound.rows h hr hnot hbetween hreq
      -- the walk ends at a row that is refused, and at the last
      have hends : a = .error ∨ b.last x.size ≤ r → Delivers x (w'.at (-1)) := fun hend =>
        hw'.delivers (by omega) (fun i hi hi' => by
          by_contra hi''
          have hmem := mem_dropLast hnot (Bool.eq_false_iff.mpr hi'') (by omega) hi'
          rcases hend with rfl | hend
          · exact hsound.accepted r hmem hreq
          · omega) _
      have hbounds : (w'.at (-1)).bounds = { b with exec_current_row := -1 } := by
        rw [Walk.at_bounds, hw'.bounds]
      have hgoes : ¬(a = .error ∨ b.last x.size ≤ r) → r + 1 + (x.size - (r + 1)) = x.size ∧
          0 < x.size - (r + 1) ∧ x.size - (r + 1) < left := by
        intro hnext
        have : ¬b.last x.size ≤ r := fun hle => hnext (.inr hle)
        omega
      dsimp only
      split
      next =>
        -- the data of the row is supplied first
        obtain ⟨fuel', rfl⟩ : ∃ f, fuel' = f + 1 := ⟨fuel' - 1, by omega⟩
        rw [supplyData, PGAPI_ParamData, hexec]
        split_ifs with hend
        · exact ⟨_, _, supplyData_done _ _ _ _, hends hend, hbounds⟩
        · obtain ⟨hsize', hleft', hlt⟩ := hgoes hend
          have hstart' : w'.bounds.exec_start_row ≤ 0 := by rw [hw'.bounds]; exact hstart
          have hcurrent : 0 < w'.bounds.exec_current_row := by rw [hw'.bounds]; simp only; omega
          have hlast' : w'.bounds.last x.size = b.last x.size := by rw [hw'.bounds]; rfl
          simp only [execute_goes_on rows hstart' hcurrent, hlast']
          exact ih _ hlt hsize' hleft' (by omega) (by omega) hw'
      next =>
        rw [hexec]
        split_ifs with hend
        · exact ⟨_, _, supplyData_done _ _ _ _, hends hend, hbounds⟩
        · obtain ⟨hsize', hleft', hlt⟩ := hgoes hend
          exact ih _ hlt hsize' hleft' (by omega) (by omega) hw'

/-! ### An execution -/

/-- The walk when an execution begins. -/
def startWalk (x : ExecuteCall) (b : RowBounds) : Walk where
  bounds := { b with exec_current_row := 0 }
  supplied := []
  param_status_ptr := x.param_status_ptr.map fun statuses i =>
    if SC_CanUseBatchProto x.stmt = false ∧ (i : Int) ≤ b.last x.size then .unused else statuses i
  param_processed_ptr := x.param_processed_ptr.map fun _ => 0
  sent := []

theorem execute_start (hstart : b.exec_start_row ≤ 0) (hdescribed : x.described = true) :
    SQLExecute x b = supplyData x (x.rows b) (x.rows b)
      (nextParamRow x (b.last x.size) (x.rows b) (startWalk x b)) := by
  have hset : (-1 : Int) < 0 := by decide
  simp only [SQLExecute, PGAPI_Execute, first_eq hstart, if_pos hset, Walk.at, if_true, hdescribed]
  rfl

/-- **Every execution ends.** -/
theorem execute_ends (x : ExecuteCall) (hstart : b.exec_start_row ≤ 0) :
    (SQLExecute x b).isSome = true := by
  cases hdescribed : x.described with
  | false =>
    have hset : (-1 : Int) < 0 := by decide
    simp only [SQLExecute, PGAPI_Execute, first_eq hstart, if_pos hset, Walk.at, if_true, hdescribed,
      Bool.false_eq_true, if_false, supplyData_done, Option.isSome_some]
  | true =>
    rw [execute_start hstart hdescribed]
    have hrow : (startWalk x b).row = 0 := rfl
    have hlast : (startWalk x b).bounds.last x.size = b.last x.size := rfl
    rw [← hlast]
    refine walk_ends (le_refl (x.rows b)) hstart ?_ ?_ (le_refl _) (le_refl _)
    · rw [hrow, hlast, ExecuteCall.rows]
      omega
    · exact Nat.succ_pos _

theorem start_progress (hbatch : SC_CanUseBatchProto x.stmt = false)
    (hlast : (x.size : Int) - 1 ≤ b.last x.size) : Progress b x 0 (startWalk x b) where
  bounds := rfl
  sent := rfl
  statuses := Option.isSome_map
  outcome _ _ := fun s hs => absurd hs List.not_mem_nil
  unused f hf i hi _ := by
    obtain ⟨g, -, rfl⟩ := Option.map_eq_some_iff.mp hf
    exact if_pos ⟨hbatch, by omega⟩
  processed := rfl

theorem rows_delivers (hsound : RowsSound b x) (hstart : b.exec_start_row ≤ 0)
    (hdescribed : x.described = true) (hsize : 0 < x.size) :
    ∃ w a, SQLExecute x b = some (w, a) ∧ Delivers x w ∧
      w.bounds = { b with exec_current_row := -1 } := by
  have hlast : b.last x.size = (x.size : Int) - 1 := by
    have hbound := hsound.bound
    rw [RowBounds.last]
    split <;> omega
  have hrows : x.size ≤ x.rows b := by
    rw [ExecuteCall.rows, hlast]
    omega
  rw [execute_start hstart hdescribed]
  exact walk_delivers hsound hstart hrows (Nat.zero_add _) hsize hrows hrows
    (start_progress hsound.rows (by omega))

/-- The rows before the first that is not ignored. -/
theorem ignored_of_head {stmt : StatementClass} {n k : Nat} {rest : List Nat}
    (h : usefulBelow stmt n = k :: rest) :
    k < n ∧ isIgnored stmt k = false ∧ ∀ i, i < k → isIgnored stmt i = true := by
  obtain ⟨hk, hnot⟩ := mem_usefulBelow.mp (h ▸ List.mem_cons_self : k ∈ usefulBelow stmt n)
  refine ⟨hk, hnot, fun i hi => ?_⟩
  by_contra hi'
  have hmem : i ∈ usefulBelow stmt k := mem_usefulBelow.mpr ⟨hi, Bool.eq_false_iff.mpr hi'⟩
  obtain ⟨j, tail, hcons⟩ := List.exists_cons_of_ne_nil (List.ne_nil_of_mem hmem)
  have hfront := prefix_usefulBelow stmt (Nat.le_of_lt hk)
  rw [h, hcons, List.cons_prefix_cons] at hfront
  have hself : k ∈ usefulBelow stmt k := by
    rw [hcons, hfront.1]
    exact List.mem_cons_self
  exact absurd (mem_usefulBelow.mp hself).1 (lt_irrefl k)

/-- **A batch.** -/
theorem batch_delivers (hsound : BatchSound b x) (hstart : b.exec_start_row ≤ 0)
    (hdescribed : x.described = true) :
    ∃ w a, SQLExecute x b = some (w, a) ∧ Delivers x w ∧ w.bounds = ⟨0, x.size, -1⟩ := by
  have hcan : SC_CanUseBatchProto x.stmt = true := (Bool.and_eq_true_iff.mp hsound.batch).1
  obtain ⟨k, rest, huseful⟩ : ∃ k rest, usefulRows x.stmt = k :: rest := by
    refine List.exists_cons_of_ne_nil fun hnil => ?_
    simp [SC_CanUseBatchProto, hnil] at hcan
  obtain ⟨hk, hnot, hbefore⟩ := ignored_of_head huseful
  have hhead : (usefulRows x.stmt).headD 0 = k := by rw [huseful]; rfl
  obtain ⟨a, hreq, ha⟩ := hsound.accepted
  have hbound := hsound.bound
  rw [hhead] at hreq hbound
  have hsize : (k : Int) < (x.size : Int) := by exact_mod_cast hk
  have hreach : 0 + (b.last x.size - 0).toNat ≥ k := by
    rw [RowBounds.last]
    split <;> omega
  have hskip := skipIgnored_eq (Nat.zero_le k) hreach hnot fun i _ hi => hbefore i hi
  have hnone : dataAtExec x.stmt k = [] :=
    hsound.bound_data k (by rw [huseful]; exact List.mem_cons_self)
  have hexec : SC_execute x ((startWalk x b).begin x k) = ({ (startWalk x b).begin x k with
      bounds := ⟨0, x.size, x.size⟩
      sent := (usefulRows x.stmt).map fun row => ⟨row, [], a⟩ }, a) := by
    have hrow : ((startWalk x b).begin x k).row = k := rfl
    simp only [SC_execute, hrow, hreq, hsound.batch, if_true]
    simp only [Walk.begin, hnone, startWalk, List.map_nil, List.nil_append]
  let v : Walk :=
    { bounds := ⟨0, x.size, -1⟩
      supplied := []
      param_status_ptr := ((startWalk x b).begin x k).param_status_ptr.map fun statuses i =>
        if i < x.size then if isIgnored x.stmt i then .unused else a.status else statuses i
      param_processed_ptr := x.param_processed_ptr.map fun _ => (usefulRows x.stmt).length
      sent := (usefulRows x.stmt).map fun row => ⟨row, [], a⟩ }
  have hresolved : Exec_with_parameters_resolved x ((startWalk x b).begin x k) = (v, a, true) := by
    have hend : RowBounds.last ⟨0, x.size, x.size⟩ x.size ≤ (x.size : Int) := by
      change (if (x.size : Int) < 0 then (x.size : Int) - 1 else (x.size : Int)) ≤ x.size
      split <;> omega
    simp only [Exec_with_parameters_resolved, hexec, if_neg ha, hcan, if_true, SetIPDField]
    rw [if_pos hend]
    simp only [v, Walk.at, Walk.begin, Walk.row, hnone, startWalk, Option.map_map,
      Int.toNat_natCast]
    rfl
  have hrun : SQLExecute x b = some (v, a) := by
    rw [execute_start hstart hdescribed, ExecuteCall.rows, nextParamRow]
    have hrow : (startWalk x b).row = 0 := rfl
    have hcurrent : (startWalk x b).bounds.exec_current_row = 0 := rfl
    have hsupplied : ¬((startWalk x b).begin x k).supplied ≠ [] := by
      simp [Walk.begin, hnone]
    rw [hrow, hcurrent, hskip]
    simp only [if_neg hsupplied, hresolved]
    exact supplyData_done _ _ _ _
  refine ⟨v, a, hrun, ⟨?_, ?_, ?_, ?_, rfl⟩, rfl⟩
  · simp only [v, List.map_map]
    refine List.map_congr_left fun row hrow => ?_
    simp only [Function.comp_apply, asBound, hsound.bound_data row hrow, List.map_nil]
  · exact Option.isSome_map.trans (Option.isSome_map.trans Option.isSome_map)
  · intro f hf s hs
    obtain ⟨g, -, rfl⟩ := Option.map_eq_some_iff.mp hf
    obtain ⟨row, hrow, rfl⟩ := List.mem_map.mp hs
    obtain ⟨hlt, hrow'⟩ := mem_usefulBelow.mp hrow
    simp only
    rw [if_pos (show row < x.size from hlt), hrow', if_neg Bool.false_ne_true]
  · intro f hf row hrow hignored
    obtain ⟨g, -, rfl⟩ := Option.map_eq_some_iff.mp hf
    simp only
    rw [if_pos hrow, if_pos hignored]

/-! ### The handle -/

/-- **One call.** The first row that the handle keeps is never another than the first. -/
theorem call_met {call : HandleCall} (hstart : b.exec_start_row ≤ 0) (h : call.Sound b) :
    call.Met b ∧ (handleMachine.step b call).1.exec_start_row ≤ 0 := by
  cases call with
  | resetParams => exact ⟨trivial, show (-1 : Int) ≤ 0 by decide⟩
  | execute x =>
    obtain ⟨hdescribed, hsize, hrows | hbatch⟩ := h
    · obtain ⟨w, a, hrun, hdelivers, hbounds⟩ := rows_delivers hrows hstart hdescribed hsize
      refine ⟨⟨w, a, hrun, hdelivers⟩, ?_⟩
      simp only [handleMachine, hrun, Option.map_some, Option.getD_some, hbounds]
      exact hstart
    · obtain ⟨w, a, hrun, hdelivers, hbounds⟩ := batch_delivers hbatch hstart hdescribed
      refine ⟨⟨w, a, hrun, hdelivers⟩, ?_⟩
      simp only [handleMachine, hrun, Option.map_some, Option.getD_some, hbounds]
      exact le_refl 0

/-- **The rows of every execution.** In a run of the handle whose calls all find their rows within
the bounds, and have them accepted, every execution sends the rows that are not ignored and reports
on each. -/
theorem rows_executed {calls : List HandleCall}
    (h : handleMachine.AllSteps (fun b call => call.Sound b) .unset calls) :
    handleMachine.AllSteps (fun b call => call.Met b) .unset calls :=
  Machine.allSteps_of (fun b _ (hstart : b.exec_start_row ≤ 0) hsound => call_met hstart hsound)
    (by decide) h

/-! ### Two executions -/

/-- An insert of `n` rows with one parameter, whose data is bound; each request is accepted. -/
def insertRows (n : Nat) : ExecuteCall where
  stmt := { twoRows .char .varchar 1 with
    apdopts := { (twoRows .char .varchar 1).apdopts with paramset_size := n } }
  multi_statement := false
  described := true
  param_status_ptr := some fun _ => .unused
  param_processed_ptr := some 0
  request := fun _ => .answered .success

/-- Two batches, and a single row once the parameters have been reset. -/
theorem rows_executed_insert :
    handleMachine.AllSteps (fun b call => call.Met b) .unset
      [.execute (insertRows 2), .execute (insertRows 3), .resetParams, .execute (insertRows 1)] := by
  have hfirst : BatchSound .unset (insertRows 2) :=
    ⟨by decide, by decide, by decide, .success, rfl, by decide⟩
  have hsecond : BatchSound ⟨0, 2, -1⟩ (insertRows 3) :=
    ⟨by decide, by decide, by decide, .success, rfl, by decide⟩
  have hthird : RowsSound .unset (insertRows 1) :=
    ⟨by decide, by decide, fun _ _ => ⟨.success, rfl⟩, fun _ _ => nofun⟩
  exact rows_executed
    ⟨⟨rfl, by decide, .inr hfirst⟩, ⟨rfl, by decide, .inr hsecond⟩, trivial,
      ⟨rfl, by decide, .inl hthird⟩, trivial⟩

/-- A single row behind a batch of two: the rows behind the end of the array go out as well. -/
theorem rows_sent_beyond_array :
    ¬handleMachine.AllSteps (fun b call => call.Met b) .unset
      [.execute (insertRows 2), .execute (insertRows 1)] := by
  rintro ⟨-, ⟨w, a, hrun, hdelivers⟩, -⟩
  have hsent : (SQLExecute (insertRows 1)
      (handleMachine.step .unset (.execute (insertRows 2))).1).map
        (fun r => r.1.sent.map fun s => (s.row, s.supplied)) = some [(0, []), (1, []), (2, [])] := by
    decide
  rw [hrun, Option.map_some, hdelivers.sent] at hsent
  exact absurd hsent (by decide)

end OdbcDriver.Execute
