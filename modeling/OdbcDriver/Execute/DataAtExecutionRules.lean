import OdbcDriver.Execute.DataAtExecution
import OdbcDriver.Execute.RowRuns

/-!
# Which parameters are asked for, and when a row is sent

An execution asks for the parameters of its rows in order, and sends a row once their data is
there. Two things go wrong. In a batch the data is asked for in the first row only, and all rows
are sent with it. And the end of an execution leaves the number of parameters still to be asked
for at 0, which `SQLParamData` takes for a row that is ready: it sends one more.

Between the calls the statement either waits for the data of a row (`Asking`) or for nothing.
While it waits, the numbers it keeps say how far in the row it has got; a parameter that was asked
for and passed over without data (`Lost`) keeps the row from being sent.
-/

namespace OdbcDriver.Execute.DataAtExecution

open Below (below)

variable {conn : ConnectionClass} {x : ExecuteCall} {h : Handle} {row : Nat}

/-! ### What the calls are for -/

/-- What an execution asks for in these rows: each parameter with data at execution. -/
def requests (stmt : StatementClass) (rows : List Nat) : List (Nat × Nat) :=
  rows.flatMap fun row => (dataAtExec stmt row).map (·, row)

/-- What was asked for and what was sent so far is in the order of the rows that are not ignored,
and of their parameters; every row was sent with the data that was supplied for it. -/
structure InOrder (x : ExecuteCall) (h : Handle) : Prop where
  requested : h.requested <+: requests x.stmt (usefulRows x.stmt)
  sent : h.walk.sent.map (fun s => (s.row, s.supplied)) <+:
    (usefulRows x.stmt).map (asBound x.stmt)

/-- Everything was asked for, and every row sent. -/
structure Complete (x : ExecuteCall) (h : Handle) : Prop where
  requested : h.requested = requests x.stmt (usefulRows x.stmt)
  sent : h.walk.sent.map (·.row) = usefulRows x.stmt

/-- What a call has to do: it returns with everything in order, and where it ends an execution
that no row has failed, all has been done. -/
def Call.Met (conn : ConnectionClass) (s : Session) (call : Call) : Prop :=
  ∃ s' r, s.perform conn call = some (s', r) ∧ InOrder s'.execution s'.handle ∧
    ∀ answer, r = .returned (.done answer) → answer ≠ .error → Complete s'.execution s'.handle

/-- Nothing is asked for twice. -/
theorem requests_nodup (stmt : StatementClass) {rows : List Nat} (hrows : rows.Nodup) :
    (requests stmt rows).Nodup := by
  refine List.nodup_flatMap.mpr ⟨fun row _ => ?_, hrows.imp fun hne => ?_⟩
  · exact (Below.below_nodup (atExec stmt row) stmt.num_params).map
      fun i j hij => (Prod.mk.inj hij).1
  · rintro ⟨i, r⟩ hfirst hsecond
    obtain ⟨_, -, hi⟩ := List.mem_map.mp hfirst
    obtain ⟨_, -, hj⟩ := List.mem_map.mp hsecond
    exact hne ((Prod.mk.inj hi).2.trans (Prod.mk.inj hj).2.symm)

/-! ### The condition -/

/-- The statement waits for the data of a row. -/
def Handle.AsksData (h : Handle) : Prop := 0 < h.data_at_exec ∨ 0 ≤ h.current_exec_param

instance (h : Handle) : Decidable h.AsksData := inferInstanceAs (Decidable (_ ∨ _))

/-- The bound left in the handle is not in the way, a batch has no data at execution, and an
execution that was left in the middle is followed by one that comes to a row. -/
structure ExecuteSound (x : ExecuteCall) (h : Handle) : Prop where
  size : 0 < x.size
  rows : x.sendsBatch = false →
    h.walk.bounds.exec_end_row < 0 ∨ h.walk.bounds.exec_end_row = (x.size : Int) - 1
  batch : x.sendsBatch = true → (h.walk.bounds.exec_end_row < 0 ∨
      ((usefulRows x.stmt).headD 0 : Int) ≤ h.walk.bounds.exec_end_row) ∧
    ∀ row ∈ usefulRows x.stmt, dataAtExec x.stmt row = []
  left : h.AsksData → x.described = true ∧ usefulRows x.stmt ≠ []

/-- The execution has not ended, and the parameter asked for last has been supplied, or is one
that the row cannot be sent without. -/
structure ParamDataSound (x : ExecuteCall) (h : Handle) : Prop where
  waits : h.data_at_exec = 0 → 0 ≤ h.current_exec_param
  supplied : 0 ≤ h.current_exec_param →
    (h.current_exec_param.toNat, h.walk.row) ∈ h.walk.supplied ∨
      isRead x.stmt h.current_exec_param.toNat = true ∧
        hasData (h.pdata h.current_exec_param.toNat) = false

/-- The condition on a call. -/
def Call.Sound (s : Session) : Call → Prop
  | .execute x => ExecuteSound x s.handle
  | .paramData _ => ParamDataSound s.execution s.handle
  | .putData _ _ => True

/-! ### The marked parameters -/

/-- The parameters that are not bound have no data at execution. -/
theorem below_numParams (x : ExecuteCall) (row : Nat) :
    below (atExec x.stmt row) (numParams x) = dataAtExec x.stmt row := by
  refine (Below.below_skip (min_le_left _ _) fun i hi hi' => ?_).symm
  have hlen : x.stmt.apdopts.parameters.length ≤ i := by omega
  rw [atExec, List.getElem?_eq_none hlen]
  rfl

/-- What is asked for up to a row that is not ignored, and in that row. -/
theorem requests_succ {stmt : StatementClass} (huseful : isIgnored stmt row = false) :
    requests stmt (usefulBelow stmt (row + 1)) =
      requests stmt (usefulBelow stmt row) ++ (dataAtExec stmt row).map (·, row) := by
  rw [usefulBelow_succ, huseful, requests, List.flatMap_append]
  exact congrArg _ (List.append_nil _)

/-! ### A parameter without data -/

/-- A parameter that is read and has no data cannot be resolved: no request is made for the row
while `Handle.lacks` says so. `ipara` is the parameter in the IPD. -/
theorem ResolveOneParam_lacks (env : Env) {qb : QueryBuild} (qp : Option OldPos)
    {apara : ParameterInfoClass}
    (hmode : qb.param_mode ≠ .fakeParams ∧ qb.param_mode ≠ .buildingPrepareStatement)
    (hapara : qb.apdopts.parameters[(qb.param_number + 1).toNat]? = some apara)
    (hmark : apara.data_at_exec = true) (hread : qb.proc_return ≤ qb.param_number + 1)
    (hin : qb.ipdopts.parameters[(qb.param_number + 1).toNat]?.map (·.paramType) ≠ some .output)
    (hused : ∀ used, (pdataOf qb.pdata (qb.param_number + 1)).EXEC_used = some used → 0 ≤ used)
    (hnone : hasData (pdataOf qb.pdata (qb.param_number + 1)) = false) :
    ∃ e, ResolveOneParam env qb qp = .error e := by
  cases hipara : qb.ipdopts.parameters[(qb.param_number + 1).toNat]? with
  | none =>
    refine ⟨.error .countField, ?_⟩
    simp only [ResolveOneParam, hipara, Option.isNone_none, or_true, true_and, ne_eq]
    exact if_pos hmode
  | some ipara =>
    rw [hipara] at hin
    have hinput : ipara.paramType ≠ .output := fun h => hin (congrArg some h)
    obtain ⟨hbuffer, hlobj⟩ := Bool.or_eq_false_iff.mp hnone
    have hbuffer : (pdataOf qb.pdata (qb.param_number + 1)).EXEC_buffer = none :=
      Option.isSome_eq_false_iff.mp hbuffer |> Option.isNone_iff_eq_none.mp
    have hlength : ∀ n < (0 : Int), n ≠ SQL_NTS →
        (pdataOf qb.pdata (qb.param_number + 1)).EXEC_used.getD SQL_NTS ≠ n := by
      intro n hn hnts heq
      cases hsome : (pdataOf qb.pdata (qb.param_number + 1)).EXEC_used with
      | none => exact hnts (by rw [← heq, hsome]; rfl)
      | some used =>
        have := hused used hsome
        rw [hsome, Option.getD_some] at heq
        omega
    refine ⟨.error .unexpectedNull, ?_⟩
    have hfinds : resolveData env qb.conn qb.param_mode qb.flags
        (env.lo qb.current_row (qb.param_number + 1))
        (pdataOf qb.pdata (qb.param_number + 1)).lobj_oid apara ipara
        (putData (pdataOf qb.pdata (qb.param_number + 1))) = .error (.error .unexpectedNull) := by
      have hnull := hlength SQL_NULL_DATA (by decide) (by decide)
      have hdefault := hlength SQL_DEFAULT_PARAM (by decide) (by decide)
      simp only [resolveData, putData, hbuffer, hinput, hnull, hdefault, hmode.1, hlobj, or_self,
        if_false, and_false, Bool.not_false, and_self, if_true]
    have hvalue : resolveValue env { qb with param_number := qb.param_number + 1 } qp apara ipara =
        .error (.error .unexpectedNull) := by
      simp only [resolveValue, paramData, hmark, if_true, hfinds]
      rfl
    simp only [ResolveOneParam, hapara, hipara, Option.isNone_some, Option.map_some,
      Option.some.injEq, hinput, hmode.2, not_lt.mpr hread, Bool.false_eq_true, or_self, false_and,
      if_false, hvalue]

/-! ### One row -/

/-- What sending a row comes to: it cannot be made, or it is sent and answered. -/
theorem exec_cases {w : Walk} (hrows : x.sendsBatch = false) :
    ∃ v a e, Execute.Exec_with_parameters_resolved x w = (v, a, e) ∧
      v.bounds = { w.bounds with
        exec_current_row := if e then -1 else w.bounds.exec_current_row + 1 } ∧
      ((v.sent = w.sent ∧ a = .error ∧ e = true) ∨
        (x.request w.row = .answered a ∧ v.sent = w.sent ++ [⟨w.row, w.supplied, a⟩] ∧
          (e = false ↔ a ≠ .error ∧ w.bounds.exec_current_row < w.bounds.last x.size))) := by
  cases hreq : x.request w.row with
  | failed bound =>
    have hexec : SC_execute x w = (w, .error) := by
      simp only [SC_execute, hreq, hrows, Bool.false_and, Bool.false_eq_true, if_false]
    exact ⟨_, _, _, exec_refused hexec, rfl, .inl ⟨rfl, rfl, rfl⟩⟩
  | answered a =>
    have hexec := SC_execute_row hrows hreq
    by_cases herror : a = .error
    · subst herror
      exact ⟨_, _, _, exec_refused hexec, rfl, .inr ⟨rfl, rfl, by simp⟩⟩
    · obtain ⟨v, hv, hvsent, hend⟩ : ∃ v : Walk, v.bounds = w.bounds ∧
          v.sent = w.sent ++ [⟨w.row, w.supplied, a⟩] ∧
          Execute.Exec_with_parameters_resolved x w =
            if v.bounds.last x.size ≤ v.bounds.exec_current_row then (v.at (-1), a, true)
            else (v.at (v.bounds.exec_current_row + 1), a, false) := by
        let u := SetIPDField x a.status { w with sent := w.sent ++ [⟨w.row, w.supplied, a⟩] }
        simp only [Execute.Exec_with_parameters_resolved, hexec, if_neg herror]
        split
        · exact ⟨{ u with
            param_processed_ptr := u.param_processed_ptr.map fun _ =>
              ((List.range u.row).filter fun i => !isIgnored x.stmt i).length }, rfl, rfl, rfl⟩
        · exact ⟨u, rfl, rfl, rfl⟩
      rw [hv] at hend
      by_cases hlast : w.bounds.last x.size ≤ w.bounds.exec_current_row
      · rw [if_pos hlast] at hend
        exact ⟨_, _, _, hend, by rw [Walk.at_bounds, hv]; rfl,
          .inr ⟨rfl, hvsent, by simp [hlast]⟩⟩
      · rw [if_neg hlast] at hend
        exact ⟨_, _, _, hend, by rw [Walk.at_bounds, hv]; rfl,
          .inr ⟨rfl, hvsent, by simp [herror, not_le.mp hlast]⟩⟩

/-! ### Where an execution stands -/

/-- The rows before `row` have been gone through. -/
structure Standing (x : ExecuteCall) (row : Nat) (h : Handle) : Prop where
  rows : x.sendsBatch = false
  start : h.walk.bounds.exec_start_row ≤ 0
  last : h.walk.bounds.last x.size = (x.size : Int) - 1
  current_row : h.walk.bounds.exec_current_row = row
  row_lt : row < x.size
  sent : h.walk.sent.map (fun s => (s.row, s.supplied)) =
    (usefulBelow x.stmt row).map (asBound x.stmt)

theorem Standing.row_eq (hs : Standing x row h) : h.walk.row = row := by
  rw [Walk.row, hs.current_row]
  rfl

/-- The execution comes to `row`. Where the statement still waits for data, of an execution that
was left in the middle, there is a row to be executed. -/
structure Reached (x : ExecuteCall) (row : Nat) (h : Handle) : Prop extends Standing x row h where
  requested : h.requested = requests x.stmt (usefulBelow x.stmt row)
  waits : h.AsksData → ∃ r, row ≤ r ∧ r < x.size ∧ isIgnored x.stmt r = false

/-- The number of parameters of the row that have been passed, with the one asked for last. -/
def Handle.passed (h : Handle) : Nat := (h.current_exec_param + 1).toNat

/-- Parameters of `row` up to number `i`, with the row. -/
def askedBelow (x : ExecuteCall) (row i : Nat) : List (Nat × Nat) :=
  (below (atExec x.stmt row) i).map (·, row)

/-- A parameter was asked for and passed over without data. -/
def Handle.Lost (x : ExecuteCall) (h : Handle) : Prop :=
  ∃ i < numParams x, (i : Int) < h.current_exec_param ∧ h.marks i = true ∧
    isRead x.stmt i = true ∧ hasData (h.pdata i) = false

/-- The statement waits for the data of `row`. -/
structure Asking (x : ExecuteCall) (row : Nat) (h : Handle) : Prop extends Standing x row h where
  useful : isIgnored x.stmt row = false
  marks : ∀ i < numParams x, h.marks i = atExec x.stmt row i
  param : -1 ≤ h.current_exec_param
  marked : 0 ≤ h.current_exec_param →
    h.current_exec_param < numParams x ∧ atExec x.stmt row h.current_exec_param.toNat = true
  count : h.data_at_exec + (below (atExec x.stmt row) h.passed).length =
    (dataAtExec x.stmt row).length
  waits : h.AsksData
  requested : h.requested =
    requests x.stmt (usefulBelow x.stmt row) ++ askedBelow x row h.passed
  supplied : h.Lost x ∨ h.walk.supplied = askedBelow x row h.current_exec_param.toNat ∨
    0 ≤ h.current_exec_param ∧ h.walk.supplied = askedBelow x row h.passed

/-- The execution has ended with that answer. -/
structure Ended (x : ExecuteCall) (h : Handle) (answer : RowAnswer) : Prop where
  start : h.walk.bounds.exec_start_row ≤ 0
  waits : ¬h.AsksData
  inOrder : InOrder x h
  complete : answer ≠ .error → Complete x h

theorem Asking.passed_le (ha : Asking x row h) : h.passed ≤ numParams x := by
  rw [Handle.passed]
  rcases Int.lt_or_le h.current_exec_param 0 with hneg | hpos
  · omega
  · have := (ha.marked hpos).1
    omega

theorem Asking.passed_eq (ha : Asking x row h) (hpos : 0 ≤ h.current_exec_param) :
    askedBelow x row h.passed =
      askedBelow x row h.current_exec_param.toNat ++ [(h.current_exec_param.toNat, row)] := by
  have hpassed : h.passed = h.current_exec_param.toNat + 1 := by
    rw [Handle.passed]
    omega
  rw [hpassed, askedBelow, Below.below_succ_of_chosen (ha.marked hpos).2, List.map_append]
  rfl

/-- What was asked for stays within the parameters of the row. -/
theorem Asking.inOrder (ha : Asking x row h) : InOrder x h where
  requested := by
    have hpart : askedBelow x row h.passed <+: (dataAtExec x.stmt row).map (·, row) := by
      rw [← below_numParams]
      exact (Below.prefix_below _ ha.passed_le).map _
    have huseful : (!isIgnored x.stmt row) = true := by rw [ha.useful]; rfl
    rw [ha.requested]
    exact Below.flatMap_below_append_prefix (f := fun row => (dataAtExec x.stmt row).map (·, row))
      huseful hpart ha.row_lt
  sent := by
    rw [ha.sent]
    exact (prefix_usefulBelow x.stmt (Nat.le_of_lt ha.row_lt)).map _

/-- The walk that stands behind the last row has done everything. -/
theorem ended_of_rows {answer : RowAnswer} (hstart : h.walk.bounds.exec_start_row ≤ 0)
    (hwaits : ¬h.AsksData)
    (hsent : h.walk.sent.map (fun s => (s.row, s.supplied)) =
      (usefulBelow x.stmt row).map (asBound x.stmt))
    (hrequested : h.requested = requests x.stmt (usefulBelow x.stmt row))
    (hrest : usefulRows x.stmt = usefulBelow x.stmt row) : Ended x h answer := by
  refine ⟨hstart, hwaits, ⟨?_, ?_⟩, fun _ => ⟨?_, ?_⟩⟩
  · rw [hrequested, hrest]
  · rw [hsent, hrest]
  · rw [hrequested, hrest]
  · have hrows := congrArg (List.map Prod.fst) hsent
    rw [List.map_map, List.map_map] at hrows
    rw [hrest]
    exact hrows.trans (List.map_id _)

/-! ### A row is sent -/

/-- What is asked for up to a row of the array is the beginning of all that is. -/
theorem requests_prefix (x : ExecuteCall) {r : Nat} (hr : r ≤ x.size) :
    requests x.stmt (usefulBelow x.stmt r) <+: requests x.stmt (usefulRows x.stmt) :=
  Below.flatMap_prefix_below _ _ hr

theorem prefix_usefulBelow_rows (x : ExecuteCall) {r : Nat} (hr : r ≤ x.size) :
    (usefulBelow x.stmt r).map (asBound x.stmt) <+:
      (usefulRows x.stmt).map (asBound x.stmt) :=
  (prefix_usefulBelow x.stmt hr).map _

/-- **A row whose data is there.** It ends the execution, or the walk comes to the next row; a row
that lacks data is not sent. -/
theorem exec_standing (hs : Standing x row h) (huseful : isIgnored x.stmt row = false)
    (hdata : h.data_at_exec ≤ 0)
    (hsupplied : h.lacks x = false →
      h.walk.supplied = (dataAtExec x.stmt row).map (·, row))
    (hrequested : h.requested = requests x.stmt (usefulBelow x.stmt (row + 1))) :
    ∃ h' a e, Exec_with_parameters_resolved x h = (h', a, e) ∧
      ((e = true ∧ Ended x h' a) ∨
        (e = false ∧ Reached x (row + 1) h' ∧ h'.current_exec_param = -1)) := by
  let y : ExecuteCall := if h.lacks x then { x with request := fun _ => .failed true } else x
  have hy : y.sendsBatch = x.sendsBatch ∧ y.size = x.size := by
    simp only [y]
    split <;> exact ⟨rfl, rfl⟩
  obtain ⟨v, a, e, hexec, hbounds, hsent⟩ := exec_cases (x := y) (w := h.walk) (hy.1.trans hs.rows)
  have hstart : v.bounds.exec_start_row ≤ 0 := by
    rw [hbounds]
    exact hs.start
  let h' : Handle := { h with walk := v, current_exec_param := -1 }
  have hwaits : ¬h'.AsksData := by
    rintro (hpos | hpos)
    · exact absurd hpos (not_lt.mpr hdata)
    · exact absurd hpos (show ¬(0 : Int) ≤ -1 by decide)
  have hfront : h.requested <+: requests x.stmt (usefulRows x.stmt) := by
    rw [hrequested]
    exact requests_prefix x hs.row_lt
  refine ⟨h', a, e, ?_, ?_⟩
  · rw [Exec_with_parameters_resolved]
    simp only [y] at hexec
    rw [hexec]
  rcases hsent with ⟨hsame, rfl, rfl⟩ | ⟨hreq, hsame, hgoes⟩
  · refine .inl ⟨rfl, hstart, hwaits, ⟨hfront, ?_⟩, fun hne => absurd rfl hne⟩
    simp only [h', hsame, hs.sent]
    exact prefix_usefulBelow_rows x (Nat.le_of_lt hs.row_lt)
  have hlacks : h.lacks x = false := by
    cases hlacks : h.lacks x with
    | false => rfl
    | true =>
      simp only [y, hlacks, if_true] at hreq
      exact nomatch hreq
  have hsent' : h'.walk.sent.map (fun s => (s.row, s.supplied)) =
      (usefulBelow x.stmt (row + 1)).map (asBound x.stmt) := by
    rw [usefulBelow_succ, huseful, List.map_append, ← hs.sent]
    simp only [h', hsame, List.map_append, hs.row_eq, hsupplied hlacks]
    rfl
  rw [hy.2, hs.last, hs.current_row] at hgoes
  cases e with
  | true =>
    refine .inl ⟨rfl, ?_⟩
    by_cases hlast : row + 1 = x.size
    · exact ended_of_rows hstart hwaits hsent' hrequested (by rw [hlast]; rfl)
    · have hlt := hs.row_lt
      have herror : a = .error := by
        by_contra hne
        exact absurd (hgoes.mpr ⟨hne, by omega⟩) (by decide)
      refine ⟨hstart, hwaits, ⟨hfront, ?_⟩, fun hne => absurd herror hne⟩
      rw [hsent']
      exact prefix_usefulBelow_rows x hlt
  | false =>
    have hlt := (hgoes.mp rfl).2
    refine .inr ⟨rfl, ⟨⟨hs.rows, hstart, ?_, ?_, by omega, hsent'⟩, hrequested,
      fun hasks => absurd hasks hwaits⟩, rfl⟩
    · simp only [h', hbounds]
      exact hs.last
    · simp only [h', hbounds, hs.current_row]
      rfl

/-! ### The walk to the next row with data at execution -/

/-- What the walk comes to: a row whose data is to be asked for, or the end. -/
def Outcome (x : ExecuteCall) (h : Handle) : Returned → Prop
  | .needData => ∃ row, Asking x row h ∧ h.current_exec_param = -1
  | .done answer => Ended x h answer

/-- The state in which a row is begun. -/
theorem begin_standing {r : Nat} (hs : Standing x row h) (hr : row ≤ r) (hlt : r < x.size)
    (hbetween : ∀ i, row ≤ i → i < r → isIgnored x.stmt i = true) :
    Standing x r (h.begin x r) where
  rows := hs.rows
  start := hs.start
  last := hs.last
  current_row := rfl
  row_lt := hlt
  sent := by
    rw [usefulBelow_ignored hr hbetween]
    exact hs.sent

theorem begin_asking {r : Nat} (hs : Standing x r (h.begin x r))
    (huseful : isIgnored x.stmt r = false) (hpos : 0 < (h.begin x r).data_at_exec)
    (hrequested : h.requested = requests x.stmt (usefulBelow x.stmt r)) :
    Asking x r (h.begin x r) where
  toStanding := hs
  useful := huseful
  marks i hi := if_pos hi
  param := le_refl _
  marked hparam := absurd hparam (show ¬(0 : Int) ≤ -1 by decide)
  count := by
    have hne : below (atExec x.stmt r) (numParams x) ≠ [] := by
      intro hnil
      simp only [Handle.begin, hnil, if_true] at hpos
      exact absurd hpos (by decide)
    simp only [Handle.begin, if_neg hne]
    rw [← below_numParams]
    exact Int.add_zero _
  waits := .inl hpos
  requested := by
    refine Eq.trans ?_ (List.append_nil _).symm
    exact hrequested
  supplied := .inr (.inl rfl)

/-- A row without data at execution asks for nothing. -/
theorem begin_plain {r : Nat} (hdata : ¬0 < (h.begin x r).data_at_exec) :
    dataAtExec x.stmt r = [] := by
  rw [← below_numParams]
  by_contra hne
  simp only [Handle.begin, if_neg hne] at hdata
  have := List.length_pos_iff.mpr hne
  omega

/-- **The walk.** It comes to a row with data at execution, or to the end; the induction is on the
rows that are left. -/
theorem nextParamRow_outcome {left : Nat} :
    ∀ {row fuel : Nat} {h : Handle}, row + left = x.size → left ≤ fuel → Reached x row h →
      ∃ h' r, nextParamRow x ((x.size : Int) - 1) fuel h = some (h', r) ∧ Outcome x h' r := by
  induction left using Nat.strong_induction_on with
  | _ left ih =>
    intro row fuel h hsize hfuel hreached
    have hlt := hreached.row_lt
    obtain ⟨fuel, rfl⟩ : ∃ f, fuel = f + 1 := ⟨fuel - 1, by omega⟩
    have htoLast : ((x.size : Int) - 1 - h.walk.bounds.exec_current_row).toNat =
        x.size - 1 - row := by
      rw [hreached.current_row]
      omega
    rw [nextParamRow, hreached.row_eq, htoLast]
    cases hskip : skipIgnored x.stmt row (x.size - 1 - row) with
    | none =>
      have hignored := skipIgnored_none hskip
      have hrest : usefulRows x.stmt = usefulBelow x.stmt row :=
        usefulBelow_ignored (Nat.le_of_lt hlt) fun i hi (hi' : i < x.size) =>
          hignored i hi (by omega)
      refine ⟨_, _, rfl, ended_of_rows hreached.start (fun hasks => ?_) hreached.sent
        hreached.requested hrest⟩
      obtain ⟨r, hr, hr', hnot⟩ := hreached.waits hasks
      exact absurd (hignored r hr (by omega)) (by rw [hnot]; exact Bool.false_ne_true)
    | some r =>
      obtain ⟨hr, hr', hnot, hbetween⟩ := skipIgnored_some hskip
      have hstanding := begin_standing hreached.toStanding hr (by omega) hbetween
      have hrequested : h.requested = requests x.stmt (usefulBelow x.stmt r) := by
        rw [usefulBelow_ignored hr hbetween]
        exact hreached.requested
      dsimp only
      by_cases hpos : 0 < (h.begin x r).data_at_exec
      · rw [if_pos hpos]
        exact ⟨_, _, rfl, r, begin_asking hstanding hnot hpos hrequested, rfl⟩
      · rw [if_neg hpos]
        have hnone := begin_plain hpos
        obtain ⟨h', a, e, hexec, hends | ⟨rfl, hnext, -⟩⟩ :=
          exec_standing hstanding hnot (not_lt.mp hpos) (fun _ => by rw [hnone]; rfl)
            (by rw [requests_succ hnot, hnone]; exact hrequested.trans (List.append_nil _).symm)
        · obtain ⟨rfl, hends⟩ := hends
          rw [hexec]
          exact ⟨_, _, rfl, hends⟩
        · rw [hexec]
          exact ih (x.size - (r + 1)) (by omega) (by have := hnext.row_lt; omega) (by omega) hnext

/-! ### Asking for the next parameter -/

/-- The parameter asked for last is not among those before it. -/
theorem not_mem_askedBelow (x : ExecuteCall) (row i : Nat) : (i, row) ∉ askedBelow x row i := by
  intro hmem
  obtain ⟨j, hj, heq⟩ := List.mem_map.mp hmem
  obtain rfl := (Prod.mk.inj heq).1
  exact lt_irrefl j (Below.mem_below.mp hj).1

theorem mem_askedBelow_passed (ha : Asking x row h) (hpos : 0 ≤ h.current_exec_param) :
    (h.current_exec_param.toNat, row) ∈ askedBelow x row h.passed := by
  rw [ha.passed_eq hpos]
  exact List.mem_append_right _ (List.mem_singleton_self _)

/-- What `ParamDataSound` says of a statement that waits: the parameters up to the last one asked
for have been supplied, or one has no data that is needed. -/
theorem Asking.moves_on (ha : Asking x row h) (hsound : ParamDataSound x h) :
    (∃ i < numParams x, (i : Int) ≤ h.current_exec_param ∧ h.marks i = true ∧
        isRead x.stmt i = true ∧ hasData (h.pdata i) = false) ∨
      h.walk.supplied = askedBelow x row h.passed := by
  rcases ha.supplied with ⟨i, hi, hlt, hmark, hread, hnone⟩ | hbefore | ⟨-, hall⟩
  · exact .inl ⟨i, hi, Int.le_of_lt hlt, hmark, hread, hnone⟩
  · rcases Int.lt_or_le h.current_exec_param 0 with hneg | hpos
    · right
      have hfirst : h.current_exec_param.toNat = h.passed := by
        rw [Handle.passed]
        have := ha.param
        omega
      rw [hbefore, hfirst]
    · have hmarked := ha.marked hpos
      have hlt : h.current_exec_param.toNat < numParams x := by omega
      rcases hsound.supplied hpos with hmem | ⟨hread, hnone⟩
      · rw [ha.row_eq, hbefore] at hmem
        exact absurd hmem (not_mem_askedBelow x row _)
      · exact .inl ⟨_, hlt, by omega, by rw [ha.marks _ hlt]; exact hmarked.2, hread, hnone⟩
  · exact .inr hall

/-- **The next parameter.** -/
theorem requestNext_asking (ha : Asking x row h) (hmore : 0 < h.data_at_exec)
    (hsound : ParamDataSound x h) : Asking x row (requestNext x h) := by
  have hpassed : (if 0 ≤ h.current_exec_param then h.current_exec_param + 1 else 0).toNat =
      h.passed := by
    rw [Handle.passed]
    have := ha.param
    split <;> omega
  have hfewer : (below (atExec x.stmt row) h.passed).length <
      (below (atExec x.stmt row) (numParams x)).length := by
    have := ha.count
    rw [below_numParams]
    omega
  obtain ⟨i, hi⟩ := Below.exists_next ha.passed_le hfewer
  obtain ⟨hle, hlt, hmarked, hskip⟩ := Below.next_some hi
  have hbelow := Below.below_next hi
  have hnext : requestNext x h =
      { h with
        data_at_exec := h.data_at_exec - 1
        current_exec_param := i
        put_data := false
        requested := h.requested ++ [(i, h.walk.row)] } := by
    simp only [requestNext, hpassed, Below.next_congr ha.marks, hi]
  have hbehind : h.current_exec_param < i := by
    rw [Handle.passed] at hle
    omega
  rw [hnext]
  refine
    { rows := ha.rows
      start := ha.start
      last := ha.last
      current_row := ha.current_row
      row_lt := ha.row_lt
      sent := ha.sent
      useful := ha.useful
      marks := ha.marks
      param := show (-1 : Int) ≤ i by omega
      marked := fun _ => ⟨show (i : Int) < numParams x by omega, hmarked⟩
      count := ?_
      waits := .inr (show (0 : Int) ≤ i by omega)
      requested := ?_
      supplied := ?_ }
  · have := ha.count
    change h.data_at_exec - 1 + (below (atExec x.stmt row) (i + 1)).length = _
    rw [hbelow, List.length_append, List.length_singleton]
    omega
  · change h.requested ++ [(i, h.walk.row)] = _ ++ askedBelow x row (i + 1)
    rw [ha.requested, ha.row_eq, List.append_assoc, askedBelow, askedBelow, hbelow,
      List.map_append]
    rfl
  · rcases ha.moves_on hsound with ⟨j, hj, hjle, hmark, hread, hnone⟩ | hall
    · exact .inl ⟨j, hj, by change (j : Int) < i; omega, hmark, hread, hnone⟩
    · right
      left
      change h.walk.supplied = askedBelow x row i
      rw [hall, askedBelow, askedBelow, hskip]

/-! ### Supplying a parameter -/

/-- **A chunk of data.** -/
theorem putData_asking (lo : LoCalls) (call : PutCall) (ha : Asking x row h) :
    Asking x row (PGAPI_PutData conn x lo call h).1 := by
  rw [PGAPI_PutData]
  split
  next => exact ha
  next hasked =>
  have hpos : 0 ≤ h.current_exec_param := not_lt.mp hasked
  dsimp only
  split
  next apara ipara _ _ =>
    obtain ⟨st, error, hput⟩ : ∃ st error, OdbcDriver.PGAPI_PutData conn lo apara ipara
        ⟨h.put_data, h.pdata h.current_exec_param.toNat, h.lobj_fd, h.lobj⟩ call = (st, error) :=
      ⟨_, _, rfl⟩
    rw [hput]
    -- the data of the parameters before this one stays
    have hlost : h.Lost x → Handle.Lost x { h with
        put_data := st.put_data
        pdata := Function.update h.pdata h.current_exec_param.toNat st.pdata
        lobj_fd := st.lobj_fd
        lobj := st.lobj } := by
      rintro ⟨i, hi, hlt, hmark, hread, hnone⟩
      refine ⟨i, hi, hlt, hmark, hread, ?_⟩
      change hasData (Function.update h.pdata _ st.pdata i) = false
      rw [Function.update_of_ne (by omega)]
      exact hnone
    cases error with
    | some e =>
      exact
        { ha with supplied := ha.supplied.imp hlost id }
    | none =>
      have hsent : (Walk.supply h.current_exec_param.toNat h.walk).sent = h.walk.sent ∧
          (Walk.supply h.current_exec_param.toNat h.walk).bounds = h.walk.bounds := by
        rw [Walk.supply]
        split <;> exact ⟨rfl, rfl⟩
      refine
        { rows := ha.rows
          start := hsent.2 ▸ ha.start
          last := hsent.2 ▸ ha.last
          current_row := hsent.2 ▸ ha.current_row
          row_lt := ha.row_lt
          sent := hsent.1 ▸ ha.sent
          useful := ha.useful
          marks := ha.marks
          param := ha.param
          marked := ha.marked
          count := ha.count
          waits := ha.waits
          requested := ha.requested
          supplied := ?_ }
      rcases ha.supplied with hlost' | hbefore | ⟨-, hall⟩
      · exact .inl (hlost hlost')
      · refine .inr (.inr ⟨hpos, ?_⟩)
        change (Walk.supply _ h.walk).supplied = askedBelow x row h.passed
        rw [Walk.supply, ha.row_eq, if_neg (hbefore ▸ not_mem_askedBelow x row _),
          ha.passed_eq hpos, hbefore]
      · refine .inr (.inr ⟨hpos, ?_⟩)
        change (Walk.supply _ h.walk).supplied = askedBelow x row h.passed
        rw [Walk.supply, ha.row_eq, if_pos (hall ▸ mem_askedBelow_passed ha hpos), hall]
  next => exact ha

end OdbcDriver.Execute.DataAtExecution
