import OdbcDriver.Execute.DataAtExecutionRules

/-!
# Runs of data at execution

Each call keeps the statement either waiting for the data of a row, with everything asked for in
order, or waiting for nothing. In a run whose calls all meet their condition every parameter is
asked for once and in order, and every row is sent with its data.
-/

namespace OdbcDriver.Execute.DataAtExecution

variable {conn : ConnectionClass} {x : ExecuteCall} {h : Handle} {s : Session} {row : Nat}

/-! ### An execution begins -/

/-- Behind the first row `PGAPI_Execute` just goes on. -/
theorem execute_resumes (hreached : Reached x row h) (hpos : 0 < row) :
    ∃ h' r, PGAPI_Execute x h = some (h', r) ∧ Outcome x h' r := by
  have hfirst : h.walk.bounds.first = 0 :=
    first_eq hreached.start h.walk.bounds.exec_current_row
  have hcurrent := hreached.current_row
  have hset : ¬h.walk.bounds.exec_current_row < 0 := by omega
  have hlater : ¬h.walk.bounds.exec_current_row = 0 := by omega
  have hlt := hreached.row_lt
  have hrows : x.rows h.walk.bounds = x.size := by
    rw [ExecuteCall.rows, hreached.last]
    omega
  simp only [PGAPI_Execute, hfirst, if_neg hset, if_neg hlater, hreached.last, hrows]
  exact nextParamRow_outcome (Nat.add_sub_of_le hlt.le) (Nat.sub_le _ _) hreached

/-- The statement at the first row of an execution. -/
def Handle.startRows (x : ExecuteCall) (h : Handle) : Handle :=
  { h with walk := startWalk x h.walk.bounds, requested := [] }

theorem execute_enters (hstart : h.walk.bounds.exec_start_row ≤ 0)
    (hdescribed : x.described = true) :
    PGAPI_Execute x (h.enter x) = nextParamRow x (h.walk.bounds.last x.size)
      (x.rows h.walk.bounds) (h.startRows x) := by
  have hset : (-1 : Int) < 0 := by decide
  simp only [PGAPI_Execute, Handle.enter, first_eq hstart, if_pos hset, Walk.at, if_true,
    hdescribed]
  rfl

/-- An execution whose parameters the server does not describe ends before its rows. -/
theorem execute_undescribed (hstart : h.walk.bounds.exec_start_row ≤ 0)
    (hdescribed : x.described = false) :
    PGAPI_Execute x (h.enter x) =
      some ({ h.enter x with walk := (h.enter x).walk.at 0 }, .done .error) := by
  have hset : (-1 : Int) < 0 := by decide
  simp only [PGAPI_Execute, Handle.enter, first_eq hstart, if_pos hset, Walk.at, if_true,
    hdescribed, Bool.false_eq_true, if_false]

/-- **Row by row.** -/
theorem execute_rows (hstart : h.walk.bounds.exec_start_row ≤ 0) (hsound : ExecuteSound x h)
    (hrows : x.sendsBatch = false) (hdescribed : x.described = true) :
    ∃ h' r, PGAPI_Execute x (h.enter x) = some (h', r) ∧ Outcome x h' r := by
  have hsize := hsound.size
  have hlast : h.walk.bounds.last x.size = (x.size : Int) - 1 := by
    have hbound := hsound.rows hrows
    rw [RowBounds.last]
    split <;> omega
  have hfuel : x.rows h.walk.bounds = x.size := by
    rw [ExecuteCall.rows, hlast]
    omega
  have hreached : Reached x 0 (h.startRows x) :=
    { rows := hrows
      start := hstart
      last := hlast
      current_row := rfl
      row_lt := hsize
      sent := rfl
      requested := rfl
      waits := by
        intro hasks
        obtain ⟨r, hr⟩ := List.exists_mem_of_ne_nil _ (hsound.left hasks).2
        obtain ⟨hlt, hnot⟩ := mem_usefulBelow.mp hr
        exact ⟨r, Nat.zero_le r, hlt, hnot⟩ }
  rw [execute_enters hstart hdescribed, hlast, hfuel]
  exact nextParamRow_outcome (Nat.zero_add x.size) (le_refl _) hreached

/-- What a batch comes to: it cannot be made, or all rows are sent and answered. -/
theorem exec_batch_cases {y : ExecuteCall} {w : Walk} (hbatch : y.sendsBatch = true)
    (hstart : w.bounds.exec_start_row ≤ 0) :
    ∃ v a, Execute.Exec_with_parameters_resolved y w = (v, a, true) ∧
      v.bounds.exec_start_row ≤ 0 ∧
      ((v.sent = w.sent ∧ a = .error) ∨
        v.sent = w.sent ++ (usefulRows y.stmt).map fun row => ⟨row, w.supplied, a⟩) := by
  have hcan : SC_CanUseBatchProto y.stmt = true := (Bool.and_eq_true_iff.mp hbatch).1
  cases hreq : y.request w.row with
  | failed bound =>
    have hexec : SC_execute y w =
        (if bound then { w with bounds := ⟨0, y.size, w.bounds.exec_current_row⟩ } else w,
          .error) := by
      simp only [SC_execute, hreq, hbatch, Bool.true_and]
    refine ⟨_, _, exec_refused hexec, ?_, .inl ⟨?_, rfl⟩⟩
    · rw [Walk.at_bounds]
      split
      · exact le_refl 0
      · exact hstart
    · cases bound <;> rfl
  | answered a =>
    let u : Walk := { w with
      bounds := ⟨0, y.size, y.size⟩
      sent := w.sent ++ (usefulRows y.stmt).map fun row => ⟨row, w.supplied, a⟩ }
    have hexec : SC_execute y w = (u, a) := by
      simp only [SC_execute, hreq, hbatch, if_true, u]
    by_cases herror : a = .error
    · subst herror
      exact ⟨_, _, exec_refused hexec, le_refl 0, .inr rfl⟩
    · have hend : RowBounds.last ⟨0, y.size, y.size⟩ y.size ≤ (y.size : Int) := by
        change (if (y.size : Int) < 0 then (y.size : Int) - 1 else (y.size : Int)) ≤ y.size
        split <;> omega
      refine ⟨{ u with
        bounds := ⟨0, y.size, -1⟩
        param_status_ptr := (SetIPDField y a.status u).param_status_ptr
        param_processed_ptr := u.param_processed_ptr.map fun _ =>
          ((List.range y.size).filter fun i => !isIgnored y.stmt i).length },
        a, ?_, le_refl 0, .inr rfl⟩
      simp only [Execute.Exec_with_parameters_resolved, hexec, if_neg herror, hcan, if_true]
      exact if_pos hend

/-- **A batch** of rows without data at execution. -/
theorem execute_batch (hstart : h.walk.bounds.exec_start_row ≤ 0) (hsound : ExecuteSound x h)
    (hbatch : x.sendsBatch = true) (hdescribed : x.described = true) :
    ∃ h' a, PGAPI_Execute x (h.enter x) = some (h', .done a) ∧ Ended x h' a := by
  have hcan : SC_CanUseBatchProto x.stmt = true := (Bool.and_eq_true_iff.mp hbatch).1
  obtain ⟨hbound, hplain⟩ := hsound.batch hbatch
  obtain ⟨k, rest, huseful⟩ : ∃ k rest, usefulRows x.stmt = k :: rest := by
    refine List.exists_cons_of_ne_nil fun hnil => ?_
    simp [SC_CanUseBatchProto, hnil] at hcan
  obtain ⟨hk, hnot, hbefore⟩ := ignored_of_head huseful
  have hhead : (usefulRows x.stmt).headD 0 = k := by rw [huseful]; rfl
  rw [hhead] at hbound
  have hsize : (k : Int) < (x.size : Int) := by exact_mod_cast hk
  have hreach : 0 + (h.walk.bounds.last x.size - 0).toNat ≥ k := by
    rw [RowBounds.last]
    split <;> omega
  have hskip := skipIgnored_eq (Nat.zero_le k) hreach hnot fun i _ hi => hbefore i hi
  have hnone : dataAtExec x.stmt k = [] := hplain k (by rw [huseful]; exact List.mem_cons_self)
  let g : Handle := (h.startRows x).begin x k
  have hdata : g.data_at_exec = -1 := by
    simp only [g, Handle.begin, below_numParams, hnone, if_true]
  let y : ExecuteCall := if g.lacks x then { x with request := fun _ => .failed true } else x
  have hy : y.sendsBatch = x.sendsBatch ∧ y.stmt = x.stmt := by
    simp only [y]
    split <;> exact ⟨rfl, rfl⟩
  obtain ⟨v, a, hexec, hvstart, hsent⟩ :=
    exec_batch_cases (y := y) (w := g.walk) (hy.1.trans hbatch) hstart
  have hresolved : Exec_with_parameters_resolved x g =
      ({ g with walk := v, current_exec_param := -1 }, a, true) := by
    rw [Exec_with_parameters_resolved]
    simp only [y] at hexec
    rw [hexec]
  have hrequests : requests x.stmt (usefulRows x.stmt) = [] :=
    List.flatMap_eq_nil_iff.mpr fun row hrow => by rw [hplain row hrow]; rfl
  have hwaits : ¬Handle.AsksData { g with walk := v, current_exec_param := -1 } := by
    rintro (hpos | hpos)
    · change 0 < g.data_at_exec at hpos
      rw [hdata] at hpos
      exact absurd hpos (by decide)
    · exact absurd hpos (show ¬(0 : Int) ≤ -1 by decide)
  refine ⟨{ g with walk := v, current_exec_param := -1 }, a, ?_, ?_⟩
  · rw [execute_enters hstart hdescribed, ExecuteCall.rows, nextParamRow]
    have hrow : (h.startRows x).walk.row = 0 := rfl
    have hcurrent : (h.startRows x).walk.bounds.exec_current_row = 0 := rfl
    rw [hrow, hcurrent, hskip]
    have hasked : ¬0 < g.data_at_exec := by rw [hdata]; decide
    simp only [g] at hasked hresolved
    simp only [if_neg hasked, hresolved]
    rfl
  rcases hsent with ⟨hsame, rfl⟩ | hall
  · refine ⟨hvstart, hwaits, ⟨List.nil_prefix, ?_⟩, fun hne => absurd rfl hne⟩
    simp only [hsame]
    exact List.nil_prefix
  · refine ended_of_rows hvstart hwaits ?_ hrequests.symm rfl
    simp only [hall, hy.2]
    refine (List.map_map ..).trans (List.map_congr_left fun row hrow => ?_)
    simp only [Function.comp_apply, asBound, hplain row hrow]
    rfl

/-! ### The calls -/

/-- Between two calls the statement waits for the data of a row, or for nothing. -/
structure Session.Good (s : Session) : Prop where
  start : s.handle.walk.bounds.exec_start_row ≤ 0
  stands : (∃ row, Asking s.execution row s.handle) ∨
    ¬s.handle.AsksData ∧ InOrder s.execution s.handle

theorem Session.Good.inOrder (hs : s.Good) : InOrder s.execution s.handle := by
  rcases hs.stands with ⟨row, ha⟩ | ⟨-, hdone⟩
  · exact ha.inOrder
  · exact hdone

/-- A call returns with the statement in order; where it ends an execution that no row has failed,
all has been done. -/
def Kept (x : ExecuteCall) (h : Handle) (r : Reply) : Prop :=
  Session.Good ⟨x, h⟩ ∧ ∀ answer, r = .returned (.done answer) → answer ≠ .error → Complete x h

theorem Asking.kept {r : Reply} (ha : Asking x row h) (hr : ∀ a, r ≠ .returned (.done a)) :
    Kept x h r :=
  ⟨⟨ha.start, .inl ⟨row, ha⟩⟩, fun a heq => absurd heq (hr a)⟩

theorem Ended.kept {a : RowAnswer} (he : Ended x h a) : Kept x h (.returned (.done a)) := by
  refine ⟨⟨he.start, .inr ⟨he.waits, he.inOrder⟩⟩, fun answer heq hne => ?_⟩
  obtain rfl := Returned.done.inj (Reply.returned.inj heq)
  exact he.complete hne

/-- A call that is refused changes nothing. -/
theorem Session.Good.refused {e : DataError} (hs : Session.Good ⟨x, h⟩) : Kept x h (.refused e) :=
  ⟨hs, fun _ heq => nomatch heq⟩

/-- **`SQLExecute`.** -/
theorem execute_kept (hstart : h.walk.bounds.exec_start_row ≤ 0) (hsound : ExecuteSound x h) :
    ∃ h' r, PGAPI_Execute x (h.enter x) = some (h', r) ∧ Kept x h' (.returned r) := by
  cases hdescribed : x.described with
  | false =>
    refine ⟨_, _, execute_undescribed hstart hdescribed, ⟨hstart, .inr ⟨fun hasks => ?_, ?_⟩⟩, ?_⟩
    · have := (hsound.left hasks).1
      rw [hdescribed] at this
      exact absurd this (by decide)
    · exact ⟨List.nil_prefix, List.nil_prefix⟩
    · intro answer heq hne
      exact absurd (Returned.done.inj (Reply.returned.inj heq)).symm hne
  | true =>
    cases hbatch : x.sendsBatch with
    | true =>
      obtain ⟨h', a, hexec, hends⟩ := execute_batch hstart hsound hbatch hdescribed
      exact ⟨h', _, hexec, hends.kept⟩
    | false =>
      obtain ⟨h', r, hexec, hout⟩ := execute_rows hstart hsound hbatch hdescribed
      refine ⟨h', r, hexec, ?_⟩
      cases r with
      | done a => exact Ended.kept hout
      | needData =>
        obtain ⟨row, ha, -⟩ := hout
        exact ha.kept nofun

/-- The row whose parameters have all been asked for is sent with their data. -/
theorem Asking.sends (ha : Asking x row h) (hsound : ParamDataSound x h)
    (hall : h.data_at_exec = 0) :
    ∃ h' a e, Exec_with_parameters_resolved x h = (h', a, e) ∧
      ((e = true ∧ Ended x h' a) ∨
        (e = false ∧ Reached x (row + 1) h' ∧ h'.current_exec_param = -1)) := by
  have hpassed : askedBelow x row h.passed = (dataAtExec x.stmt row).map (·, row) := by
    have hcount := ha.count
    rw [askedBelow, ← below_numParams]
    refine congrArg _ (Below.below_eq_of_length ha.passed_le ?_)
    rw [below_numParams]
    omega
  refine exec_standing ha.toStanding ha.useful hall.le (fun hlacks => ?_) ?_
  · rcases ha.moves_on hsound with ⟨i, hi, -, hmark, hread, hnone⟩ | hsupplied
    · have hmem : h.lacks x = true := by
        refine List.any_eq_true.mpr ⟨i, List.mem_range.mpr hi, ?_⟩
        rw [hmark, hread, hnone]
        rfl
      rw [hlacks] at hmem
      exact absurd hmem Bool.false_ne_true
    · rw [hsupplied, hpassed]
  · rw [ha.requested, hpassed, requests_succ ha.useful]

/-- A row is asked for from its first parameter on. -/
theorem first_sound (hcurrent : h.current_exec_param = -1) (hdata : 0 < h.data_at_exec) :
    ParamDataSound x h where
  waits hzero := by omega
  supplied hpos := by omega

/-- A statement that waits for data either sends the row or asks for the next parameter. -/
theorem goOn_kept (ha : Asking x row h) (hsound : ParamDataSound x h) :
    ∃ h' r, goOn x h = some (h', r) ∧ Kept x h' r := by
  rw [goOn]
  by_cases hall : h.data_at_exec = 0
  · rw [if_pos hall]
    obtain ⟨h', a, e, hexec, ⟨rfl, hends⟩ | ⟨rfl, hreached, -⟩⟩ := ha.sends hsound hall
    · rw [hexec]
      exact ⟨_, _, rfl, hends.kept⟩
    · obtain ⟨h'', r, hresume, hout⟩ := execute_resumes hreached (Nat.succ_pos row)
      rw [hexec]
      simp only [hresume]
      cases r with
      | done a => exact ⟨_, _, rfl, Ended.kept hout⟩
      | needData =>
        obtain ⟨next, hnext, hcurrent⟩ := hout
        have hdata : 0 < h''.data_at_exec := by
          rcases hnext.waits with hpos | hpos
          · exact hpos
          · rw [hcurrent] at hpos
            exact absurd hpos (by decide)
        exact ⟨_, _, rfl,
          (requestNext_asking hnext hdata (first_sound hcurrent hdata)).kept nofun⟩
  · rw [if_neg hall]
    have hdata : 0 < h.data_at_exec := by
      have hcount := ha.count
      have hle := (Below.prefix_below (atExec x.stmt row) ha.passed_le).length_le
      rw [below_numParams] at hle
      omega
    exact ⟨_, _, rfl, (requestNext_asking ha hdata hsound).kept nofun⟩

/-- **`SQLParamData`.** -/
theorem paramData_kept (committed : Bool) (hs : Session.Good ⟨x, h⟩) (hsound : ParamDataSound x h) :
    ∃ h' r, PGAPI_ParamData x committed h = some (h', r) ∧ Kept x h' r := by
  rw [PGAPI_ParamData]
  split
  next => exact ⟨_, _, rfl, hs.refused⟩
  next hdata =>
  split
  next => exact ⟨_, _, rfl, hs.refused⟩
  split
  next => exact ⟨_, _, rfl, hs.refused⟩
  -- a statement that waits for nothing has ended its execution
  obtain ⟨row, ha⟩ : ∃ row, Asking x row h := by
    rcases hs.stands with hasking | ⟨hnot, -⟩
    · exact hasking
    · rcases Int.lt_or_eq_of_le (not_lt.mp hdata) with hpos | hzero
      · exact absurd (.inl hpos) hnot
      · exact absurd (.inr (hsound.waits hzero.symm)) hnot
  exact goOn_kept { ha with } ⟨hsound.waits, hsound.supplied⟩

/-- What `SQLPutData` returns is never the end of an execution. -/
theorem putData_reply (lo : LoCalls) (call : PutCall) (a : RowAnswer) :
    (PGAPI_PutData conn x lo call h).2 ≠ .returned (.done a) := by
  rw [PGAPI_PutData]
  split
  · rintro ⟨⟩
  · dsimp only
    split
    · split <;> rintro ⟨⟩
    · rintro ⟨⟩

/-- **`SQLPutData`.** -/
theorem putData_kept (lo : LoCalls) (call : PutCall) (hs : Session.Good ⟨x, h⟩) :
    Kept x (PGAPI_PutData conn x lo call h).1 (PGAPI_PutData conn x lo call h).2 := by
  rcases hs.stands with ⟨row, ha⟩ | ⟨hnot, hdone⟩
  · exact (putData_asking lo call ha).kept (putData_reply lo call)
  · have hnotAsked : h.current_exec_param < 0 := by
      by_contra hpos
      exact hnot (.inr (not_lt.mp hpos))
    simp only [PGAPI_PutData, if_pos hnotAsked]
    exact hs.refused

/-- **One call.** -/
theorem call_met {call : Call} (hs : s.Good) (hsound : call.Sound s) :
    call.Met conn s ∧ ((dataMachine conn).step s call).1.Good := by
  obtain ⟨s', r, hperform, hgood, hcomplete⟩ : ∃ s' r, s.perform conn call = some (s', r) ∧
      Kept s'.execution s'.handle r := by
    cases call with
    | execute x =>
      obtain ⟨h', r, hexec, hkept⟩ := execute_kept hs.start hsound
      refine ⟨⟨x, h'⟩, .returned r, ?_, hkept⟩
      rw [Session.perform, hexec]
      rfl
    | paramData committed =>
      obtain ⟨h', r, hparam, hkept⟩ := paramData_kept committed hs hsound
      refine ⟨{ s with handle := h' }, r, ?_, hkept⟩
      rw [Session.perform, hparam]
      rfl
    | putData lo put => exact ⟨_, _, rfl, putData_kept lo put hs⟩
  refine ⟨⟨s', r, hperform, hgood.inOrder, hcomplete⟩, ?_⟩
  simp only [dataMachine, hperform]
  exact hgood

theorem new_good (x : ExecuteCall) : (Session.new x).Good where
  start := show (-1 : Int) ≤ 0 by decide
  stands := by
    refine .inr ⟨?_, List.nil_prefix, List.nil_prefix⟩
    rintro (hpos | hpos)
    · exact absurd hpos (show ¬(0 : Int) < -1 by decide)
    · exact absurd hpos (show ¬(0 : Int) ≤ -1 by decide)

/-- An insert of two rows with one parameter, whose data comes at execution in both; each request
is accepted. -/
def insertPair (batch : Bool) : ExecuteCall where
  stmt :=
    { twoRows .char .varchar SQL_DATA_AT_EXEC with
      use_batch_protocol := batch
      apdopts :=
        { parameters := [{ sampleText with used := some fun _ => SQL_DATA_AT_EXEC }]
          param_offset := 0
          param_bind_type := 0
          paramset_size := 2
          param_operation_ptr := none } }
  multi_statement := false
  described := true
  param_status_ptr := none
  param_processed_ptr := none
  request := fun _ => .answered .success

/-- The text "a". -/
def putText : Call := .putData sampleLo ⟨[0x61, 0], SQL_NTS⟩

/-- With the rows sent, one more `SQLParamData` sends the first row again. -/
example : ((dataMachine sampleConn).final (.new (insertPair false))
    [.execute (insertPair false), .paramData true, putText, .paramData true, putText,
      .paramData true, .paramData true]).handle.walk.sent.map (·.row) = [0, 1, 0] := by
  decide

end OdbcDriver.Execute.DataAtExecution
