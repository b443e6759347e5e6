import OdbcDriver.Param.Bind
import OdbcDriver.Param.ConvertRules

/-!
# Resolving a parameter of a Bind request

What one call of `ResolveOneParam` does in a Bind request: it moves on to the next parameter
and changes nothing else that a later call reads, so that parameter `i` of a row resolves to
the same whatever was resolved before it.
-/

namespace OdbcDriver

open Lib

section Resolve

variable {env : Env} {qb : QueryBuild} {r : Resolved}

/-- A discarded output parameter of a Bind request changes at most the text built so far. -/
theorem discardOutput_none (qb : QueryBuild) :
    ∃ s, discardOutput qb none = ({ qb with query_statement := s }, none) := by
  unfold discardOutput
  split
  · split
    · exact ⟨_, rfl⟩
    · split <;> exact ⟨_, rfl⟩
  · exact ⟨_, rfl⟩

/-- A value that is not known is an error in a Bind request. -/
theorem resolveData_ne_unknown {conn : ConnectionClass} {flags : Flags} {lo : LoCalls} {oid : Oid}
    {apara : ParameterInfoClass} {ipara : ParameterImplClass} {data : ParamData} :
    resolveData env conn .buildingBindRequest flags lo oid apara ipara data ≠ .ok .unknown := by
  unfold resolveData
  dsimp only
  split
  · simp
  · split
    · rename_i h
      exact absurd h.2 (by decide)
    · split
      · simp
      · exact convertParam_ne_unknown _ _ _ _ _ _ _ _ _ _ _ _

theorem resolveValue_ok {qp : Option OldPos} {apara : ParameterInfoClass}
    {ipara : ParameterImplClass} (hmode : qb.param_mode = .buildingBindRequest)
    (h : resolveValue env qb qp apara ipara = .ok r) :
    r.qb.clear = qb.clear ∧ r.pgType = 0 := by
  unfold resolveValue at h
  obtain ⟨c, hc, h⟩ := bind_eq_ok.mp h
  cases c with
  | null =>
    simp only [hmode, if_true, pure_eq_ok, Except.ok.injEq] at h
    rw [← h]
    exact ⟨rfl, rfl⟩
  | unknown =>
    rw [hmode] at hc
    exact absurd hc resolveData_ne_unknown
  | value v =>
    obtain ⟨out, -, h⟩ := bind_eq_ok.mp h
    simp only [pure_eq_ok, Except.ok.injEq] at h
    rw [← h]
    exact ⟨rfl, rfl⟩

/-- The query with the next parameter current. -/
def QueryBuild.next (qb : QueryBuild) : QueryBuild := { qb with param_number := qb.param_number + 1 }

/-- The direction of the parameter that is resolved next. -/
def QueryBuild.nextType (qb : QueryBuild) : Option ParamType :=
  qb.ipdopts.parameters[(qb.param_number + 1).toNat]?.map (·.paramType)

/-- **One parameter of a Bind request.** A resolved parameter is a function's return value, or
a discarded output parameter, or its value has been resolved. -/
theorem ResolveOneParam_bind (hmode : qb.param_mode = .buildingBindRequest)
    (h : ResolveOneParam env qb none = .ok r) :
    (qb.param_number + 1 < qb.proc_return ∧ qb.nextType = some .output ∧
        r = .plain qb.next none .success) ∨
      (¬ qb.param_number + 1 < qb.proc_return ∧ qb.nextType = some .output ∧
        qb.flags.discardOutput = true ∧
        ∃ s, r = .plain { qb.next with query_statement := s } none .successWithInfo) ∨
      (¬ qb.param_number + 1 < qb.proc_return ∧
        ¬ (qb.nextType = some .output ∧ qb.flags.discardOutput = true) ∧
        ∃ apara ipara, qb.ipdopts.parameters[(qb.param_number + 1).toNat]? = some ipara ∧
          qb.apdopts.parameters[(qb.param_number + 1).toNat]? = some apara ∧
          resolveValue env qb.next none apara ipara = .ok r) := by
  have hfake : qb.param_mode ≠ .fakeParams := by rw [hmode]; decide
  have hprepare : qb.param_mode ≠ .buildingPrepareStatement := by rw [hmode]; decide
  cases hapara : qb.apdopts.parameters[(qb.param_number + 1).toNat]? with
  | none => simp [ResolveOneParam, hapara, hfake, hprepare] at h
  | some apara =>
  cases hipara : qb.ipdopts.parameters[(qb.param_number + 1).toNat]? with
  | none => simp [ResolveOneParam, hipara, hfake, hprepare] at h
  | some ipara =>
  simp only [ResolveOneParam, hapara, hipara, hfake, hprepare, Option.isNone_some,
    Bool.false_eq_true, or_self, false_and, if_false, Option.map_some, Option.some.injEq] at h
  have htype : qb.nextType = some ipara.paramType := by simp [QueryBuild.nextType, hipara]
  rw [htype]
  split_ifs at h with hret hinput hold hdiscard
  · refine .inl ⟨hret, ?_, (Except.ok.inj h).symm⟩
    cases hp : ipara.paramType <;> simp_all
  · obtain ⟨s, hs⟩ := discardOutput_none qb.next
    refine .inr (.inl ⟨hret, by rw [hdiscard.1], hdiscard.2, s, ?_⟩)
    change Except.ok (Resolved.plain (discardOutput qb.next none).1
      (discardOutput qb.next none).2 _) = _ at h
    rw [hs] at h
    exact (Except.ok.inj h).symm
  · exact .inr (.inr ⟨hret, by simpa using hdiscard, apara, ipara, rfl, rfl, h⟩)

/-- A call moves on to the next parameter; the server is left to find its type. -/
theorem ResolveOneParam_next (hmode : qb.param_mode = .buildingBindRequest)
    (h : ResolveOneParam env qb none = .ok r) : r.qb.clear = qb.next.clear ∧ r.pgType = 0 := by
  rcases ResolveOneParam_bind hmode h with ⟨-, -, rfl⟩ | ⟨-, -, -, s, rfl⟩ |
    ⟨-, -, apara, ipara, -, -, h⟩
  · exact ⟨rfl, rfl⟩
  · exact ⟨rfl, rfl⟩
  · exact resolveValue_ok hmode h
/-- The parameter's values go to the server in binary format, where they are not null. -/
def isBinaryParam (env : Env) (conn : ConnectionClass) (ipara : ParameterImplClass) : Bool :=
  (effectiveSqlType env.fm ipara.SQLType (PIC_dsp_pgtype conn ipara)).isBinary &&
    filed_is_bytea (PIC_dsp_pgtype conn ipara)

/-- The length of the value marks it as null. -/
def isNullData (qb : QueryBuild) (apara : ParameterInfoClass) : Bool :=
  (paramData qb apara).used = SQL_NULL_DATA || (paramData qb apara).used = SQL_DEFAULT_PARAM

/-- The format of a value: binary if the parameter is and the value is not null. -/
theorem resolveValue_isbinary {qp : Option OldPos} {apara : ParameterInfoClass}
    {ipara : ParameterImplClass} (hmode : qb.param_mode = .buildingBindRequest)
    (hbinary : qb.flags.binaryAsPossible = true) (hinput : ipara.paramType ≠ .output)
    (h : resolveValue env qb qp apara ipara = .ok r) :
    r.isbinary = (isBinaryParam env qb.conn ipara && !isNullData qb apara) := by
  unfold resolveValue at h
  obtain ⟨c, hc, h⟩ := bind_eq_ok.mp h
  by_cases hnull : isNullData qb apara = true
  · have hdata : (paramData qb apara).used = SQL_NULL_DATA ∨
        (paramData qb apara).used = SQL_DEFAULT_PARAM := by
      simpa [isNullData] using hnull
    obtain rfl : c = .null := by
      unfold resolveData at hc
      rw [if_pos (.inr hdata)] at hc
      exact (Except.ok.inj hc).symm
    obtain rfl := Except.ok.inj h
    simp [hnull]
  · have hdata : ¬ ((paramData qb apara).used = SQL_NULL_DATA ∨
        (paramData qb apara).used = SQL_DEFAULT_PARAM) := by
      simpa [isNullData] using hnull
    have hconvert : convertParam env.fm qb.conn (env.lo qb.current_row qb.param_number) true
        apara.data_at_exec (pdataOf qb.pdata qb.param_number).lobj_oid apara.precision
        (resolveDefault qb.conn apara.CType
          (effectiveSqlType env.fm ipara.SQLType (PIC_dsp_pgtype qb.conn ipara)))
        (effectiveSqlType env.fm ipara.SQLType (PIC_dsp_pgtype qb.conn ipara))
        (PIC_dsp_pgtype qb.conn ipara) (paramData qb apara).buffer (paramData qb apara).used =
          .ok c := by
      unfold resolveData at hc
      rw [if_neg (by tauto), hmode, hbinary] at hc
      split at hc
      · rename_i hfake
        exact absurd hfake.2 (by decide)
      · split at hc
        · cases hc
        · exact hc
    cases c with
    | null =>
      have hbytea := convertParam_null hconvert
      obtain rfl := Except.ok.inj h
      simp [isBinaryParam, hbytea]
    | unknown => exact absurd hconvert (convertParam_ne_unknown _ _ _ _ _ _ _ _ _ _ _ _)
    | value v =>
      have hformat := convertParam_isbinary hconvert
      obtain ⟨out, -, h⟩ := bind_eq_ok.mp h
      obtain rfl := Except.ok.inj h
      simp [isBinaryParam, hformat, hnull]

end Resolve

/-! ### Parameter `i` of a row -/

section Row

variable {env : Env} {stmt : StatementClass} {row i : Nat} {qb : QueryBuild} {r : Resolved}

/-- The query of row `row` when the parameters before `i` are resolved. -/
def queryAt (stmt : StatementClass) (row i : Nat) : QueryBuild :=
  { bindQuery (stmt.atRow row) with param_number := (i : Int) - 1 }

/-- The row's parameter `i`, resolved. -/
def resolveAt (env : Env) (stmt : StatementClass) (row i : Nat) : Except BindError Resolved :=
  resolveNext env (queryAt stmt row i)

theorem bindQuery_atRow (stmt : StatementClass) (row : Nat) :
    (bindQuery (stmt.atRow row)).clear = queryAt stmt row 0 := rfl

theorem nextType_queryAt (stmt : StatementClass) (row i : Nat) :
    (queryAt stmt row i).nextType = stmt.ipdopts.parameters[i]?.map (·.paramType) := by
  simp [QueryBuild.nextType, queryAt, bindQuery, QB_initialize, StatementClass.atRow]

theorem isOutput_iff : isOutput stmt i = true ↔
    (queryAt stmt row i).nextType = some .output := by
  rw [nextType_queryAt]
  simp [isOutput]

/-- Only the parameter number of a query matters to the next call. -/
theorem resolveNext_of_clear (h : qb.clear = queryAt stmt row i) :
    resolveNext env qb = resolveAt env stmt row i := by
  unfold resolveAt resolveNext
  rw [h]
  rfl

/-- A resolved parameter leaves the query ready for the one after it. -/
theorem resolveAt_next (h : resolveAt env stmt row i = .ok r) :
    r.qb.clear = queryAt stmt row (i + 1) ∧ r.pgType = 0 := by
  obtain ⟨hclear, htype⟩ := ResolveOneParam_next rfl (mapError_eq_ok.mp h)
  refine ⟨?_, htype⟩
  rw [hclear]
  have hnumber : (i : Int) - 1 + 1 = ((i + 1 : Nat) : Int) - 1 := by omega
  simp only [QueryBuild.next, QueryBuild.clear, queryAt, hnumber]
  rfl

/-- An entry has the type and the format of the parameter it is made from. -/
theorem bindEntry_ok {r : Resolved} {e : BindParam} (h : bindEntry r = .ok e) :
    e.paramType = r.pgType ∧ e.paramFormat = if r.isbinary then 1 else 0 := by
  unfold bindEntry at h
  dsimp only at h
  split at h
  · obtain rfl := Except.ok.inj h
    exact ⟨rfl, rfl⟩
  · split at h
    · cases h
    · obtain rfl := Except.ok.inj h
      exact ⟨rfl, rfl⟩

/-- The format of an input parameter of a row. -/
theorem resolveAt_isbinary (hret : stmt.proc_return ≤ i) (hinput : isOutput stmt i = false)
    (h : resolveAt env stmt row i = .ok r) :
    ∃ apara ipara, stmt.apdopts.parameters[i]? = some apara ∧
      stmt.ipdopts.parameters[i]? = some ipara ∧
      r.isbinary = (isBinaryParam env stmt.conn ipara &&
        !isNullData (queryAt stmt row i).next apara) := by
  have hnumber : ((queryAt stmt row i).param_number + 1).toNat = i := by simp [queryAt]
  rcases ResolveOneParam_bind rfl (mapError_eq_ok.mp h) with ⟨hlt, -⟩ | ⟨-, htype, -⟩ |
    ⟨-, -, apara, ipara, hipara, hapara, h⟩
  · have : (i : Int) - 1 + 1 < stmt.proc_return := hlt
    omega
  · rw [(@isOutput_iff stmt row i).mpr htype] at hinput
    cases hinput
  · change stmt.ipdopts.parameters[((queryAt stmt row i).param_number + 1).toNat]? = _ at hipara
    change stmt.apdopts.parameters[((queryAt stmt row i).param_number + 1).toNat]? = _ at hapara
    rw [hnumber] at hipara hapara
    refine ⟨apara, ipara, hapara, hipara, resolveValue_isbinary rfl rfl ?_ h⟩
    rintro hp
    simp [isOutput, hipara, hp] at hinput

end Row

end OdbcDriver
