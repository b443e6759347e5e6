import OdbcDriver.Prepare.ParseTypes

/-!
# Which parameter types fit the markers

The types of a Parse request are those of consecutive parameters, and `$1`, `$2`, ... stand for the
parameters of the command that are no return values. The loop that counts the types skips the first
parameter of a statement that has a return value, and the one that writes them starts where the
loop has met its first parameter, but for the last.
-/

namespace OdbcDriver.Prepare

open CInt (wrap)
open Lib

/-! ### The numbers of the markers -/

section Numbers

variable {env : Env} {qb qb' : QueryBuild} {ms : List Marker} {numbered : List (Int × Int)}

/-- The parameters from `param` on that are no return values, numbered from `dollar + 1` on. -/
def dollars (param dollar : Int) : List Marker → List (Int × Int)
  | [] => []
  | .returnValue :: ms => dollars (param + 1) dollar ms
  | .parameter :: ms => (param, dollar + 1) :: dollars (param + 1) (dollar + 1) ms

/-- A query that is being prepared, with its output parameters. -/
structure Preparing (qb : QueryBuild) (ms : List Marker) : Prop where
  mode : qb.param_mode = .buildingPrepareStatement
  keeps : qb.flags.discardOutput = false
  start : -1 ≤ qb.param_number
  number : qb.param_number ≤ 32767
  /-- A return value is the first parameter, or has been met. -/
  behind : qb.proc_return = 0 ∨
    qb.proc_return = 1 ∧ (0 ≤ qb.param_number ∨ ms.head? = some .returnValue)

theorem processMarker_returnValue
    (h : processMarker env qb .returnValue = .ok (qb', numbered)) :
    qb.param_number ≠ 32767 ∧ numbered = [] ∧
      qb' = { qb with param_number := qb.param_number + 1, proc_return := 1 } := by
  unfold processMarker at h
  split at h
  · cases h
  · rename_i hne
    cases h
    exact ⟨hne, rfl, rfl⟩

theorem processMarker_parameter (hqb : Preparing qb (.parameter :: ms))
    (h : processMarker env qb .parameter = .ok (qb', numbered)) :
    qb.param_number ≠ 32767 ∧ numbered = [(qb.param_number + 1, qb.dollar_number + 1)] ∧
      qb'.param_number = qb.param_number + 1 ∧ qb'.dollar_number = qb.dollar_number + 1 ∧
      qb'.proc_return = qb.proc_return ∧ qb'.param_mode = qb.param_mode ∧
      qb'.flags = qb.flags := by
  unfold processMarker at h
  split at h
  · cases h
  rename_i hne
  obtain ⟨r, hr, h⟩ := bind_eq_ok.mp h
  cases h
  have hnot : ¬ qb.param_number + 1 < qb.proc_return := by
    rcases hqb.behind with h0 | ⟨h1, h | h⟩
    · have := hqb.start
      omega
    · omega
    · cases h
  unfold ResolveOneParam at hr
  simp only [hqb.mode, hqb.keeps, hnot, if_false, ne_eq, reduceCtorEq, not_true_eq_false, and_false,
    not_false_eq_true, Bool.false_eq_true, if_true] at hr
  split at hr
  · cases hr
  · cases hr
    refine ⟨hne, ?_, rfl, rfl, rfl, hqb.mode.symm ▸ rfl, rfl⟩
    simp [Resolved.plain, QueryBuild.append]

/-- **The numbers of a command's markers.** -/
theorem processMarkers_dollars {rest : List Marker} (hqb : Preparing qb (ms ++ rest))
    (h : processMarkers env qb ms = .ok (qb', numbered)) :
    numbered = dollars (qb.param_number + 1) qb.dollar_number ms ∧ Preparing qb' rest ∧
      qb'.param_number = qb.param_number + ms.length ∧
      (qb'.proc_return = 0 ↔ qb.proc_return = 0 ∧ .returnValue ∉ ms) := by
  induction ms generalizing qb numbered with
  | nil =>
    cases h
    exact ⟨rfl, hqb, by simp, by simp⟩
  | cons m ms ih =>
    rw [processMarkers] at h
    obtain ⟨⟨qb₁, first⟩, hfirst, h⟩ := bind_eq_ok.mp h
    obtain ⟨⟨qb₂, others⟩, hothers, h⟩ := bind_eq_ok.mp h
    cases h
    cases m with
    | returnValue =>
      obtain ⟨hne, rfl, rfl⟩ := processMarker_returnValue hfirst
      have hstart := hqb.start
      have hnumber := hqb.number
      have hqb₁ : Preparing { qb with param_number := qb.param_number + 1, proc_return := 1 }
          (ms ++ rest) :=
        ⟨hqb.mode, hqb.keeps, by dsimp only; omega, by dsimp only; omega,
          .inr ⟨rfl, .inl (by dsimp only; omega)⟩⟩
      obtain ⟨rfl, hqb', hparam, hproc⟩ := ih hqb₁ hothers
      refine ⟨rfl, hqb', ?_, ?_⟩
      · rw [hparam]
        push_cast [List.length_cons]
        ring
      · simpa using hproc
    | parameter =>
      obtain ⟨hne, rfl, hparam, hdollar, hproc, hmode, hflags⟩ :=
        processMarker_parameter hqb hfirst
      have hstart := hqb.start
      have hnumber := hqb.number
      have hbehind : qb₁.proc_return = 0 ∨ qb₁.proc_return = 1 ∧
          (0 ≤ qb₁.param_number ∨ (ms ++ rest).head? = some .returnValue) := by
        rw [hproc, hparam]
        exact hqb.behind.imp id fun h => ⟨h.1, .inl (by omega)⟩
      obtain ⟨rfl, hqb', hparam', hproc'⟩ := ih ⟨hmode.trans hqb.mode,
        by rw [hflags]; exact hqb.keeps, by omega, by omega, hbehind⟩ hothers
      refine ⟨?_, hqb', ?_, ?_⟩
      · rw [hparam, hdollar]
        rfl
      · rw [hparam', hparam]
        push_cast [List.length_cons]
        ring
      · rw [hproc', hproc]
        simp

/-- The markers of the commands in front of a command. -/
def earlier (commands : List (List Marker)) (i : Nat) : List Marker := (commands.take i).flatten

/-- **The numbers of a statement's markers**, command by command. -/
theorem processCommands_dollars {commands : List (List Marker)}
    {all : List (List (Int × Int))} (hqb : Preparing qb commands.flatten)
    (hdollar : qb.dollar_number = 0)
    (h : processCommands env qb commands = .ok (qb', all)) :
    (∀ i c, commands[i]? = some c →
      all[i]? = some (dollars (qb.param_number + 1 + (earlier commands i).length) 0 c)) ∧
      qb.param_number + commands.flatten.length ≤ 32767 ∧
      (qb'.proc_return = 0 ∨ qb'.proc_return = 1) ∧
      (qb'.proc_return = 0 ↔ qb.proc_return = 0 ∧ .returnValue ∉ commands.flatten) := by
  induction commands generalizing qb all with
  | nil =>
    cases h
    exact ⟨by simp, by simpa using hqb.number, hqb.behind.imp id And.left, by simp⟩
  | cons c cs ih =>
    rw [processCommands] at h
    obtain ⟨⟨qb₁, first⟩, hfirst, h⟩ := bind_eq_ok.mp h
    obtain ⟨⟨qb₂, others⟩, hothers, h⟩ := bind_eq_ok.mp h
    cases h
    rw [List.flatten_cons] at hqb
    obtain ⟨rfl, hqb₁, hparam, hproc⟩ := processMarkers_dollars hqb hfirst
    have hqb₁' : Preparing { qb₁ with dollar_number := 0 } cs.flatten :=
      ⟨hqb₁.mode, hqb₁.keeps, hqb₁.start, hqb₁.number, hqb₁.behind⟩
    obtain ⟨hall, hbound, hreturn, hproc'⟩ := ih hqb₁' rfl hothers
    refine ⟨fun i c' hc => ?_, ?_, hreturn, ?_⟩
    · cases i with
      | zero =>
        obtain rfl : c = c' := by simpa using hc
        simp [hdollar, earlier]
      | succ i =>
        rw [List.getElem?_cons_succ] at hc
        rw [List.getElem?_cons_succ, hall i c' hc, hparam]
        simp only [earlier, List.take_succ_cons, List.flatten_cons, List.length_append]
        push_cast
        congr 2
        ring
    · dsimp only at hbound
      rw [hparam] at hbound
      rw [List.flatten_cons, List.length_append]
      push_cast
      omega
    · rw [hproc', hproc]
      simp [and_assoc]

end Numbers

/-! ### Places of parameters -/

section Places

variable {param dollar m d : Int} {ms : List Marker}

/-- `$(j + 1)` stands for the parameter that `j` parameters of the command are in front of. -/
theorem mem_dollars_iff : (m, d) ∈ dollars param dollar ms ↔
    ∃ q : Nat, ms[q]? = some .parameter ∧ m = param + q ∧
      d = dollar + 1 + (ms.take q).count .parameter := by
  induction ms generalizing param dollar with
  | nil => simp [dollars]
  | cons x ms ih =>
    cases x with
    | returnValue =>
      rw [dollars, ih]
      constructor
      · rintro ⟨q, hq, rfl, rfl⟩
        exact ⟨q + 1, hq, by push_cast; ring, by simp⟩
      · rintro ⟨q, hq, rfl, rfl⟩
        cases q with
        | zero => cases hq
        | succ q => exact ⟨q, hq, by push_cast; ring, by simp⟩
    | parameter =>
      rw [dollars, List.mem_cons, ih]
      constructor
      · rintro (h | ⟨q, hq, rfl, rfl⟩)
        · obtain ⟨rfl, rfl⟩ := Prod.mk.inj h
          exact ⟨0, rfl, by simp, by simp⟩
        · refine ⟨q + 1, hq, by push_cast; ring, ?_⟩
          rw [List.take_succ_cons, List.count_cons_self]
          push_cast
          ring
      · rintro ⟨q, hq, rfl, rfl⟩
        cases q with
        | zero => exact .inl (by simp)
        | succ q =>
          refine .inr ⟨q, hq, by push_cast; ring, ?_⟩
          rw [List.take_succ_cons, List.count_cons_self]
          push_cast
          ring

/-- The commands that have one marker at most that is no parameter. -/
theorem eq_replicate_of_count (h : ms.length ≤ ms.count .parameter + 1) :
    ms = List.replicate ms.length .parameter ∨
      ∃ k r, ms = List.replicate k .parameter ++ .returnValue :: List.replicate r .parameter := by
  induction ms with
  | nil => exact .inl rfl
  | cons x ms ih =>
    cases x with
    | parameter =>
      rw [List.length_cons, List.count_cons_self] at h
      rcases ih (by omega) with h | ⟨k, r, rfl⟩
      · refine .inl ?_
        rw [List.length_cons, List.replicate_succ, ← h]
      · exact .inr ⟨k + 1, r, by rw [List.replicate_succ]; rfl⟩
    | returnValue =>
      have hcount : ms.count .parameter = ms.length := by
        have := List.count_le_length (a := Marker.parameter) (l := ms)
        rw [List.length_cons, List.count_cons_of_ne (by simp)] at h
        omega
      have hms : ms = List.replicate ms.length .parameter :=
        List.eq_replicate_iff.mpr ⟨rfl, fun b hb => (List.count_eq_length.mp hcount b hb).symm⟩
      refine .inr ⟨0, ms.length, ?_⟩
      rw [← hms]
      rfl

end Places

/-! ### The types of a call -/

section Types

variable {stmt : StatementClass} {call : ParseCall} {end_pidx pidx sta_pidx num_params : Int}
  {fuel : Nat}

/-- Behind the first parameter every one is counted. -/
theorem countTypes_rest (hdiscard : stmt.discard_output_params = false) (hp : 0 ≤ pidx)
    (hlt : pidx < end_pidx) (hnum : 0 < num_params) (hfuel : end_pidx - pidx ≤ fuel) :
    countTypes stmt end_pidx fuel pidx sta_pidx num_params =
      some (sta_pidx, num_params + (end_pidx - pidx)) := by
  induction fuel generalizing pidx num_params with
  | zero => omega
  | succ fuel ih =>
    have hnext : SC_param_next stmt pidx = pidx + 1 := by
      simp [SC_param_next, hdiscard, Int.not_lt.mpr hp]
    rw [countTypes, hnext, if_neg (by omega)]
    by_cases hmore : pidx + 1 < end_pidx
    · rw [if_pos hmore, if_neg (by omega), ih (by omega) hmore (by omega) (by omega)]
      congr 2
      ring
    · rw [if_neg hmore]
      congr 2
      omega

/-- **The loop that counts the types**, by the first parameter it meets. -/
theorem countTypes_eq (hdiscard : stmt.discard_output_params = false)
    (hstart : 0 ≤ SC_param_next stmt pidx) :
    countTypes stmt end_pidx (end_pidx.toNat + 2) pidx sta_pidx 0 =
      if end_pidx < SC_param_next stmt pidx then some (sta_pidx, 0)
      else if SC_param_next stmt pidx < end_pidx then
        some (SC_param_next stmt pidx, end_pidx - SC_param_next stmt pidx + 1)
      else some (sta_pidx, 1) := by
  rw [countTypes]
  by_cases hend : end_pidx < SC_param_next stmt pidx
  · rw [if_pos hend, if_pos hend]
  · rw [if_neg hend, if_neg hend]
    by_cases hmore : SC_param_next stmt pidx < end_pidx
    · rw [if_pos hmore, if_pos hmore, if_pos rfl,
        countTypes_rest hdiscard hstart hmore (by omega) (by omega)]
      congr 2
      ring
    · rw [if_neg hmore, if_neg hmore]
      rfl

/-- The types of `n` parameters, from `i` on. -/
def typesFrom (stmt : StatementClass) (i : Int) (n : Nat) : List Oid :=
  (List.range n).map fun (d : Nat) => paramType stmt.conn stmt.ipdopts (i + d)

@[simp]
theorem length_typesFrom (i : Int) (n : Nat) : (typesFrom stmt i n).length = n := by
  simp [typesFrom]

theorem getElem?_typesFrom {i : Int} {n j : Nat} {t : Oid} :
    (typesFrom stmt i n)[j]? = some t ↔ j < n ∧ paramType stmt.conn stmt.ipdopts (i + j) = t := by
  simp only [typesFrom, List.getElem?_map, Option.map_eq_some_iff, List.getElem?_eq_some_iff,
    List.length_range, List.getElem_range]
  constructor
  · rintro ⟨_, ⟨hj, rfl⟩, h⟩
    exact ⟨hj, h⟩
  · rintro ⟨hj, h⟩
    exact ⟨j, ⟨hj, rfl⟩, h⟩

theorem ParseWithLibpq_none (h : stmt.discard_output_params = true ∨ call.num_params = 0) :
    ParseWithLibpq stmt call = some ⟨0, []⟩ := if_pos h

variable {n : Nat} {cur : Int}

/-- The types of a command whose first parameter is not skipped. -/
theorem ParseWithLibpq_all (hdiscard : stmt.discard_output_params = false)
    (hcur : call.current_exec_param = cur) (hnum : call.num_params = n) (hn : 0 < n)
    (hstart : 0 < cur ∨ cur = 0 ∧ stmt.proc_return = 0) :
    ParseWithLibpq stmt call = some ⟨n, typesFrom stmt cur n⟩ := by
  have hnext : SC_param_next stmt (cur - 1) = cur := by
    unfold SC_param_next
    rw [hdiscard]
    rcases hstart with h | ⟨rfl, h⟩
    · simp [Int.not_lt.mpr (show (0 : Int) ≤ cur - 1 by omega)]
    · simpa using h
  have hcur0 : 0 ≤ cur := by omega
  unfold ParseWithLibpq
  rw [if_neg (by rw [hdiscard, hnum]; simp; omega)]
  simp only [hcur, hnum]
  rw [if_neg (by omega), countTypes_eq hdiscard (by rw [hnext]; exact hcur0), hnext,
    if_neg (by omega)]
  have hlen : (cur + (n : Int) - 1 + 1 - cur).toNat = n := by omega
  by_cases hone : cur < cur + (n : Int) - 1
  · rw [if_pos hone]
    dsimp only
    rw [if_pos (by omega), hlen, show cur + (n : Int) - 1 - cur + 1 = n by ring]
    rfl
  · rw [if_neg hone]
    obtain rfl : n = 1 := by omega
    dsimp only
    rw [if_pos (by decide), hlen]
    rfl

/-- The types of a command whose first parameter is skipped. -/
theorem ParseWithLibpq_skips (hdiscard : stmt.discard_output_params = false)
    (hcur : call.current_exec_param = 0) (hnum : call.num_params = n) (hn : 0 < n)
    (hstart : stmt.proc_return = 1) :
    ParseWithLibpq stmt call = some (if n = 2 then ⟨1, typesFrom stmt 0 2⟩
      else ⟨(n : Int) - 1, typesFrom stmt 1 (n - 1)⟩) := by
  have hnext : SC_param_next stmt (0 - 1) = 1 := by
    unfold SC_param_next
    rw [hdiscard, hstart]
    rfl
  unfold ParseWithLibpq
  rw [if_neg (by rw [hdiscard, hnum]; simp; omega)]
  simp only [hcur, hnum]
  rw [if_neg (by omega), countTypes_eq hdiscard (by rw [hnext]; decide), hnext]
  rcases Nat.lt_trichotomy n 2 with h | rfl | h
  · obtain rfl : n = 1 := by omega
    rfl
  · rfl
  · rw [if_neg (by omega), if_pos (by omega), if_neg (by omega)]
    dsimp only
    rw [if_pos (by omega), show (0 + (n : Int) - 1 + 1 - 1).toNat = n - 1 by omega,
      show 0 + (n : Int) - 1 - 1 + 1 = n - 1 by ring]
    rfl

/-- A count that has left its type counts no parameters. -/
theorem ParseWithLibpq_many (hdiscard : stmt.discard_output_params = false)
    (hcur : call.current_exec_param = 0) (hnum : call.num_params < 0)
    (htotal : wrap 16 stmt.num_params < 0) (hstart : 0 ≤ stmt.proc_return) :
    ParseWithLibpq stmt call = some ⟨0, []⟩ := by
  have hnext : SC_param_next stmt (0 - 1) = stmt.proc_return := by
    unfold SC_param_next
    rw [hdiscard]
    rfl
  unfold ParseWithLibpq
  rw [if_neg (by rw [hdiscard]; simp; omega)]
  simp only [hcur]
  rw [if_pos hnum, countTypes_eq hdiscard (by rw [hnext]; exact hstart), hnext, if_pos (by omega)]
  rfl

end Types

/-! ### The calls of a statement -/

section Calls

variable {commands : List (List Marker)} {call : ParseCall}

theorem wrap_of_length {n : Nat} (h : n ≤ 32767) : wrap 16 n = n := by
  unfold wrap
  omega

theorem laterCalls_spec {i p : Nat} (hbound : p + commands.flatten.length ≤ 32768)
    (h : call ∈ laterCalls i (wrap 16 p) (commands.map fun c => wrap 16 c.length)) :
    ∃ j c, commands[j]? = some c ∧ (c ≠ [] ∧ c.length ≤ 32767) ∧
      call = ⟨i + j, p + (earlier commands j).length, c.length⟩ := by
  induction commands generalizing i p with
  | nil => cases h
  | cons c cs ih =>
    rw [List.flatten_cons, List.length_append] at hbound
    rw [List.map_cons, laterCalls] at h
    split at h
    · rename_i hpos
      have hc : c.length ≤ 32767 ∧ 0 < c.length := by
        unfold wrap at hpos
        omega
      rw [wrap_of_length hc.1, wrap_of_length (n := p) (by omega), List.mem_cons] at h
      rcases h with rfl | h
      · exact ⟨0, c, rfl, ⟨List.ne_nil_of_length_pos hc.2, hc.1⟩, by simp [earlier]⟩
      · obtain ⟨j, c', hc', hne, rfl⟩ := ih (p := p + c.length) (by omega)
          (by push_cast; exact h)
        refine ⟨j + 1, c', hc', hne, ?_⟩
        simp only [earlier, List.take_succ_cons, List.flatten_cons, List.length_append]
        congr 1
        · omega
        · push_cast
          ring
    · rename_i hpos
      obtain ⟨j, c', hc', hne, rfl⟩ := ih (by omega) h
      refine ⟨j + 1, c', hc', hne, ?_⟩
      -- a count that is not positive is 0, or else no markers are left
      have hlen : c.length = 0 := by
        by_contra h0
        have hmem : c'.length ≤ cs.flatten.length :=
          (List.sublist_flatten_of_mem (List.mem_of_getElem? hc')).length_le
        have := List.length_pos_of_ne_nil hne.1
        unfold wrap at hpos
        omega
      simp only [earlier, List.take_succ_cons, List.flatten_cons, List.length_append, hlen]
      congr 1
      · omega
      · simp

/-- **A call**: its command, the markers in front of it and those of it. -/
theorem call_spec (hbound : commands.flatten.length ≤ 32768)
    (h : call ∈ desc_params_and_sync (commands.map fun c => wrap 16 c.length)) :
    ∃ c, commands[call.command]? = some c ∧
      call.current_exec_param = (earlier commands call.command).length ∧
      call.num_params = wrap 16 c.length := by
  cases commands with
  | nil => cases h
  | cons c cs =>
    rw [List.flatten_cons, List.length_append] at hbound
    rw [List.map_cons, desc_params_and_sync, List.mem_cons] at h
    rcases h with rfl | h
    · exact ⟨c, rfl, by simp [earlier], rfl⟩
    · have hwrap : wrap 16 (wrap 16 (c.length : Int)) = wrap 16 c.length := by
        unfold wrap
        omega
      rw [hwrap] at h
      obtain ⟨j, c', hc', hne, rfl⟩ := laterCalls_spec hbound h
      refine ⟨c', ?_, ?_, (wrap_of_length hne.2).symm⟩
      · rw [Nat.add_comm]
        exact hc'
      · rw [Nat.add_comm 1 j]
        simp [earlier]

end Calls

/-! ### When the types fit -/

/-- The types of a Parse request fit: as many are written as have been allocated, and each is the
type of the parameter that the marker of its place stands for. -/
structure TypesMatch (conn : ConnectionClass) (ipdopts : IPDFields) (p : ParamTypes)
    (numbered : List (Int × Int)) : Prop where
  filled : (p.paramTypes.length : Int) = p.num_params
  ordered : ∀ (j : Nat) (t : Oid), p.paramTypes[j]? = some t →
    ∃ m, (m, (j : Int) + 1) ∈ numbered ∧ t = paramType conn ipdopts m

/-- The commands whose types fit. `type` is the type of a parameter. -/
inductive TypesFit (discard_output_params fake_params : Bool) (commands : List (List Marker))
    (i : Nat) (c : List Marker) (type : Int → Oid) : Prop
  /-- No types are sent. -/
  | discarded (h : discard_output_params = true)
  | faked (h : fake_params = true)
  /-- The statement has no return value. -/
  | noReturn (h : .returnValue ∉ commands.flatten)
  /-- The command has no return value, and others with markers are in front of it. -/
  | behind (h : earlier commands i ≠ []) (hc : .returnValue ∉ c)
  /-- It is the first with markers, and has one at most. -/
  | few (h : earlier commands i = []) (hc : c.length ≤ 1)
  /-- It has more markers than an `SQLSMALLINT` can count. -/
  | many (h : earlier commands i = []) (hc : 32767 < c.length)
  /-- It has not two markers, one return value at most, and up to it parameters of one type. -/
  | shifted (k r : Nat) (x : Marker) (h : earlier commands i = []) (hlen : c.length ≠ 2)
      (hc : c = List.replicate k .parameter ++ x :: List.replicate r .parameter)
      (hx : x = .returnValue ∨ r = 0) (htypes : ∀ j : Nat, j < k → type j = type (j + 1))

section Fit

variable {stmt : StatementClass} {ms : List Marker} {base : Int} {n : Nat} {p : ParamTypes}

theorem typesMatch_nil (conn : ConnectionClass) (ipdopts : IPDFields)
    (numbered : List (Int × Int)) : TypesMatch conn ipdopts ⟨0, []⟩ numbered :=
  ⟨rfl, by simp⟩

/-- Types from `i` on fit when each has its marker. -/
theorem typesMatch_iff {i : Int} : TypesMatch stmt.conn stmt.ipdopts ⟨n, typesFrom stmt i n⟩
    (dollars base 0 ms) ↔ ∀ j < n, ∃ q : Nat, ms[q]? = some .parameter ∧
      (ms.take q).count .parameter = j ∧
      paramType stmt.conn stmt.ipdopts (i + j) = paramType stmt.conn stmt.ipdopts (base + q) := by
  constructor
  · intro h j hj
    obtain ⟨m, hm, htype⟩ := h.ordered j _ (getElem?_typesFrom.mpr ⟨hj, rfl⟩)
    obtain ⟨q, hq, rfl, hcount⟩ := mem_dollars_iff.mp hm
    exact ⟨q, hq, by omega, htype⟩
  · refine fun h => ⟨by simp, fun j t ht => ?_⟩
    obtain ⟨hj, rfl⟩ := getElem?_typesFrom.mp ht
    obtain ⟨q, hq, rfl, htype⟩ := h j hj
    exact ⟨base + q, mem_dollars_iff.mpr ⟨q, hq, rfl, by ring⟩, htype⟩

/-- A command whose markers are all parameters. -/
theorem eq_parameter_of_notMem (h : .returnValue ∉ ms) {q : Nat} (hq : q < ms.length) :
    ms[q]? = some .parameter ∧ (ms.take q).count .parameter = q := by
  have hall : ∀ x ∈ ms, x = .parameter := by
    intro x hx
    cases x with
    | parameter => rfl
    | returnValue => exact absurd hx h
  constructor
  · rw [List.getElem?_eq_getElem hq, hall _ (List.getElem_mem hq)]
  · rw [List.count_eq_length.mpr fun b hb => (hall b (List.mem_of_mem_take hb)).symm,
      List.length_take]
    omega

/-- Types that begin with the command's first marker fit when no marker is a return value. -/
theorem typesMatch_all_iff (hn : ms.length = n) :
    TypesMatch stmt.conn stmt.ipdopts ⟨n, typesFrom stmt base n⟩ (dollars base 0 ms) ↔
      .returnValue ∉ ms := by
  rw [typesMatch_iff]
  constructor
  · intro h hmem
    have hpos := List.length_pos_of_mem hmem
    obtain ⟨q, hq, hcount, -⟩ := h (n - 1) (by omega)
    -- all markers in front of the last parameter are parameters, and it is the last marker
    have hqlen := (List.getElem?_eq_some_iff.mp hq).1
    have hle := List.count_le_length (a := Marker.parameter) (l := ms.take q)
    rw [hcount, List.length_take] at hle
    obtain rfl : q = n - 1 := by omega
    have hfull : (ms.take (n - 1)).count .parameter = (ms.take (n - 1)).length := by
      rw [hcount, List.length_take]
      omega
    obtain ⟨x, hx⟩ := List.mem_iff_getElem?.mp hmem
    have hxlen := (List.getElem?_eq_some_iff.mp hx).1
    rcases Nat.lt_or_ge x (n - 1) with hlt | hge
    · have htake : (ms.take (n - 1))[x]? = some .returnValue := by
        rw [List.getElem?_take_of_lt hlt, hx]
      exact absurd (List.count_eq_length.mp hfull _ (List.mem_of_getElem? htake)) (by simp)
    · obtain rfl : x = n - 1 := by omega
      rw [hx] at hq
      cases hq
  · intro h j hj
    obtain ⟨hq, hcount⟩ := eq_parameter_of_notMem h (q := j) (by omega)
    exact ⟨j, hq, hcount, rfl⟩

variable {k r : Nat} {x : Marker}

theorem getElem?_replicate_around {q : Nat} (hq : q < k + 1 + r) (hne : q ≠ k) :
    (List.replicate k Marker.parameter ++ x :: List.replicate r .parameter)[q]? =
      some .parameter := by
  rcases Nat.lt_or_gt_of_ne hne with h | h
  · rw [List.getElem?_append_left (by simpa using h), List.getElem?_replicate_of_lt h]
  · obtain ⟨d, rfl⟩ := Nat.exists_eq_add_of_lt h
    rw [List.getElem?_append_right (by simp; omega), List.length_replicate,
      show k + d + 1 - k = d + 1 by omega, List.getElem?_cons_succ,
      List.getElem?_replicate_of_lt (by omega)]

theorem count_take_replicate {q : Nat} (hq : q ≤ k) :
    ((List.replicate k Marker.parameter ++ x :: List.replicate r .parameter).take q).count
      .parameter = q := by
  rw [List.take_append_of_le_length (by simpa using hq), List.take_replicate,
    List.count_replicate_self]
  omega

theorem count_take_replicate_succ {q : Nat} (hq : k ≤ q) (hlt : q < k + r + 1) :
    ((List.replicate k Marker.parameter ++ Marker.returnValue ::
      List.replicate r Marker.parameter).take (q + 1)).count Marker.parameter = q := by
  obtain ⟨d, rfl⟩ := Nat.exists_eq_add_of_le hq
  rw [List.take_append, List.take_of_length_le (by simp; omega), List.count_append,
    List.count_replicate_self, List.length_replicate, show k + d + 1 - k = d + 1 by omega,
    List.take_succ_cons, List.count_cons_of_ne (by simp), List.take_replicate,
    List.count_replicate_self]
  omega

/-- Types that begin with the second marker fit when one marker at most is no parameter, and the
parameters up to it, or else all, have one type. -/
theorem typesMatch_skips_iff (hn : ms.length = n + 1) (hpos : 1 < n) :
    TypesMatch stmt.conn stmt.ipdopts ⟨n, typesFrom stmt 1 n⟩ (dollars 0 0 ms) ↔
      ∃ (k r : Nat) (x : Marker),
        ms = List.replicate k .parameter ++ x :: List.replicate r .parameter ∧
        (x = .returnValue ∨ r = 0) ∧ ∀ j : Nat, j < k →
          paramType stmt.conn stmt.ipdopts j = paramType stmt.conn stmt.ipdopts (j + 1) := by
  rw [typesMatch_iff]
  constructor
  · intro h
    obtain ⟨q, hq, hcount, -⟩ := h (n - 1) (by omega)
    have hmany : ms.length ≤ ms.count .parameter + 1 := by
      have hsplit : (ms.take q ++ ms.drop q).count Marker.parameter =
          (ms.take q).count .parameter + (ms.drop q).count .parameter := List.count_append
      rw [List.take_append_drop, hcount] at hsplit
      have hdrop : 0 < (ms.drop q).count .parameter := by
        refine List.count_pos_iff.mpr (List.mem_of_getElem? (i := 0) ?_)
        rw [List.getElem?_drop]
        exact hq
      omega
    rcases eq_replicate_of_count hmany with hall | ⟨k, r, hc⟩
    · have hc : ms = List.replicate n .parameter ++ .parameter :: List.replicate 0 .parameter := by
        rw [hall, hn, List.replicate_succ', List.replicate_zero]
      refine ⟨n, 0, .parameter, hc, .inr rfl, fun j hj => ?_⟩
      obtain ⟨q, hq, hcount, htype⟩ := h j hj
      have hlt := (List.getElem?_eq_some_iff.mp hq).1
      rw [hc, count_take_replicate (by omega)] at hcount
      subst hcount
      rw [← zero_add (q : Int), ← htype]
      congr 1
      ring
    · refine ⟨k, r, .returnValue, hc, .inl rfl, fun j hj => ?_⟩
      have hlen : k + r = n := by
        have := congrArg List.length hc
        simp only [List.length_append, List.length_cons, List.length_replicate] at this
        omega
      obtain ⟨q, hq, hcount, htype⟩ := h j (by omega)
      have hlt := (List.getElem?_eq_some_iff.mp hq).1
      have hqj : q = j := by
        rcases Nat.lt_or_ge k q with hkq | hkq
        · obtain ⟨d, rfl⟩ := Nat.exists_eq_add_of_lt hkq
          rw [hc, count_take_replicate_succ (by omega) (by omega)] at hcount
          omega
        · rw [hc, count_take_replicate hkq] at hcount
          exact hcount
      subst hqj
      rw [← zero_add (q : Int), ← htype]
      congr 1
      ring
  · rintro ⟨k, r, x, hc, hx, htypes⟩ j hj
    have hlen : k + r = n := by
      have := congrArg List.length hc
      simp only [List.length_append, List.length_cons, List.length_replicate] at this
      omega
    rcases Nat.lt_or_ge j k with hjk | hjk
    · refine ⟨j, ?_, ?_, ?_⟩
      · rw [hc, getElem?_replicate_around (by omega) (by omega)]
      · rw [hc, count_take_replicate hjk.le]
      · rw [zero_add, htypes j hjk]
        congr 1
        ring
    · obtain rfl := hx.resolve_right (by omega)
      refine ⟨j + 1, ?_, ?_, ?_⟩
      · rw [hc, getElem?_replicate_around (by omega) (by omega)]
      · rw [hc, count_take_replicate_succ hjk (by omega)]
      · push_cast
        congr 1
        ring

end Fit

/-! ### Every Parse request -/

section Requests

variable {env : Env} {stmt : StatementClass} {fake_params param_cast : Bool}
  {commands : List (List Marker)} {prep : Prepared} {call : ParseCall}

/-- What `prepareParametersNoDesc` leaves of a statement. -/
theorem prepareParametersNoDesc_spec
    (h : prepareParametersNoDesc env (PGAPI_NumParams stmt commands) fake_params param_cast
      commands = .ok prep) :
    prep.stmt = { PGAPI_NumParams stmt commands with proc_return := prep.stmt.proc_return } ∧
      (prep.counts = commands.map fun c => if fake_params then 0 else wrap 16 c.length) ∧
      (stmt.discard_output_params = false → fake_params = false →
        (∀ i c, commands[i]? = some c →
          prep.numbered[i]? = some (dollars (earlier commands i).length 0 c)) ∧
        commands.flatten.length ≤ 32768 ∧
        (prep.stmt.proc_return = 0 ∨ prep.stmt.proc_return = 1) ∧
        (prep.stmt.proc_return = 0 ↔ .returnValue ∉ commands.flatten)) := by
  unfold prepareParametersNoDesc at h
  obtain ⟨⟨qb, numbered⟩, hrun, h⟩ := bind_eq_ok.mp h
  cases h
  refine ⟨rfl, rfl, fun hdiscard hfake => ?_⟩
  subst hfake
  have hbehind : (PGAPI_NumParams stmt commands).proc_return = 0 ∨
      (PGAPI_NumParams stmt commands).proc_return = 1 ∧
        commands.flatten.head? = some .returnValue := by
    unfold PGAPI_NumParams
    dsimp only
    split
    · rename_i heq
      exact .inr ⟨rfl, by rw [heq]; rfl⟩
    · exact .inl rfl
  obtain ⟨hall, hbound, hreturn, hproc⟩ := processCommands_dollars
    ⟨rfl, hdiscard, Int.le_refl (-1), (by decide : (-1 : Int) ≤ 32767), hbehind.imp id fun h => ⟨h.1, .inr h.2⟩⟩ rfl hrun
  refine ⟨fun i c hc => ?_, ?_, hreturn, hproc.trans ⟨And.right, fun hnot => ⟨?_, hnot⟩⟩⟩
  · rw [hall i c hc]
    congr 2
    exact zero_add _
  · change (-1 : Int) + _ ≤ _ at hbound
    omega
  · exact hbehind.resolve_right fun h => hnot (List.mem_of_head? h.2)

theorem laterCalls_zero (i : Nat) (num_pa : Int) (commands : List (List Marker)) :
    laterCalls i num_pa (commands.map fun _ => 0) = [] := by
  induction commands generalizing i with
  | nil => rfl
  | cons c cs ih => exact ih (i + 1)

/-- Fake parameters have no types. -/
theorem num_params_of_fake (h : call ∈ desc_params_and_sync (commands.map fun _ => 0)) :
    call.num_params = 0 := by
  cases commands with
  | nil => cases h
  | cons c cs =>
    rw [List.map_cons, desc_params_and_sync, laterCalls_zero, List.mem_singleton] at h
    rw [h]

theorem mem_flatten_of_getElem? {i : Nat} {c : List Marker} (hc : commands[i]? = some c)
    {m : Marker} (hm : m ∈ c) : m ∈ commands.flatten :=
  List.mem_flatten.mpr ⟨c, List.mem_of_getElem? hc, hm⟩

/-- Only one command has no markers in front of it and too many to be counted. -/
theorem earlier_of_many {i : Nat} {c : List Marker} (hc : commands[i]? = some c)
    (hbound : commands.flatten.length ≤ 32768) (hmany : 32767 < c.length) :
    earlier commands i = [] ∧ commands.flatten.length = 32768 := by
  obtain ⟨hlt, hget⟩ := List.getElem?_eq_some_iff.mp hc
  have hsplit : commands.flatten = earlier commands i ++ (c ++ (commands.drop (i + 1)).flatten) := by
    conv_lhs => rw [← List.take_append_drop i commands, List.drop_eq_getElem_cons hlt, hget]
    simp [earlier]
  have hlen := congrArg List.length hsplit
  rw [List.length_append, List.length_append] at hlen
  exact ⟨List.eq_nil_of_length_eq_zero (by omega), by omega⟩

/-- A procedure call with two parameters besides its return value, and a query behind it. -/
def callStatement : StatementClass where
  conn := sampleConn
  num_params := 0
  proc_return := -1
  discard_output_params := false
  exec_current_row := -1
  apdopts := ⟨[], 0, 0, 1, none⟩
  ipdopts := ⟨[⟨.output, .integer, 0⟩, ⟨.input, .integer, 0⟩, ⟨.output, .integer, 0⟩]⟩
  pdata := []
  statement_type := .other
  use_server_side_prepare := true
  use_batch_protocol := false
  backend_support_batch_proto := false

end Requests

end OdbcDriver.Prepare
