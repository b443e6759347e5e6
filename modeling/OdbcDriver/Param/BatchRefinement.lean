import OdbcDriver.Param.BatchBuild
import OdbcDriver.Param.BatchHoles

/-!
# A batch against its rows

What the server is told of a row of a batch, against what it is told when the row is executed
on its own. The two agree when no parameter is an output parameter, ignored rows can be
resolved, and no binary parameter is null in some rows only.
-/

namespace OdbcDriver

open Lib

/-! ### What the server is told -/

/-- Row `k` of the batch is described as `p` describes it. -/
def DescribesRow (b : BatchArgs) (k : Nat) (p : BindArgs) : Prop :=
  b.nParams = p.params.length ∧ b.resultFormat = p.resultFormat ∧
    ∀ j < b.nParams, b.entry k j = p.params[j]?

/-- The batch is built, and describes each executed row, in order, as the row is described on
its own. -/
def BatchDescribes (env : Env) (stmt : StatementClass) : Prop :=
  ∃ b, build_libpq_bind_params_batch env stmt = .ok b ∧
    b.nBatchCount = (usefulRows stmt).length ∧
    ∀ k row, (usefulRows stmt)[k]? = some row → ∀ p,
      build_libpq_bind_params env (stmt.atRow row) = .ok p → DescribesRow b k p

/-- The rows that are executed can be built on their own. -/
def RowsBuild (env : Env) (stmt : StatementClass) : Prop :=
  ∀ row ∈ usefulRows stmt, ∃ p, build_libpq_bind_params env (stmt.atRow row) = .ok p

/-- Parameter `i` is binary, and null in some of the executed rows only. -/
def MixesNulls (env : Env) (stmt : StatementClass) (i : Nat) : Prop :=
  ∃ apara ipara, stmt.apdopts.parameters[i]? = some apara ∧
    stmt.ipdopts.parameters[i]? = some ipara ∧ isBinaryParam env stmt.conn ipara = true ∧
    ∃ row ∈ usefulRows stmt, ∃ row' ∈ usefulRows stmt,
      isNullData (queryAt stmt row i).next apara = true ∧
        isNullData (queryAt stmt row' i).next apara = false

/-- What a batch asks for to be built like its rows. -/
structure BatchBuilds (env : Env) (stmt : StatementClass) : Prop where
  sendsAll : SendsAll stmt
  num_params : 0 < stmt.num_params
  fits : 8 * (stmt.num_params * stmt.apdopts.paramset_size) ≤ INT_MAX
  ignored : ∀ row < stmt.apdopts.paramset_size, isIgnored stmt row = true →
    RowResolves env stmt row

/-- What a batch asks for to describe its rows. -/
structure BatchSafe (env : Env) (stmt : StatementClass) : Prop extends BatchBuilds env stmt where
  formats : ∀ i < stmt.num_params, ¬ MixesNulls env stmt i

section Safe

variable {env : Env} {stmt : StatementClass} {row i k : Nat} {b : BatchArgs}

/-- The type and the format of an entry. -/
theorem entryAt_ok (hall : SendsAll stmt) (hi : i < stmt.num_params) {e : BindParam}
    (h : entryAt env stmt row i = .ok e) :
    e.paramType = 0 ∧ ∃ apara ipara, stmt.apdopts.parameters[i]? = some apara ∧
      stmt.ipdopts.parameters[i]? = some ipara ∧
      e.paramFormat = if isBinaryParam env stmt.conn ipara &&
        !isNullData (queryAt stmt row i).next apara then 1 else 0 := by
  obtain ⟨r, hr, he⟩ := bind_eq_ok.mp h
  have hret : stmt.proc_return ≤ i := by have := hall.proc_return; omega
  obtain ⟨apara, ipara, hapara, hipara, hbinary⟩ := resolveAt_isbinary hret (hall.isOutput i hi) hr
  have htype := (resolveAt_next hr).2
  obtain ⟨ht, hf⟩ := bindEntry_ok he
  exact ⟨ht.trans htype, apara, ipara, hapara, hipara, by rw [hf, hbinary]⟩

/-- The entries of a row, one for each parameter. -/
theorem rowEntries_getElem? {es : List BindParam} (hes : rowEntries env stmt row = .ok es)
    {j : Nat} {e : BindParam} (he : es[j]? = some e) :
    j < stmt.num_params ∧ entryAt env stmt row j = .ok e := by
  obtain ⟨a, ha, h⟩ := getElem?_of_mapM hes he
  obtain ⟨hlt, rfl⟩ : j < stmt.num_params ∧ j = a := by
    simpa [List.getElem?_eq_some_iff] using ha
  exact ⟨hlt, h⟩

theorem rowEntries_length {es : List BindParam} (hes : rowEntries env stmt row = .ok es) :
    es.length = stmt.num_params := by
  rw [length_of_mapM hes, List.length_range]

theorem rowEntries_exists {es : List BindParam} (hes : rowEntries env stmt row = .ok es) {j : Nat}
    (hj : j < stmt.num_params) : ∃ e, es[j]? = some e :=
  ⟨_, List.getElem?_eq_getElem (by rw [rowEntries_length hes]; exact hj)⟩

/-- A row that can be built on its own has its entries. -/
theorem build_eq_ok_iff (hall : SendsAll stmt) (hpos : 0 < stmt.num_params)
    (halloc : stmt.num_params ≤ stmt.ipdopts.parameters.length) {p : BindArgs} :
    build_libpq_bind_params env (stmt.atRow row) = .ok p ↔
      ∃ es, rowEntries env stmt row = .ok es ∧ p = ⟨es, 0⟩ := by
  rw [build_libpq_bind_params_eq hall hpos halloc]
  cases rowEntries env stmt row <;> simp [Except.map, eq_comm]

/-- The arrays before the first row, with the count that every row will leave. -/
def BatchArgs.start (stmt : StatementClass) : BatchArgs :=
  { BatchArgs.empty with nParams := stmt.num_params }

/-- Whatever the first row finds in the count of parameters is dropped. -/
theorem batchRows_start {rows : List Nat} (hrows : rows ≠ []) :
    rows.foldlM (batchRow env stmt) .empty = rows.foldlM (batchRow env stmt) (.start stmt) := by
  cases rows with
  | nil => exact absurd rfl hrows
  | cons row rows => rfl

/-- **A batch whose parameters are all sent** is built when its ignored rows resolve and its
executed rows can be built, and holds these. -/
theorem build_batch_iff (hall : SendsAll stmt) (hpos : 0 < stmt.num_params)
    (halloc : stmt.num_params ≤ stmt.ipdopts.parameters.length)
    (hrows : 0 < stmt.apdopts.paramset_size) :
    build_libpq_bind_params_batch env stmt = .ok b ↔
      8 * (stmt.num_params * stmt.apdopts.paramset_size) ≤ INT_MAX ∧
      (∀ row < stmt.apdopts.paramset_size, isIgnored stmt row = true →
        RowResolves env stmt row) ∧
      ∃ ess, (usefulRows stmt).mapM (rowEntries env stmt) = .ok ess ∧
        ess.foldl (BatchArgs.addRow stmt.num_params) (.start stmt) = b := by
  have hsent : num_discard_params stmt < stmt.num_params := by
    rw [num_discard_params_eq hall]
    omega
  have hne : List.range stmt.apdopts.paramset_size ≠ [] := by simp; omega
  rw [build_batch_eq_ok, if_pos hsent, batchRows_start hne,
    batchRows_eq_ok hall hpos rfl]
  simp only [List.mem_range, usefulRows]
  tauto

/-- The arrays of such a batch. -/
theorem holds_of_build {ess : List (List BindParam)}
    (hess : (usefulRows stmt).mapM (rowEntries env stmt) = .ok ess)
    (hb : ess.foldl (BatchArgs.addRow stmt.num_params) (.start stmt) = b) :
    Holds stmt.num_params b ess := by
  have hstart : Holds stmt.num_params (.start stmt) [] :=
    ⟨rfl, rfl, rfl, nofun, nofun⟩
  have hlength : ∀ es ∈ ess, es.length = stmt.num_params := by
    intro es hes
    obtain ⟨k, hk⟩ := List.getElem?_of_mem hes
    obtain ⟨row, -, hrow⟩ := getElem?_of_mapM hess hk
    exact rowEntries_length hrow
  rw [← hb]
  exact holds_foldl hstart nofun ess hlength

/-- What such a batch says of a parameter: the value of its row, and the type and the format
of the last row. -/
theorem Holds.entry {ess : List (List BindParam)} (h : Holds stmt.num_params b ess)
    {es last : List BindParam} (hes : ess[k]? = some es) (hlast : ess.getLast? = some last)
    {j : Nat} {e e' : BindParam} (he : es[j]? = some e) (he' : last[j]? = some e') :
    b.entry k j = some ⟨e'.paramType, e.paramValue, e.paramLength, e'.paramFormat⟩ := by
  obtain ⟨hvalue, hlength⟩ := h.values k es hes j e he
  obtain ⟨htype, hformat⟩ := h.types last hlast j e' he'
  simp [BatchArgs.entry, h.nParams, hvalue, hlength, htype, hformat]

/-- The formats of a parameter in two executed rows. -/
theorem format_eq (hall : SendsAll stmt) (hsafe : ¬ MixesNulls env stmt i)
    (hi : i < stmt.num_params) {row' : Nat} (hrow : row ∈ usefulRows stmt)
    (hrow' : row' ∈ usefulRows stmt) {e e' : BindParam} (he : entryAt env stmt row i = .ok e)
    (he' : entryAt env stmt row' i = .ok e') : e.paramFormat = e'.paramFormat := by
  obtain ⟨-, apara, ipara, hapara, hipara, hf⟩ := entryAt_ok hall hi he
  obtain ⟨-, apara', ipara', hapara', hipara', hf'⟩ := entryAt_ok hall hi he'
  obtain rfl := Option.some.inj (hapara.symm.trans hapara')
  obtain rfl := Option.some.inj (hipara.symm.trans hipara')
  rw [hf, hf']
  cases hbinary : isBinaryParam env stmt.conn ipara with
  | false => rfl
  | true =>
    have hmix : ∀ r ∈ usefulRows stmt, ∀ r' ∈ usefulRows stmt,
        isNullData (queryAt stmt r i).next apara = true →
          isNullData (queryAt stmt r' i).next apara = true := by
      intro r hr r' hr' hnull
      by_contra hnull'
      exact hsafe ⟨apara, ipara, hapara, hipara, hbinary, r, hr, r', hr', hnull, by simpa using hnull'⟩
    have hsame : isNullData (queryAt stmt row i).next apara =
        isNullData (queryAt stmt row' i).next apara :=
      Bool.eq_iff_iff.mpr ⟨hmix row hrow row' hrow', hmix row' hrow' row hrow⟩
    rw [hsame]

/-- **A safe batch describes its rows.** -/
theorem describes_of_safe (hsafe : BatchSafe env stmt) (hrows : RowsBuild env stmt)
    (huse : usefulRows stmt ≠ []) : BatchDescribes env stmt := by
  have hall := hsafe.sendsAll
  have hpos := hsafe.num_params
  obtain ⟨row₀, hrow₀⟩ := List.exists_mem_of_ne_nil _ huse
  have hsize : 0 < stmt.apdopts.paramset_size := by
    have := List.mem_range.mp (List.mem_filter.mp hrow₀).1
    omega
  have halloc : stmt.num_params ≤ stmt.ipdopts.parameters.length := by
    obtain ⟨p, hp⟩ := hrows row₀ hrow₀
    by_contra hlt
    simp [build_libpq_bind_params, Nat.lt_of_not_le hlt] at hp
  obtain ⟨ess, hess⟩ : ∃ ess, (usefulRows stmt).mapM (rowEntries env stmt) = .ok ess := by
    rw [exists_mapM_eq_ok]
    intro row hrow
    obtain ⟨p, hp⟩ := hrows row hrow
    obtain ⟨es, hes, -⟩ := (build_eq_ok_iff hall hpos halloc).mp hp
    exact ⟨es, hes⟩
  refine ⟨_, (build_batch_iff hall hpos halloc hsize).mpr
    ⟨hsafe.fits, hsafe.ignored, ess, hess, rfl⟩, ?_⟩
  have hholds := holds_of_build hess rfl
  have hlen := length_of_mapM hess
  refine ⟨hholds.nBatchCount.trans hlen, ?_⟩
  intro k row hk p hp
  obtain ⟨es, hes, rfl⟩ := (build_eq_ok_iff hall hpos halloc).mp hp
  have hk' : ess[k]? = some es := by
    obtain ⟨hlt, -⟩ := List.getElem?_eq_some_iff.mp hk
    have hget : ess[k]? = some ess[k] := List.getElem?_eq_getElem (by omega)
    obtain ⟨row', hrow', hes'⟩ := getElem?_of_mapM hess hget
    obtain rfl := Option.some.inj (hk.symm.trans hrow')
    rw [hget, ← Except.ok.inj (hes.symm.trans hes')]
  refine ⟨hholds.nParams.trans (rowEntries_length hes).symm, hholds.resultFormat, ?_⟩
  intro j hj
  rw [hholds.nParams] at hj
  obtain ⟨last, hlast⟩ : ∃ last, ess.getLast? = some last := by
    cases hl : ess.getLast? with
    | none => simp [List.getLast?_eq_none_iff.mp hl] at hk'
    | some last => exact ⟨last, rfl⟩
  obtain ⟨m, hm⟩ := List.getElem?_of_mem (List.mem_of_getLast? hlast)
  obtain ⟨rowₗ, hrowₗ, hesₗ⟩ := getElem?_of_mapM hess hm
  obtain ⟨e, he⟩ := rowEntries_exists hes hj
  obtain ⟨e', he'⟩ := rowEntries_exists hesₗ hj
  have hentry := (rowEntries_getElem? hes he).2
  have hentry' := (rowEntries_getElem? hesₗ he').2
  rw [hholds.entry hk' hlast he he']
  change _ = es[j]?
  rw [he, (entryAt_ok hall hj hentry').1,
    ← (entryAt_ok hall hj hentry).1,
    format_eq hall (hsafe.formats j hj) hj (List.mem_of_getElem? hrowₗ) (List.mem_of_getElem? hk)
      hentry' hentry]

end Safe

/-! ### The batch and its rows -/

section Main

variable {env : Env} {stmt : StatementClass} {b : BatchArgs}

/-- The executed rows of a batch, two at least. -/
theorem usefulRows_two (hcan : SC_CanUseBatchProto stmt = true) :
    ∃ row₀ row₁, (usefulRows stmt)[0]? = some row₀ ∧ (usefulRows stmt)[1]? = some row₁ := by
  simp only [SC_CanUseBatchProto, Bool.and_eq_true, decide_eq_true_eq] at hcan
  have hlength : 1 < (usefulRows stmt).length := hcan.1.2
  exact ⟨_, _, List.getElem?_eq_getElem (by omega), List.getElem?_eq_getElem hlength⟩

/-- A described row has an entry for each of its parameters. -/
theorem DescribesRow.exists_entry {k j : Nat} {p : BindArgs} (h : DescribesRow b k p)
    (hj : j < b.nParams) : ∃ e, b.entry k j = some e ∧ p.params[j]? = some e := by
  obtain ⟨hlength, -, hentry⟩ := h
  refine ⟨p.params[j], ?_, List.getElem?_eq_getElem (by omega)⟩
  rw [hentry j hj]
  exact List.getElem?_eq_getElem _

/-- An entry has been written. -/
theorem entry_written {k j : Nat} {e : BindParam} (h : b.entry k j = some e) :
    b.paramTypes j = some e.paramType ∧ b.paramLengths (k * b.nParams + j) ≠ none := by
  obtain ⟨t, ht, h⟩ := Option.bind_eq_some_iff.mp h
  obtain ⟨l, hl, h⟩ := Option.bind_eq_some_iff.mp h
  obtain ⟨f, -, h⟩ := Option.bind_eq_some_iff.mp h
  obtain rfl := Option.some.inj h
  exact ⟨ht, by rw [hl]; exact Option.some_ne_none l⟩

/-- A row with a parameter to send has one that is written. -/
theorem sent_pos (halloc : stmt.num_params ≤ stmt.ipdopts.parameters.length)
    (hsent : num_discard_params stmt < stmt.num_params) :
    0 < (List.range stmt.num_params).countP (isSent stmt) := by
  by_contra hzero
  have hnone : ∀ i < stmt.num_params,
      stmt.discard_output_params = true ∧ isOutput stmt i = true := by
    intro i hi
    have hi' := List.countP_eq_zero.mp (Nat.eq_zero_of_not_pos hzero) i (List.mem_range.mpr hi)
    exact isSent_eq_false_iff.mp (by simpa using hi')
  have hout : num_output_params stmt = stmt.num_params := by
    unfold num_output_params
    rw [Nat.min_eq_left halloc, List.countP_eq_length.mpr (fun i hi => (hnone i ?_).2), List.length_range]
    exact List.mem_range.mp hi
  have hdiscard : stmt.num_params ≤ num_discard_params stmt := by
    unfold num_discard_params
    dsimp only
    by_cases hn : stmt.num_params = 0
    · rw [hn]
      split <;> split <;> omega
    · rw [if_pos (hnone 0 (by omega)).1, hout]
      split <;> omega
  omega

/-- A batch that discards an output parameter has a hole where it describes a row. -/
theorem isSent_of_describes {row₀ : Nat} {p₀ p₁ : BindArgs}
    (hbuild : build_libpq_bind_params env (stmt.atRow row₀) = .ok p₀)
    (hsent : num_discard_params stmt < stmt.num_params)
    (hrows : 0 < stmt.apdopts.paramset_size)
    (hb : (List.range stmt.apdopts.paramset_size).foldlM (batchRow env stmt) .empty = .ok b)
    (h₀ : DescribesRow b 0 p₀) (h₁ : DescribesRow b 1 p₁) :
    ∀ i < stmt.num_params, isSent stmt i = true := by
  by_contra hnot
  push Not at hnot
  classical
  -- the first parameter that is left out
  obtain ⟨ho, hout⟩ := Nat.find_spec hnot
  have hmin : ∀ i < Nat.find hnot, isSent stmt i = true := by
    intro i hi
    by_contra hi'
    exact Nat.find_min hnot hi ⟨by omega, hi'⟩
  generalize Nat.find hnot = o at ho hout hmin
  have hhole := batchRows_hole ho (by simpa using hout) rfl hb
  have hcount := batchRows_nParams hrows hb
  have hcountle : o ≤ b.nParams := by
    have hall : (List.range o).countP (isSent stmt) = o := by
      rw [List.countP_eq_length.mpr (fun i hi => hmin i (List.mem_range.mp hi)), List.length_range]
    calc o = (List.range o).countP (isSent stmt) := hall.symm
      _ ≤ (List.range stmt.num_params).countP (isSent stmt) :=
        (List.range_sublist.mpr ho.le).countP_le
      _ = b.nParams := hcount.symm
  rcases Nat.lt_or_ge o b.nParams with hlt | hge
  · obtain ⟨e, he, -⟩ := h₀.exists_entry hlt
    refine (entry_written he).2 ?_
    rw [Nat.zero_mul, Nat.zero_add]
    exact hhole
  · have ho' : o = b.nParams := by omega
    have hpos : 0 < b.nParams := by
      rw [hcount]
      exact sent_pos (build_ok hbuild hsent).1 hsent
    obtain ⟨e, he, -⟩ := h₁.exists_entry hpos
    refine (entry_written he).2 ?_
    rw [Nat.one_mul, Nat.add_zero, ← ho']
    exact hhole

/-- **A batch that describes its rows is safe.** -/
theorem safe_of_describes (hcan : SC_CanUseBatchProto stmt = true) (hrows : RowsBuild env stmt)
    (h : BatchDescribes env stmt) : BatchSafe env stmt := by
  obtain ⟨b, hb, hcount, hdesc⟩ := h
  obtain ⟨row₀, row₁, hrow₀, hrow₁⟩ := usefulRows_two hcan
  obtain ⟨p₀, hp₀⟩ := hrows row₀ (List.mem_of_getElem? hrow₀)
  obtain ⟨p₁, hp₁⟩ := hrows row₁ (List.mem_of_getElem? hrow₁)
  have h₀ := hdesc 0 row₀ hrow₀ p₀ hp₀
  have h₁ := hdesc 1 row₁ hrow₁ p₁ hp₁
  obtain ⟨halloc, hpos, hsize, hfits, hrun⟩ := build_batch_eq_ok.mp hb
  have hsent : num_discard_params stmt < stmt.num_params := by
    by_contra hnone
    rw [if_neg hnone] at hrun
    have hlength := (List.getElem?_eq_some_iff.mp hrow₀).1
    rw [← hcount, hrun] at hlength
    exact Nat.not_lt_zero _ hlength
  rw [if_pos hsent] at hrun
  have hall : ∀ i < stmt.num_params, isSent stmt i = true :=
    isSent_of_describes hp₀ hsent hsize hrun h₀ h₁
  have hnParams : b.nParams = stmt.num_params := by
    rw [batchRows_nParams hsize hrun,
      List.countP_eq_length.mpr (fun i hi => hall i (List.mem_range.mp hi)), List.length_range]
  have hret : stmt.proc_return ≤ 0 := by
    by_contra hret
    have hshort := (build_return hp₀ hsent (by omega)).1
    have := h₀.1
    omega
  have hout : ∀ i < stmt.num_params, isOutput stmt i = false := by
    intro i hi
    by_contra hout
    have hdiscard : stmt.discard_output_params = false := by
      by_contra hdiscard
      have hskip := isSent_eq_false_iff.mpr ⟨by simpa using hdiscard, by simpa using hout⟩
      rw [hall i hi] at hskip
      cases hskip
    obtain ⟨-, qb, hloop⟩ := build_ok hp₀ hsent
    have hvoid := (bindParam_void hdiscard hret rfl hloop).2 i hi (by simpa using hout)
    obtain ⟨e, he, hpe⟩ := h₀.exists_entry (hnParams ▸ hi)
    have htype := batchRows_types (fun j t ht => by cases ht) hrun i e.paramType (entry_written he).1
    rw [← Option.some.inj (hvoid.symm.trans hpe)] at htype
    exact absurd htype (by decide)
  have hsends : SendsAll stmt := ⟨hret, hout⟩
  obtain ⟨-, hign, ess, hess, hfold⟩ := (build_batch_iff hsends hpos halloc hsize).mp hb
  have hholds := holds_of_build hess hfold
  refine ⟨⟨hsends, hpos, hfits, hign⟩, ?_⟩
  rintro i hi ⟨apara, ipara, hapara, hipara, hbinary, row, hrow, row', hrow', hnull, hnull'⟩
  -- the two rows have different formats, but both are described by the same one
  have hformat : ∀ r ∈ usefulRows stmt,
      b.paramFormats i = some (if isNullData (queryAt stmt r i).next apara then 0 else 1) := by
    intro r hr
    obtain ⟨p, hp⟩ := hrows r hr
    obtain ⟨es, hes, rfl⟩ := (build_eq_ok_iff hsends hpos halloc).mp hp
    obtain ⟨k, hk⟩ := List.getElem?_of_mem hr
    obtain ⟨e, he, hpe⟩ := (hdesc k r hk _ hp).exists_entry (hnParams ▸ hi)
    obtain ⟨-, apara', ipara', hapara', hipara', hf⟩ :=
      entryAt_ok hsends hi (rowEntries_getElem? hes hpe).2
    obtain rfl := Option.some.inj (hapara.symm.trans hapara')
    obtain rfl := Option.some.inj (hipara.symm.trans hipara')
    obtain ⟨t, -, he⟩ := Option.bind_eq_some_iff.mp he
    obtain ⟨l, -, he⟩ := Option.bind_eq_some_iff.mp he
    obtain ⟨f, hf', he⟩ := Option.bind_eq_some_iff.mp he
    obtain rfl := Option.some.inj he
    change f = _ at hf
    rw [hf', hf, hbinary]
    cases isNullData (queryAt stmt r i).next apara <;> rfl
  have hsame := (hformat row hrow).symm.trans (hformat row' hrow')
  rw [hnull, hnull'] at hsame
  exact absurd (Option.some.inj hsame) (by decide)

/-- A batch of which all parameters are sent is built when its executed rows are. -/
theorem build_iff_rowsBuild (huse : usefulRows stmt ≠ []) (h : BatchBuilds env stmt) :
    (∃ b, build_libpq_bind_params_batch env stmt = .ok b) ↔ RowsBuild env stmt := by
  have hpos := h.num_params
  obtain ⟨row₀, hrow₀⟩ := List.exists_mem_of_ne_nil _ huse
  have hsize : 0 < stmt.apdopts.paramset_size := by
    have := List.mem_range.mp (List.mem_filter.mp hrow₀).1
    omega
  by_cases halloc : stmt.num_params ≤ stmt.ipdopts.parameters.length
  · have hrows : RowsBuild env stmt ↔ ∃ ess,
        (usefulRows stmt).mapM (rowEntries env stmt) = .ok ess := by
      rw [exists_mapM_eq_ok]
      simp only [RowsBuild, build_eq_ok_iff h.sendsAll hpos halloc]
      exact forall₂_congr fun row _ => ⟨fun ⟨_, es, hes, _⟩ => ⟨es, hes⟩,
        fun ⟨es, hes⟩ => ⟨_, es, hes, rfl⟩⟩
    rw [hrows]
    constructor
    · rintro ⟨b, hb⟩
      obtain ⟨-, -, ess, hess, -⟩ := (build_batch_iff h.sendsAll hpos halloc hsize).mp hb
      exact ⟨ess, hess⟩
    · rintro ⟨ess, hess⟩
      exact ⟨_, (build_batch_iff h.sendsAll hpos halloc hsize).mpr
        ⟨h.fits, h.ignored, ess, hess, rfl⟩⟩
  · constructor
    · rintro ⟨b, hb⟩
      exact absurd (build_batch_eq_ok.mp hb).1 halloc
    · intro hrows
      obtain ⟨p, hp⟩ := hrows row₀ hrow₀
      simp [build_libpq_bind_params, Nat.lt_of_not_le halloc] at hp

/-- **A batch refines its rows** exactly when it is safe: the rows that can be built on their
own are described in the batch as they are on their own. While the parameters are all sent and
ignored rows resolve, a batch fails only if one of its rows does. -/
theorem batch_describes_iff (hcan : SC_CanUseBatchProto stmt = true) :
    (RowsBuild env stmt → (BatchDescribes env stmt ↔ BatchSafe env stmt)) ∧
      (BatchBuilds env stmt →
        ((∃ b, build_libpq_bind_params_batch env stmt = .ok b) ↔ RowsBuild env stmt)) := by
  have huse : usefulRows stmt ≠ [] := by
    obtain ⟨row₀, -, hrow₀, -⟩ := usefulRows_two hcan
    exact List.ne_nil_of_mem (List.mem_of_getElem? hrow₀)
  exact ⟨fun hrows => ⟨safe_of_describes hcan hrows, fun hsafe => describes_of_safe hsafe hrows huse⟩,
    build_iff_rowsBuild huse⟩

end Main

/-! ### Two inserts -/

/-- An insert of two rows with one parameter: `data` in the first row, and in the second what
`used` says of it. -/
def twoRows (ctype : CType) (sqltype : SqlType) (used : Int) : StatementClass where
  conn := sampleConn
  num_params := 1
  proc_return := 0
  discard_output_params := false
  exec_current_row := -1
  apdopts :=
    { parameters :=
        [{ CType := ctype, buflen := 1, buffer := some fun _ => [0x61]
           used := some fun offset => if offset = 0 then 1 else used
           indicator := none, precision := 0, data_at_exec := false }]
      param_offset := 0
      param_bind_type := 0
      paramset_size := 2
      param_operation_ptr := none }
  ipdopts := ⟨[⟨.input, sqltype, 0⟩]⟩
  pdata := []
  statement_type := .insert
  use_server_side_prepare := true
  use_batch_protocol := true
  backend_support_batch_proto := true

theorem sendsAll_twoRows (ctype : CType) (sqltype : SqlType) (used : Int) :
    SendsAll (twoRows ctype sqltype used) :=
  ⟨le_refl 0, fun i hi => by obtain rfl : i = 0 := Nat.lt_one_iff.mp hi; rfl⟩

/-- Two texts go out as they would one by one. -/
theorem batch_describes_texts : BatchDescribes sampleEnv (twoRows .char .varchar 1) := by
  have hrows : RowsBuild sampleEnv (twoRows .char .varchar 1) := by
    intro row hrow
    have hcases : row = 0 ∨ row = 1 := by
      simpa [usefulRows, isIgnored, twoRows, List.range_succ] using hrow
    rcases hcases with rfl | rfl <;> exact ⟨_, rfl⟩
  refine ((batch_describes_iff (by decide)).1 hrows).mpr
    ⟨⟨sendsAll_twoRows _ _ _, by decide, by decide, nofun⟩, ?_⟩
  rintro i hi ⟨apara, ipara, -, hipara, hbinary, -⟩
  obtain rfl : i = 0 := Nat.lt_one_iff.mp hi
  obtain rfl := Option.some.inj hipara
  exact absurd hbinary (by decide)

/-- A binary value in the first row and a null in the second: the batch tells the server that
the value is a text. -/
theorem batch_mixes_nulls :
    SC_CanUseBatchProto (twoRows .binary .varbinary SQL_NULL_DATA) = true ∧
      RowsBuild sampleEnv (twoRows .binary .varbinary SQL_NULL_DATA) ∧
      ¬ BatchDescribes sampleEnv (twoRows .binary .varbinary SQL_NULL_DATA) := by
  have hrows : RowsBuild sampleEnv (twoRows .binary .varbinary SQL_NULL_DATA) := by
    intro row hrow
    have hcases : row = 0 ∨ row = 1 := by
      simpa [usefulRows, isIgnored, twoRows, List.range_succ] using hrow
    rcases hcases with rfl | rfl <;> exact ⟨_, rfl⟩
  refine ⟨by decide, hrows, fun h => ?_⟩
  have hsafe := safe_of_describes (by decide) hrows h
  exact hsafe.formats 0 (by decide) ⟨_, _, rfl, rfl, by decide, 1, by decide, 0, by decide,
    by decide, by decide⟩

end OdbcDriver
