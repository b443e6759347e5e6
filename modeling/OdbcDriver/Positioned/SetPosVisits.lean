import OdbcDriver.Positioned.SetPosRows

/-!
# The rows that `SQLSetPos` goes to

The loop of `spos_callback` goes to a number of rows, and acts on those of them that it is for. They
are the rows that the application sees when the rowset has the size that it was fetched with, and
else a part of them, or they go on with rows that an earlier fetch has left in the rowset.

* `spos_loop_acts`, `spos_loop_end`: the loop, as a function of the rows that it goes to;
* `visited_seen`: these rows and those that are seen begin alike;
* `set_pos_iff`: when an operation acts on the rows that are seen.
-/

namespace OdbcDriver.SetPosRows

variable {call : Call} {stmt : Stmt} {idx nrow n k : ℕ}

/-- The first rows that the loop goes to, from an index on. -/
def Call.visited (call : Call) (stmt : Stmt) : ℕ → ℕ → List ℕ
  | 0, _ => []
  | n + 1, idx =>
    match hrow : call.row stmt idx with
    | none => []
    | some false => call.visited stmt (n + 1) (idx + 1)
    | some true => idx :: call.visited stmt n (idx + 1)
  termination_by n idx => n + (stmt.bound - idx)
  decreasing_by
    · have hbound := lt_bound_of_row hrow
      omega
    · omega

@[simp]
theorem visited_zero (call : Call) (stmt : Stmt) (idx : ℕ) : call.visited stmt 0 idx = [] := by
  rw [Call.visited]

theorem visited_none (h : call.row stmt idx = none) : call.visited stmt n idx = [] := by
  cases n with
  | zero => exact visited_zero call stmt idx
  | succ n =>
    rw [Call.visited]
    split
    · rfl
    · simp_all
    · simp_all

theorem visited_skip (h : call.row stmt idx = some false) :
    call.visited stmt n idx = call.visited stmt n (idx + 1) := by
  cases n with
  | zero => rw [visited_zero, visited_zero]
  | succ n =>
    rw [Call.visited]
    split
    · simp_all
    · rfl
    · simp_all

theorem visited_row (h : call.row stmt idx = some true) :
    call.visited stmt (n + 1) idx = idx :: call.visited stmt n (idx + 1) := by
  rw [Call.visited]
  split
  · simp_all
  · simp_all
  · rfl

section

variable {rows : List ℕ}

theorem actsOn_skip (h : call.operates nrow = false) :
    call.actsOn nrow (idx :: rows) = call.actsOn (nrow + 1) rows := by
  rw [Call.actsOn, h, if_neg Bool.false_ne_true]

theorem actsOn_fails (h : call.operates nrow = true) (hfails : call.fails idx = true) :
    call.actsOn nrow (idx :: rows) = [(nrow, idx)] := by
  rw [Call.actsOn, if_pos h, if_pos hfails]

theorem actsOn_row (h : call.operates nrow = true) (hfails : call.fails idx = false) :
    call.actsOn nrow (idx :: rows) = (nrow, idx) :: call.actsOn (nrow + 1) rows := by
  rw [Call.actsOn, if_pos h, hfails, if_neg Bool.false_ne_true]

end

/-! ### The loop -/

/-- The call for a row can be gone on with. -/
def Call.Remembered (call : Call) (acts : List (ℕ × ℕ)) : Prop :=
  ∀ act ∈ acts, call.operate act.2 .success ≠ .noMemory

/-- What the loop comes to, with the data at its beginning and at its end. -/
structure Looped (call : Call) (stmt : Stmt) (s : Data) (pos_ridx : ℕ)
    (out : List (ℕ × ℕ) × Option (Data × ℕ × RetCode)) : Prop where
  acts : out.1 = call.actsOn s.nrow (call.visited stmt (s.end_row + 1 - s.nrow) s.idx)
  remembered : out.2.isSome ↔ call.Remembered out.1
  processed : ∀ e ∈ out.2, e.1.processed = s.processed + out.1.length
  /-- The cursor is positioned on the last row. -/
  positioned : call.fOption = .position → call.irow ≠ 0 → ∀ e ∈ out.2,
    (out.1 = [] → e.1.ridx = s.ridx ∧ e.2.1 = pos_ridx) ∧
      ∀ act ∈ out.1.getLast?, e.1.ridx = act.1 ∧ e.2.1 = act.2

variable {s : Data} {pos_ridx pos_ridx' : ℕ} {ret ret' : RetCode}

/-- The loop ends. -/
theorem looped_nil (e : Data × ℕ × RetCode) (he : e.1.processed = s.processed)
    (hpos : e.1.ridx = s.ridx ∧ e.2.1 = pos_ridx)
    (hacts : call.actsOn s.nrow (call.visited stmt (s.end_row + 1 - s.nrow) s.idx) = []) :
    Looped call stmt s pos_ridx ([], some e) where
  acts := hacts.symm
  remembered := iff_of_true rfl (List.forall_mem_nil _)
  processed := by
    intro x hx
    obtain rfl := Option.some.inj hx
    exact he
  positioned := by
    intro _ _ x hx
    obtain rfl := Option.some.inj hx
    exact ⟨fun _ => hpos, nofun⟩

/-- A row is acted on for the last time. -/
theorem looped_single {e : Option (Data × ℕ × RetCode)}
    (hacts : call.actsOn s.nrow (call.visited stmt (s.end_row + 1 - s.nrow) s.idx) =
      [(s.nrow, s.idx)])
    (hremembered : e.isSome ↔ call.operate s.idx .success ≠ .noMemory)
    (he : ∀ x ∈ e, x.1.processed = s.processed + 1)
    (hpos : call.fOption = .position → ∀ x ∈ e, x.1.ridx = s.nrow ∧ x.2.1 = s.idx) :
    Looped call stmt s pos_ridx ([(s.nrow, s.idx)], e) where
  acts := hacts.symm
  remembered := by
    rw [hremembered, Call.Remembered, List.forall_mem_singleton]
  processed := he
  positioned := by
    intro hposition _ x hx
    refine ⟨nofun, fun act hact => ?_⟩
    obtain rfl := Option.some.inj hact
    exact hpos hposition x hx

/-- A row is acted on, and the loop goes on. -/
theorem looped_cons {out : List (ℕ × ℕ) × Option (Data × ℕ × RetCode)} {s' : Data}
    (hacts : call.actsOn s.nrow (call.visited stmt (s.end_row + 1 - s.nrow) s.idx) =
      (s.nrow, s.idx) :: call.actsOn s'.nrow (call.visited stmt (s'.end_row + 1 - s'.nrow) s'.idx))
    (hremembered : call.operate s.idx .success ≠ .noMemory)
    (hprocessed : s'.processed = s.processed + 1)
    (hpos : call.fOption = .position → s'.ridx = s.nrow ∧ pos_ridx' = s.idx)
    (h : Looped call stmt s' pos_ridx' out) :
    Looped call stmt s pos_ridx ((s.nrow, s.idx) :: out.1, out.2) where
  acts := by rw [hacts, ← h.acts]
  remembered := by
    rw [h.remembered, Call.Remembered, Call.Remembered, List.forall_mem_cons]
    exact (and_iff_right hremembered).symm
  processed := by
    intro x hx
    rw [h.processed x hx, hprocessed, List.length_cons]
    omega
  positioned := by
    intro hposition hirow x hx
    obtain ⟨hnil, hlast⟩ := h.positioned hposition hirow x hx
    obtain ⟨hridx, hposidx⟩ := hpos hposition
    refine ⟨nofun, fun act hact => ?_⟩
    cases hout : out.1 with
    | nil =>
      rw [hout] at hact
      obtain rfl := Option.some.inj hact
      obtain ⟨h1, h2⟩ := hnil hout
      exact ⟨h1.trans hridx, h2.trans hposidx⟩
    | cons a l =>
      rw [hout, List.getLast?_cons_cons] at hact
      exact hlast act (by rwa [hout])

/-- The loop goes on with another row. -/
theorem looped_next {out : List (ℕ × ℕ) × Option (Data × ℕ × RetCode)} {s' : Data}
    (h : Looped call stmt s' pos_ridx' out)
    (hacts : call.actsOn s.nrow (call.visited stmt (s.end_row + 1 - s.nrow) s.idx) =
      call.actsOn s'.nrow (call.visited stmt (s'.end_row + 1 - s'.nrow) s'.idx))
    (hprocessed : s'.processed = s.processed)
    (hpos : call.irow ≠ 0 → s'.ridx = s.ridx ∧ pos_ridx' = pos_ridx) :
    Looped call stmt s pos_ridx out where
  acts := by rw [hacts, ← h.acts]
  remembered := h.remembered
  processed := by
    intro x hx
    rw [h.processed x hx, hprocessed]
  positioned := by
    intro hposition hirow x hx
    obtain ⟨hridx, hposidx⟩ := hpos hirow
    rw [← hridx, ← hposidx]
    exact h.positioned hposition hirow x hx

/-! ### The call for a row -/

theorem operate_eq (hret : ret ≠ .error) (h : (call.operate idx ret).after idx = some (k, ret')) :
    (call.fails idx = true ↔ ret' = .error) ∧ call.operate idx .success ≠ .noMemory ∧
      (call.fOption = .position → k = idx) := by
  by_cases hposition : call.fOption = .position
  · rw [Call.operate, if_pos hposition] at h
    obtain ⟨rfl, rfl⟩ := Prod.mk.inj (Option.some.inj h)
    simp [Call.fails, Call.operate, hposition, hret]
  · rw [Call.operate, if_neg hposition] at h
    simp only [Call.fails, Call.operate, if_neg hposition]
    cases houtcome : call.outcome idx with
    | done ret =>
      rw [houtcome] at h
      obtain ⟨rfl, rfl⟩ := Prod.mk.inj (Option.some.inj h)
      simp
    | needData ret =>
      rw [houtcome] at h
      obtain ⟨rfl, rfl⟩ := Prod.mk.inj (Option.some.inj h)
      simp [hposition]
    | noMemory =>
      rw [houtcome] at h
      cases h

theorem operate_none (h : (call.operate idx ret).after idx = none) :
    call.fails idx = true ∧ call.operate idx .success = .noMemory := by
  by_cases hposition : call.fOption = .position
  · rw [Call.operate, if_pos hposition] at h
    cases h
  · rw [Call.operate, if_neg hposition] at h
    simp only [Call.fails, Call.operate, if_neg hposition]
    cases houtcome : call.outcome idx with
    | done ret => rw [houtcome] at h; cases h
    | needData ret => rw [houtcome] at h; cases h
    | noMemory => exact ⟨rfl, rfl⟩

/-! ### The loop -/

section

variable (h : ¬(ret = .error ∨ s.end_row < s.nrow))

include h

/-- One row less is left to go to. -/
theorem visited_loop (hrow : call.row stmt s.idx = some true) :
    call.visited stmt (s.end_row + 1 - s.nrow) s.idx =
      s.idx :: call.visited stmt (s.end_row + 1 - (s.nrow + 1)) (s.idx + 1) := by
  have hcount : s.end_row + 1 - s.nrow = s.end_row + 1 - (s.nrow + 1) + 1 := by omega
  rw [hcount, visited_row hrow]

theorem spos_loop_none (hrow : call.row stmt s.idx = none) :
    spos_loop call stmt s pos_ridx ret = ([], some (s, pos_ridx, ret)) := by
  rw [spos_loop, dif_neg h]
  split <;> simp_all

theorem spos_loop_skip (hrow : call.row stmt s.idx = some false) :
    spos_loop call stmt s pos_ridx ret =
      spos_loop call stmt { s with idx := s.idx + 1 } pos_ridx ret := by
  rw [spos_loop, dif_neg h]
  split <;> simp_all

variable (hrow : call.row stmt s.idx = some true)

include hrow

theorem spos_loop_before (hbefore : s.nrow < s.start_row) :
    spos_loop call stmt s pos_ridx ret =
      spos_loop call stmt { s with nrow := s.nrow + 1, idx := s.idx + 1 } pos_ridx ret := by
  rw [spos_loop, dif_neg h]
  split
  · simp_all
  · simp_all
  · rw [if_pos hbefore]

variable (hbefore : ¬s.nrow < s.start_row)

include hbefore

theorem spos_loop_excluded (hproceeds : call.proceeds s.nrow = false) :
    spos_loop call stmt s pos_ridx ret = spos_loop call stmt
      { s with ridx := s.nrow, nrow := s.nrow + 1, idx := s.idx + 1 } s.idx ret := by
  rw [spos_loop, dif_neg h]
  split
  · simp_all
  · simp_all
  · rw [if_neg hbefore, hproceeds, if_neg Bool.false_ne_true]

variable (hproceeds : call.proceeds s.nrow = true)

include hproceeds

theorem spos_loop_memory (hafter : (call.operate s.idx ret).after s.idx = none) :
    spos_loop call stmt s pos_ridx ret = ([(s.nrow, s.idx)], none) := by
  rw [spos_loop, dif_neg h]
  split
  · simp_all
  · simp_all
  · rw [if_neg hbefore, if_pos hproceeds, hafter]

theorem spos_loop_error
    (hafter : (call.operate s.idx ret).after s.idx = some (pos_ridx', .error)) :
    spos_loop call stmt s pos_ridx ret = ([(s.nrow, s.idx)],
      some ({ s with ridx := s.nrow, processed := s.processed + 1 }, pos_ridx', .error)) := by
  rw [spos_loop, dif_neg h]
  split
  · simp_all
  · simp_all
  · rw [if_neg hbefore, if_pos hproceeds, hafter]
    rfl

theorem spos_loop_act
    (hafter : (call.operate s.idx ret).after s.idx = some (pos_ridx', ret'))
    (hret' : ret' ≠ .error) :
    spos_loop call stmt s pos_ridx ret =
      let out := spos_loop call stmt
        ⟨s.start_row, s.end_row, s.idx + 1, s.nrow, s.nrow + 1, s.processed + 1⟩ pos_ridx' ret'
      ((s.nrow, s.idx) :: out.1, out.2) := by
  rw [spos_loop, dif_neg h]
  split
  · simp_all
  · simp_all
  · rw [if_neg hbefore, if_pos hproceeds, hafter]
    simp only [if_neg hret']

end

theorem spos_loop_looped (s : Data) (pos_ridx : ℕ) {ret : RetCode} (hret : ret ≠ .error)
    (hstart : s.start_row = call.irow - 1) :
    Looped call stmt s pos_ridx (spos_loop call stmt s pos_ridx ret) := by
  induction s, pos_ridx, ret using spos_loop.induct call stmt with
  | case1 s pos_ridx ret h =>
    have hend : s.end_row + 1 - s.nrow = 0 := by
      rcases h with h | h
      · exact absurd h hret
      · omega
    rw [spos_loop, dif_pos h]
    refine looped_nil _ rfl ⟨rfl, rfl⟩ ?_
    rw [hend, visited_zero]
    rfl
  | case2 s pos_ridx ret h hrow =>
    rw [spos_loop_none h hrow]
    refine looped_nil _ rfl ⟨rfl, rfl⟩ ?_
    rw [visited_none hrow]
    rfl
  | case3 s pos_ridx ret h hrow ih =>
    rw [spos_loop_skip h hrow]
    refine looped_next (ih hret hstart) ?_ rfl fun _ => ⟨rfl, rfl⟩
    rw [visited_skip hrow]
  | case4 s pos_ridx ret h hrow hbefore ih =>
    have hoperates : call.operates s.nrow = false := by
      rw [Call.operates, decide_eq_false (by omega), Bool.false_and]
    rw [spos_loop_before h hrow hbefore]
    refine looped_next (ih hret hstart) ?_ rfl fun _ => ⟨rfl, rfl⟩
    rw [visited_loop h hrow, actsOn_skip hoperates]
  | case5 s pos_ridx ret h hrow hbefore hproceeds hafter =>
    have hoperates : call.operates s.nrow = true := by
      rw [Call.operates, hproceeds, decide_eq_true (by omega), Bool.true_and]
    obtain ⟨hfails, hnone⟩ := operate_none hafter
    rw [spos_loop_memory h hrow hbefore hproceeds hafter]
    refine looped_single ?_ ?_ nofun (fun _ => nofun)
    · rw [visited_loop h hrow, actsOn_fails hoperates hfails]
    · simp [hnone]
  | case6 s pos_ridx ret h hrow hbefore hproceeds pos_ridx' hafter =>
    have hoperates : call.operates s.nrow = true := by
      rw [Call.operates, hproceeds, decide_eq_true (by omega), Bool.true_and]
    obtain ⟨hfails, hremembered, hpos⟩ := operate_eq hret hafter
    rw [spos_loop_error h hrow hbefore hproceeds hafter]
    refine looped_single ?_ (iff_of_true rfl hremembered) ?_ ?_
    · rw [visited_loop h hrow, actsOn_fails hoperates (hfails.mpr rfl)]
    · intro x hx
      obtain rfl := Option.some.inj hx
      rfl
    · intro hposition x hx
      obtain rfl := Option.some.inj hx
      exact ⟨rfl, hpos hposition⟩
  | case7 s pos_ridx ret h hrow hbefore hproceeds pos_ridx' ret' hafter s' hret' acts e hloop ih =>
    have hoperates : call.operates s.nrow = true := by
      rw [Call.operates, hproceeds, decide_eq_true (by omega), Bool.true_and]
    obtain ⟨hfails, hremembered, hpos⟩ := operate_eq hret hafter
    have hfails : call.fails s.idx = false := by
      rw [Bool.eq_false_iff]
      exact fun hf => hret' (hfails.mp hf)
    rw [spos_loop_act h hrow hbefore hproceeds hafter hret']
    refine looped_cons ?_ hremembered rfl (fun hposition => ⟨rfl, hpos hposition⟩) (ih hret' hstart)
    rw [visited_loop h hrow, actsOn_row hoperates hfails]
  | case8 s pos_ridx ret h hrow hbefore hproceeds ih =>
    rw [Bool.not_eq_true] at hproceeds
    have hoperates : call.operates s.nrow = false := by
      rw [Call.operates, hproceeds, Bool.and_false]
    rw [spos_loop_excluded h hrow hbefore hproceeds]
    refine looped_next (ih hret hstart) ?_ rfl fun hirow => ?_
    · rw [visited_loop h hrow, actsOn_skip hoperates]
    · rw [Call.proceeds, decide_eq_true hirow, Bool.true_or] at hproceeds
      cases hproceeds

/-! ### The rows that are seen -/

theorem inRowset_of_rowAt {b : Bool}
    (hcached : stmt.keyset.isSome → 0 ≤ GIdx2KResIdx (RowIdx2GIdx 0 stmt) stmt)
    (h : stmt.rowAt idx = some b) :
    stmt.inRowset idx = b := by
  rw [Stmt.rowAt] at h
  rw [Stmt.inRowset]
  split_ifs at h
  cases hkeyset : stmt.keyset with
  | none =>
    rw [hkeyset] at h
    exact Option.some.inj h
  | some keyset =>
    simp only [hkeyset] at h
    split_ifs at h with hlen hneg
    · exact Option.some.inj h
    · have hpos := hcached (by rw [hkeyset]; rfl)
      rw [GIdx2KResIdx_eq] at hneg
      omega

/-- The rows that the loop goes to and those that are seen begin alike. -/
theorem visited_seen (call : Call) (hadd : call.fOption ≠ .add)
    (hcached : stmt.keyset.isSome → 0 ≤ GIdx2KResIdx (RowIdx2GIdx 0 stmt) stmt) (n idx k : ℕ) :
    call.visited stmt n idx <+: (List.range' idx k).filter stmt.inRowset ∨
      (List.range' idx k).filter stmt.inRowset <+: call.visited stmt n idx := by
  induction k generalizing n idx with
  | zero => exact .inr (List.nil_prefix)
  | succ k ih =>
    have hrowAt : call.row stmt idx = stmt.rowAt idx := if_neg hadd
    rw [List.range'_succ]
    cases hrow : stmt.rowAt idx with
    | none =>
      rw [visited_none (hrowAt.trans hrow)]
      exact .inl List.nil_prefix
    | some b =>
      have hin := inRowset_of_rowAt hcached hrow
      cases b with
      | false =>
        rw [visited_skip (hrowAt.trans hrow), List.filter_cons_of_neg (by simp [hin])]
        exact ih n (idx + 1)
      | true =>
        rw [List.filter_cons_of_pos hin]
        cases n with
        | zero =>
          rw [visited_zero]
          exact .inl List.nil_prefix
        | succ n =>
          rw [visited_row (hrowAt.trans hrow)]
          simp only [List.cons_prefix_cons, true_and]
          exact ih n (idx + 1)

theorem length_visited_le (n idx : ℕ) : (call.visited stmt n idx).length ≤ n := by
  induction n, idx using Call.visited.induct call stmt with
  | case1 idx => rw [visited_zero]; exact le_rfl
  | case2 n idx hrow => rw [visited_none hrow]; exact Nat.zero_le _
  | case3 n idx hrow ih => rwa [visited_skip hrow]
  | case4 n idx hrow ih =>
    rw [visited_row hrow, List.length_cons]
    omega

/-- `SQL_ADD` goes to the rows of the buffers one by one. -/
theorem visited_add (hadd : call.fOption = .add) (n idx : ℕ) :
    call.visited stmt n idx = List.range' idx n := by
  induction n generalizing idx with
  | zero => rw [visited_zero]; rfl
  | succ n ih => rw [visited_row (if_pos hadd), ih, List.range'_succ]

/-- All rows that the loop goes to. -/
def Call.visits (call : Call) (stmt : Stmt) : List ℕ :=
  call.visited stmt (call.data.end_row + 1) 0

theorem range_begins (h : n ≤ k) : List.range n <+: List.range k := by
  obtain ⟨d, rfl⟩ := Nat.exists_eq_add_of_le h
  rw [List.range_add]
  exact List.prefix_append _ _

theorem visits_rows (call : Call)
    (hcached : stmt.keyset.isSome → 0 ≤ GIdx2KResIdx (RowIdx2GIdx 0 stmt) stmt) :
    call.visits stmt <+: call.rows stmt ∨ call.rows stmt <+: call.visits stmt := by
  rw [Call.visits, Call.rows]
  by_cases hadd : call.fOption = .add
  · rw [if_pos hadd, visited_add hadd, ← List.range_eq_range']
    rcases Nat.le_total (call.data.end_row + 1)
        (if call.irow = 0 then call.rowsetSize.toNat else call.irow) with h | h
    · exact .inl (range_begins h)
    · exact .inr (range_begins h)
  · have hseen := visited_seen call hadd hcached (call.data.end_row + 1) 0
      stmt.last_fetch_count_include_ommitted
    rw [← List.range_eq_range'] at hseen
    rw [if_neg hadd]
    by_cases hirow : call.irow = 0
    · rw [if_pos hirow]
      exact hseen
    · have hend : call.data.end_row + 1 = call.irow := by
        simp only [Call.data, if_neg hirow]
        omega
      have hlen : (call.visited stmt (call.data.end_row + 1) 0).length ≤ call.irow := by
        rw [← hend]
        exact length_visited_le _ _
      rw [if_neg hirow]
      rcases hseen with h | h
      · exact .inl (List.prefix_take_iff.mpr ⟨h, hlen⟩)
      · exact .inr ((List.take_prefix _ _).trans h)

/-- As long as the rows of the last fetch are found, the loop goes to those that are seen. -/
theorem visited_kept (hadd : call.fOption ≠ .add)
    (hkept : ∀ i, idx ≤ i → i < idx + k → stmt.rowAt i = some (stmt.inRowset i))
    (hn : n ≤ ((List.range' idx k).filter stmt.inRowset).length ∨ stmt.rowAt (idx + k) = none) :
    call.visited stmt n idx = ((List.range' idx k).filter stmt.inRowset).take n := by
  induction k generalizing n idx with
  | zero =>
    rcases hn with hn | hn
    · obtain rfl : n = 0 := Nat.le_zero.mp hn
      rw [visited_zero, List.take_zero]
    · rw [Nat.add_zero] at hn
      rw [visited_none ((if_neg hadd).trans hn)]
      exact List.take_nil.symm
  | succ k ih =>
    have hrow : call.row stmt idx = some (stmt.inRowset idx) :=
      (if_neg hadd).trans (hkept idx le_rfl (by omega))
    have hrest : ∀ i, idx + 1 ≤ i → i < idx + 1 + k → stmt.rowAt i = some (stmt.inRowset i) :=
      fun i hi hlt => hkept i (by omega) (by omega)
    have hend : idx + (k + 1) = idx + 1 + k := by omega
    rw [List.range'_succ] at hn ⊢
    rw [hend] at hn
    by_cases hin : stmt.inRowset idx = true
    · rw [List.filter_cons_of_pos hin] at hn ⊢
      rw [hin] at hrow
      cases n with
      | zero => rw [visited_zero, List.take_zero]
      | succ n =>
        rw [visited_row hrow, List.take_succ_cons, ih hrest]
        rwa [List.length_cons, Nat.add_le_add_iff_right] at hn
    · rw [List.filter_cons_of_neg hin] at hn ⊢
      rw [Bool.not_eq_true] at hin
      rw [hin] at hrow
      rw [visited_skip hrow, ih hrest hn]

/-- The rows are those that are seen when the rows of the last fetch are found, and the rowset has
as many rows as the size that is set, or ends where the result ends. -/
theorem visits_eq_rows (hadd : call.fOption ≠ .add)
    (hkept : ∀ i < stmt.last_fetch_count_include_ommitted,
      stmt.rowAt i = some (stmt.inRowset i))
    (hsize : call.irow = 0 → call.rowsetSize.toNat ≠ 0 ∧
      (call.rowsetSize.toNat = stmt.seen.length ∨ stmt.seen.length ≤ call.rowsetSize.toNat ∧
        stmt.rowAt stmt.last_fetch_count_include_ommitted = none))
    (hirow : call.irow ≤ stmt.seen.length) : call.visits stmt = call.rows stmt := by
  have hkept' : ∀ i, 0 ≤ i → i < 0 + stmt.last_fetch_count_include_ommitted →
      stmt.rowAt i = some (stmt.inRowset i) := fun i _ hi => hkept i (by omega)
  have hseen : stmt.seen =
      (List.range' 0 stmt.last_fetch_count_include_ommitted).filter stmt.inRowset := by
    rw [Stmt.seen, List.range_eq_range']
  rw [Call.visits, Call.rows, if_neg hadd]
  by_cases h0 : call.irow = 0
  · obtain ⟨hne, hcount⟩ := hsize h0
    have hend : call.data.end_row + 1 = call.rowsetSize.toNat := by
      have hpos := Nat.one_le_iff_ne_zero.mpr hne
      have hsub : (call.rowsetSize - 1).toNat = call.rowsetSize.toNat - 1 :=
        BitVec.toNat_sub_of_le (BitVec.le_def.mpr hpos)
      simp only [Call.data, if_pos h0, hsub]
      exact Nat.sub_add_cancel hpos
    rw [if_pos h0, hend, visited_kept hadd hkept', ← hseen]
    · exact List.take_of_length_le (by omega)
    · rw [← hseen, Nat.zero_add]
      exact hcount.imp le_of_eq And.right
  · have hend : call.data.end_row + 1 = call.irow := by
      simp only [Call.data, if_neg h0]
      omega
    rw [if_neg h0, hend, visited_kept hadd hkept', ← hseen]
    rw [← hseen]
    exact .inl hirow

/-! ### The rows acted on -/

/-- The call for one of some rows fails. -/
def Call.Stops (call : Call) (nrow : ℕ) (rows : List ℕ) : Prop :=
  ∃ act ∈ call.actsOn nrow rows, call.fails act.2 = true

theorem actsOn_eq_nil (nrow : ℕ) (rows : List ℕ) :
    call.actsOn nrow rows = [] ↔ ∀ i < rows.length, call.operates (nrow + i) = false := by
  induction rows generalizing nrow with
  | nil => simp [Call.actsOn]
  | cons idx rows ih =>
    rw [List.length_cons, Nat.forall_lt_succ_left, Nat.add_zero]
    by_cases ho : call.operates nrow = true
    · simp only [ho, Bool.true_eq_false, false_and, iff_false]
      cases hf : call.fails idx with
      | true => rw [actsOn_fails ho hf]; exact List.cons_ne_nil _ _
      | false => rw [actsOn_row ho hf]; exact List.cons_ne_nil _ _
    · rw [Bool.not_eq_true] at ho
      rw [actsOn_skip ho, ih, and_iff_right ho]
      simp only [Nat.add_assoc, Nat.add_comm 1]

/-- Further rows make no difference exactly when a row in front of them fails or they are not to be
acted on. -/
theorem actsOn_append (nrow : ℕ) (l more : List ℕ) :
    call.actsOn nrow (l ++ more) = call.actsOn nrow l ↔
      call.Stops nrow l ∨ ∀ i < more.length, call.operates (nrow + l.length + i) = false := by
  induction l generalizing nrow with
  | nil =>
    have hstops : ¬call.Stops nrow [] := by
      rintro ⟨act, hact, -⟩
      cases hact
    rw [List.nil_append, List.length_nil, Nat.add_zero, or_iff_right hstops, ← actsOn_eq_nil]
    rfl
  | cons idx l ih =>
    have hcount : ∀ i, nrow + (idx :: l).length + i = nrow + 1 + l.length + i := by
      intro i
      rw [List.length_cons]
      omega
    simp only [hcount]
    rw [List.cons_append]
    by_cases ho : call.operates nrow = true
    · cases hf : call.fails idx with
      | true =>
        rw [actsOn_fails ho hf, actsOn_fails ho hf]
        have hstops : call.Stops nrow (idx :: l) :=
          ⟨(nrow, idx), by rw [actsOn_fails ho hf]; exact List.mem_singleton_self _, hf⟩
        exact iff_of_true rfl (.inl hstops)
      | false =>
        have hstops : call.Stops nrow (idx :: l) ↔ call.Stops (nrow + 1) l := by
          simp only [Call.Stops, actsOn_row ho hf, List.exists_mem_cons_iff, hf,
            Bool.false_eq_true, false_or]
        rw [actsOn_row ho hf, actsOn_row ho hf, List.cons_inj_right, ih, hstops]
    · rw [Bool.not_eq_true] at ho
      have hstops : call.Stops nrow (idx :: l) ↔ call.Stops (nrow + 1) l := by
        rw [Call.Stops, actsOn_skip ho, Call.Stops]
      rw [actsOn_skip ho, actsOn_skip ho, ih, hstops]

/-- The rows that the loop goes to differ from those that an operation is for, if they do, behind a
row that fails or in rows that are not to be acted on. -/
def SameRows (call : Call) (stmt : Stmt) : Prop :=
  call.Stops 0 ((call.visits stmt).take (call.rows stmt).length) ∨
    ∀ n, min (call.visits stmt).length (call.rows stmt).length ≤ n →
      n < max (call.visits stmt).length (call.rows stmt).length → call.operates n = false

theorem sameRows_append {common more : List ℕ} :
    call.actsOn 0 (common ++ more) = call.actsOn 0 common ↔ call.Stops 0 common ∨
      ∀ n, common.length ≤ n → n < common.length + more.length → call.operates n = false := by
  rw [actsOn_append]
  refine or_congr_right ⟨fun h n hle hlt => ?_, fun h i hi => h _ (by omega) (by omega)⟩
  have hn := h (n - common.length) (by omega)
  rwa [Nat.zero_add, Nat.add_sub_cancel' hle] at hn

theorem sameRows_iff
    (hcached : stmt.keyset.isSome → 0 ≤ GIdx2KResIdx (RowIdx2GIdx 0 stmt) stmt) :
    call.actsOn 0 (call.visits stmt) = call.expected stmt ↔ SameRows call stmt := by
  rw [Call.expected, SameRows]
  rcases visits_rows call hcached with ⟨more, hmore⟩ | ⟨more, hmore⟩
  · have hlen : (call.rows stmt).length = (call.visits stmt).length + more.length := by
      rw [← hmore, List.length_append]
    rw [← hmore, eq_comm, sameRows_append, hmore, List.take_of_length_le (by omega), hlen,
      min_eq_left (by omega), max_eq_right (by omega)]
  · have hlen : (call.visits stmt).length = (call.rows stmt).length + more.length := by
      rw [← hmore, List.length_append]
    have htake : (call.visits stmt).take (call.rows stmt).length = call.rows stmt := by
      rw [← hmore, List.take_left]
    rw [htake, ← hmore, sameRows_append, hmore, hlen, min_eq_right (by omega),
      max_eq_left (by omega)]

/-- At most one row is acted on in an operation for one row. -/
theorem length_actsOn_le (call : Call) (nrow : ℕ) (rows : List ℕ) :
    (call.actsOn nrow rows).length ≤ rows.length - (call.irow - 1 - nrow) := by
  induction rows generalizing nrow with
  | nil => exact Nat.zero_le _
  | cons idx rows ih =>
    have hrows := ih (nrow + 1)
    rw [List.length_cons]
    by_cases ho : call.operates nrow = true
    · have hle : call.irow - 1 ≤ nrow := by
        rw [Call.operates, Bool.and_eq_true, decide_eq_true_eq] at ho
        exact ho.1
      cases hf : call.fails idx with
      | true =>
        rw [actsOn_fails ho hf, List.length_singleton]
        omega
      | false =>
        rw [actsOn_row ho hf, List.length_cons]
        omega
    · rw [Bool.not_eq_true] at ho
      rw [actsOn_skip ho]
      omega

/-! ### The operation -/

theorem setPos_refused (h : call.Refused stmt) : PGAPI_SetPos call stmt = .error [] := by
  rw [PGAPI_SetPos]
  split_ifs with h1 h2 h3 h4
  · rfl
  · rfl
  · rfl
  · rfl
  · rcases h with h | h | h | h
    · exact absurd h h1
    · exact absurd h h2
    · exact absurd h h3
    · exact absurd h h4

theorem setPos_run (h : ¬call.Refused stmt) : PGAPI_SetPos call stmt =
    match spos_loop call stmt call.data 0 .success with
    | (acts, none) => .error acts
    | (acts, some (s, pos_ridx, ret)) =>
      { acts := acts
        ret := if ret.succeeded ∧ s.processed = 0 then .error else ret
        processed := some s.processed
        currTuple :=
          if 0 < call.irow ∧ call.fOption ≠ .add ∧ 0 ≤ s.ridx then some (RowIdx2GIdx pos_ridx stmt)
          else none } := by
  rw [Call.Refused, not_or, not_or, not_or] at h
  exact (if_neg h.1).trans ((if_neg h.2.1).trans ((if_neg h.2.2.1).trans (if_neg h.2.2.2)))

/-- The loop, from its beginning. -/
theorem looped (call : Call) (stmt : Stmt) :
    Looped call stmt call.data 0 (spos_loop call stmt call.data 0 .success) :=
  spos_loop_looped call.data 0 nofun rfl

theorem acts_eq (h : ¬call.Refused stmt) :
    (PGAPI_SetPos call stmt).acts = call.actsOn 0 (call.visits stmt) := by
  have hacts := (looped call stmt).acts
  rw [setPos_run h]
  split
  · rename_i acts hloop
    rw [hloop] at hacts
    exact hacts
  · rename_i acts s pos_ridx ret hloop
    rw [hloop] at hacts
    exact hacts

/-- The number of rows is reported exactly when the callback can be remembered. -/
theorem processed_iff (h : ¬call.Refused stmt) :
    (PGAPI_SetPos call stmt).processed = some (PGAPI_SetPos call stmt).acts.length ↔
      call.Remembered (PGAPI_SetPos call stmt).acts := by
  obtain ⟨-, hremembered, hprocessed, -⟩ := looped call stmt
  rw [setPos_run h]
  split
  · rename_i acts hloop
    rw [hloop] at hremembered
    exact iff_of_false nofun fun hr => Bool.false_ne_true (hremembered.mpr hr)
  · rename_i acts s pos_ridx ret hloop
    rw [hloop] at hremembered hprocessed
    refine iff_of_true ?_ (hremembered.mp rfl)
    have hcount := hprocessed _ rfl
    rw [show call.data.processed = 0 from rfl, Nat.zero_add] at hcount
    exact congrArg some hcount

/-- `SQL_POSITION` positions the cursor on the row that it is for. -/
theorem positioned (h : ¬call.Refused stmt) (hposition : call.fOption = .position) :
    (PGAPI_SetPos call stmt).currTuple =
      (PGAPI_SetPos call stmt).acts.head?.map fun act => RowIdx2GIdx act.2 stmt := by
  have hirow : call.irow ≠ 0 := fun h0 => h (.inr (.inr (.inl ⟨h0, hposition⟩)))
  have hone : (PGAPI_SetPos call stmt).acts.length ≤ 1 := by
    rw [acts_eq h]
    have hle := length_actsOn_le call 0 (call.visits stmt)
    have hvisits : (call.visits stmt).length ≤ call.irow := by
      have hend : call.data.end_row + 1 = call.irow := by
        simp only [Call.data, if_neg hirow]
        omega
      rw [← hend]
      exact length_visited_le _ _
    omega
  obtain ⟨-, hremembered, -, hpositioned⟩ := looped call stmt
  have hpos := hpositioned hposition hirow
  rw [setPos_run h] at hone ⊢
  split at hone
  · rename_i acts hloop
    -- no call is made that could need data
    rw [hloop] at hremembered
    refine absurd (hremembered.mpr fun act _ => ?_) Bool.false_ne_true
    rw [Call.operate, if_pos hposition]
    exact nofun
  · rename_i acts s pos_ridx ret hloop
    rw [hloop] at hpos
    obtain ⟨hnil, hlast⟩ := hpos _ rfl
    dsimp only at hnil hlast hone ⊢
    have hadd : call.fOption ≠ .add := by
      rw [hposition]
      exact nofun
    simp only [hadd, ne_eq, not_false_iff, Nat.pos_of_ne_zero hirow, true_and]
    cases acts with
    | nil =>
      have hridx : ¬0 ≤ s.ridx := by
        rw [(hnil rfl).1]
        exact (by decide : ¬(0 : ℤ) ≤ -1)
      rw [if_neg hridx]
      rfl
    | cons act acts =>
      obtain rfl : acts = [] := List.eq_nil_of_length_eq_zero (by simpa using hone)
      obtain ⟨hridx, rfl⟩ := hlast act rfl
      rw [if_pos (hridx ▸ Int.natCast_nonneg _)]
      rfl

/-- An operation is right exactly when it is refused, or it can go on behind each row for which data
are needed and the rows that the loop goes to are those that the operation is for, as far as they
matter. -/
theorem set_pos_iff (call : Call) (stmt : Rowset) :
    Right call stmt.toStmt ↔ call.Refused stmt.toStmt ∨
      (call.Remembered (call.expected stmt.toStmt) ∧ SameRows call stmt.toStmt) := by
  by_cases h : call.Refused stmt.toStmt
  · refine iff_of_true (.inl ⟨h, ?_, ?_⟩) (.inl h) <;> rw [setPos_refused h] <;> rfl
  · rw [or_iff_right h, ← sameRows_iff stmt.cached, ← acts_eq h]
    constructor
    · rintro (⟨hrefused, -⟩ | ⟨hacts, hprocessed, -⟩)
      · exact absurd hrefused h
      · rw [processed_iff h, hacts] at hprocessed
        exact ⟨hprocessed, hacts⟩
    · rintro ⟨hremembered, hacts⟩
      refine .inr ⟨hacts, ?_, positioned h⟩
      rw [processed_iff h, hacts]
      exact hremembered

/-- Two rows at the start of a result of four. The other two have been in a rowset before. -/
def firstRows : Rowset where
  rowset_start := 0
  has_valid_base := true
  key_base := 0
  num_total_tuples := 4
  keyset := some [true, true, true, true]
  last_fetch_count := 2
  last_fetch_count_include_ommitted := 2
  counted := by decide
  cached := by decide

/-- All rows are deleted, with a size that has been set behind the fetch. -/
def deleteAll : Call where
  irow := 0
  fOption := .delete
  read_only := false
  curres := true
  rowsetSize := 4
  row_operation_ptr := none
  outcome := fun _ => .done .success

/-- Rows are deleted that are not in the rowset. -/
theorem unseen_deleted : ¬Right deleteAll firstRows.toStmt := by
  have hrefused : ¬deleteAll.Refused firstRows.toStmt := by
    rw [Call.Refused]
    decide
  have hvisits : deleteAll.visits firstRows.toStmt = [0, 1, 2, 3] := by
    change deleteAll.visited firstRows.toStmt 4 0 = _
    rw [visited_row rfl, visited_row rfl, visited_row rfl, visited_row rfl, visited_zero]
  rintro (⟨h, -⟩ | ⟨hacts, -⟩)
  · exact hrefused h
  · rw [acts_eq hrefused, hvisits] at hacts
    revert hacts
    decide

end OdbcDriver.SetPosRows
