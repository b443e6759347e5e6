import OdbcDriver.Fetch.ExtendedFetch
import Mathlib.Tactic.SplitIfs

/-!
# Scrolling a static result follows the positioning table

`PGAPI_ExtendedFetch` on a static result is compared, call by call, with the ODBC
positioning table. The comparison is exact: `OffTable` lists the calls that leave the
table, and a run stays on the table at every call if and only if it makes none of them.

The proof factors through `Landed`: every call lands on one position, the one its
`Placement` stands for, and answers as that position prescribes; what is left is arithmetic
between the placement and the table.
-/

namespace OdbcDriver.Fetch

open OdbcDriver.CInt

variable {res : StaticResult} {stmt : FetchStmt}

/-! ### The fetch loop -/

@[simp] theorem scFetch_rowsetStart : (scFetch res stmt).1.rowsetStart = stmt.rowsetStart := by
  unfold scFetch; split_ifs <;> rfl

@[simp] theorem scFetch_posBeforeRecordset :
    (scFetch res stmt).1.posBeforeRecordset = stmt.posBeforeRecordset := by
  unfold scFetch; split_ifs <;> rfl

/-- `SC_fetch` reports no data exactly when no row follows the current one. -/
theorem scFetch_noDataFound_iff :
    (scFetch res stmt).2 = .noDataFound ↔ res.numTuples - 1 ≤ stmt.currTuple := by
  have h0 := res.numTuples_nonneg
  have h1 := res.numTuples_le
  have h2 := res.maxRows_ok
  have hwrap : wrap 32 res.numTuples = res.numTuples := by simp only [wrap, intMax] at *; omega
  unfold scFetch
  rw [hwrap]
  split_ifs with h htr
  · simp only [true_iff]; omega
  · simp only [false_iff]; omega
  · simp only [false_iff]; omega

/-- While a row follows, `SC_fetch` steps onto it. -/
theorem scFetch_currTuple (h : (scFetch res stmt).2 ≠ .noDataFound) :
    (scFetch res stmt).1.currTuple = stmt.currTuple + 1 := by
  unfold scFetch at h ⊢
  split_ifs at h ⊢ <;> first | rfl | exact absurd rfl h

/-- The fetch loop leaves the rowset start alone. -/
theorem fetchLoop_rowsetStart {left : Nat} : ∀ {p : FetchStmt × RetCode} {i : Int} {t : Bool},
    (fetchLoop res left p i t).1.rowsetStart = p.1.rowsetStart := by
  induction left with
  | zero => intro p i t; unfold fetchLoop; split_ifs <;> rfl
  | succ left ih =>
    intro p i t
    unfold fetchLoop
    split_ifs
    · rfl
    · exact ih.trans scFetch_rowsetStart

/-- The fetch loop fetches as many rows as the rowset holds and the result still has. -/
theorem fetchLoop_count {left : Nat} : ∀ {stmt : FetchStmt} {i : Int} {t : Bool},
    (fetchLoop res left (scFetch res stmt) i t).2.1 =
      i + min ((left : Int) + 1) (max 0 (res.numTuples - 1 - stmt.currTuple)) := by
  induction left with
  | zero =>
    intro stmt i t
    unfold fetchLoop
    split_ifs with h
    · have := scFetch_noDataFound_iff.mp h
      dsimp only; omega
    · have := mt scFetch_noDataFound_iff.mpr h
      dsimp only; omega
  | succ left ih =>
    intro stmt i t
    unfold fetchLoop
    split_ifs with h
    · have := scFetch_noDataFound_iff.mp h
      dsimp only; omega
    · have hlt := mt scFetch_noDataFound_iff.mpr h
      dsimp only
      rw [ih, scFetch_currTuple h]
      omega

/-! ### Where a call lands -/

/-- What the application learns from a call: no data, or the rows it got. -/
def Fetched.answer (f : Fetched) : Position.Answer :=
  if f.ret = .noDataFound then .noData else .rows (f.stmt.rowsetStart + 1) f.pcrow

/-- The call left the statement at position `p` of a result of `n` rows, with rowset size
`r`, and answered as `p` prescribes. -/
structure Landed (n r : Int) (f : Fetched) (p : Position) : Prop where
  start_ge : -1 ≤ f.stmt.rowsetStart
  start_le : f.stmt.rowsetStart ≤ n
  position : Position.ofStart n f.stmt.rowsetStart = p
  save : 0 ≤ f.stmt.rowsetStart → f.stmt.rowsetStart < n → f.stmt.saveRowsetSize = r
  save_le : f.stmt.saveRowsetSize ≤ max 0 r
  answer : f.answer = p.answer n r

theorem landed_bof {r : Int} (h : stmt.saveRowsetSize = -1) :
    Landed res.numTuples r ⟨stmt.returnBof, .noDataFound, 0⟩ .beforeStart where
  start_ge := le_refl _
  start_le := by have := res.numTuples_nonneg; simp only [FetchStmt.returnBof]; omega
  position := by simp [Position.ofStart, FetchStmt.returnBof]
  save := fun h0 _ => by simp [FetchStmt.returnBof] at h0
  save_le := by simp only [FetchStmt.returnBof, h]; omega
  answer := rfl

/-- The end of the result, or its beginning when there is no row to be after. -/
def endPosition (n : Int) : Position := if n = 0 then .beforeStart else .afterEnd

/-- A start at or past the end stands for the end. -/
theorem ofStart_end {n s : Int} (hn : 0 ≤ n) (hs : n ≤ s) :
    Position.ofStart n s = endPosition n := by
  unfold Position.ofStart endPosition
  by_cases h0 : n = 0
  · rw [if_pos (Or.inr h0), if_pos h0]
  · rw [if_neg (by omega), if_pos hs, if_neg h0]

theorem landed_eof {r : Int} (h : stmt.saveRowsetSize = -1) :
    Landed res.numTuples r ⟨stmt.returnEof res.numTuples, .noDataFound, 0⟩
      (endPosition res.numTuples) where
  start_ge := by have := res.numTuples_nonneg; simp only [FetchStmt.returnEof]; omega
  start_le := le_refl _
  position := by
    rw [FetchStmt.returnEof, ofStart_end res.numTuples_nonneg le_rfl]
  save := fun _ h1 => by simp [FetchStmt.returnEof] at h1
  save_le := by simp only [FetchStmt.returnEof, h]; omega
  answer := by simp only [endPosition]; split_ifs <;> rfl

/-- Fetching from a start inside the result, or from `0` of an empty one. -/
theorem landed_fetchRowset {r : Int} (hr : 0 < r) (h0 : 0 ≤ stmt.rowsetStart)
    (hle : stmt.rowsetStart < res.numTuples ∨ stmt.rowsetStart = res.numTuples) :
    Landed res.numTuples r (fetchRowset res stmt r)
      (Position.ofStart res.numTuples stmt.rowsetStart) := by
  have hstart : (fetchRowset res stmt r).stmt.rowsetStart = stmt.rowsetStart :=
    fetchLoop_rowsetStart.trans scFetch_rowsetStart
  have hcount : (fetchRowset res stmt r).pcrow = min r (res.numTuples - stmt.rowsetStart) := by
    refine fetchLoop_count.trans ?_
    dsimp only; omega
  have hret : (fetchRowset res stmt r).ret = .noDataFound ↔
      (fetchRowset res stmt r).pcrow = 0 := by
    simp only [fetchRowset]
    split_ifs with hi htr <;> simp [-Int.pred_toNat, hi]
  refine ⟨by omega, by omega, by rw [hstart], fun _ _ => rfl, ?_, ?_⟩
  · simp only [fetchRowset]; omega
  · simp only [Fetched.answer, hret, hstart, hcount, Position.ofStart]
    rcases hle with hlt | heq
    · rw [if_neg (by omega), if_neg (by omega), if_neg (by omega)]
      simp only [Position.answer, Position.Answer.rows.injEq, true_and]
      omega
    · rw [if_pos (by omega)]
      split_ifs <;> first | rfl | omega

/-- The position a placement stands for. -/
def Placement.position (n r : Int) : Placement → Position
  | .bof => .beforeStart
  | .eof => endPosition n
  | .restart => Position.ofStart n 0
  | .stored s | .found s =>
    if s < 0 ∧ 0 < wrap 64 (s + r) then Position.ofStart n 0 else Position.ofStart n s

/-- Restarting stands for what storing the start `0` stands for. -/
theorem restart_position {n r : Int} :
    Placement.restart.position n r = (Placement.stored 0).position n r := by
  simp [Placement.position]

theorem landed_checkAndFetch {r : Int} (hr : 0 < r) (h : stmt.saveRowsetSize = -1) (s : Int) :
    Landed res.numTuples r (checkAndFetch res stmt s r)
      ((Placement.stored s).position res.numTuples r) := by
  have hn := res.numTuples_nonneg
  unfold checkAndFetch
  simp only [Placement.position]
  split_ifs with h1 h2 h3 h4 h5 h6
  · omega
  · rw [ofStart_end hn h1]
    exact landed_eof h
  · omega
  · rw [Position.ofStart, if_pos (by omega)]
    exact landed_bof h
  · refine landed_fetchRowset hr ?_ ?_ <;> dsimp only <;> omega
  · omega
  · omega
  · refine landed_fetchRowset hr ?_ ?_ <;> dsimp only <;> omega

/-- **Every call lands on the position its placement stands for.** -/
theorem extendedFetch_landed (res : StaticResult) (stmt : FetchStmt) {r : Int} (hr : 0 < r)
    (o : Orientation) (irow : Int) :
    Landed res.numTuples r (extendedFetch res stmt o irow r)
      ((placeRowset res stmt.rowsetStart stmt.saveRowsetSize o irow r).position
        res.numTuples r) := by
  unfold extendedFetch
  dsimp only
  rcases placeRowset res stmt.rowsetStart stmt.saveRowsetSize o irow r with _ | _ | s | _ | s
  · exact landed_bof rfl
  · exact landed_eof rfl
  · refine landed_checkAndFetch hr ?_ s
    rfl
  · rw [restart_position]
    refine landed_checkAndFetch hr ?_ 0
    rfl
  · refine landed_checkAndFetch hr ?_ s
    rfl

/-! ### Placements in closed form -/

theorem position_of_nonneg {n r s : Int} (h : 0 ≤ s) :
    (Placement.stored s).position n r = Position.ofStart n s := by
  rw [Placement.position, if_neg (by omega)]

theorem position_found {n r s : Int} :
    (Placement.found s).position n r = (Placement.stored s).position n r := rfl

/-- In an empty result every placement is before the start. -/
theorem position_empty {r : Int} (p : Placement) : p.position 0 r = .beforeStart := by
  rcases p with _ | _ | s | _ | s <;> simp [Placement.position, endPosition, Position.ofStart]

theorem ofStart_inside {n s : Int} (h0 : 0 ≤ s) (hn : s < n) :
    Position.ofStart n s = .inside (s + 1) := by
  rw [Position.ofStart, if_neg (by omega), if_neg (by omega)]

theorem ofStart_neg {n s : Int} (h : s < 0) : Position.ofStart n s = .beforeStart := by
  rw [Position.ofStart, if_pos (Or.inl h)]

theorem ofStart_after {n s : Int} (h0 : 0 < n) (hn : n ≤ s) :
    Position.ofStart n s = .afterEnd := by
  rw [ofStart_end h0.le hn, endPosition, if_neg (by omega)]

/-- A backward search for `k` rows from `sta`, as long as `k` is representable. -/
theorem placeBackward_eq {sta k : Int} (hk : 0 < k) (hk63 : k < 2 ^ 63) (h2 : -2 ≤ sta)
    (hsta : sta < res.numTuples) :
    placeBackward res.index sta (uwrap 64 k) =
      if k ≤ sta + 1 then .found (sta + 1 - k)
      else if sta = -1 then .bof
      else if sta = -2 then .found (-1)
      else .restart := by
  have hn := res.numTuples_le
  have hw : wrap 64 (uwrap 64 k) = k := by simp only [wrap, uwrap]; omega
  simp only [intMax] at hn
  simp only [placeBackward, getNthValid, StaticResult.index, if_true, hw]
  by_cases h : k ≤ sta + 1
  · have h1 : wrap 64 (sta + 1 - uwrap 64 k) = sta + 1 - k := by simp only [wrap, uwrap]; omega
    have h2 : wrap 32 k = k := by simp only [wrap]; omega
    simp only [if_pos h, h1, h2]
    rw [if_neg (by omega)]
  · have h3 : wrap 32 (-(sta + 1)) = -(sta + 1) := by simp only [wrap]; omega
    simp only [if_neg h, h3]
    split_ifs <;> first | rfl | omega

/-- The offset whose negation is not representable is taken for the beginning. -/
theorem placeBackward_min {sta : Int} (h2 : -2 ≤ sta) :
    placeBackward res.index sta (uwrap 64 (2 ^ 63)) = .bof := by
  have hw : wrap 64 (uwrap 64 (2 ^ 63)) = -2 ^ 63 := by decide
  have hw32 : wrap 32 (-2 ^ 63) = 0 := by decide
  simp only [placeBackward, getNthValid, StaticResult.index, if_true, hw]
  simp only [if_pos (show -2 ^ 63 ≤ sta + 1 by omega), hw32, le_refl, if_true]

/-- A forward search for `k` rows from `sta`: past the end, or `k - 1` rows further on. -/
theorem position_placeForward {sta k r : Int} (hk : 0 < k) (hk63 : k < 2 ^ 63) (h0 : 0 ≤ sta)
    (hsta : sta ≤ res.numTuples + 1) :
    (placeForward res.index sta (uwrap 64 k)).position res.numTuples r =
      if sta - 1 + k < res.numTuples ∨ 2 ^ 63 ≤ sta - 1 + k then
        (Placement.stored (wrap 64 (sta - 1 + k))).position res.numTuples r
      else endPosition res.numTuples := by
  have hn := res.numTuples_le
  have hn0 := res.numTuples_nonneg
  have hw : wrap 64 (uwrap 64 k) = k := by simp only [wrap, uwrap]; omega
  have hw2 : wrap 64 (sta - 1 + uwrap 64 k) = wrap 64 (sta - 1 + k) := by
    simp only [wrap, uwrap]; omega
  simp only [intMax] at hn
  simp only [placeForward, getNthValid, StaticResult.index, if_true, hw, hw2, Bool.false_eq_true,
    if_false]
  by_cases h : sta - 1 + k < res.numTuples ∨ 2 ^ 63 ≤ sta - 1 + k
  · have hlt : wrap 64 (sta - 1 + k) < res.numTuples := by simp only [wrap]; omega
    simp only [if_pos hlt, if_pos h]
    rw [if_neg (by omega), position_found]
  · have hge : ¬wrap 64 (sta - 1 + k) < res.numTuples := by simp only [wrap]; omega
    simp only [if_neg hge, if_neg h]
    split_ifs
    · rfl
    · rw [position_found, position_of_nonneg hn0, ofStart_end hn0 le_rfl]

/-! ### Calls that leave the table -/

/-- A well-formed call of `SQLFetchScroll`: a positive rowset size, both numbers in the
range of `SQLLEN`. -/
structure FetchCall where
  fetchType : Orientation
  /-- `FetchOffset`; read by `absolute` and `relative` only. -/
  irow : Int := 0
  rowsetSize : Int := 1
  irow_fits : Fits 64 irow := by decide
  rowsetSize_fits : Fits 64 rowsetSize := by decide
  rowsetSize_pos : 0 < rowsetSize := by decide

/-- The calls on a nonempty result of `n` rows that do not go where the table says.

* `absolute`, and `relative` from a row or from the end: an offset that points before the
  first row by more than a rowset goes to row `1`, not before the start;
* `relative` from before the start: an offset of zero or less goes to row `1` as soon as
  the rowset has two rows, and does not stay before the start;
* `next` and `relative`: a start that overflows `SQLLEN` is not after the end. -/
def OffTable (n : Int) (s : FetchStmt) (c : FetchCall) : Prop :=
  0 < n ∧
    match c.fetchType with
    | .next =>
      0 ≤ s.rowsetStart ∧
        2 ^ 63 ≤ s.rowsetStart + if 0 < s.saveRowsetSize then s.saveRowsetSize else c.rowsetSize
    | .absolute => -2 ^ 63 < c.irow ∧ c.irow < -n ∧ c.irow < -c.rowsetSize
    | .relative =>
      (0 < c.irow ∧ 2 ^ 63 ≤ s.rowsetStart + c.irow) ∨
      (-2 ^ 63 < c.irow ∧ c.irow ≤ 0 ∧ s.rowsetStart < 0 ∧ 1 < c.rowsetSize) ∨
      (-2 ^ 63 < c.irow ∧ 0 < s.rowsetStart ∧ s.rowsetStart + c.irow < 0 ∧
        c.irow < -c.rowsetSize)
    | _ => False

instance (n : Int) (s : FetchStmt) (c : FetchCall) : Decidable (OffTable n s c) := by
  unfold OffTable
  cases c.fetchType <;> infer_instance

/-- The statement stands at position `p`, last fetched with rowset size `prevSize`. -/
structure StandsAt (n : Int) (s : FetchStmt) (p : Position) (prevSize : Int) : Prop where
  start_ge : -1 ≤ s.rowsetStart
  start_le : s.rowsetStart ≤ n
  position : Position.ofStart n s.rowsetStart = p
  save : 0 ≤ s.rowsetStart → s.rowsetStart < n → s.saveRowsetSize = prevSize ∧ 0 < prevSize
  save_lt : s.saveRowsetSize < 2 ^ 63

/-- A negative start never stands for the end of a nonempty result. -/
theorem position_neg_ne_afterEnd {n r s : Int} (hn : 0 < n) (hs : s < 0) :
    (Placement.stored s).position n r ≠ .afterEnd := by
  rw [Placement.position]
  split_ifs
  · rw [ofStart_inside le_rfl hn]; exact fun h => by cases h
  · rw [ofStart_neg hs]; exact fun h => by cases h

/-- A start beyond the end that is representable stands for the end; one that overflows
does not. -/
theorem position_wrap_eq_afterEnd_iff {n r x : Int} (hn : 0 < n) (hnx : n ≤ x)
    (hx : x < 2 ^ 64) :
    (Placement.stored (wrap 64 x)).position n r = .afterEnd ↔ ¬2 ^ 63 ≤ x := by
  by_cases h : 2 ^ 63 ≤ x
  · simp only [h, not_true, iff_false]
    exact position_neg_ne_afterEnd hn (by simp only [wrap]; omega)
  · simp only [h, not_false_iff, iff_true]
    have hw : wrap 64 x = x := by simp only [wrap]; omega
    rw [hw, position_of_nonneg (by omega), ofStart_after hn hnx]

section OnTable

variable {n start save r prev irow : Int}

/-- `SQL_FETCH_NEXT` against the table. -/
theorem next_on_table_iff (hn : 0 < n) (hle : start ≤ n) (hn31 : n ≤ intMax)
    (hsave : 0 ≤ start → start < n → save = prev ∧ 0 < prev) (hs63 : save < 2 ^ 63)
    (hr : 0 < r) (hr63 : r < 2 ^ 63) :
    ((placeNext start save r).position n r = (Position.ofStart n start).next n prev) ↔
      ¬(0 ≤ start ∧ 2 ^ 63 ≤ start + if 0 < save then save else r) := by
  simp only [intMax] at hn31
  unfold placeNext
  by_cases h0 : start < 0
  · rw [if_pos h0, ofStart_neg h0, position_of_nonneg le_rfl, ofStart_inside le_rfl hn]
    simp only [Position.next, zero_add, true_iff]
    omega
  rw [if_neg h0]
  generalize hp : (if 0 < save then save else r) = progress
  have hpos : 0 < progress ∧ progress < 2 ^ 63 := by rw [← hp]; split_ifs <;> omega
  by_cases hin : start < n
  · obtain ⟨rfl, hprev⟩ := hsave (by omega) hin
    rw [if_pos hprev] at hp
    subst hp
    rw [ofStart_inside (by omega) hin, Position.next]
    by_cases hnext : start + 1 + save ≤ n
    · rw [if_pos hnext]
      have hw : wrap 64 (start + save) = start + save := by simp only [wrap]; omega
      rw [hw, position_of_nonneg (by omega), ofStart_inside (by omega) (by omega)]
      simp only [Position.inside.injEq]
      omega
    · rw [if_neg hnext, position_wrap_eq_afterEnd_iff hn (by omega) (by omega)]
      omega
  · rw [ofStart_after hn (by omega), Position.next,
      position_wrap_eq_afterEnd_iff hn (by omega) (by omega)]
    omega

/-- `SQL_FETCH_PRIOR` never leaves the table. -/
theorem prior_on_table (hn : 0 < n) (hle : start ≤ n) (hn31 : n ≤ intMax) (hr : 0 < r) :
    (placePrior n start r).position n r = (Position.ofStart n start).prior n r := by
  simp only [intMax] at hn31
  unfold placePrior
  by_cases h0 : start < 0
  · rw [if_pos h0.le, ofStart_neg h0]; rfl
  have hw : r ≤ start → wrap 64 (start - r) = start - r := fun _ => by simp only [wrap]; omega
  by_cases hin : start < n
  · rw [ofStart_inside (by omega) hin, Position.prior]
    split_ifs <;> first | rfl | omega | skip
    · exact ofStart_inside le_rfl hn
    · rw [hw (by omega), position_of_nonneg (by omega), ofStart_inside (by omega) (by omega)]
      congr 1; omega
  · obtain rfl : start = n := by omega
    rw [ofStart_after hn le_rfl, Position.prior]
    split_ifs <;> first | rfl | omega | skip
    · exact ofStart_inside le_rfl hn
    · rw [hw (by omega), position_of_nonneg (by omega), ofStart_inside (by omega) (by omega)]

/-- A backward search from the last row lands where `SQL_FETCH_LAST` and negative absolute
offsets look for it: `k` rows from the end, or on the first row. -/
theorem position_placeBackward_end {k : Int} (hn : 0 < res.numTuples) (hk : 0 < k)
    (hk63 : k < 2 ^ 63) :
    (placeBackward res.index (res.numTuples - 1) (uwrap 64 k)).position res.numTuples r =
      if k ≤ res.numTuples then .inside (res.numTuples - k + 1) else .inside 1 := by
  rw [placeBackward_eq hk hk63 (by omega) (by omega), sub_add_cancel]
  by_cases h : k ≤ res.numTuples
  · rw [if_pos h, if_pos h, position_found, position_of_nonneg (by omega),
      ofStart_inside (by omega) (by omega)]
  · rw [if_neg h, if_neg h, if_neg (by omega), if_neg (by omega), restart_position,
      position_of_nonneg le_rfl, ofStart_inside le_rfl hn, zero_add]

/-- `SQL_FETCH_LAST` never leaves the table. -/
theorem last_on_table (hn : 0 < res.numTuples) (hr : 0 < r) (hr63 : r < 2 ^ 63) :
    (placeBackward res.index (res.numTuples - 1) (uwrap 64 r)).position res.numTuples r =
      Position.last res.numTuples r :=
  position_placeBackward_end hn hr hr63

/-- Negative absolute offsets against the table. -/
theorem absolute_neg_on_table_iff (hn : 0 < res.numTuples) (hneg : irow < 0)
    (hfits : Fits 64 irow) (hr63 : r < 2 ^ 63) :
    ((placeBackward res.index (res.numTuples - 1) (uwrap 64 (-irow))).position
        res.numTuples r = Position.absolute res.numTuples r irow) ↔
      ¬(-2 ^ 63 < irow ∧ irow < -res.numTuples ∧ irow < -r) := by
  have hn31 := res.numTuples_le
  simp only [intMax] at hn31
  simp only [Fits] at hfits
  rw [Position.absolute, if_pos hneg]
  by_cases hmin : irow = -2 ^ 63
  · rw [hmin, neg_neg, placeBackward_min (by omega), if_neg (by omega), if_pos (by omega)]
    simp only [Placement.position, true_iff]
    omega
  · rw [position_placeBackward_end hn (by omega) (by omega)]
    by_cases h : -irow ≤ res.numTuples
    · rw [if_pos h, if_pos h]
      simp only [Position.inside.injEq]
      omega
    · rw [if_neg h, if_neg h]
      by_cases hrow : r < -irow
      · rw [if_pos hrow]
        simp only [reduceCtorEq, false_iff, not_not]
        omega
      · rw [if_neg hrow]
        simp only [true_iff]
        omega

/-- `SQL_FETCH_ABSOLUTE` against the table. -/
theorem absolute_on_table_iff (hn : 0 < res.numTuples) (hfits : Fits 64 irow)
    (hr63 : r < 2 ^ 63) :
    ((placeRowset res start save .absolute irow r).position res.numTuples r =
        Position.absolute res.numTuples r irow) ↔
      ¬(-2 ^ 63 < irow ∧ irow < -res.numTuples ∧ irow < -r) := by
  have hfits' := hfits
  simp only [Fits] at hfits'
  simp only [placeRowset]
  rcases lt_trichotomy irow 0 with hneg | rfl | hpos
  · rw [if_neg hneg.ne, if_neg hneg.not_gt]
    exact absolute_neg_on_table_iff hn hneg hfits hr63
  · simp only [if_true, Placement.position, Position.absolute, lt_irrefl, if_false, true_iff]
    omega
  · have hn31 := res.numTuples_le
    simp only [intMax] at hn31
    rw [if_neg hpos.ne', if_pos hpos, position_placeForward hpos (by omega) le_rfl (by omega),
      Position.absolute, if_neg hpos.not_gt, if_neg hpos.ne']
    have hw : wrap 64 (0 - 1 + irow) = irow - 1 := by simp only [wrap]; omega
    rw [hw]
    by_cases h : irow ≤ res.numTuples
    · rw [if_pos h, if_pos (by omega), position_of_nonneg (by omega),
        ofStart_inside (by omega) (by omega), sub_add_cancel]
      simp only [true_iff]
      omega
    · rw [if_neg h, if_neg (by omega), endPosition, if_neg hn.ne']
      simp only [true_iff]
      omega

/-- Positive relative offsets against the table. -/
theorem relative_pos_on_table_iff (hn : 0 < res.numTuples) (hge : -1 ≤ start)
    (hle : start ≤ res.numTuples) (hpos : 0 < irow) (hfits : Fits 64 irow) :
    ((placeForward res.index (start + 1) (uwrap 64 irow)).position res.numTuples r =
        (Position.ofStart res.numTuples start).relative res.numTuples r irow) ↔
      ¬2 ^ 63 ≤ start + irow := by
  have hn31 := res.numTuples_le
  simp only [intMax] at hn31
  simp only [Fits] at hfits
  rw [position_placeForward hpos (by omega) (by omega) (by omega), add_sub_cancel_right]
  have htable : (Position.ofStart res.numTuples start).relative res.numTuples r irow =
      if start + irow < res.numTuples then .inside (start + irow + 1) else .afterEnd := by
    by_cases h0 : start < 0
    · obtain rfl : start = -1 := by omega
      rw [ofStart_neg h0, Position.relative, if_pos hpos, Position.absolute,
        if_neg hpos.not_gt, if_neg hpos.ne']
      split_ifs <;> first | rfl | omega | (congr 1; omega)
    by_cases hin : start < res.numTuples
    · rw [ofStart_inside (by omega) hin, Position.relative, if_neg (by omega), if_neg (by omega)]
      split_ifs <;> first | rfl | omega | (congr 1; omega)
    · rw [ofStart_after hn (by omega), Position.relative, if_neg (by omega), if_neg (by omega)]
  rw [htable]
  by_cases hin : start + irow < res.numTuples
  · have hw : wrap 64 (start + irow) = start + irow := by simp only [wrap]; omega
    rw [if_pos (Or.inl hin), if_pos hin, hw, position_of_nonneg (by omega),
      ofStart_inside (by omega) hin]
    simp only [true_iff]
    omega
  · rw [if_neg hin]
    by_cases h63 : 2 ^ 63 ≤ start + irow
    · rw [if_pos (Or.inr h63)]
      exact position_wrap_eq_afterEnd_iff hn (by omega) (by omega)
    · rw [if_neg (by omega), endPosition, if_neg hn.ne']
      simp only [h63, not_false_iff]

/-- Negative relative offsets against the table. -/
theorem relative_neg_on_table_iff (hn : 0 < res.numTuples) (hge : -1 ≤ start)
    (hle : start ≤ res.numTuples) (hneg : irow < 0) (hfits : Fits 64 irow) (hr : 0 < r)
    (hr63 : r < 2 ^ 63) :
    ((placeBackward res.index (start - 1) (uwrap 64 (-irow))).position res.numTuples r =
        (Position.ofStart res.numTuples start).relative res.numTuples r irow) ↔
      ¬((-2 ^ 63 < irow ∧ start < 0 ∧ 1 < r) ∨
        (-2 ^ 63 < irow ∧ 0 < start ∧ start + irow < 0 ∧ irow < -r)) := by
  have hn31 := res.numTuples_le
  simp only [intMax] at hn31
  have hfits' := hfits
  simp only [Fits] at hfits'
  by_cases hend : start = res.numTuples
  · subst hend
    rw [ofStart_after hn le_rfl, Position.relative, if_pos hneg,
      absolute_neg_on_table_iff hn hneg hfits hr63]
    omega
  have htable : (Position.ofStart res.numTuples start).relative res.numTuples r irow =
      if start ≤ 0 then .beforeStart
      else if start + irow < 0 then if r < -irow then .beforeStart else .inside 1
      else .inside (start + irow + 1) := by
    by_cases h0 : start < 0
    · rw [ofStart_neg h0, Position.relative, if_neg (by omega), if_pos h0.le]
    · rw [ofStart_inside (by omega) (by omega), Position.relative]
      split_ifs <;> first | rfl | omega | (congr 1; omega)
  rw [htable]
  by_cases hmin : irow = -2 ^ 63
  · subst hmin
    rw [neg_neg, placeBackward_min (by omega), Placement.position]
    by_cases h0 : start ≤ 0
    · rw [if_pos h0]; simp only [true_iff]; omega
    · rw [if_neg h0, if_pos (by omega), if_pos (by omega)]; simp only [true_iff]; omega
  rw [placeBackward_eq (by omega) (by omega) (by omega) (by omega), sub_add_cancel]
  by_cases hk : -irow ≤ start
  · rw [if_pos hk, position_found, position_of_nonneg (by omega),
      ofStart_inside (by omega) (by omega), if_neg (by omega), if_neg (by omega)]
    simp only [Position.inside.injEq]
    omega
  rw [if_neg hk]
  by_cases h0 : start = 0
  · rw [if_pos (by omega), if_pos h0.le]
    simp only [Placement.position, true_iff]
    omega
  rw [if_neg (by omega)]
  by_cases h1 : start < 0
  · obtain rfl : start = -1 := by omega
    have hw : wrap 64 (-1 + r) = r - 1 := by simp only [wrap]; omega
    rw [if_pos (by omega), if_pos (by omega)]
    simp only [Placement.position, hw, ofStart_inside le_rfl hn, zero_add]
    split_ifs with h2
    · simp only [false_iff, not_not]
      omega
    · rw [ofStart_neg (by omega)]
      simp only [true_iff]
      omega
  · rw [if_neg (by omega), if_neg (by omega), if_pos (by omega), restart_position,
      position_of_nonneg le_rfl, ofStart_inside le_rfl hn, zero_add]
    split_ifs with h2
    · simp only [false_iff, not_not]
      omega
    · simp only [true_iff]
      omega

/-- `SQL_FETCH_RELATIVE` with offset `0` against the table. -/
theorem relative_zero_on_table_iff (hn : 0 < n) (hge : -1 ≤ start) (hle : start ≤ n)
    (hr : 0 < r) (hr63 : r < 2 ^ 63) :
    ((Placement.stored start).position n r = (Position.ofStart n start).relative n r 0) ↔
      ¬(start < 0 ∧ 1 < r) := by
  by_cases h0 : start < 0
  · obtain rfl : start = -1 := by omega
    have hw : wrap 64 (-1 + r) = r - 1 := by simp only [wrap]; omega
    rw [ofStart_neg h0, Position.relative, if_neg (lt_irrefl _)]
    simp only [Placement.position, hw, ofStart_inside le_rfl hn]
    split_ifs with h2
    · simp only [false_iff, not_not]
      omega
    · rw [ofStart_neg h0]
      simp only [true_iff]
      omega
  rw [position_of_nonneg (by omega)]
  by_cases hin : start < n
  · rw [ofStart_inside (by omega) hin, Position.relative, if_neg (by omega), if_neg (by omega),
      if_pos (by omega), add_zero]
    simp only [true_iff]
    omega
  · rw [ofStart_after hn (by omega), Position.relative, if_neg (lt_irrefl _)]
    simp only [true_iff]
    omega

end OnTable

/-- **One call against the table.** The place a call lands on is the table's exactly when
the call is not one of `OffTable`. -/
theorem placement_on_table_iff {s : FetchStmt} {p : Position} {prev : Int} (c : FetchCall)
    (h : StandsAt res.numTuples s p prev) :
    ((placeRowset res s.rowsetStart s.saveRowsetSize c.fetchType c.irow c.rowsetSize).position
        res.numTuples c.rowsetSize =
        Position.table res.numTuples c.rowsetSize prev c.fetchType c.irow p) ↔
      ¬OffTable res.numTuples s c := by
  obtain ⟨o, irow, r, hfits, hrfits, hr⟩ := c
  have hr63 : r < 2 ^ 63 := hrfits.2
  have hge := h.start_ge
  have hle := h.start_le
  have hn31 := res.numTuples_le
  rw [← h.position]
  by_cases hz : res.numTuples = 0
  · simp only [OffTable, hz, Position.table, position_empty, if_true, lt_irrefl, false_and,
      not_false_iff]
  have hn : 0 < res.numTuples := lt_of_le_of_ne res.numTuples_nonneg (Ne.symm hz)
  simp only [Position.table, if_neg hz]
  cases o with
  | next =>
    simp only [OffTable, hn, true_and]
    exact next_on_table_iff hn hle hn31 h.save h.save_lt hr hr63
  | prior =>
    simp only [OffTable, and_false, not_false_iff, iff_true]
    exact prior_on_table hn hle hn31 hr
  | first =>
    simp only [OffTable, and_false, not_false_iff, iff_true, placeRowset]
    rw [position_of_nonneg le_rfl, ofStart_inside le_rfl hn, zero_add]
  | last =>
    simp only [OffTable, and_false, not_false_iff, iff_true, placeRowset]
    exact last_on_table hn hr hr63
  | absolute =>
    simp only [OffTable, hn, true_and]
    exact absolute_on_table_iff hn hfits hr63
  | relative =>
    simp only [OffTable, hn, true_and, placeRowset]
    rcases lt_trichotomy irow 0 with hneg | rfl | hpos
    · rw [if_neg hneg.ne, if_neg hneg.not_gt,
        relative_neg_on_table_iff hn hge hle hneg hfits hr hr63]
      omega
    · rw [if_pos rfl, relative_zero_on_table_iff hn hge hle hr hr63]
      omega
    · rw [if_neg hpos.ne', if_pos hpos, relative_pos_on_table_iff hn hge hle hpos hfits]
      omega

/-! ### Runs -/

/-- The driver as a machine over calls of `SQLFetchScroll`. -/
def scrollDriver (res : StaticResult) : Machine FetchStmt FetchCall Position.Answer where
  step s c :=
    let f := extendedFetch res s c.fetchType c.irow c.rowsetSize
    (f.stmt, f.answer)

/-- The positioning table as a machine: its state is the position and the rowset size of the
previous call. -/
def scrollTable (n : Int) : Machine (Position × Int) FetchCall Position.Answer where
  step p c :=
    let p' := Position.table n c.rowsetSize p.2 c.fetchType c.irow p.1
    ((p', c.rowsetSize), p'.answer n c.rowsetSize)

/-- A statement freshly executed stands before the start. -/
theorem standsAt_start (res : StaticResult) (prev : Int) :
    StandsAt res.numTuples {} .beforeStart prev where
  start_ge := le_refl _
  start_le := by have := res.numTuples_nonneg; dsimp only; omega
  position := by simp [Position.ofStart]
  save := fun h => by simp at h
  save_lt := by decide

/-- **Step lemma.** From a position on the table, a call stays on it, in the position it
leaves and in the rows it delivers, exactly when it is not one of `OffTable`. -/
theorem scroll_step_iff (s : FetchStmt) (p : Position × Int) (c : FetchCall)
    (h : StandsAt res.numTuples s p.1 p.2) :
    (StandsAt res.numTuples ((scrollDriver res).step s c).1
        ((scrollTable res.numTuples).step p c).1.1 ((scrollTable res.numTuples).step p c).1.2 ∧
      ((scrollDriver res).step s c).2 = ((scrollTable res.numTuples).step p c).2) ↔
      ¬OffTable res.numTuples s c := by
  have hland := extendedFetch_landed res s c.rowsetSize_pos c.fetchType c.irow
  rw [← placement_on_table_iff c h]
  constructor
  · exact fun hon => hland.position.symm.trans hon.1.position
  · intro hon
    rw [hon] at hland
    have hr63 : c.rowsetSize < 2 ^ 63 := c.rowsetSize_fits.2
    have hsave := hland.save_le
    refine ⟨⟨hland.start_ge, hland.start_le, hland.position,
      fun h0 hlt => ⟨hland.save h0 hlt, c.rowsetSize_pos⟩, ?_⟩, hland.answer⟩
    dsimp only [scrollDriver]
    omega

/-- **Scrolling follows the table.** A run of calls on a static result follows the ODBC
positioning table at every call, in position and in rows, if and only if no call of the run
is one of `OffTable`. -/
theorem scroll_follows_table_iff (res : StaticResult) (calls : List FetchCall) :
    (scrollDriver res).Follows (scrollTable res.numTuples)
        (fun s p => StandsAt res.numTuples s p.1 p.2) {} (.beforeStart, 1) calls ↔
      (scrollDriver res).AllSteps (fun s c => ¬OffTable res.numTuples s c) {} calls :=
  Machine.follows_iff (fun s p c h => scroll_step_iff s p c h) (standsAt_start res 1)

/-- The offset `-10` from the end of five rows, with a rowset of three, delivers the first
rowset, while the table stays before the start. -/
theorem scroll_absolute_off_table :
    ¬(scrollDriver
        { numTuples := 5
          numTuples_nonneg := by decide
          numTuples_le := by decide
          maxRows_ok := by decide }).outputs {}
        [{ fetchType := .absolute, irow := -10, rowsetSize := 3 }] =
      (scrollTable 5).outputs (.beforeStart, 1)
        [{ fetchType := .absolute, irow := -10, rowsetSize := 3 }] := by
  decide

end OdbcDriver.Fetch
