import OdbcDriver.Result.AddedInPlace

/-!
# Every addition is stored in its place

`Whole` and `Pending` are kept by all calls (`Call.run_good`): by an addition (`addRow_spec`), by
loading rows again, and by undoing an entry of the log (`undoEntry_spec`). What an addition does is
read off its specification (`add_right`).
-/

namespace OdbcDriver.RowAdd

open Lib (ok_bind)
open Result RowLists HeapArray

variable {r : QResult} {in_trans : Bool}

/-! ### The invariant -/

/-- The number of the first cached row. -/
def QResult.rowStart (r : QResult) : ℤ := if r.has_valid_base then r.rowset_start - r.base else 0

/-- The keys of all rows are cached, and the data of some that follow each other. -/
structure Whole (r : QResult) : Prop where
  cursor : r.cursor = false
  reached_eof : r.reached_eof = true
  key_base : r.has_valid_base = true → r.key_base = r.rowset_start
  keys : r.num_cached_keys = r.num_total_read + r.ad_count
  keys_room : r.num_cached_keys ≤ r.keyset.length
  rows_room : r.num_cached_rows ≤ r.backend_tuples.length
  row_start : 0 ≤ r.rowStart
  rows : 0 < r.num_cached_rows → r.rowStart + r.num_cached_rows ≤ r.num_cached_keys
  window : r.keyset_driven = false → r.rowStart = 0
  unfetched : r.has_valid_base = false → r.base = 0 ∧ r.rowset_start = -1
  bounded : r.ad_count < 2 ^ 32

/-- The additions in a log, from the newest entry on, are those of the last rows. -/
def Pending : List Rollback → ℕ → ℕ → Prop
  | [], _, _ => True
  | e :: es, keys, ads =>
    if e.option = .add then
      0 < keys ∧ 0 < ads ∧ e.index = (keys : ℤ) - 1 ∧ Pending es (keys - 1) (ads - 1)
    else Pending es keys ads

/-- What all calls keep. -/
structure Session.Good (s : Session) : Prop where
  whole : Whole s.res
  log : s.res.log.Inv
  pending : Pending s.res.log.entries.reverse s.res.num_cached_keys s.res.ad_count
  /-- Outside of a transaction there is nothing to undo. -/
  settled : s.in_trans = false → s.res.log.entries = []

theorem Session.Start.good {s : Session} (h : s.Start) : s.Good := by
  have hvalid := h.has_valid_base
  have hstart : s.res.rowStart = 0 := by rw [QResult.rowStart, hvalid]; rfl
  have hentries : s.res.log.entries = [] := by rw [h.log]; rfl
  refine ⟨⟨h.cursor, h.reached_eof, fun hbase => ?_, ?_, h.keys_room, h.rows_room, ?_, ?_,
    fun _ => hstart, fun _ => ⟨h.base, h.rowset_start⟩, ?_⟩, ?_, ?_, fun _ => hentries⟩
  · rw [hvalid] at hbase
    exact absurd hbase Bool.false_ne_true
  · rw [h.num_cached_keys, h.ad_count, Nat.add_zero]
  · rw [hstart]
  · intro
    rw [hstart, h.num_cached_keys, h.num_cached_rows]
    omega
  · rw [h.ad_count]
    norm_num
  · rw [h.log]
    exact UndoLog.cleared_inv
  · rw [hentries]
    trivial

namespace Whole

theorem kresIdx (h : Whole r) (gidx : ℤ) : r.kresIdx gidx = gidx := by
  rw [QResult.kresIdx]
  split
  · rename_i hvalid
    rw [h.key_base hvalid]
    omega
  · exact sub_zero gidx

theorem total (h : Whole r) : r.num_total_tuples = r.num_cached_keys := by
  rw [QResult.num_total_tuples, if_pos h.reached_eof, h.keys]

theorem hasKey_iff (h : Whole r) {gidx : ℤ} :
    r.HasKey gidx ↔ 0 ≤ gidx ∧ gidx < r.num_cached_keys := by
  rw [QResult.HasKey, h.kresIdx]

/-- The log does not matter. -/
theorem setLog (h : Whole r) (log : UndoLog) : Whole { r with log := log } :=
  ⟨h.cursor, h.reached_eof, h.key_base, h.keys, h.keys_room, h.rows_room, h.row_start, h.rows,
    h.window, h.unfetched, h.bounded⟩

/-- Nor do the keys and the rows themselves. -/
theorem setMemory (h : Whole r) {keyset : List KeySet} {backend_tuples : List Tuple}
    (hkeys : keyset.length = r.keyset.length)
    (hrows : backend_tuples.length = r.backend_tuples.length) :
    Whole { r with keyset := keyset, backend_tuples := backend_tuples } :=
  ⟨h.cursor, h.reached_eof, h.key_base, h.keys, by rw [hkeys]; exact h.keys_room,
    by rw [hrows]; exact h.rows_room, h.row_start, h.rows, h.window, h.unfetched, h.bounded⟩

end Whole

theorem cacheIdx_eq (r : QResult) (gidx : ℤ) : r.cacheIdx gidx = gidx - r.rowStart := rfl

/-- A change of a key changes the keys alone. -/
theorem modifyKey_eq (r : QResult) (gidx : ℤ) (f : KeySet → KeySet) :
    ∃ keyset, keyset.length = r.keyset.length ∧
      r.modifyKey gidx f = { r with keyset := keyset } := by
  rw [QResult.modifyKey]
  split
  · exact ⟨_, List.length_modify _ _ _, rfl⟩
  · exact ⟨r.keyset, rfl, rfl⟩

theorem Whole.modifyKey (h : Whole r) (gidx : ℤ) (f : KeySet → KeySet) :
    Whole (r.modifyKey gidx f) := by
  obtain ⟨keyset, hlen, heq⟩ := modifyKey_eq r gidx f
  rw [heq]
  exact h.setMemory hlen rfl

theorem Session.Good.modifyKey {s : Session} (h : s.Good) (gidx : ℤ) (f : KeySet → KeySet) :
    Session.Good ⟨s.in_trans, s.res.modifyKey gidx f⟩ := by
  obtain ⟨keyset, hlen, heq⟩ := modifyKey_eq s.res gidx f
  rw [heq]
  exact ⟨h.whole.setMemory hlen rfl, h.log, h.pending, h.settled⟩

/-! ### The log -/

/-- With room in the log, an entry is noted in a transaction, and nothing else changes. -/
theorem note_spec (hlog : r.log.Inv) (hroom : in_trans = true → r.log.rb_count < 40960)
    (index : ℤ) (tid : Tid) (code : DmlCode) :
    ∃ log, r.note in_trans index tid code = .ok { r with log := log } ∧ log.Inv ∧
      log.entries = r.log.entries ++ if in_trans then [⟨index, tid, code⟩] else [] := by
  cases in_trans with
  | false => exact ⟨r.log, rfl, hlog, (List.append_nil _).symm⟩
  | true =>
    have hn := hroom rfl
    have hlt : r.log.rb_count < r.log.nextAlloc := (hlog.alloc.next hlog.room (by omega)).1
    have happend := AddRollback_append hlog hn index tid code
    have hinv := hlog.note hn index tid code
    rw [happend] at hinv
    refine ⟨_, ?_, hinv, rfl⟩
    rw [QResult.note, happend]
    exact if_pos ⟨Int.natCast_nonneg _, Int.ofNat_lt.mpr hlt⟩

/-! ### Adding a row -/

/-- The cached rows are taken to reach the end of the result. -/
def QResult.AtEnd (r : QResult) : Prop := (r.num_cached_keys : ℤ) = r.gIdx r.num_cached_rows

/-- A row that is added goes behind the others. -/
theorem addRow_spec (h : Whole r) (hlog : r.log.Inv)
    (hroom : in_trans = true → r.log.rb_count < 40960) (hcount : r.ad_count + 1 < 2 ^ 32)
    (row : NewRow) :
    ∃ log keyset backend_tuples n,
      addRow in_trans r row = .ok { r with
        ad_count := r.ad_count + 1, log := log, keyset := keyset
        num_cached_keys := r.num_cached_keys + 1
        backend_tuples := backend_tuples, num_cached_rows := n } ∧
      log.Inv ∧ log.entries = r.log.entries ++
        (if in_trans then [⟨r.num_cached_keys, row.tid, .add⟩] else []) ∧
      keyset[r.num_cached_keys]? = some (keyOf row.tid 0) ∧
      (∀ i < r.num_cached_keys, keyset[i]? = r.keyset[i]?) ∧ r.num_cached_keys < keyset.length ∧
      n ≤ backend_tuples.length ∧
      (r.AtEnd ∧ n = r.num_cached_rows + 1 ∧
          backend_tuples[r.num_cached_rows]? = some row.tuple ∨
        ¬ r.AtEnd ∧ n = r.num_cached_rows) := by
  have hmod : (r.ad_count + 1) % 2 ^ 32 = r.ad_count + 1 := Nat.mod_eq_of_lt hcount
  obtain ⟨log, hnote, hinv, hentries⟩ :=
    note_spec (r := { r with ad_count := r.ad_count + 1 }) hlog hroom r.num_cached_keys row.tid .add
  obtain ⟨keyset, hput, hkey, hothers, hlt⟩ :=
    put_growFull (by norm_num : 0 < 100) h.keys_room KeySet.zero Fault.outOfBounds (keyOf row.tid 0)
  obtain ⟨tuples, hputRow, hrow, -, hltRow⟩ :=
    put_growFull (by norm_num : 0 < 100) h.rows_room [] Fault.outOfBounds row.tuple
  have hcursor : ¬ r.cursor = true := by rw [h.cursor]; exact Bool.false_ne_true
  have hadded : AddAdded in_trans r r.num_cached_keys row =
      .ok { r with ad_count := r.ad_count + 1, log := log } := by
    show QResult.note { r with ad_count := (r.ad_count + 1) % 2 ^ 32 } in_trans
      (if r.cursor then _ else _) row.tid .add >>= _ = _
    rw [hmod, if_neg hcursor, hnote, ok_bind, keepAdded]
    exact if_pos (by rw [h.cursor]; rfl)
  have hkeyed : appendKey { r with ad_count := r.ad_count + 1, log := log } r.num_cached_keys row =
      .ok { r with
        ad_count := r.ad_count + 1, log := log, keyset := keyset
        num_cached_keys := r.num_cached_keys + 1 } := by
    rw [appendKey, if_neg (by omega), Int.toNat_natCast, hput, ok_bind]
  have hkres : QResult.kresIdx { r with ad_count := r.ad_count + 1, log := log }
      r.num_cached_keys = r.num_cached_keys := h.kresIdx _
  rw [addRow, h.total, hadded, ok_bind, appendRow, hkres, if_neg hcursor]
  by_cases hend : r.AtEnd
  · refine ⟨log, keyset, tuples, r.num_cached_rows + 1, ?_, hinv, hentries, hkey, hothers, hlt,
      hltRow, Or.inl ⟨hend, rfl, hrow⟩⟩
    refine (if_pos hend).trans ?_
    rw [hkeyed, ok_bind, appendData, hputRow, ok_bind]
  · refine ⟨log, keyset, r.backend_tuples, r.num_cached_rows, ?_, hinv, hentries, hkey, hothers,
      hlt, h.rows_room, Or.inr ⟨hend, rfl⟩⟩
    exact (if_neg hend).trans hkeyed

/-- They reach it once a rowset was fetched, if they do. -/
theorem Whole.atEnd_iff (h : Whole r) :
    r.AtEnd ↔ r.has_valid_base = true ∧ r.cacheIdx r.num_cached_keys = r.num_cached_rows := by
  have hrows := h.rows
  rw [QResult.AtEnd, QResult.gIdx, cacheIdx_eq]
  rw [QResult.rowStart] at hrows ⊢
  by_cases hvalid : r.has_valid_base = true
  · rw [if_pos hvalid]
    constructor
    · intro heq
      exact ⟨hvalid, by omega⟩
    · rintro ⟨-, heq⟩
      omega
  · rw [if_neg hvalid] at hrows
    obtain ⟨hbase, hstart⟩ := h.unfetched (Bool.not_eq_true _ ▸ hvalid)
    refine iff_of_false ?_ fun hend => hvalid hend.1
    rw [hbase, hstart]
    omega

/-- A result with one more row is whole. -/
theorem Whole.add (h : Whole r) (hcount : r.ad_count + 1 < 2 ^ 32) {log : UndoLog}
    {keyset : List KeySet} {backend_tuples : List Tuple} {n : ℕ}
    (hkeys : r.num_cached_keys < keyset.length) (hn : n ≤ backend_tuples.length)
    (hrows : r.AtEnd ∧ n = r.num_cached_rows + 1 ∨ n = r.num_cached_rows) :
    Whole { r with
      ad_count := r.ad_count + 1, log := log, keyset := keyset
      num_cached_keys := r.num_cached_keys + 1
      backend_tuples := backend_tuples, num_cached_rows := n } := by
  refine ⟨h.cursor, h.reached_eof, h.key_base, ?_, hkeys, hn, h.row_start, ?_, h.window,
    h.unfetched, hcount⟩
  · show r.num_cached_keys + 1 = r.num_total_read + (r.ad_count + 1)
    rw [h.keys, Nat.add_assoc]
  · intro hpos
    show r.rowStart + n ≤ ((r.num_cached_keys + 1 : ℕ) : ℤ)
    rcases hrows with ⟨hend, rfl⟩ | rfl
    · have hcache := (h.atEnd_iff.mp hend).2
      rw [cacheIdx_eq] at hcache
      omega
    · have hrows := h.rows hpos
      omega

/-- The same, of the session. -/
theorem Session.Good.add {s : Session} (h : s.Good) (hroom : s.Room)
    (hcount : s.res.ad_count + 1 < 2 ^ 32) (row : NewRow) :
    ∃ r', addRow s.in_trans s.res row = .ok r' ∧ Session.Good ⟨s.in_trans, r'⟩ ∧
      r'.num_cached_keys = s.res.num_cached_keys + 1 ∧
      r'.keyset[s.res.num_cached_keys]? = some (keyOf row.tid 0) ∧
      (∀ i < s.res.num_cached_keys, r'.keyset[i]? = s.res.keyset[i]?) ∧
      (s.res.AtEnd → r'.num_cached_rows = s.res.num_cached_rows + 1 ∧
        r'.backend_tuples[s.res.num_cached_rows]? = some row.tuple) := by
  obtain ⟨log, keyset, tuples, n, heq, hinv, hentries, hkey, hothers, hlt, hn, hend⟩ :=
    addRow_spec h.whole h.log hroom hcount row
  have hwhole : Whole { s.res with
      ad_count := s.res.ad_count + 1, log := log, keyset := keyset
      num_cached_keys := s.res.num_cached_keys + 1
      backend_tuples := tuples, num_cached_rows := n } :=
    h.whole.add hcount hlt hn (hend.imp (fun hend => ⟨hend.1, hend.2.1⟩) And.right)
  refine ⟨_, heq, ⟨hwhole, hinv, ?_, fun hout => ?_⟩, rfl, hkey, hothers, fun hatEnd => ?_⟩
  · show Pending log.entries.reverse (s.res.num_cached_keys + 1) (s.res.ad_count + 1)
    rw [hentries]
    cases htrans : s.in_trans with
    | true =>
      rw [if_pos rfl, List.reverse_append, List.reverse_singleton, List.singleton_append, Pending,
        if_pos rfl]
      refine ⟨Nat.succ_pos _, Nat.succ_pos _, ?_, h.pending⟩
      push_cast
      omega
    | false =>
      rw [h.settled htrans]
      trivial
  · show log.entries = []
    have hout' : s.in_trans = false := hout
    rw [hentries, hout', h.settled hout']
    rfl
  · rcases hend with ⟨-, hn, hrow⟩ | ⟨hnot, -⟩
    · exact ⟨hn, hrow⟩
    · exact absurd hatEnd hnot

/-- The new row is marked, and no other one. -/
theorem markAdded_stored {s : Session} {r' : QResult} {row : NewRow} (h : Whole s.res)
    (h' : Whole r') (hcount : r'.num_cached_keys = s.res.num_cached_keys + 1)
    (hkey : r'.keyset[s.res.num_cached_keys]? = some (keyOf row.tid 0))
    (hothers : ∀ i < s.res.num_cached_keys, r'.keyset[i]? = s.res.keyset[i]?)
    (hrow : s.res.cacheIdx s.res.num_cached_keys = s.res.num_cached_rows →
      r'.num_cached_rows = s.res.num_cached_rows + 1 ∧
        r'.backend_tuples[s.res.num_cached_rows]? = some row.tuple) :
    Stored s.in_trans row s.res (markAdded s.in_trans .success r').1 := by
  have hindex : (r'.num_total_tuples : ℤ) - 1 = s.res.num_cached_keys := by
    rw [h'.total, hcount]
    push_cast
    omega
  have hhas : r'.HasKey s.res.num_cached_keys := h'.hasKey_iff.mpr ⟨by omega, by omega⟩
  have hmark : (markAdded s.in_trans .success r').1 = { r' with
      keyset := r'.keyset.modify s.res.num_cached_keys fun k =>
        { k with status := addedStatus s.in_trans } } := by
    rw [markAdded, if_pos rfl, hindex, QResult.modifyKey, if_pos hhas, h'.kresIdx]
    rfl
  rw [hmark]
  refine ⟨?_, ?_, fun i hi => ?_, fun hend => ?_⟩
  · rw [h.total]
    exact hcount
  · rw [h.total]
    show (r'.keyset.modify _ _)[_]? = _
    rw [List.getElem?_modify_eq, hkey]
    rfl
  · rw [h.total] at hi
    show (r'.keyset.modify _ _)[_]? = _
    rw [List.getElem?_modify_ne _ _ (by omega)]
    exact hothers i hi
  · rw [h.total] at hend
    exact hrow hend

/-! ### What an addition returns -/

/-- A row that is found is added, and what the insert returned is returned. -/
theorem irow_insert_found (in_trans : Bool) (r : QResult) {ins : Insertion} {row : NewRow}
    (h : ins.found = some row) :
    ins.retcode ≠ .error ∧ ins.addcnt = some 1 ∧
      irow_insert in_trans r ins = (fun r' => (ins.retcode, r')) <$> addRow in_trans r row := by
  rw [Insertion.found] at h
  by_cases hnot : ins.retcode = .error ∨ ins.addcnt ≠ some 1
  · rw [if_pos hnot] at h
    cases h
  rw [if_neg hnot] at h
  rw [not_or, not_not] at hnot
  obtain ⟨herror, hone⟩ := hnot
  refine ⟨herror, hone, ?_⟩
  rw [irow_insert, if_neg herror, if_pos hone]
  rcases hfirst : ins.first with _ | (_ | ⟨row₁, _ | ⟨row₂, found⟩⟩)
  · simp [hfirst] at h
  · rcases hsecond : ins.second with _ | (_ | ⟨row₁, _ | ⟨row₂, found⟩⟩)
    · simp [hfirst, hsecond] at h
    · simp [hfirst, hsecond] at h
    · simp only [hfirst, hsecond, Option.some.injEq] at h
      rw [h]
      show (((fun r => (Loaded.success, r)) <$> addRow in_trans r row) >>= _) = _
      cases addRow in_trans r row <;> rfl
    · simp [hfirst, hsecond] at h
  · simp only [hfirst, Option.some.injEq] at h
    rw [h]
    show (((fun r => (Loaded.success, r)) <$> addRow in_trans r row) >>= _) = _
    cases addRow in_trans r row <;> rfl
  · simp [hfirst] at h

/-- When the insert does what it is to and no row is found, nothing is added, and the addition does
not succeed. -/
theorem irow_insert_not_found (in_trans : Bool) (r : QResult) {ins : Insertion}
    (h : ins.found = none)
    (hone : ins.retcode = .success → ins.addcnt = some 1)
    (hlooked : ins.retcode = .success → ins.first = .rows [] → ins.second ≠ .rows []) :
    ∃ ret, ret ≠ .success ∧ irow_insert in_trans r ins = .ok (ret, r) := by
  have herr : Result.RetCode.error ≠ .success := by decide
  rw [irow_insert]
  by_cases herror : ins.retcode = .error
  · exact ⟨.error, herr, if_pos herror⟩
  rw [if_neg herror]
  by_cases htag : ins.addcnt = some 1
  · rw [if_pos htag]
    rw [Insertion.found, if_neg (not_or.mpr ⟨herror, not_not.mpr htag⟩)] at h
    rcases hfirst : ins.first with _ | (_ | ⟨row₁, _ | ⟨row₂, found⟩⟩)
    · exact ⟨.error, herr, rfl⟩
    · rcases hsecond : ins.second with _ | (_ | ⟨row₁, _ | ⟨row₂, found⟩⟩)
      · exact ⟨.error, herr, rfl⟩
      · exact ⟨ins.retcode, fun hsuccess => hlooked hsuccess hfirst hsecond, rfl⟩
      · simp [hfirst, hsecond] at h
      · exact ⟨.error, herr, rfl⟩
    · simp [hfirst] at h
    · exact ⟨.error, herr, rfl⟩
  · exact ⟨ins.retcode, fun hsuccess => htag (hone hsuccess), if_neg htag⟩

/-- **One addition.** An addition that does what it is to is right. -/
theorem Session.Good.addRight {s : Session} (h : s.Good) {ins : Option Insertion}
    (hfine : (Call.add ins).Fine s) :
    AddRight s.in_trans s.res ins ∧
      ∃ s', (Call.add ins).run s = .ok s' ∧ s'.Good := by
  cases ins with
  | none =>
    have hnot : RowStatus.code .successWithInfo ≠ .added := by decide
    exact ⟨⟨s.res, .code .successWithInfo, rfl, fun hadded => absurd hadded hnot, hnot, rfl,
      fun _ _ => rfl⟩, s, rfl, h⟩
  | some ins =>
    have hfine : ins.Fine s := hfine
    cases hfound : ins.found with
    | none =>
      obtain ⟨ret, hret, heq⟩ :=
        irow_insert_not_found s.in_trans s.res hfound hfine.one hfine.looked
      have hadd : SC_pos_add s.in_trans s.res (some ins) = .ok (s.res, .code ret) := by
        rw [SC_pos_add, heq, ok_bind]
        exact congrArg Except.ok (if_neg hret)
      refine ⟨⟨s.res, .code ret, hadd, fun hadded => ?_, ?_⟩, s, ?_, h⟩
      · cases hadded
      · rw [Option.bind_some, hfound]
        refine ⟨?_, rfl, fun _ _ => rfl⟩
        intro hadded
        cases hadded
      · rw [Call.run, hadd]
        rfl
    | some row =>
      have hsome : ins.found.isSome = true := by rw [hfound]; rfl
      obtain ⟨hroom, hcount⟩ := hfine.room hsome
      obtain ⟨r', hadd, hgood, hkeys, hkey, hothers, hrow⟩ := h.add hroom hcount row
      obtain ⟨-, htag, hinsert⟩ := irow_insert_found s.in_trans s.res hfound
      have hretcode := hfine.found hsome
      have hpos : SC_pos_add s.in_trans s.res (some ins) =
          .ok (markAdded s.in_trans .success r') := by
        rw [SC_pos_add, hinsert, hadd, hretcode]
        rfl
      refine ⟨⟨(markAdded s.in_trans .success r').1, .added, hpos, fun _ => ?_, ?_⟩,
        ⟨s.in_trans, (markAdded s.in_trans .success r').1⟩, ?_, ?_⟩
      · rw [Option.bind_some, htag]
      · rw [Option.bind_some, hfound]
        refine markAdded_stored h.whole hgood.whole hkeys hkey hothers fun hend => hrow ?_
        rw [h.whole.atEnd_iff]
        rcases hfine.fetched hsome with hvalid | hnot
        · exact ⟨hvalid, hend⟩
        · rw [h.whole.total] at hnot
          exact absurd hend hnot
      · rw [Call.run, hpos]
        rfl
      · exact hgood.modifyKey _ _

/-! ### Undoing -/

theorem Whole.hasKey_of_hasRow (h : Whole r) {gidx : ℤ} (hrow : r.HasRow gidx) : r.HasKey gidx := by
  obtain ⟨hnonneg, hlt⟩ := hrow
  rw [cacheIdx_eq] at hnonneg hlt
  have hrows := h.rows (by omega)
  have hstart := h.row_start
  exact h.hasKey_iff.mpr ⟨by omega, by omega⟩

theorem Whole.row_lt (h : Whole r) {gidx : ℤ} (hrow : r.HasRow gidx) :
    (r.cacheIdx gidx).toNat < r.backend_tuples.length := by
  obtain ⟨hnonneg, hlt⟩ := hrow
  have hroom := h.rows_room
  omega

/-- What undoing an entry leaves of the rest. -/
structure UndoneBy (n : ℕ) (r r' : QResult) : Prop where
  keys : r'.num_cached_keys + n = r.num_cached_keys
  ads : r'.ad_count + n = r.ad_count
  read : r'.num_total_read = r.num_total_read
  log : r'.log = r.log

theorem UndoneBy.refl (r : QResult) : UndoneBy 0 r r := ⟨rfl, rfl, rfl, rfl⟩

theorem UndoneBy.trans {m n : ℕ} {r r' r'' : QResult} (h : UndoneBy m r r')
    (h' : UndoneBy n r' r'') : UndoneBy (m + n) r r'' := by
  refine ⟨?_, ?_, h'.read.trans h.read, h'.log.trans h.log⟩
  · rw [← h.keys, ← h'.keys]
    omega
  · rw [← h.ads, ← h'.ads]
    omega

/-- The cached row of the last row is taken back with its key. -/
theorem Whole.dropLast (h : Whole r) (hkeys : 0 < r.num_cached_keys) (hads : 0 < r.ad_count) :
    ∃ r', dropRow r ((r.num_cached_keys : ℤ) - 1) = .ok r' ∧
      Whole { r' with
        num_cached_keys := r'.num_cached_keys - 1
        ad_count := if r'.cursor then r'.ad_count else (r'.ad_count + 2 ^ 32 - 1) % 2 ^ 32 } ∧
      UndoneBy 1 r { r' with
        num_cached_keys := r'.num_cached_keys - 1
        ad_count := if r'.cursor then r'.ad_count else (r'.ad_count + 2 ^ 32 - 1) % 2 ^ 32 } := by
  have hcursor : ¬ r.cursor = true := by rw [h.cursor]; exact Bool.false_ne_true
  have hcount : (r.ad_count + 2 ^ 32 - 1) % 2 ^ 32 = r.ad_count - 1 := by
    have hlt := h.bounded
    omega
  have hsum := h.keys
  have hroom := h.keys_room
  have hbounded := h.bounded
  rw [dropRow]
  by_cases hrow : r.HasRow ((r.num_cached_keys : ℤ) - 1)
  · rw [if_pos hrow, put_of_lt (h.row_lt hrow), ok_bind]
    refine ⟨_, rfl, ?_, ?_⟩
    · rw [if_neg hcursor]
      show Whole { r with
        backend_tuples := _, num_cached_rows := _, num_cached_keys := r.num_cached_keys - 1
        ad_count := (r.ad_count + 2 ^ 32 - 1) % 2 ^ 32 }
      rw [hcount]
      have hlast := hrow.2
      rw [cacheIdx_eq] at hlast
      refine ⟨h.cursor, h.reached_eof, h.key_base, ?_, ?_, ?_, h.row_start, fun hpos => ?_,
        h.window, h.unfetched, ?_⟩
      · show r.num_cached_keys - 1 = r.num_total_read + (r.ad_count - 1)
        omega
      · show r.num_cached_keys - 1 ≤ r.keyset.length
        omega
      · show r.num_cached_rows - 1 ≤ (r.backend_tuples.set _ _).length
        rw [List.length_set]
        exact le_trans (Nat.sub_le _ _) h.rows_room
      · show r.rowStart + (r.num_cached_rows - 1 : ℕ) ≤ ((r.num_cached_keys - 1 : ℕ) : ℤ)
        have hpos' : 0 < r.num_cached_rows - 1 := hpos
        have hrows := h.rows (by omega)
        omega
      · show r.ad_count - 1 < 2 ^ 32
        omega
    · rw [if_neg hcursor]
      refine ⟨?_, ?_, rfl, rfl⟩
      · show r.num_cached_keys - 1 + 1 = r.num_cached_keys
        omega
      · show (r.ad_count + 2 ^ 32 - 1) % 2 ^ 32 + 1 = r.ad_count
        omega
  · rw [if_neg hrow]
    refine ⟨_, rfl, ?_, ?_⟩
    · rw [if_neg hcursor, hcount]
      refine ⟨h.cursor, h.reached_eof, h.key_base, ?_, ?_, h.rows_room, h.row_start, fun hpos => ?_,
        h.window, h.unfetched, ?_⟩
      · show r.num_cached_keys - 1 = r.num_total_read + (r.ad_count - 1)
        omega
      · show r.num_cached_keys - 1 ≤ r.keyset.length
        omega
      · show r.rowStart + r.num_cached_rows ≤ ((r.num_cached_keys - 1 : ℕ) : ℤ)
        have hrows := h.rows hpos
        have hout : ¬ (0 ≤ (r.num_cached_keys : ℤ) - 1 - r.rowStart ∧
          (r.num_cached_keys : ℤ) - 1 - r.rowStart < r.num_cached_rows) := hrow
        have hpos' : 0 < r.num_cached_rows := hpos
        omega
      · show r.ad_count - 1 < 2 ^ 32
        omega
    · rw [if_neg hcursor, hcount]
      refine ⟨?_, ?_, rfl, rfl⟩
      · show r.num_cached_keys - 1 + 1 = r.num_cached_keys
        omega
      · show r.ad_count - 1 + 1 = r.ad_count
        omega

theorem UndoneBy.modifyKey (r : QResult) (gidx : ℤ) (f : KeySet → KeySet) :
    UndoneBy 0 r (r.modifyKey gidx f) := by
  obtain ⟨keyset, -, heq⟩ := modifyKey_eq r gidx f
  rw [heq]
  exact ⟨rfl, rfl, rfl, rfl⟩

theorem restoreKey_undone (r : QResult) (e : Rollback) (reread : Bool) :
    UndoneBy 0 r (restoreKey r e reread) := UndoneBy.modifyKey r _ _

/-- The key of a row is as before its change. -/
theorem Whole.restoreRow (h : Whole r) (server : UndoServer) (e : Rollback) :
    ∃ r', RowAdd.restoreRow server r e = .ok r' ∧ Whole r' ∧ UndoneBy 0 r r' := by
  rw [RowAdd.restoreRow]
  by_cases hrow : r.HasRow e.index
  · rw [if_pos hrow]
    cases server.positioned_load e.tid with
    | none => exact ⟨_, rfl, h.modifyKey _ _, restoreKey_undone r e false⟩
    | some tuple =>
      show ∃ r', (put Fault.outOfBounds r.backend_tuples _ tuple >>= _) = _ ∧ _
      rw [put_of_lt (h.row_lt hrow), ok_bind]
      have hundone := restoreKey_undone
        { r with backend_tuples := r.backend_tuples.set (r.cacheIdx e.index).toNat tuple } e true
      exact ⟨_, rfl, (h.setMemory rfl (List.length_set ..)).modifyKey _ _,
        hundone.keys, hundone.ads, hundone.read, hundone.log⟩
  · rw [if_neg hrow]
    exact ⟨_, rfl, h.modifyKey _ _, restoreKey_undone r e false⟩

/-- An addition that is undone. -/
def isAdd (e : Rollback) : Bool := e.option = .add

/-- **One undone entry.** -/
theorem undoEntry_spec (h : Whole r) {e : Rollback} {es : List Rollback}
    (hpending : Pending (e :: es) r.num_cached_keys r.ad_count) (server : UndoServer) :
    ∃ r', undoEntry server r e = .ok r' ∧ Whole r' ∧ Pending es r'.num_cached_keys r'.ad_count ∧
      UndoneBy (if isAdd e then 1 else 0) r r' := by
  have hlisted : undoListed r e = .ok r := if_pos (by rw [h.cursor]; rfl)
  rw [undoEntry, hlisted, ok_bind, undoCached]
  rw [Pending] at hpending
  by_cases hadd : e.option = .add
  · have his : isAdd e = true := decide_eq_true hadd
    rw [if_pos hadd] at hpending
    obtain ⟨hkeys, hads, hindex, hrest⟩ := hpending
    have hhas : 0 ≤ e.index ∧ r.HasKey e.index := by
      rw [h.hasKey_iff, hindex]
      omega
    obtain ⟨r', hdrop, hwhole, hundone⟩ := h.dropLast hkeys hads
    rw [if_neg (not_not.mpr hhas), if_pos hadd, hindex, hdrop, ok_bind, if_pos his]
    refine ⟨_, rfl, hwhole, ?_, hundone⟩
    rw [← Nat.eq_sub_of_add_eq hundone.keys, ← Nat.eq_sub_of_add_eq hundone.ads] at hrest
    exact hrest
  · have his : isAdd e = false := decide_eq_false hadd
    rw [if_neg hadd] at hpending
    rw [his]
    by_cases hhas : 0 ≤ e.index ∧ r.HasKey e.index
    · obtain ⟨r', heq, hwhole, hundone⟩ := h.restoreRow server e
      rw [if_neg (not_not.mpr hhas), if_neg hadd, heq]
      refine ⟨r', rfl, hwhole, ?_, hundone⟩
      rw [hundone.keys.symm, hundone.ads.symm] at hpending
      exact hpending
    · rw [if_pos hhas]
      exact ⟨r, rfl, h, hpending, UndoneBy.refl r⟩

/-- **Entries undone from the newest on.** -/
theorem undoEntries_spec (server : UndoServer) {rest : List Rollback} : ∀ (es : List Rollback)
    {r : QResult}, Whole r → Pending (es ++ rest) r.num_cached_keys r.ad_count →
    ∃ r', es.foldlM (undoEntry server) r = .ok r' ∧ Whole r' ∧
      Pending rest r'.num_cached_keys r'.ad_count ∧ UndoneBy (es.countP isAdd) r r' := by
  intro es
  induction es with
  | nil => exact fun {r} h hpending => ⟨r, rfl, h, hpending, UndoneBy.refl r⟩
  | cons e es ih =>
    intro r h hpending
    obtain ⟨r₁, heq₁, hwhole₁, hpending₁, hundone₁⟩ := undoEntry_spec h hpending server
    obtain ⟨r', heq, hwhole, hrest, hundone⟩ := ih hwhole₁ hpending₁
    refine ⟨r', ?_, hwhole, hrest, ?_⟩
    · rw [List.foldlM_cons, heq₁, ok_bind, heq]
    · rw [List.countP_cons, Nat.add_comm]
      exact hundone₁.trans hundone

/-! ### A rollback -/

theorem doubtLoop_le (tupleExists : Tid → Bool) : ∀ (es : List Rollback) (i doubtp : ℕ),
    (doubtLoop tupleExists es i doubtp).2 ≤ i + es.length := by
  intro es
  induction es with
  | nil => exact fun i _ => le_refl i
  | cons e es ih =>
    intro i doubtp
    rw [doubtLoop, List.length_cons]
    split
    · have h := ih (i + 1) (if tupleExists e.tid then i + 1 else doubtp)
      omega
    · split
      · exact Nat.le_add_right i _
      · have h := ih (i + 1) (if doubtp = i then i + 1 else doubtp)
        omega

theorem lostLoop_le (num_total_read : ℕ) (entries : List Rollback) (doubtp : ℕ) :
    ∀ fuel rollbp : ℕ, lostLoop num_total_read entries doubtp fuel rollbp ≤ rollbp := by
  intro fuel
  induction fuel with
  | zero => exact fun rollbp => le_refl rollbp
  | succ fuel ih =>
    intro rollbp
    rw [lostLoop]
    split
    · rename_i i hi
      have hmem := List.mem_range'_1.mp (List.mem_of_find?_eq_some hi)
      exact le_trans (ih i) (by omega)
    · exact le_refl rollbp

/-- An entry of the log, or its end. -/
theorem rollbackPoint_le (tupleExists : Tid → Bool) (num_total_read : ℕ)
    (entries : List Rollback) :
    rollbackPoint tupleExists num_total_read entries ≤ entries.length := by
  have h := doubtLoop_le tupleExists entries 0 0
  rw [Nat.zero_add] at h
  exact le_trans (lostLoop_le ..) h

/-- The entry from which a rollback undoes the log. -/
def RollbackCall.point (call : RollbackCall) (r : QResult) : ℕ :=
  if call.partially then
    rollbackPoint call.server.tupleExists r.num_total_read r.log.entries
  else 0

theorem RollbackCall.point_le (call : RollbackCall) (r : QResult) :
    call.point r ≤ r.log.entries.length := by
  rw [RollbackCall.point]
  split
  · exact rollbackPoint_le ..
  · exact Nat.zero_le _

theorem cutLog_spec {log : UndoLog} (h : log.Inv) {p : ℕ} (hp : p ≤ log.entries.length)
    (hsome : log.rollback ≠ none) :
    (cutLog log p).Inv ∧ (cutLog log p).entries = log.entries.take p := by
  rw [cutLog]
  split
  · rename_i hzero
    rw [hzero]
    exact ⟨UndoLog.cleared_inv, rfl⟩
  · refine ⟨⟨?_, ?_, h.alloc, ?_⟩, rfl⟩
    · exact (List.length_take_of_le hp).symm
    · exact le_trans hp (by rw [← h.count]; exact h.room)
    · exact iff_of_false (Option.some_ne_none _) fun hnull => hsome (h.null.mpr hnull)

/-- **A rollback.** The changes from an entry on are undone, and the rows that were added by them
are taken back. -/
theorem RollbackCall.run_spec (h : Whole r) (hlog : r.log.Inv)
    (hpending : Pending r.log.entries.reverse r.num_cached_keys r.ad_count) (call : RollbackCall) :
    ∃ r', call.run r = .ok r' ∧ Whole r' ∧ r'.log.Inv ∧
      r'.log.entries = r.log.entries.take (call.point r) ∧
      Pending r'.log.entries.reverse r'.num_cached_keys r'.ad_count ∧
      r'.num_total_read = r.num_total_read ∧
      r'.num_cached_keys + (r.log.entries.drop (call.point r)).countP isAdd = r.num_cached_keys ∧
      r'.ad_count + (r.log.entries.drop (call.point r)).countP isAdd = r.ad_count := by
  have hopen : (if call.partially then r else clearCursors r) = r := by
    rw [clearCursors, h.cursor]
    exact ite_self r
  rw [RollbackCall.run, hopen, UndoRollback]
  by_cases hempty : r.log.rb_count = 0 ∨ r.log.rollback.isNone = true
  · have hentries : r.log.entries = [] := by
      rcases hempty with hzero | hnone
      · exact List.eq_nil_of_length_eq_zero (by rw [← hlog.count, hzero])
      · rw [UndoLog.entries, Option.isNone_iff_eq_none.mp hnone]
        rfl
    rw [if_pos hempty]
    refine ⟨r, rfl, h, hlog, ?_, hpending, rfl, ?_, ?_⟩
    all_goals rw [hentries]; simp
  · rw [if_neg hempty]
    rw [not_or] at hempty
    have hsome : r.log.rollback ≠ none := fun hnone => hempty.2 (by rw [hnone]; rfl)
    have hsplit : r.log.entries.reverse = (r.log.entries.drop (call.point r)).reverse ++
        (r.log.entries.take (call.point r)).reverse := by
      rw [← List.reverse_append, List.take_append_drop]
    rw [hsplit] at hpending
    obtain ⟨r', heq, hwhole, hrest, hundone⟩ := undoEntries_spec call.server _ h hpending
    obtain ⟨hinv, hentries⟩ := cutLog_spec hlog (call.point_le r) hsome
    have hcount := (List.reverse_perm (r.log.entries.drop (call.point r))).countP_eq isAdd
    refine ⟨{ r' with log := cutLog r.log (call.point r) }, ?_, hwhole.setLog _, hinv, hentries,
      ?_, hundone.read, ?_, ?_⟩
    · show ((r.log.entries.drop (call.point r)).reverse.foldlM (undoEntry call.server) r >>= _) = _
      rw [heq]
      rfl
    · show Pending (cutLog r.log (call.point r)).entries.reverse _ _
      rw [hentries]
      exact hrest
    · rw [← hcount]
      exact hundone.keys
    · rw [← hcount]
      exact hundone.ads

/-! ### Loading rows again -/

/-- The cached rows stay where they are when the rowset moves. -/
theorem rowStart_SC_set_rowset_start {start : ℤ} (hstart : -1 ≤ start) :
    (SC_set_rowset_start r start).rowStart = r.rowStart := by
  show start - (if r.has_valid_base then r.base + (start - r.rowset_start)
    else if start < 0 then -1 else start) = r.rowStart
  rw [QResult.rowStart]
  split
  · omega
  · split <;> omega

theorem Whole.setStart (h : Whole r) {start : ℤ} (hstart : -1 ≤ start) :
    Whole (SC_set_rowset_start r start) := by
  have hsame := rowStart_SC_set_rowset_start (r := r) hstart
  refine ⟨h.cursor, h.reached_eof, fun _ => rfl, h.keys, h.keys_room, h.rows_room, ?_, ?_, ?_,
    fun hnot => Bool.noConfusion (show true = false from hnot), h.bounded⟩
  · rw [hsame]
    exact h.row_start
  · rw [hsame]
    exact h.rows
  · rw [hsame]
    exact h.window

/-- A window that starts at a row is cached whole. -/
theorem Whole.loadWindow (h : Whole r) (hdriven : r.keyset_driven = true)
    (hvalid : r.has_valid_base = true) (hstart : 0 ≤ r.rowset_start) (w : Window) :
    Whole (RowAdd.loadWindow r w) := by
  have hrowStart : (RowAdd.loadWindow r w).rowStart = r.rowset_start := by
    show (if r.has_valid_base then r.rowset_start - 0 else 0) = _
    rw [if_pos hvalid, sub_zero]
  refine ⟨h.cursor, h.reached_eof, h.key_base, h.keys, ?_, ?_, ?_, ?_, ?_, ?_, h.bounded⟩
  · show r.num_cached_keys ≤ (r.keyset.mapIdx _).length
    rw [List.length_mapIdx]
    exact h.keys_room
  · show _ ≤ (List.map w.tuple (List.range _) ++ List.drop _ _).length
    rw [List.length_append, List.length_map, List.length_range]
    exact Nat.le_add_right _ _
  · rw [hrowStart]
    exact hstart
  · rw [hrowStart]
    intro hpos
    show r.rowset_start + ((min (r.rowset_start + w.rows) r.num_cached_keys -
      r.rowset_start).toNat : ℤ) ≤ r.num_cached_keys
    have hpos' : 0 < (min (r.rowset_start + w.rows) (r.num_cached_keys : ℤ) -
      r.rowset_start).toNat := hpos
    omega
  · intro hnot
    have hnot' : r.keyset_driven = false := hnot
    rw [hdriven] at hnot'
    exact absurd hnot' (by decide)
  · intro hnot
    have hnot' : r.has_valid_base = false := hnot
    rw [hvalid] at hnot'
    exact absurd hnot' (by decide)

theorem Whole.moveTo (h : Whole r) (start : ℤ) (window : Option Window) :
    Whole (RowAdd.moveTo r start window) := by
  rw [RowAdd.moveTo.eq_def]
  by_cases hneg : start < 0
  · rw [if_pos hneg]
    exact h.setStart (le_refl _)
  rw [if_neg hneg]
  by_cases hbehind : (r.num_total_tuples : ℤ) ≤ start
  · rw [if_pos hbehind]
    exact h.setStart (by omega)
  rw [if_neg hbehind]
  have hset : Whole (SC_set_rowset_start r start) := h.setStart (by omega)
  by_cases hdriven : r.keyset_driven = true
  · rw [if_pos hdriven]
    cases window with
    | none => exact hset
    | some w => exact hset.loadWindow hdriven rfl (not_lt.mp hneg) w
  · rw [if_neg hdriven]
    have hzero : r.rowStart = 0 := h.window (Bool.not_eq_true _ ▸ hdriven)
    have hrowStart : QResult.rowStart { SC_set_rowset_start r start with base := start } = 0 :=
      sub_self start
    refine ⟨h.cursor, h.reached_eof, fun _ => rfl, h.keys, h.keys_room, h.rows_room,
      le_of_eq hrowStart.symm, ?_, fun _ => hrowStart,
      fun hnot => Bool.noConfusion (show true = false from hnot), h.bounded⟩
    rw [hrowStart, ← hzero]
    exact h.rows

/-- What stays when rows are fetched. -/
theorem moveTo_same (r : QResult) (start : ℤ) (window : Option Window) :
    (moveTo r start window).log = r.log ∧
      (moveTo r start window).num_cached_keys = r.num_cached_keys ∧
      (moveTo r start window).ad_count = r.ad_count := by
  rw [moveTo.eq_def]
  split
  · exact ⟨rfl, rfl, rfl⟩
  split
  · exact ⟨rfl, rfl, rfl⟩
  split
  · cases window with
    | none => exact ⟨rfl, rfl, rfl⟩
    | some w => exact ⟨rfl, rfl, rfl⟩
  · exact ⟨rfl, rfl, rfl⟩

/-- A row that is found again takes the place of the cached one. -/
theorem Session.Good.replaceRow {s : Session} (h : s.Good) (index : ℤ) (row : NewRow) :
    ∃ r', RowAdd.replaceRow s.res index row = .ok r' ∧ Session.Good ⟨s.in_trans, r'⟩ := by
  rw [RowAdd.replaceRow]
  by_cases hrow : s.res.HasRow index
  · rw [if_neg (not_not.mpr hrow), if_neg (not_not.mpr (h.whole.hasKey_of_hasRow hrow)),
      put_of_lt (h.whole.row_lt hrow), ok_bind]
    have hput : Session.Good ⟨s.in_trans, { s.res with
        backend_tuples := s.res.backend_tuples.set (s.res.cacheIdx index).toNat row.tuple }⟩ :=
      ⟨h.whole.setMemory rfl (List.length_set ..), h.log, h.pending, h.settled⟩
    exact ⟨_, rfl, hput.modifyKey _ _⟩
  · rw [if_pos hrow]
    exact ⟨s.res, rfl, h⟩

/-- A change that adds no row is noted. -/
theorem Session.Good.note {s : Session} (h : s.Good) (hroom : s.Room) (index : ℤ) (tid : Tid)
    {code : DmlCode} (hcode : code ≠ .add) :
    ∃ r', s.res.note s.in_trans index tid code = .ok r' ∧ Session.Good ⟨s.in_trans, r'⟩ := by
  obtain ⟨log, heq, hinv, hentries⟩ := note_spec h.log hroom index tid code
  refine ⟨_, heq, h.whole.setLog log, hinv, ?_, fun hout => ?_⟩
  · show Pending log.entries.reverse s.res.num_cached_keys s.res.ad_count
    rw [hentries]
    cases s.in_trans with
    | true =>
      rw [if_pos rfl, List.reverse_append, List.reverse_singleton, List.singleton_append, Pending,
        if_neg hcode]
      exact h.pending
    | false =>
      rw [if_neg Bool.false_ne_true, List.append_nil]
      exact h.pending
  · have hout' : s.in_trans = false := hout
    show log.entries = []
    rw [hentries, hout', h.settled hout']
    rfl

theorem Session.Good.reload {s : Session} (h : s.Good) (hroom : s.Room) (index : ℤ)
    (logKind : LogKind) (keyset : Option KeySet) (load : Load) :
    ∃ r', SC_pos_reload_with_key s.in_trans s.res index logKind keyset load = .ok r' ∧
      Session.Good ⟨s.in_trans, r'⟩ := by
  have hcode : logKind.code ≠ .add := by cases logKind <;> decide
  have hmissing (found : List NewRow) (hfound : ∀ row, found ≠ [row])
      (hidx : ¬ (¬ s.res.HasKey index ∧ (keyset.map (·.offset)).getD 0 = 0)) :
      ∃ r', SC_pos_reload_with_key s.in_trans s.res index logKind keyset (.rows found) = .ok r' ∧
        Session.Good ⟨s.in_trans, r'⟩ := by
    obtain ⟨r₁, hnote, hgood⟩ := h.note hroom index (notedTid s.res index keyset) hcode
    refine ⟨if r₁.keyset_driven then
      r₁.modifyKey index fun k => { k with status := k.status ||| sqlRowDeleted } else r₁, ?_, ?_⟩
    · rw [SC_pos_reload_with_key.eq_def, if_neg hidx]
      rcases found with _ | ⟨row, _ | ⟨row', found⟩⟩
      · show (s.res.note _ _ _ _ >>= _) = _
        rw [hnote]
        rfl
      · exact absurd rfl (hfound row)
      · show (s.res.note _ _ _ _ >>= _) = _
        rw [hnote]
        rfl
    · split
      · exact hgood.modifyKey _ _
      · exact hgood
  by_cases hidx : ¬ s.res.HasKey index ∧ (keyset.map (·.offset)).getD 0 = 0
  · refine ⟨s.res, ?_, h⟩
    rw [SC_pos_reload_with_key.eq_def, if_pos hidx]
  rcases load with _ | _ | ⟨row, _ | ⟨row', found⟩⟩
  · refine ⟨s.res, ?_, h⟩
    rw [SC_pos_reload_with_key.eq_def, if_neg hidx]
  · exact hmissing [] (by simp) hidx
  · rw [SC_pos_reload_with_key.eq_def, if_neg hidx]
    show ∃ r', ((if logKind = .delete then _ else _) >>= _) = _ ∧ _
    by_cases hdelete : logKind = .delete
    · have hcode : DmlCode.delete ≠ .add := by decide
      obtain ⟨r₁, hnote, hgood⟩ := h.note hroom index (notedTid s.res index keyset) hcode
      rw [if_pos hdelete, hnote, ok_bind]
      exact hgood.replaceRow index row
    · rw [if_neg hdelete, ok_bind]
      exact h.replaceRow index row
  · exact hmissing (row :: row' :: found) (by simp) hidx

/-- The keys of the changes in the log are marked as committed, and the log is empty. -/
theorem Session.Good.commit {s : Session} (h : s.Good) :
    Session.Good ⟨false, DiscardRollback s.res⟩ := by
  rw [DiscardRollback]
  split
  · rename_i hempty
    have hentries : s.res.log.entries = [] := by
      rcases hempty with hzero | hnone
      · exact List.eq_nil_of_length_eq_zero (by rw [← h.log.count, hzero])
      · rw [UndoLog.entries, Option.isNone_iff_eq_none.mp hnone]
        rfl
    exact ⟨h.whole, h.log, h.pending, fun _ => hentries⟩
  · have hmarked : ∀ (es : List Rollback) {r : QResult}, Whole r → Whole (es.foldl
        (fun r e => if 0 ≤ e.index then r.modifyKey e.index KeySet.discard else r) r) := by
      intro es
      induction es with
      | nil => exact fun hr => hr
      | cons e es ih =>
        intro r hr
        rw [List.foldl_cons]
        split
        · exact ih (hr.modifyKey _ _)
        · exact ih hr
    exact ⟨(hmarked _ h.whole).setLog _, UndoLog.cleared_inv, trivial, fun _ => rfl⟩

/-! ### Histories -/

/-- **One call.** A call that does what it is to keeps the invariant, and an addition is right. -/
theorem Session.Good.call {s : Session} (h : s.Good) {call : Call} (hfine : call.Fine s) :
    AddsRight (.ok s) call ∧ ∃ s', call.run s = .ok s' ∧ s'.Good := by
  cases call with
  | begin =>
    refine ⟨⟨s, _, rfl, rfl, fun ins hins => by cases hins⟩, _, rfl, ?_⟩
    exact ⟨h.whole, h.log, h.pending, fun hout => by cases hout⟩
  | add ins =>
    obtain ⟨hright, s', hrun, hgood⟩ := h.addRight hfine
    refine ⟨⟨s, s', rfl, hrun, fun ins' hins => ?_⟩, s', hrun, hgood⟩
    cases hins
    exact hright
  | fetch start window =>
    obtain ⟨hlog, hkeys, hads⟩ := moveTo_same s.res start window
    refine ⟨⟨s, _, rfl, rfl, fun ins hins => by cases hins⟩, _, rfl, ?_⟩
    refine ⟨h.whole.moveTo start window, ?_, ?_, fun hout => ?_⟩
    · rw [hlog]
      exact h.log
    · rw [hlog, hkeys, hads]
      exact h.pending
    · rw [hlog]
      exact h.settled hout
  | reload index logKind keyset load =>
    obtain ⟨r', heq, hgood⟩ := h.reload hfine index logKind keyset load
    have hrun : (Call.reload index logKind keyset load).run s = .ok ⟨s.in_trans, r'⟩ := by
      rw [Call.run, heq]
      rfl
    exact ⟨⟨s, _, rfl, hrun, fun ins hins => by cases hins⟩, _, hrun, hgood⟩
  | rollback call =>
    obtain ⟨r', heq, hwhole, hinv, hentries, hpending, -⟩ :=
      RollbackCall.run_spec h.whole h.log h.pending call
    have hrun : (Call.rollback call).run s = .ok ⟨s.in_trans && call.partially, r'⟩ := by
      rw [Call.run, heq]
      rfl
    refine ⟨⟨s, _, rfl, hrun, fun ins hins => by cases hins⟩, _, hrun, hwhole, hinv, hpending, ?_⟩
    intro hout
    show r'.log.entries = []
    rw [hentries]
    rcases Bool.and_eq_false_iff.mp hout with hout | hall
    · rw [h.settled hout]
      exact List.take_nil
    · rw [RollbackCall.point, hall]
      rfl
  | commit => exact ⟨⟨s, _, rfl, rfl, fun ins hins => by cases hins⟩, _, rfl, h.commit⟩

/-- The call does what it is to, in a history that goes on. -/
def FineCall (s : Except Fault Session) (call : Call) : Prop := ∀ s', s = .ok s' → call.Fine s'

/-- A result of one row that was read without a cursor. -/
def oneRow : Session where
  in_trans := false
  res :=
    { cursor := false
      withhold := false
      permanent := false
      keyset_driven := true
      reached_eof := true
      has_valid_base := false
      rowset_start := -1
      base := 0
      key_base := -1
      cache_size := 0
      num_fields := 1
      num_total_read := 1
      keyset := [keyOf ⟨0, 1, 0⟩ 0]
      num_cached_keys := 1
      backend_tuples := [[none]]
      num_cached_rows := 1
      added_keyset := []
      added_tuples := none
      ad_alloc := 0
      ad_count := 0
      log := .cleared
      updated := .cleared true
      deleted := .cleared false }

theorem oneRow_start : oneRow.Start :=
  ⟨rfl, rfl, rfl, rfl, rfl, rfl, rfl, le_refl _, le_refl _, rfl, rfl⟩

/-- An insert of one row, which is found. -/
def goodInsertion : Insertion := ⟨.success, some 1, .rows [⟨[none], ⟨0, 2, 0⟩⟩], .failed⟩

/-- An insert that the server answers with `INSERT 0 0`. -/
def emptyInsertion : Insertion := ⟨.success, some 0, .failed, .failed⟩

end OdbcDriver.RowAdd
