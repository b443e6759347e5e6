import Mathlib.Data.List.DropRight
import OdbcDriver.Result.AddedInPlaceRules

/-!
# Additions that are rolled back

Rows are added in a transaction that is then rolled back, to a savepoint or altogether. Of the
additions those are undone that the rollback took back: all of them, or those behind the last row
that still exists (`RollbackCall.kept`).

Without a cursor that works, since the cached keys and the count go down together. With a cursor the
list of added rows does. But a rollback of the transaction closes most cursors before the changes
are undone, and then a negative number says nothing; and `RemoveAdded` clears the data of the row
also when the cursor is keyset-driven and no data is kept.
-/

namespace OdbcDriver.RowAdd

open Lib (ok_bind bind_eq_ok)
open Result RowLists HeapArray

variable {r : QResult}

/-! ### What a rollback is to do -/

/-- Rows are added in a transaction, one after the other. -/
def addRows (r : QResult) (rows : List NewRow) : Except Fault QResult := rows.foldlM (addRow true) r

/-- The rows that a rollback leaves. -/
def RollbackCall.kept (call : RollbackCall) (rows : List NewRow) : List NewRow :=
  if call.partially then rows.rdropWhile fun row => !call.server.tupleExists row.tid else []

/-- The cursor is still there when the changes are undone. -/
def RollbackCall.KeepsCursor (call : RollbackCall) (r : QResult) : Prop :=
  call.partially = true ∨ r.permanent = true ∧ r.withhold = true

/-- The keys of the added rows, in the list of a result with a cursor. -/
def QResult.addedKeys (r : QResult) : List KeySet := r.added_keyset.take r.ad_count

/-- The data of the added rows, in the same list. -/
def QResult.addedTuples (r : QResult) : List Tuple := (r.added_tuples.getD []).take r.ad_count

/-- The arrays of the list of added rows have room for `n` of them, the data unless the cursor is
keyset-driven. -/
structure Lists (r : QResult) (n : ℕ) : Prop where
  keys : r.added_keyset.length = r.ad_alloc
  room : n ≤ r.ad_alloc
  none : r.keyset_driven = true → r.added_tuples = none
  tuples : r.keyset_driven = false → (r.added_tuples.getD []).length = r.ad_alloc

/-- A result whose changes are all settled. -/
structure Settled (r : QResult) : Prop where
  log : r.log = .cleared
  lists : r.cursor = true → Lists r r.ad_count
  whole : r.cursor = false → Whole r

/-- Of the rows that were added, those that are kept are still there, and no others: in the list of
added rows, its keys and its data alike, and in the numbers of rows. -/
structure UndoneTo (r : QResult) (kept : List NewRow) (r' : QResult) : Prop where
  count : r'.ad_count = r.ad_count + kept.length
  total : r'.num_total_tuples =
    if r.reached_eof then r.num_total_tuples + kept.length else r.num_total_tuples
  keys : r.cursor = true →
    r'.addedKeys = r.addedKeys ++ kept.map fun row => keyOf row.tid (addedStatus true)
  tuples : r.cursor = true → r.keyset_driven = false →
    r'.addedTuples = r.addedTuples ++ kept.map NewRow.tuple
  cached : r.cursor = false → r'.num_cached_keys = r.num_cached_keys + kept.length

/-- The rollback goes through, and undoes the additions that are not kept. -/
def Undone (r : QResult) (rows : List NewRow) (call : RollbackCall) (r₁ : QResult) : Prop :=
  ∃ r₂, call.run r₁ = .ok r₂ ∧ UndoneTo r (call.kept rows) r₂

/-! ### The entry from which the log is undone -/

theorem doubtLoop_concat (tupleExists : Tid → Bool) {e : Rollback} (he : e.option = .add) :
    ∀ {es : List Rollback} (i doubtp : ℕ), (∀ d ∈ es, d.option = .add) →
      doubtLoop tupleExists (es ++ [e]) i doubtp =
        (if tupleExists e.tid then (doubtLoop tupleExists es i doubtp).2 + 1
          else (doubtLoop tupleExists es i doubtp).1,
          (doubtLoop tupleExists es i doubtp).2 + 1) := by
  intro es
  induction es with
  | nil =>
    intro i doubtp _
    show (if e.option = .add then _ else _) = _
    rw [if_pos he]
    rfl
  | cons d es ih =>
    intro i doubtp hadds
    obtain ⟨hd, hes⟩ := List.forall_mem_cons.mp hadds
    rw [List.cons_append, doubtLoop, if_pos hd, ih _ _ hes, doubtLoop, if_pos hd]

/-- A log of additions is in doubt behind the last row that still exists. -/
theorem doubtLoop_adds (tupleExists : Tid → Bool) {es : List Rollback}
    (hadds : ∀ d ∈ es, d.option = .add) :
    doubtLoop tupleExists es 0 0 =
      ((es.rdropWhile fun e => !tupleExists e.tid).length, es.length) := by
  induction es using List.reverseRecOn with
  | nil => rfl
  | append_singleton es e ih =>
    obtain ⟨hes, he⟩ := List.forall_mem_append.mp hadds
    rw [doubtLoop_concat tupleExists (he e (List.mem_singleton_self e)) 0 0 hes, ih hes,
      List.rdropWhile_concat, List.length_append, List.length_singleton]
    cases tupleExists e.tid with
    | true => simp
    | false => simp

/-- From there on it is undone. -/
theorem rollbackPoint_adds (tupleExists : Tid → Bool) (num_total_read : ℕ) {es : List Rollback}
    (hadds : ∀ d ∈ es, d.option = .add) :
    rollbackPoint tupleExists num_total_read es =
      (es.rdropWhile fun e => !tupleExists e.tid).length := by
  have hle := (List.rdropWhile_prefix (fun e : Rollback => !tupleExists e.tid) es).length_le
  rw [rollbackPoint, doubtLoop_adds tupleExists hadds]
  show lostLoop num_total_read es (es.rdropWhile _).length es.length es.length = _
  generalize (es.rdropWhile fun e => !tupleExists e.tid).length = p at hle ⊢
  -- no addition is followed by a deletion
  have hlost (rollbp i : ℕ) (hi : i < es.length) : Lost num_total_read es rollbp i = true := by
    rw [Lost, List.getElem?_eq_getElem hi]
    simp only [hadds _ (List.getElem_mem hi), decide_true, Bool.true_and, List.all_eq_true]
    intro d hd
    have hmem : d ∈ es := List.mem_of_mem_take (List.mem_of_mem_drop hd)
    simp [hadds d hmem]
  have hend (fuel : ℕ) : lostLoop num_total_read es p fuel p = p := by
    cases fuel with
    | zero => rfl
    | succ fuel =>
      rw [lostLoop, Nat.sub_self]
      rfl
  rcases Nat.eq_or_lt_of_le hle with heq | hlt
  · rw [← heq]
    exact hend p
  · obtain ⟨fuel, hfuel⟩ : ∃ fuel, es.length = fuel + 1 := ⟨es.length - 1, by omega⟩
    have hrange : List.range' p (es.length - p) = p :: List.range' (p + 1) (es.length - p - 1) := by
      rw [← List.range'_succ]
      congr 1
      omega
    have hstep : lostLoop num_total_read es p (fuel + 1) es.length =
        lostLoop num_total_read es p fuel p := by
      rw [lostLoop, hrange, List.find?_cons_of_pos (hlost es.length p hlt)]
    calc lostLoop num_total_read es p es.length es.length
        = lostLoop num_total_read es p (fuel + 1) es.length := by rw [← hfuel]
      _ = lostLoop num_total_read es p fuel p := hstep
      _ = p := hend fuel

/-! ### The log of the additions -/

/-- An addition that goes through had room in the log. -/
theorem room_of_note (hlog : r.log.Inv) {index : ℤ} {tid : Tid} {code : DmlCode} {r' : QResult}
    (h : r.note true index tid code = .ok r') : r.log.rb_count < 40960 := by
  by_contra hfull
  have hle := hlog.alloc.le
  have hroom := hlog.room
  have hcount : r.log.rb_count = 40960 := by omega
  have halloc : r.log.rb_alloc = 40960 := by omega
  rcases hrollback : r.log.rollback with _ | entries
  · exact absurd (hlog.null.mp hrollback) (by omega)
  · -- the doubled allocation is 16384
    simp [QResult.note, RowLists.AddRollback, hrollback, hcount, halloc] at h

theorem note_ok (hlog : r.log.Inv) {index : ℤ} {tid : Tid} {code : DmlCode} {r' : QResult}
    (h : r.note true index tid code = .ok r') :
    ∃ log, r' = { r with log := log } ∧ log.Inv ∧
      log.entries = r.log.entries ++ [⟨index, tid, code⟩] := by
  have hroom : true = true → r.log.rb_count < 40960 := fun _ => room_of_note hlog h
  obtain ⟨log, heq, hinv, hentries⟩ := note_spec hlog hroom index tid code
  exact ⟨log, Except.ok.inj (h.symm.trans heq), hinv, hentries⟩

/-- The entries that the additions make, when the first one has a number. -/
def addEntries (number : ℕ → ℤ) (rows : List NewRow) : List Rollback :=
  rows.mapIdx fun i row => ⟨number i, row.tid, .add⟩

theorem addEntries_concat (number : ℕ → ℤ) (rows : List NewRow) (row : NewRow) :
    addEntries number (rows ++ [row]) =
      addEntries number rows ++ [⟨number rows.length, row.tid, .add⟩] :=
  List.mapIdx_concat

theorem option_addEntries {number : ℕ → ℤ} {rows : List NewRow} :
    ∀ e ∈ addEntries number rows, e.option = .add := by
  intro e he
  obtain ⟨i, hi, rfl⟩ := List.mem_mapIdx.mp he
  rfl

/-- What a rollback leaves of the log is what it leaves of the rows. -/
theorem RollbackCall.point_eq (call : RollbackCall) {number : ℕ → ℤ} {rows : List NewRow}
    (hentries : r.log.entries = addEntries number rows) :
    call.point r = (call.kept rows).length := by
  rw [RollbackCall.point, RollbackCall.kept]
  by_cases hpart : call.partially = true
  · rw [if_pos hpart, if_pos hpart, hentries, rollbackPoint_adds _ _ option_addEntries]
    have htids : (addEntries number rows).map Rollback.tid = rows.map NewRow.tid := by
      refine List.ext_getElem? fun i => ?_
      rw [addEntries, List.getElem?_map, List.getElem?_map, List.getElem?_mapIdx, Option.map_map]
      rfl
    have hlength {α : Type} (l : List α) (f : α → Tid) :
        (l.rdropWhile fun x => !call.server.tupleExists (f x)).length =
          ((l.map f).rdropWhile fun tid => !call.server.tupleExists tid).length := by
      rw [List.rdropWhile, List.rdropWhile, ← List.map_reverse, List.dropWhile_map]
      simp [Function.comp_def]
    rw [hlength (addEntries number rows) Rollback.tid, hlength rows NewRow.tid, htids]
  · rw [if_neg hpart, if_neg hpart]
    rfl

theorem RollbackCall.kept_prefix (call : RollbackCall) (rows : List NewRow) :
    call.kept rows <+: rows := by
  rw [RollbackCall.kept]
  split
  · exact List.rdropWhile_prefix _ _
  · exact List.nil_prefix

/-! ### With a cursor: adding -/

theorem doubledTo_le {number a : ℕ} : ∀ {fuel alloc : ℕ}, doubledTo number fuel alloc = some a →
    number ≤ a := by
  intro fuel
  induction fuel with
  | zero =>
    intro alloc h
    rw [doubledTo] at h
    split at h
    · cases h
    · cases h
      omega
  | succ fuel ih =>
    intro alloc h
    rw [doubledTo] at h
    split at h
    · exact ih h
    · cases h
      omega

/-- The arrays are enlarged, and what was in use is still there. -/
theorem enlargeAdded_ok {r' : QResult} {n : ℕ} (hlists : Lists r n)
    (h : enlargeAdded r (n + 1) = .ok r') :
    ∃ keys tuples alloc,
      r' = { r with added_keyset := keys, added_tuples := tuples, ad_alloc := alloc } ∧
      Lists r' (n + 1) ∧ keys.take n = r.added_keyset.take n ∧
      (tuples.getD []).take n = (r.added_tuples.getD []).take n := by
  rw [enlargeAdded] at h
  split at h
  · cases h
  · rename_i alloc halloc
    have hle : n + 1 ≤ alloc := by
      split at halloc
      · obtain rfl := Option.some.inj halloc
        exact Nat.le_max_left _ _
      · exact doubledTo_le halloc
    split at h
    · obtain rfl := Except.ok.inj h
      exact ⟨_, _, _, rfl, ⟨hlists.keys, by omega, hlists.none, hlists.tuples⟩, rfl, rfl⟩
    · rename_i hgrow
      obtain rfl := Except.ok.inj h
      have hkeys := hlists.keys
      have hroom := hlists.room
      refine ⟨_, _, _, rfl, ⟨length_realloc .., hle, ?_, ?_⟩, ?_, ?_⟩
      · intro hdriven
        show (if r.keyset_driven = true then r.added_tuples else _) = none
        rw [if_pos hdriven]
        exact hlists.none hdriven
      · intro hdriven
        show (Option.getD (if r.keyset_driven = true then r.added_tuples else _) []).length = alloc
        have hnot : ¬ r.keyset_driven = true := by rw [hdriven]; exact Bool.false_ne_true
        rw [if_neg hnot]
        exact length_realloc ..
      · exact take_realloc (by omega) (by omega) _
      · by_cases hdriven : r.keyset_driven = true
        · rw [if_pos hdriven]
        · rw [if_neg hdriven]
          have hlen := hlists.tuples (Bool.not_eq_true _ ▸ hdriven)
          exact take_realloc (by omega) (by omega) _

/-- The row goes to the list of added rows. -/
theorem keepAdded_ok {r' : QResult} {n : ℕ} (hcursor : r.cursor = true) (hlists : Lists r n)
    (hn : n + 1 < 2 ^ 32) {keys : KeySet} {tuple : Tuple}
    (h : keepAdded r n keys tuple = .ok r') :
    ∃ added_keyset added_tuples alloc,
      r' = { r with
        added_keyset := added_keyset, added_tuples := added_tuples, ad_alloc := alloc } ∧
      Lists r' (n + 1) ∧ added_keyset.take (n + 1) = r.added_keyset.take n ++ [keys] ∧
      (r.keyset_driven = false →
        (added_tuples.getD []).take (n + 1) = (r.added_tuples.getD []).take n ++ [tuple]) := by
  have hroom := hlists.room
  have hopen : ¬ (!r.cursor) = true := by rw [hcursor]; decide
  have hkept : ¬ (0 < n ∧ r.ad_alloc = 0) := by omega
  rw [keepAdded, if_neg hopen, if_neg hkept, Nat.mod_eq_of_lt hn] at h
  obtain ⟨r₁, henlarge, h⟩ := bind_eq_ok.mp h
  obtain ⟨ks, ts, alloc, rfl, hlists₁, hks, hts⟩ := enlargeAdded_ok hlists henlarge
  have hkslen : ks.length = alloc := hlists₁.keys
  have hnalloc : n + 1 ≤ alloc := hlists₁.room
  have hlt : n < ks.length := by omega
  rw [put_of_lt hlt, ok_bind] at h
  obtain ⟨ts', hput, h⟩ := bind_eq_ok.mp h
  obtain rfl := Except.ok.inj h
  refine ⟨_, _, _, rfl, ?_⟩
  have hkeys : (ks.set n keys).take (n + 1) = r.added_keyset.take n ++ [keys] := by
    rw [take_set_succ hlt, hks]
  cases ts with
  | none =>
    obtain rfl := Except.ok.inj hput
    have hdriven (hnot : r.keyset_driven = false) : False := by
      have hlen : ([] : List Tuple).length = alloc := hlists₁.tuples hnot
      rw [List.length_nil] at hlen
      omega
    exact ⟨⟨(List.length_set ..).trans hkslen, hnalloc, fun _ => rfl,
      fun hnot => (hdriven hnot).elim⟩, hkeys, fun hnot => (hdriven hnot).elim⟩
  | some ts =>
    have hnot : r.keyset_driven = false := by
      by_contra hdriven
      exact Option.some_ne_none _ (hlists₁.none (Bool.not_eq_false _ ▸ hdriven))
    have htslen : ts.length = alloc := hlists₁.tuples hnot
    have htslt : n < ts.length := by omega
    rw [putTuple, put_of_lt htslt] at hput
    obtain rfl := Except.ok.inj hput
    refine ⟨⟨(List.length_set ..).trans hkslen, hnalloc, ?_, ?_⟩, hkeys, fun _ => ?_⟩
    · intro hdriven
      rw [hnot] at hdriven
      cases hdriven
    · exact fun _ => (List.length_set ..).trans htslen
    · show (ts.set n tuple).take (n + 1) = _
      rw [take_set_succ htslt]
      exact congrArg (· ++ [tuple]) hts

/-- A result with a cursor after rows were added to it. -/
structure Holds (r₀ : QResult) (rows : List NewRow) (r : QResult) : Prop where
  cursor : r.cursor = true
  driven : r.keyset_driven = r₀.keyset_driven
  fields : r.num_fields = r₀.num_fields
  read : r.num_total_read = r₀.num_total_read
  reached_eof : r.reached_eof = r₀.reached_eof
  permanent : r.permanent = r₀.permanent
  withhold : r.withhold = r₀.withhold
  count : r.ad_count = r₀.ad_count + rows.length
  lists : Lists r r.ad_count
  keys : r.addedKeys = r₀.addedKeys ++ rows.map fun row => keyOf row.tid (addedStatus true)
  tuples : r₀.keyset_driven = false → r.addedTuples = r₀.addedTuples ++ rows.map NewRow.tuple

theorem Holds.start (h : Settled r) (hcursor : r.cursor = true) : Holds r [] r :=
  ⟨hcursor, rfl, rfl, rfl, rfl, rfl, rfl, rfl, h.lists hcursor, (List.append_nil _).symm,
    fun _ => (List.append_nil _).symm⟩

theorem appendKey_ok {r' : QResult} {kres_ridx : ℤ} {row : NewRow}
    (h : appendKey r kres_ridx row = .ok r') :
    ∃ keyset keys, r' = { r with keyset := keyset, num_cached_keys := keys } := by
  rw [appendKey] at h
  split at h
  · cases h
  · obtain ⟨keyset, -, h⟩ := bind_eq_ok.mp h
    exact ⟨keyset, _, (Except.ok.inj h).symm⟩

theorem appendData_ok {r' : QResult} {row : NewRow} (h : appendData r row = .ok r') :
    ∃ backend_tuples n, r' = { r with backend_tuples := backend_tuples, num_cached_rows := n } := by
  obtain ⟨backend_tuples, -, h⟩ := bind_eq_ok.mp h
  exact ⟨backend_tuples, _, (Except.ok.inj h).symm⟩

/-- The caches alone change when the new row is cached. -/
theorem appendRow_ok {r' : QResult} {n : ℤ} {row : NewRow} (h : appendRow r n row = .ok r') :
    ∃ keyset keys backend_tuples rows, r' = { r with
      keyset := keyset, num_cached_keys := keys
      backend_tuples := backend_tuples, num_cached_rows := rows } := by
  have hboth {k : ℤ} (h : appendKey r k row >>= (appendData · row) = .ok r') :
      ∃ keyset keys backend_tuples rows, r' = { r with
        keyset := keyset, num_cached_keys := keys
        backend_tuples := backend_tuples, num_cached_rows := rows } := by
    obtain ⟨r₁, hkey, hdata⟩ := bind_eq_ok.mp h
    obtain ⟨keyset, keys, rfl⟩ := appendKey_ok hkey
    obtain ⟨backend_tuples, rows, rfl⟩ := appendData_ok hdata
    exact ⟨keyset, keys, backend_tuples, rows, rfl⟩
  rw [appendRow] at h
  split at h
  · split at h
    · exact hboth h
    · exact ⟨_, _, _, _, (Except.ok.inj h).symm⟩
  · split at h
    · exact hboth h
    · obtain ⟨keyset, keys, rfl⟩ := appendKey_ok h
      exact ⟨keyset, keys, _, _, rfl⟩

/-- **One row more.** With a cursor the row goes to the list, and to the log with a negative
number. -/
theorem Holds.add {r₀ r' : QResult} {rows : List NewRow} (h : Holds r₀ rows r) (hlog : r.log.Inv)
    {row : NewRow} (hcount : r₀.ad_count + rows.length + 1 < 2 ^ 32)
    (hadd : addRow true r row = .ok r') :
    Holds r₀ (rows ++ [row]) r' ∧ r'.log.Inv ∧ r'.log.entries = r.log.entries ++
      [⟨-(r₀.ad_count + rows.length + 1 : ℕ), row.tid, .add⟩] := by
  have hn := h.count
  have hmod : (r.ad_count + 1) % 2 ^ 32 = r.ad_count + 1 := Nat.mod_eq_of_lt (by omega)
  obtain ⟨added, hadded, happend⟩ := bind_eq_ok.mp hadd
  have hadded : (QResult.note { r with ad_count := (r.ad_count + 1) % 2 ^ 32 } true
      (if r.cursor = true then -(((r.ad_count + 1) % 2 ^ 32 : ℕ) : ℤ) else r.num_total_tuples)
      row.tid .add >>= fun noted =>
        keepAdded noted r.ad_count (keyOf row.tid (addedStatus true)) row.tuple) = .ok added :=
    hadded
  rw [hmod, if_pos h.cursor] at hadded
  obtain ⟨noted, hnote, hkeep⟩ := bind_eq_ok.mp hadded
  obtain ⟨log, rfl, hinv, hentries⟩ :=
    note_ok (r := { r with ad_count := r.ad_count + 1 }) hlog hnote
  have hlists : Lists { r with ad_count := r.ad_count + 1, log := log } r.ad_count :=
    ⟨h.lists.keys, h.lists.room, h.lists.none, h.lists.tuples⟩
  have hbounded : r.ad_count + 1 < 2 ^ 32 := by omega
  obtain ⟨ks, ts, alloc, rfl, hlists', hks, hts⟩ :=
    keepAdded_ok (r := { r with ad_count := r.ad_count + 1, log := log }) h.cursor hlists hbounded
      hkeep
  obtain ⟨keyset, keys, backend_tuples, cached, rfl⟩ := appendRow_ok happend
  refine ⟨⟨h.cursor, h.driven, h.fields, h.read, h.reached_eof, h.permanent, h.withhold, ?_,
    ⟨hlists'.keys, hlists'.room, hlists'.none, hlists'.tuples⟩, ?_, fun hdriven => ?_⟩, hinv, ?_⟩
  · show r.ad_count + 1 = r₀.ad_count + (rows ++ [row]).length
    rw [List.length_append, List.length_singleton]
    omega
  · show ks.take (r.ad_count + 1) = _
    rw [hks, List.map_append, ← List.append_assoc, ← h.keys]
    rfl
  · show (ts.getD []).take (r.ad_count + 1) = _
    rw [hts (h.driven.trans hdriven), List.map_append, ← List.append_assoc, ← h.tuples hdriven]
    rfl
  · rw [← hn]
    exact hentries

/-- The rows that were added with a cursor, and their entries in the log. -/
theorem addRows_holds (h : Settled r) (hcursor : r.cursor = true) : ∀ {rows : List NewRow}
    {r₁ : QResult}, addRows r rows = .ok r₁ → r.ad_count + rows.length < 2 ^ 32 →
      Holds r rows r₁ ∧ r₁.log.Inv ∧
        r₁.log.entries = addEntries (fun i => -((r.ad_count + i + 1 : ℕ) : ℤ)) rows := by
  intro rows
  induction rows using List.reverseRecOn with
  | nil =>
    intro r₁ hadds _
    obtain rfl := Except.ok.inj hadds
    refine ⟨Holds.start h hcursor, ?_, ?_⟩
    · rw [h.log]
      exact UndoLog.cleared_inv
    · rw [h.log]
      rfl
  | append_singleton rows row ih =>
    intro r₁ hadds hcount
    rw [List.length_append, List.length_singleton] at hcount
    rw [addRows, List.foldlM_append] at hadds
    obtain ⟨r₂, hrows, hrow⟩ := bind_eq_ok.mp hadds
    have hrow : addRow true r₂ row = .ok r₁ := by
      obtain ⟨r₃, hrow, hnil⟩ := bind_eq_ok.mp hrow
      rw [hrow]
      exact hnil
    obtain ⟨hholds, hinv, hentries⟩ := ih hrows (by omega)
    obtain ⟨hholds', hinv', hentries'⟩ := hholds.add hinv (by omega) hrow
    refine ⟨hholds', hinv', ?_⟩
    rw [hentries', hentries, addEntries_concat]

/-! ### With a cursor: undoing -/

theorem moveTuples_zero (tuples : Option (List Tuple)) (i : ℕ) :
    moveTuples tuples i 0 = .ok tuples := by
  cases tuples with
  | none => rfl
  | some ts =>
    rw [moveTuples, moveUp_zero]
    rfl

/-- The last added row is taken out: there is nothing behind it to move. -/
theorem RemoveAdded_last {n : ℕ} (hn : r.ad_count = n + 1) :
    RemoveAdded r (-((n + 1 : ℕ) : ℤ)) =
      clearAdded r.num_fields r.added_tuples n >>= fun cleared =>
        .ok { r.removeChanged (-((n + 1 : ℕ) : ℤ)) with
          added_keyset := r.added_keyset, added_tuples := cleared, ad_count := n } := by
  have hidx : (if -((n + 1 : ℕ) : ℤ) < 0 then - -((n + 1 : ℕ) : ℤ) - 1
      else -((n + 1 : ℕ) : ℤ) - r.num_total_read) = (n : ℤ) := by
    rw [if_pos (by omega)]
    push_cast
    ring
  have hmove : r.ad_count - n - 1 = 0 := by omega
  have hcount : r.ad_count - 1 = n := by omega
  rw [RemoveAdded]
  simp only [hidx, Int.toNat_natCast]
  rw [if_neg (by omega), if_neg (by omega), hmove, hcount]
  cases clearAdded r.num_fields r.added_tuples n with
  | error fault => rfl
  | ok cleared =>
    rw [ok_bind, ok_bind, moveUp_zero, ok_bind, moveTuples_zero, ok_bind]

/-- The data of the last added row is cleared, if it is kept. -/
theorem clearAdded_last {n : ℕ} (hlists : Lists r (n + 1))
    (hkeep : r.keyset_driven = true → r.num_fields = 0) :
    ∃ cleared, clearAdded r.num_fields r.added_tuples n = .ok cleared ∧
      (r.keyset_driven = true → cleared = none) ∧
      (cleared.getD []).length = (r.added_tuples.getD []).length ∧
      (cleared.getD []).take n = (r.added_tuples.getD []).take n := by
  rw [clearAdded.eq_def]
  by_cases hfields : r.num_fields = 0
  · rw [if_pos hfields]
    exact ⟨_, rfl, hlists.none, rfl, rfl⟩
  · have hdriven : r.keyset_driven = false := by
      by_contra hdriven
      exact hfields (hkeep (Bool.not_eq_false _ ▸ hdriven))
    have hlen := hlists.tuples hdriven
    have hroom := hlists.room
    rw [if_neg hfields]
    cases htuples : r.added_tuples with
    | none =>
      rw [htuples] at hlen
      have hzero : 0 = r.ad_alloc := hlen
      omega
    | some ts =>
      rw [htuples] at hlen
      have hlen' : ts.length = r.ad_alloc := hlen
      have hlt : n < ts.length := by omega
      refine ⟨some (ts.set n (List.replicate r.num_fields none)), ?_, ?_, ?_, ?_⟩
      · show some <$> put _ ts n _ = _
        rw [put_of_lt hlt]
        rfl
      · intro hnot
        rw [hdriven] at hnot
        cases hnot
      · exact List.length_set ..
      · exact List.take_set_of_le (le_refl n)

theorem take_of_concat {α : Type} {l xs : List α} {x : α} {n : ℕ} (hn : n + 1 ≤ l.length)
    (h : l.take (n + 1) = xs ++ [x]) : l.take n = xs := by
  have hlen : xs.length = n := by
    have hlen := congrArg List.length h
    rw [List.length_take_of_le hn, List.length_append, List.length_singleton] at hlen
    omega
  have htake := congrArg (List.take n) h
  rw [List.take_take, Nat.min_eq_left (Nat.le_succ n), ← hlen, List.take_left] at htake
  rw [← hlen]
  exact htake

/-- The number of the last row in the list. -/
theorem Holds.last {r₀ : QResult} {rows : List NewRow} {row : NewRow}
    (h : Holds r₀ (rows ++ [row]) r) : r.ad_count = r₀.ad_count + rows.length + 1 := by
  rw [h.count, List.length_append, List.length_singleton, Nat.add_assoc]

/-- **One row fewer.** The last row that was added is undone, where its data can be cleared. -/
theorem Holds.undo {r₀ : QResult} {rows : List NewRow} {row : NewRow}
    (h : Holds r₀ (rows ++ [row]) r) (hkeep : r₀.keyset_driven = true → r₀.num_fields = 0)
    (server : UndoServer) :
    ∃ r', undoEntry server r ⟨-((r₀.ad_count + rows.length + 1 : ℕ) : ℤ), row.tid, .add⟩ = .ok r' ∧
      Holds r₀ rows r' := by
  have hn := h.last
  have hlists : Lists r (r₀.ad_count + rows.length + 1) := by rw [← hn]; exact h.lists
  obtain ⟨cleared, hclear, hnone, hlen, htake⟩ := clearAdded_last hlists fun hdriven => by
    rw [h.fields]
    exact hkeep (h.driven.symm.trans hdriven)
  have hkeysLen := hlists.keys
  have hroom := hlists.room
  have hopen : ¬ (!r.cursor) = true := by rw [h.cursor]; decide
  have hout : ¬ (0 ≤ -((r₀.ad_count + rows.length + 1 : ℕ) : ℤ)) := by omega
  have hundo : undoEntry server r ⟨-((r₀.ad_count + rows.length + 1 : ℕ) : ℤ), row.tid, .add⟩ =
      .ok (QResult.removeChanged { r.removeChanged (-((r₀.ad_count + rows.length + 1 : ℕ) : ℤ)) with
        added_keyset := r.added_keyset, added_tuples := cleared
        ad_count := r₀.ad_count + rows.length } (-((r₀.ad_count + rows.length + 1 : ℕ) : ℤ))) := by
    rw [undoEntry, undoListed, if_neg hopen, if_pos rfl, RemoveAdded_last hn, hclear, ok_bind,
      ok_bind, ok_bind, undoCached, if_pos (fun hin => hout hin.1)]
  refine ⟨_, hundo, h.cursor, h.driven, h.fields, h.read, h.reached_eof, h.permanent, h.withhold,
    rfl, ⟨hlists.keys, ?_, hnone, fun hdriven => ?_⟩, ?_, fun hdriven => ?_⟩
  · show r₀.ad_count + rows.length ≤ r.ad_alloc
    omega
  · show (cleared.getD []).length = r.ad_alloc
    rw [hlen]
    exact hlists.tuples hdriven
  · show r.added_keyset.take (r₀.ad_count + rows.length) = _
    have hkeys := h.keys
    rw [QResult.addedKeys, hn, List.map_append, ← List.append_assoc] at hkeys
    exact take_of_concat (by omega) hkeys
  · show (cleared.getD []).take (r₀.ad_count + rows.length) = _
    rw [htake]
    have htuples := h.tuples hdriven
    rw [QResult.addedTuples, hn, List.map_append, ← List.append_assoc] at htuples
    refine take_of_concat ?_ htuples
    rw [hlists.tuples (h.driven.trans hdriven)]
    omega

/-- Without data to clear the last row cannot be taken out. -/
theorem Holds.not_undo {r₀ : QResult} {rows : List NewRow} {row : NewRow}
    (h : Holds r₀ (rows ++ [row]) r) (hdriven : r₀.keyset_driven = true)
    (hfields : r₀.num_fields ≠ 0) (server : UndoServer) :
    undoEntry server r ⟨-((r₀.ad_count + rows.length + 1 : ℕ) : ℤ), row.tid, .add⟩ =
      .error .unallocated := by
  have hopen : ¬ (!r.cursor) = true := by rw [h.cursor]; decide
  have hnone : r.added_tuples = none := h.lists.none (h.driven.trans hdriven)
  have hclear (n : ℕ) : clearAdded r.num_fields r.added_tuples n = .error .unallocated := by
    rw [clearAdded.eq_def, h.fields, if_neg hfields, hnone]
  rw [undoEntry, undoListed, if_neg hopen, if_pos rfl, RemoveAdded_last h.last, hclear]
  rfl

/-- **The rows behind an entry.** All rows behind an entry of the log are undone, and the others
stay. -/
theorem Holds.undoEntries {r₀ : QResult} (hkeep : r₀.keyset_driven = true → r₀.num_fields = 0)
    (server : UndoServer) (p : ℕ) : ∀ {rows : List NewRow} {r : QResult}, Holds r₀ rows r →
    ∃ r', ((addEntries (fun i => -((r₀.ad_count + i + 1 : ℕ) : ℤ)) rows).drop p).reverse.foldlM
        (undoEntry server) r = .ok r' ∧ Holds r₀ (rows.take p) r' := by
  intro rows
  induction rows using List.reverseRecOn with
  | nil =>
    intro r h
    refine ⟨r, ?_, ?_⟩
    · rw [addEntries, List.mapIdx_nil, List.drop_nil]
      rfl
    · rw [List.take_nil]
      exact h
  | append_singleton rows row ih =>
    intro r h
    have hlength : (addEntries (fun i => -((r₀.ad_count + i + 1 : ℕ) : ℤ)) rows).length =
        rows.length := List.length_mapIdx
    by_cases hp : p ≤ rows.length
    · obtain ⟨r₁, hlast, hholds⟩ := h.undo hkeep server
      obtain ⟨r', hrest, hholds'⟩ := ih hholds
      refine ⟨r', ?_, ?_⟩
      · rw [addEntries_concat, List.drop_append_of_le_length (by omega), List.reverse_append,
          List.reverse_singleton, List.singleton_append, List.foldlM_cons, hlast, ok_bind, hrest]
      · rw [List.take_append_of_le_length hp]
        exact hholds'
    · refine ⟨r, ?_, ?_⟩
      · rw [addEntries_concat, List.drop_of_length_le]
        · rfl
        · rw [List.length_append, List.length_singleton]
          omega
      · rw [List.take_of_length_le]
        · exact h
        · rw [List.length_append, List.length_singleton]
          omega

/-! ### The rollback -/

/-- The result when its changes are undone: the rollback of a transaction closes cursors first. -/
def RollbackCall.opened (call : RollbackCall) (r : QResult) : QResult :=
  if call.partially then r else clearCursors r

theorem clearCursors_log (r : QResult) : (clearCursors r).log = r.log := by
  rw [clearCursors]
  split <;> rfl

theorem clearCursors_read (r : QResult) :
    (clearCursors r).num_total_read = r.num_total_read := by
  rw [clearCursors]
  split <;> rfl

theorem RollbackCall.opened_log (call : RollbackCall) (r : QResult) :
    (call.opened r).log = r.log := by
  rw [RollbackCall.opened]
  split
  · rfl
  · exact clearCursors_log r

theorem RollbackCall.opened_point (call : RollbackCall) (r : QResult) :
    call.point (call.opened r) = call.point r := by
  rw [RollbackCall.point, RollbackCall.point, call.opened_log]
  by_cases hpart : call.partially = true
  · rw [RollbackCall.opened]
    simp only [if_pos hpart]
  · rw [if_neg hpart, if_neg hpart]

/-- The entries behind an entry of the log, when they are undone. -/
def RollbackCall.undo (call : RollbackCall) (r : QResult) : Except Fault QResult :=
  (r.log.entries.drop (call.point r)).reverse.foldlM (undoEntry call.server) (call.opened r)

/-- A rollback is what it does to these entries; then the log is cut. -/
theorem RollbackCall.run_eq (call : RollbackCall) (hinv : r.log.Inv) :
    ∃ log : QResult → UndoLog,
      call.run r = call.undo r >>= fun u => .ok { u with log := log u } := by
  have hlog := call.opened_log r
  have hpoint := call.opened_point r
  show ∃ log, UndoRollback call.server call.partially (call.opened r) = _
  rw [UndoRollback, hlog]
  by_cases hempty : r.log.rb_count = 0 ∨ r.log.rollback.isNone = true
  · have hentries : r.log.entries = [] := by
      rcases hempty with hzero | hnone
      · exact List.eq_nil_of_length_eq_zero (by rw [← hinv.count, hzero])
      · rw [UndoLog.entries, Option.isNone_iff_eq_none.mp hnone]
        rfl
    refine ⟨QResult.log, ?_⟩
    rw [if_pos hempty, RollbackCall.undo, hentries, List.drop_nil]
    rfl
  · refine ⟨fun _ => cutLog r.log (call.point r), ?_⟩
    rw [if_neg hempty]
    rw [RollbackCall.point, hlog] at hpoint
    rw [RollbackCall.undo, ← hpoint]

/-- What the rows say, with the log aside. -/
theorem UndoneTo.setLog {kept : List NewRow} {r' : QResult} (h : UndoneTo r kept r')
    (log : UndoLog) : UndoneTo r kept { r' with log := log } :=
  ⟨h.count, h.total, h.keys, h.tuples, h.cached⟩

theorem Holds.undoneTo {r₀ : QResult} {rows : List NewRow} (h : Holds r₀ rows r)
    (hcursor : r₀.cursor = true) : UndoneTo r₀ rows r := by
  refine ⟨h.count, ?_, fun _ => h.keys, fun _ => h.tuples, fun hnot => ?_⟩
  · rw [QResult.num_total_tuples, QResult.num_total_tuples, h.reached_eof, h.read, h.count]
    split
    · rw [Nat.add_assoc]
    · rfl
  · rw [hcursor] at hnot
    cases hnot

/-- With the cursor gone a negative number says nothing, and nothing is undone. -/
theorem undoEntries_closed (server : UndoServer) {r : QResult} (hclosed : r.cursor = false) :
    ∀ {es : List Rollback}, (∀ e ∈ es, e.index < 0) → es.foldlM (undoEntry server) r = .ok r := by
  intro es
  induction es with
  | nil => exact fun _ => rfl
  | cons e es ih =>
    intro hneg
    obtain ⟨he, hes⟩ := List.forall_mem_cons.mp hneg
    have hlisted : undoListed r e = .ok r := if_pos (by rw [hclosed]; rfl)
    have hcached : undoCached server r e = .ok r := if_pos fun hin => absurd he (not_lt.mpr hin.1)
    rw [List.foldlM_cons, undoEntry, hlisted, ok_bind, hcached, ok_bind, ih hes]

/-- **With a cursor.** -/
theorem undone_cursor_iff (h : Settled r) (hcursor : r.cursor = true) {rows : List NewRow}
    {r₁ : QResult} (hadds : addRows r rows = .ok r₁) (hcount : r.ad_count + rows.length < 2 ^ 32)
    (call : RollbackCall) :
    Undone r rows call r₁ ↔ call.kept rows = rows ∨
      call.KeepsCursor r ∧ (r.keyset_driven = true → r.num_fields = 0) := by
  obtain ⟨hholds, hinv, hentries⟩ := addRows_holds h hcursor hadds hcount
  have hpoint := call.point_eq hentries
  have htake : rows.take (call.kept rows).length = call.kept rows :=
    (List.prefix_iff_eq_take.mp (call.kept_prefix rows)).symm
  obtain ⟨log, hrun⟩ := call.run_eq hinv
  rw [RollbackCall.undo, hentries, hpoint] at hrun
  by_cases hopen : call.KeepsCursor r
  · have hopened : call.opened r₁ = r₁ := by
      rw [RollbackCall.opened]
      split
      · rfl
      · rename_i hpart
        obtain ⟨hpermanent, hwithhold⟩ := hopen.resolve_left hpart
        rw [clearCursors, hholds.permanent, hholds.withhold, hpermanent, hwithhold, Bool.and_self,
          Bool.not_true, Bool.and_false, if_neg Bool.false_ne_true]
    rw [hopened] at hrun
    by_cases hkeep : r.keyset_driven = true → r.num_fields = 0
    · refine iff_of_true ?_ (Or.inr ⟨hopen, hkeep⟩)
      obtain ⟨u, hundo, hholds'⟩ :=
        Holds.undoEntries hkeep call.server (call.kept rows).length hholds
      rw [hundo, ok_bind] at hrun
      rw [htake] at hholds'
      exact ⟨_, hrun, (hholds'.undoneTo hcursor).setLog _⟩
    · rw [Classical.not_imp] at hkeep
      constructor
      · -- the first entry that is undone has no data to clear
        rintro ⟨r₂, hrun₂, -⟩
        by_contra hnot
        rw [not_or] at hnot
        obtain ⟨hdriven, hfields⟩ := hkeep
        rcases List.eq_nil_or_concat rows with hnil | ⟨rows', row, hconcat⟩
        · refine hnot.1 ?_
          rw [hnil] at htake ⊢
          rw [← htake, List.take_nil]
        · rw [List.concat_eq_append] at hconcat
          subst hconcat
          have hlt : (call.kept (rows' ++ [row])).length ≤ rows'.length := by
            by_contra hlong
            refine hnot.1 ?_
            have hlen : rows'.length + 1 = (rows' ++ [row]).length := by
              rw [List.length_append, List.length_singleton]
            rw [← htake, List.take_of_length_le (by omega)]
          have hlength : (addEntries (fun i => -((r.ad_count + i + 1 : ℕ) : ℤ)) rows').length =
            rows'.length := List.length_mapIdx
          rw [addEntries_concat, List.drop_append_of_le_length (by omega), List.reverse_append,
            List.reverse_singleton, List.singleton_append, List.foldlM_cons,
            hholds.not_undo hdriven hfields, hrun₂] at hrun
          cases hrun
      · rintro (hall | ⟨-, hkeep'⟩)
        · have hdrop : (addEntries (fun i => -((r.ad_count + i + 1 : ℕ) : ℤ)) rows).drop
              (call.kept rows).length = [] := by
            rw [hall]
            exact List.drop_of_length_le (le_of_eq List.length_mapIdx)
          rw [hdrop] at hrun
          rw [Undone, hall]
          exact ⟨_, hrun, (hholds.undoneTo hcursor).setLog _⟩
        · exact absurd (hkeep' hkeep.1) hkeep.2
  · -- the cursor is closed, and all is left as it is
    have hpart : ¬ call.partially = true := fun hpart => hopen (Or.inl hpart)
    have hclosed : call.opened r₁ =
        { r₁ with cursor := false, withhold := false, permanent := false } := by
      have hnot : (r₁.cursor && !(r₁.permanent && r₁.withhold)) = true := by
        rw [hholds.cursor, hholds.permanent, hholds.withhold, Bool.true_and, Bool.not_eq_true',
          Bool.and_eq_false_iff]
        by_contra hheld
        rw [not_or, Bool.not_eq_false, Bool.not_eq_false] at hheld
        exact hopen (Or.inr hheld)
      rw [RollbackCall.opened, if_neg hpart, clearCursors, if_pos hnot]
    rw [hclosed, undoEntries_closed, ok_bind] at hrun
    · have hcounts := hholds.count
      constructor
      · rintro ⟨r₂, hrun₂, hundone⟩
        obtain rfl := Except.ok.inj (hrun₂.symm.trans hrun)
        have hkept : r₁.ad_count = r.ad_count + (call.kept rows).length := hundone.count
        exact Or.inl ((call.kept_prefix rows).eq_of_length (by omega))
      · rintro (hall | ⟨hheld, -⟩)
        · rw [Undone, hall]
          have hundone := hholds.undoneTo hcursor
          exact ⟨_, hrun, hundone.count, hundone.total, hundone.keys, hundone.tuples, fun hnot => by
            rw [hcursor] at hnot
            cases hnot⟩
        · exact absurd hheld hopen
    · rfl
    · intro e he
      obtain ⟨i, hi, rfl⟩ := List.mem_mapIdx.mp (List.mem_of_mem_drop (List.mem_reverse.mp he))
      show -((r.ad_count + i + 1 : ℕ) : ℤ) < 0
      omega

/-! ### Without a cursor -/

/-- An addition that goes through had room in the log. -/
theorem room_of_addRow (hlog : r.log.Inv) {row : NewRow} {r' : QResult}
    (h : addRow true r row = .ok r') : r.log.rb_count < 40960 := by
  obtain ⟨added, hadded, -⟩ := bind_eq_ok.mp h
  obtain ⟨noted, hnote, -⟩ := bind_eq_ok.mp hadded
  exact room_of_note (r := { r with ad_count := (r.ad_count + 1) % 2 ^ 32 }) hlog hnote

/-- A whole result after rows were added to it. -/
structure Appended (r₀ : QResult) (rows : List NewRow) (r : QResult) : Prop where
  whole : Whole r
  log : r.log.Inv
  entries : r.log.entries = addEntries (fun i => ((r₀.num_cached_keys + i : ℕ) : ℤ)) rows
  pending : Pending r.log.entries.reverse r.num_cached_keys r.ad_count
  keys : r.num_cached_keys = r₀.num_cached_keys + rows.length
  ads : r.ad_count = r₀.ad_count + rows.length
  read : r.num_total_read = r₀.num_total_read

theorem addRows_appended (h : Settled r) (hcursor : r.cursor = false) : ∀ {rows : List NewRow}
    {r₁ : QResult}, addRows r rows = .ok r₁ → r.ad_count + rows.length < 2 ^ 32 →
      Appended r rows r₁ := by
  have hempty : r.log.entries = [] := by rw [h.log]; rfl
  intro rows
  induction rows using List.reverseRecOn with
  | nil =>
    intro r₁ hadds _
    obtain rfl := Except.ok.inj hadds
    refine ⟨h.whole hcursor, ?_, hempty, ?_, rfl, rfl, rfl⟩
    · rw [h.log]
      exact UndoLog.cleared_inv
    · rw [hempty]
      trivial
  | append_singleton rows row ih =>
    intro r₁ hadds hcount
    rw [List.length_append, List.length_singleton] at hcount
    rw [addRows, List.foldlM_append] at hadds
    obtain ⟨r₂, hrows, hrow⟩ := bind_eq_ok.mp hadds
    have hrow : addRow true r₂ row = .ok r₁ := by
      obtain ⟨r₃, hrow, hnil⟩ := bind_eq_ok.mp hrow
      rw [hrow]
      exact hnil
    have hold := ih hrows (by omega)
    have hads := hold.ads
    have hkeys := hold.keys
    have hroom : true = true → r₂.log.rb_count < 40960 := fun _ => room_of_addRow hold.log hrow
    obtain ⟨log, keyset, tuples, n, heq, hinv, hentries, -, -, hlt, hn, hend⟩ :=
      addRow_spec hold.whole hold.log hroom (by omega) row
    obtain rfl := Except.ok.inj (hrow.symm.trans heq)
    rw [if_pos rfl] at hentries
    refine ⟨hold.whole.add (by omega) hlt hn (hend.imp (fun hend => ⟨hend.1, hend.2.1⟩) And.right),
      hinv, ?_, ?_, ?_, ?_, hold.read⟩
    · rw [addEntries_concat, ← hold.entries, ← hkeys]
      exact hentries
    · show Pending log.entries.reverse (r₂.num_cached_keys + 1) (r₂.ad_count + 1)
      rw [hentries, List.reverse_append, List.reverse_singleton, List.singleton_append, Pending,
        if_pos rfl]
      refine ⟨Nat.succ_pos _, Nat.succ_pos _, ?_, hold.pending⟩
      push_cast
      omega
    · show r₂.num_cached_keys + 1 = _
      rw [List.length_append, List.length_singleton]
      omega
    · show r₂.ad_count + 1 = _
      rw [List.length_append, List.length_singleton]
      omega

/-- **Without a cursor.** The counts go down by the rows that are undone. -/
theorem undone_whole (h : Settled r) (hcursor : r.cursor = false) {rows : List NewRow}
    {r₁ : QResult} (hadds : addRows r rows = .ok r₁) (hcount : r.ad_count + rows.length < 2 ^ 32)
    (call : RollbackCall) : Undone r rows call r₁ := by
  have hrows := addRows_appended h hcursor hadds hcount
  have hwhole := h.whole hcursor
  obtain ⟨r₂, hrun, hwhole₂, -, -, -, hread, hkeys, hads⟩ :=
    RollbackCall.run_spec hrows.whole hrows.log hrows.pending call
  have hpoint := call.point_eq hrows.entries
  have hlen : (addEntries (fun i => ((r.num_cached_keys + i : ℕ) : ℤ)) rows).length = rows.length :=
    List.length_mapIdx
  have hundone : (r₁.log.entries.drop (call.point r₁)).countP isAdd =
      rows.length - (call.kept rows).length := by
    have hadd : ∀ e ∈ (addEntries (fun i => ((r.num_cached_keys + i : ℕ) : ℤ)) rows).drop
        (call.kept rows).length, isAdd e = true := fun e he =>
      decide_eq_true (option_addEntries e (List.mem_of_mem_drop he))
    rw [hpoint, hrows.entries, List.countP_eq_length.mpr hadd, List.length_drop, hlen]
  have hle := (call.kept_prefix rows).length_le
  have hkeys₁ := hrows.keys
  have hads₁ := hrows.ads
  rw [hundone] at hkeys hads
  refine ⟨r₂, hrun, by omega, ?_, fun hopen => ?_, fun hopen => ?_, fun _ => by omega⟩
  · rw [hwhole₂.total, hwhole.total, if_pos hwhole.reached_eof]
    omega
  · rw [hcursor] at hopen
    cases hopen
  · rw [hcursor] at hopen
    cases hopen

/-- A result of one row that is read through a cursor, keyset-driven or not. -/
def cursorRow (keyset_driven : Bool) : QResult :=
  { oneRow.res with
    cursor := true, keyset_driven := keyset_driven, updated := .cleared keyset_driven }

theorem cursorRow_settled (keyset_driven : Bool) : Settled (cursorRow keyset_driven) where
  log := rfl
  lists _ := ⟨rfl, le_refl _, fun _ => rfl, fun _ => rfl⟩
  whole hcursor := by cases hcursor

/-- A rollback to a savepoint before all rows. -/
def toSavepoint : RollbackCall := ⟨true, ⟨fun _ => false, fun _ => none⟩⟩

end OdbcDriver.RowAdd
