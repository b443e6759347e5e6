import OdbcDriver.Positioned.SetPosRows
import OdbcDriver.Result.LastBookmark

/-!
# Operations by bookmark

`bulk_ope_callback` goes over an array of bookmarks. Each of them names a row of the result, and may
carry a key of it. A row that is not cached is changed under its key, for which the callback asks
the lists of deleted and updated rows; it asks them for the place in the array, not for the row that
the bookmark names. An element is counted behind its call, whatever the call returned.

* `bulk_loop`, `PGAPI_BulkOperations`: the calls that are made, and what is reported;
* `expected`: the rows that the bookmarks name, each with its last key;
* `bulk_operations_iff`: the arrays with which the two are the same.
-/

namespace OdbcDriver.BulkBookmarks

open CInt RowLists Result

/-! ### Bookmarks -/

/-- An element of the bookmark array, with its length where the application gives it. -/
structure Bookmark where
  index : BitVec 32
  keys : KeySet
  used : Option ℤ
deriving DecidableEq, Repr

/-- `PG_BM` -/
structure PG_BM where
  index : ℤ
  keys : KeySet
deriving DecidableEq, Repr

/-- `SC_resolve_int4_bookmark` -/
def SC_resolve_int4_bookmark (b : BitVec 32) : ℤ := if b.toInt < 0 then b.toInt else b.toInt - 1

/-- The number of bytes that are taken. The first comparison is one of unsigned numbers. -/
def Bookmark.cpylen (b : Bookmark) : ℕ :=
  match b.used with
  | none => 4
  | some used => if 16 ≤ uwrap 64 used then 16 else if 12 ≤ used then 12 else 4

/-- `SC_Resolve_bookmark` -/
def SC_Resolve_bookmark (b : Bookmark) : PG_BM where
  index := SC_resolve_int4_bookmark b.index
  keys :=
    if b.cpylen = 16 then b.keys
    -- the `oid` is behind the other parts
    else if b.cpylen = 12 then { b.keys with oid := 0 }
    else {}

theorem fits_resolve (b : BitVec 32) : Fits 32 (SC_resolve_int4_bookmark b) := by
  have hle := BitVec.le_toInt b
  have hlt := BitVec.toInt_lt (x := b)
  rw [SC_resolve_int4_bookmark, Fits]
  split_ifs <;> omega

/-! ### The driver -/

/-- The result of a statement: its cached keys, and the lists of deleted and updated rows. -/
structure State where
  rowset_start : ℤ
  has_valid_base : Bool
  key_base : ℤ
  keyset : List KeySet
  lists : LastKeys

/-- `GIdx2KResIdx` -/
def State.GIdx2KResIdx (s : State) (gidx : ℤ) : ℤ :=
  gidx - if s.has_valid_base then s.rowset_start - s.key_base else 0

/-- The cached key of a row. -/
def State.cachedKey (s : State) (gidx : ℤ) : Option KeySet :=
  let kres_ridx := s.GIdx2KResIdx gidx
  if 0 ≤ kres_ridx then s.keyset[kres_ridx.toNat]? else none

/-- The key under which `SC_pos_update` and `SC_pos_delete` change a row; where the row is not
cached it is the one that is passed to them, unless its offset is zero. -/
def State.keyOf (s : State) (gidx : ℤ) (keyset : KeySet) : Option KeySet :=
  match s.cachedKey gidx with
  | some key => some key
  | none => if keyset.offset = 0 then none else some keyset

/-- A call for an element: its row in the application's buffers, its row in the result, and the key
under which that is changed. -/
structure Act where
  irow : ℕ
  global_ridx : ℤ
  key : Option KeySet
deriving DecidableEq, Repr

inductive Operation
  | update | delete
deriving DecidableEq, Repr

/-- A call of `PGAPI_BulkOperations` by bookmark. What comes of a row that has a key is up to the
server and the data of the row; data that are needed have been put where a state is left. -/
structure Call where
  operation : Operation
  size_of_rowset : ℕ
  bookmark : ℕ → Bookmark
  SC_pos_update : Act → State → State × SetPosRows.Outcome
  SC_pos_delete : Act → State → State × SetPosRows.Outcome

/-- The call for an element. -/
def Call.operate (call : Call) (act : Act) (s : State) : State × SetPosRows.Outcome :=
  if act.key = none then (s, .done .error)
  else
    match call.operation with
    | .update => call.SC_pos_update act s
    | .delete => call.SC_pos_delete act s

/-- The call that `bulk_ope_callback` makes for an element. The row is a `UWORD`. -/
def Call.act (call : Call) (idx : ℕ) (s : State) : Act :=
  let pg_bm := SC_Resolve_bookmark (call.bookmark idx)
  let keys :=
    (QR_get_last_bookmark s.lists.deletedRows s.lists.updatedRows idx).getD pg_bm.keys
  { irow := idx % 65536
    global_ridx := pg_bm.index
    key := s.keyOf pg_bm.index keys }

/-- The loop of `bulk_ope_callback`, with the calls that go on behind the elements for which data
are needed: the calls for elements, and the last code with the number of elements. -/
def Call.bulk_loop (call : Call) : ℕ → ℕ → State → ℕ → RetCode → List Act × Option (RetCode × ℕ)
  | 0, _, _, processed, ret => ([], some (ret, processed))
  | rest + 1, idx, s, processed, _ =>
    let act := call.act idx s
    match call.operate act s with
    | (s, .done ret) | (s, .needData ret) =>
      if ret = .error then ([act], some (ret, processed + 1))
      else
        let (acts, e) := call.bulk_loop rest (idx + 1) s (processed + 1) ret
        (act :: acts, e)
    | (_, .noMemory) => ([act], none)

/-- What a call comes to. -/
structure Ran where
  acts : List Act
  ret : RetCode
  /-- The number of elements that is reported. -/
  processed : Option ℕ
deriving DecidableEq, Repr

/-- `PGAPI_BulkOperations`, with the calls of its callback. -/
def PGAPI_BulkOperations (call : Call) (s : State) : Ran :=
  match call.bulk_loop call.size_of_rowset 0 s 0 .success with
  | (acts, some (ret, processed)) => ⟨acts, ret, some processed⟩
  | (acts, none) => ⟨acts, .error, none⟩

/-! ### What is asked for -/

/-- The most recent key of the row that a bookmark names: the cached one, the one that was last
recorded for the row, or that of the bookmark. -/
def State.recentKey (s : State) (pg_bm : PG_BM) : Option KeySet :=
  s.keyOf pg_bm.index ((s.lists.lastKey pg_bm.index).getD pg_bm.keys)

/-- The call that is asked for: the data of the element, for the row that its bookmark names. -/
def Call.target (call : Call) (idx : ℕ) (s : State) : Act :=
  let pg_bm := SC_Resolve_bookmark (call.bookmark idx)
  { irow := idx, global_ridx := pg_bm.index, key := s.recentKey pg_bm }

/-- The state behind a call that completes its element. -/
def Call.complete (call : Call) (act : Act) (s : State) : Option State :=
  match call.operate act s with
  | (s, .done ret) | (s, .needData ret) => if ret = .error then none else some s
  | (_, .noMemory) => none

/-- The calls for some elements, each once and in order up to the first that fails, and the number
of elements that are completed. -/
def Call.expected (call : Call) : ℕ → ℕ → State → List Act × ℕ
  | 0, _, _ => ([], 0)
  | rest + 1, idx, s =>
    let act := call.target idx s
    match call.complete act s with
    | none => ([act], 0)
    | some s =>
      let (acts, completed) := call.expected rest (idx + 1) s
      (act :: acts, completed + 1)

/-- The rows that the bookmarks name are changed, and the completed elements are reported. -/
def Right (call : Call) (s : State) : Prop :=
  let ran := PGAPI_BulkOperations call s
  let expected := call.expected call.size_of_rowset 0 s
  ran.acts = expected.1 ∧ ran.processed = some expected.2

/-- A key is found for the row that the bookmark names: the row is cached, or what is recorded for
the place in the array is what is recorded for the row. -/
def Call.Keyed (call : Call) (idx : ℕ) (s : State) : Prop :=
  let pg_bm := SC_Resolve_bookmark (call.bookmark idx)
  let found := (QR_get_last_bookmark s.lists.deletedRows s.lists.updatedRows idx).getD pg_bm.keys
  let last := (s.lists.lastKey pg_bm.index).getD pg_bm.keys
  (s.cachedKey pg_bm.index).isSome ∨ found = last ∨ found.offset = 0 ∧ last.offset = 0

/-- Every element is one that the callback does right, when those before it are completed. -/
def Call.Fine (call : Call) : ℕ → ℕ → State → Prop
  | 0, _, _ => True
  | rest + 1, idx, s =>
    idx < 65536 ∧ call.Keyed idx s ∧
      ∃ s', call.complete (call.target idx s) s = some s' ∧ call.Fine rest (idx + 1) s'

/-! ### The loop -/

variable {call : Call} {s s' : State} {idx rest processed : ℕ} {ret : RetCode}

/-- Two keys that are passed for a row lead to the same key, whenever the row is cached or they are
as good as the same. -/
theorem State.keyOf_eq_iff {gidx : ℤ} {k k' : KeySet} :
    s.keyOf gidx k = s.keyOf gidx k' ↔
      (s.cachedKey gidx).isSome ∨ k = k' ∨ k.offset = 0 ∧ k'.offset = 0 := by
  rw [State.keyOf, State.keyOf]
  cases hcached : s.cachedKey gidx with
  | some key => simp
  | none =>
    simp only [Option.isSome_none, Bool.false_eq_true, false_or]
    constructor
    · intro h
      by_cases hk : k.offset = 0 <;> by_cases hk' : k'.offset = 0
      · exact .inr ⟨hk, hk'⟩
      · rw [if_pos hk, if_neg hk'] at h
        cases h
      · rw [if_neg hk, if_pos hk'] at h
        cases h
      · rw [if_neg hk, if_neg hk'] at h
        exact .inl (Option.some.inj h)
    · rintro (rfl | ⟨hk, hk'⟩)
      · rfl
      · rw [if_pos hk, if_pos hk']

theorem act_eq_target_iff :
    call.act idx s = call.target idx s ↔ idx < 65536 ∧ call.Keyed idx s := by
  rw [Call.act, Call.target, Act.mk.injEq, State.recentKey, State.keyOf_eq_iff, Call.Keyed]
  have hmod : idx % 65536 = idx ↔ idx < 65536 := Nat.mod_eq_iff_lt (by decide)
  rw [hmod, eq_self, true_and]

/-- An element that is completed is counted, and the loop goes on. -/
theorem bulk_loop_completed (rest processed : ℕ) (ret : RetCode)
    (h : call.complete (call.act idx s) s = some s') :
    ∃ ret', call.bulk_loop (rest + 1) idx s processed ret =
      (call.act idx s :: (call.bulk_loop rest (idx + 1) s' (processed + 1) ret').1,
        (call.bulk_loop rest (idx + 1) s' (processed + 1) ret').2) := by
  rw [Call.complete] at h
  rw [Call.bulk_loop]
  rcases hop : call.operate (call.act idx s) s with ⟨t, ret' | ret' | -⟩
  · simp only [hop, Option.ite_none_left_eq_some, Option.some.injEq] at h ⊢
    exact ⟨ret', by rw [if_neg h.1, h.2]⟩
  · simp only [hop, Option.ite_none_left_eq_some, Option.some.injEq] at h ⊢
    exact ⟨ret', by rw [if_neg h.1, h.2]⟩
  · simp only [hop] at h
    cases h

/-- An element that fails ends the loop. It is counted, or nothing is reported. -/
theorem bulk_loop_failed (rest processed : ℕ) (ret : RetCode)
    (h : call.complete (call.act idx s) s = none) :
    (call.bulk_loop (rest + 1) idx s processed ret).1 = [call.act idx s] ∧
      ((call.bulk_loop (rest + 1) idx s processed ret).2.map Prod.snd = none ∨
        (call.bulk_loop (rest + 1) idx s processed ret).2.map Prod.snd =
          some (processed + 1)) := by
  rw [Call.complete] at h
  rw [Call.bulk_loop]
  rcases hop : call.operate (call.act idx s) s with ⟨t, ret' | ret' | -⟩
  · simp only [hop, ite_eq_left_iff, reduceCtorEq, imp_false, not_not] at h ⊢
    rw [if_pos h]
    exact ⟨rfl, .inr rfl⟩
  · simp only [hop, ite_eq_left_iff, reduceCtorEq, imp_false, not_not] at h ⊢
    rw [if_pos h]
    exact ⟨rfl, .inr rfl⟩
  · exact ⟨rfl, .inl rfl⟩

/-- The loop makes some call wherever there is an element. -/
theorem bulk_loop_head :
    (call.bulk_loop (rest + 1) idx s processed ret).1.head? = some (call.act idx s) := by
  cases h : call.complete (call.act idx s) s with
  | none => rw [(bulk_loop_failed rest processed ret h).1, List.head?_singleton]
  | some s' =>
    obtain ⟨ret', heq⟩ := bulk_loop_completed rest processed ret h
    rw [heq, List.head?_cons]

theorem expected_head :
    (call.expected (rest + 1) idx s).1.head? = some (call.target idx s) := by
  rw [Call.expected]
  cases call.complete (call.target idx s) s <;> rfl

/-- The loop is right from a place on exactly when each element is fine. The counter is the number
of elements before that place. -/
theorem bulk_loop_iff (call : Call) (rest idx processed : ℕ) (s : State) (ret : RetCode) :
    ((call.bulk_loop rest idx s processed ret).1 = (call.expected rest idx s).1 ∧
      (call.bulk_loop rest idx s processed ret).2.map Prod.snd =
        some (processed + (call.expected rest idx s).2)) ↔ call.Fine rest idx s := by
  induction rest generalizing idx s processed ret with
  | zero => exact iff_of_true ⟨rfl, rfl⟩ trivial
  | succ rest ih =>
    rw [Call.Fine, ← and_assoc, ← act_eq_target_iff]
    by_cases hact : call.act idx s = call.target idx s
    · rw [and_iff_right hact, Call.expected]
      cases hcomplete : call.complete (call.target idx s) s with
      | none =>
        -- the failing element is counted, or the count is lost
        have hfailed := bulk_loop_failed rest processed ret (hact ▸ hcomplete)
        refine iff_of_false (fun ⟨_, hcount⟩ => ?_) (fun ⟨_, h, _⟩ => nomatch h)
        rcases hfailed.2 with hnone | hsome
        · rw [hnone] at hcount
          cases hcount
        · rw [hsome, Option.some.injEq, Nat.add_zero] at hcount
          exact absurd hcount (Nat.succ_ne_self processed)
      | some s' =>
        obtain ⟨ret', heq⟩ := bulk_loop_completed rest processed ret (hact ▸ hcomplete)
        have hcount : processed + ((call.expected rest (idx + 1) s').2 + 1) =
            processed + 1 + (call.expected rest (idx + 1) s').2 := by omega
        simp only [heq, hact, List.cons.injEq, true_and, hcount, ih, Option.some.injEq,
          exists_eq_left']
    · refine iff_of_false (fun ⟨hacts, _⟩ => hact ?_) (fun h => hact h.1)
      have hhead := congrArg List.head? hacts
      rw [bulk_loop_head, expected_head] at hhead
      exact Option.some.inj hhead

/-! ### The operation -/

/-- While the bookmarks are those of the rowset at the start of a result, a key is always found. -/
theorem keyed_of_place (h : s.lists.Run KeyCall.Fine) (hidx : idx < 65536)
    (hplace : (SC_Resolve_bookmark (call.bookmark idx)).index = idx) : call.Keyed idx s := by
  have hfits : Fits 32 (idx : ℤ) := by
    rw [Fits]
    omega
  refine .inr (.inl ?_)
  rw [hplace, h.sound.search_eq hfits]

theorem bulk_operations_acts :
    (PGAPI_BulkOperations call s).acts =
      (call.bulk_loop call.size_of_rowset 0 s 0 .success).1 := by
  rw [PGAPI_BulkOperations]
  rcases call.bulk_loop call.size_of_rowset 0 s 0 .success with ⟨acts, _ | ⟨ret, processed⟩⟩ <;>
    rfl

theorem bulk_operations_processed :
    (PGAPI_BulkOperations call s).processed =
      (call.bulk_loop call.size_of_rowset 0 s 0 .success).2.map Prod.snd := by
  rw [PGAPI_BulkOperations]
  rcases call.bulk_loop call.size_of_rowset 0 s 0 .success with ⟨acts, _ | ⟨ret, processed⟩⟩ <;>
    rfl

/-- An operation by bookmark is right exactly when each element is completed, is below 65536, and
is for a row that is cached or has the key that is recorded for the place of the element. -/
theorem bulk_operations_iff (call : Call) (s : State) :
    Right call s ↔ call.Fine call.size_of_rowset 0 s := by
  have hloop := bulk_loop_iff call call.size_of_rowset 0 0 s .success
  rw [Nat.zero_add] at hloop
  rw [← hloop, Right, bulk_operations_acts, bulk_operations_processed]

/-- The first row of a result is deleted; its rows are no longer cached. -/
def behindDeleted : State where
  rowset_start := 4
  has_valid_base := true
  key_base := 4
  keyset := []
  lists := readDeleted

/-- The sixth row of the result, with its key. -/
def sixthRow : Bookmark := ⟨6, keyAt 9, some 16⟩

/-- The sixth row is deleted by its bookmark. -/
def deleteSixth : Call where
  operation := .delete
  size_of_rowset := 1
  bookmark := fun _ => sixthRow
  SC_pos_update := fun _ s => (s, .done .success)
  SC_pos_delete := fun _ s => (s, .done .success)

/-- The key of the first row is used for the sixth. -/
theorem other_row_deleted : ¬Right deleteSixth behindDeleted := by
  rintro ⟨hacts, -⟩
  have hact := congrArg List.head? hacts
  rw [bulk_operations_acts] at hact
  change (deleteSixth.bulk_loop (0 + 1) _ _ _ _).1.head? =
    (deleteSixth.expected (0 + 1) _ _).1.head? at hact
  rw [bulk_loop_head, expected_head, Option.some.injEq] at hact
  revert hact
  decide +kernel

end OdbcDriver.BulkBookmarks
