import OdbcDriver.Lib.Run
import OdbcDriver.Result.DeletedRows

/-!
# The undo log and the deleted rows over a run

In a transaction every positioned change is noted in the undo log of its result, and a deleted row
goes to the list of deleted rows. Both allocations double. That of the log is kept in 16 unsigned
bits: 40960 entries doubled are 16384, so `realloc` cuts the log and the next entry is written behind
it. That of the deleted rows goes through 16 signed bits. A row that is deleted again is put into the
list again.
-/

namespace OdbcDriver.RowLists

open CInt Result

/-! ### The log -/

/-- The undo log of a result: the entries that are within the allocation. -/
structure UndoLog where
  rollback : Option (List Rollback)
  rb_alloc : Nat
  rb_count : Nat

/-- The log before the first entry. -/
def UndoLog.cleared : UndoLog := ⟨none, 0, 0⟩

/-- The entries that can be read. -/
def UndoLog.entries (l : UndoLog) : List Rollback := l.rollback.getD []

/-- `AddRollback`, and where it writes the entry. -/
def AddRollback (in_trans : Bool) (l : UndoLog) (index : Int) (tid : Tid) (dmlcode : DmlCode) :
    UndoLog × Option ArrayWrite :=
  if !in_trans then (l, none)
  else
    match l.rollback with
    | none => (⟨some [⟨index, tid, dmlcode⟩], 10, 1⟩, some ⟨10, 0⟩)
    | some entries =>
      let alloc := if l.rb_alloc ≤ l.rb_count then 2 * l.rb_alloc % 2 ^ 16 else l.rb_alloc
      -- `realloc` to nothing frees the log
      if l.rb_alloc ≤ l.rb_count ∧ alloc = 0 then (⟨some [], 0, 0⟩, none)
      else
        (⟨some (if l.rb_count < alloc then entries.take l.rb_count ++ [⟨index, tid, dmlcode⟩]
            else entries.take alloc), alloc, (l.rb_count + 1) % 2 ^ 16⟩,
          some ⟨alloc, l.rb_count⟩)

/-- The log holds what it counts. -/
structure UndoLog.Inv (l : UndoLog) : Prop where
  count : l.rb_count = l.entries.length
  room : l.rb_count ≤ l.rb_alloc
  alloc : Alloc 12 l.rb_alloc
  null : l.rollback = none ↔ l.rb_alloc = 0

theorem UndoLog.cleared_inv : UndoLog.cleared.Inv :=
  ⟨rfl, le_refl _, Or.inl rfl, by simp [UndoLog.cleared]⟩

/-- The allocation with room for one more entry. -/
def UndoLog.nextAlloc (l : UndoLog) : Nat := nextCap l.rb_count l.rb_alloc

/-- Below 40960 entries `AddRollback` makes room for the entry and puts it behind the others. -/
theorem AddRollback_append {l : UndoLog} (h : l.Inv) (hn : l.rb_count < 40960) (index : Int)
    (tid : Tid) (dmlcode : DmlCode) :
    AddRollback true l index tid dmlcode =
      (⟨some (l.entries ++ [⟨index, tid, dmlcode⟩]), l.nextAlloc, l.rb_count + 1⟩,
        some ⟨l.nextAlloc, l.rb_count⟩) := by
  have hroom := h.room
  rcases hlog : l.rollback with _ | entries
  · have h0 : l.rb_alloc = 0 := h.null.mp hlog
    have hcount : l.rb_count = 0 := by omega
    simp [AddRollback, UndoLog.entries, UndoLog.nextAlloc, nextCap, hlog, h0, hcount]
  · have h0 : l.rb_alloc ≠ 0 := fun h0 => by simp [h.null.mpr h0] at hlog
    have hlen : entries.length = l.rb_count := by rw [h.count, UndoLog.entries, hlog]; rfl
    obtain ⟨hlt, hcap⟩ := h.alloc.next hroom (by omega)
    have hcaple := hcap.le
    have halloc : (if l.rb_alloc ≤ l.rb_count then 2 * l.rb_alloc % 2 ^ 16 else l.rb_alloc) =
        l.nextAlloc := by
      rw [UndoLog.nextAlloc]
      rw [nextCap, if_neg h0] at hcaple ⊢
      by_cases hfull : l.rb_alloc ≤ l.rb_count
      · have hnot : ¬ l.rb_count < l.rb_alloc := by omega
        rw [if_neg hnot] at hcaple ⊢
        rw [if_pos hfull, Nat.mod_eq_of_lt (by omega)]
      · have hlt' : l.rb_count < l.rb_alloc := by omega
        rw [if_neg hfull, if_pos hlt']
    have hpos : ¬ (l.rb_alloc ≤ l.rb_count ∧ l.nextAlloc = 0) := by
      rw [UndoLog.nextAlloc]
      omega
    have hentries : l.entries = entries := by rw [UndoLog.entries, hlog]; rfl
    simp only [AddRollback, hlog, halloc, Bool.not_true, Bool.false_eq_true, if_false]
    have hroom' : l.rb_count < l.nextAlloc := hlt
    rw [if_neg hpos, if_pos hroom', Nat.mod_eq_of_lt (by omega), ← hlen, List.take_length, hentries]

/-- A noted entry keeps the invariant. -/
theorem UndoLog.Inv.note {l : UndoLog} (h : l.Inv) (hn : l.rb_count < 40960) (index : Int)
    (tid : Tid) (dmlcode : DmlCode) : (AddRollback true l index tid dmlcode).1.Inv := by
  obtain ⟨hlt, hcap⟩ := h.alloc.next h.room (by omega)
  rw [AddRollback_append h hn]
  refine ⟨?_, hlt, hcap, ?_⟩
  · simp [UndoLog.entries, h.count]
  · have hpos : l.nextAlloc ≠ 0 := by rw [UndoLog.nextAlloc]; omega
    simp [hpos]

/-- The entry is noted: the others are still there, and nothing was written behind the log. -/
structure Noted (l l' : UndoLog) (e : Rollback) (w : Option ArrayWrite) : Prop where
  entries : l'.entries = l.entries ++ [e]
  count : l'.rb_count = l.rb_count + 1
  /-- The allocation did not wrap. -/
  grows : l.rb_alloc ≤ l'.rb_alloc
  inBounds : ∃ write, w = some write ∧ write.InBounds

/-- Up to 40960 entries an entry is noted, and not beyond. -/
theorem AddRollback_noted_iff {l : UndoLog} (h : l.Inv) (index : Int) (tid : Tid)
    (dmlcode : DmlCode) :
    Noted l (AddRollback true l index tid dmlcode).1 ⟨index, tid, dmlcode⟩
        (AddRollback true l index tid dmlcode).2 ↔ l.rb_count < 40960 := by
  have hroom := h.room
  by_cases hn : l.rb_count < 40960
  · refine iff_of_true ?_ hn
    have hlt : l.rb_count < l.nextAlloc := (h.alloc.next hroom (by omega)).1
    rw [AddRollback_append h hn]
    refine ⟨rfl, rfl, ?_, _, rfl, Int.natCast_nonneg _, Int.ofNat_lt.mpr hlt⟩
    show l.rb_alloc ≤ nextCap l.rb_count l.rb_alloc
    rw [nextCap]
    split
    · omega
    · split <;> omega
  · refine iff_of_false ?_ hn
    have hle := h.alloc.le
    have hcount : l.rb_count = 40960 := by omega
    have ha : l.rb_alloc = 40960 := by omega
    rcases hlog : l.rollback with _ | entries
    · exact absurd (h.null.mp hlog) (by omega)
    · -- the doubled allocation is 16384
      rintro ⟨-, -, hgrows, -⟩
      simp [AddRollback, hlog, ha, hcount] at hgrows

/-! ### The deleted rows -/

/-- The rows are sorted, as unsigned numbers, and no row is there twice. -/
def Sorted (deleted : List Int) : Prop := deleted.Pairwise fun x y => uwrap 64 x < uwrap 64 y

/-- The numbers with a row put into its place. -/
theorem perm_insert (deleted : List Int) (i : Nat) (index : Int) :
    (deleted.take i ++ index :: deleted.drop i).Perm (index :: deleted) := by
  refine List.perm_middle.trans (.cons _ ?_)
  rw [List.take_append_drop]

/-- A row is put into its place exactly when it is not there yet. -/
theorem sorted_insert_iff {deleted : List Int} (h : Sorted deleted) (index : Int) :
    Sorted (deleted.take (deletedPlace deleted index) ++
        index :: deleted.drop (deletedPlace deleted index)) ↔
      ∀ x ∈ deleted, uwrap 64 x ≠ uwrap 64 index := by
  constructor
  · intro hs x hx heq
    have hne : (index :: deleted).Pairwise fun x y => uwrap 64 x ≠ uwrap 64 y :=
      ((perm_insert _ _ _).pairwise_iff fun h => Ne.symm h).mp (hs.imp fun h => ne_of_lt h)
    exact (List.pairwise_cons.mp hne).1 x hx heq.symm
  · intro hnew
    induction deleted with
    | nil => simp [Sorted]
    | cons x l ih =>
      obtain ⟨hx, hl⟩ := List.pairwise_cons.mp h
      by_cases hlt : uwrap 64 index < uwrap 64 x
      · -- the row comes first
        have hplace : deletedPlace (x :: l) index = 0 := by simp [deletedPlace, hlt]
        rw [hplace]
        refine List.pairwise_cons.mpr ⟨fun y hy => ?_, h⟩
        rcases List.mem_cons.mp hy with rfl | hy
        · exact hlt
        · exact hlt.trans (hx y hy)
      · have hplace : deletedPlace (x :: l) index = deletedPlace l index + 1 := by
          simp [deletedPlace, hlt]
        rw [hplace]
        refine List.pairwise_cons.mpr ⟨fun y hy => ?_, ih hl fun y hy => hnew y (by simp [hy])⟩
        rcases List.mem_cons.mp ((perm_insert _ _ _).mem_iff.mp hy) with rfl | hy
        · exact lt_of_le_of_ne (not_lt.mp hlt) (hnew x List.mem_cons_self)
        · exact hx y hy

/-- The row is noted: it and its key are in their place among the others, or it is counted where there
is no list. -/
structure Deleted (d : DeletedRows) (result : Bool × DeletedRows) (e : Int × KeySet) : Prop where
  succeeds : result.1 = true
  count : result.2.dl_count = d.dl_count + 1
  listed : d.cursor = true → ∃ es es', d.Holds es ∧ result.2.Holds es' ∧ es'.Perm (e :: es)
  room : d.cursor = true → result.2.dl_count ≤ result.2.dl_alloc
  sorted : Sorted result.2.deleted

/-- What holds of the deleted rows, with a cursor and without. -/
structure DeletedRows.Good (d : DeletedRows) : Prop where
  listed : d.cursor = true → d.Inv
  unlisted : d.cursor = false → d.deleted = [] ∧ d.dl_count < 2 ^ 16
  sorted : Sorted d.deleted

/-- A row can be noted: with a cursor it is not in the list and is at most the 20480th, and without one
the count does not wrap. -/
def DeletedRows.Accepts (d : DeletedRows) (index : Int) : Prop :=
  if d.cursor then d.dl_count + 1 ≤ 20480 ∧ ∀ x ∈ d.deleted, uwrap 64 x ≠ uwrap 64 index
  else d.dl_count + 1 < 2 ^ 16

/-- The key of a deleted row. -/
def deletedKey (in_trans : Bool) (keyset : KeySet) : KeySet :=
  { keyset with status := deletedStatus in_trans keyset.status }

/-- When a row is noted. -/
theorem AddDeleted_deleted_iff {d : DeletedRows} (h : d.Good) (in_trans : Bool) (index : Int)
    (keyset : KeySet) :
    Deleted d (AddDeleted in_trans d index keyset) (index, deletedKey in_trans keyset) ↔
      d.Accepts index := by
  rcases hc : d.cursor with _ | _
  · have hadd : AddDeleted in_trans d index keyset =
        (true, { d with dl_count := (d.dl_count + 1) % 2 ^ 16 }) := by simp [AddDeleted, hc]
    have hlt := (h.unlisted hc).2
    rw [hadd, DeletedRows.Accepts, hc, if_neg Bool.false_ne_true]
    constructor
    · rintro ⟨-, hcount, -, -, -⟩
      have hcount' : (d.dl_count + 1) % 2 ^ 16 = d.dl_count + 1 := hcount
      have := Nat.mod_lt (d.dl_count + 1) (show 2 ^ 16 > 0 by decide)
      omega
    · intro hn
      exact ⟨rfl, Nat.mod_eq_of_lt hn, by simp [hc], by simp [hc], h.sorted⟩
  · have hinv := h.listed hc
    rw [DeletedRows.Accepts, hc, if_pos rfl]
    by_cases hn : d.dl_count + 1 ≤ 20480
    · obtain ⟨es, hes⟩ := hinv.holds
      have hlt := (hinv.alloc.next hinv.room hn).1
      rw [AddDeleted_insert hinv hc hn, ← sorted_insert_iff h.sorted]
      constructor
      · rintro ⟨-, -, -, -, hsorted⟩
        exact ⟨hn, hsorted⟩
      · rintro ⟨-, hsorted⟩
        refine ⟨rfl, rfl, fun _ => ⟨es, _, hes, hes.insertAt _ _ _, ?_⟩, fun _ => hlt, hsorted⟩
        refine List.perm_middle.trans (.cons _ ?_)
        rw [List.take_append_drop]
    · rw [AddDeleted_full hinv hc hn]
      refine iff_of_false ?_ fun hn' => hn hn'.1
      rintro ⟨hsucceeds, -⟩
      exact Bool.false_ne_true hsucceeds

/-- A noted row keeps what holds. -/
theorem DeletedRows.Good.add {d : DeletedRows} (h : d.Good) {index : Int} (hn : d.Accepts index)
    (in_trans : Bool) (keyset : KeySet) : (AddDeleted in_trans d index keyset).2.Good := by
  have hdel := (AddDeleted_deleted_iff h in_trans index keyset).mpr hn
  rcases hc : d.cursor with _ | _
  · rw [DeletedRows.Accepts, hc, if_neg Bool.false_ne_true] at hn
    have hadd : AddDeleted in_trans d index keyset =
        (true, { d with dl_count := (d.dl_count + 1) % 2 ^ 16 }) := by simp [AddDeleted, hc]
    rw [hadd]
    refine ⟨by simp [hc], fun _ => ⟨(h.unlisted hc).1, ?_⟩, h.sorted⟩
    exact Nat.mod_lt _ (by decide)
  · obtain ⟨hinv, hcursor⟩ := (DeleteCall.add in_trans index keyset).run_inv (h.listed hc) hc
    rw [DeleteCall.run] at hinv hcursor
    exact ⟨fun _ => hinv, fun hno => absurd (hcursor.symm.trans hno) (by decide), hdel.sorted⟩

/-! ### Runs -/

/-- What a result notes of its changes. -/
structure Changes where
  log : UndoLog
  rows : DeletedRows

/-- A call that notes a change. -/
inductive NoteCall
  | rollback (in_trans : Bool) (index : Int) (tid : Tid) (dmlcode : DmlCode)
  | delete (in_trans : Bool) (index : Int) (keyset : KeySet)

/-- A call. -/
def NoteCall.run (c : Changes) : NoteCall → Changes
  | .rollback in_trans index tid dmlcode =>
    { c with log := (AddRollback in_trans c.log index tid dmlcode).1 }
  | .delete in_trans index keyset => { c with rows := (AddDeleted in_trans c.rows index keyset).2 }

/-- The call notes its change, and nothing that was noted is lost. Outside a transaction there is
nothing to undo. -/
def NoteCall.Kept (c : Changes) : NoteCall → Prop
  | .rollback in_trans index tid dmlcode =>
    in_trans = true → Noted c.log (AddRollback in_trans c.log index tid dmlcode).1
      ⟨index, tid, dmlcode⟩ (AddRollback in_trans c.log index tid dmlcode).2
  | .delete in_trans index keyset =>
    Deleted c.rows (AddDeleted in_trans c.rows index keyset) (index, deletedKey in_trans keyset)

/-- There is room for the change, in 16 bits, and the row is not deleted twice. -/
def NoteCall.Fits (c : Changes) : NoteCall → Prop
  | .rollback in_trans _ _ _ => in_trans = true → c.log.rb_count < 40960
  | .delete _ index _ => c.rows.Accepts index

/-- The changes, noted one after the other. -/
def notes : Machine Changes NoteCall Unit := ⟨fun c call => (call.run c, ())⟩

/-- A result before any change. -/
def Changes.cleared (cursor : Bool) : Changes := ⟨.cleared, .cleared cursor⟩

/-- The entries of the log that the calls make. -/
def loggedBy : List NoteCall → List Rollback :=
  List.filterMap fun
    | .rollback in_trans index tid dmlcode =>
      if in_trans then some ⟨index, tid, dmlcode⟩ else none
    | .delete _ _ _ => none

/-- The rows that the calls delete. -/
def deletedBy : List NoteCall → List (Int × KeySet) :=
  List.filterMap fun
    | .rollback _ _ _ _ => none
    | .delete in_trans index keyset => some (index, deletedKey in_trans keyset)

/-- What the lists hold after some calls: the entries of the log are all there in order, the deleted
rows are all there, sorted and with their keys, and both counts are within the allocations. -/
structure Holding (calls : List NoteCall) (c : Changes) : Prop where
  log : c.log.entries = loggedBy calls
  log_count : c.log.rb_count = (loggedBy calls).length
  log_room : c.log.rb_count ≤ c.log.rb_alloc
  rows : c.rows.cursor = true → ∃ es, c.rows.Holds es ∧ es.Perm (deletedBy calls)
  rows_count : c.rows.dl_count = (deletedBy calls).length
  rows_room : c.rows.cursor = true → c.rows.dl_count ≤ c.rows.dl_alloc
  sorted : Sorted c.rows.deleted

/-- What the invariants say of the two lists. -/
def Changes.Good (c : Changes) : Prop := c.log.Inv ∧ c.rows.Good

theorem Changes.cleared_good (cursor : Bool) : (Changes.cleared cursor).Good :=
  ⟨UndoLog.cleared_inv, fun _ => DeletedRows.cleared_inv cursor,
    fun _ => ⟨rfl, show 0 < 2 ^ 16 by decide⟩, .nil⟩

/-- A call is kept exactly when it fits. -/
theorem NoteCall.kept_iff {c : Changes} (h : c.Good) (call : NoteCall) :
    call.Kept c ↔ call.Fits c := by
  cases call with
  | rollback in_trans index tid dmlcode =>
    refine imp_congr_right fun ht => ?_
    rw [ht]
    exact AddRollback_noted_iff h.1 index tid dmlcode
  | delete in_trans index keyset => exact AddDeleted_deleted_iff h.2 in_trans index keyset

theorem NoteCall.run_good {c : Changes} (h : c.Good) {call : NoteCall} (hfits : call.Fits c) :
    (call.run c).Good := by
  cases call with
  | rollback in_trans index tid dmlcode =>
    rcases in_trans with _ | _
    · exact h
    · exact ⟨h.1.note (hfits rfl) index tid dmlcode, h.2⟩
  | delete in_trans index keyset => exact ⟨h.1, h.2.add hfits in_trans keyset⟩

theorem Changes.Good.run {c : Changes} (h : c.Good) {calls : List NoteCall}
    (hfits : notes.AllSteps (fun c call => call.Fits c) c calls) : (notes.final c calls).Good :=
  have hstep : ∀ c call, Changes.Good c → NoteCall.Fits c call → (notes.step c call).1.Good :=
    fun _ _ hc hf => NoteCall.run_good hc hf
  Machine.run_invariant hstep h hfits

/-- A call that fits adds its change to what is held. -/
theorem Holding.step {past : List NoteCall} {c : Changes} (h : Holding past c) (hgood : c.Good)
    {call : NoteCall} (hfits : call.Fits c) : Holding (past ++ [call]) (call.run c) := by
  have hkept := (call.kept_iff hgood).mpr hfits
  have hgood' := NoteCall.run_good hgood hfits
  cases call with
  | rollback in_trans index tid dmlcode =>
    have hrows : deletedBy (past ++ [.rollback in_trans index tid dmlcode]) = deletedBy past := by
      simp [deletedBy]
    rcases in_trans with _ | _
    · have hlog : loggedBy (past ++ [.rollback false index tid dmlcode]) = loggedBy past := by
        simp [loggedBy]
      exact ⟨hlog ▸ h.log, hlog ▸ h.log_count, h.log_room, hrows ▸ h.rows, hrows ▸ h.rows_count,
        h.rows_room, h.sorted⟩
    · have hlog : loggedBy (past ++ [.rollback true index tid dmlcode]) =
          loggedBy past ++ [⟨index, tid, dmlcode⟩] := by simp [loggedBy]
      obtain ⟨hentries, hcount, -, -⟩ := hkept rfl
      refine ⟨?_, ?_, hgood'.1.room, hrows ▸ h.rows, hrows ▸ h.rows_count, h.rows_room, h.sorted⟩
      · rw [hlog, ← h.log]
        exact hentries
      · rw [hlog, List.length_append, ← h.log_count]
        exact hcount
  | delete in_trans index keyset =>
    have hlog : loggedBy (past ++ [.delete in_trans index keyset]) = loggedBy past := by
      simp [loggedBy]
    have hrows : deletedBy (past ++ [.delete in_trans index keyset]) =
        deletedBy past ++ [(index, deletedKey in_trans keyset)] := by simp [deletedBy]
    have hcursor : (AddDeleted in_trans c.rows index keyset).2.cursor = c.rows.cursor := by
      rcases hc : c.rows.cursor with _ | _
      · simp [AddDeleted, hc]
      · exact ((DeleteCall.add in_trans index keyset).run_inv (hgood.2.listed hc) hc).2
    obtain ⟨-, hcount, hlisted, hroom, hsorted⟩ := hkept
    refine ⟨hlog ▸ h.log, hlog ▸ h.log_count, h.log_room, ?_, ?_, ?_, hsorted⟩
    · intro hc
      rw [NoteCall.run, hcursor] at hc
      obtain ⟨es, hes, hperm⟩ := h.rows hc
      obtain ⟨fs, fs', hfs, hfs', hperm'⟩ := hlisted hc
      obtain rfl := hfs.holds_iff.mp hes
      refine ⟨fs', hfs', hperm'.trans ?_⟩
      rw [hrows]
      exact (hperm.cons _).trans (List.perm_append_singleton _ _).symm
    · rw [hrows, List.length_append, ← h.rows_count]
      exact hcount
    · intro hc
      rw [NoteCall.run, hcursor] at hc
      exact hroom hc

theorem Holding.start (cursor : Bool) : Holding [] (.cleared cursor) :=
  ⟨rfl, rfl, le_refl _, fun _ => ⟨[], ⟨rfl, rfl, rfl⟩, .nil⟩, rfl, fun _ => le_refl _, .nil⟩

/-- A run whose calls fit adds its changes to what is held. -/
theorem Holding.run {calls : List NoteCall} : ∀ {past : List NoteCall} {c : Changes},
    Holding past c → c.Good → notes.AllSteps (fun c call => call.Fits c) c calls →
      Holding (past ++ calls) (notes.final c calls) := by
  induction calls with
  | nil => exact fun h _ _ => by simpa using h
  | cons call calls ih =>
    intro past c h hgood hfits
    have hnext := ih (h.step hgood hfits.1) (NoteCall.run_good hgood hfits.1) hfits.2
    rw [List.append_assoc] at hnext
    exact hnext

/-- **What is noted of changes.** Over every sequence of `AddRollback` and `AddDeleted` calls, all
changes are noted and none that was noted is lost exactly when each of them fits; and then the lists
hold, after the calls, all changes they are for. -/
theorem changes_kept_iff (cursor : Bool) (calls : List NoteCall) :
    (notes.AllSteps (fun c call => call.Kept c) (.cleared cursor) calls ↔
        notes.AllSteps (fun c call => call.Fits c) (.cleared cursor) calls) ∧
      (notes.AllSteps (fun c call => call.Fits c) (.cleared cursor) calls →
        Holding calls (notes.final (.cleared cursor) calls)) :=
  ⟨Machine.allSteps_congr (fun _ call h => call.kept_iff h) (fun _ _ h hf => NoteCall.run_good h hf)
      (Changes.cleared_good cursor),
    fun hfits => (Holding.start cursor).run (Changes.cleared_good cursor) hfits⟩

/-! ### A long transaction -/

/-- A row of the result is updated in a transaction. -/
def noteUpdate : NoteCall := .rollback true 0 {} .update

/-- The state after a number of updates. -/
def afterUpdates (n : Nat) : Changes := notes.final (.cleared true) (List.replicate n noteUpdate)

/-- Up to 40960 updates fit, one after the other. -/
theorem noteUpdates_fit {n : Nat} (hn : n ≤ 40960) :
    notes.AllSteps (fun c call => call.Fits c) (.cleared true) (List.replicate n noteUpdate) ∧
      (afterUpdates n).Good ∧ (afterUpdates n).log.rb_count = n := by
  induction n with
  | zero => exact ⟨trivial, Changes.cleared_good true, rfl⟩
  | succ n ih =>
    obtain ⟨hfits, -, hcount⟩ := ih (by omega)
    have hall : notes.AllSteps (fun c call => call.Fits c) (.cleared true)
        (List.replicate (n + 1) noteUpdate) := by
      rw [List.replicate_succ', Machine.allSteps_append]
      refine ⟨hfits, fun _ => ?_, trivial⟩
      rw [afterUpdates] at hcount
      omega
    have hheld := (Holding.start true).run (Changes.cleared_good true) hall
    refine ⟨hall, (Changes.cleared_good true).run hall, ?_⟩
    rw [afterUpdates, hheld.log_count]
    simp [loggedBy, noteUpdate]

/-- One more update than fit is not kept. -/
theorem noteUpdates_not_kept_of_eq {n : Nat} (hn : n = 40960) :
    ¬ notes.AllSteps (fun c call => call.Kept c) (.cleared true)
      (List.replicate (n + 1) noteUpdate) := by
  obtain ⟨-, hgood, hcount⟩ := noteUpdates_fit (le_of_eq hn)
  rw [List.replicate_succ', Machine.allSteps_append]
  rintro ⟨-, hkept, -⟩
  have hroom : (afterUpdates n).log.rb_count < 40960 := (noteUpdate.kept_iff hgood).mp hkept rfl
  omega

/-- The update after 40960 of them is written behind the log. -/
theorem noteUpdates_not_kept :
    ¬ notes.AllSteps (fun c call => call.Kept c) (.cleared true)
      (List.replicate (40960 + 1) noteUpdate) :=
  noteUpdates_not_kept_of_eq rfl

end OdbcDriver.RowLists
