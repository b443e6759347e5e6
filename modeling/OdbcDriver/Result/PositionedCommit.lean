import Mathlib.Data.List.Forall2
import Mathlib.Tactic.Positivity
import Mathlib.Tactic.Ring
import OdbcDriver.Lib.Run
import OdbcDriver.Result.PositionedChanges

/-!
# Committing positioned changes

When a transaction is over, no status word should say that a change is still under way, and the
undo log should be empty. The driver gets there by the log: the commit promotes the keys that the
log names. `positioned_changes_committed` says when this is enough. It is not for a cursor that is
held over the commit, whose keys and log stay as they are, nor for the lists of a cursor that ends
with the transaction; a log of more than 40960 entries is written behind its allocation; and a row
that was added and is not found again leaves its mark on another row.
-/

namespace OdbcDriver.Result

/-! ### Status words -/

/-- No change of the row is under way. -/
def KeySet.Settled (k : KeySet) : Prop := k.status &&& pendingBits = 0

instance (k : KeySet) : Decidable k.Settled := inferInstanceAs (Decidable (_ = _))

/-- The bits of the changes that were under way have become those of committed ones. -/
structure Promoted (before after : KeySet) : Prop where
  settled : after.Settled
  added : before.status &&& cursSelfAdding ≠ 0 → after.status &&& cursSelfAdded ≠ 0
  updated : before.status &&& cursSelfUpdating ≠ 0 → after.status &&& cursSelfUpdated ≠ 0
  deleted : before.status &&& cursSelfDeleting ≠ 0 → after.status &&& cursSelfDeleted ≠ 0

theorem or_settled {x y : BitVec 16} (hx : x &&& pendingBits = 0) (hy : y &&& pendingBits = 0) :
    (x ||| y) &&& pendingBits = 0 := by
  rw [BitVec.and_or_distrib_right, hx, hy]
  rfl

theorem and_settled {x : BitVec 16} (y : BitVec 16) (hx : x &&& pendingBits = 0) :
    (x &&& y) &&& pendingBits = 0 := by
  rw [BitVec.and_assoc, BitVec.and_comm y, ← BitVec.and_assoc, hx]
  simp

theorem cleared_settled (x : BitVec 16) : (x &&& ~~~pendingBits) &&& pendingBits = 0 := by
  rw [BitVec.and_assoc, BitVec.and_comm _ pendingBits, BitVec.and_not_self]
  simp

theorem updatedStatus_settled (x : BitVec 16) : updatedStatus false x &&& pendingBits = 0 :=
  cleared_settled _

theorem deletedStatus_settled (x : BitVec 16) : deletedStatus false x &&& pendingBits = 0 :=
  or_settled (cleared_settled _) (by decide)

theorem discardStatus_settled (x : BitVec 16) : discardStatus x &&& pendingBits = 0 := by
  refine or_settled (cleared_settled x) ?_
  have hmask : pendingBits <<< 3 &&& pendingBits = 0 := by decide
  rw [BitVec.shiftLeft_and_distrib, BitVec.and_assoc, hmask]
  simp

theorem discardStatus_of_settled {x : BitVec 16} (hx : x &&& pendingBits = 0) :
    discardStatus x = x := by
  have hsplit : x &&& pendingBits ||| x &&& ~~~pendingBits = x := by
    rw [← BitVec.and_or_distrib_left, BitVec.or_not_self, BitVec.and_allOnes]
  rw [hx] at hsplit
  rw [discardStatus, hx]
  simpa using hsplit

theorem commitStatus_of_settled {x : BitVec 16} (hx : x &&& pendingBits = 0) :
    commitStatus x = x := by
  have hbit : ∀ m : BitVec 16, pendingBits &&& m = m → x &&& m = 0 := by
    intro m hm
    rw [← hm, ← BitVec.and_assoc, hx]
    simp
  simp [commitStatus, hbit cursSelfAdding (by decide), hbit cursSelfUpdating (by decide),
    hbit cursSelfDeleting (by decide)]

theorem and_bit_ne_zero (x : BitVec 16) {i : Nat} (hi : i < 16) :
    x &&& (1 : BitVec 16) <<< i ≠ 0 ↔ x.getLsbD i = true := by
  have hbit : (1 : BitVec 16) <<< i = BitVec.twoPow 16 i := rfl
  rw [hbit, BitVec.and_twoPow]
  by_cases h : x.getLsbD i = true
  · have hne : BitVec.twoPow 16 i ≠ 0 := fun h0 => by
      have := congrArg (·.getLsbD i) h0
      simp [hi] at this
    simpa [h] using hne
  · simp [h]

/-- A bit that is under way moves up three places. -/
theorem discardStatus_moves (x : BitVec 16) {i : Nat} (hi : i + 3 < 16)
    (hpending : pendingBits.getLsbD i = true) (h : x &&& (1 : BitVec 16) <<< i ≠ 0) :
    discardStatus x &&& (1 : BitVec 16) <<< (i + 3) ≠ 0 := by
  rw [and_bit_ne_zero x (by omega)] at h
  rw [and_bit_ne_zero _ hi, discardStatus]
  simp [h, hpending, hi]

theorem KeySet.discard_of_settled {k : KeySet} (h : k.Settled) : k.discard = k := by
  rw [KeySet.discard, discardStatus_of_settled h]

theorem KeySet.commit_of_settled {k : KeySet} (h : k.Settled) : k.commit = k := by
  rw [KeySet.commit, commitStatus_of_settled h]

theorem KeySet.discard_settled (k : KeySet) : k.discard.Settled := discardStatus_settled _

theorem KeySet.promoted_discard (k : KeySet) : Promoted k k.discard where
  settled := k.discard_settled
  added := discardStatus_moves _ (by decide) (by decide)
  deleted := discardStatus_moves _ (by decide) (by decide)
  updated := discardStatus_moves _ (by decide) (by decide)

theorem KeySet.Settled.promoted {k : KeySet} (h : k.Settled) : Promoted k k := by
  have hk := k.promoted_discard
  rwa [KeySet.discard_of_settled h] at hk

/-! ### What a commit leaves -/

/-- No change is under way, and nothing is in the undo log. -/
structure QResult.Clean (r : QResult) : Prop where
  keyset : ∀ k ∈ r.keyset, k.Settled
  added : ∀ k ∈ r.added_keyset, k.Settled
  updated : ∀ e ∈ r.updated, e.2.Settled
  deleted : ∀ e ∈ r.deleted, e.2.Settled
  rollback : r.rollback = []
  rb_alloc : r.rb_alloc = 0

/-- Every change that was under way is committed, in the keys and in the three lists. -/
structure QResult.Promotes (before after : QResult) : Prop where
  keyset : List.Forall₂ Promoted before.keyset after.keyset
  added : List.Forall₂ Promoted before.added_keyset after.added_keyset
  updated : List.Forall₂ (fun b a => b.1 = a.1 ∧ Promoted b.2 a.2) before.updated after.updated
  deleted : List.Forall₂ (fun b a => b.1 = a.1 ∧ Promoted b.2 a.2) before.deleted after.deleted

/-- The call writes no memory of others; outside a transaction nothing is under way after it; and a
commit has made every change that was under way a committed one. -/
def ChangeCall.Met (s : Session) (call : ChangeCall) : Prop :=
  ∃ after, call.run s = some after ∧ (after.in_trans = false → after.res.Clean) ∧
    ∀ survives, call = .commit survives → s.in_trans = true → s.res.Promotes after.res

/-! ### The condition -/

/-- The undo log has an entry for the row. -/
def QResult.Logged (r : QResult) (index : Int) : Prop := ∃ e ∈ r.rollback, e.index = index

/-- The undo log can take `n` more entries: ten doubled twelve times is the last allocation that
doubles within 16 bits. -/
def QResult.LogRoom (r : QResult) (n : Nat) : Prop := r.rollback.length + n ≤ 40960

/-- The last row, which is marked when a row is added. -/
def QResult.lastRow (r : QResult) : Int := (r.num_total_tuples : Int) - 1

/-- When an add within a transaction is committed in the end. -/
def RowAdded.Sound (r : QResult) : RowAdded → Prop
  | .refused | .loadFailed => True
  | .loaded _ info => r.cursor = false ∧ r.LogRoom 1 ∧ (r.reached_eof = true ∨ info = true)
  | .lost => r.hasKey r.lastRow = true → r.Logged r.lastRow

/-- When an update within a transaction is committed in the end. -/
def RowChange.UpdateSound (r : QResult) : RowChange → Prop
  | .refused | .one _ .failed | .zero .failed | .zero (.found _) => True
  | .one _ (.found _) => r.cursor = false ∧ r.LogRoom 1
  | .one _ .gone => r.LogRoom 2
  | .zero .gone => r.LogRoom 1

/-- When a delete within a transaction is committed in the end. -/
def RowChange.DeleteSound (r : QResult) (index : Int) : RowChange → Prop
  | .refused | .one _ .failed | .zero .failed | .zero (.found _) => True
  | .one _ _ => r.cursor = false ∧ r.LogRoom 1
  | .zero .gone => r.hasKey index = true → r.LogRoom 1

/-- The condition on a call, which looks at the session before it: within a transaction, rows are
changed in a result without a cursor, and the undo log has room; and no commit finds a log at a
cursor that goes on. -/
def ChangeCall.Sound (s : Session) : ChangeCall → Prop
  | .add begins added => (s.begin begins).in_trans = true → added.Sound s.res
  | .update begins index key change => (s.begin begins).in_trans = true →
      s.res.outOfRowset index key = false → change.UpdateSound s.res
  | .delete begins index key change => (s.begin begins).in_trans = true →
      s.res.outOfRowset index key = false → change.DeleteSound s.res index
  | .commit survives => s.in_trans = true →
      (s.res.cursor && s.res.withhold && survives) = true → s.res.rollback = []

/-! ### The invariant -/

/-- `n` entries in an allocation of `a`. -/
def LogAlloc (n a : Nat) : Prop :=
  n = 0 ∧ a = 0 ∨ 0 < n ∧ n ≤ a ∧ ∃ k ≤ 12, a = 10 * 2 ^ k

/-- The log knows every cached key whose change is under way, and the lists have none. -/
structure Session.Inv (s : Session) : Prop where
  keys : ∀ (i : Nat) (k : KeySet), s.res.keyset[i]? = some k →
    k.Settled ∨ s.res.Logged (s.res.key_start + i)
  added : ∀ k ∈ s.res.added_keyset, k.Settled
  updated : ∀ e ∈ s.res.updated, e.2.Settled
  deleted : ∀ e ∈ s.res.deleted, e.2.Settled
  log : s.res.rollback ≠ [] → s.in_trans = true ∧ s.result_uncommitted = true
  alloc : LogAlloc s.res.rollback.length s.res.rb_alloc

/-- What an operation leaves as it is, but for at most `n` entries in the log. -/
structure Session.Keeps (n : Nat) (s s' : Session) : Prop where
  in_trans : s'.in_trans = s.in_trans
  cursor : s'.res.cursor = s.res.cursor
  key_start : s'.res.key_start = s.res.key_start
  length : s'.res.rollback.length ≤ s.res.rollback.length + n
  logged : ∀ i, s.res.Logged i → s'.res.Logged i

/-- With an empty log, nothing is under way. -/
theorem Session.Inv.clean_of_empty {s : Session} (h : s.Inv) (hlog : s.res.rollback = []) :
    s.res.Clean := by
  refine ⟨fun k hk => ?_, h.added, h.updated, h.deleted, hlog, ?_⟩
  · obtain ⟨i, hi⟩ := List.getElem?_of_mem hk
    refine (h.keys i k hi).resolve_right ?_
    rintro ⟨e, he, -⟩
    rw [hlog] at he
    exact List.not_mem_nil he
  · have halloc := h.alloc
    rw [hlog] at halloc
    rcases halloc with ⟨-, ha⟩ | ⟨hpos, -⟩
    · exact ha
    · exact absurd hpos (by simp)

/-- Outside a transaction nothing is under way. -/
theorem Session.Inv.clean {s : Session} (h : s.Inv) (ht : s.in_trans = false) : s.res.Clean := by
  refine h.clean_of_empty ?_
  by_contra hne
  exact absurd (h.log hne).1 (by simp [ht])

theorem QResult.Clean.inv {s : Session} (h : s.res.Clean) : s.Inv where
  keys i k hk := .inl (h.keyset k (List.mem_of_getElem? hk))
  added := h.added
  updated := h.updated
  deleted := h.deleted
  log hne := absurd h.rollback hne
  alloc := .inl ⟨by rw [h.rollback]; rfl, h.rb_alloc⟩

theorem Session.Keeps.refl (s : Session) (n : Nat) : Session.Keeps n s s :=
  ⟨rfl, rfl, rfl, Nat.le_add_right _ _, fun _ h => h⟩

theorem Session.Keeps.trans {m n : Nat} {s t u : Session} (h : s.Keeps m t) (h' : t.Keeps n u) :
    s.Keeps (m + n) u where
  in_trans := h'.in_trans.trans h.in_trans
  cursor := h'.cursor.trans h.cursor
  key_start := h'.key_start.trans h.key_start
  length := by have := h.length; have := h'.length; omega
  logged i hi := h'.logged i (h.logged i hi)

/-! ### The steps -/

theorem hasKey_iff (r : QResult) (index : Int) :
    r.hasKey index = true ↔ r.key_start ≤ index ∧ index < r.key_start + r.keyset.length := by
  rw [QResult.hasKey, QResult.keyIndex]
  simp
  omega

theorem modifyKey_keyset (r : QResult) (index : Int) (f : KeySet → KeySet) (i : Nat) :
    (r.modifyKey index f).keyset[i]? =
      if r.key_start + (i : Int) = index then r.keyset[i]?.map f else r.keyset[i]? := by
  rw [QResult.modifyKey]
  by_cases hkey : r.hasKey index = true
  · rw [if_pos hkey]
    rw [hasKey_iff] at hkey
    rw [List.getElem?_modify]
    have hiff : (r.keyIndex index).toNat = i ↔ r.key_start + (i : Int) = index := by
      rw [QResult.keyIndex]
      omega
    by_cases hi : r.key_start + (i : Int) = index
    · rw [if_pos hi]
      simp [hiff.mpr hi]
    · rw [if_neg hi]
      simp [mt hiff.mp hi]
  · rw [if_neg hkey]
    split
    · next hi =>
      have hout : r.keyset.length ≤ i := by
        rw [hasKey_iff] at hkey
        omega
      rw [List.getElem?_eq_none hout]
      rfl
    · rfl

@[simp] theorem modifyKey_rollback (r : QResult) (index : Int) (f : KeySet → KeySet) :
    (r.modifyKey index f).rollback = r.rollback := by
  rw [QResult.modifyKey]; split <;> rfl

@[simp] theorem modifyKey_rb_alloc (r : QResult) (index : Int) (f : KeySet → KeySet) :
    (r.modifyKey index f).rb_alloc = r.rb_alloc := by
  rw [QResult.modifyKey]; split <;> rfl

@[simp] theorem modifyKey_key_start (r : QResult) (index : Int) (f : KeySet → KeySet) :
    (r.modifyKey index f).key_start = r.key_start := by
  rw [QResult.modifyKey]; split <;> rfl

@[simp] theorem modifyKey_cursor (r : QResult) (index : Int) (f : KeySet → KeySet) :
    (r.modifyKey index f).cursor = r.cursor := by
  rw [QResult.modifyKey]; split <;> rfl

@[simp] theorem modifyKey_added (r : QResult) (index : Int) (f : KeySet → KeySet) :
    (r.modifyKey index f).added_keyset = r.added_keyset := by
  rw [QResult.modifyKey]; split <;> rfl

@[simp] theorem modifyKey_updated (r : QResult) (index : Int) (f : KeySet → KeySet) :
    (r.modifyKey index f).updated = r.updated := by
  rw [QResult.modifyKey]; split <;> rfl

@[simp] theorem modifyKey_deleted (r : QResult) (index : Int) (f : KeySet → KeySet) :
    (r.modifyKey index f).deleted = r.deleted := by
  rw [QResult.modifyKey]; split <;> rfl

@[simp] theorem modifyKey_logged (r : QResult) (index : Int) (f : KeySet → KeySet) (i : Int) :
    (r.modifyKey index f).Logged i ↔ r.Logged i := by
  rw [QResult.Logged, modifyKey_rollback, QResult.Logged]

@[simp] theorem modifyKey_total (r : QResult) (index : Int) (f : KeySet → KeySet) :
    (r.modifyKey index f).num_total_tuples = r.num_total_tuples := by
  rw [QResult.modifyKey]; split <;> rfl

/-- The session with the key of a row changed. -/
def Session.modifyKey (s : Session) (index : Int) (f : KeySet → KeySet) : Session :=
  { s with res := s.res.modifyKey index f }

/-- A key is changed to a settled one, or to that of a row that is in the log. -/
theorem Session.Inv.modifyKey {s : Session} (h : s.Inv) {index : Int} {f : KeySet → KeySet}
    (hf : ∀ k : KeySet, (k.Settled → (f k).Settled) ∨ s.res.Logged index) :
    (s.modifyKey index f).Inv where
  keys i k' hk' := by
    simp only [Session.modifyKey, modifyKey_keyset, modifyKey_logged, modifyKey_key_start] at hk' ⊢
    split at hk'
    · next hi =>
      obtain ⟨k, hk, rfl⟩ := Option.map_eq_some_iff.mp hk'
      rcases hf k with hset | hlog
      · exact (h.keys i k hk).imp_left hset
      · exact .inr (hi ▸ hlog)
    · exact h.keys i k' hk'
  added := by simpa [Session.modifyKey] using h.added
  updated := by simpa [Session.modifyKey] using h.updated
  deleted := by simpa [Session.modifyKey] using h.deleted
  log := by simpa [Session.modifyKey] using h.log
  alloc := by simpa [Session.modifyKey] using h.alloc

theorem Session.keeps_modifyKey (s : Session) (index : Int) (f : KeySet → KeySet) (n : Nat) :
    s.Keeps n (s.modifyKey index f) :=
  ⟨rfl, modifyKey_cursor .., modifyKey_key_start .., by simp [Session.modifyKey],
    fun _ h => (modifyKey_logged ..).mpr h⟩

theorem LogAlloc.next {n a : Nat} (h : LogAlloc n a) (hn : n + 1 ≤ 40960) :
    LogAlloc (n + 1) (if a = 0 then 10 else if a ≤ n then 2 * a % 2 ^ 16 else a) := by
  right
  rcases h with ⟨rfl, rfl⟩ | ⟨hpos, hle, k, hk, rfl⟩
  · exact ⟨by simp, by simp, 0, by simp⟩
  · have hne : 10 * 2 ^ k ≠ 0 := by positivity
    rw [if_neg hne]
    by_cases hfull : 10 * 2 ^ k ≤ n
    · rw [if_pos hfull]
      -- the allocation is full, and is not the last one
      have hk12 : k ≠ 12 := by
        rintro rfl
        omega
      have hpow : 2 ^ (k + 1) ≤ 2 ^ 12 := Nat.pow_le_pow_right (by simp) (by omega)
      have hdouble : 2 * (10 * 2 ^ k) = 10 * 2 ^ (k + 1) := by rw [pow_succ]; ring
      rw [hdouble, Nat.mod_eq_of_lt (by omega)]
      exact ⟨by omega, by omega, k + 1, by omega, rfl⟩
    · rw [if_neg hfull]
      exact ⟨by omega, by omega, k, hk, rfl⟩

/-- An entry that the log has room for is added, within a transaction, and nothing else changes. -/
theorem AddRollback_inv {s : Session} (h : s.Inv) (index : Int) (tid : Tid) (code : DmlCode)
    (hroom : s.in_trans = true → s.res.LogRoom 1) :
    ∃ s', AddRollback s index tid code = some s' ∧ s'.Inv ∧ s.Keeps 1 s' ∧
      (s.in_trans = true → s'.res.Logged index) ∧
      s'.res = { s.res with rollback := s'.res.rollback, rb_alloc := s'.res.rb_alloc } := by
  rcases Bool.eq_false_or_eq_true s.in_trans with ht | ht
  · have hnext := h.alloc.next (hroom ht)
    generalize halloc : (if s.res.rb_alloc = 0 then 10
      else if s.res.rb_alloc ≤ s.res.rollback.length then 2 * s.res.rb_alloc % 2 ^ 16
      else s.res.rb_alloc) = alloc at hnext
    have hfits : ¬ alloc ≤ s.res.rollback.length := by
      rcases hnext with ⟨h0, -⟩ | ⟨-, hle, -⟩ <;> omega
    have hrun : AddRollback s index tid code = some { s with
        result_uncommitted := true
        res := { s.res with
          rollback := s.res.rollback ++ [⟨index, tid, code⟩]
          rb_alloc := alloc } } := by
      simp only [AddRollback, ht, halloc, Bool.not_true, Bool.false_eq_true, if_false, if_neg hfits]
    have hkept : ∀ i, s.res.Logged i →
        ∃ e ∈ s.res.rollback ++ [⟨index, tid, code⟩], Rollback.index e = i :=
      fun i ⟨e, he, hi⟩ => ⟨e, List.mem_append_left _ he, hi⟩
    refine ⟨_, hrun, ⟨fun i k hk => (h.keys i k hk).imp_right (hkept _), h.added, h.updated,
      h.deleted, fun _ => ⟨ht, rfl⟩, by simpa using hnext⟩,
      ⟨rfl, rfl, rfl, by simp, hkept⟩, fun _ => ?_, rfl⟩
    exact ⟨⟨index, tid, code⟩, List.mem_append_right _ (List.mem_singleton.mpr rfl), rfl⟩
  · exact ⟨s, by simp [AddRollback, ht], h, Session.Keeps.refl s 1, by simp [ht], rfl⟩

/-- Outside a transaction, or without a cursor, the list gets no change that is under way. -/
theorem AddUpdated_inv {s : Session} (h : s.Inv) (index : Int) (key : KeySet)
    (hcursor : s.in_trans = true → s.res.cursor = false) :
    (AddUpdated s index key).Inv ∧ s.Keeps 0 (AddUpdated s index key) := by
  rw [AddUpdated]
  cases hc : s.res.cursor with
  | false => exact ⟨by simpa using h, by simpa using Session.Keeps.refl s 0⟩
  | true =>
    have ht : s.in_trans = false := by
      cases ht : s.in_trans with
      | false => rfl
      | true => exact absurd (hcursor ht) (by simp [hc])
    have hset : KeySet.Settled { key with status := updatedStatus false key.status } :=
      updatedStatus_settled _
    simp only [ht, Bool.not_true, Bool.false_eq_true, if_false, Bool.or_false]
    split
    · next i _ =>
      refine ⟨⟨h.keys, h.added, fun e he => ?_, h.deleted, by simpa [ht] using h.log, h.alloc⟩,
        ⟨ht.symm, rfl, rfl, Nat.le_refl _, fun _ h => h⟩⟩
      obtain ⟨j, hj⟩ := List.getElem?_of_mem he
      rw [List.getElem?_modify] at hj
      obtain ⟨e', he', rfl⟩ := Option.map_eq_some_iff.mp hj
      split
      · exact updatedStatus_settled _
      · exact h.updated e' (List.mem_of_getElem? he')
    · split
      · refine ⟨⟨h.keys, fun k hk => ?_, h.updated, h.deleted, by simpa [ht] using h.log, h.alloc⟩,
          ⟨ht.symm, rfl, rfl, Nat.le_refl _, fun _ h => h⟩⟩
        obtain ⟨j, hj⟩ := List.getElem?_of_mem hk
        rw [List.getElem?_modify] at hj
        obtain ⟨k', hk', rfl⟩ := Option.map_eq_some_iff.mp hj
        split
        · exact updatedStatus_settled _
        · exact h.added k' (List.mem_of_getElem? hk')
      · refine ⟨⟨h.keys, h.added, fun e he => ?_, h.deleted, by simpa [ht] using h.log, h.alloc⟩,
          ⟨ht.symm, rfl, rfl, Nat.le_refl _, fun _ h => h⟩⟩
        rcases List.mem_append.mp he with he | he
        · exact h.updated e he
        · rw [List.mem_singleton.mp he]
          exact hset

/-- Outside a transaction, or without a cursor, the list gets no change that is under way. -/
theorem AddDeleted_inv {s : Session} (h : s.Inv) (index : Int) (key : KeySet)
    (hcursor : s.in_trans = true → s.res.cursor = false) :
    (AddDeleted s index key).Inv ∧ s.Keeps 0 (AddDeleted s index key) := by
  rw [AddDeleted]
  cases hc : s.res.cursor with
  | false => exact ⟨by simpa using h, by simpa using Session.Keeps.refl s 0⟩
  | true =>
    have ht : s.in_trans = false := by
      cases ht : s.in_trans with
      | false => rfl
      | true => exact absurd (hcursor ht) (by simp [hc])
    simp only [ht, Bool.not_true, Bool.false_eq_true, if_false, Bool.or_false]
    refine ⟨⟨h.keys, h.added, h.updated, fun e he => ?_, by simpa [ht] using h.log, h.alloc⟩,
      ⟨ht.symm, rfl, rfl, Nat.le_refl _, fun _ h => h⟩⟩
    rcases List.mem_append.mp he with he | he
    · exact h.deleted e ((List.takeWhile_subset _) he)
    · rcases List.mem_cons.mp he with rfl | he
      · exact deletedStatus_settled _
      · exact h.deleted e ((List.dropWhile_subset _) he)

/-! ### The operations -/

/-- When a row that is loaded again is logged, and put in a list. -/
def Reload.Sound (s : Session) (logKind : DmlCode) : Reload → Prop
  | .failed => True
  | .found _ => match logKind with
    | .none => True
    | .update => s.in_trans = true → s.res.cursor = false
    | _ => s.in_trans = true → s.res.LogRoom 1
  | .gone => s.in_trans = true → s.res.LogRoom 1

theorem SC_pos_reload_inv {s : Session} (h : s.Inv) (index : Int) (logKind : DmlCode)
    (key : Option KeySet) (reload : Reload) (hsound : reload.Sound s logKind) :
    ∃ s' ret, SC_pos_reload_with_key s index logKind key reload = some (s', ret) ∧ s'.Inv ∧
      s.Keeps 1 s' ∧ (reload = .failed → ret = .error) ∧
      (∀ tid, reload = .found tid → logKind = .update → s.Keeps 0 s') ∧
      (logKind = .delete → ret ≠ .error → s.in_trans = true → s'.res.Logged index) := by
  rw [SC_pos_reload_with_key]
  by_cases hout : s.res.outOfRowset index key = true
  · exact ⟨s, .error, by simp [hout], h, Session.Keeps.refl s 1, fun _ => rfl,
      fun _ _ _ => Session.Keeps.refl s 0, fun _ hret => absurd rfl hret⟩
  rw [if_neg hout]
  generalize (key <|> s.res.keyAt index).getD KeySet.zero = logged
  cases reload with
  | failed =>
    exact ⟨s, .error, rfl, h, Session.Keeps.refl s 1, fun _ => rfl, fun _ => by simp,
      fun _ hret => absurd rfl hret⟩
  | gone =>
    obtain ⟨s', hrun, hinv, hkeeps, hlog, -⟩ := AddRollback_inv h index logged.tid logKind hsound
    refine ⟨s'.modifyKey index fun k => { k with status := k.status ||| sqlRowDeleted },
      .successWithInfo, by simp [hrun, Session.modifyKey], ?_, ?_, by simp, fun _ => by simp,
      fun _ _ ht => (modifyKey_logged ..).mpr (hlog ht)⟩
    · exact hinv.modifyKey fun k => .inl fun hk => or_settled hk (by decide)
    · exact hkeeps.trans (s'.keeps_modifyKey index _ 0)
  | found tid =>
    -- the entry of the log or of a list comes first, then the key of the row
    have hentry : ∃ s', logReload s index logKind logged = some s' ∧ s'.Inv ∧ s.Keeps 1 s' ∧
        (logKind = .update → s.Keeps 0 s') ∧
        (logKind = .delete → s.in_trans = true → s'.res.Logged index) := by
      cases logKind with
      | none => exact ⟨s, rfl, h, Session.Keeps.refl s 1, by simp, by simp⟩
      | update =>
        obtain ⟨hinv, hkeeps⟩ := AddUpdated_inv h index logged hsound
        exact ⟨_, rfl, hinv, hkeeps.trans (Session.Keeps.refl _ 1), fun _ => hkeeps, by simp⟩
      | add =>
        obtain ⟨s', hrun, hinv, hkeeps, -⟩ := AddRollback_inv h index logged.tid .add hsound
        exact ⟨s', hrun, hinv, hkeeps, by simp, by simp⟩
      | delete =>
        obtain ⟨s', hrun, hinv, hkeeps, hlog, -⟩ :=
          AddRollback_inv h index logged.tid .delete hsound
        exact ⟨s', hrun, hinv, hkeeps, by simp, fun _ => hlog⟩
    obtain ⟨s', hrun, hinv, hkeeps, hupdate, hlog⟩ := hentry
    by_cases hrow : s'.res.hasRow index = true
    · refine ⟨s'.modifyKey index fun k =>
          { k with status := k.status ||| sqlRowUpdated }.setTid tid, .success,
        by simp [hrun, hrow, Session.modifyKey], ?_, ?_, by simp,
        fun _ _ hk => (hupdate hk).trans (s'.keeps_modifyKey index _ 0),
        fun hk _ ht => (modifyKey_logged ..).mpr (hlog hk ht)⟩
      · exact hinv.modifyKey fun k => .inl fun hk => or_settled hk (by decide)
      · exact hkeeps.trans (s'.keeps_modifyKey index _ 0)
    · exact ⟨s', .success, by simp [hrun, hrow], hinv, hkeeps, by simp, fun _ _ => hupdate,
        fun hk _ => hlog hk⟩

theorem irow_update_inv {s : Session} (h : s.Inv) (index : Int) (old : Tid) {change : RowChange}
    (hsound : s.in_trans = true → change.UpdateSound s.res) :
    ∃ s' ret, irow_update s index old change = some (s', ret) ∧ s'.Inv ∧
      (ret = .success → s'.in_trans = true → s'.res.Logged index) := by
  cases change with
  | refused => exact ⟨s, .error, rfl, h, by simp⟩
  | zero reload =>
    have hreload : reload.Sound s .none := by
      cases reload with
      | failed => trivial
      | found _ => trivial
      | gone => exact hsound
    obtain ⟨s', ret, hrun, hinv, -⟩ := SC_pos_reload_inv h index .none none reload hreload
    exact ⟨s', .error, by simp [irow_update, hrun], hinv, by simp⟩
  | one tid reload =>
    have hreload : reload.Sound s .update := by
      cases reload with
      | failed => trivial
      | found _ => exact fun ht => (hsound ht).1
      | gone =>
        intro ht
        have hroom : s.res.LogRoom 2 := hsound ht
        rw [QResult.LogRoom] at hroom ⊢
        omega
    obtain ⟨s', ret, hrun, hinv, hkeeps, hfailed, hfound, -⟩ :=
      SC_pos_reload_inv h index .update (some (KeySet.zero.setTid tid)) reload hreload
    by_cases hret : ret = .error
    · exact ⟨s', ret, by simp [irow_update, hrun, hret], hinv, by simp [hret]⟩
    have hroom : s'.in_trans = true → s'.res.LogRoom 1 := by
      intro ht
      rw [hkeeps.in_trans] at ht
      have hs := hsound ht
      rw [QResult.LogRoom]
      cases reload with
      | failed => exact absurd (hfailed rfl) hret
      | found tid' =>
        have hlen := (hfound tid' rfl rfl).length
        have hroom : s.res.LogRoom 1 := hs.2
        rw [QResult.LogRoom] at hroom
        omega
      | gone =>
        have hlen := hkeeps.length
        have hroom : s.res.LogRoom 2 := hs
        rw [QResult.LogRoom] at hroom
        omega
    obtain ⟨s'', hrun', hinv', hkeeps', hlog, -⟩ := AddRollback_inv hinv index old .update hroom
    refine ⟨s'', ret, by simp [irow_update, hrun, hret, hrun'], hinv', fun _ ht => hlog ?_⟩
    rwa [hkeeps'.in_trans] at ht

/-- The status of a changed row is settled, or the row is in the log. -/
theorem Session.Inv.mark {s : Session} (h : s.Inv) {index : Int} {f : BitVec 16 → BitVec 16}
    (hlog : s.in_trans = true → s.res.Logged index)
    (hf : s.in_trans = false → ∀ x, x &&& pendingBits = 0 → f x &&& pendingBits = 0) :
    (s.modifyKey index fun k => { k with status := f k.status }).Inv := by
  refine h.modifyKey fun k => ?_
  rcases Bool.eq_false_or_eq_true s.in_trans with ht | ht
  · exact .inr (hlog ht)
  · exact .inl (hf ht k.status)

theorem SC_pos_update_inv {s : Session} (h : s.Inv) (index : Int) (key : Option KeySet)
    {change : RowChange}
    (hsound : s.in_trans = true → s.res.outOfRowset index key = false → change.UpdateSound s.res) :
    ∃ s', SC_pos_update s index key change = some s' ∧ s'.Inv := by
  rw [SC_pos_update]
  by_cases hout : s.res.outOfRowset index key = true
  · exact ⟨s, by simp [hout], h⟩
  rw [if_neg hout]
  generalize ((s.res.keyAt index <|> key).getD KeySet.zero).tid = old
  obtain ⟨s', ret, hrun, hinv, hlog⟩ :=
    irow_update_inv h index old fun ht => hsound ht (by simpa using hout)
  by_cases hret : ret = .success
  · refine ⟨s'.modifyKey index fun k => { k with
        status := k.status ||| (sqlRowUpdated |||
          (if s'.in_trans then cursSelfUpdating else cursSelfUpdated)) },
      by simp [hrun, hret, Session.modifyKey], hinv.mark (f := fun x => x ||| (sqlRowUpdated |||
        (if s'.in_trans then cursSelfUpdating else cursSelfUpdated))) (hlog hret) fun ht x hx => ?_⟩
    simp only [ht]
    exact or_settled hx (by decide)
  · exact ⟨s', by simp [hrun, hret], hinv⟩

/-- The row is deleted, and is in the log when that is within a transaction. -/
theorem markDeleted_inv {s : Session} (h : s.Inv) (index : Int) (key : Option KeySet)
    (hlog : s.in_trans = true → s.res.Logged index)
    (hcursor : s.in_trans = true → s.res.cursor = false) : (markDeleted s index key).Inv := by
  have hlist : ∃ s', (s.res.keyAt index <|> key).elim s (AddDeleted s index) = s' ∧ s'.Inv ∧ s.Keeps 0 s' := by
    cases s.res.keyAt index <|> key with
    | none => exact ⟨s, rfl, h, Session.Keeps.refl s 0⟩
    | some key => exact ⟨_, rfl, AddDeleted_inv h index key hcursor⟩
  obtain ⟨s', hrun, hinv, hkeeps⟩ := hlist
  have hmark : markDeleted s index key = s'.modifyKey index fun k => { k with
      status := k.status &&& ~~~keysetInfoPublic ||| (sqlRowDeleted |||
        (if s'.in_trans then cursSelfDeleting else cursSelfDeleted)) } := by
    rw [← hrun, markDeleted]
    cases s.res.keyAt index <|> key <;> rfl
  rw [hmark]
  refine hinv.mark (f := fun x => x &&& ~~~keysetInfoPublic ||| (sqlRowDeleted |||
    (if s'.in_trans then cursSelfDeleting else cursSelfDeleted)))
    (fun ht => hkeeps.logged _ (hlog (hkeeps.in_trans ▸ ht))) fun ht x hx => ?_
  simp only [ht]
  exact or_settled (and_settled _ hx) (by decide)

theorem SC_pos_delete_inv {s : Session} (h : s.Inv) (index : Int) (key : Option KeySet)
    {change : RowChange}
    (hsound : s.in_trans = true → s.res.outOfRowset index key = false →
      change.DeleteSound s.res index) :
    ∃ s', SC_pos_delete s index key change = some s' ∧ s'.Inv := by
  unfold SC_pos_delete
  by_cases hout : s.res.outOfRowset index key = true
  · exact ⟨s, by simp [hout], h⟩
  rw [if_neg hout]
  have hs : s.in_trans = true → change.DeleteSound s.res index :=
    fun ht => hsound ht (by simpa using hout)
  cases change with
  | refused => exact ⟨s, rfl, h⟩
  | zero reload =>
    by_cases hkey : s.res.hasKey index = true
    · have hreload : reload.Sound s .none := by
        cases reload with
        | failed => trivial
        | found _ => trivial
        | gone => exact fun ht => hs ht hkey
      obtain ⟨s', ret, hrun, hinv, -⟩ := SC_pos_reload_inv h index .none none reload hreload
      exact ⟨s', by simp [hkey, hrun], hinv⟩
    · exact ⟨s, by simp [hkey], h⟩
  | one tid reload =>
    have hreload : reload.Sound s .delete := by
      cases reload with
      | failed => trivial
      | found _ => exact fun ht => (hs ht).2
      | gone => exact fun ht => (hs ht).2
    simp only
    generalize (s.res.keyAt index <|> key) = old
    obtain ⟨s', ret, hrun, hinv, hkeeps, hfailed, -, hlog⟩ :=
      SC_pos_reload_inv h index .delete old reload hreload
    by_cases hret : ret = .error
    · exact ⟨s', by simp [hrun, hret], hinv⟩
    refine ⟨markDeleted s' index key, by simp [hrun, hret], markDeleted_inv hinv index key
      (fun ht => hlog rfl hret (hkeeps.in_trans ▸ ht)) fun ht => ?_⟩
    rw [hkeeps.cursor]
    rw [hkeeps.in_trans] at ht
    cases reload with
    | failed => exact absurd (hfailed rfl) hret
    | found _ => exact (hs ht).1
    | gone => exact (hs ht).1

/-- Without a cursor, or outside a transaction, the list gets no change that is under way. -/
theorem AddAdded_inv {s : Session} (h : s.Inv) (index : Int) (tid : Tid)
    (hroom : s.in_trans = true → s.res.LogRoom 1)
    (hcursor : s.in_trans = true → s.res.cursor = false) :
    ∃ s', AddAdded s index tid = some s' ∧ s'.Inv ∧ s'.in_trans = s.in_trans ∧
      (s.in_trans = true → s'.res.Logged index) ∧
      s'.res.reached_eof = s.res.reached_eof ∧
      s'.res.num_total_read = s.res.num_total_read ∧ s'.res.ad_count = s.res.ad_count + 1 := by
  have hcount : Session.Inv { s with res := { s.res with ad_count := s.res.ad_count + 1 } } :=
    ⟨h.keys, h.added, h.updated, h.deleted, h.log, h.alloc⟩
  obtain ⟨s', hrun, hinv, hkeeps, hlog, hframe⟩ := AddRollback_inv hcount
    (if s.res.cursor then -((s.res.ad_count + 1 : Nat) : Int) else index) tid .add hroom
  have hstep : AddAdded s index tid = some (if s'.res.cursor then
      { s' with res := { s'.res with added_keyset := s'.res.added_keyset ++
        [{ KeySet.zero.setTid tid with
          status := sqlRowAdded ||| (if s.in_trans then cursSelfAdding else cursSelfAdded) }] } }
      else s') := by
    unfold AddAdded
    dsimp only
    rw [hrun, Option.bind_eq_bind, Option.bind_some]
    by_cases hcur : s'.res.cursor = true
    · rw [if_pos hcur, if_pos hcur]
      rfl
    · rw [if_neg hcur, if_neg hcur]
      rfl
  cases hc : s.res.cursor with
  | false =>
    rw [hc] at hlog
    have hcur : s'.res.cursor = false := hkeeps.cursor.trans hc
    refine ⟨s', ?_, hinv, hkeeps.in_trans, hlog, ?_⟩
    · simp [hstep, hcur]
    · rw [hframe]
      exact ⟨rfl, rfl, rfl⟩
  | true =>
    have ht : s.in_trans = false := by
      cases ht : s.in_trans with
      | false => rfl
      | true => exact absurd (hcursor ht) (by simp [hc])
    have hcur : s'.res.cursor = true := hkeeps.cursor.trans hc
    refine ⟨{ s' with res := { s'.res with added_keyset := s'.res.added_keyset ++
        [{ KeySet.zero.setTid tid with status := sqlRowAdded ||| cursSelfAdded }] } },
      ?_, ⟨hinv.keys, fun k hk => ?_, hinv.updated, hinv.deleted, hinv.log, hinv.alloc⟩,
      hkeeps.in_trans, by simp [ht], ?_⟩
    · simp [hstep, hcur, ht]
    · rcases List.mem_append.mp hk with hk | hk
      · exact hinv.added k hk
      · rw [List.mem_singleton.mp hk]
        exact (by decide : (sqlRowAdded ||| cursSelfAdded) &&& pendingBits = 0)
    · rw [hframe]
      exact ⟨rfl, rfl, rfl⟩

/-- A key that is appended is settled. -/
theorem Session.Inv.append {s : Session} (h : s.Inv) :
    Session.Inv { s with res := { s.res with keyset := s.res.keyset ++ [KeySet.zero] } } where
  keys i k hk := by
    change (s.res.keyset ++ [KeySet.zero])[i]? = some k at hk
    rw [List.getElem?_append] at hk
    split at hk
    · exact h.keys i k hk
    · left
      rw [List.mem_singleton.mp (List.mem_of_getElem? hk)]
      decide
  added := h.added
  updated := h.updated
  deleted := h.deleted
  log := h.log
  alloc := h.alloc

theorem SC_pos_newload_inv {s : Session} (h : s.Inv) (tid : Tid)
    (hroom : s.in_trans = true → s.res.LogRoom 1)
    (hcursor : s.in_trans = true → s.res.cursor = false) :
    ∃ s', SC_pos_newload s tid = some s' ∧ s'.Inv ∧ s'.in_trans = s.in_trans ∧
      (s.in_trans = true → s.res.reached_eof = true → s'.res.Logged s'.res.lastRow) := by
  obtain ⟨s', hrun, hinv, ht, hlog, heof, hread, hcount⟩ :=
    AddAdded_inv h s.res.num_total_tuples tid hroom hcursor
  have hlast : s.res.reached_eof = true → s'.res.lastRow = s.res.num_total_tuples := by
    intro heof'
    rw [QResult.lastRow, QResult.num_total_tuples, QResult.num_total_tuples, heof, hread, hcount,
      if_pos heof', if_pos heof']
    push_cast
    ring
  simp only [SC_pos_newload, hrun, Option.bind_eq_bind, Option.bind_some]
  split
  · refine ⟨_, rfl, hinv.append.modifyKey (f := fun _ => KeySet.zero.setTid tid) fun k => .inl
      fun _ => (by decide : (0 : BitVec 16) &&& pendingBits = 0), ht, fun hin heof' => ?_⟩
    refine (modifyKey_logged ..).mpr ?_
    have hrow := hlog hin
    rw [← hlast heof'] at hrow
    rw [QResult.lastRow, modifyKey_total]
    exact hrow
  · exact ⟨s', rfl, hinv, ht, fun hin heof' => hlast heof' ▸ hlog hin⟩

/-- The mark of an added row goes to the last row, which must be in the log by then. -/
theorem markAdded_inv {s : Session} (h : s.Inv)
    (hlog : s.in_trans = true → s.res.hasKey s.res.lastRow = true → s.res.Logged s.res.lastRow) :
    (markAdded s).Inv := by
  by_cases hkey : s.res.hasKey s.res.lastRow = true
  · refine h.modifyKey fun k => ?_
    rcases Bool.eq_false_or_eq_true s.in_trans with ht | ht
    · exact .inr (hlog ht hkey)
    · left
      intro _
      rw [ht]
      exact (by decide : (sqlRowAdded ||| cursSelfAdded) &&& pendingBits = 0)
  · have hsame : markAdded s = s := by
      change { s with res := s.res.modifyKey s.res.lastRow _ } = s
      rw [QResult.modifyKey, if_neg hkey]
    rw [hsame]
    exact h

theorem SC_pos_add_inv {s : Session} (h : s.Inv) {added : RowAdded}
    (hsound : s.in_trans = true → added.Sound s.res) :
    ∃ s', SC_pos_add s added = some s' ∧ s'.Inv := by
  cases added with
  | refused => exact ⟨s, rfl, h⟩
  | loadFailed => exact ⟨s, rfl, h⟩
  | lost => exact ⟨_, rfl, markAdded_inv h hsound⟩
  | loaded tid info =>
    obtain ⟨s', hrun, hinv, ht, hlog⟩ :=
      SC_pos_newload_inv h tid (fun ht => (hsound ht).2.1) fun ht => (hsound ht).1
    cases info with
    | true => exact ⟨s', by simp [SC_pos_add, hrun], hinv⟩
    | false =>
      refine ⟨markAdded s', by simp [SC_pos_add, hrun], markAdded_inv hinv fun hin _ => ?_⟩
      rw [ht] at hin
      exact hlog hin ((hsound hin).2.2.resolve_right (by simp))

/-! ### The commit -/

/-- The keys that the entries of a log name are promoted, and no others. -/
theorem discard_keyset (log : List Rollback) (r : QResult) (i : Nat) :
    (log.foldl discardEntry r).key_start = r.key_start ∧
      (log.foldl discardEntry r).keyset[i]? = r.keyset[i]?.map fun k =>
        if log.any (fun e => decide (r.key_start + (i : Int) = e.index)) then k.discard else k := by
  induction log generalizing r with
  | nil => simp
  | cons e log ih =>
    rw [List.foldl_cons]
    obtain ⟨hstart, hkey⟩ := ih (discardEntry r e)
    have hone : (discardEntry r e).keyset[i]? = r.keyset[i]?.map fun k =>
        if r.key_start + (i : Int) = e.index then k.discard else k := by
      rw [discardEntry]
      split
      · rw [modifyKey_keyset]
        split <;> simp
      · have hne : ¬ r.key_start + (i : Int) = e.index := by omega
        simp [hne]
    have hbase : (discardEntry r e).key_start = r.key_start := by
      rw [discardEntry]
      split
      · exact modifyKey_key_start ..
      · rfl
    refine ⟨hstart.trans hbase, ?_⟩
    rw [hkey, hone, hbase, Option.map_map]
    congr 1
    funext k
    -- a key that is promoted already stays as it is
    have htwice : k.discard.discard = k.discard := KeySet.discard_of_settled k.discard_settled
    simp only [Function.comp, List.any_cons, Bool.or_eq_true, decide_eq_true_eq]
    split <;> split <;> simp_all

theorem discard_lists (log : List Rollback) (r : QResult) :
    (log.foldl discardEntry r).added_keyset = r.added_keyset ∧
      (log.foldl discardEntry r).updated = r.updated ∧
      (log.foldl discardEntry r).deleted = r.deleted := by
  induction log generalizing r with
  | nil => exact ⟨rfl, rfl, rfl⟩
  | cons e log ih =>
    rw [List.foldl_cons]
    obtain ⟨hadded, hupdated, hdeleted⟩ := ih (discardEntry r e)
    rw [hadded, hupdated, hdeleted, discardEntry]
    split <;> simp

theorem QResult.Clean.promotes {r : QResult} (h : r.Clean) : r.Promotes r where
  keyset := List.forall₂_same.mpr fun k hk => (h.keyset k hk).promoted
  added := List.forall₂_same.mpr fun k hk => (h.added k hk).promoted
  updated := List.forall₂_same.mpr fun e he => ⟨rfl, (h.updated e he).promoted⟩
  deleted := List.forall₂_same.mpr fun e he => ⟨rfl, (h.deleted e he).promoted⟩

/-- The lists of a result in which nothing is under way stay as they are. -/
theorem QResult.Clean.discard {r : QResult} (h : r.Clean) : DiscardRollback r = r := by
  have hadded : r.added_keyset.map KeySet.commit = r.added_keyset := by
    conv_rhs => rw [← List.map_id r.added_keyset]
    exact List.map_congr_left fun k hk => KeySet.commit_of_settled (h.added k hk)
  have hlist : ∀ l : List (Int × KeySet), (∀ e ∈ l, e.2.Settled) →
      l.map (fun e => (e.1, e.2.commit)) = l := by
    intro l hl
    conv_rhs => rw [← List.map_id l]
    exact List.map_congr_left fun e he => by rw [KeySet.commit_of_settled (hl e he)]; rfl
  have hempty : r.rollback.isEmpty = true := by
    rw [h.rollback]
    rfl
  rw [DiscardRollback, CommitDeleted, CommitUpdated, CommitAdded, hadded,
    hlist r.updated h.updated, hlist r.deleted h.deleted, if_pos hempty, ite_self]

/-- A commit promotes what the log knows of, in a result without a cursor. -/
theorem Session.Inv.discard {s : Session} (h : s.Inv) (hlog : s.res.rollback ≠ []) (r : QResult)
    (hr : r = { s.res with cursor := false }) :
    (DiscardRollback r).Clean ∧ s.res.Promotes (DiscardRollback r) := by
  have hrun : DiscardRollback r =
      { r.rollback.foldl discardEntry r with rollback := [], rb_alloc := 0 } := by
    subst hr
    simp [DiscardRollback, hlog]
  obtain ⟨hadded, hupdated, hdeleted⟩ := discard_lists r.rollback r
  have hkeys : (r.rollback.foldl discardEntry r).keyset = s.res.keyset.map KeySet.discard := by
    apply List.ext_getElem?
    intro i
    rw [(discard_keyset r.rollback r i).2, List.getElem?_map]
    subst hr
    cases hk : s.res.keyset[i]? with
    | none => rfl
    | some k =>
      simp only [Option.map_some, Option.some.injEq]
      split
      · rfl
      · next hnot =>
        -- the log does not know of the key, so that no change of it is under way
        refine (KeySet.discard_of_settled ((h.keys i k hk).resolve_right ?_)).symm
        rintro ⟨e, he, hindex⟩
        exact hnot (List.any_eq_true.mpr ⟨e, he, by simp [hindex]⟩)
  rw [hrun]
  subst hr
  constructor
  · refine ⟨fun k hk => ?_, ?_, ?_, ?_, rfl, rfl⟩
    · change k ∈ (List.foldl discardEntry _ _).keyset at hk
      rw [hkeys] at hk
      obtain ⟨k', -, rfl⟩ := List.mem_map.mp hk
      exact k'.discard_settled
    · exact hadded ▸ h.added
    · exact hupdated ▸ h.updated
    · exact hdeleted ▸ h.deleted
  · refine ⟨?_, ?_, ?_, ?_⟩
    · change List.Forall₂ Promoted _ (List.foldl discardEntry _ _).keyset
      rw [hkeys, List.forall₂_map_right_iff]
      exact List.forall₂_same.mpr fun k _ => k.promoted_discard
    · change List.Forall₂ _ _ (List.foldl discardEntry _ _).added_keyset
      rw [hadded]
      exact List.forall₂_same.mpr fun k hk => (h.added k hk).promoted
    · change List.Forall₂ _ _ (List.foldl discardEntry _ _).updated
      rw [hupdated]
      exact List.forall₂_same.mpr fun e he => ⟨rfl, (h.updated e he).promoted⟩
    · change List.Forall₂ _ _ (List.foldl discardEntry _ _).deleted
      rw [hdeleted]
      exact List.forall₂_same.mpr fun e he => ⟨rfl, (h.deleted e he).promoted⟩

/-- The commit of a transaction. -/
theorem CC_on_commit_clean {s : Session} (h : s.Inv) (survives : Bool)
    (hsound : (s.res.cursor && s.res.withhold && survives) = true → s.res.rollback = []) :
    (CC_on_commit survives s).res.Clean ∧ s.res.Promotes (CC_on_commit survives s).res := by
  rw [CC_on_commit]
  by_cases hlog : s.res.rollback = []
  · have hclean := h.clean_of_empty hlog
    have hclean' : QResult.Clean
        { s.res with cursor := s.res.cursor && s.res.withhold && survives } :=
      ⟨hclean.keyset, hclean.added, hclean.updated, hclean.deleted, hclean.rollback,
        hclean.rb_alloc⟩
    have hpromotes := hclean.promotes
    simp only [hclean'.discard, ite_self]
    exact ⟨hclean', hpromotes.keyset, hpromotes.added, hpromotes.updated, hpromotes.deleted⟩
  · have hcursor : (s.res.cursor && s.res.withhold && survives) = false := by
      simpa using mt hsound hlog
    simp only [(h.log hlog).2, if_true, hcursor]
    exact h.discard hlog _ rfl

/-! ### Runs -/

/-- The calls, on a session. -/
def changeMachine : Machine Session ChangeCall Unit where
  step s call := ((call.run s).getD s, ())

theorem Session.Inv.begin {s : Session} (h : s.Inv) (begins : Bool) : (s.begin begins).Inv :=
  ⟨h.keys, h.added, h.updated, h.deleted,
    fun hne => ⟨by simp [Session.begin, (h.log hne).1], (h.log hne).2⟩, h.alloc⟩

/-- One call, by its kind. -/
theorem ChangeCall.step {s : Session} (h : s.Inv) {call : ChangeCall} (hsound : call.Sound s) :
    call.Met s ∧ (changeMachine.step s call).1.Inv := by
  have hop : ∀ s', call.run s = some s' → s'.Inv →
      (∀ survives, call = .commit survives → s.in_trans = true → s.res.Promotes s'.res) →
      call.Met s ∧ (changeMachine.step s call).1.Inv := by
    intro s' hrun hinv hcommit
    refine ⟨⟨s', hrun, hinv.clean, hcommit⟩, ?_⟩
    simp only [changeMachine, hrun, Option.getD_some]
    exact hinv
  cases call with
  | add begins added =>
    obtain ⟨s', hrun, hinv⟩ := SC_pos_add_inv (h.begin begins) hsound
    exact hop s' hrun hinv (by simp)
  | update begins index key change =>
    obtain ⟨s', hrun, hinv⟩ := SC_pos_update_inv (h.begin begins) index key hsound
    exact hop s' hrun hinv (by simp)
  | delete begins index key change =>
    obtain ⟨s', hrun, hinv⟩ := SC_pos_delete_inv (h.begin begins) index key hsound
    exact hop s' hrun hinv (by simp)
  | commit survives =>
    rcases Bool.eq_false_or_eq_true s.in_trans with ht | ht
    · obtain ⟨hclean, hpromotes⟩ := CC_on_commit_clean h survives (hsound ht)
      exact hop _ (by simp [ChangeCall.run, ht]) hclean.inv fun _ _ _ => hpromotes
    · exact hop s (by simp [ChangeCall.run, ht]) h fun _ _ hin => absurd hin (by simp [ht])

/-- A result of two rows, without a cursor. -/
def twoRows : Session where
  in_trans := false
  result_uncommitted := false
  res :=
    { cursor := false, withhold := false, reached_eof := true, num_total_read := 2, ad_count := 0
      key_start := 0, row_start := 0, num_cached_rows := 2, cache_size := 2
      keyset := [⟨0, 1, 0, 0⟩, ⟨0, 2, 0, 0⟩], added_keyset := [], updated := [], deleted := []
      rollback := [], rb_alloc := 0 }

/-- In one transaction the first row is updated, the second is deleted and a row is added. -/
def changeBoth : List ChangeCall :=
  [.update true 0 none (.one ⟨0, 3, 0⟩ (.found ⟨0, 3, 0⟩)),
    .delete false 1 none (.one ⟨0, 2, 0⟩ .gone), .add false (.loaded ⟨0, 4, 0⟩ false),
    .commit false]

end OdbcDriver.Result
