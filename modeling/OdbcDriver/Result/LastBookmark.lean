import OdbcDriver.Lib.StopSearch
import OdbcDriver.Result.RemovedRows

/-!
# The last key of a row

An operation by bookmark asks the lists of deleted and updated rows for the last key of a row. The
deleted rows are sorted as unsigned numbers, so that added rows, whose numbers are negative, are
behind all others. The search compares the numbers as signed ones and stops at the first one that is
larger: with a row that was read in front, a row with a negative number is not found.

* `last_bookmark_eq`: what the search finds;
* `last_bookmark_right`: the runs in which the last key of every row is found.
-/

namespace OdbcDriver.RowLists

open CInt Result SkipErase StopSearch

/-! ### The driver -/

/-- The loop over the deleted rows, from the place `i` on. -/
def deletedLoop (d : DeletedRows) (index : Int) : Nat → Nat → Option KeySet
  | 0, _ => none
  | rest + 1, i =>
    match d.deleted[i]? with
    | none => none
    | some x =>
      if x = index then d.deleted_keyset[i]?
      else if index < x then none
      else deletedLoop d index rest (i + 1)

/-- `QR_get_last_bookmark`: the key where it returns `TRUE`. -/
def QR_get_last_bookmark (d : DeletedRows) (r : UpdatedRows) (index : Int) : Option KeySet :=
  let deleted :=
    if 0 < d.dl_count ∧ d.dl_alloc ≠ 0 then deletedLoop d index d.dl_count 0 else none
  match deleted with
  | some keyset => some keyset
  | none =>
    if 0 < r.up_count ∧ r.up_alloc ≠ 0 then
      match lastUpdated r.updated index r.up_count with
      | some i => r.updated_keyset[i]?
      | none => none
    else none

/-! ### Changes -/

/-- The two lists of a result with a server cursor, the last keys that were recorded in each of
them, and the last of both. -/
structure LastKeys where
  deletedRows : DeletedRows
  updatedRows : UpdatedRows
  deletedKey : Int → Option KeySet
  updatedKey : Int → Option KeySet
  lastKey : Int → Option KeySet

/-- The lists of a new result, and what is left of them where the result is given up. -/
def LastKeys.start (keyset_driven : Bool) : LastKeys :=
  ⟨.cleared true, .cleared keyset_driven, fun _ => none, fun _ => none, fun _ => none⟩

/-- A call that changes the lists, or what is read in the course of such calls. -/
inductive KeyCall
  | addDeleted (in_trans : Bool) (index : Int) (keyset : KeySet)
  | removeDeleted (index : Int)
  | addUpdated (in_trans : Bool) (index : Int) (keyset : KeySet) (tuple : Tuple)
  | rows (reached_eof : Bool) (num_total_read : Nat) (added : AddedRows)

/-- The key of a row that is deleted. -/
def deletedKeySet (in_trans : Bool) (keyset : KeySet) : KeySet :=
  { keyset with status := deletedStatus in_trans keyset.status }

/-- The key of a row that is updated. -/
def updatedKeySet (in_trans : Bool) (keyset : KeySet) : KeySet :=
  { keyset with status := updatedStatus in_trans keyset.status }

/-- The row behind all others is not recorded in the list: it is taken for an added row. -/
def TakenForAdded (r : UpdatedRows) (in_trans : Bool) (index : Int) : Prop :=
  in_trans = false ∧ r.place index = none ∧ index = r.num_total_tuples

instance (r : UpdatedRows) (in_trans : Bool) (index : Int) :
    Decidable (TakenForAdded r in_trans index) :=
  inferInstanceAs (Decidable (_ ∧ _))

/-- The call leads from one state to the other. An index is an `SQLLEN`. -/
inductive KeyCall.Leads : KeyCall → LastKeys → LastKeys → Prop
  | added {in_trans : Bool} {index : Int} {keyset : KeySet} {s : LastKeys} {d : DeletedRows} :
      Fits 64 index → AddDeleted in_trans s.deletedRows index keyset = (true, d) →
        Leads (.addDeleted in_trans index keyset) s
          { s with
            deletedRows := d
            deletedKey :=
              Function.update s.deletedKey index (some (deletedKeySet in_trans keyset))
            lastKey := Function.update s.lastKey index (some (deletedKeySet in_trans keyset)) }
  | refused {in_trans : Bool} {index : Int} {keyset : KeySet} {s : LastKeys} {d : DeletedRows} :
      Fits 64 index → AddDeleted in_trans s.deletedRows index keyset = (false, d) →
        Leads (.addDeleted in_trans index keyset) s (.start s.updatedRows.keyset_driven)
  | removed {index : Int} {s : LastKeys} :
      Leads (.removeDeleted index) s
        { s with
          deletedRows := RemoveDeleted s.updatedRows.num_total_read s.deletedRows index
          deletedKey := fun x =>
            let row := rowNumbers s.updatedRows.num_total_read index
            if x = row.1 ∨ x = row.2 then none else s.deletedKey x
          lastKey := fun x =>
            let row := rowNumbers s.updatedRows.num_total_read index
            if x = row.1 ∨ x = row.2 then s.updatedKey x else s.lastKey x }
  | updated {fuel : Nat} {in_trans : Bool} {index : Int} {keyset : KeySet} {tuple : Tuple}
      {s : LastKeys} {r : UpdatedRows} {ws : List ArrayWrite} :
      AddUpdated fuel in_trans s.updatedRows index keyset tuple = some (r, ws) →
        Leads (.addUpdated in_trans index keyset tuple) s
          { s with
            updatedRows := r
            updatedKey :=
              if TakenForAdded s.updatedRows in_trans index then s.updatedKey
              else Function.update s.updatedKey index (some (updatedKeySet in_trans keyset))
            lastKey :=
              if TakenForAdded s.updatedRows in_trans index then s.lastKey
              else Function.update s.lastKey index (some (updatedKeySet in_trans keyset)) }
  | rows {reached_eof : Bool} {num_total_read : Nat} {added : AddedRows} {s : LastKeys} :
      Leads (.rows reached_eof num_total_read added) s
        { s with
          updatedRows := { s.updatedRows with
            reached_eof := reached_eof, num_total_read := num_total_read, added := added } }

/-- The states of runs all of whose steps meet a condition. -/
inductive LastKeys.Run (P : LastKeys → KeyCall → Prop) : LastKeys → Prop
  | start (keyset_driven : Bool) : Run P (.start keyset_driven)
  | step {s s' : LastKeys} {call : KeyCall} : Run P s → P s call → call.Leads s s' → Run P s'

/-- What is found for a row is an entry of the lists, if there is one, and its last key. -/
structure LastKeys.Found (s : LastKeys) (index : Int) : Prop where
  found : (QR_get_last_bookmark s.deletedRows s.updatedRows index).isSome ↔
    index ∈ s.deletedRows.deleted ∨ index ∈ s.updatedRows.updated
  last : ∀ keyset, QR_get_last_bookmark s.deletedRows s.updatedRows index = some keyset →
    s.lastKey index = some keyset

/-- There are rows that were read and rows that an `Int4` finds under a negative number. -/
def Mixed (deleted : List Int) : Prop :=
  (∃ x ∈ deleted, 0 ≤ x) ∧ ∃ x ∈ deleted, x < 0 ∧ Fits 32 x

/-- No row is deleted with another key while it is in the list, nor a row with a negative number
together with one that was read; the entries that are to be removed are not neighbours; and a row
that is updated is not a deleted one, and has its key already if it is updated outside a transaction
while it is in the list. -/
def KeyCall.Fine (s : LastKeys) : KeyCall → Prop
  | .addDeleted in_trans index keyset =>
    (∀ key, s.deletedKey index = some key → key = deletedKeySet in_trans keyset) ∧
      ¬ Mixed (index :: s.deletedRows.deleted)
  | .removeDeleted index =>
    let row := rowNumbers s.updatedRows.num_total_read index
    SkipErase.Apart (fun x => x == row.1 || x == row.2) s.deletedRows.deleted
  | .addUpdated in_trans index keyset _ =>
    (¬ TakenForAdded s.updatedRows in_trans index → s.deletedKey index = none) ∧
      (in_trans = false → ∀ key, s.updatedKey index = some key →
        { key with status := updatedStatus false keyset.status } = updatedKeySet false keyset)
  | .rows _ _ _ => True

/-! ### The search -/

variable {d : DeletedRows} {r : UpdatedRows} {es : List (Int × KeySet)} {s s' : LastKeys}
  {index x : Int}

/-- The loop, behind the entries it has passed. -/
theorem deletedLoop_eq (h : d.Holds es) (index : Int) {front rest : List (Int × KeySet)}
    (hes : es = front ++ rest) :
    deletedLoop d index rest.length front.length =
      (searchUpTo (·.1 == index) (fun e => decide (index < e.1)) rest).map Prod.snd := by
  induction rest generalizing front with
  | nil => rfl
  | cons e rest ih =>
    have hentry : es[front.length]? = some e := by rw [hes]; simp
    have hindex : d.deleted[front.length]? = some e.1 := by
      rw [h.index, List.getElem?_map, hentry, Option.map_some]
    have hkey : d.deleted_keyset[front.length]? = some e.2 := by
      rw [h.key, List.getElem?_map, hentry, Option.map_some]
    have hnext : es = (front ++ [e]) ++ rest := by rw [hes]; simp
    have hlength : (front ++ [e]).length = front.length + 1 := List.length_append
    rw [List.length_cons, deletedLoop, hindex]
    simp only [searchUpTo, beq_iff_eq, decide_eq_true_eq]
    split
    · exact hkey
    · split
      · rfl
      · rw [← hlength]
        exact ih hnext

/-- The key of the newest entry of a row in the list of updated rows. -/
def UpdatedRows.lastKey (r : UpdatedRows) (index : Int) : Option KeySet :=
  (r.place index).bind (r.updated_keyset[·]?)

/-- What the search finds. -/
theorem last_bookmark_eq (hd : d.Inv) (hes : d.Holds es) (hr : r.Inv) (index : Int) :
    QR_get_last_bookmark d r index =
      ((searchUpTo (·.1 == index) (fun e => decide (index < e.1)) es).map Prod.snd).or
        (r.lastKey index) := by
  have hloop := deletedLoop_eq hes index (List.nil_append es).symm
  rw [List.length_nil, ← hes.count] at hloop
  have hdeleted : (if 0 < d.dl_count ∧ d.dl_alloc ≠ 0 then deletedLoop d index d.dl_count 0
      else none) = (searchUpTo (·.1 == index) (fun e => decide (index < e.1)) es).map Prod.snd := by
    rw [← hloop]
    split
    · rfl
    · have hnone : d.dl_count = 0 := by
        have hroom := hd.room
        omega
      rw [hnone, deletedLoop]
  have hupdated : (if 0 < r.up_count ∧ r.up_alloc ≠ 0 then
      match lastUpdated r.updated index r.up_count with
      | some i => r.updated_keyset[i]?
      | none => none
      else none) = r.lastKey index := by
    rw [UpdatedRows.lastKey, UpdatedRows.place]
    split
    · cases lastUpdated r.updated index r.up_count <;> rfl
    · have hnone : r.up_count = 0 := by
        have hroom := hr.room
        omega
      rw [hnone, lastUpdated, Option.bind_none]
  simp only [QR_get_last_bookmark, hdeleted, hupdated]
  cases (searchUpTo (·.1 == index) (fun e => decide (index < e.1)) es).map Prod.snd <;> rfl

/-! ### The updated rows -/

theorem lastUpdated_append {l m : List Int} {n : Nat} (h : n ≤ l.length) (x : Int) :
    lastUpdated (l ++ m) x n = lastUpdated l x n := by
  induction n with
  | zero => rfl
  | succ n ih =>
    rw [lastUpdated, lastUpdated, List.getElem?_append_left (by omega), ih (by omega)]

theorem UpdatedRows.Inv.length_updated (h : r.Inv) : r.updated.length = r.up_count := by
  obtain ⟨es, hes⟩ := h.holds
  rw [hes.index, List.length_map, hes.count]

theorem UpdatedRows.Inv.length_updated_keyset (h : r.Inv) :
    r.updated_keyset.length = r.up_count := by
  obtain ⟨es, hes⟩ := h.holds
  rw [hes.key, List.length_map, hes.count]

/-- There is a key where there is an entry. -/
theorem UpdatedRows.Inv.isSome_lastKey (h : r.Inv) (x : Int) :
    (r.lastKey x).isSome ↔ x ∈ r.updated := by
  rw [UpdatedRows.lastKey]
  constructor
  · intro hsome
    obtain ⟨key, hkey⟩ := Option.isSome_iff_exists.mp hsome
    obtain ⟨i, hi, -⟩ := Option.bind_eq_some_iff.mp hkey
    exact List.mem_of_getElem? (lastUpdated_some hi).2
  · intro hmem
    obtain ⟨j, hj, hx⟩ := List.getElem_of_mem hmem
    have hget : r.updated[j]? = some x := by rw [List.getElem?_eq_getElem hj, hx]
    rw [h.length_updated] at hj
    cases hplace : r.place x with
    | none => exact absurd hget (lastUpdated_none_iff.mp hplace j hj)
    | some i =>
      have hlt := (lastUpdated_some hplace).1
      rw [Option.bind_some, List.getElem?_eq_getElem (by rw [h.length_updated_keyset]; exact hlt)]
      rfl

/-- The keys after an update that is a new entry. -/
theorem UpdatedRows.Inv.lastKey_append (h : r.Inv) (hn : r.up_count + 1 ≤ 20480) (index : Int)
    (key : KeySet) (tuple : Tuple) (x : Int) :
    ((r.enlarged r.nextAlloc).append index key tuple).lastKey x =
      Function.update r.lastKey index (some key) x := by
  have hroom : r.up_count + 1 < 2 ^ 16 := by omega
  have hlast : (r.updated ++ [index])[r.up_count]? = some index := by
    rw [← h.length_updated, List.getElem?_concat_length]
  have hlastKey : (r.updated_keyset ++ [key])[r.up_count]? = some key := by
    rw [← h.length_updated_keyset, List.getElem?_concat_length]
  simp only [UpdatedRows.lastKey, UpdatedRows.place, UpdatedRows.append, UpdatedRows.enlarged,
    Nat.mod_eq_of_lt hroom, lastUpdated, hlast, Option.some.injEq]
  by_cases hx : x = index
  · subst hx
    rw [if_pos rfl, Option.bind_some, hlastKey, Function.update_self]
  · have hold : r.lastKey x =
        (lastUpdated r.updated x r.up_count).bind (r.updated_keyset[·]?) := rfl
    rw [if_neg (Ne.symm hx), Function.update_of_ne hx, lastUpdated_append h.length_updated.ge, hold]
    cases hplace : lastUpdated r.updated x r.up_count with
    | none => rfl
    | some i =>
      have hlt := (lastUpdated_some hplace).1
      rw [Option.bind_some, Option.bind_some,
        List.getElem?_append_left (by rw [h.length_updated_keyset]; exact hlt)]

/-- The keys after an update that marks an entry. -/
theorem UpdatedRows.lastKey_setStatus {i : Nat} (hi : r.place index = some i)
    (status : BitVec 16) (x : Int) :
    (r.setStatus i status).lastKey x =
      if x = index then (r.lastKey x).map fun k => { k with status := status }
      else r.lastKey x := by
  have hplace : (r.setStatus i status).place x = r.place x := rfl
  rw [UpdatedRows.lastKey, UpdatedRows.lastKey, hplace]
  split
  · rename_i hx
    rw [hx, hi, Option.bind_some, Option.bind_some, UpdatedRows.setStatus]
    simp
  · rename_i hx
    cases hj : r.place x with
    | none => rfl
    | some j =>
      have hne : i ≠ j := by
        rintro rfl
        have heq := (lastUpdated_some hi).2.symm.trans (lastUpdated_some hj).2
        exact hx (Option.some.inj heq).symm
      rw [Option.bind_some, Option.bind_some, UpdatedRows.setStatus]
      simp [hne]

/-! ### What a run keeps -/

/-- The rank by which the deleted rows are sorted. -/
def deletedRank (e : Int × KeySet) : Int := uwrap 64 e.1

/-- The lists hold the last keys, and the deleted rows are sorted and not mixed. -/
structure LastKeys.Sound (s : LastKeys) : Prop where
  deleted : s.deletedRows.Inv
  cursor : s.deletedRows.cursor = true
  updated : s.updatedRows.Inv
  sorted : ∀ es, s.deletedRows.Holds es → es.Pairwise fun a b => deletedRank a ≤ deletedRank b
  fits : ∀ x ∈ s.deletedRows.deleted, Fits 64 x
  key_eq : ∀ es, s.deletedRows.Holds es → ∀ e ∈ es, s.deletedKey e.1 = some e.2
  mem_deleted : ∀ x key, s.deletedKey x = some key → x ∈ s.deletedRows.deleted
  updatedKey_eq : ∀ x, s.updatedKey x = s.updatedRows.lastKey x
  lastKey_eq : ∀ x, s.lastKey x = (s.deletedKey x).or (s.updatedKey x)
  apart : ¬ Mixed s.deletedRows.deleted

theorem LastKeys.start_sound (keyset_driven : Bool) : (LastKeys.start keyset_driven).Sound := by
  have hnil : ∀ es, (DeletedRows.cleared true).Holds es → es = [] := fun es h =>
    List.length_eq_zero_iff.mp h.count.symm
  refine ⟨DeletedRows.cleared_inv true, rfl, UpdatedRows.cleared_inv keyset_driven, ?_, ?_, ?_, ?_,
    fun _ => rfl, fun _ => rfl, ?_⟩
  · intro es hes
    rw [hnil es hes]
    exact .nil
  · exact fun x hx => absurd hx List.not_mem_nil
  · intro es hes e he
    rw [hnil es hes] at he
    exact absurd he List.not_mem_nil
  · exact fun x key hkey => nomatch hkey
  · rintro ⟨⟨x, hx, -⟩, -⟩
    exact absurd hx List.not_mem_nil

/-- The entry of a deleted row is put where the rank says. -/
theorem insertDeleted_eq (e : Int × KeySet) (es : List (Int × KeySet)) :
    insertDeleted e es = insertBy deletedRank e es := by
  have hplace : deletedPlace (es.map Prod.fst) e.1 =
      (es.takeWhile fun a => !decide (deletedRank e < deletedRank a)).length := by
    rw [deletedPlace, List.takeWhile_map, List.length_map]
    rfl
  have hsplit := List.takeWhile_append_dropWhile
    (p := fun a => !decide (deletedRank e < deletedRank a)) (l := es)
  have htake := congrArg (List.take (es.takeWhile fun a =>
    !decide (deletedRank e < deletedRank a)).length) hsplit
  have hdrop := congrArg (List.drop (es.takeWhile fun a =>
    !decide (deletedRank e < deletedRank a)).length) hsplit
  rw [List.take_left] at htake
  rw [List.drop_left] at hdrop
  rw [insertDeleted, hplace, ← htake, ← hdrop, insertBy]

theorem mixed_congr {l m : List Int} (h : ∀ x, x ∈ l ↔ x ∈ m) : Mixed l ↔ Mixed m := by
  simp only [Mixed, h]

theorem Mixed.mono {l m : List Int} (h : l ⊆ m) (hl : Mixed l) : Mixed m := by
  obtain ⟨⟨x, hx, hx0⟩, y, hy, hy0⟩ := hl
  exact ⟨⟨x, h hx, hx0⟩, y, h hy, hy0⟩

theorem DeletedRows.Holds.mem_deleted (h : d.Holds es) :
    x ∈ d.deleted ↔ ∃ key, (x, key) ∈ es := by
  rw [h.index, List.mem_map]
  constructor
  · rintro ⟨⟨y, key⟩, he, rfl⟩
    exact ⟨key, he⟩
  · rintro ⟨key, he⟩
    exact ⟨_, he, rfl⟩

/-- A deleted row that is recorded. -/
theorem LastKeys.Sound.added (h : s.Sound) {in_trans : Bool} {keyset : KeySet} {d : DeletedRows}
    (hfits : Fits 64 index) (hadd : AddDeleted in_trans s.deletedRows index keyset = (true, d))
    (hfine : (KeyCall.addDeleted in_trans index keyset).Fine s) :
    LastKeys.Sound { s with
      deletedRows := d
      deletedKey := Function.update s.deletedKey index (some (deletedKeySet in_trans keyset))
      lastKey := Function.update s.lastKey index (some (deletedKeySet in_trans keyset)) } := by
  obtain ⟨hsame, hmixed⟩ := hfine
  obtain ⟨es, hes⟩ := h.deleted.holds
  have hn : s.deletedRows.dl_count + 1 ≤ 20480 := by
    by_contra hn
    rw [AddDeleted_full h.deleted h.cursor hn] at hadd
    exact absurd (congrArg Prod.fst hadd) Bool.false_ne_true
  have hinsert := AddDeleted_insert h.deleted h.cursor hn in_trans index keyset
  have hholds : d.Holds (insertBy deletedRank (index, deletedKeySet in_trans keyset) es) := by
    rw [hadd, Prod.mk.injEq] at hinsert
    rw [hinsert.2, ← insertDeleted_eq]
    exact hes.insertAt _ _ _
  obtain ⟨hinv, hcursor⟩ :=
    (DeleteCall.add in_trans index keyset).run_inv h.deleted h.cursor
  rw [DeleteCall.run, hadd] at hinv hcursor
  have hmem : ∀ x, x ∈ d.deleted ↔ x ∈ index :: s.deletedRows.deleted := by
    intro x
    rw [hholds.mem_deleted, List.mem_cons, hes.mem_deleted]
    simp only [mem_insertBy, Prod.mk.injEq]
    constructor
    · rintro ⟨key, ⟨hx, -⟩ | he⟩
      · exact Or.inl hx
      · exact Or.inr ⟨key, he⟩
    · rintro (hx | ⟨key, he⟩)
      · exact ⟨_, Or.inl ⟨hx, rfl⟩⟩
      · exact ⟨key, Or.inr he⟩
  refine ⟨hinv, hcursor, h.updated, ?_, ?_, ?_, ?_, h.updatedKey_eq, ?_, ?_⟩
  · intro es' hes'
    rw [← hholds.holds_iff.mp hes']
    exact pairwise_insertBy (h.sorted es hes)
  · intro x hx
    rcases List.mem_cons.mp ((hmem x).mp hx) with rfl | hx
    · exact hfits
    · exact h.fits x hx
  · intro es' hes' e he
    rw [← hholds.holds_iff.mp hes'] at he
    rcases mem_insertBy.mp he with rfl | he
    · exact Function.update_self ..
    · have hkey := h.key_eq es hes e he
      dsimp only
      by_cases hindex : e.1 = index
      · rw [hindex] at hkey ⊢
        rw [Function.update_self, hsame e.2 hkey]
      · rw [Function.update_of_ne hindex]
        exact hkey
  · intro x key hkey
    rw [hmem, List.mem_cons]
    dsimp only at hkey
    by_cases hx : x = index
    · exact Or.inl hx
    · rw [Function.update_of_ne hx] at hkey
      exact Or.inr (h.mem_deleted x key hkey)
  · intro x
    dsimp only
    by_cases hx : x = index
    · rw [hx, Function.update_self, Function.update_self, Option.some_or]
    · rw [Function.update_of_ne hx, Function.update_of_ne hx]
      exact h.lastKey_eq x
  · rw [mixed_congr hmem]
    exact hmixed

/-- A row of which the entries are taken out. -/
theorem LastKeys.Sound.removed (h : s.Sound) (hfine : (KeyCall.removeDeleted index).Fine s) :
    LastKeys.Sound { s with
      deletedRows := RemoveDeleted s.updatedRows.num_total_read s.deletedRows index
      deletedKey := fun x =>
        let row := rowNumbers s.updatedRows.num_total_read index
        if x = row.1 ∨ x = row.2 then none else s.deletedKey x
      lastKey := fun x =>
        let row := rowNumbers s.updatedRows.num_total_read index
        if x = row.1 ∨ x = row.2 then s.updatedKey x else s.lastKey x } := by
  obtain ⟨es, hes⟩ := h.deleted.holds
  have hapart :
      SkipErase.Apart (deletedRow (rowNumbers s.updatedRows.num_total_read index)) es := by
    have hchain : SkipErase.Apart _ s.deletedRows.deleted := hfine
    rw [hes.index, SkipErase.Apart, List.isChain_map] at hchain
    exact hchain
  have hholds := RemoveDeleted_holds hes s.updatedRows.num_total_read index
  rw [skipErase_eq_filter_iff.mpr hapart] at hholds
  obtain ⟨hinv, hcursor⟩ :=
    (DeleteCall.remove s.updatedRows.num_total_read index).run_inv h.deleted h.cursor
  have hsub : (RemoveDeleted s.updatedRows.num_total_read s.deletedRows index).deleted ⊆
      s.deletedRows.deleted := by
    intro x hx
    obtain ⟨key, he⟩ := hholds.mem_deleted.mp hx
    exact hes.mem_deleted.mpr ⟨key, (List.mem_filter.mp he).1⟩
  refine ⟨hinv, hcursor, h.updated, ?_, fun x hx => h.fits x (hsub hx), ?_, ?_, h.updatedKey_eq,
    ?_, fun hmixed => h.apart (hmixed.mono hsub)⟩
  · intro es' hes'
    rw [← hholds.holds_iff.mp hes']
    exact (h.sorted es hes).filter _
  · intro es' hes' e he
    rw [← hholds.holds_iff.mp hes'] at he
    obtain ⟨he, hrow⟩ := List.mem_filter.mp he
    simp only [deletedRow, Bool.not_eq_true', Bool.or_eq_false_iff, beq_eq_false_iff_ne] at hrow
    dsimp only
    rw [if_neg (not_or.mpr hrow)]
    exact h.key_eq es hes e he
  · intro x key hkey
    dsimp only at hkey
    split at hkey
    · cases hkey
    · rename_i hrow
      obtain ⟨k, he⟩ := hes.mem_deleted.mp (h.mem_deleted x key hkey)
      refine hholds.mem_deleted.mpr ⟨k, List.mem_filter.mpr ⟨he, ?_⟩⟩
      simpa [deletedRow] using hrow
  · intro x
    dsimp only
    split
    · rw [Option.none_or]
    · exact h.lastKey_eq x

/-- A row that is updated. -/
theorem LastKeys.Sound.updated_row (h : s.Sound) {fuel : Nat} {in_trans : Bool} {keyset : KeySet}
    {tuple : Tuple} {ws : List ArrayWrite}
    (hadd : AddUpdated fuel in_trans s.updatedRows index keyset tuple = some (r, ws))
    (hfine : (KeyCall.addUpdated in_trans index keyset tuple).Fine s) :
    LastKeys.Sound { s with
      updatedRows := r
      updatedKey := if TakenForAdded s.updatedRows in_trans index then s.updatedKey
        else Function.update s.updatedKey index (some (updatedKeySet in_trans keyset))
      lastKey := if TakenForAdded s.updatedRows in_trans index then s.lastKey
        else Function.update s.lastKey index (some (updatedKeySet in_trans keyset)) } := by
  have hinv := AddUpdated_inv h.updated hadd
  obtain ⟨hlive, hmarked⟩ := hfine
  refine ⟨h.deleted, h.cursor, hinv, h.sorted, h.fits, h.key_eq, h.mem_deleted, fun x => ?_,
    fun x => ?_, h.apart⟩
  rotate_left
  · dsimp only
    split
    · exact h.lastKey_eq x
    · rename_i hrecorded
      by_cases hx : x = index
      · rw [hx, Function.update_self, Function.update_self, hlive hrecorded, Option.none_or]
      · rw [Function.update_of_ne hx, Function.update_of_ne hx]
        exact h.lastKey_eq x
  have hkeys : s.updatedKey = s.updatedRows.lastKey := funext h.updatedKey_eq
  rcases AddUpdated_ways s.updatedRows in_trans index with hcond | ⟨rfl, i, hi⟩ | ⟨rfl, hi, hlast⟩
  · rw [AddUpdated_append h.updated hcond] at hadd
    obtain ⟨t, ht, heq⟩ := Option.map_eq_some_iff.mp hadd
    obtain ⟨hn, rfl⟩ := enlargeUpdated_some h.updated ht
    have hno : ¬ TakenForAdded s.updatedRows in_trans index := by
      rintro ⟨htrans, -, hlast⟩
      rcases hcond with ht | ⟨-, hne⟩
      · rw [htrans] at ht
        exact absurd ht Bool.false_ne_true
      · exact hne hlast
    obtain ⟨rfl, -⟩ := Prod.mk.inj heq
    dsimp only
    rw [if_neg hno, hkeys]
    exact (h.updated.lastKey_append hn index _ tuple x).symm
  · rw [AddUpdated_inPlace h.updated hi] at hadd
    have hno : ¬ TakenForAdded s.updatedRows false index := by
      rintro ⟨-, hnone, -⟩
      rw [hi] at hnone
      cases hnone
    obtain ⟨rfl, -⟩ := Prod.mk.inj (Option.some.inj hadd)
    have hmem : index ∈ s.updatedRows.updated := List.mem_of_getElem? (lastUpdated_some hi).2
    obtain ⟨key, hkey⟩ := Option.isSome_iff_exists.mp ((h.updated.isSome_lastKey index).mpr hmem)
    have hsame := hmarked rfl key (by rw [hkeys, hkey])
    dsimp only
    rw [if_neg hno, hkeys, UpdatedRows.lastKey_setStatus hi]
    by_cases hx : x = index
    · rw [if_pos hx, hx, Function.update_self, hkey, Option.map_some, hsame]
    · rw [if_neg hx, Function.update_of_ne hx]
  · rw [AddUpdated_added h.updated hi hlast] at hadd
    obtain ⟨rfl, -⟩ := Prod.mk.inj (Option.some.inj hadd)
    have htaken : TakenForAdded s.updatedRows false index := ⟨rfl, hi, hlast⟩
    dsimp only
    rw [if_pos htaken]
    exact h.updatedKey_eq x

/-- A call that is fine keeps the lists sound. -/
theorem KeyCall.Leads.sound {call : KeyCall} (hstep : call.Leads s s') (h : s.Sound)
    (hfine : call.Fine s) : s'.Sound := by
  cases hstep with
  | added hfits hadd => exact h.added hfits hadd hfine
  | refused hfits hadd => exact LastKeys.start_sound _
  | removed => exact h.removed hfine
  | updated hadd => exact h.updated_row hadd hfine
  | rows =>
    exact ⟨h.deleted, h.cursor, UpdateCall.Leads.rows.inv h.updated, h.sorted, h.fits, h.key_eq,
      h.mem_deleted, h.updatedKey_eq, h.lastKey_eq, h.apart⟩

theorem LastKeys.Run.sound (h : s.Run KeyCall.Fine) : s.Sound := by
  induction h with
  | start keyset_driven => exact LastKeys.start_sound keyset_driven
  | step _ hfine hstep ih => exact hstep.sound ih hfine

/-! ### The last key -/

/-- In a sorted list that is not mixed, no larger number comes before the one that is looked for. -/
theorem LastKeys.Sound.no_stop (h : s.Sound) (hes : s.deletedRows.Holds es)
    (hfits : Fits 32 index) :
    es.Pairwise fun a b => (b.1 == index) = true → decide (index < a.1) = false := by
  refine (h.sorted es hes).imp_of_mem fun {a b} ha hb hrank hindex => ?_
  have hmem : ∀ e ∈ es, e.1 ∈ s.deletedRows.deleted := fun e he =>
    hes.mem_deleted.mpr ⟨e.2, he⟩
  have hb' : b.1 = index := by simpa using hindex
  have hfa := h.fits a.1 (hmem a ha)
  have hapart : a.1 < 0 ∨ 0 ≤ index := by
    by_contra hno
    rw [not_or, not_lt, not_le] at hno
    exact h.apart ⟨⟨a.1, hmem a ha, hno.1⟩, index, hb' ▸ hmem b hb, hno.2, hfits⟩
  rw [decide_eq_false_iff_not]
  simp only [deletedRank, uwrap, hb'] at hrank
  simp only [Fits] at hfa hfits
  omega

/-- In a run whose steps are fine, the search finds the last key of a row, if it has one. -/
theorem LastKeys.Sound.search_eq (h : s.Sound) (hfits : Fits 32 index) :
    QR_get_last_bookmark s.deletedRows s.updatedRows index = s.lastKey index := by
  obtain ⟨es, hes⟩ := h.deleted.holds
  have hsearch : (searchUpTo (·.1 == index) (fun e => decide (index < e.1)) es).map Prod.snd =
      s.deletedKey index := by
    rw [searchUpTo_eq_find? (h.no_stop hes hfits)]
    cases hfind : es.find? (·.1 == index) with
    | some e =>
      have hindex : e.1 = index := by simpa using List.find?_some hfind
      have hkey := h.key_eq es hes e (List.mem_of_find?_eq_some hfind)
      rw [Option.map_some, ← hkey, hindex]
    | none =>
      cases hkey : s.deletedKey index with
      | none => rfl
      | some key =>
        obtain ⟨k, he⟩ := hes.mem_deleted.mp (h.mem_deleted index key hkey)
        exact absurd (beq_self_eq_true index) (List.find?_eq_none.mp hfind _ he)
  rw [last_bookmark_eq h.deleted hes h.updated, hsearch, h.lastKey_eq, h.updatedKey_eq]

/-- **The last key of a row.** In every state of a run whose steps are fine, the search finds a key
exactly for the rows that have an entry in one of the lists, and it is the last key of the row. -/
theorem last_bookmark_right (h : s.Run KeyCall.Fine) (hfits : Fits 32 index) :
    s.Found index := by
  have hsound := h.sound
  have heq := hsound.search_eq hfits
  have hdeleted : (s.deletedKey index).isSome ↔ index ∈ s.deletedRows.deleted := by
    constructor
    · intro hsome
      obtain ⟨key, hkey⟩ := Option.isSome_iff_exists.mp hsome
      exact hsound.mem_deleted index key hkey
    · intro hmem
      obtain ⟨es, hes⟩ := hsound.deleted.holds
      obtain ⟨key, he⟩ := hes.mem_deleted.mp hmem
      rw [hsound.key_eq es hes _ he]
      rfl
  refine ⟨?_, fun keyset hkeyset => heq ▸ hkeyset⟩
  rw [heq, hsound.lastKey_eq, Option.isSome_or, Bool.or_eq_true, hdeleted, hsound.updatedKey_eq,
    hsound.updated.isSome_lastKey]

/-! ### A row that was read and an added one -/

/-- A row that is deleted in a transaction. -/
def LastKeys.delete (s : LastKeys) (index : Int) (keyset : KeySet) : LastKeys :=
  { s with
    deletedRows := (AddDeleted true s.deletedRows index keyset).2
    deletedKey := Function.update s.deletedKey index (some (deletedKeySet true keyset))
    lastKey := Function.update s.lastKey index (some (deletedKeySet true keyset)) }

/-- The first row is deleted. -/
def readDeleted : LastKeys := (LastKeys.start true).delete 0 (keyAt 1)

theorem readDeleted_leads :
    (KeyCall.addDeleted true 0 (keyAt 1)).Leads (.start true) readDeleted :=
  .added (by decide) rfl

theorem last_bookmark_read : readDeleted.Found 0 := by
  have hfine : (KeyCall.addDeleted true 0 (keyAt 1)).Fine (.start true) := by
    refine ⟨fun key hkey => absurd hkey (Option.some_ne_none key).symm, ?_⟩
    rintro ⟨-, x, hx, hneg, -⟩
    obtain rfl : x = 0 := List.mem_singleton.mp hx
    exact absurd hneg (lt_irrefl _)
  exact last_bookmark_right (.step (.start true) hfine readDeleted_leads) (by decide)

/-- So is a row that was added. -/
def addedDeleted : LastKeys := readDeleted.delete (-1) (keyAt 2)

/-- The added row is in the list, and is not found: the search stops at the row that was read. -/
theorem added_hidden :
    addedDeleted.Run (fun _ _ => True) ∧ ¬ addedDeleted.Found (-1) := by
  have heval : (AddDeleted true readDeleted.deletedRows (-1) (keyAt 2)).1 = true ∧
      (-1 : Int) ∈ addedDeleted.deletedRows.deleted ∧
      QR_get_last_bookmark addedDeleted.deletedRows addedDeleted.updatedRows (-1) = none := by
    decide +kernel
  obtain ⟨hsucceeds, hmem, hnone⟩ := heval
  have hadded : (KeyCall.addDeleted true (-1) (keyAt 2)).Leads readDeleted addedDeleted :=
    .added (by decide) (Prod.ext hsucceeds rfl)
  refine ⟨.step (.step (.start true) trivial readDeleted_leads) trivial hadded, fun h => ?_⟩
  have hsome := h.found.mpr (Or.inl hmem)
  rw [hnone] at hsome
  exact absurd hsome Bool.false_ne_true

end OdbcDriver.RowLists
