import OdbcDriver.Result.UpdatedRules

/-!
# What `AddUpdated` records

Of a row that was updated the lists are to hold, as the newest entry of the row, its key as it is now
and its new data. In a transaction every update is an entry of its own, so that it can be undone one
by one. Outside of one, an entry of the row that is there already is only marked as committed: the
new key is not stored in it, and the new data goes to a place before the added rows, since the index
that is used for it is the one of the added rows, which was not computed. The row behind all others
is taken for the first added row.
-/

namespace OdbcDriver.RowLists

open Result

/-- The key and the data of an added row. -/
def AddedRows.entry (a : AddedRows) (i : Int) : Option (KeySet × Option Tuple) :=
  if 0 ≤ i then
    a.added_keyset[i.toNat]?.map fun k => (k, a.added_tuples.bind (·[i.toNat]?))
  else none

/-- The newest entry of a row: its last update, or what it was when it was added. -/
def UpdatedRows.newest (r : UpdatedRows) (index : Int) : Option (KeySet × Option Tuple) :=
  match r.place index with
  | some i => r.updated_keyset[i]?.map fun k => (k, r.updated_tuples.bind (·[i]?))
  | none => r.added.entry (index - r.num_total_read)

/-- The update of a row is recorded, and nothing else is touched. -/
structure Recorded (r r' : UpdatedRows) (index : Int) (keyset : KeySet) (tuple : Tuple)
    (ws : List ArrayWrite) : Prop where
  /-- The newest entry of the row has its key and, where data is kept, its data. -/
  newest : ∃ k t, r'.newest index = some (k, t) ∧ ctid k = ctid keyset ∧
    ∀ data, t = some data → data = tuple
  /-- The entries of the other rows are unchanged. -/
  others : ∀ es es', r.Holds es → r'.Holds es' →
    es'.filter (·.index != index) = es.filter (·.index != index)
  /-- So are the other rows that were added. -/
  others_added : ∀ i : Int, r.num_total_read + i ≠ index → r'.added.entry i = r.added.entry i
  /-- Data is written within the arrays only. -/
  inBounds : ∀ w ∈ ws, w.InBounds

/-- `AddUpdated` returns and records the update. -/
def UpdatedRows.Records (r : UpdatedRows) (in_trans : Bool) (index : Int) (keyset : KeySet)
    (tuple : Tuple) : Prop :=
  ∃ fuel r' ws, AddUpdated fuel in_trans r index keyset tuple = some (r', ws) ∧
    Recorded r r' index keyset tuple ws

/-- The update is a new entry, and there is room for it; or an entry is marked that has the key already
and has no data, or the first added row is the row and has the key already. -/
def UpdatedRows.Recordable (r : UpdatedRows) (in_trans : Bool) (index : Int) (keyset : KeySet) :
    Prop :=
  if in_trans = true ∨ r.place index = none ∧ index ≠ r.num_total_tuples then
    r.up_count + 1 ≤ 20480
  else
    match r.place index with
    | some i => r.updated_tuples = none ∧ r.updated_keyset[i]?.map ctid = some (ctid keyset)
    | none => r.reached_eof = false ∧ r.added.added_keyset[0]?.map ctid = some (ctid keyset)

/-! ### Entries -/

/-- The entries that arrays hold are determined. -/
theorem UpdatedRows.Holds.unique {r : UpdatedRows} {es es' : List Entry} (h : r.Holds es)
    (h' : r.Holds es') : es = es' := by
  have hindex : es.map Entry.index = es'.map Entry.index := h.index.symm.trans h'.index
  have hkey : es.map Entry.key = es'.map Entry.key := h.key.symm.trans h'.key
  have htuple : es.map Entry.tuple = es'.map Entry.tuple := by
    have ht := h.tuple
    have ht' := h'.tuple
    rcases hts : r.updated_tuples with _ | ts
    · rw [hts, Option.elim_none] at ht ht'
      have hlen : es.length = es'.length := h.count.symm.trans h'.count
      rw [List.map_congr_left ht, List.map_congr_left ht', List.map_const', List.map_const', hlen]
    · rw [hts, Option.elim_some] at ht ht'
      exact ht.trans ht'.symm
  apply List.ext_getElem?
  intro i
  have hi := congrArg (·[i]?) hindex
  have hk := congrArg (·[i]?) hkey
  have ht := congrArg (·[i]?) htuple
  simp only [List.getElem?_map] at hi hk ht
  rcases he : es[i]? with _ | e <;> rcases he' : es'[i]? with _ | e'
  · rfl
  · simp [he, he'] at hi
  · simp [he, he'] at hi
  · simp only [he, he', Option.map_some, Option.some.injEq] at hi hk ht
    obtain ⟨index, key, tuple⟩ := e
    obtain rfl : index = e'.index := hi
    obtain rfl : key = e'.key := hk
    obtain rfl : tuple = e'.tuple := ht
    rfl

theorem UpdatedRows.Holds.holds_iff {r : UpdatedRows} {es es' : List Entry} (h : r.Holds es) :
    r.Holds es' ↔ es = es' := by
  constructor
  · exact h.unique
  · rintro rfl
    exact h

/-- The place of a row is one of its entries. -/
theorem lastUpdated_some {updated : List Int} {index : Int} {n i : Nat}
    (h : lastUpdated updated index n = some i) : i < n ∧ updated[i]? = some index := by
  induction n with
  | zero => simp [lastUpdated] at h
  | succ n ih =>
    rw [lastUpdated] at h
    split at h
    · next hn =>
      obtain rfl := Option.some.inj h
      exact ⟨Nat.lt_succ_self _, hn⟩
    · obtain ⟨hlt, hi⟩ := ih h
      exact ⟨by omega, hi⟩

/-- The newest entry of a row that has a place. -/
theorem UpdatedRows.Holds.newest {r : UpdatedRows} {es : List Entry} (h : r.Holds es) {index : Int}
    {i : Nat} (hi : r.place index = some i) {e : Entry} (he : es[i]? = some e) :
    r.newest index = some (e.key, e.tuple) := by
  have hkey : r.updated_keyset[i]? = some e.key := by rw [h.key, List.getElem?_map, he]; rfl
  have htuple : r.updated_tuples.bind (·[i]?) = e.tuple := by
    have ht := h.tuple
    rcases hts : r.updated_tuples with _ | ts
    · rw [hts, Option.elim_none] at ht
      rw [ht e (List.mem_of_getElem? he)]
      rfl
    · rw [hts, Option.elim_some] at ht
      have hi := congrArg (·[i]?) ht
      simp only [List.getElem?_map, he, Option.map_some] at hi
      rw [Option.bind_some]
      rcases hget : ts[i]? with _ | t
      · simp [hget] at hi
      · rw [hget, Option.map_some, Option.some.injEq] at hi
        exact hi.symm
  simp only [UpdatedRows.newest, hi, hkey, htuple, Option.map_some]

/-- A change of an entry that is left out does not show. -/
theorem filter_modify {α : Type} (p : α → Bool) (f : α → α) {l : List α} {i : Nat}
    (h : ∀ a, l[i]? = some a → p a = false ∧ p (f a) = false) :
    (l.modify i f).filter p = l.filter p := by
  induction l generalizing i with
  | nil => simp
  | cons a l ih =>
    cases i with
    | zero =>
      obtain ⟨ha, hf⟩ := h a rfl
      simp [ha, hf]
    | succ i =>
      rw [List.modify_succ_cons, List.filter_cons, List.filter_cons, ih fun b hb => h b hb]

/-! ### The three ways -/

/-- An appended update is recorded. -/
theorem UpdatedRows.Inv.recorded_append {r : UpdatedRows} (h : r.Inv)
    (hn : r.up_count + 1 ≤ 20480) (index : Int) {key keyset : KeySet}
    (hkey : ctid key = ctid keyset) (tuple : Tuple) :
    Recorded r ((r.enlarged r.nextAlloc).append index key tuple) index keyset tuple
      (if (r.enlarged r.nextAlloc).updated_tuples.isSome then
        [⟨(r.enlarged r.nextAlloc).up_alloc, r.up_count⟩] else []) := by
  obtain ⟨es, hes⟩ := h.holds
  have hroom : r.up_count + 1 < 2 ^ 16 := by omega
  have happ := (h.holds_enlarged hes r.nextAlloc).append hroom index key tuple
  have hplace : ((r.enlarged r.nextAlloc).append index key tuple).place index =
      some r.up_count := by
    have hlen : r.updated.length = r.up_count := by rw [hes.index, List.length_map, hes.count]
    simp only [UpdatedRows.place, UpdatedRows.append, UpdatedRows.enlarged,
      Nat.mod_eq_of_lt hroom, lastUpdated]
    rw [if_pos (by rw [← hlen]; simp)]
  refine ⟨?_, ?_, fun i _ => rfl, ?_⟩
  · have hlast := happ.newest hplace (by rw [hes.count]; exact List.getElem?_concat_length)
    refine ⟨_, _, hlast, hkey, fun data hdata => ?_⟩
    obtain ⟨-, -, rfl⟩ := Option.map_eq_some_iff.mp hdata
    rfl
  · intro fs fs' hfs hfs'
    obtain rfl := hfs.unique hes
    obtain rfl := hfs'.unique happ
    simp
  · intro w hw
    split at hw
    · rw [List.mem_singleton] at hw
      subst hw
      exact ⟨Int.natCast_nonneg _, Int.ofNat_lt.mpr (h.nextAlloc hn).1⟩
    · exact absurd hw List.not_mem_nil

/-- An entry that is marked is recorded only where there is nothing new to store. -/
theorem UpdatedRows.Inv.recorded_inPlace {r : UpdatedRows} (h : r.Inv) {index : Int} {i : Nat}
    (hi : r.place index = some i) (status : BitVec 16) (keyset : KeySet) (tuple : Tuple) :
    Recorded r (r.setStatus i status) index keyset tuple
        (if r.updated_tuples.isSome then [⟨r.added.ad_alloc, -1⟩] else []) ↔
      r.updated_tuples = none ∧ r.updated_keyset[i]?.map ctid = some (ctid keyset) := by
  obtain ⟨es, hes⟩ := h.holds
  obtain ⟨hlt, hindex⟩ := lastUpdated_some hi
  obtain ⟨e, he⟩ : ∃ e, es[i]? = some e :=
    ⟨_, List.getElem?_eq_getElem (hes.count ▸ hlt)⟩
  have hkey : r.updated_keyset[i]? = some e.key := by rw [hes.key, List.getElem?_map, he]; rfl
  have hnewest : (r.setStatus i status).newest index =
      some ((e.setStatus status).key, e.tuple) :=
    (hes.setStatus i status).newest hi (by simp [he, Entry.setStatus])
  rw [hkey, Option.map_some, Option.some.injEq]
  constructor
  · rintro ⟨⟨k, t, hnew, hctid, -⟩, -, -, hin⟩
    rw [hnewest, Option.some.injEq, Prod.mk.injEq] at hnew
    rw [← hnew.1] at hctid
    refine ⟨?_, hctid⟩
    rcases hts : r.updated_tuples with _ | ts
    · rfl
    · -- the data would be written before the added rows
      have hneg : (0 : Int) ≤ -1 := (hin ⟨r.added.ad_alloc, -1⟩ (by simp [hts])).1
      omega
  · rintro ⟨hnone, hctid⟩
    have htuple : e.tuple = none := by
      have ht := hes.tuple
      rw [hnone, Option.elim_none] at ht
      exact ht e (List.mem_of_getElem? he)
    refine ⟨⟨_, _, hnewest, hctid, by simp [htuple]⟩, ?_, fun _ _ => rfl, by simp [hnone]⟩
    intro fs fs' hfs hfs'
    obtain rfl := hfs.unique hes
    obtain rfl := hfs'.unique (hes.setStatus i status)
    refine filter_modify _ _ fun e' he' => ?_
    have heq : e'.index = index := by
      rw [hes.index, List.getElem?_map, he'] at hindex
      exact Option.some.inj hindex
    simp [Entry.setStatus, heq]

/-- The row behind all others is recorded only where it is the first added row and has its key. -/
theorem UpdatedRows.Inv.recorded_added {r : UpdatedRows} {index : Int}
    (hi : r.place index = none) (hlast : index = r.num_total_tuples) (status : BitVec 16)
    (keyset : KeySet) (tuple : Tuple) :
    Recorded r { r with added := (r.added.setStatus 0 status).setTuple 0 tuple } index keyset tuple
        (if r.added.added_tuples.isSome then [⟨r.added.ad_alloc, 0⟩] else []) ↔
      r.reached_eof = false ∧ r.added.added_keyset[0]?.map ctid = some (ctid keyset) := by
  have hnewest : UpdatedRows.newest
      { r with added := (r.added.setStatus 0 status).setTuple 0 tuple } index =
        ((r.added.setStatus 0 status).setTuple 0 tuple).entry (index - r.num_total_read) := by
    rw [UpdatedRows.place] at hi
    simp only [UpdatedRows.newest, UpdatedRows.place, hi]
  have hkeys : ((r.added.setStatus 0 status).setTuple 0 tuple).added_keyset.length =
      r.added.added_keyset.length := List.length_modify _ _ _
  constructor
  · rintro ⟨⟨k, t, hnew, hctid, -⟩, -, -, -⟩
    rw [hnewest] at hnew
    have heof : r.reached_eof = false := by
      rcases heof : r.reached_eof with _ | _
      · rfl
      · -- all rows have been read: behind them and the added ones there is nothing
        have hidx : index - r.num_total_read = r.added.added_keyset.length := by
          rw [hlast, UpdatedRows.num_total_tuples, heof, if_pos rfl]
          push_cast
          ring
        rw [hidx, AddedRows.entry, if_pos (Int.natCast_nonneg _), Int.toNat_natCast,
          List.getElem?_eq_none (by rw [hkeys])] at hnew
        exact absurd hnew (by simp)
    refine ⟨heof, ?_⟩
    have hidx : index - r.num_total_read = 0 := by
      rw [hlast, UpdatedRows.num_total_tuples, heof]
      simp
    rw [hidx, AddedRows.entry, if_pos (le_refl _)] at hnew
    rcases hk : r.added.added_keyset[0]? with _ | k0
    · simp [AddedRows.setTuple, AddedRows.setStatus, hk] at hnew
    · simp only [AddedRows.setTuple, AddedRows.setStatus, Int.toNat_zero, List.getElem?_modify, hk,
        Option.map_eq_map, Option.map_some, if_true, Option.some.injEq, Prod.mk.injEq] at hnew
      rw [Option.map_some, ← hctid, ← hnew.1]
      rfl
  · rintro ⟨heof, hctid⟩
    obtain ⟨k0, hk, hc⟩ := Option.map_eq_some_iff.mp hctid
    have hpos : 0 < r.added.added_keyset.length := (List.getElem?_eq_some_iff.mp hk).1
    have hidx : index - r.num_total_read = 0 := by
      rw [hlast, UpdatedRows.num_total_tuples, heof]
      simp
    refine ⟨⟨{ k0 with status := status }, r.added.added_tuples.map fun _ => tuple, ?_, hc, ?_⟩, ?_,
      ?_, ?_⟩
    · rw [hnewest, hidx, AddedRows.entry, if_pos (le_refl _)]
      have hdata : (r.added.added_tuples.map (·.set 0 tuple)).bind (·[0]?) =
          r.added.added_tuples.map fun _ => tuple := by
        rcases hts : r.added.added_tuples with _ | ts
        · rfl
        · have hlen : 0 < ts.length := by rw [r.added.aligned ts hts]; exact hpos
          simp [hlen]
      simp [AddedRows.setTuple, AddedRows.setStatus, hk, hdata]
    · intro data hdata
      obtain ⟨-, -, rfl⟩ := Option.map_eq_some_iff.mp hdata
      rfl
    · intro fs fs' hfs hfs'
      have hsame : UpdatedRows.Holds r fs' := ⟨hfs'.count, hfs'.index, hfs'.key, hfs'.tuple⟩
      rw [hfs.unique hsame]
    · -- only the first added row was changed
      intro j hj
      have hne : j ≠ 0 := by rintro rfl; omega
      rw [AddedRows.entry, AddedRows.entry]
      split
      · have hj0 : 0 ≠ j.toNat := by omega
        simp only [AddedRows.setTuple, AddedRows.setStatus, List.getElem?_modify, if_neg hj0,
          Option.map_eq_map, Option.map_id', Option.bind_map, Function.comp_def, List.getElem?_set]
      · rfl
    · intro w hw
      split at hw
      · rw [List.mem_singleton] at hw
        subst hw
        have hroom := r.added.room
        have halloc : 0 < r.added.ad_alloc := by omega
        exact ⟨le_refl (0 : Int), Int.ofNat_lt.mpr halloc⟩
      · exact absurd hw List.not_mem_nil

/-- **What `AddUpdated` records.** In every state that calls lead to, the newest entry of a row that
is updated has its key and its data, the entries of the other rows are unchanged and data is only
written within the arrays, exactly when the update is a new entry that there is room for, or has
nothing new to store in the entry that is marked. -/
theorem addUpdated_records_iff {r : UpdatedRows} (h : r.Reachable) (in_trans : Bool) (index : Int)
    (keyset : KeySet) (tuple : Tuple) :
    r.Records in_trans index keyset tuple ↔ r.Recordable in_trans index keyset := by
  have hinv := h.inv
  rcases AddUpdated_ways r in_trans index with hcond | ⟨rfl, i, hi⟩ | ⟨rfl, hi, hlast⟩
  · rw [UpdatedRows.Recordable, if_pos hcond]
    constructor
    · rintro ⟨fuel, r', ws, hr, -⟩
      rw [AddUpdated_append hinv hcond] at hr
      obtain ⟨t, ht, -⟩ := Option.map_eq_some_iff.mp hr
      exact (enlargeUpdated_some hinv ht).1
    · intro hn
      obtain ⟨⟨fuel, hsome⟩, -⟩ := enlargeUpdated_of_room hinv hn
      have hr := AddUpdated_append hinv hcond fuel keyset tuple
      have hkey : ctid { keyset with status := updatedStatus in_trans keyset.status } = ctid keyset :=
        rfl
      rw [hsome, Option.map_some] at hr
      exact ⟨fuel, _, _, hr, hinv.recorded_append hn index hkey tuple⟩
  · have hno : ¬ (false = true ∨ r.place index = none ∧ index ≠ r.num_total_tuples) := by
      simp [hi]
    rw [UpdatedRows.Recordable, if_neg hno]
    simp only [hi]
    rw [← hinv.recorded_inPlace hi (updatedStatus false keyset.status) keyset tuple]
    simp only [UpdatedRows.Records, AddUpdated_inPlace hinv hi]
    simp
  · have hno : ¬ (false = true ∨ r.place index = none ∧ index ≠ r.num_total_tuples) := by
      simp [hlast]
    rw [UpdatedRows.Recordable, if_neg hno]
    simp only [hi]
    rw [← UpdatedRows.Inv.recorded_added hi hlast (updatedStatus false keyset.status) keyset tuple]
    simp only [UpdatedRows.Records, AddUpdated_added hinv hi hlast]
    simp

/-! ### Two updates of one row -/

/-- The key of a row at a place in its block. -/
def keyAt (offset : BitVec 16) : KeySet := { offset := offset }

/-- One row was read and updated, outside a transaction. -/
def updatedOnce : UpdatedRows :=
  { UpdatedRows.cleared false with
    num_total_read := 1
    updated := [0]
    updated_keyset := [{ keyAt 1 with status := updatedStatus false 0 }]
    updated_tuples := some [[some [97]]]
    up_alloc := 10
    up_count := 1 }

theorem updatedOnce_reachable : updatedOnce.Reachable := by
  have hread : UpdatedRows.Reachable { UpdatedRows.cleared false with num_total_read := 1 } :=
    .step (.start false) (@UpdateCall.Leads.rows false 1 (UpdatedRows.cleared false).added _)
  have hupdate : AddUpdated 0 false { UpdatedRows.cleared false with num_total_read := 1 } 0
      (keyAt 1) [some [97]] = some (updatedOnce, [⟨10, 0⟩]) := rfl
  exact .step hread (.update hupdate)

/-- A first update outside a transaction is recorded. -/
theorem addUpdated_records_first :
    (UpdatedRows.cleared false).Records false (-1) (keyAt 1) [some [97]] :=
  (addUpdated_records_iff (.start false) false (-1) (keyAt 1) [some [97]]).mpr (by
    have hplace : (UpdatedRows.cleared false).place (-1) = none := rfl
    have hcond : false = true ∨ (UpdatedRows.cleared false).place (-1) = none ∧
        (-1 : Int) ≠ (UpdatedRows.cleared false).num_total_tuples := Or.inr ⟨hplace, by decide⟩
    rw [UpdatedRows.Recordable, if_pos hcond]
    decide)

/-- A second one is not: the data is written before the added rows, and the entry keeps the first
key. -/
theorem addUpdated_again_not_recorded :
    updatedOnce.Reachable ∧ ¬ updatedOnce.Records false 0 (keyAt 2) [some [98]] := by
  refine ⟨updatedOnce_reachable, ?_⟩
  rintro ⟨fuel, r', ws, hr, hrec⟩
  have hi : updatedOnce.place 0 = some 0 := rfl
  rw [AddUpdated_inPlace updatedOnce_reachable.inv hi, Option.some.injEq, Prod.mk.injEq] at hr
  obtain ⟨rfl, rfl⟩ := hr
  have hneg : (0 : Int) ≤ -1 := (hrec.inBounds ⟨0, -1⟩ List.mem_cons_self).1
  omega

end OdbcDriver.RowLists
