import Mathlib.Data.List.InsertIdx
import Mathlib.Tactic.IntervalCases
import OdbcDriver.Result.UpdatedRows

/-!
# What the calls do to the updated rows

Of the room for one more entry: it is there or is made in one doubling, up to 20480 entries. In 16
signed bits the capacity that comes next is negative, and from there the doubling only goes round the
values below 20481 (`double_alloc_le`), so the loop of `enlargeUpdated` does not end.

`AddUpdated_cases` says what a call of `AddUpdated` that returns has done, and
`RemoveUpdatedAfterTheKey_holds` which entries are left by a removal. Each call keeps the arrays
aligned, so every reachable state meets `UpdatedRows.Inv`.
-/

namespace OdbcDriver.RowLists

open CInt Doubling Result SkipErase

/-! ### Room -/

/-- An allocation fits. -/
theorem wrap_alloc {k : Nat} (hk : k ≤ 11) : wrap 16 (10 * 2 ^ k) = 10 * 2 ^ k := by
  interval_cases k <;> decide

/-- No doubling of an allocation shows more than 20480. -/
theorem double_alloc_le {k : Nat} (hk : k ≤ 11) (j : Nat) :
    (double 16)^[j] (10 * 2 ^ k) ≤ 20480 := by
  have hpow : (2 : Int) ^ j * (10 * 2 ^ k) = 2 ^ (j + k) * 10 := by ring
  rw [iterate_double (wrap_alloc hk), hpow]
  by_cases hm : 16 ≤ j + k
  · rw [wrap_two_pow_mul (by decide) hm]
    decide
  · generalize j + k = m at hm
    have hm' : m < 16 := by omega
    interval_cases m <;> decide

/-- Eleven doublings of the first allocation make 20480, the last that fits. -/
theorem alloc_doubled {k : Nat} (hk : k ≤ 11) : (2 : Int) ^ (11 - k) * (10 * 2 ^ k) = 20480 := by
  interval_cases k <;> decide

/-- The allocation with room for one more than `count` entries: the one there is, where it has room,
and otherwise twice as much. -/
def nextCap (count cap : Nat) : Nat := if cap = 0 then 10 else if count < cap then cap else 2 * cap

theorem Alloc.next {m count cap : Nat} (h : Alloc m cap) (hroom : count ≤ cap)
    (hn : count + 1 ≤ 10 * 2 ^ m) : count < nextCap count cap ∧ Alloc m (nextCap count cap) := by
  rw [nextCap]
  rcases h with h0 | ⟨k, hk, ha⟩
  · rw [if_pos h0]
    exact ⟨by omega, Or.inr ⟨0, by omega, rfl⟩⟩
  · have hpos : cap ≠ 0 := by rw [ha]; positivity
    rw [if_neg hpos]
    split
    · exact ⟨‹_›, Or.inr ⟨k, hk, ha⟩⟩
    · -- the largest array is not full yet
      have hlt : k ≠ m := by
        rintro rfl
        omega
      exact ⟨by omega, Or.inr ⟨k + 1, by omega, by rw [ha, pow_succ]; ring⟩⟩

/-- The allocation is enlarged: the arrays are there, and are as they were. -/
def UpdatedRows.enlarged (r : UpdatedRows) (cap : Nat) : UpdatedRows :=
  { r with
    updated_tuples := if r.keyset_driven then r.updated_tuples else some (r.updated_tuples.getD [])
    up_alloc := cap }

/-- Enlarging to what is there changes nothing. -/
theorem UpdatedRows.Inv.enlarged_self {r : UpdatedRows} (h : r.Inv) (h0 : r.up_alloc ≠ 0) :
    r.enlarged r.up_alloc = r := by
  have htuples : (if r.keyset_driven then r.updated_tuples else some (r.updated_tuples.getD [])) =
      r.updated_tuples := by
    split
    · rfl
    · next hk =>
      rcases ht : r.updated_tuples with _ | ts
      · exact absurd (h.kept ht) (by simp [hk, h0])
      · rfl
  rw [UpdatedRows.enlarged, htuples]

/-- The allocation with room for one more entry. -/
def UpdatedRows.nextAlloc (r : UpdatedRows) : Nat := nextCap r.up_count r.up_alloc

/-- Below 20481 entries `enlargeUpdated` returns, with room for one more, and nothing is cut. -/
theorem enlargeUpdated_of_room {r : UpdatedRows} (h : r.Inv) (hn : r.up_count + 1 ≤ 20480) :
    (∃ fuel, enlargeUpdated fuel r (r.up_count + 1) = some (r.enlarged r.nextAlloc)) ∧
      (r.up_alloc ≠ 0 → ¬ Overflows 16 (r.up_count + 1) (wrap 16 r.up_alloc)) := by
  have hroom := h.room
  rcases h.alloc with h0 | ⟨k, hk, ha⟩
  · have hc : r.up_count = 0 := by omega
    refine ⟨⟨0, ?_⟩, fun hne => absurd h0 hne⟩
    simp [enlargeUpdated, UpdatedRows.enlarged, UpdatedRows.nextAlloc, nextCap, h0, hc, wrap, uwrap]
  · have hcast : (r.up_alloc : Int) = 10 * 2 ^ k := by rw [ha]; push_cast; ring
    have hpos : r.up_alloc ≠ 0 := by rw [ha]; positivity
    have hwrap : wrap 16 (r.up_alloc : Int) = 10 * 2 ^ k := by
      rw [hcast, wrap_alloc hk]
    have hfits : Fits 16 ((2 : Int) ^ (11 - k) * (10 * 2 ^ k)) := by
      rw [alloc_doubled hk]
      decide
    obtain ⟨i, hi, hlow, hsome, hover⟩ := doubleUntil_of_fits (n := r.up_count + 1)
      (by decide) (by positivity) hfits (by rw [alloc_doubled hk]; omega)
    refine ⟨⟨11 - k, ?_⟩, fun _ => hwrap ▸ hover⟩
    simp only [enlargeUpdated, if_neg hpos, hwrap, hsome, Option.bind_eq_bind, Option.bind_some]
    by_cases hfull : r.up_count < r.up_alloc
    · -- there is room: the loop is not entered
      obtain rfl : i = 0 := by
        by_contra hne
        have := hlow 0 (by omega)
        omega
      have hle : (2 : Int) ^ 0 * (10 * 2 ^ k) ≤ r.up_alloc := by rw [hcast]; simp
      rw [if_pos hle, UpdatedRows.nextAlloc, nextCap, if_neg hpos, if_pos hfull, h.enlarged_self hpos]
      rfl
    · -- the array is full: one doubling makes room
      obtain rfl : i = 1 := by
        rcases i with _ | _ | i
        · omega
        · rfl
        · have := hlow 1 (by omega)
          have h10 : (1 : Int) ≤ 2 ^ k := one_le_pow₀ (by norm_num)
          omega
      have hle : ¬ (2 : Int) ^ 1 * (10 * 2 ^ k) ≤ r.up_alloc := by
        have h10 : (1 : Int) ≤ 2 ^ k := one_le_pow₀ (by norm_num)
        omega
      have hcap : (uwrap 16 ((2 : Int) ^ 1 * (10 * 2 ^ k))).toNat = 2 * r.up_alloc := by
        rw [ha]
        interval_cases k <;> decide
      rw [if_neg hle, UpdatedRows.nextAlloc, nextCap, if_neg hpos, if_neg hfull, hcap]
      rfl

/-- From 20480 entries on the loop of `enlargeUpdated` does not end. -/
theorem enlargeUpdated_none {r : UpdatedRows} (h : r.Inv) (hn : ¬ r.up_count + 1 ≤ 20480)
    (fuel : Nat) : enlargeUpdated fuel r (r.up_count + 1) = none := by
  have hroom := h.room
  rcases h.alloc with h0 | ⟨k, hk, ha⟩
  · omega
  · have hpos : r.up_alloc ≠ 0 := by rw [ha]; positivity
    have hwrap : wrap 16 (r.up_alloc : Int) = 10 * 2 ^ k := by
      rw [ha]
      exact_mod_cast wrap_alloc hk
    have hnone : doubleUntil 16 (r.up_count + 1) fuel (10 * 2 ^ k) = none :=
      doubleUntil_none (fun j => by have := double_alloc_le hk j; omega) fuel
    simp [enlargeUpdated, hpos, hwrap, hnone]

/-- What `enlargeUpdated` has done where it returns. -/
theorem enlargeUpdated_some {r r' : UpdatedRows} (h : r.Inv) {fuel : Nat}
    (hr : enlargeUpdated fuel r (r.up_count + 1) = some r') :
    r.up_count + 1 ≤ 20480 ∧ r' = r.enlarged r.nextAlloc := by
  have hn : r.up_count + 1 ≤ 20480 := by
    by_contra hn
    rw [enlargeUpdated_none h hn] at hr
    exact absurd hr (by simp)
  refine ⟨hn, ?_⟩
  obtain ⟨⟨fuel', hr'⟩, -⟩ := enlargeUpdated_of_room h hn
  by_cases hpos : r.up_alloc = 0
  · simp only [enlargeUpdated, if_pos hpos] at hr hr'
    exact Option.some.inj (hr.symm.trans hr')
  · simp only [enlargeUpdated, if_neg hpos, Option.bind_eq_bind] at hr hr'
    obtain ⟨c, hc, hrc⟩ := Option.bind_eq_some_iff.mp hr
    obtain ⟨d, hd, hrd⟩ := Option.bind_eq_some_iff.mp hr'
    obtain rfl := doubleUntil_unique hc hd
    exact Option.some.inj (hrc.symm.trans hrd)

/-! ### The entries -/

/-- The entries tell where the arrays are enlarged. -/
theorem UpdatedRows.Inv.holds_enlarged {r : UpdatedRows} (h : r.Inv) {es : List Entry}
    (hes : r.Holds es) (cap : Nat) : (r.enlarged cap).Holds es where
  count := hes.count
  index := hes.index
  key := hes.key
  tuple := by
    have ht := hes.tuple
    simp only [UpdatedRows.enlarged]
    split
    · exact ht
    · next hk =>
      rcases hts : r.updated_tuples with _ | ts
      · -- nothing was allocated, so there is no entry yet
        have h0 : r.up_alloc = 0 := (h.kept hts).resolve_left hk
        have hroom := h.room
        have hcount := hes.count
        obtain rfl : es = [] := List.length_eq_zero_iff.mp (by omega)
        rfl
      · rw [hts] at ht
        exact ht

/-- An entry is appended. -/
theorem UpdatedRows.Holds.append {r : UpdatedRows} {es : List Entry} (h : r.Holds es)
    (hroom : r.up_count + 1 < 2 ^ 16) (index : Int) (key : KeySet) (tuple : Tuple) :
    (r.append index key tuple).Holds
      (es ++ [⟨index, key, r.updated_tuples.map fun _ => tuple⟩]) where
  count := by
    rw [UpdatedRows.append, List.length_append, Nat.mod_eq_of_lt hroom, h.count]
    rfl
  index := by simp [UpdatedRows.append, h.index]
  key := by simp [UpdatedRows.append, h.key]
  tuple := by
    have ht := h.tuple
    rcases hts : r.updated_tuples with _ | ts
    · rw [hts, Option.elim_none] at ht
      simp only [UpdatedRows.append, hts, Option.map_none, Option.elim_none, List.mem_append,
        List.mem_singleton]
      rintro e (he | rfl)
      · exact ht e he
      · rfl
    · rw [hts, Option.elim_some] at ht
      simp [UpdatedRows.append, hts, ht]

/-- An entry is taken out. -/
theorem UpdatedRows.Holds.removeAt {r : UpdatedRows} {es : List Entry} (h : r.Holds es) {i : Nat}
    (hi : i < es.length) : (r.removeAt i).Holds (es.eraseIdx i) where
  count := by rw [UpdatedRows.removeAt, List.length_eraseIdx_of_lt hi, h.count]
  index := by simp [UpdatedRows.removeAt, h.index, List.eraseIdx_map]
  key := by simp [UpdatedRows.removeAt, h.key, List.eraseIdx_map]
  tuple := by
    have ht := h.tuple
    rcases hts : r.updated_tuples with _ | ts
    · rw [hts] at ht
      simp only [UpdatedRows.removeAt, hts, Option.map_none, Option.elim_none]
      exact fun e he => ht e (List.mem_of_mem_eraseIdx he)
    · rw [hts, Option.elim_some] at ht
      simp only [UpdatedRows.removeAt, hts, Option.map_some, Option.elim_some]
      rw [← List.eraseIdx_map, ht, List.eraseIdx_map]

/-- Keys are changed in place. -/
theorem UpdatedRows.Holds.mapKeys {r : UpdatedRows} {es : List Entry} (h : r.Holds es)
    {es' : List Entry} {keys : List KeySet} (hkeys : keys = es'.map Entry.key)
    (hindex : es'.map Entry.index = es.map Entry.index)
    (htuple : es'.map Entry.tuple = es.map Entry.tuple) :
    UpdatedRows.Holds { r with updated_keyset := keys } es' where
  count := by
    rw [h.count, ← List.length_map Entry.index, ← hindex, List.length_map]
  index := by rw [hindex]; exact h.index
  key := hkeys
  tuple := by
    have ht := h.tuple
    rcases hts : r.updated_tuples with _ | ts
    · rw [hts, Option.elim_none] at ht
      simp only [hts, Option.elim_none]
      intro e he
      obtain ⟨e', he', heq⟩ := List.mem_map.mp (htuple ▸ List.mem_map_of_mem he)
      exact heq ▸ ht e' he'
    · rw [hts, Option.elim_some] at ht
      simpa only [hts, Option.elim_some, htuple] using ht

/-- An entry's status. -/
def Entry.setStatus (status : BitVec 16) (e : Entry) : Entry :=
  { e with key := { e.key with status := status } }

/-- The fields of the entries where one entry is changed. -/
theorem map_modify {α β : Type} (f : α → β) (g : α → α) (g' : β → β) (h : ∀ a, f (g a) = g' (f a))
    (l : List α) (i : Nat) : (l.modify i g).map f = (l.map f).modify i g' := by
  apply List.ext_getElem?
  intro j
  simp only [List.getElem?_modify, List.getElem?_map]
  rcases l[j]? with _ | a
  · rfl
  · by_cases hij : i = j <;> simp [hij, h]

theorem UpdatedRows.Holds.setStatus {r : UpdatedRows} {es : List Entry} (h : r.Holds es) (i : Nat)
    (status : BitVec 16) : (r.setStatus i status).Holds (es.modify i (Entry.setStatus status)) := by
  have hid : ∀ {β : Type} (f : Entry → β), (∀ e, f (e.setStatus status) = f e) →
      (es.modify i (Entry.setStatus status)).map f = es.map f := fun f hf => by
    rw [map_modify f _ id hf, List.modify_id]
  refine h.mapKeys ?_ (hid _ fun _ => rfl) (hid _ fun _ => rfl)
  rw [h.key, map_modify Entry.key _ (fun k => { k with status := status }) fun _ => rfl]

/-- The keys after a commit. -/
def Entry.commit (e : Entry) : Entry := { e with key := e.key.commit }

theorem UpdatedRows.Holds.commit {r : UpdatedRows} {es : List Entry} (h : r.Holds es) :
    (CommitUpdated r).Holds (es.map Entry.commit) :=
  h.mapKeys (by simp [h.key, Entry.commit]) (by simp [Entry.commit]) (by simp [Entry.commit])

/-! ### Removals -/

/-- The entry is of the row. -/
def Entry.OfRow (row : Int × Int) (e : Entry) : Bool := e.index == row.1 || e.index == row.2

/-- The entry has the key. -/
def Entry.HasKey (keyset : Option KeySet) (e : Entry) : Bool :=
  keyset.isSome && some (ctid e.key) == keyset.map ctid

/-- `RemoveUpdatedAfterTheKey` leaves the arrays aligned. -/
theorem RemoveUpdatedAfterTheKey_holds {r : UpdatedRows} {es : List Entry} (h : r.Holds es)
    (index : Int) (keyset : Option KeySet) :
    (RemoveUpdatedAfterTheKey r index keyset).Holds
      (skipErase (Entry.OfRow (rowNumbers r.num_total_read index)) (Entry.HasKey keyset) es) := by
  refine eraseLoop_holds (fun h => h.count) ?_ ?_ (fun h hi => h.removeAt hi) [] h h.count.ge
  · intro s l i e hl he
    rw [hl.index, List.getElem?_map, he]
    rfl
  · intro s l i e hl he
    rw [hl.key, List.getElem?_map, he]
    rfl

/-- A removal leaves the allocation alone. -/
theorem RemoveUpdatedAfterTheKey_frame (r : UpdatedRows) (index : Int) (keyset : Option KeySet) :
    (RemoveUpdatedAfterTheKey r index keyset).up_alloc = r.up_alloc ∧
      (RemoveUpdatedAfterTheKey r index keyset).keyset_driven = r.keyset_driven ∧
        ((RemoveUpdatedAfterTheKey r index keyset).updated_tuples = none ↔
          r.updated_tuples = none) := by
  refine eraseLoop_invariant (P := fun t : UpdatedRows => t.up_alloc = r.up_alloc ∧
    t.keyset_driven = r.keyset_driven ∧ (t.updated_tuples = none ↔ r.updated_tuples = none))
    ?_ ⟨rfl, rfl, Iff.rfl⟩
  rintro t i ⟨halloc, hkind, htuples⟩
  exact ⟨halloc, hkind, by simpa [UpdatedRows.removeAt] using htuples⟩

theorem UpdatedRows.Inv.remove {r : UpdatedRows} (h : r.Inv) (index : Int)
    (keyset : Option KeySet) : (RemoveUpdatedAfterTheKey r index keyset).Inv := by
  obtain ⟨es, hes⟩ := h.holds
  obtain ⟨halloc, hkind, htuples⟩ := RemoveUpdatedAfterTheKey_frame r index keyset
  have hleft := RemoveUpdatedAfterTheKey_holds hes index keyset
  refine ⟨⟨_, hleft⟩, ?_, ?_, ?_⟩
  · have hle : (skipErase (Entry.OfRow (rowNumbers r.num_total_read index))
        (Entry.HasKey keyset) es).length ≤ es.length := (skipErase_sublist es).length_le
    calc (RemoveUpdatedAfterTheKey r index keyset).up_count
        _ ≤ es.length := hleft.count ▸ hle
        _ ≤ r.up_alloc := hes.count ▸ h.room
        _ = _ := halloc.symm
  · exact halloc.symm ▸ h.alloc
  · intro hnone
    rw [hkind, halloc]
    exact h.kept (htuples.mp hnone)

/-! ### Updates -/

/-- The last place where the row is, of the first ones. -/
theorem lastUpdated_none_iff {updated : List Int} {index : Int} {n : Nat} :
    lastUpdated updated index n = none ↔ ∀ i < n, updated[i]? ≠ some index := by
  induction n with
  | zero => simp [lastUpdated]
  | succ n ih =>
    rw [lastUpdated]
    split
    · next h => simp only [reduceCtorEq, false_iff]; exact fun hall => hall n (by omega) h
    · next h =>
      rw [ih]
      constructor
      · intro hall i hi
        rcases Nat.lt_succ_iff_lt_or_eq.mp hi with hi | rfl
        · exact hall i hi
        · exact h
      · exact fun hall i hi => hall i (by omega)

/-- The place that `AddUpdated` takes for the row's entry. -/
def UpdatedRows.place (r : UpdatedRows) (index : Int) : Option Nat :=
  lastUpdated r.updated index r.up_count

/-- The arrays have not been given up. -/
theorem UpdatedRows.Inv.has_room {r : UpdatedRows} (h : r.Inv) :
    ¬ (r.up_count > 0 ∧ r.up_alloc = 0) := by
  have := h.room
  omega

/-- In a transaction, and for a row that is not in the lists and not the one behind all others, the
update is appended. -/
theorem AddUpdated_append {r : UpdatedRows} (h : r.Inv) {in_trans : Bool} {index : Int}
    (hcond : in_trans = true ∨ r.place index = none ∧ index ≠ r.num_total_tuples) (fuel : Nat)
    (keyset : KeySet) (tuple : Tuple) :
    AddUpdated fuel in_trans r index keyset tuple =
      (enlargeUpdated fuel r (r.up_count + 1)).map fun r' =>
        (r'.append index { keyset with status := updatedStatus in_trans keyset.status } tuple,
          if r'.updated_tuples.isSome then [⟨r'.up_alloc, r.up_count⟩] else []) := by
  have hno : (if in_trans = true then none else lastUpdated r.updated index r.up_count) = none := by
    rcases hcond with ht | ⟨hnone, -⟩
    · rw [if_pos ht]
    · rw [UpdatedRows.place] at hnone
      rw [hnone, ite_self]
  have hneg : ¬ (0 : Int) ≤ if (!in_trans && (none : Option Nat).isNone &&
      decide ((r.num_total_tuples : Int) ≤ index)) = true then r.num_total_tuples - index else -1 := by
    split
    · next hc =>
      simp only [Bool.and_eq_true, Bool.not_eq_true', decide_eq_true_eq] at hc
      rcases hcond with ht | ⟨-, hne⟩
      · simp [ht] at hc
      · omega
    · omega
  rw [AddUpdated, if_neg h.has_room]
  simp only [hno, if_neg hneg]
  cases enlargeUpdated fuel r (r.up_count + 1) <;> rfl

/-- Outside a transaction the entry of a row that is in the lists is only marked. -/
theorem AddUpdated_inPlace {r : UpdatedRows} (h : r.Inv) {index : Int} {i : Nat}
    (hi : r.place index = some i) (fuel : Nat) (keyset : KeySet) (tuple : Tuple) :
    AddUpdated fuel false r index keyset tuple =
      some (r.setStatus i (updatedStatus false keyset.status),
        if r.updated_tuples.isSome then [⟨r.added.ad_alloc, -1⟩] else []) := by
  rw [UpdatedRows.place] at hi
  rw [AddUpdated, if_neg h.has_room]
  simp [hi]

/-- Outside a transaction the row behind all others is taken for the first added row. -/
theorem AddUpdated_added {r : UpdatedRows} (h : r.Inv) {index : Int}
    (hi : r.place index = none) (hlast : index = r.num_total_tuples) (fuel : Nat) (keyset : KeySet)
    (tuple : Tuple) :
    AddUpdated fuel false r index keyset tuple =
      some ({ r with added :=
          (r.added.setStatus 0 (updatedStatus false keyset.status)).setTuple 0 tuple },
        if r.added.added_tuples.isSome then [⟨r.added.ad_alloc, 0⟩] else []) := by
  subst hlast
  rw [UpdatedRows.place] at hi
  rw [AddUpdated, if_neg h.has_room]
  simp [hi]

/-- The three ways of `AddUpdated`. -/
theorem AddUpdated_ways (r : UpdatedRows) (in_trans : Bool) (index : Int) :
    (in_trans = true ∨ r.place index = none ∧ index ≠ r.num_total_tuples) ∨
      (in_trans = false ∧ ∃ i, r.place index = some i) ∨
        (in_trans = false ∧ r.place index = none ∧ index = r.num_total_tuples) := by
  rcases in_trans with _ | _
  · rcases hi : r.place index with _ | i
    · by_cases hlast : index = r.num_total_tuples
      · exact Or.inr (Or.inr ⟨rfl, rfl, hlast⟩)
      · exact Or.inl (Or.inr ⟨rfl, hlast⟩)
    · exact Or.inr (Or.inl ⟨rfl, i, rfl⟩)
  · exact Or.inl (Or.inl rfl)

/-! ### Runs -/

/-- There is room for one more entry, while the allocation can be doubled. -/
theorem UpdatedRows.Inv.nextAlloc {r : UpdatedRows} (h : r.Inv) (hn : r.up_count + 1 ≤ 20480) :
    r.up_count < r.nextAlloc ∧ Alloc 11 r.nextAlloc :=
  h.alloc.next h.room hn

/-- An appended update keeps the invariant. -/
theorem UpdatedRows.Inv.append {r : UpdatedRows} (h : r.Inv) (hn : r.up_count + 1 ≤ 20480)
    (index : Int) (key : KeySet) (tuple : Tuple) :
    ((r.enlarged r.nextAlloc).append index key tuple).Inv := by
  obtain ⟨es, hes⟩ := h.holds
  have hroom : r.up_count + 1 < 2 ^ 16 := by omega
  refine ⟨⟨_, (h.holds_enlarged hes r.nextAlloc).append hroom index key tuple⟩, ?_,
    (h.nextAlloc hn).2, ?_⟩
  · have hlt := (h.nextAlloc hn).1
    simp only [UpdatedRows.append, UpdatedRows.enlarged, Nat.mod_eq_of_lt hroom]
    exact hlt
  · intro hnone
    simp only [UpdatedRows.append, UpdatedRows.enlarged, Option.map_eq_none_iff] at hnone
    by_cases hk : r.keyset_driven
    · exact Or.inl hk
    · simp [hk] at hnone

/-- What `AddUpdated` leaves. -/
theorem AddUpdated_inv {r r' : UpdatedRows} {ws : List ArrayWrite} (h : r.Inv) {fuel : Nat}
    {in_trans : Bool} {index : Int} {keyset : KeySet} {tuple : Tuple}
    (hr : AddUpdated fuel in_trans r index keyset tuple = some (r', ws)) : r'.Inv := by
  rcases AddUpdated_ways r in_trans index with hcond | ⟨rfl, i, hi⟩ | ⟨rfl, hi, hlast⟩
  · rw [AddUpdated_append h hcond] at hr
    obtain ⟨t, ht, heq⟩ := Option.map_eq_some_iff.mp hr
    obtain ⟨hn, rfl⟩ := enlargeUpdated_some h ht
    exact (Prod.mk.inj heq).1 ▸ h.append hn index _ tuple
  · rw [AddUpdated_inPlace h hi, Option.some.injEq, Prod.mk.injEq] at hr
    obtain ⟨es, hes⟩ := h.holds
    exact hr.1 ▸ ⟨⟨_, hes.setStatus i _⟩, h.room, h.alloc, h.kept⟩
  · rw [AddUpdated_added h hi hlast, Option.some.injEq, Prod.mk.injEq] at hr
    obtain ⟨es, hes⟩ := h.holds
    exact hr.1 ▸ ⟨⟨es, hes.count, hes.index, hes.key, hes.tuple⟩, h.room, h.alloc, h.kept⟩

theorem UpdatedRows.cleared_holds (keyset_driven : Bool) :
    (UpdatedRows.cleared keyset_driven).Holds [] :=
  ⟨rfl, rfl, rfl, by simp [UpdatedRows.cleared]⟩

theorem UpdatedRows.cleared_inv (keyset_driven : Bool) : (UpdatedRows.cleared keyset_driven).Inv :=
  ⟨⟨[], cleared_holds _⟩, le_refl _, Or.inl rfl, fun _ => Or.inr rfl⟩

/-- Every call keeps the invariant. -/
theorem UpdateCall.Leads.inv {call : UpdateCall} {r r' : UpdatedRows} (hstep : call.Leads r r')
    (h : r.Inv) : r'.Inv := by
  cases hstep with
  | update hr => exact AddUpdated_inv h hr
  | remove => exact h.remove _ _
  | commit =>
    obtain ⟨es, hes⟩ := h.holds
    exact ⟨⟨_, hes.commit⟩, h.room, h.alloc, h.kept⟩
  | free => exact UpdatedRows.cleared_inv _
  | rows =>
    obtain ⟨es, hes⟩ := h.holds
    exact ⟨⟨es, hes.count, hes.index, hes.key, hes.tuple⟩, h.room, h.alloc, h.kept⟩

/-- The invariant holds in every state that calls lead to. -/
theorem UpdatedRows.Reachable.inv {r : UpdatedRows} (h : r.Reachable) : r.Inv := by
  induction h with
  | start keyset_driven => exact UpdatedRows.cleared_inv keyset_driven
  | step _ hstep ih => exact hstep.inv ih

end OdbcDriver.RowLists
