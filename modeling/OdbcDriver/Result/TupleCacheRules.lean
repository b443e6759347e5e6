import OdbcDriver.Result.TupleCache

/-!
# What fetches keep

The cached rows lie within their arrays (`Within`), and what is changed by the application can be found
in the cache. Before a fetch through a cursor `enlargeKeyCache` makes room for as many rows as the
cache is to hold (`enlargeKeyCache_room`), which is enough as long as no more rows are cached than
`cache_size` says; while the rows are read that room is used up, one row at a time
(`readTuple_ok`).
-/

namespace OdbcDriver.TupleCache

open CInt HeapArray Result
open Lib (ok_bind error_bind pure_eq_ok bind_eq_ok map_eq_ok foldlM_total)

variable {ρ : Type} {self self' : QResult ρ} {stmt : Stmt}

/-! ### Growing -/

theorem le_enlargedSize (curs : Bool) {alloc alloc_req : Nat} (h : alloc < alloc_req ∨ alloc = 0) :
    alloc_req ≤ enlargedSize curs alloc alloc_req ∧ alloc ≤ enlargedSize curs alloc alloc_req := by
  rw [enlargedSize]
  by_cases h0 : alloc < 1
  · rw [if_pos h0]
    split
    · omega
    · split <;> omega
  · rw [if_neg h0]
    exact ⟨le_doubleTo (by omega) (by omega) (by omega), le_doubleTo_self _ _ _⟩

/-- `enlargeKeyCache` changes the arrays only, and what is in them stays. -/
theorem enlargeKeyCache_keeps (self : QResult ρ) (add_size : Int) :
    ∃ b k, enlargeKeyCache self add_size = { self with backend_tuples := b, keyset := k } ∧
      self.backend_tuples <+: b ∧ self.keyset <+: k ∧ (self.haskeyset = false → k = self.keyset) := by
  rw [enlargeKeyCache]
  by_cases hadd : add_size ≤ 0
  · rw [if_pos hadd]
    exact ⟨_, _, rfl, List.prefix_refl _, List.prefix_refl _, fun _ => rfl⟩
  · rw [if_neg hadd]
    refine ⟨_, _, rfl, ?_, ?_, ?_⟩
    · split
      · next h => exact prefix_realloc (le_enlargedSize _ h.2).2 none
      · exact List.prefix_refl _
    · split
      · next h => exact prefix_realloc (le_enlargedSize _ h.2).2 {}
      · exact List.prefix_refl _
    · intro hnone
      rw [if_neg (by simp [hnone])]

/-- The arrays have room for `n` more rows. -/
structure Room (r : QResult ρ) (n : Nat) : Prop where
  rows : 0 < r.num_fields → r.num_cached_rows + n ≤ r.backend_tuples.length
  keys : r.haskeyset = true → r.num_cached_keys + n ≤ r.keyset.length

theorem Room.mono {n m : Nat} (h : Room self n) (hm : m ≤ n) : Room self m :=
  ⟨fun hf => by have := h.rows hf; omega, fun hk => by have := h.keys hk; omega⟩

/-- Below 2^31 rows `enlargeKeyCache` makes the room that it is asked for. -/
theorem enlargeKeyCache_room (add_size : Int) (hrows : self.num_cached_rows < 2 ^ 31)
    (hkeys : self.num_cached_keys < 2 ^ 31) (hroom : Room self 0) :
    Room (enlargeKeyCache self add_size) add_size.toNat := by
  by_cases h0 : add_size ≤ 0
  · rw [enlargeKeyCache, if_pos h0]
    exact hroom.mono (by omega)
  · have hwrap : ∀ m : Nat, m < 2 ^ 31 → wrap 32 m = m := fun m hm =>
      wrap_of_fits (by decide) ⟨by omega, by omega⟩
    rw [enlargeKeyCache, if_neg h0, hwrap _ hrows, hwrap _ hkeys]
    refine ⟨fun hf => ?_, fun hk => ?_⟩
    · simp only at hf ⊢
      split
      · next h =>
        have hle := (le_enlargedSize self.cursor h.2).1
        rw [length_realloc]
        omega
      · next h =>
        have hnot := not_and.mp h hf
        omega
    · simp only at hk ⊢
      split
      · next h =>
        have hle := (le_enlargedSize self.cursor h.2).1
        rw [length_realloc]
        omega
      · next h =>
        have hnot := not_and.mp h hk
        omega

theorem nextSize_le {n m : Nat} (h : nextSize n = .ok m) : n ≤ m := by
  rw [nextSize] at h
  split at h
  · obtain rfl := Except.ok.inj h
    simp only [TUPLE_MALLOC_INC]
    omega
  · split at h
    · exact absurd h (by simp)
    · obtain rfl := Except.ok.inj h
      simp only [TUPLE_GROWTH_FACTOR] at *
      omega

theorem growIf_keeps {α : Type} {full : Prop} [Decidable full] {mem mem' : List α} {fill : α}
    (h : growIf full mem fill = .ok mem') : mem <+: mem' := by
  rw [growIf] at h
  split at h
  · obtain ⟨n, hn, hmem⟩ := map_eq_ok.mp h
    rw [← hmem]
    exact prefix_realloc (nextSize_le hn) fill
  · obtain rfl := Except.ok.inj h
    exact List.prefix_refl _

/-- `QR_prepare_for_tupledata` keeps what is in the arrays. -/
theorem QR_prepare_keeps (h : QR_prepare_for_tupledata self = .ok self') :
    self.backend_tuples <+: self'.backend_tuples ∧ self.keyset <+: self'.keyset := by
  rw [QR_prepare_for_tupledata] at h
  by_cases hc : self.cursor = true
  · rw [if_pos hc] at h
    obtain rfl := Except.ok.inj h
    exact ⟨List.prefix_refl _, List.prefix_refl _⟩
  · rw [if_neg hc] at h
    obtain ⟨b, hb, h⟩ := bind_eq_ok.mp h
    obtain ⟨k, hk, h⟩ := bind_eq_ok.mp h
    obtain rfl := Except.ok.inj h
    exact ⟨growIf_keeps hb, growIf_keeps hk⟩

/-- Without a cursor both arrays are grown. -/
theorem QR_prepare_ok {b : List (Option ρ)} {k : List KeySet} (hc : ¬ self.cursor = true)
    (hb : growIf (0 < self.num_fields ∧
      (self.backend_tuples.length : Int) ≤ QR_get_num_total_tuples self) self.backend_tuples none =
        .ok b)
    (hk : growIf (self.haskeyset ∧ self.keyset.length ≤ self.num_cached_keys) self.keyset {} =
      .ok k) :
    QR_prepare_for_tupledata self = .ok { self with backend_tuples := b, keyset := k } := by
  rw [QR_prepare_for_tupledata, if_neg hc]
  simp only [hb, hk, ok_bind, pure_eq_ok]

/-- Where one of them cannot grow the row is refused. -/
theorem QR_prepare_error {b : List (Option ρ)} {e : Stop} (hc : ¬ self.cursor = true)
    (h : growIf (0 < self.num_fields ∧
        (self.backend_tuples.length : Int) ≤ QR_get_num_total_tuples self) self.backend_tuples none =
          .error e ∨
      growIf (0 < self.num_fields ∧
        (self.backend_tuples.length : Int) ≤ QR_get_num_total_tuples self) self.backend_tuples none =
          .ok b ∧
      growIf (self.haskeyset ∧ self.keyset.length ≤ self.num_cached_keys) self.keyset {} = .error e) :
    QR_prepare_for_tupledata self = .error e := by
  rw [QR_prepare_for_tupledata, if_neg hc]
  obtain hb | ⟨hb, hk⟩ := h
  · simp only [hb, error_bind]
  · simp only [hb, hk, ok_bind, error_bind]

/-! ### The invariant -/

/-- What is cached lies within the arrays, and what the application changed is found there. -/
structure Within (r : QResult ρ) : Prop where
  room : Room r 0
  no_keyset : r.haskeyset = false → r.keyset = []
  sync_keyset : r.synchronize_keys = true → r.haskeyset = true
  keyset_sync : r.cursor = true → r.haskeyset = true → r.synchronize_keys = true
  key_base : r.synchronize_keys = true → r.key_base = r.base
  rows_le_keys : r.synchronize_keys = true → r.num_cached_rows ≤ r.num_cached_keys
  added : r.added ≠ [] → r.haskeyset = true ∧ 0 < r.num_fields
  changed : ¬ (r.deleted = [] ∧ r.updated = []) → r.has_valid_base = true

/-- `enlargeKeyCache` keeps it. -/
theorem Within.enlarge (h : Within self) (add_size : Int) : Within (enlargeKeyCache self add_size) := by
  obtain ⟨b, k, heq, hb, hk, hnone⟩ := enlargeKeyCache_keeps self add_size
  rw [heq]
  exact
    { h with
      room := ⟨fun hf => le_trans (h.room.rows hf) hb.length_le,
        fun hh => le_trans (h.room.keys hh) hk.length_le⟩
      no_keyset := fun hh => (hnone hh).trans (h.no_keyset hh) }

/-- So does another place of the rowset. -/
theorem Within.rowstart (h : Within self) (start : Int) :
    Within (QR_set_rowstart_in_cache self start) :=
  { h with
    room := ⟨h.room.rows, h.room.keys⟩
    key_base := fun hs => if_pos hs }

/-- Rows that are cleared keep their places. -/
theorem length_ClearCachedRows (tuple : List (Option ρ)) (num_rows : Nat) :
    (ClearCachedRows tuple num_rows).length = tuple.length := by
  rw [ClearCachedRows, List.length_append, List.length_replicate, List.length_drop]
  omega

/-- An empty cache has the room of all the arrays. -/
theorem Within.clear (h : Within self) : Within (QR_set_num_cached_rows self 0) :=
  { h with
    room := ⟨fun _ => Nat.zero_le _, fun hh => by
      simp only [QR_set_num_cached_rows]
      split
      · exact Nat.zero_le _
      · exact h.room.keys hh⟩
    rows_le_keys := fun _ => Nat.zero_le _ }

/-! ### Reading through a cursor -/

/-- What is left to read has its room, and the cache stays within `rows` rows and `keys` keys. -/
structure Reading (r : QResult ρ) (cache_size rows keys n : Nat) : Prop where
  within : Within r
  cursor : r.cursor = true
  room : Room r n
  cache_size : r.cache_size = cache_size
  rows : r.num_cached_rows + n ≤ rows
  keys : r.num_cached_keys + n ≤ keys

/-- A row and its key are written. -/
theorem readTuple_eq {row : ρ × KeySet} {b : List (Option ρ)} {k : List KeySet}
    (hprepare : QR_prepare_for_tupledata self = .ok self')
    (hb : putIf (0 < self'.num_fields) Stop.beyond self'.backend_tuples self'.num_cached_rows
      (some row.1) = .ok b)
    (hk : putIf (self'.haskeyset = true) Stop.beyond self'.keyset self'.num_cached_keys row.2 =
      .ok k) :
    readTuple self row = .ok { self' with
      backend_tuples := b
      keyset := k
      cursTuple := self'.cursTuple + 1
      num_cached_rows :=
        if 0 < self'.num_fields then self'.num_cached_rows + 1 else self'.num_cached_rows
      num_cached_keys := if self'.haskeyset then self'.num_cached_keys + 1 else self'.num_cached_keys
      num_total_read := if self'.num_total_read ≤ self'.cursTuple + 1 then self'.cursTuple + 1 + 1
        else self'.num_total_read } := by
  rw [readTuple, hprepare, ok_bind, hb, ok_bind, hk, ok_bind]
  rfl

/-- Through a cursor one row takes one place of the room. -/
theorem readTuple_ok {cache_size rows keys n : Nat} (h : Reading self cache_size rows keys (n + 1))
    (row : ρ × KeySet) :
    ∃ r, readTuple self row = .ok r ∧ Reading r cache_size rows keys n := by
  have hrows : 0 < self.num_fields → self.num_cached_rows < self.backend_tuples.length := fun hf => by
    have := h.room.rows hf
    omega
  have hkeys : self.haskeyset = true → self.num_cached_keys < self.keyset.length := fun hh => by
    have := h.room.keys hh
    omega
  obtain ⟨b, hb, hblen⟩ := putIf_of_lt hrows Stop.beyond (some row.1)
  obtain ⟨k, hk, hklen⟩ := putIf_of_lt hkeys Stop.beyond row.2
  have hprepare : QR_prepare_for_tupledata self = .ok self := by
    rw [QR_prepare_for_tupledata, if_pos h.cursor]
  refine ⟨_, readTuple_eq hprepare hb hk, ?_⟩
  have hroom : ∀ m, m ≤ n →
      (0 < self.num_fields → (if 0 < self.num_fields then self.num_cached_rows + 1
        else self.num_cached_rows) + m ≤ b.length) ∧
      (self.haskeyset = true → (if self.haskeyset = true then self.num_cached_keys + 1
        else self.num_cached_keys) + m ≤ k.length) := fun m hm => by
    constructor
    · intro hf
      have := h.room.rows hf
      rw [if_pos hf]
      omega
    · intro hh
      have := h.room.keys hh
      rw [if_pos hh]
      omega
  exact
    { within :=
        { h.within with
          room := ⟨(hroom 0 (Nat.zero_le n)).1, (hroom 0 (Nat.zero_le n)).2⟩
          no_keyset := fun hh => by
            have hnil := h.within.no_keyset hh
            rw [List.eq_nil_iff_length_eq_zero] at hnil ⊢
            exact hklen.trans hnil
          rows_le_keys := fun hs => by
            have := h.within.rows_le_keys hs
            simp only [h.within.sync_keyset hs, if_true]
            split <;> omega }
      cursor := h.cursor
      room := ⟨(hroom n le_rfl).1, (hroom n le_rfl).2⟩
      cache_size := h.cache_size
      rows := by
        have := h.rows
        simp only
        split <;> omega
      keys := by
        have := h.keys
        simp only
        split <;> omega }

/-- The other counters do not matter here. -/
theorem Reading.counted {cache_size rows keys n : Nat} (h : Reading self cache_size rows keys n)
    (total curs : Int) (eof filled : Bool) :
    Reading
      { self with
        num_total_read := total
        cursTuple := curs
        reached_eof := eof
        dataFilled := filled }
      cache_size rows keys n :=
  { h with
    within := { h.within with room := ⟨h.within.room.rows, h.within.room.keys⟩ }
    room := ⟨h.room.rows, h.room.keys⟩ }

theorem afterRead_cursor (self : QResult ρ) (num_cached_rows : Nat) (h : self.cursor = true) :
    ∃ total curs eof, afterRead self num_cached_rows false self.cursor =
      { self with num_total_read := total, cursTuple := curs, reached_eof := eof } := by
  cases self
  obtain rfl := h
  simp only [afterRead, Bool.false_eq_true, if_false]
  split_ifs <;> exact ⟨_, _, _, rfl⟩

/-- A reply that fits in the room is read. -/
theorem QR_from_PGresult_ok {cache_size rows keys n : Nat} {reply : Reply ρ}
    (h : Reading self cache_size rows keys n) (hn : reply.rows.length ≤ n) :
    ∃ r ok, QR_from_PGresult self false self.cursor reply = .ok (r, ok) ∧
      Reading r cache_size rows keys 0 := by
  have hstart : Reading self cache_size rows keys reply.rows.length :=
    { h with
      room := h.room.mono hn
      rows := le_trans (by omega) h.rows
      keys := le_trans (by omega) h.keys }
  obtain ⟨r, hr, hread⟩ :=
    foldlM_total (I := fun l (r : QResult ρ) => Reading r cache_size rows keys l.length)
      (fun row l s hs => readTuple_ok hs row) hstart
  have hread : Reading r cache_size rows keys 0 := hread
  have hcursor : self.cursor = r.cursor := h.cursor.trans hread.cursor.symm
  rw [QR_from_PGresult, QR_read_tuples_from_pgres, hr, hcursor]
  simp only [ok_bind, pure_eq_ok]
  refine ⟨_, _, rfl, ?_⟩
  split
  · obtain ⟨total, curs, eof, heq⟩ :=
      afterRead_cursor { r with dataFilled := r.dataFilled || reply.complete } self.num_cached_rows
        hread.cursor
    exact heq ▸ hread.counted total curs eof _
  · exact hread.counted _ _ _ _

/-! ### The rows that were added -/

/-- Rows that are added behind the cache, after it was enlarged for them. -/
theorem append_ok (h : Within self) (hcursor : self.cursor = true) (hadded : self.added ≠ [])
    (add_size : Int) (rows : List (ρ × KeySet)) (hlen : rows.length ≤ add_size.toNat)
    (hrows : self.num_cached_rows < 2 ^ 31) (hkeys : self.num_cached_keys < 2 ^ 31) :
    ∃ k b, putAll Stop.beyond (enlargeKeyCache self add_size).keyset self.num_cached_rows
        (rows.map (·.2)) = .ok k ∧
      putAllIf (0 < self.num_fields) Stop.beyond (enlargeKeyCache self add_size).backend_tuples
        self.num_cached_rows (rows.map fun row => some row.1) = .ok b ∧
      Within
        { enlargeKeyCache self add_size with
          keyset := k
          backend_tuples := b
          num_cached_rows := self.num_cached_rows + add_size.toNat
          num_cached_keys := self.num_cached_keys + add_size.toNat } := by
  obtain ⟨hhas, hfields⟩ := h.added hadded
  have hsync := h.keyset_sync hcursor hhas
  have hle := h.rows_le_keys hsync
  have hwithin := h.enlarge add_size
  have hroom := enlargeKeyCache_room add_size hrows hkeys h.room
  obtain ⟨b₁, k₁, heq, -, -, -⟩ := enlargeKeyCache_keeps self add_size
  rw [heq] at hwithin hroom ⊢
  have hroomk := hroom.keys hhas
  have hroomb := hroom.rows hfields
  simp only at hroomk hroomb ⊢
  obtain ⟨k, hk, hklen⟩ := putAll_of_le Stop.beyond (rows.map (·.2)) k₁ self.num_cached_rows
    (by rw [List.length_map]; omega)
  obtain ⟨b, hb, hblen⟩ := putAllIf_of_le (0 < self.num_fields) Stop.beyond b₁
    self.num_cached_rows (rows.map fun row => some row.1) fun _ => by rw [List.length_map]; omega
  refine ⟨k, b, hk, hb, ?_⟩
  exact
    { hwithin with
      room := ⟨fun _ => by simp only; omega, fun _ => by simp only; omega⟩
      no_keyset := fun hh => absurd (hhas.symm.trans hh) (by decide)
      rows_le_keys := fun _ => Nat.add_le_add_right hle _ }

/-- The added rows that are still asked for go behind those that were read. -/
theorem appendAdded_ok (h : Within self) (hcursor : self.cursor = true) (stmt : Stmt)
    (offset fetch_size cur_fetch : Int) (hcache : self.num_cached_rows ≤ self.cache_size)
    (hfetch : self.num_cached_rows + (fetch_size - cur_fetch) ≤ self.cache_size)
    (hrows : self.num_cached_rows < 2 ^ 31) (hkeys : self.num_cached_keys < 2 ^ 31) :
    ∃ r o, appendAdded self stmt offset fetch_size cur_fetch = .ok (r, o) ∧ Within r ∧
      r.cursor = true ∧ r.num_cached_rows ≤ r.cache_size := by
  rw [appendAdded]
  split
  · exact ⟨self, offset, rfl, h, hcursor, hcache⟩
  · next hmore =>
    simp only [not_or, not_not, not_le] at hmore
    obtain ⟨-, hcount, hless⟩ := hmore
    have hadded : self.added ≠ [] := fun hnil => hcount (by rw [hnil, List.length_nil])
    -- where no row was read, the rowset is the start of the added rows
    have hplaced : ∀ first : Prop, [Decidable first] → ∃ start fetch_number key_base,
        (if first then { QR_set_rowstart_in_cache self 0 with fetch_number := 0 } else self) =
          { self with base := start, key_base := key_base, fetch_number := fetch_number } ∧
        Within { self with base := start, key_base := key_base, fetch_number := fetch_number } := by
      intro first _
      by_cases hf : first
      · rw [if_pos hf]
        exact ⟨_, _, _, rfl, { h.rowstart 0 with room := ⟨h.room.rows, h.room.keys⟩ }⟩
      · rw [if_neg hf]
        exact ⟨_, _, _, rfl, h⟩
    obtain ⟨start, number, key_base, hfirst, hwithin⟩ := hplaced
      (0 ≤ CacheIdx2GIdx offset stmt self - self.num_total_read ∧ self.num_cached_rows = 0)
    simp only [hfirst]
    generalize hadd : (if fetch_size - cur_fetch < _ then _ else _ : Int) = add_size
    have hle : (add_size.toNat : Int) ≤ fetch_size - cur_fetch := by
      rw [← hadd]
      split <;> omega
    obtain ⟨k, b, hk, hb, hresult⟩ := append_ok hwithin hcursor hadded add_size
      ((self.added.drop
        (max (CacheIdx2GIdx offset stmt self - self.num_total_read) 0).toNat).take add_size.toNat)
      (List.length_take_le _ _) hrows hkeys
    obtain ⟨b₁, k₁, henl, -, -, -⟩ := enlargeKeyCache_keeps
      { self with base := start, key_base := key_base, fetch_number := number } add_size
    rw [henl] at hk hb hresult ⊢
    simp only at hk hb hresult ⊢
    rw [hk, ok_bind, hb, ok_bind]
    refine ⟨_, _, rfl, hresult, hcursor, ?_⟩
    simp only
    omega

/-! ### The changes of the application -/

theorem modifyKey_ok {keyset : List KeySet} {i : Int} (h0 : 0 ≤ i) (hi : i < keyset.length)
    (f : KeySet → KeySet) : ∃ k, modifyKey keyset i f = .ok k ∧ k.length = keyset.length := by
  have hlt : i.toNat < keyset.length := by omega
  rw [modifyKey, if_pos h0, List.getElem?_eq_getElem hlt]
  exact ⟨_, rfl, List.length_set⟩

theorem modifyKeys_ok (f : KeySet → KeySet) (n : Nat) : ∀ (i : Int) (keyset : List KeySet), 0 ≤ i →
    i + n ≤ keyset.length →
    ∃ k, modifyKeys f n i keyset = .ok k ∧ k.length = keyset.length := by
  induction n with
  | zero => intro i keyset _ _; exact ⟨keyset, rfl, rfl⟩
  | succ n ih =>
    intro i keyset h0 hi
    have hlt : i < keyset.length := by omega
    obtain ⟨k, hk, hlen⟩ := modifyKey_ok h0 hlt f
    obtain ⟨k', hk', hlen'⟩ := ih (i + 1) k (by omega) (by omega)
    exact ⟨k', by rw [modifyKeys, hk, ok_bind, hk'], hlen'.trans hlen⟩

/-- A result that differs in the contents of its arrays. -/
def Contents (self r : QResult ρ) : Prop :=
  ∃ b k, r = { self with backend_tuples := b, keyset := k } ∧
    b.length = self.backend_tuples.length ∧ k.length = self.keyset.length

theorem Contents.refl (self : QResult ρ) : Contents self self := ⟨_, _, rfl, rfl, rfl⟩

theorem Contents.trans {a b c : QResult ρ} (hab : Contents a b) (hbc : Contents b c) :
    Contents a c := by
  obtain ⟨b₁, k₁, rfl, hb₁, hk₁⟩ := hab
  obtain ⟨b₂, k₂, rfl, hb₂, hk₂⟩ := hbc
  exact ⟨b₂, k₂, rfl, hb₂.trans hb₁, hk₂.trans hk₁⟩

/-- What is cached stays within arrays of the same lengths. -/
theorem Within.contents (h : Within self) (hc : Contents self self') : Within self' := by
  obtain ⟨b, k, rfl, hb, hk⟩ := hc
  exact
    { h with
      room := ⟨fun hf => (h.room.rows hf).trans_eq hb.symm, fun hh => (h.room.keys hh).trans_eq hk.symm⟩
      no_keyset := fun hh => by
        have hnil := h.no_keyset hh
        rw [List.eq_nil_iff_length_eq_zero] at hnil ⊢
        exact hk.trans hnil }

theorem applyDeleted_ok (stmt : Stmt) (lidx hidx : Int) (deleted : List (Int × BitVec 16)) :
    ∀ self : QResult ρ, self.num_cached_keys ≤ self.keyset.length →
    ∃ r, applyDeleted stmt lidx hidx deleted self = .ok r ∧ Contents self r := by
  induction deleted with
  | nil => intro self _; exact ⟨self, rfl, .refl self⟩
  | cons d deleted ih =>
    intro self hkeys
    obtain ⟨d, status⟩ := d
    rw [applyDeleted]
    by_cases hd : hidx ≤ d
    · rw [if_pos hd]
      exact ⟨self, rfl, .refl self⟩
    · rw [if_neg hd]
      by_cases h : lidx ≤ d ∧ 0 ≤ GIdx2KResIdx d stmt self ∧
          GIdx2KResIdx d stmt self < self.num_cached_keys
      · have hlt : GIdx2KResIdx d stmt self < self.keyset.length := by omega
        obtain ⟨k, hk, hlen⟩ := modifyKey_ok h.2.1 hlt
          fun key => unmarkKey { key with status := status }
        obtain ⟨r, hr, hc⟩ := ih { self with keyset := k } (by simp only; omega)
        exact ⟨r, by simp only [if_pos h, hk, ok_bind, hr],
          Contents.trans ⟨_, _, rfl, rfl, hlen⟩ hc⟩
      · simp only [if_neg h]
        exact ih self hkeys

/-- The rows of the cache that the application updated are those between `lidx` and `hidx`. -/
theorem applyUpdated_ok (stmt : Stmt) (lidx hidx : Int) (updated : List (Int × KeySet × ρ)) :
    ∀ self : QResult ρ, (0 < self.num_fields → self.num_cached_rows ≤ self.backend_tuples.length) →
    self.num_cached_rows ≤ self.keyset.length →
    (∀ u, lidx ≤ u → u < hidx → 0 ≤ GIdx2KResIdx u stmt self ∧
      GIdx2KResIdx u stmt self < self.num_cached_rows) →
    ∃ r, applyUpdated stmt lidx hidx updated self = .ok r ∧ Contents self r := by
  induction updated with
  | nil => intro self _ _ _; exact ⟨self, rfl, .refl self⟩
  | cons u updated ih =>
    intro self hrows hkeys hplace
    obtain ⟨u, key, row⟩ := u
    rw [applyUpdated]
    split
    · next h =>
      obtain ⟨h0, hlt⟩ := hplace u h.2 h.1
      have hkey : (GIdx2KResIdx u stmt self).toNat < self.keyset.length := by omega
      simp only [if_pos h0, List.getElem?_eq_getElem hkey]
      split
      · exact ih self hrows hkeys hplace
      · have hput : 0 < self.num_fields →
            (GIdx2KResIdx u stmt self).toNat < self.backend_tuples.length := fun hf => by
          have := hrows hf
          omega
        obtain ⟨b, hb, hlen⟩ := putIf_of_lt hput Stop.beyond (some row)
        have hset : (self.keyset.set (GIdx2KResIdx u stmt self).toNat (unmarkKey key)).length =
            self.keyset.length := List.length_set
        obtain ⟨r, hr, hc⟩ := ih
          { self with
            keyset := self.keyset.set (GIdx2KResIdx u stmt self).toNat (unmarkKey key)
            backend_tuples := b }
          (fun hf => (hrows hf).trans_eq hlen.symm) (hkeys.trans_eq hset.symm) hplace
        exact ⟨r, by rw [hb, ok_bind, hr], Contents.trans ⟨_, _, rfl, hlen, hset⟩ hc⟩
    · exact ih self hrows hkeys hplace

/-- What the application changed is put back within the arrays. -/
theorem applyChanges_ok (h : Within self) (hcursor : self.cursor = true) (stmt : Stmt)
    (num_rows_in : Nat) :
    ∃ r, applyChanges self stmt num_rows_in = .ok r ∧ Contents self r := by
  rw [applyChanges]
  split
  · exact ⟨self, rfl, .refl self⟩
  · next hmore =>
    rw [not_or] at hmore
    have hhas : self.haskeyset = true := by
      by_contra hno
      exact hmore.1 (by rw [h.no_keyset (by simpa using hno), List.length_nil])
    have hsync := h.keyset_sync hcursor hhas
    have hle := h.rows_le_keys hsync
    have hlen := h.room.keys hhas
    have hbase := h.key_base hsync
    have hplace : ∀ (i : Int) (r : QResult ρ), r.has_valid_base = self.has_valid_base →
        r.key_base = self.key_base → GIdx2KResIdx (CacheIdx2GIdx i stmt self) stmt r = i := by
      intro i r hvalid hkb
      rw [GIdx2KResIdx, CacheIdx2GIdx, hvalid, h.changed hmore.2, if_pos rfl, hkb, hbase]
      omega
    simp only [hplace _ self rfl rfl]
    obtain ⟨k₁, hk₁, hlen₁⟩ : ∃ k, modifyKeys markKey
        ((self.num_cached_rows : Int) - num_rows_in).toNat num_rows_in self.keyset = .ok k ∧
          k.length = self.keyset.length := by
      by_cases hin : num_rows_in ≤ self.num_cached_rows
      · exact modifyKeys_ok markKey _ _ _ (by omega) (by omega)
      · exact ⟨self.keyset, by rw [Int.toNat_eq_zero.mpr (by omega)]; rfl, rfl⟩
    obtain ⟨r₂, hr₂, b₂, k₂, rfl, hb₂, hk₂⟩ := applyDeleted_ok stmt
      (CacheIdx2GIdx num_rows_in stmt self) (CacheIdx2GIdx self.num_cached_rows stmt self)
      self.deleted { self with keyset := k₁ } (by simp only; omega)
    simp only at hb₂ hk₂
    obtain ⟨r₃, hr₃, b₃, k₃, rfl, hb₃, hk₃⟩ := applyUpdated_ok stmt
      (CacheIdx2GIdx num_rows_in stmt self) (CacheIdx2GIdx self.num_cached_rows stmt self)
      self.updated.reverse { self with backend_tuples := b₂, keyset := k₂ }
      (fun hf => by have := h.room.rows hf; simp only; omega) (by simp only; omega)
      (fun u hl hu => by
        rw [GIdx2KResIdx, h.changed hmore.2, if_pos rfl]
        rw [CacheIdx2GIdx] at hl hu
        simp only [hbase]
        omega)
    simp only at hb₃ hk₃
    obtain ⟨k₄, hk₄, hlen₄⟩ := modifyKeys_ok unmarkKey self.num_cached_rows 0 k₃ le_rfl
      (by omega)
    rw [hk₁, ok_bind, hr₂, ok_bind, hr₃, ok_bind, hk₄]
    exact ⟨_, rfl, b₃, k₄, rfl, by omega, by omega⟩

end OdbcDriver.TupleCache
