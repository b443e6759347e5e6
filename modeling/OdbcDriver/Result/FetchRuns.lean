import OdbcDriver.Result.TupleCacheRules

/-!
# Runs of fetches

A fetch through a cursor reads what it asked for into the room that was made for it (`fetchGroup_ok`),
either behind the rows that are cached or in their place. With `cache_size` at least the number of rows
that are cached, the fetches of a run keep to their arrays, unless a MOVE backward fails
after `cache_size` was set for the rows that it was to fetch (`Ordinary`).
-/

namespace OdbcDriver.TupleCache

open CInt HeapArray Result
open Lib (ok_bind error_bind pure_eq_ok bind_eq_ok map_eq_ok foldlM_total)

variable {ρ : Type} {self self' : QResult ρ} {stmt : Stmt}

/-- Through a cursor no more rows are cached than `cache_size` says. -/
structure Inv (r : QResult ρ) : Prop extends Within r where
  cached : r.cursor = true → r.num_cached_rows ≤ r.cache_size

/-- The cache in front of a fetch of `n` rows, which `cache_size` has room for. -/
structure Ready (r : QResult ρ) (n : Nat) : Prop where
  within : Within r
  cursor : r.cursor = true
  room : Room r n
  cached : r.num_cached_rows + n ≤ r.cache_size

theorem Ready.reading {n : Nat} (h : Ready self n) :
    Reading self self.cache_size (self.num_cached_rows + n) (self.num_cached_keys + n) n :=
  { h with
    cache_size := rfl
    rows := le_rfl
    keys := le_rfl }

/-- The rows go behind those of the cache. -/
theorem ready_behind {n : Nat} (h : Within self) (hcursor : self.cursor = true)
    (hroom : Room self (self.cache_size - self.num_cached_rows : Int).toNat)
    (hcache : self.num_cached_rows + n ≤ self.cache_size) : Ready self n where
  within := h
  cursor := hcursor
  room := hroom.mono (by omega)
  cached := hcache

/-- The rows take the place of those of the cache. -/
theorem ready_instead {n : Nat} (h : Within self) (hcursor : self.cursor = true)
    (hroom : Room self (self.cache_size - self.num_cached_rows : Int).toNat)
    (hcache : n ≤ self.cache_size) (offset : Int) :
    Ready (QR_set_rowstart_in_cache (QR_set_num_cached_rows self 0) offset) n where
  within := h.clear.rowstart offset
  cursor := hcursor
  room := by
    refine ⟨fun hf => ?_, fun hh => ?_⟩
    · have := hroom.rows hf
      simp only [QR_set_rowstart_in_cache, QR_set_num_cached_rows]
      omega
    · have hsync := h.keyset_sync hcursor hh
      have hle := h.rows_le_keys hsync
      have := hroom.keys hh
      simp only [QR_set_rowstart_in_cache, QR_set_num_cached_rows, if_pos hsync]
      omega
  cached := by
    simp only [QR_set_rowstart_in_cache, QR_set_num_cached_rows]
    omega

/-- A fetch of `fetch_size` rows goes through, where the cache is to hold that many more than those
that stay in it. -/
theorem fetchGroup_ok (h : Within self) (hcursor : self.cursor = true) (stmt : Stmt)
    (server : Server ρ) (offset : Int) {fetch_size : Int} (adjusted : Bool) (h0 : 0 ≤ fetch_size)
    (hcache : (if adjusted then self.num_cached_rows else 0) + fetch_size ≤ self.cache_size)
    (hrows : self.num_cached_rows + fetch_size < 2 ^ 31)
    (hkeys : self.num_cached_keys + fetch_size < 2 ^ 31) :
    ∃ r ret, fetchGroup self stmt server offset fetch_size adjusted = .ok (r, ret) ∧ Inv r := by
  have hroom := enlargeKeyCache_room (self.cache_size - self.num_cached_rows) (by omega) (by omega)
    h.room
  have hwithin := h.enlarge (self.cache_size - self.num_cached_rows)
  obtain ⟨b, k, heq, -, -, -⟩ :=
    enlargeKeyCache_keeps self (self.cache_size - self.num_cached_rows)
  rw [heq] at hroom hwithin
  simp only [fetchGroup, heq]
  generalize hs : (if adjusted = true then _ else _ : QResult ρ) = s
  obtain ⟨hready, hrows', hkeys'⟩ : Ready s fetch_size.toNat ∧
      s.num_cached_rows ≤ self.num_cached_rows ∧ s.num_cached_keys ≤ self.num_cached_keys := by
    subst hs
    cases adjusted with
    | true =>
      refine ⟨ready_behind hwithin hcursor hroom ?_, le_rfl, le_rfl⟩
      simp only [if_true] at hcache ⊢
      omega
    | false =>
      refine ⟨ready_instead hwithin hcursor hroom ?_ offset, Nat.zero_le _, ?_⟩
      · simp only [Bool.false_eq_true, if_false] at hcache ⊢
        omega
      · simp only [QR_set_rowstart_in_cache, QR_set_num_cached_rows, Bool.false_eq_true, if_false]
        split <;> omega
  clear hs hwithin hroom heq
  cases hreply : server.fetch fetch_size with
  | none =>
    exact ⟨_, _, rfl,
      { hready.within with
        room := ⟨hready.within.room.rows, hready.within.room.keys⟩
        cached := fun _ => le_trans (Nat.le_add_right _ _) hready.cached }⟩
  | some reply =>
    have hn : reply.rows.length ≤ fetch_size.toNat := by
      have := server.fetch_le fetch_size reply h0 hreply
      omega
    have hready' : Ready { s with cmd_fetch_size := fetch_size.toNat } fetch_size.toNat :=
      { hready with
        within := { hready.within with room := ⟨hready.within.room.rows, hready.within.room.keys⟩ }
        room := ⟨hready.room.rows, hready.room.keys⟩ }
    obtain ⟨r, ok, hr, hread⟩ := QR_from_PGresult_ok hready'.reading hn
    have hcached := hready'.cached
    have hrowsr := hread.rows
    have hkeysr := hread.keys
    have hcs := hread.cache_size
    simp only [add_zero] at hrowsr hkeysr hcs hcached
    simp only [hr, ok_bind]
    cases ok with
    | false => exact ⟨r, .failed, rfl, { hread.within with cached := fun _ => by omega }⟩
    | true =>
      obtain ⟨a, o, ha, hwithin, hac, hacached⟩ := appendAdded_ok hread.within hread.cursor stmt offset
        fetch_size (r.num_cached_rows - s.num_cached_rows) (by omega) (by omega) (by omega) (by omega)
      obtain ⟨c, hc, hcontents⟩ := applyChanges_ok hwithin hac stmt s.num_cached_rows
      simp only [ha, ok_bind, hc, Bool.not_true, Bool.false_eq_true, if_false]
      refine ⟨_, _, rfl, { hwithin.contents hcontents with cached := fun _ => ?_ }⟩
      obtain ⟨b, k, rfl, -, -⟩ := hcontents
      exact hacached

/-- The rows are fetched, or it is found that there are none. -/
theorem fetchMore_ok (h : Within self) (stmt : Stmt) (server : Server ρ) {fetch_size : Int}
    (offset : Int)
    (hcached : self.cursor = true → self.move_direction = .none →
      self.num_cached_rows ≤ self.cache_size)
    (hreq : self.req_size ≤ fetch_size) (h0 : 0 ≤ fetch_size)
    (hplace : -2 ^ 31 ≤ self.req_size + self.base - self.num_cached_rows)
    (hrows : self.num_cached_rows + fetch_size < 2 ^ 31)
    (hkeys : self.num_cached_keys + fetch_size < 2 ^ 31) :
    ∃ r ret, fetchMore self stmt server fetch_size offset = .ok (r, ret) ∧ Inv r := by
  rw [fetchMore]
  by_cases hcursor : self.cursor = true
  · have hopen : ¬ (!self.cursor) = true := by rw [hcursor]; decide
    simp only [if_neg hopen]
    by_cases hmoved : self.num_cached_rows ≤ self.base ∨ self.move_direction ≠ .none
    · rw [if_pos hmoved]
      have hwithin : Within
          { self with
            cache_size := fetch_size.toNat
            backend_tuples := ClearCachedRows self.backend_tuples self.num_cached_rows
            dataFilled := false
            move_direction := .none
            move_offset := 0
            fetch_number := offset + 1 } :=
        { h with room := ⟨fun hf => by rw [length_ClearCachedRows]; exact h.room.rows hf, h.room.keys⟩ }
      refine fetchGroup_ok hwithin hcursor stmt server offset false h0 ?_ hrows hkeys
      simp only [Bool.false_eq_true, if_false]
      omega
    · rw [if_neg hmoved]
      rw [not_or, not_not, not_le] at hmoved
      have hold := hcached hcursor hmoved.2
      have hwrap : wrap 32 (self.req_size + self.base - self.num_cached_rows) =
          self.req_size + self.base - self.num_cached_rows :=
        wrap_of_fits (by decide) ⟨by omega, by omega⟩
      rw [hwrap]
      by_cases hnone : self.req_size + self.base - self.num_cached_rows ≤ 0
      · rw [if_pos hnone]
        exact ⟨self, _, rfl, { h with cached := fun _ => hold }⟩
      · rw [if_neg hnone]
        have hmore : 0 ≤ self.req_size + self.base - self.num_cached_rows := by omega
        have hwithin : Within
            { self with
              cache_size := self.cache_size +
                (self.req_size + self.base - self.num_cached_rows).toNat
              fetch_number := self.fetch_number + 1 } :=
          { h with room := ⟨h.room.rows, h.room.keys⟩ }
        refine fetchGroup_ok hwithin hcursor stmt server _ true hmore ?_ ?_ ?_
        · simp only [if_true]
          omega
        · simp only
          omega
        · simp only
          omega
  · rw [if_pos (by simpa using hcursor)]
    exact ⟨_, _, rfl,
      { h with
        room := ⟨h.room.rows, h.room.keys⟩
        cached := fun hc => absurd hc hcursor }⟩

/-! ### Moving the cursor -/

/-- After a MOVE the place of the rowset in the cache is unknown. A MOVE backward by at least the cache
sets `cache_size`, whatever the server answers. -/
theorem moveCursor_cases (self : QResult ρ) (fetch_size : Int) (move : MoveReply) :
    (∃ cache, moveCursor self fetch_size move = ({ self with cache_size := cache }, none) ∧
      move = .failed ∧ (cache = self.cache_size ∨
        self.move_direction = .backward ∧ fetch_size ≤ self.req_size ∧
          cache = self.req_size.toNat)) ∨
    ∃ cache total eof curs place, moveCursor self fetch_size move =
      ({ QR_set_rowstart_in_cache self (-1) with
          cache_size := cache
          num_total_read := total
          reached_eof := eof
          cursTuple := curs
          move_offset := 0 }, some place) ∧
      (cache = self.cache_size ∨ self.move_direction = .backward) := by
  obtain ⟨cache, hcache, hwhich⟩ : ∃ cache,
      (if self.move_direction = .backward ∧ ¬ self.req_size < fetch_size then
        { self with cache_size := self.req_size.toNat } else self) =
        { self with cache_size := cache } ∧
      (cache = self.cache_size ∨ self.move_direction = .backward ∧ fetch_size ≤ self.req_size ∧
        cache = self.req_size.toNat) := by
    by_cases h : self.move_direction = .backward ∧ ¬ self.req_size < fetch_size
    · exact ⟨_, if_pos h, Or.inr ⟨h.1, not_lt.mp h.2, rfl⟩⟩
    · exact ⟨_, if_neg h, Or.inl rfl⟩
  -- the end that a MOVE finds
  have hend : ∀ (c : Prop) [Decidable c] (total : Int),
      (if c then
        { { self with cache_size := cache } with num_total_read := total, reached_eof := true }
        else { self with cache_size := cache }) =
        { { self with cache_size := cache } with
          num_total_read := if c then total else self.num_total_read
          reached_eof := if c then true else self.reached_eof } := by
    intro c _ total
    split <;> rfl
  simp only [moveCursor, hcache]
  cases move with
  | failed => exact Or.inl ⟨cache, rfl, rfl, hwhich⟩
  | moved count =>
    refine Or.inr ?_
    simp only [hend]
    by_cases hback : self.move_direction = .backward
    · simp only [if_pos hback]
      exact ⟨_, _, _, _, _, rfl, Or.inr hback⟩
    · simp only [if_neg hback]
      exact ⟨_, _, _, _, _, rfl, hwhich.imp_right And.left⟩

/-! ### The next row -/

/-- A call that stays within the counters: rows and keys are fewer than 2^31 after it, the rowset ends
within 2^31 rows before the cache, and a MOVE backward does not fail that was to
fetch fewer rows than are cached. -/
structure Orderly (r : QResult ρ) (server : Server ρ) : Prop where
  req_size : 0 ≤ r.req_size
  place : -2 ^ 31 ≤ r.req_size + r.base - r.num_cached_rows
  rows : r.num_cached_rows + max (server.fetch_max : Int) r.req_size < 2 ^ 31
  keys : r.num_cached_keys + max (server.fetch_max : Int) r.req_size < 2 ^ 31
  move : r.move_offset ≠ 0 → server.move = .failed → r.move_direction = .backward →
    server.fetch_max ≤ r.req_size → r.num_cached_rows ≤ r.req_size

/-- The next row is found, fetched or not there; the arrays hold what is cached. -/
theorem QR_next_tuple_ok {server : Server ρ} (h : Inv self) (ho : Orderly self server) (stmt : Stmt) :
    ∃ r ret, QR_next_tuple self stmt server = .ok (r, ret) ∧ Inv r := by
  have h0 := ho.req_size
  have hrows := ho.rows
  have hkeys := ho.keys
  have hplace := ho.place
  rw [QR_next_tuple]
  by_cases hmove : self.move_offset ≠ 0
  · simp only [if_pos hmove]
    obtain ⟨cache, heq, hfail, hwhich⟩ | ⟨cache, total, eof, curs, place, heq, hwhich⟩ :=
      moveCursor_cases self (max (server.fetch_max : Int) self.req_size) server.move
    · simp only [heq]
      refine ⟨_, _, rfl, { h with room := ⟨h.room.rows, h.room.keys⟩, cached := fun hc => ?_ }⟩
      obtain rfl | ⟨hback, hle, rfl⟩ := hwhich
      · exact h.cached hc
      · have := ho.move hmove hfail hback (le_trans (le_max_left _ _) hle)
        simp only
        omega
    · simp only [heq]
      have hwithin : Within
          { QR_set_rowstart_in_cache self (-1) with
            cache_size := cache
            num_total_read := total
            reached_eof := eof
            cursTuple := curs
            move_offset := 0 } :=
        { h.toWithin.rowstart (-1) with room := ⟨h.room.rows, h.room.keys⟩ }
      refine fetchMore_ok hwithin stmt server place ?_ (le_max_right _ _)
        (le_trans h0 (le_max_right _ _)) ?_ hrows hkeys
      · intro hc hnone
        obtain rfl | hback := hwhich
        · exact h.cached hc
        · rw [QR_set_rowstart_in_cache, hback] at hnone
          exact absurd hnone (by decide)
      · simp only [QR_set_rowstart_in_cache]
        omega
  · simp only [if_neg hmove]
    split
    · split
      · exact ⟨_, _, rfl, { h with room := ⟨h.room.rows, h.room.keys⟩ }⟩
      · exact ⟨self, _, rfl, h⟩
    · split
      · exact ⟨self, _, rfl, h⟩
      · exact fetchMore_ok h.toWithin stmt server 0 (fun hc _ => h.cached hc) (le_max_right _ _)
          (le_trans h0 (le_max_right _ _)) hplace hrows hkeys

/-- A step of a run within those limits. Rows are added to a result with keys, and changed once
a rowset was placed. -/
def Ordinary : Except Stop (QResult ρ) → Step ρ → Prop
  | .ok self, .note added deleted updated =>
    (added ≠ [] → self.haskeyset = true ∧ 0 < self.num_fields) ∧
      (¬ (deleted = [] ∧ updated = []) → self.has_valid_base = true)
  | .ok self, .next _ server => Orderly self server
  | _, _ => True

/-- A step within the limits goes through. -/
theorem step_ok {step : Step ρ} (h : Inv self) (ho : Ordinary (.ok self) step) :
    ∃ r, self.step step = .ok r ∧ Inv r := by
  cases step with
  | place base fetch_number req_size move_offset direction =>
    refine ⟨_, rfl, ?_⟩
    exact
      { h.toWithin.rowstart base with
        room := ⟨h.room.rows, h.room.keys⟩
        changed := fun _ => rfl
        cached := h.cached }
  | note added deleted updated =>
    exact ⟨_, rfl, { h with room := ⟨h.room.rows, h.room.keys⟩, added := ho.1, changed := ho.2 }⟩
  | next stmt server =>
    obtain ⟨r, ret, hr, hinv⟩ := QR_next_tuple_ok h ho stmt
    exact ⟨r, by rw [QResult.step, hr]; rfl, hinv⟩

/-- So does a whole run. -/
theorem fetches_ok (h : Inv self) (steps : List (Step ρ))
    (hs : (fetches ρ).AllSteps Ordinary (.ok self) steps) :
    ∃ r, (fetches ρ).final (.ok self) steps = .ok r ∧ Inv r := by
  have hstep : ∀ (s : Except Stop (QResult ρ)) (step : Step ρ), (∃ r, s = .ok r ∧ Inv r) →
      Ordinary s step → ∃ r, ((fetches ρ).step s step).1 = .ok r ∧ Inv r := by
    rintro _ step ⟨r, rfl, hr⟩ ho
    exact step_ok hr ho
  exact Machine.run_invariant hstep ⟨self, rfl, h⟩ hs

/-! ### The first read -/

/-- What is read for the first time is kept in an array. -/
def Kept (e : Execution ρ) : Prop := 0 < e.num_fields ∨ e.haskeyset = true

/-- An array that grows row by row: below half of the maximum there is a place for one more. -/
theorem growIf_ok {α : Type} {full c : Prop} [Decidable full] {mem : List α} {i : Nat}
    (hfull : full ↔ c ∧ mem.length ≤ i) (hmem : c → i ≤ mem.length)
    (hle : mem.length ≤ QR_MAX_BACKEND_TUPLES_HALF) (hi : c → i < QR_MAX_BACKEND_TUPLES_HALF)
    (fill : α) :
    ∃ mem', growIf full mem fill = .ok mem' ∧ mem'.length ≤ QR_MAX_BACKEND_TUPLES_HALF ∧
      (c → i < mem'.length) ∧ (¬ c → mem' = mem) := by
  rw [growIf]
  by_cases h : full
  · obtain ⟨hc, hlen⟩ := hfull.mp h
    have hlt := hi hc
    have hlast := hmem hc
    rw [if_pos h, nextSize]
    by_cases h0 : mem.length < 1
    · rw [if_pos h0]
      refine ⟨_, rfl, ?_, fun _ => ?_, fun hno => absurd hc hno⟩
      · rw [length_realloc]
        decide
      · rw [length_realloc, TUPLE_MALLOC_INC]
        omega
    · rw [if_neg h0, if_neg (by omega)]
      refine ⟨_, rfl, ?_, fun _ => ?_, fun hno => absurd hc hno⟩
      · rw [length_realloc]
        exact min_le_right _ _
      · rw [length_realloc, TUPLE_GROWTH_FACTOR]
        omega
  · rw [if_neg h]
    refine ⟨mem, rfl, hle, fun hc => ?_, fun _ => rfl⟩
    have hno := not_and.mp (mt hfull.mpr h) hc
    omega

/-- At half of the maximum it does not grow. -/
theorem growIf_refused {α : Type} {full : Prop} [Decidable full] {mem : List α} (hfull : full)
    (hlen : mem.length = QR_MAX_BACKEND_TUPLES_HALF) (fill : α) :
    growIf full mem fill = .error .refused := by
  rw [growIf, if_pos hfull, nextSize, hlen, if_neg (by decide), if_pos le_rfl]
  rfl

/-- A new result after `i` rows of its first read. -/
def readSoFar (e : Execution ρ) (i : Nat) (b : List (Option ρ)) (k : List KeySet) : QResult ρ :=
  { QR_Constructor e.num_fields e.haskeyset (e.haskeyset && e.cursor.isSome) (e.cursor.getD 0) with
    num_total_read := i
    cursTuple := (i : Int) - 1
    backend_tuples := b
    num_cached_rows := if 0 < e.num_fields then i else 0
    keyset := k
    num_cached_keys := if e.haskeyset = true then i else 0 }

/-- The arrays after `i` rows. -/
structure FirstRead (e : Execution ρ) (i : Nat) (b : List (Option ρ)) (k : List KeySet) : Prop where
  rows_le : 0 < e.num_fields → i ≤ b.length
  keys_le : e.haskeyset = true → i ≤ k.length
  no_keyset : ¬ e.haskeyset = true → k = []
  rows_max : b.length ≤ QR_MAX_BACKEND_TUPLES_HALF
  keys_max : k.length ≤ QR_MAX_BACKEND_TUPLES_HALF

/-- When the arrays are full. -/
theorem keys_full_iff (e : Execution ρ) (i : Nat) (k : List KeySet) :
    (e.haskeyset = true ∧ k.length ≤ if e.haskeyset = true then i else 0) ↔
      e.haskeyset = true ∧ k.length ≤ i :=
  and_congr_right fun hc => by rw [if_pos hc]

theorem rows_full_iff (e : Execution ρ) (i : Nat) (b : List (Option ρ)) (k : List KeySet) :
    (0 < e.num_fields ∧ (b.length : Int) ≤ QR_get_num_total_tuples (readSoFar e i b k)) ↔
      0 < e.num_fields ∧ b.length ≤ i :=
  and_congr_right fun _ => Int.ofNat_le

/-- Below half of the maximum the next row is read. -/
theorem readTuple_next {e : Execution ρ} {i : Nat} {b : List (Option ρ)} {k : List KeySet}
    (h : FirstRead e i b k) (hi : Kept e → i < QR_MAX_BACKEND_TUPLES_HALF) (row : ρ × KeySet) :
    ∃ b' k', readTuple (readSoFar e i b k) row = .ok (readSoFar e (i + 1) b' k') ∧
      FirstRead e (i + 1) b' k' := by
  obtain ⟨b₁, hb₁, hbm, hbi, -⟩ := growIf_ok (rows_full_iff e i b k) h.rows_le h.rows_max
    (fun hc => hi (Or.inl hc)) none
  obtain ⟨k₁, hk₁, hkm, hki, hkn⟩ := growIf_ok (keys_full_iff e i k) h.keys_le h.keys_max
    (fun hc => hi (Or.inr hc)) {}
  have hprepare : QR_prepare_for_tupledata (readSoFar e i b k) = .ok (readSoFar e i b₁ k₁) :=
    QR_prepare_ok Bool.false_ne_true hb₁ hk₁
  have hbput : 0 < e.num_fields → (if 0 < e.num_fields then i else 0) < b₁.length := fun hf => by
    rw [if_pos hf]
    exact hbi hf
  have hkput : e.haskeyset = true → (if e.haskeyset = true then i else 0) < k₁.length := fun hh => by
    rw [if_pos hh]
    exact hki hh
  obtain ⟨b₂, hb₂, hblen⟩ := putIf_of_lt hbput Stop.beyond (some row.1)
  obtain ⟨k₂, hk₂, hklen⟩ := putIf_of_lt hkput Stop.beyond row.2
  have hcurs : (i : Int) - 1 + 1 = i := by omega
  refine ⟨b₂, k₂, (readTuple_eq hprepare hb₂ hk₂).trans ?_, ?_⟩
  · by_cases hf : 0 < e.num_fields <;> by_cases hh : e.haskeyset = true <;>
      simp only [readSoFar, QR_Constructor, hcurs, hf, hh, le_refl, if_true, if_false,
        Bool.false_eq_true, Nat.cast_add, Nat.cast_one, add_sub_cancel_right]
  · exact
      { rows_le := fun hf => by have := hbi hf; omega
        keys_le := fun hh => by have := hki hh; omega
        no_keyset := fun hh => by
          have hnil := (hkn hh).trans (h.no_keyset hh)
          rw [List.eq_nil_iff_length_eq_zero] at hnil ⊢
          exact hklen.trans hnil
        rows_max := hblen.trans_le hbm
        keys_max := hklen.trans_le hkm }

/-- At half of the maximum it is refused. -/
theorem readTuple_refused {e : Execution ρ} {b : List (Option ρ)} {k : List KeySet}
    (h : FirstRead e QR_MAX_BACKEND_TUPLES_HALF b k) (hkept : Kept e) (row : ρ × KeySet) :
    readTuple (readSoFar e QR_MAX_BACKEND_TUPLES_HALF b k) row = .error .refused := by
  have hprepare : QR_prepare_for_tupledata (readSoFar e QR_MAX_BACKEND_TUPLES_HALF b k) =
      .error .refused := by
    by_cases hf : 0 < e.num_fields
    · have hlen := le_antisymm h.rows_max (h.rows_le hf)
      have hb := growIf_refused ((rows_full_iff e QR_MAX_BACKEND_TUPLES_HALF b k).mpr ⟨hf, hlen.le⟩)
        hlen none
      exact QR_prepare_error (b := b) Bool.false_ne_true (Or.inl hb)
    · have hh : e.haskeyset = true := hkept.resolve_left hf
      have hlen := le_antisymm h.keys_max (h.keys_le hh)
      have hk := growIf_refused ((keys_full_iff e QR_MAX_BACKEND_TUPLES_HALF k).mpr ⟨hh, hlen.le⟩)
        hlen {}
      have hnot := mt (rows_full_iff e QR_MAX_BACKEND_TUPLES_HALF b k).mp fun hc => hf hc.1
      exact QR_prepare_error Bool.false_ne_true (Or.inr ⟨if_neg hnot, hk⟩)
  rw [readTuple, hprepare, error_bind]

/-- The rows of a first read: they are kept, or more than half of the maximum is refused. -/
theorem readTuples_first {e : Execution ρ} (rows : List (ρ × KeySet)) :
    ∀ {i : Nat} {b : List (Option ρ)} {k : List KeySet}, FirstRead e i b k →
      (Kept e → i ≤ QR_MAX_BACKEND_TUPLES_HALF) →
      (Kept e ∧ QR_MAX_BACKEND_TUPLES_HALF < i + rows.length ∧
        rows.foldlM readTuple (readSoFar e i b k) = .error .refused) ∨
      (Kept e → i + rows.length ≤ QR_MAX_BACKEND_TUPLES_HALF) ∧
        ∃ b' k', rows.foldlM readTuple (readSoFar e i b k) =
          .ok (readSoFar e (i + rows.length) b' k') ∧ FirstRead e (i + rows.length) b' k' := by
  induction rows with
  | nil => exact fun h hi => Or.inr ⟨hi, _, _, rfl, h⟩
  | cons row rows ih =>
    intro i b k h hi
    rw [List.foldlM_cons, List.length_cons]
    by_cases hfull : Kept e ∧ i = QR_MAX_BACKEND_TUPLES_HALF
    · obtain ⟨hkept, rfl⟩ := hfull
      refine Or.inl ⟨hkept, by omega, ?_⟩
      rw [readTuple_refused h hkept row, error_bind]
    · have hlt : Kept e → i < QR_MAX_BACKEND_TUPLES_HALF := fun hkept =>
        lt_of_le_of_ne (hi hkept) fun heq => hfull ⟨hkept, heq⟩
      obtain ⟨b', k', hnext, h'⟩ := readTuple_next h hlt row
      rw [hnext, ok_bind, show i + (rows.length + 1) = i + 1 + rows.length by omega]
      exact ih h' hlt

/-- What has been read the first time is cached in its arrays, with a cursor or without one. -/
theorem FirstRead.inv {e : Execution ρ} {b : List (Option ρ)} {k : List KeySet}
    (h : FirstRead e e.reply.rows.length b k) (cursor : Bool)
    (hcursor : cursor = true → e.cursor.isSome = true) (total curs start : Int) (eof filled : Bool) :
    Inv
      { readSoFar e e.reply.rows.length b k with
        num_total_read := total
        cursTuple := curs
        reached_eof := eof
        dataFilled := filled
        base := start
        key_base := start
        cursor := cursor } where
  room :=
    ⟨fun hf => (if_pos hf).trans_le (h.rows_le hf), fun hh => (if_pos hh).trans_le (h.keys_le hh)⟩
  no_keyset hh := h.no_keyset (by rw [show e.haskeyset = false from hh]; exact Bool.false_ne_true)
  sync_keyset hs := (Bool.and_eq_true_iff.mp hs).1
  keyset_sync hc hh := Bool.and_eq_true_iff.mpr ⟨hh, hcursor hc⟩
  key_base _ := rfl
  rows_le_keys hs := by
    have hh : e.haskeyset = true := (Bool.and_eq_true_iff.mp hs).1
    simp only [readSoFar, if_pos hh]
    split <;> omega
  added hne := absurd rfl hne
  changed hne := absurd ⟨rfl, rfl⟩ hne
  cached hc := by
    obtain ⟨fetch_max, hmax⟩ := Option.isSome_iff_exists.mp (hcursor hc)
    have hle := e.fetch_le fetch_max hmax
    simp only [readSoFar, QR_Constructor, hmax, Option.getD_some]
    split <;> omega

theorem afterRead_newConn (self : QResult ρ) (cursor : Bool) :
    ∃ total curs eof, afterRead self 0 true cursor =
      { self with
        num_total_read := total
        cursTuple := curs
        reached_eof := eof
        fetch_number := 0
        base := 0
        key_base := 0
        cursor := cursor } := by
  cases self
  simp only [afterRead, if_true]
  split_ifs <;> exact ⟨_, _, _, rfl⟩

/-- The first read: more than half of the maximum is refused where it is to be kept; everything else
is cached. -/
theorem run_cases (e : Execution ρ) :
    (Kept e ∧ QR_MAX_BACKEND_TUPLES_HALF < e.reply.rows.length ∧ e.run = .error .refused) ∨
    (Kept e → e.reply.rows.length ≤ QR_MAX_BACKEND_TUPLES_HALF) ∧
      ∃ r, e.run = .ok (r, e.reply.complete) ∧ Inv r := by
  have hzero : FirstRead e 0 [] [] :=
    { rows_le := fun _ => le_rfl
      keys_le := fun _ => le_rfl
      no_keyset := fun _ => rfl
      rows_max := Nat.zero_le _
      keys_max := Nat.zero_le _ }
  have hstart : QR_Constructor e.num_fields e.haskeyset (e.haskeyset && e.cursor.isSome)
      (e.cursor.getD 0) = readSoFar e 0 [] [] := by
    simp only [readSoFar, QR_Constructor, ite_self]
    rfl
  have hread := readTuples_first e.reply.rows hzero fun _ => Nat.zero_le _
  rw [Nat.zero_add] at hread
  rw [Execution.run, QR_from_PGresult, QR_read_tuples_from_pgres, hstart]
  obtain ⟨hkept, hlt, hrefused⟩ | ⟨hle, b, k, hok, hfirst⟩ := hread
  · refine Or.inl ⟨hkept, hlt, ?_⟩
    rw [hrefused]
    rfl
  · refine Or.inr ⟨hle, ?_⟩
    rw [hok]
    simp only [ok_bind, pure_eq_ok]
    refine ⟨_, rfl, ?_⟩
    by_cases hcomplete : e.reply.complete = true
    · rw [if_pos hcomplete]
      have hnone : (readSoFar e 0 ([] : List (Option ρ)) []).num_cached_rows = 0 := ite_self _
      obtain ⟨total, curs, eof, heq⟩ := afterRead_newConn
        { readSoFar e e.reply.rows.length b k with
          dataFilled := (readSoFar e e.reply.rows.length b k).dataFilled || e.reply.complete }
        e.cursor.isSome
      rw [hnone, heq]
      exact hfirst.inv _ (fun h => h) total curs 0 eof _
    · rw [if_neg hcomplete]
      exact hfirst.inv false (fun h => absurd h Bool.false_ne_true) _ _ _ _ _

/-- **Fetches keep to their arrays.** The first read of a result is refused exactly where more than half
of `QR_MAX_BACKEND_TUPLES` rows are to be kept. After it, whatever rowsets are placed, whatever rows are
added, deleted or updated, and whatever the server sends, a run whose calls are `Orderly` writes no
row and no key behind its array and is not refused. An array that grows keeps what is in it. -/
theorem fetches_keep_to_arrays (e : Execution ρ) :
    (e.run = .error .refused ↔ Kept e ∧ QR_MAX_BACKEND_TUPLES_HALF < e.reply.rows.length) ∧
    e.run ≠ .error .beyond ∧
    (∀ self ok, e.run = .ok (self, ok) → ∀ steps,
      (fetches ρ).AllSteps Ordinary (.ok self) steps →
        ∃ r, (fetches ρ).final (.ok self) steps = .ok r ∧ Room r 0) ∧
    (∀ (r : QResult ρ) (add_size : Int),
      r.backend_tuples <+: (enlargeKeyCache r add_size).backend_tuples ∧
        r.keyset <+: (enlargeKeyCache r add_size).keyset) ∧
    ∀ r r' : QResult ρ, QR_prepare_for_tupledata r = .ok r' →
      r.backend_tuples <+: r'.backend_tuples ∧ r.keyset <+: r'.keyset := by
  have hgrow : ∀ (r : QResult ρ) (add_size : Int),
      r.backend_tuples <+: (enlargeKeyCache r add_size).backend_tuples ∧
        r.keyset <+: (enlargeKeyCache r add_size).keyset := by
    intro r add_size
    obtain ⟨b, k, heq, hb, hk, -⟩ := enlargeKeyCache_keeps r add_size
    rw [heq]
    exact ⟨hb, hk⟩
  obtain ⟨hkept, hlt, hrefused⟩ | ⟨hle, r, hok, hinv⟩ := run_cases e
  · refine ⟨⟨fun _ => ⟨hkept, hlt⟩, fun _ => hrefused⟩, ?_, ?_, hgrow, fun _ _ => QR_prepare_keeps⟩
    · rw [hrefused]
      exact fun h => absurd (Except.error.inj h) (by decide)
    · intro self ok hrun
      rw [hrefused] at hrun
      exact absurd hrun (by simp)
  · refine ⟨⟨fun h => ?_, fun h => ?_⟩, ?_, ?_, hgrow, fun _ _ => QR_prepare_keeps⟩
    · rw [hok] at h
      exact absurd h (by simp)
    · exact absurd (hle h.1) (by omega)
    · rw [hok]
      simp
    · intro self ok hrun steps hsteps
      rw [hok] at hrun
      obtain ⟨rfl, -⟩ := Prod.mk.inj (Except.ok.inj hrun)
      obtain ⟨s, hs, hsinv⟩ := fetches_ok hinv steps hsteps
      exact ⟨s, hs, hsinv.room⟩

/-! ### What is not accepted -/

/-- One row more than half of the maximum. -/
def tooMany : Execution Unit where
  num_fields := 1
  haskeyset := false
  cursor := none
  reply := ⟨List.replicate (QR_MAX_BACKEND_TUPLES_HALF + 1) ((), {}), true⟩
  fetch_le := by simp

/-- A server that sends what is asked for, and lets a MOVE fail. -/
def noMove : Server Unit where
  fetch_max := 2
  move := .failed
  fetch n := some ⟨List.replicate n.toNat ((), {}), true⟩
  fetch_le n reply h0 h := by
    obtain rfl := Option.some.inj h
    simp only [List.length_replicate]
    omega

/-- Two rows through a cursor. -/
def twoRows : Execution Unit where
  num_fields := 1
  haskeyset := false
  cursor := some 2
  reply := ⟨List.replicate 2 ((), {}), true⟩
  fetch_le := by simp

/-- Why something stopped. -/
def stopOf {α : Type} : Except Stop α → Option Stop
  | .ok _ => none
  | .error e => some e

/-- A result of not more than `QR_MAX_BACKEND_TUPLES` rows is refused. A rowset of 99 rows fills the
array of 100; a MOVE backward for a rowset of 5 fails; then the rowset that follows is
written behind the array. -/
theorem not_always_accepted :
    (tooMany.reply.rows.length ≤ QR_MAX_BACKEND_TUPLES ∧ tooMany.run = .error .refused) ∧
    stopOf (twoRows.run >>= fun read => (fetches Unit).final (.ok read.1)
      [.place 1 2 99 0 .none, .next ⟨1, 1⟩ noMove, .place 0 0 5 1 .backward, .next ⟨1, 99⟩ noMove,
        .place 99 100 2 0 .none, .next ⟨99, 99⟩ noMove]) = some .beyond := by
  refine ⟨⟨?_, ?_⟩, by decide +kernel⟩
  · rw [tooMany, List.length_replicate]
    decide
  · obtain ⟨-, -, hrefused⟩ | ⟨hle, -⟩ := run_cases tooMany
    · exact hrefused
    · have hmore := hle (Or.inl (by decide))
      rw [tooMany, List.length_replicate] at hmore
      exact absurd hmore (by decide)

end OdbcDriver.TupleCache
