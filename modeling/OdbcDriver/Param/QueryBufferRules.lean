import OdbcDriver.Param.QueryBuffer

/-!
# Appends stay within the buffer

Every append first makes its room, by `ENLARGE_NEWSTATEMENT` or by `enlarge_query_statement` itself,
and what it then writes is counted against that room: `Room a n` says that the block has `a` bytes
and that `npos` is `n`. A run is sound when the first block is there and no binary value is so long
that the index of `pg_bin2hex` overflows, and no other run is.
-/

namespace OdbcDriver.QueryBuffer

open Lib (Post)

variable {e : Env} {qb : QueryBuild} {a n : Nat}

/-! ### Room -/

/-- The invariant inside an append: a block of `a` bytes, and `npos` at `n`. -/
structure Room (a n : Nat) (qb : QueryBuild) : Prop where
  str_alsize : qb.str_alsize = a
  npos : qb.npos = n
  block : ∃ mem, qb.query_statement = some mem ∧ mem.length = a
  writes : ∀ i alsize, .write i alsize ∈ qb.trace → i < alsize
  granted : ∀ size, .refused size ∉ qb.trace

theorem Room.built (h : Room a n qb) (hn : n < a) : Built qb := by
  obtain ⟨rfl, rfl, hblock, hwrites, hgranted⟩ := h
  exact ⟨hn, hblock, hwrites, hgranted⟩

theorem Built.room (h : Built qb) : Room qb.str_alsize qb.npos qb :=
  ⟨rfl, rfl, h.block, h.writes, h.granted⟩

/-- The place of the next byte can be anywhere. -/
theorem Room.moved (h : Room a n qb) (m : Nat) : Room a m { qb with npos := m } :=
  ⟨h.str_alsize, rfl, h.block, h.writes, h.granted⟩

theorem Room.store (h : Room a n qb) {i : Nat} (hi : i < a) (b : Byte) :
    Room a n (qb.store i b) := by
  obtain ⟨halsize, hnpos, ⟨mem, hmem, hlen⟩, hwrites, hgranted⟩ := h
  refine ⟨halsize, hnpos, ⟨mem.set i b, ?_, ?_⟩, ?_, ?_⟩
  · rw [QueryBuild.store, hmem, Option.map_some]
  · rw [List.length_set, hlen]
  · intro j alsize hj
    rcases List.mem_cons.mp hj with hnew | hold
    · obtain ⟨rfl, rfl⟩ := Event.write.inj hnew
      rw [halsize]
      exact hi
    · exact hwrites j alsize hold
  · intro size hsize
    rcases List.mem_cons.mp hsize with hnew | hold
    · cases hnew
    · exact hgranted size hold

theorem Room.copy {s : List Byte} : ∀ {qb : QueryBuild} {i : Nat}, Room a n qb →
    i + s.length ≤ a → Room a n (qb.copy i s) := by
  induction s with
  | nil => exact fun h _ => h
  | cons b s ih =>
    intro qb i h hi
    rw [List.length_cons] at hi
    exact ih (h.store (by omega) b) (by omega)

theorem Room.push (h : Room a n qb) (hn : n < a) (c : Byte) : Room a (n + 1) (qb.push c) := by
  have hstore : Room a n (qb.store qb.npos c) := h.store (by rw [h.npos]; exact hn) c
  have hmoved := hstore.moved (n + 1)
  rw [QueryBuild.push, h.npos]
  rw [h.npos] at hmoved
  exact hmoved

/-! ### Enlarging -/

theorem lt_alsizeLoop {newsize : Nat} : ∀ {fuel newalsize : Nat}, 0 < newalsize →
    newsize < newalsize + fuel → newsize < alsizeLoop newsize fuel newalsize := by
  intro fuel
  induction fuel with
  | zero => exact fun _ h => h
  | succ fuel ih =>
    intro newalsize hpos h
    rw [alsizeLoop]
    split
    · exact ih (by omega) (by omega)
    · omega

theorem lt_newAlsize (newsize : Nat) : newsize < newAlsize newsize :=
  lt_alsizeLoop (by decide) (by omega)

/-- How an append may stop. -/
def Stop.Failed : Stop → Prop
  | .cleanup qb => QueryBuffer.Failed qb
  | .undefined => False

theorem allocateFailed_fields (qb : QueryBuild) :
    qb.allocateFailed.query_statement = qb.query_statement ∧
      qb.allocateFailed.str_alsize = qb.str_alsize ∧ qb.allocateFailed.trace = qb.trace ∧
      qb.allocateFailed.InError := by
  unfold QueryBuild.allocateFailed QueryBuild.InError
  cases hstmt : qb.stmt with
  | none => exact ⟨rfl, rfl, rfl, rfl, rfl⟩
  | some stmt => exact ⟨rfl, rfl, rfl, rfl⟩

/-- Either there is a block of the new size, or the builder is in its error state. -/
theorem Room.enlarge (h : Room a n qb) (newsize : Nat) :
    (enlarge_query_statement e qb newsize).1 = true ∧
        Room (newAlsize newsize) n (enlarge_query_statement e qb newsize).2 ∨
      (enlarge_query_statement e qb newsize).1 = false ∧
        Failed (enlarge_query_statement e qb newsize).2 := by
  unfold enlarge_query_statement
  dsimp only
  split
  · refine .inl ⟨rfl, rfl, h.npos, ⟨_, rfl, HeapArray.length_realloc _ _ _⟩, ?_, ?_⟩
    · intro i alsize hi
      exact h.writes i alsize (List.mem_of_ne_of_mem (by simp) hi)
    · intro size hsize
      exact h.granted size (List.mem_of_ne_of_mem (by simp) hsize)
  · have hfields := allocateFailed_fields { qb with
      query_statement := none
      str_alsize := 0
      trace := .refused (newAlsize newsize) :: qb.trace }
    obtain ⟨hblock, halsize, htrace, herror⟩ := hfields
    refine .inr ⟨rfl, hblock, halsize, herror, ?_, ?_⟩
    · intro i alsize hi
      rw [htrace] at hi
      exact h.writes i alsize (List.mem_of_ne_of_mem (by simp) hi)
    · intro later earlier size heq
      rw [htrace] at heq
      cases later with
      | nil => rfl
      | cons event later =>
        -- an enlargement that failed before
        have hmem : Event.refused size ∈ qb.trace := by
          rw [(List.cons.inj heq).2]
          simp
        exact absurd hmem (h.granted size)

/-- **Enlarging.** After `ENLARGE_NEWSTATEMENT` the index `newpos` is within the block. -/
theorem Room.ENLARGE_NEWSTATEMENT (h : Room a n qb) (newpos : Nat) :
    Post Stop.Failed (fun qb => ∃ a, newpos < a ∧ Room a n qb)
      (ENLARGE_NEWSTATEMENT e qb newpos) := by
  rw [QueryBuffer.ENLARGE_NEWSTATEMENT]
  refine Post.ite (fun _ => ?_) fun hlt => ?_
  · rcases h.enlarge newpos with ⟨hyes, hroom⟩ | ⟨hno, hfailed⟩
    · dsimp only
      rw [if_pos hyes]
      exact ⟨_, lt_newAlsize newpos, hroom⟩
    · dsimp only
      rw [hno, if_neg Bool.false_ne_true]
      exact hfailed
  · rw [h.str_alsize] at hlt
    exact ⟨a, not_le.mp hlt, h⟩

/-! ### Every append -/

theorem Room.CVT_APPEND_CHAR (h : Room a n qb) (c : Byte) :
    Post Stop.Failed Built (CVT_APPEND_CHAR e qb c) := by
  rw [QueryBuffer.CVT_APPEND_CHAR]
  refine (h.ENLARGE_NEWSTATEMENT (qb.npos + 1)).bind fun qb₁ ⟨a₁, hlt, hroom⟩ => ?_
  rw [h.npos] at hlt
  exact (hroom.push (by omega) c).built hlt

theorem Room.CVT_APPEND_DATA (h : Room a n qb) (s : List Byte) :
    Post Stop.Failed Built (CVT_APPEND_DATA e qb s) := by
  rw [QueryBuffer.CVT_APPEND_DATA]
  refine (h.ENLARGE_NEWSTATEMENT (qb.npos + s.length)).bind fun qb₁ ⟨a₁, hlt, hroom⟩ => ?_
  have hcopy : Room a₁ n (qb₁.copy qb₁.npos s) := by
    refine hroom.copy ?_
    rw [hroom.npos, ← h.npos]
    omega
  exact ((hcopy.moved (qb.npos + s.length)).store hlt 0).built hlt

theorem Room.CVT_TERMINATE (h : Room a n qb) (hn : n < a) :
    Post Stop.Failed Built (CVT_TERMINATE qb) := by
  obtain ⟨mem, hmem, -⟩ := h.block
  rw [QueryBuffer.CVT_TERMINATE, hmem, if_neg (by simp)]
  exact (h.store (by rw [h.npos]; exact hn) 0).built hn

/-! ### Literals -/

theorem Room.specialLoop {si : List Byte} : ∀ {qb : QueryBuild} {a n stat max : Nat}, Room a n qb →
    n < a → Post Stop.Failed Built (specialLoop e stat max si qb) := by
  induction si with
  | nil =>
    intro qb a n stat max h hn
    cases max <;> exact h.built hn
  | cons tchar si ih =>
    intro qb a n stat max h hn
    cases max with
    | zero => exact h.built hn
    | succ max =>
      rw [QueryBuffer.specialLoop]
      refine Post.ite (fun _ => h.built hn) fun _ => ?_
      refine (h.ENLARGE_NEWSTATEMENT (qb.npos + 3)).bind fun qb₁ ⟨a₁, hlt, hroom⟩ => ?_
      rw [h.npos] at hlt
      have hone := hroom.push (by omega) tchar
      refine Post.ite (fun _ => ih hone (by omega)) fun _ => ?_
      refine Post.ite (fun _ => ih hroom (by omega)) fun _ => ?_
      refine Post.ite (fun _ => ih (hone.push (by omega) tchar) (by omega)) fun _ => ?_
      exact ih hone (by omega)

theorem Room.CVT_SPECIAL_CHARS (h : Room a n qb) (si : List Byte) (used : Int) :
    Post Stop.Failed Built (CVT_SPECIAL_CHARS e qb si used) := by
  rw [QueryBuffer.CVT_SPECIAL_CHARS]
  rcases h.enlarge (e := e) (qb.npos + 1) with ⟨hyes, hroom⟩ | ⟨hno, hfailed⟩
  · have hlt := lt_newAlsize (qb.npos + 1)
    rw [h.npos] at hlt hroom
    rw [h.npos] at hyes ⊢
    dsimp only
    rw [if_pos hyes]
    refine (hroom.specialLoop (by omega)).bind fun qb₁ hbuilt => ?_
    exact (hbuilt.room.store hbuilt.npos_lt 0).built hbuilt.npos_lt
  · dsimp only
    rw [hno, if_neg Bool.false_ne_true]
    exact hfailed

/-! ### Binary values -/

theorem Room.bin2hexLoop {src : List Byte} : ∀ {qb : QueryBuild}, Room a n qb → ∀ i dst : Nat,
    dst + 2 * src.length ≤ a → i + src.length < 2 ^ 31 →
      ∃ qb', bin2hexLoop i dst src qb = .ok qb' ∧ Room a n qb' := by
  induction src with
  | nil => exact fun h _ _ _ _ => ⟨_, rfl, h⟩
  | cons chr src ih =>
    intro qb h i dst hdst hi
    rw [List.length_cons] at hdst hi
    have hstore := (h.store (i := dst) (by omega) (hexDigit (chr / 16))).store (i := dst + 1)
      (by omega) (hexDigit (chr % 16))
    rw [QueryBuffer.bin2hexLoop, if_pos (by omega)]
    exact ih hstore (i + 1) (dst + 2) (by omega) (by omega)

/-- The index overflows, wherever the digits are written. -/
theorem bin2hexLoop_undefined {src : List Byte} : ∀ {qb : QueryBuild} {i dst : Nat}, i < 2 ^ 31 →
    2 ^ 31 ≤ i + src.length → bin2hexLoop i dst src qb = .error .undefined := by
  induction src with
  | nil =>
    intro qb i dst hi hlen
    exact absurd hlen (not_le.mpr hi)
  | cons chr src ih =>
    intro qb i dst hi hlen
    rw [List.length_cons] at hlen
    rw [bin2hexLoop]
    by_cases hnext : i + 1 < 2 ^ 31
    · rw [if_pos hnext]
      exact ih hnext (by omega)
    · rw [if_neg hnext]

theorem Room.conv_to_octal (h : Room a n qb) (octal : Nat) (hoctal : octal + 5 < a)
    (val escape_ch : Byte) : Room a n (conv_to_octal val octal escape_ch qb).1 ∧
      (conv_to_octal val octal escape_ch qb).2 ≤ 5 := by
  unfold QueryBuffer.conv_to_octal
  by_cases hesc : escape_ch ≠ 0
  · rw [if_pos hesc]
    refine ⟨?_, le_refl _⟩
    have hhead : Room a n ((qb.store octal escape_ch).store (octal + 1) BACKSLASH) :=
      (h.store (by omega) _).store (by omega) _
    exact (((hhead.store (by omega) _).store (by omega) _).store (by omega) _).store (by omega) _
  · rw [if_neg hesc]
    refine ⟨?_, Nat.le_succ 4⟩
    have hhead : Room a n (qb.store (octal + 0) BACKSLASH) := h.store (by omega) _
    exact (((hhead.store (by omega) _).store (by omega) _).store (by omega) _).store (by omega) _

theorem Room.octalLoop (escape_ch : Byte) {out : Nat} {data : List Byte} :
    ∀ {qb : QueryBuild}, Room a n qb → ∀ o : Nat, out + o + 5 * data.length < a →
      Room a n (octalLoop escape_ch out o data qb).1 ∧
        (octalLoop escape_ch out o data qb).2 ≤ o + 5 * data.length := by
  induction data with
  | nil => exact fun h _ _ => ⟨h, le_refl _⟩
  | cons inc data ih =>
    intro qb h o ho
    rw [List.length_cons] at ho ⊢
    rw [QueryBuffer.octalLoop]
    split
    · obtain ⟨hroom, hle⟩ := ih (h.store (i := out + o) (by omega) inc) (o + 1) (by omega)
      exact ⟨hroom, by omega⟩
    · obtain ⟨hone, hfive⟩ := h.conv_to_octal (out + o) (by omega) inc escape_ch
      dsimp only
      obtain ⟨hroom, hle⟩ := ih hone
        (o + (QueryBuffer.conv_to_octal inc (out + o) escape_ch qb).2) (by omega)
      exact ⟨hroom, by omega⟩

/-- The digits, and the NUL behind them. -/
theorem Room.pg_bin2hex (h : Room a n qb) {src : List Byte} (dst : Nat)
    (hdst : dst + 2 * src.length < a) (hsrc : src.length < 2 ^ 31) :
    ∃ qb', pg_bin2hex src dst qb = .ok (qb', 2 * src.length) ∧ Room a n qb' := by
  have hcount : 0 + src.length < 2 ^ 31 := by rw [Nat.zero_add]; exact hsrc
  obtain ⟨qb', heq, hroom⟩ := h.bin2hexLoop 0 dst (le_of_lt hdst) hcount
  rw [QueryBuffer.pg_bin2hex, heq]
  exact ⟨_, rfl, hroom.store hdst 0⟩

/-- A binary value stays within what `CVT_APPEND_BINARY` makes room for. -/
theorem Room.convert_to_pgbinary (h : Room a n qb) {data : List Byte} {out : Nat}
    (hout : out + Bytea.newlimit e.flags data.length < a)
    (hfits : e.flags.hexBinFormat → data.length < 2 ^ 31) :
    Post Stop.Failed (fun r => Room a n r.1 ∧ r.2 ≤ Bytea.newlimit e.flags data.length)
      (convert_to_pgbinary e data out qb) := by
  rw [QueryBuffer.convert_to_pgbinary]
  unfold Bytea.newlimit at hout ⊢
  by_cases hhex : e.flags.hexBinFormat = true
  · rw [if_pos hhex] at hout ⊢
    rw [if_pos hhex]
    cases Bytea.esc_double e.conn e.mode with
    | false =>
      have hhead := (h.store (i := out) (by omega) BACKSLASH).store (i := out + 1) (by omega) 0x78
      obtain ⟨qb', heq, hroom⟩ := hhead.pg_bin2hex (out + 2) (by omega) (hfits hhex)
      change Post _ _ (QueryBuffer.pg_bin2hex data (out + 2)
        ((qb.store out BACKSLASH).store (out + 1) 0x78) >>= _)
      rw [heq]
      exact ⟨hroom, by dsimp only; omega⟩
    | true =>
      have hhead := ((h.store (i := out) (by omega) e.conn.escape_in_literal).store (i := out + 1)
        (by omega) BACKSLASH).store (i := out + 2) (by omega) 0x78
      obtain ⟨qb', heq, hroom⟩ := hhead.pg_bin2hex (out + 3) (by omega) (hfits hhex)
      change Post _ _ (QueryBuffer.pg_bin2hex data (out + 3) (((qb.store out
        e.conn.escape_in_literal).store (out + 1) BACKSLASH).store (out + 2) 0x78) >>= _)
      rw [heq]
      exact ⟨hroom, by dsimp only; omega⟩
  · rw [if_neg hhex] at hout ⊢
    rw [if_neg hhex]
    obtain ⟨hroom, hle⟩ := h.octalLoop
      (if Bytea.esc_double e.conn e.mode then e.conn.escape_in_literal else 0) 0 hout
    exact ⟨hroom, by omega⟩

theorem Room.CVT_APPEND_BINARY (h : Room a n qb) {buf : List Byte}
    (hfits : e.flags.hexBinFormat → buf.length < 2 ^ 31) :
    Post Stop.Failed Built (CVT_APPEND_BINARY e qb buf) := by
  rw [QueryBuffer.CVT_APPEND_BINARY]
  refine (h.ENLARGE_NEWSTATEMENT _).bind fun qb₁ ⟨a₁, hlt, hroom⟩ => ?_
  rw [h.npos, ← hroom.npos] at hlt
  refine (hroom.convert_to_pgbinary hlt hfits).bind fun r ⟨hdone, hle⟩ => ?_
  have hmoved := hdone.moved (r.1.npos + r.2)
  refine hmoved.built ?_
  rw [hdone.npos, ← hroom.npos]
  omega

/-- The room is there exactly when `ENLARGE_NEWSTATEMENT` goes on. -/
theorem hasRoom_iff {used : Nat} : qb.HasRoom e used ↔
    ∃ qb', ENLARGE_NEWSTATEMENT e qb (qb.npos + Bytea.newlimit e.flags used) = .ok qb' := by
  rw [QueryBuild.HasRoom, ENLARGE_NEWSTATEMENT]
  by_cases hthere : qb.npos + Bytea.newlimit e.flags used < qb.str_alsize
  · rw [if_neg (not_le.mpr hthere)]
    exact iff_of_true (.inl hthere) ⟨qb, rfl⟩
  · rw [if_pos (not_lt.mp hthere), enlarge_query_statement, or_iff_right hthere]
    dsimp only
    by_cases hgiven : e.given qb.trace (newAlsize (qb.npos + Bytea.newlimit e.flags used)) = true
    · rw [if_pos hgiven]
      exact iff_of_true hgiven ⟨_, rfl⟩
    · rw [if_neg hgiven]
      refine iff_of_false hgiven ?_
      rintro ⟨qb', heq⟩
      cases heq

/-- The room is there, and the digits cannot be counted. -/
theorem CVT_APPEND_BINARY_undefined {buf : List Byte} (hhex : e.flags.hexBinFormat = true)
    (hroom : qb.HasRoom e buf.length) (hlen : 2 ^ 31 ≤ buf.length) :
    CVT_APPEND_BINARY e qb buf = .error .undefined := by
  have hdigits : ∀ dst qb, pg_bin2hex buf dst qb = .error .undefined := by
    intro dst qb
    rw [pg_bin2hex, bin2hexLoop_undefined (by decide) (by omega)]
    rfl
  have hbinary : ∀ out qb, convert_to_pgbinary e buf out qb = .error .undefined := by
    intro out qb
    rw [convert_to_pgbinary, if_pos hhex]
    cases Bytea.esc_double e.conn e.mode <;>
    · dsimp only [Bool.false_eq_true, if_false, if_true]
      rw [hdigits]
      rfl
  obtain ⟨qb', heq⟩ := hasRoom_iff.mp hroom
  rw [CVT_APPEND_BINARY]
  dsimp only
  rw [heq, Lib.ok_bind, hbinary]
  rfl

/-! ### Runs -/

/-- **One append.** It leaves the builder in order, or fails in its error state. -/
theorem Built.apply (h : Built qb) {append : Append} (hfits : Fits e (.building qb) append) :
    Post Stop.Failed Built (append.apply e qb) := by
  cases append with
  | char c => exact h.room.CVT_APPEND_CHAR c
  | data s => exact h.room.CVT_APPEND_DATA s
  | str s => exact h.room.CVT_APPEND_DATA _
  | specialChars si used => exact h.room.CVT_SPECIAL_CHARS si used
  | binary buf =>
    by_cases hroom : qb.HasRoom e buf.length
    · exact h.room.CVT_APPEND_BINARY fun hhex => hfits hhex hroom
    · -- no room is given, so nothing is converted
      have henlarge := h.room.ENLARGE_NEWSTATEMENT (e := e)
        (qb.npos + Bytea.newlimit e.flags buf.length)
      change Post _ _ (CVT_APPEND_BINARY e qb buf)
      rw [CVT_APPEND_BINARY]
      dsimp only
      cases heq : ENLARGE_NEWSTATEMENT e qb (qb.npos + Bytea.newlimit e.flags buf.length) with
      | ok qb' => exact absurd (hasRoom_iff.mpr ⟨qb', heq⟩) hroom
      | error stop =>
        rw [heq] at henlarge
        exact henlarge
  | terminate => exact h.room.CVT_TERMINATE h.npos_lt
  | restart => exact (h.room.moved 0).built (by have := h.npos_lt; omega)

/-- A step from a sound state leads to a sound one exactly when the append fits. -/
theorem sound_step_iff {s : Run} (hs : s.Sound) (append : Append) :
    (s.step e append).Sound ↔ Fits e s append := by
  cases s with
  | failed qb => exact iff_of_true hs trivial
  | undefined => exact absurd hs id
  | building qb =>
    constructor
    · intro hsound
      cases append with
      | binary buf =>
        intro hhex hroom
        by_contra hlen
        have hundef : Append.apply e qb (.binary buf) = .error .undefined :=
          CVT_APPEND_BINARY_undefined hhex hroom (not_lt.mp hlen)
        rw [Run.step, hundef] at hsound
        exact hsound
      | _ => trivial
    · intro hfits
      have hpost := Built.apply hs hfits
      rw [Run.step]
      cases heq : append.apply e qb with
      | ok qb' =>
        rw [heq] at hpost
        exact hpost
      | error stop =>
        rw [heq] at hpost
        cases stop with
        | cleanup qb' => exact hpost
        | undefined => exact hpost

/-- A builder with a block of its own is in order. -/
theorem built_fresh {size : Nat} (hsize : 0 < size) (qb : QueryBuild) :
    Built (QueryBuild.store { qb with
      query_statement := some (List.replicate size e.fresh), str_alsize := size, npos := 0
      trace := [.granted size] } 0 0) := by
  have hroom : Room size 0 { qb with
      query_statement := some (List.replicate size e.fresh), str_alsize := size, npos := 0
      trace := [.granted size] } := by
    refine ⟨rfl, rfl, ⟨_, rfl, List.length_replicate⟩, ?_, ?_⟩
    · intro i alsize hi
      cases List.mem_singleton.mp hi
    · intro n hn
      cases List.mem_singleton.mp hn
  exact (hroom.store hsize 0).built hsize

theorem sound_start_iff {start : Start} {s : Run} (hs : s ∈ start.run e) :
    s.Sound ↔ start.Given e := by
  cases start with
  | whole size stmt =>
    rw [Start.run] at hs
    dsimp only at hs
    split at hs
    · obtain rfl := Option.some.inj hs
      refine iff_of_true ?_ trivial
      exact built_fresh (by have := lt_newAlsize size; omega)
        ⟨none, 0, 0, 0, none, some stmt, []⟩
    · cases hs
  | copy qb_from =>
    rw [Start.run] at hs
    dsimp only at hs
    split at hs
    · rename_i hgiven
      obtain rfl := Option.some.inj hs
      exact iff_of_true (built_fresh (by decide) qb_from) hgiven
    · rename_i hrefused
      obtain rfl := Option.some.inj hs
      refine iff_of_false (fun h => ?_) hrefused
      exact absurd h.npos_lt (Nat.not_lt_zero _)

/-- **The buffer of a query.** A run of appends keeps `npos` and all it writes below `str_alsize`,
and ends at a failed enlargement, exactly when the builder has got its first block and every binary
value that is written in hexadecimal digits has fewer than `2 ^ 31` bytes. -/
theorem appends_right_iff (e : Env) (start : Start) (appends : List Append) :
    Right e start appends ↔ ∀ s ∈ start.run e,
      start.Given e ∧ (runMachine e).AllSteps (Fits e) s appends := by
  refine forall_congr' fun s => forall_congr' fun hs => ?_
  rw [sound_start_iff hs]
  refine and_congr_right fun hgiven => ?_
  refine Machine.allSteps_iff ?_ ?_ ((sound_start_iff hs).mpr hgiven)
  · exact fun s a hsound => sound_step_iff hsound a
  · exact fun s a hsound hfits => (sound_step_iff hsound a).mpr hfits

/-- The arguments of a function escape go on being built when the copy of the builder has got no
block. -/
theorem copy_without_block : ¬ ∀ (e : Env) (start : Start) (appends : List Append),
    Right e start appends := by
  intro h
  let e : Env := ⟨fun _ size => size != 1024, 0, sampleConn, sampleFlags, .replaceParams⟩
  let qb_from : QueryBuild :=
    ⟨some (List.replicate 4096 0x20), 4096, 7, 0, none, some ⟨0, none⟩, []⟩
  have hlt := (h e (.copy qb_from) [.char 0x28] _ rfl).1.npos_lt
  exact absurd hlt (by decide)

end OdbcDriver.QueryBuffer
