import OdbcDriver.Encoding.NextChar
import OdbcDriver.Lexer.Identifiers

/-!
# Writing the name of a table

`quote_table` writes the names of a schema and a table, in quotes and with their own quotes doubled,
into a buffer. Its loops end early enough to leave room for what follows: `kept` is the part of a
name they write. They give up one byte too early where the last byte of the names is no quote and
the whole text just fits.

* `quote_table_ok`, `quote_table_room`: what is written, and the least size of the buffer;
* `settles_text`: the quotes of a well-formed name are met between characters;
* `quotedBack_iff`: when the reader finds the names again.
-/

namespace OdbcDriver.Identifiers

open CString (Fault)
open Lib (bind_eq_ok ok_bind pure_eq_ok)

/-! ### The writer -/

/-- A loop of `quote_table`, which keeps `reserve` bytes at the end of the buffer. -/
def quoteName (buf_size reserve : ℕ) : List Byte → ℕ → List Byte → Except Fault (ℕ × List Byte)
  | [], i, buf => return (i, buf)
  | c :: name, i, buf => do
    if i + reserve < buf_size then
      let buf ← CString.write buf i c
      if c = IDENTIFIER_QUOTE then
        let buf ← CString.write buf (i + 1) IDENTIFIER_QUOTE
        quoteName buf_size reserve name (i + 2) buf
      else quoteName buf_size reserve name (i + 1) buf
    else return (i, buf)

/-- `quote_table` as far as it writes the schema. -/
def quoteSchema (schema : Option (List Byte)) (buf : List Byte) (buf_size : ℕ) :
    Except Fault (ℕ × List Byte) :=
  match schema with
  | none => return (0, buf)
  | some schema => do
    let buf ← CString.write buf 0 IDENTIFIER_QUOTE
    let (i, buf) ← quoteName buf_size 6 schema 1 buf
    let buf ← CString.write buf i IDENTIFIER_QUOTE
    let buf ← CString.write buf (i + 1) 0x2e
    return (i + 2, buf)

/-- `quote_table`. A name that is not valid is `none`. -/
def quote_table (schema table : Option (List Byte)) (buf : List Byte) (buf_size : ℕ) :
    Except Fault (List Byte) := do
  let (i, buf) ← quoteSchema schema buf buf_size
  let buf ← CString.write buf i IDENTIFIER_QUOTE
  let (i, buf) ← quoteName buf_size 3 (table.getD []) (i + 1) buf
  let buf ← CString.write buf i IDENTIFIER_QUOTE
  CString.write buf (i + 1) 0

/-! ### Writing into a buffer -/

variable {buf buf' f z name : List Byte} {i j n reserve : ℕ} {c : Byte}

/-- The part of a name that a loop writes while it has `n` bytes to go. -/
def kept : ℕ → List Byte → List Byte
  | 0, _ => []
  | _, [] => []
  | n + 1, c :: name => c :: kept (if c = IDENTIFIER_QUOTE then n - 1 else n) name

@[simp]
theorem kept_nil (n : ℕ) : kept n [] = [] := by
  cases n <;> rfl

theorem doubled_cons (c : Byte) (name : List Byte) :
    doubled (c :: name) =
      (if c = IDENTIFIER_QUOTE then [c, c] else [c]) ++ doubled name := rfl

/-- The last byte written may be the second of two. -/
theorem kept_length (n : ℕ) (name : List Byte) : (doubled (kept n name)).length ≤ n + 1 := by
  induction name generalizing n with
  | nil =>
    rw [kept_nil]
    exact Nat.zero_le _
  | cons c name ih =>
    cases n with
    | zero => exact Nat.zero_le _
    | succ n =>
      rw [kept, doubled_cons, List.length_append]
      split
      · have := ih (n - 1)
        cases name with
        | nil => simp [doubled]
        | cons d name =>
          cases n with
          | zero => simp [kept, doubled]
          | succ n => simp only [List.length_cons, List.length_nil]; omega
      · have := ih n
        simp only [List.length_cons, List.length_nil]
        omega

theorem write_next (hi : i = f.length) (hz : 0 < z.length) (c : Byte) :
    CString.write (f ++ z) i c = .ok (f ++ [c] ++ z.drop 1) := by
  obtain ⟨x, z, rfl⟩ := List.exists_cons_of_length_pos hz
  rw [CString.write_eq rfl hi]
  simp

/-- What a loop writes where there is room for it. -/
theorem quoteName_eq (hi : i = f.length) (hroom : (doubled (kept n name)).length ≤ z.length)
    (hn : n = j - reserve - i) :
    quoteName j reserve name i (f ++ z) =
      .ok (i + (doubled (kept n name)).length,
        f ++ doubled (kept n name) ++ z.drop (doubled (kept n name)).length) := by
  induction name generalizing f z i n with
  | nil => simp [quoteName, doubled, pure_eq_ok]
  | cons c name ih =>
    by_cases hlt : i + reserve < j
    · obtain ⟨n', rfl⟩ : ∃ n', n = n' + 1 := ⟨n - 1, by omega⟩
      rw [kept] at hroom ⊢
      rw [doubled_cons, List.length_append] at hroom
      rw [quoteName, if_pos hlt]
      by_cases hc : c = IDENTIFIER_QUOTE
      · subst hc
        simp only [if_true, List.length_cons, List.length_nil] at hroom
        rw [write_next hi (by omega), ok_bind, if_pos rfl,
          write_next (by simp [hi]) (by rw [List.length_drop]; omega), ok_bind,
          ih (n := n' - 1) (by simp [hi]) (by simp only [List.length_drop]; omega) (by omega)]
        simp [doubled_quote]
        omega
      · simp only [if_neg hc, List.length_cons, List.length_nil] at hroom
        rw [write_next hi (by omega), ok_bind, if_neg hc,
          ih (n := n') (by simp [hi]) (by simp only [List.length_drop]; omega) (by omega)]
        simp [hc, doubled_other hc, Nat.add_assoc, Nat.add_comm]
    · obtain rfl : n = 0 := by omega
      rw [quoteName, if_neg hlt]
      simp [kept, doubled, pure_eq_ok]

/-! ### The text -/

/-- The name of a schema, with the point behind it. -/
def schemaText : Option (List Byte) → List Byte
  | none => []
  | some schema => IDENTIFIER_QUOTE :: (doubled schema ++ [IDENTIFIER_QUOTE, 0x2e])

/-- The whole text. -/
def quotedText (schema : Option (List Byte)) (table : List Byte) : List Byte :=
  schemaText schema ++ (IDENTIFIER_QUOTE :: (doubled table ++ [IDENTIFIER_QUOTE]))

/-- The least buffer for any names. -/
def leastSize (schema : Option (List Byte)) : ℕ := if schema.isSome then 6 else 3

/-- What `quote_table` writes of a schema. -/
def keptSchema (buf_size : ℕ) (schema : Option (List Byte)) : Option (List Byte) :=
  schema.map (kept (buf_size - 7))

/-- What `quote_table` writes of a table. -/
def keptTable (buf_size : ℕ) (schema : Option (List Byte)) (table : List Byte) : List Byte :=
  kept (buf_size - 4 - (schemaText (keptSchema buf_size schema)).length) table

theorem schemaText_some (schema : List Byte) :
    (schemaText (some schema)).length = (doubled schema).length + 3 := by
  simp [schemaText]

theorem quotedText_length (schema : Option (List Byte)) (table : List Byte) :
    (quotedText schema table).length =
      (schemaText schema).length + (doubled table).length + 2 := by
  simp [quotedText]
  omega

theorem kept_zero (hn : n = 0) (name : List Byte) : (doubled (kept n name)).length = 0 := by
  subst hn
  cases name <;> rfl

theorem quoteSchema_ok {schema : Option (List Byte)} (h : leastSize schema ≤ buf.length) :
    quoteSchema schema buf buf.length =
      .ok ((schemaText (keptSchema buf.length schema)).length,
        schemaText (keptSchema buf.length schema) ++
          buf.drop (schemaText (keptSchema buf.length schema)).length) := by
  cases schema with
  | none => rfl
  | some schema =>
    replace h : 6 ≤ buf.length := h
    have hopen := write_next (f := []) (i := 0) (z := buf) rfl (by omega) IDENTIFIER_QUOTE
    have hlen := kept_length (buf.length - 7) schema
    have hzero : buf.length ≤ 7 → (doubled (kept (buf.length - 7) schema)).length = 0 :=
      fun hle => kept_zero (by omega) schema
    have hloop := @quoteName_eq [IDENTIFIER_QUOTE] (buf.drop 1) schema 1 buf.length
      (buf.length - 7) 6 rfl
      (by rw [List.length_drop]; omega) (by omega)
    rw [keptSchema, Option.map_some, schemaText_some, quoteSchema]
    dsimp only
    rw [List.nil_append] at hopen
    rw [hopen, ok_bind, List.nil_append, hloop, ok_bind]
    dsimp only
    rw [write_next (by simp; omega) (by simp only [List.length_drop]; omega), ok_bind,
      write_next (by simp; omega) (by simp only [List.length_drop]; omega), ok_bind, pure_eq_ok]
    simp [schemaText]
    omega

/-- Into a buffer that is large enough for any names `quote_table` writes without a fault. -/
theorem quote_table_ok {schema : Option (List Byte)} (h : leastSize schema ≤ buf.length)
    (table : List Byte) :
    ∃ z, quote_table schema (some table) buf buf.length =
      .ok (quotedText (keptSchema buf.length schema) (keptTable buf.length schema table) ++
        0 :: z) := by
  have hfirst : (schemaText (keptSchema buf.length schema)).length + 3 ≤ buf.length := by
    cases schema with
    | none => exact h
    | some schema =>
      replace h : 6 ≤ buf.length := h
      have hlen := kept_length (buf.length - 7) schema
      have hzero : buf.length ≤ 7 → (doubled (kept (buf.length - 7) schema)).length = 0 :=
        fun hle => kept_zero (by omega) schema
      rw [keptSchema, Option.map_some, schemaText_some]
      omega
  rw [quote_table, quoteSchema_ok h, ok_bind, keptTable, quotedText]
  dsimp only
  generalize schemaText (keptSchema buf.length schema) = first at hfirst ⊢
  rw [write_next rfl (by rw [List.length_drop]; omega), ok_bind]
  have hlen := kept_length (buf.length - 4 - first.length) table
  have hzero : buf.length ≤ first.length + 4 →
      (doubled (kept (buf.length - 4 - first.length) table)).length = 0 :=
    fun hle => kept_zero (by omega) table
  rw [Option.getD_some, quoteName_eq (n := buf.length - 4 - first.length) (by simp)
    (by simp only [List.length_drop]; omega) (by omega), ok_bind]
  dsimp only
  rw [write_next (by simp; omega) (by simp only [List.length_drop]; omega), ok_bind,
    write_next (by simp; omega) (by simp only [List.length_drop]; omega)]
  generalize List.drop 1 (List.drop 1 _) = left
  exact ⟨left, by simp⟩

/-! ### The room it takes -/

theorem of_write (h : CString.write buf i c = .ok buf') :
    i < buf.length ∧ buf'.length = buf.length := by
  rw [CString.write] at h
  split at h
  · cases h
    exact ⟨‹_›, List.length_set⟩
  · cases h

theorem of_quoteName (h : quoteName n reserve name i buf = .ok (j, buf')) :
    i ≤ j ∧ buf'.length = buf.length := by
  induction name generalizing i buf with
  | nil =>
    cases h
    exact ⟨le_rfl, rfl⟩
  | cons c name ih =>
    rw [quoteName] at h
    split at h
    · obtain ⟨buf₁, hwrite, h⟩ := bind_eq_ok.mp h
      obtain ⟨-, hlen⟩ := of_write hwrite
      split at h
      · obtain ⟨buf₂, hwrite', h⟩ := bind_eq_ok.mp h
        obtain ⟨-, hlen'⟩ := of_write hwrite'
        obtain ⟨hle, hlen''⟩ := ih h
        exact ⟨by omega, by omega⟩
      · obtain ⟨hle, hlen'⟩ := ih h
        exact ⟨by omega, by omega⟩
    · cases h
      exact ⟨le_rfl, rfl⟩

theorem of_quoteSchema {schema : Option (List Byte)}
    (h : quoteSchema schema buf n = .ok (j, buf')) :
    leastSize schema ≤ j + 3 ∧ buf'.length = buf.length := by
  cases schema with
  | none =>
    cases h
    exact ⟨le_rfl, rfl⟩
  | some schema =>
    obtain ⟨buf₁, hopen, h⟩ := bind_eq_ok.mp h
    obtain ⟨⟨i, buf₂⟩, hloop, h⟩ := bind_eq_ok.mp h
    obtain ⟨buf₃, hclose, h⟩ := bind_eq_ok.mp h
    obtain ⟨buf₄, hpoint, h⟩ := bind_eq_ok.mp h
    cases h
    have hle := (of_quoteName hloop).1
    refine ⟨?_, ?_⟩
    · change 6 ≤ i + 2 + 3
      omega
    · rw [(of_write hpoint).2, (of_write hclose).2, (of_quoteName hloop).2, (of_write hopen).2]

/-- Into a smaller buffer `quote_table` writes past the end. -/
theorem quote_table_room {schema table : Option (List Byte)}
    (h : quote_table schema table buf n = .ok buf') : leastSize schema ≤ buf.length := by
  obtain ⟨⟨i, buf₁⟩, hschema, h⟩ := bind_eq_ok.mp h
  obtain ⟨buf₂, hopen, h⟩ := bind_eq_ok.mp h
  obtain ⟨⟨j, buf₃⟩, hloop, h⟩ := bind_eq_ok.mp h
  obtain ⟨buf₄, hclose, hend⟩ := bind_eq_ok.mp h
  obtain ⟨hleast, hlen₁⟩ := of_quoteSchema hschema
  obtain ⟨hle, hlen₃⟩ := of_quoteName hloop
  have hlen₂ := (of_write hopen).2
  have hlen₄ := (of_write hclose).2
  have hlt := (of_write hend).1
  omega

/-! ### The last byte -/

/-- A name takes one byte more than a loop has to go, and its last byte is no quote. -/
def Lacks (n : ℕ) (name : List Byte) : Prop :=
  (doubled name).length = n + 1 ∧ ∃ c ∈ name.getLast?, c ≠ IDENTIFIER_QUOTE

theorem not_lacks_nil (n : ℕ) : ¬Lacks n [] := fun h => Nat.succ_ne_zero n h.1.symm

theorem lacks_cons {w : ℕ} (hlen : (doubled (c :: name)).length = (doubled name).length + w) :
    Lacks (n + w) (c :: name) ↔ Lacks n name := by
  cases name with
  | nil =>
    have hzero : (doubled []).length = 0 := rfl
    refine ⟨fun h => ?_, fun h => absurd h (not_lacks_nil n)⟩
    have := h.1
    omega
  | cons d name =>
    rw [Lacks, Lacks, List.getLast?_cons_cons, hlen]
    refine and_congr_left fun _ => ?_
    omega

theorem eq_nil_of_doubled (h : (doubled name).length = 0) : name = [] := by
  cases name with
  | nil => rfl
  | cons c name =>
    rw [doubled_cons, List.length_append] at h
    split at h <;> simp at h

/-- A name for which a loop has at most one byte too few is written in full, or loses its last
byte. -/
theorem kept_or (h : (doubled name).length ≤ n + 1) :
    kept n name = name ∧ ¬Lacks n name ∨ plain (kept n name) < plain name ∧ Lacks n name := by
  induction name generalizing n with
  | nil => exact .inl ⟨kept_nil n, not_lacks_nil n⟩
  | cons c name ih =>
    by_cases hc : c = IDENTIFIER_QUOTE
    · have hlen : (doubled (c :: name)).length = (doubled name).length + 2 := by
        rw [hc, doubled_quote]
        rfl
      match n with
      | 0 => omega
      | 1 =>
        obtain rfl : name = [] := eq_nil_of_doubled (by omega)
        refine .inl ⟨by rw [kept, kept_nil], fun hlacks => ?_⟩
        obtain ⟨d, hd, hne⟩ := hlacks.2
        rw [List.getLast?_singleton, Option.mem_some_iff] at hd
        exact hne (hd ▸ hc)
      | m + 2 =>
        have hkept : kept (m + 2) (c :: name) = c :: kept m name := by
          rw [kept, if_pos hc]
          rfl
        rw [hkept, lacks_cons hlen, plain_cons c name, plain_cons c, Nat.add_lt_add_iff_left,
          List.cons_inj_right]
        exact ih (by omega)
    · have hlen : (doubled (c :: name)).length = (doubled name).length + 1 := by
        rw [doubled_other hc]
        rfl
      match n with
      | 0 =>
        obtain rfl : name = [] := eq_nil_of_doubled (by omega)
        have hone : plain [c] = 1 := by simp [plain, hc]
        exact .inr ⟨hone ▸ Nat.one_pos, hlen, c, rfl, hc⟩
      | m + 1 =>
        rw [kept, if_neg hc, lacks_cons hlen, plain_cons c name, plain_cons c,
          Nat.add_lt_add_iff_left, List.cons_inj_right]
        exact ih (by omega)

/-- The names just fit, and end in a byte that is no quote: it is left out. -/
def LosesLast (schema : Option (List Byte)) (table : List Byte) (buf_size : ℕ) : Prop :=
  (quotedText schema table).length + 1 = buf_size ∧
    ∃ c ∈ (schema.getD [] ++ table).getLast?, c ≠ IDENTIFIER_QUOTE

/-- The bytes of a text, quotes aside. -/
theorem plain_quotedText (schema : Option (List Byte)) (table : List Byte) :
    plain (quotedText schema table) =
      (schema.map fun name => 1 + plain name).getD 0 + plain table := by
  have hdoubled : ∀ name, plain (doubled name) = plain name := by
    intro name
    induction name with
    | nil => rfl
    | cons c name ih =>
      rw [doubled_cons, plain_append, ih, plain_cons c name]
      by_cases hc : c = IDENTIFIER_QUOTE
      · simp [hc, plain]
      · rw [if_neg hc]
  have hquote : ∀ s, plain (IDENTIFIER_QUOTE :: s) = plain s := fun s => by simp [plain]
  cases schema with
  | none => simp [quotedText, schemaText, plain_append, hquote, hdoubled, show plain [] = 0 from rfl]
  | some schema =>
    have hpoint : ∀ s, plain (0x2e :: s) = 1 + plain s := fun s => plain_cons 0x2e s
    simp [quotedText, schemaText, plain_append, hquote, hdoubled, hpoint,
      show plain [] = 0 from rfl]
    omega

/-- What is written of names that fit: all of them, or fewer bytes. -/
theorem written_or {schema : Option (List Byte)} {table : List Byte}
    (h : (quotedText schema table).length + 1 ≤ n) :
    keptSchema n schema = schema ∧ keptTable n schema table = table ∧
        ¬LosesLast schema table n ∨
      plain (quotedText (keptSchema n schema) (keptTable n schema table)) <
          plain (quotedText schema table) ∧
        LosesLast schema table n := by
  have hpos : ∀ {name : List Byte} {P : Byte → Prop}, (∃ c ∈ name.getLast?, P c) →
      0 < (doubled name).length := by
    rintro name P ⟨c, hc, -⟩
    refine Nat.pos_of_ne_zero fun hzero => ?_
    rw [eq_nil_of_doubled hzero] at hc
    cases hc
  have hnil : (doubled []).length = 0 := rfl
  rw [quotedText_length] at h
  cases schema with
  | none =>
    have hlen : (schemaText none).length = 0 := rfl
    have hlast : LosesLast none table n ↔ Lacks (n - 4) table := by
      rw [LosesLast, quotedText_length, Lacks]
      refine and_congr_left fun hc => ?_
      have : 0 < (doubled table).length := hpos hc
      omega
    have hkept : keptTable n none table = kept (n - 4) table := rfl
    rw [hlast, hkept, plain_quotedText, plain_quotedText]
    rcases @kept_or table (n - 4) (by omega) with ⟨hfull, hnot⟩ | ⟨hlt, hlacks⟩
    · exact .inl ⟨rfl, hfull, hnot⟩
    · exact .inr ⟨Nat.add_lt_add_left hlt _, hlacks⟩
  | some schema =>
    rw [schemaText_some] at h
    have hlast : LosesLast (some schema) table n ↔
        (doubled schema).length + (doubled table).length + 6 = n ∧
          ∃ c ∈ (schema ++ table).getLast?, c ≠ IDENTIFIER_QUOTE := by
      rw [LosesLast, quotedText_length, schemaText_some]
      refine and_congr_left fun hc => ?_
      omega
    rw [hlast]
    rcases @kept_or schema (n - 7) (by omega) with ⟨hfull, hnot⟩ | ⟨hlt, hlacks⟩
    · have hschema : keptSchema n (some schema) = some schema := congrArg some hfull
      have hkept : keptTable n (some schema) table = kept (n - 7 - (doubled schema).length) table := by
        rw [keptTable, hschema, schemaText_some]
        congr 1
        omega
      by_cases hempty : table = []
      · subst hempty
        refine .inl ⟨hschema, by rw [hkept, kept_nil], fun hlost => hnot ?_⟩
        rw [List.append_nil] at hlost
        have := hpos hlost.2
        exact ⟨by omega, hlost.2⟩
      · have hback : (schema ++ table).getLast? = table.getLast? :=
          List.getLast?_append_of_ne_nil _ hempty
        have hlacks : ((doubled schema).length + (doubled table).length + 6 = n ∧
            ∃ c ∈ (schema ++ table).getLast?, c ≠ IDENTIFIER_QUOTE) ↔
            Lacks (n - 7 - (doubled schema).length) table := by
          rw [hback, Lacks]
          refine and_congr_left fun hc => ?_
          have := hpos hc
          omega
        rw [hlacks, hschema, hkept, plain_quotedText, plain_quotedText]
        rcases @kept_or table (n - 7 - (doubled schema).length) (by omega) with
          ⟨hfull', hnot'⟩ | ⟨hlt', hlacks'⟩
        · exact .inl ⟨rfl, hfull', hnot'⟩
        · exact .inr ⟨Nat.add_lt_add_left hlt' _, hlacks'⟩
    · obtain ⟨hlen, hc⟩ := hlacks
      have := hpos hc
      obtain rfl : table = [] := eq_nil_of_doubled (by omega)
      have hkept : keptTable n (some schema) [] = [] := kept_nil _
      have hless : plain (kept (n - 7) schema) < plain schema := hlt
      refine .inr ⟨?_, by omega, by rwa [List.append_nil]⟩
      rw [hkept, plain_quotedText, plain_quotedText, keptSchema]
      simp only [Option.map_some, Option.getD_some]
      omega

/-! ### Reading the names again -/

variable {ccsc : Ccsc} {schema : Option (List Byte)} {table : List Byte}

theorem dropWhile_quote (s : List Byte) :
    (IDENTIFIER_QUOTE :: s).dropWhile isSpace = IDENTIFIER_QUOTE :: s := rfl

/-- The readings that give a table: of one, two or three names. -/
theorem of_eat {s : List Byte}
    (h : eatTableIdentifiers ccsc (IDENTIFIER_QUOTE :: s) = ⟨true, some table, schema⟩) :
    ∃ name rest, readName ccsc 0 s = some (name, rest) ∧
      (schema = none ∧ table = name ∨
        (∃ tail, rest = 0x2e :: tail ∧ schema = some name ∧
          eatName ccsc false tail = some (table, none)) ∨
        ∃ name, schema = some name ∧ plain table + plain name + 2 ≤ plain s) := by
  have hfirst := eatName_quoted ccsc true s
  rw [eatTableIdentifiers, dropWhile_quote] at h
  cases hread : readName ccsc 0 s with
  | none =>
    rw [hfirst, hread] at h
    cases h
  | some r =>
    obtain ⟨name, rest⟩ := r
    refine ⟨name, rest, rfl, ?_⟩
    rw [hread, Option.map_some] at hfirst
    dsimp only at hfirst
    by_cases hpoint : rest.head? = some 0x2e
    · obtain ⟨tail, rfl⟩ := List.head?_eq_some_iff.mp hpoint
      rw [if_pos hpoint, List.tail_cons] at hfirst
      have hone := plain_eatName hfirst
      rw [hfirst] at h
      dsimp only at h
      split at h
      · cases h
      next hsecond =>
        cases h
        exact .inr (.inl ⟨tail, rfl, rfl, hsecond⟩)
      next hsecond =>
        have htwo := plain_eatName hsecond
        split at h
        · cases h
        next hthird =>
          have hthree := plain_eatName hthird
          cases h
          have hquote : plain (IDENTIFIER_QUOTE :: s) = plain s := by simp [plain]
          simp only [Option.map_some, Option.getD_some] at hone htwo hthree
          exact .inr (.inr ⟨_, rfl, by omega⟩)
    · rw [if_neg hpoint] at hfirst
      rw [hfirst] at h
      cases h
      exact .inl ⟨rfl, rfl⟩

/-- A table alone is found again exactly if its name settles. -/
theorem eat_table (ccsc : Ccsc) (table : List Byte) :
    eatTableIdentifiers ccsc (quotedText none table) = ⟨true, some table, none⟩ ↔
      Settles ccsc 0 table := by
  have hback : ∀ rest, readName ccsc 0 (doubled table ++ [IDENTIFIER_QUOTE]) =
      some (table, rest) ↔ Settles ccsc 0 table ∧ rest = [] := fun rest =>
    readName_doubled (by simp)
  rw [quotedText, schemaText, List.nil_append]
  constructor
  · intro h
    obtain ⟨name, rest, hread, ⟨-, rfl⟩ | ⟨_, -, hsome, -⟩ | ⟨_, hsome, -⟩⟩ := of_eat h
    · exact ((hback rest).mp hread).1
    · cases hsome
    · cases hsome
  · intro h
    rw [eatTableIdentifiers, dropWhile_quote, eatName_quoted, (hback []).mpr ⟨h, rfl⟩]
    rfl

/-- A table with its schema is found again exactly if both names settle. -/
theorem eat_schema (ccsc : Ccsc) (schema table : List Byte) :
    eatTableIdentifiers ccsc (quotedText (some schema) table) =
        ⟨true, some table, some schema⟩ ↔
      Settles ccsc 0 schema ∧ Settles ccsc 0 table := by
  obtain ⟨z, hz⟩ : ∃ z, z = (0x2e : Byte) :: IDENTIFIER_QUOTE ::
      (doubled table ++ [IDENTIFIER_QUOTE]) := ⟨_, rfl⟩
  have htext : quotedText (some schema) table =
      IDENTIFIER_QUOTE :: (doubled schema ++ IDENTIFIER_QUOTE :: z) := by
    rw [hz]
    simp [quotedText, schemaText]
  have hhead : z.head? ≠ some IDENTIFIER_QUOTE := by
    rw [hz]
    exact fun h => absurd (Option.some.inj h) (by decide)
  have hfirst : ∀ rest, readName ccsc 0 (doubled schema ++ IDENTIFIER_QUOTE :: z) =
      some (schema, rest) ↔ Settles ccsc 0 schema ∧ rest = z := fun rest =>
    readName_doubled hhead
  have hsecond : ∀ rest, readName ccsc 0 (doubled table ++ [IDENTIFIER_QUOTE]) =
      some (table, rest) ↔ Settles ccsc 0 table ∧ rest = [] := fun rest =>
    readName_doubled (by simp)
  constructor
  · intro h
    have hplain := plain_quotedText (some schema) table
    rw [htext] at h hplain
    obtain ⟨name, rest, hread, ⟨hnone, -⟩ | ⟨tail, hrest, hname, hnext⟩ | ⟨name', hname, hle⟩⟩ :=
      of_eat h
    · cases hnone
    · obtain rfl := Option.some.inj hname
      obtain ⟨hschema, rfl⟩ := (hfirst rest).mp hread
      obtain rfl := (List.cons.inj (hz.symm.trans hrest)).2
      rw [eatName_quoted] at hnext
      obtain ⟨⟨name, rest⟩, hread', hcons⟩ := Option.map_eq_some_iff.mp hnext
      obtain ⟨rfl, -⟩ := Prod.mk.inj hcons
      exact ⟨hschema, ((hsecond rest).mp hread').1⟩
    · -- Three names have two points, of which the text has one to spare.
      obtain rfl := Option.some.inj hname
      have hquote : ∀ s, plain (IDENTIFIER_QUOTE :: s) = plain s := fun s => by simp [plain]
      rw [hquote] at hplain
      simp only [Option.map_some, Option.getD_some] at hplain
      omega
  · rintro ⟨hschema, htable⟩
    rw [htext, eatTableIdentifiers, dropWhile_quote, eatName_quoted, (hfirst z).mpr ⟨hschema, rfl⟩,
      hz]
    simp [eatName_quoted, (hsecond []).mpr ⟨htable, rfl⟩]

theorem eat_quotedText (ccsc : Ccsc) (schema : Option (List Byte)) (table : List Byte) :
    eatTableIdentifiers ccsc (quotedText schema table) = ⟨true, some table, schema⟩ ↔
      (∀ name ∈ schema, Settles ccsc 0 name) ∧ Settles ccsc 0 table := by
  cases schema with
  | none => simp [eat_table]
  | some schema => simp [eat_schema]

/-! ### Writing and reading -/

theorem kept_subset (n : ℕ) (name : List Byte) : kept n name ⊆ name := by
  induction name generalizing n with
  | nil =>
    rw [kept_nil]
    exact List.Subset.refl _
  | cons c name ih =>
    cases n with
    | zero => exact List.nil_subset _
    | succ n =>
      rw [kept]
      exact List.cons_subset_cons c (ih _)

theorem quotedText_ne_zero (hschema : ∀ name ∈ schema, ∀ c ∈ name, c ≠ 0)
    (htable : ∀ c ∈ table, c ≠ 0) : ∀ c ∈ quotedText schema table, c ≠ 0 := by
  have hdoubled : ∀ name : List Byte, (∀ c ∈ name, c ≠ 0) → ∀ c ∈ doubled name, c ≠ 0 := by
    intro name hname c hc
    obtain ⟨d, hd, hcd⟩ := List.mem_flatMap.mp hc
    have heq : c = d := by
      split at hcd <;> simpa using hcd
    exact heq ▸ hname d hd
  have hquote : IDENTIFIER_QUOTE ≠ 0 := by decide
  have hpoint : (0x2e : Byte) ≠ 0 := by decide
  cases schema with
  | none =>
    simp only [quotedText, schemaText, List.nil_append, List.mem_cons, List.mem_append,
      List.not_mem_nil, or_false]
    rintro c (rfl | hc | rfl)
    · exact hquote
    · exact hdoubled table htable c hc
    · exact hquote
  | some schema =>
    simp only [quotedText, schemaText, List.mem_cons, List.mem_append, List.not_mem_nil, or_false]
    rintro c ((rfl | hc | rfl | rfl) | rfl | hc | rfl)
    · exact hquote
    · exact hdoubled schema (hschema schema rfl) c hc
    · exact hquote
    · exact hpoint
    · exact hquote
    · exact hdoubled table htable c hc
    · exact hquote

/-- `quote_table` writes within the buffer, and where the whole text fits the reader finds just these
names in it. -/
def QuotedBack (ccsc : Ccsc) (schema : Option (List Byte)) (table buf : List Byte) : Prop :=
  ∃ buf', quote_table schema (some table) buf buf.length = .ok buf' ∧
    ((quotedText schema table).length + 1 ≤ buf.length →
      eatTableIdentifiers ccsc (CString.text buf' 0) = ⟨true, some table, schema⟩)

/-- The text that `quote_table` leaves in the buffer. -/
theorem text_quote_table (h : leastSize schema ≤ buf.length)
    (hschema : ∀ name ∈ schema, ∀ c ∈ name, c ≠ 0) (htable : ∀ c ∈ table, c ≠ 0) :
    ∃ buf', quote_table schema (some table) buf buf.length = .ok buf' ∧
      CString.text buf' 0 =
        quotedText (keptSchema buf.length schema) (keptTable buf.length schema table) := by
  obtain ⟨z, hwrite⟩ := quote_table_ok h table
  refine ⟨_, hwrite, CString.text_eq (f := []) (z := z) rfl rfl ?_⟩
  refine quotedText_ne_zero (fun name hname c hc => ?_)
    fun c hc => htable c (kept_subset _ table hc)
  obtain ⟨whole, hwhole, rfl⟩ := Option.mem_map.mp hname
  exact hschema whole hwhole c (kept_subset _ whole hc)

/-- A buffer takes the quotes, the point and the terminator, and where the whole text fits, it has
a byte to spare or the names end in a quote, and the walk meets their quotes and their ends between
characters. -/
theorem quotedBack_iff (ccsc : Ccsc) (buf : List Byte)
    (hschema : ∀ name ∈ schema, ∀ c ∈ name, c ≠ 0) (htable : ∀ c ∈ table, c ≠ 0) :
    QuotedBack ccsc schema table buf ↔
      leastSize schema ≤ buf.length ∧
        ((quotedText schema table).length + 1 ≤ buf.length →
          ¬LosesLast schema table buf.length ∧
            (∀ name ∈ schema, Settles ccsc 0 name) ∧ Settles ccsc 0 table) := by
  have hread : ∀ hroom : leastSize schema ≤ buf.length,
      (quotedText schema table).length + 1 ≤ buf.length →
        (eatTableIdentifiers ccsc
            (quotedText (keptSchema buf.length schema) (keptTable buf.length schema table)) =
          ⟨true, some table, schema⟩ ↔
        ¬LosesLast schema table buf.length ∧
          (∀ name ∈ schema, Settles ccsc 0 name) ∧ Settles ccsc 0 table) := by
    intro hroom hfits
    rcases written_or hfits with ⟨hschema, htable, hnot⟩ | ⟨hlt, hlost⟩
    · rw [hschema, htable, eat_quotedText, and_iff_right hnot]
    · -- What is written has too few bytes for the names.
      refine ⟨fun h => ?_, fun h => absurd hlost h.1⟩
      have hle := plain_eatTableIdentifiers h
      rw [plain_quotedText schema table] at hlt
      omega
  constructor
  · rintro ⟨buf', hwrite, hback⟩
    have hroom := quote_table_room hwrite
    obtain ⟨buf'', hwrite', htext⟩ := text_quote_table hroom hschema htable
    obtain rfl : buf' = buf'' := Except.ok.inj (hwrite.symm.trans hwrite')
    refine ⟨hroom, fun hfits => (hread hroom hfits).mp ?_⟩
    rw [← htext]
    exact hback hfits
  · rintro ⟨hroom, hback⟩
    obtain ⟨buf', hwrite, htext⟩ := text_quote_table hroom hschema htable
    refine ⟨buf', hwrite, fun hfits => ?_⟩
    rw [htext]
    exact (hread hroom hfits).mpr (hback hfits)

/-- `s."t` in a buffer with a byte to spare. -/
theorem quotedBack_schema :
    QuotedBack .utf8 (some [0x73]) [0x22, 0x74] (List.replicate 11 0) :=
  (quotedBack_iff .utf8 (List.replicate 11 0) (by simp) (by simp)).mpr
    ⟨by decide, fun _ => ⟨fun h => absurd h.1 (by decide), by simp [Settles]; decide, by decide⟩⟩

/-- `ab` in a buffer of five bytes becomes `"a"`. -/
theorem quotedBack_loses : ¬QuotedBack .utf8 none [0x61, 0x62] (List.replicate 5 0) := by
  rintro ⟨buf', hwrite, hread⟩
  have hbuf : buf' = [0x22, 0x61, 0x22, 0, 0] := by
    have : quote_table none (some [0x61, 0x62]) (List.replicate 5 0) 5 =
        .ok [0x22, 0x61, 0x22, 0, 0] := rfl
    exact Except.ok.inj (hwrite.symm.trans this)
  rw [hbuf] at hread
  exact absurd (hread (by decide)) (by decide)

/-! ### Well-formed names -/

/-- No byte of a longer character is a quote. -/
theorem ne_quote_of_isChar {a b : Byte} {p : List Byte} (h : isChar ccsc (a :: b :: p) = true) :
    ∀ x ∈ a :: b :: p, x ≠ IDENTIFIER_QUOTE := by
  rintro x hx rfl
  exact absurd (bytes_of_isChar h _ hx) (by decide)

theorem settles_append {stat : ℕ} {p : List Byte} (hp : ∀ x ∈ p, x ≠ IDENTIFIER_QUOTE)
    (s : List Byte) : Settles ccsc stat (p ++ s) ↔ Settles ccsc (statAfter ccsc stat p) s := by
  induction p generalizing stat with
  | nil => rfl
  | cons x p ih =>
    rw [List.cons_append, Settles, if_neg (hp x List.mem_cons_self), statAfter_cons]
    exact ih fun y hy => hp y (List.mem_cons_of_mem _ hy)

/-- A well-formed name settles. -/
theorem settles_text {stat : ℕ} {text : List Chr} (h : WellFormed ccsc text)
    (hlead : HighLeads ccsc text) (hstat : stat < 2) : Settles ccsc stat text.flatten := by
  have hascii : ∀ {stat : ℕ}, stat < 2 → nextStat ccsc stat IDENTIFIER_QUOTE = 0 :=
    fun hstat => pg_CS_stat_ascii ccsc hstat (by decide)
  induction text generalizing stat with
  | nil => exact hascii hstat
  | cons c text ih =>
    obtain ⟨hc, htext⟩ := wellFormed_cons.mp h
    have hrest : HighLeads ccsc text := fun hjohab a b hab =>
      hlead hjohab a b (List.mem_cons_of_mem _ hab)
    have hnext := statAfter_boundary (hlead.of_mem List.mem_cons_self) hstat hc
    have hlt := boundaryStat_lt c
    rw [List.flatten_cons]
    match c, hc with
    | [b], hc =>
      by_cases hb : b = IDENTIFIER_QUOTE
      · subst hb
        rw [List.singleton_append, Settles, if_pos rfl]
        exact ⟨hascii hstat, ih htext hrest Nat.two_pos⟩
      · rw [settles_append (by simpa using hb), hnext]
        exact ih htext hrest hlt
    | a :: b :: p, hc =>
      rw [settles_append (ne_quote_of_isChar hc), hnext]
      exact ih htext hrest hlt

/-- Under JOHAB the walk loses track of a character with a low lead byte. -/
example : isChar .johab [0x84, 0xfe] = true ∧ ¬Settles .johab 0 [0x84, 0xfe] := by decide

end OdbcDriver.Identifiers
