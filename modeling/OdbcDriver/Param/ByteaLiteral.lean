import OdbcDriver.Param.SpecialChars
import OdbcDriver.Server.Bytea

/-!
# Literals of binary values

`convert_to_pgbinary` writes a binary value for two readers: the server takes the literal apart
first, and then the value in it. The hexadecimal format comes from `pg_bin2hex`, whose index is an
`int`; `CVT_APPEND_BINARY` makes room beforehand, by the number of bytes alone.
-/

namespace OdbcDriver.Bytea

open Server (escape quote backslash byteain escapeIn hexIn octalEscape)

/-! ### The literal -/

/-- The loop of `pg_bin2hex` from the index `i` on. The value and the statement lie apart. -/
def bin2hexLoop (i : Nat) : List Byte → Except Fault (List Byte)
  | [] => .ok []
  | chr :: src => do
    let digits := [hexDigit (chr / 16), hexDigit (chr % 16)]
    if i + 1 < 2 ^ 31 then return digits ++ (← bin2hexLoop (i + 1) src) else .error .undefined

/-- `pg_bin2hex`. -/
def pg_bin2hex (src : List Byte) : Except Fault (List Byte) := bin2hexLoop 0 src

/-- `esc_double`. -/
def esc_double (conn : ConnectionClass) (mode : ResolveParamMode) : Bool :=
  mode ≠ .buildingBindRequest ∧ conn.escape_in_literal ≠ 0

/-- `convert_to_pgbinary`. -/
def convert_to_pgbinary (conn : ConnectionClass) (flags : Flags) (mode : ResolveParamMode)
    (data : List Byte) : Except Fault (List Byte) := do
  if flags.hexBinFormat then
    return (if esc_double conn mode then [conn.escape_in_literal] else []) ++ [BACKSLASH, 0x78] ++
      (← pg_bin2hex data)
  else return OdbcDriver.convert_to_pgbinary conn flags mode data

/-- What `CVT_APPEND_BINARY` adds to `newlimit`. -/
def newlimit (flags : Flags) (used : Nat) : Nat :=
  if flags.hexBinFormat then 2 * used + 4 else 5 * used

/-- The flags of a statement, with the format of binary values. -/
def flagsOf (conn : ConnectionClass) (hexBinFormat : Bool) : Flags :=
  { initFlags conn false with hexBinFormat }

/-- What `ResolveOneParam` appends around the body. -/
def literal (flags : Flags) (body : List Byte) : List Byte :=
  (if flags.literalExtension then [LITERAL_EXT] else []) ++ LITERAL_QUOTE :: (body ++ [LITERAL_QUOTE])

/-- The literal of a value fits in the room made for it, and the server reads the value back. -/
def ReadsBackValue (s : Server.Settings) (conn : ConnectionClass) (hexBinFormat : Bool)
    (mode : ResolveParamMode) (b : List Byte) : Prop :=
  let flags := flagsOf conn hexBinFormat
  ∃ body text, convert_to_pgbinary conn flags mode b = .ok body ∧
    body.length ≤ newlimit flags b.length ∧
    ReadsBack s conn.ccsc (literal flags body) (text.map fun c => [c]) ∧ byteain text = some b

/-! ### Hexadecimal digits -/

theorem bin2hexLoop_eq (i : Nat) (src : List Byte) (hi : i < 2 ^ 31) :
    bin2hexLoop i src = if i + src.length < 2 ^ 31 then .ok (OdbcDriver.pg_bin2hex src)
      else .error .undefined := by
  induction src generalizing i with
  | nil =>
    rw [List.length_nil, Nat.add_zero, if_pos hi]
    rfl
  | cons chr src ih =>
    rw [bin2hexLoop, List.length_cons]
    by_cases hnext : i + 1 < 2 ^ 31
    · rw [if_pos hnext, ih (i + 1) hnext, Nat.add_assoc, Nat.add_comm 1]
      split <;> rfl
    · rw [if_neg hnext, if_neg (by omega)]

theorem pg_bin2hex_eq (src : List Byte) :
    pg_bin2hex src = if src.length < 2 ^ 31 then .ok (OdbcDriver.pg_bin2hex src)
      else .error .undefined := by
  rw [pg_bin2hex, bin2hexLoop_eq 0 src (by decide), Nat.zero_add]

theorem length_bin2hex (src : List Byte) : (OdbcDriver.pg_bin2hex src).length = 2 * src.length := by
  induction src with
  | nil => rfl
  | cons chr src ih =>
    rw [List.length_cons, Nat.mul_add, ← ih]
    rfl

/-! ### The text between the quotes -/

/-- The text of a binary value, before a literal is made of it. -/
def byteaText (hexBinFormat : Bool) (b : List Byte) : List Byte :=
  if hexBinFormat then [BACKSLASH, 0x78] ++ OdbcDriver.pg_bin2hex b
  else b.flatMap fun x => if x < 128 ∧ (isAlnum x ∨ x = 0x20) then [x] else octalEscape x

theorem plain_byte : ∀ x : Byte, x < 128 ∧ (isAlnum x ∨ x = 0x20) →
    x ≠ 0x27 ∧ x ≠ 0x5c ∧ x ≠ 0 ∧ x.toNat < 0x80 :=
  Server.byte_all (by decide +kernel)

theorem octal_bytes : ∀ x : Byte, ∀ c ∈ (octalEscape x).tail,
    c ≠ 0x27 ∧ c ≠ 0x5c ∧ c ≠ 0x78 ∧ c ≠ 0 ∧ c.toNat < 0x80 := by
  have hdigit : ∀ v, Server.octalDigit v ≠ 0x27 ∧ Server.octalDigit v ≠ 0x5c ∧
      Server.octalDigit v ≠ 0x78 ∧ Server.octalDigit v ≠ 0 ∧ (Server.octalDigit v).toNat < 0x80 :=
    Server.octalDigit_all (p := fun c => c ≠ 0x27 ∧ c ≠ 0x5c ∧ c ≠ 0x78 ∧ c ≠ 0 ∧ c.toNat < 0x80)
      (by decide)
  intro x c hc
  simp only [octalEscape, List.tail_cons, List.mem_cons, List.not_mem_nil, or_false] at hc
  rcases hc with rfl | rfl | rfl
  · exact hdigit _
  · exact hdigit _
  · exact hdigit _

theorem hex_bytes : ∀ x : Byte, ∀ c ∈ [hexDigit (x / 16), hexDigit (x % 16)],
    c ≠ 0x27 ∧ c ≠ 0x5c ∧ c ≠ 0 ∧ c.toNat < 0x80 := by
  intro x
  have hdigits := Server.nibble_all (P := fun v => hexDigit v ≠ 0x27 ∧ hexDigit v ≠ 0x5c ∧
    hexDigit v ≠ 0 ∧ (hexDigit v).toNat < 0x80) (by decide) x
  simpa using hdigits

theorem escapeIn_byteaText (b : List Byte) : escapeIn (byteaText false b) = some b := by
  induction b with
  | nil => rfl
  | cons x b ih =>
    change escapeIn ((if x < 128 ∧ (isAlnum x ∨ x = 0x20) then [x] else octalEscape x) ++
      byteaText false b) = _
    split
    · next hx =>
      rw [List.singleton_append, Server.escapeIn_plain (plain_byte x hx).2.1, ih]
      rfl
    · rw [Server.escapeIn_octal, ih]
      rfl

/-- The server reads the text as the value. -/
theorem byteain_byteaText (hexBinFormat : Bool) (b : List Byte) :
    byteain (byteaText hexBinFormat b) = some b := by
  cases hexBinFormat with
  | true => exact Server.hexIn_digits_upper b
  | false =>
    -- the text begins with no `\x`
    have hhead : (byteaText false b).take 2 ≠ [0x5c, 0x78] := by
      cases b with
      | nil => decide
      | cons x b =>
        change ((if x < 128 ∧ (isAlnum x ∨ x = 0x20) then [x] else octalEscape x) ++
          byteaText false b).take 2 ≠ _
        split
        · next hx => exact fun h => (plain_byte x hx).2.1 (List.cons.inj h).1
        · intro h
          have hdigit := (List.cons.inj (List.cons.inj h).2).1
          exact (octal_bytes x _ (by simp [octalEscape])).2.2.1 hdigit
    rw [byteain, if_neg hhead, escapeIn_byteaText]

/-! ### The body -/

/-- A text of bytes as it is written in a literal. -/
def escapeBytes (escapes : Bool) (text : List Byte) : List Byte :=
  (escape escapes (text.map fun c => [c])).flatten

theorem escapeBytes_cons (escapes : Bool) (c : Byte) (text : List Byte) :
    escapeBytes escapes (c :: text) =
      (if c = 0x27 ∨ (escapes ∧ c = 0x5c) then [c, c] else [c]) ++ escapeBytes escapes text := by
  have hquote : ([c] : Chr) = quote ↔ c = 0x27 := List.singleton_inj
  have hback : ([c] : Chr) = backslash ↔ c = 0x5c := List.singleton_inj
  rw [escapeBytes, List.map_cons, Server.escape_cons, List.flatten_append]
  simp only [hquote, hback]
  split <;> rfl

theorem escapeBytes_append (escapes : Bool) {text : List Byte}
    (h : ∀ c ∈ text, c ≠ 0x27 ∧ c ≠ 0x5c) (after : List Byte) :
    escapeBytes escapes (text ++ after) = text ++ escapeBytes escapes after := by
  induction text with
  | nil => rfl
  | cons c text ih =>
    rw [List.forall_mem_cons] at h
    rw [List.cons_append, escapeBytes_cons, if_neg (by simp [h.1]), ih h.2]
    rfl

variable {conn : ConnectionClass} {mode : ResolveParamMode}

theorem escapeBytes_plain (escapes : Bool) {text : List Byte}
    (h : ∀ c ∈ text, c ≠ 0x27 ∧ c ≠ 0x5c) : escapeBytes escapes text = text := by
  have happ := escapeBytes_append escapes h []
  rwa [List.append_nil, show escapeBytes escapes [] = [] from rfl, List.append_nil] at happ

/-- A backslash is written behind the escape character. -/
theorem escapeBytes_backslash
    (hesc : conn.escape_in_literal = 0 ∨ conn.escape_in_literal = BACKSLASH) (text : List Byte) :
    escapeBytes (conn.escape_in_literal ≠ 0) (0x5c :: text) =
      (if conn.escape_in_literal ≠ 0 then [conn.escape_in_literal] else []) ++
        0x5c :: escapeBytes (conn.escape_in_literal ≠ 0) text := by
  rw [escapeBytes_cons]
  rcases hesc with h | h <;> simp [h, BACKSLASH]

/-- The body is the text of the value, escaped. -/
theorem convert_to_pgbinary_eq (hmode : mode ≠ .buildingBindRequest)
    (hesc : conn.escape_in_literal = 0 ∨ conn.escape_in_literal = BACKSLASH)
    (hexBinFormat : Bool) (b : List Byte) :
    OdbcDriver.convert_to_pgbinary conn (flagsOf conn hexBinFormat) mode b =
      escapeBytes (conn.escape_in_literal ≠ 0) (byteaText hexBinFormat b) := by
  have hdouble : (mode ≠ .buildingBindRequest ∧ conn.escape_in_literal ≠ 0) ↔
      conn.escape_in_literal ≠ 0 := and_iff_right hmode
  cases hexBinFormat with
  | true =>
    have hdigits : ∀ c ∈ 0x78 :: OdbcDriver.pg_bin2hex b, c ≠ 0x27 ∧ c ≠ 0x5c := by
      intro c hc
      rcases List.mem_cons.mp hc with rfl | hc
      · decide
      · obtain ⟨x, -, hcx⟩ := List.mem_flatMap.mp hc
        exact ⟨(hex_bytes x c hcx).1, (hex_bytes x c hcx).2.1⟩
    change _ = escapeBytes _ (0x5c :: 0x78 :: OdbcDriver.pg_bin2hex b)
    rw [escapeBytes_backslash hesc, escapeBytes_plain _ hdigits]
    simp [OdbcDriver.convert_to_pgbinary, flagsOf, hmode, BACKSLASH]
  | false =>
    simp only [OdbcDriver.convert_to_pgbinary, flagsOf, Bool.false_eq_true, if_false, hdouble]
    induction b with
    | nil => rfl
    | cons x b ih =>
      change _ = escapeBytes _ ((if x < 128 ∧ (isAlnum x ∨ x = 0x20) then [x]
        else octalEscape x) ++ byteaText false b)
      rw [List.flatMap_cons, ih]
      split
      · next hx =>
        have hplain : ∀ c ∈ [x], c ≠ 0x27 ∧ c ≠ 0x5c := by
          simpa using ⟨(plain_byte x hx).1, (plain_byte x hx).2.1⟩
        rw [escapeBytes_append _ hplain]
      · have hplain : ∀ c ∈ (octalEscape x).tail, c ≠ 0x27 ∧ c ≠ 0x5c := fun c hc =>
          ⟨(octal_bytes x c hc).1, (octal_bytes x c hc).2.1⟩
        have hsame : conv_to_octal2 x = 0x5c :: (octalEscape x).tail := by
          simp only [conv_to_octal2, octalEscape, Server.octalDigit, List.tail_cons,
            UInt8.add_comm 0x30, BACKSLASH]
        rw [show octalEscape x = 0x5c :: (octalEscape x).tail from rfl, List.cons_append,
          escapeBytes_backslash hesc, escapeBytes_append _ hplain, hsame]
        simp

/-- The room made for the body suffices. -/
theorem length_convert_to_pgbinary_le (conn : ConnectionClass) (flags : Flags)
    (mode : ResolveParamMode) (b : List Byte) :
    (OdbcDriver.convert_to_pgbinary conn flags mode b).length ≤ newlimit flags b.length := by
  have hprefix : ∀ p : Prop, [Decidable p] →
      (if p then [conn.escape_in_literal] else []).length ≤ 1 := by
    intro p _
    split <;> simp
  rw [newlimit, OdbcDriver.convert_to_pgbinary]
  split
  · have h := hprefix (mode ≠ .buildingBindRequest ∧ conn.escape_in_literal ≠ 0)
    simp only [List.length_append, List.length_cons, List.length_nil, length_bin2hex] at h ⊢
    omega
  · induction b with
    | nil => exact le_rfl
    | cons x b ih =>
      rw [List.flatMap_cons, List.length_append, List.length_cons]
      have h := hprefix (mode ≠ .buildingBindRequest ∧ conn.escape_in_literal ≠ 0)
      have hpiece : (if x < 128 ∧ (isAlnum x ∨ x = 0x20) then [x] else
          (if mode ≠ .buildingBindRequest ∧ conn.escape_in_literal ≠ 0 then
            [conn.escape_in_literal] else []) ++ conv_to_octal2 x).length ≤ 5 := by
        split
        · simp
        · rw [List.length_append]
          exact Nat.add_le_add_right h 4
      omega

/-- The text is ASCII. -/
theorem wellFormed_byteaText (ccsc : Ccsc) (hexBinFormat : Bool) (b : List Byte) :
    WellFormed ccsc ((byteaText hexBinFormat b).map fun c => [c]) := by
  have hascii : ∀ c ∈ byteaText hexBinFormat b, c ≠ 0 ∧ c.toNat < 0x80 := by
    cases hexBinFormat with
    | true =>
      intro c hc
      rcases List.mem_append.mp hc with hc | hc
      · rcases List.mem_pair.mp hc with rfl | rfl <;> decide
      · obtain ⟨x, -, hcx⟩ := List.mem_flatMap.mp hc
        exact (hex_bytes x c hcx).2.2
    | false =>
      intro c hc
      obtain ⟨x, -, hcx⟩ := List.mem_flatMap.mp hc
      split at hcx
      · next hx =>
        obtain rfl := List.mem_singleton.mp hcx
        exact (plain_byte c hx).2.2
      · rcases List.mem_cons.mp hcx with rfl | hcx
        · decide
        · exact (octal_bytes x c hcx).2.2.2
  intro d hd
  obtain ⟨c, hc, rfl⟩ := List.mem_map.mp hd
  exact isChar_ascii ccsc (hascii c hc).1 (hascii c hc).2

/-- The body is what is written where `pg_bin2hex` counts to the end. -/
theorem convert_to_pgbinary_ok {hexBinFormat : Bool} {b : List Byte}
    (h : hexBinFormat = true → b.length < 2 ^ 31) :
    convert_to_pgbinary conn (flagsOf conn hexBinFormat) mode b =
      .ok (OdbcDriver.convert_to_pgbinary conn (flagsOf conn hexBinFormat) mode b) := by
  cases hexBinFormat with
  | true =>
    have hdigits : pg_bin2hex b = .ok (OdbcDriver.pg_bin2hex b) := by
      rw [pg_bin2hex_eq, if_pos (h rfl)]
    simp only [convert_to_pgbinary, OdbcDriver.convert_to_pgbinary, flagsOf, if_true, hdigits,
      esc_double, decide_eq_true_eq]
    rfl
  | false => rfl

theorem convert_to_pgbinary_long {b : List Byte} (h : 2 ^ 31 ≤ b.length) :
    convert_to_pgbinary conn (flagsOf conn true) mode b = .error .undefined := by
  simp only [convert_to_pgbinary, flagsOf, if_true, pg_bin2hex_eq, if_neg (Nat.not_lt.mpr h)]
  rfl

/-- **Binary literals.** Every binary value comes back, unless hexadecimal digits are to be written
for more bytes than an `int` counts. -/
theorem readsBackValue_iff {s : Server.Settings} (hmode : mode ≠ .buildingBindRequest)
    (hsync : conn.escape_in_literal = if s.standard_conforming_strings then 0 else BACKSLASH)
    (hexBinFormat : Bool) (b : List Byte) :
    ReadsBackValue s conn hexBinFormat mode b ↔ (hexBinFormat = true → b.length < 2 ^ 31) := by
  have hesc : conn.escape_in_literal = 0 ∨ conn.escape_in_literal = BACKSLASH := by
    rw [hsync]
    split <;> simp
  constructor
  · rintro ⟨body, -, hbody, -⟩ rfl
    by_contra hlong
    rw [convert_to_pgbinary_long (Nat.le_of_not_lt hlong)] at hbody
    cases hbody
  · intro h
    refine ⟨_, byteaText hexBinFormat b, convert_to_pgbinary_ok h,
      length_convert_to_pgbinary_le _ _ _ _, ?_, byteain_byteaText hexBinFormat b⟩
    have hread := readsBack_escape hsync (wellFormed_byteaText conn.ccsc hexBinFormat b)
    rw [convert_to_pgbinary_eq hmode hesc]
    convert hread using 1
    by_cases hext : (initFlags conn false).literalExtension = true <;>
      simp [literal, extension, flagsOf, escapeBytes, hext, quote, LITERAL_QUOTE]

/-- `\` and a NUL, where the server takes backslashes in literals for escapes. -/
theorem backslash_read_back : ReadsBackValue ⟨false, fun _ => none⟩
    { sampleConn with escape_in_literal := BACKSLASH } true .replaceParams [0x5c, 0x00] :=
  (readsBackValue_iff (by decide) rfl true [0x5c, 0x00]).mpr fun _ => by decide

/-- Two gigabytes are too many. -/
theorem two_gigabytes_not_back : ¬ ReadsBackValue ⟨true, fun _ => none⟩ sampleConn true
    .replaceParams (List.replicate (2 ^ 31) 0) := by
  rintro ⟨body, -, hbody, -⟩
  rw [convert_to_pgbinary_long (by rw [List.length_replicate])] at hbody
  cases hbody

end OdbcDriver.Bytea
