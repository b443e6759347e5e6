import OdbcDriver.Encoding.Characters
import OdbcDriver.Param.Resolve
import OdbcDriver.Server.StringLiteral

/-!
# Literals read back

The literal that `ResolveOneParam` writes for a text, read by the server. The body that
`convert_special_chars` writes is the text with its quotes and backslashes doubled, as long as
the driver sees which bytes are quotes and backslashes: under every encoding but JOHAB it
does. A carriage return at the very end of a value is dropped when a line feed happens to
follow the value in memory.
-/

namespace OdbcDriver

open Server (escape quote backslash readBody readLiteral)

/-! ### The body, character by character -/

def carriageReturn : Chr := [PG_CARRIAGE_RETURN]
def lineFeed : Chr := [PG_LINEFEED]

/-- Whether a line feed comes next: the first character of the text, or what follows an empty
one (`lfNext`). -/
def lineFeedNext (lfNext : Bool) : List Chr → Bool
  | [] => lfNext
  | c :: _ => c = lineFeed

/-- A text without the carriage returns that a line feed follows; `lfNext` says whether one
follows the text. -/
def dropCr (lfNext : Bool) : List Chr → List Chr
  | [] => []
  | c :: text =>
    if c = carriageReturn ∧ lineFeedNext lfNext text then dropCr lfNext text
    else c :: dropCr lfNext text

/-- The value of a literal for a text: `CR LF` is one `LF` when line feeds are converted. -/
def literalValue (convlf lfNext : Bool) (text : List Chr) : List Chr :=
  if convlf then dropCr lfNext text else text

theorem literalValue_cons (convlf lfNext : Bool) (c : Chr) (text : List Chr) :
    literalValue convlf lfNext (c :: text) =
      if convlf ∧ c = carriageReturn ∧ lineFeedNext lfNext text then
        literalValue convlf lfNext text
      else c :: literalValue convlf lfNext text := by
  cases convlf <;> simp [literalValue, dropCr]

/-- The bytes that `convert_special_chars` treats specially. -/
def isSpecial (convlf : Bool) (escape_in_literal : Byte) (b : Byte) : Bool :=
  b = LITERAL_QUOTE || (escape_in_literal ≠ 0 && b = escape_in_literal) ||
    (convlf && b = PG_CARRIAGE_RETURN)

section Body

variable {ccsc : Ccsc} {convlf : Bool} {esc : Byte}

/-- Bytes taken for parts of a multibyte character, and bytes that are not special, are copied. -/
theorem specialChars_passes {c : List Byte} :
    ∀ {stat : Nat}, Passes ccsc (isSpecial convlf esc) stat c → (∀ b ∈ c, b ≠ 0) →
      ∀ (max : Nat) (s : List Byte),
        specialChars ccsc convlf true esc stat (c.length + max) (c ++ s) =
          c ++ specialChars ccsc convlf true esc (statAfter ccsc stat c) max s := by
  induction c with
  | nil => intro stat _ _ max s; simp
  | cons b c ih =>
    intro stat hpass hnul max s
    obtain ⟨hb, hpass⟩ := hpass
    obtain ⟨hb0, hnul⟩ := List.forall_mem_cons.mp hnul
    have hlen : (b :: c).length + max = (c.length + max) + 1 := by simp; omega
    rw [hlen, List.cons_append, specialChars, if_neg hb0]
    simp only [ih hpass hnul, statAfter_cons]
    split
    · rfl
    · rename_i hascii
      have hnot : isSpecial convlf esc b = false := by
        by_contra hspecial
        exact hascii (hb (by simpa using hspecial))
      simp [isSpecial] at hnot
      rw [if_neg (by tauto), if_neg]
      · rfl
      · rintro ⟨-, h | h⟩
        · exact hnot.1.1 h
        · exact hnot.1.2 (by rw [← h]; exact hb0) h

/-- The byte behind a character is a line feed exactly when the next character is one. -/
theorem next_lineFeed {text : List Chr} (htext : WellFormed ccsc text) (after : List Byte) :
    (text.flatten ++ after).headD 0 = PG_LINEFEED ↔
      lineFeedNext (after.headD 0 = PG_LINEFEED) text = true := by
  cases text with
  | nil => simp [lineFeedNext]
  | cons d text =>
    have hd := (wellFormed_cons.mp htext).1
    match d, hd with
    | [b], _ => simp [lineFeedNext, lineFeed]
    | b :: b' :: d, hd =>
      have hhigh := head_of_isChar hd
      have hne : b ≠ PG_LINEFEED := by
        rintro rfl
        simp [PG_LINEFEED] at hhigh
      simp [lineFeedNext, hne, lineFeed]

/-- A character of two bytes or more is none of the special ones. -/
theorem long_ne_special {a b : Byte} {c : Chr} :
    a :: b :: c ≠ quote ∧ a :: b :: c ≠ backslash ∧ a :: b :: c ≠ carriageReturn := by
  simp [quote, backslash, carriageReturn]

/-- **The body of a literal.** While the driver sees the special bytes as what they are,
`convert_special_chars` writes the text escaped. -/
theorem specialChars_text (hesc : esc = 0 ∨ esc = BACKSLASH) {after : List Byte} {beyond : Nat}
    (hend : beyond = 0 ∨ after.head? = some 0) {text : List Chr} :
    ∀ {stat : Nat}, WellFormed ccsc text → InStep ccsc (isSpecial convlf esc) stat text →
      specialChars ccsc convlf true esc stat (text.flatten.length + beyond)
          (text.flatten ++ after) =
        (escape (esc ≠ 0)
          (literalValue convlf (after.headD 0 = PG_LINEFEED) text)).flatten := by
  induction text with
  | nil =>
    intro stat _ _
    rw [List.flatten_nil, List.nil_append, List.length_nil, Nat.zero_add]
    match beyond, after, hend with
    | 0, _, _ => simp [literalValue, dropCr, specialChars]
    | _ + 1, b :: _, hend =>
      obtain rfl : b = 0 := by simpa using hend
      simp [literalValue, dropCr, specialChars]
  | cons c text ih =>
    intro stat hwf hstep
    obtain ⟨hc, htext⟩ := wellFormed_cons.mp hwf
    obtain ⟨hstep, hrest⟩ := hstep
    have ih := ih htext hrest
    have hnext := next_lineFeed htext after
    rw [List.flatten_cons, List.length_append, List.append_assoc, Nat.add_assoc]
    rw [literalValue_cons]
    match c, hc with
    | [b], hc =>
      have hb0 : b ≠ 0 := by simpa using ne_zero_of_isChar hc
      have hdouble : ([b] = quote ∨ (decide (esc ≠ 0) = true ∧ [b] = backslash)) ↔
          (b = LITERAL_QUOTE ∨ b = esc) := by
        rcases hesc with rfl | rfl
        · simp [quote, LITERAL_QUOTE, hb0]
        · simp [quote, backslash, LITERAL_QUOTE, BACKSLASH]
      have hdrop : (convlf = true ∧ [b] = carriageReturn ∧
          lineFeedNext (after.headD 0 = PG_LINEFEED) text = true) ↔
          (convlf = true ∧ b = PG_CARRIAGE_RETURN ∧
            (text.flatten ++ after).headD 0 = PG_LINEFEED) := by
        rw [hnext]
        simp [carriageReturn]
      have hstat : nextStat ccsc stat b = statAfter ccsc stat [b] := rfl
      rw [List.length_singleton, Nat.add_comm 1, List.singleton_append, specialChars, if_neg hb0]
      simp only [hstat, ih, true_and]
      by_cases hpass : nonAscii (statAfter ccsc stat [b]) b = true
      · -- taken for part of a multibyte character, so it is not special
        have hnot : ¬ isSpecial convlf esc b = true := by
          intro hspecial
          rw [← hstat, hstep hspecial] at hpass
          cases hpass
        simp only [isSpecial, Bool.or_eq_true, Bool.and_eq_true, decide_eq_true_eq] at hnot
        have hplain : ¬ (b = LITERAL_QUOTE ∨ b = esc) := by grind
        rw [if_pos hpass, if_neg (mt hdrop.mp (by tauto)), Server.escape_cons,
          if_neg (mt hdouble.mp hplain)]
        rfl
      · rw [if_neg hpass]
        by_cases hcr : convlf = true ∧ b = PG_CARRIAGE_RETURN ∧
            (text.flatten ++ after).headD 0 = PG_LINEFEED
        · rw [if_pos hcr, if_pos (hdrop.mpr hcr)]
        · rw [if_neg hcr, if_neg (mt hdrop.mp hcr), Server.escape_cons]
          by_cases hspecial : b = LITERAL_QUOTE ∨ b = esc
          · rw [if_pos hspecial, if_pos (hdouble.mpr hspecial)]
            rfl
          · rw [if_neg hspecial, if_neg (mt hdouble.mp hspecial)]
            rfl
    | a :: b :: c, hc =>
      obtain ⟨hq, hb, hr⟩ := @long_ne_special a b c
      rw [specialChars_passes hstep (ne_zero_of_isChar hc), ih, if_neg (by simp [hr]),
        Server.escape_cons, if_neg (by simp [hq, hb])]
      simp

end Body

/-! ### The value of a literal -/

theorem literalValue_subset (convlf lfNext : Bool) (text : List Chr) :
    ∀ c ∈ literalValue convlf lfNext text, c ∈ text := by
  induction text with
  | nil => simp [literalValue, dropCr]
  | cons c text ih =>
    rw [literalValue_cons]
    intro d hd
    split at hd
    · exact List.mem_cons_of_mem _ (ih d hd)
    · rcases List.mem_cons.mp hd with rfl | hd
      · exact List.mem_cons_self
      · exact List.mem_cons_of_mem _ (ih d hd)

/-- What follows a text matters to its literal only if the text ends with a carriage return. -/
theorem literalValue_eq_iff (convlf lfNext : Bool) (text : List Chr) :
    literalValue convlf lfNext text = literalValue convlf false text ↔
      ¬ (convlf = true ∧ lfNext = true ∧ text.getLast? = some carriageReturn) := by
  induction text with
  | nil => simp [literalValue, dropCr]
  | cons c text ih =>
    rw [literalValue_cons, literalValue_cons]
    cases text with
    | nil =>
      by_cases h : convlf = true ∧ c = carriageReturn ∧ lfNext = true
      · simp [h, literalValue, dropCr, lineFeedNext]
      · rw [if_neg (by simpa [lineFeedNext] using h), if_neg (by simp [lineFeedNext])]
        simp [literalValue, dropCr]
        tauto
    | cons d text =>
      rw [List.getLast?_cons_cons, ← ih]
      by_cases h : convlf = true ∧ c = carriageReturn ∧ d = lineFeed
      · rw [if_pos (by simpa [lineFeedNext] using h), if_pos (by simpa [lineFeedNext] using h)]
      · rw [if_neg (by simpa [lineFeedNext] using h), if_neg (by simpa [lineFeedNext] using h),
          List.cons_inj_right]

/-! ### The literal -/

section Literal

variable {conn : ConnectionClass} {s : Server.Settings}

/-- The server reads `literal`, whatever well-formed text follows it (but a quote, which would
make it another literal), as a literal of the given value, and nothing of what follows. -/
def ReadsBack (s : Server.Settings) (ccsc : Ccsc) (literal : List Byte) (value : List Chr) :
    Prop :=
  ∀ rest : List Chr, WellFormed ccsc rest → rest.head? ≠ some quote →
    (decode ccsc (literal ++ rest.flatten)).bind (readLiteral s) = some (value, rest)

/-- A literal is read back as one value. -/
theorem ReadsBack.unique {ccsc : Ccsc} {literal : List Byte} {value value' : List Chr}
    (h : ReadsBack s ccsc literal value) (h' : ReadsBack s ccsc literal value') :
    value = value' := by
  have hread := h [] (by simp [WellFormed]) (by simp)
  rw [h' [] (by simp [WellFormed]) (by simp)] at hread
  simpa using hread.symm

/-- How the end of a text in memory is known: its length is given, or, where it is not, a NUL
follows the text. -/
def Delimits (used : Int) (text : List Chr) (after : List Byte) : Prop :=
  used = text.flatten.length ∨ (used < 0 ∧ after.head? = some 0)

/-- The literal `ResolveOneParam` writes for a text in memory that goes on with `after`. -/
def literalOf (conn : ConnectionClass) (mode : ResolveParamMode) (text : List Chr)
    (after : List Byte) (used : Int) : List Byte :=
  quotedLiteral conn (initFlags conn false) mode (text.flatten ++ after) used

/-- The value of the `E` prefix, as characters. -/
def extension (conn : ConnectionClass) : List Chr :=
  if (initFlags conn false).literalExtension then [[LITERAL_EXT]] else []

/-- The driver sees the special bytes of the text. -/
abbrev Seen (conn : ConnectionClass) (text : List Chr) : Prop :=
  InStep conn.ccsc (isSpecial conn.lf_conversion conn.escape_in_literal) 0 text

/-- The characters of the literal while the driver sees the special bytes. -/
theorem literalOf_eq {mode : ResolveParamMode} (hmode : mode ≠ .buildingBindRequest)
    (hesc : conn.escape_in_literal = 0 ∨ conn.escape_in_literal = BACKSLASH) {text : List Chr}
    {after : List Byte} {used : Int} (hwf : WellFormed conn.ccsc text) (hseen : Seen conn text)
    (hused : Delimits used text after) :
    literalOf conn mode text after used =
      (extension conn ++ quote :: (escape (conn.escape_in_literal ≠ 0)
        (literalValue conn.lf_conversion (after.headD 0 = PG_LINEFEED) text) ++
          [quote])).flatten := by
  obtain ⟨beyond, hend, hlen⟩ : ∃ beyond, (beyond = 0 ∨ after.head? = some 0) ∧
      (if 0 ≤ used then used.toNat else (text.flatten ++ after).length) =
        text.flatten.length + beyond := by
    rcases hused with rfl | ⟨hneg, hnul⟩
    · exact ⟨0, .inl rfl, by rw [if_pos (Int.natCast_nonneg _), Int.toNat_natCast, Nat.add_zero]⟩
    · exact ⟨after.length, .inr hnul, by rw [if_neg (by omega), List.length_append]⟩
  have hbody := specialChars_text hesc hend hwf hseen
  have hdouble : decide (mode ≠ .buildingBindRequest) = true := by simpa using hmode
  simp only [literalOf, quotedLiteral, convert_special_chars, hdouble, hlen, extension]
  rw [show (initFlags conn false).convertLf = conn.lf_conversion from rfl, hbody]
  split <;> simp [quote, LITERAL_QUOTE]

theorem isChar_quote (ccsc : Ccsc) : isChar ccsc quote = true :=
  isChar_ascii ccsc (by decide) (by decide)

theorem wellFormed_extension (conn : ConnectionClass) :
    WellFormed conn.ccsc (extension conn) := by
  intro c hc
  unfold extension at hc
  split at hc
  · obtain rfl := List.mem_singleton.mp hc
    exact isChar_ascii conn.ccsc (by decide) (by decide)
  · cases hc

theorem wellFormed_escape {ccsc : Ccsc} {escapes : Bool} {value : List Chr}
    (h : WellFormed ccsc value) : WellFormed ccsc (escape escapes value) := by
  intro c hc
  obtain ⟨d, hd, hc⟩ := List.mem_flatMap.mp hc
  have hcd : c = d := by
    split at hc <;> simpa using hc
  exact hcd ▸ h d hd

/-- A value that is escaped as the server's settings ask for reads back as that value. -/
theorem readsBack_escape
    (hsync : conn.escape_in_literal = if s.standard_conforming_strings then 0 else BACKSLASH)
    {value : List Chr} (hvalue : WellFormed conn.ccsc value) :
    ReadsBack s conn.ccsc
      (extension conn ++ quote :: (escape (conn.escape_in_literal ≠ 0) value ++ [quote])).flatten
      value := by
  intro rest hrest hnext
  rw [← List.flatten_append]
  have hall : WellFormed conn.ccsc
      (extension conn ++ quote :: (escape (conn.escape_in_literal ≠ 0) value ++ [quote]) ++
        rest) := by
    intro c hc
    simp only [List.append_assoc, List.mem_append, List.mem_cons, List.not_mem_nil,
      or_false] at hc
    rcases hc with hc | (rfl | hc | rfl) | hc
    · exact wellFormed_extension conn c hc
    · exact isChar_quote _
    · exact wellFormed_escape hvalue c hc
    · exact isChar_quote _
    · exact hrest c hc
  rw [decode_flatten hall, Option.bind_some]
  have hread := fun escapes : Bool => Server.readBody_escape s escapes hnext
    (le_refl (escape escapes value ++ quote :: rest).length)
  cases hstd : s.standard_conforming_strings with
  | true =>
    have h0 : conn.escape_in_literal = 0 := by rw [hsync, hstd]; rfl
    simpa [readLiteral, extension, initFlags, h0, hstd] using hread false
  | false =>
    -- a server before 8.1 takes no `E`, and needs none
    have h0 : conn.escape_in_literal ≠ 0 := by rw [hsync, hstd]; decide
    by_cases hext : (initFlags conn false).literalExtension = true
    · simpa [readLiteral, extension, hext, h0, LITERAL_EXT, quote] using hread true
    · simpa [readLiteral, extension, hext, h0, hstd] using hread true

/-- **Round trip.** While the driver sees the special bytes, the server reads the literal back
as the text, less the carriage returns dropped. -/
theorem readsBack_literalOf {mode : ResolveParamMode} (hmode : mode ≠ .buildingBindRequest)
    (hsync : conn.escape_in_literal = if s.standard_conforming_strings then 0 else BACKSLASH)
    {text : List Chr} {after : List Byte} {used : Int} (hwf : WellFormed conn.ccsc text)
    (hseen : Seen conn text) (hused : Delimits used text after) :
    ReadsBack s conn.ccsc (literalOf conn mode text after used)
      (literalValue conn.lf_conversion (after.headD 0 = PG_LINEFEED) text) := by
  have hesc : conn.escape_in_literal = 0 ∨ conn.escape_in_literal = BACKSLASH := by
    rw [hsync]; split <;> simp
  rw [literalOf_eq hmode hesc hwf hseen hused]
  exact readsBack_escape hsync fun c hc => hwf c (literalValue_subset _ _ _ c hc)

/-- A carriage return alone is seen in every encoding. -/
theorem seen_carriageReturn (conn : ConnectionClass) : Seen conn [carriageReturn] := by
  refine ⟨fun _ => ?_, trivial⟩
  have h := pg_CS_stat_ascii conn.ccsc Nat.zero_lt_two (show 0x0d < 0x80 by decide)
  simp [nonAscii, nextStat, PG_CARRIAGE_RETURN, h]

/-- Under every encoding but JOHAB the driver sees the special bytes of every text. -/
theorem seen_of_ne_johab (hjohab : conn.ccsc ≠ .johab)
    (hesc : conn.escape_in_literal = 0 ∨ conn.escape_in_literal = BACKSLASH) {text : List Chr}
    (hwf : WellFormed conn.ccsc text) : Seen conn text := by
  refine inStep_of_ne_johab hjohab (fun b hb => ?_) Nat.zero_lt_two hwf
  simp only [isSpecial, Bool.or_eq_true, Bool.and_eq_true, decide_eq_true_eq] at hb
  rcases hb with (rfl | ⟨hne, rfl⟩) | ⟨-, rfl⟩
  · decide
  · rcases hesc with h | h
    · exact absurd h hne
    · rw [h]; decide
  · decide

/-- Under JOHAB the quote of `88 A1 27` is taken for the trail byte of a character that begins
with `A1`, and is not doubled. -/
theorem literalOf_johab {mode : ResolveParamMode} (hmode : mode ≠ .buildingBindRequest)
    (hjohab : conn.ccsc = .johab)
    (hesc : conn.escape_in_literal = 0 ∨ conn.escape_in_literal = BACKSLASH) :
    literalOf conn mode [[0x88, 0xa1], quote] [] 3 =
      (extension conn ++ [quote, [0x88, 0xa1], quote, quote]).flatten := by
  have hbody : specialChars .johab conn.lf_conversion true conn.escape_in_literal 0 3
      [0x88, 0xa1, 0x27] = [0x88, 0xa1, 0x27] := by
    rcases hesc with h | h <;> rw [h] <;> cases conn.lf_conversion <;> decide
  have hdouble : decide (mode ≠ .buildingBindRequest) = true := by simpa using hmode
  have hlf : (initFlags conn false).convertLf = conn.lf_conversion := rfl
  simp only [literalOf, quotedLiteral, convert_special_chars, hdouble, hjohab, hlf, extension]
  rw [show (if (0 : Int) ≤ 3 then (3 : Int).toNat else _) = 3 from rfl,
    show ([[0x88, 0xa1], quote] : List Chr).flatten ++ [] = [0x88, 0xa1, 0x27] from rfl, hbody]
  split <;> simp [quote, LITERAL_QUOTE]

/-- The literal of `88 A1 27` is not closed: the server takes its last two quotes for one. -/
theorem not_readsBack_johab {mode : ResolveParamMode} (hmode : mode ≠ .buildingBindRequest)
    (hjohab : conn.ccsc = .johab)
    (hesc : conn.escape_in_literal = 0 ∨ conn.escape_in_literal = BACKSLASH)
    (value : List Chr) :
    ¬ ReadsBack s conn.ccsc (literalOf conn mode [[0x88, 0xa1], quote] [] 3) value := by
  intro h
  have hread := h [] (by simp [WellFormed]) (by simp)
  have hwf : WellFormed conn.ccsc (extension conn ++ [quote, [0x88, 0xa1], quote, quote]) := by
    intro c hc
    rcases List.mem_append.mp hc with hc | hc
    · exact wellFormed_extension conn c hc
    · simp only [List.mem_cons, List.not_mem_nil, or_false] at hc
      rw [hjohab]
      rcases hc with rfl | rfl | rfl | rfl <;> rfl
  rw [literalOf_johab hmode hjohab hesc, List.flatten_nil, List.append_nil, decode_flatten hwf,
    Option.bind_some] at hread
  have hbody : ∀ escapes, readBody s escapes 3 [[0x88, 0xa1], quote, quote] = none := by
    intro escapes
    simp [readBody, quote, backslash]
  have hread : readLiteral s (extension conn ++ [quote, [0x88, 0xa1], quote, quote]) ≠ none := by
    rw [hread]
    exact Option.some_ne_none _
  refine hread ?_
  unfold extension
  split
  · exact hbody true
  · exact hbody (!s.standard_conforming_strings)

/-- **When literals read back.** The literal of a text reads back as the text unless the text
ends with a carriage return, line feeds are converted, and a line feed follows in memory; under
JOHAB this takes a text whose special bytes the driver sees. The literal of every text reads
back exactly when the encoding is not JOHAB and line feeds are not converted. -/
theorem literal_reads_back_iff {mode : ResolveParamMode} (hmode : mode ≠ .buildingBindRequest)
    (hsync : conn.escape_in_literal = if s.standard_conforming_strings then 0 else BACKSLASH) :
    (∀ text after used, WellFormed conn.ccsc text → Delimits used text after →
      (conn.ccsc = .johab → Seen conn text) →
      (ReadsBack s conn.ccsc (literalOf conn mode text after used)
          (literalValue conn.lf_conversion false text) ↔
        ¬ (conn.lf_conversion = true ∧ after.headD 0 = PG_LINEFEED ∧
          text.getLast? = some carriageReturn))) ∧
    ((∀ text after used, WellFormed conn.ccsc text → Delimits used text after →
        ReadsBack s conn.ccsc (literalOf conn mode text after used)
          (literalValue conn.lf_conversion false text)) ↔
      conn.ccsc ≠ .johab ∧ conn.lf_conversion = false) := by
  have hesc : conn.escape_in_literal = 0 ∨ conn.escape_in_literal = BACKSLASH := by
    rw [hsync]; split <;> simp
  have hpart : ∀ text after used, WellFormed conn.ccsc text → Delimits used text after →
      Seen conn text →
      (ReadsBack s conn.ccsc (literalOf conn mode text after used)
          (literalValue conn.lf_conversion false text) ↔
        ¬ (conn.lf_conversion = true ∧ after.headD 0 = PG_LINEFEED ∧
          text.getLast? = some carriageReturn)) := by
    intro text after used hwf hused hseen
    have hread := readsBack_literalOf hmode hsync hwf hseen hused
    have hvalue := literalValue_eq_iff conn.lf_conversion (after.headD 0 = PG_LINEFEED) text
    rw [decide_eq_true_eq] at hvalue
    rw [← hvalue]
    constructor
    · exact hread.unique
    · intro h
      rwa [h] at hread
  refine ⟨fun text after used hwf hused hseen => ?_, fun hall => ⟨?_, ?_⟩, ?_⟩
  · refine hpart text after used hwf hused ?_
    by_cases hjohab : conn.ccsc = .johab
    · exact hseen hjohab
    · exact seen_of_ne_johab hjohab hesc hwf
  · intro hjohab
    refine not_readsBack_johab hmode hjohab hesc _ (hall [[0x88, 0xa1], quote] [] 3 ?_ (.inl rfl))
    rw [hjohab]
    exact wellFormed_cons.mpr ⟨rfl, wellFormed_cons.mpr ⟨rfl, by simp [WellFormed]⟩⟩
  · have hcr : WellFormed conn.ccsc [carriageReturn] :=
      wellFormed_cons.mpr ⟨isChar_ascii _ (by decide) (by decide), by simp [WellFormed]⟩
    have h := (hpart [carriageReturn] [PG_LINEFEED] 1 hcr (.inl rfl)
      (seen_carriageReturn conn)).mp (hall _ _ _ hcr (.inl rfl))
    simpa using h
  · rintro ⟨hjohab, hlf⟩ text after used hwf hused
    exact (hpart text after used hwf hused (seen_of_ne_johab hjohab hesc hwf)).mpr (by simp [hlf])

end Literal

/-- `O'` is sent with its quote doubled and comes back, on a plain connection. -/
theorem literal_reads_back_quote :
    ReadsBack ⟨true, fun _ => none⟩ sampleConn.ccsc
      (literalOf sampleConn .replaceParams [[0x4f], quote] [0] SQL_NTS) [[0x4f], quote] :=
  ((@literal_reads_back_iff sampleConn ⟨true, fun _ => none⟩ .replaceParams (by decide) rfl).2.mpr
    ⟨by decide, rfl⟩) [[0x4f], quote] [0] SQL_NTS
    (wellFormed_cons.mpr ⟨rfl, wellFormed_cons.mpr ⟨rfl, by simp [WellFormed]⟩⟩)
    (.inr ⟨by decide, rfl⟩)

/-- A plain connection, but with client encoding JOHAB. -/
def johabConn : ConnectionClass := { sampleConn with ccsc := .johab }

/-- The literal of `88 A1 27 4F 52` ends in front of `OR`, which the server reads as part of the
statement. -/
theorem literal_ends_early :
    ¬ ReadsBack ⟨true, fun _ => none⟩ .johab
        (literalOf johabConn .replaceParams [[0x88, 0xa1], quote, [0x4f], [0x52]] [0] SQL_NTS)
        [[0x88, 0xa1], quote, [0x4f], [0x52]] ∧
      (decode .johab
          (literalOf johabConn .replaceParams [[0x88, 0xa1], quote, [0x4f], [0x52]] [0]
            SQL_NTS)).bind (readLiteral ⟨true, fun _ => none⟩) =
        some ([[0x88, 0xa1]], [[0x4f], [0x52], quote]) := by
  have hread : (decode .johab
      (literalOf johabConn .replaceParams [[0x88, 0xa1], quote, [0x4f], [0x52]] [0]
        SQL_NTS)).bind (readLiteral ⟨true, fun _ => none⟩) =
      some ([[0x88, 0xa1]], [[0x4f], [0x52], quote]) := by decide
  refine ⟨fun h => ?_, hread⟩
  have hall := h [] (by simp [WellFormed]) (by simp)
  rw [List.flatten_nil, List.append_nil, hread] at hall
  exact absurd hall (by decide)

end OdbcDriver
