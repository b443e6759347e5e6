import OdbcDriver.Encoding.Multibyte

/-!
# Characters of the client encodings

The well-formed characters of each client encoding, byte by byte, and how the server divides a
text into them. The driver's own notion of a character, the state of `pg_CS_stat`, agrees on
every encoding but one: under JOHAB it takes a lead byte up to `0xa0` for a character of its
own.
-/

namespace OdbcDriver

/-- A character, as its bytes. -/
abbrev Chr := List Byte

/-! ### Well-formed characters -/

/-- `x` lies between `lo` and `hi`. -/
def within (lo hi x : Nat) : Bool := lo ≤ x && x ≤ hi

/-- The characters of one byte. A NUL is in no text. -/
def isSingle (ccsc : Ccsc) (a : Nat) : Bool :=
  within 0x01 0x7f a ||
    match ccsc with
    | .sjis | .shiftJis2004 => within 0xa1 0xdf a
    | .latin => 0x80 ≤ a
    | _ => false

/-- The characters of two bytes. -/
def isPair (ccsc : Ccsc) (a b : Nat) : Bool :=
  match ccsc with
  | .utf8 => within 0xc2 0xdf a && within 0x80 0xbf b
  | .sjis | .shiftJis2004 =>
    (within 0x81 0x9f a || within 0xe0 0xfc a) && (within 0x40 0x7e b || within 0x80 0xfc b)
  | .big5 => within 0xa1 0xfe a && (within 0x40 0x7e b || within 0xa1 0xfe b)
  | .gbk => within 0x81 0xfe a && (within 0x40 0x7e b || within 0x80 0xfe b)
  | .uhc =>
    within 0x81 0xfe a && (within 0x41 0x5a b || within 0x61 0x7a b || within 0x81 0xfe b)
  | .eucJp | .eucJis2004 =>
    (a = 0x8e && within 0xa1 0xdf b) || (within 0xa1 0xfe a && within 0xa1 0xfe b)
  | .eucCn | .eucKr | .eucTw => within 0xa1 0xfe a && within 0xa1 0xfe b
  | .johab =>
    (within 0x84 0xd3 a || within 0xd8 0xde a || within 0xe0 0xf9 a) &&
      (within 0x31 0x7e b || within 0x81 0xfe b)
  | .gb18030 => within 0x81 0xfe a && (within 0x40 0x7e b || within 0x80 0xfe b)
  | .latin => false

/-- The characters of three bytes. -/
def isTriple (ccsc : Ccsc) (a b c : Nat) : Bool :=
  match ccsc with
  | .utf8 =>
    ((a = 0xe0 && within 0xa0 0xbf b) || (a = 0xed && within 0x80 0x9f b) ||
      ((within 0xe1 0xec a || within 0xee 0xef a) && within 0x80 0xbf b)) && within 0x80 0xbf c
  | .eucJp | .eucJis2004 => a = 0x8f && within 0xa1 0xfe b && within 0xa1 0xfe c
  | _ => false

/-- The characters of four bytes. -/
def isQuad (ccsc : Ccsc) (a b c d : Nat) : Bool :=
  match ccsc with
  | .utf8 =>
    ((a = 0xf0 && within 0x90 0xbf b) || (a = 0xf4 && within 0x80 0x8f b) ||
      (within 0xf1 0xf3 a && within 0x80 0xbf b)) && within 0x80 0xbf c && within 0x80 0xbf d
  | .eucTw => a = 0x8e && within 0xa1 0xb0 b && within 0xa1 0xfe c && within 0xa1 0xfe d
  | .gb18030 =>
    within 0x81 0xfe a && within 0x30 0x39 b && within 0x81 0xfe c && within 0x30 0x39 d
  | _ => false

/-- `c` is a well-formed character of the encoding. -/
def isChar (ccsc : Ccsc) : Chr → Bool
  | [a] => isSingle ccsc a.toNat
  | [a, b] => isPair ccsc a.toNat b.toNat
  | [a, b, c] => isTriple ccsc a.toNat b.toNat c.toNat
  | [a, b, c, d] => isQuad ccsc a.toNat b.toNat c.toNat d.toNat
  | _ => false

/-- A well-formed text: a sequence of well-formed characters. -/
def WellFormed (ccsc : Ccsc) (text : List Chr) : Prop := ∀ c ∈ text, isChar ccsc c = true

theorem wellFormed_cons {ccsc : Ccsc} {c : Chr} {text : List Chr} :
    WellFormed ccsc (c :: text) ↔ isChar ccsc c = true ∧ WellFormed ccsc text :=
  List.forall_mem_cons

/-! ### No character begins another -/

section PrefixFree

variable {ccsc : Ccsc} {a b c d : Nat}

theorem isPair_not_single (h : isPair ccsc a b = true) : isSingle ccsc a = false := by
  cases ccsc <;> simp [isPair, isSingle, within] at h ⊢ <;> omega

theorem isTriple_not_single (h : isTriple ccsc a b c = true) : isSingle ccsc a = false := by
  cases ccsc <;> simp [isTriple, isSingle, within] at h ⊢ <;> omega

theorem isTriple_not_pair (h : isTriple ccsc a b c = true) : isPair ccsc a b = false := by
  cases ccsc <;> simp [isTriple, isPair, within] at h ⊢ <;> omega

theorem isQuad_not_single (h : isQuad ccsc a b c d = true) : isSingle ccsc a = false := by
  cases ccsc <;> simp [isQuad, isSingle, within] at h ⊢ <;> omega

theorem isQuad_not_pair (h : isQuad ccsc a b c d = true) : isPair ccsc a b = false := by
  cases ccsc <;> simp [isQuad, isPair, within] at h ⊢ <;> omega

theorem isQuad_not_triple (h : isQuad ccsc a b c d = true) : isTriple ccsc a b c = false := by
  cases ccsc <;> simp [isQuad, isTriple, within] at h ⊢
  omega

end PrefixFree

/-! ### Dividing a text into characters -/

/-- The characters of a text, of which the bytes `pending` have been read without completing
one. -/
def decodeFrom (ccsc : Ccsc) : Chr → List Byte → Option (List Chr)
  | [], [] => some []
  | _ :: _, [] => none
  | pending, b :: s =>
    if isChar ccsc (pending ++ [b]) then
      (decodeFrom ccsc [] s).map ((pending ++ [b]) :: ·)
    else if pending.length < 3 then decodeFrom ccsc (pending ++ [b]) s
    else none

/-- The characters of a text. -/
def decode (ccsc : Ccsc) (s : List Byte) : Option (List Chr) := decodeFrom ccsc [] s

/-- A character at the front of a text is read as one. -/
theorem decode_append {ccsc : Ccsc} {c : Chr} (h : isChar ccsc c = true) (s : List Byte) :
    decode ccsc (c ++ s) = (decode ccsc s).map (c :: ·) := by
  unfold decode
  match c, h with
  | [a], h => simp [decodeFrom, h]
  | [a, b], h =>
    have h1 : isChar ccsc [a] = false := isPair_not_single h
    simp [decodeFrom, h, h1]
  | [a, b, c], h =>
    have h1 : isChar ccsc [a] = false := isTriple_not_single h
    have h2 : isChar ccsc [a, b] = false := isTriple_not_pair h
    simp [decodeFrom, h, h1, h2]
  | [a, b, c, d], h =>
    have h1 : isChar ccsc [a] = false := isQuad_not_single h
    have h2 : isChar ccsc [a, b] = false := isQuad_not_pair h
    have h3 : isChar ccsc [a, b, c] = false := isQuad_not_triple h
    simp [decodeFrom, h, h1, h2, h3]

/-- A well-formed text is divided into its characters. -/
theorem decode_flatten {ccsc : Ccsc} {text : List Chr} (h : WellFormed ccsc text) :
    decode ccsc text.flatten = some text := by
  induction text with
  | nil => rfl
  | cons c text ih =>
    rw [wellFormed_cons] at h
    rw [List.flatten_cons, decode_append h.1, ih h.2, Option.map_some]

theorem flatten_of_decodeFrom {ccsc : Ccsc} {pending : Chr} {s : List Byte} {text : List Chr}
    (h : decodeFrom ccsc pending s = some text) : text.flatten = pending ++ s := by
  induction s generalizing pending text with
  | nil =>
    cases pending with
    | nil =>
      rw [decodeFrom, Option.some.injEq] at h
      rw [← h]
      rfl
    | cons a pending => cases h
  | cons b s ih =>
    rw [decodeFrom] at h
    split at h
    · obtain ⟨text, htext, rfl⟩ := Option.map_eq_some_iff.mp h
      rw [List.flatten_cons, ih htext, List.nil_append, List.append_assoc]
      rfl
    · split at h
      · rw [ih h, List.append_assoc]
        rfl
      · cases h

/-- The characters of a text make it up. -/
theorem flatten_of_decode {ccsc : Ccsc} {s : List Byte} {text : List Chr}
    (h : decode ccsc s = some text) : text.flatten = s := flatten_of_decodeFrom h

/-! ### ASCII characters -/

/-- A byte below `0x80`, other than NUL, is a character of every encoding. -/
theorem isChar_ascii (ccsc : Ccsc) {b : Byte} (hpos : b ≠ 0) (h : b.toNat < 0x80) :
    isChar ccsc [b] = true := by
  have hne : b.toNat ≠ 0 := fun h0 => hpos (UInt8.toNat_inj.mp h0)
  simp [isChar, isSingle, within]
  omega

/-- The first byte of a longer character is not ASCII. -/
theorem head_of_isChar {ccsc : Ccsc} {a b : Byte} {c : Chr}
    (h : isChar ccsc (a :: b :: c) = true) : 0x80 ≤ a.toNat := by
  match c, h with
  | [], h => cases ccsc <;> simp [isChar, isPair, within] at h <;> omega
  | [_], h => cases ccsc <;> simp [isChar, isTriple, within] at h <;> omega
  | [_, _], h => cases ccsc <;> simp [isChar, isQuad, within] at h <;> omega

theorem ne_nil_of_isChar {ccsc : Ccsc} {c : Chr} (h : isChar ccsc c = true) : c ≠ [] := by
  rintro rfl
  cases h

/-- No byte of a character is NUL. -/
theorem ne_zero_of_isChar {ccsc : Ccsc} {c : Chr} (h : isChar ccsc c = true) :
    ∀ x ∈ c, x ≠ 0 := by
  have hne : ∀ x : Byte, x.toNat ≠ 0 → x ≠ 0 := by
    rintro x hx rfl
    exact hx rfl
  match c, h with
  | [a], h =>
    have : a.toNat ≠ 0 := by
      cases ccsc <;> simp [isChar, isSingle, within] at h <;> omega
    simpa using hne a this
  | [a, b], h =>
    have : a.toNat ≠ 0 ∧ b.toNat ≠ 0 := by
      cases ccsc <;> simp [isChar, isPair, within] at h <;> omega
    simpa using ⟨hne a this.1, hne b this.2⟩
  | [a, b, c], h =>
    have : a.toNat ≠ 0 ∧ b.toNat ≠ 0 ∧ c.toNat ≠ 0 := by
      cases ccsc <;> simp [isChar, isTriple, within] at h <;> omega
    simpa using ⟨hne a this.1, hne b this.2.1, hne c this.2.2⟩
  | [a, b, c, d], h =>
    have : a.toNat ≠ 0 ∧ b.toNat ≠ 0 ∧ c.toNat ≠ 0 ∧ d.toNat ≠ 0 := by
      cases ccsc <;> simp [isChar, isQuad, within] at h <;> omega
    simpa using ⟨hne a this.1, hne b this.2.1, hne c this.2.2.1, hne d this.2.2.2⟩

/-! ### What the driver sees -/

/-- The driver, in state `stat`, takes every byte of `s` for which `special` holds as part of
a multibyte character. -/
def Passes (ccsc : Ccsc) (special : Byte → Bool) : Nat → List Byte → Prop
  | _, [] => True
  | stat, b :: s =>
    (special b = true → nonAscii (nextStat ccsc stat b) b = true) ∧
      Passes ccsc special (nextStat ccsc stat b) s

/-- The driver, in state `stat`, sees the special bytes of a text as what they are: an ASCII
character is one, and a byte of a longer character is not. -/
def InStep (ccsc : Ccsc) (special : Byte → Bool) : Nat → List Chr → Prop
  | _, [] => True
  | stat, c :: text =>
    (match c with
      | [b] => special b = true → nonAscii (nextStat ccsc stat b) b = false
      | c => Passes ccsc special stat c) ∧
      InStep ccsc special (statAfter ccsc stat c) text

section Tracking

variable {ccsc : Ccsc} {stat a b c d : Nat}

theorem single_tracked (hstat : stat < 2) (h : isSingle ccsc a = true) :
    pg_CS_stat stat a ccsc < 2 := by
  cases ccsc <;> simp [isSingle, within] at h <;>
    simp only [pg_CS_stat, utf8Stat, twoByteStat, eucJpStat, eucTwStat, gb18030Stat] <;> grind

theorem pair_tracked (hjohab : ccsc ≠ .johab) (hstat : stat < 2) (h : isPair ccsc a b = true) :
    pg_CS_stat stat a ccsc ≠ 0 ∧ pg_CS_stat (pg_CS_stat stat a ccsc) b ccsc = 1 := by
  cases ccsc <;> simp [isPair, within] at h hjohab <;>
    simp only [pg_CS_stat, utf8Stat, twoByteStat, eucJpStat, eucTwStat, gb18030Stat] <;> grind

theorem triple_tracked (hstat : stat < 2) (h : isTriple ccsc a b c = true) :
    pg_CS_stat stat a ccsc ≠ 0 ∧ pg_CS_stat (pg_CS_stat stat a ccsc) b ccsc ≠ 0 ∧
      pg_CS_stat (pg_CS_stat (pg_CS_stat stat a ccsc) b ccsc) c ccsc = 1 := by
  have heuc : 0xa1 ≤ b → b ≤ 0xfe → 0xa1 ≤ c → c ≤ 0xfe →
      eucJpStat stat 0x8f = 3 ∧ eucJpStat 3 b = 2 ∧ eucJpStat 2 c = 1 := by
    intro hb hb' hc hc'
    refine ⟨?_, ?_, ?_⟩ <;> simp only [eucJpStat] <;> grind
  cases ccsc <;> simp [isTriple, within] at h
  case utf8 =>
    have ha : pg_CS_stat stat a .utf8 = 3 := by simp only [pg_CS_stat, utf8Stat]; grind
    have hb : pg_CS_stat 3 b .utf8 = 2 := by simp only [pg_CS_stat, utf8Stat]; grind
    have hc : pg_CS_stat 2 c .utf8 = 1 := by simp only [pg_CS_stat, utf8Stat]; grind
    simp [ha, hb, hc]
  all_goals
    obtain ⟨⟨rfl, hb, hb'⟩, hc, hc'⟩ := h
    obtain ⟨h1, h2, h3⟩ := heuc hb hb' hc hc'
    have hb0 : b ≠ 0 := by omega
    have hc0 : c ≠ 0 := by omega
    simp [pg_CS_stat, h1, h2, h3, hb0, hc0]

theorem quad_tracked (hstat : stat < 2) (h : isQuad ccsc a b c d = true) :
    pg_CS_stat stat a ccsc ≠ 0 ∧ pg_CS_stat (pg_CS_stat stat a ccsc) b ccsc ≠ 0 ∧
      pg_CS_stat (pg_CS_stat (pg_CS_stat stat a ccsc) b ccsc) c ccsc ≠ 0 ∧
      pg_CS_stat (pg_CS_stat (pg_CS_stat (pg_CS_stat stat a ccsc) b ccsc) c ccsc) d ccsc = 1 := by
  cases ccsc <;> simp [isQuad, within] at h
  case utf8 =>
    have ha : pg_CS_stat stat a .utf8 = 4 := by simp only [pg_CS_stat, utf8Stat]; grind
    have hb : pg_CS_stat 4 b .utf8 = 3 := by simp only [pg_CS_stat, utf8Stat]; grind
    have hc : pg_CS_stat 3 c .utf8 = 2 := by simp only [pg_CS_stat, utf8Stat]; grind
    have hd : pg_CS_stat 2 d .utf8 = 1 := by simp only [pg_CS_stat, utf8Stat]; grind
    simp [ha, hb, hc, hd]
  case eucTw =>
    have ha : pg_CS_stat stat a .eucTw = 4 := by simp only [pg_CS_stat, eucTwStat]; grind
    have hb : pg_CS_stat 4 b .eucTw = 3 := by simp only [pg_CS_stat, eucTwStat]; grind
    have hc : pg_CS_stat 3 c .eucTw = 2 := by simp only [pg_CS_stat, eucTwStat]; grind
    have hd : pg_CS_stat 2 d .eucTw = 1 := by simp only [pg_CS_stat, eucTwStat]; grind
    simp [ha, hb, hc, hd]
  case gb18030 =>
    have ha : pg_CS_stat stat a .gb18030 = 2 := by simp only [pg_CS_stat, gb18030Stat]; grind
    have hb : pg_CS_stat 2 b .gb18030 = 3 := by simp only [pg_CS_stat, gb18030Stat]; grind
    have hc : pg_CS_stat 3 c .gb18030 = 3 := by simp only [pg_CS_stat, gb18030Stat]; grind
    have hd : pg_CS_stat 3 d .gb18030 = 1 := by simp only [pg_CS_stat, gb18030Stat]; grind
    simp [ha, hb, hc, hd]

end Tracking

/-- Under every encoding but JOHAB, reading a character outside every other leaves the driver
outside. -/
theorem statAfter_char {ccsc : Ccsc} (hjohab : ccsc ≠ .johab) {stat : Nat} (hstat : stat < 2)
    {c : Chr} (h : isChar ccsc c = true) : statAfter ccsc stat c < 2 := by
  match c, h with
  | [_], h => exact single_tracked hstat h
  | [_, _], h => exact lt_of_eq_of_lt (pair_tracked hjohab hstat h).2 Nat.one_lt_two
  | [_, _, _], h => exact lt_of_eq_of_lt (triple_tracked hstat h).2.2 Nat.one_lt_two
  | [_, _, _, _], h => exact lt_of_eq_of_lt (quad_tracked hstat h).2.2.2 Nat.one_lt_two

/-- Under every encoding but JOHAB, the driver takes every byte of a longer character as part
of one. -/
theorem passes_char {ccsc : Ccsc} (hjohab : ccsc ≠ .johab) (special : Byte → Bool) {stat : Nat}
    (hstat : stat < 2) {a b : Byte} {c : Chr} (h : isChar ccsc (a :: b :: c) = true) :
    Passes ccsc special stat (a :: b :: c) := by
  match c, h with
  | [], h =>
    obtain ⟨ha, hb⟩ := pair_tracked hjohab hstat h
    simp [Passes, nonAscii, nextStat, ha, hb]
  | [_], h =>
    obtain ⟨ha, hb, hc⟩ := triple_tracked hstat h
    simp [Passes, nonAscii, nextStat, ha, hb, hc]
  | [_, _], h =>
    obtain ⟨ha, hb, hc, hd⟩ := quad_tracked hstat h
    simp [Passes, nonAscii, nextStat, ha, hb, hc, hd]

/-- **Tracking.** Under every encoding but JOHAB, the driver sees the special bytes of every
well-formed text as what they are. -/
theorem inStep_of_ne_johab {ccsc : Ccsc} (hjohab : ccsc ≠ .johab) {special : Byte → Bool}
    (hspecial : ∀ b, special b = true → b.toNat < 0x80) {text : List Chr} :
    ∀ {stat : Nat}, stat < 2 → WellFormed ccsc text → InStep ccsc special stat text := by
  induction text with
  | nil => exact fun _ _ => trivial
  | cons c text ih =>
    intro stat hstat h
    obtain ⟨hc, htext⟩ := wellFormed_cons.mp h
    refine ⟨?_, ih (statAfter_char hjohab hstat hc) htext⟩
    match c, hc with
    | [b], hc =>
      intro hb
      have hlow := hspecial b hb
      simp [nonAscii, nextStat, pg_CS_stat_ascii ccsc hstat hlow, hlow]
    | _ :: _ :: _, hc => exact passes_char hjohab special hstat hc

end OdbcDriver
