import OdbcDriver.Lib.Wildcard
import OdbcDriver.Param.SpecialChars

/-!
# Search patterns

A search pattern of the application becomes the operand of a `like`. `adjustLikePattern` doubles a
backslash that stands in front of neither wildcard, and escapes the text for the literal, in one
pass that remembers whether the last ASCII character was a backslash. The flag is not settled by a
character outside ASCII: the backslash in front of it is lost, and one is inserted further on.

* `likeChars_text`: the text, as the escaped form of a value;
* `likePattern_value`: the value reads as the search pattern where no backslash stands in front of
  such a character;
* `literals_lost`: where one does, it has fewer literals, or is no pattern.
-/

namespace OdbcDriver.LikePattern

open Server (escape escape_cons quote backslash)
open Wildcard (Element Matches literals)

/-! ### The text -/

def SEARCH_PATTERN_ESCAPE : Byte := 0x5c

/-- A backslash of the pattern, in a literal. -/
def patternEscape (escape_in_literal : Byte) : List Byte :=
  (if SEARCH_PATTERN_ESCAPE = escape_in_literal then [escape_in_literal] else []) ++
    [SEARCH_PATTERN_ESCAPE]

/-- The loop of `adjustLikePattern`, and what it appends in the end. -/
def likeChars (ccsc : Ccsc) (escape_in_literal : Byte) : ℕ → Bool → List Byte → List Byte
  | _, escape_in, [] => if escape_in then patternEscape escape_in_literal else []
  | stat, escape_in, tchar :: src =>
    let stat := nextStat ccsc stat tchar
    if nonAscii stat tchar then tchar :: likeChars ccsc escape_in_literal stat escape_in src
    else
      (if escape_in && tchar ≠ 0x25 && tchar ≠ 0x5f then patternEscape escape_in_literal else []) ++
        if tchar = SEARCH_PATTERN_ESCAPE then
          patternEscape escape_in_literal ++ likeChars ccsc escape_in_literal stat true src
        else
          (if tchar = LITERAL_QUOTE then [tchar] else []) ++
            tchar :: likeChars ccsc escape_in_literal stat false src

/-- `adjustLikePattern`, over the memory `src`. -/
def adjustLikePattern (conn : ConnectionClass) (src : Option (List Byte)) (srclen : ℤ) :
    Option (List Byte) :=
  src.bind fun src =>
    if srclen = SQL_NULL_DATA then none
    else
      let srclen : ℤ := if srclen = SQL_NTS then (src.takeWhile (· ≠ 0)).length else srclen
      if srclen < 0 then none
      else some (likeChars conn.ccsc conn.escape_in_literal 0 false (src.take srclen.toNat))

/-- `gen_opestr` -/
def gen_opestr (orig_opestr : String) (conn : ConnectionClass) : String :=
  let addE := conn.escape_in_literal ≠ 0 && PG_VERSION_GE conn 8 1
  if orig_opestr = "=" then (if addE then "= E" else "= ")
  else if addE then "like E" else "like "

/-- The operator and its operand, as the catalog functions write them. -/
def likeClause (conn : ConnectionClass) (pattern : List Byte) : List Byte :=
  ascii (gen_opestr "like" conn) ++ LITERAL_QUOTE :: (pattern ++ [LITERAL_QUOTE])

/-! ### What patterns mean -/

def percent : Chr := [0x25]
def underscore : Chr := [0x5f]

/-- A character that no backslash stands in front of. -/
def element (c : Chr) : Element Chr :=
  if c = percent then .any else if c = underscore then .one else .lit c

/-- A search pattern: a backslash in front of a wildcard makes it a literal, any other backslash is
one itself. -/
def searchPattern : List Chr → List (Element Chr)
  | [] => []
  | [c] => [element c]
  | c :: d :: text =>
    if c = backslash ∧ (d = percent ∨ d = underscore) then .lit d :: searchPattern text
    else element c :: searchPattern (d :: text)

/-- The operand of `like`: a backslash makes the character behind it a literal, and may not be the
last one. -/
def likePattern : List Chr → Option (List (Element Chr))
  | [] => some []
  | [c] => if c = backslash then none else some [element c]
  | c :: d :: text =>
    if c = backslash then (likePattern text).map (.lit d :: ·)
    else (likePattern (d :: text)).map (element c :: ·)

/-- `like` holds of a name. -/
def Like (pattern name : List Chr) : Prop := ∃ p, likePattern pattern = some p ∧ Matches p name

variable {c d : Chr} {text : List Chr}

theorem element_backslash : element backslash = .lit backslash := rfl

theorem searchPattern_wildcard (hd : d = percent ∨ d = underscore) (text : List Chr) :
    searchPattern (backslash :: d :: text) = .lit d :: searchPattern text := by
  rw [searchPattern, if_pos ⟨rfl, hd⟩]

theorem searchPattern_backslash (hd : ¬(d = percent ∨ d = underscore)) (text : List Chr) :
    searchPattern (backslash :: d :: text) = .lit backslash :: searchPattern (d :: text) := by
  rw [searchPattern, if_neg fun h => hd h.2, element_backslash]

theorem searchPattern_other (hc : c ≠ backslash) (text : List Chr) :
    searchPattern (c :: text) = element c :: searchPattern text := by
  cases text with
  | nil => rfl
  | cons d text => rw [searchPattern, if_neg fun h => hc h.1]

theorem likePattern_escaped (d : Chr) (text : List Chr) :
    likePattern (backslash :: d :: text) = (likePattern text).map (.lit d :: ·) := by
  rw [likePattern, if_pos rfl]

theorem likePattern_other (hc : c ≠ backslash) (text : List Chr) :
    likePattern (c :: text) = (likePattern text).map (element c :: ·) := by
  cases text with
  | nil => exact if_neg hc
  | cons d text => rw [likePattern, if_neg hc]

/-! ### The value of the literal -/

/-- The character is ASCII. -/
def IsAscii : Chr → Bool
  | [b] => b.toNat < 0x80
  | _ => false

/-- The value that the text is the escaped form of, behind a backslash or not. -/
def likeValue : Bool → List Chr → List Chr
  | escape_in, [] => if escape_in then [backslash] else []
  | escape_in, c :: text =>
    if IsAscii c then
      (if escape_in && c ≠ percent && c ≠ underscore then [backslash] else []) ++
        c :: likeValue (c = backslash) text
    else c :: likeValue escape_in text

/-- The driver sees the ASCII characters of the text as what they are. -/
abbrev SeesAscii (ccsc : Ccsc) (stat : ℕ) (text : List Chr) : Prop :=
  InStep ccsc (fun b => b.toNat < 0x80) stat text

theorem patternEscape_eq {esc : Byte} (hesc : esc = 0 ∨ esc = BACKSLASH) :
    patternEscape esc = (escape (esc ≠ 0) [backslash]).flatten := by
  rcases hesc with rfl | rfl <;> rfl

/-- The bytes of a character outside ASCII are copied. -/
theorem likeChars_copy {ccsc : Ccsc} {stat : ℕ} {p : List Byte}
    (hpass : Passes ccsc (fun b => b.toNat < 0x80) stat p) (esc : Byte) (escape_in : Bool)
    (s : List Byte) :
    likeChars ccsc esc stat escape_in (p ++ s) =
      p ++ likeChars ccsc esc (statAfter ccsc stat p) escape_in s := by
  induction p generalizing stat with
  | nil => rfl
  | cons b p ih =>
    have hnon : nonAscii (nextStat ccsc stat b) b = true := by
      by_cases hb : b.toNat < 0x80
      · exact hpass.1 (by simpa using hb)
      · simp [nonAscii, Nat.le_of_not_lt hb]
    rw [List.cons_append, likeChars, if_pos hnon, ih hpass.2]
    rfl

theorem likeChars_ascii {ccsc : Ccsc} {stat : ℕ} {b : Byte} {esc : Byte} {escape_in : Bool}
    (hseen : nonAscii (nextStat ccsc stat b) b = false) (s : List Byte) :
    likeChars ccsc esc stat escape_in (b :: s) =
      (if escape_in && b ≠ 0x25 && b ≠ 0x5f then patternEscape esc else []) ++
        if b = SEARCH_PATTERN_ESCAPE then
          patternEscape esc ++ likeChars ccsc esc (nextStat ccsc stat b) true s
        else
          (if b = LITERAL_QUOTE then [b] else []) ++
            b :: likeChars ccsc esc (nextStat ccsc stat b) false s := by
  rw [likeChars, hseen, if_neg Bool.false_ne_true]

theorem likeValue_ascii {b : Byte} (hb : b.toNat < 0x80) (escape_in : Bool) (text : List Chr) :
    likeValue escape_in ([b] :: text) =
      (if escape_in && b ≠ 0x25 && b ≠ 0x5f then [backslash] else []) ++
        [b] :: likeValue (b = SEARCH_PATTERN_ESCAPE) text := by
  have hascii : IsAscii [b] = true := decide_eq_true hb
  have hback : decide ([b] = backslash) = decide (b = SEARCH_PATTERN_ESCAPE) :=
    decide_eq_decide.mpr (by simp [backslash, SEARCH_PATTERN_ESCAPE])
  rw [likeValue, if_pos hascii, hback]
  simp [percent, underscore]

theorem escape_append (escapes : Bool) (v w : List Chr) :
    escape escapes (v ++ w) = escape escapes v ++ escape escapes w := List.flatMap_append

/-- The text of a pattern whose ASCII characters the driver sees. -/
theorem likeChars_text {ccsc : Ccsc} {stat : ℕ} {esc : Byte} (hesc : esc = 0 ∨ esc = BACKSLASH)
    (hsees : SeesAscii ccsc stat text) (escape_in : Bool) :
    likeChars ccsc esc stat escape_in text.flatten =
      (escape (esc ≠ 0) (likeValue escape_in text)).flatten := by
  induction text generalizing stat escape_in with
  | nil =>
    cases escape_in with
    | false => rfl
    | true => exact patternEscape_eq hesc
  | cons c text ih =>
    obtain ⟨hc, htext⟩ := hsees
    have hlong : Passes ccsc (fun b => b.toNat < 0x80) stat c → IsAscii c = false →
        c ≠ quote → c ≠ backslash → likeChars ccsc esc stat escape_in (c :: text).flatten =
          (escape (esc ≠ 0) (likeValue escape_in (c :: text))).flatten := by
      intro hpass hascii hquote hback
      rw [List.flatten_cons, likeChars_copy hpass, ih htext, likeValue,
        if_neg (Bool.eq_false_iff.mp hascii), escape_cons, if_neg (by simp [hquote, hback])]
      simp
    match c, hc with
    | [b], hb =>
      by_cases hlow : b.toNat < 0x80
      · have hseen : nonAscii (nextStat ccsc stat b) b = false := hb (by simpa using hlow)
        rw [List.flatten_cons, List.singleton_append, likeChars_ascii hseen, likeValue_ascii hlow,
          escape_append, List.flatten_append]
        have hrest : ∀ escape_in, likeChars ccsc esc (nextStat ccsc stat b) escape_in text.flatten =
            (escape (esc ≠ 0) (likeValue escape_in text)).flatten := fun escape_in =>
          ih htext escape_in
        refine congrArg₂ (· ++ ·) ?_ ?_
        · split
          · exact patternEscape_eq hesc
          · rfl
        by_cases hback : b = SEARCH_PATTERN_ESCAPE
        · subst hback
          rw [if_pos rfl, decide_eq_true rfl, hrest, patternEscape_eq hesc,
            ← List.flatten_append, ← escape_append]
          rfl
        · have hne : [b] ≠ backslash := fun h => hback (List.cons.inj h).1
          rw [if_neg hback, decide_eq_false hback, hrest, escape_cons]
          by_cases hquote : b = LITERAL_QUOTE
          · subst hquote
            rw [if_pos rfl, if_pos (.inl rfl)]
            rfl
          · have hne' : [b] ≠ quote := fun h => hquote (List.cons.inj h).1
            rw [if_neg hquote, if_neg (by simp [hne, hne'])]
            rfl
      · have hne : ∀ d : Byte, d.toNat < 0x80 → [b] ≠ [d] := fun d hd h =>
          hlow ((List.cons.inj h).1 ▸ hd)
        exact hlong ⟨fun h => absurd h (by simpa using hlow), trivial⟩ (by simpa [IsAscii] using hlow)
          (hne 0x27 (by decide)) (hne 0x5c (by decide))
    | [], hpass => exact hlong hpass rfl (by decide) (by decide)
    | a :: b :: p, hpass => exact hlong hpass rfl (by simp [quote]) (by simp [backslash])

/-- The text takes at most four bytes for each of the pattern. -/
theorem length_likeChars (ccsc : Ccsc) (esc : Byte) (stat : ℕ) (escape_in : Bool) (s : List Byte) :
    (likeChars ccsc esc stat escape_in s).length ≤ 4 * s.length + if escape_in then 2 else 0 := by
  have hesc : (patternEscape esc).length ≤ 2 := by
    rw [patternEscape]
    split <;> simp
  induction s generalizing stat escape_in with
  | nil =>
    rw [likeChars]
    split
    · simpa using hesc
    · exact Nat.zero_le _
  | cons b s ih =>
    have htrue := ih (nextStat ccsc stat b) true
    have hfalse := ih (nextStat ccsc stat b) false
    have hsame := ih (nextStat ccsc stat b) escape_in
    rw [if_pos rfl] at htrue
    rw [if_neg Bool.false_ne_true] at hfalse
    rw [likeChars]
    split
    · rw [List.length_cons, List.length_cons]
      omega
    have hpre : (if escape_in && b ≠ 0x25 && b ≠ 0x5f then patternEscape esc else []).length ≤
        if escape_in then 2 else 0 := by
      cases escape_in with
      | false => exact Nat.le_refl _
      | true =>
        split
        · exact hesc
        · exact Nat.zero_le _
    rw [List.length_append, List.length_cons]
    by_cases hback : b = SEARCH_PATTERN_ESCAPE
    · rw [if_pos hback, List.length_append]
      omega
    · rw [if_neg hback, List.length_append, List.length_cons]
      have hquote : (if b = LITERAL_QUOTE then [b] else []).length ≤ 1 := by
        split <;> simp
      omega

/-! ### The value as a pattern -/

/-- No backslash stands in front of a character outside ASCII. -/
def KeepsBackslashes (text : List Chr) : Prop :=
  List.IsChain (fun c d => c = backslash → IsAscii d = true) text

/-- The kinds of characters. -/
theorem kinds (c : Chr) :
    IsAscii c = false ∨ (c = percent ∨ c = underscore) ∨ c = backslash ∨
      IsAscii c = true ∧ c ≠ percent ∧ c ≠ underscore ∧ c ≠ backslash := by
  cases IsAscii c <;> by_cases c = percent <;> by_cases c = underscore <;>
    by_cases c = backslash <;> simp_all

variable {escape_in : Bool}

theorem likeValue_beyond (h : IsAscii c = false) :
    likeValue escape_in (c :: text) = c :: likeValue escape_in text := by
  rw [likeValue, if_neg (Bool.eq_false_iff.mp h)]

theorem likeValue_wildcard (h : c = percent ∨ c = underscore) :
    likeValue escape_in (c :: text) = c :: likeValue false text := by
  rcases h with rfl | rfl
  · cases escape_in <;> rfl
  · cases escape_in <;> rfl

theorem likeValue_backslash :
    likeValue escape_in (backslash :: text) =
      (if escape_in then [backslash] else []) ++ backslash :: likeValue true text := by
  cases escape_in <;> rfl

theorem likeValue_plain (hascii : IsAscii c = true)
    (h : c ≠ percent ∧ c ≠ underscore ∧ c ≠ backslash) :
    likeValue escape_in (c :: text) =
      (if escape_in then [backslash] else []) ++ c :: likeValue false text := by
  rw [likeValue, if_pos hascii, decide_eq_false h.2.2]
  simp [h.1, h.2.1]

/-- Where no backslash stands in front of a character outside ASCII, the value reads as the search
pattern. -/
theorem likePattern_value (h : KeepsBackslashes text) :
    likePattern (likeValue false text) = some (searchPattern text) := by
  suffices hboth : likePattern (likeValue false text) = some (searchPattern text) ∧
      (KeepsBackslashes (backslash :: text) →
        likePattern (backslash :: likeValue true text) =
          some (searchPattern (backslash :: text))) from hboth.1
  induction text with
  | nil => exact ⟨rfl, fun _ => rfl⟩
  | cons c text ih =>
    obtain ⟨hfalse, htrue⟩ := ih h.of_cons
    rcases kinds c with hc | hc | rfl | ⟨hascii, hc⟩
    · have hne : c ≠ backslash := by
        rintro rfl
        cases hc
      refine ⟨?_, fun hkeeps => ?_⟩
      · rw [likeValue_beyond hc, likePattern_other hne, hfalse, searchPattern_other hne]
        rfl
      · have hbad := (List.isChain_cons_cons.mp hkeeps).1 rfl
        rw [hc] at hbad
        cases hbad
    · have hne : c ≠ backslash := by
        rcases hc with rfl | rfl <;> decide
      refine ⟨?_, fun _ => ?_⟩
      · rw [likeValue_wildcard hc, likePattern_other hne, hfalse, searchPattern_other hne]
        rfl
      · rw [likeValue_wildcard hc, likePattern_escaped, hfalse, searchPattern_wildcard hc]
        rfl
    · have hkept := htrue h
      refine ⟨?_, fun _ => ?_⟩
      · rw [likeValue_backslash]
        exact hkept
      · rw [likeValue_backslash, if_pos rfl, List.singleton_append, likePattern_escaped, hkept,
          searchPattern_backslash (by decide)]
        rfl
    · have hwild : ¬(c = percent ∨ c = underscore) := fun h => h.elim hc.1 hc.2.1
      refine ⟨?_, fun _ => ?_⟩
      · rw [likeValue_plain hascii hc, if_neg Bool.false_ne_true, List.nil_append,
          likePattern_other hc.2.2, hfalse, searchPattern_other hc.2.2]
        rfl
      · rw [likeValue_plain hascii hc, if_pos rfl, List.singleton_append, likePattern_escaped,
          likePattern_other hc.2.2, hfalse, searchPattern_backslash hwild,
          searchPattern_other hc.2.2]
        rfl

theorem keepsBackslashes_cons (hc : c ≠ backslash) :
    KeepsBackslashes (c :: text) ↔ KeepsBackslashes text := by
  cases text with
  | nil => simp [KeepsBackslashes]
  | cons d text => simp [KeepsBackslashes, List.isChain_cons_cons, hc]

theorem keepsBackslashes_backslash (hd : IsAscii d = true) :
    KeepsBackslashes (backslash :: d :: text) ↔ KeepsBackslashes (d :: text) := by
  simp [KeepsBackslashes, List.isChain_cons_cons, hd]

/-- The literals of the search pattern. -/
def literalCount (text : List Chr) : ℕ := (literals (searchPattern text)).length

theorem literals_element (h : ¬(c = percent ∨ c = underscore)) (p : List (Element Chr)) :
    (literals (element c :: p)).length = (literals p).length + 1 := by
  rw [not_or] at h
  rw [element, if_neg h.1, if_neg h.2]
  rfl

theorem literals_wildcard (h : c = percent ∨ c = underscore) (p : List (Element Chr)) :
    literals (element c :: p) = literals p := by
  rcases h with rfl | rfl <;> rfl

theorem literalCount_wildcard (h : c = percent ∨ c = underscore) (text : List Chr) :
    literalCount (c :: text) = literalCount text ∧
      literalCount (backslash :: c :: text) = literalCount text + 1 := by
  have hne : c ≠ backslash := by
    rcases h with rfl | rfl <;> decide
  rw [literalCount, literalCount, literalCount, searchPattern_other hne, searchPattern_wildcard h,
    literals_wildcard h]
  exact ⟨rfl, rfl⟩

theorem literalCount_other (hwild : ¬(c = percent ∨ c = underscore)) (hc : c ≠ backslash)
    (text : List Chr) :
    literalCount (c :: text) = literalCount text + 1 ∧
      literalCount (backslash :: c :: text) = literalCount text + 2 := by
  have hone : literalCount (c :: text) = literalCount text + 1 := by
    rw [literalCount, searchPattern_other hc, literals_element hwild]
    rfl
  have hmore : literalCount (backslash :: c :: text) = literalCount (c :: text) + 1 := by
    rw [literalCount, searchPattern_backslash hwild]
    rfl
  exact ⟨hone, by omega⟩

theorem literalCount_backslash (text : List Chr) :
    literalCount (backslash :: backslash :: text) = literalCount (backslash :: text) + 1 := by
  rw [literalCount, searchPattern_backslash (by decide)]
  rfl

/-- What is read from the value has no more literals than the search pattern, and fewer where a
backslash stands in front of a character outside ASCII: outside the reach of a backslash, behind
one, and while the flag of one that was lost is set. -/
theorem literals_lost (text : List Chr) :
    (∀ p, likePattern (likeValue false text) = some p →
      (literals p).length ≤ literalCount text ∧
        (¬KeepsBackslashes text → (literals p).length < literalCount text)) ∧
    (∀ p, likePattern (backslash :: likeValue true text) = some p →
      (literals p).length ≤ literalCount (backslash :: text) ∧
        (¬KeepsBackslashes (backslash :: text) →
          (literals p).length < literalCount (backslash :: text))) ∧
    (∀ p, likePattern (likeValue true text) = some p →
      (literals p).length ≤ literalCount text ∧
        (literals p).length < literalCount (backslash :: text)) := by
  induction text with
  | nil =>
    refine ⟨?_, ?_, ?_⟩
    · rintro p ⟨⟩
      exact ⟨Nat.le_refl _, fun h => absurd List.IsChain.nil h⟩
    · rintro p ⟨⟩
      exact ⟨Nat.le_refl _, fun h => absurd (List.IsChain.singleton _) h⟩
    · rintro p ⟨⟩
  | cons c text ih =>
    obtain ⟨hfalse, htrue, hlost⟩ := ih
    rcases kinds c with hc | hc | rfl | ⟨hascii, hc⟩
    · have hne : c ≠ backslash := by
        rintro rfl
        cases hc
      have hwild : ¬(c = percent ∨ c = underscore) := by
        rintro (rfl | rfl) <;> cases hc
      obtain ⟨hone, htwo⟩ := literalCount_other hwild hne text
      rw [likeValue_beyond hc, likeValue_beyond hc, likePattern_other hne, likePattern_other hne,
        likePattern_escaped, keepsBackslashes_cons hne]
      simp only [Option.map_eq_some_iff]
      refine ⟨?_, ?_, ?_⟩
      · rintro _ ⟨p, hp, rfl⟩
        have hle := hfalse p hp
        rw [literals_element hwild, hone]
        exact ⟨by omega, fun hlose => by have := hle.2 hlose; omega⟩
      · -- The backslash is lost here.
        rintro _ ⟨p, hp, rfl⟩
        have hle := hlost p hp
        rw [literals, List.length_cons, htwo]
        exact ⟨by omega, fun _ => by omega⟩
      · rintro _ ⟨p, hp, rfl⟩
        have hle := hlost p hp
        rw [literals_element hwild, hone, htwo]
        exact ⟨by omega, by omega⟩
    · have hne : c ≠ backslash := by
        rcases hc with rfl | rfl <;> decide
      have hascii : IsAscii c = true := by
        rcases hc with rfl | rfl <;> decide
      obtain ⟨hsame, hone⟩ := literalCount_wildcard hc text
      rw [likeValue_wildcard hc, likeValue_wildcard hc, likePattern_other hne,
        likePattern_escaped, keepsBackslashes_backslash hascii, keepsBackslashes_cons hne]
      simp only [Option.map_eq_some_iff]
      refine ⟨?_, ?_, ?_⟩
      · rintro _ ⟨p, hp, rfl⟩
        rw [literals_wildcard hc, hsame]
        exact hfalse p hp
      · rintro _ ⟨p, hp, rfl⟩
        have hle := hfalse p hp
        rw [literals, List.length_cons, hone]
        exact ⟨by omega, fun hlose => by have := hle.2 hlose; omega⟩
      · rintro _ ⟨p, hp, rfl⟩
        have hle := hfalse p hp
        rw [literals_wildcard hc, hsame, hone]
        exact ⟨by omega, by omega⟩
    · have htwo := literalCount_backslash text
      rw [likeValue_backslash, likeValue_backslash, if_neg Bool.false_ne_true, if_pos rfl,
        List.nil_append, List.singleton_append, likePattern_escaped,
        likePattern_escaped, keepsBackslashes_backslash (by decide)]
      simp only [Option.map_eq_some_iff]
      refine ⟨htrue, ?_, ?_⟩
      · rintro _ ⟨p, hp, rfl⟩
        have hle := htrue p hp
        rw [literals, List.length_cons, htwo]
        exact ⟨by omega, fun hlose => by have := hle.2 hlose; omega⟩
      · rintro _ ⟨p, hp, rfl⟩
        have hle := hlost p hp
        rw [literals, List.length_cons, htwo]
        exact ⟨by omega, by omega⟩
    · have hwild : ¬(c = percent ∨ c = underscore) := fun h => h.elim hc.1 hc.2.1
      obtain ⟨hone, htwo⟩ := literalCount_other hwild hc.2.2 text
      rw [likeValue_plain hascii hc, likeValue_plain hascii hc, if_neg Bool.false_ne_true,
        if_pos rfl, List.nil_append, List.singleton_append, likePattern_other hc.2.2,
        likePattern_escaped, likePattern_escaped, likePattern_other hc.2.2,
        keepsBackslashes_backslash hascii, keepsBackslashes_cons hc.2.2]
      simp only [Option.map_eq_some_iff]
      refine ⟨?_, ?_, ?_⟩
      · rintro _ ⟨p, hp, rfl⟩
        have hle := hfalse p hp
        rw [literals_element hwild, hone]
        exact ⟨by omega, fun hlose => by have := hle.2 hlose; omega⟩
      · rintro _ ⟨_, ⟨p, hp, rfl⟩, rfl⟩
        have hle := hfalse p hp
        rw [literals, List.length_cons, literals_element hwild, htwo]
        exact ⟨by omega, fun hlose => by have := hle.2 hlose; omega⟩
      · rintro _ ⟨p, hp, rfl⟩
        have hle := hfalse p hp
        rw [literals, List.length_cons, hone, htwo]
        exact ⟨by omega, by omega⟩

/-! ### The characters of patterns -/

theorem mem_element {p : List (Element Chr)} (h : c ∈ literals (element d :: p)) :
    c = d ∨ c ∈ literals p := by
  rw [element] at h
  split at h
  · exact .inr h
  split at h
  · exact .inr h
  · exact List.mem_cons.mp h

theorem mem_searchPattern (h : c ∈ literals (searchPattern text)) : c ∈ text := by
  induction text using searchPattern.induct with
  | case1 => cases h
  | case2 d =>
    rcases mem_element h with rfl | h
    · exact List.mem_cons_self
    · cases h
  | case3 d e text hwild ih =>
    rw [searchPattern, if_pos hwild] at h
    rcases List.mem_cons.mp h with rfl | h
    · simp
    · simp [ih h]
  | case4 d e text hwild ih =>
    rw [searchPattern, if_neg hwild] at h
    rcases mem_element h with rfl | h
    · exact List.mem_cons_self
    · exact List.mem_cons_of_mem _ (ih h)

theorem mem_likePattern {p : List (Element Chr)} (hp : likePattern text = some p)
    (h : c ∈ literals p) : c ∈ text := by
  induction text using likePattern.induct generalizing p with
  | case1 =>
    cases hp
    cases h
  | case2 => cases hp
  | case3 d hd =>
    rw [likePattern, if_neg hd] at hp
    cases hp
    rcases mem_element h with rfl | h
    · exact List.mem_cons_self
    · cases h
  | case4 e text ih =>
    rw [likePattern_escaped] at hp
    obtain ⟨q, hq, rfl⟩ := Option.map_eq_some_iff.mp hp
    rcases List.mem_cons.mp h with rfl | h
    · simp
    · simp [ih hq h]
  | case5 d e text hd ih =>
    rw [likePattern_other hd] at hp
    obtain ⟨q, hq, rfl⟩ := Option.map_eq_some_iff.mp hp
    rcases mem_element h with rfl | h
    · exact List.mem_cons_self
    · exact List.mem_cons_of_mem _ (ih hq h)

theorem mem_likeValue (h : c ∈ likeValue escape_in text) : c = backslash ∨ c ∈ text := by
  induction text generalizing escape_in with
  | nil =>
    rw [likeValue] at h
    split at h
    · exact .inl (List.mem_singleton.mp h)
    · cases h
  | cons d text ih =>
    have hrest : ∀ {escape_in}, c ∈ d :: likeValue escape_in text → c = backslash ∨ c ∈ d :: text := by
      intro escape_in hc
      rcases List.mem_cons.mp hc with rfl | hc
      · exact .inr List.mem_cons_self
      · exact (ih hc).imp_right (List.mem_cons_of_mem d)
    rw [likeValue] at h
    split at h
    · rcases List.mem_append.mp h with h | h
      · split at h
        · exact .inl (List.mem_singleton.mp h)
        · cases h
      · exact hrest h
    · exact hrest h

/-! ### Names -/

section Names

variable {conn : ConnectionClass} {s : Server.Settings} {after : List Byte} {srclen : ℤ}

/-- The length of the pattern is given, or a terminator follows it. -/
def Given (srclen : ℤ) (text : List Chr) (after : List Byte) : Prop :=
  srclen = text.flatten.length ∨ srclen = SQL_NTS ∧ after.head? = some 0

/-- The text fits into the memory allocated for it, the server reads it as a literal, and `like` holds
of just the names that the search pattern matches. -/
def MatchesAlike (s : Server.Settings) (conn : ConnectionClass) (text : List Chr)
    (after : List Byte) (srclen : ℤ) : Prop :=
  ∃ dest, adjustLikePattern conn (some (text.flatten ++ after)) srclen = some dest ∧
    dest.length + 1 ≤ 4 * text.flatten.length + 1 ∧
    ∃ value, ReadsBack s conn.ccsc ((likeClause conn dest).drop (ascii "like ").length) value ∧
      ∀ name, WellFormed conn.ccsc name → (Like value name ↔ Matches (searchPattern text) name)

theorem adjustLikePattern_eq (hwf : WellFormed conn.ccsc text) (hgiven : Given srclen text after) :
    adjustLikePattern conn (some (text.flatten ++ after)) srclen =
      some (likeChars conn.ccsc conn.escape_in_literal 0 false text.flatten) := by
  have hzero : ∀ b ∈ text.flatten, b ≠ 0 := by
    intro b hb
    obtain ⟨c, hc, hbc⟩ := List.mem_flatten.mp hb
    exact ne_zero_of_isChar (hwf c hc) b hbc
  rw [adjustLikePattern, Option.bind_some]
  rcases hgiven with rfl | ⟨rfl, hnul⟩
  · have hnull : (text.flatten.length : ℤ) ≠ SQL_NULL_DATA := by
      rw [SQL_NULL_DATA]
      omega
    have hnts : (text.flatten.length : ℤ) ≠ SQL_NTS := by
      rw [SQL_NTS]
      omega
    rw [if_neg hnull, if_neg hnts, if_neg (by omega), Int.toNat_natCast, List.take_left]
  · obtain ⟨after, rfl⟩ := List.head?_eq_some_iff.mp hnul
    have hlen : ((text.flatten ++ 0 :: after).takeWhile (· ≠ 0)) = text.flatten := by
      rw [List.takeWhile_append_of_pos (by simpa using hzero)]
      simp
    rw [if_neg (by decide), if_pos rfl, hlen, if_neg (by omega), Int.toNat_natCast,
      List.take_left]

/-- What the server reads. -/
theorem readsBack_clause
    (hsync : conn.escape_in_literal = if s.standard_conforming_strings then 0 else BACKSLASH)
    (hwf : WellFormed conn.ccsc text) (hsees : conn.ccsc = .johab → SeesAscii conn.ccsc 0 text) :
    ReadsBack s conn.ccsc
      ((likeClause conn (likeChars conn.ccsc conn.escape_in_literal 0 false text.flatten)).drop
        (ascii "like ").length) (likeValue false text) := by
  have hesc : conn.escape_in_literal = 0 ∨ conn.escape_in_literal = BACKSLASH := by
    rw [hsync]
    split <;> simp
  have hseen : SeesAscii conn.ccsc 0 text := by
    by_cases hjohab : conn.ccsc = .johab
    · exact hsees hjohab
    · exact inStep_of_ne_johab hjohab (fun b hb => by simpa using hb) Nat.zero_lt_two hwf
  have hvalue : WellFormed conn.ccsc (likeValue false text) := by
    intro c hc
    rcases mem_likeValue hc with rfl | hc
    · exact isChar_ascii conn.ccsc (by decide) (by decide)
    · exact hwf c hc
  have htext : (likeClause conn (likeChars conn.ccsc conn.escape_in_literal 0 false
      text.flatten)).drop (ascii "like ").length =
      (extension conn ++ quote :: (escape (conn.escape_in_literal ≠ 0) (likeValue false text) ++
        [quote])).flatten := by
    rw [likeChars_text hesc hseen, likeClause, gen_opestr, extension, initFlags]
    dsimp only
    rw [if_neg (by decide)]
    split <;> simp [ascii, quote, LITERAL_QUOTE, LITERAL_EXT]
  rw [htext]
  exact readsBack_escape hsync hvalue

/-- What is kept of a pattern that is matched alike. -/
theorem keepsBackslashes_of_matchesAlike
    (hsync : conn.escape_in_literal = if s.standard_conforming_strings then 0 else BACKSLASH)
    (hwf : WellFormed conn.ccsc text) (hgiven : Given srclen text after)
    (hsees : conn.ccsc = .johab → SeesAscii conn.ccsc 0 text)
    (h : MatchesAlike s conn text after srclen) : KeepsBackslashes text := by
  obtain ⟨dest, hdest, -, value, hread, halike⟩ := h
  rw [adjustLikePattern_eq hwf hgiven, Option.some_inj] at hdest
  subst hdest
  obtain rfl := hread.unique (readsBack_clause hsync hwf hsees)
  by_contra hlost
  have hchar : ∀ b : Byte, b ≠ 0 → b.toNat < 0x80 → isChar conn.ccsc [b] = true := fun b =>
    isChar_ascii conn.ccsc
  cases hp : likePattern (likeValue false text) with
  | none =>
    -- No name is found, while the search pattern matches its shortest match.
    have hname : WellFormed conn.ccsc (Wildcard.leastMatch [0x61] (searchPattern text)) := by
      intro c hc
      rcases Wildcard.mem_leastMatch hc with rfl | hc
      · exact hchar 0x61 (by decide) (by decide)
      · exact hwf c (mem_searchPattern hc)
    obtain ⟨p, hp', -⟩ := (halike _ hname).mpr (Wildcard.matches_leastMatch _ _)
    rw [hp] at hp'
    cases hp'
  | some p =>
    obtain ⟨c, -, hmatch⟩ :=
      Wildcard.exists_match_not_match (((literals_lost text).1 p hp).2 hlost)
    obtain ⟨filler, hne, hfiller⟩ : ∃ filler : Chr, c ≠ filler ∧ isChar conn.ccsc filler = true := by
      by_cases hc : c = [0x61]
      · exact ⟨[0x62], by rw [hc]; decide, hchar 0x62 (by decide) (by decide)⟩
      · exact ⟨[0x61], hc, hchar 0x61 (by decide) (by decide)⟩
    have hname : WellFormed conn.ccsc (Wildcard.leastMatch filler p) := by
      intro d hd
      rcases Wildcard.mem_leastMatch hd with rfl | hd
      · exact hfiller
      · rcases mem_likeValue (mem_likePattern hp hd) with rfl | hd
        · exact hchar 0x5c (by decide) (by decide)
        · exact hwf d hd
    obtain ⟨hmatch, hnot⟩ := hmatch filler hne
    exact hnot ((halike _ hname).mp ⟨p, hp, hmatch⟩)

end Names

end OdbcDriver.LikePattern
