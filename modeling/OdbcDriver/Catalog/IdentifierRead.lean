import OdbcDriver.Catalog.IdentifierEscape
import OdbcDriver.Lib.Delimited
import OdbcDriver.Param.SpecialChars

/-!
# An escaped identifier read back

The driver writes an escaped name into a literal. A name that is not quoted is the value of the
literal; a quoted one is an identifier, which the server reads from that value.

* `readAs_iff`: what is read as a name is the name as the server expects it to be written;
* `whole_eq_iff`: this is what is written just where the driver sees which bytes to double;
* `identifierEscape_iff`: when a call is right.
-/

namespace OdbcDriver.Identifier

open Server (escape escape_cons quote backslash readBody readLiteral)
open Delimited (double readDelimited)
open Lib (error_bind)

/-! ### Reading -/

def identifierQuote : Chr := [IDENTIFIER_QUOTE]

/-- The server's setting is the one that the connection goes by. -/
def Synced (s : Server.Settings) (conn : ConnectionClass) : Prop :=
  conn.escape_in_literal = if s.standard_conforming_strings then 0 else BACKSLASH

/-- The name that the value of a literal stands for. -/
def nameOf (double_quote : Bool) (value : List Chr) : Option (List Chr) :=
  if double_quote then
    match value with
    | [] => none
    | c :: value =>
      if c = identifierQuote then
        match readDelimited identifierQuote value with
        | some (name, []) => some name
        | _ => none
      else none
  else some value

/-- Every server whose setting is the connection's, in a literal with an `E` or without one, reads
the name. -/
def ReadAs (conn : ConnectionClass) (double_quote : Bool) (dest : List Byte) (name : List Chr) :
    Prop :=
  ∀ s, Synced s conn → ∀ lead, lead = [] ∨ lead = extension conn →
    ∃ value, ReadsBack s conn.ccsc
      (lead.flatten ++ LITERAL_QUOTE :: (dest ++ [LITERAL_QUOTE])) value ∧
      nameOf double_quote value = some name

/-- The value that stands for a name. -/
def valueOf (double_quote : Bool) (name : List Chr) : List Chr :=
  if double_quote then identifierQuote :: (double identifierQuote name ++ [identifierQuote])
  else name

variable {conn : ConnectionClass} {dq : Bool} {dest : List Byte} {name value : List Chr}

theorem nameOf_eq_some_iff : nameOf dq value = some name ↔ value = valueOf dq name := by
  cases dq with
  | false => exact Option.some_inj
  | true =>
    have hread : ∀ rest : List Chr, readDelimited identifierQuote rest = some (name, []) ↔
        rest = double identifierQuote name ++ [identifierQuote] := by
      intro rest
      rw [Delimited.readDelimited_iff]
      simp
    rw [valueOf, if_pos rfl]
    cases value with
    | nil => simp [nameOf]
    | cons c rest =>
      rw [List.cons.injEq, ← hread]
      by_cases hc : c = identifierQuote
      · rw [nameOf, if_pos rfl]
        simp only [hc, if_true, true_and]
        split
        · rename_i name' hname
          rw [hname, Option.some_inj, Option.some_inj, Prod.mk.injEq, and_iff_left rfl]
        · rename_i hother
          exact ⟨fun h => absurd h (by simp), fun h => absurd h (hother name)⟩
      · rw [nameOf, if_pos rfl]
        simp [hc]

/-! ### What the server expects -/

/-- The settings of a server that knows no escape sequence but the double backslash. -/
def plainServer (conn : ConnectionClass) : Server.Settings where
  standard_conforming_strings := conn.escape_in_literal = 0
  escapeSequence _ := none

theorem synced_plainServer
    (hesc : conn.escape_in_literal = 0 ∨ conn.escape_in_literal = BACKSLASH) :
    Synced (plainServer conn) conn := by
  rw [Synced, plainServer]
  rcases hesc with h | h
  · rw [h]
    rfl
  · rw [h]
    rfl

theorem readLiteral_lead {s : Server.Settings} (hsync : Synced s conn) {lead : List Chr}
    (hlead : lead = [] ∨ lead = extension conn) (body : List Chr) :
    readLiteral s (lead ++ quote :: body) =
      readBody s (conn.escape_in_literal ≠ 0) body.length body := by
  have hescapes : (!s.standard_conforming_strings) = decide (conn.escape_in_literal ≠ 0) := by
    rw [hsync]
    cases s.standard_conforming_strings <;> rfl
  have hplain : readLiteral s (quote :: body) =
      readBody s (conn.escape_in_literal ≠ 0) body.length body := by
    simp only [readLiteral, if_true, hescapes]
  rcases hlead with rfl | rfl
  · exact hplain
  rw [extension]
  split
  · rename_i hext
    have hon : decide (conn.escape_in_literal ≠ 0) = true :=
      (Bool.and_eq_true_iff.mp hext).1
    rw [hon]
    rfl
  · exact hplain

theorem wellFormed_valueOf (h : WellFormed conn.ccsc name) :
    WellFormed conn.ccsc (valueOf dq name) := by
  have hquote : isChar conn.ccsc identifierQuote = true :=
    isChar_ascii conn.ccsc (by decide) (by decide)
  rw [valueOf]
  split
  · intro c hc
    rcases List.mem_cons.mp hc with rfl | hc
    · exact hquote
    rcases List.mem_append.mp hc with hc | hc
    · obtain ⟨d, hd, hc⟩ := List.mem_flatMap.mp hc
      have hcd : c = d := by
        split at hc <;> simpa using hc
      exact hcd ▸ h d hd
    · exact List.mem_singleton.mp hc ▸ hquote
  · exact h

/-- A name is read from the value that stands for it, escaped, and from nothing else. -/
theorem readAs_iff (hesc : conn.escape_in_literal = 0 ∨ conn.escape_in_literal = BACKSLASH)
    (hname : WellFormed conn.ccsc name) :
    ReadAs conn dq dest name ↔
      dest = (escape (conn.escape_in_literal ≠ 0) (valueOf dq name)).flatten := by
  constructor
  · intro h
    obtain ⟨value, hread, hvalue⟩ := h _ (synced_plainServer hesc) [] (.inl rfl)
    rw [nameOf_eq_some_iff] at hvalue
    subst hvalue
    have hall := hread [] (List.forall_mem_nil _) (by simp)
    have hquote : LITERAL_QUOTE :: (dest ++ [LITERAL_QUOTE]) =
      quote ++ (dest ++ [LITERAL_QUOTE]) := rfl
    simp only [List.flatten_nil, List.append_nil, List.nil_append] at hall
    rw [hquote, decode_append (isChar_quote conn.ccsc), Option.bind_eq_some_iff] at hall
    obtain ⟨text, htext, hlit⟩ := hall
    obtain ⟨body, hbody, rfl⟩ := Option.map_eq_some_iff.mp htext
    have hlead := readLiteral_lead (synced_plainServer hesc) (.inl rfl) body
    rw [List.nil_append, hlit] at hlead
    have hescaped := Server.eq_escape_of_readBody (fun _ => rfl) hlead.symm
    have hflat := flatten_of_decode hbody
    rw [hescaped, List.flatten_append] at hflat
    exact (List.append_cancel_right hflat).symm
  · rintro rfl s hsync lead hlead
    refine ⟨valueOf dq name, fun rest hrest hnext => ?_, nameOf_eq_some_iff.mpr rfl⟩
    have hflat : lead.flatten ++ LITERAL_QUOTE ::
        ((escape (conn.escape_in_literal ≠ 0) (valueOf dq name)).flatten ++ [LITERAL_QUOTE]) ++
          rest.flatten =
        (lead ++ quote ::
          (escape (conn.escape_in_literal ≠ 0) (valueOf dq name) ++ quote :: rest)).flatten := by
      simp [quote, LITERAL_QUOTE]
    have hall : WellFormed conn.ccsc (lead ++ quote ::
        (escape (conn.escape_in_literal ≠ 0) (valueOf dq name) ++ quote :: rest)) := by
      intro c hc
      rcases List.mem_append.mp hc with hc | hc
      · rcases hlead with rfl | rfl
        · cases hc
        · exact wellFormed_extension conn c hc
      rcases List.mem_cons.mp hc with rfl | hc
      · exact isChar_quote _
      rcases List.mem_append.mp hc with hc | hc
      · exact wellFormed_escape (wellFormed_valueOf hname) c hc
      rcases List.mem_cons.mp hc with rfl | hc
      · exact isChar_quote _
      · exact hrest c hc
    rw [hflat, decode_flatten hall, Option.bind_some, readLiteral_lead hsync hlead]
    exact Server.readBody_escape s _ hnext (Nat.le_refl _)

/-! ### What is doubled -/

/-- The characters that the server expects to be doubled. -/
def Doubled (esc : Byte) (dq : Bool) (c : Chr) : Prop :=
  c = quote ∨ (esc ≠ 0 ∧ c = backslash) ∨ (dq = true ∧ c = identifierQuote)

instance (esc : Byte) (dq : Bool) (c : Chr) : Decidable (Doubled esc dq c) :=
  inferInstanceAs (Decidable (_ ∨ _ ∧ _ ∨ _ ∧ _))

/-- A name with these characters doubled. -/
def doubledName (esc : Byte) (dq : Bool) (name : List Chr) : List Chr :=
  name.flatMap fun c => if Doubled esc dq c then [c, c] else [c]

variable {ccsc : Ccsc} {esc : Byte} {stat : ℕ} {b : Byte} {c : Chr} {text : List Chr}

theorem doubledName_cons (c : Chr) (text : List Chr) :
    doubledName esc dq (c :: text) =
      (if Doubled esc dq c then [c, c] else [c]) ++ doubledName esc dq text := rfl

/-- The name as the server expects it. -/
theorem escape_valueOf (name : List Chr) :
    (escape (esc ≠ 0) (valueOf dq name)).flatten =
      quotes dq ++ (doubledName esc dq name).flatten ++ quotes dq := by
  have hquote : ¬(identifierQuote = quote ∨ (decide (esc ≠ 0) = true ∧
      identifierQuote = backslash)) := by
    rintro (h | ⟨-, h⟩)
    · exact absurd h (by decide)
    · exact absurd h (by decide)
  cases dq with
  | false =>
    have hname : escape (esc ≠ 0) name = doubledName esc false name := by
      refine List.flatMap_congr fun c _ => if_congr ?_ rfl rfl
      simp [Doubled]
    have hvalue : valueOf false name = name := if_neg Bool.false_ne_true
    rw [hvalue, hname]
    simp [quotes]
  | true =>
    have hname : escape (esc ≠ 0) (double identifierQuote name) = doubledName esc true name := by
      induction name with
      | nil => rfl
      | cons c name ih =>
        rw [doubledName_cons]
        by_cases hc : c = identifierQuote
        · rw [hc, Delimited.double_delimiter, escape_cons, escape_cons, if_neg hquote, ih,
            if_pos (.inr (.inr ⟨rfl, rfl⟩))]
          rfl
        · rw [Delimited.double_other hc, escape_cons, ih]
          refine congrArg (· ++ _) (if_congr ?_ rfl rfl)
          simp [Doubled, hc]
    have hvalue : valueOf true name =
        identifierQuote :: (double identifierQuote name ++ [identifierQuote]) := if_pos rfl
    have happend : escape (esc ≠ 0) (double identifierQuote name ++ [identifierQuote]) =
        escape (esc ≠ 0) (double identifierQuote name) ++ escape (esc ≠ 0) [identifierQuote] :=
      List.flatMap_append
    rw [hvalue, escape_cons, if_neg hquote, happend, escape_cons, if_neg hquote, hname]
    simp [quotes, identifierQuote]

theorem doubled_singleton (hesc : esc = 0 ∨ esc = BACKSLASH) (hb : b ≠ 0) :
    Doubled esc dq [b] ↔ isDoubled esc dq b = true := by
  rw [isDoubled_iff, Doubled]
  rcases hesc with rfl | rfl
  · simp [quote, identifierQuote, LITERAL_QUOTE, hb]
  · simp [quote, backslash, identifierQuote, LITERAL_QUOTE, BACKSLASH, or_assoc]

theorem not_doubled_long {a : Byte} : ¬Doubled esc dq (a :: b :: c) := by
  simp [Doubled, quote, backslash, identifierQuote]

/-- What is doubled is ASCII. -/
theorem lt_of_isDoubled (hesc : esc = 0 ∨ esc = BACKSLASH) (h : isDoubled esc dq b = true) :
    b.toNat < 0x80 := by
  rw [isDoubled_iff] at h
  rcases h with (rfl | rfl) | ⟨-, rfl⟩
  · decide
  · rcases hesc with rfl | rfl
    · decide
    · decide
  · decide

/-! ### What is written -/

theorem pieces_append (s t : List Byte) :
    pieces ccsc esc dq stat (s ++ t) =
      pieces ccsc esc dq stat s ++ pieces ccsc esc dq (statAfter ccsc stat s) t := by
  induction s generalizing stat with
  | nil => rfl
  | cons b s ih =>
    rw [List.cons_append, pieces, pieces, ih]
    rfl

/-- What is written for a text, from a state on. -/
def escaped (ccsc : Ccsc) (esc : Byte) (dq : Bool) (stat : ℕ) (text : List Chr) : List Byte :=
  (pieces ccsc esc dq stat text.flatten).flatten

theorem escaped_cons (c : Chr) (text : List Chr) :
    escaped ccsc esc dq stat (c :: text) =
      (pieces ccsc esc dq stat c).flatten ++ escaped ccsc esc dq (statAfter ccsc stat c) text := by
  rw [escaped, List.flatten_cons, pieces_append, List.flatten_append]
  rfl

theorem escaped_single (b : Byte) (text : List Chr) :
    escaped ccsc esc dq stat ([b] :: text) =
      piece esc dq (nextStat ccsc stat b) b ++
        escaped ccsc esc dq (nextStat ccsc stat b) text := by
  rw [escaped_cons, pieces, pieces, List.flatten_cons, List.flatten_nil, List.append_nil]
  rfl

theorem piece_plain (h : isDoubled esc dq b = true → nonAscii stat b = true) :
    piece esc dq stat b = [b] := by
  rw [piece]
  split
  · rfl
  · rename_i hnon
    rw [if_neg fun hb => hnon (h hb)]

theorem piece_doubled (h : isDoubled esc dq b = true) (hnon : nonAscii stat b = false) :
    piece esc dq stat b = [b, b] := by
  rw [piece, hnon, if_neg Bool.false_ne_true, if_pos h]

/-- Where the driver sees no byte to double, it copies. -/
theorem pieces_passes {s : List Byte} (h : Passes ccsc (isDoubled esc dq) stat s) :
    (pieces ccsc esc dq stat s).flatten = s := by
  induction s generalizing stat with
  | nil => rfl
  | cons b s ih => rw [pieces, List.flatten_cons, piece_plain h.1, ih h.2, List.singleton_append]

/-- Where the driver sees which bytes to double, it writes what the server expects. -/
theorem escaped_eq (hesc : esc = 0 ∨ esc = BACKSLASH) (hwf : WellFormed ccsc text)
    (hstep : InStep ccsc (isDoubled esc dq) stat text) :
    escaped ccsc esc dq stat text = (doubledName esc dq text).flatten := by
  induction text generalizing stat with
  | nil => rfl
  | cons c text ih =>
    obtain ⟨hc, hwf⟩ := wellFormed_cons.mp hwf
    obtain ⟨hhead, hstep⟩ := hstep
    rw [doubledName_cons, List.flatten_append, ← ih hwf hstep]
    match c, hc with
    | [b], hc =>
      have hb : b ≠ 0 := by simpa using ne_zero_of_isChar hc
      rw [escaped_single]
      refine congrArg₂ (· ++ ·) ?_ rfl
      by_cases hdoubled : isDoubled esc dq b = true
      · rw [piece_doubled hdoubled (hhead hdoubled),
          if_pos ((doubled_singleton hesc hb).mpr hdoubled)]
        rfl
      · rw [piece_plain fun h => absurd h hdoubled,
          if_neg (mt (doubled_singleton hesc hb).mp hdoubled)]
        rfl
    | a :: b :: c, hc =>
      rw [escaped_cons, pieces_passes hhead, if_neg not_doubled_long]
      simp

/-! ### What is written otherwise -/

theorem escaped_head {a : Byte} :
    ∃ l, escaped ccsc esc dq stat ((a :: c) :: text) = a :: l := by
  have hpiece : ∃ l, piece esc dq (nextStat ccsc stat a) a = a :: l := by
    rw [piece]
    split
    · exact ⟨_, rfl⟩
    · split <;> exact ⟨_, rfl⟩
  obtain ⟨l, hl⟩ := hpiece
  rw [escaped_cons, pieces, List.flatten_cons, hl]
  exact ⟨_, rfl⟩

theorem doubledName_head {a : Byte} :
    ∃ l, (doubledName esc dq ((a :: c) :: text)).flatten = a :: l := by
  rw [doubledName_cons]
  split <;> exact ⟨_, rfl⟩

theorem doubledName_doubled (hesc : esc = 0 ∨ esc = BACKSLASH) (hb : isDoubled esc dq b = true)
    (hb0 : b ≠ 0) :
    (doubledName esc dq ([b] :: text)).flatten = b :: b :: (doubledName esc dq text).flatten := by
  rw [doubledName_cons, if_pos ((doubled_singleton hesc hb0).mpr hb)]
  rfl

/-- A byte that has not been doubled is not made up for. -/
theorem escaped_ne_replicate (hesc : esc = 0 ∨ esc = BACKSLASH) (hb : isDoubled esc dq b = true)
    (hb0 : b ≠ 0) (hwf : WellFormed ccsc text) (j : ℕ) :
    escaped ccsc esc dq stat text ≠
      List.replicate (j + 1) b ++ (doubledName esc dq text).flatten := by
  have hshift : ∀ (n : ℕ) (l : List Byte),
      List.replicate n b ++ b :: l = List.replicate (n + 1) b ++ l := by
    intro n l
    rw [List.replicate_succ', List.append_assoc]
    rfl
  induction text generalizing stat j with
  | nil => exact fun h => absurd h.symm (by simp [escaped, pieces])
  | cons c text ih =>
    intro h
    obtain ⟨hc, htext⟩ := wellFormed_cons.mp hwf
    rcases c with _ | ⟨a, _ | ⟨a', c⟩⟩
    · simp [isChar] at hc
    · obtain ⟨l, hl⟩ : ∃ l, escaped ccsc esc dq stat ([a] :: text) = a :: l := escaped_head
      have hab : a = b := by
        rw [hl, List.replicate_succ, List.cons_append, List.cons.injEq] at h
        exact h.1
      subst hab
      rw [escaped_single, doubledName_doubled hesc hb hb0, hshift, hshift] at h
      cases hnon : nonAscii (nextStat ccsc stat a) a with
      | true =>
        rw [piece_plain fun _ => hnon] at h
        exact ih htext (j + 1) (List.cons.inj h).2
      | false =>
        rw [piece_doubled hb hnon] at h
        exact ih htext j (List.cons.inj (List.cons.inj h).2).2
    · obtain ⟨l, hl⟩ : ∃ l, escaped ccsc esc dq stat ((a :: a' :: c) :: text) = a :: l :=
        escaped_head
      rw [hl, List.replicate_succ, List.cons_append, List.cons.injEq] at h
      have hlow := lt_of_isDoubled hesc hb
      have hhigh := head_of_isChar hc
      rw [h.1] at hhigh
      omega

/-- Nor is one that has been doubled and should not have been. -/
theorem cons_escaped_ne (hesc : esc = 0 ∨ esc = BACKSLASH) (hb : isDoubled esc dq b = true)
    (hb0 : b ≠ 0) (hwf : WellFormed ccsc text) :
    b :: escaped ccsc esc dq 0 text ≠ (doubledName esc dq text).flatten := by
  have hlow := lt_of_isDoubled hesc hb
  induction text with
  | nil => exact List.cons_ne_nil _ _
  | cons c text ih =>
    intro h
    obtain ⟨hc, htext⟩ := wellFormed_cons.mp hwf
    match c, hc with
    | a :: a' :: c, hc =>
      obtain ⟨l, hl⟩ : ∃ l, (doubledName esc dq ((a :: a' :: c) :: text)).flatten = a :: l :=
        doubledName_head
      rw [hl, List.cons.injEq] at h
      have hhigh := head_of_isChar hc
      rw [← h.1] at hhigh
      omega
    | [a], hc =>
      obtain ⟨l, hl⟩ : ∃ l, (doubledName esc dq ([a] :: text)).flatten = a :: l := doubledName_head
      have hab : b = a := by
        rw [hl, List.cons.injEq] at h
        exact h.1
      subst hab
      have hstat : nextStat ccsc 0 b = 0 := pg_CS_stat_ascii ccsc Nat.zero_lt_two hlow
      have hnon : nonAscii 0 b = false := by simpa [nonAscii] using hlow
      rw [escaped_single, hstat, piece_doubled hb hnon, doubledName_doubled hesc hb hb0] at h
      exact ih htext (List.cons.inj (List.cons.inj h).2).2

/-- The driver writes what the server expects only where it sees which bytes to double. -/
theorem inStep_of_escaped (hesc : esc = 0 ∨ esc = BACKSLASH) (hwf : WellFormed .johab text)
    (h : escaped .johab esc dq stat text = (doubledName esc dq text).flatten) :
    InStep .johab (isDoubled esc dq) stat text := by
  induction text generalizing stat with
  | nil => exact trivial
  | cons c text ih =>
    obtain ⟨hc, htext⟩ := wellFormed_cons.mp hwf
    have hne := ne_zero_of_isChar hc
    match c, hc with
    | [b], hc =>
      have hb0 : b ≠ 0 := by simpa using hne
      by_cases hb : isDoubled esc dq b = true
      · rw [escaped_single, doubledName_doubled hesc hb hb0] at h
        cases hnon : nonAscii (nextStat .johab stat b) b with
        | true =>
          rw [piece_plain fun _ => hnon] at h
          exact absurd (List.cons.inj h).2 (escaped_ne_replicate hesc hb hb0 htext 0)
        | false =>
          rw [piece_doubled hb hnon] at h
          exact ⟨fun _ => hnon, ih htext (List.cons.inj (List.cons.inj h).2).2⟩
      · rw [escaped_single, piece_plain fun h => absurd h hb, doubledName_cons,
          if_neg (mt (doubled_singleton hesc hb0).mp hb)] at h
        exact ⟨fun h => absurd h hb, ih htext (List.cons.inj h).2⟩
    | [a, b], hc =>
      have hhigh := head_of_isChar hc
      have ha : isDoubled esc dq a = true → nonAscii (nextStat .johab stat a) a = true := by
        intro _
        simp [nonAscii, hhigh]
      have hb0 : b ≠ 0 := hne b (by simp)
      rw [escaped_cons, doubledName_cons, if_neg not_doubled_long, pieces, pieces, piece_plain ha]
        at h
      by_cases hb : isDoubled esc dq b = true →
          nonAscii (nextStat .johab (nextStat .johab stat a) b) b = true
      · rw [piece_plain hb] at h
        exact ⟨⟨ha, hb, trivial⟩, ih htext (List.cons.inj (List.cons.inj h).2).2⟩
      · rw [Classical.not_imp] at hb
        obtain ⟨hb, hnon⟩ := hb
        rw [Bool.not_eq_true] at hnon
        have hstat : statAfter .johab stat [a, b] = 0 := by
          rw [nonAscii, Bool.or_eq_false_iff] at hnon
          simpa using hnon.1
        rw [piece_doubled hb hnon, hstat] at h
        exact absurd (List.cons.inj (List.cons.inj h).2).2 (cons_escaped_ne hesc hb hb0 htext)
    | [_, _, _], hc => cases hc
    | [_, _, _, _], hc => cases hc

/-- The driver writes what the server expects just where it sees which bytes to double. -/
theorem escaped_eq_iff (hesc : esc = 0 ∨ esc = BACKSLASH) (hwf : WellFormed ccsc text) :
    escaped ccsc esc dq 0 text = (doubledName esc dq text).flatten ↔
      InStep ccsc (isDoubled esc dq) 0 text := by
  refine ⟨fun h => ?_, escaped_eq hesc hwf⟩
  by_cases hjohab : ccsc = .johab
  · subst hjohab
    exact inStep_of_escaped hesc hwf h
  · exact inStep_of_ne_johab hjohab (fun b hb => lt_of_isDoubled hesc hb) Nat.zero_lt_two hwf

/-! ### The result -/

namespace Call

/-- Nothing is read or written that may not be, and the output, if the text fits, is read as the
text. -/
def Right (c : Call) : Prop :=
  ∃ r, c.run = .ok r ∧ ∀ dest bufsize, r = some dest →
    destSize c.buf c.text.flatten.length c.malloc = some bufsize → c.Fits bufsize →
      ReadAs c.conn c.double_quote dest c.text

/-- The driver sees which bytes of the text to double. -/
def Seen (c : Call) : Prop :=
  InStep c.conn.ccsc (isDoubled c.conn.escape_in_literal c.double_quote) 0 c.text

variable {c : Call} {bufsize : ℕ}

theorem readAs_whole_iff : ReadAs c.conn c.double_quote c.whole c.text ↔ c.Seen := by
  rw [readAs_iff c.escape_eq c.wellFormed, escape_valueOf, whole, List.append_left_inj,
    List.append_right_inj]
  exact escaped_eq_iff c.escape_eq c.wellFormed

theorem destSize_pos {buf : Option ℕ} {n : ℕ} {malloc : Bool}
    (h : destSize buf n malloc = some bufsize) : 0 < bufsize := by
  rw [destSize.eq_def] at h
  split at h
  · exact Option.some.inj h ▸ Nat.succ_pos _
  · split at h
    · exact Option.some.inj h ▸ Nat.succ_pos _
    · cases h

theorem right_into_iff (htext : c.text ≠ []) (hlog : ¬(c.explicit = true ∧ c.log = true))
    (hdest : destSize c.buf c.text.flatten.length c.malloc = some bufsize) :
    c.Right ↔ c.Cut bufsize ∨ c.Whole bufsize ∧ c.Seen := by
  have hrun : c.run = some <$> c.into bufsize := by
    rw [run_eq htext, if_neg hlog, hdest]
  constructor
  · rintro ⟨r, hr, hread⟩
    rw [hrun, Lib.map_eq_ok] at hr
    obtain ⟨dest, hinto, rfl⟩ := hr
    rcases whole_or_cut (destSize_pos hdest) hinto with hwhole | hcut
    · rw [into_whole hwhole] at hinto
      obtain rfl := Except.ok.inj hinto
      exact .inr ⟨hwhole, readAs_whole_iff.mp (hread _ _ rfl hdest hwhole.2.1)⟩
    · exact .inl hcut
  · rintro (hcut | ⟨hwhole, hseen⟩)
    · obtain ⟨dest, hinto⟩ := into_cut hcut
      refine ⟨some dest, by rw [hrun, hinto]; rfl, fun dest' size _ hsize hfits => ?_⟩
      rw [hdest, Option.some.injEq] at hsize
      exact absurd (hsize ▸ hfits) (not_fits_of_cut hcut)
    · refine ⟨some c.whole, by rw [hrun, into_whole hwhole]; rfl, fun dest size hr _ _ => ?_⟩
      rw [← Option.some.inj hr]
      exact readAs_whole_iff.mpr hseen

end Call

/-- **Escaping an identifier.** A call is right for an empty text, and where no memory is got.
Otherwise the text must end with a terminator, the buffer must have room for it, its quotes and the
terminator, and the driver must see which bytes to double, as it does under every encoding but
JOHAB; or the text is cut, without quotes, just where the buffer ends. With the log on, a text of a
given length is read beyond its end in any case. -/
theorem identifierEscape_iff (c : Call) :
    (c.Right ↔ c.text = [] ∨ ¬(c.explicit = true ∧ c.log = true) ∧
      ∀ bufsize, destSize c.buf c.text.flatten.length c.malloc = some bufsize →
        c.Cut bufsize ∨ c.Whole bufsize ∧ c.Seen) ∧
    (c.conn.ccsc ≠ .johab → c.Seen) := by
  constructor
  · by_cases htext : c.text = []
    · exact iff_of_true ⟨none, Call.run_nil htext, fun _ _ h => by cases h⟩ (.inl htext)
    by_cases hlog : c.explicit = true ∧ c.log = true
    · refine iff_of_false ?_ fun h => h.elim htext fun h => h.1 hlog
      rintro ⟨r, hr, -⟩
      rw [Call.run_eq htext, if_pos hlog] at hr
      cases hr
    cases hdest : destSize c.buf c.text.flatten.length c.malloc with
    | none =>
      have hrun : c.run = .ok none := by rw [Call.run_eq htext, if_neg hlog, hdest]
      exact iff_of_true ⟨none, hrun, fun _ _ h => by cases h⟩ (.inr ⟨hlog, fun _ h => by cases h⟩)
    | some bufsize =>
      rw [Call.right_into_iff htext hlog hdest]
      constructor
      · exact fun h => .inr ⟨hlog, fun size hsize => Option.some.inj hsize ▸ h⟩
      · exact fun h => (h.resolve_left htext).2 bufsize rfl
  · exact fun hjohab => inStep_of_ne_johab hjohab
      (fun b hb => lt_of_isDoubled c.escape_eq hb) Nat.zero_lt_two c.wellFormed

/-- `a`, to be quoted, with a buffer of its own. -/
def quotedCall : Call where
  conn := sampleConn
  text := [[0x61]]
  explicit := false
  buf := none
  double_quote := true
  log := false
  malloc := true
  wellFormed := wellFormed_cons.mpr ⟨rfl, List.forall_mem_nil _⟩
  escape_eq := .inl rfl

/-- The buffer has three bytes, and the terminator is written behind them. -/
theorem terminator_beyond : ¬quotedCall.Right := by
  rintro ⟨r, hr, -⟩
  have hrun : quotedCall.run = .error .beyond := rfl
  rw [hrun] at hr
  cases hr

end OdbcDriver.Identifier
