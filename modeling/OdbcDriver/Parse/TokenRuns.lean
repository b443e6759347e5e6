import OdbcDriver.Parse.DollarRules

/-!
# The calls over a statement

Which tokens `getNextToken` returns as they are, and so for which texts its calls return the tokens
of the text.
-/

namespace OdbcDriver.NextToken

variable {ccsc : Ccsc} {setting ext : Bool} {prev : Option Byte} {room smax : ℕ} {c : Chr}
  {t : List Chr} {l : Lexeme} {x : Scanned} {r : Reading}

/-! ### The tokens returned as they are -/

/-- Backslashes are dropped from a literal. -/
def Lexeme.dropsEscapes (setting : Bool) (l : Lexeme) : Bool :=
  setting || l.prev = some literalExt

/-- The tokens that are returned as they are.

* A word has no dollar sign, and like a number it fits.
* A literal stands behind something, if the byte in front of it is looked at. It holds no backslash
  that escapes or is dropped.
* A dollar quote ends where the position of its last byte looks like a dollar sign. -/
def Lexeme.Fine (setting : Bool) (room : ℕ) (l : Lexeme) : Prop :=
  match l.kind with
  | .word => [dollarQuote] ∉ l.reading.value ∧ l.reading.value.flatten.length ≤ room
  | .number => l.reading.value.flatten.length ≤ room
  | .mark => True
  | .literal =>
    (setting = true ∨ l.prev ≠ none) ∧ l.reading.Fits room ∧
      (l.dropsEscapes setting = true ∨ l.escapes = true → [escapeInLiteral] ∉ l.reading.value)
  | .identifier => l.reading.Fits room
  | .dollar name => l.reading.DollarFits room (tagOf name).flatten.length
  | .parameter => False

/-- A literal in which backslashes escape, but are not dropped: it stands behind a small `e`. -/
def Lexeme.Unseen (setting : Bool) (l : Lexeme) : Prop :=
  l.kind = .literal ∧ l.escapes = true ∧ l.dropsEscapes setting = false

/-- The escape character of the session. -/
def escapeOf (setting : Bool) : Option Byte := if setting then some escapeInLiteral else none

/-- A call returns the token, as far as there is room, and goes on behind it. -/
def Lexeme.Taken (room : ℕ) (l : Lexeme) (call : Call) : Prop :=
  ∃ token, call = .token token l.rest.flatten ∧ token.token = l.reading.value.flatten.take room

/-! ### One call -/

theorem taken_finish {quote dquote numeric : Bool} (hrest : Readable ccsc l.reading.rest) :
    l.Taken room (finish quote dquote numeric x) ↔ Agrees room x l.reading := by
  have hblank : l.rest.flatten = l.reading.rest.flatten.dropWhile isSpace :=
    flatten_dropWhile (fun b hb => isSpace_of_le (Nat.le_trans (by decide) hb)) hrest
  rw [Lexeme.Taken, hblank]
  constructor
  · rintro ⟨token, heq, htoken⟩
    obtain ⟨rfl, hrest⟩ := Call.token.inj heq
    exact ⟨htoken, hrest⟩
  · rintro ⟨hvalue, hrest⟩
    exact ⟨_, congrArg _ hrest, hvalue⟩

theorem agrees_of_left (h : Left x.rest r.rest.flatten) : ¬Agrees room x r :=
  fun hagrees => h.ne hagrees.2

theorem word_agrees_iff (ht : Readable ccsc t) {closed : Bool} :
    Agrees room (wordLoop ccsc 0 room t.flatten)
        ⟨t.takeWhile isWordChr, t.dropWhile isWordChr, closed⟩ ↔
      [dollarQuote] ∉ t.takeWhile isWordChr ∧
        (t.takeWhile isWordChr).flatten.length ≤ room := by
  by_cases hcut : [dollarQuote] ∈ t.takeWhile isWordChr ∨
      room < (t.takeWhile isWordChr).flatten.length
  · refine iff_of_false (agrees_of_left (word_left ht Nat.two_pos hcut)) fun h => ?_
    exact hcut.elim h.1 (Nat.not_lt.mpr h.2)
  · rw [not_or, Nat.not_lt] at hcut
    rw [word_read ht Nat.two_pos hcut.1 hcut.2]
    exact iff_of_true ⟨(List.take_of_length_le hcut.2).symm, rfl⟩ hcut

theorem number_agrees_iff {b : Byte} (ht : Readable ccsc t) (hroom : room ≠ 0) {closed : Bool} :
    Agrees room (.push b (numberLoop (room - 1) t.flatten))
        ⟨[b] :: t.takeWhile isNumberChr, t.dropWhile isNumberChr, closed⟩ ↔
      ([b] :: t.takeWhile isNumberChr).flatten.length ≤ room := by
  have hlen : ([b] :: t.takeWhile isNumberChr).flatten.length =
      (t.takeWhile isNumberChr).flatten.length + 1 := by
    rw [List.flatten_cons, List.singleton_append, List.length_cons]
  by_cases hcut : room - 1 < (t.takeWhile isNumberChr).flatten.length
  · exact iff_of_false (agrees_of_left (number_left ht hcut)) (by omega)
  · rw [number_read ht (Nat.not_lt.mp hcut)]
    have hle : ([b] :: t.takeWhile isNumberChr).flatten.length ≤ room := by omega
    exact iff_of_true ⟨(List.take_of_length_le hle).symm, rfl⟩ hle

/-- A text without backslashes reads the same whether they escape or not. -/
theorem content_escapes (q : Byte) (t : List Chr)
    (h : [escapeInLiteral] ∉ (content q true t).value) : content q true t = content q false t := by
  induction hn : t.length using Nat.strong_induction_on generalizing t with
  | _ n ih =>
    cases t with
    | nil => rfl
    | cons c t =>
      by_cases hq : c = [q]
      · subst hq
        by_cases hnext : t.head? = some [q]
        · obtain ⟨t', rfl⟩ := List.head?_eq_some_iff.mp hnext
          rw [content_double] at h ⊢
          rw [content_double,
            ih t'.length (by rw [← hn, List.length_cons, List.length_cons]; omega) t'
            (fun hmem => h (List.mem_cons_of_mem _ hmem)) rfl]
        · rw [content_close hnext, content_close hnext]
      · have hc : c ≠ [escapeInLiteral] := by
          rintro rfl
          obtain ⟨v, hv⟩ := content_head true t hq
          exact h (hv ▸ List.mem_cons_self)
        rw [content_single hq fun _ => hc] at h ⊢
        rw [content_single hq fun _ => hc, ih t.length (by rw [← hn, List.length_cons]; omega) t
          (fun hmem => h (List.mem_cons_of_mem _ hmem)) rfl]

/-- What a call does with a token, against what it shall do. -/
def Lexeme.Settled (setting : Bool) (room : ℕ) (l : Lexeme) (call : Call) : Prop :=
  (l.Fine setting room → l.Taken room call) ∧
    (l.Taken room call → l.Fine setting room ∨ l.Unseen setting)

theorem settled_of_iff {call : Call} (h : l.Taken room call ↔ l.Fine setting room) :
    l.Settled setting room call := ⟨h.mpr, fun htaken => Or.inl (h.mp htaken)⟩

theorem settled_of_agrees {quote dquote numeric : Bool} (hrest : Readable ccsc l.reading.rest)
    (h : Agrees room x l.reading ↔ l.Fine setting room) :
    l.Settled setting room (finish quote dquote numeric x) :=
  settled_of_iff ((taken_finish hrest).trans h)

theorem readable_reading (hl : Readable ccsc (l.first :: l.tail)) :
    Readable ccsc l.reading.rest :=
  hl.tail.of_suffix (readingOf_suffix _ _ _)

/-- Dollar quotes and parameters. -/
theorem dollar_settled (hl : Readable ccsc (l.first :: l.tail)) (hroom : room ≠ 0)
    (hfirst : l.first = [dollarQuote])
    (hkind : l.kind = (tagName l.tail).elim .parameter .dollar) :
    l.Settled setting room (finish true false false
      (quotedLoop ccsc ⟨dollarQuote, none, some (dollarTag dollarQuote l.tail.flatten)⟩ 0 false
        (dollarTag dollarQuote l.tail.flatten).length room
        (l.tail.flatten.drop ((dollarTag dollarQuote l.tail.flatten).length - 1)))) := by
  refine settled_of_agrees (readable_reading hl) ?_
  cases hname : tagName l.tail with
  | none =>
    rw [hname] at hkind
    have hreading : l.reading = ⟨[dollarQuote] :: l.tail.takeWhile (isAscii isDigit),
        l.tail.dropWhile (isAscii isDigit), true⟩ := by
      rw [Lexeme.reading, readingOf, ← Lexeme.kind, hkind, hfirst]
      rfl
    rw [hreading, Lexeme.Fine, hkind]
    exact iff_of_false (parameter_differs l.tail hroom) id
  | some name =>
    rw [hname] at hkind
    obtain ⟨t', htail, hdollar⟩ := tagName_some hl.tail hname
    have htag : dollarTag dollarQuote l.tail.flatten = (tagOf name).flatten := by
      rw [htail, List.flatten_append, List.flatten_cons, List.singleton_append,
        dollarTag_eq hdollar, tagOf_flatten]
    have hdrop : l.tail.flatten.drop ((tagOf name).flatten.length - 1) = t'.flatten := by
      rw [htail, tagOf_flatten, List.flatten_append, List.flatten_cons, List.singleton_append,
        List.append_cons name.flatten, List.cons_append, List.length_cons, Nat.add_sub_cancel,
        List.drop_left]
    have hreading : l.reading = dollarContent (tagOf name) t' := by
      rw [Lexeme.reading, readingOf, ← Lexeme.kind, hkind, htail]
      simp
    have hwf : WellFormed ccsc name ∧ Readable ccsc t' := by
      have hall := hl.tail
      rw [htail] at hall
      exact ⟨fun c hc => hall.wellFormed c (List.mem_append_left _ hc),
        (hall.of_suffix (List.suffix_append _ _)).tail⟩
    rw [htag, hdrop, hreading, Lexeme.Fine, hkind]
    simp only [Option.elim_some, hreading]
    exact dollar_agrees_iff hwf.1 hwf.2 Nat.two_pos

/-- Literals. -/
theorem literal_settled (htail : Readable ccsc l.tail) (hkind : l.kind = .literal) :
    l.Settled setting room (literal ccsc (escapeOf setting) l.prev 0 room l.tail.flatten) := by
  have hreading : l.reading = content literalQuote l.escapes l.tail := by
    rw [Lexeme.reading, readingOf]
    rw [Lexeme.kind] at hkind
    rw [hkind]
  have hrest : Readable ccsc l.reading.rest := by
    rw [hreading]
    exact htail.of_suffix (content_suffix _ _ _)
  have hfine : l.Fine setting room ↔ (setting = true ∨ l.prev ≠ none) ∧ l.reading.Fits room ∧
      (l.dropsEscapes setting = true ∨ l.escapes = true →
        [escapeInLiteral] ∉ l.reading.value) := by
    rw [Lexeme.Fine, hkind]
  by_cases hlooks : setting = true ∨ l.prev ≠ none
  · have hcall : literal ccsc (escapeOf setting) l.prev 0 room l.tail.flatten =
        finish true false false (quotedLoop ccsc ⟨literalQuote,
          if l.dropsEscapes setting then some escapeInLiteral else none, none⟩ 0 false 1 room
            l.tail.flatten) := by
      cases setting with
      | true => rfl
      | false =>
        obtain ⟨p, hp⟩ := Option.ne_none_iff_exists'.mp (hlooks.resolve_left Bool.false_ne_true)
        simp [literal, escapeOf, hp, Lexeme.dropsEscapes]
    rw [hcall]
    by_cases hunseen : l.escapes = true ∧ l.dropsEscapes setting = false
    · refine ⟨fun h => ?_, fun _ => Or.inr ⟨hkind, hunseen⟩⟩
      obtain ⟨-, hfits, hplain⟩ := hfine.mp h
      have hnone := hplain (Or.inr hunseen.1)
      rw [hreading, hunseen.1] at hnone hfits
      rw [taken_finish hrest, hreading, hunseen.1, hunseen.2, if_neg Bool.false_ne_true,
        content_escapes _ _ hnone]
      rw [content_escapes _ _ hnone] at hfits
      refine (content_agrees_iff htail Nat.two_pos (Or.inl rfl) (Or.inl rfl) ?_).mpr
        ⟨hfits, fun h => absurd rfl h⟩
      exact fun h => absurd h Bool.false_ne_true
    · have hdrops : l.escapes = true → l.dropsEscapes setting = true := by
        intro h
        by_contra hdrop
        exact hunseen ⟨h, Bool.not_eq_true _ ▸ hdrop⟩
      refine settled_of_iff ?_
      rw [taken_finish hrest, hfine, and_iff_right hlooks, or_iff_left_of_imp hdrops, hreading]
      cases hdrop : l.dropsEscapes setting with
      | true =>
        rw [if_pos rfl, content_agrees_iff htail Nat.two_pos (Or.inl rfl) (Or.inr ⟨rfl, rfl⟩)
          fun _ => Option.some_ne_none _]
        simp
      | false =>
        have hescapes : l.escapes ≠ true := fun h => by simp [hdrops h] at hdrop
        rw [if_neg Bool.false_ne_true, content_agrees_iff htail Nat.two_pos (Or.inl rfl)
          (Or.inl rfl) fun h => absurd h hescapes]
        simp
  · refine settled_of_iff (iff_of_false ?_ fun h => hlooks (hfine.mp h).1)
    rw [not_or, Bool.not_eq_true, ne_eq, not_not] at hlooks
    rw [hlooks.1, hlooks.2]
    rintro ⟨token, h, -⟩
    cases h

theorem firstRound_wide {b : Byte} {s : List Byte} {esc : Option Byte} (hroom : room ≠ 0)
    (hwide : nonAscii (nextStat ccsc 0 b) b = true) : firstRound ccsc esc prev room b s =
      finish false false false (wordLoop ccsc 0 room (b :: s)) := by
  rw [wordLoop, if_neg hroom, if_pos hwide]
  exact if_pos hwide

theorem firstRound_ascii {b : Byte} {s : List Byte} {esc : Option Byte} (hb : b.toNat < 0x80) :
    firstRound ccsc esc prev room b s =
      if b = dollarQuote then
        finish true false false (quotedLoop ccsc ⟨dollarQuote, none, some (dollarTag b s)⟩ 0 false
          (dollarTag b s).length room (s.drop ((dollarTag b s).length - 1)))
      else if b = literalQuote then literal ccsc esc prev 0 room s
      else if b = identifierQuote then
        finish false true false (quotedLoop ccsc ⟨identifierQuote, none, none⟩ 0 false 1 room s)
      else if isDigit b then finish false false true (.push b (numberLoop (room - 1) s))
      else if isPunct b ∧ b ≠ 0x5f then finish false false false ⟨[b], s⟩
      else finish false false false (.push b (wordLoop ccsc 0 (room - 1) s)) := by
  have hstat : nextStat ccsc 0 b = 0 := nextStat_ascii Nat.two_pos hb
  have hascii : ¬nonAscii 0 b = true := by simp [nonAscii_ascii hb]
  unfold firstRound
  rw [hstat]
  exact if_neg hascii

/-- What a call does with a token. -/
theorem firstRound_settled (hl : Readable ccsc (l.first :: l.tail))
    (hfirst : isAscii isDelimiter l.first = false) (hroom : room ≠ 0) {b : Byte} {s : List Byte}
    (hs : (l.first :: l.tail).flatten = b :: s) :
    l.Settled setting room (firstRound ccsc (escapeOf setting) l.prev room b s) := by
  have hrest : Readable ccsc l.reading.rest := readable_reading hl
  have hword : l.kind = .word → isWordChr l.first = true → l.Settled setting room
      (finish false false false (wordLoop ccsc 0 room (l.first :: l.tail).flatten)) := by
    intro hkind hchr
    have hreading : l.reading = ⟨(l.first :: l.tail).takeWhile isWordChr,
        (l.first :: l.tail).dropWhile isWordChr, true⟩ := by
      rw [List.takeWhile_cons_of_pos hchr, List.dropWhile_cons_of_pos hchr, Lexeme.reading,
        readingOf]
      rw [Lexeme.kind] at hkind
      rw [hkind]
    refine settled_of_agrees hrest ?_
    rw [hreading, word_agrees_iff hl, Lexeme.Fine, hkind, hreading]
  rcases hl.head Nat.two_pos with hwide | ⟨b', hb', hlow⟩
  · have hkind : l.kind = .word := by rw [Lexeme.kind, kindOf, hwide.ascii]
    have hbyte : nonAscii (nextStat ccsc 0 b) b = true := by
      obtain ⟨a, c', hc, -⟩ := hwide.head
      rw [List.flatten_cons, hc, List.cons_append] at hs
      obtain ⟨rfl, -⟩ := List.cons.inj hs
      have hpass := hwide.passes
      rw [hc] at hpass
      exact hpass.1 rfl
    rw [firstRound_wide hroom hbyte, ← hs]
    exact hword hkind (isWordChr_wide hwide)
  · have htail : Readable ccsc l.tail := hl.tail
    rw [List.flatten_cons, hb', List.singleton_append] at hs
    obtain ⟨rfl, rfl⟩ := List.cons.inj hs
    have hascii : asciiOf l.first = some b' := by rw [hb', asciiOf_single hlow]
    have hkind : l.kind = if b' = dollarQuote then (tagName l.tail).elim .parameter .dollar
        else if b' = literalQuote then .literal
        else if b' = identifierQuote then .identifier
        else if isDigit b' then .number
        else if isPunct b' ∧ b' ≠ 0x5f then .mark
        else .word := by
      rw [Lexeme.kind, kindOf, hascii]
    rw [firstRound_ascii hlow]
    by_cases hdollar : b' = dollarQuote
    · rw [if_pos hdollar] at hkind ⊢
      subst hdollar
      exact dollar_settled hl hroom hb' hkind
    rw [if_neg hdollar] at hkind ⊢
    by_cases hliteral : b' = literalQuote
    · rw [if_pos hliteral] at hkind ⊢
      exact literal_settled htail hkind
    rw [if_neg hliteral] at hkind ⊢
    by_cases hidentifier : b' = identifierQuote
    · rw [if_pos hidentifier] at hkind ⊢
      have hreading : l.reading = content identifierQuote false l.tail := by
        rw [Lexeme.reading, readingOf, ← Lexeme.kind, hkind]
      refine settled_of_agrees hrest ?_
      rw [Lexeme.Fine, hkind, hreading, content_agrees_iff htail Nat.two_pos (Or.inr rfl)
        (Or.inl rfl) fun h => absurd h Bool.false_ne_true]
      exact and_iff_left fun h => absurd rfl h
    rw [if_neg hidentifier] at hkind ⊢
    by_cases hdigit : isDigit b' = true
    · rw [if_pos hdigit] at hkind ⊢
      have hreading : l.reading =
          ⟨[b'] :: l.tail.takeWhile isNumberChr, l.tail.dropWhile isNumberChr, true⟩ := by
        rw [Lexeme.reading, readingOf, ← Lexeme.kind, hkind, hb']
      refine settled_of_agrees hrest ?_
      rw [Lexeme.Fine, hkind, hreading]
      exact number_agrees_iff htail hroom
    rw [if_neg hdigit] at hkind ⊢
    by_cases hpunct : isPunct b' = true ∧ b' ≠ 0x5f
    · rw [if_pos hpunct] at hkind ⊢
      have hreading : l.reading = ⟨[[b']], l.tail, true⟩ := by
        rw [Lexeme.reading, readingOf, ← Lexeme.kind, hkind, hb']
      refine settled_of_agrees hrest ?_
      have hone : [b'].length ≤ room := Nat.one_le_iff_ne_zero.mpr hroom
      rw [Lexeme.Fine, hkind, hreading]
      exact iff_of_true ⟨(List.take_of_length_le hone).symm, rfl⟩ trivial
    rw [if_neg hpunct] at hkind ⊢
    have hchr : isWordChr [b'] = true := by
      rw [hb', isAscii, asciiOf_single hlow, Option.any_some] at hfirst
      rw [isWordChr, asciiOf_single hlow, Option.all_some, hfirst]
      by_cases hunder : b' = 0x5f
      · simp [hunder]
      · have hmark : isPunct b' = false := by
          by_contra h
          exact hpunct ⟨Bool.not_eq_false _ ▸ h, hunder⟩
        simp [hmark]
    have hcall : Scanned.push b' (wordLoop ccsc 0 (room - 1) l.tail.flatten) =
        wordLoop ccsc 0 room (l.first :: l.tail).flatten := by
      rw [hb', List.flatten_cons, List.singleton_append,
        wordLoop_word Nat.two_pos hlow hchr hdollar hroom]
      rfl
    rw [hcall]
    exact hword hkind (hb' ▸ hchr)

/-! ### The calls over a text -/

/-- The calls of the loop of `parse_the_statement`, each from where the one before has returned, up
to a null pointer: the tokens with the texts behind them. -/
inductive Calls (ccsc : Ccsc) (escape_ch : Option Byte) (smax : ℕ) :
    Option Byte → List Byte → List (List Byte × List Byte) → Prop
  | null {prev : Option Byte} {s : List Byte}
      (h : getNextToken ccsc escape_ch prev smax s = .null) :
      Calls ccsc escape_ch smax prev s []
  | token {prev : Option Byte} {s : List Byte} {token : Token} {rest : List Byte}
      {calls : List (List Byte × List Byte)}
      (h : getNextToken ccsc escape_ch prev smax s = .token token rest)
      (hcalls : Calls ccsc escape_ch smax (behind prev s rest) rest calls) :
      Calls ccsc escape_ch smax prev s ((token.token, rest) :: calls)

/-- The tokens of a text, as far as there is room, with the texts behind them. -/
def expected (smax : ℕ) (tokens : List Lexeme) : List (List Byte × List Byte) :=
  tokens.map fun l => (l.reading.value.flatten.take (smax - 1), l.rest.flatten)

/-- Every call that returns a token moves ahead within the text and stays within the buffer, and the
calls over the text return its tokens, in their order. -/
structure Right (ccsc : Ccsc) (setting : Bool) (smax : ℕ) (text : List Chr) : Prop where
  within : ∀ prev s token rest,
    getNextToken ccsc (escapeOf setting) prev smax s = .token token rest →
      rest <:+ s ∧ rest.length < s.length ∧ token.token.length < smax
  inOrder : Calls ccsc (escapeOf setting) smax none text.flatten
    (expected smax (lexemes setting none false text))

/-- The driver tells the characters of the text apart, there is room for a byte, and all tokens are
returned as they are. -/
structure Fine (ccsc : Ccsc) (setting : Bool) (smax : ℕ) (text : List Chr) : Prop where
  leads : HighLeads ccsc text
  room : lexemes setting none false text = [] ∨ 2 ≤ smax
  tokens : ∀ l ∈ lexemes setting none false text, l.Fine setting (smax - 1)

theorem calls_nil_iff {escape_ch : Option Byte} {s : List Byte} :
    Calls ccsc escape_ch smax prev s [] ↔ getNextToken ccsc escape_ch prev smax s = .null := by
  constructor
  · rintro ⟨h⟩
    exact h
  · exact .null

theorem calls_cons_iff {escape_ch : Option Byte} {s v rest : List Byte}
    {calls : List (List Byte × List Byte)} :
    Calls ccsc escape_ch smax prev s ((v, rest) :: calls) ↔
      (∃ token, getNextToken ccsc escape_ch prev smax s = .token token rest ∧ token.token = v) ∧
        Calls ccsc escape_ch smax (behind prev s rest) rest calls := by
  constructor
  · intro h
    cases h with
    | token h hcalls => exact ⟨⟨_, h, rfl⟩, hcalls⟩
  · rintro ⟨⟨token, h, rfl⟩, hcalls⟩
    exact .token h hcalls

theorem getNextToken_small {escape_ch : Option Byte} {s : List Byte} (h : smax ≤ 1) :
    getNextToken ccsc escape_ch prev smax s = .null := if_pos h

theorem delimiters_dropped (ht : Readable ccsc t) :
    (t.dropWhile (isAscii isDelimiter)).flatten = t.flatten.dropWhile isDelimiter :=
  flatten_dropWhile (fun _ => isDelimiter_of_le) ht

theorem lexemes_nil (h : t.dropWhile (isAscii isDelimiter) = []) :
    lexemes setting prev ext t = [] := by
  rw [lexemes]
  split
  · rfl
  · rename_i hdrop
    rw [h] at hdrop
    cases hdrop

theorem lexemes_cons {t' : List Chr} (h : t.dropWhile (isAscii isDelimiter) = c :: t') :
    let l : Lexeme :=
      ⟨behind prev t.flatten (c :: t').flatten, setting || (ext && decide (c :: t' = t)), c, t'⟩
    lexemes setting prev ext t =
      l :: lexemes setting (behind prev t.flatten l.rest.flatten) l.introducesEscapes l.rest := by
  rw [lexemes]
  split
  · rename_i hdrop
    rw [h] at hdrop
    cases hdrop
  · rename_i hdrop
    rw [h] at hdrop
    obtain ⟨rfl, rfl⟩ := List.cons.inj hdrop
    rfl

/-- The calls over a text return its tokens if these are returned as they are, and only then, up to
literals behind a small `e`. -/
theorem calls_settled (ht : Readable ccsc t) (hsmax : 2 ≤ smax) :
    ((∀ l ∈ lexemes setting prev ext t, l.Fine setting (smax - 1)) →
        Calls ccsc (escapeOf setting) smax prev t.flatten
          (expected smax (lexemes setting prev ext t))) ∧
      (Calls ccsc (escapeOf setting) smax prev t.flatten
          (expected smax (lexemes setting prev ext t)) →
        (∀ l ∈ lexemes setting prev ext t, l.Fine setting (smax - 1)) ∨
          ∃ l ∈ lexemes setting prev ext t, l.Unseen setting) := by
  fun_induction lexemes setting prev ext t with
  | case1 prev ext t hdrop =>
    have hnull : getNextToken ccsc (escapeOf setting) prev smax t.flatten = .null := by
      rw [getNextToken, if_neg (by omega), ← delimiters_dropped ht, hdrop]
      rfl
    exact ⟨fun _ => .null hnull, fun _ => Or.inl (by rintro _ ⟨⟩)⟩
  | case2 prev ext t c t' hdrop l ih =>
    have hl : Readable ccsc (c :: t') := ht.of_suffix (hdrop ▸ List.dropWhile_suffix _)
    obtain ⟨b, s, hs⟩ : ∃ b s, (c :: t').flatten = b :: s := by
      obtain ⟨b, u, hu⟩ := List.exists_cons_of_ne_nil hl.ne_nil
      exact ⟨b, u ++ t'.flatten, by rw [List.flatten_cons, hu, List.cons_append]⟩
    have hfirst : isAscii isDelimiter c = false := by
      have hhead := List.head?_dropWhile_not (isAscii isDelimiter) t
      rw [hdrop] at hhead
      exact hhead
    have hcall : getNextToken ccsc (escapeOf setting) prev smax t.flatten =
        firstRound ccsc (escapeOf setting) l.prev (smax - 1) b s := by
      rw [getNextToken, if_neg (by omega), ← delimiters_dropped ht, hdrop, hs]
      simp only [l, hs]
    have hsettled : l.Settled setting (smax - 1) (firstRound ccsc (escapeOf setting) l.prev
        (smax - 1) b s) := firstRound_settled hl hfirst (by omega) hs
    rw [← hcall] at hsettled
    have hrest : Readable ccsc l.rest :=
      (readable_reading hl).of_suffix (List.dropWhile_suffix _)
    obtain ⟨hfine, hright⟩ := ih hrest
    rw [expected, List.map_cons, calls_cons_iff, List.forall_mem_cons]
    constructor
    · rintro ⟨hl, hls⟩
      exact ⟨hsettled.1 hl, hfine hls⟩
    · rintro ⟨htaken, hcalls⟩
      rcases hsettled.2 htaken with hl | hunseen
      · rcases hright hcalls with hls | ⟨l', hl', hunseen⟩
        · exact Or.inl ⟨hl, hls⟩
        · exact Or.inr ⟨l', List.mem_cons_of_mem _ hl', hunseen⟩
      · exact Or.inr ⟨l, List.mem_cons_self, hunseen⟩

/-- **Tokens.** The calls over a text return its tokens if the driver tells its characters apart and
each token is one that is returned as it is. Of the texts whose characters it tells apart, it is so
for no others, up to those with a literal behind a small `e`. -/
theorem tokens_returned {ccsc : Ccsc} {setting : Bool} {smax : ℕ} {text : List Chr}
    (h : WellFormed ccsc text) :
    (Fine ccsc setting smax text → Right ccsc setting smax text) ∧
      (Right ccsc setting smax text → Fine ccsc setting smax text ∨ ¬HighLeads ccsc text ∨
        ∃ l ∈ lexemes setting none false text, l.Unseen setting) := by
  have hempty : smax ≤ 1 → (Calls ccsc (escapeOf setting) smax none text.flatten
      (expected smax (lexemes setting none false text)) ↔
        lexemes setting none false text = []) := by
    intro hsmall
    constructor
    · intro hcalls
      cases htokens : lexemes setting none false text with
      | nil => rfl
      | cons l ls =>
        rw [htokens, expected, List.map_cons, calls_cons_iff, getNextToken_small hsmall] at hcalls
        obtain ⟨⟨token, hcall, -⟩, -⟩ := hcalls
        cases hcall
    · intro htokens
      rw [htokens]
      exact .null (getNextToken_small hsmall)
  constructor
  · rintro ⟨hleads, hroom, htokens⟩
    refine ⟨fun _ _ _ _ => getNextToken_within, ?_⟩
    by_cases hsmall : smax ≤ 1
    · exact (hempty hsmall).mpr (hroom.resolve_right (by omega))
    · exact (calls_settled ⟨h, hleads⟩ (by omega)).1 htokens
  · rintro ⟨-, hcalls⟩
    by_cases hleads : HighLeads ccsc text
    · by_cases hsmall : smax ≤ 1
      · have htokens := (hempty hsmall).mp hcalls
        exact Or.inl ⟨hleads, Or.inl htokens, fun l hl => absurd hl (by simp [htokens])⟩
      · rcases (calls_settled ⟨h, hleads⟩ (by omega)).2 hcalls with hls | hunseen
        · exact Or.inl ⟨hleads, Or.inr (by omega), hls⟩
        · exact Or.inr (Or.inr hunseen)
    · exact Or.inr (Or.inl hleads)

/-- The text `ab, c` with the driver's buffer. -/
theorem tokens_returned_list :
    Right .utf8 false 256 [[0x61], [0x62], [0x2c], [0x20], [0x63]] := by
  refine (tokens_returned ?_).1 ⟨by rintro ⟨⟩, Or.inr (by decide), ?_⟩
  · simp [WellFormed, isChar, isSingle, within]
  · rw [lexemes_cons rfl, lexemes_cons rfl, lexemes_nil rfl]
    simp only [List.forall_mem_cons]
    refine ⟨?_, ?_, by rintro _ ⟨⟩⟩
    · exact ⟨by decide, by decide⟩
    · exact ⟨by decide, by decide⟩

/-- Of the dollar quote `$$a$$` the last byte is left to be the next token. -/
theorem dollar_left : ¬Right .utf8 false 256 [[0x24], [0x24], [0x61], [0x24], [0x24]] := by
  intro h
  have hcall : getNextToken .utf8 none none 256 [0x24, 0x24, 0x61, 0x24, 0x24] =
      .token ⟨[0x61], 0x20, true, false, false⟩ [0x24] := by decide
  have hcalls := h.inOrder
  rw [lexemes_cons rfl, expected, List.map_cons, calls_cons_iff] at hcalls
  obtain ⟨⟨token, heq, -⟩, -⟩ := hcalls
  have hrest := hcall.symm.trans heq
  cases hrest

end OdbcDriver.NextToken
