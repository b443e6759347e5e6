import OdbcDriver.Encoding.NextChar

/-!
# Table names in a statement

`eatTableIdentifiers` reads the name of a table, which may stand behind those of a schema and of a
catalog: `findIdentifier` finds the end of one name, and `lower_or_remove_dquote` takes its quotes
off. Both walk over the bytes with the state of `pg_CS_stat`, and take a quote for one only where
it is an ASCII character.

* `readName`: what both make of a name from behind its opening quote;
* `readName_doubled`: a name whose quotes are doubled is read back exactly when the walk meets its
  quotes, and its end, between characters;
* `plain_eatTableIdentifiers`: names that are read have no more bytes than the text, quotes aside.
-/

namespace OdbcDriver.Identifiers

/-- `IDENTIFIER_QUOTE` -/
def IDENTIFIER_QUOTE : Byte := 0x22

/-- `isalpha` -/
def isAlpha (c : Byte) : Bool := isAlnum c && !isDigit c

/-! ### One name -/

/-- The first byte from `pos` on that is no white space. -/
def notSpaceFrom (pos : ℕ) : List Byte → Option ℕ
  | [] => none
  | c :: s => if isSpace c then notSpaceFrom (pos + 1) s else some pos

/-- The loop of `findIdentifier` and the search for the next token: the length of the name, and
where the next token begins. -/
def scanIdentifier (ccsc : Ccsc) : Bool → ℕ → ℕ → List Byte → ℤ × Option ℕ
  | dquote, pos, _, [] => (if dquote then -1 else pos, none)
  | dquote, pos, stat, tchar :: s =>
    let stat := nextStat ccsc stat tchar
    if nonAscii stat tchar then scanIdentifier ccsc dquote (pos + 1) stat s
    else if pos = 0 then
      if tchar = IDENTIFIER_QUOTE then scanIdentifier ccsc true 1 stat s
      else if !isAlpha tchar then (0, notSpaceFrom 0 (tchar :: s))
      else scanIdentifier ccsc false 1 stat s
    else if dquote then
      if tchar = IDENTIFIER_QUOTE then
        match s with
        | [] => ((pos + 1 : ℕ), none)
        | c :: s =>
          if c = IDENTIFIER_QUOTE then scanIdentifier ccsc true (pos + 2) (nextStat ccsc stat c) s
          else ((pos + 1 : ℕ), notSpaceFrom (pos + 1) (c :: s))
      else scanIdentifier ccsc true (pos + 1) stat s
    else if isAlnum tchar || tchar = 0x5f || tchar = 0x24 then
      scanIdentifier ccsc false (pos + 1) stat s
    else (pos, notSpaceFrom pos (tchar :: s))

/-- `findIdentifier` -/
def findIdentifier (ccsc : Ccsc) (str : List Byte) : ℤ × Option ℕ :=
  scanIdentifier ccsc false 0 0 str

/-- The loop of `lower_or_remove_dquote`. -/
def lowerOrRemove (ccsc : Ccsc) (idQuote : Bool) (srclen : ℕ) : ℕ → ℕ → List Byte → List Byte
  | _, _, [] => []
  | i, stat, tchar :: s =>
    if i < srclen then
      let stat := nextStat ccsc stat tchar
      if nonAscii stat tchar then tchar :: lowerOrRemove ccsc idQuote srclen (i + 1) stat s
      else if idQuote then
        if tchar = IDENTIFIER_QUOTE then
          if i = 0 ∨ i + 1 = srclen then lowerOrRemove ccsc idQuote srclen (i + 1) stat s
          else
            match s with
            | [] => []
            | c :: s => c :: lowerOrRemove ccsc idQuote srclen (i + 2) (nextStat ccsc stat c) s
        else tchar :: lowerOrRemove ccsc idQuote srclen (i + 1) stat s
      else tolower tchar :: lowerOrRemove ccsc idQuote srclen (i + 1) stat s
    else []

/-- `lower_or_remove_dquote` -/
def lower_or_remove_dquote (ccsc : Ccsc) (src : List Byte) (srclen : ℕ) : List Byte :=
  lowerOrRemove ccsc (src.head? = some IDENTIFIER_QUOTE) srclen 0 0 src

/-! ### Up to three names -/

/-- What `eatTableIdentifiers` leaves behind, from names that are `NULL`. -/
structure TableNames where
  /-- It returns a position. -/
  found : Bool
  table : Option (List Byte)
  schema : Option (List Byte)
deriving DecidableEq

/-- A name ends right before a point. -/
def beforePoint (tstr : List Byte) (len : ℕ) (next_token : Option ℕ) : Bool :=
  next_token = some len && tstr[len]? = some 0x2e

/-- One name, and what stands behind the point that follows it. The first name is taken as it is
where it has no quotes. -/
def eatName (ccsc : Ccsc) (first : Bool) (tstr : List Byte) :
    Option (List Byte × Option (List Byte)) :=
  let (len, next_token) := findIdentifier ccsc tstr
  if len ≤ 0 then none
  else
    let table :=
      if first && tstr.head? ≠ some IDENTIFIER_QUOTE then tstr.take len.toNat
      else lower_or_remove_dquote ccsc tstr len.toNat
    some (table,
      if beforePoint tstr len.toNat next_token then some (tstr.drop (len.toNat + 1)) else none)

/-- `eatTableIdentifiers` -/
def eatTableIdentifiers (ccsc : Ccsc) (str : List Byte) : TableNames :=
  match eatName ccsc true (str.dropWhile isSpace) with
  | none => ⟨false, none, none⟩
  | some (table, none) => ⟨true, some table, none⟩
  | some (schema, some tstr) =>
    match eatName ccsc false tstr with
    | none => ⟨false, some schema, none⟩
    | some (table, none) => ⟨true, some table, some schema⟩
    | some (schema', some tstr) =>
      match eatName ccsc false tstr with
      | none => ⟨false, some schema', some schema⟩
      | some (table, _) => ⟨true, some table, some schema'⟩

/-! ### Reading a quoted name -/

/-- A name from behind its opening quote, and what is left behind the closing one. -/
def readName (ccsc : Ccsc) : ℕ → List Byte → Option (List Byte × List Byte)
  | _, [] => none
  | stat, tchar :: s =>
    let stat := nextStat ccsc stat tchar
    if nonAscii stat tchar || tchar ≠ IDENTIFIER_QUOTE then
      (readName ccsc stat s).map fun (name, rest) => (tchar :: name, rest)
    else
      match s with
      | [] => some ([], [])
      | c :: s =>
        if c = IDENTIFIER_QUOTE then
          (readName ccsc (nextStat ccsc stat c) s).map fun (name, rest) => (c :: name, rest)
        else some ([], c :: s)

variable {ccsc : Ccsc} {stat pos i : ℕ} {c : Byte} {s t z name rest : List Byte}

/-- The walk takes the byte for a quote. -/
def isQuote (ccsc : Ccsc) (stat : ℕ) (c : Byte) : Bool :=
  !nonAscii (nextStat ccsc stat c) c && c = IDENTIFIER_QUOTE

theorem readName_cons (ccsc : Ccsc) (stat : ℕ) (tchar : Byte) (s : List Byte) :
    readName ccsc stat (tchar :: s) =
      if nonAscii (nextStat ccsc stat tchar) tchar || tchar ≠ IDENTIFIER_QUOTE then
        (readName ccsc (nextStat ccsc stat tchar) s).map fun (name, rest) => (tchar :: name, rest)
      else
        match s with
        | [] => some ([], [])
        | c :: s =>
          if c = IDENTIFIER_QUOTE then
            (readName ccsc (nextStat ccsc (nextStat ccsc stat tchar) c) s).map
              fun (name, rest) => (c :: name, rest)
          else some ([], c :: s) := by
  cases s <;> rfl

theorem readName_copy (h : isQuote ccsc stat c = false) :
    readName ccsc stat (c :: s) =
      (readName ccsc (nextStat ccsc stat c) s).map fun (name, rest) => (c :: name, rest) := by
  have hcopy : (nonAscii (nextStat ccsc stat c) c || decide (c ≠ IDENTIFIER_QUOTE)) = true := by
    rw [isQuote] at h
    cases hn : nonAscii (nextStat ccsc stat c) c <;> simp_all
  rw [readName_cons]
  exact if_pos hcopy

theorem not_copied (h : isQuote ccsc stat c = true) :
    (nonAscii (nextStat ccsc stat c) c || decide (c ≠ IDENTIFIER_QUOTE)) = false := by
  rw [isQuote] at h
  cases hn : nonAscii (nextStat ccsc stat c) c <;> simp_all

theorem readName_pair (h : isQuote ccsc stat c = true) :
    readName ccsc stat (c :: IDENTIFIER_QUOTE :: s) =
      (readName ccsc (nextStat ccsc (nextStat ccsc stat c) IDENTIFIER_QUOTE) s).map
        fun (name, rest) => (IDENTIFIER_QUOTE :: name, rest) := by
  rw [readName_cons]
  simp only [not_copied h, Bool.false_eq_true, if_false, if_true]

theorem readName_close (h : isQuote ccsc stat c = true) (hs : s.head? ≠ some IDENTIFIER_QUOTE) :
    readName ccsc stat (c :: s) = some ([], s) := by
  rw [readName_cons]
  simp only [not_copied h, Bool.false_eq_true, if_false]
  cases s with
  | nil => rfl
  | cons d s => exact if_neg fun hd => hs (congrArg some hd)

/-- The ways in which the reading of a name goes on. -/
theorem readName_step (ccsc : Ccsc) {P : ℕ → List Byte → Prop} (hnil : ∀ stat, P stat [])
    (hcopy : ∀ stat c s, isQuote ccsc stat c = false → P (nextStat ccsc stat c) s →
      P stat (c :: s))
    (hpair : ∀ stat c s, isQuote ccsc stat c = true →
      P (nextStat ccsc (nextStat ccsc stat c) IDENTIFIER_QUOTE) s →
      P stat (c :: IDENTIFIER_QUOTE :: s))
    (hclose : ∀ stat c s, isQuote ccsc stat c = true → s.head? ≠ some IDENTIFIER_QUOTE →
      P stat (c :: s)) (stat : ℕ) (s : List Byte) : P stat s := by
  induction hn : s.length using Nat.strong_induction_on generalizing s stat with
  | _ n ih =>
    match s with
    | [] => exact hnil stat
    | c :: s =>
      rw [List.length_cons] at hn
      cases hq : isQuote ccsc stat c with
      | false => exact hcopy _ _ _ hq (ih s.length (by omega) _ _ rfl)
      | true =>
        by_cases hs : s.head? = some IDENTIFIER_QUOTE
        · obtain ⟨rest, rfl⟩ : ∃ rest, s = IDENTIFIER_QUOTE :: rest := by
            cases s with
            | nil => cases hs
            | cons d s => exact ⟨s, by rw [Option.some.inj hs]⟩
          rw [List.length_cons] at hn
          exact hpair _ _ _ hq (ih rest.length (by omega) _ _ rfl)
        · exact hclose _ _ _ hq hs

/-- What is left is the end of what there was. -/
theorem readName_length (h : readName ccsc stat s = some (name, rest)) :
    rest.length < s.length := by
  induction stat, s using readName_step ccsc generalizing name with
  | hnil stat => cases h
  | hcopy stat c s hq ih =>
    rw [readName_copy hq] at h
    obtain ⟨⟨name', rest'⟩, hread, hcons⟩ := Option.map_eq_some_iff.mp h
    obtain ⟨-, rfl⟩ := Prod.mk.inj hcons
    have hlt := ih hread
    rw [List.length_cons]
    omega
  | hpair stat c s hq ih =>
    rw [readName_pair hq] at h
    obtain ⟨⟨name', rest'⟩, hread, hcons⟩ := Option.map_eq_some_iff.mp h
    obtain ⟨-, rfl⟩ := Prod.mk.inj hcons
    have hlt := ih hread
    simp only [List.length_cons]
    omega
  | hclose stat c s hq hs =>
    rw [readName_close hq hs] at h
    obtain ⟨-, rfl⟩ := Prod.mk.inj (Option.some.inj h)
    simp

theorem scanIdentifier_cons (ccsc : Ccsc) (dquote : Bool) (pos stat : ℕ) (tchar : Byte)
    (s : List Byte) :
    scanIdentifier ccsc dquote pos stat (tchar :: s) =
      let stat := nextStat ccsc stat tchar
      if nonAscii stat tchar then scanIdentifier ccsc dquote (pos + 1) stat s
      else if pos = 0 then
        if tchar = IDENTIFIER_QUOTE then scanIdentifier ccsc true 1 stat s
        else if !isAlpha tchar then (0, notSpaceFrom 0 (tchar :: s))
        else scanIdentifier ccsc false 1 stat s
      else if dquote then
        if tchar = IDENTIFIER_QUOTE then
          match s with
          | [] => ((pos + 1 : ℕ), none)
          | c :: s =>
            if c = IDENTIFIER_QUOTE then
              scanIdentifier ccsc true (pos + 2) (nextStat ccsc stat c) s
            else ((pos + 1 : ℕ), notSpaceFrom (pos + 1) (c :: s))
        else scanIdentifier ccsc true (pos + 1) stat s
      else if isAlnum tchar || tchar = 0x5f || tchar = 0x24 then
        scanIdentifier ccsc false (pos + 1) stat s
      else (pos, notSpaceFrom pos (tchar :: s)) := by
  cases s <;> rfl

theorem lowerOrRemove_cons (ccsc : Ccsc) (idQuote : Bool) (srclen i stat : ℕ) (tchar : Byte)
    (s : List Byte) :
    lowerOrRemove ccsc idQuote srclen i stat (tchar :: s) =
      if i < srclen then
        let stat := nextStat ccsc stat tchar
        if nonAscii stat tchar then tchar :: lowerOrRemove ccsc idQuote srclen (i + 1) stat s
        else if idQuote then
          if tchar = IDENTIFIER_QUOTE then
            if i = 0 ∨ i + 1 = srclen then lowerOrRemove ccsc idQuote srclen (i + 1) stat s
            else
              match s with
              | [] => []
              | c :: s => c :: lowerOrRemove ccsc idQuote srclen (i + 2) (nextStat ccsc stat c) s
          else tchar :: lowerOrRemove ccsc idQuote srclen (i + 1) stat s
        else tolower tchar :: lowerOrRemove ccsc idQuote srclen (i + 1) stat s
      else [] := by
  cases s <;> rfl

/-- `findIdentifier` behind the opening quote. -/
theorem scan_quoted (hpos : 0 < pos) (stat : ℕ) (s : List Byte) :
    scanIdentifier ccsc true pos stat s =
      match readName ccsc stat s with
      | none => (-1, none)
      | some (_, rest) => ((pos + (s.length - rest.length) : ℕ),
          notSpaceFrom (pos + (s.length - rest.length)) rest) := by
  induction stat, s using readName_step ccsc generalizing pos with
  | hnil stat => rfl
  | hcopy stat c s hq ih =>
    have hgo : scanIdentifier ccsc true pos stat (c :: s) =
        scanIdentifier ccsc true (pos + 1) (nextStat ccsc stat c) s := by
      rw [scanIdentifier_cons]
      dsimp only
      by_cases hn : nonAscii (nextStat ccsc stat c) c = true
      · rw [if_pos hn]
      · have hc : c ≠ IDENTIFIER_QUOTE := by
          rw [isQuote] at hq
          simp_all
        rw [if_neg hn, if_neg (by omega), if_pos rfl, if_neg hc]
    rw [hgo, ih (Nat.succ_pos _), readName_copy hq]
    cases hread : readName ccsc (nextStat ccsc stat c) s with
    | none => rfl
    | some r =>
      obtain ⟨name, rest⟩ := r
      have hlt := readName_length hread
      simp only [Option.map_some, List.length_cons]
      rw [show pos + 1 + (s.length - rest.length) = pos + (s.length + 1 - rest.length) by omega]
  | hpair stat c s hq ih =>
    have hgo : scanIdentifier ccsc true pos stat (c :: IDENTIFIER_QUOTE :: s) =
        scanIdentifier ccsc true (pos + 2)
          (nextStat ccsc (nextStat ccsc stat c) IDENTIFIER_QUOTE) s := by
      obtain ⟨hn, hc⟩ : nonAscii (nextStat ccsc stat c) c = false ∧ c = IDENTIFIER_QUOTE := by
        simpa [isQuote] using hq
      rw [scanIdentifier_cons]
      dsimp only
      rw [hn, if_neg Bool.false_ne_true, if_neg (by omega), if_pos rfl, if_pos hc, if_pos rfl]
    rw [hgo, ih (Nat.succ_pos _), readName_pair hq]
    cases hread : readName ccsc (nextStat ccsc (nextStat ccsc stat c) IDENTIFIER_QUOTE) s with
    | none => rfl
    | some r =>
      obtain ⟨name, rest⟩ := r
      have hlt := readName_length hread
      simp only [Option.map_some, List.length_cons]
      rw [show pos + 2 + (s.length - rest.length) = pos + (s.length + 1 + 1 - rest.length) by omega]
  | hclose stat c s hq hs =>
    obtain ⟨hn, hc⟩ : nonAscii (nextStat ccsc stat c) c = false ∧ c = IDENTIFIER_QUOTE := by
      simpa [isQuote] using hq
    rw [readName_close hq hs, scanIdentifier_cons]
    dsimp only
    rw [hn, if_neg Bool.false_ne_true, if_neg (by omega), if_pos rfl, if_pos hc, List.length_cons,
      show s.length + 1 - s.length = 1 by omega]
    cases s with
    | nil => rfl
    | cons d s => exact if_neg fun hd => hs (congrArg some hd)

/-- `lower_or_remove_dquote` behind the opening quote. -/
theorem remove_quoted (hi : 0 < i) (h : readName ccsc stat s = some (name, rest)) :
    lowerOrRemove ccsc true (i + (s.length - rest.length)) i stat s = name := by
  induction stat, s using readName_step ccsc generalizing i name with
  | hnil stat => cases h
  | hcopy stat c s hq ih =>
    have hlt := readName_length h
    rw [readName_copy hq] at h
    obtain ⟨⟨name', rest'⟩, hread, hcons⟩ := Option.map_eq_some_iff.mp h
    obtain ⟨rfl, rfl⟩ := Prod.mk.inj hcons
    have hlt' := readName_length hread
    have hrest := ih (Nat.succ_pos i) hread
    rw [show i + 1 + (s.length - rest'.length) = i + ((c :: s).length - rest'.length) by
      simp only [List.length_cons]; omega] at hrest
    rw [lowerOrRemove_cons, if_pos (by omega)]
    dsimp only
    by_cases hn : nonAscii (nextStat ccsc stat c) c = true
    · rw [if_pos hn, hrest]
    · have hc : c ≠ IDENTIFIER_QUOTE := by
        rw [isQuote] at hq
        simp_all
      rw [if_neg hn, if_pos rfl, if_neg hc, hrest]
  | hpair stat c s hq ih =>
    obtain ⟨hn, hc⟩ : nonAscii (nextStat ccsc stat c) c = false ∧ c = IDENTIFIER_QUOTE := by
      simpa [isQuote] using hq
    rw [readName_pair hq] at h
    obtain ⟨⟨name', rest'⟩, hread, hcons⟩ := Option.map_eq_some_iff.mp h
    obtain ⟨rfl, rfl⟩ := Prod.mk.inj hcons
    have hlt := readName_length hread
    have hrest := ih (i := i + 2) (Nat.succ_pos _) hread
    rw [show i + 2 + (s.length - rest'.length) =
      i + ((c :: IDENTIFIER_QUOTE :: s).length - rest'.length) by
        simp only [List.length_cons]; omega] at hrest
    have hlen : (c :: IDENTIFIER_QUOTE :: s).length = s.length + 2 := rfl
    rw [lowerOrRemove_cons, if_pos (by omega)]
    dsimp only
    rw [hn, if_neg Bool.false_ne_true, if_pos rfl, if_pos hc, if_neg (by omega), hrest]
  | hclose stat c s hq hs =>
    obtain ⟨hn, hc⟩ : nonAscii (nextStat ccsc stat c) c = false ∧ c = IDENTIFIER_QUOTE := by
      simpa [isQuote] using hq
    rw [readName_close hq hs] at h
    obtain ⟨rfl, rfl⟩ := Prod.mk.inj (Option.some.inj h)
    rw [List.length_cons, show s.length + 1 - s.length = 1 by omega, lowerOrRemove_cons,
      if_pos (by omega)]
    dsimp only
    rw [hn, if_neg Bool.false_ne_true, if_pos rfl, if_pos hc, if_pos (.inr rfl)]
    cases s with
    | nil => rfl
    | cons d s => rw [lowerOrRemove_cons, if_neg (by omega)]

/-- What is left behind a name ends the text. -/
theorem readName_suffix (h : readName ccsc stat s = some (name, rest)) : rest <:+ s := by
  induction stat, s using readName_step ccsc generalizing name with
  | hnil stat => cases h
  | hcopy stat c s hq ih =>
    rw [readName_copy hq] at h
    obtain ⟨⟨name', rest'⟩, hread, hcons⟩ := Option.map_eq_some_iff.mp h
    obtain ⟨-, rfl⟩ := Prod.mk.inj hcons
    exact (ih hread).trans (List.suffix_cons c s)
  | hpair stat c s hq ih =>
    rw [readName_pair hq] at h
    obtain ⟨⟨name', rest'⟩, hread, hcons⟩ := Option.map_eq_some_iff.mp h
    obtain ⟨-, rfl⟩ := Prod.mk.inj hcons
    exact (ih hread).trans ((List.suffix_cons _ s).trans (List.suffix_cons c _))
  | hclose stat c s hq hs =>
    rw [readName_close hq hs] at h
    obtain ⟨-, rfl⟩ := Prod.mk.inj (Option.some.inj h)
    exact List.suffix_cons c s

/-! ### Doubled quotes -/

/-- A name with its quotes doubled. -/
def doubled (name : List Byte) : List Byte :=
  name.flatMap fun c => if c = IDENTIFIER_QUOTE then [c, c] else [c]

theorem doubled_quote (name : List Byte) :
    doubled (IDENTIFIER_QUOTE :: name) = IDENTIFIER_QUOTE :: IDENTIFIER_QUOTE :: doubled name := rfl

theorem doubled_other (hc : c ≠ IDENTIFIER_QUOTE) (name : List Byte) :
    doubled (c :: name) = c :: doubled name := by
  rw [doubled, List.flatMap_cons, if_neg hc]
  rfl

/-- The walk meets the quotes of a name, and the quote that ends it, between characters. -/
def Settles (ccsc : Ccsc) : ℕ → List Byte → Prop
  | stat, [] => nextStat ccsc stat IDENTIFIER_QUOTE = 0
  | stat, c :: s =>
    if c = IDENTIFIER_QUOTE then nextStat ccsc stat IDENTIFIER_QUOTE = 0 ∧ Settles ccsc 0 s
    else Settles ccsc (nextStat ccsc stat c) s

instance Settles.decidable (ccsc : Ccsc) (stat : ℕ) (s : List Byte) :
    Decidable (Settles ccsc stat s) :=
  match s with
  | [] => inferInstanceAs (Decidable (_ = _))
  | c :: s =>
    have := Settles.decidable ccsc 0 s
    have := Settles.decidable ccsc (nextStat ccsc stat c) s
    inferInstanceAs (Decidable (ite _ _ _))

theorem isQuote_quote (ccsc : Ccsc) (stat : ℕ) :
    isQuote ccsc stat IDENTIFIER_QUOTE = true ↔ nextStat ccsc stat IDENTIFIER_QUOTE = 0 := by
  have hlow : ¬0x80 ≤ IDENTIFIER_QUOTE.toNat := by decide
  simp [isQuote, nonAscii, decide_eq_false hlow]

theorem isQuote_other (hc : c ≠ IDENTIFIER_QUOTE) (stat : ℕ) : isQuote ccsc stat c = false := by
  simp [isQuote, hc]

/-- A quote is no part of a longer character from state 0 on. -/
theorem nextStat_quote (ccsc : Ccsc) : nextStat ccsc 0 IDENTIFIER_QUOTE = 0 :=
  pg_CS_stat_ascii ccsc (by omega) (by decide)

/-- Surplus quotes in front of a name are not read away. -/
theorem readName_surplus (d : ℕ) (stat : ℕ) (s z : List Byte)
    (h : readName ccsc stat (List.replicate (d + 1) IDENTIFIER_QUOTE ++
      (doubled s ++ IDENTIFIER_QUOTE :: z)) = some (name, rest)) : name ≠ s := by
  induction s generalizing d stat name rest with
  | nil =>
    rw [List.replicate_succ, List.cons_append] at h
    have hnext : (List.replicate d IDENTIFIER_QUOTE ++
        (doubled [] ++ IDENTIFIER_QUOTE :: z)).head? = some IDENTIFIER_QUOTE := by
      cases d <;> rfl
    obtain ⟨tail, htail⟩ := List.head?_eq_some_iff.mp hnext
    rw [htail] at h
    cases hq : isQuote ccsc stat IDENTIFIER_QUOTE with
    | false =>
      rw [readName_copy hq] at h
      obtain ⟨_, -, hcons⟩ := Option.map_eq_some_iff.mp h
      exact fun hname => List.cons_ne_nil _ _ ((Prod.mk.inj hcons).1.trans hname)
    | true =>
      rw [readName_pair hq] at h
      obtain ⟨_, -, hcons⟩ := Option.map_eq_some_iff.mp h
      exact fun hname => List.cons_ne_nil _ _ ((Prod.mk.inj hcons).1.trans hname)
  | cons c s ih =>
    rintro rfl
    rw [List.replicate_succ, List.cons_append] at h
    by_cases hc : c = IDENTIFIER_QUOTE
    · -- The quotes of the name join the surplus, of which one or two are read.
      subst hc
      rw [doubled_quote] at h
      have hjoin : List.replicate d IDENTIFIER_QUOTE ++
          (IDENTIFIER_QUOTE :: IDENTIFIER_QUOTE :: doubled s ++ IDENTIFIER_QUOTE :: z) =
          List.replicate (d + 1 + 1) IDENTIFIER_QUOTE ++ (doubled s ++ IDENTIFIER_QUOTE :: z) := by
        simp [List.replicate_succ', List.append_assoc]
      rw [hjoin] at h
      cases hq : isQuote ccsc stat IDENTIFIER_QUOTE with
      | false =>
        rw [readName_copy hq] at h
        obtain ⟨⟨name', rest'⟩, hread, hcons⟩ := Option.map_eq_some_iff.mp h
        obtain ⟨hname, -⟩ := Prod.mk.inj hcons
        exact ih (d + 1) _ hread (List.cons.inj hname).2
      | true =>
        rw [List.replicate_succ, List.cons_append, readName_pair hq] at h
        obtain ⟨⟨name', rest'⟩, hread, hcons⟩ := Option.map_eq_some_iff.mp h
        obtain ⟨hname, -⟩ := Prod.mk.inj hcons
        exact ih d _ hread (List.cons.inj hname).2
    · cases hq : isQuote ccsc stat IDENTIFIER_QUOTE with
      | false =>
        rw [readName_copy hq] at h
        obtain ⟨_, -, hcons⟩ := Option.map_eq_some_iff.mp h
        exact hc (List.cons.inj (Prod.mk.inj hcons).1).1.symm
      | true =>
        by_cases hnext : (List.replicate d IDENTIFIER_QUOTE ++
            (doubled (c :: s) ++ IDENTIFIER_QUOTE :: z)).head? = some IDENTIFIER_QUOTE
        · obtain ⟨tail, htail⟩ := List.head?_eq_some_iff.mp hnext
          rw [htail, readName_pair hq] at h
          obtain ⟨_, -, hcons⟩ := Option.map_eq_some_iff.mp h
          exact hc (List.cons.inj (Prod.mk.inj hcons).1).1.symm
        · rw [readName_close hq hnext] at h
          exact List.cons_ne_nil _ _ (Prod.mk.inj (Option.some.inj h)).1.symm

/-- A name with doubled quotes is read back, up to the quote behind it, exactly if it settles. -/
theorem readName_doubled (hz : z.head? ≠ some IDENTIFIER_QUOTE) :
    readName ccsc stat (doubled s ++ IDENTIFIER_QUOTE :: z) = some (s, rest) ↔
      Settles ccsc stat s ∧ rest = z := by
  induction s generalizing stat with
  | nil =>
    change readName ccsc stat (IDENTIFIER_QUOTE :: z) = some ([], rest) ↔ _
    rw [Settles, ← isQuote_quote]
    cases hq : isQuote ccsc stat IDENTIFIER_QUOTE with
    | true => simp [readName_close hq hz, eq_comm]
    | false => simp [readName_copy hq]
  | cons c s ih =>
    by_cases hc : c = IDENTIFIER_QUOTE
    · subst hc
      rw [doubled_quote, Settles, if_pos rfl]
      cases hq : isQuote ccsc stat IDENTIFIER_QUOTE with
      | true =>
        have hstat := (isQuote_quote ccsc stat).mp hq
        have hread := readName_pair (s := doubled s ++ IDENTIFIER_QUOTE :: z) hq
        rw [hstat, nextStat_quote] at hread
        rw [List.cons_append, List.cons_append, hread, and_assoc, and_iff_right hstat, ← ih,
          Option.map_eq_some_iff]
        simp
      | false =>
        have hstat : nextStat ccsc stat IDENTIFIER_QUOTE ≠ 0 := fun h =>
          Bool.false_ne_true (hq.symm.trans ((isQuote_quote ccsc stat).mpr h))
        rw [List.cons_append, readName_copy hq]
        constructor
        · intro h
          obtain ⟨⟨name', rest'⟩, hread, hcons⟩ := Option.map_eq_some_iff.mp h
          obtain ⟨hname, -⟩ := Prod.mk.inj hcons
          exact absurd (List.cons.inj hname).2 (readName_surplus 0 _ s z hread)
        · exact fun h => absurd h.1.1 hstat
    · rw [doubled_other hc, Settles, if_neg hc, List.cons_append,
        readName_copy (isQuote_other hc stat), ← ih, Option.map_eq_some_iff]
      simp

/-! ### Names of a table -/

/-- What is read of a text that begins with a quote. -/
theorem eatName_quoted (ccsc : Ccsc) (first : Bool) (s : List Byte) :
    eatName ccsc first (IDENTIFIER_QUOTE :: s) =
      (readName ccsc 0 s).map fun (name, rest) =>
        (name, if rest.head? = some 0x2e then some rest.tail else none) := by
  have hfind : findIdentifier ccsc (IDENTIFIER_QUOTE :: s) = scanIdentifier ccsc true 1 0 s := by
    have hlow : nonAscii 0 IDENTIFIER_QUOTE = false := by decide
    rw [findIdentifier, scanIdentifier_cons]
    simp only [nextStat_quote, hlow, Bool.false_eq_true, if_false, if_true]
  rw [eatName, hfind, scan_quoted Nat.one_pos]
  cases hread : readName ccsc 0 s with
  | none => rfl
  | some r =>
    obtain ⟨name, rest⟩ := r
    have hlt := readName_length hread
    have hremove : lower_or_remove_dquote ccsc (IDENTIFIER_QUOTE :: s)
        (1 + (s.length - rest.length)) = name := by
      have hlow : nonAscii 0 IDENTIFIER_QUOTE = false := by decide
      have hrest := remove_quoted Nat.one_pos hread
      rw [lower_or_remove_dquote, lowerOrRemove_cons, if_pos (by omega)]
      simpa [nextStat_quote, hlow] using hrest
    have hdrop : s.drop (s.length - rest.length) = rest :=
      (List.suffix_iff_eq_drop.mp (readName_suffix hread)).symm
    have hpoint : beforePoint (IDENTIFIER_QUOTE :: s) (1 + (s.length - rest.length))
        (notSpaceFrom (1 + (s.length - rest.length)) rest) = decide (rest.head? = some 0x2e) := by
      rw [beforePoint, Nat.add_comm 1, List.getElem?_cons_succ, ← List.head?_drop, hdrop]
      cases rest with
      | nil => rfl
      | cons c rest =>
        by_cases hc : c = 0x2e
        · subst hc
          simp [notSpaceFrom, isSpace]
        · simp [hc]
    have hbehind : (IDENTIFIER_QUOTE :: s).drop (1 + (s.length - rest.length) + 1) = rest.tail := by
      rw [List.drop_succ_cons, Nat.add_comm 1, ← List.tail_drop, hdrop]
    simp only [Option.map_some, Int.toNat_natCast, hremove, hpoint, hbehind, List.head?_cons]
    rw [if_neg (by omega)]
    simp

/-- The bytes of a text, quotes aside. -/
def plain (s : List Byte) : ℕ := s.countP (· ≠ IDENTIFIER_QUOTE)

theorem plain_append (s t : List Byte) : plain (s ++ t) = plain s + plain t :=
  List.countP_append

theorem plain_cons (c : Byte) (s : List Byte) : plain (c :: s) = plain [c] + plain s :=
  plain_append [c] s

theorem plain_tolower (c : Byte) : plain [tolower c] ≤ plain [c] := by
  by_cases hc : c = IDENTIFIER_QUOTE
  · subst hc
    decide
  · have hone : plain [c] = 1 := by simp [plain, hc]
    rw [hone]
    exact List.countP_le_length

theorem plain_lowerOrRemove (ccsc : Ccsc) (idQuote : Bool) (srclen i stat : ℕ) (s : List Byte) :
    plain (lowerOrRemove ccsc idQuote srclen i stat s) ≤ plain (s.take (srclen - i)) := by
  induction hn : s.length using Nat.strong_induction_on generalizing s i stat with
  | _ n ih =>
    cases s with
    | nil => exact Nat.zero_le _
    | cons tchar s =>
      rw [List.length_cons] at hn
      rw [lowerOrRemove_cons]
      by_cases hi : i < srclen
      · have htake : (tchar :: s).take (srclen - i) = tchar :: s.take (srclen - (i + 1)) := by
          rw [show srclen - i = srclen - (i + 1) + 1 by omega, List.take_succ_cons]
        have hrest := ih s.length (by omega) (i + 1) (nextStat ccsc stat tchar) s rfl
        have hlower := plain_tolower tchar
        rw [if_pos hi, htake, plain_cons tchar]
        dsimp only
        split
        · rw [plain_cons]
          omega
        split
        · split
          · split
            · omega
            · cases s with
              | nil => exact Nat.zero_le _
              | cons c s =>
                have hrest := ih s.length (by rw [← hn, List.length_cons]; omega) (i + 2)
                  (nextStat ccsc (nextStat ccsc stat tchar) c) s rfl
                rw [show srclen - (i + 1) = srclen - (i + 2) + 1 by omega, List.take_succ_cons,
                  plain_cons c (List.take _ s), plain_cons c (lowerOrRemove _ _ _ _ _ s)]
                omega
          · rw [plain_cons]
            omega
        · rw [plain_cons]
          omega
      · rw [if_neg hi]
        exact Nat.zero_le _

/-- A name and what is left behind its point are parts of the text. -/
theorem plain_eatName {first : Bool} {behind : Option (List Byte)}
    (h : eatName ccsc first s = some (name, behind)) :
    plain name + (behind.map fun rest => 1 + plain rest).getD 0 ≤ plain s := by
  rw [eatName] at h
  generalize findIdentifier ccsc s = found at h
  obtain ⟨len, next_token⟩ := found
  dsimp only at h
  split at h
  · cases h
  obtain ⟨hname, hbehind⟩ := Prod.mk.inj (Option.some.inj h)
  have hle : plain name ≤ plain (s.take len.toNat) := by
    rw [← hname]
    split
    · exact le_rfl
    · exact plain_lowerOrRemove ccsc _ len.toNat 0 0 s
  have hsplit : plain s = plain (s.take len.toNat) + plain (s.drop len.toNat) := by
    rw [← plain_append, List.take_append_drop]
  rw [← hbehind]
  split
  next hpoint =>
    have hget : s[len.toNat]? = some 0x2e := by
      rw [beforePoint, Bool.and_eq_true, decide_eq_true_eq, decide_eq_true_eq] at hpoint
      exact hpoint.2
    obtain ⟨hlt, hval⟩ := List.getElem?_eq_some_iff.mp hget
    have hdrop : plain (s.drop len.toNat) = 1 + plain (s.drop (len.toNat + 1)) := by
      rw [List.drop_eq_getElem_cons hlt, hval, plain_cons]
      rfl
    simp only [Option.map_some, Option.getD_some]
    omega
  next =>
    simp only [Option.map_none, Option.getD_none]
    omega

theorem plain_dropWhile (p : Byte → Bool) (s : List Byte) : plain (s.dropWhile p) ≤ plain s :=
  (List.dropWhile_sublist p).countP_le

/-- Names that are read, and the point between them, have no more bytes than the text. -/
theorem plain_eatTableIdentifiers {table : List Byte} {schema : Option (List Byte)}
    (h : eatTableIdentifiers ccsc s = ⟨true, some table, schema⟩) :
    plain table + (schema.map fun name => 1 + plain name).getD 0 ≤ plain s := by
  have hle := plain_dropWhile isSpace s
  rw [eatTableIdentifiers] at h
  split at h
  · cases h
  next hfirst =>
    have hone := plain_eatName hfirst
    cases h
    simp only [Option.map_none, Option.getD_none] at hone ⊢
    omega
  next hfirst =>
    have hone := plain_eatName hfirst
    split at h
    · cases h
    next hsecond =>
      have htwo := plain_eatName hsecond
      cases h
      simp only [Option.map_none, Option.map_some, Option.getD_none, Option.getD_some]
        at hone htwo ⊢
      omega
    next hsecond =>
      have htwo := plain_eatName hsecond
      split at h
      · cases h
      next hthird =>
        have hthree := plain_eatName hthird
        cases h
        simp only [Option.map_some, Option.getD_some] at hone htwo hthree ⊢
        omega

end OdbcDriver.Identifiers
