import OdbcDriver.Encoding.Characters

/-!
# The server's string literals

What a string literal means to the server. It divides the statement into characters of the
client encoding first, so that a byte of a longer character is never a quote or a backslash. A
literal is closed by a quote that no other quote follows; two quotes are one. Backslashes
escape in a literal with an `E` before it, and in every literal while
`standard_conforming_strings` is off.
-/

namespace OdbcDriver.Server

def quote : Chr := [0x27]
def backslash : Chr := [0x5c]

/-- The server's settings for literals. -/
structure Settings where
  standard_conforming_strings : Bool
  /-- The characters an escape sequence other than a double backslash stands for, and what
  follows it; it is read from behind its backslash. -/
  escapeSequence : List Chr → Option (List Chr × List Chr)

/-- The rest of a literal: its value, and the text behind its closing quote. `escapes` says
whether backslashes escape; `fuel` bounds the number of characters and sequences read. -/
def readBody (s : Settings) (escapes : Bool) : Nat → List Chr → Option (List Chr × List Chr)
  | 0, _ => none
  | _ + 1, [] => none
  | fuel + 1, c :: text =>
    if c = quote then
      match text with
      | d :: text' =>
        if d = quote then (readBody s escapes fuel text').map fun (v, rest) => (quote :: v, rest)
        else some ([], text)
      | [] => some ([], [])
    else if escapes ∧ c = backslash then
      match text with
      | d :: text' =>
        if d = backslash then
          (readBody s escapes fuel text').map fun (v, rest) => (backslash :: v, rest)
        else
          match s.escapeSequence text with
          | some (e, text') => (readBody s escapes fuel text').map fun (v, rest) => (e ++ v, rest)
          | none => none
      | [] => none
    else (readBody s escapes fuel text).map fun (v, rest) => (c :: v, rest)

/-- The literal at the front of a text: its value, and the text behind it. -/
def readLiteral (s : Settings) : List Chr → Option (List Chr × List Chr)
  | [] => none
  | c :: text =>
    if c = quote then readBody s (!s.standard_conforming_strings) text.length text
    else if c = [0x45] ∨ c = [0x65] then
      match text with
      | [] => none
      | d :: text => if d = quote then readBody s true text.length text else none
    else none

/-! ### Reading back what was escaped -/

/-- A value as it is written in a literal: quotes are doubled, and so are backslashes where
they escape. -/
def escape (escapes : Bool) (value : List Chr) : List Chr :=
  value.flatMap fun c => if c = quote ∨ (escapes ∧ c = backslash) then [c, c] else [c]

@[simp]
theorem escape_nil (escapes : Bool) : escape escapes [] = [] := rfl

theorem escape_cons (escapes : Bool) (c : Chr) (value : List Chr) :
    escape escapes (c :: value) =
      (if c = quote ∨ (escapes ∧ c = backslash) then [c, c] else [c]) ++ escape escapes value :=
  rfl

/-- An escaped value, closed with a quote, reads back as the value, whatever follows the
quote. -/
theorem readBody_escape (s : Settings) (escapes : Bool) {value rest : List Chr}
    (hrest : rest.head? ≠ some quote) :
    ∀ {fuel : Nat}, (escape escapes value ++ quote :: rest).length ≤ fuel →
      readBody s escapes fuel (escape escapes value ++ quote :: rest) = some (value, rest) := by
  induction value with
  | nil =>
    intro fuel hfuel
    obtain ⟨fuel, rfl⟩ : ∃ k, fuel = k + 1 := ⟨fuel - 1, by simp at hfuel; omega⟩
    cases rest with
    | nil => simp [readBody]
    | cons d rest =>
      have hd : d ≠ quote := fun h => hrest (by rw [h]; rfl)
      simp [readBody, hd]
  | cons c value ih =>
    intro fuel hfuel
    obtain ⟨fuel, rfl⟩ : ∃ k, fuel = k + 1 := ⟨fuel - 1, by simp at hfuel; omega⟩
    rw [escape_cons] at hfuel ⊢
    by_cases hquote : c = quote
    · subst hquote
      simp only [true_or, if_true, List.cons_append, List.nil_append, List.length_cons] at hfuel ⊢
      simp [readBody, @ih fuel (by omega)]
    · by_cases hback : escapes = true ∧ c = backslash
      · obtain ⟨hesc, rfl⟩ := hback
        simp only [hesc, and_self, or_true, if_true, List.cons_append, List.nil_append,
          List.length_cons] at hfuel ⊢
        rw [hesc] at ih
        have hne : backslash ≠ quote := by decide
        simp [readBody, hne, @ih fuel (by omega)]
      · simp only [hquote, hback, or_self, if_false, List.cons_append, List.nil_append,
          List.length_cons] at hfuel ⊢
        simp only [readBody, if_neg hquote, if_neg hback, @ih fuel (by omega),
          Option.map_some]

/-- Where no escape sequence but the double backslash is known, only an escaped value is read. -/
theorem eq_escape_of_readBody {s : Settings} (hnone : ∀ text, s.escapeSequence text = none)
    {escapes : Bool} {fuel : Nat} {text value rest : List Chr}
    (h : readBody s escapes fuel text = some (value, rest)) :
    text = escape escapes value ++ quote :: rest := by
  induction fuel generalizing text value with
  | zero => cases h
  | succ fuel ih =>
    -- a character is read, and what is read behind it is escaped
    have hmap : ∀ {c : Chr} {text' : List Chr},
        (readBody s escapes fuel text').map (fun (v, rest) => (c :: v, rest)) =
          some (value, rest) →
        ∃ v, value = c :: v ∧ text' = escape escapes v ++ quote :: rest := by
      intro c text' hread
      obtain ⟨⟨v, rest'⟩, hv, heq⟩ := Option.map_eq_some_iff.mp hread
      obtain ⟨rfl, rfl⟩ := Prod.mk.inj heq
      exact ⟨v, rfl, ih hv⟩
    cases text with
    | nil => cases h
    | cons c text =>
      rw [readBody.eq_def] at h
      simp only at h
      split at h
      · rename_i hquote
        subst hquote
        cases text with
        | nil =>
          obtain ⟨rfl, rfl⟩ := Prod.mk.inj (Option.some.inj h)
          rfl
        | cons d text =>
          simp only at h
          split at h
          · rename_i hd
            obtain ⟨v, rfl, htext⟩ := hmap h
            rw [escape_cons, if_pos (.inl rfl), hd, htext]
            rfl
          · obtain ⟨rfl, rfl⟩ := Prod.mk.inj (Option.some.inj h)
            rfl
      · rename_i hquote
        split at h
        · rename_i hback
          obtain ⟨hesc, rfl⟩ := hback
          cases text with
          | nil => cases h
          | cons d text =>
            simp only [hnone] at h
            split at h
            · rename_i hd
              obtain ⟨v, rfl, htext⟩ := hmap h
              rw [escape_cons, if_pos (.inr ⟨hesc, rfl⟩), hd, htext]
              rfl
            · cases h
        · rename_i hback
          obtain ⟨v, rfl, htext⟩ := hmap h
          rw [escape_cons, if_neg (not_or.mpr ⟨hquote, hback⟩), htext]
          rfl

end OdbcDriver.Server
