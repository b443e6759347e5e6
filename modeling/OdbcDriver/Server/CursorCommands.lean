import OdbcDriver.Lexer.Status
import OdbcDriver.Lib.Delimited
import OdbcDriver.Lib.Scanf

/-!
# Commands for a cursor

The grammar by which the server reads a command for a cursor whose name is quoted, comments aside.
A query behind `FOR` is left as it is.

* `readCommand`: one command, and the text behind it;
* `commands`: the commands of a text, or nothing where a part of it is not in the grammar.
-/

namespace OdbcDriver.Server

open Delimited

/-- Where a cursor is moved. -/
inductive Movement
  | forward (count : ℤ)
  | backward (count : ℤ)
  | all
deriving DecidableEq, Repr

/-- A command for a cursor, or the end of a transaction. -/
inductive CursorCommand
  | declare (cursor : List Byte) (scroll hold : Bool) (query : List Byte)
  | fetch (count : ℤ) (cursor : List Byte)
  | move (movement : Movement) (cursor : List Byte)
  | close (cursor : List Byte)
  | commit
deriving DecidableEq, Repr

/-- The cursor of a command. -/
def CursorCommand.cursor : CursorCommand → Option (List Byte)
  | .declare cursor _ _ _ => some cursor
  | .fetch _ cursor => some cursor
  | .move _ cursor => some cursor
  | .close cursor => some cursor
  | .commit => none

/-! ### Tokens -/

/-- A letter, with those behind ASCII, or an underscore. -/
def startsWord (b : Byte) : Bool :=
  (isAlnum b && !isDigit b) || b = UNDERSCORE || 0x80 ≤ b

/-- A byte of a word behind its first one. -/
def continuesWord (b : Byte) : Bool := startsWord b || isDigit b || b = DOLLAR_QUOTE

/-- The word in front, in lower case, and the text behind it; there is none where something else
stands. -/
def readWord (text : List Byte) : List Byte × List Byte :=
  match Scanf.skip text with
  | [] => ([], [])
  | b :: rest =>
    if startsWord b then
      ((b :: rest.takeWhile continuesWord).map tolower, rest.dropWhile continuesWord)
    else ([], b :: rest)

/-- The text behind a keyword. -/
def readKeyword (keyword : String) (text : List Byte) : Option (List Byte) :=
  let (word, rest) := readWord text
  if word = ascii keyword then some rest else none

/-- An integer, and the text behind it. The grammar takes 31 bits and a sign. -/
def readNumber (text : List Byte) : Option (ℤ × List Byte) :=
  (Scanf.number none (Scanf.skip text)).filter fun (n, _) => decide (n.natAbs < 2 ^ 31)

/-- A quoted name, and the text behind it. A name has a character at least. -/
def readCursor (text : List Byte) : Option (List Byte × List Byte) :=
  match Scanf.skip text with
  | [] => none
  | b :: rest =>
    if b = IDENTIFIER_QUOTE then
      (readDelimited IDENTIFIER_QUOTE rest).filter fun (name, _) => decide (name ≠ [])
    else none

/-! ### Commands -/

/-- The cursor behind `IN`. -/
def readIn (text : List Byte) : Option (List Byte × List Byte) :=
  (readKeyword "in" text).bind readCursor

/-- What follows `MOVE`. -/
def readMove (text : List Byte) : Option (CursorCommand × List Byte) :=
  let (word, rest) := readWord text
  if word = ascii "all" then
    (readIn rest).map fun (cursor, rest) => (.move .all cursor, rest)
  else if word = ascii "backward" then
    (readNumber rest).bind fun (n, rest) =>
      (readIn rest).map fun (cursor, rest) => (.move (.backward n) cursor, rest)
  else
    (readNumber text).bind fun (n, rest) =>
      (readIn rest).map fun (cursor, rest) => (.move (.forward n) cursor, rest)

/-- The text behind a keyword that may be left out, and whether it is there. -/
def readOption (keyword : String) (text : List Byte) : Bool × List Byte :=
  match readKeyword keyword text with
  | some rest => (true, rest)
  | none => (false, text)

/-- What follows the name in `DECLARE`. -/
def readDeclare (cursor : List Byte) (text : List Byte) : Option (CursorCommand × List Byte) :=
  let (scroll, text) := readOption "scroll" text
  (readKeyword "cursor" text).bind fun text =>
    match readOption "with" text with
    | (false, text) =>
      (readKeyword "for" text).map fun query => (.declare cursor scroll false query, [])
    | (true, text) =>
      (readKeyword "hold" text).bind fun text =>
        (readKeyword "for" text).map fun query => (.declare cursor scroll true query, [])

/-- One command, and the text behind it. -/
def readCommand (text : List Byte) : Option (CursorCommand × List Byte) :=
  let (word, rest) := readWord text
  if word = ascii "close" then
    (readCursor rest).map fun (cursor, rest) => (.close cursor, rest)
  else if word = ascii "fetch" then
    (readNumber rest).bind fun (n, rest) =>
      (readIn rest).map fun (cursor, rest) => (.fetch n cursor, rest)
  else if word = ascii "move" then readMove rest
  else if word = ascii "declare" then
    (readCursor rest).bind fun (cursor, rest) => readDeclare cursor rest
  else if word = ascii "commit" then some (.commit, rest)
  else none

/-- Commands with semicolons between them. -/
def readCommands : ℕ → List Byte → Option (List CursorCommand)
  | 0, _ => none
  | fuel + 1, text =>
    (readCommand text).bind fun (command, rest) =>
      match Scanf.skip rest with
      | [] => some [command]
      | b :: rest =>
        if b = SEMICOLON then (readCommands fuel rest).map (command :: ·) else none

/-- The commands of a text. -/
def commands (text : List Byte) : Option (List CursorCommand) :=
  readCommands (text.length + 1) text

section

variable {text rest : List Byte} {command : CursorCommand} {fuel : ℕ}

theorem readCommands_none (h : readCommand text = none) : readCommands fuel text = none := by
  cases fuel with
  | zero => rfl
  | succ fuel => rw [readCommands, h, Option.bind_none]

theorem readCommands_end (h : readCommand text = some (command, [])) :
    readCommands (fuel + 1) text = some [command] := by
  rw [readCommands, h]
  rfl

theorem readCommands_more (h : readCommand text = some (command, SEMICOLON :: rest)) :
    readCommands (fuel + 1) text = (readCommands fuel rest).map (command :: ·) := by
  rw [readCommands, h]
  rfl

/-- The first command is the one in front. -/
theorem head_of_readCommands {first : CursorCommand} {more : List CursorCommand}
    (hread : readCommands fuel text = some (first :: more)) :
    ∃ rest, readCommand text = some (first, rest) := by
  cases fuel with
  | zero => cases hread
  | succ fuel =>
    rw [readCommands, Option.bind_eq_some_iff] at hread
    obtain ⟨⟨command, rest⟩, hcommand, htail⟩ := hread
    refine ⟨rest, ?_⟩
    dsimp only at htail
    split at htail
    · obtain ⟨rfl, -⟩ := List.cons.inj (Option.some.inj htail)
      exact hcommand
    · split_ifs at htail
      · obtain ⟨more', -, heq⟩ := Option.map_eq_some_iff.mp htail
        obtain ⟨rfl, -⟩ := List.cons.inj heq
        exact hcommand

end

/-! ### Reading a number and a name -/

variable {ds rest name back : List Byte} {k : ℕ}

/-- No word begins with a digit. -/
theorem not_startsWord {c : Byte} (hc : Decimal.IsDigit c) : startsWord c = false := by
  have hlow := hc.1
  have hhigh := hc.2
  have hdigit : isDigit c = true := by
    simp only [isDigit, Bool.and_eq_true, decide_eq_true_eq, UInt8.le_iff_toNat_le,
      UInt8.reduceToNat]
    omega
  have hscore : c ≠ UNDERSCORE := by
    rintro rfl
    exact absurd hc (by decide)
  have hascii : ¬0x80 ≤ c := by
    rw [UInt8.le_iff_toNat_le]
    simp only [UInt8.reduceToNat]
    omega
  simp [startsWord, hdigit, hscore, hascii]

theorem readNumber_decimal (n : ℤ) (rest : List Byte)
    (hrest : ∀ c ∈ rest.head?, ¬Decimal.IsDigit c) :
    readNumber (0x20 :: (Scanf.decimal 1 n ++ rest)) =
      if n.natAbs < 2 ^ 31 then some (n, rest) else none := by
  have hdigits := Scanf.digits_isDigit 1 n.natAbs
  have hne := Scanf.digits_ne_nil Nat.one_pos n.natAbs
  have hskip : Scanf.skip ([0x20] ++ (Scanf.signText (decide (n < 0)) ++
      (Scanf.digits 1 n.natAbs ++ rest))) =
      Scanf.signText (decide (n < 0)) ++ (Scanf.digits 1 n.natAbs ++ rest) :=
    (Scanf.skip_number (List.forall_mem_singleton.mpr rfl) hdigits hne).1
  have hnumber : Scanf.number none (Scanf.signText (decide (n < 0)) ++
      (Scanf.digits 1 n.natAbs ++ rest)) = some (Scanf.signed (decide (n < 0))
        (Decimal.digitsValue (Scanf.digits 1 n.natAbs)), rest) :=
    Scanf.number_eq hdigits hne ⟨nofun, .inl hrest⟩
  have hn : Scanf.signed (decide (n < 0)) (Decimal.digitsValue (Scanf.digits 1 n.natAbs)) = n := by
    rw [Scanf.digitsValue_digits, Scanf.signed]
    simp only [decide_eq_true_eq]
    split <;> omega
  rw [hn] at hnumber
  rw [readNumber, Scanf.decimal, List.append_assoc]
  rw [List.singleton_append] at hskip
  rw [hskip, hnumber, Option.filter_some]
  simp only [decide_eq_true_eq]

/-- There is no word where a number stands. -/
theorem readWord_decimal (n : ℕ) (rest : List Byte) :
    (readWord (0x20 :: (Scanf.decimal 1 n ++ rest))).1 = [] := by
  have hdigits := Scanf.digits_isDigit 1 n
  obtain ⟨c, ds, hds⟩ := List.exists_cons_of_ne_nil (Scanf.digits_ne_nil Nat.one_pos n)
  have hc := hdigits c (hds ▸ List.mem_cons_self)
  have hdecimal : Scanf.decimal 1 n = c :: ds := by
    have hn : ¬(n : ℤ) < 0 := by omega
    rw [Scanf.decimal, Int.natAbs_natCast, hds, decide_eq_false hn]
    rfl
  have hskip : Scanf.skip ([0x20] ++ c :: (ds ++ rest)) = c :: (ds ++ rest) := by
    refine Scanf.skip_append (List.forall_mem_singleton.mpr rfl) fun b hb => ?_
    obtain rfl := Option.some.inj hb
    exact Scanf.not_space_of_isDigit hc
  have hstart : startsWord c = false := not_startsWord hc
  rw [List.singleton_append] at hskip
  rw [readWord, hdecimal, List.cons_append, hskip]
  simp only [hstart, Bool.false_eq_true, if_false]

/-- A number behind `MOVE` is no word. -/
theorem readMove_number (n : ℕ) (rest : List Byte) :
    readMove (0x20 :: (Scanf.decimal 1 n ++ rest)) =
      (readNumber (0x20 :: (Scanf.decimal 1 n ++ rest))).bind fun (n, rest) =>
        (readIn rest).map fun (cursor, rest) => (.move (.forward n) cursor, rest) := by
  have hall : ¬([] : List Byte) = ascii "all" := nofun
  have hback : ¬([] : List Byte) = ascii "backward" := nofun
  rw [readMove]
  simp only [readWord_decimal, if_neg hall, if_neg hback]

/-- `DECLARE` is for the name in front. -/
theorem readDeclare_cursor {cursor text : List Byte} {p : CursorCommand × List Byte}
    (h : readDeclare cursor text = some p) : p.1.cursor = some cursor := by
  simp only [readDeclare] at h
  obtain ⟨text', -, h⟩ := Option.bind_eq_some_iff.mp h
  split at h
  · obtain ⟨query, -, rfl⟩ := Option.map_eq_some_iff.mp h
    rfl
  · obtain ⟨text'', -, h⟩ := Option.bind_eq_some_iff.mp h
    obtain ⟨query, -, rfl⟩ := Option.map_eq_some_iff.mp h
    rfl

/-- A name that is pasted between quotes, and cut somewhere behind the first of them. -/
theorem readCursor_pasted (hback : back.head? ≠ some IDENTIFIER_QUOTE) :
    readCursor (IDENTIFIER_QUOTE :: (name ++ IDENTIFIER_QUOTE :: back).take k) =
      some (name, rest) ↔
    name ≠ [] ∧ IDENTIFIER_QUOTE ∉ name ∧ name.length < k ∧
      rest = back.take (k - name.length - 1) := by
  have hskip : Scanf.skip (IDENTIFIER_QUOTE :: (name ++ IDENTIFIER_QUOTE :: back).take k) =
      IDENTIFIER_QUOTE :: (name ++ IDENTIFIER_QUOTE :: back).take k :=
    Scanf.skip_self fun c hc => by cases hc; decide
  rw [readCursor, hskip]
  simp only [if_true]
  rw [Option.filter_eq_some_iff, readDelimited_pasted hback]
  simp only [decide_eq_true_eq]
  exact and_comm

end OdbcDriver.Server
