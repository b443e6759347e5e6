import OdbcDriver.Server.CursorCommands

/-!
# The names of cursors in commands

The name of a cursor is pasted between two quotes into the commands that the driver sends for the
cursor. Its own quotes are not doubled, and the buffers of some commands have 64 bytes.

* `pasted_eq`: a command as a name between quotes, cut at a length;
* `readCommand_front`: how the server reads a command up to the name;
* `cursor_commands_iff`: the names with which a command is read as it is meant.
-/

namespace OdbcDriver.CursorNames

open Delimited Server

/-! ### The driver -/

/-- `SPRINTF_FIXED`, into `size` bytes. -/
def SPRINTF_FIXED (size : ℕ) (text : List Byte) : List Byte := (Scanf.snprintf size text).1

/-- `STRCAT_FIXED`, into `size` bytes. -/
def STRCAT_FIXED (size : ℕ) (buf text : List Byte) : List Byte := (buf ++ text).take (size - 1)

/-- What `QR_close` looks at: whether the connection is in a transaction and commits on its own,
how many cursors it has, and whether it has to be checked that the cursor survives. -/
structure Closing where
  in_trans : Bool
  autocommit : Bool
  cursor_count : ℕ
  needs_survival_check : Bool
deriving DecidableEq, Repr

/-- There are no cursors left, and the transaction is ended by the same text. -/
def Closing.commits (c : Closing) : Bool :=
  c.in_trans && c.autocommit && decide (c.cursor_count ≤ 1) && !c.needs_survival_check

/-- `QR_close` -/
def QR_close (closing : Closing) (cursor : List Byte) : List Byte :=
  let buf := SPRINTF_FIXED 64 (ascii "close \"" ++ cursor ++ ascii "\"")
  if closing.commits then STRCAT_FIXED 64 buf (ascii ";commit") else buf

/-- `QR_move_cursor_to_last` -/
def QR_move_cursor_to_last (cursor : List Byte) : List Byte :=
  SPRINTF_FIXED 64 (ascii "move all in \"" ++ cursor ++ ascii "\"")

/-- How a result is moving. -/
inductive Moving
  | backward
  | forward
  | toLast
deriving DecidableEq, Repr

/-- The `MOVE` of `QR_next_tuple`; `movement` is a `SQLULEN`. -/
def QR_next_tuple_move (moving : Moving) (movement : BitVec 64) (cursor : List Byte) :
    List Byte :=
  match moving with
  | .backward => SPRINTF_FIXED 256 (ascii "move backward " ++ Scanf.decimal 1 movement.toNat ++
      ascii " in \"" ++ cursor ++ ascii "\"")
  | .forward => SPRINTF_FIXED 256 (ascii "move " ++ Scanf.decimal 1 movement.toNat ++
      ascii " in \"" ++ cursor ++ ascii "\"")
  | .toLast => SPRINTF_FIXED 256 (ascii "move all in \"" ++ cursor ++ ascii "\"")

/-- The `FETCH` of `QR_next_tuple`; `fetch_size` is an `int`. -/
def QR_next_tuple_fetch (fetch_size : BitVec 32) (cursor : List Byte) : List Byte :=
  SPRINTF_FIXED 128 (ascii "fetch " ++ Scanf.decimal 1 fetch_size.toInt ++ ascii " in \"" ++
    cursor ++ ascii "\"")

/-- The `FETCH` of `SC_execute`; `fetch_max` is an `int`, which is written as a `SQLLEN`. -/
def SC_execute (fetch_max : BitVec 32) (cursor : List Byte) : List Byte :=
  SPRINTF_FIXED 128 (ascii "fetch " ++ Scanf.decimal 1 (fetch_max.signExtend 64).toInt ++
    ascii " in \"" ++ cursor ++ ascii "\"")

/-- The `MOVE` of `CC_clear_cursors`. -/
def CC_clear_cursors (cursor : List Byte) : List Byte :=
  SPRINTF_FIXED 64 (ascii "MOVE 0 in \"" ++ cursor ++ ascii "\"")

/-- The `CLOSE` of `CC_discard_marked_objects`. -/
def CC_discard_marked_objects (cursor : List Byte) : List Byte :=
  SPRINTF_FIXED 64 (ascii "CLOSE \"" ++ cursor ++ ascii "\"")

def INIT_MIN_ALLOC : ℕ := 4096

/-- `copy_statement_with_parameters` in front of a query. The buffer has been doubled so many
times before. -/
def copy_statement_with_parameters (doublings : ℕ) (forward_only with_hold : Bool)
    (query cursor : List Byte) : List Byte :=
  let opt_hold := if with_hold then ascii " with hold" else []
  let opt_scroll := if forward_only then [] else ascii " scroll"
  SPRINTF_FIXED (INIT_MIN_ALLOC * 2 ^ doublings)
    (ascii "declare \"" ++ cursor ++ ascii "\"" ++ opt_scroll ++ ascii " cursor" ++ opt_hold ++
      ascii " for ") ++ query

/-! ### Commands -/

/-- A command that the driver sends for a cursor. -/
inductive Form
  | close (closing : Closing)
  | moveToLast
  | move (moving : Moving) (movement : BitVec 64)
  | fetch (fetch_size : BitVec 32)
  | firstFetch (fetch_max : BitVec 32)
  | moveNowhere
  | discard
  | declare (doublings : ℕ) (forward_only with_hold : Bool) (query : List Byte)

/-- The text that is sent. -/
def Form.sent : Form → List Byte → List Byte
  | .close closing => QR_close closing
  | .moveToLast => QR_move_cursor_to_last
  | .move moving movement => QR_next_tuple_move moving movement
  | .fetch fetch_size => QR_next_tuple_fetch fetch_size
  | .firstFetch fetch_max => SC_execute fetch_max
  | .moveNowhere => CC_clear_cursors
  | .discard => CC_discard_marked_objects
  | .declare doublings forward_only with_hold query =>
    copy_statement_with_parameters doublings forward_only with_hold query

/-- The command that is meant. -/
def Form.command : Form → List Byte → CursorCommand
  | .close _, cursor => .close cursor
  | .moveToLast, cursor => .move .all cursor
  | .move .backward movement, cursor => .move (.backward movement.toNat) cursor
  | .move .forward movement, cursor => .move (.forward movement.toNat) cursor
  | .move .toLast _, cursor => .move .all cursor
  | .fetch fetch_size, cursor => .fetch fetch_size.toInt cursor
  | .firstFetch fetch_max, cursor => .fetch fetch_max.toInt cursor
  | .moveNowhere, cursor => .move (.forward 0) cursor
  | .discard, cursor => .close cursor
  | .declare _ forward_only with_hold query, cursor =>
    .declare cursor (!forward_only) with_hold (0x20 :: query)

/-- All commands that are meant. -/
def Form.commands (form : Form) (cursor : List Byte) : List CursorCommand :=
  match form with
  | .close closing => form.command cursor :: if closing.commits then [.commit] else []
  | _ => [form.command cursor]

/-- A name that an application may set. -/
structure CursorName where
  bytes : List Byte
  short : bytes.length ≤ 63
  nul_free : (0 : Byte) ∉ bytes

/-- The server reads the commands that are meant. -/
def Right (form : Form) (cursor : CursorName) : Prop :=
  Server.commands (form.sent cursor.bytes) = some (form.commands cursor.bytes)

/-- The longest name with which a text is not cut. -/
def Form.longest : Form → ℕ
  | .close closing => if closing.commits then 48 else 55
  | .moveToLast => 49
  | .moveNowhere => 51
  | .discard => 55
  | _ => 63

/-- The server takes the number in a command. -/
def Form.Counts : Form → Prop
  | .move .backward movement => movement.toNat < 2 ^ 31
  | .move .forward movement => movement.toNat < 2 ^ 31
  | .fetch fetch_size => fetch_size.toInt.natAbs < 2 ^ 31
  | .firstFetch fetch_max => fetch_max.toInt.natAbs < 2 ^ 31
  | _ => True

/-! ### The texts -/

/-- A command up to the name. -/
def Form.front : Form → List Byte
  | .close _ => ascii "close "
  | .moveToLast => ascii "move all in "
  | .move .backward movement =>
    ascii "move backward " ++ Scanf.decimal 1 movement.toNat ++ ascii " in "
  | .move .forward movement => ascii "move " ++ Scanf.decimal 1 movement.toNat ++ ascii " in "
  | .move .toLast _ => ascii "move all in "
  | .fetch fetch_size => ascii "fetch " ++ Scanf.decimal 1 fetch_size.toInt ++ ascii " in "
  | .firstFetch fetch_max => ascii "fetch " ++ Scanf.decimal 1 fetch_max.toInt ++ ascii " in "
  | .moveNowhere => ascii "MOVE 0 in "
  | .discard => ascii "CLOSE "
  | .declare _ _ _ _ => ascii "declare "

/-- What follows the name. -/
def Form.back : Form → List Byte
  | .close closing => if closing.commits then ascii ";commit" else []
  | .declare _ forward_only with_hold query =>
    (if forward_only then [] else ascii " scroll") ++ ascii " cursor" ++
      (if with_hold then ascii " with hold" else []) ++ ascii " for " ++ query
  | _ => []

/-- The size of the buffer. -/
def Form.size : Form → ℕ
  | .close _ => 64
  | .moveToLast => 64
  | .move _ _ => 256
  | .fetch _ => 128
  | .firstFetch _ => 128
  | .moveNowhere => 64
  | .discard => 64
  | .declare doublings _ _ _ => INIT_MIN_ALLOC * 2 ^ doublings

/-- The room behind the opening quote. A query is not cut. -/
def Form.room (form : Form) (cursor : List Byte) : ℕ :=
  match form with
  | .declare _ _ _ _ => cursor.length + (form.back.length + 1)
  | _ => form.size - 1 - form.front.length - 1

variable {size k : ℕ} {front back cursor rest : List Byte} {form : Form}

/-- A name between quotes, cut at a length. -/
theorem pasted_eq {text : List Byte} (hsize : front.length + 1 < size)
    (htext : text = front ++ IDENTIFIER_QUOTE :: (cursor ++ IDENTIFIER_QUOTE :: back)) :
    SPRINTF_FIXED size text = front ++ IDENTIFIER_QUOTE ::
      (cursor ++ IDENTIFIER_QUOTE :: back).take (size - 1 - front.length - 1) := by
  obtain ⟨n, hn⟩ : ∃ n, size - 1 - front.length = n + 1 :=
    ⟨size - 1 - front.length - 1, by omega⟩
  rw [SPRINTF_FIXED, Scanf.snprintf, htext, List.take_append, List.take_of_length_le (by omega),
    hn, List.take_succ_cons, Nat.add_sub_cancel]

theorem sprintf_whole {text : List Byte} (h : text.length < size) :
    SPRINTF_FIXED size text = text := List.take_of_length_le (by omega)

/-- A text that is continued in the same buffer. -/
theorem strcat_sprintf (size : ℕ) (text more : List Byte) :
    STRCAT_FIXED size (SPRINTF_FIXED size text) more = SPRINTF_FIXED size (text ++ more) := by
  rw [STRCAT_FIXED, SPRINTF_FIXED, SPRINTF_FIXED, Scanf.snprintf, Scanf.snprintf, List.take_append,
    List.take_append, List.take_take, List.length_take, min_self]
  congr 2
  omega

theorem length_decimal (n : ℤ) (hn : n.natAbs < 10 ^ 20) : (Scanf.decimal 1 n).length ≤ 21 := by
  have hdigits := Scanf.length_digits_le (k := 1) (j := 20) (by decide) hn
  rw [Scanf.decimal, List.length_append]
  have hsign : (Scanf.signText (decide (n < 0))).length ≤ 1 := by
    rw [Scanf.signText]
    split <;> simp
  omega

theorem natAbs_toInt_lt (v : BitVec 32) : v.toInt.natAbs < 10 ^ 20 := by
  have hle := BitVec.two_mul_toInt_le (x := v)
  have hge := BitVec.le_two_mul_toInt (x := v)
  omega

theorem natAbs_toNat_lt (v : BitVec 64) : (v.toNat : ℤ).natAbs < 10 ^ 20 := by
  have hlt := v.isLt
  omega

/-- A number between two texts. -/
theorem length_counted (before : List Byte) {n : ℤ} (hn : n.natAbs < 10 ^ 20) :
    (before ++ Scanf.decimal 1 n ++ ascii " in ").length ≤ before.length + 25 := by
  have hlen := length_decimal n hn
  have hin : (ascii " in ").length = 4 := rfl
  rw [List.length_append, List.length_append]
  omega

/-- The buffer holds a command up to the opening quote. -/
theorem front_fits (form : Form) : form.front.length + 1 < form.size := by
  cases form with
  | close => exact (by decide : 7 < 64)
  | moveToLast => exact (by decide : 13 < 64)
  | move moving movement =>
    have hcounted := fun before => length_counted before (natAbs_toNat_lt movement)
    cases moving with
    | backward =>
      exact lt_of_le_of_lt (Nat.succ_le_succ (hcounted _)) (by decide : 14 + 26 < 256)
    | forward => exact lt_of_le_of_lt (Nat.succ_le_succ (hcounted _)) (by decide : 5 + 26 < 256)
    | toLast => exact (by decide : 13 < 256)
  | fetch fetch_size =>
    have hcounted := fun before => length_counted before (natAbs_toInt_lt fetch_size)
    exact lt_of_le_of_lt (Nat.succ_le_succ (hcounted _)) (by decide : 6 + 26 < 128)
  | firstFetch fetch_max =>
    have hcounted := fun before => length_counted before (natAbs_toInt_lt fetch_max)
    exact lt_of_le_of_lt (Nat.succ_le_succ (hcounted _)) (by decide : 6 + 26 < 128)
  | moveNowhere => exact (by decide : 11 < 64)
  | discard => exact (by decide : 7 < 64)
  | declare doublings =>
    have hpos := Nat.one_le_two_pow (n := doublings)
    change 9 < INIT_MIN_ALLOC * 2 ^ doublings
    rw [INIT_MIN_ALLOC]
    omega

/-- A command with a number in front of the name. -/
theorem counted_text (before number : List Byte) :
    before ++ number ++ ascii " in \"" ++ cursor ++ ascii "\"" =
      (before ++ number ++ ascii " in ") ++
        IDENTIFIER_QUOTE :: (cursor ++ IDENTIFIER_QUOTE :: []) := by
  have hin : ascii " in \"" = ascii " in " ++ [IDENTIFIER_QUOTE] := rfl
  have hquote : ascii "\"" = [IDENTIFIER_QUOTE] := rfl
  rw [hin, hquote]
  simp only [List.append_assoc, List.cons_append, List.nil_append]

/-- What is sent, as a name between quotes that is cut at a length. -/
theorem sent_eq (form : Form) (hshort : cursor.length ≤ 63) :
    form.sent cursor = form.front ++ IDENTIFIER_QUOTE ::
      (cursor ++ IDENTIFIER_QUOTE :: form.back).take (form.room cursor) := by
  have hfits := front_fits form
  cases form with
  | close closing =>
    change QR_close closing cursor = _
    rw [QR_close]
    by_cases hcommits : closing.commits = true
    · rw [if_pos hcommits, strcat_sprintf]
      refine pasted_eq hfits ?_
      simp only [Form.back, if_pos hcommits]
      exact List.append_assoc (ascii "close \"" ++ cursor) (ascii "\"") (ascii ";commit")
    · rw [if_neg hcommits]
      refine pasted_eq hfits ?_
      simp only [Form.back, if_neg hcommits]
      rfl
  | moveToLast => exact pasted_eq hfits rfl
  | move moving movement =>
    cases moving with
    | toLast => exact pasted_eq hfits rfl
    | backward => exact pasted_eq hfits (counted_text _ _)
    | forward => exact pasted_eq hfits (counted_text _ _)
  | fetch fetch_size => exact pasted_eq hfits (counted_text _ _)
  | firstFetch fetch_max =>
    have hext : (fetch_max.signExtend 64).toInt = fetch_max.toInt :=
      BitVec.toInt_signExtend_of_le (by decide)
    refine pasted_eq hfits ?_
    rw [hext]
    exact counted_text _ _
  | moveNowhere => exact pasted_eq hfits rfl
  | discard => exact pasted_eq hfits rfl
  | declare doublings forward_only with_hold query =>
    have hpos := Nat.one_le_two_pow (n := doublings)
    have hroom : (cursor ++ IDENTIFIER_QUOTE ::
        (Form.declare doublings forward_only with_hold query).back).length =
        (Form.declare doublings forward_only with_hold query).room cursor := by
      rw [List.length_append, List.length_cons]
      rfl
    rw [← hroom, List.take_length]
    change copy_statement_with_parameters doublings forward_only with_hold query cursor = _
    rw [copy_statement_with_parameters, sprintf_whole]
    · have hfront : ascii "declare \"" = ascii "declare " ++ [IDENTIFIER_QUOTE] := rfl
      have hquote : ascii "\"" = [IDENTIFIER_QUOTE] := rfl
      rw [hfront, hquote]
      simp only [Form.front, Form.back, List.append_assoc, List.cons_append, List.nil_append]
    · have hopt : (if forward_only then [] else ascii " scroll").length ≤ 7 := by
        cases forward_only <;> decide
      have hhold : (if with_hold then ascii " with hold" else []).length ≤ 10 := by
        cases with_hold <;> decide
      have hdeclare : (ascii "declare \"").length = 9 := rfl
      have hquote : (ascii "\"").length = 1 := rfl
      have hcursor : (ascii " cursor").length = 7 := rfl
      have hfor : (ascii " for ").length = 5 := rfl
      simp only [List.length_append, INIT_MIN_ALLOC]
      omega

/-! ### What the server reads -/

/-- What the server reads behind the name. -/
def Form.behind (form : Form) (p : List Byte × List Byte) : Option (CursorCommand × List Byte) :=
  match form with
  | .declare _ _ _ _ => readDeclare p.1 p.2
  | form => some (form.command p.1, p.2)

theorem readCursor_map (command : List Byte → CursorCommand) (text : List Byte) :
    (readCursor text).map (fun (cursor, rest) => (command cursor, rest)) =
      (readCursor text).bind fun p => some (command p.1, p.2) := Option.map_eq_bind ..

/-- A number, and the name behind it. -/
theorem readNumber_readIn (command : ℤ → List Byte → CursorCommand) {n : ℤ}
    (hn : n.natAbs < 2 ^ 31) (text : List Byte) :
    ((readNumber (0x20 :: (Scanf.decimal 1 n ++ (ascii " in " ++ IDENTIFIER_QUOTE :: text)))).bind
      fun (n, rest) => (readIn rest).map fun (cursor, rest) => (command n cursor, rest)) =
      (readCursor (IDENTIFIER_QUOTE :: text)).bind fun p => some (command n p.1, p.2) := by
  have hread := readNumber_decimal n (ascii " in " ++ IDENTIFIER_QUOTE :: text)
    (fun c hc => by cases hc; decide)
  rw [hread, if_pos hn]
  exact readCursor_map (command n) (IDENTIFIER_QUOTE :: text)

theorem readNumber_refused {n : ℤ} (hn : ¬n.natAbs < 2 ^ 31) (text : List Byte)
    (more : ℤ × List Byte → Option (CursorCommand × List Byte)) :
    (readNumber (0x20 :: (Scanf.decimal 1 n ++ (ascii " in " ++ IDENTIFIER_QUOTE :: text)))).bind
      more = none := by
  have hread := readNumber_decimal n (ascii " in " ++ IDENTIFIER_QUOTE :: text)
    (fun c hc => by cases hc; decide)
  rw [hread, if_neg hn, Option.bind_none]

theorem readCommand_front (form : Form) (text : List Byte) (hcounts : form.Counts) :
    readCommand (form.front ++ IDENTIFIER_QUOTE :: text) =
      (readCursor (IDENTIFIER_QUOTE :: text)).bind form.behind := by
  cases form with
  | close closing => exact readCursor_map .close (IDENTIFIER_QUOTE :: text)
  | moveToLast => exact readCursor_map (.move .all) (IDENTIFIER_QUOTE :: text)
  | move moving movement =>
    cases moving with
    | backward =>
      rw [Form.front, List.append_assoc, List.append_assoc]
      exact readNumber_readIn (n := movement.toNat) (fun n => .move (.backward n)) hcounts text
    | forward =>
      rw [Form.front, List.append_assoc, List.append_assoc]
      exact (readMove_number _ _).trans
        (readNumber_readIn (n := movement.toNat) (fun n => .move (.forward n)) hcounts text)
    | toLast => exact readCursor_map (.move .all) (IDENTIFIER_QUOTE :: text)
  | fetch fetch_size =>
    rw [Form.front, List.append_assoc, List.append_assoc]
    exact readNumber_readIn .fetch hcounts text
  | firstFetch fetch_max =>
    rw [Form.front, List.append_assoc, List.append_assoc]
    exact readNumber_readIn .fetch hcounts text
  | moveNowhere =>
    have hzero : Scanf.decimal 1 (0 : ℕ) = ascii "0" := by
      simp [Scanf.decimal, Scanf.digits, ascii, Scanf.signText]
    have hmove := (readMove_number 0 (ascii " in " ++ IDENTIFIER_QUOTE :: text)).trans
      (readNumber_readIn (n := (0 : ℕ)) (fun n => .move (.forward n)) (by decide) text)
    rw [hzero] at hmove
    exact hmove
  | discard => exact readCursor_map .close (IDENTIFIER_QUOTE :: text)
  | declare doublings forward_only with_hold query => rfl

/-- A number that is out of range is an error. -/
theorem readCommand_uncounted (form : Form) (text : List Byte) (hcounts : ¬form.Counts) :
    readCommand (form.front ++ IDENTIFIER_QUOTE :: text) = none := by
  cases form with
  | move moving movement =>
    cases moving with
    | backward =>
      rw [Form.front, List.append_assoc, List.append_assoc]
      exact readNumber_refused (n := movement.toNat) hcounts text _
    | forward =>
      rw [Form.front, List.append_assoc, List.append_assoc]
      exact (readMove_number _ _).trans
        (readNumber_refused (n := movement.toNat) hcounts text _)
    | toLast => exact absurd trivial hcounts
  | fetch fetch_size =>
    rw [Form.front, List.append_assoc, List.append_assoc]
    exact readNumber_refused hcounts text _
  | firstFetch fetch_max =>
    rw [Form.front, List.append_assoc, List.append_assoc]
    exact readNumber_refused hcounts text _
  | _ => exact absurd trivial hcounts

/-! ### The names that are read -/

theorem back_head (form : Form) : form.back.head? ≠ some IDENTIFIER_QUOTE := by
  cases form with
  | close closing =>
    rw [Form.back]
    split <;> decide
  | declare doublings forward_only with_hold query =>
    cases forward_only <;> exact fun h => absurd (Option.some.inj h) (by decide)
  | _ => exact nofun

theorem command_cursor (form : Form) (name : List Byte) :
    (form.command name).cursor = some name := by
  cases form with
  | move moving movement => cases moving <;> rfl
  | _ => rfl

/-- A command is for the cursor whose name is read. -/
theorem behind_cursor {p : List Byte × List Byte} {command : CursorCommand}
    (h : form.behind p = some (command, rest)) : command.cursor = some p.1 := by
  cases form with
  | declare => exact readDeclare_cursor h
  | _ =>
    obtain ⟨rfl, -⟩ := Prod.mk.inj (Option.some.inj h)
    exact command_cursor _ _

/-- What the server reads behind a name that is not cut. -/
theorem behind_declare (doublings : ℕ) (forward_only with_hold : Bool)
    (query name : List Byte) :
    (Form.declare doublings forward_only with_hold query).behind
        (name, (Form.declare doublings forward_only with_hold query).back) =
      some ((Form.declare doublings forward_only with_hold query).command name, []) := by
  cases forward_only <;> cases with_hold <;> rfl

/-- What the server reads of a command that the buffer holds. -/
theorem behind_back (form : Form) (name : List Byte) :
    form.behind (name, form.back) = some (form.command name,
      match form with
      | .close closing => if closing.commits then ascii ";commit" else []
      | _ => []) := by
  cases form with
  | declare doublings forward_only with_hold query =>
    exact behind_declare doublings forward_only with_hold query name
  | _ => rfl

theorem commit_cut : ∀ i < 6, readCommand ((ascii "commit").take i) = none := by
  decide

/-- There is room for every name behind a number. -/
theorem room_of_counted (form : Form) (cursor : List Byte) {n : ℤ} {before : List Byte}
    (hn : n.natAbs < 10 ^ 20)
    (hfront : form.front = before ++ Scanf.decimal 1 n ++ ascii " in ")
    (hsize : before.length + 100 < form.size)
    (hroom : form.room cursor = form.size - 1 - form.front.length - 1) :
    63 < form.room cursor := by
  have hlen := length_counted before hn
  rw [hroom, hfront]
  omega

/-- A name that is short enough is not cut off from its closing quote, and one that is not cut off
is short enough unless the transaction is to be ended. -/
theorem lt_room_iff (form : Form) (hshort : cursor.length ≤ 63) :
    cursor.length + form.back.length < form.room cursor ↔ cursor.length ≤ form.longest := by
  cases form with
  | close closing =>
    change cursor.length + (if closing.commits then ascii ";commit" else []).length < 56 ↔
      cursor.length ≤ if closing.commits then 48 else 55
    have hcommit : (ascii ";commit").length = 7 := rfl
    split
    · omega
    · rw [List.length_nil]
      omega
  | moveToLast =>
    change cursor.length + 0 < 50 ↔ cursor.length ≤ 49
    omega
  | moveNowhere =>
    change cursor.length + 0 < 52 ↔ cursor.length ≤ 51
    omega
  | discard =>
    change cursor.length + 0 < 56 ↔ cursor.length ≤ 55
    omega
  | declare doublings forward_only with_hold query =>
    change cursor.length + _ < cursor.length + (_ + 1) ↔ cursor.length ≤ 63
    omega
  | fetch fetch_size =>
    have hroom := room_of_counted (.fetch fetch_size) cursor
      (natAbs_toInt_lt fetch_size) rfl (by decide : 106 < 128) rfl
    exact iff_of_true (lt_of_le_of_lt hshort hroom) hshort
  | firstFetch fetch_max =>
    have hroom := room_of_counted (.firstFetch fetch_max) cursor
      (natAbs_toInt_lt fetch_max) rfl (by decide : 106 < 128) rfl
    exact iff_of_true (lt_of_le_of_lt hshort hroom) hshort
  | move moving movement =>
    cases moving with
    | toLast =>
      change cursor.length + 0 < 242 ↔ cursor.length ≤ 63
      omega
    | backward =>
      have hroom := room_of_counted (.move .backward movement) cursor
        (natAbs_toNat_lt movement) rfl (by decide : 114 < 256) rfl
      exact iff_of_true (lt_of_le_of_lt hshort hroom) hshort
    | forward =>
      have hroom := room_of_counted (.move .forward movement) cursor
        (natAbs_toNat_lt movement) rfl (by decide : 105 < 256) rfl
      exact iff_of_true (lt_of_le_of_lt hshort hroom) hshort

/-- The command in front is for the cursor only if its name can stand between quotes and is not cut
off from its closing quote, and the number is in range. -/
theorem of_front_read (form : Form) (hshort : cursor.length ≤ 63)
    (h : readCommand (form.sent cursor) = some (form.command cursor, rest)) :
    form.Counts ∧ cursor ≠ [] ∧ IDENTIFIER_QUOTE ∉ cursor ∧ cursor.length < form.room cursor ∧
      form.behind (cursor, form.back.take (form.room cursor - cursor.length - 1)) =
        some (form.command cursor, rest) := by
  rw [sent_eq form hshort] at h
  have hcounts : form.Counts := by
    by_contra hcounts
    rw [readCommand_uncounted form _ hcounts] at h
    cases h
  rw [readCommand_front form _ hcounts] at h
  obtain ⟨⟨name, more⟩, hname, hbehind⟩ := Option.bind_eq_some_iff.mp h
  obtain rfl : cursor = name := by
    have hcursor := behind_cursor hbehind
    rw [command_cursor] at hcursor
    exact Option.some.inj hcursor
  obtain ⟨hne, hfree, hroom, rfl⟩ := (readCursor_pasted (back_head form)).mp hname
  exact ⟨hcounts, hne, hfree, hroom, hbehind⟩

/-- The command in front is for the cursor if the name can stand between quotes and the number is in
range. -/
theorem front_read (form : Form) (hshort : cursor.length ≤ 63) (hne : cursor ≠ [])
    (hfree : IDENTIFIER_QUOTE ∉ cursor) (hroom : cursor.length < form.room cursor)
    (hcounts : form.Counts) :
    readCommand (form.sent cursor) =
      form.behind (cursor, form.back.take (form.room cursor - cursor.length - 1)) := by
  rw [sent_eq form hshort, readCommand_front form _ hcounts,
    (readCursor_pasted (back_head form)).mpr ⟨hne, hfree, hroom, rfl⟩, Option.bind_some]

/-- A text of which the end of the transaction is cut off. -/
theorem commit_lost {text : List Byte} {j fuel : ℕ} (hj : j < 7) {command : CursorCommand}
    (h : readCommand text = some (command, (ascii ";commit").take j)) :
    readCommands fuel text ≠ some [command, .commit] := by
  cases fuel with
  | zero => exact nofun
  | succ fuel =>
    cases j with
    | zero =>
      rw [readCommands_end h]
      intro heq
      cases Option.some.inj heq
    | succ i =>
      have hmore : readCommand text = some (command, SEMICOLON :: (ascii "commit").take i) := h
      rw [readCommands_more hmore, readCommands_none (commit_cut i (by omega))]
      exact nofun

/-- A command that is read as it is meant has not been cut. -/
theorem length_le_longest (form : Form) (hshort : cursor.length ≤ 63)
    (hread : Server.commands (form.sent cursor) = some (form.commands cursor))
    (hroom : cursor.length < form.room cursor)
    (hfront : ∃ rest, readCommand (form.sent cursor) = some (form.command cursor, rest)) :
    cursor.length ≤ form.longest := by
  rw [← lt_room_iff form hshort]
  cases form with
  | close closing =>
    obtain ⟨rest, hrest⟩ := hfront
    obtain ⟨-, -, -, -, hbehind⟩ := of_front_read _ hshort hrest
    by_cases hcommits : closing.commits = true
    · have hback : (Form.close closing).back = ascii ";commit" := if_pos hcommits
      have hlen : (ascii ";commit").length = 7 := rfl
      rw [hback, hlen]
      by_contra hcut
      rw [hback] at hbehind
      obtain ⟨-, rfl⟩ := Prod.mk.inj (Option.some.inj hbehind)
      have hmeant : (Form.close closing).commands cursor = [.close cursor, .commit] := by
        rw [Form.commands, if_pos hcommits]
        rfl
      rw [hmeant] at hread
      exact commit_lost (by omega) hrest hread
    · have hback : (Form.close closing).back = [] := if_neg hcommits
      rwa [hback, List.length_nil, Nat.add_zero]
  | declare doublings forward_only with_hold query =>
    exact Nat.add_lt_add_left (Nat.lt_succ_self _) _
  | _ => exact hroom

/-- A command is read as it is meant exactly when the name is not empty, has no quote and is not too
long for the buffer, and the number in the command is in range. -/
theorem cursor_commands_iff (form : Form) (cursor : CursorName) :
    Right form cursor ↔ cursor.bytes ≠ [] ∧ IDENTIFIER_QUOTE ∉ cursor.bytes ∧
      cursor.bytes.length ≤ form.longest ∧ form.Counts := by
  have hshort := cursor.short
  constructor
  · intro h
    have hcommands : ∃ more, form.commands cursor.bytes = form.command cursor.bytes :: more := by
      cases form <;> exact ⟨_, rfl⟩
    obtain ⟨more, hmore⟩ := hcommands
    have hread := h
    rw [Right, Server.commands, hmore] at hread
    obtain ⟨rest, hrest⟩ := head_of_readCommands hread
    obtain ⟨hcounts, hne, hfree, hroom, -⟩ := of_front_read form hshort hrest
    exact ⟨hne, hfree, length_le_longest form hshort h hroom ⟨rest, hrest⟩, hcounts⟩
  · rintro ⟨hne, hfree, hlong, hcounts⟩
    have hroom := (lt_room_iff form hshort).mpr hlong
    have hread := front_read form hshort hne hfree (by omega) hcounts
    rw [List.take_of_length_le (by omega), behind_back] at hread
    rw [Right, Server.commands]
    cases form with
    | close closing =>
      by_cases hcommits : closing.commits = true
      · simp only [if_pos hcommits] at hread
        have hmore : readCommand ((Form.close closing).sent cursor.bytes) =
            some (.close cursor.bytes, SEMICOLON :: ascii "commit") := hread
        rw [readCommands_more hmore, Form.commands, if_pos hcommits]
        cases hsent : (Form.close closing).sent cursor.bytes with
        | nil =>
          rw [hsent] at hread
          cases hread
        | cons b text =>
          have hend : readCommand (ascii "commit") = some (.commit, []) := rfl
          rw [List.length_cons, readCommands_end hend]
          rfl
      · simp only [if_neg hcommits] at hread
        rw [readCommands_end hread, Form.commands, if_neg hcommits]
    | _ => exact readCommands_end hread

/-- A name of 49 letters. -/
def longName : CursorName := ⟨List.replicate 49 0x78, by decide, by decide⟩

/-- The end of the transaction is cut off, and what is left of it is an error. -/
theorem commit_cut_off : ¬Right (.close ⟨true, true, 1, false⟩) longName := by
  intro h
  have hread : readCommands 64 ((Form.close ⟨true, true, 1, false⟩).sent longName.bytes) =
      some [.close longName.bytes, .commit] := h
  revert hread
  decide

end OdbcDriver.CursorNames
