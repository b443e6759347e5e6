import OdbcDriver.Lib.Tokens
import OdbcDriver.Lexer.Status
import OdbcDriver.Server.Regions

/-!
# The commands of the connection settings

The settings of a connection are a text with statements, which the driver takes apart at every
semicolon before it executes them. `strtok` knows nothing of quotes, so a semicolon that is part of
a literal, an identifier, a dollar quote, a comment or a longer character takes a statement apart.

* `settingsLoop_eq`: what the loop executes;
* `words_eq_statements_iff`: when these are the statements;
* `settings_commands_iff`: the texts whose statements are sent.
-/

namespace OdbcDriver.Settings

open Tokens Server

/-! ### The driver -/

/-- The loop over the tokens, each of which is executed. -/
def settingsLoop : ℕ → List Byte → Option (List (List Byte))
  | 0, _ => none
  | fuel + 1, cs =>
    match strtok SEMICOLON cs with
    | none => some []
    | some (ptr, rest) => (settingsLoop fuel rest).map (ptr :: ·)

/-- What `CC_send_settings` returns, and the commands that it has executed. -/
structure Sent where
  status : Bool
  commands : List (List Byte)
deriving DecidableEq, Repr

/-- `CC_send_settings`: `stmt` says whether a statement can be allocated, `copy` whether the text
can be copied, and `succeeded` whether a command succeeds. -/
def CC_send_settings (stmt copy : Bool) (succeeded : List Byte → Bool) (fuel : ℕ)
    (set_query : Option (List Byte)) : Option Sent :=
  match set_query with
  | none => some ⟨true, []⟩
  | some set_query =>
    if stmt = false then some ⟨false, []⟩
    else if copy = false then some ⟨false, []⟩
    else (settingsLoop fuel set_query).map fun commands => ⟨commands.all succeeded, commands⟩

/-! ### Statements -/

/-- A text, as characters of the client encoding. -/
structure SettingsText where
  chars : List Chr
  whole : ∀ c ∈ chars, c ≠ []
  nul_free : ∀ c ∈ chars, (0 : Byte) ∉ c

/-- The bytes of a text. -/
def SettingsText.bytes (text : SettingsText) : List Byte := text.chars.flatten

/-- The statements of a text, in order, are sent. -/
def Right (s : Server.Settings) (stmt copy : Bool) (succeeded : List Byte → Bool)
    (text : SettingsText) : Prop :=
  ∃ fuel sent, CC_send_settings stmt copy succeeded fuel (some text.bytes) = some sent ∧
    sent.commands = (statements s text.chars).map List.flatten

/-- Every semicolon of a text ends a statement. -/
def OnlyEnds (s : Server.Settings) (text : SettingsText) : Prop :=
  ∀ p ∈ scan s .start text.chars, SEMICOLON ∈ p.1 → ends p = true

/-! ### What the loop executes -/

variable {s : Server.Settings} {text : SettingsText} {cs : List Byte} {fuel : ℕ}

theorem settingsLoop_eq (h : (words SEMICOLON cs).length < fuel) :
    settingsLoop fuel cs = some (words SEMICOLON cs) := by
  induction fuel generalizing cs with
  | zero => exact absurd h (Nat.not_lt_zero _)
  | succ fuel ih =>
    rw [settingsLoop]
    cases htok : strtok SEMICOLON cs with
    | none => rw [strtok_none htok]
    | some p =>
      obtain ⟨ptr, rest⟩ := p
      rw [strtok_some htok] at h ⊢
      rw [List.length_cons] at h
      have hrest : settingsLoop fuel rest = some (words SEMICOLON rest) := ih (by omega)
      simp only [hrest, Option.map_some]

/-- The loop ends with all tokens executed, or not at all. -/
theorem settingsLoop_some {commands : List (List Byte)}
    (h : settingsLoop fuel cs = some commands) : commands = words SEMICOLON cs := by
  induction fuel generalizing cs commands with
  | zero => cases h
  | succ fuel ih =>
    rw [settingsLoop] at h
    cases htok : strtok SEMICOLON cs with
    | none =>
      rw [htok] at h
      rw [strtok_none htok]
      exact (Option.some.inj h).symm
    | some p =>
      rw [htok] at h
      obtain ⟨rest, hrest, rfl⟩ := Option.map_eq_some_iff.mp h
      rw [strtok_some htok, ih hrest]

/-! ### Tokens and statements -/

theorem not_mem_words {w : List Byte} (h : w ∈ words SEMICOLON cs) : SEMICOLON ∉ w := by
  intro hsemi
  have hpiece : w ∈ cs.splitOnP (· == SEMICOLON) := by
    rw [← List.splitOn_eq_splitOnP]
    exact (List.mem_filter.mp h).1
  have hfree := (mem_splitOnP _ cs SEMICOLON).mp ⟨w, hpiece, hsemi⟩
  simpa using hfree.2

/-- The statements of a scanned text. -/
def statementsOf (l : List (Chr × Bool)) : List (List Chr) :=
  ((l.splitOnP ends).map fun piece => piece.map Prod.fst).filter (· ≠ [])

theorem statements_eq (s : Server.Settings) (chars : List Chr) :
    statements s chars = statementsOf (scan s .start chars) := rfl

theorem statementsOf_append {front back : List (Chr × Bool)} {p : Chr × Bool}
    (hp : ends p = true) :
    statementsOf (front ++ p :: back) = statementsOf front ++ statementsOf back := by
  simp only [statementsOf]
  rw [List.splitOnP_append_cons front back hp, List.map_append, List.filter_append]

theorem ends_bytes {p : Chr × Bool} (hp : ends p = true) : p.1 = [SEMICOLON] := by
  rw [ends, Bool.and_eq_true, beq_iff_eq] at hp
  exact hp.2

/-- A piece with a character is a statement. -/
theorem mem_statements {chars : List Chr} {piece : List (Chr × Bool)} {p : Chr × Bool}
    (hpiece : piece ∈ (scan s .start chars).splitOnP ends) (hmem : p ∈ piece) :
    piece.map Prod.fst ∈ statements s chars := by
  refine List.mem_filter.mpr ⟨List.mem_map_of_mem hpiece, ?_⟩
  simpa using List.ne_nil_of_mem hmem

/-- A text taken apart at the semicolons that end statements, where there are no others. -/
theorem words_flatten {l : List (Chr × Bool)} (hwhole : ∀ p ∈ l, p.1 ≠ [])
    (h : ∀ p ∈ l, SEMICOLON ∈ p.1 → ends p = true) :
    words SEMICOLON (l.map Prod.fst).flatten = (statementsOf l).map List.flatten := by
  induction hn : l.length using Nat.strong_induction_on generalizing l with
  | _ n ih =>
    rcases splitOnP_cases ends l with hnone | ⟨front, p, back, rfl, hp⟩
    · -- one statement at most: no semicolon is left
      have hfree : SEMICOLON ∉ (l.map Prod.fst).flatten := by
        intro hsemi
        obtain ⟨c, hc, hmem⟩ := List.mem_flatten.mp hsemi
        obtain ⟨p, hp, rfl⟩ := List.mem_map.mp hc
        exact Bool.false_ne_true ((hnone p hp).symm.trans (h p hp hmem))
      rw [statementsOf, List.splitOnP_eq_singleton hnone]
      cases l with
      | nil => simp
      | cons p l =>
        have hne : ((p :: l).map Prod.fst).flatten ≠ [] := by
          intro hnil
          rw [List.map_cons, List.flatten_cons] at hnil
          exact hwhole p List.mem_cons_self (List.append_eq_nil_iff.mp hnil).1
        rw [words_single hfree hne]
        simp
    · rw [List.length_append, List.length_cons] at hn
      have hfront := ih front.length (by omega)
        (fun q hq => hwhole q (List.mem_append_left _ hq))
        (fun q hq => h q (List.mem_append_left _ hq)) rfl
      have hback := ih back.length (by omega)
        (fun q hq => hwhole q (List.mem_append_right _ (List.mem_cons_of_mem _ hq)))
        (fun q hq => h q (List.mem_append_right _ (List.mem_cons_of_mem _ hq))) rfl
      rw [statementsOf_append hp, List.map_append, List.map_cons, ends_bytes hp,
        List.flatten_append, List.flatten_cons, List.map_append, ← hfront, ← hback]
      exact words_append _ _

/-- The tokens are the statements exactly when every semicolon ends a statement. -/
theorem words_eq_statements_iff :
    words SEMICOLON text.bytes = (statements s text.chars).map List.flatten ↔
      OnlyEnds s text := by
  constructor
  · intro h p hp hsemi
    by_contra hends
    -- the character is in a statement, which is no token then
    obtain ⟨piece, hpiece, hmem⟩ := (mem_splitOnP ends (scan s .start text.chars) p).mpr
      ⟨hp, Bool.eq_false_iff.mpr hends⟩
    have hstatement := mem_statements hpiece hmem
    have htoken : (piece.map Prod.fst).flatten ∈ words SEMICOLON text.bytes := by
      rw [h]
      exact List.mem_map_of_mem hstatement
    exact not_mem_words htoken
      (List.mem_flatten.mpr ⟨p.1, List.mem_map_of_mem hmem, hsemi⟩)
  · intro h
    have hwhole : ∀ p ∈ scan s .start text.chars, p.1 ≠ [] := by
      intro p hp
      refine text.whole p.1 ?_
      rw [← map_fst_scan s .start text.chars]
      exact List.mem_map_of_mem hp
    have hwords := words_flatten hwhole h
    rw [map_fst_scan] at hwords
    rw [SettingsText.bytes, hwords, statements_eq]

/-! ### The texts whose statements are sent -/

section

variable {stmt copy : Bool} {succeeded : List Byte → Bool} {set_query : List Byte} {sent : Sent}

theorem sent_commands (hstmt : stmt = true) (hcopy : copy = true)
    (h : CC_send_settings stmt copy succeeded fuel (some set_query) = some sent) :
    sent.commands = words SEMICOLON set_query := by
  subst hstmt hcopy
  obtain ⟨commands, hloop, rfl⟩ := Option.map_eq_some_iff.mp h
  exact settingsLoop_some hloop

/-- Nothing is executed without a statement, or without a copy of the text. -/
theorem send_nothing (succeeded : List Byte → Bool) (fuel : ℕ) (set_query : List Byte)
    (h : ¬(stmt = true ∧ copy = true)) :
    CC_send_settings stmt copy succeeded fuel (some set_query) = some ⟨false, []⟩ := by
  rw [CC_send_settings]
  by_cases hstmt : stmt = true
  · have hcopy : copy = false := Bool.eq_false_iff.mpr fun hcopy => h ⟨hstmt, hcopy⟩
    simp [hcopy]
  · simp [Bool.eq_false_iff.mpr hstmt]

end

/-- The commands are the statements exactly when there is no statement, or when the text can be
executed and every semicolon ends a statement. -/
theorem settings_commands_iff (s : Server.Settings) (stmt copy : Bool)
    (succeeded : List Byte → Bool) (text : SettingsText) :
    Right s stmt copy succeeded text ↔ statements s text.chars = [] ∨
      (stmt = true ∧ copy = true ∧ OnlyEnds s text) := by
  by_cases hdone : stmt = true ∧ copy = true
  · obtain ⟨hstmt, hcopy⟩ := hdone
    have hright : Right s stmt copy succeeded text ↔ OnlyEnds s text := by
      rw [← words_eq_statements_iff]
      constructor
      · rintro ⟨fuel, sent, hsent, hcommands⟩
        rw [← sent_commands hstmt hcopy hsent, hcommands]
      · intro hwords
        have hloop := settingsLoop_eq (Nat.lt_succ_self (words SEMICOLON text.bytes).length)
        subst hstmt hcopy
        refine ⟨(words SEMICOLON text.bytes).length + 1,
          ⟨(words SEMICOLON text.bytes).all succeeded, words SEMICOLON text.bytes⟩, ?_, hwords⟩
        simp [CC_send_settings, hloop]
    rw [hright]
    constructor
    · intro h
      exact .inr ⟨hstmt, hcopy, h⟩
    · rintro (hnone | ⟨-, -, h⟩)
      · -- a text without a statement has separators only
        intro p hp _
        by_contra hends
        obtain ⟨piece, hpiece, hmem⟩ := (mem_splitOnP ends (scan s .start text.chars) p).mpr
          ⟨hp, Bool.eq_false_iff.mpr hends⟩
        have hstatement := mem_statements hpiece hmem
        rw [hnone] at hstatement
        cases hstatement
      · exact h
  · constructor
    · rintro ⟨fuel, sent, hsent, hright⟩
      rw [send_nothing succeeded fuel text.bytes hdone, Option.some.injEq] at hsent
      rw [← hsent] at hright
      exact .inl (List.map_eq_nil_iff.mp hright.symm)
    · rintro (hnone | ⟨hstmt, hcopy, -⟩)
      · refine ⟨0, ⟨false, []⟩, send_nothing succeeded 0 text.bytes hdone, ?_⟩
        rw [hnone]
        rfl
      · exact absurd ⟨hstmt, hcopy⟩ hdone

/-- `'a;b'`, one statement that is sent as two. -/
def literalText : SettingsText where
  chars := [quote, chr 'a', semicolon, chr 'b', quote]
  whole := by decide
  nul_free := by decide

/-- A literal with a semicolon is taken apart. -/
theorem literal_taken_apart :
    ¬Right ⟨true, fun _ => none⟩ true true (fun _ => true) literalText := by
  rintro ⟨fuel, sent, hsent, hright⟩
  have hwords := sent_commands rfl rfl hsent
  rw [hright] at hwords
  revert hwords
  decide

end OdbcDriver.Settings
