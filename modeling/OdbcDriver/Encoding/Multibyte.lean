import OdbcDriver.Encoding.Ascii

/-!
# Multibyte client encodings

The driver walks a byte string with a small state `ccst`, advanced by `pg_CS_stat` at every
byte: `0` means that the byte is a single-byte character, a larger value that it belongs to
a multibyte character. `MBCS_NON_ASCII` is the test every lexer and escaper makes before it
gives a byte a meaning.
-/

namespace OdbcDriver

/-! ### Encodings -/

/-- The client encodings of `multibyte.h`; `latin` stands for all those (`SQL_ASCII`, the
`LATIN`, `WIN` and `ISO` sets, `KOI8R`, `MULE_INTERNAL`, `OTHER`) that `pg_CS_stat` leaves to
its default case. -/
inductive Ccsc
  | utf8
  | shiftJis2004
  | sjis
  | big5
  | gbk
  | uhc
  | eucJis2004
  | eucJp
  | eucCn
  | eucKr
  | johab
  | eucTw
  | gb18030
  | latin
  deriving DecidableEq, Repr

/-! ### The state of `pg_CS_stat` -/

/-- The two-byte rule that several encodings share: a byte for which `lead` holds opens a
character in the states below 2, and the byte after it closes the character. -/
def twoByteStat (lead : Bool) (stat : Nat) : Nat :=
  if stat < 2 ∧ lead then 2 else if stat = 2 then 1 else 0

/-- `UTF8`: the lead byte announces how many bytes follow, each trail byte counts down. -/
def utf8Stat (stat character : Nat) : Nat :=
  if stat < 2 ∧ 0x80 ≤ character then
    if 0xfc ≤ character then 6
    else if 0xf8 ≤ character then 5
    else if 0xf0 ≤ character then 4
    else if 0xe0 ≤ character then 3
    else if 0xc0 ≤ character then 2
    else stat
  else if 2 ≤ stat ∧ 0x7f < character then stat - 1
  else 0

/-- `EUC_JP` and `EUC_JIS_2004`: `0x8f` opens three bytes, `0x8e` and everything above `0xa0`
two. -/
def eucJpStat (stat character : Nat) : Nat :=
  if stat < 3 ∧ character = 0x8f then 3
  else if stat ≠ 2 ∧ (character = 0x8e ∨ 0xa0 < character) then 2
  else if stat = 2 then 1
  else 0

/-- `EUC_TW`: `0x8e` opens four bytes, everything above `0xa0` two. -/
def eucTwStat (stat character : Nat) : Nat :=
  if stat < 4 ∧ character = 0x8e then 4
  else if stat = 4 ∧ 0xa0 < character then 3
  else if (stat = 3 ∨ stat < 2) ∧ 0xa0 < character then 2
  else if stat = 2 then 1
  else 0

/-- `GB18030`: a digit in second place announces two more bytes. -/
def gb18030Stat (stat character : Nat) : Nat :=
  if stat < 2 ∧ 0x80 < character then 2
  else if stat = 2 then (if 0x30 ≤ character ∧ character ≤ 0x39 then 3 else 1)
  else if stat = 3 then (if 0x30 ≤ character ∧ character ≤ 0x39 then 1 else 3)
  else 0

/-- `pg_CS_stat`: the state after `character`, read in state `stat`. A NUL byte starts over
whatever the state was. -/
def pg_CS_stat (stat character : Nat) (characterset_code : Ccsc) : Nat :=
  let stat := if character = 0 then 0 else stat
  match characterset_code with
  | .utf8 => utf8Stat stat character
  | .shiftJis2004 =>
    twoByteStat ((0x81 ≤ character ∧ character ≤ 0x9f) ∨ (0xe0 ≤ character ∧ character ≤ 0xef) ∨
      (0xf0 ≤ character ∧ character ≤ 0xfc)) stat
  | .sjis => twoByteStat (0x80 < character ∧ ¬ (0x9f < character ∧ character < 0xe0)) stat
  | .big5 => twoByteStat (0xa0 < character) stat
  | .gbk | .uhc => twoByteStat (0x7f < character) stat
  | .eucJis2004 | .eucJp => eucJpStat stat character
  | .eucCn | .eucKr | .johab => twoByteStat (0xa0 < character) stat
  | .eucTw => eucTwStat stat character
  | .gb18030 => gb18030Stat stat character
  | .latin => 0

/-- `encoded_nextchar` on the state alone: the state after the byte `b`. -/
def nextStat (ccsc : Ccsc) (stat : Nat) (b : Byte) : Nat :=
  pg_CS_stat stat b.toNat ccsc

/-- `MBCS_NON_ASCII`: the byte `b`, after which the state is `stat`, is part of a character
outside ASCII. -/
def nonAscii (stat : Nat) (b : Byte) : Bool :=
  stat ≠ 0 || 0x80 ≤ b.toNat

/-! ### Rules -/

theorem twoByteStat_of_not_lead {lead : Bool} {stat : Nat} (hlead : lead = false)
    (hstat : stat < 2) : twoByteStat lead stat = 0 := by
  simp only [twoByteStat, hlead]
  rw [if_neg (by simp), if_neg (by omega)]

/-- An ASCII byte read outside every multibyte character stays outside. -/
theorem pg_CS_stat_ascii (ccsc : Ccsc) {stat character : Nat} (hstat : stat < 2)
    (hchar : character < 0x80) : pg_CS_stat stat character ccsc = 0 := by
  obtain ⟨stat', hstat', heq⟩ : ∃ stat' < 2, (if character = 0 then 0 else stat) = stat' :=
    ⟨_, by split <;> omega, rfl⟩
  simp only [pg_CS_stat, heq]
  cases ccsc
  case utf8 => simp only [utf8Stat]; grind
  case eucJp => simp only [eucJpStat]; grind
  case eucJis2004 => simp only [eucJpStat]; grind
  case eucTw => simp only [eucTwStat]; grind
  case gb18030 => simp only [gb18030Stat]; grind
  case latin => rfl
  all_goals exact twoByteStat_of_not_lead (by simp; omega) hstat'

/-- A NUL byte ends every multibyte character. -/
@[simp]
theorem pg_CS_stat_nul (ccsc : Ccsc) (stat : Nat) : pg_CS_stat stat 0 ccsc = 0 := by
  cases ccsc <;> rfl

@[simp]
theorem nextStat_nul (ccsc : Ccsc) (stat : Nat) : nextStat ccsc stat 0 = 0 :=
  pg_CS_stat_nul ccsc stat

/-- The state after a byte string read from state `stat`. -/
def statAfter (ccsc : Ccsc) (stat : Nat) (s : List Byte) : Nat :=
  s.foldl (nextStat ccsc) stat

@[simp]
theorem statAfter_nil (ccsc : Ccsc) (stat : Nat) : statAfter ccsc stat [] = stat := rfl

@[simp]
theorem statAfter_cons (ccsc : Ccsc) (stat : Nat) (b : Byte) (s : List Byte) :
    statAfter ccsc stat (b :: s) = statAfter ccsc (nextStat ccsc stat b) s := rfl

theorem statAfter_append (ccsc : Ccsc) (stat : Nat) (s t : List Byte) :
    statAfter ccsc stat (s ++ t) = statAfter ccsc (statAfter ccsc stat s) t :=
  List.foldl_append

end OdbcDriver
