import OdbcDriver.Lexer.Status
import OdbcDriver.Lib.Scan

/-!
# `SC_scanQueryAndCountParams`

The lexer that counts the parameter markers of a query, looks for a second statement behind a
semicolon, and finds the end of the first. It is what `SQLNumParams` reports.
-/

namespace OdbcDriver

open CInt (wrap)

/-- A C string: the bytes before the first NUL. -/
def cstring (s : List Byte) : List Byte := s.takeWhile (· ≠ 0)

/-- The variables of `SC_scanQueryAndCountParams`. -/
structure ScanState where
  status : Status
  ccst : Nat
  /-- The last byte of the plain SQL before that is not a space. -/
  bchar : Byte
  del_found : Bool
  multi : Bool
  num_p : Int
  proc_return : Bool
  next_cmd : Option Nat
  /-- The loop has been left at the second statement. -/
  stopped : Bool
  /-- The positions of the markers that `num_p` counts. -/
  markers : List Nat
  deriving DecidableEq, Repr

/-- The variables at the start. -/
def ScanState.init : ScanState where
  status := .idle
  ccst := 0
  bchar := 0
  del_found := false
  multi := false
  num_p := 0
  proc_return := false
  next_cmd := none
  stopped := false
  markers := []

/-- `if (IS_NOT_SPACE(tchar)) bchar = tchar`. -/
def ScanState.seen (s : ScanState) (tchar : Byte) : ScanState :=
  if IS_NOT_SPACE tchar then { s with bchar := tchar } else s

/-- A byte in plain SQL. `nextCmd` says whether the end of the first statement is wanted, and
`before` is the byte in front of the query in memory. -/
def scanPlain (conn : ConnectionClass) (before : Byte) (nextCmd : Bool) (s : ScanState)
    (done : List Byte) (c : Byte) (rest : List Byte) : ScanState × Nat :=
  if isAlnum c then ({ s with status := .identKeyword }, 0)
  else if c = QUESTION_MARK then
    let s := if s.num_p = 0 ∧ s.bchar = ODBC_ESCAPE_START then { s with proc_return := true } else s
    ({ s with num_p := wrap 16 (s.num_p + 1), markers := s.markers ++ [done.length] }.seen c, 0)
  else if c = SEMICOLON then
    let s := if nextCmd then { s with next_cmd := some done.length } else s
    ({ s with del_found := true }.seen c, 0)
  else if c = DOLLAR_QUOTE then
    let taglen := findTag (c :: rest) conn.ccsc
    if 0 < taglen then
      ({ s with status := .dollarQuote ((c :: rest).take taglen) }.seen c, taglen - 1)
    else (s.seen c, 0)
  else if c = LITERAL_QUOTE then
    ({ s with status := .literal (literalEscape conn (done.headD before)) }.seen c, 0)
  else if c = IDENTIFIER_QUOTE then ({ s with status := .dquoteIdentifier }.seen c, 0)
  else if c = HYPHEN ∧ rest.headD 0 = HYPHEN then
    ({ s with status := .lineComment, ccst := nextStat conn.ccsc s.ccst HYPHEN }.seen HYPHEN, 1)
  else if c = SLASH ∧ rest.headD 0 = ASTERISK then
    ({ s with status := .commentBlock 0,
              ccst := nextStat conn.ccsc s.ccst ASTERISK }.seen ASTERISK, 1)
  else (s.seen c, 0)

/-- A byte that is no part of a multibyte character. -/
def scanAscii (conn : ConnectionClass) (before : Byte) (nextCmd : Bool) (s : ScanState)
    (done : List Byte) (c : Byte) (rest : List Byte) : ScanState × Nat :=
  match s.status with
  | .identKeyword =>
    if continuesIdent c then ({ s with bchar := c }, 0)
    else scanPlain conn before nextCmd { s with status := .idle } done c rest
  | .idle => scanPlain conn before nextCmd s done c rest
  | .dollarQuote tag =>
    if c = DOLLAR_QUOTE ∧ (c :: rest).take tag.length = tag then
      ({ s with status := .idle }, tag.length - 1)
    else (s, 0)
  | .escape e => ({ s with status := .literal e }, 0)
  | .literal e =>
    if c = e then ({ s with status := .escape e }, 0)
    else if c = LITERAL_QUOTE then ({ s with status := .idle }, 0)
    else (s, 0)
  | .dquoteIdentifier =>
    if c = IDENTIFIER_QUOTE then ({ s with status := .idle }, 0) else (s, 0)
  | .lineComment => if c = PG_LINEFEED then ({ s with status := .idle }, 0) else (s, 0)
  | .commentBlock level =>
    if c = SLASH ∧ rest.headD 0 = ASTERISK then
      ({ s with status := .commentBlock (level + 1),
                ccst := nextStat conn.ccsc s.ccst ASTERISK }, 1)
    else if c = ASTERISK ∧ rest.headD 0 = SLASH then
      ({ s with status := if level = 0 then .idle else .commentBlock (level - 1),
                ccst := nextStat conn.ccsc s.ccst SLASH }, 1)
    else (s, 0)

/-- The loop of `SC_scanQueryAndCountParams`. -/
def scanStep (conn : ConnectionClass) (before : Byte) (nextCmd : Bool) (s : ScanState)
    (done : List Byte) (c : Byte) (rest : List Byte) : ScanState × Nat :=
  if s.stopped then (s, 0)
  else
    let s := { s with ccst := nextStat conn.ccsc s.ccst c }
    if nonAscii s.ccst c then
      let s := if 0x80 ≤ c.toNat then { s with bchar := c } else s
      (if s.status = .idle then { s with status := .identKeyword } else s, 0)
    else if !s.multi && s.del_found && IS_NOT_SPACE c then
      let s := { s with multi := true }
      if nextCmd then ({ s with stopped := true }, 0)
      else scanAscii conn before nextCmd s done c rest
    else scanAscii conn before nextCmd s done c rest

/-- The scanner of `SC_scanQueryAndCountParams`. -/
def scanQuery (conn : ConnectionClass) (before : Byte) (nextCmd : Bool) :
    Scanner ScanState Byte where
  step := scanStep conn before nextCmd

/-- `SC_scanQueryAndCountParams`: the variables after the loop. `*pcpar` is `num_p`, `*multi_st`
is `multi`, and `*next_cmd` is -1 where `next_cmd` is `none`. -/
def SC_scanQueryAndCountParams (conn : ConnectionClass) (before : Byte) (query : List Byte)
    (nextCmd : Bool) : ScanState :=
  ((scanQuery conn before nextCmd).run (.init, 0) [] (cstring query) []).1

end OdbcDriver
