import OdbcDriver.Lexer.ScanQuery
import OdbcDriver.Param.Bind

/-!
# `inner_process_tokens`

The lexer that rewrites a statement: each call copies the byte at `opos`, or replaces what
begins there. Parameter markers go to `ResolveOneParam`. ODBC escapes and `@@identity` are left
out: the model stops in front of them. So are the rewritings for updatable cursors.
-/

namespace OdbcDriver

/-! ### The statement being parsed -/

/-- `QueryParse`. The position is the scanner's, and `token_len` is the length of
`token_curr`. -/
structure QueryParse where
  status : Status
  ccst : Nat
  statement_type : StatementType
  prev_token_end : Bool
  token_curr : List Byte
  deriving DecidableEq, Repr

/-- `QP_initialize`. -/
def QP_initialize (statement_type : StatementType) : QueryParse where
  status := .idle
  ccst := 0
  statement_type := statement_type
  prev_token_end := true
  token_curr := []

/-- How the loop over the statement goes on. -/
inductive Progress
  | running
  /-- An ODBC escape or `@@identity` has been met. -/
  | escape
  | error (f : Fault)
  deriving DecidableEq, Repr

/-- The state of the loop around `inner_process_tokens`. -/
structure ParseState where
  qp : QueryParse
  qb : QueryBuild
  progress : Progress
  /-- The positions of the markers met. -/
  markers : List Nat

/-! ### Tokens -/

/-- `sizeof(token_curr)`. -/
def TOKEN_SIZE : Nat := 64

/-- `token_start`. -/
def token_start (qp : QueryParse) (oldchar : Byte) : QueryParse :=
  { qp with prev_token_end := false, token_curr := [oldchar] }

/-- `token_finish`: the token that ends, if one is open. `oldchar` is its last byte, 0 if the
token has ended before. -/
def token_finish (qp : QueryParse) (oldchar : Byte) : QueryParse × Option (List Byte) :=
  if qp.prev_token_end then (qp, none)
  else
    let token := if oldchar ≠ 0 ∧ qp.token_curr.length + 1 < TOKEN_SIZE then
      qp.token_curr ++ [oldchar] else qp.token_curr
    ({ qp with prev_token_end := true, token_curr := token }, some token)

/-- `token_restart`. -/
def token_restart (qp : QueryParse) (oldchar : Byte) : QueryParse × Option (List Byte) :=
  let (qp, finished) := token_finish qp 0
  (if IS_NOT_SPACE oldchar then token_start qp oldchar else qp, finished)

/-- `token_continue`. -/
def token_continue (qp : QueryParse) (oldchar : Byte) : QueryParse :=
  if qp.prev_token_end then token_start qp oldchar
  else if qp.token_curr.length + 1 < TOKEN_SIZE then
    { qp with token_curr := qp.token_curr ++ [oldchar] }
  else qp

/-! ### Rewritings of plain SQL -/

/-- `strnicmp(s, t, strlen(t)) == 0`, for a lower-case text `t`. -/
def beginsWith (t : String) (s : List Byte) : Bool :=
  (s.take t.length).map (fun c => if 0x41 ≤ c ∧ c ≤ 0x5a then c + 0x20 else c) = ascii t

/-- `insert_without_target`: `VALUES ()` comes next, and ends the statement or stands before a
space. The result is the length of what ends with the parenthesis. -/
def insert_without_target (stmt : List Byte) : Option Nat :=
  let blank := (stmt.takeWhile isSpace).length
  let wstmt := stmt.drop blank
  if !beginsWith "values" wstmt then none
  else
    let wstmt := wstmt.drop 6
    if wstmt = [] ∨ IS_NOT_SPACE (wstmt.headD 0) then none
    else
      let blank' := (wstmt.takeWhile isSpace).length
      let wstmt := wstmt.drop blank'
      let after := (wstmt.drop 2).headD 0
      if wstmt.take 2 ≠ [0x28, 0x29] then none
      else if after = 0 ∨ isSpace after ∨ after = SEMICOLON then some (blank + 6 + blank' + 2)
      else none

/-- The hack for `("a_boolean_item" = 1)` of MS Access: the `1` of the output is quoted. -/
def booleanItem (conn : ConnectionClass) (qp : QueryParse) (done : List Byte) (c : Byte)
    (out : List Byte) : List Byte :=
  if c = 0x29 ∧ conn.ms_jet ∧ qp.token_curr = [0x31] ∧ 8 ≤ done.length ∧
      (done.drop 2).take 3 = ascii "= \"" then
    let name := ((done.take (done.length - 2)).drop 5).takeWhile (· ≠ IDENTIFIER_QUOTE)
    -- the quote that opens the name, and what stands before it
    if name.length + 5 < done.length - 2 ∧ done[name.length + 6]? = some 0x28 then
      out.take (out.length - 4) ++ ascii "='1'"
    else out
  else out

/-! ### The function -/

/-- `CVT_APPEND_DATA`. -/
def ParseState.append (s : ParseState) (data : List Byte) : ParseState :=
  { s with qb := s.qb.append data }

/-- A parameter marker. -/
def processMarker (env : Env) (s : ParseState) (done : List Byte) (c : Byte)
    (rest : List Byte) : ParseState × Nat :=
  let s := { s with qp := (token_restart s.qp c).1, markers := s.markers ++ [done.length] }
  match ResolveOneParam env s.qb (some ⟨c :: rest, 0⟩) with
  | .error f => ({ s with progress := .error f }, 0)
  | .ok r => ({ s with qb := r.qb }, (r.qp.map (·.opos)).getD 0)

/-- The end of a byte of plain SQL: `VALUES ()` behind an empty column list is `DEFAULT
VALUES`, everything else is copied. `finished` is the token that ended with the byte. -/
def processInsert (s : ParseState) (finished : Option (List Byte)) (c : Byte)
    (rest : List Byte) : ParseState × Nat :=
  let plain := (s.append [c], 0)
  match finished with
  | some token =>
    if token.length = 2 ∧ s.qp.statement_type = .insert ∧ beginsWith "()" token then
      match insert_without_target (c :: rest) with
      | some endpos =>
        ({ s with qb := { s.qb with query_statement := s.qb.query_statement.dropLast.dropLast } }
          |>.append (ascii "DEFAULT VALUES"), endpos)
      | none => plain
    else if token.length = 1 ∧ s.qp.statement_type = .insert ∧ token.head? = some 0x28 ∧
        c = 0x29 then
      match insert_without_target rest with
      | some endpos =>
        ({ s with qb := { s.qb with query_statement := s.qb.query_statement.dropLast } }
          |>.append (ascii " DEFAULT VALUES"), endpos)
      | none => plain
    else plain
  | none => plain

/-- A byte of plain SQL. `finished` is the identifier that ended in front of it; the tokens that
end with the byte itself come after it. -/
def processPlain (env : Env) (before : Byte) (s : ParseState) (finished : Option (List Byte))
    (done : List Byte) (c : Byte) (rest : List Byte) : ParseState × Nat :=
  let restart := token_restart s.qp c
  let finish := token_finish s.qp 0
  if s.qb.flags.convertLf ∧ c = PG_CARRIAGE_RETURN ∧ rest.headD 0 = PG_LINEFEED then (s, 0)
  else if c = ODBC_ESCAPE_START ∨ c = ODBC_ESCAPE_END ∨ beginsWith "@@identity" (c :: rest) then
    ({ s with progress := .escape }, 0)
  else if c = QUESTION_MARK then processMarker env s done c rest
  else if c = DOLLAR_QUOTE then
    let taglen := findTag (c :: rest) s.qb.conn.ccsc
    if 0 < taglen then
      let tag := (c :: rest).take taglen
      ({ s with qp := { finish.1 with status := .dollarQuote tag } } |>.append tag, taglen - 1)
    else processInsert { s with qp := finish.1 } (finish.2 <|> finished) c rest
  else if c = LITERAL_QUOTE then
    let status := .literal (literalEscape s.qb.conn (done.headD before))
    processInsert { s with qp := { restart.1 with status := status } } (restart.2 <|> finished)
      c rest
  else if c = IDENTIFIER_QUOTE then
    processInsert { s with qp := { restart.1 with status := .dquoteIdentifier } }
      (restart.2 <|> finished) c rest
  else if c = SLASH ∧ rest.headD 0 = ASTERISK then
    processInsert { s with qp := { finish.1 with status := .commentBlock 0 } }
      (finish.2 <|> finished) c rest
  else if c = HYPHEN ∧ rest.headD 0 = HYPHEN then
    processInsert { s with qp := { finish.1 with status := .lineComment } }
      (finish.2 <|> finished) c rest
  else if c = SEMICOLON then
    processInsert { s with qp := finish.1, qb := { s.qb with dollar_number := 0 } }
      (finish.2 <|> finished) c rest
  else if isAlnum c then
    processInsert { s with qp := { restart.1 with status := .identKeyword } }
      (restart.2 <|> finished) c rest
  else
    let out := booleanItem s.qb.conn s.qp done c s.qb.query_statement
    processInsert { s with qp := restart.1, qb := { s.qb with query_statement := out } }
      (restart.2 <|> finished) c rest

/-- A byte that is no part of a multibyte character. -/
def processAscii (env : Env) (before : Byte) (s : ParseState) (done : List Byte) (c : Byte)
    (rest : List Byte) : ParseState × Nat :=
  match s.qp.status with
  | .identKeyword =>
    if continuesIdent c then ({ s with qp := token_continue s.qp c } |>.append [c], 0)
    else
      let finish := token_finish s.qp 0
      processPlain env before { s with qp := { finish.1 with status := .idle } } finish.2 done c
        rest
  | .idle => processPlain env before s none done c rest
  | .escape e => ({ s with qp := { s.qp with status := .literal e } } |>.append [c], 0)
  | .dollarQuote tag =>
    if c = DOLLAR_QUOTE ∧ (c :: rest).take tag.length = tag then
      ({ s with qp := { s.qp with status := .idle } } |>.append tag, tag.length - 1)
    else (s.append [c], 0)
  | .literal e =>
    if c = LITERAL_QUOTE then
      ({ s with qp := { (token_finish s.qp c).1 with status := .idle } } |>.append [c], 0)
    else
      let qp := token_continue s.qp c
      ({ s with qp := if c = e then { qp with status := .escape e } else qp } |>.append [c], 0)
  | .dquoteIdentifier =>
    if c = IDENTIFIER_QUOTE then
      ({ s with qp := { (token_finish s.qp c).1 with status := .idle } } |>.append [c], 0)
    else ({ s with qp := token_continue s.qp c } |>.append [c], 0)
  | .commentBlock level =>
    if c = SLASH ∧ rest.headD 0 = ASTERISK then
      ({ s with qp := { s.qp with status := .commentBlock (level + 1) } }
        |>.append [SLASH, ASTERISK], 1)
    else if c = ASTERISK ∧ rest.headD 0 = SLASH then
      let status := if level = 0 then .idle else .commentBlock (level - 1)
      ({ s with qp := { s.qp with status := status } } |>.append [ASTERISK, SLASH], 1)
    else (s.append [c], 0)
  | .lineComment =>
    let qp := if c = PG_LINEFEED then { s.qp with status := .idle } else s.qp
    ({ s with qp := qp } |>.append [c], 0)

/-- `inner_process_tokens`, at the byte `c`. -/
def inner_process_tokens (env : Env) (before : Byte) (s : ParseState) (done : List Byte)
    (c : Byte) (rest : List Byte) : ParseState × Nat :=
  match s.progress with
  | .running =>
    let qp := { s.qp with ccst := nextStat s.qb.conn.ccsc s.qp.ccst c }
    if nonAscii qp.ccst c then
      let qp :=
        if qp.status = .idle then { (token_restart qp c).1 with status := .identKeyword }
        else if 0 < qp.token_curr.length then token_continue qp c
        else qp
      ({ s with qp := qp } |>.append [c], 0)
    else processAscii env before { s with qp := qp } done c rest
  | _ => (s, 0)

/-- The scanner of `inner_process_tokens`. -/
def processTokens (env : Env) (before : Byte) : Scanner ParseState Byte where
  step := inner_process_tokens env before

/-- The state before the first byte. -/
def ParseState.start (qb : QueryBuild) (statement_type : StatementType) : ParseState where
  qp := QP_initialize statement_type
  qb := qb
  progress := .running
  markers := []

/-- The loop over a statement: `inner_process_tokens` until its end, or until it fails. -/
def process_statement (env : Env) (before : Byte) (qb : QueryBuild)
    (statement_type : StatementType) (statement : List Byte) : ParseState :=
  ((processTokens env before).run (.start qb statement_type, 0) [] (cstring statement) []).1

end OdbcDriver
