import OdbcDriver.Lexer.Markers
import OdbcDriver.Lib.Replace

/-!
# `@@identity`, and the bytes of a statement that are copied

`inner_process_tokens` copies a statement that has no parameter markers and no ODBC escapes,
unless a rewriting mode says otherwise. In the place of `@@identity` it puts an expression for
the value that the last `INSERT` of the connection gave to its serial column. Then it advances
`opos` by the ten bytes of the token, and the loop around it advances `opos` once more.

Here is that branch, and that a byte is copied, with what the lexer passes over behind it.
-/

namespace OdbcDriver

/-! ### What replaces the token -/

/-- A column of the table of the last `INSERT`, as `coli` describes it. -/
structure InsertColumn where
  auto_increment : Bool
  column_def : Option (List Byte)
  column_name : Option (List Byte)

/-- What the branch for `@@identity` finds out about the last `INSERT`. -/
structure InsertTarget where
  schemaIns : Option (List Byte)
  tableIns : Option (List Byte)
  /-- The result of `getCOLIfromTI`. -/
  found : Bool
  /-- `coli`. -/
  coli : Option (List InsertColumn)
  /-- The status is `CONN_DOWN` behind the look-up. -/
  down : Bool
  /-- `identifierEscape`, with its last argument. -/
  identifierEscape : List Byte → Bool → List Byte

/-- The look-up lost the connection: `inner_process_tokens` returns `SQL_ERROR`. -/
def InsertTarget.lost (t : InsertTarget) : Bool := t.tableIns.isSome && !t.found && t.down

/-- The value of the sequence that belongs to a column. -/
def InsertTarget.serial (t : InsertTarget) (table : List Byte)
    (column_name : Option (List Byte)) : List Byte :=
  ascii "currval(pg_get_serial_sequence('" ++
    (t.schemaIns.map fun schema => t.identifierEscape schema true ++ ascii ".").getD [] ++
    t.identifierEscape table true ++ ascii "','" ++
    (column_name.map fun column => t.identifierEscape column false).getD [] ++
    ascii "')::regclass)"

/-- The call of `currval` for an auto-increment column. -/
def InsertTarget.currval (t : InsertTarget) (table : List Byte) (column : InsertColumn) :
    List Byte :=
  match column.column_def with
  | some column_def =>
    if column_def.take 7 = ascii "nextval" then ascii "curr" ++ column_def.drop 4
    else t.serial table column.column_name
  | none => t.serial table column.column_name

/-- What replaces `@@identity`. -/
def InsertTarget.text (t : InsertTarget) : List Byte :=
  match t.tableIns, t.coli with
  | some table, some coli =>
    match coli.find? (·.auto_increment) with
    | some column => t.currval table column
    | none => ascii "NULL"
  | _, _ => ascii "NULL"

/-! ### The loop -/

/-- The token. -/
def IDENTITY : String := "@@identity"

/-- `inner_process_tokens`, with the branch for `@@identity`: `opos += 10`. -/
def inner_process_identity (env : Env) (target : InsertTarget) (before : Byte) (s : ParseState)
    (done : List Byte) (c : Byte) (rest : List Byte) : ParseState × Nat :=
  let r := inner_process_tokens env before s done c rest
  if s.progress = .running ∧ r.1.progress = .escape ∧ beginsWith IDENTITY (c :: rest) ∧
      ¬ target.lost then
    ({ r.1 with progress := .running } |>.append target.text, 10)
  else r

/-- The scanner of `inner_process_identity`. -/
def processIdentity (env : Env) (target : InsertTarget) (before : Byte) :
    Scanner ParseState Byte where
  step := inner_process_identity env target before

/-- The loop of `prepareParametersNoDesc` over a statement. -/
def prepareStatement (env : Env) (target : InsertTarget) (before : Byte) (qb : QueryBuild)
    (statement_type : StatementType) (statement : List Byte) : ParseState :=
  ((processIdentity env target before).run (.start qb statement_type, 0) [] (cstring statement)
    []).1

/-! ### Statements that are not rewritten -/

/-- No rewriting mode is active for `text`, `@@identity` apart: it has no marker and no ODBC
escape, carriage returns stay, an `INSERT` has a `VALUES` list, and MS Access compares no
item with `= 1`. -/
structure Unrewritten (conn : ConnectionClass) (flags : Flags) (statement_type : StatementType)
    (text : List Byte) : Prop where
  marker : QUESTION_MARK ∉ text
  escapeStart : ODBC_ESCAPE_START ∉ text
  escapeEnd : ODBC_ESCAPE_END ∉ text
  convertLf : flags.convertLf = false
  insert : statement_type = .insert → ∀ t, t <:+ text → insert_without_target t = none
  booleanItem : conn.ms_jet = true → ¬ ascii "\" =" <:+: text

variable {env : Env} {before : Byte} {s : ParseState} {done : List Byte} {c : Byte}
  {rest : List Byte} {m : Move}

/-- The byte and `skip` bytes behind it have been copied, and the lexer has moved to `l`. -/
structure Copied (s : ParseState) (l : LexState) (skip : Nat) (c : Byte) (rest : List Byte)
    (r : ParseState × Nat) : Prop where
  running : r.1.progress = .running
  lex : r.1.lex = l
  skipped : r.2 = skip
  out : r.1.qb.query_statement = s.qb.query_statement ++ c :: rest.take skip
  conn : r.1.qb.conn = s.qb.conn
  flags : r.1.qb.flags = s.qb.flags
  statement_type : r.1.qp.statement_type = s.qp.statement_type

@[simp]
theorem token_finish_statement_type (qp : QueryParse) (c : Byte) :
    (token_finish qp c).1.statement_type = qp.statement_type := by
  unfold token_finish
  split <;> rfl

@[simp]
theorem token_restart_statement_type (qp : QueryParse) (c : Byte) :
    (token_restart qp c).1.statement_type = qp.statement_type := by
  rw [token_restart_eq]
  split
  · exact token_finish_statement_type qp 0
  · exact token_finish_statement_type qp 0

@[simp]
theorem token_continue_statement_type (qp : QueryParse) (c : Byte) :
    (token_continue qp c).statement_type = qp.statement_type := by
  unfold token_continue
  split
  · rfl
  · split <;> rfl

/-- What is appended is the byte, and what the lexer passes over. -/
theorem copied_append {s' : ParseState} {data : List Byte} (hrun : s'.progress = .running)
    (hmarker : m.marker = false) (hlex : s'.lex = ⟨m.status, 0, s.markers⟩)
    (hqb : s'.qb.query_statement = s.qb.query_statement ∧ s'.qb.conn = s.qb.conn ∧
      s'.qb.flags = s.qb.flags)
    (htype : s'.qp.statement_type = s.qp.statement_type) (hdata : data = c :: rest.take m.skip) :
    Copied s (m.after 0 s.markers done) m.skip c rest (s'.append data, m.skip) := by
  obtain ⟨hout, hconn, hflags⟩ := hqb
  refine ⟨hrun, ?_, rfl, ?_, hconn, hflags, htype⟩
  · rw [Move.after, hmarker]
    exact hlex
  · rw [hdata, ← hout]
    rfl

/-- Where no `INSERT` is completed, the end of a byte of plain SQL is its copy. -/
theorem processInsert_copies (finished : Option (List Byte))
    (hinsert : s.qp.statement_type = .insert → insert_without_target (c :: rest) = none ∧
      insert_without_target rest = none) :
    processInsert s finished c rest = (s.append [c], 0) := by
  unfold processInsert
  dsimp only
  cases finished with
  | none => rfl
  | some token =>
    dsimp only
    split
    · rename_i h
      rw [(hinsert h.2.1).1]
    · split
      · rename_i h
        rw [(hinsert h.2.1).2]
      · rfl

/-- Where MS Access compares nothing with `= 1`, no item is quoted. -/
theorem booleanItem_eq {conn : ConnectionClass} (qp : QueryParse) (out : List Byte)
    (h : conn.ms_jet = true → ¬ ascii "\" =" <:+: done.reverse ++ c :: rest) :
    booleanItem conn qp done c out = out := by
  unfold booleanItem
  refine if_neg ?_
  rintro ⟨-, hjet, -, -, hitem⟩
  refine h hjet (List.IsInfix.trans ?_ (List.prefix_append _ _).isInfix)
  rw [← List.reverse_infix, List.reverse_reverse]
  have hquoted : (ascii "\" =").reverse = ascii "= \"" := by decide
  rw [hquoted, ← hitem]
  exact (List.take_prefix 3 _).isInfix.trans (List.drop_suffix 2 done).isInfix

/-- A byte of plain SQL. -/
theorem processPlain_copies (env : Env) (before : Byte) (finished : Option (List Byte)) (hrun : s.progress = .running)
    (hccst : s.qp.ccst = 0) (hidle : s.qp.status = .idle)
    (h : Unrewritten s.qb.conn s.qb.flags s.qp.statement_type (done.reverse ++ c :: rest))
    (hidentity : beginsWith IDENTITY (c :: rest) = false) :
    Copied s ((plainMove s.qb.conn false (done.headD before) c rest).after 0 s.markers done)
      (plainMove s.qb.conn false (done.headD before) c rest).skip c rest
      (processPlain env before s finished done c rest) := by
  have hmem : c ∈ done.reverse ++ c :: rest := by simp
  have hinsert : s.qp.statement_type = .insert → insert_without_target (c :: rest) = none ∧
      insert_without_target rest = none := fun hins =>
    ⟨h.insert hins _ (List.suffix_append _ _),
      h.insert hins _ ((List.suffix_cons c rest).trans (List.suffix_append _ _))⟩
  unfold processPlain
  dsimp only
  rw [if_neg fun hcr => absurd (h.convertLf.symm.trans hcr.1) Bool.false_ne_true]
  have hescape : ¬ (c = ODBC_ESCAPE_START ∨ c = ODBC_ESCAPE_END ∨
      beginsWith "@@identity" (c :: rest) = true) := by
    rintro (rfl | rfl | hid)
    · exact h.escapeStart hmem
    · exact h.escapeEnd hmem
    · exact absurd (hidentity.symm.trans hid) Bool.false_ne_true
  rw [if_neg hescape]
  have hmark : c ≠ QUESTION_MARK := fun hc => h.marker (hc ▸ hmem)
  rw [if_neg hmark]
  by_cases hdollar : c = DOLLAR_QUOTE
  · rw [if_pos hdollar]
    subst hdollar
    by_cases htag : 0 < findTag (DOLLAR_QUOTE :: rest) s.qb.conn.ccsc
    · rw [if_pos htag, plainMove_tag _ _ _ _ htag]
      refine copied_append (m := ⟨.dollarQuote _, _, false⟩) hrun rfl (by simp [ParseState.lex, hccst])
        ⟨rfl, rfl, rfl⟩ (by simp) ?_
      rw [← List.take_succ_cons, Nat.sub_add_cancel htag]
    · rw [if_neg htag, plainMove_dollar _ _ _ _ htag]
      rw [processInsert_copies _ (by simpa using hinsert)]
      exact copied_append (m := ⟨.idle, 0, false⟩) hrun rfl (by simp [ParseState.lex, hidle, hccst])
        ⟨rfl, rfl, rfl⟩ (by simp) rfl
  rw [if_neg hdollar]
  by_cases hquote : c = LITERAL_QUOTE
  · rw [if_pos hquote, processInsert_copies _ (by simpa using hinsert)]
    subst hquote
    exact copied_append (m := ⟨.literal _, 0, false⟩) hrun rfl (by simp [ParseState.lex, hccst])
      ⟨rfl, rfl, rfl⟩ (by simp) rfl
  rw [if_neg hquote]
  by_cases hdquote : c = IDENTIFIER_QUOTE
  · rw [if_pos hdquote, processInsert_copies _ (by simpa using hinsert)]
    subst hdquote
    exact copied_append (m := ⟨.dquoteIdentifier, 0, false⟩) hrun rfl
      (by simp [ParseState.lex, hccst]) ⟨rfl, rfl, rfl⟩ (by simp) rfl
  rw [if_neg hdquote]
  by_cases hcomment : c = SLASH ∧ rest.headD 0 = ASTERISK
  · rw [if_pos hcomment, processInsert_copies _ (by simpa using hinsert)]
    obtain ⟨rfl, hasterisk⟩ := hcomment
    rw [plainMove_commentBlock _ _ _ _ hasterisk]
    exact copied_append (m := ⟨.commentBlock 0, 0, false⟩) hrun rfl
      (by simp [ParseState.lex, hccst]) ⟨rfl, rfl, rfl⟩ (by simp) rfl
  rw [if_neg hcomment]
  by_cases hline : c = HYPHEN ∧ rest.headD 0 = HYPHEN
  · rw [if_pos hline, processInsert_copies _ (by simpa using hinsert)]
    obtain ⟨rfl, hhyphen⟩ := hline
    rw [plainMove_lineComment _ _ _ _ hhyphen]
    exact copied_append (m := ⟨.lineComment, 0, false⟩) hrun rfl
      (by simp [ParseState.lex, hccst]) ⟨rfl, rfl, rfl⟩ (by simp) rfl
  rw [if_neg hline]
  by_cases hsemi : c = SEMICOLON
  · rw [if_pos hsemi, processInsert_copies _ (by simpa using hinsert)]
    subst hsemi
    rw [plainMove_semicolon]
    exact copied_append (m := ⟨.idle, 0, false⟩) hrun rfl (by simp [ParseState.lex, hidle, hccst])
      ⟨rfl, rfl, rfl⟩ (by simp) rfl
  rw [if_neg hsemi]
  by_cases halnum : isAlnum c = true
  · rw [if_pos halnum, plainMove_alnum _ _ _ _ _ halnum,
      processInsert_copies _ (by simpa using hinsert)]
    exact copied_append (m := ⟨.identKeyword, 0, false⟩) hrun rfl
      (by simp [ParseState.lex, hccst]) ⟨rfl, rfl, rfl⟩ (by simp) rfl
  · rw [if_neg halnum, plainMove_other _ _ _ _ _ halnum hmark hdollar hquote hdquote hline hcomment,
      processInsert_copies _ (by simpa using hinsert)]
    exact copied_append (m := ⟨.idle, 0, false⟩) hrun rfl (by simp [ParseState.lex, hidle, hccst])
      ⟨booleanItem_eq s.qp _ h.booleanItem, rfl, rfl⟩ (by simp) rfl

/-- The tag of a dollar quote has a byte at least. -/
def TagOk : Status → Prop
  | .dollarQuote tag => tag ≠ []
  | _ => True

/-- A byte that is no part of a multibyte character. -/
theorem processAscii_copies (env : Env) (before : Byte) (hrun : s.progress = .running) (hccst : s.qp.ccst = 0)
    (htag : TagOk s.qp.status)
    (h : Unrewritten s.qb.conn s.qb.flags s.qp.statement_type (done.reverse ++ c :: rest))
    (hidentity : s.qp.status = .idle ∨ s.qp.status = .identKeyword →
      beginsWith IDENTITY (c :: rest) = false) :
    Copied s ((asciiMove s.qb.conn false s.qp.status (done.headD before) c rest).after 0
        s.markers done)
      (asciiMove s.qb.conn false s.qp.status (done.headD before) c rest).skip c rest
      (processAscii env before s done c rest) := by
  unfold processAscii asciiMove
  cases hstatus : s.qp.status with
  | identKeyword =>
    dsimp only
    split
    · exact copied_append (m := ⟨.identKeyword, 0, false⟩) hrun rfl
        (by simp [ParseState.lex, hstatus, hccst]) ⟨rfl, rfl, rfl⟩ (by simp) rfl
    · have hplain := processPlain_copies env before (s := { s with
          qp := { (token_finish s.qp 0).1 with status := .idle } }) (token_finish s.qp 0).2 hrun
        ((token_finish_ccst _ _).trans hccst) rfl
        (by simpa using h) (hidentity (.inr hstatus))
      exact ⟨hplain.running, hplain.lex, hplain.skipped, hplain.out, hplain.conn, hplain.flags,
        hplain.statement_type.trans (by simp)⟩
  | idle => exact processPlain_copies env before none hrun hccst hstatus h (hidentity (.inl hstatus))
  | escape e =>
    exact copied_append (m := ⟨.literal e, 0, false⟩) hrun rfl (by simp [ParseState.lex, hccst])
      ⟨rfl, rfl, rfl⟩ rfl rfl
  | dollarQuote tag =>
    dsimp only
    split
    · rename_i hclose
      obtain ⟨d, t, rfl⟩ := List.exists_cons_of_ne_nil (l := tag) (by rwa [hstatus] at htag)
      exact copied_append (m := ⟨.idle, (d :: t).length - 1, false⟩) hrun rfl
        (by simp [ParseState.lex, hccst]) ⟨rfl, rfl, rfl⟩ rfl hclose.2.symm
    · exact copied_append (m := ⟨.dollarQuote tag, 0, false⟩) hrun rfl
        (by simp [ParseState.lex, hstatus, hccst]) ⟨rfl, rfl, rfl⟩ rfl rfl
  | literal e =>
    dsimp only
    split
    · exact copied_append (m := ⟨.idle, 0, false⟩) hrun rfl (by simp [ParseState.lex, hccst])
        ⟨rfl, rfl, rfl⟩ (by simp) rfl
    · split
      · exact copied_append (m := ⟨.escape e, 0, false⟩) hrun rfl
          (by simp [ParseState.lex, hccst]) ⟨rfl, rfl, rfl⟩ (by simp) rfl
      · exact copied_append (m := ⟨.literal e, 0, false⟩) hrun rfl
          (by simp [ParseState.lex, hstatus, hccst]) ⟨rfl, rfl, rfl⟩ (by simp) rfl
  | dquoteIdentifier =>
    dsimp only
    split
    · exact copied_append (m := ⟨.idle, 0, false⟩) hrun rfl (by simp [ParseState.lex, hccst])
        ⟨rfl, rfl, rfl⟩ (by simp) rfl
    · exact copied_append (m := ⟨.dquoteIdentifier, 0, false⟩) hrun rfl
        (by simp [ParseState.lex, hstatus, hccst]) ⟨rfl, rfl, rfl⟩ (by simp) rfl
  | commentBlock level =>
    dsimp only
    have hnext : ∀ d, rest.headD 0 = d → d ≠ 0 → rest.take 1 = [d] := by
      rintro d hd hne
      cases rest with
      | nil => exact absurd hd.symm hne
      | cons e rest => rw [← hd]; rfl
    split
    · rename_i hopen
      exact copied_append (m := ⟨.commentBlock (level + 1), 1, false⟩) hrun rfl
        (by simp [ParseState.lex, hccst]) ⟨rfl, rfl, rfl⟩ rfl
        (by rw [hopen.1, hnext _ hopen.2 (by decide)])
    · split
      · rename_i hclose
        exact copied_append (m := ⟨if level = 0 then .idle else .commentBlock (level - 1), 1, false⟩)
          hrun rfl (by simp [ParseState.lex, hccst]) ⟨rfl, rfl, rfl⟩ rfl
          (by rw [hclose.1, hnext _ hclose.2 (by decide)])
      · exact copied_append (m := ⟨.commentBlock level, 0, false⟩) hrun rfl
          (by simp [ParseState.lex, hstatus, hccst]) ⟨rfl, rfl, rfl⟩ rfl rfl
  | lineComment =>
    dsimp only
    split
    · exact copied_append (m := ⟨.idle, 0, false⟩) hrun rfl (by simp [ParseState.lex, hccst])
        ⟨rfl, rfl, rfl⟩ rfl rfl
    · exact copied_append (m := ⟨.lineComment, 0, false⟩) hrun rfl
        (by simp [ParseState.lex, hstatus, hccst]) ⟨rfl, rfl, rfl⟩ rfl rfl

/-- A byte that is not the beginning of `@@identity`. -/
theorem inner_process_tokens_copies (env : Env) (before : Byte) (hrun : s.progress = .running) (htag : TagOk s.qp.status)
    (h : Unrewritten s.qb.conn s.qb.flags s.qp.statement_type (done.reverse ++ c :: rest))
    (hidentity : nonAscii (nextStat s.qb.conn.ccsc s.qp.ccst c) c = false →
      s.qp.status = .idle ∨ s.qp.status = .identKeyword → beginsWith IDENTITY (c :: rest) = false) :
    Copied s (lexStep s.qb.conn before false s.lex done c rest).1
      (lexStep s.qb.conn before false s.lex done c rest).2 c rest
      (inner_process_tokens env before s done c rest) := by
  obtain ⟨qp, qb, progress, markers⟩ := s
  obtain rfl : progress = .running := hrun
  unfold inner_process_tokens lexStep lexMove
  dsimp only [ParseState.lex] at htag h hidentity ⊢
  by_cases hmulti : nonAscii (nextStat qb.conn.ccsc qp.ccst c) c = true
  · rw [if_pos hmulti, if_pos hmulti]
    refine ⟨rfl, ?_, rfl, rfl, rfl, rfl, ?_⟩
    · simp only [ParseState.lex, ParseState.append, Move.after]
      split
      · rename_i hidle
        simp [hidle]
      · rename_i hidle
        split <;> simp [hidle]
    · dsimp only [ParseState.append]
      split
      · exact token_restart_statement_type _ c
      · split
        · exact token_continue_statement_type _ c
        · rfl
  · rw [if_neg hmulti, if_neg hmulti]
    have hascii := Bool.eq_false_iff.mpr hmulti
    have hccst : nextStat qb.conn.ccsc qp.ccst c = 0 := (stat_of_not_nonAscii hascii).1
    rw [hccst] at hascii hidentity ⊢
    have hcopied := processAscii_copies env before
      (s := ⟨{ qp with ccst := 0 }, qb, .running, markers⟩) rfl rfl htag h (hidentity hascii)
    exact ⟨hcopied.running, hcopied.lex, hcopied.skipped, hcopied.out, hcopied.conn,
      hcopied.flags, hcopied.statement_type⟩

/-! ### The copy of a statement -/

/-- The copy of a statement around `@@identity`. -/
def identityReplacer (conn : ConnectionClass) (before : Byte) (target : InsertTarget) :
    Replacer LexState Byte where
  step := lexStep conn before false
  token s c rest := !nonAscii (nextStat conn.ccsc s.ccst c) c &&
    (decide (s.status = .idle) || decide (s.status = .identKeyword)) &&
      beginsWith IDENTITY (c :: rest)
  behind s := ⟨.idle, 0, s.markers⟩
  text := target.text

variable {conn : ConnectionClass} {target : InsertTarget}

/-- What it means for `@@identity` to begin at a byte. -/
theorem identityReplacer_token {l : LexState} :
    (identityReplacer conn before target).token l c rest = true ↔
      nonAscii (nextStat conn.ccsc l.ccst c) c = false ∧
        (l.status = .idle ∨ l.status = .identKeyword) ∧ beginsWith IDENTITY (c :: rest) = true := by
  simp [identityReplacer, and_assoc]

/-- The byte in front of which `@@identity` begins. -/
def AT : Byte := 0x40

/-- What a text looks like that begins with `t`, but for the case of its letters. -/
theorem beginsWith_getElem? {t : String} {l : List Byte} (h : beginsWith t l = true) (i : Nat)
    (hi : i < t.length) : ∃ d, l[i]? = some d ∧
      some (if 0x41 ≤ d ∧ d ≤ 0x5a then d + 0x20 else d) = (ascii t)[i]? := by
  have hmap := of_decide_eq_true h
  have hlen : (ascii t).length = t.length := by rw [ascii, List.length_map, String.length_toList]
  have hget : (_ : List Byte)[i]? = (ascii t)[i]? := congrArg (·[i]?) hmap
  rw [List.getElem?_map, List.getElem?_take, if_pos hi] at hget
  cases hd : l[i]? with
  | none =>
    rw [hd, Option.map_none, eq_comm, List.getElem?_eq_none_iff] at hget
    omega
  | some d =>
    rw [hd] at hget
    exact ⟨d, rfl, hget⟩

/-- What `@@identity` looks like. -/
theorem identity_cons (h : beginsWith IDENTITY (c :: rest) = true) :
    c = AT ∧ rest.head? = some AT ∧ 9 ≤ rest.length ∧ rest[1]? ≠ some AT := by
  have hat : ∀ d : Byte, some (if 0x41 ≤ d ∧ d ≤ 0x5a then d + 0x20 else d) = some AT → d = AT := by
    intro d hd
    have hd' := Option.some.inj hd
    split at hd'
    · rename_i hupper
      obtain rfl : d = 0x20 := by
        rw [← UInt8.add_left_inj 0x20, hd']
        decide
      exact absurd hupper (by decide)
    · exact hd'
  refine ⟨?_, ?_, ?_, ?_⟩
  · obtain ⟨d, hd, heq⟩ := beginsWith_getElem? h 0 (by decide)
    rw [List.getElem?_cons_zero] at hd
    exact (Option.some.inj hd) ▸ hat d heq
  · obtain ⟨d, hd, heq⟩ := beginsWith_getElem? h 1 (by decide)
    rw [List.getElem?_cons_succ] at hd
    rw [List.head?_eq_getElem?, hd, hat d heq]
  · obtain ⟨d, hd, -⟩ := beginsWith_getElem? h 9 (by decide)
    have hlt := (List.getElem?_eq_some_iff.mp hd).1
    rw [List.length_cons] at hlt
    omega
  · obtain ⟨d, hd, heq⟩ := beginsWith_getElem? h 2 (by decide)
    rw [List.getElem?_cons_succ] at hd
    rw [hd]
    rintro hd'
    rw [Option.some.inj hd'] at heq
    exact absurd heq (by decide)

/-- A call of `currval` begins like its name. -/
theorem InsertTarget.currval_cons (target : InsertTarget) (table : List Byte)
    (column : InsertColumn) : ∃ t, target.currval table column = 0x63 :: 0x75 :: t := by
  have hserial : ∀ name, ∃ t, target.serial table name = 0x63 :: 0x75 :: t :=
    fun _ => ⟨_, rfl⟩
  unfold InsertTarget.currval
  split
  · split
    · exact ⟨_, rfl⟩
    · exact hserial _
  · exact hserial _

/-- What replaces the token begins with two letters that differ. -/
theorem InsertTarget.text_cons (target : InsertTarget) :
    ∃ x y t, target.text = x :: y :: t ∧ x ≠ y ∧ x ≠ AT ∧ y ≠ AT := by
  have hnull : ∃ x y t, ascii "NULL" = x :: y :: t ∧ x ≠ y ∧ x ≠ AT ∧ y ≠ AT :=
    ⟨0x4e, 0x55, [0x4c, 0x4c], by decide⟩
  unfold InsertTarget.text
  split
  · split
    · rename_i table _ _ _ _ column _
      obtain ⟨t, ht⟩ := target.currval_cons table column
      exact ⟨0x63, 0x75, t, ht, by decide⟩
    · exact hnull
  · exact hnull

/-- A byte that is lost behind `@@identity` is missed. -/
theorem identityReplacer_detectable (conn : ConnectionClass) (before : Byte)
    (target : InsertTarget) : (identityReplacer conn before target).Detectable 9 AT where
  begins h := by
    obtain ⟨hc, hhead, -⟩ := identity_cons (identityReplacer_token.mp h).2.2
    exact ⟨hc, hhead⟩
  length h := (identity_cons (identityReplacer_token.mp h).2.2).2.2.1
  apart {s t c d rest} h := by
    refine Bool.eq_false_iff.mpr fun h' => ?_
    obtain ⟨-, hhead, -⟩ := identity_cons (identityReplacer_token.mp h').2.2
    refine (identity_cons (identityReplacer_token.mp h).2.2).2.2.2 ?_
    rw [List.getElem?_cons_succ, ← List.head?_eq_getElem?, hhead]
  stays s done rest := by
    refine (lexStep_ascii conn before false .idle s.markers done (by decide) rest).trans ?_
    have hmove : plainMove conn false (done.headD before) AT rest = ⟨.idle, 0, false⟩ :=
      plainMove_other _ _ _ _ _ (by decide) (by decide) (by decide) (by decide) (by decide)
        (fun h => absurd h.1 (by decide)) (fun h => absurd h.1 (by decide))
    rw [asciiMove, hmove]
    rfl
  text := target.text_cons

/-! ### The loop follows the copy -/

theorem plainMove_tagOk {eager : Bool} {prev : Byte} :
    TagOk (plainMove conn eager prev c rest).status := by
  unfold plainMove
  dsimp only
  split_ifs with _ _ _ htag
  all_goals first
    | exact trivial
    | skip
  intro htake
  rcases List.take_eq_nil_iff.mp htake with h | h
  · exact absurd h (Nat.ne_of_gt htag)
  · exact absurd h (List.cons_ne_nil _ _)

theorem lexMove_tagOk {eager : Bool} {stat : Nat} {status : Status} {prev : Byte}
    (h : TagOk status) : TagOk (lexMove conn eager stat status prev c rest).status := by
  unfold lexMove
  split
  · dsimp only
    split
    · exact trivial
    · exact h
  · unfold asciiMove
    cases status with
    | idle => exact plainMove_tagOk
    | escape e => exact trivial
    | identKeyword =>
      dsimp only
      split
      · exact trivial
      · exact plainMove_tagOk
    | dollarQuote tag =>
      dsimp only
      split_ifs
      · exact trivial
      · exact h
    | _ =>
      dsimp only
      split_ifs <;> exact trivial

/-- Where `@@identity` begins, `inner_process_tokens` has moved to plain SQL. -/
theorem inner_process_tokens_identity (env : Env) (before : Byte) (hrun : s.progress = .running)
    (hlf : s.qb.flags.convertLf = false)
    (htoken : (identityReplacer s.qb.conn before target).token s.lex c rest = true) :
    ∃ qp, inner_process_tokens env before s done c rest =
        ({ s with qp := qp, progress := .escape }, 0) ∧
      qp.status = .idle ∧ qp.ccst = 0 ∧ qp.statement_type = s.qp.statement_type := by
  obtain ⟨qp, qb, progress, markers⟩ := s
  obtain rfl : progress = .running := hrun
  obtain ⟨hascii, hstatus, hidentity⟩ := identityReplacer_token.mp htoken
  dsimp only [ParseState.lex] at hascii hstatus hlf
  have hccst := (stat_of_not_nonAscii hascii).1
  have hplain : ∀ (qp : QueryParse) (finished : Option (List Byte)),
      processPlain env before ⟨qp, qb, .running, markers⟩ finished done c rest =
        (⟨qp, qb, .escape, markers⟩, 0) := by
    intro qp finished
    unfold processPlain
    dsimp only
    rw [if_neg fun h => absurd (hlf.symm.trans h.1) Bool.false_ne_true,
      if_pos (.inr (.inr hidentity))]
  unfold inner_process_tokens processAscii
  dsimp only
  rw [if_neg (by rw [hascii]; exact Bool.false_ne_true), hccst]
  rcases hstatus with hidle | hident
  · rw [hidle]
    exact ⟨_, hplain _ none, rfl, rfl, rfl⟩
  · have hc : continuesIdent c = false := by
      rw [(identity_cons hidentity).1]
      decide
    rw [hident]
    dsimp only
    rw [if_neg (by rw [hc]; exact Bool.false_ne_true)]
    exact ⟨_, hplain _ _, rfl, by simp, by simp⟩

/-- The loop has copied what the copy has, and goes on like it. -/
structure CopiesLike (conn : ConnectionClass) (target : InsertTarget) (a : ParseState × Nat)
    (b : (LexState × List Byte) × Nat) (done rest : List Byte) : Prop where
  running : a.1.progress = .running
  lex : a.1.lex = b.1.1
  out : a.1.qb.query_statement = b.1.2
  skip : a.2 = b.2
  conn : a.1.qb.conn = conn
  tag : TagOk a.1.qp.status
  text : Unrewritten a.1.qb.conn a.1.qb.flags a.1.qp.statement_type (done.reverse ++ rest)
  kept : target.lost = true → ∀ t, t <:+ rest → beginsWith IDENTITY t = false

/-- One byte further. -/
theorem copiesLike_step (a : ParseState × Nat) (b : (LexState × List Byte) × Nat)
    (done : List Byte) (c : Byte) (rest : List Byte)
    (h : CopiesLike conn target a b done (c :: rest)) :
    CopiesLike conn target ((processIdentity env target before).advance a done c rest)
      (((identityReplacer conn before target).scan 10).advance b done c rest) (c :: done) rest := by
  obtain ⟨s, k⟩ := a
  obtain ⟨⟨l, out⟩, k'⟩ := b
  obtain rfl : k = k' := h.skip
  obtain rfl : s.lex = l := h.lex
  obtain rfl : s.qb.query_statement = out := h.out
  obtain rfl : s.qb.conn = conn := h.conn
  have htext : Unrewritten s.qb.conn s.qb.flags s.qp.statement_type
      ((c :: done).reverse ++ rest) := by
    rw [List.reverse_cons, List.append_assoc]
    exact h.text
  have hkept : target.lost = true → ∀ t, t <:+ rest → beginsWith IDENTITY t = false :=
    fun hlost t ht => h.kept hlost t (ht.trans (List.suffix_cons c rest))
  cases k with
  | succ k => exact ⟨h.running, rfl, rfl, rfl, rfl, h.tag, htext, hkept⟩
  | zero =>
    rw [Scanner.advance_step]
    change CopiesLike _ _ (inner_process_identity env target before s done c rest) _ _ _
    cases htoken : (identityReplacer s.qb.conn before target).token s.lex c rest with
    | true =>
      have hidentity := (identityReplacer_token.mp htoken).2.2
      obtain ⟨qp, hstep, hidle, hccst, htype⟩ :=
        inner_process_tokens_identity env before h.running h.text.convertLf htoken
      have hup : ¬ target.lost = true := fun hlost =>
        absurd ((h.kept hlost _ (List.suffix_refl _)).symm.trans hidentity) Bool.false_ne_true
      rw [Replacer.advance_token htoken, inner_process_identity, hstep,
        if_pos ⟨h.running, rfl, hidentity, hup⟩]
      refine ⟨rfl, ?_, rfl, rfl, rfl, ?_, ?_, hkept⟩
      · simp [ParseState.lex, ParseState.append, identityReplacer, hidle, hccst]
      · simp [ParseState.append, hidle, TagOk]
      · dsimp only [ParseState.append, QueryBuild.append]
        rw [htype]
        exact htext
    | false =>
      have hcopied := inner_process_tokens_copies env before h.running h.tag
        h.text fun hascii hstatus => Bool.eq_false_iff.mpr fun hidentity =>
          absurd (identityReplacer_token.mpr ⟨hascii, hstatus, hidentity⟩)
            (Bool.eq_false_iff.mp htoken)
      rw [Replacer.advance_copy htoken, inner_process_identity, if_neg ?_]
      · refine ⟨hcopied.running, hcopied.lex, hcopied.out.trans ?_, hcopied.skipped, hcopied.conn,
          ?_, ?_, hkept⟩
        · rfl
        · have hlex := congrArg LexState.status hcopied.lex
          dsimp only [ParseState.lex] at hlex
          rw [hlex]
          exact lexMove_tagOk h.tag
        · rw [hcopied.conn, hcopied.flags, hcopied.statement_type]
          exact htext
      · rw [hcopied.running]
        exact fun h => absurd h.2.1 (by decide)

/-- The statement with `@@identity` replaced in plain SQL and nothing else changed. -/
def replaceIdentity (target : InsertTarget) (before : Byte) (qb : QueryBuild)
    (text : List Byte) : List Byte :=
  (((identityReplacer qb.conn before target).scan 9).run ((.init, qb.query_statement), 0) [] text
    []).1.2

/-- Wherever `@@identity` stands in plain SQL, it is the end of the text. -/
def IdentityLast (target : InsertTarget) (before : Byte) (qb : QueryBuild) (text : List Byte) :
    Prop :=
  ((identityReplacer qb.conn before target).scan 9).AllSteps
    (fun s _ c rest => (identityReplacer qb.conn before target).token s.1 c rest = true →
      rest.length = 9)
    ((.init, qb.query_statement), 0) [] text []

instance (target : InsertTarget) (before : Byte) (qb : QueryBuild) (text : List Byte) :
    Decidable (IdentityLast target before qb text) :=
  inferInstanceAs (Decidable (Scanner.AllSteps _ _ _ _ _ _))

/-- **What is copied.** A statement that no mode rewrites is copied byte for byte when
`@@identity` is not in it. When it is, nothing else is changed exactly where each one in plain
SQL is the end of the statement: the byte behind the token is lost. -/
theorem statement_copied_iff (env : Env) (target : InsertTarget) (before : Byte)
    (qb : QueryBuild) (statement_type : StatementType) (text : List Byte)
    (h : Unrewritten qb.conn qb.flags statement_type (cstring text))
    (hkept : target.lost = true → ∀ t, t <:+ cstring text → beginsWith IDENTITY t = false) :
    let s := prepareStatement env target before qb statement_type text
    s.progress = .running ∧
      ((∀ t, t <:+ cstring text → beginsWith IDENTITY t = false) →
        s.qb.query_statement = qb.query_statement ++ cstring text) ∧
      (s.qb.query_statement = replaceIdentity target before qb (cstring text) ↔
        IdentityLast target before qb (cstring text)) := by
  have hstart : CopiesLike qb.conn target (.start qb statement_type, 0)
      ((.init, qb.query_statement), 0) [] (cstring text ++ []) :=
    ⟨rfl, rfl, rfl, rfl, rfl, trivial, by rw [List.append_nil]; exact h,
      by rw [List.append_nil]; exact hkept⟩
  have hcopies := Scanner.simulation (m := processIdentity env target before)
    (n := ((identityReplacer qb.conn before target).scan 10)) copiesLike_step hstart
  intro s
  have hout : s.qb.query_statement = _ := hcopies.out
  refine ⟨hcopies.running, fun hno => ?_, ?_⟩
  · rw [hout]
    have hcopy := Replacer.run_of_no_token (r := identityReplacer qb.conn before target) (n := 10)
      (s := .init) (k := 0) (q := qb.query_statement) (d := []) (l := cstring text)
      fun t c rest hsuffix => Bool.eq_false_iff.mpr fun htoken =>
        absurd ((hno _ hsuffix).symm.trans (identityReplacer_token.mp htoken).2.2)
          Bool.false_ne_true
    rwa [List.take_zero, List.append_nil] at hcopy
  · rw [hout]
    exact Replacer.scan_eq_iff (identityReplacer_detectable qb.conn before target) _ _ _

/-- No `INSERT` has been executed. -/
def sampleTarget : InsertTarget where
  schemaIns := none
  tableIns := none
  found := false
  coli := none
  down := false
  identifierEscape := fun name _ => name

/-- The token at the end of a statement. -/
theorem statement_copied_iff_select :
    let s := prepareStatement sampleEnv sampleTarget 0 sampleQuery .other
      (ascii "SELECT 'a', @@identity")
    s.progress = .running ∧
      ((∀ t, t <:+ ascii "SELECT 'a', @@identity" → beginsWith IDENTITY t = false) →
        s.qb.query_statement = ascii "SELECT 'a', @@identity") ∧
      s.qb.query_statement = ascii "SELECT 'a', NULL" := by
  have h := statement_copied_iff sampleEnv sampleTarget 0 sampleQuery .other
    (ascii "SELECT 'a', @@identity")
    ⟨by decide, by decide, by decide, rfl, nofun, fun h => absurd h (by decide)⟩ nofun
  exact ⟨h.1, h.2.1, (h.2.2.mpr (by decide)).trans (by decide)⟩

/-- `SELECT @@identity;`: the semicolon is lost. -/
theorem statement_loses_semicolon :
    let s := prepareStatement sampleEnv sampleTarget 0 sampleQuery .other
      (ascii "SELECT @@identity;")
    s.progress = .running ∧ s.qb.query_statement = ascii "SELECT NULL" ∧
      replaceIdentity sampleTarget 0 sampleQuery (ascii "SELECT @@identity;") =
        ascii "SELECT NULL;" := by
  decide

end OdbcDriver
