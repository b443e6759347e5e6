import OdbcDriver.Escape.LiteralRules

/-!
# The literals that are copied

`literal_copied_iff` is the condition for one escape, anywhere in any statement. `brace_in_literal`
is an escape that ends inside its literal, and `literal_overruns` says what happens to the others.
-/

namespace OdbcDriver.Escape

open Lib (ok_bind error_bind pure_eq_ok)

variable {locals : Locals} {e : LiteralEscape} {before after : List Byte} {qb : QueryBuild}

/-! ### The text that is taken -/

/-- What is printed is the same for every text. -/
theorem literalForm_isSome {key : List Byte} (h : (literalForm key []).isSome = true)
    (text : List Byte) : ∃ form, literalForm key text = some form ∧
      form.length ≤ text.length + key.length + 11 := by
  obtain ⟨k, hk, heq⟩ := isKey_iff h
  simp only [literalForm, stricmp, decide_eq_true_eq, heq]
  simp only [keywords, List.mem_cons, List.not_mem_nil, or_false] at hk
  rcases hk with rfl | rfl | rfl | rfl
  · exact ⟨text ++ ascii "::date", rfl, by rw [List.length_append]; simp [ascii]; omega⟩
  · exact ⟨text ++ ascii "::time", rfl, by rw [List.length_append]; simp [ascii]; omega⟩
  · exact ⟨text ++ ascii "::timestamp", rfl, by rw [List.length_append]; simp [ascii]⟩
  · exact ⟨key ++ ascii " " ++ text, rfl, by simp [ascii]; omega⟩

/-- What was taken is printed whole, with a space behind it where it would run on. -/
theorem convertLiteral_eq (qb : QueryBuild) {key text small : List Byte} {qp qp' : OldPos}
    (hkey : (literalForm key []).isSome = true)
    (hextract : F_ExtractOldTo qp locals.buf_small ODBC_ESCAPE_END 128 = .ok (some (qp', small)))
    (htext : CString.text small 0 = text) (hshort : text.length + key.length + 11 < 1024) :
    ∃ form, literalForm key text = some form ∧ convertLiteral locals key qp qb =
      .ok (.success qp' (QB_append_space_to_separate_identifiers (qb.append form) qp')) := by
  obtain ⟨form, hform, hlen⟩ := literalForm_isSome hkey text
  refine ⟨form, hform, ?_⟩
  have hprint : (Scanf.snprintf 1024 form).1 = form := List.take_of_length_le (by omega)
  rw [convertLiteral, hextract, ok_bind]
  simp only [htext, hform, hprint]
  rfl

/-- A space is added in front of what would run on. -/
theorem append_space_eq {qp : OldPos} {form : List Byte} {b : Byte}
    (hbrace : F_OldChar qp = ODBC_ESCAPE_END) (hnext : F_OldChar (F_OldNext qp 1) = b) :
    QB_append_space_to_separate_identifiers (qb.append form) qp =
      qb.append (form ++ if joins qb.conn.ccsc b then ascii " " else []) := by
  rw [QB_append_space_to_separate_identifiers, if_neg (not_not.mpr hbrace), hnext]
  change (if joins qb.conn.ccsc b = true then _ else _) = _
  by_cases hjoin : joins qb.conn.ccsc b = true
  · rw [if_pos hjoin, if_pos hjoin]
    simp [QueryBuild.append]
  · rw [if_neg hjoin, if_neg hjoin, List.append_nil]

/-- Only white space and quotes are added to the content. -/
theorem LiteralEscape.stops_iff (e : LiteralEscape) :
    (∀ c ∈ e.body, ¬ Stops ODBC_ESCAPE_END c) ↔ ∀ c ∈ e.content, c ≠ 0 ∧ c ≠ ODBC_ESCAPE_END := by
  have hquote : ¬ Stops ODBC_ESCAPE_END (0x27 : Byte) := by decide
  have htrail : ∀ c ∈ e.trail, ¬ Stops ODBC_ESCAPE_END c := by
    intro c hc hstop
    have hspace := e.trail_space c hc
    rcases hstop with rfl | rfl <;> exact absurd hspace (by decide)
  simp only [LiteralEscape.body, literal, List.forall_mem_append, List.forall_mem_singleton]
  constructor
  · rintro ⟨⟨⟨-, h⟩, -⟩, -⟩ c hc
    have hstop := h c (by
      rw [List.mem_flatMap]
      refine ⟨c, hc, ?_⟩
      split <;> simp_all)
    exact not_or.mp hstop
  · intro h
    refine ⟨⟨⟨hquote, ?_⟩, hquote⟩, htrail⟩
    intro c hc
    obtain ⟨x, hx, hmem⟩ := List.mem_flatMap.mp hc
    split at hmem
    · obtain rfl : c = 0x27 := by simpa using hmem
      exact hquote
    · obtain rfl := List.mem_singleton.mp hmem
      exact not_or.mpr (h c hx)

/-! ### The escape -/

/-- The statement, with the position behind the keyword's white space. -/
theorem LiteralEscape.statement_eq (e : LiteralEscape) (before after : List Byte) :
    before ++ e.text ++ [ODBC_ESCAPE_END] ++ after =
      (before ++ [ODBC_ESCAPE_START] ++ e.lead ++ e.key ++ e.gap) ++
        (e.body ++ ODBC_ESCAPE_END :: after) := by
  simp [LiteralEscape.text]

/-- With room for the terminator the literal is copied. -/
theorem copied_of_fits (hlen : e.body.length ≤ 127)
    (hstops : ∀ c ∈ e.body, ¬ Stops ODBC_ESCAPE_END c) : Copied locals before e after qb := by
  obtain ⟨hword, -, hkey, -⟩ := isKey_word e.isKey
  obtain ⟨small, hextract, htext⟩ := extract_fits
    ⟨before ++ e.text ++ [ODBC_ESCAPE_END] ++ after,
      (before ++ [ODBC_ESCAPE_START] ++ e.lead ++ e.key ++ e.gap).length⟩
    (e.statement_eq before after) rfl hstops locals.sizeof_buf_small rfl (by omega)
  obtain ⟨form, hform, heq⟩ := convertLiteral_eq qb e.isKey hextract htext (by omega)
  refine ⟨form, hform, ?_⟩
  have hpos : (before ++ [ODBC_ESCAPE_START] ++ e.lead ++ e.key ++ e.gap).length + e.body.length =
      (before ++ e.text).length := by
    simp [LiteralEscape.text]
    omega
  rw [convert_escape_eq e before after rfl, heq, F_OldNext, hpos]
  have hbrace : F_OldChar ⟨before ++ e.text ++ [ODBC_ESCAPE_END] ++ after, (before ++ e.text).length⟩ =
      ODBC_ESCAPE_END :=
    F_OldChar_eq (f := before ++ e.text) (z := after) (by simp) rfl
  have hnext : F_OldChar (F_OldNext ⟨before ++ e.text ++ [ODBC_ESCAPE_END] ++ after,
      (before ++ e.text).length⟩ 1) = after.headD 0 := by
    have hlength : (before ++ e.text).length + 1 = (before ++ e.text ++ [ODBC_ESCAPE_END]).length := by
      rw [← List.length_singleton (a := ODBC_ESCAPE_END), ← List.length_append]
    rw [F_OldNext, F_OldChar, hlength, List.getD_eq_getElem?_getD,
      List.getElem?_append_right (le_refl _), Nat.sub_self]
    cases after <;> rfl
  rw [append_space_eq hbrace hnext]

/-- A literal that leaves no room for the terminator overruns the buffer. -/
theorem literal_overruns (e : LiteralEscape) (before after : List Byte) (locals : Locals)
    (qb : QueryBuild) (hlen : 128 ≤ e.body.length)
    (hstops : ∀ c ∈ e.body, ¬ Stops ODBC_ESCAPE_END c) :
    convert_escape locals ⟨before ++ e.text ++ [ODBC_ESCAPE_END] ++ after, before.length⟩ qb =
      .error .beyond := by
  have hover := extract_overrun
    ⟨before ++ e.text ++ [ODBC_ESCAPE_END] ++ after,
      (before ++ [ODBC_ESCAPE_START] ++ e.lead ++ e.key ++ e.gap).length⟩
    (e.statement_eq before after) rfl hstops locals.sizeof_buf_small (Or.inl rfl) hlen
  rw [convert_escape_eq e before after rfl, convertLiteral, hover, error_bind]

/-- **The literal of an escape.** In every statement a literal is copied, up to the closing brace and
within the buffer, exactly when it has no brace and no NUL inside and, with the white space behind it,
no more than 127 bytes. -/
theorem literal_copied_iff (locals : Locals) (before : List Byte) (e : LiteralEscape)
    (after : List Byte) (qb : QueryBuild) :
    Copied locals before e after qb ↔
      e.body.length ≤ 127 ∧ ∀ c ∈ e.content, c ≠ 0 ∧ c ≠ ODBC_ESCAPE_END := by
  rw [← e.stops_iff]
  constructor
  · rintro ⟨form, -, hcopied⟩
    rw [convert_escape_eq e before after rfl] at hcopied
    -- what the loop passes over: up to the first brace or NUL, which may be in the literal
    obtain ⟨a, b, z, hsplit, ha, hb⟩ : ∃ a b z, e.body ++ ODBC_ESCAPE_END :: after = a ++ b :: z ∧
        (∀ x ∈ a, ¬ Stops ODBC_ESCAPE_END x) ∧ Stops ODBC_ESCAPE_END b := by
      generalize e.body = body
      induction body with
      | nil => exact ⟨[], ODBC_ESCAPE_END, after, rfl, List.forall_mem_nil _, Or.inr rfl⟩
      | cons x body ih =>
        by_cases hx : Stops ODBC_ESCAPE_END x
        · exact ⟨[], x, body ++ ODBC_ESCAPE_END :: after, rfl, List.forall_mem_nil _, hx⟩
        · obtain ⟨a, b, z, hsplit, ha, hb⟩ := ih
          exact ⟨x :: a, b, z, by rw [List.cons_append, hsplit]; rfl,
            List.forall_mem_cons.mpr ⟨hx, ha⟩, hb⟩
    have hst := e.statement_eq before after
    rw [hsplit] at hst
    have hfull : ¬ (128 ≤ a.length ∧ (b = ODBC_ESCAPE_END ∨ 128 < a.length)) := by
      rintro ⟨hlen, hend⟩
      rw [convertLiteral, extract_overrun _ hst rfl ha locals.sizeof_buf_small hend hlen,
        error_bind] at hcopied
      exact absurd hcopied (by simp)
    have hend : b = ODBC_ESCAPE_END := by
      refine hb.resolve_left fun h0 => ?_
      rw [convertLiteral, extract_none _ hst rfl ha locals.sizeof_buf_small h0 (by omega),
        ok_bind] at hcopied
      exact absurd hcopied (by simp [pure_eq_ok])
    have hlen : a.length < 128 := by
      by_contra hge
      exact hfull ⟨by omega, Or.inl hend⟩
    obtain ⟨small, hextract, htext⟩ :=
      extract_fits ⟨_, _⟩ hst rfl ha locals.sizeof_buf_small hend hlen
    obtain ⟨-, -, hkey, -⟩ := isKey_word e.isKey
    obtain ⟨form', -, heq⟩ := convertLiteral_eq qb e.isKey hextract htext (by omega)
    -- the position tells that the whole literal was passed over
    rw [heq, F_OldNext] at hcopied
    simp only [Except.ok.injEq, Converted.success.injEq, OldPos.mk.injEq, true_and] at hcopied
    have hpos : a.length = e.body.length := by
      have h := hcopied.1
      simp only [LiteralEscape.text, List.length_append, List.length_singleton] at h
      omega
    obtain ⟨rfl, -⟩ := List.append_inj hsplit hpos.symm
    exact ⟨by omega, ha⟩
  · rintro ⟨hlen, hstops⟩
    exact copied_of_fits hlen hstops

/-! ### Literals that are not copied -/

theorem blank_space : ∀ c ∈ ascii " ", isSpace c = true := by
  intro c hc
  obtain rfl : c = 0x20 := List.mem_singleton.mp hc
  rfl

/-- The escape character `}`, as for `LIKE 'a}_' {escape '}'}`. -/
def braceEscape : LiteralEscape where
  lead := []
  key := ascii "escape"
  gap := ascii " "
  content := [ODBC_ESCAPE_END]
  trail := []
  isKey := by decide
  lead_space := List.forall_mem_nil _
  gap_space := blank_space
  gap_ne := by decide
  trail_space := List.forall_mem_nil _

/-- A literal of 128 bytes. -/
def longEscape : LiteralEscape where
  lead := []
  key := ascii "d"
  gap := ascii " "
  content := List.replicate 126 0x30
  trail := []
  isKey := by decide
  lead_space := List.forall_mem_nil _
  gap_space := blank_space
  gap_ne := by decide
  trail_space := List.forall_mem_nil _

/-- The local variables, cleared. -/
def cleared : Locals where
  buf_small := List.replicate 128 0
  key := []
  sizeof_buf_small := List.length_replicate

/-- An empty query. -/
def emptyQuery : QueryBuild where
  query_statement := []
  current_row := 0
  param_number := -1
  dollar_number := 0
  proc_return := 0
  apdopts := ⟨[], 0, 0, 1, none⟩
  ipdopts := ⟨[]⟩
  pdata := []
  param_mode := .fakeParams
  flags := sampleFlags
  conn := sampleConn

theorem longEscape_stops : ∀ c ∈ longEscape.body, ¬ Stops ODBC_ESCAPE_END c := by
  refine longEscape.stops_iff.mpr fun c hc => ?_
  obtain rfl : c = 0x30 := List.eq_of_mem_replicate hc
  decide

/-- The first escape ends inside its literal; of the second one the terminator is written behind the
buffer. -/
theorem literal_not_copied :
    ¬ Copied cleared [] braceEscape [] emptyQuery ∧
    convert_escape cleared ⟨braceEscape.text ++ [ODBC_ESCAPE_END], 0⟩ emptyQuery =
      .ok (.success ⟨braceEscape.text ++ [ODBC_ESCAPE_END], 9⟩
        (emptyQuery.append (ascii "escape '"))) ∧
    convert_escape cleared ⟨longEscape.text ++ [ODBC_ESCAPE_END], 0⟩ emptyQuery =
      .error .beyond := by
  have hbrace : convert_escape cleared ⟨braceEscape.text ++ [ODBC_ESCAPE_END], 0⟩ emptyQuery =
      .ok (.success ⟨braceEscape.text ++ [ODBC_ESCAPE_END], 9⟩
        (emptyQuery.append (ascii "escape '"))) := by
    obtain ⟨small, hextract, htext⟩ := extract_fits (a := [0x27]) (z := ascii "'\x7d")
      ⟨braceEscape.text ++ [ODBC_ESCAPE_END], (ascii "\x7bescape ").length⟩
      (show _ = ascii "\x7bescape " ++ _ by decide) rfl
      (List.forall_mem_singleton.mpr (by decide)) cleared.sizeof_buf_small rfl (by decide)
    obtain ⟨form, hform, heq⟩ :=
      convertLiteral_eq emptyQuery braceEscape.isKey hextract htext (by decide)
    obtain rfl : form = ascii "escape '" := (Option.some.inj hform).symm
    rw [append_space_eq rfl rfl] at heq
    exact (convert_escape_eq braceEscape [] [] (by decide)).trans heq
  refine ⟨?_, hbrace, ?_⟩
  · rintro ⟨form, -, hcopied⟩
    have hpos := hbrace.symm.trans hcopied
    simp only [Except.ok.injEq, Converted.success.injEq, OldPos.mk.injEq] at hpos
    exact absurd hpos.1.2 (by decide)
  · have hover := literal_overruns longEscape [] [] cleared emptyQuery (by decide +kernel)
      longEscape_stops
    rw [List.append_nil] at hover
    exact hover

end OdbcDriver.Escape
