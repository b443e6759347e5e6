import OdbcDriver.Lexer.Move

/-!
# `SC_scanQueryAndCountParams` moves by `lexMove`

Scanning a whole query, the function goes through the statuses of the lexer that passes over
both bytes of a comment's opening, and counts the markers that lexer meets.
-/

namespace OdbcDriver

open CInt (wrap)

/-- What the function shares with `inner_process_tokens`. -/
def ScanState.lex (s : ScanState) : LexState := ⟨s.status, s.ccst, s.markers⟩

/-- The scan has not been left, and `num_p` counts the markers. -/
structure ScanState.Counts (s : ScanState) : Prop where
  going : s.stopped = false
  counted : s.num_p = wrap 16 s.markers.length
  escape : EscapeOk s.status

/-- Counting one marker more. -/
theorem wrap_succ (w : Nat) (x : Int) : wrap w (wrap w x + 1) = wrap w (x + 1) := by
  have h : wrap w x + 1 + 2 ^ (w - 1) = (x + 2 ^ (w - 1)) % 2 ^ w + 1 := by
    rw [wrap]
    omega
  have h' : x + 1 + 2 ^ (w - 1) = x + 2 ^ (w - 1) + 1 := by omega
  rw [wrap, h, Int.emod_add_emod, wrap, h']

section Seen

variable (s : ScanState) (tchar : Byte)

/-- Only `bchar` changes. -/
theorem seen_eq : ∃ b, s.seen tchar = { s with bchar := b } := by
  unfold ScanState.seen
  split
  · exact ⟨_, rfl⟩
  · exact ⟨s.bchar, rfl⟩

@[simp]
theorem seen_lex : (s.seen tchar).lex = s.lex := by
  obtain ⟨b, h⟩ := seen_eq s tchar
  rw [h]
  rfl

@[simp]
theorem seen_stopped : (s.seen tchar).stopped = s.stopped := by
  obtain ⟨b, h⟩ := seen_eq s tchar
  rw [h]

@[simp]
theorem seen_num_p : (s.seen tchar).num_p = s.num_p := by
  obtain ⟨b, h⟩ := seen_eq s tchar
  rw [h]

end Seen

variable {conn : ConnectionClass} {before : Byte} {s : ScanState} {done rest : List Byte}
  {c : Byte}

/-- The scan's variables behind a move. -/
def Follows (s : ScanState) (done : List Byte) (m : Move) (r : ScanState × Nat) : Prop :=
  r.1.Counts ∧ r.2 = m.skip ∧
    r.1.lex = ⟨m.status, 0, if m.marker then s.markers ++ [done.length] else s.markers⟩

theorem ScanState.Counts.of_lex {s t : ScanState} (hs : s.Counts) (hgoing : t.stopped = s.stopped)
    (hnum : t.num_p = wrap 16 t.lex.markers.length) (hesc : EscapeOk t.lex.status) : t.Counts :=
  ⟨hgoing.trans hs.going, hnum, hesc⟩

/-- A byte that is no marker and changes nothing but the status. -/
theorem Follows.of_lex {m : Move} {r : ScanState × Nat} (hs : s.Counts) (hm : m.marker = false)
    (hskip : r.2 = m.skip) (hlex : r.1.lex = ⟨m.status, 0, s.markers⟩)
    (hgoing : r.1.stopped = s.stopped) (hnum : r.1.num_p = s.num_p) (hesc : EscapeOk m.status) :
    Follows s done m r := by
  refine ⟨⟨hgoing.trans hs.going, ?_, ?_⟩, hskip, by rw [hlex, hm]; rfl⟩
  · have hmarkers : r.1.markers = s.markers := congrArg LexState.markers hlex
    rw [hnum, hs.counted, hmarkers]
  · have hstatus : r.1.status = m.status := congrArg LexState.status hlex
    rw [hstatus]
    exact hesc

theorem num_p_succ (hs : s.Counts) (done : List Byte) :
    wrap 16 (s.num_p + 1) = wrap 16 (s.markers ++ [done.length]).length := by
  rw [hs.counted, wrap_succ, List.length_append]
  rfl

/-- A parameter marker. -/
theorem scanPlain_marker (hs : s.Counts) (hstatus : s.status = .idle) (hccst : s.ccst = 0) :
    Follows s done ⟨.idle, 0, true⟩ (scanPlain conn before false s done QUESTION_MARK rest) := by
  have hcount := num_p_succ hs done
  have key : ∀ t : ScanState, t.stopped = s.stopped → t.num_p = s.num_p → t.lex = s.lex →
      Follows s done ⟨.idle, 0, true⟩ (ScanState.seen { t with
        num_p := wrap 16 (t.num_p + 1), markers := t.markers ++ [done.length] }
          QUESTION_MARK, 0) := by
    intro t hstopped hnum hlex
    obtain ⟨ht, hccst', hmarkers⟩ : t.status = s.status ∧ t.ccst = s.ccst ∧
        t.markers = s.markers := by
      simpa [ScanState.lex] using hlex
    refine ⟨.of_lex hs ?_ ?_ ?_, rfl, ?_⟩
    · exact (seen_stopped _ _).trans hstopped
    · simp only [seen_num_p, seen_lex, hnum, hcount, hmarkers]
      rfl
    · simp only [seen_lex]
      simp [ScanState.lex, ht, hstatus, EscapeOk]
    · simp only [seen_lex]
      simp [ScanState.lex, ht, hstatus, hccst', hccst, hmarkers]
  unfold scanPlain
  rw [if_neg (by decide), if_pos rfl]
  dsimp only
  split
  · exact key { s with proc_return := true } rfl rfl rfl
  · exact key s rfl rfl rfl

/-- A byte in plain SQL. -/
theorem scanPlain_follows (hesc : EscapeSet conn) (hs : s.Counts) (hstatus : s.status = .idle)
    (hccst : s.ccst = 0) :
    Follows s done (plainMove conn true (done.headD before) c rest)
      (scanPlain conn before false s done c rest) := by
  have hquote := literalEscape_ne_quote hesc (done.headD before)
  have hhyphen : nextStat conn.ccsc 0 HYPHEN = 0 := nextStat_ascii _ (by decide)
  have hasterisk : nextStat conn.ccsc 0 ASTERISK = 0 := nextStat_ascii _ (by decide)
  by_cases hmark : c = QUESTION_MARK
  · subst hmark
    exact scanPlain_marker hs hstatus hccst
  by_cases hsemi : c = SEMICOLON
  · subst hsemi
    rw [plainMove_semicolon]
    unfold scanPlain
    rw [if_neg (by decide), if_neg (by decide), if_pos rfl]
    refine .of_lex hs rfl rfl ?_ ?_ ?_ trivial
    · simp only [seen_lex]
      simp [ScanState.lex, hstatus, hccst]
    · simp
    · simp
  unfold scanPlain plainMove
  rw [if_neg hmark, if_neg hmark, if_neg hsemi]
  simp only [opens, if_true]
  split_ifs
  all_goals
    refine .of_lex hs rfl rfl ?_ ?_ ?_ ?_
    · simp only [seen_lex]
      simp [ScanState.lex, hstatus, hccst, hhyphen, hasterisk]
    · simp
    · simp
    · first | exact trivial | exact hquote

/-- A byte that is no part of a multibyte character. -/
theorem scanAscii_follows (hesc : EscapeSet conn) (hs : s.Counts) (hccst : s.ccst = 0) :
    Follows s done (asciiMove conn true s.status (done.headD before) c rest)
      (scanAscii conn before false s done c rest) := by
  have hasterisk : nextStat conn.ccsc 0 ASTERISK = 0 := nextStat_ascii _ (by decide)
  have hslash : nextStat conn.ccsc 0 SLASH = 0 := nextStat_ascii _ (by decide)
  have hesc' := hs.escape
  unfold scanAscii asciiMove
  cases hstatus : s.status with
  | identKeyword =>
    dsimp only
    split
    · exact .of_lex hs rfl rfl (by simp [ScanState.lex, hccst]) rfl rfl trivial
    · exact scanPlain_follows (s := { s with status := .idle }) hesc
        ⟨hs.going, hs.counted, trivial⟩ rfl hccst
  | idle => exact scanPlain_follows hesc hs hstatus hccst
  | dollarQuote tag =>
    dsimp only
    split
    · exact .of_lex hs rfl rfl (by simp [ScanState.lex, hccst]) rfl rfl trivial
    · exact .of_lex hs rfl rfl (by simp [ScanState.lex, hstatus, hccst]) rfl rfl trivial
  | escape e =>
    rw [hstatus] at hesc'
    exact .of_lex hs rfl rfl (by simp [ScanState.lex, hccst]) rfl rfl hesc'
  | literal e =>
    rw [hstatus] at hesc'
    dsimp only
    by_cases hquote : c = LITERAL_QUOTE
    · -- the other lexer looks for the quote first; the escape character is not the quote
      rw [if_pos hquote, if_neg fun h => hesc' (h.symm.trans hquote), if_pos hquote]
      exact .of_lex hs rfl rfl (by simp [ScanState.lex, hccst]) rfl rfl trivial
    · rw [if_neg hquote, if_neg hquote]
      split
      · exact .of_lex hs rfl rfl (by simp [ScanState.lex, hccst]) rfl rfl hesc'
      · exact .of_lex hs rfl rfl (by simp [ScanState.lex, hstatus, hccst]) rfl rfl hesc'
  | dquoteIdentifier =>
    dsimp only
    by_cases hend : c = IDENTIFIER_QUOTE
    · rw [if_pos hend, if_pos hend]
      exact .of_lex hs rfl rfl (by simp [ScanState.lex, hccst]) rfl rfl trivial
    · rw [if_neg hend, if_neg hend]
      exact .of_lex hs rfl rfl (by simp [ScanState.lex, hstatus, hccst]) rfl rfl trivial
  | lineComment =>
    dsimp only
    by_cases hend : c = PG_LINEFEED
    · rw [if_pos hend, if_pos hend]
      exact .of_lex hs rfl rfl (by simp [ScanState.lex, hccst]) rfl rfl trivial
    · rw [if_neg hend, if_neg hend]
      exact .of_lex hs rfl rfl (by simp [ScanState.lex, hstatus, hccst]) rfl rfl trivial
  | commentBlock level =>
    dsimp only
    by_cases hopen : c = SLASH ∧ rest.headD 0 = ASTERISK
    · rw [if_pos hopen, if_pos hopen]
      exact .of_lex hs rfl rfl (by simp [ScanState.lex, hccst, hasterisk]) rfl rfl trivial
    rw [if_neg hopen, if_neg hopen]
    by_cases hclose : c = ASTERISK ∧ rest.headD 0 = SLASH
    · rw [if_pos hclose, if_pos hclose]
      refine .of_lex hs rfl rfl (by simp [ScanState.lex, hccst, hslash]) rfl rfl ?_
      dsimp only
      split <;> exact trivial
    · rw [if_neg hclose, if_neg hclose]
      exact .of_lex hs rfl rfl (by simp [ScanState.lex, hstatus, hccst]) rfl rfl trivial

/-- **One byte.** The scan moves as the lexer does, and goes on counting. -/
theorem scanStep_lex (hesc : EscapeSet conn) (hs : s.Counts) :
    (scanStep conn before false s done c rest).1.Counts ∧
      ((scanStep conn before false s done c rest).1.lex,
        (scanStep conn before false s done c rest).2) =
        lexStep conn before true s.lex done c rest := by
  have hstat : nextStat conn.ccsc s.lex.ccst c = nextStat conn.ccsc s.ccst c := rfl
  unfold scanStep lexStep lexMove
  rw [if_neg (by simp [hs.going]), hstat]
  dsimp only
  by_cases hmulti : nonAscii (nextStat conn.ccsc s.ccst c) c = true
  · rw [if_pos hmulti, if_pos hmulti]
    have hidle : s.lex.status = s.status := rfl
    rw [hidle]
    split
    all_goals
      split
      · exact ⟨⟨hs.going, hs.counted, trivial⟩, rfl⟩
      · exact ⟨⟨hs.going, hs.counted, hs.escape⟩, rfl⟩
  · rw [if_neg hmulti, if_neg hmulti]
    have hccst : nextStat conn.ccsc s.ccst c = 0 :=
      (stat_of_not_nonAscii (Bool.eq_false_iff.mpr hmulti)).1
    have key (multi : Bool) : Follows s done
        (asciiMove conn true s.status (done.headD before) c rest) (scanAscii conn before false
          { s with ccst := nextStat conn.ccsc s.ccst c, multi := multi } done c rest) :=
      @scanAscii_follows conn before { s with ccst := nextStat conn.ccsc s.ccst c, multi := multi }
        done rest c hesc ⟨hs.going, hs.counted, hs.escape⟩ hccst
    rw [hccst] at key ⊢
    split
    · rw [if_neg Bool.false_ne_true]
      exact ⟨(key true).1, Prod.ext (key true).2.2 (key true).2.1⟩
    · exact ⟨(key s.multi).1, Prod.ext (key s.multi).2.2 (key s.multi).2.1⟩

/-- **A whole scan.** The scan of a text is that of the lexer, and `num_p` counts its markers. -/
theorem scanQuery_run (before : Byte) (hesc : EscapeSet conn) (hs : s.Counts) (k : Nat)
    (done l rest : List Byte) :
    (((scanQuery conn before false).run (s, k) done l rest).1).Counts ∧
      (((scanQuery conn before false).run (s, k) done l rest).1.lex,
        ((scanQuery conn before false).run (s, k) done l rest).2) =
        (lexer conn before true).run (s.lex, k) done l rest := by
  refine Scanner.simulation
    (R := fun (a : ScanState × Nat) b _ _ => a.1.Counts ∧ (a.1.lex, a.2) = b) ?_ ⟨hs, rfl⟩
  rintro ⟨t, k⟩ _ done c rest ⟨ht, rfl⟩
  cases k with
  | zero => exact scanStep_lex hesc ht
  | succ k => exact ⟨ht, rfl⟩

/-- What `SC_scanQueryAndCountParams` counts. -/
theorem SC_scanQueryAndCountParams_lex (before : Byte) (hesc : EscapeSet conn) (query : List Byte) :
    let r := SC_scanQueryAndCountParams conn before query false
    r.lex = ((lexer conn before true).run (.init, 0) [] (cstring query) []).1 ∧
      r.num_p = wrap 16 r.markers.length := by
  have hinit : ScanState.init.Counts := ⟨rfl, by decide, trivial⟩
  obtain ⟨hcounts, hlex⟩ := scanQuery_run before hesc hinit 0 [] (cstring query) []
  exact ⟨congrArg Prod.fst hlex, hcounts.counted⟩

end OdbcDriver
