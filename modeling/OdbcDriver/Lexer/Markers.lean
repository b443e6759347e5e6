import OdbcDriver.Lexer.ScanRules
import OdbcDriver.Lexer.TokenRules

/-!
# The parameter markers of a statement

`inner_process_tokens` substitutes the markers it meets; `SC_scanQueryAndCountParams` counts the
markers for the application, which binds that many parameters. The two walk a statement in
lockstep, up to the openings of comments: at `/*` one of them passes over the star, the other
looks at it again. Where a slash comes next, only the latter has left the comment.
-/

namespace OdbcDriver

open CInt (wrap)

variable {env : Env} {before c : Byte} {s : ParseState} {done rest : List Byte}

/-! ### A whole statement -/

/-- The function, and the lexer that has moved along with it: together, or with the function
ahead of the lexer, or with the function stopped. -/
inductive Tracks (conn : ConnectionClass) (a : ParseState × Nat) (b : LexState × Nat)
    (rest : List Byte) : Prop
  | together (conn_eq : a.1.qb.conn = conn) (running : a.1.progress = .running)
      (ok : TokenOk a.1.qp) (lex : (a.1.lex, a.2) = b)
  | ahead (conn_eq : a.1.qb.conn = conn) (running : a.1.progress = .running)
      (ok : TokenOk a.1.qp) (lex : a.1.lex = ⟨.idle, 0, b.1.markers⟩)
      (here : b.2 = 0) (ascii : b.1.ccst = 0) (calm : Calm (rest.take a.2))
      (plain : b.1.status = .idle ∨ b.1.status = .identKeyword)
      (arrived : rest.take a.2 = [] → b.1.status = .idle)
  | stopped (progress : a.1.progress ≠ .running) (markers : a.1.markers <+: b.1.markers)

/-- The lexer keeps the markers it has met. -/
theorem advance_markers {conn : ConnectionClass} {eager : Bool} (b : LexState × Nat)
    (done : List Byte) (c : Byte) (rest : List Byte) :
    b.1.markers <+: ((lexer conn before eager).advance b done c rest).1.markers := by
  obtain ⟨b, k⟩ := b
  cases k with
  | zero =>
    change b.markers <+: (lexStep conn before eager b done c rest).1.markers
    unfold lexStep Move.after
    dsimp only
    split
    · exact List.prefix_append _ _
    · exact List.prefix_refl _
  | succ k => exact List.prefix_refl _

/-- Once it has stopped, the function changes nothing. -/
theorem advance_stopped (env : Env) (before c : Byte) (done rest : List Byte)
    {a : ParseState × Nat} (h : a.1.progress ≠ .running) :
    ((processTokens env before).advance a done c rest).1 = a.1 := by
  obtain ⟨s, k⟩ := a
  cases k with
  | succ k => rfl
  | zero =>
    change (inner_process_tokens env before s done c rest).1 = s
    unfold inner_process_tokens
    split
    · rename_i hrun
      exact absurd hrun h
    · rfl

theorem Tracks.advance_together {conn : ConnectionClass} (hconn : s.qb.conn = conn)
    (hrun : s.progress = .running) (hok : TokenOk s.qp) (k : Nat) :
    Tracks conn ((processTokens env before).advance (s, k) done c rest)
      ((lexer conn before false).advance (s.lex, k) done c rest) rest := by
  subst hconn
  cases k with
  | succ k => exact .together rfl hrun hok rfl
  | zero =>
    obtain ⟨hconn, hmoved⟩ := inner_process_tokens_moved env before c done rest hrun hok
    rw [Scanner.advance_step, Scanner.advance_step]
    change Tracks _ (inner_process_tokens env before s done c rest)
      (lexStep s.qb.conn before false s.lex done c rest) rest
    cases hmoved with
    | moved hrun' hok' hlex hskip => exact .together hconn hrun' hok' (Prod.ext hlex hskip)
    | jumped hrun' hok' hlex hidle hascii hskip hcalm =>
      refine .ahead hconn hrun' hok' ?_ hskip hascii hcalm (.inl hidle) fun _ => hidle
      rw [hlex, ← hidle, ← hascii]
    | stopped hprogress hmarkers => exact .stopped hprogress hmarkers

/-- What one byte keeps. -/
theorem tracks_advance (env : Env) (before c : Byte) (done rest : List Byte)
    {conn : ConnectionClass} {a : ParseState × Nat} {b : LexState × Nat} (h : Tracks conn a b (c :: rest)) :
    Tracks conn ((processTokens env before).advance a done c rest)
      ((lexer conn before false).advance b done c rest) rest := by
  obtain ⟨s, k⟩ := a
  cases h with
  | together hconn hrun hok hlex =>
    subst hlex
    exact Tracks.advance_together hconn hrun hok k
  | ahead hconn hrun hok hlex hhere hascii hcalm hplain harrived =>
    obtain ⟨⟨status, ccst, markers⟩, k'⟩ := b
    obtain rfl : k' = 0 := hhere
    obtain rfl : ccst = 0 := hascii
    cases k with
    | zero =>
      obtain rfl : status = .idle := harrived rfl
      have h : s.lex = ⟨.idle, 0, markers⟩ := hlex
      rw [← h]
      exact Tracks.advance_together hconn hrun hok 0
    | succ k =>
      rw [List.take_succ_cons] at hcalm
      have hstep : (lexer conn before false).advance (⟨status, 0, markers⟩, 0) done c rest =
          (⟨if isAlnum c then .identKeyword else .idle, 0, markers⟩, 0) :=
        lexStep_calm (hcalm.calm c List.mem_cons_self) hplain rfl
      rw [hstep, Scanner.advance_skip]
      refine .ahead hconn hrun hok hlex rfl rfl hcalm.tail ?_ fun hnil => ?_
      · dsimp only
        split
        · exact .inr rfl
        · exact .inl rfl
      · -- the last byte that is jumped over
        have hlast : isAlnum c = false := hcalm.closed c (by rw [hnil]; rfl)
        simp [hlast]
  | stopped hprogress hmarkers =>
    have hsame := advance_stopped env before c done rest hprogress
    refine .stopped (by rwa [hsame]) ?_
    rw [hsame]
    exact hmarkers.trans (advance_markers b done c rest)

/-- **A whole statement.** The markers of the function are those of the lexer; if it stops,
those of the beginning. -/
theorem process_statement_markers (env : Env) (before : Byte) (qb : QueryBuild)
    (statement_type : StatementType) (statement : List Byte) :
    let s := process_statement env before qb statement_type statement
    let t := ((lexer qb.conn before false).run (.init, 0) [] (cstring statement) []).1
    s.markers <+: t.markers ∧ (s.progress = .running → s.markers = t.markers) := by
  have hstart : Tracks qb.conn (.start qb statement_type, 0) (.init, 0) (cstring statement ++ []) :=
    .together rfl rfl ⟨nofun, nofun, fun h => absurd rfl h⟩ rfl
  have h : Tracks qb.conn
      ((processTokens env before).run (.start qb statement_type, 0) [] (cstring statement) [])
      ((lexer qb.conn before false).run (.init, 0) [] (cstring statement) []) [] :=
    Scanner.simulation (R := fun a b _ rest => Tracks qb.conn a b rest)
      (fun _ _ done c rest h => tracks_advance env before c done rest h) hstart
  cases h with
  | together hconn hrun hok hlex =>
    have hmarkers := congrArg (·.1.markers) hlex
    exact ⟨hmarkers ▸ List.prefix_refl _, fun _ => hmarkers⟩
  | ahead hconn hrun hok hlex hhere hascii hcalm hplain harrived =>
    have hmarkers := congrArg LexState.markers hlex
    exact ⟨hmarkers ▸ List.prefix_refl _, fun _ => hmarkers⟩
  | stopped hprogress hmarkers => exact ⟨hmarkers, fun hrun => absurd hrun hprogress⟩

/-! ### The openings of comments -/

/-- A comment opens, and its star is followed by a slash. -/
def OpensTight (conn : ConnectionClass) (s : LexState) (c : Byte) (rest : List Byte) : Prop :=
  (s.status = .idle ∨ s.status = .identKeyword) ∧
    nonAscii (nextStat conn.ccsc s.ccst c) c = false ∧ c = SLASH ∧
      rest.take 2 = [ASTERISK, SLASH]

instance (conn : ConnectionClass) (s : LexState) (c : Byte) (rest : List Byte) :
    Decidable (OpensTight conn s c rest) :=
  inferInstanceAs (Decidable (_ ∧ _))

variable {conn : ConnectionClass}

/-- In plain SQL, the lexers move alike but at the opening of a comment. -/
theorem plainMove_eager (prev c : Byte) (rest : List Byte) :
    plainMove conn true prev c rest = plainMove conn false prev c rest ∨
      (opens HYPHEN HYPHEN c rest ∧
        ∀ eager, plainMove conn eager prev c rest = ⟨.lineComment, if eager then 1 else 0, false⟩) ∨
      (opens SLASH ASTERISK c rest ∧
        ∀ eager, plainMove conn eager prev c rest =
          ⟨.commentBlock 0, if eager then 1 else 0, false⟩) := by
  by_cases hline : opens HYPHEN HYPHEN c rest
  · obtain ⟨rfl, h⟩ := hline
    exact .inr (.inl ⟨⟨rfl, h⟩, fun eager => plainMove_lineComment conn eager prev rest h⟩)
  by_cases hcomment : opens SLASH ASTERISK c rest
  · obtain ⟨rfl, h⟩ := hcomment
    exact .inr (.inr ⟨⟨rfl, h⟩, fun eager => plainMove_commentBlock conn eager prev rest h⟩)
  · left
    unfold plainMove
    rw [if_neg hline, if_neg hline, if_neg hcomment, if_neg hcomment]

/-- The lexers move alike but at the opening of a comment. -/
theorem lexMove_eager (stat : Nat) (status : Status) (prev c : Byte) (rest : List Byte) :
    lexMove conn true stat status prev c rest = lexMove conn false stat status prev c rest ∨
      ((status = .idle ∨ status = .identKeyword) ∧ nonAscii stat c = false ∧
        ((opens HYPHEN HYPHEN c rest ∧ ∀ eager, lexMove conn eager stat status prev c rest =
            ⟨.lineComment, if eager then 1 else 0, false⟩) ∨
          (opens SLASH ASTERISK c rest ∧ ∀ eager, lexMove conn eager stat status prev c rest =
            ⟨.commentBlock 0, if eager then 1 else 0, false⟩))) := by
  unfold lexMove
  by_cases hmulti : nonAscii stat c = true
  · exact .inl (by rw [if_pos hmulti, if_pos hmulti])
  have hascii := Bool.eq_false_iff.mpr hmulti
  simp only [if_neg hmulti]
  cases status with
  | idle =>
    rcases plainMove_eager prev c rest with h | h
    · exact .inl h
    · exact .inr ⟨.inl rfl, hascii, h⟩
  | identKeyword =>
    unfold asciiMove
    by_cases hident : continuesIdent c = true
    · exact .inl (by simp only [if_pos hident])
    · simp only [if_neg hident]
      rcases plainMove_eager prev c rest with h | h
      · exact .inl h
      · exact .inr ⟨.inr trivial, hascii, h⟩
  | _ => exact .inl rfl

/-- The two lexers, where the one that passes over the second byte of a comment's opening may
have done so. -/
inductive Abreast (a b : LexState × Nat) (rest : List Byte) : Prop
  | same (eq : a = b)
  | line (m : List Nat) (lazily : a = (⟨.lineComment, 0, m⟩, 0))
      (eagerly : b = (⟨.lineComment, 0, m⟩, 1)) (next : rest.headD 0 = HYPHEN)
  | block (m : List Nat) (lazily : a = (⟨.commentBlock 0, 0, m⟩, 0))
      (eagerly : b = (⟨.commentBlock 0, 0, m⟩, 1)) (next : rest.headD 0 = ASTERISK)
      (open_ : rest.take 2 ≠ [ASTERISK, SLASH])

/-- **One byte.** The lexers stay abreast, unless a comment opens with `/*/`. -/
theorem abreast_advance (before c : Byte) (done rest : List Byte) {a b : LexState × Nat}
    (h : Abreast a b (c :: rest)) (htight : b.2 = 0 → ¬ OpensTight conn b.1 c rest) :
    Abreast ((lexer conn before false).advance a done c rest)
      ((lexer conn before true).advance b done c rest) rest := by
  cases h with
  | same h =>
    subst h
    obtain ⟨s, k⟩ := a
    cases k with
    | succ k => exact .same rfl
    | zero =>
      rw [Scanner.advance_step, Scanner.advance_step]
      change Abreast (lexStep conn before false s done c rest)
        (lexStep conn before true s done c rest) rest
      unfold lexStep
      dsimp only
      rcases @lexMove_eager conn (nextStat conn.ccsc s.ccst c) s.status
        (done.headD before) c rest with h | ⟨hplain, hascii, ⟨hopens, h⟩ | ⟨hopens, h⟩⟩
      · exact .same (by rw [h])
      · rw [h, h, (stat_of_not_nonAscii hascii).1]
        exact .line s.markers rfl rfl hopens.2
      · rw [h, h, (stat_of_not_nonAscii hascii).1]
        refine .block s.markers rfl rfl hopens.2 fun hnext => ?_
        exact htight rfl ⟨hplain, hascii, hopens.1, hnext⟩
  | line m ha hb hnext =>
    subst ha hb
    obtain rfl : c = HYPHEN := hnext
    refine .same ?_
    rw [Scanner.advance_step, Scanner.advance_skip]
    exact lexStep_ascii conn before false .lineComment m done (by decide) rest
  | block m ha hb hnext hopen =>
    subst ha hb
    obtain rfl : c = ASTERISK := hnext
    refine .same ?_
    rw [Scanner.advance_step, Scanner.advance_skip]
    refine (lexStep_ascii conn before false (.commentBlock 0) m done (by decide) rest).trans ?_
    have hclose : rest.headD 0 ≠ SLASH := by
      intro hslash
      cases rest with
      | nil => exact absurd hslash (by decide)
      | cons d rest => exact hopen (by rw [← show d = SLASH from hslash]; rfl)
    have hmove : asciiMove conn false (.commentBlock 0) (done.headD before) ASTERISK rest =
        ⟨.commentBlock 0, 0, false⟩ := by
      unfold asciiMove
      dsimp only
      rw [if_neg fun h => absurd h.1 (by decide), if_neg fun h => hclose h.2]
    rw [hmove]
    rfl

/-! ### The claim's condition -/

/-- No comment of the text opens with `/*/`. -/
def NoTightComment (conn : ConnectionClass) (before : Byte) (text : List Byte) : Prop :=
  (lexer conn before true).AllSteps (fun s _ c rest => ¬ OpensTight conn s c rest) (.init, 0) []
    (cstring text) []

instance (conn : ConnectionClass) (before : Byte) (text : List Byte) :
    Decidable (NoTightComment conn before text) :=
  inferInstanceAs (Decidable (Scanner.AllSteps _ _ _ _ _ _))

/-- **A whole text.** The lexers stay abreast. -/
theorem abreast_run {before : Byte} {l rest : List Byte}
    (h : (lexer conn before true).AllSteps (fun s _ c rest => ¬ OpensTight conn s c rest)
      (.init, 0) [] l rest) :
    Abreast ((lexer conn before false).run (.init, 0) [] l rest)
      ((lexer conn before true).run (.init, 0) [] l rest) rest :=
  Scanner.lockstep (R := fun a b _ rest => Abreast a b rest)
    (fun _ _ done c rest h htight => abreast_advance before c done rest h htight) (.same rfl) h

/-- At a byte that the one lexer looks at, they are in the same state. -/
theorem Abreast.eq_of_here {a b : LexState × Nat} {rest : List Byte} (h : Abreast a b rest)
    (hb : b.2 = 0) : a = b := by
  cases h with
  | same h => exact h
  | line m _ hb' _ => rw [hb'] at hb; cases hb
  | block m _ hb' _ _ => rw [hb'] at hb; cases hb

theorem Abreast.markers {a b : LexState × Nat} {rest : List Byte} (h : Abreast a b rest) :
    a.1.markers = b.1.markers := by
  cases h with
  | same h => rw [h]
  | line m ha hb _ => rw [ha, hb]
  | block m ha hb _ _ => rw [ha, hb]

/-- The rest of a statement in which a comment is `/*/ ... */` and holds a question mark. -/
def tightComment : List Byte := [SLASH, ASTERISK, SLASH, QUESTION_MARK, ASTERISK, SLASH]

/-- In front of the rest, a comment opens. -/
theorem lexStep_opens (before : Byte) (eager : Bool) (done : List Byte) {s : LexState}
    {rest : List Byte} (h : OpensTight conn s SLASH (ASTERISK :: rest)) :
    lexStep conn before eager s done SLASH (ASTERISK :: rest) =
      (⟨.commentBlock 0, 0, s.markers⟩, if eager then 1 else 0) := by
  obtain ⟨hplain, hascii, -, -⟩ := h
  have hmove := plainMove_commentBlock conn eager (done.headD before) (ASTERISK :: rest) rfl
  unfold lexStep lexMove
  dsimp only
  rw [if_neg (Bool.eq_false_iff.mp hascii), (stat_of_not_nonAscii hascii).1]
  rcases hplain with h | h
  · rw [h]
    unfold asciiMove
    rw [hmove]
    rfl
  · rw [h]
    unfold asciiMove
    dsimp only
    rw [if_neg (by decide), hmove]
    rfl

/-- The lexer that looks at the star again has left the comment at the question mark. -/
theorem lexer_tight_lazily (before : Byte) (done : List Byte) {s : LexState}
    (h : OpensTight conn s SLASH tightComment.tail) :
    ((lexer conn before false).run (s, 0) done tightComment []).1.markers =
      s.markers ++ [done.length + 3] := by
  have hopen : lexStep conn before false s done SLASH
      [ASTERISK, SLASH, QUESTION_MARK, ASTERISK, SLASH] = (⟨.commentBlock 0, 0, s.markers⟩, 0) :=
    lexStep_opens before false done h
  have hclose : lexStep conn before false ⟨.commentBlock 0, 0, s.markers⟩ (SLASH :: done) ASTERISK
      [SLASH, QUESTION_MARK, ASTERISK, SLASH] = (⟨.idle, 0, s.markers⟩, 1) :=
    lexStep_ascii _ _ _ _ _ _ (by decide) _
  have hmark (m : List Nat) (done : List Byte) : lexStep conn before false ⟨.idle, 0, m⟩ done
      QUESTION_MARK [ASTERISK, SLASH] = (⟨.idle, 0, m ++ [done.length]⟩, 0) :=
    lexStep_ascii _ _ _ _ _ _ (by decide) _
  have hstar (m : List Nat) (done : List Byte) : lexStep conn before false ⟨.idle, 0, m⟩ done
      ASTERISK [SLASH] = (⟨.idle, 0, m⟩, 0) :=
    lexStep_ascii _ _ _ _ _ _ (by decide) _
  have hslash (m : List Nat) (done : List Byte) : lexStep conn before false ⟨.idle, 0, m⟩ done
      SLASH [] = (⟨.idle, 0, m⟩, 0) :=
    lexStep_ascii _ _ _ _ _ _ (by decide) _
  simp [tightComment, hopen, hclose, hmark, hstar, hslash]

/-- The other one passes over it. -/
theorem lexer_tight_eagerly (before : Byte) (done : List Byte) {s : LexState}
    (h : OpensTight conn s SLASH tightComment.tail) :
    ((lexer conn before true).run (s, 0) done tightComment []).1.markers =
      s.markers := by
  have hopen : lexStep conn before true s done SLASH
      [ASTERISK, SLASH, QUESTION_MARK, ASTERISK, SLASH] = (⟨.commentBlock 0, 0, s.markers⟩, 1) :=
    lexStep_opens before true done h
  have hslash (done : List Byte) : lexStep conn before true ⟨.commentBlock 0, 0, s.markers⟩ done SLASH
      [QUESTION_MARK, ASTERISK, SLASH] = (⟨.commentBlock 0, 0, s.markers⟩, 0) :=
    lexStep_ascii _ _ _ _ _ _ (by decide) _
  have hmark (done : List Byte) : lexStep conn before true ⟨.commentBlock 0, 0, s.markers⟩ done
      QUESTION_MARK [ASTERISK, SLASH] = (⟨.commentBlock 0, 0, s.markers⟩, 0) :=
    lexStep_ascii _ _ _ _ _ _ (by decide) _
  have hclose (done : List Byte) : lexStep conn before true ⟨.commentBlock 0, 0, s.markers⟩ done ASTERISK
      [SLASH] = (⟨.idle, 0, s.markers⟩, 1) :=
    lexStep_ascii _ _ _ _ _ _ (by decide) _
  simp [tightComment, hopen, hslash, hmark, hclose]

/-! ### The markers of both -/

/-- A statement behind whose beginning a comment opens with `/*/` and holds a question mark. -/
structure TightIn (conn : ConnectionClass) (before : Byte) (text : List Byte) : Prop where
  nonul : 0 ∉ text
  first : (lexer conn before true).AllSteps (fun s _ c rest => ¬ OpensTight conn s c rest)
    (.init, 0) [] text tightComment
  skipped : ((lexer conn before true).run (.init, 0) [] text tightComment).2 = 0
  opens : OpensTight conn ((lexer conn before true).run (.init, 0) [] text tightComment).1 SLASH
    tightComment.tail

theorem cstring_of_notMem {text : List Byte} (h : 0 ∉ text) : cstring text = text :=
  List.takeWhile_eq_self_iff.mpr fun _ hc => decide_eq_true fun h0 => h (h0 ▸ hc)

/-- Where a comment opens with `/*/`, the question mark in it is a marker for one of the lexers
alone. -/
theorem lexers_differ {before : Byte} {text : List Byte} (h : TightIn conn before text) :
    ((lexer conn before false).run (.init, 0) [] (text ++ tightComment) []).1.markers ≠
      ((lexer conn before true).run (.init, 0) [] (text ++ tightComment) []).1.markers := by
  have habreast : (lexer conn before false).run (.init, 0) [] text tightComment =
      (lexer conn before true).run (.init, 0) [] text tightComment :=
    (abreast_run h.first).eq_of_here h.skipped
  have hopens := h.opens
  have hskipped := h.skipped
  rw [Scanner.run_append, Scanner.run_append, List.append_nil, habreast]
  generalize (lexer conn before true).run (.init, 0) [] text tightComment = e at *
  obtain ⟨e, k⟩ := e
  obtain rfl : k = 0 := hskipped
  rw [lexer_tight_lazily before _ hopens, lexer_tight_eagerly before _ hopens]
  exact fun heq => absurd (congrArg List.length heq) (by simp)

/-- A count that fits in an `SQLSMALLINT` is kept. -/
theorem wrap_eq_iff (n : Nat) : (n : Int) = wrap 16 n ↔ n < 32768 := by
  unfold wrap
  omega

/-- **The markers that are substituted are those that are counted**, as long as no comment opens
with `/*/`; their number is right as long as it fits in an `SQLSMALLINT`. Where the first such
comment opens, the two disagree on what it may hold. -/
theorem markers_agree (env : Env) (before : Byte) (qb : QueryBuild)
    (statement_type : StatementType) (hesc : EscapeSet qb.conn) :
    (∀ text, NoTightComment qb.conn before text →
      let s := process_statement env before qb statement_type text
      let r := SC_scanQueryAndCountParams qb.conn before text false
      s.progress = .running →
        s.markers = r.markers ∧ ((s.markers.length : Int) = r.num_p ↔ s.markers.length < 32768)) ∧
    ∀ text, TightIn qb.conn before text →
      let s := process_statement env before qb statement_type (text ++ tightComment)
      let r := SC_scanQueryAndCountParams qb.conn before (text ++ tightComment) false
      s.progress = .running → s.markers ≠ r.markers := by
  refine ⟨fun text htight => ?_, fun text htight => ?_⟩
  · intro s r hrun
    obtain ⟨hlex, hnum⟩ := SC_scanQueryAndCountParams_lex before hesc text
    obtain ⟨-, hmarkers⟩ := process_statement_markers env before qb statement_type text
    have heq : s.markers = r.markers :=
      (hmarkers hrun).trans ((abreast_run htight).markers.trans (congrArg _ hlex).symm)
    refine ⟨heq, ?_⟩
    have hcount : r.num_p = wrap 16 r.markers.length := hnum
    rw [heq, hcount]
    exact wrap_eq_iff r.markers.length
  · intro s r hrun heq
    obtain ⟨hlex, -⟩ := SC_scanQueryAndCountParams_lex before hesc (text ++ tightComment)
    obtain ⟨-, hmarkers⟩ :=
      process_statement_markers env before qb statement_type (text ++ tightComment)
    have hcstring : cstring (text ++ tightComment) = text ++ tightComment :=
      cstring_of_notMem (by simpa [htight.nonul] using (by decide : 0 ∉ tightComment))
    rw [hcstring] at hlex hmarkers
    exact lexers_differ htight ((hmarkers hrun).symm.trans (heq.trans (congrArg LexState.markers hlex)))

/-! ### Instances -/

/-- A query without values, as `SQLDescribeCol` needs it before the parameters are bound. -/
def sampleQuery : QueryBuild where
  query_statement := []
  current_row := 0
  param_number := -1
  dollar_number := 0
  proc_return := 0
  apdopts :=
    { parameters := []
      param_offset := 0
      param_bind_type := 0
      paramset_size := 1
      param_operation_ptr := none }
  ipdopts := { parameters := [] }
  pdata := []
  param_mode := .fakeParams
  flags := sampleFlags
  conn := sampleConn

/-- A comment with a question mark in it, which is no marker for either of them; and the
beginning of a statement behind which a comment of three bytes tells them apart. -/
theorem markers_agree_select :
    (let s := process_statement sampleEnv 0 sampleQuery .other (ascii "SELECT ? /* ? */")
     let r := SC_scanQueryAndCountParams sampleConn 0 (ascii "SELECT ? /* ? */") false
     s.markers = r.markers ∧ ((s.markers.length : Int) = r.num_p ↔ s.markers.length < 32768)) ∧
    (let s := process_statement sampleEnv 0 sampleQuery .other (ascii "SELECT 1" ++ tightComment)
     let r := SC_scanQueryAndCountParams sampleConn 0 (ascii "SELECT 1" ++ tightComment) false
     s.markers ≠ r.markers) := by
  have h := markers_agree sampleEnv 0 sampleQuery .other (.inl rfl)
  exact ⟨h.1 (ascii "SELECT ? /* ? */") (by decide) (by decide),
    h.2 (ascii "SELECT 1") ⟨by decide, by decide, by decide, by decide⟩ (by decide)⟩

/-- `/*/?*/`: the question mark is substituted, and not counted. -/
theorem markers_tight_comment :
    let s := process_statement sampleEnv 0 sampleQuery .other (ascii "/*/?*/")
    let r := SC_scanQueryAndCountParams sampleConn 0 (ascii "/*/?*/") false
    s.progress = .running ∧ s.markers = [3] ∧ r.markers = [] ∧ r.num_p = 0 := by
  decide

end OdbcDriver
