import OdbcDriver.Lexer.Move
import OdbcDriver.Lib.Except
import Mathlib.Data.List.TakeWhile

/-!
# `inner_process_tokens` moves by `lexMove`

Rewriting a statement, the function goes through the statuses of the lexer that passes over the
first byte of a comment's opening, as long as it runs. Twice it jumps: behind a discarded
output parameter to the comma, and behind the parenthesis that closes an empty column list to
the end of `VALUES ()`. What it jumps over are spaces, letters, commas and parentheses, on which
the lexer comes back to where it was.
-/

namespace OdbcDriver

open Lib

/-! ### Calm texts -/

/-- A byte that opens no literal, identifier, dollar quote or comment and is no marker. -/
def isCalm (c : Byte) : Bool :=
  isAlnum c || isSpace c || c = 0x2c || c = 0x28 || c = 0x29

/-- A text of calm bytes behind which no identifier is open. -/
structure Calm (l : List Byte) : Prop where
  calm : ∀ c ∈ l, isCalm c
  closed : ∀ c, l.getLast? = some c → isAlnum c = false

theorem Calm.of_all {l : List Byte}
    (h : (l.all isCalm && (l.getLast?.all fun c => !isAlnum c)) = true) : Calm l := by
  rw [Bool.and_eq_true] at h
  refine ⟨fun c hc => List.all_eq_true.mp h.1 c hc, fun c hc => ?_⟩
  simpa [hc] using h.2

theorem Calm.tail {c : Byte} {l : List Byte} (h : Calm (c :: l)) : Calm l := by
  refine ⟨fun d hd => h.calm d (List.mem_cons_of_mem _ hd), fun d hd => h.closed d ?_⟩
  rw [List.getLast?_cons, hd]
  rfl

theorem isCalm_cases {c : Byte} (h : isCalm c) :
    c.toNat < 0x80 ∧ c ≠ QUESTION_MARK ∧ c ≠ DOLLAR_QUOTE ∧ c ≠ LITERAL_QUOTE ∧
      c ≠ IDENTIFIER_QUOTE ∧ c ≠ HYPHEN ∧ c ≠ SLASH ∧ c ≠ UNDERSCORE := by
  refine ⟨?_, ?_⟩
  · simp only [isCalm, isAlnum, isDigit, isSpace, Bool.or_eq_true, Bool.and_eq_true,
      decide_eq_true_eq, UInt8.le_iff_toNat_le, ← UInt8.toNat_inj] at h
    simp at h
    omega
  · refine ⟨?_, ?_, ?_, ?_, ?_, ?_, ?_⟩ <;> (rintro rfl; revert h; decide)

/-- A calm byte in plain SQL. -/
theorem plainMove_calm {conn : ConnectionClass} {eager : Bool} {prev c : Byte} {rest : List Byte}
    (hc : isCalm c) : plainMove conn eager prev c rest =
      ⟨if isAlnum c then .identKeyword else .idle, 0, false⟩ := by
  obtain ⟨-, hmark, hdollar, hquote, hdquote, hhyphen, hslash, -⟩ := isCalm_cases hc
  by_cases halnum : isAlnum c = true
  · rw [plainMove_alnum _ _ _ _ _ halnum, if_pos halnum]
  · rw [plainMove_other _ _ _ _ _ halnum hmark hdollar hquote hdquote (fun h => hhyphen h.1)
      fun h => hslash h.1, if_neg halnum]

/-- The lexer on a calm byte of plain SQL. -/
theorem lexStep_calm {conn : ConnectionClass} {before : Byte} {eager : Bool} {s : LexState}
    {done rest : List Byte} {c : Byte} (hc : isCalm c)
    (hstatus : s.status = .idle ∨ s.status = .identKeyword) (hccst : s.ccst = 0) :
    lexStep conn before eager s done c rest =
      (⟨if isAlnum c then .identKeyword else .idle, 0, s.markers⟩, 0) := by
  obtain ⟨hlt, -, hdollar, -, -, -, -, hunder⟩ := isCalm_cases hc
  have hmove : lexMove conn eager 0 s.status (done.headD before) c rest =
      ⟨if isAlnum c then .identKeyword else .idle, 0, false⟩ := by
    unfold lexMove asciiMove
    rw [nonAscii_zero hlt, if_neg Bool.false_ne_true]
    rcases hstatus with h | h <;> rw [h] <;> dsimp only
    · exact plainMove_calm hc
    · by_cases halnum : isAlnum c = true
      · rw [if_pos (by simp [continuesIdent, halnum]), if_pos halnum]
      · rw [if_neg (by simp [continuesIdent, halnum, hdollar, hunder])]
        exact plainMove_calm hc
  unfold lexStep
  rw [hccst, nextStat_ascii _ hlt]
  dsimp only
  rw [hmove]
  rfl

theorem calm_append {l l' : List Byte} (h : ∀ c ∈ l, isCalm c) (h' : Calm l') (hne : l' ≠ []) :
    Calm (l ++ l') := by
  refine ⟨fun c hc => ?_, fun c hc => h'.closed c ?_⟩
  · rcases List.mem_append.mp hc with hc | hc
    · exact h c hc
    · exact h'.calm c hc
  · rwa [List.getLast?_append_of_ne_nil _ hne] at hc

/-- Spaces are calm. -/
theorem isCalm_of_mem_takeWhile {s : List Byte} : ∀ c ∈ s.takeWhile isSpace, isCalm c := by
  intro c h
  have hspace : isSpace c = true := List.mem_takeWhile_imp h
  simp [isCalm, hspace]

theorem take_takeWhile (p : Byte → Bool) (s : List Byte) :
    s.take (s.takeWhile p).length = s.takeWhile p :=
  (List.prefix_iff_eq_take.mp (List.takeWhile_prefix p)).symm

/-- The letters of a keyword are calm. -/
theorem isAlnum_of_beginsWith {s : List Byte} (h : beginsWith "values" s = true) :
    ∀ c ∈ s.take 6, isAlnum c := by
  intro c hc
  have hmap : (s.take 6).map (fun c => if 0x41 ≤ c ∧ c ≤ 0x5a then c + 0x20 else c) =
      ascii "values" := of_decide_eq_true h
  by_cases hupper : 0x41 ≤ c ∧ c ≤ 0x5a
  · simp [isAlnum, hupper]
  · have hmem : c ∈ ascii "values" := by
      rw [← hmap]
      exact List.mem_map.mpr ⟨c, hc, if_neg hupper⟩
    have hall : (ascii "values").all isAlnum = true := by decide
    exact List.all_eq_true.mp hall c hmem

/-- What `insert_without_target` jumps over. -/
theorem insert_without_target_calm {stmt : List Byte} {endpos : Nat}
    (h : insert_without_target stmt = some endpos) : Calm (stmt.take endpos) := by
  unfold insert_without_target at h
  dsimp only at h
  split_ifs at h with hvalues hspace hparens hafter
  obtain rfl := Option.some.inj h
  rw [Bool.not_eq_true, Bool.not_eq_false'] at hvalues
  rw [not_not] at hparens
  rw [List.take_add, List.take_add, List.take_add, take_takeWhile, ← List.drop_drop,
    ← List.drop_drop, ← List.drop_drop, take_takeWhile, hparens, List.append_assoc,
    List.append_assoc]
  have hends : Calm [0x28, 0x29] := .of_all (by decide)
  refine calm_append isCalm_of_mem_takeWhile (calm_append ?_ (calm_append
    isCalm_of_mem_takeWhile hends (by simp)) (by simp)) (by simp)
  intro c hc
  simp [isCalm, isAlnum_of_beginsWith hvalues c hc]

/-- What is jumped over behind a discarded output parameter. -/
theorem discardOutput_calm (qb : QueryBuild) (c : Byte) (rest : List Byte) :
    ∃ n, (discardOutput qb (some ⟨c :: rest, 0⟩)).2 = some ⟨c :: rest, n⟩ ∧
      Calm (rest.take n) := by
  have hstay : ∃ n, (some ⟨c :: rest, 0⟩ : Option OldPos) = some ⟨c :: rest, n⟩ ∧
      Calm (rest.take n) := ⟨0, rfl, by simp, by simp⟩
  unfold discardOutput
  split
  · split
    · exact hstay
    split
    · rw [Option.map_some]
      dsimp only
      split
      · rename_i hcomma
        refine ⟨_, rfl, ?_⟩
        have hcomma' : rest[(rest.takeWhile isSpace).length]? = some 0x2c := by
          simpa [Nat.add_comm] using hcomma
        have hspaces : rest.take (0 + 1 + (rest.takeWhile isSpace).length) =
            rest.takeWhile isSpace ++ [0x2c] := by
          rw [Nat.zero_add, Nat.add_comm, List.take_add_one, take_takeWhile, hcomma']
          rfl
        have hends : Calm [0x2c] := .of_all (by decide)
        change Calm (rest.take (0 + 1 + (rest.takeWhile isSpace).length))
        rw [hspaces]
        exact calm_append isCalm_of_mem_takeWhile hends (by simp)
      · exact hstay
    · exact hstay
  · exact hstay

/-- What a value leaves. -/
theorem resolveValue_conn {env : Env} {qb : QueryBuild} {qp : Option OldPos}
    {apara : ParameterInfoClass} {ipara : ParameterImplClass} {r : Resolved}
    (h : resolveValue env qb qp apara ipara = .ok r) : r.qb.conn = qb.conn ∧ r.qp = qp := by
  unfold resolveValue at h
  obtain ⟨c, -, h⟩ := bind_eq_ok.mp h
  cases c with
  | null =>
    obtain rfl := Except.ok.inj h
    dsimp only
    split <;> exact ⟨rfl, rfl⟩
  | unknown =>
    obtain rfl := Except.ok.inj h
    exact ⟨rfl, rfl⟩
  | value v =>
    obtain ⟨out, -, h⟩ := bind_eq_ok.mp h
    obtain rfl := Except.ok.inj h
    exact ⟨rfl, rfl⟩

theorem discardOutput_conn (qb : QueryBuild) (qp : Option OldPos) :
    (discardOutput qb qp).1.conn = qb.conn := by
  unfold discardOutput
  split
  · split
    · rfl
    · split <;> rfl
  · rfl

/-- A resolved marker keeps the connection; it moves the position behind a discarded output
parameter only. -/
theorem ResolveOneParam_conn {env : Env} {qb : QueryBuild} {c : Byte} {rest : List Byte}
    {r : Resolved} (h : ResolveOneParam env qb (some ⟨c :: rest, 0⟩) = .ok r) :
    r.qb.conn = qb.conn ∧ ∃ n, r.qp = some ⟨c :: rest, n⟩ ∧ Calm (rest.take n) := by
  have hstay {qp : Option OldPos} (hqp : qp = some ⟨c :: rest, 0⟩) :
      ∃ n, qp = some ⟨c :: rest, n⟩ ∧ Calm (rest.take n) := ⟨0, hqp, by simp, by simp⟩
  unfold ResolveOneParam at h
  dsimp only at h
  split_ifs at h
  · obtain rfl := Except.ok.inj h
    exact ⟨rfl, hstay rfl⟩
  · obtain rfl := Except.ok.inj h
    exact ⟨discardOutput_conn _ _, discardOutput_calm _ c rest⟩
  · obtain rfl := Except.ok.inj h
    exact ⟨rfl, hstay rfl⟩
  · obtain rfl := Except.ok.inj h
    exact ⟨rfl, hstay rfl⟩
  · split at h
    · obtain ⟨hconn, hqp⟩ := resolveValue_conn h
      exact ⟨hconn, hstay hqp⟩
    · cases h

/-! ### Tokens -/

section Token

variable (qp : QueryParse) (c : Byte)

@[simp]
theorem token_finish_ended : (token_finish qp c).1.prev_token_end = true := by
  unfold token_finish
  split
  · assumption
  · rfl

@[simp]
theorem token_finish_status : (token_finish qp c).1.status = qp.status := by
  unfold token_finish
  split <;> rfl

@[simp]
theorem token_finish_ccst : (token_finish qp c).1.ccst = qp.ccst := by
  unfold token_finish
  split <;> rfl

theorem token_finish_token {token : List Byte} (h : (token_finish qp 0).2 = some token) :
    qp.prev_token_end = false ∧ token = qp.token_curr := by
  unfold token_finish at h
  split at h
  · cases h
  · rename_i hopen
    exact ⟨Bool.eq_false_iff.mpr hopen, (Option.some.inj h).symm⟩

theorem token_restart_eq : (token_restart qp c).1 =
    (if IS_NOT_SPACE c then token_start (token_finish qp 0).1 c else (token_finish qp 0).1) :=
  rfl

theorem token_restart_finished : (token_restart qp c).2 = (token_finish qp 0).2 := rfl

@[simp]
theorem token_restart_status : (token_restart qp c).1.status = qp.status := by
  rw [token_restart_eq]
  split
  · exact token_finish_status qp 0
  · exact token_finish_status qp 0

@[simp]
theorem token_restart_ccst : (token_restart qp c).1.ccst = qp.ccst := by
  rw [token_restart_eq]
  split
  · exact token_finish_ccst qp 0
  · exact token_finish_ccst qp 0

@[simp]
theorem token_continue_status : (token_continue qp c).status = qp.status := by
  unfold token_continue
  split
  · rfl
  · split <;> rfl

@[simp]
theorem token_continue_ccst : (token_continue qp c).ccst = qp.ccst := by
  unfold token_continue
  split
  · rfl
  · split <;> rfl

@[simp]
theorem token_continue_open : (token_continue qp c).prev_token_end = false := by
  unfold token_continue
  split
  · rfl
  · rename_i h
    split <;> exact Bool.eq_false_iff.mpr h

/-- A token that is open keeps its first byte. -/
theorem token_continue_head (h : qp.prev_token_end = false) :
    (token_continue qp c).token_curr.head? = qp.token_curr.head? ∨
      qp.token_curr = [] := by
  unfold token_continue
  rw [if_neg (by simp [h])]
  split
  · cases hcurr : qp.token_curr with
    | nil => exact .inr rfl
    | cons d t => exact .inl rfl
  · exact .inl rfl

end Token

/-- A token is open: an identifier, a literal or a quoted identifier. -/
def Status.hasToken : Status → Bool
  | .identKeyword | .dquoteIdentifier | .literal _ | .escape _ => true
  | _ => false

/-- What holds of the tokens in front of every byte. A parenthesis is a token of its own. -/
structure TokenOk (qp : QueryParse) : Prop where
  opened : qp.prev_token_end = false →
    ∃ d t, qp.token_curr = d :: t ∧ (d = 0x28 → t = [] ∧ qp.status = .idle)
  inside : qp.status.hasToken = true → qp.prev_token_end = false
  multibyte : qp.ccst ≠ 0 → qp.status ≠ .idle ∧ (qp.token_curr = [] ∨ qp.prev_token_end = false)

section TokenOk

variable {qp : QueryParse} {c : Byte} {status : Status}

theorem TokenOk.ended (hended : qp.prev_token_end = true) (hccst : qp.ccst = 0)
    (hstatus : status.hasToken = false) : TokenOk { qp with status := status } := by
  refine ⟨fun h => ?_, fun h => ?_, fun h => absurd hccst h⟩
  · exact absurd (hended.symm.trans h) (by decide)
  · exact absurd (hstatus.symm.trans h) (by decide)

theorem TokenOk.of_status (h : TokenOk { qp with status := status }) (hs : qp.status = status) :
    TokenOk qp := by
  subst hs
  exact h

theorem TokenOk.finish (hccst : qp.ccst = 0) (hstatus : status.hasToken = false) (c : Byte) :
    TokenOk { (token_finish qp c).1 with status := status } :=
  .ended (token_finish_ended qp c) ((token_finish_ccst qp c).trans hccst) hstatus

/-- A token opens with a byte. -/
theorem TokenOk.restart (hc : IS_NOT_SPACE c = true) (hparen : c = 0x28 → status = .idle)
    (hidle : status = .idle → qp.ccst = 0) :
    TokenOk { (token_restart qp c).1 with status := status } := by
  rw [token_restart_eq, if_pos hc]
  refine ⟨fun _ => ⟨c, [], rfl, fun h => ⟨rfl, hparen h⟩⟩, fun _ => rfl, fun h => ⟨?_, .inr rfl⟩⟩
  intro hi
  exact h ((token_finish_ccst qp 0).trans (hidle hi))

/-- In plain SQL, tokens end and open. -/
theorem TokenOk.finish_idle (hccst : qp.ccst = 0) (hidle : qp.status = .idle) :
    TokenOk (token_finish qp 0).1 :=
  TokenOk.of_status (.finish hccst rfl 0) ((token_finish_status qp 0).trans hidle)

theorem TokenOk.restart_idle (hccst : qp.ccst = 0) (hidle : qp.status = .idle) :
    TokenOk (token_restart qp c).1 := by
  refine TokenOk.of_status ?_ ((token_restart_status qp c).trans hidle)
  by_cases hc : IS_NOT_SPACE c = true
  · exact .restart hc (fun _ => rfl) fun _ => hccst
  · rw [token_restart_eq, if_neg hc]
    exact .finish hccst rfl 0

/-- An open token goes on, outside plain SQL. -/
theorem TokenOk.continue (h : TokenOk qp) (hopen : qp.prev_token_end = false)
    (hidle : qp.status ≠ .idle) (c : Byte) (status : Status) (hstatus : status ≠ .idle) :
    TokenOk { token_continue qp c with status := status } := by
  obtain ⟨d, t, hcurr, hparen⟩ := h.opened hopen
  have hd : d ≠ 0x28 := fun hd => hidle (hparen hd).2
  refine ⟨fun _ => ?_, fun _ => token_continue_open qp c,
    fun _ => ⟨hstatus, .inr (token_continue_open qp c)⟩⟩
  unfold token_continue
  rw [if_neg (by simp [hopen])]
  split
  · exact ⟨d, t ++ [c], by simp [hcurr], fun h => absurd h hd⟩
  · exact ⟨d, t, hcurr, fun h => absurd h hd⟩

end TokenOk

/-! ### One byte -/

/-- What the function shares with `SC_scanQueryAndCountParams`. -/
def ParseState.lex (s : ParseState) : LexState := ⟨s.qp.status, s.qp.ccst, s.markers⟩

/-- How the function goes on where the lexer moves to `t` and passes over `skip` bytes. -/
inductive Moved (t : LexState) (skip : Nat) (rest : List Byte) (r : ParseState × Nat) : Prop
  | moved (running : r.1.progress = .running) (ok : TokenOk r.1.qp) (lex : r.1.lex = t)
      (skipped : r.2 = skip)
  | jumped (running : r.1.progress = .running) (ok : TokenOk r.1.qp) (lex : r.1.lex = t)
      (idle : t.status = .idle) (ascii : t.ccst = 0) (noskip : skip = 0)
      (calm : Calm (rest.take r.2))
  | stopped (progress : r.1.progress ≠ .running) (markers : r.1.markers <+: t.markers)

variable {env : Env} {before c : Byte} {s : ParseState} {done rest : List Byte}
  {finished : Option (List Byte)}

/-- A token that has ended is no parenthesis with something behind it. -/
def FinishOk (finished : Option (List Byte)) : Prop :=
  ∀ t, finished = some (0x28 :: t) → t = []

theorem FinishOk.orElse {a b : Option (List Byte)} (ha : FinishOk a) (hb : FinishOk b) :
    FinishOk (a <|> b) := by
  cases a with
  | none => exact hb
  | some t => exact ha

theorem TokenOk.finishOk {qp : QueryParse} (h : TokenOk qp) : FinishOk (token_finish qp 0).2 := by
  intro t ht
  obtain ⟨hopen, hcurr⟩ := token_finish_token qp ht
  obtain ⟨d, t', hd, hparen⟩ := h.opened hopen
  obtain ⟨rfl, rfl⟩ := List.cons.inj (hcurr.trans hd)
  exact (hparen rfl).1

theorem begins_parens {token : List Byte} (hlen : token.length = 2)
    (h : beginsWith "()" token = true) : ∃ d, token = [0x28, d] := by
  obtain ⟨d, e, rfl⟩ := List.length_eq_two.mp hlen
  have hmap : (if 0x41 ≤ d ∧ d ≤ 0x5a then d + 0x20 else d) = 0x28 :=
    (List.cons.inj (of_decide_eq_true h : _ = ascii "()")).1
  split at hmap
  · rename_i hupper
    obtain rfl : d = 0x28 - 0x20 := eq_sub_of_add_eq hmap
    exact absurd hupper.1 (by decide)
  · exact ⟨e, by rw [hmap]⟩

/-- The end of a byte of plain SQL. -/
theorem processInsert_eq (s : ParseState) (c : Byte) (rest : List Byte)
    (hfinish : FinishOk finished) :
    ∃ out n, processInsert s finished c rest =
        ({ s with qb := { s.qb with query_statement := out } }, n) ∧
      (n = 0 ∨ c = 0x29 ∧ Calm (rest.take n)) := by
  unfold processInsert
  have hplain : ∃ out n, (s.append [c], 0) =
        (({ s with qb := { s.qb with query_statement := out } }, n) : ParseState × Nat) ∧
      (n = 0 ∨ c = 0x29 ∧ Calm (rest.take n)) := ⟨_, 0, rfl, .inl rfl⟩
  cases finished with
  | none => exact hplain
  | some token =>
    dsimp only
    split
    · rename_i h
      obtain ⟨hlen, -, hbegins⟩ := h
      obtain ⟨d, rfl⟩ := begins_parens hlen hbegins
      exact absurd (hfinish [d] rfl) (by simp)
    split
    · rename_i h
      split
      · rename_i endpos hend
        exact ⟨_, endpos, rfl, .inr ⟨h.2.2.2, insert_without_target_calm hend⟩⟩
      · exact hplain
    · exact hplain

/-- A byte of plain SQL that is copied. -/
theorem processInsert_moved {m : Move} (hrun : s.progress = .running)
    (hok : TokenOk s.qp) (hfinish : FinishOk finished)
    (hlex : s.lex = ⟨m.status, 0, s.markers⟩) (hskip : m.skip = 0) (hmarker : m.marker = false)
    (hparen : c = 0x29 → m.status = .idle) :
    (processInsert s finished c rest).1.qb.conn = s.qb.conn ∧
      Moved (m.after 0 s.markers done) m.skip rest (processInsert s finished c rest) := by
  obtain ⟨out, n, heq, hn⟩ := processInsert_eq s c rest hfinish
  have hafter : m.after 0 s.markers done = ⟨m.status, 0, s.markers⟩ := by
    rw [Move.after, hmarker]
    rfl
  rw [heq, hafter]
  refine ⟨rfl, ?_⟩
  rcases hn with rfl | ⟨hc, hcalm⟩
  · exact .moved hrun hok hlex hskip.symm
  · exact .jumped hrun hok hlex (hparen hc) rfl hskip hcalm

/-- A parameter marker. -/
theorem processMarker_moved {m : Move} (hrun : s.progress = .running) (hccst : s.qp.ccst = 0)
    (hidle : s.qp.status = .idle) (hm : m = ⟨.idle, 0, true⟩) :
    (processMarker env s done c rest).1.qb.conn = s.qb.conn ∧
      Moved (m.after 0 s.markers done) m.skip rest (processMarker env s done c rest) := by
  subst hm
  unfold processMarker
  dsimp only
  cases hr : ResolveOneParam env s.qb (some ⟨c :: rest, 0⟩) with
  | error f => exact ⟨rfl, .stopped (by simp) (List.prefix_refl _)⟩
  | ok r =>
    obtain ⟨hconn, n, hqp, hcalm⟩ := ResolveOneParam_conn hr
    refine ⟨hconn, .jumped hrun ?_ ?_ rfl rfl rfl ?_⟩
    · exact .restart_idle hccst hidle
    · simp [ParseState.lex, Move.after, hidle, hccst]
    · simpa [hqp] using hcalm

/-- An alphanumeric byte is no space. -/
theorem isNotSpace_of_isAlnum {c : Byte} (h : isAlnum c = true) : IS_NOT_SPACE c = true := by
  simp only [isAlnum, isDigit, Bool.or_eq_true, Bool.and_eq_true, decide_eq_true_eq,
    UInt8.le_iff_toNat_le] at h
  simp only [IS_NOT_SPACE, isSpace, Bool.and_eq_true, Bool.not_eq_true', Bool.or_eq_false_iff,
    Bool.and_eq_false_iff, decide_eq_true_eq, decide_eq_false_iff_not, ne_eq,
    UInt8.le_iff_toNat_le, ← UInt8.toNat_inj]
  simp at *
  omega

/-- A byte in plain SQL. -/
theorem processPlain_moved (hrun : s.progress = .running) (hccst : s.qp.ccst = 0)
    (hidle : s.qp.status = .idle) (hok : TokenOk s.qp) (hfinish : FinishOk finished) :
    (processPlain env before s finished done c rest).1.qb.conn = s.qb.conn ∧
      Moved ((plainMove s.qb.conn false (done.headD before) c rest).after 0 s.markers done)
        (plainMove s.qb.conn false (done.headD before) c rest).skip rest
        (processPlain env before s finished done c rest) := by
  have hlex : s.lex = ⟨.idle, 0, s.markers⟩ := by rw [ParseState.lex, hidle, hccst]
  have hfin : FinishOk ((token_finish s.qp 0).2 <|> finished) := hok.finishOk.orElse hfinish
  unfold processPlain
  dsimp only
  by_cases hcr : s.qb.flags.convertLf = true ∧ c = PG_CARRIAGE_RETURN ∧ rest.headD 0 = PG_LINEFEED
  · rw [if_pos hcr, hcr.2.1]
    exact ⟨rfl, .moved hrun hok hlex rfl⟩
  rw [if_neg hcr]
  by_cases hescape : c = ODBC_ESCAPE_START ∨ c = ODBC_ESCAPE_END ∨
      beginsWith "@@identity" (c :: rest) = true
  · rw [if_pos hescape]
    refine ⟨rfl, .stopped (by simp) ?_⟩
    unfold Move.after
    dsimp only
    split
    · exact List.prefix_append _ _
    · exact List.prefix_refl _
  rw [if_neg hescape]
  by_cases hmark : c = QUESTION_MARK
  · rw [if_pos hmark]
    exact processMarker_moved hrun hccst hidle (by rw [hmark]; rfl)
  rw [if_neg hmark]
  by_cases hdollar : c = DOLLAR_QUOTE
  · rw [if_pos hdollar]
    subst hdollar
    by_cases htag : 0 < findTag (DOLLAR_QUOTE :: rest) s.qb.conn.ccsc
    · rw [if_pos htag, plainMove_tag _ _ _ _ htag]
      refine ⟨rfl, .moved hrun (.finish hccst rfl 0) ?_ rfl⟩
      simp [ParseState.lex, ParseState.append, Move.after, hccst]
    · rw [if_neg htag, plainMove_dollar _ _ _ _ htag]
      exact processInsert_moved hrun (.finish_idle hccst hidle) hfin
        (by simp [ParseState.lex, hidle, hccst]) rfl rfl fun _ => rfl
  rw [if_neg hdollar]
  by_cases hquote : c = LITERAL_QUOTE
  · rw [if_pos hquote]
    subst hquote
    exact processInsert_moved (m := ⟨.literal _, 0, false⟩) hrun
      (.restart (by decide) (fun h => absurd h (by decide)) fun _ => hccst) hfin
      (by simp [ParseState.lex, hccst]) rfl rfl fun h => absurd h (by decide)
  rw [if_neg hquote]
  by_cases hdquote : c = IDENTIFIER_QUOTE
  · rw [if_pos hdquote]
    subst hdquote
    exact processInsert_moved (m := ⟨.dquoteIdentifier, 0, false⟩) hrun
      (.restart (by decide) (by decide) fun _ => hccst) hfin (by simp [ParseState.lex, hccst]) rfl
      rfl (by decide)
  rw [if_neg hdquote]
  by_cases hcomment : c = SLASH ∧ rest.headD 0 = ASTERISK
  · rw [if_pos hcomment]
    obtain ⟨rfl, hasterisk⟩ := hcomment
    rw [plainMove_commentBlock _ _ _ _ hasterisk]
    exact processInsert_moved (m := ⟨.commentBlock 0, 0, false⟩) hrun (.finish hccst rfl 0) hfin
      (by simp [ParseState.lex, hccst]) rfl rfl (by decide)
  rw [if_neg hcomment]
  by_cases hline : c = HYPHEN ∧ rest.headD 0 = HYPHEN
  · rw [if_pos hline]
    obtain ⟨rfl, hhyphen⟩ := hline
    rw [plainMove_lineComment _ _ _ _ hhyphen]
    exact processInsert_moved (m := ⟨.lineComment, 0, false⟩) hrun (.finish hccst rfl 0) hfin
      (by simp [ParseState.lex, hccst]) rfl rfl (by decide)
  rw [if_neg hline]
  by_cases hsemi : c = SEMICOLON
  · rw [if_pos hsemi]
    subst hsemi
    rw [plainMove_semicolon]
    exact processInsert_moved
      (s := { s with qp := (token_finish s.qp 0).1, qb := { s.qb with dollar_number := 0 } }) hrun
      (.finish_idle hccst hidle) hfin (by simp [ParseState.lex, hidle, hccst]) rfl rfl fun _ => rfl
  rw [if_neg hsemi]
  by_cases halnum : isAlnum c = true
  · rw [if_pos halnum, plainMove_alnum _ _ _ _ _ halnum]
    have hparen : c ≠ 0x28 := by
      rintro rfl
      exact absurd halnum (by decide)
    have hparen' : c ≠ 0x29 := by
      rintro rfl
      exact absurd halnum (by decide)
    exact processInsert_moved (m := ⟨.identKeyword, 0, false⟩) hrun
      (.restart (isNotSpace_of_isAlnum halnum) (fun h => absurd h hparen) fun _ => hccst) hfin
      (by simp [ParseState.lex, hccst]) rfl rfl fun h => absurd h hparen'
  · rw [if_neg halnum, plainMove_other _ _ _ _ _ halnum hmark hdollar hquote hdquote hline hcomment]
    exact processInsert_moved
      (s := { s with qp := (token_restart s.qp c).1, qb := { s.qb with
        query_statement := booleanItem s.qb.conn s.qp done c s.qb.query_statement } }) hrun
      (.restart_idle hccst hidle) hfin (by simp [ParseState.lex, hidle, hccst]) rfl rfl fun _ => rfl

/-- Outside plain SQL, no token is a parenthesis. -/
theorem TokenOk.enter {qp : QueryParse} {status : Status} (h : TokenOk qp) (hccst : qp.ccst = 0)
    (hidle : qp.status ≠ .idle)
    (hstatus : status.hasToken = true → qp.prev_token_end = false) :
    TokenOk { qp with status := status } := by
  refine ⟨fun hopen => ?_, hstatus, fun hne => absurd hccst hne⟩
  obtain ⟨d, t, hcurr, hparen⟩ := h.opened hopen
  exact ⟨d, t, hcurr, fun hd => absurd (hparen hd).2 hidle⟩

/-- The function follows a move by which the status alone changes. -/
theorem moved_append {s s' : ParseState} {m : Move} {done rest data : List Byte}
    (hrun : s.progress = .running) (hok : TokenOk s'.qp) (hmarker : m.marker = false)
    (hlex : s'.lex = ⟨m.status, 0, s.markers⟩) (hprogress : s'.progress = s.progress)
    (hconn : s'.qb.conn = s.qb.conn) :
    (s'.append data).qb.conn = s.qb.conn ∧
      Moved (m.after 0 s.markers done) m.skip rest (s'.append data, m.skip) := by
  refine ⟨hconn, .moved (hprogress.trans hrun) hok ?_ rfl⟩
  rw [Move.after, hmarker]
  exact hlex

/-- A byte that is no part of a multibyte character. -/
theorem processAscii_moved (hrun : s.progress = .running) (hccst : s.qp.ccst = 0)
    (hok : TokenOk s.qp) :
    (processAscii env before s done c rest).1.qb.conn = s.qb.conn ∧
      Moved ((asciiMove s.qb.conn false s.qp.status (done.headD before) c rest).after 0
          s.markers done)
        (asciiMove s.qb.conn false s.qp.status (done.headD before) c rest).skip rest
        (processAscii env before s done c rest) := by
  have hlex : s.lex = ⟨s.qp.status, 0, s.markers⟩ := by rw [ParseState.lex, hccst]
  unfold processAscii asciiMove
  cases hstatus : s.qp.status with
  | identKeyword =>
    have hopen := hok.inside (by rw [hstatus]; rfl)
    dsimp only
    split
    · have hok' := hok.continue hopen (by rw [hstatus]; decide) c .identKeyword (by decide)
      exact moved_append (m := ⟨.identKeyword, 0, false⟩) hrun
        (hok'.of_status ((token_continue_status _ _).trans hstatus)) rfl
        (by simp [ParseState.lex, hstatus, hccst]) rfl rfl
    · exact processPlain_moved (s := { s with
          qp := { (token_finish s.qp 0).1 with status := .idle } }) hrun
        ((token_finish_ccst _ _).trans hccst) rfl (.finish hccst rfl 0) hok.finishOk
  | idle => exact processPlain_moved hrun hccst hstatus hok fun t h => nomatch h
  | escape e =>
    have hopen := hok.inside (by rw [hstatus]; rfl)
    exact moved_append (m := ⟨.literal e, 0, false⟩) hrun
      (hok.enter hccst (by rw [hstatus]; nofun) fun _ => hopen) rfl
      (by simp [ParseState.lex, hccst]) rfl rfl
  | dollarQuote tag =>
    dsimp only
    split
    · exact moved_append (m := ⟨.idle, tag.length - 1, false⟩) hrun
        (hok.enter hccst (by rw [hstatus]; nofun) nofun) rfl
        (by simp [ParseState.lex, hccst]) rfl rfl
    · exact moved_append (m := ⟨.dollarQuote tag, 0, false⟩) hrun hok rfl
        (by rw [hlex, hstatus]) rfl rfl
  | literal e =>
    have hopen := hok.inside (by rw [hstatus]; rfl)
    have hidle : s.qp.status ≠ .idle := by rw [hstatus]; nofun
    dsimp only
    by_cases hquote : c = LITERAL_QUOTE
    · rw [if_pos hquote, if_pos hquote]
      exact moved_append (m := ⟨.idle, 0, false⟩) hrun (.finish hccst rfl c) rfl
        (by simp [ParseState.lex, hccst]) rfl rfl
    rw [if_neg hquote, if_neg hquote]
    by_cases hesc : c = e
    · rw [if_pos hesc, if_pos hesc]
      exact moved_append (m := ⟨.escape e, 0, false⟩) hrun (hok.continue hopen hidle c _ nofun)
        rfl (by simp [ParseState.lex, hccst]) rfl rfl
    · rw [if_neg hesc, if_neg hesc]
      have hok' := hok.continue hopen hidle c (.literal e) nofun
      exact moved_append (m := ⟨.literal e, 0, false⟩) hrun
        (hok'.of_status ((token_continue_status _ _).trans hstatus)) rfl
        (by simp [ParseState.lex, hstatus, hccst]) rfl rfl
  | dquoteIdentifier =>
    have hopen := hok.inside (by rw [hstatus]; rfl)
    dsimp only
    by_cases hquote : c = IDENTIFIER_QUOTE
    · rw [if_pos hquote, if_pos hquote]
      exact moved_append (m := ⟨.idle, 0, false⟩) hrun (.finish hccst rfl c) rfl
        (by simp [ParseState.lex, hccst]) rfl rfl
    · rw [if_neg hquote, if_neg hquote]
      have hok' := hok.continue hopen (by rw [hstatus]; nofun) c .dquoteIdentifier nofun
      exact moved_append (m := ⟨.dquoteIdentifier, 0, false⟩) hrun
        (hok'.of_status ((token_continue_status _ _).trans hstatus)) rfl
        (by simp [ParseState.lex, hstatus, hccst]) rfl rfl
  | commentBlock level =>
    have hidle : s.qp.status ≠ .idle := by rw [hstatus]; nofun
    dsimp only
    by_cases hopen : c = SLASH ∧ rest.headD 0 = ASTERISK
    · rw [if_pos hopen, if_pos hopen]
      exact moved_append (m := ⟨.commentBlock (level + 1), 1, false⟩) hrun
        (hok.enter hccst hidle nofun) rfl (by simp [ParseState.lex, hccst]) rfl rfl
    rw [if_neg hopen, if_neg hopen]
    by_cases hclose : c = ASTERISK ∧ rest.headD 0 = SLASH
    · rw [if_pos hclose, if_pos hclose]
      refine moved_append (m := ⟨if level = 0 then .idle else .commentBlock (level - 1), 1, false⟩)
        hrun (hok.enter hccst hidle ?_) rfl (by simp [ParseState.lex, hccst]) rfl rfl
      split <;> nofun
    · rw [if_neg hclose, if_neg hclose]
      exact moved_append (m := ⟨.commentBlock level, 0, false⟩) hrun hok rfl
        (by rw [hlex, hstatus]) rfl rfl
  | lineComment =>
    dsimp only
    by_cases hend : c = PG_LINEFEED
    · rw [if_pos hend, if_pos hend]
      exact moved_append (m := ⟨.idle, 0, false⟩) hrun
        (hok.enter hccst (by rw [hstatus]; nofun) nofun) rfl
        (by simp [ParseState.lex, hccst]) rfl rfl
    · rw [if_neg hend, if_neg hend]
      exact moved_append (m := ⟨.lineComment, 0, false⟩) hrun hok rfl
        (by rw [hlex, hstatus]) rfl rfl

/-- The first byte of a multibyte character. -/
theorem nonAscii_first {ccsc : Ccsc} (h : nonAscii (nextStat ccsc 0 c) c = true) :
    IS_NOT_SPACE c = true ∧ c ≠ 0x28 := by
  have hc : ¬ c.toNat < 0x80 := by
    intro hc
    rw [nextStat_ascii _ hc, nonAscii_zero hc] at h
    exact absurd h (by decide)
  refine ⟨?_, fun h => hc (by rw [h]; decide)⟩
  simp only [IS_NOT_SPACE, isSpace, Bool.and_eq_true, Bool.not_eq_true', Bool.or_eq_false_iff,
    Bool.and_eq_false_iff, decide_eq_true_eq, decide_eq_false_iff_not, ne_eq,
    UInt8.le_iff_toNat_le, ← UInt8.toNat_inj]
  simp
  omega

/-- A token that a multibyte character goes on with, or opens. -/
theorem TokenOk.multi {qp : QueryParse} {ccsc : Ccsc} (hok : TokenOk qp)
    (h : OdbcDriver.nonAscii (nextStat ccsc qp.ccst c) c = true) :
    TokenOk (if qp.status = .idle then
      { (token_restart { qp with ccst := nextStat ccsc qp.ccst c } c).1 with
        status := .identKeyword }
      else if 0 < qp.token_curr.length then
        token_continue { qp with ccst := nextStat ccsc qp.ccst c } c
      else { qp with ccst := nextStat ccsc qp.ccst c }) := by
  split
  · rename_i hidle
    have hccst : qp.ccst = 0 := by
      by_contra hne
      exact (hok.multibyte hne).1 hidle
    rw [hccst] at h
    obtain ⟨hspace, hparen⟩ := nonAscii_first h
    exact .restart hspace (fun h => absurd h hparen) nofun
  · rename_i hidle
    split
    · rename_i hlen
      by_cases hopen : qp.prev_token_end = false
      · have hok' : TokenOk { qp with ccst := nextStat ccsc qp.ccst c } :=
          ⟨hok.opened, hok.inside, fun _ => ⟨hidle, .inr hopen⟩⟩
        exact (hok'.continue hopen hidle c _ hidle).of_status (token_continue_status _ _)
      · have hccst : qp.ccst = 0 := by
          by_contra hne
          rcases (hok.multibyte hne).2 with h | h
          · simp [h] at hlen
          · exact hopen h
        rw [hccst] at h
        obtain ⟨-, hparen⟩ := nonAscii_first h
        unfold token_continue
        rw [if_pos (Bool.not_eq_false _ ▸ hopen)]
        exact ⟨fun _ => ⟨c, [], rfl, fun h => absurd h hparen⟩, fun _ => rfl,
          fun _ => ⟨hidle, .inr rfl⟩⟩
    · rename_i hlen
      have hcurr : qp.token_curr = [] := List.length_eq_zero_iff.mp (by omega)
      exact ⟨hok.opened, hok.inside, fun _ => ⟨hidle, .inl hcurr⟩⟩

/-- **One byte.** -/
theorem inner_process_tokens_moved (env : Env) (before c : Byte) (done rest : List Byte)
    (hrun : s.progress = .running) (hok : TokenOk s.qp) :
    (inner_process_tokens env before s done c rest).1.qb.conn = s.qb.conn ∧
      Moved (lexStep s.qb.conn before false s.lex done c rest).1
        (lexStep s.qb.conn before false s.lex done c rest).2 rest
        (inner_process_tokens env before s done c rest) := by
  obtain ⟨qp, qb, progress, markers⟩ := s
  obtain rfl : progress = .running := hrun
  unfold inner_process_tokens lexStep lexMove
  dsimp only [ParseState.lex]
  by_cases hmulti : nonAscii (nextStat qb.conn.ccsc qp.ccst c) c = true
  · rw [if_pos hmulti, if_pos hmulti]
    refine ⟨rfl, .moved rfl (hok.multi hmulti) ?_ rfl⟩
    simp only [ParseState.lex, ParseState.append, Move.after]
    split
    · rename_i hidle
      simp [hidle]
    · rename_i hidle
      split <;> simp [hidle]
  · rw [if_neg hmulti, if_neg hmulti]
    have hccst : nextStat qb.conn.ccsc qp.ccst c = 0 :=
      (stat_of_not_nonAscii (Bool.eq_false_iff.mpr hmulti)).1
    rw [hccst]
    exact processAscii_moved (s := ⟨{ qp with ccst := 0 }, qb, .running, markers⟩) rfl rfl
      ⟨hok.opened, hok.inside, fun h => absurd rfl h⟩


end OdbcDriver
