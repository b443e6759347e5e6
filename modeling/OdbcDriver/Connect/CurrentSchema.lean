import OdbcDriver.Encoding.Ascii
import OdbcDriver.Lib.Run

/-!
# The current schema

A connection keeps what the server has answered to `select current_schema()`. It forgets the answer
behind a simple query whose text begins with `set` and has another word that begins with
`search_path`, where the server has executed a `SET`. Whatever else changes the search path is not
noticed.

* `is_setting_search_path_iff`: the texts that are noticed;
* `CC_send_query_append`, `CC_get_current_schema`: where the answer is forgotten and asked for;
* `current_schema_iff`: the runs in which the answer is that of the server, at every time.
-/

namespace OdbcDriver.CurrentSchema

universe u

/-! ### The text of a query -/

/-- `strnicmp` finds no difference in the length of the second text. -/
def startsWith (text front : List Byte) : Bool := stricmp (text.take front.length) front

/-- The loop over the words behind `set`; `word` says whether a word has begun already. -/
def anyWord (word : Bool) : List Byte → Bool
  | [] => false
  | c :: q =>
    if isSpace c then anyWord false q
    else if word then anyWord true q
    else startsWith (c :: q) (ascii "search_path") || anyWord true q

/-- `is_setting_search_path` -/
def is_setting_search_path (query : List Byte) : Bool :=
  startsWith query (ascii "set") && anyWord false (query.drop 3)

/-! ### The server -/

/-- What comes back for a text: the tags of the commands, as far as they are looked at, and whether
all went well. -/
structure Reply where
  tags : List (List Byte)
  successful : Bool
deriving DecidableEq, Repr

/-- A server session, as far as the driver knows it. -/
structure Session (σ : Type u) where
  connected : σ
  /-- A simple query. -/
  exec : σ → List Byte → σ × Reply
  /-- A statement that is executed otherwise. -/
  extended : σ → List Byte → σ
  /-- `select current_schema()`, which fails where a transaction has failed. -/
  ask : σ → σ × Option (Option (List Byte))
  current_schema : σ → Option (List Byte)
  /-- The answer is the current schema. -/
  ask_answer : ∀ s schema, (ask s).2 = some schema → schema = current_schema s
  /-- Asking changes nothing. -/
  ask_same : ∀ s, current_schema (ask s).1 = current_schema s
  /-- A new session can be asked. -/
  ask_connected : (ask connected).2.isSome

/-! ### The driver -/

/-- A connection. -/
structure State (σ : Type u) where
  server : σ
  current_schema : Option (List Byte)
  current_schema_valid : Bool
deriving DecidableEq

/-- What is sent in front of a query. -/
inductive Front
  | nothing
  /-- A transaction is begun. -/
  | beginning
  /-- A savepoint, which is released behind the query. -/
  | perQuery
  /-- The command for an internal savepoint. -/
  | prepended (command : List Byte)

/-- A query of the driver. -/
structure Query where
  query : List Byte
  appendq : Option (List Byte)
  front : Front
  /-- What is sent in front of `appendq`, where that is sent on its own. -/
  appendFront : Front
  ignore_roundtrip_time : Bool

/-- The text that is sent. -/
def Front.text (front : Front) (query : List Byte) : List Byte :=
  match front with
  | .nothing => query
  | .beginning => ascii "BEGIN;" ++ query
  | .perQuery =>
    ascii "SAVEPOINT _per_query_svp_;" ++ query ++ ascii ";RELEASE _per_query_svp_"
  | .prepended command => command ++ ascii ";" ++ query

section
variable {σ : Type u} (srv : Session σ)

/-- `reset_current_schema` -/
def reset_current_schema (s : State σ) : State σ :=
  { s with current_schema := none, current_schema_valid := false }

/-- The tag of a command, as `CC_send_query_append` looks at it. -/
def commandOk (query : List Byte) (s : State σ) (tag : List Byte) : State σ :=
  if startsWith tag (ascii "BEGIN") then s
  else if startsWith tag (ascii "SAVEPOINT") then s
  else if startsWith tag (ascii "ROLLBACK") then s
  else if startsWith tag (ascii "RELEASE") then s
  else if startsWith tag (ascii "DROP TABLE") || startsWith tag (ascii "ALTER TABLE") then s
  else if s.current_schema_valid && startsWith tag (ascii "SET") then
    if is_setting_search_path query then reset_current_schema s else s
  else s

/-- A text is sent for a query, and its results are handled. -/
def send (s : State σ) (query text : List Byte) : State σ × Bool :=
  let (server, reply) := srv.exec s.server text
  (reply.tags.foldl (commandOk query) { s with server := server }, reply.successful)

/-- `CC_send_query_append` -/
def CC_send_query_append (s : State σ) (q : Query) : State σ :=
  match q.appendq with
  | none => (send srv s q.query (q.front.text q.query)).1
  | some appendq =>
    if q.ignore_roundtrip_time then
      let (s, successful) := send srv s q.query (q.front.text q.query)
      if successful then (send srv s appendq (q.appendFront.text appendq)).1 else s
    else (send srv s q.query (q.front.text (q.query ++ ascii ";" ++ appendq))).1

/-- `CC_get_current_schema` -/
def CC_get_current_schema (s : State σ) : State σ × Option (List Byte) :=
  if s.current_schema_valid then (s, s.current_schema)
  else
    let (server, answer) := srv.ask s.server
    let current_schema := answer.join.or s.current_schema
    ({ s with
      server := server
      current_schema := current_schema
      current_schema_valid := answer.isSome && current_schema.isSome }, current_schema)

/-- A call on a connection. -/
inductive Call
  | query (q : Query)
  /-- A statement in the extended protocol, or a command that is sent directly. -/
  | extended (text : List Byte)
  | current_schema
  /-- The connection is given up, and made anew. -/
  | reconnect

/-- A new connection. -/
def State.start : State σ := ⟨srv.connected, none, false⟩

def step (s : State σ) : Call → State σ × Unit
  | .query q => (CC_send_query_append srv s q, ())
  | .extended text => ({ s with server := srv.extended s.server text }, ())
  | .current_schema => ((CC_get_current_schema srv s).1, ())
  | .reconnect => (reset_current_schema { s with server := srv.connected }, ())

/-- The calls on a connection. -/
def machine : Machine (State σ) Call Unit where
  step := step srv

/-- `CC_get_current_schema` would return the current schema of the server. -/
def Right (s : State σ) : Prop :=
  (CC_get_current_schema srv s).2 = srv.current_schema s.server

/-- The server would answer, or has no current schema. -/
def Answers (t : σ) : Prop := (srv.ask t).2.isSome ∨ srv.current_schema t = none

/-- A text is one that is noticed, and a tag of a `SET` comes back for it. -/
def Noticed (query : List Byte) (tags : List (List Byte)) : Prop :=
  is_setting_search_path query ∧ ∃ tag ∈ tags, startsWith tag (ascii "SET")

/-- A query is noticed, or what is appended to it is. -/
def Query.Noticed (q : Query) (t : σ) : Prop :=
  match q.appendq with
  | none => CurrentSchema.Noticed q.query (srv.exec t (q.front.text q.query)).2.tags
  | some appendq =>
    if q.ignore_roundtrip_time then
      let (t, reply) := srv.exec t (q.front.text q.query)
      CurrentSchema.Noticed q.query reply.tags ∨ (reply.successful ∧
        CurrentSchema.Noticed appendq (srv.exec t (q.appendFront.text appendq)).2.tags)
    else
      CurrentSchema.Noticed q.query
        (srv.exec t (q.front.text (q.query ++ ascii ";" ++ appendq))).2.tags

/-- A call leaves the kept schema the current one, or it is noticed, or none is kept; in the last
two cases the server would answer. -/
def Fine (s : State σ) (call : Call) : Prop :=
  let t := (step srv s call).1.server
  match call with
  | .query q =>
    (s.current_schema_valid = true ∧ ¬q.Noticed srv s.server ∧
        srv.current_schema t = srv.current_schema s.server) ∨
      ((s.current_schema_valid = false ∨ q.Noticed srv s.server) ∧ Answers srv t)
  | .extended _ =>
    (s.current_schema_valid = true ∧ srv.current_schema t = srv.current_schema s.server) ∨
      (s.current_schema_valid = false ∧ Answers srv t)
  | .current_schema | .reconnect => True

end

/-! ### Texts that are noticed -/

variable {word : Bool} {q query tag front : List Byte} {tags : List (List Byte)}

/-- `search_path` begins a word, at the start of a text or behind a space. -/
def Begins (word : Bool) (q : List Byte) : Prop :=
  ∃ back, startsWith back (ascii "search_path") ∧
    ((word = false ∧ q = back) ∨ ∃ front c, isSpace c ∧ q = front ++ c :: back)

theorem startsWith_nil : startsWith [] (ascii "search_path") = false := rfl

/-- No word begins at a space. -/
theorem startsWith_space {c : Byte} (hc : isSpace c = true) :
    startsWith (c :: q) (ascii "search_path") = false := by
  by_contra h
  rw [Bool.not_eq_false, startsWith, stricmp, decide_eq_true_eq] at h
  have hhead := congrArg List.head? h
  have hlower : tolower c = 0x73 := Option.some.inj hhead
  have hspace : (0x09 ≤ c ∧ c ≤ 0x0d) ∨ c = 0x20 := by simpa [isSpace] using hc
  have hlow : ¬(0x41 ≤ c ∧ c ≤ 0x5a) := by
    rintro ⟨hle, -⟩
    rcases hspace with ⟨-, hle'⟩ | rfl
    · exact absurd (UInt8.le_trans hle hle') (by decide)
    · exact absurd hle (by decide)
  rw [tolower, if_neg hlow] at hlower
  subst hlower
  revert hc
  decide

/-- A word begins behind the first byte, or at it. -/
theorem begins_cons {c : Byte} : Begins word (c :: q) ↔
    (word = false ∧ startsWith (c :: q) (ascii "search_path") = true) ∨
      Begins (!isSpace c) q := by
  constructor
  · rintro ⟨back, hback, ⟨hword, rfl⟩ | ⟨_ | ⟨d, front⟩, e, he, heq⟩⟩
    · exact .inl ⟨hword, hback⟩
    · obtain ⟨rfl, rfl⟩ := List.cons.inj heq
      exact .inr ⟨q, hback, .inl ⟨by rw [he, Bool.not_true], rfl⟩⟩
    · obtain ⟨rfl, hq⟩ := List.cons.inj heq
      exact .inr ⟨back, hback, .inr ⟨front, e, he, hq⟩⟩
  · rintro (⟨hword, hback⟩ | ⟨back, hback, ⟨hspace, rfl⟩ | ⟨front, e, he, rfl⟩⟩)
    · exact ⟨c :: q, hback, .inl ⟨hword, rfl⟩⟩
    · exact ⟨q, hback, .inr ⟨[], c, by simpa using hspace, rfl⟩⟩
    · exact ⟨back, hback, .inr ⟨c :: front, e, he, rfl⟩⟩

/-- The loop finds the word that begins with `search_path`, wherever it is. -/
theorem anyWord_iff : anyWord word q = true ↔ Begins word q := by
  induction q generalizing word with
  | nil =>
    refine iff_of_false (by rw [anyWord]; exact Bool.false_ne_true) ?_
    rintro ⟨back, hback, ⟨-, rfl⟩ | ⟨front, c, -, heq⟩⟩
    · rw [startsWith_nil] at hback
      cases hback
    · exact absurd heq.symm (by simp)
  | cons c q ih =>
    rw [begins_cons, anyWord]
    cases hspace : isSpace c with
    | true =>
      rw [if_pos rfl, ih, startsWith_space hspace]
      simp
    | false =>
      rw [if_neg Bool.false_ne_true]
      cases word with
      | true =>
        rw [if_pos rfl, ih]
        simp
      | false => simp [ih]

/-- **The texts that are noticed** begin with `set`, and have a word that begins with `search_path`
behind it. -/
theorem is_setting_search_path_iff : is_setting_search_path query = true ↔
    startsWith query (ascii "set") = true ∧ Begins false (query.drop 3) := by
  rw [is_setting_search_path, Bool.and_eq_true, anyWord_iff]

/-! ### The tags -/

theorem startsWith_take (h : startsWith tag front = true) (hlen : 3 ≤ front.length) :
    (tag.take 3).map tolower = (front.take 3).map tolower := by
  rw [startsWith, stricmp, decide_eq_true_eq] at h
  have htake := congrArg (List.take 3) h
  rw [← List.map_take, ← List.map_take, List.take_take, Nat.min_eq_left hlen] at htake
  exact htake

/-- A tag begins with at most one of two words that differ. -/
theorem startsWith_other (h : startsWith tag (ascii "SET") = true) (front : List Byte)
    (hlen : 3 ≤ front.length)
    (hfront : (front.take 3).map tolower ≠ (ascii "SET").map tolower) :
    startsWith tag front = false := by
  rw [← Bool.not_eq_true]
  intro hother
  have hset := startsWith_take h (le_refl 3)
  rw [startsWith_take hother hlen] at hset
  exact hfront hset

variable {σ : Type u} {srv : Session σ} {s : State σ}

/-- The schema is forgotten behind a `SET`, when there is one and the text is noticed. -/
theorem commandOk_eq : commandOk query s tag =
    if s.current_schema_valid = true ∧ startsWith tag (ascii "SET") = true ∧
      is_setting_search_path query = true then reset_current_schema s else s := by
  rw [commandOk]
  by_cases hset : startsWith tag (ascii "SET") = true
  · have hbegin := startsWith_other hset (ascii "BEGIN") (by decide) (by decide)
    have hsave := startsWith_other hset (ascii "SAVEPOINT") (by decide) (by decide)
    have hroll := startsWith_other hset (ascii "ROLLBACK") (by decide) (by decide)
    have hrel := startsWith_other hset (ascii "RELEASE") (by decide) (by decide)
    have hdrop := startsWith_other hset (ascii "DROP TABLE") (by decide) (by decide)
    have halter := startsWith_other hset (ascii "ALTER TABLE") (by decide) (by decide)
    simp only [hbegin, hsave, hroll, hrel, hdrop, halter, hset, Bool.false_eq_true, if_false,
      Bool.or_self, Bool.and_true, true_and]
    split_ifs <;> simp_all
  · have hright : ¬(s.current_schema_valid = true ∧ startsWith tag (ascii "SET") = true ∧
        is_setting_search_path query = true) := fun h => hset h.2.1
    rw [if_neg hright]
    rw [Bool.not_eq_true] at hset
    rw [hset, Bool.and_false]
    split_ifs <;> first | rfl | contradiction

theorem foldl_invalid (h : s.current_schema_valid = false) :
    tags.foldl (commandOk query) s = s := by
  induction tags with
  | nil => rfl
  | cons tag tags ih =>
    have hno : ¬(s.current_schema_valid = true ∧ startsWith tag (ascii "SET") = true ∧
        is_setting_search_path query = true) := fun hall => Bool.false_ne_true (h ▸ hall.1)
    rw [List.foldl_cons, commandOk_eq, if_neg hno]
    exact ih

theorem foldl_kept (h : ¬Noticed query tags) : tags.foldl (commandOk query) s = s := by
  induction tags with
  | nil => rfl
  | cons tag tags ih =>
    have hno : ¬(s.current_schema_valid = true ∧ startsWith tag (ascii "SET") = true ∧
        is_setting_search_path query = true) := fun hall =>
      h ⟨hall.2.2, tag, List.mem_cons_self, hall.2.1⟩
    rw [List.foldl_cons, commandOk_eq, if_neg hno]
    exact ih fun ⟨hquery, t, ht, hset⟩ => h ⟨hquery, t, List.mem_cons_of_mem tag ht, hset⟩

theorem foldl_noticed (h : Noticed query tags) (hvalid : s.current_schema_valid = true) :
    tags.foldl (commandOk query) s = reset_current_schema s := by
  obtain ⟨hquery, htag⟩ := h
  induction tags with
  | nil =>
    obtain ⟨t, ht, -⟩ := htag
    exact absurd ht List.not_mem_nil
  | cons tag tags ih =>
    rw [List.foldl_cons, commandOk_eq]
    by_cases hset : startsWith tag (ascii "SET") = true
    · rw [if_pos ⟨hvalid, hset, hquery⟩]
      exact foldl_invalid rfl
    · obtain ⟨t, ht, htset⟩ := htag
      rw [if_neg fun hall => hset hall.2.1]
      refine ih ⟨t, (List.mem_cons.mp ht).resolve_left ?_, htset⟩
      rintro rfl
      exact hset htset

/-! ### Queries -/

/-- What a call makes of the schema that is kept. -/
inductive Keeps (s s' : State σ) (noticed : Prop) : Prop
  | kept : s.current_schema_valid = true → ¬noticed →
      s' = { s with server := s'.server } → Keeps s s' noticed
  | forgotten : s.current_schema_valid = true → noticed →
      s' = reset_current_schema { s with server := s'.server } → Keeps s s' noticed
  | absent : s.current_schema_valid = false → s' = { s with server := s'.server } →
      Keeps s s' noticed

theorem foldl_server : (tags.foldl (commandOk query) s).server = s.server := by
  induction tags generalizing s with
  | nil => rfl
  | cons tag tags ih =>
    rw [List.foldl_cons, ih, commandOk_eq]
    split_ifs <;> rfl

theorem send_server (s : State σ) (query text : List Byte) :
    (send srv s query text).1.server = (srv.exec s.server text).1 :=
  foldl_server

theorem send_keeps (srv : Session σ) (s : State σ) (query text : List Byte) :
    Keeps s (send srv s query text).1 (Noticed query (srv.exec s.server text).2.tags) := by
  let t : State σ := { s with server := (srv.exec s.server text).1 }
  have hserver : { s with server := (send srv s query text).1.server } = t := by
    rw [send_server]
  have heq : (send srv s query text).1 =
      (srv.exec s.server text).2.tags.foldl (commandOk query) t := rfl
  by_cases hvalid : s.current_schema_valid = true
  · by_cases hnoticed : Noticed query (srv.exec s.server text).2.tags
    · refine .forgotten hvalid hnoticed ?_
      rw [hserver, heq]
      exact foldl_noticed (s := t) hnoticed hvalid
    · refine .kept hvalid hnoticed ?_
      rw [hserver, heq]
      exact foldl_kept hnoticed
  · rw [Bool.not_eq_true] at hvalid
    refine .absent hvalid ?_
    rw [hserver, heq]
    exact foldl_invalid (s := t) hvalid

/-- Two texts that are sent one behind the other. -/
theorem Keeps.trans {s₁ s₂ s₃ : State σ} {p q : Prop} (h : Keeps s₁ s₂ p) (h' : Keeps s₂ s₃ q) :
    Keeps s₁ s₃ (p ∨ q) := by
  rcases h with ⟨hvalid, hno, heq⟩ | ⟨hvalid, hyes, heq⟩ | ⟨hvalid, heq⟩
  · rw [heq] at h'
    rcases h' with ⟨-, hno', heq'⟩ | ⟨-, hyes', heq'⟩ | ⟨hinvalid, -⟩
    · exact .kept hvalid (not_or.mpr ⟨hno, hno'⟩) heq'
    · exact .forgotten hvalid (.inr hyes') heq'
    · rw [hvalid] at hinvalid
      cases hinvalid
  · rw [heq] at h'
    rcases h' with ⟨hinvalid, -, -⟩ | ⟨hinvalid, -, -⟩ | ⟨-, heq'⟩
    · cases hinvalid
    · cases hinvalid
    · exact .forgotten hvalid (.inl hyes) heq'
  · rw [heq] at h'
    rcases h' with ⟨hinvalid, -, -⟩ | ⟨hinvalid, -, -⟩ | ⟨-, heq'⟩
    · rw [hvalid] at hinvalid
      cases hinvalid
    · rw [hvalid] at hinvalid
      cases hinvalid
    · exact .absent hvalid heq'

/-- **A query** keeps the schema unless it is noticed. -/
theorem query_keeps (s : State σ) (q : Query) :
    Keeps s (CC_send_query_append srv s q) (q.Noticed srv s.server) := by
  rw [CC_send_query_append, Query.Noticed]
  cases q.appendq with
  | none => exact send_keeps srv s _ _
  | some appendq =>
    dsimp only
    by_cases hignore : q.ignore_roundtrip_time = true
    · rw [if_pos hignore, if_pos hignore]
      have hfirst := send_keeps srv s q.query (q.front.text q.query)
      by_cases hsent : (send srv s q.query (q.front.text q.query)).2 = true
      · have hsuccessful : (srv.exec s.server (q.front.text q.query)).2.successful = true := hsent
        have hsecond := send_keeps srv (send srv s q.query (q.front.text q.query)).1
          appendq (q.appendFront.text appendq)
        rw [send_server] at hsecond
        rw [if_pos hsent, hsuccessful]
        simpa only [true_and] using hfirst.trans hsecond
      · have hfailed : ¬(srv.exec s.server (q.front.text q.query)).2.successful = true := hsent
        rw [if_neg hsent]
        simpa only [hfailed, Bool.false_eq_true, false_and, or_false] using hfirst
    · rw [if_neg hignore, if_neg hignore]
      exact send_keeps srv s _ _

/-! ### The schema that is returned -/

/-- While no schema is valid, none is kept. -/
def State.Settled (s : State σ) : Prop :=
  s.current_schema_valid = false → s.current_schema = none

theorem right_valid (h : s.current_schema_valid = true) :
    Right srv s ↔ s.current_schema = srv.current_schema s.server := by
  rw [Right, CC_get_current_schema, if_pos h]

theorem right_invalid (h : s.current_schema_valid = false) (hnone : s.current_schema = none) :
    Right srv s ↔ Answers srv s.server := by
  have hno : ¬s.current_schema_valid = true := by
    rw [h]
    exact Bool.false_ne_true
  rw [Right, CC_get_current_schema, if_neg hno, Answers, hnone]
  dsimp only
  rw [Option.or_none]
  cases hask : (srv.ask s.server).2 with
  | none => simp [eq_comm]
  | some schema =>
    rw [Option.join_some, srv.ask_answer s.server schema hask]
    simp

/-- Asking keeps what is right. -/
theorem get_right (hsettled : s.Settled) (h : Right srv s) :
    (CC_get_current_schema srv s).1.Settled ∧ Right srv (CC_get_current_schema srv s).1 := by
  by_cases hvalid : s.current_schema_valid = true
  · rw [CC_get_current_schema, if_pos hvalid]
    exact ⟨hsettled, h⟩
  · rw [Bool.not_eq_true] at hvalid
    have hanswers := (right_invalid hvalid (hsettled hvalid)).mp h
    have hno : ¬s.current_schema_valid = true := by
      rw [hvalid]
      exact Bool.false_ne_true
    rw [CC_get_current_schema, if_neg hno, hsettled hvalid]
    dsimp only
    rw [Option.or_none]
    cases hask : (srv.ask s.server).2 with
    | none =>
      refine ⟨fun _ => rfl, (right_invalid rfl rfl).mpr (.inr ?_)⟩
      rw [srv.ask_same]
      exact hanswers.resolve_left (by rw [hask]; exact Bool.false_ne_true)
    | some schema =>
      have hschema := srv.ask_answer s.server schema hask
      cases schema with
      | none =>
        refine ⟨fun _ => rfl, (right_invalid rfl rfl).mpr (.inr ?_)⟩
        rw [srv.ask_same, ← hschema]
      | some schema =>
        refine ⟨(fun hfalse => nomatch hfalse), (right_valid rfl).mpr ?_⟩
        rw [srv.ask_same, ← hschema]
        rfl

/-- A call that keeps the schema or forgets it is right exactly when it is fine. -/
theorem Keeps.right_iff {s' : State σ} {noticed : Prop} (hkeeps : Keeps s s' noticed)
    (hsettled : s.Settled) (h : Right srv s) :
    s'.Settled ∧ (Right srv s' ↔
      (s.current_schema_valid = true ∧ ¬noticed ∧
          srv.current_schema s'.server = srv.current_schema s.server) ∨
        ((s.current_schema_valid = false ∨ noticed) ∧ Answers srv s'.server)) := by
  rcases hkeeps with ⟨hvalid, hno, heq⟩ | ⟨hvalid, hyes, heq⟩ | ⟨hinvalid, heq⟩
  · have hcached := (right_valid hvalid).mp h
    have hvalid' : s'.current_schema_valid = true := by rw [heq]; exact hvalid
    have hcached' : s'.current_schema = srv.current_schema s.server := by rw [heq]; exact hcached
    constructor
    · intro hfalse
      rw [hvalid'] at hfalse
      cases hfalse
    · rw [right_valid hvalid', hcached', hvalid]
      simp [hno, eq_comm]
  · have hinvalid' : s'.current_schema_valid = false := by rw [heq]; rfl
    have hnone' : s'.current_schema = none := by rw [heq]; rfl
    exact ⟨fun _ => hnone', by rw [right_invalid hinvalid' hnone']; simp [hyes]⟩
  · have hinvalid' : s'.current_schema_valid = false := by rw [heq]; exact hinvalid
    have hnone' : s'.current_schema = none := by rw [heq]; exact hsettled hinvalid
    exact ⟨fun _ => hnone', by rw [right_invalid hinvalid' hnone']; simp [hinvalid]⟩

/-- **One call** leaves the schema right exactly when it is fine. -/
theorem step_right_iff (call : Call) (hsettled : s.Settled) (h : Right srv s) :
    (step srv s call).1.Settled ∧ (Right srv (step srv s call).1 ↔ Fine srv s call) := by
  cases call with
  | query q => exact (query_keeps s q).right_iff hsettled h
  | extended text =>
    have hkeeps : Keeps s (step srv s (.extended text)).1 False := by
      by_cases hvalid : s.current_schema_valid = true
      · exact .kept hvalid not_false rfl
      · exact .absent (Bool.not_eq_true _ ▸ hvalid) rfl
    obtain ⟨hsettled', hright⟩ := hkeeps.right_iff hsettled h
    refine ⟨hsettled', hright.trans ?_⟩
    simp only [Fine, not_false_eq_true, true_and, or_false]
  | current_schema =>
    obtain ⟨hsettled', hright⟩ := get_right hsettled h
    exact ⟨hsettled', iff_of_true hright trivial⟩
  | reconnect =>
    exact ⟨fun _ => rfl, iff_of_true ((right_invalid rfl rfl).mpr (.inl srv.ask_connected)) trivial⟩

/-- What every call that is fine keeps. -/
def Kept (srv : Session σ) (s : State σ) : Prop := s.Settled ∧ Right srv s

/-- **The current schema.** For every server and every sequence of calls, `CC_get_current_schema`
would return the current schema of the server at every time exactly when all calls are fine. -/
theorem current_schema_iff (srv : Session σ) (calls : List Call) :
    (machine srv).AllSteps (fun s call => Right srv (step srv s call).1) (State.start srv) calls ↔
      (machine srv).AllSteps (Fine srv) (State.start srv) calls := by
  have hstart : Kept srv (State.start srv) :=
    ⟨fun _ => rfl, (right_invalid rfl rfl).mpr (.inl srv.ask_connected)⟩
  have hinv : ∀ s call, Kept srv s → Fine srv s call → Kept srv ((machine srv).step s call).1 := by
    intro s call hs hfine
    obtain ⟨hsettled, hiff⟩ := step_right_iff call hs.1 hs.2
    exact ⟨hsettled, hiff.mpr hfine⟩
  exact Machine.allSteps_iff (fun s call hs => (step_right_iff call hs.1 hs.2).2) hinv hstart

/-! ### A search path that is rolled back -/

/-- A server session with two schemas. In a transaction the schema before it is kept. -/
structure TwoSchemas where
  schema : List Byte
  saved : Option (List Byte)
deriving DecidableEq

def twoSchemas : Session TwoSchemas where
  connected := ⟨ascii "public", none⟩
  exec s text :=
    if text = ascii "BEGIN" then ({ s with saved := some s.schema }, ⟨[ascii "BEGIN"], true⟩)
    else if text = ascii "set search_path to s2" then
      ({ s with schema := ascii "s2" }, ⟨[ascii "SET"], true⟩)
    else if text = ascii "ROLLBACK" then
      (⟨s.saved.getD s.schema, none⟩, ⟨[ascii "ROLLBACK"], true⟩)
    else (s, ⟨[], true⟩)
  extended s _ := s
  ask s := (s, some (some s.schema))
  current_schema s := some s.schema
  ask_answer := fun _ _ h => (Option.some.inj h).symm
  ask_same := fun _ => rfl
  ask_connected := rfl

/-- A query that is sent as it is. -/
def Query.plain (query : String) : Query := ⟨ascii query, none, .nothing, .nothing, false⟩

/-- Behind the rollback the schema of the transaction is still returned. -/
theorem rolled_back_schema :
    ¬(machine twoSchemas).AllSteps (fun s call => Right twoSchemas (step twoSchemas s call).1)
      (State.start twoSchemas)
      [.query (.plain "BEGIN"), .query (.plain "set search_path to s2"), .current_schema,
        .query (.plain "ROLLBACK")] := by
  rintro ⟨-, -, -, h, -⟩
  revert h
  unfold Right
  decide +kernel

end OdbcDriver.CurrentSchema
