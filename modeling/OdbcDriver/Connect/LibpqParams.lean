import OdbcDriver.Connect.ServerList
import OdbcDriver.Lib.Firsts
import OdbcDriver.Lib.Scanf

/-!
# The parameters of a connection

`LIBPQ_connect` gives libpq two arrays of keywords and values: first what the settings of the
connection ask for, then the options of the user, which `PQconninfoParse` takes from a text. The
arrays have room for `PROTOCOL3_OPTS_MAX` entries, the last of which is the terminator.

* `merge_eq`: merging keeps the first option of each keyword, as long as there is room, and ends
  with a conflict where one has another value;
* `libpq_params_iff`: the settings and options for which the arrays hold what they should.
-/

namespace OdbcDriver.Libpq

/-- `PROTOCOL3_OPTS_MAX` -/
def PROTOCOL3_OPTS_MAX : ℕ := 30

/-- Going past the end of an array. -/
inductive Fault
  | beyond
deriving DecidableEq, Repr

/-- A keyword and its value. -/
structure Param where
  keyword : List Byte
  val : List Byte
deriving DecidableEq, Repr

/-- `PQconninfoOption`; an option without a value is `none`. -/
structure PQconninfoOption where
  keyword : List Byte
  val : Option (List Byte)
deriving DecidableEq, Repr

/-- What `LIBPQ_connect` reads of `ConnInfo`. -/
structure ConnInfo extends Servers.ConnInfo where
  database : List Byte
  username : List Byte
  password : Option (List Byte)
  sslmode : List Byte
  target_session_attrs : List Byte
  connect_timeout : List Byte
  rw_timeout : List Byte
  client_encoding : List Byte
  application_name : List Byte
  sslcompression : List Byte
  sslcert : List Byte
  sslkey : List Byte
  sslrootcert : List Byte
  sslcrl : List Byte
  requirepeer : List Byte
  krbsrvname : List Byte
  gsslib : List Byte
  service : List Byte
  remote_nodename : List Byte
  localhost : List Byte
  localport : List Byte
  replication : List Byte
  backend_version : List Byte
  prototype : List Byte
  keepalives_count : List Byte
  tcp_user_timeout : List Byte
  enable_ce : List Byte
  keepalives_idle : List Byte
  keepalives_interval : List Byte
  pqopt : Option (List Byte)
  disable_keepalive : ℤ
  connection_extra_info : ℤ
  keepalive_idle : ℤ
  keepalive_interval : ℤ

/-- What the driver finds outside: the path of its library and the user of the process, and what
libpq makes of a text of options, which is an error with its message if there is one. -/
structure World where
  libpath : List Byte
  username : List Byte
  PQconninfoParse : List Byte → Except (Option (List Byte)) (List PQconninfoOption)

/-! ### The driver's own parameters -/

/-- A text that is not empty. -/
def given (s : List Byte) : Option (List Byte) := if s = [] then none else some s

/-- The value of `sslmode`, which may be abbreviated. -/
def sslmodeValue (sslmode : List Byte) : Option (List Byte) :=
  match sslmode with
  | [] => none
  | 0x76 :: 0x66 :: _ => some (ascii "verify-full")
  | 0x76 :: 0x63 :: _ => some (ascii "verify-ca")
  | _ => some sslmode

/-- A number that is positive, or else a text. -/
def numberOr (n : ℤ) (s : List Byte) : Option (List Byte) :=
  if 0 < n then some (Scanf.decimal 1 n) else given s

/-- `target_session_attrs`, which several hosts or ports ask for. -/
def sessionAttrs (ci : ConnInfo) (host_number port_number : ℕ) : Option (List Byte) :=
  if 1 < host_number ∨ 1 < port_number then
    some ((given ci.target_session_attrs).getD (ascii "read-write"))
  else given ci.target_session_attrs

/-- `odbcVersionString` -/
def odbcVersionString : List Byte := ascii "openGauss 1.0.0"

/-- `local_conninfo`, in an array of 8192 bytes. -/
def connectionInfo (w : World) (ci : ConnInfo) : Option (List Byte) :=
  if odbcVersionString = [] then none
  else
    let text :=
      if 0 < ci.connection_extra_info then
        ascii "\x7b\"driver_name\":\"ODBC\", \"driver_version\":\"" ++ odbcVersionString ++
          ascii "\", \"driver_path\":\"" ++ w.libpath ++ ascii "\", \"os_user\":\"" ++ w.username ++
          ascii "\"\x7d"
      else
        ascii "\x7b\"driver_name\":\"ODBC\",\"driver_version\":\"" ++ odbcVersionString ++
          ascii "\"\x7d"
    some (Scanf.snprintf 8192 text).1

/-- The parameters that the settings may ask for, in the order of the code. -/
def candidates (w : World) (ci : ConnInfo) (host_number port_number : ℕ) :
    List PQconninfoOption :=
  [⟨ascii "host", given ci.server⟩,
   ⟨ascii "port", given ci.port⟩,
   ⟨ascii "dbname", given ci.database⟩,
   ⟨ascii "user", given ci.username⟩,
   ⟨ascii "target_session_attrs", sessionAttrs ci host_number port_number⟩,
   ⟨ascii "sslmode", sslmodeValue ci.sslmode⟩,
   ⟨ascii "password", ci.password⟩,
   ⟨ascii "keepalives", if ci.disable_keepalive ≠ 0 then some (ascii "0") else none⟩,
   ⟨ascii "connect_timeout", given ci.connect_timeout⟩,
   ⟨ascii "rw_timeout", given ci.rw_timeout⟩,
   ⟨ascii "keepalives_idle", numberOr ci.keepalive_idle ci.keepalives_idle⟩,
   ⟨ascii "keepalives_interval", numberOr ci.keepalive_interval ci.keepalives_interval⟩,
   ⟨ascii "keepalives_count", given ci.keepalives_count⟩,
   ⟨ascii "client_encoding", given ci.client_encoding⟩,
   ⟨ascii "application_name", given ci.application_name⟩,
   ⟨ascii "tcp_user_timeout", given ci.tcp_user_timeout⟩,
   ⟨ascii "sslcompression", given ci.sslcompression⟩,
   ⟨ascii "sslcert", given ci.sslcert⟩,
   ⟨ascii "sslkey", given ci.sslkey⟩,
   ⟨ascii "sslrootcert", given ci.sslrootcert⟩,
   ⟨ascii "sslcrl", given ci.sslcrl⟩,
   ⟨ascii "requirepeer", given ci.requirepeer⟩,
   ⟨ascii "krbsrvname", given ci.krbsrvname⟩,
   ⟨ascii "gsslib", given ci.gsslib⟩,
   ⟨ascii "service", given ci.service⟩,
   ⟨ascii "remote_nodename", given ci.remote_nodename⟩,
   ⟨ascii "localhost", given ci.localhost⟩,
   ⟨ascii "localport", given ci.localport⟩,
   ⟨ascii "replication", given ci.replication⟩,
   ⟨ascii "backend_version", given ci.backend_version⟩,
   ⟨ascii "prototype", given ci.prototype⟩,
   ⟨ascii "enable_ce", given ci.enable_ce⟩,
   ⟨ascii "connection_info", connectionInfo w ci⟩]

/-- `opts[cnt] = keyword; vals[cnt++] = val`, for every candidate that has a value. -/
def appendAll : List PQconninfoOption → List Param → Except Fault (List Param)
  | [], params => .ok params
  | c :: cs, params =>
    match c.val with
    | none => appendAll cs params
    | some val =>
      if params.length < PROTOCOL3_OPTS_MAX then appendAll cs (params ++ [⟨c.keyword, val⟩])
      else .error .beyond

/-! ### The options of the user -/

/-- `find_libpq_option` -/
def find_libpq_option (params : List Param) (keyword : List Byte) : Option Param :=
  params.find? fun p => stricmp p.keyword keyword

/-- How merging ends: the arrays, and the keyword of a conflict if there is one. -/
structure Merged where
  params : List Param
  conflict : Option (List Byte)
deriving DecidableEq, Repr

/-- The loop of `merge_pqopt_into_params`. An option that finds no room is passed over. -/
def merge_pqopt_into_params : List PQconninfoOption → List Param → Merged
  | [], params => ⟨params, none⟩
  | o :: os, params =>
    match o.val with
    | none => merge_pqopt_into_params os params
    | some val =>
      match find_libpq_option params o.keyword with
      | some p =>
        if p.val = val then merge_pqopt_into_params os params
        else ⟨params, some o.keyword⟩
      | none =>
        if PROTOCOL3_OPTS_MAX - 1 ≤ params.length then merge_pqopt_into_params os params
        else merge_pqopt_into_params os (params ++ [⟨o.keyword, val⟩])

/-- How far `LIBPQ_connect` gets. -/
inductive Outcome
  /-- The arrays are not filled. -/
  | refused (message : List Byte)
  /-- The arrays are filled so far. -/
  | conflict (message : List Byte) (params : List Param)
  /-- The arrays, with a terminator behind them, are given to `PQconnectdbParams`. -/
  | connect (params : List Param)
deriving DecidableEq, Repr

/-- The message for what `validate_server_port` returns. -/
def hostPortMessage (rc : ℤ) : List Byte :=
  if rc = -2 then ascii "The server or port should not be empty."
  else if rc = -1 then ascii "Memory allocation failure when resolving address."
  else ascii "The number of hosts should be the same as the number of ports when both are multiple."

/-- `LIBPQ_connect`, up to the call of `PQconnectdbParams`. -/
def LIBPQ_connect (w : World) (ci : ConnInfo) : Except Fault Outcome :=
  match w.PQconninfoParse (ci.pqopt.getD []) with
  | .error (some errmsg) =>
    .ok (.refused ((ascii "libpq connection parameter error:" ++ errmsg).take 199))
  | .error none => .ok (.refused (ascii "memory error? in PQconninfoParse"))
  | .ok conninfoOption =>
    let v := Servers.validate_server_port ci.toConnInfo
    if v.rc ≠ 0 then .ok (.refused (hostPortMessage v.rc))
    else do
      let params ← appendAll (candidates w ci v.host_number v.port_number) []
      match merge_pqopt_into_params conninfoOption params with
      | ⟨params, some keyword⟩ =>
        return .conflict ((keyword ++
          ascii " parameter in pqopt option conflicts with other ordinary option").take 99) params
      | ⟨params, none⟩ =>
        if params.length < PROTOCOL3_OPTS_MAX then return .connect params else .error .beyond

/-! ### What the arrays should hold -/

/-- The keyword, as keywords are compared. -/
def key (p : Param) : List Byte := p.keyword.map tolower

/-- The options that have a value. -/
def valued (options : List PQconninfoOption) : List Param :=
  options.filterMap fun o => o.val.map (Param.mk o.keyword)

/-- The parameters that the settings ask for. -/
def own (w : World) (ci : ConnInfo) : List Param :=
  let v := Servers.validate_server_port ci.toConnInfo
  valued (candidates w ci v.host_number v.port_number)

/-- The options of the user. -/
def supplied (w : World) (ci : ConnInfo) : List Param :=
  match w.PQconninfoParse (ci.pqopt.getD []) with
  | .ok options => valued options
  | .error _ => []

/-- The options can be parsed, and the lists of servers and ports belong together. -/
def Usable (w : World) (ci : ConnInfo) : Prop :=
  (∃ options, w.PQconninfoParse (ci.pqopt.getD []) = .ok options) ∧
    (Servers.validate_server_port ci.toConnInfo).rc = 0

/-- The entries leave room for the terminator, and no keyword is there twice. -/
structure Filled (params : List Param) : Prop where
  room : params.length ≤ PROTOCOL3_OPTS_MAX - 1
  once : (params.map key).Nodup

/-- The entry of an option is there. -/
def Present (params : List Param) (o : Param) : Prop :=
  ∃ p ∈ params, key p = key o ∧ p.val = o.val

/-- What is to become of the arrays. -/
def Right (w : World) (ci : ConnInfo) : Prop :=
  match LIBPQ_connect w ci with
  | .error _ => False
  | .ok (.refused _) => True
  | .ok (.conflict _ params) => Filled params
  | .ok (.connect params) => Filled params ∧ ∀ o ∈ supplied w ci, Present params o

/-! ### Appending -/

@[simp] theorem valued_nil : valued [] = [] := rfl

theorem valued_none (keyword : List Byte) (options : List PQconninfoOption) :
    valued (⟨keyword, none⟩ :: options) = valued options := rfl

theorem valued_some (keyword val : List Byte) (options : List PQconninfoOption) :
    valued (⟨keyword, some val⟩ :: options) = ⟨keyword, val⟩ :: valued options := rfl

/-- Everything is appended as long as the arrays reach. -/
theorem appendAll_eq (cs : List PQconninfoOption) {params : List Param}
    (h : params.length ≤ PROTOCOL3_OPTS_MAX) :
    appendAll cs params =
      if params.length + (valued cs).length ≤ PROTOCOL3_OPTS_MAX then .ok (params ++ valued cs)
      else .error .beyond := by
  induction cs generalizing params with
  | nil =>
    rw [appendAll, valued_nil, List.append_nil]
    exact (if_pos h).symm
  | cons c cs ih =>
    obtain ⟨keyword, val | val⟩ := c
    · rw [valued_none, ← ih h]
      rfl
    · rw [valued_some, appendAll]
      dsimp only
      split
      · have hlength : (params ++ [Param.mk keyword val]).length = params.length + 1 := by simp
        rw [ih (by omega), hlength, List.append_assoc, List.length_cons, Nat.add_right_comm,
          Nat.add_assoc]
        rfl
      · rw [if_neg]
        rw [List.length_cons]
        omega

theorem keys_valued (options : List PQconninfoOption) :
    ((valued options).map key).Sublist (options.map fun o => o.keyword.map tolower) := by
  induction options with
  | nil => exact List.Sublist.slnil
  | cons o options ih =>
    obtain ⟨keyword, val | val⟩ := o
    · rw [valued_none]
      exact ih.cons _
    · rw [valued_some]
      exact ih.cons_cons _

/-- The driver names each of its own parameters once. -/
theorem keywords_nodup (w : World) (ci : ConnInfo) (host_number port_number : ℕ) :
    ((candidates w ci host_number port_number).map fun o => o.keyword.map tolower).Nodup := by
  simp only [candidates, List.map_cons, List.map_nil]
  decide

theorem own_nodup (w : World) (ci : ConnInfo) : ((own w ci).map key).Nodup :=
  (keywords_nodup w ci _ _).sublist (keys_valued _)

/-! ### Merging -/

open Firsts in
/-- What the arrays hold after the entries that have been seen. -/
def held (seen : List Param) : List Param := kept key (PROTOCOL3_OPTS_MAX - 1) seen

theorem mem_held_append {p : Param} {seen : List Param} (h : p ∈ held seen) (more : List Param) :
    p ∈ held (seen ++ more) :=
  (Firsts.prefix_kept _ seen more).subset h

/-- No entry that is held has another value than an option with its keyword. -/
def Agree (held options : List Param) : Prop :=
  ∀ o ∈ options, ∀ p ∈ held, key p = key o → p.val = o.val

theorem find_some {params : List Param} {keyword : List Byte} {p : Param}
    (h : find_libpq_option params keyword = some p) (val : List Byte) :
    p ∈ params ∧ key p = key ⟨keyword, val⟩ := by
  refine ⟨List.mem_of_find?_eq_some h, ?_⟩
  have hkey := List.find?_some h
  exact of_decide_eq_true hkey

theorem find_none {params : List Param} {keyword : List Byte}
    (h : find_libpq_option params keyword = none) (val : List Byte) :
    key ⟨keyword, val⟩ ∉ params.map key := by
  rw [find_libpq_option, List.find?_eq_none] at h
  intro hkey
  obtain ⟨p, hp, heq⟩ := List.mem_map.mp hkey
  exact h p hp (decide_eq_true heq)

/-- An option is in conflict with an entry, or it is merged and agrees with what is held from then
on. -/
theorem merge_step (keyword val : List Byte) (options : List PQconninfoOption)
    (seen : List Param) :
    (merge_pqopt_into_params (⟨keyword, some val⟩ :: options) (held seen) =
        ⟨held seen, some keyword⟩ ∧
      ∃ p ∈ held seen, key p = key ⟨keyword, val⟩ ∧ p.val ≠ val) ∨
    (merge_pqopt_into_params (⟨keyword, some val⟩ :: options) (held seen) =
        merge_pqopt_into_params options (held (seen ++ [⟨keyword, val⟩])) ∧
      ∀ later, ∀ p ∈ held (seen ++ [⟨keyword, val⟩] ++ later),
        key p = key ⟨keyword, val⟩ → p.val = val) := by
  rw [merge_pqopt_into_params]
  dsimp only
  cases hfind : find_libpq_option (held seen) keyword with
  | some p =>
    obtain ⟨hp, hkey⟩ := find_some hfind val
    dsimp only
    split
    · rename_i hval
      have hheld : held (seen ++ [⟨keyword, val⟩]) = held seen := by
        rw [held, Firsts.kept_append, if_pos]
        · rfl
        · exact .inl (hkey ▸ List.mem_map_of_mem hp)
      refine .inr ⟨by rw [hheld], ?_⟩
      intro later q hq hqkey
      rw [List.append_assoc] at hq
      have hpq := mem_held_append hp ([⟨keyword, val⟩] ++ later)
      rw [Firsts.eq_of_key_eq hq hpq (hqkey.trans hkey.symm), hval]
    · rename_i hval
      exact .inl ⟨rfl, p, hp, hkey, hval⟩
  | none =>
    have hnew := find_none hfind val
    dsimp only
    right
    split
    · rename_i hfull
      have hheld : ∀ more, held (seen ++ more) = held seen := Firsts.kept_full hfull
      refine ⟨by rw [hheld], ?_⟩
      intro later q hq hqkey
      rw [List.append_assoc, hheld] at hq
      exact absurd (hqkey ▸ List.mem_map_of_mem hq) hnew
    · rename_i hroom
      have hheld : held (seen ++ [⟨keyword, val⟩]) = held seen ++ [⟨keyword, val⟩] := by
        rw [held, Firsts.kept_append, if_neg]
        · rfl
        · exact not_or.mpr ⟨hnew, hroom⟩
      refine ⟨by rw [hheld], ?_⟩
      intro later q hq hqkey
      have hx : ⟨keyword, val⟩ ∈ held (seen ++ [⟨keyword, val⟩]) := by rw [hheld]; simp
      have hxq := mem_held_append hx later
      rw [Firsts.eq_of_key_eq hq hxq hqkey]

/-- Merging keeps the first option of each keyword, or ends with a conflict. -/
theorem merge_eq (options : List PQconninfoOption) (seen : List Param) :
    (merge_pqopt_into_params options (held seen) = ⟨held (seen ++ valued options), none⟩ ∧
      Agree (held (seen ++ valued options)) (valued options)) ∨
    (∃ front keyword, merge_pqopt_into_params options (held seen) =
        ⟨held (seen ++ front), some keyword⟩ ∧
      ¬ Agree (held (seen ++ valued options)) (valued options)) := by
  induction options generalizing seen with
  | nil =>
    left
    rw [valued_nil, List.append_nil]
    exact ⟨rfl, fun o ho => absurd ho List.not_mem_nil⟩
  | cons o options ih =>
    obtain ⟨keyword, val | val⟩ := o
    · rw [valued_none]
      exact ih seen
    · have hmore : seen ++ valued (⟨keyword, some val⟩ :: options) =
          seen ++ [⟨keyword, val⟩] ++ valued options := by
        rw [valued_some, List.append_assoc]
        rfl
      rw [hmore, valued_some]
      rcases merge_step keyword val options seen with ⟨hmerge, p, hp, hkey, hval⟩ | ⟨hmerge, hlater⟩
      · refine .inr ⟨[], keyword, by rw [hmerge, List.append_nil], ?_⟩
        intro hagree
        rw [List.append_assoc] at hagree
        exact hval (hagree _ List.mem_cons_self p (mem_held_append hp _) hkey)
      · rw [hmerge]
        rcases ih (seen ++ [⟨keyword, val⟩]) with ⟨hrest, hagree⟩ | ⟨front, k, hrest, hagree⟩
        · refine .inl ⟨hrest, ?_⟩
          intro o ho p hp hkey
          rcases List.mem_cons.mp ho with rfl | ho
          · exact hlater _ p hp hkey
          · exact hagree o ho p hp hkey
        · refine .inr ⟨⟨keyword, val⟩ :: front, k, ?_, ?_⟩
          · rw [hrest, List.append_assoc]
            rfl
          · exact fun h => hagree fun o ho => h o (List.mem_cons_of_mem _ ho)

/-- Merging takes no entry away. -/
theorem prefix_merge (options : List PQconninfoOption) (params : List Param) :
    params <+: (merge_pqopt_into_params options params).params := by
  induction options generalizing params with
  | nil => exact List.prefix_refl params
  | cons o options ih =>
    rw [merge_pqopt_into_params]
    split
    · exact ih params
    · split
      · split
        · exact ih params
        · exact List.prefix_refl params
      · split
        · exact ih params
        · exact (List.prefix_append params _).trans (ih _)

/-! ### The arrays -/

theorem held_own {w : World} {ci : ConnInfo} (h : (own w ci).length ≤ PROTOCOL3_OPTS_MAX - 1) :
    held (own w ci) = own w ci := by
  rw [held, Firsts.kept, Firsts.firsts_of_nodup (own_nodup w ci), List.take_of_length_le h]

theorem filled_held (seen : List Param) : Filled (held seen) where
  room := Firsts.length_kept_le _ seen
  once := Firsts.kept_keys_nodup _ seen

/-- When the options agree with what is held, they are all there as long as there was room for every
keyword. -/
theorem present_iff {mine options : List Param} (hmine : held mine = mine)
    (hagree : Agree (held (mine ++ options)) options) :
    (∀ o ∈ options, Present (held (mine ++ options)) o) ↔
      (Firsts.firsts key (mine ++ options)).length ≤ PROTOCOL3_OPTS_MAX - 1 := by
  rw [← Firsts.keys_kept_iff]
  constructor
  · intro hpresent x hx
    rcases List.mem_append.mp hx with hx | hx
    · rw [← hmine] at hx
      exact List.mem_map_of_mem (mem_held_append hx options)
    · obtain ⟨p, hp, hkey, -⟩ := hpresent x hx
      exact hkey ▸ List.mem_map_of_mem hp
  · intro hkeys o ho
    obtain ⟨p, hp, hkey⟩ := List.mem_map.mp (hkeys o (List.mem_append_right mine ho))
    exact ⟨p, hp, hkey, hagree o ho p hp hkey⟩

/-- How it ends once the options are parsed and the servers are counted. -/
theorem connect_eq {w : World} {ci : ConnInfo} {options : List PQconninfoOption}
    (hparse : w.PQconninfoParse (ci.pqopt.getD []) = .ok options)
    (hrc : (Servers.validate_server_port ci.toConnInfo).rc = 0) :
    LIBPQ_connect w ci =
      if (own w ci).length ≤ PROTOCOL3_OPTS_MAX then
        match merge_pqopt_into_params options (own w ci) with
        | ⟨params, some keyword⟩ =>
          .ok (.conflict ((keyword ++
            ascii " parameter in pqopt option conflicts with other ordinary option").take 99)
              params)
        | ⟨params, none⟩ =>
          if params.length < PROTOCOL3_OPTS_MAX then .ok (.connect params) else .error .beyond
      else .error .beyond := by
  rw [LIBPQ_connect, hparse]
  dsimp only
  rw [if_neg (not_not_intro hrc), appendAll_eq _ (Nat.zero_le _)]
  change (if 0 + (own w ci).length ≤ PROTOCOL3_OPTS_MAX then _ else _) >>= _ = _
  rw [Nat.zero_add]
  split
  · rfl
  · rfl

/-- With more of the driver's own parameters than there is room for, there is no room for the
terminator. -/
theorem not_right_of_many {w : World} {ci : ConnInfo} (husable : Usable w ci)
    (h : PROTOCOL3_OPTS_MAX - 1 < (own w ci).length) : ¬ Right w ci := by
  obtain ⟨⟨options, hparse⟩, hrc⟩ := husable
  rw [Right, connect_eq hparse hrc]
  split_ifs with hmax
  · have hprefix := (prefix_merge options (own w ci)).length_le
    cases hmerge : merge_pqopt_into_params options (own w ci) with | mk params conflict
    rw [hmerge] at hprefix
    dsimp only at hprefix
    cases conflict with
    | some keyword =>
      intro hfilled
      have hroom := hfilled.room
      omega
    | none =>
      dsimp only
      rw [if_neg (by omega)]
      exact not_false
  · exact not_false

/-- With fewer, the entries are those that are held, and what is missing is what found no room. -/
theorem right_of_few {w : World} {ci : ConnInfo} (husable : Usable w ci)
    (h : (own w ci).length ≤ PROTOCOL3_OPTS_MAX - 1) :
    Right w ci ↔ (Firsts.firsts key (own w ci ++ supplied w ci)).length ≤ PROTOCOL3_OPTS_MAX - 1 ∨
      ¬ Agree (held (own w ci ++ supplied w ci)) (supplied w ci) := by
  obtain ⟨⟨options, hparse⟩, hrc⟩ := husable
  have hsupplied : supplied w ci = valued options := by rw [supplied, hparse]
  have hown := held_own h
  rw [Right, connect_eq hparse hrc, if_pos (by omega), hsupplied]
  have hmerge := merge_eq options (own w ci)
  rw [hown] at hmerge
  rcases hmerge with ⟨hmerge, hagree⟩ | ⟨front, keyword, hmerge, hagree⟩
  · have hfilled := filled_held (own w ci ++ valued options)
    have hroom : (held (own w ci ++ valued options)).length < PROTOCOL3_OPTS_MAX :=
      Nat.lt_succ_of_le hfilled.room
    rw [hmerge]
    dsimp only
    rw [if_pos hroom, ← present_iff hown hagree]
    constructor
    · rintro ⟨-, hpresent⟩
      exact .inl hpresent
    · rintro (hpresent | hconflict)
      · exact ⟨hfilled, hpresent⟩
      · exact absurd hagree hconflict
  · rw [hmerge]
    exact iff_of_true (filled_held _) (.inr hagree)

/-- **The arrays of a connection**: they hold what they should exactly when the connection is given
up before they are filled, or the settings ask for no more than there is room for and so do they
together with the options of the user, unless one of these is in conflict. -/
theorem libpq_params_iff (w : World) (ci : ConnInfo) :
    Right w ci ↔ (Usable w ci → (own w ci).length ≤ PROTOCOL3_OPTS_MAX - 1 ∧
      ((Firsts.firsts key (own w ci ++ supplied w ci)).length ≤ PROTOCOL3_OPTS_MAX - 1 ∨
        ∃ o ∈ supplied w ci, ∃ p ∈ held (own w ci ++ supplied w ci),
          key p = key o ∧ p.val ≠ o.val)) := by
  have hconflict : (¬ Agree (held (own w ci ++ supplied w ci)) (supplied w ci)) ↔
      ∃ o ∈ supplied w ci, ∃ p ∈ held (own w ci ++ supplied w ci),
        key p = key o ∧ p.val ≠ o.val := by
    simp only [Agree, not_forall, exists_prop, ne_eq]
  rw [← hconflict]
  by_cases husable : Usable w ci
  · rcases Nat.lt_or_ge (PROTOCOL3_OPTS_MAX - 1) (own w ci).length with h | h
    · refine iff_of_false (not_right_of_many husable h) ?_
      intro hfew
      have := (hfew husable).1
      omega
    · rw [right_of_few husable h]
      constructor
      · intro hright _
        exact ⟨h, hright⟩
      · intro hright
        exact (hright husable).2
  · refine iff_of_true ?_ (absurd · husable)
    rw [Right, LIBPQ_connect]
    cases hparse : w.PQconninfoParse (ci.pqopt.getD []) with
    | error e => cases e <;> exact trivial
    | ok options =>
      dsimp only
      rw [if_pos]
      · exact trivial
      · intro hrc
        exact husable ⟨⟨options, hparse⟩, hrc⟩

/-- A world in which there are no options to parse. -/
def bareWorld : World where
  libpath := []
  username := []
  PQconninfoParse _ := .ok []

/-- A connection for which every setting has a text. -/
def everySetting : ConnInfo where
  server := ascii "h"
  port := ascii "5"
  server_lt := by decide
  port_lt := by decide
  database := ascii "1"
  username := ascii "1"
  sslmode := ascii "1"
  target_session_attrs := ascii "1"
  connect_timeout := ascii "1"
  rw_timeout := ascii "1"
  client_encoding := ascii "1"
  application_name := ascii "1"
  sslcompression := ascii "1"
  sslcert := ascii "1"
  sslkey := ascii "1"
  sslrootcert := ascii "1"
  sslcrl := ascii "1"
  requirepeer := ascii "1"
  krbsrvname := ascii "1"
  gsslib := ascii "1"
  service := ascii "1"
  remote_nodename := ascii "1"
  localhost := ascii "1"
  localport := ascii "1"
  replication := ascii "1"
  backend_version := ascii "1"
  prototype := ascii "1"
  keepalives_count := ascii "1"
  tcp_user_timeout := ascii "1"
  enable_ce := ascii "1"
  keepalives_idle := ascii "1"
  keepalives_interval := ascii "1"
  password := some (ascii "1")
  pqopt := none
  disable_keepalive := 1
  connection_extra_info := 0
  keepalive_idle := 0
  keepalive_interval := 0

/-- The thirty-three parameters of a connection with every setting go past the arrays. -/
theorem settings_beyond : ¬ Right bareWorld everySetting := by
  have husable : Usable bareWorld everySetting := ⟨⟨[], rfl⟩, by decide⟩
  refine not_right_of_many husable ?_
  decide

end OdbcDriver.Libpq
