import OdbcDriver.Catalog.AccessListRules

/-!
# Privileges on a table

`PGAPI_TablePrivileges` keeps eight slots of letters for each user. It goes through the entries of
the table's access-control list, hands all privileges to the owner and to the superusers, and then
writes a row for each letter in a slot, but for rules and triggers. The members of a group are looked
up only where the query for them has failed.

* `mem_slots`, `subset_of_slots`: what the slots of a user hold;
* `aclState_eq`: what is handed to each user;
* `tablePrivileges_iff`: when the rows are those of the privileges granted.
-/

namespace OdbcDriver.Privileges

/-! ### Slots -/

def ACLMAX : ℕ := 8

def ALL_PRIVILIGES : List Byte := ascii "arwdRxt"

/-- One letter of `usracl_auth`: the slots are looked through up to the letter or the first that is
free. -/
def addLetter (usracl : List Byte) (c : Byte) : List Byte :=
  if c ∈ usracl then usracl
  else if usracl.length < ACLMAX then usracl ++ [c]
  else usracl

/-- `usracl_auth`, over the slots that are taken. -/
def usracl_auth (usracl auth : List Byte) : List Byte := auth.foldl addLetter usracl

/-- The letters of a text, in the slots of a user who had none. -/
def slots (letters : List Byte) : List Byte := usracl_auth [] letters

theorem usracl_auth_append (usracl a b : List Byte) :
    usracl_auth usracl (a ++ b) = usracl_auth (usracl_auth usracl a) b :=
  List.foldl_append

theorem slots_append_singleton (letters : List Byte) (c : Byte) :
    slots (letters ++ [c]) = addLetter (slots letters) c := by
  rw [slots, usracl_auth_append, ← slots]
  rfl

/-- The slots hold letters of the text, none twice. -/
theorem nodup_slots (letters : List Byte) : (slots letters).Nodup ∧ slots letters ⊆ letters := by
  induction letters using List.reverseRecOn with
  | nil => exact ⟨List.nodup_nil, List.nil_subset _⟩
  | append_singleton letters c ih =>
    rw [slots_append_singleton, addLetter]
    have hsub : slots letters ⊆ letters ++ [c] := List.Subset.trans ih.2 (List.subset_append_left _ _)
    split
    · exact ⟨ih.1, hsub⟩
    · rename_i hnot
      split
      · refine ⟨ih.1.append (List.nodup_singleton c) (by simpa using hnot), ?_⟩
        exact List.append_subset.mpr ⟨hsub, List.subset_append_right _ _⟩
      · exact ⟨ih.1, hsub⟩

/-- A letter is missing only where the slots are full. -/
theorem mem_slots {letters : List Byte} (hroom : (slots letters).length < ACLMAX) {c : Byte} :
    c ∈ slots letters ↔ c ∈ letters := by
  refine ⟨fun h => (nodup_slots letters).2 h, ?_⟩
  induction letters using List.reverseRecOn with
  | nil => exact id
  | append_singleton letters x ih =>
    intro hc
    rw [slots_append_singleton, addLetter] at hroom ⊢
    rw [List.mem_append, List.mem_singleton] at hc
    split at hroom
    · rename_i hmem
      rw [if_pos hmem]
      rcases hc with hc | rfl
      · exact ih hroom hc
      · exact hmem
    · rename_i hnot
      rw [if_neg hnot]
      split at hroom
      · rename_i hlt
        rw [if_pos hlt, List.mem_append, List.mem_singleton]
        exact hc.imp_left (ih hlt)
      · rename_i hfull
        exact absurd hroom hfull

/-- Where the slots hold letters of a short list only, no letter was left out. -/
theorem subset_of_slots {letters allowed : List Byte} (hshort : allowed.length < ACLMAX)
    (h : slots letters ⊆ allowed) : letters ⊆ allowed := by
  have hle := ((nodup_slots letters).1.subperm h).length_le
  exact fun c hc => h ((mem_slots (hle.trans_lt hshort)).mpr hc)

/-! ### Users -/

/-- A row of `pg_user`. -/
structure User where
  usename : List Byte
  usesuper : Bool

/-- The rows of `pg_user`: no name is empty or there twice. -/
structure Users where
  all : List User
  nodup : (all.map User.usename).Nodup
  named : ∀ u ∈ all, u.usename ≠ []

/-- The slots of the first user of that name. -/
def updateFirst (user auth : List Byte) : List (User × List Byte) → List (User × List Byte)
  | [] => []
  | (u, usracl) :: useracl =>
    if u.usename = user then (u, usracl_auth usracl auth) :: useracl
    else (u, usracl) :: updateFirst user auth useracl

/-- `useracl_upd`: no name stands for everyone. -/
def useracl_upd (useracl : List (User × List Byte)) (user auth : List Byte) :
    List (User × List Byte) :=
  if user ≠ [] then updateFirst user auth useracl
  else useracl.map fun e => (e.1, usracl_auth e.2 auth)

/-- The loop over the entries of the list. The members of a group are not looked up where `answered`
says that the query for them succeeds; otherwise its missing rows are read, and there is no result. -/
def aclState (answered : List Byte → Bool) (useracl : List (User × List Byte)) (entries : List Cut) :
    Option (List (User × List Byte)) :=
  entries.foldlM (fun useracl c =>
    if c.grpauth then (if answered c.user then some useracl else none)
    else some (useracl_upd useracl c.user c.auth)) useracl

/-- The queries for the groups are answered. -/
def Answered (answered : List Byte → Bool) (entries : List Cut) : Prop :=
  ∀ c ∈ entries, c.grpauth = true → answered c.user = true

theorem useracl_upd_eq {all : List User} (hnodup : (all.map User.usename).Nodup)
    (f : User → List Byte) (user auth : List Byte) :
    useracl_upd (all.map fun u => (u, f u)) user auth = all.map fun u =>
      (u, if user = [] ∨ user = u.usename then usracl_auth (f u) auth else f u) := by
  by_cases huser : user = []
  · simp [useracl_upd, huser]
  · simp only [useracl_upd, if_pos huser, huser, false_or]
    induction all with
    | nil => rfl
    | cons u all ih =>
      rw [List.map_cons, List.nodup_cons] at hnodup
      simp only [List.map_cons, updateFirst]
      by_cases hu : u.usename = user
      · have hothers : ∀ v ∈ all, user ≠ v.usename := by
          rintro v hv rfl
          exact hnodup.1 (hu ▸ List.mem_map_of_mem hv)
        have htail : all.map (fun u => (u, f u)) = all.map fun u =>
            (u, if user = u.usename then usracl_auth (f u) auth else f u) :=
          List.map_congr_left fun v hv => by rw [if_neg (hothers v hv)]
        rw [if_pos hu, if_pos hu.symm, ← htail]
      · rw [if_neg hu, if_neg (Ne.symm hu), ih hnodup.2]

/-- What the loop hands to each user. -/
theorem aclState_eq {all : List User} (hnodup : (all.map User.usename).Nodup)
    {answered : List Byte → Bool} {entries : List Cut} (h : Answered answered entries)
    (f : User → List Byte) :
    aclState answered (all.map fun u => (u, f u)) entries =
      some (all.map fun u => (u, usracl_auth (f u) (reached entries u.usename))) := by
  induction entries generalizing f with
  | nil => rfl
  | cons c entries ih =>
    obtain ⟨hc, hentries⟩ := List.forall_mem_cons.mp h
    rw [aclState, List.foldlM_cons]
    by_cases hgroup : c.grpauth = true
    · rw [if_pos hgroup, if_pos (hc hgroup)]
      refine (ih hentries f).trans (congrArg some (List.map_congr_left fun u _ => ?_))
      rw [reached_cons, if_neg (by simp [hgroup]), List.nil_append]
    · rw [if_neg hgroup, useracl_upd_eq hnodup]
      rw [Bool.not_eq_true] at hgroup
      refine (ih hentries _).trans (congrArg some (List.map_congr_left fun u _ => ?_))
      rw [reached_cons]
      by_cases hhit : c.user = [] ∨ c.user = u.usename
      · rw [if_pos hhit, if_pos ⟨hgroup, hhit⟩, usracl_auth_append]
      · rw [if_neg hhit, if_neg (fun h => hhit h.2), List.nil_append]

theorem aclState_none {answered : List Byte → Bool} {entries : List Cut}
    (h : ¬Answered answered entries) (useracl : List (User × List Byte)) :
    aclState answered useracl entries = none := by
  induction entries generalizing useracl with
  | nil => exact absurd (fun c hc => absurd hc List.not_mem_nil) h
  | cons c entries ih =>
    rw [aclState, List.foldlM_cons]
    by_cases hgroup : c.grpauth = true
    · rw [if_pos hgroup]
      by_cases hanswer : answered c.user = true
      · rw [if_pos hanswer]
        refine ih (fun hrest => h (List.forall_mem_cons.mpr ⟨fun _ => hanswer, hrest⟩)) useracl
      · rw [if_neg hanswer]
        rfl
    · rw [if_neg hgroup]
      exact ih (fun hrest => h (List.forall_mem_cons.mpr ⟨fun h => absurd h hgroup, hrest⟩)) _

/-! ### Rows -/

/-- A row for the application, without the columns that name the table. -/
structure PrivilegeRow where
  grantor : List Byte
  grantee : List Byte
  privilege : String
  is_grantable : String
deriving DecidableEq

/-- The name of a privilege, which is empty for a letter that is not known. -/
def privilegeName (c : Byte) : String :=
  if c = 0x61 then "INSERT"
  else if c = 0x72 then "SELECT"
  else if c = 0x77 then "UPDATE"
  else if c = 0x64 then "DELETE"
  else if c = 0x78 then "REFERENCES"
  else ""

/-- The letters that have a name. -/
def namedLetters : List Byte := ascii "arwdx"

/-- The row for a letter in a slot. -/
def letterRow (owner : List Byte) (u : User) (c : Byte) : Option PrivilegeRow :=
  if c = 0x52 ∨ c = 0x74 then none
  else some {
    grantor := if u.usesuper ∨ u.usename = owner then ascii "_SYSTEM" else owner
    grantee := u.usename
    privilege := privilegeName c
    is_grantable := if u.usename = owner ∨ u.usesuper then "YES" else "NO" }

/-- The loop over the users, from the user `j` on. -/
def tableRows (owner : List Byte) : ℕ → List User → List (User × List Byte) → List PrivilegeRow
  | _, [], _ => []
  | j, u :: us, useracl =>
    let useracl := if u.usesuper then useracl_upd useracl u.usename ALL_PRIVILIGES else useracl
    ((useracl[j]?.map Prod.snd).getD []).filterMap (letterRow owner u) ++
      tableRows owner (j + 1) us useracl

/-- The rows of `PGAPI_TablePrivileges` for one table. -/
def PGAPI_TablePrivileges (answered : List Byte → Bool) (allures : List User) (owner : List Byte)
    (relacl : Option (List Byte)) : Option (List PrivilegeRow) :=
  (aclState answered (allures.map fun u => (u, [])) (aclCuts relacl)).map fun useracl =>
    tableRows owner 0 allures (useracl_upd useracl owner ALL_PRIVILIGES)

/-- The letters that are handed to a user: by the entries, as the owner and as a superuser. -/
def handed (relacl : Option (List Byte)) (owner : List Byte) (u : User) : List Byte :=
  reached (aclCuts relacl) u.usename ++ (if owner = u.usename then ALL_PRIVILIGES else []) ++
    if u.usesuper then ALL_PRIVILIGES else []

theorem tableRows_eq {all done us : List User} (hall : done ++ us = all)
    (hnodup : (all.map User.usename).Nodup) (hnamed : ∀ u ∈ all, u.usename ≠ [])
    (owner : List Byte) (f : User → List Byte) :
    tableRows owner done.length us (all.map fun u => (u, f u)) = us.flatMap fun u =>
      (usracl_auth (f u) (if u.usesuper then ALL_PRIVILIGES else [])).filterMap
        (letterRow owner u) := by
  induction us generalizing done f with
  | nil => rfl
  | cons u us ih =>
    have hu : u ∈ all := hall ▸ List.mem_append_right _ List.mem_cons_self
    set f' : User → List Byte := fun v =>
      if u.usesuper = true ∧ u.usename = v.usename then usracl_auth (f v) ALL_PRIVILIGES
      else f v with hf'
    have hstep : (if u.usesuper then
        useracl_upd (all.map fun v => (v, f v)) u.usename ALL_PRIVILIGES
        else all.map fun v => (v, f v)) = all.map fun v => (v, f' v) := by
      split
      · rename_i hsuper
        rw [useracl_upd_eq hnodup]
        simp only [hf', hsuper, true_and, hnamed u hu, false_or]
      · rename_i hsuper
        simp [hf', hsuper]
    have hslots : ((all.map fun v => (v, f' v))[done.length]?.map Prod.snd).getD [] =
        usracl_auth (f u) (if u.usesuper then ALL_PRIVILIGES else []) := by
      rw [← hall, List.getElem?_map, List.getElem?_append_right le_rfl, Nat.sub_self]
      simp only [List.getElem?_cons_zero, Option.map_some, Option.getD_some, hf', and_true]
      split <;> rfl
    -- nobody behind has that name
    have hothers : ∀ v ∈ us, f' v = f v := by
      intro v hv
      have hne : u.usename ≠ v.usename := by
        rw [← hall, List.map_append, List.map_cons] at hnodup
        have hrest := (List.nodup_cons.mp (List.Nodup.of_append_right hnodup)).1
        exact fun heq => hrest (heq ▸ List.mem_map_of_mem hv)
      simp only [hf', hne, and_false, if_false]
    have hrest := @ih (done ++ [u]) (by rw [← hall, List.append_assoc, List.singleton_append]) f'
    rw [List.length_append, List.length_singleton] at hrest
    rw [tableRows, List.flatMap_cons, hstep, hslots, hrest]
    congr 1
    exact List.flatMap_congr fun v hv => by rw [hothers v hv]

/-- The rows, user by user. -/
theorem tablePrivileges_eq {answered : List Byte → Bool} {users : Users} {owner : List Byte}
    {relacl : Option (List Byte)} (howner : owner ≠ []) (h : Answered answered (aclCuts relacl)) :
    PGAPI_TablePrivileges answered users.all owner relacl = some (users.all.flatMap fun u =>
      (slots (handed relacl owner u)).filterMap (letterRow owner u)) := by
  have hslots : ∀ u : User, usracl_auth (if owner = u.usename then
      usracl_auth (usracl_auth [] (reached (aclCuts relacl) u.usename)) ALL_PRIVILIGES
      else usracl_auth [] (reached (aclCuts relacl) u.usename))
      (if u.usesuper then ALL_PRIVILIGES else []) = slots (handed relacl owner u) := by
    intro u
    rw [slots, handed, usracl_auth_append, usracl_auth_append]
    congr 1
    split <;> rfl
  rw [PGAPI_TablePrivileges, aclState_eq users.nodup h, Option.map_some, useracl_upd_eq users.nodup]
  simp only [howner, false_or]
  have hrows := @tableRows_eq users.all [] users.all rfl users.nodup users.named owner
  rw [List.length_nil] at hrows
  simp only [hrows, hslots]

/-! ### What is granted -/

/-- The list grants a privilege to a user: in its name, through everyone, or through a group. -/
def Granted (memberOf : List Byte → List Byte → Bool) (acl : List AclItem) (user : List Byte)
    (c : Byte) : Prop :=
  ∃ e ∈ acl, c ∈ e.privileges.map Grant.letter ∧
    match e.grantee with
    | .everyone => True
    | .role name => name.flatten = user ∨ memberOf user name.flatten
    | .group name => memberOf user name.flatten

/-- A user has a privilege: as the owner, as a superuser, or by a grant. -/
def Entitled (memberOf : List Byte → List Byte → Bool) (acl : List AclItem) (owner : List Byte)
    (u : User) (c : Byte) : Prop :=
  owner = u.usename ∨ u.usesuper = true ∨ Granted memberOf acl u.usename c

/-- There is one row for each user and each privilege that the user has, and no other row. -/
def Right (rows : Option (List PrivilegeRow)) (users : Users) (has : User → Byte → Prop) : Prop :=
  ∃ rs, rows = some rs ∧ (rs.map fun r => (r.grantee, r.privilege)).Nodup ∧
    ∀ grantee privilege, (grantee, privilege) ∈ rs.map (fun r => (r.grantee, r.privilege)) ↔
      ∃ u ∈ users.all, u.usename = grantee ∧
        ∃ c ∈ namedLetters, privilegeName c = privilege ∧ has u c

theorem mem_namedLetters {c : Byte} : c ∈ namedLetters ↔ privilegeName c ≠ "" := by
  have hletters : namedLetters = [0x61, 0x72, 0x77, 0x64, 0x78] := by decide
  rw [hletters]
  constructor
  · intro h
    simp only [List.mem_cons, List.not_mem_nil, or_false] at h
    rcases h with rfl | rfl | rfl | rfl | rfl <;> decide
  · contrapose!
    intro h
    simp only [List.mem_cons, List.not_mem_nil, or_false, not_or] at h
    obtain ⟨ha, hr, hw, hd, hx⟩ := h
    simp only [privilegeName, ha, hr, hw, hd, hx, if_false]

theorem privilegeName_inj {c c' : Byte} (hc : c ∈ namedLetters)
    (h : privilegeName c' = privilegeName c) : c' = c := by
  have hc' : c' ∈ namedLetters := mem_namedLetters.mpr (h ▸ mem_namedLetters.mp hc)
  have hletters : namedLetters = [0x61, 0x72, 0x77, 0x64, 0x78] := by decide
  rw [hletters] at hc hc'
  simp only [List.mem_cons, List.not_mem_nil, or_false] at hc hc'
  rcases hc with rfl | rfl | rfl | rfl | rfl <;> rcases hc' with rfl | rfl | rfl | rfl | rfl <;>
    first | rfl | exact absurd h (by decide)

section Rows

variable {users : Users} {letters : User → List Byte} {has : User → Byte → Prop} {owner : List Byte}

/-- A letter is shown in a row. -/
def shown (c : Byte) : Bool := decide ¬(c = 0x52 ∨ c = 0x74)

/-- What the rows say, user by user. -/
theorem pairs_eq (all : List User) :
    (all.flatMap fun u => (slots (letters u)).filterMap (letterRow owner u)).map
        (fun r => (r.grantee, r.privilege)) =
      all.flatMap fun u => ((slots (letters u)).filter shown).map fun c =>
        (u.usename, privilegeName c) := by
  rw [List.map_flatMap]
  refine List.flatMap_congr fun u _ => ?_
  induction slots (letters u) with
  | nil => rfl
  | cons c cs ih =>
    by_cases hc : c = 0x52 ∨ c = 0x74
    · have hrow : letterRow owner u c = none := if_pos hc
      have hhidden : ¬shown c = true := fun h => of_decide_eq_true h hc
      rw [List.filterMap_cons_none hrow, List.filter_cons_of_neg hhidden, ih]
    · have hshown : shown c = true := decide_eq_true hc
      obtain ⟨r, hrow, hpair⟩ : ∃ r, letterRow owner u c = some r ∧
          (r.grantee, r.privilege) = (u.usename, privilegeName c) := ⟨_, if_neg hc, rfl⟩
      rw [List.filterMap_cons_some hrow, List.filter_cons_of_pos hshown, List.map_cons,
        List.map_cons, ih, hpair]

theorem mem_pairs {all : List User} {grantee : List Byte} {privilege : String} :
    (grantee, privilege) ∈ (all.flatMap fun u => ((slots (letters u)).filter shown).map fun c =>
        (u.usename, privilegeName c)) ↔
      ∃ u ∈ all, u.usename = grantee ∧
        ∃ c ∈ slots (letters u), shown c = true ∧ privilegeName c = privilege := by
  simp only [List.mem_flatMap, List.mem_map, List.mem_filter, Prod.mk.injEq]
  constructor
  · rintro ⟨u, hu, c, ⟨hc, hshown⟩, hname, hprivilege⟩
    exact ⟨u, hu, hname, c, hc, hshown, hprivilege⟩
  · rintro ⟨u, hu, hname, c, hc, hshown, hprivilege⟩
    exact ⟨u, hu, c, ⟨hc, hshown⟩, hname, hprivilege⟩

/-- A name is that of one user. -/
theorem Users.eq_of_usename (users : Users) {u v : User} (hu : u ∈ users.all) (hv : v ∈ users.all)
    (h : u.usename = v.usename) : u = v :=
  List.inj_on_of_nodup_map users.nodup hu hv h

/-- The letters that a row is shown for, among those the slots can hold by right. -/
theorem shown_iff {c : Byte} (h : c ∈ ALL_PRIVILIGES) : shown c = true ↔ c ∈ namedLetters := by
  have hall : ALL_PRIVILIGES = [0x61, 0x72, 0x77, 0x64, 0x52, 0x78, 0x74] := by decide
  rw [hall] at h
  simp only [List.mem_cons, List.not_mem_nil, or_false] at h
  rcases h with rfl | rfl | rfl | rfl | rfl | rfl | rfl <;> decide

theorem namedLetters_subset : namedLetters ⊆ ALL_PRIVILIGES := by
  have hletters : namedLetters = [0x61, 0x72, 0x77, 0x64, 0x78] := by decide
  have hall : ALL_PRIVILIGES = [0x61, 0x72, 0x77, 0x64, 0x52, 0x78, 0x74] := by decide
  rw [hletters, hall]
  simp

/-- Letters the slots can hold by right give no row twice. -/
theorem nodup_pairs (h : ∀ u ∈ users.all, slots (letters u) ⊆ ALL_PRIVILIGES) :
    (users.all.flatMap fun u => ((slots (letters u)).filter shown).map fun c =>
      (u.usename, privilegeName c)).Nodup := by
  refine List.nodup_flatMap.mpr ⟨fun u hu => ?_, ?_⟩
  · refine ((nodup_slots (letters u)).1.filter _).map_on ?_
    intro c hc c' hc' heq
    obtain ⟨hc, hshown⟩ := List.mem_filter.mp hc
    obtain ⟨hc', hshown'⟩ := List.mem_filter.mp hc'
    exact privilegeName_inj ((shown_iff (h u hu hc')).mp hshown') (Prod.mk.inj heq).2
  · have hnames : users.all.Pairwise fun u v => u.usename ≠ v.usename :=
      List.pairwise_map.mp users.nodup
    refine hnames.imp ?_
    rintro u v hne x hu hv
    obtain ⟨c, -, rfl⟩ := List.mem_map.mp hu
    obtain ⟨c', -, heq⟩ := List.mem_map.mp hv
    exact hne (Prod.mk.inj heq).1.symm

/-- The rows are right where the letters handed to each user are those of its privileges. -/
theorem right_iff : Right (some (users.all.flatMap fun u =>
      (slots (letters u)).filterMap (letterRow owner u))) users has ↔
    ∀ u ∈ users.all, letters u ⊆ ALL_PRIVILIGES ∧
      ∀ c ∈ namedLetters, c ∈ letters u ↔ has u c := by
  have hshort : ALL_PRIVILIGES.length < ACLMAX := by decide
  constructor
  · rintro ⟨rs, hrs, -, hpairs⟩ u hu
    obtain rfl := Option.some.inj hrs
    rw [pairs_eq] at hpairs
    -- a letter without a name has no row
    have hslots : slots (letters u) ⊆ ALL_PRIVILIGES := by
      intro c hc
      by_cases hshown : shown c = true
      · obtain ⟨v, -, -, c', hc', hname, -⟩ :=
          (hpairs u.usename (privilegeName c)).mp (mem_pairs.mpr ⟨u, hu, rfl, c, hc, hshown, rfl⟩)
        exact namedLetters_subset (privilegeName_inj hc' hname.symm ▸ hc')
      · rcases not_not.mp (of_decide_eq_false (Bool.eq_false_iff.mpr hshown)) with rfl | rfl <;>
          decide
    have hsub := subset_of_slots hshort hslots
    have hroom : (slots (letters u)).length < ACLMAX :=
      ((nodup_slots (letters u)).1.subperm hslots).length_le.trans_lt hshort
    refine ⟨hsub, fun c hc => ?_⟩
    rw [← mem_slots hroom]
    constructor
    · intro hmem
      have hshown := (shown_iff (namedLetters_subset hc)).mpr hc
      obtain ⟨v, hv, hname, c', hc', heq, hhas⟩ :=
        (hpairs u.usename (privilegeName c)).mp (mem_pairs.mpr ⟨u, hu, rfl, c, hmem, hshown, rfl⟩)
      obtain rfl := users.eq_of_usename hv hu hname
      rw [privilegeName_inj hc' heq.symm]
      exact hhas
    · intro hhas
      obtain ⟨v, hv, hname, c', hc', -, heq⟩ :=
        mem_pairs.mp ((hpairs u.usename (privilegeName c)).mpr ⟨u, hu, rfl, c, hc, rfl, hhas⟩)
      obtain rfl := users.eq_of_usename hv hu hname
      rw [← privilegeName_inj hc heq]
      exact hc'
  · intro h
    have hslots : ∀ u ∈ users.all, slots (letters u) ⊆ ALL_PRIVILIGES := fun u hu =>
      List.Subset.trans (nodup_slots (letters u)).2 (h u hu).1
    have hroom : ∀ u ∈ users.all, (slots (letters u)).length < ACLMAX := fun u hu =>
      ((nodup_slots (letters u)).1.subperm (hslots u hu)).length_le.trans_lt hshort
    refine ⟨_, rfl, ?_, fun grantee privilege => ?_⟩
    · rw [pairs_eq]
      exact nodup_pairs hslots
    · rw [pairs_eq, mem_pairs]
      constructor
      · rintro ⟨u, hu, hname, c, hc, hshown, rfl⟩
        have hnamed := (shown_iff (hslots u hu hc)).mp hshown
        exact ⟨u, hu, hname, c, hnamed, rfl,
          ((h u hu).2 c hnamed).mp ((mem_slots (hroom u hu)).mp hc)⟩
      · rintro ⟨u, hu, hname, c, hnamed, rfl, hhas⟩
        exact ⟨u, hu, hname, c, (mem_slots (hroom u hu)).mpr (((h u hu).2 c hnamed).mpr hhas),
          (shown_iff (namedLetters_subset hnamed)).mpr hnamed, rfl⟩

end Rows

section List

variable {isLetter : Chr → Bool} {ccsc : Ccsc} {answered : List Byte → Bool}
  {memberOf : List Byte → List Byte → Bool} {users : Users} {owner : List Byte}

theorem mem_handed {relacl : Option (List Byte)} {u : User} {c : Byte} (hc : c ∈ ALL_PRIVILIGES) :
    c ∈ handed relacl owner u ↔
      c ∈ reached (aclCuts relacl) u.usename ∨ owner = u.usename ∨ u.usesuper = true := by
  rw [handed, List.mem_append, List.mem_append, or_assoc]
  have hif : ∀ p : Prop, [Decidable p] → (c ∈ (if p then ALL_PRIVILIGES else []) ↔ p) := by
    intro p _
    split <;> simp_all
  rw [hif, hif]

theorem handed_subset {relacl : Option (List Byte)} {u : User} :
    handed relacl owner u ⊆ ALL_PRIVILIGES ↔
      reached (aclCuts relacl) u.usename ⊆ ALL_PRIVILIGES := by
  have hif : ∀ p : Prop, [Decidable p] → (if p then ALL_PRIVILIGES else []) ⊆ ALL_PRIVILIGES := by
    intro p _
    split
    · exact List.Subset.refl _
    · exact List.nil_subset _
  rw [handed, List.append_subset, List.append_subset]
  exact ⟨fun h => h.1.1, fun h => ⟨⟨h, hif _⟩, hif _⟩⟩

/-- The rows of a text are right where what is cut out of it hands over what is granted. -/
theorem right_text_iff (howner : owner ≠ []) {relacl : Option (List Byte)} {acl : List AclItem} :
    Right (PGAPI_TablePrivileges answered users.all owner relacl) users
        (Entitled memberOf acl owner) ↔
      Answered answered (aclCuts relacl) ∧ ∀ u ∈ users.all,
        reached (aclCuts relacl) u.usename ⊆ ALL_PRIVILIGES ∧ ∀ c ∈ namedLetters,
          (c ∈ reached (aclCuts relacl) u.usename ∨ owner = u.usename ∨ u.usesuper = true ↔
            Entitled memberOf acl owner u c) := by
  by_cases h : Answered answered (aclCuts relacl)
  · rw [tablePrivileges_eq howner h, right_iff]
    simp only [h, true_and]
    refine forall₂_congr fun u _ => and_congr handed_subset (forall₂_congr fun c hc => ?_)
    rw [mem_handed (namedLetters_subset hc)]
  · simp only [h, false_and, iff_false]
    rintro ⟨rs, hrs, -⟩
    rw [PGAPI_TablePrivileges, aclState_none h] at hrs
    exact absurd hrs (by simp)

/-- What reaches a user of a list with tame names. -/
theorem agree_list {acl : Option (List AclItem)} (htame : ∀ e ∈ acl.getD [], e.Tame ccsc)
    {user : List Byte} (huser : 0x22 ∉ user) :
    Agree (aclCuts (acl.map (relaclText isLetter))) (heard isLetter false (acl.getD [])) user := by
  cases acl with
  | none => exact agree_nil false user
  | some acl => exact cuts_heard huser htame

/-- **The rows are those of the privileges, one for each**, exactly where the letters that the driver
cuts out of the list are, for each user, those that are granted to it. For names without delimiters
that is never so where an entry is heard for a user: its slash is taken for a privilege. No entry is
heard for a user but the owner and the superusers then, and nothing is granted to it either. -/
theorem tablePrivileges_iff (isLetter : Chr → Bool) (ccsc : Ccsc) (answered : List Byte → Bool)
    (memberOf : List Byte → List Byte → Bool) (users : Users) {owner : List Byte}
    (howner : owner ≠ []) (acl : Option (List AclItem)) :
    (Right (PGAPI_TablePrivileges answered users.all owner (acl.map (relaclText isLetter))) users
        (Entitled memberOf (acl.getD []) owner) ↔
      Answered answered (aclCuts (acl.map (relaclText isLetter))) ∧ ∀ u ∈ users.all,
        reached (aclCuts (acl.map (relaclText isLetter))) u.usename ⊆ ALL_PRIVILIGES ∧
        ∀ c ∈ namedLetters, (c ∈ reached (aclCuts (acl.map (relaclText isLetter))) u.usename ∨
          owner = u.usename ∨ u.usesuper = true ↔ Entitled memberOf (acl.getD []) owner u c)) ∧
    ((∀ e ∈ acl.getD [], e.Tame ccsc) → (∀ u ∈ users.all, 0x22 ∉ u.usename) →
      (Right (PGAPI_TablePrivileges answered users.all owner (acl.map (relaclText isLetter))) users
          (Entitled memberOf (acl.getD []) owner) ↔
        Answered answered (aclCuts (acl.map (relaclText isLetter))) ∧ ∀ u ∈ users.all,
          (∀ e ∈ heard isLetter false (acl.getD []), ¬e.Reaches u.usename) ∧
          ∀ c ∈ namedLetters, Granted memberOf (acl.getD []) u.usename c →
            owner = u.usename ∨ u.usesuper = true)) := by
  refine ⟨right_text_iff howner, fun htame hnames => ?_⟩
  rw [right_text_iff howner]
  refine and_congr_right fun _ => forall₂_congr fun u hu => ?_
  have hagree : Agree (aclCuts (acl.map (relaclText isLetter)))
      (heard isLetter false (acl.getD [])) u.usename := agree_list htame (hnames u hu)
  constructor
  · rintro ⟨hsub, hletters⟩
    rcases hagree with ⟨hnil, hnone⟩ | ⟨hslash, -⟩
    · refine ⟨hnone, fun c hc hgranted => ?_⟩
      have hhas := (hletters c hc).mpr (Or.inr (Or.inr hgranted))
      rw [hnil] at hhas
      exact hhas.resolve_left List.not_mem_nil
    · exact absurd (hsub hslash) (by decide)
  · rintro ⟨hnone, hgranted⟩
    rcases hagree with ⟨hnil, -⟩ | ⟨-, e, he, hreach⟩
    · rw [hnil]
      refine ⟨List.nil_subset _, fun c hc => ⟨?_, ?_⟩⟩
      · rintro (hmem | howns | hsuper)
        · exact absurd hmem List.not_mem_nil
        · exact Or.inl howns
        · exact Or.inr (Or.inl hsuper)
      · rintro (howns | hsuper | hgrant)
        · exact Or.inr (Or.inl howns)
        · exact Or.inr (Or.inr hsuper)
        · exact Or.inr (hgranted c hc hgrant)
    · exact absurd hreach (hnone e he)

end List

/-- The users `o` and `u`. -/
def twoUsers : Users where
  all := [⟨[0x6f], false⟩, ⟨[0x75], false⟩]
  nodup := by decide
  named := by simp

/-- `u=r/o`: the owner `o` lets `u` select. -/
def selectGrant : AclItem := ⟨.role [[0x75]], [⟨0x72, false, rfl⟩], [[0x6f]]⟩

/-- The owner's rows are right when nothing is granted. -/
theorem tablePrivileges_ungranted :
    (Right (PGAPI_TablePrivileges (fun _ => true) twoUsers.all [0x6f] none) twoUsers
      (Entitled (fun _ _ => false) [] [0x6f])) :=
  ((tablePrivileges_iff (fun _ => false) .utf8 (fun _ => true) (fun _ _ => false) twoUsers
    (List.cons_ne_nil 0x6f []) none).2 (by simp) (by simp [twoUsers])).mpr
    ⟨by simp [Answered, aclCuts], by simp [heard, Granted]⟩

/-- The list `{u=r/o}` gives the user `u` two rows without a privilege, for the slash and for the
letter of the grantor. -/
theorem selectGrant_not_right :
    ¬Right (PGAPI_TablePrivileges (fun _ => true) twoUsers.all [0x6f]
        (some (relaclText (fun _ => false) [selectGrant]))) twoUsers
      (Entitled (fun _ _ => false) [selectGrant] [0x6f]) := by
  have htext : relaclText (fun _ => false) [selectGrant] = ascii "\x7bu=r/o\x7d" := by decide
  have hrows : (PGAPI_TablePrivileges (fun _ => true) twoUsers.all [0x6f]
      (some (ascii "\x7bu=r/o\x7d"))).map (fun rs => rs.map fun r => (r.grantee, r.privilege)) =
      some [([0x6f], "INSERT"), ([0x6f], "SELECT"), ([0x6f], "UPDATE"), ([0x6f], "DELETE"),
        ([0x6f], "REFERENCES"), ([0x75], "SELECT"), ([0x75], ""), ([0x75], "")] := by decide
  rintro ⟨rs, hrs, hnodup, -⟩
  rw [htext] at hrs
  rw [hrs, Option.map_some] at hrows
  rw [Option.some.inj hrows] at hnodup
  exact absurd hnodup (by decide)

end OdbcDriver.Privileges
