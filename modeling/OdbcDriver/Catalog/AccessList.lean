import OdbcDriver.Server.ArrayText

/-!
# Access-control lists

The server writes the access-control list of a table as an array of entries
`grantee=letters/grantor`: a name is put in quotes where it has other characters than letters, digits
and underscores, and the entry of a group, on a server that tells groups from roles, begins with
`group `. The driver cuts the text up by itself. It takes what stands in front of `=` for the grantee
as it is, so that an entry in quotes is for nobody, and what stands behind it, up to the next comma,
for privileges: the slash and the grantor are among them.

* `nextEntry_separated`, `nextEntry_last`, `nextEntry_group`: what is cut out of a text;
* `reached_cons`, `Agree.cons`: the letters that reach a user, entry by entry.
-/

namespace OdbcDriver.Privileges

open Server (arrayOut elementText needsQuotes)

/-! ### The server's text -/

/-- A privilege in an entry, and whether it may be granted further. -/
structure Grant where
  letter : Byte
  grant_option : Bool
  isAlnum_letter : isAlnum letter

/-- Whom an entry is for. `group` is for the servers whose groups are no roles. -/
inductive Grantee
  | everyone
  | role (name : List Chr)
  | group (name : List Chr)

/-- `aclitem` -/
structure AclItem where
  grantee : Grantee
  privileges : List Grant
  grantor : List Chr

/-- A character that a name is not quoted for. `isLetter` is about the characters outside ASCII. -/
def safeChar (isLetter : Chr → Bool) : Chr → Bool
  | [b] => if b < 0x80 then isAlnum b || b = 0x5f else isLetter [b]
  | c => isLetter c

/-- A name between quotes. -/
def doubled (name : List Chr) : List Chr := name.flatMap fun c => if c = [0x22] then [c, c] else [c]

/-- `putid` -/
def putid (isLetter : Chr → Bool) (name : List Chr) : List Chr :=
  if name.all (safeChar isLetter) then name else [0x22] :: (doubled name ++ [[0x22]])

/-- The characters of an ASCII text. -/
def asciiChars (s : String) : List Chr := (ascii s).map ([·])

/-- What stands in front of the equals sign. -/
def granteeText (isLetter : Chr → Bool) : Grantee → List Chr
  | .everyone => []
  | .role name => putid isLetter name
  | .group name => asciiChars "group " ++ putid isLetter name

def privilegeText (g : Grant) : List Chr := [g.letter] :: if g.grant_option then [[0x2a]] else []

/-- What stands behind the equals sign. -/
def grantText (isLetter : Chr → Bool) (e : AclItem) : List Chr :=
  e.privileges.flatMap privilegeText ++ [0x2f] :: putid isLetter e.grantor

/-- `aclitemout` -/
def aclitemText (isLetter : Chr → Bool) (e : AclItem) : List Chr :=
  granteeText isLetter e.grantee ++ [0x3d] :: grantText isLetter e

/-- The server puts an entry in quotes. -/
def quoted (isLetter : Chr → Bool) (e : AclItem) : Bool := needsQuotes (aclitemText isLetter e)

/-- The text of `relacl`. -/
def relaclText (isLetter : Chr → Bool) (acl : List AclItem) : List Byte :=
  arrayOut (acl.map fun e => elementText (aclitemText isLetter e))

/-! ### Cutting it up -/

/-- What `strchr` finds is overwritten by a terminator: the string in front of it, and behind it. -/
def cutAt (c : Byte) : List Byte → Option (List Byte × List Byte)
  | [] => none
  | b :: s => if b = c then some ([], s) else (cutAt c s).map fun (front, behind) => (b :: front, behind)

/-- An entry as it is cut out of the text. -/
structure Cut where
  grpauth : Bool
  user : List Byte
  auth : List Byte
deriving DecidableEq

/-- One turn of the loop over `user`, and the text for the next one. Behind the quote that ends the
entry of a group one character is passed over: the list ends with a brace. -/
def nextEntry (user : List Byte) : Option (Cut × List Byte) :=
  let grpauth : Bool := user.take 7 = ascii "\"group "
  (cutAt 0x3d (if grpauth then user.drop 7 else user)).map fun (user, auth) =>
    if grpauth then
      match cutAt 0x22 auth with
      | some (auth, delim) => (⟨grpauth, user, auth⟩, delim.tail)
      | none => (⟨grpauth, user, auth⟩, [])
    else
      match cutAt 0x2c auth with
      | some (auth, delim) => (⟨grpauth, user, auth⟩, delim)
      | none =>
        match cutAt 0x7d auth with
        | some (auth, delim) => (⟨grpauth, user, auth⟩, delim)
        | none => (⟨grpauth, user, auth⟩, [])

/-- The entries of a text, in at most so many turns. -/
def cuts : ℕ → List Byte → List Cut
  | 0, _ => []
  | fuel + 1, user =>
    match nextEntry user with
    | none => []
    | some (entry, rest) => entry :: cuts fuel rest

/-- The entries of `acl`. -/
def aclCuts : Option (List Byte) → List Cut
  | some (0x7b :: user) => cuts user.length user
  | _ => []

/-! ### Rules for cutting -/

theorem cutAt_append {c : Byte} {a : List Byte} (h : c ∉ a) (b : List Byte) :
    cutAt c (a ++ c :: b) = some (a, b) := by
  induction a with
  | nil => simp [cutAt]
  | cons x a ih =>
    have hne : x ≠ c := fun hx => h (hx ▸ List.mem_cons_self)
    have hrest := ih fun hc => h (List.mem_cons_of_mem _ hc)
    rw [List.cons_append, cutAt, if_neg hne, hrest]
    rfl

theorem cutAt_none {c : Byte} {s : List Byte} (h : c ∉ s) : cutAt c s = none := by
  induction s with
  | nil => rfl
  | cons x s ih =>
    have hne : x ≠ c := fun hx => h (hx ▸ List.mem_cons_self)
    rw [cutAt, if_neg hne, ih fun hc => h (List.mem_cons_of_mem _ hc)]
    rfl

theorem length_of_cutAt {c : Byte} {s a b : List Byte} (h : cutAt c s = some (a, b)) :
    b.length < s.length := by
  induction s generalizing a with
  | nil => exact absurd h (by simp [cutAt])
  | cons x s ih =>
    rw [cutAt] at h
    split at h
    · obtain ⟨-, rfl⟩ := Prod.mk.inj (Option.some.inj h)
      exact Nat.lt_succ_self _
    · obtain ⟨⟨a', b'⟩, hcut, heq⟩ := Option.map_eq_some_iff.mp h
      obtain ⟨-, rfl⟩ := Prod.mk.inj heq
      exact Nat.lt_succ_of_lt (ih hcut)

/-- A turn leaves a shorter text. -/
theorem length_of_nextEntry {user rest : List Byte} {c : Cut} (h : nextEntry user = some (c, rest)) :
    rest.length < user.length := by
  simp only [nextEntry, Option.map_eq_some_iff] at h
  obtain ⟨⟨name, auth⟩, hname, h⟩ := h
  have hauth : auth.length < user.length := by
    refine (length_of_cutAt hname).trans_le ?_
    split
    · rw [List.length_drop]
      exact Nat.sub_le _ _
    · exact le_rfl
  have hdelim : ∀ {c : Byte} {a b : List Byte}, cutAt c auth = some (a, b) → b.length < user.length :=
    fun hcut => (length_of_cutAt hcut).trans hauth
  have hpos : 0 < user.length := by omega
  dsimp only at h
  split at h
  · split at h <;> obtain ⟨-, rfl⟩ := Prod.mk.inj h
    · rename_i hcut
      rw [List.length_tail]
      exact (Nat.sub_le _ _).trans_lt (hdelim hcut)
    · exact hpos
  · split at h
    · obtain ⟨-, rfl⟩ := Prod.mk.inj h
      rename_i hcut
      exact hdelim hcut
    · split at h <;> obtain ⟨-, rfl⟩ := Prod.mk.inj h
      · rename_i hcut
        exact hdelim hcut
      · exact hpos

theorem nextEntry_none {user : List Byte} (h : 0x3d ∉ user) : nextEntry user = none := by
  have hcut : cutAt 0x3d (if user.take 7 = ascii "\"group " then user.drop 7 else user) = none := by
    refine cutAt_none ?_
    split
    · exact fun hmem => h (List.mem_of_mem_drop hmem)
    · exact h
  simp only [nextEntry, decide_eq_true_eq, hcut, Option.map_none]

theorem nextEntry_separated {front back rest : List Byte} (hfront : 0x3d ∉ front)
    (hback : 0x2c ∉ back)
    (hgroup : (front ++ 0x3d :: (back ++ 0x2c :: rest)).take 7 ≠ ascii "\"group ") :
    nextEntry (front ++ 0x3d :: (back ++ 0x2c :: rest)) = some (⟨false, front, back⟩, rest) := by
  simp only [nextEntry, hgroup, decide_false, Bool.false_eq_true, if_false,
    cutAt_append hfront, Option.map_some, cutAt_append hback]

theorem nextEntry_last {front back : List Byte} (hfront : 0x3d ∉ front) (hback : 0x2c ∉ back)
    (hend : 0x3d ∉ back)
    (hgroup : (front ++ 0x3d :: (back ++ [0x7d])).take 7 ≠ ascii "\"group ") :
    ∃ rest, 0x3d ∉ rest ∧ nextEntry (front ++ 0x3d :: (back ++ [0x7d])) =
      some (⟨false, front, back.takeWhile (· ≠ 0x7d)⟩, rest) := by
  have hcomma : cutAt 0x2c (back ++ [0x7d]) = none := cutAt_none (by simp [hback])
  have hcut : cutAt 0x7d (back ++ [0x7d]) = some (back.takeWhile (· ≠ 0x7d),
      ((back ++ [0x7d]).dropWhile (· ≠ 0x7d)).tail) := by
    clear hback hend hgroup hcomma
    induction back with
    | nil => simp [cutAt]
    | cons x back ih =>
      by_cases hx : x = 0x7d
      · simp [cutAt, hx]
      · simp only [List.cons_append, cutAt, if_neg hx, ih, Option.map_some]
        simp [hx]
  refine ⟨((back ++ [0x7d]).dropWhile (· ≠ 0x7d)).tail, ?_, ?_⟩
  · intro hmem
    have := (List.dropWhile_sublist _).mem (List.mem_of_mem_tail hmem)
    simp [hend] at this
  · simp only [nextEntry, hgroup, decide_false, Bool.false_eq_true, if_false,
      cutAt_append hfront, Option.map_some, hcomma, hcut]

theorem nextEntry_group {name auth rest : List Byte} {x : Byte} (hname : 0x3d ∉ name)
    (hauth : 0x22 ∉ auth) :
    nextEntry (ascii "\"group " ++ (name ++ 0x3d :: (auth ++ 0x22 :: x :: rest))) =
      some (⟨true, name, auth⟩, rest) := by
  have hlength : (ascii "\"group ").length = 7 := by decide
  simp only [nextEntry, List.take_left' hlength, List.drop_left' hlength, decide_true, if_true,
    cutAt_append hname, Option.map_some, cutAt_append hauth, List.tail_cons]

/-! ### What reaches a user -/

/-- The letters that the entries hand to a user: those in its name, and those in no name. -/
def reached (entries : List Cut) (user : List Byte) : List Byte :=
  (entries.filter fun c => !c.grpauth && (c.user = [] || c.user = user)).flatMap Cut.auth

/-- An entry for everyone, or in the user's name. -/
def AclItem.Reaches (e : AclItem) (user : List Byte) : Prop :=
  match e.grantee with
  | .everyone => True
  | .role name => name.flatten = user
  | .group _ => False

def AclItem.isGroup (e : AclItem) : Bool :=
  match e.grantee with
  | .group _ => true
  | _ => false

/-- The entries that the driver hears: those without quotes, unless the entry in front is that of a
group whose grantor has a name in quotes. -/
def heard (isLetter : Chr → Bool) : Bool → List AclItem → List AclItem
  | _, [] => []
  | true, _ :: es => heard isLetter false es
  | false, e :: es =>
    if e.isGroup then heard isLetter (!e.grantor.all (safeChar isLetter)) es
    else if quoted isLetter e then heard isLetter false es
    else e :: heard isLetter false es

theorem reached_cons (c : Cut) (entries : List Cut) (user : List Byte) :
    reached (c :: entries) user =
      (if c.grpauth = false ∧ (c.user = [] ∨ c.user = user) then c.auth else []) ++
        reached entries user := by
  by_cases h : c.grpauth = false ∧ (c.user = [] ∨ c.user = user)
  · simp [reached, h]
  · rw [if_neg h]
    simp only [reached, List.filter_cons]
    rw [if_neg (by simpa using h)]
    rfl

/-- What reaches the user is nothing or has a slash in it, like the entries that are heard. -/
def Agree (entries : List Cut) (es : List AclItem) (user : List Byte) : Prop :=
  (reached entries user = [] ∧ ∀ e ∈ es, ¬e.Reaches user) ∨
    (0x2f ∈ reached entries user ∧ ∃ e ∈ es, e.Reaches user)

theorem Agree.passed {entries : List Cut} {es : List AclItem} {user : List Byte} {c : Cut}
    (h : Agree entries es user) (hmiss : ¬(c.grpauth = false ∧ (c.user = [] ∨ c.user = user))) :
    Agree (c :: entries) es user := by
  rw [Agree, reached_cons, if_neg hmiss, List.nil_append]
  exact h

theorem Agree.cons {entries : List Cut} {es : List AclItem} {user : List Byte} {c : Cut}
    {e : AclItem} (h : Agree entries es user)
    (hiff : c.grpauth = false ∧ (c.user = [] ∨ c.user = user) ↔ e.Reaches user)
    (hslash : 0x2f ∈ c.auth) : Agree (c :: entries) (e :: es) user := by
  rw [Agree, reached_cons]
  by_cases hreach : e.Reaches user
  · refine Or.inr ⟨?_, e, List.mem_cons_self, hreach⟩
    rw [if_pos (hiff.mpr hreach)]
    exact List.mem_append_left _ hslash
  · rw [if_neg (mt hiff.mp hreach), List.nil_append]
    rcases h with ⟨hnil, hnone⟩ | ⟨hmem, e', he', hreach'⟩
    · refine Or.inl ⟨hnil, ?_⟩
      intro e' he'
      rcases List.mem_cons.mp he' with rfl | he'
      · exact hreach
      · exact hnone e' he'
    · exact Or.inr ⟨hmem, e', List.mem_cons_of_mem _ he', hreach'⟩

end OdbcDriver.Privileges
