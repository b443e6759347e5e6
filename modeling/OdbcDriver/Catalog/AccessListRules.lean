import OdbcDriver.Catalog.AccessList

/-!
# Entries that are heard

For names without quotes, commas and equals signs in them, the driver stands at the beginning of each
entry in turn, but for the one behind a group whose grantor has a name in quotes. It reads the grantee
of an entry without quotes; that of an entry in quotes is nobody's name.

* `elementText_aclitemText`: an entry, in two parts around its equals sign;
* `front_read`, `front_no_group`, `slash_mem_back`: what the parts have and have not in them;
* `nextEntry_front_group`, `nextEntry_leftover`: the two ways behind the entry of a group;
* `cuts_heard`: the entries that reach a user are those that are heard.
-/

namespace OdbcDriver.Privileges

open Server (elementText escapedChar follow follow_cons follow_nil isDelimiter joined
  mem_of_mem_flatten needsQuotes)

/-! ### Names without delimiters -/

/-- A name of characters, without quotes, commas and equals signs among its bytes. -/
structure Tame (ccsc : Ccsc) (name : List Chr) : Prop where
  wellFormed : WellFormed ccsc name
  ne_nil : name ≠ []
  undelimited : ∀ b ∈ name.flatten, b ≠ 0x22 ∧ b ≠ 0x2c ∧ b ≠ 0x3d

/-- The names in an entry. -/
def AclItem.names (e : AclItem) : List (List Chr) :=
  match e.grantee with
  | .everyone => [e.grantor]
  | .role name | .group name => [name, e.grantor]

variable {isLetter : Chr → Bool} {ccsc : Ccsc} {b : Byte}

theorem mem_doubled {name : List Chr} (h : b ∈ (doubled name).flatten) : b ∈ name.flatten := by
  obtain ⟨c, hc, hb⟩ := List.mem_flatten.mp h
  obtain ⟨c', hc', hcc⟩ := List.mem_flatMap.mp hc
  obtain rfl : c = c' := by
    split at hcc <;> simpa using hcc
  exact List.mem_flatten.mpr ⟨c, hc', hb⟩

theorem mem_putid {name : List Chr} (h : b ∈ (putid isLetter name).flatten) :
    b ∈ name.flatten ∨ b = 0x22 := by
  rw [putid] at h
  split at h
  · exact Or.inl h
  · simp only [List.flatten_cons, List.flatten_append, List.mem_append, List.mem_singleton,
      List.flatten_nil, List.append_nil] at h
    rcases h with h | h | h
    · exact Or.inr h
    · exact Or.inl (mem_doubled h)
    · exact Or.inr h

theorem mem_escaped {cs : List Chr} (h : b ∈ cs.flatMap escapedChar) : b ∈ cs.flatten ∨ b = 0x5c := by
  obtain ⟨c, hc, hb⟩ := List.mem_flatMap.mp h
  rw [escapedChar] at hb
  split at hb
  · rcases List.mem_cons.mp hb with rfl | hb
    · exact Or.inr rfl
    · exact Or.inl (List.mem_flatten.mpr ⟨c, hc, hb⟩)
  · exact Or.inl (List.mem_flatten.mpr ⟨c, hc, hb⟩)

theorem mem_privileges {ps : List Grant} (h : b ∈ (ps.flatMap privilegeText).flatten) :
    isAlnum b = true ∨ b = 0x2a := by
  obtain ⟨c, hc, hb⟩ := List.mem_flatten.mp h
  obtain ⟨g, -, hg⟩ := List.mem_flatMap.mp hc
  rcases List.mem_cons.mp hg with rfl | hg
  · obtain rfl := List.mem_singleton.mp hb
    exact Or.inl g.isAlnum_letter
  · split at hg
    · obtain rfl := List.mem_singleton.mp hg
      exact Or.inr (List.mem_singleton.mp hb)
    · exact absurd hg List.not_mem_nil

/-- No letter is a delimiter. -/
theorem privilege_ne {ps : List Grant} (h : b ∈ (ps.flatMap privilegeText).flatten) :
    b ≠ 0x22 ∧ b ≠ 0x2c ∧ b ≠ 0x3d ∧ b ≠ 0x7d ∧ b ≠ 0x5c := by
  rcases mem_privileges h with h | rfl
  · refine ⟨?_, ?_, ?_, ?_, ?_⟩ <;> rintro rfl <;> exact absurd h (by decide)
  · decide

/-! ### An entry in two parts -/

/-- An entry of the array up to its equals sign. -/
def front (isLetter : Chr → Bool) (e : AclItem) : List Byte :=
  if quoted isLetter e then 0x22 :: (granteeText isLetter e.grantee).flatMap escapedChar
  else (granteeText isLetter e.grantee).flatten

/-- An entry of the array behind its equals sign. -/
def back (isLetter : Chr → Bool) (e : AclItem) : List Byte :=
  if quoted isLetter e then (grantText isLetter e).flatMap escapedChar ++ [0x22]
  else (grantText isLetter e).flatten

theorem elementText_aclitemText (e : AclItem) :
    elementText (aclitemText isLetter e) = front isLetter e ++ 0x3d :: back isLetter e := by
  have hequals : escapedChar [0x3d] = [0x3d] := by decide
  rw [elementText, front, back, ← quoted]
  split
  · simp [aclitemText, hequals]
  · simp [aclitemText]

/-- The names of an entry are tame. -/
def AclItem.Tame (ccsc : Ccsc) (e : AclItem) : Prop := ∀ name ∈ e.names, Privileges.Tame ccsc name

theorem AclItem.Tame.grantor {e : AclItem} (h : e.Tame ccsc) : Privileges.Tame ccsc e.grantor := by
  refine h _ ?_
  rw [AclItem.names]
  split <;> simp

theorem mem_granteeText {e : AclItem} (h : e.Tame ccsc)
    (hb : b ∈ (granteeText isLetter e.grantee).flatten) : b ≠ 0x2c ∧ b ≠ 0x3d := by
  have hname : ∀ name ∈ e.names, b ∈ (putid isLetter name).flatten → b ≠ 0x2c ∧ b ≠ 0x3d := by
    intro name hmem hb
    rcases mem_putid hb with hb | rfl
    · exact ((h name hmem).undelimited b hb).2
    · decide
  cases hgrantee : e.grantee with
  | everyone =>
    rw [hgrantee] at hb
    exact absurd hb List.not_mem_nil
  | role name =>
    rw [hgrantee] at hb
    exact hname name (by simp [AclItem.names, hgrantee]) hb
  | group name =>
    rw [hgrantee, granteeText, List.flatten_append, List.mem_append] at hb
    rcases hb with hb | hb
    · have hascii : (asciiChars "group ").flatten = [0x67, 0x72, 0x6f, 0x75, 0x70, 0x20] := by decide
      rw [hascii] at hb
      constructor <;> rintro rfl <;> exact absurd hb (by decide)
    · exact hname name (by simp [AclItem.names, hgrantee]) hb

theorem mem_grantText {e : AclItem} (h : e.Tame ccsc) (hb : b ∈ (grantText isLetter e).flatten) :
    b ≠ 0x2c ∧ b ≠ 0x3d := by
  simp only [grantText, List.flatten_append, List.flatten_cons, List.mem_append,
    List.mem_singleton] at hb
  rcases hb with hb | rfl | hb
  · exact ⟨(privilege_ne hb).2.1, (privilege_ne hb).2.2.1⟩
  · decide
  · rcases mem_putid hb with hb | rfl
    · exact (h.grantor.undelimited b hb).2
    · decide

theorem not_mem_front {e : AclItem} (h : e.Tame ccsc) : 0x3d ∉ front isLetter e := by
  intro hmem
  rw [front] at hmem
  split at hmem
  · rcases List.mem_cons.mp hmem with heq | hmem
    · exact absurd heq (by decide)
    · rcases mem_escaped hmem with hmem | heq
      · exact (mem_granteeText h hmem).2 rfl
      · exact absurd heq (by decide)
  · exact (mem_granteeText h hmem).2 rfl

theorem not_mem_back {e : AclItem} (h : e.Tame ccsc) :
    0x2c ∉ back isLetter e ∧ 0x3d ∉ back isLetter e := by
  have hback : ∀ b ∈ back isLetter e, b ≠ 0x2c ∧ b ≠ 0x3d := by
    intro b hb
    rw [back] at hb
    split at hb
    · rcases List.mem_append.mp hb with hb | hb
      · rcases mem_escaped hb with hb | rfl
        · exact mem_grantText h hb
        · decide
      · obtain rfl := List.mem_singleton.mp hb
        decide
    · exact mem_grantText h hb
  exact ⟨fun hmem => (hback _ hmem).1 rfl, fun hmem => (hback _ hmem).2 rfl⟩

/-- The letters of an entry without quotes end in a slash. -/
theorem slash_mem_back {e : AclItem} (hquoted : quoted isLetter e = false) :
    0x2f ∈ (back isLetter e).takeWhile (· ≠ 0x7d) := by
  have hletters : ∀ b ∈ (e.privileges.flatMap privilegeText).flatten ++ [0x2f],
      decide (b ≠ (0x7d : Byte)) = true := by
    intro b hb
    rcases List.mem_append.mp hb with hb | hb
    · exact decide_eq_true (privilege_ne hb).2.2.2.1
    · obtain rfl := List.mem_singleton.mp hb
      rfl
  have hback : back isLetter e = (e.privileges.flatMap privilegeText).flatten ++ [0x2f] ++
      (putid isLetter e.grantor).flatten := by
    simp [back, hquoted, grantText]
  rw [hback, List.takeWhile_append_of_pos hletters]
  simp

theorem quoted_of_mem {e : AclItem} {c : Chr} (hmem : c ∈ aclitemText isLetter e)
    (hdelim : isDelimiter c = true) : quoted isLetter e = true := by
  simp only [quoted, needsQuotes, Bool.or_eq_true]
  exact Or.inr (List.any_eq_true.mpr ⟨c, hmem, hdelim⟩)

theorem front_quoted {e : AclItem} (hquoted : quoted isLetter e = true) :
    0x22 ∈ front isLetter e := by
  rw [front, if_pos hquoted]
  exact List.mem_cons_self

theorem flatten_ne_nil {name : List Chr} (h : Tame ccsc name) : name.flatten ≠ [] := by
  obtain ⟨c, name', rfl⟩ := List.exists_cons_of_ne_nil h.ne_nil
  intro hnil
  have hc : c = [] := (List.append_eq_nil_iff.mp hnil).1
  exact absurd (h.wellFormed c List.mem_cons_self) (by simp [hc, isChar])

/-- Without quotes, the driver reads the grantee. -/
theorem front_read {e : AclItem} (h : e.Tame ccsc) (hgroup : e.isGroup = false)
    (hquoted : quoted isLetter e = false) :
    0x22 ∉ front isLetter e ∧
      ∀ user, front isLetter e = [] ∨ front isLetter e = user ↔ e.Reaches user := by
  cases hgrantee : e.grantee with
  | everyone => simp [front, hquoted, hgrantee, granteeText, AclItem.Reaches]
  | group name => simp [AclItem.isGroup, hgrantee] at hgroup
  | role name =>
    have htame : Tame ccsc name := h name (by simp [AclItem.names, hgrantee])
    have hput : putid isLetter name = name := by
      by_contra hne
      have hquote : [0x22] ∈ aclitemText isLetter e := by
        rw [putid] at hne
        split at hne
        · exact absurd rfl hne
        · rename_i hunsafe
          simp [aclitemText, hgrantee, granteeText, putid, hunsafe]
      rw [quoted_of_mem hquote rfl] at hquoted
      exact Bool.noConfusion hquoted
    have hfront : front isLetter e = name.flatten := by
      simp [front, hquoted, hgrantee, granteeText, hput]
    rw [hfront]
    refine ⟨fun hmem => (htame.undelimited _ hmem).1 rfl, fun user => ?_⟩
    simp only [AclItem.Reaches, hgrantee, flatten_ne_nil htame, false_or]

/-! ### No group -/

theorem take_group {a y : List Byte} (h : ¬ascii "\"group " <+: a) :
    (a ++ 0x3d :: y).take 7 ≠ ascii "\"group " := by
  intro htake
  have hle : ascii "\"group " <+: a ++ 0x3d :: y := htake ▸ List.take_prefix _ _
  have hlength : (ascii "\"group ").length = 7 := by decide
  by_cases hshort : (ascii "\"group ").length ≤ a.length
  · exact h (List.prefix_of_prefix_length_le hle (List.prefix_append _ _) hshort)
  · have hequals : a ++ [0x3d] <+: a ++ 0x3d :: y := ⟨y, by simp⟩
    have hbefore : a ++ [0x3d] <+: ascii "\"group " :=
      List.prefix_of_prefix_length_le hequals hle (by rw [List.length_append]; simp; omega)
    exact absurd (hbefore.subset (List.mem_append_right a List.mem_cons_self)) (by decide)

/-- An entry that is not for a group does not begin like one. -/
theorem front_no_group {e : AclItem} (h : e.Tame ccsc) (hgroup : e.isGroup = false) :
    ¬ascii "\"group " <+: front isLetter e := by
  intro hbegins
  have hbytes : ascii "\"group " = 0x22 :: [0x67, 0x72, 0x6f, 0x75, 0x70, 0x20] := by decide
  rw [hbytes] at hbegins
  by_cases hquoted : quoted isLetter e = true
  · rw [front, if_pos hquoted, List.cons_prefix_cons] at hbegins
    obtain ⟨-, hbegins⟩ := hbegins
    cases hgrantee : e.grantee with
    | everyone => simp [hgrantee, granteeText] at hbegins
    | group name => simp [AclItem.isGroup, hgrantee] at hgroup
    | role name =>
      have htame : Tame ccsc name := h name (by simp [AclItem.names, hgrantee])
      rw [hgrantee, granteeText, putid] at hbegins
      split at hbegins
      -- a name without quotes has no blank
      · rename_i hsafe
        have hblank : 0x20 ∈ name.flatMap escapedChar := hbegins.subset (by decide)
        rcases mem_escaped hblank with hblank | heq
        · have hchar := mem_of_mem_flatten htame.wellFormed hblank (by decide)
          exact absurd (List.all_eq_true.mp hsafe _ hchar) (by simp [safeChar, isAlnum, isDigit])
        · exact absurd heq (by decide)
      · have hquote : escapedChar [0x22] = [0x5c, 0x22] := by decide
        rw [List.flatMap_cons, hquote, List.cons_append, List.cons_prefix_cons] at hbegins
        exact absurd hbegins.1 (by decide)
  · rw [Bool.not_eq_true] at hquoted
    exact (front_read h hgroup hquoted).1 (hbegins.subset List.mem_cons_self)

/-! ### Groups -/

theorem escaped_eq {cs : List Chr} (h : ∀ c ∈ cs, c ≠ [0x22] ∧ c ≠ [0x5c]) :
    cs.flatMap escapedChar = cs.flatten := by
  induction cs with
  | nil => rfl
  | cons c cs ih =>
    have hc := h c List.mem_cons_self
    have hrest := ih fun c' hc' => h c' (List.mem_cons_of_mem _ hc')
    rw [List.flatMap_cons, hrest, escapedChar, if_neg (not_or.mpr hc), List.flatten_cons]

theorem quoted_group {e : AclItem} {name : List Chr} (hgrantee : e.grantee = .group name) :
    quoted isLetter e = true := by
  have hblank : [0x20] ∈ asciiChars "group " := by decide
  refine quoted_of_mem (c := [0x20]) ?_ (by decide)
  simp [aclitemText, hgrantee, granteeText, hblank]

theorem front_group {e : AclItem} {name : List Chr} (hgrantee : e.grantee = .group name) :
    front isLetter e = ascii "\"group " ++ (putid isLetter name).flatMap escapedChar := by
  have hascii : (0x22 : Byte) :: (asciiChars "group ").flatMap escapedChar = ascii "\"group " := by
    decide
  rw [front, if_pos (quoted_group hgrantee), hgrantee, granteeText, List.flatMap_append,
    ← hascii, List.cons_append]

theorem back_group {e : AclItem} {name : List Chr} (hgrantee : e.grantee = .group name) :
    back isLetter e = (e.privileges.flatMap privilegeText).flatten ++
      0x2f :: ((putid isLetter e.grantor).flatMap escapedChar ++ [0x22]) := by
  have hletters : (e.privileges.flatMap privilegeText).flatMap escapedChar =
      (e.privileges.flatMap privilegeText).flatten := by
    refine escaped_eq fun c hc => ?_
    constructor <;> rintro rfl
    · exact (privilege_ne (List.mem_flatten.mpr ⟨_, hc, List.mem_cons_self⟩)).1 rfl
    · exact (privilege_ne (List.mem_flatten.mpr ⟨_, hc, List.mem_cons_self⟩)).2.2.2.2 rfl
  have hslash : escapedChar [0x2f] = [0x2f] := by decide
  rw [back, if_pos (quoted_group hgrantee), grantText, List.flatMap_append, hletters,
    List.flatMap_cons, hslash]
  simp

/-- What is left of an entry when the quote inside it was taken for its end. -/
structure Leftover (junk : List Byte) : Prop where
  not_mem : 0x3d ∉ junk
  mem : 0x22 ∈ junk
  ne_nil : junk ≠ []
  head_ne : junk.head? ≠ some 0x22

/-- A letter of an entry is no quote, and a group's name has no equals sign. -/
theorem group_bytes {e : AclItem} {name : List Chr} (h : e.Tame ccsc)
    (hgrantee : e.grantee = .group name) :
    0x3d ∉ (putid isLetter name).flatMap escapedChar ∧
      0x22 ∉ (e.privileges.flatMap privilegeText).flatten := by
  constructor
  · intro hmem
    have hfront : 0x3d ∉ front isLetter e := not_mem_front h
    rw [front_group hgrantee] at hfront
    exact hfront (List.mem_append_right _ hmem)
  · exact fun hmem => (privilege_ne hmem).1 rfl

/-- Behind the entry of a group the driver stands at the next entry. -/
theorem nextEntry_front_group {e : AclItem} {name : List Chr} (h : e.Tame ccsc)
    (hgrantee : e.grantee = .group name) (hsafe : e.grantor.all (safeChar isLetter) = true)
    {x : Byte} (rest : List Byte) :
    ∃ c : Cut, c.grpauth = true ∧
      nextEntry (front isLetter e ++ 0x3d :: (back isLetter e ++ x :: rest)) = some (c, rest) := by
  obtain ⟨hname, hletters⟩ := @group_bytes isLetter ccsc e name h hgrantee
  have hauth : 0x22 ∉ (e.privileges.flatMap privilegeText).flatten ++
      0x2f :: (putid isLetter e.grantor).flatMap escapedChar := by
    intro hmem
    rcases List.mem_append.mp hmem with hmem | hmem
    · exact hletters hmem
    · rcases List.mem_cons.mp hmem with heq | hmem
      · exact absurd heq (by decide)
      · rw [putid, if_pos hsafe] at hmem
        rcases mem_escaped hmem with hmem | heq
        · exact (h.grantor.undelimited _ hmem).1 rfl
        · exact absurd heq (by decide)
  have hnext := @nextEntry_group _ _ rest x hname hauth
  refine ⟨⟨true, _, _⟩, rfl, Eq.trans ?_ hnext⟩
  rw [front_group hgrantee, back_group hgrantee]
  simp only [List.append_assoc, List.cons_append, List.nil_append]

/-- Where the grantor's name is in quotes, the driver stands inside the entry still. -/
theorem nextEntry_leftover {e : AclItem} {name : List Chr} (h : e.Tame ccsc)
    (hgrantee : e.grantee = .group name) (hsafe : e.grantor.all (safeChar isLetter) = false)
    (rest : List Byte) :
    ∃ c : Cut, ∃ junk, c.grpauth = true ∧ Leftover junk ∧
      nextEntry (front isLetter e ++ 0x3d :: (back isLetter e ++ rest)) = some (c, junk ++ rest) := by
  obtain ⟨hname, hletters⟩ := @group_bytes isLetter ccsc e name h hgrantee
  have hbytes : ∀ b ∈ (doubled e.grantor).flatMap escapedChar, b ≠ 0x22 ∧ b ≠ 0x3d := by
    intro b hb
    rcases mem_escaped hb with hb | rfl
    · have := h.grantor.undelimited b (mem_doubled hb)
      exact ⟨this.1, this.2.2⟩
    · decide
  have hne : (doubled e.grantor).flatMap escapedChar ≠ [] := by
    intro hnil
    obtain ⟨x, hx⟩ := List.exists_mem_of_ne_nil _ (flatten_ne_nil h.grantor)
    obtain ⟨c, hc, hxc⟩ := List.mem_flatten.mp hx
    have hdoubled : c ∈ doubled e.grantor := by
      refine List.mem_flatMap.mpr ⟨c, hc, ?_⟩
      split <;> simp
    have hnone := List.flatMap_eq_nil_iff.mp hnil c hdoubled
    rw [escapedChar] at hnone
    split at hnone
    · exact absurd hnone (List.cons_ne_nil _ _)
    · rw [hnone] at hxc
      exact absurd hxc List.not_mem_nil
  obtain ⟨x, grantor, hgrantor⟩ := List.exists_cons_of_ne_nil hne
  rw [hgrantor] at hbytes
  have hput : (putid isLetter e.grantor).flatMap escapedChar =
      0x5c :: 0x22 :: (x :: grantor ++ [0x5c, 0x22]) := by
    have hquote : escapedChar [0x22] = [0x5c, 0x22] := by decide
    rw [putid, if_neg (by rw [hsafe]; exact Bool.false_ne_true), List.flatMap_cons,
      List.flatMap_append, hgrantor, hquote]
    simp [hquote]
  have hauth : 0x22 ∉ (e.privileges.flatMap privilegeText).flatten ++ [0x2f, 0x5c] := by
    intro hmem
    rcases List.mem_append.mp hmem with hmem | hmem
    · exact hletters hmem
    · exact absurd hmem (by decide)
  have hnext := @nextEntry_group _ _ (grantor ++ [0x5c, 0x22, 0x22] ++ rest) x hname hauth
  refine ⟨⟨true, _, _⟩, grantor ++ [0x5c, 0x22, 0x22], rfl, ⟨?_, ?_, ?_, ?_⟩, Eq.trans ?_ hnext⟩
  · intro hmem
    rcases List.mem_append.mp hmem with hmem | hmem
    · exact (hbytes _ (List.mem_cons_of_mem _ hmem)).2 rfl
    · exact absurd hmem (by decide)
  · simp
  · simp
  · cases grantor with
    | nil => decide
    | cons y grantor => simpa using (hbytes y (by simp)).1
  · rw [front_group hgrantee, back_group hgrantee, hput]
    simp only [List.append_assoc, List.cons_append, List.nil_append]

/-! ### What is heard -/

/-- Where the driver stands in the text, with so many entries in front of it. -/
inductive Stands (ts : List (List Byte)) : Bool → List Byte → Prop
  | next : Stands ts false (joined 0x2c [0x7d] ts)
  | inside {junk : List Byte} (h : Leftover junk) :
      Stands ts true (junk ++ follow 0x2c [0x7d] ts)

theorem cuts_eq_nil {text : List Byte} (h : 0x3d ∉ text) (fuel : ℕ) : cuts fuel text = [] := by
  cases fuel with
  | zero => rfl
  | succ fuel => rw [cuts, nextEntry_none h]

theorem length_joined_le (ts : List (List Byte)) :
    (joined 0x2c [0x7d] ts).length ≤ (follow 0x2c [0x7d] ts).length := by
  cases ts with
  | nil => exact le_rfl
  | cons t ts =>
    rw [follow_cons, List.length_cons]
    omega

/-- An entry that is not taken for that of a group is passed over up to the next one. -/
theorem cuts_cut {a z : List Byte} (ha : 0x3d ∉ a) (hz : 0x2c ∉ z ∧ 0x3d ∉ z)
    (hgroup : ¬ascii "\"group " <+: a) (ts : List (List Byte)) (fuel : ℕ) :
    ∃ auth, (auth = z ∨ auth = z.takeWhile (· ≠ 0x7d)) ∧
      cuts (fuel + 1) (a ++ 0x3d :: (z ++ follow 0x2c [0x7d] ts)) =
        ⟨false, a, auth⟩ :: cuts fuel (joined 0x2c [0x7d] ts) := by
  cases ts with
  | nil =>
    obtain ⟨rest, hrest, hnext⟩ := nextEntry_last ha hz.1 hz.2 (take_group hgroup)
    refine ⟨_, Or.inr rfl, ?_⟩
    rw [follow_nil, cuts, hnext]
    show _ :: cuts fuel rest = _
    rw [cuts_eq_nil hrest, cuts_eq_nil (by decide)]
  | cons t ts =>
    refine ⟨z, Or.inl rfl, ?_⟩
    rw [follow_cons, cuts, nextEntry_separated ha hz.1 (take_group hgroup)]

/-- The texts of the entries. -/
def entryTexts (isLetter : Chr → Bool) (acl : List AclItem) : List (List Byte) :=
  acl.map fun e => elementText (aclitemText isLetter e)

/-- Wherever the driver stands, it cuts out what is heard. -/
def Heard (isLetter : Chr → Bool) (acl : List AclItem) (user : List Byte) : Prop :=
  ∀ {inside : Bool} {text : List Byte} {fuel : ℕ}, Stands (entryTexts isLetter acl) inside text →
    text.length ≤ fuel → Agree (cuts fuel text) (heard isLetter inside acl) user

theorem agree_nil (inside : Bool) (user : List Byte) : Agree [] (heard isLetter inside []) user := by
  refine Or.inl ⟨rfl, ?_⟩
  cases inside <;> exact fun e he => absurd he List.not_mem_nil

theorem heard_nil (user : List Byte) : Heard isLetter [] user := by
  intro inside text fuel hstands _
  rw [cuts_eq_nil ?_ fuel]
  · exact agree_nil inside user
  · cases hstands with
    | next => simp [entryTexts, joined]
    | inside hleft =>
      intro hmem
      rcases List.mem_append.mp hmem with hmem | hmem
      · exact hleft.not_mem hmem
      · simp [entryTexts, follow] at hmem

section Entry

variable {user : List Byte} {e : AclItem} {es : List AclItem} {fuel : ℕ}

/-- The entry of a group, at its beginning. -/
theorem heard_group (ih : Heard isLetter es user) (he : e.Tame ccsc) (hgroup : e.isGroup = true)
    (hfuel : (front isLetter e ++ 0x3d :: (back isLetter e ++
      follow 0x2c [0x7d] (entryTexts isLetter es))).length ≤ fuel + 1) :
    Agree (cuts (fuel + 1) (front isLetter e ++ 0x3d :: (back isLetter e ++
      follow 0x2c [0x7d] (entryTexts isLetter es)))) (heard isLetter false (e :: es)) user := by
  obtain ⟨name, hgrantee⟩ : ∃ name, e.grantee = .group name := by
    cases hgrantee : e.grantee <;> simp [AclItem.isGroup, hgrantee] at hgroup ⊢
  rw [heard, if_pos hgroup]
  by_cases hsafe : e.grantor.all (safeChar isLetter) = true
  · rw [hsafe]
    cases es with
    | nil =>
      obtain ⟨c, hc, hnext⟩ := @nextEntry_front_group _ _ _ _ he hgrantee hsafe 0x7d []
      have hcuts : cuts (fuel + 1) (front isLetter e ++ 0x3d :: (back isLetter e ++ [0x7d])) = [c] := by
        rw [cuts, hnext]
        show c :: cuts fuel [] = [c]
        rw [cuts_eq_nil List.not_mem_nil]
      rw [show follow 0x2c [0x7d] (entryTexts isLetter []) = [0x7d] from rfl, hcuts]
      exact (agree_nil false user).passed (by simp [hc])
    | cons e' es =>
      have hfollow : follow 0x2c [0x7d] (entryTexts isLetter (e' :: es)) =
          0x2c :: joined 0x2c [0x7d] (entryTexts isLetter (e' :: es)) := follow_cons _ _ _ _
      rw [hfollow] at hfuel ⊢
      obtain ⟨c, hc, hnext⟩ := @nextEntry_front_group _ _ _ _ he hgrantee hsafe 0x2c
        (joined 0x2c [0x7d] (entryTexts isLetter (e' :: es)))
      have hshort := length_of_nextEntry hnext
      rw [cuts, hnext]
      exact (ih .next (by omega)).passed (by simp [hc])
  · rw [Bool.not_eq_true] at hsafe
    obtain ⟨c, junk, hc, hleft, hnext⟩ :=
      nextEntry_leftover he hgrantee hsafe (follow 0x2c [0x7d] (entryTexts isLetter es))
    have hshort := length_of_nextEntry hnext
    rw [cuts, hnext, hsafe]
    exact (ih (.inside hleft) (by omega)).passed (by simp [hc])

/-- An entry that is cut as one of no group, of which `a` is taken for the grantee. -/
theorem heard_cut (ih : Heard isLetter es user) (he : e.Tame ccsc) {a : List Byte}
    (ha : 0x3d ∉ a) (hgroup : ¬ascii "\"group " <+: a)
    (hfuel : (a ++ 0x3d :: (back isLetter e ++
      follow 0x2c [0x7d] (entryTexts isLetter es))).length ≤ fuel + 1) :
    ∃ auth entries, (auth = back isLetter e ∨ auth = (back isLetter e).takeWhile (· ≠ 0x7d)) ∧
      Agree entries (heard isLetter false es) user ∧
      cuts (fuel + 1) (a ++ 0x3d :: (back isLetter e ++
        follow 0x2c [0x7d] (entryTexts isLetter es))) = ⟨false, a, auth⟩ :: entries := by
  obtain ⟨auth, hauth, hcuts⟩ := cuts_cut ha (not_mem_back he) hgroup (entryTexts isLetter es) fuel
  refine ⟨auth, _, hauth, ih .next ?_, hcuts⟩
  have hlength := length_joined_le (entryTexts isLetter es)
  simp only [List.length_append, List.length_cons] at hfuel
  omega

/-- A grantee with a quote in it is nobody. -/
theorem not_hit {a auth : List Byte} (huser : 0x22 ∉ user) (hquote : 0x22 ∈ a) :
    ¬((⟨false, a, auth⟩ : Cut).grpauth = false ∧ (a = [] ∨ a = user)) := by
  rintro ⟨-, rfl | rfl⟩
  · exact absurd hquote List.not_mem_nil
  · exact huser hquote

theorem heard_cons (ih : Heard isLetter es user) (huser : 0x22 ∉ user) (he : e.Tame ccsc) :
    Heard isLetter (e :: es) user := by
  intro inside text fuel hstands hfuel
  have htexts : entryTexts isLetter (e :: es) =
      (front isLetter e ++ 0x3d :: back isLetter e) :: entryTexts isLetter es := by
    rw [entryTexts, List.map_cons, elementText_aclitemText, ← entryTexts]
  rw [htexts] at hstands
  obtain ⟨fuel, rfl⟩ : ∃ n, fuel = n + 1 := by
    refine Nat.exists_eq_succ_of_ne_zero ?_
    rintro rfl
    obtain rfl := List.length_eq_zero_iff.mp (Nat.le_zero.mp hfuel)
    generalize hnil : ([] : List Byte) = text at hstands
    cases hstands <;> simp [joined, follow_cons] at hnil
  cases hstands with
  | next =>
    rw [joined, List.append_assoc, List.cons_append] at hfuel ⊢
    by_cases hgroup : e.isGroup = true
    · exact heard_group ih he hgroup hfuel
    · rw [heard, if_neg hgroup]
      rw [Bool.not_eq_true] at hgroup
      obtain ⟨auth, entries, hauth, hrest, hcuts⟩ :=
        heard_cut ih he (not_mem_front he) (front_no_group he hgroup) hfuel
      rw [hcuts]
      by_cases hquoted : quoted isLetter e = true
      · rw [if_pos hquoted]
        exact hrest.passed (not_hit huser (front_quoted hquoted))
      · rw [if_neg hquoted]
        rw [Bool.not_eq_true] at hquoted
        have hiff := (front_read he hgroup hquoted).2 user
        refine hrest.cons (by simpa using hiff) ?_
        have hslash := slash_mem_back hquoted
        rcases hauth with rfl | rfl
        · exact (List.takeWhile_sublist _).mem hslash
        · exact hslash
  | @inside junk hleft =>
    have htext : junk ++ follow 0x2c [0x7d] ((front isLetter e ++ 0x3d :: back isLetter e) ::
        entryTexts isLetter es) = (junk ++ 0x2c :: front isLetter e) ++ 0x3d :: (back isLetter e ++
          follow 0x2c [0x7d] (entryTexts isLetter es)) := by
      rw [follow_cons, joined]
      simp
    have hequals : 0x3d ∉ junk ++ 0x2c :: front isLetter e := by
      simp [hleft.not_mem, not_mem_front he]
    have hgroup : ¬ascii "\"group " <+: junk ++ 0x2c :: front isLetter e := by
      rintro ⟨rest, hrest⟩
      obtain ⟨x, junk', rfl⟩ := List.exists_cons_of_ne_nil hleft.ne_nil
      have hbytes : ascii "\"group " = 0x22 :: [0x67, 0x72, 0x6f, 0x75, 0x70, 0x20] := by decide
      rw [hbytes] at hrest
      exact hleft.head_ne (congrArg some (List.cons.inj hrest).1.symm)
    rw [htext] at hfuel ⊢
    obtain ⟨auth, entries, -, hrest, hcuts⟩ := heard_cut ih he hequals hgroup hfuel
    rw [hcuts, heard]
    exact hrest.passed (not_hit huser (List.mem_append_left _ hleft.mem))

/-- **The entries of a list that reach a user are those that are heard.** -/
theorem cuts_heard (huser : 0x22 ∉ user) {acl : List AclItem} (h : ∀ e ∈ acl, e.Tame ccsc) :
    Agree (aclCuts (some (relaclText isLetter acl))) (heard isLetter false acl) user := by
  have hheard : Heard isLetter acl user := by
    induction acl with
    | nil => exact heard_nil user
    | cons e es ih =>
      obtain ⟨he, hes⟩ := List.forall_mem_cons.mp h
      exact heard_cons (ih hes) huser he
  exact hheard .next le_rfl

end Entry

end OdbcDriver.Privileges
