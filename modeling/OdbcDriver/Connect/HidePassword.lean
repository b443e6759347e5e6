import OdbcDriver.Connect.Attributes

/-!
# Passwords in the log

`dconn_get_attributes` logs the connection string that it takes apart, after `hide_password` has
masked what it takes for a password. `hide_password` knows two spellings of one keyword and ends a
value at the next semicolon; `copyConnAttributes` compares two keywords without regard to case, and
a value in braces goes on behind a semicolon.
-/

namespace OdbcDriver.Connect

/-! ### The setter -/

def INI_PASSWORD : List Byte := ascii "Password"

/-- The attributes whose value `copyConnAttributes` takes for the password. -/
def isPasswordAttribute (attr : List Byte) : Bool :=
  stricmp attr INI_PASSWORD || stricmp attr (ascii "pwd")

/-! ### The mask -/

/-- The masking character, `x`. -/
def MASK : Byte := 0x78

/-- `sensitive`: the attributes that are masked. -/
def sensitive : List (List Byte) :=
  [ascii "PWD", ascii "pwd", ascii "sslcert", ascii "sslkey", ascii "sslrootcert", ascii "sslcrl"]

/-- A value masked, up to the next semicolon. -/
def maskValue : List Byte → List Byte
  | [] => []
  | b :: s => if b = ATTRIBUTE_DELIMITER then b :: s else MASK :: maskValue s

/-- The inner loop of `hide_password` from a place on, `prev` being the byte in front of it. Every
occurrence of the parameter is looked at. -/
def hideParam (param : List Byte) : Nat → Option Byte → List Byte → List Byte
  | 0, _, s => s
  | fuel + 1, prev, s =>
    match if (prev = none ∨ prev = some ATTRIBUTE_DELIMITER) ∧ param ++ [EQUALS] <+: s then
        param ++ EQUALS :: maskValue (s.drop (param.length + 1)) else s with
    | [] => []
    | b :: s => b :: hideParam param fuel (some b) s

/-- One turn of the outer loop of `hide_password`. -/
def hideOne (param s : List Byte) : List Byte := hideParam param s.length none s

/-- `hide_password` -/
def hide_password (str : List Byte) : List Byte :=
  sensitive.foldl (fun outstr param => hideOne param outstr) str

/-! ### Segments -/

section Hide

variable {param seg tail pre s : List Byte} {fuel : Nat} {prev : Option Byte}

/-- A parameter's name: no semicolon and no equals sign is in it. -/
def IsName (name : List Byte) : Prop := ATTRIBUTE_DELIMITER ∉ name ∧ EQUALS ∉ name

/-- The rest of a string behind a segment: nothing, or what a semicolon begins. -/
def EndsSegment (tail : List Byte) : Prop := tail = [] ∨ tail.head? = some ATTRIBUTE_DELIMITER

/-- What stands in front of a segment: nothing, or what a semicolon ends. -/
def StartsSegment (pre : List Byte) : Prop := pre = [] ∨ pre.getLast? = some ATTRIBUTE_DELIMITER

/-- What a turn makes of a segment. -/
def hideSegment (param seg : List Byte) : List Byte :=
  if param ++ [EQUALS] <+: seg then
    param ++ EQUALS :: List.replicate (seg.length - (param.length + 1)) MASK
  else seg

theorem maskValue_append (hseg : ATTRIBUTE_DELIMITER ∉ seg) (htail : EndsSegment tail) :
    maskValue (seg ++ tail) = List.replicate seg.length MASK ++ tail := by
  induction seg with
  | nil =>
    rcases htail with rfl | htail
    · rfl
    · obtain ⟨r, rfl⟩ := List.head?_eq_some_iff.mp htail
      rfl
  | cons b seg ih =>
    rw [List.mem_cons, not_or] at hseg
    rw [List.cons_append, maskValue, if_neg (Ne.symm hseg.1), ih hseg.2]
    rfl

/-- A text without semicolons that begins a string begins its first segment. -/
theorem begins_segment (hparam : ATTRIBUTE_DELIMITER ∉ param) (htail : EndsSegment tail) :
    param <+: seg ++ tail ↔ param <+: seg := by
  refine ⟨fun h => ?_, fun h => h.trans (List.prefix_append _ _)⟩
  rcases htail with rfl | htail
  · simpa using h
  · obtain ⟨r, rfl⟩ := List.head?_eq_some_iff.mp htail
    rcases List.prefix_or_prefix_of_prefix h (List.prefix_append seg _) with h' | ⟨u, rfl⟩
    · exact h'
    · have hu := (List.prefix_append_right_inj seg).mp h
      cases u with
      | nil => simp
      | cons c u =>
        obtain ⟨rfl, -⟩ := List.cons_prefix_cons.mp hu
        simp at hparam

/-- Behind the first byte of a segment nothing is masked. -/
theorem hideParam_inner (hprev : prev ≠ none ∧ prev ≠ some ATTRIBUTE_DELIMITER) (b : Byte) :
    hideParam param (fuel + 1) prev (b :: s) = b :: hideParam param fuel (some b) s := by
  rw [hideParam, if_neg (by tauto)]

/-- The rest of a segment is copied. -/
theorem hideParam_copy (hseg : ATTRIBUTE_DELIMITER ∉ seg)
    (hprev : prev ≠ none ∧ prev ≠ some ATTRIBUTE_DELIMITER) :
    ∃ prev', (prev' ≠ none ∧ prev' ≠ some ATTRIBUTE_DELIMITER) ∧
      hideParam param (seg.length + fuel) prev (seg ++ tail) =
        seg ++ hideParam param fuel prev' tail := by
  induction seg generalizing prev with
  | nil => exact ⟨prev, hprev, by simp⟩
  | cons b seg ih =>
    rw [List.mem_cons, not_or] at hseg
    have hb : some b ≠ none ∧ some b ≠ some ATTRIBUTE_DELIMITER :=
      ⟨by simp, by simpa using Ne.symm hseg.1⟩
    obtain ⟨prev', hprev', h⟩ := ih hseg.2 hb
    refine ⟨prev', hprev', ?_⟩
    rw [List.length_cons, Nat.add_right_comm, List.cons_append, hideParam_inner hprev, h]
    rfl

/-- A semicolon is copied, and a segment begins behind it. -/
theorem hideParam_delimiter (hparam : IsName param) (s : List Byte) :
    hideParam param (fuel + 1) prev (ATTRIBUTE_DELIMITER :: s) =
      ATTRIBUTE_DELIMITER :: hideParam param fuel (some ATTRIBUTE_DELIMITER) s := by
  have hnot : ¬ param ++ [EQUALS] <+: ATTRIBUTE_DELIMITER :: s := by
    cases param with
    | nil => exact fun h => absurd (List.cons_prefix_cons.mp h).1 (by decide)
    | cons c param =>
      intro h
      have := (List.cons_prefix_cons.mp h).1
      simp [IsName, this] at hparam
  rw [hideParam, if_neg fun h => hnot h.2]

/-- The beginning of a string is like the place behind a semicolon. -/
theorem hideParam_start (s : List Byte) :
    hideParam param fuel (some ATTRIBUTE_DELIMITER) s = hideParam param fuel none s := by
  cases fuel with
  | zero => rfl
  | succ fuel => simp [hideParam]

/-- What a turn makes of the rest of a string behind a segment. -/
theorem hideParam_tail (hparam : IsName param) (htail : EndsSegment tail) :
    hideParam param tail.length prev tail = hideOne param tail := by
  rcases htail with rfl | htail
  · rfl
  · obtain ⟨r, rfl⟩ := List.head?_eq_some_iff.mp htail
    rw [hideOne, List.length_cons, hideParam_delimiter hparam, hideParam_delimiter hparam]

theorem length_hideSegment (param seg : List Byte) :
    (hideSegment param seg).length = seg.length := by
  unfold hideSegment
  split
  · rename_i h
    have hle := h.length_le
    simp only [List.length_append, List.length_cons, List.length_nil, List.length_replicate] at hle ⊢
    omega
  · rfl

theorem delimiter_not_mem_hideSegment (hparam : IsName param)
    (hseg : ATTRIBUTE_DELIMITER ∉ seg) : ATTRIBUTE_DELIMITER ∉ hideSegment param seg := by
  unfold hideSegment
  split
  · simp only [List.mem_append, List.mem_cons, List.mem_replicate, not_or]
    exact ⟨hparam.1, by decide, fun h => absurd h.2 (by decide)⟩
  · exact hseg

/-- What is looked at in a segment's first place. -/
theorem hideSegment_append (hparam : IsName param) (hseg : ATTRIBUTE_DELIMITER ∉ seg)
    (htail : EndsSegment tail) :
    (if param ++ [EQUALS] <+: seg ++ tail then
      param ++ EQUALS :: maskValue ((seg ++ tail).drop (param.length + 1)) else seg ++ tail) =
      hideSegment param seg ++ tail := by
  have hname : ATTRIBUTE_DELIMITER ∉ param ++ [EQUALS] := by
    simpa [EQUALS, ATTRIBUTE_DELIMITER] using hparam.1
  rw [hideSegment]
  by_cases h : param ++ [EQUALS] <+: seg
  · rw [if_pos h, if_pos ((begins_segment hname htail).mpr h)]
    obtain ⟨value, rfl⟩ := h
    have hvalue : ATTRIBUTE_DELIMITER ∉ value := fun h => hseg (List.mem_append_right _ h)
    have hdrop : (param ++ [EQUALS] ++ value ++ tail).drop (param.length + 1) = value ++ tail := by
      rw [List.append_assoc, List.drop_left' (by simp)]
    rw [hdrop, maskValue_append hvalue htail]
    simp
    omega
  · rw [if_neg h, if_neg (mt (begins_segment hname htail).mp h)]

/-- **A turn goes by segments.** -/
theorem hideOne_segment (hparam : IsName param) (hseg : ATTRIBUTE_DELIMITER ∉ seg)
    (htail : EndsSegment tail) :
    hideOne param (seg ++ tail) = hideSegment param seg ++ hideOne param tail := by
  have hmem := delimiter_not_mem_hideSegment hparam hseg
  have hlen := length_hideSegment param seg
  have hsame := hideSegment_append hparam hseg htail
  cases hseg' : hideSegment param seg with
  | nil =>
    rw [hseg'] at hlen
    obtain rfl := List.eq_nil_of_length_eq_zero hlen.symm
    rfl
  | cons b seg' =>
    rw [hseg'] at hmem hlen
    rw [List.mem_cons, not_or] at hmem
    have hb : some b ≠ none ∧ some b ≠ some ATTRIBUTE_DELIMITER :=
      ⟨by simp, by simpa using Ne.symm hmem.1⟩
    obtain ⟨prev, -, hcopy⟩ :=
      @hideParam_copy param seg' tail tail.length (some b) hmem.2 hb
    rw [hideOne, List.length_append, ← hlen, List.length_cons, Nat.add_right_comm, hideParam]
    simp only [true_or, true_and]
    rw [hsame, hseg', List.cons_append]
    dsimp only
    rw [hcopy, hideParam_tail hparam htail, List.cons_append]

/-- A turn goes on behind a semicolon as from the beginning. -/
theorem hideOne_delimiter (hparam : IsName param) (s : List Byte) :
    hideOne param (ATTRIBUTE_DELIMITER :: s) = ATTRIBUTE_DELIMITER :: hideOne param s := by
  rw [hideOne, List.length_cons, hideParam_delimiter hparam, hideParam_start]
  rfl

/-- A string up to its first semicolon. -/
theorem segment_cases (s : List Byte) :
    ∃ seg tail, s = seg ++ tail ∧ ATTRIBUTE_DELIMITER ∉ seg ∧ EndsSegment tail := by
  by_cases h : ATTRIBUTE_DELIMITER ∈ s
  · obtain ⟨seg, tail, rfl, hseg⟩ := List.eq_append_cons_of_mem h
    exact ⟨seg, _, rfl, hseg, .inr rfl⟩
  · exact ⟨s, [], by simp, h, .inl rfl⟩

/-- What ends with a semicolon is a segment with its semicolon, and again such a string. -/
theorem StartsSegment.cases (hpre : StartsSegment pre) :
    pre = [] ∨ ∃ seg r, pre = seg ++ ATTRIBUTE_DELIMITER :: r ∧ ATTRIBUTE_DELIMITER ∉ seg ∧
      StartsSegment r := by
  rcases hpre with hnil | hlast
  · exact .inl hnil
  · obtain ⟨seg, r, rfl, hseg⟩ := List.eq_append_cons_of_mem (List.mem_of_getLast? hlast)
    refine .inr ⟨seg, r, rfl, hseg, ?_⟩
    cases r with
    | nil => exact .inl rfl
    | cons c r =>
      refine .inr ?_
      rwa [List.getLast?_append_of_ne_nil _ (by simp), List.getLast?_cons_cons] at hlast

theorem StartsSegment.append {r : List Byte} (h : StartsSegment r) (seg : List Byte) :
    StartsSegment (seg ++ ATTRIBUTE_DELIMITER :: r) := by
  refine .inr ?_
  rcases h with rfl | h
  · simp
  · have hne : r ≠ [] := by
      rintro rfl
      cases h
    rw [List.append_cons, List.getLast?_append_of_ne_nil _ hne, h]

/-- A turn treats what ends with a semicolon apart from what follows. -/
theorem hideOne_append (hparam : IsName param) (hpre : StartsSegment pre) (s : List Byte) :
    hideOne param (pre ++ s) = hideOne param pre ++ hideOne param s ∧
      StartsSegment (hideOne param pre) := by
  induction hn : pre.length using Nat.strong_induction_on generalizing pre with
  | _ n ih =>
    rcases hpre.cases with rfl | ⟨seg, r, rfl, hseg, hr⟩
    · exact ⟨rfl, .inl rfl⟩
    · obtain ⟨ih, hr'⟩ := ih r.length (by rw [← hn]; simp; omega) hr rfl
      have hpre' : hideOne param (seg ++ ATTRIBUTE_DELIMITER :: r) =
          hideSegment param seg ++ ATTRIBUTE_DELIMITER :: hideOne param r := by
        rw [hideOne_segment hparam hseg (.inr rfl), hideOne_delimiter hparam]
      refine ⟨?_, by rw [hpre']; exact hr'.append _⟩
      rw [hpre', List.append_assoc, hideOne_segment hparam hseg (.inr rfl), List.cons_append,
        hideOne_delimiter hparam, ih]
      simp

theorem endsSegment_hideOne (hparam : IsName param) (htail : EndsSegment tail) :
    EndsSegment (hideOne param tail) := by
  rcases htail with rfl | htail
  · exact .inl rfl
  · obtain ⟨r, rfl⟩ := List.head?_eq_some_iff.mp htail
    rw [hideOne_delimiter hparam]
    exact .inr rfl

/-! ### All turns -/

/-- The turns over some parameters, on a string and on a segment. -/
def hideAll (params : List (List Byte)) (s : List Byte) : List Byte :=
  params.foldl (fun outstr param => hideOne param outstr) s

def hideSegments (params : List (List Byte)) (seg : List Byte) : List Byte :=
  params.foldl (fun seg param => hideSegment param seg) seg

/-- A string is masked segment by segment. -/
theorem hideAll_segment {params : List (List Byte)} (hparams : ∀ param ∈ params, IsName param)
    (hpre : StartsSegment pre) (hseg : ATTRIBUTE_DELIMITER ∉ seg) (htail : EndsSegment tail) :
    hideAll params (pre ++ (seg ++ tail)) =
      hideAll params pre ++ (hideSegments params seg ++ hideAll params tail) := by
  induction params generalizing pre seg tail with
  | nil => rfl
  | cons param params ih =>
    obtain ⟨hparam, hparams⟩ := List.forall_mem_cons.mp hparams
    simp only [hideAll, hideSegments, List.foldl_cons]
    obtain ⟨happ, hpre'⟩ := hideOne_append hparam hpre (seg ++ tail)
    rw [happ, hideOne_segment hparam hseg htail]
    exact ih hparams hpre' (delimiter_not_mem_hideSegment hparam hseg)
      (endsSegment_hideOne hparam htail)

theorem hideAll_delimiter {params : List (List Byte)} (hparams : ∀ param ∈ params, IsName param)
    (s : List Byte) :
    hideAll params (ATTRIBUTE_DELIMITER :: s) = ATTRIBUTE_DELIMITER :: hideAll params s := by
  induction params generalizing s with
  | nil => rfl
  | cons param params ih =>
    obtain ⟨hparam, hparams⟩ := List.forall_mem_cons.mp hparams
    simp only [hideAll, List.foldl_cons]
    rw [hideOne_delimiter hparam]
    exact ih hparams _

/-- A turn keeps the length. -/
theorem length_hideOne (hparam : IsName param) (s : List Byte) :
    (hideOne param s).length = s.length := by
  induction hn : s.length using Nat.strong_induction_on generalizing s with
  | _ n ih =>
    obtain ⟨seg, tail, rfl, hseg, htail⟩ := segment_cases s
    rw [hideOne_segment hparam hseg htail, List.length_append, length_hideSegment, ← hn,
      List.length_append]
    rcases htail with rfl | htail
    · rfl
    · obtain ⟨r, rfl⟩ := List.head?_eq_some_iff.mp htail
      rw [hideOne_delimiter hparam, List.length_cons, ih r.length (by rw [← hn]; simp; omega) r rfl]
      rfl

theorem length_hideAll {params : List (List Byte)} (hparams : ∀ param ∈ params, IsName param)
    (s : List Byte) : (hideAll params s).length = s.length := by
  induction params generalizing s with
  | nil => rfl
  | cons param params ih =>
    obtain ⟨hparam, hparams⟩ := List.forall_mem_cons.mp hparams
    exact (ih hparams _).trans (length_hideOne hparam s)

/-- A setting begins with one attribute. -/
theorem append_equals_inj {a b u v : List Byte} (ha : EQUALS ∉ a) (hb : EQUALS ∉ b)
    (h : a ++ EQUALS :: u = b ++ EQUALS :: v) : a = b := by
  rcases List.append_eq_append_iff.mp h with ⟨c, rfl, hc⟩ | ⟨c, rfl, hc⟩
  · cases c with
    | nil => simp
    | cons x c =>
      obtain ⟨rfl, -⟩ := List.cons.inj hc
      simp at hb
  · cases c with
    | nil => simp
    | cons x c =>
      obtain ⟨rfl, -⟩ := List.cons.inj hc
      simp at ha

/-- A setting is masked when its attribute is one of the parameters. -/
theorem hideSegments_setting {params : List (List Byte)} (hparams : ∀ param ∈ params, IsName param)
    {attr : List Byte} (hattr : EQUALS ∉ attr) (value : List Byte) :
    hideSegments params (attr ++ EQUALS :: value) =
      attr ++ EQUALS :: if attr ∈ params then List.replicate value.length MASK else value := by
  induction params generalizing value with
  | nil => simp [hideSegments]
  | cons param params ih =>
    obtain ⟨hparam, hparams⟩ := List.forall_mem_cons.mp hparams
    have hone : hideSegment param (attr ++ EQUALS :: value) =
        attr ++ EQUALS :: if attr = param then List.replicate value.length MASK else value := by
      rw [hideSegment]
      by_cases heq : attr = param
      · subst heq
        rw [if_pos ⟨value, by simp⟩, if_pos rfl, List.length_append, List.length_cons,
          show attr.length + (value.length + 1) - (attr.length + 1) = value.length by omega]
      · rw [if_neg heq, if_neg]
        rintro ⟨t, ht⟩
        rw [List.append_assoc] at ht
        exact heq (append_equals_inj hattr hparam.2 ht.symm)
    rw [hideSegments, List.foldl_cons, hone]
    refine (ih hparams _).trans ?_
    by_cases heq : attr = param <;> by_cases hmem : attr ∈ params <;> simp [heq, hmem]

theorem isName_sensitive : ∀ param ∈ sensitive, IsName param := by
  simp only [sensitive, List.forall_mem_cons, IsName]
  decide

/-- **The mask of a setting.** -/
theorem hide_password_setting {attr value : List Byte} (hpre : StartsSegment pre)
    (hattr : IsName attr) (hvalue : ATTRIBUTE_DELIMITER ∉ value) (htail : EndsSegment tail) :
    hide_password (pre ++ (attr ++ EQUALS :: value ++ tail)) =
      hide_password pre ++ (attr ++ EQUALS ::
        (if attr ∈ sensitive then List.replicate value.length MASK else value) ++
          hide_password tail) := by
  have hseg : ATTRIBUTE_DELIMITER ∉ attr ++ EQUALS :: value := by
    simp only [List.mem_append, List.mem_cons, not_or]
    exact ⟨hattr.1, by decide, hvalue⟩
  exact (hideAll_segment isName_sensitive hpre hseg htail).trans
    (by rw [hideSegments_setting isName_sensitive hattr.2]; rfl)

theorem hide_password_delimiter (s : List Byte) :
    hide_password (ATTRIBUTE_DELIMITER :: s) = ATTRIBUTE_DELIMITER :: hide_password s :=
  hideAll_delimiter isName_sensitive s

theorem length_hide_password (s : List Byte) : (hide_password s).length = s.length :=
  length_hideAll isName_sensitive s

/-! ### Passwords -/

/-- A string with a setting in it. -/
def withSetting (pre attr tail value : List Byte) : List Byte :=
  pre ++ (attr ++ EQUALS :: value ++ tail)

/-- Where a setting stands in a string. -/
structure Place (pre attr tail : List Byte) : Prop where
  starts : StartsSegment pre
  name : IsName attr
  ends : EndsSegment tail

/-- The log of a string has masking characters, and nothing else, in place of a value; what it has
in front of it and behind it is `u` and `w`. -/
def MaskedAs (pre attr tail u w value : List Byte) : Prop :=
  u.length = pre.length + attr.length + 1 ∧ w.length = tail.length ∧
    ∃ m, hide_password (withSetting pre attr tail value) = u ++ (List.replicate m MASK ++ w)

/-- Two strings that differ in a value alone have the same log but for the number of masking
characters. -/
def SameLog (pre attr tail value value' : List Byte) : Prop :=
  ∃ u w, MaskedAs pre attr tail u w value ∧ MaskedAs pre attr tail u w value'

/-- A password that the log hides: it belongs to one of the two spellings that are masked and has
no semicolon in it, or it cannot be told from its mask. -/
def Hidden (attr value : List Byte) : Prop :=
  ((attr = ascii "PWD" ∨ attr = ascii "pwd") ∧ ATTRIBUTE_DELIMITER ∉ value) ∨
    ∀ b ∈ value, b = MASK

/-- Of the attributes of a password, two are masked. -/
theorem mem_sensitive_iff {attr : List Byte} (h : isPasswordAttribute attr = true) :
    attr ∈ sensitive ↔ attr = ascii "PWD" ∨ attr = ascii "pwd" := by
  constructor
  · intro hmem
    simp only [sensitive, List.mem_cons, List.not_mem_nil, or_false] at hmem
    rcases hmem with rfl | rfl | rfl | rfl | rfl | rfl
    · exact .inl rfl
    · exact .inr rfl
    all_goals exact absurd h (by decide)
  · rintro (rfl | rfl) <;> decide

variable {attr value value' u w : List Byte}

/-- A semicolon of a value stays what it is. -/
theorem not_maskedAs_of_mem (hplace : Place pre attr tail) (h : ATTRIBUTE_DELIMITER ∈ value) :
    ¬ MaskedAs pre attr tail u w value := by
  rintro ⟨hu, hw, m, hm⟩
  obtain ⟨first, rest, rfl, hfirst⟩ := List.eq_append_cons_of_mem h
  have hstring : withSetting pre attr tail (first ++ ATTRIBUTE_DELIMITER :: rest) =
      pre ++ (attr ++ EQUALS :: first ++ ATTRIBUTE_DELIMITER :: (rest ++ tail)) := by
    simp [withSetting]
  have hlen := congrArg List.length hm
  rw [hstring, hide_password_setting hplace.starts hplace.name hfirst (.inr rfl),
    hide_password_delimiter] at hm
  set masked := if attr ∈ sensitive then List.replicate first.length MASK else first with hmasked
  have hlmasked : masked.length = first.length := by
    rw [hmasked]
    split <;> simp
  have hstart : hide_password pre ++ (attr ++ EQUALS :: masked ++
      ATTRIBUTE_DELIMITER :: hide_password (rest ++ tail)) =
      (hide_password pre ++ (attr ++ [EQUALS])) ++
        (masked ++ ATTRIBUTE_DELIMITER :: hide_password (rest ++ tail)) := by
    simp
  rw [hstart] at hm
  obtain ⟨-, hm⟩ := List.append_inj hm (by simp [length_hide_password, hu]; omega)
  simp only [length_hide_password, withSetting, List.length_append, List.length_cons,
    List.length_replicate] at hlen
  have hget := congrArg (·[masked.length]?) hm
  rw [List.getElem?_append_right (Nat.le_refl _),
    List.getElem?_append_left (by rw [List.length_replicate]; omega),
    List.getElem?_replicate_of_lt (by omega)] at hget
  simp [ATTRIBUTE_DELIMITER, MASK] at hget

theorem maskedAs_iff (hplace : Place pre attr tail) (hpass : isPasswordAttribute attr = true) :
    MaskedAs pre attr tail u w value ↔
      Hidden attr value ∧ u = hide_password pre ++ (attr ++ [EQUALS]) ∧
        w = hide_password tail := by
  by_cases hvalue : ATTRIBUTE_DELIMITER ∈ value
  · have hnot : ¬ Hidden attr value := by
      rintro (h | h)
      · exact h.2 hvalue
      · exact absurd (h _ hvalue) (by decide)
    exact iff_of_false (not_maskedAs_of_mem hplace hvalue) fun h => hnot h.1
  · have hlog := hide_password_setting hplace.starts hplace.name hvalue hplace.ends
    have hshown : Hidden attr value ↔
        (if attr ∈ sensitive then List.replicate value.length MASK else value) =
          List.replicate value.length MASK := by
      rw [Hidden, ← mem_sensitive_iff hpass]
      by_cases hattr : attr ∈ sensitive
      · simp [hattr, hvalue]
      · simp [hattr, List.eq_replicate_iff]
    set masked := if attr ∈ sensitive then List.replicate value.length MASK else value
    have hlmasked : masked.length = value.length := by
      simp only [masked]
      split <;> simp
    have hparts : hide_password pre ++ (attr ++ EQUALS :: masked ++ hide_password tail) =
        (hide_password pre ++ (attr ++ [EQUALS])) ++ (masked ++ hide_password tail) := by
      simp
    rw [MaskedAs, withSetting, hlog, hparts, hshown]
    constructor
    · rintro ⟨hu, hw, m, hm⟩
      obtain ⟨hu', hm⟩ := List.append_inj hm (by simp [length_hide_password, hu]; omega)
      obtain ⟨hm, hw'⟩ := List.append_inj' hm (by rw [length_hide_password, hw])
      refine ⟨?_, hu'.symm, hw'.symm⟩
      rw [hm] at hlmasked ⊢
      rw [← hlmasked, List.length_replicate]
    · rintro ⟨hm, rfl, rfl⟩
      refine ⟨by simp [length_hide_password]; omega, length_hide_password _, value.length, ?_⟩
      rw [hm]

/-- **Which passwords the log hides.** -/
theorem sameLog_iff (hplace : Place pre attr tail) (hpass : isPasswordAttribute attr = true) :
    SameLog pre attr tail value value' ↔ Hidden attr value ∧ Hidden attr value' := by
  simp only [SameLog, maskedAs_iff hplace hpass]
  constructor
  · rintro ⟨u, w, ⟨h, -⟩, ⟨h', -⟩⟩
    exact ⟨h, h'⟩
  · rintro ⟨h, h'⟩
    exact ⟨_, _, ⟨h, rfl, rfl⟩, ⟨h', rfl, rfl⟩⟩

end Hide

end OdbcDriver.Connect
