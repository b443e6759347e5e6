import OdbcDriver.Connect.HidePassword
import OdbcDriver.Lib.Except

/-!
# Where the attributes of a connection string stand

Every attribute that `dconn_get_attributes` gives its setter stands in the string, with its value
behind an equals sign, between two semicolons. The buffer is the string with terminators written
into what has been read; from where the next attribute is looked for, it is the string itself.
-/

namespace OdbcDriver.Connect

open CString Lib

/-! ### What the string functions find -/

section Find

variable {buf buf' : List Byte} {i k : Nat} {c delim : Byte}

theorem find_spec {p : Byte → Bool} (h : find p buf i = .ok k) :
    i ≤ k ∧ (∃ b, buf[k]? = some b ∧ p b = true) ∧
      ∀ j, i ≤ j → j < k → ∃ b, buf[j]? = some b ∧ p b = false := by
  unfold find at h
  split at h
  · rename_i d hd
    cases h
    obtain ⟨hlt, hp, hnot⟩ := List.findIdx?_eq_some_iff_getElem.mp hd
    refine ⟨by omega, ⟨_, ?_, hp⟩, fun j hij hj => ?_⟩
    · rw [← List.getElem?_drop, List.getElem?_eq_getElem hlt]
    · obtain ⟨m, rfl⟩ := Nat.exists_eq_add_of_le hij
      have hm : m < d := by omega
      refine ⟨(buf.drop i)[m], ?_, by simpa using hnot m hm⟩
      rw [← List.getElem?_drop, List.getElem?_eq_getElem (by omega)]
  · cases h

theorem read_spec {b : Byte} : CString.read buf i = .ok b ↔ buf[i]? = some b := by
  unfold CString.read
  split <;> simp_all

/-- The bytes from `i` to `k` are neither `c` nor a terminator. -/
def PassesOver (buf : List Byte) (c : Byte) (i k : Nat) : Prop :=
  ∀ j, i ≤ j → j < k → ∃ b, buf[j]? = some b ∧ b ≠ c ∧ b ≠ 0

theorem strchr_spec {r : Option Nat} (h : strchr buf i c = .ok r) :
    ∃ k, i ≤ k ∧ PassesOver buf c i k ∧
      ((buf[k]? = some c ∧ r = some k) ∨ (c ≠ 0 ∧ buf[k]? = some 0 ∧ r = none)) := by
  unfold strchr at h
  obtain ⟨k, hk, h⟩ := bind_eq_ok.mp h
  obtain ⟨b, hb, h⟩ := bind_eq_ok.mp h
  obtain ⟨hik, ⟨b', hb', hp⟩, hnot⟩ := find_spec hk
  rw [read_spec] at hb
  obtain rfl : b' = b := by simpa using hb'.symm.trans hb
  refine ⟨k, hik, fun j hij hj => ?_, ?_⟩
  · obtain ⟨b, hb, hp⟩ := hnot j hij hj
    exact ⟨b, hb, by simpa using hp⟩
  · by_cases hbc : b' = c
    · rw [if_pos hbc] at h
      cases h
      exact .inl ⟨hbc ▸ hb, rfl⟩
    · rw [if_neg hbc] at h
      cases h
      have h0 : b' = 0 := by simpa [hbc] using hp
      exact .inr ⟨fun hc => hbc (h0.trans hc.symm), h0 ▸ hb, rfl⟩

/-- The next token, or none. -/
theorem strtok_r_spec {tok : Option Nat} {last : Nat}
    (h : strtok_r buf i delim = .ok (tok, buf', last)) :
    ∃ a, i ≤ a ∧ (∀ j, i ≤ j → j < a → buf[j]? = some delim) ∧
      (tok = none ∨ tok = some a ∧ ∃ e, a ≤ e ∧ PassesOver buf delim a e ∧
        ((buf[e]? = some 0 ∧ buf' = buf ∧ last = e) ∨
          (buf[e]? = some delim ∧ buf' = buf.set e 0 ∧ last = e + 1))) := by
  unfold strtok_r at h
  obtain ⟨a, ha, h⟩ := bind_eq_ok.mp h
  obtain ⟨b, hb, h⟩ := bind_eq_ok.mp h
  obtain ⟨hia, -, hdelim⟩ := find_spec ha
  refine ⟨a, hia, fun j hij hj => ?_, ?_⟩
  · obtain ⟨b, hb, hp⟩ := hdelim j hij hj
    rw [hb]
    simpa using hp
  · split at h
    · cases h
      exact .inl rfl
    · obtain ⟨e, he, h⟩ := bind_eq_ok.mp h
      obtain ⟨b', hb', h⟩ := bind_eq_ok.mp h
      obtain ⟨hae, ⟨b'', hb'', hp⟩, hnot⟩ := find_spec he
      rw [read_spec] at hb'
      obtain rfl : b'' = b' := by simpa using hb''.symm.trans hb'
      have hpass : PassesOver buf delim a e := fun j hij hj => by
        obtain ⟨b, hb, hp⟩ := hnot j hij hj
        exact ⟨b, hb, by simpa using hp⟩
      right
      split at h
      · rename_i h0
        cases h
        exact ⟨rfl, _, hae, hpass, .inl ⟨h0 ▸ hb', rfl, rfl⟩⟩
      · rename_i h0
        cases h
        have hd : b'' = delim := by simpa [h0] using hp
        exact ⟨rfl, _, hae, hpass, .inr ⟨hd ▸ hb', rfl, rfl⟩⟩

end Find

/-! ### The closing brace -/

/-- A value that has been cut off at `stop`: the buffer is the string there but for the terminator,
and up to the value it is what it was. -/
structure CutOff (s before buf : List Byte) (value stop : Nat) : Prop where
  length : buf.length = s.length + 1
  starts : value ≤ stop
  le : stop ≤ s.length
  low : ∀ j < value, buf[j]? = before[j]?
  seen : ∀ j, value ≤ j → j < stop → buf[j]? = s[j]?
  terminator : buf[stop]? = some 0
  high : ∀ j, stop < j → buf[j]? = (s ++ [0])[j]?
  edge : stop = s.length ∨ s[stop]? = some ATTRIBUTE_DELIMITER

/-- The buffer during the search for the closing brace: the string, but for the semicolon that has
been overwritten, if one still is. -/
structure Searching (s before buf : List Byte) (value valuen : Nat) (delp : Option Nat) : Prop where
  length : buf.length = s.length + 1
  low : ∀ j < value, buf[j]? = before[j]?
  whole : delp = none → ∀ j, value ≤ j → buf[j]? = (s ++ [0])[j]?
  cut : ∀ d, delp = some d → valuen ≤ d ∧ d < s.length ∧ buf[d]? = some 0 ∧
    s[d]? = some ATTRIBUTE_DELIMITER ∧ (∀ j, value ≤ j → j ≠ d → buf[j]? = (s ++ [0])[j]?) ∧
    ∀ j, value ≤ j → j < d → s[j]? ≠ some ATTRIBUTE_DELIMITER

section Closing

variable {s before buf : List Byte} {value valuen fuel : Nat} {closep delp : Option Nat}
  {r : Closing}

/-- The closing brace that is looked at: the one ahead or, behind the semicolon put back, the
next. -/
def braceAhead (buf : List Byte) (closep delp : Option Nat) :
    Except Fault (Option (List Byte × Nat × Option Nat)) :=
  match closep, delp with
  | some k, _ => .ok (some (buf, k, delp))
  | none, none => .ok none
  | none, some d => do
    match ← strchr buf (d + 1) CLOSING_BRACKET with
    | none => return none
    | some k => return some (buf.set d ATTRIBUTE_DELIMITER, k, none)

/-- What is done about a closing brace. -/
def atBrace (termp fuel : Nat) (buf : List Byte) :
    Option (List Byte × Nat × Option Nat) → Except Fault Closing
  | none => .ok ⟨buf, none, false, false⟩
  | some (buf, k, delp) => do
    let next ← CString.read buf (k + 1)
    if next = CLOSING_BRACKET then
      if termp ≤ k + 2 then return ⟨buf, none, false, true⟩
      else
        let (buf, delp) := if delp = some (k + 2) then
            (buf.set (k + 2) ATTRIBUTE_DELIMITER, none) else (buf, delp)
        let closep ← strchr buf (k + 2) CLOSING_BRACKET
        closingBracket termp fuel buf (k + 2) closep delp
    else if next = ATTRIBUTE_DELIMITER ∨ next = 0 ∨ delp = some (k + 1) then
      return ⟨buf.set (k + 1) 0, some (k + 2), decide (termp ≤ k + 3), true⟩
    else return ⟨buf, none, false, false⟩

theorem closingBracket_succ {termp : Nat} (h : valuen < termp) :
    closingBracket termp (fuel + 1) buf valuen closep delp =
      braceAhead buf closep delp >>= atBrace termp fuel buf := by
  rw [closingBracket, if_neg (Nat.not_le.mpr h)]
  cases closep with
  | some k => rfl
  | none =>
    cases delp with
    | none => rfl
    | some d =>
      rw [braceAhead]
      cases hchr : strchr buf (d + 1) CLOSING_BRACKET with
      | error e => simp [hchr]
      | ok r => cases r <;> simp [hchr, atBrace]

theorem getElem?_terminated {j : Nat} (hj : j < s.length) : (s ++ [0])[j]? = s[j]? :=
  List.getElem?_append_left hj

theorem getElem?_terminator : (s ++ [(0 : Byte)])[s.length]? = some 0 := by simp

/-- A byte of a string is no terminator. -/
theorem eq_length_of_getElem? (hs : 0 ∉ s) {j : Nat} (h : (s ++ [0])[j]? = some 0) :
    j = s.length := by
  rcases Nat.lt_trichotomy j s.length with hlt | heq | hgt
  · rw [getElem?_terminated hlt] at h
    exact absurd (List.mem_of_getElem? h) hs
  · exact heq
  · rw [List.getElem?_eq_none (by simp; omega)] at h
    cases h

/-- The semicolon put back. -/
theorem Searching.restore {d : Nat} (h : Searching s before buf value valuen (some d))
    (hle : value ≤ valuen) :
    Searching s before (buf.set d ATTRIBUTE_DELIMITER) value valuen none := by
  obtain ⟨hd, hlt, -, hdelim, hother, -⟩ := h.cut d rfl
  refine ⟨by rw [List.length_set, h.length], fun j hj => ?_, fun _ j hj => ?_, nofun⟩
  · rw [List.getElem?_set_ne (by omega), h.low j hj]
  · by_cases hjd : j = d
    · subst hjd
      rw [List.getElem?_set_self (by rw [h.length]; omega), getElem?_terminated hlt, hdelim]
    · rw [List.getElem?_set_ne (Ne.symm hjd), hother j hj hjd]

theorem Searching.behind {valuen' : Nat} (h : Searching s before buf value valuen delp)
    (hd : ∀ d, delp = some d → valuen' ≤ d) : Searching s before buf value valuen' delp :=
  ⟨h.length, h.low, h.whole, fun d hdelp => ⟨hd d hdelp, (h.cut d hdelp).2⟩⟩

/-- A brace that closes the value has the end of the value behind it. -/
theorem Searching.stop {k : Nat} {next : Byte} (hs : 0 ∉ s)
    (h : Searching s before buf value valuen delp) (hk : value ≤ k)
    (hkd : ∀ d, delp = some d → k < d) (hread : buf[k + 1]? = some next)
    (hstop : next = ATTRIBUTE_DELIMITER ∨ next = 0 ∨ delp = some (k + 1)) :
    (∀ j, value ≤ j → j < k + 1 → buf[j]? = s[j]?) ∧
      (∀ j, k + 1 < j → buf[j]? = (s ++ [0])[j]?) ∧
      (k + 1 = s.length ∨ s[k + 1]? = some ATTRIBUTE_DELIMITER) := by
  have hlen : k + 1 < s.length + 1 := by
    rw [← h.length]
    exact (List.getElem?_eq_some_iff.mp hread).1
  cases hdelp : delp with
  | none =>
    have hwhole := h.whole hdelp
    refine ⟨fun j hj hlt => ?_, fun j hj => hwhole j (by omega), ?_⟩
    · rw [hwhole j hj, getElem?_terminated (by omega)]
    · rw [hwhole (k + 1) (by omega)] at hread
      rcases hstop with rfl | rfl | hd
      · rcases Nat.lt_or_eq_of_le (Nat.le_of_lt_succ hlen) with hlt | heq
        · exact .inr ((getElem?_terminated hlt).symm.trans hread)
        · exact .inl heq
      · exact .inl (eq_length_of_getElem? hs hread)
      · cases hdelp.symm.trans hd
  | some d =>
    obtain ⟨-, hlt, hzero, hdelim, hother, hnone⟩ := h.cut d hdelp
    have hd : d = k + 1 := by
      have hle := hkd d hdelp
      by_contra hne
      have hsame := (hother (k + 1) (by omega) (Ne.symm hne)).symm.trans hread
      rcases hstop with rfl | rfl | hd
      · rw [getElem?_terminated (by omega)] at hsame
        exact hnone (k + 1) (by omega) (by omega) hsame
      · have := eq_length_of_getElem? hs hsame
        omega
      · exact hne (Option.some.inj (hdelp.symm.trans hd))
    subst hd
    refine ⟨fun j hj hlt => ?_, fun j hj => hother j (by omega) (by omega), .inr hdelim⟩
    rw [hother j hj (by omega), getElem?_terminated (by omega)]

/-- The closing brace that is looked at lies in front of the semicolon overwritten. -/
theorem braceAhead_spec (hle : value ≤ valuen) (hbuf : Searching s before buf value valuen delp)
    (hclose : strchr buf valuen CLOSING_BRACKET = .ok closep)
    {found : Option (List Byte × Nat × Option Nat)}
    (hfound : braceAhead buf closep delp = .ok found) :
    found = none ∨ ∃ buf' k delp', found = some (buf', k, delp') ∧ valuen ≤ k ∧
      buf'[k]? = some CLOSING_BRACKET ∧ Searching s before buf' value valuen delp' ∧
      ∀ d, delp' = some d → k < d := by
  obtain ⟨k', hk', hpass, hstop⟩ := strchr_spec hclose
  unfold braceAhead at hfound
  split at hfound
  · rename_i k
    cases hfound
    obtain ⟨hclose, hk⟩ := hstop.resolve_right (by simp)
    obtain rfl : k = k' := by simpa using hk
    refine .inr ⟨buf, k, delp, rfl, hk', hclose, hbuf, fun d hd => ?_⟩
    obtain ⟨hvd, -, hzero, -⟩ := hbuf.cut d hd
    by_contra hge
    rcases Nat.lt_or_eq_of_le (Nat.not_lt.mp hge) with hlt | rfl
    · obtain ⟨b, hb, -, hb0⟩ := hpass d hvd hlt
      exact hb0 (Option.some.inj (hb.symm.trans hzero))
    · rw [hclose] at hzero
      exact absurd hzero (by decide)
  · cases hfound
    exact .inl rfl
  · rename_i d
    obtain ⟨r, hr, hfound⟩ := bind_eq_ok.mp hfound
    obtain ⟨k, hk, -, hstop⟩ := strchr_spec hr
    split at hfound
    · cases hfound
      exact .inl rfl
    · rename_i k'
      cases hfound
      obtain ⟨hclose, hkk⟩ := hstop.resolve_right (by simp)
      obtain rfl : k' = k := by simpa using hkk
      have hvd := (hbuf.cut d rfl).1
      refine .inr ⟨_, k', none, rfl, by omega, ?_, hbuf.restore hle, nofun⟩
      rw [List.getElem?_set_ne (by omega), hclose]

/-- **The closing brace.** A search that succeeds cuts the value off in front of a semicolon, or at
the end of the string. -/
theorem closingBracket_cutOff (hs : 0 ∉ s) (hle : value ≤ valuen) (hlt : valuen < s.length)
    (hbuf : Searching s before buf value valuen delp)
    (hclose : strchr buf valuen CLOSING_BRACKET = .ok closep)
    (h : closingBracket s.length fuel buf valuen closep delp = .ok r) (hret : r.ret = true) :
    ∃ stop, CutOff s before r.buf value stop ∧
      (r.strtok_arg = some (stop + 1) ∨ (r.strtok_arg = none ∧ stop = s.length)) := by
  induction fuel generalizing buf valuen closep delp with
  | zero => cases h
  | succ fuel ih =>
    rw [closingBracket_succ hlt] at h
    obtain ⟨found, hfound, h⟩ := bind_eq_ok.mp h
    rcases braceAhead_spec hle hbuf hclose hfound with
      rfl | ⟨buf', k, delp', rfl, hk, hkclose, hbuf', hkd⟩
    · cases h
      cases hret
    · obtain ⟨next, hread, h⟩ := bind_eq_ok.mp h
      rw [read_spec] at hread
      have hk1 : k + 1 < s.length + 1 := by
        rw [← hbuf'.length]
        exact (List.getElem?_eq_some_iff.mp hread).1
      split at h
      · rename_i hpair
        have hkd' : ∀ d, delp' = some d → k + 2 ≤ d := by
          intro d hd
          have hlt := hkd d hd
          rcases Nat.lt_or_eq_of_le (Nat.succ_le_of_lt hlt) with h | rfl
          · exact h
          · rw [(hbuf'.cut (k + 1) hd).2.2.1] at hread
            rw [← Option.some.inj hread] at hpair
            exact absurd hpair (by decide)
        split at h
        · rename_i hend
          cases h
          have hnone : delp' = none := by
            rw [Option.eq_none_iff_forall_ne_some]
            intro d hd
            have := hkd' d hd
            have := (hbuf'.cut d hd).2.1
            omega
          have hwhole := hbuf'.whole hnone
          refine ⟨s.length, ⟨hbuf'.length, by omega, le_refl _, hbuf'.low, fun j hj hlt => ?_, ?_, fun j hj => ?_,
            .inl rfl⟩, .inr ⟨rfl, rfl⟩⟩
          · rw [hwhole j hj, getElem?_terminated hlt]
          · rw [hwhole _ (by omega), getElem?_terminator]
          · rw [hwhole j (by omega)]
        · rename_i hend
          by_cases hcut : delp' = some (k + 2)
          · simp only [hcut, if_true] at h
            obtain ⟨closep', hclose', h⟩ := bind_eq_ok.mp h
            exact ih (by omega) (by omega) ((hcut ▸ hbuf').restore hle |>.behind nofun) hclose' h
          · simp only [hcut, if_false] at h
            obtain ⟨closep', hclose', h⟩ := bind_eq_ok.mp h
            exact ih (by omega) (by omega) (hbuf'.behind hkd') hclose' h
      · rename_i hpair
        split at h
        · rename_i hstop
          cases h
          obtain ⟨hseen, hhigh, hedge⟩ := hbuf'.stop hs (by omega) hkd hread hstop
          refine ⟨k + 1, ⟨by rw [List.length_set, hbuf'.length], by omega, by omega, fun j hj => ?_,
            fun j hj hlt => ?_, ?_, fun j hj => ?_, hedge⟩, .inl rfl⟩
          · rw [List.getElem?_set_ne (by omega), hbuf'.low j hj]
          · rw [List.getElem?_set_ne (by omega), hseen j hj hlt]
          · rw [List.getElem?_set_self (by rw [hbuf'.length]; exact hk1)]
          · rw [List.getElem?_set_ne (by omega), hhigh j hj]
        · cases h
          cases hret

end Closing

/-! ### A token -/

/-- The buffer in which the next attribute is looked for at `p`: the string, from there on. What
stands in front is a semicolon, or nothing. -/
structure Ahead (s buf : List Byte) (p : Nat) : Prop where
  length : buf.length = s.length + 1
  rest : ∀ j, p ≤ j → buf[j]? = (s ++ [0])[j]?
  edge : ∀ m, p = m + 1 → p < s.length → s[m]? = some ATTRIBUTE_DELIMITER

/-- A segment that has been cut off: it goes from `a` to `e`. -/
structure Token (s buf : List Byte) (a e : Nat) : Prop where
  length : buf.length = s.length + 1
  ordered : a ≤ e
  le : e ≤ s.length
  starts : ∀ m, a = m + 1 → a < e → s[m]? = some ATTRIBUTE_DELIMITER
  whole : ∀ j, a ≤ j → j < e → s[j]? ≠ some ATTRIBUTE_DELIMITER
  seen : ∀ j, a ≤ j → j < e → buf[j]? = s[j]?
  terminator : buf[e]? = some 0
  high : ∀ j, e < j → buf[j]? = (s ++ [0])[j]?

section Token

variable {s buf buf' : List Byte} {p a last : Nat}

theorem strtok_r_ahead (hs : 0 ∉ s) (hahead : Ahead s buf p)
    (h : strtok_r buf p ATTRIBUTE_DELIMITER = .ok (some a, buf', last)) :
    ∃ e, Token s buf' a e ∧
      ((e = s.length ∧ last = e) ∨ (s[e]? = some ATTRIBUTE_DELIMITER ∧ last = e + 1)) := by
  obtain ⟨a', hpa, hdelims, hnone | ⟨htok, e, hae, hpass, hend⟩⟩ := strtok_r_spec h
  · cases hnone
  obtain rfl : a = a' := by simpa using htok
  have hseen : ∀ j, a ≤ j → j < e → buf[j]? = s[j]? ∧ s[j]? ≠ some ATTRIBUTE_DELIMITER := by
    intro j haj hje
    obtain ⟨b, hb, hbd, hb0⟩ := hpass j haj hje
    have hsb := (hahead.rest j (by omega)).symm.trans hb
    have hj : j < s.length := by
      by_contra hge
      have hlt : j < (s ++ [(0 : Byte)]).length := (List.getElem?_eq_some_iff.mp hsb).1
      rw [List.length_append, List.length_singleton] at hlt
      obtain rfl : j = s.length := by omega
      rw [getElem?_terminator] at hsb
      exact hb0 (Option.some.inj hsb).symm
    rw [getElem?_terminated hj] at hsb
    exact ⟨hb.trans hsb.symm, by rw [hsb]; simpa using hbd⟩
  have hlt : e < s.length + 1 := by
    rw [← hahead.length]
    rcases hend with ⟨he, -⟩ | ⟨he, -⟩ <;> exact (List.getElem?_eq_some_iff.mp he).1
  have hstarts : ∀ m, a = m + 1 → a < e → s[m]? = some ATTRIBUTE_DELIMITER := by
    rintro m rfl hlt
    rcases Nat.lt_or_eq_of_le hpa with hpa | hpa
    · rw [← hdelims m (by omega) (by omega), hahead.rest m (by omega),
        getElem?_terminated (by omega)]
    · exact hahead.edge m hpa (by omega)
  rcases hend with ⟨he, rfl, hlast⟩ | ⟨he, rfl, hlast⟩
  · have hlen := eq_length_of_getElem? hs ((hahead.rest e (by omega)).symm.trans he)
    exact ⟨e, ⟨hahead.length, hae, by omega, hstarts, fun j h₁ h₂ => (hseen j h₁ h₂).2,
      fun j h₁ h₂ => (hseen j h₁ h₂).1, he, fun j hj => hahead.rest j (by omega)⟩,
      .inl ⟨hlen, hlast⟩⟩
  · have hse := (hahead.rest e (by omega)).symm.trans he
    have hle : e < s.length := by
      by_contra hge
      obtain rfl : e = s.length := by omega
      rw [getElem?_terminator] at hse
      exact absurd hse (by decide)
    rw [getElem?_terminated hle] at hse
    refine ⟨e, ⟨by rw [List.length_set, hahead.length], hae, by omega, hstarts,
      fun j h₁ h₂ => (hseen j h₁ h₂).2, fun j h₁ h₂ => ?_, ?_, fun j hj => ?_⟩, .inr ⟨hse, hlast⟩⟩
    · rw [List.getElem?_set_ne (by omega), (hseen j h₁ h₂).1]
    · rw [List.getElem?_set_self (by rw [hahead.length]; omega)]
    · rw [List.getElem?_set_ne (by omega), hahead.rest j (by omega)]

/-- Behind a token the next attribute is looked for. -/
theorem ahead_of_token {e : Nat} (hlen : buf.length = s.length + 1)
    (hhigh : ∀ j, e < j → buf[j]? = (s ++ [0])[j]?) (hzero : buf[e]? = some 0)
    (hend : (e = s.length ∧ last = e) ∨ (s[e]? = some ATTRIBUTE_DELIMITER ∧ last = e + 1)) :
    Ahead s buf last := by
  rcases hend with ⟨rfl, rfl⟩ | ⟨hdelim, rfl⟩
  · refine ⟨hlen, fun j hj => ?_, fun m _ hlt => absurd hlt (Nat.lt_irrefl _)⟩
    rcases Nat.lt_or_eq_of_le hj with hj | rfl
    · exact hhigh j hj
    · rw [hzero, getElem?_terminator]
  · exact ⟨hlen, fun j hj => hhigh j hj, fun m hm _ => Nat.succ.inj hm ▸ hdelim⟩

/-- The equals sign of a token. -/
theorem Token.equals {e k : Nat} (htoken : Token s buf a e)
    (h : strchr buf a EQUALS = .ok (some k)) :
    a ≤ k ∧ k < e ∧ s[k]? = some EQUALS ∧ ∀ j, a ≤ j → j < k → s[j]? ≠ some EQUALS := by
  obtain ⟨k', hak, hpass, hstop⟩ := strchr_spec h
  obtain ⟨heq, hk⟩ := hstop.resolve_right (by simp)
  obtain rfl : k = k' := by simpa using hk
  have hke : k < e := by
    rcases Nat.lt_trichotomy k e with hlt | rfl | hgt
    · exact hlt
    · rw [htoken.terminator] at heq
      exact absurd heq (by decide)
    · obtain ⟨b, hb, -, hb0⟩ := hpass e htoken.ordered hgt
      exact absurd (Option.some.inj (hb.symm.trans htoken.terminator)) hb0
  refine ⟨hak, hke, by rw [← htoken.seen k hak hke, heq], fun j h₁ h₂ hj => ?_⟩
  obtain ⟨b, hb, hbe, -⟩ := hpass j h₁ h₂
  exact hbe (Option.some.inj (hb.symm.trans ((htoken.seen j h₁ (by omega)).trans hj)))

/-- The string at `a`, when the terminator behind it is at `e`. -/
theorem text_between {e : Nat} (hs : 0 ∉ s) (hae : a ≤ e)
    (hseen : ∀ j, a ≤ j → j < e → buf[j]? = s[j]?) (hend : buf[e]? = some 0) :
    text buf a = (s.drop a).take (e - a) := by
  obtain ⟨hlt, hget⟩ := List.getElem?_eq_some_iff.mp hend
  have hmid : (buf.drop a).take (e - a) = (s.drop a).take (e - a) := by
    ext1 j
    by_cases hj : j < e - a
    · rw [List.getElem?_take_of_lt hj, List.getElem?_take_of_lt hj, List.getElem?_drop,
        List.getElem?_drop, hseen (a + j) (by omega) (by omega)]
    · rw [List.getElem?_take_eq_none (by omega), List.getElem?_take_eq_none (by omega)]
  have hbuf : buf = buf.take a ++ ((s.drop a).take (e - a) ++ 0 :: buf.drop (e + 1)) := by
    conv_lhs => rw [← List.take_append_drop a buf, ← List.take_append_drop (e - a) (buf.drop a)]
    rw [hmid, List.drop_drop, show a + (e - a) = e by omega, List.drop_eq_getElem_cons hlt, hget]
  refine text_eq hbuf (by rw [List.length_take]; omega) fun b hb hb0 => hs ?_
  exact hb0 ▸ List.mem_of_mem_drop (List.mem_of_mem_take hb)

end Token

/-! ### What is recorded -/

/-- A setter that keeps what it is given. -/
def record (l : List (List Byte × List Byte)) (attr value : List Byte) :
    List (List Byte × List Byte) :=
  l ++ [(attr, value)]

/-- A setting of the string. -/
def Stands (s attr value : List Byte) : Prop :=
  ∃ pre tail, Place pre attr tail ∧ s = withSetting pre attr tail value

section Record

variable {s buf buf' : List Byte} {a e equals stop : Nat}

/-- A string from `a` on, up to `equals`, from there to `stop` and on. -/
theorem split_at_setting (hae : a ≤ equals) (hle : equals < stop)
    (heq : s[equals]? = some EQUALS) :
    s = withSetting (s.take a) ((s.drop a).take (equals - a)) (s.drop stop)
      ((s.drop (equals + 1)).take (stop - (equals + 1))) := by
  obtain ⟨hlt', hget⟩ := List.getElem?_eq_some_iff.mp heq
  have hvalue : s.drop (equals + 1) =
      (s.drop (equals + 1)).take (stop - (equals + 1)) ++ s.drop stop := by
    conv_lhs => rw [← List.take_append_drop (stop - (equals + 1)) (s.drop (equals + 1))]
    rw [List.drop_drop, show equals + 1 + (stop - (equals + 1)) = stop by omega]
  have hattr : s.drop a = (s.drop a).take (equals - a) ++ EQUALS :: s.drop (equals + 1) := by
    conv_lhs => rw [← List.take_append_drop (equals - a) (s.drop a)]
    rw [List.drop_drop, show a + (equals - a) = equals by omega, List.drop_eq_getElem_cons hlt',
      hget]
  conv_lhs => rw [← List.take_append_drop a s, hattr, hvalue]
  simp [withSetting]

/-- **A record stands in the string.** The token from `a` to `e` has its first equals sign at
`equals`; the value has been cut off at `stop`. -/
theorem Token.stands (hs : 0 ∉ s) (htoken : Token s buf a e) (hae : a ≤ equals) (hee : equals < e)
    (heq : s[equals]? = some EQUALS)
    (hpass : ∀ j, a ≤ j → j < equals → s[j]? ≠ some EQUALS)
    (hcut : CutOff s (buf.set equals 0) buf' (equals + 1) stop) (hstop : equals < stop) :
    Stands s (text buf' a) (text buf' (equals + 1)) := by
  have hle := htoken.le
  have hattr : text buf' a = (s.drop a).take (equals - a) := by
    refine text_between hs hae (fun j h₁ h₂ => ?_) ?_
    · rw [hcut.low j (by omega), List.getElem?_set_ne (by omega), htoken.seen j h₁ (by omega)]
    · rw [hcut.low equals (by omega), List.getElem?_set_self (by rw [htoken.length]; omega)]
  have hvalue := text_between hs hstop hcut.seen hcut.terminator
  rw [hattr, hvalue]
  refine ⟨_, _, ⟨?_, ⟨fun h => ?_, fun h => ?_⟩, ?_⟩, split_at_setting hae hstop heq⟩
  · cases a with
    | zero => exact .inl rfl
    | succ m =>
      have hm := htoken.starts m rfl (by omega)
      obtain ⟨hlt, hget⟩ := List.getElem?_eq_some_iff.mp hm
      refine .inr ?_
      rw [List.take_succ_eq_append_getElem hlt, hget]
      simp
  · obtain ⟨j, hj⟩ := List.mem_iff_getElem?.mp h
    have hlt : j < equals - a := by
      by_contra hge
      rw [List.getElem?_take_eq_none (by omega)] at hj
      cases hj
    rw [List.getElem?_take_of_lt hlt, List.getElem?_drop] at hj
    exact htoken.whole (a + j) (by omega) (by omega) hj
  · obtain ⟨j, hj⟩ := List.mem_iff_getElem?.mp h
    have hlt : j < equals - a := by
      by_contra hge
      rw [List.getElem?_take_eq_none (by omega)] at hj
      cases hj
    rw [List.getElem?_take_of_lt hlt, List.getElem?_drop] at hj
    exact hpass (a + j) (by omega) (by omega) hj
  · rcases hcut.edge with rfl | h
    · exact .inl (List.drop_length)
    · exact .inr (by rw [List.head?_drop, h])

/-- The value goes to the end of the token. -/
theorem Token.cutOff (htoken : Token s buf a e)
    (hend : e = s.length ∨ s[e]? = some ATTRIBUTE_DELIMITER) (hae : a ≤ equals) (hee : equals < e) :
    CutOff s (buf.set equals 0) (buf.set equals 0) (equals + 1) e := by
  refine ⟨by rw [List.length_set, htoken.length], hee, htoken.le, fun _ _ => rfl, fun j h₁ h₂ => ?_, ?_,
    fun j hj => ?_, hend⟩
  · rw [List.getElem?_set_ne (by omega), htoken.seen j (by omega) h₂]
  · rw [List.getElem?_set_ne (by omega), htoken.terminator]
  · rw [List.getElem?_set_ne (by omega), htoken.high j hj]

/-- The search for the closing brace begins at a token that a semicolon has ended. -/
theorem Token.searching (htoken : Token s buf a e) (hend : s[e]? = some ATTRIBUTE_DELIMITER)
    (hlt : e < s.length) (hae : a ≤ equals) (hee : equals < e) :
    Searching s (buf.set equals 0) (buf.set equals 0) (equals + 1) (equals + 1) (some e) := by
  have hcut := htoken.cutOff (.inr hend) hae hee
  refine ⟨hcut.length, fun _ _ => rfl, nofun, ?_⟩
  intro d hd
  obtain rfl := Option.some.inj hd
  refine ⟨by omega, hlt, hcut.terminator, hend, fun j h₁ h₂ => ?_, fun j h₁ h₂ =>
    htoken.whole j (by omega) h₂⟩
  rcases Nat.lt_or_gt_of_ne h₂ with h | h
  · rw [hcut.seen j h₁ h, getElem?_terminated (by omega)]
  · exact hcut.high j h

/-- The terminator of a value is where it has been cut off. -/
theorem CutOff.strchr_zero {before : List Byte} {value : Nat} {r : Option Nat} (hs : 0 ∉ s)
    (hcut : CutOff s before buf value stop) (h : strchr buf value 0 = .ok r) :
    r = some stop := by
  obtain ⟨k, hk, hpass, ⟨hzero, rfl⟩ | ⟨h0, -⟩⟩ := strchr_spec h
  · rcases Nat.lt_trichotomy k stop with hlt | rfl | hgt
    · exact absurd (List.mem_of_getElem? ((hcut.seen k hk hlt).symm.trans hzero)) hs
    · rfl
    · obtain ⟨b, hb, hb0, -⟩ := hpass stop hcut.starts hgt
      exact absurd (Option.some.inj (hb.symm.trans hcut.terminator)) hb0
  · exact absurd rfl h0

/-- The next attribute is looked for behind the terminator. -/
theorem CutOff.ahead {before : List Byte} {value : Nat} (hcut : CutOff s before buf value stop) :
    Ahead s buf (stop + 1) := by
  refine ⟨hcut.length, fun j hj => hcut.high j hj, fun m hm hlt => ?_⟩
  obtain rfl : stop = m := by omega
  exact hcut.edge.resolve_left (by omega)

/-- A value that goes to the end of the string leaves the buffer as the string is. -/
theorem CutOff.ahead_of_length {before : List Byte} {value p : Nat}
    (hcut : CutOff s before buf value s.length) (hp : value ≤ p)
    (hedge : ∀ m, p = m + 1 → p < s.length → s[m]? = some ATTRIBUTE_DELIMITER) :
    Ahead s buf p := by
  refine ⟨hcut.length, fun j hj => ?_, hedge⟩
  rcases Nat.lt_trichotomy j s.length with hlt | rfl | hgt
  · rw [hcut.seen j (by omega) hlt, getElem?_terminated hlt]
  · rw [hcut.terminator, getElem?_terminator]
  · exact hcut.high j hgt

theorem forall_mem_record {l : List (List Byte × List Byte)} {attr value : List Byte}
    (hl : ∀ p ∈ l, Stands s p.1 p.2) (h : Stands s attr value) :
    ∀ p ∈ record l attr value, Stands s p.1 p.2 := by
  intro p hp
  rcases List.mem_append.mp hp with hp | hp
  · exact hl p hp
  · rw [List.mem_singleton.mp hp]
    exact h

/-- **The loop.** What is recorded stands in the string. -/
theorem getAttributes_stands {fuel last : Nat} {strtok_arg : Option Nat} {ret : Bool}
    {l l' : List (List Byte × List Byte)} (hs : 0 ∉ s)
    (hahead : Ahead s buf (strtok_arg.getD last)) (hl : ∀ p ∈ l, Stands s p.1 p.2)
    (h : getAttributes record s.length fuel buf strtok_arg last l = .ok (ret, l')) :
    ∀ p ∈ l', Stands s p.1 p.2 := by
  induction fuel generalizing buf strtok_arg last l with
  | zero => cases h
  | succ fuel ih =>
    rw [getAttributes] at h
    split at h
    · cases h
      exact hl
    obtain ⟨⟨pair, buf', last'⟩, htok, h⟩ := bind_eq_ok.mp h
    dsimp only at h
    cases pair with
    | none =>
      cases h
      exact hl
    | some a =>
      obtain ⟨e, htoken, hend⟩ := strtok_r_ahead hs hahead htok
      have hend' : e = s.length ∨ s[e]? = some ATTRIBUTE_DELIMITER := hend.imp And.left And.left
      obtain ⟨eq, hchr, h⟩ := bind_eq_ok.mp h
      cases eq with
      | none =>
        refine ih ?_ hl h
        exact ahead_of_token htoken.length htoken.high htoken.terminator hend
      | some equals =>
        obtain ⟨hae, hee, heq, hfirst⟩ := htoken.equals hchr
        have hcut := htoken.cutOff hend' hae hee
        have hstands := htoken.stands hs hae hee heq hfirst hcut hee
        have hrest := ahead_of_token hcut.length hcut.high hcut.terminator hend
        have hset := forall_mem_record hl hstands
        dsimp only at h
        obtain ⟨first, -, h⟩ := bind_eq_ok.mp h
        split at h
        · obtain ⟨delp, hdelp, h⟩ := bind_eq_ok.mp h
          obtain rfl := hcut.strchr_zero hs hdelp
          dsimp only at h
          split at h
          · cases h
            exact hset
          · rename_i hlt
            obtain ⟨closep, hclose, h⟩ := bind_eq_ok.mp h
            obtain ⟨next, -, h⟩ := bind_eq_ok.mp h
            split at h
            · exact ih hrest hset h
            · obtain ⟨r, hr, h⟩ := bind_eq_ok.mp h
              split at h
              · cases h
                exact hl
              · rename_i hret
                have hdelim := hend'.resolve_left (by omega)
                obtain ⟨stop, hcut', hstop⟩ := closingBracket_cutOff hs (le_refl _) (by omega)
                  (htoken.searching hdelim (by omega) hae hee) hclose hr (by simpa using hret)
                have hset' := forall_mem_record hl
                  (htoken.stands hs hae hee heq hfirst hcut' hcut'.starts)
                split at h
                · cases h
                  exact hset'
                · refine ih ?_ hset' h
                  rcases hstop with hstop | ⟨hstop, rfl⟩
                  · rw [hstop]
                    exact hcut'.ahead
                  · rw [hstop]
                    have hlast : e ≤ last' := by omega
                    exact hcut'.ahead_of_length (Nat.le_trans hee hlast) hrest.edge
        · exact ih hrest hset h

end Record

/-- **Every attribute stands in the string**, between two semicolons. -/
theorem dconn_get_attributes_stands {s : List Byte} {ret : Bool}
    {l : List (List Byte × List Byte)} (hs : 0 ∉ s)
    (h : dconn_get_attributes record s [] = .ok (ret, l)) : ∀ p ∈ l, Stands s p.1 p.2 :=
  getAttributes_stands hs ⟨by simp, fun _ _ => rfl, fun m hm => absurd hm (by simp)⟩ (by simp) h

/-! ### The passwords of a string -/

section Passwords

variable {s attr value : List Byte} {ret : Bool} {l : List (List Byte × List Byte)}

/-- **When a password does not reach the log.** What is taken for a password stands in the string,
and where it stands, two strings that differ in it alone are logged alike exactly when both
passwords are hidden. -/
theorem password_log_iff (hs : 0 ∉ s) (h : dconn_get_attributes record s [] = .ok (ret, l))
    (hmem : (attr, value) ∈ l) (hpass : isPasswordAttribute attr = true) :
    Stands s attr value ∧
      ∀ pre tail, Place pre attr tail → s = withSetting pre attr tail value → ∀ value',
        (SameLog pre attr tail value value' ↔ Hidden attr value ∧ Hidden attr value') :=
  ⟨dconn_get_attributes_stands hs h _ hmem, fun _ _ hplace _ _ => sameLog_iff hplace hpass⟩

/-- A password in the middle of a string. -/
theorem password_log_middle :
    SameLog (ascii "DSN=a;") (ascii "PWD") (ascii ";UID=b") (ascii "secret") (ascii "pw") :=
  ((password_log_iff (s := ascii "DSN=a;PWD=secret;UID=b") (by decide) rfl
    (List.mem_cons_of_mem _ List.mem_cons_self) rfl).2 _ _
    ⟨.inr rfl, ⟨by decide, by decide⟩, .inr rfl⟩ rfl _).mpr
    ⟨.inl ⟨.inl rfl, by decide⟩, .inl ⟨.inl rfl, by decide⟩⟩

/-- A place that is a whole string. -/
theorem Place.whole (hattr : IsName attr) : Place [] attr [] := ⟨.inl rfl, hattr, .inl rfl⟩

/-- Three strings whose password is taken for one and logged: two by the spelling of the keyword,
one by a semicolon in braces. -/
theorem password_logged :
    (dconn_get_attributes record (ascii "Password=a") [] =
        .ok (true, [(ascii "Password", ascii "a")]) ∧
      isPasswordAttribute (ascii "Password") = true ∧
      ¬ SameLog [] (ascii "Password") [] (ascii "a") (ascii "b")) ∧
    (dconn_get_attributes record (ascii "Pwd=a") [] = .ok (true, [(ascii "Pwd", ascii "a")]) ∧
      isPasswordAttribute (ascii "Pwd") = true ∧
      ¬ SameLog [] (ascii "Pwd") [] (ascii "a") (ascii "b")) ∧
    (dconn_get_attributes record (ascii "PWD=\x7ba;b\x7d") [] =
        .ok (true, [(ascii "PWD", ascii "\x7ba;b\x7d")]) ∧
      ¬ SameLog [] (ascii "PWD") [] (ascii "\x7ba;b\x7d") (ascii "\x7ba;c\x7d")) := by
  refine ⟨⟨rfl, rfl, fun h => ?_⟩, ⟨rfl, rfl, fun h => ?_⟩, ⟨rfl, fun h => ?_⟩⟩
  · have := ((sameLog_iff (Place.whole (by unfold IsName; decide)) rfl).mp h).1
    revert this
    unfold Hidden
    decide
  · have := ((sameLog_iff (Place.whole (by unfold IsName; decide)) rfl).mp h).1
    revert this
    unfold Hidden
    decide
  · have := ((sameLog_iff (Place.whole (by unfold IsName; decide)) rfl).mp h).1
    revert this
    unfold Hidden
    decide

end Passwords

end OdbcDriver.Connect
