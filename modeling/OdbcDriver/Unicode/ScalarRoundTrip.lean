import OdbcDriver.Unicode.CodePoints

/-!
# Through UTF-8 and UTF-16, and back to UTF-32

`ucs4_to_utf8` and `utf8_to_ucs4_lf`, and `ucs4_to_ucs2_lf` and `ucs2_to_ucs4`, without conversion
of line feeds, lead back to the scalar values they start from. All of them stop at a U+0000. The last
three count the same length with and without a buffer, which their callers allocate; the first
allocates four bytes for each character.
-/

namespace OdbcDriver.Unicode

open OdbcDriver.Lib

/-- A conversion produces these units, and counts them all, whatever the size of the buffer. -/
def Produces {α : Type} [OfNat α 0] (conv : Nat → Except Fault (Int × List α))
    (units : List α) : Prop :=
  ∀ bufcount, conv bufcount = .ok (units.length, inBuffer bufcount units)

/-- The way from `vs` to UTF-8 and back to `back`. The text and its terminator lie within what
`ucs4_to_utf8` allocates. -/
def ThroughUtf8 (vs back : List UInt32) : Prop :=
  ∃ text : List Byte, ucs4_to_utf8 (some vs) false = .ok (some text, text.length) ∧
    text.length + 1 ≤ vs.length * 4 + 1 ∧
    ∀ bufcount errcheck, utf8_to_ucs4_lf (some text) false bufcount errcheck =
      .ok ⟨BitVec.ofNat 64 back.length, inBuffer bufcount back⟩

/-- The way from `vs` to UTF-16 and back to `back`. -/
def ThroughUtf16 (vs back : List UInt32) : Prop :=
  ∃ units : List UInt16, Produces (fun bufcount => ucs4_to_ucs2_lf vs bufcount false) units ∧
    Produces (ucs2_to_ucs4 units) back

/-! ### The loops -/

section Loops

variable {vs : List UInt32}

theorem utf8Forms_cons (v : UInt32) (vs : List UInt32) :
    utf8Forms (v :: vs) = utf8Form v ++ utf8Forms vs := rfl

theorem utf16Forms_cons (v : UInt32) (vs : List UInt32) :
    utf16Forms (v :: vs) = utf16Form v ++ utf16Forms vs := rfl

theorem intAdd_ok {a b : Nat} (h : a + b < 2 ^ 31) : intAdd a b = .ok (a + b) := if_pos h

theorem length_utf8Form (v : UInt32) : 0 < (utf8Form v).length ∧ (utf8Form v).length ≤ 4 := by
  rw [utf8Form]
  split_ifs <;> simp

theorem ucs4Utf8Loop_points (i : Nat) (out : List Byte) (hi : i ≤ out.length)
    (h : out.length + (utf8Forms (upToNul vs)).length < 2 ^ 31) :
    ucs4Utf8Loop false i out.length out vs = .ok (out ++ utf8Forms (upToNul vs)) := by
  induction vs generalizing i out with
  | nil => simp [ucs4Utf8Loop, upToNul, utf8Forms]
  | cons v vs ih =>
    by_cases h0 : v = 0
    · subst h0
      simp [ucs4Utf8Loop, upToNul, utf8Forms]
    · have hv := (length_utf8Form v).1
      rw [upToNul_cons h0, utf8Forms_cons, List.length_append] at h
      have hlen : intAdd out.length (utf8Form v).length = .ok (out ++ utf8Form v).length := by
        rw [List.length_append]
        exact intAdd_ok (by omega)
      rw [ucs4Utf8Loop_form h0, hlen, ok_bind, intAdd_ok (by omega), ok_bind, upToNul_cons h0,
        utf8Forms_cons, ← List.append_assoc]
      have hout : (out ++ utf8Form v).length = out.length + (utf8Form v).length :=
        List.length_append
      exact ih (i + 1) (out ++ utf8Form v) (by omega) (by omega)

theorem utf8Ucs4Loop_points (hvs : ∀ v ∈ vs, IsCodePoint v ∧ v ≠ 0) (errcheck : Bool) (n i : Nat)
    (prev : Option Byte) (out : List UInt32) (h : i + (utf8Forms vs).length < 2 ^ 31) :
    utf8Ucs4Loop false errcheck n i prev (.of n out) (utf8Forms vs) =
      .ok (some (.of n (out ++ vs))) := by
  induction vs generalizing i prev out with
  | nil => simp [utf8Ucs4Loop, utf8Forms]
  | cons v vs ih =>
    rw [List.forall_mem_cons] at hvs
    rw [utf8Forms_cons, List.length_append] at h
    rw [utf8Forms_cons, utf8Ucs4Loop_form hvs.1.1 hvs.1.2, intAdd_ok (by omega), ok_bind,
      if_neg (fun hline => Bool.false_ne_true hline.1), List.append_nil,
      ih hvs.2 _ _ _ (by omega), List.append_assoc, List.singleton_append]

theorem ucs4Loop_units (hvs : ∀ v ∈ vs, IsCodePoint v) (n i : Nat) (prev : Option UInt32)
    (out : List UInt16) (hi : i ≤ out.length)
    (h : out.length + (utf16Forms (upToNul vs)).length < 2 ^ 31) :
    ucs4Loop false n i prev (.of n out) vs = .ok (.of n (out ++ utf16Forms (upToNul vs))) := by
  induction vs generalizing i prev out with
  | nil => simp [ucs4Loop, upToNul, utf16Forms]
  | cons v vs ih =>
    rw [List.forall_mem_cons] at hvs
    by_cases h0 : v = 0
    · subst h0
      simp [ucs4Loop, upToNul, utf16Forms]
    · have hv := length_pos_utf16Form v
      rw [upToNul_cons h0, utf16Forms_cons, List.length_append] at h
      have hout : (out ++ utf16Form v).length = out.length + (utf16Form v).length :=
        List.length_append
      have hline : ¬ (false = true ∧ LooksLikeLine prev v) := fun hline =>
        Bool.false_ne_true hline.1
      rw [ucs4Loop_form hvs.1 h0, if_neg hline, List.nil_append, if_pos (by omega),
        intAdd_ok (by omega), ok_bind, ih hvs.2 _ _ _ (by omega) (by omega), upToNul_cons h0,
        utf16Forms_cons, List.append_assoc]

theorem ucs2Ucs4Loop_points (hvs : ∀ v ∈ vs, IsCodePoint v ∧ v ≠ 0)
    (hsur : ∀ v ∈ vs, ¬ (0xd800 ≤ v.toNat ∧ v.toNat < 0xe000)) (n i : Nat) (out : List UInt32)
    (hi : out.length ≤ i) (h : i + (utf16Forms vs).length < 2 ^ 31) :
    ucs2Ucs4Loop n i (.of n out) (utf16Forms vs) = .ok (.of n (out ++ vs)) := by
  induction vs generalizing i out with
  | nil => simp [ucs2Ucs4Loop, utf16Forms]
  | cons v vs ih =>
    rw [List.forall_mem_cons] at hvs hsur
    have hv := length_pos_utf16Form v
    rw [utf16Forms_cons, List.length_append] at h
    have hout : (out ++ [v]).length = out.length + 1 := List.length_append
    rw [utf16Forms_cons, ucs2Ucs4Loop_form hvs.1.1 hvs.1.2 hsur.1, if_pos (by omega),
      intAdd_ok (by omega), ok_bind, ih hvs.2 hsur.2 _ _ (by omega) (by omega),
      List.append_assoc, List.singleton_append]

end Loops

/-! ### Scalar values -/

theorem isCodePoint_char (c : Char) : IsCodePoint c.val := by
  have h := c.valid
  simp only [UInt32.isValidChar, Nat.isValidChar] at h
  change c.val.toNat < 0x110000
  omega

theorem not_surrogate_char (c : Char) : ¬ (0xd800 ≤ c.val.toNat ∧ c.val.toNat < 0xe000) := by
  have h := c.valid
  simp only [UInt32.isValidChar, Nat.isValidChar] at h
  omega

/-- What lies in front of a NUL, in a string of scalar values. -/
theorem upToNul_scalars (cs : List Char) : ∀ v ∈ upToNul (cs.map Char.val),
    IsCodePoint v ∧ v ≠ 0 ∧ ¬ (0xd800 ≤ v.toNat ∧ v.toNat < 0xe000) := by
  intro v hv
  have h0 : v ≠ 0 := by
    simpa using List.all_eq_true.mp List.all_takeWhile v hv
  obtain ⟨c, -, rfl⟩ := List.mem_map.mp ((List.takeWhile_prefix _).subset hv)
  exact ⟨isCodePoint_char c, h0, not_surrogate_char c⟩

theorem length_utf8Forms_le (vs : List UInt32) : (utf8Forms vs).length ≤ vs.length * 4 := by
  induction vs with
  | nil => exact le_rfl
  | cons v vs ih =>
    have hv := (length_utf8Form v).2
    rw [utf8Forms_cons, List.length_append, List.length_cons]
    omega

theorem throughUtf8_scalars (cs : List Char)
    (h : (utf8Forms (upToNul (cs.map Char.val))).length < 2 ^ 31) :
    ThroughUtf8 (cs.map Char.val) (upToNul (cs.map Char.val)) := by
  have hcs := upToNul_scalars cs
  generalize cs.map Char.val = vs at h hcs
  refine ⟨utf8Forms (upToNul vs), ?_, ?_, ?_⟩
  · have hloop : ucs4Utf8Loop false 0 ([] : List Byte).length [] vs = _ :=
      ucs4Utf8Loop_points 0 [] le_rfl (by simpa using h)
    rw [List.nil_append] at hloop
    change (ucs4Utf8Loop false 0 0 [] vs >>= _) = _
    rw [List.length_nil] at hloop
    rw [hloop]
    rfl
  · have hprefix : (upToNul vs).length ≤ vs.length := (List.takeWhile_prefix _).length_le
    have hle := length_utf8Forms_le (upToNul vs)
    omega
  · intro bufcount errcheck
    have hloop := utf8Ucs4Loop_points (fun v hv => ⟨(hcs v hv).1, (hcs v hv).2.1⟩) errcheck
      bufcount 0 none [] (by omega)
    rw [List.nil_append, ← Written.empty_eq] at hloop
    rw [utf8_to_ucs4_lf, hloop]
    rfl

theorem throughUtf16_scalars (cs : List Char)
    (h : (utf16Forms (upToNul (cs.map Char.val))).length < 2 ^ 31) :
    ThroughUtf16 (cs.map Char.val) (upToNul (cs.map Char.val)) := by
  have hpoints : ∀ v ∈ cs.map Char.val, IsCodePoint v :=
    List.forall_mem_map.mpr fun c _ => isCodePoint_char c
  have hcs := upToNul_scalars cs
  generalize cs.map Char.val = vs at h hcs hpoints
  refine ⟨utf16Forms (upToNul vs), ?_, ?_⟩
  · intro bufcount
    have hloop := ucs4Loop_units hpoints bufcount 0 none [] le_rfl (by simpa using h)
    rw [List.nil_append, ← Written.empty_eq] at hloop
    change (ucs4Loop false bufcount 0 none .empty vs >>= _) = _
    rw [hloop]
    rfl
  · intro bufcount
    have hloop := ucs2Ucs4Loop_points (fun v hv => ⟨(hcs v hv).1, (hcs v hv).2.1⟩)
      (fun v hv => (hcs v hv).2.2) bufcount 0 [] le_rfl (by omega)
    rw [List.nil_append, ← Written.empty_eq] at hloop
    rw [ucs2_to_ucs4, hloop]
    rfl

/-- **There and back.** Scalar values come back, up to the first U+0000, where an `int` counts the
bytes, or the code units, in between. -/
theorem scalars_there_and_back (cs : List Char) :
    ((utf8Forms (upToNul (cs.map Char.val))).length < 2 ^ 31 →
        ThroughUtf8 (cs.map Char.val) (upToNul (cs.map Char.val))) ∧
      ((utf16Forms (upToNul (cs.map Char.val))).length < 2 ^ 31 →
        ThroughUtf16 (cs.map Char.val) (upToNul (cs.map Char.val))) :=
  ⟨throughUtf8_scalars cs, throughUtf16_scalars cs⟩

/-- `zß€𐍈`. -/
theorem four_lengths_there_and_back : ThroughUtf8 [0x7a, 0xdf, 0x20ac, 0x10348]
      [0x7a, 0xdf, 0x20ac, 0x10348] ∧
    ThroughUtf16 [0x7a, 0xdf, 0x20ac, 0x10348] [0x7a, 0xdf, 0x20ac, 0x10348] := by
  have h := scalars_there_and_back ['z', 'ß', '€', '𐍈']
  exact ⟨h.1 (by decide), h.2 (by decide)⟩

/-- U+0000 does not come back. -/
theorem nul_not_back : ¬ ThroughUtf8 [0] [0] ∧ ¬ ThroughUtf16 [0] [0] := by
  constructor
  · rintro ⟨text, henc, -, hdec⟩
    cases henc
    have h := hdec 1 false
    revert h
    decide
  · rintro ⟨units, henc, hdec⟩
    have hlen := henc 2
    have hunits : units = [] := by
      cases units with
      | nil => rfl
      | cons u us =>
        have hzero : (0 : Int) = (us.length + 1 : Nat) :=
          congrArg Prod.fst (Except.ok.inj hlen)
        omega
    subst hunits
    have h := hdec 1
    revert h
    decide

end OdbcDriver.Unicode
