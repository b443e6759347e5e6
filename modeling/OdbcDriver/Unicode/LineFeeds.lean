import OdbcDriver.Unicode.CodePoints

/-!
# Line feeds on both ways to UTF-16

With conversion of line feeds, `utf8_to_ucs2_lf` compares the bytes of a text with a line feed and a
carriage return, and no byte of a longer character is either. `ucs4_to_ucs2_lf` compares the lowest
byte of each character: U+010A is a line feed to it, and U+010D a carriage return. The two agree where
no character is misread in this way, and an `int` counts what they read and write.
-/

namespace OdbcDriver.Unicode

open OdbcDriver.Lib

/-! ### What is to be written -/

/-- The code units of some code points, with a carriage return before those for which `cr` holds;
`prev` stands before the first. -/
def expand (cr : Option UInt32 → UInt32 → Bool) : Option UInt32 → List UInt32 → List UInt16
  | _, [] => []
  | prev, v :: vs => (if cr prev v then [0x0d] else []) ++ utf16Form v ++ expand cr (some v) vs

/-- A U+000A that no U+000D precedes. -/
def lineFeed (prev : Option UInt32) (v : UInt32) : Bool := v = 0x0a ∧ prev ≠ some 0x0d

/-- What `ucs4_to_ucs2_lf` takes for one. -/
def looksLikeLineFeed (prev : Option UInt32) (v : UInt32) : Bool := LooksLikeLine prev v

/-- A string in UTF-16, with a carriage return before exactly the U+000A that no U+000D precedes. -/
def crlfUnits (vs : List UInt32) : List UInt16 := expand lineFeed none (upToNul vs)

/-- Both ways lead to the same string and the same length, whatever the size of the buffer. -/
def SameUtf16 (vs : List UInt32) : Prop :=
  ∀ bufcount < 2 ^ 31, ∀ errcheck,
    ucs4_to_ucs2_lf vs bufcount true =
        .ok ((crlfUnits vs).length, inBuffer bufcount (crlfUnits vs)) ∧
      utf8_to_ucs2_lf (some (utf8Forms vs)) true bufcount errcheck =
        .ok ⟨BitVec.ofNat 64 (crlfUnits vs).length, inBuffer bufcount (crlfUnits vs)⟩

/-! ### Misread characters -/

/-- Behind `prev`, the lowest byte of `v` or that of `prev` misleads `ucs4_to_ucs2_lf`. -/
inductive Misread : Option UInt32 → UInt32 → Prop
  /-- A character that is no line feed, but ends like one, and stands behind none that ends like a
  carriage return. -/
  | lineFeed {prev : Option UInt32} {v : UInt32} (hne : v ≠ 0x0a) (hlt : v.toNat < 0x10000)
      (hlow : v.toNat % 256 = 0x0a) (hprev : ∀ p ∈ prev, p.toNat % 256 ≠ 0x0d) : Misread prev v
  /-- A line feed behind a character that is no carriage return, but ends like one. -/
  | carriageReturn {p : UInt32} (hne : p ≠ 0x0d) (hlow : p.toNat % 256 = 0x0d) :
      Misread (some p) 0x0a

/-- Some character behind `prev` is misread. -/
def Misreads : Option UInt32 → List UInt32 → Prop
  | _, [] => False
  | prev, v :: vs => Misread prev v ∨ Misreads (some v) vs

theorem low_eq_iff (v : UInt32) (b : Byte) : v.toUInt8 = b ↔ v.toNat % 256 = b.toNat := by
  rw [← UInt8.toNat_inj, UInt32.toNat_toUInt8]

theorem looksLikeLineFeed_iff {prev : Option UInt32} {v : UInt32} :
    looksLikeLineFeed prev v = true ↔ v.toNat < 0x10000 ∧ v.toNat % 256 = 0x0a ∧
      ∀ p ∈ prev, p.toNat % 256 ≠ 0x0d := by
  rw [looksLikeLineFeed, decide_eq_true_eq, LooksLikeLine, low_eq_iff]
  refine and_congr_right fun _ => and_congr_right fun _ => ?_
  cases prev with
  | none => simp
  | some p => simp [low_eq_iff]

theorem misread_iff {prev : Option UInt32} {v : UInt32} :
    Misread prev v ↔ looksLikeLineFeed prev v ≠ lineFeed prev v := by
  have hlf : lineFeed prev v = true ↔ v = 0x0a ∧ prev ≠ some 0x0d := decide_eq_true_iff
  rw [ne_eq, Bool.eq_iff_iff, looksLikeLineFeed_iff, hlf]
  constructor
  · rintro (⟨hne, hlt, hlow, hprev⟩ | ⟨hne, hlow⟩)
    · exact fun h => hne (h.mp ⟨hlt, hlow, hprev⟩).1
    · exact fun h => (h.mpr ⟨rfl, by simpa using hne⟩).2.2 _ rfl hlow
  · intro h
    by_cases hv : v = 0x0a
    · subst hv
      cases prev with
      | none => exact absurd (iff_of_true ⟨by decide, by decide, by simp⟩ (by simp)) h
      | some p =>
        by_cases hlow : p.toNat % 256 = 0x0d
        · refine .carriageReturn (fun hp => h ?_) hlow
          subst hp
          exact iff_of_false (fun hlf => hlf.2.2 _ rfl hlow) (by simp)
        · refine absurd (iff_of_true ⟨by decide, by decide, by simpa using hlow⟩ ⟨rfl, ?_⟩) h
          rintro ⟨rfl⟩
          exact hlow rfl
    · by_contra hmis
      refine h (iff_of_false ?_ fun hlf => hv hlf.1)
      exact fun hlook => hmis (.lineFeed hv hlook.1 hlook.2.1 hlook.2.2)

/-- The first character that is misread tells the two strings apart. -/
theorem expand_eq_iff (prev : Option UInt32) (vs : List UInt32) :
    expand looksLikeLineFeed prev vs = expand lineFeed prev vs ↔ ¬ Misreads prev vs := by
  induction vs generalizing prev with
  | nil => simp [expand, Misreads]
  | cons v vs ih =>
    rw [expand, expand, Misreads, misread_iff, not_or, not_not, ← ih]
    by_cases heq : looksLikeLineFeed prev v = lineFeed prev v
    · rw [heq, List.append_cancel_left_eq]
      exact ⟨fun h => ⟨rfl, h⟩, And.right⟩
    · refine iff_of_false (fun h => ?_) fun h => heq h.1
      -- one begins with a carriage return, the other with a character that ends like a line feed
      have hlow : v.toNat < 0x10000 ∧ v.toNat % 256 = 0x0a := by
        rcases misread_iff.mpr heq with ⟨-, hlt, hlow, -⟩ | ⟨-, -⟩
        · exact ⟨hlt, hlow⟩
        · decide
      have hform : utf16Form v = [UInt16.ofNat v.toNat] := if_pos hlow.1
      have hne : UInt16.ofNat v.toNat ≠ 0x0d := by
        rw [ne_eq, ← UInt16.toNat_inj, UInt16.toNat_ofNat', Nat.mod_eq_of_lt hlow.1]
        change ¬ _ = 13
        omega
      cases hlook : looksLikeLineFeed prev v <;> cases hlf : lineFeed prev v <;>
        simp_all

/-! ### The two loops -/

/-- The byte in front of what follows `prev`. -/
def lastByte (prev : Option UInt32) : Option Byte := prev.bind fun p => (utf8Form p).getLast?

theorem lastByte_iff {prev : Option UInt32} :
    lastByte prev = some 0x0d ↔ prev = some 0x0d := by
  have htail : ∀ x : Byte, x &&& 0x3f ||| 0x80 ≠ 0x0d := by
    intro x h
    have hx := tail_toNat x
    rw [h] at hx
    change 13 = _ at hx
    omega
  cases prev with
  | none => simp [lastByte]
  | some p =>
    have hp : p = 0x0d ↔ p.toNat = 13 := UInt32.toNat_inj.symm
    rw [Option.some_inj, hp]
    change (utf8Form p).getLast? = _ ↔ _
    rw [utf8Form]
    split
    · next h =>
      rw [List.getLast?_singleton, Option.some_inj, low_eq_iff]
      change _ = 13 ↔ _
      omega
    · split
      · simp [htail]
        omega
      · split
        · simp [htail]
          omega
        · simp [htail]
          omega

theorem startsLine_iff {prev : Option UInt32} {v : UInt32} :
    StartsLine (lastByte prev) v ↔ lineFeed prev v = true := by
  rw [StartsLine, lineFeed, decide_eq_true_eq, ne_eq, lastByte_iff]

/-- `utf8_to_ucs2_lf` reads a string up to its NUL, where an `int` counts the bytes. -/
theorem utf8Loop_points {vs : List UInt32} (hvs : ∀ v ∈ vs, IsCodePoint v) (errcheck : Bool)
    (i : Nat) (prev : Option UInt32) (out : List UInt16) (hi : i < 2 ^ 31) :
    utf8Loop true errcheck i (lastByte prev) out (utf8Forms vs) =
      if i + (utf8Forms (upToNul vs)).length < 2 ^ 31 then
        .ok (some (out ++ expand lineFeed prev (upToNul vs)))
      else .error .overflow := by
  induction vs generalizing i prev out with
  | nil => simpa [utf8Forms, upToNul, expand, utf8Loop] using hi
  | cons v vs ih =>
    rw [List.forall_mem_cons] at hvs
    by_cases h0 : v = 0
    · subst h0
      simpa [utf8Forms, upToNul, expand, utf8Form, utf8Loop] using hi
    · change utf8Loop true errcheck i (lastByte prev) out (utf8Form v ++ utf8Forms vs) = _
      have hlen : (utf8Forms (v :: upToNul vs)).length =
          (utf8Form v).length + (utf8Forms (upToNul vs)).length := List.length_append
      rw [utf8Loop_form hvs.1 h0, upToNul_cons h0, hlen, ← Nat.add_assoc]
      by_cases hfits : i + (utf8Form v).length < 2 ^ 31
      · have hadd : intAdd i (utf8Form v).length = .ok (i + (utf8Form v).length) := if_pos hfits
        rw [hadd, ok_bind]
        refine (ih hvs.2 (i + (utf8Form v).length) (some v) _ hfits).trans ?_
        simp only [true_and, startsLine_iff, expand, List.append_assoc]
      · have hadd : intAdd i (utf8Form v).length = .error .overflow := if_neg hfits
        have hlong : ¬ i + (utf8Form v).length + (utf8Forms (upToNul vs)).length < 2 ^ 31 := by
          omega
        rw [hadd, if_neg hlong]
        rfl

/-- `ucs4_to_ucs2_lf` reads a string up to its NUL, where an `int` counts the code units. -/
theorem ucs4Loop_points {vs : List UInt32} (hvs : ∀ v ∈ vs, IsCodePoint v) (n i : Nat)
    (prev : Option UInt32) (out : List UInt16) (hi : i ≤ out.length) (hout : out.length < 2 ^ 31) :
    ucs4Loop true n i prev (.of n out) vs =
      if (out ++ expand looksLikeLineFeed prev (upToNul vs)).length < 2 ^ 31 then
        .ok (.of n (out ++ expand looksLikeLineFeed prev (upToNul vs)))
      else .error .overflow := by
  induction vs generalizing i prev out with
  | nil => simpa [upToNul, expand, ucs4Loop] using hout
  | cons v vs ih =>
    rw [List.forall_mem_cons] at hvs
    by_cases h0 : v = 0
    · subst h0
      simpa [upToNul, expand, ucs4Loop] using hout
    · rw [ucs4Loop_form hvs.1 h0, upToNul_cons h0]
      have hpos := length_pos_utf16Form v
      have hlook : LooksLikeLine prev v ↔ looksLikeLineFeed prev v = true := by
        rw [looksLikeLineFeed, decide_eq_true_eq]
      have hstep : out ++ expand looksLikeLineFeed prev (v :: upToNul vs) =
          out ++ ((if true = true ∧ LooksLikeLine prev v then [0x0d] else []) ++ utf16Form v) ++
            expand looksLikeLineFeed (some v) (upToNul vs) := by
        simp only [expand, true_and, hlook, List.append_assoc]
      rw [hstep]
      generalize hpiece : (if true = true ∧ LooksLikeLine prev v then [0x0d] else []) ++
        utf16Form v = piece
      have hlen : 0 < piece.length := by
        rw [← hpiece, List.length_append]
        omega
      by_cases hfits : (out ++ piece).length < 2 ^ 31
      · have hmore : i + 1 ≤ (out ++ piece).length := by
          rw [List.length_append]
          omega
        rw [if_pos hfits, intAdd, if_pos (by omega), ok_bind]
        exact ih hvs.2 (i + 1) (some v) _ hmore hfits
      · rw [if_neg hfits, if_neg (by rw [List.length_append]; omega)]

theorem utf8_to_ucs2_points {vs : List UInt32} (hvs : ∀ v ∈ vs, IsCodePoint v) (bufcount : Nat)
    (errcheck : Bool) :
    utf8_to_ucs2_lf (some (utf8Forms vs)) true bufcount errcheck =
      if (utf8Forms (upToNul vs)).length < 2 ^ 31 then
        .ok ⟨BitVec.ofNat 64 (crlfUnits vs).length, inBuffer bufcount (crlfUnits vs)⟩
      else .error .overflow := by
  have h := utf8Loop_points hvs errcheck 0 none [] (by decide)
  rw [Nat.zero_add, List.nil_append] at h
  change (utf8Loop true errcheck 0 (lastByte none) [] (utf8Forms vs) >>= _) = _
  rw [h]
  split <;> rfl

theorem ucs4_to_ucs2_points {vs : List UInt32} (hvs : ∀ v ∈ vs, IsCodePoint v) (bufcount : Nat) :
    ucs4_to_ucs2_lf vs bufcount true =
      if (expand looksLikeLineFeed none (upToNul vs)).length < 2 ^ 31 then
        .ok ((expand looksLikeLineFeed none (upToNul vs)).length,
          inBuffer bufcount (expand looksLikeLineFeed none (upToNul vs)))
      else .error .overflow := by
  have h := ucs4Loop_points hvs bufcount 0 none [] (Nat.zero_le _) (by decide)
  rw [List.nil_append] at h
  rw [ucs4_to_ucs2_lf, Written.empty_eq (n := bufcount), h]
  split <;> rfl

/-! ### When they agree -/

/-- **Line feeds on both ways.** UTF-32 and UTF-8 lead to the same UTF-16 exactly when an `int` counts
the bytes of the one and the code units of the other, and no character is misread. -/
theorem same_utf16_iff {vs : List UInt32} (hvs : ∀ v ∈ vs, IsCodePoint v) :
    SameUtf16 vs ↔ (utf8Forms (upToNul vs)).length < 2 ^ 31 ∧ (crlfUnits vs).length < 2 ^ 31 ∧
      ¬ Misreads none (upToNul vs) := by
  rw [← expand_eq_iff]
  constructor
  · intro h
    have hbytes : (utf8Forms (upToNul vs)).length < 2 ^ 31 := by
      by_contra hlong
      have h8 := (h 0 (by decide) false).2
      rw [utf8_to_ucs2_points hvs, if_neg hlong] at h8
      cases h8
    have hunits : (expand looksLikeLineFeed none (upToNul vs)).length < 2 ^ 31 := by
      by_contra hlong
      have h4 := (h 0 (by decide) false).1
      rw [ucs4_to_ucs2_points hvs, if_neg hlong] at h4
      cases h4
    have hwritten : ∀ bufcount < 2 ^ 31,
        (expand looksLikeLineFeed none (upToNul vs)).length = (crlfUnits vs).length ∧
        inBuffer bufcount (expand looksLikeLineFeed none (upToNul vs)) =
          inBuffer bufcount (crlfUnits vs) := by
      intro bufcount hcount
      have h4 := (h bufcount hcount false).1
      rw [ucs4_to_ucs2_points hvs, if_pos hunits] at h4
      simpa using h4
    obtain ⟨hlen, -⟩ := hwritten 0 (by decide)
    -- a buffer of just the length shows all of both strings
    obtain ⟨-, heq⟩ := hwritten (crlfUnits vs).length (by omega)
    refine ⟨hbytes, by omega, ?_⟩
    rw [inBuffer, inBuffer, hlen, if_neg (lt_irrefl _), List.append_nil, List.append_nil,
      List.take_length, List.take_of_length_le hlen.le] at heq
    exact heq
  · rintro ⟨hbytes, hunits, heq⟩ bufcount - errcheck
    refine ⟨?_, ?_⟩
    · rw [ucs4_to_ucs2_points hvs, heq]
      exact if_pos hunits
    · rw [utf8_to_ucs2_points hvs, if_pos hbytes]

/-- `a`, CR, LF, `Ċ` behind `č`, LF: the two ways agree. -/
theorem same_utf16_lines : SameUtf16 [0x61, 0x0d, 0x0a, 0x10d, 0x10a, 0x0a] := by
  refine (same_utf16_iff (by simp [IsCodePoint])).mpr ⟨by decide, by decide, ?_⟩
  rw [← expand_eq_iff]
  decide

/-- A carriage return is put in front of `Ċ`, which is no line feed. -/
theorem carriage_return_inserted :
    ¬ SameUtf16 [0x10a] ∧ ucs4_to_ucs2_lf [0x10a] 3 true = .ok (2, [0x0d, 0x10a, 0]) ∧
      utf8_to_ucs2_lf (some (utf8Forms [0x10a])) true 3 true = .ok ⟨1, [0x10a, 0]⟩ := by
  refine ⟨fun h => ?_, by decide, by decide⟩
  have h4 := (h 3 (by decide) true).1
  revert h4
  decide

end OdbcDriver.Unicode
