import OdbcDriver.Unicode.RoundTrip

/-!
# The error check of `utf8_to_ucs2_lf`

With its error check on, the conversion looks at the lead byte of each character, at what is left of
the text, and at the first bit of each byte that follows. It does not look further, so that it
accepts more than UTF-8: long forms, surrogates, numbers above the last code point, and bytes that
follow with both upper bits set. It also stops at a NUL. A text is cut into the pieces that the check
accepts (`cut`), and `error_check_strict_iff` says for which texts it is as strict as UTF-8.
-/

namespace OdbcDriver.Unicode

open OdbcDriver.Lib

/-! ### Pieces -/

/-- A piece in front of others. -/
def consPiece (p : List Byte) (c : List (List Byte) × List Byte) : List (List Byte) × List Byte :=
  (p :: c.1, c.2)

/-- The pieces of a text up to its end, to a NUL or to the first thing that the check refuses, and
what is left of it then. -/
def cut : List Byte → List (List Byte) × List Byte
  | [] => ([], [])
  | a :: str =>
    if a = 0 then ([], a :: str)
    else if a.toNat < 0x80 then consPiece [a] (cut str)
    else if a.toNat < 0xc0 then ([], a :: str)
    else if a.toNat < 0xe0 then
      match str with
      | b :: str' => if highClear b then ([], a :: str) else consPiece [a, b] (cut str')
      | _ => ([], a :: str)
    else if a.toNat < 0xf0 then
      match str with
      | b :: c :: str' =>
        if highClear b || highClear c then ([], a :: str) else consPiece [a, b, c] (cut str')
      | _ => ([], a :: str)
    else if a.toNat < 0xf8 then
      match str with
      | b :: c :: d :: str' =>
        if highClear b || highClear c || highClear d then ([], a :: str)
        else consPiece [a, b, c, d] (cut str')
      | _ => ([], a :: str)
    else ([], a :: str)

/-- How many bytes the first byte of a text asks for, where it asks for others. -/
def need : List Byte → Nat
  | [] => 0
  | a :: _ =>
    if a.toNat < 0xc0 then 0
    else if a.toNat < 0xe0 then 2
    else if a.toNat < 0xf0 then 3
    else if a.toNat < 0xf8 then 4
    else 0

/-- A text is at its end, or at a NUL. -/
def AtEnd (str : List Byte) : Prop := str = [] ∨ str.head? = some 0

instance (str : List Byte) : Decidable (AtEnd str) := inferInstanceAs (Decidable (_ ∨ _))

/-- The check is as strict as UTF-8 on a text: an `int` counts what it reads of it, and when all of
it passes up to its end or to a NUL, there is no NUL and every piece is a character. -/
def Strict (str : List Byte) : Prop :=
  (cut str).1.flatten.length + need (cut str).2 < 2 ^ 31 ∧
    (AtEnd (cut str).2 → (cut str).2 = [] ∧
      ∀ p ∈ (cut str).1, ∃ c : Char, p = String.utf8EncodeChar c)

/-- What is cut is the text. -/
theorem cut_flatten (str : List Byte) : (cut str).1.flatten ++ (cut str).2 = str := by
  fun_induction cut str <;> simp_all [consPiece]

/-- No piece is a NUL. -/
theorem cut_ne_zero (str : List Byte) : ∀ p ∈ (cut str).1, p.head? ≠ some 0 := by
  fun_induction cut str <;> simp_all [consPiece]

/-! ### The loop over the pieces -/

/-- How the loop ends on a text that is cut as `c`: it gives up exactly when something is left that
is no end, and an `int` must count what it reads. -/
structure LoopEnds (i : Nat) (out : List UInt16) (str : List Byte)
    (c : List (List Byte) × List Byte) : Prop where
  fits : i + c.1.flatten.length + need c.2 < 2 ^ 31 → ∃ r,
    utf8Loop false true i none out str = .ok r ∧ (r.isSome = true ↔ AtEnd c.2) ∧
      ∀ u, r = some u → u.length < 2 ^ 31
  overflows : 2 ^ 31 ≤ i + c.1.flatten.length + need c.2 →
    utf8Loop false true i none out str = .error .overflow

/-- A piece is read, and the loop goes on behind it. -/
theorem LoopEnds.consPiece {p : List Byte} {u : List UInt16} {i : Nat} {out : List UInt16}
    {str : List Byte} (hout : out.length ≤ i) (hunits : u.length ≤ p.length)
    (hloop : utf8Loop false true i none out (p ++ str) =
      intAdd i p.length >>= fun i => utf8Loop false true i none (out ++ u) str)
    (ih : ∀ (i : Nat) (out : List UInt16), i < 2 ^ 31 → out.length ≤ i →
      LoopEnds i out str (cut str)) :
    LoopEnds i out (p ++ str) (consPiece p (cut str)) := by
  have hlen : (p :: (cut str).1).flatten.length = p.length + (cut str).1.flatten.length := by
    rw [List.flatten_cons, List.length_append]
  by_cases h : i + p.length < 2 ^ 31
  · have hout' : (out ++ u).length ≤ i + p.length := by
      rw [List.length_append]
      omega
    obtain ⟨hfits, hoverflows⟩ := ih (i + p.length) (out ++ u) h hout'
    rw [intAdd, if_pos h, ok_bind] at hloop
    constructor
    · intro hlt
      rw [Unicode.consPiece, hlen, ← Nat.add_assoc] at hlt
      rw [hloop]
      exact hfits hlt
    · intro hge
      rw [Unicode.consPiece, hlen, ← Nat.add_assoc] at hge
      rw [hloop]
      exact hoverflows hge
  · rw [intAdd, if_neg h, error_bind] at hloop
    constructor
    · intro hlt
      rw [Unicode.consPiece, hlen] at hlt
      omega
    · exact fun _ => hloop

/-- The check refuses what is left, once it has counted the bytes that it asks for. -/
theorem LoopEnds.refuse {a : Byte} {str : List Byte} {i : Nat} {out : List UInt16} (h0 : a ≠ 0)
    (hloop : utf8Loop false true i none out (a :: str) =
      intAdd i (need (a :: str)) >>= fun _ => .ok none) :
    LoopEnds i out (a :: str) ([], a :: str) := by
  have hend : ¬ AtEnd (a :: str) := by
    simpa [AtEnd] using h0
  constructor
  · intro hlt
    rw [List.flatten_nil, List.length_nil, Nat.add_zero] at hlt
    rw [intAdd, if_pos hlt, ok_bind] at hloop
    exact ⟨none, hloop, by simpa using hend, by simp⟩
  · intro hge
    rw [List.flatten_nil, List.length_nil, Nat.add_zero] at hge
    rw [hloop, intAdd, if_neg (Nat.not_lt.mpr hge), error_bind]

theorem need_stray {a : Byte} (h : 0x80 ≤ a.toNat ∧ a.toNat < 0xc0 ∨ 0xf8 ≤ a.toNat)
    (str : List Byte) : need (a :: str) = 0 := by
  rw [need]
  split_ifs <;> omega

theorem need_two {a : Byte} (hlo : 0xc0 ≤ a.toNat) (hhi : a.toNat < 0xe0) (str : List Byte) :
    need (a :: str) = 2 := by
  rw [need, if_neg (by omega), if_pos hhi]

theorem need_three {a : Byte} (hlo : 0xe0 ≤ a.toNat) (hhi : a.toNat < 0xf0) (str : List Byte) :
    need (a :: str) = 3 := by
  rw [need, if_neg (by omega), if_neg (by omega), if_pos hhi]

theorem need_four {a : Byte} (hlo : 0xf0 ≤ a.toNat) (hhi : a.toNat < 0xf8) (str : List Byte) :
    need (a :: str) = 4 := by
  rw [need, if_neg (by omega), if_neg (by omega), if_neg (by omega), if_pos hhi]

/-- The loop over the pieces of a text, and over what is left. -/
theorem utf8Loop_cut (str : List Byte) (i : Nat) (out : List UInt16) (hi : i < 2 ^ 31)
    (hout : out.length ≤ i) : LoopEnds i out str (cut str) := by
  have hstray : ∀ (a : Byte) (str : List Byte) (i : Nat) (out : List UInt16), i < 2 ^ 31 →
      0x80 ≤ a.toNat ∧ a.toNat < 0xc0 ∨ 0xf8 ≤ a.toNat →
      LoopEnds i out (a :: str) ([], a :: str) := by
    intro a str i out hi h
    refine LoopEnds.refuse (lead_ne_zero (by omega)) ?_
    rw [utf8Loop_stray h, need_stray h, intAdd, Nat.add_zero, if_pos hi, ok_bind]
  have hfound : ∀ (str : List Byte) (i : Nat) (out : List UInt16), i < 2 ^ 31 → out.length ≤ i →
      AtEnd str → need str = 0 → utf8Loop false true i none out str = .ok (some out) →
      LoopEnds i out str ([], str) := by
    intro str i out hi hout hend hneed hloop
    constructor
    · refine fun _ => ⟨some out, hloop, by simpa using hend, fun u hu => ?_⟩
      obtain rfl := Option.some.inj hu
      omega
    · intro hge
      rw [List.flatten_nil, List.length_nil, hneed] at hge
      omega
  fun_induction cut str generalizing i out with
  | case1 => exact hfound [] i out hi hout (.inl rfl) rfl rfl
  | case2 str => exact hfound (0 :: str) i out hi hout (.inr rfl) rfl (by simp [utf8Loop])
  | case3 a str h0 h ih =>
    refine LoopEnds.consPiece (p := [a]) (u := [a.toUInt16]) hout (by simp) ?_ ih
    exact utf8Loop_one h0 h true i out str
  | case4 a str h0 hlo hhi => exact hstray a str i out hi (.inl ⟨by omega, hhi⟩)
  | case5 a h0 _ hlo hhi b str hb =>
    refine LoopEnds.refuse h0 ?_
    rw [utf8Loop_lead2 (by omega) hhi, need_two (by omega) hhi]
    simp [hb]
  | case6 a h0 _ hlo hhi b str hb ih =>
    refine LoopEnds.consPiece (p := [a, b]) (u := [wide2 a b]) hout (by simp) ?_ ih
    exact utf8Loop_two (by omega) hhi (by simpa using hb) true i out str
  | case7 a str h0 _ hlo hhi hshort =>
    refine LoopEnds.refuse h0 ?_
    rw [utf8Loop_lead2 (by omega) hhi, need_two (by omega) hhi]
    rcases str with _ | ⟨b, str⟩
    · rfl
    · exact (hshort b str rfl).elim
  | case8 a h0 _ _ hlo hhi b c str hbc =>
    refine LoopEnds.refuse h0 ?_
    rw [utf8Loop_lead3 (by omega) hhi, need_three (by omega) hhi]
    simp only [Bool.or_eq_true] at hbc
    simp [hbc]
  | case9 a h0 _ _ hlo hhi b c str hbc ih =>
    simp only [Bool.or_eq_true, not_or, Bool.not_eq_true] at hbc
    refine LoopEnds.consPiece (p := [a, b, c]) (u := [wide3 a b c]) hout (by simp) ?_ ih
    exact utf8Loop_three (by omega) hhi hbc.1 hbc.2 true i out str
  | case10 a str h0 _ _ hlo hhi hshort =>
    refine LoopEnds.refuse h0 ?_
    rw [utf8Loop_lead3 (by omega) hhi, need_three (by omega) hhi]
    rcases str with _ | ⟨b, _ | ⟨c, str⟩⟩
    · rfl
    · rfl
    · exact (hshort b c str rfl).elim
  | case11 a h0 _ _ _ hlo hhi b c d str hbcd =>
    refine LoopEnds.refuse h0 ?_
    rw [utf8Loop_lead4 (by omega) hhi, need_four (by omega) hhi]
    simp only [Bool.or_eq_true, or_assoc] at hbcd
    simp [hbcd]
  | case12 a h0 _ _ _ hlo hhi b c d str hbcd ih =>
    simp only [Bool.or_eq_true, not_or, Bool.not_eq_true] at hbcd
    refine LoopEnds.consPiece (p := [a, b, c, d]) (u := [wide4Hi a b c, wide4Lo c d]) hout
      (by simp) ?_ ih
    exact utf8Loop_four (by omega) hhi hbcd.1.1 hbcd.1.2 hbcd.2 true i out str
  | case13 a str h0 _ _ _ hlo hhi hshort =>
    refine LoopEnds.refuse h0 ?_
    rw [utf8Loop_lead4 (by omega) hhi, need_four (by omega) hhi]
    rcases str with _ | ⟨b, _ | ⟨c, _ | ⟨d, str⟩⟩⟩
    · rfl
    · rfl
    · rfl
    · exact (hshort b c d str rfl).elim
  | case14 a str h0 _ _ _ _ hlo => exact hstray a str i out hi (.inr (by omega))

/-! ### Well-formed texts -/

theorem cut_zero (str : List Byte) : cut (0 :: str) = ([], 0 :: str) := by
  rw [cut.eq_def]
  rfl

theorem cut_one {a : Byte} (h0 : a ≠ 0) (h : a.toNat < 0x80) (str : List Byte) :
    cut (a :: str) = consPiece [a] (cut str) := by
  rw [cut.eq_def]
  simp only [h0, if_false, h, if_true]

theorem cut_two {a b : Byte} (hlo : 0xc0 ≤ a.toNat) (hhi : a.toNat < 0xe0)
    (hb : highClear b = false) (str : List Byte) :
    cut (a :: b :: str) = consPiece [a, b] (cut str) := by
  rw [cut, if_neg (lead_ne_zero (by omega)), if_neg (by omega), if_neg (by omega), if_pos hhi]
  simp only [hb, Bool.false_eq_true, if_false]

theorem cut_three {a b c : Byte} (hlo : 0xe0 ≤ a.toNat) (hhi : a.toNat < 0xf0)
    (hb : highClear b = false) (hc : highClear c = false) (str : List Byte) :
    cut (a :: b :: c :: str) = consPiece [a, b, c] (cut str) := by
  rw [cut, if_neg (lead_ne_zero (by omega)), if_neg (by omega), if_neg (by omega),
    if_neg (by omega), if_pos hhi]
  simp only [hb, hc, Bool.or_self, Bool.false_eq_true, if_false]

theorem cut_four {a b c d : Byte} (hlo : 0xf0 ≤ a.toNat) (hhi : a.toNat < 0xf8)
    (hb : highClear b = false) (hc : highClear c = false) (hd : highClear d = false)
    (str : List Byte) : cut (a :: b :: c :: d :: str) = consPiece [a, b, c, d] (cut str) := by
  rw [cut, if_neg (lead_ne_zero (by omega)), if_neg (by omega), if_neg (by omega),
    if_neg (by omega), if_neg (by omega), if_pos hhi]
  simp only [hb, hc, hd, Bool.or_self, Bool.false_eq_true, if_false]

/-- A character is a piece of its own. -/
theorem cut_char {c : Char} (hc : c.toNat ≠ 0) (str : List Byte) :
    cut (String.utf8EncodeChar c ++ str) = consPiece (String.utf8EncodeChar c) (cut str) := by
  have hval : c.val.toNat = c.toNat := rfl
  cases charForm c with
  | one h henc =>
    have ha : c.val.toUInt8.toNat = c.toNat := by
      rw [UInt32.toNat_toUInt8, hval]
      omega
    have hne : c.val.toUInt8 ≠ 0 := by
      rw [ne_eq, ← UInt8.toNat_inj, ha]
      exact hc
    rw [henc]
    exact cut_one hne (by omega) str
  | two hlo h henc =>
    have ha := head2_toNat (c.val >>> 6).toUInt8
    rw [henc]
    exact cut_two (by omega) (by omega) (tail_highClear _) str
  | three hlo h henc =>
    have ha := head3_toNat (c.val >>> 12).toUInt8
    rw [henc]
    exact cut_three (by omega) (by omega) (tail_highClear _) (tail_highClear _) str
  | four hlo henc =>
    have ha := head4_toNat (c.val >>> 18).toUInt8
    rw [henc]
    exact cut_four (by omega) (by omega) (tail_highClear _) (tail_highClear _)
      (tail_highClear _) str

theorem cut_chars (cs : List Char) (hc : ∀ c ∈ cs, c.toNat ≠ 0) (str : List Byte) :
    cut (utf8Encode cs ++ str) =
      (cs.map String.utf8EncodeChar ++ (cut str).1, (cut str).2) := by
  induction cs with
  | nil => rfl
  | cons c cs ih =>
    rw [List.forall_mem_cons] at hc
    rw [utf8Encode_cons, List.append_assoc, cut_char hc.1, ih hc.2]
    rfl

theorem utf8EncodeChar_zero {c : Char} (h : c.toNat = 0) : String.utf8EncodeChar c = [0] := by
  rw [String.utf8EncodeChar]
  simp [show c.val.toNat = 0 from h]

/-- Well-formed UTF-8 is cut into its characters, up to its end or to a NUL. -/
theorem wellFormed_cut {str : List Byte} (h : WellFormedUtf8 str) :
    ∃ cs : List Char, (∀ c ∈ cs, c.toNat ≠ 0) ∧ (cut str).1 = cs.map String.utf8EncodeChar ∧
      AtEnd (cut str).2 := by
  obtain ⟨all, rfl⟩ := h
  have hsplit := List.takeWhile_append_dropWhile (p := fun c : Char => c.toNat != 0) (l := all)
  have hne : ∀ c ∈ all.takeWhile fun c : Char => c.toNat != 0, c.toNat ≠ 0 := by
    intro c hc
    simpa using List.all_eq_true.mp List.all_takeWhile c hc
  refine ⟨_, hne, ?_⟩
  rw [← hsplit, utf8Encode_append, cut_chars _ hne, hsplit]
  cases hrest : all.dropWhile fun c : Char => c.toNat != 0 with
  | nil => exact ⟨by simp [cut], .inl rfl⟩
  | cons c cs =>
    have hzero : c.toNat = 0 := by
      have hhead := List.head?_dropWhile_not (fun c : Char => c.toNat != 0) all
      rw [hrest] at hhead
      simpa using hhead
    rw [utf8Encode_cons, utf8EncodeChar_zero hzero, List.singleton_append, cut_zero]
    exact ⟨by simp, .inr rfl⟩

/-! ### The claim of the check -/

/-- The conversion succeeds exactly on well-formed UTF-8, reads nothing behind the text, and what it
gives becomes the same bytes again. -/
def ChecksUtf8 (str : List Byte) : Prop :=
  ∀ bufcount, ∃ r, utf8_to_ucs2_lf (some str) false bufcount true = .ok r ∧
    (r.rtn ≠ -1 ↔ WellFormedUtf8 str) ∧
    (r.rtn ≠ -1 → r.rtn.toNat ≤ bufcount →
      ucs2_to_utf8 (some (r.ucs2str.take r.rtn.toNat)) false = .ok (some str, str.length))

/-- A text that is cut into characters, with a length that an `int` counts, is converted up to where
it is at its end, and comes back up to there. -/
theorem utf8_to_ucs2_of_chars {cs : List Char} (hc : ∀ c ∈ cs, c.toNat ≠ 0) {rest : List Byte}
    (hend : AtEnd rest) (hlen : (utf8Encode cs).length < 2 ^ 31) (bufcount : Nat) :
    ∃ r, utf8_to_ucs2_lf (some (utf8Encode cs ++ rest)) false bufcount true = .ok r ∧
      r.rtn ≠ -1 ∧ r.rtn.toNat = (utf16Encode cs).length ∧
      (r.rtn.toNat ≤ bufcount →
        ucs2_to_utf8 (some (r.ucs2str.take r.rtn.toNat)) false =
          .ok (some (utf8Encode cs), (utf8Encode cs).length)) := by
  have hle := length_utf16Encode_le cs
  have hstop : ∀ i out, utf8Loop false true i none out rest = .ok (some out) := by
    intro i out
    rcases hend with rfl | hhead
    · rfl
    · obtain ⟨tail, rfl⟩ := List.head?_eq_some_iff.mp hhead
      simp [utf8Loop]
  have hloop := utf8Loop_chars cs hc true 0 [] rest (by omega)
  rw [hstop, List.nil_append] at hloop
  have hrtn : (BitVec.ofNat 64 (utf16Encode cs).length).toNat = (utf16Encode cs).length := by
    rw [BitVec.toNat_ofNat]
    exact Nat.mod_eq_of_lt (by omega)
  refine ⟨_, by rw [utf8_to_ucs2_lf, hloop]; rfl, ?_, hrtn, ?_⟩
  · intro h
    have hneg := congrArg BitVec.toNat h
    rw [hrtn] at hneg
    change _ = 2 ^ 64 - 1 at hneg
    omega
  · intro hbuf
    dsimp only at hbuf ⊢
    rw [hrtn] at hbuf ⊢
    rw [List.take_of_length_le hbuf, List.take_append_of_le_length (Nat.le_refl _),
      List.take_length, ucs2_to_utf8, ucs2Loop_chars cs hc 0 [] (by decide), if_pos (by omega)]
    rfl

theorem exists_chars_of_pieces {ps : List (List Byte)}
    (h : ∀ p ∈ ps, ∃ c : Char, p = String.utf8EncodeChar c) (h0 : ∀ p ∈ ps, p.head? ≠ some 0) :
    ∃ cs : List Char, ps = cs.map String.utf8EncodeChar ∧ ∀ c ∈ cs, c.toNat ≠ 0 := by
  induction ps with
  | nil => exact ⟨[], rfl, by simp⟩
  | cons p ps ih =>
    rw [List.forall_mem_cons] at h h0
    obtain ⟨⟨c, rfl⟩, hps⟩ := h
    obtain ⟨cs, rfl, hcs⟩ := ih hps h0.2
    refine ⟨c :: cs, rfl, List.forall_mem_cons.mpr ⟨fun hzero => h0.1 ?_, hcs⟩⟩
    rw [utf8EncodeChar_zero hzero]
    rfl

theorem flatten_map_encode (cs : List Char) :
    (cs.map String.utf8EncodeChar).flatten = utf8Encode cs := List.flatMap_def.symm

/-- The error check is as strict as UTF-8 exactly on the texts where it is said to be. -/
theorem error_check_strict_iff (str : List Byte) : ChecksUtf8 str ↔ Strict str := by
  have hloop := utf8Loop_cut str 0 [] (by decide) (Nat.le_refl _)
  have hflatten := cut_flatten str
  rw [Strict]
  constructor
  · intro h
    have hfits : (cut str).1.flatten.length + need (cut str).2 < 2 ^ 31 := by
      by_contra hge
      obtain ⟨r, hrun, -⟩ := h 0
      rw [utf8_to_ucs2_lf, hloop.overflows (by omega)] at hrun
      exact absurd hrun (by simp)
    refine ⟨hfits, fun hend => ?_⟩
    obtain ⟨r, hrun, hiff, hback⟩ := h str.length
    obtain ⟨res, hres, hsome, hshort⟩ := hloop.fits (by omega)
    -- the check passes, so that the text must be well formed
    obtain ⟨out, rfl⟩ := Option.isSome_iff_exists.mp (hsome.mpr hend)
    have hne : r.rtn ≠ -1 := by
      rw [utf8_to_ucs2_lf, hres] at hrun
      obtain rfl := Except.ok.inj hrun
      intro hrtn
      have hneg := congrArg BitVec.toNat hrtn
      rw [BitVec.toNat_ofNat] at hneg
      change _ = 2 ^ 64 - 1 at hneg
      have := hshort out rfl
      omega
    obtain ⟨cs, hc, hcut, -⟩ := wellFormed_cut (hiff.mp hne)
    rw [hcut, flatten_map_encode] at hfits hflatten
    obtain ⟨r', hrun', -, hlen, hback'⟩ :=
      utf8_to_ucs2_of_chars hc hend (by omega) str.length
    rw [hflatten, hrun] at hrun'
    obtain rfl := Except.ok.inj hrun'
    have hbuf : r.rtn.toNat ≤ str.length := by
      have hle := length_utf16Encode_le cs
      rw [hlen, ← hflatten, List.length_append]
      omega
    -- what comes back is the text up to its end, which is all of it
    have hsame := (hback hne hbuf).symm.trans (hback' hbuf)
    rw [Except.ok.injEq, Prod.mk.injEq, Option.some.injEq] at hsame
    refine ⟨List.append_right_eq_self.mp (hflatten.trans hsame.1), fun p hp => ?_⟩
    rw [hcut] at hp
    obtain ⟨c, -, rfl⟩ := List.mem_map.mp hp
    exact ⟨c, rfl⟩
  · rintro ⟨hfits, hstrict⟩ bufcount
    by_cases hend : AtEnd (cut str).2
    · obtain ⟨hrest, hchars⟩ := hstrict hend
      obtain ⟨cs, hcut, hc⟩ := exists_chars_of_pieces hchars (cut_ne_zero str)
      rw [hcut, flatten_map_encode] at hfits hflatten
      obtain ⟨r, hrun, hne, -, hback⟩ :=
        utf8_to_ucs2_of_chars hc hend (by omega) bufcount
      rw [hflatten] at hrun
      rw [hrest, List.append_nil] at hflatten
      rw [hflatten] at hback
      exact ⟨r, hrun, iff_of_true hne ⟨cs, hflatten.symm⟩, fun _ => hback⟩
    · obtain ⟨res, hres, hsome, -⟩ := hloop.fits (by omega)
      have hnone : res = none := by
        rw [← Option.not_isSome_iff_eq_none]
        exact mt hsome.mp hend
      subst hnone
      have hill : ¬ WellFormedUtf8 str := by
        intro hwf
        obtain ⟨cs, -, -, hend'⟩ := wellFormed_cut hwf
        exact hend hend'
      refine ⟨_, by rw [utf8_to_ucs2_lf, hres]; rfl, iff_of_false (by simp) hill, by simp⟩

/-- Two bytes that are a long form of NUL pass the check. -/
theorem long_form_passes : ¬ ChecksUtf8 [0xc0, 0x80] := by
  intro h
  obtain ⟨r, hrun, hiff, -⟩ := h 0
  have hr : r = ⟨1, []⟩ := (Except.ok.inj hrun).symm
  obtain ⟨cs, -, hcut, -⟩ := wellFormed_cut (hiff.mp (by rw [hr]; decide))
  have hmem : [0xc0, 0x80] ∈ cs.map String.utf8EncodeChar := by
    rw [← hcut]
    decide
  obtain ⟨c, -, hc⟩ := List.mem_map.mp hmem
  cases charForm c with
  | one _ henc => simp [henc] at hc
  | three _ _ henc => simp [henc] at hc
  | four _ henc => simp [henc] at hc
  | two hlo hhi henc =>
    rw [henc, List.cons.injEq] at hc
    have hhead := head2_toNat (c.val >>> 6).toUInt8
    have hdiv : (c.val >>> 6).toUInt8.toNat = c.toNat / 64 := by
      rw [UInt32.toNat_toUInt8, UInt32.toNat_shiftRight]
      change c.toNat >>> 6 % 256 = _
      rw [Nat.shiftRight_eq_div_pow]
      omega
    rw [hc.1, hdiv] at hhead
    change 0xc0 = _ at hhead
    omega

end OdbcDriver.Unicode
