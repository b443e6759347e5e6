import OdbcDriver.DateTime.IntervalTexts

/-!
# What becomes of an interval's text

One rule for each shape of text: a number with its unit, two of them, a date of years and months,
days with a time, a time alone. All shapes begin with a number, and where an `int` does not hold it
the first format is undefined already.
-/

namespace OdbcDriver.Intervals

open Scanf (sscanf format digits signText signed isspace)
open Decimal (IsDigit)

variable {itype : SQLINTERVAL} {precision : Int} {sign : Bool} {k a b : Nat} {t pad w : List Byte}
  {fmt : List Scanf.Directive} {c : Byte}

/-! ### The number in front -/

theorem num_append (sign : Bool) (k a : Nat) (t : List Byte) :
    num sign k a ++ t = [] ++ (signText sign ++ (digits k a ++ t)) := by
  rw [num, List.append_assoc, List.nil_append]

theorem sscanf_num (hk : 0 < k) (ht : ∀ c ∈ t.head?, ¬ IsDigit c) :
    sscanf (.int none :: fmt) (num sign k a ++ t) =
      if CInt.Fits 32 (signed sign a) then
        (sscanf fmt t).map (Scanf.Scanned.withInt (signed sign a))
      else none := by
  have hend : Scanf.Ends none (signText sign ++ digits k a).length t := ⟨nofun, .inl ht⟩
  rw [num_append, Scanf.sscanf_int (List.forall_mem_nil _) (Scanf.digits_isDigit k a)
    (Scanf.digits_ne_nil hk a) hend, Scanf.digitsValue_digits]

theorem one_space : ∀ x ∈ [(0x20 : Byte)], isspace x = true := by
  intro x hx
  rw [List.mem_singleton.mp hx]
  rfl

/-- A character that begins neither a number nor white space. -/
structure Plain (c : Byte) : Prop where
  space : isspace c = false
  digit : ¬ IsDigit c
  sign : c ≠ 0x2d ∧ c ≠ 0x2b

theorem head_of_space (hpad : ∀ c ∈ pad, isspace c = true) (hc : Plain c) :
    ∀ x ∈ (pad ++ c :: t).head?, ¬ IsDigit x ∧ x ≠ 0x2d := by
  cases pad with
  | nil =>
    rintro _ ⟨⟩
    exact ⟨hc.digit, hc.sign.1⟩
  | cons x pad =>
    have hx := hpad x List.mem_cons_self
    rintro _ ⟨⟩
    refine ⟨fun hd => ?_, ?_⟩
    · rw [Scanf.not_space_of_isDigit hd] at hx
      cases hx
    · rintro rfl
      cases hx

/-- The first number is too large. -/
theorem interval2istruct_overflow (hk : 0 < k) (hfits : ¬ CInt.Fits 32 (signed sign a))
    (ht : ∀ c ∈ t.head?, ¬ IsDigit c) :
    interval2istruct itype precision (num sign k a ++ t) = .error .overflow := by
  have hscan : scan "%d-%d" (num sign k a ++ t) = .error .overflow := by
    have hformat : format "%d-%d" = [.int none, .lit 0x2d, .int none] := rfl
    rw [scan, hformat, sscanf_num hk ht, if_neg hfits]
    rfl
  rw [interval2istruct, hscan]
  rfl

/-- Neither a dash nor a time follows the number: the first two formats find no more. -/
theorem interval2istruct_words (hk : 0 < k) (hfits : CInt.Fits 32 (signed sign a))
    (hpad : ∀ c ∈ pad, isspace c = true) (hc : Plain c) :
    interval2istruct itype precision (num sign k a ++ (pad ++ c :: t)) =
      readWords itype precision (num sign k a ++ (pad ++ c :: t)) := by
  have hhead := head_of_space (t := t) hpad hc
  have hfirst : scan "%d-%d" (num sign k a ++ (pad ++ c :: t)) = .ok ⟨[signed sign a], [], false⟩ := by
    have hformat : format "%d-%d" = [.int none, .lit 0x2d, .int none] := rfl
    have hstop : sscanf [.lit 0x2d, .int none] (pad ++ c :: t) = some (Scanf.Scanned.stop false) := by
      cases pad with
      | nil => exact Scanf.sscanf_lit_stop (hhead c rfl).2
      | cons x pad => exact Scanf.sscanf_lit_stop (hhead x rfl).2
    rw [scan, hformat, sscanf_num hk fun x hx => (hhead x hx).1, if_pos hfits, hstop]
    rfl
  have hsecond : scan "%d %02d:%02d:%02d.%09s" (num sign k a ++ (pad ++ c :: t)) =
      .ok ⟨[signed sign a], [], false⟩ := by
    have hformat : format "%d %02d:%02d:%02d.%09s" = .int none :: .space :: .int (some 2) ::
      [.lit 0x3a, .int (some 2), .lit 0x3a, .int (some 2), .lit 0x2e, .str 9] := rfl
    have hplain : ∀ x ∈ (c :: t).head?, isspace x = false := by
      rintro _ ⟨⟩
      exact hc.space
    have hstop : sscanf (.int (some 2) ::
        [.lit 0x3a, .int (some 2), .lit 0x3a, .int (some 2), .lit 0x2e, .str 9]) (c :: t) =
          some (Scanf.Scanned.stop false) :=
      Scanf.sscanf_int_stop (List.forall_mem_nil _) hc.space hc.digit hc.sign
    rw [scan, hformat, sscanf_num hk fun x hx => (hhead x hx).1, if_pos hfits,
      Scanf.sscanf_space hpad hplain, hstop]
    rfl
  rw [interval2istruct, hfirst, Lib.ok_bind, if_neg (by simp), hsecond, Lib.ok_bind]
  exact if_neg (by simp)

/-! ### Numbers and units -/

/-- A word of at most ten characters, which begins like no number. -/
structure IsWord (w : List Byte) : Prop where
  nonspace : ∀ c ∈ w, isspace c = false
  length_le : w.length ≤ 10
  head : ∃ c w', w = c :: w' ∧ Plain c

theorem IsWord.ne_nil (hw : IsWord w) : w ≠ [] := by
  obtain ⟨c, w', rfl, -⟩ := hw.head
  exact List.cons_ne_nil c w'

/-- A number and a word: the fourth format finds them, and nothing more. -/
theorem readWords_unit (hk : 0 < k) (hfits : CInt.Fits 32 (signed sign a))
    (hpad : ∀ c ∈ pad, isspace c = true) (hw : IsWord w) :
    readWords itype precision (num sign k a ++ (pad ++ w)) =
      readUnit itype (signed sign a) w := by
  obtain ⟨c, w', rfl, hc⟩ := hw.head
  have hhead := head_of_space (t := w') hpad hc
  have hplain : ∀ x ∈ (c :: w').head?, isspace x = false := by
    rintro _ ⟨⟩
    exact hc.space
  have hscan : ∀ fmt, sscanf (.int none :: .space :: .str 10 :: .space :: .int none :: fmt)
      (num sign k a ++ (pad ++ c :: w')) = some ⟨[signed sign a], [c :: w'], false⟩ := by
    intro fmt
    have hword : sscanf (.str 10 :: .space :: .int none :: fmt) (c :: w' ++ []) = _ :=
      Scanf.sscanf_word hw.nonspace hw.ne_nil hw.length_le (.inl nofun)
    rw [List.append_nil] at hword
    rw [sscanf_num hk fun x hx => (hhead x hx).1, if_pos hfits, Scanf.sscanf_space hpad hplain,
      hword]
    rfl
  have hthird : scan "%d %10s %d %10s" (num sign k a ++ (pad ++ c :: w')) =
      .ok ⟨[signed sign a], [c :: w'], false⟩ := by
    have hformat : format "%d %10s %d %10s" =
      .int none :: .space :: .str 10 :: .space :: .int none :: [.space, .str 10] := rfl
    rw [scan, hformat, hscan]
    rfl
  have hfourth : scan "%d %10s %d" (num sign k a ++ (pad ++ c :: w')) =
      .ok ⟨[signed sign a], [c :: w'], false⟩ := by
    have hformat : format "%d %10s %d" =
      .int none :: .space :: .str 10 :: .space :: .int none :: [] := rfl
    rw [scan, hformat, hscan]
    rfl
  rw [readWords, hthird, Lib.ok_bind, if_neg (by simp), hfourth, Lib.ok_bind]
  exact if_pos (by simp)

theorem head_num (hk : 0 < k) : ∀ c ∈ (num sign k a ++ t).head?, isspace c = false := by
  obtain ⟨d, ds, hds⟩ := List.exists_cons_of_ne_nil (Scanf.digits_ne_nil hk a)
  have hd : IsDigit d := Scanf.digits_isDigit k a d (by rw [hds]; exact List.mem_cons_self)
  rw [num, hds]
  cases sign with
  | true =>
    rintro _ ⟨⟩
    rfl
  | false =>
    rintro _ ⟨⟩
    exact Scanf.not_space_of_isDigit hd

/-- A number, a word, a number and something more: the third format finds four items. -/
theorem readWords_two {sign' : Bool} {j : Nat} (hk : 0 < k) (hj : 0 < j)
    (hfits : CInt.Fits 32 (signed sign a)) (hw : IsWord w) (hpad : ∀ c ∈ pad, isspace c = true)
    (hc : Plain c) :
    readWords itype precision
        (num sign k a ++ (0x20 :: (w ++ 0x20 :: (num sign' j b ++ (pad ++ c :: t))))) =
      if CInt.Fits 32 (signed sign' b) then
        readTwoUnits itype (signed sign a) (signed sign' b) w (Scanf.word 10 (c :: t))
      else .error .overflow := by
  obtain ⟨d, w', rfl, hd⟩ := hw.head
  have hplain : ∀ x ∈ (c :: t).head?, isspace x = false := by
    rintro _ ⟨⟩
    exact hc.space
  have hformat : format "%d %10s %d %10s" =
    .int none :: .space :: .str 10 :: .space :: .int none :: .space :: [.str 10] := rfl
  have hlast : sscanf [.str 10] (c :: t) = some ⟨[], [Scanf.word 10 (c :: t)], false⟩ := by
    rw [sscanf, Scanf.skip_self hplain, if_neg (List.cons_ne_nil c t)]
    rfl
  have hscan : sscanf (format "%d %10s %d %10s")
      (num sign k a ++ ([0x20] ++ (d :: w' ++ ([0x20] ++ (num sign' j b ++ (pad ++ c :: t)))))) =
        if CInt.Fits 32 (signed sign' b) then
          some ⟨[signed sign a, signed sign' b], [d :: w', Scanf.word 10 (c :: t)], false⟩
        else none := by
    have hword : ∀ x ∈ ([0x20] ++ (num sign' j b ++ (pad ++ c :: t))).head?, isspace x = true := by
      rintro _ ⟨⟩
      rfl
    have hdplain : ∀ x ∈ (d :: w' ++ ([0x20] ++ (num sign' j b ++ (pad ++ c :: t)))).head?,
        isspace x = false := by
      rintro _ ⟨⟩
      exact hd.space
    rw [hformat, sscanf_num hk (by rintro _ ⟨⟩; decide), if_pos hfits,
      Scanf.sscanf_space one_space hdplain,
      Scanf.sscanf_word hw.nonspace hw.ne_nil hw.length_le (.inl hword),
      Scanf.sscanf_space one_space (head_num hj),
      sscanf_num hj fun x hx => (head_of_space hpad hc x hx).1]
    split
    · rw [Scanf.sscanf_space hpad hplain, hlast]
      rfl
    · rfl
  change readWords itype precision (num sign k a ++ ([0x20] ++ (d :: w' ++ ([0x20] ++
    (num sign' j b ++ (pad ++ c :: t)))))) = _
  rw [readWords, scan, hscan]
  split
  · rw [Option.elim_some, Lib.ok_bind, if_pos (by simp)]
    rfl
  · rfl

/-! ### Times -/

variable {mi se : Nat} {ds : List Byte}

theorem clock_word (hmi : mi < 60) (hse : se < 60) (hds : ∀ c ∈ ds, IsDigit c)
    (hlen : ds.length ≤ 3) : IsWord (clock mi se (point ds)) := by
  have hdigit : ∀ {n : Nat}, ∀ c ∈ digits 2 n, isspace c = false := fun c hc =>
    Scanf.not_space_of_isDigit (Scanf.digits_isDigit _ _ c hc)
  refine ⟨?_, ?_, ⟨_, _, rfl, ⟨rfl, by decide, by decide⟩⟩⟩
  · intro c hc
    simp only [clock, List.mem_cons, List.mem_append] at hc
    rcases hc with rfl | hc | rfl | hc | hc
    · rfl
    · exact hdigit c hc
    · rfl
    · exact hdigit c hc
    · rw [point] at hc
      split at hc
      · cases hc
      · rcases List.mem_cons.mp hc with rfl | hc
        · rfl
        · exact Scanf.not_space_of_isDigit (hds c hc)
  · have hpoint : (point ds).length ≤ 4 := by
      rw [point]
      split
      · exact Nat.zero_le _
      · exact Nat.succ_le_succ hlen
    have hm : (digits 2 mi).length = 2 := Scanf.length_digits_of_lt (by omega)
    have hs : (digits 2 se).length = 2 := Scanf.length_digits_of_lt (by omega)
    simp only [clock, List.length_cons, List.length_append, hm, hs]
    omega

theorem stricmp_head {c d : Byte} {v w : List Byte} (h : tolower c ≠ tolower d) :
    stricmp (c :: v) (d :: w) = false := by
  rw [stricmp, decide_eq_false_iff_not]
  intro heq
  exact h (List.cons.inj heq).1

/-- A character with which no unit begins. -/
structure NoUnit (c : Byte) : Prop where
  year : tolower c ≠ tolower 0x79
  mon : tolower c ≠ tolower 0x6d
  day : tolower c ≠ tolower 0x64

theorem noUnit_of_isDigit (hc : IsDigit c) : NoUnit c := by
  have hlower : tolower c = c := by
    have := hc.2
    rw [tolower, if_neg]
    rintro ⟨h, -⟩
    have h65 : 65 ≤ c.toNat := UInt8.le_iff_toNat_le.mp h
    omega
  have hne : ∀ d : Byte, ¬ IsDigit d → c ≠ d := by
    rintro d hd rfl
    exact hd hc
  constructor
  · rw [hlower]
    exact hne _ (by decide)
  · rw [hlower]
    exact hne _ (by decide)
  · rw [hlower]
    exact hne _ (by decide)

/-- What begins otherwise is no unit. -/
theorem readUnit_other (hc : NoUnit c) (n : Int) : readUnit itype n (c :: w) = .ok none := by
  have hyear : stricmp (c :: w) (ascii "year") = false := stricmp_head hc.year
  have hyears : stricmp (c :: w) (ascii "years") = false := stricmp_head hc.year
  have hmon : stricmp (c :: w) (ascii "mon") = false := stricmp_head hc.mon
  have hmons : stricmp (c :: w) (ascii "mons") = false := stricmp_head hc.mon
  have hday : stricmp (c :: w) (ascii "day") = false := stricmp_head hc.day
  have hdays : stricmp (c :: w) (ascii "days") = false := stricmp_head hc.day
  simp [readUnit, hyear, hyears, hmon, hmons, hday, hdays, pure, Except.pure]

theorem readTwoUnits_other {v : List Byte} (hc : tolower c ≠ tolower 0x79) (y m : Int) :
    readTwoUnits itype y m (c :: w) v = .ok none := by
  have hyear : strnicmp (c :: w) (ascii "year") 4 = false := stricmp_head hc
  rw [readTwoUnits, hyear]
  exact if_neg fun h => Bool.false_ne_true h.1

/-- A time alone is a number and a word to the fourth format, if it has three digits at most behind
the point. -/
theorem readWords_short (hk : 0 < k) (hfits : CInt.Fits 32 (signed sign a)) (hmi : mi < 60)
    (hse : se < 60) (hds : ∀ c ∈ ds, IsDigit c) (hlen : ds.length ≤ 3) :
    readWords itype precision (num sign k a ++ clock mi se (point ds)) = .ok none := by
  have hunit : readWords itype precision (num sign k a ++ ([] ++ clock mi se (point ds))) = _ :=
    readWords_unit hk hfits (List.forall_mem_nil _) (clock_word hmi hse hds hlen)
  exact hunit.trans (readUnit_other ⟨by decide, by decide, by decide⟩ _)

/-- Digits at the end of a text, behind which a colon is looked for. -/
theorem sscanf_digits_end (hds : ∀ c ∈ ds, IsDigit c) (hne : ds ≠ []) :
    ∃ v, sscanf (.int (some 2) :: .lit 0x3a :: fmt) ds = some ⟨[v], [], false⟩ := by
  by_cases hlong : 2 < ds.length
  · have h : ∃ v, sscanf (.int (some 2) :: .lit 0x3a :: fmt)
        ([] ++ (signText false ++ (ds ++ []))) = some ⟨[v], [], false⟩ :=
      Scanf.sscanf_int_cut (List.forall_mem_nil _) hds (by decide) (by decide) hlong (by decide)
    rw [List.append_nil] at h
    exact h
  · have hend : Scanf.Ends (some 2) (signText false ++ ds).length [] := by
      refine ⟨fun n hn => ?_, .inl nofun⟩
      rw [← Option.some.inj hn]
      exact Nat.le_of_not_lt hlong
    have h : sscanf (.int (some 2) :: .lit 0x3a :: fmt) (signText false ++ (ds ++ [])) = _ :=
      Scanf.sscanf_int_fits hds hne (by omega) hend
    rw [List.append_nil] at h
    exact ⟨_, h⟩

/-- With more digits behind the point the word ends inside of them. The two formats with units find
one item more, and the format of a time alone is reached. -/
theorem readWords_long (hk : 0 < k) (hfits : CInt.Fits 32 (signed sign a)) (hmi : mi < 60)
    (hse : se < 60) (hds : ∀ c ∈ ds, IsDigit c) (hlong : 3 < ds.length) (hlen : ds.length ≤ 9)
    (hitype : ¬ (itype = .SQL_IS_YEAR ∨ itype = .SQL_IS_MONTH ∨ itype = .SQL_IS_YEAR_TO_MONTH)) :
    readWords itype precision (num sign k a ++ clock mi se (point ds)) =
      readClock itype precision (num sign k a ++ clock mi se (point ds)) := by
  obtain ⟨w, r, hw, hwlen, hr, hrne, hrlen, hsplit⟩ : ∃ w r : List Byte, IsWord w ∧
      w.length = 10 ∧ (∀ c ∈ r, IsDigit c) ∧ r ≠ [] ∧ r.length ≤ 9 ∧
      clock mi se (point ds) = w ++ r := by
    have hsome : ∀ l : List Byte, 0 < l.length → point l = 0x2e :: l := fun l hl =>
      if_neg (List.ne_nil_of_length_pos hl)
    have htake : (ds.take 3).length = 3 := List.length_take_of_le (by omega)
    have hdrop : (ds.drop 3).length = ds.length - 3 := List.length_drop
    have hm : (digits 2 mi).length = 2 := Scanf.length_digits_of_lt (by omega)
    have hs : (digits 2 se).length = 2 := Scanf.length_digits_of_lt (by omega)
    refine ⟨clock mi se (point (ds.take 3)), ds.drop 3,
      clock_word hmi hse (fun c hc => hds c (List.mem_of_mem_take hc)) htake.le, ?_,
      fun c hc => hds c (List.mem_of_mem_drop hc), List.ne_nil_of_length_pos (by omega), by omega,
      ?_⟩
    · rw [hsome _ (by omega)]
      simp only [clock, List.length_cons, List.length_append, hm, hs, htake]
    · rw [hsome _ (by omega), hsome _ (by omega)]
      simp only [clock, List.cons_append, List.append_assoc, List.take_append_drop]
  obtain ⟨c, w', rfl, hc⟩ := hw.head
  rw [hsplit]
  have hplain : ∀ x ∈ (c :: w' ++ r).head?, isspace x = false := by
    rintro _ ⟨⟩
    exact hc.space
  have hdigit : ∀ x ∈ (c :: w' ++ r).head?, ¬ IsDigit x := by
    rintro _ ⟨⟩
    exact hc.digit
  have hrhead : ∀ x ∈ r.head?, isspace x = false := fun x hx =>
    Scanf.not_space_of_isDigit (hr x (List.mem_of_mem_head? hx))
  have hscan : ∀ fmt, sscanf (.int none :: .space :: .str 10 :: .space :: fmt)
      (num sign k a ++ (c :: w' ++ r)) = (sscanf fmt r).map fun x =>
        ⟨signed sign a :: x.ints, (c :: w') :: x.strs, false⟩ := by
    intro fmt
    have hspace : ∀ (fmt : List Scanf.Directive) (s : List Byte),
        (∀ x ∈ s.head?, isspace x = false) → sscanf (.space :: fmt) s = sscanf fmt s := by
      intro fmt s hs
      rw [sscanf, Scanf.skip_self hs]
    rw [sscanf_num hk hdigit, if_pos hfits, hspace _ _ hplain,
      Scanf.sscanf_word hw.nonspace hw.ne_nil hw.length_le (.inr hwlen), hspace _ _ hrhead,
      Option.map_map]
    rfl
  have hint : ∀ fmt, sscanf (.int none :: fmt) r = (sscanf fmt []).map
      (Scanf.Scanned.withInt (signed false (Decimal.digitsValue r))) := by
    intro fmt
    have h : sscanf (.int none :: fmt) (signText false ++ (r ++ [])) = _ :=
      Scanf.sscanf_int_fits hr hrne hrlen ⟨by rintro _ ⟨⟩, .inl (by rintro _ ⟨⟩)⟩
    rw [List.append_nil] at h
    exact h
  have hthird : scan "%d %10s %d %10s" (num sign k a ++ (c :: w' ++ r)) =
      .ok ⟨[signed sign a, signed false (Decimal.digitsValue r)], [c :: w'], false⟩ := by
    have hformat : format "%d %10s %d %10s" =
      .int none :: .space :: .str 10 :: .space :: [.int none, .space, .str 10] := rfl
    rw [scan, hformat, hscan, hint]
    rfl
  have hfourth : scan "%d %10s %d" (num sign k a ++ (c :: w' ++ r)) =
      .ok ⟨[signed sign a, signed false (Decimal.digitsValue r)], [c :: w'], false⟩ := by
    have hformat : format "%d %10s %d" =
      .int none :: .space :: .str 10 :: .space :: [.int none] := rfl
    rw [scan, hformat, hscan, hint]
    rfl
  obtain ⟨v, hend⟩ : ∃ v, sscanf (.int (some 2) :: .lit 0x3a :: [.int (some 2), .lit 0x3a,
      .int (some 2), .lit 0x2e, .str 9]) r = some ⟨[v], [], false⟩ := sscanf_digits_end hr hrne
  have hfifth : scan "%d %10s %02d:%02d:%02d.%09s" (num sign k a ++ (c :: w' ++ r)) =
      .ok ⟨[signed sign a, v], [c :: w'], false⟩ := by
    have hformat : format "%d %10s %02d:%02d:%02d.%09s" =
      .int none :: .space :: .str 10 :: .space :: .int (some 2) :: .lit 0x3a ::
        [.int (some 2), .lit 0x3a, .int (some 2), .lit 0x2e, .str 9] := rfl
    rw [scan, hformat, hscan, hend]
    rfl
  rw [readWords, hthird, Lib.ok_bind, if_neg (by simp), hfourth, Lib.ok_bind, if_neg (by simp),
    if_neg hitype, readTime, hfifth, Lib.ok_bind]
  exact if_neg (by simp)

/-! ### Hours, minutes and seconds -/

theorem toUnsigned_natCast (n : Nat) : toUnsigned n = UInt32.ofNat n := by
  have hmod : ((n : Int) % 2 ^ 32).toNat = n % 2 ^ 32 := by omega
  rw [toUnsigned, hmod]
  exact UInt32.ofNat_mod_size

/-- What is found behind the hours. -/
theorem sscanf_clock (hmi : mi < 60) (hse : se < 60) (hds : ∀ c ∈ ds, IsDigit c)
    (hlen : ds.length ≤ 9) :
    ∃ eof, sscanf (.lit 0x3a :: .int (some 2) :: .lit 0x3a :: .int (some 2) :: .lit 0x2e ::
      [.str 9]) (clock mi se (point ds)) =
        some ⟨[(mi : Int), (se : Int)], if ds = [] then [] else [ds], eof⟩ := by
  obtain ⟨eof, hfraction⟩ : ∃ eof, sscanf (.lit 0x2e :: [.str 9]) (point ds) =
      some ⟨[], if ds = [] then [] else [ds], eof⟩ := by
    by_cases hne : ds = []
    · subst hne
      exact ⟨true, rfl⟩
    · have hword : sscanf (.str 9 :: []) (ds ++ []) = _ :=
        Scanf.sscanf_word (fun c hc => Scanf.not_space_of_isDigit (hds c hc)) hne hlen (.inl nofun)
      rw [List.append_nil] at hword
      rw [point, if_neg hne, if_neg hne, Scanf.sscanf_lit, hword]
      exact ⟨false, rfl⟩
  refine ⟨false, ?_⟩
  rw [clock, Scanf.sscanf_lit, Scanf.sscanf_digits (by decide) (by decide) (by omega),
    Scanf.sscanf_lit, Scanf.sscanf_digits (by decide) (by decide) (by omega), hfraction]
  rfl

theorem length_signText_lt (sign : Bool) : (signText sign).length < 2 := by
  cases sign <;> decide

/-- The hours, behind their sign, are two characters at most. -/
theorem readClock_eq (hk : 0 < k) (hshort : (num sign k a).length ≤ 2) (hmi : mi < 60)
    (hse : se < 60) (hds : ∀ c ∈ ds, IsDigit c) (hlen : ds.length ≤ 9) :
    readClock itype precision (num sign k a ++ clock mi se (point ds)) = (do
      let hour ← unsign (decide (signed sign a < 0)) (signed sign a)
      let fraction ← fractionPart (decide (ds ≠ [])) precision ds
      return some ⟨itype, decide (signed sign a < 0),
        .day_second 0 hour (UInt32.ofNat mi) (UInt32.ofNat se) fraction⟩) := by
  have hscan : scan "%02d:%02d:%02d.%09s" (num sign k a ++ clock mi se (point ds)) =
      .ok ⟨[signed sign a, (mi : Int), (se : Int)], if ds = [] then [] else [ds], false⟩ := by
    have hformat : format "%02d:%02d:%02d.%09s" = .int (some 2) :: (.lit 0x3a :: .int (some 2) ::
      .lit 0x3a :: .int (some 2) :: .lit 0x2e :: [.str 9]) := rfl
    have hend : Scanf.Ends (some 2) (signText sign ++ digits k a).length
        (clock mi se (point ds)) := by
      refine ⟨fun n hn => (Option.some.inj hn) ▸ hshort, .inl ?_⟩
      rintro _ ⟨⟩
      decide
    have hdigits : (digits k a).length ≤ 9 := by
      rw [num, List.length_append] at hshort
      omega
    obtain ⟨eof, hclock⟩ := sscanf_clock hmi hse hds hlen
    rw [scan, hformat, num, List.append_assoc,
      Scanf.sscanf_int_fits (Scanf.digits_isDigit k a) (Scanf.digits_ne_nil hk a) hdigits hend,
      hclock, Scanf.digitsValue_digits]
    rfl
  rw [readClock, hscan, Lib.ok_bind]
  by_cases hne : ds = []
  · subst hne
    rw [if_pos (by simp)]
    simp only [toUnsigned_natCast, Scanf.Scanned.int, List.getD_cons_zero, List.getD_cons_succ]
    rfl
  · rw [if_neg hne, if_pos (by simp), decide_eq_true hne]
    simp only [toUnsigned_natCast, Scanf.Scanned.int, List.getD_cons_zero, List.getD_cons_succ]
    rfl

/-- They are more. -/
theorem readClock_long (hlong : 2 < (num sign k a).length) (t : List Byte) :
    readClock itype precision (num sign k a ++ t) = .ok none := by
  obtain ⟨v, hcut⟩ : ∃ v, sscanf (.int (some 2) :: .lit 0x3a :: [.int (some 2), .lit 0x3a,
      .int (some 2), .lit 0x2e, .str 9]) ([] ++ (signText sign ++ (digits k a ++ t))) =
        some ⟨[v], [], false⟩ :=
    Scanf.sscanf_int_cut (List.forall_mem_nil _) (Scanf.digits_isDigit k a)
      (length_signText_lt sign) (by decide) hlong (by decide)
  have hscan : scan "%02d:%02d:%02d.%09s" (num sign k a ++ t) = .ok ⟨[v], [], false⟩ := by
    have hformat : format "%02d:%02d:%02d.%09s" = .int (some 2) :: .lit 0x3a :: [.int (some 2),
      .lit 0x3a, .int (some 2), .lit 0x2e, .str 9] := rfl
    rw [scan, hformat, num_append, hcut]
    rfl
  rw [readClock, hscan, Lib.ok_bind]
  exact if_neg (by simp)

/-- A space follows instead of a colon. -/
theorem readClock_space (hk : 0 < k) (t : List Byte) :
    readClock itype precision (num sign k a ++ 0x20 :: t) = .ok none := by
  by_cases hlong : 2 < (num sign k a).length
  · exact readClock_long hlong _
  · have hend : Scanf.Ends (some 2) (signText sign ++ digits k a).length (0x20 :: t) := by
      refine ⟨fun n hn => (Option.some.inj hn) ▸ Nat.le_of_not_lt hlong, .inl ?_⟩
      rintro _ ⟨⟩
      decide
    have hdigits : (digits k a).length ≤ 9 := by
      rw [num, List.length_append] at hlong
      omega
    have hscan : scan "%02d:%02d:%02d.%09s" (num sign k a ++ 0x20 :: t) =
        .ok ⟨[signed sign a], [], false⟩ := by
      have hformat : format "%02d:%02d:%02d.%09s" = .int (some 2) :: (.lit 0x3a ::
        [.int (some 2), .lit 0x3a, .int (some 2), .lit 0x2e, .str 9]) := rfl
      rw [scan, hformat, num, List.append_assoc,
        Scanf.sscanf_int_fits (Scanf.digits_isDigit k a) (Scanf.digits_ne_nil hk a) hdigits hend,
        Scanf.sscanf_lit_stop (by decide), Scanf.digitsValue_digits]
      rfl
    rw [readClock, hscan, Lib.ok_bind]
    exact if_neg (by simp)

/-! ### Days and a time -/

/-- A space stands behind the first number. -/
theorem first_format_space (hk : 0 < k) (hfits : CInt.Fits 32 (signed sign a)) (t : List Byte) :
    scan "%d-%d" (num sign k a ++ 0x20 :: t) = .ok ⟨[signed sign a], [], false⟩ := by
  have hformat : format "%d-%d" = [.int none, .lit 0x2d, .int none] := rfl
  rw [scan, hformat, sscanf_num hk (by rintro _ ⟨⟩; decide), if_pos hfits,
    Scanf.sscanf_lit_stop (by decide)]
  rfl

theorem second_format (hk : 0 < k) (hfits : CInt.Fits 32 (signed sign a)) {h : Nat}
    (t : List Byte) :
    sscanf (format "%d %02d:%02d:%02d.%09s") (num sign k a ++ 0x20 :: (num false 1 h ++ t)) =
      (sscanf (.int (some 2) :: .lit 0x3a :: [.int (some 2), .lit 0x3a, .int (some 2), .lit 0x2e,
        .str 9]) (signText false ++ (digits 1 h ++ t))).map
          (Scanf.Scanned.withInt (signed sign a)) := by
  have hformat : format "%d %02d:%02d:%02d.%09s" = .int none :: .space :: .int (some 2) ::
    .lit 0x3a :: [.int (some 2), .lit 0x3a, .int (some 2), .lit 0x2e, .str 9] := rfl
  have hcons : (0x20 :: (num false 1 h ++ t) : List Byte) = [0x20] ++ (num false 1 h ++ t) := rfl
  rw [hformat, sscanf_num hk (by rintro _ ⟨⟩; decide), if_pos hfits, hcons,
    Scanf.sscanf_space one_space (head_num (by decide)), num, List.append_assoc]

/-- The second format finds days and a time. -/
theorem interval2istruct_days (hk : 0 < k) (hfits : CInt.Fits 32 (signed sign a)) {h : Nat}
    (hh : h < 100) (hmi : mi < 60) (hse : se < 60) (hds : ∀ c ∈ ds, IsDigit c)
    (hlen : ds.length ≤ 9) :
    interval2istruct itype precision
        (num sign k a ++ 0x20 :: (num false 1 h ++ clock mi se (point ds))) = (do
      let day ← unsign (decide (signed sign a < 0)) (signed sign a)
      let fraction ← fractionPart (decide (ds ≠ [])) precision ds
      return some ⟨itype, decide (signed sign a < 0),
        .day_second day (UInt32.ofNat h) (UInt32.ofNat mi) (UInt32.ofNat se) fraction⟩) := by
  have hscan : scan "%d %02d:%02d:%02d.%09s"
      (num sign k a ++ 0x20 :: (num false 1 h ++ clock mi se (point ds))) =
        .ok ⟨[signed sign a, (h : Int), (mi : Int), (se : Int)], if ds = [] then [] else [ds],
          false⟩ := by
    have htwo : (digits 1 h).length ≤ 2 := Scanf.length_digits_le (by decide) hh
    have hend : Scanf.Ends (some 2) (signText false ++ digits 1 h).length
        (clock mi se (point ds)) := by
      refine ⟨fun n hn => (Option.some.inj hn) ▸ htwo, .inl ?_⟩
      rintro _ ⟨⟩
      decide
    obtain ⟨eof, hclock⟩ := sscanf_clock hmi hse hds hlen
    rw [scan, second_format hk hfits, Scanf.sscanf_int_fits (Scanf.digits_isDigit 1 h)
      (Scanf.digits_ne_nil (by decide) h) (by omega) hend, hclock, Scanf.digitsValue_digits]
    rfl
  rw [interval2istruct, first_format_space hk hfits, Lib.ok_bind, if_neg (by simp), hscan,
    Lib.ok_bind]
  by_cases hne : ds = []
  · subst hne
    rw [if_pos (by simp)]
    simp only [toUnsigned_natCast, Scanf.Scanned.int, List.getD_cons_zero, List.getD_cons_succ]
    rfl
  · rw [if_neg hne, if_pos (by simp), decide_eq_true hne]
    simp only [toUnsigned_natCast, Scanf.Scanned.int, List.getD_cons_zero, List.getD_cons_succ]
    rfl

/-- Behind a space a word that begins with a digit is no unit of any format. -/
theorem readWords_digit (hk : 0 < k) (hc : IsDigit c) (iv : SQL_INTERVAL_STRUCT) :
    readWords itype precision (num sign k a ++ 0x20 :: (c :: t)) ≠ .ok (some iv) := by
  obtain ⟨w, hw⟩ : ∃ w, Scanf.word 10 (c :: t) = c :: w := by
    have one_space : (!isspace c) = true := by rw [Scanf.not_space_of_isDigit hc]; rfl
    refine ⟨(t.takeWhile fun c => !isspace c).take 9, ?_⟩
    rw [Scanf.word, List.takeWhile_cons, one_space]
    rfl
  have hplain : ∀ x ∈ (c :: t).head?, isspace x = false := by
    rintro _ ⟨⟩
    exact Scanf.not_space_of_isDigit hc
  have hcons : (0x20 :: (c :: t) : List Byte) = [0x20] ++ (c :: t) := rfl
  -- Whatever a format with units finds, its first word begins with the digit.
  have hfound : ∀ {s : String} {r : Scanf.Scanned} (rest : List Scanf.Directive),
      format s = .int none :: .space :: .str 10 :: rest →
        scan s (num sign k a ++ 0x20 :: (c :: t)) = .ok r → r.str 0 = c :: w := by
    intro s r rest hs hr
    have hstr : sscanf (.str 10 :: rest) (c :: t) =
        (sscanf rest ((c :: t).drop (c :: w).length)).map (Scanf.Scanned.withStr (c :: w)) := by
      rw [sscanf, Scanf.skip_self hplain, if_neg (List.cons_ne_nil c t), hw]
    rw [scan, hs, sscanf_num hk (by rintro _ ⟨⟩; decide), hcons,
      Scanf.sscanf_space one_space hplain, hstr] at hr
    split at hr
    · cases hrest : sscanf rest ((c :: t).drop (c :: w).length) with
      | none =>
        rw [hrest] at hr
        cases hr
      | some x =>
        rw [hrest] at hr
        obtain rfl := Except.ok.inj hr
        rfl
    · cases hr
  have hunit := noUnit_of_isDigit hc
  have hday : strnicmp (c :: w) (ascii "day") 3 = false := stricmp_head hunit.day
  intro h
  rw [readWords] at h
  cases hthird : scan "%d %10s %d %10s" (num sign k a ++ 0x20 :: (c :: t)) with
  | error e =>
    rw [hthird] at h
    cases h
  | ok r =>
    rw [hthird, Lib.ok_bind] at h
    split at h
    · rw [hfound _ rfl hthird, readTwoUnits_other hunit.year] at h
      cases h
    · cases hfourth : scan "%d %10s %d" (num sign k a ++ 0x20 :: (c :: t)) with
      | error e =>
        rw [hfourth] at h
        cases h
      | ok r =>
        rw [hfourth, Lib.ok_bind] at h
        split at h
        · rw [hfound _ rfl hfourth, readUnit_other hunit] at h
          cases h
        · split at h
          · cases h
          · rw [readTime] at h
            cases hfifth : scan "%d %10s %02d:%02d:%02d.%09s" (num sign k a ++ 0x20 :: (c :: t)) with
            | error e =>
              rw [hfifth] at h
              cases h
            | ok r =>
              rw [hfifth, Lib.ok_bind] at h
              split at h
              · rw [hfound _ rfl hfifth, hday] at h
                cases h
              · rw [readClock_space hk] at h
                cases h

/-- The hours are three digits or more. -/
theorem interval2istruct_days_long (hk : 0 < k) (hfits : CInt.Fits 32 (signed sign a)) {h : Nat}
    (hh : 100 ≤ h) (t : List Byte) (iv : SQL_INTERVAL_STRUCT) :
    interval2istruct itype precision (num sign k a ++ 0x20 :: (num false 1 h ++ t)) ≠
      .ok (some iv) := by
  obtain ⟨v, hcut⟩ : ∃ v, sscanf (.int (some 2) :: .lit 0x3a :: [.int (some 2), .lit 0x3a,
      .int (some 2), .lit 0x2e, .str 9]) ([] ++ (signText false ++ (digits 1 h ++ t))) =
        some ⟨[v], [], false⟩ :=
    Scanf.sscanf_int_cut (List.forall_mem_nil _) (Scanf.digits_isDigit 1 h)
      (length_signText_lt false) (by decide) (Scanf.lt_length_digits (j := 2) hh) (by decide)
  have hscan : scan "%d %02d:%02d:%02d.%09s" (num sign k a ++ 0x20 :: (num false 1 h ++ t)) =
      .ok ⟨[signed sign a, v], [], false⟩ := by
    rw [List.nil_append] at hcut
    rw [scan, second_format hk hfits, hcut]
    rfl
  rw [interval2istruct, first_format_space hk hfits, Lib.ok_bind, if_neg (by simp), hscan,
    Lib.ok_bind, if_neg (by simp)]
  obtain ⟨d, ds, hds⟩ := List.exists_cons_of_ne_nil (Scanf.digits_ne_nil (Nat.zero_lt_one) h)
  have hnum : num false 1 h = d :: ds := hds
  rw [hnum]
  exact readWords_digit hk (Scanf.digits_isDigit 1 h d (by rw [hds]; exact List.mem_cons_self)) iv

/-! ### Years and months with a dash -/

/-- The first format finds years and months. -/
theorem interval2istruct_dash (hk : 0 < k) (hfits : CInt.Fits 32 (signed sign a)) :
    interval2istruct itype precision (num sign k a ++ 0x2d :: num false 1 b) =
      if CInt.Fits 32 (b : Int) then
        if itype = .SQL_IS_YEAR_TO_MONTH then do
          let year ← unsign (decide (signed sign a < 0)) (signed sign a)
          return some ⟨itype, decide (signed sign a < 0), .year_month year (UInt32.ofNat b)⟩
        else .ok none
      else .error .overflow := by
  have hscan : scan "%d-%d" (num sign k a ++ 0x2d :: num false 1 b) =
      if CInt.Fits 32 (b : Int) then .ok ⟨[signed sign a, (b : Int)], [], false⟩
      else .error .overflow := by
    have hformat : format "%d-%d" = [.int none, .lit 0x2d, .int none] := rfl
    have hnum : sscanf [.int none] (num false 1 b ++ []) = _ :=
      sscanf_num (by decide) nofun
    rw [List.append_nil] at hnum
    have hsigned : signed false b = (b : Int) := rfl
    rw [scan, hformat, sscanf_num hk (by rintro _ ⟨⟩; decide), if_pos hfits, Scanf.sscanf_lit, hnum,
      hsigned]
    by_cases hb : CInt.Fits 32 (b : Int)
    · rw [if_pos hb, if_pos hb]
      rfl
    · rw [if_neg hb, if_neg hb]
      rfl
  rw [interval2istruct, hscan]
  split
  · rw [Lib.ok_bind, if_pos (by simp)]
    simp only [Scanf.Scanned.int, List.getD_cons_zero, List.getD_cons_succ, toUnsigned_natCast]
    rfl
  · rfl

end OdbcDriver.Intervals
