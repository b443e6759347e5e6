import OdbcDriver.Encoding.NextChar
import OdbcDriver.Parse.Lexemes

/-!
# Loops over characters

How each loop of `getNextToken` goes over the characters of a text. A character outside ASCII is
copied whole, unless the buffer is full before it ends, and an ASCII character is copied if the loop
does not stop at it.

* `word_read`, `word_left`, `number_read`, `number_left`: words and numbers;
* `content_agrees_iff`: literals and quoted identifiers;
* `dollar_agrees_iff`, `parameter_differs`: what begins with a dollar sign.
-/

namespace OdbcDriver.NextToken

variable {ccsc : Ccsc} {stat pos room : ℕ} {c : Chr} {t : List Chr} {b : Byte} {s : List Byte}

/-! ### Characters -/

/-- The driver, in state `stat`, sees that a character is outside ASCII. -/
structure Wide (ccsc : Ccsc) (stat : ℕ) (c : Chr) : Prop where
  ascii : asciiOf c = none
  passes : Passes ccsc (fun _ => true) stat c
  after : statAfter ccsc stat c < 2
  bytes : ∀ x ∈ c, 0x30 ≤ x.toNat
  head : ∃ a c', c = a :: c' ∧ 0x80 ≤ a.toNat

theorem wide_or_ascii (hstat : stat < 2) (hc : isChar ccsc c = true)
    (hlead : HighLeads ccsc [c]) : Wide ccsc stat c ∨ ∃ b, c = [b] ∧ b.toNat < 0x80 := by
  match c, hc with
  | [b], hc =>
    by_cases hb : b.toNat < 0x80
    · exact Or.inr ⟨b, rfl, hb⟩
    · refine Or.inl ⟨by simp [asciiOf, hb], ?_, ?_, ?_, b, [], rfl, by omega⟩
      · exact ⟨fun _ => by simp [nonAscii]; omega, trivial⟩
      · exact lt_of_eq_of_lt (single_stat hstat hc) Nat.two_pos
      · intro x hx
        rw [List.mem_singleton.mp hx]
        omega
  | a :: a' :: c, hc =>
    obtain ⟨hpass, hafter⟩ := long_tracked hlead hstat hc
    exact Or.inl ⟨rfl, hpass, hafter ▸ Nat.one_lt_two, bytes_of_isChar hc, a, a' :: c, rfl,
      head_of_isChar hc⟩

theorem nextStat_ascii (hstat : stat < 2) (hb : b.toNat < 0x80) : nextStat ccsc stat b = 0 :=
  pg_CS_stat_ascii ccsc hstat hb

theorem nonAscii_ascii (hb : b.toNat < 0x80) : nonAscii 0 b = false := by
  simp [nonAscii, hb]

@[simp]
theorem asciiOf_single (hb : b.toNat < 0x80) : asciiOf [b] = some b := by
  simp [asciiOf, hb]

theorem isSpace_of_le (hb : 0x21 ≤ b.toNat) : isSpace b = false := by
  simp only [isSpace, UInt8.le_iff_toNat_le, Bool.or_eq_false_iff, Bool.and_eq_false_iff,
    decide_eq_false_iff_not, ← UInt8.toNat_inj, UInt8.reduceToNat]
  omega

theorem isDelimiter_of_le (hb : 0x30 ≤ b.toNat) : isDelimiter b = false := by
  simp only [isDelimiter, isSpace_of_le (Nat.le_trans (by decide) hb), Bool.false_or,
    decide_eq_false_iff_not, ← UInt8.toNat_inj, UInt8.reduceToNat]
  omega

theorem isAlnum_of_le (hb : 0x80 ≤ b.toNat) : (isAlnum b || decide (b = 0x2e)) = false := by
  simp only [isAlnum, isDigit, UInt8.le_iff_toNat_le, Bool.or_eq_false_iff, Bool.and_eq_false_iff,
    decide_eq_false_iff_not, ← UInt8.toNat_inj, UInt8.reduceToNat]
  omega

theorem not_space_of_number (h : isAlnum b = true ∨ b = 0x2e) : isSpace b = false := by
  apply isSpace_of_le
  simp only [isAlnum, isDigit, UInt8.le_iff_toNat_le, Bool.or_eq_true, Bool.and_eq_true,
    decide_eq_true_eq, ← UInt8.toNat_inj, UInt8.reduceToNat] at h
  omega

theorem highLeads_cons (h : HighLeads ccsc (c :: t)) : HighLeads ccsc [c] ∧ HighLeads ccsc t :=
  ⟨h.of_mem List.mem_cons_self,
    fun hjohab a b hab => h hjohab a b (List.mem_cons_of_mem _ hab)⟩

/-- A text in the client encoding whose characters the driver tells apart. -/
structure Readable (ccsc : Ccsc) (t : List Chr) : Prop where
  wellFormed : WellFormed ccsc t
  leads : HighLeads ccsc t

theorem Readable.tail (h : Readable ccsc (c :: t)) : Readable ccsc t :=
  ⟨(wellFormed_cons.mp h.wellFormed).2, (highLeads_cons h.leads).2⟩

theorem Readable.head (h : Readable ccsc (c :: t)) (hstat : stat < 2) :
    Wide ccsc stat c ∨ ∃ b, c = [b] ∧ b.toNat < 0x80 :=
  wide_or_ascii hstat (wellFormed_cons.mp h.wellFormed).1 (highLeads_cons h.leads).1

theorem Readable.of_suffix {t' : List Chr} (h : Readable ccsc t) (ht : t' <:+ t) :
    Readable ccsc t' :=
  ⟨fun c hc => h.wellFormed c (ht.subset hc),
    fun hjohab a b hab => h.leads hjohab a b (ht.subset hab)⟩

/-- Low bytes are dropped as the characters that they are. -/
theorem flatten_dropWhile {p : Byte → Bool} (hp : ∀ b, 0x30 ≤ b.toNat → p b = false)
    (ht : Readable ccsc t) : (t.dropWhile (isAscii p)).flatten = t.flatten.dropWhile p := by
  induction t with
  | nil => rfl
  | cons c t ih =>
    rcases ht.head Nat.two_pos with hwide | ⟨b, rfl, hb⟩
    · obtain ⟨a, c', rfl, ha⟩ := hwide.head
      have hpa : p a = false := hp a (by omega)
      rw [List.dropWhile_cons_of_neg (by simp [isAscii, hwide.ascii]), List.flatten_cons,
        List.cons_append, List.dropWhile_cons_of_neg (by simp [hpa])]
    · have hascii : isAscii p [b] = p b := by simp [isAscii, hb]
      cases hpb : p b with
      | true =>
        rw [List.dropWhile_cons_of_pos (hascii.trans hpb), List.flatten_cons, List.singleton_append,
          List.dropWhile_cons_of_pos hpb, ih ht.tail]
      | false =>
        rw [List.dropWhile_cons_of_neg (by simp [hascii, hpb]), List.flatten_cons,
          List.singleton_append, List.dropWhile_cons_of_neg (by simp [hpb])]

/-! ### What is left -/

/-- In `s`, a byte that is no blank is left in front of all that is as short as `rest`. -/
def Left (s rest : List Byte) : Prop :=
  ∃ y b z, s = y ++ b :: z ∧ isSpace b = false ∧ rest.length ≤ z.length

theorem Left.append {rest : List Byte} (h : Left s rest) (u : List Byte) : Left (u ++ s) rest := by
  obtain ⟨y, b, z, rfl, hb, hle⟩ := h
  exact ⟨u ++ y, b, z, by rw [List.append_assoc], hb, hle⟩

theorem length_lt_dropWhile (y : List Byte) (hb : isSpace b = false) :
    s.length < ((y ++ b :: s).dropWhile isSpace).length := by
  induction y with
  | nil => simp [List.dropWhile_cons_of_neg, hb]
  | cons a y ih =>
    rw [List.cons_append]
    cases ha : isSpace a with
    | true => rwa [List.dropWhile_cons_of_pos ha]
    | false =>
      rw [List.dropWhile_cons_of_neg (by simp [ha]), List.length_cons, List.length_append,
        List.length_cons]
      omega

/-- What is left shows behind the blanks. -/
theorem Left.ne {rest : List Byte} (h : Left s rest) :
    s.dropWhile isSpace ≠ rest.dropWhile isSpace := by
  obtain ⟨y, b, z, rfl, hb, hle⟩ := h
  intro heq
  have hlt := length_lt_dropWhile (s := z) y hb
  rw [heq] at hlt
  have hdrop := (List.dropWhile_suffix isSpace (l := rest)).length_le
  omega

theorem flatten_suffix {t' : List Chr} (h : t' <:+ t) : t'.flatten <:+ t.flatten := by
  obtain ⟨u, rfl⟩ := h
  rw [List.flatten_append]
  exact List.suffix_append _ _

/-- A character outside ASCII that is cut is left. -/
theorem Wide.left (h : Wide ccsc stat c) {rest : List Byte} (hroom : room < c.length)
    (hle : rest.length ≤ s.length) : Left (c.drop room ++ s) rest := by
  obtain ⟨x, u, hu⟩ : ∃ x u, c.drop room = x :: u :=
    List.exists_cons_of_ne_nil (by rw [ne_eq, List.drop_eq_nil_iff]; omega)
  have hx : x ∈ c := List.mem_of_mem_drop (hu ▸ List.mem_cons_self)
  refine ⟨[], x, u ++ s, by rw [hu]; rfl, ?_, ?_⟩
  · exact isSpace_of_le (Nat.le_trans (by decide) (h.bytes x hx))
  · rw [List.length_append]
    omega

/-! ### Words and numbers -/

/-- Bytes in front of what a loop copies. -/
def Scanned.prepend (u : List Byte) (x : Scanned) : Scanned := { x with value := u ++ x.value }

theorem wordLoop_wide (hpass : Passes ccsc (fun _ => true) stat c) (hroom : c.length ≤ room) :
    wordLoop ccsc stat room (c ++ s) =
      (wordLoop ccsc (statAfter ccsc stat c) (room - c.length) s).prepend c := by
  induction c generalizing stat room with
  | nil => rfl
  | cons a c ih =>
    rw [List.length_cons] at hroom ⊢
    rw [List.cons_append, wordLoop, if_neg (by omega), if_pos (hpass.1 rfl),
      ih hpass.2 (by omega), Nat.sub_sub, Nat.add_comm 1]
    rfl

theorem wordLoop_cut (hpass : Passes ccsc (fun _ => true) stat c) (hroom : room < c.length) :
    wordLoop ccsc stat room (c ++ s) = ⟨c.take room, c.drop room ++ s⟩ := by
  induction c generalizing stat room with
  | nil => exact absurd hroom (Nat.not_lt_zero _)
  | cons a c ih =>
    rw [List.cons_append, wordLoop]
    cases room with
    | zero => rfl
    | succ room =>
      rw [if_neg (Nat.succ_ne_zero _), if_pos (hpass.1 rfl), Nat.add_sub_cancel,
        ih hpass.2 (Nat.lt_of_succ_lt_succ hroom)]
      rfl

/-- An ASCII character of a word, other than a dollar sign, goes on with it. -/
theorem wordLoop_word (hstat : stat < 2) (hb : b.toNat < 0x80) (hword : isWordChr [b] = true)
    (hdollar : b ≠ dollarQuote) (hroom : room ≠ 0) :
    wordLoop ccsc stat room (b :: s) = (wordLoop ccsc 0 (room - 1) s).prepend [b] := by
  have hplain : isDelimiter b = false ∧ ¬(isPunct b = true ∧ b ≠ 0x5f) := by
    rw [isWordChr, asciiOf_single hb, Option.all_some] at hword
    by_cases hunder : b = 0x5f
    · subst hunder
      decide
    · simpa [hunder, hdollar] using hword
  rw [wordLoop, nextStat_ascii hstat hb, if_neg hroom, if_neg (by simp [nonAscii_ascii hb]),
    if_neg (by simp [hplain.1]), if_neg hplain.2]
  rfl

/-- At a dollar sign, or an ASCII character of no word, the loop stops. -/
theorem wordLoop_stop (hstat : stat < 2) (hb : b.toNat < 0x80)
    (hword : isWordChr [b] = false ∨ b = dollarQuote) :
    wordLoop ccsc stat room (b :: s) = ⟨[], b :: s⟩ := by
  have hplain : isDelimiter b = true ∨ (isPunct b = true ∧ b ≠ 0x5f) := by
    rcases hword with hword | rfl
    · rw [isWordChr, asciiOf_single hb, Option.all_some] at hword
      by_cases hdelimiter : isDelimiter b = true
      · exact Or.inl hdelimiter
      · simp [hdelimiter] at hword
        exact Or.inr ⟨hword.2, hword.1.1⟩
    · exact Or.inr (by decide)
  have hascii : ¬nonAscii 0 b = true := by simp [nonAscii_ascii hb]
  rw [wordLoop, nextStat_ascii hstat hb, if_neg hascii]
  rcases hplain with hdelimiter | hpunct
  · rw [if_pos hdelimiter, ite_self]
  · rw [if_pos hpunct, ite_self, ite_self]

theorem wordLoop_full : wordLoop ccsc stat 0 s = ⟨[], s⟩ := by
  cases s with
  | nil => rfl
  | cons b s => rw [wordLoop, if_pos rfl]

theorem isWordChr_wide (h : Wide ccsc stat c) : isWordChr c = true := by
  rw [isWordChr, h.ascii]
  rfl

/-- A word without dollar signs for which there is room. -/
theorem word_read (ht : Readable ccsc t) (hstat : stat < 2)
    (hdollar : [dollarQuote] ∉ t.takeWhile isWordChr)
    (hroom : (t.takeWhile isWordChr).flatten.length ≤ room) :
    wordLoop ccsc stat room t.flatten =
      ⟨(t.takeWhile isWordChr).flatten, (t.dropWhile isWordChr).flatten⟩ := by
  induction t generalizing stat room with
  | nil => rfl
  | cons c t ih =>
    cases hword : isWordChr c with
    | true =>
      rw [List.takeWhile_cons_of_pos hword] at hdollar hroom ⊢
      rw [List.dropWhile_cons_of_pos hword]
      rw [List.mem_cons, not_or] at hdollar
      rw [List.flatten_cons, List.length_append] at hroom
      rw [List.flatten_cons, List.flatten_cons]
      rcases ht.head hstat with hwide | ⟨b, rfl, hb⟩
      · rw [wordLoop_wide hwide.passes (by omega), ih ht.tail hwide.after hdollar.2 (by omega)]
        rfl
      · rw [List.length_singleton] at hroom
        have hb' : b ≠ dollarQuote := fun h => hdollar.1 (h ▸ rfl)
        rw [List.singleton_append, wordLoop_word hstat hb hword hb' (by omega),
          ih ht.tail Nat.two_pos hdollar.2 (by omega)]
        rfl
    | false =>
      rw [List.takeWhile_cons_of_neg (by simp [hword]),
        List.dropWhile_cons_of_neg (by simp [hword])]
      rcases ht.head hstat with hwide | ⟨b, rfl, hb⟩
      · rw [isWordChr_wide hwide] at hword
        cases hword
      · exact wordLoop_stop hstat hb (Or.inl hword)

theorem not_space_of_word (hb : b.toNat < 0x80) (hword : isWordChr [b] = true) :
    isSpace b = false := by
  rw [isWordChr, asciiOf_single hb, Option.all_some] at hword
  cases hspace : isSpace b with
  | false => rfl
  | true =>
    have hne : b ≠ 0x5f ∧ b ≠ dollarQuote := by
      constructor <;> rintro rfl <;> cases hspace
    simp [isDelimiter, hspace, hne] at hword

/-- Otherwise a part of the word is left. -/
theorem word_left (ht : Readable ccsc t) (hstat : stat < 2)
    (hcut : [dollarQuote] ∈ t.takeWhile isWordChr ∨
      room < (t.takeWhile isWordChr).flatten.length) :
    Left (wordLoop ccsc stat room t.flatten).rest (t.dropWhile isWordChr).flatten := by
  induction t generalizing stat room with
  | nil => simp at hcut
  | cons c t ih =>
    cases hword : isWordChr c with
    | true =>
      have hle : (t.dropWhile isWordChr).flatten.length ≤ t.flatten.length :=
        (flatten_suffix (List.dropWhile_suffix _)).length_le
      rw [List.takeWhile_cons_of_pos hword, List.mem_cons, List.flatten_cons, List.length_append]
        at hcut
      rw [List.dropWhile_cons_of_pos hword, List.flatten_cons]
      rcases ht.head hstat with hwide | ⟨b, rfl, hb⟩
      · by_cases hroom : c.length ≤ room
        · rw [wordLoop_wide hwide.passes hroom]
          refine ih ht.tail hwide.after ?_
          rcases hcut with (hdollar | hdollar) | hroom
          · rw [← hdollar] at hwide
            exact absurd hwide.ascii (by decide)
          · exact Or.inl hdollar
          · exact Or.inr (by omega)
        · rw [wordLoop_cut hwide.passes (by omega)]
          exact hwide.left (by omega) hle
      · have hleft : Left (b :: t.flatten) (t.dropWhile isWordChr).flatten :=
          ⟨[], b, _, rfl, not_space_of_word hb hword, hle⟩
        rw [List.singleton_append]
        by_cases hdollar : b = dollarQuote
        · rw [wordLoop_stop hstat hb (Or.inr hdollar)]
          exact hleft
        · by_cases hroom : room = 0
          · rw [hroom, wordLoop_full]
            exact hleft
          · rw [wordLoop_word hstat hb hword hdollar hroom]
            refine ih ht.tail Nat.two_pos ?_
            rcases hcut with (h | h) | h
            · exact absurd (List.singleton_inj.mp h).symm hdollar
            · exact Or.inl h
            · rw [List.length_singleton] at h
              exact Or.inr (by omega)
    | false =>
      rw [List.takeWhile_cons_of_neg (by simp [hword])] at hcut
      simp at hcut

/-! #### Numbers -/

theorem isNumberChr_single (hb : b.toNat < 0x80) :
    isNumberChr [b] = (isAlnum b || decide (b = 0x2e)) := by
  rw [isNumberChr, isAscii, asciiOf_single hb, Option.any_some]

/-- A number for which there is room. -/
theorem number_read (ht : Readable ccsc t)
    (hroom : (t.takeWhile isNumberChr).flatten.length ≤ room) :
    numberLoop room t.flatten =
      ⟨(t.takeWhile isNumberChr).flatten, (t.dropWhile isNumberChr).flatten⟩ := by
  induction t generalizing room with
  | nil => rfl
  | cons c t ih =>
    cases hnumber : isNumberChr c with
    | true =>
      rw [List.takeWhile_cons_of_pos hnumber, List.flatten_cons, List.length_append] at hroom
      rw [List.takeWhile_cons_of_pos hnumber, List.dropWhile_cons_of_pos hnumber,
        List.flatten_cons, List.flatten_cons]
      rcases ht.head Nat.two_pos with hwide | ⟨b, rfl, hb⟩
      · simp [isNumberChr, isAscii, hwide.ascii] at hnumber
      · rw [List.length_singleton] at hroom
        have hb' : (isAlnum b = true ∨ b = 0x2e) ∧ room ≠ 0 :=
          ⟨by simpa [isNumberChr_single hb] using hnumber, by omega⟩
        rw [List.singleton_append, numberLoop, if_pos hb', ih ht.tail (by omega)]
        rfl
    | false =>
      rw [List.takeWhile_cons_of_neg (by simp [hnumber]),
        List.dropWhile_cons_of_neg (by simp [hnumber])]
      rcases ht.head Nat.two_pos with hwide | ⟨b, rfl, hb⟩
      · obtain ⟨a, c', rfl, ha⟩ := hwide.head
        have ha' : ¬((isAlnum a = true ∨ a = 0x2e) ∧ room ≠ 0) := by
          have := isAlnum_of_le ha
          simp_all
        rw [List.flatten_cons, List.cons_append, numberLoop, if_neg ha']
        rfl
      · have hb' : ¬((isAlnum b = true ∨ b = 0x2e) ∧ room ≠ 0) := by
          rw [isNumberChr_single hb] at hnumber
          simp_all
        rw [List.flatten_cons, List.singleton_append, numberLoop, if_neg hb']
        rfl

/-- Otherwise a part of the number is left. -/
theorem number_left (ht : Readable ccsc t)
    (hroom : room < (t.takeWhile isNumberChr).flatten.length) :
    Left (numberLoop room t.flatten).rest (t.dropWhile isNumberChr).flatten := by
  induction t generalizing room with
  | nil => simp at hroom
  | cons c t ih =>
    cases hnumber : isNumberChr c with
    | true =>
      rw [List.takeWhile_cons_of_pos hnumber, List.flatten_cons, List.length_append] at hroom
      rw [List.dropWhile_cons_of_pos hnumber, List.flatten_cons]
      rcases ht.head Nat.two_pos with hwide | ⟨b, rfl, hb⟩
      · simp [isNumberChr, isAscii, hwide.ascii] at hnumber
      · have hb' : isAlnum b = true ∨ b = 0x2e := by
          simpa [isNumberChr_single hb] using hnumber
        rw [List.length_singleton] at hroom
        rw [List.singleton_append, numberLoop]
        by_cases hzero : room = 0
        · rw [if_neg (by simp [hzero])]
          exact ⟨[], b, _, rfl, not_space_of_number hb',
            (flatten_suffix (List.dropWhile_suffix _)).length_le⟩
        · rw [if_pos ⟨hb', hzero⟩]
          exact ih ht.tail (by omega)
    | false =>
      rw [List.takeWhile_cons_of_neg (by simp [hnumber])] at hroom
      simp at hroom

end OdbcDriver.NextToken
