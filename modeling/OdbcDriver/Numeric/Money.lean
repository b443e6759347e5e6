import Mathlib.Data.List.Basic
import OdbcDriver.Encoding.Ascii

/-!
# Amounts of money

The server writes an amount with the currency symbol, the separators and the sign of its locale.
`convert_money` makes a number of it: it takes the last of the first point and the first comma for
the decimal point, if at most two characters stand between it and the last digit, and drops
everything else but digits and minus signs.
-/

namespace OdbcDriver.Money

/-! ### The conversion -/

/-- `num_in`, `period_in` and `comma_in`. -/
structure Places where
  num_in : Int
  period_in : Int
  comma_in : Int

/-- The first loop, at the index `i`. -/
def findPlaces (i : Nat) (r : Places) : List Byte → Places
  | [] => r
  | c :: s =>
    findPlaces (i + 1)
      (if c = 0x2e then if r.period_in < 0 then { r with period_in := i } else r
      else if c = 0x2c then if r.comma_in < 0 then { r with comma_in := i } else r
      else if isDigit c then { r with num_in := i } else r) s

/-- `decp`: the character that is taken for the decimal point, or 0. -/
def decimalPoint (s : List Byte) : Byte :=
  let r := findPlaces 0 ⟨-1, -1, -1⟩ s
  if r.comma_in < r.period_in then if r.num_in - 2 ≤ r.period_in then 0x2e else 0
  else if 0 ≤ r.comma_in ∧ r.num_in - 2 ≤ r.comma_in then 0x2c else 0

/-- What the second loop writes for a character. -/
def written (decp c : Byte) : Option Byte :=
  if c = 0x28 ∨ c = 0x2d then some 0x2d
  else if isDigit c then some c
  else if c = decp then some 0x2e
  else none

/-- The second loop, when `out` characters have been written. -/
def writeLoop (decp : Byte) (soutmax : Nat) : Nat → List Byte → List Byte
  | _, [] => []
  | out, c :: s =>
    if out + 1 < soutmax then
      match written decp c with
      | some d => d :: writeLoop decp soutmax (out + 1) s
      | none => writeLoop decp soutmax out s
    else []

/-- `convert_money`: what is left in `sout`. -/
def convert_money (s : List Byte) (soutmax : Nat) : List Byte :=
  writeLoop (decimalPoint s) soutmax 0 s

/-! ### Amounts as the server writes them -/

/-- Which of the two characters separates groups of digits, and which is the decimal point. -/
inductive Style
  /-- 1,234.56 -/
  | comma
  /-- 1.234,56 -/
  | point

def Style.thousands : Style → Byte
  | .comma => 0x2c
  | .point => 0x2e

def Style.decimal : Style → Byte
  | .comma => 0x2e
  | .point => 0x2c

/-- How an amount shows that it is negative, if it is. -/
inductive Sign
  | positive
  | parentheses
  | front
  | back
  deriving DecidableEq

def Sign.opening : Sign → List Byte
  | .positive | .back => []
  | .parentheses => [0x28]
  | .front => [0x2d]

def Sign.closing : Sign → List Byte
  | .positive | .front => []
  | .parentheses => [0x29]
  | .back => [0x2d]

/-- A character of a currency symbol, which may well be a point or a comma. -/
structure IsSymbol (c : Byte) : Prop where
  ne_zero : c ≠ 0
  not_digit : isDigit c = false
  ne_sign : c ≠ 0x28 ∧ c ≠ 0x2d

/-- An amount and what surrounds it: the parts of the currency symbol, and spaces, stand outside and
inside of the sign. -/
structure Amount where
  style : Style
  sign : Sign
  /-- The whole part: digits, and further groups of three. -/
  head : List Byte
  groups : List (List Byte)
  /-- The digits behind the decimal point; no point where there are none. -/
  fraction : List Byte
  before₁ : List Byte
  before₂ : List Byte
  after₁ : List Byte
  after₂ : List Byte
  head_ne_nil : head ≠ []
  digits : ∀ c ∈ head ++ (groups.flatten ++ fraction), isDigit c = true
  length_group : ∀ g ∈ groups, g.length = 3
  symbols : ∀ c ∈ before₁ ++ (before₂ ++ (after₁ ++ after₂)), IsSymbol c

namespace Amount

variable (x : Amount)

/-- The whole part, with separators. -/
def whole : List Byte := x.head ++ x.groups.flatMap (x.style.thousands :: ·)

/-- The number, with separators. -/
def number : List Byte :=
  x.whole ++ if x.fraction = [] then [] else x.style.decimal :: x.fraction

/-- What stands in front of the number. -/
def before : List Byte := x.before₁ ++ (x.sign.opening ++ x.before₂)

/-- What stands behind the number. -/
def after : List Byte := x.after₁ ++ (x.sign.closing ++ x.after₂)

/-- The amount as the server writes it. -/
def text : List Byte := x.before ++ (x.number ++ x.after)

/-- The plain decimal text. -/
def plain : List Byte :=
  (if x.sign = .positive then [] else [0x2d]) ++ (x.head ++ (x.groups.flatten ++
    if x.fraction = [] then [] else 0x2e :: x.fraction))

/-- The amounts that are converted to their plain texts. Where the plain text fills `sout`, what
stands behind the number is cut off. -/
def Good (soutmax : Nat) : Prop :=
  x.sign ≠ .back ∧ x.plain.length < soutmax ∧
    if x.fraction = [] then
      (∀ c ∈ [(0x2e : Byte), 0x2c], c ∈ x.text →
        x.text.idxOf c + 3 < (x.before ++ x.number).length) ∨
      (x.plain.length + 1 = soutmax ∧ ∃ c ∈ [(0x2e : Byte), 0x2c], c ∈ x.after ∧
        c ∉ x.before ++ x.number)
    else
      x.fraction.length ≤ 2 ∧ x.style.decimal ∉ x.before ∧
      (x.style.thousands ∈ x.after → x.style.thousands ∈ x.before ∨ x.groups ≠ []) ∧
      (x.style.decimal ∈ x.after → x.plain.length + 1 = soutmax)

end Amount

/-! ### The places that are found -/

variable {c d decp : Byte} {s pre post : List Byte}

/-- The first place of a character, where none has been found before. -/
def firstPlace (c : Byte) : Nat → Int → List Byte → Int
  | _, r, [] => r
  | i, r, d :: s => firstPlace c (i + 1) (if d = c ∧ r < 0 then i else r) s

theorem findPlaces_period (i : Nat) (r : Places) (s : List Byte) :
    (findPlaces i r s).period_in = firstPlace 0x2e i r.period_in s := by
  induction s generalizing i r with
  | nil => rfl
  | cons c s ih =>
    rw [findPlaces, ih, firstPlace]
    congr 1
    by_cases hc : c = 0x2e
    · rw [if_pos hc]
      by_cases hr : r.period_in < 0
      · rw [if_pos hr, if_pos ⟨hc, hr⟩]
      · rw [if_neg hr, if_neg fun h => hr h.2]
    · have hnot : ¬ (c = 0x2e ∧ r.period_in < 0) := fun h => hc h.1
      rw [if_neg hc, if_neg hnot]
      split <;> split <;> rfl

theorem findPlaces_comma (i : Nat) (r : Places) (s : List Byte) :
    (findPlaces i r s).comma_in = firstPlace 0x2c i r.comma_in s := by
  induction s generalizing i r with
  | nil => rfl
  | cons c s ih =>
    rw [findPlaces, ih, firstPlace]
    congr 1
    by_cases hc : c = 0x2c
    · subst hc
      rw [if_neg (by decide), if_pos rfl]
      by_cases hr : r.comma_in < 0
      · rw [if_pos hr, if_pos ⟨rfl, hr⟩]
      · rw [if_neg hr, if_neg fun h => hr h.2]
    · have hnot : ¬ (c = 0x2c ∧ r.comma_in < 0) := fun h => hc h.1
      rw [if_neg hc, if_neg hnot]
      split
      · split <;> rfl
      · split <;> rfl

theorem firstPlace_eq (c : Byte) (i : Nat) (r : Int) (s : List Byte) :
    firstPlace c i r s = if r < 0 ∧ c ∈ s then (i : Int) + s.idxOf c else r := by
  induction s generalizing i r with
  | nil => simp [firstPlace]
  | cons d s ih =>
    rw [firstPlace, ih]
    by_cases hr : r < 0
    · by_cases hd : d = c
      · subst hd
        simp [hr]
      · have hidx : (d :: s).idxOf c = s.idxOf c + 1 := List.idxOf_cons_ne _ hd
        have hmem : c ∈ d :: s ↔ c ∈ s := List.mem_cons.trans (or_iff_right (Ne.symm hd))
        have hnot : ¬ (d = c ∧ r < 0) := fun h => hd h.1
        simp only [if_neg hnot, hidx, hmem]
        split
        · push_cast
          omega
        · rfl
    · have hnot : ¬ (d = c ∧ r < 0) := fun h => hr h.2
      rw [if_neg hnot, if_neg fun h => hr h.1, if_neg fun h => hr h.1]

/-- The last digit. -/
theorem findPlaces_num (hd : isDigit d = true) (hpost : ∀ c ∈ post, isDigit c = false) (i : Nat)
    (r : Places) : (findPlaces i r (pre ++ d :: post)).num_in = i + pre.length := by
  have hkeep : ∀ (post : List Byte), (∀ c ∈ post, isDigit c = false) → ∀ (i : Nat) (r : Places),
      (findPlaces i r post).num_in = r.num_in := by
    intro post hpost
    induction post with
    | nil => exact fun _ _ => rfl
    | cons c post ih =>
      intro i r
      rw [findPlaces, ih fun c hc => hpost c (List.mem_cons_of_mem _ hc),
        hpost c List.mem_cons_self]
      split
      · split <;> rfl
      · split
        · split <;> rfl
        · rfl
  induction pre generalizing i r with
  | nil =>
    have hpoint : d ≠ 0x2e := by rintro rfl; cases hd
    have hcomma : d ≠ 0x2c := by rintro rfl; cases hd
    rw [List.nil_append, findPlaces, hkeep post hpost, if_neg hpoint, if_neg hcomma, if_pos hd]
    exact (Int.add_zero _).symm
  | cons c pre ih =>
    rw [List.cons_append, findPlaces, ih]
    push_cast [List.length_cons]
    omega

/-- The decimal point is the last of the first point and the first comma, if it stands near the last
digit; otherwise there is none. -/
theorem decimalPoint_spec (hd : isDigit d = true) (hpost : ∀ c ∈ post, isDigit c = false)
    (hs : s = pre ++ d :: post) :
    (decimalPoint s = 0 ∧ ∀ c ∈ [(0x2e : Byte), 0x2c], c ∈ s → s.idxOf c + 2 < pre.length) ∨
      (decimalPoint s ∈ [(0x2e : Byte), 0x2c] ∧ decimalPoint s ∈ s ∧
        pre.length ≤ s.idxOf (decimalPoint s) + 2 ∧
        ∀ c ∈ [(0x2e : Byte), 0x2c], c ∈ s → s.idxOf c ≤ s.idxOf (decimalPoint s)) := by
  have hnum : (findPlaces 0 ⟨-1, -1, -1⟩ s).num_in = (pre.length : Int) := by
    rw [hs, findPlaces_num hd hpost]
    exact Int.zero_add _
  have hperiod : (findPlaces 0 ⟨-1, -1, -1⟩ s).period_in =
      if 0x2e ∈ s then (s.idxOf 0x2e : Int) else -1 := by
    rw [findPlaces_period, firstPlace_eq]
    simp
  have hcomma : (findPlaces 0 ⟨-1, -1, -1⟩ s).comma_in =
      if 0x2c ∈ s then (s.idxOf 0x2c : Int) else -1 := by
    rw [findPlaces_comma, firstPlace_eq]
    simp
  obtain ⟨D, hD⟩ : ∃ D, D = decimalPoint s := ⟨_, rfl⟩
  have hdef := hD
  rw [decimalPoint, hnum, hperiod, hcomma] at hdef
  rw [← hD]
  have hboth : ∀ p : Byte → Prop, (∀ c ∈ [(0x2e : Byte), 0x2c], p c) ↔ p 0x2e ∧ p 0x2c := by
    intro p
    simp
  rw [hboth, hboth, List.mem_pair]
  have hne : (0x2e : Byte) ≠ 0 ∧ (0x2c : Byte) ≠ 0 := by decide
  by_cases h1 : 0x2e ∈ s
  · by_cases h2 : 0x2c ∈ s
    · simp only [h1, h2, if_true, true_imp_iff] at hdef ⊢
      split_ifs at hdef with ha hb hb <;> subst hdef
      · exact .inr ⟨.inl rfl, h1, by omega, by omega, by omega⟩
      · exact .inl ⟨rfl, by omega, by omega⟩
      · exact .inr ⟨.inr rfl, h2, by omega, by omega, by omega⟩
      · exact .inl ⟨rfl, by omega, by omega⟩
    · simp only [h1, h2, if_true, if_false, true_imp_iff, false_imp_iff, and_true] at hdef ⊢
      split_ifs at hdef with ha hb hb <;> subst hdef
      · exact .inr ⟨.inl rfl, h1, by omega, by omega⟩
      · exact .inl ⟨rfl, by omega⟩
      · omega
      · omega
  · by_cases h2 : 0x2c ∈ s
    · simp only [h1, h2, if_true, if_false, true_imp_iff, false_imp_iff, true_and] at hdef ⊢
      split_ifs at hdef with ha hb hb <;> subst hdef
      · omega
      · omega
      · exact .inr ⟨.inr rfl, h2, by omega, by omega⟩
      · exact .inl ⟨rfl, by omega⟩
    · simp only [h1, h2, if_false, false_imp_iff, and_true] at hdef ⊢
      split_ifs at hdef with ha hb <;> subst hdef
      · omega
      · omega
      · omega
      · exact .inl rfl

/-! ### What is written -/

theorem writeLoop_eq (D : Byte) (soutmax out : Nat) (s : List Byte) :
    writeLoop D soutmax out s = (s.filterMap (written D)).take (soutmax - 1 - out) := by
  induction s generalizing out with
  | nil => exact (List.take_nil).symm
  | cons c s ih =>
    rw [writeLoop]
    by_cases hroom : out + 1 < soutmax
    · obtain ⟨n, hn⟩ : ∃ n, soutmax - 1 - out = n + 1 := ⟨soutmax - 1 - out - 1, by omega⟩
      have hn' : soutmax - 1 - (out + 1) = n := by omega
      rw [if_pos hroom]
      cases hw : written D c with
      | none => rw [List.filterMap_cons_none hw, ← ih]
      | some d => rw [List.filterMap_cons_some hw, hn, List.take_succ_cons, ih, hn']
    · have hn : soutmax - 1 - out = 0 := by omega
      rw [if_neg hroom, hn, List.take_zero]

/-- A character that may be taken for the decimal point, or none. -/
def IsPoint (D : Byte) : Prop := D = 0 ∨ D ∈ [(0x2e : Byte), 0x2c]

theorem IsPoint.not_digit {D : Byte} (h : IsPoint D) : isDigit D = false := by
  rcases h with rfl | h
  · rfl
  · rcases List.mem_pair.mp h with rfl | rfl <;> rfl

theorem written_digit (D : Byte) (hc : isDigit c = true) : written D c = some c := by
  have hsign : ¬ (c = 0x28 ∨ c = 0x2d) := by
    rintro (rfl | rfl) <;> cases hc
  rw [written, if_neg hsign, if_pos hc]

theorem filterMap_digits (D : Byte) (h : ∀ c ∈ s, isDigit c = true) :
    s.filterMap (written D) = s := by
  induction s with
  | nil => rfl
  | cons c s ih =>
    rw [List.filterMap_cons_some (written_digit D (h c List.mem_cons_self)),
      ih fun d hd => h d (List.mem_cons_of_mem _ hd)]

theorem written_symbol (D : Byte) (hc : IsSymbol c) :
    written D c = if c = D then some 0x2e else none := by
  have hsign : ¬ (c = 0x28 ∨ c = 0x2d) := fun h => h.elim hc.ne_sign.1 hc.ne_sign.2
  rw [written, if_neg hsign, if_neg (by rw [hc.not_digit]; exact Bool.false_ne_true)]

theorem filterMap_symbols (D : Byte) (h : ∀ c ∈ s, IsSymbol c) :
    s.filterMap (written D) = List.replicate (s.count D) 0x2e := by
  induction s with
  | nil => rfl
  | cons c s ih =>
    have ih' := ih fun d hd => h d (List.mem_cons_of_mem _ hd)
    have hw := written_symbol D (h c List.mem_cons_self)
    by_cases hc : c = D
    · rw [if_pos hc] at hw
      rw [List.filterMap_cons_some hw, ih', hc, List.count_cons_self]
      rfl
    · rw [if_neg hc] at hw
      rw [List.filterMap_cons_none hw, ih', List.count_cons_of_ne hc]

theorem take_append_iff {l r r' : List Byte} {n : Nat} :
    (l ++ r).take n = l ++ r' ↔ l.length ≤ n ∧ r.take (n - l.length) = r' := by
  rw [List.take_append]
  by_cases hn : l.length ≤ n
  · rw [List.take_of_length_le hn, and_iff_right hn]
    exact List.append_right_inj l
  · refine iff_of_false (fun h => ?_) fun h => hn h.1
    have hlen := congrArg List.length h
    simp only [List.length_append, List.length_take] at hlen
    omega

/-- What begins otherwise is not the same. -/
theorem take_cons_ne {r r' : List Byte} {n : Nat} (h : c ≠ d) : (c :: r).take n ≠ d :: r' := by
  cases n with
  | zero => exact (List.cons_ne_nil d r').symm
  | succ n => exact fun heq => h (List.cons.inj heq).1

/-- Points in front of what begins otherwise. -/
theorem take_points_iff {D : Byte} {l r r' : List Byte} {n : Nat} (hd : d ≠ 0x2e) :
    (List.replicate (l.count D) 0x2e ++ r).take n = d :: r' ↔ D ∉ l ∧ r.take n = d :: r' := by
  by_cases hmem : D ∈ l
  · obtain ⟨k, hk⟩ := Nat.exists_eq_add_one.mpr (List.count_pos_iff.mpr hmem)
    rw [hk]
    exact iff_of_false (take_cons_ne hd.symm) fun h => h.1 hmem
  · rw [List.count_eq_zero_of_not_mem hmem, and_iff_right hmem]
    rfl

namespace Amount

variable (x : Amount)

theorem isDigit_ne_point (hc : isDigit c = true) : c ≠ 0x2e := by
  rintro rfl
  cases hc

theorem isSymbol_after (h : x.sign ≠ .back) : ∀ c ∈ x.after, IsSymbol c := by
  intro c hc
  have hsymbols := x.symbols c
  simp only [after, List.mem_append] at hc hsymbols
  rcases hc with hc | hc | hc
  · exact hsymbols (.inr (.inr (.inl hc)))
  · cases hs : x.sign with
    | back => exact absurd hs h
    | positive =>
      rw [hs] at hc
      cases hc
    | front =>
      rw [hs] at hc
      cases hc
    | parentheses =>
      rw [hs] at hc
      rw [List.mem_singleton.mp hc]
      exact ⟨by decide, rfl, by decide⟩
  · exact hsymbols (.inr (.inr (.inr hc)))

theorem mem_before {D : Byte} (hD : IsPoint D) : D ∈ x.before ↔ D ∈ x.before₁ ∨ D ∈ x.before₂ := by
  have hopening : D ∉ x.sign.opening := by
    rcases hD with rfl | hD
    · cases x.sign <;> decide
    · rcases List.mem_pair.mp hD with rfl | rfl <;> cases x.sign <;> decide
  simp only [before, List.mem_append, hopening, false_or]

/-- The sign in the plain text. -/
theorem opening_written (D : Byte) (h : x.sign ≠ .back) :
    x.sign.opening.filterMap (written D) = if x.sign = .positive then [] else [0x2d] := by
  cases hs : x.sign with
  | back => exact absurd hs h
  | _ => rfl

theorem groups_written {D T : Byte} {groups : List (List Byte)} (hT : IsSymbol T) (hne : T ≠ D)
    (hdigits : ∀ c ∈ groups.flatten, isDigit c = true) :
    (groups.flatMap (T :: ·)).filterMap (written D) = groups.flatten := by
  induction groups with
  | nil => rfl
  | cons g groups ih =>
    rw [List.flatten_cons, List.forall_mem_append] at hdigits
    have hnone : written D T = none := by rw [written_symbol D hT, if_neg hne]
    rw [List.flatMap_cons, List.cons_append, List.filterMap_cons_none hnone, List.filterMap_append,
      filterMap_digits D hdigits.1, ih hdigits.2, List.flatten_cons]

theorem isSymbol_thousands (style : Style) : IsSymbol style.thousands := by
  cases style <;> exact ⟨by decide, rfl, by decide⟩

theorem isSymbol_decimal (style : Style) : IsSymbol style.decimal := by
  cases style <;> exact ⟨by decide, rfl, by decide⟩

/-- Behind the sign: the points of the separators and of what follows are in the way. -/
theorem number_iff (D : Byte) (k n : Nat) :
    (x.number.filterMap (written D) ++ List.replicate k 0x2e).take n =
        x.head ++ (x.groups.flatten ++ if x.fraction = [] then [] else 0x2e :: x.fraction) ↔
      (D = x.style.thousands → x.groups = []) ∧ (x.fraction ≠ [] → D = x.style.decimal) ∧
        (x.head ++ (x.groups.flatten ++
          if x.fraction = [] then [] else 0x2e :: x.fraction)).length ≤ n ∧
        (k ≠ 0 → n = (x.head ++ (x.groups.flatten ++
          if x.fraction = [] then [] else 0x2e :: x.fraction)).length) := by
  have hdigits := x.digits
  simp only [List.forall_mem_append] at hdigits
  obtain ⟨hhead, hgroups, hfraction⟩ := hdigits
  have hnumber : x.number.filterMap (written D) = x.head ++
      ((x.groups.flatMap (x.style.thousands :: ·)).filterMap (written D) ++
        (if x.fraction = [] then [] else x.style.decimal :: x.fraction).filterMap (written D)) := by
    rw [number, whole, List.filterMap_append, List.filterMap_append, filterMap_digits D hhead,
      List.append_assoc]
  rw [hnumber, List.append_assoc, take_append_iff]
  by_cases hT : D = x.style.thousands → x.groups = []
  · have hflat : (x.groups.flatMap (x.style.thousands :: ·)).filterMap (written D) =
        x.groups.flatten := by
      by_cases hne : x.style.thousands = D
      · rw [hT hne.symm]
        rfl
      · exact groups_written (isSymbol_thousands x.style) hne hgroups
    rw [hflat, List.append_assoc, take_append_iff, and_iff_right hT]
    by_cases hnil : x.fraction = []
    · have hend : (List.replicate k (0x2e : Byte)).take (n - x.head.length - x.groups.flatten.length)
          = [] ↔ k ≠ 0 → n - x.head.length - x.groups.flatten.length = 0 := by
        rw [List.take_replicate, List.replicate_eq_nil_iff]
        omega
      rw [if_pos hnil, if_pos hnil, List.filterMap_nil, List.nil_append, hend, List.append_nil,
        List.length_append, and_iff_right fun h => absurd hnil h]
      constructor
      · rintro ⟨h1, h2, h3⟩
        exact ⟨by omega, fun hk => by have := h3 hk; omega⟩
      · rintro ⟨h1, h2⟩
        exact ⟨by omega, by omega, fun hk => by have := h2 hk; omega⟩
    · rw [if_neg hnil, if_neg hnil]
      by_cases hP : x.style.decimal = D
      · have hpoint : written D x.style.decimal = some 0x2e := by
          rw [written_symbol D (isSymbol_decimal x.style), if_pos hP]
        have hend : (0x2e :: x.fraction ++ List.replicate k (0x2e : Byte)).take
            (n - x.head.length - x.groups.flatten.length) = 0x2e :: x.fraction ++ [] ↔ _ :=
          take_append_iff
        rw [List.append_nil] at hend
        rw [List.filterMap_cons_some hpoint, filterMap_digits D hfraction, hend, List.take_replicate,
          List.replicate_eq_nil_iff, and_iff_right fun _ => hP.symm]
        simp only [List.length_append, List.length_cons]
        constructor
        · rintro ⟨h1, h2, h3, h4⟩
          exact ⟨by omega, fun hk => by omega⟩
        · rintro ⟨h1, h2⟩
          refine ⟨by omega, by omega, by omega, ?_⟩
          by_cases hk : k = 0
          · omega
          · have := h2 hk
            omega
      · -- The digits of the fraction follow at once.
        have hnone : written D x.style.decimal = none := by
          rw [written_symbol D (isSymbol_decimal x.style), if_neg hP]
        refine iff_of_false ?_ fun h => hP (h.1 hnil).symm
        rintro ⟨-, -, h⟩
        obtain ⟨e, es, hes⟩ := List.exists_cons_of_ne_nil hnil
        have he : isDigit e = true := hfraction e (by rw [hes]; exact List.mem_cons_self)
        rw [List.filterMap_cons_none hnone, filterMap_digits D hfraction, hes] at h
        exact take_cons_ne (isDigit_ne_point he) h
  · -- The first separator stands in front of the digits of its group.
    refine iff_of_false ?_ fun h => hT h.1
    rintro ⟨-, h⟩
    obtain ⟨hT, hne⟩ := Classical.not_imp.mp hT
    obtain ⟨g, groups, hg⟩ := List.exists_cons_of_ne_nil hne
    have hlen := x.length_group g (by rw [hg]; exact List.mem_cons_self)
    obtain ⟨e, es, rfl⟩ := List.exists_cons_of_ne_nil
      (show g ≠ [] by rintro rfl; cases hlen)
    have he : isDigit e = true := hgroups e (by rw [hg]; exact List.mem_cons_self)
    have hpoint : written D x.style.thousands = some 0x2e := by
      rw [written_symbol D (isSymbol_thousands x.style), if_pos hT.symm]
    rw [hg, List.flatMap_cons, List.cons_append, List.filterMap_cons_some hpoint] at h
    exact take_cons_ne (isDigit_ne_point he).symm h

/-- When the output is the plain text, whatever is taken for the decimal point. -/
theorem output_iff {D : Byte} (hD : IsPoint D) (h : x.sign ≠ .back) (n : Nat) :
    (x.text.filterMap (written D)).take n = x.plain ↔
      D ∉ x.before ∧ (D = x.style.thousands → x.groups = []) ∧
        (x.fraction ≠ [] → D = x.style.decimal) ∧ x.plain.length ≤ n ∧
        (D ∈ x.after → n = x.plain.length) := by
  obtain ⟨S, hS⟩ : ∃ S, S = if x.sign = .positive then [] else [(0x2d : Byte)] := ⟨_, rfl⟩
  obtain ⟨R, hR⟩ : ∃ R, R = x.head ++ (x.groups.flatten ++
    if x.fraction = [] then [] else 0x2e :: x.fraction) := ⟨_, rfl⟩
  have hsymbols := x.symbols
  simp only [List.forall_mem_append] at hsymbols
  have htext : x.text.filterMap (written D) = List.replicate (x.before₁.count D) 0x2e ++ (S ++
      (List.replicate (x.before₂.count D) 0x2e ++
        (x.number.filterMap (written D) ++ List.replicate (x.after.count D) 0x2e))) := by
    rw [text, before, List.filterMap_append, List.filterMap_append, List.filterMap_append,
      List.filterMap_append, filterMap_symbols D hsymbols.1, filterMap_symbols D hsymbols.2.1,
      filterMap_symbols D (x.isSymbol_after h), x.opening_written D h, ← hS, List.append_assoc,
      List.append_assoc]
  have hplain : x.plain = S ++ R := by
    rw [hS, hR]
    rfl
  obtain ⟨d, ds, hd, hne⟩ : ∃ d ds, R = d :: ds ∧ d ≠ 0x2e := by
    obtain ⟨d, ds, hds⟩ := List.exists_cons_of_ne_nil x.head_ne_nil
    refine ⟨d, _, by rw [hR, hds, List.cons_append], isDigit_ne_point (x.digits d ?_)⟩
    rw [hds]
    exact List.mem_cons_self
  obtain ⟨e, es, he, hne'⟩ : ∃ e es, S ++ R = e :: es ∧ e ≠ 0x2e := by
    rw [hS]
    split
    · exact ⟨d, ds, hd, hne⟩
    · exact ⟨0x2d, R, rfl, by decide⟩
  have hcount : x.after.count D ≠ 0 ↔ D ∈ x.after := by
    rw [← Nat.pos_iff_ne_zero, List.count_pos_iff]
  rw [htext, hplain, he, take_points_iff hne', ← he, take_append_iff, hd, take_points_iff hne, ← hd,
    hR, x.number_iff D, ← hR, hcount, x.mem_before hD, List.length_append, not_or]
  constructor
  · rintro ⟨h1, hlen, h2, h3, h4, h5, h6⟩
    exact ⟨⟨h1, h2⟩, h3, h4, by omega, fun ha => by have := h6 ha; omega⟩
  · rintro ⟨⟨h1, h2⟩, h3, h4, h5, h6⟩
    exact ⟨h1, by omega, h2, h3, h4, by omega, fun ha => by have := h6 ha; omega⟩

/-! ### Where the decimal point is looked for -/

theorem last_digit : ∃ pre d, x.number = pre ++ [d] ∧ isDigit d = true := by
  have hdigits := x.digits
  simp only [List.forall_mem_append] at hdigits
  obtain ⟨hhead, hgroups, hfraction⟩ := hdigits
  by_cases hnil : x.fraction = []
  · rw [number, if_pos hnil, List.append_nil, whole]
    rcases List.eq_nil_or_concat' x.groups with hg | ⟨gs, g, hg⟩
    · obtain ⟨ds, d, hds⟩ := (List.eq_nil_or_concat' x.head).resolve_left x.head_ne_nil
      refine ⟨ds, d, by rw [hg, hds, List.flatMap_nil, List.append_nil], hhead d ?_⟩
      rw [hds]
      exact List.mem_append_right _ List.mem_cons_self
    · have hlen := x.length_group g (by rw [hg]; exact List.mem_append_right _ List.mem_cons_self)
      obtain ⟨ds, d, rfl⟩ := (List.eq_nil_or_concat' g).resolve_left (by rintro rfl; cases hlen)
      refine ⟨x.head ++ (gs.flatMap (x.style.thousands :: ·) ++ x.style.thousands :: ds), d, ?_,
        hgroups d ?_⟩
      · rw [hg, List.flatMap_append]
        simp
      · rw [hg]
        simp
  · obtain ⟨ds, d, hds⟩ := (List.eq_nil_or_concat' x.fraction).resolve_left hnil
    refine ⟨x.whole ++ x.style.decimal :: ds, d, ?_, hfraction d ?_⟩
    · rw [number, if_neg hnil, hds]
      simp
    · rw [hds]
      exact List.mem_append_right _ List.mem_cons_self

theorem mem_whole {D : Byte} (hD : isDigit D = false) :
    D ∈ x.whole ↔ D = x.style.thousands ∧ x.groups ≠ [] := by
  have hdigits := x.digits
  simp only [List.forall_mem_append] at hdigits
  obtain ⟨hhead, hgroups, -⟩ := hdigits
  have hnot : ∀ {l : List Byte}, (∀ c ∈ l, isDigit c = true) → D ∉ l := fun hl hmem =>
    Bool.false_ne_true (hD.symm.trans (hl D hmem))
  rw [whole, List.mem_append, or_iff_right (hnot hhead), List.mem_flatMap]
  constructor
  · rintro ⟨g, hg, hmem⟩
    refine ⟨(List.mem_cons.mp hmem).resolve_right (hnot fun c hc => ?_), List.ne_nil_of_mem hg⟩
    exact hgroups c (List.mem_flatten_of_mem hg hc)
  · rintro ⟨rfl, hne⟩
    obtain ⟨g, groups, hg⟩ := List.exists_cons_of_ne_nil hne
    exact ⟨g, by rw [hg]; exact List.mem_cons_self, List.mem_cons_self⟩

theorem idxOf_lt_iff {l r : List Byte} : (l ++ r).idxOf c < l.length ↔ c ∈ l := by
  rw [List.idxOf_append]
  split
  · next h => exact iff_of_true (List.idxOf_lt_length_of_mem h) h
  · next h => exact iff_of_false (by omega) h

/-- The decimal point, when the number has a fraction. -/
theorem decimalPoint_fraction (hback : x.sign ≠ .back) (hfraction : x.fraction ≠ [])
    (hbefore : x.style.decimal ∉ x.before) :
    decimalPoint x.text = x.style.decimal ↔ x.fraction.length ≤ 2 ∧
      (x.style.thousands ∈ x.after → x.style.thousands ∈ x.before ∨ x.groups ≠ []) := by
  obtain ⟨pre, d, hpre, hd⟩ := x.last_digit
  have htext : x.text = (x.before ++ pre) ++ d :: x.after := by
    rw [text, hpre]
    simp
  have hlen : (x.before ++ pre).length = (x.before ++ x.whole).length + x.fraction.length := by
    have hnumber := congrArg List.length hpre
    rw [number, if_neg hfraction] at hnumber
    simp only [List.length_append, List.length_cons, List.length_nil] at hnumber ⊢
    omega
  have hfront : x.text = (x.before ++ x.whole) ++ (x.style.decimal :: (x.fraction ++ x.after)) := by
    rw [text, number, if_neg hfraction]
    simp
  have hplaces : x.style.thousands ∈ [(0x2e : Byte), 0x2c] ∧ x.style.decimal ∈ [(0x2e : Byte), 0x2c] ∧
      x.style.thousands ≠ x.style.decimal ∧
      ∀ c ∈ [(0x2e : Byte), 0x2c], c = x.style.thousands ∨ c = x.style.decimal := by
    cases x.style <;> simp [Style.thousands, Style.decimal]
  obtain ⟨hTmem, hPmem, hTP, hcases⟩ := hplaces
  have hTdigit := (isSymbol_thousands x.style).not_digit
  have hPdigit := (isSymbol_decimal x.style).not_digit
  -- The point of the number is the first of its kind.
  have hPnot : x.style.decimal ∉ x.before ++ x.whole := by
    rw [List.mem_append, not_or, x.mem_whole hPdigit]
    exact ⟨hbefore, fun h => hTP h.1.symm⟩
  have hPplace : x.text.idxOf x.style.decimal = (x.before ++ x.whole).length := by
    rw [hfront, List.idxOf_append_of_notMem hPnot, List.idxOf_cons_self, Nat.add_zero]
  have hPtext : x.style.decimal ∈ x.text := by
    rw [hfront]
    exact List.mem_append_right _ List.mem_cons_self
  have hTfront : x.style.thousands ∈ x.before ++ x.whole ↔
      x.style.thousands ∈ x.before ∨ x.groups ≠ [] := by
    rw [List.mem_append, x.mem_whole hTdigit, and_iff_right rfl]
  have hTplace : x.text.idxOf x.style.thousands < (x.before ++ x.whole).length ↔
      x.style.thousands ∈ x.before ++ x.whole := by
    rw [hfront]
    exact idxOf_lt_iff
  have hTtext : x.style.thousands ∈ x.text ↔
      x.style.thousands ∈ x.before ++ x.whole ∨ x.style.thousands ∈ x.after := by
    have hnot : x.style.thousands ∉ x.fraction := fun h => by
      have hdigit := x.digits _ (List.mem_append_right _ (List.mem_append_right _ h))
      rw [hTdigit] at hdigit
      cases hdigit
    rw [hfront]
    simp only [List.mem_append, List.mem_cons, hTP, hnot, false_or]
  have hpost : ∀ c ∈ x.after, isDigit c = false := fun c hc => (x.isSymbol_after hback c hc).not_digit
  rcases decimalPoint_spec hd hpost htext with ⟨hzero, hfar⟩ | ⟨hmem, htxt, hnear, hlast⟩
  · refine iff_of_false ?_ fun h => ?_
    · rw [hzero]
      exact (isSymbol_decimal x.style).ne_zero.symm
    · have hP := hfar _ hPmem hPtext
      have := h.1
      omega
  · rcases hcases _ hmem with hT | hP
    · refine iff_of_false (fun h => hTP (hT.symm.trans h)) fun h => ?_
      rw [hT] at htxt hlast
      have hle := hlast _ hPmem hPtext
      rcases hTtext.mp htxt with hin | hin
      · have := hTplace.mpr hin
        omega
      · have := hTplace.mpr (hTfront.mpr (h.2 hin))
        omega
    · refine iff_of_true hP ?_
      rw [hP] at hnear hlast
      refine ⟨by omega, fun ha => hTfront.mp (hTplace.mp ?_)⟩
      have hT := hTtext.mpr (.inr ha)
      have hle := hlast _ hTmem hT
      have hne : x.text.idxOf x.style.thousands ≠ x.text.idxOf x.style.decimal := fun h =>
        hTP (List.idxOf_inj hT |>.mp h)
      omega

/-- No decimal point is in the way, when the number has no fraction. -/
theorem decimalPoint_whole (hback : x.sign ≠ .back) (hfraction : x.fraction = []) (full : Prop) :
    (decimalPoint x.text ∉ x.before ++ x.number ∧ (decimalPoint x.text ∈ x.after → full)) ↔
      (∀ c ∈ [(0x2e : Byte), 0x2c], c ∈ x.text →
        x.text.idxOf c + 3 < (x.before ++ x.number).length) ∨
      (full ∧ ∃ c ∈ [(0x2e : Byte), 0x2c], c ∈ x.after ∧ c ∉ x.before ++ x.number) := by
  obtain ⟨pre, d, hpre, hd⟩ := x.last_digit
  have htext : x.text = (x.before ++ pre) ++ d :: x.after := by
    rw [text, hpre]
    simp
  have hfront : x.text = (x.before ++ x.number) ++ x.after := by
    rw [text, List.append_assoc]
  have hlen : (x.before ++ x.number).length = (x.before ++ pre).length + 1 := by
    rw [hpre]
    simp only [List.length_append, List.length_singleton]
    omega
  have hpost : ∀ c ∈ x.after, isDigit c = false := fun c hc => (x.isSymbol_after hback c hc).not_digit
  have hplace : ∀ c, x.text.idxOf c < (x.before ++ x.number).length ↔ c ∈ x.before ++ x.number := by
    intro c
    rw [hfront]
    exact idxOf_lt_iff
  have hin : ∀ c, c ∈ x.text ↔ c ∈ x.before ++ x.number ∨ c ∈ x.after := by
    intro c
    rw [hfront, List.mem_append]
  have hzero : (0 : Byte) ∉ x.after := fun h => (x.isSymbol_after hback 0 h).ne_zero rfl
  rcases decimalPoint_spec hd hpost htext with ⟨hnone, hfar⟩ | ⟨hmem, htxt, hnear, hlast⟩
  · have hzero' : (0 : Byte) ∉ x.before ++ x.number := by
      have hsymbols : ∀ c ∈ x.before₁ ++ (x.before₂ ++ (x.after₁ ++ x.after₂)), c ≠ 0 :=
        fun c hc => (x.symbols c hc).ne_zero
      simp only [List.forall_mem_append] at hsymbols
      rw [List.mem_append, x.mem_before (.inl rfl), number, if_pos hfraction, List.append_nil,
        x.mem_whole rfl]
      rintro ((h | h) | h)
      · exact hsymbols.1 0 h rfl
      · exact hsymbols.2.1 0 h rfl
      · exact (isSymbol_thousands x.style).ne_zero h.1.symm
    rw [hnone]
    refine iff_of_true ⟨hzero', fun h => absurd h hzero⟩ (.inl fun c hc hin => ?_)
    have := hfar c hc hin
    omega
  · constructor
    · rintro ⟨hnot, hfull⟩
      have hafter : decimalPoint x.text ∈ x.after := ((hin _).mp htxt).resolve_left hnot
      exact .inr ⟨hfull hafter, _, hmem, hafter, hnot⟩
    · rintro (hfar | ⟨hfull, c, hc, hafter, hnot⟩)
      · have := hfar _ hmem htxt
        omega
      · have hle := hlast c hc ((hin c).mpr (.inr hafter))
        refine ⟨fun hD => hnot ((hplace c).mp ?_), fun _ => hfull⟩
        have := (hplace _).mpr hD
        omega

/-- A minus sign behind the number stays there. -/
theorem back_never (hback : x.sign = .back) (D : Byte) (n : Nat) :
    (x.text.filterMap (written D)).take n ≠ x.plain := by
  have hsymbols := x.symbols
  simp only [List.forall_mem_append] at hsymbols
  obtain ⟨d, ds, hds⟩ := List.exists_cons_of_ne_nil x.head_ne_nil
  have hd : isDigit d = true := x.digits d (by rw [hds]; exact List.mem_cons_self)
  have hsign : d ≠ 0x2d := by
    rintro rfl
    cases hd
  obtain ⟨t, ht⟩ : ∃ t, x.text = x.before₁ ++ (x.before₂ ++ d :: t) := by
    refine ⟨ds ++ x.groups.flatMap (x.style.thousands :: ·) ++ ((if x.fraction = [] then [] else
      x.style.decimal :: x.fraction) ++ x.after), ?_⟩
    rw [text, before, hback, number, whole, hds]
    simp [Sign.opening]
  have hr : x.text.filterMap (written D) = List.replicate (x.before₁.count D) 0x2e ++
      (List.replicate (x.before₂.count D) 0x2e ++ (d :: t.filterMap (written D))) := by
    rw [ht, List.filterMap_append, List.filterMap_append, filterMap_symbols D hsymbols.1,
      filterMap_symbols D hsymbols.2.1, List.filterMap_cons_some (written_digit D hd)]
  obtain ⟨p, hp⟩ : ∃ p, x.plain = 0x2d :: p := by
    rw [plain, hback]
    exact ⟨_, rfl⟩
  rw [hr, hp]
  intro h
  have hrest := (take_points_iff (by decide)).mp h
  exact take_cons_ne hsign ((take_points_iff (by decide)).mp hrest.2).2

end Amount

theorem isPoint_decimalPoint (s : List Byte) : IsPoint (decimalPoint s) := by
  rw [decimalPoint]
  split
  · split
    · exact .inr (by decide)
    · exact .inl rfl
  · split
    · exact .inr (by decide)
    · exact .inl rfl

/-- **Amounts of money.** The plain text comes of an amount exactly where this is `Amount.Good`. -/
theorem convert_money_iff (x : Amount) (soutmax : Nat) :
    convert_money x.text soutmax = x.plain ↔ x.Good soutmax := by
  rw [convert_money, writeLoop_eq, Nat.sub_zero, Amount.Good]
  by_cases hback : x.sign = .back
  · exact iff_of_false (x.back_never hback _ _) fun h => h.1 hback
  · have hpoint := isPoint_decimalPoint x.text
    have hlong : 0 < x.plain.length := by
      have hhead := List.length_pos_iff.mpr x.head_ne_nil
      rw [Amount.plain]
      simp only [List.length_append]
      omega
    have hroom : x.plain.length ≤ soutmax - 1 ↔ x.plain.length < soutmax := by omega
    have hfull : soutmax - 1 = x.plain.length ↔ x.plain.length + 1 = soutmax := by omega
    rw [x.output_iff hpoint hback, hroom, hfull, ne_eq, and_iff_right hback]
    by_cases hfraction : x.fraction = []
    · have hwhole := x.decimalPoint_whole hback hfraction (x.plain.length + 1 = soutmax)
      have hnumber : decimalPoint x.text ∉ x.before ++ x.number ↔ decimalPoint x.text ∉ x.before ∧
          (decimalPoint x.text = x.style.thousands → x.groups = []) := by
        rw [List.mem_append, not_or, Amount.number, if_pos hfraction, List.append_nil,
          x.mem_whole hpoint.not_digit, not_and, not_not]
      rw [if_pos hfraction, ← hwhole, hnumber]
      constructor
      · rintro ⟨h1, h2, -, h3, h4⟩
        exact ⟨h3, ⟨h1, h2⟩, h4⟩
      · rintro ⟨h3, ⟨h1, h2⟩, h4⟩
        exact ⟨h1, h2, fun h => absurd hfraction h, h3, h4⟩
    · rw [if_neg hfraction]
      constructor
      · rintro ⟨h1, -, h2, h3, h4⟩
        rw [h2 hfraction] at h1 h4
        have h5 := (x.decimalPoint_fraction hback hfraction h1).mp (h2 hfraction)
        exact ⟨h3, h5.1, h1, h5.2, h4⟩
      · rintro ⟨h3, h5, h1, h6, h4⟩
        have h2 := (x.decimalPoint_fraction hback hfraction h1).mpr ⟨h5, h6⟩
        rw [h2]
        refine ⟨h1, fun h => ?_, fun _ => rfl, h3, h4⟩
        cases hstyle : x.style <;> rw [hstyle] at h <;> cases h

theorem isSymbol_of_all {symbol : List Byte}
    (h : symbol.all (fun c => c ≠ 0 && !isDigit c && (c ≠ 0x28 && c ≠ 0x2d)) = true) :
    ∀ c ∈ symbol, IsSymbol c := by
  intro c hc
  have hall := List.all_eq_true.mp h c hc
  simp only [Bool.and_eq_true, decide_eq_true_eq, Bool.not_eq_true'] at hall
  exact ⟨hall.1.1, hall.1.2, hall.2⟩

/-- An amount whose currency symbol stands in front. -/
def bare (style : Style) (sign : Sign) (symbol head : List Byte) (groups : List (List Byte))
    (fraction : List Byte) (head_ne_nil : head ≠ [])
    (digits : (head ++ (groups.flatten ++ fraction)).all isDigit = true)
    (length_group : ∀ g ∈ groups, g.length = 3)
    (symbols : symbol.all (fun c => c ≠ 0 && !isDigit c && (c ≠ 0x28 && c ≠ 0x2d)) = true) :
    Amount where
  style := style
  sign := sign
  head := head
  groups := groups
  fraction := fraction
  before₁ := symbol
  before₂ := []
  after₁ := []
  after₂ := []
  head_ne_nil := head_ne_nil
  digits := List.all_eq_true.mp digits
  length_group := length_group
  symbols := by
    simp only [List.append_nil]
    exact isSymbol_of_all symbols

/-- Three digits behind the point, a point in the currency symbol, and a minus sign in the end. -/
theorem amounts_not_converted :
    ∃ dinars rupees debt : Amount,
      (dinars.text = ascii "KD1,234.500" ∧ convert_money dinars.text 64 = ascii "1234500" ∧
        dinars.plain = ascii "1234.500") ∧
      (rupees.text = ascii "Rs.5.00" ∧ convert_money rupees.text 64 = ascii "500" ∧
        rupees.plain = ascii "5.00") ∧
      debt.text = ascii "1.50-" ∧ convert_money debt.text 64 = ascii "1.50-" ∧
        debt.plain = ascii "-1.50" :=
  ⟨bare .comma .positive (ascii "KD") (ascii "1") [ascii "234"] (ascii "500") (by decide) rfl
      (List.forall_mem_singleton.mpr rfl) rfl,
    bare .comma .positive (ascii "Rs.") (ascii "5") [] (ascii "00") (by decide) rfl
      (List.forall_mem_nil _) rfl,
    bare .comma .back [] (ascii "1") [] (ascii "50") (by decide) rfl (List.forall_mem_nil _) rfl,
    ⟨rfl, rfl, rfl⟩, ⟨rfl, rfl, rfl⟩, rfl, rfl, rfl⟩

end OdbcDriver.Money
