import Mathlib.Data.List.TakeWhile
import OdbcDriver.Encoding.Ascii
import OdbcDriver.Lib.CString
import OdbcDriver.Lib.Except
import OdbcDriver.Lib.Scanf

/-!
# Timestamps as texts

`stime2timestamp` writes a timestamp with as many digits behind the seconds as are needed, and `BC`
behind the whole when the year is negative. `timestamp2stime` scans the text: what is behind the
seconds is one word, which is looked through for a fraction and a time zone, and `BC` may be that
word or the one behind it.

The time zone of the process, and the conversions of the C library that depend on it, are a
parameter; on some platforms there is none.
-/

namespace OdbcDriver

open Scanf (sscanf format atoi)

structure SIMPLE_TIME where
  infinity : Int
  m : Int
  d : Int
  y : Int
  hh : Int
  mm : Int
  ss : Int
  fr : Int
deriving DecidableEq, Repr

namespace SIMPLE_TIME

def withDate (st : SIMPLE_TIME) (y m d : Int) : SIMPLE_TIME := { st with y := y, m := m, d := d }

def withTime (st : SIMPLE_TIME) (hh mm ss : Int) : SIMPLE_TIME :=
  { st with hh := hh, mm := mm, ss := ss }

end SIMPLE_TIME

/-- `TIMEZONE_GLOBAL`, `TZNAME_GLOBAL[0]` and `DAYLIGHT_GLOBAL`; `mktime`, with the `tm_isdst` it
finds, and `localtime_r`. -/
structure LocalZone where
  timezone : Int
  tzname : List Byte
  daylight : Bool
  mktime : SIMPLE_TIME → Int × Int
  localtime_r : Int → Option SIMPLE_TIME

def INFINITY_STRING : List Byte := ascii "Infinity"
def MINFINITY_STRING : List Byte := ascii "-Infinity"

/-! ### Writing -/

/-- `'0'` -/
def ZERO : Byte := 0x30

/-- Zeros are cut off `precstr` from position `i` on down, up to the first character that is none;
the position where that is. -/
def trimZeros (precstr : List Byte) : Nat → Except CString.Fault (List Byte × Nat)
  | 0 => .ok (precstr, 0)
  | i + 1 => do
    if (← CString.read precstr (i + 1)) ≠ ZERO then return (precstr, i + 1)
    else trimZeros (← CString.write precstr (i + 1) 0) i

/-- A text in a buffer of `size` bytes; those behind its end are not looked at. -/
def inBuffer (size : Nat) (text : List Byte) : List Byte :=
  text.take (size - 1) ++ List.replicate (size - (size - 1) ⊓ text.length) 0

/-- `precstr`: the point and the digits behind it. -/
def fractionText (fr precision : Int) : Except CString.Fault (List Byte) := do
  if 0 < precision ∧ fr ≠ 0 then
    let precstr := inBuffer 16 (0x2e :: Scanf.zeroPadded 9 fr)
    let precstr ←
      if precision < 9 then CString.write precstr (precision.toNat + 1) 0 else pure precstr
    let (precstr, i) ← trimZeros precstr (if 9 < precision then 9 else precision.toNat)
    let precstr ← if i = 0 then CString.write precstr i 0 else pure precstr
    return CString.text precstr 0
  else return []

/-- `zonestr` -/
def zoneText (zone : Option LocalZone) (bZone : Bool) (st : SIMPLE_TIME) : List Byte :=
  match zone with
  | none => []
  | some tz =>
    if bZone = true ∧ tz.tzname ≠ [] ∧ 1970 ≤ st.y then
      let (time0, isdst) := tz.mktime st
      let zoneint := if tz.daylight = true ∧ 0 ≤ time0 ∧ 0 < isdst then tz.timezone - 3600
        else tz.timezone
      if 0 < zoneint then 0x2d :: Scanf.zeroPadded 2 (zoneint.tdiv 3600)
      else 0x2b :: Scanf.zeroPadded 2 ((-zoneint).tdiv 3600)
    else []

/-- The date and the time to the second, the year being `y`. -/
def dateTimeText (y : Int) (st : SIMPLE_TIME) : List Byte :=
  Scanf.decimal 4 y ++ 0x2d :: (Scanf.decimal 2 st.m ++ 0x2d :: (Scanf.decimal 2 st.d ++
    0x20 :: (Scanf.decimal 2 st.hh ++ 0x3a :: (Scanf.decimal 2 st.mm ++
    0x3a :: Scanf.decimal 2 st.ss))))

/-- `stime2timestamp`: the text that is stored in a buffer of `bufsize` bytes, and the length of the
whole text. -/
def stime2timestamp (zone : Option LocalZone) (st : SIMPLE_TIME) (bufsize : Nat) (bZone : Bool)
    (precision : Int) : Except CString.Fault (List Byte × Nat) := do
  if 0 < st.infinity then return Scanf.snprintf bufsize INFINITY_STRING
  else if st.infinity < 0 then return Scanf.snprintf bufsize MINFINITY_STRING
  else
    let precstr ← fractionText st.fr precision
    let zonestr := zoneText zone bZone st
    if st.y < 0 then
      return Scanf.snprintf bufsize (dateTimeText (-st.y) st ++ (precstr ++ (zonestr ++ ascii " BC")))
    else return Scanf.snprintf bufsize (dateTimeText st.y st ++ (precstr ++ zonestr))

/-! ### Reading -/

/-- What `timestamp2stime` returns, and what it leaves in its arguments. -/
structure Parsed where
  ok : Bool
  st : SIMPLE_TIME
  bZone : Bool
  zone : Int
deriving DecidableEq, Repr

/-- `s` in front of the first `c`, if there is one, and behind it. -/
def cutAt (c : Byte) (s : List Byte) : Option (List Byte × List Byte) :=
  match s.dropWhile (· ≠ c) with
  | [] => none
  | _ :: behind => some (s.takeWhile (· ≠ c), behind)

/-- The nine characters behind the point: the digits that are there, and zeros. -/
def nineDigits (s : List Byte) : List Byte :=
  let ds := (s.take 9).takeWhile isDigit
  ds ++ List.replicate (9 - ds.length) ZERO

/-- The last part of `timestamp2stime`: a time of another time zone is converted. -/
def toLocal (tz : LocalZone) (st : SIMPLE_TIME) (zone : Int) : Parsed :=
  if tz.tzname = [] then ⟨true, st, false, zone⟩
  else
    let timediff := tz.timezone + zone * 3600
    if tz.daylight = false ∧ timediff = 0 then ⟨true, st, true, zone⟩
    else
      let (time0, isdst) := tz.mktime st
      let timediff := if 0 < isdst then timediff - 3600 else timediff
      if time0 < 0 ∨ timediff = 0 ∨ time0 - timediff < 0 then ⟨true, st, false, zone⟩
      else match tz.localtime_r (time0 - timediff) with
        | none => ⟨true, st, false, zone⟩
        | some tm => ⟨true, (st.withDate tm.y tm.m tm.d).withTime tm.hh tm.mm tm.ss, true, zone⟩

/-- `BC` behind the text, and the conversion. -/
def finishTimestamp (tz : Option LocalZone) (withZone : Bool) (bc : List Byte) (st : SIMPLE_TIME)
    (bZone : Bool) (zone : Int) : Parsed :=
  let st := if stricmp bc (ascii "BC") then { st with y := -st.y } else st
  if withZone = false ∨ bZone = false ∨ st.y < 1970 then ⟨true, st, bZone, zone⟩
  else match tz with
    | none => ⟨true, st, bZone, zone⟩
    | some tz => toLocal tz st zone

/-- The `switch` over the first character of `rest`. There is no result where a number is too large
for `atoi`. -/
def parseRest (tz : Option LocalZone) (withZone : Bool) (rest bc : List Byte) (st : SIMPLE_TIME) :
    Option Parsed :=
  match rest with
  | [] => some ⟨true, st, false, 0⟩
  | c :: behind =>
    if c = 0x2b then do
      let zone ← atoi behind
      return finishTimestamp tz withZone bc st true zone
    else if c = 0x2d then do
      let zone ← atoi behind
      return finishTimestamp tz withZone bc st true (-zone)
    else if c = 0x2e then
      match cutAt 0x2b behind, cutAt 0x2d behind with
      | some (fraction, zonestr), _ => do
        let zone ← atoi zonestr
        let fr ← atoi (nineDigits fraction)
        return finishTimestamp tz withZone bc { st with fr := fr } true zone
      | none, some (fraction, zonestr) => do
        let zone ← atoi zonestr
        let fr ← atoi (nineDigits fraction)
        return finishTimestamp tz withZone bc { st with fr := fr } true (-zone)
      | none, none => do
        let fr ← atoi (nineDigits behind)
        return finishTimestamp tz withZone bc { st with fr := fr } false 0
    else if c = 0x42 then
      some ⟨true, if stricmp rest (ascii "BC") then { st with y := -st.y } else st, false, 0⟩
    else some ⟨true, st, false, 0⟩

/-- `timestamp2stime`. There is no result where C leaves it undefined. -/
def timestamp2stime (tz : Option LocalZone) (str : List Byte) (st : SIMPLE_TIME) (bZone : Bool) :
    Option Parsed := do
  let st := { st with fr := 0, infinity := 0 }
  let r ← sscanf (format "%4d-%2d-%2d %2d:%2d:%2d%31s %15s") str
  if r.count < 6 then
    if r.count = 3 then
      return ⟨true, (st.withDate (r.int 0) (r.int 1) (r.int 2)).withTime 0 0 0, false, 0⟩
    else
      let r ← sscanf (format "%2d:%2d:%2d%31s %15s") str
      let timed := st.withTime (r.int 0) (r.int 1) (r.int 2)
      if r.count < 3 then return ⟨false, st, false, 0⟩
      else if r.count = 3 then return ⟨true, timed, false, 0⟩
      else parseRest tz bZone (r.str 0) (r.str 1) timed
  else
    let dated := (st.withDate (r.int 0) (r.int 1) (r.int 2)).withTime (r.int 3) (r.int 4) (r.int 5)
    if r.count = 6 then return ⟨true, dated, false, 0⟩
    else parseRest tz bZone (r.str 0) (r.str 1) dated

/-! ### The fraction -/

/-- The zeros at the end are cut off. -/
theorem trimZeros_eq (c : Byte) (ds z : List Byte) : ∃ t k z', ds = t ++ List.replicate k ZERO ∧
    trimZeros (c :: (ds ++ 0 :: z)) ds.length = .ok (c :: (t ++ 0 :: z'), t.length) := by
  induction ds using List.reverseRecOn generalizing z with
  | nil => exact ⟨[], 0, z, rfl, rfl⟩
  | append_singleton ds x ih =>
    have hbuf : c :: (ds ++ [x] ++ 0 :: z) = (c :: ds) ++ x :: 0 :: z := by simp
    have hread := CString.read_eq hbuf (i := ds.length + 1) rfl
    rw [List.length_append, List.length_singleton, trimZeros, hread, Lib.ok_bind]
    by_cases hx : x = ZERO
    · have hwrite := CString.write_eq hbuf (i := ds.length + 1) rfl 0
      obtain ⟨t, k, z', hds, hrun⟩ := ih (0 :: z)
      refine ⟨t, k + 1, z', ?_, ?_⟩
      · rw [hx, List.replicate_succ', ← List.append_assoc, ← hds]
      · rw [if_neg (not_not_intro hx), hwrite, Lib.ok_bind]
        exact hrun
    · exact ⟨ds ++ [x], 0, z, by simp, by rw [if_pos hx, List.length_append]; rfl⟩

/-- `f` is the text of a fraction: its digits without the zeros at the end. -/
inductive IsFraction : Nat → List Byte → Prop
  | none : IsFraction 0 []
  | some {fr k : Nat} {t : List Byte} (hne : t ≠ [])
      (hds : Scanf.digits 9 fr = t ++ List.replicate k ZERO) : IsFraction fr (0x2e :: t)

theorem fractionText_eq {fr : Nat} (hfr : fr < 10 ^ 9) {precision : Int} (hprec : 9 ≤ precision) :
    ∃ f, fractionText fr precision = .ok f ∧ IsFraction fr f := by
  by_cases h0 : fr = 0
  · subst h0
    exact ⟨[], by rw [fractionText, if_neg (by simp)]; rfl, .none⟩
  · have hlen : (Scanf.digits 9 fr).length = 9 := Scanf.length_digits_of_lt hfr
    have hbuf : inBuffer 16 (0x2e :: Scanf.zeroPadded 9 fr) =
        0x2e :: (Scanf.digits 9 fr ++ 0 :: List.replicate 5 0) := by
      rw [Scanf.zeroPadded_natCast, inBuffer,
        List.take_of_length_le (by rw [List.length_cons, hlen]; decide), List.length_cons, hlen]
      rfl
    obtain ⟨t, k, z', hds, hrun⟩ := trimZeros_eq 0x2e (Scanf.digits 9 fr) (List.replicate 5 0)
    have hne : t ≠ [] := by
      rintro rfl
      have hzero := congrArg Decimal.digitsValue hds
      rw [Scanf.digitsValue_digits, List.nil_append, ← List.append_nil (List.replicate k ZERO)]
        at hzero
      exact h0 (hzero.trans (Scanf.digitsValue_zeros k []))
    have hpos : t.length ≠ 0 := fun h => hne (List.eq_nil_of_length_eq_zero h)
    have hnul : ∀ b ∈ 0x2e :: t, b ≠ (0 : Byte) := by
      intro b hb
      rcases List.mem_cons.mp hb with rfl | hb
      · decide
      · rintro rfl
        have hdigit := Scanf.digits_isDigit 9 fr 0 (by rw [hds]; exact List.mem_append_left _ hb)
        exact absurd hdigit (by decide)
    have htrim : (if 9 < precision then 9 else precision.toNat) = (Scanf.digits 9 fr).length := by
      rw [hlen]
      split <;> omega
    have htext := CString.text_eq (f := []) (m := 0x2e :: (t ++ 0 :: z')) (i := 0) rfl rfl hnul
    refine ⟨0x2e :: t, ?_, .some hne hds⟩
    rw [fractionText, if_pos ⟨by omega, by exact_mod_cast h0⟩, hbuf, htrim]
    simp only [if_neg (not_lt.mpr hprec), pure_bind, hrun, Lib.ok_bind, if_neg hpos, htext]
    rfl

/-- The nine digits come back. -/
theorem atoi_nineDigits {fr k : Nat} (hfr : fr < 10 ^ 9) {t : List Byte}
    (hds : Scanf.digits 9 fr = t ++ List.replicate k ZERO) :
    atoi (nineDigits t) = some (fr : Int) := by
  have hlen : (Scanf.digits 9 fr).length = 9 := Scanf.length_digits_of_lt hfr
  have hsum : t.length + k = 9 := by
    rw [← hlen, hds, List.length_append, List.length_replicate]
  have hdigits : ∀ c ∈ t, isDigit c = true := fun c hc => by
    have hdigit := Scanf.digits_isDigit 9 fr c (by rw [hds]; exact List.mem_append_left _ hc)
    rw [Decimal.IsDigit] at hdigit
    simpa [isDigit, UInt8.le_iff_toNat_le] using hdigit
  have hnine : nineDigits t = Scanf.digits 9 fr := by
    have htake : t.take 9 = t := List.take_of_length_le (by omega)
    have hwhile : t.takeWhile isDigit = t := List.takeWhile_eq_self_iff.mpr hdigits
    rw [nineDigits, htake, hwhile, hds]
    exact congrArg (t ++ List.replicate · ZERO) (by omega)
  have hvalue := Scanf.digitsValue_digits 9 fr
  have h := Scanf.atoi_digits (t := []) (Scanf.digits_isDigit 9 fr)
    (Scanf.digits_ne_nil (by decide) fr) (by rw [hvalue]; omega) (by rintro _ ⟨⟩)
  rwa [List.append_nil, hvalue, ← hnine] at h

/-! ### There and back -/

/-- The timestamps there are. -/
structure SIMPLE_TIME.Valid (st : SIMPLE_TIME) : Prop where
  finite : st.infinity = 0
  year : -9999 ≤ st.y ∧ st.y ≤ -1 ∨ 1 ≤ st.y ∧ st.y ≤ 9999
  month : 1 ≤ st.m ∧ st.m ≤ 12
  day : 1 ≤ st.d ∧ st.d ≤ 31
  hour : 0 ≤ st.hh ∧ st.hh ≤ 23
  minute : 0 ≤ st.mm ∧ st.mm ≤ 59
  second : 0 ≤ st.ss ∧ st.ss ≤ 61
  fraction : 0 ≤ st.fr ∧ st.fr < 10 ^ 9

variable {st : SIMPLE_TIME} {y : Int}

theorem length_dateTimeText (hst : st.Valid) (hy : 0 ≤ y ∧ y < 10 ^ 4) :
    (dateTimeText y st).length = 19 := by
  have hlen : ∀ {k : Nat} {n : Int}, 0 ≤ n ∧ n < 10 ^ k → (Scanf.decimal k n).length = k := by
    rintro k n ⟨hn, hlt⟩
    obtain ⟨n, rfl⟩ := Int.eq_ofNat_of_zero_le hn
    exact Scanf.length_digits_of_lt (by exact_mod_cast hlt)
  have hm := hst.month
  have hd := hst.day
  have hhh := hst.hour
  have hmm := hst.minute
  have hss := hst.second
  simp only [dateTimeText, List.length_append, List.length_cons]
  rw [hlen hy, hlen (by omega), hlen (by omega), hlen (by omega), hlen (by omega), hlen (by omega)]

/-- The scan passes the date and the time. -/
theorem sscanf_dateTimeText (hst : st.Valid) (hy : 0 ≤ y ∧ y < 10 ^ 4) (rest : List Byte) :
    sscanf (format "%4d-%2d-%2d %2d:%2d:%2d%31s %15s") (dateTimeText y st ++ rest) =
      (sscanf (format "%31s %15s") rest).map fun r =>
        ⟨y :: st.m :: st.d :: st.hh :: st.mm :: st.ss :: r.ints, r.strs, false⟩ := by
  have hm := hst.month
  have hd := hst.day
  have hhh := hst.hour
  have hmm := hst.minute
  have hss := hst.second
  have hspace : ∀ t : List Byte, (0x20 :: (Scanf.decimal 2 st.hh ++ t)) =
      [0x20] ++ (Scanf.decimal 2 st.hh ++ t) := fun t => rfl
  have hformat : format "%4d-%2d-%2d %2d:%2d:%2d%31s %15s" =
      [.int (some 4), .lit 0x2d, .int (some 2), .lit 0x2d, .int (some 2), .space, .int (some 2),
        .lit 0x3a, .int (some 2), .lit 0x3a, .int (some 2)] ++ format "%31s %15s" := rfl
  rw [hformat, dateTimeText]
  simp only [List.append_assoc, List.cons_append, List.nil_append]
  rw [Scanf.sscanf_decimal (by decide) (by decide) hy.1 hy.2, Scanf.sscanf_lit,
    Scanf.sscanf_decimal (by decide) (by decide) (by omega) (by omega), Scanf.sscanf_lit,
    Scanf.sscanf_decimal (by decide) (by decide) (by omega) (by omega), hspace,
    Scanf.sscanf_space (by simp [Scanf.isspace]) (Scanf.head_decimal (by decide) (by omega)),
    Scanf.sscanf_decimal (by decide) (by decide) (by omega) (by omega), Scanf.sscanf_lit,
    Scanf.sscanf_decimal (by decide) (by decide) (by omega) (by omega), Scanf.sscanf_lit,
    Scanf.sscanf_decimal (by decide) (by decide) (by omega) (by omega)]
  simp only [Option.map_map]
  rfl

/-- A point and digits are one word, in which no time zone is found. -/
theorem fraction_word {fr k : Nat} {t : List Byte}
    (hds : Scanf.digits 9 fr = t ++ List.replicate k ZERO) :
    (∀ c ∈ 0x2e :: t, Scanf.isspace c = false) ∧ cutAt 0x2b t = none ∧ cutAt 0x2d t = none := by
  have hdigits : ∀ c ∈ t, Decimal.IsDigit c := fun c hc =>
    Scanf.digits_isDigit 9 fr c (by rw [hds]; exact List.mem_append_left _ hc)
  have hcut : ∀ x : Byte, ¬ Decimal.IsDigit x → cutAt x t = none := by
    intro x hx
    have hdrop : t.dropWhile (fun c => decide (c ≠ x)) = [] :=
      List.dropWhile_eq_nil_iff.mpr fun c hc => decide_eq_true (by
        rintro rfl
        exact hx (hdigits _ hc))
    unfold cutAt
    rw [hdrop]
  refine ⟨?_, hcut 0x2b (by decide), hcut 0x2d (by decide)⟩
  rintro c hc
  rcases List.mem_cons.mp hc with rfl | hc
  · rfl
  · exact Scanf.not_space_of_isDigit (hdigits c hc)

/-- What is written behind the seconds. -/
def behindSeconds (f : List Byte) (bc : Bool) : List Byte := f ++ if bc then ascii " BC" else []

/-- The words that are found there. -/
def wordsBehind (f : List Byte) (bc : Bool) : List (List Byte) :=
  (if f = [] then [] else [f]) ++ if bc then [ascii "BC"] else []

variable {fr : Nat} {f : List Byte}

theorem length_fraction_le (hfr : fr < 10 ^ 9) (hf : IsFraction fr f) : f.length ≤ 10 := by
  cases hf with
  | none => exact Nat.zero_le _
  | some hne hds =>
    have h9 := congrArg List.length hds
    rw [Scanf.length_digits_of_lt hfr, List.length_append] at h9
    rw [List.length_cons]
    omega

theorem sscanf_behindSeconds (hfr : fr < 10 ^ 9) (hf : IsFraction fr f) (bc : Bool) :
    ∃ eof, sscanf (format "%31s %15s") (behindSeconds f bc) =
      some ⟨[], wordsBehind f bc, eof⟩ := by
  have hformat : format "%31s %15s" = [.str 31, .space, .str 15] := rfl
  cases hf with
  | none =>
    cases bc
    · exact ⟨true, rfl⟩
    · exact ⟨false, rfl⟩
  | @some _ k t hne hds =>
    have hword := (fraction_word hds).1
    have hlen := length_fraction_le hfr (.some hne hds)
    have hscan : ∀ rest : List Byte, (∀ c ∈ rest.head?, Scanf.isspace c = true) →
        sscanf [.str 31, .space, .str 15] (0x2e :: t ++ rest) =
          (sscanf [.space, .str 15] rest).map (Scanf.Scanned.withStr (0x2e :: t)) :=
      fun rest hrest => by
        have h31 : (0x2e :: t).length ≤ 31 := by omega
        exact Scanf.sscanf_word hword (List.cons_ne_nil _ _) h31 (.inl hrest)
    rw [hformat, behindSeconds, wordsBehind, if_neg (List.cons_ne_nil _ _)]
    cases bc with
    | false => exact ⟨false, hscan [] nofun⟩
    | true =>
      refine ⟨false, hscan (ascii " BC") ?_⟩
      rintro _ ⟨⟩
      rfl

theorem finishTimestamp_no_zone (tz : Option LocalZone) (withZone : Bool) (bc : List Byte)
    (st : SIMPLE_TIME) : finishTimestamp tz withZone bc st false 0 =
      ⟨true, if stricmp bc (ascii "BC") then { st with y := -st.y } else st, false, 0⟩ := by
  rw [finishTimestamp.eq_def]
  exact if_pos (.inr (.inl rfl))

/-- What is made of the words. -/
theorem parseRest_words (hfr : fr < 10 ^ 9) (hf : IsFraction fr f) {bc : Bool}
    (hsome : wordsBehind f bc ≠ []) (tz : Option LocalZone) (withZone : Bool) {st : SIMPLE_TIME}
    (hst : st.fr = 0) :
    parseRest tz withZone ((wordsBehind f bc).getD 0 []) ((wordsBehind f bc).getD 1 []) st =
      some ⟨true, { st with y := if bc then -st.y else st.y, fr := fr }, false, 0⟩ := by
  cases hf with
  | none =>
    cases bc with
    | false => exact absurd rfl hsome
    | true =>
      obtain ⟨infinity, m, d, y, hh, mm, ss, fr⟩ := st
      obtain rfl : fr = 0 := hst
      rfl
  | @some _ k t hne hds =>
    obtain ⟨-, hplus, hminus⟩ := fraction_word hds
    have hatoi := atoi_nineDigits hfr hds
    have hrest : ∀ word, parseRest tz withZone (0x2e :: t) word st =
        some (finishTimestamp tz withZone word { st with fr := fr } false 0) := by
      intro word
      rw [parseRest, if_neg (by decide), if_neg (by decide), if_pos rfl, hplus, hminus]
      simp only [hatoi]
      rfl
    cases bc with
    | false => exact (hrest []).trans (congrArg some (finishTimestamp_no_zone tz withZone _ _))
    | true =>
      exact (hrest (ascii "BC")).trans (congrArg some (finishTimestamp_no_zone tz withZone _ _))

/-- **There and back.** Whatever the time zones, a timestamp comes back with all its fields from the
text that is written of it at nine digits or more, if the buffer has room for the text. -/
theorem timestamp_there_and_back (hst : st.Valid) (zone : Option LocalZone) {precision : Int}
    (hprec : 9 ≤ precision) (bufsize : Nat) :
    ∃ text len, stime2timestamp zone st bufsize false precision = .ok (text, len) ∧ len ≤ 32 ∧
      (len < bufsize → ∀ (tz : Option LocalZone) (st₀ : SIMPLE_TIME) (withZone : Bool),
        timestamp2stime tz text st₀ withZone = some ⟨true, st, false, 0⟩) := by
  obtain ⟨fr, hfr⟩ := Int.eq_ofNat_of_zero_le hst.fraction.1
  have hlt : fr < 10 ^ 9 := by
    have := hst.fraction.2
    omega
  obtain ⟨f, htext, hf⟩ := fractionText_eq hlt hprec
  obtain ⟨y, bc, hy, hyear, hrun⟩ : ∃ (y : Int) (bc : Bool), (0 ≤ y ∧ y < 10 ^ 4) ∧
      st.y = (if bc then -y else y) ∧ stime2timestamp zone st bufsize false precision =
        .ok (Scanf.snprintf bufsize (dateTimeText y st ++ behindSeconds f bc)) := by
    have hfinite : ¬ 0 < st.infinity ∧ ¬ st.infinity < 0 := by
      rw [hst.finite]
      decide
    have hzone : zoneText zone false st = [] := by
      cases zone with
      | none => rfl
      | some tz => simp [zoneText]
    rcases hst.year with hneg | hpos
    · refine ⟨-st.y, true, ⟨by omega, by omega⟩, (Int.neg_neg _).symm, ?_⟩
      rw [stime2timestamp, if_neg hfinite.1, if_neg hfinite.2, hfr, htext, Lib.ok_bind, hzone]
      exact if_pos (by omega)
    · refine ⟨st.y, false, ⟨by omega, by omega⟩, rfl, ?_⟩
      rw [stime2timestamp, if_neg hfinite.1, if_neg hfinite.2, hfr, htext, Lib.ok_bind, hzone]
      exact if_neg (by omega)
  refine ⟨_, _, hrun, ?_, fun hroom tz st₀ withZone => ?_⟩
  · have hf10 := length_fraction_le hlt hf
    have hbc : (if bc then ascii " BC" else []).length ≤ 3 := by
      cases bc <;> decide
    rw [List.length_append, length_dateTimeText hst hy, behindSeconds, List.length_append]
    omega
  · obtain ⟨eof, hscan⟩ := sscanf_behindSeconds hlt hf bc
    have hback : (({ st₀ with fr := 0, infinity := 0 } : SIMPLE_TIME).withDate y st.m st.d).withTime
        st.hh st.mm st.ss = { st with y := y, fr := 0 } := by
      rw [SIMPLE_TIME.withTime, SIMPLE_TIME.withDate, ← hst.finite]
    have hread : timestamp2stime tz (dateTimeText y st ++ behindSeconds f bc) st₀ withZone =
        if ((6 + (wordsBehind f bc).length : ℕ) : Int) = 6 then
          some ⟨true, { st with y := y, fr := 0 }, false, 0⟩
        else parseRest tz withZone ((wordsBehind f bc).getD 0 []) ((wordsBehind f bc).getD 1 [])
          { st with y := y, fr := 0 } := by
      rw [timestamp2stime, sscanf_dateTimeText hst hy, hscan, ← hback]
      exact if_neg (by change ¬ ((6 + (wordsBehind f bc).length : ℕ) : Int) < 6; omega)
    have hwhole : (dateTimeText y st ++ behindSeconds f bc).length ≤ bufsize - 1 :=
      Nat.le_sub_one_of_lt hroom
    change timestamp2stime tz ((dateTimeText y st ++ behindSeconds f bc).take (bufsize - 1)) st₀
      withZone = _
    rw [List.take_of_length_le hwhole, hread]
    by_cases hnone : wordsBehind f bc = []
    · obtain ⟨hf', hbc⟩ : f = [] ∧ bc = false := by
        cases bc with
        | false =>
          refine ⟨?_, rfl⟩
          by_contra hne
          rw [wordsBehind, if_neg hne] at hnone
          cases hnone
        | true => exact absurd hnone (by simp [wordsBehind])
      subst hf' hbc
      cases hf
      have hy' : st.y = y := hyear
      have hfr0 : st.fr = 0 := hfr
      rw [hnone, if_pos (by decide), ← hy', ← hfr0]
    · have hlen : 0 < (wordsBehind f bc).length := List.length_pos_iff.mpr hnone
      rw [if_neg (by omega), parseRest_words hlt hf hnone tz withZone rfl, ← hfr, ← hyear]

/-- Noon and some seconds of 15 March of the year 44 before our era. -/
def ides : SIMPLE_TIME := ⟨0, 3, 15, -44, 12, 0, 9, 50000000⟩

theorem ides_there_and_back : ∃ text len, stime2timestamp none ides 64 false 9 = .ok (text, len) ∧
    len ≤ 32 ∧ (len < 64 → ∀ (tz : Option LocalZone) (st₀ : SIMPLE_TIME) (withZone : Bool),
      timestamp2stime tz text st₀ withZone = some ⟨true, ides, false, 0⟩) :=
  timestamp_there_and_back ⟨rfl, .inl (by decide), by decide, by decide, by decide, by decide,
    by decide, by decide⟩ none (by decide) 64

end OdbcDriver
