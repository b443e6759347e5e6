import Mathlib.Tactic.IntervalCases
import OdbcDriver.Lib.Radix

/-!
# Extra options

Every extra option has its bit in `extra_opts`. Seven of them have a field as well, which is
positive, zero, or negative as long as nothing has been said about the option, and it is the field
that counts: `getExtraOptions` puts the word together from the fields and the other bits, and
`replaceExtraOptions` and `add_removeExtraOptions` set the fields from words.

* `getExtraOptions_getLsbD`: the word, bit by bit;
* `add_removeExtraOptions_getLsbD`: what adding and removing makes of a bit;
* `getExtraOptions_replace`: a word that is set is the word that is reported;
* `extraOptions_lawful_iff`: which words are added and removed, and that a text copies a word.
-/

namespace OdbcDriver.Options

/-- `UInt4` -/
abbrev UInt4 := BitVec 32

def BIT_FORCEABBREVCONNSTR : UInt4 := 1
def BIT_FAKE_MSS : UInt4 := 1 <<< 1
def BIT_BDE_ENVIRONMENT : UInt4 := 1 <<< 2
def BIT_CVT_NULL_DATE : UInt4 := 1 <<< 3
def BIT_ACCESSIBLE_ONLY : UInt4 := 1 <<< 4
def BIT_IGNORE_ROUND_TRIP_TIME : UInt4 := 1 <<< 5
def BIT_DISABLE_KEEPALIVE : UInt4 := 1 <<< 6

/-- The options that have a field. -/
def OVR_EXTRA_BITS : UInt4 :=
  BIT_FORCEABBREVCONNSTR ||| BIT_FAKE_MSS ||| BIT_BDE_ENVIRONMENT ||| BIT_CVT_NULL_DATE |||
    BIT_ACCESSIBLE_ONLY ||| BIT_IGNORE_ROUND_TRIP_TIME ||| BIT_DISABLE_KEEPALIVE

/-- What `ConnInfo` says of the extra options. -/
structure ConnInfo where
  extra_opts : UInt4
  force_abbrev_connstr : ℤ
  fake_mss : ℤ
  bde_environment : ℤ
  cvt_null_date_string : ℤ
  accessible_only : ℤ
  ignore_round_trip_time : ℤ
  disable_keepalive : ℤ
deriving DecidableEq, Repr

/-! ### The word -/

/-- A field puts its bit in the word, takes it out, or leaves it. -/
def override (field : ℤ) (bit flag : UInt4) : UInt4 :=
  if 0 < field then flag ||| bit else if field = 0 then flag &&& ~~~bit else flag

def getExtraOptions (ci : ConnInfo) : UInt4 :=
  let flag := ci.extra_opts &&& ~~~OVR_EXTRA_BITS
  let flag := override ci.force_abbrev_connstr BIT_FORCEABBREVCONNSTR flag
  let flag := override ci.fake_mss BIT_FAKE_MSS flag
  let flag := override ci.bde_environment BIT_BDE_ENVIRONMENT flag
  let flag := override ci.cvt_null_date_string BIT_CVT_NULL_DATE flag
  let flag := override ci.accessible_only BIT_ACCESSIBLE_ONLY flag
  let flag := override ci.ignore_round_trip_time BIT_IGNORE_ROUND_TRIP_TIME flag
  override ci.disable_keepalive BIT_DISABLE_KEEPALIVE flag

/-- A field that is set from a word, if there is to be an overwriting or nothing has been said. -/
def replaced (overwrite : Bool) (flag bit : UInt4) (field : ℤ) : ℤ :=
  if overwrite = true ∨ field < 0 then (if flag &&& bit ≠ 0 then 1 else 0) else field

/-- `ci->extra_opts = getExtraOptions(ci)` -/
def ConnInfo.settle (ci : ConnInfo) : ConnInfo := { ci with extra_opts := getExtraOptions ci }

def replaceExtraOptions (ci : ConnInfo) (flag : UInt4) (overwrite : Bool) : ConnInfo :=
  ConnInfo.settle
    { extra_opts := if overwrite then flag else ci.extra_opts ||| (flag &&& ~~~OVR_EXTRA_BITS)
      force_abbrev_connstr :=
        replaced overwrite flag BIT_FORCEABBREVCONNSTR ci.force_abbrev_connstr
      fake_mss := replaced overwrite flag BIT_FAKE_MSS ci.fake_mss
      bde_environment := replaced overwrite flag BIT_BDE_ENVIRONMENT ci.bde_environment
      cvt_null_date_string := replaced overwrite flag BIT_CVT_NULL_DATE ci.cvt_null_date_string
      accessible_only := replaced overwrite flag BIT_ACCESSIBLE_ONLY ci.accessible_only
      ignore_round_trip_time :=
        replaced overwrite flag BIT_IGNORE_ROUND_TRIP_TIME ci.ignore_round_trip_time
      disable_keepalive := replaced overwrite flag BIT_DISABLE_KEEPALIVE ci.disable_keepalive }

/-- A field whose bit is in the word. -/
def assigned (flag bit : UInt4) (value field : ℤ) : ℤ := if flag &&& bit ≠ 0 then value else field

def add_removeExtraOptions (ci : ConnInfo) (aflag dflag : UInt4) : ConnInfo :=
  ConnInfo.settle
    { extra_opts := (ci.extra_opts ||| aflag) &&& ~~~dflag
      force_abbrev_connstr := assigned dflag BIT_FORCEABBREVCONNSTR 0
        (assigned aflag BIT_FORCEABBREVCONNSTR 1 ci.force_abbrev_connstr)
      fake_mss := assigned dflag BIT_FAKE_MSS 0 (assigned aflag BIT_FAKE_MSS 1 ci.fake_mss)
      -- among the options that are taken away this one is missing
      bde_environment := assigned aflag BIT_BDE_ENVIRONMENT 1 ci.bde_environment
      cvt_null_date_string := assigned dflag BIT_CVT_NULL_DATE 0
        (assigned aflag BIT_CVT_NULL_DATE 1 ci.cvt_null_date_string)
      accessible_only := assigned dflag BIT_ACCESSIBLE_ONLY 0
        (assigned aflag BIT_ACCESSIBLE_ONLY 1 ci.accessible_only)
      ignore_round_trip_time := assigned dflag BIT_IGNORE_ROUND_TRIP_TIME 0
        (assigned aflag BIT_IGNORE_ROUND_TRIP_TIME 1 ci.ignore_round_trip_time)
      disable_keepalive := assigned dflag BIT_DISABLE_KEEPALIVE 0
        (assigned aflag BIT_DISABLE_KEEPALIVE 1 ci.disable_keepalive) }

/-! ### The text of a word -/

/-- `hex_format`, `dec_format` and `octal_format`. -/
inductive Format
  | hex_format | dec_format | octal_format
deriving DecidableEq, Repr

/-- The base of the numbers that a format reads. -/
def Format.base : Format → ℕ
  | .hex_format => 16
  | .dec_format => 10
  | .octal_format => 8

/-- The format that a text asks for, and what is left of it to be read. -/
def formatOf (optstr : List UInt8) : Format × List UInt8 :=
  match optstr with
  | [0x30] => (.dec_format, optstr)
  | 0x30 :: c :: s => if c = 0x78 ∨ c = 0x58 then (.hex_format, s) else (.octal_format, optstr)
  | _ => (.dec_format, optstr)

/-- `setExtraOptions`; there is no result where it returns `FALSE`. -/
def setExtraOptions (ci : ConnInfo) (optstr : List UInt8) (format : Option Format) :
    Option ConnInfo :=
  let (format, optstr) := format.elim (formatOf optstr) (·, optstr)
  (Radix.strtoul format.base optstr).map fun n => replaceExtraOptions ci (BitVec.ofNat 32 n) true

/-- `%x` of a word. -/
def hexText (flag : UInt4) : List UInt8 := Radix.text 16 flag.toNat

/-! ### Bit by bit -/

/-- The field of an option, by the number of its bit. -/
def ConnInfo.field (ci : ConnInfo) : ℕ → Option ℤ
  | 0 => some ci.force_abbrev_connstr
  | 1 => some ci.fake_mss
  | 2 => some ci.bde_environment
  | 3 => some ci.cvt_null_date_string
  | 4 => some ci.accessible_only
  | 5 => some ci.ignore_round_trip_time
  | 6 => some ci.disable_keepalive
  | _ => none

section

variable {ci other : ConnInfo} {flag aflag dflag : UInt4} {i k : ℕ}

theorem getLsbD_override {field : ℤ} (hk : k < 32) :
    (override field (BitVec.twoPow 32 k) flag).getLsbD i =
      if i = k then decide (0 < field) || (decide (field < 0) && flag.getLsbD i)
      else flag.getLsbD i := by
  rcases lt_trichotomy field 0 with h | rfl | h
  · rw [override, if_neg (by omega), if_neg (by omega)]
    split <;> simp [h, h.le]
  · rw [override, if_neg (by omega), if_pos rfl]
    split
    · rename_i hi
      subst hi
      simp [hk]
    · rename_i hi
      by_cases hi32 : i < 32
      · simp [hi32, hi]
      · simp [BitVec.getLsbD_of_ge _ _ (Nat.not_lt.mp hi32)]
  · rw [override, if_pos h]
    split
    · rename_i hi
      subst hi
      simp [hk, h]
    · rename_i hi
      simp [Ne.symm hi]

theorem and_twoPow_ne_zero (hk : k < 32) :
    flag &&& BitVec.twoPow 32 k ≠ 0 ↔ flag.getLsbD k = true := by
  rw [BitVec.and_twoPow]
  split
  · rename_i h
    simp only [h, iff_true, ne_eq]
    intro h0
    have hbit := congrArg (·.getLsbD k) h0
    simp [hk] at hbit
  · rename_i h
    simp [h]

theorem getLsbD_ovr (hi : i < 32) : OVR_EXTRA_BITS.getLsbD i = decide (i < 7) := by
  revert i
  decide

theorem bit_eq_twoPow :
    BIT_FORCEABBREVCONNSTR = BitVec.twoPow 32 0 ∧ BIT_FAKE_MSS = BitVec.twoPow 32 1 ∧
      BIT_BDE_ENVIRONMENT = BitVec.twoPow 32 2 ∧ BIT_CVT_NULL_DATE = BitVec.twoPow 32 3 ∧
      BIT_ACCESSIBLE_ONLY = BitVec.twoPow 32 4 ∧ BIT_IGNORE_ROUND_TRIP_TIME = BitVec.twoPow 32 5 ∧
      BIT_DISABLE_KEEPALIVE = BitVec.twoPow 32 6 := by
  decide

/-- Seven options have a field. -/
theorem field_eq_none (ci : ConnInfo) : ci.field i = none ↔ 7 ≤ i := by
  rcases Nat.lt_or_ge i 7 with h | h
  · interval_cases i <;> simp [ConnInfo.field]
  · match i, h with
    | n + 7, h => simp [ConnInfo.field]

/-- The word has a bit for every field that is positive, and the other bits as they are. -/
theorem getExtraOptions_getLsbD (ci : ConnInfo) (hi : i < 32) :
    (getExtraOptions ci).getLsbD i =
      (ci.field i).elim (ci.extra_opts.getLsbD i) fun v => decide (0 < v) := by
  obtain ⟨h0, h1, h2, h3, h4, h5, h6⟩ := bit_eq_twoPow
  have hrest : (ci.extra_opts &&& ~~~OVR_EXTRA_BITS).getLsbD i =
      (ci.extra_opts.getLsbD i && !decide (i < 7)) := by
    rw [BitVec.getLsbD_and, BitVec.getLsbD_not, getLsbD_ovr hi, decide_eq_true hi, Bool.true_and]
  simp only [getExtraOptions, h0, h1, h2, h3, h4, h5, h6]
  rw [getLsbD_override (by decide), getLsbD_override (by decide), getLsbD_override (by decide),
    getLsbD_override (by decide), getLsbD_override (by decide), getLsbD_override (by decide),
    getLsbD_override (by decide), hrest]
  rcases Nat.lt_or_ge i 7 with h7 | h7
  · interval_cases i <;> simp [ConnInfo.field]
  · rw [(field_eq_none ci).mpr h7]
    simp [show i ≠ 6 by omega, show i ≠ 5 by omega, show i ≠ 4 by omega, show i ≠ 3 by omega,
      show i ≠ 2 by omega, show i ≠ 1 by omega, show i ≠ 0 by omega, h7]

/-! ### After a change -/

theorem settle_field (ci : ConnInfo) : ci.settle.field = ci.field := by
  funext i
  match i with
  | 0 | 1 | 2 | 3 | 4 | 5 | 6 | _ + 7 => rfl

/-- What is reported stays so when it is stored. -/
theorem getExtraOptions_settle (ci : ConnInfo) :
    getExtraOptions ci.settle = getExtraOptions ci := by
  refine BitVec.eq_of_getLsbD_eq fun i hi => ?_
  rw [getExtraOptions_getLsbD _ hi, settle_field, getExtraOptions_getLsbD _ hi]
  cases hfield : ci.field i with
  | none =>
    have hword := getExtraOptions_getLsbD ci hi
    rw [hfield] at hword
    exact hword
  | some v => rfl

theorem assigned_twoPow {value field : ℤ} (hk : k < 32) :
    assigned flag (BitVec.twoPow 32 k) value field =
      if flag.getLsbD k = true then value else field := by
  rw [assigned]
  exact if_congr (and_twoPow_ne_zero hk) rfl rfl

theorem replaced_twoPow {field : ℤ} (hk : k < 32) :
    replaced true flag (BitVec.twoPow 32 k) field = if flag.getLsbD k = true then 1 else 0 := by
  rw [replaced, if_pos (Or.inl rfl)]
  exact if_congr (and_twoPow_ne_zero hk) rfl rfl

/-- Each bit is added and taken away, but for the one that is missing. -/
theorem add_removeExtraOptions_field (ci : ConnInfo) :
    (add_removeExtraOptions ci aflag dflag).field i =
      (ci.field i).map fun v =>
        if dflag.getLsbD i = true ∧ i ≠ 2 then 0 else if aflag.getLsbD i = true then 1 else v := by
  obtain ⟨h0, h1, h2, h3, h4, h5, h6⟩ := bit_eq_twoPow
  rw [add_removeExtraOptions, settle_field]
  match i with
  | 0 | 1 | 2 | 3 | 4 | 5 | 6 =>
    simp [ConnInfo.field, h0, h1, h2, h3, h4, h5, h6, assigned_twoPow]
  | _ + 7 => rfl

theorem add_removeExtraOptions_getLsbD (ci : ConnInfo) (hi : i < 32) :
    (getExtraOptions (add_removeExtraOptions ci aflag dflag)).getLsbD i =
      (((getExtraOptions ci).getLsbD i || aflag.getLsbD i) &&
        !(dflag.getLsbD i && decide (i ≠ 2))) := by
  rw [getExtraOptions_getLsbD _ hi, add_removeExtraOptions_field, getExtraOptions_getLsbD ci hi]
  cases hfield : ci.field i with
  | none =>
    have h7 := (field_eq_none ci).mp hfield
    have hother : (add_removeExtraOptions ci aflag dflag).extra_opts.getLsbD i =
        ((ci.extra_opts ||| aflag) &&& ~~~dflag).getLsbD i := by
      rw [add_removeExtraOptions, ConnInfo.settle, getExtraOptions_getLsbD _ hi]
      rw [(field_eq_none _).mpr h7]
      rfl
    have h2 : i ≠ 2 := by omega
    rw [Option.map_none, Option.elim_none, Option.elim_none, hother, BitVec.getLsbD_and,
      BitVec.getLsbD_or, BitVec.getLsbD_not, decide_eq_true hi, decide_eq_true h2, Bool.true_and,
      Bool.and_true]
  | some v =>
    simp only [Option.map_some, Option.elim_some]
    by_cases hd : dflag.getLsbD i = true ∧ i ≠ 2
    · simp [hd]
    · have hd' : (dflag.getLsbD i && decide (i ≠ 2)) = false := by
        rwa [← Bool.not_eq_true, Bool.and_eq_true, decide_eq_true_iff]
      rw [if_neg hd, hd', Bool.not_false, Bool.and_true]
      by_cases ha : aflag.getLsbD i = true
      · rw [if_pos ha, ha, Bool.or_true]
        rfl
      · rw [if_neg ha, Bool.eq_false_iff.mpr ha, Bool.or_false]

theorem replaceExtraOptions_field (ci : ConnInfo) :
    (replaceExtraOptions ci flag true).field i =
      (ci.field i).map fun _ => if flag.getLsbD i = true then 1 else 0 := by
  obtain ⟨h0, h1, h2, h3, h4, h5, h6⟩ := bit_eq_twoPow
  rw [replaceExtraOptions, settle_field]
  match i with
  | 0 | 1 | 2 | 3 | 4 | 5 | 6 =>
    simp [ConnInfo.field, h0, h1, h2, h3, h4, h5, h6, replaced_twoPow]
  | _ + 7 => rfl

/-- The word that is set is the one that is reported. -/
theorem getExtraOptions_replace (ci : ConnInfo) (flag : UInt4) :
    getExtraOptions (replaceExtraOptions ci flag true) = flag := by
  refine BitVec.eq_of_getLsbD_eq fun i hi => ?_
  rw [getExtraOptions_getLsbD _ hi, replaceExtraOptions_field]
  cases hfield : ci.field i with
  | none =>
    have h7 := (field_eq_none ci).mp hfield
    have hother : (replaceExtraOptions ci flag true).extra_opts.getLsbD i = flag.getLsbD i := by
      rw [replaceExtraOptions, ConnInfo.settle, getExtraOptions_getLsbD _ hi]
      rw [(field_eq_none _).mpr h7]
      rfl
    exact hother
  | some v =>
    simp only [Option.map_some, Option.elim_some]
    split <;> simp_all

/-! ### The laws -/

/-- What flag words and their texts are to do. -/
structure Lawful (ci other : ConnInfo) (aflag dflag : UInt4) : Prop where
  /-- The supported options of one word are added, and those of the other taken away. -/
  changed : getExtraOptions (add_removeExtraOptions ci aflag dflag) &&& OVR_EXTRA_BITS =
    ((getExtraOptions ci ||| aflag) &&& ~~~dflag) &&& OVR_EXTRA_BITS
  /-- The text in a connection string gives the word to any other connection. -/
  copied : (setExtraOptions other (hexText (getExtraOptions ci)) (some .hex_format)).map
    getExtraOptions = some (getExtraOptions ci)
  /-- So does the text that a dialog shows. -/
  shown : (setExtraOptions other (0x30 :: 0x78 :: hexText (getExtraOptions ci)) none).map
    getExtraOptions = some (getExtraOptions ci)

theorem copied (ci other : ConnInfo) :
    (setExtraOptions other (hexText (getExtraOptions ci)) (some .hex_format)).map
      getExtraOptions = some (getExtraOptions ci) := by
  have hlt : (getExtraOptions ci).toNat < 2 ^ 64 := Nat.lt_trans (BitVec.isLt _) (by decide)
  have hread : Radix.strtoul 16 (hexText (getExtraOptions ci)) = some (getExtraOptions ci).toNat :=
    Radix.strtoul_text (by decide) (by decide) hlt
  simp only [setExtraOptions, Option.elim_some, Format.base, hread, Option.map_some,
    getExtraOptions_replace, BitVec.ofNat_toNat, BitVec.setWidth_eq]

theorem shown (ci other : ConnInfo) :
    (setExtraOptions other (0x30 :: 0x78 :: hexText (getExtraOptions ci)) none).map
      getExtraOptions = some (getExtraOptions ci) := by
  rw [← copied ci other]
  rfl

end

/-- **Extra options.** The supported options of one word are added and those of another taken away,
unless `bde_environment` is to be taken away and is set or added; and a word is reported by any
connection that is given its text. -/
theorem extraOptions_lawful_iff (ci other : ConnInfo) (aflag dflag : UInt4) :
    Lawful ci other aflag dflag ↔ dflag &&& BIT_BDE_ENVIRONMENT = 0 ∨
      aflag &&& BIT_BDE_ENVIRONMENT = 0 ∧ ci.bde_environment ≤ 0 := by
  have hbde : BIT_BDE_ENVIRONMENT = BitVec.twoPow 32 2 := bit_eq_twoPow.2.2.1
  have hzero : ∀ flag : UInt4, flag &&& BIT_BDE_ENVIRONMENT = 0 ↔ flag.getLsbD 2 = false := by
    intro flag
    rw [hbde, ← not_iff_not, Bool.not_eq_false]
    exact and_twoPow_ne_zero (by decide)
  have hold : (getExtraOptions ci).getLsbD 2 = decide (0 < ci.bde_environment) :=
    getExtraOptions_getLsbD ci (by decide)
  have hwas : ci.bde_environment ≤ 0 ↔ (getExtraOptions ci).getLsbD 2 = false := by
    rw [hold, decide_eq_false_iff_not, not_lt]
  rw [hzero, hzero, hwas]
  constructor
  · intro h
    have hbit := congrArg (·.getLsbD 2) h.changed
    simp only [BitVec.getLsbD_and, BitVec.getLsbD_or, BitVec.getLsbD_not,
      add_removeExtraOptions_getLsbD ci (show 2 < 32 by decide),
      getLsbD_ovr (show 2 < 32 by decide)] at hbit
    revert hbit
    cases dflag.getLsbD 2 <;> cases aflag.getLsbD 2 <;> cases (getExtraOptions ci).getLsbD 2 <;>
      decide
  · intro h
    refine ⟨?_, copied ci other, shown ci other⟩
    refine BitVec.eq_of_getLsbD_eq fun i hi => ?_
    simp only [BitVec.getLsbD_and, BitVec.getLsbD_or, BitVec.getLsbD_not,
      add_removeExtraOptions_getLsbD ci hi, decide_eq_true hi, Bool.true_and]
    by_cases hi2 : i = 2
    · subst hi2
      rcases h with h | ⟨ha, hw⟩
      · rw [h, Bool.false_and]
      · simp only [ha, hw, Bool.or_false, Bool.false_and]
    · rw [decide_eq_true hi2, Bool.and_true]

/-- `bde_environment` stays where it is to be taken away. -/
theorem bde_environment_kept :
    ¬ Lawful ⟨0, -1, -1, 1, -1, -1, -1, -1⟩ ⟨0, -1, -1, -1, -1, -1, -1, -1⟩ 0
      BIT_BDE_ENVIRONMENT := by
  rintro ⟨h, -, -⟩
  exact absurd h (by decide)

end OdbcDriver.Options
