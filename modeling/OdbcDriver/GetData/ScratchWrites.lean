import OdbcDriver.GetData.Scratch
import OdbcDriver.Lib.Run
import OdbcDriver.Param.Resolve

/-!
# What is written into the scratch buffer

A conversion writes the bytes it has counted and a terminator. For texts `needbuflen` counts the
terminator; for binary data it does not, and a buffer that is allocated for binary data is one byte
longer than `ttlbuflen` says. A buffer that has been allocated for a text is not.
-/

namespace OdbcDriver

open CInt (wrap)

/-! ### Line feeds -/

section Linefeeds

variable {convlf : Bool} {max out : Nat} {prev : Option Byte} {si text : List Byte}

/-- A text with its line feeds expanded, behind the byte `prev`. -/
def expandLines (convlf : Bool) : Option Byte → List Byte → List Byte
  | _, [] => []
  | prev, c :: si =>
    if convlf ∧ c = PG_LINEFEED ∧ prev ≠ some PG_CARRIAGE_RETURN then
      PG_CARRIAGE_RETURN :: PG_LINEFEED :: expandLines convlf (some c) si
    else c :: expandLines convlf (some c) si

/-- Behind `prev`, a text ends with a line feed that is expanded. -/
def EndsLine (convlf : Bool) (prev : Option Byte) (text : List Byte) : Prop :=
  convlf = true ∧ ∃ si, text = si ++ [PG_LINEFEED] ∧ (si.getLast?.or prev) ≠ some PG_CARRIAGE_RETURN

theorem getLast?_or_cons (c : Byte) (t : List Byte) :
    ((c :: t).getLast?.or prev) = (t.getLast?.or (some c)) := by
  cases t with
  | nil => rfl
  | cons y t =>
    rw [List.getLast?_cons_cons, List.getLast?_eq_some_getLast (List.cons_ne_nil y t)]
    rfl

theorem endsLine_cons {c : Byte} (hne : si ≠ []) :
    EndsLine convlf prev (c :: si) ↔ EndsLine convlf (some c) si := by
  unfold EndsLine
  refine and_congr_right fun _ => ⟨?_, ?_⟩
  · rintro ⟨t, ht, hlast⟩
    cases t with
    | nil =>
      obtain ⟨-, rfl⟩ := List.cons.inj ht
      exact absurd rfl hne
    | cons x t =>
      obtain ⟨rfl, rfl⟩ := List.cons.inj ht
      refine ⟨t, rfl, ?_⟩
      rwa [getLast?_or_cons] at hlast
  · rintro ⟨t, rfl, hlast⟩
    refine ⟨c :: t, rfl, ?_⟩
    rwa [getLast?_or_cons]

theorem endsLine_singleton {c : Byte} : EndsLine convlf prev [c] ↔
    convlf = true ∧ c = PG_LINEFEED ∧ prev ≠ some PG_CARRIAGE_RETURN := by
  unfold EndsLine
  refine and_congr_right fun _ => ⟨?_, ?_⟩
  · rintro ⟨t, ht, hlast⟩
    cases t with
    | nil =>
      obtain ⟨rfl, -⟩ := List.cons.inj ht
      exact ⟨rfl, by simpa using hlast⟩
    | cons x t =>
      obtain ⟨-, h⟩ := List.cons.inj ht
      exact absurd h.symm (by simp)
  · rintro ⟨rfl, hprev⟩
    exact ⟨[], rfl, by simpa using hprev⟩

/-- What is written of a text: all of it, or as much as leaves at most one byte of `max`. -/
theorem linefeedsLoop_length :
    (linefeedsLoop convlf max prev out si).1 = expandLines convlf prev si ∨
      max - 1 ≤ out + (linefeedsLoop convlf max prev out si).1.length ∧
        (linefeedsLoop convlf max prev out si).1.length ≤ (expandLines convlf prev si).length := by
  induction si generalizing prev out with
  | nil => exact .inl rfl
  | cons c si ih =>
    rw [linefeedsLoop, expandLines]
    by_cases hfull : out < max - 1
    · rw [if_neg (not_not.mpr hfull)]
      by_cases hlf : convlf ∧ c = PG_LINEFEED ∧ prev ≠ some PG_CARRIAGE_RETURN
      · rw [if_pos hlf, if_pos hlf]
        rcases @ih (out + 2) (some c) with h | ⟨h₁, h₂⟩
        · exact .inl (by dsimp only; rw [h])
        · refine .inr ⟨?_, ?_⟩ <;> simp only [List.length_cons] <;> omega
      · rw [if_neg hlf, if_neg hlf]
        rcases @ih (out + 1) (some c) with h | ⟨h₁, h₂⟩
        · exact .inl (by dsimp only; rw [h])
        · refine .inr ⟨?_, ?_⟩ <;> simp only [List.length_cons] <;> omega
    · rw [if_pos hfull]
      exact .inr ⟨by simp; omega, by simp⟩

/-- **A buffer as long as the text.** Its last byte stays free unless the text ends with a line
feed that is expanded. -/
theorem linefeedsLoop_exact (hne : si ≠ [])
    (hmax : out + (expandLines convlf prev si).length = max) :
    ((linefeedsLoop convlf max prev out si).1.length + 1 = (expandLines convlf prev si).length ∧
        ¬ EndsLine convlf prev si) ∨
      (linefeedsLoop convlf max prev out si).1.length = (expandLines convlf prev si).length ∧
        EndsLine convlf prev si := by
  induction si generalizing prev out with
  | nil => exact absurd rfl hne
  | cons c si ih =>
    rw [expandLines] at hmax ⊢
    rw [linefeedsLoop]
    by_cases hlf : convlf ∧ c = PG_LINEFEED ∧ prev ≠ some PG_CARRIAGE_RETURN
    · simp only [if_pos hlf] at hmax ⊢
      rw [if_neg (by simp only [List.length_cons] at hmax; omega)]
      cases si with
      | nil => exact .inr ⟨rfl, endsLine_singleton.mpr hlf⟩
      | cons d si =>
        rw [endsLine_cons (by simp)]
        rcases @ih (out + 2) (some c) (by simp)
          (by simp only [List.length_cons] at hmax ⊢; omega) with
          ⟨h, hnot⟩ | ⟨h, hends⟩
        · exact .inl ⟨by simp only [List.length_cons]; omega, hnot⟩
        · exact .inr ⟨by simp only [List.length_cons]; omega, hends⟩
    · simp only [if_neg hlf] at hmax ⊢
      cases si with
      | nil =>
        rw [if_pos (by simp [expandLines] at hmax; omega)]
        exact .inl ⟨rfl, mt endsLine_singleton.mp hlf⟩
      | cons d si =>
        have hpos : 0 < (expandLines convlf (some c) (d :: si)).length := by
          rw [expandLines]
          split <;> simp
        rw [if_neg (by simp only [List.length_cons] at hmax; omega), endsLine_cons (by simp)]
        rcases @ih (out + 1) (some c) (by simp)
          (by simp only [List.length_cons] at hmax ⊢; omega) with
          ⟨h, hnot⟩ | ⟨h, hends⟩
        · exact .inl ⟨by simp only [List.length_cons]; omega, hnot⟩
        · exact .inr ⟨by simp only [List.length_cons]; omega, hends⟩

/-- The length that is measured, where the text is short enough. -/
theorem convert_linefeeds_zero (h : (convert_linefeeds text 0 convlf).1.length < 2 ^ 31) :
    (convert_linefeeds text 0 convlf).1 = expandLines convlf none text := by
  rcases @linefeedsLoop_length convlf 0xffffffff 0 none text with heq | ⟨hle, -⟩
  · exact heq
  · change (linefeedsLoop convlf 0xffffffff none 0 text).1.length < 2 ^ 31 at h
    omega

end Linefeeds

/-! ### The writes of a conversion -/

section Writes

variable {loc : Locale} {conn : ConnectionClass} {r : ColumnRead} {cv : ConvertedValue} {max : Nat}

/-- A text that is copied but for its line feeds, when it is read as binary data. -/
def copiedAsBinary (conn : ConnectionClass) (field_type : Oid) : Bool :=
  !filed_is_bytea field_type &&
    !(conn.convtype && isLocalized field_type && (!conn.same_encoding || conn.wcs_debug))

theorem length_pg_bin2whex (src : List Byte) : (pg_bin2whex src).length = 4 * src.length := by
  induction src with
  | nil => rfl
  | cons c src ih =>
    simp only [pg_bin2whex, pg_bin2hex, List.flatMap_cons, List.length_append, List.flatMap_append,
      List.length_cons] at ih ⊢
    rw [ih]
    simp
    omega

theorem length_pg_bin2hex (src : List Byte) : (pg_bin2hex src).length = 2 * src.length := by
  induction src with
  | nil => rfl
  | cons c src ih =>
    simp only [pg_bin2hex, List.flatMap_cons, List.length_append, List.length_cons] at ih ⊢
    rw [ih]
    simp
    omega

theorem length_convert_linefeeds_le (text : List Byte) (max : Nat) (convlf : Bool)
    (h : (convert_linefeeds text 0 convlf).1.length < 2 ^ 31) :
    (convert_linefeeds text max convlf).1.length ≤ (convert_linefeeds text 0 convlf).1.length := by
  rw [convert_linefeeds_zero h]
  rcases @linefeedsLoop_length convlf (if max = 0 then 0xffffffff else max) 0 none text with
    heq | ⟨-, hle⟩
  · exact (congrArg List.length heq).le
  · exact hle

/-- **A conversion writes the value and a terminator.** -/
theorem length_scratchWrites (h : convertValue loc conn r.field_type r.fCType r.neut_str = .ok cv)
    (hsmall : cv.bytes.length < 2 ^ 31) :
    ∀ w ∈ scratchWrites loc conn r max,
      w.length ≤ cv.bytes.length + if r.fCType = .wchar then 2 else 1 := by
  unfold convertValue at h
  unfold scratchWrites
  dsimp only at h ⊢
  by_cases hwide : r.fCType = .wchar
  · simp only [if_pos hwide] at h ⊢
    split at h
    · rename_i hkind
      cases h
      rw [if_pos hkind]
      simp only [List.forall_mem_cons, ConvertedValue.plain, List.length_append, length_pg_bin2whex,
        List.length_cons, List.length_nil]
      exact ⟨by omega, by omega, by simp⟩
    · rename_i hkind
      rw [if_neg hkind]
      split at h
      · rename_i hhybrid
        rw [if_pos hhybrid]
        split at h
        · rename_i wide hw
          cases h
          simp [hw, ConvertedValue.plain]
        · cases h
      · rename_i hhybrid
        cases h
        rw [if_neg hhybrid]
        simp [ConvertedValue.plain]
  · simp only [if_neg hwide] at h ⊢
    split at h
    · rename_i hlocal
      rw [if_pos hlocal]
      cases hloc : loc.localize (byteaProcess r.field_type r.fCType r.neut_str).2
          conn.lf_conversion with
      | error e =>
        rw [hloc] at h
        cases h
      | ok localized =>
        rw [hloc] at h
        cases h
        simp [ConvertedValue.plain]
    · rename_i hlocal
      rw [if_neg hlocal]
      split at h
      · rename_i hkind
        cases h
        rw [if_pos hkind]
        simp [ConvertedValue.plain]
      · rename_i hkind
        rw [if_neg hkind]
        split at h
        · rename_i hescape
          cases h
          rw [if_pos hescape]
          simp only [List.forall_mem_cons, ConvertedValue.plain, List.length_append,
            length_pg_bin2hex, List.length_cons, List.length_nil]
          exact ⟨by omega, by omega, by simp⟩
        · rename_i hescape
          cases h
          rw [if_neg hescape]
          simp only [List.mem_singleton, forall_eq, List.length_append, List.length_singleton]
          exact Nat.add_le_add_right (length_convert_linefeeds_le _ _ _ hsmall) 1

theorem byteaProcess_binary (field_type : Oid) (neut_str : List Byte) :
    byteaProcess field_type .binary neut_str =
      (if filed_is_bytea field_type then .binary else .none, neut_str) := by
  unfold byteaProcess
  by_cases hraw : isRawOut field_type = true
  · have hbytea : filed_is_bytea field_type = true := by
      simp only [isRawOut, filed_is_bytea, Bool.or_eq_true] at hraw ⊢
      tauto
    rw [if_pos hraw, if_pos hbytea, if_pos rfl]
  · rw [if_neg hraw]
    by_cases hbytea : filed_is_bytea field_type = true
    · rw [if_pos hbytea, if_pos hbytea, if_pos rfl]
    · rw [if_neg hbytea, if_neg hbytea]

/-- Binary data, and texts in another encoding, are written whole, with the terminator. -/
theorem scratchWrites_binary
    (h : convertValue loc conn r.field_type r.fCType r.neut_str = .ok cv)
    (hbin : r.fCType = .binary) (hcopied : copiedAsBinary conn r.field_type = false) :
    ∃ w ∈ scratchWrites loc conn r max, w.length = cv.bytes.length + 1 := by
  unfold convertValue at h
  unfold scratchWrites
  rw [hbin, byteaProcess_binary] at h ⊢
  dsimp only at h ⊢
  rw [if_neg (by simp)] at h ⊢
  by_cases hbytea : filed_is_bytea r.field_type = true
  · simp only [if_pos hbytea] at h ⊢
    rw [if_neg (by simp), if_pos trivial] at h ⊢
    cases h
    exact ⟨_, List.mem_singleton.mpr rfl, by simp [ConvertedValue.plain]⟩
  · have hlocal : (True ∧ conn.convtype = true ∧ isLocalized r.field_type = true) ∧
        ((!conn.same_encoding) = true ∨ conn.wcs_debug = true) := by
      rw [copiedAsBinary, Bool.eq_false_iff.mpr hbytea] at hcopied
      simpa only [Bool.not_false, Bool.true_and, Bool.not_eq_false', Bool.and_eq_true,
        Bool.or_eq_true, true_and, and_assoc] using hcopied
    simp only [if_neg hbytea] at h ⊢
    rw [if_pos hlocal] at h ⊢
    cases hloc : loc.localize r.neut_str conn.lf_conversion with
    | error e =>
      rw [hloc] at h
      cases h
    | ok localized =>
      rw [hloc] at h
      cases h
      exact ⟨_, List.mem_singleton.mpr rfl, by simp [ConvertedValue.plain]⟩

/-- A text that is read as binary data is copied. -/
theorem scratchWrites_copied
    (h : convertValue loc conn r.field_type r.fCType r.neut_str = .ok cv)
    (hbin : r.fCType = .binary) (hcopied : copiedAsBinary conn r.field_type = true) :
    cv = .linefeeds conn r.neut_str ∧ scratchWrites loc conn r max =
      [(convert_linefeeds r.neut_str max conn.lf_conversion).1 ++ [0]] := by
  unfold convertValue at h
  unfold scratchWrites
  rw [hbin, byteaProcess_binary] at h ⊢
  dsimp only at h ⊢
  rw [if_neg (by simp)] at h ⊢
  rw [copiedAsBinary, Bool.and_eq_true, Bool.not_eq_true', Bool.not_eq_true'] at hcopied
  have hlocal : ¬ ((True ∧ conn.convtype = true ∧ isLocalized r.field_type = true) ∧
      ((!conn.same_encoding) = true ∨ conn.wcs_debug = true)) := by
    simpa [and_assoc] using hcopied.2
  simp only [hcopied.1, Bool.false_eq_true, if_false] at h ⊢
  rw [if_neg hlocal, if_neg (by simp), if_neg (by simp)] at h ⊢
  cases h
  exact ⟨rfl, rfl⟩

end Writes

/-! ### Buffers -/

/-- The writes lie within the buffer. -/
def Within (w : Written) : Prop := ∀ bytes ∈ w.writes, bytes.length ≤ w.size

/-- The buffer has the bytes that `ttlbuflen` says, and one more at most. -/
def Allocated (gdc : GetDataClass) : Prop :=
  ∀ a, gdc.ttlbuf = some a → 0 < a ∧ gdc.ttlbuflen ≤ a ∧ a ≤ gdc.ttlbuflen + 1

/-- The length of a value, with a terminator, is an `int`. -/
def FitsInt (loc : Locale) (conn : ConnectionClass) (r : ColumnRead) : Prop :=
  ∀ cv, convertValue loc conn r.field_type r.fCType r.neut_str = .ok cv →
    cv.bytes.length + get_terminator_len r.fCType + 1 < 2 ^ 31

/-- A value that is read as binary data meets a buffer of just its length, which has been allocated
for a text. -/
structure MeetsExact (loc : Locale) (conn : ConnectionClass) (gdc : GetDataClass) (r : ColumnRead)
    (cv : ConvertedValue) : Prop where
  value : convertValue loc conn r.field_type r.fCType r.neut_str = .ok cv
  binary : r.fCType = .binary
  wanted : 0 < r.cbValueMax
  stored : cv.changed = true ∨ r.cbValueMax < cv.bytes.length
  buffer : gdc.ttlbuf = some cv.bytes.length
  recorded : gdc.ttlbuflen = cv.bytes.length
  /-- A text is written whole only if it ends with a line feed that is expanded. -/
  whole : copiedAsBinary conn r.field_type = true → EndsLine conn.lf_conversion none r.neut_str

section SetUp

variable {loc : Locale} {conn : ConnectionClass} {gdc : GetDataClass} {r : ColumnRead}
  {cv : ConvertedValue}

theorem within_nil (size : Nat) : Within ⟨size, []⟩ := nofun

/-- A conversion of a text stays within the bytes that are needed. -/
theorem within_scratchWrites {size max : Nat} (hfits : FitsInt loc conn r)
    (h : convertValue loc conn r.field_type r.fCType r.neut_str = .ok cv)
    (hsize : cv.bytes.length + (if r.fCType = .wchar then 2 else 1) ≤ size) :
    Within ⟨size, scratchWrites loc conn r max⟩ := by
  have := hfits cv h
  exact fun w hw => (length_scratchWrites h (by omega) w hw).trans hsize

/-- **A buffer of just the length of binary data.** Its end is passed, but for a text whose last
byte does not fit. -/
theorem within_exact_iff (hfits : FitsInt loc conn r)
    (h : convertValue loc conn r.field_type r.fCType r.neut_str = .ok cv)
    (hbin : r.fCType = .binary) (hpos : 0 < cv.bytes.length) :
    Within ⟨cv.bytes.length, scratchWrites loc conn r cv.bytes.length⟩ ↔
      ¬ (copiedAsBinary conn r.field_type = true → EndsLine conn.lf_conversion none r.neut_str) := by
  cases hcopied : copiedAsBinary conn r.field_type with
  | false =>
    obtain ⟨w, hw, hlen⟩ := @scratchWrites_binary _ _ _ _ cv.bytes.length h hbin hcopied
    refine iff_of_false (fun hwithin => ?_) (by simp)
    have := hwithin w hw
    dsimp only at this
    omega
  | true =>
    have hsmall := hfits cv h
    obtain ⟨rfl, hwrites⟩ := @scratchWrites_copied _ _ _ _ cv.bytes.length h hbin hcopied
    have hexpand : (ConvertedValue.linefeeds conn r.neut_str).bytes =
        expandLines conn.lf_conversion none r.neut_str :=
      convert_linefeeds_zero (by
        change (ConvertedValue.linefeeds conn r.neut_str).bytes.length < 2 ^ 31
        omega)
    rw [hexpand] at hwrites hpos ⊢
    have hne : r.neut_str ≠ [] := by
      intro hnil
      rw [hnil] at hpos
      exact absurd hpos (by simp [expandLines])
    rw [Within, hwrites]
    simp only [List.mem_singleton, forall_eq, List.length_append, List.length_singleton,
      convert_linefeeds, if_neg hpos.ne', true_implies]
    rcases linefeedsLoop_exact hne (Nat.zero_add (expandLines conn.lf_conversion none
      r.neut_str).length) with ⟨hlen, hends⟩ | ⟨hlen, hends⟩
    · exact iff_of_true (by omega) hends
    · exact iff_of_false (by omega) (not_not.mpr hends)

/-- **A value that is set up.** Its writes lie within the buffer unless it meets one of just its
length. -/
theorem setup_getdataclass_within (hgdc : Allocated gdc) (hfits : FitsInt loc conn r) :
    (Within ⟨(setup_getdataclass loc conn gdc r).gdc.ttlbuf.getD 0,
        (setup_getdataclass loc conn gdc r).writes⟩ ↔ ¬ ∃ cv, MeetsExact loc conn gdc r cv) ∧
      Allocated (setup_getdataclass loc conn gdc r).gdc := by
  unfold setup_getdataclass
  cases hcv : convertValue loc conn r.field_type r.fCType r.neut_str with
  | error e =>
    refine ⟨iff_of_true (within_nil _) ?_, hgdc⟩
    rintro ⟨cv, h⟩
    cases hcv.symm.trans h.value
  | ok cv =>
    have hmeets : (∃ cv, MeetsExact loc conn gdc r cv) ↔ MeetsExact loc conn gdc r cv := by
      refine ⟨?_, fun h => ⟨cv, h⟩⟩
      rintro ⟨cv', h⟩
      cases hcv.symm.trans h.value
      exact h
    rw [hmeets]
    dsimp only
    by_cases hmax : r.cbValueMax = 0
    · rw [if_pos hmax]
      refine ⟨iff_of_true (within_nil _) fun h => ?_, hgdc⟩
      have := h.wanted
      omega
    have hsmall := hfits cv hcv
    have hneed : wrap 32 ((cv.bytes.length : Int) + get_terminator_len r.fCType) =
        ((cv.bytes.length + get_terminator_len r.fCType : Nat) : Int) := by
      unfold wrap
      omega
    rw [if_neg hmax, hneed]
    -- the recorded length, when there is no buffer
    set gdc₁ := if gdc.ttlbuf = none then { gdc with ttlbuflen := 0 } else gdc with hgdc₁
    have hnone : gdc.ttlbuf = none → gdc₁.ttlbuf = none ∧ gdc₁.ttlbuflen = 0 := by
      intro h
      rw [hgdc₁, if_pos h]
      exact ⟨h, rfl⟩
    have hsome : ∀ a, gdc.ttlbuf = some a → gdc₁ = gdc := by
      intro a h
      rw [hgdc₁, if_neg (by rw [h]; simp)]
    by_cases hstored : cv.changed = true ∨
        (r.cbValueMax : Int) < ((cv.bytes.length + get_terminator_len r.fCType : Nat) : Int)
    · rw [if_pos hstored]
      by_cases halloc : (gdc₁.ttlbuflen : Int) <
          ((cv.bytes.length + get_terminator_len r.fCType : Nat) : Int)
      · rw [if_pos halloc]
        dsimp only
        rw [if_neg (Option.some_ne_none _), Option.getD_some]
        refine ⟨iff_of_true (within_scratchWrites hfits hcv ?_) fun h => ?_, ?_⟩
        · cases r.fCType <;> simp [get_terminator_len, WCLEN]
          omega
        · have hlen : gdc₁.ttlbuflen = cv.bytes.length := by
            rw [hsome _ h.buffer, h.recorded]
          rw [hlen, h.binary] at halloc
          exact absurd halloc (by simp [get_terminator_len])
        · intro a ha
          dsimp only at ha ⊢
          obtain rfl := Option.some.inj ha
          split <;> omega
      · rw [if_neg halloc]
        dsimp only
        cases hbuf : gdc.ttlbuf with
        | none =>
          rw [if_pos (hnone hbuf).1]
          refine ⟨iff_of_true (within_nil _) fun h => ?_, ?_⟩
          · cases hbuf.symm.trans h.buffer
          · intro a ha
            cases (hnone hbuf).1.symm.trans ha
        | some a =>
          have hsame := hsome a hbuf
          obtain ⟨hpos, hle, hge⟩ := hgdc a hbuf
          rw [hsame] at halloc ⊢
          rw [if_neg (by rw [hbuf]; simp), hbuf, Option.getD_some]
          refine ⟨?_, fun b hb => hgdc b (hbuf.trans hb)⟩
          by_cases hexact : r.fCType = .binary ∧ a = cv.bytes.length
          · obtain ⟨hbin, rfl⟩ := hexact
            have hterm : get_terminator_len r.fCType = 0 := by
              rw [hbin]
              rfl
            have hrec : gdc.ttlbuflen = cv.bytes.length := by omega
            rw [hrec, within_exact_iff hfits hcv hbin hpos]
            refine not_congr ⟨fun h => ⟨hcv, hbin, by omega, ?_, hbuf, hrec, h⟩, fun h => h.whole⟩
            exact hstored.imp id fun h => by omega
          · refine iff_of_true (within_scratchWrites hfits hcv ?_) fun h => hexact ⟨h.binary, ?_⟩
            · cases hc : r.fCType with
              | binary =>
                have hne : a ≠ cv.bytes.length := fun ha => hexact ⟨hc, ha⟩
                rw [hc] at halloc
                simp [get_terminator_len] at halloc ⊢
                omega
              | _ =>
                rw [hc] at halloc
                simp [get_terminator_len, WCLEN] at halloc ⊢
                omega
            · exact Option.some.inj (hbuf.symm.trans h.buffer)
    · rw [if_neg hstored]
      refine ⟨iff_of_true (within_nil _) fun h => hstored ?_, nofun⟩
      refine h.stored.imp id fun h' => ?_
      rw [h.binary]
      change (r.cbValueMax : Int) < ((cv.bytes.length + 0 : Nat) : Int)
      omega

end SetUp

/-! ### Sequences of accesses -/

section Runs

variable {loc : Locale} {conn : ConnectionClass} {gdc : GetDataClass} {r : ColumnRead}

/-- The value of a column is set up: the column is bound, or its value has not been begun. -/
def ConvertsValue (gdc : GetDataClass) (r : ColumnRead) : Prop :=
  r.bound = true ∨ gdc.data_left < 0 ∧ gdc.data_left ≠ -2

/-- An access that writes past the buffer. -/
def Overruns (loc : Locale) (conn : ConnectionClass) (gdc : GetDataClass) (a : Access) : Prop :=
  ∃ r cv, a = .text r ∧ ConvertsValue gdc r ∧ MeetsExact loc conn gdc r cv

/-- The accesses to a `GetDataClass`. -/
def accesses (loc : Locale) (conn : ConnectionClass) : Machine GetDataClass Access Written where
  step := GetDataClass.access loc conn

theorem Allocated.congr {gdc' : GetDataClass} (h : Allocated gdc) (hbuf : gdc'.ttlbuf = gdc.ttlbuf)
    (hlen : gdc'.ttlbuflen = gdc.ttlbuflen) : Allocated gdc' := by
  intro a ha
  rw [hlen]
  exact h a (hbuf.symm.trans ha)

theorem allocated_none (h : gdc.ttlbuf = none) : Allocated gdc := by
  intro a ha
  cases h.symm.trans ha

/-- A value that is delivered leaves the buffer as it is, or frees it. -/
theorem deliver_buffer (gdc : GetDataClass) (r : ColumnRead) (len : Nat) (needbuflen : Int) :
    (deliver gdc r len needbuflen).ttlbuf = none ∨
      (deliver gdc r len needbuflen).ttlbuf = gdc.ttlbuf ∧
        (deliver gdc r len needbuflen).ttlbuflen = gdc.ttlbuflen := by
  unfold deliver
  cases r.bound with
  | true =>
    simp only [if_true]
    split_ifs <;> first | exact .inl rfl | exact .inr ⟨rfl, rfl⟩
  | false =>
    simp only [Bool.false_eq_true, if_false]
    split_ifs <;> first | exact .inl rfl | exact .inr ⟨rfl, rfl⟩

theorem Allocated.deliver (h : Allocated gdc) (r : ColumnRead) (len : Nat) (needbuflen : Int) :
    Allocated (deliver gdc r len needbuflen) := by
  rcases deliver_buffer gdc r len needbuflen with hnone | ⟨hbuf, hlen⟩
  · exact allocated_none hnone
  · exact h.congr hbuf hlen

/-- What stands in the buffer does not depend on how much has been delivered. -/
theorem MeetsExact.congr {gdc' : GetDataClass} (hbuf : gdc'.ttlbuf = gdc.ttlbuf)
    (hlen : gdc'.ttlbuflen = gdc.ttlbuflen) :
    (∃ cv, MeetsExact loc conn gdc' r cv) ↔ ∃ cv, MeetsExact loc conn gdc r cv := by
  refine exists_congr fun cv => ⟨fun h => ?_, fun h => ?_⟩
  · exact ⟨h.value, h.binary, h.wanted, h.stored, hbuf ▸ h.buffer, hlen ▸ h.recorded, h.whole⟩
  · exact ⟨h.value, h.binary, h.wanted, h.stored, hbuf ▸ h.buffer, hlen ▸ h.recorded, h.whole⟩

/-- One read. -/
theorem convert_text_field_within (hgdc : Allocated gdc) (hfits : FitsInt loc conn r) :
    (Within (convert_text_field_to_sql_c loc conn gdc r).2 ↔
      ¬ ((r.bound = true ∨ gdc.data_left < 0) ∧ ∃ cv, MeetsExact loc conn gdc r cv)) ∧
      Allocated (convert_text_field_to_sql_c loc conn gdc r).1 := by
  unfold convert_text_field_to_sql_c
  dsimp only
  set gdc' := if r.bound then { gdc with data_left := -1 } else gdc with hgdc'
  have hbuf : gdc'.ttlbuf = gdc.ttlbuf := by
    rw [hgdc']
    split <;> rfl
  have hlen : gdc'.ttlbuflen = gdc.ttlbuflen := by
    rw [hgdc']
    split <;> rfl
  have hconv : (r.bound = true ∨ gdc.data_left < 0) ↔ gdc'.data_left < 0 := by
    rw [hgdc']
    cases r.bound <;> simp
  have hall := hgdc.congr hbuf hlen
  rw [hconv, ← MeetsExact.congr hbuf hlen]
  by_cases hneg : gdc'.data_left < 0
  · simp only [hneg, if_true, true_and]
    obtain ⟨hwithin, hall'⟩ := setup_getdataclass_within hall hfits
    refine ⟨hwithin, ?_⟩
    split
    · exact hall'
    · exact hall'.deliver r _ _
  · simp only [hneg, if_false, false_and, not_false_eq_true, iff_true]
    exact ⟨within_nil _, hall.deliver r _ _⟩

/-- One access. -/
theorem access_within {a : Access} (hgdc : Allocated gdc)
    (hfits : ∀ r, a = .text r → FitsInt loc conn r) :
    (Within (gdc.access loc conn a).2 ↔ ¬ Overruns loc conn gdc a) ∧
      Allocated (gdc.access loc conn a).1 := by
  cases a with
  | text r =>
    have hoverruns : Overruns loc conn gdc (.text r) ↔
        ConvertsValue gdc r ∧ ∃ cv, MeetsExact loc conn gdc r cv := by
      constructor
      · rintro ⟨r', cv, heq, hconv, hmeets⟩
        obtain rfl := Access.text.inj heq
        exact ⟨hconv, cv, hmeets⟩
      · rintro ⟨hconv, cv, hmeets⟩
        exact ⟨r, cv, rfl, hconv, hmeets⟩
    rw [hoverruns, GetDataClass.access]
    by_cases hbound : r.bound = true
    · rw [if_pos hbound]
      simpa [ConvertsValue, hbound] using convert_text_field_within hgdc (hfits r rfl)
    · rw [if_neg hbound]
      unfold beginRead
      by_cases hbegun : gdc.data_left = -2
      · -- all of the value has been delivered before
        rw [if_pos hbegun]
        have hnot : ¬ (ConvertsValue gdc r ∧ ∃ cv, MeetsExact loc conn gdc r cv) :=
          fun h => h.1.elim hbound fun h => h.2 hbegun
        by_cases hmax : 0 < r.cbValueMax
        · simp only [if_pos hmax, if_true]
          exact ⟨iff_of_true (within_nil _) hnot, allocated_none rfl⟩
        · simp only [if_neg hmax]
          have hgdc' : Allocated { gdc with data_left := -1 } := hgdc.congr rfl rfl
          obtain ⟨hwithin, hall⟩ := convert_text_field_within hgdc' (hfits r rfl)
          refine ⟨iff_of_true (hwithin.mpr ?_) hnot, hall⟩
          rintro ⟨-, cv, hmeets⟩
          exact hmax hmeets.wanted
      · rw [if_neg hbegun]
        by_cases hdone : gdc.data_left = 0
        · simp only [if_pos hdone]
          refine ⟨iff_of_true (within_nil _) fun h => ?_, allocated_none rfl⟩
          exact h.1.elim hbound fun h => by omega
        · simp only [if_neg hdone]
          simpa [ConvertsValue, hbound, hbegun] using convert_text_field_within hgdc (hfits r rfl)
  | other cbValueMax ok =>
    refine ⟨iff_of_true (within_nil _) fun h => ?_, ?_⟩
    · obtain ⟨r, cv, heq, -⟩ := h
      cases heq
    · have hbegin : ∀ gdc', beginRead gdc cbValueMax = some gdc' → Allocated gdc' := by
        intro gdc' h
        unfold beginRead at h
        dsimp only at h
        split_ifs at h
        all_goals
          obtain rfl := Option.some.inj h
          exact hgdc.congr rfl rfl
      unfold GetDataClass.access
      dsimp only
      split
      · exact allocated_none rfl
      · rename_i gdc' h
        split
        · exact (hbegin gdc' h).congr rfl rfl
        · exact hbegin gdc' h
  | reset =>
    refine ⟨iff_of_true (within_nil _) fun h => ?_, hgdc.congr rfl rfl⟩
    obtain ⟨r, cv, heq, -⟩ := h
    cases heq
  | release =>
    refine ⟨iff_of_true (within_nil _) fun h => ?_, allocated_none rfl⟩
    obtain ⟨r, cv, heq, -⟩ := h
    cases heq

/-- **Every write lies within the scratch buffer**, in a sequence of accesses to one
`GetDataClass`, exactly when no value read as binary data meets a buffer of just its length. -/
theorem scratch_writes_within_iff {l : List Access}
    (hfits : ∀ a ∈ l, ∀ r, a = .text r → FitsInt loc conn r) :
    (accesses loc conn).AllSteps (fun gdc a => Within (gdc.access loc conn a).2) .init l ↔
      (accesses loc conn).AllSteps (fun gdc a => ¬ Overruns loc conn gdc a) .init l := by
  suffices h : ∀ gdc, Allocated gdc →
      ((accesses loc conn).AllSteps (fun gdc a => Within (gdc.access loc conn a).2) gdc l ↔
        (accesses loc conn).AllSteps (fun gdc a => ¬ Overruns loc conn gdc a) gdc l) from
    h _ (allocated_none rfl)
  induction l with
  | nil => exact fun _ _ => Iff.rfl
  | cons a l ih =>
    intro gdc hgdc
    obtain ⟨hfirst, hrest⟩ := List.forall_mem_cons.mp hfits
    obtain ⟨hwithin, hall⟩ := access_within hgdc hfirst
    exact and_congr hwithin (ih hrest _ hall)

/-- A locale that converts nothing. -/
def noLocale : Locale := ⟨fun _ _ => .error (-2), fun _ _ => none⟩

/-- Four characters of a bound column, for a buffer of two. -/
def truncatedText : ColumnRead := ⟨true, ascii "abcd", PG_TYPE_VARCHAR, .char, 2⟩

/-- Binary data of a bound column, without escapes. -/
def plainBytea (data : List Byte) : ColumnRead := ⟨true, data, PG_TYPE_BYTEA, .binary, 10⟩

theorem convert_from_pgbinary_plain {value : List Byte} (h : BACKSLASH ∉ value) :
    convert_from_pgbinary false value = value := by
  induction value with
  | nil => rw [convert_from_pgbinary]
  | cons c value ih =>
    rw [List.mem_cons, not_or] at h
    rw [convert_from_pgbinary, if_neg (Ne.symm h.1), if_neg (by decide), ih h.2]

theorem fits_truncatedText : FitsInt noLocale sampleConn truncatedText := by
  intro cv h
  cases show Except.ok (ConvertedValue.linefeeds sampleConn (ascii "abcd")) = .ok cv from h
  decide

theorem convertValue_plainBytea {data : List Byte} (h : BACKSLASH ∉ data) :
    convertValue noLocale sampleConn PG_TYPE_BYTEA .binary data = .ok (.plain data data) := by
  have hplain : convertValue noLocale sampleConn PG_TYPE_BYTEA .binary data =
      .ok (.plain (convert_from_pgbinary false data) data) := rfl
  rw [hplain, convert_from_pgbinary_plain h]

theorem fits_plainBytea {data : List Byte} (h : BACKSLASH ∉ data) (hlen : data.length < 100) :
    FitsInt noLocale sampleConn (plainBytea data) := by
  intro cv hcv
  cases (convertValue_plainBytea h).symm.trans hcv
  change data.length + 0 + 1 < 2 ^ 31
  omega

theorem fits_truncated_then {data : List Byte} (h : BACKSLASH ∉ data) (hlen : data.length < 100) :
    ∀ a ∈ [Access.text truncatedText, .text (plainBytea data)], ∀ r, a = .text r →
      FitsInt noLocale sampleConn r := by
  intro a ha r hr
  rcases List.mem_cons.mp ha with rfl | ha
  · obtain rfl := Access.text.inj hr
    exact fits_truncatedText
  · rw [List.mem_singleton.mp ha] at hr
    obtain rfl := Access.text.inj hr
    exact fits_plainBytea h hlen

/-- The buffer that the truncated text leaves. -/
theorem access_truncatedText : ((accesses noLocale sampleConn).step .init (.text truncatedText)).1 =
    ⟨some 5, 5, 4, -1⟩ := by decide +kernel

/-- Three bytes are written into a buffer of five. -/
theorem scratch_writes_shorter :
    (accesses noLocale sampleConn).AllSteps
      (fun gdc a => Within (gdc.access noLocale sampleConn a).2) .init
      [.text truncatedText, .text (plainBytea (ascii "xyz"))] := by
  have hvalue : BACKSLASH ∉ ascii "xyz" := by decide
  refine (scratch_writes_within_iff (fits_truncated_then hvalue (by decide))).mpr ⟨?_, ?_, trivial⟩
  · rintro ⟨r, cv, heq, -, h⟩
    obtain rfl := Access.text.inj heq
    cases h.binary
  · rintro ⟨r, cv, heq, -, h⟩
    obtain rfl := Access.text.inj heq
    cases (convertValue_plainBytea hvalue).symm.trans h.value
    have hbuf := h.buffer
    rw [access_truncatedText] at hbuf
    exact absurd hbuf (by decide)

/-- Five bytes and a terminator are written into a buffer of five, which has been allocated for
four characters and theirs. -/
theorem scratch_writes_past_text :
    (∀ a ∈ [Access.text truncatedText, .text (plainBytea (ascii "vwxyz"))], ∀ r, a = .text r →
      FitsInt noLocale sampleConn r) ∧
    ¬ (accesses noLocale sampleConn).AllSteps
      (fun gdc a => Within (gdc.access noLocale sampleConn a).2) .init
      [.text truncatedText, .text (plainBytea (ascii "vwxyz"))] := by
  refine ⟨fits_truncated_then (by decide) (by decide), fun h => ?_⟩
  have hmeets : MeetsExact noLocale sampleConn ⟨some 5, 5, 4, -1⟩ (plainBytea (ascii "vwxyz"))
      (.plain (ascii "vwxyz") (ascii "vwxyz")) :=
    ⟨convertValue_plainBytea (by decide), rfl, by decide, .inl rfl, rfl, rfl, fun h => by cases h⟩
  have hgdc : Allocated ⟨some 5, 5, 4, -1⟩ := by
    intro a ha
    obtain rfl := Option.some.inj ha
    exact ⟨by decide, by decide, by decide⟩
  have hwithin : Within (GetDataClass.access noLocale sampleConn ⟨some 5, 5, 4, -1⟩
      (.text (plainBytea (ascii "vwxyz")))).2 := access_truncatedText ▸ h.2.1
  refine (access_within hgdc fun r hr => ?_).1.mp hwithin ⟨_, _, rfl, .inl rfl, hmeets⟩
  obtain rfl := Access.text.inj hr
  exact fits_plainBytea (by decide) (by decide)

end Runs

end OdbcDriver
