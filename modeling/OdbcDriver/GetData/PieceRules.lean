import OdbcDriver.GetData.NewLines
import OdbcDriver.GetData.Pieces

/-!
# One call of SQLGetData

Between two calls the end of the scratch buffer is what is left of the value. Here one call is
compared with `readValue`, which keeps what is left and nothing else. They agree when a value that
has been begun is continued with a buffer of some bytes and as the type it was begun as, and when
the conversion that begins a value leaves all of it in the scratch buffer.
-/

namespace OdbcDriver.Pieces

open CInt (wrap)

variable {loc : Locale} {conn : ConnectionClass}

/-! ### What a conversion leaves -/

section Scratch

variable {r : ColumnRead} {cv : ConvertedValue} {max : Nat}

/-- Where nothing has been changed, what is written is a beginning of the text. -/
theorem linefeedsLoop_unchanged {convlf : Bool} {out : Nat} {prev : Option Byte} {si : List Byte}
    (h : (linefeedsLoop convlf max prev out si).2 = false) :
    (linefeedsLoop convlf max prev out si).1 <+: si := by
  induction si generalizing prev out with
  | nil => exact List.prefix_rfl
  | cons c si ih =>
    rw [linefeedsLoop] at h ⊢
    by_cases hfull : out < max - 1
    · rw [if_neg (not_not.mpr hfull)] at h ⊢
      split at h
      · cases h
      · rename_i hlf
        rw [if_neg hlf]
        exact List.cons_prefix_cons.mpr ⟨rfl, ih h⟩
    · rw [if_pos hfull]
      exact List.nil_prefix

theorem length_le_expandLines (convlf : Bool) (prev : Option Byte) (si : List Byte) :
    si.length ≤ (expandLines convlf prev si).length := by
  induction si generalizing prev with
  | nil => exact Nat.zero_le _
  | cons c si ih =>
    have := ih (some c)
    rw [expandLines]
    split_ifs <;> simp only [List.length_cons] <;> omega

/-- A text that has no line feed to expand is the value. -/
theorem linefeeds_unchanged {text : List Byte}
    (hsmall : (ConvertedValue.linefeeds conn text).bytes.length < 2 ^ 31)
    (h : (ConvertedValue.linefeeds conn text).changed = false) :
    (ConvertedValue.linefeeds conn text).bytes = text := by
  have hle : (convert_linefeeds text 0 conn.lf_conversion).1 <+: text := linefeedsLoop_unchanged h
  have hall : (convert_linefeeds text 0 conn.lf_conversion).1 = _ := convert_linefeeds_zero hsmall
  refine hle.eq_of_length (le_antisymm hle.length_le ?_)
  rw [hall]
  exact length_le_expandLines _ _ _

/-- All of a text is written where there is room for it. -/
theorem convert_linefeeds_room {text : List Byte}
    (hsmall : (ConvertedValue.linefeeds conn text).bytes.length < 2 ^ 31)
    (hroom : (ConvertedValue.linefeeds conn text).bytes.length < max) :
    (convert_linefeeds text max conn.lf_conversion).1 =
      (ConvertedValue.linefeeds conn text).bytes := by
  have hall : (ConvertedValue.linefeeds conn text).bytes = _ := convert_linefeeds_zero hsmall
  rw [hall] at hroom ⊢
  have hmax : (if max = 0 then 0xffffffff else max) = max := if_neg (by omega)
  rw [convert_linefeeds, hmax]
  exact linefeedsLoop_room (by rwa [Nat.zero_add])

/-- A value that goes into the application's buffer as it is, is its text. -/
theorem bytes_of_unchanged (h : convertValue loc conn r.field_type r.fCType r.neut_str = .ok cv)
    (hsmall : cv.bytes.length < 2 ^ 31) (hsame : cv.changed = false) : cv.bytes = cv.text := by
  unfold convertValue at h
  dsimp only at h
  split_ifs at h
  · cases h
    cases hsame
  · split at h
    · cases h
      cases hsame
    · cases h
  · cases h
    cases hsame
  · cases hloc : loc.localize (byteaProcess r.field_type r.fCType r.neut_str).2
        conn.lf_conversion with
    | error e =>
      rw [hloc] at h
      cases h
    | ok localized =>
      rw [hloc] at h
      cases h
      cases hsame
  · cases h
    cases hsame
  · cases h
    cases hsame
  · cases h
    exact linefeeds_unchanged hsmall hsame

/-- What is read as binary data and is not copied, is decoded or converted to the locale. -/
theorem decoded_or_localized {field_type : Oid} (h : copiedAsBinary conn field_type = false)
    (text : List Byte) : (byteaProcess field_type .binary text).1 = .binary ∨
      ((byteaProcess field_type .binary text).1 = .none ∧ conn.convtype = true ∧
        isLocalized field_type = true) ∧
      ((!conn.same_encoding) = true ∨ conn.wcs_debug = true) := by
  rw [byteaProcess_binary]
  by_cases hbytea : filed_is_bytea field_type = true
  · exact .inl (if_pos hbytea)
  · rw [copiedAsBinary, Bool.eq_false_iff.mpr hbytea, Bool.not_false, Bool.true_and,
      Bool.not_eq_false', Bool.and_eq_true, Bool.and_eq_true, Bool.or_eq_true] at h
    exact .inr ⟨⟨if_neg hbytea, h.1⟩, h.2⟩

/-- The last write of a conversion begins with the value, where the buffer has room for it. -/
theorem scratchWrites_last (h : convertValue loc conn r.field_type r.fCType r.neut_str = .ok cv)
    (hroom : cv.bytes.length < max ∨ r.fCType = .wchar ∨
      (r.fCType = .binary ∧ copiedAsBinary conn r.field_type = false))
    (hsmall : cv.bytes.length < 2 ^ 31) :
    ∃ ws w, scratchWrites loc conn r max = ws ++ [w] ∧ cv.bytes <+: w := by
  unfold convertValue at h
  unfold scratchWrites
  dsimp only at h ⊢
  by_cases hwide : r.fCType = .wchar
  · simp only [if_pos hwide] at h ⊢
    split at h
    · rename_i hkind
      cases h
      rw [if_pos hkind]
      exact ⟨[_], _, rfl, List.prefix_append _ _⟩
    · rename_i hkind
      rw [if_neg hkind]
      split at h
      · rename_i hhybrid
        rw [if_pos hhybrid]
        split at h
        · rename_i wide hw
          cases h
          refine ⟨[], wide ++ [0, 0], ?_, List.prefix_append _ _⟩
          simp [hw]
        · cases h
      · rename_i hhybrid
        cases h
        rw [if_neg hhybrid]
        exact ⟨[], _, rfl, List.prefix_rfl⟩
  · simp only [if_neg hwide] at h ⊢
    split at h
    · rename_i hlocal
      rw [if_pos hlocal]
      cases hloc : loc.localize (byteaProcess r.field_type r.fCType r.neut_str).2
          conn.lf_conversion with
      | error e =>
        rw [hloc] at h
        cases h
      | ok localized =>
        rw [hloc] at h
        cases h
        exact ⟨[], _, rfl, List.prefix_append _ _⟩
    · rename_i hlocal
      rw [if_neg hlocal]
      split at h
      · rename_i hkind
        cases h
        rw [if_pos hkind]
        exact ⟨[], _, rfl, List.prefix_append _ _⟩
      · rename_i hkind
        rw [if_neg hkind]
        split at h
        · rename_i hescape
          cases h
          rw [if_pos hescape]
          exact ⟨[_], _, rfl, List.prefix_append _ _⟩
        · rename_i hescape
          cases h
          rw [if_neg hescape]
          refine ⟨[], _, rfl, ?_⟩
          rcases hroom with hroom | hroom | ⟨hbin, hcopied⟩
          · rw [convert_linefeeds_room hsmall hroom]
            exact List.prefix_append _ _
          · exact absurd hroom hwide
          · rw [hbin] at hkind hlocal
            exact absurd (decoded_or_localized hcopied r.neut_str) (not_or.mpr ⟨hkind, hlocal⟩)

/-- What stands in the buffer behind the writes of a conversion. -/
theorem take_foldl_scratchWrites
    (h : convertValue loc conn r.field_type r.fCType r.neut_str = .ok cv)
    (hroom : cv.bytes.length < max ∨ r.fCType = .wchar ∨
      (r.fCType = .binary ∧ copiedAsBinary conn r.field_type = false))
    (hsmall : cv.bytes.length < 2 ^ 31) (buffer : List Byte) :
    ((scratchWrites loc conn r max).foldl overwrite buffer).take cv.bytes.length = cv.bytes := by
  obtain ⟨ws, w, hws, t, rfl⟩ := scratchWrites_last h hroom hsmall
  rw [hws, List.foldl_append, List.foldl_cons, List.foldl_nil, overwrite, List.append_assoc]
  exact List.take_left

end Scratch

/-! ### A value that is begun -/

section SetUp

variable {gdc : GetDataClass} {r : ColumnRead} {cv : ConvertedValue}

/-- The value goes through the scratch buffer. -/
def Through (cv : ConvertedValue) (r : ColumnRead) : Prop :=
  cv.changed = true ∨ r.cbValueMax < cv.bytes.length + get_terminator_len r.fCType

/-- What `setup_getdataclass` leaves when a value has been converted. -/
structure Converted (loc : Locale) (conn : ConnectionClass) (gdc : GetDataClass) (r : ColumnRead)
    (cv : ConvertedValue) (s : SetUp) : Prop where
  value : s.value = some (cv.bytes.length,
    ((cv.bytes.length + get_terminator_len r.fCType : Nat) : Int))
  data_left : s.gdc.data_left = gdc.data_left
  direct : ¬ Through cv r → s.gdc.ttlbuf = none
  used : Through cv r → s.gdc.ttlbufused = cv.bytes.length
  recorded : Through cv r → cv.bytes.length + get_terminator_len r.fCType ≤ s.gdc.ttlbuflen
  buffer : Through cv r → 0 < cv.bytes.length → s.gdc.ttlbuf.isSome = true
  writes : Through cv r → s.gdc.ttlbuf.isSome = true →
    s.writes = scratchWrites loc conn r s.gdc.ttlbuflen

theorem setup_converted (hfits : FitsInt loc conn r)
    (h : convertValue loc conn r.field_type r.fCType r.neut_str = .ok cv)
    (hmax : r.cbValueMax ≠ 0) :
    Converted loc conn gdc r cv (setup_getdataclass loc conn gdc r) := by
  have hsmall := hfits cv h
  have hneed : wrap 32 ((cv.bytes.length : Int) + get_terminator_len r.fCType) =
      ((cv.bytes.length + get_terminator_len r.fCType : Nat) : Int) := by
    unfold wrap
    omega
  unfold setup_getdataclass
  rw [h]
  dsimp only
  rw [if_neg hmax, hneed]
  have hthrough : (cv.changed = true ∨
      (r.cbValueMax : Int) < ((cv.bytes.length + get_terminator_len r.fCType : Nat) : Int)) ↔
        Through cv r := or_congr_right Nat.cast_lt
  set gdc₁ := if gdc.ttlbuf = none then { gdc with ttlbuflen := 0 } else gdc with hgdc₁
  have hleft : gdc₁.data_left = gdc.data_left := by
    rw [hgdc₁]
    split <;> rfl
  have hnone : gdc₁.ttlbuf = none → gdc₁.ttlbuflen = 0 := by
    rw [hgdc₁]
    split
    · exact fun _ => rfl
    · exact fun h => absurd h ‹_›
  by_cases hstored : Through cv r
  · rw [if_pos (hthrough.mpr hstored)]
    by_cases halloc : (gdc₁.ttlbuflen : Int) <
        ((cv.bytes.length + get_terminator_len r.fCType : Nat) : Int)
    · rw [if_pos halloc]
      exact ⟨rfl, hleft, fun h => absurd hstored h, fun _ => rfl, fun _ => le_rfl, fun _ _ => rfl,
        fun _ _ => rfl⟩
    · rw [if_neg halloc]
      have hle : cv.bytes.length + get_terminator_len r.fCType ≤ gdc₁.ttlbuflen := by omega
      refine ⟨rfl, hleft, fun h => absurd hstored h, fun _ => rfl, fun _ => hle, ?_, ?_⟩
      · -- a buffer that is not there would have to be allocated
        intro _ hpos
        refine Option.isSome_iff_ne_none.mpr fun h => ?_
        have := hnone h
        omega
      · intro _ hsome
        exact if_neg (Option.isSome_iff_ne_none.mp hsome)
  · rw [if_neg (mt hthrough.mp hstored)]
    exact ⟨rfl, hleft, fun _ => rfl, fun h => absurd h hstored, fun h => absurd h hstored,
      fun h => absurd h hstored, fun h => absurd h hstored⟩

end SetUp

/-! ### A piece -/

section Piece

variable {fCType : TargetType} {cbValueMax : Nat} {rest : List Byte}

theorem get_adjust_len_le (fCType : TargetType) (len : Nat) : get_adjust_len fCType len ≤ len := by
  cases fCType with
  | wchar => exact Nat.div_mul_le_self len WCLEN
  | char => exact le_rfl
  | binary => exact le_rfl

theorem piece_eq_take : piece fCType cbValueMax rest =
    rest.take (piece fCType cbValueMax rest).length := by
  unfold piece
  split
  · exact List.take_length.symm
  · rw [List.length_take]
    exact List.take_eq_take_min

theorem length_piece_le : (piece fCType cbValueMax rest).length ≤ rest.length := by
  rw [piece_eq_take]
  exact List.length_take_le' _ _

/-- The bytes that are copied are the piece. -/
theorem copyLen_eq : copyLen fCType cbValueMax rest.length =
    (piece fCType cbValueMax rest).length := by
  have hle := get_adjust_len_le fCType (cbValueMax - get_terminator_len fCType)
  unfold copyLen piece
  by_cases hfits : rest.length + get_terminator_len fCType ≤ cbValueMax
  · rw [if_pos hfits]
    split_ifs with hroom
    · have : rest.length = 0 := by omega
      rw [this]
      rfl
    · omega
    · rfl
  · rw [if_neg hfits, List.length_take]
    split_ifs with hroom
    · have : get_adjust_len fCType (cbValueMax - get_terminator_len fCType) = 0 := by omega
      rw [this, Nat.zero_min]
      rfl
    · omega
    · omega

/-- The bytes before `used` end with what is left of a value. -/
structure EndsWith (ptr : List Byte) (used : Nat) (rest : List Byte) : Prop where
  le : rest.length ≤ used
  eq : (ptr.drop (used - rest.length)).take rest.length = rest

theorem EndsWith.whole {ptr : List Byte} (h : ptr.take rest.length = rest) :
    EndsWith ptr rest.length rest :=
  ⟨le_rfl, by rwa [Nat.sub_self, List.drop_zero]⟩

/-- When a beginning has been delivered. -/
theorem EndsWith.drop {ptr : List Byte} {used : Nat} (h : EndsWith ptr used rest) {n : Nat}
    (hn : n ≤ rest.length) : EndsWith ptr used (rest.drop n) := by
  have hle := h.le
  refine ⟨by rw [List.length_drop]; omega, ?_⟩
  have hat : used - (rest.drop n).length = used - rest.length + n := by
    rw [List.length_drop]
    omega
  rw [hat, ← List.drop_drop, List.length_drop, ← List.drop_take, h.eq]

end Piece

section Copy

variable {col : Column} {r : ColumnRead} {ptr rest : List Byte} {len : Nat} {needbuflen : Int}

/-- What a column keeps when a piece has been delivered. -/
def Column.delivers (col : Column) (r : ColumnRead) (rest : List Byte) : Column :=
  ⟨if rest.length + get_terminator_len r.fCType ≤ r.cbValueMax then
      { col.gdc with ttlbuf := none, data_left := 0 }
    else
      { col.gdc with
        data_left := (rest.length - (piece r.fCType r.cbValueMax rest).length : Nat) },
    col.ttlbuf⟩

theorem deliver_eq (hbound : r.bound = false) (hpos : 0 < r.cbValueMax)
    (hleft : left col.gdc len = rest.length)
    (hneed : needed col.gdc needbuflen = (rest.length + get_terminator_len r.fCType : Nat)) :
    deliver col.gdc r len needbuflen = (col.delivers r rest).gdc := by
  have hcopy := @copyLen_eq r.fCType r.cbValueMax rest
  have hle := @length_piece_le r.fCType r.cbValueMax rest
  unfold copyLen at hcopy
  unfold left at hleft
  unfold needed at hneed
  unfold deliver Column.delivers
  simp only [hbound, Bool.not_false, true_and, Bool.false_eq_true, if_false]
  rw [hleft, hneed, hcopy]
  by_cases hfits : rest.length + get_terminator_len r.fCType ≤ r.cbValueMax
  · rw [if_pos hfits, if_neg (by omega)]
  · rw [if_neg hfits, if_pos (by omega), Nat.cast_sub hle]

/-- One piece. -/
theorem copyPiece_eq (hbound : r.bound = false) (hpos : 0 < r.cbValueMax)
    (hleft : left col.gdc len = rest.length)
    (hneed : needed col.gdc needbuflen = (rest.length + get_terminator_len r.fCType : Nat))
    (hptr : EndsWith ptr len rest) :
    copyPiece col r ptr len needbuflen =
      (col.delivers r rest,
        { result := if rest.length + get_terminator_len r.fCType ≤ r.cbValueMax then .ok
            else .truncated
          length := some rest.length
          stored := piece r.fCType r.cbValueMax rest ++
            terminator r.fCType r.cbValueMax (piece r.fCType r.cbValueMax rest).length }) := by
  have hstored : (ptr.drop (len - rest.length)).take (piece r.fCType r.cbValueMax rest).length =
      piece r.fCType r.cbValueMax rest := by
    calc (ptr.drop (len - rest.length)).take (piece r.fCType r.cbValueMax rest).length
      _ = ((ptr.drop (len - rest.length)).take rest.length).take
            (piece r.fCType r.cbValueMax rest).length := by
          rw [List.take_take, Nat.min_eq_left length_piece_le]
      _ = piece r.fCType r.cbValueMax rest := by
          rw [hptr.eq]
          exact piece_eq_take.symm
  have hresult : (if 0 < r.cbValueMax ∧ (r.cbValueMax : Int) < needed col.gdc needbuflen then
      CopyResult.truncated else .ok) =
        if rest.length + get_terminator_len r.fCType ≤ r.cbValueMax then .ok else .truncated := by
    rw [hneed]
    split_ifs <;> first | rfl | omega
  have hat : ((len : Int) - (rest.length : Int)).toNat = len - rest.length := by omega
  unfold copyPiece
  dsimp only
  rw [deliver_eq hbound hpos hleft hneed, hresult, hleft, copyLen_eq, Int.toNat_natCast, hat,
    hstored]
  rfl

end Copy

/-! ### One call -/

/-- The read of a text or of binary data that a request is. -/
def Request.read (q : Request) (f : Field) : Option ColumnRead :=
  f.value.bind fun neut_str => (q.target f.field_type).map fun fCType =>
    ⟨false, neut_str, f.field_type, fCType, q.cbValueMax⟩

/-- The end of the buffer is what is left of the value. -/
structure HoldsRest (col : Column) (f : Field) (rest : List Byte) : Prop where
  value : f.value.isSome = true
  ne : rest ≠ []
  data_left : col.gdc.data_left = rest.length
  buffer : col.gdc.ttlbuf.isSome = true
  ends : EndsWith col.ttlbuf col.gdc.ttlbufused rest

/-- What a column keeps is what has become of its value. -/
def Stands (col : Column) (f : Field) : Option Progress → Prop
  | none => col.gdc.data_left = -1
  | some (.part rest) => HoldsRest col f rest
  | some .whole => col.gdc.data_left = 0
  | some .told => col.gdc.data_left = -2

/-- A value that is begun fits in an `int`, and a text that is read as binary data goes into the
application's buffer as it is. In the scratch buffer its last byte would be lost. -/
structure Begins (loc : Locale) (conn : ConnectionClass) (r : ColumnRead) : Prop where
  fits : FitsInt loc conn r
  copied : r.fCType = .binary → copiedAsBinary conn r.field_type = true → ∀ cv,
    convertValue loc conn r.field_type r.fCType r.neut_str = .ok cv → ¬ Through cv r

/-- A read that goes right. -/
structure FineRead (loc : Locale) (conn : ConnectionClass) (gdc : GetDataClass) (r : ColumnRead) :
    Prop where
  begins : gdc.data_left = -1 → 0 < r.cbValueMax → Begins loc conn r
  /-- Nothing is written behind the scratch buffer. -/
  within : ¬ Overruns loc conn gdc (.text r)
  /-- A value is not continued with a buffer of no bytes, -/
  wanted : 0 < gdc.data_left → 0 < r.cbValueMax
  /-- but as the type it was begun as, when the buffer was allocated for it. -/
  recorded : 0 < gdc.data_left → gdc.ttlbuflen = gdc.ttlbufused + get_terminator_len r.fCType

section Call

variable {col : Column} {f : Field} {q : Request} {r : ColumnRead} {rest : List Byte}

theorem readPiece_progress (fCType : TargetType) (q : Request) (rest : List Byte) :
    (readPiece fCType q rest).1 =
      if (piece fCType q.cbValueMax rest).length = rest.length then .whole
      else .part (rest.drop (piece fCType q.cbValueMax rest).length) :=
  rfl

/-- What a column keeps behind a piece. -/
theorem delivers_stands (hvalue : f.value.isSome = true) (hmax : r.cbValueMax = q.cbValueMax)
    (hkeep : r.cbValueMax < rest.length + get_terminator_len r.fCType → rest ≠ [] →
      col.gdc.ttlbuf.isSome = true ∧ EndsWith col.ttlbuf col.gdc.ttlbufused rest) :
    Stands (if (if rest.length + get_terminator_len r.fCType ≤ r.cbValueMax then CopyResult.ok
        else .truncated) = .ok then
        { col.delivers r rest with gdc := { (col.delivers r rest).gdc with data_left := 0 } }
      else col.delivers r rest) f (some (readPiece r.fCType q rest).1) := by
  have hle := @length_piece_le r.fCType r.cbValueMax rest
  rw [readPiece_progress, ← hmax]
  by_cases hfits : rest.length + get_terminator_len r.fCType ≤ r.cbValueMax
  · have hwhole : piece r.fCType r.cbValueMax rest = rest := if_pos hfits
    rw [if_pos (if_pos hfits), if_pos (congrArg List.length hwhole)]
    rfl
  · rw [if_neg (by rw [if_neg hfits]; simp)]
    by_cases hall : (piece r.fCType r.cbValueMax rest).length = rest.length
    · rw [if_pos hall]
      simp only [Stands, Column.delivers, if_neg hfits, hall, Nat.sub_self, Nat.cast_zero]
    · rw [if_neg hall]
      have hne : rest ≠ [] := by
        rintro rfl
        exact hall (Nat.le_zero.mp hle)
      obtain ⟨hsome, hends⟩ := hkeep (by omega) hne
      simp only [Stands, Column.delivers, if_neg hfits]
      refine ⟨hvalue, fun h => hall ?_, ?_, hsome, hends.drop hle⟩
      · have := List.drop_eq_nil_iff.mp h
        omega
      · rw [List.length_drop]

theorem beginRead_of_ne {gdc : GetDataClass} {cbValueMax : Nat} (htold : gdc.data_left ≠ -2)
    (hwhole : gdc.data_left ≠ 0) : beginRead gdc cbValueMax = some gdc := by
  unfold beginRead
  dsimp only
  rw [if_neg htold, if_neg hwhole]

theorem beginRead_whole {gdc : GetDataClass} {cbValueMax : Nat} (h : gdc.data_left = 0) :
    beginRead gdc cbValueMax = none := by
  simp [beginRead, h]

theorem beginRead_told {gdc : GetDataClass} {cbValueMax : Nat} (h : gdc.data_left = -2) :
    beginRead gdc cbValueMax =
      if 0 < cbValueMax then none else some { gdc with data_left := -1 } := by
  rw [beginRead, if_pos h]
  by_cases hmax : 0 < cbValueMax
  · rw [if_pos hmax, if_pos hmax]
    rfl
  · rw [if_neg hmax, if_neg hmax]
    rfl

/-- A value that is read as a text or as binary data. -/
theorem copy_and_convert_text {gdc : GetDataClass} (hr : q.read f = some r)
    (hbegin : beginRead col.gdc q.cbValueMax = some gdc) :
    copy_and_convert_field loc conn col f q =
      let (col, a) := convert_text_field loc conn ⟨gdc, col.ttlbuf⟩ r
      (if a.result = .ok then { col with gdc := { col.gdc with data_left := 0 } } else col,
        if q.pcbValue then a else { a with length := none }) := by
  obtain ⟨neut_str, hv, hr⟩ := Option.bind_eq_some_iff.mp hr
  obtain ⟨fCType, ht, rfl⟩ := Option.map_eq_some_iff.mp hr
  unfold copy_and_convert_field
  rw [hbegin, hv]
  dsimp only
  rw [ht]

/-- The answer with a piece. -/
theorem readPiece_answer (fCType : TargetType) (q : Request) (rest : List Byte) :
    (readPiece fCType q rest).2 =
      if q.pcbValue then
        { result := if rest.length + get_terminator_len fCType ≤ q.cbValueMax then .ok
            else .truncated
          length := some rest.length
          stored := piece fCType q.cbValueMax rest ++
            terminator fCType q.cbValueMax (piece fCType q.cbValueMax rest).length }
      else
        { result := if rest.length + get_terminator_len fCType ≤ q.cbValueMax then .ok
            else .truncated
          length := none
          stored := piece fCType q.cbValueMax rest ++
            terminator fCType q.cbValueMax (piece fCType q.cbValueMax rest).length } := by
  cases h : q.pcbValue with
  | true => simp only [readPiece, h, if_true]
  | false => simp only [readPiece, h, Bool.false_eq_true, if_false]

/-- A value that has been begun. -/
theorem continued_read (hst : HoldsRest col f rest)
    (hfine : ∀ r, q.read f = some r → FineRead loc conn col.gdc r) :
    Stands (copy_and_convert_field loc conn col f q).1 f
        (readValue loc conn f q (some (.part rest))).1 ∧
      (copy_and_convert_field loc conn col f q).2 =
        (readValue loc conn f q (some (.part rest))).2 := by
  obtain ⟨neut_str, hv⟩ := Option.isSome_iff_exists.mp hst.value
  have hpos : 0 < col.gdc.data_left := by
    have := List.length_pos_iff.mpr hst.ne
    rw [hst.data_left]
    omega
  have hbegin : beginRead col.gdc q.cbValueMax = some col.gdc :=
    beginRead_of_ne (by omega) (by omega)
  cases ht : q.target f.field_type with
  | none =>
    unfold copy_and_convert_field readValue readFixed
    rw [hbegin, hv]
    dsimp only
    rw [ht]
    dsimp only
    split
    · exact ⟨rfl, rfl⟩
    · exact ⟨hst, rfl⟩
  | some fCType =>
    obtain ⟨r, hr⟩ : ∃ r : ColumnRead, r = ⟨false, neut_str, f.field_type, fCType, q.cbValueMax⟩ :=
      ⟨_, rfl⟩
    have hread : q.read f = some r := by
      rw [Request.read, hv, Option.bind_some, ht, Option.map_some, hr]
    have hfine := hfine r hread
    have hleft : left col.gdc col.gdc.ttlbufused = rest.length := by
      rw [left, if_pos hpos, hst.data_left]
    have hneed : needed col.gdc 0 = (rest.length + get_terminator_len r.fCType : Nat) := by
      rw [needed, if_pos hpos, hst.data_left, hfine.recorded hpos]
      omega
    have hmax : r.cbValueMax = q.cbValueMax := by rw [hr]
    have htype : r.fCType = fCType := by rw [hr]
    have hcopy : convert_text_field loc conn col r = _ := (if_neg (by omega)).trans
      (copyPiece_eq (by rw [hr]) (hfine.wanted hpos) hleft hneed hst.ends)
    have hvalue : readValue loc conn f q (some (.part rest)) =
        (readPiece r.fCType q rest).map some id := by
      unfold readValue
      dsimp only
      rw [ht, htype]
    rw [copy_and_convert_text hread hbegin, hcopy, hvalue]
    refine ⟨delivers_stands hst.value hmax fun _ _ => ⟨hst.buffer, hst.ends⟩, ?_⟩
    rw [hmax]
    exact (readPiece_answer r.fCType q rest).symm

/-- A value that is begun as a text or as binary data, when it is not converted. -/
theorem beginValue_error {code : Int} (hr : q.read f = some r)
    (hcv : convertValue loc conn r.field_type r.fCType r.neut_str = .error code) :
    beginValue loc conn f q =
      (none, ⟨.invalidString, if q.pcbValue then some code else none, []⟩) := by
  obtain ⟨neut_str, hv, hr⟩ := Option.bind_eq_some_iff.mp hr
  obtain ⟨fCType, ht, rfl⟩ := Option.map_eq_some_iff.mp hr
  simp only [beginValue, hv, ht, hcv]

/-- And when it is. -/
theorem beginValue_ok {cv : ConvertedValue} (hr : q.read f = some r)
    (hcv : convertValue loc conn r.field_type r.fCType r.neut_str = .ok cv) :
    beginValue loc conn f q =
      if r.cbValueMax = 0 then
        (none, ⟨.truncated, if q.pcbValue then some cv.bytes.length else none, []⟩)
      else (readPiece r.fCType q cv.bytes).map some id := by
  obtain ⟨neut_str, hv, hr⟩ := Option.bind_eq_some_iff.mp hr
  obtain ⟨fCType, ht, rfl⟩ := Option.map_eq_some_iff.mp hr
  simp only [beginValue, hv, ht, hcv]

/-- A value that has been converted is delivered from the buffer, or as its text. -/
theorem convert_text_converted {cv : ConvertedValue} (hleft : col.gdc.data_left = -1)
    (hbound : r.bound = false) (hmax : r.cbValueMax ≠ 0) (hfine : Begins loc conn r)
    (hcv : convertValue loc conn r.field_type r.fCType r.neut_str = .ok cv) :
    ∃ col' : Column,
      (r.cbValueMax < cv.bytes.length + get_terminator_len r.fCType → cv.bytes ≠ [] →
        col'.gdc.ttlbuf.isSome = true ∧ EndsWith col'.ttlbuf col'.gdc.ttlbufused cv.bytes) ∧
      convert_text_field loc conn col r =
        (col'.delivers r cv.bytes,
          { result := if cv.bytes.length + get_terminator_len r.fCType ≤ r.cbValueMax then .ok
              else .truncated
            length := some cv.bytes.length
            stored := piece r.fCType r.cbValueMax cv.bytes ++
              terminator r.fCType r.cbValueMax (piece r.fCType r.cbValueMax cv.bytes).length }) := by
  have hsmall := hfine.fits cv hcv
  have hset := @setup_converted loc conn col.gdc r cv hfine.fits hcv hmax
  obtain ⟨s, hs⟩ : ∃ s, s = setup_getdataclass loc conn col.gdc r := ⟨_, rfl⟩
  rw [← hs] at hset
  have hnot : ¬ 0 < s.gdc.data_left := by
    rw [hset.data_left, hleft]
    decide
  -- what the writes leave in the buffer
  have hbuffer (hthrough : Through cv r) (hsome : s.gdc.ttlbuf.isSome = true) :
      (s.writes.foldl overwrite col.ttlbuf).take cv.bytes.length = cv.bytes := by
    have hroom := hset.recorded hthrough
    rw [hset.writes hthrough hsome]
    refine take_foldl_scratchWrites hcv ?_ (by omega) _
    cases htype : r.fCType with
    | char =>
      rw [htype] at hroom
      exact .inl hroom
    | wchar => exact .inr (.inl rfl)
    | binary =>
      refine .inr (.inr ⟨rfl, ?_⟩)
      by_contra hcopied
      exact hfine.copied htype (by simpa using hcopied) cv hcv hthrough
  have hptr : EndsWith (if s.gdc.ttlbuf.isSome then s.writes.foldl overwrite col.ttlbuf
      else cv.text) cv.bytes.length cv.bytes := by
    refine EndsWith.whole ?_
    by_cases hthrough : Through cv r
    · by_cases hsome : s.gdc.ttlbuf.isSome = true
      · rw [if_pos hsome]
        exact hbuffer hthrough hsome
      · have hnil : cv.bytes = [] := by
          by_contra hne
          exact hsome (hset.buffer hthrough (List.length_pos_iff.mpr hne))
        rw [hnil]
        rfl
    · have hsame : cv.changed = false := by
        by_contra h
        exact hthrough (.inl (by simpa using h))
      rw [hset.direct hthrough, bytes_of_unchanged hcv (by omega) hsame]
      exact List.take_length
  refine ⟨⟨s.gdc, s.writes.foldl overwrite col.ttlbuf⟩, fun hlt hne => ?_, ?_⟩
  · have hthrough : Through cv r := .inr hlt
    have hsome := hset.buffer hthrough (List.length_pos_iff.mpr hne)
    refine ⟨hsome, ?_⟩
    dsimp only
    rw [hset.used hthrough]
    exact EndsWith.whole (hbuffer hthrough hsome)
  · unfold convert_text_field
    rw [if_pos (by omega), hcv, ← hs]
    dsimp only
    rw [hset.value]
    exact copyPiece_eq hbound (Nat.pos_of_ne_zero hmax) (if_neg hnot) (if_neg hnot) hptr

theorem begun_text {gdc : GetDataClass} (hleft : gdc.data_left = -1)
    (hbegin : beginRead col.gdc q.cbValueMax = some gdc) (hr : q.read f = some r)
    (hfine : 0 < r.cbValueMax → Begins loc conn r) :
    Stands (copy_and_convert_field loc conn col f q).1 f (beginValue loc conn f q).1 ∧
      (copy_and_convert_field loc conn col f q).2 = (beginValue loc conn f q).2 := by
  obtain ⟨hvalue, hmax, hbound⟩ : f.value.isSome = true ∧ r.cbValueMax = q.cbValueMax ∧
      r.bound = false := by
    obtain ⟨neut_str, hv, hr⟩ := Option.bind_eq_some_iff.mp hr
    obtain ⟨fCType, -, rfl⟩ := Option.map_eq_some_iff.mp hr
    exact ⟨Option.isSome_iff_exists.mpr ⟨_, hv⟩, rfl, rfl⟩
  have hneg : (⟨gdc, col.ttlbuf⟩ : Column).gdc.data_left < 0 := by
    dsimp only
    omega
  rw [copy_and_convert_text hr hbegin]
  cases hcv : convertValue loc conn r.field_type r.fCType r.neut_str with
  | error code =>
    have hconv : convert_text_field loc conn ⟨gdc, col.ttlbuf⟩ r =
        (⟨gdc, col.ttlbuf⟩, ⟨.invalidString, some code, []⟩) := by
      unfold convert_text_field setup_getdataclass
      rw [if_pos hneg, hcv]
      rfl
    rw [hconv, beginValue_error hr hcv]
    exact ⟨hleft, by dsimp only; split <;> rfl⟩
  | ok cv =>
    by_cases hpos : r.cbValueMax = 0
    · have hconv : convert_text_field loc conn ⟨gdc, col.ttlbuf⟩ r =
          (⟨gdc, col.ttlbuf⟩, ⟨.truncated, some cv.bytes.length, []⟩) := by
        unfold convert_text_field setup_getdataclass
        rw [if_pos hneg, hcv]
        dsimp only
        rw [if_pos hpos]
        rfl
      rw [hconv, beginValue_ok hr hcv, if_pos hpos]
      dsimp only
      exact ⟨hleft, by split <;> rfl⟩
    · obtain ⟨col', hkeep, hconv⟩ := @convert_text_converted loc conn ⟨gdc, col.ttlbuf⟩ r cv hleft
        hbound hpos (hfine (Nat.pos_of_ne_zero hpos)) hcv
      rw [hconv, beginValue_ok hr hcv, if_neg hpos]
      refine ⟨delivers_stands hvalue hmax hkeep, ?_⟩
      rw [hmax]
      exact (readPiece_answer r.fCType q cv.bytes).symm

/-- A value that is begun. -/
theorem begun_read {gdc : GetDataClass} (hleft : gdc.data_left = -1)
    (hbegin : beginRead col.gdc q.cbValueMax = some gdc)
    (hfine : ∀ r, q.read f = some r → 0 < r.cbValueMax → Begins loc conn r) :
    Stands (copy_and_convert_field loc conn col f q).1 f (beginValue loc conn f q).1 ∧
      (copy_and_convert_field loc conn col f q).2 = (beginValue loc conn f q).2 := by
  cases hv : f.value with
  | none =>
    unfold copy_and_convert_field beginValue
    rw [hbegin, hv]
    dsimp only
    exact ⟨hleft, by split <;> rfl⟩
  | some neut_str =>
    cases ht : q.target f.field_type with
    | none =>
      unfold copy_and_convert_field beginValue readFixed
      rw [hbegin, hv]
      dsimp only
      rw [ht]
      dsimp only
      split
      · exact ⟨rfl, rfl⟩
      · exact ⟨hleft, rfl⟩
    | some fCType =>
      have hr : q.read f = some ⟨false, neut_str, f.field_type, fCType, q.cbValueMax⟩ := by
        rw [Request.read, hv, Option.bind_some, ht, Option.map_some]
      exact begun_text hleft hbegin hr (hfine _ hr)

/-- **One call.** A column keeps what has become of its value, and the answers agree. -/
theorem column_read {p : Option Progress} (hst : Stands col f p)
    (hfine : ∀ r, q.read f = some r → FineRead loc conn col.gdc r) :
    Stands (copy_and_convert_field loc conn col f q).1 f (readValue loc conn f q p).1 ∧
      (copy_and_convert_field loc conn col f q).2 = (readValue loc conn f q p).2 := by
  have hdelivered (h : beginRead col.gdc q.cbValueMax = none) :
      copy_and_convert_field loc conn col f q =
        (⟨delivered col.gdc, col.ttlbuf⟩, ⟨.noData, none, []⟩) := by
    unfold copy_and_convert_field
    rw [h]
  match p, hst with
  | none, hst =>
    have hst : col.gdc.data_left = -1 := hst
    exact begun_read hst (beginRead_of_ne (by omega) (by omega)) fun r hr =>
      (hfine r hr).begins hst
  | some (.part rest), hst => exact continued_read hst hfine
  | some .whole, hst =>
    rw [hdelivered (beginRead_whole hst)]
    exact ⟨rfl, rfl⟩
  | some .told, hst =>
    have hst : col.gdc.data_left = -2 := hst
    by_cases hmax : 0 < q.cbValueMax
    · have hvalue : readValue loc conn f q (some .told) =
          (some .told, ⟨.noData, none, []⟩) := if_neg (by omega)
      rw [hdelivered ((beginRead_told hst).trans (if_pos hmax)), hvalue]
      exact ⟨rfl, rfl⟩
    · -- only the length is asked for
      have hvalue : readValue loc conn f q (some .told) = beginValue loc conn f q :=
        if_pos (by omega)
      rw [hvalue]
      refine begun_read rfl ((beginRead_told hst).trans (if_neg hmax)) fun r hr hpos => ?_
      obtain ⟨_, _, hr⟩ := Option.bind_eq_some_iff.mp hr
      obtain ⟨_, _, rfl⟩ := Option.map_eq_some_iff.mp hr
      exact absurd hpos hmax

end Call

end OdbcDriver.Pieces
