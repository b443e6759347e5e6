import OdbcDriver.GetData.PieceRules

/-!
# A value in pieces, over a run

A run of calls on a statement answers what the reader answers, as long as every call goes right: the
value that is begun is converted as a whole, and one that has been begun is continued as the same
type with a buffer of some bytes. So the pieces of a value, whatever the sizes of the buffers are,
put together are the value, and every call reports what has not been delivered before it.
-/

namespace OdbcDriver.Pieces

variable {loc : Locale} {conn : ConnectionClass}

/-! ### One call on a statement -/

/-- The column that `SQLGetData` finds when it has been made the current one. -/
def StatementClass.found (s : StatementClass) (icol : Nat) : Column :=
  if s.current_col = some icol then s.gdata icol else .reset

/-- A call that goes right. The columns of a row that is fetched without its data are left as they
are, so none of them may have been begun. -/
def Fine (loc : Locale) (conn : ConnectionClass) (s : StatementClass) : Call → Prop
  | .getData icol q => ∀ row, s.row = some row → ∀ r, q.read (row icol) = some r →
      FineRead loc conn (s.found icol).gdc r
  | .fetch (some _) retrieve_data bookmark =>
    retrieve_data = true ∨ bookmark = true ∨ ∀ icol, (s.found icol).gdc.data_left = -1
  | _ => True

/-- The columns of the row keep what the reader keeps. -/
structure Keeps (s : StatementClass) (t : Reader) : Prop where
  row : s.row = t.row
  stands : ∀ row, s.row = some row → ∀ icol, Stands (s.found icol) (row icol) (t.progress icol)

section Call

variable {s : StatementClass} {t : Reader} {icol : Nat}

theorem SC_set_current_col_gdata (s : StatementClass) (icol : Nat) :
    (SC_set_current_col s (some icol)).gdata icol = s.found icol := by
  unfold SC_set_current_col StatementClass.found
  by_cases h : s.current_col = some icol
  · rw [if_pos h.symm, if_pos h]
  · rw [if_neg (Ne.symm h), if_neg h]
    exact Function.update_self icol _ _

theorem SC_set_current_col_current (s : StatementClass) (col : Option Nat) :
    (SC_set_current_col s col).current_col = col := by
  unfold SC_set_current_col
  split
  · next h => exact h.symm
  · rfl

theorem SC_set_current_col_row (s : StatementClass) (col : Option Nat) :
    (SC_set_current_col s col).row = s.row := by
  unfold SC_set_current_col
  split <;> rfl

/-- The only column that is not reset is the current one. -/
theorem found_of_ne (h : s.current_col ≠ some icol) : s.found icol = .reset :=
  if_neg h

theorem progress_reading {row : Option Row} {p : Progress} {icol c : Nat} :
    (⟨row, some (icol, p)⟩ : Reader).progress c = if icol = c then some p else none := by
  unfold Reader.progress
  rw [Option.filter_some]
  by_cases h : icol = c
  · rw [if_pos h, if_pos (decide_eq_true h)]
    rfl
  · rw [if_neg h, if_neg (by simpa using h)]
    rfl

theorem progress_begun (row : Option Row) (p : Option Progress) (icol c : Nat) :
    (⟨row, p.map (icol, ·)⟩ : Reader).progress c = if icol = c then p else none := by
  cases p with
  | none => exact (ite_self none).symm
  | some p => exact progress_reading

theorem progress_bound (t : Reader) (icol c : Nat) :
    ({ t with reading := t.reading.filter (·.1 ≠ icol) } : Reader).progress c =
      if icol = c then none else t.progress c := by
  obtain ⟨row, _ | ⟨i, p⟩⟩ := t
  · exact (ite_self none).symm
  · dsimp only
    rw [Option.filter_some, progress_reading]
    by_cases hi : i = icol
    · rw [if_neg (by simpa using hi), hi]
      by_cases hc : icol = c
      · rw [if_pos hc]
        rfl
      · rw [if_neg hc, if_neg hc]
        rfl
    · rw [if_pos (by simpa using hi), progress_reading]
      by_cases hc : icol = c
      · rw [if_pos hc, if_neg (hc ▸ hi)]
      · rw [if_neg hc]

/-- The columns when one of them has been read. -/
theorem found_read (s : StatementClass) (icol c : Nat) (col : Column) :
    ({ SC_set_current_col s (some icol) with
        gdata := Function.update (SC_set_current_col s (some icol)).gdata icol col } :
      StatementClass).found c = if icol = c then col else .reset := by
  unfold StatementClass.found
  rw [SC_set_current_col_current]
  by_cases h : icol = c
  · subst h
    rw [if_pos rfl, if_pos rfl]
    exact Function.update_self icol _ _
  · rw [if_neg (fun hc => h (Option.some.inj hc)), if_neg h]

/-- The columns when one of them has been bound. -/
theorem found_bound (s : StatementClass) (icol c : Nat) (col : Column) :
    ({ s with gdata := Function.update s.gdata icol col } : StatementClass).found c =
      if icol = c then (if s.current_col = some c then col else .reset) else s.found c := by
  unfold StatementClass.found
  by_cases h : icol = c
  · subst h
    dsimp only
    rw [if_pos rfl, Function.update_self]
  · dsimp only
    rw [if_neg h, Function.update_of_ne (Ne.symm h)]

/-- `SQLGetData` -/
theorem keeps_getData {q : Request} (h : Keeps s t) (hfine : Fine loc conn s (.getData icol q)) :
    Keeps (s.call loc conn (.getData icol q)).1 (t.call loc conn (.getData icol q)).1 ∧
      (s.call loc conn (.getData icol q)).2 = (t.call loc conn (.getData icol q)).2 := by
  cases hrow : s.row with
  | none =>
    have hcall : s.call loc conn (.getData icol q) = (s, some ⟨.generalError, none, []⟩) := by
      unfold StatementClass.call PGAPI_GetData
      rw [hrow]
      rfl
    have hread : t.call loc conn (.getData icol q) = (t, some ⟨.generalError, none, []⟩) := by
      unfold Reader.call
      dsimp only
      rw [← h.row, hrow]
    rw [hcall, hread]
    exact ⟨h, rfl⟩
  | some row =>
    obtain ⟨hstands, hanswer⟩ := column_read (h.stands row hrow icol) (hfine row hrow)
    obtain ⟨col, a, hcol⟩ : ∃ col a, copy_and_convert_field loc conn (s.found icol) (row icol) q =
        (col, a) := ⟨_, _, rfl⟩
    obtain ⟨p, b, hval⟩ : ∃ p b, readValue loc conn (row icol) q (t.progress icol) = (p, b) :=
      ⟨_, _, rfl⟩
    rw [hcol, hval] at hstands hanswer
    have hcall : s.call loc conn (.getData icol q) =
        ({ SC_set_current_col s (some icol) with
            gdata := Function.update (SC_set_current_col s (some icol)).gdata icol col },
          some a) := by
      unfold StatementClass.call PGAPI_GetData
      rw [hrow]
      dsimp only
      rw [SC_set_current_col_gdata, hcol]
      rfl
    have hread : t.call loc conn (.getData icol q) =
        (⟨t.row, p.map (icol, ·)⟩, some b) := by
      unfold Reader.call
      dsimp only
      rw [← h.row, hrow]
      dsimp only
      rw [hval]
    rw [hcall, hread]
    refine ⟨⟨(SC_set_current_col_row s _).trans h.row, fun row' hrow' c => ?_⟩,
      congrArg some hanswer⟩
    obtain rfl : row = row' :=
      Option.some.inj (hrow.symm.trans ((SC_set_current_col_row s _).symm.trans hrow'))
    dsimp only
    rw [progress_begun, found_read]
    by_cases hc : icol = c
    · subst hc
      rw [if_pos rfl, if_pos rfl]
      exact hstands
    · rw [if_neg hc, if_neg hc]
      rfl

/-- The columns of a row whose data is fetched. -/
theorem begun_found (icol : Nat) :
    (({ s with gdata := fun c => (s.gdata c).begun } : StatementClass).found icol).gdc.data_left =
      -1 := by
  unfold StatementClass.found
  split <;> rfl

/-- **One call.** The statement goes on keeping what the reader keeps, and they answer alike. -/
theorem keeps_call {c : Call} (h : Keeps s t) (hfine : Fine loc conn s c) :
    Keeps (s.call loc conn c).1 (t.call loc conn c).1 ∧
      (s.call loc conn c).2 = (t.call loc conn c).2 := by
  cases c with
  | getData icol q => exact keeps_getData h hfine
  | fetch row retrieve_data bookmark =>
    cases row with
    | none => exact ⟨⟨rfl, nofun⟩, rfl⟩
    | some row =>
      refine ⟨⟨rfl, fun _ _ c => ?_⟩, rfl⟩
      cases retrieve_data with
      | true => exact begun_found c
      | false =>
        cases bookmark with
        | true =>
          have hne : (SC_set_current_col s none).current_col ≠ some c := by
            rw [SC_set_current_col_current]
            exact nofun
          exact congrArg (fun col : Column => col.gdc.data_left) (found_of_ne hne)
        | false =>
          have hskipped := (hfine.resolve_left nofun).resolve_left nofun
          exact hskipped c
  | setPos row => exact ⟨⟨rfl, fun _ _ c => begun_found c⟩, rfl⟩
  | close => exact ⟨⟨rfl, nofun⟩, rfl⟩
  | bindCol icol unbind =>
    refine ⟨⟨h.row, fun row hrow c => ?_⟩, rfl⟩
    have hstands := h.stands row hrow c
    have hcall : (s.call loc conn (.bindCol icol unbind)).1 =
        { s with
          gdata := Function.update s.gdata icol
            (if unbind then .reset else (s.gdata icol).begun) } := rfl
    have hread : (t.call loc conn (.bindCol icol unbind)).1 =
        { t with reading := t.reading.filter (·.1 ≠ icol) } := rfl
    rw [hcall, hread, found_bound, progress_bound]
    by_cases hc : icol = c
    · rw [if_pos hc, if_pos hc]
      split
      · cases unbind with
        | true => rfl
        | false => rfl
      · rfl
    · rw [if_neg hc, if_neg hc]
      exact hstands

end Call

/-! ### Runs -/

section Runs

variable {l : List Call} {row : Row} {retrieve_data bookmark : Bool} {icol : Nat}
  {qs : List Request} {f : Field} {fCType : TargetType} {rest bytes : List Byte}
  {neut_str : List Byte} {cv : ConvertedValue}

theorem follows_reader (h : (driver loc conn).AllSteps (Fine loc conn) .init l) :
    Keeps ((driver loc conn).final .init l) ((reader loc conn).final .init l) ∧
      (driver loc conn).outputs .init l = (reader loc conn).outputs .init l :=
  Machine.lockstep (R := Keeps) (fun _ _ _ hkeeps hfine => keeps_call hkeeps hfine)
    ⟨rfl, fun _ h => nomatch h⟩ h

/-- The bytes of the value that the application finds in its buffer: those in front of the
terminator, if the buffer has not been large enough. -/
def received (fCType : TargetType) (q : Request) (a : Answer) : List Byte :=
  a.stored.take (if a.result = .truncated then
    get_adjust_len fCType (q.cbValueMax - get_terminator_len fCType) else (a.length.getD 0).toNat)

/-- As many bytes of a value as the buffers have room for. -/
def room (fCType : TargetType) (qs : List Request) : Nat :=
  (qs.map fun q => get_adjust_len fCType (q.cbValueMax - get_terminator_len fCType)).sum

/-- The pieces put together are the beginning of the value that the buffers have room for. A call
that is answered otherwise than with `SQL_NO_DATA` reports what has not been delivered before it,
and one that does not report a truncation ends the value. -/
structure Delivered (fCType : TargetType) (bytes : List Byte) (qs : List Request)
    (answers : List Answer) : Prop where
  pieces : (List.zipWith (received fCType) qs answers).flatten = bytes.take (room fCType qs)
  length : ∀ (k : Nat) (a : Answer), answers[k]? = some a → a.result = .noData ∨
    a.length = some ((bytes.length - room fCType (qs.take k) : Nat) : Int)
  ends : ∀ (k : Nat) (a : Answer), answers[k]? = some a → a.result ≠ .truncated →
    bytes.length ≤ room fCType (qs.take (k + 1))

/-- The answers to several requests for one value. -/
def readSome (loc : Locale) (conn : ConnectionClass) (f : Field) :
    Option Progress → List Request → List Answer
  | _, [] => []
  | p, q :: qs => (readValue loc conn f q p).2 :: readSome loc conn f (readValue loc conn f q p).1 qs

theorem reader_outputs {t : Reader} (hrow : t.row = some row) :
    (reader loc conn).outputs t (qs.map (.getData icol)) =
      (readSome loc conn (row icol) (t.progress icol) qs).map some := by
  induction qs generalizing t with
  | nil => rfl
  | cons q qs ih =>
    obtain ⟨p, a, hval⟩ : ∃ p a, readValue loc conn (row icol) q (t.progress icol) = (p, a) :=
      ⟨_, _, rfl⟩
    have hcall : (reader loc conn).step t (.getData icol q) =
        (⟨t.row, p.map (icol, ·)⟩, some a) := by
      change t.call loc conn (.getData icol q) = _
      unfold Reader.call
      dsimp only
      rw [hrow]
      dsimp only
      rw [hval]
    have hrest := @ih ⟨t.row, p.map (icol, ·)⟩ hrow
    rw [progress_begun, if_pos rfl] at hrest
    rw [List.map_cons, Machine.outputs_cons, hcall, readSome, hval, List.map_cons]
    exact congrArg (some a :: ·) hrest

/-- The wide characters of a value are whole. -/
def Whole (fCType : TargetType) (bytes : List Byte) : Prop :=
  fCType = .wchar → WCLEN ∣ bytes.length

theorem piece_eq_adjusted {cbValueMax : Nat} (hwhole : Whole fCType rest) :
    piece fCType cbValueMax rest =
      rest.take (get_adjust_len fCType (cbValueMax - get_terminator_len fCType)) := by
  unfold piece
  split
  · next hfits =>
    refine (List.take_of_length_le ?_).symm
    cases fCType with
    | char => exact Nat.le_sub_of_add_le hfits
    | binary => exact hfits
    | wchar =>
      obtain ⟨n, hn⟩ := hwhole rfl
      have hle : rest.length ≤ cbValueMax - get_terminator_len .wchar :=
        Nat.le_sub_of_add_le hfits
      rw [hn] at hle ⊢
      calc WCLEN * n = WCLEN * n / WCLEN * WCLEN := by
            rw [Nat.mul_div_cancel_left n (by decide), Nat.mul_comm]
        _ ≤ get_adjust_len .wchar (cbValueMax - get_terminator_len .wchar) :=
            Nat.mul_le_mul_right _ (Nat.div_le_div_right hle)
  · rfl

theorem Whole.drop (h : Whole fCType rest) (len : Nat) :
    Whole fCType (rest.drop (get_adjust_len fCType len)) := by
  rintro rfl
  rw [List.length_drop]
  exact Nat.dvd_sub (h rfl) (Nat.dvd_mul_left _ _)

theorem room_cons (fCType : TargetType) (q : Request) (qs : List Request) :
    room fCType (q :: qs) =
      get_adjust_len fCType (q.cbValueMax - get_terminator_len fCType) + room fCType qs := by
  rw [room, List.map_cons, List.sum_cons, room]

/-- One piece, and those behind it. -/
theorem Delivered.cons {q : Request} {a : Answer} {answers : List Answer}
    (hreceived : received fCType q a =
      bytes.take (get_adjust_len fCType (q.cbValueMax - get_terminator_len fCType)))
    (hlength : a.length = some (bytes.length : Int))
    (hends : a.result ≠ .truncated →
      bytes.length ≤ get_adjust_len fCType (q.cbValueMax - get_terminator_len fCType))
    (h : Delivered fCType
      (bytes.drop (get_adjust_len fCType (q.cbValueMax - get_terminator_len fCType))) qs answers) :
    Delivered fCType bytes (q :: qs) (a :: answers) := by
  refine ⟨?_, fun k b hb => ?_, fun k b hb hnot => ?_⟩
  · rw [List.zipWith_cons_cons, List.flatten_cons, hreceived, h.pieces, room_cons, List.take_add]
  · cases k with
    | zero =>
      obtain rfl := Option.some.inj hb
      exact .inr hlength
    | succ k =>
      refine (h.length k b hb).imp_right fun hlen => ?_
      rw [hlen, List.take_succ_cons, room_cons, List.length_drop, Nat.sub_sub]
  · cases k with
    | zero =>
      obtain rfl := Option.some.inj hb
      rw [List.take_succ_cons, room_cons]
      exact (hends hnot).trans (Nat.le_add_right _ _)
    | succ k =>
      have := h.ends k b hb hnot
      rw [List.length_drop] at this
      rw [List.take_succ_cons, room_cons]
      omega

/-- When the value has been delivered, there is no more of it. -/
theorem delivered_nothing {p : Progress} (hp : p = .whole ∨ p = .told)
    (hqs : ∀ q ∈ qs, 0 < q.cbValueMax) :
    Delivered fCType [] qs (readSome loc conn f (some p) qs) := by
  induction qs generalizing p with
  | nil => exact ⟨rfl, nofun, nofun⟩
  | cons q qs ih =>
    obtain ⟨hq, hqs⟩ := List.forall_mem_cons.mp hqs
    have hval : readValue loc conn f q (some p) = (some .told, ⟨.noData, none, []⟩) := by
      rcases hp with rfl | rfl
      · rfl
      · exact if_neg (by omega)
    have hrest := ih (.inr rfl) hqs
    rw [readSome, hval]
    refine ⟨?_, fun k b hb => ?_, fun k b hb _ => Nat.zero_le _⟩
    · rw [List.zipWith_cons_cons, List.flatten_cons, hrest.pieces, List.take_nil, List.take_nil]
      rfl
    · cases k with
      | zero =>
        obtain rfl := Option.some.inj hb
        exact .inl rfl
      | succ k =>
        refine (hrest.length k b hb).imp_right fun hlen => ?_
        rw [hlen, List.length_nil, Nat.zero_sub, Nat.zero_sub]

/-- What is left of a value. -/
theorem delivered_rest (hwhole : Whole fCType rest)
    (hqs : ∀ q ∈ qs, q.target f.field_type = some fCType ∧ 0 < q.cbValueMax ∧ q.pcbValue = true) :
    Delivered fCType rest qs (readSome loc conn f (some (.part rest)) qs) := by
  induction qs generalizing rest with
  | nil => exact ⟨rfl, nofun, nofun⟩
  | cons q qs ih =>
    obtain ⟨⟨ht, -, hpcb⟩, hqs⟩ := List.forall_mem_cons.mp hqs
    obtain ⟨len, hlen⟩ : ∃ len,
        len = get_adjust_len fCType (q.cbValueMax - get_terminator_len fCType) := ⟨_, rfl⟩
    have hpiece : piece fCType q.cbValueMax rest = rest.take len := by
      rw [hlen]
      exact piece_eq_adjusted hwhole
    have hval : readValue loc conn f q (some (.part rest)) =
        (readPiece fCType q rest).map some id := by
      unfold readValue
      dsimp only
      rw [ht]
    have hanswer := (readPiece_answer fCType q rest).trans (if_pos hpcb)
    rw [readSome, hval]
    refine Delivered.cons ?_ ?_ ?_ ?_
    · rw [← hlen, ← hpiece]
      dsimp only [Prod.map, id]
      rw [hanswer, received]
      by_cases hfits : rest.length + get_terminator_len fCType ≤ q.cbValueMax
      · have hall : piece fCType q.cbValueMax rest = rest := if_pos hfits
        rw [if_pos hfits, if_neg nofun, hall]
        exact List.take_left
      · have hle := get_adjust_len_le fCType (q.cbValueMax - get_terminator_len fCType)
        have hlength : (piece fCType q.cbValueMax rest).length = len := by
          rw [hpiece, List.length_take]
          omega
        rw [if_neg hfits, if_pos rfl, ← hlen, ← hlength]
        exact List.take_left
    · dsimp only [Prod.map, id]
      rw [hanswer]
    · dsimp only [Prod.map, id]
      rw [hanswer, ← hlen]
      intro hnot
      have hfits : rest.length + get_terminator_len fCType ≤ q.cbValueMax := by
        by_contra h
        exact hnot (if_neg h)
      have hall : rest.take len = rest := hpiece.symm.trans (if_pos hfits)
      exact (List.take_eq_self_iff _).mp hall
    · have hprogress : (Prod.map some id (readPiece fCType q rest)).1 =
          some (if rest.length ≤ len then .whole else .part (rest.drop len)) := by
        change some (readPiece fCType q rest).1 = _
        rw [readPiece_progress, hpiece, List.length_take]
        by_cases hle : rest.length ≤ len
        · rw [if_pos hle, if_pos (Nat.min_eq_right hle)]
        · rw [if_neg hle, if_neg (by omega), Nat.min_eq_left (by omega)]
      rw [hprogress, ← hlen]
      split
      · next hle =>
        rw [List.drop_of_length_le hle]
        exact delivered_nothing (.inl rfl) fun q hq => (hqs q hq).2.1
      · rw [hlen]
        exact ih (hwhole.drop _) hqs

end Runs

/-! ### A word in three buffers -/

/-- A row of words. -/
def wordRow : Row := fun _ => ⟨PG_TYPE_VARCHAR, some (ascii "abcde")⟩

/-- A buffer of three bytes. -/
def threeBytes : Request := ⟨some .char, 3, true, false⟩

def wordCalls : List Call :=
  [] ++ [.fetch (some wordRow) true false] ++
    [threeBytes, threeBytes, threeBytes].map (.getData 1)

theorem fineRead_word {gdc : GetDataClass}
    (h : 0 < gdc.data_left → gdc.ttlbuflen = gdc.ttlbufused + 1) :
    FineRead noLocale sampleConn gdc ⟨false, ascii "abcde", PG_TYPE_VARCHAR, .char, 3⟩ := by
  refine ⟨fun _ _ => ⟨fun cv hcv => ?_, nofun⟩, ?_, fun _ => by decide, h⟩
  · cases show Except.ok (ConvertedValue.linefeeds sampleConn (ascii "abcde")) = .ok cv from hcv
    decide
  · rintro ⟨r, cv, heq, -, hmeets⟩
    obtain rfl := Access.text.inj heq
    cases hmeets.binary

theorem read_word {row : Row} {r : ColumnRead} (hrow : some wordRow = some row)
    (hr : threeBytes.read (row 1) = some r) :
    r = ⟨false, ascii "abcde", PG_TYPE_VARCHAR, .char, 3⟩ := by
  obtain rfl := Option.some.inj hrow
  exact (Option.some.inj hr).symm

/-- What the column keeps behind the first two pieces. -/
theorem word_columns :
    (((driver noLocale sampleConn).final .init (wordCalls.take 2)).found 1).gdc =
        ⟨some 6, 6, 5, 3⟩ ∧
      (((driver noLocale sampleConn).final .init (wordCalls.take 3)).found 1).gdc =
        ⟨some 6, 6, 5, 1⟩ := by
  decide +kernel

theorem fine_word :
    (driver noLocale sampleConn).AllSteps (Fine noLocale sampleConn) .init wordCalls := by
  refine ⟨.inl rfl, fun row hrow r hr => ?_, fun row hrow r hr => ?_, fun row hrow r hr => ?_,
    trivial⟩
  · rw [read_word hrow hr]
    exact fineRead_word fun h => absurd h (by decide)
  · rw [read_word hrow hr]
    exact fineRead_word fun _ => congrArg GetDataClass.ttlbuflen word_columns.1
  · rw [read_word hrow hr]
    exact fineRead_word fun _ => congrArg GetDataClass.ttlbuflen word_columns.2

end OdbcDriver.Pieces
