import OdbcDriver.Connect.Attributes
import OdbcDriver.Lib.CInt
import OdbcDriver.Lib.LastMark

/-!
# The completed connection string

`PGAPI_DriverConnect` gives the application the connection string that `makeConnectString` has
completed. A string that does not fit is to be cut at the end of an attribute: behind the copy the
buffer is cleared from its end down to the last semicolon.

* `clearBack_eq`: what the loop leaves;
* `completed_string_iff`: the strings and buffers for which the application finds whole attributes.
-/

namespace OdbcDriver.Connect

open CString LastMark

/-- `MAX_CONNECT_STRING` -/
def MAX_CONNECT_STRING : ℕ := 4096

/-- `RETCODE`, as the function returns it. -/
inductive Retcode
  | SQL_SUCCESS
  | SQL_SUCCESS_WITH_INFO
  | SQL_ERROR
deriving DecidableEq, Repr

/-- `CONN_TRUNCATED` -/
def CONN_TRUNCATED : ℤ := -2

/-- `CONN_INVALID_ARGUMENT_NO` -/
def CONN_INVALID_ARGUMENT_NO : ℤ := 206

/-- What `CC_set_error` records. -/
structure ConnError where
  number : ℤ
  message : List Byte
deriving DecidableEq, Repr

/-- The buffer is too small. -/
def truncatedError : ConnError :=
  ⟨CONN_TRUNCATED, ascii "The buffer was too small for the ConnStrOut."⟩

/-- The length of the buffer is negative. -/
def lengthError : ConnError :=
  ⟨CONN_INVALID_ARGUMENT_NO, ascii "The ConnStrOut buffer length is invalid."⟩

/-- The output arguments: a buffer, if there is one, of the length that is given. -/
structure Output where
  szConnStrOut : Option (List Byte)
  cbConnStrOutMax : ℤ
  length_eq : ∀ buf ∈ szConnStrOut, buf.length = cbConnStrOutMax.toNat

/-- What the function leaves. -/
structure Completion where
  result : Retcode
  szConnStrOut : Option (List Byte)
  pcbConnStrOut : Option ℤ
  error : Option ConnError
deriving DecidableEq, Repr

/-! ### The driver -/

/-- `strncpy` to the start of a buffer. -/
def strncpy (dst src : List Byte) (n : ℕ) : Except Fault (List Byte) :=
  if n ≤ dst.length then
    .ok (src.take n ++ List.replicate (n - src.length) 0 ++ dst.drop n)
  else .error .beyond

/-- The loop that goes down from the end of the buffer to a semicolon, from `clen - 1` on. -/
def clearBack (szConnStrOut : List Byte) : ℕ → Except Fault (List Byte)
  | 0 => .ok szConnStrOut
  | clen + 1 =>
    match CString.read szConnStrOut clen with
    | .error e => .error e
    | .ok c =>
      if c = ATTRIBUTE_DELIMITER then .ok szConnStrOut
      else clearBack (szConnStrOut.set clen 0) clen

/-- The string copied to the buffer and cut if it does not fit. -/
def copyOut (connStrOut szConnStrOut : List Byte) (cbConnStrOutMax : ℤ) :
    Except Fault (List Byte) :=
  match
    if 0 < cbConnStrOutMax then strncpy szConnStrOut connStrOut cbConnStrOutMax.toNat
    else .ok szConnStrOut with
  | .error e => .error e
  | .ok buf =>
    if cbConnStrOutMax ≤ connStrOut.length then clearBack buf cbConnStrOutMax.toNat else .ok buf

/-- `PGAPI_DriverConnect` with what `CC_connect` has returned and `makeConnectString` has
written. -/
def PGAPI_DriverConnect (retval : ℤ) (connStrOut : List Byte) (out : Output) :
    Except Fault Completion :=
  if out.szConnStrOut.isSome ∧ out.cbConnStrOutMax < 0 then
    .ok ⟨.SQL_ERROR, out.szConnStrOut, none, some lengthError⟩
  else
    let result := if retval = 1 then Retcode.SQL_SUCCESS else .SQL_SUCCESS_WITH_INFO
    let len := CInt.wrap 16 connStrOut.length
    match out.szConnStrOut with
    | none => .ok ⟨result, none, some len, none⟩
    | some szConnStrOut =>
      match copyOut connStrOut szConnStrOut out.cbConnStrOutMax with
      | .error e => .error e
      | .ok buf =>
        if out.cbConnStrOutMax ≤ connStrOut.length then
          .ok ⟨.SQL_SUCCESS_WITH_INFO, some buf, some len, some truncatedError⟩
        else .ok ⟨result, some buf, some len, none⟩

/-! ### What the application should find -/

/-- Attributes with semicolons between them. -/
def joinedAttributes (attributes : List (List Byte)) : List Byte :=
  [ATTRIBUTE_DELIMITER].intercalate attributes

/-- A completed string: the attributes it is made of, the last of which is empty if a semicolon ends
the string. -/
structure Completed where
  attributes : List (List Byte)
  nul_free : 0 ∉ joinedAttributes attributes
  length_lt : (joinedAttributes attributes).length < MAX_CONNECT_STRING

/-- The string itself. -/
def Completed.text (c : Completed) : List Byte := joinedAttributes c.attributes

/-- A text that holds some of the attributes from the first on, perhaps with the semicolon behind
them. -/
def AtBoundary (attributes : List (List Byte)) (t : List Byte) : Prop :=
  ∃ front back, attributes = front ++ back ∧
    (t = joinedAttributes front ∨
      front ≠ [] ∧ back ≠ [] ∧ t = joinedAttributes front ++ [ATTRIBUTE_DELIMITER])

/-- The buffer takes the string with its terminator. -/
def Roomy (c : Completed) (out : Output) : Prop := (c.text.length : ℤ) < out.cbConnStrOutMax

/-- What the application should find. -/
structure Found (retval : ℤ) (c : Completed) (out : Output) (r : Completion) : Prop where
  terminated : ∀ buf ∈ r.szConnStrOut, 0 ∈ buf
  whole_attributes : ∀ buf ∈ r.szConnStrOut, AtBoundary c.attributes (text buf 0)
  complete : Roomy c out → ∀ buf ∈ r.szConnStrOut, text buf 0 = c.text
  reported : r.pcbConnStrOut = some (c.text.length : ℤ)
  truncation : r.error = some truncatedError ↔ out.szConnStrOut.isSome ∧ ¬ Roomy c out
  success : r.result = .SQL_SUCCESS ↔ retval = 1 ∧ r.error = none

/-- The function ends, and a buffer of a negative length is refused and left as it is. -/
def Right (retval : ℤ) (c : Completed) (out : Output) : Prop :=
  ∃ r, PGAPI_DriverConnect retval c.text out = .ok r ∧
    (out.szConnStrOut.isSome ∧ out.cbConnStrOutMax < 0 ∧ r.result = .SQL_ERROR ∧
        r.szConnStrOut = out.szConnStrOut ∨
      Found retval c out r)

/-! ### The loop -/

/-- The loop keeps the part up to its last semicolon and clears what is behind it. -/
theorem clearBack_eq (l z : List Byte) :
    clearBack (l ++ z) l.length =
      .ok (upToLast ATTRIBUTE_DELIMITER l ++
        List.replicate (l.length - (upToLast ATTRIBUTE_DELIMITER l).length) 0 ++ z) := by
  induction l using List.reverseRecOn generalizing z with
  | nil => rfl
  | append_singleton l x ih =>
    have hbuf : l ++ [x] ++ z = l ++ x :: z := by simp
    have hread : CString.read (l ++ [x] ++ z) l.length = .ok x := read_eq hbuf rfl
    have hlength : (l ++ [x]).length = l.length + 1 := by simp
    rw [hlength, clearBack, hread]
    dsimp only
    split
    · rename_i hx
      rw [hx, upToLast_mark]
      simp
    · rename_i hx
      have hset : (l ++ [x] ++ z).set l.length 0 = l ++ 0 :: z := set_eq hbuf rfl 0
      have hle := (prefix_upToLast ATTRIBUTE_DELIMITER l).length_le
      rw [hset, ih, upToLast_other hx, Nat.succ_sub hle, List.replicate_succ']
      simp

/-- What a string leaves that does not fit. -/
theorem copyOut_cut {s buf : List Byte} {n : ℕ} (hbuf : buf.length = n) (hn : n ≤ s.length) :
    copyOut s buf n =
      .ok (upToLast ATTRIBUTE_DELIMITER (s.take n) ++
        List.replicate (n - (upToLast ATTRIBUTE_DELIMITER (s.take n)).length) 0) := by
  have hlength : (s.take n).length = n := by rw [List.length_take, Nat.min_eq_left hn]
  have hclear := clearBack_eq (s.take n) []
  rw [List.append_nil, List.append_nil, hlength] at hclear
  rw [copyOut]
  rcases Nat.eq_zero_or_pos n with rfl | hpos
  · rw [List.length_eq_zero_iff] at hbuf
    rw [hbuf]
    rfl
  · have hcopy : strncpy buf s n = .ok (s.take n) := by
      rw [strncpy, if_pos hbuf.ge, Nat.sub_eq_zero_of_le hn, List.drop_of_length_le hbuf.le]
      simp
    rw [if_pos (by omega), Int.toNat_natCast, hcopy]
    dsimp only
    rw [if_pos (by omega), hclear]

/-- What a string leaves that fits. -/
theorem copyOut_whole {s buf : List Byte} {n : ℕ} (hbuf : buf.length = n) (hn : s.length < n) :
    copyOut s buf n = .ok (s ++ List.replicate (n - s.length) 0) := by
  have hcopy : strncpy buf s n = .ok (s ++ List.replicate (n - s.length) 0) := by
    rw [strncpy, if_pos hbuf.ge, List.take_of_length_le hn.le, List.drop_of_length_le hbuf.le,
      List.append_nil]
  rw [copyOut, if_pos (by omega), Int.toNat_natCast, hcopy]
  dsimp only
  rw [if_neg (by omega)]

/-! ### The buffer -/

/-- A string with terminators behind it is what is read from the buffer. -/
theorem text_padded {t : List Byte} (ht : 0 ∉ t) (k : ℕ) :
    text (t ++ List.replicate k 0) 0 = t := by
  have htake : t.takeWhile (fun b => decide (b ≠ 0)) = t := by
    rw [List.takeWhile_eq_self_iff]
    intro b hb
    exact decide_eq_true fun h => ht (h ▸ hb)
  have hzeros : (List.replicate k (0 : Byte)).takeWhile (fun b => decide (b ≠ 0)) = [] := by
    cases k with
    | zero => rfl
    | succ k => rfl
  rw [text, List.drop_zero, List.takeWhile_append, htake, if_pos rfl, hzeros, List.append_nil]

/-- A buffer that is full of a string has no terminator. -/
theorem zero_mem_padded {t : List Byte} (ht : 0 ∉ t) (k : ℕ) :
    0 ∈ t ++ List.replicate k 0 ↔ 0 < k := by
  rw [List.mem_append, List.mem_replicate]
  constructor
  · rintro (h | h)
    · exact absurd h ht
    · exact Nat.pos_of_ne_zero h.1
  · intro h
    exact .inr ⟨h.ne', rfl⟩

theorem nul_free_cut (c : Completed) (n : ℕ) :
    0 ∉ upToLast ATTRIBUTE_DELIMITER (c.text.take n) := by
  intro h
  exact c.nul_free (List.take_subset n _ ((prefix_upToLast _ _).subset h))

/-- The length of a completed string is reported as it is. -/
theorem wrap_length (c : Completed) : CInt.wrap 16 (c.text.length : ℤ) = c.text.length := by
  have hlt : c.text.length < 4096 := c.length_lt
  refine CInt.wrap_of_fits (by decide) ?_
  rw [CInt.Fits]
  norm_num
  omega

theorem boundary_nil (attributes : List (List Byte)) : AtBoundary attributes [] :=
  ⟨[], attributes, rfl, .inl rfl⟩

theorem boundary_whole (attributes : List (List Byte)) :
    AtBoundary attributes (joinedAttributes attributes) :=
  ⟨attributes, [], (List.append_nil _).symm, .inl rfl⟩

/-- The last semicolon in the first bytes of a string is at the end of an attribute, and is not the
last of these bytes. -/
def CutWell (c : Completed) (n : ℕ) : Prop :=
  ∀ front rest, c.text.take n = front ++ ATTRIBUTE_DELIMITER :: rest →
    ATTRIBUTE_DELIMITER ∉ rest →
      rest ≠ [] ∧ AtBoundary c.attributes (front ++ [ATTRIBUTE_DELIMITER])

/-- The part up to the last semicolon leaves room for a terminator and ends an attribute, unless it
is empty. -/
theorem cutWell_iff {c : Completed} {n : ℕ} (hpos : 0 < n) (hn : n ≤ c.text.length) :
    CutWell c n ↔ (upToLast ATTRIBUTE_DELIMITER (c.text.take n)).length < n ∧
      AtBoundary c.attributes (upToLast ATTRIBUTE_DELIMITER (c.text.take n)) := by
  have hlength : (c.text.take n).length = n := by rw [List.length_take, Nat.min_eq_left hn]
  constructor
  · intro h
    rcases upToLast_cases ATTRIBUTE_DELIMITER (c.text.take n) with hnone | ⟨front, rest, heq, hrest⟩
    · rw [upToLast_of_not_mem hnone]
      exact ⟨hpos, boundary_nil _⟩
    · obtain ⟨hne, hboundary⟩ := h front rest heq hrest
      have hrestpos := List.length_pos_of_ne_nil hne
      rw [heq, List.length_append, List.length_cons] at hlength
      rw [heq, upToLast_append hrest, List.length_append, List.length_singleton]
      exact ⟨by omega, hboundary⟩
  · rintro ⟨hlt, hboundary⟩ front rest heq hrest
    rw [heq, upToLast_append hrest] at hlt hboundary
    refine ⟨?_, hboundary⟩
    rintro rfl
    rw [heq, List.length_append, List.length_singleton] at hlength
    rw [List.length_append, List.length_singleton] at hlt
    omega

/-! ### The function -/

variable {retval : ℤ} {c : Completed} {out : Output}

/-- With nothing to copy to, the length is reported. -/
theorem right_of_no_buffer (h : out.szConnStrOut = none) : Right retval c out := by
  refine ⟨⟨if retval = 1 then .SQL_SUCCESS else .SQL_SUCCESS_WITH_INFO, none,
    some (c.text.length : ℤ), none⟩, ?_, .inr ?_⟩
  · rw [PGAPI_DriverConnect, h, wrap_length]
    rfl
  · refine ⟨by simp, by simp, by simp, rfl, by simp [h, truncatedError], ?_⟩
    by_cases hretval : retval = 1 <;> simp [hretval]

/-- A buffer of a negative length is refused. -/
theorem right_of_negative {buf : List Byte} (h : out.szConnStrOut = some buf)
    (hneg : out.cbConnStrOutMax < 0) : Right retval c out := by
  refine ⟨⟨.SQL_ERROR, some buf, none, some lengthError⟩, ?_, .inl ?_⟩
  · rw [PGAPI_DriverConnect, h, if_pos ⟨rfl, hneg⟩]
  · exact ⟨by rw [h]; rfl, hneg, rfl, h.symm⟩

/-- A string that fits is found whole. -/
theorem right_of_roomy {buf : List Byte} (h : out.szConnStrOut = some buf) (hroomy : Roomy c out) :
    Right retval c out := by
  rw [Roomy] at hroomy
  obtain ⟨n, hn⟩ := Int.eq_ofNat_of_zero_le (show 0 ≤ out.cbConnStrOutMax by omega)
  have hlength : buf.length = n := by rw [out.length_eq buf h, hn, Int.toNat_natCast]
  have hlt : c.text.length < n := by omega
  have hcopy := copyOut_whole hlength hlt
  have htext : text (c.text ++ List.replicate (n - c.text.length) 0) 0 = c.text :=
    text_padded c.nul_free _
  refine ⟨⟨if retval = 1 then .SQL_SUCCESS else .SQL_SUCCESS_WITH_INFO,
    some (c.text ++ List.replicate (n - c.text.length) 0), some (c.text.length : ℤ), none⟩,
    ?_, .inr ?_⟩
  · rw [PGAPI_DriverConnect, if_neg (by omega), h]
    dsimp only
    rw [hn, hcopy, wrap_length]
    dsimp only
    rw [if_neg (by omega)]
  · constructor
    · rintro _ ⟨⟩
      exact (zero_mem_padded c.nul_free _).mpr (by omega)
    · rintro _ ⟨⟩
      rw [htext]
      exact boundary_whole c.attributes
    · rintro - _ ⟨⟩
      exact htext
    · rfl
    · refine iff_of_false (by simp) ?_
      rintro ⟨-, hcut⟩
      exact hcut (by rw [Roomy]; omega)
    · by_cases hretval : retval = 1 <;> simp [hretval]

/-- What is found of a string that does not fit. -/
theorem right_cut_iff {buf : List Byte} (h : out.szConnStrOut = some buf)
    (hnonneg : 0 ≤ out.cbConnStrOutMax) (hcut : ¬ Roomy c out) :
    Right retval c out ↔ 0 < out.cbConnStrOutMax ∧ CutWell c out.cbConnStrOutMax.toNat := by
  obtain ⟨n, hn⟩ := Int.eq_ofNat_of_zero_le hnonneg
  have hlength : buf.length = n := by rw [out.length_eq buf h, hn, Int.toNat_natCast]
  have hle : n ≤ c.text.length := by
    rw [Roomy] at hcut
    omega
  have hfree := nul_free_cut c n
  have hrun : PGAPI_DriverConnect retval c.text out =
      .ok ⟨.SQL_SUCCESS_WITH_INFO,
        some (upToLast ATTRIBUTE_DELIMITER (c.text.take n) ++
          List.replicate (n - (upToLast ATTRIBUTE_DELIMITER (c.text.take n)).length) 0),
        some (c.text.length : ℤ), some truncatedError⟩ := by
    rw [PGAPI_DriverConnect, if_neg (by omega), h]
    dsimp only
    rw [hn, copyOut_cut hlength hle, wrap_length]
    dsimp only
    rw [if_pos (by omega)]
  rw [hn, Int.toNat_natCast]
  constructor
  · rintro ⟨r, hr, hneg | hfound⟩
    · omega
    · rw [hrun] at hr
      cases hr
      have hzero := (zero_mem_padded hfree _).mp (hfound.terminated _ rfl)
      have hboundary := hfound.whole_attributes _ rfl
      rw [text_padded hfree] at hboundary
      have hpos : 0 < n := by omega
      exact ⟨by omega, (cutWell_iff hpos hle).mpr ⟨by omega, hboundary⟩⟩
  · rintro ⟨hpos, hwell⟩
    obtain ⟨hlt, hboundary⟩ := (cutWell_iff (by omega) hle).mp hwell
    refine ⟨_, hrun, .inr ?_⟩
    constructor
    · rintro _ ⟨⟩
      exact (zero_mem_padded hfree _).mpr (by omega)
    · rintro _ ⟨⟩
      rw [text_padded hfree]
      exact hboundary
    · intro hroomy
      exact absurd hroomy hcut
    · rfl
    · exact iff_of_true rfl ⟨by rw [h]; rfl, hcut⟩
    · exact iff_of_false (by simp) (by simp)

/-- **The completed connection string**: the application finds whole attributes with a terminator
behind them, and is told the length and whether something is missing, exactly when there is no
buffer to fill, or the string fits, or the last semicolon of the part that fits is at the end of an
attribute and not the last byte of the buffer. -/
theorem completed_string_iff (retval : ℤ) (c : Completed) (out : Output) :
    Right retval c out ↔ out.szConnStrOut = none ∨ out.cbConnStrOutMax < 0 ∨ Roomy c out ∨
      0 < out.cbConnStrOutMax ∧ CutWell c out.cbConnStrOutMax.toNat := by
  cases h : out.szConnStrOut with
  | none => exact iff_of_true (right_of_no_buffer h) (.inl rfl)
  | some buf =>
    rcases lt_or_ge out.cbConnStrOutMax 0 with hneg | hnonneg
    · exact iff_of_true (right_of_negative h hneg) (.inr (.inl hneg))
    · by_cases hroomy : Roomy c out
      · exact iff_of_true (right_of_roomy h hroomy) (.inr (.inr (.inl hroomy)))
      · rw [right_cut_iff h hnonneg hroomy]
        constructor
        · intro hwell
          exact .inr (.inr (.inr hwell))
        · rintro (hnone | hneg | hfits | hwell)
          · exact absurd hnone (by simp)
          · omega
          · exact absurd hfits hroomy
          · exact hwell

/-- A completed string with two of its attributes. -/
def twoAttributes : Completed where
  attributes := [ascii "DSN=a", ascii "DATABASE=b"]
  nul_free := by decide
  length_lt := by decide

/-- A buffer that ends with the first semicolon. -/
def sixBytes : Output where
  szConnStrOut := some (ascii "xxxxxx")
  cbConnStrOutMax := 6
  length_eq := by decide

/-- The semicolon at the end of the buffer has no terminator behind it. -/
theorem semicolon_unterminated : ¬ Right 1 twoAttributes sixBytes := by
  have hcut : ¬ Roomy twoAttributes sixBytes := by
    rw [Roomy]
    decide
  have hbuf : sixBytes.szConnStrOut = some (ascii "xxxxxx") := rfl
  have hnonneg : 0 ≤ sixBytes.cbConnStrOutMax := by decide
  rw [right_cut_iff hbuf hnonneg hcut]
  rintro ⟨-, hwell⟩
  exact (hwell (ascii "DSN=a") [] (by decide) List.not_mem_nil).1 rfl

end OdbcDriver.Connect
