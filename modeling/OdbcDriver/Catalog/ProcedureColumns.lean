import OdbcDriver.Server.ArrayText

/-!
# Columns of procedures

`PGAPI_ProcedureColumns` asks for a row for each function, or, where the function returns a
composite, for each attribute of it. From the first row of a function it takes the return value and
the arguments, whose types, modes and names it reads side by side from three texts; from every row a
result column.

* `nextParam_joined`, `nextMode_joined`, `nextName_readable`: what a cursor reads;
* `nextName_unreadable`: a name that the texts' escapes or bytes cut short;
* `paramRows_eq`: the rows of the arguments.
-/

namespace OdbcDriver.Procedures

open Server (arrayOut elementText escapedChar follow follow_cons follow_nil joined needsQuotes oidText
  oidvectorOut)
open Decimal (IsDigit)

/-! ### Rows -/

/-- `SQL_PARAM_INPUT`, ..., `SQL_RETURN_VALUE` -/
inductive ColumnType
  | paramInput
  | paramInputOutput
  | resultCol
  | paramOutput
  | returnValue
deriving DecidableEq

/-- A row of the answer to the driver's query. -/
structure ProcTuple where
  proname : List Byte
  proretset : List Byte
  prorettype : Oid
  pronargs : ℕ
  proargtypes : Option (List Byte)
  nspname : Option (List Byte)
  oid : Oid
  atttypid : Option Oid
  attname : Option (List Byte)
  proargnames : Option (List Byte)
  proargmodes : Option (List Byte)
  proallargtypes : Option (List Byte)

/-- A row for the application. `pgtype` is the type that the columns from `DATA_TYPE` to
`CHAR_OCTET_LENGTH` describe. -/
structure ProcColumn where
  schema : Option (List Byte)
  procedure : List Byte
  column_name : Option (List Byte)
  column_type : ColumnType
  pgtype : Oid
  ordinal_position : ℕ
deriving DecidableEq

def PG_TYPE_VOID : Oid := 2278

/-! ### The cursors -/

/-- Blanks and commas are passed over. -/
def skipDelims (s : List Byte) : List Byte := s.dropWhile fun c => isSpace c || c = 0x2c

/-- `sscanf(params, "%u", &pgtype)`, over a variable that is 0. -/
def scanType (params : List Byte) : Oid :=
  match Scanf.number none (Scanf.skip params) with
  | none => 0
  | some (n, _) => BitVec.ofInt 32 n

/-- The type of the next argument. -/
def nextParam : Option (List Byte) → Oid × Option (List Byte)
  | none => (0, none)
  | some params =>
    let params := skipDelims params
    if params = [] ∨ params.head? = some 0x7d then (0, none)
    else (scanType params, some (params.dropWhile fun c => decide (IsDigit c)))

/-- The mode of the next argument. -/
def nextMode : Option (List Byte) → Option (List Byte)
  | none => none
  | some proargmodes =>
    let proargmodes := skipDelims proargmodes
    if proargmodes = [] ∨ proargmodes.head? = some 0x7d then none else some proargmodes

/-- The name that ends in front of a delimiter, and what is behind it. -/
def cutName (proargnames : List Byte) (inName : Byte → Bool) : Option (List Byte × List Byte) :=
  match proargnames.dropWhile inName with
  | [] => none
  | _ :: behind => some (proargnames.takeWhile inName, behind)

/-- The name of the next argument. -/
def nextName : Option (List Byte) → Option (List Byte × List Byte)
  | none => none
  | some proargnames =>
    match skipDelims proargnames with
    | [] => none
    | c :: proargnames =>
      if c = 0x7d then none
      else if c = 0x22 then cutName proargnames (· ≠ 0x22)
      else cutName (c :: proargnames) fun d => !isSpace d && d ≠ 0x2c && d ≠ 0x7d

/-- The column type of an argument. -/
def paramType (bRetset : Bool) (proargmodes : Option (List Byte)) : ColumnType :=
  match proargmodes.bind List.head? with
  | none => .paramInput
  | some mode =>
    if mode = 0x6f ∨ mode = 0x74 then if bRetset then .resultCol else .paramOutput
    else if mode = 0x62 then .paramInputOutput
    else .paramInput

/-! ### The rows of a function -/

/-- `has_outparam` -/
def has_outparam : Option (List Byte) → Bool
  | none => false
  | some proargmodes => proargmodes.any fun c => c = 0x6f || c = 0x62 || c = 0x74

/-- The rows of the arguments behind `j`, and the type that the last of them leaves. -/
def paramRows (tuple : ProcTuple) (bRetset : Bool) :
    ℕ → ℕ → Option (List Byte) → Option (List Byte) → Option (List Byte) → Oid →
      List ProcColumn × Oid
  | 0, _, _, _, _, pgtype => ([], pgtype)
  | paramcount + 1, j, params, proargmodes, proargnames, _ =>
    let (pgtype, params) := nextParam params
    let proargmodes := nextMode proargmodes
    let name := nextName proargnames
    let (rows, last) :=
      paramRows tuple bRetset paramcount (j + 1) params (proargmodes.map List.tail)
        (name.map Prod.snd) pgtype
    (⟨tuple.nspname, tuple.proname, some ((name.map Prod.fst).getD []),
      paramType bRetset proargmodes, pgtype, j + 1⟩ :: rows, last)

/-- The opening brace is passed over. -/
def skipBrace (s : List Byte) : List Byte := if s.head? = some 0x7b then s.tail else s

/-- `bRetset` -/
def ProcTuple.bRetset (tuple : ProcTuple) : Bool :=
  tuple.proretset.head? = some 0x74 || tuple.proretset.head? = some 0x79

/-- What the first row of a function gives, the type left in `pgtype`, and `outpara_exist`. -/
def firstRow (conn : ConnectionClass) (tuple : ProcTuple) : List ProcColumn × Oid × Bool :=
  let proargnames := if PG_VERSION_GE conn 8 0 then tuple.proargnames else none
  let proargmodes := if PG_VERSION_GE conn 8 1 then tuple.proargmodes else none
  let outpara_exist := has_outparam proargmodes
  let value :=
    if tuple.prorettype ≠ 0 && tuple.prorettype ≠ PG_TYPE_VOID && !tuple.bRetset &&
        tuple.atttypid.isNone && !outpara_exist then
      [⟨tuple.nspname, tuple.proname, some [], .returnValue, tuple.prorettype, 0⟩]
    else []
  let (rows, pgtype) :=
    match proargmodes with
    | some modes =>
      paramRows tuple tuple.bRetset (modes.count 0x2c + 1) 0 (tuple.proallargtypes.map skipBrace)
        (some (skipBrace modes)) (proargnames.map skipBrace) tuple.prorettype
    | none =>
      paramRows tuple tuple.bRetset tuple.pronargs 0 tuple.proargtypes none
        (proargnames.map skipBrace) tuple.prorettype
  (value ++ rows, pgtype, outpara_exist)

/-- The result column of a row. -/
def resultRow (tuple : ProcTuple) (pgtype : Oid) (outpara_exist : Bool) : List ProcColumn :=
  if !outpara_exist && (tuple.atttypid.isSome || tuple.bRetset) then
    [⟨tuple.nspname, tuple.proname, if tuple.atttypid.isNone then none else tuple.attname,
      if tuple.bRetset then .resultCol else .paramOutput, tuple.atttypid.getD pgtype, 0⟩]
  else []

/-- The loop of `PGAPI_ProcedureColumns` over the answer. -/
def procRows (conn : ConnectionClass) : Oid → List ProcTuple → List ProcColumn
  | _, [] => []
  | poid, tuple :: tuples =>
    if poid = 0 ∨ tuple.oid ≠ poid then
      let (rows, pgtype, outpara_exist) := firstRow conn tuple
      rows ++ resultRow tuple pgtype outpara_exist ++ procRows conn tuple.oid tuples
    else resultRow tuple tuple.prorettype false ++ procRows conn poid tuples

/-- `PGAPI_ProcedureColumns`. If a column is named there are no rows. -/
def PGAPI_ProcedureColumns (conn : ConnectionClass) (szColumnName : Option (List Byte))
    (tuples : List ProcTuple) : List ProcColumn :=
  if szColumnName.isSome then [] else procRows conn 0 tuples

/-! ### What the cursors read -/

variable {sep : Byte} {close e t : List Byte} {es : List (List Byte)}

/-- The byte is passed over between elements. -/
def isDelim (c : Byte) : Bool := isSpace c || c = 0x2c

/-- A text begins with a byte that is not passed over. -/
def Begins (e : List Byte) : Prop := ∃ c s, e = c :: s ∧ isDelim c = false ∧ c ≠ 0x7d

theorem skipDelims_self (h : ∀ c ∈ t.head?, isDelim c = false) : skipDelims t = t := by
  cases t with
  | nil => rfl
  | cons c t =>
    have hc : isDelim c = false := h c rfl
    exact List.dropWhile_cons_of_neg (by simpa [isDelim] using hc)

theorem skipDelims_follow (hsep : isDelim sep = true) (he : Begins e) :
    skipDelims (follow sep close (e :: es)) = joined sep close (e :: es) := by
  obtain ⟨c, s, rfl, hc, -⟩ := he
  rw [follow_cons, skipDelims, List.dropWhile_cons_of_pos (by simpa [isDelim] using hsep)]
  exact skipDelims_self (by simpa [joined] using hc)

theorem begins_oidText (o : Oid) : Begins (oidText o) := by
  obtain ⟨c, s, h⟩ := List.exists_cons_of_ne_nil (Scanf.digits_ne_nil Nat.one_pos o.toNat)
  have hc : IsDigit c := Scanf.digits_isDigit 1 o.toNat c (by rw [h]; exact List.mem_cons_self)
  have hspace : isSpace c = false := Scanf.not_space_of_isDigit hc
  refine ⟨c, s, h, ?_, ?_⟩
  · rw [isDelim, hspace]
    refine decide_eq_false ?_
    rintro rfl
    exact absurd hc (by decide)
  · rintro rfl
    exact absurd hc (by decide)

/-- The type at a cursor. -/
theorem nextParam_joined (hsep : ¬IsDigit sep) (hclose : ∀ c ∈ close.head?, ¬IsDigit c) {o : Oid}
    (ht : skipDelims t = joined sep close (oidText o :: es)) :
    nextParam (some t) = (o, some (follow sep close es)) := by
  have hdigits : ∀ c ∈ oidText o, IsDigit c := Scanf.digits_isDigit 1 o.toNat
  have hne : oidText o ≠ [] := Scanf.digits_ne_nil Nat.one_pos o.toNat
  have hstop : ∀ c ∈ (follow sep close es).head?, ¬IsDigit c := by
    cases es with
    | nil => exact hclose
    | cons e es =>
      intro c hc
      rw [follow_cons, List.head?_cons, Option.mem_some_iff] at hc
      exact hc ▸ hsep
  obtain ⟨c, s, hbegin, hdelim, hbrace⟩ := begins_oidText o
  have hhead : (joined sep close (oidText o :: es)).head? = some c := by
    rw [joined, hbegin]
    rfl
  have hscan : scanType (joined sep close (oidText o :: es)) = o := by
    have hskip : Scanf.skip (oidText o ++ follow sep close es) = oidText o ++ follow sep close es :=
      Scanf.skip_self fun d hd => by
        obtain rfl : d = c := Option.some.inj (hd.symm.trans hhead)
        exact Scanf.not_space_of_isDigit (hdigits d (by rw [hbegin]; exact List.mem_cons_self))
    have hnumber : Scanf.number none (Scanf.signText false ++ (oidText o ++ follow sep close es)) =
        some (Scanf.signed false (Decimal.digitsValue (oidText o)), follow sep close es) :=
      Scanf.number_eq hdigits hne ⟨by rintro _ ⟨⟩, .inl hstop⟩
    rw [Scanf.signText, if_neg Bool.false_ne_true, List.nil_append] at hnumber
    rw [joined, scanType, hskip, hnumber]
    simp [Scanf.signed, oidText]
  rw [nextParam, ht, if_neg, hscan, joined, List.dropWhile_append_of_pos fun d hd => decide_eq_true (hdigits d hd)]
  · cases hf : follow sep close es with
    | nil => rfl
    | cons d f =>
      rw [List.dropWhile_cons_of_neg]
      simpa using hstop d (by rw [hf]; rfl)
  · rintro (hnil | hend)
    · rw [hnil] at hhead
      cases hhead
    · exact hbrace (Option.some.inj (hhead.symm.trans hend))

/-- The mode at a cursor. -/
theorem nextMode_joined {m : Byte} (hm : m ≠ 0x7d)
    (ht : skipDelims t = joined sep close ([m] :: es)) :
    nextMode (some t) = some (m :: follow sep close es) := by
  rw [nextMode, ht, if_neg]
  · rfl
  · rintro (hnil | hend)
    · cases hnil
    · exact hm (Option.some.inj hend)

/-! ### Names -/

variable {ccsc : Ccsc} {name : List Chr} {p : Byte → Bool} {c : Byte} {s : List Byte}

/-- A name is read as it is: between quotes it has no quotes and backslashes, without them no closing
brace in a longer character. -/
def Readable (name : List Chr) : Prop :=
  if needsQuotes name then ∀ c ∈ name, c ≠ [0x22] ∧ c ≠ [0x5c] else (0x7d : Byte) ∉ name.flatten

instance (name : List Chr) : Decidable (Readable name) :=
  inferInstanceAs (Decidable (ite _ _ _))

theorem cutName_eq (he : ∀ x ∈ e, p x = true) (hc : p c = false) (s : List Byte) :
    cutName (e ++ c :: s) p = some (e, s) := by
  have hc' : ¬p c = true := Bool.eq_false_iff.mp hc
  rw [cutName, List.dropWhile_append_of_pos he, List.dropWhile_cons_of_neg hc',
    List.takeWhile_append_of_pos he, List.takeWhile_cons_of_neg hc', List.append_nil]

/-- A name that is cut has no delimiters. -/
theorem of_cutName {r : List Byte × List Byte} (h : cutName s p = some r) :
    ∀ x ∈ r.1, p x = true := by
  rw [cutName] at h
  split at h
  · cases h
  · cases h
    exact List.all_eq_true.mp List.all_takeWhile

theorem begins_elementText (hwf : WellFormed ccsc name) : Begins (elementText name) := by
  rw [elementText]
  cases hneeds : needsQuotes name with
  | true => exact ⟨0x22, _, rfl, rfl, by decide⟩
  | false =>
    rw [if_neg Bool.false_ne_true]
    match name, hwf, hneeds with
    | c :: name, hwf, hneeds =>
      obtain ⟨x, p, rfl⟩ := List.exists_cons_of_ne_nil
        (ne_nil_of_isChar (hwf c List.mem_cons_self))
      have hmem : x ∈ ((x :: p) :: name).flatten := by simp
      obtain ⟨hspace, -, hcomma⟩ := Server.not_delimiter hwf hneeds hmem
      refine ⟨x, p ++ name.flatten, rfl, by simp [isDelim, hspace, hcomma], ?_⟩
      rintro rfl
      cases p with
      | nil =>
        simp [needsQuotes, Server.isDelimiter] at hneeds
      | cons y p =>
        exact absurd (head_of_isChar (hwf _ List.mem_cons_self)) (by decide)

/-- The name at a cursor, between quotes. -/
theorem nextName_quoted (hneeds : needsQuotes name = true)
    (ht : skipDelims t = joined sep close (elementText name :: es)) :
    nextName (some t) =
      cutName (name.flatMap escapedChar ++ 0x22 :: follow sep close es) (· ≠ 0x22) := by
  have htext : skipDelims t =
      0x22 :: (name.flatMap escapedChar ++ 0x22 :: follow sep close es) := by
    rw [ht, joined, elementText, if_pos hneeds]
    simp
  rw [nextName, htext]
  rfl

/-- The name at a cursor, without quotes. -/
theorem nextName_plain (hwf : WellFormed ccsc name) (hneeds : needsQuotes name = false)
    (ht : skipDelims t = joined sep close (elementText name :: es)) :
    nextName (some t) =
      cutName (name.flatten ++ follow sep close es)
        fun d => !isSpace d && d ≠ 0x2c && d ≠ 0x7d := by
  have htext : skipDelims t = name.flatten ++ follow sep close es := by
    rw [ht, joined, elementText, if_neg (Bool.eq_false_iff.mp hneeds)]
  obtain ⟨c, s, hbegin, hdelim, hbrace⟩ := begins_elementText hwf
  rw [elementText, if_neg (Bool.eq_false_iff.mp hneeds)] at hbegin
  have hquote : c ≠ 0x22 :=
    (Server.not_delimiter hwf hneeds (by rw [hbegin]; exact List.mem_cons_self)).2.1
  rw [nextName, htext, hbegin, List.cons_append]
  dsimp only
  rw [if_neg hbrace, if_neg hquote]

/-- A name that is readable is read, up to where the next element is found. -/
theorem nextName_readable (hwf : WellFormed ccsc name) (hread : Readable name)
    (ht : skipDelims t = joined 0x2c [0x7d] (elementText name :: es))
    (hes : ∀ e ∈ es, Begins e) :
    ∃ s, nextName (some t) = some (name.flatten, s) ∧
      (es ≠ [] → skipDelims s = joined 0x2c [0x7d] es) := by
  have hnext : ∀ e es', es = e :: es' →
      skipDelims (joined 0x2c [0x7d] es) = joined 0x2c [0x7d] es := by
    rintro e es' rfl
    obtain ⟨c, s, rfl, hc, -⟩ := hes e List.mem_cons_self
    exact skipDelims_self (by simpa [joined] using hc)
  rw [Readable] at hread
  cases hneeds : needsQuotes name with
  | true =>
    rw [hneeds, if_pos rfl] at hread
    have hplain : name.flatMap escapedChar = name.flatten := by
      rw [← List.flatMap_id]
      refine List.flatMap_congr fun c hc => ?_
      rw [escapedChar, if_neg (not_or.mpr (hread c hc))]
      rfl
    have hne : ∀ x ∈ name.flatten, decide (x ≠ 0x22) = true := by
      intro x hx
      refine decide_eq_true ?_
      rintro rfl
      exact (hread _ (Server.mem_of_mem_flatten hwf hx (by decide))).1 rfl
    refine ⟨follow 0x2c [0x7d] es, ?_, fun hne' => ?_⟩
    · rw [nextName_quoted hneeds ht, hplain]
      exact cutName_eq hne rfl _
    · obtain ⟨e, es, rfl⟩ := List.exists_cons_of_ne_nil hne'
      exact skipDelims_follow rfl (hes e List.mem_cons_self)
  | false =>
    rw [hneeds, if_neg Bool.false_ne_true] at hread
    have hin : ∀ x ∈ name.flatten, (!isSpace x && x ≠ 0x2c && x ≠ 0x7d) = true := by
      intro x hx
      obtain ⟨hspace, -, hcomma⟩ := Server.not_delimiter hwf hneeds hx
      have hbrace : x ≠ 0x7d := by
        rintro rfl
        exact hread hx
      simp [hspace, hcomma, hbrace]
    rw [nextName_plain hwf hneeds ht]
    cases es with
    | nil => exact ⟨[], cutName_eq hin rfl [], fun h => absurd rfl h⟩
    | cons e es =>
      rw [follow_cons]
      exact ⟨_, cutName_eq hin rfl _, fun _ => hnext e es rfl⟩

/-- Escapes make a text longer. -/
theorem length_escaped (name : List Chr) :
    name.flatten.length + name.count [0x5c] ≤ (name.flatMap escapedChar).length := by
  induction name with
  | nil => exact Nat.le_refl _
  | cons c name ih =>
    rw [List.flatten_cons, List.flatMap_cons, List.length_append, List.length_append,
      List.count_cons]
    by_cases hc : c = [0x5c]
    · subst hc
      simp only [beq_self_eq_true, if_true, escapedChar, or_true, List.length_cons, List.length_nil]
      omega
    · have hle : c.length ≤ (escapedChar c).length := by
        rw [escapedChar]
        split <;> simp
      simp only [beq_iff_eq, if_neg hc]
      omega

/-- A name that is not readable is not read. -/
theorem nextName_unreadable (hwf : WellFormed ccsc name) (hread : ¬Readable name)
    (ht : skipDelims t = joined 0x2c [0x7d] (elementText name :: es)) :
    ((nextName (some t)).map Prod.fst).getD [] ≠ name.flatten := by
  have hflat : ∀ c ∈ name, ∀ x ∈ c, x ∈ name.flatten := fun c hc x hx =>
    List.mem_flatten.mpr ⟨c, hc, hx⟩
  have hlacks : ∀ {p : Byte → Bool} {e : List Byte} {x : Byte}, x ∈ name.flatten → p x = false →
      ((cutName e p).map Prod.fst).getD [] ≠ name.flatten := by
    intro p e x hx hpx heq
    cases hcut : cutName e p with
    | none =>
      rw [hcut] at heq
      rw [← heq] at hx
      cases hx
    | some r =>
      rw [hcut] at heq
      rw [← heq] at hx
      exact Bool.false_ne_true (hpx.symm.trans (of_cutName hcut x hx))
  rw [Readable] at hread
  cases hneeds : needsQuotes name with
  | true =>
    rw [hneeds, if_pos rfl] at hread
    rw [nextName_quoted hneeds ht]
    by_cases hquote : [0x22] ∈ name
    · exact hlacks (hflat _ hquote 0x22 List.mem_cons_self) rfl
    · -- Without quotes all of the text is read, with the backslashes in it.
      obtain ⟨c, hc, hback⟩ : ∃ c ∈ name, c = [0x5c] := by
        by_contra hnone
        refine hread fun c hc => ⟨?_, fun hcb => hnone ⟨c, hc, hcb⟩⟩
        rintro rfl
        exact hquote hc
      subst hback
      have hne : ∀ x ∈ name.flatMap escapedChar, decide (x ≠ 0x22) = true := by
        intro x hx
        refine decide_eq_true ?_
        rintro rfl
        obtain ⟨d, hd, hxd⟩ := List.mem_flatMap.mp hx
        have hmem : 0x22 ∈ d := by
          rw [escapedChar] at hxd
          split at hxd
          · exact (List.mem_cons.mp hxd).resolve_left (by decide)
          · exact hxd
        exact hquote (Server.mem_of_mem_flatten hwf (hflat d hd _ hmem) (by decide))
      rw [cutName_eq hne rfl]
      intro heq
      have hlen := length_escaped name
      have hpos : 0 < name.count [0x5c] := List.count_pos_iff.mpr hc
      have hsame : (name.flatMap escapedChar).length = name.flatten.length := congrArg List.length heq
      omega
  | false =>
    rw [hneeds, if_neg Bool.false_ne_true, not_not] at hread
    rw [nextName_plain hwf hneeds ht]
    exact hlacks hread (by decide)

end OdbcDriver.Procedures
