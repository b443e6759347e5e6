import OdbcDriver.Catalog.ProcedureColumns
import OdbcDriver.Param.Resolve

/-!
# The rows of a procedure

A function of the server has arguments with modes, and returns a value, a set or a composite. The
server answers the driver's query with `Procedure.tuples`; `Procedure.columns` are the rows that
describe the function. They differ from what the driver makes of the answer where a set of scalars is
returned by a function whose last argument has another type, where a function with output arguments
has a composite with several attributes as its return type, and where a name is not readable.

* `paramRows_eq`, `readNames_iff`: the rows of the arguments;
* `procRows_procedure`: the rows of one function;
* `procedureColumns_iff`: when the rows describe every function.
-/

namespace OdbcDriver.Procedures

open Server (arrayOut elementText follow follow_cons follow_nil joined oidText oidvectorOut)
open Decimal (IsDigit)

/-! ### Functions of the server -/

inductive ArgMode
  | input
  | output
  | inOut
  | variadic
  | table
deriving DecidableEq

/-- An argument. One without a name has an empty one. -/
structure Arg where
  name : List Chr
  type : Oid
  mode : ArgMode

structure Procedure where
  oid : Oid
  schema : List Byte
  name : List Byte
  retset : Bool
  rettype : Oid
  args : List Arg
  /-- The types and names of the attributes of the return type. -/
  attributes : List (Oid × List Byte)

namespace ArgMode

/-- `proargmodes` -/
def char : ArgMode → Byte
  | input => 0x69
  | output => 0x6f
  | inOut => 0x62
  | variadic => 0x76
  | table => 0x74

/-- The argument is part of the result. -/
def isOutput : ArgMode → Bool
  | output | inOut | table => true
  | input | variadic => false

/-- The column type of an argument. -/
def columnType (retset : Bool) : ArgMode → ColumnType
  | input | variadic => .paramInput
  | inOut => .paramInputOutput
  | output | table => if retset then .resultCol else .paramOutput

end ArgMode

namespace Procedure

variable (f : Procedure)

/-- The function has output arguments. -/
def hasOutput : Bool := f.args.any fun a => a.mode.isOutput

/-- All arguments are input arguments: the server has no modes for the function. -/
def plain : Bool := f.args.all fun a => a.mode = .input

/-- The server has names for the function. -/
def named : Bool := f.args.any fun a => !a.name.isEmpty

/-- The function in the server's answer, apart from its attributes. -/
def tuple : ProcTuple where
  proname := f.name
  proretset := if f.retset then [0x74] else [0x66]
  prorettype := f.rettype
  pronargs := (f.args.filter fun a => a.mode ∈ [.input, .inOut, .variadic]).length
  proargtypes := some (oidvectorOut
    ((f.args.filter fun a => a.mode ∈ [.input, .inOut, .variadic]).map Arg.type))
  nspname := some f.schema
  oid := f.oid
  atttypid := none
  attname := none
  proargnames := if f.named then some (arrayOut (f.args.map fun a => elementText a.name)) else none
  proargmodes := if f.plain then none else some (arrayOut (f.args.map fun a => [a.mode.char]))
  proallargtypes := if f.plain then none else some (arrayOut (f.args.map fun a => oidText a.type))

/-- A row for an attribute. -/
def attributeTuple (att : Oid × List Byte) : ProcTuple :=
  { f.tuple with atttypid := some att.1, attname := some att.2 }

/-- The server's answer about the function. -/
def tuples : List ProcTuple :=
  if f.attributes = [] then [f.tuple] else f.attributes.map f.attributeTuple

/-- The row of an argument. -/
def argumentColumn (a : Arg) (j : ℕ) : ProcColumn :=
  ⟨some f.schema, f.name, some a.name.flatten, a.mode.columnType f.retset, a.type, j + 1⟩

/-- The rows of the return value. -/
def valueColumns : List ProcColumn :=
  if f.rettype ≠ 0 && f.rettype ≠ PG_TYPE_VOID && !f.retset && f.attributes.isEmpty &&
      !f.hasOutput then
    [⟨some f.schema, f.name, some [], .returnValue, f.rettype, 0⟩]
  else []

/-- The row of a result column. -/
def resultColumn (name : Option (List Byte)) (type : Oid) : ProcColumn :=
  ⟨some f.schema, f.name, name, if f.retset then .resultCol else .paramOutput, type, 0⟩

/-- The rows of the result columns: output arguments take their place. -/
def resultColumns : List ProcColumn :=
  if f.hasOutput then []
  else if f.attributes = [] then if f.retset then [f.resultColumn none f.rettype] else []
  else f.attributes.map fun att => f.resultColumn (some att.2) att.1

/-- The rows that describe the function. -/
def columns : List ProcColumn :=
  f.valueColumns ++ f.args.mapIdx (fun j a => f.argumentColumn a j) ++ f.resultColumns

end Procedure

/-- What holds of the functions that a server returns: it numbers them, gives the rows of one after
those of another, and knows names from version 8.0 on and modes from version 8.1 on. -/
structure Answered (conn : ConnectionClass) (fs : List Procedure) : Prop where
  oid_ne_zero : ∀ f ∈ fs, f.oid ≠ 0
  oids : (fs.map Procedure.oid).Nodup
  names : ∀ f ∈ fs, ∀ a ∈ f.args, WellFormed conn.ccsc a.name
  names_since : ∀ f ∈ fs, f.named = true → PG_VERSION_GE conn 8 0 = true
  modes_since : ∀ f ∈ fs, f.plain = false → PG_VERSION_GE conn 8 1 = true

/-! ### The rows of the arguments -/

variable {f : Procedure} {args : List Arg} {sep : Byte} {close : List Byte}

/-- The names at a cursor. -/
def readNames : ℕ → Option (List Byte) → List (List Byte)
  | 0, _ => []
  | n + 1, proargnames =>
    ((nextName proargnames).map Prod.fst).getD [] :: readNames n ((nextName proargnames).map Prod.snd)

theorem length_readNames (n : ℕ) (proargnames : Option (List Byte)) :
    (readNames n proargnames).length = n := by
  induction n generalizing proargnames with
  | zero => rfl
  | succ n ih => rw [readNames, List.length_cons, ih]

theorem readNames_none (n : ℕ) : readNames n none = List.replicate n [] := by
  induction n with
  | zero => rfl
  | succ n ih =>
    rw [readNames, List.replicate_succ, ← ih]
    rfl

/-- Rows of arguments under the names that are read. -/
def argRows (f : Procedure) : ℕ → List Arg → List (List Byte) → List ProcColumn
  | j, a :: args, name :: names =>
    ⟨some f.schema, f.name, some name, a.mode.columnType f.retset, a.type, j + 1⟩ ::
      argRows f (j + 1) args names
  | _, _, _ => []

/-- The type that the loop over arguments leaves. -/
def lastType (type : Oid) : List Arg → Oid
  | [] => type
  | a :: args => lastType a.type args

/-- A cursor stands in front of elements. -/
def StandsAt (sep : Byte) (close : List Byte) (es : List (List Byte))
    (cursor : Option (List Byte)) : Prop :=
  es ≠ [] → ∃ t, cursor = some t ∧ skipDelims t = joined sep close es

theorem standsAt_follow {es : List (List Byte)} (hsep : isDelim sep = true)
    (hes : ∀ e ∈ es, Begins e) : StandsAt sep close es (some (follow sep close es)) := by
  intro hne
  obtain ⟨e, es, rfl⟩ := List.exists_cons_of_ne_nil hne
  exact ⟨_, rfl, skipDelims_follow hsep (hes e List.mem_cons_self)⟩

theorem begins_char (m : ArgMode) : Begins [m.char] := by
  refine ⟨m.char, [], rfl, ?_, ?_⟩ <;> cases m <;> decide

theorem paramType_char (retset : Bool) (m : ArgMode) (s : List Byte) :
    paramType retset (some (m.char :: s)) = m.columnType retset := by
  cases m <;> rfl

/-- The arguments have the types and modes that the cursors stand in front of. -/
theorem paramRows_eq (tuple : ProcTuple) (hschema : tuple.nspname = some f.schema)
    (hname : tuple.proname = f.name) (hsep : isDelim sep = true) (hdigit : ¬IsDigit sep)
    (hclose : ∀ c ∈ close.head?, ¬IsDigit c) {params proargmodes proargnames : Option (List Byte)}
    (hparams : StandsAt sep close (args.map fun a => oidText a.type) params)
    (hmodes : (proargmodes = none ∧ ∀ a ∈ args, a.mode = .input) ∨
      StandsAt 0x2c [0x7d] (args.map fun a => [a.mode.char]) proargmodes) (j : ℕ) (type : Oid) :
    paramRows tuple f.retset args.length j params proargmodes proargnames type =
      (argRows f j args (readNames args.length proargnames), lastType type args) := by
  induction args generalizing j params proargmodes proargnames type with
  | nil => rfl
  | cons a args ih =>
    obtain ⟨t, rfl, ht⟩ := hparams (List.cons_ne_nil _ _)
    have hparam := nextParam_joined hdigit hclose ht
    have hrest : StandsAt sep close (args.map fun a => oidText a.type)
        (some (follow sep close (args.map fun a => oidText a.type))) := by
      refine standsAt_follow hsep fun e he => ?_
      obtain ⟨b, -, rfl⟩ := List.mem_map.mp he
      exact begins_oidText b.type
    obtain ⟨hmode, hmodes'⟩ : paramType f.retset (nextMode proargmodes) =
        a.mode.columnType f.retset ∧
        (((nextMode proargmodes).map List.tail = none ∧ ∀ a ∈ args, a.mode = .input) ∨
          StandsAt 0x2c [0x7d] (args.map fun a => [a.mode.char])
            ((nextMode proargmodes).map List.tail)) := by
      rcases hmodes with ⟨rfl, hinput⟩ | hmodes
      · rw [hinput a List.mem_cons_self]
        exact ⟨rfl, .inl ⟨rfl, fun b hb => hinput b (List.mem_cons_of_mem a hb)⟩⟩
      · obtain ⟨t, rfl, ht⟩ := hmodes (List.cons_ne_nil _ _)
        have hbrace : a.mode.char ≠ 0x7d := by cases a.mode <;> decide
        rw [nextMode_joined hbrace ht, paramType_char]
        refine ⟨rfl, .inr (standsAt_follow rfl fun e he => ?_)⟩
        obtain ⟨b, -, rfl⟩ := List.mem_map.mp he
        exact begins_char b.mode
    rw [List.length_cons, paramRows, hparam]
    dsimp only
    rw [ih hrest hmodes', hmode, hschema, hname]
    rfl

/-- The names are read as they are exactly if all are readable. -/
theorem readNames_iff {ccsc : Ccsc} {cursor : Option (List Byte)}
    (hwf : ∀ a ∈ args, WellFormed ccsc a.name)
    (hcursor : StandsAt 0x2c [0x7d] (args.map fun a => elementText a.name) cursor) :
    readNames args.length cursor = args.map (fun a => a.name.flatten) ↔
      ∀ a ∈ args, Readable a.name := by
  induction args generalizing cursor with
  | nil => simp [readNames]
  | cons a args ih =>
    rw [List.forall_mem_cons] at hwf ⊢
    obtain ⟨t, rfl, ht⟩ := hcursor (List.cons_ne_nil _ _)
    rw [List.length_cons, readNames, List.map_cons, List.cons.injEq]
    by_cases hread : Readable a.name
    · obtain ⟨s, hname, hs⟩ := nextName_readable hwf.1 hread ht fun e he => by
        obtain ⟨b, hb, rfl⟩ := List.mem_map.mp he
        exact begins_elementText (hwf.2 b hb)
      have hrest : readNames args.length (some s) = args.map (fun a => a.name.flatten) ↔
          ∀ a ∈ args, Readable a.name := ih hwf.2 fun hne => ⟨s, rfl, hs hne⟩
      rw [hname, and_iff_right hread]
      simpa using hrest
    · exact iff_of_false (fun h => nextName_unreadable hwf.1 hread ht h.1) fun h => hread h.1

theorem argRows_inj {names names' : List (List Byte)} (hlen : names.length = args.length)
    (hlen' : names'.length = args.length) (j : ℕ) :
    argRows f j args names = argRows f j args names' ↔ names = names' := by
  induction args generalizing j names names' with
  | nil =>
    rw [List.length_nil, List.length_eq_zero_iff] at hlen hlen'
    simp [hlen, hlen']
  | cons a args ih =>
    obtain ⟨name, names, rfl⟩ := List.exists_cons_of_length_eq_add_one hlen
    obtain ⟨name', names', rfl⟩ := List.exists_cons_of_length_eq_add_one hlen'
    rw [List.length_cons, List.length_cons, Nat.add_right_cancel_iff] at hlen hlen'
    simp [argRows, ih hlen hlen']

theorem length_argRows {names : List (List Byte)} (hlen : names.length = args.length) (j : ℕ) :
    (argRows f j args names).length = args.length := by
  induction args generalizing j names with
  | nil => rfl
  | cons a args ih =>
    obtain ⟨name, names, rfl⟩ := List.exists_cons_of_length_eq_add_one hlen
    rw [List.length_cons, List.length_cons, Nat.add_right_cancel_iff] at hlen
    rw [argRows, List.length_cons, ih hlen, List.length_cons]

theorem argumentColumns_eq (f : Procedure) (k : ℕ) (args : List Arg) :
    args.mapIdx (fun j a => f.argumentColumn a (j + k)) =
      argRows f k args (args.map fun a => a.name.flatten) := by
  induction args generalizing k with
  | nil => rfl
  | cons a args ih =>
    rw [List.mapIdx_cons, List.map_cons, argRows, ← ih (k + 1), Nat.zero_add]
    simp only [Procedure.argumentColumn, Nat.add_assoc, Nat.add_comm 1]

/-! ### The rows of a function -/

theorem skipBrace_arrayOut {es : List (List Byte)} (hes : ∀ e ∈ es, Begins e) :
    StandsAt 0x2c [0x7d] es (some (skipBrace (arrayOut es))) := by
  intro hne
  obtain ⟨e, es, rfl⟩ := List.exists_cons_of_ne_nil hne
  obtain ⟨c, s, rfl, hc, -⟩ := hes e List.mem_cons_self
  exact ⟨_, rfl, skipDelims_self (by simpa [skipBrace, arrayOut, joined] using hc)⟩

theorem any_joined {p : Byte → Bool} (hsep : p sep = false) (hclose : close.any p = false)
    (es : List (List Byte)) : (joined sep close es).any p = es.any fun e => e.any p := by
  cases es with
  | nil => exact hclose
  | cons e es => simp [joined, follow, hsep, hclose, List.any_flatMap]

theorem count_joined (hclose : close.count sep = 0) {es : List (List Byte)}
    (hes : ∀ e ∈ es, e.count sep = 0) (hne : es ≠ []) :
    (joined sep close es).count sep + 1 = es.length := by
  have hfollow : ∀ es : List (List Byte), (∀ e ∈ es, e.count sep = 0) →
      (follow sep close es).count sep = es.length := by
    intro es hes
    induction es with
    | nil => exact hclose
    | cons e es ih =>
      have hmore := ih fun e he => hes e (List.mem_cons_of_mem _ he)
      rw [follow_cons, List.count_cons_self, joined, List.count_append, hmore,
        hes e List.mem_cons_self, Nat.zero_add, List.length_cons]
  obtain ⟨e, es, rfl⟩ := List.exists_cons_of_ne_nil hne
  rw [joined, List.count_append, hes e List.mem_cons_self,
    hfollow es fun e he => hes e (List.mem_cons_of_mem _ he), Nat.zero_add, List.length_cons]

variable {conn : ConnectionClass} {fs : List Procedure} {tuple : ProcTuple}

theorem bRetset_tuple (f : Procedure) : f.tuple.bRetset = f.retset := by
  rw [ProcTuple.bRetset, Procedure.tuple]
  cases f.retset <;> rfl

/-- Modes are the server's whatever the version. -/
theorem modes_eq (h : Answered conn fs) (hf : f ∈ fs) :
    (if PG_VERSION_GE conn 8 1 then f.tuple.proargmodes else none) = f.tuple.proargmodes := by
  cases hplain : f.plain with
  | true => simp [Procedure.tuple, hplain]
  | false => rw [h.modes_since f hf hplain, if_pos rfl]

/-- Names are the server's whatever the version. -/
theorem names_eq (h : Answered conn fs) (hf : f ∈ fs) :
    (if PG_VERSION_GE conn 8 0 then f.tuple.proargnames else none) = f.tuple.proargnames := by
  cases hnamed : f.named with
  | false => simp [Procedure.tuple, hnamed]
  | true => rw [h.names_since f hf hnamed, if_pos rfl]

theorem has_outparam_eq (f : Procedure) : has_outparam f.tuple.proargmodes = f.hasOutput := by
  cases hplain : f.plain with
  | true =>
    have hinput : ∀ a ∈ f.args, a.mode = .input := by simpa [Procedure.plain] using hplain
    have hnone : f.hasOutput = false := by
      rw [Procedure.hasOutput, List.any_eq_false]
      intro a ha
      rw [hinput a ha]
      decide
    simp [Procedure.tuple, hplain, has_outparam, hnone]
  | false =>
    have hchar : ∀ m : ArgMode, [m.char].any (fun c => c = 0x6f || c = 0x62 || c = 0x74) =
        m.isOutput := by
      intro m
      cases m <;> decide
    have hjoined : (joined 0x2c [0x7d] (f.args.map fun a => [a.mode.char])).any
        (fun c => c = 0x6f || c = 0x62 || c = 0x74) = _ :=
      any_joined (by decide) (by decide) _
    rw [List.any_map] at hjoined
    simp only [Procedure.tuple, hplain, Bool.false_eq_true, if_false, has_outparam, arrayOut,
      List.any_cons, hjoined, Function.comp_def, hchar]
    rfl

/-- A row of the answer about a function. -/
structure IsRow (f : Procedure) (tuple : ProcTuple) : Prop where
  same : ∃ x y, tuple = { f.tuple with atttypid := x, attname := y }
  atttypid : tuple.atttypid.isNone = f.attributes.isEmpty

theorem oidTexts_begin (args : List Arg) : ∀ e ∈ args.map fun a => oidText a.type, Begins e := by
  intro e he
  obtain ⟨a, -, rfl⟩ := List.mem_map.mp he
  exact begins_oidText a.type

/-- The arguments of a function with input arguments only: the server has a vector of types. -/
theorem paramRows_plain (hplain : f.plain = true) (hrow : IsRow f tuple)
    (proargnames : Option (List Byte)) :
    paramRows tuple f.retset f.tuple.pronargs 0 f.tuple.proargtypes none proargnames f.rettype =
      (argRows f 0 f.args (readNames f.args.length proargnames), lastType f.rettype f.args) := by
  obtain ⟨x, y, hsame⟩ := hrow.same
  have hinput : ∀ a ∈ f.args, a.mode = .input := by simpa [Procedure.plain] using hplain
  have hfilter : f.args.filter (fun a => a.mode ∈ [.input, .inOut, .variadic]) = f.args :=
    List.filter_eq_self.mpr fun a ha => by rw [hinput a ha]; decide
  have hcount : f.tuple.pronargs = f.args.length := by rw [Procedure.tuple, hfilter]
  have htypes : f.tuple.proargtypes = some (joined 0x20 [] (f.args.map fun a => oidText a.type)) := by
    rw [Procedure.tuple, hfilter, oidvectorOut, List.map_map]
    rfl
  have hstands : StandsAt 0x20 [] (f.args.map fun a => oidText a.type) f.tuple.proargtypes := by
    intro hne
    refine ⟨_, htypes, skipDelims_self ?_⟩
    obtain ⟨e, es, hes⟩ := List.exists_cons_of_ne_nil hne
    obtain ⟨c, s, rfl, hc, -⟩ := oidTexts_begin f.args e (by rw [hes]; exact List.mem_cons_self)
    rw [hes]
    simpa [joined] using hc
  rw [hcount]
  exact paramRows_eq tuple (by rw [hsame]; rfl) (by rw [hsame]; rfl) rfl (by decide) (by simp)
    hstands (.inl ⟨rfl, hinput⟩) 0 f.rettype

/-- The arguments of a function with other modes: the server has an array of types and one of modes. -/
theorem paramRows_modes (hplain : f.plain = false) (hrow : IsRow f tuple)
    (proargnames : Option (List Byte)) :
    ∃ modes types, f.tuple.proargmodes = some modes ∧ f.tuple.proallargtypes = some types ∧
      paramRows tuple f.retset (modes.count 0x2c + 1) 0 (some (skipBrace types))
          (some (skipBrace modes)) proargnames f.rettype =
        (argRows f 0 f.args (readNames f.args.length proargnames), lastType f.rettype f.args) := by
  obtain ⟨x, y, hsame⟩ := hrow.same
  have hne : f.args ≠ [] := by
    intro hnil
    rw [Procedure.plain, hnil] at hplain
    cases hplain
  have hcount : (arrayOut (f.args.map fun a => [a.mode.char])).count 0x2c + 1 = f.args.length := by
    rw [arrayOut, List.count_cons_of_ne (by decide), count_joined (by decide) ?_ (by simpa using hne),
      List.length_map]
    intro e he
    obtain ⟨a, -, rfl⟩ := List.mem_map.mp he
    cases a.mode <;> decide
  refine ⟨arrayOut (f.args.map fun a => [a.mode.char]), arrayOut (f.args.map fun a => oidText a.type),
    by simp [Procedure.tuple, hplain], by simp [Procedure.tuple, hplain], ?_⟩
  rw [hcount]
  refine paramRows_eq tuple (by rw [hsame]; rfl) (by rw [hsame]; rfl) rfl (by decide)
    (by simp; decide) (skipBrace_arrayOut (oidTexts_begin f.args))
    (.inr (skipBrace_arrayOut fun e he => ?_)) 0 f.rettype
  obtain ⟨a, -, rfl⟩ := List.mem_map.mp he
  exact begins_char a.mode

/-- The first row of a function. -/
theorem firstRow_eq (h : Answered conn fs) (hf : f ∈ fs) (hrow : IsRow f tuple) :
    firstRow conn tuple =
      (f.valueColumns ++
          argRows f 0 f.args (readNames f.args.length (f.tuple.proargnames.map skipBrace)),
        lastType f.rettype f.args, f.hasOutput) := by
  obtain ⟨x, y, hsame⟩ := hrow.same
  have hret : tuple.bRetset = f.retset := by
    rw [hsame]
    exact bRetset_tuple f
  have hnames : (if PG_VERSION_GE conn 8 0 then tuple.proargnames else none) =
      f.tuple.proargnames := by
    rw [hsame]
    exact names_eq h hf
  have hmodes : (if PG_VERSION_GE conn 8 1 then tuple.proargmodes else none) =
      f.tuple.proargmodes := by
    rw [hsame]
    exact modes_eq h hf
  have htype : tuple.prorettype = f.rettype := by rw [hsame]; rfl
  have hcount : tuple.pronargs = f.tuple.pronargs := by rw [hsame]
  have htypes : tuple.proargtypes = f.tuple.proargtypes := by rw [hsame]
  have hall : tuple.proallargtypes = f.tuple.proallargtypes := by rw [hsame]
  have hschema : tuple.nspname = some f.schema := by rw [hsame]; rfl
  have hname : tuple.proname = f.name := by rw [hsame]; rfl
  rw [firstRow, hnames, hmodes, has_outparam_eq, hret, htype, hrow.atttypid, hcount, htypes, hall,
    hschema, hname]
  cases hplain : f.plain with
  | true =>
    have hnone : f.tuple.proargmodes = none := by simp [Procedure.tuple, hplain]
    rw [hnone]
    dsimp only
    rw [paramRows_plain hplain hrow]
    rfl
  | false =>
    obtain ⟨modes, types, hmodes, htypes, hrows⟩ :=
      paramRows_modes hplain hrow (f.tuple.proargnames.map skipBrace)
    rw [hmodes, htypes, Option.map_some]
    dsimp only
    rw [hrows]
    rfl

/-- The result columns that the driver makes. -/
def madeResults (f : Procedure) : List ProcColumn :=
  match f.attributes with
  | [] =>
    if !f.hasOutput && f.retset then [f.resultColumn none (lastType f.rettype f.args)] else []
  | att :: atts =>
    (if f.hasOutput then [] else [f.resultColumn (some att.2) att.1]) ++
      atts.map fun att => f.resultColumn (some att.2) att.1

/-- The rows that the driver makes of a function. -/
def madeColumns (f : Procedure) : List ProcColumn :=
  f.valueColumns ++
    argRows f 0 f.args (readNames f.args.length (f.tuple.proargnames.map skipBrace)) ++
      madeResults f

theorem resultRow_attribute (att : Oid × List Byte) (pgtype : Oid) (outpara_exist : Bool) :
    resultRow (f.attributeTuple att) pgtype outpara_exist =
      if outpara_exist then [] else [f.resultColumn (some att.2) att.1] := by
  have hret : (f.attributeTuple att).bRetset = f.retset := bRetset_tuple f
  rw [resultRow, hret]
  cases outpara_exist <;> rfl

theorem resultRow_tuple (pgtype : Oid) (outpara_exist : Bool) :
    resultRow f.tuple pgtype outpara_exist =
      if !outpara_exist && f.retset then [f.resultColumn none pgtype] else [] := by
  rw [resultRow, bRetset_tuple, Procedure.resultColumn]
  cases f.retset <;> rfl

/-- Further rows of the function that is being described. -/
theorem procRows_attributes (hoid : f.oid ≠ 0) (atts : List (Oid × List Byte))
    (tuples : List ProcTuple) :
    procRows conn f.oid (atts.map f.attributeTuple ++ tuples) =
      atts.map (fun att => f.resultColumn (some att.2) att.1) ++ procRows conn f.oid tuples := by
  induction atts with
  | nil => rfl
  | cons att atts ih =>
    have hsame : ¬(f.oid = 0 ∨ (f.attributeTuple att).oid ≠ f.oid) :=
      not_or.mpr ⟨hoid, not_not.mpr rfl⟩
    rw [List.map_cons, List.cons_append, procRows, if_neg hsame, ih, resultRow_attribute,
      if_neg Bool.false_ne_true]
    rfl

/-- What the driver makes of the rows of a function. -/
theorem procRows_procedure (h : Answered conn fs) (hf : f ∈ fs) {poid : Oid}
    (hpoid : poid = 0 ∨ f.oid ≠ poid) (tuples : List ProcTuple) :
    procRows conn poid (f.tuples ++ tuples) = madeColumns f ++ procRows conn f.oid tuples := by
  cases hatts : f.attributes with
  | nil =>
    have hrow : IsRow f f.tuple := ⟨⟨none, none, rfl⟩, by rw [hatts]; rfl⟩
    rw [Procedure.tuples, if_pos hatts, List.singleton_append, procRows,
      if_pos (show poid = 0 ∨ f.tuple.oid ≠ poid from hpoid), firstRow_eq h hf hrow]
    dsimp only
    rw [resultRow_tuple, madeColumns, madeResults, hatts]
    rfl
  | cons att atts =>
    have hrow : IsRow f (f.attributeTuple att) := ⟨⟨_, _, rfl⟩, by rw [hatts]; rfl⟩
    have hne : f.attributes ≠ [] := by
      rw [hatts]
      exact List.cons_ne_nil _ _
    rw [Procedure.tuples, if_neg hne, hatts, List.map_cons, List.cons_append, procRows,
      if_pos (show poid = 0 ∨ (f.attributeTuple att).oid ≠ poid from hpoid),
      firstRow_eq h hf hrow]
    dsimp only
    rw [resultRow_attribute, show (f.attributeTuple att).oid = f.oid from rfl,
      procRows_attributes (h.oid_ne_zero f hf), madeColumns, madeResults, hatts]
    simp only [List.append_assoc]

/-- What the driver makes of the whole answer. -/
theorem procRows_answer (h : Answered conn fs) :
    procRows conn 0 (fs.flatMap Procedure.tuples) = fs.flatMap madeColumns := by
  suffices hall : ∀ (gs : List Procedure) (poid : Oid), (∀ f ∈ gs, f ∈ fs) →
      (gs.map Procedure.oid).Nodup → (poid = 0 ∨ poid ∉ gs.map Procedure.oid) →
      procRows conn poid (gs.flatMap Procedure.tuples) = gs.flatMap madeColumns from
    hall fs 0 (fun f hf => hf) h.oids (.inl rfl)
  intro gs
  induction gs with
  | nil => exact fun _ _ _ _ => rfl
  | cons f gs ih =>
    intro poid hsub hnodup hpoid
    rw [List.map_cons, List.nodup_cons] at hnodup
    have hf := hsub f List.mem_cons_self
    have hfirst : poid = 0 ∨ f.oid ≠ poid := by
      refine hpoid.imp_right fun hmem heq => hmem ?_
      rw [List.map_cons, heq]
      exact List.mem_cons_self
    rw [List.flatMap_cons, List.flatMap_cons, procRows_procedure h hf hfirst,
      ih f.oid (fun g hg => hsub g (List.mem_cons_of_mem f hg)) hnodup.2 (.inr hnodup.1)]

/-! ### Functions that are described -/

theorem length_madeResults (f : Procedure) : f.resultColumns.length ≤ (madeResults f).length := by
  rw [Procedure.resultColumns, madeResults]
  cases f.attributes with
  | nil => cases f.hasOutput <;> cases f.retset <;> simp
  | cons att atts => cases f.hasOutput <;> simp

theorem lastType_eq_iff (type : Oid) (args : List Arg) :
    lastType type args = type ↔ ∀ a ∈ args.getLast?, a.type = type := by
  cases args with
  | nil => simp [lastType]
  | cons a args =>
    have hlast : ∀ (args : List Arg) (a : Arg), lastType a.type args =
        ((a :: args).getLast (List.cons_ne_nil a args)).type := by
      intro args
      induction args with
      | nil => exact fun a => rfl
      | cons b args ih =>
        intro a
        rw [lastType, ih b]
        rfl
    rw [lastType, hlast, List.getLast?_eq_getLast_of_ne_nil (List.cons_ne_nil a args)]
    simp

theorem madeResults_eq_iff (f : Procedure) :
    madeResults f = f.resultColumns ↔
      (f.hasOutput = true → f.attributes.length ≤ 1) ∧
        (f.hasOutput = false → f.attributes = [] → f.retset = true →
          ∀ a ∈ f.args.getLast?, a.type = f.rettype) := by
  rw [← lastType_eq_iff, madeResults, Procedure.resultColumns]
  cases f.attributes with
  | nil =>
    cases f.hasOutput with
    | true => simp
    | false =>
      cases f.retset with
      | false => simp
      | true => simp [Procedure.resultColumn]
  | cons att atts =>
    cases f.hasOutput with
    | true => simp
    | false => simp

theorem madeNames_iff {ccsc : Ccsc} (f : Procedure) (hwf : ∀ a ∈ f.args, WellFormed ccsc a.name) :
    readNames f.args.length (f.tuple.proargnames.map skipBrace) =
        f.args.map (fun a => a.name.flatten) ↔
      (f.named = true → ∀ a ∈ f.args, Readable a.name) := by
  cases hnamed : f.named with
  | true =>
    have htext : f.tuple.proargnames = some (arrayOut (f.args.map fun a => elementText a.name)) := by
      simp [Procedure.tuple, hnamed]
    rw [htext, Option.map_some, readNames_iff hwf (skipBrace_arrayOut fun e he => ?_)]
    · simp
    · obtain ⟨a, ha, rfl⟩ := List.mem_map.mp he
      exact begins_elementText (hwf a ha)
  | false =>
    have htext : f.tuple.proargnames = none := by simp [Procedure.tuple, hnamed]
    have hempty : ∀ a ∈ f.args, a.name = [] := by simpa [Procedure.named] using hnamed
    rw [htext, Option.map_none, readNames_none]
    refine iff_of_true (List.eq_replicate_iff.mpr ⟨List.length_map _, fun n hn => ?_⟩).symm nofun
    obtain ⟨a, ha, rfl⟩ := List.mem_map.mp hn
    rw [hempty a ha, List.flatten_nil]

/-- The rows describe the function: its names, if it has any, are readable, output arguments do not
stand for several attributes, and a set of scalars has the type of the last argument. -/
structure Described (f : Procedure) : Prop where
  names : f.named = true → ∀ a ∈ f.args, Readable a.name
  outputs : f.hasOutput = true → f.attributes.length ≤ 1
  sets : f.hasOutput = false → f.attributes = [] → f.retset = true →
    ∀ a ∈ f.args.getLast?, a.type = f.rettype

/-- The rows of a function are right exactly where it is described. -/
theorem madeColumns_eq_iff {ccsc : Ccsc} (f : Procedure)
    (hwf : ∀ a ∈ f.args, WellFormed ccsc a.name) :
    madeColumns f = f.columns ↔ Described f := by
  have hargs : f.args.mapIdx (fun j a => f.argumentColumn a j) =
      argRows f 0 f.args (f.args.map fun a => a.name.flatten) := argumentColumns_eq f 0 f.args
  have hread := length_readNames f.args.length (f.tuple.proargnames.map skipBrace)
  have hnames : (f.args.map fun a => a.name.flatten).length = f.args.length := List.length_map _
  have hlen : (argRows f 0 f.args (readNames f.args.length
      (f.tuple.proargnames.map skipBrace))).length =
      (argRows f 0 f.args (f.args.map fun a => a.name.flatten)).length := by
    rw [length_argRows hread, length_argRows hnames]
  rw [madeColumns, Procedure.columns, hargs, List.append_assoc, List.append_assoc,
    List.append_cancel_left_eq]
  constructor
  · intro h
    obtain ⟨hrows, hresults⟩ := List.append_inj h hlen
    obtain ⟨houtputs, hsets⟩ := (madeResults_eq_iff f).mp hresults
    exact ⟨(madeNames_iff f hwf).mp ((argRows_inj hread hnames 0).mp hrows), houtputs, hsets⟩
  · rintro ⟨hnames', houtputs, hsets⟩
    rw [(madeNames_iff f hwf).mpr hnames', (madeResults_eq_iff f).mpr ⟨houtputs, hsets⟩]

theorem length_madeColumns (f : Procedure) : f.columns.length ≤ (madeColumns f).length := by
  have hresults := length_madeResults f
  have hread := length_readNames f.args.length (f.tuple.proargnames.map skipBrace)
  rw [madeColumns, Procedure.columns, List.length_append, List.length_append, List.length_append,
    List.length_append, length_argRows hread, List.length_mapIdx]
  omega

/-- Rows that are nowhere fewer are the same for all functions exactly if they are for each. -/
theorem flatMap_eq_iff {α β : Type} {g k : α → List β} {l : List α}
    (hle : ∀ x ∈ l, (k x).length ≤ (g x).length) :
    l.flatMap g = l.flatMap k ↔ ∀ x ∈ l, g x = k x := by
  have hsum : ∀ l' : List α, (∀ x ∈ l', (k x).length ≤ (g x).length) →
      (l'.flatMap k).length ≤ (l'.flatMap g).length := by
    intro l' hle'
    induction l' with
    | nil => exact Nat.le_refl _
    | cons x l' ih =>
      rw [List.forall_mem_cons] at hle'
      have := ih hle'.2
      simp only [List.flatMap_cons, List.length_append]
      omega
  induction l with
  | nil => simp
  | cons x l ih =>
    rw [List.forall_mem_cons] at hle ⊢
    rw [List.flatMap_cons, List.flatMap_cons]
    constructor
    · intro h
      have hlen := congrArg List.length h
      have hrest := hsum l hle.2
      rw [List.length_append, List.length_append] at hlen
      obtain ⟨hx, hl⟩ := List.append_inj h (by omega)
      exact ⟨hx, (ih hle.2).mp hl⟩
    · rintro ⟨hx, hl⟩
      rw [hx, (ih hle.2).mpr hl]

/-- **The rows of functions.** They are right for every set of functions just if each is described;
if a column is named there are none. -/
theorem procedureColumns_iff (h : Answered conn fs) (szColumnName : Option (List Byte)) :
    PGAPI_ProcedureColumns conn szColumnName (fs.flatMap Procedure.tuples) =
        fs.flatMap Procedure.columns ↔
      if szColumnName.isSome then fs.flatMap Procedure.columns = []
      else ∀ f ∈ fs, Described f := by
  rw [PGAPI_ProcedureColumns]
  split
  · exact eq_comm
  · rw [procRows_answer h, flatMap_eq_iff fun f _ => length_madeColumns f]
    exact forall₂_congr fun f hf => madeColumns_eq_iff f (h.names f hf)

/-- `add(a integer, b integer) returns integer` -/
def sampleFunction : Procedure :=
  ⟨16385, ascii "public", ascii "add", false, PG_TYPE_INT4,
    [⟨[[0x61]], PG_TYPE_INT4, .input⟩, ⟨[[0x62]], PG_TYPE_INT4, .input⟩], []⟩

/-- `words(n text) returns setof integer` -/
def sampleSet : Procedure :=
  ⟨16386, ascii "public", ascii "words", true, PG_TYPE_INT4, [⟨[], PG_TYPE_TEXT, .input⟩], []⟩

theorem answered_sample {f : Procedure} (hoid : f.oid ≠ 0) (hplain : f.plain = true)
    (hnames : ∀ a ∈ f.args, WellFormed .utf8 a.name) : Answered sampleConn [f] where
  oid_ne_zero _ hg := List.mem_singleton.mp hg ▸ hoid
  oids := List.nodup_singleton _
  names _ hg := List.mem_singleton.mp hg ▸ hnames
  names_since _ _ _ := rfl
  modes_since _ hg h := absurd (List.mem_singleton.mp hg ▸ hplain) (Bool.eq_false_iff.mp h)

theorem procedureColumns_function :
    PGAPI_ProcedureColumns sampleConn none ([sampleFunction].flatMap Procedure.tuples) =
      [sampleFunction].flatMap Procedure.columns := by
  refine (procedureColumns_iff (answered_sample (by decide) rfl ?_) none).mpr ?_
  · simp [sampleFunction, WellFormed]
    decide
  · intro f hf
    obtain rfl := List.mem_singleton.mp hf
    exact ⟨fun _ => by simp [sampleFunction]; decide, by decide, by decide⟩

/-- The result column of `words` has the type of its argument. -/
theorem procedureColumns_set :
    ¬PGAPI_ProcedureColumns sampleConn none ([sampleSet].flatMap Procedure.tuples) =
      [sampleSet].flatMap Procedure.columns := by
  have hans : Answered sampleConn [sampleSet] :=
    answered_sample (by decide) rfl (by simp [sampleSet, WellFormed])
  intro h
  rw [PGAPI_ProcedureColumns, if_neg (by decide), procRows_answer hans,
    flatMap_eq_iff fun f _ => length_madeColumns f] at h
  have hwf : ∀ a ∈ sampleSet.args, WellFormed .utf8 a.name := by simp [sampleSet, WellFormed]
  have hdescribed := (madeColumns_eq_iff sampleSet hwf).mp (h sampleSet List.mem_cons_self)
  exact absurd (hdescribed.sets rfl rfl rfl _ rfl) (by decide)

end OdbcDriver.Procedures
