import OdbcDriver.Encoding.Ascii
import OdbcDriver.Lib.Blocks
import Mathlib.Logic.Function.Basic

/-!
# Copying a descriptor

`PGAPI_CopyDesc` gives a descriptor the type, the header fields and the records of another. What the
target had is destroyed first, by the type that is recorded for it.

* `copyFields_eq`: what a copy holds and where it lies;
* `copyDesc_refused`, `copyDesc_same`, `copyDesc_other`: the target after the call;
* `copyDesc_iff`: the descriptors for which it is what it should be.
-/

namespace OdbcDriver.Descriptor

open Blocks

/-- The type of a descriptor. -/
inductive DescType
  | SQL_ATTR_APP_ROW_DESC
  | SQL_ATTR_APP_PARAM_DESC
  | SQL_ATTR_IMP_ROW_DESC
  | SQL_ATTR_IMP_PARAM_DESC
deriving DecidableEq, Repr

/-- Reading the fields of a descriptor as those of another type. -/
inductive Fault
  | union
deriving DecidableEq, Repr

/-- `RETCODE`, as the function returns it. -/
inductive Retcode
  | SQL_SUCCESS
  | SQL_ERROR
deriving DecidableEq, Repr

/-- `DESC_EXEC_ERROR` -/
def DESC_EXEC_ERROR : ℤ := 1

/-- `BindInfoClass`; the application's own memory is known by its address. -/
structure BindInfoClass where
  buflen : ℤ
  buffer : ℕ
  used : ℕ
  indicator : ℕ
  returntype : ℤ
  precision : ℤ
  scale : ℤ
  dummy_data : ℤ
deriving DecidableEq, Repr

/-- `ParameterInfoClass` -/
structure ParameterInfoClass where
  buflen : ℤ
  buffer : ℕ
  used : ℕ
  indicator : ℕ
  CType : ℤ
  precision : ℤ
  scale : ℤ
  data_at_exec : ℤ
deriving DecidableEq, Repr

/-- `ParameterImplClass` -/
structure ParameterImplClass where
  paramName : Option (Block (List Byte))
  paramType : ℤ
  SQLType : ℤ
  PGType : ℕ
  column_size : ℕ
  decimal_digits : ℤ
  precision : ℤ
  scale : ℤ
deriving DecidableEq, Repr

/-- `ARDFields`; `allocated` is the number of bindings. -/
structure ARDFields where
  size_of_rowset : ℤ
  bind_size : ℕ
  row_operation_ptr : ℕ
  row_offset_ptr : ℕ
  bookmark : Option (Block BindInfoClass)
  bindings : Option (Block (List BindInfoClass))
  size_of_rowset_odbc2 : ℤ
deriving DecidableEq, Repr

/-- `APDFields`; `allocated` is the number of parameters. -/
structure APDFields where
  paramset_size : ℤ
  param_bind_type : ℕ
  param_operation_ptr : ℕ
  param_offset_ptr : ℕ
  bookmark : Option (Block ParameterInfoClass)
  parameters : Option (Block (List ParameterInfoClass))
  paramset_size_dummy : ℤ
deriving DecidableEq, Repr

/-- `IRDFields`, whose column information is known by its address. -/
structure IRDFields where
  stmt : ℕ
  rowsFetched : ℕ
  rowStatusArray : ℕ
  nfields : ℕ
  allocated : ℤ
  fi : Option ℕ
deriving DecidableEq, Repr

/-- `IPDFields`; `allocated` is the number of parameters. -/
structure IPDFields where
  param_processed_ptr : ℕ
  param_status_ptr : ℕ
  parameters : Option (Block (List ParameterImplClass))
deriving DecidableEq, Repr

/-- The union of a descriptor. -/
inductive Fields
  | ardf (f : ARDFields)
  | apdf (f : APDFields)
  | irdf (f : IRDFields)
  | ipdf (f : IPDFields)
deriving DecidableEq, Repr

/-- `DescriptorClass` -/
structure DescriptorClass where
  embedded : Bool
  type_defined : Bool
  desc_type : DescType
  __error_number : ℤ
  __error_message : Option (List Byte)
  pgerror : Option ℕ
  fields : Fields
deriving DecidableEq, Repr

variable {Handle : Type} [DecidableEq Handle]

/-- The descriptors behind the handles, and the memory. -/
structure State (Handle : Type) where
  desc : Handle → DescriptorClass
  memory : Memory

/-! ### The driver -/

/-- `ARDFields_free` -/
def ARDFields_free (self : ARDFields) : ARDFields :=
  { self with bookmark := none, bindings := none }

/-- `APDFields_free` -/
def APDFields_free (self : APDFields) : APDFields :=
  { self with bookmark := none, parameters := none }

/-- `IRDFields_free` -/
def IRDFields_free (self : IRDFields) : IRDFields :=
  { self with fi := none, allocated := 0, nfields := 0 }

/-- `IPDFields_free` -/
def IPDFields_free (self : IPDFields) : IPDFields := { self with parameters := none }

/-- The fields freed as those of a type. -/
def freeFields : DescType → Fields → Except Fault Fields
  | .SQL_ATTR_APP_ROW_DESC, .ardf f => .ok (.ardf (ARDFields_free f))
  | .SQL_ATTR_APP_PARAM_DESC, .apdf f => .ok (.apdf (APDFields_free f))
  | .SQL_ATTR_IMP_ROW_DESC, .irdf f => .ok (.irdf (IRDFields_free f))
  | .SQL_ATTR_IMP_PARAM_DESC, .ipdf f => .ok (.ipdf (IPDFields_free f))
  | _, _ => .error .union

/-- `DC_Destructor`; the type stays defined. -/
def DC_Destructor (self : DescriptorClass) : Except Fault DescriptorClass :=
  let self := { self with __error_message := none, pgerror := none }
  if self.type_defined then
    match freeFields self.desc_type self.fields with
    | .error e => .error e
    | .ok fields => .ok { self with fields }
  else .ok self

/-- `DC_set_error` -/
def DC_set_error (self : DescriptorClass) (errornumber : ℤ) (errormsg : List Byte) :
    DescriptorClass :=
  { self with __error_number := errornumber, __error_message := some errormsg }

/-- `ARDFields_copy` -/
def ARDFields_copy (src : ARDFields) (m : Memory) : ARDFields × Memory :=
  let bookmark := m.copy src.bookmark
  let bindings := bookmark.2.copyArray src.bindings
  ({ src with bookmark := bookmark.1, bindings := bindings.1 }, bindings.2)

/-- `APDFields_copy` -/
def APDFields_copy (src : APDFields) (m : Memory) : APDFields × Memory :=
  let bookmark := m.copy src.bookmark
  let parameters := bookmark.2.copyArray src.parameters
  ({ src with bookmark := bookmark.1, parameters := parameters.1 }, parameters.2)

/-- `IPDFields_copy` -/
def IPDFields_copy (src : IPDFields) (m : Memory) : IPDFields × Memory :=
  let parameters := m.copyArray src.parameters
  ({ src with parameters := parameters.1 }, parameters.2)

/-- The branches of `PGAPI_CopyDesc`, by the type of the source; a row descriptor of the
implementation is none of them. -/
def copyFields (m : Memory) : DescType → Fields → Except Fault (Option (Fields × Memory))
  | .SQL_ATTR_APP_ROW_DESC, .ardf f =>
    .ok (some (.ardf (ARDFields_copy f m).1, (ARDFields_copy f m).2))
  | .SQL_ATTR_APP_PARAM_DESC, .apdf f =>
    .ok (some (.apdf (APDFields_copy f m).1, (APDFields_copy f m).2))
  | .SQL_ATTR_IMP_PARAM_DESC, .ipdf f =>
    .ok (some (.ipdf (IPDFields_copy f m).1, (IPDFields_copy f m).2))
  | .SQL_ATTR_IMP_ROW_DESC, _ => .ok none
  | _, _ => .error .union

/-- A descriptor put behind a handle. -/
def State.set (st : State Handle) (h : Handle) (d : DescriptorClass) : State Handle :=
  { st with desc := Function.update st.desc h d }

/-- The call is given up with an error for the target. -/
def State.refuse (st : State Handle) (t : Handle) (msg : List Byte) : Retcode × State Handle :=
  (.SQL_ERROR, st.set t (DC_set_error (st.desc t) DESC_EXEC_ERROR msg))

/-- The target destroyed, if its type is defined. -/
def State.destroy (st : State Handle) (t : Handle) : Except Fault (State Handle) :=
  if (st.desc t).type_defined then
    match DC_Destructor (st.desc t) with
    | .error e => .error e
    | .ok target => .ok (st.set t target)
  else .ok st

/-- The second part of `PGAPI_CopyDesc`, which copies. -/
def State.copy (st : State Handle) (s t : Handle) : Except Fault (Retcode × State Handle) :=
  let src := st.desc s
  let target := st.desc t
  match copyFields st.memory src.desc_type src.fields with
  | .error e => .error e
  | .ok none => .ok (st.refuse t (ascii "invalid descriptor type"))
  | .ok (some (fields, memory)) =>
    -- the type of a target that had one is not changed
    let desc_type := if target.type_defined then target.desc_type else src.desc_type
    .ok (.SQL_SUCCESS, { st.set t { target with desc_type, fields, type_defined := true } with
      memory })

/-- `PGAPI_CopyDesc` -/
def PGAPI_CopyDesc (st : State Handle) (s t : Handle) : Except Fault (Retcode × State Handle) :=
  let src := st.desc s
  let target := st.desc t
  if ¬ src.type_defined then .ok (st.refuse t (ascii "source handle type undefined"))
  else if target.type_defined ∧ target.desc_type = .SQL_ATTR_IMP_ROW_DESC then
    .ok (st.refuse t (ascii "can't copy to IRD"))
  else if target.type_defined ∧ target.desc_type ≠ src.desc_type ∧ target.embedded then
    .ok (st.refuse t (ascii "copying different type descriptor to embedded one"))
  else
    match st.destroy t with
    | .error e => .error e
    | .ok st => st.copy s t

/-! ### What the target should be -/

/-- The type the fields belong to. -/
def Fields.kind : Fields → DescType
  | .ardf _ => .SQL_ATTR_APP_ROW_DESC
  | .apdf _ => .SQL_ATTR_APP_PARAM_DESC
  | .irdf _ => .SQL_ATTR_IMP_ROW_DESC
  | .ipdf _ => .SQL_ATTR_IMP_PARAM_DESC

/-- A parameter record without the address of its name. -/
def ParameterImplClass.plain (p : ParameterImplClass) : ParameterImplClass :=
  { p with paramName := forget p.paramName }

/-- The header fields and the records, without the addresses they lie at. -/
def Fields.plain : Fields → Fields
  | .ardf f =>
    .ardf { f with bookmark := forget f.bookmark, bindings := forget (occupied f.bindings) }
  | .apdf f =>
    .apdf { f with bookmark := forget f.bookmark, parameters := forget (occupied f.parameters) }
  | .irdf f => .irdf f
  | .ipdf f =>
    .ipdf { f with parameters := (forget (occupied f.parameters)).map fun b =>
      ⟨b.addr, b.val.map ParameterImplClass.plain⟩ }

/-- The addresses of the names of parameters. -/
def Fields.names : Fields → List ℕ
  | .ipdf f => (entries f.parameters).flatMap fun p => addrs p.paramName
  | _ => []

/-- The addresses of the blocks that hold records. -/
def Fields.blocks : Fields → List ℕ
  | .ardf f => addrs f.bookmark ++ addrs (occupied f.bindings)
  | .apdf f => addrs f.bookmark ++ addrs (occupied f.parameters)
  | .irdf _ => []
  | .ipdf f => addrs (occupied f.parameters)

/-- The storage of a descriptor. -/
def Fields.storage (f : Fields) : List ℕ := f.blocks ++ f.names

/-- Descriptors whose fields are those of their types, in memory that has been given out. -/
structure Descriptors (Handle : Type) extends State Handle where
  typed : ∀ h, (desc h).type_defined = true → (desc h).fields.kind = (desc h).desc_type
  given_out : ∀ h, ∀ a ∈ (desc h).fields.storage, a < memory.next

/-- The target is a copy of the source as it was. -/
structure Copied (st st' : State Handle) (s t : Handle) : Prop where
  defined : (st'.desc t).type_defined = true
  same_type : (st'.desc t).desc_type = (st.desc s).desc_type
  equal : (st'.desc t).fields.plain = (st.desc s).fields.plain
  apart : s ≠ t → ∀ a ∈ (st'.desc t).fields.storage, a ∉ (st'.desc s).fields.storage

/-- The target is as it was, apart from its error. -/
structure Untouched (st st' : State Handle) (t : Handle) : Prop where
  same_defined : (st'.desc t).type_defined = (st.desc t).type_defined
  same_type : (st'.desc t).desc_type = (st.desc t).desc_type
  same_fields : (st'.desc t).fields.plain = (st.desc t).fields.plain

/-- What the target should be. -/
def Right (st : State Handle) (s t : Handle) : Prop :=
  match PGAPI_CopyDesc st s t with
  | .error _ => False
  | .ok (.SQL_SUCCESS, st') => Copied st st' s t
  | .ok (.SQL_ERROR, st') => Untouched st st' t

/-! ### Freeing and copying -/

/-- What is freed loses its records, and nothing else. -/
theorem freeFields_eq (f : Fields) (hkind : f.kind ≠ .SQL_ATTR_IMP_ROW_DESC) :
    ∃ g, freeFields f.kind f = .ok g ∧ g.kind = f.kind ∧ g.storage = [] ∧
      (g.plain = f.plain ↔ f.blocks = []) := by
  cases f with
  | ardf f =>
    refine ⟨_, rfl, rfl, rfl, ?_⟩
    simp only [Fields.plain, Fields.blocks, ARDFields_free, Fields.ardf.injEq, ARDFields.mk.injEq,
      true_and, and_true, List.append_eq_nil_iff, ← forget_eq_none]
    exact and_congr eq_comm eq_comm
  | apdf f =>
    refine ⟨_, rfl, rfl, rfl, ?_⟩
    simp only [Fields.plain, Fields.blocks, APDFields_free, Fields.apdf.injEq, APDFields.mk.injEq,
      true_and, and_true, List.append_eq_nil_iff, ← forget_eq_none]
    exact and_congr eq_comm eq_comm
  | irdf f => exact absurd rfl hkind
  | ipdf f =>
    refine ⟨_, rfl, rfl, rfl, ?_⟩
    simp only [Fields.plain, Fields.blocks, IPDFields_free, Fields.ipdf.injEq, IPDFields.mk.injEq,
      true_and, ← forget_eq_none]
    rw [eq_comm]
    exact Option.map_eq_none_iff

/-- A bookmark and an array are copied whole exactly when no request is refused. -/
theorem copied_iff {α β : Type} (m : Memory) (b : Option (Block α)) (l : Option (Block (List β))) :
    forget (m.copy b).1 = forget b ∧
        forget (occupied ((m.copy b).2.copyArray l).1) = forget (occupied l) ↔
      m.Serves (addrs b ++ addrs (occupied l)).length := by
  rw [forget_copy, forget_copyArray, copy_snd, List.length_append, serves_add]

/-- The new blocks of a bookmark and an array. -/
theorem copied_addrs {α β : Type} (m : Memory) (b : Option (Block α)) (l : Option (Block (List β)))
    {a : ℕ} (ha : a ∈ addrs (m.copy b).1 ++ addrs (occupied ((m.copy b).2.copyArray l).1)) :
    m.next ≤ a := by
  rcases List.mem_append.mp ha with ha | ha
  · exact (addrs_copy a ha).ge
  · rw [occupied_copyArray] at ha
    have heq := addrs_copy a ha
    rw [copy_snd] at heq
    dsimp only at heq
    omega

/-- The parameters of an implementation are copied whole exactly when the request is served. -/
theorem copied_params (m : Memory) (l : Option (Block (List ParameterImplClass))) :
    ((forget (occupied (m.copyArray l).1)).map fun b =>
        (⟨b.addr, b.val.map ParameterImplClass.plain⟩ : Block (List ParameterImplClass))) =
      ((forget (occupied l)).map fun b => ⟨b.addr, b.val.map ParameterImplClass.plain⟩) ↔
    m.Serves (addrs (occupied l)).length := by
  rcases copyArray_cases m l with ⟨hserves, hval⟩ | ⟨hrefused, hnone, hsome⟩
  · rw [forget_copyArray.mpr hserves]
    exact iff_of_true rfl hserves
  · refine iff_of_false ?_ hrefused
    rw [occupied_copyArray, hnone]
    intro h
    rw [eq_comm] at h
    exact hsome (Option.map_eq_none_iff.mp (Option.map_eq_none_iff.mp h))

theorem entries_copied {m : Memory} {l : Option (Block (List ParameterImplClass))}
    (hserves : m.Serves (addrs (occupied l)).length) :
    entries (m.copyArray l).1 = entries l := by
  rcases copyArray_cases m l with ⟨-, hval⟩ | ⟨hrefused, -⟩
  · rw [← entries_occupied (l := l), entries, entries, hval]
  · exact absurd hserves hrefused

/-- What a copy holds: the same header fields, and the same records unless a request is refused. The
blocks of the records are new, the names are not. -/
theorem copyFields_eq (m : Memory) (f : Fields) (hkind : f.kind ≠ .SQL_ATTR_IMP_ROW_DESC) :
    ∃ g m', copyFields m f.kind f = .ok (some (g, m')) ∧
      (g.plain = f.plain ↔ m.Serves f.blocks.length) ∧ (∀ a ∈ g.blocks, m.next ≤ a) ∧
      (m.Serves f.blocks.length → g.names = f.names) := by
  cases f with
  | ardf f =>
    refine ⟨_, _, rfl, ?_, ?_, fun _ => rfl⟩
    · simp only [Fields.plain, ARDFields_copy, Fields.ardf.injEq, ARDFields.mk.injEq, true_and,
        and_true]
      exact copied_iff m f.bookmark f.bindings
    · intro a ha
      exact copied_addrs m f.bookmark f.bindings ha
  | apdf f =>
    refine ⟨_, _, rfl, ?_, ?_, fun _ => rfl⟩
    · simp only [Fields.plain, APDFields_copy, Fields.apdf.injEq, APDFields.mk.injEq, true_and,
        and_true]
      exact copied_iff m f.bookmark f.parameters
    · intro a ha
      exact copied_addrs m f.bookmark f.parameters ha
  | irdf f => exact absurd rfl hkind
  | ipdf f =>
    refine ⟨_, _, rfl, ?_, ?_, ?_⟩
    · simp only [Fields.plain, IPDFields_copy, Fields.ipdf.injEq, IPDFields.mk.injEq, true_and]
      exact copied_params m f.parameters
    · intro a ha
      rw [Fields.blocks, IPDFields_copy, occupied_copyArray] at ha
      exact (addrs_copy a ha).ge
    · intro hserves
      rw [Fields.names, Fields.names, IPDFields_copy, entries_copied hserves]

/-! ### The call -/

variable {st : Descriptors Handle} {s t : Handle}

/-- The call is given up before anything is destroyed. -/
def Refused (st : State Handle) (s t : Handle) : Prop :=
  (st.desc s).type_defined = false ∨
    (st.desc t).type_defined = true ∧
      ((st.desc t).desc_type = .SQL_ATTR_IMP_ROW_DESC ∨
        (st.desc t).desc_type ≠ (st.desc s).desc_type ∧ (st.desc t).embedded = true)

@[simp] theorem set_desc_self (st : State Handle) (h : Handle) (d : DescriptorClass) :
    (st.set h d).desc h = d := by
  rw [State.set]
  exact Function.update_self h d st.desc

theorem set_desc_of_ne (st : State Handle) {u h : Handle} (hu : u ≠ h) (d : DescriptorClass) :
    (st.set h d).desc u = st.desc u := by
  rw [State.set]
  exact Function.update_of_ne hu d st.desc

theorem untouched_refuse (st : State Handle) (t : Handle) (msg : List Byte) :
    Untouched st (st.refuse t msg).2 t := by
  have hdesc : (st.refuse t msg).2.desc t = DC_set_error (st.desc t) DESC_EXEC_ERROR msg :=
    set_desc_self _ _ _
  constructor
  · rw [hdesc]
    rfl
  · rw [hdesc]
    rfl
  · rw [hdesc]
    rfl

theorem right_of_refused (h : Refused st.toState s t) : Right st.toState s t := by
  have hright : ∀ msg, PGAPI_CopyDesc st.toState s t = .ok (st.toState.refuse t msg) →
      Right st.toState s t := by
    intro msg hrun
    rw [Right, hrun]
    exact untouched_refuse _ t msg
  by_cases hsource : (st.desc s).type_defined = true
  · obtain ⟨hdefined, hird | ⟨hdiffer, hembedded⟩⟩ := h.resolve_left (by simp [hsource])
    · refine hright (ascii "can't copy to IRD") ?_
      rw [PGAPI_CopyDesc, if_neg (not_not_intro hsource), if_pos ⟨hdefined, hird⟩]
    · by_cases hird : (st.desc t).desc_type = .SQL_ATTR_IMP_ROW_DESC
      · refine hright (ascii "can't copy to IRD") ?_
        rw [PGAPI_CopyDesc, if_neg (not_not_intro hsource), if_pos ⟨hdefined, hird⟩]
      · refine hright (ascii "copying different type descriptor to embedded one") ?_
        rw [PGAPI_CopyDesc, if_neg (not_not_intro hsource), if_neg (fun h => hird h.2),
          if_pos ⟨hdefined, hdiffer, hembedded⟩]
  · refine hright (ascii "source handle type undefined") ?_
    rw [PGAPI_CopyDesc, if_pos hsource]

/-- A call that is not given up destroys the target and copies. -/
theorem copyDesc_eq (h : ¬ Refused st.toState s t) :
    PGAPI_CopyDesc st.toState s t =
      match st.toState.destroy t with
      | .error e => .error e
      | .ok st => st.copy s t := by
  rw [Refused, not_or, not_and, not_or] at h
  obtain ⟨hsource, htarget⟩ := h
  rw [PGAPI_CopyDesc, if_neg (by simpa using hsource),
    if_neg (fun hird => (htarget hird.1).1 hird.2),
    if_neg (fun hdiffer => (htarget hdiffer.1).2 hdiffer.2)]

/-- The target after it has been destroyed: it keeps its type, and loses its records if its type is
defined. -/
structure Destroyed (st st' : State Handle) (t : Handle) : Prop where
  others : ∀ u ≠ t, st'.desc u = st.desc u
  memory : st'.memory = st.memory
  same_defined : (st'.desc t).type_defined = (st.desc t).type_defined
  same_type : (st'.desc t).desc_type = (st.desc t).desc_type
  kept : (st.desc t).type_defined = false → (st'.desc t).fields = (st.desc t).fields
  freed : (st.desc t).type_defined = true →
    (st'.desc t).fields.kind = (st.desc t).fields.kind ∧ (st'.desc t).fields.storage = [] ∧
      ((st'.desc t).fields.plain = (st.desc t).fields.plain ↔ (st.desc t).fields.blocks = [])

theorem destroy_eq (st : Descriptors Handle) {t : Handle}
    (hird : (st.desc t).type_defined = true → (st.desc t).desc_type ≠ .SQL_ATTR_IMP_ROW_DESC) :
    ∃ st', st.toState.destroy t = .ok st' ∧ Destroyed st.toState st' t := by
  cases hdefined : (st.desc t).type_defined with
  | false =>
    refine ⟨st.toState, ?_, fun _ _ => rfl, rfl, rfl, rfl, fun _ => rfl, ?_⟩
    · rw [State.destroy, if_neg (by simp [hdefined])]
    · intro h
      rw [hdefined] at h
      cases h
  | true =>
    have htyped := st.typed t hdefined
    obtain ⟨g, hfree, hkind, hstorage, hplain⟩ :=
      freeFields_eq (st.desc t).fields (htyped ▸ hird hdefined)
    rw [htyped] at hfree
    obtain ⟨d, hdestroy, hsame, htype, hfields⟩ : ∃ d, DC_Destructor (st.desc t) = .ok d ∧
        d.type_defined = (st.desc t).type_defined ∧ d.desc_type = (st.desc t).desc_type ∧
          d.fields = g := by
      refine ⟨{ st.desc t with __error_message := none, pgerror := none, fields := g }, ?_, rfl,
        rfl, rfl⟩
      rw [DC_Destructor]
      dsimp only
      rw [if_pos hdefined, hfree]
    refine ⟨st.toState.set t d, ?_, fun u hu => set_desc_of_ne _ hu d, rfl, ?_, ?_, ?_, ?_⟩
    · rw [State.destroy, if_pos hdefined, hdestroy]
    · rw [set_desc_self, hsame]
    · rw [set_desc_self, htype]
    · intro h
      rw [hdefined] at h
      cases h
    · intro _
      rw [set_desc_self, hfields]
      exact ⟨hkind, hstorage, hplain⟩

/-- The target after it has been written. -/
structure Written (st st' : State Handle) (s t : Handle) : Prop where
  others : ∀ u ≠ t, st'.desc u = st.desc u
  defined : (st'.desc t).type_defined = true
  type_eq : (st'.desc t).desc_type =
    if (st.desc t).type_defined then (st.desc t).desc_type else (st.desc s).desc_type
  plain_iff : (st'.desc t).fields.plain = (st.desc s).fields.plain ↔
    st.memory.Serves (st.desc s).fields.blocks.length
  new_blocks : ∀ a ∈ (st'.desc t).fields.blocks, st.memory.next ≤ a
  same_names : st.memory.Serves (st.desc s).fields.blocks.length →
    (st'.desc t).fields.names = (st.desc s).fields.names

theorem copy_eq {st : State Handle} {s t : Handle}
    (hkind : (st.desc s).fields.kind = (st.desc s).desc_type)
    (hird : (st.desc s).desc_type ≠ .SQL_ATTR_IMP_ROW_DESC) :
    ∃ st', st.copy s t = .ok (.SQL_SUCCESS, st') ∧ Written st st' s t := by
  obtain ⟨g, m', hcopy, hplain, hblocks, hnames⟩ :=
    copyFields_eq st.memory (st.desc s).fields (hkind ▸ hird)
  rw [hkind] at hcopy
  rw [State.copy]
  dsimp only
  rw [hcopy]
  refine ⟨_, rfl, fun u hu => set_desc_of_ne _ hu _, ?_, ?_, ?_, ?_, ?_⟩
  · dsimp only
    rw [set_desc_self]
  · dsimp only
    rw [set_desc_self]
  · dsimp only
    rw [set_desc_self]
    exact hplain
  · dsimp only
    rw [set_desc_self]
    exact hblocks
  · dsimp only
    rw [set_desc_self]
    exact hnames

theorem copy_ird {st : State Handle} {s t : Handle}
    (hird : (st.desc s).desc_type = .SQL_ATTR_IMP_ROW_DESC) :
    st.copy s t = .ok (st.refuse t (ascii "invalid descriptor type")) := by
  have hcopy : copyFields st.memory .SQL_ATTR_IMP_ROW_DESC (st.desc s).fields = .ok none := by
    cases (st.desc s).fields <;> rfl
  rw [State.copy]
  dsimp only
  rw [hird, hcopy]

/-- A source that cannot be copied: the target has lost what it had. -/
theorem right_ird_iff (h : ¬ Refused st.toState s t)
    (hird : (st.desc s).desc_type = .SQL_ATTR_IMP_ROW_DESC) :
    Right st.toState s t ↔
      ((st.desc t).type_defined = true → (st.desc t).fields.blocks = []) := by
  have htarget : (st.desc t).type_defined = true →
      (st.desc t).desc_type ≠ .SQL_ATTR_IMP_ROW_DESC :=
    fun hdefined htype => h (.inr ⟨hdefined, .inl htype⟩)
  obtain ⟨st₁, hdestroy, hd⟩ := destroy_eq st htarget
  have hst : (st₁.desc s).desc_type = .SQL_ATTR_IMP_ROW_DESC := by
    by_cases hs : s = t
    · rw [hs, hd.same_type, ← hs, hird]
    · rw [hd.others s hs, hird]
  have hrefuse := untouched_refuse st₁ t (ascii "invalid descriptor type")
  have hright : Right st.toState s t ↔
      Untouched st.toState (st₁.refuse t (ascii "invalid descriptor type")).2 t := by
    rw [Right, copyDesc_eq h, hdestroy]
    dsimp only
    rw [copy_ird hst]
    rfl
  rw [hright]
  constructor
  · intro hu hdefined
    exact (hd.freed hdefined).2.2.mp (hrefuse.same_fields.symm.trans hu.same_fields)
  · intro hempty
    refine ⟨hrefuse.same_defined.trans hd.same_defined, hrefuse.same_type.trans hd.same_type,
      hrefuse.same_fields.trans ?_⟩
    cases hdefined : (st.desc t).type_defined with
    | false => rw [hd.kept hdefined]
    | true => exact (hd.freed hdefined).2.2.mpr (hempty hdefined)

/-- The two descriptors are two. -/
theorem right_other_iff (h : ¬ Refused st.toState s t)
    (hird : (st.desc s).desc_type ≠ .SQL_ATTR_IMP_ROW_DESC) (hst : s ≠ t) :
    Right st.toState s t ↔
      ((st.desc t).type_defined = true → (st.desc t).desc_type = (st.desc s).desc_type) ∧
        st.memory.Serves (st.desc s).fields.blocks.length ∧ (st.desc s).fields.names = [] := by
  have hsource : (st.desc s).type_defined = true := by
    by_contra hundefined
    exact h (.inl (by simpa using hundefined))
  have htarget : (st.desc t).type_defined = true →
      (st.desc t).desc_type ≠ .SQL_ATTR_IMP_ROW_DESC :=
    fun hdefined htype => h (.inr ⟨hdefined, .inl htype⟩)
  obtain ⟨st₁, hdestroy, hd⟩ := destroy_eq st htarget
  have hs₁ := hd.others s hst
  have hkind₁ : (st₁.desc s).fields.kind = (st₁.desc s).desc_type := by
    rw [hs₁]
    exact st.typed s hsource
  have hird₁ : (st₁.desc s).desc_type ≠ .SQL_ATTR_IMP_ROW_DESC := by
    rw [hs₁]
    exact hird
  obtain ⟨st₂, hcopy, hw⟩ := copy_eq (t := t) hkind₁ hird₁
  have hs₂ : st₂.desc s = st.desc s := (hw.others s hst).trans hs₁
  have htype := hw.type_eq
  have hplain := hw.plain_iff
  have hblocks := hw.new_blocks
  have hnames := hw.same_names
  rw [hd.same_defined, hd.same_type, hs₁] at htype
  rw [hs₁, hd.memory] at hplain hnames
  rw [hd.memory] at hblocks
  have hright : Right st.toState s t ↔ Copied st.toState st₂ s t := by
    rw [Right, copyDesc_eq h, hdestroy]
    dsimp only
    rw [hcopy]
  rw [hright]
  constructor
  · intro hc
    have hserves := hplain.mp hc.equal
    refine ⟨?_, hserves, ?_⟩
    · intro hdefined
      have hsame := hc.same_type
      rw [htype, if_pos hdefined] at hsame
      exact hsame
    · refine List.eq_nil_iff_forall_not_mem.mpr fun a ha => ?_
      refine hc.apart hst a (List.mem_append_right _ (hnames hserves ▸ ha)) ?_
      rw [hs₂]
      exact List.mem_append_right _ ha
  · rintro ⟨hsame, hserves, hnone⟩
    refine ⟨hw.defined, ?_, hplain.mpr hserves, ?_⟩
    · rw [htype]
      split
      · rename_i hdefined
        exact hsame hdefined
      · rfl
    · intro _ a ha hs
      rw [hs₂] at hs
      have hlt := st.given_out s a hs
      rw [Fields.storage, hnames hserves, hnone, List.append_nil] at ha
      have hge := hblocks a ha
      omega

/-- The two are one: it has been destroyed before it is copied. -/
theorem right_same_iff (h : ¬ Refused st.toState s s)
    (hird : (st.desc s).desc_type ≠ .SQL_ATTR_IMP_ROW_DESC) :
    Right st.toState s s ↔ (st.desc s).fields.blocks = [] := by
  have hsource : (st.desc s).type_defined = true := by
    by_contra hundefined
    exact h (.inl (by simpa using hundefined))
  obtain ⟨st₁, hdestroy, hd⟩ := destroy_eq st (t := s) fun _ => hird
  obtain ⟨hkind, hstorage, hfreed⟩ := hd.freed hsource
  have hkind₁ : (st₁.desc s).fields.kind = (st₁.desc s).desc_type := by
    rw [hkind, hd.same_type]
    exact st.typed s hsource
  have hird₁ : (st₁.desc s).desc_type ≠ .SQL_ATTR_IMP_ROW_DESC := by
    rw [hd.same_type]
    exact hird
  obtain ⟨st₂, hcopy, hw⟩ := copy_eq (t := s) hkind₁ hird₁
  have hserves : st₁.memory.Serves (st₁.desc s).fields.blocks.length := by
    rw [(List.append_eq_nil_iff.mp hstorage).1]
    exact serves_zero _
  have hplain := hw.plain_iff.mpr hserves
  have hright : Right st.toState s s ↔ Copied st.toState st₂ s s := by
    rw [Right, copyDesc_eq h, hdestroy]
    dsimp only
    rw [hcopy]
  rw [hright, ← hfreed, ← hplain]
  constructor
  · intro hc
    exact hc.equal
  · intro hequal
    refine ⟨hw.defined, ?_, hequal, fun hne => absurd rfl hne⟩
    rw [hw.type_eq, hd.same_type]
    split
    · rfl
    · rfl

/-- **Copying a descriptor**: the target is what it should be exactly when the call is given up at
once; or the source is a row descriptor of the implementation and the target has no records to lose;
or the source is another descriptor, of the type that the target has if it has one, with no name of
a parameter, and its blocks are served; or source and target are one, without records. -/
theorem copyDesc_iff (st : Descriptors Handle) (s t : Handle) :
    Right st.toState s t ↔ Refused st.toState s t ∨
      (st.desc s).desc_type = .SQL_ATTR_IMP_ROW_DESC ∧
        ((st.desc t).type_defined = true → (st.desc t).fields.blocks = []) ∨
      (st.desc s).desc_type ≠ .SQL_ATTR_IMP_ROW_DESC ∧
        (s = t ∧ (st.desc s).fields.blocks = [] ∨
          s ≠ t ∧
            ((st.desc t).type_defined = true → (st.desc t).desc_type = (st.desc s).desc_type) ∧
            st.memory.Serves (st.desc s).fields.blocks.length ∧ (st.desc s).fields.names = []) := by
  by_cases h : Refused st.toState s t
  · exact iff_of_true (right_of_refused h) (.inl h)
  · by_cases hird : (st.desc s).desc_type = .SQL_ATTR_IMP_ROW_DESC
    · rw [right_ird_iff h hird]
      simp only [h, hird, true_and, ne_eq, not_true, false_and, or_false, false_or]
    · by_cases hst : s = t
      · subst hst
        rw [right_same_iff h hird]
        simp only [h, hird, true_and, ne_eq, not_true, not_false_iff, false_and, or_false, false_or]
      · rw [right_other_iff h hird hst]
        simp only [h, hird, hst, true_and, ne_eq, not_false_iff, false_and, false_or]

/-- A descriptor that the application has allocated, with the fields of a type. -/
def allocated (fields : Fields) : DescriptorClass :=
  ⟨false, true, fields.kind, 0, none, none, fields⟩

/-- A row descriptor and a parameter descriptor of the application, without records. -/
def twoTypes : Descriptors Bool where
  desc h := if h then allocated (.ardf ⟨1, 0, 0, 0, none, none, 1⟩)
    else allocated (.apdf ⟨1, 0, 0, 0, none, none, 1⟩)
  memory := ⟨0, fun _ => false⟩
  typed h _ := by
    cases h with
    | true => rfl
    | false => rfl
  given_out h a ha := by
    cases h with
    | true => exact absurd ha List.not_mem_nil
    | false => exact absurd ha List.not_mem_nil

/-- The parameter descriptor gets the fields of the row descriptor, and not its type. -/
theorem type_not_copied : ¬ Right twoTypes.toState true false := by
  have hgoes : ¬ Refused twoTypes.toState true false := by
    rintro (h | ⟨-, h | ⟨-, h⟩⟩)
    · exact absurd h (by decide)
    · exact absurd h (by decide)
    · exact absurd h (by decide)
  rw [right_other_iff hgoes (by decide) (by decide)]
  rintro ⟨hsame, -⟩
  exact absurd (hsame rfl) (by decide)

end OdbcDriver.Descriptor
