import OdbcDriver.Descriptor.FieldStore

/-!
# The records of a descriptor represent its store

First what a call does to the array of records (`bindings_set_max`, `bindings_set_count`), then one
lemma for each type of descriptor: a regular call goes through, leaves the records in order, and
moves the cells as the store says (`APDSetField_spec`, `IPDSetField_spec`). Reading a field is
reading cells (`getParameterInfo_shown`, `getParameterImpl_shown`).
-/

namespace OdbcDriver.DescField

open Lib (ok_bind)

/-! ### The array of records -/

section Array

variable {α : Type} (zero : α) (reset : α → α) {r : RecordArray α}

/-- Clearing records changes nothing of the others. -/
theorem view_resetLoop (params : ℤ) : ∀ (n : ℕ) {r : RecordArray α}, r.WellFormed →
    (resetLoop reset params n r).WellFormed ∧ (resetLoop reset params n r).used = r.used ∧
      ∀ i : ℕ, (i : ℤ) < params → (resetLoop reset params n r).view zero i = r.view zero i := by
  intro n
  induction n with
  | zero => exact fun h => ⟨h, rfl, fun _ _ => rfl⟩
  | succ n ih =>
    intro r h
    rw [resetLoop]
    split
    case isFalse => exact ⟨h, rfl, fun _ _ => rfl⟩
    rename_i hlt
    rw [reset_a_binding]
    split
    case isTrue => exact ih h
    rename_i hin
    obtain ⟨hwf, hused, hview⟩ := ih (RecordArray.wellFormed_modify h ((n : ℤ) + 1 - 1).toNat reset)
    refine ⟨hwf, hused, fun i hi => ?_⟩
    rw [hview i hi, RecordArray.view_modify h (by omega), if_neg (by omega)]

/-- As many records as there are, or more. -/
theorem bindings_set_grow (h : r.WellFormed) {params : ℤ} (hle : r.used ≤ params) (maxset : Bool) :
    ∃ r', bindings_set zero reset true r params maxset = .ok r' ∧ r'.WellFormed ∧
      r'.used = params ∧ ∀ i, r'.view zero i = r.view zero i := by
  rw [bindings_set]
  by_cases heq : params = r.used
  · rw [if_pos heq]
    exact ⟨r, rfl, h, heq.symm, fun _ => rfl⟩
  · have hlt : r.used < params := lt_of_le_of_ne hle (Ne.symm heq)
    rw [if_neg heq, if_pos hlt, extend_bindings, if_pos hlt, if_pos rfl,
      if_neg (not_lt.mpr h.nonneg)]
    exact ⟨_, rfl, RecordArray.wellFormed_grow h hle, rfl, RecordArray.view_grow h hle⟩

/-- **At least so many records.** None is lost. -/
theorem bindings_set_max (h : r.WellFormed) (params : ℤ) :
    ∃ r', bindings_set zero reset true r params true = .ok r' ∧ r'.WellFormed ∧
      r'.used = max r.used params ∧ ∀ i, r'.view zero i = r.view zero i := by
  rcases le_or_gt r.used params with hle | hlt
  · obtain ⟨r', heq, hwf, hused, hview⟩ := bindings_set_grow zero reset h hle true
    exact ⟨r', heq, hwf, by rw [hused, max_eq_right hle], hview⟩
  · rw [bindings_set, if_neg (ne_of_lt hlt), if_neg (not_lt.mpr (le_of_lt hlt)), if_pos rfl]
    exact ⟨r, rfl, h, (max_eq_left (le_of_lt hlt)).symm, fun _ => rfl⟩

/-- **The number of records.** Those that stay keep their contents, the others are cleared. -/
theorem bindings_set_count (h : r.WellFormed) {params : ℤ} (hpos : 0 ≤ params) :
    ∃ r', bindings_set zero reset true r params false = .ok r' ∧ r'.WellFormed ∧
      r'.used = params ∧
        ∀ i : ℕ, r'.view zero i = if (i : ℤ) < params then r.view zero i else zero := by
  rcases le_or_gt r.used params with hle | hlt
  · obtain ⟨r', heq, hwf, hused, hview⟩ := bindings_set_grow zero reset h hle false
    refine ⟨r', heq, hwf, hused, fun i => ?_⟩
    by_cases hi : (i : ℤ) < params
    · rw [if_pos hi, hview]
    · rw [if_neg hi, hview, RecordArray.view_of_le (hle.trans (not_lt.mp hi))]
  · obtain ⟨hwf, hused, hview⟩ := view_resetLoop zero reset params r.used.toNat h
    have hle : params ≤ (resetLoop reset params r.used.toNat r).used := by
      rw [hused]
      exact le_of_lt hlt
    rw [bindings_set, if_neg (ne_of_lt hlt), if_neg (not_lt.mpr (le_of_lt hlt)),
      if_neg Bool.false_ne_true]
    by_cases hzero : params = 0
    · dsimp only
      rw [if_pos hzero]
      subst hzero
      refine ⟨_, rfl, ⟨le_refl _, le_refl _⟩, rfl, fun i => ?_⟩
      rw [if_neg (not_lt.mpr (Int.natCast_nonneg i))]
      exact RecordArray.view_of_le (Int.natCast_nonneg i)
    · dsimp only
      rw [if_neg hzero]
      refine ⟨_, rfl, RecordArray.wellFormed_shrink hwf hpos hle, rfl, fun i => ?_⟩
      rw [RecordArray.view_shrink hle]
      by_cases hi : (i : ℤ) < params
      · rw [if_pos hi, if_pos hi, hview i hi]
      · rw [if_neg hi, if_neg hi]

/-- A record in use is found. -/
theorem recordAt_of_le (h : r.WellFormed) {RecNumber : ℤ} (hpos : 0 < RecNumber)
    (hle : RecNumber ≤ r.used) :
    recordAt r RecNumber = .ok (r.view zero (RecNumber - 1).toNat) := by
  rw [recordAt, RecordArray.getElem?_of_lt zero h (by omega)]

end Array

/-! ### Representing a store -/

/-- The records in use lie in their block, and their cells are those of the store. -/
structure Represents {α : Type} (zero : α) (cellOf : α → Cell → Int64) (s : Store)
    (r : RecordArray α) : Prop where
  wellFormed : r.WellFormed
  count : s.count = r.used
  cell : ∀ i k, s.cell i k = cellOf (r.view zero i) k

section Representing

variable {α : Type} {zero : α} {cellOf : α → Cell → Int64} {s : Store} {r : RecordArray α}

/-- New records are cleared. -/
theorem Represents.upTo (h : Represents zero cellOf s r) (reset : α → α) (n : ℤ) :
    ∃ r', bindings_set zero reset true r n true = .ok r' ∧ Represents zero cellOf (s.upTo n) r' ∧
      ∀ i, r'.view zero i = r.view zero i := by
  obtain ⟨r', heq, hwf, hused, hview⟩ := bindings_set_max zero reset h.wellFormed n
  refine ⟨r', heq, ⟨hwf, ?_, fun i k => ?_⟩, hview⟩
  · rw [hused, ← h.count]
    rfl
  · rw [hview i]
    exact h.cell i k

/-- Records that are dropped are cleared. -/
theorem Represents.setCount (h : Represents zero cellOf s r) (reset : α → α)
    (hzero : ∀ k, cellOf zero k = 0) {n : ℤ} (hn : 0 ≤ n) :
    ∃ r', bindings_set zero reset true r n false = .ok r' ∧
      Represents zero cellOf (s.setCount n) r' := by
  obtain ⟨r', heq, hwf, hused, hview⟩ := bindings_set_count zero reset h.wellFormed hn
  refine ⟨r', heq, ⟨hwf, hused.symm, fun i k => ?_⟩⟩
  · change (if (i : ℤ) < n then s.cell i k else 0) = _
    rw [hview i]
    by_cases hi : (i : ℤ) < n
    · rw [if_pos hi, if_pos hi, h.cell]
    · rw [if_neg hi, if_neg hi, hzero]

/-- One record is changed, and the store at its place. -/
theorem Represents.modify (h : Represents zero cellOf s r) {i : ℕ} (hi : (i : ℤ) < r.used) {p : α}
    {s' : Store} (hcount : s'.count = s.count) (hsame : ∀ k, s'.cell i k = cellOf p k)
    (hother : ∀ j, j ≠ i → ∀ k, s'.cell j k = s.cell j k) :
    Represents zero cellOf s' (r.modify i fun _ => p) := by
  refine ⟨RecordArray.wellFormed_modify h.wellFormed i _, ?_, fun j k => ?_⟩
  · rw [hcount, h.count]
    rfl
  · rw [RecordArray.view_modify h.wellFormed hi]
    by_cases hj : j = i
    · rw [if_pos hj, hj, hsame]
    · rw [if_neg hj, hother j hj, h.cell]

end Representing

/-! ### Fields of a record -/

@[simp]
theorem put_cell (s : Store) (i : ℕ) (k : Cell) (v : Int64) (j : ℕ) (k' : Cell) :
    (s.put i k v).cell j k' = if j = i ∧ k' = k then v else s.cell j k' := rfl

@[simp]
theorem unbind_cell (s : Store) (i j : ℕ) (k : Cell) :
    (s.unbind i).cell j k = if j = i ∧ k = .dataPtr then 0 else s.cell j k := rfl

@[simp]
theorem clear_cell (s : Store) (i j : ℕ) (k : Cell) :
    (s.clear i).cell j k = if j = i then 0 else s.cell j k := rfl

/-- Setting a field of a record leaves the other records alone. -/
theorem setInfo_other (s : Store) (i : ℕ) (v : Int64) (field : FieldIdentifier) :
    (s.setInfo i v field).count = s.count ∧
      ∀ j, j ≠ i → ∀ k, (s.setInfo i v field).cell j k = s.cell j k := by
  cases field <;> exact ⟨rfl, fun j hj k => by simp [Store.setInfo, hj]⟩

theorem setImpl_other (s : Store) (i : ℕ) (v : Int64) (field : FieldIdentifier) :
    (s.setImpl i v field).count = s.count ∧
      ∀ j, j ≠ i → ∀ k, (s.setImpl i v field).cell j k = s.cell j k := by
  cases field with
  | SQL_DESC_TYPE =>
    rw [Store.setImpl]
    split
    · exact ⟨rfl, fun j hj k => by simp [hj]⟩
    · exact ⟨rfl, fun _ _ _ => rfl⟩
  | _ => exact ⟨rfl, fun j hj k => by simp [Store.setImpl, hj]⟩

/-- The record that `APDSetField` stores. -/
def storedInfo (field : FieldIdentifier) (v : Int64) (para : ParameterInfoClass) :
    ParameterInfoClass :=
  if (setParameterInfo field v para).2.1 then
    { (setParameterInfo field v para).1 with buffer := 0 }
  else (setParameterInfo field v para).1

theorem setInfo_same {s : Store} {i : ℕ} {para : ParameterInfoClass}
    (h : ∀ k, s.cell i k = para.cell k) (v : Int64) (field : FieldIdentifier) (k : Cell) :
    (s.setInfo i v field).cell i k = (storedInfo field v para).cell k := by
  cases field <;> cases k <;>
    simp [Store.setInfo, storedInfo, setParameterInfo, ParameterInfoClass.cell, h]

/-- Two small numbers are the same as large ones. -/
theorem toInt64_ne {a b : Int16} : a.toInt64 ≠ b.toInt64 ↔ a ≠ b := by
  refine not_congr ⟨fun h => ?_, fun h => h ▸ rfl⟩
  rw [← Int16.toInt16_toInt64 a, h, Int16.toInt16_toInt64]

theorem setImpl_same {s : Store} {i : ℕ} {para : ParameterImplClass}
    (h : ∀ k, s.cell i k = para.cell k) {c : Call} (hgranted : c.granted = true)
    (hunnamed : ¬ (c.FieldIdentifier = .SQL_DESC_UNNAMED ∧ SQL_UNNAMED.toInt16 ≠ c.Value.toInt16))
    (k : Cell) :
    (s.setImpl i c.Value c.FieldIdentifier).cell i k = (setParameterImpl c para).1.cell k := by
  rw [setParameterImpl]
  cases hfield : c.FieldIdentifier with
  | SQL_DESC_TYPE =>
    have htype : s.cell i .type = para.SQLType.toInt64 := h .type
    rw [Store.setImpl, htype]
    by_cases hne : para.SQLType ≠ c.Value.toInt16
    · rw [if_pos (toInt64_ne.mpr hne), if_pos hne]
      cases k <;> simp [ParameterImplClass.cell, ParameterImplClass.reset]
    · rw [if_neg (mt toInt64_ne.mp hne), if_neg hne]
      exact h k
  | SQL_DESC_UNNAMED =>
    have hsame : ¬ SQL_UNNAMED.toInt16 ≠ c.Value.toInt16 := fun hne => hunnamed ⟨hfield, hne⟩
    dsimp only
    rw [if_neg hsame]
    cases k <;> simp [Store.setImpl, ParameterImplClass.cell, h]
  | SQL_DESC_NAME =>
    by_cases hv : c.Value = 0 <;> cases k <;>
      simp [Store.setImpl, ParameterImplClass.cell, h, hv, hgranted]
  | _ => cases k <;> simp [Store.setImpl, ParameterImplClass.cell, h]

/-! ### Setting a field -/

theorem upTo_of_le {s : Store} {n : ℤ} (hn : n ≤ s.count) : s.upTo n = s := by
  rw [Store.upTo, max_eq_left hn]

theorem parameter_bindings_set_ok {opts : APDFields} {n : ℤ} {maxset : Bool}
    {r : RecordArray ParameterInfoClass}
    (h : bindings_set .zero ParameterInfoClass.reset true opts.records n maxset = .ok r) :
    parameter_bindings_set true opts n maxset = .ok { opts with records := r } := by
  rw [parameter_bindings_set, h]
  rfl

theorem parameter_ibindings_set_ok {opts : IPDFields} {n : ℤ} {maxset : Bool}
    {r : RecordArray ParameterImplClass}
    (h : bindings_set .zero ParameterImplClass.reset true opts.records n maxset = .ok r) :
    parameter_ibindings_set true opts n maxset = .ok { opts with records := r } := by
  rw [parameter_ibindings_set, h]
  rfl

/-- The records of an application descriptor represent `s`. -/
abbrev RepresentsInfo (s : Store) (opts : APDFields) : Prop :=
  Represents .zero ParameterInfoClass.cell s opts.records

/-- The records of an implementation descriptor represent `s`. -/
abbrev RepresentsImpl (s : Store) (opts : IPDFields) : Prop :=
  Represents .zero ParameterImplClass.cell s opts.records

section Setting

variable {s : Store} {c : Call}

/-- Records are brought into being where they are asked for. -/
theorem RepresentsInfo.extendIf {opts : APDFields} (h : RepresentsInfo s opts)
    (hgranted : c.granted = true) (p : Prop) [Decidable p] :
    ∃ opts', opts.extendIf p c = .ok opts' ∧
      RepresentsInfo (if p then s.upTo c.RecNumber else s) opts' ∧
        ∀ i, opts'.records.view .zero i = opts.records.view .zero i := by
  rw [APDFields.extendIf, hgranted]
  by_cases hp : p
  · rw [if_pos hp, if_pos hp]
    obtain ⟨r, heq, hrep, hview⟩ := h.upTo ParameterInfoClass.reset c.RecNumber
    exact ⟨_, parameter_bindings_set_ok heq, hrep, hview⟩
  · rw [if_neg hp, if_neg hp]
    exact ⟨opts, rfl, h, fun _ => rfl⟩

theorem RepresentsImpl.extendIf {opts : IPDFields} (h : RepresentsImpl s opts)
    (hgranted : c.granted = true) (p : Prop) [Decidable p] :
    ∃ opts', opts.extendIf p c = .ok opts' ∧
      RepresentsImpl (if p then s.upTo c.RecNumber else s) opts' ∧
        ∀ i, opts'.records.view .zero i = opts.records.view .zero i := by
  rw [IPDFields.extendIf, hgranted]
  by_cases hp : p
  · rw [if_pos hp, if_pos hp]
    obtain ⟨r, heq, hrep, hview⟩ := h.upTo ParameterImplClass.reset c.RecNumber
    exact ⟨_, parameter_ibindings_set_ok heq, hrep, hview⟩
  · rw [if_neg hp, if_neg hp]
    exact ⟨opts, rfl, h, fun _ => rfl⟩

/-- A field of a record of an application descriptor. -/
theorem APDSetRecordField_spec {opts : APDFields} (h : RepresentsInfo s opts)
    (hgranted : c.granted = true) :
    ∃ opts' error, APDSetRecordField opts c = .ok (opts', error) ∧
      RepresentsInfo (if c.RecNumber ≤ 0 then s else
        (s.upTo c.RecNumber).setInfo (c.RecNumber - 1).toNat c.Value c.FieldIdentifier) opts' ∧
      ∀ i : ℕ, (i : ℤ) + 1 ≠ c.RecNumber →
        opts'.records.view .zero i = opts.records.view .zero i := by
  have hnonneg : 0 ≤ s.count := by
    rw [h.count]
    exact h.wellFormed.nonneg
  rw [APDSetRecordField]
  obtain ⟨opts₁, heq₁, hrep₁, hview₁⟩ := h.extendIf hgranted (c.FieldIdentifier = .SQL_DESC_TYPE ∨
    c.FieldIdentifier = .SQL_DESC_DATETIME_INTERVAL_CODE ∨
    c.FieldIdentifier = .SQL_DESC_CONCISE_TYPE)
  rw [heq₁, ok_bind]
  by_cases hpos : c.RecNumber ≤ 0
  · rw [if_pos hpos, if_pos hpos]
    rw [upTo_of_le (hpos.trans hnonneg), ite_self] at hrep₁
    exact ⟨opts₁, _, rfl, hrep₁, fun i _ => hview₁ i⟩
  rw [if_neg hpos, if_neg hpos]
  obtain ⟨opts₂, heq₂, hrep₂, hview₂⟩ := RepresentsInfo.extendIf hrep₁ hgranted
    (opts₁.records.used < c.RecNumber)
  rw [heq₂, ok_bind]
  -- the record is there, whichever of the two calls has brought it into being
  have hstore : RepresentsInfo (s.upTo c.RecNumber) opts₂ := by
    have hcount := hrep₁.count
    by_cases hp : c.FieldIdentifier = .SQL_DESC_TYPE ∨
        c.FieldIdentifier = .SQL_DESC_DATETIME_INTERVAL_CODE ∨
        c.FieldIdentifier = .SQL_DESC_CONCISE_TYPE
    · rw [if_pos hp] at hrep₂ hcount
      have hthere : c.RecNumber ≤ opts₁.records.used := by
        rw [← hcount]
        exact le_max_right _ _
      rw [if_neg (not_lt.mpr hthere)] at hrep₂
      exact hrep₂
    · rw [if_neg hp] at hrep₂ hcount
      by_cases hlt : opts₁.records.used < c.RecNumber
      · rw [if_pos hlt] at hrep₂
        exact hrep₂
      · rw [if_neg hlt] at hrep₂
        rw [upTo_of_le (by rw [hcount]; exact not_lt.mp hlt)]
        exact hrep₂
  have hin : c.RecNumber ≤ opts₂.records.used := by
    rw [← hstore.count]
    exact le_max_right _ _
  rw [recordAt_of_le .zero hstore.wellFormed (not_le.mp hpos) hin, ok_bind]
  have hother := setInfo_other (s.upTo c.RecNumber) (c.RecNumber - 1).toNat c.Value
    c.FieldIdentifier
  refine ⟨_, _, rfl, hstore.modify (by omega) hother.1 ?_ hother.2, fun i hi => ?_⟩
  · exact setInfo_same (fun k => hstore.cell _ k) c.Value c.FieldIdentifier
  · rw [RecordArray.view_modify hstore.wellFormed (by omega), if_neg (by omega), hview₂, hview₁]

/-- A field of a record of an implementation descriptor. -/
theorem IPDSetRecordField_spec {opts : IPDFields} (h : RepresentsImpl s opts)
    (hgranted : c.granted = true) (hheader : c.FieldIdentifier.isHeader .implementation = false)
    (hcount : c.FieldIdentifier ≠ .SQL_DESC_COUNT) :
    ∃ opts' error, IPDSetRecordField opts c = .ok (opts', error) ∧
      RepresentsImpl (s.set .implementation c) opts' ∧
      ∀ i : ℕ, (i : ℤ) + 1 ≠ c.RecNumber →
        opts'.records.view .zero i = opts.records.view .zero i := by
  have hnonneg : 0 ≤ s.count := by
    rw [h.count]
    exact h.wellFormed.nonneg
  rw [IPDSetRecordField, Store.set, hheader, if_neg Bool.false_ne_true, if_neg hcount]
  dsimp only
  by_cases hunnamed : c.FieldIdentifier = .SQL_DESC_UNNAMED ∧
      SQL_UNNAMED.toInt16 ≠ c.Value.toInt16
  · rw [if_pos hunnamed, if_pos hunnamed, ite_self]
    exact ⟨opts, _, rfl, h, fun _ _ => rfl⟩
  rw [if_neg hunnamed, if_neg hunnamed]
  obtain ⟨opts₁, heq₁, hrep₁, hview₁⟩ := h.extendIf hgranted
    (c.FieldIdentifier = .SQL_DESC_UNNAMED ∨ c.FieldIdentifier = .SQL_DESC_NAME ∨
      c.FieldIdentifier = .SQL_DESC_TYPE ∨ c.FieldIdentifier = .SQL_DESC_DATETIME_INTERVAL_CODE ∨
      c.FieldIdentifier = .SQL_DESC_CONCISE_TYPE)
  rw [heq₁, ok_bind]
  have hcreates : c.FieldIdentifier.creates = true ↔ (c.FieldIdentifier = .SQL_DESC_UNNAMED ∨
      c.FieldIdentifier = .SQL_DESC_NAME ∨ c.FieldIdentifier = .SQL_DESC_TYPE ∨
      c.FieldIdentifier = .SQL_DESC_DATETIME_INTERVAL_CODE ∨
      c.FieldIdentifier = .SQL_DESC_CONCISE_TYPE) := by
    simp [FieldIdentifier.creates, or_assoc]
  rw [← if_congr hcreates rfl rfl] at hrep₁
  by_cases hpos : c.RecNumber ≤ 0
  · rw [if_pos (.inl hpos), if_pos hpos]
    rw [upTo_of_le (hpos.trans hnonneg), ite_self] at hrep₁
    exact ⟨opts₁, _, rfl, hrep₁, fun i _ => hview₁ i⟩
  rw [if_neg hpos]
  generalize (if c.FieldIdentifier.creates = true then s.upTo c.RecNumber else s) = s₁ at hrep₁ ⊢
  by_cases hbehind : s₁.count < c.RecNumber
  · rw [if_pos hbehind, if_pos (.inr (by rw [← hrep₁.count]; exact hbehind))]
    exact ⟨opts₁, _, rfl, hrep₁, fun i _ => hview₁ i⟩
  have hin : c.RecNumber ≤ opts₁.records.used := by
    rw [← hrep₁.count]
    exact not_lt.mp hbehind
  rw [if_neg hbehind, if_neg (not_or.mpr ⟨hpos, not_lt.mpr hin⟩),
    recordAt_of_le .zero hrep₁.wellFormed (not_le.mp hpos) hin, ok_bind]
  have hother := setImpl_other s₁ (c.RecNumber - 1).toNat c.Value c.FieldIdentifier
  refine ⟨_, _, rfl, hrep₁.modify (by omega) hother.1 ?_ hother.2, fun i hi => ?_⟩
  · exact setImpl_same (fun k => hrep₁.cell _ k) hgranted hunnamed
  · rw [RecordArray.view_modify hrep₁.wellFormed (by omega), if_neg (by omega), hview₁]

/-- A call goes through and moves the store, and the records of other numbers stay, unless it sets
how many there are. -/
def StepsInfo (s : Store) (opts : APDFields) (c : Call) : Prop :=
  ∃ opts' error, APDSetField opts c = .ok (opts', error) ∧
    RepresentsInfo (s.set .application c) opts' ∧
    (c.FieldIdentifier ≠ .SQL_DESC_COUNT → ∀ i : ℕ, (i : ℤ) + 1 ≠ c.RecNumber →
      opts'.records.view .zero i = opts.records.view .zero i)

/-- The same for an implementation descriptor. -/
def StepsImpl (s : Store) (opts : IPDFields) (c : Call) : Prop :=
  ∃ opts' error, IPDSetField opts c = .ok (opts', error) ∧
    RepresentsImpl (s.set .implementation c) opts' ∧
    (c.FieldIdentifier ≠ .SQL_DESC_COUNT → ∀ i : ℕ, (i : ℤ) + 1 ≠ c.RecNumber →
      opts'.records.view .zero i = opts.records.view .zero i)

/-- A field of the header. -/
theorem stepsInfo_header {opts opts' : APDFields} (h : RepresentsInfo s opts)
    (hheader : c.FieldIdentifier.isHeader .application = true) {error : Option DescError}
    (heq : APDSetField opts c = .ok (opts', error)) (hsame : opts'.records = opts.records) :
    StepsInfo s opts c := by
  refine ⟨opts', error, heq, ?_, fun _ i _ => by rw [hsame]⟩
  rw [Store.set, hheader, if_pos rfl, RepresentsInfo, hsame]
  exact h

/-- `APDSetField` -/
theorem APDSetField_spec {opts : APDFields} (h : RepresentsInfo s opts) (hc : c.Regular) :
    StepsInfo s opts c := by
  cases hfield : c.FieldIdentifier with
  | SQL_DESC_ARRAY_SIZE =>
    by_cases hlarge : INT_MAX < c.Value.toUInt64
    · have heq : APDSetField opts c = .ok (opts, some ⟨.DESC_VALUE_OUT_OF_RANGE,
          "SQL_DESC_ARRAY_SIZE is too large"⟩) := by
        rw [APDSetField, hfield]
        exact if_pos hlarge
      exact stepsInfo_header h (by rw [hfield]; rfl) heq rfl
    · have heq : APDSetField opts c = .ok ({ opts with paramset_size := c.Value }, none) := by
        rw [APDSetField, hfield]
        exact if_neg hlarge
      exact stepsInfo_header h (by rw [hfield]; rfl) heq rfl
  | SQL_DESC_ARRAY_STATUS_PTR =>
    have heq : APDSetField opts c = .ok ({ opts with param_operation_ptr := c.Value }, none) := by
      rw [APDSetField, hfield]
    exact stepsInfo_header h (by rw [hfield]; rfl) heq rfl
  | SQL_DESC_BIND_OFFSET_PTR =>
    have heq : APDSetField opts c = .ok ({ opts with param_offset_ptr := c.Value }, none) := by
      rw [APDSetField, hfield]
    exact stepsInfo_header h (by rw [hfield]; rfl) heq rfl
  | SQL_DESC_BIND_TYPE =>
    have heq : APDSetField opts c =
        .ok ({ opts with param_bind_type := c.Value.toUInt64.toUInt32 }, none) := by
      rw [APDSetField, hfield]
    exact stepsInfo_header h (by rw [hfield]; rfl) heq rfl
  | SQL_DESC_COUNT =>
    obtain ⟨r, heq, hrep⟩ := h.setCount ParameterInfoClass.reset
      (fun k => by cases k <;> rfl) (hc.count hfield)
    refine ⟨{ opts with records := r }, none, ?_, ?_, fun hne => absurd hfield hne⟩
    · rw [APDSetField, hfield, hc.granted]
      dsimp only
      rw [parameter_bindings_set_ok heq]
      rfl
    · rw [Store.set, hfield]
      exact hrep
  | _ =>
    obtain ⟨opts', error, heq, hrep, hview⟩ := APDSetRecordField_spec h hc.granted
    have hheader : c.FieldIdentifier.isHeader .application = false := by
      rw [hfield]
      rfl
    have hcount : c.FieldIdentifier ≠ .SQL_DESC_COUNT := by
      rw [hfield]
      simp
    refine ⟨opts', error, ?_, ?_, fun _ => hview⟩
    · rw [APDSetField, hfield]
      exact heq
    · rw [Store.set, hheader, if_neg Bool.false_ne_true, if_neg hcount]
      exact hrep

/-- `IPDSetField` -/
theorem IPDSetField_spec {opts : IPDFields} (h : RepresentsImpl s opts) (hc : c.Regular) :
    StepsImpl s opts c := by
  cases hfield : c.FieldIdentifier with
  | SQL_DESC_ARRAY_STATUS_PTR =>
    refine ⟨{ opts with param_status_ptr := c.Value }, none, by rw [IPDSetField, hfield], ?_,
      fun _ _ _ => rfl⟩
    rw [Store.set, hfield]
    exact h
  | SQL_DESC_ROWS_PROCESSED_PTR =>
    refine ⟨{ opts with param_processed_ptr := c.Value }, none, by rw [IPDSetField, hfield], ?_,
      fun _ _ _ => rfl⟩
    rw [Store.set, hfield]
    exact h
  | SQL_DESC_COUNT =>
    obtain ⟨r, heq, hrep⟩ := h.setCount ParameterImplClass.reset
      (fun k => by cases k <;> rfl) (hc.count hfield)
    refine ⟨{ opts with records := r }, none, ?_, ?_, fun hne => absurd hfield hne⟩
    · rw [IPDSetField, hfield, hc.granted]
      dsimp only
      rw [parameter_ibindings_set_ok heq]
      rfl
    · rw [Store.set, hfield]
      exact hrep
  | _ =>
    obtain ⟨opts', error, heq, hrep, hview⟩ := IPDSetRecordField_spec h hc.granted
      (by rw [hfield]; rfl) (by rw [hfield]; simp)
    refine ⟨opts', error, ?_, hrep, fun _ => hview⟩
    rw [IPDSetField, hfield]
    exact heq

end Setting

/-! ### Getting a field -/

theorem datetimeCode_small (type : Int16) :
    (datetimeCode type).toInt16.toInt64 = datetimeCode type := by
  unfold datetimeCode
  split
  · decide
  · split
    · decide
    · split <;> decide

/-- The C type of a field that is shown. -/
def FieldIdentifier.rettype : FieldIdentifier → RetType
  | .SQL_DESC_DATA_PTR => .SQL_IS_POINTER
  | .SQL_DESC_INDICATOR_PTR => .SQL_IS_POINTER
  | .SQL_DESC_OCTET_LENGTH_PTR => .SQL_IS_POINTER
  | .SQL_DESC_OCTET_LENGTH => .SQL_IS_INTEGER
  | _ => .SQL_IS_SMALLINT

/-- What is shown of a record of an application descriptor. -/
theorem getParameterInfo_shown {s : Store} {i : ℕ} {para : ParameterInfoClass}
    (h : ∀ k, s.cell i k = para.cell k) (embedded : Bool) {field : FieldIdentifier}
    (hfield : field.isShown .application = true) :
    getParameterInfo embedded para field =
      ⟨SQL_SUCCESS, some (field.rettype, s.shown .application i field), none⟩ := by
  cases field <;> first
    | exact absurd hfield (by decide)
    | simp [getParameterInfo, Got.ok, Store.shown, h, ParameterInfoClass.cell, datetimeCode_small,
        FieldIdentifier.rettype]

/-- What is shown of a record of an implementation descriptor. -/
theorem getParameterImpl_shown {s : Store} {i : ℕ} {para : ParameterImplClass}
    (h : ∀ k, s.cell i k = para.cell k) {field : FieldIdentifier}
    (hfield : field.isShown .implementation = true) :
    getParameterImpl para field =
      ⟨SQL_SUCCESS, some (field.rettype, s.shown .implementation i field), none⟩ := by
  have hnumeric : para.SQLType.toInt64 = SQL_NUMERIC.toInt64 ↔ para.SQLType = SQL_NUMERIC := by
    rw [← not_iff_not]
    exact toInt64_ne
  cases field with
  | SQL_DESC_UNNAMED =>
    cases hname : para.paramName <;>
      simp [getParameterImpl, Got.ok, Store.shown, h, ParameterImplClass.cell, hname,
        FieldIdentifier.rettype, SQL_UNNAMED, SQL_NAMED]
  | SQL_DESC_SCALE =>
    by_cases htype : para.SQLType = SQL_NUMERIC <;>
      simp [getParameterImpl, Got.ok, Store.shown, h, ParameterImplClass.cell, hnumeric, htype,
        FieldIdentifier.rettype]
  | _ => first
    | exact absurd hfield (by decide)
    | simp [getParameterImpl, Got.ok, Store.shown, h, ParameterImplClass.cell, datetimeCode_small,
        FieldIdentifier.rettype]

/-! ### Runs -/

/-- The records of a descriptor represent `s`. -/
def RepresentsDesc (s : Store) (desc : DescriptorClass) : Prop :=
  match desc.fields with
  | .apdf opts => RepresentsInfo s opts
  | .ipdf ipdopts => RepresentsImpl s ipdopts

theorem represents_store {desc : DescriptorClass} (h : desc.WellFormed) :
    RepresentsDesc desc.store desc := by
  obtain ⟨embedded, error, fields⟩ := desc
  cases fields with
  | apdf opts => exact ⟨h, rfl, fun _ _ => rfl⟩
  | ipdf ipdopts => exact ⟨h, rfl, fun _ _ => rfl⟩

theorem RepresentsDesc.count {s : Store} {desc : DescriptorClass} (h : RepresentsDesc s desc) :
    s.count = desc.allocated := by
  obtain ⟨embedded, error, fields⟩ := desc
  cases fields with
  | apdf opts => exact Represents.count h
  | ipdf ipdopts => exact Represents.count h

theorem finish_fields (desc : DescriptorClass) (fields : Fields) (error : Option DescError) :
    (desc.finish fields error).1.fields = fields := by
  cases error <;> rfl

/-- **One call.** It goes through, moves the store, and leaves the other records alone, unless it
sets how many there are. -/
theorem PGAPI_SetDescField_spec {s : Store} {desc : DescriptorClass} (h : RepresentsDesc s desc)
    {c : Call} (hc : c.Regular) :
    ∃ desc' ret, PGAPI_SetDescField desc c = .ok (desc', ret) ∧ desc'.kind = desc.kind ∧
      RepresentsDesc (s.set desc.kind c) desc' ∧
      (c.FieldIdentifier ≠ .SQL_DESC_COUNT → ∀ i : ℕ, (i : ℤ) + 1 ≠ c.RecNumber →
        desc'.record i = desc.record i) := by
  obtain ⟨embedded, error, fields⟩ := desc
  cases fields with
  | apdf opts =>
    obtain ⟨opts', error', heq, hrep, hview⟩ := APDSetField_spec h hc
    let desc : DescriptorClass := ⟨embedded, error, .apdf opts⟩
    have hfields := finish_fields desc (.apdf opts') error'
    refine ⟨(desc.finish (.apdf opts') error').1, (desc.finish (.apdf opts') error').2, ?_, ?_, ?_,
      fun hcount i hi => ?_⟩
    · rw [PGAPI_SetDescField]
      dsimp only
      rw [heq]
      rfl
    · rw [DescriptorClass.kind, hfields]
      rfl
    · rw [RepresentsDesc, hfields]
      exact hrep
    · rw [DescriptorClass.record, hfields]
      exact congrArg Record.info (hview hcount i hi)
  | ipdf ipdopts =>
    obtain ⟨ipdopts', error', heq, hrep, hview⟩ := IPDSetField_spec h hc
    let desc : DescriptorClass := ⟨embedded, error, .ipdf ipdopts⟩
    have hfields := finish_fields desc (.ipdf ipdopts') error'
    refine ⟨(desc.finish (.ipdf ipdopts') error').1, (desc.finish (.ipdf ipdopts') error').2, ?_,
      ?_, ?_, fun hcount i hi => ?_⟩
    · rw [PGAPI_SetDescField]
      dsimp only
      rw [heq]
      rfl
    · rw [DescriptorClass.kind, hfields]
      rfl
    · rw [RepresentsDesc, hfields]
      exact hrep
    · rw [DescriptorClass.record, hfields]
      exact congrArg Record.impl (hview hcount i hi)

/-- What is shown of a record in use is read. -/
theorem reads_shown {s : Store} {desc : DescriptorClass} (h : RepresentsDesc s desc) {i : ℕ}
    (hi : (i : ℤ) < desc.allocated) {field : FieldIdentifier}
    (hfield : field.isShown desc.kind = true) :
    Reads desc (i + 1) field (s.shown desc.kind i field) := by
  obtain ⟨embedded, error, fields⟩ := desc
  have hplace : ((i : ℤ) + 1 - 1).toNat = i := by omega
  cases fields with
  | apdf opts =>
    have hin : ¬ ((i : ℤ) + 1 ≤ 0 ∨ opts.records.used < i + 1) := by
      rintro (hneg | hbehind)
      · omega
      · exact absurd hi (not_lt.mpr (Int.le_of_lt_add_one hbehind))
    have hrecord := recordAt_of_le .zero (Represents.wellFormed h)
      (show (0 : ℤ) < i + 1 by omega) (show (i : ℤ) + 1 ≤ opts.records.used from hi)
    rw [hplace] at hrecord
    have hshown := getParameterInfo_shown (fun k => Represents.cell h i k) embedded hfield
    refine ⟨field.rettype, ?_⟩
    have hget : PGAPI_GetDescField ⟨embedded, error, .apdf opts⟩ (i + 1) field =
        APDGetRecordField embedded opts (i + 1) field := by
      change field.isShown .application = true at hfield
      cases field <;> first
        | rfl
        | exact absurd hfield (by decide)
    rw [hget, APDGetRecordField, if_neg hin, hrecord, ok_bind, hshown]
    rfl
  | ipdf ipdopts =>
    have hin : ¬ ((i : ℤ) + 1 ≤ 0 ∨ ipdopts.records.used < i + 1) := by
      rintro (hneg | hbehind)
      · omega
      · exact absurd hi (not_lt.mpr (Int.le_of_lt_add_one hbehind))
    have hrecord := recordAt_of_le .zero (Represents.wellFormed h)
      (show (0 : ℤ) < i + 1 by omega) (show (i : ℤ) + 1 ≤ ipdopts.records.used from hi)
    rw [hplace] at hrecord
    have hshown := getParameterImpl_shown (fun k => Represents.cell h i k) hfield
    refine ⟨field.rettype, ?_⟩
    have hget : PGAPI_GetDescField ⟨embedded, error, .ipdf ipdopts⟩ (i + 1) field =
        IPDGetRecordField ipdopts (i + 1) field := by
      change field.isShown .implementation = true at hfield
      cases field <;> first
        | rfl
        | exact absurd hfield (by decide)
    rw [hget, IPDGetRecordField, if_neg hin, hrecord, ok_bind, hshown]
    rfl

/-- **A run of calls.** -/
theorem setFields_spec {calls : List Call} : ∀ {s : Store} {desc : DescriptorClass},
    RepresentsDesc s desc → (∀ c ∈ calls, c.Regular) →
      ∃ desc', setFields desc calls = .ok desc' ∧ desc'.kind = desc.kind ∧
        RepresentsDesc (calls.foldl (Store.set desc.kind) s) desc' := by
  induction calls with
  | nil => exact fun h _ => ⟨_, rfl, rfl, h⟩
  | cons c calls ih =>
    intro s desc h hcalls
    obtain ⟨hc, hcalls⟩ := List.forall_mem_cons.mp hcalls
    obtain ⟨desc₁, ret, heq, hkind, hrep, -⟩ := PGAPI_SetDescField_spec h hc
    obtain ⟨desc₂, hrun, hkind₂, hrep₂⟩ := ih hrep hcalls
    rw [hkind] at hkind₂ hrep₂
    refine ⟨desc₂, ?_, hkind₂, hrep₂⟩
    rw [setFields, List.foldlM_cons, heq]
    exact hrun

/-- No record is lost, unless the number of records is set. -/
theorem count_le_set {s : Store} (kind : Kind) {c : Call}
    (hcount : c.FieldIdentifier ≠ .SQL_DESC_COUNT) : s.count ≤ (s.set kind c).count := by
  have hupTo : s.count ≤ (s.upTo c.RecNumber).count := le_max_left _ _
  rw [Store.set, if_neg hcount]
  split
  · exact le_refl _
  split
  · exact le_refl _
  cases kind with
  | application =>
    dsimp only
    rw [(setInfo_other _ _ _ _).1]
    exact hupTo
  | implementation =>
    dsimp only
    split
    · exact le_refl _
    have hcreated : s.count ≤
        (if c.FieldIdentifier.creates = true then s.upTo c.RecNumber else s).count := by
      split
      · exact hupTo
      · exact le_refl _
    generalize (if c.FieldIdentifier.creates = true then s.upTo c.RecNumber else s) = s₁
      at hcreated ⊢
    by_cases hbehind : s₁.count < c.RecNumber
    · rw [if_pos hbehind]
      exact hcreated
    · rw [if_neg hbehind, (setImpl_other _ _ _ _).1]
      exact hcreated

/-- **Fields are read back.** After any regular calls, `SQLGetDescField` succeeds on every field of
every record that is there and gives what the store shows, which is what was last set; and one more
call changes no record but its own. -/
theorem fields_read_back (desc : DescriptorClass) (hdesc : desc.WellFormed) (calls : List Call)
    (hcalls : ∀ c ∈ calls, c.Regular) :
    ∃ desc', setFields desc calls = .ok desc' ∧
      desc'.allocated = (calls.foldl (Store.set desc.kind) desc.store).count ∧
      (∀ (i : ℕ) (field : FieldIdentifier), (i : ℤ) < desc'.allocated →
        field.isShown desc.kind = true → Reads desc' (i + 1) field
          ((calls.foldl (Store.set desc.kind) desc.store).shown desc.kind i field)) ∧
      ∀ c : Call, c.Regular → c.FieldIdentifier ≠ .SQL_DESC_COUNT →
        ∃ desc'' ret, PGAPI_SetDescField desc' c = .ok (desc'', ret) ∧
          desc'.allocated ≤ desc''.allocated ∧
            ∀ i : ℕ, (i : ℤ) + 1 ≠ c.RecNumber → desc''.record i = desc'.record i := by
  obtain ⟨desc', hrun, hkind, hrep⟩ := setFields_spec (represents_store hdesc) hcalls
  refine ⟨desc', hrun, hrep.count.symm, fun i field hi hfield => ?_, fun c hc hcount => ?_⟩
  · rw [← hkind] at hfield ⊢
    exact reads_shown (by rw [hkind]; exact hrep) hi hfield
  · obtain ⟨desc'', ret, heq, -, hrep'', hother⟩ := PGAPI_SetDescField_spec hrep hc
    refine ⟨desc'', ret, heq, ?_, hother hcount⟩
    rw [← hrep.count, ← hrep''.count]
    exact count_le_set _ hcount

/-- An application descriptor without records. -/
def freshDescriptor : DescriptorClass := ⟨false, none, .apdf ⟨1, 0, 0, 0, .empty⟩⟩

/-- Four calls: a date type in two steps, a second record, and its end. -/
def dateCalls : List Call :=
  [⟨1, .SQL_DESC_TYPE, 9, [], true⟩, ⟨1, .SQL_DESC_DATETIME_INTERVAL_CODE, 1, [], true⟩,
    ⟨2, .SQL_DESC_DATA_PTR, 4096, [], true⟩, ⟨0, .SQL_DESC_COUNT, 1, [], true⟩]

theorem date_read_back : ∃ desc', setFields freshDescriptor dateCalls = .ok desc' ∧
    desc'.allocated = 1 ∧ Reads desc' 1 .SQL_DESC_CONCISE_TYPE 91 := by
  have hregular : ∀ c ∈ dateCalls, c.Regular := by
    intro c hc
    simp only [dateCalls, List.mem_cons, List.not_mem_nil, or_false] at hc
    rcases hc with rfl | rfl | rfl | rfl <;> exact ⟨rfl, fun _ => by decide⟩
  obtain ⟨desc', hrun, hcount, hread, -⟩ := fields_read_back freshDescriptor
    RecordArray.wellFormed_empty dateCalls hregular
  have hone : desc'.allocated = 1 := by rw [hcount]; decide
  refine ⟨desc', hrun, hone, ?_⟩
  have hshown := hread 0 .SQL_DESC_CONCISE_TYPE (by rw [hone]; decide) (by decide)
  exact hshown

theorem reads_unique {desc : DescriptorClass} {RecNumber : ℤ} {field : FieldIdentifier}
    {v w : Int64} (hv : Reads desc RecNumber field v) (hw : Reads desc RecNumber field w) :
    v = w := by
  obtain ⟨rettype, hv⟩ := hv
  obtain ⟨rettype', hw⟩ := hw
  have hgot := Except.ok.inj (hv.symm.trans hw)
  injection hgot with _ hwritten _
  exact (Prod.mk.inj (Option.some.inj hwritten)).2

/-- The pointer that was set is gone once another field of the record is set. -/
theorem pointer_unbound : ∃ desc', setFields freshDescriptor
      [⟨1, .SQL_DESC_DATA_PTR, 4096, [], true⟩, ⟨1, .SQL_DESC_PRECISION, 5, [], true⟩] = .ok desc' ∧
    ¬ Reads desc' 1 .SQL_DESC_DATA_PTR 4096 := by
  refine ⟨_, rfl, fun h => ?_⟩
  exact absurd (reads_unique h ⟨.SQL_IS_POINTER, rfl⟩) (by decide)

end OdbcDriver.DescField
