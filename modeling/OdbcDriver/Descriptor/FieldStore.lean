import OdbcDriver.Descriptor.SetField

/-!
# What is last set is read back

A parameter descriptor as its application sees it: how many records there are, and for every record
one cell for each thing that can be set (`Store`). Setting a field changes cells of its record only:

* a type is one cell, which three fields set and show;
* in an application descriptor, setting anything but a pointer unbinds the record;
* in an implementation descriptor, setting another `SQL_DESC_TYPE` clears the record, and its scale
  shows for a `SQL_NUMERIC` only.

The arrays of the driver represent such a store, through every change of their size
(`fields_read_back`).
-/

namespace OdbcDriver.DescField

/-! ### The store -/

/-- What can be set of a record. -/
inductive Cell
  | type
  | dataPtr
  | indicatorPtr
  | octetLength
  | octetLengthPtr
  | precision
  | scale
  | parameterType
  /-- 1 for a record with a name -/
  | name
  deriving DecidableEq, Repr

/-- The records `1` to `count`, and the cells of record `i + 1` at `i`; a record that is not there
has been cleared. -/
structure Store where
  count : ℤ
  cell : ℕ → Cell → Int64

namespace Store

/-- One cell of one record. -/
def put (s : Store) (i : ℕ) (k : Cell) (v : Int64) : Store :=
  { s with cell := fun j k' => if j = i ∧ k' = k then v else s.cell j k' }

/-- All cells of one record. -/
def clear (s : Store) (i : ℕ) : Store :=
  { s with cell := fun j k => if j = i then 0 else s.cell j k }

/-- There are at least `n` records. -/
def upTo (s : Store) (n : ℤ) : Store := { s with count := max s.count n }

/-- There are `n` records; those behind are lost. -/
def setCount (s : Store) (n : ℤ) : Store where
  count := n
  cell i k := if (i : ℤ) < n then s.cell i k else 0

/-- Unbinding a record. -/
def unbind (s : Store) (i : ℕ) : Store := s.put i .dataPtr 0

/-- A field of a record of an application descriptor. -/
def setInfo (s : Store) (i : ℕ) (v : Int64) : FieldIdentifier → Store
  | .SQL_DESC_TYPE => (s.put i .type v.toInt16.toInt64).unbind i
  | .SQL_DESC_CONCISE_TYPE => (s.put i .type v.toInt16.toInt64).unbind i
  | .SQL_DESC_DATETIME_INTERVAL_CODE =>
    (s.put i .type (setDatetimeCode (s.cell i .type).toInt16 v).toInt64).unbind i
  | .SQL_DESC_DATA_PTR => s.put i .dataPtr v
  | .SQL_DESC_INDICATOR_PTR => s.put i .indicatorPtr v
  | .SQL_DESC_OCTET_LENGTH_PTR => s.put i .octetLengthPtr v
  | .SQL_DESC_OCTET_LENGTH => (s.put i .octetLength v.toInt32.toInt64).unbind i
  | .SQL_DESC_PRECISION => (s.put i .precision v.toInt16.toInt64).unbind i
  | .SQL_DESC_SCALE => (s.put i .scale v.toInt16.toInt64).unbind i
  | _ => s.unbind i

/-- A field of a record of an implementation descriptor. -/
def setImpl (s : Store) (i : ℕ) (v : Int64) : FieldIdentifier → Store
  | .SQL_DESC_TYPE =>
    if s.cell i .type ≠ v.toInt16.toInt64 then (s.clear i).put i .type v.toInt16.toInt64 else s
  | .SQL_DESC_CONCISE_TYPE => s.put i .type v.toInt16.toInt64
  | .SQL_DESC_DATETIME_INTERVAL_CODE =>
    s.put i .type (setDatetimeCode (s.cell i .type).toInt16 v).toInt64
  | .SQL_DESC_NAME => s.put i .name (if v ≠ 0 then 1 else 0)
  | .SQL_DESC_UNNAMED => s.put i .name 0
  | .SQL_DESC_PARAMETER_TYPE => s.put i .parameterType v.toInt16.toInt64
  | .SQL_DESC_SCALE => s.put i .scale v.toInt16.toInt64
  | _ => s

end Store

/-- The two types of parameter descriptors. -/
inductive Kind
  | application
  | implementation
  deriving DecidableEq, Repr

/-- The fields of the header, but for the number of records. -/
def FieldIdentifier.isHeader : Kind → FieldIdentifier → Bool
  | .application, field => field = .SQL_DESC_ARRAY_SIZE || field = .SQL_DESC_ARRAY_STATUS_PTR ||
      field = .SQL_DESC_BIND_OFFSET_PTR || field = .SQL_DESC_BIND_TYPE
  | .implementation, field =>
      field = .SQL_DESC_ARRAY_STATUS_PTR || field = .SQL_DESC_ROWS_PROCESSED_PTR

/-- The fields that bring a record of an implementation descriptor into being. -/
def FieldIdentifier.creates (field : FieldIdentifier) : Bool :=
  field = .SQL_DESC_UNNAMED || field = .SQL_DESC_NAME || field = .SQL_DESC_TYPE ||
    field = .SQL_DESC_DATETIME_INTERVAL_CODE || field = .SQL_DESC_CONCISE_TYPE

/-- One call, by what it means. -/
def Store.set (kind : Kind) (s : Store) (c : Call) : Store :=
  if c.FieldIdentifier.isHeader kind then s
  else if c.FieldIdentifier = .SQL_DESC_COUNT then s.setCount c.Value.toInt16.toInt
  else if c.RecNumber ≤ 0 then s
  else
    let i := (c.RecNumber - 1).toNat
    match kind with
    | .application => (s.upTo c.RecNumber).setInfo i c.Value c.FieldIdentifier
    | .implementation =>
      if c.FieldIdentifier = .SQL_DESC_UNNAMED ∧ SQL_UNNAMED.toInt16 ≠ c.Value.toInt16 then s
      else
        let s := if c.FieldIdentifier.creates then s.upTo c.RecNumber else s
        if s.count < c.RecNumber then s else s.setImpl i c.Value c.FieldIdentifier

/-- The fields of a record that are set and shown. -/
def FieldIdentifier.isShown : Kind → FieldIdentifier → Bool
  | .application, field => field = .SQL_DESC_TYPE || field = .SQL_DESC_DATETIME_INTERVAL_CODE ||
      field = .SQL_DESC_CONCISE_TYPE || field = .SQL_DESC_DATA_PTR ||
      field = .SQL_DESC_INDICATOR_PTR || field = .SQL_DESC_OCTET_LENGTH ||
      field = .SQL_DESC_OCTET_LENGTH_PTR || field = .SQL_DESC_PRECISION || field = .SQL_DESC_SCALE
  | .implementation, field => field = .SQL_DESC_TYPE ||
      field = .SQL_DESC_DATETIME_INTERVAL_CODE || field = .SQL_DESC_CONCISE_TYPE ||
      field = .SQL_DESC_UNNAMED || field = .SQL_DESC_PARAMETER_TYPE || field = .SQL_DESC_SCALE

/-- What a field of record `i + 1` shows. -/
def Store.shown (kind : Kind) (s : Store) (i : ℕ) : FieldIdentifier → Int64
  | .SQL_DESC_TYPE => (verboseType (s.cell i .type).toInt16).toInt64
  | .SQL_DESC_DATETIME_INTERVAL_CODE => datetimeCode (s.cell i .type).toInt16
  | .SQL_DESC_CONCISE_TYPE => s.cell i .type
  | .SQL_DESC_DATA_PTR => s.cell i .dataPtr
  | .SQL_DESC_INDICATOR_PTR => s.cell i .indicatorPtr
  | .SQL_DESC_OCTET_LENGTH => s.cell i .octetLength
  | .SQL_DESC_OCTET_LENGTH_PTR => s.cell i .octetLengthPtr
  | .SQL_DESC_PRECISION => s.cell i .precision
  | .SQL_DESC_SCALE =>
    if kind = .implementation ∧ s.cell i .type ≠ SQL_NUMERIC.toInt64 then 0 else s.cell i .scale
  | .SQL_DESC_UNNAMED => if s.cell i .name = 0 then SQL_UNNAMED else SQL_NAMED
  | .SQL_DESC_PARAMETER_TYPE => s.cell i .parameterType
  | _ => 0

/-! ### What the driver's records represent -/

/-- The cells of a record of an application descriptor. -/
def ParameterInfoClass.cell (para : ParameterInfoClass) : Cell → Int64
  | .type => para.CType.toInt64
  | .dataPtr => para.buffer
  | .indicatorPtr => para.indicator
  | .octetLength => para.buflen.toInt32.toInt64
  | .octetLengthPtr => para.used
  | .precision => para.precision.toInt64
  | .scale => para.scale.toInt64
  | .parameterType => 0
  | .name => 0

/-- The cells of a record of an implementation descriptor. -/
def ParameterImplClass.cell (para : ParameterImplClass) : Cell → Int64
  | .type => para.SQLType.toInt64
  | .scale => para.decimal_digits.toInt64
  | .parameterType => para.paramType.toInt64
  | .name => if para.paramName = none then 0 else 1
  | _ => 0

def DescriptorClass.kind (desc : DescriptorClass) : Kind :=
  match desc.fields with
  | .apdf _ => .application
  | .ipdf _ => .implementation

/-- `allocated` -/
def DescriptorClass.allocated (desc : DescriptorClass) : ℤ :=
  match desc.fields with
  | .apdf opts => opts.records.used
  | .ipdf ipdopts => ipdopts.records.used

/-- A record of either type. -/
inductive Record
  | info (para : ParameterInfoClass)
  | impl (para : ParameterImplClass)
  deriving DecidableEq

/-- Record `i + 1`. -/
def DescriptorClass.record (desc : DescriptorClass) (i : ℕ) : Record :=
  match desc.fields with
  | .apdf opts => .info (opts.records.view .zero i)
  | .ipdf ipdopts => .impl (ipdopts.records.view .zero i)

/-- The records in use lie in their block. -/
def DescriptorClass.WellFormed (desc : DescriptorClass) : Prop :=
  match desc.fields with
  | .apdf opts => opts.records.WellFormed
  | .ipdf ipdopts => ipdopts.records.WellFormed

/-- The store of a descriptor. -/
def DescriptorClass.store (desc : DescriptorClass) : Store where
  count := desc.allocated
  cell i := match desc.record i with
    | .info para => para.cell
    | .impl para => para.cell

/-! ### Runs -/

/-- The memory for new records is there, and the number of records is not set below zero. -/
structure Call.Regular (c : Call) : Prop where
  granted : c.granted = true
  count : c.FieldIdentifier = .SQL_DESC_COUNT → 0 ≤ c.Value.toInt16.toInt

/-- A sequence of calls, whatever they return. -/
def setFields (desc : DescriptorClass) (calls : List Call) : Except Fault DescriptorClass :=
  calls.foldlM (fun desc c => Prod.fst <$> PGAPI_SetDescField desc c) desc

/-- `SQLGetDescField` succeeds with a value. -/
def Reads (desc : DescriptorClass) (RecNumber : ℤ) (field : FieldIdentifier) (v : Int64) : Prop :=
  ∃ rettype, PGAPI_GetDescField desc RecNumber field =
    .ok ⟨SQL_SUCCESS, some (rettype, v), none⟩

end OdbcDriver.DescField
