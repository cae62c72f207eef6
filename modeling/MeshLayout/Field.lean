import MeshLayout.Column

/-!
# Fields

A field gives each of its elements the same number of values of one scalar type, in one array:
component `c` of element `i` is the value at `i * components + c`. Of several faults in a
request the type is named first, then the element, then the component or the number of values.
-/

set_option autoImplicit false

namespace MeshLayout

structure FieldType where
  scalar : Scalar
  components : Nat := 1
  deriving DecidableEq, Repr

instance : ToString FieldType where
  toString type :=
    if type.components = 1 then s!"{type.scalar}" else s!"{type.scalar}x{type.components}"

structure Declaration where
  name : String
  type : FieldType
  deriving DecidableEq, Repr

structure Field where
  name : String
  type : FieldType
  size : Nat
  cells : Array type.scalar.Carrier
  cells_size : cells.size = size * type.components

namespace Field

def zeroed (declaration : Declaration) (size : Nat) : Field where
  name := declaration.name
  type := declaration.type
  size := size
  cells := Array.replicate (size * declaration.type.components) declaration.type.scalar.zero
  cells_size := Array.size_replicate

def allocate (declaration : Declaration) (size : Nat) : Outcome Field :=
  if Column.Fits declaration.type.scalar (size * declaration.type.components) then
    .ok (zeroed declaration size)
  else Outcome.fault .outOfMemory

def components (field : Field) : Nat := field.type.components

def column (field : Field) : Column := ⟨field.type.scalar, field.cells⟩

/-- The values in storage order, read as the given type. -/
def values (field : Field) (scalar : Scalar) : Checked (Array scalar.Carrier) :=
  match field.column.as? scalar with
  | some cells => .ok cells
  | none => .error (.scalarMismatch field.name field.type.scalar scalar)

/-- The field with other values, if they are of the same type and as many. -/
def withColumn (field : Field) (column : Column) : Field :=
  match column.as? field.type.scalar with
  | none => field
  | some cells =>
    if h : cells.size = field.size * field.type.components then
      { field with cells := cells, cells_size := h }
    else field

def checkIndex (field : Field) (index : Nat) : Checked Unit :=
  Checked.require (index < field.size) (.outOfRange (.field field.name) index field.size)

def get (field : Field) (scalar : Scalar) (index component : Nat) : Outcome scalar.Carrier := do
  let cells ← field.values scalar
  field.checkIndex index
  Checked.require (component < field.components)
    (.outOfRange (.component field.name) component field.components)
  Outcome.ofLookup cells[index * field.components + component]?

def element (field : Field) (scalar : Scalar) (index : Nat) : Checked (Array scalar.Carrier) := do
  let cells ← field.values scalar
  field.checkIndex index
  Cells.read cells (index * field.components) field.components

def storeInPlace (field : Field) (scalar : Scalar) (cells : Array scalar.Carrier) (offset : Nat)
    (values : Array scalar.Carrier) : Field × Checked Unit :=
  let (cells, result) := Cells.writeInPlace cells offset values
  (field.withColumn ⟨scalar, cells⟩, result)

def setInPlace (field : Field) (scalar : Scalar) (index : Nat) (values : Array scalar.Carrier) :
    Field × Checked Unit :=
  (field.values scalar).orLeave field fun cells =>
    (field.checkIndex index).orLeave field fun _ =>
      (Checked.require (values.size = field.components)
        (.valueCount field.name field.components values.size)).orLeave field fun _ =>
          field.storeInPlace scalar cells (index * field.components) values

def fillInPlace (field : Field) (scalar : Scalar) (value : scalar.Carrier) :
    Field × Checked Unit :=
  (field.values scalar).orLeave field fun cells =>
    (field.withColumn (.filled scalar cells.size value), .ok ())

def loadInPlace (field : Field) (scalar : Scalar) (values : Array scalar.Carrier) :
    Field × Checked Unit :=
  (field.values scalar).orLeave field fun cells =>
    (Checked.require (values.size = cells.size)
      (.valueCount field.name cells.size values.size)).orLeave field fun _ =>
        field.storeInPlace scalar cells 0 values

section After

variable (field : Field) (scalar : Scalar)

def set (index : Nat) (values : Array scalar.Carrier) : Checked Field :=
  Checked.after (field.setInPlace scalar index values)

def fill (value : scalar.Carrier) : Checked Field := Checked.after (field.fillInPlace scalar value)

def load (values : Array scalar.Carrier) : Checked Field :=
  Checked.after (field.loadInPlace scalar values)

end After

end Field

end MeshLayout
