import MeshLayout.Field
import MeshLayout.Permutation

/-!
# Fields of a kind

The fields of the elements of one kind, stored by slot. Reading and writing by slot goes straight
to a field; by identity it goes through the permutation of the kind, and so do whole buffers,
whose position `i` is the element of identity `i`.
-/

set_option autoImplicit false

namespace MeshLayout

/-- A set of fields by ascending name. -/
structure FieldSet where
  kind : Kind
  permutation : Permutation
  fields : List Field

namespace FieldSet

def insert (field : Field) : List Field → List Field
  | [] => [field]
  | first :: rest =>
    if field.name < first.name then field :: first :: rest else first :: insert field rest

def declare (kind : Kind) (size : Nat) : List Declaration → List Field → Outcome (List Field)
  | [], fields => .ok fields
  | declaration :: rest, fields => do
    Checked.require (declaration.type.components ≠ 0)
      (.config (.emptyField kind declaration.name))
    let field ← Field.allocate declaration size
    Checked.require (fields.all (·.name != declaration.name))
      (.config (.repeatedField kind declaration.name))
    declare kind size rest (insert field fields)

def zeroed (kind : Kind) (permutation : Permutation) (declarations : List Declaration) :
    Outcome FieldSet := do
  return ⟨kind, permutation, ← declare kind permutation.size declarations []⟩

def size (set : FieldSet) : Nat := set.permutation.size

def names (set : FieldSet) : List String := set.fields.map Field.name

def find? (set : FieldSet) (name : String) : Option Field := set.fields.find? (·.name == name)

def field (set : FieldSet) (name : String) : Checked Field :=
  match set.find? name with
  | some field => .ok field
  | none => .error (.unknownField set.kind.plural name)

def replace (set : FieldSet) (field : Field) : FieldSet :=
  { set with fields := set.fields.map fun old => if old.name = field.name then field else old }

def withColumn (set : FieldSet) (name : String) (column : Column) : FieldSet :=
  { set with
    fields := set.fields.map fun field =>
      if field.name = name then field.withColumn column else field }

section Access

variable (set : FieldSet) (name : String) (scalar : Scalar)

def readSlot (slot : Slot) : Checked (Array scalar.Carrier) := do
  (← set.field name).element scalar slot.toNat

def readSlotScalar (slot : Slot) : Outcome scalar.Carrier := do
  (← set.field name).get scalar slot.toNat 0

def get (identity : Identity) : Checked (Array scalar.Carrier) := do
  let field ← set.field name
  field.element scalar (← set.permutation.findSlot identity).toNat

def getScalar (identity : Identity) : Outcome scalar.Carrier := do
  let field ← set.field name
  field.get scalar (← set.permutation.findSlot identity).toNat 0

def putBack (step : Field × Checked Unit) : FieldSet × Checked Unit :=
  (set.replace step.1, step.2)

def writeInPlace (slot : Slot) (values : Array scalar.Carrier) : FieldSet × Checked Unit :=
  (set.field name).orLeave set fun field =>
    set.putBack (field.setInPlace scalar slot.toNat values)

def putInPlace (identity : Identity) (values : Array scalar.Carrier) : FieldSet × Checked Unit :=
  (set.field name).orLeave set fun field =>
    (set.permutation.findSlot identity).orLeave set fun slot =>
      set.putBack (field.setInPlace scalar slot.toNat values)

def fillInPlace (value : scalar.Carrier) : FieldSet × Checked Unit :=
  (set.field name).orLeave set fun field => set.putBack (field.fillInPlace scalar value)

/-- Stores the parts of a buffer, from part `position` on, at the slots of a list. The parts before
one that is refused stay stored. -/
def storeParts {α : Type} (components : Nat) (buffer : Array α) :
    List Slot → Nat → Array α → Array α × Checked Unit
  | [], _, cells => (cells, .ok ())
  | slot :: rest, position, cells =>
    let part := buffer.extract (position * components) (position * components + components)
    let (written, result) := Cells.writeInPlace cells (slot.toNat * components) part
    result.orLeave written fun _ => storeParts components buffer rest (position + 1) written

/-- Replaces the values of a field by a buffer in the order of identities. -/
def loadInPlace (buffer : Array scalar.Carrier) : FieldSet × Checked Unit :=
  (set.field name).orLeave set fun field =>
    if set.permutation.isIdentity then set.putBack (field.loadInPlace scalar buffer)
    else
      let expected := set.size * field.components
      (Checked.require (buffer.size = expected)
        (.valueCount name expected buffer.size)).orLeave set fun _ =>
          (field.values scalar).orLeave set fun cells =>
            let (stored, result) :=
              storeParts field.components buffer set.permutation.slots.toList 0 cells
            set.putBack (field.withColumn ⟨scalar, stored⟩, result)

def writeSlot (slot : Slot) (values : Array scalar.Carrier) : Checked FieldSet :=
  Checked.after (set.writeInPlace name scalar slot values)

def put (identity : Identity) (values : Array scalar.Carrier) : Checked FieldSet :=
  Checked.after (set.putInPlace name scalar identity values)

def fill (value : scalar.Carrier) : Checked FieldSet :=
  Checked.after (set.fillInPlace name scalar value)

def load (buffer : Array scalar.Carrier) : Checked FieldSet :=
  Checked.after (set.loadInPlace name scalar buffer)

def unload : Outcome (Array scalar.Carrier) := do
  let field ← set.field name
  let cells ← field.values scalar
  if set.permutation.isIdentity then return cells
  else
    let part (slot : Slot) := Cells.slice? cells (slot.toNat * field.components) field.components
    let parts ← Outcome.ofLookup (set.permutation.slots.toList.mapM part)
    return parts.toArray.flatten

end Access

end FieldSet

end MeshLayout
