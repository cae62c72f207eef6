import MeshLayout.Error

/-!
# Columns

A column is an array of values of one scalar type. Ranges of a column are read and written
whole: a range that does not fit is refused and nothing changes.
-/

set_option autoImplicit false

namespace MeshLayout

namespace Cells

variable {α : Type}

def checkRange (cells : Array α) (offset length : Nat) : Checked Unit :=
  Checked.require (offset + length < indexLimit ∧ offset + length ≤ cells.size)
    (.outOfRange .columnEnd (min (offset + length) (indexLimit - 1)) cells.size)

def read (cells : Array α) (offset length : Nat) : Checked (Array α) := do
  checkRange cells offset length
  return cells.extract offset (offset + length)

def slice? (cells : Array α) (offset length : Nat) : Option (Array α) :=
  if offset + length ≤ cells.size then some (cells.extract offset (offset + length)) else none

def overwrite : List α → Nat → Array α → Array α
  | [], _, cells => cells
  | value :: rest, offset, cells => overwrite rest (offset + 1) (cells.setIfInBounds offset value)

def writeInPlace (cells : Array α) (offset : Nat) (values : Array α) : Array α × Checked Unit :=
  (checkRange cells offset values.size).orLeave cells fun _ =>
    (overwrite values.toList offset cells, .ok ())

def write (cells : Array α) (offset : Nat) (values : Array α) : Checked (Array α) :=
  Checked.after (writeInPlace cells offset values)

end Cells

structure Column where
  scalar : Scalar
  cells : Array scalar.Carrier

namespace Column

def filled (scalar : Scalar) (size : Nat) (value : scalar.Carrier) : Column :=
  ⟨scalar, Array.replicate size value⟩

def zeroed (scalar : Scalar) (size : Nat) : Column := filled scalar size scalar.zero

def Fits (scalar : Scalar) (size : Nat) : Prop := size * scalar.width < memoryLimit

instance (scalar : Scalar) (size : Nat) : Decidable (Fits scalar size) :=
  inferInstanceAs (Decidable (_ < _))

def allocate (scalar : Scalar) (size : Nat) : Outcome Column :=
  if Fits scalar size then .ok (zeroed scalar size) else Outcome.fault .outOfMemory

def size (column : Column) : Nat := column.cells.size

/-- A range of cells in an array of its own, for which there must be room. -/
def copyRange (scalar : Scalar) (cells : Array scalar.Carrier) (offset length : Nat) :
    Outcome (Array scalar.Carrier) :=
  if Fits scalar length then Outcome.ofChecked (Cells.read cells offset length)
  else Outcome.fault .outOfMemory

def as? (column : Column) (scalar : Scalar) : Option (Array scalar.Carrier) :=
  if h : column.scalar = scalar then some (h ▸ column.cells) else none

def storeInPlace (column other : Column) : Column × Checked Unit :=
  match other.as? column.scalar with
  | some values =>
    let (cells, result) := Cells.writeInPlace column.cells 0 values
    (⟨column.scalar, cells⟩, result)
  | none => (column, .error (.scalarMismatch "column" column.scalar other.scalar))

def storeFrom (column other : Column) : Checked Column :=
  Checked.after (column.storeInPlace other)

end Column

end MeshLayout
