import MeshLayout.Column

/-!
# Ledgers of additions

A ledger sums up what is to be added to the cells of a column, one entry for each cell that was
added to. Only values of the type of the ledger are entered.
-/

set_option autoImplicit false

namespace MeshLayout

structure Ledger where
  scalar : Scalar
  entries : List (Nat × scalar.Carrier)

namespace Ledger

def empty (scalar : Scalar) : Ledger := ⟨scalar, []⟩

def size (ledger : Ledger) : Nat := ledger.entries.length

/-- Adds to the entry of an index, which is zero if there is none yet. -/
def enter (scalar : Scalar) (index : Nat) (value : scalar.Carrier) :
    List (Nat × scalar.Carrier) → List (Nat × scalar.Carrier)
  | [] => [(index, scalar.add scalar.zero value)]
  | (key, sum) :: rest =>
    if key = index then (key, scalar.add sum value) :: rest
    else (key, sum) :: enter scalar index value rest

def lookup (scalar : Scalar) (index : Nat) : List (Nat × scalar.Carrier) → scalar.Carrier
  | [] => scalar.zero
  | (key, sum) :: rest => if key = index then sum else lookup scalar index rest

def add (ledger : Ledger) (scalar : Scalar) (index : Nat) (value : scalar.Carrier) : Ledger :=
  if h : scalar = ledger.scalar then ⟨scalar, enter scalar index value (h ▸ ledger.entries)⟩
  else ledger

def get (ledger : Ledger) (scalar : Scalar) (index : Nat) : scalar.Carrier :=
  if h : scalar = ledger.scalar then lookup scalar index (h ▸ ledger.entries) else scalar.zero

def settle (scalar : Scalar) :
    List (Nat × scalar.Carrier) → Array scalar.Carrier → Option (Array scalar.Carrier)
  | [], cells => some cells
  | (index, sum) :: rest, cells => do
    let old ← cells[index]?
    settle scalar rest (cells.setIfInBounds index (scalar.add old sum))

/-- Adds every entry to its cell of a column. -/
def mergeInPlace (ledger : Ledger) (column : Column) : Outcome (Column × Checked Unit) :=
  match column.as? ledger.scalar with
  | some cells => do
    let cells ← Outcome.ofLookup (settle ledger.scalar ledger.entries cells)
    return (⟨ledger.scalar, cells⟩, .ok ())
  | none =>
    return (column, .error (.scalarMismatch "local cache delta" column.scalar ledger.scalar))

def mergeInto (ledger : Ledger) (column : Column) : Outcome Column := do
  Checked.after (← ledger.mergeInPlace column)

end Ledger

end MeshLayout
