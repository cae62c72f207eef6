import MeshLayout.Field

/-!
# Loose fields

A loose field belongs to no mesh. It gives values to the identities of a kind, in their order.
-/

set_option autoImplicit false

namespace MeshLayout

structure LooseField where
  kind : Kind
  field : Field

namespace LooseField

variable (loose : LooseField) (scalar : Scalar)

def allocate (kind : Kind) (declaration : Declaration) (size : Nat) : Outcome LooseField := do
  return ⟨kind, ← Field.allocate declaration size⟩

/-- The first component of an element. -/
def get (identity : Identity) : Outcome scalar.Carrier := loose.field.get scalar identity.toNat 0

def put (identity : Identity) (values : Array scalar.Carrier) : Checked LooseField := do
  return { loose with field := ← loose.field.set scalar identity.toNat values }

def load (values : Array scalar.Carrier) : Checked LooseField := do
  return { loose with field := ← loose.field.load scalar values }

def unload : Checked (Array scalar.Carrier) := loose.field.values scalar

def fill (value : scalar.Carrier) : Checked LooseField := do
  return { loose with field := ← loose.field.fill scalar value }

end LooseField

end MeshLayout
