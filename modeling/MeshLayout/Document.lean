import MeshLayout.Kernel.Staging
import MeshLayout.Metadata.Document
import MeshLayout.Scalar.Document

/-!
# Declarations as documents

Reads the declarations that a caller may write down: relations, field types, uses of fields and
layout choices. The choices of a configuration that are not given keep their defaults.
-/

set_option autoImplicit false

namespace MeshLayout

namespace Json

def boolOr (value : Json) (name : String) (default : Bool) : Option Bool :=
  match value.given? name with
  | some given => given.bool?
  | none => some default

def textAt? (value : Json) (name : String) : Option String := do (← value.member? name).text?

def indexAt? (value : Json) (name : String) : Option Nat := do
  (← value.member? name).natural? indexLimit

def wordAt? (value : Json) (name : String) : Option UInt32 := do (← value.member? name).word?

def wordsAt? (value : Json) (name : String) : Option (Array UInt32) := do
  (← value.member? name).words?

def listAt? (value : Json) (name : String) : Option (List Json) := do
  (← value.member? name).items?

def rowsAt? (value : Json) (name : String) : Option (List (List UInt32)) := do
  (← value.listAt? name).mapM fun row => do return (← row.words?).toList

def kindAt? (value : Json) (name : String) : Option Kind := do
  Kind.ofJson? (← value.member? name)

end Json

def Relation.ofJson? (value : Json) : Option Relation := do
  return ⟨← value.kindAt? "from", ← value.kindAt? "to"⟩

def Topology.ofLabel? : String → Option Topology
  | "tri" => some .tri
  | "tet" => some .tet
  | _ => none

def Access.label : Access → String
  | read => "read"
  | write => "write"
  | accumulate => "accumulate"

def Access.ofLabel? : String → Option Access
  | "read" => some .read
  | "write" => some .write
  | "accumulate" => some .accumulate
  | _ => none

def FieldType.ofJson? (value : Json) : Option FieldType := do
  let scalar ← Scalar.ofJson? (← value.member? "scalar")
  match value.given? "components" with
  | some components => return ⟨scalar, ← components.natural? indexLimit⟩
  | none => return { scalar }

def Declaration.ofJson? (value : Json) : Option Declaration := do
  return ⟨← value.textAt? "name", ← FieldType.ofJson? value⟩

/-- A mode by the choices that are made; those that are not given are not made. -/
def Mode.ofJson? (value : Json) : Option Mode := do
  return ⟨← value.boolOr "to_end" false, ← value.boolOr "from_end" false⟩

def Config.ofJson? (value : Json) : Option Config := do
  let default : Config := {}
  let mode : Mode := ⟨← value.boolOr "to_end" default.mode.toEnd,
    ← value.boolOr "from_end" default.mode.fromEnd⟩
  return ⟨mode, ← value.boolOr "patch_contiguous" default.patchContiguous,
    ← value.boolOr "local_cache" default.localCache⟩

end MeshLayout
