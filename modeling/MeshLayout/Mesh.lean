import MeshLayout.FieldSet
import MeshLayout.Incidence
import MeshLayout.LooseField
import MeshLayout.Metadata
import MeshLayout.Partition

/-!
# Meshes

A mesh is a description laid out in storage: for each kind that it has, the fields under the
permutation of the kind and the patches; for each linked relation, its incidence. Only the
values of fields ever change. A workspace holds meshes and loose fields, and a location names
one field in it; two names of one field are equal locations.
-/

set_option autoImplicit false

namespace MeshLayout

/-- An element as a loop meets it. -/
structure Element where
  kind : Kind
  slot : Slot
  permutation : Permutation

def Element.identity? (element : Element) : Option Identity :=
  element.permutation.identityOf? element.slot

structure Mesh where
  metadata : Metadata
  topology : Topology
  config : Config
  sets : PerKind (Option FieldSet)
  tables : PerRelation (Option Incidence)
  patchIndex : PatchIndex

namespace Mesh

def elements (mesh : Mesh) (kind : Kind) : Checked FieldSet :=
  match mesh.sets.get kind with
  | some set => .ok set
  | none => .error (.config (.absentKind kind))

def kinds (mesh : Mesh) : List Kind :=
  Kind.all.filter fun kind => (mesh.sets.get kind).isSome

def size (mesh : Mesh) (kind : Kind) : Checked Nat := do
  return (← mesh.elements kind).size

def permutation (mesh : Mesh) (kind : Kind) : Checked Permutation := do
  return (← mesh.elements kind).permutation

def incidence (mesh : Mesh) (relation : Relation) : Checked Incidence :=
  match mesh.tables.get relation with
  | some incidence => .ok incidence
  | none => .error (.unlinked relation)

def relations (mesh : Mesh) : List Relation :=
  Relation.all.filter fun relation => (mesh.tables.get relation).isSome

def iterate (mesh : Mesh) (kind : Kind) : Checked (List Element) := do
  let permutation ← mesh.permutation kind
  return (Permutation.numbers permutation.size).map fun slot => ⟨kind, slot, permutation⟩

def withSet (mesh : Mesh) (set : FieldSet) : Mesh :=
  { mesh with sets := mesh.sets.set set.kind (some set) }

end Mesh

inductive Location
  | ofMesh (mesh : Nat) (kind : Kind) (field : String)
  | ofLoose (position : Nat)
  deriving DecidableEq, Repr

structure Workspace where
  meshes : Array Mesh := #[]
  loose : Array LooseField := #[]

namespace Workspace

def addMesh (workspace : Workspace) (mesh : Mesh) : Workspace :=
  { workspace with meshes := workspace.meshes.push mesh }

def addLoose (workspace : Workspace) (field : LooseField) : Workspace :=
  { workspace with loose := workspace.loose.push field }

def field? (workspace : Workspace) : Location → Option Field
  | .ofMesh mesh kind name => do
    (← (← workspace.meshes[mesh]?).sets.get kind).find? name
  | .ofLoose position => do
    return (← workspace.loose[position]?).field

def column? (workspace : Workspace) (location : Location) : Option Column :=
  (workspace.field? location).map Field.column

def withColumn (workspace : Workspace) (location : Location) (column : Column) : Workspace :=
  match location with
  | .ofMesh mesh kind name =>
    let update (set : FieldSet) := set.withColumn name column
    { workspace with
      meshes := workspace.meshes.modify mesh fun mesh =>
        { mesh with sets := mesh.sets.set kind ((mesh.sets.get kind).map update) } }
  | .ofLoose position =>
    { workspace with
      loose := workspace.loose.modify position fun loose =>
        { loose with field := loose.field.withColumn column } }

end Workspace

end MeshLayout
