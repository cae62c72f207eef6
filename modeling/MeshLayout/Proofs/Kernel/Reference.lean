import MeshLayout.Proofs.Kernel.Declare
import MeshLayout.Proofs.Kernel.Memory

/-!
# Kernels told by identity

What a kernel does can be told without a layout. A view is what can be known of an element by
identity: its patch, and the neighbors of identities along linked relations. A program says what
to do for a view and addresses elements by identity. The reference takes the identities in their
order, with views from the description alone and with values in the order of identities.
-/

set_option autoImplicit false

namespace MeshLayout

/-- An element and the elements around it. Chains of relations are followed by asking again. -/
structure View where
  identity : Identity
  patch : Option Patch
  neighbors : Relation → Identity → Option (List Identity)

def Metadata.view (metadata : Metadata) (linked : List Relation) (kind : Kind)
    (identity : Identity) : View where
  identity := identity
  patch := metadata.patchOf? kind identity
  neighbors := fun relation other =>
    if relation ∈ linked then metadata.neighbors? relation other else none

namespace Mesh

variable {mesh : Mesh}

def neighbors? (mesh : Mesh) (relation : Relation) (identity : Identity) :
    Option (List Identity) := do
  let incidence ← mesh.tables.get relation
  incidence.neighborIdentities? (← incidence.source.slotOf? identity)

def view? (mesh : Mesh) (element : Element) : Option View := do
  let identity ← element.identity?
  let partition := (mesh.patchIndex.partition element.kind).toOption
  return {
    identity
    patch := partition.bind (·.patchOf? identity)
    neighbors := mesh.neighbors? }

theorem Laid.neighbors?_eq (h : mesh.Laid) (relation : Relation) (identity : Identity) :
    mesh.neighbors? relation identity = if relation ∈ mesh.relations then
      mesh.metadata.neighbors? relation identity else none := by
  rw [neighbors?]
  cases htable : mesh.tables.get relation with
  | none =>
    rw [if_neg (by simp [mem_relations, htable])]
    rfl
  | some incidence =>
    obtain ⟨-, -, -, rows, hadjacency, hholds⟩ := h.incidences (Mesh.incidence_eq_ok.mpr htable)
    rw [if_pos (by simp [mem_relations, htable]), Metadata.neighbors?, hadjacency]
    simp only [Option.bind_eq_bind, Option.bind_some]
    rw [Adjacency.pack_row? _ _ hholds.packable.entries_lt]
    by_cases hlt : identity.toNat < incidence.source.size
    · rw [Permutation.slotOf?_eq hlt, Option.bind_some,
        hholds.neighborIdentities?_eq (hholds.source.slotOf_lt hlt),
        hholds.source.identityOf_slotOf' hlt, List.getD_eq_getElem?_getD,
        List.getElem?_eq_getElem (hholds.rows_length ▸ hlt), Option.getD_some]
    · rw [Permutation.slotOf?_eq_none (by omega),
        List.getElem?_eq_none (by rw [hholds.rows_length]; omega)]
      rfl

theorem Laid.view?_eq (h : mesh.Laid) {kind : Kind} {permutation : Permutation}
    {partition : Partition} (hpermutation : mesh.permutation kind = .ok permutation)
    (hpartition : mesh.patchIndex.partition kind = .ok partition) {slot : Slot}
    (hslot : slot.toNat < permutation.size) :
    mesh.view? ⟨kind, slot, permutation⟩ =
      some (mesh.metadata.view mesh.relations kind (permutation.identityOf slot)) := by
  have hidentity := (h.permutations hpermutation).1.identityOf?_eq hslot
  have hpatches := (h.partitions hpermutation hpartition).1
  have hneighbors : mesh.neighbors? = fun relation other =>
      if relation ∈ mesh.relations then mesh.metadata.neighbors? relation other else none := by
    ext1 relation
    ext1 other
    exact h.neighbors?_eq relation other
  simp only [view?, Element.identity?, hidentity, hpartition, Option.bind_eq_bind,
    Option.bind_some, Option.pure_def, Except.toOption, Metadata.view, Metadata.patchOf?, hpatches,
    hneighbors, Partition.patchOf?]

end Mesh

/-- One change of a cell, by the number of the cell in the order of identities. -/
structure Effect where
  location : Location
  number : Nat
  scalar : Scalar
  value : scalar.Carrier

def Effect.at? (effect : Effect) (location : Location) (scalar : Scalar) (number : Nat) :
    Option scalar.Carrier :=
  if h : effect.scalar = scalar then
    if effect.location = location ∧ effect.number = number then some (h ▸ effect.value) else none
  else none

def FieldType.number? (type : FieldType) (address : Address) (component : Nat) : Option Nat :=
  match address with
  | .slot _ => none
  | .identity identity =>
    if component < type.components then some (identity.toNat * type.components + component)
    else none

structure BoundField extends Use where
  type : FieldType

def Binding.bound (binding : Binding) : BoundField := ⟨binding.toUse, binding.type⟩

def change? (fields : Array BoundField) (tables : Location → Option Column) (access : Access)
    {scalar : Scalar} (field : FieldHandle scalar) (address : Address) (component : Nat)
    (value : scalar.Carrier) : Option Effect := do
  let bound ← fields[field.binding]?
  let number ← bound.type.number? address component
  let cells ← (tables bound.location).bind (·.as? scalar)
  if bound.access = access ∧ number < cells.size then some ⟨bound.location, number, scalar, value⟩
  else none

theorem change?_eq_some {fields : Array BoundField} {tables : Location → Option Column}
    {access : Access} {scalar : Scalar} {field : FieldHandle scalar} {address : Address}
    {component : Nat} {value : scalar.Carrier} {effect : Effect} :
    change? fields tables access field address component value = some effect ↔
      ∃ bound number cells, fields[field.binding]? = some bound ∧ bound.access = access ∧
        bound.type.number? address component = some number ∧
        (tables bound.location).bind (·.as? scalar) = some cells ∧ number < cells.size ∧
        effect = ⟨bound.location, number, scalar, value⟩ := by
  simp only [change?, Option.bind_eq_bind, Option.bind_eq_some_iff]
  constructor
  · rintro ⟨bound, hbound, number, hnumber, cells, hcells, h⟩
    split at h
    · next hcan =>
      cases h
      exact ⟨bound, number, cells, hbound, hcan.1, hnumber, hcells, hcan.2, rfl⟩
    · cases h
  · rintro ⟨bound, number, cells, hbound, haccess, hnumber, hcells, hin, rfl⟩
    exact ⟨bound, hbound, number, hnumber, cells, hcells, if_pos ⟨haccess, hin⟩⟩

def Action.effects? {α : Type} (fields : Array BoundField) (tables : Location → Option Column) :
    Action α → Option (List Effect)
  | done _ => some []
  | fail _ => none
  | read scalar field address component next => do
    let bound ← fields[field.binding]?
    let number ← bound.type.number? address component
    let cells ← (tables bound.location).bind (·.as? scalar)
    (next (← cells[number]?)).effects? fields tables
  | write _ field address component value next => do
    let effect ← change? fields tables .write field address component value
    return effect :: (← next.effects? fields tables)
  | accumulate _ field address component value next => do
    let effect ← change? fields tables .accumulate field address component value
    return effect :: (← next.effects? fields tables)

/-- A kernel by identity: the description, the kind that it runs over, the relations that are
linked, the bound fields, their values in the order of identities, and the program. -/
structure Reference where
  metadata : Metadata
  kind : Kind
  linked : List Relation
  fields : Array BoundField
  tables : Location → Option Column
  program : View → Action Unit

namespace Reference

variable (reference : Reference)

def effects? (identity : Identity) : Option (List Effect) :=
  (reference.program (reference.metadata.view reference.linked reference.kind identity)).effects?
    reference.fields reference.tables

def run? : Option (List (List Effect)) := do
  let count ← reference.metadata.count? reference.kind
  (List.range count).mapM fun identity => reference.effects? identity.toUInt32

end Reference

def Effect.brought (effects : List Effect) (location : Location) (scalar : Scalar)
    (number : Nat) : List scalar.Carrier :=
  effects.filterMap (·.at? location scalar number)

/-- What the effects of the identities make of the value of a cell. In a field of sums, all that
they bring is added to it. In any other field it is the last value that its own element brings. -/
def finalValue (sums : Location → Bool) (runs : List (List Effect)) (location : Location)
    (type : FieldType) (number : Nat) (value : type.scalar.Carrier) : type.scalar.Carrier :=
  if sums location then
    (Effect.brought runs.flatten location type.scalar number).foldl type.scalar.add value
  else
    let own := runs.getD (number / type.components) []
    (Effect.brought own location type.scalar number).getLastD value

end MeshLayout
