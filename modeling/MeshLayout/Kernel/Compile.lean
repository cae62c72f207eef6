import MeshLayout.Kernel.Staging

/-!
# Kernels and their declarations

A kernel runs one body for every element of a kind. It declares beforehand which relations it
follows and which fields it uses and how; a handle stands for one declaration. Fields of the
mesh itself can be addressed by slot or by identity, fields of other meshes and loose fields by
identity only. A field may be overwritten only on the kind that the kernel runs over.
-/

set_option autoImplicit false

namespace MeshLayout

inductive Address
  | slot (slot : Slot)
  | identity (identity : Identity)
  deriving DecidableEq, Repr

/-- How the elements of a bound field are found. -/
inductive Addressing
  | own (permutation : Permutation)
  | foreign (permutation : Permutation)
  | loose
  deriving DecidableEq, Repr

structure Binding extends Use where
  type : FieldType
  addressing : Addressing
  deriving DecidableEq, Repr

namespace Binding

def elementIndex (binding : Binding) : Address → Outcome Nat
  | .slot slot =>
    match binding.addressing with
    | .own _ => .ok slot.toNat
    | .foreign _ | .loose => Outcome.fault (.identityOnly binding.field)
  | .identity identity =>
    match binding.addressing with
    | .own permutation | .foreign permutation => do
      return (← Outcome.ofLookup (permutation.slotOf? identity)).toNat
    | .loose => .ok identity.toNat

def cellIndex (binding : Binding) (address : Address) (component : Nat) : Outcome Nat := do
  if component < binding.type.components then
    Outcome.index ((← binding.elementIndex address) * binding.type.components + component)
  else Outcome.fault (.componentRange component binding.field)

end Binding

structure FieldHandle (scalar : Scalar) where
  binding : Nat
  deriving DecidableEq, Repr

structure RelationHandle where
  position : Nat
  relation : Relation
  deriving DecidableEq, Repr

/-- The declarations made so far for a kernel of the mesh at a place of a workspace. -/
structure KernelDraft where
  name : String
  home : Nat
  mesh : Mesh
  kind : Kind
  incidences : Array Incidence := #[]
  bindings : Array Binding := #[]
  requested : List Nat := []

structure Kernel where
  name : String
  kind : Kind
  permutation : Permutation
  patchIndex : PatchIndex
  incidences : Array Incidence
  bindings : Array Binding
  plan : Plan
  ranges : Option (List PatchRange)

namespace KernelDraft

def start (name : String) (home : Nat) (mesh : Mesh) (kind : Kind) : Checked KernelDraft := do
  let _ ← mesh.elements kind
  return { name, home, mesh, kind }

section Declare

variable (draft : KernelDraft)

def relationInPlace (relation : Relation) : KernelDraft × Checked RelationHandle :=
  (draft.mesh.incidence relation).orLeave draft fun incidence =>
    ({ draft with incidences := draft.incidences.push incidence },
      .ok ⟨draft.incidences.size, incidence.relation⟩)

def bindInPlace (scalar : Scalar) (kind : Kind) (binding : Binding) :
    KernelDraft × Checked (FieldHandle scalar) :=
  (Checked.require (binding.type.scalar = scalar)
    (.scalarMismatch binding.field binding.type.scalar scalar)).orLeave draft fun _ =>
      (Checked.require (¬(binding.access = .write ∧ kind ≠ draft.kind))
        (.config (.farOverwrite draft.name binding.field kind draft.kind))).orLeave draft fun _ =>
          ({ draft with bindings := draft.bindings.push binding }, .ok ⟨draft.bindings.size⟩)

def fieldInPlace (scalar : Scalar) (kind : Kind) (name : String) (access : Access) :
    KernelDraft × Checked (FieldHandle scalar) :=
  (draft.mesh.elements kind).orLeave draft fun set =>
    (set.field name).orLeave draft fun field =>
      draft.bindInPlace scalar kind
        { location := .ofMesh draft.home kind name, field := field.name, access
          type := field.type, addressing := .own set.permutation }

def foreignInPlace (place : Nat) (mesh : Mesh) (scalar : Scalar) (kind : Kind) (name : String)
    (access : Access) : KernelDraft × Checked (FieldHandle scalar) :=
  (mesh.elements kind).orLeave draft fun set =>
    (set.field name).orLeave draft fun field =>
      draft.bindInPlace scalar kind
        { location := .ofMesh place kind name, field := field.name, access, type := field.type
          addressing := .foreign set.permutation }

def looseInPlace (place : Nat) (loose : LooseField) (scalar : Scalar) (access : Access) :
    KernelDraft × Checked (FieldHandle scalar) :=
  draft.bindInPlace scalar loose.kind
    { location := .ofLoose place, field := loose.field.name, access, type := loose.field.type
      addressing := .loose }

def relation (relation : Relation) : Checked (KernelDraft × RelationHandle) :=
  Checked.granted (draft.relationInPlace relation)

def field (scalar : Scalar) (kind : Kind) (name : String) (access : Access) :
    Checked (KernelDraft × FieldHandle scalar) :=
  Checked.granted (draft.fieldInPlace scalar kind name access)

def foreign (place : Nat) (mesh : Mesh) (scalar : Scalar) (kind : Kind) (name : String)
    (access : Access) : Checked (KernelDraft × FieldHandle scalar) :=
  Checked.granted (draft.foreignInPlace place mesh scalar kind name access)

def loose (place : Nat) (loose : LooseField) (scalar : Scalar) (access : Access) :
    Checked (KernelDraft × FieldHandle scalar) :=
  Checked.granted (draft.looseInPlace place loose scalar access)

end Declare

def stage (draft : KernelDraft) (binding : Nat) : KernelDraft :=
  { draft with requested := draft.requested ++ [binding] }

/-- The kernel of the declarations. It runs patch by patch if something is staged and the
elements that it runs over are stored patch by patch. -/
def compile (draft : KernelDraft) (config : Config) : Checked Kernel := do
  let partition ← draft.mesh.patchIndex.partition draft.kind
  let perPatch := config.patchContiguous && partition.isContiguous
  let plan ← Plan.make draft.name (draft.bindings.toList.map Binding.toUse) draft.requested
    config.localCache perPatch
  let permutation ← draft.mesh.permutation draft.kind
  let ranges := if plan.mode = .perPatch ∧ !plan.isEmpty then partition.ranges else none
  return {
    name := draft.name, kind := draft.kind, permutation, patchIndex := draft.mesh.patchIndex
    incidences := draft.incidences, bindings := draft.bindings, plan, ranges }

end KernelDraft

namespace Kernel

def runsPerPatch (kernel : Kernel) : Bool := kernel.ranges.isSome

def element (kernel : Kernel) (slot : Slot) : Element := ⟨kernel.kind, slot, kernel.permutation⟩

def patchOf (kernel : Kernel) (element : Element) : Except Fault Patch :=
  match kernel.patchIndex.partition element.kind with
  | .error _ => .error (.missingPatches element.kind)
  | .ok partition =>
    match element.identity?.bind partition.patchOf? with
    | some patch => .ok patch
    | none => .error .outOfBounds

def neighbors? (kernel : Kernel) (handle : RelationHandle) (slot : Slot) : Option Neighbors := do
  (← kernel.incidences[handle.position]?).neighbors? slot

def neighborsOf? (kernel : Kernel) (handle : RelationHandle) (element : Element) :
    Option Neighbors := do
  guard (element.kind = handle.relation.source)
  kernel.neighbors? handle element.slot

def target? (kernel : Kernel) (handle : RelationHandle) (slot : Slot) : Option Element := do
  return ⟨handle.relation.target, slot, (← kernel.incidences[handle.position]?).target⟩

end Kernel

end MeshLayout
