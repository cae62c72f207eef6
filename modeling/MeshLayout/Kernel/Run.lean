import MeshLayout.Kernel.Action
import MeshLayout.Kernel.Ledger

/-!
# Running a kernel

A kernel visits every element of its kind once, in the order of a schedule. Bindings that are not
staged go straight to their fields. A staged binding reads a copy made before the first element is
visited, and what is done with additions depends on the plan: taken as a whole, the kernel adds
to the copy and stores it back at the end; taken patch by patch, each patch adds in ledgers of
its own, sees its own additions on top of the copy, and settles the ledgers when it ends. Within a
patch the slots ascend; the schedule orders the patches.
-/

set_option autoImplicit false

namespace MeshLayout

structure Memory where
  workspace : Workspace
  staged : Array (Option Column)
  ledgers : Option (Array (Option Ledger))

namespace Column

def loadCell (column : Column) (scalar : Scalar) (index : Nat) : Outcome scalar.Carrier :=
  match column.as? scalar with
  | some cells => Outcome.ofLookup cells[index]?
  | none => Outcome.fault .mistyped

def updateCell (column : Column) (scalar : Scalar) (index : Nat)
    (update : scalar.Carrier → scalar.Carrier) : Outcome Column :=
  match column.as? scalar with
  | some cells => do
    let old ← Outcome.ofLookup cells[index]?
    return ⟨scalar, cells.setIfInBounds index (update old)⟩
  | none => Outcome.fault .mistyped

end Column

namespace Memory

def staged? (memory : Memory) (binding : Nat) : Option Column := (memory.staged[binding]?).join

def ledger? (memory : Memory) (binding : Nat) : Option Ledger := do
  ((← memory.ledgers)[binding]?).join

def updateField (memory : Memory) (location : Location) (scalar : Scalar) (index : Nat)
    (update : scalar.Carrier → scalar.Carrier) : Outcome Memory := do
  let column ← Outcome.ofLookup (memory.workspace.column? location)
  let column ← column.updateCell scalar index update
  return { memory with workspace := memory.workspace.withColumn location column }

variable (memory : Memory) (kernel : Kernel) {scalar : Scalar} (field : FieldHandle scalar)
variable (address : Address) (component : Nat) (value : scalar.Carrier)

def read : Outcome scalar.Carrier := do
  let binding ← Outcome.ofLookup kernel.bindings[field.binding]?
  let index ← binding.cellIndex address component
  match memory.staged? field.binding with
  | none =>
    let column ← Outcome.ofLookup (memory.workspace.column? binding.location)
    column.loadCell scalar index
  | some column =>
    let base ← column.loadCell scalar index
    return match memory.ledger? field.binding with
      | some ledger => scalar.add base (ledger.get scalar index)
      | none => base

def write : Outcome Memory := do
  let binding ← Outcome.ofLookup kernel.bindings[field.binding]?
  if binding.access = .write then
    let index ← binding.cellIndex address component
    memory.updateField binding.location scalar index fun _ => value
  else Outcome.fault (.notWritable binding.field)

def accumulate : Outcome Memory := do
  let binding ← Outcome.ofLookup kernel.bindings[field.binding]?
  if binding.access = .accumulate then
    let index ← binding.cellIndex address component
    match memory.staged? field.binding, memory.ledgers with
    | none, _ => memory.updateField binding.location scalar index (scalar.add · value)
    | some _, some ledgers =>
      let enter (ledger : Ledger) := ledger.add scalar index value
      return { memory with ledgers := some (ledgers.modify field.binding (Option.map enter)) }
    | some column, none =>
      let column ← column.updateCell scalar index (scalar.add · value)
      return { memory with staged := memory.staged.setIfInBounds field.binding (some column) }
  else Outcome.fault (.notAccumulable binding.field)

end Memory

namespace Action

variable {α : Type}

def run (kernel : Kernel) : Action α → Memory → Outcome (α × Memory)
  | done result, memory => .ok (result, memory)
  | fail fault, _ => Outcome.fault fault
  | read _ field address component next, memory => do
    (next (← memory.read kernel field address component)).run kernel memory
  | write _ field address component value next, memory => do
    next.run kernel (← memory.write kernel field address component value)
  | accumulate _ field address component value next, memory => do
    next.run kernel (← memory.accumulate kernel field address component value)

end Action

/-- An order for the units of work of a run, which are patches if these are taken one by one, and
else elements. -/
structure Schedule where
  slots : List Nat → List Nat
  patches : List PatchRange → List PatchRange
  slots_perm : ∀ given, (slots given).Perm given
  patches_perm : ∀ given, (patches given).Perm given

namespace Schedule

def ascending : Schedule := ⟨id, id, .refl, .refl⟩

end Schedule

namespace Kernel

variable {α : Type}

def visit (kernel : Kernel) (body : Element → Action α) :
    List Nat → Memory → Outcome (List α × Memory)
  | [], memory => .ok ([], memory)
  | slot :: rest, memory => do
    let (result, memory) ← (body (kernel.element slot.toUInt32)).run kernel memory
    let (results, memory) ← kernel.visit body rest memory
    return (result :: results, memory)

/-- The staged bindings, each with what `copy` gives for it. -/
def stagedBindings {β : Type} (kernel : Kernel)
    (copy : Binding → StagedUse → Option β) : Array (Option β) :=
  kernel.bindings.mapIdx fun position binding => do
    copy binding (← kernel.plan.entry? position)

def copies (kernel : Kernel) (workspace : Workspace) : Array (Option Column) :=
  kernel.stagedBindings fun binding _ => workspace.column? binding.location

def emptyLedgers (kernel : Kernel) : Array (Option Ledger) :=
  kernel.stagedBindings fun binding entry =>
    if entry.access = .accumulate then some (.empty binding.type.scalar) else none

def settle : List (Binding × Option Ledger) → Workspace → Outcome Workspace
  | [], workspace => .ok workspace
  | (_, none) :: rest, workspace => settle rest workspace
  | (binding, some ledger) :: rest, workspace => do
    let column ← Outcome.ofLookup (workspace.column? binding.location)
    settle rest (workspace.withColumn binding.location (← ledger.mergeInto column))

/-- Runs the body for the elements of the patches of a list. -/
def visitPatches (kernel : Kernel) (body : Element → Action α) (staged : Array (Option Column)) :
    List PatchRange → Workspace → Outcome (List α × Workspace)
  | [], workspace => .ok ([], workspace)
  | range :: rest, workspace => do
    let slots := List.range' range.start range.size
    let (results, memory) ←
      kernel.visit body slots ⟨workspace, staged, some kernel.emptyLedgers⟩
    let ledgers := memory.ledgers.getD #[]
    let workspace ← settle (kernel.bindings.zip ledgers).toList memory.workspace
    let (later, workspace) ← kernel.visitPatches body staged rest workspace
    return (results ++ later, workspace)

/-- Stores the copies of the bindings of a list that were added to. -/
def storeBack (kernel : Kernel) (staged : Array (Option Column)) :
    List StagedUse → Workspace → Outcome Workspace
  | [], workspace => .ok workspace
  | entry :: rest, workspace =>
    match entry.access, kernel.bindings[entry.binding]?, staged[entry.binding]? with
    | .accumulate, some binding, some (some copy) => do
      let column ← Outcome.ofLookup (workspace.column? binding.location)
      kernel.storeBack staged rest
        (workspace.withColumn binding.location (← column.storeFrom copy))
    | _, _, _ => kernel.storeBack staged rest workspace

/-- Runs the body for every element, with one result for each in the order of visits. -/
def run (kernel : Kernel) (body : Element → Action α) (workspace : Workspace)
    (schedule : Schedule := .ascending) : Outcome (List α × Workspace) := do
  let staged := kernel.copies workspace
  match kernel.ranges with
  | some ranges => kernel.visitPatches body staged (schedule.patches ranges) workspace
  | none =>
    let slots := schedule.slots (List.range (kernel.permutation.size % UInt32.size))
    let (results, memory) ← kernel.visit body slots ⟨workspace, staged, none⟩
    let workspace ← kernel.storeBack memory.staged kernel.plan.entries memory.workspace
    return (results, workspace)

end Kernel

end MeshLayout
