import MeshLayout.Kernel.Action

/-!
# Scripted kernel bodies

A script is a kernel body written as a list of statements. It loops over the neighbors of
elements, keeps variables, emits values, and reads and changes bound fields. Elements and
variables are known by name; a name keeps its last meaning until the visit of the element ends.
Whole numbers are words of 64 bits with a sign and become binary fractions where they meet one.
-/

set_option autoImplicit false

namespace MeshLayout.Script

inductive Value
  | integer (value : Int64)
  | real (value : Float)

namespace Value

def toReal : Value → Float
  | integer n => n.toFloat
  | real x => x

def add : Value → Value → Value
  | integer a, integer b => integer (a + b)
  | a, b => real (a.toReal + b.toReal)

def mul : Value → Value → Value
  | integer a, integer b => integer (a * b)
  | a, b => real (a.toReal * b.toReal)

/-- The low bits of a whole number, a fraction cut to a whole number. -/
def toWord : Value → UInt64
  | integer n => n.toUInt64
  | real x => x.toInt64.toUInt64

def toScalar (value : Value) : (scalar : Scalar) → scalar.Carrier
  | .i32 => value.toWord.toUInt32.toInt32
  | .i64 => value.toWord.toInt64
  | .u32 => value.toWord.toUInt32
  | .u64 => value.toWord
  | .f32 => value.toReal.toFloat32
  | .f64 => value.toReal

def ofScalar : (scalar : Scalar) → scalar.Carrier → Value
  | .i32, (n : Int32) => integer n.toInt64
  | .i64, (n : Int64) => integer n
  | .u32, (n : UInt32) => integer n.toUInt64.toInt64
  | .u64, (n : UInt64) => integer n.toInt64
  | .f32, (x : Float32) => real x.toFloat
  | .f64, (x : Float) => real x

def ofNat (n : Nat) : Value := integer n.toUInt64.toInt64

end Value

mutual

inductive Expr
  | constant (value : Value)
  | identity (element : String)
  | slot (element : String)
  | patch (element : String)
  | degree (relation element : String)
  | isEmpty (relation element : String)
  | recall (name : String)
  | read (field : String) (place : Place) (component : Expr)
  | add (left right : Expr)
  | mul (left right : Expr)

inductive Place
  | slotOf (element : String)
  | identityOf (element : String)
  | slotAt (slot : Expr)
  | identityAt (identity : Expr)

end

inductive Statement
  | loop (relation element var : String) (nth : Option Expr) (body : List Statement)
  | assign (var : String) (value : Expr)
  | emit (value : Expr)
  | write (field : String) (place : Place) (component value : Expr)
  | accumulate (field : String) (place : Place) (component value : Expr)

/-- The handles that the names of relations and fields stand for. -/
structure Scope where
  relations : List (String × RelationHandle) := []
  fields : List (String × (scalar : Scalar) × FieldHandle scalar) := []

/-- What the names of elements and variables mean, and the values emitted so far. -/
structure State where
  elements : List (String × Element)
  values : List (String × Value) := []
  emitted : List Value := []

variable (kernel : Kernel) (scope : Scope)

def State.element (state : State) (name : String) : Action Element :=
  Action.ofLookup (state.elements.lookup name)

def Scope.relation (name : String) : Action RelationHandle :=
  Action.ofLookup (scope.relations.lookup name)

def Scope.field (name : String) : Action ((scalar : Scalar) × FieldHandle scalar) :=
  Action.ofLookup (scope.fields.lookup name)

def visited : String := "e"

/-- The neighbors of a named element. One that a loop has named goes by its slot alone. -/
def neighbors (state : State) (relation name : String) : Action Neighbors := do
  let handle ← scope.relation relation
  let element ← state.element name
  Action.ofLookup <|
    if name = visited then kernel.neighborsOf? handle element
    else kernel.neighbors? handle element.slot

def identityOf (state : State) (element : String) : Action Identity := do
  Action.ofLookup (← state.element element).identity?

mutual

def Expr.eval (state : State) : Expr → Action Value
  | .constant value => .done value
  | .identity element => do return .ofNat (← identityOf state element).toNat
  | .slot element => do return .ofNat (← state.element element).slot.toNat
  | .patch element => do
    return .ofNat (← Action.ofExcept (kernel.patchOf (← state.element element))).toNat
  | .degree relation element => do
    return .ofNat (← neighbors kernel scope state relation element).size
  | .isEmpty relation element => do
    return .ofNat (if (← neighbors kernel scope state relation element).size = 0 then 1 else 0)
  | .recall name => .done ((state.values.lookup name).getD (.ofNat 0))
  | .read field place component => do
    let ⟨scalar, handle⟩ ← scope.field field
    let address ← place.eval state
    let component ← component.eval state
    .read scalar handle address component.toWord.toNat fun value => .done (.ofScalar scalar value)
  | .add left right => do
    let left ← left.eval state
    return left.add (← right.eval state)
  | .mul left right => do
    let left ← left.eval state
    return left.mul (← right.eval state)

def Place.eval (state : State) : Place → Action Address
  | .slotOf element => do return .slot (← state.element element).slot
  | .identityOf element => do return .identity (← identityOf state element)
  | .slotAt slot => do return .slot (← slot.eval state).toWord.toUInt32
  | .identityAt identity => do return .identity (← identity.eval state).toWord.toUInt32

end

/-- The slots that a loop over neighbors visits: all of them, or the one at a position. -/
def loopSlots (state : State) (neighbors : Neighbors) : Option Expr → Action (List Slot)
  | none => Action.ofLookup neighbors.slots?
  | some nth => do
    let position ← nth.eval kernel scope state
    return [← Action.ofLookup (neighbors.get? position.toWord.toNat)]

mutual

def Statement.exec (state : State) : Statement → Action State
  | .loop relation element var nth body => do
    let handle ← scope.relation relation
    let near ← neighbors kernel scope state relation element
    let slots ← loopSlots kernel scope state near nth
    slots.foldlM (fun state slot => do
      let target ← Action.ofLookup (kernel.target? handle slot)
      execAll { state with elements := (var, target) :: state.elements } body) state
  | .assign var value => do
    let value ← value.eval kernel scope state
    return { state with values := (var, value) :: state.values }
  | .emit value => do
    let value ← value.eval kernel scope state
    return { state with emitted := state.emitted ++ [value] }
  | .write field place component value => do
    let ⟨scalar, handle⟩ ← scope.field field
    let address ← place.eval kernel scope state
    let value ← value.eval kernel scope state
    let component ← component.eval kernel scope state
    .write scalar handle address component.toWord.toNat (value.toScalar scalar) (.done state)
  | .accumulate field place component value => do
    let ⟨scalar, handle⟩ ← scope.field field
    let address ← place.eval kernel scope state
    let value ← value.eval kernel scope state
    let component ← component.eval kernel scope state
    .accumulate scalar handle address component.toWord.toNat (value.toScalar scalar) (.done state)

def execAll (state : State) : List Statement → Action State
  | [] => .done state
  | statement :: rest => do execAll (← statement.exec state) rest

end

def body (statements : List Statement) (element : Element) : Action (List Value) := do
  return (← execAll kernel scope ⟨[(visited, element)], [], []⟩ statements).emitted

end MeshLayout.Script
