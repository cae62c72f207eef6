import MeshLayout.Document
import MeshLayout.Kernel.Script

/-!
# Scripts as documents

Each statement is an object whose member `do` names it. An expression is a whole number, a text
with the bits of a fraction, or an object with one member that names it.
-/

set_option autoImplicit false

namespace MeshLayout.Script

def Value.toJson : Value → Json
  | integer n => .integer n.toInt
  | real x => Scalar.writeFloat x

def countParts? (value : Json) : Option (String × String) := do
  return (← value.textAt? "rel", ← value.textAt? "of")

mutual

/-- Reads an expression that is nested at most as deep as the number says. -/
def Expr.read? : Nat → Json → Option Expr
  | _ + 1, .integer n => some (.constant (.integer (Int64.ofInt n)))
  | _ + 1, .text bits => some (.constant (.real (Scalar.readFloat bits)))
  | depth + 1, .record [(name, value)] =>
    match name with
    | "id" => value.text?.map .identity
    | "slot" => value.text?.map .slot
    | "patch" => value.text?.map .patch
    | "var" => value.text?.map .recall
    | "degree" => (countParts? value).map fun (relation, element) => .degree relation element
    | "is_empty" => (countParts? value).map fun (relation, element) => .isEmpty relation element
    | "read" => do
      let place ← Place.read? depth (← value.member? "at")
      let component ← match value.given? "comp" with
        | some component => Expr.read? depth component
        | none => some (.constant (.ofNat 0))
      return .read (← value.textAt? "field") place component
    | "add" => do
      let [left, right] ← value.items? | none
      return .add (← Expr.read? depth left) (← Expr.read? depth right)
    | "mul" => do
      let [left, right] ← value.items? | none
      return .mul (← Expr.read? depth left) (← Expr.read? depth right)
    | _ => none
  | _, _ => none

def Place.read? : Nat → Json → Option Place
  | depth + 1, .record [(name, value)] =>
    match name with
    | "elem" | "slot" => value.text?.map .slotOf
    | "id" => value.text?.map .identityOf
    | "raw_slot" => (Expr.read? depth value).map .slotAt
    | "raw_id" => (Expr.read? depth value).map .identityAt
    | _ => none
  | _, _ => none

end

def Expr.ofJson? (value : Json) : Option Expr := Expr.read? (value.depth + 1) value

def Place.ofJson? (value : Json) : Option Place := Place.read? (value.depth + 1) value

def exprOrZero? (value : Json) (name : String) : Option Expr :=
  match value.given? name with
  | some given => Expr.ofJson? given
  | none => some (.constant (.ofNat 0))

def nth? (value : Json) : Option (Option Expr) :=
  match value.given? "nth" with
  | some given => (Expr.ofJson? given).map some
  | none => some none

def Statement.read? : Nat → Json → Option Statement
  | 0, _ => none
  | depth + 1, value => do
    match ← value.textAt? "do" with
    | "for" =>
      let body ← (← value.listAt? "body").mapM (Statement.read? depth)
      return .loop (← value.textAt? "rel") (← value.textAt? "of") (← value.textAt? "var")
        (← nth? value) body
    | "let" => return .assign (← value.textAt? "var") (← Expr.ofJson? (← value.member? "value"))
    | "emit" => return .emit (← Expr.ofJson? (← value.member? "value"))
    | "write" =>
      return .write (← value.textAt? "field") (← Place.ofJson? (← value.member? "at"))
        (← exprOrZero? value "comp") (← Expr.ofJson? (← value.member? "value"))
    | "accumulate" =>
      return .accumulate (← value.textAt? "field") (← Place.ofJson? (← value.member? "at"))
        (← exprOrZero? value "comp") (← Expr.ofJson? (← value.member? "value"))
    | _ => none

def Statement.ofJson? (value : Json) : Option Statement := Statement.read? (value.depth + 1) value

end MeshLayout.Script
