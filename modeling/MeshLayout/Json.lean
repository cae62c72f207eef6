/-!
# JSON values

A JSON document as a tree. Numbers written as whole numbers are kept apart from all others,
since only they can be counts and indices; the others stay as they are written. Members of an
object keep their order; of members with one name the last counts (`Json.member?`).
-/

set_option autoImplicit false

namespace MeshLayout

inductive Json
  | null
  | bool (value : Bool)
  | integer (value : Int)
  | decimal (written : String)
  | text (value : String)
  | list (items : List Json)
  | record (members : List (String × Json))
  deriving Inhabited

namespace Json

mutual

/-- How many lists and objects stand around the innermost part of a document. -/
def depth : Json → Nat
  | list items => depthOfItems items + 1
  | record members => depthOfMembers members + 1
  | _ => 0

def depthOfItems : List Json → Nat
  | [] => 0
  | item :: rest => max item.depth (depthOfItems rest)

def depthOfMembers : List (String × Json) → Nat
  | [] => 0
  | (_, value) :: rest => max value.depth (depthOfMembers rest)

end

/-- The value of the last of the members with a name. -/
def lookup (name : String) : List (String × Json) → Option Json
  | [] => none
  | (key, value) :: rest =>
    match lookup name rest with
    | some later => some later
    | none => if key = name then some value else none

def Unrepeated (names : List String) (members : List (String × Json)) : Prop :=
  ∀ name ∈ names, (members.map Prod.fst).count name ≤ 1

instance (names : List String) (members : List (String × Json)) :
    Decidable (Unrepeated names members) := inferInstanceAs (Decidable (∀ _ ∈ _, _))

def member? (value : Json) (name : String) : Option Json :=
  match value with
  | record members => lookup name members
  | _ => none

/-- A member that is there and is not null. -/
def given? (value : Json) (name : String) : Option Json :=
  match value.member? name with
  | some null | none => none
  | found => found

def bool? : Json → Option Bool
  | bool value => some value
  | _ => none

def integer? : Json → Option Int
  | integer value => some value
  | _ => none

def natural? (limit : Nat) : Json → Option Nat
  | integer (.ofNat n) => if n < limit then some n else none
  | _ => none

def word? (value : Json) : Option UInt32 := (value.natural? UInt32.size).map Nat.toUInt32

def text? : Json → Option String
  | text value => some value
  | _ => none

def items? : Json → Option (List Json)
  | list items => some items
  | _ => none

def words? (value : Json) : Option (Array UInt32) := do
  return (← (← value.items?).mapM word?).toArray

def ofNat (n : Nat) : Json := integer n

def ofWord (word : UInt32) : Json := ofNat word.toNat

def ofList {α : Type} (write : α → Json) (items : List α) : Json := list (items.map write)

def ofOption {α : Type} (write : α → Json) : Option α → Json
  | some a => write a
  | none => null

def ofWords (words : List UInt32) : Json := ofList ofWord words

def display {α : Type} [ToString α] (a : α) : Json := text (toString a)

end Json

end MeshLayout
