import MeshLayout.Json

/-!
# Codecs

How a library writes the values of a type as documents and reads them back, and the rules that it
follows for a type by how the type is declared: numbers, a choice of names, lists, and objects with
fixed members.
-/

set_option autoImplicit false

namespace MeshLayout

structure Codec (α : Type) where
  write : α → Json
  read? : Json → Option α

/-- A declared member of the objects for values of a type, with what it stands for when it is
missing. Without that it must be there. -/
structure Member (σ : Type) where
  {Part : Type}
  name : String
  codec : Codec Part
  part : σ → Part
  missing : Option Part := none

namespace Member

variable {σ : Type}

def entry (member : Member σ) (s : σ) : String × Json :=
  (member.name, member.codec.write (member.part s))

/-- What is found for a member gives its part of a value. -/
def Gives (member : Member σ) (s : σ) : Option Json → Prop
  | some value => member.codec.read? value = some (member.part s)
  | none => member.missing = some (member.part s)

end Member

namespace Codec

variable {α σ : Type}

/-- Numbers of a type that has those below a limit are written and read as they are. -/
structure Numeric (codec : Codec α) (toNat : α → Nat) (limit : Nat) : Prop where
  write : ∀ a, toNat a < limit → codec.write a = .ofNat (toNat a)
  read : ∀ n a, codec.read? (.ofNat n) = some a ↔ toNat a = n ∧ n < limit
  below : ∀ value a, codec.read? value = some a → toNat a < limit

/-- Values without data are written by their names, and names are read as the values that they
belong to. -/
structure Named (codec : Codec α) (label : α → String) : Prop where
  write : ∀ a, codec.write a = .text (label a)
  read : ∀ name a, codec.read? (.text name) = some a ↔ label a = name

structure Itemwise (codec : Codec (Array α)) (item : Codec α) : Prop where
  write : ∀ items, codec.write items = .list (items.toList.map item.write)
  read : ∀ values, codec.read? (.list values) = (values.mapM item.read?).map List.toArray

/-- Objects have the declared members in their order. An object is read if no declared member is
repeated and each gives its part; other members are not looked at. -/
structure Memberwise (codec : Codec σ) (declared : List (Member σ)) : Prop where
  write : ∀ s, codec.write s = .record (declared.map (·.entry s))
  read : ∀ members s, codec.read? (.record members) = some s ↔
    Json.Unrepeated (declared.map (·.name)) members ∧
      ∀ member ∈ declared, member.Gives s (Json.lookup member.name members)

end Codec

end MeshLayout
