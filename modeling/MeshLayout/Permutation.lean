import MeshLayout.Error

/-!
# Permutations of a kind

A permutation is two tables: the slot of each identity and the identity in each slot. It also
records whether every element is in the slot of its own number. Tables are built in place, from
the identities in slot order, or by grouping identities by patch; `Permutation.validate` compares
one table with the other.
-/

set_option autoImplicit false

namespace MeshLayout

structure Permutation where
  slots : Array Slot
  identities : Array Identity
  isIdentity : Bool
  deriving DecidableEq, Repr

namespace Permutation

def size (permutation : Permutation) : Nat := permutation.slots.size

/-- The numbers below `n`, or as many of them as a word can count. -/
def numbers (n : Nat) : List UInt32 := (List.range (n % UInt32.size)).map Nat.toUInt32

def inPlace (n : Nat) : Permutation := ⟨(numbers n).toArray, (numbers n).toArray, true⟩

def inOrder : List Identity → Nat → Bool
  | [], _ => true
  | identity :: rest, slot => slot.toUInt32 == identity && inOrder rest (slot + 1)

/-- Marks an identity that no slot holds yet. -/
def unplaced : Slot := 0xFFFFFFFF

/-- Puts the identities of the list into the slots from `slot` on. -/
def place : List Identity → Nat → Array Slot → Checked (Array Slot)
  | [], _, slots => .ok slots
  | identity :: rest, slot, slots =>
    match slots[identity.toNat]? with
    | none => .error (.permutation (.outOfRange identity slots.size))
    | some previous =>
      if previous = unplaced then
        place rest (slot + 1) (slots.setIfInBounds identity.toNat slot.toUInt32)
      else .error (.permutation (.repeated identity previous slot))

def ofIdentities (order : Array Identity) : Checked Permutation := do
  let slots ← place order.toList 0 (Array.replicate order.size unplaced)
  return ⟨slots, order, inOrder order.toList 0⟩

def invert : List Identity → Nat → Array Slot → Array Slot
  | [], _, slots => slots
  | identity :: rest, slot, slots =>
    invert rest (slot + 1) (slots.setIfInBounds identity.toNat slot.toUInt32)

/-- Identities by ascending patch, and by ascending identity within a patch. -/
def groupedOrder (patches : Array Patch) : List Identity :=
  let numbered := patches.toList.zip (numbers patches.size)
  (numbered.mergeSort fun a b => a.1 ≤ b.1).map Prod.snd

def grouped (patches : Array Patch) : Permutation :=
  let order := groupedOrder patches
  ⟨invert order 0 (Array.replicate order.length 0), order.toArray, inOrder order 0⟩

def slotOf? (permutation : Permutation) (identity : Identity) : Option Slot :=
  permutation.slots[identity.toNat]?

def identityOf? (permutation : Permutation) (slot : Slot) : Option Identity :=
  permutation.identities[slot.toNat]?

def findSlot (permutation : Permutation) (identity : Identity) : Checked Slot :=
  match permutation.slotOf? identity with
  | some slot => .ok slot
  | none => .error (.outOfRange .identity identity.toNat permutation.size)

def findIdentity (permutation : Permutation) (slot : Slot) : Checked Identity :=
  match permutation.identityOf? slot with
  | some identity => .ok identity
  | none => .error (.outOfRange .slot slot.toNat permutation.size)

def findUninverted (identities : Array Identity) : List Slot → Nat → Option (Nat × Slot)
  | [], _ => none
  | slot :: rest, identity =>
    if identities[slot.toNat]? = some identity.toUInt32 then
      findUninverted identities rest (identity + 1)
    else some (identity, slot)

def validate (permutation : Permutation) : Checked Unit := do
  Checked.require (permutation.slots.size = permutation.identities.size)
    (.permutation (.sizes permutation.slots.size permutation.identities.size))
  match findUninverted permutation.identities permutation.slots.toList 0 with
  | none => .ok ()
  | some (identity, slot) => .error (.permutation (.notInverted identity slot))

end Permutation

inductive SlotOrder
  | byIdentity
  | byPatch
  deriving DecidableEq, Repr

namespace SlotOrder

/-- A kind is grouped by patch if it asks for it, or if every kind is. -/
def choose (force reorder : Bool) : SlotOrder := if reorder || force then byPatch else byIdentity

def permutation (order : SlotOrder) (patches : Array Patch) : Permutation :=
  match order with
  | byIdentity => .inPlace patches.size
  | byPatch => .grouped patches

def assign (force : Bool) (patches : Array Patch) (reorder : Bool) : Outcome Permutation := do
  let permutation := (choose force reorder).permutation patches
  Outcome.assert (Outcome.ofChecked permutation.validate)
  return permutation

end SlotOrder

end MeshLayout
