import MeshLayout.Adjacency
import MeshLayout.Config
import MeshLayout.Permutation

/-!
# Relations between slots

An incidence is an adjacency between identities, made to answer for slots under a permutation
of the sources and one of the targets. A mode chooses at each end whether the permutation is
applied when the table is built or when it is asked; the neighbors of a slot are the same slots
in the same order in every mode.
-/

set_option autoImplicit false

namespace MeshLayout

structure Incidence where
  relation : Relation
  adjacency : Adjacency
  source : Permutation
  target : Permutation
  mode : Mode
  deriving DecidableEq, Repr

/-- The neighbors of one slot. With a permutation the entries are identities. -/
structure Neighbors where
  entries : List UInt32
  naming : Option Permutation

namespace Neighbors

def size (neighbors : Neighbors) : Nat := neighbors.entries.length

def slotOf? (neighbors : Neighbors) (entry : UInt32) : Option Slot :=
  match neighbors.naming with
  | some permutation => permutation.slotOf? entry
  | none => some entry

def get? (neighbors : Neighbors) (position : Nat) : Option Slot := do
  neighbors.slotOf? (← neighbors.entries[position]?)

def slots? (neighbors : Neighbors) : Option (List Slot) :=
  neighbors.entries.mapM neighbors.slotOf?

end Neighbors

namespace Incidence

/-- The order of rows that the mode asks for, where it is not the one they have. -/
def rowSource (mode : Mode) (source : Permutation) : Option (Array UInt32) :=
  if mode.fromEnd || source.isIdentity then none else some source.identities

/-- The new names of targets that the mode asks for, where they are not the ones they have. -/
def targetMap (mode : Mode) (target : Permutation) : Option (Array UInt32) :=
  if !mode.toEnd || target.isIdentity then none else some target.slots

def localize (adjacency : Adjacency) (source target : Permutation) (mode : Mode) :
    Option Adjacency :=
  match rowSource mode source, targetMap mode target with
  | none, none => some adjacency
  | rows, targets => adjacency.remap? rows targets

def size (incidence : Incidence) : Nat := incidence.adjacency.rowCount

def entryCount (incidence : Incidence) : Nat := incidence.adjacency.entryCount

def validate (incidence : Incidence) : Outcome Unit := do
  incidence.adjacency.validate
  Checked.require (incidence.size = incidence.source.size)
    (.schema (.rowCount incidence.relation incidence.size incidence.source.size))

def build (relation : Relation) (adjacency : Adjacency) (source target : Permutation)
    (mode : Mode) : Outcome Incidence := do
  Checked.require
    (adjacency.rowCount = source.size ∧ adjacency.targetCount = target.size)
    (.schema (.shape relation adjacency.rowCount adjacency.targetCount source.size target.size))
  let localized ← Outcome.ofLookup (localize adjacency source target mode)
  let incidence := ⟨relation, localized, source, target, mode⟩
  Outcome.assert (validate incidence)
  return incidence

def rowOf? (incidence : Incidence) (slot : Slot) : Option Nat :=
  if incidence.mode.fromEnd then (incidence.source.identityOf? slot).map UInt32.toNat
  else some slot.toNat

def neighbors? (incidence : Incidence) (slot : Slot) : Option Neighbors := do
  let row ← incidence.adjacency.row? (← incidence.rowOf? slot)
  return ⟨row, if incidence.mode.toEnd then none else some incidence.target⟩

def findNeighbors (incidence : Incidence) (slot : Slot) : Outcome Neighbors := do
  Checked.require (slot.toNat < incidence.size)
    (.outOfRange (.sourceSlot incidence.relation) slot.toNat incidence.size)
  Outcome.ofLookup (incidence.neighbors? slot)

def neighborSlots? (incidence : Incidence) (slot : Slot) : Option (List Slot) := do
  (← incidence.neighbors? slot).slots?

def neighborIdentities? (incidence : Incidence) (slot : Slot) : Option (List Identity) := do
  (← incidence.neighborSlots? slot).mapM incidence.target.identityOf?

end Incidence

end MeshLayout
