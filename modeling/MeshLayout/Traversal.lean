import MeshLayout.Mesh

/-!
# Chains of relations

A traversal follows linked relations one after the other. Its endpoints from a slot are listed
with one entry for each path, in the order in which neighbors are stored.
-/

set_option autoImplicit false

namespace MeshLayout

structure Traversal where
  start : Kind
  hops : List Incidence

namespace Traversal

def hopsOf (mesh : Mesh) (start : Kind) : List Kind → Checked (List Incidence)
  | [] => .ok []
  | next :: rest => do
    let hop ← mesh.incidence ⟨start, next⟩
    return hop :: (← hopsOf mesh next rest)

def compile (mesh : Mesh) (start : Kind) (path : List Kind) : Checked Traversal := do
  Checked.require (path ≠ []) (.config (.emptyPath start))
  return ⟨start, ← hopsOf mesh start path⟩

def endpointKind (traversal : Traversal) : Kind :=
  match traversal.hops.getLast? with
  | some hop => hop.relation.target
  | none => traversal.start

def step? (traversal : Traversal) (hop : Nat) (slot : Slot) : Option Neighbors := do
  (← traversal.hops[hop]?).neighbors? slot

def walk? : List Incidence → Slot → Option (List Slot)
  | [], slot => some [slot]
  | hop :: rest, slot => do
    let next ← hop.neighborSlots? slot
    return (← next.mapM (walk? rest)).flatten

def endpoints? (traversal : Traversal) (slot : Slot) : Option (List Slot) :=
  walk? traversal.hops slot

end Traversal

end MeshLayout
