/-!
# Element kinds and mesh topologies

A mesh is made of elements of four kinds, one for each dimension. A topology names the kinds
that its meshes may hold. An element is known by its identity, which the description of the
mesh fixes once, and is stored in a slot, which a layout is free to choose. Both are words of
32 bits.
-/

set_option autoImplicit false

namespace MeshLayout

abbrev Identity := UInt32

abbrev Slot := UInt32

/-- A patch is a group of elements of one kind, known by a number. -/
abbrev Patch := UInt32

/-- Counts, lengths and positions are below this number. -/
def indexLimit : Nat := UInt64.size

/-- The number of bytes that an array takes is below this number. -/
def memoryLimit : Nat := UInt64.size / 2

def Identity.label (identity : Identity) : String := s!"#{identity}"

def Slot.label (slot : Slot) : String := s!"@{slot}"

inductive Kind
  | vertex
  | edge
  | face
  | cell
  deriving DecidableEq, Repr

namespace Kind

/-- The kinds by increasing dimension, which is their order everywhere. -/
def all : List Kind := [vertex, edge, face, cell]

def dimension : Kind → Nat
  | vertex => 0
  | edge => 1
  | face => 2
  | cell => 3

def label : Kind → String
  | vertex => "vertex"
  | edge => "edge"
  | face => "face"
  | cell => "cell"

def ofLabel? (label : String) : Option Kind := all.find? (·.label == label)

def plural : Kind → String
  | vertex => "verts"
  | edge => "edges"
  | face => "faces"
  | cell => "cells"

def title : Kind → String
  | vertex => "Vertex"
  | edge => "Edge"
  | face => "Face"
  | cell => "Cell"

instance : ToString Kind := ⟨plural⟩

theorem mem_all (kind : Kind) : kind ∈ all := by
  cases kind <;> decide

end Kind

/-- Triangle meshes have no cells; tetrahedron meshes have every kind. -/
inductive Topology
  | tri
  | tet
  deriving DecidableEq, Repr

namespace Topology

def kinds : Topology → List Kind
  | tri => [.vertex, .edge, .face]
  | tet => Kind.all

def has (topology : Topology) (kind : Kind) : Bool := topology.kinds.contains kind

def title : Topology → String
  | tri => "Tri"
  | tet => "Tet"

instance : ToString Topology := ⟨title⟩

end Topology

end MeshLayout
