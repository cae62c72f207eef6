import MeshLayout.Permutation
import MeshLayout.PerKind

/-!
# Patches of a kind

A partition gives the patch of each identity of a kind. If the slots of every patch follow one
another, it also gives the range of slots of each patch; `Partition.contiguous` finds the ranges
in one pass over the slots, or the first slot at which a patch resumes after another one.
-/

set_option autoImplicit false

namespace MeshLayout

/-- The slots of a patch, from `start` up to but without `stop`. -/
structure PatchRange where
  patch : Patch
  start : Nat
  stop : Nat
  deriving DecidableEq, Repr

def PatchRange.size (range : PatchRange) : Nat := range.stop - range.start

structure Partition where
  kind : Kind
  patches : Array Patch
  ranges : Option (List PatchRange)
  deriving DecidableEq, Repr

namespace Partition

def scattered (kind : Kind) (patches : Array Patch) : Partition := ⟨kind, patches, none⟩

/-- Adds a slot to ranges of which the latest is first. -/
def extend (kind : Kind) (patch : Patch) (slot : Nat) :
    List PatchRange → Checked (List PatchRange)
  | [] => .ok [⟨patch, slot, slot + 1⟩]
  | last :: earlier =>
    if last.patch = patch then .ok ({ last with stop := slot + 1 } :: earlier)
    else if earlier.any (·.patch == patch) then .error (.patches (.split kind patch slot))
    else .ok (⟨patch, slot, slot + 1⟩ :: last :: earlier)

def scan (kind : Kind) (patches : Array Patch) :
    List Identity → Nat → List PatchRange → Outcome (List PatchRange)
  | [], _, ranges => .ok ranges
  | identity :: rest, slot, ranges => do
    let patch ← Outcome.ofLookup patches[identity.toNat]?
    scan kind patches rest (slot + 1) (← extend kind patch slot ranges)

def coverage : List PatchRange → Nat
  | [] => 0
  | range :: rest => range.size + coverage rest

/-- The ranges cover as many slots as there are elements. -/
def validate (partition : Partition) : Checked Unit :=
  match partition.ranges with
  | none => .ok ()
  | some ranges =>
    let covered := coverage ranges
    Checked.require (covered = partition.patches.size)
      (.patches (.coverage partition.kind covered partition.patches.size))

def contiguous (kind : Kind) (patches : Array Patch) (permutation : Permutation) :
    Outcome Partition := do
  let ranges ← scan kind patches permutation.identities.toList 0 []
  let partition := ⟨kind, patches, some (ranges.mergeSort fun a b => a.patch ≤ b.patch)⟩
  Outcome.assert (Outcome.ofChecked (validate partition))
  return partition

def isContiguous (partition : Partition) : Bool := partition.ranges.isSome

def patchOf? (partition : Partition) (identity : Identity) : Option Patch :=
  partition.patches[identity.toNat]?

def range (partition : Partition) (patch : Patch) : Checked PatchRange :=
  match partition.ranges with
  | none => .error (.patches (.scattered partition.kind))
  | some ranges =>
    match ranges.find? (·.patch == patch) with
    | some range => .ok range
    | none => .error (.patches (.absent partition.kind patch))

def patchCount (partition : Partition) : Nat :=
  match partition.ranges with
  | some ranges => ranges.length
  | none => (partition.patches.toList.mergeSort fun a b => a ≤ b).eraseReps.length

end Partition

structure PatchIndex where
  partitions : PerKind (Option Partition)
  deriving DecidableEq, Repr

namespace PatchIndex

def empty : PatchIndex := ⟨.const none⟩

def insert (index : PatchIndex) (partition : Partition) : PatchIndex :=
  ⟨index.partitions.set partition.kind (some partition)⟩

def partition (index : PatchIndex) (kind : Kind) : Checked Partition :=
  match index.partitions.get kind with
  | some partition => .ok partition
  | none => .error (.config (.missingPatches kind))

def patchOf (index : PatchIndex) (kind : Kind) (identity : Identity) : Checked Patch := do
  let partition ← index.partition kind
  match partition.patchOf? identity with
  | some patch => .ok patch
  | none => .error (.outOfRange (.identityOf kind) identity.toNat partition.patches.size)

def range (index : PatchIndex) (kind : Kind) (patch : Patch) : Checked PatchRange := do
  (← index.partition kind).range patch

end PatchIndex

end MeshLayout
