import MeshLayout.Error

/-!
# Adjacency in compressed rows

An adjacency lists the neighbors of each source, one row after the other, in one array of
targets; row `r` is the part between the offsets `r` and `r + 1`. Rows keep the order and the
repetitions of their entries. Building from lists and renaming go through `Adjacency.pack`, which
lays a list of rows out. Turning every arrow round is a counting sort: it measures the rows to come
and then fills all of them in one pass.
-/

set_option autoImplicit false

namespace MeshLayout

structure Adjacency where
  offsets : Array UInt32
  targets : Array UInt32
  targetCount : Nat
  deriving DecidableEq, Repr

namespace Adjacency

def empty : Adjacency := ⟨#[0], #[], 0⟩

def rowCount (adjacency : Adjacency) : Nat := adjacency.offsets.size - 1

def entryCount (adjacency : Adjacency) : Nat := adjacency.targets.size

/-- The first row whose end lies before its start, with both. -/
def findFalling : List UInt32 → Nat → Option (Nat × UInt32 × UInt32)
  | offset :: next :: rest, row =>
    if next < offset then some (row, offset, next) else findFalling (next :: rest) (row + 1)
  | _, _ => none

/-- Whether the arrays are an adjacency of `rows` sources. The number of offsets that `rows`
calls for must itself be an index. -/
def check (rows : Nat) (offsets targets : Array UInt32) (targetCount : Nat) : Outcome Unit := do
  let expected ← Outcome.index (rows + 1)
  Checked.require (offsets.size = expected) (.schema (.offsetCount offsets.size expected))
  let first ← Outcome.ofLookup offsets[0]?
  Checked.require (first = 0) (.schema (.firstOffset first))
  match findFalling offsets.toList 0 with
  | some (row, offset, next) => Outcome.refuse (.schema (.fallingOffset row offset next))
  | none =>
    let last ← Outcome.ofLookup offsets[rows]?
    Checked.require (targets.size = last.toNat) (.schema (.neighborCount targets.size last))
    match targets.toList.find? fun target => targetCount ≤ target.toNat with
    | some target => Outcome.refuse (.schema (.neighborRange target targetCount))
    | none => return ()

def ofArrays (rows : Nat) (offsets targets : Array UInt32) (targetCount : Nat) :
    Outcome Adjacency := do
  check rows offsets targets targetCount
  return ⟨offsets, targets, targetCount⟩

def validate (adjacency : Adjacency) : Outcome Unit :=
  check adjacency.rowCount adjacency.offsets adjacency.targets adjacency.targetCount

/-- The ends of the rows when `start` entries come before them. -/
def rowEnds (start : Nat) : List (List UInt32) → List UInt32
  | [] => []
  | row :: rest => (start + row.length).toUInt32 :: rowEnds (start + row.length) rest

def packedOffsets (rows : List (List UInt32)) : Array UInt32 := (0 :: rowEnds 0 rows).toArray

/-- Lays rows out one after the other. -/
def pack (rows : List (List UInt32)) (targetCount : Nat) : Adjacency :=
  ⟨packedOffsets rows, rows.flatten.toArray, targetCount⟩

def ofLists (rows : List (List UInt32)) (targetCount : Nat) : Outcome Adjacency :=
  let packed := pack rows targetCount
  ofArrays rows.length packed.offsets packed.targets targetCount

def row? (adjacency : Adjacency) (row : Nat) : Option (List UInt32) := do
  let start ← adjacency.offsets[row]?
  let stop ← adjacency.offsets[row + 1]?
  if start ≤ stop ∧ stop.toNat ≤ adjacency.targets.size then
    some (adjacency.targets.extract start.toNat stop.toNat).toList
  else none

def degree? (adjacency : Adjacency) (row : Nat) : Option Nat := do
  let start ← adjacency.offsets[row]?
  let stop ← adjacency.offsets[row + 1]?
  if start ≤ stop then some (stop - start).toNat else none

def rows? (adjacency : Adjacency) : Option (List (List UInt32)) :=
  (List.range adjacency.rowCount).mapM adjacency.row?

def wordSum? (a b : UInt32) : Option UInt32 :=
  if a.toNat + b.toNat < UInt32.size then some (a + b) else none

/-- Adds to the count of each target how often it is in a list. -/
def countTargets : List UInt32 → Array UInt32 → Option (Array UInt32)
  | [], counts => some counts
  | target :: rest, counts => do
    let count ← counts[target.toNat]?
    countTargets rest (counts.setIfInBounds target.toNat (← wordSum? count 1))

/-- The offsets of rows with the given numbers of entries, the first of which starts at `start`. -/
def countedOffsets (start : UInt32) : List UInt32 → Option (List UInt32)
  | [] => some [start]
  | count :: rest => do
    return start :: (← countedOffsets (← wordSum? start count) rest)

/-- Rows that are being filled: the place of the next entry of each row, and the entries of all
rows. -/
structure Filling where
  cursors : Array UInt32
  entries : Array UInt32

namespace Filling

def enter (filling : Filling) (source target : UInt32) : Option Filling := do
  let cursor ← filling.cursors[target.toNat]?
  guard (cursor.toNat < filling.entries.size)
  return ⟨filling.cursors.setIfInBounds target.toNat (← wordSum? cursor 1),
    filling.entries.setIfInBounds cursor.toNat source⟩

def enterRow (source : UInt32) : List UInt32 → Filling → Option Filling
  | [], filling => some filling
  | target :: rest, filling => do
    enterRow source rest (← filling.enter source target)

def enterRows : List (List UInt32) → Nat → Filling → Option Filling
  | [], _, filling => some filling
  | row :: rest, source, filling => do
    enterRows rest (source + 1) (← filling.enterRow source.toUInt32 row)

end Filling

/-- Every arrow turned round. The row of a target lists its sources in ascending order. The rows
are measured first, so that each entry is written to its place at once. There must be room for the
offsets. -/
def transpose? (adjacency : Adjacency) : Option Adjacency := do
  guard ((adjacency.targetCount + 1) * 4 < memoryLimit)
  let counts ← countTargets adjacency.targets.toList (Array.replicate adjacency.targetCount 0)
  let offsets := (← countedOffsets 0 counts.toList).toArray
  let filled ← Filling.enterRows (← adjacency.rows?) 0
    ⟨offsets, Array.replicate adjacency.entryCount 0⟩
  return ⟨offsets, filled.entries, adjacency.rowCount⟩

/-- Row `row` of a renaming: the row that `rowSource` names, with its targets renamed. -/
def remapRow? (adjacency : Adjacency) (rowSource targetMap : Option (Array UInt32)) (row : Nat) :
    Option (List UInt32) := do
  let old ← match rowSource with
    | none => some row
    | some order => order[row]?.map UInt32.toNat
  let targets ← adjacency.row? old
  match targetMap with
  | none => some targets
  | some map => targets.mapM fun target => map[target.toNat]?

/-- The same arrows with rows put into another order and targets renamed. -/
def remap? (adjacency : Adjacency) (rowSource targetMap : Option (Array UInt32)) :
    Option Adjacency := do
  let rows ← (List.range adjacency.rowCount).mapM (adjacency.remapRow? rowSource targetMap)
  return pack rows adjacency.targetCount

end Adjacency

end MeshLayout
