import MeshLayout.Adjacency

/-!
# Descriptions of meshes

A draft is a description as it is put together: element counts, relations in compressed rows,
and patches. `Draft.validate` accepts the consistent drafts. The metadata that it yields holds
an adjacency for each relation given, and the patch of every element of every counted kind;
elements of a kind without patches given are all in patch 0. A relation that is not given can
still be read as the reverse of one that is (`Metadata.adjacency?`).
-/

set_option autoImplicit false

namespace MeshLayout

/-- A relation as it is given, before any check. -/
structure RelationDraft where
  relation : Relation
  offsets : Array UInt32
  neighbors : Array UInt32
  deriving DecidableEq, Repr

structure Draft where
  counts : PerKind (Option Nat) := .const none
  relations : List RelationDraft := []
  patches : PerKind (Option (Array Patch)) := .const none
  deriving DecidableEq, Repr

structure Metadata where
  counts : PerKind (Option Nat)
  relations : PerRelation (Option Adjacency)
  patches : PerKind (Option (Array Patch))
  deriving DecidableEq, Repr

namespace Draft

def empty : Draft := {}

def setCount (draft : Draft) (kind : Kind) (count : Nat) : Draft :=
  { draft with counts := draft.counts.set kind (some count) }

def addRelation (draft : Draft) (relation : Relation) (offsets neighbors : Array UInt32) : Draft :=
  { draft with relations := draft.relations ++ [⟨relation, offsets, neighbors⟩] }

def addLists (draft : Draft) (relation : Relation) (rows : List (List UInt32)) : Draft :=
  let packed := Adjacency.pack rows 0
  draft.addRelation relation packed.offsets packed.targets

def setPatches (draft : Draft) (kind : Kind) (patches : Array Patch) : Draft :=
  { draft with patches := draft.patches.set kind (some patches) }

def count (draft : Draft) (kind : Kind) : Checked Nat :=
  match draft.counts.get kind with
  | some count => .ok count
  | none => .error (.schema (.uncounted kind))

/-- Says of an inconsistent adjacency which relation it is given for. -/
def ofRelation {α : Type} (relation : Relation) : Outcome α → Outcome α
  | .error (.refused (.schema issue)) => Outcome.refuse (.schema (.ofRelation relation issue))
  | outcome => outcome

def adjacency (draft : Draft) (given : RelationDraft) : Outcome Adjacency := do
  let rows ← draft.count given.relation.source
  let targets ← draft.count given.relation.target
  ofRelation given.relation (Adjacency.ofArrays rows given.offsets given.neighbors targets)

/-- Enters relations, in the order given, into a table that has none of them yet. -/
def enter (draft : Draft) :
    List RelationDraft → PerRelation (Option Adjacency) → Outcome (PerRelation (Option Adjacency))
  | [], table => .ok table
  | given :: rest, table => do
    let adjacency ← draft.adjacency given
    Checked.require (table.get given.relation = none)
      (.schema (.repeatedRelation given.relation))
    draft.enter rest (table.set given.relation (some adjacency))

/-- The patch of each element of a kind, if the kind is counted. -/
def patchArray (draft : Draft) (kind : Kind) : Outcome (Option (Array Patch)) :=
  match draft.counts.get kind, draft.patches.get kind with
  | none, _ => .ok none
  | some count, some patches => do
    Checked.require (patches.size = count) (.schema (.patchCount kind patches.size count))
    return some patches
  | some count, none =>
    if count * 4 < memoryLimit then .ok (some (Array.replicate count 0))
    else Outcome.fault .outOfMemory

def uncountedPatches? (draft : Draft) : Option Kind :=
  Kind.all.find? fun kind => (draft.patches.get kind).isSome && (draft.counts.get kind).isNone

def validate (draft : Draft) : Outcome Metadata := do
  let relations ← draft.enter draft.relations (.const none)
  let patches ← PerKind.build draft.patchArray
  match draft.uncountedPatches? with
  | some kind => Outcome.refuse (.schema (.uncountedPatches kind))
  | none => return ⟨draft.counts, relations, patches⟩

end Draft

namespace Metadata

def count? (metadata : Metadata) (kind : Kind) : Option Nat := metadata.counts.get kind

def kinds (metadata : Metadata) : List Kind :=
  Kind.all.filter fun kind => (metadata.count? kind).isSome

def patches? (metadata : Metadata) (kind : Kind) : Option (Array Patch) := metadata.patches.get kind

def patchOf? (metadata : Metadata) (kind : Kind) (identity : Identity) : Option Patch := do
  (← metadata.patches? kind)[identity.toNat]?

def stored? (metadata : Metadata) (relation : Relation) : Option Adjacency :=
  metadata.relations.get relation

def storedRelations (metadata : Metadata) : List Relation :=
  Relation.all.filter fun relation => (metadata.stored? relation).isSome

/-- The adjacency given for a relation, or else the reverse of the one given for the reversed
relation. -/
def adjacency? (metadata : Metadata) (relation : Relation) : Outcome (Option Adjacency) :=
  match metadata.stored? relation with
  | some adjacency => .ok (some adjacency)
  | none =>
    match metadata.stored? relation.reversed with
    | none => .ok none
    | some reverse => return some (← Outcome.ofLookup reverse.transpose?)

end Metadata

end MeshLayout
