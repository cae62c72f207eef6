import MeshLayout.Codec
import MeshLayout.Metadata

/-!
# Drafts as documents

The written form of a draft is an object with the members `counts`, `relations` and `patches`.
The first is required; the others may be missing and then are empty. Members of other names are
ignored, and none of these may be repeated. The members of an object of counts or patches are named
by kinds. An object with fixed members may also be given as the list of their values in order.

What is declared here is the members and the names; a `Serializer` is whatever library writes and
reads documents by them.
-/

set_option autoImplicit false

namespace MeshLayout

namespace Kind

def toJson (kind : Kind) : Json := .text kind.label

/-- A kind is named by its label, alone or as the only member, without a value, of an object. -/
def ofJson? : Json → Option Kind
  | .text label => ofLabel? label
  | .record [(label, .null)] => ofLabel? label
  | _ => none

end Kind

namespace PerKind

variable {α : Type}

def readMembers (read : Json → Option α) :
    List (String × Json) → PerKind (Option α) → Option (PerKind (Option α))
  | [], table => some table
  | (label, value) :: rest, table => do
    let kind ← Kind.ofLabel? label
    let a ← read value
    readMembers read rest (table.set kind (some a))

def ofJson? (read : Json → Option α) : Json → Option (PerKind (Option α))
  | .record members => readMembers read members (.const none)
  | _ => none

def toJson (write : α → Json) (table : PerKind (Option α)) : Json :=
  .record (table.toList.filterMap fun (kind, entry) => entry.map fun a => (kind.label, write a))

end PerKind

/-- Tables have a member for each kind with an entry, and nothing but objects is read as a table,
member by member. -/
structure Codec.Entrywise {α : Type} (codec : Codec (PerKind (Option α))) (entry : Codec α) :
    Prop where
  write : ∀ table, codec.write table = table.toJson entry.write
  read : ∀ value, codec.read? value = PerKind.ofJson? entry.read? value

namespace RelationDraft

def declared (kind : Codec Kind) (words : Codec (Array UInt32)) : List (Member RelationDraft) := [
  { name := "from", codec := kind, part := (·.relation.source) },
  { name := "to", codec := kind, part := (·.relation.target) },
  { name := "offsets", codec := words, part := (·.offsets) },
  { name := "neighbors", codec := words, part := (·.neighbors) }]

def names : List String := ["from", "to", "offsets", "neighbors"]

def toJson (given : RelationDraft) : Json :=
  .record [
    ("from", given.relation.source.toJson),
    ("to", given.relation.target.toJson),
    ("offsets", .ofWords given.offsets.toList),
    ("neighbors", .ofWords given.neighbors.toList)]

def ofParts? (source target offsets neighbors : Json) : Option RelationDraft := do
  let source ← Kind.ofJson? source
  let target ← Kind.ofJson? target
  return ⟨⟨source, target⟩, ← offsets.words?, ← neighbors.words?⟩

def ofMembers? (members : List (String × Json)) : Option RelationDraft := do
  guard (Json.Unrepeated names members)
  ofParts? (← Json.lookup "from" members) (← Json.lookup "to" members)
    (← Json.lookup "offsets" members) (← Json.lookup "neighbors" members)

def ofJson? : Json → Option RelationDraft
  | .list [source, target, offsets, neighbors] => ofParts? source target offsets neighbors
  | .record members => ofMembers? members
  | _ => none

end RelationDraft

namespace Draft

def declared (counts : Codec (PerKind (Option Nat))) (relations : Codec (Array RelationDraft))
    (patches : Codec (PerKind (Option (Array Patch)))) : List (Member Draft) := [
  { name := "counts", codec := counts, part := (·.counts) },
  { name := "relations", codec := relations, part := (·.relations.toArray), missing := some #[] },
  { name := "patches", codec := patches, part := (·.patches), missing := some (.const none) }]

def names : List String := ["counts", "relations", "patches"]

def toJson (draft : Draft) : Json :=
  .record [
    ("counts", draft.counts.toJson .ofNat),
    ("relations", .list (draft.relations.map RelationDraft.toJson)),
    ("patches", draft.patches.toJson fun patches => .ofWords patches.toList)]

def relationsOfJson? (value : Json) : Option (List RelationDraft) := do
  (← value.items?).mapM RelationDraft.ofJson?

def ofParts? (counts : Json) (relations patches : Option Json) : Option Draft := do
  let counts ← PerKind.ofJson? (Json.natural? indexLimit) counts
  let relations ← match relations with
    | none => some []
    | some value => relationsOfJson? value
  let patches ← match patches with
    | none => some (.const none)
    | some value => PerKind.ofJson? Json.words? value
  return ⟨counts, relations, patches⟩

def ofMembers? (members : List (String × Json)) : Option Draft := do
  guard (Json.Unrepeated names members)
  ofParts? (← Json.lookup "counts" members) (Json.lookup "relations" members)
    (Json.lookup "patches" members)

def ofJson? : Json → Option Draft
  | .list [counts] => ofParts? counts none none
  | .list [counts, relations] => ofParts? counts (some relations) none
  | .list [counts, relations, patches] => ofParts? counts (some relations) (some patches)
  | .record members => ofMembers? members
  | _ => none

end Draft

/-- A library that writes drafts as texts and reads them: its codecs for drafts and for the types of
their parts, and its way from documents to texts and back. -/
structure Serializer where
  count : Codec Nat
  word : Codec UInt32
  kind : Codec Kind
  words : Codec (Array UInt32)
  relation : Codec RelationDraft
  relations : Codec (Array RelationDraft)
  counts : Codec (PerKind (Option Nat))
  patches : Codec (PerKind (Option (Array Patch)))
  draft : Codec Draft
  print : Json → String
  parse? : String → Option Json

namespace Serializer

variable (serializer : Serializer)

def write (draft : Draft) : String := serializer.print (serializer.draft.write draft)

def read? (text : String) : Option Draft := (serializer.parse? text).bind serializer.draft.read?

end Serializer

end MeshLayout
