import MeshLayout.Blueprint
import MeshLayout.Document

/-!
# Reports

Objects as JSON values, with all that can be seen of them.
-/

set_option autoImplicit false

namespace MeshLayout

def Error.toJson (error : Error) (name : Error → String) : Json :=
  .record [("error", .text (name error)), ("message", .text error.message)]

def Mode.toJson (mode : Mode) : Json :=
  .record [("to_end", .bool mode.toEnd), ("from_end", .bool mode.fromEnd)]

def Config.toJson (config : Config) : Json :=
  .record [
    ("to_end", .bool config.mode.toEnd),
    ("from_end", .bool config.mode.fromEnd),
    ("patch_contiguous", .bool config.patchContiguous),
    ("local_cache", .bool config.localCache)]

def Relation.toJson (relation : Relation) : Json :=
  .record [("from", relation.source.toJson), ("to", relation.target.toJson)]

def Permutation.toJson (permutation : Permutation) : Json :=
  .record [
    ("len", .ofNat permutation.size),
    ("is_empty", .bool (permutation.size == 0)),
    ("is_identity", .bool permutation.isIdentity),
    ("slots", .ofWords permutation.slots.toList),
    ("identities", .ofWords permutation.identities.toList)]

def Adjacency.report (adjacency : Adjacency) : Outcome Json := do
  let rows ← Outcome.ofLookup adjacency.rows?
  let degrees ←
    Outcome.ofLookup ((List.range adjacency.rowCount).mapM adjacency.degree?)
  return .record [
    ("rows", .ofNat adjacency.rowCount),
    ("target_count", .ofNat adjacency.targetCount),
    ("nnz", .ofNat adjacency.entryCount),
    ("offsets", .ofWords adjacency.offsets.toList),
    ("targets", .ofWords adjacency.targets.toList),
    ("lists", .ofList .ofWords rows),
    ("degrees", .ofList .ofNat degrees)]

def PatchRange.toJson (range : PatchRange) : Json := .list [.ofNat range.start, .ofNat range.stop]

def Partition.toJson (partition : Partition) : Json :=
  let range (range : PatchRange) : Json :=
    .list [.ofWord range.patch, .ofNat range.start, .ofNat range.stop]
  .record [
    ("kind", partition.kind.toJson),
    ("contiguous", .bool partition.isContiguous),
    ("num_patches", .ofNat partition.patchCount),
    ("ranges", .ofOption (.ofList range) partition.ranges)]

def Neighbors.report (neighbors : Neighbors) : Outcome Json := do
  return .record [
    ("len", .ofNat neighbors.size),
    ("is_empty", .bool (neighbors.size == 0)),
    ("slots", .ofWords (← Outcome.ofLookup neighbors.slots?))]

def Incidence.report (incidence : Incidence) : Outcome Json := do
  let rows ← (Permutation.numbers incidence.size).mapM fun slot => do
    let slots ← Outcome.ofLookup (incidence.neighborSlots? slot)
    let identities ← Outcome.ofLookup (incidence.neighborIdentities? slot)
    return .record [("slots", .ofWords slots), ("ids", .ofWords identities)]
  return .record [
    ("key", .display incidence.relation),
    ("mode", incidence.mode.toJson),
    ("len", .ofNat incidence.size),
    ("is_empty", .bool (incidence.size == 0)),
    ("nnz", .ofNat incidence.entryCount),
    ("rows", .list rows)]

def Column.toJson (column : Column) : Json :=
  .record [
    ("scalar", .display column.scalar),
    ("len", .ofNat column.size),
    ("is_empty", .bool (column.size == 0)),
    ("values", column.scalar.writeValues column.cells)]

def Field.toJson (field : Field) : Json :=
  .record [
    ("name", .text field.name),
    ("type", .display field.type),
    ("len", .ofNat field.size),
    ("is_empty", .bool (field.size == 0)),
    ("components", .ofNat field.components)]

def LooseField.toJson (loose : LooseField) : Json :=
  .record [
    ("name", .text loose.field.name),
    ("kind", loose.kind.toJson),
    ("len", .ofNat loose.field.size),
    ("is_empty", .bool (loose.field.size == 0)),
    ("type", .display loose.field.type)]

def FieldSet.toJson (set : FieldSet) : Json :=
  .record [
    ("kind", set.kind.toJson),
    ("len", .ofNat set.size),
    ("is_empty", .bool (set.size == 0)),
    ("fields", .ofList .text set.names)]

def Access.toJson (access : Access) : Json := .text access.label

def Plan.toJson (plan : Plan) : Json :=
  let mode := match plan.mode with
    | .whole => "whole"
    | .perPatch => "per_patch"
  let entry (entry : StagedUse) : Json := .list [.ofNat entry.binding, entry.access.toJson]
  .record [
    ("mode", .text mode),
    ("entries", .ofList entry plan.entries),
    ("is_empty", .bool plan.isEmpty)]

def Metadata.report (metadata : Metadata) : Outcome Json := do
  let kinds ← metadata.kinds.mapM fun kind => do
    let count ← Outcome.ofLookup (metadata.count? kind)
    let patches ← Outcome.ofLookup (metadata.patches? kind)
    return .list [kind.toJson, .ofNat count, .ofWords patches.toList]
  let relations ← metadata.storedRelations.mapM fun relation => do
    let adjacency ← Outcome.ofLookup (metadata.stored? relation)
    return .list [.display relation, ← adjacency.report]
  return .record [("kinds", .list kinds), ("relations", .list relations)]

def Blueprint.toJson (blueprint : Blueprint) : Json :=
  .record [
    ("topology", .display blueprint.topology),
    ("config", blueprint.config.toJson),
    ("frozen", .bool blueprint.frozen)]

def Mesh.report (mesh : Mesh) : Outcome Json := do
  let kinds ← mesh.kinds.mapM fun kind => do
    let set ← mesh.elements kind
    let partition ← mesh.patchIndex.partition kind
    return .record [
      ("set", set.toJson),
      ("identities", .ofWords set.permutation.identities.toList),
      ("is_identity", .bool set.permutation.isIdentity),
      ("patch", partition.toJson)]
  return .record [
    ("topology", .display mesh.topology),
    ("config", mesh.config.toJson),
    ("kinds", .list kinds),
    ("relations", .ofList .display mesh.relations)]

def Element.report (element : Element) : Outcome Json := do
  let identity ← Outcome.ofLookup element.identity?
  return .list [element.kind.toJson, .ofWord element.slot, .ofWord identity]

end MeshLayout
