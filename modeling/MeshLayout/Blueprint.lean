import MeshLayout.Mesh

/-!
# Blueprints of meshes

A blueprint declares the fields of each kind, which kinds to group by patch, and the relations
to link. `Blueprint.assemble` lays a description out by it. The first mesh that is built freezes
the blueprint: later declarations are refused, later builds are not.
-/

set_option autoImplicit false

namespace MeshLayout

structure Placement where
  fields : List Declaration := []
  reorder : Bool := false
  deriving DecidableEq, Repr

structure Blueprint where
  topology : Topology
  config : Config := {}
  placements : PerKind (Option Placement) := .const none
  links : PerRelation Bool := .const false
  frozen : Bool := false
  deriving DecidableEq, Repr

namespace Blueprint

def checkKind (blueprint : Blueprint) (kind : Kind) : Checked Unit :=
  Checked.require (blueprint.topology.has kind)
    (.config (.outsideTopology kind blueprint.topology))

def addFields (kind : Kind) : List Declaration → List Declaration → List Declaration × Checked Unit
  | [], fields => (fields, .ok ())
  | declaration :: rest, fields =>
    if fields.any (·.name == declaration.name) then
      (fields, .error (.config (.repeatedField kind declaration.name)))
    else if declaration.type.components = 0 then
      (fields, .error (.config (.emptyField kind declaration.name)))
    else addFields kind rest (fields ++ [declaration])

def placement (blueprint : Blueprint) (kind : Kind) : Placement :=
  (blueprint.placements.get kind).getD {}

/-- Declares fields of a kind. Declarations before one that is refused stay; the wish to reorder
is kept only if none is refused. -/
def place (blueprint : Blueprint) (kind : Kind) (declarations : List Declaration)
    (reorder : Bool) : Blueprint × Checked Unit :=
  if blueprint.frozen then (blueprint, .error (.frozen .placeFields))
  else
    match blueprint.checkKind kind with
    | .error error => (blueprint, .error error)
    | .ok () =>
      let before := blueprint.placement kind
      let (fields, result) := addFields kind declarations before.fields
      let after := ⟨fields, before.reorder || (reorder && result.isOk)⟩
      ({ blueprint with placements := blueprint.placements.set kind (some after) }, result)

def link (blueprint : Blueprint) (relation : Relation) : Checked Blueprint := do
  Checked.require (!blueprint.frozen) (.frozen .linkRelations)
  blueprint.checkKind relation.source
  blueprint.checkKind relation.target
  return { blueprint with links := blueprint.links.set relation true }

/-- The first kind with declarations that a description does not count. -/
def uncounted? (blueprint : Blueprint) (metadata : Metadata) : Option Kind :=
  Kind.all.find? fun kind =>
    (blueprint.placements.get kind).isSome && (metadata.count? kind).isNone

/-- The permutation and the patches of a kind that the mesh is to have. -/
def arrange (blueprint : Blueprint) (metadata : Metadata) (kind : Kind) :
    Outcome (Option (Permutation × Partition)) :=
  match blueprint.topology.has kind, metadata.count? kind, metadata.patches? kind with
  | true, some _, some patches => do
    let force := blueprint.config.patchContiguous
    let permutation ← SlotOrder.assign force patches (blueprint.placement kind).reorder
    let partition ←
      if force then Partition.contiguous kind patches permutation
      else pure (Partition.scattered kind patches)
    return some (permutation, partition)
  | _, _, _ => .ok none

def fieldSet (blueprint : Blueprint) (arranged : PerKind (Option (Permutation × Partition)))
    (kind : Kind) : Outcome (Option FieldSet) :=
  match arranged.get kind with
  | some (permutation, _) => do
    return some (← FieldSet.zeroed kind permutation (blueprint.placement kind).fields)
  | none => .ok none

def table (blueprint : Blueprint) (metadata : Metadata)
    (arranged : PerKind (Option (Permutation × Partition))) (relation : Relation) :
    Outcome (Option Incidence) :=
  if blueprint.links.get relation then
    match arranged.get relation.source, arranged.get relation.target with
    | some (source, _), some (target, _) => do
      match ← metadata.adjacency? relation with
      | some adjacency =>
        return some (← Incidence.build relation adjacency source target blueprint.config.mode)
      | none => Outcome.refuse (.config (.missingAdjacency relation))
    | _, _ => Outcome.refuse (.config (.uncountedLink relation))
  else .ok none

def assemble (blueprint : Blueprint) (metadata : Metadata) : Outcome Mesh := do
  match blueprint.uncounted? metadata with
  | some kind => Outcome.refuse (.config (.uncountedFields kind))
  | none =>
    let arranged ← PerKind.build (blueprint.arrange metadata)
    let sets ← PerKind.build (blueprint.fieldSet arranged)
    let tables ← PerRelation.build (blueprint.table metadata arranged)
    return {
      metadata, topology := blueprint.topology, config := blueprint.config, sets, tables
      patchIndex := ⟨arranged.map (·.map Prod.snd)⟩ }

def build (blueprint : Blueprint) (metadata : Metadata) : Blueprint × Outcome Mesh :=
  match blueprint.assemble metadata with
  | .ok mesh => ({ blueprint with frozen := true }, .ok mesh)
  | .error failure => (blueprint, .error failure)

end Blueprint

end MeshLayout
