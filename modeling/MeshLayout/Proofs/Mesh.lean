import MeshLayout.Blueprint
import MeshLayout.Proofs.Workspace
import MeshLayout.Proofs.Incidence
import MeshLayout.Proofs.Metadata
import MeshLayout.Proofs.Partition

/-!
# Meshes that a blueprint lays out

However a mesh is laid out, its permutations are lawful and cover the counted kinds, its tables
hold the rows of the description, and ranges of patches give every slot once, in order. The
values of fields play no part in this, so it stays true while they change.
-/

set_option autoImplicit false

namespace MeshLayout

theorem PatchIndex.partition_eq_ok {index : PatchIndex} {kind : Kind} {partition : Partition} :
    index.partition kind = .ok partition ↔ index.partitions.get kind = some partition := by
  unfold PatchIndex.partition
  cases index.partitions.get kind with
  | none => simp
  | some there => simp

namespace FieldSet

def Fits (size : Nat) (field : Field) : Prop :=
  field.size = size ∧ Column.Fits field.type.scalar (field.size * field.type.components)

theorem zeroed_fits {kind : Kind} {permutation : Permutation} {declarations : List Declaration}
    {set : FieldSet} (h : zeroed kind permutation declarations = .ok set) :
    set.permutation = permutation ∧ ∀ field ∈ set.fields, Fits permutation.size field := by
  obtain ⟨-, hroom, hset⟩ := zeroed_eq_ok.mp h
  constructor
  · rw [hset]
  · intro field hfield
    obtain ⟨declaration, hmem, rfl⟩ := List.mem_map.mp ((zeroed_fields h).mem_iff.mp hfield)
    exact ⟨rfl, hroom declaration hmem⟩

theorem withColumn_fits {set : FieldSet} {size : Nat} (h : ∀ field ∈ set.fields, Fits size field)
    (name : String) (column : Column) :
    ∀ field ∈ (set.withColumn name column).fields, Fits size field := by
  intro field hfield
  obtain ⟨old, hold, rfl⟩ := List.mem_map.mp hfield
  have hfits := h old hold
  split
  · unfold Fits
    rwa [Field.withColumn_size, Field.withColumn_type]
  · exact hfits

end FieldSet

namespace Mesh

variable {mesh : Mesh} {kind : Kind}

theorem elements_eq_ok {set : FieldSet} :
    mesh.elements kind = .ok set ↔ mesh.sets.get kind = some set := by
  unfold elements
  cases mesh.sets.get kind with
  | none => simp
  | some there => simp

theorem permutation_eq_ok {permutation : Permutation} :
    mesh.permutation kind = .ok permutation ↔
      (mesh.sets.get kind).map FieldSet.permutation = some permutation := by
  unfold Mesh.permutation elements
  cases mesh.sets.get kind with
  | none => simp
  | some there => simp [pure_eq_ok]

theorem iterate_eq {permutation : Permutation} (h : mesh.permutation kind = .ok permutation) :
    mesh.iterate kind = .ok ((List.range (permutation.size % UInt32.size)).map
      fun slot => ⟨kind, slot.toUInt32, permutation⟩) := by
  rw [iterate, h, ok_bind, Permutation.numbers, List.map_map]
  rfl

theorem incidence_eq_ok {relation : Relation} {incidence : Incidence} :
    mesh.incidence relation = .ok incidence ↔ mesh.tables.get relation = some incidence := by
  unfold Mesh.incidence
  cases mesh.tables.get relation with
  | none => simp
  | some there => simp

theorem mem_kinds : kind ∈ mesh.kinds ↔ (mesh.sets.get kind).isSome = true := by
  rw [kinds, List.mem_filter]
  exact ⟨fun h => h.2, fun h => ⟨kind.mem_all, h⟩⟩

theorem exists_permutation (h : kind ∈ mesh.kinds) :
    ∃ permutation, mesh.permutation kind = .ok permutation := by
  obtain ⟨set, hset⟩ := Option.isSome_iff_exists.mp (mem_kinds.mp h)
  exact ⟨set.permutation, permutation_eq_ok.mpr (by rw [hset, Option.map_some])⟩

theorem mem_relations {relation : Relation} :
    relation ∈ mesh.relations ↔ (mesh.tables.get relation).isSome = true := by
  rw [relations, List.mem_filter]
  exact ⟨fun h => h.2, fun h => ⟨relation.mem_all, h⟩⟩

structure Laid (mesh : Mesh) : Prop where
  valid : mesh.metadata.Valid
  countable : mesh.metadata.Countable
  permutations : ∀ {kind permutation}, mesh.permutation kind = .ok permutation →
    permutation.Lawful ∧ mesh.metadata.count? kind = some permutation.size
  partitions : ∀ {kind permutation partition}, mesh.permutation kind = .ok permutation →
    mesh.patchIndex.partition kind = .ok partition →
      mesh.metadata.patches? kind = some partition.patches ∧
        ∀ ranges, partition.ranges = some ranges →
          ranges.flatMap PatchRange.slots = List.range permutation.size
  incidences : ∀ {relation incidence}, mesh.incidence relation = .ok incidence →
    incidence.relation = relation ∧ mesh.permutation relation.source = .ok incidence.source ∧
      mesh.permutation relation.target = .ok incidence.target ∧
      ∃ rows, mesh.metadata.adjacency? relation =
        .ok (some (Adjacency.pack rows incidence.target.size)) ∧ incidence.Holds rows
  fields : ∀ {kind set}, mesh.sets.get kind = some set →
    ∀ field ∈ set.fields, FieldSet.Fits set.permutation.size field

def store (mesh : Mesh) (kind : Kind) (name : String) (column : Column) : Mesh :=
  { mesh with sets := mesh.sets.set kind ((mesh.sets.get kind).map (·.withColumn name column)) }

theorem store_permutation (mesh : Mesh) (kind : Kind) (name : String) (column : Column) :
    (mesh.store kind name column).permutation = mesh.permutation := by
  funext other
  unfold Mesh.permutation elements store
  by_cases heq : other = kind
  · subst heq
    rw [PerKind.get_set_self]
    cases mesh.sets.get other <;> rfl
  · rw [PerKind.get_set_of_ne _ heq]

theorem Laid.store (h : mesh.Laid) (kind : Kind) (name : String) (column : Column) :
    (mesh.store kind name column).Laid where
  valid := h.valid
  countable := h.countable
  permutations := by
    rw [store_permutation]
    exact h.permutations
  partitions := by
    rw [store_permutation]
    exact h.partitions
  incidences := by
    rw [store_permutation]
    exact h.incidences
  fields := by
    intro other set hset
    rw [Mesh.store, PerKind.get_set] at hset
    split at hset
    · obtain ⟨old, hold, rfl⟩ := Option.map_eq_some_iff.mp hset
      exact FieldSet.withColumn_fits (h.fields hold) name column
    · exact h.fields hset

def Ranged (mesh : Mesh) : Prop :=
  ∀ {kind permutation partition}, mesh.permutation kind = .ok permutation →
    mesh.patchIndex.partition kind = .ok partition → partition.Ranged permutation

theorem Ranged.store (h : mesh.Ranged) (kind : Kind) (name : String) (column : Column) :
    (mesh.store kind name column).Ranged := by
  unfold Ranged
  rw [store_permutation]
  exact h

end Mesh

namespace Blueprint

variable {blueprint : Blueprint} {metadata : Metadata}

/-- A kind that the topology has and the description counts gets a permutation of its elements and
its patches, with ranges that give every slot once, in order, if there are any. -/
theorem arrange_of_counted (hvalid : metadata.Valid) (hcount : metadata.Countable) {kind : Kind}
    (hkind : blueprint.topology.has kind = true)
    (hcounted : (metadata.count? kind).isSome = true) : ∃ permutation partition,
      blueprint.arrange metadata kind = .ok (some (permutation, partition)) ∧
      permutation.Lawful ∧ metadata.count? kind = some permutation.size ∧
      metadata.patches? kind = some partition.patches ∧
        ∀ ranges, partition.ranges = some ranges →
          ranges.flatMap PatchRange.slots = List.range permutation.size := by
  obtain ⟨count, hcounted⟩ := Option.isSome_iff_exists.mp hcounted
  obtain ⟨patches, hpatches, hsize⟩ := hvalid.patches hcounted
  have hlt : patches.size < UInt32.size := hsize ▸ hcount kind count hcounted
  have hfull : ∀ order : SlotOrder, (order.permutation patches).size = patches.size := by
    intro order
    rw [Permutation.chosen_size, Nat.mod_eq_of_lt hlt]
  simp only [arrange, hkind, hcounted, hpatches, Permutation.assign_eq, ok_bind]
  by_cases hforce : blueprint.config.patchContiguous = true
  · have horder (reorder : Bool) : SlotOrder.choose true reorder = .byPatch := by
      rw [SlotOrder.choose, Bool.or_true, if_pos rfl]
    obtain ⟨ranges, hranges, hslots⟩ := Partition.contiguous_grouped kind hlt
    simp only [hforce, horder, SlotOrder.permutation, hranges, if_true, ok_bind, pure_eq_ok]
    refine ⟨_, _, rfl, Permutation.lawful_grouped patches, ?_, rfl, fun others hothers => ?_⟩
    · rw [show (Permutation.grouped patches).size = patches.size from hfull .byPatch, hsize]
    · rw [← Option.some.inj hothers, hslots,
        show (Permutation.grouped patches).size = patches.size from hfull .byPatch]
  · rw [if_neg hforce]
    refine ⟨_, _, rfl, Permutation.lawful_chosen _ patches, ?_, rfl, fun _ h => nomatch h⟩
    rw [hfull, hsize]

theorem arrange_of_not_counted {kind : Kind} (h : ¬(blueprint.topology.has kind = true ∧
    (metadata.count? kind).isSome = true)) : blueprint.arrange metadata kind = .ok none := by
  unfold arrange
  split
  · next count patches hkind hcounted hpatches => exact absurd ⟨hkind, by rw [hcounted]; rfl⟩ h
  · rfl

theorem arrange_eq_ok (hvalid : metadata.Valid) (hcount : metadata.Countable) {kind : Kind}
    {permutation : Permutation} {partition : Partition}
    (h : blueprint.arrange metadata kind = .ok (some (permutation, partition))) :
    permutation.Lawful ∧ metadata.count? kind = some permutation.size ∧
      metadata.patches? kind = some partition.patches ∧
        ∀ ranges, partition.ranges = some ranges →
          ranges.flatMap PatchRange.slots = List.range permutation.size := by
  by_cases hcounted : blueprint.topology.has kind = true ∧ (metadata.count? kind).isSome = true
  · obtain ⟨_, _, harranged, hfacts⟩ := arrange_of_counted hvalid hcount hcounted.1 hcounted.2
    rw [harranged] at h
    cases h
    exact hfacts
  · rw [arrange_of_not_counted hcounted] at h
    cases h

theorem assemble_eq_ok {mesh : Mesh} : blueprint.assemble metadata = .ok mesh ↔
    blueprint.uncounted? metadata = none ∧ ∃ arranged sets tables,
      (∀ kind, blueprint.arrange metadata kind = .ok (arranged.get kind)) ∧
      (∀ kind, blueprint.fieldSet arranged kind = .ok (sets.get kind)) ∧
      (∀ relation, blueprint.table metadata arranged relation = .ok (tables.get relation)) ∧
      mesh = {
        metadata, topology := blueprint.topology, config := blueprint.config, sets, tables
        patchIndex := ⟨arranged.map (·.map Prod.snd)⟩ } := by
  unfold assemble
  cases blueprint.uncounted? metadata with
  | some kind => simp [Outcome.refuse]
  | none =>
    simp only [bind_eq_ok, PerKind.build_eq_ok, PerRelation.build_eq_ok, pure_eq_ok,
      Except.ok.injEq, true_and]
    constructor
    · rintro ⟨arranged, harranged, sets, hsets, tables, htables, hmesh⟩
      exact ⟨arranged, sets, tables, harranged, hsets, htables, hmesh.symm⟩
    · rintro ⟨arranged, sets, tables, harranged, hsets, htables, hmesh⟩
      exact ⟨arranged, harranged, sets, hsets, tables, htables, hmesh.symm⟩

theorem assemble_arrange {mesh : Mesh} (h : blueprint.assemble metadata = .ok mesh) {kind : Kind}
    {permutation : Permutation} (hkind : mesh.permutation kind = .ok permutation) :
    ∃ partition, mesh.patchIndex.partition kind = .ok partition ∧
      blueprint.arrange metadata kind = .ok (some (permutation, partition)) := by
  obtain ⟨-, arranged, sets, tables, harranged, hsets, -, rfl⟩ := assemble_eq_ok.mp h
  obtain ⟨set, hset, rfl⟩ := Option.map_eq_some_iff.mp (Mesh.permutation_eq_ok.mp hkind)
  have hmade := hsets kind
  rw [show sets.get kind = some set from hset, fieldSet] at hmade
  split at hmade
  · next permutation partition hthere =>
    obtain ⟨made, hmade, heq⟩ := bind_eq_ok.mp hmade
    cases heq
    obtain ⟨rfl, -⟩ := FieldSet.zeroed_fits hmade
    refine ⟨partition, ?_, hthere ▸ harranged kind⟩
    rw [PatchIndex.partition_eq_ok, PerKind.get_map, hthere]
    rfl
  · cases hmade

theorem assemble_laid (hvalid : metadata.Valid) (hcount : metadata.Countable) {mesh : Mesh}
    (h : blueprint.assemble metadata = .ok mesh) : mesh.Laid := by
  have harrange {kind : Kind} {permutation : Permutation}
      (hkind : mesh.permutation kind = .ok permutation) := assemble_arrange h hkind
  obtain ⟨-, arranged, sets, tables, harranged, hsets, htables, rfl⟩ := assemble_eq_ok.mp h
  have hset : ∀ {kind set}, sets.get kind = some set → ∃ partition,
      arranged.get kind = some (set.permutation, partition) ∧
        ∀ field ∈ set.fields, FieldSet.Fits set.permutation.size field := by
    intro kind set hset
    have hmade := hsets kind
    rw [hset, fieldSet] at hmade
    split at hmade
    · next permutation partition hkind =>
      obtain ⟨made, hmade, heq⟩ := bind_eq_ok.mp hmade
      cases heq
      obtain ⟨rfl, hfits⟩ := FieldSet.zeroed_fits hmade
      exact ⟨partition, hkind, hfits⟩
    · cases hmade
  have hpermutation : ∀ {kind permutation partition},
      arranged.get kind = some (permutation, partition) →
        (sets.get kind).map FieldSet.permutation = some permutation := by
    intro kind permutation partition hkind
    have hmade := hsets kind
    rw [fieldSet, hkind] at hmade
    obtain ⟨set, hset, heq⟩ := bind_eq_ok.mp hmade
    rw [← Except.ok.inj heq, Option.map_some, (FieldSet.zeroed_fits hset).1]
  constructor
  · exact hvalid
  · exact hcount
  · intro kind permutation hkind
    obtain ⟨partition, -, hmade⟩ := harrange hkind
    have hfacts := arrange_eq_ok hvalid hcount hmade
    exact ⟨hfacts.1, hfacts.2.1⟩
  · intro kind permutation partition hkind hpartition
    obtain ⟨made, hthere, hmade⟩ := harrange hkind
    obtain rfl := Except.ok.inj (hthere.symm.trans hpartition)
    exact (arrange_eq_ok hvalid hcount hmade).2.2
  · intro relation incidence htable
    have hmade := htables relation
    rw [Mesh.incidence_eq_ok.mp htable, table] at hmade
    split at hmade
    · split at hmade
      · next source sourceParts target targetParts hsource htarget =>
        obtain ⟨adjacency, hadjacency, hmade⟩ := bind_eq_ok.mp hmade
        cases adjacency with
        | none => cases hmade
        | some adjacency =>
          obtain ⟨built, hbuilt, heq⟩ := bind_eq_ok.mp hmade
          cases heq
          obtain ⟨rows, targetCount, hpack, rfl, hrows, htargets⟩ :=
            Metadata.adjacency?_rows hvalid hcount hadjacency
          have hs := arrange_eq_ok hvalid hcount (hsource ▸ harranged relation.source)
          have ht := arrange_eq_ok hvalid hcount (htarget ▸ harranged relation.target)
          have hlength : rows.length = source.size := Option.some.inj (hrows.symm.trans hs.2.1)
          have htargets : targetCount = target.size := Option.some.inj (htargets.symm.trans ht.2.1)
          obtain ⟨made, hmade, hholds, rfl, rfl, rfl⟩ := Incidence.build_holds relation
            blueprint.config.mode hpack hs.1 ht.1 hlength htargets
          obtain rfl := Except.ok.inj (hbuilt.symm.trans hmade)
          subst htargets
          exact ⟨rfl, Mesh.permutation_eq_ok.mpr (hpermutation hsource),
            Mesh.permutation_eq_ok.mpr (hpermutation htarget), rows, hadjacency, hholds⟩
      · cases hmade
    · cases hmade
  · intro kind set hkind
    obtain ⟨partition, -, hfits⟩ := hset hkind
    exact hfits

theorem build_eq : blueprint.build metadata =
    ({ blueprint with frozen := blueprint.frozen || (blueprint.assemble metadata).isOk },
      blueprint.assemble metadata) := by
  unfold build
  cases blueprint.assemble metadata with
  | ok mesh => simp [Except.isOk, Except.toBool]
  | error failure => simp [Except.isOk, Except.toBool]

theorem arrange_ranged {kind : Kind} {permutation : Permutation} {partition : Partition}
    (h : blueprint.arrange metadata kind = .ok (some (permutation, partition))) :
    partition.Ranged permutation := by
  unfold arrange at h
  split at h
  · next count patches _ _ _ =>
    obtain ⟨assigned, -, h⟩ := bind_eq_ok.mp h
    dsimp only at h
    split at h
    · obtain ⟨contiguous, hcontiguous, h⟩ := bind_eq_ok.mp h
      cases h
      exact Partition.contiguous_ranged hcontiguous
    · cases h
      exact fun _ hnone => nomatch hnone
  · cases h

theorem build_ranged {mesh : Mesh} (h : (blueprint.build metadata).2 = .ok mesh) : mesh.Ranged := by
  rw [build_eq] at h
  intro kind permutation partition hkind hpartition
  obtain ⟨made, hthere, hmade⟩ := assemble_arrange h hkind
  obtain rfl := Except.ok.inj (hthere.symm.trans hpartition)
  exact arrange_ranged hmade

theorem build_laid (hvalid : metadata.Valid) (hcount : metadata.Countable) {mesh : Mesh}
    (h : (blueprint.build metadata).2 = .ok mesh) : mesh.Laid := by
  rw [build_eq] at h
  exact assemble_laid hvalid hcount h

end Blueprint

namespace Workspace

variable {workspace : Workspace}

/-- The workspaces that can come about: meshes are built from accepted descriptions, loose fields
are allocated, and any field may be given other values. -/
inductive Made : Workspace → Prop
  | empty : Made {}
  | mesh {workspace : Workspace} {draft : Draft} {metadata : Metadata} {blueprint : Blueprint}
      {mesh : Mesh} (made : Made workspace) (accepted : draft.validate = .ok metadata)
      (countable : metadata.Countable) (built : (blueprint.build metadata).2 = .ok mesh) :
      Made (workspace.addMesh mesh)
  | loose {workspace : Workspace} {kind : Kind} {declaration : Declaration} {size : Nat}
      {loose : LooseField} (made : Made workspace)
      (allocated : LooseField.allocate kind declaration size = .ok loose) :
      Made (workspace.addLoose loose)
  | store {workspace : Workspace} (made : Made workspace) (location : Location) (column : Column) :
      Made (workspace.withColumn location column)

structure Laid (workspace : Workspace) : Prop where
  meshes : ∀ mesh ∈ workspace.meshes, mesh.Laid
  loose : ∀ loose ∈ workspace.loose,
    Column.Fits loose.field.type.scalar (loose.field.size * loose.field.type.components)

theorem meshes_withColumn {P : Mesh → Prop}
    (hstore : ∀ {mesh : Mesh}, P mesh → ∀ kind name column, P (mesh.store kind name column))
    (h : ∀ mesh ∈ workspace.meshes, P mesh) (location : Location) (column : Column) :
    ∀ mesh ∈ (workspace.withColumn location column).meshes, P mesh := by
  cases location with
  | ofMesh place kind name =>
    intro mesh hmesh
    obtain ⟨i, hi⟩ := Array.mem_iff_getElem?.mp hmesh
    simp only [withColumn, Array.getElem?_modify] at hi
    split at hi
    · obtain ⟨old, hold, rfl⟩ := Option.map_eq_some_iff.mp hi
      exact hstore (h old (Array.mem_of_getElem? hold)) kind name column
    · exact h mesh (Array.mem_of_getElem? hi)
  | ofLoose position => exact h

theorem Laid.store (h : workspace.Laid) (location : Location) (column : Column) :
    (workspace.withColumn location column).Laid := by
  constructor
  · exact meshes_withColumn Mesh.Laid.store h.meshes location column
  · cases location with
    | ofMesh place kind name => exact h.loose
    | ofLoose position =>
      intro loose hloose
      obtain ⟨i, hi⟩ := Array.mem_iff_getElem?.mp hloose
      simp only [withColumn, Array.getElem?_modify] at hi
      split at hi
      · obtain ⟨old, hold, rfl⟩ := Option.map_eq_some_iff.mp hi
        rw [Field.withColumn_size, Field.withColumn_type]
        exact h.loose old (Array.mem_of_getElem? hold)
      · exact h.loose loose (Array.mem_of_getElem? hi)

theorem Made.laid (h : workspace.Made) : workspace.Laid := by
  induction h with
  | empty =>
    constructor
    · intro mesh hmesh
      simp at hmesh
    · intro loose hloose
      simp at hloose
  | mesh made accepted countable built ih =>
    constructor
    · intro mesh hmesh
      rcases Array.mem_push.mp hmesh with hold | rfl
      · exact ih.meshes mesh hold
      · exact Blueprint.build_laid (Draft.validate_valid accepted) countable built
    · exact ih.loose
  | loose made allocated ih =>
    constructor
    · exact ih.meshes
    · intro loose hloose
      rcases Array.mem_push.mp hloose with hold | rfl
      · exact ih.loose loose hold
      · obtain ⟨field, hfield, heq⟩ := bind_eq_ok.mp allocated
        cases heq
        unfold Field.allocate at hfield
        split at hfield
        · next hfits =>
          cases hfield
          exact hfits
        · cases hfield
  | store made location column ih => exact ih.store location column

theorem Laid.inMemory (h : workspace.Laid) : workspace.InMemory := by
  have hroom : ∀ field : Field, Column.Fits field.type.scalar (field.size * field.type.components) →
      field.cells.size < indexLimit := by
    intro field hfits
    rw [field.cells_size]
    exact hfits.lt
  apply inMemory_of
  · intro mesh hmesh kind set hset field hfield
    exact hroom field ((h.meshes mesh hmesh).fields hset field hfield).2
  · intro loose hloose
    exact hroom loose.field (h.loose loose hloose)

def permutation? (workspace : Workspace) : Location → Option Permutation
  | .ofMesh place kind _ => do
    return (← (← workspace.meshes[place]?).sets.get kind).permutation
  | .ofLoose _ => none

theorem permutation?_withColumn (workspace : Workspace) (location : Location) (column : Column) :
    (workspace.withColumn location column).permutation? = workspace.permutation? := by
  funext other
  cases location with
  | ofLoose position => cases other <;> rfl
  | ofMesh place kind name =>
    cases other with
    | ofLoose position => rfl
    | ofMesh place' kind' name' =>
      simp only [withColumn, permutation?, Array.getElem?_modify, Option.bind_eq_bind]
      split
      · cases workspace.meshes[place']? with
        | none => rfl
        | some there =>
          simp only [Option.map_some, Option.bind_some, PerKind.get_set]
          by_cases hkind : kind' = kind
          · subst hkind
            cases there.sets.get kind' with
            | none => simp
            | some set => simp [FieldSet.withColumn]
          · simp [hkind]
      · rfl

theorem Laid.permutation (h : workspace.Laid) {location : Location} {permutation : Permutation}
    (hlocation : workspace.permutation? location = some permutation) :
    permutation.Lawful ∧ ∀ field, workspace.field? location = some field →
      field.size = permutation.size := by
  cases location with
  | ofLoose position => cases hlocation
  | ofMesh place kind name =>
    simp only [permutation?, Option.bind_eq_bind, Option.bind_eq_some_iff] at hlocation
    obtain ⟨mesh, hmesh, set, hset, heq⟩ := hlocation
    cases heq
    have hlaid := h.meshes mesh (Array.mem_of_getElem? hmesh)
    constructor
    · have hkind : mesh.permutation kind = .ok set.permutation := by
        rw [Mesh.permutation_eq_ok, hset, Option.map_some]
      exact (hlaid.permutations hkind).1
    · intro field hfield
      simp only [field?, hmesh, hset, Option.bind_eq_bind, Option.bind_some] at hfield
      exact (hlaid.fields hset field (List.mem_of_find?_eq_some hfield)).1

end Workspace

section Path

/-- Three vertices on a path of two edges, in two patches. -/
def pathDraft : Draft :=
  (((Draft.empty.setCount .vertex 3).setCount .edge 2).setPatches .vertex #[1, 0, 1]).addLists
    ⟨.edge, .vertex⟩ [[0, 1], [1, 2]]

def pathMetadata : Metadata where
  counts := ⟨some 3, some 2, none, none⟩
  relations := (PerRelation.const none).set ⟨.edge, .vertex⟩ (some ⟨#[0, 2, 4], #[0, 1, 1, 2], 3⟩)
  patches := ⟨some #[1, 0, 1], some #[0, 0], none, none⟩

def pathBlueprint : Blueprint where
  topology := .tri
  config := { patchContiguous := true }
  placements := ⟨some { fields := [⟨"load", ⟨.u32, 1⟩⟩] }, none, none, none⟩
  links := (PerRelation.const false).set ⟨.edge, .vertex⟩ true

def pathVertices : Permutation := ⟨#[1, 0, 2], #[1, 0, 2], false⟩

def pathMesh : Mesh where
  metadata := pathMetadata
  topology := .tri
  config := { patchContiguous := true }
  sets := ⟨some ⟨.vertex, pathVertices, [.zeroed ⟨"load", ⟨.u32, 1⟩⟩ 3]⟩,
    some ⟨.edge, .inPlace 2, []⟩, none, none⟩
  tables := (PerRelation.const none).set ⟨.edge, .vertex⟩
    (some ⟨⟨.edge, .vertex⟩, ⟨#[0, 2, 4], #[1, 0, 0, 2], 3⟩, .inPlace 2, pathVertices, {}⟩)
  patchIndex := (PatchIndex.empty.insert ⟨.vertex, #[1, 0, 1], some [⟨0, 0, 1⟩, ⟨1, 1, 3⟩]⟩).insert
    ⟨.edge, #[0, 0], some [⟨0, 0, 2⟩]⟩

def pathWorkspace : Workspace := { meshes := #[pathMesh] }

theorem pathVertices_grouped : Permutation.grouped #[1, 0, 1] = pathVertices := by
  have horder : Permutation.groupedOrder #[1, 0, 1] = [1, 0, 2] := by
    simp [Permutation.groupedOrder, Permutation.numbers, List.mergeSort,
      List.MergeSort.Internal.splitInTwo, List.range, List.range.loop]
  rw [Permutation.grouped, horder]
  rfl

theorem pathEdges_grouped : Permutation.grouped #[0, 0] = .inPlace 2 := by
  have horder : Permutation.groupedOrder #[0, 0] = [0, 1] := by
    simp [Permutation.groupedOrder, Permutation.numbers, List.mergeSort,
      List.MergeSort.Internal.splitInTwo, List.range, List.range.loop]
  rw [Permutation.grouped, horder]
  rfl

theorem pathVertices_contiguous : Partition.contiguous .vertex #[1, 0, 1] pathVertices =
    .ok ⟨.vertex, #[1, 0, 1], some [⟨0, 0, 1⟩, ⟨1, 1, 3⟩]⟩ := by
  have hscan : Partition.scan .vertex #[1, 0, 1] pathVertices.identities.toList 0 [] =
      .ok [⟨1, 1, 3⟩, ⟨0, 0, 1⟩] := rfl
  have hsort : [(⟨1, 1, 3⟩ : PatchRange), ⟨0, 0, 1⟩].mergeSort (fun a b => a.patch ≤ b.patch) =
      [⟨0, 0, 1⟩, ⟨1, 1, 3⟩] := by
    simp [List.mergeSort, List.MergeSort.Internal.splitInTwo]
  rw [Partition.contiguous, hscan, ok_bind, hsort]
  rfl

theorem pathEdges_contiguous : Partition.contiguous .edge #[0, 0] (.inPlace 2) =
    .ok ⟨.edge, #[0, 0], some [⟨0, 0, 2⟩]⟩ := by
  have hscan : Partition.scan .edge #[0, 0] (Permutation.inPlace 2).identities.toList 0 [] =
      .ok [⟨0, 0, 2⟩] := rfl
  rw [Partition.contiguous, hscan, ok_bind, List.mergeSort_singleton]
  rfl

theorem path_arrange (kind : Kind) : pathBlueprint.arrange pathMetadata kind = .ok
    (PerKind.get ⟨some (pathVertices, ⟨.vertex, #[1, 0, 1], some [⟨0, 0, 1⟩, ⟨1, 1, 3⟩]⟩),
      some (.inPlace 2, ⟨.edge, #[0, 0], some [⟨0, 0, 2⟩]⟩), none, none⟩ kind) := by
  have hvertex : SlotOrder.assign true #[1, 0, 1] false = .ok pathVertices := by
    rw [SlotOrder.assign, show (SlotOrder.choose true false).permutation #[1, 0, 1] = pathVertices
      from pathVertices_grouped]
    rfl
  have hedge : SlotOrder.assign true #[0, 0] false = .ok (.inPlace 2) := by
    rw [SlotOrder.assign, show (SlotOrder.choose true false).permutation #[0, 0] = .inPlace 2
      from pathEdges_grouped]
    rfl
  cases kind with
  | vertex =>
    unfold Blueprint.arrange
    change (SlotOrder.assign true #[1, 0, 1] false >>= _) = _
    rw [hvertex]
    change (Partition.contiguous .vertex #[1, 0, 1] pathVertices >>= _) = _
    rw [pathVertices_contiguous]
    rfl
  | edge =>
    unfold Blueprint.arrange
    change (SlotOrder.assign true #[0, 0] false >>= _) = _
    rw [hedge]
    change (Partition.contiguous .edge #[0, 0] (.inPlace 2) >>= _) = _
    rw [pathEdges_contiguous]
    rfl
  | face => rfl
  | cell => rfl

theorem pathDraft_accepted : pathDraft.validate = .ok pathMetadata := rfl

theorem pathMetadata_countable : pathMetadata.Countable := by
  intro kind count h
  cases kind <;> cases h <;> decide

theorem pathBlueprint_build :
    pathBlueprint.build pathMetadata = ({ pathBlueprint with frozen := true }, .ok pathMesh) := by
  have hassemble : pathBlueprint.assemble pathMetadata = .ok pathMesh := by
    unfold Blueprint.assemble
    rw [show pathBlueprint.uncounted? pathMetadata = none from rfl]
    simp only [PerKind.build_eq_ok.mpr path_arrange, ok_bind]
    rfl
  rw [Blueprint.build, hassemble]

theorem pathWorkspace_made : pathWorkspace.Made :=
  .mesh .empty pathDraft_accepted pathMetadata_countable (congrArg Prod.snd pathBlueprint_build)

end Path

end MeshLayout
