import MeshLayout.Proofs.Blueprint
import MeshLayout.Proofs.Draft

/-!
# The elements of a mesh

Words name the elements of a mesh, while a description may count more elements than there are
words. Whatever is described, the elements that a mesh has are consistently numbered
(`Enumerates`); it has all that are described if a word can count them.
-/

set_option autoImplicit false

namespace MeshLayout

namespace Mesh

variable {mesh : Mesh} {kind : Kind}

/-- The mesh has `count` elements of a kind, and a loop meets each of them once. -/
structure Enumerates (mesh : Mesh) (kind : Kind) (count : Nat) : Prop where
  size : mesh.size kind = .ok count
  permutation : ∃ permutation, mesh.permutation kind = .ok permutation ∧ permutation.Lawful ∧
    permutation.size = count
  slots : ∀ identity : Identity, identity.toNat < count → ∃ permutation slot,
    mesh.permutation kind = .ok permutation ∧ permutation.slotOf? identity = some slot
  elements : ∃ elements, mesh.iterate kind = .ok elements ∧ elements.length = count ∧
    (elements.map fun element => element.identity?.map UInt32.toNat).Perm
      ((List.range count).map some)

theorem Enumerates.unique {count other : Nat} (h : mesh.Enumerates kind count)
    (hother : mesh.Enumerates kind other) : count = other :=
  Except.ok.inj (h.size.symm.trans hother.size)

theorem enumerates_of_lawful {set : FieldSet} (hset : mesh.sets.get kind = some set)
    (hp : set.permutation.Lawful) (hsize : set.permutation.size < UInt32.size) :
    mesh.Enumerates kind set.permutation.size := by
  have hpermutation : mesh.permutation kind = .ok set.permutation := by
    rw [permutation_eq_ok, hset, Option.map_some]
  have hiterate : mesh.iterate kind = .ok ((List.range set.permutation.size).map
      fun slot => ⟨kind, slot.toUInt32, set.permutation⟩) := by
    rw [iterate_eq hpermutation, Nat.mod_eq_of_lt hsize]
  have hmet : ∀ slot ∈ List.range set.permutation.size,
      (set.permutation.identityOf? slot.toUInt32).map UInt32.toNat =
        some (set.permutation.identityOf slot.toUInt32).toNat := by
    intro slot hslot
    have hlt := List.mem_range.mp hslot
    rw [hp.identityOf?_eq (by rwa [toNat_toUInt32 (by omega)]), Option.map_some]
  constructor
  · rw [Mesh.size, elements_eq_ok.mpr hset]
    rfl
  · exact ⟨_, hpermutation, hp, rfl⟩
  · exact fun identity hlt => ⟨_, _, hpermutation, Permutation.slotOf?_eq hlt⟩
  · refine ⟨_, hiterate, by rw [List.length_map, List.length_range], ?_⟩
    rw [List.map_map]
    refine List.Perm.trans (.of_eq (List.map_congr_left hmet)) ?_
    simpa [Function.comp_def] using hp.identities_perm.map some

end Mesh

namespace Blueprint

variable {blueprint : Blueprint} {metadata : Metadata}

theorem arrange_cases {kind : Kind} {arranged : Option (Permutation × Partition)}
    (h : blueprint.arrange metadata kind = .ok arranged) :
    (∃ permutation partition patches, arranged = some (permutation, partition) ∧
      blueprint.topology.has kind = true ∧ (metadata.count? kind).isSome = true ∧
      metadata.patches? kind = some patches ∧ permutation.Lawful ∧
      permutation.size = patches.size % UInt32.size) ∨
    arranged = none ∧ ¬(blueprint.topology.has kind = true ∧
      (metadata.count? kind).isSome = true ∧ (metadata.patches? kind).isSome = true) := by
  unfold arrange at h
  split at h
  · next count patches hkind hcount hpatches =>
    obtain ⟨permutation, hpermutation, h⟩ := bind_eq_ok.mp h
    have hmade : ∃ partition, arranged = some (permutation, partition) := by
      dsimp only at h
      split at h
      · obtain ⟨partition, -, h⟩ := bind_eq_ok.mp h
        exact ⟨partition, (Except.ok.inj h).symm⟩
      · exact ⟨_, (Except.ok.inj h).symm⟩
    obtain ⟨partition, rfl⟩ := hmade
    rw [Permutation.assign_eq] at hpermutation
    obtain rfl := Except.ok.inj hpermutation
    exact .inl ⟨_, partition, patches, rfl, hkind, by rw [hcount]; rfl, hpatches,
      Permutation.lawful_chosen _ _, Permutation.chosen_size _ _⟩
  · next hnone =>
    cases h
    refine .inr ⟨rfl, fun ⟨hkind, hcount, hpatches⟩ => ?_⟩
    obtain ⟨count, hcount⟩ := Option.isSome_iff_exists.mp hcount
    obtain ⟨patches, hpatches⟩ := Option.isSome_iff_exists.mp hpatches
    exact hnone count patches hkind hcount hpatches

section Build

variable {draft : Draft} {mesh : Mesh}

theorem build_cases (hdraft : draft.validate = .ok metadata)
    (hbuild : (blueprint.build metadata).2 = .ok mesh) (kind : Kind) :
    (∃ set count, mesh.sets.get kind = some set ∧ blueprint.topology.has kind = true ∧
      metadata.count? kind = some count ∧ set.permutation.Lawful ∧
      set.permutation.size = count % UInt32.size) ∨
    mesh.sets.get kind = none ∧
      ¬(blueprint.topology.has kind = true ∧ (metadata.count? kind).isSome = true) := by
  have hpatches : ∀ {count}, metadata.count? kind = some count →
      ∃ patches, metadata.patches? kind = some patches ∧ patches.size = count :=
    (Draft.validate_valid hdraft).patches
  rw [build_eq] at hbuild
  obtain ⟨-, arranged, sets, tables, harranged, hsets, -, rfl⟩ := assemble_eq_ok.mp hbuild
  have hset := hsets kind
  rcases arrange_cases (harranged kind) with
    ⟨permutation, partition, patches, hmade, hkind, hcounted, hgiven, hlawful, hsize⟩ |
    ⟨hmade, hnone⟩
  · obtain ⟨count, hcount⟩ := Option.isSome_iff_exists.mp hcounted
    obtain ⟨_, hsame, hcountSize⟩ := hpatches hcount
    obtain rfl := Option.some.inj (hgiven.symm.trans hsame)
    rw [fieldSet, hmade] at hset
    obtain ⟨set, hzeroed, heq⟩ := bind_eq_ok.mp hset
    obtain ⟨rfl, -⟩ := FieldSet.zeroed_fits hzeroed
    exact .inl ⟨set, count, (Except.ok.inj heq).symm, hkind, hcount, hlawful, hcountSize ▸ hsize⟩
  · rw [fieldSet, hmade] at hset
    refine .inr ⟨(Except.ok.inj hset).symm, fun hthere => hnone ⟨hthere.1, hthere.2, ?_⟩⟩
    obtain ⟨count, hcount⟩ := Option.isSome_iff_exists.mp hthere.2
    obtain ⟨patches, hgiven, -⟩ := hpatches hcount
    rw [hgiven]
    rfl

/-- A mesh has as many elements of a kind as a word can count, so it has them all if there are few
enough. -/
theorem build_enumerates (hdraft : draft.validate = .ok metadata)
    (hbuild : (blueprint.build metadata).2 = .ok mesh) (kind : Kind) :
    (kind ∈ mesh.kinds ↔
      blueprint.topology.has kind = true ∧ (metadata.count? kind).isSome = true) ∧
    (kind ∈ mesh.kinds → ∃ count, metadata.count? kind = some count ∧
      mesh.Enumerates kind (count % UInt32.size) ∧
      (mesh.Enumerates kind count ↔ count < UInt32.size)) := by
  rw [Mesh.mem_kinds]
  have hlt (count : Nat) : count % UInt32.size < UInt32.size := Nat.mod_lt _ (by decide)
  rcases build_cases hdraft hbuild kind with
    ⟨set, count, hset, hkind, hcount, hlawful, hsize⟩ | ⟨hnone, hnot⟩
  · have henumerates : mesh.Enumerates kind (count % UInt32.size) :=
      hsize ▸ Mesh.enumerates_of_lawful hset hlawful (hsize ▸ hlt count)
    rw [hset, hcount]
    refine ⟨⟨fun _ => ⟨hkind, rfl⟩, fun _ => rfl⟩, fun _ => ⟨count, rfl, henumerates, ?_, ?_⟩⟩
    · intro hall
      rw [hall.unique henumerates]
      exact hlt count
    · intro hcount
      rwa [Nat.mod_eq_of_lt hcount] at henumerates
  · rw [hnone]
    exact ⟨⟨fun h => (nomatch h), fun h => absurd h hnot⟩, fun h => (nomatch h)⟩

end Build

section Wide

theorem vertices_accepted {count : Nat} (h : count * 4 < memoryLimit) : ∃ metadata,
    (Draft.empty.setCount .vertex count).validate = .ok metadata ∧
      metadata.count? .vertex = some count := by
  have hconsistent : (Draft.empty.setCount .vertex count).Consistent := by
    refine ⟨fun given hgiven => absurd hgiven List.not_mem_nil, List.nodup_nil, ?_⟩
    intro kind patches hpatches
    cases kind <;> cases hpatches
  have hfault : ∀ fault, ¬(Draft.empty.setCount .vertex count).Faulty fault := by
    rintro _ (⟨hgiven, -⟩ | @⟨kind, other, hcount, -, hroom⟩)
    · cases hgiven
    · cases kind with
      | vertex =>
        cases hcount
        omega
      | edge => cases hcount
      | face => cases hcount
      | cell => cases hcount
  obtain ⟨metadata, hok⟩ := hconsistent.validate_total hfault
  exact ⟨metadata, hok, congrArg (PerKind.get · .vertex) (Draft.describes_of_validate hok).counts⟩

theorem start_build (topology : Topology) (metadata : Metadata) :
    ∃ mesh, ((start topology {}).build metadata).2 = .ok mesh := by
  rw [build_eq]
  cases hassemble : (start topology {}).assemble metadata with
  | ok mesh => exact ⟨mesh, rfl⟩
  | error failure =>
    exfalso
    have huncounted : (start topology {}).uncounted? metadata = none := rfl
    rw [assemble, huncounted] at hassemble
    rcases bind_eq_error.mp hassemble with h | ⟨arranged, -, h⟩
    · obtain ⟨kind, h⟩ := PerKind.build_error h
      unfold arrange at h
      split at h
      · dsimp only at h
        rw [Permutation.assign_eq] at h
        cases h
      · cases h
    rcases bind_eq_error.mp h with h | ⟨sets, -, h⟩
    · obtain ⟨kind, h⟩ := PerKind.build_error h
      unfold fieldSet at h
      split at h
      · have : (start topology {}).placement kind = {} := by
          rw [placement, start, PerKind.get_const]
          rfl
        rw [this] at h
        cases h
      · cases h
    rcases bind_eq_error.mp h with h | ⟨tables, -, h⟩
    · obtain ⟨relation, h⟩ := PerRelation.build_error h
      have hlinks : (start topology {}).links.get relation = false := PerRelation.get_const _ _
      rw [table, hlinks] at h
      cases h
    · cases h

/-- A mesh of as many vertices as there are words has none of them. -/
theorem wide_mesh_without_elements : ¬∀ (draft : Draft) (metadata : Metadata)
    (blueprint : Blueprint) (mesh : Mesh) (kind : Kind), draft.validate = .ok metadata →
      (blueprint.build metadata).2 = .ok mesh → kind ∈ mesh.kinds →
        ∃ count, metadata.count? kind = some count ∧ mesh.Enumerates kind count := by
  intro h
  obtain ⟨metadata, hdraft, hcount⟩ :=
    @vertices_accepted UInt32.size (by decide)
  obtain ⟨mesh, hbuild⟩ := start_build .tri metadata
  rcases build_cases hdraft hbuild .vertex with
    ⟨set, other, hset, -, hother, hlawful, hsize⟩ | ⟨-, hnot⟩
  · have hthere : Kind.vertex ∈ mesh.kinds := by
      rw [Mesh.mem_kinds, hset]
      rfl
    obtain ⟨all, hall, henumerates⟩ := h _ metadata _ mesh .vertex hdraft hbuild hthere
    obtain rfl := Option.some.inj (hcount.symm.trans hall)
    obtain rfl := Option.some.inj (hcount.symm.trans hother)
    rw [Nat.mod_self] at hsize
    have hnone := Mesh.enumerates_of_lawful hset hlawful (hsize ▸ by decide)
    exact absurd (henumerates.unique hnone) (hsize ▸ by decide)
  · exact hnot ⟨rfl, by rw [hcount]; rfl⟩

end Wide

theorem build_enumerates_path : pathDraft.validate = .ok pathMetadata ∧
    (pathBlueprint.build pathMetadata).2 = .ok pathMesh ∧ pathMesh.Enumerates .vertex 3 := by
  have hbuild : (pathBlueprint.build pathMetadata).2 = .ok pathMesh :=
    congrArg Prod.snd pathBlueprint_build
  obtain ⟨count, hcount, henumerates, -⟩ :=
    (build_enumerates pathDraft_accepted hbuild .vertex).2 (by decide)
  cases hcount
  exact ⟨pathDraft_accepted, hbuild, henumerates⟩

end Blueprint

end MeshLayout
