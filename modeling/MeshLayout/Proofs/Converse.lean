import MeshLayout.Proofs.Traversal

/-!
# A derived relation is the converse of the given one

A relation that a description does not give is read from the reversed one: its rows are turned
round, by identity, before any permutation is applied, while the given rows are never turned. The
two tables of a mesh that links both ways still agree slot by slot, with multiplicities, because
each sees its rows through the same two permutations.
-/

set_option autoImplicit false

namespace MeshLayout

theorem Permutation.Lawful.count_map_slotOf {permutation : Permutation}
    (hp : permutation.Lawful) {slot : Slot} (hslot : slot.toNat < permutation.size)
    {identities : List Identity}
    (hrange : ∀ identity ∈ identities, identity.toNat < permutation.size) :
    (identities.map permutation.slotOf).count slot =
      identities.count (permutation.identityOf slot) := by
  rw [List.count, List.countP_map, List.count]
  refine List.countP_congr fun identity hmem => ?_
  rw [Function.comp_apply, beq_iff_eq, beq_iff_eq]
  constructor
  · rintro rfl
    exact (hp.identityOf_slotOf' (hrange identity hmem)).symm
  · rintro rfl
    exact hp.slotOf_identityOf' hslot

namespace Incidence

open Adjacency

/-- Two tables of a relation and the reversed one, between the same elements, where the rows of
the second are those of the first, turned round. -/
structure Converse (given derived : Incidence) (rows : List (List UInt32)) : Prop where
  givenRows : given.Holds rows
  derivedRows : derived.Holds (turned rows derived.source.size)
  source : derived.source = given.target
  target : derived.target = given.source
  room : derived.source.size < UInt32.size

variable {given derived : Incidence} {rows : List (List UInt32)}

theorem Converse.identities (h : Converse given derived rows) {slot : Slot}
    (hslot : slot.toNat < derived.source.size) :
    derived.neighborIdentities? slot =
      some (turnedRow (derived.source.identityOf slot) rows 0) := by
  rw [h.derivedRows.neighborIdentities?_eq hslot,
    turned_getD rows (h.derivedRows.source.identityOf_lt hslot)]

theorem Converse.slots (h : Converse given derived rows) {slot : Slot}
    (hslot : slot.toNat < derived.source.size) :
    derived.neighborSlots? slot = some ((turnedRow (derived.source.identityOf slot) rows 0).map
      derived.target.slotOf) := by
  rw [h.derivedRows.neighborSlots?_eq hslot, turned_getD rows (h.derivedRows.source.identityOf_lt hslot)]

theorem Converse.rows_le (h : Converse given derived rows) : 0 + rows.length ≤ UInt32.size := by
  rw [Nat.zero_add, h.givenRows.rows_length]
  exact h.givenRows.source.size_le

/-- One slot leads to another as often as that one leads back. -/
theorem Converse.count (h : Converse given derived rows) {slot other : Slot}
    {forth back : List Slot} (hslot : slot.toNat < derived.source.size)
    (hother : other.toNat < given.source.size) (hforth : derived.neighborSlots? slot = some forth)
    (hback : given.neighborSlots? other = some back) : forth.count other = back.count slot := by
  have hidentity := h.givenRows.source.identityOf_lt hother
  have hturned : ∀ identity ∈ turnedRow (derived.source.identityOf slot) rows 0,
      identity.toNat < derived.target.size := by
    intro identity hmem
    have := turnedRow_bounds _ rows 0 h.rows_le identity hmem
    rw [h.target, ← h.givenRows.rows_length]
    omega
  have hrow : ∀ identity ∈ rows.getD (given.source.identityOf other).toNat [],
      identity.toNat < given.target.size :=
    fun identity hmem => entry_lt h.givenRows.packable hmem
  rw [h.slots hslot] at hforth
  rw [h.givenRows.neighborSlots?_eq hother] at hback
  obtain rfl := Option.some.inj hforth
  obtain rfl := Option.some.inj hback
  have hcount := count_turnedRow (derived.source.identityOf slot) rows 0 h.rows_le
    (given.source.identityOf other).toNat (by rwa [h.givenRows.rows_length])
  rw [Nat.zero_add, toUInt32_toNat] at hcount
  rw [h.derivedRows.target.count_map_slotOf (by rwa [h.target]) hturned, h.target, hcount,
    h.givenRows.target.count_map_slotOf (by rwa [← h.source]) hrow, h.source]

theorem Converse.entryCount (h : Converse given derived rows) :
    derived.entryCount = given.entryCount := by
  have hpack : Packable rows derived.source.size := by
    rw [h.source]
    exact h.givenRows.packable
  rw [h.derivedRows.entryCount_eq, h.givenRows.entryCount_eq, turned_entries hpack (Nat.le_of_lt h.room)]

end Incidence

namespace Mesh

open Adjacency

theorem Laid.converse {mesh : Mesh} (h : mesh.Laid) {relation : Relation}
    {derived given : Incidence} (hstored : mesh.metadata.stored? relation = none)
    (hreverse : (mesh.metadata.stored? relation.reversed).isSome = true)
    (hderived : mesh.incidence relation = .ok derived)
    (hgiven : mesh.incidence relation.reversed = .ok given) :
    ∃ rows, Incidence.Converse given derived rows := by
  obtain ⟨reverse, hreverse⟩ := Option.isSome_iff_exists.mp hreverse
  obtain ⟨rows, targetCount, hpacked, hpack, -, -, hread⟩ :=
    Metadata.adjacency?_of_reversed h.valid h.countable hstored hreverse
  obtain ⟨-, hsource, htarget, kept, hkept, hholds⟩ := h.incidences hgiven
  obtain ⟨-, hsource', htarget', kept', hkept', hholds'⟩ := h.incidences hderived
  obtain ⟨hlawful, hcount⟩ := h.permutations hsource'
  -- Both tables are between the same elements, so both see them under the same permutations.
  have hswap : derived.source = given.target := Except.ok.inj (hsource'.symm.trans htarget)
  have hswap' : derived.target = given.source := Except.ok.inj (htarget'.symm.trans hsource)
  have hreverse' : mesh.metadata.adjacency? relation.reversed = .ok (some reverse) := by
    rw [Metadata.adjacency?, hreverse]
  rw [hreverse', hpacked] at hkept
  have heq : pack rows targetCount = pack kept given.target.size :=
    Option.some.inj (Except.ok.inj hkept)
  obtain rfl : rows = kept := pack_injective hpack.entries_lt heq
  obtain rfl : targetCount = given.target.size := congrArg Adjacency.targetCount heq
  rw [hread] at hkept'
  have hturned := pack_injective hholds'.packable.entries_lt
    (Option.some.inj (Except.ok.inj hkept')).symm
  refine ⟨rows, hholds, ?_, hswap, hswap', h.countable _ _ hcount⟩
  rwa [hswap, ← hturned]

end Mesh

namespace Blueprint

variable {blueprint : Blueprint} {metadata : Metadata} {mesh : Mesh}

theorem build_metadata (hbuilt : (blueprint.build metadata).2 = .ok mesh) :
    mesh.metadata = metadata := by
  rw [build_eq] at hbuilt
  obtain ⟨-, _, _, _, -, -, -, rfl⟩ := assemble_eq_ok.mp hbuilt
  rfl

theorem exists_incidence (hbuilt : (blueprint.build metadata).2 = .ok mesh)
    {relation : Relation} (hlinked : blueprint.links.get relation = true) :
    ∃ incidence, mesh.incidence relation = .ok incidence := by
  rw [build_eq] at hbuilt
  rw [← assemble_linked hbuilt] at hlinked
  obtain ⟨incidence, hincidence⟩ := Option.isSome_iff_exists.mp hlinked
  exact ⟨incidence, Mesh.incidence_eq_ok.mpr hincidence⟩

/-- A relation that is not given and the reversed one, which is: in every mesh that links both,
their tables have as many entries, one slot leads to another as often as that one leads back, and
what is derived for a slot is by ascending identity. -/
theorem build_converse {draft : Draft} (accepted : draft.validate = .ok metadata)
    (countable : metadata.Countable) (built : (blueprint.build metadata).2 = .ok mesh)
    (relation : Relation) (hstored : metadata.stored? relation = none)
    (hreverse : (metadata.stored? relation.reversed).isSome = true)
    (hlinked : blueprint.links.get relation = true)
    (hlinked' : blueprint.links.get relation.reversed = true) :
    ∃ derived given sources targets, mesh.incidence relation = .ok derived ∧
      mesh.incidence relation.reversed = .ok given ∧
      mesh.permutation relation.source = .ok sources ∧
      mesh.permutation relation.target = .ok targets ∧
      derived.size = sources.size ∧ given.size = targets.size ∧
      derived.entryCount = given.entryCount ∧
      (∀ slot : Slot, slot.toNat < sources.size → ∃ identities,
        derived.neighborIdentities? slot = some identities ∧ identities.Pairwise (· ≤ ·)) ∧
      ∀ slot other : Slot, slot.toNat < sources.size → other.toNat < targets.size →
        ∃ forth back, derived.neighborSlots? slot = some forth ∧
          given.neighborSlots? other = some back ∧ forth.count other = back.count slot := by
  have hlaid := build_laid (Draft.validate_valid accepted) countable built
  obtain ⟨derived, hderived⟩ := exists_incidence built hlinked
  obtain ⟨given, hgiven⟩ := exists_incidence built hlinked'
  obtain ⟨-, hsource, htarget, -⟩ := hlaid.incidences hderived
  rw [← build_metadata built] at hstored hreverse
  obtain ⟨rows, hconverse⟩ := hlaid.converse hstored hreverse hderived hgiven
  refine ⟨derived, given, derived.source, derived.target, hderived, hgiven, hsource, htarget,
    hconverse.derivedRows.size_eq, ?_, hconverse.entryCount, fun slot hslot => ?_,
    fun slot other hslot hother => ?_⟩
  · rw [hconverse.givenRows.size_eq, hconverse.target]
  · exact ⟨_, hconverse.identities hslot,
      Adjacency.turnedRow_ascending _ rows 0 hconverse.rows_le⟩
  · rw [hconverse.target] at hother
    have hback := hconverse.givenRows.neighborSlots?_eq hother
    exact ⟨_, _, hconverse.slots hslot, hback,
      hconverse.count hslot hother (hconverse.slots hslot) hback⟩

theorem build_converse_loop : pathDraft.validate = .ok pathMetadata ∧ pathMetadata.Countable ∧
    (Traversal.loopBlueprint.build pathMetadata).2 = .ok Traversal.loopMesh ∧
    ∃ derived given, Traversal.loopMesh.incidence ⟨.vertex, .edge⟩ = .ok derived ∧
      Traversal.loopMesh.incidence ⟨.edge, .vertex⟩ = .ok given ∧
      derived.entryCount = given.entryCount ∧
      ∃ forth back, derived.neighborSlots? 2 = some forth ∧ given.neighborSlots? 1 = some back ∧
        forth.count 1 = back.count 2 := by
  obtain ⟨derived, given, sources, targets, hderived, hgiven, hsources, htargets, -, -, hentries,
    -, hcount⟩ := build_converse pathDraft_accepted pathMetadata_countable
      Traversal.loopBlueprint_build ⟨.vertex, .edge⟩ rfl rfl rfl rfl
  cases hsources
  cases htargets
  exact ⟨pathDraft_accepted, pathMetadata_countable, Traversal.loopBlueprint_build, derived, given,
    hderived, hgiven, hentries, hcount 2 1 (by decide) (by decide)⟩

end Blueprint

end MeshLayout
