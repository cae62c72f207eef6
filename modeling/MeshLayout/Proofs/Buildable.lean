import MeshLayout.Proofs.Blueprint

/-!
# What can be built

A description suits a blueprint if it counts the kinds that are placed and both ends of every
link, and gives every link in one direction at least. Whatever else a layout calls for can then be
made: an order of the slots, ranges of patches, fields of different names, turned and renamed
tables. So a build fails for what the description lacks or for want of memory, and the choices of
a layout have no part in it.
-/

set_option autoImplicit false

namespace MeshLayout

namespace Blueprint

open FieldSet

structure Suits (blueprint : Blueprint) (metadata : Metadata) : Prop where
  counted : ∀ kind, (blueprint.placements.get kind).isSome = true →
    (metadata.count? kind).isSome = true
  linked : ∀ relation, blueprint.links.get relation = true →
    (metadata.count? relation.source).isSome = true ∧
      (metadata.count? relation.target).isSome = true
  adjacent : ∀ relation, blueprint.links.get relation = true → metadata.Adjacent relation

/-- What a description can lack, as a build reports it. -/
inductive Lacks (blueprint : Blueprint) (metadata : Metadata) : ConfigIssue → Prop
  | count {kind : Kind} (placed : (blueprint.placements.get kind).isSome = true)
      (uncounted : ¬(metadata.count? kind).isSome = true) :
      Lacks blueprint metadata (.uncountedFields kind)
  | ends {relation : Relation} (linked : blueprint.links.get relation = true)
      (uncounted : ¬((metadata.count? relation.source).isSome = true ∧
        (metadata.count? relation.target).isSome = true)) :
      Lacks blueprint metadata (.uncountedLink relation)
  | adjacency {relation : Relation} (linked : blueprint.links.get relation = true)
      (absent : ¬metadata.Adjacent relation) :
      Lacks blueprint metadata (.missingAdjacency relation)

def Allocatable (blueprint : Blueprint) (metadata : Metadata) : Prop :=
  ∀ kind count, metadata.count? kind = some count → Room count (blueprint.placement kind).fields

/-- Blueprints that ask for the same fields and links, laid out in any way. -/
structure SameRequests (first second : Blueprint) : Prop where
  topology : first.topology = second.topology
  placed : ∀ kind, (first.placements.get kind).isSome = (second.placements.get kind).isSome
  fields : ∀ kind, (first.placement kind).fields = (second.placement kind).fields
  links : first.links = second.links

variable {blueprint other : Blueprint} {metadata : Metadata}

theorem Suits.lacks_nothing (h : blueprint.Suits metadata) {issue : ConfigIssue} :
    ¬blueprint.Lacks metadata issue := by
  intro hlacks
  cases hlacks with
  | count placed uncounted => exact uncounted (h.counted _ placed)
  | ends linked uncounted => exact uncounted (h.linked _ linked)
  | adjacency linked absent => exact absent (h.adjacent _ linked)

theorem SameRequests.suits (h : SameRequests other blueprint) :
    other.Suits metadata ↔ blueprint.Suits metadata := by
  constructor
  · exact fun hs => ⟨fun kind => h.placed kind ▸ hs.counted kind, h.links ▸ hs.linked,
      h.links ▸ hs.adjacent⟩
  · exact fun hs => ⟨fun kind => (h.placed kind).symm ▸ hs.counted kind, h.links ▸ hs.linked,
      h.links ▸ hs.adjacent⟩

theorem SameRequests.allocatable (h : SameRequests other blueprint) :
    other.Allocatable metadata ↔ blueprint.Allocatable metadata := by
  simp only [Allocatable, h.fields]

theorem SameRequests.sound (h : SameRequests other blueprint) (hsound : blueprint.Sound) :
    other.Sound where
  placed kind := by
    rw [h.placed, h.topology]
    exact hsound.placed kind
  linked relation := by
    rw [h.links, h.topology]
    exact hsound.linked relation
  fields kind := by
    rw [h.fields]
    exact hsound.fields kind

section Assemble

variable {arranged : PerKind (Option (Permutation × Partition))}

theorem arrange_total (hvalid : metadata.Valid) (hcount : metadata.Countable) (kind : Kind) :
    ∃ arranged, blueprint.arrange metadata kind = .ok arranged := by
  by_cases hcounted : blueprint.topology.has kind = true ∧ (metadata.count? kind).isSome = true
  · obtain ⟨_, _, harranged, -⟩ := arrange_of_counted hvalid hcount hcounted.1 hcounted.2
    exact ⟨_, harranged⟩
  · exact ⟨none, arrange_of_not_counted hcounted⟩

theorem fieldSet_error (hsound : blueprint.Sound) (hvalid : metadata.Valid)
    (hcount : metadata.Countable)
    (harranged : ∀ kind, blueprint.arrange metadata kind = .ok (arranged.get kind)) {kind : Kind}
    {failure : Failure} (h : blueprint.fieldSet arranged kind = .error failure) :
    failure = .broken .outOfMemory ∧ ¬blueprint.Allocatable metadata := by
  unfold fieldSet at h
  split at h
  · next permutation partition hkind =>
    have hfacts := arrange_eq_ok hvalid hcount (hkind ▸ harranged kind)
    rcases zeroed_of_distinct kind permutation (hsound.fields kind) with
      ⟨set, hset⟩ | ⟨hfault, hnoRoom⟩
    · rw [hset] at h
      cases h
    · rw [hfault] at h
      cases h
      exact ⟨rfl, fun hroom => hnoRoom (hroom kind permutation.size hfacts.2.1)⟩
  · cases h

theorem table_error (hsound : blueprint.Sound) (hvalid : metadata.Valid)
    (hcount : metadata.Countable)
    (harranged : ∀ kind, blueprint.arrange metadata kind = .ok (arranged.get kind))
    {relation : Relation} {failure : Failure}
    (h : blueprint.table metadata arranged relation = .error failure) :
    ∃ issue, blueprint.Lacks metadata issue ∧ failure = .refused (.config issue) := by
  unfold table at h
  split at h
  · next hlinked =>
    split at h
    -- Both ends are laid out, so only the adjacency can be missing.
    · next source sourceParts target targetParts hsource htarget =>
      by_cases hadjacent : metadata.Adjacent relation
      · obtain ⟨rows, targetCount, hread, hpack, hrows, htargets⟩ :=
          hadjacent.rows hvalid hcount
        have hs := arrange_eq_ok hvalid hcount (hsource ▸ harranged relation.source)
        have ht := arrange_eq_ok hvalid hcount (htarget ▸ harranged relation.target)
        have hlength : rows.length = source.size := Option.some.inj (hrows.symm.trans hs.2.1)
        have htargets : targetCount = target.size := Option.some.inj (htargets.symm.trans ht.2.1)
        obtain ⟨incidence, hmade, -⟩ := Incidence.build_holds relation blueprint.config.mode hpack
          hs.1 ht.1 hlength htargets
        simp only [hread, ok_bind, hmade] at h
        cases h
      · rw [Metadata.adjacency?_of_not_adjacent hadjacent] at h
        cases h
        exact ⟨_, .adjacency hlinked hadjacent, rfl⟩
    -- A link stays within the topology, so ends that are counted would have been laid out.
    · next hmissing =>
      cases h
      refine ⟨_, .ends hlinked fun hcounted => ?_, rfl⟩
      obtain ⟨hsource, htarget⟩ := hsound.linked relation hlinked
      obtain ⟨source, sourceParts, hs, -⟩ :=
        arrange_of_counted hvalid hcount hsource hcounted.1
      obtain ⟨target, targetParts, ht, -⟩ :=
        arrange_of_counted hvalid hcount htarget hcounted.2
      rw [harranged] at hs ht
      exact hmissing source sourceParts target targetParts (Except.ok.inj hs) (Except.ok.inj ht)
  · cases h

theorem assemble_error (hsound : blueprint.Sound) (hvalid : metadata.Valid)
    (hcount : metadata.Countable) {failure : Failure}
    (h : blueprint.assemble metadata = .error failure) :
    (failure = .broken .outOfMemory ∧ ¬blueprint.Allocatable metadata) ∨
      ∃ issue, blueprint.Lacks metadata issue ∧ failure = .refused (.config issue) := by
  unfold assemble at h
  split at h
  · next kind huncounted =>
    cases h
    have hkind := List.find?_some huncounted
    simp only [Bool.and_eq_true, Option.isNone_iff_eq_none] at hkind
    exact .inr ⟨_, .count hkind.1 (by simp [hkind.2]), rfl⟩
  · rcases bind_eq_error.mp h with h | ⟨arranged, harranged, h⟩
    · obtain ⟨kind, h⟩ := PerKind.build_error h
      obtain ⟨arranged, harranged⟩ := @arrange_total blueprint metadata hvalid hcount kind
      rw [harranged] at h
      cases h
    have harranged := PerKind.build_eq_ok.mp harranged
    rcases bind_eq_error.mp h with h | ⟨sets, -, h⟩
    · obtain ⟨kind, h⟩ := PerKind.build_error h
      exact .inl (fieldSet_error hsound hvalid hcount harranged h)
    rcases bind_eq_error.mp h with h | ⟨tables, -, h⟩
    · obtain ⟨relation, h⟩ := PerRelation.build_error h
      exact .inr (table_error hsound hvalid hcount harranged h)
    · cases h

theorem table_linked (hvalid : metadata.Valid)
    (harranged : ∀ kind, blueprint.arrange metadata kind = .ok (arranged.get kind))
    {relation : Relation} {made : Option Incidence}
    (h : blueprint.table metadata arranged relation = .ok made)
    (hlinked : blueprint.links.get relation = true) :
    ((metadata.count? relation.source).isSome = true ∧
      (metadata.count? relation.target).isSome = true) ∧ metadata.Adjacent relation := by
  rw [table, if_pos hlinked] at h
  split at h
  · next source sourceParts target targetParts hsource htarget =>
    have hs := (arrange_isSome hvalid (harranged relation.source)).mp (by rw [hsource]; rfl)
    have ht := (arrange_isSome hvalid (harranged relation.target)).mp (by rw [htarget]; rfl)
    refine ⟨⟨hs.2, ht.2⟩, ?_⟩
    by_contra habsent
    rw [Metadata.adjacency?_of_not_adjacent habsent] at h
    cases h
  · cases h

theorem suits_of_assembled (hvalid : metadata.Valid) {mesh : Mesh}
    (h : blueprint.assemble metadata = .ok mesh) : blueprint.Suits metadata := by
  obtain ⟨hcounted, arranged, sets, tables, harranged, -, htables, -⟩ := assemble_eq_ok.mp h
  constructor
  · exact uncounted?_eq_none.mp hcounted
  · intro relation hlinked
    exact (table_linked hvalid harranged (htables relation) hlinked).1
  · intro relation hlinked
    exact (table_linked hvalid harranged (htables relation) hlinked).2

theorem allocatable_of_assembled (hsound : blueprint.Sound) (hvalid : metadata.Valid)
    (hcount : metadata.Countable) {mesh : Mesh} (h : blueprint.assemble metadata = .ok mesh) :
    blueprint.Allocatable metadata := by
  obtain ⟨-, arranged, sets, tables, harranged, hsets, -, -⟩ := assemble_eq_ok.mp h
  intro kind count hcounted
  by_cases hkind : blueprint.topology.has kind = true
  · obtain ⟨permutation, partition, hthere, -, hsize, -⟩ :=
      arrange_of_counted hvalid hcount hkind (by rw [hcounted]; rfl)
    rw [harranged] at hthere
    have hset := hsets kind
    rw [fieldSet, Except.ok.inj hthere] at hset
    obtain ⟨set, hzeroed, -⟩ := bind_eq_ok.mp hset
    rw [Option.some.inj (hcounted.symm.trans hsize)]
    exact (zeroed_eq_ok.mp hzeroed).2.1
  -- A kind outside the topology has no fields that would need room.
  · have hnone : blueprint.placements.get kind = none := by
      by_contra hplaced
      exact hkind (hsound.placed kind (Option.isSome_iff_ne_none.mpr hplaced))
    rw [placement, hnone]
    intro declaration hmem
    cases hmem

theorem assemble_iff (hsound : blueprint.Sound) (hvalid : metadata.Valid)
    (hcount : metadata.Countable) : (∃ mesh, blueprint.assemble metadata = .ok mesh) ↔
      blueprint.Suits metadata ∧ blueprint.Allocatable metadata := by
  constructor
  · rintro ⟨mesh, h⟩
    exact ⟨suits_of_assembled hvalid h, allocatable_of_assembled hsound hvalid hcount h⟩
  · rintro ⟨hsuits, hroom⟩
    cases h : blueprint.assemble metadata with
    | ok mesh => exact ⟨mesh, rfl⟩
    | error failure =>
      rcases assemble_error hsound hvalid hcount h with ⟨-, hnoRoom⟩ | ⟨issue, hlacks, -⟩
      · exact absurd hroom hnoRoom
      · exact absurd hlacks hsuits.lacks_nothing

end Assemble

/-- A blueprint that was drawn by any calls builds a mesh exactly if the description suits it and
the fields have room. A build that fails is refused for something that the description lacks, or
there is no room. The layout that is asked for, by the configuration and by the flags of the
kinds, does not decide whether a mesh is built. -/
theorem drawn_build_iff_suits (topology : Topology) (config : Config) (calls : List Call)
    {draft : Draft} {metadata : Metadata} (accepted : draft.validate = .ok metadata)
    (countable : metadata.Countable) :
    ((∃ mesh, ((drawn topology config calls).build metadata).2 = .ok mesh) ↔
      (drawn topology config calls).Suits metadata ∧
        (drawn topology config calls).Allocatable metadata) ∧
    (∀ failure, ((drawn topology config calls).build metadata).2 = .error failure →
      (failure = .broken .outOfMemory ∧ ¬(drawn topology config calls).Allocatable metadata) ∨
        ∃ issue, (drawn topology config calls).Lacks metadata issue ∧
          failure = .refused (.config issue)) ∧
    ∀ other, SameRequests other (drawn topology config calls) →
      ((∃ mesh, (other.build metadata).2 = .ok mesh) ↔
        ∃ mesh, ((drawn topology config calls).build metadata).2 = .ok mesh) := by
  have hvalid := Draft.validate_valid accepted
  have hsound : (drawn topology config calls).Sound := (start_sound topology config).run calls
  simp only [build_eq]
  refine ⟨assemble_iff hsound hvalid countable, ?_, ?_⟩
  · intro failure h
    exact assemble_error hsound hvalid countable h
  · intro other hsame
    rw [assemble_iff (hsame.sound hsound) hvalid countable, assemble_iff hsound hvalid countable,
      hsame.suits, hsame.allocatable]

/-- A path is built in another layout because it is built in one, and a link from faces is refused
because no faces are counted. -/
theorem drawn_build_iff_suits_path :
    pathDraft.validate = .ok pathMetadata ∧ pathMetadata.Countable ∧
      (∃ mesh, ((drawn .tri { mode := ⟨false, true⟩ }
        [.place .vertex [⟨"load", ⟨.u32, 1⟩⟩] true, .link ⟨.edge, .vertex⟩]).build
          pathMetadata).2 = .ok mesh) ∧
      (drawn .tri {} [.link ⟨.face, .vertex⟩]).Allocatable pathMetadata ∧
      ∃ issue, ((drawn .tri {} [.link ⟨.face, .vertex⟩]).build pathMetadata).2 =
        Outcome.refuse (.config issue) := by
  have hbuilt : ((drawn .tri { patchContiguous := true } pathCalls).build pathMetadata).2 =
      .ok pathMesh := congrArg Prod.snd pathBlueprint_build
  have hsame : SameRequests (drawn .tri { mode := ⟨false, true⟩ }
      [.place .vertex [⟨"load", ⟨.u32, 1⟩⟩] true, .link ⟨.edge, .vertex⟩])
      (drawn .tri { patchContiguous := true } pathCalls) :=
    ⟨rfl, fun kind => by cases kind <;> rfl, fun kind => by cases kind <;> rfl, rfl⟩
  have hroom : (drawn .tri {} [.link ⟨.face, .vertex⟩]).Allocatable pathMetadata := by
    intro kind count _ declaration hmem
    cases kind <;> cases hmem
  obtain ⟨-, -, hlayouts⟩ := drawn_build_iff_suits .tri { patchContiguous := true } pathCalls
    pathDraft_accepted pathMetadata_countable
  obtain ⟨hiff, hfailures, -⟩ := drawn_build_iff_suits .tri {} [.link ⟨.face, .vertex⟩]
    pathDraft_accepted pathMetadata_countable
  refine ⟨pathDraft_accepted, pathMetadata_countable, (hlayouts _ hsame).mpr ⟨_, hbuilt⟩, hroom, ?_⟩
  cases hfaces : ((drawn .tri {} [.link ⟨.face, .vertex⟩]).build pathMetadata).2 with
  | ok mesh =>
    have hcounted := ((hiff.mp ⟨mesh, hfaces⟩).1.linked ⟨.face, .vertex⟩ rfl).1
    cases hcounted
  | error failure =>
    rcases hfailures failure hfaces with ⟨-, hnoRoom⟩ | ⟨issue, -, rfl⟩
    · exact absurd hroom hnoRoom
    · exact ⟨issue, rfl⟩

end Blueprint

end MeshLayout
