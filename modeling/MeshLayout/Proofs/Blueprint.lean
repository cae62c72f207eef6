import MeshLayout.Proofs.Mesh

/-!
# The life of a blueprint

A blueprint is drawn by calls, some of which are refused. Whatever the calls, declared fields have
different names and belong to kinds of the topology. The first mesh that is built freezes the
blueprint for good; until then a build leaves no trace, and what is built depends on the
declarations alone.
-/

set_option autoImplicit false

namespace MeshLayout

theorem FieldSet.distinct_concat {declarations : List Declaration} {declaration : Declaration}
    (h : Distinct declarations) (hname : ∀ other ∈ declarations, other.name ≠ declaration.name)
    (hcomponents : declaration.type.components ≠ 0) :
    Distinct (declarations ++ [declaration]) where
  names := by
    rw [List.map_append, List.nodup_append]
    refine ⟨h.names, List.nodup_singleton _, ?_⟩
    intro name hmem last hlast
    obtain ⟨other, hother, rfl⟩ := List.mem_map.mp hmem
    rw [List.mem_singleton.mp hlast]
    exact hname other hother
  components := by
    intro other hother
    rcases List.mem_append.mp hother with hold | hnew
    · exact h.components other hold
    · rwa [List.mem_singleton.mp hnew]

namespace Blueprint

open FieldSet

theorem addFields_distinct (kind : Kind) (declarations fields : List Declaration)
    (h : Distinct fields) : Distinct (addFields kind declarations fields).1 := by
  induction declarations generalizing fields with
  | nil => exact h
  | cons declaration rest ih =>
    rw [addFields]
    split
    · exact h
    · next hname =>
      split
      · exact h
      · next hcomponents =>
        exact ih _ (distinct_concat h (by simpa using hname) hcomponents)

inductive Call
  | place (kind : Kind) (declarations : List Declaration) (reorder : Bool)
  | link (relation : Relation)
  | build (metadata : Metadata)

def after (blueprint : Blueprint) : Call → Blueprint
  | .place kind declarations reorder => (blueprint.place kind declarations reorder).1
  | .link relation =>
    match blueprint.link relation with
    | .ok next => next
    | .error _ => blueprint
  | .build metadata => (blueprint.build metadata).1

def run (blueprint : Blueprint) : List Call → Blueprint
  | [] => blueprint
  | call :: rest => (blueprint.after call).run rest

def start (topology : Topology) (config : Config) : Blueprint := { topology, config }

/-- The blueprint that is drawn by calls alone. -/
def drawn (topology : Topology) (config : Config) (calls : List Call) : Blueprint :=
  (start topology config).run calls

variable {blueprint : Blueprint}

theorem place_cases (blueprint : Blueprint) (kind : Kind) (declarations : List Declaration)
    (reorder : Bool) : (blueprint.place kind declarations reorder).1 = blueprint ∨
      blueprint.frozen = false ∧ blueprint.topology.has kind = true ∧ ∃ flag,
        (blueprint.place kind declarations reorder).1 =
          { blueprint with
            placements := blueprint.placements.set kind (some
              ⟨(addFields kind declarations (blueprint.placement kind).fields).1, flag⟩) } := by
  unfold place
  cases hfrozen : blueprint.frozen with
  | true => exact .inl rfl
  | false =>
    cases hkind : blueprint.checkKind kind with
    | error error => exact .inl rfl
    | ok _ => exact .inr ⟨rfl, Checked.require_eq_ok.mp hkind, _, rfl⟩

theorem link_eq_ok {relation : Relation} {next : Blueprint} :
    blueprint.link relation = .ok next ↔ blueprint.frozen = false ∧
      blueprint.topology.has relation.source = true ∧
      blueprint.topology.has relation.target = true ∧
      next = { blueprint with links := blueprint.links.set relation true } := by
  simp only [link, checkKind, Checked.require_bind_eq_ok, pure_eq_ok, Except.ok.injEq,
    Bool.not_eq_true']
  exact and_congr_right' (and_congr_right' (and_congr_right' eq_comm))

theorem after_link_cases (blueprint : Blueprint) (relation : Relation) :
    blueprint.after (.link relation) = blueprint ∨ blueprint.frozen = false ∧
      blueprint.topology.has relation.source = true ∧
      blueprint.topology.has relation.target = true ∧ blueprint.after (.link relation) =
        { blueprint with links := blueprint.links.set relation true } := by
  simp only [after]
  cases hlink : blueprint.link relation with
  | error error => exact .inl rfl
  | ok next => exact .inr (link_eq_ok.mp hlink)

theorem place_of_frozen (h : blueprint.frozen = true) (kind : Kind)
    (declarations : List Declaration) (reorder : Bool) :
    blueprint.place kind declarations reorder = (blueprint, .error (.frozen .placeFields)) := by
  rw [place, if_pos h]

theorem link_of_frozen (h : blueprint.frozen = true) (relation : Relation) :
    blueprint.link relation = .error (.frozen .linkRelations) := by
  simp [link, Checked.require, h]

theorem build_of_error {metadata : Metadata} {failure : Failure}
    (h : (blueprint.build metadata).2 = .error failure) :
    (blueprint.build metadata).1 = blueprint := by
  rw [build_eq] at h ⊢
  simp only at h
  simp [h, Except.isOk, Except.toBool]

section Run

theorem after_of_frozen (h : blueprint.frozen = true) (call : Call) :
    blueprint.after call = blueprint := by
  cases call with
  | place kind declarations reorder => rw [after, place_of_frozen h]
  | link relation => rw [after, link_of_frozen h]
  | build metadata =>
    rw [after, build_eq, h, Bool.true_or]
    cases blueprint
    simp_all

theorem run_of_frozen (h : blueprint.frozen = true) (calls : List Call) :
    blueprint.run calls = blueprint := by
  induction calls with
  | nil => rfl
  | cons call rest ih => rw [run, after_of_frozen h, ih]

theorem after_frozen (blueprint : Blueprint) (call : Call) :
    (blueprint.after call).frozen = true ↔ blueprint.frozen = true ∨
      ∃ metadata mesh, call = .build metadata ∧ (blueprint.build metadata).2 = .ok mesh := by
  cases call with
  | place kind declarations reorder =>
    simp only [reduceCtorEq, false_and, exists_false, or_false]
    rcases place_cases blueprint kind declarations reorder with h | ⟨-, -, flag, h⟩
    · rw [after, h]
    · rw [after, h]
  | link relation =>
    simp only [reduceCtorEq, false_and, exists_false, or_false]
    rcases after_link_cases blueprint relation with h | ⟨-, -, -, h⟩
    · rw [h]
    · rw [h]
  | build metadata =>
    simp only [Call.build.injEq, exists_and_left, exists_eq_left']
    rw [after, build_eq, Bool.or_eq_true]
    refine or_congr_right ?_
    cases blueprint.assemble metadata with
    | ok mesh => simp [Except.isOk, Except.toBool]
    | error failure => simp [Except.isOk, Except.toBool]

theorem run_append (blueprint : Blueprint) (calls later : List Call) :
    blueprint.run (calls ++ later) = (blueprint.run calls).run later := by
  induction calls generalizing blueprint with
  | nil => rfl
  | cons call rest ih => exact ih _

theorem run_frozen (blueprint : Blueprint) (calls : List Call) :
    (blueprint.run calls).frozen = true ↔ blueprint.frozen = true ∨
      ∃ earlier metadata later mesh, calls = earlier ++ .build metadata :: later ∧
        ((blueprint.run earlier).build metadata).2 = .ok mesh := by
  induction calls generalizing blueprint with
  | nil => simp [run]
  | cons call rest ih =>
    rw [run, ih, after_frozen, or_assoc]
    refine or_congr_right ?_
    -- The build that succeeds is the first call, or one of the rest.
    constructor
    · rintro (⟨metadata, mesh, rfl, hbuilt⟩ | ⟨earlier, metadata, later, mesh, rfl, hbuilt⟩)
      · exact ⟨[], metadata, rest, mesh, rfl, hbuilt⟩
      · exact ⟨call :: earlier, metadata, later, mesh, rfl, hbuilt⟩
    · rintro ⟨earlier, metadata, later, mesh, hcalls, hbuilt⟩
      cases earlier with
      | nil =>
        obtain ⟨rfl, rfl⟩ := List.cons.inj hcalls
        exact .inl ⟨metadata, mesh, rfl, hbuilt⟩
      | cons first earlier =>
        obtain ⟨rfl, rfl⟩ := List.cons.inj hcalls
        exact .inr ⟨earlier, metadata, later, mesh, rfl, hbuilt⟩

end Run

/-- What the checks of single calls ensure of all declarations together. -/
structure Sound (blueprint : Blueprint) : Prop where
  placed : ∀ kind, (blueprint.placements.get kind).isSome = true →
    blueprint.topology.has kind = true
  linked : ∀ relation, blueprint.links.get relation = true →
    blueprint.topology.has relation.source = true ∧ blueprint.topology.has relation.target = true
  fields : ∀ kind, Distinct (blueprint.placement kind).fields

theorem start_sound (topology : Topology) (config : Config) : (start topology config).Sound where
  placed := by simp [start]
  linked := by simp [start]
  fields kind := by
    have hnone : ((start topology config).placement kind).fields = [] := by
      simp [start, placement]
    rw [hnone]
    exact ⟨List.nodup_nil, fun _ h => absurd h List.not_mem_nil⟩

theorem Sound.after (h : blueprint.Sound) (call : Call) : (blueprint.after call).Sound := by
  cases call with
  | place kind declarations reorder =>
    simp only [Blueprint.after]
    rcases place_cases blueprint kind declarations reorder with hsame | ⟨-, hkind, flag, hplaced⟩
    · rwa [hsame]
    · rw [hplaced]
      refine ⟨fun other hother => ?_, h.linked, fun other => ?_⟩
      · by_cases heq : other = kind
        · rwa [heq]
        · rw [PerKind.get_set_of_ne _ heq] at hother
          exact h.placed other hother
      · by_cases heq : other = kind
        · subst heq
          simpa [placement] using addFields_distinct other declarations _ (h.fields other)
        · simpa [placement, PerKind.get_set_of_ne _ heq] using h.fields other
  | link relation =>
    rcases after_link_cases blueprint relation with hsame | ⟨-, hsource, htarget, hlinked⟩
    · rwa [hsame]
    · rw [hlinked]
      refine ⟨h.placed, fun other hother => ?_, h.fields⟩
      rw [PerRelation.get_set] at hother
      split at hother
      · next heq =>
        subst heq
        exact ⟨hsource, htarget⟩
      · exact h.linked other hother
  | build metadata =>
    simp only [Blueprint.after, build_eq]
    exact ⟨h.placed, h.linked, h.fields⟩

theorem Sound.run (h : blueprint.Sound) (calls : List Call) : (blueprint.run calls).Sound := by
  induction calls generalizing blueprint with
  | nil => exact h
  | cons call rest ih => exact ih (h.after call)

/-- A mesh is what the declarations ask for: the linked relations, the counted kinds of the
topology, and a field of zeros for each declaration. -/
structure Realized (blueprint : Blueprint) (metadata : Metadata) (mesh : Mesh) : Prop where
  described : mesh.metadata = metadata
  topology : mesh.topology = blueprint.topology
  config : mesh.config = blueprint.config
  relations : ∀ relation, relation ∈ mesh.relations ↔ blueprint.links.get relation = true
  kinds : ∀ kind, kind ∈ mesh.kinds ↔
    blueprint.topology.has kind = true ∧ (metadata.count? kind).isSome = true
  placed : ∀ kind, (blueprint.placement kind).fields ≠ [] → kind ∈ mesh.kinds
  fields : ∀ kind set, mesh.sets.get kind = some set →
    set.fields.Perm ((blueprint.placement kind).fields.map (Field.zeroed · set.size))

section Assemble

variable {metadata : Metadata}

theorem uncounted?_eq_none : blueprint.uncounted? metadata = none ↔
    ∀ kind, (blueprint.placements.get kind).isSome = true →
      (metadata.count? kind).isSome = true := by
  simp [uncounted?, List.find?_eq_none, Kind.mem_all, Option.isSome_iff_ne_none]

theorem arrange_isSome (hvalid : metadata.Valid) {kind : Kind}
    {arranged : Option (Permutation × Partition)}
    (h : blueprint.arrange metadata kind = .ok arranged) : arranged.isSome = true ↔
      blueprint.topology.has kind = true ∧ (metadata.count? kind).isSome = true := by
  unfold arrange at h
  split at h
  · next count patches htopology hcount _ =>
    obtain ⟨permutation, -, h⟩ := bind_eq_ok.mp h
    have hthere : arranged.isSome = true := by
      split at h
      · obtain ⟨partition, -, h⟩ := bind_eq_ok.mp h
        cases h
        rfl
      · cases h
        rfl
    simp [hthere, htopology, hcount]
  · next hother =>
    cases h
    simp only [Option.isSome_none, Bool.false_eq_true, false_iff, not_and]
    intro htopology hcounted
    obtain ⟨count, hcount⟩ := Option.isSome_iff_exists.mp hcounted
    obtain ⟨patches, hpatches, -⟩ := hvalid.patches hcount
    exact hother count patches htopology hcount hpatches

theorem fieldSet_isSome {arranged : PerKind (Option (Permutation × Partition))} {kind : Kind}
    {made : Option FieldSet} (h : blueprint.fieldSet arranged kind = .ok made) :
    made.isSome = (arranged.get kind).isSome := by
  unfold fieldSet at h
  split at h
  · next permutation partition harranged =>
    obtain ⟨set, -, h⟩ := bind_eq_ok.mp h
    cases h
    rw [harranged]
    rfl
  · next harranged =>
    cases h
    rw [harranged]
    rfl

theorem table_isSome {arranged : PerKind (Option (Permutation × Partition))} {relation : Relation}
    {made : Option Incidence} (h : blueprint.table metadata arranged relation = .ok made) :
    made.isSome = blueprint.links.get relation := by
  unfold table at h
  split at h
  · next hlinked =>
    split at h
    · obtain ⟨adjacency, -, h⟩ := bind_eq_ok.mp h
      cases adjacency with
      | none => cases h
      | some adjacency =>
        obtain ⟨incidence, -, h⟩ := bind_eq_ok.mp h
        cases h
        exact hlinked.symm
    · cases h
  · next hlinked =>
    cases h
    simpa using hlinked

theorem assemble_linked {mesh : Mesh} (h : blueprint.assemble metadata = .ok mesh)
    (relation : Relation) : (mesh.tables.get relation).isSome = blueprint.links.get relation := by
  obtain ⟨-, arranged, sets, tables, -, -, htables, rfl⟩ := assemble_eq_ok.mp h
  exact table_isSome (htables relation)

theorem fieldSet_fields {arranged : PerKind (Option (Permutation × Partition))} {kind : Kind}
    {set : FieldSet} (h : blueprint.fieldSet arranged kind = .ok (some set)) :
    set.fields.Perm ((blueprint.placement kind).fields.map (Field.zeroed · set.size)) := by
  unfold fieldSet at h
  split at h
  · obtain ⟨made, hmade, h⟩ := bind_eq_ok.mp h
    cases h
    rw [FieldSet.size, (zeroed_fits hmade).1]
    exact zeroed_fields hmade
  · cases h

theorem assemble_realized (hsound : blueprint.Sound) (hvalid : metadata.Valid) {mesh : Mesh}
    (h : blueprint.assemble metadata = .ok mesh) : blueprint.Realized metadata mesh := by
  have hlinked := assemble_linked h
  obtain ⟨hcounted, arranged, sets, tables, harranged, hsets, -, rfl⟩ := assemble_eq_ok.mp h
  have hkinds : ∀ kind, (sets.get kind).isSome = true ↔
      blueprint.topology.has kind = true ∧ (metadata.count? kind).isSome = true := by
    intro kind
    rw [fieldSet_isSome (hsets kind), arrange_isSome hvalid (harranged kind)]
  refine ⟨rfl, rfl, rfl, fun relation => ?_, fun kind => ?_, fun kind hfields => ?_,
    fun kind set hset => ?_⟩
  · rw [Mesh.mem_relations, hlinked]
  · exact Mesh.mem_kinds.trans (hkinds kind)
  · have hplaced : (blueprint.placements.get kind).isSome = true := by
      cases hnone : blueprint.placements.get kind with
      | none => simp [placement, hnone] at hfields
      | some there => rfl
    exact (Mesh.mem_kinds.trans (hkinds kind)).mpr
      ⟨hsound.placed kind hplaced, uncounted?_eq_none.mp hcounted kind hplaced⟩
  · exact fieldSet_fields ((hsets kind).trans (congrArg Except.ok hset))

end Assemble

structure SameDeclarations (first second : Blueprint) : Prop where
  topology : first.topology = second.topology
  config : first.config = second.config
  placements : first.placements = second.placements
  links : first.links = second.links

theorem SameDeclarations.build {first second : Blueprint} (h : SameDeclarations first second)
    (metadata : Metadata) : (first.build metadata).2 = (second.build metadata).2 := by
  obtain ⟨topology, config, placements, links, frozen⟩ := first
  obtain ⟨topology', config', placements', links', frozen'⟩ := second
  obtain ⟨rfl, rfl, rfl, rfl⟩ := h
  rw [build_eq, build_eq]
  rfl

/-- The life of a blueprint. The first mesh that is built freezes it, and nothing else does; once
frozen, it refuses every declaration and never changes again; what fails leaves it as it was; and
what is built is what its declarations ask for, whatever was built before. -/
theorem drawn_life_cycle (topology : Topology) (config : Config) (calls : List Call) :
    ((drawn topology config calls).frozen = true ↔
      ∃ earlier metadata later mesh, calls = earlier ++ .build metadata :: later ∧
        ((drawn topology config earlier).build metadata).2 = .ok mesh) ∧
    ((drawn topology config calls).frozen = true →
      (∀ kind declarations reorder,
        (drawn topology config calls).place kind declarations reorder =
          (drawn topology config calls, .error (.frozen .placeFields))) ∧
      (∀ relation, (drawn topology config calls).link relation =
        .error (.frozen .linkRelations)) ∧
      ∀ later, drawn topology config (calls ++ later) = drawn topology config calls) ∧
    (∀ metadata failure, ((drawn topology config calls).build metadata).2 = .error failure →
      drawn topology config (calls ++ [.build metadata]) = drawn topology config calls) ∧
    (∀ relation error, (drawn topology config calls).link relation = .error error →
      drawn topology config (calls ++ [.link relation]) = drawn topology config calls) ∧
    ∀ draft metadata mesh, Draft.validate draft = .ok metadata →
      ((drawn topology config calls).build metadata).2 = .ok mesh →
        (drawn topology config calls).Realized metadata mesh ∧
        ∀ topology' config' calls', SameDeclarations (drawn topology' config' calls')
            (drawn topology config calls) →
          ((drawn topology' config' calls').build metadata).2 = .ok mesh := by
  refine ⟨?_, fun hfrozen => ⟨?_, ?_, ?_⟩, ?_, ?_, ?_⟩
  · simpa [drawn, start] using run_frozen (start topology config) calls
  · exact place_of_frozen hfrozen
  · exact link_of_frozen hfrozen
  · intro later
    rw [drawn, run_append]
    exact run_of_frozen hfrozen later
  · intro metadata failure h
    rw [drawn, run_append]
    exact build_of_error h
  · intro relation error h
    rw [drawn, run_append, run, after, ← drawn, h, run]
  · intro draft metadata mesh hdraft hbuilt
    have hsound : (drawn topology config calls).Sound := (start_sound topology config).run calls
    constructor
    · rw [build_eq] at hbuilt
      exact assemble_realized hsound (Draft.validate_valid hdraft) hbuilt
    · intro topology' config' calls' hsame
      rw [hsame.build, hbuilt]

def pathCalls : List Call :=
  [.place .vertex [⟨"load", ⟨.u32, 1⟩⟩] false, .link ⟨.edge, .vertex⟩]

theorem drawn_life_cycle_path :
    pathDraft.validate = .ok pathMetadata ∧
      ((drawn .tri { patchContiguous := true } pathCalls).build pathMetadata).2 = .ok pathMesh ∧
      (drawn .tri { patchContiguous := true } pathCalls).Realized pathMetadata pathMesh ∧
      (drawn .tri { patchContiguous := true } (pathCalls ++ [.build pathMetadata])).frozen = true ∧
      (drawn .tri { patchContiguous := true } (pathCalls ++ [.build pathMetadata])).link
        ⟨.vertex, .edge⟩ = .error (.frozen .linkRelations) :=
  have hdrawn : drawn .tri { patchContiguous := true } pathCalls = pathBlueprint := rfl
  have hbuilt : ((drawn .tri { patchContiguous := true } pathCalls).build pathMetadata).2 =
      .ok pathMesh := by rw [hdrawn, pathBlueprint_build]
  have ⟨_, _, _, _, hrealized⟩ := drawn_life_cycle .tri { patchContiguous := true } pathCalls
  have ⟨hfrozen, hrefused, _⟩ := drawn_life_cycle .tri { patchContiguous := true }
    (pathCalls ++ [.build pathMetadata])
  have hdone := hfrozen.mpr ⟨pathCalls, pathMetadata, [], pathMesh, rfl, hbuilt⟩
  ⟨pathDraft_accepted, hbuilt, (hrealized pathDraft _ _ pathDraft_accepted hbuilt).1, hdone,
    (hrefused hdone).2.1 _⟩

end Blueprint

end MeshLayout
