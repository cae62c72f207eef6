import MeshLayout.Proofs.Blueprint
import MeshLayout.Traversal

/-!
# Where chains of relations lead

A traversal walks by slots, one way after the other. The description is followed by identity, a
whole list at a time: every identity is replaced by its row. Both arrive at the same elements in
the same order, because a hop is a row seen under two permutations and such steps compose.
-/

set_option autoImplicit false

namespace MeshLayout

def gather? {α β : Type} (next? : α → Option (List β)) (list : List α) : Option (List β) := do
  return (← list.mapM next?).flatten

section Gather

variable {α β γ : Type} {next? : α → Option (List β)} {next'? : β → Option (List γ)}

theorem gather?_of_total {next : α → List β} {list : List α}
    (h : ∀ a ∈ list, next? a = some (next a)) : gather? next? list = some (list.flatMap next) := by
  rw [gather?, mapM_eq_some_map list h, List.flatMap_def]
  rfl

theorem gather?_cons (a : α) (list : List α) :
    gather? next? (a :: list) =
      (next? a).bind fun here => (gather? next? list).map (here ++ ·) := by
  simp only [gather?, List.mapM_cons, Option.bind_eq_bind, Option.pure_def]
  cases next? a with
  | none => rfl
  | some here => cases list.mapM next? <;> rfl

theorem gather?_append (list later : List α) :
    gather? next? (list ++ later) =
      (gather? next? list).bind fun here => (gather? next? later).map (here ++ ·) := by
  induction list with
  | nil => exact (Option.map_id' (x := gather? next? later)).symm
  | cons a list ih =>
    rw [List.cons_append, gather?_cons, gather?_cons, ih]
    cases next? a with
    | none => rfl
    | some here =>
      cases gather? next? list with
      | none => rfl
      | some between => cases gather? next? later <;> simp

theorem gather?_gather? (list : List α) :
    gather? (fun a => (next? a).bind (gather? next'?)) list =
      (gather? next? list).bind (gather? next'?) := by
  induction list with
  | nil => rfl
  | cons a list ih =>
    rw [gather?_cons, gather?_cons, ih]
    cases next? a with
    | none => rfl
    | some here =>
      cases gather? next? list with
      | none => simp
      | some between => simp only [Option.bind_some, Option.map_some, gather?_append]

end Gather

def Relation.along (start : Kind) : List Kind → List Relation
  | [] => []
  | next :: rest => ⟨start, next⟩ :: along next rest

namespace Metadata

def advance? (metadata : Metadata) (relation : Relation) (identities : List Identity) :
    Option (List Identity) := gather? (metadata.neighbors? relation) identities

/-- The identities to which a path leads, one for each way along it. -/
def follow? (metadata : Metadata) : Kind → List Kind → List Identity → Option (List Identity)
  | _, [], identities => some identities
  | kind, next :: rest, identities =>
    (metadata.advance? ⟨kind, next⟩ identities).bind (metadata.follow? next rest)

end Metadata

/-- A step from slots to slots that is a step between identities under the permutations at its
ends. It is defined for every slot in use and ends in slots in use. -/
structure Tracks (source target : Permutation) (step? : Slot → Option (List Slot))
    (advance? : List Identity → Option (List Identity)) (next : Slot → List Slot) : Prop where
  step : ∀ {slot : Slot}, slot.toNat < source.size → step? slot = some (next slot)
  closed : ∀ {slot : Slot}, slot.toNat < source.size →
    ∀ reached ∈ next slot, reached.toNat < target.size
  advance : ∀ slots : List Slot, (∀ slot ∈ slots, slot.toNat < source.size) →
    advance? (slots.map source.identityOf) = some ((slots.flatMap next).map target.identityOf)

namespace Tracks

variable {source middle target : Permutation} {step? step'? : Slot → Option (List Slot)}
  {advance? advance'? : List Identity → Option (List Identity)} {next next' : Slot → List Slot}

theorem stay (permutation : Permutation) :
    Tracks permutation permutation (fun slot => some [slot]) some (fun slot => [slot]) where
  step _ := rfl
  closed hslot reached hreached := by rwa [List.mem_singleton.mp hreached]
  advance slots _ := by rw [List.flatMap_singleton']

theorem trans (h : Tracks source middle step? advance? next)
    (h' : Tracks middle target step'? advance'? next') :
    Tracks source target (fun slot => (step? slot).bind (gather? step'?))
      (fun identities => (advance? identities).bind advance'?)
      (fun slot => (next slot).flatMap next') where
  step := by
    intro slot hslot
    rw [h.step hslot, Option.bind_some]
    exact gather?_of_total fun reached hreached => h'.step (h.closed hslot reached hreached)
  closed := by
    intro slot hslot reached hreached
    obtain ⟨between, hbetween, hreached⟩ := List.mem_flatMap.mp hreached
    exact h'.closed (h.closed hslot between hbetween) reached hreached
  advance := by
    intro slots hslots
    have hnext : ∀ reached ∈ slots.flatMap next, reached.toNat < middle.size := by
      intro reached hreached
      obtain ⟨slot, hslot, hreached⟩ := List.mem_flatMap.mp hreached
      exact h.closed (hslots slot hslot) reached hreached
    rw [h.advance slots hslots, Option.bind_some, h'.advance _ hnext, List.flatMap_assoc]

theorem of_slot (h : Tracks source target step? advance? next) (htarget : target.Lawful)
    {slot : Slot} (hslot : slot.toNat < source.size) :
    ∃ identities, (next slot).mapM target.identityOf? = some identities ∧
      advance? [source.identityOf slot] = some identities := by
  refine ⟨(next slot).map target.identityOf, ?_, ?_⟩
  · exact mapM_eq_some_map _ fun reached hreached =>
      htarget.identityOf?_eq (h.closed hslot reached hreached)
  · have := h.advance [slot] (by simpa using hslot)
    rwa [List.map_singleton, List.flatMap_singleton] at this

end Tracks

namespace Mesh

variable {mesh : Mesh}

theorem Laid.hop_tracks (h : mesh.Laid) {relation : Relation} {incidence : Incidence}
    (hlinked : mesh.incidence relation = .ok incidence) : ∃ next,
      Tracks incidence.source incidence.target incidence.neighborSlots?
        (mesh.metadata.advance? relation) next := by
  obtain ⟨-, -, -, rows, hadjacency, hholds⟩ := h.incidences hlinked
  let row (identity : Identity) : List Identity := rows.getD identity.toNat []
  refine ⟨fun slot => (row (incidence.source.identityOf slot)).map incidence.target.slotOf,
    hholds.neighborSlots?_eq, ?_, ?_⟩
  · intro slot _ reached hreached
    obtain ⟨identity, hidentity, rfl⟩ := List.mem_map.mp hreached
    exact hholds.target.slotOf_lt (Adjacency.entry_lt hholds.packable hidentity)
  · intro slots hslots
    have hrows : ∀ identity ∈ slots.map incidence.source.identityOf,
        mesh.metadata.neighbors? relation identity = some (row identity) := by
      intro identity hidentity
      obtain ⟨slot, hslot, rfl⟩ := List.mem_map.mp hidentity
      simp only [Metadata.neighbors?, hadjacency]
      rw [Adjacency.pack_row? _ _ hholds.packable.entries_lt]
      exact Adjacency.getD_eq (hholds.rows_length ▸ hholds.source.identityOf_lt (hslots slot hslot))
    have hback : ∀ identity, ((row identity).map incidence.target.slotOf).map
        incidence.target.identityOf = row identity := by
      intro identity
      rw [List.map_map]
      refine (List.map_congr_left fun entry hentry => ?_).trans (List.map_id _)
      exact hholds.target.identityOf_slotOf' (Adjacency.entry_lt hholds.packable hentry)
    rw [Metadata.advance?, gather?_of_total hrows, List.map_flatMap]
    simp only [hback, List.flatMap_map]

end Mesh

namespace Traversal

variable {mesh : Mesh}

theorem hopsOf_unlinked {start : Kind} {path : List Kind} {relation : Relation}
    (h : (Relation.along start path).find? (fun relation => !(mesh.tables.get relation).isSome) =
      some relation) : hopsOf mesh start path = .error (.unlinked relation) := by
  induction path generalizing start with
  | nil => cases h
  | cons next rest ih =>
    rw [hopsOf, Mesh.incidence]
    rw [Relation.along, List.find?_cons] at h
    cases htable : mesh.tables.get ⟨start, next⟩ with
    | none =>
      rw [htable] at h
      cases h
      rfl
    | some incidence =>
      rw [htable] at h
      simp only [ok_bind, ih h, error_bind]

theorem hopsOf_linked {start : Kind} {path : List Kind}
    (h : ∀ relation ∈ Relation.along start path, (mesh.tables.get relation).isSome = true) :
    ∃ hops, hopsOf mesh start path = .ok hops := by
  induction path generalizing start with
  | nil => exact ⟨[], rfl⟩
  | cons next rest ih =>
    obtain ⟨hfirst, hrest⟩ := List.forall_mem_cons.mp h
    obtain ⟨incidence, hincidence⟩ := Option.isSome_iff_exists.mp hfirst
    obtain ⟨hops, hhops⟩ := ih hrest
    refine ⟨incidence :: hops, ?_⟩
    rw [hopsOf, Mesh.incidence_eq_ok.mpr hincidence, ok_bind, hhops]
    rfl

theorem hopsOf_cons {start next : Kind} {rest : List Kind} {hops : List Incidence} :
    hopsOf mesh start (next :: rest) = .ok hops ↔ ∃ hop later,
      mesh.incidence ⟨start, next⟩ = .ok hop ∧ hopsOf mesh next rest = .ok later ∧
        hops = hop :: later := by
  rw [hopsOf]
  constructor
  · intro h
    obtain ⟨hop, hhop, h⟩ := bind_eq_ok.mp h
    obtain ⟨later, hlater, h⟩ := bind_eq_ok.mp h
    cases h
    exact ⟨hop, later, hhop, hlater, rfl⟩
  · rintro ⟨hop, later, hhop, hlater, rfl⟩
    rw [hhop, ok_bind, hlater]
    rfl

theorem hopsOf_append {start : Kind} {path further : List Kind} {hops later : List Incidence}
    (hpath : hopsOf mesh start path = .ok hops)
    (hfurther : hopsOf mesh (path.getLastD start) further = .ok later) :
    hopsOf mesh start (path ++ further) = .ok (hops ++ later) := by
  induction path generalizing start hops with
  | nil =>
    cases hpath
    exact hfurther
  | cons next rest ih =>
    obtain ⟨hop, between, hhop, hrest, rfl⟩ := hopsOf_cons.mp hpath
    rw [List.getLastD_cons] at hfurther
    exact hopsOf_cons.mpr ⟨hop, _, hhop, ih hrest hfurther, rfl⟩

theorem endpointKind_eq (h : mesh.Laid) {start : Kind} {path : List Kind} {hops : List Incidence}
    (hhops : hopsOf mesh start path = .ok hops) :
    (Traversal.mk start hops).endpointKind = path.getLastD start := by
  induction path generalizing start hops with
  | nil =>
    cases hhops
    rfl
  | cons next rest ih =>
    obtain ⟨hop, later, hhop, hrest, rfl⟩ := hopsOf_cons.mp hhops
    rw [List.getLastD_cons, ← ih hrest]
    cases later with
    | nil => exact congrArg Relation.target (h.incidences hhop).1
    | cons second later =>
      simp only [endpointKind, List.getLast?_cons_cons,
        List.getLast?_eq_some_getLast (List.cons_ne_nil second later)]

/-- Walking along the hops of a path is following the path. -/
theorem hopsOf_tracks (h : mesh.Laid) {start : Kind} {path : List Kind} {hops : List Incidence}
    (hhops : hopsOf mesh start path = .ok hops) {source : Permutation}
    (hsource : mesh.permutation start = .ok source) : ∃ target next,
      mesh.permutation (path.getLastD start) = .ok target ∧
        Tracks source target (walk? hops) (mesh.metadata.follow? start path) next := by
  induction path generalizing start hops source with
  | nil =>
    cases hhops
    exact ⟨source, _, hsource, .stay source⟩
  | cons kind rest ih =>
    obtain ⟨hop, later, hhop, hrest, rfl⟩ := hopsOf_cons.mp hhops
    obtain ⟨-, hfrom, hto, -⟩ := h.incidences hhop
    -- The far end of a hop has the permutation of the near end of the next, so the two compose.
    obtain rfl := Except.ok.inj (hsource.symm.trans hfrom)
    obtain ⟨first, hfirst⟩ := h.hop_tracks hhop
    obtain ⟨target, next, htarget, hnext⟩ := ih hrest hto
    rw [List.getLastD_cons]
    exact ⟨target, _, htarget, hfirst.trans hnext⟩

theorem walk?_cons (hop : Incidence) (rest : List Incidence) (slot : Slot) :
    walk? (hop :: rest) slot = (hop.neighborSlots? slot).bind (gather? (walk? rest)) := rfl

theorem walk?_append (hops further : List Incidence) (slot : Slot) :
    walk? (hops ++ further) slot = (walk? hops slot).bind (gather? (walk? further)) := by
  induction hops generalizing slot with
  | nil =>
    rw [List.nil_append, walk?, Option.bind_some, gather?_cons]
    cases walk? further slot <;> simp [gather?]
  | cons hop rest ih =>
    -- The walk along the rest is an argument of `gather?`, so it is rewritten as a function.
    have hrest : walk? (rest ++ further) =
        fun slot => (walk? rest slot).bind (gather? (walk? further)) := by
      ext1 slot
      exact ih slot
    rw [List.cons_append, walk?_cons, walk?_cons, Option.bind_assoc, hrest]
    exact congrArg _ (funext fun next => gather?_gather? next)

def nested? (traversal : Traversal) : Nat → Nat → Slot → Option (List Slot)
  | _, 0, slot => some [slot]
  | hop, depth + 1, slot =>
    ((traversal.step? hop slot).bind Neighbors.slots?).bind
      (gather? (traversal.nested? (hop + 1) depth))

theorem nested?_eq (traversal : Traversal) (hop depth : Nat)
    (h : hop + depth = traversal.hops.length) :
    traversal.nested? hop depth = walk? (traversal.hops.drop hop) := by
  induction depth generalizing hop with
  | zero =>
    rw [List.drop_eq_nil_of_le (by omega)]
    rfl
  | succ depth ih =>
    have hlt : hop < traversal.hops.length := by omega
    ext1 slot
    rw [List.drop_eq_getElem_cons hlt, walk?_cons, nested?, ih (hop + 1) (by omega), step?,
      List.getElem?_eq_getElem hlt]
    rfl

theorem compile_eq_ok {start : Kind} {path : List Kind} {traversal : Traversal} :
    compile mesh start path = .ok traversal ↔
      path ≠ [] ∧ ∃ hops, hopsOf mesh start path = .ok hops ∧ traversal = ⟨start, hops⟩ := by
  rw [compile, Checked.require_bind_eq_ok, bind_eq_ok]
  simp only [pure_eq_ok, Except.ok.injEq, eq_comm]

theorem compile_unlinked {start : Kind} {path : List Kind} {relation : Relation}
    (h : (Relation.along start path).find? (fun relation => !(mesh.tables.get relation).isSome) =
      some relation) : compile mesh start path = .error (.unlinked relation) := by
  have hpath : path ≠ [] := by
    rintro rfl
    cases h
  rw [compile, Checked.require_of _ hpath, ok_bind, hopsOf_unlinked h, error_bind]

/-- Compiling a path succeeds exactly if it is not empty and each of its relations is linked, and
the error names the first that is not. A compiled traversal then has an answer for every slot in
use: by identity, what the description gives if every identity is replaced by its row, hop by hop.
Traversals of two paths that meet are put together by gathering, and nested loops over the steps
visit the same ends. -/
theorem compile_follows_rows {draft : Draft} {metadata : Metadata} {blueprint : Blueprint}
    {mesh : Mesh} (accepted : draft.validate = .ok metadata) (countable : metadata.Countable)
    (built : (blueprint.build metadata).2 = .ok mesh) (start : Kind) :
    compile mesh start [] = .error (.config (.emptyPath start)) ∧
    (∀ path relation, (Relation.along start path).find?
        (fun relation => !blueprint.links.get relation) = some relation →
      compile mesh start path = .error (.unlinked relation)) ∧
    (∀ path, path ≠ [] →
      (∀ relation ∈ Relation.along start path, blueprint.links.get relation = true) →
      ∃ traversal source target, compile mesh start path = .ok traversal ∧
        traversal.endpointKind = path.getLastD start ∧ mesh.permutation start = .ok source ∧
        mesh.permutation traversal.endpointKind = .ok target ∧
        ∀ slot : Slot, slot.toNat < source.size → ∃ identity ends identities,
          source.identityOf? slot = some identity ∧ traversal.endpoints? slot = some ends ∧
          ends.mapM target.identityOf? = some identities ∧
          metadata.follow? start path [identity] = some identities) ∧
    ∀ path traversal, compile mesh start path = .ok traversal →
      (∀ slot, traversal.nested? 0 traversal.hops.length slot = traversal.endpoints? slot) ∧
      ∀ further second, compile mesh traversal.endpointKind further = .ok second →
        ∃ whole, compile mesh start (path ++ further) = .ok whole ∧ ∀ slot,
          whole.endpoints? slot = (traversal.endpoints? slot).bind (gather? second.endpoints?) := by
  rw [Blueprint.build_eq] at built
  have hlaid := Blueprint.assemble_laid (Draft.validate_valid accepted) countable built
  have hlinked := Blueprint.assemble_linked built
  have hmetadata : mesh.metadata = metadata := by
    obtain ⟨-, _, _, _, -, -, -, rfl⟩ := Blueprint.assemble_eq_ok.mp built
    rfl
  refine ⟨rfl, fun path relation h => ?_, fun path hpath hlinks => ?_, fun path traversal h => ?_⟩
  · simp only [← hlinked] at h
    exact compile_unlinked h
  · simp only [← hlinked] at hlinks
    obtain ⟨hops, hhops⟩ := hopsOf_linked hlinks
    have hend := endpointKind_eq hlaid hhops
    obtain ⟨source, hsource⟩ : ∃ source, mesh.permutation start = .ok source := by
      cases path with
      | nil => exact absurd rfl hpath
      | cons next rest =>
        obtain ⟨hop, _, hhop, -, -⟩ := hopsOf_cons.mp hhops
        exact ⟨hop.source, (hlaid.incidences hhop).2.1⟩
    obtain ⟨target, next, htarget, htracks⟩ := hopsOf_tracks hlaid hhops hsource
    refine ⟨⟨start, hops⟩, source, target, compile_eq_ok.mpr ⟨hpath, hops, hhops, rfl⟩, hend,
      hsource, hend ▸ htarget, fun slot hslot => ?_⟩
    obtain ⟨identities, hends, hfollow⟩ :=
      htracks.of_slot (hlaid.permutations htarget).1 hslot
    exact ⟨_, _, identities, (hlaid.permutations hsource).1.identityOf?_eq hslot,
      htracks.step hslot, hends, hmetadata ▸ hfollow⟩
  · obtain ⟨hpath, hops, hhops, rfl⟩ := compile_eq_ok.mp h
    constructor
    · intro slot
      rw [nested?_eq _ 0 hops.length (Nat.zero_add _)]
      rfl
    · intro further second hfurther
      obtain ⟨-, later, hlater, rfl⟩ := compile_eq_ok.mp hfurther
      have hwhole := hopsOf_append hhops (endpointKind_eq hlaid hhops ▸ hlater)
      have hne : path ++ further ≠ [] := by simp [hpath]
      exact ⟨_, compile_eq_ok.mpr ⟨hne, _, hwhole, rfl⟩, walk?_append hops later⟩

def loopBlueprint : Blueprint :=
  { pathBlueprint with links := pathBlueprint.links.set ⟨.vertex, .edge⟩ true }

def loopMesh : Mesh :=
  { pathMesh with
    tables := pathMesh.tables.set ⟨.vertex, .edge⟩
      (some ⟨⟨.vertex, .edge⟩, ⟨#[0, 2, 3, 4], #[0, 1, 0, 1], 2⟩, pathVertices, .inPlace 2, {}⟩) }

theorem pathMetadata_adjacency? : pathMetadata.adjacency? ⟨.vertex, .edge⟩ =
    .ok (some ⟨#[0, 1, 3, 4], #[0, 0, 1, 1], 2⟩) := rfl

theorem loopBlueprint_build : (loopBlueprint.build pathMetadata).2 = .ok loopMesh := by
  have hassemble : loopBlueprint.assemble pathMetadata = .ok loopMesh := by
    refine Blueprint.assemble_eq_ok.mpr ⟨rfl, _, loopMesh.sets, loopMesh.tables, path_arrange,
      fun kind => by cases kind <;> rfl, fun relation => ?_, rfl⟩
    by_cases hturned : relation = ⟨.vertex, .edge⟩
    · subst hturned
      simp only [Blueprint.table, pathMetadata_adjacency?]
      rfl
    · obtain ⟨source, target⟩ := relation
      cases source <;> cases target <;> first | exact absurd rfl hturned | rfl
  rw [Blueprint.build, hassemble]

theorem compile_follows_rows_loop : pathDraft.validate = .ok pathMetadata ∧
    pathMetadata.Countable ∧ (loopBlueprint.build pathMetadata).2 = .ok loopMesh ∧
      compile loopMesh .edge [.vertex, .face] = .error (.unlinked ⟨.vertex, .face⟩) ∧
      ∃ traversal ends, compile loopMesh .edge [.vertex, .edge] = .ok traversal ∧
        traversal.endpoints? 1 = some ends ∧
        ends.mapM (Permutation.inPlace 2).identityOf? = some [0, 1, 1] := by
  obtain ⟨-, hunlinked, hlinked, -⟩ := compile_follows_rows pathDraft_accepted
    pathMetadata_countable loopBlueprint_build .edge
  refine ⟨pathDraft_accepted, pathMetadata_countable, loopBlueprint_build,
    hunlinked [.vertex, .face] _ rfl, ?_⟩
  have hlinks : ∀ relation ∈ Relation.along .edge [.vertex, .edge],
      loopBlueprint.links.get relation = true := by decide
  obtain ⟨traversal, source, target, hcompile, hend, hsource, htarget, hslots⟩ :=
    hlinked [.vertex, .edge] (by decide) hlinks
  rw [hend] at htarget
  cases hsource
  cases htarget
  obtain ⟨identity, ends, identities, hidentity, hends, hback, hfollow⟩ := hslots 1 (by decide)
  cases hidentity
  have hrows : pathMetadata.follow? .edge [.vertex, .edge] [1] = some [0, 1, 1] := by
    decide +kernel
  exact ⟨traversal, ends, hcompile, hends, hback.trans (hfollow.symm.trans hrows)⟩

end Traversal

end MeshLayout
