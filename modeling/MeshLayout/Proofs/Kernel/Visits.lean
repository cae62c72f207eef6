import MeshLayout.Proofs.Converse
import MeshLayout.Proofs.Tiling
import MeshLayout.Proofs.Kernel.Frame
import MeshLayout.Proofs.Kernel.Layout

/-!
# The order of visits

A run is a chain of actions, one for each element by ascending slot, each on the memory that the
one before has left. Patch by patch the chain is the same: since the ranges of the patches tile the
slots, no element is left out or met twice, and nothing happens between two elements but that at
the end of a patch its ledgers are settled.
-/

set_option autoImplicit false

namespace MeshLayout

variable {α : Type} {kernel : Kernel} {body : Element → Action α}

namespace Kernel

def elementsAt (kernel : Kernel) (slots : List Nat) : List Element :=
  slots.map fun slot => kernel.element slot.toUInt32

def closes (kernel : Kernel) (slot : Nat) : Bool :=
  (kernel.ranges.getD []).any (·.stop == slot + 1)

/-- The memory for the next slot. At the end of a patch its ledgers are settled, and the next patch
gets new ones. -/
def handOn (kernel : Kernel) (slot : Nat) (memory : Memory) : Outcome Memory :=
  if kernel.closes slot then do
    let settled ← settle (kernel.ledgers memory) memory.workspace
    return ⟨settled, memory.staged, some kernel.emptyLedgers⟩
  else .ok memory

/-- Runs the body once for each slot of a list, one after the other. -/
def chain (kernel : Kernel) (body : Element → Action α) :
    List Nat → Memory → Outcome (List α × Memory)
  | [], memory => .ok ([], memory)
  | slot :: rest, memory => do
    let (result, memory) ← (body (kernel.element slot.toUInt32)).run kernel memory
    let memory ← kernel.handOn slot memory
    let (results, memory) ← kernel.chain body rest memory
    return (result :: results, memory)

def opened (kernel : Kernel) (workspace : Workspace) : Memory :=
  ⟨workspace, kernel.copies workspace, kernel.ranges.map fun _ => kernel.emptyLedgers⟩

/-- The workspace after the last slot. Copies that were added to as a whole are stored back. -/
def closed (kernel : Kernel) (memory : Memory) : Outcome Workspace :=
  if kernel.runsPerPatch then .ok memory.workspace
  else kernel.storeBack memory.staged kernel.plan.entries memory.workspace

def chained (kernel : Kernel) (body : Element → Action α) (slots : List Nat)
    (workspace : Workspace) : Outcome (List α × Workspace) := do
  let (results, memory) ← kernel.chain body slots (kernel.opened workspace)
  return (results, ← kernel.closed memory)

theorem chain_append (body : Element → Action α) (first second : List Nat) (memory : Memory) :
    kernel.chain body (first ++ second) memory =
      kernel.chain body first memory >>= fun here =>
        kernel.chain body second here.2 >>= fun later => .ok (here.1 ++ later.1, later.2) := by
  induction first generalizing memory with
  | nil =>
    simp only [List.nil_append, chain, ok_bind]
    cases kernel.chain body second memory <;> rfl
  | cons slot rest ih =>
    simp only [List.cons_append, chain, ih]
    cases (body (kernel.element slot.toUInt32)).run kernel memory with
    | error failure => rfl
    | ok here =>
      simp only [ok_bind]
      cases kernel.handOn slot here.2 with
      | error failure => rfl
      | ok memory =>
        simp only [ok_bind]
        cases kernel.chain body rest memory with
        | error failure => rfl
        | ok later =>
          simp only [ok_bind, pure_eq_ok]
          cases kernel.chain body second later.2 <;> rfl

theorem chain_open {slots : List Nat} (hopen : ∀ slot ∈ slots, kernel.closes slot = false)
    (memory : Memory) : kernel.chain body slots memory = kernel.visit body slots memory := by
  induction slots generalizing memory with
  | nil => rfl
  | cons slot rest ih =>
    obtain ⟨hhere, hrest⟩ := List.forall_mem_cons.mp hopen
    rw [chain, visit]
    congr 1
    funext here
    simp only [handOn, hhere, Bool.false_eq_true, if_false, ok_bind, ih hrest]

theorem chain_patch {before : List Nat} {last : Nat}
    (hopen : ∀ slot ∈ before, kernel.closes slot = false) (hlast : kernel.closes last = true)
    (memory : Memory) : kernel.chain body (before ++ [last]) memory =
      kernel.visit body (before ++ [last]) memory >>= fun here =>
        settle (kernel.ledgers here.2) here.2.workspace >>= fun settled =>
          .ok (here.1, ⟨settled, here.2.staged, some kernel.emptyLedgers⟩) := by
  rw [chain_append, visit_append, chain_open hopen]
  cases kernel.visit body before memory with
  | error failure => rfl
  | ok here =>
    simp only [ok_bind, chain, visit]
    cases (body (kernel.element last.toUInt32)).run kernel here.2 with
    | error failure => rfl
    | ok ended =>
      simp only [ok_bind, pure_eq_ok, handOn, hlast, if_true]
      cases settle (kernel.ledgers ended.2) ended.2.workspace <;> rfl

theorem visit_staged {slots : List Nat} {memory after : Memory} {results : List α}
    (hledgers : memory.ledgers.isSome = true)
    (hvisit : kernel.visit body slots memory = .ok (results, after)) :
    after.staged = memory.staged := by
  have hkeeps : after.staged = memory.staged ∧ after.ledgers.isSome = true := by
    refine kernel.visit_invariant (P := fun now => now.staged = memory.staged ∧
      now.ledgers.isSome = true) ?_ ?_ body slots ⟨rfl, hledgers⟩ hvisit
    · intro memory after scalar field address component value h hwrite
      obtain ⟨binding, index, -, -, -, hupdate⟩ := Memory.write_eq_ok.mp hwrite
      obtain ⟨old, column, -, -, rfl⟩ := Memory.updateField_eq_ok.mp hupdate
      exact h
    · intro memory after scalar field address component value h hadd
      obtain ⟨binding, index, -, -, -, ⟨-, hupdate⟩ | ⟨ledgers, -, -, rfl⟩ |
        ⟨column, copy, hnone, -⟩⟩ := Memory.accumulate_cases hadd
      · obtain ⟨old, column, -, -, rfl⟩ := Memory.updateField_eq_ok.mp hupdate
        exact h
      · exact ⟨h.1, rfl⟩
      · rw [hnone] at h
        cases h.2
  exact hkeeps.1

theorem visitPatches_eq_chain (body : Element → Action α) {ranges : List PatchRange}
    (hfilled : ∀ range ∈ ranges, range.start < range.stop)
    (hcloses : ∀ range ∈ ranges, ∀ slot ∈ range.slots,
      kernel.closes slot = true ↔ slot + 1 = range.stop)
    (staged : Array (Option Column)) (workspace : Workspace) :
    kernel.visitPatches body staged ranges workspace =
      kernel.chain body (ranges.flatMap PatchRange.slots)
          ⟨workspace, staged, some kernel.emptyLedgers⟩ >>= fun ended =>
        .ok (ended.1, ended.2.workspace) := by
  induction ranges generalizing workspace with
  | nil => rfl
  | cons range rest ih =>
    obtain ⟨hhere, hrest⟩ := List.forall_mem_cons.mp hfilled
    obtain ⟨hends, hlater⟩ := List.forall_mem_cons.mp hcloses
    have hslots := PatchRange.slots_eq hhere
    have hlast : kernel.closes (range.stop - 1) = true :=
      (hends _ (PatchRange.mem_slots.mpr (by omega))).mpr (by omega)
    have hopen : ∀ slot ∈ List.range' range.start (range.size - 1), kernel.closes slot = false := by
      intro slot hslot
      rw [List.mem_range'_1, PatchRange.size] at hslot
      rw [Bool.eq_false_iff, ne_eq, hends _ (PatchRange.mem_slots.mpr (by omega))]
      omega
    rw [List.flatMap_cons, chain_append, hslots, chain_patch hopen hlast, ← hslots, visitPatches]
    change kernel.visit body range.slots _ >>= _ = _
    cases hvisit : kernel.visit body range.slots ⟨workspace, staged, some kernel.emptyLedgers⟩ with
    | error failure => rfl
    | ok here =>
      have hstaged : here.2.staged = staged := visit_staged rfl hvisit
      simp only [ok_bind, hstaged]
      change settle (kernel.ledgers here.2) here.2.workspace >>= _ = _
      cases settle (kernel.ledgers here.2) here.2.workspace with
      | error failure => rfl
      | ok settled =>
        simp only [ok_bind, ih hrest hlater]
        cases kernel.chain body (rest.flatMap PatchRange.slots)
          ⟨settled, staged, some kernel.emptyLedgers⟩ <;> rfl

theorem run_eq_chained {count : Nat} (hsize : kernel.permutation.size % UInt32.size = count)
    (htiles : ∀ ranges, kernel.ranges = some ranges → PatchRange.Tiles ranges 0 count ∧
      ranges.flatMap PatchRange.slots = List.range count)
    (body : Element → Action α) (workspace : Workspace) :
    kernel.run body workspace = kernel.chained body (List.range count) workspace := by
  unfold Kernel.run chained opened closed runsPerPatch
  cases hranges : kernel.ranges with
  | none =>
    have hopen : ∀ slot ∈ List.range count, kernel.closes slot = false := by
      intro slot _
      rw [closes, hranges]
      rfl
    simp only [hsize, chain_open hopen]
    rfl
  | some ranges =>
    obtain ⟨htiled, hslots⟩ := htiles ranges hranges
    have hcloses : ∀ range ∈ ranges, ∀ slot ∈ range.slots,
        kernel.closes slot = true ↔ slot + 1 = range.stop := by
      intro range hrange slot hslot
      rw [closes, hranges, Option.getD_some, List.any_eq_true]
      constructor
      · rintro ⟨other, hother, hstop⟩
        exact htiled.stop_eq hrange hother hslot (beq_iff_eq.mp hstop)
      · intro hstop
        exact ⟨range, hrange, beq_iff_eq.mpr hstop.symm⟩
    have hpatches := visitPatches_eq_chain body
      (fun range hrange => (htiled.start_le range hrange).2) hcloses
      (kernel.copies workspace) workspace
    rw [hslots] at hpatches
    exact hpatches

end Kernel

namespace Mesh

theorem Laid.patchOf_eq {mesh : Mesh} (h : mesh.Laid) {kind : Kind} {permutation : Permutation}
    {partition : Partition} (hkind : mesh.permutation kind = .ok permutation)
    (hpartition : mesh.patchIndex.partition kind = .ok partition)
    (hindex : kernel.patchIndex = mesh.patchIndex) {slot : Slot}
    (hslot : slot.toNat < permutation.size) : ∃ identity patch,
      permutation.identityOf? slot = some identity ∧
        mesh.metadata.patchOf? kind identity = some patch ∧
        kernel.patchOf ⟨kind, slot, permutation⟩ = .ok patch := by
  obtain ⟨hlawful, hcount⟩ := h.permutations hkind
  obtain ⟨patches, hpatches, hsize⟩ := h.valid.patches hcount
  have hidentity := hlawful.identityOf?_eq hslot
  have hlt : (permutation.identityOf slot).toNat < patches.size :=
    hsize ▸ hlawful.identityOf_lt hslot
  have hpatch : mesh.metadata.patchOf? kind (permutation.identityOf slot) =
      some patches[(permutation.identityOf slot).toNat] := by
    rw [Metadata.patchOf?, hpatches]
    exact Array.getElem?_eq_getElem hlt
  refine ⟨_, _, hidentity, hpatch, ?_⟩
  have hthere : (Element.mk kind slot permutation).identity?.bind partition.patchOf? =
      some patches[(permutation.identityOf slot).toNat] := by
    rw [Element.identity?, hidentity, Option.bind_some, ← h.patchOf?_eq hkind hpartition, hpatch]
  simp only [Kernel.patchOf, hindex, hpartition, hthere]

end Mesh

/-- In a mesh that is stored patch by patch the ranges of each kind tile its slots by ascending
patch. A run of a kernel of the mesh, patch by patch or not, is a chain that takes the elements one
after the other in the order in which the mesh lists them. For every element of the mesh the kernel
reports the patch that the description gives to its identity. -/
theorem Blueprint.contiguous_build_tiles {blueprint : Blueprint} {draft : Draft}
    {metadata : Metadata} {mesh : Mesh} (accepted : draft.validate = .ok metadata)
    (countable : metadata.Countable) (contiguous : blueprint.config.patchContiguous = true)
    (built : (blueprint.build metadata).2 = .ok mesh) :
    (∀ kind ∈ mesh.kinds, ∃ permutation partition ranges,
      mesh.permutation kind = .ok permutation ∧ mesh.patchIndex.partition kind = .ok partition ∧
      partition.ranges = some ranges ∧ metadata.Tiled kind permutation ranges) ∧
    ∀ {workspace : Workspace} {declared : KernelDraft} {config : Config} {kernel : Kernel},
      declared.Declared workspace → mesh.SameLayout declared.mesh →
      declared.compile config = .ok kernel →
      (∃ count, metadata.count? kernel.kind = some count ∧
        mesh.iterate kernel.kind = .ok (kernel.elementsAt (List.range count)) ∧
        ∀ {α : Type} (body : Element → Action α),
          kernel.run body workspace = kernel.chained body (List.range count) workspace) ∧
      ∀ kind ∈ mesh.kinds, ∃ elements, mesh.iterate kind = .ok elements ∧
        ∀ element ∈ elements, ∃ identity patch, element.identity? = some identity ∧
          metadata.patchOf? kind identity = some patch ∧ kernel.patchOf element = .ok patch := by
  have hvalid := Draft.validate_valid accepted
  have hlaid := build_laid hvalid countable built
  obtain rfl := build_metadata built
  refine ⟨fun kind hkind => ?_, fun {workspace declared config kernel} hdeclared hlayout hcompile =>
    ⟨?_, fun kind hkind => ?_⟩⟩
  · obtain ⟨permutation, hthere⟩ := Mesh.exists_permutation hkind
    obtain ⟨partition, ranges, hpartition, hranges, htiles⟩ :=
      build_tiled hvalid countable contiguous built hthere
    exact ⟨permutation, partition, ranges, hthere, hpartition, hranges, htiles⟩
  · obtain ⟨-, -, hthere, hkind, hindex, -, -, kept, hkept, hruns⟩ :=
      KernelDraft.compile_eq_ok hcompile
    obtain ⟨-, -, hsize⟩ := KernelDraft.compile_size hdeclared.bound hcompile
    rw [hlayout.permutation, ← hkind] at hthere
    have hcount := (hlaid.permutations hthere).2
    refine ⟨_, hcount, ?_, fun body => Kernel.run_eq_chained hsize (fun ranges hranges => ?_) body
      workspace⟩
    · rw [Mesh.iterate_eq hthere, hsize]
      rfl
    · obtain ⟨partition, there, hpartition, hparts, htiled⟩ :=
        build_tiled hvalid countable contiguous built hthere
      obtain ⟨count, hsame, htiles⟩ := htiled.tiles
      rw [hcount] at hsame
      cases hsame
      rw [hlayout.patchIndex, ← hkind, hpartition] at hkept
      cases hkept
      rw [hranges] at hruns
      split at hruns
      · rw [hparts] at hruns
        cases hruns
        exact ⟨htiles, KernelDraft.compile_ranges hdeclared.bound hcompile hranges⟩
      · cases hruns
  · obtain ⟨permutation, hthere⟩ := Mesh.exists_permutation hkind
    obtain ⟨partition, ranges, hpartition, -⟩ :=
      build_tiled hvalid countable contiguous built hthere
    obtain ⟨-, -, -, -, hindex, -⟩ := KernelDraft.compile_eq_ok hcompile
    rw [hlayout.patchIndex] at hindex
    refine ⟨_, Mesh.iterate_eq hthere, fun element helement => ?_⟩
    obtain ⟨slot, hslot, rfl⟩ := List.mem_map.mp helement
    have hcount := (hlaid.permutations hthere).2
    rw [Nat.mod_eq_of_lt (countable _ _ hcount), List.mem_range] at hslot
    exact hlaid.patchOf_eq hthere hpartition hindex
      (by rwa [toNat_toUInt32 (Nat.lt_trans hslot (countable _ _ hcount))])

theorem contiguous_build_tiles_path :
    pathDraft.validate = .ok pathMetadata ∧ pathMetadata.Countable ∧
    pathBlueprint.config.patchContiguous = true ∧
    (pathBlueprint.build pathMetadata).2 = .ok pathMesh ∧
    pathMetadata.Tiled .vertex pathVertices [⟨0, 0, 1⟩, ⟨1, 1, 3⟩] ∧
    raiseDraft.Declared pathWorkspace ∧ pathMesh.SameLayout raiseDraft.mesh ∧
    raiseDraft.compile { patchContiguous := true } = .ok raiseKernel ∧
    raiseKernel.runsPerPatch = true ∧
    raiseKernel.run raiseBody pathWorkspace =
      raiseKernel.chained raiseBody [0, 1, 2] pathWorkspace ∧
    (raiseKernel.run (fun element => .done element.identity?) pathWorkspace).map Prod.fst =
      .ok [some 1, some 0, some 2] ∧
    ∃ patch, raiseKernel.patchOf ⟨.vertex, 0, pathVertices⟩ = .ok patch ∧
      pathMetadata.patchOf? .vertex 1 = some patch := by
  have hbuilt : (pathBlueprint.build pathMetadata).2 = .ok pathMesh :=
    congrArg Prod.snd pathBlueprint_build
  have hcompile : raiseDraft.compile { patchContiguous := true } = .ok raiseKernel := rfl
  have hlayout : pathMesh.SameLayout raiseDraft.mesh := .refl pathMesh
  have hvertex : Kind.vertex ∈ pathMesh.kinds := by decide
  obtain ⟨htiled, hkernels⟩ := Blueprint.contiguous_build_tiles pathDraft_accepted
    pathMetadata_countable rfl hbuilt
  obtain ⟨permutation, partition, ranges, hpermutation, hpartition, hranges, htiles⟩ :=
    htiled .vertex hvertex
  cases hpermutation
  cases hpartition
  cases hranges
  obtain ⟨⟨count, hcount, -, hchained⟩, hpatches⟩ :=
    hkernels raiseDraft_declared hlayout hcompile
  cases hcount
  obtain ⟨elements, helements, hall⟩ := hpatches .vertex hvertex
  cases helements
  obtain ⟨identity, patch, hidentity, hgiven, hpatch⟩ :=
    hall ⟨.vertex, 0, pathVertices⟩ List.mem_cons_self
  cases hidentity
  refine ⟨pathDraft_accepted, pathMetadata_countable, rfl, hbuilt, htiles, raiseDraft_declared,
    hlayout, hcompile, rfl, hchained raiseBody, ?_, patch, hpatch, hgiven⟩
  rw [hchained]
  decide +kernel

end MeshLayout
