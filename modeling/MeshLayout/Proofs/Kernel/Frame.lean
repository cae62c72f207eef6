import MeshLayout.Proofs.Kernel.Logged
import MeshLayout.Proofs.Kernel.Patches

/-!
# The frame of a run

A run changes nothing but cells that its body asks to change, in fields that the kernel declares
to change. Copies are stored back whole and ledgers are settled patch by patch, but a copy differs
from its field, and a ledger has entries, at such cells only.
-/

set_option autoImplicit false

namespace MeshLayout

variable {α : Type}

namespace Mesh

/-- Meshes that differ at most in the values of their fields. -/
structure SameLayout (mesh other : Mesh) : Prop where
  metadata : other.metadata = mesh.metadata
  topology : other.topology = mesh.topology
  config : other.config = mesh.config
  permutation : other.permutation = mesh.permutation
  tables : other.tables = mesh.tables
  patchIndex : other.patchIndex = mesh.patchIndex

theorem SameLayout.refl (mesh : Mesh) : mesh.SameLayout mesh := ⟨rfl, rfl, rfl, rfl, rfl, rfl⟩

theorem SameLayout.store {mesh other : Mesh} (h : mesh.SameLayout other) (kind : Kind)
    (name : String) (column : Column) : mesh.SameLayout (other.store kind name column) :=
  ⟨h.metadata, h.topology, h.config, (store_permutation other kind name column).trans h.permutation,
    h.tables, h.patchIndex⟩

end Mesh

namespace Kernel

def Changes (kernel : Kernel) (location : Location) : Prop :=
  ∃ (i : Nat) (binding : Binding), kernel.bindings[i]? = some binding ∧ binding.access ≠ .read ∧
    binding.location = location

def Touches (kernel : Kernel) (request : Request) (location : Location) (index : Nat) : Prop :=
  request.access ≠ .read ∧ ∃ binding, kernel.bindings[request.binding]? = some binding ∧
    binding.location = location ∧
    binding.cellIndex request.address request.component = .ok index

def Addresses (kernel : Kernel) (requests : List Request) (location : Location) (index : Nat) :
    Prop := ∃ request ∈ requests, kernel.Touches request location index

def Covers (kernel : Kernel) (cells : Location → Nat → Prop) (requests : List Request) : Prop :=
  ∀ request ∈ requests, ∀ location index, kernel.Touches request location index →
    cells location index

def CopiesWithin (kernel : Kernel) (cells : Location → Nat → Prop) (initial : Workspace)
    (staged : Array (Option Column)) : Prop :=
  ∀ (i : Nat) (binding : Binding) (column : Column), kernel.bindings[i]? = some binding →
    (staged[i]?).join = some column → ∀ index, ¬cells binding.location index →
      column.cell? index = initial.cell? binding.location index

end Kernel

variable {kernel : Kernel} {cells : Location → Nat → Prop} {initial workspace after : Workspace}

namespace Workspace

/-- The workspaces that come of one when cells of fields that the kernel changes are given other
values. -/
inductive Framed (kernel : Kernel) (cells : Location → Nat → Prop) (initial : Workspace) :
    Workspace → Prop
  | refl : Framed kernel cells initial initial
  | store {workspace : Workspace} {location : Location} {old column : Column}
      (h : Framed kernel cells initial workspace) (hchanges : kernel.Changes location)
      (hold : workspace.column? location = some old) (hshape : column.shape = old.shape)
      (hcells : ∀ index, ¬cells location index → column.cell? index = old.cell? index) :
      Framed kernel cells initial (workspace.withColumn location column)

namespace Framed

theorem field? (h : Framed kernel cells initial workspace) {location : Location}
    (hnot : ¬kernel.Changes location) : workspace.field? location = initial.field? location := by
  induction h with
  | refl => rfl
  | @store workspace other old column _ hchanges _ _ _ ih =>
    have hne : location ≠ other := by
      rintro rfl
      exact hnot hchanges
    simpa only [field?_withColumn, if_neg hne, Option.map_id'] using ih

theorem cell? (h : Framed kernel cells initial workspace) {location : Location} {index : Nat}
    (hnot : ¬cells location index) :
    workspace.cell? location index = initial.cell? location index := by
  induction h with
  | refl => rfl
  | @store workspace other old column _ _ hold hshape hcells ih =>
    rw [← ih, Workspace.cell?, column?_withColumn hold hshape]
    split
    · next heq =>
      subst heq
      rw [Workspace.cell?, hold, Option.bind_some, Option.bind_some, hcells index hnot]
    · rfl

theorem mesh (h : Framed kernel cells initial workspace) {place : Nat}
    (hnot : ∀ kind name, ¬kernel.Changes (.ofMesh place kind name)) :
    workspace.meshes[place]? = initial.meshes[place]? := by
  induction h with
  | refl => rfl
  | @store workspace location old column _ hchanges _ _ _ ih =>
    rw [← ih]
    cases location with
    | ofLoose position => rfl
    | ofMesh other kind name =>
      have hne : other ≠ place := by
        rintro rfl
        exact hnot kind name hchanges
      rw [withColumn, Array.getElem?_modify, if_neg hne]

theorem layout (h : Framed kernel cells initial workspace) {place : Nat} {mesh : Mesh}
    (hmesh : initial.meshes[place]? = some mesh) :
    ∃ other, workspace.meshes[place]? = some other ∧ mesh.SameLayout other := by
  induction h with
  | refl => exact ⟨mesh, hmesh, .refl mesh⟩
  | @store workspace location old column _ _ _ _ _ ih =>
    obtain ⟨other, hother, hsame⟩ := ih
    cases location with
    | ofLoose position => exact ⟨other, hother, hsame⟩
    | ofMesh there kind name =>
      rw [withColumn, Array.getElem?_modify, hother]
      split
      · exact ⟨_, rfl, hsame.store kind name column⟩
      · exact ⟨other, rfl, hsame⟩

end Framed

end Workspace

namespace Memory

/-- The memory of a run that keeps to its frame: copies differ from the fields as they were, and
ledgers have entries, at cells that may change only. -/
structure Framed (kernel : Kernel) (cells : Location → Nat → Prop) (initial : Workspace)
    (memory : Memory) : Prop where
  workspace : Workspace.Framed kernel cells initial memory.workspace
  copies : kernel.CopiesWithin cells initial memory.staged
  ledgers : ∀ {i binding ledger}, kernel.bindings[i]? = some binding →
    memory.ledger? i = some ledger →
      binding.access = .accumulate ∧ ∀ key ∈ ledger.keys, cells binding.location key

namespace Framed

variable {memory next : Memory} {scalar : Scalar} {field : FieldHandle scalar}
variable {address : Address} {component : Nat} {value : scalar.Carrier}

theorem updateField (h : Framed kernel cells initial memory) {i : Nat} {binding : Binding}
    (hbinding : kernel.bindings[i]? = some binding) (haccess : binding.access ≠ .read)
    {index : Nat} (hcell : cells binding.location index)
    {update : scalar.Carrier → scalar.Carrier}
    (hupdate : memory.updateField binding.location scalar index update = .ok next) :
    Framed kernel cells initial next := by
  obtain ⟨old, column, hold, hcolumn, rfl⟩ := updateField_eq_ok.mp hupdate
  refine ⟨h.workspace.store ⟨i, binding, hbinding, haccess, rfl⟩ hold
    (Column.updateCell_shape hcolumn) fun other hother => ?_, h.copies, h.ledgers⟩
  apply Column.updateCell_cell hcolumn
  rintro rfl
  exact hother hcell

theorem write (h : Framed kernel cells initial memory)
    (hcells : ∀ location index,
      kernel.Touches ⟨.write, scalar, field.binding, address, component⟩ location index →
        cells location index)
    (hwrite : memory.write kernel field address component value = .ok next) :
    Framed kernel cells initial next := by
  obtain ⟨binding, index, hbinding, haccess, hindex, hupdate⟩ := write_eq_ok.mp hwrite
  have hcell : cells binding.location index :=
    hcells _ _ ⟨nofun, binding, hbinding, rfl, hindex⟩
  exact h.updateField hbinding (by simp [haccess]) hcell hupdate

theorem accumulate (h : Framed kernel cells initial memory)
    (hcells : ∀ location index,
      kernel.Touches ⟨.accumulate, scalar, field.binding, address, component⟩ location index →
        cells location index)
    (haccumulate : memory.accumulate kernel field address component value = .ok next) :
    Framed kernel cells initial next := by
  obtain ⟨binding, index, hbinding, haccess, hindex, hcases⟩ := accumulate_cases haccumulate
  have hcell : cells binding.location index :=
    hcells _ _ ⟨by simp, binding, hbinding, rfl, hindex⟩
  rcases hcases with ⟨-, hupdate⟩ | ⟨ledgers, hledgers, -, rfl⟩ | ⟨column, copy, -, hcolumn, hcopy, rfl⟩
  · exact h.updateField hbinding (by simp [haccess]) hcell hupdate
  · refine ⟨h.workspace, h.copies, fun {i other ledger} hother hledger => ?_⟩
    rw [ledger?_modify hledgers] at hledger
    split at hledger
    · next heq =>
      subst heq
      obtain rfl := Option.some.inj (hbinding.symm.trans hother)
      obtain ⟨before, hbefore, rfl⟩ := Option.map_eq_some_iff.mp hledger
      refine ⟨haccess, fun key hkey => ?_⟩
      rcases Ledger.mem_keys_add hkey with rfl | hkey
      · exact hcell
      · exact (h.ledgers hbinding hbefore).2 key hkey
    · exact h.ledgers hother hledger
  · refine ⟨h.workspace, fun i other made hother hmade => ?_, fun _ hledger => by cases hledger⟩
    by_cases heq : i = field.binding
    · subst heq
      obtain rfl := Option.some.inj (hbinding.symm.trans hother)
      have hlt : field.binding < memory.staged.size := by
        rw [Memory.staged?, Option.join_eq_some_iff] at hcolumn
        exact (Array.getElem?_eq_some_iff.mp hcolumn).1
      rw [Array.getElem?_setIfInBounds_self_of_lt hlt] at hmade
      obtain rfl := Option.some.inj hmade
      intro other hnot
      have hne : other ≠ index := by
        rintro rfl
        exact hnot hcell
      rw [Column.updateCell_cell hcopy hne]
      exact h.copies _ _ _ hbinding hcolumn other hnot
    · rw [Array.getElem?_setIfInBounds_ne (Ne.symm heq)] at hmade
      exact h.copies _ _ _ hother hmade

theorem run (action : Action α) (h : Framed kernel cells initial memory)
    {log final : List Request} {result : α}
    (hrun : (action.logged log).run kernel memory = .ok ((final, result), next))
    (hcells : kernel.Covers cells final) : Framed kernel cells initial next := by
  induction action generalizing log memory with
  | done _ =>
    cases hrun
    exact h
  | fail fault => cases hrun
  | read scalar field address component rest ih =>
    obtain ⟨value, _, hrun⟩ := bind_eq_ok.mp hrun
    exact ih value h hrun
  | write scalar field address component value rest ih =>
    obtain ⟨written, hstep, hrun⟩ := bind_eq_ok.mp hrun
    have hmem := rest.logged_subset hrun (List.mem_append_right _ List.mem_cons_self)
    exact ih (h.write (hcells _ hmem) hstep) hrun
  | accumulate scalar field address component value rest ih =>
    obtain ⟨added, hstep, hrun⟩ := bind_eq_ok.mp hrun
    have hmem := rest.logged_subset hrun (List.mem_append_right _ List.mem_cons_self)
    exact ih (h.accumulate (hcells _ hmem) hstep) hrun

theorem visit (body : Element → Action α) (slots : List Nat)
    (h : Framed kernel cells initial memory) {logs : List (List Request × α)}
    (hvisit : kernel.visit (Kernel.logging body) slots memory = .ok (logs, next))
    (hcells : kernel.Covers cells (logs.flatMap Prod.fst)) :
    Framed kernel cells initial next := by
  induction slots generalizing memory logs with
  | nil =>
    cases hvisit
    exact h
  | cons slot rest ih =>
    obtain ⟨⟨log, result⟩, between, later, hhere, hlater, rfl⟩ := Kernel.visit_cons.mp hvisit
    rw [List.flatMap_cons] at hcells
    obtain ⟨hlog, hrest⟩ := List.forall_mem_append.mp hcells
    exact ih (h.run _ hhere hlog) hlater hrest

end Framed

end Memory

namespace Kernel

theorem settle_framed (pairs : List (Binding × Option Ledger))
    (h : Workspace.Framed kernel cells initial workspace)
    (hpairs : ∀ binding ledger, (binding, some ledger) ∈ pairs → kernel.Changes binding.location ∧
      ∀ key ∈ ledger.keys, cells binding.location key)
    (hsettle : settle pairs workspace = .ok after) :
    Workspace.Framed kernel cells initial after := by
  induction pairs generalizing workspace with
  | nil =>
    cases hsettle
    exact h
  | cons pair rest ih =>
    have hrest := fun binding ledger hmem => hpairs binding ledger (List.mem_cons_of_mem _ hmem)
    rcases pair with ⟨binding, _ | ledger⟩
    · exact ih h hrest hsettle
    · obtain ⟨hchanges, hkeys⟩ := hpairs binding ledger List.mem_cons_self
      obtain ⟨column, hcolumn, hsettle⟩ := bind_eq_ok.mp hsettle
      obtain ⟨merged, hmerged, hsettle⟩ := bind_eq_ok.mp hsettle
      have hold := Outcome.ofLookup_eq_ok.mp hcolumn
      refine ih (h.store hchanges hold (Ledger.mergeInto_shape hmerged).2 ?_) hrest hsettle
      intro index hnot
      exact Ledger.mergeInto_cell hmerged fun hkey => hnot (hkeys index hkey)

theorem copies_within (kernel : Kernel) (cells : Location → Nat → Prop) (initial : Workspace) :
    kernel.CopiesWithin cells initial (kernel.copies initial) := by
  intro i binding column hbinding hcopy index _
  rw [copies_lookup hbinding] at hcopy
  split at hcopy
  · rw [Workspace.cell?, hcopy, Option.bind_some]
  · cases hcopy

theorem visitPatches_framed (hplan : kernel.Planned) (body : Element → Action α)
    (ranges : List PatchRange) (h : Workspace.Framed kernel cells initial workspace)
    {logs : List (List Request × α)}
    (hvisit : kernel.visitPatches (logging body) (kernel.copies initial) ranges workspace =
      .ok (logs, after))
    (hcells : kernel.Covers cells (logs.flatMap Prod.fst)) :
    Workspace.Framed kernel cells initial after := by
  induction ranges generalizing workspace logs with
  | nil =>
    cases hvisit
    exact h
  | cons range rest ih =>
    obtain ⟨here, memory, settled, later, hhere, hsettled, hlater, rfl⟩ :=
      visitPatches_cons.mp hvisit
    rw [List.flatMap_append] at hcells
    obtain ⟨hnow, hrest⟩ := List.forall_mem_append.mp hcells
    have hstart : Memory.Framed kernel cells initial
        ⟨workspace, kernel.copies initial, some kernel.emptyLedgers⟩ := by
      refine ⟨h, kernel.copies_within cells initial, ?_⟩
      intro i binding ledger hbinding hledger
      rw [show Memory.ledger? _ i = ((kernel.emptyLedgers)[i]?).join from rfl,
        emptyLedgers_lookup hplan hbinding] at hledger
      split at hledger
      · next hstaged =>
        cases hledger
        exact ⟨hstaged.2, fun key hkey => absurd hkey List.not_mem_nil⟩
      · cases hledger
    have hmemory := hstart.visit body _ hhere hnow
    refine ih (settle_framed _ hmemory.workspace ?_ hsettled) hlater hrest
    intro binding ledger hmem
    obtain ⟨i, hbinding, hledger⟩ := mem_ledgers.mp hmem
    obtain ⟨haccess, hkeys⟩ := hmemory.ledgers hbinding hledger
    exact ⟨⟨i, binding, hbinding, by simp [haccess], rfl⟩, hkeys⟩

theorem storeBack_framed (hplan : kernel.Planned) {staged : Array (Option Column)}
    (hcopies : kernel.CopiesWithin cells initial staged)
    (entries : List StagedUse) (hentries : ∀ entry ∈ entries, entry ∈ kernel.plan.entries)
    (h : Workspace.Framed kernel cells initial workspace)
    (hstore : kernel.storeBack staged entries workspace = .ok after) :
    Workspace.Framed kernel cells initial after := by
  induction entries generalizing workspace with
  | nil =>
    cases hstore
    exact h
  | cons entry rest ih =>
    obtain ⟨hentry, hrest⟩ := List.forall_mem_cons.mp hentries
    rw [storeBack] at hstore
    split at hstore
    · next binding copy haccess hbinding hcopy =>
      obtain ⟨column, hcolumn, hstore⟩ := bind_eq_ok.mp hstore
      obtain ⟨stored, hstored, hstore⟩ := bind_eq_ok.mp hstore
      have hold := Outcome.ofLookup_eq_ok.mp hcolumn
      have hstored := Outcome.ofChecked_eq_ok.mp hstored
      have hchanges : binding.access ≠ .read := by
        simp [hplan.access hentry hbinding, haccess]
      refine ih hrest (h.store ⟨_, binding, hbinding, hchanges, rfl⟩ hold
        (Column.storeFrom_shape hstored) fun index hnot => ?_) hstore
      rcases Column.storeFrom_cell hstored index with hcell | hcell
      · have hfield : workspace.cell? binding.location index = column.cell? index := by
          rw [Workspace.cell?, hold, Option.bind_some]
        rw [hcell, hcopies _ _ _ hbinding (by rw [hcopy]; rfl) index hnot, ← h.cell? hnot, hfield]
      · exact hcell
    · exact ih hrest h hstore

theorem run_framed (hplan : kernel.Planned) (body : Element → Action α) {schedule : Schedule}
    {logs : List (List Request × α)}
    (hrun : kernel.run (logging body) initial schedule = .ok (logs, after))
    (hcells : kernel.Covers cells (logs.flatMap Prod.fst)) :
    Workspace.Framed kernel cells initial after := by
  unfold run at hrun
  cases hranges : kernel.ranges with
  | some ranges =>
    simp only [hranges] at hrun
    exact visitPatches_framed hplan body (schedule.patches ranges) .refl hrun hcells
  | none =>
    simp only [hranges] at hrun
    obtain ⟨⟨results, memory⟩, hvisit, hrun⟩ := bind_eq_ok.mp hrun
    obtain ⟨stored, hstored, heq⟩ := bind_eq_ok.mp hrun
    cases heq
    have hstart : Memory.Framed kernel cells initial ⟨initial, kernel.copies initial, none⟩ :=
      ⟨.refl, kernel.copies_within cells initial, fun _ hledger => nomatch hledger⟩
    have hmemory := hstart.visit body _ hvisit hcells
    exact storeBack_framed hplan hmemory.copies _ (fun _ hentry => hentry) hmemory.workspace hstored

end Kernel

namespace KernelDraft

inductive Drawn : KernelDraft → Prop
  | start {name : String} {home : Nat} {mesh : Mesh} {kind : Kind} {draft : KernelDraft}
      (started : start name home mesh kind = .ok draft) : Drawn draft
  | relation {draft next : KernelDraft} {relation : Relation} {handle : RelationHandle}
      (drawn : Drawn draft) (added : draft.relation relation = .ok (next, handle)) : Drawn next
  | field {draft next : KernelDraft} {scalar : Scalar} {kind : Kind} {name : String}
      {access : Access} {handle : FieldHandle scalar} (drawn : Drawn draft)
      (bound : draft.field scalar kind name access = .ok (next, handle)) : Drawn next
  | foreign {draft next : KernelDraft} {place : Nat} {mesh : Mesh} {scalar : Scalar} {kind : Kind}
      {name : String} {access : Access} {handle : FieldHandle scalar} (drawn : Drawn draft)
      (bound : draft.foreign place mesh scalar kind name access = .ok (next, handle)) : Drawn next
  | loose {draft next : KernelDraft} {place : Nat} {loose : LooseField} {scalar : Scalar}
      {access : Access} {handle : FieldHandle scalar} (drawn : Drawn draft)
      (bound : draft.loose place loose scalar access = .ok (next, handle)) : Drawn next
  | stage {draft : KernelDraft} (drawn : Drawn draft) (binding : Nat) : Drawn (draft.stage binding)

/-- The binding is of the mesh at a place, of another mesh as a foreign one, or of a loose field. -/
def Reaches (home : Nat) (binding : Binding) : Prop :=
  ∀ place kind name, binding.location = .ofMesh place kind name → place ≠ home →
    ∃ permutation, binding.addressing = .foreign permutation

theorem Drawn.reaches {draft : KernelDraft} (h : draft.Drawn) :
    ∀ binding ∈ draft.bindings, Reaches draft.home binding := by
  have hpush {draft next : KernelDraft} {scalar : Scalar} {kind : Kind} {binding : Binding}
      {handle : FieldHandle scalar} (h : ∀ binding ∈ draft.bindings, Reaches draft.home binding)
      (hnew : Reaches draft.home binding)
      (hbind : draft.bindInPlace scalar kind binding = (next, .ok handle)) :
      ∀ binding ∈ next.bindings, Reaches next.home binding := by
    obtain ⟨-, -, rfl, -⟩ := bindInPlace_eq_ok.mp hbind
    intro other hother
    rcases Array.mem_push.mp hother with hold | rfl
    · exact h other hold
    · exact hnew
  induction h with
  | start started =>
    obtain ⟨_, -, heq⟩ := bind_eq_ok.mp started
    cases heq
    exact fun binding hbinding => absurd hbinding (Array.not_mem_empty binding)
  | relation _ added ih =>
    obtain ⟨_, -, rfl, -⟩ := relation_eq_ok.mp added
    exact ih
  | field _ bound ih =>
    obtain ⟨_, -, _, -, bound⟩ := field_eq_ok.mp bound
    apply hpush ih _ bound
    intro place kind name hlocation hplace
    cases hlocation
    exact absurd rfl hplace
  | foreign _ bound ih =>
    obtain ⟨_, -, _, -, bound⟩ := foreign_eq_ok.mp bound
    exact hpush ih (fun _ _ _ _ _ => ⟨_, rfl⟩) bound
  | loose _ bound ih =>
    apply hpush ih _ (Checked.granted_eq_ok.mp bound)
    intro place kind name hlocation
    cases hlocation
  | stage _ binding ih => exact ih

end KernelDraft

/-- In whatever order the elements are visited, a run leaves the fields that the kernel does not
declare to change, the cells that the body does not ask to change, the layouts of all meshes, and
the meshes other than that of the kernel of which it changes no field as a foreign one. -/
theorem run_frame {draft : KernelDraft} (hdrawn : draft.Drawn) {config : Config}
    (hcompile : draft.compile config = .ok kernel) (body : Element → Action α)
    {schedule : Schedule} {results : List α}
    (hrun : kernel.run body workspace schedule = .ok (results, after)) :
    (∀ location, ¬kernel.Changes location → after.field? location = workspace.field? location) ∧
    (∀ location index,
      ¬kernel.Addresses (kernel.requests body workspace schedule) location index →
        after.cell? location index = workspace.cell? location index) ∧
    (∀ (place : Nat) (mesh : Mesh), workspace.meshes[place]? = some mesh →
      ∃ other, after.meshes[place]? = some other ∧ mesh.SameLayout other) ∧
    ∀ place : Nat, place ≠ draft.home →
      (∀ binding ∈ kernel.bindings, ∀ permutation kind name,
        binding.addressing = .foreign permutation → binding.location = .ofMesh place kind name →
          binding.access = .read) →
      after.meshes[place]? = workspace.meshes[place]? := by
  obtain ⟨hplan, -, -, -, -, -, hbindings, -⟩ := KernelDraft.compile_eq_ok hcompile
  obtain ⟨logs, hlogs, hrequests⟩ := Kernel.exists_logs hrun
  have hcovers : kernel.Covers (kernel.Addresses (kernel.requests body workspace schedule))
      (logs.flatMap Prod.fst) := by
    rw [hrequests]
    exact fun request hmem _ _ htouches => ⟨request, hmem, htouches⟩
  have hframed := Kernel.run_framed hplan body hlogs hcovers
  refine ⟨fun _ => hframed.field?, fun _ _ => hframed.cell?, fun _ _ => hframed.layout, ?_⟩
  intro place hplace hforeign
  apply hframed.mesh
  rintro kind name ⟨i, binding, hbinding, haccess, hlocation⟩
  have hmem : binding ∈ kernel.bindings := Array.mem_of_getElem? hbinding
  obtain ⟨permutation, haddressing⟩ := hdrawn.reaches binding (hbindings ▸ hmem) place kind name
    hlocation hplace
  exact haccess (hforeign binding hmem permutation kind name haddressing hlocation)

section Twins

def twinWorkspace : Workspace := { meshes := #[pathMesh, pathMesh] }

theorem raiseDraft_drawn : raiseDraft.Drawn := by
  have hstart : KernelDraft.start "raise" 0 pathMesh .vertex =
      .ok { name := "raise", home := 0, mesh := pathMesh, kind := .vertex } := rfl
  have hfield : KernelDraft.field { name := "raise", home := 0, mesh := pathMesh, kind := .vertex }
      .u32 .vertex "load" .accumulate = .ok ({ raiseDraft with requested := [] }, ⟨0⟩) := rfl
  exact .stage (.field (.start hstart) hfield) 0

def raiseKernel : Kernel where
  name := "raise"
  kind := .vertex
  permutation := pathVertices
  patchIndex := pathMesh.patchIndex
  incidences := #[]
  bindings := raiseDraft.bindings
  plan := ⟨.perPatch, [⟨0, .accumulate⟩]⟩
  ranges := some [⟨0, 0, 1⟩, ⟨1, 1, 3⟩]

theorem run_frame_twins : ∃ results after,
    raiseDraft.compile { patchContiguous := true } = .ok raiseKernel ∧
      raiseKernel.run raiseBody twinWorkspace = .ok (results, after) ∧
      after.cell? (.ofMesh 0 .vertex "load") 2 =
        twinWorkspace.cell? (.ofMesh 0 .vertex "load") 2 ∧
      after.meshes[1]? = some pathMesh := by
  have hcompile : raiseDraft.compile { patchContiguous := true } = .ok raiseKernel := rfl
  have hends : (raiseKernel.run raiseBody twinWorkspace).isOk = true := by
    decide +kernel
  have hrequests : ∀ request ∈ raiseKernel.requests raiseBody twinWorkspace,
      request.binding = 0 ∧ request.address = .identity 1 ∧ request.component = 0 := by
    decide +kernel
  have hlast : ¬raiseKernel.Addresses (raiseKernel.requests raiseBody twinWorkspace)
      (.ofMesh 0 .vertex "load") 2 := by
    rintro ⟨request, hmem, -, binding, hbinding, -, hindex⟩
    obtain ⟨hposition, haddress, hcomponent⟩ := hrequests request hmem
    rw [hposition] at hbinding
    cases hbinding
    rw [haddress, hcomponent] at hindex
    cases hindex
  cases hrun : raiseKernel.run raiseBody twinWorkspace with
  | error failure =>
    rw [hrun] at hends
    cases hends
  | ok result =>
    obtain ⟨-, hcells, -, hmeshes⟩ := run_frame raiseDraft_drawn hcompile raiseBody hrun
    refine ⟨result.1, result.2, hcompile, rfl, hcells _ _ hlast, hmeshes 1 (by decide) ?_⟩
    intro binding hmem permutation kind name haddressing
    obtain rfl := Array.eq_of_mem_singleton hmem
    cases haddressing

end Twins

end MeshLayout
