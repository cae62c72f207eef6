import MeshLayout.Kernel.Compile
import MeshLayout.Proofs.Mesh

/-!
# Declarations of a kernel

A kernel is declared by calls that bind fields of the workspace. Each binding then has the type
and the permutation of the field at its location, also after fields were given other values.
-/

set_option autoImplicit false

namespace MeshLayout

def Addressing.permutation? : Addressing → Option Permutation
  | own permutation | foreign permutation => some permutation
  | loose => none

/-- The field at the location of a binding is what the binding says. -/
structure Binding.Fits (workspace : Workspace) (binding : Binding) : Prop where
  type : (workspace.field? binding.location).map Field.type = some binding.type
  permutation : workspace.permutation? binding.location = binding.addressing.permutation?

theorem Workspace.type_withColumn (workspace : Workspace) (location other : Location)
    (column : Column) : ((workspace.withColumn location column).field? other).map Field.type =
      (workspace.field? other).map Field.type := by
  rw [field?_withColumn]
  cases workspace.field? other with
  | none => rfl
  | some field =>
    simp only [Option.map_some]
    split
    · rw [Field.withColumn_type]
    · rfl

theorem Binding.Fits.store {workspace : Workspace} {binding : Binding}
    (h : binding.Fits workspace) (location : Location) (column : Column) :
    binding.Fits (workspace.withColumn location column) where
  type := by
    rw [Workspace.type_withColumn]
    exact h.type
  permutation := by
    rw [Workspace.permutation?_withColumn]
    exact h.permutation

namespace KernelDraft

variable {workspace : Workspace} {draft : KernelDraft}

/-- The declarations that can be made against a workspace. Fields may be given other values in
between. -/
inductive Declared : Workspace → KernelDraft → Prop
  | start {workspace : Workspace} {name : String} {home : Nat} {mesh : Mesh} {kind : Kind}
      {draft : KernelDraft} (made : workspace.Made) (there : workspace.meshes[home]? = some mesh)
      (started : start name home mesh kind = .ok draft) : Declared workspace draft
  | relation {workspace : Workspace} {draft next : KernelDraft} {relation : Relation}
      {handle : RelationHandle} (declared : Declared workspace draft)
      (added : draft.relation relation = .ok (next, handle)) : Declared workspace next
  | field {workspace : Workspace} {draft next : KernelDraft} {scalar : Scalar} {kind : Kind}
      {name : String} {access : Access} {handle : FieldHandle scalar}
      (declared : Declared workspace draft)
      (bound : draft.field scalar kind name access = .ok (next, handle)) : Declared workspace next
  | foreign {workspace : Workspace} {draft next : KernelDraft} {place : Nat} {mesh : Mesh}
      {scalar : Scalar} {kind : Kind} {name : String} {access : Access}
      {handle : FieldHandle scalar} (declared : Declared workspace draft)
      (there : workspace.meshes[place]? = some mesh)
      (bound : draft.foreign place mesh scalar kind name access = .ok (next, handle)) :
      Declared workspace next
  | loose {workspace : Workspace} {draft next : KernelDraft} {place : Nat} {loose : LooseField}
      {scalar : Scalar} {access : Access} {handle : FieldHandle scalar}
      (declared : Declared workspace draft) (there : workspace.loose[place]? = some loose)
      (bound : draft.loose place loose scalar access = .ok (next, handle)) :
      Declared workspace next
  | stage {workspace : Workspace} {draft : KernelDraft} (declared : Declared workspace draft)
      (binding : Nat) : Declared workspace (draft.stage binding)
  | store {workspace : Workspace} {draft : KernelDraft} (declared : Declared workspace draft)
      (location : Location) (column : Column) :
      Declared (workspace.withColumn location column) draft

section Inversion

variable {next : KernelDraft} {scalar : Scalar} {kind : Kind} {name : String} {access : Access}
  {handle : FieldHandle scalar}

theorem relation_eq_ok {relation : Relation} {added : RelationHandle} :
    draft.relation relation = .ok (next, added) ↔
      ∃ incidence, draft.mesh.incidence relation = .ok incidence ∧
        { draft with incidences := draft.incidences.push incidence } = next ∧
        ⟨draft.incidences.size, incidence.relation⟩ = added := by
  simp only [KernelDraft.relation, Checked.granted_eq_ok, relationInPlace, Checked.orLeave_eq_ok,
    Prod.mk.injEq, Except.ok.injEq]

theorem bindInPlace_eq_ok {binding : Binding} :
    draft.bindInPlace scalar kind binding = (next, .ok handle) ↔
      binding.type.scalar = scalar ∧ ¬(binding.access = .write ∧ kind ≠ draft.kind) ∧
        { draft with bindings := draft.bindings.push binding } = next ∧
        ⟨draft.bindings.size⟩ = handle := by
  simp only [bindInPlace, Checked.require_orLeave_eq_ok, Prod.mk.injEq, Except.ok.injEq]

theorem field_eq_ok : draft.field scalar kind name access = .ok (next, handle) ↔
    ∃ set, draft.mesh.elements kind = .ok set ∧ ∃ field, set.field name = .ok field ∧
      draft.bindInPlace scalar kind
        { location := .ofMesh draft.home kind name, field := field.name, access
          type := field.type, addressing := .own set.permutation } = (next, .ok handle) := by
  simp only [KernelDraft.field, Checked.granted_eq_ok, fieldInPlace, Checked.orLeave_eq_ok]

theorem foreign_eq_ok {place : Nat} {mesh : Mesh} :
    draft.foreign place mesh scalar kind name access = .ok (next, handle) ↔
      ∃ set, mesh.elements kind = .ok set ∧ ∃ field, set.field name = .ok field ∧
        draft.bindInPlace scalar kind
          { location := .ofMesh place kind name, field := field.name, access
            type := field.type, addressing := .foreign set.permutation } = (next, .ok handle) := by
  simp only [foreign, Checked.granted_eq_ok, foreignInPlace, Checked.orLeave_eq_ok]

end Inversion

structure Bound (workspace : Workspace) (draft : KernelDraft) : Prop where
  laid : workspace.Laid
  mesh_laid : draft.mesh.Laid
  types : ∀ kind name, (workspace.field? (.ofMesh draft.home kind name)).map Field.type =
    ((draft.mesh.sets.get kind).bind (·.find? name)).map Field.type
  permutations : ∀ kind name, workspace.permutation? (.ofMesh draft.home kind name) =
    (draft.mesh.sets.get kind).map FieldSet.permutation
  bindings : ∀ {i : Nat} {binding : Binding}, draft.bindings[i]? = some binding →
    binding.Fits workspace
  incidences : ∀ {i : Nat} {incidence : Incidence}, draft.incidences[i]? = some incidence →
    ∃ relation, draft.mesh.incidence relation = .ok incidence

namespace Bound

theorem bind (h : draft.Bound workspace) {scalar : Scalar} {kind : Kind} {binding : Binding}
    {next : KernelDraft} {handle : FieldHandle scalar} (hfits : binding.Fits workspace)
    (hbind : draft.bindInPlace scalar kind binding = (next, .ok handle)) :
    next.Bound workspace := by
  obtain ⟨-, -, rfl, -⟩ := bindInPlace_eq_ok.mp hbind
  constructor
  · exact h.laid
  · exact h.mesh_laid
  · exact h.types
  · exact h.permutations
  · intro i other hother
    rw [Array.getElem?_push] at hother
    split at hother
    · cases hother
      exact hfits
    · exact h.bindings hother
  · exact h.incidences

theorem store (h : draft.Bound workspace) (location : Location) (column : Column) :
    draft.Bound (workspace.withColumn location column) where
  laid := h.laid.store location column
  mesh_laid := h.mesh_laid
  types := by
    intro kind name
    rw [Workspace.type_withColumn]
    exact h.types kind name
  permutations := by
    rw [Workspace.permutation?_withColumn]
    exact h.permutations
  bindings := fun hbinding => (h.bindings hbinding).store location column
  incidences := h.incidences

end Bound

theorem Declared.bound (h : draft.Declared workspace) : draft.Bound workspace := by
  induction h with
  | @start workspace name home mesh kind draft made there started =>
    obtain ⟨set, -, heq⟩ := bind_eq_ok.mp started
    cases heq
    constructor
    · exact made.laid
    · exact made.laid.meshes mesh (Array.mem_of_getElem? there)
    · intro kind name
      simp [Workspace.field?, there]
    · intro kind name
      simp only [Workspace.permutation?, there, Option.bind_eq_bind, Option.bind_some]
      cases mesh.sets.get kind <;> rfl
    · intro i binding hbinding
      simp at hbinding
    · intro i incidence hincidence
      simp at hincidence
  | @relation workspace draft next relation handle declared added ih =>
    obtain ⟨incidence, hincidence, rfl, -⟩ := relation_eq_ok.mp added
    constructor
    · exact ih.laid
    · exact ih.mesh_laid
    · exact ih.types
    · exact ih.permutations
    · exact ih.bindings
    · intro i other hother
      rw [Array.getElem?_push] at hother
      split at hother
      · cases hother
        exact ⟨relation, hincidence⟩
      · exact ih.incidences hother
  | @field workspace draft next scalar kind name access handle declared bound ih =>
    obtain ⟨set, hset, field, hfield, bound⟩ := field_eq_ok.mp bound
    have hset := Mesh.elements_eq_ok.mp hset
    have hfield := FieldSet.field_eq_ok.mp hfield
    apply ih.bind _ bound
    constructor
    · rw [ih.types, hset, Option.bind_some, hfield]
      rfl
    · rw [ih.permutations, hset]
      rfl
  | @foreign workspace draft next place mesh scalar kind name access handle declared there bound ih =>
    obtain ⟨set, hset, field, hfield, bound⟩ := foreign_eq_ok.mp bound
    have hset := Mesh.elements_eq_ok.mp hset
    have hfield := FieldSet.field_eq_ok.mp hfield
    apply ih.bind _ bound
    constructor
    · simp [Workspace.field?, there, hset, hfield]
    · simp [Workspace.permutation?, there, hset, Addressing.permutation?]
  | @loose workspace draft next place loose scalar access handle declared there bound ih =>
    apply ih.bind _ (Checked.granted_eq_ok.mp bound)
    constructor
    · simp [Workspace.field?, there]
    · rfl
  | stage declared binding ih =>
    exact ⟨ih.laid, ih.mesh_laid, ih.types, ih.permutations, ih.bindings, ih.incidences⟩
  | store declared location column ih => exact ih.store location column

end KernelDraft

end MeshLayout
