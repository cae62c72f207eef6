import MeshLayout.Mesh
import MeshLayout.Proofs.FieldSet

/-!
# Columns at locations

A workspace is known by the column at each location. Storing a column of the same shape at a
location changes what is seen there and nowhere else, and keeps the type and the size of every
field.
-/

set_option autoImplicit false

namespace MeshLayout

namespace Workspace

theorem field?_withColumn (workspace : Workspace) (location other : Location) (column : Column) :
    (workspace.withColumn location column).field? other =
      (workspace.field? other).map fun field =>
        if other = location then field.withColumn column else field := by
  cases location with
  | ofMesh mesh kind name =>
    cases other with
    | ofLoose position => simp [withColumn, field?]
    | ofMesh mesh' kind' name' =>
      simp only [withColumn, field?, Array.getElem?_modify, Option.bind_eq_bind]
      by_cases hmesh : mesh = mesh'
      · subst hmesh
        cases workspace.meshes[mesh]? with
        | none => simp
        | some there =>
          simp only [if_true, Option.map_some, Option.bind_some, PerKind.get_set]
          by_cases hkind : kind' = kind
          · subst hkind
            cases there.sets.get kind' with
            | none => simp
            | some set =>
              simp only [if_true, Option.map_some, Option.bind_some, FieldSet.find?_withColumn]
              cases hfind : set.find? name' with
              | none => rfl
              | some field => simp [FieldSet.find?_name hfind]
          · cases hset : there.sets.get kind' with
            | none => simp [hkind]
            | some set => simp [hkind]
      · cases workspace.meshes[mesh']? with
        | none => simp [hmesh]
        | some there =>
          have hne : ¬ mesh' = mesh := fun h => hmesh h.symm
          simp [hmesh, hne]
  | ofLoose position =>
    cases other with
    | ofMesh mesh' kind' name' => simp [withColumn, field?]
    | ofLoose position' =>
      simp only [withColumn, field?, Array.getElem?_modify]
      by_cases hposition : position = position'
      · subst hposition
        cases workspace.loose[position]? with
        | none => simp
        | some there => simp
      · have hne : ¬ position' = position := fun h => hposition h.symm
        cases workspace.loose[position']? with
        | none => simp [hposition]
        | some there => simp [hposition, hne]

theorem column?_withColumn_ne (workspace : Workspace) {location other : Location}
    (column : Column) (h : other ≠ location) :
    (workspace.withColumn location column).column? other = workspace.column? other := by
  simp [column?, field?_withColumn, h]

theorem column?_withColumn_self {workspace : Workspace} {location : Location}
    {old column : Column} (hold : workspace.column? location = some old)
    (h : column.shape = old.shape) :
    (workspace.withColumn location column).column? location = some column := by
  obtain ⟨field, hfield, rfl⟩ := Option.map_eq_some_iff.mp hold
  simp [column?, field?_withColumn, hfield, Field.withColumn_column h]

theorem column?_withColumn {workspace : Workspace} {location : Location} {old column : Column}
    (hold : workspace.column? location = some old) (h : column.shape = old.shape)
    (other : Location) : (workspace.withColumn location column).column? other =
      if other = location then some column else workspace.column? other := by
  split
  · next heq => rw [heq, column?_withColumn_self hold h]
  · next hne => exact column?_withColumn_ne workspace column hne

def shape? (workspace : Workspace) (location : Location) : Option (Scalar × Nat) :=
  (workspace.column? location).map Column.shape

theorem shape?_withColumn {workspace : Workspace} {location : Location} {old column : Column}
    (hold : workspace.column? location = some old) (h : column.shape = old.shape)
    (other : Location) :
    (workspace.withColumn location column).shape? other = workspace.shape? other := by
  rw [shape?, column?_withColumn hold h]
  split
  · next heq => rw [shape?, heq, hold, Option.map_some, Option.map_some, h]
  · rfl

def cell? (workspace : Workspace) (location : Location) (index : Nat) :
    Option ((scalar : Scalar) × scalar.Carrier) :=
  (workspace.column? location).bind (·.cell? index)

def InMemory (workspace : Workspace) : Prop :=
  ∀ location column, workspace.column? location = some column → column.size < indexLimit

theorem field?_cases {workspace : Workspace} {location : Location} {field : Field}
    (h : workspace.field? location = some field) :
    (∃ mesh ∈ workspace.meshes, ∃ kind set, mesh.sets.get kind = some set ∧ field ∈ set.fields) ∨
      ∃ loose ∈ workspace.loose, field = loose.field := by
  cases location with
  | ofMesh place kind name =>
    simp only [field?, Option.bind_eq_bind, Option.bind_eq_some_iff] at h
    obtain ⟨mesh, hmesh, set, hset, hfind⟩ := h
    exact .inl ⟨mesh, Array.mem_of_getElem? hmesh, kind, set, hset, List.mem_of_find?_eq_some hfind⟩
  | ofLoose position =>
    simp only [field?, Option.bind_eq_bind, Option.bind_eq_some_iff] at h
    obtain ⟨loose, hloose, hfield⟩ := h
    cases hfield
    exact .inr ⟨loose, Array.mem_of_getElem? hloose, rfl⟩

theorem inMemory_of {workspace : Workspace}
    (hmeshes : ∀ mesh ∈ workspace.meshes, ∀ kind set, mesh.sets.get kind = some set →
      ∀ field ∈ set.fields, field.cells.size < indexLimit)
    (hloose : ∀ loose ∈ workspace.loose, loose.field.cells.size < indexLimit) :
    workspace.InMemory := by
  intro location column hcolumn
  obtain ⟨field, hfield, rfl⟩ := Option.map_eq_some_iff.mp hcolumn
  rcases field?_cases hfield with ⟨mesh, hmesh, kind, set, hset, hmem⟩ | ⟨loose, hmem, rfl⟩
  · exact hmeshes mesh hmesh kind set hset field hmem
  · exact hloose loose hmem

end Workspace

end MeshLayout
