import MeshLayout.Proofs.Column
import MeshLayout.Field

/-!
# Elements of a field

A field whose cells can be counted reads and writes every element that it has, and refuses every
other one. A request in another type is refused whatever else it asks for.
-/

set_option autoImplicit false

namespace MeshLayout

namespace Cells

variable {α : Type}

def part (components : Nat) (cells : Array α) (slot : Slot) : Array α :=
  cells.extract (slot.toNat * components) (slot.toNat * components + components)

theorem extract_eq_ofFn {cells : Array α} {offset length : Nat} {value : Nat → α}
    (hend : offset + length ≤ cells.size) (h : ∀ i < length, cells[offset + i]? = some (value i)) :
    cells.extract offset (offset + length) = Array.ofFn fun i : Fin length => value i := by
  apply Array.ext_getElem?
  intro i
  rw [Array.getElem?_ofFn]
  by_cases hi : i < length
  · rw [dif_pos hi, Array.getElem?_extract_of_lt (by omega), ← h i hi,
      Array.getElem?_eq_getElem (by omega)]
  · rw [dif_neg hi, Array.getElem?_eq_none]
    rw [Array.size_extract]
    omega

end Cells

namespace Field

variable {field : Field} {scalar : Scalar} {index : Nat}

theorem values_eq (field : Field) : field.values field.type.scalar = .ok field.cells := by
  have hcells : field.column.as? field.type.scalar = some field.cells := Column.as?_mk _ _
  rw [Field.values, hcells]

theorem values_of_ne (h : field.type.scalar ≠ scalar) :
    field.values scalar = .error (.scalarMismatch field.name field.type.scalar scalar) := by
  have hnone : field.column.as? scalar = none := Column.as?_eq_none.mpr h
  rw [Field.values, hnone]

theorem withColumn_name (field : Field) (column : Column) :
    (field.withColumn column).name = field.name := by
  unfold withColumn
  split
  · rfl
  · split <;> rfl

theorem withColumn_type (field : Field) (column : Column) :
    (field.withColumn column).type = field.type := by
  unfold withColumn
  split
  · rfl
  · split <;> rfl

theorem withColumn_size (field : Field) (column : Column) :
    (field.withColumn column).size = field.size := by
  unfold withColumn
  split
  · rfl
  · split <;> rfl

theorem withColumn_column {field : Field} {column : Column}
    (h : column.shape = field.column.shape) : (field.withColumn column).column = column := by
  unfold withColumn
  split
  · next hnone => exact absurd (congrArg Prod.fst h) (Column.as?_eq_none.mp hnone)
  · next values hvalues =>
    obtain rfl := Column.as?_eq_some.mp hvalues
    have hsize : values.size = field.size * field.type.components :=
      (congrArg Prod.snd h).trans field.cells_size
    rw [dif_pos hsize]
    rfl

def withCells (field : Field) (cells : Array field.type.scalar.Carrier)
    (h : cells.size = field.size * field.type.components) : Field :=
  { field with cells := cells, cells_size := h }

@[simp] theorem withCells_name (field : Field) (cells : Array field.type.scalar.Carrier)
    (h : cells.size = field.size * field.type.components) :
    (field.withCells cells h).name = field.name := rfl

theorem withColumn_eq (cells : Array field.type.scalar.Carrier)
    (h : cells.size = field.size * field.type.components) :
    field.withColumn ⟨field.type.scalar, cells⟩ = field.withCells cells h := by
  unfold withColumn
  rw [Column.as?_mk]
  exact dif_pos h

theorem end_le (h : index < field.size) :
    index * field.type.components + field.type.components ≤ field.cells.size := by
  rw [field.cells_size, ← Nat.succ_mul]
  exact Nat.mul_le_mul_right _ h

section Elements

variable (hroom : field.cells.size < indexLimit)
include hroom

theorem element_eq (h : index < field.size) : field.element field.type.scalar index =
    .ok (field.cells.extract (index * field.type.components)
      (index * field.type.components + field.type.components)) := by
  rw [element, field.values_eq, ok_bind, checkIndex, Checked.require_of _ h, ok_bind, components,
    Cells.read_of_le (end_le h) hroom]

theorem setInPlace_eq (h : index < field.size) {values : Array field.type.scalar.Carrier}
    (hvalues : values.size = field.type.components) :
    field.setInPlace field.type.scalar index values = (field.withColumn ⟨field.type.scalar,
      Cells.overwrite values.toList (index * field.type.components) field.cells⟩, .ok ()) := by
  have hend : index * field.type.components + values.size ≤ field.cells.size := by
    rw [hvalues]
    exact end_le h
  have hvalues : values.size = field.components := hvalues
  rw [setInPlace, field.values_eq, Checked.orLeave_ok, checkIndex, Checked.require_of _ h,
    Checked.orLeave_ok, Checked.require_of _ hvalues, Checked.orLeave_ok, storeInPlace, components,
    Cells.writeInPlace_of_le hend hroom]

theorem loadInPlace_eq {values : Array field.type.scalar.Carrier}
    (hvalues : values.size = field.cells.size) :
    field.loadInPlace field.type.scalar values =
      (field.withColumn ⟨field.type.scalar, values⟩, .ok ()) := by
  have hend : 0 + values.size ≤ field.cells.size := by omega
  rw [loadInPlace, field.values_eq, Checked.orLeave_ok, Checked.require_of _ hvalues,
    Checked.orLeave_ok, storeInPlace, Cells.writeInPlace_of_le hend hroom,
    Cells.overwrite_all hvalues]

end Elements

theorem get_eq {component : Nat} (h : index < field.size)
    (hcomponent : component < field.type.components) {value : field.type.scalar.Carrier}
    (hvalue : field.cells[index * field.type.components + component]? = some value) :
    field.get field.type.scalar index component = .ok value := by
  have hcomponent : component < field.components := hcomponent
  have hvalue : field.cells[index * field.components + component]? = some value := hvalue
  rw [get, field.values_eq, checkIndex, Checked.require_of _ h, Checked.require_of _ hcomponent]
  simp only [Outcome.liftM_eq, Outcome.ofChecked_ok, ok_bind, hvalue, Outcome.ofLookup_some]

theorem fillInPlace_eq (field : Field) (value : field.type.scalar.Carrier) :
    field.fillInPlace field.type.scalar value =
      (field.withColumn (.filled field.type.scalar field.cells.size value), .ok ()) := by
  rw [fillInPlace, field.values_eq, Checked.orLeave_ok]

section Refused

def Bars (field : Field) (scalar : Scalar) (index : Nat) : Prop :=
  (∃ error, field.values scalar = .error error) ∨ field.size ≤ index

theorem Bars.element (h : field.Bars scalar index) :
    ∃ error, field.element scalar index = .error error := by
  rcases h with ⟨error, h⟩ | hle
  · rw [Field.element, h]
    exact ⟨error, rfl⟩
  · apply bind_error_of
    intro cells _
    rw [checkIndex, Checked.require, if_neg (by omega)]
    exact ⟨_, rfl⟩

theorem Bars.setInPlace (h : field.Bars scalar index) (values : Array scalar.Carrier) :
    ∃ error, field.setInPlace scalar index values = (field, .error error) := by
  unfold Field.setInPlace
  rcases h with ⟨error, h⟩ | hle
  · rw [h]
    exact ⟨error, rfl⟩
  · cases field.values scalar with
    | error error => exact ⟨error, rfl⟩
    | ok cells =>
      rw [checkIndex, Checked.require, if_neg (by omega)]
      exact ⟨_, rfl⟩

theorem Bars.get (h : field.Bars scalar index) (component : Nat) :
    ∃ error, field.get scalar index component = Outcome.refuse error := by
  rcases h with ⟨error, h⟩ | hle
  · rw [Field.get, h]
    exact ⟨error, rfl⟩
  · rw [Field.get, checkIndex, Checked.require, if_neg (by omega)]
    cases field.values scalar with
    | error error => exact ⟨error, rfl⟩
    | ok cells => exact ⟨_, rfl⟩

end Refused

end Field

end MeshLayout
