import MeshLayout.Column
import MeshLayout.Proofs.Outcome

/-!
# Columns and their shapes

The shape of a column is the type and the number of its values. Overwriting a range of cells
leaves the cells around it, and storing a column of the same shape replaces all cells.
-/

set_option autoImplicit false

namespace MeshLayout

namespace Cells

variable {α : Type}

theorem number_lt {components element count component : Nat} (helement : element < count)
    (h : component < components) : element * components + component < count * components := by
  have hle : (element + 1) * components ≤ count * components :=
    Nat.mul_le_mul_right components helement
  rw [Nat.succ_mul] at hle
  omega

theorem overwrite_size (values : List α) (offset : Nat) (cells : Array α) :
    (overwrite values offset cells).size = cells.size := by
  induction values generalizing offset cells with
  | nil => rfl
  | cons value rest ih => rw [overwrite, ih, Array.size_setIfInBounds]

theorem overwrite_before (values : List α) (offset : Nat) (cells : Array α) {i : Nat}
    (h : i < offset) : (overwrite values offset cells)[i]? = cells[i]? := by
  induction values generalizing offset cells with
  | nil => rfl
  | cons value rest ih =>
    rw [overwrite, ih (offset + 1) _ (by omega), Array.getElem?_setIfInBounds_ne (by omega)]

theorem overwrite_inside (values : List α) (offset : Nat) (cells : Array α) {i : Nat}
    (hi : i < values.length) (h : offset + i < cells.size) :
    (overwrite values offset cells)[offset + i]? = values[i]? := by
  induction values generalizing offset cells i with
  | nil => simp at hi
  | cons value rest ih =>
    rw [overwrite]
    cases i with
    | zero =>
      rw [Nat.add_zero] at h
      change (overwrite rest (offset + 1) (cells.setIfInBounds offset value))[offset]? = some value
      rw [overwrite_before _ _ _ (by omega), Array.getElem?_setIfInBounds_self_of_lt h]
    | succ i =>
      rw [List.length_cons] at hi
      have hnext : offset + (i + 1) = offset + 1 + i := by omega
      rw [hnext, ih (offset + 1) _ (by omega) (by rw [Array.size_setIfInBounds]; omega),
        List.getElem?_cons_succ]

theorem overwrite_after (values : List α) (offset : Nat) (cells : Array α) {i : Nat}
    (h : offset + values.length ≤ i) : (overwrite values offset cells)[i]? = cells[i]? := by
  induction values generalizing offset cells with
  | nil => rfl
  | cons value rest ih =>
    rw [List.length_cons] at h
    rw [overwrite, ih (offset + 1) _ (by omega), Array.getElem?_setIfInBounds_ne (by omega)]

theorem overwrite_part {components index : Nat} {values : List α} {cells : Array α}
    (hvalues : values.length = components) (hend : index * components + components ≤ cells.size)
    (other : Nat) {component : Nat} (hcomponent : component < components) :
    (overwrite values (index * components) cells)[other * components + component]? =
      if other = index then values[component]? else cells[other * components + component]? := by
  by_cases hother : other = index
  · subst hother
    rw [if_pos rfl, overwrite_inside _ _ _ (by omega) (by omega)]
  · rw [if_neg hother]
    rcases Nat.lt_or_gt_of_ne hother with hlt | hgt
    · exact overwrite_before _ _ _ (number_lt hlt hcomponent)
    · have hle : (index + 1) * components ≤ other * components :=
        Nat.mul_le_mul_right components hgt
      rw [Nat.succ_mul] at hle
      exact overwrite_after _ _ _ (by omega)

theorem overwrite_all {values cells : Array α} (h : values.size = cells.size) :
    overwrite values.toList 0 cells = values := by
  apply Array.ext_getElem?
  intro i
  by_cases hi : i < values.size
  · have := overwrite_inside values.toList 0 cells (i := i) (by simpa using hi) (by omega)
    simpa using this
  · rw [Array.getElem?_eq_none (by rw [overwrite_size]; omega), Array.getElem?_eq_none (by omega)]

theorem read_of_le {cells : Array α} {offset length : Nat} (h : offset + length ≤ cells.size)
    (hroom : cells.size < indexLimit) :
    read cells offset length = .ok (cells.extract offset (offset + length)) := by
  rw [read, checkRange, Checked.require_of _ ⟨by omega, h⟩]
  rfl

theorem writeInPlace_of_le {cells values : Array α} {offset : Nat}
    (h : offset + values.size ≤ cells.size) (hroom : cells.size < indexLimit) :
    writeInPlace cells offset values = (overwrite values.toList offset cells, .ok ()) := by
  rw [writeInPlace, checkRange, Checked.require_of _ ⟨by omega, h⟩, Checked.orLeave_ok]

theorem writeInPlace_cases (cells : Array α) (offset : Nat) (values : Array α) :
    (∃ error, writeInPlace cells offset values = (cells, .error error)) ∨
      offset + values.size ≤ cells.size ∧
        writeInPlace cells offset values = (overwrite values.toList offset cells, .ok ()) := by
  unfold writeInPlace
  cases hrange : checkRange cells offset values.size with
  | error error => exact .inl ⟨error, rfl⟩
  | ok _ => exact .inr ⟨(Checked.require_eq_ok.mp hrange).2, rfl⟩

end Cells

namespace Column

theorem as?_eq_some {column : Column} {scalar : Scalar} {cells : Array scalar.Carrier} :
    column.as? scalar = some cells ↔ column = ⟨scalar, cells⟩ := by
  obtain ⟨own, values⟩ := column
  unfold as?
  by_cases h : own = scalar
  · subst h
    simp
  · simp [h]

theorem as?_eq_none {column : Column} {scalar : Scalar} :
    column.as? scalar = none ↔ column.scalar ≠ scalar := by
  unfold as?
  split <;> simp_all

@[simp] theorem as?_mk (scalar : Scalar) (cells : Array scalar.Carrier) :
    (⟨scalar, cells⟩ : Column).as? scalar = some cells := as?_eq_some.mpr rfl

theorem as?_isSome {column : Column} {scalar : Scalar} (h : column.scalar = scalar) :
    (column.as? scalar).isSome = true := by
  subst h
  rw [as?_mk]
  rfl

def shape (column : Column) : Scalar × Nat := (column.scalar, column.size)

theorem exists_cells {column : Column} {scalar : Scalar} {size : Nat}
    (h : column.shape = (scalar, size)) :
    ∃ cells : Array scalar.Carrier, column = ⟨scalar, cells⟩ ∧ cells.size = size := by
  obtain ⟨own, cells⟩ := column
  obtain ⟨rfl, rfl⟩ := Prod.mk.inj h
  exact ⟨cells, rfl, rfl⟩

theorem Fits.lt {scalar : Scalar} {size : Nat} (h : Fits scalar size) : size < indexLimit := by
  have hwidth : 1 ≤ scalar.width := by cases scalar <;> decide
  have hle := Nat.le_mul_of_pos_right size hwidth
  have hlimit : memoryLimit < indexLimit := by decide
  unfold Fits at h
  omega

theorem storeFrom_eq {column copy : Column} (h : copy.shape = column.shape)
    (hroom : column.size < indexLimit) : column.storeFrom copy = .ok copy := by
  obtain ⟨scalar, cells⟩ := column
  obtain ⟨values, rfl, hsize⟩ := exists_cells h
  have hsize : values.size = cells.size := hsize
  have hle : 0 + values.size ≤ cells.size := by omega
  have hwrite : Cells.writeInPlace cells 0 values = (values, .ok ()) := by
    rw [Cells.writeInPlace_of_le hle hroom, Cells.overwrite_all hsize]
  rw [storeFrom, Checked.after_eq_ok, storeInPlace, as?_mk]
  simp only [hwrite]

def cell? (column : Column) (index : Nat) : Option ((scalar : Scalar) × scalar.Carrier) :=
  column.cells[index]?.map fun value => ⟨column.scalar, value⟩

theorem storeInPlace_cases (column other : Column) :
    (∃ error, column.storeInPlace other = (column, .error error)) ∨
      ∃ values : Array column.scalar.Carrier, other = ⟨column.scalar, values⟩ ∧
        0 + values.size ≤ column.cells.size ∧ column.storeInPlace other =
          (⟨column.scalar, Cells.overwrite values.toList 0 column.cells⟩, .ok ()) := by
  unfold storeInPlace
  cases hvalues : other.as? column.scalar with
  | none => exact .inl ⟨_, rfl⟩
  | some values =>
    rcases Cells.writeInPlace_cases column.cells 0 values with ⟨error, hwrite⟩ | ⟨hle, hwrite⟩
    · exact .inl ⟨error, by simp only [hwrite]⟩
    · exact .inr ⟨values, as?_eq_some.mp hvalues, hle, by simp only [hwrite]⟩

theorem storeFrom_cases {column copy stored : Column} (h : column.storeFrom copy = .ok stored) :
    ∃ values : Array column.scalar.Carrier, copy = ⟨column.scalar, values⟩ ∧
      0 + values.size ≤ column.cells.size ∧
      stored = ⟨column.scalar, Cells.overwrite values.toList 0 column.cells⟩ := by
  rw [storeFrom, Checked.after_eq_ok] at h
  rcases column.storeInPlace_cases copy with ⟨error, hrefused⟩ | ⟨values, hcopy, hle, hstored⟩
  · cases h.symm.trans hrefused
  · cases h.symm.trans hstored
    exact ⟨values, hcopy, hle, rfl⟩

theorem storeFrom_shape {column copy stored : Column} (h : column.storeFrom copy = .ok stored) :
    stored.shape = column.shape := by
  obtain ⟨values, -, -, rfl⟩ := storeFrom_cases h
  exact congrArg (Prod.mk column.scalar) (Cells.overwrite_size _ _ _)

theorem storeFrom_cell {column copy stored : Column} (h : column.storeFrom copy = .ok stored)
    (index : Nat) :
    stored.cell? index = copy.cell? index ∨ stored.cell? index = column.cell? index := by
  obtain ⟨values, rfl, hle, rfl⟩ := storeFrom_cases h
  by_cases hindex : index < values.size
  · have := Cells.overwrite_inside values.toList 0 column.cells (i := index)
      (by simpa using hindex) (by omega)
    rw [Nat.zero_add, Array.getElem?_toList] at this
    exact .inl (by simp only [cell?, this])
  · have := Cells.overwrite_after values.toList 0 column.cells (i := index)
      (by simpa using hindex)
    exact .inr (by simp only [cell?, this])

end Column

end MeshLayout
