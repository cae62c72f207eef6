import MeshLayout.Proofs.Kernel.Memory

/-!
# What a ledger owes

Whole numbers add modulo the width of their type, so terms can be regrouped and reordered. An
addition that is entered in a ledger and settled later is then the addition made last, and a
ledger can be settled exactly if it has no entry for a cell beyond the column.
-/

set_option autoImplicit false

namespace MeshLayout

namespace Scalar

variable {scalar : Scalar}

theorem zero_add (h : scalar.isInteger = true) (a : scalar.Carrier) :
    scalar.add scalar.zero a = a := by
  cases scalar with
  | i32 => exact Int32.zero_add a
  | i64 => exact Int64.zero_add a
  | u32 => exact UInt32.zero_add a
  | u64 => exact UInt64.zero_add a
  | f32 => cases h
  | f64 => cases h

theorem add_assoc (h : scalar.isInteger = true) (a b c : scalar.Carrier) :
    scalar.add (scalar.add a b) c = scalar.add a (scalar.add b c) := by
  cases scalar with
  | i32 => exact Int32.add_assoc a b c
  | i64 => exact Int64.add_assoc a b c
  | u32 => exact UInt32.add_assoc a b c
  | u64 => exact UInt64.add_assoc a b c
  | f32 => cases h
  | f64 => cases h

theorem add_comm (h : scalar.isInteger = true) (a b : scalar.Carrier) :
    scalar.add a b = scalar.add b a := by
  cases scalar with
  | i32 => exact Int32.add_comm a b
  | i64 => exact Int64.add_comm a b
  | u32 => exact UInt32.add_comm a b
  | u64 => exact UInt64.add_comm a b
  | f32 => cases h
  | f64 => cases h

theorem add_zero (h : scalar.isInteger = true) (a : scalar.Carrier) :
    scalar.add a scalar.zero = a := by
  rw [add_comm h, zero_add h]

theorem add_right_comm (h : scalar.isInteger = true) (a b c : scalar.Carrier) :
    scalar.add (scalar.add a b) c = scalar.add (scalar.add a c) b := by
  rw [add_assoc h, add_comm h b c, ← add_assoc h]

end Scalar

namespace Cells

variable {scalar : Scalar}

def bump (scalar : Scalar) (index : Nat) (value : scalar.Carrier) (cells : Array scalar.Carrier) :
    Option (Array scalar.Carrier) :=
  cells[index]?.map fun old => cells.setIfInBounds index (scalar.add old value)

theorem bump_eq_none {index : Nat} {value : scalar.Carrier} {cells : Array scalar.Carrier} :
    bump scalar index value cells = none ↔ cells.size ≤ index := by
  rw [bump, Option.map_eq_none_iff, Array.getElem?_eq_none_iff]

theorem bump_eq_some {index : Nat} {value : scalar.Carrier} {cells after : Array scalar.Carrier} :
    bump scalar index value cells = some after ↔ ∃ old, cells[index]? = some old ∧
      after = cells.setIfInBounds index (scalar.add old value) := by
  rw [bump, Option.map_eq_some_iff]
  constructor
  · rintro ⟨old, hold, rfl⟩
    exact ⟨old, hold, rfl⟩
  · rintro ⟨old, hold, rfl⟩
    exact ⟨old, hold, rfl⟩

theorem bump_size {index : Nat} {value : scalar.Carrier} {cells after : Array scalar.Carrier}
    (h : bump scalar index value cells = some after) : after.size = cells.size := by
  obtain ⟨old, -, rfl⟩ := bump_eq_some.mp h
  rw [Array.size_setIfInBounds]

theorem bump_bump (h : scalar.isInteger = true) (index : Nat) (a b : scalar.Carrier)
    (cells : Array scalar.Carrier) :
    (bump scalar index a cells).bind (bump scalar index b) =
      bump scalar index (scalar.add a b) cells := by
  cases hold : cells[index]? with
  | none => simp [bump, hold]
  | some old =>
    have hlt := (Array.getElem?_eq_some_iff.mp hold).1
    simp [bump, hlt, Scalar.add_assoc h]

theorem bump_comm (h : scalar.isInteger = true) (i j : Nat) (a b : scalar.Carrier)
    (cells : Array scalar.Carrier) :
    (bump scalar i a cells).bind (bump scalar j b) =
      (bump scalar j b cells).bind (bump scalar i a) := by
  by_cases hij : i = j
  · subst hij
    rw [bump_bump h, bump_bump h, Scalar.add_comm h]
  · have hji : ¬j = i := fun h => hij h.symm
    cases hi : cells[i]? with
    | none =>
      cases hj : cells[j]? with
      | none => simp [bump, hi, hj]
      | some old => simp [bump, hi, hj, hji]
    | some there =>
      cases hj : cells[j]? with
      | none => simp [bump, hi, hj, hij]
      | some old => simp [bump, hi, hj, hij, hji, Array.setIfInBounds_comm _ _ hij]

end Cells

namespace Ledger

variable {scalar : Scalar} {entries : List (Nat × scalar.Carrier)}

theorem settle_cons (index : Nat) (sum : scalar.Carrier) (rest : List (Nat × scalar.Carrier))
    (cells : Array scalar.Carrier) : settle scalar ((index, sum) :: rest) cells =
      (Cells.bump scalar index sum cells).bind (settle scalar rest) := by
  rw [settle, Cells.bump]
  cases cells[index]? <;> rfl

theorem settle_size {cells after : Array scalar.Carrier}
    (h : settle scalar entries cells = some after) : after.size = cells.size := by
  induction entries generalizing cells with
  | nil =>
    cases h
    rfl
  | cons entry rest ih =>
    obtain ⟨index, sum⟩ := entry
    rw [settle_cons, Option.bind_eq_some_iff] at h
    obtain ⟨between, hbump, h⟩ := h
    rw [ih h, Cells.bump_size hbump]

theorem settle_eq_none {cells : Array scalar.Carrier} :
    settle scalar entries cells = none ↔ ∃ key ∈ entries.map Prod.fst, cells.size ≤ key := by
  induction entries generalizing cells with
  | nil => simp [settle]
  | cons entry rest ih =>
    obtain ⟨index, sum⟩ := entry
    rw [settle_cons, List.map_cons]
    cases hbump : Cells.bump scalar index sum cells with
    | none => simp [Cells.bump_eq_none.mp hbump]
    | some between =>
      have hlt : ¬cells.size ≤ index := fun h => by simp [Cells.bump_eq_none.mpr h] at hbump
      simp [ih, Cells.bump_size hbump, hlt]

theorem bump_settle (h : scalar.isInteger = true) (index : Nat) (value : scalar.Carrier)
    (cells : Array scalar.Carrier) :
    (settle scalar entries cells).bind (Cells.bump scalar index value) =
      (Cells.bump scalar index value cells).bind (settle scalar entries) := by
  induction entries generalizing cells with
  | nil =>
    change Cells.bump scalar index value cells = (Cells.bump scalar index value cells).bind some
    rw [Option.bind_fun_some]
  | cons entry rest ih =>
    obtain ⟨key, sum⟩ := entry
    have hcons : settle scalar ((key, sum) :: rest) = fun cells =>
        (Cells.bump scalar key sum cells).bind (settle scalar rest) := by
      funext cells
      exact settle_cons key sum rest cells
    rw [hcons, ← Option.bind_assoc, ← Cells.bump_comm h, Option.bind_assoc, Option.bind_assoc]
    congr 1
    funext between
    exact ih between

theorem settle_enter (h : scalar.isInteger = true) (index : Nat) (value : scalar.Carrier)
    (cells : Array scalar.Carrier) : settle scalar (enter scalar index value entries) cells =
      (settle scalar entries cells).bind (Cells.bump scalar index value) := by
  induction entries generalizing cells with
  | nil =>
    rw [enter, settle_cons, Scalar.zero_add h]
    exact Option.bind_fun_some _
  | cons entry rest ih =>
    obtain ⟨key, sum⟩ := entry
    rw [enter, settle_cons, Option.bind_assoc]
    split
    · next heq =>
      subst heq
      rw [settle_cons, ← Cells.bump_bump h, Option.bind_assoc]
      congr 1
      funext between
      exact (bump_settle h key value between).symm
    · rw [settle_cons]
      congr 1
      funext between
      exact ih between

theorem mem_enter {index : Nat} {value : scalar.Carrier} {key : Nat}
    (h : key ∈ entries.map Prod.fst) :
    key ∈ (enter scalar index value entries).map Prod.fst := by
  induction entries with
  | nil => simp at h
  | cons entry rest ih =>
    obtain ⟨first, sum⟩ := entry
    rw [enter]
    split
    · exact h
    · rcases List.mem_cons.mp h with rfl | hrest
      · exact List.mem_cons_self
      · exact List.mem_cons_of_mem _ (ih hrest)

theorem mem_enter_cases {index : Nat} {value : scalar.Carrier} {key : Nat}
    (h : key ∈ (enter scalar index value entries).map Prod.fst) :
    key = index ∨ key ∈ entries.map Prod.fst := by
  induction entries with
  | nil => exact .inl (List.mem_singleton.mp h)
  | cons entry rest ih =>
    obtain ⟨first, sum⟩ := entry
    rw [enter] at h
    split at h
    · exact .inr h
    · rcases List.mem_cons.mp h with rfl | hrest
      · exact .inr List.mem_cons_self
      · exact (ih hrest).imp_right (List.mem_cons_of_mem _)

theorem lookup_enter (index : Nat) (value : scalar.Carrier) (key : Nat) :
    lookup scalar key (enter scalar index value entries) =
      if key = index then scalar.add (lookup scalar key entries) value
      else lookup scalar key entries := by
  induction entries with
  | nil =>
    by_cases hkey : key = index
    · subst hkey
      simp [enter, lookup]
    · simp [enter, lookup, hkey, Ne.symm hkey]
  | cons entry rest ih =>
    obtain ⟨first, sum⟩ := entry
    rw [enter]
    by_cases hfirst : first = index
    · subst hfirst
      rw [if_pos rfl, lookup, lookup]
      by_cases hkey : first = key
      · rw [if_pos hkey, if_pos hkey, if_pos hkey.symm]
      · rw [if_neg hkey, if_neg hkey, if_neg (Ne.symm hkey)]
    · rw [if_neg hfirst, lookup, lookup, ih]
      by_cases hkey : first = key
      · subst hkey
        rw [if_pos rfl, if_pos rfl, if_neg hfirst]
      · rw [if_neg hkey, if_neg hkey]

variable {ledger : Ledger} {column : Column}

def keys (ledger : Ledger) : List Nat := ledger.entries.map Prod.fst

/-- A ledger has an entry for a cell beyond the column. -/
def Overdrawn (ledger : Ledger) (size : Nat) : Prop := ∃ key ∈ ledger.keys, size ≤ key

theorem add_own (ledger : Ledger) (index : Nat) (value : ledger.scalar.Carrier) :
    ledger.add ledger.scalar index value =
      ⟨ledger.scalar, enter ledger.scalar index value ledger.entries⟩ := dif_pos rfl

theorem get_own (ledger : Ledger) (key : Nat) :
    ledger.get ledger.scalar key = lookup ledger.scalar key ledger.entries := dif_pos rfl

@[simp] theorem get_empty (scalar : Scalar) (key : Nat) :
    (empty scalar).get scalar key = scalar.zero := get_own (empty scalar) key

theorem get_add (ledger : Ledger) (index : Nat) (value : ledger.scalar.Carrier) (key : Nat) :
    (ledger.add ledger.scalar index value).get ledger.scalar key =
      if key = index then ledger.scalar.add (ledger.get ledger.scalar key) value
      else ledger.get ledger.scalar key := by
  rw [add_own, get_own, get_own ⟨ledger.scalar, _⟩, lookup_enter]

theorem add_of_ne {ledger : Ledger} {scalar : Scalar} (h : scalar ≠ ledger.scalar) (index : Nat)
    (value : scalar.Carrier) : ledger.add scalar index value = ledger := dif_neg h

theorem get_of_ne {ledger : Ledger} {scalar : Scalar} (h : scalar ≠ ledger.scalar) (index : Nat) :
    ledger.get scalar index = scalar.zero := dif_neg h

@[simp] theorem add_scalar (ledger : Ledger) (scalar : Scalar) (index : Nat)
    (value : scalar.Carrier) : (ledger.add scalar index value).scalar = ledger.scalar := by
  unfold add
  split
  · next h => exact h
  · rfl

theorem Overdrawn.add {size : Nat} (h : ledger.Overdrawn size) (scalar : Scalar) (index : Nat)
    (value : scalar.Carrier) : (ledger.add scalar index value).Overdrawn size := by
  obtain ⟨key, hkey, hsize⟩ := h
  apply Exists.intro key
  constructor
  · by_cases hscalar : scalar = ledger.scalar
    · subst hscalar
      rw [add_own]
      exact mem_enter hkey
    · rwa [add_of_ne hscalar]
  · exact hsize

theorem mem_keys_add {scalar : Scalar} {index : Nat} {value : scalar.Carrier} {key : Nat}
    (h : key ∈ (ledger.add scalar index value).keys) : key = index ∨ key ∈ ledger.keys := by
  by_cases hscalar : scalar = ledger.scalar
  · subst hscalar
    rw [add_own] at h
    exact mem_enter_cases h
  · rw [add_of_ne hscalar] at h
    exact .inr h

theorem mergeInto_own (ledger : Ledger) (cells : Array ledger.scalar.Carrier) :
    ledger.mergeInto ⟨ledger.scalar, cells⟩ =
      Outcome.ofLookup (settle ledger.scalar ledger.entries cells) >>= fun after =>
        .ok ⟨ledger.scalar, after⟩ := by
  rw [mergeInto, mergeInPlace, Column.as?_mk]
  dsimp only
  cases settle ledger.scalar ledger.entries cells <;> rfl

theorem mergeInPlace_of_ne (h : column.scalar ≠ ledger.scalar) : ledger.mergeInPlace column =
    .ok (column, .error (.scalarMismatch "local cache delta" column.scalar ledger.scalar)) := by
  rw [mergeInPlace, Column.as?_eq_none.mpr h]
  rfl

theorem mergeInto_of_ne (h : column.scalar ≠ ledger.scalar) : ledger.mergeInto column =
    Outcome.refuse (.scalarMismatch "local cache delta" column.scalar ledger.scalar) := by
  rw [mergeInto, mergeInPlace_of_ne h]
  rfl

theorem mergeInto_settles {after : Column} (h : ledger.mergeInto column = .ok after) :
    ∃ cells settled, column = ⟨ledger.scalar, cells⟩ ∧
      settle ledger.scalar ledger.entries cells = some settled ∧
      after = ⟨ledger.scalar, settled⟩ := by
  by_cases hscalar : column.scalar = ledger.scalar
  · obtain ⟨scalar, cells⟩ := column
    obtain rfl : scalar = ledger.scalar := hscalar
    rw [mergeInto_own, Outcome.ofLookup_bind_eq_ok] at h
    obtain ⟨settled, hsettled, h⟩ := h
    cases h
    exact ⟨cells, settled, rfl, hsettled, rfl⟩
  · rw [mergeInto_of_ne hscalar] at h
    cases h

theorem mergeInto_shape {after : Column} (h : ledger.mergeInto column = .ok after) :
    column.scalar = ledger.scalar ∧ after.shape = column.shape := by
  obtain ⟨cells, settled, rfl, hsettled, rfl⟩ := mergeInto_settles h
  exact ⟨rfl, congrArg (Prod.mk ledger.scalar) (settle_size hsettled)⟩

theorem settle_getElem? {cells after : Array scalar.Carrier} {index : Nat}
    (h : settle scalar entries cells = some after) (hindex : index ∉ entries.map Prod.fst) :
    after[index]? = cells[index]? := by
  induction entries generalizing cells with
  | nil =>
    cases h
    rfl
  | cons entry rest ih =>
    obtain ⟨key, sum⟩ := entry
    rw [List.map_cons, List.mem_cons, not_or] at hindex
    rw [settle_cons, Option.bind_eq_some_iff] at h
    obtain ⟨between, hbump, h⟩ := h
    obtain ⟨old, -, rfl⟩ := Cells.bump_eq_some.mp hbump
    rw [ih h hindex.2, Array.getElem?_setIfInBounds_ne (Ne.symm hindex.1)]

theorem mergeInto_cell {after : Column} (h : ledger.mergeInto column = .ok after) {index : Nat}
    (hindex : index ∉ ledger.keys) : after.cell? index = column.cell? index := by
  obtain ⟨cells, settled, rfl, hsettled, rfl⟩ := mergeInto_settles h
  simp only [Column.cell?, settle_getElem? hsettled hindex]

theorem mergeInto_empty (column : Column) :
    (empty column.scalar).mergeInto column = .ok column := mergeInto_own (empty column.scalar) _

theorem mergeInto_cases (h : column.scalar = ledger.scalar) :
    (∃ after, ledger.mergeInto column = .ok after ∧ ¬ledger.Overdrawn column.size) ∨
      ledger.mergeInto column = Outcome.fault .outOfBounds ∧ ledger.Overdrawn column.size := by
  obtain ⟨scalar, cells⟩ := column
  obtain rfl : scalar = ledger.scalar := h
  rw [mergeInto_own]
  cases hsettle : settle ledger.scalar ledger.entries cells with
  | none => exact .inr ⟨rfl, settle_eq_none.mp hsettle⟩
  | some after =>
    apply Or.inl
    apply Exists.intro ⟨ledger.scalar, after⟩
    constructor
    · rfl
    · intro hover
      rw [settle_eq_none.mpr hover] at hsettle
      cases hsettle

/-- An addition that is entered last is made last. -/
theorem mergeInto_add (h : ledger.scalar.isInteger = true) (index : Nat)
    (value : ledger.scalar.Carrier) (column : Column) :
    (ledger.add ledger.scalar index value).mergeInto column =
      ledger.mergeInto column >>= fun after =>
        after.updateCell ledger.scalar index (ledger.scalar.add · value) := by
  have hupdate : ∀ cells : Array ledger.scalar.Carrier,
      Column.updateCell ⟨ledger.scalar, cells⟩ ledger.scalar index (ledger.scalar.add · value) =
        Outcome.ofLookup (Cells.bump ledger.scalar index value cells) >>= fun after =>
          .ok ⟨ledger.scalar, after⟩ := by
    intro cells
    simp only [Column.updateCell, Column.as?_mk, Cells.bump]
    cases cells[index]? <;> rfl
  by_cases hscalar : column.scalar = ledger.scalar
  · obtain ⟨scalar, cells⟩ := column
    obtain rfl : scalar = ledger.scalar := hscalar
    rw [add_own, mergeInto_own, mergeInto_own, settle_enter h]
    cases settle ledger.scalar ledger.entries cells with
    | none => rfl
    | some settled =>
      simp only [Option.bind_some, Outcome.ofLookup_some, ok_bind]
      exact (hupdate settled).symm
  · have hother : column.scalar ≠ (ledger.add ledger.scalar index value).scalar := by
      rwa [add_scalar]
    rw [mergeInto_of_ne hother, mergeInto_of_ne hscalar, add_scalar]
    rfl

end Ledger

end MeshLayout
