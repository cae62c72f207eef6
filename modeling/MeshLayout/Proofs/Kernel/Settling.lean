import MeshLayout.Proofs.Kernel.Ledger

/-!
# Settling a ledger

A ledger of whole numbers remembers of its additions one sum for each index. The sum is exact up to
the width of the type, however often it has wrapped on the way, and since no index has two entries
it makes no difference in which order the entries are listed when the ledger is settled. Every cell
then gains what was added at its index, and a cell at which nothing was added is left.
-/

set_option autoImplicit false

namespace MeshLayout

namespace Scalar

/-- The whole number that a value stands for; binary fractions stand for none. -/
def number : (scalar : Scalar) → scalar.Carrier → Int
  | i32, value => Int32.toInt value
  | i64, value => Int64.toInt value
  | u32, value => UInt32.toNat value
  | u64, value => UInt64.toNat value
  | f32, _ => 0
  | f64, _ => 0

/-- The value that stands for a whole number modulo the width of the type. -/
def wrap : (scalar : Scalar) → Int → scalar.Carrier
  | i32, n => Int32.ofInt n
  | i64, n => Int64.ofInt n
  | u32, n => UInt32.ofInt n
  | u64, n => UInt64.ofInt n
  | f32, _ => zero f32
  | f64, _ => zero f64

variable {scalar : Scalar}

@[simp] theorem wrap_zero : scalar.wrap 0 = scalar.zero := by cases scalar <;> rfl

theorem wrap_number (h : scalar.isInteger = true) (value : scalar.Carrier) :
    scalar.wrap (scalar.number value) = value := by
  cases scalar with
  | i32 => exact Int32.ofInt_toInt value
  | i64 => exact Int64.ofInt_toInt value
  | u32 =>
    have hlt := UInt32.toNat_lt value
    have hsame : ((UInt32.toNat value : Int) % 2 ^ 32).toNat = UInt32.toNat value := by omega
    rw [wrap, number, UInt32.ofInt, hsame, UInt32.ofNat_toNat]
  | u64 =>
    have hlt := UInt64.toNat_lt value
    have hsame : ((UInt64.toNat value : Int) % 2 ^ 64).toNat = UInt64.toNat value := by omega
    rw [wrap, number, UInt64.ofInt, hsame, UInt64.ofNat_toNat]
  | f32 => cases h
  | f64 => cases h

theorem wrap_add (h : scalar.isInteger = true) (m n : Int) :
    scalar.wrap (m + n) = scalar.add (scalar.wrap m) (scalar.wrap n) := by
  cases scalar with
  | i32 => exact Int32.ofInt_add m n
  | i64 => exact Int64.ofInt_add m n
  | u32 => exact UInt32.ofInt_add m n
  | u64 => exact UInt64.ofInt_add m n
  | f32 => cases h
  | f64 => cases h

end Scalar

structure Addition where
  scalar : Scalar
  index : Nat
  value : scalar.Carrier

namespace Addition

def Meets (addition : Addition) (scalar : Scalar) (index : Nat) : Prop :=
  addition.scalar = scalar ∧ addition.index = index

instance (addition : Addition) (scalar : Scalar) (index : Nat) :
    Decidable (addition.Meets scalar index) := inferInstanceAs (Decidable (_ ∧ _))

def amount (addition : Addition) (scalar : Scalar) (index : Nat) : Int :=
  if addition.Meets scalar index then addition.scalar.number addition.value else 0

def total (scalar : Scalar) (index : Nat) : List Addition → Int
  | [] => 0
  | next :: rest => next.amount scalar index + total scalar index rest

theorem total_eq_zero {scalar : Scalar} {index : Nat} {additions : List Addition}
    (h : ∀ addition ∈ additions, ¬addition.Meets scalar index) :
    total scalar index additions = 0 := by
  induction additions with
  | nil => rfl
  | cons next rest ih =>
    rw [total, amount, if_neg (h next List.mem_cons_self), Int.zero_add]
    exact ih fun addition hrest => h addition (List.mem_cons_of_mem _ hrest)

end Addition

namespace Ledger

def addAll (ledger : Ledger) : List Addition → Ledger
  | [] => ledger
  | next :: rest => (ledger.add next.scalar next.index next.value).addAll rest

/-- The same entries, listed in another order. -/
inductive Reordered : Ledger → Ledger → Prop
  | mk {scalar : Scalar} {entries others : List (Nat × scalar.Carrier)}
      (perm : entries.Perm others) : Reordered ⟨scalar, entries⟩ ⟨scalar, others⟩

/-- A ledger tells of additions of one type, some of which may be of other types and are passed
over, exactly what they sum up to at each index, and pays it out to columns of its type. -/
structure Faithful (ledger : Ledger) (scalar : Scalar) (additions : List Addition) : Prop where
  get : ∀ index, ledger.get scalar index = scalar.wrap (Addition.total scalar index additions)
  get_zero : ∀ index, (∀ addition ∈ additions, ¬addition.Meets scalar index) →
    ledger.get scalar index = scalar.zero
  get_other : ∀ other ≠ scalar, ∀ index, ledger.get other index = other.zero
  add_other : ∀ other ≠ scalar, ∀ index value, ledger.add other index value = ledger
  merge_own : ∀ cells : Array scalar.Carrier,
    (∀ addition ∈ additions, addition.scalar = scalar → addition.index < cells.size) →
      ∃ after : Array scalar.Carrier,
        ledger.mergeInPlace ⟨scalar, cells⟩ = .ok (⟨scalar, after⟩, .ok ()) ∧
          after.size = cells.size ∧
          (∀ index, after[index]? = cells[index]?.map fun old =>
            scalar.wrap (scalar.number old + Addition.total scalar index additions)) ∧
          ∀ index, (∀ addition ∈ additions, ¬addition.Meets scalar index) →
            after[index]? = cells[index]?
  merge_other : ∀ column : Column, column.scalar ≠ scalar → ledger.mergeInPlace column =
    .ok (column, .error (.scalarMismatch "local cache delta" column.scalar scalar))

section Sums

variable {scalar : Scalar} {ledger : Ledger} {index : Nat}

theorem get_add_amount (hinteger : scalar.isInteger = true) (h : ledger.scalar = scalar)
    (next : Addition) : (ledger.add next.scalar next.index next.value).get scalar index =
      scalar.add (ledger.get scalar index) (scalar.wrap (next.amount scalar index)) := by
  subst h
  obtain ⟨scalar, place, value⟩ := next
  rw [Addition.amount]
  by_cases hscalar : scalar = ledger.scalar
  · subst hscalar
    rw [get_add]
    by_cases hindex : index = place
    · rw [if_pos hindex, if_pos ⟨rfl, hindex.symm⟩, Scalar.wrap_number hinteger]
    · rw [if_neg hindex, if_neg fun hmeets => hindex hmeets.2.symm, Scalar.wrap_zero,
        Scalar.add_zero hinteger]
  · rw [add_of_ne hscalar, if_neg fun hmeets => hscalar hmeets.1, Scalar.wrap_zero,
      Scalar.add_zero hinteger]

@[simp] theorem addAll_scalar (ledger : Ledger) (additions : List Addition) :
    (ledger.addAll additions).scalar = ledger.scalar := by
  induction additions generalizing ledger with
  | nil => rfl
  | cons next rest ih => rw [addAll, ih, add_scalar]

theorem get_addAll (hinteger : scalar.isInteger = true) (h : ledger.scalar = scalar)
    (additions : List Addition) : (ledger.addAll additions).get scalar index =
      scalar.add (ledger.get scalar index)
        (scalar.wrap (Addition.total scalar index additions)) := by
  induction additions generalizing ledger with
  | nil => rw [addAll, Addition.total, Scalar.wrap_zero, Scalar.add_zero hinteger]
  | cons next rest ih =>
    rw [addAll, ih (by rw [add_scalar, h]), get_add_amount hinteger h, Scalar.add_assoc hinteger,
      ← Scalar.wrap_add hinteger, Addition.total]

end Sums

section Keys

variable {scalar : Scalar} {entries others : List (Nat × scalar.Carrier)} {ledger : Ledger}
  {key : Nat}

theorem enter_nodup (index : Nat) (value : scalar.Carrier) (h : (entries.map Prod.fst).Nodup) :
    ((enter scalar index value entries).map Prod.fst).Nodup := by
  induction entries with
  | nil => exact List.nodup_singleton index
  | cons entry rest ih =>
    obtain ⟨first, sum⟩ := entry
    obtain ⟨hfirst, hrest⟩ := List.nodup_cons.mp h
    rw [enter]
    split
    · exact h
    · next hne =>
      apply List.nodup_cons.mpr
      constructor
      · intro hmem
        rcases mem_enter_cases hmem with rfl | hmem
        · exact hne rfl
        · exact hfirst hmem
      · exact ih hrest

theorem addAll_keys_nodup (h : ledger.keys.Nodup) (additions : List Addition) :
    (ledger.addAll additions).keys.Nodup := by
  induction additions generalizing ledger with
  | nil => exact h
  | cons next rest ih =>
    obtain ⟨scalar, index, value⟩ := next
    apply ih
    by_cases hscalar : scalar = ledger.scalar
    · subst hscalar
      rw [add_own]
      exact enter_nodup index value h
    · rwa [add_of_ne hscalar]

theorem mem_keys_addAll {additions : List Addition} (h : key ∈ (ledger.addAll additions).keys) :
    key ∈ ledger.keys ∨ ∃ addition ∈ additions, addition.Meets ledger.scalar key := by
  induction additions generalizing ledger with
  | nil => exact .inl h
  | cons next rest ih =>
    obtain ⟨scalar, index, value⟩ := next
    rcases ih h with hkey | ⟨addition, hrest, hmeets⟩
    · by_cases hscalar : scalar = ledger.scalar
      · refine (mem_keys_add hkey).symm.imp_right fun hindex => ?_
        exact ⟨_, List.mem_cons_self, hscalar, hindex.symm⟩
      · rw [add_of_ne hscalar] at hkey
        exact .inl hkey
    · rw [add_scalar] at hmeets
      exact .inr ⟨addition, List.mem_cons_of_mem _ hrest, hmeets⟩

theorem lookup_of_not_mem (h : key ∉ entries.map Prod.fst) :
    lookup scalar key entries = scalar.zero := by
  induction entries with
  | nil => rfl
  | cons entry rest ih =>
    rw [List.map_cons, List.mem_cons, not_or] at h
    rw [lookup, if_neg (Ne.symm h.1), ih h.2]

theorem lookup_of_mem {sum : scalar.Carrier} (hnodup : (entries.map Prod.fst).Nodup)
    (h : (key, sum) ∈ entries) : lookup scalar key entries = sum := by
  induction entries with
  | nil => cases h
  | cons entry rest ih =>
    obtain ⟨hfirst, hrest⟩ := List.nodup_cons.mp hnodup
    rw [lookup]
    rcases List.mem_cons.mp h with rfl | hmem
    · rw [if_pos rfl]
    · have hne : entry.1 ≠ key := by
        rintro rfl
        exact hfirst (List.mem_map.mpr ⟨_, hmem, rfl⟩)
      rw [if_neg hne, ih hrest hmem]

theorem lookup_perm (h : entries.Perm others) (hnodup : (entries.map Prod.fst).Nodup) :
    lookup scalar key others = lookup scalar key entries := by
  have hothers : (others.map Prod.fst).Nodup := (h.map Prod.fst).nodup_iff.mp hnodup
  by_cases hkey : key ∈ entries.map Prod.fst
  · obtain ⟨⟨_, sum⟩, hmem, rfl⟩ := List.mem_map.mp hkey
    rw [lookup_of_mem hnodup hmem, lookup_of_mem hothers (h.mem_iff.mp hmem)]
  · have hother : key ∉ others.map Prod.fst := fun hmem =>
      hkey ((h.map Prod.fst).mem_iff.mpr hmem)
    rw [lookup_of_not_mem hkey, lookup_of_not_mem hother]

theorem settle_lookup (hinteger : scalar.isInteger = true)
    (hnodup : (entries.map Prod.fst).Nodup) {cells after : Array scalar.Carrier}
    (h : settle scalar entries cells = some after) (index : Nat) :
    after[index]? = cells[index]?.map (scalar.add · (lookup scalar index entries)) := by
  induction entries generalizing cells with
  | nil =>
    cases h
    simp only [lookup, Scalar.add_zero hinteger, Option.map_id']
  | cons entry rest ih =>
    obtain ⟨key, sum⟩ := entry
    obtain ⟨hfirst, hrest⟩ := List.nodup_cons.mp hnodup
    rw [settle_cons, Option.bind_eq_some_iff] at h
    obtain ⟨between, hbump, h⟩ := h
    obtain ⟨old, hold, rfl⟩ := Cells.bump_eq_some.mp hbump
    rw [ih hrest h, lookup]
    by_cases hkey : key = index
    · subst hkey
      have hlt := (Array.getElem?_eq_some_iff.mp hold).1
      -- No later entry is for this index, so what the rest adds to the cell is zero.
      rw [if_pos rfl, lookup_of_not_mem hfirst, Array.getElem?_setIfInBounds_self_of_lt hlt, hold,
        Option.map_some, Option.map_some, Scalar.add_zero hinteger]
    · rw [if_neg hkey, Array.getElem?_setIfInBounds_ne hkey]

end Keys

namespace Reordered

variable {ledger other : Ledger}

theorem scalar (h : Reordered ledger other) : other.scalar = ledger.scalar := by
  cases h with
  | mk perm => rfl

theorem keys (h : Reordered ledger other) : ledger.keys.Perm other.keys := by
  cases h with
  | mk perm => exact perm.map Prod.fst

theorem get (h : Reordered ledger other) (hnodup : ledger.keys.Nodup) (scalar : Scalar)
    (index : Nat) : other.get scalar index = ledger.get scalar index := by
  cases h with
  | @mk own entries others perm =>
    by_cases hscalar : scalar = own
    · subst hscalar
      rw [get_own ⟨scalar, others⟩, get_own ⟨scalar, entries⟩, lookup_perm perm hnodup]
    · rw [get_of_ne hscalar, get_of_ne hscalar]

end Reordered

section Merge

variable {ledger : Ledger}

theorem mergeInPlace_own (hinteger : ledger.scalar.isInteger = true) (hnodup : ledger.keys.Nodup)
    (cells : Array ledger.scalar.Carrier) (h : ∀ key ∈ ledger.keys, key < cells.size) :
    ∃ after : Array ledger.scalar.Carrier,
      ledger.mergeInPlace ⟨ledger.scalar, cells⟩ = .ok (⟨ledger.scalar, after⟩, .ok ()) ∧
        after.size = cells.size ∧ ∀ index, after[index]? =
          cells[index]?.map (ledger.scalar.add · (ledger.get ledger.scalar index)) := by
  cases hsettle : settle ledger.scalar ledger.entries cells with
  | none =>
    obtain ⟨key, hkey, hle⟩ := settle_eq_none.mp hsettle
    exact absurd (h key hkey) (by omega)
  | some after =>
    refine ⟨after, ?_, settle_size hsettle, fun index => ?_⟩
    · simp only [mergeInPlace, Column.as?_mk, hsettle]
      rfl
    · rw [settle_lookup hinteger hnodup hsettle, get_own]

end Merge

/-- A ledger of whole numbers tells and pays out the totals of its additions, in whatever order its
entries are listed. -/
theorem addAll_faithful {scalar : Scalar} (hinteger : scalar.isInteger = true)
    (additions : List Addition) {ledger : Ledger}
    (horder : Reordered ((empty scalar).addAll additions) ledger) :
    ledger.Faithful scalar additions := by
  have hempty : (empty scalar).keys.Nodup := List.nodup_nil
  have hnodup := addAll_keys_nodup hempty additions
  have hget : ∀ index, ledger.get scalar index =
      scalar.wrap (Addition.total scalar index additions) := by
    intro index
    rw [horder.get hnodup, get_addAll hinteger rfl, get_empty, Scalar.zero_add hinteger]
  have hkeys : ∀ key ∈ ledger.keys, ∃ addition ∈ additions, addition.Meets scalar key := by
    intro key hkey
    rcases mem_keys_addAll (horder.keys.mem_iff.mpr hkey) with hnone | hmeets
    · cases hnone
    · exact hmeets
  obtain rfl : ledger.scalar = scalar := by rw [horder.scalar, addAll_scalar, empty]
  refine ⟨hget, fun index hfree => ?_, fun other hother => get_of_ne hother,
    fun other hother => add_of_ne hother, fun cells hlong => ?_, fun column => mergeInPlace_of_ne⟩
  · rw [hget, Addition.total_eq_zero hfree, Scalar.wrap_zero]
  · have hinside : ∀ key ∈ ledger.keys, key < cells.size := by
      intro key hkey
      obtain ⟨addition, hmem, hscalar, rfl⟩ := hkeys key hkey
      exact hlong addition hmem hscalar
    obtain ⟨after, hafter, hsize, hcells⟩ :=
      mergeInPlace_own hinteger (horder.keys.nodup_iff.mp hnodup) cells hinside
    have hpaid : ∀ index, after[index]? = cells[index]?.map fun old => ledger.scalar.wrap
        (ledger.scalar.number old + Addition.total ledger.scalar index additions) := by
      intro index
      simp only [hcells, hget, Scalar.wrap_add hinteger, Scalar.wrap_number hinteger]
    refine ⟨after, hafter, hsize, hpaid, fun index hfree => ?_⟩
    simp only [hpaid, Addition.total_eq_zero hfree, Int.add_zero, Scalar.wrap_number hinteger,
      Option.map_id']

def overflowing : List Addition :=
  [⟨.i32, 0, (2147483647 : Int32)⟩, ⟨.u64, 0, (5 : UInt64)⟩, ⟨.i32, 1, (-3 : Int32)⟩,
    ⟨.i32, 0, (1 : Int32)⟩]

def overflowed : Ledger := ⟨.i32, [(1, (-3 : Int32)), (0, (-2147483648 : Int32))]⟩

theorem addAll_faithful_overflowed : Scalar.i32.isInteger = true ∧
    Reordered ((empty .i32).addAll overflowing) overflowed ∧
      overflowed.Faithful .i32 overflowing := by
  have horder : Reordered ((empty .i32).addAll overflowing) overflowed :=
    .mk (List.Perm.swap (1, (-3 : Int32)) (0, (-2147483648 : Int32)) [])
  exact ⟨rfl, horder, addAll_faithful rfl overflowing horder⟩

example : overflowed.mergeInPlace ⟨.i32, (#[7, 10, 4] : Array Int32)⟩ =
    .ok (⟨.i32, (#[-2147483641, 7, 4] : Array Int32)⟩, .ok ()) := rfl

end Ledger

end MeshLayout
