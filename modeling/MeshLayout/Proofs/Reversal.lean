import MeshLayout.Proofs.Transpose

/-!
# Reversed adjacencies

The row of a target in the reversed adjacency lists the sources that reach it in ascending order,
each as often as it names the target. Nothing else about an adjacency is seen in the reversed one.
So reversing twice puts the entries of every row in order, and the third time gives what the first
one gave.
-/

set_option autoImplicit false

namespace MeshLayout

namespace Adjacency

variable {rows : List (List UInt32)} {targetCount : Nat} {adjacency : Adjacency}

structure Packed (adjacency : Adjacency) (rows : List (List UInt32)) : Prop where
  packable : Packable rows adjacency.targetCount
  rows_le : rows.length ≤ UInt32.size
  targets_le : adjacency.targetCount ≤ UInt32.size
  eq : adjacency = pack rows adjacency.targetCount

theorem exists_packed (hvalid : adjacency.validate = .ok ())
    (hrows : adjacency.rowCount ≤ UInt32.size) (htargets : adjacency.targetCount ≤ UInt32.size) :
    ∃ rows, Packed adjacency rows := by
  obtain ⟨rows, hpack, heq⟩ := exists_packable hvalid
  rw [heq, pack_rowCount] at hrows
  exact ⟨rows, hpack, hrows, htargets, heq⟩

namespace Packed

theorem rowCount (h : Packed adjacency rows) : adjacency.rowCount = rows.length := by
  rw [h.eq, pack_rowCount]

theorem row? (h : Packed adjacency rows) {row : Nat} (hrow : row < rows.length) :
    adjacency.row? row = some (rows.getD row []) := by
  rw [h.eq, pack_row? _ _ h.packable.entries_lt]
  exact getD_eq hrow

theorem eq_iff {other : Adjacency} {rows' : List (List UInt32)} (h : Packed adjacency rows)
    (h' : Packed other rows') (hcount : adjacency.targetCount = other.targetCount) :
    adjacency = other ↔ rows = rows' := by
  constructor
  · rintro rfl
    exact pack_injective h.packable.entries_lt (h.eq.symm.trans h'.eq)
  · rintro rfl
    rw [h.eq, h'.eq, hcount]

theorem transpose? (h : Packed adjacency rows) : ∃ reversed,
    adjacency.transpose? = some reversed ∧ Packed reversed (turned rows adjacency.targetCount) ∧
      reversed.targetCount = rows.length ∧ reversed.entryCount = adjacency.entryCount := by
  obtain ⟨hpack, hrows, htargets, heq⟩ := h
  generalize adjacency.targetCount = targetCount at *
  subst heq
  refine ⟨_, transpose?_pack hpack htargets,
    ⟨turned_packable hpack htargets hrows, by rwa [turned_length], hrows, rfl⟩, rfl, ?_⟩
  rw [pack_entryCount, pack_entryCount, turned_entries hpack htargets]

end Packed

theorem turned_getElem? (rows : List (List UInt32)) {target : Nat}
    (htarget : target < targetCount) :
    (turned rows targetCount)[target]? = some (turnedRow target.toUInt32 rows 0) := by
  rw [turned, List.getElem?_map, List.getElem?_range htarget, Option.map_some]

theorem Packed.turned_row? (h : Packed adjacency (turned rows targetCount)) {target : Nat}
    (htarget : target < targetCount) :
    adjacency.row? target = some (turnedRow target.toUInt32 rows 0) := by
  have hlength := turned_length rows targetCount
  rw [h.row? (hlength.symm ▸ htarget), ← getD_eq (hlength.symm ▸ htarget),
    turned_getElem? rows htarget]

theorem count_turnedRow_zero (target : UInt32) (hrows : rows.length ≤ UInt32.size) {source : Nat}
    (hsource : source < rows.length) :
    (turnedRow target rows 0).count source.toUInt32 = (rows.getD source []).count target := by
  have hcount := count_turnedRow target rows 0 (by rwa [Nat.zero_add]) source hsource
  rwa [Nat.zero_add] at hcount

/-- Reversing meets no overflow and leaves the arrays nowhere. The row of a target lists its
sources in ascending order, each as often as the target is in the row of the source. -/
theorem transpose?_reverses {adjacency : Adjacency} (valid : adjacency.validate = .ok ())
    (rows_le : adjacency.rowCount ≤ UInt32.size)
    (targets_le : adjacency.targetCount ≤ UInt32.size) :
    ∃ reversed, adjacency.transpose? = some reversed ∧
      reversed.rowCount = adjacency.targetCount ∧ reversed.targetCount = adjacency.rowCount ∧
      ∀ target < adjacency.targetCount, ∃ sources, reversed.row? target = some sources ∧
        sources.Pairwise (· ≤ ·) ∧ (∀ source ∈ sources, source.toNat < adjacency.rowCount) ∧
        ∀ source < adjacency.rowCount, ∃ row, adjacency.row? source = some row ∧
          sources.count source.toUInt32 = row.count target.toUInt32 := by
  obtain ⟨rows, h⟩ := exists_packed valid rows_le targets_le
  obtain ⟨reversed, hreversed, hturned, hcount, -⟩ := h.transpose?
  have hsize : 0 + rows.length ≤ UInt32.size := by
    rw [Nat.zero_add]
    exact h.rows_le
  rw [h.rowCount]
  refine ⟨reversed, hreversed, ?_, hcount, fun target htarget => ⟨_, hturned.turned_row? htarget,
    turnedRow_ascending _ rows 0 hsize, fun source hsource => ?_,
    fun source hsource => ⟨_, h.row? hsource, count_turnedRow_zero _ h.rows_le hsource⟩⟩⟩
  · rw [hturned.rowCount, turned_length]
  · have := turnedRow_bounds _ rows 0 hsize source hsource
    omega

theorem transpose?_reverses_repeated : ∃ reversed sources,
    (pack [[1, 2, 1], [], [2, 0]] 3).transpose? = some reversed ∧
      reversed.row? 1 = some sources ∧ sources.Pairwise (· ≤ ·) ∧ sources.count 0 = 2 ∧
      sources.count 1 = 0 := by
  have hvalid : (pack [[1, 2, 1], [], [2, 0]] 3).validate = .ok () := by decide
  obtain ⟨reversed, hreversed, -, -, hrows⟩ := transpose?_reverses hvalid (by decide) (by decide)
  obtain ⟨sources, hsources, hsorted, -, hcount⟩ := hrows 1 (by decide)
  obtain ⟨first, hfirst, htwice⟩ := hcount 0 (by decide)
  obtain ⟨second, hsecond, hnone⟩ := hcount 1 (by decide)
  obtain rfl : [1, 2, 1] = first := Option.some.inj (.trans (by decide) hfirst)
  obtain rfl : [] = second := Option.some.inj (.trans (by decide) hsecond)
  exact ⟨reversed, sources, hreversed, hsources, hsorted, htwice, hnone⟩

theorem turnedRow_turned (hpack : Packable rows targetCount) (hcount : targetCount ≤ UInt32.size)
    (hrows : rows.length ≤ UInt32.size) {i : Nat} (hi : i < rows.length) :
    (turnedRow i.toUInt32 (turned rows targetCount) 0).Perm (rows.getD i []) := by
  have hlength := turned_length rows targetCount
  refine List.perm_iff_count.mpr fun entry => ?_
  by_cases hentry : entry.toNat < targetCount
  · have houter : (turnedRow i.toUInt32 (turned rows targetCount) 0).count entry.toNat.toUInt32 =
        ((turned rows targetCount).getD entry.toNat []).count i.toUInt32 :=
      count_turnedRow_zero i.toUInt32 (hlength.symm ▸ hcount) (hlength.symm ▸ hentry)
    rwa [toUInt32_toNat, turned_getD rows hentry, count_turnedRow_zero entry hrows hi] at houter
  · have houter : entry ∉ turnedRow i.toUInt32 (turned rows targetCount) 0 := fun hmem => by
      have := turnedRow_bounds _ (turned rows targetCount) 0 (by omega) entry hmem
      omega
    have hgiven : entry ∉ rows.getD i [] := fun hmem => hentry (entry_lt hpack hmem)
    rw [List.count_eq_zero_of_not_mem houter, List.count_eq_zero_of_not_mem hgiven]

theorem turned_congr {rows rows' : List (List UInt32)} (hlength : rows.length = rows'.length)
    (hrows : ∀ i < rows.length, (rows.getD i []).Perm (rows'.getD i [])) (targetCount : Nat) :
    turned rows targetCount = turned rows' targetCount := by
  refine List.map_congr_left fun target _ => ?_
  rw [turnedRow_eq, turnedRow_eq, ← hlength]
  refine List.flatMap_congr fun i hi => ?_
  rw [(hrows i (List.mem_range.mp hi)).count_eq]

theorem turned_thrice (hpack : Packable rows targetCount) (hcount : targetCount ≤ UInt32.size)
    (hrows : rows.length ≤ UInt32.size) :
    turned (turned (turned rows targetCount) rows.length) targetCount =
      turned rows targetCount := by
  refine turned_congr (turned_length _ _) (fun i hi => ?_) targetCount
  rw [turned_length] at hi
  rw [List.getD_eq_getElem?_getD, turned_getElem? _ hi, Option.getD_some]
  exact turnedRow_turned hpack hcount hrows hi

/-- Turning twice sorts the rows, so it leaves alone what is sorted. -/
theorem turned_twice_eq_self (hpack : Packable rows targetCount)
    (hcount : targetCount ≤ UInt32.size) (hrows : rows.length ≤ UInt32.size) :
    turned (turned rows targetCount) rows.length = rows ↔
      ∀ row ∈ rows, row.Pairwise (· ≤ ·) := by
  have hsorted : ∀ i : Nat, (turnedRow i.toUInt32 (turned rows targetCount) 0).Pairwise (· ≤ ·) :=
    fun i => turnedRow_ascending _ _ 0 (by rwa [turned_length, Nat.zero_add])
  constructor
  · intro hsame row hrow
    rw [← hsame] at hrow
    obtain ⟨i, -, rfl⟩ := List.mem_map.mp hrow
    exact hsorted i
  · intro hgiven
    refine List.ext_getElem? fun i => ?_
    by_cases hi : i < rows.length
    · have hrow := hgiven _ (List.mem_of_getElem? (getD_eq hi))
      rw [turned_getElem? _ hi, getD_eq hi,
        (turnedRow_turned hpack hcount hrows hi).eq_of_pairwise
          (fun _ _ _ _ hle hge => UInt32.le_antisymm hle hge) (hsorted i) hrow]
    · rw [List.getElem?_eq_none (by rw [turned_length]; omega), List.getElem?_eq_none (by omega)]

/-- Reversing twice sorts every row and keeps the entries with their multiplicities. The third
reversal is the first one again. -/
theorem transpose?_twice {adjacency : Adjacency} (valid : adjacency.validate = .ok ())
    (rows_le : adjacency.rowCount ≤ UInt32.size)
    (targets_le : adjacency.targetCount ≤ UInt32.size) :
    ∃ reversed back, adjacency.transpose? = some reversed ∧ reversed.transpose? = some back ∧
      back.transpose? = some reversed ∧
      back.rowCount = adjacency.rowCount ∧ back.targetCount = adjacency.targetCount ∧
      (∀ row < adjacency.rowCount, ∃ entries sorted, adjacency.row? row = some entries ∧
        back.row? row = some sorted ∧ sorted.Pairwise (· ≤ ·) ∧ sorted.Perm entries) ∧
      (back = adjacency ↔ ∀ row < adjacency.rowCount, ∀ entries,
        adjacency.row? row = some entries → entries.Pairwise (· ≤ ·)) := by
  obtain ⟨rows, h⟩ := exists_packed valid rows_le targets_le
  obtain ⟨reversed, hreversed, hturned, hcount, -⟩ := h.transpose?
  obtain ⟨back, hback, hsorted, hcount', -⟩ := hturned.transpose?
  obtain ⟨third, hthird, hagain, hcount'', -⟩ := hsorted.transpose?
  -- The numbers of rows and of targets change places each time.
  rw [turned_length] at hcount' hcount''
  rw [hcount] at hsorted hagain hcount''
  rw [hcount', turned_thrice h.packable h.targets_le h.rows_le] at hagain
  refine ⟨reversed, back, hreversed, hback, ?_, ?_, hcount', fun row hrow => ?_, ?_⟩
  · rw [hthird, (hagain.eq_iff hturned (hcount''.trans hcount.symm)).mpr rfl]
  · rw [hsorted.rowCount, turned_length, h.rowCount]
  · rw [h.rowCount] at hrow
    exact ⟨_, _, h.row? hrow, hsorted.turned_row? hrow,
      turnedRow_ascending _ _ 0 (by rw [turned_length, Nat.zero_add]; exact h.targets_le),
      turnedRow_turned h.packable h.targets_le h.rows_le hrow⟩
  · rw [hsorted.eq_iff h hcount', turned_twice_eq_self h.packable h.targets_le h.rows_le,
      h.rowCount]
    constructor
    · intro hall row hrow entries hentries
      rw [h.row? hrow] at hentries
      cases hentries
      exact hall _ (List.mem_of_getElem? (getD_eq hrow))
    · intro hall row hrow
      obtain ⟨i, hi⟩ := List.mem_iff_getElem?.mp hrow
      have hlt := (List.getElem?_eq_some_iff.mp hi).1
      exact hall i hlt row ((h.row? hlt).trans ((getD_eq hlt).symm.trans hi))

theorem transpose?_twice_unsorted : ∃ reversed back,
    (pack [[2, 0, 2], [1]] 3).transpose? = some reversed ∧ reversed.transpose? = some back ∧
      back.transpose? = some reversed ∧ back.row? 0 = some [0, 2, 2] ∧
      back ≠ pack [[2, 0, 2], [1]] 3 := by
  have hvalid : (pack [[2, 0, 2], [1]] 3).validate = .ok () := by decide
  obtain ⟨reversed, back, hreversed, hback, hthird, -, -, -, hsame⟩ :=
    transpose?_twice hvalid (by decide) (by decide)
  refine ⟨reversed, back, hreversed, hback, hthird, ?_, fun heq => ?_⟩
  · obtain rfl : pack [[0], [1], [0, 0]] 2 = reversed := by
      rw [← Option.some_inj, ← hreversed]
      decide +kernel
    obtain rfl : pack [[0, 2, 2], [1]] 3 = back := by
      rw [← Option.some_inj, ← hback]
      decide +kernel
    decide
  · exact absurd (hsame.mp heq 0 (by decide) [2, 0, 2] (by decide)) (by decide)

end Adjacency

end MeshLayout
