import MeshLayout.Proofs.Construction

/-!
# Renamings one after the other

A renaming fetches its rows and sends its targets on: row `i` is the row that the first table names
at `i`, and a target becomes what the second table holds for it. So if one renaming follows
another, the tables for rows are read from the second to the first, and the tables for targets from
the first to the second. Tables that are read backwards undo a renaming.
-/

set_option autoImplicit false

namespace MeshLayout

namespace Adjacency

def Permutes (size : Nat) (table : Option (Array UInt32)) : Prop :=
  ∀ given ∈ table, Bijection size given

instance (size : Nat) (table : Option (Array UInt32)) : Decidable (Permutes size table) :=
  inferInstanceAs (Decidable (∀ given ∈ table, Bijection size given))

/-- What the second table holds for what the first one holds. Without a table numbers stay. -/
def through : Option (Array UInt32) → Option (Array UInt32) → Option (Array UInt32)
  | none, second => second
  | some first, none => some first
  | some first, some second => some (first.map fun word => (second[word.toNat]?).getD 0)

def inverse (table : Option (Array UInt32)) : Option (Array UInt32) :=
  table.map fun given => Permutation.invert given.toList 0 (Array.replicate given.size 0)

namespace Bijection

variable {size : Nat} {table : Array UInt32}

theorem nodup (h : Bijection size table) : table.toList.Nodup :=
  (h.nodup_iff.mpr List.nodup_range).of_map _

theorem entry_lt (h : Bijection size table) {word : UInt32} (hword : word ∈ table.toList) :
    word.toNat < size := List.mem_range.mp (h.mem_iff.mp (List.mem_map_of_mem hword))

theorem size_le (h : Bijection size table) : size ≤ UInt32.size := by
  rcases Nat.eq_zero_or_pos size with rfl | hpos
  · exact Nat.zero_le _
  · have hlast := h.mem_iff.mpr (List.mem_range.mpr (Nat.sub_lt hpos Nat.one_pos))
    obtain ⟨word, -, hword⟩ := List.mem_map.mp hlast
    have hlt : word.toNat < UInt32.size := word.toNat_lt
    omega

theorem lawful (h : Bijection size table) : Permutation.Lawful
    ⟨Permutation.invert table.toList 0 (Array.replicate table.size 0), table,
      Permutation.inOrder table.toList 0⟩ := by
  have hlength : table.toList.length = size := by rw [Array.length_toList, h.size_eq]
  have hlawful := Permutation.lawful_of_order table.toList 0 h.nodup
    (fun _ hword => hlength.symm ▸ h.entry_lt hword) (hlength.symm ▸ h.size_le)
  rwa [Array.length_toList] at hlawful

end Bijection

section Tables

variable {size i : Nat} {table first second : Option (Array UInt32)}

theorem renamedTarget_toNat (table : Option (Array UInt32)) (target : UInt32) :
    (renamedTarget table target).toNat = movedRow table target.toNat := by
  cases table <;> rfl

theorem movedRow_lt (h : Permutes size table) (hi : i < size) : movedRow table i < size :=
  (movedRow_lookup hi h).2

theorem exists_movedRow (h : Permutes size table) (hi : i < size) :
    ∃ j < size, movedRow table j = i := by
  have hmem := (movedRow_perm h).mem_iff.mpr (List.mem_range.mpr hi)
  obtain ⟨j, hj, heq⟩ := List.mem_map.mp hmem
  exact ⟨j, List.mem_range.mp hj, heq⟩

theorem permutes_of_perm {given : Array UInt32} (hsize : given.size = size)
    (h : ((List.range size).map (movedRow (some given))).Perm (List.range size)) :
    Permutes size (some given) := by
  rintro _ ⟨⟩
  subst hsize
  rwa [movedRow_range] at h

theorem movedRow_through (hfirst : Permutes size first) (hi : i < size) :
    movedRow (through first second) i = movedRow second (movedRow first i) := by
  cases first with
  | none => rfl
  | some given =>
    cases second with
    | none => rfl
    | some next =>
      obtain ⟨word, hword, -⟩ := (hfirst given rfl).lookup hi
      simp only [through, movedRow, Array.getElem?_map, hword, Option.map_some, Option.getD_some]

theorem movedRow_inverse (h : Permutes size table) (hi : i < size) :
    movedRow (inverse table) (movedRow table i) = i := by
  cases table with
  | none => rfl
  | some given =>
    have hgiven := h given rfl
    have hword : i.toUInt32.toNat = i := toNat_toUInt32 (Nat.lt_of_lt_of_le hi hgiven.size_le)
    obtain ⟨word, hlookup, -⟩ := hgiven.lookup hi
    have hslot : (Permutation.invert given.toList 0 (Array.replicate given.size 0))[word.toNat]? =
        some i.toUInt32 := hgiven.lawful.slotOf_identityOf (by rwa [Permutation.identityOf?, hword])
    simp only [inverse, movedRow, Option.map_some, hlookup, Option.getD_some, hslot, hword]

theorem movedRow_of_inverse (h : Permutes size table) (hi : i < size) :
    movedRow table (movedRow (inverse table) i) = i := by
  obtain ⟨j, hj, rfl⟩ := exists_movedRow h hi
  rw [movedRow_inverse h hj]

theorem Permutes.through (hfirst : Permutes size first) (hsecond : Permutes size second) :
    Permutes size (through first second) := by
  cases first with
  | none => exact hsecond
  | some given =>
    cases second with
    | none => exact hfirst
    | some next =>
      apply permutes_of_perm (by rw [Array.size_map, (hfirst given rfl).size_eq])
      have hmoved : (List.range size).map (movedRow (Adjacency.through (some given) (some next))) =
          ((List.range size).map (movedRow (some given))).map (movedRow (some next)) := by
        rw [List.map_map]
        exact List.map_congr_left fun i hi => movedRow_through hfirst (List.mem_range.mp hi)
      exact hmoved ▸ ((movedRow_perm hfirst).map _).trans (movedRow_perm hsecond)

theorem Permutes.inverse (h : Permutes size table) : Permutes size (inverse table) := by
  cases table with
  | none => exact h
  | some given =>
    apply permutes_of_perm
      (by rw [Permutation.invert_size, Array.size_replicate, (h given rfl).size_eq])
    have hback : ((List.range size).map (movedRow (some given))).map
        (movedRow (Adjacency.inverse (some given))) = List.range size := by
      rw [List.map_map]
      refine (List.map_congr_left fun i hi => ?_).trans (List.map_id _)
      exact movedRow_inverse h (List.mem_range.mp hi)
    exact ((movedRow_perm h).symm.map _).trans (.of_eq hback)

theorem renamedTarget_through {target : UInt32} (hfirst : Permutes size first)
    (htarget : target.toNat < size) : renamedTarget (through first second) target =
      renamedTarget second (renamedTarget first target) := by
  rw [← UInt32.toNat_inj]
  simp only [renamedTarget_toNat, movedRow_through hfirst htarget]

theorem renamedTarget_inverse {target : UInt32} (h : Permutes size table)
    (htarget : target.toNat < size) :
    renamedTarget (inverse table) (renamedTarget table target) = target := by
  rw [← UInt32.toNat_inj]
  simp only [renamedTarget_toNat, movedRow_inverse h htarget]

end Tables

section Rows

variable {rows : List (List UInt32)} {targetCount : Nat}
  {rowSource targetMap nextRows nextTargets : Option (Array UInt32)}

theorem renamed_eq (rowSource targetMap : Option (Array UInt32)) (rows : List (List UInt32)) :
    renamed rowSource targetMap rows =
      (List.range rows.length).map fun i => renamedRow targetMap rows (movedRow rowSource i) :=
  List.map_map

theorem renamed_getD {i : Nat} (hi : i < rows.length) :
    (renamed rowSource targetMap rows).getD i [] =
      renamedRow targetMap rows (movedRow rowSource i) := by
  rw [renamed_eq, List.getD_eq_getElem?_getD, List.getElem?_map, List.getElem?_range hi]
  rfl

theorem renamed_none (rows : List (List UInt32)) : renamed none none rows = rows := by
  apply List.ext_getElem renamed_length
  intro i hi hrow
  rw [← Option.some_inj, ← List.getElem?_eq_getElem, ← List.getElem?_eq_getElem,
    getD_eq hi, renamed_getD hrow, getD_eq hrow]
  exact congrArg some (List.map_id _)

/-- What two renamings do, one does with tables that say of each row and target what theirs say
one after the other. -/
theorem renamed_renamed {rowsTable targetsTable : Option (Array UInt32)}
    (hpack : Packable rows targetCount) (hnext : Permutes rows.length nextRows)
    (hrows : ∀ i < rows.length, movedRow rowsTable i = movedRow rowSource (movedRow nextRows i))
    (htargets : ∀ target : UInt32, target.toNat < targetCount → renamedTarget targetsTable target =
      renamedTarget nextTargets (renamedTarget targetMap target)) :
    renamed nextRows nextTargets (renamed rowSource targetMap rows) =
      renamed rowsTable targetsTable rows := by
  rw [renamed_eq nextRows, renamed_length, renamed_eq rowsTable]
  apply List.map_congr_left
  intro i hi
  rw [List.mem_range] at hi
  calc renamedRow nextTargets (renamed rowSource targetMap rows) (movedRow nextRows i)
    _ = (renamedRow targetMap rows (movedRow rowSource (movedRow nextRows i))).map
        (renamedTarget nextTargets) := by rw [renamedRow, renamed_getD (movedRow_lt hnext hi)]
    _ = renamedRow targetsTable rows (movedRow rowsTable i) := by
      rw [hrows i hi, renamedRow, renamedRow, List.map_map]
      exact List.map_congr_left fun target htarget =>
        (htargets target (entry_lt hpack htarget)).symm

end Rows

/-- The adjacency after rows are fetched and targets sent on as two tables say. Rows keep the order
of their entries. -/
structure Renames (adjacency : Adjacency) (rowSource targetMap : Option (Array UInt32))
    (moved : Adjacency) : Prop where
  valid : moved.validate = .ok ()
  rowCount : moved.rowCount = adjacency.rowCount
  targetCount : moved.targetCount = adjacency.targetCount
  entryCount : moved.entryCount = adjacency.entryCount
  row : ∀ i < adjacency.rowCount, ∃ entries,
    adjacency.row? (movedRow rowSource i) = some entries ∧
      moved.row? i = some (entries.map (renamedTarget targetMap))

section Renaming

variable {adjacency : Adjacency} {rowSource targetMap nextRows nextTargets : Option (Array UInt32)}
  {rows : List (List UInt32)} {targetCount : Nat}

theorem renames_pack (hpack : Packable rows targetCount) (hrows : Permutes rows.length rowSource)
    (htargets : Permutes targetCount targetMap) :
    Renames (pack rows targetCount) rowSource targetMap
      (pack (renamed rowSource targetMap rows) targetCount) where
  valid := (renamed_packable hpack hrows htargets).validate
  rowCount := by rw [pack_rowCount, pack_rowCount, renamed_length]
  targetCount := rfl
  entryCount := by rw [pack_entryCount, pack_entryCount, renamed_entries hrows]
  row := by
    intro i hi
    rw [pack_rowCount] at hi
    refine ⟨_, (pack_row? _ _ hpack.entries_lt _).trans (getD_eq (movedRow_lt hrows hi)), ?_⟩
    rw [pack_row? _ _ (renamed_packable hpack hrows htargets).entries_lt,
      getD_eq (renamed_length.symm ▸ hi), renamed_getD hi]
    rfl

/-- Renamings compose, rows in one direction and targets in the other, and the inverse tables take
a renaming back. -/
theorem remap?_through (valid : adjacency.validate = .ok ())
    (rowSource_permutes : Permutes adjacency.rowCount rowSource)
    (targetMap_permutes : Permutes adjacency.targetCount targetMap)
    (nextRows_permutes : Permutes adjacency.rowCount nextRows)
    (nextTargets_permutes : Permutes adjacency.targetCount nextTargets) : ∃ moved twice,
    adjacency.remap? rowSource targetMap = some moved ∧
      Renames adjacency rowSource targetMap moved ∧
      moved.remap? nextRows nextTargets = some twice ∧
      adjacency.remap? (through nextRows rowSource) (through targetMap nextTargets) = some twice ∧
      moved.remap? (inverse rowSource) (inverse targetMap) = some adjacency := by
  obtain ⟨rows, hpack, heq⟩ := exists_packable valid
  generalize adjacency.targetCount = targetCount at *
  subst heq
  rw [pack_rowCount] at rowSource_permutes nextRows_permutes
  have hmoved := renamed_packable hpack rowSource_permutes targetMap_permutes
  have hlength : (renamed rowSource targetMap rows).length = rows.length := renamed_length
  refine ⟨_, _, remap?_renamed hpack rowSource_permutes targetMap_permutes,
    renames_pack hpack rowSource_permutes targetMap_permutes,
    remap?_renamed hmoved (hlength.symm ▸ nextRows_permutes) nextTargets_permutes, ?_, ?_⟩
  · rw [remap?_renamed hpack (nextRows_permutes.through rowSource_permutes)
      (targetMap_permutes.through nextTargets_permutes),
      renamed_renamed hpack nextRows_permutes
        (fun _ hi => movedRow_through nextRows_permutes hi)
        fun _ htarget => renamedTarget_through targetMap_permutes htarget]
  · have hback : renamed (inverse rowSource) (inverse targetMap)
        (renamed rowSource targetMap rows) = renamed none none rows :=
      renamed_renamed hpack rowSource_permutes.inverse
        (fun _ hi => (movedRow_of_inverse rowSource_permutes hi).symm)
        fun _ htarget => (renamedTarget_inverse targetMap_permutes htarget).symm
    rw [remap?_renamed hmoved (hlength.symm ▸ rowSource_permutes.inverse)
      targetMap_permutes.inverse, hback, renamed_none]

/-- Rows are moved twice and targets renamed once. In the other order the moves would make the
table `#[2, 1, 0]`. -/
theorem remap?_through_rows : ∃ moved twice,
    (pack [[1, 2, 1], [], [2, 0]] 3).remap? (some #[2, 0, 1]) (some #[1, 2, 0]) = some moved ∧
      moved.row? 0 = some [0, 1] ∧
      moved.remap? (some #[1, 0, 2]) none = some twice ∧
      (pack [[1, 2, 1], [], [2, 0]] 3).remap? (some #[0, 2, 1]) (some #[1, 2, 0]) = some twice ∧
      moved.remap? (some #[1, 2, 0]) (some #[2, 0, 1]) = some (pack [[1, 2, 1], [], [2, 0]] 3) := by
  have hvalid : (pack [[1, 2, 1], [], [2, 0]] 3).validate = .ok () := by decide
  have hsource : Permutes 3 (some #[2, 0, 1]) := by decide
  have hmap : Permutes 3 (some #[1, 2, 0]) := by decide
  have hnext : Permutes 3 (some #[1, 0, 2]) := by decide
  have hstay : Permutes 3 none := by decide
  have hrows : through (some #[1, 0, 2]) (some #[2, 0, 1]) = some #[0, 2, 1] := by decide +kernel
  have hback : inverse (some #[2, 0, 1]) = some #[1, 2, 0] := by decide
  have hreturn : inverse (some #[1, 2, 0]) = some #[2, 0, 1] := by decide
  obtain ⟨moved, twice, hmoved, hrenames, htwice, honce, hinverse⟩ :=
    remap?_through hvalid hsource hmap hnext hstay
  rw [hrows] at honce
  rw [hback, hreturn] at hinverse
  obtain ⟨entries, hentries, hrow⟩ := hrenames.row 0 (by decide)
  obtain rfl : [2, 0] = entries := Option.some.inj (.trans (by decide) hentries)
  exact ⟨moved, twice, hmoved, hrow, htwice, honce, hinverse⟩

end Renaming

end Adjacency

end MeshLayout
