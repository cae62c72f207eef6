import MeshLayout.Proofs.Incidence
import MeshLayout.Proofs.Reversal

/-!
# Adjacencies however they are made

Reversing and renaming write the arrays of an adjacency without a check. What is proved here is
that no check is needed: an adjacency that comes from lists or accepted arrays, by any number of
reversals and renamings, is one that `pack` lays out, so it would be accepted and both operations
succeed on it again.
-/

set_option autoImplicit false

namespace MeshLayout

namespace Adjacency

def Bijection (size : Nat) (table : Array UInt32) : Prop :=
  (table.toList.map UInt32.toNat).Perm (List.range size)

instance (size : Nat) (table : Array UInt32) : Decidable (Bijection size table) :=
  inferInstanceAs (Decidable ((table.toList.map UInt32.toNat).Perm (List.range size)))

namespace Bijection

variable {size : Nat} {table : Array UInt32}

theorem size_eq (h : Bijection size table) : table.size = size := by
  rw [← Array.length_toList, ← List.length_map (f := UInt32.toNat), h.length_eq,
    List.length_range]

theorem lookup (h : Bijection size table) {i : Nat} (hi : i < size) :
    ∃ word, table[i]? = some word ∧ word.toNat < size := by
  have htable : i < table.size := h.size_eq.symm ▸ hi
  refine ⟨table[i], Array.getElem?_eq_getElem htable, ?_⟩
  rw [← List.mem_range, ← h.mem_iff]
  exact List.mem_map_of_mem (Array.getElem_mem_toList htable)

end Bijection

/-- What is made from the empty adjacency, from arrays and from lists by reversing and renaming.
Rows and targets can be numbered by words. -/
inductive Made : Adjacency → Prop
  | empty : Made .empty
  | ofArrays {rows targetCount : Nat} {offsets targets : Array UInt32} {adjacency : Adjacency} :
      rows ≤ UInt32.size → targetCount ≤ UInt32.size →
      Adjacency.ofArrays rows offsets targets targetCount = .ok adjacency → Made adjacency
  | ofLists {rows : List (List UInt32)} {targetCount : Nat} {adjacency : Adjacency} :
      rows.length ≤ UInt32.size → targetCount ≤ UInt32.size →
      Adjacency.ofLists rows targetCount = .ok adjacency → Made adjacency
  | transpose {adjacency reversed : Adjacency} :
      Made adjacency → adjacency.transpose? = some reversed → Made reversed
  | remap {adjacency renamed : Adjacency} {rowSource targetMap : Option (Array UInt32)} :
      Made adjacency → (∀ order ∈ rowSource, Bijection adjacency.rowCount order) →
      (∀ map ∈ targetMap, Bijection adjacency.targetCount map) →
      adjacency.remap? rowSource targetMap = some renamed → Made renamed

section Renamed

variable (rowSource targetMap : Option (Array UInt32))

def movedRow (i : Nat) : Nat :=
  match rowSource with
  | none => i
  | some order => ((order[i]?).getD 0).toNat

def renamedTarget (target : UInt32) : UInt32 :=
  match targetMap with
  | none => target
  | some map => (map[target.toNat]?).getD 0

def renamedRow (rows : List (List UInt32)) (i : Nat) : List UInt32 :=
  (rows.getD i []).map (renamedTarget targetMap)

def renamed (rows : List (List UInt32)) : List (List UInt32) :=
  ((List.range rows.length).map (movedRow rowSource)).map (renamedRow targetMap rows)

end Renamed

variable {rows : List (List UInt32)} {targetCount : Nat}
  {rowSource targetMap : Option (Array UInt32)}

theorem renamedRow_length (i : Nat) :
    (renamedRow targetMap rows i).length = (rows.getD i []).length := List.length_map _

theorem movedRow_range (order : Array UInt32) :
    (List.range order.size).map (movedRow (some order)) = order.toList.map UInt32.toNat := by
  apply List.ext_getElem
  · rw [List.length_map, List.length_map, List.length_range, Array.length_toList]
  · intro i _ hi
    rw [List.length_map, Array.length_toList] at hi
    simp [movedRow, Array.getElem?_eq_getElem hi]

theorem movedRow_perm {size : Nat} (h : ∀ order ∈ rowSource, Bijection size order) :
    ((List.range size).map (movedRow rowSource)).Perm (List.range size) := by
  cases rowSource with
  | none => exact .of_eq (List.map_id _)
  | some order =>
    have horder := h order rfl
    rw [← horder.size_eq, movedRow_range, horder.size_eq]
    exact horder

theorem movedRow_lookup {size i : Nat} (hi : i < size) :
    (∀ order ∈ rowSource, Bijection size order) → (match rowSource with
      | none => some i
      | some order => order[i]?.map UInt32.toNat) = some (movedRow rowSource i) ∧
        movedRow rowSource i < size := by
  intro h
  cases rowSource with
  | none => exact ⟨rfl, hi⟩
  | some order =>
    obtain ⟨word, hword, hlt⟩ := (h order rfl).lookup hi
    simp only [movedRow, hword, Option.map_some, Option.getD_some]
    exact ⟨trivial, hlt⟩

theorem renamedTarget_lt (h : ∀ map ∈ targetMap, Bijection targetCount map) {target : UInt32}
    (htarget : target.toNat < targetCount) :
    (renamedTarget targetMap target).toNat < targetCount := by
  cases targetMap with
  | none => exact htarget
  | some map =>
    obtain ⟨word, hword, hlt⟩ := (h map rfl).lookup htarget
    simpa only [renamedTarget, hword, Option.getD_some] using hlt

theorem renamedTarget_lookup {row : List UInt32}
    (hrow : ∀ target ∈ row, target.toNat < targetCount) :
    (∀ map ∈ targetMap, Bijection targetCount map) → (match targetMap with
      | none => some row
      | some map => row.mapM fun target => map[target.toNat]?) =
        some (row.map (renamedTarget targetMap)) := by
  intro h
  cases targetMap with
  | none => exact congrArg some (List.map_id row).symm
  | some map =>
    refine mapM_eq_some_map row fun target htarget => ?_
    obtain ⟨word, hword, -⟩ := (h map rfl).lookup (hrow target htarget)
    simp only [renamedTarget, hword, Option.getD_some]

theorem remap?_renamed (hpack : Packable rows targetCount)
    (hrows : ∀ order ∈ rowSource, Bijection rows.length order)
    (htargets : ∀ map ∈ targetMap, Bijection targetCount map) :
    (pack rows targetCount).remap? rowSource targetMap =
      some (pack (renamed rowSource targetMap rows) targetCount) := by
  refine remap?_pack (by simp [renamed]) fun i hi => ?_
  obtain ⟨hmoved, hlt⟩ := movedRow_lookup hi hrows
  rw [renamed, List.getElem?_map, List.getElem?_map, List.getElem?_range hi]
  exact Incidence.remapRow?_eq hpack.entries_lt hlt hmoved
    (renamedTarget_lookup (fun _ => entry_lt hpack) htargets)

theorem renamed_packable (hpack : Packable rows targetCount)
    (hrows : ∀ order ∈ rowSource, Bijection rows.length order)
    (htargets : ∀ map ∈ targetMap, Bijection targetCount map) :
    Packable (renamed rowSource targetMap rows) targetCount := by
  refine hpack.reorder (movedRow_perm hrows) renamedRow_length fun i entry hentry => ?_
  obtain ⟨target, htarget, rfl⟩ := List.mem_map.mp hentry
  exact renamedTarget_lt htargets (entry_lt hpack htarget)

theorem renamed_entries (hrows : ∀ order ∈ rowSource, Bijection rows.length order) :
    (renamed rowSource targetMap rows).flatten.length = rows.flatten.length :=
  reordered_entries (movedRow_perm hrows) renamedRow_length

theorem renamed_length : (renamed rowSource targetMap rows).length = rows.length := by
  simp [renamed]

theorem ofArrays_packed {count : Nat} {offsets targets : Array UInt32} {adjacency : Adjacency}
    (hrows : count ≤ UInt32.size) (htargets : targetCount ≤ UInt32.size)
    (h : Adjacency.ofArrays count offsets targets targetCount = .ok adjacency) :
    ∃ rows, Packed adjacency rows := by
  obtain ⟨hindex, hwell, rfl⟩ := ofArrays_eq_ok.mp h
  have hcount : rowCount ⟨offsets, targets, targetCount⟩ = count := by
    rw [rowCount, hwell.size, Nat.add_sub_cancel]
  refine exists_packed ?_ (hcount.symm ▸ hrows) htargets
  rw [validate, hcount]
  exact check_iff_wellFormed.mpr ⟨hindex, hwell⟩

namespace Packed

variable {adjacency : Adjacency}

theorem remap? (h : Packed adjacency rows)
    (hrows : ∀ order ∈ rowSource, Bijection adjacency.rowCount order)
    (htargets : ∀ map ∈ targetMap, Bijection adjacency.targetCount map) : ∃ moved,
    adjacency.remap? rowSource targetMap = some moved ∧
      Packed moved (renamed rowSource targetMap rows) ∧
      moved.entryCount = adjacency.entryCount := by
  obtain ⟨hpack, hcount, hwords, heq⟩ := h
  generalize adjacency.targetCount = targetCount at *
  subst heq
  rw [pack_rowCount] at hrows
  refine ⟨_, remap?_renamed hpack hrows htargets,
    ⟨renamed_packable hpack hrows htargets, by rwa [renamed_length], hwords, rfl⟩, ?_⟩
  rw [pack_entryCount, pack_entryCount, renamed_entries hrows]

end Packed

/-- Every way of making an adjacency keeps to what `pack` lays out. -/
theorem Made.exists_packed {adjacency : Adjacency} (h : Made adjacency) :
    ∃ rows, Packed adjacency rows := by
  induction h with
  | empty => exact Adjacency.exists_packed (by decide) (by decide) (by decide)
  | ofArrays hrows htargets hmade => exact ofArrays_packed hrows htargets hmade
  | ofLists hrows htargets hmade => exact ofArrays_packed hrows htargets hmade
  | transpose _ hreversed ih =>
    obtain ⟨rows, hrows⟩ := ih
    obtain ⟨reversed, hsame, hpacked, -⟩ := hrows.transpose?
    obtain rfl := Option.some.inj (hsame.symm.trans hreversed)
    exact ⟨_, hpacked⟩
  | remap _ hsource hmap hrenamed ih =>
    obtain ⟨rows, hrows⟩ := ih
    obtain ⟨moved, hsame, hpacked, -⟩ := hrows.remap? hsource hmap
    obtain rfl := Option.some.inj (hsame.symm.trans hrenamed)
    exact ⟨_, hpacked⟩

/-- The arrays are accepted, each row is there, the rows are all the entries, and reversing or
renaming goes through with as many entries. -/
structure Sound (adjacency : Adjacency) : Prop where
  valid : adjacency.validate = .ok ()
  row : ∀ row < adjacency.rowCount, ∃ entries, adjacency.row? row = some entries ∧
    adjacency.degree? row = some entries.length
  rows : adjacency.rows?.map List.flatten = some adjacency.targets.toList
  degrees : ((List.range adjacency.rowCount).mapM adjacency.degree?).map List.sum =
    some adjacency.entryCount
  range : ∀ target ∈ adjacency.targets.toList, target.toNat < adjacency.targetCount
  transpose : ∃ reversed, adjacency.transpose? = some reversed ∧
    reversed.entryCount = adjacency.entryCount
  remap : ∀ rowSource targetMap : Option (Array UInt32),
    (∀ order ∈ rowSource, Bijection adjacency.rowCount order) →
    (∀ map ∈ targetMap, Bijection adjacency.targetCount map) →
    ∃ moved, adjacency.remap? rowSource targetMap = some moved ∧
      moved.entryCount = adjacency.entryCount

theorem Packed.degrees {adjacency : Adjacency} (h : Packed adjacency rows) :
    (List.range adjacency.rowCount).mapM adjacency.degree? = some (rows.map List.length) := by
  have hdegree : ∀ i < (rows.map List.length).length,
      adjacency.degree? i = (rows.map List.length)[i]? := by
    intro i hi
    rw [List.length_map] at hi
    rw [degree?_of_row? (h.row? hi), List.getElem?_map, getD_eq hi, Option.map_some]
  have hcount : adjacency.rowCount = (rows.map List.length).length := by
    rw [h.rowCount, List.length_map]
  rw [hcount]
  exact mapM_range hdegree

theorem Packed.sound {adjacency : Adjacency} (h : Packed adjacency rows) : Sound adjacency where
  valid := by
    rw [h.eq]
    exact h.packable.validate
  row := by
    intro row hlt
    rw [h.rowCount] at hlt
    exact ⟨_, h.row? hlt, degree?_of_row? (h.row? hlt)⟩
  rows := by
    rw [h.eq, pack_rows? _ _ h.packable.entries_lt]
    rfl
  degrees := by
    rw [h.degrees, Option.map_some, ← List.length_flatten]
    rw [h.eq, pack_entryCount]
  range := by
    rw [h.eq]
    exact h.packable.flatten_lt
  transpose := by
    obtain ⟨reversed, hreversed, -, -, hcount⟩ := h.transpose?
    exact ⟨reversed, hreversed, hcount⟩
  remap := by
    intro rowSource targetMap hsource hmap
    obtain ⟨moved, hmoved, -, hcount⟩ := h.remap? hsource hmap
    exact ⟨moved, hmoved, hcount⟩

/-- No check is missing where an adjacency is made without one. -/
theorem sound_of_made {adjacency : Adjacency} (made : Made adjacency) : Sound adjacency := by
  obtain ⟨rows, hrows⟩ := made.exists_packed
  exact hrows.sound

theorem sound_of_made_renamed :
    Made (pack [[1, 0], [0], [1, 1]] 3) ∧ Sound (pack [[1, 0], [0], [1, 1]] 3) := by
  have hlists : Made (pack [[1, 2, 1], [], [2, 0]] 3) := by
    have hmade : Adjacency.ofLists [[1, 2, 1], [], [2, 0]] 3 =
        .ok (pack [[1, 2, 1], [], [2, 0]] 3) := by decide +kernel
    exact .ofLists (by decide) (by decide) hmade
  have hreversed : Made (pack [[2], [0, 0], [0, 2]] 3) := hlists.transpose (by decide +kernel)
  have hrenamed : Made (pack [[1, 0], [0], [1, 1]] 3) := by
    have hsource : Bijection 3 #[2, 0, 1] := by decide
    have hmap : Bijection 3 #[1, 2, 0] := by decide
    have hmoved : (pack [[2], [0, 0], [0, 2]] 3).remap? (some #[2, 0, 1]) (some #[1, 2, 0]) =
        some (pack [[1, 0], [0], [1, 1]] 3) := by decide +kernel
    exact hreversed.remap (fun _ h => Option.some.inj h ▸ hsource)
      (fun _ h => Option.some.inj h ▸ hmap) hmoved
  exact ⟨hrenamed, sound_of_made hrenamed⟩

end Adjacency

end MeshLayout
