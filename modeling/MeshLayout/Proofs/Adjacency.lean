import MeshLayout.Adjacency
import MeshLayout.Proofs.Permutation

/-!
# Adjacencies as lists of rows

The accepted adjacencies are those that `pack` lays out from rows whose entries are in range and
can be counted by a word. Row `i` of a packed adjacency is row `i` of the list, so putting rows
into another order and renaming targets are facts about lists.
-/

set_option autoImplicit false

namespace MeshLayout

theorem mapM_eq_some_map {α β : Type} {f : α → Option β} {g : α → β} :
    ∀ (l : List α), (∀ a ∈ l, f a = some (g a)) → l.mapM f = some (l.map g)
  | [], _ => rfl
  | a :: l, h => by
    simp [h a (by simp), mapM_eq_some_map l fun b hb => h b (by simp [hb])]

theorem mapM_eq_some_iff {α β : Type} {f : α → Option β} :
    ∀ {l : List α} {bs : List β}, l.mapM f = some bs ↔ List.Forall₂ (fun a b => f a = some b) l bs
  | [], bs => by simp [eq_comm]
  | a :: l, bs => by
    cases bs with
    | nil => simp [List.mapM_cons, Option.bind_eq_some_iff]
    | cons b bs =>
      simp only [List.mapM_cons, Option.bind_eq_bind, Option.bind_eq_some_iff, Option.pure_def,
        Option.some.injEq, List.forall₂_cons, List.cons.injEq]
      constructor
      · rintro ⟨c, hc, cs, hcs, rfl, rfl⟩
        exact ⟨hc, mapM_eq_some_iff.mp hcs⟩
      · exact fun ⟨hb, hbs⟩ => ⟨b, hb, bs, mapM_eq_some_iff.mpr hbs, rfl, rfl⟩

theorem mapM_getElem? {α β : Type} {f : α → Option β} {l : List α} {bs : List β}
    (h : l.mapM f = some bs) (i : Nat) : l[i]?.bind f = bs[i]? := by
  have hforall := mapM_eq_some_iff.mp h
  clear h
  induction hforall generalizing i with
  | nil => rfl
  | cons hab _ ih =>
    cases i with
    | zero => exact hab
    | succ i => exact ih i

theorem mapM_total {α β : Type} {f : α → Option β} {l : List α} {bs : List β}
    (h : l.mapM f = some bs) : ∀ a ∈ l, ∃ b, f a = some b := by
  have hforall := mapM_eq_some_iff.mp h
  clear h
  induction hforall with
  | nil => exact fun a ha => by cases ha
  | cons hab _ ih =>
    intro a ha
    rcases List.mem_cons.mp ha with rfl | hrest
    · exact ⟨_, hab⟩
    · exact ih a hrest

theorem mapM_range {β : Type} {f : Nat → Option β} {bs : List β}
    (h : ∀ i < bs.length, f i = bs[i]?) : (List.range bs.length).mapM f = some bs := by
  apply mapM_eq_some_iff.mpr
  apply List.forall₂_iff_get.mpr
  constructor
  · exact List.length_range
  · intro i _ hi
    simp [h i hi, List.getElem?_eq_getElem hi]

namespace Adjacency

/-- Rows with entries below a number of targets, few enough to be laid out. -/
structure Packable (rows : List (List UInt32)) (targetCount : Nat) : Prop where
  entries_lt : rows.flatten.length < UInt32.size
  rows_lt : rows.length + 1 < indexLimit
  range : ∀ row ∈ rows, ∀ target ∈ row, target.toNat < targetCount

theorem getD_eq {rows : List (List UInt32)} {i : Nat} (h : i < rows.length) :
    rows[i]? = some (rows.getD i []) := by
  rw [List.getD_eq_getElem?_getD, List.getElem?_eq_getElem h, Option.getD_some]

theorem entry_lt {rows : List (List UInt32)} {targetCount : Nat} (hpack : Packable rows targetCount)
    {i : Nat} {entry : UInt32} (hentry : entry ∈ rows.getD i []) : entry.toNat < targetCount := by
  by_cases h : i < rows.length
  · exact hpack.range _ (List.mem_of_getElem? (getD_eq h)) entry hentry
  · rw [List.getD_eq_getElem?_getD, List.getElem?_eq_none (by omega)] at hentry
    simp at hentry

theorem reordered_entries {rows : List (List UInt32)} {order : List Nat}
    {row : Nat → List UInt32} (horder : order.Perm (List.range rows.length))
    (hrow : ∀ i, (row i).length = (rows.getD i []).length) :
    (order.map row).flatten.length = rows.flatten.length := by
  have hrange : (List.range rows.length).map (fun i => (rows.getD i []).length) =
      rows.map List.length := by
    apply List.ext_getElem (by simp)
    intro i hi hi'
    have hlt : i < rows.length := by simpa using hi'
    simp [List.getElem?_eq_getElem hlt]
  have hlengths : List.length ∘ row = fun i => (rows.getD i []).length := funext hrow
  rw [List.length_flatten, List.length_flatten, List.map_map, hlengths,
    (horder.map _).sum_nat, hrange]

theorem Packable.reorder {rows : List (List UInt32)} {targetCount : Nat}
    (hpack : Packable rows targetCount) {order : List Nat} {row : Nat → List UInt32}
    (horder : order.Perm (List.range rows.length))
    (hrow : ∀ i, (row i).length = (rows.getD i []).length)
    (hrange : ∀ i, ∀ entry ∈ row i, entry.toNat < targetCount) :
    Packable (order.map row) targetCount where
  entries_lt := by rw [reordered_entries horder hrow]; exact hpack.entries_lt
  rows_lt := by
    rw [List.length_map, horder.length_eq, List.length_range]
    exact hpack.rows_lt
  range := by
    intro other hother entry hentry
    obtain ⟨i, -, rfl⟩ := List.mem_map.mp hother
    exact hrange i entry hentry

theorem rowEnds_length (start : Nat) (rows : List (List UInt32)) :
    (rowEnds start rows).length = rows.length := by
  induction rows generalizing start with
  | nil => rfl
  | cons row rest ih => simp [rowEnds, ih]

theorem rowEnds_getElem? (start : Nat) (rows : List (List UInt32)) (i : Nat)
    (hi : i < rows.length) : (rowEnds start rows)[i]? =
      some (start + (rows.take (i + 1)).flatten.length).toUInt32 := by
  induction rows generalizing start i with
  | nil => simp at hi
  | cons row rest ih =>
    cases i with
    | zero => simp [rowEnds]
    | succ i =>
      rw [List.length_cons] at hi
      simp [rowEnds, ih (start + row.length) i (by omega), Nat.add_assoc]

theorem packedOffsets_getElem? (rows : List (List UInt32)) (i : Nat) (hi : i ≤ rows.length) :
    (packedOffsets rows)[i]? = some (rows.take i).flatten.length.toUInt32 := by
  cases i with
  | zero => simp [packedOffsets]
  | succ i => simp [packedOffsets, rowEnds_getElem? 0 rows i hi]

theorem packedOffsets_size (rows : List (List UInt32)) :
    (packedOffsets rows).size = rows.length + 1 := by
  simp [packedOffsets, rowEnds_length]

theorem take_flatten_le (rows : List (List UInt32)) (i : Nat) :
    (rows.take i).flatten.length ≤ rows.flatten.length := by
  conv_rhs => rw [← List.take_append_drop i rows, List.flatten_append, List.length_append]
  exact Nat.le_add_right _ _

@[simp] theorem pack_rowCount (rows : List (List UInt32)) (targetCount : Nat) :
    (pack rows targetCount).rowCount = rows.length := by
  simp [rowCount, pack, packedOffsets_size]

@[simp] theorem pack_entryCount (rows : List (List UInt32)) (targetCount : Nat) :
    (pack rows targetCount).entryCount = rows.flatten.length := by
  simp [entryCount, pack]

theorem pack_row? (rows : List (List UInt32)) (targetCount : Nat)
    (h : rows.flatten.length < UInt32.size) (i : Nat) :
    (pack rows targetCount).row? i = rows[i]? := by
  by_cases hi : i < rows.length
  · have hstart := take_flatten_le rows i
    have hstop := take_flatten_le rows (i + 1)
    have hsplit : (rows.take (i + 1)).flatten = (rows.take i).flatten ++ rows[i] := by
      rw [List.take_add_one, List.getElem?_eq_getElem hi, List.flatten_append,
        Option.toList_some, List.flatten_singleton]
    have hlength : (rows.take (i + 1)).flatten.length =
        (rows.take i).flatten.length + rows[i].length := by
      rw [hsplit, List.length_append]
    have hparts : rows.flatten =
        (rows.take i).flatten ++ (rows[i] ++ (rows.drop (i + 1)).flatten) := by
      rw [← List.append_assoc, ← hsplit, ← List.flatten_append, List.take_append_drop]
    have hrow : (rows.flatten.drop (rows.take i).flatten.length).take rows[i].length = rows[i] := by
      rw [hparts, List.drop_left, List.take_left]
    simp only [row?, pack, packedOffsets_getElem? rows i (by omega),
      packedOffsets_getElem? rows (i + 1) (by omega), Option.bind_eq_bind, Option.bind_some,
      List.size_toArray, UInt32.le_iff_toNat_le,
      toNat_toUInt32 (show (rows.take i).flatten.length < UInt32.size by omega),
      toNat_toUInt32 (show (rows.take (i + 1)).flatten.length < UInt32.size by omega)]
    rw [if_pos ⟨by omega, hstop⟩, List.getElem?_eq_getElem hi]
    simp only [List.extract_toArray, List.extract_eq_take_drop, hlength, Nat.add_sub_cancel_left,
      hrow]
  · have hnone : (packedOffsets rows)[i + 1]? = none := by
      rw [Array.getElem?_eq_none]
      rw [packedOffsets_size]
      omega
    rw [List.getElem?_eq_none (by omega)]
    simp [row?, pack, hnone]

theorem degree?_of_row? {adjacency : Adjacency} {row : Nat} {entries : List UInt32}
    (h : adjacency.row? row = some entries) : adjacency.degree? row = some entries.length := by
  simp only [row?, Option.bind_eq_bind, Option.bind_eq_some_iff] at h
  obtain ⟨start, hstart, stop, hstop, h⟩ := h
  split at h
  · next hrange =>
    obtain rfl := Option.some.inj h
    simp only [degree?, hstart, hstop, Option.bind_eq_bind, Option.bind_some, if_pos hrange.1,
      Array.length_toList, Array.size_extract, Nat.min_eq_left hrange.2,
      UInt32.toNat_sub_of_le _ _ hrange.1]
  · cases h

theorem findFalling_rowEnds (start : Nat) (rows : List (List UInt32)) (k : Nat)
    (h : start + rows.flatten.length < UInt32.size) :
    findFalling (start.toUInt32 :: rowEnds start rows) k = none := by
  induction rows generalizing start k with
  | nil => rfl
  | cons row rest ih =>
    rw [List.flatten_cons, List.length_append] at h
    rw [rowEnds, findFalling, if_neg, ih (start + row.length) _ (by omega)]
    rw [UInt32.lt_iff_toNat_lt, toNat_toUInt32 (by omega), toNat_toUInt32 (by omega)]
    omega

theorem check_eq_ok {rows targetCount : Nat} {offsets targets : Array UInt32} :
    check rows offsets targets targetCount = .ok () ↔
      rows + 1 < indexLimit ∧ offsets.size = rows + 1 ∧ offsets[0]? = some 0 ∧
        findFalling offsets.toList 0 = none ∧
        (∃ last, offsets[rows]? = some last ∧ targets.size = last.toNat) ∧
        ∀ target ∈ targets.toList, target.toNat < targetCount := by
  rw [check, bind_eq_ok]
  simp only [Outcome.liftM_eq, Outcome.index_eq_ok, Outcome.require_bind_eq_ok,
    Outcome.ofLookup_bind_eq_ok]
  constructor
  · rintro ⟨_, ⟨hrows, rfl⟩, hsize, first, hfirst, rfl, h⟩
    split at h
    · cases h
    · next hfalling =>
      simp only [Outcome.ofLookup_bind_eq_ok, Outcome.require_bind_eq_ok] at h
      obtain ⟨last, hlast, hcount, h⟩ := h
      split at h
      · cases h
      · next hrange =>
        refine ⟨hrows, hsize, hfirst, hfalling, ⟨last, hlast, hcount⟩, fun target htarget => ?_⟩
        simpa using List.find?_eq_none.mp hrange target htarget
  · rintro ⟨hrows, hsize, hfirst, hfalling, ⟨last, hlast, hcount⟩, hrange⟩
    have hnone : targets.toList.find? (fun target => targetCount ≤ target.toNat) = none :=
      List.find?_eq_none.mpr fun target htarget => by simpa using hrange target htarget
    refine ⟨rows + 1, ⟨hrows, rfl⟩, hsize, 0, hfirst, rfl, ?_⟩
    rw [hfalling]
    simp only [Outcome.ofLookup_bind_eq_ok, Outcome.require_bind_eq_ok]
    exact ⟨last, hlast, hcount, by rw [hnone]; rfl⟩

theorem findFalling_eq_none {offsets : List UInt32} {row : Nat} :
    findFalling offsets row = none ↔ offsets.Pairwise (· ≤ ·) := by
  rw [← List.isChain_iff_pairwise]
  induction offsets generalizing row with
  | nil => simp [findFalling]
  | cons offset rest ih =>
    cases rest with
    | nil => simp [findFalling]
    | cons next rest =>
      rw [findFalling, List.isChain_cons_cons, ← UInt32.not_lt]
      by_cases hfalls : next < offset
      · simp [hfalls]
      · simp [hfalls, ih]

/-- What a relation of `rows` sources has to be: offsets from zero to the number of entries that
never fall, and entries that name targets. -/
structure WellFormed (rows : Nat) (offsets targets : Array UInt32) (targetCount : Nat) : Prop where
  size : offsets.size = rows + 1
  first : offsets[0]? = some 0
  ascending : offsets.toList.Pairwise (· ≤ ·)
  last : offsets[rows]?.map UInt32.toNat = some targets.size
  range : ∀ target ∈ targets.toList, target.toNat < targetCount

variable {rows targetCount : Nat} {offsets targets : Array UInt32}

theorem WellFormed.row? (h : WellFormed rows offsets targets targetCount) {row : Nat}
    {start stop : UInt32} (hstart : offsets[row]? = some start)
    (hstop : offsets[row + 1]? = some stop) : Adjacency.row? ⟨offsets, targets, targetCount⟩ row =
      some (targets.extract start.toNat stop.toNat).toList := by
  have hascending := List.pairwise_iff_getElem.mp h.ascending
  obtain ⟨hrow, rfl⟩ := Array.getElem?_eq_some_iff.mp hstart
  obtain ⟨hnext, rfl⟩ := Array.getElem?_eq_some_iff.mp hstop
  have hfall : offsets[row] ≤ offsets[row + 1] := hascending row (row + 1) hrow hnext (by omega)
  obtain ⟨last, hlast, hcount⟩ := Option.map_eq_some_iff.mp h.last
  obtain ⟨hrows, rfl⟩ := Array.getElem?_eq_some_iff.mp hlast
  have hend : offsets[row + 1].toNat ≤ targets.size := by
    rw [← hcount]
    rcases Nat.lt_or_eq_of_le (show row + 1 ≤ rows by have := h.size; omega) with hlt | rfl
    · exact UInt32.le_iff_toNat_le.mp (hascending (row + 1) rows hnext hrows hlt)
    · exact Nat.le_refl _
  simp only [Adjacency.row?, hstart, hstop, Option.bind_eq_bind, Option.bind_some,
    if_pos (And.intro hfall hend)]

theorem check_iff_wellFormed : check rows offsets targets targetCount = .ok () ↔
    rows + 1 < indexLimit ∧ WellFormed rows offsets targets targetCount := by
  rw [check_eq_ok]
  constructor
  · rintro ⟨hrows, hsize, hfirst, hfalling, ⟨last, hlast, hcount⟩, hrange⟩
    refine ⟨hrows, hsize, hfirst, findFalling_eq_none.mp hfalling, ?_, hrange⟩
    rw [hlast, Option.map_some, hcount]
  · rintro ⟨hrows, hsize, hfirst, hascending, hlast, hrange⟩
    obtain ⟨last, hlast, hcount⟩ := Option.map_eq_some_iff.mp hlast
    exact ⟨hrows, hsize, hfirst, findFalling_eq_none.mpr hascending, ⟨last, hlast, hcount.symm⟩,
      hrange⟩

theorem ofArrays_eq_ok {adjacency : Adjacency} :
    ofArrays rows offsets targets targetCount = .ok adjacency ↔
      rows + 1 < indexLimit ∧ WellFormed rows offsets targets targetCount ∧
        adjacency = ⟨offsets, targets, targetCount⟩ := by
  rw [ofArrays, bind_eq_ok]
  constructor
  · rintro ⟨_, hcheck, h⟩
    cases h
    obtain ⟨hrows, hwell⟩ := check_iff_wellFormed.mp hcheck
    exact ⟨hrows, hwell, rfl⟩
  · rintro ⟨hrows, hwell, rfl⟩
    exact ⟨(), check_iff_wellFormed.mpr ⟨hrows, hwell⟩, rfl⟩

/-- Each look-up of the check comes after a requirement that covers it; only the number of offsets
to expect may be none that can be counted. -/
theorem check_answers : (check rows offsets targets targetCount).Answers
    fun fault => fault = .overflow ∧ indexLimit ≤ rows + 1 := by
  by_cases hrows : rows + 1 < indexLimit
  · rw [check, Outcome.index_eq_ok.mpr ⟨hrows, rfl⟩]
    simp only [ok_bind, Outcome.liftM_eq]
    apply Outcome.Answers.bind (.require _)
    intro _ hsize
    have hsize : offsets.size = rows + 1 :=
      Checked.require_eq_ok.mp (Outcome.ofChecked_eq_ok.mp hsize)
    have hfirst : offsets[0]? = some offsets[0] := Array.getElem?_eq_getElem _
    have hlast : offsets[rows]? = some offsets[rows] := Array.getElem?_eq_getElem _
    simp only [hfirst, hlast, Outcome.ofLookup_some, ok_bind]
    apply Outcome.Answers.bind (.require _)
    intro _ _
    split
    · exact .schema _
    · apply Outcome.Answers.bind (.require _)
      intro _ _
      split
      · exact .schema _
      · exact .ok ()
  · rw [check, Outcome.index, if_neg hrows]
    exact .fault ⟨rfl, Nat.le_of_not_lt hrows⟩

theorem check_eq_overflow : check rows offsets targets targetCount = Outcome.fault .overflow ↔
    indexLimit ≤ rows + 1 := by
  constructor
  · exact fun h => (check_answers.of_fault h).2
  · intro hrows
    rw [check, Outcome.index, if_neg (Nat.not_lt_of_le hrows)]
    rfl

theorem pack_wellFormed {rows : List (List UInt32)} :
    WellFormed rows.length (pack rows targetCount).offsets (pack rows targetCount).targets
        targetCount ↔
      (∀ row ∈ rows, ∀ target ∈ row, target.toNat < targetCount) ∧
        rows.flatten.length < UInt32.size := by
  have hlast : (packedOffsets rows)[rows.length]? = some rows.flatten.length.toUInt32 := by
    rw [packedOffsets_getElem? rows _ (Nat.le_refl _), List.take_length]
  constructor
  · rintro ⟨-, -, -, hcount, hrange⟩
    refine ⟨fun row hrow target htarget =>
      hrange target (List.mem_flatten.mpr ⟨row, hrow, htarget⟩), ?_⟩
    rw [pack, hlast, Option.map_some, Option.some_inj, List.size_toArray] at hcount
    rw [← hcount]
    exact UInt32.toNat_lt _
  · rintro ⟨hrange, hentries⟩
    refine ⟨packedOffsets_size rows, rfl, findFalling_eq_none.mp
      (findFalling_rowEnds 0 rows 0 (by rwa [Nat.zero_add])), ?_, fun target htarget => ?_⟩
    · rw [pack, hlast, Option.map_some, toNat_toUInt32 hentries, List.size_toArray]
    · obtain ⟨row, hrow, htarget⟩ := List.mem_flatten.mp htarget
      exact hrange row hrow target htarget

theorem Packable.validate {rows : List (List UInt32)} {targetCount : Nat}
    (h : Packable rows targetCount) : (pack rows targetCount).validate = .ok () := by
  rw [Adjacency.validate, check_iff_wellFormed, pack_rowCount]
  exact ⟨h.rows_lt, pack_wellFormed.mpr ⟨h.range, h.entries_lt⟩⟩

theorem le_last_of_findFalling (start : UInt32) (rest : List UInt32) (k : Nat)
    (h : findFalling (start :: rest) k = none) :
    start ≤ (start :: rest).getLast (List.cons_ne_nil _ _) := by
  induction rest generalizing start k with
  | nil => exact UInt32.le_refl _
  | cons next rest ih =>
    rw [findFalling] at h
    split at h
    · cases h
    · next hle =>
      rw [List.getLast_cons_cons]
      exact UInt32.le_trans (UInt32.not_lt.mp hle) (ih next _ h)

theorem exists_rows (start : UInt32) (rest targets : List UInt32) (k : Nat)
    (h : findFalling (start :: rest) k = none)
    (hlast : ((start :: rest).getLast (List.cons_ne_nil _ _)).toNat =
      start.toNat + targets.length) :
    ∃ rows, rowEnds start.toNat rows = rest ∧ rows.flatten = targets := by
  induction rest generalizing start targets k with
  | nil =>
    refine ⟨[], rfl, ?_⟩
    rw [List.getLast_singleton] at hlast
    exact (List.eq_nil_of_length_eq_zero (by omega)).symm
  | cons next rest ih =>
    rw [findFalling] at h
    split at h
    · cases h
    · next hle =>
      have hstart : start.toNat ≤ next.toNat :=
        UInt32.le_iff_toNat_le.mp (UInt32.not_lt.mp hle)
      have hnext := UInt32.le_iff_toNat_le.mp (le_last_of_findFalling next rest _ h)
      rw [List.getLast_cons_cons] at hlast
      have hlength : (targets.take (next.toNat - start.toNat)).length =
          next.toNat - start.toNat := by
        rw [List.length_take]
        omega
      obtain ⟨rows, hends, hflatten⟩ := ih next (targets.drop (next.toNat - start.toNat)) _ h
        (by rw [List.length_drop]; omega)
      refine ⟨targets.take (next.toNat - start.toNat) :: rows, ?_, ?_⟩
      · rw [rowEnds, hlength, Nat.add_sub_cancel' hstart, toUInt32_toNat, hends]
      · rw [List.flatten_cons, hflatten, List.take_append_drop]

/-- An accepted adjacency is one that was packed. -/
theorem exists_packable {adjacency : Adjacency} (h : adjacency.validate = .ok ()) :
    ∃ rows, Packable rows adjacency.targetCount ∧ adjacency = pack rows adjacency.targetCount := by
  obtain ⟨⟨offsets⟩, ⟨targets⟩, targetCount⟩ := adjacency
  obtain ⟨hrows, hsize, hfirst, hfalling, ⟨last, hlast, hcount⟩, hrange⟩ := check_eq_ok.mp h
  obtain _ | ⟨first, rest⟩ := offsets
  · simp at hfirst
  · obtain rfl : first = 0 := by simpa using hfirst
    have hend : ((0 :: rest).getLast (List.cons_ne_nil _ _)) = last := by
      rw [List.getLast_eq_getElem]
      simpa [rowCount, List.getElem?_eq_some_iff] using hlast
    obtain ⟨rows, hends, rfl⟩ := exists_rows 0 rest targets 0 hfalling
      (by rw [hend, ← hcount]; simp)
    have hlength : rows.length = rest.length := by
      rw [← hends, rowEnds_length]
    refine ⟨rows, ⟨?_, ?_, fun row hrow target htarget => ?_⟩, ?_⟩
    · have := last.toNat_lt
      simp only [List.size_toArray] at hcount
      rw [hcount]
      exact this
    · simpa [rowCount, hlength] using hrows
    · exact hrange target (List.mem_flatten.mpr ⟨row, hrow, htarget⟩)
    · rw [pack, packedOffsets]
      congr 2
      rw [← hends]
      rfl

theorem pack_rows? (rows : List (List UInt32)) (targetCount : Nat)
    (h : rows.flatten.length < UInt32.size) : (pack rows targetCount).rows? = some rows := by
  rw [rows?, pack_rowCount]
  exact mapM_range fun i _ => pack_row? rows targetCount h i

theorem pack_injective {rows rows' : List (List UInt32)} {targetCount targetCount' : Nat}
    (h : rows.flatten.length < UInt32.size)
    (heq : pack rows targetCount = pack rows' targetCount') : rows = rows' := by
  have hflatten : rows.flatten = rows'.flatten := by
    simpa [pack] using congrArg Adjacency.targets heq
  have hrows := congrArg Adjacency.rows? heq
  rw [pack_rows? rows _ h, pack_rows? rows' _ (hflatten ▸ h)] at hrows
  exact Option.some.inj hrows

end Adjacency

end MeshLayout
