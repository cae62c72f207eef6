import MeshLayout.Incidence
import MeshLayout.Proofs.Adjacency

/-!
# Incidences answer alike in every mode

Whatever a mode does when the table is built, it leaves undone when the table is asked: the
neighbors of a slot are the row of its identity, each target in its slot. The rows that are kept
are the given ones in some order with targets renamed, so no entry is lost.
-/

set_option autoImplicit false

namespace MeshLayout

open Adjacency

theorem Adjacency.remap?_pack {rows rows' : List (List UInt32)} {targetCount : Nat}
    {rowSource targetMap : Option (Array UInt32)} (hlength : rows'.length = rows.length)
    (h : ∀ i < rows.length,
      (pack rows targetCount).remapRow? rowSource targetMap i = rows'[i]?) :
    (pack rows targetCount).remap? rowSource targetMap = some (pack rows' targetCount) := by
  have hrows : (List.range rows.length).mapM
      ((pack rows targetCount).remapRow? rowSource targetMap) = some rows' := by
    rw [← hlength]
    exact mapM_range fun i hi => h i (hlength ▸ hi)
  rw [remap?, pack_rowCount, hrows]
  rfl

namespace Incidence

section Kept

variable (rows : List (List UInt32)) (source target : Permutation) (mode : Mode)

def keptRow (identity : Nat) : List UInt32 :=
  if mode.toEnd then (rows.getD identity []).map target.slotOf else rows.getD identity []

/-- The rows as the mode keeps them: by identity or by slot. -/
def kept : List (List UInt32) :=
  (List.range rows.length).map fun i =>
    keptRow rows target mode (if mode.fromEnd then i else (source.identityOf i.toUInt32).toNat)

theorem kept_length : (kept rows source target mode).length = rows.length := by simp [kept]

theorem kept_getElem? {i : Nat} (h : i < rows.length) :
    (kept rows source target mode)[i]? = some (keptRow rows target mode
      (if mode.fromEnd then i else (source.identityOf i.toUInt32).toNat)) := by
  rw [kept, List.getElem?_map, List.getElem?_range h, Option.map_some]

end Kept

variable {rows : List (List UInt32)} {source target : Permutation} {mode : Mode}

theorem keptRow_length (identity : Nat) :
    (keptRow rows target mode identity).length = (rows.getD identity []).length := by
  unfold keptRow
  split
  · exact List.length_map _
  · rfl

theorem keptOrder_perm (hsource : source.Lawful) (hrows : rows.length = source.size) :
    ((List.range rows.length).map fun i =>
      if mode.fromEnd then i else (source.identityOf i.toUInt32).toNat).Perm
        (List.range rows.length) := by
  cases mode.fromEnd with
  | true => simp
  | false => simpa [hrows] using hsource.identities_perm

theorem kept_eq : kept rows source target mode = ((List.range rows.length).map fun i =>
    if mode.fromEnd then i else (source.identityOf i.toUInt32).toNat).map
      (keptRow rows target mode) := by
  simp only [kept, List.map_map, Function.comp_def]

theorem kept_entries (hsource : source.Lawful) (hrows : rows.length = source.size) :
    (kept rows source target mode).flatten.length = rows.flatten.length := by
  rw [kept_eq]
  exact reordered_entries (keptOrder_perm hsource hrows) keptRow_length

theorem kept_packable {targetCount : Nat} (hpack : Packable rows targetCount)
    (hsource : source.Lawful) (htarget : target.Lawful) (hrows : rows.length = source.size)
    (htargets : targetCount = target.size) :
    Packable (kept rows source target mode) targetCount := by
  rw [kept_eq]
  refine hpack.reorder (keptOrder_perm hsource hrows) keptRow_length fun identity entry hentry => ?_
  unfold keptRow at hentry
  split at hentry
  · obtain ⟨other, hother, rfl⟩ := List.mem_map.mp hentry
    rw [htargets]
    exact htarget.slotOf_lt (htargets ▸ entry_lt hpack hother)
  · exact entry_lt hpack hentry

theorem remapRow?_eq {rowSource targetMap : Option (Array UInt32)} {targetCount i identity : Nat}
    {row : List UInt32} (hentries : rows.flatten.length < UInt32.size)
    (hidentity : identity < rows.length)
    (hsource : (match rowSource with
      | none => some i
      | some order => order[i]?.map UInt32.toNat) = some identity)
    (htarget : (match targetMap with
      | none => some (rows.getD identity [])
      | some map => (rows.getD identity []).mapM fun target => map[target.toNat]?) = some row) :
    (pack rows targetCount).remapRow? rowSource targetMap i = some row := by
  have hrow := (pack_row? rows targetCount hentries identity).trans (getD_eq hidentity)
  unfold remapRow?
  cases rowSource <;> cases targetMap <;>
    simp only [Option.bind_eq_bind] at hsource htarget ⊢ <;>
    simp only [hsource, hrow, htarget, Option.bind_some]

theorem slot_toNat (hsource : source.Lawful) {i : Nat} (hi : i < source.size) :
    i.toUInt32.toNat = i := toNat_toUInt32 (Nat.lt_of_lt_of_le hi hsource.size_le)

theorem rowSource_lookup (hsource : source.Lawful) {i : Nat} (hi : i < source.size) :
    (match rowSource mode source with
      | none => some i
      | some order => order[i]?.map UInt32.toNat) =
        some (if mode.fromEnd then i else (source.identityOf i.toUInt32).toNat) := by
  have hslot : i.toUInt32.toNat < source.size := by rwa [slot_toNat hsource hi]
  have hown := hsource.identityOf?_eq hslot
  unfold rowSource
  cases mode.fromEnd with
  | true => rfl
  | false =>
    cases hflag : source.isIdentity with
    | true =>
      have hsame := hsource.isIdentity_iff.mp hflag i.toUInt32 hslot
      rw [hown] at hsame
      simp [Option.some.inj hsame, slot_toNat hsource hi]
    | false =>
      rw [Permutation.identityOf?, slot_toNat hsource hi] at hown
      simp [hown]

theorem targetMap_lookup (htarget : target.Lawful) {identity : Nat}
    (hrange : ∀ entry ∈ rows.getD identity [], entry.toNat < target.size) :
    (match targetMap mode target with
      | none => some (rows.getD identity [])
      | some map => (rows.getD identity []).mapM fun target => map[target.toNat]?) =
        some (keptRow rows target mode identity) := by
  unfold targetMap keptRow
  cases mode.toEnd with
  | false => rfl
  | true =>
    cases hflag : target.isIdentity with
    | true =>
      have hown : ∀ entry ∈ rows.getD identity [], target.slotOf entry = id entry :=
        fun entry hentry => htarget.slotOf_of_isIdentity hflag (hrange entry hentry)
      simp only [Bool.not_true, Bool.or_true, if_true]
      rw [List.map_congr_left hown, List.map_id]
    | false => exact mapM_eq_some_map _ fun entry hentry => Permutation.slotOf?_eq (hrange entry hentry)

theorem localize_pack {targetCount : Nat} (hpack : Packable rows targetCount)
    (hsource : source.Lawful) (htarget : target.Lawful) (hrows : rows.length = source.size)
    (htargets : targetCount = target.size) :
    localize (pack rows targetCount) source target mode =
      some (pack (kept rows source target mode) targetCount) := by
  have hremap : (pack rows targetCount).remap? (rowSource mode source) (targetMap mode target) =
      some (pack (kept rows source target mode) targetCount) := by
    refine remap?_pack (kept_length rows source target mode) fun i hi => ?_
    have hslot : i < source.size := hrows ▸ hi
    have hidentity : (if mode.fromEnd then i else (source.identityOf i.toUInt32).toNat) <
        rows.length := by
      split
      · exact hi
      · rw [hrows]
        exact hsource.identityOf_lt (by rwa [slot_toNat hsource hslot])
    rw [kept_getElem? rows source target mode hi]
    exact remapRow?_eq hpack.entries_lt hidentity (rowSource_lookup hsource hslot)
      (targetMap_lookup htarget fun entry hentry => htargets ▸ entry_lt hpack hentry)
  unfold localize
  split
  · next hnone hnone' =>
    have hsame : (pack rows targetCount).remap? none none = some (pack rows targetCount) := by
      refine remap?_pack rfl fun i hi => ?_
      rw [getD_eq hi]
      exact remapRow?_eq hpack.entries_lt hi rfl rfl
    rw [← hsame, ← hremap, hnone, hnone']
  · exact hremap

theorem build_pack (relation : Relation) {targetCount : Nat} (hpack : Packable rows targetCount)
    (hsource : source.Lawful) (htarget : target.Lawful) (hrows : rows.length = source.size)
    (htargets : targetCount = target.size) :
    build relation (pack rows targetCount) source target mode =
      .ok ⟨relation, pack (kept rows source target mode) targetCount, source, target, mode⟩ := by
  have hkept : Packable (kept rows source target mode) targetCount :=
    kept_packable hpack hsource htarget hrows htargets
  have hsize : (pack (kept rows source target mode) targetCount).rowCount = source.size := by
    rw [pack_rowCount, kept_length, hrows]
  have hvalid : validate ⟨relation, pack (kept rows source target mode) targetCount,
      source, target, mode⟩ = .ok () := by
    rw [Incidence.validate, bind_eq_ok]
    exact ⟨(), hkept.validate, by rw [Checked.require_of _ (by exact hsize)]; rfl⟩
  rw [build, localize_pack hpack hsource htarget hrows htargets]
  rw [Checked.require_of _ (by exact ⟨by rw [pack_rowCount, hrows], htargets⟩)]
  simp only [Outcome.liftM_eq, Outcome.ofChecked_ok, ok_bind, Outcome.ofLookup_some]
  rw [Outcome.assert_eq_ok.mpr hvalid]
  rfl

/-- The rows of identities under an incidence that `build` makes of them. -/
structure Holds (incidence : Incidence) (rows : List (List UInt32)) : Prop where
  packable : Packable rows incidence.target.size
  source : incidence.source.Lawful
  target : incidence.target.Lawful
  rows_length : rows.length = incidence.source.size
  adjacency : incidence.adjacency =
    pack (kept rows incidence.source incidence.target incidence.mode) incidence.target.size

variable {incidence : Incidence}

namespace Holds

theorem size_eq (h : Holds incidence rows) : incidence.size = incidence.source.size := by
  rw [Incidence.size, h.adjacency, pack_rowCount, kept_length, h.rows_length]

theorem entryCount_eq (h : Holds incidence rows) :
    incidence.entryCount = rows.flatten.length := by
  rw [Incidence.entryCount, h.adjacency, pack_entryCount, kept_entries h.source h.rows_length]

theorem keptRow_lookup (h : Holds incidence rows) (i : Nat) :
    incidence.adjacency.row? i =
      (kept rows incidence.source incidence.target incidence.mode)[i]? := by
  rw [h.adjacency, pack_row?]
  exact (kept_packable h.packable h.source h.target h.rows_length rfl).entries_lt

/-- The row of the identity of a slot, as the mode keeps it. -/
theorem neighbors?_eq (h : Holds incidence rows) {slot : Slot}
    (hslot : slot.toNat < incidence.source.size) :
    incidence.neighbors? slot = some
      ⟨keptRow rows incidence.target incidence.mode (incidence.source.identityOf slot).toNat,
        if incidence.mode.toEnd then none else some incidence.target⟩ := by
  have hidentity := h.source.identityOf_lt hslot
  have hrow : incidence.rowOf? slot = some (if incidence.mode.fromEnd then
      (incidence.source.identityOf slot).toNat else slot.toNat) := by
    unfold rowOf?
    split
    · rw [h.source.identityOf?_eq hslot, Option.map_some]
    · rfl
  have hkept : incidence.adjacency.row? (if incidence.mode.fromEnd then
      (incidence.source.identityOf slot).toNat else slot.toNat) =
        some (keptRow rows incidence.target incidence.mode
          (incidence.source.identityOf slot).toNat) := by
    rw [h.keptRow_lookup, kept_getElem?]
    · cases incidence.mode.fromEnd with
      | true => rfl
      | false => simp only [Bool.false_eq_true, if_false, toUInt32_toNat]
    · rw [h.rows_length]
      split
      · exact hidentity
      · exact hslot
  simp only [neighbors?, hrow, hkept, Option.bind_eq_bind, Option.bind_some, Option.pure_def]

theorem neighbors?_eq_none (h : Holds incidence rows) {slot : Slot}
    (hslot : incidence.source.size ≤ slot.toNat) : incidence.neighbors? slot = none := by
  have hnone : incidence.adjacency.row? slot.toNat = none := by
    rw [h.keptRow_lookup, List.getElem?_eq_none]
    rwa [kept_length, h.rows_length]
  unfold neighbors? rowOf?
  split
  · rw [h.source.identityOf?_eq_none hslot]
    rfl
  · simp only [Option.bind_eq_bind, Option.bind_some, hnone, Option.bind_none]

theorem slots_eq (h : Holds incidence rows) {slot : Slot} {neighbors : Neighbors}
    (hslot : slot.toNat < incidence.source.size) (hn : incidence.neighbors? slot = some neighbors) :
    neighbors.slots? = some ((rows.getD (incidence.source.identityOf slot).toNat []).map
      incidence.target.slotOf) := by
  rw [h.neighbors?_eq hslot] at hn
  obtain rfl := Option.some.inj hn
  unfold Neighbors.slots? keptRow
  cases incidence.mode.toEnd with
  | true => exact (mapM_eq_some_map (g := id) _ fun _ _ => rfl).trans (by simp)
  | false =>
    exact mapM_eq_some_map _ fun entry hentry =>
      Permutation.slotOf?_eq (entry_lt h.packable hentry)

theorem neighborSlots?_eq (h : Holds incidence rows) {slot : Slot}
    (hslot : slot.toNat < incidence.source.size) :
    incidence.neighborSlots? slot = some
      ((rows.getD (incidence.source.identityOf slot).toNat []).map incidence.target.slotOf) := by
  have hn := h.neighbors?_eq hslot
  rw [neighborSlots?, hn]
  exact h.slots_eq hslot hn

theorem neighborIdentities?_eq (h : Holds incidence rows) {slot : Slot}
    (hslot : slot.toNat < incidence.source.size) :
    incidence.neighborIdentities? slot =
      some (rows.getD (incidence.source.identityOf slot).toNat []) := by
  have hback : ∀ entry ∈ (rows.getD (incidence.source.identityOf slot).toNat []).map
      incidence.target.slotOf,
      incidence.target.identityOf? entry = some (incidence.target.identityOf entry) := by
    intro entry hentry
    obtain ⟨identity, hidentity, rfl⟩ := List.mem_map.mp hentry
    exact h.target.identityOf?_eq (h.target.slotOf_lt (entry_lt h.packable hidentity))
  rw [neighborIdentities?, h.neighborSlots?_eq hslot]
  refine (mapM_eq_some_map _ hback).trans ?_
  rw [List.map_map, List.map_congr_left (g := id), List.map_id]
  exact fun identity hidentity => h.target.identityOf_slotOf' (entry_lt h.packable hidentity)

theorem neighborSlots?_eq_none (h : Holds incidence rows) {slot : Slot}
    (hslot : incidence.source.size ≤ slot.toNat) : incidence.neighborSlots? slot = none := by
  rw [neighborSlots?, h.neighbors?_eq_none hslot]
  rfl

theorem findNeighbors_eq_ok (h : Holds incidence rows) {slot : Slot} {neighbors : Neighbors} :
    incidence.findNeighbors slot = .ok neighbors ↔
      slot.toNat < incidence.source.size ∧ incidence.neighbors? slot = some neighbors := by
  rw [findNeighbors, h.size_eq]
  simp

end Holds

theorem build_holds (relation : Relation) (mode : Mode) {targetCount : Nat}
    (hpack : Packable rows targetCount) (hsource : source.Lawful) (htarget : target.Lawful)
    (hrows : rows.length = source.size) (htargets : targetCount = target.size) :
    ∃ incidence, build relation (pack rows targetCount) source target mode = .ok incidence ∧
      Holds incidence rows ∧ incidence.relation = relation ∧ incidence.source = source ∧
      incidence.target = target := by
  subst htargets
  exact ⟨_, build_pack relation hpack hsource htarget hrows rfl,
    ⟨hpack, hsource, htarget, hrows, rfl⟩, rfl, rfl, rfl⟩

/-- In every mode the table of an accepted adjacency can be built and answers by the rows of
identities: the neighbors of a slot are the row of its identity, in order and with repetitions,
each target in its slot. -/
theorem build_answers_rows (relation : Relation) (adjacency : Adjacency)
    (source target : Permutation) (mode : Mode) (hvalid : adjacency.validate = .ok ())
    (hsource : source.Made) (htarget : target.Made) (hrows : adjacency.rowCount = source.size)
    (htargets : adjacency.targetCount = target.size) :
    ∃ incidence, build relation adjacency source target mode = .ok incidence ∧
      incidence.entryCount = adjacency.entryCount ∧
      (∀ slot : Slot, slot.toNat < adjacency.rowCount →
        ∃ identity row slots neighbors, source.identityOf? slot = some identity ∧
          adjacency.row? identity.toNat = some row ∧ row.mapM target.slotOf? = some slots ∧
          incidence.neighbors? slot = some neighbors ∧ neighbors.slots? = some slots ∧
          neighbors.size = slots.length ∧ (∀ j, neighbors.get? j = slots[j]?) ∧
          incidence.neighborIdentities? slot = some row ∧
          incidence.findNeighbors slot = .ok neighbors) ∧
      (∀ slot : Slot, adjacency.rowCount ≤ slot.toNat → incidence.neighbors? slot = none ∧
        incidence.findNeighbors slot =
          Outcome.refuse (.outOfRange (.sourceSlot relation) slot.toNat adjacency.rowCount)) ∧
      ∀ other, ∃ incidence', build relation adjacency source target other = .ok incidence' ∧
        ∀ slot, incidence'.neighborSlots? slot = incidence.neighborSlots? slot ∧
          incidence'.neighborIdentities? slot = incidence.neighborIdentities? slot := by
  obtain ⟨rows, hpack, heq⟩ := exists_packable hvalid
  rw [heq] at hrows ⊢
  rw [pack_rowCount] at hrows ⊢
  have hbuilt := fun mode => build_holds relation mode hpack hsource.lawful htarget.lawful hrows
    htargets
  obtain ⟨incidence, hbuild, hholds, rfl, rfl, rfl⟩ := hbuilt mode
  refine ⟨incidence, hbuild, by rw [hholds.entryCount_eq, pack_entryCount], ?_, ?_, ?_⟩
  · intro slot hslot
    rw [hrows] at hslot
    have hidentity := hholds.source.identityOf_lt hslot
    have hn := hholds.neighbors?_eq hslot
    have hslots := hholds.slots_eq hslot hn
    refine ⟨_, _, _, _, hholds.source.identityOf?_eq hslot,
      (pack_row? rows _ hpack.entries_lt _).trans (getD_eq (hrows ▸ hidentity)),
      mapM_eq_some_map _ fun entry hentry =>
        Permutation.slotOf?_eq (entry_lt hholds.packable hentry),
      hn, hslots, (mapM_eq_some_iff.mp hslots).length_eq, fun j => mapM_getElem? hslots j,
      hholds.neighborIdentities?_eq hslot, hholds.findNeighbors_eq_ok.mpr ⟨hslot, hn⟩⟩
  · intro slot hslot
    rw [hrows] at hslot ⊢
    refine ⟨hholds.neighbors?_eq_none hslot, ?_⟩
    rw [findNeighbors, hholds.size_eq, Checked.require, if_neg (by omega)]
    rfl
  · intro other
    obtain ⟨incidence', hbuild', hholds', -, hsource', htarget'⟩ := hbuilt other
    refine ⟨incidence', hbuild', fun slot => ?_⟩
    by_cases hslot : slot.toNat < incidence.source.size
    · have hslot' : slot.toNat < incidence'.source.size := hsource' ▸ hslot
      rw [hholds.neighborSlots?_eq hslot, hholds'.neighborSlots?_eq hslot',
        hholds.neighborIdentities?_eq hslot, hholds'.neighborIdentities?_eq hslot', hsource',
        htarget']
      exact ⟨rfl, rfl⟩
    · have hout : incidence.source.size ≤ slot.toNat := Nat.le_of_not_lt hslot
      rw [neighborIdentities?, neighborIdentities?, hholds.neighborSlots?_eq_none hout,
        hholds'.neighborSlots?_eq_none (hsource' ▸ hout)]
      exact ⟨rfl, rfl⟩

theorem build_answers_rows_turned :
    (pack [[1, 0, 0], [2], []] 3).validate = .ok () ∧
      Permutation.Made ⟨#[1, 2, 0], #[2, 0, 1], false⟩ ∧
      Permutation.Made ⟨#[2, 1, 0], #[2, 1, 0], false⟩ ∧
      ∃ incidence, build ⟨.face, .vertex⟩ (pack [[1, 0, 0], [2], []] 3)
          ⟨#[1, 2, 0], #[2, 0, 1], false⟩ ⟨#[2, 1, 0], #[2, 1, 0], false⟩ ⟨true, false⟩ =
            .ok incidence ∧ incidence.entryCount = 4 :=
  have hvalid : (pack [[1, 0, 0], [2], []] 3).validate = .ok () := by rfl
  have hsource : Permutation.Made ⟨#[1, 2, 0], #[2, 0, 1], false⟩ := .ofIdentities
    (by decide) (show Permutation.ofIdentities #[2, 0, 1] = .ok _ by rfl)
  have htarget : Permutation.Made ⟨#[2, 1, 0], #[2, 1, 0], false⟩ := .ofIdentities
    (by decide) (show Permutation.ofIdentities #[2, 1, 0] = .ok _ by rfl)
  have ⟨incidence, hbuild, hentries, _⟩ := build_answers_rows ⟨.face, .vertex⟩ _ _ _
    ⟨true, false⟩ hvalid hsource htarget (by rfl) (by rfl)
  ⟨hvalid, hsource, htarget, incidence, hbuild, hentries⟩

end Incidence

end MeshLayout
