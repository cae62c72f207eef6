import MeshLayout.Proofs.Adjacency
import Mathlib.Algebra.BigOperators.Group.Finset.Basic
import Mathlib.Algebra.GroupWithZero.Nat

/-!
# Arrows turned round

Turning the arrows of an adjacency round enters each source into the row of each of its targets.
The row of a target then lists its sources in ascending order, each as often as its own row names
the target. No arrow is lost, so what comes out can be laid out where what went in could.

The counts of the targets are the lengths of the rows to come, so their sums cut the entries into
one block for each row. While arrows are entered, each block is filled from its start up to the
cursor of its row, which stays inside the block: what is still to be entered fits into what is
left of it.
-/

set_option autoImplicit false

namespace MeshLayout

namespace Adjacency

/-- The sources of a target if the first row is that of `source`: each as often as its row names
the target. -/
def turnedRow (target : UInt32) : List (List UInt32) → Nat → List UInt32
  | [], _ => []
  | row :: rest, source =>
    List.replicate (row.count target) source.toUInt32 ++ turnedRow target rest (source + 1)

def turned (rows : List (List UInt32)) (targetCount : Nat) : List (List UInt32) :=
  (List.range targetCount).map fun target => turnedRow target.toUInt32 rows 0

theorem turnedRow_eq (target : UInt32) (rows : List (List UInt32)) (source : Nat) :
    turnedRow target rows source = (List.range rows.length).flatMap fun i =>
      List.replicate ((rows.getD i []).count target) (source + i).toUInt32 := by
  induction rows generalizing source with
  | nil => rfl
  | cons row rest ih =>
    rw [turnedRow, ih, List.length_cons, List.range_succ_eq_map, List.flatMap_cons,
      List.flatMap_map]
    simp only [List.getD_cons_zero, List.getD_cons_succ, Nat.add_zero, Nat.add_assoc, Nat.add_comm 1]

theorem turned_length (rows : List (List UInt32)) (targetCount : Nat) :
    (turned rows targetCount).length = targetCount := by
  rw [turned, List.length_map, List.length_range]

theorem turned_getD (rows : List (List UInt32)) {targetCount : Nat} {target : UInt32}
    (h : target.toNat < targetCount) :
    (turned rows targetCount).getD target.toNat [] = turnedRow target rows 0 := by
  rw [turned, List.getD_eq_getElem?_getD, List.getElem?_map, List.getElem?_range h,
    Option.map_some, Option.getD_some, toUInt32_toNat]

theorem turnedRow_bounds (target : UInt32) (rows : List (List UInt32)) (source : Nat)
    (hsize : source + rows.length ≤ UInt32.size) :
    ∀ entry ∈ turnedRow target rows source,
      source ≤ entry.toNat ∧ entry.toNat < source + rows.length := by
  induction rows generalizing source with
  | nil => simp [turnedRow]
  | cons row rest ih =>
    rw [List.length_cons] at hsize ⊢
    intro entry hentry
    rcases List.mem_append.mp hentry with hhere | hlater
    · rw [List.eq_of_mem_replicate hhere, toNat_toUInt32 (by omega)]
      omega
    · have := ih (source + 1) (by omega) entry hlater
      omega

theorem turnedRow_ascending (target : UInt32) (rows : List (List UInt32)) (source : Nat)
    (hsize : source + rows.length ≤ UInt32.size) :
    (turnedRow target rows source).Pairwise (· ≤ ·) := by
  induction rows generalizing source with
  | nil => exact List.Pairwise.nil
  | cons row rest ih =>
    rw [List.length_cons] at hsize
    rw [turnedRow, List.pairwise_append]
    refine ⟨List.pairwise_replicate.mpr (.inr (UInt32.le_refl _)), ih (source + 1) (by omega), ?_⟩
    intro entry hhere later hlater
    have hbound := turnedRow_bounds target rest (source + 1) (by omega) later hlater
    rw [List.eq_of_mem_replicate hhere, UInt32.le_iff_toNat_le, toNat_toUInt32 (by omega)]
    omega

theorem count_turnedRow (target : UInt32) (rows : List (List UInt32)) (source : Nat)
    (hsize : source + rows.length ≤ UInt32.size) (i : Nat) (hi : i < rows.length) :
    (turnedRow target rows source).count (source + i).toUInt32 =
      (rows.getD i []).count target := by
  induction rows generalizing source i with
  | nil => cases hi
  | cons row rest ih =>
    rw [List.length_cons] at hsize hi
    rw [turnedRow, List.count_append, List.count_replicate]
    cases i with
    | zero =>
      have habsent : (turnedRow target rest (source + 1)).count (source + 0).toUInt32 = 0 := by
        refine List.count_eq_zero.mpr fun hmem => ?_
        have := turnedRow_bounds target rest (source + 1) (by omega) _ hmem
        rw [toNat_toUInt32 (by omega)] at this
        omega
      rw [habsent]
      simp
    | succ i =>
      have hne : (source.toUInt32 == (source + (i + 1)).toUInt32) = false := by
        rw [beq_eq_false_iff_ne]
        intro heq
        have := toUInt32_inj (by omega) (by omega) heq
        omega
      have hrest := ih (source + 1) (by omega) i (by omega)
      rw [hne, if_neg Bool.false_ne_true, Nat.zero_add, List.getD_cons_succ, ← hrest]
      congr 2
      omega

theorem turnedRow_length (target : UInt32) (rows : List (List UInt32)) (source : Nat) :
    (turnedRow target rows source).length = rows.flatten.count target := by
  induction rows generalizing source with
  | nil => rfl
  | cons row rest ih =>
    rw [turnedRow, List.length_append, List.length_replicate, ih, List.flatten_cons,
      List.count_append]

theorem sum_count {words : List UInt32} {bound : Nat} (hbound : bound ≤ UInt32.size)
    (h : ∀ word ∈ words, word.toNat < bound) :
    ((List.range bound).map fun i => words.count i.toUInt32).sum = words.length := by
  have hcount : ∀ i ∈ List.range bound,
      words.count i.toUInt32 = (words.map UInt32.toNat : Multiset Nat).count i := by
    intro i hi
    have hword := toNat_toUInt32 (Nat.lt_of_lt_of_le (List.mem_range.mp hi) hbound)
    rw [Multiset.coe_count, ← List.count_map_of_injective words UInt32.toNat
      (fun _ _ heq => UInt32.toNat_inj.mp heq), hword]
  have hrange : ∀ i ∈ (words.map UInt32.toNat : Multiset Nat), i ∈ Finset.range bound := by
    simpa using h
  rw [List.map_congr_left hcount]
  exact (Multiset.sum_count_eq_card hrange).trans (by simp)

variable {rows : List (List UInt32)} {targetCount : Nat}

theorem Packable.flatten_lt (hpack : Packable rows targetCount) :
    ∀ target ∈ rows.flatten, target.toNat < targetCount := by
  intro target htarget
  obtain ⟨row, hrow, hmem⟩ := List.mem_flatten.mp htarget
  exact hpack.range row hrow target hmem

theorem turned_entries (hpack : Packable rows targetCount) (hcount : targetCount ≤ UInt32.size) :
    (turned rows targetCount).flatten.length = rows.flatten.length := by
  rw [List.length_flatten, turned, List.map_map, ← sum_count hcount hpack.flatten_lt]
  simp only [Function.comp_def, turnedRow_length]

theorem wordSum?_eq {m n : Nat} (h : m + n < UInt32.size) :
    wordSum? m.toUInt32 n.toUInt32 = some (m + n).toUInt32 := by
  have hm := toNat_toUInt32 (show m < UInt32.size by omega)
  have hn := toNat_toUInt32 (show n < UInt32.size by omega)
  rw [wordSum?, hm, hn, if_pos h]
  exact congrArg some (UInt32.ofNat_add m n).symm

theorem countTargets_eq (targets : List UInt32) (tally : UInt32 → Nat) (counts : Array UInt32)
    (hcounts : ∀ target : UInt32, target.toNat < counts.size →
      counts[target.toNat]? = some (tally target).toUInt32)
    (hroom : ∀ target, tally target + targets.length < UInt32.size)
    (hrange : ∀ target ∈ targets, target.toNat < counts.size) :
    ∃ after, countTargets targets counts = some after ∧ after.size = counts.size ∧
      ∀ target : UInt32, target.toNat < counts.size →
        after[target.toNat]? = some (tally target + targets.count target).toUInt32 := by
  induction targets generalizing tally counts with
  | nil => exact ⟨counts, rfl, rfl, hcounts⟩
  | cons first rest ih =>
    have hfirst := hrange first List.mem_cons_self
    have hsum : wordSum? (tally first).toUInt32 1 = some (tally first + 1).toUInt32 := by
      have := hroom first
      rw [List.length_cons] at this
      exact wordSum?_eq (n := 1) (by omega)
    have hnext : ∀ target : UInt32, target.toNat < counts.size →
        (counts.setIfInBounds first.toNat (tally first + 1).toUInt32)[target.toNat]? =
          some (tally target + [first].count target).toUInt32 := by
      intro target htarget
      by_cases hsame : first = target
      · subst hsame
        rw [Array.getElem?_setIfInBounds_self_of_lt hfirst, List.count_singleton_self]
      · rw [Array.getElem?_setIfInBounds_ne fun heq => hsame (UInt32.toNat_inj.mp heq),
          hcounts target htarget, List.count_eq_zero_of_not_mem (by simpa using Ne.symm hsame),
          Nat.add_zero]
    have hspare : ∀ target,
        tally target + [first].count target + rest.length < UInt32.size := by
      intro target
      have hlength := hroom target
      have hone : [first].count target ≤ 1 := List.count_le_length
      rw [List.length_cons] at hlength
      omega
    obtain ⟨after, hafter, hsize, hlookup⟩ := ih _
      (counts.setIfInBounds first.toNat (tally first + 1).toUInt32)
      (by rwa [Array.size_setIfInBounds]) hspare fun other hother => by
        rw [Array.size_setIfInBounds]
        exact hrange other (List.mem_cons_of_mem _ hother)
    rw [Array.size_setIfInBounds] at hsize hlookup
    refine ⟨after, ?_, hsize, fun target htarget => ?_⟩
    · simp only [countTargets, hcounts first hfirst, hsum, Option.bind_eq_bind, Option.bind_some,
        hafter]
    · rw [hlookup target htarget, Nat.add_assoc, ← List.count_append, List.singleton_append]

theorem countedOffsets_eq (rows : List (List UInt32)) (start : Nat)
    (h : start + rows.flatten.length < UInt32.size) :
    countedOffsets start.toUInt32 (rows.map fun row => row.length.toUInt32) =
      some (start.toUInt32 :: rowEnds start rows) := by
  induction rows generalizing start with
  | nil => rfl
  | cons row rest ih =>
    rw [List.flatten_cons, List.length_append, ← Nat.add_assoc] at h
    rw [List.map_cons, countedOffsets, wordSum?_eq (by omega)]
    simp only [Option.bind_eq_bind, Option.bind_some, ih (start + row.length) h]
    rfl

theorem flatten_set (blocks : List (List UInt32)) {i j : Nat} {block : List UInt32}
    (hblock : blocks[i]? = some block) (hj : j < block.length) (entry : UInt32) :
    blocks.flatten.set (((blocks.map List.length).take i).sum + j) entry =
      (blocks.set i (block.set j entry)).flatten := by
  induction blocks generalizing i with
  | nil => simp at hblock
  | cons first rest ih =>
    cases i with
    | zero =>
      cases hblock
      simp [List.set_append_left, hj]
    | succ i =>
      have hrest := ih (i := i) hblock
      rw [List.map_cons, List.take_succ_cons, List.sum_cons, List.flatten_cons, Nat.add_assoc,
        List.set_append_right _ _ (Nat.le_add_right _ _), Nat.add_sub_cancel_left, hrest,
        List.set_cons_succ, List.flatten_cons]

theorem take_sum_add_le {lengths : List Nat} {i length : Nat} (h : lengths[i]? = some length) :
    (lengths.take i).sum + length ≤ lengths.sum := by
  obtain ⟨hi, rfl⟩ := List.getElem?_eq_some_iff.mp h
  have hparts := congrArg List.sum (List.take_append_drop i lengths)
  rw [List.drop_eq_getElem_cons hi, List.sum_append, List.sum_cons] at hparts
  omega

theorem concat_prefix_set {filled block : List UInt32} (h : filled <+: block)
    (hroom : filled.length < block.length) (entry : UInt32) :
    filled ++ [entry] <+: block.set filled.length entry := by
  obtain ⟨spare, rfl⟩ := h
  cases spare with
  | nil => simp at hroom
  | cons first rest =>
    rw [List.set_append_right _ _ (Nat.le_refl _), Nat.sub_self, List.set_cons_zero]
    exact ⟨rest, by simp⟩

namespace Filling

/-- The entries are cut into blocks of the given lengths, one for each row. A row is filled from
the start of its block up to its cursor. -/
structure Holds (filling : Filling) (lengths : List Nat) (filled : UInt32 → List UInt32) :
    Prop where
  blocks : ∃ blocks : List (List UInt32), filling.entries.toList = blocks.flatten ∧
    blocks.map List.length = lengths ∧
    ∀ (target : UInt32) block, blocks[target.toNat]? = some block → filled target <+: block
  cursor : ∀ target : UInt32, target.toNat < lengths.length → filling.cursors[target.toNat]? =
    some ((lengths.take target.toNat).sum + (filled target).length).toUInt32

variable {filling : Filling} {lengths : List Nat} {filled : UInt32 → List UInt32}

namespace Holds

theorem enter (h : filling.Holds lengths filled) (hsize : lengths.sum < UInt32.size)
    (source : UInt32) {target : UInt32} {length : Nat}
    (hlength : lengths[target.toNat]? = some length) (hroom : (filled target).length < length) :
    ∃ after, filling.enter source target = some after ∧ after.Holds lengths fun other =>
      filled other ++ List.replicate ([target].count other) source := by
  obtain ⟨blocks, hentries, rfl, hfilled⟩ := h.blocks
  obtain ⟨block, hblock, rfl⟩ : ∃ block, blocks[target.toNat]? = some block ∧
      block.length = length := by
    simpa [List.getElem?_map, Option.map_eq_some_iff] using hlength
  obtain ⟨hlt, hthere⟩ := List.getElem?_eq_some_iff.mp hlength
  have hcursor := h.cursor target hlt
  have hends := take_sum_add_le hlength
  generalize hplace : ((blocks.map List.length).take target.toNat).sum + (filled target).length =
    place at hcursor
  have hword := toNat_toUInt32 (show place < UInt32.size by omega)
  have hinside : place < filling.entries.size := by
    rw [← Array.length_toList, hentries, List.length_flatten]
    omega
  have hguard : guard (place < filling.entries.size) = some () := if_pos hinside
  have hnext : wordSum? place.toUInt32 1 = some (place + 1).toUInt32 :=
    wordSum?_eq (n := 1) (by omega)
  refine ⟨⟨filling.cursors.setIfInBounds target.toNat (place + 1).toUInt32,
    filling.entries.setIfInBounds place source⟩, ?_, ?_, ?_⟩
  · simp only [Filling.enter, hcursor, hguard, hnext, hword, Option.bind_eq_bind,
      Option.bind_some, Option.pure_def]
  · refine ⟨blocks.set target.toNat (block.set (filled target).length source), ?_, ?_, ?_⟩
    · rw [Array.toList_setIfInBounds, hentries, ← hplace, flatten_set blocks hblock hroom]
    · rw [List.map_set, List.length_set, ← hthere, List.set_getElem_self]
    · intro other there hother
      by_cases hsame : target = other
      · subst hsame
        rw [List.getElem?_set_self (by simpa using hlt)] at hother
        rw [← Option.some.inj hother, List.count_singleton_self]
        exact concat_prefix_set (hfilled target block hblock) hroom source
      · rw [List.getElem?_set_ne fun heq => hsame (UInt32.toNat_inj.mp heq)] at hother
        rw [List.count_eq_zero_of_not_mem (by simpa using Ne.symm hsame), List.replicate_zero,
          List.append_nil]
        exact hfilled other there hother
  · intro other hother
    by_cases hsame : target = other
    · subst hsame
      rw [Array.getElem?_setIfInBounds_self_of_lt (Array.getElem?_eq_some_iff.mp hcursor).1,
        List.count_singleton_self, ← hplace, List.length_append, List.length_replicate,
        Nat.add_assoc]
    · rw [Array.getElem?_setIfInBounds_ne fun heq => hsame (UInt32.toNat_inj.mp heq),
        List.count_eq_zero_of_not_mem (by simpa using Ne.symm hsame), List.replicate_zero,
        List.append_nil]
      exact h.cursor other hother

theorem enterRow (h : filling.Holds lengths filled) (hsize : lengths.sum < UInt32.size)
    (source : UInt32) (row : List UInt32) (hrange : ∀ target ∈ row, target.toNat < lengths.length)
    (hroom : ∀ (target : UInt32) length, lengths[target.toNat]? = some length →
      (filled target).length + row.count target ≤ length) :
    ∃ after, filling.enterRow source row = some after ∧ after.Holds lengths fun target =>
      filled target ++ List.replicate (row.count target) source := by
  induction row generalizing filling filled with
  | nil => exact ⟨filling, rfl, by simpa using h⟩
  | cons first rest ih =>
    have hfirst := List.getElem?_eq_getElem (hrange first List.mem_cons_self)
    have hfree := hroom first _ hfirst
    rw [List.count_cons_self] at hfree
    obtain ⟨between, hbetween, hholds⟩ := h.enter hsize source hfirst (by omega)
    obtain ⟨after, hafter, hholds⟩ := ih hholds
      (fun other hother => hrange other (List.mem_cons_of_mem _ hother))
      fun target length hlength => by
        have := hroom target length hlength
        rw [← List.singleton_append, List.count_append] at this
        rw [List.length_append, List.length_replicate]
        omega
    refine ⟨after, ?_, ?_⟩
    · rw [Filling.enterRow, hbetween]
      exact hafter
    · simpa only [List.append_assoc, List.replicate_append_replicate, ← List.count_append,
        List.singleton_append] using hholds

theorem enterRows (h : filling.Holds lengths filled) (hsize : lengths.sum < UInt32.size)
    (rows : List (List UInt32)) (source : Nat)
    (hrange : ∀ row ∈ rows, ∀ target ∈ row, target.toNat < lengths.length)
    (hroom : ∀ (target : UInt32) length, lengths[target.toNat]? = some length →
      (filled target).length + (turnedRow target rows source).length ≤ length) :
    ∃ after, filling.enterRows rows source = some after ∧ after.Holds lengths fun target =>
      filled target ++ turnedRow target rows source := by
  induction rows generalizing filling filled source with
  | nil => exact ⟨filling, rfl, by simpa [turnedRow] using h⟩
  | cons row rest ih =>
    have hsplit : ∀ (target : UInt32) length, lengths[target.toNat]? = some length →
        (filled target).length + row.count target +
          (turnedRow target rest (source + 1)).length ≤ length := by
      intro target length hlength
      have := hroom target length hlength
      rw [turnedRow, List.length_append, List.length_replicate] at this
      omega
    obtain ⟨between, hbetween, hholds⟩ := h.enterRow hsize source.toUInt32 row
      (hrange row List.mem_cons_self) fun target length hlength => by
        have := hsplit target length hlength
        omega
    obtain ⟨after, hafter, hholds⟩ := ih hholds (source + 1)
      (fun other hother => hrange other (List.mem_cons_of_mem _ hother))
      fun target length hlength => by
        rw [List.length_append, List.length_replicate]
        exact hsplit target length hlength
    refine ⟨after, ?_, ?_⟩
    · rw [Filling.enterRows, hbetween]
      exact hafter
    · simpa only [turnedRow, List.append_assoc] using hholds

theorem entries_eq (h : filling.Holds lengths filled) (hcount : lengths.length ≤ UInt32.size)
    (hfull : ∀ target : UInt32, target.toNat < lengths.length →
      lengths[target.toNat]? = some (filled target).length) :
    filling.entries.toList =
      ((List.range lengths.length).map fun i => filled i.toUInt32).flatten := by
  obtain ⟨blocks, hentries, rfl, hfilled⟩ := h.blocks
  rw [hentries]
  congr 1
  apply List.ext_getElem (by simp)
  intro i hi _
  rw [List.length_map] at hcount hfull
  have hword := toNat_toUInt32 (Nat.lt_of_lt_of_le hi hcount)
  have hblock := hfilled i.toUInt32 blocks[i] (by rw [hword, List.getElem?_eq_getElem hi])
  have hlength := hfull i.toUInt32 (by rwa [hword])
  rw [hword, List.getElem?_map, List.getElem?_eq_getElem hi, Option.map_some] at hlength
  rw [List.getElem_map, List.getElem_range]
  exact (hblock.eq_of_length (Option.some.inj hlength).symm).symm

end Holds

end Filling

theorem countTargets_turned (hpack : Packable rows targetCount)
    (hcount : targetCount ≤ UInt32.size) :
    ∃ counts, countTargets rows.flatten (Array.replicate targetCount 0) = some counts ∧
      counts.toList = (turned rows targetCount).map fun row => row.length.toUInt32 := by
  obtain ⟨counts, hcounts, hsize, hlookup⟩ := countTargets_eq rows.flatten (fun _ => 0)
    (Array.replicate targetCount 0)
    (fun target htarget => by
      rw [Array.getElem?_replicate, if_pos (by simpa using htarget)]
      rfl)
    (fun _ => by rw [Nat.zero_add]; exact hpack.entries_lt)
    (by simpa only [Array.size_replicate] using hpack.flatten_lt)
  rw [Array.size_replicate] at hsize hlookup
  refine ⟨counts, hcounts, List.ext_getElem? fun i => ?_⟩
  rw [Array.getElem?_toList, turned, List.map_map, List.getElem?_map]
  by_cases hi : i < targetCount
  · have hword := toNat_toUInt32 (Nat.lt_of_lt_of_le hi hcount)
    have hcounted := hlookup i.toUInt32 (by rwa [hword])
    rw [hword, Nat.zero_add] at hcounted
    rw [hcounted, List.getElem?_range hi, Option.map_some, Function.comp_apply, turnedRow_length]
  · rw [Array.getElem?_eq_none (by omega), List.getElem?_eq_none (by simpa using hi)]
    rfl

theorem Filling.Holds.start (rows : List (List UInt32)) :
    Filling.Holds ⟨packedOffsets rows, Array.replicate rows.flatten.length 0⟩
      (rows.map List.length) fun _ => [] where
  blocks := by
    refine ⟨rows.map fun row => List.replicate row.length 0, ?_, ?_, fun _ _ _ => List.nil_prefix⟩
    · rw [Array.toList_replicate]
      symm
      rw [List.eq_replicate_iff]
      constructor
      · simp [List.length_flatten, Function.comp_def]
      · intro entry hentry
        obtain ⟨block, hblock, hmem⟩ := List.mem_flatten.mp hentry
        obtain ⟨row, -, rfl⟩ := List.mem_map.mp hblock
        exact List.eq_of_mem_replicate hmem
    · simp [Function.comp_def]
  cursor := by
    intro target htarget
    rw [List.length_map] at htarget
    rw [packedOffsets_getElem? rows _ (Nat.le_of_lt htarget), List.length_flatten, List.map_take,
      List.length_nil, Nat.add_zero]

theorem enterRows_turned (hpack : Packable rows targetCount) (hcount : targetCount ≤ UInt32.size) :
    ∃ filled, Filling.enterRows rows 0 ⟨packedOffsets (turned rows targetCount),
        Array.replicate rows.flatten.length 0⟩ = some filled ∧
      filled.entries = (turned rows targetCount).flatten.toArray := by
  have hentries := turned_entries hpack hcount
  have hsum : ((turned rows targetCount).map List.length).sum < UInt32.size := by
    rw [← List.length_flatten, hentries]
    exact hpack.entries_lt
  have hlength : ((turned rows targetCount).map List.length).length = targetCount := by
    rw [List.length_map, turned_length]
  have hrow : ∀ target : UInt32,
      target.toNat < ((turned rows targetCount).map List.length).length →
        ((turned rows targetCount).map List.length)[target.toNat]? =
          some (turnedRow target rows 0).length := by
    intro target htarget
    rw [hlength] at htarget
    rw [turned, List.map_map, List.getElem?_map, List.getElem?_range htarget, Option.map_some,
      Function.comp_apply, toUInt32_toNat]
  have hstart := Filling.Holds.start (turned rows targetCount)
  rw [hentries] at hstart
  obtain ⟨filled, hfilled, hholds⟩ := hstart.enterRows hsum rows 0
    (by simpa only [hlength] using hpack.range) fun target length hlookup => by
      rw [hrow target (List.getElem?_eq_some_iff.mp hlookup).1] at hlookup
      rw [← Option.some.inj hlookup, List.length_nil, Nat.zero_add]
  have hall := hholds.entries_eq (hlength.symm ▸ hcount) fun target htarget => by
    rw [hrow target htarget, List.nil_append]
  simp only [hlength, List.nil_append] at hall
  exact ⟨filled, hfilled, Array.toList_inj.mp hall⟩

/-- Turning the arrows of laid out rows round lays the turned rows out: no count, offset or cursor
outgrows a word, and every entry has its place. -/
theorem transpose?_pack (hpack : Packable rows targetCount) (hcount : targetCount ≤ UInt32.size) :
    (pack rows targetCount).transpose? = some (pack (turned rows targetCount) rows.length) := by
  obtain ⟨counts, hcounts, hcounted⟩ := countTargets_turned hpack hcount
  obtain ⟨filled, hfilled, hentries⟩ := enterRows_turned hpack hcount
  have hroom : guard ((targetCount + 1) * 4 < memoryLimit) = some () := by
    have hwords : (UInt32.size + 1) * 4 < memoryLimit := by decide
    exact if_pos (by omega)
  have hoffsets : countedOffsets 0 counts.toList =
      some (0 :: rowEnds 0 (turned rows targetCount)) := by
    rw [hcounted]
    apply countedOffsets_eq
    rw [Nat.zero_add, turned_entries hpack hcount]
    exact hpack.entries_lt
  have htargets : (pack rows targetCount).targets.toList = rows.flatten := rfl
  have hcount' : (pack rows targetCount).targetCount = targetCount := rfl
  have hpacked : (0 :: rowEnds 0 (turned rows targetCount)).toArray =
      packedOffsets (turned rows targetCount) := rfl
  simp only [transpose?, hcount', hroom, htargets, hcounts, hoffsets, hpacked,
    pack_rows? rows _ hpack.entries_lt, pack_entryCount, pack_rowCount, hfilled, hentries,
    Option.bind_eq_bind, Option.bind_some, Option.pure_def]
  rfl

theorem turned_packable (hpack : Packable rows targetCount) (hcount : targetCount ≤ UInt32.size)
    (hrows : rows.length ≤ UInt32.size) : Packable (turned rows targetCount) rows.length where
  entries_lt := by rw [turned_entries hpack hcount]; exact hpack.entries_lt
  rows_lt := by
    rw [turned_length]
    exact Nat.lt_of_le_of_lt (Nat.add_le_add_right hcount 1) (by decide)
  range := by
    intro row hrow source hsource
    obtain ⟨target, -, rfl⟩ := List.mem_map.mp hrow
    have := turnedRow_bounds _ rows 0 (by omega) source hsource
    omega

end Adjacency

end MeshLayout
