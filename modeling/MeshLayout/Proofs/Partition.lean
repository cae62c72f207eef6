import MeshLayout.Partition
import MeshLayout.Proofs.Permutation

/-!
# The ranges of patches

Elements that are grouped by patch meet the patches in ascending order. One pass over them then
stacks ranges without gaps, and the ranges by ascending patch give every slot once, in order.
-/

set_option autoImplicit false

namespace MeshLayout

theorem keys_trans {α : Type} (key : α → UInt32) (a b c : α) :
    decide (key a ≤ key b) → decide (key b ≤ key c) → decide (key a ≤ key c) := by
  simp only [decide_eq_true_eq]
  exact UInt32.le_trans

theorem keys_total {α : Type} (key : α → UInt32) (a b : α) :
    decide (key a ≤ key b) || decide (key b ≤ key a) := by
  simpa using UInt32.le_total (key a) (key b)

theorem mergeSort_keys {α : Type} (key : α → UInt32) (l : List α) :
    (l.mergeSort fun a b => key a ≤ key b).Pairwise fun a b => key a ≤ key b :=
  (List.pairwise_mergeSort (keys_trans key) (keys_total key) l).imp fun h => of_decide_eq_true h

theorem zipIdxLE_keys {α : Type} {key : α → UInt32} {a b : α × Nat}
    (h : List.zipIdxLE (fun a b => decide (key a ≤ key b)) a b = true) :
    key a.1 < key b.1 ∨ key a.1 = key b.1 ∧ a.2 ≤ b.2 := by
  unfold List.zipIdxLE at h
  split at h
  · next hle =>
    by_cases hsame : key a.1 = key b.1
    · rw [if_pos (decide_eq_true (UInt32.le_of_eq hsame.symm))] at h
      exact .inr ⟨hsame, of_decide_eq_true h⟩
    · exact .inl (UInt32.lt_of_le_of_ne (of_decide_eq_true hle) hsame)
  · cases h

theorem mergeSort_stable {α : Type} (key : α → UInt32) {R : α → α → Prop} {l : List α}
    (h : l.Pairwise R) : (l.mergeSort fun a b => key a ≤ key b).Pairwise
      fun a b => key a < key b ∨ key a = key b ∧ R a b := by
  let le (a b : α) : Bool := key a ≤ key b
  have hsorted : (l.zipIdx.mergeSort (List.zipIdxLE le)).Pairwise
      fun a b => List.zipIdxLE le a b = true :=
    List.pairwise_mergeSort (List.zipIdxLE_trans (keys_trans key))
      (List.zipIdxLE_total (keys_total key)) _
  have hplaces : (l.zipIdx.map Prod.snd).Nodup := by
    rw [List.zipIdx_map_snd]
    exact List.nodup_range'
  have hdistinct : (l.zipIdx.mergeSort (List.zipIdxLE le)).Pairwise (· ≠ ·) :=
    (List.mergeSort_perm _ _).nodup_iff.mpr hplaces.of_map
  rw [← List.mergeSort_zipIdx]
  refine List.pairwise_map.mpr ((hsorted.and hdistinct).imp_of_mem fun {a b} ha hb hboth => ?_)
  refine (zipIdxLE_keys hboth.1).imp_right fun ⟨hsame, hle⟩ => ⟨hsame, ?_⟩
  obtain ⟨hfirst, hbefore⟩ := List.getElem?_eq_some_iff.mp
    (List.mem_zipIdx_iff_getElem?.mp (List.mem_mergeSort.mp ha))
  obtain ⟨hlast, hafter⟩ := List.getElem?_eq_some_iff.mp
    (List.mem_zipIdx_iff_getElem?.mp (List.mem_mergeSort.mp hb))
  have hne : a.2 ≠ b.2 := by
    intro heq
    simp only [heq] at hbefore
    exact hboth.2 (Prod.ext (hbefore.symm.trans hafter) heq)
  rw [← hbefore, ← hafter]
  exact List.pairwise_iff_getElem.mp h _ _ hfirst hlast (Nat.lt_of_le_of_ne hle hne)

theorem find?_of_nodup {α β : Type} [BEq β] [LawfulBEq β] {key : α → β} {l : List α}
    (h : (l.map key).Nodup) {a : α} (ha : a ∈ l) :
    l.find? (fun other => key other == key a) = some a := by
  cases hfind : l.find? (fun other => key other == key a) with
  | none => exact absurd (beq_self_eq_true (key a)) (List.find?_eq_none.mp hfind a ha)
  | some other =>
    have hkey : key other = key a := by simpa using List.find?_some hfind
    rw [List.inj_on_of_nodup_map h (List.mem_of_find?_eq_some hfind) ha hkey]

namespace PatchRange

def slots (range : PatchRange) : List Nat := List.range' range.start range.size

theorem mem_slots {range : PatchRange} {slot : Nat} :
    slot ∈ range.slots ↔ range.start ≤ slot ∧ slot < range.stop := by
  rw [slots, size, List.mem_range'_1]
  omega

theorem eq_of_ascending {ranges : List PatchRange}
    (h : ranges.Pairwise fun a b => a.patch < b.patch) {a b : PatchRange} (ha : a ∈ ranges)
    (hb : b ∈ ranges) (hsame : a.patch = b.patch) : a = b := by
  have hnodup : (ranges.map patch).Nodup := List.pairwise_map.mpr (h.imp UInt32.ne_of_lt)
  exact List.inj_on_of_nodup_map hnodup ha hb hsame

/-- Ranges of ascending patches, the latest first, that reach from the first slot to `stop`. -/
inductive Stacked : List PatchRange → Nat → Prop
  | nil : Stacked [] 0
  | cons {last : PatchRange} {earlier : List PatchRange} (below : Stacked earlier last.start)
      (start_le : last.start ≤ last.stop) (ascending : ∀ range ∈ earlier, range.patch < last.patch) :
      Stacked (last :: earlier) last.stop

namespace Stacked

variable {ranges : List PatchRange} {stop : Nat}

theorem slots_eq (h : Stacked ranges stop) : ranges.reverse.flatMap slots = List.range stop := by
  induction h with
  | nil => rfl
  | @cons last earlier below start_le ascending ih =>
    rw [List.reverse_cons, List.flatMap_append, ih, List.range_eq_range', List.range_eq_range']
    simp only [List.flatMap_cons, List.flatMap_nil, List.append_nil, slots, size]
    have hjoin := List.range'_append_1 (s := 0) (m := last.start) (n := last.stop - last.start)
    rw [Nat.zero_add, Nat.add_sub_cancel' start_le] at hjoin
    exact hjoin

theorem ascending (h : Stacked ranges stop) :
    ranges.reverse.Pairwise fun a b => a.patch < b.patch := by
  induction h with
  | nil => exact List.Pairwise.nil
  | cons below start_le ascending ih =>
    rw [List.reverse_cons, List.pairwise_append]
    exact ⟨ih, List.pairwise_singleton _ _, fun a ha b hb => by
      rw [List.mem_singleton.mp hb]
      exact ascending a (List.mem_reverse.mp ha)⟩

theorem sorted (h : Stacked ranges stop) :
    ranges.mergeSort (fun a b => a.patch ≤ b.patch) = ranges.reverse := by
  have hperm : (ranges.mergeSort fun a b => a.patch ≤ b.patch).Perm ranges.reverse :=
    (List.mergeSort_perm ranges _).trans ranges.reverse_perm.symm
  have hreverse : ranges.reverse.Pairwise fun a b => a.patch ≤ b.patch :=
    h.ascending.imp UInt32.le_of_lt
  refine hperm.eq_of_pairwise (fun a b ha hb hab hba => ?_) (mergeSort_keys patch ranges) hreverse
  exact eq_of_ascending h.ascending (hperm.mem_iff.mp ha) hb (UInt32.le_antisymm hab hba)

end Stacked

end PatchRange

namespace Partition

open PatchRange

theorem extend_stacked (kind : Kind) {patch : Patch} {slot : Nat} {ranges : List PatchRange}
    (h : Stacked ranges slot) (hpatch : ∀ range ∈ ranges, range.patch ≤ patch) :
    ∃ next, extend kind patch slot ranges = .ok next ∧ Stacked next (slot + 1) ∧
      ∀ range ∈ next, range.patch ≤ patch := by
  cases h with
  | nil => exact ⟨_, rfl, .cons .nil (Nat.zero_le _) (by simp), by simp⟩
  | @cons last earlier below start_le ascending =>
    rw [extend]
    by_cases hsame : last.patch = patch
    · rw [if_pos hsame]
      have hle : last.start ≤ last.stop + 1 := by omega
      have hgrown : Stacked ({ last with stop := last.stop + 1 } :: earlier) (last.stop + 1) :=
        .cons below hle ascending
      exact ⟨_, rfl, hgrown, by simpa using hpatch⟩
    · have hlast : last.patch < patch := by
        have hle := hpatch last (by simp)
        have hne : last.patch.toNat ≠ patch.toNat := fun h => hsame (UInt32.toNat_inj.mp h)
        rw [UInt32.le_iff_toNat_le] at hle
        rw [UInt32.lt_iff_toNat_lt]
        omega
      have hbelow : ∀ range ∈ last :: earlier, range.patch < patch := by
        intro range hrange
        rcases List.mem_cons.mp hrange with rfl | hearlier
        · exact hlast
        · exact UInt32.lt_trans (ascending range hearlier) hlast
      -- No earlier range is of this patch, so the patch is not split.
      have hnone : ¬earlier.any (·.patch == patch) = true := by
        simp only [List.any_eq_true, beq_iff_eq, not_exists, not_and]
        intro range hrange
        exact UInt32.ne_of_lt (hbelow range (List.mem_cons_of_mem _ hrange))
      have hgrown : Stacked (⟨patch, last.stop, last.stop + 1⟩ :: last :: earlier)
          (last.stop + 1) := .cons (.cons below start_le ascending) (Nat.le_succ _) hbelow
      rw [if_neg hsame, if_neg hnone]
      exact ⟨_, rfl, hgrown, by simpa using hpatch⟩

theorem scan_stacked (kind : Kind) {patches : Array Patch} (order : List Identity)
    (met : List Patch) (hmet : order.map (fun identity => patches[identity.toNat]?) = met.map some)
    (hsorted : met.Pairwise fun a b => a ≤ b) {slot : Nat} {ranges : List PatchRange}
    (h : Stacked ranges slot) (hpatch : ∀ range ∈ ranges, ∀ patch ∈ met, range.patch ≤ patch) :
    ∃ next, scan kind patches order slot ranges = .ok next ∧ Stacked next (slot + order.length) := by
  induction order generalizing met slot ranges with
  | nil => exact ⟨ranges, rfl, h⟩
  | cons identity rest ih =>
    cases met with
    | nil => simp at hmet
    | cons patch later =>
      rw [List.map_cons, List.map_cons, List.cons.injEq] at hmet
      rw [List.pairwise_cons] at hsorted
      obtain ⟨between, hextend, hbetween, hle⟩ := extend_stacked kind h fun range hrange =>
        hpatch range hrange patch (by simp)
      rw [scan, hmet.1, Outcome.ofLookup_some, ok_bind, hextend, List.length_cons,
        Nat.add_comm rest.length, ← Nat.add_assoc]
      apply ih later hmet.2 hsorted.2 hbetween
      intro range hrange other hother
      exact UInt32.le_trans (hle range hrange) (hsorted.1 other hother)

theorem coverage_eq (ranges : List PatchRange) :
    coverage ranges = (ranges.flatMap slots).length := by
  induction ranges with
  | nil => rfl
  | cons range rest ih => simp [coverage, slots, ih]

theorem patch_of_numbered {patches : Array Patch} {pair : Patch × Identity}
    (h : pair ∈ patches.toList.zip (Permutation.numbers patches.size)) :
    patches[pair.2.toNat]? = some pair.1 := by
  obtain ⟨i, hi⟩ := List.mem_iff_getElem?.mp h
  obtain ⟨hfirst, hsecond⟩ := List.getElem?_zip_eq_some.mp hi
  have hlt : i < patches.size % UInt32.size := by
    simpa [Permutation.numbers_length] using (List.getElem?_eq_some_iff.mp hsecond).1
  rw [Permutation.numbers_getElem? hlt] at hsecond
  have hword := Nat.lt_trans hlt (Nat.mod_lt patches.size (by decide))
  rw [← Option.some.inj hsecond, toNat_toUInt32 hword, ← Array.getElem?_toList]
  exact hfirst

theorem groupedOrder_patches (patches : Array Patch) : ∃ met : List Patch,
    (Permutation.groupedOrder patches).map (fun identity => patches[identity.toNat]?) =
      met.map some ∧ met.Pairwise fun a b => a ≤ b := by
  let numbered := patches.toList.zip (Permutation.numbers patches.size)
  let le (a b : Patch × Identity) : Bool := a.1 ≤ b.1
  refine ⟨(numbered.mergeSort le).map Prod.fst, ?_, ?_⟩
  · simp only [Permutation.groupedOrder, List.map_map]
    apply List.map_congr_left
    intro pair hpair
    exact patch_of_numbered (List.mem_mergeSort.mp hpair)
  · exact List.pairwise_map.mpr (mergeSort_keys Prod.fst numbered)

theorem contiguous_grouped (kind : Kind) {patches : Array Patch}
    (hsize : patches.size < UInt32.size) : ∃ ranges,
      contiguous kind patches (.grouped patches) = .ok ⟨kind, patches, some ranges⟩ ∧
        ranges.flatMap slots = List.range patches.size := by
  obtain ⟨met, hmet, hsorted⟩ := groupedOrder_patches patches
  obtain ⟨ranges, hscan, hstacked⟩ := scan_stacked kind _ met hmet hsorted .nil (by simp)
  have hlength : (Permutation.groupedOrder patches).length = patches.size := by
    rw [Permutation.groupedOrder_length, Nat.mod_eq_of_lt hsize]
  have hslots : (ranges.mergeSort fun a b => a.patch ≤ b.patch).flatMap slots =
      List.range patches.size := by
    rw [hstacked.sorted, hstacked.slots_eq, hlength, Nat.zero_add]
  have hcovered : coverage (ranges.mergeSort fun a b => a.patch ≤ b.patch) = patches.size := by
    rw [coverage_eq, hslots, List.length_range]
  have hvalid : validate ⟨kind, patches, some (ranges.mergeSort fun a b => a.patch ≤ b.patch)⟩ =
      .ok () := Checked.require_of _ hcovered
  have hidentities : (Permutation.grouped patches).identities.toList =
      Permutation.groupedOrder patches := rfl
  refine ⟨_, ?_, hslots⟩
  simp only [contiguous, hidentities, hscan, ok_bind, hvalid]
  rfl

/-- Ranges of the elements met so far, the latest first: each holds elements of its patch only,
and no patch has two. -/
structure Labels (patches : Array Patch) (met : List Identity) (ranges : List PatchRange) :
    Prop where
  patch : ∀ range ∈ ranges, ∀ slot ∈ range.slots,
    (met[slot]?).bind (fun identity => patches[identity.toNat]?) = some range.patch
  reaches : ∀ range ∈ ranges.head?, range.stop = met.length
  distinct : ranges.Pairwise fun a b => a.patch ≠ b.patch

namespace Labels

variable {patches : Array Patch} {met : List Identity} {ranges next : List PatchRange}

theorem kept (h : Labels patches met ranges) (identity : Identity) {range : PatchRange}
    (hrange : range ∈ ranges) {slot : Nat} (hslot : slot ∈ range.slots) :
    ((met ++ [identity])[slot]?).bind (fun identity => patches[identity.toNat]?) =
      some range.patch := by
  have hhere := h.patch range hrange slot hslot
  obtain ⟨there, hthere, -⟩ := Option.bind_eq_some_iff.mp hhere
  rw [List.getElem?_append_left (List.getElem?_eq_some_iff.mp hthere).1]
  exact hhere

theorem extend (h : Labels patches met ranges) {kind : Kind} {identity : Identity} {patch : Patch}
    (hpatch : patches[identity.toNat]? = some patch)
    (hextend : Partition.extend kind patch met.length ranges = .ok next) :
    Labels patches (met ++ [identity]) next := by
  have hnew : ((met ++ [identity])[met.length]?).bind (fun identity => patches[identity.toNat]?) =
      some patch := by
    rw [List.getElem?_concat_length, Option.bind_some, hpatch]
  have hopened : ∀ slot ∈ (PatchRange.mk patch met.length (met.length + 1)).slots,
      ((met ++ [identity])[slot]?).bind (fun identity => patches[identity.toNat]?) =
        some patch := by
    intro slot hslot
    obtain ⟨hle, hlt⟩ := mem_slots.mp hslot
    obtain rfl : slot = met.length := Nat.le_antisymm (Nat.le_of_lt_succ hlt) hle
    exact hnew
  cases ranges with
  | nil =>
    cases hextend
    constructor
    · simpa using hopened
    · simp
    · exact List.pairwise_singleton _ _
  | cons last earlier =>
    have hdistinct := List.pairwise_cons.mp h.distinct
    rw [Partition.extend] at hextend
    split at hextend
    · next hsame =>
      subst hsame
      cases hextend
      constructor
      · intro range hrange slot hslot
        rcases List.mem_cons.mp hrange with rfl | hearlier
        · obtain ⟨hle, hlt⟩ := mem_slots.mp hslot
          have hstop := h.reaches last rfl
          rcases Nat.lt_or_eq_of_le (Nat.le_of_lt_succ hlt) with hbefore | rfl
          · exact h.kept identity List.mem_cons_self (mem_slots.mpr ⟨hle, hstop ▸ hbefore⟩)
          · exact hnew
        · exact h.kept identity (List.mem_cons_of_mem _ hearlier) hslot
      · simp
      · exact List.pairwise_cons.mpr hdistinct
    · next hother =>
      split at hextend
      · cases hextend
      · next hnone =>
        cases hextend
        constructor
        · intro range hrange slot hslot
          rcases List.mem_cons.mp hrange with rfl | hold
          · exact hopened slot hslot
          · exact h.kept identity hold hslot
        · simp
        · refine List.pairwise_cons.mpr ⟨fun range hrange => ?_, h.distinct⟩
          rcases List.mem_cons.mp hrange with rfl | hearlier
          · exact fun heq => hother heq.symm
          · intro heq
            exact hnone (List.any_eq_true.mpr ⟨range, hearlier, beq_iff_eq.mpr heq.symm⟩)

theorem scan (h : Labels patches met ranges) {kind : Kind} {order : List Identity}
    (hscan : Partition.scan kind patches order met.length ranges = .ok next) :
    Labels patches (met ++ order) next := by
  induction order generalizing met ranges with
  | nil =>
    cases hscan
    rwa [List.append_nil]
  | cons identity rest ih =>
    rw [Partition.scan, Outcome.ofLookup_bind_eq_ok] at hscan
    obtain ⟨patch, hpatch, hscan⟩ := hscan
    obtain ⟨between, hextend, hscan⟩ := bind_eq_ok.mp hscan
    rw [Outcome.liftM_eq, Outcome.ofChecked_eq_ok] at hextend
    have hlater := ih (h.extend hpatch hextend) (by rwa [List.length_append])
    rwa [List.append_assoc] at hlater

end Labels

def Ranged (partition : Partition) (permutation : Permutation) : Prop :=
  ∀ ranges, partition.ranges = some ranges →
    (∀ range ∈ ranges, ∀ slot ∈ range.slots,
      (permutation.identities[slot]?).bind partition.patchOf? = some range.patch) ∧
    ranges.Pairwise fun a b => a.patch ≠ b.patch

theorem contiguous_ranged {kind : Kind} {patches : Array Patch} {permutation : Permutation}
    {partition : Partition} (h : contiguous kind patches permutation = .ok partition) :
    partition.Ranged permutation := by
  obtain ⟨scanned, hscan, h⟩ := bind_eq_ok.mp h
  obtain ⟨-, -, h⟩ := bind_eq_ok.mp h
  cases h
  have hlabels : Labels patches [] [] := ⟨by simp, by simp, List.Pairwise.nil⟩
  have hscanned := hlabels.scan hscan
  have hperm := List.mergeSort_perm scanned fun a b => a.patch ≤ b.patch
  intro ranges hranges
  cases hranges
  constructor
  · intro range hrange slot hslot
    rw [← Array.getElem?_toList]
    exact hscanned.patch range (hperm.mem_iff.mp hrange) slot hslot
  · exact (hperm.pairwise_iff fun hne => hne.symm).mpr hscanned.distinct

end Partition

end MeshLayout
