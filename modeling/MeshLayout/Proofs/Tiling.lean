import MeshLayout.Proofs.Mesh

/-!
# Ranges of patches tile the slots

In a mesh that is stored patch by patch, the ranges of a kind stand side by side when they are
taken by ascending patch. The scan never opens an empty range and gives no patch two, so a patch
has its one range exactly if an element belongs to it, and in that range are its elements and no
others.
-/

set_option autoImplicit false

namespace MeshLayout

namespace PatchRange

/-- Ranges side by side from `start` to `stop`, none of them empty. -/
def Tiles : List PatchRange → Nat → Nat → Prop
  | [], start, stop => start = stop
  | range :: rest, start, stop =>
    range.start = start ∧ range.start < range.stop ∧ Tiles rest range.stop stop

theorem tiles_of_slots {ranges : List PatchRange}
    (hfilled : ∀ range ∈ ranges, range.start < range.stop) {start size : Nat}
    (hslots : ranges.flatMap slots = List.range' start size) :
    Tiles ranges start (start + size) := by
  induction ranges generalizing start size with
  | nil =>
    rw [List.flatMap_nil, eq_comm, List.range'_eq_nil_iff] at hslots
    exact hslots ▸ (Nat.add_zero start).symm
  | cons range rest ih =>
    have hhere := hfilled range List.mem_cons_self
    have hsize : range.size = range.stop - range.start := rfl
    have hfew : range.size ≠ 0 := by omega
    have hnumbers : range.slots.length = range.size := List.length_range'
    have hlength := congrArg List.length hslots
    rw [List.flatMap_cons, List.length_append, hnumbers, List.length_range'] at hlength
    -- The numbers of the first range are the first numbers.
    have hsplit : List.range' start size =
        List.range' start range.size ++ List.range' (start + range.size) (size - range.size) := by
      rw [List.range'_append_1, Nat.add_sub_cancel' (by omega)]
    rw [List.flatMap_cons, hsplit] at hslots
    obtain ⟨hfirst, hrest⟩ := List.append_inj hslots (by rw [hnumbers, List.length_range'])
    have hstart : range.start = start := by
      have hhead := congrArg List.head? hfirst
      rw [slots, List.head?_range', List.head?_range', if_neg hfew, if_neg hfew] at hhead
      exact Option.some.inj hhead
    have htiles := ih (fun other hother => hfilled other (List.mem_cons_of_mem range hother)) hrest
    refine ⟨hstart, hhere, ?_⟩
    rwa [show start + range.size = range.stop by omega,
      show range.stop + (size - range.size) = start + size by omega] at htiles

theorem slots_eq {range : PatchRange} (hfilled : range.start < range.stop) :
    range.slots = List.range' range.start (range.size - 1) ++ [range.stop - 1] := by
  have hsize : range.size = range.size - 1 + 1 := by
    rw [size]
    omega
  have hlast : range.start + (range.size - 1) = range.stop - 1 := by
    rw [size]
    omega
  rw [slots, hsize, List.range'_1_concat, Nat.add_sub_cancel, hlast]

theorem Tiles.start_le {ranges : List PatchRange} {start stop : Nat} (h : Tiles ranges start stop) :
    ∀ range ∈ ranges, start ≤ range.start ∧ range.start < range.stop := by
  induction ranges generalizing start with
  | nil => exact List.forall_mem_nil _
  | cons first rest ih =>
    obtain ⟨rfl, hfilled, hrest⟩ := h
    refine List.forall_mem_cons.mpr ⟨⟨Nat.le_refl _, hfilled⟩, fun range hrange => ?_⟩
    obtain ⟨hstart, hstop⟩ := ih hrest range hrange
    exact ⟨Nat.le_trans hfilled.le hstart, hstop⟩

theorem Tiles.stop_eq {ranges : List PatchRange} {start stop : Nat} (h : Tiles ranges start stop)
    {range other : PatchRange} (hrange : range ∈ ranges) (hother : other ∈ ranges) {slot : Nat}
    (hslot : slot ∈ range.slots) (hstop : other.stop = slot + 1) : slot + 1 = range.stop := by
  obtain ⟨hle, hlt⟩ := mem_slots.mp hslot
  induction ranges generalizing start with
  | nil => cases hrange
  | cons first rest ih =>
    obtain ⟨-, -, hrest⟩ := h
    have hlater := hrest.start_le
    rcases List.mem_cons.mp hrange with rfl | hin
    · rcases List.mem_cons.mp hother with rfl | hafter
      · exact hstop.symm
      · have hbeyond := hlater other hafter
        omega
    · rcases List.mem_cons.mp hother with rfl | hafter
      · have hbeyond := hlater range hin
        omega
      · exact ih hrest hin hafter

end PatchRange

namespace Partition

open PatchRange

variable {kind : Kind} {patches : Array Patch} {ranges next : List PatchRange}

def Opened (ranges : List PatchRange) (slot : Nat) : Prop :=
  ∀ range ∈ ranges, range.start < range.stop ∧ range.start ≤ slot

theorem Opened.extend {patch : Patch} {slot : Nat} (h : Opened ranges slot)
    (hextend : extend kind patch slot ranges = .ok next) : Opened next (slot + 1) := by
  have hnew : slot < slot + 1 := Nat.lt_succ_self slot
  cases ranges with
  | nil =>
    cases hextend
    exact List.forall_mem_singleton.mpr ⟨hnew, hnew.le⟩
  | cons last earlier =>
    obtain ⟨hlast, hearlier⟩ := List.forall_mem_cons.mp h
    have hkept : Opened earlier (slot + 1) := fun range hrange =>
      ⟨(hearlier range hrange).1, Nat.le_succ_of_le (hearlier range hrange).2⟩
    rw [Partition.extend] at hextend
    split at hextend
    · cases hextend
      have hgrown := Nat.lt_succ_of_le hlast.2
      exact List.forall_mem_cons.mpr ⟨⟨hgrown, hgrown.le⟩, hkept⟩
    · split at hextend
      · cases hextend
      · cases hextend
        have hold : Opened (last :: earlier) (slot + 1) :=
          List.forall_mem_cons.mpr ⟨⟨hlast.1, Nat.le_succ_of_le hlast.2⟩, hkept⟩
        exact List.forall_mem_cons.mpr ⟨⟨hnew, hnew.le⟩, hold⟩

theorem Opened.scan {order : List Identity} {slot : Nat} (h : Opened ranges slot)
    (hscan : scan kind patches order slot ranges = .ok next) :
    ∀ range ∈ next, range.start < range.stop := by
  induction order generalizing ranges slot with
  | nil =>
    cases hscan
    exact fun range hrange => (h range hrange).1
  | cons identity rest ih =>
    rw [Partition.scan, Outcome.ofLookup_bind_eq_ok] at hscan
    obtain ⟨patch, -, hscan⟩ := hscan
    obtain ⟨between, hextend, hscan⟩ := bind_eq_ok.mp hscan
    rw [Outcome.liftM_eq, Outcome.ofChecked_eq_ok] at hextend
    exact ih (h.extend hextend) hscan

theorem contiguous_ascending {permutation : Permutation} {partition : Partition}
    (h : contiguous kind patches permutation = .ok partition) : ∃ ranges,
      partition.ranges = some ranges ∧ (∀ range ∈ ranges, range.start < range.stop) ∧
        ranges.Pairwise fun a b => a.patch < b.patch := by
  have hranged := contiguous_ranged h
  obtain ⟨scanned, hscan, h⟩ := bind_eq_ok.mp h
  obtain ⟨-, -, h⟩ := bind_eq_ok.mp h
  cases h
  have hopened : Opened [] 0 := List.forall_mem_nil _
  refine ⟨_, rfl, fun range hrange => hopened.scan hscan range (List.mem_mergeSort.mp hrange), ?_⟩
  refine ((mergeSort_keys PatchRange.patch scanned).and (hranged _ rfl).2).imp ?_
  exact fun ⟨hle, hne⟩ => UInt32.lt_of_le_of_ne hle hne

end Partition

/-- The ranges, by ascending patch, tile the slots of a kind. A patch has a range if an element
belongs to it, and a slot is in that range if its element does. -/
structure Metadata.Tiled (metadata : Metadata) (kind : Kind) (permutation : Permutation)
    (ranges : List PatchRange) : Prop where
  tiles : ∃ count, metadata.count? kind = some count ∧ PatchRange.Tiles ranges 0 count
  ascending : ranges.Pairwise fun a b => a.patch < b.patch
  occurs : ∀ patch, (∃ range ∈ ranges, range.patch = patch) ↔
    ∃ identity, metadata.patchOf? kind identity = some patch
  holds : ∀ range ∈ ranges, ∀ slot : Slot, range.start ≤ slot.toNat ∧ slot.toNat < range.stop ↔
    (permutation.identityOf? slot).bind (metadata.patchOf? kind) = some range.patch

namespace Mesh

variable {mesh : Mesh} {kind : Kind} {permutation : Permutation} {partition : Partition}
  {ranges : List PatchRange}

theorem Laid.patchOf?_eq (h : mesh.Laid) (hkind : mesh.permutation kind = .ok permutation)
    (hpartition : mesh.patchIndex.partition kind = .ok partition) :
    mesh.metadata.patchOf? kind = partition.patchOf? := by
  funext identity
  rw [Metadata.patchOf?, (h.partitions hkind hpartition).1]
  rfl

theorem Laid.exists_slot (h : mesh.Laid) (hkind : mesh.permutation kind = .ok permutation)
    {identity : Identity} {patch : Patch}
    (hpatch : mesh.metadata.patchOf? kind identity = some patch) : ∃ slot : Slot,
      slot.toNat < permutation.size ∧ permutation.identityOf? slot = some identity := by
  obtain ⟨patches, hpatches, hthere⟩ := Option.bind_eq_some_iff.mp hpatch
  obtain ⟨hlawful, hcount⟩ := h.permutations hkind
  obtain ⟨others, hothers, hsize⟩ := h.valid.patches hcount
  obtain rfl := Option.some.inj (hpatches.symm.trans hothers)
  have hidentity : identity.toNat < permutation.size :=
    hsize ▸ (Array.getElem?_eq_some_iff.mp hthere).1
  exact ⟨_, hlawful.slotOf_lt hidentity,
    hlawful.identityOf_slotOf (Permutation.slotOf?_eq hidentity)⟩

theorem Laid.tiled (h : mesh.Laid) (hranged : mesh.Ranged)
    (hkind : mesh.permutation kind = .ok permutation)
    (hpartition : mesh.patchIndex.partition kind = .ok partition)
    (hranges : partition.ranges = some ranges)
    (hfilled : ∀ range ∈ ranges, range.start < range.stop)
    (hascending : ranges.Pairwise fun a b => a.patch < b.patch) :
    mesh.metadata.Tiled kind permutation ranges := by
  have hslots := (h.partitions hkind hpartition).2 ranges hranges
  obtain ⟨hlawful, hcount⟩ := h.permutations hkind
  have hpatch : ∀ range ∈ ranges, ∀ slot : Slot, slot.toNat ∈ range.slots →
      (permutation.identityOf? slot).bind (mesh.metadata.patchOf? kind) = some range.patch := by
    intro range hrange slot hslot
    rw [h.patchOf?_eq hkind hpartition]
    exact (hranged hkind hpartition ranges hranges).1 range hrange slot.toNat hslot
  have hcovered : ∀ slot : Slot, slot.toNat < permutation.size →
      ∃ range ∈ ranges, slot.toNat ∈ range.slots := by
    intro slot hslot
    rw [← List.mem_range, ← hslots] at hslot
    exact List.mem_flatMap.mp hslot
  constructor
  · rw [List.range_eq_range'] at hslots
    have htiles := PatchRange.tiles_of_slots hfilled hslots
    exact ⟨_, hcount, by rwa [Nat.zero_add] at htiles⟩
  · exact hascending
  · intro patch
    constructor
    · rintro ⟨range, hrange, rfl⟩
      have hstart : range.start ∈ range.slots :=
        PatchRange.mem_slots.mpr ⟨Nat.le_refl _, hfilled range hrange⟩
      have hlt : range.start < permutation.size := by
        rw [← List.mem_range, ← hslots]
        exact List.mem_flatMap.mpr ⟨range, hrange, hstart⟩
      have hword := toNat_toUInt32 (Nat.lt_of_lt_of_le hlt hlawful.size_le)
      obtain ⟨identity, -, hthere⟩ := Option.bind_eq_some_iff.mp
        (hpatch range hrange range.start.toUInt32 (hword.symm ▸ hstart))
      exact ⟨identity, hthere⟩
    · rintro ⟨identity, hthere⟩
      obtain ⟨slot, hslot, hidentity⟩ := h.exists_slot hkind hthere
      obtain ⟨range, hrange, hmem⟩ := hcovered slot hslot
      have hsame := hpatch range hrange slot hmem
      rw [hidentity, Option.bind_some, hthere] at hsame
      exact ⟨range, hrange, (Option.some.inj hsame).symm⟩
  · intro range hrange slot
    rw [← PatchRange.mem_slots]
    constructor
    · exact hpatch range hrange slot
    · intro hsame
      obtain ⟨identity, hidentity, -⟩ := Option.bind_eq_some_iff.mp hsame
      have hslot : slot.toNat < permutation.size :=
        hlawful.sizes ▸ (Array.getElem?_eq_some_iff.mp hidentity).1
      obtain ⟨other, hother, hmem⟩ := hcovered slot hslot
      -- No two ranges are of one patch, so the range with the slot is the given one.
      have hpatches : other.patch = range.patch :=
        Option.some.inj ((hpatch other hother slot hmem).symm.trans hsame)
      obtain rfl := PatchRange.eq_of_ascending hascending hother hrange hpatches
      exact hmem

end Mesh

namespace Blueprint

variable {blueprint : Blueprint} {metadata : Metadata}

theorem arrange_contiguous (hforce : blueprint.config.patchContiguous = true) {kind : Kind}
    {permutation : Permutation} {partition : Partition}
    (h : blueprint.arrange metadata kind = .ok (some (permutation, partition))) :
    ∃ patches, Partition.contiguous kind patches permutation = .ok partition := by
  unfold arrange at h
  split at h
  · next count patches _ _ _ =>
    obtain ⟨assigned, -, h⟩ := bind_eq_ok.mp h
    dsimp only at h
    rw [if_pos hforce] at h
    obtain ⟨contiguous, hcontiguous, h⟩ := bind_eq_ok.mp h
    cases h
    exact ⟨patches, hcontiguous⟩
  · cases h

theorem build_tiled (hvalid : metadata.Valid) (hcount : metadata.Countable)
    (hforce : blueprint.config.patchContiguous = true) {mesh : Mesh}
    (hbuilt : (blueprint.build metadata).2 = .ok mesh) {kind : Kind} {permutation : Permutation}
    (hkind : mesh.permutation kind = .ok permutation) : ∃ partition ranges,
      mesh.patchIndex.partition kind = .ok partition ∧ partition.ranges = some ranges ∧
        mesh.metadata.Tiled kind permutation ranges := by
  have hassembled := hbuilt
  rw [build_eq] at hassembled
  obtain ⟨partition, hpartition, harranged⟩ := assemble_arrange hassembled hkind
  obtain ⟨patches, hcontiguous⟩ := arrange_contiguous hforce harranged
  obtain ⟨ranges, hranges, hfilled, hascending⟩ := Partition.contiguous_ascending hcontiguous
  exact ⟨partition, ranges, hpartition, hranges, (build_laid hvalid hcount hbuilt).tiled
    (build_ranged hbuilt) hkind hpartition hranges hfilled hascending⟩

end Blueprint

end MeshLayout
