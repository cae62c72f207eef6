import MeshLayout.Proofs.Tiling

/-!
# Which orders keep patches together

The scan follows any order of the elements, grouped or not. While no patch comes back, the ranges
found so far tile the slots that were met, and the range of a patch holds its elements and no
others. The scan stops at the first slot where a patch comes back after another one, so it ends
exactly if the slots of every patch stand side by side.
-/

set_option autoImplicit false

namespace MeshLayout

theorem eraseReps_loop_ascending {last : UInt32} {rest seen : List UInt32}
    (hrest : (last :: rest).Pairwise (· ≤ ·)) (hseen : (last :: seen).Pairwise (· > ·)) :
    (List.eraseRepsBy.loop (· == ·) last rest seen).Nodup ∧
      ∀ word, word ∈ List.eraseRepsBy.loop (· == ·) last rest seen ↔
        word ∈ last :: seen ∨ word ∈ rest := by
  induction rest generalizing last seen with
  | nil =>
    rw [List.eraseRepsBy.loop]
    constructor
    · exact List.nodup_reverse.mpr (hseen.imp fun h => (UInt32.ne_of_lt h).symm)
    · simp [or_comm]
  | cons next rest ih =>
    obtain ⟨hlast, hlater⟩ := List.pairwise_cons.mp hrest
    rw [List.eraseRepsBy.loop]
    by_cases hsame : last = next
    · subst hsame
      rw [beq_self_eq_true]
      obtain ⟨hnodup, hmem⟩ := ih hlater hseen
      exact ⟨hnodup, fun word => by rw [hmem]; simp only [List.mem_cons]; tauto⟩
    · have hlt : last < next :=
        UInt32.lt_of_le_of_ne (hlast next List.mem_cons_self) hsame
      have hnext : (next :: last :: seen).Pairwise (· > ·) := by
        refine List.pairwise_cons.mpr ⟨fun word hword => ?_, hseen⟩
        rcases List.mem_cons.mp hword with rfl | hearlier
        · exact hlt
        · exact UInt32.lt_trans ((List.pairwise_cons.mp hseen).1 word hearlier) hlt
      rw [beq_eq_false_iff_ne.mpr hsame]
      obtain ⟨hnodup, hmem⟩ := ih hlater hnext
      exact ⟨hnodup, fun word => by rw [hmem]; simp only [List.mem_cons]; tauto⟩

theorem eraseReps_ascending {words : List UInt32} (h : words.Pairwise (· ≤ ·)) :
    words.eraseReps.Nodup ∧ ∀ word, word ∈ words.eraseReps ↔ word ∈ words := by
  cases words with
  | nil => exact ⟨List.nodup_nil, fun _ => Iff.rfl⟩
  | cons first rest =>
    obtain ⟨hnodup, hmem⟩ := eraseReps_loop_ascending h (List.pairwise_singleton _ _)
    exact ⟨hnodup, fun word => (hmem word).trans (by simp)⟩

namespace PatchRange

theorem tiles_concat {ranges : List PatchRange} {range : PatchRange} {start stop : Nat} :
    Tiles (ranges ++ [range]) start stop ↔
      Tiles ranges start range.start ∧ range.start < range.stop ∧ range.stop = stop := by
  induction ranges generalizing start with
  | nil => simp [Tiles, eq_comm]
  | cons first rest ih => simp [Tiles, ih, and_assoc]

namespace Tiles

variable {ranges : List PatchRange} {start stop : Nat}

theorem filled (h : Tiles ranges start stop) : ∀ range ∈ ranges, range.start < range.stop := by
  induction ranges generalizing start with
  | nil => exact List.forall_mem_nil _
  | cons range rest ih => exact List.forall_mem_cons.mpr ⟨h.2.1, ih h.2.2⟩

theorem covers (h : Tiles ranges start stop) {slot : Nat} (hstart : start ≤ slot)
    (hstop : slot < stop) : ∃ range ∈ ranges, slot ∈ range.slots := by
  induction ranges generalizing start with
  | nil => exact absurd (h ▸ hstart) (Nat.not_le.mpr hstop)
  | cons range rest ih =>
    by_cases hhere : slot < range.stop
    · exact ⟨range, List.mem_cons_self, mem_slots.mpr ⟨h.1 ▸ hstart, hhere⟩⟩
    · obtain ⟨later, hlater, hslot⟩ := ih h.2.2 (Nat.not_lt.mp hhere)
      exact ⟨later, List.mem_cons_of_mem _ hlater, hslot⟩

theorem coverage (h : Tiles ranges start stop) : start + Partition.coverage ranges = stop := by
  induction ranges generalizing start with
  | nil => exact h
  | cons range rest ih =>
    have hrest := ih h.2.2
    have hfirst := h.2.1
    have hstart := h.1
    simp only [Partition.coverage, size]
    omega

end Tiles

end PatchRange

namespace Partition

open PatchRange

def patchAt? (patches : Array Patch) (order : List Identity) (slot : Nat) : Option Patch :=
  (order[slot]?).bind fun identity => patches[identity.toNat]?

def Occupies (patches : Array Patch) (order : List Identity) (patch : Patch)
    (start stop : Nat) : Prop :=
  ∀ slot, patchAt? patches order slot = some patch ↔ start ≤ slot ∧ slot < stop

/-- No slot of another patch is between two slots of a patch. -/
def Together (patches : Array Patch) (order : List Identity) (patch : Patch) : Prop :=
  ∃ start stop, Occupies patches order patch start stop

/-- A patch comes back in a slot: it was met earlier, but not in the slot before. -/
structure Resumes (patches : Array Patch) (order : List Identity) (patch : Patch) (slot : Nat) :
    Prop where
  here : patchAt? patches order slot = some patch
  interrupted : patchAt? patches order (slot - 1) ≠ some patch
  earlier : ∃ before < slot, patchAt? patches order before = some patch

variable {kind : Kind} {patches : Array Patch} {met : List Identity} {patch : Patch}
  {ranges next : List PatchRange}

theorem patchAt?_append (order : List Identity) {slot : Nat} (h : slot < met.length) :
    patchAt? patches (met ++ order) slot = patchAt? patches met slot := by
  rw [patchAt?, List.getElem?_append_left h, patchAt?]

theorem patchAt?_last (identity : Identity) :
    patchAt? patches (met ++ [identity]) met.length = patches[identity.toNat]? := by
  rw [patchAt?, List.getElem?_concat_length, Option.bind_some]

theorem patchAt?_lt {slot : Nat} (h : patchAt? patches met slot = some patch) :
    slot < met.length := by
  obtain ⟨identity, hidentity, -⟩ := Option.bind_eq_some_iff.mp h
  exact (List.getElem?_eq_some_iff.mp hidentity).1

theorem Together.not_resumes (h : Together patches met patch) (slot : Nat) :
    ¬Resumes patches met patch slot := by
  obtain ⟨start, stop, hslots⟩ := h
  rintro ⟨hhere, hinterrupted, before, hbefore, hearlier⟩
  rw [hslots] at hhere hearlier
  rw [ne_eq, hslots] at hinterrupted
  omega

theorem resumes_append (order : List Identity) {slot : Nat} (hslot : slot < met.length) :
    Resumes patches (met ++ order) patch slot ↔ Resumes patches met patch slot := by
  have hkept : ∀ before ≤ slot,
      patchAt? patches (met ++ order) before = patchAt? patches met before :=
    fun before hbefore => patchAt?_append order (Nat.lt_of_le_of_lt hbefore hslot)
  constructor
  · rintro ⟨hhere, hinterrupted, before, hbefore, hearlier⟩
    rw [hkept slot (Nat.le_refl slot)] at hhere
    rw [hkept _ (Nat.sub_le slot 1)] at hinterrupted
    rw [hkept before hbefore.le] at hearlier
    exact ⟨hhere, hinterrupted, before, hbefore, hearlier⟩
  · rintro ⟨hhere, hinterrupted, before, hbefore, hearlier⟩
    rw [← hkept slot (Nat.le_refl slot)] at hhere
    rw [← hkept _ (Nat.sub_le slot 1)] at hinterrupted
    rw [← hkept before hbefore.le] at hearlier
    exact ⟨hhere, hinterrupted, before, hbefore, hearlier⟩

theorem extend_cases (kind : Kind) (patch : Patch) (slot : Nat) (ranges : List PatchRange) :
    (∃ next, extend kind patch slot ranges = .ok next) ∨
    extend kind patch slot ranges = .error (.patches (.split kind patch slot)) ∧
      ∃ last earlier, ranges = last :: earlier ∧ last.patch ≠ patch ∧
        ∃ range ∈ earlier, range.patch = patch := by
  cases ranges with
  | nil => exact .inl ⟨_, rfl⟩
  | cons last earlier =>
    rw [extend]
    by_cases hsame : last.patch = patch
    · exact .inl ⟨_, if_pos hsame⟩
    · rw [if_neg hsame]
      by_cases hmet : earlier.any (·.patch == patch) = true
      · obtain ⟨range, hrange, heq⟩ := List.any_eq_true.mp hmet
        exact .inr ⟨if_pos hmet, last, earlier, rfl, hsame, range, hrange, eq_of_beq heq⟩
      · exact .inl ⟨_, if_neg hmet⟩

theorem extend_tiles {slot : Nat} (h : Tiles ranges.reverse 0 slot)
    (hextend : extend kind patch slot ranges = .ok next) : Tiles next.reverse 0 (slot + 1) := by
  cases ranges with
  | nil =>
    cases hextend
    have hstart : 0 = slot := h
    exact ⟨hstart.symm, Nat.lt_succ_self slot, rfl⟩
  | cons last earlier =>
    have hbefore := h
    rw [List.reverse_cons, tiles_concat] at hbefore
    obtain ⟨hearlier, hfilled, hstop⟩ := hbefore
    rw [extend] at hextend
    split at hextend
    · cases hextend
      have hgrown : last.start < slot + 1 := by omega
      rw [List.reverse_cons, tiles_concat]
      exact ⟨hearlier, hgrown, rfl⟩
    · split at hextend
      · cases hextend
      · cases hextend
        rw [List.reverse_cons, tiles_concat]
        exact ⟨h, Nat.lt_succ_self slot, rfl⟩

/-- The ranges of the elements met so far, the latest first, are those of the patches and tile the
slots. -/
structure Runs (patches : Array Patch) (met : List Identity) (ranges : List PatchRange) : Prop
    extends Labels patches met ranges where
  tiles : Tiles ranges.reverse 0 met.length

namespace Runs

theorem start (patches : Array Patch) : Runs patches [] [] :=
  ⟨⟨List.forall_mem_nil _, by simp, List.Pairwise.nil⟩, rfl⟩

theorem exists_range (h : Runs patches met ranges) {slot : Nat}
    (hslot : patchAt? patches met slot = some patch) :
    ∃ range ∈ ranges, range.patch = patch ∧ slot ∈ range.slots := by
  obtain ⟨range, hrange, hmem⟩ := h.tiles.covers (Nat.zero_le _) (patchAt?_lt hslot)
  rw [List.mem_reverse] at hrange
  exact ⟨range, hrange, Option.some.inj ((h.patch range hrange slot hmem).symm.trans hslot), hmem⟩

theorem occupies (h : Runs patches met ranges) {range : PatchRange} (hrange : range ∈ ranges) :
    Occupies patches met range.patch range.start range.stop := by
  intro slot
  rw [← mem_slots]
  constructor
  · intro hslot
    obtain ⟨other, hother, hpatch, hmem⟩ := h.exists_range hslot
    have hnodup : (ranges.map PatchRange.patch).Nodup := List.pairwise_map.mpr h.distinct
    exact List.inj_on_of_nodup_map hnodup hother hrange hpatch ▸ hmem
  · exact h.patch range hrange slot

theorem occurs_iff (h : Runs patches met ranges) :
    (∃ range ∈ ranges, range.patch = patch) ↔ ∃ slot, patchAt? patches met slot = some patch := by
  constructor
  · rintro ⟨range, hrange, rfl⟩
    have hfilled := h.tiles.filled range (List.mem_reverse.mpr hrange)
    exact ⟨range.start, (h.occupies hrange range.start).mpr ⟨Nat.le_refl _, hfilled⟩⟩
  · rintro ⟨slot, hslot⟩
    obtain ⟨range, hrange, hpatch, -⟩ := h.exists_range hslot
    exact ⟨range, hrange, hpatch⟩

theorem together (h : Runs patches met ranges) (patch : Patch) : Together patches met patch := by
  by_cases hoccurs : ∃ range ∈ ranges, range.patch = patch
  · obtain ⟨range, hrange, rfl⟩ := hoccurs
    exact ⟨range.start, range.stop, h.occupies hrange⟩
  · rw [h.occurs_iff] at hoccurs
    refine ⟨0, 0, fun slot => ?_⟩
    simp only [not_exists.mp hoccurs slot, false_iff]
    omega

theorem extend (h : Runs patches met ranges) (kind : Kind) {identity : Identity}
    (hpatch : patches[identity.toNat]? = some patch) :
    (∃ next, Partition.extend kind patch met.length ranges = .ok next ∧
      Runs patches (met ++ [identity]) next) ∨
    Partition.extend kind patch met.length ranges =
        .error (.patches (.split kind patch met.length)) ∧
      Resumes patches (met ++ [identity]) patch met.length := by
  rcases extend_cases kind patch met.length ranges with
    ⟨next, hnext⟩ | ⟨hrefused, last, earlier, rfl, hother, range, hrange, rfl⟩
  · refine .inl ⟨next, hnext, h.toLabels.extend hpatch hnext, ?_⟩
    rw [List.length_append]
    exact extend_tiles h.tiles hnext
  · -- The slot before is the last one of the latest range, which is of another patch.
    obtain ⟨slot, hslot⟩ := h.occurs_iff.mp ⟨range, List.mem_cons_of_mem _ hrange, rfl⟩
    have hlt := patchAt?_lt hslot
    have hfilled := h.tiles.filled last (List.mem_reverse.mpr List.mem_cons_self)
    have hstop : last.stop = met.length := h.reaches last rfl
    have hbefore : patchAt? patches met (met.length - 1) = some last.patch :=
      (h.occupies List.mem_cons_self _).mpr (by omega)
    refine .inr ⟨hrefused, (patchAt?_last identity).trans hpatch, ?_, slot, hlt, ?_⟩
    · rw [patchAt?_append _ (by omega), hbefore]
      exact fun heq => hother (Option.some.inj heq)
    · rw [patchAt?_append _ hlt, hslot]

theorem scan (h : Runs patches met ranges) (kind : Kind) {order : List Identity}
    (hlisted : ∀ identity ∈ order, identity.toNat < patches.size) :
    (∃ next, Partition.scan kind patches order met.length ranges = .ok next ∧
      Runs patches (met ++ order) next) ∨
    ∃ patch slot, Partition.scan kind patches order met.length ranges =
        .error (.refused (.patches (.split kind patch slot))) ∧
      Resumes patches (met ++ order) patch slot ∧
      ∀ before < slot, ∀ other, ¬Resumes patches (met ++ order) other before := by
  induction order generalizing met ranges with
  | nil => exact .inl ⟨ranges, rfl, by rwa [List.append_nil]⟩
  | cons identity rest ih =>
    obtain ⟨hfirst, hrest⟩ := List.forall_mem_cons.mp hlisted
    obtain ⟨patch, hpatch⟩ : ∃ patch, patches[identity.toNat]? = some patch :=
      ⟨_, Array.getElem?_eq_getElem hfirst⟩
    have hsplit : met ++ identity :: rest = (met ++ [identity]) ++ rest := by simp
    rw [Partition.scan, hpatch, Outcome.ofLookup_some, ok_bind, Outcome.liftM_eq, hsplit]
    rcases h.extend kind hpatch with ⟨next, hnext, hruns⟩ | ⟨hrefused, hresumes⟩
    · rw [hnext, Outcome.ofChecked_ok, ok_bind]
      have hlater := ih hruns hrest
      rwa [List.length_append] at hlater
    · have hhere : met.length < (met ++ [identity]).length := by simp
      refine .inr ⟨patch, met.length, ?_, (resumes_append rest hhere).mpr hresumes, ?_⟩
      · rw [hrefused]
        rfl
      · intro before hbefore other hother
        rw [resumes_append rest (hbefore.trans hhere), resumes_append [identity] hbefore] at hother
        exact (h.together other).not_resumes before hother

end Runs

/-- The ranges of a partition divide the slots: each is the slots of its patch, a patch without
elements has none, and counting the ranges counts the patches. -/
structure Divides (partition : Partition) (order : List Identity) : Prop where
  valid : partition.validate = .ok ()
  occupied : ∀ patch ∈ partition.patches, ∃ start stop,
    partition.range patch = .ok ⟨patch, start, stop⟩ ∧ start < stop ∧
      Occupies partition.patches order patch start stop
  absent : ∀ patch, patch ∉ partition.patches →
    partition.range patch = .error (.patches (.absent partition.kind patch))
  apart : ∀ one other range there, partition.range one = .ok range →
    partition.range other = .ok there → one ≠ other → range.slots.Disjoint there.slots
  covered : ∀ slot < order.length, ∃ patch range, partition.range patch = .ok range ∧
    slot ∈ range.slots
  count : partition.patchCount = (scattered partition.kind partition.patches).patchCount

variable {partition : Partition}

theorem range_eq_ok (hranges : partition.ranges = some ranges)
    (hnodup : (ranges.map PatchRange.patch).Nodup) {range : PatchRange} :
    partition.range patch = .ok range ↔ range ∈ ranges ∧ range.patch = patch := by
  rw [Partition.range, hranges]
  constructor
  · intro h
    dsimp only at h
    split at h
    · next found hfound =>
      cases h
      exact ⟨List.mem_of_find?_eq_some hfound, by simpa using List.find?_some hfound⟩
    · cases h
  · rintro ⟨hmem, rfl⟩
    dsimp only
    rw [find?_of_nodup hnodup hmem]

theorem range_eq_error (hranges : partition.ranges = some ranges)
    (hnone : ∀ range ∈ ranges, range.patch ≠ patch) :
    partition.range patch = .error (.patches (.absent partition.kind patch)) := by
  rw [Partition.range, hranges]
  dsimp only
  rw [List.find?_eq_none.mpr fun range hrange => by simpa using hnone range hrange]

theorem eraseReps_length {words : List UInt32} (hnodup : (ranges.map PatchRange.patch).Nodup)
    (hsame : ∀ word, (∃ range ∈ ranges, range.patch = word) ↔ word ∈ words) :
    ranges.length = (words.mergeSort fun a b => a ≤ b).eraseReps.length := by
  obtain ⟨herased, hmem⟩ := eraseReps_ascending (mergeSort_keys id words)
  have hperm : (ranges.map PatchRange.patch).Perm
      (words.mergeSort fun a b => a ≤ b).eraseReps := by
    refine (List.perm_ext_iff_of_nodup hnodup herased).mpr fun word => ?_
    rw [hmem, List.mem_mergeSort, ← hsame, List.mem_map]
  rw [← hperm.length_eq, List.length_map]

theorem Runs.divides {order : List Identity} (h : Runs patches order ranges)
    (hlength : order.length = patches.size)
    (honto : ∀ patch, patch ∈ patches ↔ ∃ slot, patchAt? patches order slot = some patch)
    {sorted : List PatchRange} (hperm : sorted.Perm ranges) :
    Divides ⟨kind, patches, some sorted⟩ order := by
  have hnodup : (sorted.map PatchRange.patch).Nodup :=
    (hperm.map _).nodup_iff.mpr (List.pairwise_map.mpr h.distinct)
  have hfound : ∀ patch range, Partition.range ⟨kind, patches, some sorted⟩ patch = .ok range ↔
      range ∈ ranges ∧ range.patch = patch := by
    intro patch range
    rw [range_eq_ok rfl hnodup, hperm.mem_iff]
  have hoccurs : ∀ patch, (∃ range ∈ sorted, range.patch = patch) ↔ patch ∈ patches := by
    intro patch
    rw [honto, ← h.occurs_iff]
    simp only [hperm.mem_iff]
  constructor
  · have hcovered : coverage sorted = patches.size := by
      rw [coverage_eq, (hperm.flatMap_right slots).length_eq, ← coverage_eq, ← hlength]
      have hreverse := h.tiles.coverage
      rw [coverage_eq, (ranges.reverse_perm.flatMap_right slots).length_eq, ← coverage_eq] at hreverse
      omega
    exact Checked.require_of _ hcovered
  · intro patch hpatch
    obtain ⟨range, hrange, rfl⟩ := (hoccurs patch).mpr hpatch
    have hmem := hperm.mem_iff.mp hrange
    exact ⟨range.start, range.stop, (hfound _ _).mpr ⟨hmem, rfl⟩,
      h.tiles.filled range (List.mem_reverse.mpr hmem), h.occupies hmem⟩
  · intro patch hpatch
    refine range_eq_error rfl fun range hrange hsame => hpatch ?_
    exact (hoccurs patch).mp ⟨range, hrange, hsame⟩
  · intro one other range there hrange hthere hne slot hslot hboth
    obtain ⟨hmem, rfl⟩ := (hfound one range).mp hrange
    obtain ⟨hother, rfl⟩ := (hfound other there).mp hthere
    have hone := (h.occupies hmem slot).mpr (mem_slots.mp hslot)
    rw [(h.occupies hother slot).mpr (mem_slots.mp hboth)] at hone
    exact hne (Option.some.inj hone).symm
  · intro slot hslot
    obtain ⟨range, hrange, hmem⟩ := h.tiles.covers (Nat.zero_le slot) hslot
    exact ⟨range.patch, range, (hfound _ _).mpr ⟨List.mem_reverse.mp hrange, rfl⟩, hmem⟩
  · exact eraseReps_length hnodup fun patch => (hoccurs patch).trans Array.mem_toList_iff.symm

theorem patchAt?_onto {permutation : Permutation} (hlawful : permutation.Lawful)
    (hsize : patches.size = permutation.size) (patch : Patch) : patch ∈ patches ↔
      ∃ slot, patchAt? patches permutation.identities.toList slot = some patch := by
  constructor
  · intro hpatch
    obtain ⟨number, hnumber⟩ := Array.mem_iff_getElem?.mp hpatch
    have hlt : number < permutation.size := hsize ▸ (Array.getElem?_eq_some_iff.mp hnumber).1
    have hword := toNat_toUInt32 (Nat.lt_of_lt_of_le hlt hlawful.size_le)
    have hmem : number.toUInt32 ∈ permutation.identities.toList :=
      hlawful.mem_identities.mpr (hword.symm ▸ hlt)
    obtain ⟨slot, hslot⟩ := List.mem_iff_getElem?.mp hmem
    exact ⟨slot, Option.bind_eq_some_iff.mpr ⟨_, hslot, hword.symm ▸ hnumber⟩⟩
  · rintro ⟨slot, hslot⟩
    obtain ⟨identity, -, hthere⟩ := Option.bind_eq_some_iff.mp hslot
    exact Array.mem_of_getElem? hthere

/-- The slots of every patch are side by side and the ranges divide the slots, or the first slot
where a patch comes back is refused. -/
theorem contiguous_cases (kind : Kind) {permutation : Permutation} (hlawful : permutation.Lawful)
    (hsize : patches.size = permutation.size) :
    ((∀ patch, Together patches permutation.identities.toList patch) ∧
      ∃ ranges, contiguous kind patches permutation = .ok ⟨kind, patches, some ranges⟩ ∧
        Divides ⟨kind, patches, some ranges⟩ permutation.identities.toList) ∨
    ∃ patch slot, contiguous kind patches permutation =
        .error (.refused (.patches (.split kind patch slot))) ∧
      Resumes patches permutation.identities.toList patch slot ∧
      ∀ before < slot, ∀ other,
        ¬Resumes patches permutation.identities.toList other before := by
  have hlength : permutation.identities.toList.length = patches.size :=
    hlawful.sizes.trans hsize.symm
  have hlisted : ∀ identity ∈ permutation.identities.toList, identity.toNat < patches.size :=
    fun identity hmem => hsize ▸ hlawful.mem_identities.mp hmem
  rcases (Runs.start patches).scan kind hlisted with
    ⟨ranges, hscan, hruns⟩ | ⟨patch, slot, hscan, hresumes, hfirst⟩
  · rw [List.length_nil] at hscan
    rw [List.nil_append] at hruns
    have hdivides : Divides
        ⟨kind, patches, some (ranges.mergeSort fun a b => a.patch ≤ b.patch)⟩
        permutation.identities.toList :=
      hruns.divides hlength (patchAt?_onto hlawful hsize) (List.mergeSort_perm ranges _)
    have hvalid := hdivides.valid
    refine .inl ⟨hruns.together, _, ?_, hdivides⟩
    rw [contiguous, hscan, ok_bind]
    dsimp only
    rw [hvalid]
    rfl
  · rw [List.length_nil] at hscan
    rw [List.nil_append] at hresumes hfirst
    refine .inr ⟨patch, slot, ?_, hresumes, hfirst⟩
    rw [contiguous, hscan]
    rfl

/-- Under every permutation, the patches have ranges exactly if the slots of each are side by
side. The ranges then divide the slots; otherwise the refusal is for the first slot where a patch
comes back. -/
theorem contiguous_decides (kind : Kind) {permutation : Permutation} (made : permutation.Made)
    (sizes : patches.size = permutation.size) :
    ((∃ partition, contiguous kind patches permutation = .ok partition) ↔
      ∀ patch, Together patches permutation.identities.toList patch) ∧
    (∀ partition, contiguous kind patches permutation = .ok partition →
      partition.kind = kind ∧ partition.patches = patches ∧
        partition.Divides permutation.identities.toList) ∧
    ∀ failure, contiguous kind patches permutation = .error failure →
      ∃ patch slot, failure = .refused (.patches (.split kind patch slot)) ∧
        Resumes patches permutation.identities.toList patch slot ∧
        ∀ before < slot, ∀ other,
          ¬Resumes patches permutation.identities.toList other before := by
  rcases contiguous_cases kind made.lawful sizes with
    ⟨htogether, ranges, hok, hdivides⟩ | ⟨patch, slot, hrefused, hresumes, hfirst⟩
  · refine ⟨iff_of_true ⟨_, hok⟩ htogether, ?_, ?_⟩
    · intro partition hpartition
      cases hok.symm.trans hpartition
      exact ⟨rfl, rfl, hdivides⟩
    · intro failure hfailure
      cases hok.symm.trans hfailure
  · refine ⟨iff_of_false ?_ ?_, ?_, ?_⟩
    · rintro ⟨partition, hpartition⟩
      cases hrefused.symm.trans hpartition
    · exact fun htogether => (htogether patch).not_resumes slot hresumes
    · intro partition hpartition
      cases hrefused.symm.trans hpartition
    · intro failure hfailure
      cases hrefused.symm.trans hfailure
      exact ⟨patch, slot, rfl, hresumes, hfirst⟩

/-- Five elements of three patches: their patches have ranges when the elements of each are stored
together, in whatever order of the patches, and in the order of the numbers the third element
brings back the patch of the first. -/
theorem contiguous_decides_of_five :
    (∃ partition, contiguous .vertex #[2, 0, 2, 1, 0]
        ⟨#[0, 3, 1, 2, 4], #[0, 2, 3, 1, 4], false⟩ = .ok partition ∧
      partition.Divides [0, 2, 3, 1, 4] ∧ partition.range 2 = .ok ⟨2, 0, 2⟩) ∧
    (∀ patch, Together #[2, 0, 2, 1, 0] [0, 2, 3, 1, 4] patch) ∧
    Resumes #[2, 0, 2, 1, 0] [0, 1, 2, 3, 4] 2 2 ∧
    ∀ patch, ¬Resumes #[2, 0, 2, 1, 0] [0, 1, 2, 3, 4] patch 1 := by
  have horder : Permutation.ofIdentities #[0, 2, 3, 1, 4] =
      .ok ⟨#[0, 3, 1, 2, 4], #[0, 2, 3, 1, 4], false⟩ := by rfl
  have hsize : (#[2, 0, 2, 1, 0] : Array Patch).size = (Permutation.inPlace 5).size := by decide
  have hturned := contiguous_decides .vertex (Permutation.Made.ofIdentities (by decide) horder)
    (hsize.trans (by decide))
  have hplaced := contiguous_decides .vertex (Permutation.Made.inPlace 5) hsize
  have hscan : scan .vertex #[2, 0, 2, 1, 0] [0, 2, 3, 1, 4] 0 [] =
      .ok [⟨0, 3, 5⟩, ⟨1, 2, 3⟩, ⟨2, 0, 2⟩] := rfl
  have hok : contiguous .vertex #[2, 0, 2, 1, 0] ⟨#[0, 3, 1, 2, 4], #[0, 2, 3, 1, 4], false⟩ =
      .ok ⟨.vertex, #[2, 0, 2, 1, 0], some [⟨0, 3, 5⟩, ⟨1, 2, 3⟩, ⟨2, 0, 2⟩]⟩ := by
    rw [contiguous, hscan, ok_bind, List.mergeSort_of_pairwise (by decide)]
    rfl
  have hsplit : contiguous .vertex #[2, 0, 2, 1, 0] (.inPlace 5) =
      .error (.refused (.patches (.split .vertex 2 2))) := by rfl
  obtain ⟨patch, slot, heq, hresumes, hfirst⟩ := hplaced.2.2 _ hsplit
  cases heq
  exact ⟨⟨_, hok, (hturned.2.1 _ hok).2.2, by rfl⟩, hturned.1.mp ⟨_, hok⟩, hresumes,
    hfirst 1 (by decide)⟩

end Partition

end MeshLayout
