import MeshLayout.Proofs.Ordering
import MeshLayout.Proofs.Partition

/-!
# Elements grouped by patch

Grouping sorts the identities by patch alone. The sort is stable and the identities come in
ascending order, so it settles the order within a patch as well: only one permutation has its
identities by patch and, within a patch, by number.
-/

set_option autoImplicit false

namespace MeshLayout

namespace Permutation

/-- An identity comes before another if its patch is lower, or if its number is lower in the same
patch. -/
def Before (patches : Array Patch) (a b : Identity) : Prop :=
  ∃ p q, patches[a.toNat]? = some p ∧ patches[b.toNat]? = some q ∧ (p < q ∨ p = q ∧ a < b)

/-- The identities by slot go by ascending patch, and by ascending identity within a patch. -/
def Grouped (patches : Array Patch) (permutation : Permutation) : Prop :=
  permutation.identities.toList.Pairwise (Before patches)

section Grouped

variable {patches : Array Patch} {permutation other : Permutation}

theorem Before.asymm {a b : Identity} (h : Before patches a b) : ¬Before patches b a := by
  rintro ⟨q', p', hq', hp', hreversed⟩
  obtain ⟨p, q, hp, hq, hordered⟩ := h
  obtain rfl := Option.some.inj (hp.symm.trans hp')
  obtain rfl := Option.some.inj (hq.symm.trans hq')
  rcases hordered with hlt | ⟨rfl, hlt⟩
  · rcases hreversed with hgt | ⟨rfl, -⟩
    · exact UInt32.lt_asymm hlt hgt
    · exact UInt32.lt_irrefl _ hlt
  · rcases hreversed with hgt | ⟨-, hgt⟩
    · exact UInt32.lt_irrefl _ hgt
    · exact UInt32.lt_asymm hlt hgt

theorem grouped_grouped (patches : Array Patch) : Grouped patches (grouped patches) := by
  have hnumbered : (patches.toList.zip (numbers patches.size)).Pairwise fun a b => a.2 < b.2 := by
    have hsecond : (patches.toList.zip (numbers patches.size)).map Prod.snd =
        numbers patches.size := numbered_identities patches
    rw [← List.pairwise_map, hsecond]
    exact numbers_ascending _
  refine List.pairwise_map.mpr ((mergeSort_stable Prod.fst hnumbered).imp_of_mem ?_)
  intro a b ha hb hordered
  exact ⟨a.1, b.1, Partition.patch_of_numbered (List.mem_mergeSort.mp ha),
    Partition.patch_of_numbered (List.mem_mergeSort.mp hb), hordered⟩

theorem Grouped.unique (hsize : patches.size < UInt32.size) (hp : permutation.Lawful)
    (hother : other.Lawful) (hcount : permutation.size = patches.size)
    (hothers : other.size = patches.size) (h : Grouped patches permutation)
    (h' : Grouped patches other) : other = permutation := by
  apply hother.ext hp
  rw [← Array.toList_inj]
  have hperm := hp.perm_numbers (hcount ▸ hsize)
  have hperm' := hother.perm_numbers (hothers ▸ hsize)
  rw [hcount] at hperm
  rw [hothers] at hperm'
  exact (hperm'.trans hperm.symm).eq_of_pairwise (fun _ _ _ _ hab hba => absurd hba hab.asymm) h' h

theorem grouped_inPlace (hsize : patches.size < UInt32.size) :
    Grouped patches (inPlace patches.size) ↔ patches.toList.Pairwise (· ≤ ·) := by
  have hlength := numbers_length_of_lt hsize
  have hidentities : (inPlace patches.size).identities.toList = numbers patches.size := rfl
  have hown : ∀ {i : Nat} (hi : i < patches.size),
      patches[i.toUInt32.toNat]? = some patches[i] := by
    intro i hi
    rw [toNat_toUInt32 (by omega), Array.getElem?_eq_getElem hi]
  rw [Grouped, hidentities, List.pairwise_iff_getElem, List.pairwise_iff_getElem]
  constructor
  · intro h i j hi hj hij
    rw [Array.length_toList] at hi hj
    obtain ⟨p, q, hp, hq, hordered⟩ := h i j (hlength.symm ▸ hi) (hlength.symm ▸ hj) hij
    rw [numbers_getElem, hown hi] at hp
    rw [numbers_getElem, hown hj] at hq
    obtain rfl := Option.some.inj hp
    obtain rfl := Option.some.inj hq
    rw [Array.getElem_toList, Array.getElem_toList]
    rcases hordered with hlt | ⟨hsame, -⟩
    · exact UInt32.le_of_lt hlt
    · exact UInt32.le_of_eq hsame
  · intro h i j hi hj hij
    have hwords := List.pairwise_iff_getElem.mp (numbers_ascending _) i j hi hj hij
    rw [hlength] at hi hj
    have hle := h i j hi hj hij
    rw [Array.getElem_toList, Array.getElem_toList] at hle
    rw [numbers_getElem, numbers_getElem] at hwords ⊢
    refine ⟨_, _, hown hi, hown hj, ?_⟩
    by_cases hsame : patches[i] = patches[j]
    · exact .inr ⟨hsame, hwords⟩
    · exact .inl (UInt32.lt_of_le_of_ne hle hsame)

theorem Lawful.isIdentity_iff_inPlace (hp : permutation.Lawful)
    (hsize : permutation.size < UInt32.size) :
    permutation.isIdentity = true ↔ permutation = inPlace permutation.size := by
  constructor
  · intro hplace
    apply hp.ext (lawful_inPlace _)
    have hentries := hp.isIdentity_iff_entries.mp hplace
    rw [← Array.toList_inj]
    apply List.ext_getElem
    · rw [Array.length_toList, hp.sizes]
      exact (numbers_length_of_lt hsize).symm
    · intro slot hslot hnumber
      rw [Array.length_toList, hp.sizes] at hslot
      have hentry := (Array.getElem?_eq_some_iff.mp (hentries slot hslot)).2
      exact (Array.getElem_toList _).trans (hentry.trans (numbers_getElem hnumber).symm)
  · intro h
    rw [h]
    rfl

theorem Lawful.ofIdentities (hp : permutation.Lawful) (hsize : permutation.size < UInt32.size) :
    ofIdentities permutation.identities = .ok permutation := by
  have hsize' : permutation.identities.size < UInt32.size := hp.sizes.symm ▸ hsize
  have hperm := hp.perm_numbers hsize
  rw [← hp.sizes] at hperm
  obtain ⟨made, hmade⟩ := (ofIdentities_total hsize').mpr hperm
  have hlawful := lawful_ofIdentities (Nat.le_of_lt hsize') hmade
  rw [hmade, hlawful.ext hp (identities_ofIdentities hmade)]

/-- The permutation of a kind is given without a fault and numbers all elements. It is the one in
place, or the only one that is grouped by patch; that one is in place if patches go up with the
identities. -/
theorem assign_groups (size_lt : patches.size < UInt32.size) (force reorder : Bool) :
    ∃ permutation, SlotOrder.assign force patches reorder = .ok permutation ∧
      permutation.Lawful ∧ permutation.size = patches.size ∧
      (force = false → reorder = false → ∀ slot : Slot, slot.toNat < patches.size →
        permutation.identityOf? slot = some slot) ∧
      (force = true ∨ reorder = true → Grouped patches permutation ∧
        (∀ other : Permutation, other.Lawful → other.size = patches.size →
          Grouped patches other → other = permutation) ∧
        (permutation.isIdentity = true ↔ patches.toList.Pairwise (· ≤ ·))) ∧
      (permutation.isIdentity = true ↔ ∀ slot : Slot, slot.toNat < patches.size →
        permutation.identityOf? slot = some slot) ∧
      ofIdentities permutation.identities = .ok permutation := by
  have hlawful := lawful_chosen (SlotOrder.choose force reorder) patches
  have hsize : ((SlotOrder.choose force reorder).permutation patches).size = patches.size := by
    rw [chosen_size, Nat.mod_eq_of_lt size_lt]
  have hlt := hsize.symm ▸ size_lt
  refine ⟨_, assign_eq force patches reorder, hlawful, hsize, ?_, ?_, ?_,
    hlawful.ofIdentities hlt⟩
  · rintro rfl rfl
    exact hsize ▸ hlawful.isIdentity_iff.mp rfl
  · intro hflag
    have hchosen : SlotOrder.choose force reorder = .byPatch :=
      if_pos (by rcases hflag with rfl | rfl <;> simp)
    rw [hchosen] at hlawful hsize ⊢
    have hgrouped := grouped_grouped patches
    refine ⟨hgrouped, fun other hother hothers => Grouped.unique size_lt hlawful hother hsize
      hothers hgrouped, ?_⟩
    rw [hlawful.isIdentity_iff_inPlace (hsize.symm ▸ size_lt), hsize, ← grouped_inPlace size_lt]
    constructor
    · intro hplace
      rw [← hplace]
      exact hgrouped
    · intro hplace
      have hcount : (inPlace patches.size).size = patches.size := by
        rw [inPlace_size, Nat.mod_eq_of_lt size_lt]
      exact Grouped.unique size_lt (lawful_inPlace _) hlawful hcount hsize hplace hgrouped
  · rw [← hsize]
    exact hlawful.isIdentity_iff

theorem assign_groups_scattered : ∃ permutation,
    SlotOrder.assign false #[2, 0, 2, 1, 0] true = .ok permutation ∧
      permutation.identities = #[1, 4, 3, 0, 2] ∧ Grouped #[2, 0, 2, 1, 0] permutation ∧
      permutation.isIdentity = false ∧ ofIdentities #[1, 4, 3, 0, 2] = .ok permutation := by
  have hsize : (#[2, 0, 2, 1, 0] : Array Patch).size < UInt32.size := by decide
  obtain ⟨_, hassign, -, -, -, hgrouped, -⟩ := assign_groups hsize false true
  obtain ⟨hgrouped, hunique, -⟩ := hgrouped (.inr rfl)
  have hmade : ofIdentities #[1, 4, 3, 0, 2] =
      .ok ⟨#[3, 0, 4, 2, 1], #[1, 4, 3, 0, 2], false⟩ := by decide
  have hordered : Grouped #[2, 0, 2, 1, 0] ⟨#[3, 0, 4, 2, 1], #[1, 4, 3, 0, 2], false⟩ := by
    simp [Grouped, Before]
  obtain rfl := hunique _ (lawful_ofIdentities (by decide) hmade) rfl hordered
  exact ⟨_, hassign, rfl, hgrouped, rfl, hmade⟩

end Grouped

end Permutation

end MeshLayout
