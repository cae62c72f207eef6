import MeshLayout.Permutation
import MeshLayout.Proofs.Outcome
import Mathlib.Data.List.Nodup
import Mathlib.Data.List.Perm.Subperm

/-!
# Lawful permutations

A permutation is lawful if its tables are as long as each other and undo each other in both
directions, and its flag says whether every element is in the slot of its own number. Every way
of making a permutation gives a lawful one, because an order that repeats no identity and stays
in range has to name every identity.
-/

set_option autoImplicit false

namespace MeshLayout

theorem toNat_toUInt32 {n : Nat} (h : n < UInt32.size) : n.toUInt32.toNat = n :=
  UInt32.toNat_ofNat_of_lt' h

theorem toUInt32_toNat (word : UInt32) : word.toNat.toUInt32 = word := UInt32.ofNat_toNat

theorem toUInt32_inj {m n : Nat} (hm : m < UInt32.size) (hn : n < UInt32.size)
    (h : m.toUInt32 = n.toUInt32) : m = n := by
  rw [← toNat_toUInt32 hm, h, toNat_toUInt32 hn]

namespace Permutation

structure Lawful (permutation : Permutation) : Prop where
  sizes : permutation.identities.size = permutation.size
  size_le : permutation.size ≤ UInt32.size
  identityOf_slotOf : ∀ {identity slot}, permutation.slotOf? identity = some slot →
    permutation.identityOf? slot = some identity
  slotOf_identityOf : ∀ {slot identity}, permutation.identityOf? slot = some identity →
    permutation.slotOf? identity = some slot
  isIdentity_iff : permutation.isIdentity = true ↔
    ∀ slot : Slot, slot.toNat < permutation.size → permutation.identityOf? slot = some slot

def slotOf (permutation : Permutation) (identity : Identity) : Slot :=
  (permutation.slotOf? identity).getD 0

def identityOf (permutation : Permutation) (slot : Slot) : Identity :=
  (permutation.identityOf? slot).getD 0

section Lawful

variable {permutation : Permutation} {identity : Identity} {slot : Slot}

theorem slotOf?_eq (h : identity.toNat < permutation.size) :
    permutation.slotOf? identity = some (permutation.slotOf identity) := by
  rw [slotOf, slotOf?, Array.getElem?_eq_getElem h, Option.getD_some]

theorem slotOf?_eq_none (h : permutation.size ≤ identity.toNat) :
    permutation.slotOf? identity = none := Array.getElem?_eq_none h

namespace Lawful

theorem identityOf?_eq (hp : permutation.Lawful) (h : slot.toNat < permutation.size) :
    permutation.identityOf? slot = some (permutation.identityOf slot) := by
  rw [identityOf, identityOf?, Array.getElem?_eq_getElem (hp.sizes ▸ h), Option.getD_some]

theorem identityOf?_eq_none (hp : permutation.Lawful) (h : permutation.size ≤ slot.toNat) :
    permutation.identityOf? slot = none := Array.getElem?_eq_none (hp.sizes ▸ h)

theorem slotOf_lt (hp : permutation.Lawful) (h : identity.toNat < permutation.size) :
    (permutation.slotOf identity).toNat < permutation.size := by
  have := (Array.getElem?_eq_some_iff.mp (hp.identityOf_slotOf (slotOf?_eq h))).1
  rwa [hp.sizes] at this

theorem identityOf_lt (hp : permutation.Lawful) (h : slot.toNat < permutation.size) :
    (permutation.identityOf slot).toNat < permutation.size :=
  (Array.getElem?_eq_some_iff.mp (hp.slotOf_identityOf (hp.identityOf?_eq h))).1

theorem identityOf_slotOf' (hp : permutation.Lawful) (h : identity.toNat < permutation.size) :
    permutation.identityOf (permutation.slotOf identity) = identity := by
  rw [identityOf, hp.identityOf_slotOf (slotOf?_eq h), Option.getD_some]

theorem slotOf_identityOf' (hp : permutation.Lawful) (h : slot.toNat < permutation.size) :
    permutation.slotOf (permutation.identityOf slot) = slot := by
  rw [slotOf, hp.slotOf_identityOf (hp.identityOf?_eq h), Option.getD_some]

theorem slotOf_of_isIdentity (hp : permutation.Lawful) (hplace : permutation.isIdentity = true)
    (h : identity.toNat < permutation.size) : permutation.slotOf identity = identity := by
  have hsame := hp.isIdentity_iff.mp hplace identity h
  rw [slotOf, hp.slotOf_identityOf hsame, Option.getD_some]

theorem mem_identities (hp : permutation.Lawful) :
    identity ∈ permutation.identities.toList ↔ identity.toNat < permutation.size := by
  rw [Array.mem_toList_iff]
  constructor
  · intro hidentity
    obtain ⟨slot, hslot⟩ := Array.mem_iff_getElem?.mp hidentity
    have hlt : slot < permutation.size := hp.sizes ▸ (Array.getElem?_eq_some_iff.mp hslot).1
    have hplaced : permutation.identityOf? slot.toUInt32 = some identity := by
      rwa [identityOf?, toNat_toUInt32 (Nat.lt_of_lt_of_le hlt hp.size_le)]
    exact (Array.getElem?_eq_some_iff.mp (hp.slotOf_identityOf hplaced)).1
  · intro hlt
    exact Array.mem_of_getElem? (hp.identityOf_slotOf (slotOf?_eq hlt))

theorem slots_nodup (hp : permutation.Lawful) : permutation.slots.toList.Nodup := by
  have hsize := hp.size_le
  have hslot : ∀ {i} (hi : i < permutation.slots.toList.length),
      permutation.identityOf? permutation.slots.toList[i] = some i.toUInt32 := by
    intro i hi
    rw [Array.length_toList] at hi
    apply hp.identityOf_slotOf
    rw [slotOf?, toNat_toUInt32 (Nat.lt_of_lt_of_le hi hsize), Array.getElem?_eq_getElem hi,
      Array.getElem_toList]
  apply List.pairwise_iff_getElem.mpr
  intro i j hi hj hij hsame
  have hword := hslot hi
  rw [hsame, hslot hj] at hword
  rw [Array.length_toList] at hi hj
  have := toUInt32_inj (Nat.lt_of_lt_of_le hj hsize) (Nat.lt_of_lt_of_le hi hsize)
    (Option.some.inj hword)
  omega

end Lawful

end Lawful

theorem numbers_length (n : Nat) : (numbers n).length = n % UInt32.size := by simp [numbers]

theorem numbers_length_of_lt {n : Nat} (h : n < UInt32.size) : (numbers n).length = n := by
  rw [numbers_length, Nat.mod_eq_of_lt h]

theorem numbers_getElem? {n i : Nat} (h : i < n % UInt32.size) :
    (numbers n)[i]? = some i.toUInt32 := by
  simp only [numbers, List.getElem?_map, List.getElem?_range h, Option.map_some]

theorem numbers_getElem {n i : Nat} (h : i < (numbers n).length) :
    (numbers n)[i] = i.toUInt32 := by
  simp only [numbers, List.getElem_map, List.getElem_range]

theorem mem_numbers {n : Nat} {word : UInt32} :
    word ∈ numbers n ↔ word.toNat < n % UInt32.size := by
  simp only [numbers, List.mem_map, List.mem_range]
  constructor
  · rintro ⟨i, hi, rfl⟩
    rwa [toNat_toUInt32 (Nat.lt_trans hi (Nat.mod_lt _ (by decide)))]
  · exact fun h => ⟨word.toNat, h, toUInt32_toNat word⟩

theorem mem_numbers_of_lt {n : Nat} (h : n < UInt32.size) {word : UInt32} :
    word ∈ numbers n ↔ word.toNat < n := by
  rw [mem_numbers, Nat.mod_eq_of_lt h]

theorem numbers_ascending (n : Nat) : (numbers n).Pairwise (· < ·) := by
  refine List.pairwise_map.mpr (List.pairwise_lt_range.imp_of_mem fun {i j} hi hj hlt => ?_)
  have hn := Nat.mod_lt n (show UInt32.size > 0 by decide)
  rw [List.mem_range] at hi hj
  rwa [UInt32.lt_iff_toNat_lt, toNat_toUInt32 (by omega), toNat_toUInt32 (by omega)]

theorem numbers_nodup (n : Nat) : (numbers n).Nodup := (numbers_ascending n).imp UInt32.ne_of_lt

theorem inOrder_iff (order : List Identity) (start : Nat) :
    inOrder order start = true ↔
      ∀ i identity, order[i]? = some identity → identity = (start + i).toUInt32 := by
  induction order generalizing start with
  | nil => simp [inOrder]
  | cons first rest ih =>
    simp only [inOrder, Bool.and_eq_true, beq_iff_eq, ih]
    constructor
    · rintro ⟨hfirst, hrest⟩ (_ | i) identity hi
      · cases hi
        exact hfirst.symm
      · rw [hrest i identity hi, Nat.add_assoc, Nat.add_comm 1 i]
    · intro h
      refine ⟨(h 0 first rfl).symm, fun i identity hi => ?_⟩
      rw [h (i + 1) identity hi, Nat.add_assoc, Nat.add_comm 1 i]

theorem invert_size (order : List Identity) (start : Nat) (slots : Array Slot) :
    (invert order start slots).size = slots.size := by
  induction order generalizing start slots with
  | nil => rfl
  | cons identity rest ih => rw [invert, ih, Array.size_setIfInBounds]

theorem invert_frame (order : List Identity) (start : Nat) (slots : Array Slot) (k : Nat)
    (h : ∀ identity ∈ order, identity.toNat ≠ k) :
    (invert order start slots)[k]? = slots[k]? := by
  induction order generalizing start slots with
  | nil => rfl
  | cons identity rest ih =>
    rw [invert, ih _ _ (fun other hother => h other (by simp [hother])),
      Array.getElem?_setIfInBounds_ne (h identity (by simp))]

theorem invert_lookup (order : List Identity) (start : Nat) (slots : Array Slot)
    (hnodup : order.Nodup) {i : Nat} {identity : Identity} (hi : order[i]? = some identity)
    (hidentity : identity.toNat < slots.size) :
    (invert order start slots)[identity.toNat]? = some (start + i).toUInt32 := by
  induction order generalizing start slots i with
  | nil => simp at hi
  | cons first rest ih =>
    obtain ⟨hfirst, hrest⟩ := List.nodup_cons.mp hnodup
    rw [invert]
    cases i with
    | zero =>
      cases hi
      have hother : ∀ other ∈ rest, other.toNat ≠ identity.toNat :=
        fun other hother h => hfirst (UInt32.toNat_inj.mp h ▸ hother)
      rw [invert_frame _ _ _ _ hother, Array.getElem?_setIfInBounds_self_of_lt hidentity]
      rfl
    | succ i =>
      rw [ih _ _ hrest hi (by rwa [Array.size_setIfInBounds]), Nat.add_assoc, Nat.add_comm 1 i]

theorem order_perm_range (order : List Identity) (hnodup : order.Nodup)
    (hrange : ∀ identity ∈ order, identity.toNat < order.length) :
    (order.map UInt32.toNat).Perm (List.range order.length) := by
  have hmap : (order.map UInt32.toNat).Nodup :=
    hnodup.map fun _ _ h => UInt32.toNat_inj.mp h
  refine (hmap.subperm fun k hk => ?_).perm_of_length_le (by simp)
  obtain ⟨identity, hidentity, rfl⟩ := List.mem_map.mp hk
  exact List.mem_range.mpr (hrange identity hidentity)

theorem lawful_of_order (order : List Identity) (start : Slot) (hnodup : order.Nodup)
    (hrange : ∀ identity ∈ order, identity.toNat < order.length)
    (hsize : order.length ≤ UInt32.size) :
    Lawful ⟨invert order 0 (Array.replicate order.length start), order.toArray,
      inOrder order 0⟩ where
  sizes := by simp [size, invert_size]
  size_le := by simpa [size, invert_size] using hsize
  identityOf_slotOf := by
    intro identity slot h
    have hlt : identity.toNat < order.length := by
      have := (Array.getElem?_eq_some_iff.mp h).1
      simpa [invert_size] using this
    have hmem : identity.toNat ∈ order.map UInt32.toNat :=
      (order_perm_range order hnodup hrange).mem_iff.mpr (List.mem_range.mpr hlt)
    obtain ⟨other, hother, heq⟩ := List.mem_map.mp hmem
    obtain rfl := UInt32.toNat_inj.mp heq
    obtain ⟨i, hi⟩ := List.mem_iff_getElem?.mp hother
    have hilt : i < order.length := (List.getElem?_eq_some_iff.mp hi).1
    have hslot := invert_lookup order 0 (Array.replicate order.length start) hnodup hi
      (by simpa using hlt)
    simp only [slotOf?] at h
    rw [hslot, Nat.zero_add] at h
    obtain rfl := Option.some.inj h
    simpa [identityOf?, toNat_toUInt32 (show i < UInt32.size by omega)] using hi
  slotOf_identityOf := by
    intro slot identity h
    have hi : order[slot.toNat]? = some identity := by simpa [identityOf?] using h
    have hmem := List.mem_of_getElem? hi
    have := invert_lookup order 0 (Array.replicate order.length start) hnodup hi
      (by simpa using hrange identity hmem)
    simpa only [slotOf?, Nat.zero_add, toUInt32_toNat] using this
  isIdentity_iff := by
    simp only [inOrder_iff, Nat.zero_add, size, invert_size, Array.size_replicate, identityOf?,
      List.getElem?_toArray]
    constructor
    · intro h slot hslot
      have hentry := List.getElem?_eq_getElem hslot
      have hown := h _ _ hentry
      rw [toUInt32_toNat] at hown
      rw [hentry, hown]
    · intro h i identity hi
      have hlt : i < order.length := (List.getElem?_eq_some_iff.mp hi).1
      have hword := toNat_toUInt32 (show i < UInt32.size by omega)
      have := h i.toUInt32 (by rwa [hword])
      rw [hword, hi] at this
      exact Option.some.inj this

theorem Lawful.identities_perm {permutation : Permutation} (hp : permutation.Lawful) :
    ((List.range permutation.size).map fun slot =>
      (permutation.identityOf slot.toUInt32).toNat).Perm (List.range permutation.size) := by
  have hsize := hp.size_le
  have hword : ∀ {slot}, slot ∈ List.range permutation.size → slot.toUInt32.toNat = slot :=
    fun h => toNat_toUInt32 (Nat.lt_of_lt_of_le (List.mem_range.mp h) hsize)
  have hlt : ∀ {slot}, slot ∈ List.range permutation.size →
      slot.toUInt32.toNat < permutation.size :=
    fun h => (hword h).symm ▸ List.mem_range.mp h
  have hnodup : ((List.range permutation.size).map fun slot =>
      (permutation.identityOf slot.toUInt32).toNat).Nodup := by
    apply List.Nodup.map_on _ List.nodup_range
    intro i hi j hj h
    have := congrArg permutation.slotOf (UInt32.toNat_inj.mp h)
    rw [hp.slotOf_identityOf' (hlt hi), hp.slotOf_identityOf' (hlt hj)] at this
    rw [← hword hi, this, hword hj]
  refine (hnodup.subperm fun k hk => ?_).perm_of_length_le (by simp)
  obtain ⟨slot, hslot, rfl⟩ := List.mem_map.mp hk
  exact List.mem_range.mpr (hp.identityOf_lt (hlt hslot))

theorem inPlace_size (n : Nat) : (inPlace n).size = n % UInt32.size := by
  simp [size, inPlace, numbers_length]

theorem lawful_inPlace (n : Nat) : Lawful (inPlace n) := by
  have hn := Nat.mod_lt n (show UInt32.size > 0 by decide)
  have hlookup : ∀ {word other : UInt32}, (inPlace n).slotOf? word = some other ↔
      word.toNat < n % UInt32.size ∧ other = word := by
    intro word other
    simp only [slotOf?, inPlace, List.getElem?_toArray]
    constructor
    · intro h
      have hlt : word.toNat < n % UInt32.size := by
        simpa [numbers_length] using (List.getElem?_eq_some_iff.mp h).1
      rw [numbers_getElem? hlt, toUInt32_toNat] at h
      exact ⟨hlt, (Option.some.inj h).symm⟩
    · rintro ⟨hlt, rfl⟩
      rw [numbers_getElem? hlt, toUInt32_toNat]
  have hsize := inPlace_size n
  exact {
    sizes := rfl
    size_le := by omega
    identityOf_slotOf := fun h => hlookup.mpr (by obtain ⟨hlt, rfl⟩ := hlookup.mp h; exact ⟨hlt, rfl⟩)
    slotOf_identityOf := fun h => hlookup.mpr (by obtain ⟨hlt, rfl⟩ := hlookup.mp h; exact ⟨hlt, rfl⟩)
    isIdentity_iff := ⟨fun _ slot h => hlookup.mpr ⟨hsize ▸ h, rfl⟩, fun _ => rfl⟩ }

theorem toUInt32_ne_unplaced {slot : Nat} (h : slot + 1 < UInt32.size) :
    slot.toUInt32 ≠ unplaced := by
  intro heq
  have hword := congrArg UInt32.toNat heq
  rw [toNat_toUInt32 (by omega)] at hword
  exact absurd hword (show slot ≠ UInt32.size - 1 by omega)

/-- What `place` accepts is an order that stays in range, repeats nothing and meets no identity
placed before; it then enters the same slots as `invert`. -/
theorem place_eq_ok (order : List Identity) (start : Nat) (slots placed : Array Slot)
    (hsize : start + order.length ≤ UInt32.size) (h : place order start slots = .ok placed) :
    placed = invert order start slots ∧ order.Nodup ∧
      ∀ identity ∈ order, slots[identity.toNat]? = some unplaced := by
  induction order generalizing start slots with
  | nil =>
    cases h
    exact ⟨rfl, List.nodup_nil, fun _ h => by simp at h⟩
  | cons first rest ih =>
    rw [List.length_cons] at hsize
    rw [place] at h
    split at h
    · cases h
    · next previous hprevious =>
      split at h
      · next hunplaced =>
        obtain ⟨hplaced, hnodup, hfree⟩ := ih (start + 1) _ (by omega) h
        have hlt : first.toNat < slots.size := (Array.getElem?_eq_some_iff.mp hprevious).1
        have hother : ∀ identity ∈ rest, identity ≠ first := by
          rintro identity hidentity rfl
          have hrest := List.length_pos_of_mem hidentity
          have hentered := hfree identity hidentity
          rw [Array.getElem?_setIfInBounds_self_of_lt hlt] at hentered
          exact toUInt32_ne_unplaced (by omega) (Option.some.inj hentered)
        refine ⟨hplaced, List.nodup_cons.mpr ⟨fun hm => hother _ hm rfl, hnodup⟩, ?_⟩
        intro identity hidentity
        rcases List.mem_cons.mp hidentity with rfl | hrest
        · rw [hprevious, hunplaced]
        · have hne : first.toNat ≠ identity.toNat :=
            fun h => hother identity hrest (UInt32.toNat_inj.mp h.symm)
          rw [← hfree identity hrest, Array.getElem?_setIfInBounds_ne hne]
      · cases h

theorem lawful_ofIdentities {order : Array Identity} {permutation : Permutation}
    (hsize : order.size ≤ UInt32.size) (h : ofIdentities order = .ok permutation) :
    Lawful permutation := by
  obtain ⟨placed, hplaced, hmade⟩ := bind_eq_ok.mp h
  cases hmade
  obtain ⟨rfl, hnodup, hfree⟩ := place_eq_ok _ _ _ _ (by simpa using hsize) hplaced
  have hrange : ∀ identity ∈ order.toList, identity.toNat < order.toList.length := by
    intro identity hidentity
    simpa using (Array.getElem?_eq_some_iff.mp (hfree identity hidentity)).1
  simpa using lawful_of_order order.toList unplaced hnodup hrange (by simpa using hsize)

theorem numbered_identities (patches : Array Patch) :
    (patches.toList.zip (numbers patches.size)).map Prod.snd = numbers patches.size := by
  apply List.map_snd_zip
  rw [numbers_length, Array.length_toList]
  exact Nat.mod_le _ _

theorem groupedOrder_perm (patches : Array Patch) :
    (groupedOrder patches).Perm (numbers patches.size) := by
  have := (List.mergeSort_perm (patches.toList.zip (numbers patches.size))
    fun a b => a.1 ≤ b.1).map Prod.snd
  rwa [numbered_identities] at this

theorem groupedOrder_length (patches : Array Patch) :
    (groupedOrder patches).length = patches.size % UInt32.size := by
  rw [(groupedOrder_perm patches).length_eq, numbers_length]

theorem grouped_size (patches : Array Patch) :
    (grouped patches).size = patches.size % UInt32.size := by
  simp [size, grouped, invert_size, groupedOrder_length]

theorem lawful_grouped (patches : Array Patch) : Lawful (grouped patches) := by
  have hperm := groupedOrder_perm patches
  have hlength := groupedOrder_length patches
  have hn := Nat.mod_lt patches.size (show UInt32.size > 0 by decide)
  apply lawful_of_order _ _ (hperm.nodup_iff.mpr (numbers_nodup _)) _ (by omega)
  intro identity hidentity
  rw [hlength]
  exact mem_numbers.mp (hperm.mem_iff.mp hidentity)

/-- The ways in which a permutation is made. A list of more identities than there are words
cannot name each of them once. -/
inductive Made : Permutation → Prop
  | inPlace (n : Nat) : Made (inPlace n)
  | ofIdentities {order : Array Identity} {permutation : Permutation}
      (size_le : order.size ≤ UInt32.size) (made : ofIdentities order = .ok permutation) :
      Made permutation
  | assigned {force : Bool} {patches : Array Patch} {reorder : Bool} {permutation : Permutation}
      (made : SlotOrder.assign force patches reorder = .ok permutation) : Made permutation

theorem findUninverted_eq_none (identities : Array Identity) (slots : List Slot) (start : Nat) :
    findUninverted identities slots start = none ↔
      ∀ i slot, slots[i]? = some slot →
        identities[slot.toNat]? = some (start + i).toUInt32 := by
  induction slots generalizing start with
  | nil => simp [findUninverted]
  | cons first rest ih =>
    rw [findUninverted]
    split
    · next hfirst =>
      rw [ih]
      constructor
      · rintro hrest (_ | i) slot hslot
        · cases hslot
          exact hfirst
        · rw [hrest i slot hslot, Nat.add_assoc, Nat.add_comm 1 i]
      · intro h i slot hslot
        rw [h (i + 1) slot hslot, Nat.add_assoc, Nat.add_comm 1 i]
    · next hfirst => exact ⟨fun h => (nomatch h), fun h => absurd (h 0 first rfl) hfirst⟩

theorem validate_eq_ok {permutation : Permutation} : permutation.validate = .ok () ↔
    permutation.slots.size = permutation.identities.size ∧
      ∀ (i : Nat) (slot : Slot), permutation.slots[i]? = some slot →
        permutation.identities[slot.toNat]? = some i.toUInt32 := by
  rw [Permutation.validate, Checked.require_bind_eq_ok]
  refine and_congr_right fun _ => ?_
  trans findUninverted permutation.identities permutation.slots.toList 0 = none
  · cases findUninverted permutation.identities permutation.slots.toList 0 with
    | none => exact ⟨fun _ => rfl, fun _ => rfl⟩
    | some entry => exact ⟨fun h => (nomatch h), fun h => (nomatch h)⟩
  · simp only [findUninverted_eq_none, Array.getElem?_toList, Nat.zero_add]

theorem Lawful.validate {permutation : Permutation} (hp : permutation.Lawful) :
    permutation.validate = .ok () := by
  refine validate_eq_ok.mpr ⟨hp.sizes.symm, fun i slot hi => ?_⟩
  have hlt : i < permutation.size := (Array.getElem?_eq_some_iff.mp hi).1
  have hsize := hp.size_le
  have hslot : permutation.slotOf? i.toUInt32 = some slot := by
    rwa [slotOf?, toNat_toUInt32 (by omega)]
  exact hp.identityOf_slotOf hslot

theorem lawful_chosen (order : SlotOrder) (patches : Array Patch) :
    Lawful (order.permutation patches) := by
  cases order with
  | byIdentity => exact lawful_inPlace _
  | byPatch => exact lawful_grouped _

theorem assign_eq (force : Bool) (patches : Array Patch) (reorder : Bool) :
    SlotOrder.assign force patches reorder =
      .ok ((SlotOrder.choose force reorder).permutation patches) := by
  rw [SlotOrder.assign, (lawful_chosen _ patches).validate]
  rfl

theorem chosen_size (order : SlotOrder) (patches : Array Patch) :
    (order.permutation patches).size = patches.size % UInt32.size := by
  cases order with
  | byIdentity => exact inPlace_size _
  | byPatch => exact grouped_size _

theorem Made.lawful {permutation : Permutation} (h : Made permutation) : Lawful permutation := by
  cases h with
  | inPlace n => exact lawful_inPlace n
  | ofIdentities size_le made => exact lawful_ofIdentities size_le made
  | @assigned force patches reorder permutation made =>
    rw [assign_eq] at made
    exact Except.ok.inj made ▸ lawful_chosen _ patches

end Permutation

end MeshLayout
