import MeshLayout.Proofs.Permutation
import Mathlib.Data.Set.Finite.Basic
import Mathlib.Order.Interval.Set.Infinite

/-!
# Checking one table against the other

The check of a permutation follows every identity to its slot and back, and no slot to its
identity. That is enough: a table that can be undone repeats no entry, and a table that stays
below its own size and repeats no entry leaves nothing below it out, so that every slot is on the
way of some identity.
-/

set_option autoImplicit false

namespace MeshLayout

namespace Permutation

def below (size : Nat) : Set UInt32 := {word | word.toNat < size}

/-- The tables are as long as each other, each is a one-to-one map of the numbers of its entries
onto themselves, and each undoes the other. -/
structure Inverse (permutation : Permutation) : Prop where
  sizes : permutation.slots.size = permutation.identities.size
  slots : Set.BijOn permutation.slotOf (below permutation.size) (below permutation.size)
  identities : Set.BijOn permutation.identityOf (below permutation.size) (below permutation.size)
  slotOf_identityOf : ∀ slot ∈ below permutation.size,
    (permutation.identityOf? slot).bind permutation.slotOf? = some slot
  identityOf_slotOf : ∀ identity ∈ below permutation.size,
    (permutation.slotOf? identity).bind permutation.identityOf? = some identity

@[simp] theorem mem_below {word : UInt32} {size : Nat} : word ∈ below size ↔ word.toNat < size :=
  Iff.rfl

theorem below_finite (size : Nat) : (below size).Finite :=
  (Set.finite_lt_nat size).preimage (fun _ _ _ _ h => UInt32.toNat_inj.mp h)

section Check

variable {permutation : Permutation}

theorem entries_iff (hsize : permutation.size ≤ UInt32.size) :
    (∀ (i : Nat) (slot : Slot), permutation.slots[i]? = some slot →
        permutation.identities[slot.toNat]? = some i.toUInt32) ↔
      ∀ identity ∈ below permutation.size,
        permutation.identityOf? (permutation.slotOf identity) = some identity := by
  constructor
  · intro h identity hidentity
    have hentry := h identity.toNat _ (slotOf?_eq hidentity)
    rwa [toUInt32_toNat] at hentry
  · intro h i slot hslot
    have hlt : i < permutation.size := (Array.getElem?_eq_some_iff.mp hslot).1
    have hword : i.toUInt32.toNat = i := toNat_toUInt32 (by omega)
    have hfound := h i.toUInt32 (mem_below.mpr (by rwa [hword]))
    have hentry : permutation.slotOf? i.toUInt32 = some slot := by rwa [slotOf?, hword]
    rwa [slotOf, hentry] at hfound

variable (hsizes : permutation.slots.size = permutation.identities.size)
  (hback : ∀ identity ∈ below permutation.size,
    permutation.identityOf? (permutation.slotOf identity) = some identity)

include hback in
theorem identityOf_leftInvOn :
    Set.LeftInvOn permutation.identityOf permutation.slotOf (below permutation.size) := by
  intro identity hidentity
  rw [identityOf, hback identity hidentity, Option.getD_some]

include hsizes hback in
theorem slotOf_mapsTo :
    Set.MapsTo permutation.slotOf (below permutation.size) (below permutation.size) := by
  intro identity hidentity
  have hlt := (Array.getElem?_eq_some_iff.mp (hback identity hidentity)).1
  rwa [← hsizes] at hlt

include hsizes hback in
/-- The first table repeats nothing and stays below its size, so it leaves nothing out. -/
theorem slotOf_bijOn :
    Set.BijOn permutation.slotOf (below permutation.size) (below permutation.size) :=
  ((below_finite _).injOn_iff_bijOn_of_mapsTo (slotOf_mapsTo hsizes hback)).mp
    (identityOf_leftInvOn hback).injOn

include hsizes hback in
theorem inverse_of_back : permutation.Inverse := by
  have hslots := slotOf_bijOn hsizes hback
  have hleft := identityOf_leftInvOn hback
  have hright : Set.LeftInvOn permutation.slotOf permutation.identityOf (below permutation.size) :=
    hslots.surjOn.leftInvOn_of_rightInvOn hleft
  have hidentities := hslots.symm ⟨hright, hleft⟩
  refine ⟨hsizes, hslots, hidentities, fun slot hslot => ?_, fun identity hidentity => ?_⟩
  · have hfound : permutation.identityOf? slot = some (permutation.identityOf slot) := by
      have hlt : slot.toNat < permutation.identities.size := hsizes ▸ hslot
      rw [identityOf, identityOf?, Array.getElem?_eq_getElem hlt, Option.getD_some]
    rw [hfound, Option.bind_some, slotOf?_eq (hidentities.mapsTo hslot), hright hslot]
  · rw [slotOf?_eq hidentity, Option.bind_some, hback identity hidentity]

end Check

theorem Lawful.inverse {permutation : Permutation} (hp : permutation.Lawful) :
    permutation.Inverse :=
  inverse_of_back hp.sizes.symm fun _ hidentity => hp.identityOf_slotOf (slotOf?_eq hidentity)

/-- The check passes exactly for tables that undo each other. -/
theorem validate_iff_inverse (permutation : Permutation)
    (hsize : permutation.size ≤ UInt32.size) :
    permutation.validate = .ok () ↔ permutation.Inverse := by
  rw [validate_eq_ok, entries_iff hsize]
  constructor
  · rintro ⟨hsizes, hback⟩
    exact inverse_of_back hsizes hback
  · intro h
    refine ⟨h.sizes, fun identity hidentity => ?_⟩
    have hfound := h.identityOf_slotOf identity hidentity
    rwa [slotOf?_eq hidentity, Option.bind_some] at hfound

theorem validate_cycle :
    size ⟨#[2, 0, 1], #[1, 2, 0], false⟩ ≤ UInt32.size ∧
      Inverse ⟨#[2, 0, 1], #[1, 2, 0], false⟩ ∧ ¬Inverse ⟨#[2, 0, 2], #[1, 2, 0], false⟩ := by
  refine ⟨by decide, (validate_iff_inverse _ (by decide)).mp rfl, fun h => ?_⟩
  have hpassed := (validate_iff_inverse _ (by decide)).mpr h
  exact absurd hpassed (by decide)

end Permutation

end MeshLayout
