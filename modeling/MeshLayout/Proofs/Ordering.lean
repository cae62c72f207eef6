import MeshLayout.Proofs.Permutation

/-!
# Orders of identities

An order of identities makes a permutation if it names each of its numbers once. Placing the
identities one by one stops at the first slot whose identity is out of range or has been placed
before; no slot is left open when it does not stop, since as many identities as there are slots
then have different ones.
-/

set_option autoImplicit false

namespace MeshLayout

namespace Permutation

inductive Misplaced (order : Array Identity) (slot : Nat) : PermutationIssue → Prop
  | outOfRange {identity : Identity} (entry : order[slot]? = some identity)
      (range : order.size ≤ identity.toNat) :
      Misplaced order slot (.outOfRange identity order.size)
  | repeated {identity : Identity} {earlier : Nat} (entry : order[slot]? = some identity)
      (before : earlier < slot) (placed : order[earlier]? = some identity) :
      Misplaced order slot (.repeated identity earlier.toUInt32 slot)

/-- The permutation holds the identities of an order in its slots, and looks up each in both
directions. -/
structure Stores (permutation : Permutation) (order : Array Identity) : Prop where
  identities : permutation.identities = order
  size : permutation.size = order.size
  slot : ∀ identity : Identity, identity.toNat < order.size → ∃ slot : Slot,
    slot.toNat < order.size ∧ permutation.slotOf? identity = some slot ∧
      permutation.identityOf? slot = some identity
  identity : ∀ slot : Slot, slot.toNat < order.size → ∃ identity : Identity,
    identity.toNat < order.size ∧ permutation.identityOf? slot = some identity ∧
      permutation.slotOf? identity = some slot
  isIdentity : permutation.isIdentity = true ↔
    ∀ slot < order.size, order[slot]? = some slot.toUInt32
  findSlot : ∀ identity, (∃ slot, permutation.findSlot identity = .ok slot) ↔
    identity.toNat < order.size
  findSlot_eq : ∀ identity slot, permutation.findSlot identity = .ok slot ↔
    permutation.slotOf? identity = some slot
  findIdentity : ∀ slot, (∃ identity, permutation.findIdentity slot = .ok identity) ↔
    slot.toNat < order.size
  findIdentity_eq : ∀ slot identity, permutation.findIdentity slot = .ok identity ↔
    permutation.identityOf? slot = some identity

section Lookups

variable {permutation : Permutation} {identity : Identity} {slot : Slot}

theorem findSlot_eq_ok :
    permutation.findSlot identity = .ok slot ↔ permutation.slotOf? identity = some slot := by
  rw [findSlot]
  cases permutation.slotOf? identity with
  | none => exact ⟨fun h => (nomatch h), fun h => (nomatch h)⟩
  | some other => rw [Except.ok.injEq, Option.some.injEq]

theorem findIdentity_eq_ok :
    permutation.findIdentity slot = .ok identity ↔
      permutation.identityOf? slot = some identity := by
  rw [findIdentity]
  cases permutation.identityOf? slot with
  | none => exact ⟨fun h => (nomatch h), fun h => (nomatch h)⟩
  | some other => rw [Except.ok.injEq, Option.some.injEq]

namespace Lawful

theorem isIdentity_iff_entries (hp : permutation.Lawful) : permutation.isIdentity = true ↔
    ∀ slot < permutation.size, permutation.identities[slot]? = some slot.toUInt32 := by
  have hsize := hp.size_le
  rw [hp.isIdentity_iff]
  constructor
  · intro h slot hslot
    have hword : slot.toUInt32.toNat = slot := toNat_toUInt32 (by omega)
    have hown := h slot.toUInt32 (hword.symm ▸ hslot)
    rwa [identityOf?, hword] at hown
  · intro h slot hslot
    have hown := h slot.toNat hslot
    rwa [toUInt32_toNat] at hown

theorem stores (hp : permutation.Lawful) : permutation.Stores permutation.identities where
  identities := rfl
  size := hp.sizes.symm
  slot := by
    intro identity hidentity
    rw [hp.sizes] at hidentity ⊢
    exact ⟨_, hp.slotOf_lt hidentity, slotOf?_eq hidentity,
      hp.identityOf_slotOf (slotOf?_eq hidentity)⟩
  identity := by
    intro slot hslot
    rw [hp.sizes] at hslot ⊢
    exact ⟨_, hp.identityOf_lt hslot, hp.identityOf?_eq hslot,
      hp.slotOf_identityOf (hp.identityOf?_eq hslot)⟩
  isIdentity := by
    rw [hp.sizes]
    exact hp.isIdentity_iff_entries
  findSlot := by
    intro identity
    simp only [findSlot_eq_ok]
    rw [hp.sizes]
    constructor
    · rintro ⟨slot, hslot⟩
      exact (Array.getElem?_eq_some_iff.mp hslot).1
    · exact fun h => ⟨_, slotOf?_eq h⟩
  findSlot_eq := fun _ _ => findSlot_eq_ok
  findIdentity := by
    intro slot
    simp only [findIdentity_eq_ok]
    constructor
    · rintro ⟨identity, hidentity⟩
      exact (Array.getElem?_eq_some_iff.mp hidentity).1
    · exact fun h => ⟨_, hp.identityOf?_eq (hp.sizes ▸ h)⟩
  findIdentity_eq := fun _ _ => findIdentity_eq_ok

end Lawful

end Lookups

section Place

variable {order : Array Identity} {slots : Array Slot} {done rest : List Identity}
  {first : Identity}

/-- The identities of the slots below `start` are placed, and nothing is wrong with them. -/
structure Placed (order : Array Identity) (start : Nat) (slots : Array Slot) : Prop where
  size : slots.size = order.size
  free : ∀ identity : Identity, slots[identity.toNat]? = some unplaced →
    ∀ earlier < start, order[earlier]? ≠ some identity
  taken : ∀ (identity : Identity) (slot : Slot), slots[identity.toNat]? = some slot →
    slot ≠ unplaced → ∃ earlier < start, order[earlier]? = some identity ∧
      slot = earlier.toUInt32
  sound : ∀ earlier < start, ∀ issue, ¬Misplaced order earlier issue

theorem Placed.start (order : Array Identity) :
    Placed order 0 (Array.replicate order.size unplaced) where
  size := Array.size_replicate
  free := fun _ _ earlier hearlier => absurd hearlier (Nat.not_lt_zero earlier)
  taken := by
    intro identity slot hslot hplaced
    obtain ⟨_, hentry⟩ := Array.getElem?_eq_some_iff.mp hslot
    rw [Array.getElem_replicate] at hentry
    exact absurd hentry.symm hplaced
  sound := fun earlier hearlier => absurd hearlier (Nat.not_lt_zero earlier)

theorem Placed.next {start : Nat} (hsize : order.size < UInt32.size)
    (h : Placed order start slots) (hentry : order[start]? = some first)
    (hfree : slots[first.toNat]? = some unplaced) :
    Placed order (start + 1) (slots.setIfInBounds first.toNat start.toUInt32) := by
  obtain ⟨hstart, -⟩ := Array.getElem?_eq_some_iff.mp hentry
  obtain ⟨hfirst, -⟩ := Array.getElem?_eq_some_iff.mp hfree
  have hhere : (slots.setIfInBounds first.toNat start.toUInt32)[first.toNat]? =
      some start.toUInt32 := Array.getElem?_setIfInBounds_self_of_lt hfirst
  have hthere : ∀ identity : Identity, identity ≠ first →
      (slots.setIfInBounds first.toNat start.toUInt32)[identity.toNat]? =
        slots[identity.toNat]? := fun identity hne =>
    Array.getElem?_setIfInBounds_ne fun heq => hne (UInt32.toNat_inj.mp heq.symm)
  constructor
  · rw [Array.size_setIfInBounds, h.size]
  · intro identity hopen earlier hearlier hplaced
    by_cases hsame : identity = first
    · rw [hsame, hhere] at hopen
      exact toUInt32_ne_unplaced (by omega) (Option.some.inj hopen)
    · rw [hthere identity hsame] at hopen
      rcases Nat.lt_succ_iff_lt_or_eq.mp hearlier with hlt | rfl
      · exact h.free identity hopen earlier hlt hplaced
      · exact hsame (Option.some.inj (hplaced.symm.trans hentry))
  · intro identity slot hslot hplaced
    by_cases hsame : identity = first
    · rw [hsame, hhere] at hslot
      exact ⟨start, Nat.lt_succ_self _, hsame ▸ hentry, (Option.some.inj hslot).symm⟩
    · rw [hthere identity hsame] at hslot
      obtain ⟨earlier, hearlier, hholds⟩ := h.taken identity slot hslot hplaced
      exact ⟨earlier, Nat.lt_succ_of_lt hearlier, hholds⟩
  · intro earlier hearlier issue hmisplaced
    rcases Nat.lt_succ_iff_lt_or_eq.mp hearlier with hlt | rfl
    · exact h.sound earlier hlt issue hmisplaced
    · cases hmisplaced with
      | outOfRange entry range =>
        obtain rfl := Option.some.inj (entry.symm.trans hentry)
        have := h.size
        omega
      | repeated entry before placed =>
        obtain rfl := Option.some.inj (entry.symm.trans hentry)
        exact h.free _ hfree _ before placed

theorem Placed.place_error (hsize : order.size < UInt32.size) (h : Placed order done.length slots)
    (horder : order.toList = done ++ rest) {error : Error}
    (herror : place rest done.length slots = .error error) :
    ∃ slot issue, error = .permutation issue ∧ Misplaced order slot issue ∧
      ∀ earlier < slot, ∀ other, ¬Misplaced order earlier other := by
  induction rest generalizing done slots with
  | nil => cases herror
  | cons first rest ih =>
    have hentry : order[done.length]? = some first := by
      rw [← Array.getElem?_toList, horder, List.getElem?_append_right (Nat.le_refl _), Nat.sub_self]
      rfl
    rw [place] at herror
    split at herror
    · next hnone =>
      cases herror
      have hrange : order.size ≤ first.toNat := by
        rw [← h.size]
        exact Array.getElem?_eq_none_iff.mp hnone
      rw [h.size]
      exact ⟨_, _, rfl, .outOfRange hentry hrange, h.sound⟩
    · next previous hprevious =>
      split at herror
      · next hopen =>
        have hnext := h.next hsize hentry (hopen ▸ hprevious)
        have hlength : (done ++ [first]).length = done.length + 1 := List.length_append
        have horder : order.toList = done ++ [first] ++ rest := by
          rw [horder, List.append_assoc, List.singleton_append]
        rw [← hlength] at hnext herror
        exact ih hnext horder herror
      · next hplaced =>
        cases herror
        obtain ⟨earlier, hearlier, hholds, rfl⟩ := h.taken first previous hprevious hplaced
        exact ⟨_, _, rfl, .repeated hentry hearlier hholds, h.sound⟩

theorem ofIdentities_error (hsize : order.size < UInt32.size) {error : Error}
    (h : ofIdentities order = .error error) : ∃ slot issue, error = .permutation issue ∧
      Misplaced order slot issue ∧ ∀ earlier < slot, ∀ other, ¬Misplaced order earlier other := by
  rcases bind_eq_error.mp h with hplace | ⟨_, -, hmade⟩
  · have hstart : Placed order ([] : List Identity).length _ := .start order
    exact hstart.place_error hsize rfl hplace
  · cases hmade

end Place

section Accepted

variable {order : Array Identity} {permutation other : Permutation}

theorem identities_ofIdentities (h : ofIdentities order = .ok permutation) :
    permutation.identities = order := by
  obtain ⟨_, -, hmade⟩ := bind_eq_ok.mp h
  cases hmade
  rfl

theorem numbers_eq {n : Nat} (h : n < UInt32.size) :
    numbers n = (List.range n).map Nat.toUInt32 := by
  rw [numbers, Nat.mod_eq_of_lt h]

theorem Lawful.perm_numbers (hp : permutation.Lawful) (hsize : permutation.size < UInt32.size) :
    permutation.identities.toList.Perm (numbers permutation.size) := by
  have hentries : (List.range permutation.size).map
      (fun slot => (permutation.identityOf slot.toUInt32).toNat) =
        permutation.identities.toList.map UInt32.toNat := by
    apply List.ext_getElem
    · simp [hp.sizes]
    · intro slot hslot _
      rw [List.length_map, List.length_range] at hslot
      have hword : slot.toUInt32.toNat = slot := toNat_toUInt32 (by omega)
      have hentry := hp.identityOf?_eq (hword.symm ▸ hslot)
      rw [identityOf?, hword, Array.getElem?_eq_getElem (hp.sizes ▸ hslot)] at hentry
      simp [Option.some.inj hentry]
  have hback : Nat.toUInt32 ∘ UInt32.toNat = id := funext toUInt32_toNat
  have hperm := hp.identities_perm.map Nat.toUInt32
  rwa [hentries, List.map_map, hback, List.map_id, ← numbers_eq hsize] at hperm

theorem Lawful.ext (hp : permutation.Lawful) (hother : other.Lawful)
    (h : permutation.identities = other.identities) : permutation = other := by
  have hsize : permutation.size = other.size := by rw [← hp.sizes, h, hother.sizes]
  have hslots : permutation.slots = other.slots := by
    apply Array.ext (by exact hsize)
    intro i hi _
    have hword : i.toUInt32.toNat = i := toNat_toUInt32 (Nat.lt_of_lt_of_le hi hp.size_le)
    have hslot : permutation.slotOf? i.toUInt32 = some permutation.slots[i] := by
      rw [slotOf?, hword, Array.getElem?_eq_getElem hi]
    have hidentity := hp.identityOf_slotOf hslot
    rw [identityOf?, h] at hidentity
    have hsame := hother.slotOf_identityOf hidentity
    rw [slotOf?, hword] at hsame
    exact (Array.getElem?_eq_some_iff.mp hsame).2.symm
  have hflag : permutation.isIdentity = other.isIdentity := by
    rw [Bool.eq_iff_iff, hp.isIdentity_iff_entries, hother.isIdentity_iff_entries, hsize, h]
  cases permutation
  cases other
  cases h
  cases hslots
  cases hflag
  rfl

/-- An order of as many identities as it has numbers misses none if it repeats none. -/
theorem perm_numbers_iff (hsize : order.size < UInt32.size) :
    order.toList.Perm (numbers order.size) ↔ ∀ i < order.size, order.count i.toUInt32 = 1 := by
  have hlength : (numbers order.size).length = order.toList.length := by
    rw [numbers_length_of_lt hsize, Array.length_toList]
  have hmem : ∀ i < order.size, i.toUInt32 ∈ numbers order.size := by
    intro i hi
    rwa [mem_numbers_of_lt hsize, toNat_toUInt32 (by omega)]
  constructor
  · intro h i hi
    rw [← Array.count_toList, h.count_eq]
    exact List.count_eq_one_of_mem (numbers_nodup _) (hmem i hi)
  · intro h
    have hsubset : numbers order.size ⊆ order.toList := by
      intro word hword
      have hcount := h word.toNat ((mem_numbers_of_lt hsize).mp hword)
      rw [toUInt32_toNat, ← Array.count_toList] at hcount
      exact List.count_pos_iff.mp (by omega)
    exact (((numbers_nodup _).subperm hsubset).perm_of_length_le (Nat.le_of_eq hlength.symm)).symm

theorem not_misplaced (hsize : order.size < UInt32.size)
    (h : order.toList.Perm (numbers order.size)) (slot : Nat) (issue : PermutationIssue) :
    ¬Misplaced order slot issue := by
  rintro (⟨entry, range⟩ | ⟨entry, before, placed⟩)
  · have hmem := h.mem_iff.mp (Array.mem_toList_iff.mpr (Array.mem_of_getElem? entry))
    rw [mem_numbers_of_lt hsize] at hmem
    omega
  · rw [← Array.getElem?_toList] at entry placed
    obtain ⟨hlt, -⟩ := List.getElem?_eq_some_iff.mp placed
    have hnodup := h.nodup_iff.mpr (numbers_nodup _)
    have heq := (List.getElem?_inj hlt hnodup).mp (placed.trans entry.symm)
    omega

theorem ofIdentities_total (hsize : order.size < UInt32.size) :
    (∃ permutation, ofIdentities order = .ok permutation) ↔
      order.toList.Perm (numbers order.size) := by
  constructor
  · rintro ⟨permutation, h⟩
    have hlawful := lawful_ofIdentities (Nat.le_of_lt hsize) h
    obtain rfl := identities_ofIdentities h
    rw [hlawful.sizes] at hsize ⊢
    exact hlawful.perm_numbers hsize
  · intro hperm
    cases h : ofIdentities order with
    | ok permutation => exact ⟨permutation, rfl⟩
    | error error =>
      obtain ⟨slot, issue, -, hmisplaced, -⟩ := ofIdentities_error hsize h
      exact absurd hmisplaced (not_misplaced hsize hperm slot issue)

/-- An order makes a permutation if it names each of its numbers once. The permutation stores it;
otherwise the first misplaced identity is named. -/
theorem ofIdentities_accepts (size_lt : order.size < UInt32.size) :
    ((∃ permutation, ofIdentities order = .ok permutation) ↔
      ∀ i < order.size, order.count i.toUInt32 = 1) ∧
    (∀ permutation, ofIdentities order = .ok permutation → permutation.Stores order) ∧
    ∀ error, ofIdentities order = .error error → ∃ slot issue, error = .permutation issue ∧
      Misplaced order slot issue ∧ ∀ earlier < slot, ∀ other, ¬Misplaced order earlier other := by
  refine ⟨(ofIdentities_total size_lt).trans (perm_numbers_iff size_lt), fun permutation h => ?_,
    fun error => ofIdentities_error size_lt⟩
  have hstores := (lawful_ofIdentities (Nat.le_of_lt size_lt) h).stores
  rwa [identities_ofIdentities h] at hstores

theorem ofIdentities_accepts_repeated :
    (∃ permutation, ofIdentities #[2, 0, 1] = .ok permutation ∧ permutation.Stores #[2, 0, 1]) ∧
    ofIdentities #[1, 0, 1, 7] = .error (.permutation (.repeated 1 0 2)) ∧
    ∃ slot, Misplaced #[1, 0, 1, 7] slot (.repeated 1 0 2) ∧
      ∀ earlier < slot, ∀ other, ¬Misplaced #[1, 0, 1, 7] earlier other := by
  obtain ⟨haccepted, hstores, -⟩ := ofIdentities_accepts (show #[2, 0, 1].size < _ by decide)
  obtain ⟨-, -, hrefused⟩ := ofIdentities_accepts (show #[1, 0, 1, 7].size < _ by decide)
  have herror : ofIdentities #[1, 0, 1, 7] = .error (.permutation (.repeated 1 0 2)) := by decide
  obtain ⟨permutation, hmade⟩ := haccepted.mpr (by decide)
  obtain ⟨slot, issue, heq, hmisplaced, hfirst⟩ := hrefused _ herror
  cases heq
  exact ⟨⟨permutation, hmade, hstores _ hmade⟩, herror, slot, hmisplaced, hfirst⟩

end Accepted

end Permutation

end MeshLayout
