import MeshLayout.Proofs.Inversion
import MeshLayout.Proofs.Kernel.Handles
import MeshLayout.Proofs.Kernel.Layout

/-!
# Cells of elements

The cells of a bound field belong to its elements, each to one element and one component. An element
that has a slot or an identity in range is found by it, one that has none is found nowhere in the
field, and it does not matter which of the two an own field is addressed by. Two elements of the
kind that a kernel runs over have different identities, so that overwriting each its own element
they stay off each other's cells, in fields of the mesh, of other meshes and in loose fields.
-/

set_option autoImplicit false

namespace MeshLayout

theorem toNat_bijOn {size : Nat} (h : size ≤ UInt32.size) :
    Set.BijOn UInt32.toNat (Permutation.below size) (Set.Iio size) := by
  refine ⟨fun _ hword => hword, fun _ _ _ _ hsame => UInt32.toNat_inj.mp hsame, fun n hn => ?_⟩
  have hword : n.toUInt32.toNat = n := toNat_toUInt32 (Nat.lt_of_lt_of_le hn h)
  exact ⟨n.toUInt32, Permutation.mem_below.mpr (by rwa [hword]), hword⟩

namespace Binding

/-- The forms in which a binding takes a word for an element. Only fields of the own mesh can be
addressed by slot. -/
inductive Takes (binding : Binding) : (UInt32 → Address) → Prop
  | slot {permutation : Permutation} (own : binding.addressing = .own permutation) :
      Takes binding .slot
  | identity : Takes binding .identity

def Spans (binding : Binding) (size : Nat) : Prop :=
  ∀ permutation, binding.addressing.permutation? = some permutation →
    permutation.Lawful ∧ size = permutation.size

/-- How a binding finds the cells of a field of so many elements: one for each component of an
element, whatever the form of the address. What is addressed beyond the elements is out of bounds,
and there is no other way to a cell within bounds. -/
structure Locates (binding : Binding) (size : Nat) : Prop where
  cells : ∀ form, binding.Takes form →
    Set.BijOn (fun place : UInt32 × Nat => binding.cellIndex (form place.1) place.2)
      (Permutation.below size ×ˢ Set.Iio binding.type.components)
      (Except.ok '' Set.Iio (size * binding.type.components))
  same : ∀ permutation, binding.addressing = .own permutation →
    ∀ slot ∈ Permutation.below size, ∃ identity, permutation.identityOf? slot = some identity ∧
      ∀ component, binding.cellIndex (.slot slot) component =
        binding.cellIndex (.identity identity) component
  beyond : ∀ form, binding.Takes form → ∀ word : UInt32, size ≤ word.toNat →
    ∀ component < binding.type.components,
      binding.cellIndex (form word) component = Outcome.fault .outOfBounds ∨
        ∃ index, binding.cellIndex (form word) component = .ok index ∧
          size * binding.type.components ≤ index
  within : ∀ address component index, binding.cellIndex address component = .ok index →
    index < size * binding.type.components → ∃ form word, binding.Takes form ∧
      address = form word ∧ word ∈ Permutation.below size ∧ component < binding.type.components

variable {binding other : Binding} {size : Nat}

section Elements

variable {form : UInt32 → Address}

theorem elementIndex_own {permutation : Permutation} (h : binding.addressing = .own permutation)
    (slot : Slot) : binding.elementIndex (.slot slot) = .ok slot.toNat := by
  rw [elementIndex, h]

theorem elementIndex_bijOn_of {place : UInt32 → UInt32} (hsize : size ≤ UInt32.size)
    (hplace : Set.BijOn place (Permutation.below size) (Permutation.below size))
    (h : ∀ word ∈ Permutation.below size,
      binding.elementIndex (form word) = .ok (place word).toNat) :
    Set.BijOn (fun word => binding.elementIndex (form word)) (Permutation.below size)
      (Except.ok '' Set.Iio size) := by
  have hok : Set.BijOn (Except.ok : Nat → Outcome Nat) (Set.Iio size) (Except.ok '' Set.Iio size) :=
    Set.InjOn.bijOn_image fun _ _ _ _ hsame => Except.ok.inj hsame
  refine ((hok.comp (toNat_bijOn hsize)).comp hplace).congr fun word hword => ?_
  exact (h word hword).symm

theorem elementIndex_bijOn (hspans : binding.Spans size) (hsize : size ≤ UInt32.size)
    (htakes : binding.Takes form) :
    Set.BijOn (fun word => binding.elementIndex (form word)) (Permutation.below size)
      (Except.ok '' Set.Iio size) := by
  cases htakes with
  | slot own =>
    exact elementIndex_bijOn_of hsize (Set.bijOn_id _) fun word _ => elementIndex_own own word
  | identity =>
    cases hpermutation : binding.addressing.permutation? with
    | none =>
      refine elementIndex_bijOn_of hsize (Set.bijOn_id _) fun word _ => ?_
      rw [elementIndex_identity, hpermutation, id]
    | some permutation =>
      obtain ⟨hown, rfl⟩ := hspans permutation hpermutation
      refine elementIndex_bijOn_of hsize hown.inverse.slots fun word hword => ?_
      rw [elementIndex_identity, hpermutation]
      simp only [Permutation.slotOf?_eq hword, Outcome.ofLookup_some, ok_bind]

theorem elementIndex_identity_inj
    (hlawful : ∀ permutation, binding.addressing.permutation? = some permutation →
      permutation.Lawful)
    (hsame : other.addressing.permutation? = binding.addressing.permutation?)
    {identity again : Identity} {element : Nat}
    (h : binding.elementIndex (.identity identity) = .ok element)
    (hagain : other.elementIndex (.identity again) = .ok element) : identity = again := by
  rw [elementIndex_identity] at h hagain
  rw [hsame] at hagain
  cases hpermutation : binding.addressing.permutation? with
  | none =>
    simp only [hpermutation, Except.ok.injEq] at h hagain
    exact UInt32.toNat_inj.mp (h.trans hagain.symm)
  | some permutation =>
    simp only [hpermutation, Outcome.ofLookup_bind_eq_ok, Except.ok.injEq] at h hagain
    obtain ⟨slot, hslot, rfl⟩ := h
    obtain ⟨there, hthere, heq⟩ := hagain
    obtain rfl := UInt32.toNat_inj.mp heq
    have hown := hlawful permutation hpermutation
    exact Option.some.inj
      ((hown.identityOf_slotOf hslot).symm.trans (hown.identityOf_slotOf hthere))

end Elements

section Cells

variable {form : UInt32 → Address} {address : Address} {component element : Nat}

theorem cellIndex_of_element (hcomponent : component < binding.type.components)
    (helement : binding.elementIndex address = .ok element)
    (hroom : element * binding.type.components + component < indexLimit) :
    binding.cellIndex address component =
      .ok (element * binding.type.components + component) := by
  rw [cellIndex, if_pos hcomponent, helement, ok_bind]
  exact Outcome.index_eq_ok.mpr ⟨hroom, rfl⟩

theorem cellIndex_inj {otherAddress : Address} {otherComponent index : Nat}
    (htype : other.type = binding.type) (h : binding.cellIndex address component = .ok index)
    (hother : other.cellIndex otherAddress otherComponent = .ok index) :
    binding.elementIndex address = other.elementIndex otherAddress ∧
      component = otherComponent := by
  obtain ⟨hcomponent, element, helement, rfl⟩ := cellIndex_eq_ok h
  obtain ⟨hthere, there, hfound, hsame⟩ := cellIndex_eq_ok hother
  rw [htype] at hthere hsame
  constructor
  · have hdiv := congrArg (· / binding.type.components) hsame
    simp only [Cells.number_div _ hcomponent, Cells.number_div _ hthere] at hdiv
    rw [helement, hfound, hdiv]
  · have hmod := congrArg (· % binding.type.components) hsame
    simpa only [Cells.number_mod _ hcomponent, Cells.number_mod _ hthere] using hmod

variable (hroom : size * binding.type.components ≤ indexLimit)
  (helements : Set.BijOn (fun word => binding.elementIndex (form word)) (Permutation.below size)
    (Except.ok '' Set.Iio size))

include hroom helements in
theorem cellIndex_mapsTo :
    Set.MapsTo (fun place : UInt32 × Nat => binding.cellIndex (form place.1) place.2)
      (Permutation.below size ×ˢ Set.Iio binding.type.components)
      (Except.ok '' Set.Iio (size * binding.type.components)) := by
  rintro ⟨word, component⟩ ⟨hword, hcomponent⟩
  obtain ⟨element, hlt, helement⟩ := helements.mapsTo hword
  have hin := Cells.number_lt hlt hcomponent
  have hcell := cellIndex_of_element hcomponent helement.symm (Nat.lt_of_lt_of_le hin hroom)
  exact ⟨_, hin, hcell.symm⟩

include hroom helements in
theorem cellIndex_injOn :
    Set.InjOn (fun place : UInt32 × Nat => binding.cellIndex (form place.1) place.2)
      (Permutation.below size ×ˢ Set.Iio binding.type.components) := by
  rintro ⟨word, component⟩ hplace ⟨otherWord, otherComponent⟩ hother hsame
  obtain ⟨index, -, hindex⟩ := cellIndex_mapsTo hroom helements hplace
  obtain ⟨helement, rfl⟩ := cellIndex_inj rfl hindex.symm (hsame.symm.trans hindex.symm)
  obtain rfl := helements.injOn hplace.1 hother.1 helement
  rfl

include hroom helements in
theorem cellIndex_surjOn :
    Set.SurjOn (fun place : UInt32 × Nat => binding.cellIndex (form place.1) place.2)
      (Permutation.below size ×ˢ Set.Iio binding.type.components)
      (Except.ok '' Set.Iio (size * binding.type.components)) := by
  rintro _ ⟨index, hindex, rfl⟩
  have hpos := Cells.components_pos hindex
  have hlt : index / binding.type.components < size :=
    Nat.div_lt_of_lt_mul (Nat.mul_comm _ _ ▸ hindex)
  have hcomponent := Nat.mod_lt index hpos
  obtain ⟨word, hword, helement⟩ := helements.surjOn ⟨_, hlt, rfl⟩
  have hcell := cellIndex_of_element hcomponent helement
  rw [Nat.div_add_mod'] at hcell
  exact ⟨⟨word, _⟩, ⟨hword, hcomponent⟩, hcell (Nat.lt_of_lt_of_le hindex hroom)⟩

end Cells

section Beyond

variable {form : UInt32 → Address} {component : Nat}

theorem cellIndex_own {permutation : Permutation} (h : binding.addressing = .own permutation)
    (hlawful : permutation.Lawful) {slot : Slot} {identity : Identity}
    (hidentity : permutation.identityOf? slot = some identity) (component : Nat) :
    binding.cellIndex (.slot slot) component =
      binding.cellIndex (.identity identity) component := by
  have hsame : binding.elementIndex (.identity identity) = .ok slot.toNat := by
    rw [elementIndex_identity, h]
    simp only [Addressing.permutation?, hlawful.slotOf_identityOf hidentity,
      Outcome.ofLookup_some, ok_bind]
  rw [cellIndex, cellIndex, elementIndex_own h, hsame]

theorem cellIndex_far (hcomponents : binding.type.components < UInt32.size) {word : UInt32}
    (helement : binding.elementIndex (form word) = .ok word.toNat) (hword : size ≤ word.toNat)
    (hcomponent : component < binding.type.components) :
    ∃ index, binding.cellIndex (form word) component = .ok index ∧
      size * binding.type.components ≤ index := by
  have hin := Cells.number_lt word.toNat_lt hcomponent
  -- Elements and components are counted in words, so that their product is still an index.
  have hroom : 2 ^ 32 * binding.type.components ≤ indexLimit :=
    Nat.mul_le_mul_left (2 ^ 32) (Nat.le_of_lt hcomponents)
  have hcell := cellIndex_of_element hcomponent helement (Nat.lt_of_lt_of_le hin hroom)
  have hle := Nat.mul_le_mul_right binding.type.components hword
  exact ⟨_, hcell, Nat.le_add_right_of_le hle⟩

theorem cellIndex_beyond (hspans : binding.Spans size)
    (hcomponents : binding.type.components < UInt32.size) (htakes : binding.Takes form)
    {word : UInt32} (hword : size ≤ word.toNat) (hcomponent : component < binding.type.components) :
    binding.cellIndex (form word) component = Outcome.fault .outOfBounds ∨
      ∃ index, binding.cellIndex (form word) component = .ok index ∧
        size * binding.type.components ≤ index := by
  cases htakes with
  | slot own => exact .inr (cellIndex_far hcomponents (elementIndex_own own word) hword hcomponent)
  | identity =>
    cases hpermutation : binding.addressing.permutation? with
    | none =>
      refine .inr (cellIndex_far hcomponents ?_ hword hcomponent)
      rw [elementIndex_identity, hpermutation]
    | some permutation =>
      obtain ⟨-, rfl⟩ := hspans permutation hpermutation
      apply Or.inl
      rw [cellIndex, if_pos hcomponent, elementIndex_identity, hpermutation]
      simp only [Permutation.slotOf?_eq_none hword, Outcome.ofLookup_none]
      rfl

end Beyond

theorem Spans.locates (hspans : binding.Spans size)
    (hroom : size * binding.type.components ≤ indexLimit) (hsize : size ≤ UInt32.size)
    (hcomponents : binding.type.components < UInt32.size) : binding.Locates size where
  cells := by
    intro form htakes
    have helements := elementIndex_bijOn hspans hsize htakes
    exact ⟨cellIndex_mapsTo hroom helements, cellIndex_injOn hroom helements,
      cellIndex_surjOn hroom helements⟩
  same := by
    intro permutation hown slot hslot
    obtain ⟨hthere, rfl⟩ := hspans permutation (by rw [hown]; rfl)
    have hidentity := hthere.identityOf?_eq hslot
    exact ⟨_, hidentity, cellIndex_own hown hthere hidentity⟩
  beyond := fun form htakes word hword component =>
    cellIndex_beyond hspans hcomponents htakes hword
  within := by
    intro address component index hindex hin
    obtain ⟨hcomponent, element, helement, -⟩ := cellIndex_eq_ok hindex
    have hword : ∀ {form : UInt32 → Address} {word : UInt32}, binding.Takes form →
        address = form word → word ∈ Permutation.below size := by
      rintro form word htakes rfl
      refine Nat.lt_of_not_le fun hbeyond => ?_
      rcases cellIndex_beyond hspans hcomponents htakes hbeyond hcomponent with
        hfault | ⟨far, hfar, hout⟩
      · cases hindex.symm.trans hfault
      · cases hindex.symm.trans hfar
        omega
    cases address with
    | slot slot =>
      obtain ⟨⟨permutation, hown⟩, -⟩ := elementIndex_slot helement
      exact ⟨.slot, slot, .slot hown, rfl, hword (.slot hown) rfl, hcomponent⟩
    | identity identity =>
      exact ⟨.identity, identity, .identity, rfl, hword .identity rfl, hcomponent⟩

theorem Fits.locates {workspace : Workspace} (h : binding.Fits workspace)
    (hlaid : workspace.Laid) {field : Field}
    (hfield : workspace.field? binding.location = some field) (hsize : field.size ≤ UInt32.size)
    (hcomponents : binding.type.components < UInt32.size) : binding.Locates field.size := by
  have htype := h.type
  rw [hfield, Option.map_some, Option.some.injEq] at htype
  apply Spans.locates
  · intro permutation hpermutation
    obtain ⟨hlawful, hsizes⟩ := hlaid.permutation (h.permutation.trans hpermutation)
    exact ⟨hlawful, hsizes field hfield⟩
  · have hcolumn : workspace.column? binding.location = some field.column := by
      rw [Workspace.column?, hfield, Option.map_some]
    have hroom := hlaid.inMemory _ _ hcolumn
    have hcells : field.column.size = field.size * binding.type.components :=
      htype ▸ field.cells_size
    omega
  · exact hsize
  · exact hcomponents

end Binding

def Element.Keeps (element : Element) (request : Request) : Prop :=
  request.access = .write → request.address = .slot element.slot ∨
    ∃ identity, element.identity? = some identity ∧ request.address = .identity identity

namespace Kernel

def Overwrites (kernel : Kernel) (request : Request) (location : Location) (index : Nat) : Prop :=
  request.access = .write ∧ ∃ binding, kernel.bindings[request.binding]? = some binding ∧
    binding.access = .write ∧ binding.location = location ∧
      binding.cellIndex request.address request.component = .ok index

/-- Whatever the actions read, they do not overwrite the same cell. -/
def Separates {α β : Type} (kernel : Kernel) (first : Action α) (second : Action β) : Prop :=
  first.Each fun request => second.Each fun other => ∀ location index,
    ¬(kernel.Overwrites request location index ∧ kernel.Overwrites other location index)

end Kernel

namespace KernelDraft

variable {workspace : Workspace} {draft : KernelDraft} {log : Log} {config : Config}
  {kernel : Kernel}

theorem bindingOf?_eq_some {home : Nat} {mesh : Mesh} {entry : Call × Checked Handle}
    {binding : Binding} (h : bindingOf? home mesh entry = some binding) :
    ∃ source access, Source.target home mesh access source = .ok binding := by
  unfold bindingOf? at h
  split at h
  · next source scalar access answer =>
    cases hfound : source.target home mesh access with
    | error error =>
      rw [hfound] at h
      cases h
    | ok found =>
      rw [hfound] at h
      cases h
      exact ⟨source, access, hfound⟩
  · cases h

theorem Source.target_own {home : Nat} {mesh : Mesh} {access : Access} {source : Source}
    {binding : Binding} (h : source.target home mesh access = .ok binding)
    {permutation : Permutation} (hown : binding.addressing = .own permutation) :
    ∃ kind name, binding.location = .ofMesh home kind name ∧
      mesh.permutation kind = .ok permutation := by
  cases source with
  | own kind name =>
    obtain ⟨set, hset, h⟩ := bind_eq_ok.mp h
    obtain ⟨field, -, h⟩ := bind_eq_ok.mp h
    cases h
    cases hown
    refine ⟨kind, name, rfl, ?_⟩
    rw [Mesh.permutation, hset]
    rfl
  | foreign place other kind name =>
    obtain ⟨set, -, h⟩ := bind_eq_ok.mp h
    obtain ⟨field, -, h⟩ := bind_eq_ok.mp h
    cases h
    cases hown
  | loose place given =>
    cases h
    cases hown

namespace Logged

theorem own_permutation (logged : draft.Logged workspace log)
    (compiled : draft.compile config = .ok kernel) {binding : Binding}
    (hmem : binding ∈ kernel.bindings) (haccess : binding.access = .write)
    {permutation : Permutation} (hown : binding.addressing = .own permutation) :
    permutation = kernel.permutation := by
  obtain ⟨-, -, hpermutation, -, -, -, hbindings, -⟩ := compile_eq_ok compiled
  rw [hbindings] at hmem
  have hnear := logged.near hmem haccess
  have hlisted := Array.mem_toList_iff.mpr hmem
  rw [logged.recorded.bindings] at hlisted
  obtain ⟨entry, -, hentry⟩ := List.mem_filterMap.mp hlisted
  obtain ⟨source, access, htarget⟩ := bindingOf?_eq_some hentry
  obtain ⟨kind, name, hlocation, hthere⟩ := Source.target_own htarget hown
  rw [hlocation] at hnear
  obtain rfl : kind = draft.kind := Option.some.inj hnear
  exact Except.ok.inj (hthere.symm.trans hpermutation)

theorem cellIndex_keeps (logged : draft.Logged workspace log)
    (compiled : draft.compile config = .ok kernel) {binding : Binding}
    (hmem : binding ∈ kernel.bindings) (haccess : binding.access = .write) {slot : Slot}
    {identity : Identity} (hidentity : kernel.permutation.identityOf? slot = some identity)
    {request : Request} (hkeeps : (kernel.element slot).Keeps request)
    (hwrite : request.access = .write) {index : Nat}
    (hindex : binding.cellIndex request.address request.component = .ok index) :
    binding.cellIndex (.identity identity) request.component = .ok index := by
  obtain ⟨hlawful, -⟩ := compile_size logged.declared.bound compiled
  rcases hkeeps hwrite with haddress | ⟨same, hsame, haddress⟩
  · rw [haddress] at hindex
    obtain ⟨-, element, helement, -⟩ := Binding.cellIndex_eq_ok hindex
    obtain ⟨⟨permutation, hown⟩, -⟩ := Binding.elementIndex_slot helement
    obtain rfl := logged.own_permutation compiled hmem haccess hown
    exact (Binding.cellIndex_own hown hlawful hidentity _).symm.trans hindex
  · obtain rfl : same = identity := Option.some.inj (hsame.symm.trans hidentity)
    rwa [haddress] at hindex

theorem overwrites_inj (logged : draft.Logged workspace log)
    (compiled : draft.compile config = .ok kernel) {first second : Slot}
    (hfirst : first.toNat < kernel.permutation.size)
    (hsecond : second.toNat < kernel.permutation.size) {request other : Request}
    (hrequest : (kernel.element first).Keeps request) (hother : (kernel.element second).Keeps other)
    {location : Location} {index : Nat} (h : kernel.Overwrites request location index)
    (hagain : kernel.Overwrites other location index) : first = second := by
  obtain ⟨-, -, -, -, -, -, hbindings, -⟩ := compile_eq_ok compiled
  have hbound := logged.declared.bound
  obtain ⟨hlawful, -⟩ := compile_size hbound compiled
  obtain ⟨hwrite, binding, hbinding, haccess, hlocation, hindex⟩ := h
  obtain ⟨hwrites, again, hthere, haccesses, rfl, hindexes⟩ := hagain
  have hfits := hbound.bindings (hbindings ▸ hbinding)
  have hfitsAgain := hbound.bindings (hbindings ▸ hthere)
  -- Both elements are now addressed by identity, through bindings of one field.
  have hone := logged.cellIndex_keeps compiled (Array.mem_of_getElem? hbinding) haccess
    (hlawful.identityOf?_eq hfirst) hrequest hwrite hindex
  have htwo := logged.cellIndex_keeps compiled (Array.mem_of_getElem? hthere) haccesses
    (hlawful.identityOf?_eq hsecond) hother hwrites hindexes
  have htype : again.type = binding.type := by
    have := hfits.type
    rw [hlocation, hfitsAgain.type] at this
    exact Option.some.inj this
  have hpermutation : again.addressing.permutation? = binding.addressing.permutation? := by
    rw [← hfitsAgain.permutation, ← hlocation, hfits.permutation]
  have hlaid : ∀ permutation, binding.addressing.permutation? = some permutation →
      permutation.Lawful := fun permutation hthere =>
    (hbound.laid.permutation (hfits.permutation.trans hthere)).1
  obtain ⟨-, element, helement, -⟩ := Binding.cellIndex_eq_ok hone
  obtain ⟨hsame, -⟩ := Binding.cellIndex_inj htype hone htwo
  have hidentity := Binding.elementIndex_identity_inj hlaid hpermutation helement
    (hsame.symm.trans helement)
  have hslots := congrArg kernel.permutation.slotOf hidentity
  rwa [hlawful.slotOf_identityOf' hfirst, hlawful.slotOf_identityOf' hsecond] at hslots

end Logged

/-- Every binding of a compiled kernel locates the cells of its field, and bodies that overwrite
only their own element are apart for any two elements. -/
theorem elements_apart (logged : draft.Logged workspace log)
    (compiled : draft.compile config = .ok kernel) :
    (∀ binding ∈ kernel.bindings, ∃ field, workspace.field? binding.location = some field ∧
      field.type = binding.type ∧
      field.column.size = field.size * binding.type.components ∧
      (field.size < UInt32.size → binding.type.components < UInt32.size →
        binding.Locates field.size)) ∧
    ∀ {α : Type} (body : Element → Action α) (first second : Slot), first ≠ second →
      first.toNat < kernel.permutation.size → second.toNat < kernel.permutation.size →
      (body (kernel.element first)).Each (kernel.element first).Keeps →
      (body (kernel.element second)).Each (kernel.element second).Keeps →
      kernel.Separates (body (kernel.element first)) (body (kernel.element second)) := by
  obtain ⟨-, -, -, -, -, -, hbindings, -⟩ := compile_eq_ok compiled
  have hbound := logged.declared.bound
  constructor
  · intro binding hmem
    obtain ⟨i, hi⟩ := Array.mem_iff_getElem?.mp hmem
    have hfits := hbound.bindings (hbindings ▸ hi)
    obtain ⟨field, hfield, htype⟩ := Option.map_eq_some_iff.mp hfits.type
    exact ⟨field, hfield, htype, htype ▸ field.cells_size, fun hsize hcomponents =>
      hfits.locates hbound.laid hfield (Nat.le_of_lt hsize) hcomponents⟩
  · intro α body first second hne hfirst hsecond hkeeps hkeepsAgain
    refine hkeeps.mono fun request hrequest => hkeepsAgain.mono fun other hother => ?_
    rintro location index ⟨hhere, hthere⟩
    exact hne (logged.overwrites_inj compiled hfirst hsecond hrequest hother hhere hthere)

section Stamp

def stampMarks : LooseField := ⟨.vertex, Field.zeroed ⟨"mark", ⟨.u32, 2⟩⟩ 3⟩

def stampWorkspace : Workspace := { meshes := #[pathMesh, pathMesh], loose := #[stampMarks] }

theorem stampWorkspace_made : stampWorkspace.Made := by
  have htwo : Workspace.Made { meshes := #[pathMesh, pathMesh] } :=
    .mesh pathWorkspace_made pathDraft_accepted pathMetadata_countable
      (congrArg Prod.snd pathBlueprint_build)
  have hmarks : LooseField.allocate .vertex ⟨"mark", ⟨.u32, 2⟩⟩ 3 = .ok stampMarks := rfl
  exact .loose htwo hmarks

def stampDraft : KernelDraft where
  name := "stamp"
  home := 0
  mesh := pathMesh
  kind := .vertex
  bindings := #[
    ⟨⟨.ofMesh 0 .vertex "load", "load", .write⟩, ⟨.u32, 1⟩, .own pathVertices⟩,
    ⟨⟨.ofMesh 1 .vertex "load", "load", .write⟩, ⟨.u32, 1⟩, .foreign pathVertices⟩,
    ⟨⟨.ofLoose 0, "mark", .write⟩, ⟨.u32, 2⟩, .loose⟩]

def stampLog : Log := [
  (.bind (.own .vertex "load") .u32 .write, .ok (.field .u32 ⟨0⟩)),
  (.bind (.foreign 1 pathMesh .vertex "load") .u32 .write, .ok (.field .u32 ⟨1⟩)),
  (.bind (.loose 0 stampMarks) .u32 .write, .ok (.field .u32 ⟨2⟩))]

theorem stampDraft_logged : stampDraft.Logged stampWorkspace stampLog := by
  have hstart : KernelDraft.start "stamp" 0 pathMesh .vertex =
      .ok { name := "stamp", home := 0, mesh := pathMesh, kind := .vertex } := rfl
  exact .call (.call (.call (.start stampWorkspace_made rfl hstart)
    (.bind (.own .vertex "load") .u32 .write) trivial)
    (.bind (.foreign 1 pathMesh .vertex "load") .u32 .write) rfl)
    (.bind (.loose 0 stampMarks) .u32 .write) rfl

def stampKernel : Kernel where
  name := "stamp"
  kind := .vertex
  permutation := pathVertices
  patchIndex := pathMesh.patchIndex
  incidences := #[]
  bindings := stampDraft.bindings
  plan := ⟨.whole, []⟩
  ranges := none

def stampBody (element : Element) : Action Unit := do
  let identity ← Action.ofLookup element.identity?
  .write .u32 ⟨0⟩ (.slot element.slot) 0 (7 : UInt32)
    (.write .u32 ⟨1⟩ (.identity identity) 0 (8 : UInt32)
      (.write .u32 ⟨2⟩ (.identity identity) 1 (9 : UInt32) (.done ())))

theorem stampBody_keeps (element : Element) : (stampBody element).Each element.Keeps := by
  unfold stampBody
  cases hidentity : element.identity? with
  | none => trivial
  | some identity =>
    exact ⟨fun _ => .inl rfl, fun _ => .inr ⟨identity, hidentity, rfl⟩,
      fun _ => .inr ⟨identity, hidentity, rfl⟩, trivial⟩

theorem elements_apart_stamp : stampDraft.Logged stampWorkspace stampLog ∧
    stampDraft.compile {} = .ok stampKernel ∧
    (∀ binding ∈ stampKernel.bindings, binding.Locates 3) ∧
    (∀ element, (stampBody element).Each element.Keeps) ∧
    stampKernel.Separates (stampBody (stampKernel.element 0))
      (stampBody (stampKernel.element 2)) := by
  have hcompile : stampDraft.compile {} = .ok stampKernel := rfl
  have hsizes : ∀ binding ∈ stampDraft.bindings.toList,
      (stampWorkspace.field? binding.location).map Field.size = some 3 ∧
        binding.type.components < UInt32.size := by decide
  obtain ⟨hlocates, hapart⟩ := elements_apart stampDraft_logged hcompile
  refine ⟨stampDraft_logged, hcompile, fun binding hmem => ?_, stampBody_keeps,
    hapart stampBody 0 2 (by decide) (by decide) (by decide) (stampBody_keeps _)
      (stampBody_keeps _)⟩
  obtain ⟨field, hfield, -, -, hfound⟩ := hlocates binding hmem
  obtain ⟨hsize, hcomponents⟩ := hsizes binding (Array.mem_toList_iff.mpr hmem)
  rw [hfield, Option.map_some, Option.some.injEq] at hsize
  rw [hsize] at hfound
  exact hfound (by decide) hcomponents

end Stamp

end KernelDraft

end MeshLayout
