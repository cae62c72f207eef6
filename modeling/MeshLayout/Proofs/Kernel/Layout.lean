import MeshLayout.Proofs.Kernel.Direct
import MeshLayout.Proofs.Kernel.Patches

/-!
# The layout cannot be seen

A kernel whose body knows its element by identity leaves the same values in every layout: those
of the reference that takes the identities in their order. Two layouts take the elements in
different orders. Sums do not depend on the order, and every other cell is written by one
element only.
-/

set_option autoImplicit false

namespace MeshLayout

theorem flatMap_of_unique {α β : Type} {l : List α} (hnodup : l.Nodup) {f : α → List β} {a : α}
    (hmem : a ∈ l) (h : ∀ b ∈ l, b ≠ a → f b = []) : l.flatMap f = f a := by
  induction l with
  | nil => cases hmem
  | cons first rest ih =>
    obtain ⟨hfirst, hrest⟩ := List.nodup_cons.mp hnodup
    rw [List.flatMap_cons]
    by_cases heq : a = first
    · subst heq
      have hnil : rest.flatMap f = [] := by
        apply List.flatMap_eq_nil_iff.mpr
        intro b hb
        exact h b (List.mem_cons_of_mem a hb) fun heq => hfirst (heq ▸ hb)
      rw [hnil, List.append_nil]
    · have hthere := (List.mem_cons.mp hmem).resolve_left heq
      rw [h first List.mem_cons_self fun h => heq h.symm, List.nil_append]
      exact ih hrest hthere fun b hb => h b (List.mem_cons_of_mem first hb)

namespace Effect

variable {effects : List Effect} {location : Location} {scalar : Scalar} {number : Nat}

theorem at?_eq_some {effect : Effect} {value : scalar.Carrier}
    (h : effect.at? location scalar number = some value) :
    effect.location = location ∧ effect.number = number ∧ effect.scalar = scalar := by
  unfold at? at h
  split at h
  · next hscalar =>
    split at h
    · next hplace => exact ⟨hplace.1, hplace.2, hscalar⟩
    · cases h
  · cases h

theorem mem_brought {value : scalar.Carrier} (h : value ∈ brought effects location scalar number) :
    ∃ effect ∈ effects, effect.location = location ∧ effect.number = number ∧
      effect.scalar = scalar := by
  obtain ⟨effect, heffect, hvalue⟩ := List.mem_filterMap.mp h
  exact ⟨effect, heffect, at?_eq_some hvalue⟩

theorem brought_flatten {ι : Type} (l : List ι) (f : ι → List Effect) :
    brought (l.map f).flatten location scalar number =
      l.flatMap fun i => brought (f i) location scalar number := by
  induction l with
  | nil => rfl
  | cons first rest ih =>
    rw [List.map_cons, List.flatten_cons, List.flatMap_cons, ← ih]
    exact List.filterMap_append

structure Owned (sums : Location → Bool) (workspace : Workspace) (identity : Identity)
    (effect : Effect) : Prop where
  whole : sums effect.location = true → effect.scalar.isInteger = true
  own : sums effect.location = false → ∀ type,
    (workspace.field? effect.location).map Field.type = some type →
      effect.number / type.components = identity.toNat

end Effect

section Order

variable {permutation : Permutation} {sums : Location → Bool} {workspace : Workspace}
variable {changes : Identity → List Effect} {slots : List Nat}

def bySlot (permutation : Permutation) (slots : List Nat) (changes : Identity → List Effect) :
    List (List Effect) :=
  slots.map fun slot => changes (permutation.identityOf slot.toUInt32)

def byNumber (permutation : Permutation) (changes : Identity → List Effect) :
    List (List Effect) :=
  (List.range permutation.size).map fun identity => changes identity.toUInt32

theorem bySlot_perm (hlawful : permutation.Lawful)
    (hslots : slots.Perm (List.range permutation.size)) :
    (bySlot permutation slots changes).Perm (byNumber permutation changes) := by
  apply (hslots.map _).trans
  have hperm := hlawful.identities_perm.map fun identity => changes identity.toUInt32
  rw [List.map_map] at hperm
  have hsame : ((fun identity : Nat => changes identity.toUInt32) ∘ fun slot : Nat =>
      (permutation.identityOf slot.toUInt32).toNat) =
      fun slot => changes (permutation.identityOf slot.toUInt32) := by
    ext1 slot
    simp only [Function.comp_apply, toUInt32_toNat]
  rwa [hsame] at hperm

variable (howned : ∀ identity, identity.toNat < permutation.size →
  ∀ effect ∈ changes identity, effect.Owned sums workspace identity)

include howned

theorem sums_order (hlawful : permutation.Lawful)
    (hslots : slots.Perm (List.range permutation.size)) {location : Location}
    (hsums : sums location = true) (scalar : Scalar) (number : Nat) (value : scalar.Carrier) :
    (Effect.brought (bySlot permutation slots changes).flatten location scalar number).foldl
        scalar.add value =
      (Effect.brought (byNumber permutation changes).flatten location scalar number).foldl
        scalar.add value := by
  apply ((bySlot_perm hlawful hslots).flatten.filterMap _).foldl_eq'
  intro first hfirst second _ sum
  obtain ⟨effect, heffect, rfl, -, rfl⟩ := Effect.mem_brought hfirst
  obtain ⟨run, hrun, heffect⟩ := List.mem_flatten.mp heffect
  obtain ⟨slot, hslot, rfl⟩ := List.mem_map.mp hrun
  have hlt := List.mem_range.mp (hslots.mem_iff.mp hslot)
  have hword : slot.toUInt32.toNat = slot := toNat_toUInt32 (Nat.lt_of_lt_of_le hlt hlawful.size_le)
  have hidentity := hlawful.identityOf_lt (by rwa [hword] : slot.toUInt32.toNat < permutation.size)
  exact Scalar.add_right_comm ((howned _ hidentity effect heffect).whole hsums) sum first second

theorem own_order (hlawful : permutation.Lawful)
    (hslots : slots.Perm (List.range permutation.size)) {location : Location}
    (hsums : sums location = false) {type : FieldType}
    (htype : (workspace.field? location).map Field.type = some type) (number : Nat) :
    Effect.brought (bySlot permutation slots changes).flatten location type.scalar number =
      Effect.brought ((byNumber permutation changes).getD (number / type.components) [])
        location type.scalar number := by
  have hword : ∀ {i : Nat}, i < permutation.size → i.toUInt32.toNat = i :=
    fun h => toNat_toUInt32 (Nat.lt_of_lt_of_le h hlawful.size_le)
  have hbelow : ∀ slot ∈ slots, slot < permutation.size := fun slot hslot =>
    List.mem_range.mp (hslots.mem_iff.mp hslot)
  have hidentity : ∀ slot ∈ slots,
      (permutation.identityOf slot.toUInt32).toNat < permutation.size := by
    intro slot hslot
    have hlt := hbelow slot hslot
    exact hlawful.identityOf_lt (by rwa [hword hlt])
  have hother : ∀ slot ∈ slots,
      (permutation.identityOf slot.toUInt32).toNat ≠ number / type.components →
        Effect.brought (changes (permutation.identityOf slot.toUInt32)) location type.scalar
          number = [] := by
    intro slot hslot hne
    apply List.eq_nil_iff_forall_not_mem.mpr
    intro value hvalue
    obtain ⟨effect, heffect, rfl, rfl, -⟩ := Effect.mem_brought hvalue
    exact hne ((howned _ (hidentity slot hslot) effect heffect).own hsums type htype).symm
  rw [bySlot, Effect.brought_flatten, byNumber, List.getD_eq_getElem?_getD, List.getElem?_map]
  by_cases hin : number / type.components < permutation.size
  · have hown := hword hin
    have hslot : (permutation.slotOf (number / type.components).toUInt32).toNat <
        permutation.size := hlawful.slotOf_lt (by rwa [hown])
    have hback : permutation.identityOf
        (permutation.slotOf (number / type.components).toUInt32).toNat.toUInt32 =
          (number / type.components).toUInt32 := by
      rw [toUInt32_toNat, hlawful.identityOf_slotOf' (by rwa [hown])]
    rw [flatMap_of_unique (hslots.nodup_iff.mpr List.nodup_range)
      (hslots.mem_iff.mpr (List.mem_range.mpr hslot)), hback, List.getElem?_range hin]
    · rfl
    · intro slot hmem hne
      apply hother slot hmem
      intro hsame
      apply hne
      have hlt := hbelow slot hmem
      have hthere := hlawful.slotOf_identityOf' (by rwa [hword hlt] :
        slot.toUInt32.toNat < permutation.size)
      rw [← hsame, toUInt32_toNat, hthere, hword hlt]
  · rw [List.getElem?_eq_none (by simpa using hin)]
    apply List.flatMap_eq_nil_iff.mpr
    intro slot hslot
    have hlt := hidentity slot hslot
    exact hother slot hslot (by omega)

theorem combine_bySlot (hlawful : permutation.Lawful)
    (hslots : slots.Perm (List.range permutation.size)) {location : Location} {type : FieldType}
    (htype : (workspace.field? location).map Field.type = some type) (number : Nat)
    (value : type.scalar.Carrier) :
    combine sums location (Effect.brought (bySlot permutation slots changes).flatten location
        type.scalar number) value =
      finalValue sums (byNumber permutation changes) location type number value := by
  unfold combine finalValue
  by_cases hsums : sums location = true
  · rw [if_pos hsums, if_pos hsums]
    exact sums_order howned hlawful hslots hsums type.scalar number value
  · rw [if_neg hsums, if_neg hsums,
      own_order howned hlawful hslots (Bool.eq_false_iff.mpr hsums) htype number]

end Order

theorem FieldType.number?_div {type : FieldType} {identity : Identity} {component number : Nat}
    (h : type.number? (.identity identity) component = some number) :
    number / type.components = identity.toNat := by
  simp only [number?] at h
  split at h
  · next hcomponent =>
    cases h
    exact Cells.number_div identity.toNat hcomponent
  · cases h

namespace Action

variable {α : Type} {kernel : Kernel} {sums : Location → Bool} {identity : Identity}

theorem Each.of_named {bindings : Array Binding} {P : Request → Prop} {action : Action α}
    (h : (action.named bindings).Each P) : action.Each fun request =>
      P { request with address := named.nameAt bindings request.binding request.address } := by
  induction action with
  | done result => trivial
  | fail fault => trivial
  | read scalar field address component next ih =>
    exact ⟨h.1, fun value => ih value (h.2 value)⟩
  | write scalar field address component value next ih => exact ⟨h.1, ih h.2⟩
  | accumulate scalar field address component value next ih => exact ⟨h.1, ih h.2⟩

theorem effects?_owned {workspace : Workspace} (hfits : kernel.Fits workspace)
    {tables : Location → Option Column} {action : Action Unit}
    (hallowed : action.Each (kernel.Allows sums identity)) {effects : List Effect}
    (heffects : action.effects? (kernel.bindings.map Binding.bound) tables = some effects) :
    ∀ effect ∈ effects, effect.Owned sums workspace identity := by
  induction action generalizing effects with
  | done result =>
    cases heffects
    intro effect heffect
    cases heffect
  | fail fault => cases heffects
  | read scalar field address component next ih =>
    simp only [effects?, Option.bind_eq_bind, Option.bind_eq_some_iff] at heffects
    obtain ⟨bound, hbound, number, hnumber, values, hvalues, value, hvalue, heffects⟩ := heffects
    exact ih value (hallowed.2 value) heffects
  | write scalar field address component value next ih =>
    obtain ⟨effect, heffect, heffects⟩ := Option.bind_eq_some_iff.mp heffects
    obtain ⟨later, hlater, heq⟩ := Option.bind_eq_some_iff.mp heffects
    cases heq
    obtain ⟨bound, number, cells, hbound, -, hnumber, -, -, rfl⟩ := change?_eq_some.mp heffect
    rw [Array.getElem?_map] at hbound
    obtain ⟨binding, hbinding, rfl⟩ := Option.map_eq_some_iff.mp hbound
    obtain ⟨rfl, hsums⟩ := hallowed.1 binding hbinding
    intro effect hmem
    rcases List.mem_cons.mp hmem with rfl | hrest
    · constructor
      · intro htrue
        cases hsums.symm.trans htrue
      · intro _ type htype
        obtain rfl := Option.some.inj (htype.symm.trans (hfits hbinding).type)
        exact FieldType.number?_div hnumber
    · exact ih hallowed.2 hlater effect hrest
  | accumulate scalar field address component value next ih =>
    obtain ⟨effect, heffect, heffects⟩ := Option.bind_eq_some_iff.mp heffects
    obtain ⟨later, hlater, heq⟩ := Option.bind_eq_some_iff.mp heffects
    cases heq
    obtain ⟨bound, number, cells, hbound, -, -, -, -, rfl⟩ := change?_eq_some.mp heffect
    rw [Array.getElem?_map] at hbound
    obtain ⟨binding, hbinding, rfl⟩ := Option.map_eq_some_iff.mp hbound
    obtain ⟨hsums, -, hinteger⟩ := hallowed.1 binding hbinding
    intro effect hmem
    rcases List.mem_cons.mp hmem with rfl | hrest
    · constructor
      · intro _
        exact hinteger
      · intro hfalse
        cases hsums.symm.trans hfalse
    · exact ih hallowed.2 hlater effect hrest

end Action

namespace Kernel

variable {α : Type} {kernel : Kernel} {sums : Location → Bool} {identity : Identity}

theorem Allows.wholeSums {request : Request} {address : Address}
    (h : kernel.Allows sums identity { request with address }) : kernel.WholeSums request := by
  intro haccess _ binding hbinding _
  have hallows := h binding hbinding
  simp only [haccess] at hallows
  exact hallows.2

theorem Allows.not_defers {request : Request} {address : Address}
    (h : kernel.Allows sums identity { request with address }) (haccess : request.access = .read) :
    ¬kernel.Defers request.binding := by
  rintro ⟨binding, hbinding, -, haccumulate⟩
  have hallows := h binding hbinding
  simp only [haccess] at hallows
  cases haccumulate.symm.trans (hallows request.binding binding hbinding rfl)

/-- The body knows its element by what can be known by identity: with elements named by identity
it does what the program does for the view, and the program keeps to what is allowed. -/
structure Blind (kernel : Kernel) (mesh : Mesh) (sums : Location → Bool)
    (program : View → Action Unit) (body : Element → Action α) : Prop where
  named : ∀ {slot view}, mesh.view? (kernel.element slot) = some view →
    (body (kernel.element slot)).named kernel.bindings = program view
  allowed : ∀ {slot view}, mesh.view? (kernel.element slot) = some view →
    (program view).Each (kernel.Allows sums view.identity)

/-- A run comes to an end if the run without staging does that takes the slots in the same order,
and then leaves the same values. -/
theorem run_staged (hplan : kernel.Planned) {workspace : Workspace} (hfits : kernel.Fits workspace)
    (hmemory : workspace.InMemory) (body : Element → Action α) (schedule : Schedule)
    (hallowed : ∀ slot ∈ kernel.order schedule, ∃ identity,
      ((body (kernel.element slot.toUInt32)).named kernel.bindings).Each
        (kernel.Allows sums identity)) :
    (∃ first second, kernel.run body workspace schedule = .error first ∧
      kernel.runDirect body (kernel.order schedule) workspace = .error second) ∨
    ∃ results after plain, kernel.run body workspace schedule = .ok (results, after) ∧
      kernel.runDirect body (kernel.order schedule) workspace = .ok (results, plain) ∧
      after.Alike plain := by
  have hreads : ∀ reading ∈ kernel.unstaged.readingsAt body (kernel.order schedule)
      ⟨workspace, kernel.unstaged.copies workspace, none⟩, ¬kernel.Defers reading.binding := by
    intro reading hreading
    have heach : ∀ slot ∈ kernel.order schedule,
        (body (kernel.unstaged.element slot.toUInt32)).Each
          fun request => request.access = .read → ¬kernel.Defers request.binding := by
      intro slot hslot
      obtain ⟨identity, heach⟩ := hallowed slot hslot
      exact heach.of_named.mono fun request h haccess => h.not_defers haccess
    obtain ⟨request, hrequest, haccess, hbinding⟩ := readingsAt_each _ heach _ hreading
    rw [← hbinding]
    exact hrequest haccess
  have hsums : ∀ slot ∈ kernel.order schedule,
      (body (kernel.element slot.toUInt32)).Each kernel.WholeSums := by
    intro slot hslot
    obtain ⟨identity, heach⟩ := hallowed slot hslot
    exact heach.of_named.mono fun request h => h.wholeSums
  cases hcase : kernel.ranges with
  | none =>
    have hrelated := kernel.run_whole hplan hcase hmemory body schedule
    generalize kernel.run body workspace schedule = x at hrelated ⊢
    generalize kernel.runDirect body _ workspace = y at hrelated ⊢
    cases hrelated with
    | @ok here there h =>
      obtain ⟨hsame, halike⟩ := h
      exact .inr ⟨here.1, here.2, there.2, rfl, by rw [hsame], halike⟩
    | error failure => exact .inl ⟨failure, failure, rfl, rfl⟩
  | some ranges =>
    have hagrees := kernel.run_patches hplan hfits hcase body schedule hsums hreads
    generalize kernel.run body workspace schedule = x at hagrees ⊢
    generalize kernel.runDirect body _ workspace = y at hagrees ⊢
    cases hagrees with
    | @ok here there h =>
      obtain ⟨hsame, halike⟩ := h
      exact .inr ⟨here.1, here.2, there.2, rfl, by rw [hsame], halike⟩
    | broken first second => exact .inl ⟨_, _, rfl, rfl⟩

end Kernel

theorem Workspace.Alike.value? {a b : Workspace} (h : a.Alike b)
    (hpermutation : a.permutation? = b.permutation?) (location : Location) (type : FieldType)
    (number : Nat) : a.value? location type number = b.value? location type number := by
  rw [Workspace.value?, Workspace.value?, h location, hpermutation]

theorem Direct.start (kernel : Kernel) (sums : Location → Bool) (workspace : Workspace) :
    Direct kernel.unstaged sums workspace [] ⟨workspace, kernel.unstaged.copies workspace, none⟩ where
  staged := (Mirrors.start workspace).plain_staged
  revalued := .refl
  left := fun _ => rfl
  values := by
    intro location type _ number
    rw [show Effect.brought [] location type.scalar number = [] from rfl, combine_nil,
      Option.map_id_apply]

def KernelDraft.reference (draft : KernelDraft) (workspace : Workspace)
    (program : View → Action Unit) : Reference where
  metadata := draft.mesh.metadata
  kind := draft.kind
  linked := draft.mesh.relations
  fields := draft.bindings.map Binding.bound
  tables := fun location => (workspace.unload location).toOption
  program := program

namespace KernelDraft

variable {α : Type} {workspace after : Workspace} {draft : KernelDraft} {config : Config}
variable {kernel : Kernel} {sums : Location → Bool} {program : View → Action Unit}
variable {body : Element → Action α}

theorem compile_view? (hbound : draft.Bound workspace)
    (hcompile : draft.compile config = .ok kernel) {slot : Slot}
    (hslot : slot.toNat < kernel.permutation.size) :
    draft.mesh.view? (kernel.element slot) = some (draft.mesh.metadata.view draft.mesh.relations
      draft.kind (kernel.permutation.identityOf slot)) := by
  obtain ⟨-, -, hpermutation, hkind, -, -, -, partition, hpartition, -⟩ :=
    compile_eq_ok hcompile
  rw [Kernel.element, hkind]
  exact hbound.mesh_laid.view?_eq hpermutation hpartition hslot

theorem compile_size (hbound : draft.Bound workspace)
    (hcompile : draft.compile config = .ok kernel) : kernel.permutation.Lawful ∧
      draft.mesh.metadata.count? draft.kind = some kernel.permutation.size ∧
      kernel.permutation.size % UInt32.size = kernel.permutation.size := by
  obtain ⟨-, -, hpermutation, -⟩ := compile_eq_ok hcompile
  obtain ⟨hlawful, hcount⟩ := hbound.mesh_laid.permutations hpermutation
  exact ⟨hlawful, hcount, Nat.mod_eq_of_lt (hbound.mesh_laid.countable _ _ hcount)⟩

theorem compile_ranges (hbound : draft.Bound workspace)
    (hcompile : draft.compile config = .ok kernel) {ranges : List PatchRange}
    (hranges : kernel.ranges = some ranges) :
    ranges.flatMap PatchRange.slots = List.range kernel.permutation.size := by
  obtain ⟨-, -, hpermutation, -, -, -, -, partition, hpartition, hparts⟩ :=
    compile_eq_ok hcompile
  rw [hranges] at hparts
  split at hparts
  · exact (hbound.mesh_laid.partitions hpermutation hpartition).2 ranges hparts.symm
  · cases hparts

theorem compile_order (hbound : draft.Bound workspace)
    (hcompile : draft.compile config = .ok kernel) (schedule : Schedule) :
    (kernel.order schedule).Perm (List.range kernel.permutation.size) := by
  obtain ⟨-, -, hsize⟩ := compile_size hbound hcompile
  have hperm := kernel.order_perm schedule fun ranges hranges => by
    rw [hsize]
    exact compile_ranges hbound hcompile hranges
  rwa [hsize] at hperm

theorem compile_allowed (hbound : draft.Bound workspace)
    (hcompile : draft.compile config = .ok kernel)
    (hblind : kernel.Blind draft.mesh sums program body) (schedule : Schedule) :
    ∀ slot ∈ kernel.order schedule, ∃ identity,
      ((body (kernel.element slot.toUInt32)).named kernel.bindings).Each
        (kernel.Allows sums identity) := by
  have hlawful := (compile_size hbound hcompile).1
  intro slot hslot
  have hlt := List.mem_range.mp ((compile_order hbound hcompile schedule).mem_iff.mp hslot)
  have hword := toNat_toUInt32 (Nat.lt_of_lt_of_le hlt hlawful.size_le)
  have hin : slot.toUInt32.toNat < kernel.permutation.size := by rwa [hword]
  have hview := compile_view? hbound hcompile hin
  rw [hblind.named hview]
  exact ⟨_, hblind.allowed hview⟩

theorem compile_staged (hbound : draft.Bound workspace)
    (hcompile : draft.compile config = .ok kernel)
    (hblind : kernel.Blind draft.mesh sums program body) (schedule : Schedule) :
    (∃ first second, kernel.run body workspace schedule = .error first ∧
      kernel.runDirect body (kernel.order schedule) workspace = .error second) ∨
    ∃ results after plain, kernel.run body workspace schedule = .ok (results, after) ∧
      kernel.runDirect body (kernel.order schedule) workspace = .ok (results, plain) ∧
      after.Alike plain := by
  obtain ⟨hplan, -, -, -, -, -, hbindings, -⟩ := compile_eq_ok hcompile
  exact Kernel.run_staged hplan (fun h => hbound.bindings (hbindings ▸ h)) hbound.laid.inMemory
    body schedule (compile_allowed hbound hcompile hblind schedule)

def changes (draft : KernelDraft) (workspace : Workspace) (program : View → Action Unit)
    (identity : Identity) : List Effect :=
  ((draft.reference workspace program).effects? identity).getD []

theorem run_changes (hbound : draft.Bound workspace)
    (hcompile : draft.compile config = .ok kernel)
    (hblind : kernel.Blind draft.mesh sums program body) {schedule : Schedule} {results : List α}
    (hrun : kernel.run body workspace schedule = .ok (results, after)) :
    (∀ identity, identity.toNat < kernel.permutation.size →
      (draft.reference workspace program).effects? identity =
        some (draft.changes workspace program identity)) ∧
    ∀ location type, (workspace.field? location).map Field.type = some type → ∀ number,
      after.value? location type number = (workspace.value? location type number).map
        (combine sums location (Effect.brought (bySlot kernel.permutation (kernel.order schedule)
          (draft.changes workspace program)).flatten location type.scalar number)) := by
  obtain ⟨-, -, -, -, -, -, hbindings, -⟩ := compile_eq_ok hcompile
  have hlawful := (compile_size hbound hcompile).1
  have hperm := compile_order hbound hcompile schedule
  have hfits : kernel.Fits workspace := fun h => hbound.bindings (hbindings ▸ h)
  have hview : ∀ slot ∈ kernel.order schedule,
      draft.mesh.view? (kernel.element slot.toUInt32) = some (draft.mesh.metadata.view
        draft.mesh.relations draft.kind (kernel.permutation.identityOf slot.toUInt32)) := by
    intro slot hslot
    have hlt := List.mem_range.mp (hperm.mem_iff.mp hslot)
    have hword := toNat_toUInt32 (Nat.lt_of_lt_of_le hlt hlawful.size_le)
    exact compile_view? hbound hcompile (by rwa [hword])
  have hallowed := compile_allowed hbound hcompile hblind schedule
  rcases compile_staged hbound hcompile hblind schedule with
    ⟨first, second, hfails, -⟩ | ⟨visited, staged, plain, hends, hplain, halike⟩
  · rw [hrun] at hfails
    cases hfails
  obtain ⟨rfl, rfl⟩ := Prod.mk.inj (Except.ok.inj (hrun.symm.trans hends))
  obtain ⟨⟨visited, memory⟩, hvisit, heq⟩ := bind_eq_ok.mp hplain
  cases heq
  obtain ⟨runs, hruns, hdirect⟩ := (Direct.start kernel sums workspace).visit hbound.laid hfits
    hbound.laid.tabulates body _ hallowed hvisit
  have heffects : ∀ slot ∈ kernel.order schedule,
      kernel.unstaged.effectsAt? (fun location => (workspace.unload location).toOption) body slot =
        (draft.reference workspace program).effects?
          (kernel.permutation.identityOf slot.toUInt32) := by
    intro slot hslot
    have hnamed := hblind.named (hview slot hslot)
    rw [hbindings] at hnamed
    rw [Kernel.effectsAt?, show kernel.unstaged.bindings = draft.bindings from hbindings,
      Kernel.unstaged_element, hnamed]
    rfl
  have hsome : ∀ slot ∈ kernel.order schedule, (draft.reference workspace program).effects?
      (kernel.permutation.identityOf slot.toUInt32) = some (draft.changes workspace program
        (kernel.permutation.identityOf slot.toUInt32)) := by
    intro slot hslot
    obtain ⟨effects, hthere⟩ := mapM_total hruns slot hslot
    rw [heffects slot hslot] at hthere
    rw [changes, hthere, Option.getD_some]
  have hbySlot : runs =
      bySlot kernel.permutation (kernel.order schedule) (draft.changes workspace program) := by
    have hmap : (kernel.order schedule).mapM (kernel.unstaged.effectsAt?
        (fun location => (workspace.unload location).toOption) body) = some (bySlot
          kernel.permutation (kernel.order schedule) (draft.changes workspace program)) := by
      apply mapM_eq_some_map
      intro slot hslot
      exact (heffects slot hslot).trans (hsome slot hslot)
    exact Option.some.inj (hruns.symm.trans hmap)
  subst hbySlot
  constructor
  · intro identity hidentity
    have hslot := hlawful.slotOf_lt hidentity
    have hthere := hsome _ (hperm.mem_iff.mpr (List.mem_range.mpr hslot))
    rwa [toUInt32_toNat, hlawful.identityOf_slotOf' hidentity] at hthere
  · intro location type htype number
    have hsame : after.permutation? = memory.workspace.permutation? := by
      rw [(Kernel.run_revalued body hrun).permutation?, hdirect.revalued.permutation?]
    rw [halike.value? hsame, hdirect.values htype, List.nil_append]

theorem changes_owned (hbound : draft.Bound workspace)
    (hcompile : draft.compile config = .ok kernel)
    (hblind : kernel.Blind draft.mesh sums program body) {identity : Identity}
    (hidentity : identity.toNat < kernel.permutation.size)
    (heffects : (draft.reference workspace program).effects? identity =
      some (draft.changes workspace program identity)) :
    ∀ effect ∈ draft.changes workspace program identity, effect.Owned sums workspace identity := by
  obtain ⟨-, -, -, -, -, -, hbindings, -⟩ := compile_eq_ok hcompile
  have hlawful := (compile_size hbound hcompile).1
  have hview := compile_view? hbound hcompile (hlawful.slotOf_lt hidentity)
  have hallowed := hblind.allowed hview
  rw [hlawful.identityOf_slotOf' hidentity] at hallowed
  have hfits : kernel.Fits workspace := fun h => hbound.bindings (hbindings ▸ h)
  have hfields : (draft.reference workspace program).fields =
      kernel.bindings.map Binding.bound := by
    rw [hbindings]
    rfl
  rw [Reference.effects?, hfields] at heffects
  exact Action.effects?_owned hfits hallowed heffects

end KernelDraft

/-- The layout cannot be seen. If a kernel with a blind body comes to the end of a run, in whatever
order it takes the elements, so does the reference, and every field is unloaded with the values
that the reference gives it. -/
theorem run_refines_reference {α : Type} {workspace : Workspace} {draft : KernelDraft}
    (hdeclared : draft.Declared workspace) (config : Config) (kernel : Kernel)
    (hcompile : draft.compile config = .ok kernel) (sums : Location → Bool)
    (program : View → Action Unit) (body : Element → Action α)
    (hblind : kernel.Blind draft.mesh sums program body) (schedule : Schedule)
    (results : List α) (after : Workspace)
    (hrun : kernel.run body workspace schedule = .ok (results, after)) :
    ∃ runs, (draft.reference workspace program).run? = some runs ∧
      ∀ location field, workspace.field? location = some field →
        ∃ values, workspace.unload location = .ok ⟨field.type.scalar, values⟩ ∧
          after.unload location = .ok ⟨field.type.scalar,
            values.mapIdx (finalValue sums runs location field.type)⟩ := by
  have hbound := hdeclared.bound
  obtain ⟨hlawful, hcount, hsize⟩ := KernelDraft.compile_size hbound hcompile
  obtain ⟨hchanges, hvalues⟩ := KernelDraft.run_changes hbound hcompile hblind hrun
  have howned := fun identity h =>
    KernelDraft.changes_owned hbound hcompile hblind h (hchanges identity h)
  apply Exists.intro (byNumber kernel.permutation (draft.changes workspace program))
  constructor
  · unfold Reference.run?
    rw [show (draft.reference workspace program).metadata.count?
      (draft.reference workspace program).kind = _ from hcount]
    apply mapM_eq_some_map
    intro i hi
    have hlt := List.mem_range.mp hi
    exact hchanges _ (by rwa [toNat_toUInt32 (Nat.lt_of_lt_of_le hlt hlawful.size_le)])
  · intro location field hfield
    have htype : (workspace.field? location).map Field.type = some field.type := by
      rw [hfield, Option.map_some]
    have hrevalued := Kernel.run_revalued body hrun
    obtain ⟨values, hbefore, hold⟩ := hbound.laid.unload_eq htype
    obtain ⟨final, hafter, hnew⟩ := (hrevalued.laid hbound.laid).unload_eq
      ((hrevalued.type location).trans htype)
    have hfinal : final = values.mapIdx (finalValue sums
        (byNumber kernel.permutation (draft.changes workspace program)) location field.type) := by
      apply Array.ext_getElem?
      intro number
      rw [hnew, hvalues location field.type htype, ← hold, Array.getElem?_mapIdx]
      congr 1
      ext1 value
      exact combine_bySlot howned hlawful (KernelDraft.compile_order hbound hcompile schedule) htype
        number value
    exact ⟨values, hbefore, hfinal ▸ hafter⟩

section Scatter

def pathEdges : Incidence :=
  ⟨⟨.edge, .vertex⟩, ⟨#[0, 2, 4], #[1, 0, 0, 2], 3⟩, .inPlace 2, pathVertices, {}⟩

def scatterDraft : KernelDraft where
  name := "scatter"
  home := 0
  mesh := pathMesh
  kind := .edge
  incidences := #[pathEdges]
  bindings := #[⟨⟨.ofMesh 0 .vertex "load", "load", .accumulate⟩, ⟨.u32, 1⟩, .own pathVertices⟩]
  requested := [0]

theorem scatterDraft_declared : scatterDraft.Declared pathWorkspace := by
  have hstart : KernelDraft.start "scatter" 0 pathMesh .edge =
      .ok { name := "scatter", home := 0, mesh := pathMesh, kind := .edge } := rfl
  have hrelation : KernelDraft.relation
      { name := "scatter", home := 0, mesh := pathMesh, kind := .edge } ⟨.edge, .vertex⟩ =
        .ok ({ scatterDraft with bindings := #[], requested := [] }, ⟨0, ⟨.edge, .vertex⟩⟩) := rfl
  have hfield : KernelDraft.field { scatterDraft with bindings := #[], requested := [] }
      .u32 .vertex "load" .accumulate = .ok ({ scatterDraft with requested := [] }, ⟨0⟩) := rfl
  exact .stage (.field (.relation (.start pathWorkspace_made rfl hstart) hrelation) hfield) 0

def scatterBody (element : Element) : Action Unit := do
  let identity ← Action.ofLookup element.identity?
  let vertices ← Action.ofLookup (pathEdges.neighborSlots? element.slot)
  let add (slot : Slot) (rest : Action Unit) : Action Unit :=
    .accumulate .u32 ⟨0⟩ (.slot slot) 0 (identity + 1 : UInt32) rest
  vertices.foldr add (.done ())

def scatterProgram (view : View) : Action Unit := do
  let vertices ← Action.ofLookup (view.neighbors ⟨.edge, .vertex⟩ view.identity)
  let add (vertex : Identity) (rest : Action Unit) : Action Unit :=
    .accumulate .u32 ⟨0⟩ (.identity vertex) 0 (view.identity + 1 : UInt32) rest
  vertices.foldr add (.done ())

def scatterKernel : Kernel where
  name := "scatter"
  kind := .edge
  permutation := .inPlace 2
  patchIndex := pathMesh.patchIndex
  incidences := #[pathEdges]
  bindings := scatterDraft.bindings
  plan := ⟨.perPatch, [⟨0, .accumulate⟩]⟩
  ranges := some [⟨0, 0, 2⟩]

theorem scatter_blind :
    scatterKernel.Blind pathMesh (fun _ => true) scatterProgram scatterBody := by
  have hslots : ∀ {slot : Slot} {view : View},
      pathMesh.view? (scatterKernel.element slot) = some view → slot = 0 ∨ slot = 1 := by
    intro slot view hview
    obtain ⟨identity, hidentity, -⟩ := Option.bind_eq_some_iff.mp hview
    have hlt : slot.toNat < 2 := (Array.getElem?_eq_some_iff.mp hidentity).1
    have hcases : slot.toNat = 0 ∨ slot.toNat = 1 := by omega
    exact hcases.imp UInt32.toNat_inj.mp UInt32.toNat_inj.mp
  have hrequest : ∀ identity vertex,
      scatterKernel.Allows (fun _ => true) identity ⟨.accumulate, .u32, 0, .identity vertex, 0⟩ := by
    intro identity vertex binding hbinding
    cases hbinding
    exact ⟨rfl, rfl, rfl⟩
  constructor
  · intro slot view hview
    rcases hslots hview with rfl | rfl
    · cases hview
      rfl
    · cases hview
      rfl
  · intro slot view hview
    rcases hslots hview with rfl | rfl
    · cases hview
      exact ⟨hrequest _ _, hrequest _ _, trivial⟩
    · cases hview
      exact ⟨hrequest _ _, hrequest _ _, trivial⟩

theorem run_refines_reference_scatter : ∃ results after,
    scatterDraft.Declared pathWorkspace ∧
      scatterDraft.compile { patchContiguous := true } = .ok scatterKernel ∧
      scatterKernel.Blind pathMesh (fun _ => true) scatterProgram scatterBody ∧
      scatterKernel.run scatterBody pathWorkspace = .ok (results, after) ∧
      ∃ runs, (scatterDraft.reference pathWorkspace scatterProgram).run? = some runs ∧
        ∀ location field, pathWorkspace.field? location = some field →
          ∃ values, pathWorkspace.unload location = .ok ⟨field.type.scalar, values⟩ ∧
            after.unload location = .ok ⟨field.type.scalar,
              values.mapIdx (finalValue (fun _ => true) runs location field.type)⟩ := by
  have hcompile : scatterDraft.compile { patchContiguous := true } = .ok scatterKernel := rfl
  have hends : (scatterKernel.run scatterBody pathWorkspace).isOk = true := by
    decide +kernel
  cases hrun : scatterKernel.run scatterBody pathWorkspace with
  | error failure =>
    rw [hrun] at hends
    cases hends
  | ok result =>
    exact ⟨result.1, result.2, scatterDraft_declared, hcompile, scatter_blind, rfl,
      run_refines_reference scatterDraft_declared _ _ hcompile _ _ _ scatter_blind _ _ _ hrun⟩

end Scatter

end MeshLayout
