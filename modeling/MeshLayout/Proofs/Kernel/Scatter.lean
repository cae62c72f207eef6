import MeshLayout.Proofs.Converse
import MeshLayout.Proofs.Kernel.Layout

/-!
# Scattering along a relation is gathering along its converse

A kernel that lets every element add to its neighbors goes by the rows of the relation. What it
leaves in an element is told by the rows turned round: every arrow of the relation is met once
from either end, and sums of whole numbers do not depend on the order in which that happens.
-/

set_option autoImplicit false

namespace MeshLayout

namespace Scalar

variable {scalar : Scalar}

theorem foldl_add (h : scalar.isInteger = true) (values : List scalar.Carrier)
    (start : scalar.Carrier) :
    values.foldl scalar.add start = scalar.add start (values.foldl scalar.add scalar.zero) := by
  induction values generalizing start with
  | nil => rw [List.foldl_nil, List.foldl_nil, add_zero h]
  | cons value rest ih =>
    rw [List.foldl_cons, List.foldl_cons, ih, ih (scalar.add scalar.zero value), zero_add h,
      add_assoc h]

end Scalar

theorem Memory.accumulate_total {kernel : Kernel} {memory : Memory} {scalar : Scalar}
    {field : FieldHandle scalar} {address : Address} {component index size : Nat}
    {binding : Binding} (hbinding : kernel.bindings[field.binding]? = some binding)
    (haccess : binding.access = .accumulate) (hstaged : ∀ i, memory.staged? i = none)
    (hindex : binding.cellIndex address component = .ok index)
    (hshape : memory.workspace.shape? binding.location = some (scalar, size))
    (hlt : index < size) (value : scalar.Carrier) :
    ∃ after, memory.accumulate kernel field address component value = .ok after ∧
      ∀ i, after.staged? i = none := by
  obtain ⟨column, hcolumn, hscalar⟩ := Option.map_eq_some_iff.mp hshape
  obtain ⟨cells, rfl, rfl⟩ := Column.exists_cells hscalar
  have hupdate : Column.updateCell ⟨scalar, cells⟩ scalar index (scalar.add · value) =
      .ok ⟨scalar, cells.setIfInBounds index (scalar.add cells[index] value)⟩ :=
    Column.updateCell_eq_ok.mpr ⟨cells, _, rfl, Array.getElem?_eq_getElem hlt, rfl⟩
  have hstep := Memory.updateField_eq_ok.mpr ⟨_, _, hcolumn, hupdate, rfl⟩
  have hadd : memory.accumulate kernel field address component value =
      memory.updateField binding.location scalar index (scalar.add · value) := by
    rw [accumulate, hbinding]
    simp only [Outcome.ofLookup_some, ok_bind, if_pos haccess, hindex, hstaged]
  exact ⟨_, hadd.trans hstep, hstaged⟩

theorem Kernel.visit_total {α : Type} {kernel : Kernel} {body : Element → Action α}
    {P : Memory → Prop} (slots : List Nat)
    (hstep : ∀ slot ∈ slots, ∀ memory, P memory → ∃ result after,
      (body (kernel.element slot.toUInt32)).run kernel memory = .ok (result, after) ∧ P after)
    {memory : Memory} (h : P memory) :
    ∃ results after, kernel.visit body slots memory = .ok (results, after) := by
  induction slots generalizing memory with
  | nil => exact ⟨[], memory, rfl⟩
  | cons slot rest ih =>
    obtain ⟨result, between, hhere, hbetween⟩ := hstep slot List.mem_cons_self memory h
    obtain ⟨results, after, hlater⟩ :=
      ih (fun other hother => hstep other (List.mem_cons_of_mem slot hother)) hbetween
    exact ⟨result :: results, after, visit_cons.mpr ⟨_, _, _, hhere, hlater, rfl⟩⟩

namespace Action

@[simp] theorem ofLookup_some_bind {α β : Type} (a : α) (next : α → Action β) :
    ofLookup (some a) >>= next = next a := rfl

variable {scalar : Scalar}

def spread (field : FieldHandle scalar) (component : Nat) (value : scalar.Carrier) :
    List Address → Action Unit
  | [] => done ()
  | address :: rest =>
    accumulate scalar field address component value (spread field component value rest)

variable {field : FieldHandle scalar} {component : Nat} {value : scalar.Carrier}

theorem spread_each {P : Request → Prop} {addresses : List Address}
    (h : ∀ address ∈ addresses, P ⟨.accumulate, scalar, field.binding, address, component⟩) :
    (spread field component value addresses).Each P := by
  induction addresses with
  | nil => trivial
  | cons address rest ih =>
    exact ⟨h address List.mem_cons_self, ih fun other hother =>
      h other (List.mem_cons_of_mem address hother)⟩

theorem spread_named (bindings : Array Binding) (addresses : List Address) :
    (spread field component value addresses).named bindings =
      spread field component value (addresses.map (named.nameAt bindings field.binding)) := by
  induction addresses with
  | nil => rfl
  | cons address rest ih => rw [spread, named, ih, List.map_cons, spread]

theorem spread_effects {fields : Array BoundField} {tables : Location → Option Column}
    {bound : BoundField} (hbound : fields[field.binding]? = some bound)
    (hcomponent : component < bound.type.components) {identities : List Identity}
    {effects : List Effect}
    (h : (spread field component value (identities.map .identity)).effects? fields tables =
      some effects) :
    effects = identities.map fun identity =>
      ⟨bound.location, identity.toNat * bound.type.components + component, scalar, value⟩ := by
  induction identities generalizing effects with
  | nil => exact (Option.some.inj h).symm
  | cons identity rest ih =>
    obtain ⟨effect, heffect, h⟩ := Option.bind_eq_some_iff.mp h
    obtain ⟨later, hlater, heq⟩ := Option.bind_eq_some_iff.mp h
    obtain rfl := Option.some.inj heq
    obtain ⟨there, number, cells, hthere, -, hnumber, -, -, rfl⟩ := change?_eq_some.mp heffect
    obtain rfl := Option.some.inj (hbound.symm.trans hthere)
    rw [FieldType.number?, if_pos hcomponent] at hnumber
    rw [List.map_cons, ← ih hlater, ← Option.some.inj hnumber]

theorem spread_run {kernel : Kernel} {shapes : Location → Option (Scalar × Nat)}
    {binding : Binding} {size : Nat} (hbinding : kernel.bindings[field.binding]? = some binding)
    (haccess : binding.access = .accumulate) (hshape : shapes binding.location = some (scalar, size))
    {addresses : List Address} (haddresses : ∀ address ∈ addresses, ∃ index,
      binding.cellIndex address component = .ok index ∧ index < size) {memory : Memory}
    (hmemory : (∀ i, memory.staged? i = none) ∧ memory.Keeps shapes) :
    ∃ after, (spread field component value addresses).run kernel memory = .ok ((), after) ∧
      (∀ i, after.staged? i = none) ∧ after.Keeps shapes := by
  induction addresses generalizing memory with
  | nil => exact ⟨memory, rfl, hmemory⟩
  | cons address rest ih =>
    obtain ⟨hstaged, hkeeps⟩ := hmemory
    obtain ⟨index, hindex, hlt⟩ := haddresses address List.mem_cons_self
    obtain ⟨between, hadd, hbetween⟩ := Memory.accumulate_total hbinding haccess hstaged hindex
      ((hkeeps _).trans hshape) hlt value
    obtain ⟨after, hrun, hafter⟩ := ih
      (fun other hother => haddresses other (List.mem_cons_of_mem address hother))
      ⟨hbetween, hkeeps.accumulate hadd⟩
    exact ⟨after, by rw [spread, run, hadd]; exact hrun, hafter⟩

end Action

namespace Effect

variable {location : Location} {scalar : Scalar} {components component : Nat}

theorem brought_spread (hcomponent : component < components) (identities : List Identity)
    (value : scalar.Carrier) (identity : Identity) :
    brought (identities.map fun other => ⟨location, other.toNat * components + component, scalar,
      value⟩) location scalar (identity.toNat * components + component) =
        List.replicate (identities.count identity) value := by
  induction identities with
  | nil => rfl
  | cons other rest ih =>
    rw [List.map_cons, brought, List.filterMap_cons, List.count_cons]
    by_cases hsame : other = identity
    · subst hsame
      rw [at?_self, if_pos (beq_self_eq_true _), List.replicate_succ]
      exact congrArg (value :: ·) ih
    · have hnumber : ¬(location = location ∧ other.toNat * components + component =
          identity.toNat * components + component) := by
        rintro ⟨-, heq⟩
        have hdiv := congrArg (· / components) heq
        simp only [Cells.number_div _ hcomponent] at hdiv
        exact hsame (UInt32.toNat_inj.mp hdiv)
      rw [at?_eq_none scalar hnumber, if_neg (by simpa using hsame), Nat.add_zero]
      exact ih

/-- What all identities bring to a cell are the weights of the row of its element, turned
round. -/
theorem brought_byNumber {permutation : Permutation} {rows : List (List UInt32)}
    (hrows : rows.length = permutation.size) (hsize : permutation.size ≤ UInt32.size)
    (hcomponent : component < components) (weight : Identity → scalar.Carrier)
    {changes : Identity → List Effect}
    (hchanges : ∀ identity, identity.toNat < permutation.size → changes identity =
      (rows.getD identity.toNat []).map fun other =>
        ⟨location, other.toNat * components + component, scalar, weight identity⟩)
    (identity : Identity) :
    brought (byNumber permutation changes).flatten location scalar
        (identity.toNat * components + component) =
      (Adjacency.turnedRow identity rows 0).map weight := by
  rw [byNumber, brought_flatten, Adjacency.turnedRow_eq, List.map_flatMap, hrows]
  refine List.flatMap_congr fun i hi => ?_
  have hlt := List.mem_range.mp hi
  have hword : i.toUInt32.toNat = i := toNat_toUInt32 (Nat.lt_of_lt_of_le hlt hsize)
  rw [hchanges _ (by rwa [hword]), hword, brought_spread hcomponent, Nat.zero_add,
    List.map_replicate]

end Effect

theorem Workspace.Laid.get_eq_ok {workspace : Workspace} (h : workspace.Laid)
    {location : Location} {type : FieldType} {own : Permutation}
    (htype : (workspace.field? location).map Field.type = some type)
    (hown : workspace.permutation? location = some own) :
    ∃ field, workspace.field? location = some field ∧
      ∀ {slot : Slot} {component : Nat}, slot.toNat < own.size → component < type.components →
        ∃ value, field.get type.scalar slot.toNat component = .ok value ∧ workspace.value? location
          type ((own.identityOf slot).toNat * type.components + component) = some value := by
  obtain ⟨field, hfield, rfl⟩ := Option.map_eq_some_iff.mp htype
  obtain ⟨hlawful, hsizes⟩ := h.permutation hown
  have hsize := hsizes field hfield
  have hcolumn : workspace.column? location = some ⟨field.type.scalar, field.cells⟩ := by
    rw [column?, hfield]
    rfl
  refine ⟨field, hfield, fun {slot component} hslot hcomponent => ?_⟩
  have hcells : ∀ {i : Nat}, i < own.size →
      i * field.type.components + component < field.cells.size := by
    intro i hi
    rw [field.cells_size, hsize]
    exact Cells.number_lt hi hcomponent
  have hvalue := Array.getElem?_eq_getElem (hcells hslot)
  have hthere := hlawful.slotOf_identityOf (hlawful.identityOf?_eq hslot)
  refine ⟨_, Field.get_eq (hsize ▸ hslot) hcomponent hvalue, ?_⟩
  rw [value?_eq hcolumn, hown, Cells.byIdentity?, if_pos (hcells (hlawful.identityOf_lt hslot)),
    Cells.position_number hthere hcomponent, hvalue]

/-- The body by which every element adds a weight, known by its identity, to a component of each
of its neighbors. -/
def Kernel.scatter (kernel : Kernel) (handle : RelationHandle) {scalar : Scalar}
    (field : FieldHandle scalar) (component : Nat) (weight : Identity → scalar.Carrier)
    (element : Element) : Action Unit := do
  let identity ← Action.ofLookup element.identity?
  let neighbors ← Action.ofLookup (kernel.neighborsOf? handle element)
  let slots ← Action.ofLookup neighbors.slots?
  Action.spread field component (weight identity) (slots.map .slot)

def View.scatter (relation : Relation) {scalar : Scalar} (field : FieldHandle scalar)
    (component : Nat) (weight : Identity → scalar.Carrier) (view : View) : Action Unit := do
  let identities ← Action.ofLookup (view.neighbors relation view.identity)
  Action.spread field component (weight view.identity) (identities.map .identity)

/-- The declarations that the body needs: the kernel runs over the source kind of a relation that
it follows, and a field of the target kind is bound for additions of whole numbers. -/
structure KernelDraft.Scatters (draft : KernelDraft) (relation : Relation) (given : Incidence)
    (handle : RelationHandle) (binding : Binding) (field : FieldHandle binding.type.scalar) :
    Prop where
  kind : draft.kind = relation.source
  linked : draft.mesh.incidence relation = .ok given
  followed : draft.incidences[handle.position]? = some given
  along : handle.relation = relation
  bound : draft.bindings[field.binding]? = some binding
  target : ∃ name, binding.location = .ofMesh draft.home relation.target name
  own : ∃ permutation, binding.addressing = .own permutation
  adds : binding.access = .accumulate
  whole : binding.type.scalar.isInteger = true

section Scatter

variable {workspace : Workspace} {draft : KernelDraft} {config : Config} {kernel : Kernel}
variable {relation : Relation} {given : Incidence} {handle : RelationHandle} {binding : Binding}
variable {field : FieldHandle binding.type.scalar} {rows : List (List UInt32)} {component : Nat}
variable {weight : Identity → binding.type.scalar.Carrier}

structure Kernel.Scatters (kernel : Kernel) (given : Incidence) (handle : RelationHandle)
    (binding : Binding) (field : FieldHandle binding.type.scalar) (rows : List (List UInt32)) :
    Prop where
  kind : kernel.kind = handle.relation.source
  holds : given.Holds rows
  followed : kernel.incidences[handle.position]? = some given
  permutation : kernel.permutation = given.source
  bound : kernel.bindings[field.binding]? = some binding
  own : binding.addressing = .own given.target
  adds : binding.access = .accumulate
  whole : binding.type.scalar.isInteger = true

theorem KernelDraft.Scatters.compile (h : draft.Scatters relation given handle binding field)
    (hbound : draft.Bound workspace) (hcompile : draft.compile config = .ok kernel)
    (hholds : given.Holds rows) : kernel.Scatters given handle binding field rows := by
  obtain ⟨-, -, hpermutation, hkind, -, hincidences, hbindings, -⟩ := compile_eq_ok hcompile
  obtain ⟨-, hsource, htarget, -⟩ := hbound.mesh_laid.incidences h.linked
  obtain ⟨name, hlocation⟩ := h.target
  obtain ⟨permutation, hown⟩ := h.own
  have hfits := (hbound.bindings h.bound).permutation
  rw [hlocation, hbound.permutations, Mesh.permutation_eq_ok.mp htarget, hown] at hfits
  obtain rfl : given.target = permutation := Option.some.inj hfits
  rw [h.kind] at hpermutation
  exact ⟨hkind.trans (h.kind.trans (congrArg Relation.source h.along).symm), hholds,
    hincidences ▸ h.followed, Except.ok.inj (hpermutation.symm.trans hsource),
    hbindings ▸ h.bound, hown, h.adds, h.whole⟩

namespace Kernel.Scatters

theorem body_eq (h : kernel.Scatters given handle binding field rows) {slot : Slot}
    (hslot : slot.toNat < kernel.permutation.size) :
    kernel.scatter handle field component weight (kernel.element slot) =
      Action.spread field component (weight (kernel.permutation.identityOf slot))
        ((rows.getD (kernel.permutation.identityOf slot).toNat []).map fun identity =>
          .slot (given.target.slotOf identity)) := by
  rw [h.permutation] at hslot
  have hidentity : (kernel.element slot).identity? = some (given.source.identityOf slot) := by
    rw [Kernel.element, Element.identity?, h.permutation]
    exact h.holds.source.identityOf?_eq hslot
  have hneighbors := h.holds.neighbors?_eq hslot
  have hslots := h.holds.slots_eq hslot hneighbors
  have hrow : kernel.neighborsOf? handle (kernel.element slot) = given.neighbors? slot := by
    have hguard : guard ((kernel.element slot).kind = handle.relation.source) = some () :=
      if_pos h.kind
    rw [Kernel.neighborsOf?, hguard, Kernel.neighbors?, h.followed]
    rfl
  rw [Kernel.scatter, hidentity, hrow, hneighbors, h.permutation]
  simp only [Action.ofLookup_some_bind, hslots, List.map_map, Function.comp_def]

theorem view_eq (h : kernel.Scatters given handle binding field rows) {mesh : Mesh}
    (hlinked : mesh.incidence handle.relation = .ok given) {slot : Slot} {view : View}
    (hview : mesh.view? (kernel.element slot) = some view) :
    slot.toNat < kernel.permutation.size ∧ view.identity = kernel.permutation.identityOf slot ∧
      view.neighbors handle.relation view.identity =
        some (rows.getD view.identity.toNat []) := by
  obtain ⟨identity, hidentity, heq⟩ := Option.bind_eq_some_iff.mp hview
  obtain rfl := Option.some.inj heq
  rw [Kernel.element, Element.identity?] at hidentity
  have hslot : slot.toNat < kernel.permutation.size := by
    rw [h.permutation] at hidentity ⊢
    by_contra hout
    rw [h.holds.source.identityOf?_eq_none (Nat.le_of_not_lt hout)] at hidentity
    cases hidentity
  have hown := hidentity
  rw [h.permutation] at hslot hown ⊢
  rw [h.holds.source.identityOf?_eq hslot] at hown
  obtain rfl := Option.some.inj hown
  refine ⟨hslot, rfl, ?_⟩
  have hthere := h.holds.source.slotOf_identityOf (h.holds.source.identityOf?_eq hslot)
  simp only [Mesh.neighbors?, Mesh.incidence_eq_ok.mp hlinked, Option.bind_eq_bind,
    Option.bind_some, hthere]
  exact h.holds.neighborIdentities?_eq hslot

theorem blind (h : kernel.Scatters given handle binding field rows) {mesh : Mesh}
    (hlinked : mesh.incidence handle.relation = .ok given) :
    kernel.Blind mesh (fun _ => true) (View.scatter handle.relation field component weight)
      (kernel.scatter handle field component weight) := by
  constructor
  · intro slot view hview
    obtain ⟨hslot, hidentity, hrow⟩ := h.view_eq hlinked hview
    rw [h.body_eq hslot, Action.spread_named, View.scatter, hrow, Action.ofLookup_some_bind,
      hidentity, List.map_map]
    congr 1
    refine List.map_congr_left fun identity hmem => ?_
    have hlt := Adjacency.entry_lt h.holds.packable hmem
    have hback := h.holds.target.identityOf_slotOf (Permutation.slotOf?_eq hlt)
    simp only [Function.comp_apply, Action.nameAt_eq h.bound, Binding.name, h.own, hback]
  · intro slot view hview
    obtain ⟨-, -, hrow⟩ := h.view_eq hlinked hview
    rw [View.scatter, hrow, Action.ofLookup_some_bind]
    refine Action.spread_each fun address _ => ?_
    intro there hthere
    obtain rfl := Option.some.inj (h.bound.symm.trans hthere)
    exact ⟨rfl, rfl, h.whole⟩

theorem cell_lt (h : kernel.Scatters given handle binding field rows) (hlaid : workspace.Laid)
    (hfits : binding.Fits workspace) (hcomponent : component < binding.type.components) :
    ∃ size, workspace.shape? binding.location = some (binding.type.scalar, size) ∧
      ∀ slot : Slot, slot.toNat < given.target.size → ∃ index,
        binding.cellIndex (.slot slot) component = .ok index ∧ index < size := by
  obtain ⟨column, hcolumn, hscalar⟩ := hfits.column
  have hown : workspace.permutation? binding.location = some given.target := by
    rw [hfits.permutation, h.own]
    rfl
  have hsize := (hfits.arranged hlaid hcolumn given.target hown).2
  have hroom := hlaid.inMemory binding.location column hcolumn
  refine ⟨column.size, ?_, fun slot hslot => ?_⟩
  · rw [Workspace.shape?, hcolumn, Option.map_some, Column.shape, hscalar]
  · have hlt : slot.toNat * binding.type.components + component < column.size := by
      rw [hsize]
      exact Cells.number_lt hslot hcomponent
    refine ⟨_, ?_, hlt⟩
    rw [Binding.cellIndex, if_pos hcomponent, Binding.elementIndex, h.own]
    exact Outcome.index_eq_ok.mpr ⟨Nat.lt_trans hlt hroom, rfl⟩

theorem direct_total (h : kernel.Scatters given handle binding field rows)
    (hlaid : workspace.Laid) (hfits : binding.Fits workspace)
    (hcomponent : component < binding.type.components) {slots : List Nat}
    (hslots : ∀ slot ∈ slots, slot < kernel.permutation.size) : ∃ result,
      kernel.runDirect (kernel.scatter handle field component weight) slots workspace =
        .ok result := by
  obtain ⟨size, hshape, hcells⟩ := h.cell_lt hlaid hfits hcomponent
  have hstep : ∀ slot ∈ slots, ∀ memory,
      ((∀ i, memory.staged? i = none) ∧ memory.Keeps workspace.shape?) → ∃ result after,
        (kernel.scatter handle field component weight
          (kernel.unstaged.element slot.toUInt32)).run kernel.unstaged memory =
            .ok (result, after) ∧
          (∀ i, after.staged? i = none) ∧ after.Keeps workspace.shape? := by
    intro slot hslot memory hmemory
    have hin : slot.toUInt32.toNat < kernel.permutation.size := by
      have hlt := hslots slot hslot
      rwa [toNat_toUInt32 (Nat.lt_of_lt_of_le hlt (h.permutation ▸ h.holds.source.size_le))]
    rw [Kernel.unstaged_element, h.body_eq hin]
    have hbinding : kernel.unstaged.bindings[field.binding]? = some binding := h.bound
    refine ⟨(), Action.spread_run hbinding h.adds hshape (fun address haddress => ?_) hmemory⟩
    obtain ⟨identity, hmem, rfl⟩ := List.mem_map.mp haddress
    exact hcells _ (h.holds.target.slotOf_lt (Adjacency.entry_lt h.holds.packable hmem))
  have hstart : Mirrors kernel ⟨workspace, kernel.copies workspace, none⟩
      ⟨workspace, kernel.unstaged.copies workspace, none⟩ := .start workspace
  obtain ⟨results, after, hvisit⟩ :=
    Kernel.visit_total _ hstep ⟨hstart.plain_staged, fun _ => rfl⟩
  rw [Kernel.runDirect, hvisit]
  exact ⟨_, rfl⟩

end Kernel.Scatters

theorem KernelDraft.Scatters.changes (h : draft.Scatters relation given handle binding field)
    (hbound : draft.Bound workspace) (hcompile : draft.compile config = .ok kernel)
    (hholds : given.Holds rows) (hcomponent : component < binding.type.components)
    {identity : Identity} (hidentity : identity.toNat < kernel.permutation.size)
    (hends : (draft.reference workspace (View.scatter relation field component weight)).effects?
      identity = some (draft.changes workspace (View.scatter relation field component weight)
        identity)) :
    draft.changes workspace (View.scatter relation field component weight) identity =
      (rows.getD identity.toNat []).map fun other => ⟨binding.location,
        other.toNat * binding.type.components + component, binding.type.scalar,
        weight identity⟩ := by
  have hkernel := h.compile hbound hcompile hholds
  have hlawful := (compile_size hbound hcompile).1
  have hview := compile_view? hbound hcompile (hlawful.slotOf_lt hidentity)
  obtain ⟨-, -, hrow⟩ := hkernel.view_eq (h.along ▸ h.linked) hview
  rw [hlawful.identityOf_slotOf' hidentity, h.along] at hrow
  have hfield : (draft.bindings.map Binding.bound)[field.binding]? = some binding.bound := by
    rw [Array.getElem?_map, h.bound, Option.map_some]
  rw [Reference.effects?] at hends
  change Action.effects? _ _ (View.scatter relation field component weight
    (draft.mesh.metadata.view draft.mesh.relations draft.kind identity)) = _ at hends
  rw [View.scatter, hrow, Action.ofLookup_some_bind] at hends
  exact Action.spread_effects hfield hcomponent hends

/-- Scattering along a relation is gathering along its converse. A kernel by which every element
adds a weight to each of its neighbors comes to the end of its run, whether it stages the field or
not and in whatever order it takes the elements. It leaves in each neighbor the value from before
and the sum of the weights of the elements that the derived relation lists for it, each as often as
it is listed. -/
theorem scatter_gathers (hdeclared : draft.Declared workspace)
    (hcompile : draft.compile config = .ok kernel)
    (hscatters : draft.Scatters relation given handle binding field)
    (hstored : (draft.mesh.metadata.stored? relation).isSome = true)
    (hderived : draft.mesh.metadata.stored? relation.reversed = none) {derived : Incidence}
    (hlinked : draft.mesh.incidence relation.reversed = .ok derived)
    (hcomponent : component < binding.type.components)
    (weight : Identity → binding.type.scalar.Carrier) (schedule : Schedule) :
    ∃ results after before left,
      kernel.run (kernel.scatter handle field component weight) workspace schedule =
        .ok (results, after) ∧
      workspace.field? binding.location = some before ∧
      after.field? binding.location = some left ∧
      ∀ slot : Slot, slot.toNat < derived.size → ∃ identities value,
        derived.neighborIdentities? slot = some identities ∧
        before.get binding.type.scalar slot.toNat component = .ok value ∧
        left.get binding.type.scalar slot.toNat component = .ok (binding.type.scalar.add value
          ((identities.map weight).foldl binding.type.scalar.add binding.type.scalar.zero)) := by
  have hbound := hdeclared.bound
  obtain ⟨rows, hconverse⟩ := hbound.mesh_laid.converse hderived hstored hlinked hscatters.linked
  have hkernel := hscatters.compile hbound hcompile hconverse.givenRows
  have hfits := hbound.bindings hscatters.bound
  have hblind : kernel.Blind draft.mesh (fun _ => true)
      (View.scatter handle.relation field component weight)
      (kernel.scatter handle field component weight) :=
    hkernel.blind (hscatters.along ▸ hscatters.linked)
  rw [hscatters.along] at hblind
  have hlawful := (KernelDraft.compile_size hbound hcompile).1
  have hperm := KernelDraft.compile_order hbound hcompile schedule
  rcases KernelDraft.compile_staged hbound hcompile hblind schedule with
    ⟨_, second, -, hfails⟩ | ⟨results, after, -, hrun, -, -⟩
  · obtain ⟨result, hplain⟩ : ∃ result, kernel.runDirect
        (kernel.scatter handle field component weight) (kernel.order schedule) workspace =
          .ok result := hkernel.direct_total hbound.laid hfits hcomponent fun slot hslot =>
      List.mem_range.mp (hperm.mem_iff.mp hslot)
    rw [hplain] at hfails
    cases hfails
  obtain ⟨hends, hvalues⟩ := KernelDraft.run_changes hbound hcompile hblind hrun
  have howned := fun identity h =>
    KernelDraft.changes_owned hbound hcompile hblind h (hends identity h)
  have hchanges := fun identity h =>
    hscatters.changes hbound hcompile hconverse.givenRows hcomponent h (hends identity h)
  have hown : workspace.permutation? binding.location = some derived.source := by
    rw [hfits.permutation, hkernel.own, hconverse.source]
    rfl
  have hrevalued := Kernel.run_revalued _ hrun
  obtain ⟨before, hbefore, hold⟩ := hbound.laid.get_eq_ok hfits.type hown
  obtain ⟨left, hleft, hnew⟩ := (hrevalued.laid hbound.laid).get_eq_ok
    ((hrevalued.type binding.location).trans hfits.type)
    ((congrFun hrevalued.permutation? binding.location).trans hown)
  refine ⟨results, after, before, left, hrun, hbefore, hleft, fun slot hslot => ?_⟩
  rw [hconverse.derivedRows.size_eq] at hslot
  obtain ⟨value, hvalue, hnumber⟩ := hold hslot hcomponent
  obtain ⟨final, hfinal, hnumber'⟩ := hnew hslot hcomponent
  refine ⟨_, value, hconverse.identities hslot, hvalue, hfinal.trans (congrArg Except.ok ?_)⟩
  rw [hvalues _ _ hfits.type, hnumber, Option.map_some, Option.some.injEq, combine, if_pos rfl,
    sums_order howned hlawful hperm rfl, Effect.brought_byNumber _ hlawful.size_le hcomponent _ hchanges,
    Scalar.foldl_add hscatters.whole] at hnumber'
  · exact hnumber'.symm
  · rw [hkernel.permutation, hconverse.givenRows.rows_length]

def loopWorkspace : Workspace := { meshes := #[Traversal.loopMesh] }

def loopDraft : KernelDraft := { scatterDraft with mesh := Traversal.loopMesh }

def loopBinding : Binding :=
  ⟨⟨.ofMesh 0 .vertex "load", "load", .accumulate⟩, ⟨.u32, 1⟩, .own pathVertices⟩

theorem loopDraft_declared : loopDraft.Declared loopWorkspace := by
  have hmade : loopWorkspace.Made :=
    .mesh .empty pathDraft_accepted pathMetadata_countable Traversal.loopBlueprint_build
  have hstart : KernelDraft.start "scatter" 0 Traversal.loopMesh .edge =
      .ok { name := "scatter", home := 0, mesh := Traversal.loopMesh, kind := .edge } := rfl
  have hrelation : KernelDraft.relation
      { name := "scatter", home := 0, mesh := Traversal.loopMesh, kind := .edge }
      ⟨.edge, .vertex⟩ =
        .ok ({ loopDraft with bindings := #[], requested := [] }, ⟨0, ⟨.edge, .vertex⟩⟩) := rfl
  have hfield : KernelDraft.field { loopDraft with bindings := #[], requested := [] }
      .u32 .vertex "load" .accumulate = .ok ({ loopDraft with requested := [] }, ⟨0⟩) := rfl
  exact .stage (.field (.relation (.start hmade rfl hstart) hrelation) hfield) 0

theorem loopDraft_scatters :
    loopDraft.Scatters ⟨.edge, .vertex⟩ pathEdges ⟨0, ⟨.edge, .vertex⟩⟩ loopBinding ⟨0⟩ where
  kind := rfl
  linked := rfl
  followed := rfl
  along := rfl
  bound := rfl
  target := ⟨"load", rfl⟩
  own := ⟨pathVertices, rfl⟩
  adds := rfl
  whole := rfl

theorem scatter_gathers_loop :
    loopDraft.Declared loopWorkspace ∧
    loopDraft.compile { patchContiguous := true } = .ok scatterKernel ∧
    loopDraft.Scatters ⟨.edge, .vertex⟩ pathEdges ⟨0, ⟨.edge, .vertex⟩⟩ loopBinding ⟨0⟩ ∧
    ∃ results after left,
      scatterKernel.run (scatterKernel.scatter ⟨0, ⟨.edge, .vertex⟩⟩
        (⟨0⟩ : FieldHandle .u32) 0 (· + 1)) loopWorkspace = .ok (results, after) ∧
      after.field? (.ofMesh 0 .vertex "load") = some left ∧
      left.get .u32 0 0 = .ok (3 : UInt32) := by
  have hcompile : loopDraft.compile { patchContiguous := true } = .ok scatterKernel := rfl
  refine ⟨loopDraft_declared, hcompile, loopDraft_scatters, ?_⟩
  obtain ⟨results, after, before, left, hrun, hbefore, hleft, hvalues⟩ :=
    scatter_gathers loopDraft_declared hcompile loopDraft_scatters rfl rfl
      (show Traversal.loopMesh.incidence ⟨.vertex, .edge⟩ = .ok _ from rfl)
      (show 0 < loopBinding.type.components by decide)
      (fun identity : Identity => (identity + 1 : UInt32)) .ascending
  cases hbefore
  obtain ⟨identities, value, hidentities, hvalue, hsum⟩ := hvalues 0 (by decide)
  cases hidentities
  cases hvalue
  exact ⟨results, after, left, hrun, hleft, hsum⟩

end Scatter

end MeshLayout
