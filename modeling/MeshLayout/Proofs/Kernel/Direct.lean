import MeshLayout.Proofs.Export
import MeshLayout.Proofs.Kernel.Pending
import MeshLayout.Proofs.Kernel.Reference
import MeshLayout.Proofs.Kernel.Revalue

/-!
# Effects of a run without staging

Named by identity, an action of a run without staging has the effects that it has on the values
in the order of identities, as long as it reads only fields that the kernel leaves alone. The
values of all fields are then known by the effects so far.
-/

set_option autoImplicit false

namespace MeshLayout

namespace Binding

def name (binding : Binding) : Address → Address
  | .identity identity => .identity identity
  | .slot slot =>
    match binding.addressing with
    | .own permutation =>
      match permutation.identityOf? slot with
      | some identity => .identity identity
      | none => .slot slot
    | .foreign _ | .loose => .slot slot

theorem cellIndex_eq_ok {binding : Binding} {address : Address} {component index : Nat}
    (h : binding.cellIndex address component = .ok index) :
    component < binding.type.components ∧ ∃ element, binding.elementIndex address = .ok element ∧
      index = element * binding.type.components + component := by
  unfold cellIndex at h
  split at h
  · next hcomponent =>
    obtain ⟨element, helement, h⟩ := bind_eq_ok.mp h
    exact ⟨hcomponent, element, helement, (Outcome.index_eq_ok.mp h).2.symm⟩
  · cases h

theorem elementIndex_identity (binding : Binding) (identity : Identity) :
    binding.elementIndex (.identity identity) = match binding.addressing.permutation? with
      | some own => Outcome.ofLookup (own.slotOf? identity) >>= fun slot => .ok slot.toNat
      | none => .ok identity.toNat := by
  unfold elementIndex
  cases binding.addressing with
  | own permutation => rfl
  | foreign permutation => rfl
  | loose => rfl

theorem elementIndex_slot {binding : Binding} {slot : Slot} {element : Nat}
    (h : binding.elementIndex (.slot slot) = .ok element) :
    (∃ own, binding.addressing = .own own) ∧ element = slot.toNat := by
  unfold elementIndex at h
  cases haddressing : binding.addressing with
  | own permutation =>
    simp only [haddressing] at h
    cases h
    exact ⟨⟨permutation, rfl⟩, rfl⟩
  | foreign permutation =>
    simp only [haddressing] at h
    cases h
  | loose =>
    simp only [haddressing] at h
    cases h

variable {binding : Binding} {component size : Nat}

theorem number?_of_slot {own : Permutation} (hsize : size = own.size * binding.type.components)
    {identity : Identity} {slot : Slot} (hslot : own.slotOf? identity = some slot)
    (h : component < binding.type.components) :
    ∃ number, binding.type.number? (.identity identity) component = some number ∧ number < size ∧
      Cells.position (some own) binding.type.components number =
        slot.toNat * binding.type.components + component := by
  apply Exists.intro (identity.toNat * binding.type.components + component)
  have hlt := (Array.getElem?_eq_some_iff.mp hslot).1
  refine ⟨?_, ?_, Cells.position_number hslot h⟩
  · rw [FieldType.number?, if_pos h]
  · rw [hsize]
    exact Cells.number_lt hlt h

theorem number?_of_cellIndex
    (harranged : Cells.Arranged binding.addressing.permutation? binding.type.components size)
    {address : Address} {index : Nat} (hindex : binding.cellIndex address component = .ok index)
    (hlt : index < size) :
    ∃ number, binding.type.number? (binding.name address) component = some number ∧ number < size ∧
      Cells.position binding.addressing.permutation? binding.type.components number = index := by
  obtain ⟨hcomponent, element, helement, rfl⟩ := cellIndex_eq_ok hindex
  cases address with
  | identity identity =>
    rw [elementIndex_identity] at helement
    generalize binding.addressing.permutation? = permutation at harranged helement
    cases permutation with
    | none =>
      cases helement
      exact ⟨_, if_pos hcomponent, hlt, rfl⟩
    | some own =>
      obtain ⟨-, hsize⟩ := harranged own rfl
      obtain ⟨slot, hslot, heq⟩ := Outcome.ofLookup_bind_eq_ok.mp helement
      cases heq
      exact number?_of_slot hsize hslot hcomponent
  | slot slot =>
    obtain ⟨⟨own, haddressing⟩, rfl⟩ := elementIndex_slot helement
    rw [haddressing] at harranged ⊢
    obtain ⟨hlawful, hsize⟩ := harranged own rfl
    have hin : slot.toNat < own.size := by
      rw [hsize] at hlt
      exact Nat.lt_of_mul_lt_mul_right (Nat.lt_of_le_of_lt (Nat.le_add_right _ _) hlt)
    have hidentity := hlawful.identityOf?_eq hin
    simp only [name, haddressing, hidentity]
    exact number?_of_slot hsize (hlawful.slotOf_identityOf hidentity) hcomponent

section Fits

variable {workspace : Workspace}

theorem Fits.scalar_eq (h : binding.Fits workspace) {column : Column}
    (hcolumn : workspace.column? binding.location = some column) :
    column.scalar = binding.type.scalar := by
  obtain ⟨there, hthere, hscalar⟩ := h.column
  rw [hcolumn] at hthere
  rw [Option.some.inj hthere, hscalar]

theorem Fits.arranged (h : binding.Fits workspace) (hlaid : workspace.Laid) {column : Column}
    (hcolumn : workspace.column? binding.location = some column) :
    Cells.Arranged (workspace.permutation? binding.location) binding.type.components
      column.size := by
  obtain ⟨field, hfield, rfl⟩ := Option.map_eq_some_iff.mp hcolumn
  have htype := h.type
  rw [hfield, Option.map_some, Option.some.injEq] at htype
  have harranged := hlaid.arranged hfield
  rwa [htype] at harranged

theorem Fits.value? (h : binding.Fits workspace) (hlaid : workspace.Laid)
    {cells : Array binding.type.scalar.Carrier}
    (hcolumn : workspace.column? binding.location = some ⟨binding.type.scalar, cells⟩)
    {address : Address} {index : Nat} (hindex : binding.cellIndex address component = .ok index)
    {value : binding.type.scalar.Carrier} (hvalue : cells[index]? = some value) :
    ∃ number, binding.type.number? (binding.name address) component = some number ∧
      number < cells.size ∧ Cells.position (workspace.permutation? binding.location)
        binding.type.components number = index ∧
      workspace.value? binding.location binding.type number = some value := by
  have harranged := h.arranged hlaid hcolumn
  have hlt := (Array.getElem?_eq_some_iff.mp hvalue).1
  rw [h.permutation] at harranged ⊢
  obtain ⟨number, hnumber, hin, hposition⟩ := number?_of_cellIndex harranged hindex hlt
  change number < cells.size at hin
  refine ⟨number, hnumber, hin, hposition, ?_⟩
  rw [Workspace.value?_eq hcolumn, h.permutation, Cells.byIdentity?, if_pos hin, hposition, hvalue]

end Fits

end Binding

namespace Action

variable {α : Type}

def named (bindings : Array Binding) : Action α → Action Unit
  | done _ => done ()
  | fail fault => fail fault
  | read scalar field address component next =>
    read scalar field (nameAt field.binding address) component fun value =>
      (next value).named bindings
  | write scalar field address component value next =>
    write scalar field (nameAt field.binding address) component value (next.named bindings)
  | accumulate scalar field address component value next =>
    accumulate scalar field (nameAt field.binding address) component value (next.named bindings)
where
  nameAt (i : Nat) (address : Address) : Address :=
    match bindings[i]? with
    | some binding => binding.name address
    | none => address

theorem nameAt_eq {bindings : Array Binding} {i : Nat} {binding : Binding}
    (h : bindings[i]? = some binding) (address : Address) :
    named.nameAt bindings i address = binding.name address := by
  simp only [named.nameAt, h]

end Action

namespace Kernel

variable {α : Type}

def effectsAt? (kernel : Kernel) (tables : Location → Option Column) (body : Element → Action α)
    (slot : Nat) : Option (List Effect) :=
  ((body (kernel.element slot.toUInt32)).named kernel.bindings).effects?
    (kernel.bindings.map Binding.bound) tables

def Leaves (kernel : Kernel) (location : Location) : Prop :=
  ∀ (i : Nat) (binding : Binding), kernel.bindings[i]? = some binding →
    binding.location = location → binding.access = .read

/-- What a program may ask for the element of an identity: reads of fields that no binding
changes, overwrites of that element outside the fields of sums, and additions of whole numbers,
of the type of the field, to fields of sums. -/
def Allows (kernel : Kernel) (sums : Location → Bool) (identity : Identity) (request : Request) :
    Prop :=
  ∀ binding, kernel.bindings[request.binding]? = some binding →
    match request.access with
    | .read => kernel.Leaves binding.location
    | .write => request.address = .identity identity ∧ sums binding.location = false
    | .accumulate => sums binding.location = true ∧ binding.type.scalar = request.scalar ∧
        request.scalar.isInteger = true

end Kernel

/-- What values make of a cell to which they are brought: their sum with it in a field of sums,
and the last of them in any other. -/
def combine (sums : Location → Bool) (location : Location) {scalar : Scalar}
    (values : List scalar.Carrier) (value : scalar.Carrier) : scalar.Carrier :=
  if sums location then values.foldl scalar.add value else values.getLastD value

@[simp] theorem combine_nil (sums : Location → Bool) (location : Location) {scalar : Scalar} :
    combine sums location ([] : List scalar.Carrier) = id := by
  ext1 value
  unfold combine
  split
  · rfl
  · rfl

theorem combine_append_toList (sums : Location → Bool) (location : Location) {scalar : Scalar}
    (values : List scalar.Carrier) (new : Option scalar.Carrier) (value : scalar.Carrier) :
    combine sums location (values ++ new.toList) value =
      combine sums location new.toList (combine sums location values value) := by
  cases new with
  | none => rw [Option.toList_none, List.append_nil, combine_nil, id]
  | some new =>
    unfold combine
    by_cases hsums : sums location = true
    · simp [hsums]
    · rw [if_neg hsums, if_neg hsums, Option.toList_some, List.getLastD_concat]
      rfl

namespace Effect

theorem brought_concat (effects : List Effect) (effect : Effect) (location : Location)
    (scalar : Scalar) (number : Nat) : brought (effects ++ [effect]) location scalar number =
      brought effects location scalar number ++ (effect.at? location scalar number).toList := by
  rw [brought, brought, List.filterMap_append]
  cases hvalue : effect.at? location scalar number with
  | none => simp [hvalue]
  | some value => simp [hvalue]

theorem at?_self (location : Location) (number : Nat) (scalar : Scalar)
    (value : scalar.Carrier) :
    (Effect.mk location number scalar value).at? location scalar number = some value := by
  rw [at?, dif_pos rfl, if_pos ⟨rfl, rfl⟩]

theorem at?_eq_none {effect : Effect} {location : Location} {number : Nat} (scalar : Scalar)
    (h : ¬(effect.location = location ∧ effect.number = number)) :
    effect.at? location scalar number = none := by
  simp only [at?, if_neg h, dite_eq_ite, ite_self]

end Effect

namespace Workspace

theorem value?_change {workspace : Workspace} {sums : Location → Bool} {location : Location}
    {type : FieldType} {cells : Array type.scalar.Carrier}
    (hcolumn : workspace.column? location = some ⟨type.scalar, cells⟩)
    (harranged : Cells.Arranged (workspace.permutation? location) type.components cells.size)
    {number : Nat} (hin : number < cells.size) {before value : type.scalar.Carrier}
    (hbefore : workspace.value? location type number = some before) {other : Location}
    {otherType : FieldType} (hsame : other = location → otherType = type) (otherNumber : Nat) :
    (workspace.withColumn location ⟨type.scalar, cells.setIfInBounds
      (Cells.position (workspace.permutation? location) type.components number)
      (combine sums location [value] before)⟩).value? other otherType otherNumber =
      (workspace.value? other otherType otherNumber).map (combine sums other
        ((Effect.mk location number type.scalar value).at? other otherType.scalar
          otherNumber).toList) := by
  by_cases hlocation : other = location
  · obtain rfl := hsame hlocation
    subst hlocation
    rw [value?_withColumn_set hcolumn harranged hin]
    by_cases hnumber : otherNumber = number
    · subst hnumber
      rw [if_pos rfl, hbefore, Option.map_some, Effect.at?_self, Option.toList_some]
    · rw [if_neg hnumber, Effect.at?_eq_none _ (fun h => hnumber h.2.symm), Option.toList_none,
        combine_nil, Option.map_id_apply]
  · rw [value?_withColumn_ne _ _ hlocation, Effect.at?_eq_none _ (fun h => hlocation h.1.symm),
      Option.toList_none, combine_nil, Option.map_id_apply]

def Tabulates (workspace : Workspace) (tables : Location → Option Column) : Prop :=
  ∀ location type, (workspace.field? location).map Field.type = some type →
    ∃ values, tables location = some ⟨type.scalar, values⟩ ∧
      ∀ number, values[number]? = workspace.value? location type number

theorem Laid.tabulates {workspace : Workspace} (h : workspace.Laid) :
    workspace.Tabulates fun location => (workspace.unload location).toOption := by
  intro location type htype
  obtain ⟨values, hunload, hvalues⟩ := h.unload_eq htype
  exact ⟨values, by simp only [hunload, Except.toOption], hvalues⟩

end Workspace

/-- A memory of a run without staging after the given effects. -/
structure Direct (kernel : Kernel) (sums : Location → Bool) (initial : Workspace)
    (effects : List Effect) (memory : Memory) : Prop where
  staged : ∀ i, memory.staged? i = none
  revalued : initial.Revalued memory.workspace
  left : ∀ {location}, kernel.Leaves location →
    memory.workspace.column? location = initial.column? location
  values : ∀ {location type}, (initial.field? location).map Field.type = some type →
    ∀ number, memory.workspace.value? location type number =
      (initial.value? location type number).map
        (combine sums location (Effect.brought effects location type.scalar number))

namespace Direct

variable {α : Type} {kernel : Kernel} {sums : Location → Bool} {initial : Workspace}
variable {tables : Location → Option Column} {past : List Effect} {memory after : Memory}
variable {scalar : Scalar}

theorem read (h : Direct kernel sums initial past memory) (hlaid : initial.Laid)
    (hfits : kernel.Fits initial) (htables : initial.Tabulates tables)
    {field : FieldHandle scalar} {address : Address} {component : Nat} {value : scalar.Carrier}
    {binding : Binding} (hbinding : kernel.bindings[field.binding]? = some binding)
    (hleaves : kernel.Leaves binding.location)
    (hread : memory.read kernel field address component = .ok value) :
    ∃ number values, binding.type.number? (binding.name address) component = some number ∧
      (tables binding.location).bind (·.as? scalar) = some values ∧
      values[number]? = some value := by
  unfold Memory.read at hread
  simp only [hbinding, h.staged, h.left hleaves, Outcome.ofLookup_some, ok_bind] at hread
  obtain ⟨index, hindex, hread⟩ := bind_eq_ok.mp hread
  obtain ⟨⟨own, cells⟩, hcolumn, hread⟩ := Outcome.ofLookup_bind_eq_ok.mp hread
  obtain rfl : own = binding.type.scalar := (hfits hbinding).scalar_eq hcolumn
  by_cases hscalar : binding.type.scalar = scalar
  · subst hscalar
    rw [Column.loadCell, Column.as?_mk, Outcome.ofLookup_eq_ok] at hread
    obtain ⟨number, hnumber, -, -, hvalue⟩ := (hfits hbinding).value? hlaid hcolumn hindex hread
    obtain ⟨values, htable, hvalues⟩ := htables binding.location binding.type (hfits hbinding).type
    refine ⟨number, values, hnumber, ?_, ?_⟩
    · rw [htable, Option.bind_some, Column.as?_mk]
    · rw [hvalues, hvalue]
  · rw [Column.loadCell, Column.as?_eq_none.mpr hscalar] at hread
    cases hread

theorem change (h : Direct kernel sums initial past memory) (hlaid : initial.Laid)
    (hfits : kernel.Fits initial) (htables : initial.Tabulates tables)
    {field : FieldHandle scalar} {binding : Binding}
    (hbinding : kernel.bindings[field.binding]? = some binding) (hchanges : binding.access ≠ .read)
    {address : Address} {component index : Nat}
    (hindex : binding.cellIndex address component = .ok index)
    {update : scalar.Carrier → scalar.Carrier} (value : scalar.Carrier)
    (hupdate : ∀ old, update old = combine sums binding.location [value] old)
    (hstep : memory.updateField binding.location scalar index update = .ok after) :
    ∃ effect, change? (kernel.bindings.map Binding.bound) tables binding.access field
        (Action.named.nameAt kernel.bindings field.binding address) component value = some effect ∧
      Direct kernel sums initial (past ++ [effect]) after := by
  obtain ⟨old, column, hold, hcell, rfl⟩ := Memory.updateField_eq_ok.mp hstep
  obtain ⟨cells, before, rfl, hbefore, rfl⟩ := Column.updateCell_eq_ok.mp hcell
  have hfit := h.revalued.fits (hfits hbinding)
  have hnow := h.revalued.laid hlaid
  obtain rfl : scalar = binding.type.scalar := hfit.scalar_eq hold
  obtain ⟨number, hnumber, hin, rfl, hvalue⟩ := hfit.value? hnow hold hindex hbefore
  obtain ⟨values, htable, hvalues⟩ := htables binding.location binding.type (hfits hbinding).type
  have hsome : number < values.size := by
    have hpast := h.values (hfits hbinding).type number
    rw [hvalue, ← hvalues] at hpast
    obtain ⟨first, hfirst, -⟩ := Option.map_eq_some_iff.mp hpast.symm
    exact (Array.getElem?_eq_some_iff.mp hfirst).1
  apply Exists.intro ⟨binding.location, number, binding.type.scalar, value⟩
  constructor
  · rw [change?_eq_some]
    refine ⟨binding.bound, number, values, ?_, rfl, ?_, ?_, hsome, rfl⟩
    · rw [Array.getElem?_map, hbinding, Option.map_some]
    · rw [Action.nameAt_eq hbinding]
      exact hnumber
    · rw [show tables binding.bound.location = _ from htable, Option.bind_some, Column.as?_mk]
  · refine ⟨h.staged, h.revalued.store _ _, ?_, ?_⟩
    · intro location hleaves
      have hne : location ≠ binding.location := fun heq =>
        hchanges (hleaves field.binding binding hbinding heq.symm)
      rw [Workspace.column?_withColumn_ne _ _ hne]
      exact h.left hleaves
    · intro location type htype other
      have hsame : location = binding.location → type = binding.type := by
        rintro rfl
        exact Option.some.inj (htype.symm.trans (hfits hbinding).type)
      rw [hupdate, Workspace.value?_change hold (hfit.arranged hnow hold) hin hvalue hsame,
        h.values htype, Option.map_map, Effect.brought_concat]
      congr 1
      ext1 first
      exact (combine_append_toList _ _ _ _ _).symm

theorem run (h : Direct kernel sums initial past memory) (hlaid : initial.Laid)
    (hfits : kernel.Fits initial) (htables : initial.Tabulates tables) {identity : Identity}
    (action : Action α)
    (hallowed : (action.named kernel.bindings).Each (kernel.Allows sums identity)) {result : α}
    (hrun : action.run kernel memory = .ok (result, after)) :
    ∃ effects, (action.named kernel.bindings).effects? (kernel.bindings.map Binding.bound)
        tables = some effects ∧
      Direct kernel sums initial (past ++ effects) after := by
  induction action generalizing memory past with
  | done _ =>
    cases hrun
    exact ⟨[], rfl, by rwa [List.append_nil]⟩
  | fail _ => cases hrun
  | read scalar field address component next ih =>
    obtain ⟨value, hread, hrun⟩ := bind_eq_ok.mp hrun
    obtain ⟨hallows, hnext⟩ := hallowed
    obtain ⟨binding, hbinding, -⟩ := Outcome.ofLookup_bind_eq_ok.mp hread
    obtain ⟨number, values, hnumber, htable, hvalue⟩ :=
      h.read hlaid hfits htables hbinding (hallows binding hbinding) hread
    obtain ⟨effects, heffects, hafter⟩ := ih value h (hnext value) hrun
    apply Exists.intro effects
    constructor
    · simp only [Action.named, Action.effects?, Array.getElem?_map, hbinding, Option.map_some,
        Binding.bound, Action.nameAt_eq hbinding, hnumber, htable, hvalue, heffects,
        Option.bind_eq_bind, Option.bind_some]
    · exact hafter
  | write scalar field address component value next ih =>
    obtain ⟨written, hwrite, hrun⟩ := bind_eq_ok.mp hrun
    obtain ⟨hallows, hnext⟩ := hallowed
    obtain ⟨binding, index, hbinding, haccess, hindex, hstep⟩ := Memory.write_eq_ok.mp hwrite
    have hsums : sums binding.location = false := (hallows binding hbinding).2
    obtain ⟨effect, heffect, hwritten⟩ := h.change hlaid hfits htables hbinding
      (by simp [haccess]) hindex value (by intro old; simp [combine, hsums]) hstep
    obtain ⟨effects, heffects, hafter⟩ := ih hwritten hnext hrun
    rw [haccess] at heffect
    apply Exists.intro (effect :: effects)
    constructor
    · rw [Action.named, Action.effects?, heffect, heffects]
      rfl
    · rwa [List.append_assoc] at hafter
  | accumulate scalar field address component value next ih =>
    obtain ⟨added, hadd, hrun⟩ := bind_eq_ok.mp hrun
    obtain ⟨hallows, hnext⟩ := hallowed
    obtain ⟨binding, index, hbinding, haccess, hindex, hstep⟩ :=
      Memory.accumulate_direct (h.staged _) hadd
    have hsums : sums binding.location = true := (hallows binding hbinding).1
    obtain ⟨effect, heffect, hadded⟩ := h.change hlaid hfits htables hbinding
      (by simp [haccess]) hindex value (by intro old; simp [combine, hsums]) hstep
    obtain ⟨effects, heffects, hafter⟩ := ih hadded hnext hrun
    rw [haccess] at heffect
    apply Exists.intro (effect :: effects)
    constructor
    · rw [Action.named, Action.effects?, heffect, heffects]
      rfl
    · rwa [List.append_assoc] at hafter

theorem visit (h : Direct kernel sums initial past memory) (hlaid : initial.Laid)
    (hfits : kernel.Fits initial) (htables : initial.Tabulates tables)
    (body : Element → Action α) (slots : List Nat)
    (hallowed : ∀ slot ∈ slots, ∃ identity,
      ((body (kernel.element slot.toUInt32)).named kernel.bindings).Each
        (kernel.Allows sums identity)) {results : List α}
    (hvisit : kernel.visit body slots memory = .ok (results, after)) :
    ∃ runs, slots.mapM (kernel.effectsAt? tables body) = some runs ∧
      Direct kernel sums initial (past ++ runs.flatten) after := by
  induction slots generalizing memory past results with
  | nil =>
    cases hvisit
    exact ⟨[], rfl, by rwa [List.flatten_nil, List.append_nil]⟩
  | cons slot rest ih =>
    obtain ⟨result, between, later, hhere, hlater, -⟩ := Kernel.visit_cons.mp hvisit
    obtain ⟨identity, hslot⟩ := hallowed slot List.mem_cons_self
    obtain ⟨effects, heffects, hbetween⟩ := h.run hlaid hfits htables _ hslot hhere
    obtain ⟨runs, hruns, hafter⟩ := ih hbetween
      (fun other hother => hallowed other (List.mem_cons_of_mem _ hother)) hlater
    apply Exists.intro (effects :: runs)
    constructor
    · rw [List.mapM_cons, Kernel.effectsAt?, heffects, hruns]
      rfl
    · rwa [List.flatten_cons, ← List.append_assoc]

end Direct

end MeshLayout
