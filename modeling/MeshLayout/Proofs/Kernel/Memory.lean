import MeshLayout.Kernel.Run
import MeshLayout.Proofs.Kernel.Staging
import MeshLayout.Proofs.Partition
import MeshLayout.Proofs.Workspace

/-!
# Steps of a running kernel

An overwrite or an addition either meets a fault or changes one cell, and is never refused. What
a run has read so far is kept as a list of readings, also if the run ends in a fault.
-/

set_option autoImplicit false

namespace MeshLayout

namespace Column

theorem updateCell_eq_ok {column updated : Column} {scalar : Scalar} {index : Nat}
    {update : scalar.Carrier → scalar.Carrier} :
    column.updateCell scalar index update = .ok updated ↔
      ∃ (cells : Array scalar.Carrier) (old : scalar.Carrier), column = ⟨scalar, cells⟩ ∧
        cells[index]? = some old ∧ updated = ⟨scalar, cells.setIfInBounds index (update old)⟩ := by
  unfold updateCell
  cases hcells : column.as? scalar with
  | none =>
    constructor
    · intro h
      cases h
    · rintro ⟨cells, old, rfl, -, -⟩
      simp at hcells
  | some cells =>
    obtain rfl := as?_eq_some.mp hcells
    simp only [Outcome.ofLookup_bind_eq_ok, pure_eq_ok, Except.ok.injEq]
    constructor
    · rintro ⟨old, hold, rfl⟩
      exact ⟨cells, old, rfl, hold, rfl⟩
    · rintro ⟨same, old, heq, hold, rfl⟩
      cases heq
      exact ⟨old, hold, rfl⟩

theorem cell?_of_loadCell {column : Column} {scalar : Scalar} {index : Nat}
    {value : scalar.Carrier} (h : column.loadCell scalar index = .ok value) :
    column.cell? index = some ⟨scalar, value⟩ := by
  unfold loadCell at h
  split at h
  · next cells hcells =>
    obtain rfl := as?_eq_some.mp hcells
    simp only [cell?, Outcome.ofLookup_eq_ok.mp h, Option.map_some]
  · cases h

theorem loadCell_unrefused (column : Column) (scalar : Scalar) (index : Nat) :
    (column.loadCell scalar index).Unrefused := by
  unfold loadCell
  cases column.as? scalar with
  | none => exact .fault _
  | some cells => exact .ofLookup _

theorem loadCell_of_shape {column other : Column} {scalar : Scalar} {index : Nat}
    {value : scalar.Carrier} (h : column.shape = other.shape)
    (hload : column.loadCell scalar index = .ok value) :
    ∃ value, other.loadCell scalar index = .ok value := by
  obtain ⟨own, cells⟩ := other
  obtain ⟨values, rfl, hsize⟩ := exists_cells h
  unfold loadCell at hload ⊢
  by_cases hscalar : own = scalar
  · subst hscalar
    rw [as?_mk] at hload ⊢
    have hlt := (Array.getElem?_eq_some_iff.mp (Outcome.ofLookup_eq_ok.mp hload)).1
    rw [hsize] at hlt
    exact ⟨cells[index], Outcome.ofLookup_eq_ok.mpr (Array.getElem?_eq_getElem hlt)⟩
  · rw [as?_eq_none.mpr hscalar] at hload
    cases hload

theorem updateCell_unrefused (column : Column) (scalar : Scalar) (index : Nat)
    (update : scalar.Carrier → scalar.Carrier) :
    (column.updateCell scalar index update).Unrefused := by
  unfold updateCell
  cases column.as? scalar with
  | none => exact .fault _
  | some cells => exact (Outcome.Unrefused.ofLookup _).bind fun _ => .ok _

theorem updateCell_shape {column updated : Column} {scalar : Scalar} {index : Nat}
    {update : scalar.Carrier → scalar.Carrier}
    (h : column.updateCell scalar index update = .ok updated) : updated.shape = column.shape := by
  obtain ⟨cells, old, rfl, -, rfl⟩ := updateCell_eq_ok.mp h
  simp [shape, size]

theorem updateCell_cell {column updated : Column} {scalar : Scalar} {index other : Nat}
    {update : scalar.Carrier → scalar.Carrier}
    (h : column.updateCell scalar index update = .ok updated) (hother : other ≠ index) :
    updated.cell? other = column.cell? other := by
  obtain ⟨cells, old, rfl, -, rfl⟩ := updateCell_eq_ok.mp h
  simp only [cell?, Array.getElem?_setIfInBounds_ne hother.symm]

end Column

theorem Binding.cellIndex_unrefused (binding : Binding) (address : Address) (component : Nat) :
    (binding.cellIndex address component).Unrefused := by
  have helement : (binding.elementIndex address).Unrefused := by
    unfold elementIndex
    cases address with
    | slot slot => cases binding.addressing with
      | own => exact .ok _
      | foreign => exact .fault _
      | loose => exact .fault _
    | identity identity => cases binding.addressing with
      | own => exact (Outcome.Unrefused.ofLookup _).bind fun _ => .ok _
      | foreign => exact (Outcome.Unrefused.ofLookup _).bind fun _ => .ok _
      | loose => exact .ok _
  unfold cellIndex
  split
  · apply helement.bind
    intro element
    unfold Outcome.index
    split
    · exact .ok _
    · exact .fault _
  · exact .fault _

namespace Memory

variable {memory plain after : Memory} {kernel : Kernel} {scalar : Scalar} {field : FieldHandle scalar}
variable {address : Address} {component : Nat} {value : scalar.Carrier}

@[simp] theorem read_unstaged : memory.read kernel.unstaged field address component =
    memory.read kernel field address component := rfl

@[simp] theorem write_unstaged : memory.write kernel.unstaged field address component value =
    memory.write kernel field address component value := rfl

@[simp] theorem accumulate_unstaged :
    memory.accumulate kernel.unstaged field address component value =
      memory.accumulate kernel field address component value := rfl

theorem updateField_eq_ok {location : Location} {index : Nat}
    {update : scalar.Carrier → scalar.Carrier} :
    memory.updateField location scalar index update = .ok after ↔
      ∃ old column, memory.workspace.column? location = some old ∧
        old.updateCell scalar index update = .ok column ∧
        after = { memory with workspace := memory.workspace.withColumn location column } := by
  unfold updateField
  simp only [Outcome.ofLookup_bind_eq_ok]
  constructor
  · rintro ⟨old, hold, h⟩
    obtain ⟨column, hcolumn, h⟩ := bind_eq_ok.mp h
    cases h
    exact ⟨old, column, hold, hcolumn, rfl⟩
  · rintro ⟨old, column, hold, hcolumn, rfl⟩
    exact ⟨old, hold, bind_eq_ok.mpr ⟨column, hcolumn, rfl⟩⟩

theorem write_eq_ok : memory.write kernel field address component value = .ok after ↔
    ∃ binding index, kernel.bindings[field.binding]? = some binding ∧ binding.access = .write ∧
      binding.cellIndex address component = .ok index ∧
      memory.updateField binding.location scalar index (fun _ => value) = .ok after := by
  unfold write
  simp only [Outcome.ofLookup_bind_eq_ok]
  constructor
  · rintro ⟨binding, hbinding, h⟩
    split at h
    · next haccess =>
      obtain ⟨index, hindex, h⟩ := bind_eq_ok.mp h
      exact ⟨binding, index, hbinding, haccess, hindex, h⟩
    · cases h
  · rintro ⟨binding, index, hbinding, haccess, hindex, h⟩
    exact ⟨binding, hbinding, by rw [if_pos haccess, hindex]; exact h⟩

theorem accumulate_cases
    (h : memory.accumulate kernel field address component value = .ok after) :
    ∃ binding index, kernel.bindings[field.binding]? = some binding ∧
      binding.access = .accumulate ∧ binding.cellIndex address component = .ok index ∧
      (memory.staged? field.binding = none ∧
        memory.updateField binding.location scalar index (scalar.add · value) = .ok after ∨
      (∃ ledgers, memory.ledgers = some ledgers ∧ (memory.staged? field.binding).isSome ∧
        after = ⟨memory.workspace, memory.staged,
          some (ledgers.modify field.binding (Option.map (·.add scalar index value)))⟩) ∨
      ∃ column copy, memory.ledgers = none ∧ memory.staged? field.binding = some column ∧
        column.updateCell scalar index (scalar.add · value) = .ok copy ∧
        after = ⟨memory.workspace, memory.staged.setIfInBounds field.binding (some copy), none⟩) := by
  unfold accumulate at h
  simp only [Outcome.ofLookup_bind_eq_ok] at h
  obtain ⟨binding, hbinding, h⟩ := h
  split at h
  · next haccess =>
    obtain ⟨index, hindex, h⟩ := bind_eq_ok.mp h
    refine ⟨binding, index, hbinding, haccess, hindex, ?_⟩
    split at h
    · next hnone => exact .inl ⟨hnone, h⟩
    · next hsome hledgers =>
      cases h
      exact .inr (.inl ⟨_, hledgers, by rw [hsome]; rfl, rfl⟩)
    · next column hcolumn hledgers =>
      obtain ⟨copy, hcopy, h⟩ := bind_eq_ok.mp h
      cases h
      exact .inr (.inr ⟨column, copy, hledgers, hcolumn, hcopy, by rw [hledgers]⟩)
  · cases h

theorem accumulate_direct (hunstaged : memory.staged? field.binding = none)
    (h : memory.accumulate kernel field address component value = .ok after) :
    ∃ binding index, kernel.bindings[field.binding]? = some binding ∧
      binding.access = .accumulate ∧ binding.cellIndex address component = .ok index ∧
      memory.updateField binding.location scalar index (scalar.add · value) = .ok after := by
  obtain ⟨binding, index, hbinding, haccess, hindex, ⟨-, hupdate⟩ | ⟨ledgers, -, hstaged, -⟩ |
    ⟨column, copy, -, hstaged, -⟩⟩ := accumulate_cases h
  · exact ⟨binding, index, hbinding, haccess, hindex, hupdate⟩
  · rw [hunstaged] at hstaged
    cases hstaged
  · rw [hunstaged] at hstaged
    cases hstaged

theorem updateField_unrefused (memory : Memory) (location : Location) (scalar : Scalar)
    (index : Nat) (update : scalar.Carrier → scalar.Carrier) :
    (memory.updateField location scalar index update).Unrefused := by
  apply (Outcome.Unrefused.ofLookup _).bind
  intro column
  exact (column.updateCell_unrefused scalar index update).bind fun _ => .ok _

theorem read_unrefused (memory : Memory) (kernel : Kernel) (field : FieldHandle scalar)
    (address : Address) (component : Nat) :
    (memory.read kernel field address component).Unrefused := by
  apply (Outcome.Unrefused.ofLookup _).bind
  intro binding
  apply (binding.cellIndex_unrefused address component).bind
  intro index
  split
  · exact (Outcome.Unrefused.ofLookup _).bind fun column => column.loadCell_unrefused scalar index
  · exact (Column.loadCell_unrefused _ scalar index).bind fun _ => .ok _

theorem write_unrefused (memory : Memory) (kernel : Kernel) (field : FieldHandle scalar)
    (address : Address) (component : Nat) (value : scalar.Carrier) :
    (memory.write kernel field address component value).Unrefused := by
  apply (Outcome.Unrefused.ofLookup _).bind
  intro binding
  split
  · exact (binding.cellIndex_unrefused address component).bind fun _ =>
      memory.updateField_unrefused _ _ _ _
  · exact .fault _

theorem accumulate_unrefused (memory : Memory) (kernel : Kernel) (field : FieldHandle scalar)
    (address : Address) (component : Nat) (value : scalar.Carrier) :
    (memory.accumulate kernel field address component value).Unrefused := by
  apply (Outcome.Unrefused.ofLookup _).bind
  intro binding
  split
  · apply (binding.cellIndex_unrefused address component).bind
    intro index
    split
    · exact memory.updateField_unrefused _ _ _ _
    · exact .ok _
    · exact (Column.updateCell_unrefused _ _ _ _).bind fun _ => .ok _
  · exact .fault _

theorem updateField_related {R : Memory → Memory → Prop} {location : Location}
    (hsame : memory.workspace.column? location = plain.workspace.column? location)
    (hstore : ∀ old column, plain.workspace.column? location = some old →
      column.shape = old.shape →
        R { memory with workspace := memory.workspace.withColumn location column }
          { plain with workspace := plain.workspace.withColumn location column })
    (index : Nat) (update : scalar.Carrier → scalar.Carrier) :
    Outcome.Related R (memory.updateField location scalar index update)
      (plain.updateField location scalar index update) := by
  unfold updateField
  rw [hsame]
  cases hold : plain.workspace.column? location with
  | none => exact .error _
  | some old =>
    simp only [Outcome.ofLookup_some, ok_bind]
    apply Outcome.Related.same
    intro column hcolumn
    exact .ok (hstore old column hold (Column.updateCell_shape hcolumn))

theorem write_related {R : Memory → Memory → Prop}
    (hupdate : ∀ binding, kernel.bindings[field.binding]? = some binding →
      binding.access = .write → ∀ index, Outcome.Related R
        (memory.updateField binding.location scalar index fun _ => value)
        (plain.updateField binding.location scalar index fun _ => value)) :
    Outcome.Related R (memory.write kernel field address component value)
      (plain.write kernel field address component value) := by
  unfold write
  cases hbinding : kernel.bindings[field.binding]? with
  | none => exact .error _
  | some binding =>
    simp only [Outcome.ofLookup_some, ok_bind]
    by_cases haccess : binding.access = .write
    · rw [if_pos haccess, if_pos haccess]
      apply Outcome.Related.same
      intro index _
      exact hupdate binding hbinding haccess index
    · rw [if_neg haccess, if_neg haccess]
      exact .error _

theorem read_eq (hplain : plain.staged? field.binding = none)
    (hsame : ∀ binding, kernel.bindings[field.binding]? = some binding →
      (memory.staged? field.binding = none ∧
        memory.workspace.column? binding.location = plain.workspace.column? binding.location) ∨
      ∃ column, memory.staged? field.binding = some column ∧
        plain.workspace.column? binding.location = some column ∧
        memory.ledger? field.binding = none) :
    memory.read kernel field address component = plain.read kernel field address component := by
  unfold read
  cases hbinding : kernel.bindings[field.binding]? with
  | none => rfl
  | some binding =>
    simp only [Outcome.ofLookup_some, ok_bind, hplain]
    congr 1
    funext index
    rcases hsame binding hbinding with ⟨hnone, hcolumn⟩ | ⟨column, hcopy, hcolumn, hledger⟩
    · rw [hnone, hcolumn]
    · rw [hcopy, hcolumn, hledger]
      simp only [Outcome.ofLookup_some, ok_bind]
      cases column.loadCell scalar index <;> rfl

def Keeps (shapes : Location → Option (Scalar × Nat)) (memory : Memory) : Prop :=
  ∀ location, memory.workspace.shape? location = shapes location

theorem Keeps.updateField {shapes : Location → Option (Scalar × Nat)} {location : Location}
    {index : Nat} {update : scalar.Carrier → scalar.Carrier} (hkeeps : memory.Keeps shapes)
    (h : memory.updateField location scalar index update = .ok after) : after.Keeps shapes := by
  obtain ⟨old, column, hold, hcolumn, rfl⟩ := updateField_eq_ok.mp h
  intro other
  exact (Workspace.shape?_withColumn hold (Column.updateCell_shape hcolumn) other).trans
    (hkeeps other)

theorem Keeps.write {shapes : Location → Option (Scalar × Nat)} (hkeeps : memory.Keeps shapes)
    (h : memory.write kernel field address component value = .ok after) : after.Keeps shapes := by
  obtain ⟨binding, index, -, -, -, h⟩ := write_eq_ok.mp h
  exact hkeeps.updateField h

theorem Keeps.accumulate {shapes : Location → Option (Scalar × Nat)}
    (hkeeps : memory.Keeps shapes)
    (h : memory.accumulate kernel field address component value = .ok after) :
    after.Keeps shapes := by
  obtain ⟨binding, index, -, -, -, ⟨-, h⟩ | ⟨ledgers, -, -, rfl⟩ | ⟨column, copy, -, -, -, rfl⟩⟩ :=
    accumulate_cases h
  · exact hkeeps.updateField h
  · exact hkeeps
  · exact hkeeps

end Memory

structure Reading where
  binding : Nat
  scalar : Scalar
  value : scalar.Carrier

structure Request where
  access : Access
  scalar : Scalar
  binding : Nat
  address : Address
  component : Nat

namespace Action

variable {α : Type}

/-- Everything that an action may ask of a bound field, whatever it reads, is as `P` says. -/
def Each (P : Request → Prop) : Action α → Prop
  | done _ => True
  | fail _ => True
  | read scalar field address component next =>
    P ⟨.read, scalar, field.binding, address, component⟩ ∧ ∀ value, (next value).Each P
  | write scalar field address component _ next =>
    P ⟨.write, scalar, field.binding, address, component⟩ ∧ next.Each P
  | accumulate scalar field address component _ next =>
    P ⟨.accumulate, scalar, field.binding, address, component⟩ ∧ next.Each P

theorem Each.mono {P Q : Request → Prop} (hPQ : ∀ request, P request → Q request)
    {action : Action α} (h : action.Each P) : action.Each Q := by
  induction action with
  | done result => trivial
  | fail fault => trivial
  | read scalar field address component next ih =>
    exact ⟨hPQ _ h.1, fun value => ih value (h.2 value)⟩
  | write scalar field address component value next ih => exact ⟨hPQ _ h.1, ih h.2⟩
  | accumulate scalar field address component value next ih => exact ⟨hPQ _ h.1, ih h.2⟩

/-- What an action reads, in order, until it ends or meets a fault. -/
def readings (kernel : Kernel) : Action α → Memory → List Reading
  | done _, _ => []
  | fail _, _ => []
  | read scalar field address component next, memory =>
    match memory.read kernel field address component with
    | .ok value => ⟨field.binding, scalar, value⟩ :: (next value).readings kernel memory
    | .error _ => []
  | write _ field address component value next, memory =>
    match memory.write kernel field address component value with
    | .ok memory => next.readings kernel memory
    | .error _ => []
  | accumulate _ field address component value next, memory =>
    match memory.accumulate kernel field address component value with
    | .ok memory => next.readings kernel memory
    | .error _ => []

theorem Each.readings {kernel : Kernel} {P : Request → Prop} {action : Action α}
    (h : action.Each P) (memory : Memory) {reading : Reading}
    (hreading : reading ∈ action.readings kernel memory) :
    ∃ request, P request ∧ request.access = .read ∧ request.binding = reading.binding := by
  induction action generalizing memory with
  | done result => cases hreading
  | fail fault => cases hreading
  | read scalar field address component next ih =>
    obtain ⟨hrequest, hnext⟩ := h
    rw [Action.readings] at hreading
    split at hreading
    · next value _ =>
      rcases List.mem_cons.mp hreading with rfl | hlater
      · exact ⟨_, hrequest, rfl, rfl⟩
      · exact ih value (hnext value) memory hlater
    · cases hreading
  | write scalar field address component value next ih =>
    rw [Action.readings] at hreading
    split at hreading
    · exact ih h.2 _ hreading
    · cases hreading
  | accumulate scalar field address component value next ih =>
    rw [Action.readings] at hreading
    split at hreading
    · exact ih h.2 _ hreading
    · cases hreading

/-- What every overwrite and every addition keeps as long as no fault is met, an action keeps. -/
theorem run_late {kernel : Kernel} {P : Memory → Prop}
    (hwrite : ∀ {memory scalar} (field : FieldHandle scalar) address component value, P memory →
      (memory.write kernel field address component value).Late P)
    (haccumulate : ∀ {memory scalar} (field : FieldHandle scalar) address component value,
      P memory → (memory.accumulate kernel field address component value).Late P)
    (action : Action α) {memory : Memory} (h : P memory) :
    (action.run kernel memory).Late fun a => P a.2 := by
  induction action generalizing memory with
  | done result => exact .ok h
  | fail fault => exact .broken fault
  | read scalar field address component next ih =>
    exact Outcome.Late.bind (memory.read_unrefused kernel field address component)
      fun value _ => ih value h
  | write scalar field address component value next ih =>
    exact (hwrite field address component value h).bind fun _ h => ih h
  | accumulate scalar field address component value next ih =>
    exact (haccumulate field address component value h).bind fun _ h => ih h

theorem run_invariant {kernel : Kernel} {P : Memory → Prop}
    (hwrite : ∀ {memory after scalar} {field : FieldHandle scalar} {address component value},
      P memory → memory.write kernel field address component value = .ok after → P after)
    (haccumulate : ∀ {memory after scalar} {field : FieldHandle scalar} {address component value},
      P memory → memory.accumulate kernel field address component value = .ok after → P after)
    (action : Action α) {memory after : Memory} {result : α} (h : P memory)
    (hrun : action.run kernel memory = .ok (result, after)) : P after := by
  induction action generalizing memory with
  | done _ =>
    cases hrun
    exact h
  | fail _ => cases hrun
  | read scalar field address component next ih =>
    obtain ⟨value, _, hrun⟩ := bind_eq_ok.mp hrun
    exact ih value h hrun
  | write scalar field address component value next ih =>
    obtain ⟨written, hstep, hrun⟩ := bind_eq_ok.mp hrun
    exact ih (hwrite h hstep) hrun
  | accumulate scalar field address component value next ih =>
    obtain ⟨added, hstep, hrun⟩ := bind_eq_ok.mp hrun
    exact ih (haccumulate h hstep) hrun

end Action

namespace Kernel

variable {α : Type}

theorem copies_lookup {kernel : Kernel} {i : Nat} {binding : Binding}
    (hbinding : kernel.bindings[i]? = some binding) (workspace : Workspace) :
    ((kernel.copies workspace)[i]?).join =
      if kernel.stages i then workspace.column? binding.location else none := by
  simp only [copies, stagedBindings, Array.getElem?_mapIdx, hbinding, Option.map_some,
    Option.join_some, stages]
  rcases Option.eq_none_or_eq_some (kernel.plan.entry? i) with hentry | ⟨entry, hentry⟩
  · simp [hentry]
  · simp [hentry]

theorem emptyLedgers_lookup {kernel : Kernel} (hplan : kernel.Planned) {i : Nat}
    {binding : Binding} (hbinding : kernel.bindings[i]? = some binding) :
    ((kernel.emptyLedgers)[i]?).join = if kernel.stages i = true ∧ binding.access = .accumulate then
      some (.empty binding.type.scalar) else none := by
  simp only [emptyLedgers, stagedBindings, Array.getElem?_mapIdx, hbinding, Option.map_some,
    Option.join_some, stages]
  rcases Option.eq_none_or_eq_some (kernel.plan.entry? i) with hentry | ⟨entry, hentry⟩
  · simp [hentry]
  · obtain ⟨hmem, rfl⟩ := Plan.entry?_mem hentry
    simp [hentry, hplan.access hmem hbinding]

theorem visit_cons {kernel : Kernel} {body : Element → Action α} {slot : Nat} {rest : List Nat}
    {memory after : Memory} {results : List α} :
    kernel.visit body (slot :: rest) memory = .ok (results, after) ↔
      ∃ result between later,
        (body (kernel.element slot.toUInt32)).run kernel memory = .ok (result, between) ∧
        kernel.visit body rest between = .ok (later, after) ∧ results = result :: later := by
  rw [visit, bind_eq_ok]
  constructor
  · rintro ⟨⟨result, between⟩, hhere, h⟩
    obtain ⟨⟨later, after⟩, hlater, h⟩ := bind_eq_ok.mp h
    cases h
    exact ⟨result, between, later, hhere, hlater, rfl⟩
  · rintro ⟨result, between, later, hhere, hlater, rfl⟩
    exact ⟨(result, between), hhere, bind_eq_ok.mpr ⟨(later, after), hlater, rfl⟩⟩

theorem visit_late {kernel : Kernel} {P : Memory → Prop}
    (hwrite : ∀ {memory scalar} (field : FieldHandle scalar) address component value, P memory →
      (memory.write kernel field address component value).Late P)
    (haccumulate : ∀ {memory scalar} (field : FieldHandle scalar) address component value,
      P memory → (memory.accumulate kernel field address component value).Late P)
    (body : Element → Action α) (slots : List Nat) {memory : Memory} (h : P memory) :
    (kernel.visit body slots memory).Late fun a => P a.2 := by
  induction slots generalizing memory with
  | nil => exact .ok h
  | cons slot rest ih =>
    apply ((body (kernel.element slot.toUInt32)).run_late hwrite haccumulate h).bind
    intro here h
    exact (ih h).bind fun later h => .ok h

theorem visit_unrefused (kernel : Kernel) (body : Element → Action α) (slots : List Nat)
    (memory : Memory) : (kernel.visit body slots memory).Unrefused :=
  kernel.visit_late (fun _ _ _ _ _ => Memory.write_unrefused _ _ _ _ _ _)
    (fun _ _ _ _ _ => Memory.accumulate_unrefused _ _ _ _ _ _) body slots trivial

theorem visit_invariant {kernel : Kernel} {P : Memory → Prop}
    (hwrite : ∀ {memory after scalar} {field : FieldHandle scalar} {address component value},
      P memory → memory.write kernel field address component value = .ok after → P after)
    (haccumulate : ∀ {memory after scalar} {field : FieldHandle scalar} {address component value},
      P memory → memory.accumulate kernel field address component value = .ok after → P after)
    (body : Element → Action α) (slots : List Nat) {memory after : Memory} {results : List α}
    (h : P memory) (hvisit : kernel.visit body slots memory = .ok (results, after)) : P after := by
  induction slots generalizing memory results with
  | nil =>
    cases hvisit
    exact h
  | cons slot rest ih =>
    obtain ⟨result, between, later, hhere, hlater, -⟩ := visit_cons.mp hvisit
    exact ih ((body (kernel.element slot.toUInt32)).run_invariant hwrite haccumulate h hhere) hlater

theorem visit_keeps {kernel : Kernel} {shapes : Location → Option (Scalar × Nat)}
    (body : Element → Action α) (slots : List Nat) {memory after : Memory} {results : List α}
    (h : memory.Keeps shapes) (hvisit : kernel.visit body slots memory = .ok (results, after)) :
    after.Keeps shapes :=
  kernel.visit_invariant Memory.Keeps.write Memory.Keeps.accumulate body slots h hvisit

theorem visit_append (kernel : Kernel) (body : Element → Action α) (first second : List Nat)
    (memory : Memory) : kernel.visit body (first ++ second) memory =
      kernel.visit body first memory >>= fun here =>
        kernel.visit body second here.2 >>= fun later => .ok (here.1 ++ later.1, later.2) := by
  induction first generalizing memory with
  | nil =>
    simp only [List.nil_append, visit, ok_bind]
    cases kernel.visit body second memory <;> rfl
  | cons slot rest ih =>
    simp only [List.cons_append, visit, ih]
    cases (body (kernel.element slot.toUInt32)).run kernel memory with
    | error failure => rfl
    | ok here =>
      simp only [ok_bind]
      cases kernel.visit body rest here.2 with
      | error failure => rfl
      | ok later =>
        simp only [ok_bind, pure_eq_ok]
        cases kernel.visit body second later.2 <;> rfl

def readingsAt (kernel : Kernel) (body : Element → Action α) : List Nat → Memory → List Reading
  | [], _ => []
  | slot :: rest, memory =>
    let action := body (kernel.element slot.toUInt32)
    action.readings kernel memory ++
      match action.run kernel memory with
      | .ok (_, memory) => kernel.readingsAt body rest memory
      | .error _ => []

theorem readingsAt_append (kernel : Kernel) (body : Element → Action α) (first second : List Nat)
    (memory : Memory) : kernel.readingsAt body (first ++ second) memory =
      kernel.readingsAt body first memory ++
        match kernel.visit body first memory with
        | .ok (_, memory) => kernel.readingsAt body second memory
        | .error _ => [] := by
  induction first generalizing memory with
  | nil => rfl
  | cons slot rest ih =>
    simp only [List.cons_append, readingsAt, visit]
    cases (body (kernel.element slot.toUInt32)).run kernel memory with
    | error failure => simp
    | ok here =>
      simp only [ih, ok_bind, List.append_assoc]
      cases kernel.visit body rest here.2 <;> rfl

theorem readingsAt_each {kernel : Kernel} {P : Request → Prop} {body : Element → Action α}
    (slots : List Nat) (h : ∀ slot ∈ slots, (body (kernel.element slot.toUInt32)).Each P)
    (memory : Memory) {reading : Reading}
    (hreading : reading ∈ kernel.readingsAt body slots memory) :
    ∃ request, P request ∧ request.access = .read ∧ request.binding = reading.binding := by
  induction slots generalizing memory with
  | nil => cases hreading
  | cons slot rest ih =>
    rw [readingsAt] at hreading
    rcases List.mem_append.mp hreading with hhere | hlater
    · exact (h slot List.mem_cons_self).readings memory hhere
    · split at hlater
      · exact ih (fun other hother => h other (List.mem_cons_of_mem slot hother)) _ hlater
      · cases hlater

def order (kernel : Kernel) (schedule : Schedule) : List Nat :=
  match kernel.ranges with
  | some ranges => (schedule.patches ranges).flatMap PatchRange.slots
  | none => schedule.slots (List.range (kernel.permutation.size % UInt32.size))

theorem order_perm {kernel : Kernel} (schedule : Schedule)
    (hranges : ∀ ranges, kernel.ranges = some ranges →
      ranges.flatMap PatchRange.slots = List.range (kernel.permutation.size % UInt32.size)) :
    (kernel.order schedule).Perm (List.range (kernel.permutation.size % UInt32.size)) := by
  unfold order
  cases hcase : kernel.ranges with
  | none => exact schedule.slots_perm _
  | some ranges =>
    rw [← hranges ranges hcase]
    exact (schedule.patches_perm ranges).flatMap_right _

def readings (kernel : Kernel) (body : Element → Action α) (workspace : Workspace) :
    List Reading :=
  kernel.readingsAt body (List.range (kernel.permutation.size % UInt32.size))
    ⟨workspace, kernel.copies workspace, none⟩

variable {kernel : Kernel} {memory : Memory}

def ledgers (kernel : Kernel) (memory : Memory) : List (Binding × Option Ledger) :=
  (kernel.bindings.zip (memory.ledgers.getD #[])).toList

theorem ledgers_getElem? {i : Nat} {binding : Binding} {there : Option Ledger}
    (h : (kernel.ledgers memory)[i]? = some (binding, there)) :
    kernel.bindings[i]? = some binding ∧ memory.ledger? i = there := by
  rw [ledgers, Array.toList_zip] at h
  obtain ⟨hbinding, hthere⟩ := List.getElem?_zip_eq_some.mp h
  rw [Array.getElem?_toList] at hbinding hthere
  constructor
  · exact hbinding
  · unfold Memory.ledger?
    cases hledgers : memory.ledgers with
    | none => simp [hledgers] at hthere
    | some ledgers =>
      rw [hledgers, Option.getD_some] at hthere
      rw [Option.bind_eq_bind, Option.bind_some, hthere]
      rfl

theorem mem_ledgers {binding : Binding} {ledger : Ledger} :
    (binding, some ledger) ∈ kernel.ledgers memory ↔
      ∃ i, kernel.bindings[i]? = some binding ∧ memory.ledger? i = some ledger := by
  constructor
  · intro h
    obtain ⟨i, hi⟩ := List.mem_iff_getElem?.mp h
    exact ⟨i, ledgers_getElem? hi⟩
  · rintro ⟨i, hbinding, hledger⟩
    apply List.mem_of_getElem? (i := i)
    rw [ledgers, Array.toList_zip, List.getElem?_zip_eq_some, Array.getElem?_toList,
      Array.getElem?_toList]
    constructor
    · exact hbinding
    · cases hledgers : memory.ledgers with
      | none => simp [Memory.ledger?, hledgers] at hledger
      | some ledgers =>
        simp only [Memory.ledger?, hledgers, Option.bind_eq_bind, Option.bind_some] at hledger
        exact Option.join_eq_some_iff.mp hledger

theorem visitPatches_cons {body : Element → Action α} {staged : Array (Option Column)}
    {range : PatchRange} {rest : List PatchRange} {workspace after : Workspace}
    {results : List α} :
    kernel.visitPatches body staged (range :: rest) workspace = .ok (results, after) ↔
      ∃ here memory settled later,
        kernel.visit body range.slots ⟨workspace, staged, some kernel.emptyLedgers⟩ =
          .ok (here, memory) ∧
        settle (kernel.ledgers memory) memory.workspace = .ok settled ∧
        kernel.visitPatches body staged rest settled = .ok (later, after) ∧
        results = here ++ later := by
  rw [visitPatches]
  constructor
  · intro h
    obtain ⟨⟨here, memory⟩, hhere, h⟩ := bind_eq_ok.mp h
    obtain ⟨settled, hsettled, h⟩ := bind_eq_ok.mp h
    obtain ⟨⟨later, final⟩, hlater, heq⟩ := bind_eq_ok.mp h
    cases heq
    exact ⟨here, memory, settled, later, hhere, hsettled, hlater, rfl⟩
  · rintro ⟨here, memory, settled, later, hhere, hsettled, hlater, rfl⟩
    exact bind_eq_ok.mpr ⟨(here, memory), hhere, bind_eq_ok.mpr ⟨settled, hsettled,
      bind_eq_ok.mpr ⟨(later, after), hlater, rfl⟩⟩⟩

end Kernel

end MeshLayout
