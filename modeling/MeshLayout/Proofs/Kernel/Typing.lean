import MeshLayout.Proofs.Kernel.Frame
import MeshLayout.Proofs.Kernel.Handles
import MeshLayout.Proofs.Kernel.Layout

/-!
# Storage stays typed

A handle knows the type of its values, and a column tells by its tag what it holds; that the two
agree is not checked again when a kernel runs. They do agree, in the fields as in the copies and
the ledgers that are kept for them, because a binding has the type of its field and no overwrite,
addition or settlement turns a column or a ledger into one of another type. So what a body asks
for through handles of its own kernel is served, wherever it is held.
-/

set_option autoImplicit false

namespace MeshLayout

variable {α : Type} {kernel : Kernel} {initial workspace : Workspace} {memory after : Memory}

def Kernel.Suits (kernel : Kernel) (workspace : Workspace) : Prop :=
  ∀ (i : Nat) (binding : Binding), kernel.bindings[i]? = some binding →
    (workspace.shape? binding.location).map Prod.fst = some binding.type.scalar

namespace Kernel

theorem Fits.suits (h : kernel.Fits workspace) : kernel.Suits workspace := by
  intro i binding hbinding
  obtain ⟨column, hcolumn, hscalar⟩ := (h hbinding).column
  rw [Workspace.shape?, hcolumn, ← hscalar]
  rfl

theorem Suits.of_shapes (h : kernel.Suits workspace) {other : Workspace}
    (hshapes : ∀ location, other.shape? location = workspace.shape? location) :
    kernel.Suits other := by
  intro i binding hbinding
  rw [hshapes]
  exact h i binding hbinding

theorem Suits.column (h : kernel.Suits workspace) {i : Nat} {binding : Binding}
    (hbinding : kernel.bindings[i]? = some binding) :
    ∃ column, workspace.column? binding.location = some column ∧
      column.scalar = binding.type.scalar := by
  have hscalar := h i binding hbinding
  rw [Workspace.shape?, Option.map_map] at hscalar
  exact Option.map_eq_some_iff.mp hscalar

end Kernel

namespace Memory

variable {scalar : Scalar} {field : FieldHandle scalar} {address : Address} {component : Nat}
  {value : scalar.Carrier}

/-- What a memory holds for a binding is of the type of the binding. -/
structure Typed (kernel : Kernel) (memory : Memory) : Prop where
  fields : kernel.Suits memory.workspace
  copies : ∀ {i binding column}, kernel.bindings[i]? = some binding →
    memory.staged? i = some column → column.scalar = binding.type.scalar
  ledgers : ∀ {i binding ledger}, kernel.bindings[i]? = some binding →
    memory.ledger? i = some ledger → ledger.scalar = binding.type.scalar

namespace Typed

theorem start (hinitial : kernel.Suits initial) :
    Typed kernel ⟨initial, kernel.copies initial, none⟩ where
  fields := hinitial
  copies := by
    intro i binding column hbinding hcopy
    rw [staged?, Kernel.copies_lookup hbinding] at hcopy
    split at hcopy
    · obtain ⟨there, hthere, hscalar⟩ := hinitial.column hbinding
      cases hthere.symm.trans hcopy
      exact hscalar
    · cases hcopy
  ledgers := fun _ hledger => nomatch hledger

theorem start_patch (hplan : kernel.Planned) (hinitial : kernel.Suits initial)
    (hworkspace : kernel.Suits workspace) :
    Typed kernel ⟨workspace, kernel.copies initial, some kernel.emptyLedgers⟩ where
  fields := hworkspace
  copies := (start hinitial).copies
  ledgers := by
    intro i binding ledger hbinding hledger
    change ((kernel.emptyLedgers)[i]?).join = some ledger at hledger
    rw [Kernel.emptyLedgers_lookup hplan hbinding] at hledger
    split at hledger
    · cases hledger
      rfl
    · cases hledger

theorem updateField (h : memory.Typed kernel) {location : Location} {index : Nat}
    {update : scalar.Carrier → scalar.Carrier}
    (hupdate : memory.updateField location scalar index update = .ok after) :
    after.Typed kernel := by
  obtain ⟨old, column, hold, hcolumn, rfl⟩ := updateField_eq_ok.mp hupdate
  have hshapes := Workspace.shape?_withColumn hold (Column.updateCell_shape hcolumn)
  exact ⟨h.fields.of_shapes hshapes, h.copies, h.ledgers⟩

theorem write (h : memory.Typed kernel)
    (hwrite : memory.write kernel field address component value = .ok after) :
    after.Typed kernel := by
  obtain ⟨binding, index, -, -, -, hupdate⟩ := write_eq_ok.mp hwrite
  exact h.updateField hupdate

theorem accumulate (h : memory.Typed kernel)
    (haccumulate : memory.accumulate kernel field address component value = .ok after) :
    after.Typed kernel := by
  obtain ⟨binding, index, -, -, -, ⟨-, hupdate⟩ | ⟨ledgers, hledgers, -, rfl⟩ |
    ⟨column, copy, hnone, hcolumn, hcopy, rfl⟩⟩ := accumulate_cases haccumulate
  · exact h.updateField hupdate
  · refine ⟨h.fields, h.copies, fun {i other ledger} hother hledger => ?_⟩
    rw [ledger?_modify hledgers] at hledger
    split at hledger
    · obtain ⟨before, hbefore, rfl⟩ := Option.map_eq_some_iff.mp hledger
      rw [Ledger.add_scalar]
      exact h.ledgers hother hbefore
    · exact h.ledgers hother hledger
  · refine ⟨h.fields, fun {i other there} hother hthere => ?_, fun _ hledger => nomatch hledger⟩
    rw [staged?, Array.getElem?_setIfInBounds] at hthere
    by_cases hi : field.binding = i
    · subst hi
      rw [if_pos rfl] at hthere
      split at hthere
      · cases hthere
        exact (congrArg Prod.fst (Column.updateCell_shape hcopy)).trans (h.copies hother hcolumn)
      · cases hthere
    · rw [if_neg hi] at hthere
      exact h.copies hother hthere

end Typed

/-- Wherever values for a request are held, in its field, in a copy or in a ledger, they are of the
type that the request asks for. -/
structure Serves (kernel : Kernel) (memory : Memory) (request : Request) : Prop where
  field : ∃ binding column, kernel.bindings[request.binding]? = some binding ∧
    memory.workspace.column? binding.location = some column ∧
    (column.as? request.scalar).isSome = true
  copy : ∀ column, memory.staged? request.binding = some column →
    (column.as? request.scalar).isSome = true
  ledger : ∀ ledger, memory.ledger? request.binding = some ledger →
    ledger.scalar = request.scalar

end Memory

def Kernel.Names (kernel : Kernel) (request : Request) : Prop :=
  ∃ binding, kernel.bindings[request.binding]? = some binding ∧
    binding.type.scalar = request.scalar

theorem Memory.Typed.serves (h : memory.Typed kernel) {request : Request}
    (hnames : kernel.Names request) : memory.Serves kernel request := by
  obtain ⟨binding, hbinding, hscalar⟩ := hnames
  obtain ⟨column, hcolumn, hown⟩ := h.fields.column hbinding
  constructor
  · exact ⟨binding, column, hbinding, hcolumn, Column.as?_isSome (hown.trans hscalar)⟩
  · intro copy hcopy
    exact Column.as?_isSome ((h.copies hbinding hcopy).trans hscalar)
  · intro ledger hledger
    exact (h.ledgers hbinding hledger).trans hscalar

section Meets

variable (P : Memory → Request → Prop)

/-- Whatever an action asks for as it runs, `P` holds of the memory that it then asks. -/
def Action.Meets (kernel : Kernel) : Action α → Memory → Prop
  | done _, _ => True
  | fail _, _ => True
  | read scalar field address component next, memory =>
    P memory ⟨.read, scalar, field.binding, address, component⟩ ∧
      ∀ value, memory.read kernel field address component = .ok value →
        (next value).Meets kernel memory
  | write scalar field address component value next, memory =>
    P memory ⟨.write, scalar, field.binding, address, component⟩ ∧
      ∀ after, memory.write kernel field address component value = .ok after →
        next.Meets kernel after
  | accumulate scalar field address component value next, memory =>
    P memory ⟨.accumulate, scalar, field.binding, address, component⟩ ∧
      ∀ after, memory.accumulate kernel field address component value = .ok after →
        next.Meets kernel after

namespace Kernel

def MeetsAt (kernel : Kernel) (body : Element → Action α) : List Nat → Memory → Prop
  | [], _ => True
  | slot :: rest, memory =>
    let action := body (kernel.element slot.toUInt32)
    action.Meets P kernel memory ∧ ∀ result after,
      action.run kernel memory = .ok (result, after) → kernel.MeetsAt body rest after

def MeetsIn (kernel : Kernel) (body : Element → Action α) (staged : Array (Option Column)) :
    List PatchRange → Workspace → Prop
  | [], _ => True
  | range :: rest, workspace =>
    let start : Memory := ⟨workspace, staged, some kernel.emptyLedgers⟩
    kernel.MeetsAt P body range.slots start ∧ ∀ results after settled,
      kernel.visit body range.slots start = .ok (results, after) →
        settle (kernel.ledgers after) after.workspace = .ok settled →
          kernel.MeetsIn body staged rest settled

def Meets (kernel : Kernel) (body : Element → Action α) (workspace : Workspace) : Prop :=
  match kernel.ranges with
  | some ranges => kernel.MeetsIn P body (kernel.copies workspace) ranges workspace
  | none => kernel.MeetsAt P body (List.range (kernel.permutation.size % UInt32.size))
      ⟨workspace, kernel.copies workspace, none⟩

end Kernel

end Meets

namespace Memory.Typed

theorem meets (h : memory.Typed kernel) {action : Action α} (hnames : action.Each kernel.Names) :
    action.Meets (Serves kernel) kernel memory := by
  induction action generalizing memory with
  | done result => trivial
  | fail fault => trivial
  | read scalar field address component next ih =>
    exact ⟨h.serves hnames.1, fun value _ => ih value h (hnames.2 value)⟩
  | write scalar field address component value next ih =>
    exact ⟨h.serves hnames.1, fun after hwrite => ih (h.write hwrite) hnames.2⟩
  | accumulate scalar field address component value next ih =>
    exact ⟨h.serves hnames.1, fun after hadd => ih (h.accumulate hadd) hnames.2⟩

variable {body : Element → Action α}

theorem meetsAt (hnames : ∀ element, (body element).Each kernel.Names) (slots : List Nat)
    (h : memory.Typed kernel) : kernel.MeetsAt (Serves kernel) body slots memory := by
  induction slots generalizing memory with
  | nil => trivial
  | cons slot rest ih =>
    exact ⟨h.meets (hnames _), fun result after hrun =>
      ih ((body _).run_invariant write accumulate h hrun)⟩

theorem meetsIn (hplan : kernel.Planned) (hinitial : kernel.Suits initial)
    (hnames : ∀ element, (body element).Each kernel.Names) (ranges : List PatchRange)
    (hworkspace : kernel.Suits workspace) :
    kernel.MeetsIn (Serves kernel) body (kernel.copies initial) ranges workspace := by
  induction ranges generalizing workspace with
  | nil => trivial
  | cons range rest ih =>
    have hstart := start_patch hplan hinitial hworkspace
    refine ⟨hstart.meetsAt hnames range.slots, fun results after settled hvisit hsettle => ih ?_⟩
    have hafter := kernel.visit_invariant write accumulate body range.slots hstart hvisit
    exact hafter.fields.of_shapes (Kernel.settle_leaves _ hsettle).1

end Memory.Typed

theorem Kernel.Suits.meets (h : kernel.Suits workspace) (hplan : kernel.Planned)
    {body : Element → Action α} (hnames : ∀ element, (body element).Each kernel.Names) :
    kernel.Meets (Memory.Serves kernel) body workspace := by
  unfold Meets
  split
  · exact Memory.Typed.meetsIn hplan h hnames _ h
  · exact (Memory.Typed.start h).meetsAt hnames _

/-- The action does not end in the fault of its own accord. -/
def Action.Avoids (fault : Fault) : Action α → Prop
  | done _ => True
  | fail other => other ≠ fault
  | read _ _ _ _ next => ∀ value, (next value).Avoids fault
  | write _ _ _ _ _ next | accumulate _ _ _ _ _ next => next.Avoids fault

namespace Column

variable {column : Column} {scalar : Scalar}

theorem loadCell_spares (h : (column.as? scalar).isSome = true) (index : Nat) :
    (column.loadCell scalar index).Spares .mistyped := by
  obtain ⟨cells, hcells⟩ := Option.isSome_iff_exists.mp h
  rw [loadCell, hcells]
  exact .ofLookup _ (by decide)

theorem updateCell_spares (h : (column.as? scalar).isSome = true) (index : Nat)
    (update : scalar.Carrier → scalar.Carrier) :
    (column.updateCell scalar index update).Spares .mistyped := by
  obtain ⟨cells, hcells⟩ := Option.isSome_iff_exists.mp h
  rw [updateCell, hcells]
  exact .bind (.ofLookup _ (by decide)) fun _ _ => .ok _

end Column

theorem Binding.cellIndex_spares (binding : Binding) (address : Address) (component : Nat) :
    (binding.cellIndex address component).Spares .mistyped := by
  have helement : (binding.elementIndex address).Spares .mistyped := by
    unfold elementIndex
    cases address with
    | slot slot => cases binding.addressing with
      | own => exact .ok _
      | foreign | loose => exact .fault (by simp)
    | identity identity => cases binding.addressing with
      | own | foreign => exact .bind (.ofLookup _ (by decide)) fun _ _ => .ok _
      | loose => exact .ok _
  unfold cellIndex
  split
  · apply helement.bind
    intro element _
    unfold Outcome.index
    split
    · exact .ok _
    · exact .fault (by decide)
  · exact .fault (by simp)

namespace Memory

variable {scalar : Scalar} {field : FieldHandle scalar} {address : Address} {component : Nat}

theorem updateField_spares {location : Location} {column : Column}
    (hcolumn : memory.workspace.column? location = some column)
    (htyped : (column.as? scalar).isSome = true) (index : Nat)
    (update : scalar.Carrier → scalar.Carrier) :
    (memory.updateField location scalar index update).Spares .mistyped := by
  rw [updateField, hcolumn, Outcome.ofLookup_some, ok_bind]
  exact (column.updateCell_spares htyped index update).bind fun _ _ => .ok _

namespace Serves

variable {access : Access}

theorem read (h : memory.Serves kernel ⟨access, scalar, field.binding, address, component⟩) :
    (memory.read kernel field address component).Spares .mistyped := by
  obtain ⟨binding, column, hbinding, hcolumn, htyped⟩ := h.field
  rw [Memory.read, hbinding, Outcome.ofLookup_some, ok_bind]
  apply (binding.cellIndex_spares address component).bind
  intro index _
  cases hstaged : memory.staged? field.binding with
  | none =>
    simp only [hcolumn, Outcome.ofLookup_some, ok_bind]
    exact column.loadCell_spares htyped index
  | some copy => exact (copy.loadCell_spares (h.copy copy hstaged) index).bind fun _ _ => .ok _

theorem write (h : memory.Serves kernel ⟨access, scalar, field.binding, address, component⟩)
    (value : scalar.Carrier) :
    (memory.write kernel field address component value).Spares .mistyped := by
  obtain ⟨binding, column, hbinding, hcolumn, htyped⟩ := h.field
  rw [Memory.write, hbinding, Outcome.ofLookup_some, ok_bind]
  split
  · exact (binding.cellIndex_spares address component).bind fun index _ =>
      updateField_spares hcolumn htyped index _
  · exact .fault (by simp)

theorem accumulate (h : memory.Serves kernel ⟨access, scalar, field.binding, address, component⟩)
    (value : scalar.Carrier) :
    (memory.accumulate kernel field address component value).Spares .mistyped := by
  obtain ⟨binding, column, hbinding, hcolumn, htyped⟩ := h.field
  rw [Memory.accumulate, hbinding, Outcome.ofLookup_some, ok_bind]
  split
  · apply (binding.cellIndex_spares address component).bind
    intro index _
    split
    · exact updateField_spares hcolumn htyped index _
    · exact .ok _
    · next copy hstaged _ =>
      exact (copy.updateCell_spares (h.copy copy hstaged) index _).bind fun _ _ => .ok _
  · exact .fault (by simp)

end Serves

end Memory

theorem Action.Meets.run {action : Action α}
    (h : action.Meets (Memory.Serves kernel) kernel memory) (havoids : action.Avoids .mistyped) :
    (action.run kernel memory).Spares .mistyped := by
  induction action generalizing memory with
  | done result => exact .ok _
  | fail fault => exact .fault havoids
  | read scalar field address component next ih =>
    exact h.1.read.bind fun value hvalue => ih value (h.2 value hvalue) (havoids value)
  | write scalar field address component value next ih =>
    exact (h.1.write value).bind fun after hafter => ih (h.2 after hafter) havoids
  | accumulate scalar field address component value next ih =>
    exact (h.1.accumulate value).bind fun after hafter => ih (h.2 after hafter) havoids

namespace Kernel

theorem settle_spares (pairs : List (Binding × Option Ledger)) (workspace : Workspace) :
    (settle pairs workspace).Spares .mistyped := by
  induction pairs generalizing workspace with
  | nil => exact .ok _
  | cons pair rest ih =>
    rcases pair with ⟨binding, _ | ledger⟩
    · exact ih workspace
    · apply Outcome.Spares.bind (.ofLookup _ (by decide))
      intro column _
      have hmerge : (ledger.mergeInto column).Spares .mistyped := by
        unfold Ledger.mergeInto Ledger.mergeInPlace
        refine .bind ?_ fun _ _ => .ofChecked _
        split
        · exact .bind (.ofLookup _ (by decide)) fun _ _ => .ok _
        · exact .ok _
      exact hmerge.bind fun merged _ => ih _

theorem storeBack_spares (staged : Array (Option Column)) (entries : List StagedUse)
    (workspace : Workspace) : (kernel.storeBack staged entries workspace).Spares .mistyped := by
  induction entries generalizing workspace with
  | nil => exact .ok _
  | cons entry rest ih =>
    unfold storeBack
    split
    · apply Outcome.Spares.bind (.ofLookup _ (by decide))
      intro column _
      exact .bind (.ofChecked _) fun stored _ => ih _
    · exact ih workspace

variable {body : Element → Action α}

theorem MeetsAt.visit (havoids : ∀ element, (body element).Avoids .mistyped) (slots : List Nat)
    (h : kernel.MeetsAt (Memory.Serves kernel) body slots memory) :
    (kernel.visit body slots memory).Spares .mistyped := by
  induction slots generalizing memory with
  | nil => exact .ok _
  | cons slot rest ih =>
    apply Outcome.Spares.bind (h.1.run (havoids _))
    intro here hhere
    exact (ih (h.2 _ _ hhere)).bind fun _ _ => .ok _

theorem MeetsIn.visitPatches (havoids : ∀ element, (body element).Avoids .mistyped)
    {staged : Array (Option Column)} (ranges : List PatchRange)
    (h : kernel.MeetsIn (Memory.Serves kernel) body staged ranges workspace) :
    (kernel.visitPatches body staged ranges workspace).Spares .mistyped := by
  induction ranges generalizing workspace with
  | nil => exact .ok _
  | cons range rest ih =>
    apply Outcome.Spares.bind (MeetsAt.visit havoids _ h.1)
    intro here hhere
    apply Outcome.Spares.bind (settle_spares _ _)
    intro settled hsettled
    exact (ih (h.2 _ _ _ hhere hsettled)).bind fun _ _ => .ok _

theorem Meets.run (h : kernel.Meets (Memory.Serves kernel) body workspace)
    (havoids : ∀ element, (body element).Avoids .mistyped) :
    (kernel.run body workspace).Spares .mistyped := by
  unfold Meets at h
  unfold Kernel.run
  cases hranges : kernel.ranges with
  | some ranges =>
    simp only [hranges] at h ⊢
    exact MeetsIn.visitPatches havoids ranges h
  | none =>
    simp only [hranges] at h ⊢
    apply (MeetsAt.visit havoids _ h).bind
    intro here _
    exact (storeBack_spares _ _ _).bind fun _ _ => .ok _

end Kernel

namespace KernelDraft

variable {draft : KernelDraft} {log : Log} {config : Config}

def Issued (log : Log) (request : Request) : Prop :=
  ∃ call, (call, .ok (.field request.scalar ⟨request.binding⟩)) ∈ log

namespace Logged

theorem names (logged : draft.Logged workspace log) (compiled : draft.compile config = .ok kernel)
    {request : Request} (hissued : Issued log request) : kernel.Names request := by
  obtain ⟨access, scalar, binding, address, component⟩ := request
  obtain ⟨call, hmem⟩ := hissued
  obtain ⟨i, hi⟩ := List.mem_iff_getElem?.mp hmem
  cases logged.designates compiled hi with
  | bind found there asked held typed => exact ⟨_, there, congrArg FieldType.scalar typed.symm⟩

theorem framed (logged : draft.Logged workspace log) {cells : Location → Nat → Prop}
    {after : Workspace} (h : Workspace.Framed kernel cells workspace after) :
    draft.Logged after log := by
  induction h with
  | refl => exact logged
  | store h hchanges hold hshape hcells ih => exact ih.store _ _

theorem run (logged : draft.Logged workspace log) (compiled : draft.compile config = .ok kernel)
    {body : Element → Action α} {results : List α} {after : Workspace}
    (hrun : kernel.run body workspace = .ok (results, after)) : draft.Logged after log := by
  obtain ⟨hplan, -⟩ := compile_eq_ok compiled
  obtain ⟨logs, hlogs, -⟩ := Kernel.exists_logs hrun
  have hframed : Workspace.Framed kernel (fun _ _ => True) workspace after :=
    Kernel.run_framed hplan body hlogs fun _ _ _ _ _ => trivial
  exact logged.framed hframed

end Logged

section Scatter

end Scatter

end KernelDraft

end MeshLayout
