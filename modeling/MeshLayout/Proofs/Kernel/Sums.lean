import MeshLayout.Proofs.Kernel.Logged
import MeshLayout.Proofs.Kernel.Patches

/-!
# Sums within a patch

While a patch is visited, a staged binding that reads gives the values of the start of the run. One
that adds gives on top of them the sum of what the elements of the patch have added so far, and
nothing that other patches have added. A trace of the visit tells what was added so far.
-/

set_option autoImplicit false

namespace MeshLayout

variable {α : Type} {kernel : Kernel} {initial : Workspace} {memory next : Memory}

namespace Event

def adds? (event : Event) (i : Nat) (binding : Binding) (index : Nat) (scalar : Scalar) :
    Option scalar.Carrier :=
  if h : event.scalar = scalar then
    if event.access = .accumulate ∧ event.binding = i ∧
        binding.cellIndex event.address event.component = .ok index then some (h ▸ event.value)
    else none
  else none

def sum (events : List Event) (i : Nat) (binding : Binding) (index : Nat) (scalar : Scalar) :
    scalar.Carrier :=
  (events.filterMap (·.adds? i binding index scalar)).foldl scalar.add scalar.zero

variable {events : List Event} {event : Event} {i index : Nat} {binding : Binding}
variable {scalar : Scalar}

theorem adds?_eq_none (h : event.access = .accumulate → event.binding = i →
    event.scalar ≠ scalar ∨ binding.cellIndex event.address event.component ≠ .ok index) :
    event.adds? i binding index scalar = none := by
  unfold adds?
  split
  · next hscalar =>
    rw [if_neg]
    rintro ⟨haccess, hbinding, hindex⟩
    rcases h haccess hbinding with hne | hne
    · exact hne hscalar
    · exact hne hindex
  · rfl

theorem sum_concat_of_none (h : event.adds? i binding index scalar = none) :
    sum (events ++ [event]) i binding index scalar = sum events i binding index scalar := by
  simp [sum, h]

theorem sum_concat_of_some {value : scalar.Carrier}
    (h : event.adds? i binding index scalar = some value) :
    sum (events ++ [event]) i binding index scalar =
      scalar.add (sum events i binding index scalar) value := by
  simp [sum, h]

end Event

namespace Kernel

/-- What an event reads through a staged binding is explained by the value of the cell at the start
of the run and by the events before it. -/
def Explains (kernel : Kernel) (initial : Workspace) (past : List Event) (event : Event) : Prop :=
  event.access = .read → kernel.stages event.binding = true →
    ∃ binding index start, kernel.bindings[event.binding]? = some binding ∧
      binding.cellIndex event.address event.component = .ok index ∧
      initial.cell? binding.location index = some ⟨event.scalar, start⟩ ∧
      (binding.access = .read ∧ event.value = start ∨
        binding.access = .accumulate ∧ event.value = event.scalar.add start
          (Event.sum past event.binding binding index event.scalar))

end Kernel

namespace WithinPatch

variable {scalar : Scalar} {field : FieldHandle scalar} {address : Address} {component : Nat}
variable {value : scalar.Carrier}

theorem read_staged (h : WithinPatch kernel initial memory)
    (hstaged : kernel.stages field.binding = true)
    (hread : memory.read kernel field address component = .ok value) :
    ∃ binding index start, kernel.bindings[field.binding]? = some binding ∧
      binding.cellIndex address component = .ok index ∧
      initial.cell? binding.location index = some ⟨scalar, start⟩ ∧
      value = match memory.ledger? field.binding with
        | some ledger => scalar.add start (ledger.get scalar index)
        | none => start := by
  unfold Memory.read at hread
  rw [Outcome.ofLookup_bind_eq_ok] at hread
  obtain ⟨binding, hbinding, hread⟩ := hread
  obtain ⟨index, hindex, hread⟩ := bind_eq_ok.mp hread
  have hcopy := h.copies hbinding
  rw [if_pos hstaged] at hcopy
  have hthere := h.shapes binding.location
  split at hread
  · next hnone =>
    -- The field would have no column, but then it could not be read either.
    rw [Workspace.shape?, Workspace.shape?, ← hcopy, hnone, Option.map_none,
      Option.map_eq_none_iff] at hthere
    rw [hthere] at hread
    cases hread
  · next column hcolumn =>
    obtain ⟨start, hstart, heq⟩ := bind_eq_ok.mp hread
    refine ⟨binding, index, start, hbinding, hindex, ?_, (Except.ok.inj heq).symm⟩
    rw [Workspace.cell?, ← hcopy, hcolumn, Option.bind_some, Column.cell?_of_loadCell hstart]

theorem settle (h : WithinPatch kernel initial memory) {settled : Workspace}
    (hsettled : Kernel.settle (kernel.ledgers memory) memory.workspace = .ok settled) :
    (∀ location, settled.shape? location = initial.shape? location) ∧
      ∀ location, ¬kernel.StagesSums location →
        settled.column? location = memory.workspace.column? location := by
  obtain ⟨hshapes, hcolumns⟩ := Kernel.settle_leaves _ hsettled
  constructor
  · exact fun location => (hshapes location).trans (h.shapes location)
  · intro location hlocation
    apply hcolumns location
    rintro binding ledger hmem rfl
    obtain ⟨i, hbinding, hledger⟩ := Kernel.mem_ledgers.mp hmem
    obtain ⟨hstaged, haccess, -⟩ := h.of_ledger hbinding hledger
    exact hlocation ⟨i, binding, hbinding, hstaged, haccess, rfl⟩

end WithinPatch

/-- A memory in the visit of a patch after some events. -/
structure Remembers (kernel : Kernel) (initial : Workspace) (past : List Event) (memory : Memory) :
    Prop where
  within : WithinPatch kernel initial memory
  sums : ∀ {i binding ledger}, kernel.bindings[i]? = some binding →
    memory.ledger? i = some ledger → ∀ {scalar}, ledger.scalar = scalar → ∀ index,
      ledger.get scalar index = Event.sum past i binding index scalar
  explained : ∀ i event, past[i]? = some event → kernel.Explains initial (past.take i) event

namespace Remembers

variable {past : List Event} {scalar : Scalar} {field : FieldHandle scalar} {address : Address}
variable {component : Nat} {value : scalar.Carrier}

theorem start (hplan : kernel.Planned) {workspace : Workspace}
    (hshapes : ∀ location, workspace.shape? location = initial.shape? location) :
    Remembers kernel initial [] ⟨workspace, kernel.copies initial, some kernel.emptyLedgers⟩ where
  within := .start hplan hshapes
  sums := by
    intro i binding ledger hbinding hledger scalar hscalar index
    have hempty : ((kernel.emptyLedgers)[i]?).join = some ledger := hledger
    rw [Kernel.emptyLedgers_lookup hplan hbinding] at hempty
    split at hempty
    · cases hempty
      cases hscalar
      exact Ledger.get_empty _ index
    · cases hempty
  explained := by
    intro i event hevent
    cases hevent

theorem explained_concat (h : Remembers kernel initial past memory) {event : Event}
    (hevent : kernel.Explains initial past event) (i : Nat) (other : Event)
    (hother : (past ++ [event])[i]? = some other) :
    kernel.Explains initial ((past ++ [event]).take i) other :=
  forall_concat h.explained hevent i other hother

theorem sums_concat (h : Remembers kernel initial past memory) {event : Event}
    (hevent : ∀ {i ledger}, memory.ledger? i = some ledger → event.access = .accumulate →
      event.binding ≠ i)
    {i : Nat} {binding : Binding} {ledger : Ledger} (hbinding : kernel.bindings[i]? = some binding)
    (hledger : memory.ledger? i = some ledger) {scalar : Scalar} (hscalar : ledger.scalar = scalar)
    (index : Nat) : ledger.get scalar index = Event.sum (past ++ [event]) i binding index scalar := by
  rw [Event.sum_concat_of_none, h.sums hbinding hledger hscalar]
  exact Event.adds?_eq_none fun haccess heq => absurd heq (hevent hledger haccess)

theorem read (h : Remembers kernel initial past memory) (hplan : kernel.Planned)
    (hfits : kernel.Fits initial) (hread : memory.read kernel field address component = .ok value)
    (element : Element) :
    Remembers kernel initial
      (past ++ [⟨⟨.read, scalar, field.binding, address, component⟩, element, value⟩]) memory where
  within := h.within
  sums := h.sums_concat fun _ haccess => by cases haccess
  explained := by
    apply h.explained_concat
    intro _ hstaged
    obtain ⟨binding, index, start, hbinding, hindex, hstart, hvalue⟩ :=
      h.within.read_staged hstaged hread
    refine ⟨binding, index, start, hbinding, hindex, hstart, ?_⟩
    have hledger := h.within.ledger hbinding
    cases haccess : binding.access with
    | write => exact absurd haccess (hplan.access_ne hstaged hbinding)
    | read =>
      rw [haccess, if_neg (by simp), Option.map_eq_none_iff] at hledger
      rw [hledger] at hvalue
      exact .inl ⟨rfl, hvalue⟩
    | accumulate =>
      rw [if_pos ⟨hstaged, haccess⟩] at hledger
      obtain ⟨ledger, hledger, htype⟩ := Option.map_eq_some_iff.mp hledger
      obtain ⟨column, hcolumn, hscalar⟩ := (hfits hbinding).column
      -- The ledger is of the type of the field, as is what was read.
      have hsame : scalar = ledger.scalar := by
        rw [Workspace.cell?, hcolumn, Option.bind_some] at hstart
        obtain ⟨cell, -, hcell⟩ := Option.map_eq_some_iff.mp hstart
        rw [htype, ← hscalar]
        exact (congrArg Sigma.fst hcell).symm
      subst hsame
      simp only [hledger, h.sums hbinding hledger rfl index] at hvalue
      exact .inr ⟨rfl, hvalue⟩

theorem updateField (h : Remembers kernel initial past memory) {location : Location} {index : Nat}
    {update : scalar.Carrier → scalar.Carrier}
    (hupdate : memory.updateField location scalar index update = .ok next) {event : Event}
    (hread : event.access ≠ .read)
    (hevent : ∀ {i ledger}, memory.ledger? i = some ledger → event.access = .accumulate →
      event.binding ≠ i) : Remembers kernel initial (past ++ [event]) next := by
  obtain ⟨hwithin, hledgers⟩ := h.within.updateField hupdate
  constructor
  · exact hwithin
  · intro i binding ledger hbinding hledger
    rw [Memory.ledger?_congr hledgers] at hledger
    exact h.sums_concat hevent hbinding hledger
  · exact h.explained_concat fun haccess => absurd haccess hread

theorem write (h : Remembers kernel initial past memory)
    (hwrite : memory.write kernel field address component value = .ok next) (element : Element) :
    Remembers kernel initial
      (past ++ [⟨⟨.write, scalar, field.binding, address, component⟩, element, value⟩]) next := by
  obtain ⟨binding, index, -, -, -, hupdate⟩ := Memory.write_eq_ok.mp hwrite
  exact h.updateField hupdate (by simp) fun _ haccess => by cases haccess

theorem enter (h : Remembers kernel initial past memory) {ledgers : Array (Option Ledger)}
    (hledgers : memory.ledgers = some ledgers) {binding : Binding} {index : Nat}
    (hbinding : kernel.bindings[field.binding]? = some binding)
    (hindex : binding.cellIndex address component = .ok index) (element : Element) :
    Remembers kernel initial
      (past ++ [⟨⟨.accumulate, scalar, field.binding, address, component⟩, element, value⟩])
      ⟨memory.workspace, memory.staged,
        some (ledgers.modify field.binding (Option.map (·.add scalar index value)))⟩ := by
  constructor
  · exact h.within.enter hledgers field.binding fun ledger => ledger.add_scalar scalar index value
  · intro j other ledger hother hledger scalar' hscalar key
    rw [Memory.ledger?_modify hledgers] at hledger
    split at hledger
    · next hsame =>
      subst hsame
      obtain rfl := Option.some.inj (hbinding.symm.trans hother)
      obtain ⟨old, hold, rfl⟩ := Option.map_eq_some_iff.mp hledger
      rw [Ledger.add_scalar] at hscalar
      have hsum := h.sums hbinding hold hscalar key
      subst hscalar
      by_cases hentered : scalar = old.scalar ∧ key = index
      · obtain ⟨rfl, rfl⟩ := hentered
        rw [Ledger.get_add, if_pos rfl, hsum, Event.sum_concat_of_some]
        simp [Event.adds?, hindex]
      · have hget : (old.add scalar index value).get old.scalar key = old.get old.scalar key := by
          by_cases hscalar : scalar = old.scalar
          · subst hscalar
            rw [Ledger.get_add, if_neg fun hkey => hentered ⟨rfl, hkey⟩]
          · rw [Ledger.add_of_ne hscalar]
        rw [hget, hsum, Event.sum_concat_of_none]
        apply Event.adds?_eq_none
        intro _ _
        by_cases hscalar : scalar = old.scalar
        · exact .inr fun hkey => hentered ⟨hscalar, Except.ok.inj (hkey.symm.trans hindex)⟩
        · exact .inl hscalar
    · next hother =>
      rw [Event.sum_concat_of_none, h.sums ‹_› hledger hscalar]
      exact Event.adds?_eq_none fun _ heq => absurd heq hother
  · exact h.explained_concat fun haccess => by cases haccess

theorem accumulate (h : Remembers kernel initial past memory) (hfits : kernel.Fits initial)
    (haccumulate : memory.accumulate kernel field address component value = .ok next)
    (element : Element) :
    Remembers kernel initial
      (past ++ [⟨⟨.accumulate, scalar, field.binding, address, component⟩, element, value⟩])
      next := by
  obtain ⟨binding, index, hbinding, -, hindex, ⟨hnone, hupdate⟩ | ⟨ledgers, hledgers, -, rfl⟩ |
    ⟨column, copy, hnone, -⟩⟩ := Memory.accumulate_cases haccumulate
  · apply h.updateField hupdate (by simp)
    rintro i ledger hledger - rfl
    -- A binding with a ledger has a copy.
    obtain ⟨there, hthere, -⟩ := (hfits hbinding).column
    have hcopy := h.within.copies hbinding
    rw [if_pos (h.within.of_ledger hbinding hledger).1, hthere, hnone] at hcopy
    cases hcopy
  · exact h.enter hledgers hbinding hindex element
  · have hsome := h.within.ledgers
    rw [hnone] at hsome
    cases hsome

theorem run (action : Action α) {element : Element} {before final : List Event} {result : α}
    (h : Remembers kernel initial (before ++ past) memory) (hplan : kernel.Planned)
    (hfits : kernel.Fits initial)
    (hrun : (action.traced element past).run kernel memory = .ok ((final, result), next)) :
    Remembers kernel initial (before ++ final) next := by
  induction action generalizing past memory with
  | done _ =>
    cases hrun
    exact h
  | fail _ => cases hrun
  | read scalar field address component rest ih =>
    obtain ⟨value, hvalue, hrun⟩ := bind_eq_ok.mp hrun
    apply ih value _ hrun
    rw [← List.append_assoc]
    exact h.read hplan hfits hvalue element
  | write scalar field address component value rest ih =>
    obtain ⟨written, hwrite, hrun⟩ := bind_eq_ok.mp hrun
    apply ih _ hrun
    rw [← List.append_assoc]
    exact h.write hwrite element
  | accumulate scalar field address component value rest ih =>
    obtain ⟨added, hadd, hrun⟩ := bind_eq_ok.mp hrun
    apply ih _ hrun
    rw [← List.append_assoc]
    exact h.accumulate hfits hadd element

theorem visit (body : Element → Action α) (slots : List Nat) {results : List (List Event × α)}
    (h : Remembers kernel initial past memory) (hplan : kernel.Planned)
    (hfits : kernel.Fits initial)
    (hvisit : kernel.visit (Kernel.tracing body) slots memory = .ok (results, next)) :
    Remembers kernel initial (past ++ results.flatMap Prod.fst) next := by
  induction slots generalizing memory past results with
  | nil =>
    cases hvisit
    rwa [List.flatMap_nil, List.append_nil]
  | cons slot rest ih =>
    obtain ⟨⟨events, result⟩, between, later, hhere, hlater, rfl⟩ := Kernel.visit_cons.mp hvisit
    rw [List.flatMap_cons, ← List.append_assoc]
    apply ih _ hlater
    rw [← List.append_nil past] at h
    exact h.run (body (kernel.element slot.toUInt32)) hplan hfits hhere

end Remembers

namespace Kernel

def within (kernel : Kernel) (patch : Patch) (events : List Event) : List Event :=
  events.filter fun event => kernel.patchOf event.element = .ok patch

structure Ranged (kernel : Kernel) (ranges : List PatchRange) : Prop where
  patch : ∀ range ∈ ranges, ∀ slot ∈ range.slots,
    kernel.patchOf (kernel.element slot.toUInt32) = .ok range.patch
  distinct : ranges.Pairwise fun a b => a.patch ≠ b.patch

section Traces

variable {body : Element → Action α} {range : PatchRange} {rest : List PatchRange}

theorem Ranged.tail (h : kernel.Ranged (range :: rest)) : kernel.Ranged rest where
  patch := fun other hother => h.patch other (List.mem_cons_of_mem _ hother)
  distinct := (List.pairwise_cons.mp h.distinct).2

theorem visit_tracing_element (slots : List Nat) {results : List (List Event × α)}
    (h : kernel.visit (tracing body) slots memory = .ok (results, next)) :
    ∀ event ∈ results.flatMap Prod.fst,
      ∃ slot ∈ slots, event.element = kernel.element slot.toUInt32 := by
  induction slots generalizing memory results with
  | nil =>
    cases h
    simp
  | cons slot rest ih =>
    obtain ⟨⟨events, result⟩, between, later, hhere, hlater, rfl⟩ := visit_cons.mp h
    intro event hevent
    rw [List.flatMap_cons] at hevent
    rcases List.mem_append.mp hevent with hevent | hevent
    · have helement := (body (kernel.element slot.toUInt32)).traced_element hhere (by simp)
      exact ⟨slot, List.mem_cons_self, helement event hevent⟩
    · obtain ⟨other, hother, helement⟩ := ih hlater event hevent
      exact ⟨other, List.mem_cons_of_mem _ hother, helement⟩

theorem Ranged.here (h : kernel.Ranged (range :: rest)) {results : List (List Event × α)}
    (hvisit : kernel.visit (tracing body) range.slots memory = .ok (results, next)) :
    ∀ event ∈ results.flatMap Prod.fst, kernel.patchOf event.element = .ok range.patch := by
  intro event hevent
  obtain ⟨slot, hslot, helement⟩ := visit_tracing_element range.slots hvisit event hevent
  rw [helement]
  exact h.patch range List.mem_cons_self slot hslot

theorem Ranged.patches {ranges : List PatchRange} (h : kernel.Ranged ranges)
    {staged : Array (Option Column)} {workspace after : Workspace}
    {results : List (List Event × α)}
    (hvisit : kernel.visitPatches (tracing body) staged ranges workspace = .ok (results, after)) :
    ∀ event ∈ results.flatMap Prod.fst,
      ∃ range ∈ ranges, kernel.patchOf event.element = .ok range.patch := by
  induction ranges generalizing workspace results with
  | nil =>
    cases hvisit
    simp
  | cons range rest ih =>
    obtain ⟨here, memory, settled, later, hhere, -, hlater, rfl⟩ := visitPatches_cons.mp hvisit
    intro event hevent
    rw [List.flatMap_append] at hevent
    rcases List.mem_append.mp hevent with hevent | hevent
    · exact ⟨range, List.mem_cons_self, h.here hhere event hevent⟩
    · obtain ⟨other, hother, hpatch⟩ := ih h.tail hlater event hevent
      exact ⟨other, List.mem_cons_of_mem _ hother, hpatch⟩

theorem Ranged.later (h : kernel.Ranged (range :: rest)) {staged : Array (Option Column)}
    {workspace after : Workspace} {results : List (List Event × α)}
    (hvisit : kernel.visitPatches (tracing body) staged rest workspace = .ok (results, after)) :
    kernel.within range.patch (results.flatMap Prod.fst) = [] := by
  rw [within, List.filter_eq_nil_iff]
  intro event hevent hpatch
  obtain ⟨other, hother, hthere⟩ := h.tail.patches hvisit event hevent
  have hne := (List.pairwise_cons.mp h.distinct).1 other hother
  exact hne (Except.ok.inj ((of_decide_eq_true hpatch).symm.trans hthere))

end Traces

end Kernel

end MeshLayout
