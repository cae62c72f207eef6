import MeshLayout.Proofs.Kernel.Declare
import MeshLayout.Proofs.Kernel.Ledger
import MeshLayout.Proofs.Kernel.Whole

/-!
# Staging within a patch

Within a patch, what is added through a staged binding waits in a ledger. The run that adds at
once has in each field what the field of the staged run would hold if its ledger were settled. An
addition beyond the field makes that run fail at once; the staged run goes on with a ledger that
cannot be settled.
-/

set_option autoImplicit false

namespace MeshLayout

variable {α : Type} {kernel : Kernel} {initial : Workspace} {memory plain after : Memory}

namespace Kernel

def Defers (kernel : Kernel) (i : Nat) : Prop :=
  ∃ binding, kernel.bindings[i]? = some binding ∧ kernel.stages i = true ∧
    binding.access = .accumulate

def WholeSums (kernel : Kernel) (request : Request) : Prop :=
  request.access = .accumulate → kernel.stages request.binding = true →
    ∀ binding, kernel.bindings[request.binding]? = some binding → binding.access = .accumulate →
      binding.type.scalar = request.scalar ∧ request.scalar.isInteger = true

def Fits (kernel : Kernel) (workspace : Workspace) : Prop :=
  ∀ {i : Nat} {binding : Binding}, kernel.bindings[i]? = some binding → binding.Fits workspace

end Kernel

theorem Binding.Fits.column {workspace : Workspace} {binding : Binding}
    (h : binding.Fits workspace) : ∃ column, workspace.column? binding.location = some column ∧
      column.scalar = binding.type.scalar := by
  obtain ⟨field, hfield, htype⟩ := Option.map_eq_some_iff.mp h.type
  apply Exists.intro field.column
  constructor
  · rw [Workspace.column?, hfield, Option.map_some]
  · rw [← htype]
    rfl

namespace Memory

theorem ledger?_congr {memory other : Memory} (h : memory.ledgers = other.ledgers) (i : Nat) :
    memory.ledger? i = other.ledger? i := by
  rw [ledger?, ledger?, h]

theorem ledger?_modify {memory : Memory} {ledgers : Array (Option Ledger)}
    (h : memory.ledgers = some ledgers) (i j : Nat) (f : Ledger → Ledger) :
    ledger? ⟨memory.workspace, memory.staged, some (ledgers.modify i (Option.map f))⟩ j =
      if i = j then (memory.ledger? j).map f else memory.ledger? j := by
  simp only [ledger?, h, Option.bind_eq_bind, Option.bind_some, Array.getElem?_modify]
  by_cases hij : i = j
  · subst hij
    rw [if_pos rfl, if_pos rfl]
    rcases ledgers[i]? with _ | _ | ledger <;> rfl
  · rw [if_neg hij, if_neg hij]

end Memory

/-- A memory while a patch is visited: the copies are those of the start of the run, and the
bindings that defer additions have ledgers of their types. -/
structure WithinPatch (kernel : Kernel) (initial : Workspace) (memory : Memory) : Prop where
  copies : ∀ {i binding}, kernel.bindings[i]? = some binding → memory.staged? i =
    if kernel.stages i then initial.column? binding.location else none
  ledgers : memory.ledgers.isSome = true
  ledger : ∀ {i binding}, kernel.bindings[i]? = some binding →
    (memory.ledger? i).map Ledger.scalar =
      if kernel.stages i = true ∧ binding.access = .accumulate then some binding.type.scalar
      else none
  shapes : memory.Keeps initial.shape?

namespace WithinPatch

theorem start (hplan : kernel.Planned) {workspace : Workspace}
    (hshapes : ∀ location, workspace.shape? location = initial.shape? location) :
    WithinPatch kernel initial ⟨workspace, kernel.copies initial, some kernel.emptyLedgers⟩ where
  copies := fun hbinding => Kernel.copies_lookup hbinding initial
  ledgers := rfl
  ledger := by
    intro i binding hbinding
    change ((kernel.emptyLedgers)[i]?).join.map Ledger.scalar = _
    rw [Kernel.emptyLedgers_lookup hplan hbinding]
    split <;> rfl
  shapes := hshapes

theorem of_ledger (h : WithinPatch kernel initial memory) {i : Nat} {binding : Binding}
    {ledger : Ledger} (hbinding : kernel.bindings[i]? = some binding)
    (hledger : memory.ledger? i = some ledger) : kernel.stages i = true ∧
      binding.access = .accumulate ∧ ledger.scalar = binding.type.scalar := by
  have hhere := h.ledger hbinding
  rw [hledger, Option.map_some] at hhere
  split at hhere
  · next hdefers => exact ⟨hdefers.1, hdefers.2, Option.some.inj hhere⟩
  · cases hhere

theorem store (h : WithinPatch kernel initial memory) {location : Location} {old column : Column}
    (hold : memory.workspace.column? location = some old) (hshape : column.shape = old.shape) :
    WithinPatch kernel initial
      { memory with workspace := memory.workspace.withColumn location column } where
  copies := h.copies
  ledgers := h.ledgers
  ledger := h.ledger
  shapes := by
    intro other
    exact (Workspace.shape?_withColumn hold hshape other).trans (h.shapes other)

theorem updateField (h : WithinPatch kernel initial memory) {location : Location}
    {scalar : Scalar} {index : Nat} {update : scalar.Carrier → scalar.Carrier}
    (hupdate : memory.updateField location scalar index update = .ok after) :
    WithinPatch kernel initial after ∧ after.ledgers = memory.ledgers := by
  obtain ⟨old, column, hold, hcolumn, rfl⟩ := Memory.updateField_eq_ok.mp hupdate
  exact ⟨h.store hold (Column.updateCell_shape hcolumn), rfl⟩

theorem enter (h : WithinPatch kernel initial memory) {ledgers : Array (Option Ledger)}
    (hledgers : memory.ledgers = some ledgers) (i : Nat) {f : Ledger → Ledger}
    (hscalar : ∀ ledger, (f ledger).scalar = ledger.scalar) :
    WithinPatch kernel initial
      ⟨memory.workspace, memory.staged, some (ledgers.modify i (Option.map f))⟩ where
  copies := h.copies
  ledgers := rfl
  ledger := by
    intro j binding hbinding
    rw [← h.ledger hbinding, Memory.ledger?_modify hledgers]
    split
    · rw [Option.map_map]
      congr 1
      funext ledger
      exact hscalar ledger
    · rfl
  shapes := h.shapes

end WithinPatch

/-- A ledger holds an addition beyond the field of its binding. -/
structure Doomed (kernel : Kernel) (initial : Workspace) (memory : Memory) : Prop where
  within : WithinPatch kernel initial memory
  overdrawn : ∃ i binding ledger column, kernel.bindings[i]? = some binding ∧
    memory.ledger? i = some ledger ∧ initial.column? binding.location = some column ∧
    ledger.Overdrawn column.size

namespace Doomed

variable {scalar : Scalar}

theorem write (h : Doomed kernel initial memory) (field : FieldHandle scalar) (address : Address)
    (component : Nat) (value : scalar.Carrier) :
    (memory.write kernel field address component value).Late (Doomed kernel initial) := by
  apply (memory.write_unrefused kernel field address component value).late
  intro after hwrite
  obtain ⟨binding, index, -, -, -, hupdate⟩ := Memory.write_eq_ok.mp hwrite
  obtain ⟨hwithin, hledgers⟩ := h.within.updateField hupdate
  obtain ⟨i, other, ledger, column, hi, hledger, hcolumn, hover⟩ := h.overdrawn
  exact ⟨hwithin, i, other, ledger, column, hi, (Memory.ledger?_congr hledgers i).trans hledger,
    hcolumn, hover⟩

theorem accumulate (h : Doomed kernel initial memory) (field : FieldHandle scalar)
    (address : Address) (component : Nat) (value : scalar.Carrier) :
    (memory.accumulate kernel field address component value).Late (Doomed kernel initial) := by
  apply (memory.accumulate_unrefused kernel field address component value).late
  intro after haccumulate
  obtain ⟨i, other, ledger, column, hi, hledger, hcolumn, hover⟩ := h.overdrawn
  obtain ⟨binding, index, -, -, -, ⟨-, hupdate⟩ | ⟨ledgers, hledgers, -, rfl⟩ |
    ⟨staged, copy, hnone, -⟩⟩ := Memory.accumulate_cases haccumulate
  · obtain ⟨hwithin, hsame⟩ := h.within.updateField hupdate
    exact ⟨hwithin, i, other, ledger, column, hi, (Memory.ledger?_congr hsame i).trans hledger,
      hcolumn, hover⟩
  · have hwithin := h.within.enter hledgers field.binding
      (f := (·.add scalar index value)) (fun ledger => ledger.add_scalar scalar index value)
    apply Doomed.mk hwithin
    by_cases hsame : field.binding = i
    · refine ⟨i, other, ledger.add scalar index value, column, hi, ?_, hcolumn, hover.add _ _ _⟩
      rw [Memory.ledger?_modify hledgers, if_pos hsame, hledger, Option.map_some]
    · refine ⟨i, other, ledger, column, hi, ?_, hcolumn, hover⟩
      rw [Memory.ledger?_modify hledgers, if_neg hsame, hledger]
  · have hsome := h.within.ledgers
    rw [hnone] at hsome
    cases hsome

theorem run (h : Doomed kernel initial memory) (action : Action α) :
    (action.run kernel memory).Late fun a => Doomed kernel initial a.2 :=
  action.run_late (fun field address component value h => h.write field address component value)
    (fun field address component value h => h.accumulate field address component value) h

theorem visit (h : Doomed kernel initial memory) (body : Element → Action α) (slots : List Nat) :
    (kernel.visit body slots memory).Late fun a => Doomed kernel initial a.2 :=
  kernel.visit_late (fun field address component value h => h.write field address component value)
    (fun field address component value h => h.accumulate field address component value) body slots h

end Doomed

/-- The staged run within a patch beside the run that adds at once. -/
structure Pending (kernel : Kernel) (initial : Workspace) (memory plain : Memory) : Prop where
  within : WithinPatch kernel initial memory
  plain_staged : ∀ i, plain.staged? i = none
  plain_shapes : plain.Keeps initial.shape?
  fields : ∀ {location}, ¬kernel.StagesSums location →
    memory.workspace.column? location = plain.workspace.column? location
  reads : ∀ {i binding}, kernel.bindings[i]? = some binding → kernel.stages i = true →
    binding.access = .read →
      plain.workspace.column? binding.location = initial.column? binding.location
  debts : ∀ {i binding ledger}, kernel.bindings[i]? = some binding →
    memory.ledger? i = some ledger → ∃ before owed,
      memory.workspace.column? binding.location = some before ∧
      plain.workspace.column? binding.location = some owed ∧ ledger.mergeInto before = .ok owed

namespace Pending

variable {scalar : Scalar}

theorem read_eq (h : Pending kernel initial memory plain) (hplan : kernel.Planned)
    (hfits : kernel.Fits initial) (field : FieldHandle scalar) (address : Address)
    (component : Nat) (hdefers : ¬kernel.Defers field.binding) :
    memory.read kernel field address component = plain.read kernel field address component := by
  apply Memory.read_eq (h.plain_staged field.binding)
  intro binding hbinding
  have hcopy := h.within.copies hbinding
  cases hstaged : kernel.stages field.binding with
  | false =>
    rw [hstaged] at hcopy
    exact .inl ⟨hcopy, h.fields (hplan.not_stagesSums hbinding (.inl hstaged))⟩
  | true =>
    rw [hstaged, if_pos rfl] at hcopy
    have haccess : binding.access = .read := by
      cases hcase : binding.access with
      | read => rfl
      | write => exact absurd hcase (hplan.access_ne hstaged hbinding)
      | accumulate => exact absurd ⟨binding, hbinding, hstaged, hcase⟩ hdefers
    obtain ⟨column, hcolumn, -⟩ := (hfits hbinding).column
    have hledger : memory.ledger? field.binding = none := by
      have := h.within.ledger hbinding
      rw [haccess, if_neg (by simp)] at this
      exact Option.map_eq_none_iff.mp this
    exact .inr ⟨column, hcopy.trans hcolumn, (h.reads hbinding hstaged haccess).trans hcolumn,
      hledger⟩

theorem read (h : Pending kernel initial memory plain) (hplan : kernel.Planned)
    (hfits : kernel.Fits initial) (field : FieldHandle scalar) (address : Address)
    (component : Nat)
    (hreads : ∀ value, plain.read kernel field address component = .ok value →
      ¬kernel.Defers field.binding) :
    Outcome.Trails Eq (fun _ => False) (memory.read kernel field address component)
      (plain.read kernel field address component) := by
  have hplain := plain.read_unrefused kernel field address component
  by_cases hdefers : kernel.Defers field.binding
  · generalize hy : plain.read kernel field address component = y at hplain hreads
    cases hplain with
    | ok _ => exact absurd hdefers (hreads _ rfl)
    | broken fault =>
      apply Outcome.Trails.broken
      apply (memory.read_unrefused kernel field address component).late
      intro value hread
      obtain ⟨binding, hbinding, hstaged, -⟩ := hdefers
      obtain ⟨column, hcolumn, -⟩ := (hfits hbinding).column
      have hcopy := h.within.copies hbinding
      rw [hstaged, if_pos rfl, hcolumn] at hcopy
      have hshape := h.plain_shapes binding.location
      rw [Workspace.shape?, Workspace.shape?, hcolumn] at hshape
      obtain ⟨other, hother, heq⟩ := Option.map_eq_some_iff.mp hshape
      unfold Memory.read at hread hy
      simp only [hbinding, Outcome.ofLookup_some, ok_bind, hcopy, h.plain_staged, hother] at hread hy
      obtain ⟨index, hindex, hread⟩ := bind_eq_ok.mp hread
      obtain ⟨base, hbase, -⟩ := bind_eq_ok.mp hread
      obtain ⟨there, hthere⟩ := Column.loadCell_of_shape heq.symm hbase
      rw [hindex, ok_bind, hthere] at hy
      cases hy
  · rw [h.read_eq hplan hfits field address component hdefers]
    generalize plain.read kernel field address component = y at hplain
    cases hplain with
    | ok _ => exact .ok rfl
    | broken fault => exact .broken (.broken fault) fault

theorem store (h : Pending kernel initial memory plain) {location : Location} {old column : Column}
    (hnone : ∀ {i binding}, kernel.stages i = true → kernel.bindings[i]? = some binding →
      binding.location ≠ location)
    (hold : plain.workspace.column? location = some old)
    (hold' : memory.workspace.column? location = some old) (hshape : column.shape = old.shape) :
    Pending kernel initial
      { memory with workspace := memory.workspace.withColumn location column }
      { plain with workspace := plain.workspace.withColumn location column } where
  within := h.within.store hold' hshape
  plain_staged := h.plain_staged
  plain_shapes := by
    intro other
    exact (Workspace.shape?_withColumn hold hshape other).trans (h.plain_shapes other)
  fields := by
    intro other hother
    rw [Workspace.column?_withColumn hold hshape, Workspace.column?_withColumn hold' hshape,
      h.fields hother]
  reads := by
    intro i binding hbinding hstaged haccess
    rw [Workspace.column?_withColumn_ne _ _ (hnone hstaged hbinding)]
    exact h.reads hbinding hstaged haccess
  debts := by
    intro i binding ledger hbinding hledger
    have hstaged := (h.within.of_ledger hbinding hledger).1
    simp only [Workspace.column?_withColumn_ne _ _ (hnone hstaged hbinding)]
    exact h.debts hbinding hledger

theorem updateField (h : Pending kernel initial memory plain) (hplan : kernel.Planned) {i : Nat}
    {binding : Binding} (hbinding : kernel.bindings[i]? = some binding)
    (hstaged : kernel.stages i = false) (hchanges : binding.access ≠ .read) (index : Nat)
    (update : scalar.Carrier → scalar.Carrier) :
    Outcome.Related (Pending kernel initial)
      (memory.updateField binding.location scalar index update)
      (plain.updateField binding.location scalar index update) := by
  have hnone : ∀ {j other}, kernel.stages j = true → kernel.bindings[j]? = some other →
      other.location ≠ binding.location := hplan.location_ne_of_unstaged hbinding hchanges hstaged
  have hsame := h.fields (hplan.not_stagesSums hbinding (.inl hstaged))
  apply Memory.updateField_related hsame
  intro old column hold hshape
  exact h.store hnone hold (hsame.trans hold) hshape

theorem write (h : Pending kernel initial memory plain) (hplan : kernel.Planned)
    (field : FieldHandle scalar) (address : Address) (component : Nat) (value : scalar.Carrier) :
    Outcome.Trails (Pending kernel initial) (Doomed kernel initial)
      (memory.write kernel field address component value)
      (plain.write kernel field address component value) := by
  apply Outcome.Related.trails _ (memory.write_unrefused kernel field address component value)
  apply Memory.write_related
  intro binding hbinding haccess index
  cases hstaged : kernel.stages field.binding with
  | false => exact h.updateField hplan hbinding hstaged (by simp [haccess]) _ _
  | true => exact absurd haccess (hplan.access_ne hstaged hbinding)

theorem enter (h : Pending kernel initial memory plain) (hplan : kernel.Planned)
    {ledgers : Array (Option Ledger)} (hledgers : memory.ledgers = some ledgers) {i : Nat}
    {binding : Binding} (hbinding : kernel.bindings[i]? = some binding) {ledger : Ledger}
    (hledger : memory.ledger? i = some ledger) {f : Ledger → Ledger}
    (hscalar : ∀ ledger, (f ledger).scalar = ledger.scalar) {before owed column : Column}
    (hbefore : memory.workspace.column? binding.location = some before)
    (howed : plain.workspace.column? binding.location = some owed)
    (hshape : column.shape = owed.shape) (hmerge : (f ledger).mergeInto before = .ok column) :
    Pending kernel initial
      ⟨memory.workspace, memory.staged, some (ledgers.modify i (Option.map f))⟩
      { plain with workspace := plain.workspace.withColumn binding.location column } := by
  obtain ⟨hstaged, haccess, -⟩ := h.within.of_ledger hbinding hledger
  have hother : ∀ {j other}, kernel.stages j = true → kernel.bindings[j]? = some other → i ≠ j →
      other.location ≠ binding.location := fun hj hother hne =>
    hplan.location_ne hbinding (by simp [haccess]) hj hother hne
  constructor
  · exact h.within.enter hledgers i hscalar
  · exact h.plain_staged
  · intro location
    exact (Workspace.shape?_withColumn howed hshape location).trans (h.plain_shapes location)
  · intro location hlocation
    have hne : location ≠ binding.location := by
      rintro rfl
      exact hlocation ⟨i, binding, hbinding, hstaged, haccess, rfl⟩
    rw [Workspace.column?_withColumn_ne _ _ hne]
    exact h.fields hlocation
  · intro j other hj hstagedj haccessj
    have hne : i ≠ j := by
      rintro rfl
      rw [Option.some.inj (hbinding.symm.trans hj), haccessj] at haccess
      cases haccess
    rw [Workspace.column?_withColumn_ne _ _ (hother hstagedj hj hne)]
    exact h.reads hj hstagedj haccessj
  · intro j other there hj hthere
    rw [Memory.ledger?_modify hledgers] at hthere
    by_cases hij : i = j
    · subst hij
      obtain rfl := Option.some.inj (hbinding.symm.trans hj)
      rw [if_pos rfl, hledger, Option.map_some] at hthere
      cases hthere
      exact ⟨before, column, hbefore, Workspace.column?_withColumn_self howed hshape, hmerge⟩
    · rw [if_neg hij] at hthere
      have hne := hother (h.within.of_ledger hj hthere).1 hj hij
      obtain ⟨first, second, hfirst, hsecond, hmerges⟩ := h.debts hj hthere
      exact ⟨first, second, hfirst, by rwa [Workspace.column?_withColumn_ne _ _ hne], hmerges⟩

/-- The run that adds at once fails if the cell is beyond the field; the other one is then bound
to fail. -/
theorem addToLedger (h : Pending kernel initial memory plain) (hplan : kernel.Planned)
    {ledgers : Array (Option Ledger)} (hledgers : memory.ledgers = some ledgers) {i : Nat}
    {binding : Binding} (hbinding : kernel.bindings[i]? = some binding)
    (hstaged : kernel.stages i = true) (haccess : binding.access = .accumulate)
    (htype : binding.type.scalar = scalar) (hinteger : scalar.isInteger = true) (index : Nat)
    (value : scalar.Carrier) :
    Outcome.Trails (Pending kernel initial) (Doomed kernel initial)
      (.ok ⟨memory.workspace, memory.staged,
        some (ledgers.modify i (Option.map (·.add scalar index value)))⟩)
      (plain.updateField binding.location scalar index (scalar.add · value)) := by
  have hhere := h.within.ledger hbinding
  rw [if_pos ⟨hstaged, haccess⟩, htype] at hhere
  obtain ⟨ledger, hledger, rfl⟩ := Option.map_eq_some_iff.mp hhere
  have hkept : ∀ ledger' : Ledger,
      (ledger'.add ledger.scalar index value).scalar = ledger'.scalar :=
    fun ledger' => ledger'.add_scalar ledger.scalar index value
  obtain ⟨before, owed, hbefore, howed, hmerge⟩ := h.debts hbinding hledger
  have hadd := Ledger.mergeInto_add hinteger index value before
  rw [hmerge, ok_bind] at hadd
  have hsame : before.scalar = (ledger.add ledger.scalar index value).scalar :=
    (Ledger.mergeInto_shape hmerge).1.trans (hkept ledger).symm
  rcases Ledger.mergeInto_cases hsame with ⟨column, hcolumn, -⟩ | ⟨hfault, hover⟩
  · have hupdate := hadd.symm.trans hcolumn
    rw [Memory.updateField_eq_ok.mpr ⟨owed, column, howed, hupdate, rfl⟩]
    exact .ok (h.enter hplan hledgers hbinding hledger hkept hbefore howed
      (Column.updateCell_shape hupdate) hcolumn)
  · have hplain : plain.updateField binding.location ledger.scalar index
        (ledger.scalar.add · value) = Outcome.fault .outOfBounds := by
      rw [Memory.updateField, howed, Outcome.ofLookup_some, ok_bind, ← hadd, hfault]
      rfl
    have hshape := h.within.shapes binding.location
    rw [Workspace.shape?, hbefore] at hshape
    obtain ⟨column, hcolumn, heq⟩ := Option.map_eq_some_iff.mp hshape.symm
    rw [hplain]
    apply Outcome.Trails.broken
    apply Outcome.Late.ok
    constructor
    · exact h.within.enter hledgers i hkept
    · refine ⟨i, binding, ledger.add ledger.scalar index value, column, hbinding, ?_, hcolumn, ?_⟩
      · rw [Memory.ledger?_modify hledgers, if_pos rfl, hledger, Option.map_some]
      · rwa [show column.size = before.size from congrArg Prod.snd heq]

theorem accumulate (h : Pending kernel initial memory plain) (hplan : kernel.Planned)
    (hfits : kernel.Fits initial) (field : FieldHandle scalar) (address : Address)
    (component : Nat) (value : scalar.Carrier)
    (hsums : kernel.WholeSums ⟨.accumulate, scalar, field.binding, address, component⟩) :
    Outcome.Trails (Pending kernel initial) (Doomed kernel initial)
      (memory.accumulate kernel field address component value)
      (plain.accumulate kernel field address component value) := by
  unfold Memory.accumulate
  cases hbinding : kernel.bindings[field.binding]? with
  | none => exact .broken (.broken _) _
  | some binding =>
    simp only [Outcome.ofLookup_some, ok_bind, h.plain_staged]
    by_cases haccess : binding.access = .accumulate
    · rw [if_pos haccess, if_pos haccess]
      have hcell := binding.cellIndex_unrefused address component
      generalize binding.cellIndex address component = cell at hcell
      cases hcell with
      | broken fault => exact .broken (.broken fault) fault
      | @ok index _ =>
        simp only [ok_bind]
        rw [h.within.copies hbinding]
        cases hstaged : kernel.stages field.binding with
        | false =>
          exact (h.updateField hplan hbinding hstaged (by simp [haccess]) index _).trails
            (memory.updateField_unrefused _ _ _ _)
        | true =>
          obtain ⟨copy, hcopy, -⟩ := (hfits hbinding).column
          obtain ⟨ledgers, hledgers⟩ := Option.isSome_iff_exists.mp h.within.ledgers
          obtain ⟨htype, hinteger⟩ := hsums rfl hstaged binding hbinding haccess
          simp only [if_true, hcopy, hledgers]
          exact h.addToLedger hplan hledgers hbinding hstaged haccess htype hinteger index value
    · rw [if_neg haccess, if_neg haccess]
      exact .broken (.broken _) _

theorem run (h : Pending kernel initial memory plain) (hplan : kernel.Planned)
    (hfits : kernel.Fits initial) (action : Action α) (hsums : action.Each kernel.WholeSums)
    (hreads : ∀ reading ∈ action.readings kernel.unstaged plain,
      ¬kernel.Defers reading.binding) :
    Outcome.Trails (fun a b => a.1 = b.1 ∧ Pending kernel initial a.2 b.2)
      (fun a => Doomed kernel initial a.2) (action.run kernel memory)
      (action.run kernel.unstaged plain) := by
  induction action generalizing memory plain with
  | done result => exact .ok ⟨rfl, h⟩
  | fail fault => exact .broken (.broken fault) fault
  | read scalar field address component next ih =>
    have hread := h.read hplan hfits field address component fun value hvalue => by
      apply hreads ⟨field.binding, scalar, value⟩
      simp [Action.readings, hvalue]
    apply hread.bind
    · rintro value _ - hvalue rfl
      apply ih value h (hsums.2 value)
      intro reading hreading
      apply hreads
      simp [Action.readings, hvalue, hreading]
    · intro _ hfalse
      exact hfalse.elim
  | write scalar field address component value next ih =>
    apply (h.write hplan field address component value).bind
    · intro memory' plain' _ hwrite h
      apply ih h hsums.2
      intro reading hreading
      apply hreads
      simp [Action.readings, hwrite, hreading]
    · intro memory' h
      exact h.run next
  | accumulate scalar field address component value next ih =>
    apply (h.accumulate hplan hfits field address component value hsums.1).bind
    · intro memory' plain' _ hadd h
      apply ih h hsums.2
      intro reading hreading
      apply hreads
      simp [Action.readings, hadd, hreading]
    · intro memory' h
      exact h.run next

theorem visit (h : Pending kernel initial memory plain) (hplan : kernel.Planned)
    (hfits : kernel.Fits initial) (body : Element → Action α) (slots : List Nat)
    (hsums : ∀ slot ∈ slots, (body (kernel.element slot.toUInt32)).Each kernel.WholeSums)
    (hreads : ∀ reading ∈ kernel.unstaged.readingsAt body slots plain,
      ¬kernel.Defers reading.binding) :
    Outcome.Trails (fun a b => a.1 = b.1 ∧ Pending kernel initial a.2 b.2)
      (fun a => Doomed kernel initial a.2) (kernel.visit body slots memory)
      (kernel.unstaged.visit body slots plain) := by
  induction slots generalizing memory plain with
  | nil => exact .ok ⟨rfl, h⟩
  | cons slot rest ih =>
    have hhere := h.run hplan hfits (body (kernel.element slot.toUInt32))
      (hsums slot List.mem_cons_self)
      fun reading hreading => hreads reading (List.mem_append_left _ hreading)
    apply hhere.bind
    · rintro ⟨result, memory'⟩ ⟨_, plain'⟩ - hrun ⟨rfl, h⟩
      have hrest := fun other hother => hsums other (List.mem_cons_of_mem slot hother)
      have hlater := ih h hrest fun reading hreading => by
        apply hreads reading
        apply List.mem_append_right
        rw [Kernel.unstaged_element, hrun]
        exact hreading
      apply hlater.bind
      · rintro ⟨results, memory''⟩ ⟨_, plain''⟩ - - ⟨rfl, h⟩
        exact .ok ⟨rfl, h⟩
      · intro later h
        exact .ok h
    · intro here h
      exact (h.visit body rest).bind fun later h => .ok h

end Pending

end MeshLayout
