import MeshLayout.Proofs.Kernel.Memory

/-!
# Staging taken as a whole

A run that works on copies and stores them back mirrors the run that works on the fields: a copy
holds what the field of its binding would hold, and every field that is not added to through a
copy is the same in both. The rule that a changed field has no binding beside the staged one
keeps copies and fields together.
-/

set_option autoImplicit false

namespace MeshLayout

variable {α : Type} {kernel : Kernel} {memory plain : Memory}

/-- The memory of a run on copies beside that of a run on the fields. -/
structure Mirrors (kernel : Kernel) (memory plain : Memory) : Prop where
  ledgers : memory.ledgers = none
  plain_staged : ∀ i, plain.staged? i = none
  copies : ∀ {i binding}, kernel.bindings[i]? = some binding → memory.staged? i =
    if kernel.stages i then plain.workspace.column? binding.location else none
  fields : ∀ {location}, ¬kernel.StagesSums location →
    memory.workspace.column? location = plain.workspace.column? location
  shapes : ∀ location, memory.workspace.shape? location = plain.workspace.shape? location

namespace Mirrors

theorem start (workspace : Workspace) :
    Mirrors kernel ⟨workspace, kernel.copies workspace, none⟩
      ⟨workspace, kernel.unstaged.copies workspace, none⟩ where
  ledgers := rfl
  plain_staged := by
    intro i
    simp only [Memory.staged?, Kernel.copies, Kernel.stagedBindings, Array.getElem?_mapIdx]
    cases kernel.unstaged.bindings[i]? <;> rfl
  copies := by
    intro i binding hbinding
    exact Kernel.copies_lookup hbinding workspace
  fields := fun _ => rfl
  shapes := fun _ => rfl

theorem column?_eq_none (h : Mirrors kernel memory plain) {location : Location} :
    memory.workspace.column? location = none ↔ plain.workspace.column? location = none := by
  have := h.shapes location
  unfold Workspace.shape? at this
  constructor
  · intro hnone
    rw [hnone, Option.map_none] at this
    exact Option.map_eq_none_iff.mp this.symm
  · intro hnone
    rw [hnone, Option.map_none] at this
    exact Option.map_eq_none_iff.mp this

theorem read (h : Mirrors kernel memory plain) (hplan : kernel.Planned) {scalar : Scalar}
    (field : FieldHandle scalar) (address : Address) (component : Nat) :
    memory.read kernel field address component = plain.read kernel field address component := by
  apply Memory.read_eq (h.plain_staged field.binding)
  intro binding hbinding
  have hcopy := h.copies hbinding
  cases hstaged : kernel.stages field.binding with
  | false =>
    rw [hstaged] at hcopy
    exact .inl ⟨hcopy, h.fields (hplan.not_stagesSums hbinding (.inl hstaged))⟩
  | true =>
    rw [hstaged, if_pos rfl] at hcopy
    cases hcolumn : plain.workspace.column? binding.location with
    | none => exact .inl ⟨hcopy.trans hcolumn, h.column?_eq_none.mpr hcolumn⟩
    | some column =>
      have hledger : memory.ledger? field.binding = none := by
        rw [Memory.ledger?, h.ledgers]
        rfl
      exact .inr ⟨column, hcopy.trans hcolumn, rfl, hledger⟩

theorem store (h : Mirrors kernel memory plain) {location : Location} {old column : Column}
    (hnone : ∀ {i binding}, kernel.stages i = true → kernel.bindings[i]? = some binding →
      binding.location ≠ location)
    (hold : plain.workspace.column? location = some old)
    (hold' : memory.workspace.column? location = some old) (hshape : column.shape = old.shape) :
    Mirrors kernel { memory with workspace := memory.workspace.withColumn location column }
      { plain with workspace := plain.workspace.withColumn location column } where
  ledgers := h.ledgers
  plain_staged := h.plain_staged
  copies := by
    intro i binding hbinding
    have hcopy := h.copies hbinding
    cases hstaged : kernel.stages i with
    | false =>
      rw [hstaged] at hcopy
      exact hcopy
    | true =>
      rw [hstaged] at hcopy
      simp only [if_true] at hcopy ⊢
      rw [Workspace.column?_withColumn_ne _ _ (hnone hstaged hbinding)]
      exact hcopy
  fields := by
    intro other hother
    rw [Workspace.column?_withColumn hold hshape, Workspace.column?_withColumn hold' hshape,
      h.fields hother]
  shapes := by
    intro other
    rw [Workspace.shape?_withColumn hold hshape, Workspace.shape?_withColumn hold' hshape]
    exact h.shapes other

theorem updateField (h : Mirrors kernel memory plain) (hplan : kernel.Planned) {i : Nat}
    {binding : Binding} (hbinding : kernel.bindings[i]? = some binding)
    (hstaged : kernel.stages i = false) (hchanges : binding.access ≠ .read) (scalar : Scalar)
    (index : Nat) (update : scalar.Carrier → scalar.Carrier) :
    Outcome.Related (Mirrors kernel)
      (memory.updateField binding.location scalar index update)
      (plain.updateField binding.location scalar index update) := by
  have hnone : ∀ {j other}, kernel.stages j = true → kernel.bindings[j]? = some other →
      other.location ≠ binding.location := hplan.location_ne_of_unstaged hbinding hchanges hstaged
  have hsame := h.fields (hplan.not_stagesSums hbinding (.inl hstaged))
  apply Memory.updateField_related hsame
  intro old column hold hshape
  exact h.store hnone hold (hsame.trans hold) hshape

theorem write (h : Mirrors kernel memory plain) (hplan : kernel.Planned) {scalar : Scalar}
    (field : FieldHandle scalar) (address : Address) (component : Nat) (value : scalar.Carrier) :
    Outcome.Related (Mirrors kernel) (memory.write kernel field address component value)
      (plain.write kernel field address component value) := by
  apply Memory.write_related
  intro binding hbinding haccess index
  cases hstaged : kernel.stages field.binding with
  | false => exact h.updateField hplan hbinding hstaged (by simp [haccess]) _ _ _
  | true => exact absurd haccess (hplan.access_ne hstaged hbinding)

theorem addToCopy (h : Mirrors kernel memory plain) (hplan : kernel.Planned) {i : Nat}
    {binding : Binding} (hbinding : kernel.bindings[i]? = some binding)
    (hstaged : kernel.stages i = true) (haccess : binding.access = .accumulate)
    {old column : Column} (hold : plain.workspace.column? binding.location = some old)
    (hshape : column.shape = old.shape) :
    Mirrors kernel ⟨memory.workspace, memory.staged.setIfInBounds i (some column), none⟩
      { plain with workspace := plain.workspace.withColumn binding.location column } where
  ledgers := rfl
  plain_staged := h.plain_staged
  copies := by
    intro j other hother
    by_cases hj : j = i
    · subst hj
      obtain rfl := Option.some.inj (hbinding.symm.trans hother)
      have hlt : j < memory.staged.size := by
        have hcopy := h.copies hbinding
        rw [hstaged, if_pos rfl, hold, Memory.staged?, Option.join_eq_some_iff] at hcopy
        exact (Array.getElem?_eq_some_iff.mp hcopy).1
      simp only [Memory.staged?, Array.getElem?_setIfInBounds_self_of_lt hlt, hstaged, if_true,
        Option.join_some]
      rw [Workspace.column?_withColumn_self hold hshape]
    · have hcopy := h.copies hother
      simp only [Memory.staged?] at hcopy ⊢
      rw [Array.getElem?_setIfInBounds_ne (fun h => hj h.symm), hcopy]
      cases hstaged' : kernel.stages j with
      | false => rfl
      | true =>
        have hne := hplan.location_ne hbinding (by simp [haccess]) hstaged' hother fun h => hj h.symm
        simp only [if_true, Workspace.column?_withColumn_ne _ _ hne]
  fields := by
    intro location hlocation
    have hne : location ≠ binding.location := by
      rintro rfl
      exact hlocation ⟨i, binding, hbinding, hstaged, haccess, rfl⟩
    rw [Workspace.column?_withColumn_ne _ _ hne]
    exact h.fields hlocation
  shapes := by
    intro location
    rw [Workspace.shape?_withColumn hold hshape]
    exact h.shapes location

theorem accumulate (h : Mirrors kernel memory plain) (hplan : kernel.Planned) {scalar : Scalar}
    (field : FieldHandle scalar) (address : Address) (component : Nat) (value : scalar.Carrier) :
    Outcome.Related (Mirrors kernel) (memory.accumulate kernel field address component value)
      (plain.accumulate kernel field address component value) := by
  unfold Memory.accumulate
  cases hbinding : kernel.bindings[field.binding]? with
  | none => exact .error _
  | some binding =>
    simp only [Outcome.ofLookup_some, ok_bind, h.plain_staged, h.ledgers]
    by_cases haccess : binding.access = .accumulate
    · rw [if_pos haccess, if_pos haccess]
      apply Outcome.Related.same
      intro index _
      rw [h.copies hbinding]
      cases hstaged : kernel.stages field.binding with
      | false =>
        exact h.updateField hplan hbinding hstaged (by simp [haccess]) scalar index (scalar.add · value)
      | true =>
        simp only [if_true, Memory.updateField]
        cases hold : plain.workspace.column? binding.location with
        | none =>
          rw [h.column?_eq_none.mpr hold]
          exact .error _
        | some old =>
          simp only [Outcome.ofLookup_some, ok_bind]
          apply Outcome.Related.same
          intro column hcolumn
          exact .ok (h.addToCopy hplan hbinding hstaged haccess hold
            (Column.updateCell_shape hcolumn))
    · rw [if_neg haccess, if_neg haccess]
      exact .error _

theorem run (h : Mirrors kernel memory plain) (hplan : kernel.Planned) (action : Action α) :
    Outcome.Related (fun a b => a.1 = b.1 ∧ Mirrors kernel a.2 b.2) (action.run kernel memory)
      (action.run kernel.unstaged plain) := by
  induction action generalizing memory plain with
  | done result => exact .ok ⟨rfl, h⟩
  | fail fault => exact .error _
  | read scalar field address component next ih =>
    simp only [Action.run, h.read hplan]
    apply Outcome.Related.same
    intro value _
    exact ih value h
  | write scalar field address component value next ih =>
    apply (h.write hplan field address component value).bind
    intro memory plain h
    exact ih h
  | accumulate scalar field address component value next ih =>
    apply (h.accumulate hplan field address component value).bind
    intro memory plain h
    exact ih h

theorem readings (h : Mirrors kernel memory plain) (hplan : kernel.Planned) (action : Action α) :
    action.readings kernel memory = action.readings kernel.unstaged plain := by
  induction action generalizing memory plain with
  | done result => rfl
  | fail fault => rfl
  | read scalar field address component next ih =>
    simp only [Action.readings, h.read hplan, Memory.read_unstaged]
    cases plain.read kernel field address component with
    | error failure => rfl
    | ok value => simp only [ih value h]
  | write scalar field address component value next ih =>
    have hstep := h.write hplan field address component value
    simp only [Action.readings, Memory.write_unstaged]
    generalize memory.write kernel field address component value = x at hstep
    generalize plain.write kernel field address component value = y at hstep
    cases hstep with
    | ok h => exact ih h
    | error failure => rfl
  | accumulate scalar field address component value next ih =>
    have hstep := h.accumulate hplan field address component value
    simp only [Action.readings, Memory.accumulate_unstaged]
    generalize memory.accumulate kernel field address component value = x at hstep
    generalize plain.accumulate kernel field address component value = y at hstep
    cases hstep with
    | ok h => exact ih h
    | error failure => rfl

theorem visit (h : Mirrors kernel memory plain) (hplan : kernel.Planned)
    (body : Element → Action α) (slots : List Nat) :
    Outcome.Related (fun a b => a.1 = b.1 ∧ Mirrors kernel a.2 b.2)
      (kernel.visit body slots memory) (kernel.unstaged.visit body slots plain) := by
  induction slots generalizing memory plain with
  | nil => exact .ok ⟨rfl, h⟩
  | cons slot rest ih =>
    apply (h.run hplan (body (kernel.element slot.toUInt32))).bind
    rintro ⟨result, memory⟩ ⟨_, plain⟩ ⟨rfl, h⟩
    apply (ih h).bind
    rintro ⟨results, memory⟩ ⟨_, plain⟩ ⟨rfl, h⟩
    exact .ok ⟨rfl, h⟩

theorem readingsAt (h : Mirrors kernel memory plain) (hplan : kernel.Planned)
    (body : Element → Action α) (slots : List Nat) :
    kernel.readingsAt body slots memory = kernel.unstaged.readingsAt body slots plain := by
  induction slots generalizing memory plain with
  | nil => rfl
  | cons slot rest ih =>
    have hstep := h.run hplan (body (kernel.element slot.toUInt32))
    have hhere := h.readings hplan (body (kernel.element slot.toUInt32))
    rw [Kernel.readingsAt, Kernel.readingsAt, Kernel.unstaged_element, hhere]
    generalize (body (kernel.element slot.toUInt32)).run kernel memory = x at hstep
    generalize (body (kernel.element slot.toUInt32)).run kernel.unstaged plain = y at hstep
    cases hstep with
    | ok h => simp only [ih h.2]
    | error failure => rfl

end Mirrors

/-- Storing the copies back makes every field what it is in the other run, if the fields that
the remaining entries store are all that is still different. -/
theorem Kernel.storeBack_eq (staged : Array (Option Column)) (goal : Location → Option Column)
    (entries : List StagedUse) (workspace : Workspace)
    (hcopies : ∀ entry ∈ entries, entry.access = .accumulate → ∃ binding,
      kernel.bindings[entry.binding]? = some binding ∧
        (staged[entry.binding]?).join = goal binding.location)
    (hshapes : ∀ location, workspace.shape? location = (goal location).map Column.shape)
    (hroom : ∀ location column, goal location = some column → column.size < indexLimit)
    (hsame : ∀ location, (∀ entry ∈ entries, entry.access = .accumulate → ∀ binding,
      kernel.bindings[entry.binding]? = some binding → binding.location ≠ location) →
      workspace.column? location = goal location) :
    ∃ stored, kernel.storeBack staged entries workspace = .ok stored ∧
      ∀ location, stored.column? location = goal location := by
  induction entries generalizing workspace with
  | nil => exact ⟨workspace, rfl, fun location => hsame location (by simp)⟩
  | cons entry rest ih =>
    have hrest := fun other (hother : other ∈ rest) => hcopies other (by simp [hother])
    by_cases haccess : entry.access = .accumulate
    · obtain ⟨binding, hbinding, hcopy⟩ := hcopies entry (by simp) haccess
      have hpending : ∀ location, location ≠ binding.location →
          (∀ other ∈ rest, other.access = .accumulate → ∀ binding,
            kernel.bindings[other.binding]? = some binding → binding.location ≠ location) →
          workspace.column? location = goal location := by
        intro location hne h
        apply hsame location
        intro other hother hadds owner howner
        rcases List.mem_cons.mp hother with rfl | hlater
        · obtain rfl := Option.some.inj (hbinding.symm.trans howner)
          exact hne.symm
        · exact h other hlater hadds owner howner
      cases hgoal : goal binding.location with
      | none =>
        rw [hgoal] at hcopy
        have hskip : kernel.storeBack staged (entry :: rest) workspace =
            kernel.storeBack staged rest workspace := by
          rw [storeBack]
          split
          · next hsome =>
            rw [hsome] at hcopy
            cases hcopy
          · rfl
        rw [hskip]
        apply ih workspace hrest hshapes
        intro location h
        by_cases hne : location = binding.location
        · subst hne
          have := hshapes binding.location
          rw [hgoal, Option.map_none] at this
          rw [hgoal]
          exact Option.map_eq_none_iff.mp this
        · exact hpending location hne h
      | some copy =>
        rw [hgoal, Option.join_eq_some_iff] at hcopy
        have hshape := hshapes binding.location
        rw [hgoal, Option.map_some] at hshape
        obtain ⟨old, hold, heq⟩ := Option.map_eq_some_iff.mp hshape
        have hroom' : old.size < indexLimit := by
          rw [show old.size = copy.size from congrArg Prod.snd heq]
          exact hroom _ _ hgoal
        have hstep : kernel.storeBack staged (entry :: rest) workspace =
            kernel.storeBack staged rest (workspace.withColumn binding.location copy) := by
          rw [storeBack]
          simp only [haccess, hbinding, hcopy, hold, Outcome.ofLookup_some, ok_bind,
            Column.storeFrom_eq heq.symm hroom', Outcome.liftM_eq, Outcome.ofChecked_ok]
        rw [hstep]
        apply ih _ hrest
        · intro location
          rw [Workspace.shape?_withColumn hold heq.symm]
          exact hshapes location
        · intro location h
          rw [Workspace.column?_withColumn hold heq.symm]
          by_cases hne : location = binding.location
          · rw [if_pos hne, hne, hgoal]
          · rw [if_neg hne]
            exact hpending location hne h
    · have hskip : kernel.storeBack staged (entry :: rest) workspace =
          kernel.storeBack staged rest workspace := by
        rw [storeBack]
        split
        · next h _ _ => exact absurd h haccess
        · rfl
      rw [hskip]
      apply ih workspace hrest hshapes
      intro location h
      apply hsame location
      intro other hother hadds
      rcases List.mem_cons.mp hother with rfl | hlater
      · exact absurd hadds haccess
      · exact h other hlater hadds

theorem Mirrors.storeBack (h : Mirrors kernel memory plain) (hplan : kernel.Planned)
    (hroom : ∀ location column, plain.workspace.column? location = some column →
      column.size < indexLimit) :
    ∃ stored, kernel.storeBack memory.staged kernel.plan.entries memory.workspace = .ok stored ∧
      ∀ location, stored.column? location = plain.workspace.column? location := by
  have hstages : ∀ entry ∈ kernel.plan.entries, kernel.stages entry.binding = true := by
    intro entry hentry
    exact List.find?_isSome.mpr ⟨entry, hentry, by simp⟩
  apply Kernel.storeBack_eq _ (fun location => plain.workspace.column? location)
  · intro entry hentry _
    obtain ⟨binding, hbinding⟩ := hplan.exists_binding hentry
    have hcopy := h.copies hbinding
    rw [hstages entry hentry, if_pos rfl] at hcopy
    exact ⟨binding, hbinding, hcopy⟩
  · exact h.shapes
  · exact hroom
  · intro location hpending
    apply h.fields
    rintro ⟨i, binding, hbinding, hstaged, haccess, rfl⟩
    obtain ⟨entry, hentry⟩ := Option.isSome_iff_exists.mp hstaged
    obtain ⟨hmem, rfl⟩ := Plan.entry?_mem hentry
    exact hpending entry hmem (hplan.access hmem hbinding ▸ haccess) binding hbinding rfl

def Workspace.Alike (a b : Workspace) : Prop :=
  ∀ location, a.column? location = b.column? location

def Kernel.runDirect (kernel : Kernel) (body : Element → Action α) (slots : List Nat)
    (workspace : Workspace) : Outcome (List α × Workspace) := do
  let (results, memory) ←
    kernel.unstaged.visit body slots ⟨workspace, kernel.unstaged.copies workspace, none⟩
  return (results, memory.workspace)

theorem Kernel.unstaged_run (kernel : Kernel) (body : Element → Action α) (workspace : Workspace) :
    kernel.unstaged.run body workspace =
      kernel.runDirect body (List.range (kernel.permutation.size % UInt32.size)) workspace := rfl

theorem Kernel.run_whole (hplan : kernel.Planned) (hranges : kernel.ranges = none)
    {workspace : Workspace} (hmemory : workspace.InMemory) (body : Element → Action α)
    (schedule : Schedule) :
    Outcome.Related (fun a b => a.1 = b.1 ∧ a.2.Alike b.2)
      (kernel.run body workspace schedule)
      (kernel.runDirect body (kernel.order schedule) workspace) := by
  have hvisit := (Mirrors.start workspace).visit hplan body (kernel.order schedule)
  have horder : kernel.order schedule =
      schedule.slots (List.range (kernel.permutation.size % UInt32.size)) := by
    rw [Kernel.order, hranges]
  simp only [Kernel.run, hranges, Kernel.runDirect, ← horder]
  generalize hx : kernel.visit body _ _ = x at hvisit ⊢
  generalize hy : kernel.unstaged.visit body _ _ = y at hvisit ⊢
  cases hvisit with
  | error failure => exact .error failure
  | ok h =>
    next whole direct =>
    have hkeeps := Kernel.visit_keeps body _ (fun _ => rfl) hy
    obtain ⟨stored, hstored, hsame⟩ := h.2.storeBack hplan fun location column hcolumn => by
      have hshape := hkeeps location
      rw [Workspace.shape?, hcolumn] at hshape
      obtain ⟨old, hold, heq⟩ := Option.map_eq_some_iff.mp hshape.symm
      rw [← show old.size = column.size from congrArg Prod.snd heq]
      exact hmemory location old hold
    simp only [ok_bind, hstored]
    exact .ok ⟨h.1, hsame⟩

/-- Staging taken as a whole cannot be seen: a body reads the same values in the same order, the
run ends in the same failure if it fails, and leaves the same values in every field if not. -/
theorem whole_staging_transparent (draft : KernelDraft) (config : Config) (kernel : Kernel)
    (hcompile : draft.compile config = .ok kernel) (hwhole : kernel.plan.mode = .whole)
    (workspace : Workspace) (hmemory : workspace.InMemory) (body : Element → Action α) :
    ∃ direct, draft.compile { config with localCache := false } = .ok direct ∧
      kernel.readings body workspace = direct.readings body workspace ∧
      Outcome.Related (fun a b => a.1 = b.1 ∧ a.2.Alike b.2)
        (kernel.run body workspace) (direct.run body workspace) := by
  obtain ⟨hplan, hdirect, -, -, -, -, -, partition, -, hranges⟩ :=
    KernelDraft.compile_eq_ok hcompile
  rw [hwhole, if_neg (by simp)] at hranges
  have hrun := Kernel.run_whole hplan hranges hmemory body .ascending
  rw [Kernel.order, hranges] at hrun
  exact ⟨kernel.unstaged, hdirect, (Mirrors.start workspace).readingsAt hplan body _, hrun⟩

section Tally

def tallyDraft : KernelDraft where
  name := "tally"
  home := 0
  mesh := {
    metadata := ⟨⟨some 2, none, none, none⟩, .const none, ⟨some #[0, 0], none, none, none⟩⟩
    topology := .tri
    config := {}
    sets := ⟨some ⟨.vertex, .inPlace 2, []⟩, none, none, none⟩
    tables := .const none
    patchIndex := PatchIndex.empty.insert (.scattered .vertex #[0, 0]) }
  kind := .vertex
  bindings := #[⟨⟨.ofLoose 0, "sum", .accumulate⟩, ⟨.u32, 1⟩, .loose⟩]
  requested := [0]

def tallyWorkspace : Workspace where
  meshes := #[tallyDraft.mesh]
  loose := #[⟨.vertex, .zeroed ⟨"sum", ⟨.u32, 1⟩⟩ 1⟩]

def tallyBody (_ : Element) : Action UInt32 :=
  .accumulate .u32 ⟨0⟩ (.identity 0) 0 (1 : UInt32)
    (.read .u32 ⟨0⟩ (.identity 0) 0 fun (sum : UInt32) => .done sum)

theorem tallyWorkspace_inMemory : tallyWorkspace.InMemory := by
  apply Workspace.inMemory_of
  · intro mesh hmesh kind set hset field hfield
    obtain rfl : mesh = tallyDraft.mesh := by simpa [tallyWorkspace] using hmesh
    cases kind <;> cases hset
    cases hfield
  · intro loose hloose
    obtain rfl : loose = ⟨.vertex, .zeroed ⟨"sum", ⟨.u32, 1⟩⟩ 1⟩ := by
      simpa [tallyWorkspace] using hloose
    decide

theorem whole_staging_transparent_tally :
    ∃ kernel, tallyDraft.compile {} = .ok kernel ∧ kernel.plan.mode = .whole ∧
      kernel.plan.isEmpty = false ∧ tallyWorkspace.InMemory ∧
      ∃ direct, tallyDraft.compile { localCache := false } = .ok direct ∧
        kernel.readings tallyBody tallyWorkspace = direct.readings tallyBody tallyWorkspace ∧
        Outcome.Related (fun a b => a.1 = b.1 ∧ a.2.Alike b.2)
          (kernel.run tallyBody tallyWorkspace) (direct.run tallyBody tallyWorkspace) :=
  ⟨_, rfl, rfl, rfl, tallyWorkspace_inMemory,
    whole_staging_transparent tallyDraft {} _ rfl rfl tallyWorkspace tallyWorkspace_inMemory
      tallyBody⟩

end Tally

end MeshLayout
