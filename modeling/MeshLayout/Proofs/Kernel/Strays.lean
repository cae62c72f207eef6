import MeshLayout.Proofs.Kernel.Logged
import MeshLayout.Proofs.Kernel.Reconciling

/-!
# Additions of another type

The handles that a kernel gives out are of the types of its fields, but a body may add through a
handle of another kernel. An addition of another type fails if it goes to the field, and is passed
over if it goes to a ledger. This is all that staging patch by patch can hide: a body is compared
with the same body confined to the types of the fields, which fails where it would add another one.
-/

set_option autoImplicit false

namespace MeshLayout

variable {α : Type} {kernel other : Kernel} {initial : Workspace} {memory after : Memory}

namespace Kernel

/-- The request adds a value of another type than that of the field, through a binding that defers
additions. -/
def Strays (kernel : Kernel) (request : Request) : Prop :=
  request.access = .accumulate ∧ kernel.stages request.binding = true ∧
    ∃ binding ∈ kernel.bindings[request.binding]?, binding.access = .accumulate ∧
      binding.type.scalar ≠ request.scalar

instance (kernel : Kernel) (request : Request) : Decidable (kernel.Strays request) :=
  inferInstanceAs (Decidable (_ ∧ _ ∧ _))

theorem Strays.wholeSums {request : Request}
    (hinteger : ∀ i binding, kernel.bindings[i]? = some binding → kernel.stages i = true →
      binding.access = .accumulate → binding.type.scalar.isInteger = true)
    (h : ¬kernel.Strays request) : kernel.WholeSums request := by
  intro haccess hstaged binding hbinding hadds
  have htype : binding.type.scalar = request.scalar := by
    by_contra hother
    exact h ⟨haccess, hstaged, binding, hbinding, hadds, hother⟩
  exact ⟨htype, htype ▸ hinteger _ binding hbinding hstaged hadds⟩

end Kernel

/-- An addition of another type goes to no field. -/
theorem Memory.accumulate_strays {scalar : Scalar} {field : FieldHandle scalar} {address : Address}
    {component : Nat} {value : scalar.Carrier} (hfits : kernel.Fits initial)
    (hkeeps : memory.Keeps initial.shape?) (hunstaged : memory.staged? field.binding = none)
    (hstrays : kernel.Strays ⟨.accumulate, scalar, field.binding, address, component⟩) :
    memory.accumulate kernel field address component value ≠ .ok after := by
  intro hadd
  obtain ⟨-, -, binding, hbinding, -, hother⟩ := hstrays
  obtain ⟨same, index, hsame, -, -, hupdate⟩ := accumulate_direct hunstaged hadd
  cases hbinding.symm.trans hsame
  obtain ⟨old, column, hold, hcolumn, -⟩ := updateField_eq_ok.mp hupdate
  obtain ⟨cells, _, rfl, -, -⟩ := Column.updateCell_eq_ok.mp hcolumn
  obtain ⟨there, hthere, hscalar⟩ := (hfits hbinding).column
  have hshape := hkeeps binding.location
  rw [Workspace.shape?, Workspace.shape?, hold, hthere] at hshape
  exact hother (hscalar.symm.trans (congrArg Prod.fst (Option.some.inj hshape)).symm)

namespace Action

/-- The action with a failure in place of the first addition that strays. -/
def confined (kernel : Kernel) : Action α → Action α
  | done result => done result
  | fail fault => fail fault
  | read scalar field address component next =>
    read scalar field address component fun value => (next value).confined kernel
  | write scalar field address component value next =>
    write scalar field address component value (next.confined kernel)
  | accumulate scalar field address component value next =>
    if kernel.Strays ⟨.accumulate, scalar, field.binding, address, component⟩ then fail .mistyped
    else accumulate scalar field address component value (next.confined kernel)

theorem confined_each (kernel : Kernel) (action : Action α) :
    (action.confined kernel).Each fun request => ¬kernel.Strays request := by
  induction action with
  | done result => trivial
  | fail fault => trivial
  | read scalar field address component next ih => exact ⟨fun h => (nomatch h.1), ih⟩
  | write scalar field address component value next ih => exact ⟨fun h => (nomatch h.1), ih⟩
  | accumulate scalar field address component value next ih =>
    rw [confined]
    split
    · trivial
    · next hstays => exact ⟨hstays, ih⟩

theorem confined_readings (action : Action α) (memory : Memory) {reading : Reading}
    (h : reading ∈ (action.confined kernel).readings other memory) :
    reading ∈ action.readings other memory := by
  induction action generalizing memory with
  | done result => exact h
  | fail fault => exact h
  | read scalar field address component next ih =>
    rw [confined, readings] at h
    rw [readings]
    cases hread : memory.read other field address component with
    | error failure =>
      rw [hread] at h
      exact h
    | ok value =>
      rw [hread] at h
      rcases List.mem_cons.mp h with rfl | hlater
      · exact List.mem_cons_self
      · exact List.mem_cons_of_mem _ (ih value memory hlater)
  | write scalar field address component value next ih =>
    rw [confined, readings] at h
    rw [readings]
    cases hwrite : memory.write other field address component value with
    | error failure =>
      rw [hwrite] at h
      exact h
    | ok written =>
      rw [hwrite] at h
      exact ih written h
  | accumulate scalar field address component value next ih =>
    rw [confined] at h
    split at h
    · cases h
    · rw [readings] at h ⊢
      cases hadd : memory.accumulate other field address component value with
      | error failure =>
        rw [hadd] at h
        exact h
      | ok added =>
        rw [hadd] at h
        exact ih added h

/-- The confined action ends well exactly if the action does and nothing in its log strays. -/
theorem run_confined (action : Action α) {log : List Request}
    (hlog : ∀ request ∈ log, ¬kernel.Strays request) {result : α} :
    (action.confined kernel).run other memory = .ok (result, after) ↔
      ∃ final, (action.logged log).run other memory = .ok ((final, result), after) ∧
        ∀ request ∈ final, ¬kernel.Strays request := by
  have hbind {γ : Type} {x : Outcome γ} {f : γ → Outcome (α × Memory)}
      {g : γ → Outcome ((List Request × α) × Memory)}
      (h : ∀ c, f c = .ok (result, after) ↔ ∃ final, g c = .ok ((final, result), after) ∧
        ∀ request ∈ final, ¬kernel.Strays request) :
      x >>= f = .ok (result, after) ↔ ∃ final, x >>= g = .ok ((final, result), after) ∧
        ∀ request ∈ final, ¬kernel.Strays request := by
    simp only [bind_eq_ok, h]
    constructor
    · rintro ⟨c, hc, final, hfinal, hstays⟩
      exact ⟨final, ⟨c, hc, hfinal⟩, hstays⟩
    · rintro ⟨final, ⟨c, hc, hfinal⟩, hstays⟩
      exact ⟨c, hc, final, hfinal, hstays⟩
  have hnext {log : List Request} {request : Request}
      (hlog : ∀ request ∈ log, ¬kernel.Strays request) (h : ¬kernel.Strays request) :
      ∀ other ∈ log ++ [request], ¬kernel.Strays other :=
    List.forall_mem_append.mpr ⟨hlog, List.forall_mem_singleton.mpr h⟩
  induction action generalizing log memory with
  | done value =>
    constructor
    · intro h
      cases h
      exact ⟨log, rfl, hlog⟩
    · rintro ⟨final, h, -⟩
      cases h
      rfl
  | fail fault =>
    constructor
    · intro h
      cases h
    · rintro ⟨final, h, -⟩
      cases h
  | read scalar field address component next ih =>
    exact hbind fun value => ih value (hnext hlog fun h => nomatch h.1)
  | write scalar field address component value next ih =>
    exact hbind fun written => ih (hnext hlog fun h => nomatch h.1)
  | accumulate scalar field address component value next ih =>
    rw [confined]
    split
    · next hstrays =>
      constructor
      · intro h
        cases h
      · rintro ⟨final, h, hstays⟩
        obtain ⟨added, -, h⟩ := bind_eq_ok.mp h
        have hmem := next.logged_subset h (List.mem_append_right log List.mem_cons_self)
        exact absurd hstrays (hstays _ hmem)
    · next hstays => exact hbind fun added => ih (hnext hlog hstays)

end Action

/-- The memory of a run that adds at once. -/
structure AtFields (initial : Workspace) (memory : Memory) : Prop where
  unstaged : ∀ i, memory.staged? i = none
  shapes : memory.Keeps initial.shape?

namespace AtFields

theorem updateField (h : AtFields initial memory) {location : Location} {scalar : Scalar}
    {index : Nat} {update : scalar.Carrier → scalar.Carrier}
    (hupdate : memory.updateField location scalar index update = .ok after) :
    AtFields initial after := by
  have hshapes := h.shapes.updateField hupdate
  obtain ⟨old, column, -, -, rfl⟩ := Memory.updateField_eq_ok.mp hupdate
  exact ⟨h.unstaged, hshapes⟩

theorem run (h : AtFields initial memory) (hfits : kernel.Fits initial) (action : Action α) :
    Outcome.Agrees (fun a b => a = b ∧ AtFields initial b.2)
      ((action.confined kernel).run kernel.unstaged memory)
      (action.run kernel.unstaged memory) := by
  induction action generalizing memory with
  | done result => exact .ok ⟨rfl, h⟩
  | fail fault => exact .broken fault fault
  | read scalar field address component next ih =>
    exact .same (memory.read_unrefused _ field address component) fun value _ => ih value h
  | write scalar field address component value next ih =>
    apply Outcome.Agrees.same (memory.write_unrefused _ field address component value)
    intro written hwrite
    obtain ⟨binding, index, -, -, -, hupdate⟩ := Memory.write_eq_ok.mp hwrite
    exact ih (h.updateField hupdate)
  | accumulate scalar field address component value next ih =>
    have hunrefused := memory.accumulate_unrefused kernel field address component value
    rw [Action.confined]
    split
    · next hstrays =>
      have hfails : ∀ added, memory.accumulate kernel field address component value ≠ .ok added :=
        fun added => Memory.accumulate_strays hfits h.shapes (h.unstaged _) hstrays
      rw [Action.run, Action.run, Memory.accumulate_unstaged]
      generalize memory.accumulate kernel field address component value = x at hunrefused hfails ⊢
      cases hunrefused with
      | ok _ => exact absurd rfl (hfails _)
      | broken fault => exact .broken _ fault
    · apply Outcome.Agrees.same hunrefused
      intro added hadd
      obtain ⟨binding, index, -, -, -, hupdate⟩ := Memory.accumulate_direct (h.unstaged _) hadd
      exact ih (h.updateField hupdate)

end AtFields

namespace Kernel

def confined (kernel : Kernel) (body : Element → Action α) (element : Element) : Action α :=
  (body element).confined kernel

end Kernel

namespace AtFields

theorem visit (h : AtFields initial memory) (hfits : kernel.Fits initial)
    (body : Element → Action α) (slots : List Nat) :
    Outcome.Agrees (fun a b => a = b ∧ AtFields initial b.2)
      (kernel.unstaged.visit (kernel.confined body) slots memory)
      (kernel.unstaged.visit body slots memory) := by
  induction slots generalizing memory with
  | nil => exact .ok ⟨rfl, h⟩
  | cons slot rest ih =>
    apply (h.run hfits (body (kernel.element slot.toUInt32))).bind
    rintro ⟨result, between⟩ _ ⟨rfl, h⟩
    apply (ih h).bind
    rintro ⟨later, after⟩ _ ⟨rfl, h⟩
    exact .ok ⟨rfl, h⟩

theorem readingsAt (h : AtFields initial memory) (hfits : kernel.Fits initial)
    (body : Element → Action α) (slots : List Nat) {reading : Reading}
    (hreading : reading ∈ kernel.unstaged.readingsAt (kernel.confined body) slots memory) :
    reading ∈ kernel.unstaged.readingsAt body slots memory := by
  induction slots generalizing memory with
  | nil => exact hreading
  | cons slot rest ih =>
    rw [Kernel.readingsAt] at hreading ⊢
    rcases List.mem_append.mp hreading with hhere | hlater
    · exact List.mem_append_left _ (Action.confined_readings _ memory hhere)
    · apply List.mem_append_right
      have hstep := h.run hfits (body (kernel.element slot.toUInt32))
      simp only [Kernel.confined, Kernel.unstaged_element] at hlater ⊢
      generalize ((body _).confined kernel).run kernel.unstaged memory = x at hstep hlater
      generalize (body _).run kernel.unstaged memory = y at hstep ⊢
      cases hstep with
      | ok hsame =>
        obtain ⟨rfl, h⟩ := hsame
        exact ih h hlater
      | broken first second => cases hlater

end AtFields

namespace Kernel

/-- The run in which nothing may stray ends well exactly if the run with logs does and nothing in
these strays. -/
theorem visit_confined (body : Element → Action α) (slots : List Nat) {results : List α} :
    kernel.visit (kernel.confined body) slots memory = .ok (results, after) ↔
      ∃ logs, kernel.visit (logging body) slots memory = .ok (logs, after) ∧
        logs.map Prod.snd = results ∧
        ∀ request ∈ logs.flatMap Prod.fst, ¬kernel.Strays request := by
  induction slots generalizing memory results with
  | nil =>
    constructor
    · intro h
      cases h
      exact ⟨[], rfl, rfl, by simp⟩
    · rintro ⟨logs, h, rfl, -⟩
      cases h
      rfl
  | cons slot rest ih =>
    have hnone : ∀ request ∈ ([] : List Request), ¬kernel.Strays request := by simp
    constructor
    · intro h
      obtain ⟨result, between, later, hhere, hlater, rfl⟩ := visit_cons.mp h
      obtain ⟨log, hlogged, hstays⟩ := (Action.run_confined _ hnone).mp hhere
      obtain ⟨logs, hlogs, rfl, hrest⟩ := ih.mp hlater
      refine ⟨(log, result) :: logs,
        visit_cons.mpr ⟨_, between, logs, hlogged, hlogs, rfl⟩, rfl, ?_⟩
      exact List.forall_mem_append.mpr ⟨hstays, hrest⟩
    · rintro ⟨logs, h, rfl, hstays⟩
      obtain ⟨⟨log, result⟩, between, later, hlogged, hlogs, rfl⟩ := visit_cons.mp h
      obtain ⟨hstays, hrest⟩ := List.forall_mem_append.mp hstays
      exact visit_cons.mpr ⟨result, between, later.map Prod.snd,
        (Action.run_confined _ hnone).mpr ⟨log, hlogged, hstays⟩,
        ih.mpr ⟨later, hlogs, rfl, hrest⟩, rfl⟩

theorem visitPatches_confined (body : Element → Action α) (staged : Array (Option Column))
    (ranges : List PatchRange) {workspace ended : Workspace} {results : List α} :
    kernel.visitPatches (kernel.confined body) staged ranges workspace = .ok (results, ended) ↔
      ∃ logs, kernel.visitPatches (logging body) staged ranges workspace = .ok (logs, ended) ∧
        logs.map Prod.snd = results ∧
        ∀ request ∈ logs.flatMap Prod.fst, ¬kernel.Strays request := by
  induction ranges generalizing workspace results with
  | nil =>
    constructor
    · intro h
      cases h
      exact ⟨[], rfl, rfl, by simp⟩
    · rintro ⟨logs, h, rfl, -⟩
      cases h
      rfl
  | cons range rest ih =>
    constructor
    · intro h
      obtain ⟨here, memory, settled, later, hhere, hsettled, hlater, rfl⟩ :=
        visitPatches_cons.mp h
      obtain ⟨first, hfirst, rfl, hstays⟩ := (visit_confined body _).mp hhere
      obtain ⟨logs, hlogs, rfl, hrest⟩ := ih.mp hlater
      refine ⟨first ++ logs, visitPatches_cons.mpr
        ⟨first, memory, settled, logs, hfirst, hsettled, hlogs, rfl⟩, List.map_append, ?_⟩
      rw [List.flatMap_append]
      exact List.forall_mem_append.mpr ⟨hstays, hrest⟩
    · rintro ⟨logs, h, rfl, hstays⟩
      obtain ⟨here, memory, settled, later, hhere, hsettled, hlater, rfl⟩ :=
        visitPatches_cons.mp h
      rw [List.flatMap_append] at hstays
      obtain ⟨hstays, hrest⟩ := List.forall_mem_append.mp hstays
      exact visitPatches_cons.mpr ⟨here.map Prod.snd, memory, settled, later.map Prod.snd,
        (visit_confined body _).mpr ⟨here, hhere, rfl, hstays⟩, hsettled,
        ih.mpr ⟨later, hlater, rfl, hrest⟩, List.map_append⟩

theorem run_confined {ranges : List PatchRange} (hranges : kernel.ranges = some ranges)
    (body : Element → Action α) (workspace ended : Workspace) (results : List α) :
    kernel.run (kernel.confined body) workspace = .ok (results, ended) ↔
      kernel.run body workspace = .ok (results, ended) ∧
        ∀ request ∈ kernel.requests body workspace, ¬kernel.Strays request := by
  have hnotes := (kernel.logging_notes body).run workspace .ascending
  have hconfined : kernel.run (kernel.confined body) workspace = .ok (results, ended) ↔
      ∃ logs, kernel.run (logging body) workspace = .ok (logs, ended) ∧
        logs.map Prod.snd = results ∧
        ∀ request ∈ logs.flatMap Prod.fst, ¬kernel.Strays request := by
    simp only [run, hranges]
    exact visitPatches_confined body _ _
  rw [hconfined, requests]
  generalize kernel.run (logging body) workspace = x at hnotes ⊢
  generalize kernel.run body workspace = y at hnotes ⊢
  cases hnotes with
  | @ok noted plain hsame =>
    obtain ⟨logs, last⟩ := noted
    obtain ⟨_, _⟩ := plain
    obtain ⟨rfl, rfl⟩ := hsame
    constructor
    · rintro ⟨same, h, rfl, hstays⟩
      cases h
      exact ⟨rfl, hstays⟩
    · rintro ⟨h, hstays⟩
      cases h
      exact ⟨logs, rfl, rfl, hstays⟩
  | error failure =>
    constructor
    · rintro ⟨logs, h, -⟩
      cases h
    · rintro ⟨h, -⟩
      cases h

end Kernel

/-- Beside the run without staging that takes the slots in the same order, a run that takes the
patches one by one is the same if nothing strays, and else the only one of the two that ends
well. -/
theorem Kernel.run_strays (hplan : kernel.Planned) (hfits : kernel.Fits initial)
    (hmemory : initial.InMemory) {ranges : List PatchRange} (hranges : kernel.ranges = some ranges)
    (hinteger : ∀ i binding, kernel.bindings[i]? = some binding → kernel.stages i = true →
      binding.access = .accumulate → binding.type.scalar.isInteger = true)
    (body : Element → Action α)
    (hreads : ∀ reading ∈ kernel.unstaged.readingsAt body (kernel.order .ascending)
      ⟨initial, kernel.unstaged.copies initial, none⟩, ¬kernel.Defers reading.binding) :
    (∀ request ∈ kernel.requests body initial, ¬kernel.Strays request) ∧
        Outcome.Agrees (fun a b => a.1 = b.1 ∧ a.2.Alike b.2) (kernel.run body initial)
          (kernel.runDirect body (kernel.order .ascending) initial) ∨
      (∃ request ∈ kernel.requests body initial, kernel.Strays request) ∧
        (∃ results after, kernel.run body initial = .ok (results, after)) ∧
        ∃ fault, kernel.runDirect body (kernel.order .ascending) initial = Outcome.fault fault := by
  have hstart : AtFields initial ⟨initial, kernel.unstaged.copies initial, none⟩ :=
    ⟨(Mirrors.start initial).plain_staged, fun _ => rfl⟩
  have hpatches := Kernel.run_patches hplan hfits hranges (kernel.confined body) .ascending
    (fun slot _ => (Action.confined_each kernel _).mono fun _ => Kernel.Strays.wholeSums hinteger)
    fun reading hreading => hreads reading (hstart.readingsAt hfits body _ hreading)
  have hfields : Outcome.Agrees Eq
      (kernel.runDirect (kernel.confined body) (kernel.order .ascending) initial)
      (kernel.runDirect body (kernel.order .ascending) initial) := by
    apply (hstart.visit hfits body (kernel.order .ascending)).bind
    rintro ended _ ⟨rfl, -⟩
    exact .ok rfl
  have hconfined := Kernel.run_confined hranges body initial
  have hunrefused := kernel.run_unrefused hplan hfits hmemory body .ascending
  have hended : ∀ request ∈ kernel.requests body initial,
      ∃ results after, kernel.run body initial = .ok (results, after) :=
    fun request hmem => Kernel.exists_run hmem
  generalize kernel.run (kernel.confined body) initial = confined at hpatches hconfined
  generalize kernel.runDirect (kernel.confined body) _ initial = direct at hpatches hfields
  generalize kernel.runDirect body _ initial = plain at hfields ⊢
  generalize kernel.run body initial = staged at hconfined hunrefused hended ⊢
  -- the confined body ends well in both runs or in neither, and then the body has strayed or failed
  cases hpatches with
  | @ok here _ halike =>
    obtain ⟨rfl, hstays⟩ := (hconfined here.2 here.1).mp rfl
    cases hfields with
    | ok hsame => exact .inl ⟨hstays, .ok (hsame ▸ halike)⟩
  | broken first second =>
    cases hfields with
    | broken _ fault =>
      cases hunrefused with
      | @ok ended _ =>
        refine .inr ⟨?_, ⟨ended.1, ended.2, rfl⟩, fault, rfl⟩
        by_contra hnone
        have hends := (hconfined ended.2 ended.1).mpr
          ⟨rfl, fun request hmem hstrays => hnone ⟨request, hmem, hstrays⟩⟩
        cases hends
      | broken other =>
        refine .inl ⟨fun request hmem => ?_, .broken other fault⟩
        obtain ⟨results, after, hends⟩ := hended request hmem
        cases hends

/-- Staging taken patch by patch can be seen in one way only, if what is added through it goes to
integer fields and the body does not read what it added. If nothing that the run asks for strays, it
fails if the run without staging does, and else leaves the same values in every field. If something
strays, the run ends well where the run without staging fails. -/
theorem patch_staging_transparent {workspace : Workspace} {draft : KernelDraft}
    (hdeclared : draft.Declared workspace) (config : Config) (kernel : Kernel)
    (hcompile : draft.compile config = .ok kernel) (hmode : kernel.plan.mode = .perPatch)
    (hinteger : ∀ i binding, kernel.bindings[i]? = some binding → kernel.stages i = true →
      binding.access = .accumulate → binding.type.scalar.isInteger = true)
    (body : Element → Action α) :
    ∃ direct, draft.compile { config with localCache := false } = .ok direct ∧
      ((∀ reading ∈ direct.readings body workspace, ¬kernel.Defers reading.binding) →
        (∀ request ∈ kernel.requests body workspace, ¬kernel.Strays request) ∧
          Outcome.Agrees (fun a b => a.1 = b.1 ∧ a.2.Alike b.2)
            (kernel.run body workspace) (direct.run body workspace) ∨
        (∃ request ∈ kernel.requests body workspace, kernel.Strays request) ∧
          (∃ results after, kernel.run body workspace = .ok (results, after)) ∧
          ∃ fault, direct.run body workspace = Outcome.fault fault) := by
  obtain ⟨hplan, hdirect, hpermutation, -, -, -, hbindings, -⟩ :=
    KernelDraft.compile_eq_ok hcompile
  obtain ⟨partition, ranges, hpartition, hparts, hranges⟩ :=
    KernelDraft.compile_perPatch hcompile hmode
  have hbound := hdeclared.bound
  have hfits : kernel.Fits workspace := fun hbinding => hbound.bindings (hbindings ▸ hbinding)
  have hslots := (hbound.mesh_laid.partitions hpermutation hpartition).2 ranges hparts
  have hcount := (hbound.mesh_laid.permutations hpermutation).2
  have hsize := Nat.mod_eq_of_lt (hbound.mesh_laid.countable _ _ hcount)
  have horder : kernel.order .ascending =
      List.range (kernel.permutation.size % UInt32.size) := by
    rw [Kernel.order, hranges, hsize]
    exact hslots
  refine ⟨kernel.unstaged, hdirect, fun hreads => ?_⟩
  rw [Kernel.unstaged_run, ← horder]
  apply Kernel.run_strays hplan hfits hbound.laid.inMemory hranges hinteger body
  rw [horder]
  exact hreads

section Raise

theorem patch_staging_transparent_raise : ∃ kernel direct,
    raiseDraft.compile { patchContiguous := true } = .ok kernel ∧ kernel.plan.mode = .perPatch ∧
      raiseDraft.compile { patchContiguous := true, localCache := false } = .ok direct ∧
      direct.readings raiseBody pathWorkspace = [] ∧
      (∀ request ∈ kernel.requests raiseBody pathWorkspace, ¬kernel.Strays request) ∧
      Outcome.Agrees (fun a b => a.1 = b.1 ∧ a.2.Alike b.2)
        (kernel.run raiseBody pathWorkspace) (direct.run raiseBody pathWorkspace) := by
  have hinteger : ∀ (i : Nat) binding, raiseDraft.bindings[i]? = some binding →
      binding.type.scalar.isInteger = true := by
    intro i binding hbinding
    obtain rfl := Array.eq_of_mem_singleton (Array.mem_of_getElem? hbinding)
    rfl
  have hdirect : ∃ direct, raiseDraft.compile { patchContiguous := true, localCache := false } =
      .ok direct ∧ direct.readings raiseBody pathWorkspace = [] ∧
      (direct.run raiseBody pathWorkspace).isOk = true := ⟨_, rfl, rfl, by decide +kernel⟩
  obtain ⟨direct, hdirect, hreadings, hends⟩ := hdirect
  obtain ⟨_, hsame, hexact⟩ := patch_staging_transparent raiseDraft_declared
    { patchContiguous := true } _ rfl rfl (fun i binding h _ _ => hinteger i binding h) raiseBody
  cases hsame.symm.trans hdirect
  refine ⟨_, direct, rfl, rfl, hdirect, hreadings, ?_⟩
  rcases hexact (by rw [hreadings]; simp) with hagrees | ⟨-, -, fault, hfails⟩
  · exact hagrees
  · rw [hfails] at hends
    cases hends

def strayBody (_ : Element) : Action Unit :=
  .accumulate .i32 ⟨0⟩ (.identity 1) 0 (1 : Int32) (.done ())

/-- An addition of another type is lost in a ledger, where the run without staging fails. -/
theorem patch_staging_hides_stray : ∃ (kernel direct : Kernel) (results : List Unit)
    (after : Workspace), raiseDraft.Declared pathWorkspace ∧
      raiseDraft.compile { patchContiguous := true } = .ok kernel ∧ kernel.plan.mode = .perPatch ∧
      (∀ (i : Nat) (binding : Binding), kernel.bindings[i]? = some binding →
        binding.type.scalar.isInteger = true) ∧
      raiseDraft.compile { patchContiguous := true, localCache := false } = .ok direct ∧
      direct.readings strayBody pathWorkspace = [] ∧
      kernel.run strayBody pathWorkspace = .ok (results, after) ∧
      direct.run strayBody pathWorkspace = Outcome.fault .mistyped ∧
      ¬Outcome.Agrees (fun a b => a.1 = b.1 ∧ a.2.Alike b.2)
        (kernel.run strayBody pathWorkspace) (direct.run strayBody pathWorkspace) := by
  have hcompile : ∃ kernel, raiseDraft.compile { patchContiguous := true } = .ok kernel ∧
      kernel.plan.mode = .perPatch ∧ kernel.bindings = raiseDraft.bindings ∧
      (kernel.run strayBody pathWorkspace).isOk = true := ⟨_, rfl, rfl, rfl, by decide +kernel⟩
  obtain ⟨kernel, hkernel, hmode, hbindings, hends⟩ := hcompile
  have hdirect : ∃ direct, raiseDraft.compile { patchContiguous := true, localCache := false } =
      .ok direct ∧ direct.readings strayBody pathWorkspace = [] ∧
      direct.run strayBody pathWorkspace = Outcome.fault .mistyped := ⟨_, rfl, rfl, rfl⟩
  obtain ⟨direct, hdirect, hreadings, hfails⟩ := hdirect
  have hinteger : ∀ (i : Nat) (binding : Binding), kernel.bindings[i]? = some binding →
      binding.type.scalar.isInteger = true := by
    intro i binding hbinding
    rw [hbindings] at hbinding
    obtain rfl := Array.eq_of_mem_singleton (Array.mem_of_getElem? hbinding)
    rfl
  cases hrun : kernel.run strayBody pathWorkspace with
  | error failure =>
    rw [hrun] at hends
    cases hends
  | ok result =>
    refine ⟨kernel, direct, result.1, result.2, raiseDraft_declared, hkernel, hmode, hinteger,
      hdirect, hreadings, hrun, hfails, ?_⟩
    rw [hfails, hrun]
    intro hagrees
    cases hagrees

end Raise

end MeshLayout
