import MeshLayout.Kernel.Compile
import MeshLayout.Proofs.Outcome

/-!
# What a plan promises

A plan that is made stages no binding that overwrites, and no field that another binding changes
or that is added to and bound again. The plan of a kernel and the one of the same declarations
without staging differ in nothing else.
-/

set_option autoImplicit false

namespace MeshLayout

namespace Plan

theorem clashes_eq_false {use : Use} {binding : Nat} (uses : List Use) (position : Nat) :
    clashes use binding uses position = false ↔
      ∀ i other, uses[i]? = some other → position + i ≠ binding → clash other use = false := by
  induction uses generalizing position with
  | nil => simp [clashes]
  | cons first rest ih =>
    simp only [clashes, Bool.or_eq_false_iff, Bool.and_eq_false_imp, bne_iff_ne, ih]
    constructor
    · rintro ⟨hfirst, hrest⟩ (_ | i) other hi hne
      · cases hi
        exact hfirst (by simpa using hne)
      · exact hrest i other hi (by omega)
    · intro h
      exact ⟨fun hne => h 0 first rfl (by simpa using hne),
        fun i other hi hne => h (i + 1) other hi (by omega)⟩

/-- A staged binding is no overwrite, and shares its field only with other reads. -/
structure Admits (uses : List Use) (entry : StagedUse) : Prop where
  use : ∃ use, uses[entry.binding]? = some use ∧ use.access = entry.access
  access_ne : entry.access ≠ .write
  alone : ∀ {i use other}, uses[entry.binding]? = some use → uses[i]? = some other →
    i ≠ entry.binding → other.location = use.location →
    other.access = .read ∧ entry.access = .read

theorem admits_of_checks {uses : List Use} {binding : Nat} {use : Use}
    (huse : uses[binding]? = some use) (haccess : use.access ≠ .write)
    (hclash : clashes use binding uses 0 = false) : Admits uses ⟨binding, use.access⟩ where
  use := ⟨use, huse, rfl⟩
  access_ne := haccess
  alone := by
    intro i same other hsame hother hne hlocation
    obtain rfl := Option.some.inj (huse.symm.trans hsame)
    have hpair := (clashes_eq_false uses 0).mp hclash i other hother (by simpa using hne)
    have hwrites : (other.access.writes || use.access.writes) = false := by
      simpa [clash, hlocation] using hpair
    have hread : ∀ {access : Access}, access.writes = false → access = .read := by
      intro access
      cases access <;> simp [Access.writes]
    obtain ⟨hfirst, hsecond⟩ := Bool.or_eq_false_iff.mp hwrites
    exact ⟨hread hfirst, hread hsecond⟩

theorem collect_admits (region : String) (uses : List Use) (requested : List Nat)
    {entries collected : List StagedUse} (hentries : ∀ entry ∈ entries, Admits uses entry)
    (h : collect region uses requested entries = .ok collected) :
    ∀ entry ∈ collected, Admits uses entry := by
  induction requested generalizing entries with
  | nil =>
    cases h
    exact hentries
  | cons binding rest ih =>
    rw [collect] at h
    split at h
    · cases h
    · next use huse =>
      simp only [Checked.require_bind_eq_ok, Bool.not_eq_true', ne_eq] at h
      obtain ⟨haccess, hclash, h⟩ := h
      refine ih ?_ h
      split
      · exact hentries
      · intro entry hentry
        rcases List.mem_append.mp hentry with hold | hnew
        · exact hentries entry hold
        · rw [List.mem_singleton.mp hnew]
          exact admits_of_checks huse haccess hclash

theorem make_eq_ok {region : String} {uses : List Use} {requested : List Nat}
    {enabled perPatch : Bool} {plan : Plan}
    (h : make region uses requested enabled perPatch = .ok plan) :
    (∀ entry ∈ plan.entries, Admits uses entry) ∧
      make region uses requested false perPatch = .ok direct := by
  obtain ⟨entries, hcollect, hplan⟩ := bind_eq_ok.mp h
  have hadmits := collect_admits region uses requested (by simp) hcollect
  refine ⟨?_, by rw [make, hcollect]; simp [pure_eq_ok]⟩
  rw [pure_eq_ok, Except.ok.injEq] at hplan
  subst hplan
  split
  · simp [direct]
  · exact hadmits

theorem make_perPatch {region : String} {uses : List Use} {requested : List Nat}
    {enabled perPatch : Bool} {plan : Plan}
    (h : make region uses requested enabled perPatch = .ok plan) (hmode : plan.mode = .perPatch) :
    perPatch = true ∧ plan.isEmpty = false := by
  obtain ⟨entries, -, hplan⟩ := bind_eq_ok.mp h
  rw [pure_eq_ok, Except.ok.injEq] at hplan
  subst hplan
  cases hempty : entries.isEmpty with
  | true =>
    rw [hempty, Bool.true_or, if_pos rfl] at hmode
    cases hmode
  | false =>
    by_cases henabled : enabled = true
    · rw [if_neg (by simp [hempty, henabled])] at hmode ⊢
      cases perPatch with
      | true => exact ⟨rfl, hempty⟩
      | false => cases hmode
    · rw [if_pos (by simp [henabled])] at hmode
      cases hmode

theorem entry?_mem {plan : Plan} {binding : Nat} {entry : StagedUse}
    (h : plan.entry? binding = some entry) : entry ∈ plan.entries ∧ entry.binding = binding :=
  ⟨List.mem_of_find?_eq_some h, by simpa using List.find?_some h⟩

end Plan

namespace Kernel

def Planned (kernel : Kernel) : Prop :=
  ∀ entry ∈ kernel.plan.entries, Plan.Admits (kernel.bindings.toList.map Binding.toUse) entry

def stages (kernel : Kernel) (i : Nat) : Bool := (kernel.plan.entry? i).isSome

def StagesSums (kernel : Kernel) (location : Location) : Prop :=
  ∃ i binding, kernel.bindings[i]? = some binding ∧ kernel.stages i = true ∧
    binding.access = .accumulate ∧ binding.location = location

def unstaged (kernel : Kernel) : Kernel := { kernel with plan := .direct, ranges := none }

@[simp] theorem unstaged_element (kernel : Kernel) :
    kernel.unstaged.element = kernel.element := rfl

variable {kernel : Kernel} {i j : Nat} {binding other : Binding}

theorem uses_getElem? (h : kernel.bindings[i]? = some binding) :
    (kernel.bindings.toList.map Binding.toUse)[i]? = some binding.toUse := by
  rw [List.getElem?_map, Array.getElem?_toList, h, Option.map_some]

namespace Planned

theorem access (hplan : kernel.Planned) {entry : StagedUse} (hentry : entry ∈ kernel.plan.entries)
    (hbinding : kernel.bindings[entry.binding]? = some binding) :
    binding.access = entry.access := by
  obtain ⟨use, huse, haccess⟩ := (hplan entry hentry).use
  rw [uses_getElem? hbinding] at huse
  rw [← haccess, ← Option.some.inj huse]

theorem exists_binding (hplan : kernel.Planned) {entry : StagedUse}
    (hentry : entry ∈ kernel.plan.entries) :
    ∃ binding, kernel.bindings[entry.binding]? = some binding := by
  obtain ⟨use, huse, -⟩ := (hplan entry hentry).use
  rw [List.getElem?_map, Array.getElem?_toList] at huse
  obtain ⟨binding, hbinding, -⟩ := Option.map_eq_some_iff.mp huse
  exact ⟨binding, hbinding⟩

theorem access_ne (hplan : kernel.Planned) (hstaged : kernel.stages i = true)
    (hbinding : kernel.bindings[i]? = some binding) : binding.access ≠ .write := by
  obtain ⟨entry, hentry⟩ := Option.isSome_iff_exists.mp hstaged
  obtain ⟨hmem, rfl⟩ := Plan.entry?_mem hentry
  rw [hplan.access hmem hbinding]
  exact (hplan entry hmem).access_ne

theorem alone (hplan : kernel.Planned) (hstaged : kernel.stages i = true)
    (hi : kernel.bindings[i]? = some binding) (hj : kernel.bindings[j]? = some other)
    (hne : j ≠ i) (hlocation : other.location = binding.location) :
    other.access = .read ∧ binding.access = .read := by
  obtain ⟨entry, hentry⟩ := Option.isSome_iff_exists.mp hstaged
  obtain ⟨hmem, rfl⟩ := Plan.entry?_mem hentry
  rw [hplan.access hmem hi]
  exact (hplan entry hmem).alone (uses_getElem? hi) (uses_getElem? hj) hne hlocation

theorem not_stagesSums (hplan : kernel.Planned) (hi : kernel.bindings[i]? = some binding)
    (h : kernel.stages i = false ∨ binding.access = .read) :
    ¬kernel.StagesSums binding.location := by
  rintro ⟨j, adding, hj, hstaged, haccess, hlocation⟩
  have hne : i ≠ j := by
    rintro rfl
    rw [Option.some.inj (hi.symm.trans hj)] at h
    simp [hstaged, haccess] at h
  have := (hplan.alone hstaged hj hi hne hlocation.symm).2
  rw [haccess] at this
  cases this

theorem location_ne (hplan : kernel.Planned) (hi : kernel.bindings[i]? = some binding)
    (hchanges : binding.access ≠ .read) (hstaged : kernel.stages j = true)
    (hj : kernel.bindings[j]? = some other) (hne : i ≠ j) :
    other.location ≠ binding.location := by
  intro hlocation
  exact hchanges (hplan.alone hstaged hj hi hne hlocation.symm).1

theorem location_ne_of_unstaged (hplan : kernel.Planned) (hi : kernel.bindings[i]? = some binding)
    (hchanges : binding.access ≠ .read) (hunstaged : kernel.stages i = false)
    (hstaged : kernel.stages j = true) (hj : kernel.bindings[j]? = some other) :
    other.location ≠ binding.location := by
  apply hplan.location_ne hi hchanges hstaged hj
  rintro rfl
  rw [hunstaged] at hstaged
  cases hstaged

end Planned

end Kernel

namespace KernelDraft

/-- A compiled kernel takes over the declarations of its draft, and compiled without staging it
differs in its plan alone. -/
theorem compile_eq_ok {draft : KernelDraft} {config : Config} {kernel : Kernel}
    (h : draft.compile config = .ok kernel) :
    kernel.Planned ∧
    draft.compile { config with localCache := false } = .ok kernel.unstaged ∧
    draft.mesh.permutation draft.kind = .ok kernel.permutation ∧
    kernel.kind = draft.kind ∧ kernel.patchIndex = draft.mesh.patchIndex ∧
    kernel.incidences = draft.incidences ∧ kernel.bindings = draft.bindings ∧
    ∃ partition, draft.mesh.patchIndex.partition draft.kind = .ok partition ∧
      kernel.ranges = if kernel.plan.mode = .perPatch ∧ !kernel.plan.isEmpty then
        partition.ranges else none := by
  obtain ⟨partition, hpartition, h⟩ := bind_eq_ok.mp h
  obtain ⟨plan, hplan, h⟩ := bind_eq_ok.mp h
  obtain ⟨permutation, hpermutation, h⟩ := bind_eq_ok.mp h
  rw [pure_eq_ok, Except.ok.injEq] at h
  subst h
  obtain ⟨hadmits, hdirect⟩ := Plan.make_eq_ok hplan
  have hunstaged : draft.compile { config with localCache := false } = .ok (Kernel.unstaged
      { name := draft.name, kind := draft.kind, permutation := permutation
        patchIndex := draft.mesh.patchIndex, incidences := draft.incidences
        bindings := draft.bindings, plan := plan
        ranges := if plan.mode = .perPatch ∧ !plan.isEmpty then partition.ranges else none }) := by
    rw [compile, hpartition]
    simp only [ok_bind]
    rw [hdirect, hpermutation]
    rfl
  exact ⟨hadmits, hunstaged, hpermutation, rfl, rfl, rfl, rfl, partition, hpartition, rfl⟩

theorem compile_perPatch {draft : KernelDraft} {config : Config} {kernel : Kernel}
    (h : draft.compile config = .ok kernel) (hmode : kernel.plan.mode = .perPatch) :
    ∃ partition ranges, draft.mesh.patchIndex.partition draft.kind = .ok partition ∧
      partition.ranges = some ranges ∧ kernel.ranges = some ranges := by
  obtain ⟨partition, hpartition, h⟩ := bind_eq_ok.mp h
  obtain ⟨plan, hplan, h⟩ := bind_eq_ok.mp h
  obtain ⟨permutation, -, h⟩ := bind_eq_ok.mp h
  cases h
  obtain ⟨hcontiguous, hentries⟩ := Plan.make_perPatch hplan hmode
  rw [Bool.and_eq_true, Partition.isContiguous] at hcontiguous
  obtain ⟨ranges, hranges⟩ := Option.isSome_iff_exists.mp hcontiguous.2
  have hstages : plan.mode = .perPatch ∧ (!plan.isEmpty) = true := ⟨hmode, by rw [hentries]; rfl⟩
  exact ⟨partition, ranges, hpartition, hranges, by rw [if_pos hstages, hranges]⟩

end KernelDraft

end MeshLayout
