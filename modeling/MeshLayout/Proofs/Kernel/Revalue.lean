import MeshLayout.Proofs.Kernel.Declare
import MeshLayout.Proofs.Kernel.Memory

/-!
# What a run can change

A run gives fields other values and does nothing else, whatever is staged. The layout, the types
of fields and the order of their cells stay.
-/

set_option autoImplicit false

namespace MeshLayout

variable {α : Type} {kernel : Kernel} {initial workspace after : Workspace}

namespace Workspace

/-- The workspaces that come of one when fields are given other values. -/
inductive Revalued (initial : Workspace) : Workspace → Prop
  | refl : Revalued initial initial
  | store {workspace : Workspace} (h : Revalued initial workspace) (location : Location)
      (column : Column) : Revalued initial (workspace.withColumn location column)

namespace Revalued

theorem laid (h : initial.Revalued workspace) (hlaid : initial.Laid) : workspace.Laid := by
  induction h with
  | refl => exact hlaid
  | store _ location column ih => exact ih.store location column

theorem permutation? (h : initial.Revalued workspace) :
    workspace.permutation? = initial.permutation? := by
  induction h with
  | refl => rfl
  | store _ location column ih => rw [permutation?_withColumn, ih]

theorem type (h : initial.Revalued workspace) (location : Location) :
    (workspace.field? location).map Field.type = (initial.field? location).map Field.type := by
  induction h with
  | refl => rfl
  | store _ other column ih => rw [type_withColumn, ih]

theorem fits (h : initial.Revalued workspace) {binding : Binding} (hfits : binding.Fits initial) :
    binding.Fits workspace := by
  induction h with
  | refl => exact hfits
  | store _ location column ih => exact ih.store location column

end Revalued

end Workspace

namespace Memory

variable {memory next : Memory} {scalar : Scalar} {field : FieldHandle scalar}
variable {address : Address} {component : Nat} {value : scalar.Carrier}

theorem updateField_revalued (h : initial.Revalued memory.workspace) {location : Location}
    {index : Nat} {update : scalar.Carrier → scalar.Carrier}
    (hupdate : memory.updateField location scalar index update = .ok next) :
    initial.Revalued next.workspace := by
  obtain ⟨old, column, -, -, rfl⟩ := updateField_eq_ok.mp hupdate
  exact h.store location column

theorem write_revalued (h : initial.Revalued memory.workspace)
    (hwrite : memory.write kernel field address component value = .ok next) :
    initial.Revalued next.workspace := by
  obtain ⟨binding, index, -, -, -, hupdate⟩ := write_eq_ok.mp hwrite
  exact updateField_revalued h hupdate

theorem accumulate_revalued (h : initial.Revalued memory.workspace)
    (haccumulate : memory.accumulate kernel field address component value = .ok next) :
    initial.Revalued next.workspace := by
  obtain ⟨binding, index, -, -, -, ⟨-, hupdate⟩ | ⟨ledgers, -, -, rfl⟩ |
    ⟨column, copy, -, -, -, rfl⟩⟩ := accumulate_cases haccumulate
  · exact updateField_revalued h hupdate
  · exact h
  · exact h

end Memory

namespace Kernel

theorem visit_revalued (body : Element → Action α) (slots : List Nat) (memory : Memory)
    {next : Memory} {results : List α} (h : initial.Revalued memory.workspace)
    (hvisit : kernel.visit body slots memory = .ok (results, next)) :
    initial.Revalued next.workspace := by
  induction slots generalizing memory results with
  | nil =>
    cases hvisit
    exact h
  | cons slot rest ih =>
    obtain ⟨result, between, later, hhere, hlater, -⟩ := visit_cons.mp hvisit
    apply ih between _ hlater
    exact (body (kernel.element slot.toUInt32)).run_invariant
      (P := fun memory => initial.Revalued memory.workspace)
      Memory.write_revalued Memory.accumulate_revalued h hhere

theorem settle_revalued (pairs : List (Binding × Option Ledger))
    (h : initial.Revalued workspace) (hsettle : settle pairs workspace = .ok after) :
    initial.Revalued after := by
  induction pairs generalizing workspace with
  | nil =>
    cases hsettle
    exact h
  | cons pair rest ih =>
    rcases pair with ⟨binding, _ | ledger⟩
    · exact ih h hsettle
    · obtain ⟨column, -, hsettle⟩ := bind_eq_ok.mp hsettle
      obtain ⟨merged, -, hsettle⟩ := bind_eq_ok.mp hsettle
      exact ih (h.store binding.location merged) hsettle

theorem visitPatches_revalued (body : Element → Action α) (staged : Array (Option Column))
    (ranges : List PatchRange) {results : List α} (h : initial.Revalued workspace)
    (hvisit : kernel.visitPatches body staged ranges workspace = .ok (results, after)) :
    initial.Revalued after := by
  induction ranges generalizing workspace results with
  | nil =>
    cases hvisit
    exact h
  | cons range rest ih =>
    obtain ⟨here, memory, settled, later, hhere, hsettled, hlater, rfl⟩ :=
      visitPatches_cons.mp hvisit
    have hmemory := visit_revalued body _ ⟨workspace, staged, some kernel.emptyLedgers⟩ h hhere
    exact ih (settle_revalued _ hmemory hsettled) hlater

theorem storeBack_revalued (staged : Array (Option Column)) (entries : List StagedUse)
    (h : initial.Revalued workspace)
    (hstore : kernel.storeBack staged entries workspace = .ok after) :
    initial.Revalued after := by
  induction entries generalizing workspace with
  | nil =>
    cases hstore
    exact h
  | cons entry rest ih =>
    rw [storeBack] at hstore
    split at hstore
    · next binding copy _ _ _ =>
      obtain ⟨column, -, hstore⟩ := bind_eq_ok.mp hstore
      obtain ⟨stored, -, hstore⟩ := bind_eq_ok.mp hstore
      exact ih (h.store binding.location stored) hstore
    · exact ih h hstore

theorem run_revalued (body : Element → Action α) {schedule : Schedule} {results : List α}
    (hrun : kernel.run body initial schedule = .ok (results, after)) :
    initial.Revalued after := by
  unfold run at hrun
  cases hranges : kernel.ranges with
  | some ranges =>
    simp only [hranges] at hrun
    exact visitPatches_revalued body _ (schedule.patches ranges) .refl hrun
  | none =>
    simp only [hranges] at hrun
    obtain ⟨⟨visited, memory⟩, hvisit, hrun⟩ := bind_eq_ok.mp hrun
    obtain ⟨stored, hstored, heq⟩ := bind_eq_ok.mp hrun
    cases heq
    have hmemory := visit_revalued body _ ⟨initial, kernel.copies initial, none⟩ .refl hvisit
    exact storeBack_revalued _ _ hmemory hstored

end Kernel

end MeshLayout
