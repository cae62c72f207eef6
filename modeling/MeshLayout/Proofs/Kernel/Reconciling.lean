import MeshLayout.Proofs.Kernel.Patches
import MeshLayout.Proofs.Kernel.Planning
import MeshLayout.Proofs.Tiling

/-!
# Ending a run

A kernel takes its patches one by one exactly if it is to keep copies, it and its mesh are to keep
patches together, and something is staged. What it holds back is then of the type of the field
that it is for, in ledgers as in copies, so that a run is never refused when it puts this back.
-/

set_option autoImplicit false

namespace MeshLayout

namespace Mesh

end Mesh

namespace Blueprint

variable {blueprint : Blueprint} {metadata : Metadata} {mesh : Mesh}

end Blueprint

namespace KernelDraft

variable {draft : KernelDraft} {config : Config} {kernel : Kernel}

end KernelDraft

variable {α : Type} {kernel : Kernel} {initial : Workspace} {memory : Memory}

namespace Kernel

theorem settle_unrefused (pairs : List (Binding × Option Ledger)) {workspace : Workspace}
    (htyped : ∀ binding ledger, (binding, some ledger) ∈ pairs →
      (workspace.shape? binding.location).map Prod.fst = some ledger.scalar) :
    (settle pairs workspace).Unrefused := by
  induction pairs generalizing workspace with
  | nil => exact .ok _
  | cons pair rest ih =>
    have hrest : ∀ binding ledger, (binding, some ledger) ∈ rest →
        (workspace.shape? binding.location).map Prod.fst = some ledger.scalar :=
      fun binding ledger hmem => htyped binding ledger (List.mem_cons_of_mem _ hmem)
    rcases pair with ⟨binding, _ | ledger⟩
    · exact ih hrest
    · have hhere := htyped binding ledger List.mem_cons_self
      rw [Workspace.shape?, Option.map_map] at hhere
      obtain ⟨column, hcolumn, hscalar⟩ := Option.map_eq_some_iff.mp hhere
      rw [settle, hcolumn, Outcome.ofLookup_some, ok_bind]
      rcases Ledger.mergeInto_cases hscalar with ⟨merged, hmerged, -⟩ | ⟨hfault, -⟩
      · rw [hmerged, ok_bind]
        apply ih
        intro other there hmem
        rw [Workspace.shape?_withColumn hcolumn (Ledger.mergeInto_shape hmerged).2]
        exact hrest other there hmem
      · rw [hfault]
        exact .fault _

end Kernel

namespace WithinPatch

theorem visit (h : WithinPatch kernel initial memory) (body : Element → Action α)
    (slots : List Nat) :
    (kernel.visit body slots memory).Late fun a => WithinPatch kernel initial a.2 := by
  apply kernel.visit_late _ _ body slots h
  · intro memory scalar field address component value h
    apply (memory.write_unrefused kernel field address component value).late
    intro after hwrite
    obtain ⟨binding, index, -, -, -, hupdate⟩ := Memory.write_eq_ok.mp hwrite
    exact (h.updateField hupdate).1
  · intro memory scalar field address component value h
    apply (memory.accumulate_unrefused kernel field address component value).late
    intro after haccumulate
    obtain ⟨binding, index, -, -, -, ⟨-, hupdate⟩ | ⟨ledgers, hledgers, -, rfl⟩ |
      ⟨staged, copy, hnone, -⟩⟩ := Memory.accumulate_cases haccumulate
    · exact (h.updateField hupdate).1
    · exact h.enter hledgers field.binding fun ledger => ledger.add_scalar scalar index value
    · have hsome := h.ledgers
      rw [hnone] at hsome
      cases hsome

theorem typed (h : WithinPatch kernel initial memory) (hfits : kernel.Fits initial)
    {binding : Binding} {ledger : Ledger} (hmem : (binding, some ledger) ∈ kernel.ledgers memory) :
    (memory.workspace.shape? binding.location).map Prod.fst = some ledger.scalar := by
  obtain ⟨i, hbinding, hledger⟩ := Kernel.mem_ledgers.mp hmem
  obtain ⟨column, hcolumn, hscalar⟩ := (hfits hbinding).column
  rw [h.shapes, (h.of_ledger hbinding hledger).2.2, Workspace.shape?, hcolumn, ← hscalar]
  rfl

end WithinPatch

namespace Kernel

theorem visitPatches_unrefused (hplan : kernel.Planned) (hfits : kernel.Fits initial)
    (body : Element → Action α) (ranges : List PatchRange) {workspace : Workspace}
    (hshapes : ∀ location, workspace.shape? location = initial.shape? location) :
    (kernel.visitPatches body (kernel.copies initial) ranges workspace).Unrefused := by
  induction ranges generalizing workspace with
  | nil => exact .ok _
  | cons range rest ih =>
    have hstart := WithinPatch.start hplan hshapes
    rw [visitPatches]
    apply Outcome.Late.bind (hstart.visit body range.slots)
    rintro ⟨here, memory⟩ hwithin
    have hsettle := settle_unrefused (kernel.ledgers memory) fun _ _ => hwithin.typed hfits
    apply Outcome.Late.bind (hsettle.late fun settled hsettled =>
      (settle_leaves (kernel.ledgers memory) hsettled).1)
    intro settled hkept
    exact (ih fun location => (hkept location).trans (hwithin.shapes location)).bind fun _ => .ok _

theorem run_unrefused (hplan : kernel.Planned) (hfits : kernel.Fits initial)
    (hmemory : initial.InMemory) (body : Element → Action α) (schedule : Schedule) :
    (kernel.run body initial schedule).Unrefused := by
  cases hranges : kernel.ranges with
  | some ranges =>
    rw [run, hranges]
    exact visitPatches_unrefused hplan hfits body (schedule.patches ranges) fun _ => rfl
  | none =>
    apply (run_whole hplan hranges hmemory body schedule).unrefused
    exact (visit_unrefused _ _ _ _).bind fun _ => .ok _

end Kernel

end MeshLayout
