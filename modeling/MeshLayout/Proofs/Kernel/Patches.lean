import MeshLayout.Proofs.Kernel.Pending

/-!
# Staging patch by patch

At the end of a patch the ledgers are settled, each in a field of its own. If all of them can be,
the fields are those of the run that adds at once; if one is overdrawn that run has failed, and
so does this one. From patch to patch the two runs stay together.
-/

set_option autoImplicit false

namespace MeshLayout

variable {α : Type} {kernel : Kernel} {initial : Workspace} {memory plain : Memory}

namespace Kernel

/-- Settling ledgers of different fields makes every field what it is in the other run, if the
fields of these ledgers are all that is still different. -/
theorem settle_eq (goal : Location → Option Column) (pairs : List (Binding × Option Ledger))
    (workspace : Workspace)
    (hpairs : ∀ binding ledger, (binding, some ledger) ∈ pairs → ∃ before owed,
      workspace.column? binding.location = some before ∧
      goal binding.location = some owed ∧ ledger.mergeInto before = .ok owed)
    (hdistinct : pairs.Pairwise fun a b => a.2.isSome → b.2.isSome →
      b.1.location ≠ a.1.location)
    (hsame : ∀ location, (∀ binding ledger, (binding, some ledger) ∈ pairs →
      binding.location ≠ location) → workspace.column? location = goal location) :
    ∃ settled, settle pairs workspace = .ok settled ∧
      ∀ location, settled.column? location = goal location := by
  induction pairs generalizing workspace with
  | nil => exact ⟨workspace, rfl, fun location => hsame location (by simp)⟩
  | cons pair rest ih =>
    rw [List.pairwise_cons] at hdistinct
    rcases pair with ⟨binding, _ | ledger⟩
    · apply ih workspace _ hdistinct.2
      · intro location h
        apply hsame location
        intro other ledger hmem
        rcases List.mem_cons.mp hmem with heq | hrest
        · cases heq
        · exact h other ledger hrest
      · intro other ledger hmem
        exact hpairs other ledger (List.mem_cons_of_mem _ hmem)
    · obtain ⟨before, owed, hbefore, howed, hmerge⟩ := hpairs binding ledger List.mem_cons_self
      have hshape := (Ledger.mergeInto_shape hmerge).2
      rw [settle]
      simp only [hbefore, Outcome.ofLookup_some, ok_bind, hmerge]
      apply ih _ _ hdistinct.2
      · intro location h
        rw [Workspace.column?_withColumn hbefore hshape]
        by_cases heq : location = binding.location
        · rw [if_pos heq, heq, howed]
        · rw [if_neg heq]
          apply hsame location
          intro other ledger hmem
          rcases List.mem_cons.mp hmem with hhere | hrest
          · cases hhere
            exact fun h => heq h.symm
          · exact h other ledger hrest
      · intro other ledger hmem
        have hne := hdistinct.1 _ hmem rfl rfl
        rw [Workspace.column?_withColumn_ne _ _ hne]
        exact hpairs other ledger (List.mem_cons_of_mem _ hmem)

theorem settle_overdrawn (pairs : List (Binding × Option Ledger)) (workspace : Workspace)
    (htyped : ∀ binding ledger, (binding, some ledger) ∈ pairs →
      ∃ column, workspace.column? binding.location = some column ∧ column.scalar = ledger.scalar)
    (hover : ∃ binding ledger column, (binding, some ledger) ∈ pairs ∧
      workspace.column? binding.location = some column ∧ ledger.Overdrawn column.size) :
    ∃ fault, settle pairs workspace = .error (.broken fault) := by
  induction pairs generalizing workspace with
  | nil =>
    obtain ⟨binding, ledger, column, hmem, -⟩ := hover
    simp at hmem
  | cons pair rest ih =>
    rcases pair with ⟨binding, _ | ledger⟩
    · apply ih workspace
      · intro other ledger hmem
        exact htyped other ledger (List.mem_cons_of_mem _ hmem)
      · obtain ⟨other, ledger, column, hmem, hcolumn, h⟩ := hover
        rcases List.mem_cons.mp hmem with heq | hrest
        · cases heq
        · exact ⟨other, ledger, column, hrest, hcolumn, h⟩
    · obtain ⟨column, hcolumn, hscalar⟩ := htyped binding ledger List.mem_cons_self
      rw [settle]
      simp only [hcolumn, Outcome.ofLookup_some, ok_bind]
      rcases Ledger.mergeInto_cases hscalar with ⟨owed, hmerge, hfits⟩ | ⟨hmerge, -⟩
      · have hshape := (Ledger.mergeInto_shape hmerge).2
        rw [hmerge, ok_bind]
        have hkept : ∀ location there, workspace.column? location = some there →
            ∃ now, (workspace.withColumn binding.location owed).column? location = some now ∧
              now.shape = there.shape := by
          intro location there hthere
          rw [Workspace.column?_withColumn hcolumn hshape]
          by_cases heq : location = binding.location
          · rw [if_pos heq]
            rw [heq, hcolumn] at hthere
            cases hthere
            exact ⟨owed, rfl, hshape⟩
          · rw [if_neg heq]
            exact ⟨there, hthere, rfl⟩
        apply ih
        · intro other ledger' hmem
          obtain ⟨there, hthere, hsame⟩ := htyped other ledger' (List.mem_cons_of_mem _ hmem)
          obtain ⟨now, hnow, heq⟩ := hkept _ _ hthere
          exact ⟨now, hnow, (congrArg Prod.fst heq).trans hsame⟩
        · obtain ⟨other, ledger', there, hmem, hthere, h⟩ := hover
          rcases List.mem_cons.mp hmem with heq | hrest
          · cases heq
            rw [hcolumn] at hthere
            cases hthere
            exact absurd h hfits
          · obtain ⟨now, hnow, heq⟩ := hkept _ _ hthere
            have hsize : now.size = there.size := congrArg Prod.snd heq
            exact ⟨other, ledger', now, hrest, hnow, hsize ▸ h⟩
      · rw [hmerge]
        exact ⟨_, rfl⟩

end Kernel

section Settle

theorem Kernel.settle_leaves (pairs : List (Binding × Option Ledger)) {workspace after : Workspace}
    (h : settle pairs workspace = .ok after) :
    (∀ location, after.shape? location = workspace.shape? location) ∧
      ∀ location, (∀ binding ledger, (binding, some ledger) ∈ pairs →
        binding.location ≠ location) → after.column? location = workspace.column? location := by
  induction pairs generalizing workspace with
  | nil =>
    cases h
    exact ⟨fun _ => rfl, fun _ _ => rfl⟩
  | cons pair rest ih =>
    rcases pair with ⟨binding, _ | ledger⟩
    · obtain ⟨hshapes, hcolumns⟩ := ih h
      exact ⟨hshapes, fun location hnone => hcolumns location fun other ledger hmem =>
        hnone other ledger (List.mem_cons_of_mem _ hmem)⟩
    · obtain ⟨column, hcolumn, h⟩ := bind_eq_ok.mp h
      obtain ⟨merged, hmerged, h⟩ := bind_eq_ok.mp h
      have hold := Outcome.ofLookup_eq_ok.mp hcolumn
      obtain ⟨hshapes, hcolumns⟩ := ih h
      constructor
      · intro location
        rw [hshapes, Workspace.shape?_withColumn hold (Ledger.mergeInto_shape hmerged).2]
      · intro location hnone
        have hhere := hnone binding ledger List.mem_cons_self
        rw [hcolumns location fun other ledger hmem =>
          hnone other ledger (List.mem_cons_of_mem _ hmem),
          Workspace.column?_withColumn_ne _ _ hhere.symm]

theorem WithinPatch.distinct (h : WithinPatch kernel initial memory) (hplan : kernel.Planned) :
    (kernel.ledgers memory).Pairwise fun a b => a.2.isSome → b.2.isSome →
      b.1.location ≠ a.1.location := by
  rw [List.pairwise_iff_getElem]
  intro i j hi hj hij hfirst hsecond
  obtain ⟨hbinding, hledger⟩ := Kernel.ledgers_getElem? (List.getElem?_eq_getElem hi)
  obtain ⟨hother, hthere⟩ := Kernel.ledgers_getElem? (List.getElem?_eq_getElem hj)
  obtain ⟨ledger, hsome⟩ := Option.isSome_iff_exists.mp hfirst
  obtain ⟨there, hsome'⟩ := Option.isSome_iff_exists.mp hsecond
  have haccess := (h.of_ledger hbinding (hledger.trans hsome)).2.1
  have hstaged := (h.of_ledger hother (hthere.trans hsome')).1
  have hchanges : (kernel.ledgers memory)[i].1.access ≠ .read := fun hread => by
    cases haccess.symm.trans hread
  exact hplan.location_ne hbinding hchanges hstaged hother (Nat.ne_of_lt hij)

theorem Pending.settle (h : Pending kernel initial memory plain) (hplan : kernel.Planned) :
    ∃ settled, Kernel.settle (kernel.ledgers memory) memory.workspace = .ok settled ∧
      settled.Alike plain.workspace := by
  apply Kernel.settle_eq (fun location => plain.workspace.column? location)
  · intro binding ledger hmem
    obtain ⟨i, hbinding, hledger⟩ := Kernel.mem_ledgers.mp hmem
    exact h.debts hbinding hledger
  · exact h.within.distinct hplan
  · intro location hnone
    apply h.fields
    rintro ⟨i, binding, hbinding, hstaged, haccess, rfl⟩
    have hledger := h.within.ledger hbinding
    rw [if_pos ⟨hstaged, haccess⟩] at hledger
    obtain ⟨ledger, hledger, -⟩ := Option.map_eq_some_iff.mp hledger
    exact hnone binding ledger (Kernel.mem_ledgers.mpr ⟨i, hbinding, hledger⟩) rfl

theorem Doomed.settle (h : Doomed kernel initial memory) (hfits : kernel.Fits initial) :
    ∃ fault, Kernel.settle (kernel.ledgers memory) memory.workspace = .error (.broken fault) := by
  have hcolumns : ∀ location column, initial.column? location = some column →
      ∃ now, memory.workspace.column? location = some now ∧ now.shape = column.shape := by
    intro location column hcolumn
    have hshape := h.within.shapes location
    unfold Workspace.shape? at hshape
    rw [hcolumn] at hshape
    exact Option.map_eq_some_iff.mp hshape
  apply Kernel.settle_overdrawn
  · intro binding ledger hmem
    obtain ⟨i, hbinding, hledger⟩ := Kernel.mem_ledgers.mp hmem
    obtain ⟨column, hcolumn, hscalar⟩ := (hfits hbinding).column
    obtain ⟨now, hnow, heq⟩ := hcolumns _ _ hcolumn
    have htype := (h.within.of_ledger hbinding hledger).2.2
    exact ⟨now, hnow, (congrArg Prod.fst heq).trans (hscalar.trans htype.symm)⟩
  · obtain ⟨i, binding, ledger, column, hbinding, hledger, hcolumn, hover⟩ := h.overdrawn
    obtain ⟨now, hnow, heq⟩ := hcolumns _ _ hcolumn
    have hsize : now.size = column.size := congrArg Prod.snd heq
    exact ⟨binding, ledger, now, Kernel.mem_ledgers.mpr ⟨i, hbinding, hledger⟩, hnow,
      hsize ▸ hover⟩

end Settle

/-- Between two patches the staged run has the same fields as the run that adds at once. -/
structure BetweenPatches (kernel : Kernel) (initial workspace : Workspace) (plain : Memory) :
    Prop where
  alike : workspace.Alike plain.workspace
  plain_staged : ∀ i, plain.staged? i = none
  plain_shapes : plain.Keeps initial.shape?
  reads : ∀ {i binding}, kernel.bindings[i]? = some binding → kernel.stages i = true →
    binding.access = .read →
      plain.workspace.column? binding.location = initial.column? binding.location

namespace BetweenPatches

variable {workspace : Workspace}

theorem start (h : BetweenPatches kernel initial workspace plain) (hplan : kernel.Planned)
    (hfits : kernel.Fits initial) :
    Pending kernel initial ⟨workspace, kernel.copies initial, some kernel.emptyLedgers⟩ plain where
  within := by
    apply WithinPatch.start hplan
    intro location
    rw [← h.plain_shapes location, Workspace.shape?, Workspace.shape?, h.alike]
  plain_staged := h.plain_staged
  plain_shapes := h.plain_shapes
  fields := fun _ => h.alike _
  reads := h.reads
  debts := by
    intro i binding ledger hbinding hledger
    have hempty : ((kernel.emptyLedgers)[i]?).join = some ledger := hledger
    rw [Kernel.emptyLedgers_lookup hplan hbinding] at hempty
    split at hempty
    · cases hempty
      obtain ⟨column, hcolumn, hscalar⟩ := (hfits hbinding).column
      have hshape := h.plain_shapes binding.location
      rw [Workspace.shape?, Workspace.shape?, hcolumn] at hshape
      obtain ⟨now, hnow, heq⟩ := Option.map_eq_some_iff.mp hshape
      have htype : now.scalar = binding.type.scalar := (congrArg Prod.fst heq).trans hscalar
      exact ⟨now, now, (h.alike _).trans hnow, hnow, htype ▸ Ledger.mergeInto_empty now⟩
    · cases hempty

theorem visitPatches (h : BetweenPatches kernel initial workspace plain) (hplan : kernel.Planned)
    (hfits : kernel.Fits initial) (body : Element → Action α) (ranges : List PatchRange)
    (hsums : ∀ slot ∈ ranges.flatMap PatchRange.slots,
      (body (kernel.element slot.toUInt32)).Each kernel.WholeSums)
    (hreads : ∀ reading ∈ kernel.unstaged.readingsAt body (ranges.flatMap PatchRange.slots) plain,
      ¬kernel.Defers reading.binding) :
    Outcome.Agrees (fun a b => a.1 = b.1 ∧ a.2.Alike b.2.workspace)
      (kernel.visitPatches body (kernel.copies initial) ranges workspace)
      (kernel.unstaged.visit body (ranges.flatMap PatchRange.slots) plain) := by
  induction ranges generalizing workspace plain with
  | nil => exact .ok ⟨rfl, h.alike⟩
  | cons range rest ih =>
    rw [List.flatMap_cons] at hreads hsums ⊢
    rw [Kernel.readingsAt_append] at hreads
    rw [Kernel.visit_append, Kernel.visitPatches]
    have hhere := (h.start hplan hfits).visit hplan hfits body range.slots
      (fun slot hslot => hsums slot (List.mem_append_left _ hslot))
      fun reading hreading => hreads reading (List.mem_append_left _ hreading)
    change Outcome.Agrees _ (kernel.visit body range.slots _ >>= _) _
    generalize kernel.visit body range.slots _ = x at hhere
    generalize kernel.unstaged.visit body range.slots plain = y at hhere hreads
    cases hhere with
    | @ok here direct hpending =>
      obtain ⟨results, memory⟩ := here
      obtain ⟨_, plain'⟩ := direct
      obtain ⟨rfl, hpending⟩ := hpending
      obtain ⟨settled, hsettled, halike⟩ := hpending.settle hplan
      have hnext : BetweenPatches kernel initial settled plain' :=
        ⟨halike, hpending.plain_staged, hpending.plain_shapes, hpending.reads⟩
      simp only [ok_bind]
      rw [show Kernel.settle (kernel.bindings.zip (memory.ledgers.getD #[])).toList
        memory.workspace = .ok settled from hsettled, ok_bind]
      have hlater := ih hnext (fun slot hslot => hsums slot (List.mem_append_right _ hslot))
        fun reading hreading => hreads reading (List.mem_append_right _ hreading)
      apply hlater.bind
      rintro ⟨later, final⟩ ⟨_, last⟩ ⟨rfl, halike⟩
      exact .ok ⟨rfl, halike⟩
    | broken hlate fault =>
      cases hlate with
      | broken first => exact .broken first fault
      | @ok here hdoomed =>
        obtain ⟨results, memory⟩ := here
        obtain ⟨first, hsettle⟩ := hdoomed.settle hfits
        simp only [ok_bind]
        rw [show Kernel.settle (kernel.bindings.zip (memory.ledgers.getD #[])).toList
          memory.workspace = .error (.broken first) from hsettle]
        exact .broken first fault

end BetweenPatches

/-- A run that takes the patches one by one fails if the run without staging does that takes the
slots in the same order, and else ends with the same fields. -/
theorem Kernel.run_patches (hplan : kernel.Planned) (hfits : kernel.Fits initial)
    {ranges : List PatchRange} (hranges : kernel.ranges = some ranges) (body : Element → Action α)
    (schedule : Schedule)
    (hsums : ∀ slot ∈ kernel.order schedule,
      (body (kernel.element slot.toUInt32)).Each kernel.WholeSums)
    (hreads : ∀ reading ∈ kernel.unstaged.readingsAt body (kernel.order schedule)
      ⟨initial, kernel.unstaged.copies initial, none⟩, ¬kernel.Defers reading.binding) :
    Outcome.Agrees (fun a b => a.1 = b.1 ∧ a.2.Alike b.2) (kernel.run body initial schedule)
      (kernel.runDirect body (kernel.order schedule) initial) := by
  have horder : kernel.order schedule =
      (schedule.patches ranges).flatMap PatchRange.slots := by
    rw [Kernel.order, hranges]
  have hstart : BetweenPatches kernel initial initial
      ⟨initial, kernel.unstaged.copies initial, none⟩ :=
    ⟨fun _ => rfl, (Mirrors.start initial).plain_staged, fun _ => rfl, fun _ _ _ => rfl⟩
  rw [horder] at hsums hreads ⊢
  have hvisit := hstart.visitPatches hplan hfits body (schedule.patches ranges) hsums hreads
  simp only [Kernel.run, hranges, Kernel.runDirect]
  generalize kernel.visitPatches body _ (schedule.patches ranges) initial = x at hvisit ⊢
  generalize kernel.unstaged.visit body _ _ = y at hvisit ⊢
  cases hvisit with
  | ok h => exact .ok h
  | broken first second => exact .broken first second

section Raise

def raiseDraft : KernelDraft where
  name := "raise"
  home := 0
  mesh := pathMesh
  kind := .vertex
  bindings := #[⟨⟨.ofMesh 0 .vertex "load", "load", .accumulate⟩, ⟨.u32, 1⟩, .own pathVertices⟩]
  requested := [0]

theorem raiseDraft_declared : raiseDraft.Declared pathWorkspace := by
  have hstart : KernelDraft.start "raise" 0 pathMesh .vertex =
      .ok { name := "raise", home := 0, mesh := pathMesh, kind := .vertex } := rfl
  have hfield : KernelDraft.field { name := "raise", home := 0, mesh := pathMesh, kind := .vertex }
      .u32 .vertex "load" .accumulate = .ok ({ raiseDraft with requested := [] }, ⟨0⟩) := rfl
  exact .stage (.field (.start pathWorkspace_made rfl hstart) hfield) 0

def raiseBody (_ : Element) : Action Unit :=
  .accumulate .u32 ⟨0⟩ (.identity 1) 0 (1 : UInt32) (.done ())

end Raise

end MeshLayout
