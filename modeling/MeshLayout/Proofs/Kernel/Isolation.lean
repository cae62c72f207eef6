import MeshLayout.Proofs.Kernel.Frame
import MeshLayout.Proofs.Kernel.Layout
import MeshLayout.Proofs.Kernel.Sums

/-!
# Patches are isolated

Additions through a staged binding are merged into the field at the end of each patch, so later
patches run on fields that hold them. Nothing of that can be read through a staged binding: two
runs that differ elsewhere only in such additions do the same in a patch, value by value. The two
runs are kept in step; their fields differ in sums alone, and their ledgers within a patch that
differs.
-/

set_option autoImplicit false

namespace MeshLayout

variable {α : Type} {kernel : Kernel} {initial : Workspace} {memory other next : Memory}

/-- Two memories in the visit of a patch have the same fields, but for those that are added to
through staged bindings. If the patch is the same in both runs they have the same ledgers. -/
structure InStep (kernel : Kernel) (initial : Workspace) (same : Prop) (memory other : Memory) :
    Prop where
  left : WithinPatch kernel initial memory
  right : WithinPatch kernel initial other
  fields : ∀ {location}, ¬kernel.StagesSums location →
    memory.workspace.column? location = other.workspace.column? location
  ledgers : same → memory.ledgers = other.ledgers

namespace InStep

variable {same : Prop} {scalar : Scalar}

theorem symm (h : InStep kernel initial same memory other) :
    InStep kernel initial same other memory :=
  ⟨h.right, h.left, fun hlocation => (h.fields hlocation).symm, fun hsame => (h.ledgers hsame).symm⟩

theorem trans (h : InStep kernel initial same memory other)
    (hnext : InStep kernel initial same other next) : InStep kernel initial same memory next :=
  ⟨h.left, hnext.right, fun hlocation => (h.fields hlocation).trans (hnext.fields hlocation),
    fun hsame => (h.ledgers hsame).trans (hnext.ledgers hsame)⟩

theorem read_eq (h : InStep kernel initial same memory other) (hplan : kernel.Planned)
    (hfits : kernel.Fits initial) (field : FieldHandle scalar) (address : Address)
    (component : Nat) (hsame : same ∨ ¬kernel.Defers field.binding) :
    memory.read kernel field address component = other.read kernel field address component := by
  unfold Memory.read
  cases hbinding : kernel.bindings[field.binding]? with
  | none => rfl
  | some binding =>
    simp only [Outcome.ofLookup_some, ok_bind, h.left.copies hbinding, h.right.copies hbinding]
    cases hstaged : kernel.stages field.binding with
    | false =>
      simp only [Bool.false_eq_true, if_false]
      rw [h.fields (hplan.not_stagesSums hbinding (.inl hstaged))]
    | true =>
      obtain ⟨copy, hcopy, -⟩ := (hfits hbinding).column
      have hledger : memory.ledger? field.binding = other.ledger? field.binding := by
        rcases hsame with hsame | hdefers
        · exact Memory.ledger?_congr (h.ledgers hsame) _
        · have hnone : ¬(kernel.stages field.binding = true ∧ binding.access = .accumulate) :=
            fun hboth => hdefers ⟨binding, hbinding, hboth.1, hboth.2⟩
          have hleft := h.left.ledger hbinding
          have hright := h.right.ledger hbinding
          rw [if_neg hnone, Option.map_eq_none_iff] at hleft hright
          rw [hleft, hright]
      simp only [if_true, hcopy, hledger]

theorem store (h : InStep kernel initial same memory other) {location : Location}
    {old column : Column} (hlocation : ¬kernel.StagesSums location)
    (hold : other.workspace.column? location = some old) (hshape : column.shape = old.shape) :
    InStep kernel initial same
      { memory with workspace := memory.workspace.withColumn location column }
      { other with workspace := other.workspace.withColumn location column } where
  left := h.left.store ((h.fields hlocation).trans hold) hshape
  right := h.right.store hold hshape
  fields := by
    intro there hthere
    rw [Workspace.column?_withColumn ((h.fields hlocation).trans hold) hshape,
      Workspace.column?_withColumn hold hshape, h.fields hthere]
  ledgers := h.ledgers

theorem updateField (h : InStep kernel initial same memory other) {location : Location}
    (hlocation : ¬kernel.StagesSums location) (index : Nat)
    (update : scalar.Carrier → scalar.Carrier) :
    Outcome.Related (InStep kernel initial same)
      (memory.updateField location scalar index update)
      (other.updateField location scalar index update) :=
  Memory.updateField_related (h.fields hlocation)
    (fun _ _ hold hshape => h.store hlocation hold hshape) index update

theorem write (h : InStep kernel initial same memory other) (hplan : kernel.Planned)
    (field : FieldHandle scalar) (address : Address) (component : Nat) (value : scalar.Carrier) :
    Outcome.Related (InStep kernel initial same)
      (memory.write kernel field address component value)
      (other.write kernel field address component value) := by
  apply Memory.write_related
  intro binding hbinding haccess index
  apply h.updateField (hplan.not_stagesSums hbinding (.inl _))
  cases hstaged : kernel.stages field.binding with
  | false => rfl
  | true => exact absurd haccess (hplan.access_ne hstaged hbinding)

theorem accumulate (h : InStep kernel initial same memory other) (hplan : kernel.Planned)
    (hfits : kernel.Fits initial) (field : FieldHandle scalar) (address : Address)
    (component : Nat) (value : scalar.Carrier) (hsame : same ∨ ¬kernel.Defers field.binding) :
    Outcome.Related (InStep kernel initial same)
      (memory.accumulate kernel field address component value)
      (other.accumulate kernel field address component value) := by
  unfold Memory.accumulate
  cases hbinding : kernel.bindings[field.binding]? with
  | none => exact .error _
  | some binding =>
    simp only [Outcome.ofLookup_some, ok_bind]
    by_cases haccess : binding.access = .accumulate
    · rw [if_pos haccess, if_pos haccess]
      apply Outcome.Related.same
      intro index _
      rw [h.left.copies hbinding, h.right.copies hbinding]
      cases hstaged : kernel.stages field.binding with
      | false => exact h.updateField (hplan.not_stagesSums hbinding (.inl hstaged)) index _
      | true =>
        obtain ⟨copy, hcopy, -⟩ := (hfits hbinding).column
        have hsame : same := hsame.resolve_right fun hnot =>
          hnot ⟨binding, hbinding, hstaged, haccess⟩
        obtain ⟨ledgers, hledgers⟩ := Option.isSome_iff_exists.mp h.left.ledgers
        have hledgers' : other.ledgers = some ledgers := (h.ledgers hsame).symm.trans hledgers
        simp only [if_true, hcopy, hledgers, hledgers']
        have hkept := fun ledger : Ledger => ledger.add_scalar scalar index value
        exact .ok ⟨h.left.enter hledgers field.binding hkept,
          h.right.enter hledgers' field.binding hkept, h.fields, fun _ => rfl⟩
    · rw [if_neg haccess, if_neg haccess]
      exact .error _

theorem run (h : InStep kernel initial True memory other) (hplan : kernel.Planned)
    (hfits : kernel.Fits initial) (action : Action α) :
    Outcome.Related (fun a b => a.1 = b.1 ∧ InStep kernel initial True a.2 b.2)
      (action.run kernel memory) (action.run kernel other) := by
  induction action generalizing memory other with
  | done result => exact .ok ⟨rfl, h⟩
  | fail fault => exact .error _
  | read scalar field address component next ih =>
    rw [Action.run, Action.run, h.read_eq hplan hfits field address component (.inl trivial)]
    exact Outcome.Related.same fun value _ => ih value h
  | write scalar field address component value next ih =>
    exact (h.write hplan field address component value).bind fun _ _ h => ih h
  | accumulate scalar field address component value next ih =>
    exact (h.accumulate hplan hfits field address component value (.inl trivial)).bind
      fun _ _ h => ih h

theorem visit (h : InStep kernel initial True memory other) (hplan : kernel.Planned)
    (hfits : kernel.Fits initial) {body second : Element → Action α} (slots : List Nat)
    (hbodies : ∀ slot ∈ slots,
      body (kernel.element slot.toUInt32) = second (kernel.element slot.toUInt32)) :
    Outcome.Related (fun a b => a.1 = b.1 ∧ InStep kernel initial True a.2 b.2)
      (kernel.visit body slots memory) (kernel.visit second slots other) := by
  induction slots generalizing memory other with
  | nil => exact .ok ⟨rfl, h⟩
  | cons slot rest ih =>
    have hrest := fun there hthere => hbodies there (List.mem_cons_of_mem slot hthere)
    rw [Kernel.visit, Kernel.visit, hbodies slot List.mem_cons_self]
    apply (h.run hplan hfits (second (kernel.element slot.toUInt32))).bind
    rintro ⟨result, between⟩ ⟨_, between'⟩ ⟨rfl, h⟩
    apply (ih h hrest).bind
    rintro ⟨results, after⟩ ⟨_, after'⟩ ⟨rfl, h⟩
    exact .ok ⟨rfl, h⟩

end InStep

/-- Two actions that differ only in what goes through hidden bindings. What is read through them
can steer what is added through them and the result, but nothing else. -/
inductive Action.Varies (hidden : Nat → Prop) : Action α → Action α → Prop
  | done (first second : α) : Varies hidden (.done first) (.done second)
  | fail (fault : Fault) : Varies hidden (.fail fault) (.fail fault)
  | read {scalar : Scalar} {field : FieldHandle scalar} {address : Address} {component : Nat}
      {first second : scalar.Carrier → Action α} (seen : ¬hidden field.binding)
      (next : ∀ value, Varies hidden (first value) (second value)) :
      Varies hidden (.read scalar field address component first)
        (.read scalar field address component second)
  | write {scalar : Scalar} {field : FieldHandle scalar} {address : Address} {component : Nat}
      {value : scalar.Carrier} {first second : Action α} (next : Varies hidden first second) :
      Varies hidden (.write scalar field address component value first)
        (.write scalar field address component value second)
  | accumulate {scalar : Scalar} {field : FieldHandle scalar} {address : Address}
      {component : Nat} {value : scalar.Carrier} {first second : Action α}
      (seen : ¬hidden field.binding) (next : Varies hidden first second) :
      Varies hidden (.accumulate scalar field address component value first)
        (.accumulate scalar field address component value second)
  -- Hidden requests need no counterpart, so there may be more of them on one side.
  | readFirst {scalar : Scalar} {field : FieldHandle scalar} {address : Address} {component : Nat}
      {first : scalar.Carrier → Action α} {second : Action α} (unseen : hidden field.binding)
      (next : ∀ value, Varies hidden (first value) second) :
      Varies hidden (.read scalar field address component first) second
  | readSecond {scalar : Scalar} {field : FieldHandle scalar} {address : Address} {component : Nat}
      {first : Action α} {second : scalar.Carrier → Action α} (unseen : hidden field.binding)
      (next : ∀ value, Varies hidden first (second value)) :
      Varies hidden first (.read scalar field address component second)
  | addFirst {scalar : Scalar} {field : FieldHandle scalar} {address : Address} {component : Nat}
      {value : scalar.Carrier} {first second : Action α} (unseen : hidden field.binding)
      (next : Varies hidden first second) :
      Varies hidden (.accumulate scalar field address component value first) second
  | addSecond {scalar : Scalar} {field : FieldHandle scalar} {address : Address} {component : Nat}
      {value : scalar.Carrier} {first second : Action α} (unseen : hidden field.binding)
      (next : Varies hidden first second) :
      Varies hidden first (.accumulate scalar field address component value second)

theorem Action.Varies.traced {hidden : Nat → Prop} {first second : Action α}
    (h : first.Varies hidden second) (element : Element) (past past' : List Event) :
    (first.traced element past).Varies hidden (second.traced element past') := by
  induction h generalizing past past' with
  | done first second => exact .done _ _
  | fail fault => exact .fail fault
  | read seen next ih => exact .read seen fun value => ih value _ _
  | write next ih => exact .write (ih _ _)
  | accumulate seen next ih => exact .accumulate seen (ih _ _)
  | readFirst unseen next ih => exact .readFirst unseen fun value => ih value _ _
  | readSecond unseen next ih => exact .readSecond unseen fun value => ih value _ _
  | addFirst unseen next ih => exact .addFirst unseen (ih _ _)
  | addSecond unseen next ih => exact .addSecond unseen (ih _ _)

namespace InStep

end InStep

namespace Kernel

instance (kernel : Kernel) (i : Nat) : Decidable (kernel.Defers i) :=
  decidable_of_iff
    ((kernel.stages i && (kernel.bindings[i]?).any (·.access = .accumulate)) = true) <| by
      rw [Bool.and_eq_true, Option.any_eq_true]
      simp only [decide_eq_true_eq]
      constructor
      · rintro ⟨hstaged, binding, hbinding, haccess⟩
        exact ⟨binding, hbinding, hstaged, haccess⟩
      · rintro ⟨binding, hbinding, hstaged, haccess⟩
        exact ⟨hstaged, binding, hbinding, haccess⟩

def changes (kernel : Kernel) (events : List Event) : List Event :=
  events.filter fun event => event.access ≠ .read ∧ ¬kernel.Defers event.binding

end Kernel

namespace InStep

end InStep

section Patches

variable {body second : Element → Action α} {range : PatchRange} {rest : List PatchRange}
variable {results results' : List (List Event × α)} {next' : Memory}

end Patches

section Own

end Own

end MeshLayout
