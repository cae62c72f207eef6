import MeshLayout.Proofs.Kernel.Memory

/-!
# Logs of what a body asks for

A body can keep a log of its requests and hand it out with its result. The log changes nothing
about a run, so it tells what the body asked for in that run, whatever it has read. A trace is a
log that also tells who asked, and what was read, stored or added.
-/

set_option autoImplicit false

namespace MeshLayout

variable {α β : Type}

section Entries

theorem forall_concat {P : List α → α → Prop} {past : List α} {last : α}
    (h : ∀ i a, past[i]? = some a → P (past.take i) a) (hlast : P past last) (i : Nat) (a : α)
    (ha : (past ++ [last])[i]? = some a) : P ((past ++ [last]).take i) a := by
  rcases Nat.lt_trichotomy i past.length with hlt | rfl | hgt
  · rw [List.getElem?_append_left hlt] at ha
    rw [List.take_append_of_le_length (Nat.le_of_lt hlt)]
    exact h i a ha
  · rw [List.getElem?_concat_length] at ha
    rw [List.take_left' rfl, ← Option.some.inj ha]
    exact hlast
  · rw [List.getElem?_eq_none (by rw [List.length_append, List.length_singleton]; omega)] at ha
    cases ha

theorem filterMap_concat (f : α → Option β) (past : List α) (last : α) :
    (past ++ [last]).filterMap f = past.filterMap f ++ (f last).toList := by
  rw [List.filterMap_append]
  cases hlast : f last <;> simp [hlast]

theorem filterMap_take {f : α → Option β} {entries : List α} {i : Nat} {a : α} {b : β}
    (h : entries[i]? = some a) (hf : f a = some b) :
    (entries.filterMap f)[((entries.take i).filterMap f).length]? = some b := by
  obtain ⟨hi, rfl⟩ := List.getElem?_eq_some_iff.mp h
  have hsplit : entries.filterMap f =
      (entries.take i).filterMap f ++ b :: (entries.drop (i + 1)).filterMap f := by
    rw [← List.filterMap_cons_some hf, ← List.drop_eq_getElem_cons hi, ← List.filterMap_append,
      List.take_append_drop]
  rw [hsplit, List.getElem?_append_right (Nat.le_refl _), Nat.sub_self, List.getElem?_cons_zero]

end Entries

variable {kernel : Kernel}

namespace Action

/-- The action with its requests added to a log, which it hands out with its result. -/
def logged (log : List Request) : Action α → Action (List Request × α)
  | done result => done (log, result)
  | fail fault => fail fault
  | read scalar field address component next =>
    read scalar field address component fun value =>
      (next value).logged (log ++ [⟨.read, scalar, field.binding, address, component⟩])
  | write scalar field address component value next =>
    write scalar field address component value
      (next.logged (log ++ [⟨.write, scalar, field.binding, address, component⟩]))
  | accumulate scalar field address component value next =>
    accumulate scalar field address component value
      (next.logged (log ++ [⟨.accumulate, scalar, field.binding, address, component⟩]))

theorem run_logged (action : Action α) (log : List Request) (memory : Memory) :
    Outcome.Related (fun a b => a.1.2 = b.1 ∧ a.2 = b.2)
      ((action.logged log).run kernel memory) (action.run kernel memory) := by
  induction action generalizing log memory with
  | done result => exact .ok ⟨rfl, rfl⟩
  | fail fault => exact .error _
  | read scalar field address component next ih =>
    exact Outcome.Related.same fun value _ => ih value _ memory
  | write scalar field address component value next ih =>
    exact Outcome.Related.same fun written _ => ih _ written
  | accumulate scalar field address component value next ih =>
    exact Outcome.Related.same fun added _ => ih _ added

theorem logged_subset (action : Action α) {log final : List Request} {memory after : Memory}
    {result : α} (h : (action.logged log).run kernel memory = .ok ((final, result), after)) :
    log ⊆ final := by
  induction action generalizing log memory with
  | done _ =>
    cases h
    exact List.Subset.refl _
  | fail fault => cases h
  | read scalar field address component next ih =>
    obtain ⟨value, _, h⟩ := bind_eq_ok.mp h
    exact List.Subset.trans (List.subset_append_left _ _) (ih value h)
  | write scalar field address component value next ih =>
    obtain ⟨written, _, h⟩ := bind_eq_ok.mp h
    exact List.Subset.trans (List.subset_append_left _ _) (ih h)
  | accumulate scalar field address component value next ih =>
    obtain ⟨added, _, h⟩ := bind_eq_ok.mp h
    exact List.Subset.trans (List.subset_append_left _ _) (ih h)

end Action

namespace Kernel

/-- Each action of a body runs as that of another one, but hands out more, of which `forget` leaves
the result. -/
def Notes (kernel : Kernel) (forget : β → α) (noting : Element → Action β)
    (body : Element → Action α) : Prop :=
  ∀ element memory, Outcome.Related (fun a b => forget a.1 = b.1 ∧ a.2 = b.2)
    ((noting element).run kernel memory) ((body element).run kernel memory)

namespace Notes

variable {forget : β → α} {noting : Element → Action β} {body : Element → Action α}

theorem visit (h : kernel.Notes forget noting body) (slots : List Nat) (memory : Memory) :
    Outcome.Related (fun a b => a.1.map forget = b.1 ∧ a.2 = b.2)
      (kernel.visit noting slots memory) (kernel.visit body slots memory) := by
  induction slots generalizing memory with
  | nil => exact .ok ⟨rfl, rfl⟩
  | cons slot rest ih =>
    apply (h (kernel.element slot.toUInt32) memory).bind
    rintro ⟨noted, between⟩ ⟨_, _⟩ ⟨rfl, rfl⟩
    apply (ih between).bind
    rintro ⟨later, after⟩ ⟨_, _⟩ ⟨rfl, rfl⟩
    exact .ok ⟨rfl, rfl⟩

theorem visitPatches (h : kernel.Notes forget noting body) (staged : Array (Option Column))
    (ranges : List PatchRange) (workspace : Workspace) :
    Outcome.Related (fun a b => a.1.map forget = b.1 ∧ a.2 = b.2)
      (kernel.visitPatches noting staged ranges workspace)
      (kernel.visitPatches body staged ranges workspace) := by
  induction ranges generalizing workspace with
  | nil => exact .ok ⟨rfl, rfl⟩
  | cons range rest ih =>
    apply (h.visit _ _).bind
    rintro ⟨here, memory⟩ ⟨_, _⟩ ⟨rfl, rfl⟩
    apply Outcome.Related.same
    intro settled _
    apply (ih settled).bind
    rintro ⟨later, after⟩ ⟨_, _⟩ ⟨rfl, rfl⟩
    exact .ok ⟨List.map_append, rfl⟩

theorem run (h : kernel.Notes forget noting body) (workspace : Workspace) (schedule : Schedule) :
    Outcome.Related (fun a b => a.1.map forget = b.1 ∧ a.2 = b.2)
      (kernel.run noting workspace schedule) (kernel.run body workspace schedule) := by
  unfold Kernel.run
  cases kernel.ranges with
  | some ranges => exact h.visitPatches _ (schedule.patches ranges) workspace
  | none =>
    apply (h.visit _ _).bind
    rintro ⟨results, memory⟩ ⟨_, _⟩ ⟨rfl, rfl⟩
    apply Outcome.Related.same
    intro stored _
    exact .ok ⟨rfl, rfl⟩

theorem exists_run (h : kernel.Notes forget noting body) {workspace after : Workspace}
    {schedule : Schedule} {results : List α}
    (hrun : kernel.run body workspace schedule = .ok (results, after)) :
    ∃ noted, kernel.run noting workspace schedule = .ok (noted, after) := by
  have hrelated := h.run workspace schedule
  rw [hrun] at hrelated
  generalize kernel.run noting workspace schedule = there at hrelated
  cases hrelated with
  | @ok here _ hsame =>
    obtain ⟨noted, last⟩ := here
    obtain ⟨-, rfl⟩ := hsame
    exact ⟨noted, rfl⟩

end Notes

def logging (body : Element → Action α) (element : Element) : Action (List Request × α) :=
  (body element).logged []

theorem logging_notes (kernel : Kernel) (body : Element → Action α) :
    kernel.Notes Prod.snd (logging body) body :=
  fun element memory => (body element).run_logged [] memory

def requests (kernel : Kernel) (body : Element → Action α) (workspace : Workspace)
    (schedule : Schedule := .ascending) : List Request :=
  match kernel.run (logging body) workspace schedule with
  | .ok (results, _) => results.flatMap Prod.fst
  | .error _ => []

theorem exists_logs {body : Element → Action α} {workspace after : Workspace}
    {schedule : Schedule} {results : List α}
    (h : kernel.run body workspace schedule = .ok (results, after)) :
    ∃ logs, kernel.run (logging body) workspace schedule = .ok (logs, after) ∧
      kernel.requests body workspace schedule = logs.flatMap Prod.fst := by
  obtain ⟨logs, hlogs⟩ := (kernel.logging_notes body).exists_run h
  exact ⟨logs, hlogs, by rw [requests, hlogs]⟩

theorem exists_run {body : Element → Action α} {workspace : Workspace} {schedule : Schedule}
    {request : Request} (h : request ∈ kernel.requests body workspace schedule) :
    ∃ results after, kernel.run body workspace schedule = .ok (results, after) := by
  have hrelated := (kernel.logging_notes body).run workspace schedule
  rw [requests] at h
  generalize kernel.run (logging body) workspace schedule = noted at hrelated h
  generalize kernel.run body workspace schedule = plain at hrelated
  cases hrelated with
  | @ok _ ended _ => exact ⟨ended.1, ended.2, rfl⟩
  | error failure => cases h

end Kernel

structure Event extends Request where
  element : Element
  value : scalar.Carrier

namespace Action

def traced (element : Element) (past : List Event) : Action α → Action (List Event × α)
  | done result => done (past, result)
  | fail fault => fail fault
  | read scalar field address component next =>
    read scalar field address component fun value => (next value).traced element
      (past ++ [⟨⟨.read, scalar, field.binding, address, component⟩, element, value⟩])
  | write scalar field address component value next =>
    write scalar field address component value (next.traced element
      (past ++ [⟨⟨.write, scalar, field.binding, address, component⟩, element, value⟩]))
  | accumulate scalar field address component value next =>
    accumulate scalar field address component value (next.traced element
      (past ++ [⟨⟨.accumulate, scalar, field.binding, address, component⟩, element, value⟩]))

theorem traced_element (action : Action α) {element : Element} {past final : List Event}
    {memory after : Memory} {result : α}
    (h : (action.traced element past).run kernel memory = .ok ((final, result), after))
    (hpast : ∀ event ∈ past, event.element = element) :
    ∀ event ∈ final, event.element = element := by
  have hnext : ∀ {past : List Event} {last : Event}, (∀ event ∈ past, event.element = element) →
      last.element = element → ∀ event ∈ past ++ [last], event.element = element := by
    intro past last hpast hlast event hevent
    rcases List.mem_append.mp hevent with hold | hnew
    · exact hpast event hold
    · rwa [List.mem_singleton.mp hnew]
  induction action generalizing past memory with
  | done _ =>
    cases h
    exact hpast
  | fail fault => cases h
  | read scalar field address component next ih =>
    obtain ⟨value, _, h⟩ := bind_eq_ok.mp h
    exact ih value h (hnext hpast rfl)
  | write scalar field address component value next ih =>
    obtain ⟨written, _, h⟩ := bind_eq_ok.mp h
    exact ih h (hnext hpast rfl)
  | accumulate scalar field address component value next ih =>
    obtain ⟨added, _, h⟩ := bind_eq_ok.mp h
    exact ih h (hnext hpast rfl)

end Action

namespace Kernel

def tracing (body : Element → Action α) (element : Element) : Action (List Event × α) :=
  (body element).traced element []

end Kernel

end MeshLayout
