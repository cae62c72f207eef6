import MeshLayout.Error

/-!
# Steps of an outcome

A computation that ends well has every one of its steps end well, and a look-up or a check that
ends well says what was found or what holds. Two computations are compared step by step: both
fail alike (`Related`), both fail if one does (`Agrees`), or the first may go on for a while after
the second has met a fault (`Trails`). How a computation can fail is followed in the same way
(`Answers`).
-/

set_option autoImplicit false

namespace MeshLayout

theorem bind_eq_ok {ε α β : Type} {x : Except ε α} {f : α → Except ε β} {b : β} :
    x >>= f = .ok b ↔ ∃ a, x = .ok a ∧ f a = .ok b := by
  cases x with
  | error e => exact ⟨fun h => (nomatch h), fun ⟨_, h, _⟩ => (nomatch h)⟩
  | ok a => exact ⟨fun h => ⟨a, rfl, h⟩, fun ⟨_, h, hf⟩ => by cases h; exact hf⟩

theorem bind_eq_error {ε α β : Type} {x : Except ε α} {f : α → Except ε β} {e : ε} :
    x >>= f = .error e ↔ x = .error e ∨ ∃ a, x = .ok a ∧ f a = .error e := by
  cases x with
  | error other =>
    constructor
    · intro h
      cases h
      exact .inl rfl
    · rintro (h | ⟨_, h, _⟩)
      · cases h
        rfl
      · cases h
  | ok a =>
    constructor
    · exact fun h => .inr ⟨a, rfl, h⟩
    · rintro (h | ⟨_, h, hf⟩)
      · cases h
      · cases h
        exact hf

theorem bind_error_of {ε α β : Type} {x : Except ε α} {f : α → Except ε β}
    (h : ∀ a, x = .ok a → ∃ e, f a = .error e) : ∃ e, x >>= f = .error e := by
  cases x with
  | error e => exact ⟨e, rfl⟩
  | ok a => exact h a rfl

@[simp] theorem ok_bind {ε α β : Type} (a : α) (f : α → Except ε β) :
    (Except.ok a : Except ε α) >>= f = f a := rfl

@[simp] theorem error_bind {ε α β : Type} (e : ε) (f : α → Except ε β) :
    (Except.error e : Except ε α) >>= f = .error e := rfl

theorem pure_eq_ok {ε α : Type} (a : α) : (pure a : Except ε α) = .ok a := rfl

theorem Checked.orLeave_eq_ok {σ α β : Type} {found : Checked α} {state after : σ}
    {next : α → σ × Checked β} {b : β} :
    found.orLeave state next = (after, .ok b) ↔ ∃ a, found = .ok a ∧ next a = (after, .ok b) := by
  cases found with
  | error error => simp
  | ok a => simp

theorem Checked.orLeave_state {σ α β : Type} {found : Checked α} {state : σ}
    {next : α → σ × Checked β} {P : σ → Prop} (hstate : P state)
    (hnext : ∀ a, found = .ok a → P (next a).1) : P (found.orLeave state next).1 := by
  cases found with
  | error error => exact hstate
  | ok a => exact hnext a rfl

theorem Checked.after_result {σ : Type} (step : σ × Checked Unit) :
    (Checked.after step).map (fun _ => ()) = step.2 := by
  obtain ⟨left, result⟩ := step
  cases result <;> rfl

theorem Checked.require_of {condition : Prop} [Decidable condition] (error : Error)
    (h : condition) : Checked.require condition error = .ok () := Checked.require_eq_ok.mpr h

theorem Checked.require_orLeave_eq_ok {σ β : Type} {condition : Prop} [Decidable condition]
    {error : Error} {state after : σ} {next : Unit → σ × Checked β} {b : β} :
    (Checked.require condition error).orLeave state next = (after, .ok b) ↔
      condition ∧ next () = (after, .ok b) := by
  by_cases h : condition
  · simp [Checked.require, h]
  · simp [Checked.require, h]

@[simp] theorem Checked.require_bind_eq_ok {α : Type} {condition : Prop} [Decidable condition]
    {error : Error} {f : Unit → Checked α} {a : α} :
    Checked.require condition error >>= f = .ok a ↔ condition ∧ f () = .ok a := by
  by_cases h : condition
  · simp [Checked.require, h]
  · simp [Checked.require, h]

namespace Outcome

variable {α β : Type}

@[simp] theorem liftM_eq (x : Checked α) : (liftM x : Outcome α) = ofChecked x := rfl

@[simp] theorem ofChecked_ok (a : α) : ofChecked (.ok a) = .ok a := rfl

@[simp] theorem ofChecked_eq_ok {x : Checked α} {a : α} : ofChecked x = .ok a ↔ x = .ok a := by
  cases x with
  | error e => exact ⟨fun h => (nomatch h), fun h => (nomatch h)⟩
  | ok b => exact ⟨fun h => by cases h; rfl, fun h => by cases h; rfl⟩

@[simp] theorem ofLookup_some (a : α) : ofLookup (some a) = .ok a := rfl

@[simp] theorem ofLookup_none : (ofLookup none : Outcome α) = fault .outOfBounds := rfl

@[simp] theorem ofLookup_eq_ok {x : Option α} {a : α} : ofLookup x = .ok a ↔ x = some a := by
  cases x with
  | none => exact ⟨fun h => (nomatch h), fun h => (nomatch h)⟩
  | some b => exact ⟨fun h => by cases h; rfl, fun h => by cases h; rfl⟩

@[simp] theorem require_bind_eq_ok {condition : Prop} [Decidable condition] {error : Error}
    {f : Unit → Outcome α} {a : α} :
    ofChecked (Checked.require condition error) >>= f = .ok a ↔ condition ∧ f () = .ok a := by
  by_cases h : condition
  · simp [Checked.require, h]
  · simp [Checked.require, h, ofChecked, refuse]

@[simp] theorem ofLookup_bind_eq_ok {x : Option α} {f : α → Outcome β} {b : β} :
    ofLookup x >>= f = .ok b ↔ ∃ a, x = some a ∧ f a = .ok b := by
  cases x with
  | none => simp [fault]
  | some a => simp

@[simp] theorem index_eq_ok {n m : Nat} : index n = .ok m ↔ n < indexLimit ∧ n = m := by
  unfold index
  split
  · next h => exact ⟨fun e => by cases e; exact ⟨h, rfl⟩, fun e => by rw [e.2]⟩
  · next h => exact ⟨fun e => (nomatch e), fun e => absurd e.1 h⟩

@[simp] theorem assert_eq_ok {x : Outcome Unit} : assert x = .ok () ↔ x = .ok () := by
  rcases x with (e | f) | a
  · exact ⟨fun h => (nomatch h), fun h => (nomatch h)⟩
  · exact Iff.rfl
  · exact Iff.rfl

section Compare

variable {γ δ : Type}

/-- Both computations end well, with related answers, or in the same failure. -/
inductive Related (R : α → β → Prop) : Outcome α → Outcome β → Prop
  | ok {a : α} {b : β} (h : R a b) : Related R (.ok a) (.ok b)
  | error (failure : Failure) : Related R (.error failure) (.error failure)

theorem Related.bind {R : α → β → Prop} {S : γ → δ → Prop} {x : Outcome α} {y : Outcome β}
    {f : α → Outcome γ} {g : β → Outcome δ} (h : Related R x y)
    (hnext : ∀ a b, R a b → Related S (f a) (g b)) : Related S (x >>= f) (y >>= g) := by
  cases h with
  | ok h => exact hnext _ _ h
  | error failure => exact .error failure

theorem Related.same {R : α → β → Prop} {x : Outcome γ} {f : γ → Outcome α} {g : γ → Outcome β}
    (hnext : ∀ c, x = .ok c → Related R (f c) (g c)) : Related R (x >>= f) (x >>= g) := by
  cases hx : x with
  | ok c => exact hnext c hx
  | error failure => exact .error failure

/-- Both computations end well, with related answers, or both meet a fault. -/
inductive Agrees (R : α → β → Prop) : Outcome α → Outcome β → Prop
  | ok {a : α} {b : β} (h : R a b) : Agrees R (.ok a) (.ok b)
  | broken (first second : Fault) : Agrees R (.error (.broken first)) (.error (.broken second))

theorem Agrees.bind {R : α → β → Prop} {S : γ → δ → Prop} {x : Outcome α} {y : Outcome β}
    {f : α → Outcome γ} {g : β → Outcome δ} (h : Agrees R x y)
    (hnext : ∀ a b, R a b → Agrees S (f a) (g b)) : Agrees S (x >>= f) (y >>= g) := by
  cases h with
  | ok h => exact hnext _ _ h
  | broken first second => exact .broken first second

/-- The computation meets a fault or ends with an answer as `D` says; it is not refused. -/
inductive Late (D : α → Prop) : Outcome α → Prop
  | ok {a : α} (h : D a) : Late D (.ok a)
  | broken (fault : Fault) : Late D (.error (.broken fault))

theorem Late.bind {D : α → Prop} {E : β → Prop} {x : Outcome α} {f : α → Outcome β}
    (h : Late D x) (hnext : ∀ a, D a → Late E (f a)) : Late E (x >>= f) := by
  cases h with
  | ok h => exact hnext _ h
  | broken fault => exact .broken fault

def Unrefused (x : Outcome α) : Prop := Late (fun _ => True) x

theorem Unrefused.ok (a : α) : Unrefused (.ok a) := Late.ok trivial

theorem Unrefused.fault (fault : Fault) : Unrefused (Outcome.fault fault : Outcome α) :=
  Late.broken fault

theorem Unrefused.bind {x : Outcome α} {f : α → Outcome β} (h : x.Unrefused)
    (hnext : ∀ a, (f a).Unrefused) : (x >>= f).Unrefused := Late.bind h fun a _ => hnext a

theorem Unrefused.ofLookup (x : Option α) : (Outcome.ofLookup x).Unrefused := by
  cases x with
  | none => exact .fault _
  | some a => exact .ok a

theorem Agrees.same {R : α → β → Prop} {x : Outcome γ} {f : γ → Outcome α} {g : γ → Outcome β}
    (h : x.Unrefused) (hnext : ∀ c, x = .ok c → Agrees R (f c) (g c)) :
    Agrees R (x >>= f) (x >>= g) := by
  cases h with
  | ok _ => exact hnext _ rfl
  | broken fault => exact .broken fault fault

theorem Unrefused.late {D : α → Prop} {x : Outcome α} (h : x.Unrefused)
    (hok : ∀ a, x = .ok a → D a) : Late D x := by
  cases h with
  | ok _ => exact .ok (hok _ rfl)
  | broken fault => exact .broken fault

/-- Both computations end well, with related answers, or the second meets a fault and the first
does so too or ends with an answer as `D` says. -/
inductive Trails (R : α → β → Prop) (D : α → Prop) : Outcome α → Outcome β → Prop
  | ok {a : α} {b : β} (h : R a b) : Trails R D (.ok a) (.ok b)
  | broken {x : Outcome α} (h : Late D x) (fault : Fault) : Trails R D x (.error (.broken fault))

theorem Trails.bind {R : α → β → Prop} {D : α → Prop} {S : γ → δ → Prop} {E : γ → Prop}
    {x : Outcome α} {y : Outcome β} {f : α → Outcome γ} {g : β → Outcome δ} (h : Trails R D x y)
    (hok : ∀ a b, x = .ok a → y = .ok b → R a b → Trails S E (f a) (g b))
    (hlate : ∀ a, D a → Late E (f a)) : Trails S E (x >>= f) (y >>= g) := by
  cases h with
  | ok h => exact hok _ _ rfl rfl h
  | broken h fault => exact .broken (h.bind hlate) fault

theorem Related.unrefused {R : α → β → Prop} {x : Outcome α} {y : Outcome β} (h : Related R x y)
    (hy : y.Unrefused) : x.Unrefused := by
  cases h with
  | ok h => exact .ok _
  | error failure =>
    cases hy with
    | broken fault => exact .fault fault

theorem Related.trails {R : α → β → Prop} {D : α → Prop} {x : Outcome α} {y : Outcome β}
    (h : Related R x y) (hx : x.Unrefused) : Trails R D x y := by
  cases h with
  | ok h => exact .ok h
  | error failure =>
    cases hx with
    | broken fault => exact .broken (.broken fault) fault

end Compare

section Answers

/-- The computation ends well or in a refusal of what a description says, or it meets a fault that
has a cause. -/
inductive Answers (cause : Fault → Prop) : Outcome α → Prop
  | ok (a : α) : Answers cause (.ok a)
  | schema (issue : SchemaIssue) : Answers cause (.error (.refused (.schema issue)))
  | fault {fault : Fault} (h : cause fault) : Answers cause (.error (.broken fault))

variable {cause : Fault → Prop}

theorem Answers.of_error {x : Outcome α} (h : x.Answers cause) {failure : Failure}
    (hfailure : x = .error failure) : Answers cause (.error failure : Outcome β) := by
  subst hfailure
  cases h with
  | schema issue => exact .schema issue
  | fault h => exact .fault h

theorem Answers.of_fault {x : Outcome α} (h : x.Answers cause) {fault : Fault}
    (hfault : x = Outcome.fault fault) : cause fault := by
  subst hfault
  cases h with
  | fault h => exact h

theorem Answers.mono {other : Fault → Prop} {x : Outcome α} (h : x.Answers cause)
    (hweaker : ∀ fault, cause fault → other fault) : x.Answers other := by
  cases h with
  | ok a => exact .ok a
  | schema issue => exact .schema issue
  | fault h => exact .fault (hweaker _ h)

theorem Answers.bind {x : Outcome α} {f : α → Outcome β} (h : x.Answers cause)
    (hnext : ∀ a, x = .ok a → (f a).Answers cause) : (x >>= f).Answers cause := by
  cases h with
  | ok a => exact hnext a rfl
  | schema issue => exact .schema issue
  | fault h => exact .fault h

theorem Answers.require {condition : Prop} [Decidable condition] (issue : SchemaIssue) :
    Answers cause (ofChecked (Checked.require condition (.schema issue))) := by
  unfold Checked.require
  split
  · exact .ok ()
  · exact .schema issue

end Answers

section Spares

def Spares (spared : Fault) (x : Outcome α) : Prop := x ≠ fault spared

variable {spared : Fault}

theorem Spares.ok (a : α) : Spares spared (.ok a) := fun h => nomatch h

theorem Spares.refuse (error : Error) : Spares spared (Outcome.refuse error : Outcome α) :=
  fun h => nomatch h

theorem Spares.fault {other : Fault} (h : other ≠ spared) :
    Spares spared (Outcome.fault other : Outcome α) := by
  intro hsame
  cases hsame
  exact h rfl

theorem Spares.bind {x : Outcome α} {f : α → Outcome β} (h : x.Spares spared)
    (hnext : ∀ a, x = .ok a → (f a).Spares spared) : (x >>= f).Spares spared := by
  intro hfault
  rcases bind_eq_error.mp hfault with hx | ⟨a, ha, hf⟩
  · exact h (hx.trans rfl)
  · exact hnext a ha hf

theorem Spares.ofLookup (x : Option α) (h : .outOfBounds ≠ spared) :
    (Outcome.ofLookup x).Spares spared := by
  cases x with
  | none => exact .fault h
  | some a => exact .ok a

theorem Spares.ofChecked (x : Checked α) : (Outcome.ofChecked x).Spares spared := by
  cases x with
  | error error => exact .refuse error
  | ok a => exact .ok a

end Spares

end Outcome

end MeshLayout
