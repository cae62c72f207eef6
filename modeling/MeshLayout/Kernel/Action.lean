import MeshLayout.Kernel.Compile

/-!
# Actions of a kernel body

What a body does for one element is a sequence of reads, overwrites and additions to bound
fields that ends in a result or in a fault. What comes after a read may depend on the value
read in any way, so every body over bound fields is an action.
-/

set_option autoImplicit false

namespace MeshLayout

inductive Action (α : Type) : Type
  | done (result : α)
  | fail (fault : Fault)
  | read (scalar : Scalar) (field : FieldHandle scalar) (address : Address) (component : Nat)
      (next : scalar.Carrier → Action α)
  | write (scalar : Scalar) (field : FieldHandle scalar) (address : Address) (component : Nat)
      (value : scalar.Carrier) (next : Action α)
  | accumulate (scalar : Scalar) (field : FieldHandle scalar) (address : Address)
      (component : Nat) (value : scalar.Carrier) (next : Action α)

namespace Action

variable {α β : Type}

def bind (action : Action α) (next : α → Action β) : Action β :=
  match action with
  | done result => next result
  | fail fault => fail fault
  | read scalar field address component rest =>
    read scalar field address component fun value => (rest value).bind next
  | write scalar field address component value rest =>
    write scalar field address component value (rest.bind next)
  | accumulate scalar field address component value rest =>
    accumulate scalar field address component value (rest.bind next)

instance : Monad Action where
  pure := done
  bind := bind

def ofExcept : Except Fault α → Action α
  | .ok result => done result
  | .error fault => fail fault

def ofLookup : Option α → Action α
  | some result => done result
  | none => fail .outOfBounds

theorem bind_done (action : Action α) : action.bind done = action := by
  induction action with
  | done | fail => rfl
  | read scalar field address component rest ih => simp only [bind, ih]
  | write scalar field address component value rest ih => simp only [bind, ih]
  | accumulate scalar field address component value rest ih => simp only [bind, ih]

theorem bind_assoc {γ : Type} (action : Action α) (f : α → Action β) (g : β → Action γ) :
    (action.bind f).bind g = action.bind fun a => (f a).bind g := by
  induction action with
  | done | fail => rfl
  | read scalar field address component rest ih => simp only [bind, ih]
  | write scalar field address component value rest ih => simp only [bind, ih]
  | accumulate scalar field address component value rest ih => simp only [bind, ih]

end Action

end MeshLayout
