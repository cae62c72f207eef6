import MeshLayout.Kind

/-!
# Tables over the kinds

`PerKind α` holds one value for each kind. Writing one entry leaves the others as they were
(`get_set`), and two tables with equal entries are equal (`PerKind.ext_get`).
-/

set_option autoImplicit false

namespace MeshLayout

universe u v

structure PerKind (α : Type u) where
  vertex : α
  edge : α
  face : α
  cell : α
  deriving DecidableEq, Repr

namespace PerKind

variable {α : Type u} {β : Type v}

def get (table : PerKind α) : Kind → α
  | .vertex => table.vertex
  | .edge => table.edge
  | .face => table.face
  | .cell => table.cell

def set (table : PerKind α) : Kind → α → PerKind α
  | .vertex, a => { table with vertex := a }
  | .edge, a => { table with edge := a }
  | .face, a => { table with face := a }
  | .cell, a => { table with cell := a }

def ofFn (f : Kind → α) : PerKind α := ⟨f .vertex, f .edge, f .face, f .cell⟩

def const (a : α) : PerKind α := ofFn fun _ => a

def map (f : α → β) (table : PerKind α) : PerKind β := ofFn fun kind => f (table.get kind)

def toList (table : PerKind α) : List (Kind × α) := Kind.all.map fun kind => (kind, table.get kind)

/-- A table filled by a computation for each kind, lowest dimension first. -/
def build {m : Type u → Type v} [Monad m] (f : Kind → m α) : m (PerKind α) := do
  return ⟨← f .vertex, ← f .edge, ← f .face, ← f .cell⟩

@[simp] theorem get_ofFn (f : Kind → α) (kind : Kind) : (ofFn f).get kind = f kind := by
  cases kind <;> rfl

@[simp] theorem get_const (a : α) (kind : Kind) : (const a).get kind = a := get_ofFn _ kind

@[simp] theorem get_map (f : α → β) (table : PerKind α) (kind : Kind) :
    (table.map f).get kind = f (table.get kind) := get_ofFn _ kind

theorem get_set (table : PerKind α) (kind other : Kind) (a : α) :
    (table.set kind a).get other = if other = kind then a else table.get other := by
  cases kind <;> cases other <;> rfl

@[simp] theorem get_set_self (table : PerKind α) (kind : Kind) (a : α) :
    (table.set kind a).get kind = a := by simp [get_set]

theorem get_set_of_ne (table : PerKind α) {kind other : Kind} (h : other ≠ kind) (a : α) :
    (table.set kind a).get other = table.get other := by simp [get_set, h]

theorem ext_get {s t : PerKind α} (h : ∀ kind, s.get kind = t.get kind) : s = t := by
  cases s
  cases t
  have hv := h .vertex
  have he := h .edge
  have hf := h .face
  have hc := h .cell
  simp only [get] at hv he hf hc
  subst hv he hf hc
  rfl

end PerKind

end MeshLayout
