import MeshLayout.PerKind

/-!
# Relations between kinds

A relation leads from the elements of one kind to elements of another, or of the same, kind.
`Relation.all` lists them in their order: by source, then by target.
-/

set_option autoImplicit false

namespace MeshLayout

universe u v

structure Relation where
  source : Kind
  target : Kind
  deriving DecidableEq, Repr

namespace Relation

def all : List Relation :=
  Kind.all.flatMap fun source => Kind.all.map fun target => ⟨source, target⟩

def reversed (relation : Relation) : Relation := ⟨relation.target, relation.source⟩

def isLoop (relation : Relation) : Bool := relation.source == relation.target

def le (a b : Relation) : Bool :=
  if a.source = b.source then a.target.dimension ≤ b.target.dimension
  else a.source.dimension ≤ b.source.dimension

def sort (relations : List Relation) : List Relation := relations.mergeSort le

instance : ToString Relation := ⟨fun relation => s!"{relation.source}->{relation.target}"⟩

@[simp] theorem reversed_reversed (relation : Relation) :
    relation.reversed.reversed = relation := rfl

theorem mem_all (relation : Relation) : relation ∈ all := by
  obtain ⟨source, target⟩ := relation
  cases source <;> cases target <;> decide

end Relation

structure PerRelation (α : Type u) where
  bySource : PerKind (PerKind α)
  deriving DecidableEq, Repr

namespace PerRelation

variable {α : Type u}

def get (table : PerRelation α) (relation : Relation) : α :=
  (table.bySource.get relation.source).get relation.target

def set (table : PerRelation α) (relation : Relation) (a : α) : PerRelation α :=
  ⟨table.bySource.set relation.source ((table.bySource.get relation.source).set relation.target a)⟩

def const (a : α) : PerRelation α := ⟨.const (.const a)⟩

def toList (table : PerRelation α) : List (Relation × α) :=
  Relation.all.map fun relation => (relation, table.get relation)

def build {m : Type u → Type v} [Monad m] (f : Relation → m α) : m (PerRelation α) := do
  return ⟨← PerKind.build fun source => PerKind.build fun target => f ⟨source, target⟩⟩

@[simp] theorem get_const (a : α) (relation : Relation) : (const a).get relation = a := by
  simp [const, get]

theorem get_set (table : PerRelation α) (relation other : Relation) (a : α) :
    (table.set relation a).get other = if other = relation then a else table.get other := by
  cases relation
  cases other
  simp only [get, set, PerKind.get_set, Relation.mk.injEq]
  split <;> simp_all [PerKind.get_set]

theorem ext_get {s t : PerRelation α} (h : ∀ relation, s.get relation = t.get relation) :
    s = t := by
  cases s
  cases t
  congr 1
  exact PerKind.ext_get fun source => PerKind.ext_get fun target => h ⟨source, target⟩

end PerRelation

end MeshLayout
