import MeshLayout.Mesh

/-!
# Staging plans

A kernel may ask that a bound field be staged: read, or added to, in a copy instead of the field
itself. A plan lists the staged bindings. It is refused if a binding overwrites, or if the field
is also bound in another place and one of the two changes it, since then the copy and the field
would part.
-/

set_option autoImplicit false

namespace MeshLayout

inductive Access
  | read
  | write
  | accumulate
  deriving DecidableEq, Repr

def Access.writes : Access → Bool
  | read => false
  | write | accumulate => true

structure Use where
  location : Location
  field : String
  access : Access
  deriving DecidableEq, Repr

inductive StagingMode
  | whole
  | perPatch
  deriving DecidableEq, Repr

structure StagedUse where
  binding : Nat
  access : Access
  deriving DecidableEq, Repr

structure Plan where
  mode : StagingMode
  entries : List StagedUse
  deriving DecidableEq, Repr

namespace Plan

def direct : Plan := ⟨.whole, []⟩

def isEmpty (plan : Plan) : Bool := plan.entries.isEmpty

def entry? (plan : Plan) (binding : Nat) : Option StagedUse :=
  plan.entries.find? (·.binding == binding)

/-- Two uses clash if they are of one field and one of them changes it. -/
def clash (a b : Use) : Bool :=
  a.location == b.location && (a.access.writes || b.access.writes)

/-- A use clashes with one at another position of the list, whose first position is `position`. -/
def clashes (use : Use) (binding : Nat) : List Use → Nat → Bool
  | [], _ => false
  | other :: rest, position =>
    (position != binding && clash other use) || clashes use binding rest (position + 1)

/-- Checks the requests of a list and enters those that are not entered yet. -/
def collect (region : String) (uses : List Use) :
    List Nat → List StagedUse → Checked (List StagedUse)
  | [], entries => .ok entries
  | binding :: rest, entries =>
    match uses[binding]? with
    | none => .error (.config (.unknownBinding region binding))
    | some use => do
      Checked.require (use.access ≠ .write) (.unsupportedStaging use.field .overwritten)
      Checked.require (!clashes use binding uses 0) (.unsupportedStaging use.field .aliased)
      collect region uses rest
        (if entries.any (·.binding == binding) then entries
        else entries ++ [⟨binding, use.access⟩])

/-- The plan for the requested bindings. They are checked even if staging is not enabled. -/
def make (region : String) (uses : List Use) (requested : List Nat) (enabled perPatch : Bool) :
    Checked Plan := do
  let entries ← collect region uses requested []
  return if entries.isEmpty || !enabled then direct
    else ⟨if perPatch then .perPatch else .whole, entries⟩

end Plan

end MeshLayout
