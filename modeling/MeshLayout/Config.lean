/-!
# Layout choices

A mode says at which end a relation table keeps slots: `toEnd` stores targets as slots, and
`fromEnd` keeps rows by identity and finds the row of a slot when it is asked for. A
configuration holds a mode, whether every kind is grouped by patch, and whether kernels may
stage fields. No choice changes an answer in terms of identities.
-/

set_option autoImplicit false

namespace MeshLayout

structure Mode where
  toEnd : Bool := true
  fromEnd : Bool := false
  deriving DecidableEq, Repr

structure Config where
  mode : Mode := {}
  patchContiguous : Bool := false
  localCache : Bool := true
  deriving DecidableEq, Repr

end MeshLayout
