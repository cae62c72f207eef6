import MeshLayout.Relation
import MeshLayout.Scalar

/-!
# Errors, faults and outcomes

An error is a refusal: the request is inconsistent, and the answer says why. What changes a state
in place gives the state that it leaves and its result, also if it is refused. A fault is a breach
of what callers promise, such as a slot beyond the end of a table, and ends the computation that
meets it. Each cause of a refusal is a constructor here; the wording is in `Error.message` and
`Fault.message?`.
-/

set_option autoImplicit false

namespace MeshLayout

/-- What is wrong with a description of a mesh. -/
inductive SchemaIssue
  | offsetCount (found expected : Nat)
  | firstOffset (found : UInt32)
  | fallingOffset (row : Nat) (offset next : UInt32)
  | neighborCount (found : Nat) (expected : UInt32)
  | neighborRange (neighbor : UInt32) (targets : Nat)
  | shape (relation : Relation) (rows targets sourceSize targetSize : Nat)
  | rowCount (relation : Relation) (rows sources : Nat)
  | uncounted (kind : Kind)
  | ofRelation (relation : Relation) (issue : SchemaIssue)
  | repeatedRelation (relation : Relation)
  | patchCount (kind : Kind) (found expected : Nat)
  | uncountedPatches (kind : Kind)
  | stated (text : String)
  deriving DecidableEq, Repr

/-- What is wrong with a request to build, link or compile. -/
inductive ConfigIssue
  | outsideTopology (kind : Kind) (topology : Topology)
  | repeatedField (kind : Kind) (field : String)
  | emptyField (kind : Kind) (field : String)
  | uncountedFields (kind : Kind)
  | uncountedLink (relation : Relation)
  | missingAdjacency (relation : Relation)
  | absentKind (kind : Kind)
  | missingPatches (kind : Kind)
  | emptyPath (start : Kind)
  | unknownBinding (region : String) (binding : Nat)
  | farOverwrite (region field : String) (kind visited : Kind)
  | stated (text : String)
  deriving DecidableEq, Repr

/-- Why tables of slots and identities are no permutation. -/
inductive PermutationIssue
  | outOfRange (identity : Identity) (size : Nat)
  | repeated (identity : Identity) (first : Slot) (second : Nat)
  | sizes (forward inverse : Nat)
  | notInverted (identity : Nat) (slot : Slot)
  | stated (text : String)
  deriving DecidableEq, Repr

/-- Why patches have no slot ranges, or not the one asked for. -/
inductive PatchIssue
  | split (kind : Kind) (patch : Patch) (slot : Nat)
  | coverage (kind : Kind) (covered size : Nat)
  | scattered (kind : Kind)
  | absent (kind : Kind) (patch : Patch)
  | stated (text : String)
  deriving DecidableEq, Repr

inductive StagingIssue
  | overwritten
  | aliased
  | stated (text : String)
  deriving DecidableEq, Repr

inductive FrozenAction
  | placeFields
  | linkRelations
  | stated (text : String)
  deriving DecidableEq, Repr

inductive Subject
  | identity
  | slot
  | columnEnd
  | field (name : String)
  | component (field : String)
  | identityOf (kind : Kind)
  | sourceSlot (relation : Relation)
  | stated (text : String)
  deriving DecidableEq, Repr

inductive Error
  | schema (issue : SchemaIssue)
  | config (issue : ConfigIssue)
  | unlinked (relation : Relation)
  | unknownField (owner field : String)
  | unsupportedStaging (field : String) (issue : StagingIssue)
  | frozen (action : FrozenAction)
  | scalarMismatch (field : String) (expected found : Scalar)
  | valueCount (field : String) (expected found : Nat)
  | outOfRange (subject : Subject) (index size : Nat)
  | permutation (issue : PermutationIssue)
  | patches (issue : PatchIssue)
  deriving DecidableEq, Repr

def SchemaIssue.message : SchemaIssue → String
  | offsetCount found expected => s!"offsets has {found} entries, expected {expected}"
  | firstOffset found => s!"offsets must start at 0, found {found}"
  | fallingOffset row offset next => s!"offsets decrease at row {row} ({offset} > {next})"
  | neighborCount found expected => s!"neighbor list has {found} entries, offsets end at {expected}"
  | neighborRange neighbor targets => s!"neighbor id {neighbor} out of range for {targets} targets"
  | shape relation rows targets sources sinks =>
    s!"relation {relation}: adjacency is {rows}x{targets}, permutations are {sources}x{sinks}"
  | rowCount relation rows sources => s!"relation {relation}: {rows} rows for {sources} sources"
  | uncounted kind => s!"no element count declared for {kind}"
  | ofRelation relation issue => s!"relation {relation}: {issue.message}"
  | repeatedRelation relation => s!"relation {relation} given twice"
  | patchCount kind found expected =>
    s!"patch array for {kind} has {found} entries, expected {expected}"
  | uncountedPatches kind => s!"patch array given for {kind} without an element count"
  | stated text => text

def ConfigIssue.message : ConfigIssue → String
  | outsideTopology kind topology => s!"{kind} is not an element kind of a {topology} mesh"
  | repeatedField kind field => s!"{kind}: field `{field}` declared twice"
  | emptyField kind field => s!"{kind}: field `{field}` has zero components"
  | uncountedFields kind => s!"fields placed on {kind}, but the metadata has no {kind}"
  | uncountedLink relation =>
    s!"cannot link {relation}: the metadata lacks one of its element kinds"
  | missingAdjacency relation => s!"cannot link {relation}: no adjacency in either direction"
  | absentKind kind => s!"instance has no {kind}"
  | missingPatches kind => s!"no patch information for {kind}"
  | emptyPath start => s!"traversal from {start} names no relation"
  | unknownBinding region binding => s!"{region}: local cache names unknown binding {binding}"
  | farOverwrite region field kind visited =>
    s!"{region}: `{field}` on {kind} cannot be overwritten from a loop over {visited}; "
      ++ "accumulate instead"
  | stated text => text

def PermutationIssue.message : PermutationIssue → String
  | outOfRange identity size => s!"identity {identity} out of range for {size} elements"
  | repeated identity first second => s!"identity {identity} placed in slots {first} and {second}"
  | sizes forward inverse => s!"forward table has {forward} entries, inverse has {inverse}"
  | notInverted identity slot => s!"identity {identity} -> slot {slot} is not inverted"
  | stated text => text

def PatchIssue.message : PatchIssue → String
  | split kind patch slot => s!"{kind}: patch {patch} is split (resumes at slot {slot})"
  | coverage kind covered size => s!"{kind}: ranges cover {covered} of {size} slots"
  | scattered kind => s!"{kind}: storage is not patch-contiguous"
  | absent kind patch => s!"{kind}: no element belongs to patch {patch}"
  | stated text => text

def StagingIssue.message : StagingIssue → String
  | overwritten => "overwrites are not accumulations"
  | aliased => "field is also bound through another access"
  | stated text => text

def FrozenAction.message : FrozenAction → String
  | placeFields => "place fields"
  | linkRelations => "link relations"
  | stated text => text

def Subject.message : Subject → String
  | identity => "identity"
  | slot => "slot"
  | columnEnd => "column range end"
  | field name => s!"field `{name}`"
  | component name => s!"component of `{name}`"
  | identityOf kind => s!"{kind} identity"
  | sourceSlot relation => s!"{relation} source slot"
  | stated text => text

def Error.message : Error → String
  | schema issue => s!"Schema error: {issue.message}"
  | config issue => s!"Configuration error: {issue.message}"
  | unlinked relation => s!"Relation {relation} was not linked at build time"
  | unknownField owner field => s!"Unknown field `{field}` on {owner}"
  | unsupportedStaging field issue => s!"Field `{field}` cannot be locally cached: {issue.message}"
  | frozen action => s!"Mesh builder is frozen: cannot {action.message} after build"
  | scalarMismatch field expected found =>
    s!"Field `{field}` holds {expected} values, accessed as {found}"
  | valueCount field expected found => s!"Field `{field}` expects {expected} values, got {found}"
  | outOfRange subject index size =>
    s!"Index {index} out of range for {subject.message} (len {size})"
  | permutation issue => s!"Invalid permutation: {issue.message}"
  | patches issue => s!"Patch layout error: {issue.message}"

inductive Fault
  | outOfBounds
  | outOfMemory
  | overflow
  | mistyped
  | notWritable (field : String)
  | notAccumulable (field : String)
  | componentRange (component : Nat) (field : String)
  | identityOnly (field : String)
  | missingPatches (kind : Kind)
  | brokenInvariant (error : Error)
  deriving DecidableEq, Repr

def Fault.message? : Fault → Option String
  | outOfBounds | outOfMemory | overflow | mistyped | missingPatches _ => none
  | notWritable field => some s!"`{field}` is not bound for writing"
  | notAccumulable field => some s!"`{field}` is not bound for accumulation"
  | componentRange component field => some s!"component {component} out of range for `{field}`"
  | identityOnly field =>
    some s!"`{field}` does not belong to this instance and is addressed by identity only"
  | brokenInvariant error => some s!"[invariants] structure invariants: {error.message}"

inductive Failure
  | refused (error : Error)
  | broken (fault : Fault)
  deriving DecidableEq, Repr

/-- A computation that may only be refused. -/
abbrev Checked := Except Error

/-- A computation that may be refused or meet a fault. -/
abbrev Outcome := Except Failure

namespace Checked

def require (condition : Prop) [Decidable condition] (error : Error) : Checked Unit :=
  if condition then .ok () else .error error

@[simp] theorem require_eq_ok {condition : Prop} [Decidable condition] {error : Error} :
    require condition error = .ok () ↔ condition := by
  unfold require
  split <;> simp_all

section Steps

variable {σ α β : Type}

/-- Goes on with what was found. If it was not found, the state is left as it is by then. -/
def orLeave (found : Checked α) (state : σ) (next : α → σ × Checked β) : σ × Checked β :=
  match found with
  | .ok a => next a
  | .error error => (state, .error error)

@[simp] theorem orLeave_ok (a : α) (state : σ) (next : α → σ × Checked β) :
    orLeave (.ok a) state next = next a := rfl

@[simp] theorem orLeave_error (error : Error) (state : σ) (next : α → σ × Checked β) :
    orLeave (.error error) state next = (state, .error error) := rfl

def granted (step : σ × Checked α) : Checked (σ × α) := step.2.map (step.1, ·)

def after (step : σ × Checked Unit) : Checked σ := step.2.map fun _ => step.1

@[simp] theorem after_eq_ok {step : σ × Checked Unit} {state : σ} :
    after step = .ok state ↔ step = (state, .ok ()) := by
  obtain ⟨left, result⟩ := step
  cases result <;> simp [after, Except.map]

@[simp] theorem granted_eq_ok {step : σ × Checked α} {state : σ} {a : α} :
    granted step = .ok (state, a) ↔ step = (state, .ok a) := by
  obtain ⟨left, result⟩ := step
  cases result <;> simp [granted, Except.map]

end Steps

end Checked

namespace Outcome

variable {α : Type}

def refuse (error : Error) : Outcome α := .error (.refused error)

def fault (fault : Fault) : Outcome α := .error (.broken fault)

/-- A number that counts or indexes something; a larger one is a fault. -/
def index (n : Nat) : Outcome Nat := if n < indexLimit then .ok n else fault .overflow

/-- A look-up that its caller promises to succeed. -/
def ofLookup : Option α → Outcome α
  | some a => .ok a
  | none => fault .outOfBounds

def ofChecked : Checked α → Outcome α
  | .ok a => .ok a
  | .error error => refuse error

/-- A check after a construction: a refusal here means that the construction is at fault. -/
def assert : Outcome Unit → Outcome Unit
  | .error (.refused error) => fault (.brokenInvariant error)
  | outcome => outcome

instance : MonadLift Checked Outcome := ⟨ofChecked⟩

end Outcome

end MeshLayout
