import MeshLayout.Proofs.Kernel.Declare
import MeshLayout.Proofs.Kernel.Logged

/-!
# Handles of a kernel

A kernel is declared by calls, some of which may fail. Each call that does not fail adds one
relation, one binding or one request to be staged, and those that were added before keep their
numbers. So the lists of a draft are read off the log of the calls, and a handle stands for what
its own call has added, whatever was called before and after it.
-/

set_option autoImplicit false

namespace MeshLayout

def Workspace.kind? (workspace : Workspace) : Location → Option Kind
  | .ofMesh _ kind _ => some kind
  | .ofLoose position => workspace.loose[position]?.map LooseField.kind

theorem Workspace.kind?_withColumn (workspace : Workspace) (location : Location)
    (column : Column) : (workspace.withColumn location column).kind? = workspace.kind? := by
  funext other
  cases other with
  | ofMesh place kind name => rfl
  | ofLoose position =>
    cases location with
    | ofMesh place kind name => rfl
    | ofLoose own =>
      simp only [kind?, withColumn, Array.getElem?_modify]
      split <;> cases workspace.loose[position]? <;> rfl

namespace KernelDraft

/-- Where a field is that is to be bound: in the mesh of the kernel, in another mesh at a place of
the workspace, or on its own. -/
inductive Source
  | own (kind : Kind) (name : String)
  | foreign (place : Nat) (mesh : Mesh) (kind : Kind) (name : String)
  | loose (place : Nat) (loose : LooseField)

inductive Call
  | relation (relation : Relation)
  | bind (source : Source) (scalar : Scalar) (access : Access)
  | stage (binding : Nat)

/-- What a call gives. Staging gives nothing. -/
inductive Handle
  | relation (handle : RelationHandle)
  | field (scalar : Scalar) (handle : FieldHandle scalar)
  | none

abbrev Log := List (Call × Checked Handle)

namespace Source

variable {workspace : Workspace} {draft : KernelDraft} {access : Access}

def kind : Source → Kind
  | own kind _ | foreign _ _ kind _ => kind
  | loose _ given => given.kind

def There (workspace : Workspace) : Source → Prop
  | own .. => True
  | foreign place mesh _ _ => workspace.meshes[place]? = some mesh
  | loose place given => workspace.loose[place]? = some given

def target (home : Nat) (mesh : Mesh) (access : Access) : Source → Checked Binding
  | own kind name => do
    let set ← mesh.elements kind
    let field ← set.field name
    return { location := .ofMesh home kind name, field := field.name, access, type := field.type
             addressing := .own set.permutation }
  | foreign place other kind name => do
    let set ← other.elements kind
    let field ← set.field name
    return { location := .ofMesh place kind name, field := field.name, access, type := field.type
             addressing := .foreign set.permutation }
  | loose place given =>
    return { location := .ofLoose place, field := given.field.name, access
             type := given.field.type, addressing := .loose }

def bindInPlace (draft : KernelDraft) (scalar : Scalar) (access : Access) :
    Source → KernelDraft × Checked (FieldHandle scalar)
  | own kind name => draft.fieldInPlace scalar kind name access
  | foreign place mesh kind name => draft.foreignInPlace place mesh scalar kind name access
  | loose place given => draft.looseInPlace place given scalar access

theorem bindInPlace_eq (source : Source) (scalar : Scalar) :
    source.bindInPlace draft scalar access =
      (source.target draft.home draft.mesh access).orLeave draft
        (draft.bindInPlace scalar source.kind) := by
  cases source with
  | own kind name =>
    simp only [bindInPlace, fieldInPlace, target]
    cases draft.mesh.elements kind with
    | error error => rfl
    | ok set =>
      simp only [ok_bind, Checked.orLeave_ok]
      cases set.field name <;> rfl
  | foreign place mesh kind name =>
    simp only [bindInPlace, foreignInPlace, target]
    cases mesh.elements kind with
    | error error => rfl
    | ok set =>
      simp only [ok_bind, Checked.orLeave_ok]
      cases set.field name <;> rfl
  | loose place given => rfl

theorem target_access {source : Source} {home : Nat} {mesh : Mesh} {binding : Binding}
    (h : source.target home mesh access = .ok binding) : binding.access = access := by
  cases source with
  | own kind name | foreign place other kind name =>
    obtain ⟨set, -, h⟩ := bind_eq_ok.mp h
    obtain ⟨field, -, h⟩ := bind_eq_ok.mp h
    cases h
    rfl
  | loose place given =>
    cases h
    rfl

theorem target_kind {source : Source} {home : Nat} {mesh : Mesh} {binding : Binding}
    (h : source.target home mesh access = .ok binding) (there : source.There workspace) :
    workspace.kind? binding.location = some source.kind := by
  cases source with
  | own kind name | foreign place other kind name =>
    obtain ⟨set, -, h⟩ := bind_eq_ok.mp h
    obtain ⟨field, -, h⟩ := bind_eq_ok.mp h
    cases h
    rfl
  | loose place given =>
    cases h
    exact congrArg (Option.map LooseField.kind) there

end Source

def Call.There (workspace : Workspace) : Call → Prop
  | .bind source .. => source.There workspace
  | .relation _ | .stage _ => True

def step (draft : KernelDraft) : Call → KernelDraft × Checked Handle
  | .relation relation =>
    let (next, result) := draft.relationInPlace relation
    (next, result.map .relation)
  | .bind source scalar access =>
    let (next, result) := source.bindInPlace draft scalar access
    (next, result.map (.field scalar))
  | .stage binding => (draft.stage binding, .ok .none)

/-- The logs of the drafts that come about against a workspace. Fields may be given other values
between two calls. -/
inductive Logged : Workspace → KernelDraft → Log → Prop
  | start {workspace : Workspace} {name : String} {home : Nat} {mesh : Mesh} {kind : Kind}
      {draft : KernelDraft} (made : workspace.Made) (there : workspace.meshes[home]? = some mesh)
      (started : start name home mesh kind = .ok draft) : Logged workspace draft []
  | call {workspace : Workspace} {draft : KernelDraft} {log : Log}
      (logged : Logged workspace draft log) (call : Call) (there : call.There workspace) :
      Logged workspace (draft.step call).1 (log ++ [(call, (draft.step call).2)])
  | store {workspace : Workspace} {draft : KernelDraft} {log : Log}
      (logged : Logged workspace draft log) (location : Location) (column : Column) :
      Logged (workspace.withColumn location column) draft log

inductive Stepped (draft : KernelDraft) : Call → KernelDraft × Checked Handle → Prop
  | relation {relation : Relation} {incidence : Incidence}
      (found : draft.mesh.incidence relation = .ok incidence) :
      Stepped draft (.relation relation)
        ({ draft with incidences := draft.incidences.push incidence },
          .ok (.relation ⟨draft.incidences.size, incidence.relation⟩))
  | bind {source : Source} {scalar : Scalar} {access : Access} {binding : Binding}
      (found : source.target draft.home draft.mesh access = .ok binding)
      (typed : binding.type.scalar = scalar) (near : access = .write → source.kind = draft.kind) :
      Stepped draft (.bind source scalar access)
        ({ draft with bindings := draft.bindings.push binding },
          .ok (.field scalar ⟨draft.bindings.size⟩))
  | stage (binding : Nat) : Stepped draft (.stage binding) (draft.stage binding, .ok .none)
  | failed (call : Call) (error : Error) : Stepped draft call (draft, .error error)

theorem step_stepped (draft : KernelDraft) (call : Call) :
    draft.Stepped call (draft.step call) := by
  cases call with
  | relation relation =>
    simp only [step, relationInPlace]
    cases hfound : draft.mesh.incidence relation with
    | error error => exact .failed _ error
    | ok incidence => exact .relation hfound
  | bind source scalar access =>
    simp only [step, Source.bindInPlace_eq]
    cases hfound : source.target draft.home draft.mesh access with
    | error error => exact .failed _ error
    | ok binding =>
      have haccess := Source.target_access hfound
      simp only [Checked.orLeave_ok, bindInPlace, Checked.require]
      by_cases htyped : binding.type.scalar = scalar
      · by_cases hnear : binding.access = .write ∧ source.kind ≠ draft.kind
        · rw [if_pos htyped, if_neg (not_not.mpr hnear)]
          exact .failed _ _
        · rw [if_pos htyped, if_pos hnear]
          exact .bind hfound htyped fun h =>
            Decidable.byContradiction fun hne => hnear ⟨haccess.trans h, hne⟩
      · rw [if_neg htyped]
        exact .failed _ _
  | stage binding => exact .stage binding

theorem step_refused {draft : KernelDraft} {call : Call} {error : Error}
    (h : (draft.step call).2 = .error error) :
    (draft.step call).1 = draft := by
  have hstep := draft.step_stepped call
  generalize draft.step call = after at hstep h
  cases hstep with
  | failed call error => rfl
  | relation found => cases h
  | bind found typed near => cases h
  | stage binding => cases h

section Record

def bindingOf? (home : Nat) (mesh : Mesh) : Call × Checked Handle → Option Binding
  | (.bind source _ access, .ok _) => (source.target home mesh access).toOption
  | _ => none

def incidenceOf? (mesh : Mesh) : Call × Checked Handle → Option Incidence
  | (.relation relation, .ok _) => (mesh.incidence relation).toOption
  | _ => none

def requestOf? : Call × Checked Handle → Option Nat
  | (.stage binding, .ok _) => some binding
  | _ => none

def bindingsOf (draft : KernelDraft) (log : Log) : List Binding :=
  log.filterMap (bindingOf? draft.home draft.mesh)

def incidencesOf (draft : KernelDraft) (log : Log) : List Incidence :=
  log.filterMap (incidenceOf? draft.mesh)

/-- The handle that a call gives after the calls of a log has the number of what it adds. -/
inductive Grants (draft : KernelDraft) (before : Log) : Call → Handle → Prop
  | relation {relation : Relation} {incidence : Incidence}
      (found : draft.mesh.incidence relation = .ok incidence) :
      Grants draft before (.relation relation)
        (.relation ⟨(draft.incidencesOf before).length, incidence.relation⟩)
  | bind {source : Source} {scalar : Scalar} {access : Access} {binding : Binding}
      (found : source.target draft.home draft.mesh access = .ok binding)
      (typed : binding.type.scalar = scalar) (near : access = .write → source.kind = draft.kind) :
      Grants draft before (.bind source scalar access)
        (.field scalar ⟨(draft.bindingsOf before).length⟩)
  | stage (binding : Nat) : Grants draft before (.stage binding) .none

/-- A draft is what the calls of its log have added, and no more. -/
structure Recorded (draft : KernelDraft) (log : Log) : Prop where
  incidences : draft.incidences.toList = draft.incidencesOf log
  bindings : draft.bindings.toList = draft.bindingsOf log
  requested : draft.requested = log.filterMap requestOf?
  granted : ∀ i call handle, log[i]? = some (call, .ok handle) →
    draft.Grants (log.take i) call handle

variable {draft : KernelDraft} {log : Log}

theorem Grants.congr {other : KernelDraft} {call : Call} {handle : Handle}
    (h : draft.Grants log call handle) (hhome : other.home = draft.home)
    (hmesh : other.mesh = draft.mesh) (hkind : other.kind = draft.kind) :
    other.Grants log call handle := by
  cases h with
  | relation found =>
    rw [incidencesOf, ← hmesh]
    exact .relation (hmesh ▸ found)
  | bind found typed near =>
    rw [bindingsOf, ← hhome, ← hmesh]
    exact .bind (hhome ▸ hmesh ▸ found) typed (hkind ▸ near)
  | stage binding => exact .stage binding

theorem Recorded.concat (h : draft.Recorded log) {next : KernelDraft}
    {entry : Call × Checked Handle} (hhome : next.home = draft.home)
    (hmesh : next.mesh = draft.mesh) (hkind : next.kind = draft.kind)
    (hincidences : next.incidences.toList =
      draft.incidences.toList ++ (incidenceOf? draft.mesh entry).toList)
    (hbindings : next.bindings.toList =
      draft.bindings.toList ++ (bindingOf? draft.home draft.mesh entry).toList)
    (hrequested : next.requested = draft.requested ++ (requestOf? entry).toList)
    (hgrants : ∀ handle, entry.2 = .ok handle → draft.Grants log entry.1 handle) :
    next.Recorded (log ++ [entry]) where
  incidences := by
    rw [hincidences, h.incidences, incidencesOf, incidencesOf, hmesh, filterMap_concat]
  bindings := by
    rw [hbindings, h.bindings, bindingsOf, bindingsOf, hhome, hmesh, filterMap_concat]
  requested := by rw [hrequested, h.requested, filterMap_concat]
  granted := by
    intro i call handle hentry
    have hgranted := forall_concat (P := fun before entry => ∀ handle,
      entry.2 = .ok handle → draft.Grants before entry.1 handle)
      (fun i entry hentry handle hok => h.granted i _ _ (by rw [hentry, ← hok])) hgrants i _ hentry
    exact (hgranted handle rfl).congr hhome hmesh hkind

theorem Recorded.step (h : draft.Recorded log) (call : Call) :
    (draft.step call).1.Recorded (log ++ [(call, (draft.step call).2)]) := by
  have hstep := draft.step_stepped call
  generalize draft.step call = after at hstep
  have hposition : draft.incidences.size = (draft.incidencesOf log).length := by
    rw [← h.incidences, Array.length_toList]
  have hnumber : draft.bindings.size = (draft.bindingsOf log).length := by
    rw [← h.bindings, Array.length_toList]
  cases hstep with
  | @relation relation incidence found =>
    refine h.concat rfl rfl rfl ?_ ?_ ?_ fun handle hhandle => ?_
    · simp [incidenceOf?, found, Except.toOption]
    · simp [bindingOf?]
    · simp [requestOf?]
    · cases hhandle
      rw [hposition]
      exact .relation found
  | @bind source scalar access binding found typed near =>
    refine h.concat rfl rfl rfl ?_ ?_ ?_ fun handle hhandle => ?_
    · simp [incidenceOf?]
    · simp [bindingOf?, found, Except.toOption]
    · simp [requestOf?]
    · cases hhandle
      rw [hnumber]
      exact .bind found typed near
  | stage binding =>
    refine h.concat rfl rfl rfl ?_ ?_ rfl fun handle hhandle => ?_
    · simp [incidenceOf?, KernelDraft.stage]
    · simp [bindingOf?, KernelDraft.stage]
    · cases hhandle
      exact .stage binding
  | failed call error =>
    refine h.concat rfl rfl rfl ?_ ?_ ?_ fun handle hhandle => ?_
    · cases call <;> simp [incidenceOf?]
    · cases call <;> simp [bindingOf?]
    · cases call <;> simp [requestOf?]
    · cases hhandle

end Record

namespace Logged

variable {workspace : Workspace} {draft : KernelDraft} {log : Log}

theorem recorded (h : draft.Logged workspace log) : draft.Recorded log := by
  induction h with
  | start made there started =>
    obtain ⟨set, -, heq⟩ := bind_eq_ok.mp started
    cases heq
    exact ⟨rfl, rfl, rfl, fun i call handle hentry => by simp at hentry⟩
  | call logged call there ih => exact ih.step call
  | store logged location column ih => exact ih

theorem declared_step {call : Call} (h : draft.Declared workspace) (there : call.There workspace) :
    (draft.step call).1.Declared workspace := by
  cases call with
  | relation relation =>
    rcases hadded : draft.relationInPlace relation with ⟨next, error | handle⟩
    · have hrefused : (draft.step (.relation relation)).2 = .error error := by
        simp only [step, hadded]
        rfl
      rwa [step_refused hrefused]
    · simp only [step, hadded]
      exact .relation h (Checked.granted_eq_ok.mpr hadded)
  | bind source scalar access =>
    rcases hbound : source.bindInPlace draft scalar access with ⟨next, error | handle⟩
    · have hrefused : (draft.step (.bind source scalar access)).2 = .error error := by
        simp only [step, hbound]
        rfl
      rwa [step_refused hrefused]
    · simp only [step, hbound]
      cases source with
      | own kind name => exact .field h (Checked.granted_eq_ok.mpr hbound)
      | foreign place mesh kind name => exact .foreign h there (Checked.granted_eq_ok.mpr hbound)
      | loose place given => exact .loose h there (Checked.granted_eq_ok.mpr hbound)
  | stage binding => exact .stage h binding

theorem declared (h : draft.Logged workspace log) : draft.Declared workspace := by
  induction h with
  | start made there started => exact .start made there started
  | call logged call there ih => exact declared_step ih there
  | store logged location column ih => exact .store ih location column

theorem near (h : draft.Logged workspace log) {binding : Binding}
    (hbinding : binding ∈ draft.bindings) (haccess : binding.access = .write) :
    workspace.kind? binding.location = some draft.kind := by
  induction h with
  | start made there started =>
    obtain ⟨set, -, heq⟩ := bind_eq_ok.mp started
    cases heq
    simp at hbinding
  | @call workspace draft log logged call there ih =>
    have hstep := draft.step_stepped call
    generalize draft.step call = after at hstep hbinding
    cases hstep with
    | relation found => exact ih hbinding
    | @bind source scalar access own found typed near =>
      rcases Array.mem_push.mp hbinding with hold | rfl
      · exact ih hold
      · rw [Source.target_kind found there, near ((Source.target_access found).symm.trans haccess)]
    | stage binding => exact ih hbinding
    | failed call error => exact ih hbinding
  | store logged location column ih =>
    rw [Workspace.kind?_withColumn]
    exact ih hbinding

end Logged

section Compiled

/-- A handle stands in a kernel for what its own call asked for, under the number that comes after
what the calls before have added. -/
inductive Designates (workspace : Workspace) (kernel : Kernel) (draft : KernelDraft)
    (before : Log) : Call → Handle → Prop
  | relation {relation : Relation} {incidence : Incidence}
      (found : draft.mesh.incidence relation = .ok incidence)
      (named : incidence.relation = relation)
      (there : kernel.incidences[(draft.incidencesOf before).length]? = some incidence) :
      Designates workspace kernel draft before (.relation relation)
        (.relation ⟨(draft.incidencesOf before).length, relation⟩)
  | bind {source : Source} {access : Access} {binding : Binding} {field : Field}
      (found : source.target draft.home draft.mesh access = .ok binding)
      (there : kernel.bindings[(draft.bindingsOf before).length]? = some binding)
      (asked : binding.access = access) (held : workspace.field? binding.location = some field)
      (typed : field.type = binding.type) :
      Designates workspace kernel draft before (.bind source field.type.scalar access)
        (.field field.type.scalar ⟨(draft.bindingsOf before).length⟩)
  | stage (binding : Nat) : Designates workspace kernel draft before (.stage binding) .none

variable {workspace : Workspace} {draft : KernelDraft} {log : Log} {config : Config}
  {kernel : Kernel}

theorem Logged.designates (h : draft.Logged workspace log)
    (compiled : draft.compile config = .ok kernel) {i : Nat} {call : Call} {handle : Handle}
    (hentry : log[i]? = some (call, .ok handle)) :
    Designates workspace kernel draft (log.take i) call handle := by
  obtain ⟨-, -, -, -, -, hincidences, hbindings, -⟩ := compile_eq_ok compiled
  have hbound := h.declared.bound
  have hrecorded := h.recorded
  cases hrecorded.granted i call handle hentry with
  | @relation relation incidence found =>
    obtain ⟨rfl, -⟩ := hbound.mesh_laid.incidences found
    have hthere := filterMap_take (f := incidenceOf? draft.mesh) (b := incidence) hentry
      (by simp [incidenceOf?, found, Except.toOption])
    refine .relation found rfl ?_
    rw [hincidences, ← Array.getElem?_toList, hrecorded.incidences]
    exact hthere
  | @bind source scalar access binding found typed near =>
    have hthere := filterMap_take (f := bindingOf? draft.home draft.mesh) (b := binding) hentry
      (by simp [bindingOf?, found, Except.toOption])
    have hdraft : draft.bindings[(draft.bindingsOf (log.take i)).length]? = some binding := by
      rw [← Array.getElem?_toList, hrecorded.bindings]
      exact hthere
    obtain ⟨field, hfield, htype⟩ := Option.map_eq_some_iff.mp (hbound.bindings hdraft).type
    obtain rfl : field.type.scalar = scalar := htype ▸ typed
    exact .bind found (hbindings ▸ hdraft) (Source.target_access found) hfield htype
  | stage binding => exact .stage binding

end Compiled

end KernelDraft

end MeshLayout
