import MeshLayout.Proofs.Loading

/-!
# Fields as grids of values

A field is a grid: it gives each component of each of its elements a value, zero at first, and
after that what was stored there last. Each call reads or stores whole elements, or all of them,
and a call that fails stores nothing. Of several faults in a call the first of type, element, and
component or number of values is the one that is named.
-/

set_option autoImplicit false

namespace MeshLayout

namespace Cells

variable {α : Type} {cells : Array α} {components size : Nat} {value : Nat → Nat → α}

def Shows (components size : Nat) (cells : Array α) (value : Nat → Nat → α) : Prop :=
  ∀ i < size, ∀ c < components, cells[i * components + c]? = some (value i c)

theorem Shows.element_eq (h : Shows components size cells value)
    (hcells : cells.size = size * components) {index : Nat} (hindex : index < size) :
    cells.extract (index * components) (index * components + components) =
      Array.ofFn fun c : Fin components => value index c := by
  have hend : (index + 1) * components ≤ size * components := Nat.mul_le_mul_right _ hindex
  rw [Nat.succ_mul] at hend
  exact extract_eq_ofFn (by omega) (h index hindex)

theorem Shows.snapshot_eq (h : Shows components size cells value)
    (hcells : cells.size = size * components) :
    cells = Array.ofFn fun number : Fin (size * components) =>
      value (number / components) (number % components) := by
  apply Array.ext_getElem?
  intro i
  rw [Array.getElem?_ofFn]
  by_cases hi : i < size * components
  · have hpos := components_pos hi
    have hthere := h _ ((Nat.div_lt_iff_lt_mul hpos).mpr hi) _ (Nat.mod_lt i hpos)
    rw [Nat.div_add_mod'] at hthere
    rw [dif_pos hi, hthere]
  · rw [dif_neg hi, Array.getElem?_eq_none (by omega)]

end Cells

namespace Checked

variable {condition : Prop} [Decidable condition] {objection error : Error}

theorem require_eq_error : require condition objection = .error error ↔
    (if condition then none else some objection) = some error := by
  unfold require
  split <;> simp

theorem holds_of_none (h : (if condition then none else some objection) = none) : condition := by
  split at h
  · assumption
  · cases h

end Checked

namespace Field

def declaration (field : Field) : Declaration := ⟨field.name, field.type⟩

inductive Request (scalar : Scalar)
  | get (index component : Nat)
  | element (index : Nat)
  | snapshot
  | set (index : Nat) (values : Array scalar.Carrier)
  | fill (value : scalar.Carrier)
  | load (values : Array scalar.Carrier)

structure Call where
  scalar : Scalar
  request : Request scalar

def step (field : Field) (call : Call) : Field × Outcome FieldSet.Answer :=
  match call.request with
  | .get index component =>
    (field, (field.get call.scalar index component).map (.value call.scalar))
  | .element index =>
    (field, Outcome.ofChecked ((field.element call.scalar index).map (.values call.scalar)))
  | .snapshot => (field, Outcome.ofChecked ((field.values call.scalar).map (.values call.scalar)))
  | .set index values => answered (field.setInPlace call.scalar index values)
  | .fill value => answered (field.fillInPlace call.scalar value)
  | .load values => answered (field.loadInPlace call.scalar values)
where
  answered (step : Field × Checked Unit) : Field × Outcome FieldSet.Answer :=
    (step.1, Outcome.ofChecked (step.2.map fun _ => .done))

def after : Field → List Call → Field
  | field, [] => field
  | field, call :: rest => (field.step call).1.after rest

namespace Request

variable {scalar : Scalar}

def elementError? (name : String) (size : Nat) : Request scalar → Option Error
  | get index _ | element index | set index _ =>
    if index < size then none else some (.outOfRange (.field name) index size)
  | snapshot | fill _ | load _ => none

def partError? (declaration : Declaration) (size : Nat) : Request scalar → Option Error
  | get _ component =>
    if component < declaration.type.components then none
    else some (.outOfRange (.component declaration.name) component declaration.type.components)
  | set _ values =>
    if values.size = declaration.type.components then none
    else some (.valueCount declaration.name declaration.type.components values.size)
  | load values => FieldSet.miscount? declaration.name declaration.type size values.size
  | element _ | snapshot | fill _ => none

def stored? (components : Nat) : Request scalar → Nat → Nat → Option scalar.Carrier
  | set index values => fun i c => if i = index then values[c]? else none
  | fill value => fun _ _ => some value
  | load values => fun i c => values[i * components + c]?
  | get .. | element _ | snapshot => fun _ _ => none

def put (components : Nat) (request : Request scalar) (value : Nat → Nat → scalar.Carrier)
    (i c : Nat) : scalar.Carrier :=
  (request.stored? components i c).getD (value i c)

def answer (components size : Nat) (value : Nat → Nat → scalar.Carrier) :
    Request scalar → FieldSet.Answer
  | get index component => .value scalar (value index component)
  | element index => .values scalar (Array.ofFn fun c : Fin components => value index c)
  | snapshot => .values scalar (Array.ofFn fun number : Fin (size * components) =>
      value (number / components) (number % components))
  | set .. | fill _ | load _ => .done

end Request

namespace Call

/-- The first objection of a field to a call: to its type, then to the element, then to the rest. -/
def error? (declaration : Declaration) (size : Nat) (call : Call) : Option Error :=
  (FieldSet.mismatch? declaration.name declaration.type call.scalar).or
    ((call.request.elementError? declaration.name size).or
      (call.request.partError? declaration size))

def as? (call : Call) (scalar : Scalar) : Option (Request scalar) :=
  if h : call.scalar = scalar then some (h ▸ call.request) else none

def stored? (declaration : Declaration) (size : Nat) (call : Call) (i c : Nat) :
    Option declaration.type.scalar.Carrier :=
  match call.error? declaration size with
  | some _ => none
  | none => do (← call.as? declaration.type.scalar).stored? declaration.type.components i c

end Call

/-- The value that was stored last at a place of a field that began with zeros. -/
def latest (declaration : Declaration) (size : Nat) (past : List Call) (i c : Nat) :
    declaration.type.scalar.Carrier :=
  (past.reverse.findSome? fun call => call.stored? declaration size i c).getD
    declaration.type.scalar.zero

/-- The field is as declared and its cells are the values of a grid. -/
def Holds (field : Field) (declaration : Declaration) (size : Nat)
    (value : Nat → Nat → declaration.type.scalar.Carrier) : Prop :=
  ∃ cells, ∃ hcells : cells.size = size * declaration.type.components,
    field = ⟨declaration.name, declaration.type, size, cells, hcells⟩ ∧
      Cells.Shows declaration.type.components size cells value

section Step

variable {field : Field} {error : Error}

theorem step_mistyped {call : Call} (h : field.type.scalar ≠ call.scalar) : field.step call =
    (field, .error (.refused (.scalarMismatch field.name field.type.scalar call.scalar))) := by
  obtain ⟨scalar, request⟩ := call
  have hvalues := values_of_ne h
  cases request with
  | get index component =>
    simp only [step, get, hvalues]
    rfl
  | element index =>
    simp only [step, element, hvalues]
    rfl
  | snapshot =>
    simp only [step, hvalues]
    rfl
  | set index values =>
    simp only [step, setInPlace, hvalues]
    rfl
  | fill value =>
    simp only [step, fillInPlace, hvalues]
    rfl
  | load values =>
    simp only [step, loadInPlace, hvalues]
    rfl

variable {request : Request field.type.scalar}

theorem step_beyond (h : request.elementError? field.name field.size = some error) :
    field.step ⟨field.type.scalar, request⟩ = (field, .error (.refused error)) := by
  cases request with
  | get index component =>
    have hcheck : field.checkIndex index = .error error := Checked.require_eq_error.mpr h
    simp only [step, get, field.values_eq, hcheck]
    rfl
  | element index =>
    have hcheck : field.checkIndex index = .error error := Checked.require_eq_error.mpr h
    simp only [step, element, field.values_eq, hcheck]
    rfl
  | set index values =>
    have hcheck : field.checkIndex index = .error error := Checked.require_eq_error.mpr h
    simp only [step, setInPlace, field.values_eq, hcheck]
    rfl
  | snapshot | fill value | load values => cases h

theorem step_miscounted (helement : request.elementError? field.name field.size = none)
    (h : request.partError? field.declaration field.size = some error) :
    field.step ⟨field.type.scalar, request⟩ = (field, .error (.refused error)) := by
  cases request with
  | get index component =>
    have hindex : field.checkIndex index = .ok () :=
      Checked.require_of _ (Checked.holds_of_none helement)
    have hcheck : Checked.require (component < field.components)
        (.outOfRange (.component field.name) component field.components) = .error error :=
      Checked.require_eq_error.mpr h
    simp only [step, get, field.values_eq, hindex, hcheck]
    rfl
  | set index values =>
    have hindex : field.checkIndex index = .ok () :=
      Checked.require_of _ (Checked.holds_of_none helement)
    have hcheck : Checked.require (values.size = field.components)
        (.valueCount field.name field.components values.size) = .error error :=
      Checked.require_eq_error.mpr h
    simp only [step, setInPlace, field.values_eq, hindex, hcheck]
    rfl
  | load values =>
    have hcheck : Checked.require (values.size = field.cells.size)
        (.valueCount field.name field.cells.size values.size) = .error error := by
      rw [field.cells_size]
      exact Checked.require_eq_error.mpr h
    simp only [step, loadInPlace, field.values_eq, Checked.orLeave_ok, hcheck]
    rfl
  | element index | snapshot | fill value => cases h

/-- A call to which a field has no objection is answered from its grid, and leaves the field with
the values that are stored. -/
theorem step_granted {value : Nat → Nat → field.type.scalar.Carrier}
    (hroom : field.cells.size < indexLimit)
    (hshows : Cells.Shows field.type.components field.size field.cells value)
    (helement : request.elementError? field.name field.size = none)
    (hpart : request.partError? field.declaration field.size = none) :
    ∃ cells hcells, field.step ⟨field.type.scalar, request⟩ = (field.withCells cells hcells,
        .ok (request.answer field.type.components field.size value)) ∧
      Cells.Shows field.type.components field.size cells
        (request.put field.type.components value) := by
  cases request with
  | get index component =>
    have hindex : index < field.size := Checked.holds_of_none helement
    have hcomponent : component < field.type.components := Checked.holds_of_none hpart
    refine ⟨field.cells, field.cells_size, ?_, hshows⟩
    simp only [step, get_eq hindex hcomponent (hshows index hindex component hcomponent)]
    rfl
  | element index =>
    have hindex : index < field.size := Checked.holds_of_none helement
    refine ⟨field.cells, field.cells_size, ?_, hshows⟩
    simp only [step, element_eq hroom hindex, hshows.element_eq field.cells_size hindex]
    rfl
  | snapshot =>
    refine ⟨field.cells, field.cells_size, ?_, hshows⟩
    simp only [step, field.values_eq, Request.answer, ← hshows.snapshot_eq field.cells_size]
    rfl
  | set index values =>
    have hindex : index < field.size := Checked.holds_of_none helement
    have hvalues : values.size = field.type.components := Checked.holds_of_none hpart
    have hcells : (Cells.overwrite values.toList (index * field.type.components) field.cells).size =
        field.size * field.type.components := by
      rw [Cells.overwrite_size, field.cells_size]
    refine ⟨_, hcells, ?_, fun i hi c hc => ?_⟩
    · simp only [step, setInPlace_eq hroom hindex hvalues, withColumn_eq _ hcells]
      rfl
    · rw [Cells.overwrite_part (by simpa using hvalues) (end_le hindex) _ hc, Array.getElem?_toList]
      simp only [Request.put, Request.stored?]
      by_cases hsame : i = index
      · rw [if_pos hsame, if_pos hsame, Array.getElem?_eq_getElem (by omega), Option.getD_some]
      · rw [if_neg hsame, if_neg hsame, Option.getD_none, hshows i hi c hc]
  | fill filler =>
    have hcells : (Array.replicate field.cells.size filler).size =
        field.size * field.type.components := by
      rw [Array.size_replicate, field.cells_size]
    refine ⟨_, hcells, ?_, fun i hi c hc => ?_⟩
    · simp only [step, fillInPlace_eq, Column.filled, withColumn_eq _ hcells]
      rfl
    · have hlt := Cells.number_lt hi hc
      rw [Array.getElem?_replicate, if_pos (by rw [field.cells_size]; exact hlt)]
      rfl
  | load values =>
    have hvalues : values.size = field.size * field.type.components :=
      FieldSet.miscount?_eq_none.mp hpart
    refine ⟨values, hvalues, ?_, fun i hi c hc => ?_⟩
    · have hsize : values.size = field.cells.size := by rw [hvalues, field.cells_size]
      simp only [step, loadInPlace_eq hroom hsize, withColumn_eq _ hvalues]
      rfl
    · have hlt := Cells.number_lt hi hc
      simp only [Request.put, Request.stored?]
      rw [Array.getElem?_eq_getElem (by omega), Option.getD_some]

end Step

section Calls

variable {declaration : Declaration} {size : Nat} {call : Call}

theorem Call.as?_mk (scalar : Scalar) (request : Request scalar) :
    (⟨scalar, request⟩ : Call).as? scalar = some request := dif_pos rfl

theorem Call.error?_eq_none {declaration : Declaration} {size : Nat} {call : Call}
    (h : call.error? declaration size = none) :
    ∃ request, call = ⟨declaration.type.scalar, request⟩ ∧
      request.elementError? declaration.name size = none ∧
      request.partError? declaration size = none := by
  obtain ⟨scalar, request⟩ := call
  obtain ⟨htype, hrest⟩ := Option.or_eq_none_iff.mp h
  obtain rfl : declaration.type.scalar = scalar := FieldSet.mismatch?_eq_none.mp htype
  exact ⟨request, rfl, Option.or_eq_none_iff.mp hrest⟩

namespace Holds

variable {field : Field} {value : Nat → Nat → declaration.type.scalar.Carrier}
  (h : field.Holds declaration size value)
include h

theorem refused {error : Error} (herror : call.error? declaration size = some error) :
    field.step call = (field, .error (.refused error)) := by
  obtain ⟨cells, hcells, rfl, -⟩ := h
  obtain ⟨scalar, request⟩ := call
  by_cases htype : declaration.type.scalar = scalar
  · subst htype
    rw [Call.error?, FieldSet.mismatch?_eq_none.mpr rfl, Option.none_or] at herror
    rcases Option.or_eq_some_iff.mp herror with helement | ⟨helement, hpart⟩
    · exact step_beyond helement
    · exact step_miscounted helement hpart
  · rw [Call.error?, FieldSet.mismatch?, if_neg htype, Option.some_or] at herror
    cases herror
    exact step_mistyped htype

variable (room : size * declaration.type.components < indexLimit)
include room

theorem granted (hnone : call.error? declaration size = none) :
    ∃ request, call.as? declaration.type.scalar = some request ∧
      (field.step call).2 = .ok (request.answer declaration.type.components size value) ∧
      (field.step call).1.Holds declaration size
        (request.put declaration.type.components value) := by
  obtain ⟨cells, hcells, rfl, hshows⟩ := h
  obtain ⟨request, rfl, helement, hpart⟩ := Call.error?_eq_none hnone
  have hroom : cells.size < indexLimit := hcells ▸ room
  obtain ⟨stored, hstored, hstep, hafter⟩ :=
    @step_granted ⟨declaration.name, declaration.type, size, cells, hcells⟩ request value
      hroom hshows helement hpart
  refine ⟨request, Call.as?_mk _ _, congrArg Prod.snd hstep, stored, hstored, ?_, hafter⟩
  exact congrArg Prod.fst hstep

theorem step (call : Call) : (field.step call).1.Holds declaration size fun i c =>
    (call.stored? declaration size i c).getD (value i c) := by
  cases herror : call.error? declaration size with
  | some error =>
    simp only [h.refused herror, Call.stored?, herror]
    exact h
  | none =>
    obtain ⟨request, has, -, hafter⟩ := h.granted room herror
    simp only [Call.stored?, herror, has]
    exact hafter

theorem after (past : List Call) : (field.after past).Holds declaration size fun i c =>
    (past.reverse.findSome? fun call => call.stored? declaration size i c).getD (value i c) := by
  induction past generalizing field value with
  | nil => exact h
  | cons call rest ih =>
    have hrest := ih (h.step room call)
    simp only [List.reverse_cons, List.findSome?_append, List.findSome?_singleton, Option.getD_or]
    exact hrest

end Holds

theorem zeroed_holds (declaration : Declaration) (size : Nat) :
    (zeroed declaration size).Holds declaration size fun _ _ => declaration.type.scalar.zero := by
  refine ⟨_, (zeroed declaration size).cells_size, rfl, fun i hi c hc => ?_⟩
  exact Array.getElem?_replicate.trans (if_pos (Cells.number_lt hi hc))

end Calls

/-- Whatever calls were made before, the values of a field are those that were stored last. The next
call fails exactly if there is an objection to it, with the first one, and never meets a fault; the
field is left then. Otherwise it is answered from the values that were stored last, and a place
keeps its value unless the call stores another one there. -/
theorem calls_keep_grid (declaration : Declaration) (size : Nat)
    (room : size * declaration.type.components < indexLimit) (past : List Call) :
    let now := (zeroed declaration size).after past
    let value := latest declaration size past
    now.Holds declaration size value ∧ ∀ call : Call,
      (∀ failure, (now.step call).2 = .error failure ↔
        ∃ error, failure = .refused error ∧ call.error? declaration size = some error) ∧
      (∀ failure, (now.step call).2 = .error failure → (now.step call).1 = now) ∧
      (call.error? declaration size = none →
        ∃ request, call.as? declaration.type.scalar = some request ∧
          (now.step call).2 = .ok (request.answer declaration.type.components size value) ∧
          (now.step call).1.Holds declaration size
            (request.put declaration.type.components value)) := by
  intro now value
  have hholds : now.Holds declaration size value :=
    (zeroed_holds declaration size).after room past
  refine ⟨hholds, fun call => ?_⟩
  cases herror : call.error? declaration size with
  | some error =>
    have hstep := hholds.refused herror
    refine ⟨fun failure => ⟨fun h => ?_, ?_⟩, fun _ _ => by rw [hstep], fun h => nomatch h⟩
    · rw [hstep] at h
      cases h
      exact ⟨error, rfl, rfl⟩
    · rintro ⟨_, rfl, h⟩
      cases h
      rw [hstep]
  | none =>
    obtain ⟨request, has, hanswer, hafter⟩ := hholds.granted room herror
    have hok : ∀ failure, (now.step call).2 ≠ .error failure := by
      intro failure h
      rw [hanswer] at h
      cases h
    refine ⟨fun failure => ⟨fun h => absurd h (hok failure), ?_⟩,
      fun failure h => absurd h (hok failure), fun _ => ⟨request, has, hanswer, hafter⟩⟩
    rintro ⟨_, -, h⟩
    cases h

theorem calls_keep_grid_pairs :
    let pairs : Declaration := ⟨"pairs", ⟨.i32, 2⟩⟩
    let past : List Call := [⟨.i32, .fill (7 : Int32)⟩, ⟨.i32, .set 1 (#[1, 2] : Array Int32)⟩,
      ⟨.i32, .set 2 (#[3, 4] : Array Int32)⟩, ⟨.i32, .load (#[5] : Array Int32)⟩]
    let now := (zeroed pairs 2).after past
    2 * pairs.type.components < indexLimit ∧
    (now.step ⟨.i32, .snapshot⟩).2 = .ok (.values .i32 (#[7, 7, 1, 2] : Array Int32)) ∧
    (now.step ⟨.u32, .get 9 9⟩).2 =
      .error (.refused (.scalarMismatch "pairs" .i32 .u32)) ∧
    (now.step ⟨.i32, .get 9 9⟩).2 =
      .error (.refused (.outOfRange (.field "pairs") 9 2)) ∧
    (now.step ⟨.i32, .get 1 9⟩).2 =
      .error (.refused (.outOfRange (.component "pairs") 9 2)) := by
  intro pairs past now
  have hroom : 2 * pairs.type.components < indexLimit := by decide
  obtain ⟨-, hnext⟩ := calls_keep_grid pairs 2 hroom past
  obtain ⟨request, has, hanswer, -⟩ := (hnext ⟨.i32, .snapshot⟩).2.2 (by decide)
  cases has
  refine ⟨hroom, hanswer.trans ?_, ?_, ?_, ?_⟩
  · exact congrArg (Except.ok ∘ FieldSet.Answer.values .i32) (by decide)
  · exact ((hnext _).1 _).mpr ⟨_, rfl, by decide⟩
  · exact ((hnext _).1 _).mpr ⟨_, rfl, by decide⟩
  · exact ((hnext _).1 _).mpr ⟨_, rfl, by decide⟩

end Field

end MeshLayout
