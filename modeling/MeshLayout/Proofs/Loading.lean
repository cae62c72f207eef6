import MeshLayout.Proofs.Table

/-!
# What loading a buffer answers

A buffer is loaded if it is of the type of the field and holds as many values as the field. A field
that is stored in place looks at the type first, as it does for every other request; under any
other permutation the number of values is looked at first. So all permutations accept the same
buffers, but what is wrong with a buffer that fails both ways depends on the permutation.
-/

set_option autoImplicit false

namespace MeshLayout

namespace Table

def type? (table : Table) (name : String) : Option FieldType :=
  (table.sheet? name).map fun sheet => ⟨sheet.scalar, sheet.components⟩

variable {table after : Table} {name : String} {scalar : Scalar} {components : Nat}

theorem zeroed_type? (size : Nat) (declarations : List Declaration) (name : String) :
    (zeroed size declarations).type? name =
      (declarations.find? (·.name == name)).map Declaration.type := by
  rw [type?, zeroed, Option.map_map]
  rfl

theorem type?_store (h : table.type? name = some ⟨scalar, components⟩)
    (value : Identity → Nat → scalar.Carrier) (other : String) :
    (table.store name ⟨scalar, components, value⟩).type? other = table.type? other := by
  simp only [type?, store]
  by_cases hsame : other = name
  · rw [if_pos hsame, hsame]
    exact h.symm
  · rw [if_neg hsame]

theorem serve?_type? {permutation : Permutation} {value : Identity → Nat → scalar.Carrier}
    {request : FieldSet.Request scalar} {answer : FieldSet.Answer}
    (htype : table.type? name = some ⟨scalar, components⟩)
    (h : table.serve? permutation name components value request = some (after, answer))
    (other : String) : after.type? other = table.type? other := by
  cases request with
  | load buffer =>
    rw [serve?] at h
    split at h
    · cases h
      exact type?_store htype _ other
    · cases h
  | unload =>
    cases h
    rfl
  | get address =>
    obtain ⟨identity, -, h⟩ := Option.bind_eq_some_iff.mp h
    cases h
    rfl
  | getScalar address =>
    obtain ⟨identity, -, h⟩ := Option.bind_eq_some_iff.mp h
    obtain ⟨first, -, h⟩ := Option.bind_eq_some_iff.mp h
    cases h
    rfl
  | put address values =>
    obtain ⟨identity, -, h⟩ := Option.bind_eq_some_iff.mp h
    split at h
    · cases h
      exact type?_store htype _ other
    · cases h
  | fill filler =>
    cases h
    exact type?_store htype _ other

theorem grant?_type? {permutation : Permutation} {call : FieldSet.Call}
    {answer : FieldSet.Answer} (h : table.grant? permutation call = some (after, answer))
    (other : String) : after.type? other = table.type? other := by
  obtain ⟨sheet, hsheet, h⟩ := Option.bind_eq_some_iff.mp h
  obtain ⟨value, hvalue, h⟩ := Option.bind_eq_some_iff.mp h
  have hscalar : sheet.scalar = call.scalar := by
    apply Classical.byContradiction
    intro hne
    rw [Sheet.as?_of_ne hne] at hvalue
    cases hvalue
  refine serve?_type? ?_ h other
  rw [type?, hsheet, Option.map_some, hscalar]

theorem run_type? (permutation : Permutation) (calls : List FieldSet.Call) (name : String) :
    (table.run permutation calls).1.type? name = table.type? name := by
  induction calls generalizing table with
  | nil => rfl
  | cons call rest ih =>
    rw [run]
    cases hgrant : table.grant? permutation call with
    | none => exact ih
    | some granted => exact ih.trans (grant?_type? hgrant name)

end Table

namespace FieldSet

def mismatch? (name : String) (type : FieldType) (scalar : Scalar) : Option Error :=
  if type.scalar = scalar then none else some (.scalarMismatch name type.scalar scalar)

def miscount? (name : String) (type : FieldType) (size found : Nat) : Option Error :=
  if found = size * type.components then none
  else some (.valueCount name (size * type.components) found)

/-- The answer of two checks, of which the second is made if the first objects to nothing. -/
def inTurn (first second : Option Error) : Checked Unit :=
  match first.or second with
  | none => .ok ()
  | some error => .error error

variable {set : FieldSet} {table : Table} {name : String} {field : Field} {scalar : Scalar}

theorem Represents.type? (h : set.Represents table) (name : String) :
    (set.find? name).map Field.type = table.type? name := by
  cases hfind : set.find? name with
  | none =>
    rw [Table.type?, h.absent hfind]
    rfl
  | some field =>
    obtain ⟨value, hsheet, -⟩ := h.present hfind
    rw [Table.type?, hsheet]
    rfl

theorem load_answer (set : FieldSet) (name : String) (scalar : Scalar)
    (buffer : Array scalar.Carrier) : (set.load name scalar buffer).map (fun _ => ()) =
      (set.loadInPlace name scalar buffer).2 :=
  Checked.after_result _

section Checks

variable {buffer : Array scalar.Carrier} (hformed : set.Formed)
  (hfind : set.find? name = some field)
include hformed hfind

theorem Formed.load_straight (hplace : set.permutation.isIdentity = true) :
    (set.load name scalar buffer).map (fun _ => ()) = inTurn (mismatch? name field.type scalar)
      (miscount? name field.type set.permutation.size buffer.size) := by
  have hname : field.name = name := find?_name hfind
  have hcells := hformed.cells_size hfind
  by_cases hscalar : field.type.scalar = scalar
  · subst hscalar
    by_cases hbuffer : buffer.size = set.permutation.size * field.type.components
    · obtain ⟨cells, hsize, hload, -⟩ := hformed.loadInPlace_eq hfind hbuffer
      rw [load_answer, hload, mismatch?, if_pos rfl, miscount?, if_pos hbuffer]
      rfl
    · rw [load_answer, loadInPlace, field_eq_ok.mpr hfind, Checked.orLeave_ok, if_pos hplace,
        Field.loadInPlace, field.values_eq, Checked.orLeave_ok, hcells, Checked.require,
        if_neg hbuffer, mismatch?, if_pos rfl, miscount?, if_neg hbuffer, hname]
      rfl
  · rw [load_answer, loadInPlace, field_eq_ok.mpr hfind, Checked.orLeave_ok, if_pos hplace,
      Field.loadInPlace, Field.values_of_ne hscalar, mismatch?, if_neg hscalar, hname]
    rfl

theorem Formed.load_turned (hplace : set.permutation.isIdentity = false) :
    (set.load name scalar buffer).map (fun _ => ()) =
      inTurn (miscount? name field.type set.permutation.size buffer.size)
        (mismatch? name field.type scalar) := by
  have hname : field.name = name := find?_name hfind
  have hturned : ¬set.permutation.isIdentity = true := by simp [hplace]
  by_cases hbuffer : buffer.size = set.permutation.size * field.type.components
  · by_cases hscalar : field.type.scalar = scalar
    · subst hscalar
      obtain ⟨cells, hsize, hload, -⟩ := hformed.loadInPlace_eq hfind hbuffer
      rw [load_answer, hload, mismatch?, if_pos rfl, miscount?, if_pos hbuffer]
      rfl
    · have hexpected : buffer.size = set.size * field.components := hbuffer
      rw [load_answer, loadInPlace, field_eq_ok.mpr hfind, Checked.orLeave_ok, if_neg hturned]
      dsimp only
      rw [Checked.require_of _ hexpected, Checked.orLeave_ok, Field.values_of_ne hscalar, mismatch?,
        if_neg hscalar, miscount?, if_pos hbuffer, hname]
      rfl
  · have hexpected : ¬buffer.size = set.size * field.components := hbuffer
    rw [load_answer, loadInPlace, field_eq_ok.mpr hfind, Checked.orLeave_ok, if_neg hturned]
    dsimp only
    rw [Checked.require, if_neg hexpected, miscount?, if_neg hbuffer]
    rfl

end Checks

theorem load_unknown {buffer : Array scalar.Carrier} (h : set.find? name = none) :
    (set.load name scalar buffer).map (fun _ => ()) =
      .error (.unknownField set.kind.plural name) := by
  rw [load_answer, loadInPlace, FieldSet.field, h]
  rfl

theorem inTurn_comm_iff {first second : Option Error} (hne : first = second → first = none) :
    inTurn first second = inTurn second first ↔ first = none ∨ second = none := by
  cases first with
  | none =>
    refine iff_of_true ?_ (.inl rfl)
    rw [inTurn, inTurn, Option.none_or, Option.or_none]
  | some error =>
    cases second with
    | none => exact iff_of_true rfl (.inr rfl)
    | some other =>
      refine iff_of_false (fun hsame => ?_) (by simp)
      cases hsame
      cases hne rfl

theorem mismatch?_eq_none {type : FieldType} :
    mismatch? name type scalar = none ↔ type.scalar = scalar := by
  unfold mismatch?
  split <;> simp [*]

theorem miscount?_eq_none {type : FieldType} {size found : Nat} :
    miscount? name type size found = none ↔ found = size * type.components := by
  unfold miscount?
  split <;> simp [*]

theorem mismatch?_ne {type : FieldType} {size found : Nat}
    (h : mismatch? name type scalar = miscount? name type size found) :
    mismatch? name type scalar = none := by
  unfold mismatch? miscount? at *
  split
  · rfl
  · next hscalar =>
    rw [if_neg hscalar] at h
    split at h <;> cases h

def Near (set after : FieldSet) : Prop := after = set ∨ ∃ field, after = set.replace field

theorem step_near (set : FieldSet) (call : Call) : set.Near (set.step call).1 := by
  have hself : set.Near set := .inl rfl
  have hback (step : Field × Checked Unit) : set.Near (set.putBack step).1 := .inr ⟨step.1, rfl⟩
  obtain ⟨name, scalar, request⟩ := call
  cases request with
  | load buffer =>
    refine Checked.orLeave_state hself fun field _ => ?_
    split
    · exact hback _
    · exact Checked.orLeave_state hself fun _ _ => Checked.orLeave_state hself fun _ _ => hback _
  | unload => exact hself
  | get address => exact hself
  | getScalar address => exact hself
  | put address values =>
    simp only [step, writeAt_eq]
    exact Checked.orLeave_state hself fun _ _ => Checked.orLeave_state hself fun _ _ => hback _
  | fill filler => exact Checked.orLeave_state hself fun _ _ => hback _

theorem run_kind (set : FieldSet) (calls : List Call) : (set.run calls).1.kind = set.kind := by
  induction calls generalizing set with
  | nil => rfl
  | cons call rest ih =>
    rw [run]
    have hstep : (set.step call).1.kind = set.kind := by
      rcases step_near set call with hsame | ⟨field, hreplaced⟩
      · rw [hsame]
      · rw [hreplaced]
        rfl
    exact (ih _).trans hstep

section Called

variable {kind : Kind} {permutation : Permutation} {declarations : List Declaration}
  {made : FieldSet} (hlawful : permutation.Lawful)
  (hmade : zeroed kind permutation declarations = .ok made)
include hlawful hmade

theorem run_declared (calls : List Call) :
    (made.run calls).1.Formed ∧ (made.run calls).1.permutation = permutation ∧
      (made.run calls).1.kind = kind ∧ ∀ name, ((made.run calls).1.find? name).map Field.type =
        (declarations.find? (·.name == name)).map Declaration.type := by
  have hparts : made.permutation = permutation ∧ made.kind = kind := by
    obtain ⟨-, -, rfl⟩ := zeroed_eq_ok.mp hmade
    exact ⟨rfl, rfl⟩
  obtain ⟨hsame, hlast, -⟩ := (zeroed_represents hlawful hmade).run calls
  refine ⟨hlast.formed, hsame.trans hparts.1, (run_kind made calls).trans hparts.2, fun name => ?_⟩
  rw [hlast.type?, Table.run_type?, Table.zeroed_type?]

theorem run_load_unknown (calls : List Call)
    (hnone : ∀ declaration ∈ declarations, declaration.name ≠ name)
    (buffer : Array scalar.Carrier) :
    ((made.run calls).1.load name scalar buffer).map (fun _ => ()) =
      .error (.unknownField kind.plural name) := by
  obtain ⟨-, -, hkind, htypes⟩ := run_declared hlawful hmade calls
  have habsent : declarations.find? (·.name == name) = none :=
    List.find?_eq_none.mpr fun declaration hmem => by simpa using hnone declaration hmem
  have hfind := htypes name
  rw [habsent, Option.map_none, Option.map_eq_none_iff] at hfind
  rw [load_unknown hfind, hkind]

/-- A declared field is loaded unless a check objects. The permutation tells which is made first. -/
theorem run_load (calls : List Call) {declaration : Declaration}
    (hmem : declaration ∈ declarations) (buffer : Array scalar.Carrier) :
    ((made.run calls).1.load declaration.name scalar buffer).map (fun _ => ()) =
      if permutation.isIdentity then
        inTurn (mismatch? declaration.name declaration.type scalar)
          (miscount? declaration.name declaration.type permutation.size buffer.size)
      else
        inTurn (miscount? declaration.name declaration.type permutation.size buffer.size)
          (mismatch? declaration.name declaration.type scalar) := by
  obtain ⟨hformed, hpermutation, -, htypes⟩ := run_declared hlawful hmade calls
  have hfound := find?_of_nodup (zeroed_eq_ok.mp hmade).1.names hmem
  have htype := htypes declaration.name
  rw [hfound, Option.map_some] at htype
  obtain ⟨field, hfind, htype⟩ := Option.map_eq_some_iff.mp htype
  rw [← htype, ← hpermutation]
  cases hplace : (made.run calls).1.permutation.isIdentity with
  | true =>
    rw [if_pos rfl]
    exact hformed.load_straight hfind hplace
  | false =>
    rw [if_neg Bool.false_ne_true]
    exact hformed.load_turned hfind hplace

end Called

/-- All permutations refuse what is loaded under a name that is not declared, and accept the same
buffers under one that is. They name the same fault unless the type and the number of values are
both wrong: in place the type is named then, and otherwise the number. -/
theorem load_answers {kind : Kind} {turned straight : Permutation}
    {declarations : List Declaration} {set other : FieldSet} (turned_made : turned.Made)
    (straight_made : straight.Made) (sizes : turned.size = straight.size)
    (moves : turned.isIdentity = false) (stays : straight.isIdentity = true)
    (allocated : zeroed kind turned declarations = .ok set)
    (allocated_straight : zeroed kind straight declarations = .ok other)
    (calls others : List Call) (name : String) (scalar : Scalar)
    (buffer : Array scalar.Carrier) :
    ((∀ declaration ∈ declarations, declaration.name ≠ name) →
      ((set.run calls).1.load name scalar buffer).map (fun _ => ()) =
          .error (.unknownField kind.plural name) ∧
        ((other.run others).1.load name scalar buffer).map (fun _ => ()) =
          .error (.unknownField kind.plural name)) ∧
    ∀ declaration ∈ declarations, declaration.name = name →
      ((set.run calls).1.load name scalar buffer).map (fun _ => ()) =
          inTurn (miscount? name declaration.type turned.size buffer.size)
            (mismatch? name declaration.type scalar) ∧
        ((other.run others).1.load name scalar buffer).map (fun _ => ()) =
          inTurn (mismatch? name declaration.type scalar)
            (miscount? name declaration.type turned.size buffer.size) ∧
        (((set.run calls).1.load name scalar buffer).map (fun _ => ()) =
            ((other.run others).1.load name scalar buffer).map (fun _ => ()) ↔
          declaration.type.scalar = scalar ∨
            buffer.size = turned.size * declaration.type.components) := by
  have hturned := turned_made.lawful
  have hstraight := straight_made.lawful
  constructor
  · intro hnone
    exact ⟨run_load_unknown hturned allocated calls hnone buffer,
      run_load_unknown hstraight allocated_straight others hnone buffer⟩
  · rintro declaration hmem rfl
    have hhere := run_load hturned allocated calls hmem buffer
    have hthere := run_load hstraight allocated_straight others hmem buffer
    rw [if_neg (by simp [moves])] at hhere
    rw [if_pos stays, ← sizes] at hthere
    refine ⟨hhere, hthere, ?_⟩
    rw [hhere, hthere, inTurn_comm_iff fun h => h.trans (mismatch?_ne h.symm),
      miscount?_eq_none, mismatch?_eq_none, or_comm]

def swappedSet : FieldSet where
  kind := .vertex
  permutation := ⟨#[1, 0], #[1, 0], false⟩
  fields := [Field.zeroed ⟨"a", ⟨.u32, 1⟩⟩ 2]

def straightSet : FieldSet where
  kind := .vertex
  permutation := .inPlace 2
  fields := [Field.zeroed ⟨"a", ⟨.u32, 1⟩⟩ 2]

theorem load_answers_swapped :
    ((swappedSet.load "a" .u32 #[7]).map (fun _ => ()) =
      (straightSet.load "a" .u32 #[7]).map fun _ => ()) ∧
    ((swappedSet.load "a" .i32 #[7]).map (fun _ => ()) ≠
      (straightSet.load "a" .i32 #[7]).map fun _ => ()) ∧
    ((swappedSet.load "b" .u32 #[7]).map fun _ => ()) = .error (.unknownField "verts" "b") := by
  have horder : Permutation.ofIdentities #[1, 0] = .ok swappedSet.permutation := by rfl
  have hanswers := fun name scalar buffer => load_answers
    (.ofIdentities (by decide) horder) (.inPlace 2) rfl rfl rfl
    (show zeroed .vertex _ [⟨"a", ⟨.u32, 1⟩⟩] = .ok swappedSet by rfl)
    (show zeroed .vertex _ [⟨"a", ⟨.u32, 1⟩⟩] = .ok straightSet by rfl) [] [] name scalar buffer
  obtain ⟨-, -, hsame⟩ := (hanswers "a" .u32 #[7]).2 _ List.mem_cons_self rfl
  obtain ⟨-, -, hother⟩ := (hanswers "a" .i32 #[7]).2 _ List.mem_cons_self rfl
  exact ⟨hsame.mpr (.inl rfl), mt hother.mp (by decide),
    ((hanswers "b" .u32 #[7]).1 (by decide)).1⟩

/-- Loading does not answer the same under all permutations: a buffer of another type and of the
wrong size is refused for its size in the one set and for its type in the other. -/
theorem load_depends_on_permutation :
    Permutation.ofIdentities #[1, 0] = .ok swappedSet.permutation ∧
    zeroed .vertex swappedSet.permutation [⟨"a", ⟨.u32, 1⟩⟩] = .ok swappedSet ∧
    zeroed .vertex (.inPlace 2) [⟨"a", ⟨.u32, 1⟩⟩] = .ok straightSet ∧
    (swappedSet.load "a" .i32 #[7]).map (fun _ => ()) = .error (.valueCount "a" 2 1) ∧
    (straightSet.load "a" .i32 #[7]).map (fun _ => ()) =
      .error (.scalarMismatch "a" .u32 .i32) ∧
    ((swappedSet.load "a" .i32 #[7]).map (fun _ => ()) ≠
      (straightSet.load "a" .i32 #[7]).map fun _ => ()) := by
  have hswapped : (swappedSet.load "a" .i32 #[7]).map (fun _ => ()) =
      .error (.valueCount "a" 2 1) := rfl
  have hstraight : (straightSet.load "a" .i32 #[7]).map (fun _ => ()) =
      .error (.scalarMismatch "a" .u32 .i32) := rfl
  refine ⟨rfl, rfl, rfl, hswapped, hstraight, ?_⟩
  rw [hswapped, hstraight]
  simp

end FieldSet

end MeshLayout
