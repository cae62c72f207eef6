import MeshLayout.FieldSet
import MeshLayout.Proofs.Field
import Mathlib.Data.List.Nodup
import Mathlib.Data.List.Perm.Basic

/-!
# Declared fields

A set of fields is made from declarations of different names, each with components and with room
for its values. It then holds a field of zeros for each declaration and nothing else. Giving one
field other values leaves the fields of other names.
-/

set_option autoImplicit false

namespace MeshLayout

theorem Field.allocate_bind_eq_ok {α : Type} {declaration : Declaration} {size : Nat}
    {f : Field → Outcome α} {a : α} : allocate declaration size >>= f = .ok a ↔
      Column.Fits declaration.type.scalar (size * declaration.type.components) ∧
        f (zeroed declaration size) = .ok a := by
  unfold allocate
  by_cases h : Column.Fits declaration.type.scalar (size * declaration.type.components)
  · simp [h]
  · simp [h, Outcome.fault]

namespace FieldSet

theorem field_eq_ok {set : FieldSet} {name : String} {field : Field} :
    set.field name = .ok field ↔ set.find? name = some field := by
  unfold FieldSet.field
  cases set.find? name with
  | none => simp
  | some there => simp

theorem find?_name {set : FieldSet} {name : String} {field : Field}
    (h : set.find? name = some field) : field.name = name := by
  simpa using List.find?_some h

theorem find?_withColumn (set : FieldSet) (name other : String) (column : Column) :
    (set.withColumn name column).find? other =
      (set.find? other).map fun field =>
        if field.name = name then field.withColumn column else field := by
  have hname : ((fun field : Field => field.name == other) ∘ fun field : Field =>
      if field.name = name then field.withColumn column else field) =
      fun field : Field => field.name == other := by
    funext field
    simp only [Function.comp_apply]
    split
    · rw [Field.withColumn_name]
    · rfl
  rw [find?, find?, withColumn, List.find?_map, hname]

theorem insert_perm (field : Field) (fields : List Field) :
    (insert field fields).Perm (field :: fields) := by
  induction fields with
  | nil => exact List.Perm.refl _
  | cons first rest ih =>
    unfold insert
    split
    · exact List.Perm.refl _
    · exact (ih.cons first).trans (List.Perm.swap field first rest)

def entered (size : Nat) (declarations : List Declaration) (fields : List Field) : List Field :=
  declarations.foldl (fun before declaration => insert (.zeroed declaration size) before) fields

theorem entered_perm (size : Nat) (declarations : List Declaration) (fields : List Field) :
    (entered size declarations fields).Perm (declarations.map (Field.zeroed · size) ++ fields) := by
  induction declarations generalizing fields with
  | nil => exact List.Perm.refl _
  | cons declaration rest ih =>
    have hrest := ih (insert (.zeroed declaration size) fields)
    have hfirst := (insert_perm (.zeroed declaration size) fields).append_left
      (rest.map (Field.zeroed · size))
    exact hrest.trans (hfirst.trans List.perm_middle)

structure Distinct (declarations : List Declaration) : Prop where
  names : (declarations.map Declaration.name).Nodup
  components : ∀ declaration ∈ declarations, declaration.type.components ≠ 0

def Room (size : Nat) (declarations : List Declaration) : Prop :=
  ∀ declaration ∈ declarations,
    Column.Fits declaration.type.scalar (size * declaration.type.components)

theorem distinct_cons {declaration : Declaration} {rest : List Declaration} :
    Distinct (declaration :: rest) ↔ declaration.type.components ≠ 0 ∧
      (∀ other ∈ rest, other.name ≠ declaration.name) ∧ Distinct rest := by
  constructor
  · intro h
    have hnames := List.nodup_cons.mp h.names
    have hcomponents := List.forall_mem_cons.mp h.components
    refine ⟨hcomponents.1, fun other hother hsame => ?_, hnames.2, hcomponents.2⟩
    exact hnames.1 (hsame ▸ List.mem_map_of_mem hother)
  · rintro ⟨hcomponents, hnames, hrest⟩
    refine ⟨List.nodup_cons.mpr ⟨fun hmem => ?_, hrest.names⟩,
      List.forall_mem_cons.mpr ⟨hcomponents, hrest.components⟩⟩
    obtain ⟨other, hother, hsame⟩ := List.mem_map.mp hmem
    exact hnames other hother hsame

theorem room_cons {size : Nat} {declaration : Declaration} {rest : List Declaration} :
    Room size (declaration :: rest) ↔
      Column.Fits declaration.type.scalar (size * declaration.type.components) ∧ Room size rest :=
  List.forall_mem_cons

def Fresh (declarations : List Declaration) (fields : List Field) : Prop :=
  ∀ declaration ∈ declarations, ∀ field ∈ fields, field.name ≠ declaration.name

theorem fresh_insert (size : Nat) {declaration : Declaration} {rest : List Declaration}
    {fields : List Field} : Fresh rest (insert (.zeroed declaration size) fields) ↔
      (∀ other ∈ rest, other.name ≠ declaration.name) ∧ Fresh rest fields := by
  have hmem : ∀ field, field ∈ insert (.zeroed declaration size) fields ↔
      field = .zeroed declaration size ∨ field ∈ fields := by
    intro field
    rw [(insert_perm _ fields).mem_iff, List.mem_cons]
  simp only [Fresh, hmem, forall_eq_or_imp, ← forall_and]
  exact forall₂_congr fun other _ => and_congr_left' ne_comm

theorem declare_eq_ok {kind : Kind} {size : Nat} {declarations : List Declaration}
    {fields declared : List Field} : declare kind size declarations fields = .ok declared ↔
      Distinct declarations ∧ Room size declarations ∧ Fresh declarations fields ∧
        declared = entered size declarations fields := by
  induction declarations generalizing fields with
  | nil =>
    have hdistinct : Distinct [] := ⟨List.nodup_nil, fun _ h => absurd h List.not_mem_nil⟩
    simp [declare, entered, Room, Fresh, hdistinct, eq_comm]
  | cons declaration rest ih =>
    have hfresh : Fresh (declaration :: rest) fields ↔
        (∀ field ∈ fields, field.name ≠ declaration.name) ∧ Fresh rest fields :=
      List.forall_mem_cons
    rw [declare, distinct_cons, room_cons, hfresh, entered, List.foldl_cons, ← entered]
    simp only [Outcome.liftM_eq, Outcome.require_bind_eq_ok, Field.allocate_bind_eq_ok,
      List.all_eq_true, bne_iff_ne]
    constructor
    · rintro ⟨hcomponents, hroom, hnames, h⟩
      obtain ⟨hdistinct, hrest, hnext, hdeclared⟩ := ih.mp h
      obtain ⟨hothers, hfields⟩ := (fresh_insert size).mp hnext
      exact ⟨⟨hcomponents, hothers, hdistinct⟩, ⟨hroom, hrest⟩, ⟨hnames, hfields⟩, hdeclared⟩
    · rintro ⟨⟨hcomponents, hothers, hdistinct⟩, ⟨hroom, hrest⟩, ⟨hnames, hfields⟩, hdeclared⟩
      have hnext := (fresh_insert size).mpr ⟨hothers, hfields⟩
      exact ⟨hcomponents, hroom, hnames, ih.mpr ⟨hdistinct, hrest, hnext, hdeclared⟩⟩

theorem declare_of_distinct (kind : Kind) (size : Nat) {declarations : List Declaration}
    {fields : List Field} (hdistinct : Distinct declarations) (hfresh : Fresh declarations fields) :
    declare kind size declarations fields = .ok (entered size declarations fields) ∨
      declare kind size declarations fields = Outcome.fault .outOfMemory := by
  induction declarations generalizing fields with
  | nil => exact .inl rfl
  | cons declaration rest ih =>
    obtain ⟨hcomponents, hothers, hrest⟩ := distinct_cons.mp hdistinct
    obtain ⟨hnames, hfields⟩ := List.forall_mem_cons.mp hfresh
    have hnames : fields.all (·.name != declaration.name) = true := by
      simpa using hnames
    rw [declare, Checked.require_of _ hcomponents, Field.allocate]
    by_cases hroom : Column.Fits declaration.type.scalar (size * declaration.type.components)
    · rw [if_pos hroom, Checked.require_of _ hnames]
      exact ih hrest ((fresh_insert size).mpr ⟨hothers, hfields⟩)
    · rw [if_neg hroom]
      exact .inr rfl

section Zeroed

variable {kind : Kind} {permutation : Permutation} {declarations : List Declaration}

theorem zeroed_eq_ok {set : FieldSet} : zeroed kind permutation declarations = .ok set ↔
    Distinct declarations ∧ Room permutation.size declarations ∧
      set = ⟨kind, permutation, entered permutation.size declarations []⟩ := by
  have hfresh : Fresh declarations [] := fun _ _ _ h => absurd h List.not_mem_nil
  rw [zeroed, bind_eq_ok]
  simp only [declare_eq_ok, hfresh, true_and, pure_eq_ok, Except.ok.injEq]
  constructor
  · rintro ⟨_, ⟨hdistinct, hroom, rfl⟩, rfl⟩
    exact ⟨hdistinct, hroom, rfl⟩
  · rintro ⟨hdistinct, hroom, rfl⟩
    exact ⟨_, ⟨hdistinct, hroom, rfl⟩, rfl⟩

theorem zeroed_of_distinct (kind : Kind) (permutation : Permutation)
    (hdistinct : Distinct declarations) :
    (∃ set, zeroed kind permutation declarations = .ok set) ∨
      zeroed kind permutation declarations = Outcome.fault .outOfMemory ∧
        ¬Room permutation.size declarations := by
  by_cases hroom : Room permutation.size declarations
  · exact .inl ⟨_, zeroed_eq_ok.mpr ⟨hdistinct, hroom, rfl⟩⟩
  · have hfresh : Fresh declarations [] := fun _ _ _ h => absurd h List.not_mem_nil
    rcases declare_of_distinct kind permutation.size hdistinct hfresh with h | h
    · exact absurd (declare_eq_ok.mp h).2.1 hroom
    · refine .inr ⟨?_, hroom⟩
      rw [zeroed, h]
      rfl

theorem zeroed_fields {set : FieldSet} (h : zeroed kind permutation declarations = .ok set) :
    set.fields.Perm (declarations.map (Field.zeroed · permutation.size)) := by
  obtain ⟨-, -, rfl⟩ := zeroed_eq_ok.mp h
  simpa using entered_perm permutation.size declarations []

end Zeroed

end FieldSet

end MeshLayout
