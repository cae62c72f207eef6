import MeshLayout.Proofs.Mesh

/-!
# Fields in the order of identities

The cells of a field have two orders: the one in storage, by slot, and the one of identities,
which is the same in every layout. A loose field is stored in the order of identities. What a
field gives when it is unloaded is its cells in that order.
-/

set_option autoImplicit false

namespace MeshLayout

namespace Cells

variable {β : Type} {permutation : Option Permutation} {components size i j : Nat}

/-- Where the cell is stored that has the given number in the order of identities. -/
def position (permutation : Option Permutation) (components number : Nat) : Nat :=
  match permutation with
  | none => number
  | some permutation => (permutation.slotOf (number / components).toUInt32).toNat * components +
      number % components

def byIdentity? (permutation : Option Permutation) (components : Nat) (cells : Array β)
    (number : Nat) : Option β :=
  if number < cells.size then cells[position permutation components number]? else none

/-- As many cells as the elements of the permutation, if there is one, have components. -/
def Arranged (permutation : Option Permutation) (components size : Nat) : Prop :=
  ∀ own, permutation = some own → own.Lawful ∧ size = own.size * components

theorem number_div {component : Nat} (element : Nat) (h : component < components) :
    (element * components + component) / components = element := by
  rw [Nat.add_comm, Nat.add_mul_div_right _ _ (by omega), Nat.div_eq_of_lt h, Nat.zero_add]

theorem number_mod {component : Nat} (element : Nat) (h : component < components) :
    (element * components + component) % components = component := by
  rw [Nat.add_comm, Nat.add_mul_mod_self_right, Nat.mod_eq_of_lt h]

theorem components_pos {number count : Nat} (h : number < count * components) :
    0 < components := by
  rcases Nat.eq_zero_or_pos components with rfl | hpos
  · simp at h
  · exact hpos

theorem element_lt {own : Permutation} (hlawful : own.Lawful) (hi : i < own.size * components) :
    (i / components).toUInt32.toNat = i / components ∧ i / components < own.size := by
  have hlt : i / components < own.size := (Nat.div_lt_iff_lt_mul (components_pos hi)).mpr hi
  exact ⟨toNat_toUInt32 (Nat.lt_of_lt_of_le hlt hlawful.size_le), hlt⟩

theorem position_number {own : Permutation} {identity : Identity} {slot : Slot} {component : Nat}
    (hslot : own.slotOf? identity = some slot) (h : component < components) :
    position (some own) components (identity.toNat * components + component) =
      slot.toNat * components + component := by
  rw [position, number_div _ h, number_mod _ h, toUInt32_toNat, Permutation.slotOf, hslot,
    Option.getD_some]

theorem position_lt (h : Arranged permutation components size) (hi : i < size) :
    position permutation components i < size := by
  cases permutation with
  | none => exact hi
  | some own =>
    obtain ⟨hlawful, rfl⟩ := h own rfl
    obtain ⟨hword, helement⟩ := element_lt hlawful hi
    exact number_lt (hlawful.slotOf_lt (by rwa [hword])) (Nat.mod_lt i (components_pos hi))

theorem position_inj (h : Arranged permutation components size) (hi : i < size) (hj : j < size)
    (hsame : position permutation components i = position permutation components j) : i = j := by
  cases permutation with
  | none => exact hsame
  | some own =>
    obtain ⟨hlawful, rfl⟩ := h own rfl
    obtain ⟨hwordi, hlti⟩ := element_lt hlawful hi
    obtain ⟨hwordj, hltj⟩ := element_lt hlawful hj
    have hpos := components_pos hi
    have hdiv := congrArg (· / components) hsame
    have hmod := congrArg (· % components) hsame
    simp only [position, number_div _ (Nat.mod_lt _ hpos), number_mod _ (Nat.mod_lt _ hpos)]
      at hdiv hmod
    have hslots := congrArg own.identityOf (UInt32.toNat_inj.mp hdiv)
    rw [hlawful.identityOf_slotOf' (by rwa [hwordi]),
      hlawful.identityOf_slotOf' (by rwa [hwordj])] at hslots
    have helements := congrArg UInt32.toNat hslots
    rw [hwordi, hwordj] at helements
    rw [← Nat.div_add_mod i components, ← Nat.div_add_mod j components, helements, hmod]

theorem byIdentity?_set {cells : Array β} (h : Arranged permutation components cells.size)
    (hi : i < cells.size) (value : β) :
    byIdentity? permutation components
        (cells.setIfInBounds (position permutation components i) value) j =
      if j = i then some value else byIdentity? permutation components cells j := by
  unfold byIdentity?
  rw [Array.size_setIfInBounds]
  by_cases hji : j = i
  · subst hji
    rw [if_pos rfl, if_pos hi, Array.getElem?_setIfInBounds_self_of_lt (position_lt h hi)]
  · rw [if_neg hji]
    by_cases hj : j < cells.size
    · rw [if_pos hj, if_pos hj, Array.getElem?_setIfInBounds_ne]
      intro hsame
      exact hji (position_inj h hi hj hsame).symm
    · rw [if_neg hj, if_neg hj]

theorem uniform_flatten_getElem? (parts : List (Array β)) (hpos : 0 < components)
    (hparts : ∀ part ∈ parts, part.size = components) (i : Nat) :
    (parts.map Array.toList).flatten[i]? =
      parts[i / components]?.bind (·[i % components]?) := by
  induction parts generalizing i with
  | nil => simp
  | cons part rest ih =>
    have hsize := hparts part List.mem_cons_self
    rw [List.map_cons, List.flatten_cons]
    by_cases hi : i < components
    · rw [List.getElem?_append_left (by simpa [hsize] using hi), Nat.div_eq_of_lt hi,
        Nat.mod_eq_of_lt hi]
      simp
    · have hle : components ≤ i := by omega
      rw [List.getElem?_append_right (by simpa [hsize] using hle), Array.length_toList, hsize,
        ih fun part hpart => hparts part (List.mem_cons_of_mem _ hpart),
        Nat.div_eq_sub_div hpos hle, ← Nat.mod_eq_sub_mod hle, List.getElem?_cons_succ]

theorem byIdentity?_inPlace {own : Permutation} {cells : Array β} (hlawful : own.Lawful)
    (hplace : own.isIdentity = true) (hsize : cells.size = own.size * components) (i : Nat) :
    byIdentity? (some own) components cells i = cells[i]? := by
  unfold byIdentity?
  by_cases hi : i < cells.size
  · obtain ⟨hword, helement⟩ := element_lt hlawful (hsize ▸ hi)
    have hslot := hlawful.slotOf_of_isIdentity hplace (by rwa [hword])
    rw [if_pos hi, position, hslot, hword, Nat.div_add_mod']
  · rw [if_neg hi, Array.getElem?_eq_none (by omega)]

theorem part_end {own : Permutation} (hlawful : own.Lawful) (components : Nat) {slot : Slot}
    (hslot : slot ∈ own.slots.toList) :
    slot.toNat * components + components ≤ own.size * components := by
  obtain ⟨i, hi⟩ := List.mem_iff_getElem?.mp hslot
  rw [Array.getElem?_toList] at hi
  have hlt := (Array.getElem?_eq_some_iff.mp hi).1
  have hword : i.toUInt32.toNat = i := toNat_toUInt32 (Nat.lt_of_lt_of_le hlt hlawful.size_le)
  have hthere : own.slotOf i.toUInt32 = slot := by
    rw [Permutation.slotOf, Permutation.slotOf?, hword, hi, Option.getD_some]
  have hin : (own.slotOf i.toUInt32).toNat < own.size := hlawful.slotOf_lt (by rwa [hword])
  rw [hthere] at hin
  rw [← Nat.succ_mul]
  exact Nat.mul_le_mul_right components hin

theorem parts_mapM {own : Permutation} {cells : Array β} (hlawful : own.Lawful)
    (hsize : cells.size = own.size * components) :
    own.slots.toList.mapM (fun slot => slice? cells (slot.toNat * components) components) =
      some (own.slots.toList.map (part components cells)) := by
  apply mapM_eq_some_map
  intro slot hslot
  rw [slice?, if_pos (hsize ▸ part_end hlawful components hslot), part]

theorem parts_flatten {own : Permutation} {cells : Array β} (hlawful : own.Lawful)
    (hsize : cells.size = own.size * components) (i : Nat) :
    (own.slots.toList.map (part components cells)).toArray.flatten[i]? =
      byIdentity? (some own) components cells i := by
  rcases Nat.eq_zero_or_pos components with rfl | hpos
  · rw [Nat.mul_zero] at hsize
    rw [Array.eq_empty_of_size_eq_zero hsize]
    have hempty : part 0 (#[] : Array β) = fun _ => #[] := by
      funext slot
      simp [part]
    rw [← Array.getElem?_toList, Array.toList_flatten, hempty]
    simp [byIdentity?]
  · rw [← Array.getElem?_toList, Array.toList_flatten]
    rw [uniform_flatten_getElem? _ hpos, List.getElem?_map, Array.getElem?_toList]
    · unfold byIdentity?
      by_cases hi : i < cells.size
      · obtain ⟨hword, helement⟩ := element_lt hlawful (hsize ▸ hi)
        have hslot : own.slotOf? (i / components).toUInt32 =
            some (own.slotOf (i / components).toUInt32) :=
          Permutation.slotOf?_eq (by rwa [hword])
        rw [Permutation.slotOf?, hword] at hslot
        have hend := part_end hlawful components
          (List.mem_of_getElem? (by rw [Array.getElem?_toList]; exact hslot))
        have hmod := Nat.mod_lt i hpos
        rw [hslot, if_pos hi, Option.map_some, Option.bind_some, part, position,
          Array.getElem?_extract_of_lt (by omega), Array.getElem?_eq_getElem (by omega)]
      · have hend : own.slots.size ≤ i / components := by
          rw [Nat.le_div_iff_mul_le hpos]
          exact hsize ▸ Nat.le_of_not_lt hi
        rw [if_neg hi, Array.getElem?_eq_none hend]
        rfl
    · intro cut hcut
      obtain ⟨slot, hslot, rfl⟩ := List.mem_map.mp hcut
      have hend := part_end hlawful components hslot
      rw [part, Array.size_extract]
      omega

end Cells

/-- A field of a set is unloaded in the order of identities. -/
theorem FieldSet.unload_eq {set : FieldSet} {name : String} {field : Field}
    (hlawful : set.permutation.Lawful) (hfield : set.find? name = some field)
    (hsize : field.size = set.permutation.size) :
    ∃ values, set.unload name field.type.scalar = .ok values ∧ ∀ i, values[i]? =
      Cells.byIdentity? (some set.permutation) field.type.components field.cells i := by
  have hcells : field.cells.size = set.permutation.size * field.type.components := by
    rw [field.cells_size, hsize]
  have hthere := FieldSet.field_eq_ok.mpr hfield
  unfold FieldSet.unload
  simp only [Outcome.liftM_eq, hthere, Outcome.ofChecked_ok, ok_bind, field.values_eq]
  by_cases hplace : set.permutation.isIdentity = true
  · rw [if_pos hplace]
    apply Exists.intro field.cells
    constructor
    · rfl
    · intro i
      exact (Cells.byIdentity?_inPlace hlawful hplace hcells i).symm
  · rw [if_neg hplace, Field.components, Cells.parts_mapM hlawful hcells]
    exact ⟨_, rfl, fun i => Cells.parts_flatten hlawful hcells i⟩

namespace Workspace

variable {workspace : Workspace} {location : Location}

def unload (workspace : Workspace) : Location → Outcome Column
  | .ofMesh place kind name => do
    let mesh ← Outcome.ofLookup workspace.meshes[place]?
    let set ← mesh.elements kind
    let field ← set.field name
    return ⟨field.type.scalar, ← set.unload name field.type.scalar⟩
  | .ofLoose position => do
    let loose ← Outcome.ofLookup workspace.loose[position]?
    return ⟨loose.field.type.scalar, ← loose.unload loose.field.type.scalar⟩

def value? (workspace : Workspace) (location : Location) (type : FieldType) (number : Nat) :
    Option type.scalar.Carrier := do
  let column ← workspace.column? location
  let cells ← column.as? type.scalar
  Cells.byIdentity? (workspace.permutation? location) type.components cells number

theorem value?_eq {type : FieldType} {cells : Array type.scalar.Carrier}
    (hcolumn : workspace.column? location = some ⟨type.scalar, cells⟩) (number : Nat) :
    workspace.value? location type number =
      Cells.byIdentity? (workspace.permutation? location) type.components cells number := by
  simp only [value?, hcolumn, Option.bind_eq_bind, Option.bind_some, Column.as?_mk]

theorem Laid.unload_eq (h : workspace.Laid) {type : FieldType}
    (htype : (workspace.field? location).map Field.type = some type) :
    ∃ values, workspace.unload location = .ok ⟨type.scalar, values⟩ ∧
      ∀ number, values[number]? = workspace.value? location type number := by
  obtain ⟨field, hfield, rfl⟩ := Option.map_eq_some_iff.mp htype
  have hcolumn : workspace.column? location = some ⟨field.type.scalar, field.cells⟩ := by
    rw [column?, hfield]
    rfl
  simp only [value?_eq hcolumn]
  cases location with
  | ofMesh place kind name =>
    have hthere := hfield
    simp only [field?, Option.bind_eq_bind, Option.bind_eq_some_iff] at hthere
    obtain ⟨mesh, hmesh, set, hset, hfind⟩ := hthere
    have hpermutation : workspace.permutation? (.ofMesh place kind name) =
        some set.permutation := by
      simp [permutation?, hmesh, hset]
    obtain ⟨hlawful, hsizes⟩ := h.permutation hpermutation
    obtain ⟨values, hvalues, hnumbers⟩ := FieldSet.unload_eq hlawful hfind (hsizes field hfield)
    have helements : mesh.elements kind = .ok set := Mesh.elements_eq_ok.mpr hset
    have hfound := FieldSet.field_eq_ok.mpr hfind
    apply Exists.intro values
    constructor
    · simp only [unload, hmesh, helements, hfound, hvalues, Outcome.ofLookup_some, ok_bind,
        Outcome.liftM_eq, Outcome.ofChecked_ok, pure_eq_ok]
    · rw [hpermutation]
      exact hnumbers
  | ofLoose position =>
    simp only [field?, Option.bind_eq_bind, Option.bind_eq_some_iff] at hfield
    obtain ⟨loose, hloose, heq⟩ := hfield
    cases heq
    apply Exists.intro loose.field.cells
    constructor
    · simp only [unload, hloose, LooseField.unload, Field.values_eq, Outcome.ofLookup_some,
        ok_bind, Outcome.liftM_eq, Outcome.ofChecked_ok, pure_eq_ok]
    · intro number
      rw [permutation?, Cells.byIdentity?]
      by_cases hnumber : number < loose.field.cells.size
      · rw [if_pos hnumber]
        rfl
      · rw [if_neg hnumber, Array.getElem?_eq_none (by omega)]

theorem Laid.arranged (h : workspace.Laid) {field : Field}
    (hfield : workspace.field? location = some field) :
    Cells.Arranged (workspace.permutation? location) field.type.components field.column.size := by
  intro own hown
  obtain ⟨hlawful, hsizes⟩ := h.permutation hown
  constructor
  · exact hlawful
  · rw [← hsizes field hfield]
    exact field.cells_size

theorem value?_withColumn_ne (workspace : Workspace) {location other : Location}
    (column : Column) (h : other ≠ location) (type : FieldType) (number : Nat) :
    (workspace.withColumn location column).value? other type number =
      workspace.value? other type number := by
  rw [value?, value?, column?_withColumn_ne workspace column h, permutation?_withColumn]

theorem value?_withColumn_set {type : FieldType} {cells : Array type.scalar.Carrier}
    (hcolumn : workspace.column? location = some ⟨type.scalar, cells⟩)
    (harranged : Cells.Arranged (workspace.permutation? location) type.components cells.size)
    {number : Nat} (hnumber : number < cells.size) (value : type.scalar.Carrier) (other : Nat) :
    (workspace.withColumn location ⟨type.scalar, cells.setIfInBounds
      (Cells.position (workspace.permutation? location) type.components number) value⟩).value?
        location type other =
      if other = number then some value else workspace.value? location type other := by
  have hshape : ∀ index, (⟨type.scalar, cells.setIfInBounds index value⟩ : Column).shape =
      (⟨type.scalar, cells⟩ : Column).shape := by
    intro index
    simp [Column.shape, Column.size]
  rw [value?_eq (column?_withColumn_self hcolumn (hshape _)), value?_eq hcolumn,
    permutation?_withColumn]
  exact Cells.byIdentity?_set harranged hnumber value

end Workspace

end MeshLayout
