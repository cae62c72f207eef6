import MeshLayout.Proofs.Calls

/-!
# Fields as tables by identity

A table gives each component of each identity a value, field by field, and has no slots. A set of
fields answers every call as the table of its values does, in whatever order it stores them; a
call at a slot is a call at the identity in it.
-/

set_option autoImplicit false

namespace MeshLayout

structure Sheet where
  scalar : Scalar
  components : Nat
  value : Identity → Nat → scalar.Carrier

def Sheet.as? (sheet : Sheet) (scalar : Scalar) : Option (Identity → Nat → scalar.Carrier) :=
  if h : sheet.scalar = scalar then some (h ▸ sheet.value) else none

/-- The values of as many identities, by the name of the field, identity and component. -/
structure Table where
  size : Nat
  sheet? : String → Option Sheet

namespace Table

def zeroed (size : Nat) (declarations : List Declaration) : Table where
  size := size
  sheet? name := (declarations.find? (·.name == name)).map fun declaration =>
    ⟨declaration.type.scalar, declaration.type.components, fun _ _ => declaration.type.scalar.zero⟩

variable (table : Table)

def store (name : String) (sheet : Sheet) : Table where
  size := table.size
  sheet? other := if other = name then some sheet else table.sheet? other

def identityAt? (permutation : Permutation) : Address → Option Identity
  | .slot slot => permutation.identityOf? slot
  | .identity identity => if identity.toNat < table.size then some identity else none

def row {scalar : Scalar} (components : Nat) (value : Identity → Nat → scalar.Carrier)
    (identity : Identity) : Array scalar.Carrier :=
  Array.ofFn fun component : Fin components => value identity component

def flat {scalar : Scalar} (components : Nat) (value : Identity → Nat → scalar.Carrier) :
    Array scalar.Carrier :=
  Array.ofFn fun number : Fin (table.size * components) =>
    value (number.val / components).toUInt32 (number.val % components)

def loaded (scalar : Scalar) (components : Nat) (buffer : Array scalar.Carrier)
    (identity : Identity) (component : Nat) : scalar.Carrier :=
  buffer.getD (identity.toNat * components + component) scalar.zero

def changed (scalar : Scalar) (value : Identity → Nat → scalar.Carrier) (identity : Identity)
    (values : Array scalar.Carrier) (other : Identity) (component : Nat) : scalar.Carrier :=
  if other = identity then values.getD component scalar.zero else value other component

def serve? (permutation : Permutation) (name : String) {scalar : Scalar} (components : Nat)
    (value : Identity → Nat → scalar.Carrier) :
    FieldSet.Request scalar → Option (Table × FieldSet.Answer)
  | .load buffer =>
    if buffer.size = table.size * components then
      some (table.store name ⟨scalar, components, loaded scalar components buffer⟩, .done)
    else none
  | .unload => some (table, .values scalar (table.flat components value))
  | .get address => do
    let identity ← table.identityAt? permutation address
    return (table, .values scalar (row components value identity))
  | .getScalar address => do
    let identity ← table.identityAt? permutation address
    return (table, .value scalar (← (row components value identity)[0]?))
  | .put address values => do
    let identity ← table.identityAt? permutation address
    if values.size = components then
      some (table.store name ⟨scalar, components, changed scalar value identity values⟩, .done)
    else none
  | .fill filler => some (table.store name ⟨scalar, components, fun _ _ => filler⟩, .done)

/-- What becomes of a call that is granted. The name and the type have to be those of a sheet. -/
def grant? (permutation : Permutation) (call : FieldSet.Call) :
    Option (Table × FieldSet.Answer) := do
  let sheet ← table.sheet? call.name
  let value ← sheet.as? call.scalar
  table.serve? permutation call.name sheet.components value call.request

def run (permutation : Permutation) :
    Table → List FieldSet.Call → Table × List (Option FieldSet.Answer)
  | table, [] => (table, [])
  | table, call :: rest =>
    match table.grant? permutation call with
    | some (after, answer) =>
      let (last, answers) := run permutation after rest
      (last, some answer :: answers)
    | none =>
      let (last, answers) := run permutation table rest
      (last, none :: answers)

end Table

namespace Sheet

theorem as?_mk (scalar : Scalar) (components : Nat) (value : Identity → Nat → scalar.Carrier) :
    (⟨scalar, components, value⟩ : Sheet).as? scalar = some value := dif_pos rfl

theorem as?_of_ne {sheet : Sheet} {scalar : Scalar} (h : sheet.scalar ≠ scalar) :
    sheet.as? scalar = none := dif_neg h

end Sheet

namespace Table

variable {table : Table} {name : String} {scalar : Scalar} {components : Nat}

theorem grant?_of_sheet {value : Identity → Nat → scalar.Carrier} (permutation : Permutation)
    (h : table.sheet? name = some ⟨scalar, components, value⟩) (request : FieldSet.Request scalar) :
    table.grant? permutation ⟨name, scalar, request⟩ =
      table.serve? permutation name components value request := by
  simp only [grant?, h, Sheet.as?_mk, Option.bind_eq_bind, Option.bind_some]

theorem grant?_eq_none (permutation : Permutation)
    (h : ∀ sheet, table.sheet? name = some sheet → sheet.as? scalar = none)
    (request : FieldSet.Request scalar) :
    table.grant? permutation ⟨name, scalar, request⟩ = none := by
  simp only [grant?, Option.bind_eq_bind]
  cases hsheet : table.sheet? name with
  | none => rfl
  | some sheet =>
    rw [Option.bind_some, h sheet hsheet]
    rfl

theorem getElem?_loaded {size : Nat} {buffer : Array scalar.Carrier} {identity : Identity}
    {component : Nat} (hbuffer : buffer.size = size * components)
    (hidentity : identity.toNat < size) (hcomponent : component < components) :
    buffer[identity.toNat * components + component]? =
      some (loaded scalar components buffer identity component) := by
  have hlt := Cells.number_lt hidentity hcomponent
  rw [loaded, Array.getD_eq_getD_getElem?, Array.getElem?_eq_getElem (by omega), Option.getD_some]

theorem flat_loaded {buffer : Array scalar.Carrier} (hsize : table.size ≤ UInt32.size)
    (hbuffer : buffer.size = table.size * components) :
    table.flat components (loaded scalar components buffer) = buffer := by
  apply Array.ext_getElem?
  intro i
  rw [flat, Array.getElem?_ofFn]
  by_cases hi : i < table.size * components
  · have hpos := Cells.components_pos hi
    have hlt : i / components < table.size := (Nat.div_lt_iff_lt_mul hpos).mpr hi
    have hword : (i / components).toUInt32.toNat = i / components := toNat_toUInt32 (by omega)
    have hthere := getElem?_loaded hbuffer (hword ▸ hlt) (Nat.mod_lt i hpos)
    rw [hword, Nat.div_add_mod'] at hthere
    rw [dif_pos hi, hthere]
  · rw [dif_neg hi, Array.getElem?_eq_none (by omega)]

theorem getElem?_flat (value : Identity → Nat → scalar.Carrier) {identity : Identity}
    {component : Nat} (hidentity : identity.toNat < table.size)
    (hcomponent : component < components) :
    (table.flat components value)[identity.toNat * components + component]? =
      some (value identity component) := by
  rw [flat, Array.getElem?_ofFn, dif_pos (Cells.number_lt hidentity hcomponent)]
  simp only [Cells.number_div _ hcomponent, Cells.number_mod _ hcomponent, toUInt32_toNat]

end Table

namespace FieldSet

def Shows (permutation : Permutation) (field : Field)
    (value : Identity → Nat → field.type.scalar.Carrier) : Prop :=
  ∀ identity : Identity, identity.toNat < permutation.size →
    ∀ component < field.type.components,
      field.cells[(permutation.slotOf identity).toNat * field.type.components + component]? =
        some (value identity component)

theorem shows_withCells {permutation : Permutation} {field : Field}
    {cells : Array field.type.scalar.Carrier}
    (hsize : cells.size = field.size * field.type.components)
    {value : Identity → Nat → field.type.scalar.Carrier} :
    Shows permutation (field.withCells cells hsize) value ↔
      ∀ identity : Identity, identity.toNat < permutation.size →
        ∀ component < field.type.components,
          cells[(permutation.slotOf identity).toNat * field.type.components + component]? =
            some (value identity component) := Iff.rfl

structure Represents (set : FieldSet) (table : Table) : Prop where
  formed : set.Formed
  size : table.size = set.permutation.size
  absent : ∀ {name}, set.find? name = none → table.sheet? name = none
  present : ∀ {name field}, set.find? name = some field → ∃ value,
    table.sheet? name = some ⟨field.type.scalar, field.type.components, value⟩ ∧
      Shows set.permutation field value

namespace Represents

variable {set : FieldSet} {table : Table} {name : String} {field : Field}

theorem store (h : set.Represents table) (hfind : set.find? name = some field)
    {cells : Array field.type.scalar.Carrier}
    (hsize : cells.size = field.size * field.type.components)
    {value : Identity → Nat → field.type.scalar.Carrier}
    (hshows : Shows set.permutation (field.withCells cells hsize) value) :
    (set.replace (field.withCells cells hsize)).Represents
      (table.store name ⟨field.type.scalar, field.type.components, value⟩) := by
  have hname : field.name = name := find?_name hfind
  have hmem := List.mem_of_find?_eq_some hfind
  have hfields : ∀ {P : Field → Prop}, (∀ old ∈ set.fields, P old) →
      P (field.withCells cells hsize) →
        ∀ new ∈ (set.replace (field.withCells cells hsize)).fields, P new := by
    intro P hold hnew new hmem
    obtain ⟨old, hthere, rfl⟩ := List.mem_map.mp hmem
    split
    · exact hnew
    · exact hold old hthere
  have hcells : cells.size = field.cells.size := by rw [hsize, field.cells_size]
  have hformed : (set.replace (field.withCells cells hsize)).Formed := {
    lawful := h.formed.lawful
    names := by
      rw [replace_names]
      exact h.formed.names
    sizes := hfields h.formed.sizes (h.formed.sizes field hmem)
    rooms := hfields h.formed.rooms (hcells ▸ h.formed.rooms field hmem)
    components := hfields h.formed.components (h.formed.components field hmem) }
  refine ⟨hformed, h.size, fun {other} hother => ?_, fun {other new} hother => ?_⟩
  · rw [find?_replace, Option.map_eq_none_iff] at hother
    have hne : other ≠ name := by
      rintro rfl
      rw [hfind] at hother
      cases hother
    exact (if_neg hne).trans (h.absent hother)
  · rw [find?_replace, Field.withCells_name, hname, Option.map_eq_some_iff] at hother
    obtain ⟨old, hold, hnew⟩ := hother
    by_cases heq : other = name
    · rw [if_pos heq] at hnew
      subst hnew
      exact ⟨value, if_pos heq, hshows⟩
    · rw [if_neg heq] at hnew
      subst hnew
      obtain ⟨same, hsheet, hsame⟩ := h.present hold
      exact ⟨same, (if_neg heq).trans hsheet, hsame⟩

end Represents

section Lookup

variable {set : FieldSet} {table : Table}

inductive Lookup (set : FieldSet) (table : Table) (name : String) : Scalar → Prop
  | closed {scalar : Scalar} (hset : set.Closed name scalar)
      (htable : ∀ sheet, table.sheet? name = some sheet → sheet.as? scalar = none) :
      Lookup set table name scalar
  | shown {field : Field} {value : Identity → Nat → field.type.scalar.Carrier}
      (hfield : set.find? name = some field)
      (hsheet : table.sheet? name = some ⟨field.type.scalar, field.type.components, value⟩)
      (hshows : Shows set.permutation field value) : Lookup set table name field.type.scalar

theorem Represents.lookup (h : set.Represents table) (name : String) (scalar : Scalar) :
    Lookup set table name scalar := by
  cases hfield : set.find? name with
  | none =>
    refine .closed (fun field hthere => ?_) (fun sheet hsheet => ?_)
    · rw [field_eq_ok, hfield] at hthere
      cases hthere
    · rw [h.absent hfield] at hsheet
      cases hsheet
  | some field =>
    obtain ⟨value, hsheet, hshows⟩ := h.present hfield
    by_cases hscalar : field.type.scalar = scalar
    · subst hscalar
      exact .shown hfield hsheet hshows
    · refine .closed (fun other hother => ?_) (fun sheet hthere => ?_)
      · rw [field_eq_ok, hfield] at hother
        cases hother
        exact ⟨_, Field.values_of_ne hscalar⟩
      · rw [hsheet] at hthere
        cases hthere
        exact Sheet.as?_of_ne hscalar

theorem Represents.located (h : set.Represents table) (address : Address) :
    (slotAt? set.permutation address = none ∧ table.identityAt? set.permutation address = none) ∨
      ∃ identity : Identity, identity.toNat < set.permutation.size ∧
        slotAt? set.permutation address = some (set.permutation.slotOf identity) ∧
        table.identityAt? set.permutation address = some identity := by
  have hlawful := h.formed.lawful
  cases address with
  | slot slot =>
    by_cases hslot : slot.toNat < set.permutation.size
    · refine .inr ⟨_, hlawful.identityOf_lt hslot, ?_, hlawful.identityOf?_eq hslot⟩
      rw [slotAt?, if_pos hslot, hlawful.slotOf_identityOf' hslot]
    · exact .inl ⟨if_neg hslot, hlawful.identityOf?_eq_none (by omega)⟩
  | identity identity =>
    by_cases hidentity : identity.toNat < set.permutation.size
    · exact .inr ⟨identity, hidentity, Permutation.slotOf?_eq hidentity,
        if_pos (h.size ▸ hidentity)⟩
    · exact .inl ⟨Permutation.slotOf?_eq_none (by omega), if_neg (h.size ▸ hidentity)⟩

end Lookup

section Granted

variable {set : FieldSet} {table : Table} {name : String} {field : Field} {address : Address}

theorem part_eq_row {scalar : Scalar} {components : Nat} {cells : Array scalar.Carrier}
    {value : Identity → Nat → scalar.Carrier} {slot : Slot} {identity : Identity}
    (hend : slot.toNat * components + components ≤ cells.size)
    (h : ∀ component < components,
      cells[slot.toNat * components + component]? = some (value identity component)) :
    Cells.part components cells slot = Table.row components value identity :=
  Cells.extract_eq_ofFn hend h

theorem Shows.flat_eq {permutation : Permutation}
    {value : Identity → Nat → field.type.scalar.Carrier} (h : Shows permutation field value)
    (hlawful : permutation.Lawful) (hfield : field.size = permutation.size)
    (htable : table.size = permutation.size) (i : Nat) :
    (table.flat field.type.components value)[i]? =
      Cells.byIdentity? (some permutation) field.type.components field.cells i := by
  have hcells : field.cells.size = table.size * field.type.components := by
    rw [field.cells_size, hfield, htable]
  rw [Table.flat, Array.getElem?_ofFn, Cells.byIdentity?, hcells]
  by_cases hi : i < table.size * field.type.components
  · obtain ⟨hword, helement⟩ := Cells.element_lt hlawful (htable ▸ hi)
    rw [dif_pos hi, if_pos hi, Cells.position]
    exact (h _ (by rwa [hword]) _ (Nat.mod_lt i (Cells.components_pos hi))).symm
  · rw [dif_neg hi, if_neg hi]

variable (hformed : set.Formed) (hfind : set.find? name = some field)
include hformed hfind

section Load

variable {buffer : Array field.type.scalar.Carrier}
  (hbuffer : buffer.size = set.permutation.size * field.type.components)
include hbuffer

theorem Formed.storeParts_shows : ∃ stored hsize,
    storeParts field.type.components buffer set.permutation.slots.toList 0 field.cells =
      (stored, .ok ()) ∧
    Shows set.permutation (field.withCells stored hsize)
      (Table.loaded field.type.scalar field.type.components buffer) := by
  have hroom := hformed.rooms field (List.mem_of_find?_eq_some hfind)
  have hcells := hformed.cells_size hfind
  have hends : ∀ slot ∈ set.permutation.slots.toList,
      slot.toNat * field.type.components + field.type.components ≤ field.cells.size :=
    fun slot hslot => hcells ▸ Cells.part_end hformed.lawful _ hslot
  have hall : (0 + set.permutation.slots.toList.length) * field.type.components ≤ buffer.size := by
    rw [Nat.zero_add, Array.length_toList]
    exact Nat.le_of_eq hbuffer.symm
  obtain ⟨stored, hstored, hsize, hthere, -⟩ := storeParts_eq field.type.components buffer
    set.permutation.slots.toList 0 field.cells hroom hformed.lawful.slots_nodup hends hall
  have hfits : stored.size = field.size * field.type.components := by
    rw [hsize, field.cells_size]
  refine ⟨stored, hfits, hstored, fun identity hidentity component hcomponent => ?_⟩
  have hslot : set.permutation.slots.toList[identity.toNat]? =
      some (set.permutation.slotOf identity) := by
    rw [Array.getElem?_toList]
    exact Permutation.slotOf?_eq hidentity
  have hpart := hthere _ _ hslot component hcomponent
  rw [Nat.zero_add] at hpart
  exact hpart.trans (Table.getElem?_loaded hbuffer hidentity hcomponent)

theorem Formed.loadInPlace_eq : ∃ cells hsize, set.loadInPlace name field.type.scalar buffer =
      (set.replace (field.withCells cells hsize), .ok ()) ∧
    Shows set.permutation (field.withCells cells hsize)
      (Table.loaded field.type.scalar field.type.components buffer) := by
  have hroom := hformed.rooms field (List.mem_of_find?_eq_some hfind)
  have hcells := hformed.cells_size hfind
  unfold loadInPlace
  rw [field_eq_ok.mpr hfind, Checked.orLeave_ok]
  by_cases hplace : set.permutation.isIdentity = true
  -- Nothing is moved, and the buffer becomes the cells.
  · have hfits : buffer.size = field.size * field.type.components := by
      rw [hbuffer, ← hcells, field.cells_size]
    rw [if_pos hplace, Field.loadInPlace_eq hroom (by omega), Field.withColumn_eq buffer hfits]
    refine ⟨buffer, hfits, rfl, fun identity hidentity component hcomponent => ?_⟩
    rw [hformed.lawful.slotOf_of_isIdentity hplace hidentity]
    exact Table.getElem?_loaded hbuffer hidentity hcomponent
  · obtain ⟨stored, hfits, hstored, hshows⟩ := hformed.storeParts_shows hfind hbuffer
    have hexpected : buffer.size = set.size * field.components := hbuffer
    have hstored : storeParts field.components buffer set.permutation.slots.toList 0 field.cells =
        (stored, .ok ()) := hstored
    rw [if_neg hplace]
    dsimp only
    rw [Checked.require_of _ hexpected, Checked.orLeave_ok, field.values_eq, Checked.orLeave_ok,
      hstored, Field.withColumn_eq stored hfits]
    exact ⟨stored, hfits, rfl, hshows⟩

end Load

theorem Formed.unload_flat {value : Identity → Nat → field.type.scalar.Carrier}
    (hshows : Shows set.permutation field value) (htable : table.size = set.permutation.size) :
    set.unload name field.type.scalar = .ok (table.flat field.type.components value) := by
  have hsize := hformed.sizes field (List.mem_of_find?_eq_some hfind)
  obtain ⟨values, hunload, hvalues⟩ := unload_eq hformed.lawful hfind hsize
  have hflat : values = table.flat field.type.components value := by
    apply Array.ext_getElem?
    intro i
    rw [hvalues, hshows.flat_eq hformed.lawful hsize htable]
  rw [hunload, hflat]

section Element

variable {value : Identity → Nat → field.type.scalar.Carrier}
  (hshows : Shows set.permutation field value) {identity : Identity}
  (hidentity : identity.toNat < set.permutation.size)
  (hslot : set.findSlotAt address = .ok (set.permutation.slotOf identity))
include hshows hidentity hslot

theorem Formed.readAt_eq : set.readAt name field.type.scalar address =
    .ok (Table.row field.type.components value identity) := by
  have hmem := List.mem_of_find?_eq_some hfind
  have hsize := hformed.sizes field hmem
  have hlt := hformed.lawful.slotOf_lt hidentity
  rw [readAt_bind, field_eq_ok.mpr hfind, ok_bind, hslot, ok_bind,
    Field.element_eq (hformed.rooms field hmem) (by omega)]
  exact congrArg Except.ok (part_eq_row (Field.end_le (by omega)) (hshows identity hidentity))

theorem Formed.readScalarAt_eq : set.readScalarAt name field.type.scalar address =
    .ok (value identity 0) := by
  have hmem := List.mem_of_find?_eq_some hfind
  have hsize := hformed.sizes field hmem
  have hlt := hformed.lawful.slotOf_lt hidentity
  have hpos := Nat.pos_of_ne_zero (hformed.components field hmem)
  rw [readScalarAt_bind, field_eq_ok.mpr hfind, hslot]
  exact Field.get_eq (by omega) hpos (hshows identity hidentity 0 hpos)

theorem Formed.writeAt_eq {values : Array field.type.scalar.Carrier}
    (hvalues : values.size = field.type.components) :
    ∃ cells hsize, set.writeAt name field.type.scalar address values =
        (set.replace (field.withCells cells hsize), .ok ()) ∧
      Shows set.permutation (field.withCells cells hsize)
        (Table.changed field.type.scalar value identity values) := by
  have hmem := List.mem_of_find?_eq_some hfind
  have hsize := hformed.sizes field hmem
  have hlt := hformed.lawful.slotOf_lt hidentity
  have hend := Field.end_le (hsize ▸ hlt)
  have hfits : (Cells.overwrite values.toList
      ((set.permutation.slotOf identity).toNat * field.type.components) field.cells).size =
        field.size * field.type.components := by
    rw [Cells.overwrite_size, field.cells_size]
  refine ⟨_, hfits, ?_, (shows_withCells hfits).mpr fun other hother component hcomponent => ?_⟩
  · rw [FieldSet.writeAt_eq, field_eq_ok.mpr hfind, Checked.orLeave_ok, hslot, Checked.orLeave_ok,
      Field.setInPlace_eq (hformed.rooms field hmem) (by omega) hvalues,
      Field.withColumn_eq _ hfits]
    rfl
  · rw [Cells.overwrite_part (by simpa using hvalues) hend _ hcomponent, Table.changed]
    by_cases hsame : other = identity
    · rw [if_pos (by rw [hsame]), if_pos hsame, Array.getD_eq_getD_getElem?,
        Array.getElem?_toList, Array.getElem?_eq_getElem (by omega), Option.getD_some]
    · have hne : (set.permutation.slotOf other).toNat ≠
          (set.permutation.slotOf identity).toNat := by
        intro h
        have := congrArg set.permutation.identityOf (UInt32.toNat_inj.mp h)
        rw [hformed.lawful.identityOf_slotOf' hother,
          hformed.lawful.identityOf_slotOf' hidentity] at this
        exact hsame this
      rw [if_neg hne, if_neg hsame]
      exact hshows other hother component hcomponent

end Element

theorem Formed.fillInPlace_eq (filler : field.type.scalar.Carrier) :
    ∃ cells hsize, set.fillInPlace name field.type.scalar filler =
        (set.replace (field.withCells cells hsize), .ok ()) ∧
      Shows set.permutation (field.withCells cells hsize) fun _ _ => filler := by
  have hcells := hformed.cells_size hfind
  have hfits : (Array.replicate field.cells.size filler).size =
      field.size * field.type.components := by
    rw [Array.size_replicate, field.cells_size]
  refine ⟨_, hfits, ?_,
    (shows_withCells hfits).mpr fun identity hidentity component hcomponent => ?_⟩
  · rw [fillInPlace, field_eq_ok.mpr hfind, Checked.orLeave_ok, Field.fillInPlace_eq,
      Column.filled, Field.withColumn_eq _ hfits]
    rfl
  · have hlt := Cells.number_lt (hformed.lawful.slotOf_lt hidentity) hcomponent
    rw [Array.getElem?_replicate, if_pos (by omega)]

end Granted

/-- A call that the table grants leaves a set that stores the values of the next table, with the
same answer; any other call is refused and leaves the set. -/
inductive Follows (set : FieldSet) : FieldSet × Outcome Answer → Option (Table × Answer) → Prop
  | granted {after : FieldSet} {table : Table} {answer : Answer} (h : after.Represents table)
      (same : after.permutation = set.permutation) :
      Follows set (after, .ok answer) (some (table, answer))
  | refused (error : Error) : Follows set (set, .error (.refused error)) none

theorem Represents.step {set : FieldSet} {table : Table} (h : set.Represents table) (call : Call) :
    Follows set (set.step call) (table.grant? set.permutation call) := by
  obtain ⟨name, scalar, request⟩ := call
  cases h.lookup name scalar with
  | closed hset htable =>
    obtain ⟨error, herror⟩ := @Closed.step set ⟨name, scalar, request⟩ hset h.formed.names
    rw [herror, Table.grant?_eq_none _ htable]
    exact .refused error
  -- The field is there and of the type, so what is granted depends on the request alone.
  | @shown field value hfind hsheet hshows =>
    have hformed := h.formed
    rw [Table.grant?_of_sheet _ hsheet]
    cases request with
    | load buffer =>
      by_cases hbuffer : buffer.size = set.permutation.size * field.type.components
      · obtain ⟨cells, hsize, hload, hloaded⟩ := hformed.loadInPlace_eq hfind hbuffer
        rw [Table.serve?, if_pos (h.size ▸ hbuffer)]
        simp only [FieldSet.step, hload]
        exact .granted (h.store hfind hsize hloaded) rfl
      · obtain ⟨error, herror⟩ := hformed.loadInPlace_refused hfind hbuffer
        rw [Table.serve?, if_neg (h.size ▸ hbuffer)]
        simp only [FieldSet.step, herror]
        exact .refused error
    | unload =>
      have hunload := hformed.unload_flat hfind hshows h.size
      simp only [FieldSet.step, hunload]
      exact .granted h rfl
    | get address =>
      rcases h.located address with ⟨hslot, hnone⟩ | ⟨identity, hidentity, hslot, hthere⟩
      · obtain ⟨error, herror⟩ := (hformed.barred name field.type.scalar hslot).readAt
        simp only [FieldSet.step, herror, Table.serve?, hnone]
        exact .refused error
      · have hread := hformed.readAt_eq hfind hshows hidentity (findSlotAt_eq hslot)
        simp only [FieldSet.step, hread, Table.serve?, hthere]
        exact .granted h rfl
    | getScalar address =>
      rcases h.located address with ⟨hslot, hnone⟩ | ⟨identity, hidentity, hslot, hthere⟩
      · obtain ⟨error, herror⟩ := (hformed.barred name field.type.scalar hslot).readScalarAt
        simp only [FieldSet.step, herror, Table.serve?, hnone]
        exact .refused error
      · have hread := hformed.readScalarAt_eq hfind hshows hidentity (findSlotAt_eq hslot)
        have hpos := Nat.pos_of_ne_zero
          (hformed.components field (List.mem_of_find?_eq_some hfind))
        have hfirst : (Table.row field.type.components value identity)[0]? =
            some (value identity 0) := by
          rw [Table.row, Array.getElem?_ofFn, dif_pos hpos]
        simp only [FieldSet.step, hread, Table.serve?, hthere, hfirst, Option.bind_eq_bind,
          Option.bind_some]
        exact .granted h rfl
    | put address values =>
      rcases h.located address with ⟨hslot, hnone⟩ | ⟨identity, hidentity, hslot, hthere⟩
      · obtain ⟨error, herror⟩ :=
          (hformed.barred name field.type.scalar hslot).writeAt hformed.names values
        simp only [FieldSet.step, herror, Table.serve?, hnone]
        exact .refused error
      · have hslot := findSlotAt_eq hslot
        by_cases hvalues : values.size = field.type.components
        · obtain ⟨cells, hsize, hwrite, hwritten⟩ :=
            hformed.writeAt_eq hfind hshows hidentity hslot hvalues
          simp only [FieldSet.step, hwrite, Table.serve?, hthere, hvalues, Option.bind_eq_bind,
            Option.bind_some, if_true]
          exact .granted (h.store hfind hsize hwritten) rfl
        · obtain ⟨error, herror⟩ := hformed.writeAt_refused hfind hslot
            (hformed.lawful.slotOf_lt hidentity) hvalues
          simp only [FieldSet.step, herror, Table.serve?, hthere, hvalues, Option.bind_eq_bind,
            Option.bind_some, if_false]
          exact .refused error
    | fill filler =>
      obtain ⟨cells, hsize, hfill, hfilled⟩ := hformed.fillInPlace_eq hfind filler
      simp only [FieldSet.step, hfill, Table.serve?]
      exact .granted (h.store hfind hsize hfilled) rfl

theorem zeroed_represents {kind : Kind} {permutation : Permutation}
    {declarations : List Declaration} {set : FieldSet} (hlawful : permutation.Lawful)
    (h : zeroed kind permutation declarations = .ok set) :
    set.Represents (Table.zeroed permutation.size declarations) := by
  obtain ⟨hdistinct, hroom, hset⟩ := zeroed_eq_ok.mp h
  have hpermutation : set.permutation = permutation := by rw [hset]
  have hformed := zeroed_formed hlawful h
  refine ⟨hformed, by rw [hpermutation]; rfl, fun {name} habsent => ?_,
    fun {name field} hfind => ?_⟩
  · rw [Table.zeroed, Option.map_eq_none_iff, List.find?_eq_none]
    intro declaration hmem
    exact List.find?_eq_none.mp habsent (Field.zeroed declaration permutation.size)
      ((mem_zeroed h).mpr ⟨declaration, hmem, rfl⟩)
  · obtain ⟨declaration, hmem, rfl⟩ := (mem_zeroed h).mp (List.mem_of_find?_eq_some hfind)
    obtain rfl : declaration.name = name := find?_name hfind
    refine ⟨fun _ _ => declaration.type.scalar.zero, ?_, ?_⟩
    · exact congrArg (Option.map _) (find?_of_nodup hdistinct.names hmem)
    · intro identity hidentity component hcomponent
      have hlt : (set.permutation.slotOf identity).toNat * declaration.type.components + component <
          permutation.size * declaration.type.components :=
        Cells.number_lt (hpermutation ▸ hformed.lawful.slotOf_lt hidentity) hcomponent
      exact Array.getElem?_replicate.trans (if_pos hlt)

theorem Represents.run {set : FieldSet} {table : Table} (h : set.Represents table)
    (calls : List Call) :
    (set.run calls).1.permutation = set.permutation ∧
      (set.run calls).1.Represents (table.run set.permutation calls).1 ∧
      (set.run calls).2.map Except.toOption = (table.run set.permutation calls).2 := by
  induction calls generalizing set table with
  | nil => exact ⟨rfl, h, rfl⟩
  | cons call rest ih =>
    have hstep := h.step call
    rw [FieldSet.run, Table.run]
    generalize set.step call = after at hstep
    generalize table.grant? set.permutation call = granted at hstep
    cases hstep with
    | granted hafter hsame =>
      -- No call changes the permutation, so the table goes on with the one it began with.
      obtain ⟨hlast, hthere, hanswers⟩ := ih hafter
      rw [hsame] at hlast hthere hanswers
      exact ⟨hlast, hthere, by simp only [List.map_cons, hanswers]; rfl⟩
    | refused error =>
      obtain ⟨hlast, hthere, hanswers⟩ := ih h
      exact ⟨hlast, hthere, by simp only [List.map_cons, hanswers]; rfl⟩

theorem Represents.step_of_error {set : FieldSet} {table : Table} (h : set.Represents table)
    {call : Call} {failure : Failure} (hfailure : (set.step call).2 = .error failure) :
    (set.step call).1 = set ∧ ∃ error, failure = .refused error := by
  have hstep := h.step call
  generalize set.step call = after at hstep hfailure
  generalize table.grant? set.permutation call = granted at hstep
  cases hstep with
  | granted => cases hfailure
  | refused error =>
    cases hfailure
    exact ⟨rfl, error, rfl⟩

section Buffers

variable {set : FieldSet} {table : Table} {name : String} {field : Field}

theorem Shows.unique {permutation : Permutation} {cells : Array field.type.scalar.Carrier}
    {hsize : cells.size = field.size * field.type.components}
    {value : Identity → Nat → field.type.scalar.Carrier} (hlawful : permutation.Lawful)
    (hfield : field.size = permutation.size) (h : Shows permutation field value)
    (h' : Shows permutation (field.withCells cells hsize) value) : cells = field.cells := by
  have hcells : field.cells.size = permutation.size * field.type.components := by
    rw [field.cells_size, hfield]
  have hothers : cells.size = permutation.size * field.type.components := by rw [hsize, hfield]
  apply Array.ext_getElem?
  intro i
  by_cases hi : i < permutation.size * field.type.components
  · obtain ⟨hword, hslot⟩ := Cells.element_lt hlawful hi
    rw [← hword] at hslot
    have hidentity := hlawful.identityOf_lt hslot
    have hmod := Nat.mod_lt i (Cells.components_pos hi)
    have hold := h _ hidentity _ hmod
    have hnew := (shows_withCells hsize).mp h' _ hidentity _ hmod
    rw [hlawful.slotOf_identityOf' hslot, hword, Nat.div_add_mod'] at hold hnew
    rw [hold, hnew]
  · rw [Array.getElem?_eq_none (by omega), Array.getElem?_eq_none (by omega)]

theorem Represents.unload_load (h : set.Represents table) {scalar : Scalar}
    {buffer : Array scalar.Carrier} {after : FieldSet}
    (hload : set.load name scalar buffer = .ok after) : after.unload name scalar = .ok buffer := by
  have hload := Checked.after_eq_ok.mp hload
  cases h.lookup name scalar with
  | closed hset htable =>
    obtain ⟨error, herror⟩ := hset.loadInPlace h.formed.names buffer
    rw [herror] at hload
    cases hload
  | @shown field value hfind hsheet hshows =>
    by_cases hbuffer : buffer.size = set.permutation.size * field.type.components
    · obtain ⟨cells, hsize, hloaded, hnext⟩ := h.formed.loadInPlace_eq hfind hbuffer
      rw [hloaded] at hload
      cases hload
      have hname : field.name = name := find?_name hfind
      have hafter := h.store hfind hsize hnext
      have hthere : (set.replace (field.withCells cells hsize)).find? name =
          some (field.withCells cells hsize) := by
        rw [find?_replace, hfind, Option.map_some, Field.withCells_name, if_pos hname.symm]
      have hall := Table.flat_loaded (h.size ▸ h.formed.lawful.size_le) (h.size ▸ hbuffer)
      exact (hafter.formed.unload_flat hthere hnext h.size).trans (congrArg Except.ok hall)
    · obtain ⟨error, herror⟩ := h.formed.loadInPlace_refused hfind hbuffer
      rw [herror] at hload
      cases hload

theorem Represents.load_unload (h : set.Represents table) {scalar : Scalar}
    {buffer : Array scalar.Carrier} (hunload : set.unload name scalar = .ok buffer) :
    set.load name scalar buffer = .ok set ∧
      ∀ identity : Identity, identity.toNat < set.permutation.size → ∃ field,
        set.find? name = some field ∧ set.get name scalar identity =
          .ok (Cells.part field.components buffer identity) := by
  cases h.lookup name scalar with
  | closed hset htable =>
    obtain ⟨error, herror⟩ := hset.unload
    rw [herror] at hunload
    cases hunload
  | @shown field value hfind hsheet hshows =>
    have hlawful := h.formed.lawful
    have hmem := List.mem_of_find?_eq_some hfind
    have hall := h.formed.unload_flat hfind hshows h.size
    obtain rfl := Except.ok.inj (hall.symm.trans hunload)
    have hbuffer : (table.flat field.type.components value).size =
        set.permutation.size * field.type.components := by
      rw [Table.flat, Array.size_ofFn, h.size]
    constructor
    · obtain ⟨cells, hsize, hload, hloaded⟩ := h.formed.loadInPlace_eq hfind hbuffer
      have hsame : Shows set.permutation (field.withCells cells hsize) value := by
        refine (shows_withCells hsize).mpr fun identity hidentity component hcomponent => ?_
        rw [(shows_withCells hsize).mp hloaded identity hidentity component hcomponent,
          ← Table.getElem?_loaded hbuffer hidentity hcomponent,
          Table.getElem?_flat value (h.size ▸ hidentity) hcomponent]
      obtain rfl := hshows.unique hlawful (h.formed.sizes field hmem) hsame
      have hback : set.replace (field.withCells field.cells hsize) = set :=
        replace_self h.formed.names hfind
      exact Checked.after_eq_ok.mpr (hload.trans (by rw [hback]))
    · intro identity hidentity
      have hget := @Formed.readAt_eq set name field (.identity identity) h.formed hfind value hshows
        identity hidentity (findSlotAt_eq (Permutation.slotOf?_eq hidentity))
      have hend : identity.toNat * field.type.components + field.type.components ≤
          (table.flat field.type.components value).size := by
        rw [hbuffer, ← Nat.succ_mul]
        exact Nat.mul_le_mul_right _ hidentity
      have hrow := part_eq_row hend fun component =>
        Table.getElem?_flat value (h.size ▸ hidentity)
      exact ⟨field, hfind, hget.trans (congrArg Except.ok hrow.symm)⟩

end Buffers

/-- Whatever is called, a set that was made answers as a table by identity does, which knows the
permutation only to tell which identity a slot holds. A call that fails is refused and leaves all
values. What was loaded is unloaded, loading what was unloaded changes nothing, and its parts are
the elements by identity. -/
theorem run_follows_table {kind : Kind} {permutation : Permutation}
    {declarations : List Declaration} {set : FieldSet} (made : permutation.Made)
    (allocated : zeroed kind permutation declarations = .ok set) (calls : List Call) :
    (set.run calls).1.Represents
      ((Table.zeroed permutation.size declarations).run permutation calls).1 ∧
    (set.run calls).2.map Except.toOption =
      ((Table.zeroed permutation.size declarations).run permutation calls).2 ∧
    (∀ call failure, ((set.run calls).1.step call).2 = .error failure →
      ((set.run calls).1.step call).1 = (set.run calls).1 ∧ ∃ error, failure = .refused error) ∧
    ∀ name scalar (buffer : Array scalar.Carrier),
      (∀ after, (set.run calls).1.load name scalar buffer = .ok after →
        after.unload name scalar = .ok buffer) ∧
      ((set.run calls).1.unload name scalar = .ok buffer →
        (set.run calls).1.load name scalar buffer = .ok (set.run calls).1 ∧
        ∀ identity : Identity, identity.toNat < permutation.size → ∃ field,
          (set.run calls).1.find? name = some field ∧
          (set.run calls).1.get name scalar identity =
            .ok (Cells.part field.components buffer identity)) := by
  have hpermutation : set.permutation = permutation := by
    obtain ⟨-, -, rfl⟩ := zeroed_eq_ok.mp allocated
    rfl
  obtain ⟨hsame, hlast, hanswers⟩ := (zeroed_represents made.lawful allocated).run calls
  rw [hpermutation] at hsame hlast hanswers
  refine ⟨hlast, hanswers, fun call failure => hlast.step_of_error,
    fun name scalar buffer => ⟨fun after => hlast.unload_load, fun hunload => ?_⟩⟩
  rw [← hsame]
  exact hlast.load_unload hunload

def turnedSet : FieldSet where
  kind := .vertex
  permutation := ⟨#[1, 2, 0], #[2, 0, 1], false⟩
  fields := [Field.zeroed ⟨"pair", ⟨.u32, 2⟩⟩ 3]

def turnedCalls : List Call :=
  [⟨"pair", .u32, .load #[1, 2, 3, 4, 5, 6]⟩, ⟨"pair", .u32, .get (.slot 0)⟩,
    ⟨"pair", .u32, .put (.identity 1) #[7, 8]⟩, ⟨"pair", .u32, .load #[9]⟩,
    ⟨"pair", .i32, .fill 9⟩, ⟨"pair", .u32, .unload⟩]

theorem run_follows_table_turned :
    Permutation.Made ⟨#[1, 2, 0], #[2, 0, 1], false⟩ ∧
      zeroed .vertex ⟨#[1, 2, 0], #[2, 0, 1], false⟩ [⟨"pair", ⟨.u32, 2⟩⟩] = .ok turnedSet ∧
      (turnedSet.run turnedCalls).2.map Except.toOption =
        [some .done, some (.values .u32 #[5, 6]), some .done, none, none,
          some (.values .u32 #[1, 2, 7, 8, 5, 6])] := by
  have hmade : Permutation.Made ⟨#[1, 2, 0], #[2, 0, 1], false⟩ := .ofIdentities
    (by decide) (show Permutation.ofIdentities #[2, 0, 1] = .ok _ by rfl)
  have hzeroed : zeroed .vertex ⟨#[1, 2, 0], #[2, 0, 1], false⟩ [⟨"pair", ⟨.u32, 2⟩⟩] =
      .ok turnedSet := by rfl
  obtain ⟨-, hanswers, -⟩ := run_follows_table hmade hzeroed turnedCalls
  exact ⟨hmade, hzeroed, hanswers.trans (by rfl)⟩

end FieldSet

end MeshLayout
