import MeshLayout.Kernel.Compile
import MeshLayout.Proofs.Export

/-!
# Calls to fields

What can be asked of the fields of a kind, at a slot or of an identity, and what the fields are
after it. Values are replaced where they are stored, so that a call that fails half-way could
leave some of them replaced. A request that meets no field of its name and type, no element at its
address or not as many values as it needs is refused before anything is stored.
-/

set_option autoImplicit false

namespace MeshLayout

namespace FieldSet

inductive Request (scalar : Scalar)
  | load (buffer : Array scalar.Carrier)
  | unload
  | get (address : Address)
  | getScalar (address : Address)
  | put (address : Address) (values : Array scalar.Carrier)
  | fill (value : scalar.Carrier)

structure Call where
  name : String
  scalar : Scalar
  request : Request scalar

inductive Answer
  | done
  | values (scalar : Scalar) (values : Array scalar.Carrier)
  | value (scalar : Scalar) (value : scalar.Carrier)

section Calls

variable (set : FieldSet) (name : String) (scalar : Scalar)

def readAt : Address → Checked (Array scalar.Carrier)
  | .slot slot => set.readSlot name scalar slot
  | .identity identity => set.get name scalar identity

def readScalarAt : Address → Outcome scalar.Carrier
  | .slot slot => set.readSlotScalar name scalar slot
  | .identity identity => set.getScalar name scalar identity

def writeAt (address : Address) (values : Array scalar.Carrier) : FieldSet × Checked Unit :=
  match address with
  | .slot slot => set.writeInPlace name scalar slot values
  | .identity identity => set.putInPlace name scalar identity values

def step (call : Call) : FieldSet × Outcome Answer :=
  match call.request with
  | .load buffer => answered (set.loadInPlace call.name call.scalar buffer)
  | .unload => (set, (set.unload call.name call.scalar).map (.values call.scalar))
  | .get address =>
    (set, Outcome.ofChecked ((set.readAt call.name call.scalar address).map (.values call.scalar)))
  | .getScalar address =>
    (set, (set.readScalarAt call.name call.scalar address).map (.value call.scalar))
  | .put address values => answered (set.writeAt call.name call.scalar address values)
  | .fill value => answered (set.fillInPlace call.name call.scalar value)
where
  answered (step : FieldSet × Checked Unit) : FieldSet × Outcome Answer :=
    (step.1, Outcome.ofChecked (step.2.map fun _ => .done))

def run : FieldSet → List Call → FieldSet × List (Outcome Answer)
  | set, [] => (set, [])
  | set, call :: rest =>
    let (after, answer) := set.step call
    let (last, answers) := after.run rest
    (last, answer :: answers)

end Calls

section InPlace

variable {α : Type}

theorem write_part {components position : Nat} {buffer cells : Array α} {slot : Slot}
    (hroom : cells.size < indexLimit) (hend : slot.toNat * components + components ≤ cells.size)
    (hbuffer : position * components + components ≤ buffer.size) :
    ∃ written, Cells.writeInPlace cells (slot.toNat * components)
        (buffer.extract (position * components) (position * components + components)) =
          (written, .ok ()) ∧
      written.size = cells.size ∧
      ∀ other, ∀ component < components, written[other * components + component]? =
        if other = slot.toNat then buffer[position * components + component]?
        else cells[other * components + component]? := by
  let part := buffer.extract (position * components) (position * components + components)
  have hpart : part.size = components := by
    rw [Array.size_extract]
    omega
  have hwrite : Cells.writeInPlace cells (slot.toNat * components) part =
      (Cells.overwrite part.toList (slot.toNat * components) cells, .ok ()) :=
    Cells.writeInPlace_of_le (by omega) hroom
  refine ⟨_, hwrite, Cells.overwrite_size _ _ _, fun other component hcomponent => ?_⟩
  have hread : part.toList[component]? = buffer[position * components + component]? := by
    rw [Array.getElem?_toList, Array.getElem?_extract_of_lt (by omega),
      Array.getElem?_eq_getElem (by omega)]
  rw [Cells.overwrite_part (by rw [Array.length_toList, hpart]) hend other hcomponent, hread]

theorem storeParts_eq (components : Nat) (buffer : Array α) (slots : List Slot) (position : Nat)
    (cells : Array α) (hroom : cells.size < indexLimit) (hdistinct : slots.Nodup)
    (hends : ∀ slot ∈ slots, slot.toNat * components + components ≤ cells.size)
    (hbuffer : (position + slots.length) * components ≤ buffer.size) :
    ∃ stored, storeParts components buffer slots position cells = (stored, .ok ()) ∧
      stored.size = cells.size ∧
      (∀ i slot, slots[i]? = some slot → ∀ component < components,
        stored[slot.toNat * components + component]? =
          buffer[(position + i) * components + component]?) ∧
      ∀ slot, slot ∉ slots → ∀ component < components,
        stored[slot.toNat * components + component]? =
          cells[slot.toNat * components + component]? := by
  induction slots generalizing position cells with
  | nil => exact ⟨cells, rfl, rfl, fun i slot hslot => by simp at hslot, fun _ _ _ _ => rfl⟩
  | cons slot rest ih =>
    obtain ⟨hnew, hrest⟩ := List.nodup_cons.mp hdistinct
    obtain ⟨hend, hlater⟩ := List.forall_mem_cons.mp hends
    rw [List.length_cons, ← Nat.add_assoc, Nat.add_right_comm] at hbuffer
    have hfirst : position * components + components ≤ buffer.size := by
      rw [← Nat.succ_mul]
      exact Nat.le_trans (Nat.mul_le_mul_right components (Nat.le_add_right _ _)) hbuffer
    obtain ⟨written, hwrite, hwide, hwritten⟩ := write_part hroom hend hfirst
    rw [← hwide] at hroom hlater
    obtain ⟨stored, hstored, hsize, hthere, helse⟩ :=
      ih (position + 1) written hroom hrest hlater hbuffer
    refine ⟨stored, ?_, hsize.trans hwide, ?_, ?_⟩
    · simp only [storeParts, hwrite]
      exact hstored
    · intro i other hother component hcomponent
      cases i with
      | zero =>
        cases hother
        -- No later part goes to the first slot again.
        rw [helse slot hnew component hcomponent, hwritten _ _ hcomponent, if_pos rfl, Nat.add_zero]
      | succ i =>
        rw [hthere i other hother component hcomponent, Nat.add_assoc, Nat.add_comm 1 i]
    · intro other hother component hcomponent
      rw [List.mem_cons, not_or] at hother
      have hne : other.toNat ≠ slot.toNat := fun h => hother.1 (UInt32.toNat_inj.mp h)
      rw [helse other hother.2 component hcomponent, hwritten _ _ hcomponent, if_neg hne]

end InPlace

/-- A set as it is made: a lawful permutation, and fields of different names with values for each
element, few enough to be counted. -/
structure Formed (set : FieldSet) : Prop where
  lawful : set.permutation.Lawful
  names : (set.fields.map Field.name).Nodup
  sizes : ∀ field ∈ set.fields, field.size = set.permutation.size
  rooms : ∀ field ∈ set.fields, field.cells.size < indexLimit
  components : ∀ field ∈ set.fields, field.type.components ≠ 0

theorem mem_zeroed {kind : Kind} {permutation : Permutation} {declarations : List Declaration}
    {set : FieldSet} {field : Field} (h : zeroed kind permutation declarations = .ok set) :
    field ∈ set.fields ↔ ∃ declaration ∈ declarations,
      Field.zeroed declaration permutation.size = field := by
  rw [(zeroed_fields h).mem_iff, List.mem_map]

theorem zeroed_formed {kind : Kind} {permutation : Permutation} {declarations : List Declaration}
    {set : FieldSet} (hlawful : permutation.Lawful)
    (h : zeroed kind permutation declarations = .ok set) : set.Formed := by
  obtain ⟨hdistinct, hroom, hset⟩ := zeroed_eq_ok.mp h
  have hpermutation : set.permutation = permutation := by rw [hset]
  refine ⟨hpermutation ▸ hlawful, ?_, ?_, ?_, ?_⟩
  · have hperm := (zeroed_fields h).map Field.name
    rw [List.map_map] at hperm
    exact hperm.nodup_iff.mpr hdistinct.names
  · intro field hfield
    obtain ⟨declaration, -, rfl⟩ := (mem_zeroed h).mp hfield
    rw [hpermutation]
    rfl
  · intro field hfield
    obtain ⟨declaration, hmem, rfl⟩ := (mem_zeroed h).mp hfield
    rw [Field.cells_size]
    exact (hroom declaration hmem).lt
  · intro field hfield
    obtain ⟨declaration, hmem, rfl⟩ := (mem_zeroed h).mp hfield
    exact hdistinct.components declaration hmem

theorem find?_replace (set : FieldSet) (field : Field) (name : String) :
    (set.replace field).find? name =
      (set.find? name).map fun old => if name = field.name then field else old := by
  have hname : ((fun other : Field => other.name == name) ∘ fun old : Field =>
      if old.name = field.name then field else old) = fun other : Field => other.name == name := by
    funext old
    simp only [Function.comp_apply]
    split
    · next h => rw [h]
    · rfl
  rw [find?, find?, replace, List.find?_map, hname]
  cases hfind : set.fields.find? (fun other => other.name == name) with
  | none => rfl
  | some old =>
    have hold : old.name = name := find?_name hfind
    rw [Option.map_some, Option.map_some, hold]

theorem replace_names (set : FieldSet) (field : Field) :
    (set.replace field).fields.map Field.name = set.fields.map Field.name := by
  rw [replace, List.map_map]
  apply List.map_congr_left
  intro old _
  simp only [Function.comp_apply]
  split
  · next h => exact h.symm
  · rfl

theorem replace_self {set : FieldSet} {name : String} {field : Field}
    (hnames : (set.fields.map Field.name).Nodup)
    (hfind : set.find? name = some field) : set.replace field = set := by
  have hsame : set.fields.map (fun old => if old.name = field.name then field else old) =
      set.fields := by
    refine (List.map_congr_left fun old hold => ?_).trans (List.map_id _)
    split
    · next hname =>
      exact (List.inj_on_of_nodup_map hnames hold (List.mem_of_find?_eq_some hfind) hname).symm
    · rfl
  rw [replace, hsame]

theorem putBack_self {set : FieldSet} {name : String} {field : Field}
    (hnames : (set.fields.map Field.name).Nodup) (hfield : set.field name = .ok field)
    (result : Checked Unit) : set.putBack (field, result) = (set, result) := by
  rw [putBack, replace_self hnames (field_eq_ok.mp hfield)]

def slotAt? (permutation : Permutation) : Address → Option Slot
  | .slot slot => if slot.toNat < permutation.size then some slot else none
  | .identity identity => permutation.slotOf? identity

section Refused

variable {set : FieldSet} {name : String} {scalar : Scalar} {address : Address}

def findSlotAt (set : FieldSet) : Address → Checked Slot
  | .slot slot => .ok slot
  | .identity identity => set.permutation.findSlot identity

theorem findSlotAt_eq {slot : Slot}
    (h : slotAt? set.permutation address = some slot) : set.findSlotAt address = .ok slot := by
  cases address with
  | slot own =>
    rw [slotAt?] at h
    split at h
    · cases h
      rfl
    · cases h
  | identity identity =>
    rw [slotAt?] at h
    rw [findSlotAt, Permutation.findSlot, h]

theorem readAt_bind (set : FieldSet) (name : String) (scalar : Scalar) (address : Address) :
    set.readAt name scalar address = (do
      let field ← set.field name
      let slot ← set.findSlotAt address
      field.element scalar slot.toNat) := by
  cases address <;> rfl

theorem readScalarAt_bind (set : FieldSet) (name : String) (scalar : Scalar) (address : Address) :
    set.readScalarAt name scalar address = (do
      let field ← set.field name
      let slot ← set.findSlotAt address
      field.get scalar slot.toNat 0) := by
  cases address <;> rfl

theorem writeAt_eq (set : FieldSet) (name : String) (scalar : Scalar) (address : Address)
    (values : Array scalar.Carrier) : set.writeAt name scalar address values =
      (set.field name).orLeave set fun field => (set.findSlotAt address).orLeave set fun slot =>
        set.putBack (field.setInPlace scalar slot.toNat values) := by
  cases address <;> rfl

def Closed (set : FieldSet) (name : String) (scalar : Scalar) : Prop :=
  ∀ field, set.field name = .ok field → ∃ error, field.values scalar = .error error

/-- No field of the name has an element at the address that could be seen in the type. -/
def Barred (set : FieldSet) (name : String) (scalar : Scalar) (address : Address) : Prop :=
  ∀ field slot, set.field name = .ok field → set.findSlotAt address = .ok slot →
    field.Bars scalar slot.toNat

theorem Closed.barred (h : set.Closed name scalar) (address : Address) :
    set.Barred name scalar address := fun field _ hfield _ => .inl (h field hfield)

theorem Formed.barred (h : set.Formed) (name : String) (scalar : Scalar)
    (hslot : slotAt? set.permutation address = none) : set.Barred name scalar address := by
  intro field slot hfield hthere
  have hsize := h.sizes field (List.mem_of_find?_eq_some (field_eq_ok.mp hfield))
  refine .inr ?_
  rw [hsize]
  cases address with
  | slot own =>
    cases hthere
    by_contra hlt
    rw [slotAt?, if_pos (by omega)] at hslot
    cases hslot
  | identity identity =>
    rw [slotAt?] at hslot
    rw [findSlotAt, Permutation.findSlot, hslot] at hthere
    cases hthere

namespace Barred

variable (h : set.Barred name scalar address)
include h

theorem readAt : ∃ error, set.readAt name scalar address = .error error := by
  rw [readAt_bind]
  exact bind_error_of fun field hfield => bind_error_of fun slot hslot =>
    (h field slot hfield hslot).element

theorem readScalarAt :
    ∃ error, set.readScalarAt name scalar address = Outcome.refuse error := by
  rw [readScalarAt_bind]
  cases hfield : set.field name with
  | error error => exact ⟨error, rfl⟩
  | ok field =>
    cases hslot : set.findSlotAt address with
    | error error => exact ⟨error, rfl⟩
    | ok slot => exact (h field slot hfield hslot).get 0

theorem writeAt (hnames : (set.fields.map Field.name).Nodup) (values : Array scalar.Carrier) :
    ∃ error, set.writeAt name scalar address values = (set, .error error) := by
  rw [writeAt_eq]
  cases hfield : set.field name with
  | error error => exact ⟨error, rfl⟩
  | ok field =>
    cases hslot : set.findSlotAt address with
    | error error => exact ⟨error, rfl⟩
    | ok slot =>
      obtain ⟨error, herror⟩ := (h field slot hfield hslot).setInPlace values
      rw [Checked.orLeave_ok, Checked.orLeave_ok, herror, putBack_self hnames hfield]
      exact ⟨error, rfl⟩

end Barred

namespace Closed

variable (h : set.Closed name scalar) (hnames : (set.fields.map Field.name).Nodup)

include h in
theorem unload : ∃ error, set.unload name scalar = Outcome.refuse error := by
  unfold FieldSet.unload
  cases hfield : set.field name with
  | error error => exact ⟨error, rfl⟩
  | ok field =>
    obtain ⟨error, herror⟩ := h field hfield
    simp only [Outcome.liftM_eq, Outcome.ofChecked_ok, ok_bind, herror]
    exact ⟨error, rfl⟩

include h hnames

theorem loadInPlace (buffer : Array scalar.Carrier) :
    ∃ error, set.loadInPlace name scalar buffer = (set, .error error) := by
  unfold FieldSet.loadInPlace
  cases hfield : set.field name with
  | error error => exact ⟨error, rfl⟩
  | ok field =>
    obtain ⟨error, herror⟩ := h field hfield
    rw [Checked.orLeave_ok]
    split
    · rw [Field.loadInPlace, herror, Checked.orLeave_error, putBack_self hnames hfield]
      exact ⟨error, rfl⟩
    · dsimp only
      rw [Checked.require]
      split
      · rw [Checked.orLeave_ok, herror]
        exact ⟨error, rfl⟩
      · exact ⟨_, rfl⟩

theorem fillInPlace (value : scalar.Carrier) :
    ∃ error, set.fillInPlace name scalar value = (set, .error error) := by
  unfold FieldSet.fillInPlace
  cases hfield : set.field name with
  | error error => exact ⟨error, rfl⟩
  | ok field =>
    obtain ⟨error, herror⟩ := h field hfield
    rw [Checked.orLeave_ok, Field.fillInPlace, herror, Checked.orLeave_error,
      putBack_self hnames hfield]
    exact ⟨error, rfl⟩

end Closed

theorem Closed.step {call : Call} (h : set.Closed call.name call.scalar)
    (hnames : (set.fields.map Field.name).Nodup) :
    ∃ error, set.step call = (set, Outcome.refuse error) := by
  obtain ⟨name, scalar, request⟩ := call
  cases request with
  | load buffer =>
    obtain ⟨error, herror⟩ := h.loadInPlace hnames buffer
    simp only [FieldSet.step, herror]
    exact ⟨error, rfl⟩
  | unload =>
    obtain ⟨error, herror⟩ := h.unload
    simp only [FieldSet.step, herror]
    exact ⟨error, rfl⟩
  | get address =>
    obtain ⟨error, herror⟩ := (h.barred address).readAt
    simp only [FieldSet.step, herror]
    exact ⟨error, rfl⟩
  | getScalar address =>
    obtain ⟨error, herror⟩ := (h.barred address).readScalarAt
    simp only [FieldSet.step, herror]
    exact ⟨error, rfl⟩
  | put address values =>
    obtain ⟨error, herror⟩ := (h.barred address).writeAt hnames values
    simp only [FieldSet.step, herror]
    exact ⟨error, rfl⟩
  | fill value =>
    obtain ⟨error, herror⟩ := h.fillInPlace hnames value
    simp only [FieldSet.step, herror]
    exact ⟨error, rfl⟩

end Refused

section Sizes

variable {set : FieldSet} {name : String} {field : Field} (hformed : set.Formed)
  (hfind : set.find? name = some field)
include hformed hfind

theorem Formed.cells_size : field.cells.size = set.permutation.size * field.type.components := by
  rw [field.cells_size, hformed.sizes field (List.mem_of_find?_eq_some hfind)]

theorem Formed.loadInPlace_refused {buffer : Array field.type.scalar.Carrier}
    (hbuffer : buffer.size ≠ set.permutation.size * field.type.components) :
    ∃ error, set.loadInPlace name field.type.scalar buffer = (set, .error error) := by
  have hcells := hformed.cells_size hfind
  have hfield := field_eq_ok.mpr hfind
  have hexpected : ¬buffer.size = set.size * field.components := hbuffer
  unfold loadInPlace
  rw [hfield, Checked.orLeave_ok]
  split
  · rw [Field.loadInPlace, field.values_eq, Checked.orLeave_ok, Checked.require,
      if_neg (by omega), Checked.orLeave_error, putBack_self hformed.names hfield]
    exact ⟨_, rfl⟩
  · dsimp only
    rw [Checked.require, if_neg hexpected]
    exact ⟨_, rfl⟩

theorem Formed.writeAt_refused {address : Address} {slot : Slot}
    {values : Array field.type.scalar.Carrier} (hslot : set.findSlotAt address = .ok slot)
    (hlt : slot.toNat < set.permutation.size) (hvalues : values.size ≠ field.type.components) :
    ∃ error, set.writeAt name field.type.scalar address values = (set, .error error) := by
  have hlt : slot.toNat < field.size := by
    rwa [hformed.sizes field (List.mem_of_find?_eq_some hfind)]
  have hvalues : ¬values.size = field.components := hvalues
  have hfield := field_eq_ok.mpr hfind
  rw [writeAt_eq, hfield, Checked.orLeave_ok, hslot, Checked.orLeave_ok, Field.setInPlace,
    field.values_eq, Checked.orLeave_ok, Field.checkIndex, Checked.require_of _ hlt,
    Checked.orLeave_ok, Checked.require, if_neg hvalues, Checked.orLeave_error,
    putBack_self hformed.names hfield]
  exact ⟨_, rfl⟩

end Sizes

end FieldSet

end MeshLayout
