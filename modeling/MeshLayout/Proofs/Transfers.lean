import MeshLayout.Proofs.Column

/-!
# Transfers of ranges

Ranges of the cells of a column are written and read, and the values of other columns are stored
from its start. Each of these either fits and changes the cells of its range and no others, or is
refused and changes nothing; so a cell holds what the last transfer that fits has stored there.
The end of a range is a sum that need not be an index. It is never cut to one before it is compared
with the number of cells, only when it is reported.
-/

set_option autoImplicit false

namespace MeshLayout

namespace Cells

variable {α : Type}

theorem overwrite_getElem? {values cells : Array α} {offset : Nat}
    (h : offset + values.size ≤ cells.size) (i : Nat) :
    (overwrite values.toList offset cells)[i]? =
      if offset ≤ i ∧ i < offset + values.size then values[i - offset]? else cells[i]? := by
  by_cases hbefore : i < offset
  · rw [if_neg (by omega), overwrite_before _ _ _ hbefore]
  · by_cases hafter : offset + values.size ≤ i
    · rw [if_neg (by omega), overwrite_after _ _ _ (by simpa using hafter)]
    · have hi : i - offset < values.toList.length := by
        rw [Array.length_toList]
        omega
      have hinside := overwrite_inside values.toList offset cells hi (by omega)
      rw [Nat.add_sub_cancel' (by omega), Array.getElem?_toList] at hinside
      rw [if_pos (by omega), hinside]

theorem checkRange_of_lt {cells : Array α} {offset length : Nat}
    (h : cells.size < offset + length) : checkRange cells offset length =
      .error (.outOfRange .columnEnd (min (offset + length) (indexLimit - 1)) cells.size) := by
  rw [checkRange, Checked.require, if_neg (by omega)]

end Cells

namespace Column

variable {scalar : Scalar}

inductive Transfer (scalar : Scalar)
  | write (offset : Nat) (values : Array scalar.Carrier)
  | read (offset length : Nat)
  | store (other : Column)

namespace Transfer

def stop : Transfer scalar → Nat
  | write offset values => offset + values.size
  | read offset length => offset + length
  | store other => other.size

/-- Only another column can be of another type. -/
def Typed : Transfer scalar → Prop
  | write .. => True
  | read .. => True
  | store other => other.scalar = scalar

inductive Fails (size : Nat) : Transfer scalar → Error → Prop
  | type {other : Column} (differs : other.scalar ≠ scalar) :
      Fails size (.store other) (.scalarMismatch "column" scalar other.scalar)
  | range {transfer : Transfer scalar} (typed : transfer.Typed) (beyond : size < transfer.stop) :
      Fails size transfer (.outOfRange .columnEnd (min transfer.stop (indexLimit - 1)) size)

def source? : Transfer scalar → Option (Nat × Array scalar.Carrier)
  | write offset values => some (offset, values)
  | read .. => none
  | store other => (other.as? scalar).map fun values => (0, values)

def put (transfer : Transfer scalar) (before : Nat → Option scalar.Carrier) (i : Nat) :
    Option scalar.Carrier :=
  match transfer.source? with
  | some (offset, values) =>
    if offset ≤ i ∧ i < offset + values.size then values[i - offset]? else before i
  | none => before i

/-- The values of so many cells after transfers, of which those that do not fit are passed over. -/
def putAll (size : Nat) : List (Transfer scalar) → (Nat → Option scalar.Carrier) → Nat →
    Option scalar.Carrier
  | [], before => before
  | transfer :: rest, before =>
    putAll size rest (if transfer.stop ≤ size then transfer.put before else before)

end Transfer

def transfer (cells : Array scalar.Carrier) :
    Transfer scalar → Array scalar.Carrier × Checked (Array scalar.Carrier)
  | .write offset values =>
    let (after, result) := Cells.writeInPlace cells offset values
    (after, result.map fun _ => #[])
  | .read offset length => (cells, Cells.read cells offset length)
  | .store other =>
    let (after, result) := storeInPlace ⟨scalar, cells⟩ other
    ((after.as? scalar).getD cells, result.map fun _ => #[])

def transfers (cells : Array scalar.Carrier) : List (Transfer scalar) →
    Array scalar.Carrier × List (Checked (Array scalar.Carrier))
  | [] => (cells, [])
  | next :: rest =>
    let (after, answer) := transfer cells next
    let (last, answers) := transfers after rest
    (last, answer :: answers)

structure Fitting (cells : Array scalar.Carrier) (next : Transfer scalar)
    (after : Array scalar.Carrier × Checked (Array scalar.Carrier)) : Prop where
  size : after.1.size = cells.size
  stored : ∀ i, after.1[i]? = next.put (cells[·]?) i
  granted : ∃ part, after.2 = .ok part
  given : ∀ offset length, next = .read offset length → ∃ part, after.2 = .ok part ∧
    part.size = length ∧ ∀ i < length, part[i]? = cells[offset + i]?

section Step

variable {cells : Array scalar.Carrier} {next : Transfer scalar} {error : Error}

theorem storeInPlace_of_ne {column other : Column} (h : other.scalar ≠ column.scalar) :
    column.storeInPlace other =
      (column, .error (.scalarMismatch "column" column.scalar other.scalar)) := by
  rw [storeInPlace, as?_eq_none.mpr h]

theorem writeInPlace_of_lt {cells values : Array scalar.Carrier} {offset : Nat}
    (h : cells.size < offset + values.size) : Cells.writeInPlace cells offset values =
      (cells, .error (.outOfRange .columnEnd (min (offset + values.size) (indexLimit - 1))
        cells.size)) := by
  rw [Cells.writeInPlace, Cells.checkRange_of_lt h, Checked.orLeave_error]

theorem transfer_store (cells values : Array scalar.Carrier) :
    transfer cells (.store ⟨scalar, values⟩) = transfer cells (.write 0 values) := by
  simp only [transfer, storeInPlace, as?_mk, Option.getD_some]

theorem transfer_of_fails (h : next.Fails cells.size error) :
    transfer cells next = (cells, .error error) := by
  cases h with
  | @type other differs =>
    have hstep := @storeInPlace_of_ne ⟨scalar, cells⟩ other differs
    simp only [transfer, hstep, as?_mk, Option.getD_some]
    rfl
  | range typed beyond =>
    cases next with
    | write offset values =>
      simp only [transfer, writeInPlace_of_lt beyond]
      rfl
    | read offset length =>
      rw [transfer, Cells.read, Cells.checkRange_of_lt beyond, error_bind]
      rfl
    | store other =>
      obtain ⟨own, values⟩ := other
      obtain rfl : own = scalar := typed
      have hbeyond : cells.size < 0 + values.size := by
        rw [Nat.zero_add]
        exact beyond
      rw [transfer_store]
      simp only [transfer, writeInPlace_of_lt hbeyond, Nat.zero_add]
      rfl

theorem fitting_write (hroom : cells.size < indexLimit) {offset : Nat}
    {values : Array scalar.Carrier} (h : offset + values.size ≤ cells.size) :
    Fitting cells (.write offset values) (transfer cells (.write offset values)) := by
  simp only [transfer, Cells.writeInPlace_of_le h hroom]
  refine ⟨Cells.overwrite_size _ _ _, Cells.overwrite_getElem? h, ⟨_, rfl⟩, ?_⟩
  intro other length hread
  cases hread

theorem transfer_fitting (hroom : cells.size < indexLimit) (htyped : next.Typed)
    (hstop : next.stop ≤ cells.size) : Fitting cells next (transfer cells next) := by
  cases next with
  | write offset values => exact fitting_write hroom hstop
  | read offset length =>
    have hstop : offset + length ≤ cells.size := hstop
    have hread := Cells.read_of_le hstop hroom
    refine ⟨rfl, fun _ => rfl, ⟨_, hread⟩, fun other count heq => ?_⟩
    cases heq
    refine ⟨_, hread, ?_, fun i hi => ?_⟩
    · rw [Array.size_extract]
      omega
    · rw [Array.getElem?_extract_of_lt (by omega), Array.getElem?_eq_getElem]
  | store other =>
    obtain ⟨own, values⟩ := other
    obtain rfl : own = scalar := htyped
    have hend : 0 + values.size ≤ cells.size := by
      rw [Nat.zero_add]
      exact hstop
    have hfit := fitting_write hroom hend
    rw [transfer_store]
    refine ⟨hfit.size, fun i => ?_, hfit.granted, fun offset length heq => nomatch heq⟩
    rw [hfit.stored, Transfer.put, Transfer.put, Transfer.source?, Transfer.source?, as?_mk,
      Option.map_some]

theorem fails_or_fits (next : Transfer scalar) (size : Nat) :
    (∃ error, next.Fails size error) ∨ next.Typed ∧ next.stop ≤ size := by
  by_cases htyped : next.Typed
  · by_cases hstop : next.stop ≤ size
    · exact .inr ⟨htyped, hstop⟩
    · exact .inl ⟨_, .range htyped (by omega)⟩
  · cases next with
    | write offset values => exact absurd trivial htyped
    | read offset length => exact absurd trivial htyped
    | store other => exact .inl ⟨_, .type htyped⟩

theorem transfer_eq_error (hroom : cells.size < indexLimit) :
    (transfer cells next).2 = .error error ↔ next.Fails cells.size error := by
  constructor
  · intro h
    rcases fails_or_fits next cells.size with ⟨other, hfails⟩ | ⟨htyped, hstop⟩
    · rw [transfer_of_fails hfails] at h
      cases h
      exact hfails
    · obtain ⟨part, hpart⟩ := (transfer_fitting hroom htyped hstop).granted
      rw [hpart] at h
      cases h
  · intro h
    rw [transfer_of_fails h]

theorem transfer_put (hroom : cells.size < indexLimit) (next : Transfer scalar) :
    (transfer cells next).1.size = cells.size ∧ ∀ i, (transfer cells next).1[i]? =
      (if next.stop ≤ cells.size then next.put (cells[·]?) else (cells[·]?)) i := by
  rcases fails_or_fits next cells.size with ⟨error, hfails⟩ | ⟨htyped, hstop⟩
  · rw [transfer_of_fails hfails]
    refine ⟨rfl, fun i => ?_⟩
    cases hfails with
    | @type other differs =>
      -- Nothing can be taken from a column of another type, also if it is short enough.
      have hnone : (.store other : Transfer scalar).source? = none := by
        rw [Transfer.source?, as?_eq_none.mpr differs, Option.map_none]
      split
      · rw [Transfer.put, hnone]
      · rfl
    | range typed beyond => rw [if_neg (by omega)]
  · have hfit := transfer_fitting hroom htyped hstop
    exact ⟨hfit.size, by rw [if_pos hstop]; exact hfit.stored⟩

end Step

theorem transfers_put {cells : Array scalar.Carrier} (hroom : cells.size < indexLimit)
    (past : List (Transfer scalar)) : (transfers cells past).1.size = cells.size ∧
      ∀ i, (transfers cells past).1[i]? = Transfer.putAll cells.size past (cells[·]?) i := by
  induction past generalizing cells with
  | nil => exact ⟨rfl, fun _ => rfl⟩
  | cons next rest ih =>
    obtain ⟨hsize, hstep⟩ := transfer_put hroom next
    obtain ⟨hlast, hvalues⟩ := ih (hsize ▸ hroom)
    refine ⟨hlast.trans hsize, fun i => ?_⟩
    rw [transfers, hvalues, hsize, Transfer.putAll, ← funext hstep]

/-- Whatever was transferred before, a cell holds what the last transfer that fits has stored there.
The next transfer is granted exactly if its values are of the type of the column and the end of its
range, which is not cut to an index, is at most the number of cells. It changes the cells of its
range and no others, or gives their values. Otherwise the answer is what is wrong with it, with the
end of its range or the largest index if that is less, and every cell is left. -/
theorem transfers_exact (cells : Array scalar.Carrier) (room : cells.size < indexLimit)
    (past : List (Transfer scalar)) :
    let now := (transfers cells past).1
    now.size = cells.size ∧
    (∀ i, now[i]? = Transfer.putAll cells.size past (cells[·]?) i) ∧
    ∀ next : Transfer scalar,
      ((∃ part, (transfer now next).2 = .ok part) ↔ next.Typed ∧ next.stop ≤ cells.size) ∧
      (next.Typed → next.stop ≤ cells.size → Fitting now next (transfer now next)) ∧
      ∀ error, ((transfer now next).2 = .error error ↔ next.Fails cells.size error) ∧
        (next.Fails cells.size error → transfer now next = (now, .error error)) := by
  intro now
  obtain ⟨hsize, hvalues⟩ := transfers_put room past
  have hroom : now.size < indexLimit := hsize ▸ room
  have hfits : ∀ {next : Transfer scalar}, next.Typed → next.stop ≤ cells.size →
      Fitting now next (transfer now next) :=
    fun htyped hstop => transfer_fitting hroom htyped (hsize ▸ hstop)
  refine ⟨hsize, hvalues, fun next => ⟨⟨fun hpart => ?_, fun h => (hfits h.1 h.2).granted⟩,
    hfits, fun error => ?_⟩⟩
  · obtain ⟨part, hpart⟩ := hpart
    rcases fails_or_fits next now.size with ⟨error, hfails⟩ | hfit
    · rw [transfer_of_fails hfails] at hpart
      cases hpart
    · exact hsize ▸ hfit
  · rw [← hsize]
    exact ⟨transfer_eq_error hroom, transfer_of_fails⟩

/-- Two ranges that overlap, and between them one that does not fit. The last range begins so late
that its end is no index. -/
theorem transfers_exact_overlapping :
    let cells : Array Scalar.i32.Carrier := #[1, 2, 3, 4]
    let now := (transfers cells [.write 1 #[5, 6], .write 3 #[8, 8], .write 2 #[7]]).1
    cells.size < indexLimit ∧ now[1]? = some 5 ∧ now[2]? = some 7 ∧ now[3]? = some 4 ∧
    (∃ part, (transfer now (.read 1 3)).2 = .ok part ∧ part.size = 3 ∧ part[1]? = some 7) ∧
    (∀ i, (transfer now (.store ⟨.i32, #[9]⟩)).1[i]? =
      if 0 ≤ i ∧ i < 1 then (#[9] : Array Scalar.i32.Carrier)[i]? else now[i]?) ∧
    transfer now (.store ⟨.u32, #[9]⟩) = (now, .error (.scalarMismatch "column" .i32 .u32)) ∧
    transfer now (.write 18446744073709551615 #[8, 8]) =
      (now, .error (.outOfRange .columnEnd 18446744073709551615 4)) := by
  intro cells now
  have hroom : cells.size < indexLimit := by decide
  obtain ⟨-, hvalues, hnext⟩ := transfers_exact cells hroom
    [.write 1 #[5, 6], .write 3 #[8, 8], .write 2 #[7]]
  have hsecond : now[2]? = some 7 := (hvalues 2).trans (by decide)
  obtain ⟨part, hpart, hsize, hread⟩ :=
    ((hnext (.read 1 3)).2.1 trivial (by decide)).given 1 3 rfl
  have hbeyond : Transfer.Fails 4 (.write 18446744073709551615 #[8, 8] : Transfer .i32)
      (.outOfRange .columnEnd 18446744073709551615 4) := .range trivial (by decide)
  exact ⟨hroom, (hvalues 1).trans (by decide), hsecond, (hvalues 3).trans (by decide),
    ⟨part, hpart, hsize, (hread 1 (by decide)).trans hsecond⟩,
    ((hnext (.store ⟨.i32, #[9]⟩)).2.1 rfl (by decide)).stored,
    ((hnext (.store ⟨.u32, #[9]⟩)).2.2 _).2 (.type (by decide)),
    ((hnext (.write 18446744073709551615 #[8, 8])).2.2 _).2 hbeyond⟩

end Column

end MeshLayout
