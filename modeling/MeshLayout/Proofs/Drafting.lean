import MeshLayout.Proofs.Draft
import MeshLayout.Proofs.Mesh

/-!
# Drafts that calls put together

A draft is put together by calls that declare counts, relations and patches. Of the counts and
the patches of a kind the last ones stay, of the relations all. Validation accepts the calls that
are consistent, its metadata reads back what they declare, and it does not matter in which order
relations are declared, nor how the declarations for different kinds are interleaved.
-/

set_option autoImplicit false

namespace MeshLayout

namespace PerKind

variable {α : Type}

def update (table : PerKind (Option α)) : List (Kind × α) → PerKind (Option α)
  | [] => table
  | (kind, a) :: rest => (table.set kind (some a)).update rest

def last? (kind : Kind) (entries : List (Kind × α)) : Option α :=
  ((entries.filter fun entry => entry.1 = kind).map Prod.snd).getLast?

def entries (table : PerKind (Option α)) : List (Kind × α) :=
  Kind.all.filterMap fun kind => (table.get kind).map fun a => (kind, a)

theorem get_update (table : PerKind (Option α)) (entries : List (Kind × α)) (kind : Kind) :
    (table.update entries).get kind = (last? kind entries).or (table.get kind) := by
  induction entries generalizing table with
  | nil => rfl
  | cons entry rest ih =>
    obtain ⟨other, a⟩ := entry
    rw [update, ih, get_set]
    by_cases heq : kind = other
    · subst heq
      cases hlast : last? kind rest with
      | none =>
        rw [last?, List.getLast?_eq_none_iff] at hlast
        simp [last?, hlast]
      | some b =>
        rw [last?] at hlast
        simp [last?, List.getLast?_cons, hlast]
    · simp [last?, heq, Ne.symm heq]

theorem update_entries (table : PerKind (Option α)) :
    (PerKind.const none).update table.entries = table := by
  obtain ⟨_ | _, _ | _, _ | _, _ | _⟩ := table <;> rfl

end PerKind

namespace Draft

inductive Call
  | count (kind : Kind) (count : Nat)
  | relation (given : RelationDraft)
  | lists (relation : Relation) (rows : List (List UInt32))
  | patches (kind : Kind) (patches : Array Patch)
  deriving DecidableEq

def after (draft : Draft) : Call → Draft
  | .count kind count => draft.setCount kind count
  | .relation given => draft.addRelation given.relation given.offsets given.neighbors
  | .lists relation rows => draft.addLists relation rows
  | .patches kind patches => draft.setPatches kind patches

def run (draft : Draft) : List Call → Draft
  | [] => draft
  | call :: rest => (draft.after call).run rest

def drawn (calls : List Call) : Draft := empty.run calls

def calls (document : Draft) : List Call :=
  document.counts.entries.map (fun entry => .count entry.1 entry.2) ++
    document.relations.map .relation ++
    document.patches.entries.map fun entry => .patches entry.1 entry.2

namespace Call

def count? : Call → Option (Kind × Nat)
  | .count kind size => some (kind, size)
  | .relation _ | .lists _ _ | .patches _ _ => none

def given? : Call → Option RelationDraft
  | .relation given => some given
  | .lists key rows =>
    some ⟨key, (Adjacency.pack rows 0).offsets, (Adjacency.pack rows 0).targets⟩
  | .count _ _ | .patches _ _ => none

def patches? : Call → Option (Kind × Array Patch)
  | .patches kind given => some (kind, given)
  | .count _ _ | .relation _ | .lists _ _ => none

end Call

theorem run_eq (draft : Draft) (calls : List Call) : draft.run calls =
    ⟨draft.counts.update (calls.filterMap Call.count?),
      draft.relations ++ calls.filterMap Call.given?,
      draft.patches.update (calls.filterMap Call.patches?)⟩ := by
  induction calls generalizing draft with
  | nil => simp [run, PerKind.update]
  | cons call rest ih =>
    rw [run, ih]
    cases call with
    | count kind count => rfl
    | relation given =>
      simp [after, addRelation, List.filterMap_cons, Call.count?, Call.given?, Call.patches?]
    | lists relation rows =>
      simp [after, addLists, addRelation, List.filterMap_cons, Call.count?, Call.given?,
        Call.patches?]
    | patches kind patches => rfl

section Drawn

variable {calls other : List Call}

theorem drawn_counts (kind : Kind) :
    (drawn calls).counts.get kind = PerKind.last? kind (calls.filterMap Call.count?) := by
  rw [drawn, run_eq, PerKind.get_update,
    show empty.counts.get kind = none from PerKind.get_const _ _, Option.or_none]

theorem drawn_relations : (drawn calls).relations = calls.filterMap Call.given? := by
  rw [drawn, run_eq]
  exact List.nil_append _

theorem drawn_patches (kind : Kind) :
    (drawn calls).patches.get kind = PerKind.last? kind (calls.filterMap Call.patches?) := by
  rw [drawn, run_eq, PerKind.get_update,
    show empty.patches.get kind = none from PerKind.get_const _ _, Option.or_none]

theorem drawn_calls (document : Draft) : drawn document.calls = document := by
  have hcounts : document.calls.filterMap Call.count? = document.counts.entries := by
    simp [Draft.calls, Call.count?, List.filterMap_map, Function.comp_def]
  have hgiven : document.calls.filterMap Call.given? = document.relations := by
    simp [Draft.calls, Call.given?, List.filterMap_map, Function.comp_def]
  have hpatches : document.calls.filterMap Call.patches? = document.patches.entries := by
    simp [Draft.calls, Call.patches?, List.filterMap_map, Function.comp_def]
  rw [drawn, run_eq, hcounts, hgiven, hpatches]
  simp [empty, PerKind.update_entries]

/-- The metadata reads back what was declared last; a kind without patches declared is all in
patch 0. -/
structure Declares (calls : List Call) (metadata : Metadata) : Prop where
  counts : ∀ kind, metadata.count? kind = PerKind.last? kind (calls.filterMap Call.count?)
  relations : ∀ given ∈ calls.filterMap Call.given?, ∃ adjacency,
    metadata.stored? given.relation = some adjacency ∧
      adjacency.offsets = given.offsets ∧ adjacency.targets = given.neighbors ∧
      metadata.count? given.relation.source = some adjacency.rowCount ∧
      metadata.count? given.relation.target = some adjacency.targetCount ∧
      ∀ row start stop, given.offsets[row]? = some start → given.offsets[row + 1]? = some stop →
        adjacency.row? row = some (given.neighbors.extract start.toNat stop.toNat).toList
  lists : ∀ relation rows, Call.lists relation rows ∈ calls → ∃ adjacency,
    metadata.stored? relation = some adjacency ∧ adjacency.rows? = some rows
  undeclared : ∀ relation, (∀ given ∈ calls.filterMap Call.given?, given.relation ≠ relation) →
    metadata.stored? relation = none
  patches : ∀ kind, metadata.patches? kind = (metadata.count? kind).map fun count =>
    (PerKind.last? kind (calls.filterMap Call.patches?)).getD (Array.replicate count 0)

/-- The same calls in an order that may differ, but not among the counts of one kind and not among
the patches of one kind. -/
structure Rearranged (calls other : List Call) : Prop where
  perm : calls.Perm other
  counts : ∀ kind, (calls.filterMap Call.count?).filter (fun entry => entry.1 = kind) =
    (other.filterMap Call.count?).filter fun entry => entry.1 = kind
  patches : ∀ kind, (calls.filterMap Call.patches?).filter (fun entry => entry.1 = kind) =
    (other.filterMap Call.patches?).filter fun entry => entry.1 = kind

theorem not_faulty_of_countable {draft : Draft}
    (h : ∀ kind count, draft.counts.get kind = some count → count < UInt32.size) :
    ∀ fault, ¬draft.Faulty fault := by
  rintro _ (⟨-, ⟨⟨rows, hrows, hindex⟩, -⟩⟩ | ⟨hcount, -, hroom⟩)
  · have := h _ _ hrows
    have : UInt32.size < indexLimit := by decide
    omega
  · have := h _ _ hcount
    have : UInt32.size * 4 < memoryLimit := by decide
    omega

/-- Rows given as lists are read back as they were given: were there too many entries for an
offset, the adjacency would not have been accepted. -/
theorem Supports.lists {draft : Draft} {relation : Relation} {rows : List (List UInt32)}
    {sources targets : Nat} (h : draft.Supports
      ⟨relation, (Adjacency.pack rows 0).offsets, (Adjacency.pack rows 0).targets⟩ sources targets) :
    (Adjacency.pack rows targets).rows? = some rows := by
  obtain rfl : rows.length = sources :=
    Nat.succ.inj ((Adjacency.packedOffsets_size rows).symm.trans h.wellFormed.size)
  exact Adjacency.pack_rows? _ _ (Adjacency.pack_wellFormed.mp h.wellFormed).2

theorem declares_of_validate {metadata : Metadata} (h : (drawn calls).validate = .ok metadata) :
    Declares calls metadata := by
  have hdescribes := describes_of_validate h
  have hconsistent := consistent_of_validate h
  have hcounts : ∀ kind, metadata.count? kind = (drawn calls).counts.get kind := fun kind =>
    congrArg (PerKind.get · kind) hdescribes.counts
  have hstored : ∀ given ∈ calls.filterMap Call.given?, ∃ rows targets,
      (drawn calls).Supports given rows targets ∧
        metadata.stored? given.relation = some ⟨given.offsets, given.neighbors, targets⟩ := by
    intro given hgiven
    rw [← drawn_relations] at hgiven
    obtain ⟨rows, targets, hsupports⟩ := hconsistent.supported given hgiven
    exact ⟨rows, targets, hsupports,
      (hdescribes.stored _ _).mpr ⟨given, hgiven, rfl, rows, targets, hsupports, rfl⟩⟩
  constructor
  · exact fun kind => (hcounts kind).trans (drawn_counts kind)
  · intro given hgiven
    obtain ⟨rows, targets, hsupports, hstored⟩ := hstored given hgiven
    refine ⟨_, hstored, rfl, rfl, ?_, (hcounts _).trans hsupports.target,
      fun _ _ _ => hsupports.wellFormed.row?⟩
    rw [hcounts, hsupports.source, Adjacency.rowCount, hsupports.wellFormed.size,
      Nat.add_sub_cancel]
  · intro relation rows hmem
    obtain ⟨sources, targets, hsupports, hstored⟩ :=
      hstored _ (List.mem_filterMap.mpr ⟨_, hmem, rfl⟩)
    exact ⟨_, hstored, hsupports.lists⟩
  · intro relation hnot
    rw [Option.eq_none_iff_forall_ne_some]
    intro adjacency hstored
    obtain ⟨given, hgiven, heq, -⟩ := (hdescribes.stored _ _).mp hstored
    exact hnot given (drawn_relations ▸ hgiven) heq
  · intro kind
    rw [hdescribes.patches, hcounts, drawn_patches]

/-- The parts of drafts from rearranged calls differ at most in the order of the relations. -/
structure SameParts (draft other : Draft) : Prop where
  counts : draft.counts = other.counts
  relations : draft.relations.Perm other.relations
  patches : draft.patches = other.patches

theorem Rearranged.sameParts (h : Rearranged calls other) :
    SameParts (drawn calls) (drawn other) where
  counts := by
    apply PerKind.ext_get
    intro kind
    rw [drawn_counts, drawn_counts, PerKind.last?, h.counts, PerKind.last?]
  relations := by
    rw [drawn_relations, drawn_relations]
    exact h.perm.filterMap _
  patches := by
    apply PerKind.ext_get
    intro kind
    rw [drawn_patches, drawn_patches, PerKind.last?, h.patches, PerKind.last?]

theorem SameParts.supports {draft other : Draft} (h : SameParts draft other)
    {given : RelationDraft} {rows targets : Nat} :
    draft.Supports given rows targets ↔ other.Supports given rows targets := by
  constructor
  · rintro ⟨hsource, htarget, hwell⟩
    exact ⟨h.counts ▸ hsource, h.counts ▸ htarget, hwell⟩
  · rintro ⟨hsource, htarget, hwell⟩
    exact ⟨h.counts ▸ hsource, h.counts ▸ htarget, hwell⟩

theorem SameParts.symm {draft other : Draft} (h : SameParts draft other) :
    SameParts other draft := ⟨h.counts.symm, h.relations.symm, h.patches.symm⟩

theorem SameParts.consistent {draft other : Draft} (h : SameParts draft other)
    (hconsistent : draft.Consistent) : other.Consistent where
  supported := by
    intro given hgiven
    obtain ⟨rows, targets, hsupports⟩ :=
      hconsistent.supported given (h.relations.mem_iff.mpr hgiven)
    exact ⟨rows, targets, h.supports.mp hsupports⟩
  distinct := (h.relations.map _).nodup_iff.mp hconsistent.distinct
  patched := by
    intro kind patches hpatches
    rw [← h.counts]
    exact hconsistent.patched kind patches (h.patches ▸ hpatches)

theorem SameParts.describes {draft other : Draft} {metadata : Metadata}
    (h : SameParts draft other) (hdescribes : draft.Describes metadata) :
    other.Describes metadata where
  counts := hdescribes.counts.trans h.counts
  stored := by
    intro relation adjacency
    simp only [hdescribes.stored, h.relations.mem_iff, h.supports]
  patches := by
    intro kind
    rw [← h.counts, ← h.patches]
    exact hdescribes.patches kind

/-- Calls are accepted if they are consistent, as what they declare, in whatever order. -/
theorem drawn_validate (calls : List Call)
    (hcounts : ∀ kind count, PerKind.last? kind (calls.filterMap Call.count?) = some count →
      count < UInt32.size) :
    ((∃ metadata, (drawn calls).validate = .ok metadata) ↔ (drawn calls).Consistent) ∧
    (¬(drawn calls).Consistent →
      ∃ issue, (drawn calls).validate = Outcome.refuse (.schema issue)) ∧
    (∀ metadata, (drawn calls).validate = .ok metadata → Declares calls metadata) ∧
    (∀ other, Rearranged calls other → ∀ metadata,
      (drawn other).validate = .ok metadata ↔ (drawn calls).validate = .ok metadata) ∧
    ∀ document : Draft, drawn document.calls = document := by
  have hfault : ∀ fault, ¬(drawn calls).Faulty fault :=
    not_faulty_of_countable fun kind count h => hcounts kind count (drawn_counts kind ▸ h)
  have hok : (∃ metadata, (drawn calls).validate = .ok metadata) ↔ (drawn calls).Consistent :=
    ⟨fun ⟨_, h⟩ => consistent_of_validate h, fun h => h.validate_total hfault⟩
  refine ⟨hok, fun hnot => ?_, fun _ => declares_of_validate, fun other h metadata => ?_,
    drawn_calls⟩
  · have hanswers : (drawn calls).validate.Answers (drawn calls).Faulty := validate_answers
    generalize hvalidate : (drawn calls).validate = x at hanswers
    cases hanswers with
    | ok metadata => exact absurd (hok.mp ⟨metadata, hvalidate⟩) hnot
    | schema issue => exact ⟨issue, rfl⟩
    | fault h => exact absurd h (hfault _)
  · have hsame := h.sameParts
    have hother : ∀ fault, ¬(drawn other).Faulty fault :=
      not_faulty_of_countable fun kind count h =>
        hcounts kind count (drawn_counts kind ▸ hsame.counts ▸ h)
    rw [validate_eq_ok hfault, validate_eq_ok hother]
    constructor
    · exact fun ⟨hconsistent, hdescribes⟩ =>
        ⟨hsame.symm.consistent hconsistent, hsame.symm.describes hdescribes⟩
    · exact fun ⟨hconsistent, hdescribes⟩ =>
        ⟨hsame.consistent hconsistent, hsame.describes hdescribes⟩

def pathDeclarations : List Call :=
  [.count .vertex 5, .count .edge 2, .patches .vertex #[1, 0, 1],
    .lists ⟨.edge, .vertex⟩ [[0, 1], [1, 2]], .count .vertex 3]

def pathRearranged : List Call :=
  [.lists ⟨.edge, .vertex⟩ [[0, 1], [1, 2]], .count .vertex 5, .patches .vertex #[1, 0, 1],
    .count .vertex 3, .count .edge 2]

theorem pathDeclarations_rearranged : Rearranged pathDeclarations pathRearranged where
  perm := by decide
  counts := by
    intro kind
    cases kind <;> rfl
  patches := by
    intro kind
    cases kind <;> rfl

theorem pathDeclarations_accepted : (drawn pathDeclarations).Consistent ∧
    Declares pathDeclarations pathMetadata ∧
    (drawn pathRearranged).validate = .ok pathMetadata := by
  have hcounts : ∀ kind count,
      PerKind.last? kind (pathDeclarations.filterMap Call.count?) = some count →
        count < UInt32.size := by
    intro kind count h
    cases kind <;> cases h <;> decide
  have hok : (drawn pathDeclarations).validate = .ok pathMetadata := rfl
  obtain ⟨hconsistent, -, hdeclares, hrearranged, -⟩ := drawn_validate pathDeclarations hcounts
  exact ⟨hconsistent.mp ⟨_, hok⟩, hdeclares _ hok,
    (hrearranged _ pathDeclarations_rearranged _).mpr hok⟩

end Drawn

end Draft

end MeshLayout
