import MeshLayout.Proofs.Metadata

/-!
# Consistent drafts

A draft is accepted if its parts fit together (`Consistent`), and the metadata then says what the
draft says (`Describes`). Relations are entered one by one, so the first one that cannot be
entered decides what becomes of a draft. That is a refusal, unless the number of offsets that the
relation calls for cannot be counted (`Overflows`).
-/

set_option autoImplicit false

namespace MeshLayout

namespace Draft

variable {draft : Draft}

/-- A given relation leads between counted kinds and has a row of targets for each source. -/
structure Supports (draft : Draft) (given : RelationDraft) (rows targets : Nat) : Prop where
  source : draft.counts.get given.relation.source = some rows
  target : draft.counts.get given.relation.target = some targets
  wellFormed : Adjacency.WellFormed rows given.offsets given.neighbors targets

structure Consistent (draft : Draft) : Prop where
  supported : ∀ given ∈ draft.relations, ∃ rows targets, draft.Supports given rows targets
  distinct : (draft.relations.map RelationDraft.relation).Nodup
  patched : ∀ kind patches, draft.patches.get kind = some patches →
    draft.counts.get kind = some patches.size

/-- The offsets that a given relation should have are too many to count. -/
structure Overflows (draft : Draft) (given : RelationDraft) : Prop where
  source : ∃ rows, draft.counts.get given.relation.source = some rows ∧ indexLimit ≤ rows + 1
  target : ∃ targets, draft.counts.get given.relation.target = some targets

inductive Faulty (draft : Draft) : Fault → Prop
  | overflow {given : RelationDraft} (hgiven : given ∈ draft.relations)
    (h : draft.Overflows given) : Faulty draft .overflow
  | memory {kind : Kind} {count : Nat} (hcount : draft.counts.get kind = some count)
    (hpatches : draft.patches.get kind = none) (h : memoryLimit ≤ count * 4) :
    Faulty draft .outOfMemory

section Relations

variable {given : RelationDraft}

theorem adjacency_eq_ok {adjacency : Adjacency} : draft.adjacency given = .ok adjacency ↔
    ∃ rows targets, draft.Supports given rows targets ∧ rows + 1 < indexLimit ∧
      adjacency = ⟨given.offsets, given.neighbors, targets⟩ := by
  rw [Draft.adjacency, bind_eq_ok]
  simp only [Outcome.liftM_eq, Outcome.ofChecked_eq_ok, count_eq_ok, bind_eq_ok,
    ofRelation_eq_ok, Adjacency.ofArrays_eq_ok]
  constructor
  · rintro ⟨rows, hrows, targets, htargets, hindex, hwell, rfl⟩
    exact ⟨rows, targets, ⟨hrows, htargets, hwell⟩, hindex, rfl⟩
  · rintro ⟨rows, targets, ⟨hrows, htargets, hwell⟩, hindex, rfl⟩
    exact ⟨rows, hrows, targets, htargets, hindex, hwell, rfl⟩

theorem count_answers (cause : Fault → Prop) (kind : Kind) :
    (Outcome.ofChecked (draft.count kind)).Answers cause := by
  unfold Draft.count
  split
  · exact .ok _
  · exact .schema _

theorem ofRelation_answers {α : Type} {cause : Fault → Prop} (relation : Relation) {x : Outcome α}
    (h : x.Answers cause) : (ofRelation relation x).Answers cause := by
  cases h with
  | ok a => exact .ok a
  | schema issue => exact .schema _
  | fault h => exact .fault h

theorem adjacency_answers : (draft.adjacency given).Answers
    fun fault => fault = .overflow ∧ draft.Overflows given := by
  apply (count_answers _ _).bind
  intro rows hrows
  apply (count_answers _ _).bind
  intro targets htargets
  have hrows := count_eq_ok.mp (Outcome.ofChecked_eq_ok.mp hrows)
  have htargets := count_eq_ok.mp (Outcome.ofChecked_eq_ok.mp htargets)
  apply ofRelation_answers
  apply Outcome.Answers.bind
  · apply Adjacency.check_answers.mono
    rintro _ ⟨rfl, hindex⟩
    exact ⟨rfl, ⟨rows, hrows, hindex⟩, targets, htargets⟩
  · exact fun _ _ => .ok _

theorem Overflows.adjacency (h : draft.Overflows given) :
    draft.adjacency given = Outcome.fault .overflow := by
  obtain ⟨⟨rows, hrows, hindex⟩, targets, htargets⟩ := h
  rw [Draft.adjacency, count_eq_ok.mpr hrows, count_eq_ok.mpr htargets]
  simp only [Outcome.liftM_eq, Outcome.ofChecked_ok, ok_bind, Adjacency.ofArrays,
    Adjacency.check_eq_overflow.mpr hindex]
  rfl

end Relations

section Enter

/-- The relations can be entered one after the other, into a table that has none of them. -/
structure Enterable (draft : Draft) (relations : List RelationDraft)
    (table : PerRelation (Option Adjacency)) : Prop where
  accepted : ∀ given ∈ relations, ∃ adjacency, draft.adjacency given = .ok adjacency
  fresh : ∀ given ∈ relations, table.get given.relation = none
  distinct : (relations.map RelationDraft.relation).Nodup

variable {relations rest : List RelationDraft} {given : RelationDraft}
  {table entered : PerRelation (Option Adjacency)}

theorem enter_cons_eq_ok : draft.enter (given :: rest) table = .ok entered ↔
    ∃ adjacency, draft.adjacency given = .ok adjacency ∧ table.get given.relation = none ∧
      draft.enter rest (table.set given.relation (some adjacency)) = .ok entered := by
  simp only [enter, bind_eq_ok (x := draft.adjacency given), Outcome.liftM_eq,
    Outcome.require_bind_eq_ok]

theorem enterable_cons : draft.Enterable (given :: rest) table ↔
    ∃ adjacency, draft.adjacency given = .ok adjacency ∧ table.get given.relation = none ∧
      draft.Enterable rest (table.set given.relation (some adjacency)) := by
  constructor
  · rintro ⟨haccepted, hfresh, hdistinct⟩
    obtain ⟨adjacency, hadjacency⟩ := haccepted given List.mem_cons_self
    obtain ⟨hnew, hdistinct⟩ := List.nodup_cons.mp hdistinct
    refine ⟨adjacency, hadjacency, hfresh given List.mem_cons_self,
      fun other hother => haccepted other (List.mem_cons_of_mem _ hother), ?_, hdistinct⟩
    intro other hother
    have hne : other.relation ≠ given.relation := fun heq =>
      hnew (heq ▸ List.mem_map_of_mem hother)
    rw [PerRelation.get_set, if_neg hne]
    exact hfresh other (List.mem_cons_of_mem _ hother)
  · rintro ⟨adjacency, hadjacency, hnone, haccepted, hfresh, hdistinct⟩
    have hother : ∀ other ∈ rest,
        other.relation ≠ given.relation ∧ table.get other.relation = none := by
      intro other hother
      have hfresh := hfresh other hother
      rw [PerRelation.get_set] at hfresh
      split at hfresh
      · cases hfresh
      · next hne => exact ⟨hne, hfresh⟩
    constructor
    · exact List.forall_mem_cons.mpr ⟨⟨adjacency, hadjacency⟩, haccepted⟩
    · exact List.forall_mem_cons.mpr ⟨hnone, fun other hmem => (hother other hmem).2⟩
    · apply List.nodup_cons.mpr ⟨?_, hdistinct⟩
      rintro hmem
      obtain ⟨other, hmem, heq⟩ := List.mem_map.mp hmem
      exact (hother other hmem).1 heq

theorem enter_total : (∃ entered, draft.enter relations table = .ok entered) ↔
    draft.Enterable relations table := by
  induction relations generalizing table with
  | nil => exact ⟨fun _ => ⟨by simp, by simp, by simp⟩, fun _ => ⟨table, rfl⟩⟩
  | cons given rest ih =>
    rw [enterable_cons]
    constructor
    · rintro ⟨entered, h⟩
      obtain ⟨adjacency, hadjacency, hnone, h⟩ := enter_cons_eq_ok.mp h
      exact ⟨adjacency, hadjacency, hnone, ih.mp ⟨entered, h⟩⟩
    · rintro ⟨adjacency, hadjacency, hnone, h⟩
      obtain ⟨entered, h⟩ := ih.mpr h
      exact ⟨entered, enter_cons_eq_ok.mpr ⟨adjacency, hadjacency, hnone, h⟩⟩

theorem enter_get (h : draft.enter relations table = .ok entered) {relation : Relation}
    {adjacency : Adjacency} : entered.get relation = some adjacency ↔
      table.get relation = some adjacency ∨
        ∃ given ∈ relations, given.relation = relation ∧ draft.adjacency given = .ok adjacency := by
  induction relations generalizing table with
  | nil =>
    cases h
    simp
  | cons given rest ih =>
    obtain ⟨made, hmade, hnone, h⟩ := enter_cons_eq_ok.mp h
    rw [ih h, PerRelation.get_set, List.exists_mem_cons_iff, hmade]
    by_cases heq : relation = given.relation
    · subst heq
      simp [hnone]
    · simp [heq, Ne.symm heq]

theorem enter_append (before after : List RelationDraft) :
    draft.enter (before ++ after) table = (draft.enter before table >>= draft.enter after) := by
  induction before generalizing table with
  | nil => rfl
  | cons given rest ih => simp only [List.cons_append, enter, ih, bind_assoc]

theorem enter_answers : (draft.enter relations table).Answers
    fun fault => fault = .overflow ∧ ∃ given ∈ relations, draft.Overflows given := by
  induction relations generalizing table with
  | nil => exact .ok _
  | cons given rest ih =>
    apply Outcome.Answers.bind
    · apply adjacency_answers.mono
      rintro _ ⟨rfl, h⟩
      exact ⟨rfl, given, List.mem_cons_self, h⟩
    · intro adjacency _
      apply Outcome.Answers.bind (.require _)
      intro _ _
      apply ih.mono
      rintro _ ⟨rfl, other, hother, h⟩
      exact ⟨rfl, other, List.mem_cons_of_mem _ hother, h⟩

theorem enter_eq_overflow : draft.enter relations table = Outcome.fault .overflow ↔
    ∃ before given rest, relations = before ++ given :: rest ∧
      (∃ entered, draft.enter before table = .ok entered) ∧ draft.Overflows given := by
  constructor
  · intro h
    induction relations generalizing table with
    | nil => cases h
    | cons given rest ih =>
      rcases bind_eq_error.mp h with hhere | ⟨adjacency, hadjacency, h⟩
      · exact ⟨[], given, rest, rfl, ⟨table, rfl⟩, (adjacency_answers.of_fault hhere).2⟩
      · rcases bind_eq_error.mp h with hrequire | ⟨_, hnone, h⟩
        · have hrefused : (Outcome.ofChecked (Checked.require (table.get given.relation = none)
              (.schema (.repeatedRelation given.relation)))).Answers fun _ => False := .require _
          exact (hrefused.of_fault hrequire).elim
        · obtain ⟨before, other, after, rfl, ⟨entered, hentered⟩, hover⟩ := ih h
          have hnone := Checked.require_eq_ok.mp (Outcome.ofChecked_eq_ok.mp hnone)
          exact ⟨given :: before, other, after, rfl,
            ⟨entered, enter_cons_eq_ok.mpr ⟨adjacency, hadjacency, hnone, hentered⟩⟩, hover⟩
  · rintro ⟨before, given, rest, rfl, ⟨entered, hentered⟩, hover⟩
    rw [enter_append, hentered, ok_bind, enter, hover.adjacency]
    rfl

end Enter

section Patches

variable {kind : Kind} {patches : Option (Array Patch)}

theorem patchArray_eq_ok : draft.patchArray kind = .ok patches ↔
    (∀ given, draft.patches.get kind = some given →
      ∀ count, draft.counts.get kind = some count → count = given.size) ∧
    (draft.patches.get kind = none →
      ∀ count, draft.counts.get kind = some count → count * 4 < memoryLimit) ∧
    patches = (draft.counts.get kind).map fun count =>
      (draft.patches.get kind).getD (Array.replicate count 0) := by
  unfold patchArray
  cases hcount : draft.counts.get kind with
  | none => simp [eq_comm]
  | some count =>
    cases hgiven : draft.patches.get kind with
    | none =>
      by_cases hroom : count * 4 < memoryLimit
      · simp [hroom, eq_comm]
      · simp [hroom, Outcome.fault]
    | some given =>
      simp only [Outcome.liftM_eq, Outcome.require_bind_eq_ok, pure_eq_ok]
      simp [eq_comm]

theorem patchArray_answers : (draft.patchArray kind).Answers fun fault =>
    fault = .outOfMemory ∧ ∃ count, draft.counts.get kind = some count ∧
      draft.patches.get kind = none ∧ memoryLimit ≤ count * 4 := by
  unfold patchArray
  split
  · exact .ok _
  · apply Outcome.Answers.bind (.require _)
    exact fun _ _ => .ok _
  · next count hcount hgiven =>
    split
    · exact .ok _
    · next hroom => exact .fault ⟨rfl, count, hcount, hgiven, Nat.le_of_not_lt hroom⟩

theorem uncountedPatches?_eq_none : draft.uncountedPatches? = none ↔
    ∀ kind given, draft.patches.get kind = some given →
      ∃ count, draft.counts.get kind = some count := by
  rw [uncountedPatches?, List.find?_eq_none]
  constructor
  · intro h kind given hgiven
    have := h kind kind.mem_all
    simpa [hgiven, Option.ne_none_iff_exists'] using this
  · intro h kind _
    cases hgiven : draft.patches.get kind with
    | none => simp
    | some given =>
      obtain ⟨count, hcount⟩ := h kind given hgiven
      simp [hcount]

end Patches

section Validate

variable {metadata : Metadata}

/-- The metadata says what the draft says; elements without patches given are in patch 0. -/
structure Describes (draft : Draft) (metadata : Metadata) : Prop where
  counts : metadata.counts = draft.counts
  stored : ∀ relation adjacency, metadata.stored? relation = some adjacency ↔
    ∃ given ∈ draft.relations, given.relation = relation ∧ ∃ rows targets,
      draft.Supports given rows targets ∧ adjacency = ⟨given.offsets, given.neighbors, targets⟩
  patches : ∀ kind, metadata.patches? kind = (draft.counts.get kind).map fun count =>
    (draft.patches.get kind).getD (Array.replicate count 0)

theorem validate_steps : draft.validate = .ok metadata ↔
    draft.enter draft.relations (.const none) = .ok metadata.relations ∧
      (∀ kind, draft.patchArray kind = .ok (metadata.patches? kind)) ∧
      draft.uncountedPatches? = none ∧ metadata.counts = draft.counts := by
  simp only [validate, bind_eq_ok, PerKind.build_eq_ok]
  constructor
  · rintro ⟨relations, hrelations, patches, hpatches, h⟩
    split at h
    · cases h
    · next hnone =>
      cases h
      exact ⟨hrelations, hpatches, hnone, rfl⟩
  · rintro ⟨hrelations, hpatches, hnone, hcounts⟩
    refine ⟨metadata.relations, hrelations, metadata.patches, hpatches, ?_⟩
    rw [hnone, ← hcounts]
    rfl

theorem adjacency_of_accepted {given : RelationDraft} {made adjacency : Adjacency}
    (h : draft.adjacency given = .ok made) : draft.adjacency given = .ok adjacency ↔
      ∃ rows targets, draft.Supports given rows targets ∧
        adjacency = ⟨given.offsets, given.neighbors, targets⟩ := by
  obtain ⟨rows, targets, hsupports, hindex, -⟩ := adjacency_eq_ok.mp h
  rw [adjacency_eq_ok]
  constructor
  · rintro ⟨rows, targets, hsupports, -, heq⟩
    exact ⟨rows, targets, hsupports, heq⟩
  · rintro ⟨other, targets, hother, heq⟩
    have hrows : other = rows := Option.some.inj (hother.source.symm.trans hsupports.source)
    exact ⟨other, targets, hother, hrows ▸ hindex, heq⟩

theorem consistent_of_validate (h : draft.validate = .ok metadata) : draft.Consistent := by
  obtain ⟨hrelations, hpatches, hcounted, -⟩ := validate_steps.mp h
  obtain ⟨haccepted, -, hdistinct⟩ := enter_total.mp ⟨_, hrelations⟩
  refine ⟨fun given hgiven => ?_, hdistinct, fun kind patches hgiven => ?_⟩
  · obtain ⟨adjacency, hmade⟩ := haccepted given hgiven
    obtain ⟨rows, targets, hsupports, -⟩ := adjacency_eq_ok.mp hmade
    exact ⟨rows, targets, hsupports⟩
  · obtain ⟨count, hcount⟩ := uncountedPatches?_eq_none.mp hcounted kind patches hgiven
    rw [hcount, (patchArray_eq_ok.mp (hpatches kind)).1 patches hgiven count hcount]

theorem describes_of_validate (h : draft.validate = .ok metadata) : draft.Describes metadata := by
  obtain ⟨hrelations, hpatches, -, hcounts⟩ := validate_steps.mp h
  obtain ⟨haccepted, -, -⟩ := enter_total.mp ⟨_, hrelations⟩
  refine ⟨hcounts, fun relation adjacency => ?_,
    fun kind => (patchArray_eq_ok.mp (hpatches kind)).2.2⟩
  rw [Metadata.stored?, enter_get hrelations, PerRelation.get_const]
  simp only [reduceCtorEq, false_or]
  apply exists_congr
  intro given
  apply and_congr_right
  intro hgiven
  obtain ⟨made, hmade⟩ := haccepted given hgiven
  rw [adjacency_of_accepted hmade]

theorem Describes.unique {other : Metadata} (h : draft.Describes metadata)
    (hother : draft.Describes other) : metadata = other := by
  have hrelations : metadata.relations = other.relations := PerRelation.ext_get fun relation =>
    Option.ext fun adjacency =>
      (h.stored relation adjacency).trans (hother.stored relation adjacency).symm
  have hpatches : metadata.patches = other.patches := PerKind.ext_get fun kind =>
    (h.patches kind).trans (hother.patches kind).symm
  have hcounts : metadata.counts = other.counts := h.counts.trans hother.counts.symm
  cases metadata
  cases other
  cases hrelations
  cases hpatches
  cases hcounts
  rfl

theorem Consistent.validate_total (hconsistent : draft.Consistent)
    (hfault : ∀ fault, ¬draft.Faulty fault) : ∃ metadata, draft.validate = .ok metadata := by
  have hindex : ∀ given ∈ draft.relations, ∀ rows targets, draft.Supports given rows targets →
      rows + 1 < indexLimit := by
    intro given hgiven rows targets hsupports
    by_contra hindex
    exact hfault _ (.overflow hgiven
      ⟨⟨rows, hsupports.source, Nat.le_of_not_lt hindex⟩, targets, hsupports.target⟩)
  have henterable : draft.Enterable draft.relations (.const none) := by
    refine ⟨fun given hgiven => ?_, fun _ _ => PerRelation.get_const _ _, hconsistent.distinct⟩
    obtain ⟨rows, targets, hsupports⟩ := hconsistent.supported given hgiven
    exact ⟨_, adjacency_eq_ok.mpr
      ⟨rows, targets, hsupports, hindex given hgiven rows targets hsupports, rfl⟩⟩
  obtain ⟨relations, hrelations⟩ := enter_total.mpr henterable
  let patches : PerKind (Option (Array Patch)) := .ofFn fun kind =>
    (draft.counts.get kind).map fun count =>
      (draft.patches.get kind).getD (Array.replicate count 0)
  refine ⟨⟨draft.counts, relations, patches⟩, validate_steps.mpr ⟨hrelations, fun kind => ?_, ?_, rfl⟩⟩
  · apply patchArray_eq_ok.mpr
    refine ⟨fun given hgiven count hcount => ?_, fun hnone count hcount => ?_,
      PerKind.get_ofFn _ kind⟩
    · rw [hconsistent.patched kind given hgiven] at hcount
      cases hcount
      rfl
    · by_contra hroom
      exact hfault _ (.memory hcount hnone (Nat.le_of_not_lt hroom))
  · exact uncountedPatches?_eq_none.mpr fun kind given hgiven =>
      ⟨_, hconsistent.patched kind given hgiven⟩

theorem validate_eq_ok (hfault : ∀ fault, ¬draft.Faulty fault) :
    draft.validate = .ok metadata ↔ draft.Consistent ∧ draft.Describes metadata := by
  constructor
  · exact fun h => ⟨consistent_of_validate h, describes_of_validate h⟩
  · rintro ⟨hconsistent, hdescribes⟩
    obtain ⟨made, hmade⟩ := hconsistent.validate_total hfault
    rw [hmade, (describes_of_validate hmade).unique hdescribes]

theorem validate_answers : draft.validate.Answers draft.Faulty := by
  apply Outcome.Answers.bind
  · apply enter_answers.mono
    rintro _ ⟨rfl, given, hgiven, hover⟩
    exact .overflow hgiven hover
  intro relations _
  apply Outcome.Answers.bind
  · apply PerKind.build_answers
    intro kind
    apply patchArray_answers.mono
    rintro _ ⟨rfl, count, hcount, hnone, hroom⟩
    exact .memory hcount hnone hroom
  intro patches _
  split
  · exact .schema _
  · exact .ok _

theorem validate_eq_overflow : draft.validate = Outcome.fault .overflow ↔
    draft.enter draft.relations (.const none) = Outcome.fault .overflow := by
  constructor
  · intro h
    rcases bind_eq_error.mp h with hrelations | ⟨relations, -, h⟩
    · exact hrelations
    rcases bind_eq_error.mp h with hpatches | ⟨patches, -, h⟩
    · obtain ⟨kind, hkind⟩ := PerKind.build_error hpatches
      cases (patchArray_answers.of_fault hkind).1
    · split at h
      · cases h
      · cases h
  · intro h
    rw [validate, h]
    rfl

/-- Counts are numbers of a machine, and there is room for the patches that are not given. -/
structure Loadable (draft : Draft) : Prop where
  counts : ∀ kind count, draft.counts.get kind = some count → count < indexLimit
  room : ∀ kind count, draft.counts.get kind = some count → draft.patches.get kind = none →
    count * 4 < memoryLimit

/-- Only a relation from a kind with as many elements as can be counted keeps a draft from an
answer: such a kind has one offset too many. This is about builds that check sums for overflow.
In one that does not, the number of offsets wraps round to zero: a relation with offsets is then
refused like any other with the wrong number of them, and only one without offsets, whose first
offset is looked at nevertheless, meets a fault. -/
theorem Loadable.validate_overflow (h : draft.Loadable) :
    draft.validate.Answers (fun fault => fault = .overflow) ∧
    (draft.validate = Outcome.fault .overflow ↔
      ∃ before given rest, draft.relations = before ++ given :: rest ∧
        (∃ entered, draft.enter before (.const none) = .ok entered) ∧
        draft.counts.get given.relation.source = some (indexLimit - 1) ∧
        ∃ targets, draft.counts.get given.relation.target = some targets) := by
  constructor
  · apply validate_answers.mono
    rintro _ (⟨-, -⟩ | ⟨hcount, hpatches, hroom⟩)
    · rfl
    · have := h.room _ _ hcount hpatches
      omega
  · rw [validate_eq_overflow, enter_eq_overflow]
    constructor
    · rintro ⟨before, given, rest, hsplit, hentered, ⟨rows, hrows, hindex⟩, htarget⟩
      obtain rfl : rows = indexLimit - 1 := by
        have := h.counts _ _ hrows
        omega
      exact ⟨before, given, rest, hsplit, hentered, hrows, htarget⟩
    · rintro ⟨before, given, rest, hsplit, hentered, hrows, htarget⟩
      exact ⟨before, given, rest, hsplit, hentered, ⟨_, hrows, by decide⟩, htarget⟩

/-- A draft of as many vertices as can be counted, with a relation and patches that are empty. -/
def fullDraft : Draft where
  counts := ⟨some (indexLimit - 1), none, none, none⟩
  relations := [⟨⟨.vertex, .vertex⟩, #[], #[]⟩]
  patches := ⟨some #[], none, none, none⟩

theorem fullDraft_loadable : fullDraft.Loadable where
  counts := by
    intro kind count h
    cases kind with
    | vertex =>
      cases h
      decide
    | edge => cases h
    | face => cases h
    | cell => cases h
  room := by
    intro kind count hcount hpatches
    cases kind with
    | vertex => cases hpatches
    | edge => cases hcount
    | face => cases hcount
    | cell => cases hcount

theorem fullDraft_overflows : fullDraft.Loadable ∧
    fullDraft.validate = Outcome.fault .overflow := by
  apply And.intro fullDraft_loadable
  apply fullDraft_loadable.validate_overflow.2.mpr
  exact ⟨[], _, [], rfl, ⟨_, rfl⟩, rfl, _, rfl⟩

theorem loadable_without_answer : ¬∀ draft : Draft, draft.Loadable →
    (∃ metadata, draft.validate = .ok metadata) ∨
      ∃ issue, draft.validate = Outcome.refuse (.schema issue) := by
  intro h
  have hfault : fullDraft.validate = Outcome.fault .overflow := rfl
  rcases h fullDraft fullDraft_loadable with ⟨metadata, hok⟩ | ⟨issue, hrefused⟩
  · cases hfault.symm.trans hok
  · cases hfault.symm.trans hrefused

end Validate

end Draft

end MeshLayout
