import MeshLayout.Metadata
import MeshLayout.Proofs.Transpose

/-!
# Accepted descriptions

Metadata that a draft yields gives a patch to each element of a counted kind, and its relations
lead between counted kinds. So does a relation that is read as the reverse of a given one.
-/

set_option autoImplicit false

namespace MeshLayout

theorem PerKind.build_eq_ok {α : Type} {f : Kind → Outcome α} {table : PerKind α} :
    PerKind.build f = .ok table ↔ ∀ kind, f kind = .ok (table.get kind) := by
  constructor
  · intro h
    obtain ⟨vertex, hvertex, h⟩ := bind_eq_ok.mp h
    obtain ⟨edge, hedge, h⟩ := bind_eq_ok.mp h
    obtain ⟨face, hface, h⟩ := bind_eq_ok.mp h
    obtain ⟨cell, hcell, h⟩ := bind_eq_ok.mp h
    cases h
    intro kind
    cases kind
    · exact hvertex
    · exact hedge
    · exact hface
    · exact hcell
  · intro h
    rw [PerKind.build, h .vertex, h .edge, h .face, h .cell]
    rfl

theorem PerRelation.build_eq_ok {α : Type} {f : Relation → Outcome α} {table : PerRelation α} :
    PerRelation.build f = .ok table ↔ ∀ relation, f relation = .ok (table.get relation) := by
  unfold PerRelation.build
  rw [bind_eq_ok]
  constructor
  · rintro ⟨bySource, hsources, h⟩ ⟨source, target⟩
    cases h
    exact PerKind.build_eq_ok.mp (PerKind.build_eq_ok.mp hsources source) target
  · intro h
    apply Exists.intro table.bySource
    constructor
    · exact PerKind.build_eq_ok.mpr fun source =>
        PerKind.build_eq_ok.mpr fun target => h ⟨source, target⟩
    · rfl

theorem PerKind.build_error {α : Type} {f : Kind → Outcome α} {failure : Failure}
    (h : PerKind.build f = .error failure) : ∃ kind, f kind = .error failure := by
  rcases bind_eq_error.mp h with h | ⟨_, -, h⟩
  · exact ⟨_, h⟩
  rcases bind_eq_error.mp h with h | ⟨_, -, h⟩
  · exact ⟨_, h⟩
  rcases bind_eq_error.mp h with h | ⟨_, -, h⟩
  · exact ⟨_, h⟩
  rcases bind_eq_error.mp h with h | ⟨_, -, h⟩
  · exact ⟨_, h⟩
  · cases h

theorem PerKind.build_answers {α : Type} {f : Kind → Outcome α} {cause : Fault → Prop}
    (h : ∀ kind, (f kind).Answers cause) : (PerKind.build f).Answers cause := by
  cases hbuild : PerKind.build f with
  | ok table => exact .ok table
  | error failure =>
    obtain ⟨kind, hkind⟩ := PerKind.build_error hbuild
    exact (h kind).of_error hkind

theorem PerRelation.build_error {α : Type} {f : Relation → Outcome α} {failure : Failure}
    (h : PerRelation.build f = .error failure) : ∃ relation, f relation = .error failure := by
  rcases bind_eq_error.mp h with h | ⟨_, -, h⟩
  · obtain ⟨source, h⟩ := PerKind.build_error h
    obtain ⟨target, h⟩ := PerKind.build_error h
    exact ⟨⟨source, target⟩, h⟩
  · cases h

namespace Metadata

structure Fits (counts : PerKind (Option Nat)) (relation : Relation) (adjacency : Adjacency) :
    Prop where
  accepted : adjacency.validate = .ok ()
  rows : counts.get relation.source = some adjacency.rowCount
  targets : counts.get relation.target = some adjacency.targetCount

structure Valid (metadata : Metadata) : Prop where
  patches : ∀ {kind count}, metadata.count? kind = some count →
    ∃ patches, metadata.patches? kind = some patches ∧ patches.size = count
  stored : ∀ {relation adjacency}, metadata.stored? relation = some adjacency →
    Fits metadata.counts relation adjacency

/-- Every element can be named by a word. -/
def Countable (metadata : Metadata) : Prop :=
  ∀ kind count, metadata.count? kind = some count → count < UInt32.size

end Metadata

namespace Draft

variable {draft : Draft}

theorem ofRelation_eq_ok {α : Type} {relation : Relation} {x : Outcome α} {a : α} :
    ofRelation relation x = .ok a ↔ x = .ok a := by
  unfold ofRelation
  split
  · constructor
    · intro h
      cases h
    · intro h
      cases h
  · exact Iff.rfl

theorem count_eq_ok {kind : Kind} {count : Nat} :
    draft.count kind = .ok count ↔ draft.counts.get kind = some count := by
  unfold Draft.count
  cases draft.counts.get kind with
  | none => simp
  | some given => simp

theorem adjacency_fits {given : RelationDraft} {adjacency : Adjacency}
    (h : draft.adjacency given = .ok adjacency) :
    Metadata.Fits draft.counts given.relation adjacency := by
  obtain ⟨rows, hrows, h⟩ := bind_eq_ok.mp h
  obtain ⟨targets, htargets, h⟩ := bind_eq_ok.mp h
  have hrows := count_eq_ok.mp (Outcome.ofChecked_eq_ok.mp hrows)
  have htargets := count_eq_ok.mp (Outcome.ofChecked_eq_ok.mp htargets)
  obtain ⟨_, hcheck, h⟩ := bind_eq_ok.mp (ofRelation_eq_ok.mp h)
  cases h
  have hsize := (Adjacency.check_eq_ok.mp hcheck).2.1
  have hcount : Adjacency.rowCount ⟨given.offsets, given.neighbors, targets⟩ = rows := by
    rw [Adjacency.rowCount, hsize, Nat.add_sub_cancel]
  exact ⟨by rw [Adjacency.validate, hcount]; exact hcheck, hcount ▸ hrows, htargets⟩

theorem enter_fits (relations : List RelationDraft) {table entered : PerRelation (Option Adjacency)}
    (htable : ∀ relation adjacency, table.get relation = some adjacency →
      Metadata.Fits draft.counts relation adjacency)
    (h : draft.enter relations table = .ok entered) {relation : Relation} {adjacency : Adjacency}
    (hentered : entered.get relation = some adjacency) :
    Metadata.Fits draft.counts relation adjacency := by
  induction relations generalizing table with
  | nil =>
    cases h
    exact htable relation adjacency hentered
  | cons given rest ih =>
    obtain ⟨made, hmade, h⟩ := bind_eq_ok.mp h
    obtain ⟨_, -, h⟩ := bind_eq_ok.mp h
    apply ih _ h
    intro other adjacency hother
    rw [PerRelation.get_set] at hother
    split at hother
    · next heq =>
      cases hother
      exact heq ▸ adjacency_fits hmade
    · exact htable other adjacency hother

theorem patchArray_size {kind : Kind} {patches : Option (Array Patch)} {count : Nat}
    (h : draft.patchArray kind = .ok patches) (hcount : draft.counts.get kind = some count) :
    ∃ given, patches = some given ∧ given.size = count := by
  unfold patchArray at h
  rw [hcount] at h
  cases hgiven : draft.patches.get kind with
  | none =>
    simp only [hgiven] at h
    split at h
    · cases h
      exact ⟨_, rfl, Array.size_replicate⟩
    · cases h
  | some given =>
    simp only [hgiven, Outcome.liftM_eq, Outcome.require_bind_eq_ok] at h
    obtain ⟨hsize, h⟩ := h
    cases h
    exact ⟨given, rfl, hsize⟩

theorem validate_valid {metadata : Metadata} (h : draft.validate = .ok metadata) :
    metadata.Valid := by
  obtain ⟨relations, hrelations, h⟩ := bind_eq_ok.mp h
  obtain ⟨patches, hpatches, h⟩ := bind_eq_ok.mp h
  split at h
  · cases h
  · cases h
    constructor
    · intro kind count hcount
      exact patchArray_size (PerKind.build_eq_ok.mp hpatches kind) hcount
    · intro relation adjacency hstored
      exact enter_fits draft.relations (by simp) hrelations hstored

end Draft

namespace Metadata

variable {metadata : Metadata}

def neighbors? (metadata : Metadata) (relation : Relation) (identity : Identity) :
    Option (List Identity) :=
  match metadata.adjacency? relation with
  | .ok (some adjacency) => adjacency.row? identity.toNat
  | .ok none | .error _ => none

def Adjacent (metadata : Metadata) (relation : Relation) : Prop :=
  (metadata.stored? relation).isSome = true ∨ (metadata.stored? relation.reversed).isSome = true

theorem adjacency?_of_reversed (hvalid : metadata.Valid) (hcount : metadata.Countable)
    {relation : Relation} {reverse : Adjacency} (hstored : metadata.stored? relation = none)
    (hreverse : metadata.stored? relation.reversed = some reverse) :
    ∃ rows targetCount, reverse = Adjacency.pack rows targetCount ∧
      Adjacency.Packable rows targetCount ∧
      metadata.count? relation.target = some rows.length ∧
      metadata.count? relation.source = some targetCount ∧
      metadata.adjacency? relation =
        .ok (some (Adjacency.pack (Adjacency.turned rows targetCount) rows.length)) := by
  obtain ⟨haccepted, hrows, htargets⟩ := hvalid.stored hreverse
  obtain ⟨rows, hpack, hadjacency⟩ := Adjacency.exists_packable haccepted
  have hturned := Adjacency.transpose?_pack hpack (Nat.le_of_lt (hcount _ _ htargets))
  rw [hadjacency, Adjacency.pack_rowCount] at hrows
  refine ⟨rows, reverse.targetCount, hadjacency, hpack, hrows, htargets, ?_⟩
  rw [← hadjacency] at hturned
  simp only [adjacency?, hstored, hreverse, hturned, Outcome.ofLookup_some, ok_bind, pure_eq_ok]

theorem Adjacent.rows (hvalid : metadata.Valid) (hcount : metadata.Countable)
    {relation : Relation} (h : metadata.Adjacent relation) :
    ∃ rows targetCount, metadata.adjacency? relation = .ok (some (Adjacency.pack rows targetCount)) ∧
      Adjacency.Packable rows targetCount ∧
      metadata.count? relation.source = some rows.length ∧
      metadata.count? relation.target = some targetCount := by
  unfold adjacency?
  cases hstored : metadata.stored? relation with
  | some given =>
    obtain ⟨haccepted, hrows, htargets⟩ := hvalid.stored hstored
    obtain ⟨rows, hpack, hadjacency⟩ := Adjacency.exists_packable haccepted
    rw [hadjacency, Adjacency.pack_rowCount] at hrows
    exact ⟨rows, given.targetCount, by rw [← hadjacency], hpack, hrows, htargets⟩
  | none =>
    have hreversed : (metadata.stored? relation.reversed).isSome = true := by
      simpa [Adjacent, hstored] using h
    obtain ⟨reverse, hreverse⟩ := Option.isSome_iff_exists.mp hreversed
    obtain ⟨rows, targetCount, -, hpack, hrows, htargets, hread⟩ :=
      adjacency?_of_reversed hvalid hcount hstored hreverse
    refine ⟨_, _, ?_, Adjacency.turned_packable hpack (Nat.le_of_lt (hcount _ _ htargets))
      (Nat.le_of_lt (hcount _ _ hrows)), ?_, hrows⟩
    · simpa only [adjacency?, hstored] using hread
    · rw [Adjacency.turned_length]
      exact htargets

theorem adjacency?_of_not_adjacent {relation : Relation} (h : ¬metadata.Adjacent relation) :
    metadata.adjacency? relation = .ok none := by
  simp only [Adjacent, Option.isSome_iff_ne_none, not_or, not_not] at h
  simp only [adjacency?, h.1, h.2]

theorem adjacency?_rows (hvalid : metadata.Valid) (hcount : metadata.Countable)
    {relation : Relation} {adjacency : Adjacency}
    (h : metadata.adjacency? relation = .ok (some adjacency)) :
    ∃ rows targetCount, Adjacency.Packable rows targetCount ∧
      adjacency = Adjacency.pack rows targetCount ∧
      metadata.count? relation.source = some rows.length ∧
      metadata.count? relation.target = some targetCount := by
  by_cases hadjacent : metadata.Adjacent relation
  · obtain ⟨rows, targetCount, hread, hpack, hcounts⟩ := hadjacent.rows hvalid hcount
    obtain rfl := Option.some.inj (Except.ok.inj (h.symm.trans hread))
    exact ⟨rows, targetCount, hpack, rfl, hcounts⟩
  · rw [adjacency?_of_not_adjacent hadjacent] at h
    cases h

end Metadata

end MeshLayout
