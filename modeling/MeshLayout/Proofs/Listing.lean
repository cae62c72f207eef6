import MeshLayout.Proofs.Drafting

/-!
# Relations given as lists

Lists of neighbors and compressed rows are two forms of one relation. Offsets are words, so the
offset after the last row wraps if there are too many entries; then it does not count the entries,
and the check of the arrays refuses them. A draft that is given lists comes to the same adjacency,
or to the same refusal, with the name of the relation on it.
-/

set_option autoImplicit false

namespace MeshLayout

namespace Adjacency

variable {rows : List (List UInt32)} {targetCount : Nat} {adjacency : Adjacency}

theorem ofLists_eq_ok : ofLists rows targetCount = .ok adjacency ↔
    Packable rows targetCount ∧ adjacency = pack rows targetCount := by
  rw [ofLists, ofArrays_eq_ok, pack_wellFormed]
  constructor
  · rintro ⟨hrows, ⟨hrange, hentries⟩, heq⟩
    exact ⟨⟨hentries, hrows, hrange⟩, heq⟩
  · rintro ⟨⟨hentries, hrows, hrange⟩, heq⟩
    exact ⟨hrows, ⟨hrange, hentries⟩, heq⟩

end Adjacency

namespace Draft

section Enter

variable {draft other : Draft} {relations others : List RelationDraft}
  {table entered : PerRelation (Option Adjacency)}

theorem enter_congr (hcounts : draft.counts = other.counts) :
    draft.enter relations table = other.enter relations table := by
  have hadjacency : draft.adjacency = other.adjacency := by
    funext given
    simp only [adjacency, count, hcounts]
  induction relations generalizing table with
  | nil => rfl
  | cons given rest ih => simp only [enter, hadjacency, ih]

theorem Enterable.perm (hperm : relations.Perm others) (h : draft.Enterable relations table) :
    draft.Enterable others table where
  accepted := fun given hgiven => h.accepted given (hperm.mem_iff.mpr hgiven)
  fresh := fun given hgiven => h.fresh given (hperm.mem_iff.mpr hgiven)
  distinct := (hperm.map _).nodup_iff.mp h.distinct

theorem enter_perm (hperm : relations.Perm others)
    (h : draft.enter relations table = .ok entered) : draft.enter others table = .ok entered := by
  obtain ⟨reached, hreached⟩ := enter_total.mpr ((enter_total.mp ⟨entered, h⟩).perm hperm)
  rw [hreached]
  congr 1
  apply PerRelation.ext_get
  intro relation
  apply Option.ext
  intro adjacency
  rw [enter_get hreached, enter_get h]
  simp only [hperm.mem_iff]

theorem enter_concat {given : RelationDraft} :
    draft.enter (relations ++ [given]) table = .ok entered ↔
      ∃ previous adjacency, draft.enter relations table = .ok previous ∧
        previous.get given.relation = none ∧ draft.adjacency given = .ok adjacency ∧
        entered = previous.set given.relation (some adjacency) := by
  rw [enter_append, bind_eq_ok]
  constructor
  · rintro ⟨previous, hprevious, h⟩
    obtain ⟨adjacency, hadjacency, hnone, h⟩ := enter_cons_eq_ok.mp h
    cases h
    exact ⟨previous, adjacency, hprevious, hnone, hadjacency, rfl⟩
  · rintro ⟨previous, adjacency, hprevious, hnone, hadjacency, rfl⟩
    exact ⟨previous, hprevious, enter_cons_eq_ok.mpr ⟨adjacency, hadjacency, hnone, rfl⟩⟩

end Enter

section Listed

variable {draft : Draft} {metadata : Metadata} {relation : Relation}

theorem SameParts.validate {other : Draft} (h : SameParts draft other)
    (hok : draft.validate = .ok metadata) : other.validate = .ok metadata := by
  obtain ⟨hrelations, hpatches, hcounted, hcounts⟩ := validate_steps.mp hok
  refine validate_steps.mpr ⟨?_, fun kind => ?_, ?_, hcounts.trans h.counts⟩
  · rw [← enter_congr h.counts]
    exact enter_perm h.relations hrelations
  · rw [← hpatches kind, patchArray, patchArray, h.counts, h.patches]
  · rw [← hcounted, uncountedPatches?, uncountedPatches?, h.counts, h.patches]

theorem validate_addRelation {offsets neighbors : Array UInt32} :
    (draft.addRelation relation offsets neighbors).validate = .ok metadata ↔
      ∃ previous adjacency, draft.validate = .ok previous ∧ previous.stored? relation = none ∧
        draft.adjacency ⟨relation, offsets, neighbors⟩ = .ok adjacency ∧
        metadata = { previous with
          relations := previous.relations.set relation (some adjacency) } := by
  have hsame : (draft.addRelation relation offsets neighbors).counts = draft.counts := rfl
  rw [validate_steps, enter_congr hsame, addRelation, enter_concat]
  constructor
  · rintro ⟨⟨table, adjacency, htable, hnone, hadjacency, hset⟩, hpatches, hcounted, hcounts⟩
    refine ⟨⟨metadata.counts, table, metadata.patches⟩, adjacency,
      validate_steps.mpr ⟨htable, hpatches, hcounted, hcounts⟩, hnone, hadjacency, ?_⟩
    rw [← hset]
  · rintro ⟨previous, adjacency, hprevious, hnone, hadjacency, rfl⟩
    obtain ⟨hrelations, hpatches, hcounted, hcounts⟩ := validate_steps.mp hprevious
    exact ⟨⟨_, adjacency, hrelations, hnone, hadjacency, rfl⟩, hpatches, hcounted, hcounts⟩

theorem adjacency_listed {rows : List (List UInt32)} {targetCount : Nat}
    (hsource : draft.counts.get relation.source = some rows.length)
    (htarget : draft.counts.get relation.target = some targetCount) :
    draft.adjacency ⟨relation, (Adjacency.pack rows 0).offsets, (Adjacency.pack rows 0).targets⟩ =
      ofRelation relation (Adjacency.ofLists rows targetCount) := by
  rw [Draft.adjacency, count_eq_ok.mpr hsource, count_eq_ok.mpr htarget]
  rfl

theorem ofRelation_error_bind {α β : Type} (failure : Failure) (f : α → Outcome β) :
    ofRelation relation (.error failure) >>= f = ofRelation relation (.error failure) := by
  rcases failure with (_ | _) | _ <;> rfl

end Listed

section Calls

variable {before after : List Call} {relation : Relation} {rows : List (List UInt32)}
  {targetCount : Nat}

theorem run_concat (draft : Draft) (calls : List Call) (call : Call) :
    draft.run (calls ++ [call]) = (draft.run calls).after call := by
  induction calls generalizing draft with
  | nil => rfl
  | cons first rest ih => exact ih _

theorem rearranged_lists : Rearranged (before ++ .lists relation rows :: after)
    (before ++ after ++ [.lists relation rows]) where
  perm := List.perm_middle.trans (List.perm_append_singleton _ _).symm
  counts := fun kind => by simp [List.filterMap_cons, Call.count?]
  patches := fun kind => by simp [List.filterMap_cons, Call.patches?]

/-- Lists are stored as what is made of them alone, beside what the other calls declare. -/
theorem validate_lists (hsource : (drawn (before ++ after)).counts.get relation.source =
      some rows.length)
    (htarget : (drawn (before ++ after)).counts.get relation.target = some targetCount)
    (metadata : Metadata) :
    (drawn (before ++ .lists relation rows :: after)).validate = .ok metadata ↔
      ∃ previous adjacency, (drawn (before ++ after)).validate = .ok previous ∧
        previous.stored? relation = none ∧ Adjacency.ofLists rows targetCount = .ok adjacency ∧
        metadata = { previous with
          relations := previous.relations.set relation (some adjacency) } := by
  have hsame : SameParts (drawn (before ++ .lists relation rows :: after))
      (drawn (before ++ after ++ [.lists relation rows])) := rearranged_lists.sameParts
  have hlast : drawn (before ++ after ++ [.lists relation rows]) =
      (drawn (before ++ after)).addLists relation rows := run_concat _ _ _
  calc (drawn (before ++ .lists relation rows :: after)).validate = .ok metadata
    _ ↔ ((drawn (before ++ after)).addLists relation rows).validate = .ok metadata := by
      rw [← hlast]
      exact ⟨hsame.validate, hsame.symm.validate⟩
    _ ↔ _ := by
      rw [addLists, validate_addRelation, adjacency_listed hsource htarget]
      simp only [ofRelation_eq_ok]

theorem validate_lists_error {previous : Metadata} {failure : Failure}
    (hsource : (drawn (before ++ after)).counts.get relation.source = some rows.length)
    (htarget : (drawn (before ++ after)).counts.get relation.target = some targetCount)
    (hprevious : (drawn (before ++ after)).validate = .ok previous)
    (hfailure : Adjacency.ofLists rows targetCount = .error failure) :
    (drawn (before ++ .lists relation rows :: after)).validate =
      ofRelation relation (.error failure) := by
  have hcounts : (drawn (before ++ .lists relation rows :: after)).counts =
      (drawn (before ++ after)).counts := by
    simp [drawn, run_eq, List.filterMap_cons, Call.count?]
  obtain ⟨hentered, -⟩ := validate_steps.mp hprevious
  rw [drawn_relations, List.filterMap_append, enter_append, bind_eq_ok] at hentered
  obtain ⟨table, htable, -⟩ := hentered
  rw [Draft.validate, enter_congr hcounts, drawn_relations, List.filterMap_append, enter_append,
    htable, ok_bind, List.filterMap_cons]
  simp only [Call.given?, enter]
  rw [adjacency_listed hsource htarget, hfailure, ofRelation_error_bind, ofRelation_error_bind]

/-- Lists are accepted if their entries are in range and can be counted by a word, and their rows
are read back; the rows of an adjacency give it again; and a draft stores of lists the adjacency
that is made of them alone, or fails as they do. Memory holds fewer rows than an index can count,
so the bound on their number excludes no lists. -/
theorem lists_read_back :
    (∀ (rows : List (List UInt32)) (targetCount : Nat), rows.length + 1 < indexLimit →
      ((∃ adjacency, Adjacency.ofLists rows targetCount = .ok adjacency) ↔
        (∀ row ∈ rows, ∀ target ∈ row, target.toNat < targetCount) ∧
          rows.flatten.length < UInt32.size) ∧
      ∀ adjacency, Adjacency.ofLists rows targetCount = .ok adjacency →
        adjacency.rowCount = rows.length ∧ adjacency.targetCount = targetCount ∧
          ∀ row, adjacency.row? row = rows[row]?) ∧
    (∀ adjacency : Adjacency, adjacency.validate = .ok () → ∃ rows,
      adjacency.rows? = some rows ∧
        Adjacency.ofLists rows adjacency.targetCount = .ok adjacency) ∧
    ∀ (before after : List Call) (relation : Relation) (rows : List (List UInt32))
      (targetCount : Nat),
      (drawn (before ++ after)).counts.get relation.source = some rows.length →
      (drawn (before ++ after)).counts.get relation.target = some targetCount →
      (∀ metadata, (drawn (before ++ .lists relation rows :: after)).validate = .ok metadata ↔
        ∃ previous adjacency, (drawn (before ++ after)).validate = .ok previous ∧
          previous.stored? relation = none ∧ Adjacency.ofLists rows targetCount = .ok adjacency ∧
          metadata = { previous with
            relations := previous.relations.set relation (some adjacency) }) ∧
      ∀ previous failure, (drawn (before ++ after)).validate = .ok previous →
        Adjacency.ofLists rows targetCount = .error failure →
        (drawn (before ++ .lists relation rows :: after)).validate =
          ofRelation relation (.error failure) := by
  refine ⟨fun rows targetCount hrows => ⟨?_, fun adjacency hmade => ?_⟩, fun adjacency hvalid => ?_,
    fun before after relation rows targetCount hsource htarget =>
      ⟨validate_lists hsource htarget, fun _ _ => validate_lists_error hsource htarget⟩⟩
  · constructor
    · rintro ⟨adjacency, hmade⟩
      obtain ⟨⟨hentries, -, hrange⟩, -⟩ := Adjacency.ofLists_eq_ok.mp hmade
      exact ⟨hrange, hentries⟩
    · rintro ⟨hrange, hentries⟩
      exact ⟨_, Adjacency.ofLists_eq_ok.mpr ⟨⟨hentries, hrows, hrange⟩, rfl⟩⟩
  · obtain ⟨hpack, rfl⟩ := Adjacency.ofLists_eq_ok.mp hmade
    exact ⟨Adjacency.pack_rowCount _ _, rfl, Adjacency.pack_row? _ _ hpack.entries_lt⟩
  · obtain ⟨rows, hpack, heq⟩ := Adjacency.exists_packable hvalid
    refine ⟨rows, ?_, Adjacency.ofLists_eq_ok.mpr ⟨hpack, heq⟩⟩
    rw [heq, Adjacency.pack_rows? _ _ hpack.entries_lt]

def fanMetadata : Metadata :=
  ⟨⟨some 3, some 3, none, none⟩, .const none, ⟨some #[0, 0, 0], some #[0, 0, 0], none, none⟩⟩

/-- An edge that names its vertices in descending order, one without vertices, and one that names a
vertex twice; then lists that name a vertex too many. -/
theorem lists_read_back_fan :
    (∃ adjacency, Adjacency.ofLists [[2, 0], [], [1, 1]] 3 = .ok adjacency ∧
      adjacency.row? 0 = some [2, 0] ∧ adjacency.row? 1 = some [] ∧ adjacency.row? 3 = none ∧
      ∃ rows, adjacency.rows? = some rows ∧ Adjacency.ofLists rows 3 = .ok adjacency) ∧
    (∃ metadata, (drawn [.count .edge 3, .lists ⟨.edge, .vertex⟩ [[2, 0], [], [1, 1]],
        .count .vertex 3]).validate = .ok metadata ∧
      metadata.stored? ⟨.edge, .vertex⟩ = some (Adjacency.pack [[2, 0], [], [1, 1]] 3)) ∧
    (drawn [.count .edge 3, .lists ⟨.edge, .vertex⟩ [[2, 0], [3], []], .count .vertex 3]).validate =
      Outcome.refuse (.schema (.ofRelation ⟨.edge, .vertex⟩ (.neighborRange 3 3))) := by
  obtain ⟨hlists, hrows, hdrafts⟩ := lists_read_back
  have hmade : Adjacency.ofLists [[2, 0], [], [1, 1]] 3 =
      .ok (Adjacency.pack [[2, 0], [], [1, 1]] 3) := by decide
  have hrefused : Adjacency.ofLists [[2, 0], [3], []] 3 =
      Outcome.refuse (.schema (.neighborRange 3 3)) := by decide
  have hprevious :
      (drawn ([.count .edge 3] ++ [.count .vertex 3])).validate = .ok fanMetadata := rfl
  obtain ⟨-, -, hrow⟩ := (hlists _ 3 (by decide)).2 _ hmade
  refine ⟨⟨_, hmade, hrow 0, hrow 1, hrow 3, hrows _ (by decide)⟩, ?_, ?_⟩
  · exact ⟨_, ((hdrafts [.count .edge 3] [.count .vertex 3] ⟨.edge, .vertex⟩ _ 3 rfl rfl).1 _).mpr
      ⟨fanMetadata, _, hprevious, rfl, hmade, rfl⟩, rfl⟩
  · exact (hdrafts [.count .edge 3] [.count .vertex 3] ⟨.edge, .vertex⟩ _ 3 rfl rfl).2 _ _
      hprevious hrefused

end Calls

end Draft

end MeshLayout
