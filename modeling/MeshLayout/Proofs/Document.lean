import Mathlib.Data.Option.Basic
import MeshLayout.Proofs.Adjacency
import MeshLayout.Proofs.Codec

/-!
# Documents of drafts

Under the rules for codecs, the document that a library writes for a draft is read back as the
draft. Whatever object a draft was read from, its own document says the same; members that an object
lacks are as good as empty ones, and members of other names say nothing. The codecs of the project
follow the rules.
-/

set_option autoImplicit false

namespace MeshLayout

/-- The library follows the rule for the declaration of each type, and reads a plain document that
is not too deep back from its text. -/
structure Serializer.Lawful (serializer : Serializer) : Prop where
  count : serializer.count.Numeric id indexLimit
  word : serializer.word.Numeric UInt32.toNat UInt32.size
  kind : serializer.kind.Named Kind.label
  words : serializer.words.Itemwise serializer.word
  relation : serializer.relation.Memberwise
    (RelationDraft.declared serializer.kind serializer.words)
  relations : serializer.relations.Itemwise serializer.relation
  counts : serializer.counts.Entrywise serializer.count
  patches : serializer.patches.Entrywise serializer.words
  draft : serializer.draft.Memberwise
    (Draft.declared serializer.counts serializer.relations serializer.patches)
  parse_print : ∀ value : Json, value.Plain → value.depth < Json.depthLimit →
    serializer.parse? (serializer.print value) = some value

/-- The counts of the draft are words of 64 bits. -/
def Draft.Indexed (draft : Draft) : Prop :=
  ∀ kind count, draft.counts.get kind = some count → count < indexLimit

theorem Draft.declared_nodup (counts : Codec (PerKind (Option Nat)))
    (relations : Codec (Array RelationDraft)) (patches : Codec (PerKind (Option (Array Patch)))) :
    ((declared counts relations patches).map (·.name)).Nodup := by
  simp [declared]

namespace Serializer.Lawful

variable {serializer : Serializer} (h : serializer.Lawful)

include h

theorem words_carry (words : Array UInt32) : serializer.words.Carries words 1 :=
  h.words.carries fun word _ => h.word.carries word.toNat_lt

theorem relation_carries (given : RelationDraft) : serializer.relation.Carries given 2 := by
  have hkind (kind : Kind) : serializer.kind.Carries kind 1 :=
    (h.kind.carries kind).mono (by decide)
  refine h.relation.carries (by simp [RelationDraft.declared]) ?_
  simp only [RelationDraft.declared, List.forall_mem_cons, List.not_mem_nil, false_imp_iff,
    implies_true, and_true]
  exact ⟨hkind _, hkind _, h.words_carry _, h.words_carry _⟩

theorem draft_carries {draft : Draft} (hindexed : draft.Indexed) :
    serializer.draft.Carries draft 4 := by
  have hcounts : serializer.counts.Carries draft.counts 1 :=
    h.counts.carries fun kind count hcount => h.count.carries (hindexed kind count hcount)
  have hrelations : serializer.relations.Carries draft.relations.toArray 3 :=
    h.relations.carries fun given _ => h.relation_carries given
  have hpatches : serializer.patches.Carries draft.patches 2 :=
    h.patches.carries fun _ patches _ => h.words_carry patches
  refine h.draft.carries (Draft.declared_nodup _ _ _) ?_
  simp only [Draft.declared, List.forall_mem_cons, List.not_mem_nil, false_imp_iff, implies_true,
    and_true]
  exact ⟨hcounts.mono (by decide), hrelations, hpatches.mono (by decide)⟩

theorem read?_write {draft : Draft} (hindexed : draft.Indexed) :
    serializer.read? (serializer.write draft) = some draft := by
  have hcarries := h.draft_carries hindexed
  have hdepth : (serializer.draft.write draft).depth < Json.depthLimit :=
    Nat.lt_of_le_of_lt hcarries.depth_le (by decide)
  rw [read?, write, h.parse_print _ hcarries.plain hdepth, Option.bind_some, hcarries.back]

theorem indexed_of_read {members : List (String × Json)} {draft : Draft}
    (hread : serializer.draft.read? (.record members) = some draft) : draft.Indexed := by
  intro kind count hcount
  obtain ⟨value, hcounts⟩ := h.draft.part_of_required List.mem_cons_self rfl hread
  obtain ⟨found, hfound⟩ := h.counts.entry_read hcounts hcount
  exact h.count.below found count hfound

theorem read?_without_relations {members : List (String × Json)}
    (hmissing : Json.lookup "relations" members = none) :
    serializer.draft.read? (.record (("relations", .list []) :: members)) =
      serializer.draft.read? (.record members) :=
  h.draft.read?_cons (List.mem_cons_of_mem _ List.mem_cons_self) (Draft.declared_nodup _ _ _)
    (h.relations.read []) hmissing

theorem read?_without_patches {members : List (String × Json)}
    (hmissing : Json.lookup "patches" members = none) :
    serializer.draft.read? (.record (("patches", .record []) :: members)) =
      serializer.draft.read? (.record members) :=
  h.draft.read?_cons (List.mem_cons_of_mem _ (List.mem_cons_of_mem _ List.mem_cons_self))
    (Draft.declared_nodup _ _ _) (h.patches.read (.record [])) hmissing

end Serializer.Lawful

namespace Json

theorem natural?_eq_some {limit n : Nat} {value : Json} :
    value.natural? limit = some n ↔ value = ofNat n ∧ n < limit := by
  constructor
  · intro h
    unfold natural? at h
    split at h
    · split at h
      · next hlt =>
        cases h
        exact ⟨rfl, hlt⟩
      · cases h
    · cases h
  · rintro ⟨rfl, hlt⟩
    exact if_pos hlt

theorem natural?_ofNat {limit n m : Nat} :
    (ofNat n).natural? limit = some m ↔ m = n ∧ n < limit := by
  rw [natural?_eq_some]
  constructor
  · rintro ⟨h, hlt⟩
    obtain rfl := Int.ofNat.inj (integer.inj h)
    exact ⟨rfl, hlt⟩
  · rintro ⟨rfl, hlt⟩
    exact ⟨rfl, hlt⟩

theorem word?_eq_some {value : Json} {word : UInt32} :
    value.word? = some word ↔ value.natural? UInt32.size = some word.toNat := by
  rw [word?, Option.map_eq_some_iff]
  constructor
  · rintro ⟨n, hn, rfl⟩
    rwa [toNat_toUInt32 (natural?_eq_some.mp hn).2]
  · intro h
    exact ⟨word.toNat, h, toUInt32_toNat word⟩

end Json

theorem Member.gives_required {σ : Type} {member : Member σ} (h : member.missing = none) (s : σ)
    (found : Option Json) : member.Gives s found ↔
      ∃ value, found = some value ∧ member.codec.read? value = some (member.part s) := by
  cases found with
  | none => simp [Gives, h]
  | some value => simp [Gives]

namespace RelationDraft

theorem ofParts?_eq_some {source target offsets neighbors : Json}
    {given : RelationDraft} : ofParts? source target offsets neighbors = some given ↔
      Kind.ofJson? source = some given.relation.source ∧
      Kind.ofJson? target = some given.relation.target ∧
      offsets.words? = some given.offsets ∧ neighbors.words? = some given.neighbors := by
  simp only [ofParts?, Option.bind_eq_bind, Option.bind_eq_some_iff]
  constructor
  · rintro ⟨_, hsource, _, htarget, _, hoffsets, _, hneighbors, heq⟩
    cases heq
    exact ⟨hsource, htarget, hoffsets, hneighbors⟩
  · rintro ⟨hsource, htarget, hoffsets, hneighbors⟩
    exact ⟨_, hsource, _, htarget, _, hoffsets, _, hneighbors, rfl⟩

theorem ofMembers?_eq_some {members : List (String × Json)} {given : RelationDraft} :
    ofMembers? members = some given ↔ Json.Unrepeated names members ∧
      (∃ value, Json.lookup "from" members = some value ∧
        Kind.ofJson? value = some given.relation.source) ∧
      (∃ value, Json.lookup "to" members = some value ∧
        Kind.ofJson? value = some given.relation.target) ∧
      (∃ value, Json.lookup "offsets" members = some value ∧
        value.words? = some given.offsets) ∧
      (∃ value, Json.lookup "neighbors" members = some value ∧
        value.words? = some given.neighbors) := by
  simp only [ofMembers?, Option.bind_eq_bind, Option.bind_eq_some_iff, Option.guard_eq_some',
    exists_const, ofParts?_eq_some]
  refine and_congr_right fun _ => ?_
  constructor
  · rintro ⟨a, ha, b, hb, c, hc, d, hd, hsource, htarget, hoffsets, hneighbors⟩
    exact ⟨⟨a, ha, hsource⟩, ⟨b, hb, htarget⟩, ⟨c, hc, hoffsets⟩, ⟨d, hd, hneighbors⟩⟩
  · rintro ⟨⟨a, ha, hsource⟩, ⟨b, hb, htarget⟩, ⟨c, hc, hoffsets⟩, ⟨d, hd, hneighbors⟩⟩
    exact ⟨a, ha, b, hb, c, hc, d, hd, hsource, htarget, hoffsets, hneighbors⟩

end RelationDraft

namespace Draft

theorem ofParts?_eq_some {counts : Json} {relations patches : Option Json} {draft : Draft} :
    ofParts? counts relations patches = some draft ↔
      PerKind.ofJson? (Json.natural? indexLimit) counts = some draft.counts ∧
      relations.elim (some []) relationsOfJson? = some draft.relations ∧
      patches.elim (some (.const none)) (PerKind.ofJson? Json.words?) = some draft.patches := by
  have hparts : ofParts? counts relations patches =
      (PerKind.ofJson? (Json.natural? indexLimit) counts).bind fun counts =>
        (relations.elim (some []) relationsOfJson?).bind fun relations =>
          (patches.elim (some (.const none)) (PerKind.ofJson? Json.words?)).bind fun patches =>
            some ⟨counts, relations, patches⟩ := by
    cases relations <;> cases patches <;> rfl
  simp only [hparts, Option.bind_eq_some_iff]
  constructor
  · rintro ⟨_, hcounts, _, hrelations, _, hpatches, heq⟩
    cases heq
    exact ⟨hcounts, hrelations, hpatches⟩
  · rintro ⟨hcounts, hrelations, hpatches⟩
    exact ⟨_, hcounts, _, hrelations, _, hpatches, rfl⟩

theorem ofMembers?_eq_some {members : List (String × Json)} {draft : Draft} :
    ofMembers? members = some draft ↔ Json.Unrepeated names members ∧
      (∃ value, Json.lookup "counts" members = some value ∧
        PerKind.ofJson? (Json.natural? indexLimit) value = some draft.counts) ∧
      (Json.lookup "relations" members).elim (some []) relationsOfJson? = some draft.relations ∧
      (Json.lookup "patches" members).elim (some (.const none)) (PerKind.ofJson? Json.words?) =
        some draft.patches := by
  simp only [ofMembers?, Option.bind_eq_bind, Option.bind_eq_some_iff, Option.guard_eq_some',
    exists_const, ofParts?_eq_some]
  refine and_congr_right fun _ => ?_
  constructor
  · rintro ⟨value, hvalue, hcounts, hrelations, hpatches⟩
    exact ⟨⟨value, hvalue, hcounts⟩, hrelations, hpatches⟩
  · rintro ⟨⟨value, hvalue, hcounts⟩, hrelations, hpatches⟩
    exact ⟨value, hvalue, hcounts, hrelations, hpatches⟩

end Draft

/-- The library that writes documents as the project does. It reads a text into a tree first, which
keeps the last of repeated members. -/
def Serializer.standard : Serializer where
  count := ⟨.ofNat, Json.natural? indexLimit⟩
  word := ⟨.ofWord, Json.word?⟩
  kind := ⟨Kind.toJson, Kind.ofJson?⟩
  words := ⟨fun words => .ofWords words.toList, Json.words?⟩
  relation := ⟨RelationDraft.toJson, RelationDraft.ofJson?⟩
  relations := {
    write := fun given => .list (given.toList.map RelationDraft.toJson)
    read? := fun value => (Draft.relationsOfJson? value).map List.toArray }
  counts := ⟨PerKind.toJson .ofNat, PerKind.ofJson? (Json.natural? indexLimit)⟩
  patches := ⟨PerKind.toJson fun patches => .ofWords patches.toList, PerKind.ofJson? Json.words?⟩
  draft := ⟨Draft.toJson, Draft.ofJson?⟩
  print := Json.render
  parse? := Json.parse?

namespace Serializer

theorem standard_count : standard.count.Numeric id indexLimit where
  write _ _ := rfl
  read _ _ := Json.natural?_ofNat
  below _ _ h := (Json.natural?_eq_some.mp h).2

theorem standard_word : standard.word.Numeric UInt32.toNat UInt32.size where
  write _ _ := rfl
  read _ _ := Json.word?_eq_some.trans Json.natural?_ofNat
  below _ word _ := word.toNat_lt

theorem standard_kind : standard.kind.Named Kind.label where
  write _ := rfl
  read _ _ := Kind.ofLabel?_eq_some

theorem standard_words : standard.words.Itemwise standard.word where
  write _ := rfl
  read values := by
    change (Json.list values).words? = _
    rw [Json.words?, Json.items?]
    cases h : values.mapM Json.word? <;> simp [h, standard]

theorem standard_relation :
    standard.relation.Memberwise (RelationDraft.declared standard.kind standard.words) where
  write _ := rfl
  read members given := by
    refine RelationDraft.ofMembers?_eq_some.trans (and_congr_right fun _ => ?_)
    simp only [RelationDraft.declared, List.forall_mem_cons, List.not_mem_nil, false_imp_iff,
      implies_true, and_true, Member.gives_required]
    rfl

theorem standard_relations : standard.relations.Itemwise standard.relation where
  write _ := rfl
  read values := by
    change (Draft.relationsOfJson? (.list values)).map List.toArray = _
    rfl

theorem standard_draft : standard.draft.Memberwise
    (Draft.declared standard.counts standard.relations standard.patches) where
  write draft := by
    change draft.toJson = _
    simp [Draft.toJson, Draft.declared, Member.entry, standard]
  read members draft := by
    refine Draft.ofMembers?_eq_some.trans (and_congr_right fun _ => ?_)
    simp only [Draft.declared, List.forall_mem_cons, List.not_mem_nil, false_imp_iff,
      implies_true, and_true, Member.gives_required]
    refine and_congr Iff.rfl (and_congr ?_ ?_)
    · cases Json.lookup "relations" members with
      | none => simp [Member.Gives, eq_comm]
      | some value => simp [Member.Gives, standard]
    · cases Json.lookup "patches" members <;> rfl

theorem standard_lawful : standard.Lawful where
  count := standard_count
  word := standard_word
  kind := standard_kind
  words := standard_words
  relation := standard_relation
  relations := standard_relations
  counts := ⟨fun _ => rfl, fun _ => rfl⟩
  patches := ⟨fun _ => rfl, fun _ => rfl⟩
  draft := standard_draft
  parse_print _ hplain hdepth := Json.parse?_render hplain hdepth

end Serializer

/-- A draft whose counts are words of 64 bits is read back from its document and from the text of
it, so that the same is found when it is validated. A draft that is read from whatever object has
such counts, so that its own document is read as the same draft again. Missing relations or patches
mean none, and members of other names mean nothing, in the document and in its relations. -/
theorem Draft.document_round_trip (serializer : Serializer) (h : serializer.Lawful) :
    (∀ draft : Draft, draft.Indexed →
      serializer.draft.read? (serializer.draft.write draft) = some draft ∧
      serializer.read? (serializer.write draft) = some draft ∧
      (serializer.read? (serializer.write draft)).map validate = some draft.validate) ∧
    (∀ members draft, serializer.draft.read? (.record members) = some draft → draft.Indexed ∧
      serializer.draft.read? (serializer.draft.write draft) = some draft ∧
      serializer.read? (serializer.write draft) = some draft) ∧
    (∀ members,
      (Json.lookup "relations" members = none →
        serializer.draft.read? (.record members) =
          serializer.draft.read? (.record (("relations", .list []) :: members)) ∧
        ∀ draft, serializer.draft.read? (.record members) = some draft → draft.relations = []) ∧
      (Json.lookup "patches" members = none →
        serializer.draft.read? (.record members) =
          serializer.draft.read? (.record (("patches", .record []) :: members)) ∧
        ∀ draft, serializer.draft.read? (.record members) = some draft →
          draft.patches = .const none)) ∧
    (∀ name value before after,
      (name ∉ Draft.names →
        serializer.draft.read? (.record (before ++ (name, value) :: after)) =
          serializer.draft.read? (.record (before ++ after))) ∧
      (name ∉ RelationDraft.names →
        serializer.relation.read? (.record (before ++ (name, value) :: after)) =
          serializer.relation.read? (.record (before ++ after)))) := by
  refine ⟨fun draft hindexed => ?_, fun members draft hread => ?_,
    fun members => ⟨fun hmissing => ?_, fun hmissing => ?_⟩,
    fun name value before after => ⟨fun hname => ?_, fun hname => ?_⟩⟩
  · have htext := h.read?_write hindexed
    exact ⟨(h.draft_carries hindexed).back, htext, by rw [htext, Option.map_some]⟩
  · have hindexed := h.indexed_of_read hread
    exact ⟨hindexed, (h.draft_carries hindexed).back, h.read?_write hindexed⟩
  · refine ⟨(h.read?_without_relations hmissing).symm, fun draft hread => ?_⟩
    have hpart := h.draft.part_of_missing
      (List.mem_cons_of_mem _ List.mem_cons_self) hmissing hread
    simpa using Option.some.inj hpart
  · refine ⟨(h.read?_without_patches hmissing).symm, fun draft hread => ?_⟩
    have hpart := h.draft.part_of_missing
      (List.mem_cons_of_mem _ (List.mem_cons_of_mem _ List.mem_cons_self)) hmissing hread
    exact (Option.some.inj hpart).symm
  · exact h.draft.read?_append_cons (by simpa [Draft.declared, Draft.names] using hname) value
      before after
  · exact h.relation.read?_append_cons
      (by simpa [RelationDraft.declared, RelationDraft.names] using hname) value before after

def Draft.wide : Draft where
  counts := (PerKind.const none).set .vertex (some 18446744073709551615)
  relations := [⟨⟨.cell, .vertex⟩, #[7, 0], #[4294967295]⟩, ⟨⟨.cell, .vertex⟩, #[], #[]⟩]
  patches := (PerKind.const none).set .edge (some #[1, 1])

theorem Draft.document_round_trip_wide : Serializer.standard.Lawful ∧ wide.Indexed ∧
    Serializer.standard.read? (Serializer.standard.write wide) = some wide ∧
    (Serializer.standard.read? (Serializer.standard.write wide)).map validate =
      some wide.validate := by
  have hindexed : wide.Indexed := by
    intro kind count hcount
    cases kind <;> cases hcount
    decide
  have htrip := (document_round_trip Serializer.standard Serializer.standard_lawful).1 wide hindexed
  exact ⟨Serializer.standard_lawful, hindexed, htrip.2⟩

end MeshLayout
