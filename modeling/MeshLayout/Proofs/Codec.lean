import Mathlib.Data.List.Nodup
import MeshLayout.Metadata.Document
import MeshLayout.Proofs.Json

/-!
# What lawful codecs carry

A codec carries a value if the document that it writes is read back as the value, is plain, and is
not too deep. A codec that follows the rule for the declaration of its type carries a value if the
codecs of the parts carry the parts.
-/

set_option autoImplicit false

namespace MeshLayout

theorem mapM_map_eq_some {α β : Type} {read : β → Option α} {write : α → β} {items : List α}
    (h : ∀ a ∈ items, read (write a) = some a) : (items.map write).mapM read = some items := by
  induction items with
  | nil => rfl
  | cons a rest ih =>
    have hrest := ih fun b hb => h b (List.mem_cons_of_mem a hb)
    simp [h a List.mem_cons_self, hrest]

namespace Json

section Members

variable {name key : String} {value : Json} {members : List (String × Json)}

theorem lookup_cons_of_ne (value : Json) (h : key ≠ name) (rest : List (String × Json)) :
    lookup name ((key, value) :: rest) = lookup name rest := by
  rw [lookup]
  cases lookup name rest with
  | none => exact if_neg h
  | some later => rfl

theorem lookup_cons_self (value : Json) {rest : List (String × Json)}
    (h : lookup name rest = none) : lookup name ((name, value) :: rest) = some value := by
  rw [lookup, h]
  exact if_pos rfl

theorem lookup_append_cons (value : Json) (h : key ≠ name) (before after : List (String × Json)) :
    lookup name (before ++ (key, value) :: after) = lookup name (before ++ after) := by
  induction before with
  | nil => exact lookup_cons_of_ne value h after
  | cons first rest ih => simp only [List.cons_append, lookup, ih]

theorem lookup_eq_none : lookup name members = none ↔ name ∉ members.map Prod.fst := by
  induction members with
  | nil => simp [lookup]
  | cons member rest ih =>
    obtain ⟨key, value⟩ := member
    by_cases hkey : key = name
    · subst hkey
      have hsome : lookup key ((key, value) :: rest) ≠ none := by
        rw [lookup]
        cases lookup key rest <;> simp
      simp [hsome]
    · rw [lookup_cons_of_ne value hkey, ih]
      simp [Ne.symm hkey]

theorem lookup_of_mem (hnames : (members.map Prod.fst).Nodup) (h : (name, value) ∈ members) :
    lookup name members = some value := by
  induction members with
  | nil => cases h
  | cons member rest ih =>
    have hrest := List.nodup_cons.mp hnames
    rcases List.mem_cons.mp h with rfl | hmem
    · exact lookup_cons_self value (lookup_eq_none.mpr hrest.1)
    · have hkey : member.1 ≠ name := fun heq =>
        hrest.1 (List.mem_map.mpr ⟨(name, value), hmem, heq.symm⟩)
      rw [lookup_cons_of_ne member.2 hkey, ih hrest.2 hmem]

theorem unrepeated_append_cons {names : List String} (h : name ∉ names)
    (before after : List (String × Json)) :
    Unrepeated names (before ++ (name, value) :: after) ↔ Unrepeated names (before ++ after) := by
  refine forall₂_congr fun other hother => ?_
  have hne : name ≠ other := fun heq => h (heq ▸ hother)
  simp [hne]

theorem unrepeated_cons {names : List String} (h : lookup name members = none) :
    Unrepeated names ((name, value) :: members) ↔ Unrepeated names members := by
  refine forall₂_congr fun other _ => ?_
  have hcount := List.count_eq_zero_of_not_mem (lookup_eq_none.mp h)
  by_cases hne : name = other
  · subst hne
    simp [hcount]
  · simp [hne]

theorem unrepeated_of_nodup (names : List String) (h : (members.map Prod.fst).Nodup) :
    Unrepeated names members :=
  fun name _ => List.nodup_iff_count_le_one.mp h name

end Members

theorem plainItems_iff {items : List Json} : PlainItems items ↔ ∀ item ∈ items, item.Plain := by
  induction items with
  | nil => simp [PlainItems]
  | cons item rest ih => simp [PlainItems, ih]

theorem plainMembers_iff {members : List (String × Json)} : PlainMembers members ↔
    (members.map Prod.fst).Nodup ∧ ∀ member ∈ members, member.2.Plain := by
  induction members with
  | nil => simp [PlainMembers]
  | cons member rest ih =>
    obtain ⟨name, value⟩ := member
    rw [PlainMembers, ih, lookup_eq_none, List.map_cons, List.nodup_cons, List.forall_mem_cons]
    tauto

theorem depthOfItems_le {items : List Json} {n : Nat} (h : ∀ item ∈ items, item.depth ≤ n) :
    depthOfItems items ≤ n := by
  induction items with
  | nil => exact Nat.zero_le n
  | cons item rest ih => exact Nat.max_le.mpr (List.forall_mem_cons.mp h |>.imp_right ih)

theorem depthOfMembers_le {members : List (String × Json)} {n : Nat}
    (h : ∀ member ∈ members, member.2.depth ≤ n) : depthOfMembers members ≤ n := by
  induction members with
  | nil => exact Nat.zero_le n
  | cons member rest ih => exact Nat.max_le.mpr (List.forall_mem_cons.mp h |>.imp_right ih)

end Json

namespace Kind

theorem ofLabel?_eq_some {kind : Kind} {label : String} :
    ofLabel? label = some kind ↔ kind.label = label := by
  constructor
  · intro h
    have hlabel : (kind.label == label) = true :=
      List.find?_some (p := fun other : Kind => other.label == label) h
    exact beq_iff_eq.mp hlabel
  · rintro rfl
    cases kind <;> decide

theorem label_injective : Function.Injective label := fun _ _ h =>
  Option.some.inj ((ofLabel?_eq_some.mpr h).symm.trans (ofLabel?_eq_some.mpr rfl))

theorem nodup_all : all.Nodup := by decide

end Kind

namespace PerKind

variable {α : Type} {read : Json → Option α} {write : α → Json} {table start : PerKind (Option α)}

def members (write : α → Json) (table : PerKind (Option α)) (kinds : List Kind) :
    List (String × Json) :=
  kinds.filterMap fun kind => (table.get kind).map fun a => (kind.label, write a)

theorem toJson_eq (write : α → Json) (table : PerKind (Option α)) :
    table.toJson write = .record (members write table Kind.all) := by
  rw [toJson, toList, List.filterMap_map]
  rfl

theorem mem_members {kinds : List Kind} {member : String × Json} :
    member ∈ members write table kinds ↔
      ∃ kind ∈ kinds, ∃ a, table.get kind = some a ∧ (kind.label, write a) = member := by
  simp [members, List.mem_filterMap, Option.map_eq_some_iff]

theorem members_nodup {kinds : List Kind} (h : kinds.Nodup) :
    ((members write table kinds).map Prod.fst).Nodup := by
  induction kinds with
  | nil => exact List.nodup_nil
  | cons first rest ih =>
    obtain ⟨hfirst, hrest⟩ := List.nodup_cons.mp h
    cases hget : table.get first with
    | none => simpa [members, hget] using ih hrest
    | some a =>
      have hnew : first.label ∉ (members write table rest).map Prod.fst := by
        intro hmem
        obtain ⟨member, hmember, hname⟩ := List.mem_map.mp hmem
        obtain ⟨kind, hkind, b, -, rfl⟩ := mem_members.mp hmember
        exact hfirst (Kind.label_injective hname ▸ hkind)
      have hcons : members write table (first :: rest) =
          (first.label, write a) :: members write table rest := by simp [members, hget]
      rw [hcons, List.map_cons]
      exact List.nodup_cons.mpr ⟨hnew, ih hrest⟩

theorem readMembers_members (hread : ∀ kind a, table.get kind = some a → read (write a) = some a)
    (kinds : List Kind) (start : PerKind (Option α)) :
    ∃ result, readMembers read (members write table kinds) start = some result ∧
      ∀ kind, result.get kind =
        if kind ∈ kinds then (table.get kind).or (start.get kind) else start.get kind := by
  induction kinds generalizing start with
  | nil => exact ⟨start, rfl, fun kind => by simp⟩
  | cons first rest ih =>
    cases hfirst : table.get first with
    | none =>
      obtain ⟨result, hresult, hget⟩ := ih start
      refine ⟨result, ?_, fun kind => ?_⟩
      · simpa [members, hfirst] using hresult
      · rw [hget]
        by_cases hkind : kind = first
        · subst hkind
          simp [hfirst]
        · simp [hkind]
    | some a =>
      obtain ⟨result, hresult, hget⟩ := ih (start.set first (some a))
      refine ⟨result, ?_, fun kind => ?_⟩
      · have hlabel : Kind.ofLabel? first.label = some first := Kind.ofLabel?_eq_some.mpr rfl
        simpa [members, hfirst, readMembers, hlabel, hread first a hfirst] using hresult
      · rw [hget, get_set]
        by_cases hkind : kind = first
        · subst hkind
          simp [hfirst]
        · simp [hkind]

theorem ofJson?_toJson (hread : ∀ kind a, table.get kind = some a → read (write a) = some a) :
    ofJson? read (table.toJson write) = some table := by
  obtain ⟨result, hresult, hget⟩ := readMembers_members hread Kind.all (.const none)
  have hsame : result = table := ext_get fun kind => by
    rw [hget, if_pos (Kind.mem_all kind), get_const, Option.or_none]
  rw [toJson_eq, ofJson?, hresult, hsame]

theorem readMembers_sound {members : List (String × Json)} {result : PerKind (Option α)}
    (h : readMembers read members start = some result) {kind : Kind} {a : α}
    (hget : result.get kind = some a) :
    start.get kind = some a ∨ ∃ value, read value = some a := by
  induction members generalizing start with
  | nil =>
    cases h
    exact .inl hget
  | cons member rest ih =>
    obtain ⟨label, value⟩ := member
    simp only [readMembers, Option.bind_eq_bind, Option.bind_eq_some_iff] at h
    obtain ⟨own, -, b, hvalue, hrest⟩ := h
    rcases ih hrest with hthere | hread
    · rw [get_set] at hthere
      split at hthere
      · cases hthere
        exact .inr ⟨value, hvalue⟩
      · exact .inl hthere
    · exact .inr hread

theorem ofJson?_sound {value : Json} (h : ofJson? read value = some table) {kind : Kind} {a : α}
    (hget : table.get kind = some a) : ∃ entry, read entry = some a := by
  unfold ofJson? at h
  split at h
  · rcases readMembers_sound h hget with hnone | hread
    · simp at hnone
    · exact hread
  · cases h

end PerKind

namespace Codec

variable {α σ : Type}

/-- The document of a value is read back as the value, is plain, and is at most so deep. -/
structure Carries (codec : Codec α) (a : α) (depth : Nat) : Prop where
  back : codec.read? (codec.write a) = some a
  plain : (codec.write a).Plain
  depth_le : (codec.write a).depth ≤ depth

theorem Carries.mono {codec : Codec α} {a : α} {n m : Nat} (h : codec.Carries a n) (hle : n ≤ m) :
    codec.Carries a m :=
  ⟨h.back, h.plain, Nat.le_trans h.depth_le hle⟩

theorem Numeric.carries {codec : Codec α} {toNat : α → Nat} {limit : Nat}
    (h : codec.Numeric toNat limit) {a : α} (ha : toNat a < limit) : codec.Carries a 0 := by
  have hback := (h.read (toNat a) a).mpr ⟨rfl, ha⟩
  rw [← h.write a ha] at hback
  refine ⟨hback, ?_, ?_⟩ <;> rw [h.write a ha]
  · trivial
  · exact Nat.le_refl 0

theorem Named.carries {codec : Codec α} {label : α → String} (h : codec.Named label) (a : α) :
    codec.Carries a 0 := by
  have hback := (h.read (label a) a).mpr rfl
  rw [← h.write a] at hback
  refine ⟨hback, ?_, ?_⟩ <;> rw [h.write a]
  · trivial
  · exact Nat.le_refl 0

theorem Itemwise.carries {codec : Codec (Array α)} {item : Codec α} (h : codec.Itemwise item)
    {items : Array α} {n : Nat} (hitems : ∀ a ∈ items, item.Carries a n) :
    codec.Carries items (n + 1) := by
  have hmem : ∀ a ∈ items.toList, item.Carries a n := fun a ha => hitems a (by simpa using ha)
  refine ⟨?_, ?_, ?_⟩ <;> rw [h.write]
  · rw [h.read, mapM_map_eq_some fun a ha => (hmem a ha).back, Option.map_some,
      Array.toArray_toList]
  · refine Json.plainItems_iff.mpr fun value hvalue => ?_
    obtain ⟨a, ha, rfl⟩ := List.mem_map.mp hvalue
    exact (hmem a ha).plain
  · refine Nat.succ_le_succ (Json.depthOfItems_le fun value hvalue => ?_)
    obtain ⟨a, ha, rfl⟩ := List.mem_map.mp hvalue
    exact (hmem a ha).depth_le

section Entrywise

variable {codec : Codec (PerKind (Option α))} {entry : Codec α} {table : PerKind (Option α)}

theorem Entrywise.carries (h : codec.Entrywise entry) {n : Nat}
    (hentries : ∀ kind a, table.get kind = some a → entry.Carries a n) :
    codec.Carries table (n + 1) := by
  refine ⟨?_, ?_, ?_⟩ <;> rw [h.write]
  · rw [h.read, PerKind.ofJson?_toJson fun kind a hget => (hentries kind a hget).back]
  · rw [PerKind.toJson_eq]
    refine Json.plainMembers_iff.mpr ⟨PerKind.members_nodup Kind.nodup_all, ?_⟩
    intro member hmember
    obtain ⟨kind, -, a, hget, rfl⟩ := PerKind.mem_members.mp hmember
    exact (hentries kind a hget).plain
  · rw [PerKind.toJson_eq]
    refine Nat.succ_le_succ (Json.depthOfMembers_le fun member hmember => ?_)
    obtain ⟨kind, -, a, hget, rfl⟩ := PerKind.mem_members.mp hmember
    exact (hentries kind a hget).depth_le

theorem Entrywise.entry_read (h : codec.Entrywise entry) {value : Json}
    (hread : codec.read? value = some table) {kind : Kind} {a : α}
    (hget : table.get kind = some a) : ∃ found, entry.read? found = some a := by
  rw [h.read] at hread
  exact PerKind.ofJson?_sound hread hget

end Entrywise

section Memberwise

variable {codec : Codec σ} {declared : List (Member σ)}

theorem Memberwise.carries (h : codec.Memberwise declared)
    (hnames : (declared.map (·.name)).Nodup) {s : σ} {n : Nat}
    (hparts : ∀ member ∈ declared, member.codec.Carries (member.part s) n) :
    codec.Carries s (n + 1) := by
  have hnodup : ((declared.map (·.entry s)).map Prod.fst).Nodup := by
    rwa [List.map_map]
  refine ⟨?_, ?_, ?_⟩ <;> rw [h.write]
  · refine (h.read _ s).mpr ⟨Json.unrepeated_of_nodup _ hnodup, fun member hmember => ?_⟩
    have hentry : (member.name, member.codec.write (member.part s)) ∈
        declared.map (·.entry s) := List.mem_map_of_mem hmember
    rw [Json.lookup_of_mem hnodup hentry]
    exact (hparts member hmember).back
  · refine Json.plainMembers_iff.mpr ⟨hnodup, fun found hfound => ?_⟩
    obtain ⟨member, hmember, rfl⟩ := List.mem_map.mp hfound
    exact (hparts member hmember).plain
  · refine Nat.succ_le_succ (Json.depthOfMembers_le fun found hfound => ?_)
    obtain ⟨member, hmember, rfl⟩ := List.mem_map.mp hfound
    exact (hparts member hmember).depth_le

theorem Memberwise.read?_append_cons (h : codec.Memberwise declared) {name : String}
    (hname : name ∉ declared.map (·.name)) (value : Json) (before after : List (String × Json)) :
    codec.read? (.record (before ++ (name, value) :: after)) =
      codec.read? (.record (before ++ after)) := by
  refine Option.ext fun s => ?_
  rw [h.read, h.read, Json.unrepeated_append_cons hname]
  refine and_congr_right fun _ => forall₂_congr fun member hmember => ?_
  have hne : name ≠ member.name := fun heq => hname (heq ▸ List.mem_map_of_mem hmember)
  rw [Json.lookup_append_cons value hne]

variable {member : Member σ} {members : List (String × Json)}

/-- A member that is missing is as good as one that says what it stands for. -/
theorem Memberwise.read?_cons (h : codec.Memberwise declared) (hmember : member ∈ declared)
    (hnames : (declared.map (·.name)).Nodup) {value : Json}
    (hvalue : member.codec.read? value = member.missing)
    (hmissing : Json.lookup member.name members = none) :
    codec.read? (.record ((member.name, value) :: members)) = codec.read? (.record members) := by
  refine Option.ext fun s => ?_
  rw [h.read, h.read, Json.unrepeated_cons hmissing]
  refine and_congr_right fun _ => forall₂_congr fun other hother => ?_
  by_cases hname : member.name = other.name
  · have hsame : member = other := List.inj_on_of_nodup_map hnames hmember hother hname
    subst hsame
    rw [Json.lookup_cons_self value hmissing, hmissing, Member.Gives, Member.Gives, hvalue]
  · rw [Json.lookup_cons_of_ne value hname]

theorem Memberwise.part_of_missing (h : codec.Memberwise declared) (hmember : member ∈ declared)
    (hmissing : Json.lookup member.name members = none) {s : σ}
    (hread : codec.read? (.record members) = some s) : member.missing = some (member.part s) := by
  have hgives := ((h.read members s).mp hread).2 member hmember
  rwa [hmissing] at hgives

theorem Memberwise.part_of_required (h : codec.Memberwise declared) (hmember : member ∈ declared)
    (hrequired : member.missing = none) {s : σ} (hread : codec.read? (.record members) = some s) :
    ∃ value, member.codec.read? value = some (member.part s) := by
  have hgives := ((h.read members s).mp hread).2 member hmember
  cases hfound : Json.lookup member.name members with
  | some value =>
    rw [hfound] at hgives
    exact ⟨value, hgives⟩
  | none =>
    rw [hfound] at hgives
    exact absurd (hrequired.symm.trans hgives) (by simp)

end Memberwise

end Codec

end MeshLayout
