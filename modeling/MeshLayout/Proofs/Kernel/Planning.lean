import MeshLayout.Proofs.Kernel.Staging

/-!
# Which requests make a plan

Requests are checked one after the other. A plan is made exactly if each of them names a binding
that can be staged; otherwise the refusal is for the first one that does not, whether staging is
enabled or not. The plan lists the requested bindings once, in the order in which they were first
asked for.
-/

set_option autoImplicit false

namespace MeshLayout

namespace Plan

def Shared (uses : List Use) (binding : Nat) (use : Use) : Prop :=
  ∃ i other, uses[i]? = some other ∧ i ≠ binding ∧ other.location = use.location ∧
    (other.access.writes = true ∨ use.access.writes = true)

/-- A copy can stand for a binding: it does not overwrite, and nothing makes the copy and the field
part. -/
def Stageable (uses : List Use) (binding : Nat) : Prop :=
  ∃ use, uses[binding]? = some use ∧ use.access ≠ .write ∧ ¬Shared uses binding use

inductive Objects (region : String) (uses : List Use) (binding : Nat) : Error → Prop
  | unknown (missing : uses[binding]? = none) :
      Objects region uses binding (.config (.unknownBinding region binding))
  | overwritten {use : Use} (there : uses[binding]? = some use) (overwrites : use.access = .write) :
      Objects region uses binding (.unsupportedStaging use.field .overwritten)
  | aliased {use : Use} (there : uses[binding]? = some use) (access_ne : use.access ≠ .write)
      (shared : Shared uses binding use) :
      Objects region uses binding (.unsupportedStaging use.field .aliased)

/-- How a plan serves accepted requests. Fields that are staged for adding are reached in no other
way, and fields that are staged for reading are not changed. -/
structure Serves (plan : Plan) (uses : List Use) (requested : List Nat)
    (enabled perPatch : Bool) : Prop where
  direct : enabled = false ∨ requested = [] → plan = Plan.direct
  mode : enabled = true → requested ≠ [] → (plan.mode = .perPatch ↔ perPatch = true)
  order : enabled = true → requested ≠ [] → plan.entries.map (·.binding) = requested.eraseDups
  access : ∀ entry ∈ plan.entries, ∃ use, uses[entry.binding]? = some use ∧
    use.access = entry.access
  sums : ∀ entry ∈ plan.entries, entry.access = .accumulate →
    ∀ {use other : Use} {i : Nat}, uses[entry.binding]? = some use → uses[i]? = some other →
      other.location = use.location → i = entry.binding
  reads : ∀ entry ∈ plan.entries, entry.access = .read →
    ∀ {use other : Use} {i : Nat}, uses[entry.binding]? = some use → uses[i]? = some other →
      other.location = use.location → other.access = .read

variable {region : String} {uses : List Use} {requested before rest : List Nat} {binding : Nat}
  {entries collected : List StagedUse} {error : Error}

theorem Objects.not_stageable (h : Objects region uses binding error) :
    ¬Stageable uses binding := by
  rintro ⟨use, huse, haccess, halone⟩
  cases h with
  | unknown missing => rw [huse] at missing; cases missing
  | overwritten there overwrites =>
    obtain rfl := Option.some.inj (huse.symm.trans there)
    exact haccess overwrites
  | aliased there access_ne shared =>
    obtain rfl := Option.some.inj (huse.symm.trans there)
    exact halone shared

theorem clashes_eq_true {use : Use} : clashes use binding uses 0 = true ↔
    Shared uses binding use := by
  rw [← Bool.not_eq_false, clashes_eq_false, Shared]
  simp only [Classical.not_forall, exists_prop]
  refine exists_congr fun i => exists_congr fun other => and_congr_right fun _ => ?_
  rw [Nat.zero_add, Bool.not_eq_false, clash, Bool.and_eq_true, beq_iff_eq, Bool.or_eq_true]

theorem enter_order {access : Access} (hentries : entries.map (·.binding) = before.eraseDups) :
    (if entries.any (·.binding == binding) then entries
      else entries ++ [⟨binding, access⟩]).map (·.binding) = (before ++ [binding]).eraseDups := by
  have hentered : entries.any (·.binding == binding) = true ↔ binding ∈ before := by
    rw [← List.mem_eraseDups, ← hentries]
    simp [List.any_eq_true, List.mem_map]
  rw [List.eraseDups_append, ← hentries]
  by_cases hmem : binding ∈ before
  · rw [if_pos (hentered.mpr hmem)]
    simp [List.removeAll, hmem]
  · rw [if_neg (mt hentered.mp hmem)]
    simp [List.removeAll, hmem, List.eraseDups_cons]

theorem collect_cons (region : String) (uses : List Use) (binding : Nat) (rest : List Nat)
    (entries : List StagedUse) :
    (Stageable uses binding ∧ ∃ use, uses[binding]? = some use ∧
      collect region uses (binding :: rest) entries = collect region uses rest
        (if entries.any (·.binding == binding) then entries
        else entries ++ [⟨binding, use.access⟩])) ∨
    ∃ error, collect region uses (binding :: rest) entries = .error error ∧
      Objects region uses binding error := by
  rw [collect]
  cases huse : uses[binding]? with
  | none => exact .inr ⟨_, rfl, .unknown huse⟩
  | some use =>
    dsimp only
    by_cases haccess : use.access = .write
    · exact .inr ⟨_, by simp [haccess, Checked.require], .overwritten huse haccess⟩
    · rw [Checked.require_of _ haccess, ok_bind]
      by_cases hshared : Shared uses binding use
      · refine .inr ⟨_, ?_, .aliased huse haccess hshared⟩
        rw [clashes_eq_true.mpr hshared]
        rfl
      · have hclash := mt clashes_eq_true.mp hshared
        rw [Bool.not_eq_true] at hclash
        rw [hclash]
        exact .inl ⟨⟨use, huse, haccess, hshared⟩, use, rfl, rfl⟩

theorem collect_cases (region : String) (uses : List Use) (requested : List Nat)
    (hentries : entries.map (·.binding) = before.eraseDups) :
    (∃ collected, collect region uses requested entries = .ok collected ∧
      (∀ binding ∈ requested, Stageable uses binding) ∧
      collected.map (·.binding) = (before ++ requested).eraseDups) ∨
    ∃ error, collect region uses requested entries = .error error ∧
      ∃ accepted binding rest, requested = accepted ++ binding :: rest ∧
        (∀ earlier ∈ accepted, Stageable uses earlier) ∧ Objects region uses binding error := by
  induction requested generalizing before entries with
  | nil => exact .inl ⟨entries, rfl, List.forall_mem_nil _, by rw [hentries, List.append_nil]⟩
  | cons binding rest ih =>
    rcases collect_cons region uses binding rest entries with
      ⟨hstageable, use, -, hnext⟩ | ⟨error, hrefused, hobjects⟩
    · rw [hnext]
      rcases ih (enter_order hentries) with
        ⟨collected, hcollected, hall, hbindings⟩ |
          ⟨error, hrefused, accepted, other, later, rfl, haccepted, hobjects⟩
      · refine .inl ⟨collected, hcollected, List.forall_mem_cons.mpr ⟨hstageable, hall⟩, ?_⟩
        rw [hbindings, List.append_assoc, List.singleton_append]
      · refine .inr ⟨error, hrefused, binding :: accepted, other, later, rfl, ?_, hobjects⟩
        exact List.forall_mem_cons.mpr ⟨hstageable, haccepted⟩
    · exact .inr ⟨error, hrefused, [], binding, rest, rfl, List.forall_mem_nil _, hobjects⟩

namespace Admits

variable {entry : StagedUse} {use other : Use} {i : Nat}

theorem eq_binding (h : Admits uses entry) (haccess : entry.access = .accumulate)
    (huse : uses[entry.binding]? = some use) (hother : uses[i]? = some other)
    (hlocation : other.location = use.location) : i = entry.binding := by
  apply Classical.byContradiction
  intro hne
  have hread := (h.alone huse hother hne hlocation).2
  rw [haccess] at hread
  cases hread

theorem all_read (h : Admits uses entry) (haccess : entry.access = .read)
    (huse : uses[entry.binding]? = some use) (hother : uses[i]? = some other)
    (hlocation : other.location = use.location) : other.access = .read := by
  by_cases hsame : i = entry.binding
  · obtain ⟨own, hown, heq⟩ := h.use
    rw [hsame, hown] at hother
    rw [← Option.some.inj hother, heq, haccess]
  · exact (h.alone huse hother hsame hlocation).1

end Admits

theorem isEmpty_iff_of_order (horder : entries.map (·.binding) = requested.eraseDups) :
    entries.isEmpty = true ↔ requested = [] := by
  rw [List.isEmpty_iff, ← List.map_eq_nil_iff (f := (·.binding)), horder]
  cases requested <;> simp [List.eraseDups_cons]

theorem serves_of_admits {enabled perPatch : Bool}
    (hadmits : ∀ entry ∈ entries, Admits uses entry)
    (horder : entries.map (·.binding) = requested.eraseDups) :
    Serves (if entries.isEmpty || !enabled then direct
      else ⟨if perPatch then .perPatch else .whole, entries⟩) uses requested enabled perPatch := by
  have hempty := isEmpty_iff_of_order horder
  have hdirect : (entries.isEmpty || !enabled) = true ↔ enabled = false ∨ requested = [] := by
    rw [Bool.or_eq_true, hempty, Bool.not_eq_true', or_comm]
  have hplan : ∀ entry ∈ Plan.entries (if entries.isEmpty || !enabled then direct
      else ⟨if perPatch then .perPatch else .whole, entries⟩), Admits uses entry := by
    split
    · exact List.forall_mem_nil _
    · exact hadmits
  have hstages : enabled = true → requested ≠ [] →
      ¬(entries.isEmpty || !enabled) = true := by
    rw [hdirect]
    rintro rfl hrequested (hdisabled | hnone)
    · cases hdisabled
    · exact hrequested hnone
  constructor
  · exact fun hnone => if_pos (hdirect.mpr hnone)
  · intro henabled hrequested
    rw [if_neg (hstages henabled hrequested)]
    cases perPatch <;> simp
  · intro henabled hrequested
    rw [if_neg (hstages henabled hrequested)]
    exact horder
  · exact fun entry hentry => (hplan entry hentry).use
  · exact fun entry hentry haccess _ _ _ => (hplan entry hentry).eq_binding haccess
  · exact fun entry hentry haccess _ _ _ => (hplan entry hentry).all_read haccess

namespace Serves

variable {enabled perPatch : Bool} {plan : Plan}

end Serves

/-- With all settings alike, the requests make a plan that serves them, or the first that names no
binding to be staged is refused. -/
theorem make_cases (region : String) (uses : List Use) (requested : List Nat) :
    ((∀ binding ∈ requested, Stageable uses binding) ∧ ∀ enabled perPatch, ∃ plan,
      make region uses requested enabled perPatch = .ok plan ∧
        plan.Serves uses requested enabled perPatch) ∨
    ∃ error, (∀ enabled perPatch, make region uses requested enabled perPatch = .error error) ∧
      ∃ accepted binding rest, requested = accepted ++ binding :: rest ∧
        (∀ earlier ∈ accepted, Stageable uses earlier) ∧ Objects region uses binding error := by
  have hnothing : ([] : List StagedUse).map (·.binding) = ([] : List Nat).eraseDups := rfl
  rcases collect_cases region uses requested hnothing with
    ⟨collected, hcollected, hall, horder⟩ | ⟨error, hrefused, hfirst⟩
  · have hadmits := collect_admits region uses requested (List.forall_mem_nil _) hcollected
    refine .inl ⟨hall, fun enabled perPatch => ⟨_, ?_, serves_of_admits hadmits horder⟩⟩
    rw [make, hcollected]
    rfl
  · refine .inr ⟨error, fun enabled perPatch => ?_, hfirst⟩
    rw [make, hrefused]
    rfl

theorem make_serves {enabled perPatch : Bool} {plan : Plan}
    (h : make region uses requested enabled perPatch = .ok plan) :
    (∀ binding ∈ requested, Stageable uses binding) ∧
      plan.Serves uses requested enabled perPatch := by
  rcases make_cases region uses requested with ⟨hall, hmade⟩ | ⟨error, hrefused, -⟩
  · obtain ⟨made, hplan, hserves⟩ := hmade enabled perPatch
    cases hplan.symm.trans h
    exact ⟨hall, hserves⟩
  · cases (hrefused enabled perPatch).symm.trans h

/-- Requests make a plan exactly if each names a binding that can be staged, and the plan serves
them. Otherwise the answer is what is wrong with the first that does not. Whether staging is enabled
and whether patches have ranges does not matter for this. -/
theorem make_decides (region : String) (uses : List Use) (requested : List Nat)
    (enabled perPatch : Bool) :
    ((∃ plan, make region uses requested enabled perPatch = .ok plan) ↔
      ∀ binding ∈ requested, Stageable uses binding) ∧
    (∀ plan, make region uses requested enabled perPatch = .ok plan →
      plan.Serves uses requested enabled perPatch) ∧
    (∀ error, make region uses requested enabled perPatch = .error error →
      ∃ accepted binding rest, requested = accepted ++ binding :: rest ∧
        (∀ earlier ∈ accepted, Stageable uses earlier) ∧ Objects region uses binding error) ∧
    ∀ other unlike : Bool, (make region uses requested other unlike).map (fun _ => ()) =
      (make region uses requested enabled perPatch).map fun _ => () := by
  rcases make_cases region uses requested with ⟨hall, hmade⟩ | ⟨error, hrefused, hfirst⟩
  · obtain ⟨plan, hplan, hserves⟩ := hmade enabled perPatch
    refine ⟨iff_of_true ⟨plan, hplan⟩ hall, fun _ hother => (make_serves hother).2, ?_, ?_⟩
    · intro error hrefused
      cases hplan.symm.trans hrefused
    · intro other unlike
      obtain ⟨there, hthere, -⟩ := hmade other unlike
      rw [hthere, hplan]
      rfl
  · have hhere := hrefused enabled perPatch
    refine ⟨iff_of_false ?_ ?_, fun _ hother => (make_serves hother).2, ?_, ?_⟩
    · rintro ⟨plan, hplan⟩
      cases hhere.symm.trans hplan
    · obtain ⟨accepted, binding, rest, hsplit, -, hobjects⟩ := hfirst
      intro hall
      exact hobjects.not_stageable (hall binding (by simp [hsplit]))
    · intro other hother
      cases hhere.symm.trans hother
      exact hfirst
    · intro other unlike
      rw [hrefused other unlike, hhere]

/-- Of a field that is read twice, both bindings can be staged. A field that is added to and read
cannot, and this is answered although a later request names no binding. -/
theorem make_decides_of_four :
    let uses : List Use := [⟨.ofMesh 0 .vertex "a", "a", .read⟩,
      ⟨.ofMesh 0 .vertex "b", "b", .accumulate⟩, ⟨.ofMesh 0 .vertex "a", "a", .read⟩,
      ⟨.ofMesh 0 .vertex "b", "b", .read⟩]
    (∃ plan, make "region" uses [2, 0, 2] true true = .ok plan ∧ plan.mode = .perPatch ∧
      plan.entries.map (·.binding) = [2, 0]) ∧
    make "region" uses [0, 1, 9] true true = .error (.unsupportedStaging "b" .aliased) ∧
    ∃ accepted binding rest, [0, 1, 9] = accepted ++ binding :: rest ∧
      (∀ earlier ∈ accepted, Stageable uses earlier) ∧
      Objects "region" uses binding (.unsupportedStaging "b" .aliased) := by
  intro uses
  obtain ⟨-, hserves, -, -⟩ := make_decides "region" uses [2, 0, 2] true true
  obtain ⟨-, -, hrefuses, -⟩ := make_decides "region" uses [0, 1, 9] true true
  have hok : make "region" uses [2, 0, 2] true true =
      .ok ⟨.perPatch, [⟨2, .read⟩, ⟨0, .read⟩]⟩ := by rfl
  have herror : make "region" uses [0, 1, 9] true true =
      .error (.unsupportedStaging "b" .aliased) := by rfl
  have hplan := hserves _ hok
  exact ⟨⟨_, hok, (hplan.mode rfl (by decide)).mpr rfl, hplan.order rfl (by decide)⟩, herror,
    hrefuses _ herror⟩

end Plan

end MeshLayout
