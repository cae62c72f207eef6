import MeshLayout.Proofs.Blueprint

/-!
# Refused placements

A placement goes through its declarations one after the other and stops at the first that it
refuses. The declarations before that one stay declared, and the kind counts as placed even if
there are none. The wish to reorder is heard only if no declaration is refused.
-/

set_option autoImplicit false

namespace MeshLayout

namespace Blueprint

def refusal? (kind : Kind) (fields : List Declaration) (declaration : Declaration) :
    Option Error :=
  if fields.any (·.name == declaration.name) then
    some (.config (.repeatedField kind declaration.name))
  else if declaration.type.components = 0 then
    some (.config (.emptyField kind declaration.name))
  else none

theorem addFields_cons (kind : Kind) (declaration : Declaration)
    (rest fields : List Declaration) : addFields kind (declaration :: rest) fields =
      match refusal? kind fields declaration with
      | some error => (fields, .error error)
      | none => addFields kind rest (fields ++ [declaration]) := by
  rw [addFields, refusal?]
  split
  · rfl
  · split
    · rfl
    · rfl

theorem addFields_of_error {kind : Kind} {declarations fields : List Declaration} {error : Error}
    (h : (addFields kind declarations fields).2 = .error error) :
    ∃ accepted refused rest, declarations = accepted ++ refused :: rest ∧
      refusal? kind (fields ++ accepted) refused = some error ∧
      (addFields kind declarations fields).1 = fields ++ accepted ∧
      addFields kind accepted fields = (fields ++ accepted, .ok ()) := by
  induction declarations generalizing fields with
  | nil => cases h
  | cons declaration rest ih =>
    rw [addFields_cons] at h ⊢
    cases hrefusal : refusal? kind fields declaration with
    | some cause =>
      simp only [hrefusal, Except.error.injEq] at h ⊢
      subst h
      exact ⟨[], declaration, rest, rfl, by rwa [List.append_nil], (List.append_nil _).symm,
        by rw [List.append_nil]; rfl⟩
    | none =>
      simp only [hrefusal] at h ⊢
      obtain ⟨accepted, refused, later, rfl, hcause, hleft, haccepted⟩ := ih h
      rw [← List.append_cons] at hcause hleft haccepted
      refine ⟨declaration :: accepted, refused, later, rfl, hcause, hleft, ?_⟩
      rw [addFields_cons, hrefusal]
      exact haccepted

variable {blueprint : Blueprint} {kind : Kind}

theorem place_eq (hfrozen : blueprint.frozen = false) (hkind : blueprint.topology.has kind = true)
    (declarations : List Declaration) (reorder : Bool) :
    blueprint.place kind declarations reorder =
      let (fields, result) := addFields kind declarations (blueprint.placement kind).fields
      ({ blueprint with
          placements := blueprint.placements.set kind
            (some ⟨fields, (blueprint.placement kind).reorder || (reorder && result.isOk)⟩) },
        result) := by
  have hcheck : blueprint.checkKind kind = .ok () := by
    rw [checkKind, hkind]
    rfl
  rw [place, hfrozen, if_neg Bool.false_ne_true, hcheck]

theorem place_of_outside (hfrozen : blueprint.frozen = false)
    (hkind : blueprint.topology.has kind = false) (declarations : List Declaration)
    (reorder : Bool) : blueprint.place kind declarations reorder =
      (blueprint, .error (.config (.outsideTopology kind blueprint.topology))) := by
  have hcheck : blueprint.checkKind kind =
      .error (.config (.outsideTopology kind blueprint.topology)) := by
    rw [checkKind, hkind]
    rfl
  rw [place, hfrozen, if_neg Bool.false_ne_true, hcheck]

theorem set_placement_eq_self (placement : Placement) :
    ({ blueprint with placements := blueprint.placements.set kind (some placement) } =
      blueprint) ↔ blueprint.placements.get kind = some placement := by
  constructor
  · intro h
    have hget := congrArg (fun after => after.placements.get kind) h
    simpa using hget.symm
  · intro h
    have hset : blueprint.placements.set kind (some placement) = blueprint.placements := by
      refine PerKind.ext_get fun other => ?_
      rw [PerKind.get_set]
      split
      · next heq => rw [heq, h]
      · rfl
    rw [hset]

/-- A placement that refuses a declaration leaves what placing those before it leaves. -/
theorem place_of_refusal (hfrozen : blueprint.frozen = false)
    (hkind : blueprint.topology.has kind = true) {declarations : List Declaration}
    {reorder : Bool} {error : Error}
    (hrefused : (blueprint.place kind declarations reorder).2 = .error error) :
    ∃ accepted refused rest, declarations = accepted ++ refused :: rest ∧
      refusal? kind ((blueprint.placement kind).fields ++ accepted) refused = some error ∧
      (blueprint.place kind declarations reorder).1 = { blueprint with
        placements := blueprint.placements.set kind (some
          ⟨(blueprint.placement kind).fields ++ accepted, (blueprint.placement kind).reorder⟩) } ∧
      blueprint.place kind accepted false = ({ blueprint with
        placements := blueprint.placements.set kind (some
          ⟨(blueprint.placement kind).fields ++ accepted, (blueprint.placement kind).reorder⟩) },
        .ok ()) := by
  rw [place_eq hfrozen hkind] at hrefused
  obtain ⟨accepted, refused, rest, hlist, hcause, hleft, haccepted⟩ := addFields_of_error hrefused
  refine ⟨accepted, refused, rest, hlist, hcause, ?_, ?_⟩
  · rw [place_eq hfrozen hkind]
    simp only at hrefused ⊢
    rw [hrefused, hleft]
    simp [Except.isOk, Except.toBool]
  · rw [place_eq hfrozen hkind, haccepted]
    simp

theorem build_placed {placement : Placement} {metadata : Metadata} {mesh : Mesh}
    (hplaced : blueprint.placements.get kind = some placement)
    (hbuilt : (blueprint.build metadata).2 = .ok mesh) :
    (metadata.count? kind).isSome = true ∧ ∀ set, mesh.sets.get kind = some set →
      set.fields.Perm (placement.fields.map (Field.zeroed · set.size)) := by
  rw [build_eq] at hbuilt
  obtain ⟨hcounted, arranged, sets, tables, -, hsets, -, rfl⟩ := assemble_eq_ok.mp hbuilt
  refine ⟨uncounted?_eq_none.mp hcounted kind (by rw [hplaced]; rfl), fun set hset => ?_⟩
  have hfields := fieldSet_fields ((hsets kind).trans (congrArg Except.ok hset))
  rwa [Blueprint.placement, hplaced, Option.getD_some] at hfields

/-- What a refused placement leaves. On a frozen blueprint, or a kind outside the topology, it
leaves everything as it was. Otherwise some declaration of the list is refused, and what is left
is what placing the declarations before it leaves, without the wish to reorder: nothing changes
only if there are none and the kind is placed already, and every mesh built from then on counts
the kind and carries the declarations before the refused one. -/
theorem place_refused (blueprint : Blueprint) (kind : Kind) (declarations : List Declaration)
    (reorder : Bool) (error : Error)
    (hrefused : (blueprint.place kind declarations reorder).2 = .error error) :
    (blueprint.frozen = true ∧ error = .frozen .placeFields ∧
      (blueprint.place kind declarations reorder).1 = blueprint) ∨
    (blueprint.frozen = false ∧ blueprint.topology.has kind = false ∧
      error = .config (.outsideTopology kind blueprint.topology) ∧
      (blueprint.place kind declarations reorder).1 = blueprint) ∨
    (blueprint.frozen = false ∧ blueprint.topology.has kind = true ∧
      ∃ accepted refused rest, declarations = accepted ++ refused :: rest ∧
        refusal? kind ((blueprint.placement kind).fields ++ accepted) refused = some error ∧
        blueprint.place kind accepted false =
          ((blueprint.place kind declarations reorder).1, .ok ()) ∧
        (blueprint.place kind declarations reorder).1 = { blueprint with
          placements := blueprint.placements.set kind (some
            ⟨(blueprint.placement kind).fields ++ accepted,
              (blueprint.placement kind).reorder⟩) } ∧
        ((blueprint.place kind declarations reorder).1 = blueprint ↔
          accepted = [] ∧ (blueprint.placements.get kind).isSome = true) ∧
        ∀ metadata mesh,
          ((blueprint.place kind declarations reorder).1.build metadata).2 = .ok mesh →
          (metadata.count? kind).isSome = true ∧
          ∀ set, mesh.sets.get kind = some set → set.fields.Perm
            (((blueprint.placement kind).fields ++ accepted).map (Field.zeroed · set.size))) := by
  by_cases hfrozen : blueprint.frozen = true
  · rw [place_of_frozen hfrozen] at hrefused ⊢
    exact .inl ⟨hfrozen, (Except.error.inj hrefused).symm, rfl⟩
  rw [Bool.not_eq_true] at hfrozen
  by_cases hkind : blueprint.topology.has kind = true
  · obtain ⟨accepted, refused, rest, hlist, hcause, hleft, haccepted⟩ :=
      place_of_refusal hfrozen hkind hrefused
    refine .inr (.inr ⟨hfrozen, hkind, accepted, refused, rest, hlist, hcause, ?_, hleft, ?_, ?_⟩)
    · rw [hleft, haccepted]
    · rw [hleft, set_placement_eq_self, placement]
      cases blueprint.placements.get kind with
      | none => simp
      | some before =>
        obtain ⟨fields, flag⟩ := before
        simp
    · intro metadata mesh hbuilt
      rw [hleft] at hbuilt
      exact build_placed (PerKind.get_set_self _ _ _) hbuilt
  · rw [Bool.not_eq_true] at hkind
    rw [place_of_outside hfrozen hkind] at hrefused ⊢
    exact .inr (.inl ⟨hfrozen, hkind, (Except.error.inj hrefused).symm, rfl⟩)

section Repeated

def repeatedDeclarations : List Declaration := [⟨"x", ⟨.f64, 1⟩⟩, ⟨"x", ⟨.f64, 1⟩⟩]

def vertexMetadata : Metadata where
  counts := ⟨some 1, none, none, none⟩
  relations := .const none
  patches := ⟨some #[0], none, none, none⟩

theorem place_refused_repeated :
    ((start .tri {}).place .vertex repeatedDeclarations true).2 =
      .error (.config (.repeatedField .vertex "x")) ∧
    ∃ accepted refused rest, repeatedDeclarations = accepted ++ refused :: rest ∧
      refusal? .vertex accepted refused = some (.config (.repeatedField .vertex "x")) ∧
      (start .tri {}).place .vertex accepted false =
        (((start .tri {}).place .vertex repeatedDeclarations true).1, .ok ()) := by
  have hrefused : ((start .tri {}).place .vertex repeatedDeclarations true).2 =
      .error (.config (.repeatedField .vertex "x")) := by rfl
  refine ⟨hrefused, ?_⟩
  rcases place_refused (start .tri {}) .vertex repeatedDeclarations true _ hrefused with
    ⟨hfrozen, -⟩ | ⟨-, hkind, -⟩ | ⟨-, -, accepted, refused, rest, hlist, hcause, hplaced, -⟩
  · cases hfrozen
  · cases hkind
  · exact ⟨accepted, refused, rest, hlist, hcause, hplaced⟩

/-- A placement that is refused is not void: the blueprint changes, and the meshes built from it
carry a field of the refused list. -/
theorem refused_place_not_void :
    ((start .tri {}).place .vertex repeatedDeclarations true).2 =
      .error (.config (.repeatedField .vertex "x")) ∧
    ((start .tri {}).place .vertex repeatedDeclarations true).1 ≠ start .tri {} ∧
    ∃ mesh plain,
      (((start .tri {}).place .vertex repeatedDeclarations true).1.build vertexMetadata).2 =
        .ok mesh ∧
      ((start .tri {}).build vertexMetadata).2 = .ok plain ∧
      (mesh.sets.get .vertex).map FieldSet.names = some ["x"] ∧
      (plain.sets.get .vertex).map FieldSet.names = some [] := by
  refine ⟨rfl, by decide, _, _, rfl, rfl, rfl, rfl⟩

end Repeated

end Blueprint

end MeshLayout
