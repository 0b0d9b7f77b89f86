import InputCoercion.Proofs.Literal.Recursion

/-!
An input union is its member with a tag. A value of the union is coerced as if the key that selects
the member were taken off, the rest were coerced to the member, and the name of the member were put
in front of what comes out. That is how the rules of coercion say it. The definition takes nothing
off: the whole object goes on to the fields of the member, with the tag ahead of them and a mark
that lets the key pass. The two are the same because no field of a valid schema takes the key.

The rules are stated here for any function that coerces values, and there is just one that obeys
them. So it makes no difference, however deep in a value the objects of a union stand. The same is
done for literals.
-/

namespace InputCoercion

/-- The entries of an object behind the name of the member that they belong to. -/
def attachMember (member : Name) (value : Json) : Json :=
  .object ((inputNameKey, .string member.text) :: value.entries)

namespace Literal

/-- The fields of an object literal that do not select a member. -/
def untagged (fields : List (Name × Literal)) : List (Name × Literal) :=
  Keyed.erase (fun field => field.1.text) inputNameKey fields

theorem lastField?_untagged {name : String} (h : name ≠ inputNameKey)
    (fields : List (Name × Literal)) :
    lastField? name (untagged fields) = lastField? name fields := by
  rw [lastField?, untagged, Keyed.erase, ← List.filter_reverse, ← Keyed.erase,
    Keyed.find?_erase_of_ne h, lastField?]

end Literal

section Objects

variable {schema : Schema} {name member : Name} {object : InputObjectType}

namespace Coercion

variable {span? : Option Span}

/-- The entries of a tagged object are coerced as those of the object without the tag. -/
theorem coerceObject_tagged (hvalid : schema.IsValid)
    (variant : schema.HasVariant name [(inputNameKey, .string member.text)] object)
    (raw : Entries) (path : Path) :
    coerceObject span? object (coerceEntries schema span? raw) true
        [(inputNameKey, .string member.text)] path =
      attachMember member <$>
        coerceObject span? object (coerceEntries schema span? (Entries.erase inputNameKey raw))
          false [] path := by
  have hdisjoint (field : InputField) (hfield : field ∈ object.fields.entries) :=
    hvalid.variant_text_not_mem_tag variant hfield
  have hresolve (field : InputField) (hfield : field ∈ object.fields.entries) :
      (valueFields span? (coerceEntries schema span? raw) true).resolve path field =
        (valueFields span? (coerceEntries schema span? (Entries.erase inputNameKey raw))
          false).resolve path field := by
    have hne : Named.text field ≠ inputNameKey := hvalid.variant_fieldName_ne variant hfield
    rw [FieldSource.resolve, FieldSource.resolve, coerceField_valueFields, coerceField_valueFields,
      Entries.get?_erase_of_ne hne]
    rfl
  have hlist (last : List Failure) := @FieldSource.coerceList_append _ _ _ _ _ _ last _ []
    hdisjoint hresolve rfl
  rw [List.append_nil] at hlist
  rw [coerceObject, coerceObject, FieldSource.coerceFields, FieldSource.coerceFields,
    undefinedFields_erase, hlist]
  cases FieldSource.coerceList _ path _ object.fields.entries [] <;> rfl

/-- Whether an object names a member of an input union. -/
def Selects (schema : Schema) (name : Name) (raw : Entries) (member : Name) : Prop :=
  ∃ type, schema.get? name.text = some (.inputUnion type) ∧ member ∈ type.members.entries ∧
    Entries.get? inputNameKey raw = some (.string member.text)

variable (schema) in
theorem not_selects_erase (raw : Entries) (name member : Name) :
    ¬ Selects schema name (Entries.erase inputNameKey raw) member := by
  rintro ⟨type, -, -, hget⟩
  rw [Entries.get?_erase_self] at hget
  cases hget

/-- The rule for input unions: take off the tag, delegate to the member, put the tag back. -/
theorem coerceJson_of_selects (hvalid : schema.IsValid) {raw : Entries}
    (h : Selects schema name raw member) (nonNull nonNull' : Bool) (path : Path) :
    coerceJson schema span? (.object raw) (.named name nonNull) path =
      attachMember member <$> coerceJson schema span? (.object (Entries.erase inputNameKey raw))
        (.named member nonNull') path := by
  obtain ⟨type, found, listed, hget⟩ := h
  obtain ⟨object, hobject⟩ := hvalid.member_resolved found listed
  have variant := Schema.HasVariant.member found listed hobject
  have alone := Schema.HasVariant.inputObject (Schema.inputObject?_eq_some_iff.mp hobject)
  rw [coerceJson_named schema span? (by simp), coerceJson_named schema span? (by simp),
    coerceNamed_of_variant variant (carries_singleton_iff.mpr hget),
    coerceNamed_of_variant alone (carries_nil _)]
  exact coerceObject_tagged hvalid variant raw path

/-! ### The rules for values -/

/-- Whether a function coerces values by the rules, with a single step for each of them. Inside a
value it relies on itself. -/
structure ObeysRules (schema : Schema) (span? : Option Span) (coerce : Json → Coercer) : Prop where
  null : ∀ type path, coerce .null type path =
    if type.isNonNull then .error (.single span? (.null type) path) else .ok .null
  list : ∀ items item nonNull path, coerce (.array items) (.list item nonNull) path =
    .array (items.mapIdx fun i value => coerce value item (path ++ [.index i]))
  single : ∀ value item nonNull path, value.isSingle = true →
    coerce value (.list item nonNull) path = (fun w => .array [w]) <$> coerce value item path
  /-- An object that selects a member is stripped of its tag and left to the member. -/
  member : ∀ name nonNull raw member path, Selects schema name raw member →
    coerce (.object raw) (.named name nonNull) path =
      attachMember member <$> coerce (.object (Entries.erase inputNameKey raw))
        (.named member true) path
  named : ∀ name nonNull value path, value ≠ .null →
    (∀ member, ¬ Selects schema name value.entries member) →
      coerce value (.named name nonNull) path =
        coerceNamed schema span? value (value.entries.map fun entry => (entry.1, coerce entry.2))
          name path

theorem obeysRules_coerceJson (hvalid : schema.IsValid) :
    ObeysRules schema span? (coerceJson schema span?) where
  null := coerceJson_null schema span?
  list := coerceJson_array_list schema span?
  single _ item nonNull path hsingle := coerceJson_single schema span? hsingle item nonNull path
  member _ nonNull _ _ path hselects := coerceJson_of_selects hvalid hselects nonNull true path
  named name nonNull value path hnull _ := by
    rw [coerceJson_named schema span? hnull, coerceEntries_eq_map]

namespace ObeysRules

variable {coerce coerce' : Json → Coercer} (h : ObeysRules schema span? coerce)
  (h' : ObeysRules schema span? coerce')
include h h'

/-- Two functions that obey the rules agree at a named type if they agree inside the value. -/
theorem eq_at_named {value : Json} (hnull : value ≠ .null)
    (hentries : ∀ entry ∈ value.entries, coerce entry.2 = coerce' entry.2) (name : Name)
    (nonNull : Bool) (path : Path) :
    coerce value (.named name nonNull) path = coerce' value (.named name nonNull) path := by
  have hmap {entries : Entries} (hsub : entries ⊆ value.entries) :
      (entries.map fun entry => (entry.1, coerce entry.2)) =
        entries.map fun entry => (entry.1, coerce' entry.2) :=
    List.map_congr_left fun entry hentry => by rw [hentries entry (hsub hentry)]
  by_cases hselects : ∃ member, Selects schema name value.entries member
  · obtain ⟨member, hselects⟩ := hselects
    cases value with
    | object raw =>
      -- What is left without the tag selects no member of anything.
      have hnone := not_selects_erase schema raw member
      have hleft : Entries.erase inputNameKey raw ⊆ raw := List.filter_sublist.subset
      rw [h.member name nonNull raw member path hselects,
        h'.member name nonNull raw member path hselects, h.named _ _ _ _ (by simp) hnone,
        h'.named _ _ _ _ (by simp) hnone, Json.entries, hmap hleft]
    | _ =>
      obtain ⟨type, -, -, hget⟩ := hselects
      cases hget
  · have hnone := not_exists.mp hselects
    rw [h.named name nonNull value path hnull hnone, h'.named name nonNull value path hnull hnone,
      hmap (List.Subset.refl _)]

/-- The rules leave no choice. -/
theorem unique : coerce = coerce' := by
  suffices heq : ∀ type value, coerce value type = coerce' value type by
    funext value type
    exact heq type value
  intro type value
  induction type, value using Json.coercionInduction with
  | null type =>
    funext path
    rw [h.null, h'.null]
  | named name nonNull value hnull ih =>
    funext path
    have hentries (entry : String × Json) (hentry : entry ∈ value.entries) :
        coerce entry.2 = coerce' entry.2 := funext (ih entry hentry)
    exact eq_at_named h h' hnull hentries name nonNull path
  | list item nonNull items ih =>
    funext path
    have hitems : (items.mapIdx fun i value => coerce value item (path ++ [.index i])) =
        items.mapIdx fun i value => coerce' value item (path ++ [.index i]) := by
      apply List.ext_getElem (by simp)
      intro i hi _
      rw [List.length_mapIdx] at hi
      rw [List.getElem_mapIdx, List.getElem_mapIdx, ih items[i] (List.getElem_mem hi)]
    rw [h.list, h'.list, hitems]
  | single item nonNull value hsingle ih =>
    funext path
    rw [h.single value item nonNull path hsingle, h'.single value item nonNull path hsingle, ih]

end ObeysRules

end Coercion

/-! ### The rules for literals -/

namespace Interpretation

variable {vars : Entries}

/-- Whether an object literal names a member of an input union. -/
def Selects (schema : Schema) (name : Name) (fields : List (Name × Literal)) (member : Name) :
    Prop :=
  ∃ type, schema.get? name.text = some (.inputUnion type) ∧ member ∈ type.members.entries ∧
    Literal.lastField? inputNameKey fields = some (.string member.text)

variable (schema) in
theorem not_selects_untagged (fields : List (Name × Literal)) (name member : Name) :
    ¬ Selects schema name (Literal.untagged fields) member := by
  rintro ⟨type, -, -, hlast⟩
  obtain ⟨field, hmem, hname, -⟩ := Literal.mem_of_lastField?_eq_some hlast
  have hne : field.1.text ≠ inputNameKey := by simpa using (List.mem_filter.mp hmem).2
  exact hne hname

/-- The fields of a tagged object literal are interpreted as those of the literal without the
tag. -/
theorem interpretObject_tagged (hvalid : schema.IsValid)
    (variant : schema.HasVariant name [(inputNameKey, .string member.text)] object)
    (fields : List (Name × Literal)) :
    interpretObject object (interpretFields schema vars fields)
        [(inputNameKey, .string member.text)] =
      attachMember member <$>
        interpretObject object (interpretFields schema vars (Literal.untagged fields)) [] := by
  have hdisjoint (field : InputField) (hfield : field ∈ object.fields.entries) :=
    hvalid.variant_text_not_mem_tag variant hfield
  have hresolve (field : InputField) (hfield : field ∈ object.fields.entries) :
      (literalFields (interpretFields schema vars fields)).resolve [] field =
        (literalFields (interpretFields schema vars (Literal.untagged fields))).resolve []
          field := by
    have hne : Named.text field ≠ inputNameKey := hvalid.variant_fieldName_ne variant hfield
    rw [FieldSource.resolve, FieldSource.resolve, coerceField_literalFields,
      coerceField_literalFields, Literal.lastField?_untagged hne]
    rfl
  have hlist (last : List NoValue) := @FieldSource.coerceList_append _ _ _ _ _ _ last _ []
    hdisjoint hresolve rfl
  rw [List.append_nil] at hlist
  have hundefined (given : List (Name × Option Interpreter)) :
      (literalFields given).undefinedFields object [] = [] := rfl
  rw [interpretObject, interpretObject, FieldSource.coerceFields, FieldSource.coerceFields,
    hundefined, hundefined, hlist]
  cases FieldSource.coerceList _ [] _ object.fields.entries [] <;> rfl

theorem interpret_of_selects (hvalid : schema.IsValid) {fields : List (Name × Literal)}
    (h : Selects schema name fields member) (nonNull nonNull' : Bool) :
    interpret schema vars (.object fields) (.named name nonNull) =
      attachMember member <$> interpret schema vars (.object (Literal.untagged fields))
        (.named member nonNull') := by
  obtain ⟨type, found, listed, hlast⟩ := h
  obtain ⟨object, hobject⟩ := hvalid.member_resolved found listed
  have variant := Schema.HasVariant.member found listed hobject
  have alone := Schema.HasVariant.inputObject (Schema.inputObject?_eq_some_iff.mp hobject)
  rw [interpret_named schema vars rfl, interpret_named schema vars rfl,
    interpretNamed_of_variant variant (carries_singleton_iff.mpr hlast),
    interpretNamed_of_variant alone (carries_nil _)]
  exact interpretObject_tagged hvalid variant fields

/-- Whether a function interprets literals by the rules, with a single step for each of them. -/
structure ObeysRules (schema : Schema) (vars : Entries) (interpret : Literal → Interpreter) :
    Prop where
  null : ∀ type, interpret .null type = if type.isNonNull then .error .absent else .ok .null
  var : ∀ name type, interpret (.var name) type =
    match Entries.get? name.text vars with
    | some value => .ok value
    | none => .error .absent
  list : ∀ items item nonNull, interpret (.list items) (.list item nonNull) =
    .array <$> items.mapM fun literal =>
      if literal.isMissingVariable vars then
        if item.isNonNull then .error .absent else .ok .null
      else
        interpret literal item
  single : ∀ literal item nonNull, literal.isSingle = true →
    interpret literal (.list item nonNull) = (fun w => .array [w]) <$> interpret literal item
  /-- An object literal that selects a member is stripped of its tag and left to the member. -/
  member : ∀ name nonNull fields member, Selects schema name fields member →
    interpret (.object fields) (.named name nonNull) =
      attachMember member <$> interpret (.object (Literal.untagged fields)) (.named member true)
  named : ∀ name nonNull literal, literal.isChecked = true →
    (∀ member, ¬ Selects schema name literal.fields member) →
      interpret literal (.named name nonNull) =
        interpretNamed schema vars literal
          (literal.fields.map fun field =>
            (field.1,
              if field.2.isMissingVariable vars then none else some (interpret field.2)))
          name

theorem interpretItems_eq_mapM (items : List Literal) (type : InputType) :
    interpretItems schema vars items type = items.mapM (interpretItem schema vars type) := by
  induction items with
  | nil => rfl
  | cons item items ih =>
    rw [interpretItems_cons, List.mapM_cons, ih]
    simp only [map_eq_pure_bind]

theorem obeysRules_interpret (hvalid : schema.IsValid) :
    ObeysRules schema vars (interpret schema vars) where
  null := interpret_null schema vars
  var name type := by
    cases hget : Entries.get? name.text vars <;> simp only [interpret, hget]
  list items item nonNull := by
    rw [interpret_list, interpretItems_eq_mapM]
    rfl
  single _ item nonNull hsingle := interpret_single schema vars hsingle item nonNull
  member _ nonNull _ _ hselects := interpret_of_selects hvalid hselects nonNull true
  named name nonNull literal hchecked _ := by
    rw [interpret_named schema vars hchecked, interpretFields_eq_map]
    rfl

namespace ObeysRules

variable {interpret interpret' : Literal → Interpreter} (h : ObeysRules schema vars interpret)
  (h' : ObeysRules schema vars interpret')
include h h'

theorem eq_at_named {literal : Literal} (hchecked : literal.isChecked = true)
    (hfields : ∀ field ∈ literal.fields, interpret field.2 = interpret' field.2) (name : Name)
    (nonNull : Bool) :
    interpret literal (.named name nonNull) = interpret' literal (.named name nonNull) := by
  have hmap {fields : List (Name × Literal)} (hsub : fields ⊆ literal.fields) :
      (fields.map fun field =>
          (field.1, if field.2.isMissingVariable vars then none else some (interpret field.2))) =
        fields.map fun field =>
          (field.1, if field.2.isMissingVariable vars then none else some (interpret' field.2)) :=
    List.map_congr_left fun field hfield => by rw [hfields field (hsub hfield)]
  by_cases hselects : ∃ member, Selects schema name literal.fields member
  · obtain ⟨member, hselects⟩ := hselects
    cases literal with
    | object fields =>
      have hnone := not_selects_untagged schema fields member
      have hleft : Literal.untagged fields ⊆ fields := List.filter_sublist.subset
      rw [h.member name nonNull fields member hselects,
        h'.member name nonNull fields member hselects, h.named _ _ _ rfl hnone,
        h'.named _ _ _ rfl hnone, Literal.fields, hmap hleft]
    | _ =>
      obtain ⟨type, -, -, hlast⟩ := hselects
      cases hlast
  · have hnone := not_exists.mp hselects
    rw [h.named name nonNull literal hchecked hnone, h'.named name nonNull literal hchecked hnone,
      hmap (List.Subset.refl _)]

theorem unique : interpret = interpret' := by
  suffices heq : ∀ type literal, interpret literal type = interpret' literal type by
    funext literal type
    exact heq type literal
  intro type literal
  induction type, literal using Literal.interpretationInduction with
  | null type => rw [h.null, h'.null]
  | var type name => rw [h.var, h'.var]
  | named name nonNull literal hchecked ih =>
    have hfields (field : Name × Literal) (hfield : field ∈ literal.fields) :
        interpret field.2 = interpret' field.2 := funext (ih field hfield)
    exact eq_at_named h h' hchecked hfields name nonNull
  | list item nonNull literals ih =>
    have hmapM (f : Literal → Interpreted) : literals.mapM f = (literals.map f).mapM id := by
      rw [List.mapM_map, Function.id_comp]
    rw [h.list, h'.list, hmapM, hmapM]
    refine congrArg _ (congrArg _ (List.map_congr_left ?_))
    intro literal hliteral
    rw [ih literal hliteral]
  | single item nonNull literal hsingle ih =>
    rw [h.single literal item nonNull hsingle, h'.single literal item nonNull hsingle, ih]

end ObeysRules

end Interpretation

end Objects

/-- With a valid schema an object of an input union is coerced as its member is without the tag, to
the same result behind the name of the member or to the same errors. A literal of the union is
interpreted as its member is. Wherever objects of a union stand in a value or in a literal, the
result is the one that these rules give. -/
theorem Schema.inputUnion_eq_attachMember {schema : Schema} (hvalid : schema.IsValid) :
    (∀ name raw member, Coercion.Selects schema name raw member → ∀ nonNull nonNull' span?,
        schema.coerce (.named name nonNull) (some (.object raw)) span? =
          attachMember member <$> schema.coerce (.named member nonNull')
            (some (.object (Entries.erase inputNameKey raw))) span?) ∧
      (∀ span? coerce, Coercion.ObeysRules schema span? coerce ↔
        coerce = Coercion.coerceJson schema span?) ∧
      (∀ name fields member, Interpretation.Selects schema name fields member →
        ∀ nonNull nonNull' vars,
          schema.interpret (.named name nonNull) (some (.object fields)) vars =
            attachMember member <$> schema.interpret (.named member nonNull')
              (some (.object (Literal.untagged fields))) vars) ∧
      ∀ vars interpret, Interpretation.ObeysRules schema vars interpret ↔
        interpret = Interpretation.interpret schema vars := by
  refine ⟨?_, ?_, ?_, ?_⟩
  · intro name raw member hselects nonNull nonNull' span?
    exact Coercion.coerceJson_of_selects hvalid hselects nonNull nonNull' []
  · intro span? coerce
    have hcoerceJson : Coercion.ObeysRules schema span? (Coercion.coerceJson schema span?) :=
      Coercion.obeysRules_coerceJson hvalid
    constructor
    · intro hrules
      exact hrules.unique hcoerceJson
    · rintro rfl
      exact hcoerceJson
  · intro name fields member hselects nonNull nonNull' vars
    exact Interpretation.interpret_of_selects hvalid hselects nonNull nonNull'
  · intro vars interpret
    have hinterpret :
        Interpretation.ObeysRules schema vars (Interpretation.interpret schema vars) :=
      Interpretation.obeysRules_interpret hvalid
    constructor
    · intro hrules
      exact hrules.unique hinterpret
    · rintro rfl
      exact hinterpret

/-- The stray dog has the four errors that it has as a dog. -/
theorem Schema.pets_strayDog_eq_attachMember :
    pets.IsValid ∧ Coercion.Selects pets ⟨"Pet", rfl⟩ strayDog.entries ⟨"Dog", rfl⟩ ∧
      Entries.keys (Entries.erase inputNameKey strayDog.entries) = ["tail", "color", "friends"] ∧
      pets.coerce petType (some strayDog) none =
        attachMember ⟨"Dog", rfl⟩ <$> pets.coerce (.named ⟨"Dog", rfl⟩ true)
          (some (.object (Entries.erase inputNameKey strayDog.entries))) none ∧
      pets.coerce petType (some dog) none = .ok (attachMember ⟨"Dog", rfl⟩
        (.object [("friends", .array [attachMember ⟨"Cat", rfl⟩
          (.object [("lives", .ofInt 9), ("name", .string "Tom")])])])) := by
  have hselects : Coercion.Selects pets ⟨"Pet", rfl⟩ strayDog.entries ⟨"Dog", rfl⟩ :=
    ⟨_, rfl, List.mem_cons_of_mem _ List.mem_cons_self, rfl⟩
  have hstray := (inputUnion_eq_attachMember pets_isValid).1 _ _ _ hselects true true none
  exact ⟨pets_isValid, hselects, rfl, hstray, rfl⟩

end InputCoercion
