import InputCoercion.Proofs.Literal.Variables

/-!
Schemas that evolve. A schema may come to define further types, its enums to have further values,
its input unions further members, and its input objects further fields, as long as nothing has to be
given for these and no default is put in their place. Types may drop non-null marks. Then whatever
was coerced before is coerced to the same as before, with the entries in the same order.

What could go wrong is a new field. It is not missed, since it is nullable, and it adds nothing,
since it has no default. And no value that was accepted gives it, since its key was no field before,
and is not the one that selects a member either.
-/

namespace InputCoercion

/-! ### What may change -/

theorem InputType.RelaxesTo.refl (type : InputType) : type.RelaxesTo type := by
  induction type with
  | named name nonNull => exact .named id
  | list item nonNull ih => exact .list id ih

theorem InputType.RelaxesTo.trans {type type' type'' : InputType} (h : type.RelaxesTo type')
    (h' : type'.RelaxesTo type'') : type.RelaxesTo type'' := by
  induction h generalizing type'' with
  | named kept =>
    cases h' with
    | named kept' => exact .named fun hmark => kept (kept' hmark)
  | list kept inner ih =>
    cases h' with
    | list kept' inner' => exact .list (fun hmark => kept (kept' hmark)) (ih inner')

/-- Whether a field is the same but for marks that its type drops. -/
structure InputField.KeptAs (field field' : InputField) : Prop where
  name : field.name = field'.name
  default? : field.default? = field'.default?
  type : field.type.RelaxesTo field'.type

theorem InputField.KeptAs.text_eq {field field' : InputField} (h : field.KeptAs field') :
    Named.text field = Named.text field' :=
  congrArg Name.text h.name

/-- Whether nothing has to be given for a field, and nothing is put in its place. -/
structure InputField.IsOptional (field : InputField) : Prop where
  nullable : field.type.isNonNull = false
  noDefault : field.default? = none

/-- Whether all fields are kept, with optional ones added anywhere among them. -/
inductive FieldsEvolve : List InputField → List InputField → Prop
  | nil : FieldsEvolve [] []
  | kept {field field' : InputField} {fields fields' : List InputField}
      (head : field.KeptAs field') (tail : FieldsEvolve fields fields') :
      FieldsEvolve (field :: fields) (field' :: fields')
  | added {field' : InputField} {fields fields' : List InputField} (optional : field'.IsOptional)
      (tail : FieldsEvolve fields fields') : FieldsEvolve fields (field' :: fields')

/-- Whether a definition allows for all that another one does. -/
inductive TypeDefinition.EvolvesTo : TypeDefinition → TypeDefinition → Prop
  | scalar {type : ScalarType} : EvolvesTo (.scalar type) (.scalar type)
  | enum {type type' : EnumType} (values : type.values.entries ⊆ type'.values.entries) :
      EvolvesTo (.enum type) (.enum type')
  | inputObject {object object' : InputObjectType}
      (fields : FieldsEvolve object.fields.entries object'.fields.entries) :
      EvolvesTo (.inputObject object) (.inputObject object')
  | inputUnion {type type' : InputUnionType}
      (members : type.members.entries ⊆ type'.members.entries) :
      EvolvesTo (.inputUnion type) (.inputUnion type')

/-- Whether a schema still defines all that another one did, each under its name. -/
def Schema.EvolvesTo (schema schema' : Schema) : Prop :=
  ∀ definition ∈ schema.types.entries, ∃ definition',
    schema'.get? (Named.text definition) = some definition' ∧ definition.EvolvesTo definition'

/-! Changes add up, so any number of them is covered by one. -/

theorem InputField.KeptAs.isOptional {field field' : InputField} (h : field.KeptAs field')
    (hfield : field.IsOptional) : field'.IsOptional :=
  ⟨h.type.nullable hfield.nullable, h.default? ▸ hfield.noDefault⟩

theorem FieldsEvolve.refl (fields : List InputField) : FieldsEvolve fields fields := by
  induction fields with
  | nil => exact .nil
  | cons field fields ih => exact .kept ⟨rfl, rfl, .refl field.type⟩ ih

theorem FieldsEvolve.trans {fields fields' fields'' : List InputField}
    (h : FieldsEvolve fields fields') (h' : FieldsEvolve fields' fields'') :
    FieldsEvolve fields fields'' := by
  induction h' generalizing fields with
  | nil => exact h
  | added optional tail ih => exact .added optional (ih h)
  | kept head' tail' ih =>
    cases h with
    | kept head tail =>
      exact .kept ⟨head.name.trans head'.name, head.default?.trans head'.default?,
        head.type.trans head'.type⟩ (ih tail)
    | added optional tail => exact .added (head'.isOptional optional) (ih tail)

namespace TypeDefinition.EvolvesTo

theorem refl (definition : TypeDefinition) : definition.EvolvesTo definition := by
  cases definition with
  | scalar type => exact .scalar
  | enum type => exact .enum (List.Subset.refl _)
  | inputObject object => exact .inputObject (.refl _)
  | inputUnion type => exact .inputUnion (List.Subset.refl _)

theorem trans {definition definition' definition'' : TypeDefinition}
    (h : definition.EvolvesTo definition') (h' : definition'.EvolvesTo definition'') :
    definition.EvolvesTo definition'' := by
  cases h with
  | scalar => exact h'
  | enum values =>
    cases h' with
    | enum values' => exact .enum (List.Subset.trans values values')
  | inputObject fields =>
    cases h' with
    | inputObject fields' => exact .inputObject (fields.trans fields')
  | inputUnion members =>
    cases h' with
    | inputUnion members' => exact .inputUnion (List.Subset.trans members members')

end TypeDefinition.EvolvesTo

namespace Schema.EvolvesTo

variable {schema schema' schema'' : Schema}

theorem exists_get? (h : schema.EvolvesTo schema') {name : String} {definition : TypeDefinition}
    (found : schema.get? name = some definition) :
    ∃ definition', schema'.get? name = some definition' ∧ definition.EvolvesTo definition' := by
  obtain ⟨definition', found', hevolves⟩ := h definition (Catalog.mem_of_get? found)
  rw [Catalog.name_of_get? found] at found'
  exact ⟨definition', found', hevolves⟩

theorem refl (schema : Schema) : schema.EvolvesTo schema := fun definition hmem =>
  ⟨definition, Catalog.get?_text_of_mem hmem, .refl definition⟩

theorem trans (h : schema.EvolvesTo schema') (h' : schema'.EvolvesTo schema'') :
    schema.EvolvesTo schema'' := by
  intro definition hmem
  obtain ⟨definition', found', hevolves⟩ := h definition hmem
  obtain ⟨definition'', found'', hevolves'⟩ := h'.exists_get? found'
  exact ⟨definition'', found'', hevolves.trans hevolves'⟩

theorem exists_inputObject? (h : schema.EvolvesTo schema') {name : String}
    {object : InputObjectType} (hobject : schema.inputObject? name = some object) :
    ∃ object', schema'.inputObject? name = some object' ∧
      FieldsEvolve object.fields.entries object'.fields.entries := by
  obtain ⟨definition', found', hevolves⟩ := h.exists_get? (inputObject?_eq_some_iff.mp hobject)
  cases hevolves with
  | inputObject fields => exact ⟨_, inputObject?_eq_some_iff.mpr found', fields⟩

/-- A variant stays a variant, with the same tag. -/
theorem exists_hasVariant (h : schema.EvolvesTo schema') {name : Name} {tag : Entries}
    {object : InputObjectType} (variant : schema.HasVariant name tag object) :
    ∃ object', schema'.HasVariant name tag object' ∧
      FieldsEvolve object.fields.entries object'.fields.entries := by
  cases variant with
  | inputObject found =>
    obtain ⟨object', hobject', hfields⟩ :=
      h.exists_inputObject? (inputObject?_eq_some_iff.mpr found)
    exact ⟨object', .inputObject (inputObject?_eq_some_iff.mp hobject'), hfields⟩
  | member found listed resolved =>
    obtain ⟨definition', found', hevolves⟩ := h.exists_get? found
    obtain ⟨object', hobject', hfields⟩ := h.exists_inputObject? resolved
    cases hevolves with
    | inputUnion members => exact ⟨object', .member found' (members listed) hobject', hfields⟩

end Schema.EvolvesTo

/-! ### What becomes of the fields -/

namespace FieldsEvolve

variable {ε : Type} {source source' : FieldSource ε} {path : Path}
  {fields fields' : List InputField}

theorem texts_sublist (h : FieldsEvolve fields fields') :
    (fields.map Named.text).Sublist (fields'.map Named.text) := by
  induction h with
  | nil => exact List.Sublist.slnil
  | kept head tail ih =>
    rw [List.map_cons, List.map_cons, head.text_eq]
    exact ih.cons_cons _
  | added optional tail ih => exact ih.cons _

/-- If kept fields come to the same and added ones to nothing, then all fields come to the same. -/
theorem values_eq_and_failures_eq (h : FieldsEvolve fields fields')
    (hnodup : (fields'.map Named.text).Nodup)
    (hkept : ∀ field ∈ fields, ∀ field', field.KeptAs field' →
      source'.resolve path field' = source.resolve path field)
    (hadded : ∀ field' ∈ fields', field'.IsOptional → Named.text field' ∉ fields.map Named.text →
      source'.resolve path field' = .omitted) :
    source'.values path fields' = source.values path fields ∧
      source'.failures path fields' = source.failures path fields := by
  induction h with
  | nil => exact ⟨rfl, rfl⟩
  | @kept field field' fields fields' head tail ih =>
    obtain ⟨hnotMem, hnodup⟩ := List.nodup_cons.mp hnodup
    have htext := head.text_eq
    obtain ⟨hvalues, hfailures⟩ := ih hnodup
      (fun other hother => hkept other (List.mem_cons_of_mem field hother))
      fun other hother hoptional hnew => hadded other (List.mem_cons_of_mem field' hother) hoptional
        (by
          rw [List.map_cons, List.mem_cons, not_or, htext]
          exact ⟨fun heq => hnotMem (heq ▸ List.mem_map_of_mem hother), hnew⟩)
    have hhead := hkept field List.mem_cons_self field' head
    simp only [FieldSource.values, FieldSource.failures] at hvalues hfailures ⊢
    simp only [List.filterMap_cons, hhead, htext, hvalues, hfailures, and_self]
  | @added field' fields fields' optional tail ih =>
    obtain ⟨hnotMem, hnodup⟩ := List.nodup_cons.mp hnodup
    obtain ⟨hvalues, hfailures⟩ := ih hnodup hkept fun other hother =>
      hadded other (List.mem_cons_of_mem field' hother)
    have hnew : Named.text field' ∉ fields.map Named.text :=
      fun hmem => hnotMem (tail.texts_sublist.subset hmem)
    have hhead := hadded field' List.mem_cons_self optional hnew
    simp only [FieldSource.values, FieldSource.failures] at hvalues hfailures ⊢
    simp [hhead, hvalues, hfailures]

end FieldsEvolve

namespace FieldSource

variable {ε : Type} {source source' : FieldSource ε} {path : Path} {field field' : InputField}

/-- A field that is kept comes to the same in a source that gives the same for it, if it comes to
anything. -/
theorem resolve_of_keptAs (h : field.KeptAs field')
    (hgiven : ∀ w, source.coerceField field (fieldPath path field) = some (.ok w) →
      source'.coerceField field' (fieldPath path field') = some (.ok w))
    (hnotGiven : source.coerceField field (fieldPath path field) = none →
      source'.coerceField field' (fieldPath path field') = none)
    (hnotFailed : ∀ failure, source.resolve path field ≠ .failed failure) :
    source'.resolve path field' = source.resolve path field := by
  cases hresolve : source.resolve path field with
  | present w =>
    rw [resolve_eq_present_iff] at hresolve ⊢
    exact hresolve.imp (hgiven w) (And.imp hnotGiven h.default?.symm.trans)
  | omitted =>
    rw [resolve_eq_omitted_iff] at hresolve ⊢
    exact hresolve.imp hnotGiven (And.imp h.default?.symm.trans h.type.nullable)
  | failed failure => exact absurd hresolve (hnotFailed failure)

theorem resolve_of_isOptional (h : field.IsOptional)
    (hnotGiven : source.coerceField field (fieldPath path field) = none) :
    source.resolve path field = .omitted :=
  resolve_eq_omitted_iff.mpr ⟨hnotGiven, h.noDefault, h.nullable⟩

end FieldSource

/-! ### What becomes of a value -/

namespace Coercion

variable {schema schema' : Schema} {span? : Option Span}

variable (schema schema' span?) in
/-- Whether one schema gives whatever another one gives for a value at a type, at every type that is
left when marks are dropped. -/
def Upholds (type : InputType) (value : Json) : Prop :=
  ∀ type', type.RelaxesTo type' → ∀ path w, coerceJson schema span? value type path = .ok w →
    coerceJson schema' span? value type' path = .ok w

/-- The step for an object: what is added to its fields is not given and leaves no trace. -/
theorem coerceObject_of_fieldsEvolve (hvalid' : schema'.IsValid) {name : Name} {tag : Entries}
    {object object' : InputObjectType} (variant : schema.HasVariant name tag object)
    (variant' : schema'.HasVariant name tag object')
    (hfields : FieldsEvolve object.fields.entries object'.fields.entries) {raw : Entries}
    (hentries : ∀ entry ∈ raw, ∀ type, Upholds schema schema' span? type entry.2) {path : Path}
    {w : Json} (h : coerceObject span? object (coerceEntries schema span? raw) (!tag.isEmpty) tag
      path = .ok w) :
    coerceObject span? object' (coerceEntries schema' span? raw) (!tag.isEmpty) tag path =
      .ok w := by
  obtain ⟨hfailures, hundefined, rfl⟩ := coerceObject_eq_ok_iff.mp h
  have hdeclared := (undefinedFields_eq_nil_iff variant).mp hundefined
  have hkept (field : InputField) (hfield : field ∈ object.fields.entries) (field' : InputField)
      (hkept : field.KeptAs field') :
      (valueFields span? (coerceEntries schema' span? raw) (!tag.isEmpty)).resolve path field' =
        (valueFields span? (coerceEntries schema span? raw) (!tag.isEmpty)).resolve path field := by
    apply FieldSource.resolve_of_keptAs hkept
    · intro w hgiven
      rw [coerceField_valueFields, Option.map_eq_some_iff] at hgiven
      obtain ⟨value, hget, hcoerce⟩ := hgiven
      have hmem := Entries.mem_of_get? hget
      rw [coerceField_valueFields, ← hkept.text_eq, hget, Option.map_some,
        FieldSource.fieldPath, ← hkept.name, hentries _ hmem _ _ hkept.type _ _ hcoerce]
    · intro hnotGiven
      rw [coerceField_valueFields, Option.map_eq_none_iff] at hnotGiven
      rw [coerceField_valueFields, ← hkept.text_eq, hnotGiven, Option.map_none]
    · exact FieldSource.failures_eq_nil_iff.mp hfailures field hfield
  have hadded (field' : InputField) (hfield' : field' ∈ object'.fields.entries)
      (hoptional : field'.IsOptional)
      (hnew : Named.text field' ∉ object.fields.entries.map Named.text) :
      (valueFields span? (coerceEntries schema' span? raw) (!tag.isEmpty)).resolve path field' =
        .omitted := by
    apply FieldSource.resolve_of_isOptional hoptional
    rw [coerceField_valueFields, Option.map_eq_none_iff, Entries.get?_eq_none_iff]
    intro hkey
    rcases hdeclared _ hkey with htag | hcontains
    · exact hvalid'.variant_text_not_mem_tag variant' hfield' htag
    · exact hnew (Catalog.contains_iff.mp hcontains)
  obtain ⟨hvalues, hfailures'⟩ :=
    hfields.values_eq_and_failures_eq object'.fields.nodup_texts hkept hadded
  rw [coerceObject_eq_ok_iff, hvalues, hfailures', undefinedFields_eq_nil_iff variant']
  refine ⟨hfailures, fun key hkey => (hdeclared key hkey).imp_right fun hcontains => ?_, rfl⟩
  exact Catalog.contains_iff.mpr (hfields.texts_sublist.subset (Catalog.contains_iff.mp hcontains))

/-- The step at a named type. -/
theorem coerceNamed_of_evolvesTo (hevolves : schema.EvolvesTo schema') (hvalid' : schema'.IsValid)
    {name : Name} {value : Json}
    (hentries : ∀ entry ∈ value.entries, ∀ type, Upholds schema schema' span? type entry.2)
    {path : Path} {w : Json}
    (h : coerceNamed schema span? value (coerceEntries schema span? value.entries) name path =
      .ok w) :
    coerceNamed schema' span? value (coerceEntries schema' span? value.entries) name path =
      .ok w := by
  rcases coerceNamed_eq_ok h with ⟨scalar, found, hparse⟩ | ⟨type, enumValue, found, hget, rfl⟩ |
    ⟨tag, object, raw, variant, rfl, htag, hobject⟩
  · obtain ⟨definition', found', hdefinition⟩ := hevolves.exists_get? found
    cases hdefinition with
    | scalar => simp only [coerceNamed, found', hparse]
  · obtain ⟨definition', found', hdefinition⟩ := hevolves.exists_get? found
    cases hdefinition with
    | @enum _ type' values =>
      obtain ⟨text, htext, hvalue⟩ := Option.bind_eq_some_iff.mp hget
      have hmem := values (Catalog.mem_of_get? hvalue)
      have hvalue' : type'.values.get? text = some enumValue :=
        Catalog.name_of_get? hvalue ▸ Catalog.get?_text_of_mem hmem
      have hget' : (value.string? >>= type'.values.get?) = some enumValue :=
        Option.bind_eq_some_iff.mpr ⟨text, htext, hvalue'⟩
      simp only [coerceNamed, found', hget']
  · obtain ⟨object', variant', hfields⟩ := hevolves.exists_hasVariant variant
    rw [coerceNamed_of_variant variant' htag]
    exact coerceObject_of_fieldsEvolve hvalid' variant variant' hfields hentries hobject

theorem upholds_of_evolvesTo (hevolves : schema.EvolvesTo schema') (hvalid' : schema'.IsValid)
    (type : InputType) (value : Json) : Upholds schema schema' span? type value := by
  induction type, value using Json.coercionInduction with
  | null type =>
    intro type' hrelaxes path w h
    rw [coerceJson_null] at h ⊢
    split at h
    · cases h
    · rename_i hnullable
      rw [hrelaxes.nullable (by simpa using hnullable)]
      exact h
  | named name nonNull value hnull ih =>
    intro type' hrelaxes path w h
    cases hrelaxes with
    | named kept =>
      rw [coerceJson_named _ span? hnull] at h ⊢
      exact coerceNamed_of_evolvesTo hevolves hvalid' ih h
  | list item nonNull items ih =>
    intro type' hrelaxes path w h
    cases hrelaxes with
    | list kept inner =>
      rw [coerceJson_array_list, Coerced.array_eq_ok_iff] at h ⊢
      obtain ⟨values, hvalues, rfl⟩ := h
      refine ⟨values, List.ext_getElem (by simpa using congrArg List.length hvalues) ?_, rfl⟩
      intro i hi _
      have hlength : i < items.length := by simpa using hi
      have hitem := List.getElem_of_eq hvalues (show i < _ by simpa using hlength)
      rw [List.getElem_mapIdx, List.getElem_map] at hitem ⊢
      exact ih items[i] (List.getElem_mem hlength) _ inner _ _ hitem
  | single item nonNull value hsingle ih =>
    intro type' hrelaxes path w h
    cases hrelaxes with
    | list kept inner =>
      rw [coerceJson_single _ span? hsingle, map_eq_ok_iff] at h ⊢
      obtain ⟨inner', hinner, rfl⟩ := h
      exact ⟨inner', ih _ inner path inner' hinner, rfl⟩

end Coercion

/-- A valid schema to which another one has evolved coerces to the same value whatever that one
coerces, also where the type has dropped marks. -/
theorem Schema.coerce_eq_ok_of_evolvesTo {schema schema' : Schema} (hvalid' : schema'.IsValid)
    (hevolves : schema.EvolvesTo schema') {type type' : InputType} (hrelaxes : type.RelaxesTo type')
    {value? : Option Json} {span? : Option Span} {w : Json}
    (h : schema.coerce type value? span? = .ok w) : schema'.coerce type' value? span? = .ok w :=
  Coercion.upholds_of_evolvesTo hevolves hvalid' type (value?.getD .null) type' hrelaxes [] w h

theorem Schema.pets_evolvesTo_morePets : pets.EvolvesTo morePets := by
  intro definition hmem
  have found : pets.get? (Named.text definition) = some definition := Catalog.get?_text_of_mem hmem
  rcases mem_of_get?_ofDefinitions found with ⟨entry, hentry, rfl⟩ | hdefined
  · simp only [ScalarParser.builtIn, List.mem_cons, List.not_mem_nil, or_false] at hentry
    rcases hentry with rfl | rfl | rfl | rfl | rfl <;> exact ⟨_, rfl, .scalar⟩
  · simp only [List.mem_cons, List.not_mem_nil, or_false] at hdefined
    rcases hdefined with rfl | rfl | rfl | rfl
    · refine ⟨.inputObject agedCatInput, rfl, .inputObject ?_⟩
      exact .added ⟨rfl, rfl⟩ (.refl catInput.fields.entries)
    · exact ⟨_, rfl, .enum (by decide)⟩
    · refine ⟨.inputObject privateDogInput, rfl, .inputObject ?_⟩
      refine .kept ⟨rfl, rfl, .refl _⟩ (.kept ⟨rfl, rfl, ?_⟩ .nil)
      exact .list (fun h => by cases h) (.named fun h => by cases h)
    · exact ⟨_, rfl, .inputUnion (by decide)⟩

/-- The dog is what it was. -/
theorem Schema.morePets_coerce_dog :
    morePets.IsValid ∧ pets.EvolvesTo morePets ∧ petType.RelaxesTo petType.nullable ∧
      pets.coerce petType (some dog) none = .ok coercedDog ∧
      morePets.coerce petType.nullable (some dog) none = .ok coercedDog := by
  have hdog : pets.coerce petType (some dog) none = .ok coercedDog := rfl
  have hrelaxes : petType.RelaxesTo petType.nullable := .named fun h => by cases h
  exact ⟨morePets_isValid, pets_evolvesTo_morePets, hrelaxes, hdog,
    coerce_eq_ok_of_evolvesTo morePets_isValid pets_evolvesTo_morePets hrelaxes hdog⟩

end InputCoercion
