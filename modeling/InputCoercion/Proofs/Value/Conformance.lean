import InputCoercion.Proofs.Value.Recursion

/-!
What a coerced value looks like at its type. Conformance is defined without coercion, by the
constructs of types, and coercion is sound for it: whatever it gives for a value conforms to the
type for which it is given.

Defaults are taken as they are declared and never coerced. So a field conforms to its type or holds
its default, and no more can be said, as nothing checks that a default fits its type.

Which values a scalar admits is a parameter. Coerced values hold what parsers make of values, while
the values of literals also hold what parsers make of literals. In neither case is it null of which
they are made. So null conforms to a type that is marked against it only if it stands for something
else there, which a parser or an enum value has chosen to write as null.
-/

namespace InputCoercion

/-- What a type admits after coercion, where `admits` tells what a scalar does. -/
inductive Conforms (schema : Schema) (admits : ScalarType → Json → Prop) :
    InputType → Json → Prop
  /-- Null is admitted by the nullable types. Elsewhere it is admitted only as the value of a scalar
  or of an enum. -/
  | null {type : InputType} (nullable : type.isNonNull = false) :
      Conforms schema admits type .null
  | scalar {name : Name} {nonNull : Bool} {scalar : ScalarType} {value : Json}
      (found : schema.get? name.text = some (.scalar scalar)) (admitted : admits scalar value) :
      Conforms schema admits (.named name nonNull) value
  /-- An enum admits what stands for one of its values. -/
  | enum {name : Name} {nonNull : Bool} {type : EnumType} {enumValue : EnumValue}
      (found : schema.get? name.text = some (.enum type))
      (declared : enumValue ∈ type.values.entries) :
      Conforms schema admits (.named name nonNull) enumValue.value
  | list {item : InputType} {nonNull : Bool} {items : List Json}
      (each : ∀ value ∈ items, Conforms schema admits item value) :
      Conforms schema admits (.list item nonNull) (.array items)
  /-- The entries of an input object are fields in the order of their declaration. No field is
  missing that has a default or must not be null, and each holds a value that conforms to its type
  if it is not the default. -/
  | object {name : Name} {nonNull : Bool} {object : InputObjectType} {entries : Entries}
      (found : schema.get? name.text = some (.inputObject object))
      (ordered : (Entries.keys entries).Sublist (object.fields.entries.map Named.text))
      (present : ∀ field ∈ object.fields.entries,
        field.default?.isSome = true ∨ field.type.isNonNull = true →
          Named.text field ∈ Entries.keys entries)
      (each : ∀ field ∈ object.fields.entries, ∀ value, (Named.text field, value) ∈ entries →
        field.default? ≠ some value → Conforms schema admits field.type value) :
      Conforms schema admits (.named name nonNull) (.object entries)
  /-- The first entry of an input union names a member, and the others are those of the member. -/
  | member {name member : Name} {nonNull : Bool} {type : InputUnionType} {entries : Entries}
      (found : schema.get? name.text = some (.inputUnion type))
      (listed : member ∈ type.members.entries)
      (rest : Conforms schema admits (.named member true) (.object entries)) :
      Conforms schema admits (.named name nonNull)
        (.object ((inputNameKey, .string member.text) :: entries))

/-- The values that a scalar makes of the values of a request. No parser is ever given null. -/
def ScalarType.ParsesTo (scalar : ScalarType) (w : Json) : Prop :=
  ∃ value, value ≠ .null ∧ scalar.parser.parseValue value = .ok w

/-! ### What stands where in a value that conforms -/

section Positions

variable {schema : Schema} {admits : ScalarType → Json → Prop}

/-- What is said of the entries of an input object where they conform. -/
structure FieldsConform (schema : Schema) (admits : ScalarType → Json → Prop)
    (object : InputObjectType) (entries : Entries) : Prop where
  ordered : (Entries.keys entries).Sublist (object.fields.entries.map Named.text)
  present : ∀ field ∈ object.fields.entries,
    field.default?.isSome = true ∨ field.type.isNonNull = true →
      Named.text field ∈ Entries.keys entries
  each : ∀ field ∈ object.fields.entries, ∀ value, (Named.text field, value) ∈ entries →
    field.default? ≠ some value → Conforms schema admits field.type value

theorem Conforms.fieldsConform_of_get? {name : Name} {nonNull : Bool} {entries : Entries}
    (h : Conforms schema admits (.named name nonNull) (.object entries)) {object : InputObjectType}
    (hobject : schema.get? name.text = some (.inputObject object)) :
    FieldsConform schema admits object entries := by
  generalize hw : Json.object entries = w at h
  cases h with
  | null nullable => cases hw
  | scalar found admitted => cases found.symm.trans hobject
  | enum found declared => cases found.symm.trans hobject
  | object found ordered present each =>
    cases found.symm.trans hobject
    cases hw
    exact ⟨ordered, present, each⟩
  | member found listed rest => cases found.symm.trans hobject

/-- Behind its tag an object that conforms has the fields of the variant, at an input union as at an
input object. -/
theorem Conforms.fieldsConform {name : Name} {nonNull : Bool} {tag entries : Entries}
    {object : InputObjectType} (variant : schema.HasVariant name tag object)
    (h : Conforms schema admits (.named name nonNull) (.object (tag ++ entries))) :
    FieldsConform schema admits object entries := by
  cases variant with
  | inputObject hobject => exact h.fieldsConform_of_get? hobject
  | @member union member object hunion hmember hresolved =>
    generalize hw : Json.object ([(inputNameKey, .string member.text)] ++ entries) = w at h
    cases h with
    | null nullable => cases hw
    | scalar found admitted => cases found.symm.trans hunion
    | enum found declared => cases found.symm.trans hunion
    | object found ordered present each => cases found.symm.trans hunion
    | @member _ other _ type rest found listed inner =>
      simp only [List.singleton_append, Json.object.injEq, List.cons.injEq, Prod.mk.injEq,
        Json.string.injEq, true_and] at hw
      obtain ⟨hname, rfl⟩ := hw
      obtain rfl : member = other := Name.ext hname
      exact inner.fieldsConform_of_get? (Schema.inputObject?_eq_some_iff.mp hresolved)

/-- Whether a value stands in a coerced value where a type is expected of it. Nothing is expected of
a default, so none is looked into. -/
inductive ValueAt (schema : Schema) : InputType → Json → InputType → Json → Prop
  | here {type : InputType} {value : Json} : ValueAt schema type value type value
  | item {item : InputType} {nonNull : Bool} {items : List Json} {value : Json}
      {position : InputType} {part : Json} (listed : value ∈ items)
      (inner : ValueAt schema item value position part) :
      ValueAt schema (.list item nonNull) (.array items) position part
  | field {name : Name} {nonNull : Bool} {tag entries : Entries} {object : InputObjectType}
      {field : InputField} {value : Json} {position : InputType} {part : Json}
      (variant : schema.HasVariant name tag object) (declared : field ∈ object.fields.entries)
      (listed : (Named.text field, value) ∈ entries) (given : field.default? ≠ some value)
      (inner : ValueAt schema field.type value position part) :
      ValueAt schema (.named name nonNull) (.object (tag ++ entries)) position part

/-- Whatever stands in a value that conforms does so itself, at the type that is expected of it. -/
theorem ValueAt.conforms {type position : InputType} {w part : Json}
    (h : ValueAt schema type w position part) (hw : Conforms schema admits type w) :
    Conforms schema admits position part := by
  induction h with
  | here => exact hw
  | item listed inner ih =>
    cases hw with
    | list each => exact ih (each _ listed)
  | field variant declared listed given inner ih =>
    exact ih ((hw.fieldsConform variant).each _ declared _ listed given)

/-- Whether null stands for something else at a type: it is a value of the scalar there, or the
representation of an enum value. -/
inductive NullStandsIn (schema : Schema) (admits : ScalarType → Json → Prop) : InputType → Prop
  | scalar {name : Name} {nonNull : Bool} {scalar : ScalarType}
      (found : schema.get? name.text = some (.scalar scalar)) (admitted : admits scalar .null) :
      NullStandsIn schema admits (.named name nonNull)
  | enum {name : Name} {nonNull : Bool} {type : EnumType} {enumValue : EnumValue}
      (found : schema.get? name.text = some (.enum type))
      (declared : enumValue ∈ type.values.entries) (represented : enumValue.value = .null) :
      NullStandsIn schema admits (.named name nonNull)

theorem Conforms.null_iff {type : InputType} :
    Conforms schema admits type .null ↔
      type.isNonNull = false ∨ NullStandsIn schema admits type := by
  constructor
  · intro h
    generalize hw : Json.null = w at h
    cases h with
    | null nullable => exact .inl nullable
    | scalar found admitted =>
      rw [← hw] at admitted
      exact .inr (.scalar found admitted)
    | enum found declared => exact .inr (.enum found declared hw.symm)
    | list each | object found ordered present each | member found listed rest => cases hw
  · rintro (nullable | ⟨found, admitted⟩ | ⟨found, declared, represented⟩)
    · exact .null nullable
    · exact .scalar found admitted
    · rw [← represented]
      exact .enum found declared

end Positions

/-! ### Coercion is sound -/

theorem InputObjectType.field_unique {object : InputObjectType} {f g : InputField}
    (hf : f ∈ object.fields.entries) (hg : g ∈ object.fields.entries)
    (h : Named.text f = Named.text g) : f = g := by
  have hfind := Catalog.get?_text_of_mem hf
  rw [h, Catalog.get?_text_of_mem hg] at hfind
  exact (Option.some.inj hfind).symm

section Soundness

variable {schema : Schema} {admits : ScalarType → Json → Prop}

/-- What null comes to conforms, if it comes to anything. -/
theorem Conforms.of_null {ε : Type} {e : ε} {type : InputType} {w : Json}
    (h : (if type.isNonNull then .error e else .ok .null : Except ε Json) = .ok w) :
    Conforms schema admits type w := by
  cases hnonNull : type.isNonNull with
  | true =>
    rw [hnonNull] at h
    cases h
  | false =>
    rw [hnonNull] at h
    cases h
    exact .null hnonNull

theorem Conforms.singleton {item : InputType} {nonNull : Bool} {w : Json}
    (h : Conforms schema admits item w) :
    Conforms schema admits (.list item nonNull) (.array [w]) := by
  refine .list fun value hmem => ?_
  rw [List.mem_singleton.mp hmem]
  exact h

theorem Conforms.of_values {ε : Type} {source : FieldSource ε} {path : Path} {name : Name}
    {nonNull : Bool} {object : InputObjectType}
    (found : schema.get? name.text = some (.inputObject object))
    (hfailures : source.failures path object.fields.entries = [])
    (hvalues : ∀ field ∈ object.fields.entries, ∀ w,
      source.coerceField field (FieldSource.fieldPath path field) = some (.ok w) →
        Conforms schema admits field.type w) :
    Conforms schema admits (.named name nonNull)
      (.object (source.values path object.fields.entries)) := by
  refine .object found (FieldSource.keys_values_sublist source path _) ?_ ?_
  · intro field hfield hneeded
    cases hr : source.resolve path field with
    | present value =>
      have hmem := FieldSource.mem_values_iff.mpr ⟨field, hfield, rfl, hr⟩
      exact List.mem_map_of_mem hmem
    | omitted =>
      obtain ⟨-, hdefault, hnullable⟩ := FieldSource.resolve_eq_omitted_iff.mp hr
      simp [hdefault, hnullable] at hneeded
    | failed failure =>
      exact absurd hr (FieldSource.failures_eq_nil_iff.mp hfailures field hfield failure)
  · intro field hfield value hmem hdefault
    obtain ⟨other, hother, htext, hr⟩ := FieldSource.mem_values_iff.mp hmem
    rw [InputObjectType.field_unique hother hfield htext] at hr
    rcases FieldSource.resolve_eq_present_iff.mp hr with hgiven | ⟨-, hcopied⟩
    · exact hvalues field hfield value hgiven
    · exact absurd hcopied hdefault

/-- What a source of fields makes of a variant conforms if its values do. -/
theorem Conforms.of_fields (hvalid : schema.IsValid) {ε : Type} {source : FieldSource ε}
    {path : Path} {name : Name} {nonNull : Bool} {tag : Entries} {object : InputObjectType}
    (variant : schema.HasVariant name tag object)
    (hfailures : source.failures path object.fields.entries = [])
    (hvalues : ∀ field ∈ object.fields.entries, ∀ w,
      source.coerceField field (FieldSource.fieldPath path field) = some (.ok w) →
        Conforms schema admits field.type w) :
    Conforms schema admits (.named name nonNull)
      (.object (Keyed.insertAll Prod.fst tag (source.values path object.fields.entries))) := by
  -- The tag keeps its place only because no field of a valid schema takes its key.
  have hdisjoint (field : InputField) (hfield : field ∈ object.fields.entries) :=
    hvalid.variant_text_not_mem_tag variant hfield
  rw [FieldSource.insertAll_values object.fields.nodup_texts variant.nodup_tag hdisjoint]
  cases variant with
  | inputObject found => exact .of_values found hfailures hvalues
  | member found listed resolved =>
    have hfound := Schema.inputObject?_eq_some_iff.mp resolved
    exact .member found listed (.of_values hfound hfailures hvalues)

variable {span? : Option Span}

open Coercion

/-- Whether the scalars of a schema admit what their parsers make of values. -/
def AdmitsParsed (schema : Schema) (admits : ScalarType → Json → Prop) : Prop :=
  ∀ name scalar w, schema.get? name = some (.scalar scalar) → scalar.ParsesTo w → admits scalar w

/-- The step at a named type: the result conforms if those of the values inside do. -/
theorem conforms_of_coerceNamed (hvalid : schema.IsValid) (hadmits : AdmitsParsed schema admits)
    {name : Name} {nonNull : Bool} {value w : Json} (hnull : value ≠ .null) {path : Path}
    (hentries : ∀ entry ∈ value.entries, ∀ type path w,
      coerceJson schema span? entry.2 type path = .ok w → Conforms schema admits type w)
    (h : coerceNamed schema span? value (coerceEntries schema span? value.entries) name path =
      .ok w) : Conforms schema admits (.named name nonNull) w := by
  rcases coerceNamed_eq_ok h with ⟨scalar, found, hparse⟩ | ⟨type, enumValue, found, hget, rfl⟩ |
    ⟨tag, object, raw, variant, rfl, -, hobject⟩
  · exact .scalar found (hadmits name.text scalar w found ⟨value, hnull, hparse⟩)
  · obtain ⟨text, -, hget⟩ := Option.bind_eq_some_iff.mp hget
    exact .enum found (Catalog.mem_of_get? hget)
  · obtain ⟨hfailures, -, rfl⟩ := coerceObject_eq_ok_iff.mp hobject
    refine Conforms.of_fields hvalid variant hfailures ?_
    intro field hfield w hgiven
    rw [coerceField_valueFields, Option.map_eq_some_iff] at hgiven
    obtain ⟨inner, hget, hcoerce⟩ := hgiven
    obtain ⟨entry, hfind, rfl⟩ := Option.map_eq_some_iff.mp hget
    exact hentries entry (Keyed.mem_of_find?_eq_some hfind) _ _ _ hcoerce

/-- Coercion is sound for conformance, at every path. -/
theorem conforms_of_coerceJson_eq_ok (hvalid : schema.IsValid)
    (hadmits : AdmitsParsed schema admits) (type : InputType) (value : Json) :
    ∀ path w, coerceJson schema span? value type path = .ok w →
      Conforms schema admits type w := by
  induction type, value using Json.coercionInduction with
  | null type =>
    intro path w h
    rw [coerceJson_null] at h
    exact .of_null h
  | named name nonNull value hnull ih =>
    intro path w h
    rw [coerceJson_named schema span? hnull] at h
    exact conforms_of_coerceNamed hvalid hadmits hnull ih h
  | list item nonNull items ih =>
    intro path w h
    rw [coerceJson_array_list] at h
    obtain ⟨values, hvalues, rfl⟩ := Coerced.array_eq_ok_iff.mp h
    refine .list fun value hmem => ?_
    have hmapped : Except.ok value ∈ items.mapIdx fun i v =>
        coerceJson schema span? v item (path ++ [.index i]) :=
      hvalues ▸ List.mem_map_of_mem hmem
    obtain ⟨i, hi, hcoerce⟩ := List.mem_mapIdx.mp hmapped
    exact ih items[i] (List.getElem_mem hi) _ _ hcoerce
  | single item nonNull value hsingle ih =>
    intro path w h
    rw [coerceJson_single schema span? hsingle] at h
    obtain ⟨inner, hinner, rfl⟩ := map_eq_ok_iff.mp h
    exact (ih path inner hinner).singleton

end Soundness

/-- Whatever a valid schema coerces a value to conforms to the type, with what the parsers make of
values other than null at the scalars. -/
theorem Schema.conforms_of_coerce {schema : Schema} (hvalid : schema.IsValid) {type : InputType}
    {value? : Option Json} {span? : Option Span} {w : Json}
    (h : schema.coerce type value? span? = .ok w) :
    Conforms schema ScalarType.ParsesTo type w :=
  conforms_of_coerceJson_eq_ok hvalid (fun _ _ _ _ hparses => hparses) type (value?.getD .null) []
    w h

theorem Schema.conforms_of_coerce_dog :
    pets.IsValid ∧ pets.coerce petType (some dog) none = .ok coercedDog ∧
      Conforms pets ScalarType.ParsesTo petType coercedDog :=
  ⟨pets_isValid, rfl, conforms_of_coerce pets_isValid (show pets.coerce petType (some dog) none =
    .ok coercedDog from rfl)⟩

end InputCoercion
