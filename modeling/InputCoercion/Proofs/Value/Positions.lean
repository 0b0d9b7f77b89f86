import InputCoercion.Proofs.Value.Reporting

/-!
Where a fault is. Coercion follows a value along its type, from a list to its items and from an
object to the fields of the variant that it selects, and a single value through any number of list
levels without a step of its own. What it comes to on the way are the parts of the value, each with
the path that leads to it and the type at which it stands.

Every fault of a value is an own fault of one of its parts, which is one that does not come from a
value inside. So a statement about all faults of a value, however deep, follows from one about own
faults, of which there is one kind for each rule of coercion.
-/

namespace InputCoercion

/-- The value to which a path leads, along the keys of objects and the positions in arrays. -/
def Json.at? : Path → Json → Option Json
  | [], value => some value
  | .field name :: path, .object entries => (Entries.get? name.text entries).bind (at? path)
  | .index i :: path, .array items => items[i]?.bind (at? path)
  | _ :: _, _ => none

/-- Whether coercion of a value at a type comes to a part of it at another type, along a path. -/
inductive PartAt (schema : Schema) : InputType → Json → Path → InputType → Json → Prop
  | here {type : InputType} {value : Json} : PartAt schema type value [] type value
  | item {item : InputType} {nonNull : Bool} {items : List Json} {i : Nat} {value : Json}
      {path : Path} {type : InputType} {part : Json} (listed : items[i]? = some value)
      (inner : PartAt schema item value path type part) :
      PartAt schema (.list item nonNull) (.array items) (.index i :: path) type part
  | single {item : InputType} {nonNull : Bool} {value : Json} {path : Path} {type : InputType}
      {part : Json} (single : value.isSingle = true)
      (inner : PartAt schema item value path type part) :
      PartAt schema (.list item nonNull) value path type part
  | field {name : Name} {nonNull : Bool} {tag : Entries} {object : InputObjectType}
      {raw : Entries} {field : InputField} {value : Json} {path : Path} {type : InputType}
      {part : Json} (variant : schema.HasVariant name tag object)
      (selected : Coercion.Carries raw tag) (declared : field ∈ object.fields.entries)
      (given : Entries.get? (Named.text field) raw = some value)
      (inner : PartAt schema field.type value path type part) :
      PartAt schema (.named name nonNull) (.object raw) (.field field.name :: path) type part

theorem PartAt.at?_eq {schema : Schema} {type type' : InputType} {value part : Json} {path : Path}
    (h : PartAt schema type value path type' part) : value.at? path = some part := by
  induction h with
  | here => rfl
  | item listed inner ih => rw [Json.at?, listed, Option.bind_some, ih]
  | single single inner ih => exact ih
  | @field name nonNull tag object raw field value path type part variant selected declared given
      inner ih =>
    have hget : Entries.get? field.name.text raw = some value := given
    rw [Json.at?, hget, Option.bind_some, ih]

/-- The faults that a value has at a type for itself, with the path from the value to what is at
fault. Only a missing field has one. -/
inductive OwnFault (schema : Schema) : InputType → Json → Path → Problem → Prop
  | null {type : InputType} (nonNull : type.isNonNull = true) :
      OwnFault schema type .null [] (.null type)
  | rejected {name : Name} {nonNull : Bool} {value : Json} {scalar : ScalarType}
      {error : ScalarError} (found : schema.get? name.text = some (.scalar scalar))
      (rejects : scalar.parser.parseValue value = .error error) :
      OwnFault schema (.named name nonNull) value [] (.rejected scalar.name error)
  | notEnumValue {name : Name} {nonNull : Bool} {value : Json} {type : EnumType} {input : String}
      (found : schema.get? name.text = some (.enum type))
      (undeclared : (value.string? >>= type.values.get?) = none) :
      OwnFault schema (.named name nonNull) value []
        (.notEnumValue type.name input type.values.texts)
  | notObject {name : Name} {nonNull : Bool} {value : Json} {definition : TypeDefinition}
      (found : schema.get? name.text = some definition)
      (noObject : ∀ raw, value ≠ .object raw) :
      OwnFault schema (.named name nonNull) value [] (.notObject definition.name)
  | unknownMember {name : Name} {nonNull : Bool} {raw : Entries} {type : InputUnionType}
      {input : String} (found : schema.get? name.text = some (.inputUnion type))
      (unnamed : Fault.namedMember? schema type raw = none) :
      OwnFault schema (.named name nonNull) (.object raw) []
        (.unknownMember type.name type.members.texts input)
  | missingField {name : Name} {nonNull : Bool} {tag : Entries} {object : InputObjectType}
      {raw : Entries} {field : InputField} (variant : schema.HasVariant name tag object)
      (selected : Coercion.Carries raw tag) (declared : field ∈ object.fields.entries)
      (absent : Entries.get? (Named.text field) raw = none)
      (required : field.default? = none ∧ field.type.isNonNull = true) :
      OwnFault schema (.named name nonNull) (.object raw) [.field field.name]
        (.missingField field.type)
  | undefinedField {name : Name} {nonNull : Bool} {tag : Entries} {object : InputObjectType}
      {raw : Entries} {key : String} (variant : schema.HasVariant name tag object)
      (selected : Coercion.Carries raw tag) (given : key ∈ Entries.keys raw)
      (untagged : key ∉ Entries.keys tag) (undeclared : object.fields.contains key = false) :
      OwnFault schema (.named name nonNull) (.object raw) []
        (.undefinedField key object.name object.fields.texts)

namespace Fault

variable {schema : Schema} {span? : Option Span} {path : Path} {e : CoercionError}

theorem namedMember?_eq_some {type : InputUnionType} {raw : Entries} {object : InputObjectType}
    (h : namedMember? schema type raw = some object) :
    ∃ member ∈ type.members.entries, schema.inputObject? member.text = some object ∧
      Coercion.Carries raw [(inputNameKey, .string member.text)] := by
  rw [← Coercion.selectedMember?_selection] at h
  obtain ⟨member, hmem, htext, hobject⟩ := Coercion.selectedMember?_eq_some_iff.mp h
  rw [← htext] at hobject
  have hget := Coercion.get?_of_selection htext.symm member.text_ne_empty
  exact ⟨member, hmem, hobject, Coercion.carries_singleton_iff.mpr hget⟩

variable (schema span?) in
/-- Where a fault at a named type comes from: the value itself, or what it has for a field of the
variant that it selects. -/
inductive Origin (name : Name) (nonNull : Bool) : Json → Path → CoercionError → Prop
  | own {value : Json} {path inner : Path} {problem : Problem}
      (own : OwnFault schema (.named name nonNull) value inner problem) :
      Origin name nonNull value path ⟨problem, path ++ inner, span?⟩
  | field {tag : Entries} {object : InputObjectType} {raw : Entries} {field : InputField}
      {value : Json} {path : Path} {e : CoercionError}
      (variant : schema.HasVariant name tag object) (selected : Coercion.Carries raw tag)
      (declared : field ∈ object.fields.entries)
      (given : Entries.get? (Named.text field) raw = some value)
      (inside : e ∈ ofJson schema span? value field.type (path ++ [.field field.name])) :
      Origin name nonNull (.object raw) path e

/-- A problem of the value itself is reported where the value is. -/
theorem Origin.of_mem_singleton {name : Name} {nonNull : Bool} {value : Json} {problem : Problem}
    (own : OwnFault schema (.named name nonNull) value [] problem)
    (h : e ∈ [CoercionError.mk problem path span?]) :
    Origin schema span? name nonNull value path e := by
  have horigin : Origin schema span? name nonNull value path ⟨problem, path ++ [], span?⟩ :=
    .own own
  rw [List.append_nil] at horigin
  rw [List.mem_singleton.mp h]
  exact horigin

section Objects

variable {name : Name} {nonNull : Bool} {tag : Entries} {object : InputObjectType} {raw : Entries}

/-- The faults of an object are found in the entries that are left when the tag is taken off. These
have the same fields. -/
theorem origin_of_mem_ofObject (hvalid : schema.IsValid)
    (variant : schema.HasVariant name tag object) {rest : Entries}
    (hcarries : Coercion.Carries raw tag)
    (hrest : ∀ key, key ≠ inputNameKey → Entries.get? key rest = Entries.get? key raw)
    (hkeys : ∀ key ∈ Entries.keys rest, key ∈ Entries.keys raw ∧ key ∉ Entries.keys tag)
    (h : e ∈ ofObject span? object (ofEntries schema span? rest) path) :
    Origin schema span? name nonNull (.object raw) path e := by
  rw [ofObject, List.mem_append, List.mem_flatMap] at h
  rcases h with ⟨field, hfield, he⟩ | he
  · have hget := hrest (Named.text field) (hvalid.variant_fieldName_ne variant hfield)
    cases hfind : Entries.get? (Named.text field) rest with
    | none =>
      rw [ofField_of_get?_eq_none schema span? hfind] at he
      split at he
      · rename_i hrequired
        rw [List.mem_singleton.mp he]
        exact .own (.missingField variant hcarries hfield (hget ▸ hfind) hrequired)
      · cases he
    | some value =>
      rw [ofField_of_get?_eq_some schema span? hfind] at he
      exact .field variant hcarries hfield (hget ▸ hfind) he
  · obtain ⟨key, hkey, rfl⟩ := List.mem_map.mp he
    rw [List.mem_filter, keys_ofEntries] at hkey
    obtain ⟨hgiven, huntagged⟩ := hkeys key hkey.1
    have hundeclared : object.fields.contains key = false := by simpa using hkey.2
    have hown : OwnFault schema (.named name nonNull) (.object raw) [] _ :=
      .undefinedField variant hcarries hgiven huntagged hundeclared
    exact .of_mem_singleton hown (List.mem_singleton.mpr rfl)

/-- At a member of an input union the tag is erased before the fields are looked at. -/
theorem origin_of_mem_ofMember (hvalid : schema.IsValid) {member : Name}
    (variant : schema.HasVariant name [(inputNameKey, .string member.text)] object)
    (hcarries : Coercion.Carries raw [(inputNameKey, .string member.text)])
    (h : e ∈ ofObject span? object
      (Keyed.erase Prod.fst inputNameKey (ofEntries schema span? raw)) path) :
    Origin schema span? name nonNull (.object raw) path e := by
  rw [erase_ofEntries] at h
  refine origin_of_mem_ofObject hvalid variant hcarries
    (fun key hne => Entries.get?_erase_of_ne hne raw) ?_ h
  intro key hkey
  rw [Entries.mem_keys_erase] at hkey
  exact ⟨hkey.1, by simpa [Entries.keys] using hkey.2⟩

end Objects

theorem origin_of_mem_ofNamed (hvalid : schema.IsValid) {value : Json} {name : Name}
    {nonNull : Bool}
    (h : e ∈ ofNamed schema span? value (ofEntries schema span? value.entries) name path) :
    Origin schema span? name nonNull value path e := by
  cases found : schema.get? name.text with
  | none =>
    rw [ofNamed, found] at h
    cases h
  | some definition =>
    cases definition with
    | scalar type =>
      simp only [ofNamed, found] at h
      cases hparse : type.parser.parseValue value with
      | ok w => simp [hparse] at h
      | error error =>
        simp only [hparse] at h
        exact .of_mem_singleton (.rejected found hparse) h
    | enum type =>
      simp only [ofNamed, found] at h
      cases value with
      | string text =>
        have hcontains : type.values.contains text = (type.values.get? text).isSome := rfl
        simp only [hcontains] at h
        cases hget : type.values.get? text with
        | some enumValue => simp [hget] at h
        | none =>
          simp only [hget, Option.isSome_none, Bool.false_eq_true, if_false] at h
          exact .of_mem_singleton (.notEnumValue found hget) h
      | _ => exact .of_mem_singleton (.notEnumValue found rfl) h
    | inputObject object =>
      simp only [ofNamed, found] at h
      cases value with
      | object raw =>
        exact origin_of_mem_ofObject hvalid (.inputObject found) (Coercion.carries_nil raw)
          (fun _ _ => rfl) (fun key hkey => ⟨hkey, List.not_mem_nil⟩) h
      | _ => exact .of_mem_singleton (.notObject found (by simp)) h
    | inputUnion type =>
      simp only [ofNamed, found] at h
      cases value with
      | object raw =>
        simp only [Json.entries] at h
        cases hnamed : namedMember? schema type raw with
        | none =>
          rw [hnamed] at h
          exact .of_mem_singleton (.unknownMember found hnamed) h
        | some object =>
          obtain ⟨member, hmem, hobject, hcarries⟩ := namedMember?_eq_some hnamed
          rw [hnamed] at h
          exact origin_of_mem_ofMember hvalid (.member found hmem hobject) hcarries h
      | _ => exact .of_mem_singleton (.notObject found (by simp)) h

/-- Every fault of a value is an own fault of one of its parts. Its path leads to the part, and from
there to what is at fault. -/
theorem exists_ownFault_of_mem_ofJson (hvalid : schema.IsValid) {type : InputType} {value : Json}
    (h : e ∈ ofJson schema span? value type path) :
    ∃ outer type' part inner problem, PartAt schema type value outer type' part ∧
      OwnFault schema type' part inner problem ∧
        e = ⟨problem, path ++ (outer ++ inner), span?⟩ := by
  induction type, value using Json.coercionInduction generalizing path with
  | null type =>
    rw [ofJson_null] at h
    split at h
    · rename_i hnonNull
      rw [List.mem_singleton.mp h]
      exact ⟨[], type, .null, [], _, .here, .null hnonNull, by simp⟩
    · cases h
  | named name nonNull value hnull ih =>
    rw [ofJson_named schema span? hnull] at h
    cases origin_of_mem_ofNamed hvalid h with
    | own hown => exact ⟨[], _, _, _, _, .here, hown, rfl⟩
    | field variant selected declared given inside =>
      have hmem := Entries.mem_of_get? given
      obtain ⟨outer, type', part, inner, problem, hpart, hown, rfl⟩ := ih _ hmem _ inside
      exact ⟨_, type', part, inner, problem, .field variant selected declared given hpart, hown,
        by simp⟩
  | list item nonNull items ih =>
    rw [ofJson_array_list, List.mem_flatten] at h
    obtain ⟨faults, hfaults, he⟩ := h
    obtain ⟨i, hi, rfl⟩ := List.mem_mapIdx.mp hfaults
    obtain ⟨outer, type', part, inner, problem, hpart, hown, rfl⟩ :=
      ih items[i] (List.getElem_mem hi) he
    exact ⟨_, type', part, inner, problem, .item (List.getElem?_eq_getElem hi) hpart, hown,
      by simp⟩
  | single item nonNull value hsingle ih =>
    rw [ofJson_single schema span? hsingle] at h
    obtain ⟨outer, type', part, inner, problem, hpart, hown, rfl⟩ := ih h
    exact ⟨outer, type', part, inner, problem, .single hsingle hpart, hown, rfl⟩

end Fault

end InputCoercion
