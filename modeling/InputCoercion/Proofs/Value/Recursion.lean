import InputCoercion.Coercion.Value
import InputCoercion.Proofs.Fields
import InputCoercion.Proofs.Schema.Closure

/-!
The recursion of coercion, in the order in which its rules are stated: null first, then lists, with
a single value standing for a list of one, then the named types.

The definition recurses on the value alone and keeps the levels of a list type for the end. Here it
is brought into the form in which every rule takes one step, on the type or into the value. The
induction principle has a case for each of these rules, and later proofs about coercion use it in
place of the recursion.
-/

namespace InputCoercion

namespace Json

def items : Json → List Json
  | array items => items
  | _ => []

def entries : Json → Entries
  | object entries => entries
  | _ => []

/-- Whether a value stands for a list of one where a list is expected. -/
def isSingle : Json → Bool
  | null | array _ => false
  | _ => true

theorem sizeOf_lt_of_mem_items {value item : Json} (h : item ∈ value.items) :
    sizeOf item < sizeOf value := by
  cases value with
  | array items =>
    have hlt := List.sizeOf_lt_of_mem (show item ∈ items from h)
    simp only [array.sizeOf_spec]
    omega
  | _ => exact absurd h List.not_mem_nil

theorem sizeOf_lt_of_mem_entries {value : Json} {entry : String × Json}
    (h : entry ∈ value.entries) : sizeOf entry.2 < sizeOf value := by
  cases value with
  | object entries =>
    have hlt := List.sizeOf_lt_of_mem (show entry ∈ entries from h)
    cases entry
    simp only [object.sizeOf_spec, Prod.mk.sizeOf_spec] at hlt ⊢
    omega
  | _ => exact absurd h List.not_mem_nil

/-- What holds of a value as soon as it holds of the values right inside holds of all values. -/
theorem induction {motive : Json → Prop}
    (step : ∀ value, (∀ item ∈ value.items, motive item) →
      (∀ entry ∈ value.entries, motive entry.2) → motive value) (value : Json) : motive value :=
  step value (fun item _ => induction step item) fun entry _ => induction step entry.2
termination_by sizeOf value
decreasing_by
  · exact sizeOf_lt_of_mem_items ‹_›
  · exact sizeOf_lt_of_mem_entries ‹_›

/-- Induction along the rules of coercion, over a type and a value at once. -/
theorem coercionInduction {motive : InputType → Json → Prop}
    (null : ∀ type, motive type .null)
    (named : ∀ name nonNull value, value ≠ .null →
      (∀ entry ∈ value.entries, ∀ type, motive type entry.2) → motive (.named name nonNull) value)
    (list : ∀ item nonNull items, (∀ value ∈ items, motive item value) →
      motive (.list item nonNull) (.array items))
    (single : ∀ item nonNull value, value.isSingle = true → motive item value →
      motive (.list item nonNull) value)
    (type : InputType) (value : Json) : motive type value := by
  induction value using Json.induction generalizing type with
  | step value ihItems ihEntries =>
    by_cases hnull : value = .null
    · rw [hnull]
      exact null type
    · -- A single value goes down all levels of a list type before it is looked into.
      induction type with
      | named name nonNull => exact named name nonNull value hnull ihEntries
      | list item nonNull ih =>
        cases value with
        | null => exact absurd rfl hnull
        | array items => exact list item nonNull items fun value hmem => ihItems value hmem item
        | _ => exact single item nonNull _ rfl ih

end Json

namespace Coercion

variable (schema : Schema) (span? : Option Span)

/-! ### One step for each rule -/

@[simp] theorem coerceJson_null (type : InputType) (path : Path) :
    coerceJson schema span? .null type path =
      if type.isNonNull then .error (.single span? (.null type) path) else .ok .null := by
  rw [coerceJson]

theorem coerceItems_eq_mapIdx (items : List Json) (type : InputType) (path : Path)
    (position : Nat) :
    coerceItems schema span? items type path position =
      items.mapIdx fun i item =>
        coerceJson schema span? item type (path ++ [.index (position + i)]) := by
  induction items generalizing position with
  | nil => rfl
  | cons item items ih =>
    rw [coerceItems, ih, List.mapIdx_cons]
    simp only [Nat.add_zero, Nat.add_assoc, Nat.add_comm 1]

theorem coerceEntries_eq_map (entries : Entries) :
    coerceEntries schema span? entries =
      entries.map fun entry => (entry.1, coerceJson schema span? entry.2) := by
  induction entries with
  | nil => rfl
  | cons entry entries ih => rw [coerceEntries, ih, List.map_cons]

theorem keys_coerceEntries (entries : Entries) :
    (coerceEntries schema span? entries).map Prod.fst = Entries.keys entries := by
  simp [coerceEntries_eq_map, Entries.keys]

theorem coerceJson_named {value : Json} (h : value ≠ .null) (name : Name) (nonNull : Bool)
    (path : Path) :
    coerceJson schema span? value (.named name nonNull) path =
      coerceNamed schema span? value (coerceEntries schema span? value.entries) name path := by
  cases value with
  | null => exact absurd rfl h
  | object entries => simp only [coerceJson, InputType.promote_named, Json.entries]
  | _ => rw [coerceJson]; rfl

theorem coerceJson_array_list (items : List Json) (item : InputType) (nonNull : Bool)
    (path : Path) :
    coerceJson schema span? (.array items) (.list item nonNull) path =
      .array (items.mapIdx fun i value =>
        coerceJson schema span? value item (path ++ [.index i])) := by
  rw [coerceJson]
  simp only [coerceItems_eq_mapIdx, Nat.zero_add]

theorem coerceJson_single {value : Json} (h : value.isSingle = true) (item : InputType)
    (nonNull : Bool) (path : Path) :
    coerceJson schema span? value (.list item nonNull) path =
      (fun w => .array [w]) <$> coerceJson schema span? value item path := by
  cases value with
  | null | array items => simp [Json.isSingle] at h
  | _ => simp only [coerceJson, InputType.promote_list]

/-! ### Objects -/

variable {schema span?}

theorem coerceObject_eq_ok_iff {object : InputObjectType} {entries : List (String × Coercer)}
    {discriminated : Bool} {tag : Entries} {path : Path} {w : Json} :
    coerceObject span? object entries discriminated tag path = .ok w ↔
      (valueFields span? entries discriminated).failures path object.fields.entries = [] ∧
        (valueFields span? entries discriminated).undefinedFields object path = [] ∧
        w = .object (Keyed.insertAll Prod.fst tag
          ((valueFields span? entries discriminated).values path object.fields.entries)) := by
  rw [coerceObject, FieldSource.coerceFields]
  split
  · rename_i result h
    obtain ⟨hfailures, hundefined, rfl⟩ := FieldSource.coerceList_eq_ok_iff.mp h
    simp [hfailures, hundefined, eq_comm]
  · rename_i failures h
    simp only [reduceCtorEq, false_iff]
    rintro ⟨hfailures, hundefined, -⟩
    rw [FieldSource.coerceList_eq_ok_iff.mpr ⟨hfailures, hundefined, rfl⟩] at h
    cases h

theorem coerceObject_eq_error {object : InputObjectType} {entries : List (String × Coercer)}
    {discriminated : Bool} {tag : Entries} {path : Path}
    (h : (valueFields span? entries discriminated).failures path object.fields.entries ++
      (valueFields span? entries discriminated).undefinedFields object path ≠ []) :
    coerceObject span? object entries discriminated tag path =
      .error (.join ((valueFields span? entries discriminated).failures path
        object.fields.entries ++
          (valueFields span? entries discriminated).undefinedFields object path)) := by
  rw [coerceObject, FieldSource.coerceFields,
    FieldSource.coerceList_eq_error_of_accumulating rfl h]

theorem coerceField_valueFields (raw : Entries) (discriminated : Bool) (field : InputField)
    (path : Path) :
    (valueFields span? (coerceEntries schema span? raw) discriminated).coerceField field path =
      (Entries.get? (Named.text field) raw).map fun value =>
        coerceJson schema span? value field.type path := by
  simp only [valueFields, coerceEntries_eq_map, Keyed.find?_map_snd, Entries.get?,
    Option.map_map]
  rfl

/-- A tag ahead of the entries is not taken for a field. -/
theorem coerceField_append (hvalid : schema.IsValid) {name : Name} {tag : Entries}
    {object : InputObjectType} (variant : schema.HasVariant name tag object) (entries : Entries)
    (discriminated : Bool) {field : InputField} (hfield : field ∈ object.fields.entries)
    (path : Path) :
    (valueFields span? (coerceEntries schema span? (tag ++ entries)) discriminated).coerceField
        field path =
      (Entries.get? (Named.text field) entries).map fun value =>
        coerceJson schema span? value field.type path := by
  have hne : Named.text field ≠ inputNameKey := hvalid.variant_fieldName_ne variant hfield
  rw [coerceField_valueFields, variant.get?_append hne]

/-- The key that is let pass is no undefined field once it is taken off. -/
theorem undefinedFields_erase (object : InputObjectType) (raw : Entries) (path : Path) :
    (valueFields span? (coerceEntries schema span? raw) true).undefinedFields object path =
      (valueFields span? (coerceEntries schema span? (Entries.erase inputNameKey raw))
        false).undefinedFields object path := by
  have hbeq (key : String) : (key == inputNameKey) = decide (key = inputNameKey) := rfl
  simp [valueFields, keys_coerceEntries, Entries.keys_erase, List.filter_filter, hbeq,
    Bool.and_comm]

/-- No key is undefined if all that is not in the tag is declared. -/
theorem undefinedFields_eq_nil_iff {name : Name} {tag : Entries} {object : InputObjectType}
    (variant : schema.HasVariant name tag object) {raw : Entries} {path : Path} :
    (valueFields span? (coerceEntries schema span? raw) (!tag.isEmpty)).undefinedFields object
        path = [] ↔
      ∀ key ∈ Entries.keys raw, key ∈ Entries.keys tag ∨ object.fields.contains key = true := by
  simp only [valueFields, keys_coerceEntries, List.map_eq_nil_iff, List.filter_eq_nil_iff]
  refine forall₂_congr fun key _ => ?_
  cases variant with
  | inputObject found => simp [Entries.keys]
  | member found listed resolved =>
    by_cases htag : key = inputNameKey <;> simp [Entries.keys, htag]

/-- Behind a tag there may be whatever is declared. -/
theorem undefinedFields_append_eq_nil {name : Name} {tag : Entries} {object : InputObjectType}
    (variant : schema.HasVariant name tag object) {entries : Entries} {path : Path}
    (declared : Entries.keys entries ⊆ object.fields.entries.map Named.text) :
    (valueFields span? (coerceEntries schema span? (tag ++ entries))
      (!tag.isEmpty)).undefinedFields object path = [] := by
  rw [undefinedFields_eq_nil_iff variant]
  intro key hkey
  rw [Entries.keys, List.map_append, List.mem_append] at hkey
  refine hkey.imp_right fun hkey => ?_
  obtain ⟨field, hfield, rfl⟩ := List.mem_map.mp (declared hkey)
  rw [Catalog.contains, Catalog.get?_text_of_mem hfield]
  rfl

/-! ### Named types -/

/-- The text under the key that selects a member, if there is one that is not empty. -/
theorem get?_of_selection {raw : Entries} {text : String} (h : selection raw = text)
    (hne : text ≠ "") : Entries.get? inputNameKey raw = some (.string text) := by
  rw [selection] at h
  cases hget : Entries.get? inputNameKey raw with
  | none => exact absurd (by simpa [hget] using h.symm) hne
  | some value =>
    cases value with
    | string s => simpa [hget, Json.string?] using h
    | _ => exact absurd (by simpa [hget, Json.string?] using h.symm) hne

theorem selection_of_get? {raw : Entries} {text : String}
    (h : Entries.get? inputNameKey raw = some (.string text)) : selection raw = text := by
  simp [selection, h, Json.string?]

theorem selectedMember?_eq_some_iff {type : InputUnionType} {text : String}
    {object : InputObjectType} :
    selectedMember? schema type text = some object ↔
      ∃ member ∈ type.members.entries, member.text = text ∧
        schema.inputObject? text = some object := by
  simp only [selectedMember?, Option.bind_eq_bind, Option.bind_eq_some_iff]
  constructor
  · rintro ⟨member, hget, hobject⟩
    have htext : member.text = text := Catalog.name_of_get? hget
    exact ⟨member, Catalog.mem_of_get? hget, htext, htext ▸ hobject⟩
  · rintro ⟨member, hmem, rfl, hobject⟩
    exact ⟨member, Catalog.get?_text_of_mem hmem, hobject⟩

/-- Whether an object has the entries of a tag among its own. -/
def Carries (raw tag : Entries) : Prop :=
  ∀ entry ∈ tag, Entries.get? entry.1 raw = some entry.2

@[simp] theorem carries_nil (raw : Entries) : Carries raw [] := by
  intro entry hentry
  cases hentry

@[simp] theorem carries_singleton_iff {raw : Entries} {key : String} {value : Json} :
    Carries raw [(key, value)] ↔ Entries.get? key raw = some value := by
  simp [Carries]

theorem carries_append {name : Name} {tag : Entries} {object : InputObjectType}
    (variant : schema.HasVariant name tag object) (entries : Entries) :
    Carries (tag ++ entries) tag := by
  cases variant with
  | inputObject found => exact carries_nil entries
  | member found listed resolved =>
    rw [carries_singleton_iff, List.singleton_append, Entries.get?_cons, if_pos rfl]

/-- An object that carries the tag of a variant is coerced to this variant. -/
theorem coerceNamed_of_variant {name : Name} {tag : Entries} {object : InputObjectType}
    (variant : schema.HasVariant name tag object) {raw : Entries} (htag : Carries raw tag)
    (entries : List (String × Coercer)) (path : Path) :
    coerceNamed schema span? (.object raw) entries name path =
      coerceObject span? object entries (!tag.isEmpty) tag path := by
  cases variant with
  | inputObject found =>
    rw [coerceNamed, found]
    rfl
  | member found listed resolved =>
    have htext := selection_of_get? (carries_singleton_iff.mp htag)
    have hselected := selectedMember?_eq_some_iff.mpr ⟨_, listed, rfl, resolved⟩
    rw [coerceNamed, found]
    simp only [htext, hselected, Schema.name_of_inputObject? resolved]
    rfl

/-- Where a value at a named type gets its result from: a scalar parser, a value of an enum, or the
fields of a variant whose tag the value carries. -/
theorem coerceNamed_eq_ok {value : Json} {entries : List (String × Coercer)} {name : Name}
    {path : Path} {w : Json} (h : coerceNamed schema span? value entries name path = .ok w) :
    (∃ scalar, schema.get? name.text = some (.scalar scalar) ∧
        scalar.parser.parseValue value = .ok w) ∨
      (∃ type enumValue, schema.get? name.text = some (.enum type) ∧
        (value.string? >>= type.values.get?) = some enumValue ∧ w = enumValue.value) ∨
      ∃ tag object raw, schema.HasVariant name tag object ∧ value = .object raw ∧
        Carries raw tag ∧ coerceObject span? object entries (!tag.isEmpty) tag path = .ok w := by
  rw [coerceNamed] at h
  cases hfound : schema.get? name.text with
  | none => simp [hfound] at h
  | some definition =>
    cases definition with
    | scalar scalar =>
      simp only [hfound] at h
      split at h
      · rename_i v hparse
        cases h
        exact .inl ⟨scalar, rfl, hparse⟩
      · cases h
    | enum type =>
      simp only [hfound] at h
      split at h
      · rename_i enumValue hget
        cases h
        exact .inr (.inl ⟨type, enumValue, rfl, hget, rfl⟩)
      · cases h
    | inputObject object =>
      simp only [hfound] at h
      split at h
      · rename_i raw
        exact .inr (.inr ⟨[], object, raw, .inputObject hfound, rfl, carries_nil raw, h⟩)
      · cases h
    | inputUnion type =>
      simp only [hfound] at h
      split at h
      · rename_i raw
        split at h
        · -- The text that selects a member cannot be the one that stands for no text.
          rename_i object hselected
          obtain ⟨member, hmem, htext, hobject⟩ := selectedMember?_eq_some_iff.mp hselected
          rw [← htext] at hobject
          rw [Schema.name_of_inputObject? hobject] at h
          have hget := get?_of_selection htext.symm member.text_ne_empty
          exact .inr (.inr ⟨_, object, raw, .member hfound hmem hobject, rfl,
            carries_singleton_iff.mpr hget, h⟩)
        · cases h
      · cases h

end Coercion

end InputCoercion
