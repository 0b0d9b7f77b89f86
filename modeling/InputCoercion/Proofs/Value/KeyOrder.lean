import InputCoercion.Proofs.Literal.Agreement
import InputCoercion.Proofs.Value.Conformance
import InputCoercion.Proofs.Value.Reporting

/-!
The order of keys in a value decides nothing. Coercion looks fields up, in the order in which they
are declared, and lists the keys of an object in their own order only to report those that are no
fields, all of them at the path of the object. So two values that differ in the order of their keys
come to the same value, or have errors at the same paths.

Scalars may look at a value as they like, and this is about those that look into no value. Such are
the ones that every schema has: they reject objects and lists alike.
-/

namespace InputCoercion

/-! ### Values with their keys in another order -/

/-- Whether two values differ in the order of keys at most, in objects at any depth. -/
inductive Json.SameUpToOrder : Json → Json → Prop
  | null : SameUpToOrder .null .null
  | bool (value : Bool) : SameUpToOrder (.bool value) (.bool value)
  | number (value : Number) : SameUpToOrder (.number value) (.number value)
  | string (value : String) : SameUpToOrder (.string value) (.string value)
  | array {items items' : List Json} (length : items.length = items'.length)
      (each : ∀ (i : Nat) item item', items[i]? = some item → items'[i]? = some item' →
        SameUpToOrder item item') :
      SameUpToOrder (.array items) (.array items')
  | object {raw raw' : Entries} (keys : (Entries.keys raw).Perm (Entries.keys raw'))
      (each : ∀ key value value', Entries.get? key raw = some value →
        Entries.get? key raw' = some value' → SameUpToOrder value value') :
      SameUpToOrder (.object raw) (.object raw')

/-- Where two objects have the same keys, a key is found in both or in neither. -/
theorem Entries.get?_of_sameKeys {raw raw' : Entries}
    (keys : (Entries.keys raw).Perm (Entries.keys raw')) (key : String) :
    get? key raw = none ∧ get? key raw' = none ∨
      ∃ value value', get? key raw = some value ∧ get? key raw' = some value' := by
  have hnone : get? key raw = none ↔ get? key raw' = none := by
    rw [get?_eq_none_iff, get?_eq_none_iff, keys.mem_iff]
  cases hget : get? key raw with
  | none => exact .inl ⟨rfl, hnone.mp hget⟩
  | some value =>
    cases hget' : get? key raw' with
    | none => simp [hnone.mpr hget'] at hget
    | some value' => exact .inr ⟨value, value', rfl, rfl⟩

namespace Json.SameUpToOrder

variable {value value' : Json}

theorem refl (value : Json) : SameUpToOrder value value := by
  induction value using Json.induction with
  | step value ihItems ihEntries =>
    cases value with
    | null => exact .null
    | bool b => exact .bool b
    | number n => exact .number n
    | string text => exact .string text
    | array items =>
      refine .array rfl fun i item item' hitem hitem' => ?_
      obtain rfl := Option.some.inj (hitem.symm.trans hitem')
      exact ihItems item (List.mem_of_getElem? hitem)
    | object raw =>
      refine .object (List.Perm.refl _) fun key value value' hget hget' => ?_
      obtain rfl := Option.some.inj (hget.symm.trans hget')
      exact ihEntries (key, value) (Entries.mem_of_get? hget)

/-- The entries of an object may come in any order, if they repeat no key. -/
theorem of_perm {raw raw' : Entries} (hnodup : (Entries.keys raw).Nodup) (h : raw.Perm raw') :
    SameUpToOrder (.object raw) (.object raw') := by
  refine .object (h.map Prod.fst) fun key value value' hget hget' => ?_
  have hmem : (key, value') ∈ raw := h.mem_iff.mpr (Entries.mem_of_get? hget')
  have hfind : Keyed.find? Prod.fst key raw = some (key, value') :=
    Keyed.find?_eq_some_of_mem hnodup hmem
  rw [Entries.get?, hfind] at hget
  obtain rfl := Option.some.inj hget
  exact refl _

theorem isSingle_eq (h : SameUpToOrder value value') : value.isSingle = value'.isSingle := by
  cases h <;> rfl

theorem string?_eq (h : SameUpToOrder value value') : value.string? = value'.string? := by
  cases h <;> rfl

/-- The order of keys does not decide which member of an input union is named. -/
theorem discriminator?_eq {raw raw' : Entries} (h : SameUpToOrder (.object raw) (.object raw')) :
    Fault.discriminator? raw = Fault.discriminator? raw' := by
  cases h with
  | object keys each =>
    rw [Fault.discriminator?, Fault.discriminator?]
    rcases Entries.get?_of_sameKeys keys inputNameKey with ⟨hget, hget'⟩ | ⟨w, w', hget, hget'⟩
    · rw [hget, hget']
    · rw [hget, hget']
      exact (each _ w w' hget hget').string?_eq

/-- Induction along the rules of coercion, for two values that differ in the order of keys. Both are
treated by the same rule, and what is right inside differs in no other way. -/
theorem coercionInduction {motive : InputType → Json → Json → Prop}
    (null : ∀ type, motive type .null .null)
    (named : ∀ name nonNull value value', value ≠ .null → value' ≠ .null →
      SameUpToOrder value value' →
        (∀ key w w', Entries.get? key value.entries = some w →
          Entries.get? key value'.entries = some w' → ∀ type, motive type w w') →
      motive (.named name nonNull) value value')
    (list : ∀ item nonNull items items', items.length = items'.length →
      (∀ (i : Nat) w w', items[i]? = some w → items'[i]? = some w' → motive item w w') →
        motive (.list item nonNull) (.array items) (.array items'))
    (single : ∀ item nonNull value value', value.isSingle = true → value'.isSingle = true →
      motive item value value' → motive (.list item nonNull) value value')
    (type : InputType) (h : SameUpToOrder value value') : motive type value value' := by
  induction type, value using Json.coercionInduction generalizing value' with
  | null type =>
    cases h
    exact null type
  | named name nonNull value hnull ih =>
    have hnull' : value' ≠ .null := by
      rintro rfl
      cases h
      exact hnull rfl
    refine named name nonNull value value' hnull hnull' h fun key w w' hget hget' type => ?_
    cases h with
    | object keys each =>
      exact ih (key, w) (Entries.mem_of_get? hget) type (each key w w' hget hget')
    | _ => cases hget
  | list item nonNull items ih =>
    cases h with
    | array length each =>
      exact list item nonNull items _ length fun i w w' hw hw' =>
        ih w (List.mem_of_getElem? hw) (each i w w' hw hw')
  | single item nonNull value hsingle ih =>
    exact single item nonNull value value' hsingle (h.isSingle_eq ▸ hsingle) (ih h)

end Json.SameUpToOrder

/-! ### Built-in parsers -/

/-- Whether all scalars of a schema treat values as one of the five scalars does that every schema
has. -/
def Schema.HasBuiltInParsers (schema : Schema) : Prop :=
  ∀ name scalar, schema.get? name = some (.scalar scalar) →
    ∃ entry ∈ ScalarParser.builtIn, scalar.parser = entry.2

theorem ScalarParser.agree_of_mem_builtIn {entry : Name × ScalarParser} (hentry : entry ∈ builtIn)
    {value value' : Json} (h : value.SameUpToOrder value') :
    Agree (entry.2.parseValue value) (entry.2.parseValue value') := by
  simp only [builtIn, List.mem_cons, List.not_mem_nil, or_false] at hentry
  cases h with
  | array | object => rcases hentry with rfl | rfl | rfl | rfl | rfl <;> exact .error _ _
  | _ => exact .of_ok_iff fun w => Iff.rfl

/-! ### The same values -/

namespace Coercion

variable {schema : Schema} {span? : Option Span}

section Objects

variable {raw raw' : Entries} {object : InputObjectType} {discriminated : Bool} {tag : Entries}
  {path : Path}

theorem undefinedFields_eq_nil_congr (keys : (Entries.keys raw).Perm (Entries.keys raw')) :
    (valueFields span? (coerceEntries schema span? raw) discriminated).undefinedFields object
        path = [] ↔
      (valueFields span? (coerceEntries schema span? raw') discriminated).undefinedFields object
        path = [] := by
  simp only [valueFields, keys_coerceEntries, List.map_eq_nil_iff, List.filter_eq_nil_iff,
    keys.mem_iff]

theorem agree_coerceObject (keys : (Entries.keys raw).Perm (Entries.keys raw'))
    (hvalues : ∀ key w w', Entries.get? key raw = some w → Entries.get? key raw' = some w' →
      ∀ type path, Agree (coerceJson schema span? w type path)
        (coerceJson schema span? w' type path)) :
    Agree (coerceObject span? object (coerceEntries schema span? raw) discriminated tag path)
      (coerceObject span? object (coerceEntries schema span? raw') discriminated tag path) := by
  have hfields (field : InputField) (_ : field ∈ object.fields.entries) :
      (valueFields span? (coerceEntries schema span? raw) discriminated).AgreeOn
        (valueFields span? (coerceEntries schema span? raw') discriminated) path path field := by
    rw [FieldSource.AgreeOn, coerceField_valueFields, coerceField_valueFields]
    rcases Entries.get?_of_sameKeys keys (Named.text field) with
      ⟨hget, hget'⟩ | ⟨w, w', hget, hget'⟩
    · rw [hget, hget']
      exact .none
    · rw [hget, hget']
      exact .some (hvalues _ w w' hget hget' _ _)
  apply Agree.of_ok_iff
  intro w
  rw [coerceObject_eq_ok_iff, coerceObject_eq_ok_iff, FieldSource.failures_eq_nil_congr hfields,
    undefinedFields_eq_nil_congr keys, FieldSource.values_congr hfields]

end Objects

theorem agree_coerceNamed (hparsers : schema.HasBuiltInParsers) {value value' : Json}
    (h : value.SameUpToOrder value') {name : Name} {path : Path}
    (hvalues : ∀ key w w', Entries.get? key value.entries = some w →
      Entries.get? key value'.entries = some w' →
        ∀ type path, Agree (coerceJson schema span? w type path)
          (coerceJson schema span? w' type path)) :
    Agree (coerceNamed schema span? value (coerceEntries schema span? value.entries) name path)
      (coerceNamed schema span? value' (coerceEntries schema span? value'.entries) name path) := by
  cases found : schema.get? name.text with
  | none =>
    simp only [coerceNamed, found]
    exact .error _ _
  | some definition =>
    cases definition with
    | scalar type =>
      obtain ⟨entry, hentry, hparser⟩ := hparsers _ _ found
      simp only [coerceNamed, found, hparser]
      have hagree := ScalarParser.agree_of_mem_builtIn hentry h
      generalize entry.2.parseValue value = result, entry.2.parseValue value' = result' at hagree
      cases hagree with
      | ok w => exact .ok w
      | error e e' => exact .error _ _
    | enum type =>
      simp only [coerceNamed, found, h.string?_eq]
      cases value'.string? >>= type.values.get? with
      | none => exact .error _ _
      | some enumValue => exact .ok _
    | inputObject object =>
      simp only [coerceNamed, found]
      cases h with
      | object keys each => exact agree_coerceObject keys hvalues
      | _ => exact .error _ _
    | inputUnion type =>
      simp only [coerceNamed, found]
      cases h with
      | @object raw raw' keys each =>
        have hselection : selection raw = selection raw' :=
          congrArg (Option.getD · "") (Json.SameUpToOrder.object keys each).discriminator?_eq
        simp only [hselection]
        cases selectedMember? schema type (selection raw') with
        | none => exact .error _ _
        | some member => exact agree_coerceObject keys hvalues
      | _ => exact .error _ _

theorem agree_array {items items' : List Coerced} (length : items.length = items'.length)
    (each : ∀ (i : Nat) a b, items[i]? = some a → items'[i]? = some b → Agree a b) :
    Agree (Coerced.array items) (Coerced.array items') := by
  have hitems (values : List Json) : items = values.map .ok ↔ items' = values.map .ok :=
    Agree.map_ok_iff length each
  apply Agree.of_ok_iff
  intro w
  simp only [Coerced.array_eq_ok_iff, hitems]

/-- Coercion does not look at the order of keys, at any path. -/
theorem agree_coerceJson (hparsers : schema.HasBuiltInParsers) {value value' : Json}
    (h : value.SameUpToOrder value') (type : InputType) (path : Path) :
    Agree (coerceJson schema span? value type path) (coerceJson schema span? value' type path) := by
  refine h.coercionInduction (motive := fun type value value' => ∀ path,
    Agree (coerceJson schema span? value type path) (coerceJson schema span? value' type path))
    ?null ?named ?list ?single type path
  case null =>
    intro type path
    exact .of_ok_iff fun w => Iff.rfl
  case named =>
    intro name nonNull value value' hnull hnull' hsame ih path
    rw [coerceJson_named schema span? hnull, coerceJson_named schema span? hnull']
    exact agree_coerceNamed hparsers hsame ih
  case list =>
    intro item nonNull items items' hlength ih path
    rw [coerceJson_array_list, coerceJson_array_list]
    refine agree_array (by simp [hlength]) fun i a b ha hb => ?_
    rw [List.getElem?_mapIdx, Option.map_eq_some_iff] at ha hb
    obtain ⟨w, hw, rfl⟩ := ha
    obtain ⟨w', hw', rfl⟩ := hb
    exact ih i w w' hw hw' _
  case single =>
    intro item nonNull value value' hsingle hsingle' ih path
    rw [coerceJson_single schema span? hsingle, coerceJson_single schema span? hsingle']
    exact (ih path).map _

end Coercion

/-! ### The same places -/

namespace Fault

variable {schema : Schema} {span? : Option Span} {path : Path}

theorem paths_ofKeys_congr {object : InputObjectType} {keys keys' : List String}
    (h : keys.Perm keys') :
    (ofKeys span? object keys path).map CoercionError.path =
      (ofKeys span? object keys' path).map CoercionError.path := by
  -- All of them have the path of the object, so there is only their number to compare.
  have hreplicate (keys : List String) : (ofKeys span? object keys path).map CoercionError.path =
      List.replicate (keys.filter fun key => !object.fields.contains key).length path := by
    rw [ofKeys, List.map_map]
    exact List.map_const
  rw [hreplicate, hreplicate, (h.filter _).length_eq]

theorem paths_ofObject_congr {object : InputObjectType} {raw raw' : Entries}
    (keys : (Entries.keys raw).Perm (Entries.keys raw'))
    (hvalues : ∀ key w w', Entries.get? key raw = some w → Entries.get? key raw' = some w' →
      ∀ type path, (ofJson schema span? w type path).map CoercionError.path =
        (ofJson schema span? w' type path).map CoercionError.path) :
    (ofObject span? object (ofEntries schema span? raw) path).map CoercionError.path =
      (ofObject span? object (ofEntries schema span? raw') path).map CoercionError.path := by
  have hfield (field : InputField) :
      (ofField span? (ofEntries schema span? raw) path field).map CoercionError.path =
        (ofField span? (ofEntries schema span? raw') path field).map CoercionError.path := by
    rcases Entries.get?_of_sameKeys keys (Named.text field) with
      ⟨hget, hget'⟩ | ⟨w, w', hget, hget'⟩
    · rw [ofField_of_get?_eq_none schema span? hget, ofField_of_get?_eq_none schema span? hget']
    · rw [ofField_of_get?_eq_some schema span? hget, ofField_of_get?_eq_some schema span? hget']
      exact hvalues _ w w' hget hget' _ _
  have hkeys : (ofKeys span? object (Entries.keys raw) path).map CoercionError.path =
      (ofKeys span? object (Entries.keys raw') path).map CoercionError.path :=
    paths_ofKeys_congr keys
  simp only [ofObject, List.map_append, List.map_flatMap, keys_ofEntries, hfield, hkeys]

theorem paths_ofNamed_congr (hparsers : schema.HasBuiltInParsers) {value value' : Json}
    (h : value.SameUpToOrder value') {name : Name}
    (hvalues : ∀ key w w', Entries.get? key value.entries = some w →
      Entries.get? key value'.entries = some w' →
        ∀ type path, (ofJson schema span? w type path).map CoercionError.path =
          (ofJson schema span? w' type path).map CoercionError.path) :
    (ofNamed schema span? value (ofEntries schema span? value.entries) name path).map
        CoercionError.path =
      (ofNamed schema span? value' (ofEntries schema span? value'.entries) name path).map
        CoercionError.path := by
  cases found : schema.get? name.text with
  | none => simp only [ofNamed, found]
  | some definition =>
    cases definition with
    | scalar type =>
      obtain ⟨entry, hentry, hparser⟩ := hparsers _ _ found
      simp only [ofNamed, found, hparser]
      have hagree := ScalarParser.agree_of_mem_builtIn hentry h
      generalize entry.2.parseValue value = result, entry.2.parseValue value' = result' at hagree
      cases hagree with
      | ok w => rfl
      | error e e' => rfl
    | enum type =>
      simp only [ofNamed, found]
      cases h <;> rfl
    | inputObject object =>
      simp only [ofNamed, found]
      cases h with
      | object keys each => exact paths_ofObject_congr keys hvalues
      | _ => rfl
    | inputUnion type =>
      simp only [ofNamed, found]
      cases h with
      | @object raw raw' keys each =>
        have hmember : namedMember? schema type raw = namedMember? schema type raw' := by
          rw [namedMember?, namedMember?,
            (Json.SameUpToOrder.object keys each).discriminator?_eq]
        simp only [Json.entries, hmember, erase_ofEntries]
        cases namedMember? schema type raw' with
        | none => rfl
        | some member =>
          -- What is found beside the tag was found before the tag was taken off.
          refine paths_ofObject_congr ?_ fun key w w' hget hget' => ?_
          · rw [Entries.keys_erase, Entries.keys_erase]
            exact keys.filter _
          · have hne : key ≠ inputNameKey := by
              rintro rfl
              rw [Entries.get?_erase_self] at hget
              cases hget
            rw [Entries.get?_erase_of_ne hne] at hget hget'
            exact hvalues key w w' hget hget'
      | _ => rfl

/-- The faults of two values that differ in the order of keys are at the same places, in the same
order. -/
theorem paths_ofJson_congr (hparsers : schema.HasBuiltInParsers) {value value' : Json}
    (h : value.SameUpToOrder value') (type : InputType) (path : Path) :
    (ofJson schema span? value type path).map CoercionError.path =
      (ofJson schema span? value' type path).map CoercionError.path := by
  refine h.coercionInduction (motive := fun type value value' => ∀ path,
    (ofJson schema span? value type path).map CoercionError.path =
      (ofJson schema span? value' type path).map CoercionError.path)
    ?null ?named ?list ?single type path
  case null =>
    intro type path
    rfl
  case named =>
    intro name nonNull value value' hnull hnull' hsame ih path
    rw [ofJson_named schema span? hnull, ofJson_named schema span? hnull']
    exact paths_ofNamed_congr hparsers hsame ih
  case list =>
    intro item nonNull items items' hlength ih path
    rw [ofJson_array_list, ofJson_array_list, List.map_flatten, List.map_flatten]
    apply congrArg List.flatten
    apply List.ext_getElem (by simp [hlength])
    intro i hi hi'
    simp only [List.getElem_map, List.getElem_mapIdx]
    exact ih i _ _ (List.getElem?_eq_getElem _) (List.getElem?_eq_getElem _) _
  case single =>
    intro item nonNull value value' hsingle hsingle' ih path
    rw [ofJson_single schema span? hsingle, ofJson_single schema span? hsingle']
    exact ih path

end Fault

/-- With a valid schema that has no parsers of its own, two values that differ in the order of keys
are coerced to the same value, which has its entries in the order of the declarations and the tag of
an input union first, or they fail with as many errors, at the same paths in the same order. -/
theorem Schema.coerce_eq_ok_iff_and_paths_eq {schema : Schema} (hvalid : schema.IsValid)
    (hparsers : schema.HasBuiltInParsers) {type : InputType}
    (hdefined : (schema.get? type.innerName.text).isSome = true) {value value' : Json}
    (h : value.SameUpToOrder value') (span? : Option Span) :
    (∀ w, schema.coerce type (some value) span? = .ok w ↔
        schema.coerce type (some value') span? = .ok w) ∧
      (∀ w, schema.coerce type (some value) span? = .ok w →
        Conforms schema ScalarType.ParsesTo type w) ∧
      ∀ failure, schema.coerce type (some value) span? = .error failure →
        ∃ errors errors', failure = .invalid errors ∧
          schema.coerce type (some value') span? = .error (.invalid errors') ∧
            errors.map CoercionError.path = errors'.map CoercionError.path := by
  have hagree : Agree (schema.coerce type (some value) span?)
      (schema.coerce type (some value') span?) := Coercion.agree_coerceJson hparsers h type []
  refine ⟨fun w => hagree.ok_iff, fun w hw => ?_, fun failure hfailure => ?_⟩
  · exact conforms_of_coerceJson_eq_ok hvalid (fun _ _ _ _ hparses => hparses) type value [] w hw
  · obtain ⟨failure', hfailure'⟩ := hagree.error_iff.mp ⟨failure, hfailure⟩
    have hreports : (schema.coerce type (some value) span?).Reports
        (Fault.ofJson schema span? value type []) :=
      Coercion.reports_coerceJson hvalid type value hdefined []
    have hreports' : (schema.coerce type (some value') span?).Reports
        (Fault.ofJson schema span? value' type []) :=
      Coercion.reports_coerceJson hvalid type value' hdefined []
    rw [hfailure] at hreports
    rw [hfailure'] at hreports'
    obtain ⟨-, rfl⟩ := hreports
    obtain ⟨-, rfl⟩ := hreports'
    exact ⟨_, _, rfl, hfailure', Fault.paths_ofJson_congr hparsers h type []⟩

theorem Schema.pets_hasBuiltInParsers : pets.HasBuiltInParsers := by
  intro name scalar found
  rcases mem_of_get?_ofDefinitions found with ⟨entry, hentry, heq⟩ | hmem
  · cases heq
    exact ⟨entry, hentry, rfl⟩
  · simp at hmem

/-- The dog and the stray dog told from the end. -/
theorem Schema.coerce_reversed_dogs :
    pets.IsValid ∧ pets.HasBuiltInParsers ∧ (pets.get? petType.innerName.text).isSome = true ∧
      dog.SameUpToOrder (.object dog.entries.reverse) ∧
      pets.coerce petType (some (.object dog.entries.reverse)) none = .ok coercedDog ∧
      strayDog.SameUpToOrder (.object strayDog.entries.reverse) ∧
      ∃ errors, pets.coerce petType (some (.object strayDog.entries.reverse)) none =
          .error (.invalid errors) ∧
        errors.map CoercionError.path =
          [[.field ⟨"color", rfl⟩],
            [.field ⟨"friends", rfl⟩, .index 0, .field ⟨"name", rfl⟩],
            [.field ⟨"friends", rfl⟩, .index 1], []] := by
  have hdefined : (pets.get? petType.innerName.text).isSome = true := rfl
  have hdog : dog.SameUpToOrder (.object dog.entries.reverse) :=
    .of_perm (by decide) (List.reverse_perm _).symm
  have hstray : strayDog.SameUpToOrder (.object strayDog.entries.reverse) :=
    .of_perm (by decide) (List.reverse_perm _).symm
  obtain ⟨hvalues, -, -⟩ :=
    coerce_eq_ok_iff_and_paths_eq pets_isValid pets_hasBuiltInParsers hdefined hdog none
  obtain ⟨-, -, hfailures⟩ :=
    coerce_eq_ok_iff_and_paths_eq pets_isValid pets_hasBuiltInParsers hdefined hstray none
  obtain ⟨failure, hfailure, hpaths⟩ :
      ∃ failure, pets.coerce petType (some strayDog) none = .error failure ∧
        failure.errors.map CoercionError.path =
          [[.field ⟨"color", rfl⟩],
            [.field ⟨"friends", rfl⟩, .index 0, .field ⟨"name", rfl⟩],
            [.field ⟨"friends", rfl⟩, .index 1], []] := ⟨_, rfl, rfl⟩
  obtain ⟨errors, errors', rfl, hreversed, hsame⟩ := hfailures failure hfailure
  exact ⟨pets_isValid, pets_hasBuiltInParsers, hdefined, hdog, (hvalues coercedDog).mp rfl,
    hstray, errors', hreversed, hsame ▸ hpaths⟩

end InputCoercion
