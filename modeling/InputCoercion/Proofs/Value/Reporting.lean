import InputCoercion.Proofs.Value.Faults

/-!
Coercion reports the faults of a value, all of them and in order. The main statement says so for
valid schemas: there is a failure exactly if there is a fault, and the failure is the list of the
faults.

On the way a result stands for a list of faults (`Coerced.Reports`), and several failures stand for
the lists that they hold (`Failure.AmountTo`). Both say that a failure holds at least one error,
which is what keeps the parts of an array and of an object from getting lost.
-/

namespace InputCoercion

/-! ### Failures and their errors -/

/-- Failures amount to errors if these are what they hold, in order, and each of them holds some.
None of them is about an undefined type. -/
def Failure.AmountTo (failures : List Failure) (errors : List CoercionError) : Prop :=
  ∃ parts : List (List CoercionError),
    [] ∉ parts ∧ failures = parts.map .invalid ∧ errors = parts.flatten

/-- A result reports errors if it is a failure by these, or a value where there are none. -/
def Coerced.Reports (result : Coerced) (errors : List CoercionError) : Prop :=
  match result with
  | .ok _ => errors = []
  | .error failure => errors ≠ [] ∧ failure = .invalid errors

namespace Failure

variable {failures others : List Failure} {errors rest : List CoercionError}

theorem AmountTo.nil : AmountTo [] [] :=
  ⟨[], by simp⟩

theorem AmountTo.singleton (h : errors ≠ []) : AmountTo [.invalid errors] errors :=
  ⟨[errors], by simpa using Ne.symm h, by simp⟩

theorem AmountTo.append (h : AmountTo failures errors) (h' : AmountTo others rest) :
    AmountTo (failures ++ others) (errors ++ rest) := by
  obtain ⟨parts, hparts, rfl, rfl⟩ := h
  obtain ⟨parts', hparts', rfl, rfl⟩ := h'
  exact ⟨parts ++ parts', by simp [hparts, hparts'], by simp⟩

theorem AmountTo.eq_nil_iff (h : AmountTo failures errors) : failures = [] ↔ errors = [] := by
  obtain ⟨parts, hparts, rfl, rfl⟩ := h
  cases parts with
  | nil => simp
  | cons part parts =>
    have hne : part ≠ [] := fun heq => hparts (heq ▸ List.mem_cons_self)
    simp [hne]

theorem AmountTo.join_eq (h : AmountTo failures errors) : join failures = .invalid errors := by
  obtain ⟨parts, -, rfl, rfl⟩ := h
  have hnone : (parts.map invalid).findSome? undefinedType? = none := by
    rw [List.findSome?_eq_none_iff]
    intro failure hmem
    obtain ⟨part, -, rfl⟩ := List.mem_map.mp hmem
    rfl
  have herrors : (parts.map invalid).flatMap Failure.errors = parts.flatten := by
    rw [List.flatMap_map]
    exact List.flatMap_id
  rw [join, hnone, herrors]

theorem AmountTo.filterMap {α : Type} {f : α → Option Failure} {g : α → List CoercionError}
    {l : List α} (h : ∀ a ∈ l, AmountTo (f a).toList (g a)) :
    AmountTo (l.filterMap f) (l.flatMap g) := by
  induction l with
  | nil => exact .nil
  | cons a l ih =>
    have hrest := ih fun b hb => h b (List.mem_cons_of_mem a hb)
    have happend := (h a List.mem_cons_self).append hrest
    cases hfa : f a <;> simpa [hfa] using happend

theorem AmountTo.singles (errors : List CoercionError) :
    AmountTo (errors.map fun error => .invalid [error]) errors :=
  ⟨errors.map fun error => [error], by simp, by simp, by simp [← List.flatMap_def]⟩

end Failure

/-! ### Arrays -/

namespace Coerced

def failure? : Coerced → Option Failure
  | .ok _ => none
  | .error failure => some failure

@[simp] theorem failure?_ok (value : Json) : failure? (.ok value) = none := rfl

@[simp] theorem failure?_error (failure : Failure) : failure? (.error failure) = some failure := rfl

variable {result : Coerced} {errors : List CoercionError}

theorem Reports.amountTo (h : result.Reports errors) :
    Failure.AmountTo result.failure?.toList errors := by
  cases result with
  | ok w =>
    rw [show errors = [] from h]
    exact .nil
  | error failure =>
    obtain ⟨hne, rfl⟩ := h
    exact .singleton hne

theorem Reports.map {f : Json → Json} (h : result.Reports errors) :
    Reports (f <$> result) errors := by
  cases result <;> exact h

/-- The items are collected, or the failures among them are, if there are any. -/
theorem collect_eq (items : List Coerced) :
    (∃ values, collect items = .ok values ∧ items.filterMap failure? = []) ∨
      collect items = .error (items.filterMap failure?) ∧ items.filterMap failure? ≠ [] := by
  induction items with
  | nil => exact .inl ⟨[], rfl, rfl⟩
  | cons item items ih =>
    cases item with
    | ok value =>
      rcases ih with ⟨values, hcollect, hnil⟩ | ⟨hcollect, hne⟩
      · exact .inl ⟨value :: values, by simp [collect, hcollect], by simpa using hnil⟩
      · exact .inr ⟨by simp [collect, hcollect, List.filterMap_cons], by simpa using hne⟩
    | error failure =>
      rcases ih with ⟨values, hcollect, hnil⟩ | ⟨hcollect, hne⟩
      · exact .inr ⟨by simp [collect, hcollect, hnil], by simp⟩
      · exact .inr ⟨by simp [collect, hcollect], by simp⟩

theorem Reports.array {items : List Coerced}
    (h : Failure.AmountTo (items.filterMap failure?) errors) : (array items).Reports errors := by
  rw [Coerced.array]
  rcases collect_eq items with ⟨values, hcollect, hnil⟩ | ⟨hcollect, hne⟩
  · rw [hcollect]
    exact h.eq_nil_iff.mp hnil
  · rw [hcollect]
    exact ⟨fun hnil => hne (h.eq_nil_iff.mpr hnil), h.join_eq⟩

end Coerced

/-! ### Objects -/

namespace Coercion

open Failure Fault

variable {schema : Schema} {span? : Option Span}

theorem reports_coerceObject {object : InputObjectType} {entries : List (String × Coercer)}
    {given : List (String × FaultFinder)} {discriminated : Bool} {tag : Entries} {path : Path}
    (hfields : ∀ field ∈ object.fields.entries,
      AmountTo ((valueFields span? entries discriminated).resolve path field).failure?.toList
        (ofField span? given path field))
    (hkeys : (valueFields span? entries discriminated).undefinedFields object path =
      (ofKeys span? object (given.map Prod.fst) path).map fun error => .invalid [error]) :
    (coerceObject span? object entries discriminated tag path).Reports
      (ofObject span? object given path) := by
  have hamount : AmountTo
      ((valueFields span? entries discriminated).failures path object.fields.entries ++
        (valueFields span? entries discriminated).undefinedFields object path)
      (ofObject span? object given path) :=
    (AmountTo.filterMap hfields).append (hkeys ▸ AmountTo.singles _)
  by_cases hnil : (valueFields span? entries discriminated).failures path
      object.fields.entries ++
        (valueFields span? entries discriminated).undefinedFields object path = []
  · obtain ⟨hfailures, hundefined⟩ := List.append_eq_nil_iff.mp hnil
    rw [coerceObject_eq_ok_iff.mpr ⟨hfailures, hundefined, rfl⟩]
    exact hamount.eq_nil_iff.mp hnil
  · rw [coerceObject_eq_error hnil, hamount.join_eq]
    exact ⟨fun h => hnil (hamount.eq_nil_iff.mpr h), rfl⟩

/-- A field fails with its faults, if both look up the same value and it reports its faults. -/
theorem amountTo_resolve {raw rest : Entries} {discriminated : Bool} {path : Path}
    {field : InputField}
    (hrest : Entries.get? (Named.text field) rest = Entries.get? (Named.text field) raw)
    (hvalue : ∀ value, Entries.get? (Named.text field) raw = some value →
      (coerceJson schema span? value field.type (path ++ [.field field.name])).Reports
        (ofJson schema span? value field.type (path ++ [.field field.name]))) :
    AmountTo ((valueFields span? (coerceEntries schema span? raw) discriminated).resolve path
      field).failure?.toList (ofField span? (ofEntries schema span? rest) path field) := by
  rw [FieldSource.resolve, coerceField_valueFields]
  cases hget : Entries.get? (Named.text field) raw with
  | none =>
    rw [ofField_of_get?_eq_none schema span? (hrest.trans hget), Option.map_none]
    cases hdefault : field.default? with
    | some value => simpa using AmountTo.nil
    | none =>
      cases hnonNull : field.type.isNonNull with
      | false => simpa using AmountTo.nil
      | true => exact AmountTo.singleton (List.cons_ne_nil _ _)
  | some value =>
    have hamount := (hvalue value hget).amountTo
    rw [ofField_of_get?_eq_some schema span? (hrest.trans hget), Option.map_some]
    cases hcoerce : coerceJson schema span? value field.type (path ++ [.field field.name]) with
    | ok w => simpa [hcoerce] using hamount
    | error failure => simpa [hcoerce] using hamount

/-- The keys that are reported as undefined are those that are no fields. A union reads only what
is left beside its tag. -/
theorem undefinedFields_eq (object : InputObjectType) (raw : Entries) (path : Path) :
    (valueFields span? (coerceEntries schema span? raw) false).undefinedFields object path =
      (ofKeys span? object ((ofEntries schema span? raw).map Prod.fst) path).map
        fun error => .invalid [error] := by
  simp [valueFields, ofKeys, keys_coerceEntries, keys_ofEntries, Failure.single]

theorem undefinedFields_discriminated_eq (object : InputObjectType) (raw : Entries)
    (path : Path) :
    (valueFields span? (coerceEntries schema span? raw) true).undefinedFields object path =
      (ofKeys span? object
        ((ofEntries schema span? (Entries.erase inputNameKey raw)).map Prod.fst) path).map
        fun error => .invalid [error] := by
  rw [undefinedFields_erase, undefinedFields_eq]

/-- The member that coercion selects is the one that is named. Without a text nothing is named, and
no name is empty. -/
theorem selectedMember?_selection (type : InputUnionType) (raw : Entries) :
    selectedMember? schema type (selection raw) = namedMember? schema type raw := by
  have hselection : selection raw = (discriminator? raw).getD "" := rfl
  rw [hselection, namedMember?]
  cases discriminator? raw with
  | none =>
    have hempty : type.members.get? "" = none := by
      cases hget : type.members.get? "" with
      | none => rfl
      | some member => exact absurd (Catalog.name_of_get? hget) member.text_ne_empty
    simp [selectedMember?, hempty]
  | some text =>
    have hcontains : type.members.contains text = (type.members.get? text).isSome := rfl
    cases hget : type.members.get? text with
    | none => simp [selectedMember?, Option.filter, hcontains, hget]
    | some member =>
      have htext : member.text = text := Catalog.name_of_get? hget
      simp [selectedMember?, Option.filter, hcontains, hget, htext]

/-- The step at a named type: a value reports its faults if the values inside do. -/
theorem reports_coerceNamed (hvalid : schema.IsValid) {name : Name} {value : Json} {path : Path}
    (hdefined : (schema.get? name.text).isSome = true)
    (hvalues : ∀ entry ∈ value.entries, ∀ type : InputType,
      (schema.get? type.innerName.text).isSome = true → ∀ path,
        (coerceJson schema span? entry.2 type path).Reports
          (ofJson schema span? entry.2 type path)) :
    (coerceNamed schema span? value (coerceEntries schema span? value.entries) name path).Reports
      (ofNamed schema span? value (ofEntries schema span? value.entries) name path) := by
  obtain ⟨definition, found⟩ := Option.isSome_iff_exists.mp hdefined
  cases definition with
  | scalar type =>
    simp only [coerceNamed, ofNamed, found]
    cases type.parser.parseValue value with
    | ok w => rfl
    | error error => exact ⟨List.cons_ne_nil _ _, rfl⟩
  | enum type =>
    simp only [coerceNamed, ofNamed, found]
    cases value with
    | string text =>
      have hcontains : type.values.contains text = (type.values.get? text).isSome := rfl
      simp only [Json.string?, Option.bind_eq_bind, Option.bind_some, hcontains]
      cases type.values.get? text with
      | none => exact ⟨List.cons_ne_nil _ _, rfl⟩
      | some enumValue => rfl
    | _ => exact ⟨List.cons_ne_nil _ _, rfl⟩
  | inputObject object =>
    simp only [coerceNamed, ofNamed, found]
    cases value with
    | object raw =>
      refine reports_coerceObject (fun field hfield => amountTo_resolve rfl ?_)
        (undefinedFields_eq object raw path)
      intro value hget
      exact hvalues _ (Entries.mem_of_get? hget) _ (hvalid.fieldType_defined found hfield) _
    | _ => exact ⟨List.cons_ne_nil _ _, rfl⟩
  | inputUnion type =>
    simp only [coerceNamed, ofNamed, found]
    cases value with
    | object raw =>
      simp only [selectedMember?_selection]
      cases hnamed : namedMember? schema type raw with
      | none => exact ⟨List.cons_ne_nil _ _, rfl⟩
      | some object =>
        obtain ⟨text, -, hobject⟩ := Option.bind_eq_some_iff.mp hnamed
        have hobject' := Schema.inputObject?_eq_some_iff.mp hobject
        rw [erase_ofEntries]
        refine reports_coerceObject (fun field hfield => ?_)
          (undefinedFields_discriminated_eq object raw path)
        -- The fields are looked up beside the tag, and none of them has its key.
        have hne : Named.text field ≠ inputNameKey := hvalid.fieldName_ne hobject' hfield
        refine amountTo_resolve (Entries.get?_erase_of_ne hne raw) ?_
        intro value hget
        exact hvalues _ (Entries.mem_of_get? hget) _ (hvalid.fieldType_defined hobject' hfield) _
    | _ => exact ⟨List.cons_ne_nil _ _, rfl⟩

/-- Coercion reports the faults of a value, at every path. -/
theorem reports_coerceJson (hvalid : schema.IsValid) (type : InputType) (value : Json)
    (hdefined : (schema.get? type.innerName.text).isSome = true) (path : Path) :
    (coerceJson schema span? value type path).Reports (ofJson schema span? value type path) := by
  induction type, value using Json.coercionInduction generalizing path with
  | null type =>
    rw [coerceJson_null, ofJson_null]
    split
    · exact ⟨List.cons_ne_nil _ _, rfl⟩
    · rfl
  | named name nonNull value hnull ih =>
    rw [coerceJson_named schema span? hnull, ofJson_named schema span? hnull]
    exact reports_coerceNamed hvalid hdefined fun entry hentry type htype path =>
      ih entry hentry type htype path
  | list item nonNull items ih =>
    rw [coerceJson_array_list, ofJson_array_list]
    apply Coerced.Reports.array
    rw [List.mapIdx_eq_zipIdx_map, List.mapIdx_eq_zipIdx_map, List.filterMap_map,
      ← List.flatMap_def]
    apply Failure.AmountTo.filterMap
    intro entry hentry
    exact (ih entry.1 (List.fst_mem_of_mem_zipIdx hentry) hdefined _).amountTo
  | single item nonNull value hsingle ih =>
    rw [coerceJson_single schema span? hsingle, ofJson_single schema span? hsingle]
    exact (ih hdefined path).map

end Coercion

/-- A valid schema fails to coerce a value exactly if the value has a fault, and then with the
faults of the value and nothing else. -/
theorem Schema.coerce_eq_error_iff {schema : Schema} (hvalid : schema.IsValid) {type : InputType}
    (hdefined : (schema.get? type.innerName.text).isSome = true) {value? : Option Json}
    {span? : Option Span} {failure : Failure} :
    schema.coerce type value? span? = .error failure ↔
      schema.faults span? type value? ≠ [] ∧
        failure = .invalid (schema.faults span? type value?) := by
  have hreports : (Coercion.coerceJson schema span? (value?.getD .null) type []).Reports
      (Fault.ofJson schema span? (value?.getD .null) type []) :=
    Coercion.reports_coerceJson hvalid type (value?.getD .null) hdefined []
  rw [coerce, faults]
  cases hcoerce : Coercion.coerceJson schema span? (value?.getD .null) type [] with
  | ok w =>
    rw [hcoerce] at hreports
    have hnil : Fault.ofJson schema span? (value?.getD .null) type [] = [] := hreports
    simp [hnil]
  | error other =>
    rw [hcoerce] at hreports
    obtain ⟨hne, rfl⟩ := hreports
    simp [hne, eq_comm]

/-- Four faults of a value, with the paths that lead to them. -/
theorem Schema.coerce_strayDog_eq_error :
    pets.IsValid ∧ (pets.get? petType.innerName.text).isSome = true ∧
      pets.coerce petType (some strayDog) none =
        .error (.invalid (pets.faults none petType (some strayDog))) ∧
      (pets.faults none petType (some strayDog)).map CoercionError.path =
        [[.field ⟨"color", rfl⟩],
          [.field ⟨"friends", rfl⟩, .index 0, .field ⟨"name", rfl⟩],
          [.field ⟨"friends", rfl⟩, .index 1], []] := by
  have hpaths : (pets.faults none petType (some strayDog)).map CoercionError.path =
      [[.field ⟨"color", rfl⟩],
        [.field ⟨"friends", rfl⟩, .index 0, .field ⟨"name", rfl⟩],
        [.field ⟨"friends", rfl⟩, .index 1], []] := rfl
  have hne : pets.faults none petType (some strayDog) ≠ [] := fun h => by
    rw [h] at hpaths
    exact absurd hpaths (List.cons_ne_nil _ _).symm
  exact ⟨pets_isValid, rfl, (coerce_eq_error_iff pets_isValid rfl).mpr ⟨hne, rfl⟩, hpaths⟩

end InputCoercion
