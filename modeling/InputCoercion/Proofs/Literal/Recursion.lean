import InputCoercion.Coercion.Literal
import InputCoercion.Proofs.Value.Recursion

/-!
The recursion of interpretation, in the form in which every rule takes one step, on the type or into
the literal. There is one rule more than for values: a variable stands for what is bound to it. A
single literal stands for a list of one, where null and variables do not count as single.

Interpretation ends at the first failure and gives no reason. So what is stated here about objects
and lists is when they have a value, and that a failure of theirs comes from something inside.
-/

namespace InputCoercion

namespace Literal

def items : Literal → List Literal
  | list items => items
  | _ => []

def fields : Literal → List (Name × Literal)
  | object fields => fields
  | _ => []

/-- Whether a literal is checked against its type, as all are but null and variables. -/
def isChecked : Literal → Bool
  | null | var _ => false
  | _ => true

/-- Whether a literal stands for a list of one where a list is expected. -/
def isSingle : Literal → Bool
  | null | var _ | list _ => false
  | _ => true

theorem sizeOf_lt_of_mem_items {literal item : Literal} (h : item ∈ literal.items) :
    sizeOf item < sizeOf literal := by
  cases literal with
  | list items =>
    have hlt := List.sizeOf_lt_of_mem (show item ∈ items from h)
    simp only [list.sizeOf_spec]
    omega
  | _ => exact absurd h List.not_mem_nil

theorem sizeOf_lt_of_mem_fields {literal : Literal} {field : Name × Literal}
    (h : field ∈ literal.fields) : sizeOf field.2 < sizeOf literal := by
  cases literal with
  | object fields =>
    have hlt := List.sizeOf_lt_of_mem (show field ∈ fields from h)
    cases field
    simp only [object.sizeOf_spec, Prod.mk.sizeOf_spec] at hlt ⊢
    omega
  | _ => exact absurd h List.not_mem_nil

/-- What holds of a literal as soon as it holds of the literals right inside holds of all. -/
theorem induction {motive : Literal → Prop}
    (step : ∀ literal, (∀ item ∈ literal.items, motive item) →
      (∀ field ∈ literal.fields, motive field.2) → motive literal) (literal : Literal) :
    motive literal :=
  step literal (fun item _ => induction step item) fun field _ => induction step field.2
termination_by sizeOf literal
decreasing_by
  · exact sizeOf_lt_of_mem_items ‹_›
  · exact sizeOf_lt_of_mem_fields ‹_›

/-- Induction along the rules of interpretation, over a type and a literal at once. -/
theorem interpretationInduction {motive : InputType → Literal → Prop}
    (null : ∀ type, motive type .null)
    (var : ∀ type name, motive type (.var name))
    (named : ∀ name nonNull literal, literal.isChecked = true →
      (∀ field ∈ literal.fields, ∀ type, motive type field.2) →
        motive (.named name nonNull) literal)
    (list : ∀ item nonNull literals, (∀ literal ∈ literals, motive item literal) →
      motive (.list item nonNull) (.list literals))
    (single : ∀ item nonNull literal, literal.isSingle = true → motive item literal →
      motive (.list item nonNull) literal)
    (type : InputType) (literal : Literal) : motive type literal := by
  induction literal using Literal.induction generalizing type with
  | step literal ihItems ihFields =>
    by_cases hchecked : literal.isChecked = true
    · -- As for values, a single literal goes down all levels of a list type first.
      induction type with
      | named name nonNull => exact named name nonNull literal hchecked ihFields
      | list item nonNull ih =>
        cases literal with
        | list literals =>
          exact list item nonNull literals fun literal hmem => ihItems literal hmem item
        | null | var name => cases hchecked
        | _ => exact single item nonNull _ rfl ih
    · cases literal with
      | null => exact null type
      | var name => exact var type name
      | _ => exact absurd rfl hchecked

theorem mem_of_lastField?_eq_some {name : String} {fields : List (Name × Literal)}
    {literal : Literal} (h : lastField? name fields = some literal) :
    ∃ field ∈ fields, field.1.text = name ∧ field.2 = literal := by
  obtain ⟨field, hfind, rfl⟩ := Option.map_eq_some_iff.mp h
  have hmem := Keyed.mem_of_find?_eq_some hfind
  have hname : field.1.text = name := by
    simpa using List.find?_some hfind
  exact ⟨field, List.mem_reverse.mp hmem, hname, rfl⟩

theorem lastField?_eq_none_iff {name : String} {fields : List (Name × Literal)} :
    lastField? name fields = none ↔ name ∉ fields.map fun field => field.1.text := by
  rw [lastField?, Option.map_eq_none_iff, Keyed.find?_eq_none_iff, List.map_reverse,
    List.mem_reverse]

end Literal

namespace Interpretation

variable (schema : Schema) (vars : Entries)

/-! ### One step for each rule -/

@[simp] theorem interpret_null (type : InputType) :
    interpret schema vars .null type =
      if type.isNonNull then .error .absent else .ok .null := by
  rw [interpret]

theorem interpret_var_eq_ok_iff {name : Name} {type : InputType} {w : Json} :
    interpret schema vars (.var name) type = .ok w ↔ Entries.get? name.text vars = some w := by
  rw [interpret]
  cases Entries.get? name.text vars <;> simp

theorem interpret_named {literal : Literal} (h : literal.isChecked = true) (name : Name)
    (nonNull : Bool) :
    interpret schema vars literal (.named name nonNull) =
      interpretNamed schema vars literal (interpretFields schema vars literal.fields) name := by
  cases literal with
  | null | var _ => cases h
  | object fields => simp only [interpret, InputType.promote_named, Literal.fields]
  | _ => rw [interpret]; rfl

theorem interpret_list (literals : List Literal) (item : InputType) (nonNull : Bool) :
    interpret schema vars (.list literals) (.list item nonNull) =
      .array <$> interpretItems schema vars literals item := by
  rw [interpret]

theorem interpret_single {literal : Literal} (h : literal.isSingle = true) (item : InputType)
    (nonNull : Bool) :
    interpret schema vars literal (.list item nonNull) =
      (fun w => .array [w]) <$> interpret schema vars literal item := by
  cases literal with
  | null | var _ | list _ => cases h
  | _ => simp only [interpret, InputType.promote_list]

/-! ### Lists -/

/-- What an item of a list stands for. An item that is not given is null, if it may be. -/
def interpretItem (type : InputType) (item : Literal) : Interpreted :=
  if item.isMissingVariable vars then
    if type.isNonNull then .error .absent else .ok .null
  else
    interpret schema vars item type

theorem interpretItems_cons (item : Literal) (items : List Literal) (type : InputType) :
    interpretItems schema vars (item :: items) type =
      interpretItem schema vars type item >>= fun value =>
        (value :: ·) <$> interpretItems schema vars items type := by
  rw [interpretItems, interpretItem]
  cases interpretItems schema vars items type <;> split <;> first | rfl | (split <;> rfl)

variable {schema vars}

theorem interpretItem_of_not_missing {item : Literal} (h : item.isMissingVariable vars = false)
    (type : InputType) :
    interpretItem schema vars type item = interpret schema vars item type := by
  rw [interpretItem, h]
  rfl

theorem interpretItems_eq_ok_iff {items : List Literal} {type : InputType} {values : List Json} :
    interpretItems schema vars items type = .ok values ↔
      items.map (interpretItem schema vars type) = values.map .ok := by
  induction items generalizing values with
  | nil => cases values <;> simp [interpretItems]
  | cons item items ih =>
    rw [interpretItems_cons, List.map_cons]
    cases interpretItem schema vars type item with
    | error e => cases values <;> simp [bind, Except.bind]
    | ok value =>
      show (value :: ·) <$> interpretItems schema vars items type = .ok values ↔ _
      rw [map_eq_ok_iff]
      constructor
      · rintro ⟨rest, hrest, rfl⟩
        rw [List.map_cons, ih.mp hrest]
      · intro h
        cases values with
        | nil => cases h
        | cons v rest =>
          rw [List.map_cons, List.cons.injEq] at h
          obtain ⟨hv, hrest⟩ := h
          cases hv
          exact ⟨rest, ih.mpr hrest, rfl⟩

theorem exists_of_interpretItems_eq_error {items : List Literal} {type : InputType} {e : NoValue}
    (h : interpretItems schema vars items type = .error e) :
    ∃ item ∈ items, interpretItem schema vars type item = .error e := by
  induction items with
  | nil => cases h
  | cons item items ih =>
    rw [interpretItems_cons] at h
    -- The first item that fails ends the list, whatever follows it.
    cases hitem : interpretItem schema vars type item with
    | error e' =>
      rw [hitem] at h
      cases h
      exact ⟨item, List.mem_cons_self, hitem⟩
    | ok value =>
      rw [hitem] at h
      cases hrest : interpretItems schema vars items type with
      | ok values =>
        rw [hrest] at h
        cases h
      | error e' =>
        rw [hrest] at h
        cases h
        obtain ⟨other, hmem, hother⟩ := ih hrest
        exact ⟨other, List.mem_cons_of_mem item hmem, hother⟩

/-! ### Objects -/

variable (schema vars) in
/-- A field of an object literal that waits for its type, unless it is not given. -/
def interpretField (literal : Literal) : Option Interpreter :=
  if literal.isMissingVariable vars then none else some (interpret schema vars literal)

theorem interpretField_of_not_missing {literal : Literal}
    (h : literal.isMissingVariable vars = false) :
    interpretField schema vars literal = some (interpret schema vars literal) := by
  rw [interpretField, h]
  rfl

theorem interpretFields_eq_map (raw : List (Name × Literal)) :
    interpretFields schema vars raw =
      raw.map fun field => (field.1, interpretField schema vars field.2) := by
  induction raw with
  | nil => rfl
  | cons field raw ih => rw [interpretFields, ih, List.map_cons, interpretField]

/-- Fields are found by their names, which is to say by the texts of these. -/
theorem find?_name_eq (name : Name) (raw : List (Name × Literal)) :
    Keyed.find? Prod.fst name raw = Keyed.find? (fun field => field.1.text) name.text raw := by
  induction raw with
  | nil => rfl
  | cons field raw ih =>
    rw [Keyed.find?_cons, Keyed.find?_cons, ih]
    simp only [Name.text_inj]

/-- The value of a field is its last occurrence, interpreted at its type. If that is an unbound
variable, the field is not given. -/
theorem coerceField_literalFields (raw : List (Name × Literal)) (field : InputField)
    (path : Path) :
    (literalFields (interpretFields schema vars raw)).coerceField field path =
      (Literal.lastField? (Named.text field) raw).bind fun literal =>
        (interpretField schema vars literal).map fun interpret => interpret field.type := by
  have htext : Named.text field = field.name.text := rfl
  rw [Literal.lastField?, htext, ← find?_name_eq]
  simp only [literalFields, interpretFields_eq_map, ← List.map_reverse, Keyed.find?_map_snd]
  cases Keyed.find? Prod.fst field.name raw.reverse <;> rfl

theorem interpretObject_eq_ok_iff {object : InputObjectType}
    {fields : List (Name × Option Interpreter)} {tag : Entries} {w : Json} :
    interpretObject object fields tag = .ok w ↔
      (literalFields fields).failures [] object.fields.entries = [] ∧
        w = .object (Keyed.insertAll Prod.fst tag
          ((literalFields fields).values [] object.fields.entries)) := by
  rw [interpretObject, FieldSource.coerceFields]
  split
  · rename_i result h
    obtain ⟨hfailures, -, rfl⟩ := FieldSource.coerceList_eq_ok_iff.mp h
    simp [hfailures, eq_comm]
  · rename_i failures h
    simp only [reduceCtorEq, false_iff]
    rintro ⟨hfailures, -⟩
    -- What a literal has beside the declared fields is no failure.
    rw [FieldSource.coerceList_eq_ok_iff.mpr
      ⟨hfailures, show (literalFields fields).undefinedFields object [] = [] from rfl, rfl⟩] at h
    cases h

theorem exists_of_interpretObject_eq_error {object : InputObjectType}
    {fields : List (Name × Option Interpreter)} {tag : Entries} {e : NoValue}
    (h : interpretObject object fields tag = .error e) :
    ∃ field ∈ object.fields.entries, (literalFields fields).resolve [] field = .failed e := by
  cases hfailures : (literalFields fields).failures [] object.fields.entries with
  | nil =>
    rw [interpretObject_eq_ok_iff.mpr ⟨hfailures, rfl⟩] at h
    cases h
  | cons first rest =>
    rw [interpretObject, FieldSource.coerceFields,
      FieldSource.coerceList_eq_error_of_stopping rfl hfailures] at h
    cases h
    have hmem : first ∈ (literalFields fields).failures [] object.fields.entries :=
      hfailures ▸ List.mem_cons_self
    obtain ⟨field, hfield, hfailed⟩ := List.mem_filterMap.mp hmem
    exact ⟨field, hfield, Resolution.failure?_eq_some_iff.mp hfailed⟩

/-! ### Named types -/

/-- A literal selects the member whose name it has, as a string, under the key for it. -/
theorem selectedMember?_eq_some_iff {type : InputUnionType} {raw : List (Name × Literal)}
    {object : InputObjectType} :
    selectedMember? schema type raw = some object ↔
      ∃ member ∈ type.members.entries,
        Literal.lastField? inputNameKey raw = some (.string member.text) ∧
          schema.inputObject? member.text = some object := by
  simp only [selectedMember?, Option.bind_eq_bind, Option.bind_eq_some_iff]
  constructor
  · rintro ⟨literal, hlast, text, htext, hselected⟩
    obtain ⟨member, hmem, rfl, hobject⟩ := Coercion.selectedMember?_eq_some_iff.mp hselected
    cases literal with
    | string value =>
      cases htext
      exact ⟨member, hmem, hlast, hobject⟩
    | _ => cases htext
  · rintro ⟨member, hmem, hlast, hobject⟩
    exact ⟨.string member.text, hlast, member.text, rfl,
      Coercion.selectedMember?_eq_some_iff.mpr ⟨member, hmem, rfl, hobject⟩⟩

/-- Whether an object literal has the entries of a tag among its fields, as strings. -/
def Carries (raw : List (Name × Literal)) (tag : Entries) : Prop :=
  ∀ entry ∈ tag, ∃ text, entry.2 = .string text ∧
    Literal.lastField? entry.1 raw = some (.string text)

@[simp] theorem carries_nil (raw : List (Name × Literal)) : Carries raw [] := by
  intro entry hentry
  cases hentry

@[simp] theorem carries_singleton_iff {raw : List (Name × Literal)} {key text : String} :
    Carries raw [(key, .string text)] ↔ Literal.lastField? key raw = some (.string text) := by
  simp [Carries]

/-- An object literal that carries the tag of a variant is interpreted at this variant. -/
theorem interpretNamed_of_variant {name : Name} {tag : Entries} {object : InputObjectType}
    (variant : schema.HasVariant name tag object) {raw : List (Name × Literal)}
    (htag : Carries raw tag) (fields : List (Name × Option Interpreter)) :
    interpretNamed schema vars (.object raw) fields name = interpretObject object fields tag := by
  cases variant with
  | inputObject found =>
    rw [interpretNamed, found]
  | member found listed resolved =>
    have hlast := carries_singleton_iff.mp htag
    have hselected := selectedMember?_eq_some_iff.mpr ⟨_, listed, hlast, resolved⟩
    rw [interpretNamed, found]
    simp only [hselected, Schema.name_of_inputObject? resolved]
    rfl

/-- What a checked literal at a named type comes to: the name is not defined, the literal does not
fit, or it has the value that a scalar parser, an enum or a variant gives it. -/
theorem interpretNamed_cases (literal : Literal) (fields : List (Name × Option Interpreter))
    (name : Name) :
    (schema.get? name.text = none ∧
        interpretNamed schema vars literal fields name = .error (.undefinedType name)) ∨
      interpretNamed schema vars literal fields name = .error .absent ∨
      (∃ scalar w, schema.get? name.text = some (.scalar scalar) ∧
        scalar.parser.parseLiteral literal vars = .ok w ∧
          interpretNamed schema vars literal fields name = .ok w) ∨
      (∃ type enumValue, schema.get? name.text = some (.enum type) ∧
        enumValue ∈ type.values.entries ∧
          interpretNamed schema vars literal fields name = .ok enumValue.value) ∨
      ∃ tag object raw, schema.HasVariant name tag object ∧ literal = .object raw ∧
        Carries raw tag ∧
          interpretNamed schema vars literal fields name = interpretObject object fields tag := by
  rw [interpretNamed]
  cases hfound : schema.get? name.text with
  | none => exact .inl ⟨rfl, rfl⟩
  | some definition =>
    refine .inr ?_
    cases definition with
    | scalar scalar =>
      cases hparse : scalar.parser.parseLiteral literal vars with
      | error e => exact .inl (by simp only [hparse])
      | ok w => exact .inr (.inl ⟨scalar, w, rfl, hparse, by simp only [hparse]⟩)
    | enum type =>
      cases literal with
      | enum text =>
        cases hget : type.values.get? text.text with
        | none => exact .inl (by simp only [hget])
        | some enumValue =>
          have hmem := Catalog.mem_of_get? hget
          exact .inr (.inr (.inl ⟨type, enumValue, rfl, hmem, by simp only [hget]⟩))
      | _ => exact .inl rfl
    | inputObject object =>
      cases literal with
      | object raw =>
        have variant := Schema.HasVariant.inputObject hfound
        exact .inr (.inr (.inr ⟨[], object, raw, variant, rfl, carries_nil raw, rfl⟩))
      | _ => exact .inl rfl
    | inputUnion type =>
      cases literal with
      | object raw =>
        cases hselected : selectedMember? schema type raw with
        | none => exact .inl (by simp only [hselected])
        | some object =>
          obtain ⟨member, hmem, hlast, hobject⟩ := selectedMember?_eq_some_iff.mp hselected
          have variant := Schema.HasVariant.member hfound hmem hobject
          refine .inr (.inr (.inr ⟨_, object, raw, variant, rfl, ?_, ?_⟩))
          · exact carries_singleton_iff.mpr hlast
          · simp only [hselected, Schema.name_of_inputObject? hobject]
            rfl
      | _ => exact .inl rfl

theorem interpretNamed_eq_ok {literal : Literal} {fields : List (Name × Option Interpreter)}
    {name : Name} {w : Json} (h : interpretNamed schema vars literal fields name = .ok w) :
    (∃ scalar, schema.get? name.text = some (.scalar scalar) ∧
        scalar.parser.parseLiteral literal vars = .ok w) ∨
      (∃ type enumValue, schema.get? name.text = some (.enum type) ∧
        enumValue ∈ type.values.entries ∧ w = enumValue.value) ∨
      ∃ tag object raw, schema.HasVariant name tag object ∧ literal = .object raw ∧
        Carries raw tag ∧ interpretObject object fields tag = .ok w := by
  rcases interpretNamed_cases literal fields name with
    ⟨-, herror⟩ | herror | ⟨scalar, v, found, hparse, hok⟩ | ⟨type, enumValue, found, hmem, hok⟩ |
      ⟨tag, object, raw, variant, hraw, htag, hobject⟩
  · rw [herror] at h
    cases h
  · rw [herror] at h
    cases h
  · rw [hok] at h
    cases h
    exact .inl ⟨scalar, found, hparse⟩
  · rw [hok] at h
    cases h
    exact .inr (.inl ⟨type, enumValue, found, hmem, rfl⟩)
  · exact .inr (.inr ⟨tag, object, raw, variant, hraw, htag, hobject ▸ h⟩)

/-! ### The only failure -/

/-- A field fails because its literal does, or because it has to be given and is not. -/
theorem resolve_literalFields_eq_failed {raw : List (Name × Literal)} {field : InputField}
    {path : Path} {e : NoValue}
    (h : (literalFields (interpretFields schema vars raw)).resolve path field = .failed e) :
    (∃ given ∈ raw, interpret schema vars given.2 field.type = .error e) ∨ e = .absent := by
  rcases FieldSource.resolve_eq_failed_iff.mp h with hgiven | ⟨-, -, -, hmissing⟩
  · rw [coerceField_literalFields, Option.bind_eq_some_iff] at hgiven
    obtain ⟨literal, hlast, hmap⟩ := hgiven
    obtain ⟨given, hmem, -, rfl⟩ := Literal.mem_of_lastField?_eq_some hlast
    rw [interpretField] at hmap
    split at hmap
    · cases hmap
    · exact .inl ⟨given, hmem, Option.some.inj hmap⟩
  · exact .inr hmissing.symm

/-- With a valid schema no name is found undefined, so a literal without a value is absent. -/
theorem eq_absent_of_interpret_eq_error (hvalid : schema.IsValid) {type : InputType}
    {literal : Literal} (hdefined : (schema.get? type.innerName.text).isSome = true)
    {e : NoValue} (h : interpret schema vars literal type = .error e) : e = .absent := by
  induction type, literal using Literal.interpretationInduction with
  | null type =>
    rw [interpret_null] at h
    split at h <;> cases h
    rfl
  | var type name =>
    rw [interpret] at h
    split at h <;> cases h
    rfl
  | named name nonNull literal hchecked ih =>
    rw [interpret_named schema vars hchecked] at h
    rcases interpretNamed_cases literal (interpretFields schema vars literal.fields) name with
      ⟨hnone, -⟩ | habsent | ⟨scalar, w, -, -, hok⟩ | ⟨enum, enumValue, -, -, hok⟩ |
        ⟨tag, object, raw, variant, -, -, hobject⟩
    · rw [InputType.innerName, hnone] at hdefined
      cases hdefined
    · rw [habsent] at h
      cases h
      rfl
    · rw [hok] at h
      cases h
    · rw [hok] at h
      cases h
    · -- An object passes on what its first failing field fails with.
      rw [hobject] at h
      obtain ⟨field, hfield, hfailed⟩ := exists_of_interpretObject_eq_error h
      rcases resolve_literalFields_eq_failed hfailed with ⟨given, hmem, hgiven⟩ | habsent
      · exact ih given hmem _ (hvalid.variant_fieldType_defined variant hfield) hgiven
      · exact habsent
  | list item nonNull literals ih =>
    rw [interpret_list, map_eq_error_iff] at h
    obtain ⟨literal, hmem, hitem⟩ := exists_of_interpretItems_eq_error h
    rw [interpretItem] at hitem
    split at hitem
    · split at hitem <;> cases hitem
      rfl
    · exact ih literal hmem hdefined hitem
  | single item nonNull literal hsingle ih =>
    rw [interpret_single schema vars hsingle, map_eq_error_iff] at h
    exact ih hdefined h

end Interpretation

end InputCoercion
