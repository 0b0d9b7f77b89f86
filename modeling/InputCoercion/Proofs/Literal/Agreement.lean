import InputCoercion.Proofs.Literal.Recursion
import Mathlib.Data.List.Basic

/-!
Coercion and interpretation agree. A value of a request and a literal of a document that represent
each other at a type get the same result, with the entries in the same order, or both get none.

What represents what depends on the type: an enum has its values as strings in a request and as
names in a document, and a scalar decides for itself by how its parsers treat the two. No literal
with a variable in a typed position represents a value.
-/

namespace InputCoercion

/-! ### Results that agree -/

/-- Two results agree if they are the same value or both failures. -/
inductive Agree {ε ε' : Type} : Except ε Json → Except ε' Json → Prop
  | ok (value : Json) : Agree (.ok value) (.ok value)
  | error (e : ε) (e' : ε') : Agree (.error e) (.error e')

namespace Agree

variable {ε ε' : Type} {a : Except ε Json} {b : Except ε' Json}

theorem of_ok_iff (h : ∀ w, a = .ok w ↔ b = .ok w) : Agree a b := by
  cases a with
  | ok w =>
    rw [(h w).mp rfl]
    exact .ok w
  | error e =>
    cases b with
    | ok w => cases (h w).mpr rfl
    | error e' => exact .error e e'

theorem ok_iff (h : Agree a b) {w : Json} : a = .ok w ↔ b = .ok w := by
  cases h <;> simp

theorem error_iff (h : Agree a b) : (∃ e, a = .error e) ↔ ∃ e, b = .error e := by
  cases h <;> simp

theorem map (h : Agree a b) (f : Json → Json) : Agree (f <$> a) (f <$> b) := by
  cases h with
  | ok value => exact .ok (f value)
  | error e e' => exact .error e e'

theorem map_ok_iff {as : List (Except ε Json)} {bs : List (Except ε' Json)}
    (hlength : as.length = bs.length)
    (h : ∀ (i : Nat) a b, as[i]? = some a → bs[i]? = some b → Agree a b) {values : List Json} :
    as = values.map .ok ↔ bs = values.map .ok := by
  induction as generalizing bs values with
  | nil =>
    rw [List.eq_nil_of_length_eq_zero hlength.symm]
    cases values <;> simp
  | cons a as ih =>
    cases bs with
    | nil => cases hlength
    | cons b bs =>
      cases values with
      | nil => simp
      | cons w values =>
        have hhead := h 0 a b rfl rfl
        have htail := @ih bs (Nat.succ.inj hlength) (fun i a b ha hb => h (i + 1) a b ha hb) values
        simp only [List.map_cons, List.cons.injEq, hhead.ok_iff, htail]

end Agree

/-! ### Sources of fields that agree -/

namespace FieldSource

variable {ε ε' : Type}

/-- Two sources agree on a field if neither gives it, or both do with results that agree. -/
def AgreeOn (source : FieldSource ε) (source' : FieldSource ε') (path path' : Path)
    (field : InputField) : Prop :=
  Option.Rel Agree (source.coerceField field (fieldPath path field))
    (source'.coerceField field (fieldPath path' field))

variable {source : FieldSource ε} {source' : FieldSource ε'} {path path' : Path}

/-- Defaults and omissions are the same for both, so the field contributes the same. -/
theorem AgreeOn.resolve {field : InputField} (h : source.AgreeOn source' path path' field) :
    (source.resolve path field).value? = (source'.resolve path' field).value? ∧
      ((source.resolve path field).failure? = none ↔
        (source'.resolve path' field).failure? = none) := by
  rw [FieldSource.resolve, FieldSource.resolve]
  unfold AgreeOn at h
  generalize source.coerceField field (fieldPath path field) = given at h ⊢
  generalize source'.coerceField field (fieldPath path' field) = given' at h ⊢
  cases h with
  | some h => cases h <;> simp
  | none =>
    -- What a field that is not given comes to is for neither source to say.
    cases field.default? with
    | some value => simp
    | none => cases field.type.isNonNull <;> simp

theorem values_congr {fields : List InputField}
    (h : ∀ field ∈ fields, source.AgreeOn source' path path' field) :
    source.values path fields = source'.values path' fields := by
  apply List.filterMap_congr
  intro field hfield
  rw [(h field hfield).resolve.1]

theorem failures_eq_nil_congr {fields : List InputField}
    (h : ∀ field ∈ fields, source.AgreeOn source' path path' field) :
    source.failures path fields = [] ↔ source'.failures path' fields = [] := by
  rw [failures, failures, List.filterMap_eq_nil_iff, List.filterMap_eq_nil_iff]
  constructor
  · intro hnone field hfield
    exact (h field hfield).resolve.2.mp (hnone field hfield)
  · intro hnone field hfield
    exact (h field hfield).resolve.2.mpr (hnone field hfield)

end FieldSource

/-! ### Values and the literals that represent them -/

/-- Whether a literal represents a value at a type. -/
inductive Represents (schema : Schema) (vars : Entries) : InputType → Json → Literal → Prop
  | null {type : InputType} : Represents schema vars type .null .null
  /-- Lists correspond item by item. -/
  | list {item : InputType} {nonNull : Bool} {values : List Json} {literals : List Literal}
      (length : values.length = literals.length)
      (each : ∀ (i : Nat) value literal, values[i]? = some value → literals[i]? = some literal →
        Represents schema vars item value literal) :
      Represents schema vars (.list item nonNull) (.array values) (.list literals)
  /-- Where a list is expected, single values correspond as items. -/
  | single {item : InputType} {nonNull : Bool} {value : Json} {literal : Literal}
      (singleValue : value.isSingle = true) (singleLiteral : literal.isSingle = true)
      (inner : Represents schema vars item value literal) :
      Represents schema vars (.list item nonNull) value literal
  /-- At a scalar those correspond that the parsers treat alike. -/
  | scalar {name : Name} {nonNull : Bool} {scalar : ScalarType} {value : Json} {literal : Literal}
      (found : schema.get? name.text = some (.scalar scalar))
      (given : value ≠ .null) (checked : literal.isChecked = true)
      (alike : ∀ w, scalar.parser.parseValue value = .ok w ↔
        scalar.parser.parseLiteral literal vars = .ok w) :
      Represents schema vars (.named name nonNull) value literal
  /-- At an enum a string corresponds to the name that it is the text of. -/
  | enum {name text : Name} {nonNull : Bool} {type : EnumType}
      (found : schema.get? name.text = some (.enum type)) :
      Represents schema vars (.named name nonNull) (.string text.text) (.enum text)
  /-- At an enum whatever is no string corresponds to whatever is no name. -/
  | notEnum {name : Name} {nonNull : Bool} {type : EnumType} {value : Json} {literal : Literal}
      (found : schema.get? name.text = some (.enum type))
      (given : value ≠ .null) (checked : literal.isChecked = true)
      (noString : ∀ text, value ≠ .string text) (noEnum : ∀ text, literal ≠ .enum text) :
      Represents schema vars (.named name nonNull) value literal
  /-- Objects correspond if they select the same variant, have the same keys, all of them declared,
  and correspond at the type of every field. Of a repeated field the last occurrence counts. -/
  | object {name : Name} {nonNull : Bool} {tag : Entries} {object : InputObjectType}
      {raw : Entries} {fields : List (Name × Literal)}
      (variant : schema.HasVariant name tag object)
      (valueTag : Coercion.Carries raw tag) (literalTag : Interpretation.Carries fields tag)
      (keys : ∀ key ∈ Entries.keys raw, key ∈ fields.map fun field => field.1.text)
      (names : ∀ field ∈ fields, field.1.text ∈ Entries.keys raw)
      (declared : ∀ key ∈ Entries.keys raw,
        key ∈ Entries.keys tag ∨ object.fields.contains key = true)
      (each : ∀ field ∈ object.fields.entries, ∀ value literal,
        Entries.get? (Named.text field) raw = some value →
          Literal.lastField? (Named.text field) fields = some literal →
            Represents schema vars field.type value literal) :
      Represents schema vars (.named name nonNull) (.object raw) (.object fields)
  /-- At an input object whatever is no object corresponds to whatever is no object. -/
  | notObject {name : Name} {nonNull : Bool} {object : InputObjectType} {value : Json}
      {literal : Literal} (found : schema.get? name.text = some (.inputObject object))
      (given : value ≠ .null) (checked : literal.isChecked = true)
      (noObject : ∀ raw, value ≠ .object raw) (noFields : ∀ fields, literal ≠ .object fields) :
      Represents schema vars (.named name nonNull) value literal
  /-- At an input union those correspond that do not name a member. -/
  | noMember {name : Name} {nonNull : Bool} {type : InputUnionType} {value : Json}
      {literal : Literal} (found : schema.get? name.text = some (.inputUnion type))
      (given : value ≠ .null) (checked : literal.isChecked = true)
      (noTag : ∀ member ∈ type.members.entries,
        Entries.get? inputNameKey value.entries ≠ some (.string member.text))
      (noField : ∀ member ∈ type.members.entries,
        Literal.lastField? inputNameKey literal.fields ≠ some (.string member.text)) :
      Represents schema vars (.named name nonNull) value literal

section Correspondence

variable {schema : Schema} {vars : Entries} {span? : Option Span}

open Coercion Interpretation

/-- No variable represents a value, so what represents one is given. -/
theorem Represents.not_missing {type : InputType} {value : Json} {literal : Literal}
    (h : Represents schema vars type value literal) : literal.isMissingVariable vars = false := by
  cases h with
  | null | list | enum | object => rfl
  | single _ hsingle => cases literal <;> first | rfl | cases hsingle
  | scalar _ _ checked | notEnum _ _ checked | notObject _ _ checked | noMember _ _ checked =>
    cases literal <;> first | rfl | cases checked

/-- The sources of an object and of the literal for it agree on a field if the two correspond at
its type. -/
theorem agreeOn_of_corresponds {raw : Entries} {fields : List (Name × Literal)}
    {discriminated : Bool} {path path' : Path} {field : InputField}
    (keys : ∀ key ∈ Entries.keys raw, key ∈ fields.map fun field => field.1.text)
    (names : ∀ field ∈ fields, field.1.text ∈ Entries.keys raw)
    (each : ∀ value literal, Entries.get? (Named.text field) raw = some value →
      Literal.lastField? (Named.text field) fields = some literal →
        literal.isMissingVariable vars = false ∧
          Agree (coerceJson schema span? value field.type (FieldSource.fieldPath path field))
            (interpret schema vars literal field.type)) :
    (valueFields span? (coerceEntries schema span? raw) discriminated).AgreeOn
      (literalFields (interpretFields schema vars fields)) path path' field := by
  rw [FieldSource.AgreeOn, coerceField_valueFields, coerceField_literalFields]
  -- Both have the same keys, so either both give the field or neither does.
  cases hget : Entries.get? (Named.text field) raw with
  | none =>
    have hlast : Literal.lastField? (Named.text field) fields = none := by
      rw [Literal.lastField?_eq_none_iff]
      intro hmem
      obtain ⟨given, hgiven, hname⟩ := List.mem_map.mp hmem
      exact Entries.get?_eq_none_iff.mp hget (hname ▸ names given hgiven)
    rw [hlast]
    exact .none
  | some value =>
    cases hlast : Literal.lastField? (Named.text field) fields with
    | none =>
      have hkey : Named.text field ∈ Entries.keys raw := by
        apply Classical.byContradiction
        intro hnot
        rw [Entries.get?_eq_none_iff.mpr hnot] at hget
        cases hget
      exact absurd (keys _ hkey) (Literal.lastField?_eq_none_iff.mp hlast)
    | some literal =>
      obtain ⟨hgiven, hagree⟩ := each value literal hget hlast
      rw [Option.bind_some, interpretField_of_not_missing hgiven]
      exact .some hagree

/-! ### One step for each rule -/

theorem agree_list {item : InputType} {values : List Json} {literals : List Literal} {path : Path}
    (length : values.length = literals.length)
    (each : ∀ (i : Nat) value literal, values[i]? = some value → literals[i]? = some literal →
      literal.isMissingVariable vars = false ∧
        Agree (coerceJson schema span? value item (path ++ [.index i]))
          (interpret schema vars literal item)) :
    Agree
      (Coerced.array (values.mapIdx fun i value =>
        coerceJson schema span? value item (path ++ [.index i])))
      (Json.array <$> interpretItems schema vars literals item) := by
  have hitems (results : List Json) :
      (values.mapIdx fun i value => coerceJson schema span? value item (path ++ [.index i])) =
          results.map .ok ↔
        interpretItems schema vars literals item = .ok results := by
    rw [interpretItems_eq_ok_iff]
    apply Agree.map_ok_iff
    · rw [List.length_mapIdx, List.length_map, length]
    · intro i a b ha hb
      rw [List.getElem?_mapIdx, Option.map_eq_some_iff] at ha
      rw [List.getElem?_map, Option.map_eq_some_iff] at hb
      obtain ⟨value, hvalue, rfl⟩ := ha
      obtain ⟨literal, hliteral, rfl⟩ := hb
      obtain ⟨hgiven, hagree⟩ := each i value literal hvalue hliteral
      rw [interpretItem_of_not_missing hgiven]
      exact hagree
  apply Agree.of_ok_iff
  intro w
  rw [Coerced.array_eq_ok_iff, map_eq_ok_iff]
  simp only [hitems, eq_comm]

variable {name : Name} {value : Json} {literal : Literal} {entries : List (String × Coercer)}
  {fields : List (Name × Option Interpreter)} {path : Path}

theorem agree_scalar {scalar : ScalarType} (found : schema.get? name.text = some (.scalar scalar))
    (alike : ∀ w, scalar.parser.parseValue value = .ok w ↔
      scalar.parser.parseLiteral literal vars = .ok w) :
    Agree (coerceNamed schema span? value entries name path)
      (interpretNamed schema vars literal fields name) := by
  rw [coerceNamed, interpretNamed, found]
  cases hvalue : scalar.parser.parseValue value with
  | ok w =>
    simp only [hvalue, (alike w).mp hvalue]
    exact .ok w
  | error e =>
    cases hliteral : scalar.parser.parseLiteral literal vars with
    | ok w =>
      rw [(alike w).mpr hliteral] at hvalue
      cases hvalue
    | error e' =>
      simp only [hvalue, hliteral]
      exact .error _ _

theorem agree_enum {type : EnumType} {text : Name}
    (found : schema.get? name.text = some (.enum type)) :
    Agree (coerceNamed schema span? (.string text.text) entries name path)
      (interpretNamed schema vars (.enum text) fields name) := by
  rw [coerceNamed, interpretNamed, found]
  simp only [Json.string?, Option.bind_eq_bind, Option.bind_some]
  cases type.values.get? text.text with
  | none => exact .error _ _
  | some enumValue => exact .ok _

theorem agree_notEnum {type : EnumType} (found : schema.get? name.text = some (.enum type))
    (noString : ∀ text, value ≠ .string text) (noEnum : ∀ text, literal ≠ .enum text) :
    Agree (coerceNamed schema span? value entries name path)
      (interpretNamed schema vars literal fields name) := by
  rw [coerceNamed, interpretNamed, found]
  have hvalue : (value.string? >>= type.values.get?) = none := by
    cases value with
    | string text => exact absurd rfl (noString text)
    | _ => rfl
  simp only [hvalue]
  cases literal with
  | enum text => exact absurd rfl (noEnum text)
  | _ => exact .error _ _

theorem agree_notObject {object : InputObjectType}
    (found : schema.get? name.text = some (.inputObject object))
    (noObject : ∀ raw, value ≠ .object raw) (noFields : ∀ fields, literal ≠ .object fields) :
    Agree (coerceNamed schema span? value entries name path)
      (interpretNamed schema vars literal fields name) := by
  rw [coerceNamed, interpretNamed, found]
  cases value with
  | object raw => exact absurd rfl (noObject raw)
  | _ =>
    cases literal with
    | object fields => exact absurd rfl (noFields fields)
    | _ => exact .error _ _

theorem agree_object {tag : Entries} {object : InputObjectType} {raw : Entries}
    {given : List (Name × Literal)} (variant : schema.HasVariant name tag object)
    (valueTag : Coercion.Carries raw tag) (literalTag : Interpretation.Carries given tag)
    (declared : ∀ key ∈ Entries.keys raw,
      key ∈ Entries.keys tag ∨ object.fields.contains key = true)
    (each : ∀ field ∈ object.fields.entries,
      (valueFields span? (coerceEntries schema span? raw) (!tag.isEmpty)).AgreeOn
        (literalFields (interpretFields schema vars given)) path [] field) :
    Agree (coerceNamed schema span? (.object raw) (coerceEntries schema span? raw) name path)
      (interpretNamed schema vars (.object given) (interpretFields schema vars given) name) := by
  rw [coerceNamed_of_variant variant valueTag, interpretNamed_of_variant variant literalTag]
  -- One goes on after a failure and the other stops, but both have a value if nothing fails.
  apply Agree.of_ok_iff
  intro w
  rw [coerceObject_eq_ok_iff, interpretObject_eq_ok_iff,
    (undefinedFields_eq_nil_iff variant).mpr declared,
    FieldSource.failures_eq_nil_congr each, FieldSource.values_congr each]
  simp only [true_and]

theorem agree_noMember {type : InputUnionType}
    (found : schema.get? name.text = some (.inputUnion type))
    (noTag : ∀ member ∈ type.members.entries,
      Entries.get? inputNameKey value.entries ≠ some (.string member.text))
    (noField : ∀ member ∈ type.members.entries,
      Literal.lastField? inputNameKey literal.fields ≠ some (.string member.text)) :
    Agree (coerceNamed schema span? value entries name path)
      (interpretNamed schema vars literal fields name) := by
  -- A value would come from a member that has its name in the value or in the literal.
  apply Agree.of_ok_iff
  intro w
  constructor
  · intro h
    rcases coerceNamed_eq_ok h with ⟨scalar, hscalar, -⟩ | ⟨enum, enumValue, henum, -, -⟩ |
      ⟨tag, object, raw, variant, rfl, htag, -⟩
    · simp [found] at hscalar
    · simp [found] at henum
    · obtain ⟨member, hmem, rfl⟩ := variant.of_inputUnion found
      exact absurd (Coercion.carries_singleton_iff.mp htag) (noTag member hmem)
  · intro h
    rcases interpretNamed_eq_ok h with ⟨scalar, hscalar, -⟩ | ⟨enum, enumValue, henum, -, -⟩ |
      ⟨tag, object, raw, variant, rfl, htag, -⟩
    · simp [found] at hscalar
    · simp [found] at henum
    · obtain ⟨member, hmem, rfl⟩ := variant.of_inputUnion found
      exact absurd (Interpretation.carries_singleton_iff.mp htag) (noField member hmem)

/-- What represents a value at a type comes to the same there, at every path. -/
theorem agree_of_represents {type : InputType} {value : Json} {literal : Literal}
    (h : Represents schema vars type value literal) (path : Path) :
    Agree (coerceJson schema span? value type path) (interpret schema vars literal type) := by
  induction h generalizing path with
  | @null type =>
    rw [coerceJson_null, interpret_null]
    split
    · exact .error _ _
    · exact .ok .null
  | list length each ih =>
    rw [coerceJson_array_list, interpret_list]
    refine agree_list length ?_
    intro i value literal hvalue hliteral
    exact ⟨(each i value literal hvalue hliteral).not_missing,
      ih i value literal hvalue hliteral _⟩
  | single hvalue hliteral _ ih =>
    rw [coerceJson_single schema span? hvalue, interpret_single schema vars hliteral]
    exact (ih path).map _
  | scalar found given checked alike =>
    rw [coerceJson_named schema span? given, interpret_named schema vars checked]
    exact agree_scalar found alike
  | enum found =>
    rw [coerceJson_named schema span? (by simp), interpret_named schema vars rfl]
    exact agree_enum found
  | notEnum found given checked noString noEnum =>
    rw [coerceJson_named schema span? given, interpret_named schema vars checked]
    exact agree_notEnum found noString noEnum
  | object variant valueTag literalTag keys names declared each ih =>
    rw [coerceJson_named schema span? (by simp), interpret_named schema vars rfl]
    refine agree_object variant valueTag literalTag declared ?_
    intro field hfield
    refine agreeOn_of_corresponds keys names ?_
    intro value literal hget hlast
    exact ⟨(each field hfield value literal hget hlast).not_missing,
      ih field hfield value literal hget hlast _⟩
  | notObject found given checked noObject noFields =>
    rw [coerceJson_named schema span? given, interpret_named schema vars checked]
    exact agree_notObject found noObject noFields
  | noMember found given checked noTag noField =>
    rw [coerceJson_named schema span? given, interpret_named schema vars checked]
    exact agree_noMember found noTag noField

end Correspondence

/-- With a valid schema a value and a literal that represents it at a defined type have the same
result, and if the value is rejected, the literal is absent. -/
theorem Schema.coerce_eq_ok_iff_interpret {schema : Schema} (hvalid : schema.IsValid)
    {type : InputType} (hdefined : (schema.get? type.innerName.text).isSome = true)
    {vars : Entries} {value : Json} {literal : Literal} {span? : Option Span}
    (h : Represents schema vars type value literal) :
    (∀ w, schema.coerce type (some value) span? = .ok w ↔
        schema.interpret type (some literal) vars = .ok w) ∧
      ((∃ failure, schema.coerce type (some value) span? = .error failure) ↔
        schema.interpret type (some literal) vars = .error .absent) := by
  have hagree : Agree (schema.coerce type (some value) span?)
      (schema.interpret type (some literal) vars) := agree_of_represents h []
  refine ⟨fun w => hagree.ok_iff, ?_⟩
  rw [hagree.error_iff]
  constructor
  · rintro ⟨e, herror⟩
    rw [Interpretation.eq_absent_of_interpret_eq_error hvalid hdefined herror] at herror
    exact herror
  · intro habsent
    exact ⟨.absent, habsent⟩

theorem Schema.represents_dogLiteral : Represents pets [] petType dog dogLiteral := by
  refine .object pets_hasVariant_dog (Coercion.carries_singleton_iff.mpr rfl)
    (Interpretation.carries_singleton_iff.mpr rfl) (by decide) (by decide) (by decide) ?_
  intro field hfield value literal hget hlast
  rcases List.mem_cons.mp hfield with rfl | hfield
  · cases hget
  obtain rfl := List.mem_singleton.mp hfield
  cases hget
  cases hlast
  -- The friend is no list, so it is a cat that stands for one.
  refine .single rfl rfl ?_
  refine .object pets_hasVariant_cat (Coercion.carries_singleton_iff.mpr rfl)
    (Interpretation.carries_singleton_iff.mpr rfl) (by decide) (by decide) (by decide) ?_
  intro field hfield value literal hget hlast
  rcases List.mem_cons.mp hfield with rfl | hfield
  · cases hget
  obtain rfl := List.mem_singleton.mp hfield
  cases hget
  cases hlast
  have found : pets.get? "String" = some (.scalar ⟨.string, .string⟩) := rfl
  refine .scalar found (by simp) rfl ?_
  intro w
  rfl

theorem Schema.coerce_dog_eq_ok_iff_interpret :
    pets.IsValid ∧ (pets.get? petType.innerName.text).isSome = true ∧
      Represents pets [] petType dog dogLiteral ∧
        pets.interpret petType (some dogLiteral) [] = .ok coercedDog := by
  have hdog : pets.coerce petType (some dog) none = .ok coercedDog := rfl
  have hrepresents := represents_dogLiteral
  exact ⟨pets_isValid, rfl, hrepresents,
    ((coerce_eq_ok_iff_interpret pets_isValid rfl hrepresents).1 coercedDog).mp hdog⟩

end InputCoercion
