import InputCoercion.Proofs.Literal.Variables
import InputCoercion.Scalar.Custom

/-!
Coerced values stay as they are when they are coerced again. The first pass may put a value into a
list, insert defaults, leave out fields, move a tag to the front and change how a scalar is written,
and the second pass finds nothing left to do.

A schema has to be stable for this. What its scalars make they have to leave as it is, its enum
values stand for themselves, and its defaults are already coerced. The proof does not follow the
first pass. All that it needs of a value is that it conforms to its type, so it holds for the values
of literals as well.
-/

namespace InputCoercion

/-! ### Scalars that leave as it is what they make -/

/-- Whether a parser leaves a value as it is, and the value is not null. -/
def ScalarParser.Fixes (parser : ScalarParser) (w : Json) : Prop :=
  w ≠ .null ∧ parser.parseValue w = .ok w

/-- Whether a parser leaves as it is whatever it makes of values and literals. Null and variables
are never given to it. -/
structure ScalarParser.IsStable (parser : ScalarParser) : Prop where
  value : ∀ value w, value ≠ .null → parser.parseValue value = .ok w → parser.Fixes w
  literal : ∀ literal vars w, literal.isChecked = true →
    parser.parseLiteral literal vars = .ok w → parser.Fixes w

namespace ScalarParser

/-- A parser that accepts values only as they are need not be looked at for them. -/
theorem isStable_of_keeps {parser : ScalarParser}
    (keeps : ∀ value w, parser.parseValue value = .ok w → w = value)
    (literal : ∀ literal vars w, literal.isChecked = true →
      parser.parseLiteral literal vars = .ok w → parser.Fixes w) : parser.IsStable where
  value value w hnull h := by
    obtain rfl := keeps value w h
    exact ⟨hnull, h⟩
  literal := literal

theorem ofLiteral?_eq_ok_iff {f : Literal → Option Json} {literal : Literal} {vars : Entries}
    {w : Json} : ofLiteral? f literal vars = .ok w ↔ f literal = some w := by
  rw [ofLiteral?]
  cases f literal <;> simp

theorem int_fixes_ofInt {n : Int} (hlow : -(Nat.pow 2 31 : Int) ≤ n) (hhigh : n < Nat.pow 2 31) :
    int.Fixes (.ofInt n) := by
  refine ⟨by simp [Json.ofInt], ?_⟩
  simp only [int, Json.ofInt, Number.toInt?]
  rw [if_pos ⟨hlow, hhigh⟩]

/-- What is accepted is in the range of 32 bits, whether it is given as a value or as a literal. -/
theorem int_isStable : int.IsStable where
  value value w _ h := by
    cases value with
    | number number =>
      simp only [int] at h
      cases hint : number.toInt? with
      | none => simp [hint] at h
      | some n =>
        simp only [hint] at h
        split at h
        · rename_i hrange
          cases h
          exact int_fixes_ofInt hrange.1 hrange.2
        · cases h
    | _ => cases h
  literal literal vars w _ h := by
    simp only [int, ofLiteral?_eq_ok_iff, Option.map_eq_map, Option.map_eq_some_iff] at h
    obtain ⟨n, hn, rfl⟩ := h
    cases literal with
    | int numeral =>
      simp only [Literal.toInt32?, IntNumeral.toSigned] at hn
      split at hn
      · cases hn
      · split at hn
        · cases hn
        · rename_i hhigh hlow
          cases hn
          exact int_fixes_ofInt (Int.not_lt.mp hlow) (Int.not_le.mp hhigh)
    | _ => cases hn

theorem float_isStable : float.IsStable := by
  refine isStable_of_keeps (fun value w h => ?_) fun literal vars w _ h => ?_
  · cases value <;> cases h
    rfl
  · simp only [float, ofLiteral?_eq_ok_iff, Option.map_eq_map, Option.map_eq_some_iff] at h
    obtain ⟨x, -, rfl⟩ := h
    exact ⟨by simp, rfl⟩

theorem string_isStable : string.IsStable := by
  refine isStable_of_keeps (fun value w h => ?_) fun literal vars w _ h => ?_
  · cases value <;> cases h
    rfl
  · simp only [string, ofLiteral?_eq_ok_iff, Option.map_eq_map, Option.map_eq_some_iff] at h
    obtain ⟨text, -, rfl⟩ := h
    exact ⟨by simp, rfl⟩

theorem boolean_isStable : boolean.IsStable := by
  refine isStable_of_keeps (fun value w h => ?_) fun literal vars w _ h => ?_
  · cases value <;> cases h
    rfl
  · simp only [boolean, ofLiteral?_eq_ok_iff, Option.map_eq_map, Option.map_eq_some_iff] at h
    obtain ⟨b, -, rfl⟩ := h
    exact ⟨by simp, rfl⟩

/-- What was an integer is a string afterwards. -/
theorem id_isStable : id.IsStable where
  value value w _ h := by
    cases value with
    | string text =>
      cases h
      exact ⟨by simp, rfl⟩
    | number number =>
      cases number with
      | int n =>
        cases h
        exact ⟨by simp, rfl⟩
      | float x => cases h
    | _ => cases h
  literal literal vars w _ h := by
    simp only [id, ofLiteral?_eq_ok_iff] at h
    cases literal with
    | string text =>
      cases h
      exact ⟨by simp, rfl⟩
    | int numeral =>
      cases h
      exact ⟨by simp, rfl⟩
    | _ => cases h

theorem isStable_of_mem_builtIn {entry : Name × ScalarParser} (h : entry ∈ builtIn) :
    entry.2.IsStable := by
  simp only [builtIn, List.mem_cons, List.not_mem_nil, or_false] at h
  rcases h with rfl | rfl | rfl | rfl | rfl
  · exact int_isStable
  · exact float_isStable
  · exact string_isStable
  · exact boolean_isStable
  · exact id_isStable

/-- Only null and a variable that is bound to it have null for their value. -/
theorem any_isStable : any.IsStable := by
  refine isStable_of_keeps (fun value w h => ?_) fun literal vars w hchecked h => ?_
  · cases h
    rfl
  · refine ⟨?_, rfl⟩
    rintro rfl
    simp only [any, untypedLiteral] at h
    split at h
    · rename_i hvalue
      cases h
      cases literal with
      | null | var name => cases hchecked
      | _ => simp [Literal.toJson?] at hvalue
    · cases h

end ScalarParser

/-! ### Schemas that coerce twice as once -/

/-- Whether nothing that a schema declares gives a value that it would change. -/
structure Schema.IsStable (schema : Schema) : Prop where
  scalars : ∀ name scalar, schema.get? name = some (.scalar scalar) → scalar.parser.IsStable
  /-- Enum values stand for themselves. -/
  enums : ∀ name type, schema.get? name = some (.enum type) →
    ∀ enumValue ∈ type.values.entries, enumValue.value = .string enumValue.name.text
  /-- Defaults are coerced already. -/
  defaults : ∀ name object, schema.inputObject? name = some object →
    ∀ field ∈ object.fields.entries, ∀ value, field.default? = some value →
      schema.coerce field.type (some value) none = .ok value

def ScalarType.Fixes (scalar : ScalarType) (w : Json) : Prop :=
  scalar.parser.Fixes w

section FixedPoints

variable {schema : Schema} {span? : Option Span}

open Coercion

theorem Schema.IsStable.admitsParsed (hstable : schema.IsStable) :
    AdmitsParsed schema ScalarType.Fixes := by
  rintro name scalar w found ⟨value, hnull, hparse⟩
  exact (hstable.scalars name scalar found).value value w hnull hparse

theorem Schema.IsStable.admitsParsedLiterals (hstable : schema.IsStable) (vars : Entries) :
    AdmitsParsedLiterals schema vars ScalarType.Fixes := by
  rintro name scalar w found ⟨literal, hchecked, hparse⟩
  exact (hstable.scalars name scalar found).literal literal vars w hchecked hparse

theorem Schema.IsStable.conforms_default (hvalid : schema.IsValid) (hstable : schema.IsStable)
    {name : Name} {tag : Entries} {object : InputObjectType}
    (variant : schema.HasVariant name tag object) {field : InputField}
    (hfield : field ∈ object.fields.entries) {value : Json} (h : field.default? = some value) :
    Conforms schema ScalarType.Fixes field.type value := by
  obtain ⟨text, found⟩ := variant.exists_get?
  have hobject := Schema.inputObject?_eq_some_iff.mpr found
  exact conforms_of_coerceJson_eq_ok hvalid hstable.admitsParsed field.type value [] value
    (hstable.defaults text object hobject field hfield value h)

/-- Null conforms only where a type admits it, if neither a scalar nor an enum makes it. -/
theorem Conforms.nullable_of_null (hstable : schema.IsStable) {type : InputType}
    (h : Conforms schema ScalarType.Fixes type .null) : type.isNonNull = false := by
  rcases Conforms.null_iff.mp h with nullable | ⟨-, admitted⟩ | ⟨found, declared, represented⟩
  · exact nullable
  · exact absurd rfl admitted.1
  · cases (hstable.enums _ _ found _ declared).symm.trans represented

section Objects

variable {name : Name} {nonNull : Bool} {tag : Entries} {object : InputObjectType}
  {entries : Entries}

/-- What the second pass does with a field of a conforming object: it takes the entry that there is
for the field, and leaves the field out again if there is none. -/
theorem resolve_of_fieldsConform (hvalid : schema.IsValid) (hstable : schema.IsStable)
    (variant : schema.HasVariant name tag object)
    (hfields : FieldsConform schema ScalarType.Fixes object entries)
    (hvalues : ∀ entry ∈ entries, ∀ type, Conforms schema ScalarType.Fixes type entry.2 →
      ∀ path, coerceJson schema span? entry.2 type path = .ok entry.2)
    {field : InputField} (hfield : field ∈ object.fields.entries) (path : Path) :
    (valueFields span? (coerceEntries schema span? (tag ++ entries)) (!tag.isEmpty)).resolve path
        field =
      match Entries.get? (Named.text field) entries with
      | some value => .present value
      | none => .omitted := by
  have hgiven := @coerceField_append schema span? hvalid name tag object variant entries
    (!tag.isEmpty) field hfield (FieldSource.fieldPath path field)
  cases hget : Entries.get? (Named.text field) entries with
  | some value =>
    have hmem := Entries.mem_of_get? hget
    have hconforms : Conforms schema ScalarType.Fixes field.type value := by
      by_cases hdefault : field.default? = some value
      · exact hstable.conforms_default hvalid variant hfield hdefault
      · exact hfields.each field hfield value hmem hdefault
    rw [hget, Option.map_some, hvalues _ hmem field.type hconforms] at hgiven
    exact FieldSource.resolve_eq_present_iff.mpr (.inl hgiven)
  | none =>
    rw [hget, Option.map_none] at hgiven
    have hneeded := mt (hfields.present field hfield) (Entries.get?_eq_none_iff.mp hget)
    rw [not_or, Option.not_isSome_iff_eq_none, Bool.not_eq_true] at hneeded
    exact FieldSource.resolve_eq_omitted_iff.mpr ⟨hgiven, hneeded⟩

theorem coerceJson_of_fieldsConform (hvalid : schema.IsValid) (hstable : schema.IsStable)
    (variant : schema.HasVariant name tag object)
    (hfields : FieldsConform schema ScalarType.Fixes object entries)
    (hvalues : ∀ entry ∈ entries, ∀ type, Conforms schema ScalarType.Fixes type entry.2 →
      ∀ path, coerceJson schema span? entry.2 type path = .ok entry.2) (path : Path) :
    coerceJson schema span? (.object (tag ++ entries)) (.named name nonNull) path =
      .ok (.object (tag ++ entries)) := by
  have hresolve (field : InputField) (hfield : field ∈ object.fields.entries) :=
    resolve_of_fieldsConform hvalid hstable variant hfields hvalues hfield path
  have hkept : (valueFields span? (coerceEntries schema span? (tag ++ entries))
      (!tag.isEmpty)).values path object.fields.entries = entries := by
    apply FieldSource.values_eq_of_resolve object.fields.nodup_texts hfields.ordered
    intro field hfield
    rw [hresolve field hfield]
    cases Entries.get? (Named.text field) entries <;> rfl
  have hnone : (valueFields span? (coerceEntries schema span? (tag ++ entries))
      (!tag.isEmpty)).failures path object.fields.entries = [] := by
    rw [FieldSource.failures_eq_nil_iff]
    intro field hfield failure
    rw [hresolve field hfield]
    cases Entries.get? (Named.text field) entries <;> simp
  rw [coerceJson_named schema span? (by simp), coerceNamed_of_variant variant
    (carries_append variant entries), coerceObject_eq_ok_iff]
  refine ⟨hnone, undefinedFields_append_eq_nil variant hfields.ordered.subset, ?_⟩
  rw [Json.entries, FieldSource.insertAll_values object.fields.nodup_texts variant.nodup_tag
    (fun field hfield => hvalid.variant_text_not_mem_tag variant hfield), hkept]

end Objects

/-- Coercion leaves as it is what conforms to the type, at every path. The induction is on the
value, since a default inside it conforms because of the schema and not as a part of the whole. -/
theorem coerceJson_of_conforms (hvalid : schema.IsValid) (hstable : schema.IsStable)
    {type : InputType} {w : Json} (h : Conforms schema ScalarType.Fixes type w) (path : Path) :
    coerceJson schema span? w type path = .ok w := by
  induction type, w using Json.coercionInduction generalizing path with
  | null type => rw [coerceJson_null, h.nullable_of_null hstable, if_neg Bool.false_ne_true]
  | named name nonNull value hnull ih =>
    cases h with
    | null nullable => exact absurd rfl hnull
    | scalar found admitted =>
      rw [coerceJson_named schema span? hnull, coerceNamed, found]
      simp only [admitted.2]
    | @enum _ _ type enumValue found declared =>
      have hvalue := hstable.enums _ _ found _ declared
      have hget : type.values.get? enumValue.name.text = some enumValue :=
        Catalog.get?_text_of_mem declared
      rw [coerceJson_named schema span? hnull, coerceNamed, found, hvalue]
      simp only [Json.string?, Option.bind_eq_bind, Option.bind_some, hget, hvalue]
    | object found ordered present each =>
      exact coerceJson_of_fieldsConform hvalid hstable (.inputObject found)
        ⟨ordered, present, each⟩ ih path
    | member found listed rest =>
      obtain ⟨object, hobject⟩ := hvalid.member_resolved found listed
      have hfields := rest.fieldsConform_of_get? (Schema.inputObject?_eq_some_iff.mp hobject)
      exact coerceJson_of_fieldsConform hvalid hstable (.member found listed hobject) hfields
        (fun entry hentry => ih entry (List.mem_cons_of_mem _ hentry)) path
  | list item nonNull items ih =>
    cases h with
    | list each =>
      rw [coerceJson_array_list, Coerced.array_eq_ok_iff]
      refine ⟨items, ?_, rfl⟩
      apply List.ext_getElem (by simp)
      intro i _ hmapped
      have hi : i < items.length := by simpa using hmapped
      have hmem : items[i] ∈ items := List.getElem_mem hi
      rw [List.getElem_mapIdx, List.getElem_map]
      exact ih items[i] hmem (each items[i] hmem) _
  | single item nonNull value hsingle _ =>
    cases h with
    | null nullable | list each => cases hsingle

end FixedPoints

theorem Schema.isStable_ofDefinitions {definitions : List TypeDefinition}
    (hscalars : ∀ scalar, .scalar scalar ∉ definitions)
    (henums : ∀ type, .enum type ∈ definitions →
      ∀ enumValue ∈ type.values.entries, enumValue.value = .string enumValue.name.text)
    (hdefaults : ∀ object, .inputObject object ∈ definitions →
      ∀ field ∈ object.fields.entries, ∀ value, field.default? = some value →
        (ofDefinitions definitions).coerce field.type (some value) none = .ok value) :
    (ofDefinitions definitions).IsStable where
  scalars name scalar found := by
    rcases mem_of_get?_ofDefinitions found with ⟨entry, hentry, heq⟩ | hmem
    · cases heq
      exact ScalarParser.isStable_of_mem_builtIn hentry
    · exact absurd hmem (hscalars scalar)
  enums name type found := by
    rcases mem_of_get?_ofDefinitions found with ⟨entry, hentry, heq⟩ | hmem
    · cases heq
    · exact henums type hmem
  defaults name object hobject := by
    rcases mem_of_get?_ofDefinitions (inputObject?_eq_some_iff.mp hobject) with
      ⟨entry, hentry, heq⟩ | hmem
    · cases heq
    · exact hdefaults object hmem

theorem Schema.pets_isStable : pets.IsStable := by
  apply isStable_ofDefinitions
  · simp
  · intro type hmem
    simp only [List.mem_cons, List.not_mem_nil, reduceCtorEq, TypeDefinition.enum.injEq, false_or,
      or_false] at hmem
    rw [hmem]
    decide
  · intro object hmem field hfield value hdefault
    simp only [List.mem_cons, List.not_mem_nil, reduceCtorEq, TypeDefinition.inputObject.injEq,
      false_or, or_false] at hmem
    rcases hmem with rfl | rfl
    · rcases List.mem_cons.mp hfield with rfl | hfield
      · cases hdefault
        rfl
      · rw [List.mem_singleton.mp hfield] at hdefault
        cases hdefault
    · rcases List.mem_cons.mp hfield with rfl | hfield
      · cases hdefault
      · rw [List.mem_singleton.mp hfield] at hdefault
        cases hdefault

/-- With a valid and stable schema, whatever a value is coerced to is coerced to itself, and so is
whatever a literal without variables comes to. The five scalars that every schema has are stable,
and so is the one that accepts everything. -/
theorem Schema.coerce_eq_self_of_isStable {schema : Schema} (hvalid : schema.IsValid)
    (hstable : schema.IsStable) (type : InputType) (w : Json) :
    (∀ value? span?, schema.coerce type value? span? = .ok w →
        ∀ span?, schema.coerce type (some w) span? = .ok w) ∧
      (∀ literal vars, literal.variableNames = [] →
        schema.interpret type (some literal) vars = .ok w →
          ∀ span?, schema.coerce type (some w) span? = .ok w) ∧
      (∀ entry ∈ ScalarParser.builtIn, entry.2.IsStable) ∧ ScalarParser.any.IsStable := by
  refine ⟨?_, ?_, fun entry hentry => ScalarParser.isStable_of_mem_builtIn hentry,
    ScalarParser.any_isStable⟩
  · intro value? span? hcoerce span?'
    have hconforms : Conforms schema ScalarType.Fixes type w :=
      conforms_of_coerceJson_eq_ok hvalid hstable.admitsParsed type _ [] w hcoerce
    exact coerceJson_of_conforms hvalid hstable hconforms []
  · intro literal vars hclosed hinterpret span?
    have hconforms : Conforms schema ScalarType.Fixes type w :=
      conforms_of_interpret hvalid (hstable.admitsParsedLiterals vars)
        (.of_variableNames_eq_nil hclosed) hinterpret
    exact coerceJson_of_conforms hvalid hstable hconforms []

theorem Schema.coerce_coercedDog_eq_self :
    pets.IsValid ∧ pets.IsStable ∧ pets.coerce petType (some dog) none = .ok coercedDog ∧
      dogLiteral.variableNames = [] ∧ pets.interpret petType (some dogLiteral) [] = .ok coercedDog ∧
      pets.coerce petType (some coercedDog) none = .ok coercedDog := by
  have hdog : pets.coerce petType (some dog) none = .ok coercedDog := rfl
  have hself := (coerce_eq_self_of_isStable pets_isValid pets_isStable petType coercedDog).1
  exact ⟨pets_isValid, pets_isStable, hdog, rfl, rfl, hself (some dog) none hdog none⟩

/-- The parser that accepts everything would make null of null, if it were ever given null. -/
theorem ScalarParser.any_not_fixes_null :
    any.parseValue .null = .ok .null ∧
      ¬ ∀ value w, any.parseValue value = .ok w → any.Fixes w := by
  refine ⟨rfl, fun hstable => ?_⟩
  exact (hstable .null .null rfl).1 rfl

end InputCoercion
