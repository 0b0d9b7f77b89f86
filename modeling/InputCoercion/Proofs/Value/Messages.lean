import InputCoercion.Proofs.Lines
import InputCoercion.Proofs.Value.Reporting

/-!
The text of the errors of a value has a line for each of them, as long as no message has a line end
inside. What a message says of a value can bring one in. Where a scalar of every schema rejects a
value, the message shows its JSON text, which is always one line. But a key that is no field, a text
that selects no member of a union, and the reason that another scalar parser gives are put into the
message as they are, and each line end in them begins a line that is no error.

No schema needs to be valid here: the names that messages take from a schema have no line ends.
-/

namespace InputCoercion

namespace Problem

/-- The text that a message takes over as it is, from a value or from a scalar parser. It is empty
where there is none. -/
def verbatim : Problem → String
  | rejected _ error => error.reason?.getD ""
  | unknownMember _ _ input => input
  | undefinedField key _ _ => key
  | _ => ""

/-- The problems of values with a schema. What is said of the schema are names of its definitions,
and a rejection comes from the parser of one of its scalars. -/
inductive ArisesWith (schema : Schema) : Problem → Prop
  | null (type : InputType) : ArisesWith schema (.null type)
  | rejected {name : String} {scalar : ScalarType} {value : Json} {error : ScalarError}
      (found : schema.get? name = some (.scalar scalar))
      (rejects : scalar.parser.parseValue value = .error error) :
      ArisesWith schema (.rejected scalar.name error)
  | notEnumValue (type : EnumType) (input : String) :
      ArisesWith schema (.notEnumValue type.name input type.values.texts)
  | notObject (type : Name) : ArisesWith schema (.notObject type)
  | unknownMember (type : InputUnionType) (input : String) :
      ArisesWith schema (.unknownMember type.name type.members.texts input)
  | missingField (type : InputType) : ArisesWith schema (.missingField type)
  | undefinedField (key : String) (object : InputObjectType) :
      ArisesWith schema (.undefinedField key object.name object.fields.texts)

/-- The problems whose messages may have line ends: a key that is no field, a text that selects no
member of a union, and a value that is rejected by another parser than those of the scalars of every
schema. -/
inductive MayBreakLines (schema : Schema) : Problem → Prop
  | rejected {name : String} {scalar : ScalarType} {value : Json} {error : ScalarError}
      (found : schema.get? name = some (.scalar scalar))
      (foreign : scalar.parser ∉ ScalarParser.builtIn.map Prod.snd)
      (rejects : scalar.parser.parseValue value = .error error) :
      MayBreakLines schema (.rejected scalar.name error)
  | unknownMember (type : Name) (members : List String) (input : String) :
      MayBreakLines schema (.unknownMember type members input)
  | undefinedField (key : String) (type : Name) (options : List String) :
      MayBreakLines schema (.undefinedField key type options)

end Problem

/-! ### Messages -/

/-- A text is taken over once, as an expectation or behind it. -/
theorem Problem.ArisesWith.lineEnds_expectation {schema : Schema} {problem : Problem}
    (h : problem.ArisesWith schema) :
    lineEnds problem.expectation + lineEnds (problem.detail?.getD "") =
      lineEnds problem.verbatim := by
  have hempty : lineEnds "" = 0 := rfl
  unfold expectation detail? verbatim
  cases h with
  | null type | missingField type =>
    simp only [lineEnds_append, lineEnds_inputType, Option.getD_none, hempty]
    rfl
  | notObject type =>
    simp only [lineEnds_append, lineEnds_name, Option.getD_none, hempty]
    rfl
  | rejected found rejects =>
    simp only [lineEnds_append, lineEnds_name]
    exact Nat.zero_add _
  | notEnumValue type input =>
    have hdetail := Suggestion.lineEnds_didYouMean? input (lineEnds_of_mem_texts type.values)
    simp only [lineEnds_append, lineEnds_name, hdetail, hempty]
    rfl
  | unknownMember type input =>
    have hmembers : lineEnds (", ".intercalate type.members.texts) = 0 := by
      rw [lineEnds_intercalate,
        sum_lineEnds_eq_zero_iff.mpr (lineEnds_of_mem_texts type.members)]
      rfl
    have hbefore : lineEnds ("Expected " ++ type.name.text ++ "." ++ inputNameKey ++
        " to be one of " ++ ", ".intercalate type.members.texts ++ ". Saw \"") = 0 := by
      simp only [lineEnds_append, lineEnds_name, hmembers]
      rfl
    have hquote : lineEnds "\"" = 0 := rfl
    simp only
    rw [lineEnds_append, lineEnds_append, hbefore, hquote, Option.getD_none, hempty]
    omega
  | undefinedField key object =>
    have hdetail := Suggestion.lineEnds_didYouMean? key (lineEnds_of_mem_texts object.fields)
    have hbefore : lineEnds "Field \"" = 0 := rfl
    have hbehind : lineEnds "\" is not defined by type " = 0 := rfl
    simp only [lineEnds_append, lineEnds_name, hdetail, hbefore, hbehind]
    omega

namespace CoercionError

theorem lineEnds_clause (path : Path) : lineEnds (clause path) = 0 := by
  rw [clause]
  split
  · rfl
  · rw [lineEnds_append, lineEnds_path]
    rfl

theorem lineEnds_detailClause (detail? : Option String) :
    lineEnds (detailClause detail?) = lineEnds (detail?.getD "") := by
  cases detail? with
  | none => rfl
  | some detail =>
    rw [detailClause, lineEnds_append]
    exact Nat.zero_add _

/-- The line ends of a message are those of the text that it takes over. -/
theorem lineEnds_message {schema : Schema} {e : CoercionError}
    (h : e.problem.ArisesWith schema) : lineEnds e.message = lineEnds e.problem.verbatim := by
  obtain ⟨problem, path, span?⟩ := e
  have hassembled : lineEnds (problem.expectation ++ clause path ++
      detailClause problem.detail? ++ ".") = lineEnds problem.verbatim := by
    have hstop : lineEnds "." = 0 := rfl
    simp only [lineEnds_append, lineEnds_clause, lineEnds_detailClause, hstop, Nat.add_zero]
    exact h.lineEnds_expectation
  cases problem with
  | missingField type =>
    have hempty : lineEnds "" = 0 := rfl
    unfold message Problem.expectation Problem.verbatim
    simp only [lineEnds_append, lineEnds_path, lineEnds_inputType, hempty]
    rfl
  | _ => exact hassembled

end CoercionError

/-! ### The scalars of every schema -/

namespace ScalarParser

/-- A scalar of every schema rejects a value by a message that shows the value. -/
theorem exists_showing_of_mem_builtIn {parser : ScalarParser}
    (hparser : parser ∈ builtIn.map Prod.snd) {value : Json} {error : ScalarError}
    (h : parser.parseValue value = .error error) :
    ∃ message, lineEnds message = 0 ∧ error = .showing message value := by
  simp only [builtIn, List.map_cons, List.map_nil, List.mem_cons, List.not_mem_nil,
    or_false] at hparser
  rcases hparser with rfl | rfl | rfl | rfl | rfl
  · simp only [int] at h
    split at h
    · split at h
      · split at h
        · cases h
        · cases h
          exact ⟨_, rfl, rfl⟩
      · cases h
        exact ⟨_, rfl, rfl⟩
    · cases h
      exact ⟨_, rfl, rfl⟩
  all_goals
    simp only [float, string, boolean, id] at h
    split at h <;> cases h
    exact ⟨_, rfl, rfl⟩

theorem lineEnds_reason_of_mem_builtIn {parser : ScalarParser}
    (hparser : parser ∈ builtIn.map Prod.snd) {value : Json} {error : ScalarError}
    (h : parser.parseValue value = .error error) :
    lineEnds (error.reason?.getD "") = 0 := by
  obtain ⟨message, hmessage, rfl⟩ := exists_showing_of_mem_builtIn hparser h
  rw [ScalarError.showing, ScalarError.reason?, Option.getD_some, lineEnds_append,
    lineEnds_append, hmessage, Json.lineEnds_text]
  rfl

end ScalarParser

/-! ### The problems of a value -/

variable {P : Problem → Prop}

/-- Whether a failure has at least one error, and only errors with problems of a kind. A name that is
not defined is no error of a value. -/
def Failure.Consists (P : Problem → Prop) : Failure → Prop
  | .undefinedType _ => True
  | .invalid errors => errors ≠ [] ∧ ∀ e ∈ errors, P e.problem

/-- Whether a result, where it is a failure, consists of problems of a kind. -/
def Coerced.FailsBy (P : Problem → Prop) (result : Coerced) : Prop :=
  ∀ failure, result = .error failure → failure.Consists P

theorem Failure.Consists.single {problem : Problem} (h : P problem) (span? : Option Span)
    (path : Path) : (Failure.single span? problem path).Consists P :=
  ⟨List.cons_ne_nil _ _, List.forall_mem_singleton.mpr h⟩

theorem Failure.Consists.join {failures : List Failure} (hne : failures ≠ [])
    (h : ∀ failure ∈ failures, failure.Consists P) : (Failure.join failures).Consists P := by
  rw [Failure.join]
  split
  · trivial
  · rename_i hnone
    rw [List.findSome?_eq_none_iff] at hnone
    have herrors : ∀ failure ∈ failures,
        failure.errors ≠ [] ∧ ∀ e ∈ failure.errors, P e.problem := by
      intro failure hmem
      cases failure with
      | undefinedType name => cases hnone _ hmem
      | invalid errors => exact h _ hmem
    obtain ⟨first, rest, rfl⟩ := List.exists_cons_of_ne_nil hne
    constructor
    · rw [List.flatMap_cons]
      exact List.append_ne_nil_of_left_ne_nil (herrors first List.mem_cons_self).1 _
    · intro e he
      obtain ⟨failure, hmem, he⟩ := List.mem_flatMap.mp he
      exact (herrors failure hmem).2 e he

namespace Coerced

theorem FailsBy.single {problem : Problem} (h : P problem) (span? : Option Span) (path : Path) :
    FailsBy P (.error (.single span? problem path)) := by
  rintro _ ⟨rfl⟩
  exact .single h span? path

theorem FailsBy.map {result : Coerced} (h : result.FailsBy P) (f : Json → Json) :
    FailsBy P (f <$> result) := by
  intro failure hfailure
  exact h failure (map_eq_error_iff.mp hfailure)

/-- An array fails by the problems of its items. -/
theorem FailsBy.array {items : List Coerced} (h : ∀ item ∈ items, item.FailsBy P) :
    (Coerced.array items).FailsBy P := by
  intro failure hfailure
  rw [Coerced.array] at hfailure
  rcases collect_eq items with ⟨values, hcollect, -⟩ | ⟨hcollect, hne⟩
  · rw [hcollect] at hfailure
    cases hfailure
  · rw [hcollect] at hfailure
    cases hfailure
    refine .join hne fun failure hmem => ?_
    obtain ⟨item, hitem, hfail⟩ := List.mem_filterMap.mp hmem
    cases item with
    | ok value => cases hfail
    | error failure' =>
      cases hfail
      exact h _ hitem failure rfl

end Coerced

namespace Coercion

variable {schema : Schema} {span? : Option Span}

/-- An object fails by the problems of the values under its keys, by fields that are missing, and by
keys that are no fields. -/
theorem failsBy_coerceObject {object : InputObjectType} {raw tag : Entries} {discriminated : Bool}
    {path : Path}
    (hvalues : ∀ entry ∈ raw, ∀ type path,
      (coerceJson schema span? entry.2 type path).FailsBy (Problem.ArisesWith schema)) :
    (coerceObject span? object (coerceEntries schema span? raw) discriminated tag path).FailsBy
      (Problem.ArisesWith schema) := by
  intro failure hfailure
  by_cases hnone : (valueFields span? (coerceEntries schema span? raw) discriminated).failures path
      object.fields.entries ++ (valueFields span? (coerceEntries schema span? raw)
        discriminated).undefinedFields object path = []
  · obtain ⟨hfailures, hundefined⟩ := List.append_eq_nil_iff.mp hnone
    rw [coerceObject_eq_ok_iff.mpr ⟨hfailures, hundefined, rfl⟩] at hfailure
    cases hfailure
  · rw [coerceObject_eq_error hnone] at hfailure
    cases hfailure
    refine .join hnone fun failure hmem => ?_
    rcases List.mem_append.mp hmem with hmem | hmem
    · obtain ⟨field, -, hfailed⟩ := List.mem_filterMap.mp hmem
      rw [Resolution.failure?_eq_some_iff, FieldSource.resolve_eq_failed_iff] at hfailed
      rcases hfailed with hgiven | ⟨-, -, -, rfl⟩
      · rw [coerceField_valueFields, Option.map_eq_some_iff] at hgiven
        obtain ⟨value, hget, herror⟩ := hgiven
        exact hvalues (_, value) (Entries.mem_of_get? hget) _ _ failure herror
      · exact .single (.missingField field.type) span? _
    · obtain ⟨key, -, rfl⟩ := List.mem_map.mp hmem
      exact .single (.undefinedField key object) span? path

theorem failsBy_coerceNamed {value : Json} {name : Name} {path : Path}
    (hvalues : ∀ entry ∈ value.entries, ∀ type path,
      (coerceJson schema span? entry.2 type path).FailsBy (Problem.ArisesWith schema)) :
    (coerceNamed schema span? value (coerceEntries schema span? value.entries) name
      path).FailsBy (Problem.ArisesWith schema) := by
  rw [coerceNamed]
  cases found : schema.get? name.text with
  | none =>
    rintro _ ⟨rfl⟩
    trivial
  | some definition =>
    cases definition with
    | scalar scalar =>
      simp only
      split
      · rintro _ ⟨⟩
      · rename_i error rejects
        exact .single (.rejected found rejects) span? path
    | enum type =>
      simp only
      split
      · rintro _ ⟨⟩
      · exact .single (.notEnumValue type _) span? path
    | inputObject object =>
      cases value with
      | object raw => exact failsBy_coerceObject hvalues
      | _ => exact .single (.notObject object.name) span? path
    | inputUnion type =>
      cases value with
      | object raw =>
        simp only
        split
        · exact failsBy_coerceObject hvalues
        · exact .single (.unknownMember type _) span? path
      | _ => exact .single (.notObject type.name) span? path

theorem failsBy_coerceJson (type : InputType) (value : Json) (path : Path) :
    (coerceJson schema span? value type path).FailsBy (Problem.ArisesWith schema) := by
  induction type, value using Json.coercionInduction generalizing path with
  | null type =>
    rw [coerceJson_null]
    split
    · exact .single (.null type) span? path
    · rintro _ ⟨⟩
  | named name nonNull value hnull ih =>
    rw [coerceJson_named schema span? hnull]
    exact failsBy_coerceNamed ih
  | list item nonNull items ih =>
    rw [coerceJson_array_list]
    refine .array fun result hmem => ?_
    obtain ⟨i, hi, rfl⟩ := List.mem_mapIdx.mp hmem
    exact ih items[i] (List.getElem_mem hi) _
  | single item nonNull value hsingle ih =>
    rw [coerceJson_single schema span? hsingle]
    exact (ih path).map _

end Coercion

/-! ### Reports -/

/-- Where the text of a problem is not one line, the problem is one of those that may be so. -/
theorem Problem.ArisesWith.mayBreakLines {schema : Schema} {problem : Problem}
    (h : problem.ArisesWith schema) (hends : lineEnds problem.verbatim ≠ 0) :
    problem.MayBreakLines schema := by
  cases h with
  | rejected found rejects =>
    refine .rejected found (fun hbuiltIn => hends ?_) rejects
    exact ScalarParser.lineEnds_reason_of_mem_builtIn hbuiltIn rejects
  | unknownMember type input => exact .unknownMember _ _ input
  | undefinedField key object => exact .undefinedField key _ _
  | null | notEnumValue | notObject | missingField => exact absurd rfl hends

/-- The text of the errors of a value has a line for each of them and one more for each line end in
the texts that the messages take over. So its lines are the messages if and only if these texts have
no line ends. Only the keys that are no fields, the texts that select no member of a union and the
reasons of scalar parsers that are not those of every schema can have any. -/
theorem Schema.lines_reportAll {schema : Schema} {type : InputType} {value? : Option Json}
    {span? : Option Span} {errors : List CoercionError}
    (h : schema.coerce type value? span? = .error (.invalid errors)) :
    (lines (CoercionError.reportAll errors)).length =
        errors.length + (errors.map fun e => lineEnds e.problem.verbatim).sum ∧
      (lines (CoercionError.reportAll errors) = errors.map (fun e => "Error: " ++ e.message) ↔
        ∀ e ∈ errors, lineEnds e.problem.verbatim = 0) ∧
      ∀ e ∈ errors, lineEnds e.problem.verbatim ≠ 0 → e.problem.MayBreakLines schema := by
  obtain ⟨hne, harises⟩ := Coercion.failsBy_coerceJson type (value?.getD .null) [] _ h
  have hmessages : errors.map CoercionError.message ≠ [] := by simpa using hne
  have hends : ∀ e ∈ errors, lineEnds e.message = lineEnds e.problem.verbatim :=
    fun e he => CoercionError.lineEnds_message (harises e he)
  refine ⟨?_, ?_, fun e he => (harises e he).mayBreakLines⟩
  · rw [CoercionError.reportAll, length_lines_report hmessages, List.length_map, List.map_map]
    exact congrArg (errors.length + List.sum ·) (List.map_congr_left hends)
  · have hlines := lines_report_eq_iff hmessages
    rw [List.map_map, List.forall_mem_map] at hlines
    exact hlines.trans (forall₂_congr fun e he => by rw [hends e he])

/-- The four errors of a dog are on four lines. -/
theorem Schema.coerce_strayDog_lines :
    ∃ errors, pets.coerce petType (some strayDog) none = .error (.invalid errors) ∧
      errors.length = 4 ∧
      lines (CoercionError.reportAll errors) = errors.map fun e => "Error: " ++ e.message := by
  obtain ⟨errors, herrors, hlength, hclean⟩ :
      ∃ errors, pets.coerce petType (some strayDog) none = .error (.invalid errors) ∧
        errors.length = 4 ∧ ∀ e ∈ errors, lineEnds e.problem.verbatim = 0 :=
    ⟨_, rfl, rfl, by decide +kernel⟩
  exact ⟨errors, herrors, hlength, (lines_reportAll herrors).2.1.mpr hclean⟩

/-- A cat with a key that is no field and that has a line end inside. -/
def Schema.wingedCat : Json :=
  .object [(inputNameKey, .string "Cat"), ("name", .string "Tom"), ("tail\nwings", .bool true)]

/-- The one error of this cat is on two lines. -/
theorem Schema.coerce_wingedCat_lines :
    ∃ e, pets.coerce petType (some wingedCat) none = .error (.invalid [e]) ∧
      lines (CoercionError.reportAll [e]) =
        ["Error: Field \"tail", "wings\" is not defined by type Cat."] ∧
      lines (CoercionError.reportAll [e]) ≠ [e].map fun e => "Error: " ++ e.message :=
  ⟨_, rfl, by decide +kernel, by decide +kernel⟩

end InputCoercion
