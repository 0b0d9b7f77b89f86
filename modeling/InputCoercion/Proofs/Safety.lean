import InputCoercion.Proofs.Literal.Recursion
import InputCoercion.Proofs.Value.Positions

/-!
What a valid schema rules out. Neither coercion nor interpretation comes upon a name that is not
defined, at any depth of a value or of a literal. And a value of an input union is rejected for its
member only if it does not name one: a member that is declared is always found.
-/

namespace InputCoercion

variable {schema : Schema}

theorem Schema.coerce_ne_undefinedType (hvalid : schema.IsValid) {type : InputType}
    (hdefined : (schema.get? type.innerName.text).isSome = true) (value? : Option Json)
    (span? : Option Span) (name : Name) :
    schema.coerce type value? span? ≠ .error (.undefinedType name) := by
  intro h
  have hreports : (schema.coerce type value? span?).Reports
      (Fault.ofJson schema span? (value?.getD .null) type []) :=
    Coercion.reports_coerceJson hvalid type (value?.getD .null) hdefined []
  rw [h] at hreports
  cases hreports.2

theorem Schema.interpret_ne_undefinedType (hvalid : schema.IsValid) {type : InputType}
    (hdefined : (schema.get? type.innerName.text).isSome = true) (literal? : Option Literal)
    (vars : Entries) (name : Name) :
    schema.interpret type literal? vars ≠ .error (.undefinedType name) := by
  intro h
  cases literal? with
  | none => cases h
  | some literal => cases Interpretation.eq_absent_of_interpret_eq_error hvalid hdefined h

/-- Why an object names no member of an input union. -/
theorem Fault.discriminator_of_namedMember?_eq_none (hvalid : schema.IsValid) {name : String}
    {type : InputUnionType} (found : schema.get? name = some (.inputUnion type)) {raw : Entries}
    (h : Fault.namedMember? schema type raw = none) :
    Entries.get? inputNameKey raw = none ∨
      (∃ value, Entries.get? inputNameKey raw = some value ∧ value.string? = none) ∨
      ∃ text, Entries.get? inputNameKey raw = some (.string text) ∧
        text ∉ type.members.texts := by
  cases hget : Entries.get? inputNameKey raw with
  | none => exact .inl rfl
  | some value =>
    cases value with
    | string text =>
      refine .inr (.inr ⟨text, rfl, fun hmem => ?_⟩)
      -- The member would have been found, since the members of a valid schema are input objects.
      obtain ⟨member, hmember, rfl⟩ := List.mem_map.mp hmem
      obtain ⟨object, hobject⟩ := hvalid.member_resolved found hmember
      have hcontains : type.members.contains (Named.text member) = true := by
        rw [Catalog.contains, Catalog.get?_text_of_mem hmember]
        rfl
      have hselects : Fault.namedMember? schema type raw =
          schema.inputObject? (Named.text member) := by
        simp [Fault.namedMember?, Fault.discriminator?, hget, Json.string?, Option.filter,
          hcontains]
      rw [h] at hselects
      cases hselects.trans hobject
    | _ => exact .inr (.inl ⟨_, rfl, rfl⟩)

/-- With a valid schema and a defined type neither coercion nor interpretation ends at an undefined
type. If a value is reported to select no member of an input union, then the path of the error leads
to an object in the value that has no text under the key for it, or the text of no member. Every
member resolves to its input object. -/
theorem Schema.no_undefinedType_and_members_resolve (hvalid : schema.IsValid) {type : InputType}
    (hdefined : (schema.get? type.innerName.text).isSome = true) :
    (∀ value? span? name, schema.coerce type value? span? ≠ .error (.undefinedType name)) ∧
      (∀ literal? vars name,
        schema.interpret type literal? vars ≠ .error (.undefinedType name)) ∧
      (∀ value? span? errors, schema.coerce type value? span? = .error (.invalid errors) →
        ∀ e ∈ errors, ∀ owner members input, e.problem = .unknownMember owner members input →
          ∃ union raw, schema.get? owner.text = some (.inputUnion union) ∧
            (value?.getD .null).at? e.path = some (.object raw) ∧
            (Entries.get? inputNameKey raw = none ∨
              (∃ other, Entries.get? inputNameKey raw = some other ∧ other.string? = none) ∨
              ∃ text, Entries.get? inputNameKey raw = some (.string text) ∧
                text ∉ union.members.texts)) ∧
      ∀ name union, schema.get? name = some (.inputUnion union) →
        ∀ member ∈ union.members.entries,
          ∃ object, schema.inputObject? member.text = some object := by
  refine ⟨coerce_ne_undefinedType hvalid hdefined, interpret_ne_undefinedType hvalid hdefined,
    ?_, fun name union found member hmem => hvalid.member_resolved found hmem⟩
  intro value? span? errors hcoerce e he owner members input hproblem
  have hreports : (schema.coerce type value? span?).Reports
      (Fault.ofJson schema span? (value?.getD .null) type []) :=
    Coercion.reports_coerceJson hvalid type (value?.getD .null) hdefined []
  rw [hcoerce] at hreports
  obtain ⟨-, herrors⟩ := hreports
  cases herrors
  obtain ⟨outer, type', part, inner, problem, hpart, hown, rfl⟩ :=
    Fault.exists_ownFault_of_mem_ofJson hvalid he
  cases hproblem
  cases hown with
  | @unknownMember name nonNull raw union input found unnamed =>
    have hname : union.name.text = name.text := Catalog.name_of_get? found
    have hat : (value?.getD .null).at? ([] ++ (outer ++ [])) = some (.object raw) := by
      rw [List.nil_append, List.append_nil]
      exact hpart.at?_eq
    exact ⟨union, raw, hname ▸ found, hat,
      Fault.discriminator_of_namedMember?_eq_none hvalid found unnamed⟩

/-- A dog with a friend that is no pet. -/
def Schema.fishDog : Json :=
  .object [(inputNameKey, .string "Dog"),
    ("friends", .array [.object [(inputNameKey, .string "Fish")]])]

theorem Schema.coerce_fishDog_unknownMember :
    pets.IsValid ∧ (pets.get? petType.innerName.text).isSome = true ∧
      ∃ e, pets.coerce petType (some fishDog) none = .error (.invalid [e]) ∧
        e.problem = .unknownMember petType.innerName ["Cat", "Dog"] "Fish" ∧
        e.path = [.field ⟨"friends", rfl⟩, .index 0] ∧
        ∃ raw, fishDog.at? e.path = some (.object raw) := by
  have hdefined : (pets.get? petType.innerName.text).isSome = true := rfl
  refine ⟨pets_isValid, hdefined, _, rfl, rfl, rfl, ?_⟩
  obtain ⟨-, -, hmember, -⟩ := no_undefinedType_and_members_resolve pets_isValid hdefined
  obtain ⟨union, raw, -, hat, -⟩ := hmember (some fishDog) none _ rfl _ List.mem_cons_self
    petType.innerName ["Cat", "Dog"] "Fish" rfl
  exact ⟨raw, hat⟩

end InputCoercion
