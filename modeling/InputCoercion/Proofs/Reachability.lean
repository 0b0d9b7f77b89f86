import InputCoercion.Proofs.Literal.Recursion

/-!
The part of a schema that a type depends on. A type leads to the name inside it, and from there on
to whatever the definitions on the way refer to: an input object to the types of its fields, an
input union to its members. Since input objects may contain each other, the way may go in circles.

Coercion and interpretation look up no other names. So two schemas that have the same definitions
for these, or none in both, give the same results at the type: the same values, the same errors,
and the same undefined name if there is one. The rest of the schemas, and the order in which they
are defined, make no difference. Neither schema has to be valid for that.
-/

namespace InputCoercion

/-- The names that a definition refers to. -/
def TypeDefinition.references : TypeDefinition → List Name
  | scalar _ | enum _ => []
  | inputObject object => object.fields.entries.map fun field => field.type.innerName
  | inputUnion type => type.members.entries

namespace Schema

/-- Whether a name leads to another one through the definitions of a schema. -/
inductive Reaches (schema : Schema) (start : Name) : Name → Prop
  | refl : Reaches schema start start
  | step {name next : Name} {definition : TypeDefinition} (before : Reaches schema start name)
      (found : schema.get? name.text = some definition)
      (refers : next ∈ definition.references) : Reaches schema start next

theorem Reaches.trans {schema : Schema} {start middle name : Name}
    (h : schema.Reaches start middle) (h' : schema.Reaches middle name) :
    schema.Reaches start name := by
  induction h' with
  | refl => exact h
  | step _ found refers ih => exact .step ih found refers

/-- A list of names that refer to nothing but each other holds all that any of them leads to. -/
theorem Reaches.mem_of_closed {schema : Schema} {names : List Name}
    (closed : ∀ name ∈ names, ∀ definition ∈ schema.get? name.text,
      definition.references ⊆ names)
    {start name : Name} (h : schema.Reaches start name) (hstart : start ∈ names) :
    name ∈ names := by
  induction h with
  | refl => exact hstart
  | step _ found refers ih => exact closed _ ih _ found refers

/-- Whether two schemas have the same definitions for all names that a name leads to in the first,
or none in both. -/
def AgreesFrom (schema schema' : Schema) (start : Name) : Prop :=
  ∀ name, schema.Reaches start name → schema.get? name.text = schema'.get? name.text

namespace AgreesFrom

variable {schema schema' : Schema} {start name : Name}

theorem get?_eq (h : schema.AgreesFrom schema' start) :
    schema.get? start.text = schema'.get? start.text :=
  h start .refl

theorem of_reaches (h : schema.AgreesFrom schema' start) (hreaches : schema.Reaches start name) :
    schema.AgreesFrom schema' name :=
  fun other hother => h other (hreaches.trans hother)

theorem of_mem_references (h : schema.AgreesFrom schema' start) {definition : TypeDefinition}
    (found : schema.get? start.text = some definition) (refers : name ∈ definition.references) :
    schema.AgreesFrom schema' name :=
  h.of_reaches (.step .refl found refers)

/-- The schemas agree from the type of every field that a value of the name may have. -/
theorem variant_field (h : schema.AgreesFrom schema' start) {tag : Entries}
    {object : InputObjectType} (variant : schema.HasVariant start tag object) {field : InputField}
    (hfield : field ∈ object.fields.entries) :
    schema.AgreesFrom schema' field.type.innerName := by
  have hrefers : field.type.innerName ∈ (TypeDefinition.inputObject object).references :=
    List.mem_map_of_mem hfield
  cases variant with
  | inputObject found => exact h.of_mem_references found hrefers
  | @member type member object found listed resolved =>
    have hmember : schema.AgreesFrom schema' member := h.of_mem_references found listed
    exact hmember.of_mem_references (inputObject?_eq_some_iff.mp resolved) hrefers

/-- They find the same members of an input union. -/
theorem selectedMember?_eq (h : schema.AgreesFrom schema' start) {type : InputUnionType}
    (found : schema.get? start.text = some (.inputUnion type)) (text : String) :
    Coercion.selectedMember? schema type text = Coercion.selectedMember? schema' type text := by
  rw [Coercion.selectedMember?, Coercion.selectedMember?]
  cases hlisted : type.members.get? text with
  | none => rfl
  | some member =>
    have hmember : schema.AgreesFrom schema' member :=
      h.of_mem_references found (Catalog.mem_of_get? hlisted)
    show schema.inputObject? member.text = schema'.inputObject? member.text
    rw [inputObject?, inputObject?, hmember.get?_eq]

end AgreesFrom

end Schema

/-- What an input object comes to is settled by what its source has for the declared fields, and by
the failures beside them. -/
theorem FieldSource.coerceFields_congr {ε : Type} {source source' : FieldSource ε}
    {object : InputObjectType} {path : Path} {entries : Entries}
    (hgiven : ∀ field ∈ object.fields.entries,
      source.coerceField field (fieldPath path field) =
        source'.coerceField field (fieldPath path field))
    (hmissing : source.requiredFieldMissing = source'.requiredFieldMissing)
    (hstops : source.stopsAtFirstFailure = source'.stopsAtFirstFailure)
    (hundefined : source.undefinedFields object path = source'.undefinedFields object path) :
    source.coerceFields object path entries = source'.coerceFields object path entries := by
  have hresolve (field : InputField) (hfield : field ∈ object.fields.entries) :
      source.resolve path field = source'.resolve path field := by
    rw [FieldSource.resolve, FieldSource.resolve, hgiven field hfield, hmissing]
  have hlist := @coerceList_append _ _ _ _ _ object.fields.entries
    (source'.undefinedFields object path) [] entries (by simp [Entries.keys]) hresolve hstops
  rw [coerceFields, coerceFields, hundefined]
  simpa using hlist

variable {schema schema' : Schema}

/-! ### Coercion -/

namespace Coercion

variable {span? : Option Span}

theorem coerceObject_congr {object : InputObjectType} {raw : Entries}
    (hvalues : ∀ field ∈ object.fields.entries, ∀ entry ∈ raw, ∀ path,
      coerceJson schema span? entry.2 field.type path =
        coerceJson schema' span? entry.2 field.type path)
    (discriminated : Bool) (tag : Entries) (path : Path) :
    coerceObject span? object (coerceEntries schema span? raw) discriminated tag path =
      coerceObject span? object (coerceEntries schema' span? raw) discriminated tag path := by
  have hgiven (field : InputField) (hfield : field ∈ object.fields.entries) (path : Path) :
      (valueFields span? (coerceEntries schema span? raw) discriminated).coerceField field path =
        (valueFields span? (coerceEntries schema' span? raw) discriminated).coerceField field
          path := by
    rw [coerceField_valueFields, coerceField_valueFields]
    cases hget : Entries.get? (Named.text field) raw with
    | none => rfl
    | some value => exact congrArg some (hvalues field hfield _ (Entries.mem_of_get? hget) path)
  have hundefined :
      (valueFields span? (coerceEntries schema span? raw) discriminated).undefinedFields object
          path =
        (valueFields span? (coerceEntries schema' span? raw) discriminated).undefinedFields object
          path := by
    simp only [valueFields, keys_coerceEntries]
  rw [coerceObject, coerceObject, FieldSource.coerceFields_congr
    (fun field hfield => hgiven field hfield _) rfl rfl hundefined]

theorem coerceNamed_congr {name : Name} (h : schema.AgreesFrom schema' name) {value : Json}
    (hvalues : ∀ entry ∈ value.entries, ∀ type : InputType,
      schema.AgreesFrom schema' type.innerName → ∀ path,
        coerceJson schema span? entry.2 type path = coerceJson schema' span? entry.2 type path)
    (path : Path) :
    coerceNamed schema span? value (coerceEntries schema span? value.entries) name path =
      coerceNamed schema' span? value (coerceEntries schema' span? value.entries) name path := by
  rw [coerceNamed, coerceNamed, ← h.get?_eq]
  cases found : schema.get? name.text with
  | none => rfl
  | some definition =>
    cases definition with
    | scalar type | enum type => rfl
    | inputObject object =>
      cases value with
      | object raw =>
        exact coerceObject_congr (fun field hfield entry hentry =>
          hvalues entry hentry field.type (h.variant_field (.inputObject found) hfield))
          false [] path
      | _ => rfl
    | inputUnion type =>
      cases value with
      | object raw =>
        simp only [← h.selectedMember?_eq found]
        cases hselected : selectedMember? schema type (selection raw) with
        | none => rfl
        | some object =>
          obtain ⟨member, hmem, htext, hobject⟩ := selectedMember?_eq_some_iff.mp hselected
          rw [← htext] at hobject
          exact coerceObject_congr (fun field hfield entry hentry =>
            hvalues entry hentry field.type (h.variant_field (.member found hmem hobject) hfield))
            true _ path
      | _ => rfl

/-- Coercion looks up no names but those that its type leads to. -/
theorem coerceJson_congr {type : InputType} (h : schema.AgreesFrom schema' type.innerName)
    (value : Json) (path : Path) :
    coerceJson schema span? value type path = coerceJson schema' span? value type path := by
  induction type, value using Json.coercionInduction generalizing path with
  | null type => rw [coerceJson_null, coerceJson_null]
  | named name nonNull value hnull ih =>
    rw [coerceJson_named schema span? hnull, coerceJson_named schema' span? hnull]
    exact coerceNamed_congr h (fun entry hentry type htype => ih entry hentry type htype) path
  | list item nonNull items ih =>
    -- The items have the name inside their list type.
    rw [coerceJson_array_list, coerceJson_array_list]
    congr 1
    apply List.mapIdx_eq_mapIdx_iff.mpr
    intro i hi
    exact ih _ (List.getElem_mem hi) h _
  | single item nonNull value hsingle ih =>
    rw [coerceJson_single schema span? hsingle, coerceJson_single schema' span? hsingle, ih h path]

end Coercion

/-! ### Interpretation -/

namespace Interpretation

variable {vars vars' : Entries}

/-- An object comes to what is found for its declared fields. -/
theorem interpretObject_eq_of_coerceField_eq {object : InputObjectType}
    {fields fields' : List (Name × Option Interpreter)}
    (h : ∀ field ∈ object.fields.entries, ∀ path,
      (literalFields fields).coerceField field path =
        (literalFields fields').coerceField field path) (tag : Entries) :
    interpretObject object fields tag = interpretObject object fields' tag := by
  rw [interpretObject, interpretObject,
    FieldSource.coerceFields_congr (fun field hfield => h field hfield _) rfl rfl rfl]

theorem interpretObject_congr {object : InputObjectType} {raw : List (Name × Literal)}
    (hmissing : ∀ given ∈ raw,
      given.2.isMissingVariable vars = given.2.isMissingVariable vars')
    (hvalues : ∀ field ∈ object.fields.entries, ∀ given ∈ raw,
      interpret schema vars given.2 field.type = interpret schema' vars' given.2 field.type)
    (tag : Entries) :
    interpretObject object (interpretFields schema vars raw) tag =
      interpretObject object (interpretFields schema' vars' raw) tag := by
  refine interpretObject_eq_of_coerceField_eq (fun field hfield path => ?_) tag
  rw [coerceField_literalFields, coerceField_literalFields]
  cases hlast : Literal.lastField? (Named.text field) raw with
  | none => rfl
  | some literal =>
    obtain ⟨given, hmem, -, rfl⟩ := Literal.mem_of_lastField?_eq_some hlast
    rw [Option.bind_some, Option.bind_some, interpretField, interpretField, hmissing given hmem]
    split
    · rfl
    · exact congrArg some (hvalues field hfield given hmem)

theorem interpretNamed_congr {name : Name} (h : schema.AgreesFrom schema' name) {literal : Literal}
    (hvalues : ∀ given ∈ literal.fields, ∀ type : InputType,
      schema.AgreesFrom schema' type.innerName →
        interpret schema vars given.2 type = interpret schema' vars given.2 type) :
    interpretNamed schema vars literal (interpretFields schema vars literal.fields) name =
      interpretNamed schema' vars literal (interpretFields schema' vars literal.fields) name := by
  rw [interpretNamed, interpretNamed, ← h.get?_eq]
  cases found : schema.get? name.text with
  | none => rfl
  | some definition =>
    cases definition with
    | scalar type | enum type => rfl
    | inputObject object =>
      cases literal with
      | object raw =>
        exact interpretObject_congr (fun _ _ => rfl) (fun field hfield given hgiven =>
          hvalues given hgiven field.type (h.variant_field (.inputObject found) hfield)) []
      | _ => rfl
    | inputUnion type =>
      cases literal with
      | object raw =>
        have hsame : selectedMember? schema' type raw = selectedMember? schema type raw := by
          simp only [selectedMember?, h.selectedMember?_eq found]
        simp only [hsame]
        cases hselected : selectedMember? schema type raw with
        | none => rfl
        | some object =>
          obtain ⟨member, hmem, -, hobject⟩ := selectedMember?_eq_some_iff.mp hselected
          exact interpretObject_congr (fun _ _ => rfl) (fun field hfield given hgiven =>
            hvalues given hgiven field.type (h.variant_field (.member found hmem hobject) hfield)) _
      | _ => rfl

/-- Lists come to the same if their items do one by one. -/
theorem interpretItems_congr {items items' : List Literal} {type : InputType}
    (h : items.map (interpretItem schema vars type) =
      items'.map (interpretItem schema' vars' type)) :
    interpretItems schema vars items type = interpretItems schema' vars' items' type := by
  induction items generalizing items' with
  | nil => rw [List.map_eq_nil_iff.mp h.symm, interpretItems, interpretItems]
  | cons item items ih =>
    obtain ⟨item', rest, rfl, hitem, hrest⟩ := List.map_eq_cons_iff.mp h.symm
    rw [interpretItems_cons, interpretItems_cons, hitem, ih hrest.symm]

/-- Interpretation looks up no names but those that its type leads to. -/
theorem interpret_congr {type : InputType} (h : schema.AgreesFrom schema' type.innerName)
    (literal : Literal) :
    interpret schema vars literal type = interpret schema' vars literal type := by
  induction type, literal using Literal.interpretationInduction with
  | null type => rw [interpret_null, interpret_null]
  | var type name => rw [interpret, interpret]
  | named name nonNull literal hchecked ih =>
    rw [interpret_named schema vars hchecked, interpret_named schema' vars hchecked]
    exact interpretNamed_congr h fun given hgiven type htype => ih given hgiven type htype
  | list item nonNull literals ih =>
    have hitems : literals.map (interpretItem schema vars item) =
        literals.map (interpretItem schema' vars item) :=
      List.map_congr_left fun literal hmem => by
        rw [interpretItem, interpretItem, ih literal hmem h]
    rw [interpret_list, interpret_list, interpretItems_congr hitems]
  | single item nonNull literal hsingle ih =>
    rw [interpret_single schema vars hsingle, interpret_single schema' vars hsingle, ih h]

end Interpretation

/-- At a type every value, every literal and their absence come to the same in two schemas that
agree on what the type leads to. -/
theorem Schema.coerce_eq_and_interpret_eq_of_agreesFrom {type : InputType}
    (h : schema.AgreesFrom schema' type.innerName) :
    (∀ value? span?, schema.coerce type value? span? = schema'.coerce type value? span?) ∧
      ∀ literal? vars,
        schema.interpret type literal? vars = schema'.interpret type literal? vars := by
  constructor
  · intro value? span?
    exact Coercion.coerceJson_congr h (value?.getD .null) []
  · intro literal? vars
    cases literal? with
    | none => rfl
    | some literal => exact Interpretation.interpret_congr h literal

/-- The pets in reverse order, with definitions of other things behind them. One of these has a
field of an undefined type, and another one replaces a scalar that no pet makes use of. -/
def Schema.kennel : Schema :=
  .ofDefinitions (pets.types.entries.reverse ++ [
    .inputObject (.ofFields ⟨"Kennel", rfl⟩ [⟨⟨"owner", rfl⟩, .named ⟨"Person", rfl⟩ true, none⟩]),
    .scalar ⟨.boolean, .any⟩])

theorem Schema.pets_agreesFrom_kennel : pets.AgreesFrom kennel petType.innerName := by
  intro name hreaches
  have hname : name ∈ [⟨"Pet", rfl⟩, ⟨"Cat", rfl⟩, ⟨"Dog", rfl⟩, ⟨"Color", rfl⟩, .int, .string] :=
    hreaches.mem_of_closed (by decide +kernel) List.mem_cons_self
  simp only [List.mem_cons, List.not_mem_nil, or_false] at hname
  rcases hname with rfl | rfl | rfl | rfl | rfl | rfl <;> rfl

theorem Schema.kennel_coerce_and_interpret_dog :
    pets.AgreesFrom kennel petType.innerName ∧ ¬ kennel.IsValid ∧
      kennel.coerce petType (some dog) none = .ok coercedDog ∧
      kennel.interpret petType (some dogLiteral) [] = .ok coercedDog := by
  obtain ⟨hcoerce, hinterpret⟩ := coerce_eq_and_interpret_eq_of_agreesFrom pets_agreesFrom_kennel
  exact ⟨pets_agreesFrom_kennel, by decide +kernel, (hcoerce (some dog) none).symm,
    (hinterpret (some dogLiteral) []).symm⟩

end InputCoercion
