import InputCoercion.Proofs.Literal.Conversion
import InputCoercion.Proofs.Literal.Variables
import InputCoercion.Proofs.Reachability
import InputCoercion.Proofs.Value.KeyOrder
import Mathlib.Logic.Relation

/-!
What interpretation does not look at. Of the variables it looks at those that the literal names, as
long as the scalars do the same. And of an object literal at an input object, or at an input union,
it looks at the declared fields of the variant that is selected and at the key that selects it. What
else is written there makes no difference, even if it could not be interpreted or converted itself.

Which fields these are depends on the type at which the object stands, and this type on the objects
and lists around it. So a field is dropped by a step that follows the literal and its type together.
-/

namespace InputCoercion

/-- Whether a name is bound to the same value in two environments, or in neither, for all of some
names. -/
def Entries.AgreeOn (names : List Name) (vars vars' : Entries) : Prop :=
  ∀ name ∈ names, Entries.get? name.text vars = Entries.get? name.text vars'

theorem Entries.AgreeOn.mono {names names' : List Name} {vars vars' : Entries}
    (h : AgreeOn names vars vars') (hsubset : names' ⊆ names) : AgreeOn names' vars vars' :=
  fun name hmem => h name (hsubset hmem)

/-! ### Conversion and variables -/

namespace Literal

theorem variableNames_subset_of_mem_items {literal item : Literal} (h : item ∈ literal.items) :
    item.variableNames ⊆ literal.variableNames := by
  intro name hname
  cases literal with
  | list items =>
    rw [variableNames, itemVariableNames_eq_flatMap]
    exact List.mem_flatMap.mpr ⟨item, h, hname⟩
  | _ => exact absurd h List.not_mem_nil

theorem variableNames_subset_of_mem_fields {literal : Literal} {field : Name × Literal}
    (h : field ∈ literal.fields) : field.2.variableNames ⊆ literal.variableNames := by
  intro name hname
  cases literal with
  | object fields =>
    rw [variableNames, fieldVariableNames_eq_flatMap]
    exact List.mem_flatMap.mpr ⟨field, h, hname⟩
  | _ => exact absurd h List.not_mem_nil

variable {vars vars' : Entries}

theorem isMissingVariable_congr {literal : Literal}
    (h : Entries.AgreeOn literal.variableNames vars vars') :
    literal.isMissingVariable vars = literal.isMissingVariable vars' := by
  cases literal with
  | var name =>
    have hname := h name (List.mem_singleton.mpr rfl)
    simp only [isMissingVariable, Entries.contains, hname]
  | _ => rfl

/-- Conversion looks at no variables but those in the literal. -/
theorem toJson?_congr {literal : Literal}
    (h : Entries.AgreeOn literal.variableNames vars vars') :
    literal.toJson? vars = literal.toJson? vars' := by
  induction literal using Literal.induction with
  | step literal ihItems ihFields =>
    cases literal with
    | var name =>
      rw [toJson?, toJson?]
      exact h name (List.mem_singleton.mpr rfl)
    | list items =>
      have hitems : items.map (itemToJson? vars) = items.map (itemToJson? vars') := by
        refine List.map_congr_left fun item hmem => ?_
        have hitem := h.mono (variableNames_subset_of_mem_items hmem)
        rw [itemToJson?, itemToJson?, isMissingVariable_congr hitem, ihItems item hmem hitem]
      ext w
      rw [toJson?_list_eq_some_iff, toJson?_list_eq_some_iff, hitems]
    | object fields =>
      have hfield (field : Name × Literal) (hmem : field ∈ fields) :
          Entries.AgreeOn field.2.variableNames vars vars' :=
        h.mono (variableNames_subset_of_mem_fields hmem)
      have hgiven : givenFields vars fields = givenFields vars' fields :=
        List.filter_congr fun field hmem => by
          rw [isGiven, isGiven, isMissingVariable_congr (hfield field hmem)]
      have hfields : (givenFields vars fields).map (fieldToJson? vars) =
          (givenFields vars' fields).map (fieldToJson? vars') := by
        rw [hgiven]
        refine List.map_congr_left fun field hmem => ?_
        have hmem := (List.mem_filter.mp hmem).1
        rw [fieldToJson?, fieldToJson?, ihFields field hmem (hfield field hmem)]
      ext w
      rw [toJson?_object_eq_some_iff, toJson?_object_eq_some_iff, hfields]
    | _ => simp only [toJson?]

end Literal

/-! ### Interpretation and variables -/

/-- Whether every scalar of a schema takes whatever has a value, or treats literals as one of the
five scalars does that every schema has. -/
def Schema.HasStandardParsers (schema : Schema) : Prop :=
  ∀ name scalar, schema.get? name = some (.scalar scalar) →
    scalar.parser = .any ∨ ∃ entry ∈ ScalarParser.builtIn, scalar.parser = entry.2

theorem Schema.HasBuiltInParsers.hasStandardParsers {schema : Schema}
    (h : schema.HasBuiltInParsers) : schema.HasStandardParsers :=
  fun name scalar found => .inr (h name scalar found)

variable {schema : Schema} {vars vars' : Entries}

theorem Schema.HasStandardParsers.parseLiteral_congr (h : schema.HasStandardParsers)
    {name : String} {scalar : ScalarType} (found : schema.get? name = some (.scalar scalar))
    {literal : Literal} (hvars : Entries.AgreeOn literal.variableNames vars vars') :
    scalar.parser.parseLiteral literal vars = scalar.parser.parseLiteral literal vars' := by
  rcases h name scalar found with hany | ⟨entry, hentry, hparser⟩
  · rw [hany]
    simp only [ScalarParser.any, ScalarParser.untypedLiteral, Literal.toJson?_congr hvars]
  · rw [hparser]
    simp only [ScalarParser.builtIn, List.mem_cons, List.not_mem_nil, or_false] at hentry
    rcases hentry with rfl | rfl | rfl | rfl | rfl <;> rfl

namespace Interpretation

theorem interpretItem_congr_vars {item : Literal} {type : InputType}
    (hvars : Entries.AgreeOn item.variableNames vars vars')
    (h : interpret schema vars item type = interpret schema vars' item type) :
    interpretItem schema vars type item = interpretItem schema vars' type item := by
  rw [interpretItem, interpretItem, Literal.isMissingVariable_congr hvars, h]

theorem interpretNamed_congr_vars (hparsers : schema.HasStandardParsers) {literal : Literal}
    (hvars : Entries.AgreeOn literal.variableNames vars vars')
    (hvalues : ∀ given ∈ literal.fields, ∀ type,
      interpret schema vars given.2 type = interpret schema vars' given.2 type) (name : Name) :
    interpretNamed schema vars literal (interpretFields schema vars literal.fields) name =
      interpretNamed schema vars' literal (interpretFields schema vars' literal.fields) name := by
  have hmissing (given : Name × Literal) (hmem : given ∈ literal.fields) :
      given.2.isMissingVariable vars = given.2.isMissingVariable vars' :=
    Literal.isMissingVariable_congr
      (hvars.mono (Literal.variableNames_subset_of_mem_fields hmem))
  rw [interpretNamed, interpretNamed]
  cases found : schema.get? name.text with
  | none => rfl
  | some definition =>
    cases definition with
    | scalar scalar => simp only [hparsers.parseLiteral_congr found hvars]
    | enum type => rfl
    | inputObject object =>
      cases literal with
      | object raw =>
        exact interpretObject_congr hmissing
          (fun field _ given hgiven => hvalues given hgiven field.type) []
      | _ => rfl
    | inputUnion type =>
      cases literal with
      | object raw =>
        cases hselected : selectedMember? schema type raw with
        | none => simp only [hselected]
        | some object =>
          simp only [hselected]
          exact interpretObject_congr hmissing
            (fun field _ given hgiven => hvalues given hgiven field.type) _
      | _ => rfl

/-- Interpretation looks at no variables but those in the literal. -/
theorem interpret_congr_vars (hparsers : schema.HasStandardParsers) {literal : Literal}
    (hvars : Entries.AgreeOn literal.variableNames vars vars') (type : InputType) :
    interpret schema vars literal type = interpret schema vars' literal type := by
  induction type, literal using Literal.interpretationInduction with
  | null type => rw [interpret_null, interpret_null]
  | var type name => rw [interpret, interpret, hvars name (List.mem_singleton.mpr rfl)]
  | named name nonNull literal hchecked ih =>
    rw [interpret_named schema vars hchecked, interpret_named schema vars' hchecked]
    exact interpretNamed_congr_vars hparsers hvars (fun given hmem type =>
      ih given hmem type (hvars.mono (Literal.variableNames_subset_of_mem_fields hmem))) name
  | list item nonNull literals ih =>
    have hliterals : literals.map (interpretItem schema vars item) =
        literals.map (interpretItem schema vars' item) := by
      refine List.map_congr_left fun literal hmem => ?_
      have hliteral : Entries.AgreeOn literal.variableNames vars vars' :=
        hvars.mono (Literal.variableNames_subset_of_mem_items hmem)
      exact interpretItem_congr_vars hliteral (ih literal hmem hliteral)
    rw [interpret_list, interpret_list, interpretItems_congr hliterals]
  | single item nonNull literal hsingle ih =>
    rw [interpret_single schema vars hsingle, interpret_single schema vars' hsingle, ih hvars]

end Interpretation

/-! ### Undeclared fields -/

namespace Literal

theorem lastField?_append (name : String) (fields fields' : List (Name × Literal)) :
    lastField? name (fields ++ fields') =
      (lastField? name fields').or (lastField? name fields) := by
  rw [lastField?, List.reverse_append, Keyed.find?, List.find?_append, Option.map_or]
  rfl

theorem lastField?_cons (name : String) (field : Name × Literal) (fields : List (Name × Literal)) :
    lastField? name (field :: fields) =
      (lastField? name fields).or (if field.1.text = name then some field.2 else none) := by
  rw [← List.singleton_append, lastField?_append]
  congr 1
  rw [lastField?, List.reverse_singleton, Keyed.find?_cons]
  split <;> rfl

end Literal

/-- Whether a literal becomes another one when a field is dropped that no variant at its place
declares: the type is followed into the literal up to an object, and there goes one field that the
selected variant does not have, and that does not select it. Where no member of an input union is
selected, all fields are such fields but those that would select one. -/
inductive DropsUndeclared (schema : Schema) : InputType → Literal → Literal → Prop
  | here {typeName : Name} {nonNull : Bool} {tag : Entries} {object : InputObjectType}
      {before after : List (Name × Literal)} {name : Name} {literal : Literal}
      (variant : schema.HasVariant typeName tag object)
      (selected : Interpretation.Carries (before ++ (name, literal) :: after) tag)
      (undeclared : name ∉ object.fields.names) (untagged : name.text ∉ Entries.keys tag) :
      DropsUndeclared schema (.named typeName nonNull)
        (.object (before ++ (name, literal) :: after)) (.object (before ++ after))
  | unselected {typeName : Name} {nonNull : Bool} {type : InputUnionType}
      {before after : List (Name × Literal)} {name : Name} {literal : Literal}
      (found : schema.get? typeName.text = some (.inputUnion type))
      (selected : Interpretation.selectedMember? schema type
        (before ++ (name, literal) :: after) = none)
      (untagged : name.text ≠ inputNameKey) :
      DropsUndeclared schema (.named typeName nonNull)
        (.object (before ++ (name, literal) :: after)) (.object (before ++ after))
  | item {item : InputType} {nonNull : Bool} {before after : List Literal}
      {literal literal' : Literal} (inner : DropsUndeclared schema item literal literal') :
      DropsUndeclared schema (.list item nonNull) (.list (before ++ literal :: after))
        (.list (before ++ literal' :: after))
  | single {item : InputType} {nonNull : Bool} {literal literal' : Literal}
      (single : literal.isSingle = true) (inner : DropsUndeclared schema item literal literal') :
      DropsUndeclared schema (.list item nonNull) literal literal'
  | field {typeName : Name} {nonNull : Bool} {tag : Entries} {object : InputObjectType}
      {before after : List (Name × Literal)} {field : InputField} {literal literal' : Literal}
      (variant : schema.HasVariant typeName tag object)
      (selected : Interpretation.Carries (before ++ (field.name, literal) :: after) tag)
      (declared : field ∈ object.fields.entries)
      (inner : DropsUndeclared schema field.type literal literal') :
      DropsUndeclared schema (.named typeName nonNull)
        (.object (before ++ (field.name, literal) :: after))
        (.object (before ++ (field.name, literal') :: after))

namespace DropsUndeclared

variable {type : InputType} {literal literal' : Literal}

/-- What becomes of an object is an object, and of a list a list. -/
theorem isSingle_eq (h : DropsUndeclared schema type literal literal') :
    literal'.isSingle = literal.isSingle := by
  induction h with
  | single _ _ ih => exact ih
  | _ => rfl

theorem isMissingVariable_eq_false (h : DropsUndeclared schema type literal literal')
    (vars : Entries) :
    literal.isMissingVariable vars = false ∧ literal'.isMissingVariable vars = false := by
  induction h with
  | single _ _ ih => exact ih
  | _ => exact ⟨rfl, rfl⟩

end DropsUndeclared

namespace Interpretation

/-- Away from the name of a field, it makes no difference what stands in its place, or whether
anything does. -/
theorem lastField?_drop {before after : List (Name × Literal)} {name : Name} {key : String}
    (hne : name.text ≠ key) (literal : Literal) :
    Literal.lastField? key (before ++ (name, literal) :: after) =
      Literal.lastField? key (before ++ after) := by
  rw [Literal.lastField?_append, Literal.lastField?_append, Literal.lastField?_cons, if_neg hne,
    Option.or_none]

theorem Carries.congr {raw raw' : List (Name × Literal)} {tag : Entries} (h : Carries raw tag)
    (hlast : ∀ key ∈ Entries.keys tag, Literal.lastField? key raw' = Literal.lastField? key raw) :
    Carries raw' tag := by
  intro entry hentry
  obtain ⟨text, htext, hraw⟩ := h entry hentry
  exact ⟨text, htext, (hlast entry.1 (List.mem_map_of_mem hentry)).trans hraw⟩

section Fields

variable {before after : List (Name × Literal)} {field : InputField}

theorem coerceField_drop {name : Name} (hne : name.text ≠ Named.text field) (literal : Literal)
    (path : Path) :
    (literalFields (interpretFields schema vars (before ++ (name, literal) :: after))).coerceField
        field path =
      (literalFields (interpretFields schema vars (before ++ after))).coerceField field path := by
  rw [coerceField_literalFields, coerceField_literalFields, lastField?_drop hne]

/-- A field comes to the same from two literals that come to the same at its type. -/
theorem coerceField_replace {literal literal' : Literal}
    (hliteral : literal.isMissingVariable vars = false)
    (hliteral' : literal'.isMissingVariable vars = false)
    (h : interpret schema vars literal field.type = interpret schema vars literal' field.type)
    (path : Path) :
    (literalFields (interpretFields schema vars
        (before ++ (field.name, literal) :: after))).coerceField field path =
      (literalFields (interpretFields schema vars
        (before ++ (field.name, literal') :: after))).coerceField field path := by
  have htext : field.name.text = Named.text field := rfl
  have hvalue : (interpretField schema vars literal).map (fun interpret => interpret field.type) =
      (interpretField schema vars literal').map fun interpret => interpret field.type := by
    rw [interpretField_of_not_missing hliteral, interpretField_of_not_missing hliteral']
    exact congrArg some h
  rw [coerceField_literalFields, coerceField_literalFields, Literal.lastField?_append,
    Literal.lastField?_append, Literal.lastField?_cons, Literal.lastField?_cons, if_pos htext,
    if_pos htext]
  -- What is given again later counts in both.
  cases Literal.lastField? (Named.text field) after with
  | some last => rfl
  | none => exact hvalue

end Fields

variable (schema vars) in
theorem interpret_object (raw : List (Name × Literal)) (name : Name) (nonNull : Bool) :
    interpret schema vars (.object raw) (.named name nonNull) =
      interpretNamed schema vars (.object raw) (interpretFields schema vars raw) name :=
  interpret_named schema vars rfl name nonNull

/-- Objects come to the same at a variant if both carry its tag and have the same for the declared
fields. -/
theorem interpret_object_eq {typeName : Name} {tag : Entries} {object : InputObjectType}
    (variant : schema.HasVariant typeName tag object) {raw raw' : List (Name × Literal)}
    (hraw : Carries raw tag) (hraw' : Carries raw' tag)
    (hfields : ∀ field ∈ object.fields.entries, ∀ path,
      (literalFields (interpretFields schema vars raw)).coerceField field path =
        (literalFields (interpretFields schema vars raw')).coerceField field path)
    (nonNull : Bool) :
    interpret schema vars (.object raw) (.named typeName nonNull) =
      interpret schema vars (.object raw') (.named typeName nonNull) := by
  rw [interpret_object, interpret_object, interpretNamed_of_variant variant hraw,
    interpretNamed_of_variant variant hraw']
  exact interpretObject_eq_of_coerceField_eq hfields tag

/-- Dropping an undeclared field changes nothing. -/
theorem interpret_eq_of_drops (hvalid : schema.IsValid) {type : InputType}
    {literal literal' : Literal} (h : DropsUndeclared schema type literal literal') :
    interpret schema vars literal type = interpret schema vars literal' type := by
  induction h with
  | @here typeName nonNull tag object before after name literal variant selected undeclared
      untagged =>
    have hcarries : Carries (before ++ after) tag := selected.congr fun key hkey =>
      (lastField?_drop (fun heq => untagged (heq ▸ hkey)) literal).symm
    refine interpret_object_eq variant selected hcarries (fun field hfield path => ?_) nonNull
    have hne : name.text ≠ Named.text field := by
      intro heq
      obtain rfl : name = field.name := Name.ext heq
      exact undeclared (List.mem_map_of_mem hfield)
    exact coerceField_drop hne literal path
  | @unselected typeName nonNull union before after name literal found selected untagged =>
    have hselected : selectedMember? schema union (before ++ after) = none := by
      rw [← selected, selectedMember?, selectedMember?, lastField?_drop untagged]
    rw [interpret_object, interpret_object, interpretNamed, interpretNamed, found]
    simp only [selected, hselected]
  | @item item nonNull before after literal literal' inner ih =>
    obtain ⟨hliteral, hliteral'⟩ := inner.isMissingVariable_eq_false vars
    have hitem : interpretItem schema vars item literal =
        interpretItem schema vars item literal' := by
      rw [interpretItem_of_not_missing hliteral, interpretItem_of_not_missing hliteral', ih]
    rw [interpret_list, interpret_list, interpretItems_congr]
    simp only [List.map_append, List.map_cons, hitem]
  | single hsingle inner ih =>
    rw [interpret_single schema vars hsingle,
      interpret_single schema vars (inner.isSingle_eq.trans hsingle), ih]
  | @field typeName nonNull tag object before after field literal literal' variant selected
      declared inner ih =>
    obtain ⟨hliteral, hliteral'⟩ := inner.isMissingVariable_eq_false vars
    -- The field that changes is declared, so it is not the one that selects the variant.
    have hcarries : Carries (before ++ (field.name, literal') :: after) tag := by
      refine selected.congr fun key hkey => ?_
      have hne : field.name.text ≠ key := by
        rintro rfl
        exact hvalid.variant_text_not_mem_tag variant declared hkey
      rw [lastField?_drop hne, lastField?_drop hne]
    refine interpret_object_eq variant selected hcarries (fun other hother path => ?_) nonNull
    by_cases hname : field.name.text = Named.text other
    · obtain rfl := InputObjectType.field_unique declared hother hname
      exact coerceField_replace hliteral hliteral' ih path
    · rw [coerceField_drop hname, coerceField_drop hname]

end Interpretation

/-- What a literal comes to does not depend on variables that it does not name, and does not change
when any number of fields are dropped, at any depth, that are not declared where they stand. -/
theorem Schema.interpret_eq_of_agreeOn_and_of_drops (hvalid : schema.IsValid)
    (hparsers : schema.HasStandardParsers) (type : InputType) (literal : Literal) :
    (∀ vars vars', Entries.AgreeOn literal.variableNames vars vars' →
      schema.interpret type (some literal) vars = schema.interpret type (some literal) vars') ∧
      ∀ vars literal', Relation.ReflTransGen (DropsUndeclared schema type) literal literal' →
        schema.interpret type (some literal) vars =
          schema.interpret type (some literal') vars := by
  refine ⟨fun vars vars' hvars => Interpretation.interpret_congr_vars hparsers hvars type,
    fun vars literal' hdrops => ?_⟩
  induction hdrops with
  | refl => rfl
  | tail _ hstep ih => exact ih.trans (Interpretation.interpret_eq_of_drops hvalid hstep)

namespace Schema

/-- The dog with a tail in front. The tail is no field of dogs, is beyond all floats, and has a
variable at its end. -/
def tailedDogLiteral : Literal :=
  .object ((⟨"tail", rfl⟩, .list [.float ⟨"9e999", by decide +kernel⟩, .var ⟨"end", rfl⟩]) ::
    dogLiteral.fields)

theorem tailedDogLiteral_drops : DropsUndeclared pets petType tailedDogLiteral dogLiteral :=
  @DropsUndeclared.here pets ⟨"Pet", rfl⟩ true _ dogInput [] dogLiteral.fields ⟨"tail", rfl⟩ _
    pets_hasVariant_dog (Interpretation.carries_singleton_iff.mpr rfl) (by decide) (by decide)

theorem pets_interpret_tailedDogLiteral :
    pets.IsValid ∧ pets.HasStandardParsers ∧
      Entries.AgreeOn tailedDogLiteral.variableNames [] [("name", .null)] ∧
      Relation.ReflTransGen (DropsUndeclared pets petType) tailedDogLiteral dogLiteral ∧
      pets.interpret petType (some tailedDogLiteral) [("name", .null)] = .ok coercedDog := by
  have hparsers := pets_hasBuiltInParsers.hasStandardParsers
  have hagree : Entries.AgreeOn tailedDogLiteral.variableNames [] [("name", .null)] := by
    intro name hname
    obtain rfl := List.mem_singleton.mp hname
    rfl
  have hdrops : Relation.ReflTransGen (DropsUndeclared pets petType) tailedDogLiteral dogLiteral :=
    .single tailedDogLiteral_drops
  obtain ⟨hvars, hfields⟩ :=
    interpret_eq_of_agreeOn_and_of_drops pets_isValid hparsers petType tailedDogLiteral
  exact ⟨pets_isValid, hparsers, hagree, hdrops,
    (hvars [] _ hagree).symm.trans (hfields [] dogLiteral hdrops)⟩

end Schema

end InputCoercion
