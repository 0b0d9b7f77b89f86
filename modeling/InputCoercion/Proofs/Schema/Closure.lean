import InputCoercion.Schema.Validation

/-!
What a valid schema promises to coercion. Whatever name coercion reaches from a defined type is
defined, the members of an input union are input objects, and no field takes the key that selects a
member.

An object is read in two ways, at an input object and at a member of an input union. Both are
variants of a named type here. They differ in the entries that stand ahead of the fields: none, or
the name of the member. Statements about objects are made once, for a variant.
-/

namespace InputCoercion.Schema

variable {schema : Schema}

theorem inputObject?_eq_some_iff {name : String} {object : InputObjectType} :
    schema.inputObject? name = some object ↔ schema.get? name = some (.inputObject object) := by
  rw [inputObject?]
  cases schema.get? name with
  | none => simp
  | some definition => cases definition <;> simp [TypeDefinition.inputObject?]

theorem name_of_inputObject? {name : Name} {object : InputObjectType}
    (h : schema.inputObject? name.text = some object) : object.name = name := by
  have htext := Catalog.name_of_get? (inputObject?_eq_some_iff.mp h)
  exact Name.ext htext

/-! ### Variants of a named type -/

/-- The input objects whose fields a value of a named type may have, each with the entries that a
coerced value has ahead of these fields. -/
inductive HasVariant (schema : Schema) (name : Name) : Entries → InputObjectType → Prop
  /-- An input object is its own variant. -/
  | inputObject {object : InputObjectType}
      (found : schema.get? name.text = some (.inputObject object)) :
      HasVariant schema name [] object
  /-- The variants of an input union are its members, each behind its name. -/
  | member {type : InputUnionType} {member : Name} {object : InputObjectType}
      (found : schema.get? name.text = some (.inputUnion type))
      (listed : member ∈ type.members.entries)
      (resolved : schema.inputObject? member.text = some object) :
      HasVariant schema name [(inputNameKey, .string member.text)] object

theorem HasVariant.exists_get? {name : Name} {tag : Entries} {object : InputObjectType}
    (h : schema.HasVariant name tag object) :
    ∃ text, schema.get? text = some (.inputObject object) := by
  cases h with
  | inputObject found => exact ⟨_, found⟩
  | member found listed resolved => exact ⟨_, inputObject?_eq_some_iff.mp resolved⟩

theorem HasVariant.key_of_mem_tag {name : Name} {tag : Entries} {object : InputObjectType}
    (h : schema.HasVariant name tag object) {entry : String × Json} (hmem : entry ∈ tag) :
    entry.1 = inputNameKey := by
  cases h with
  | inputObject found => simp at hmem
  | member found listed resolved =>
    rw [List.mem_singleton.mp hmem]

theorem HasVariant.nodup_tag {name : Name} {tag : Entries} {object : InputObjectType}
    (h : schema.HasVariant name tag object) : (Entries.keys tag).Nodup := by
  cases h <;> simp [Entries.keys]

/-- Behind the tag of a variant entries are found as without it. -/
theorem HasVariant.get?_append {name : Name} {tag : Entries} {object : InputObjectType}
    (h : schema.HasVariant name tag object) {key : String} (hne : key ≠ inputNameKey)
    (entries : Entries) : Entries.get? key (tag ++ entries) = Entries.get? key entries := by
  cases h with
  | inputObject found => rfl
  | member found listed resolved =>
    rw [List.singleton_append, Entries.get?_cons, if_neg hne.symm]

theorem HasVariant.of_inputUnion {name : Name} {tag : Entries} {object : InputObjectType}
    {type : InputUnionType} (h : schema.HasVariant name tag object)
    (found : schema.get? name.text = some (.inputUnion type)) :
    ∃ member ∈ type.members.entries, tag = [(inputNameKey, .string member.text)] := by
  cases h with
  | inputObject hobject =>
    rw [found] at hobject
    cases hobject
  | member hunion listed resolved =>
    rw [found] at hunion
    cases hunion
    exact ⟨_, listed, rfl⟩

/-! ### What validity rules out -/

theorem fieldErrors_eq_nil_iff {owner : Name} {field : InputField} :
    schema.fieldErrors owner field = [] ↔
      field.name.text ≠ inputNameKey ∧
        (schema.get? field.type.innerName.text).isSome = true := by
  simp [fieldErrors, List.append_eq_nil_iff, Option.isSome_iff_ne_none]

theorem memberErrors_eq_nil_iff {owner member : Name} :
    schema.memberErrors owner member = [] ↔
      ∃ object, schema.inputObject? member.text = some object := by
  simp only [inputObject?_eq_some_iff, memberErrors]
  split
  · rename_i object hget
    simp [hget]
  · rename_i other hnot hget
    simpa [hget] using hnot
  · rename_i hget
    simp [hget]

namespace IsValid

variable (h : schema.IsValid)
include h

theorem definitionErrors_eq_nil {name : String} {definition : TypeDefinition}
    (found : schema.get? name = some definition) : schema.definitionErrors definition = [] := by
  have hall := List.flatMap_eq_nil_iff.mp h
  exact hall definition (Catalog.mem_of_get? found)

theorem fieldErrors_eq_nil {name : String} {object : InputObjectType} {field : InputField}
    (found : schema.get? name = some (.inputObject object))
    (hfield : field ∈ object.fields.entries) : schema.fieldErrors object.name field = [] := by
  have hnil := h.definitionErrors_eq_nil found
  rw [definitionErrors, List.append_eq_nil_iff, List.flatMap_eq_nil_iff] at hnil
  exact hnil.1 field hfield

theorem fieldType_defined {name : String} {object : InputObjectType} {field : InputField}
    (found : schema.get? name = some (.inputObject object))
    (hfield : field ∈ object.fields.entries) :
    (schema.get? field.type.innerName.text).isSome = true :=
  (fieldErrors_eq_nil_iff.mp (h.fieldErrors_eq_nil found hfield)).2

/-- No field takes the key that selects a member of an input union. -/
theorem fieldName_ne {name : String} {object : InputObjectType} {field : InputField}
    (found : schema.get? name = some (.inputObject object))
    (hfield : field ∈ object.fields.entries) : field.name.text ≠ inputNameKey :=
  (fieldErrors_eq_nil_iff.mp (h.fieldErrors_eq_nil found hfield)).1

theorem member_resolved {name : String} {type : InputUnionType} {member : Name}
    (found : schema.get? name = some (.inputUnion type)) (hmem : member ∈ type.members.entries) :
    ∃ object, schema.inputObject? member.text = some object := by
  have hnil := h.definitionErrors_eq_nil found
  rw [definitionErrors, List.append_eq_nil_iff, List.flatMap_eq_nil_iff] at hnil
  exact memberErrors_eq_nil_iff.mp (hnil.2 member hmem)

theorem variant_fieldName_ne {name : Name} {tag : Entries} {object : InputObjectType}
    {field : InputField} (variant : schema.HasVariant name tag object)
    (hfield : field ∈ object.fields.entries) : field.name.text ≠ inputNameKey := by
  obtain ⟨text, found⟩ := variant.exists_get?
  exact h.fieldName_ne found hfield

theorem variant_text_not_mem_tag {name : Name} {tag : Entries} {object : InputObjectType}
    {field : InputField} (variant : schema.HasVariant name tag object)
    (hfield : field ∈ object.fields.entries) : Named.text field ∉ Entries.keys tag := by
  intro hmem
  obtain ⟨entry, hentry, hkey⟩ := List.mem_map.mp hmem
  have hname : field.name.text = inputNameKey :=
    hkey.symm.trans (variant.key_of_mem_tag hentry)
  exact h.variant_fieldName_ne variant hfield hname

/-- A tag and fields behind it repeat no key. -/
theorem variant_nodup_keys_append {name : Name} {tag : Entries} {object : InputObjectType}
    (variant : schema.HasVariant name tag object) {entries : Entries}
    (ordered : (Entries.keys entries).Sublist (object.fields.entries.map Named.text)) :
    (Entries.keys (tag ++ entries)).Nodup := by
  have hentries : (Entries.keys entries).Nodup := ordered.nodup object.fields.nodup_texts
  rw [Entries.keys, List.map_append, List.nodup_append]
  refine ⟨variant.nodup_tag, hentries, ?_⟩
  rintro key htag _ hmem rfl
  obtain ⟨field, hfield, rfl⟩ := List.mem_map.mp (ordered.subset hmem)
  exact h.variant_text_not_mem_tag variant hfield htag

theorem variant_fieldType_defined {name : Name} {tag : Entries} {object : InputObjectType}
    {field : InputField} (variant : schema.HasVariant name tag object)
    (hfield : field ∈ object.fields.entries) :
    (schema.get? field.type.innerName.text).isSome = true := by
  obtain ⟨text, found⟩ := variant.exists_get?
  exact h.fieldType_defined found hfield

end IsValid

/-! ### A schema of pets -/

/-- A cat has nine lives unless told otherwise. -/
def catInput : InputObjectType :=
  .ofFields ⟨"Cat", rfl⟩ [
    ⟨⟨"lives", rfl⟩, .named .int false, some (.ofInt 9)⟩,
    ⟨⟨"name", rfl⟩, .named .string true, none⟩]

/-- A dog has friends of both kinds. -/
def dogInput : InputObjectType :=
  .ofFields ⟨"Dog", rfl⟩ [
    ⟨⟨"color", rfl⟩, .named ⟨"Color", rfl⟩ false, none⟩,
    ⟨⟨"friends", rfl⟩, .list (.named ⟨"Pet", rfl⟩ true) true, none⟩]

def pets : Schema :=
  .ofDefinitions [
    .inputObject catInput,
    .enum (.ofValues ⟨"Color", rfl⟩ [⟨"BLACK", rfl⟩, ⟨"GRAY", rfl⟩] []),
    .inputObject dogInput,
    .inputUnion (.ofMembers ⟨"Pet", rfl⟩ [⟨"Cat", rfl⟩, ⟨"Dog", rfl⟩])]

theorem pets_isValid : pets.IsValid := by
  decide +kernel

theorem pets_hasVariant_cat :
    pets.HasVariant ⟨"Pet", rfl⟩ [(inputNameKey, .string "Cat")] catInput :=
  @HasVariant.member pets ⟨"Pet", rfl⟩ _ ⟨"Cat", rfl⟩ catInput rfl List.mem_cons_self rfl

theorem pets_hasVariant_dog :
    pets.HasVariant ⟨"Pet", rfl⟩ [(inputNameKey, .string "Dog")] dogInput :=
  @HasVariant.member pets ⟨"Pet", rfl⟩ _ ⟨"Dog", rfl⟩ dogInput rfl
    (List.mem_cons_of_mem _ List.mem_cons_self) rfl

def petType : InputType := .named ⟨"Pet", rfl⟩ true

/-- A dog with a single friend, which is not given as a list. -/
def dog : Json :=
  .object [("friends", .object [("name", .string "Tom"), (inputNameKey, .string "Cat")]),
    (inputNameKey, .string "Dog")]

/-- The dog as a literal, with its fields in another order. -/
def dogLiteral : Literal :=
  .object [(⟨inputNameKey, rfl⟩, .string "Dog"),
    (⟨"friends", rfl⟩, .object [(⟨inputNameKey, rfl⟩, .string "Cat"),
      (⟨"name", rfl⟩, .string "Tom")])]

def coercedDog : Json :=
  .object [(inputNameKey, .string "Dog"),
    ("friends", .array [.object [(inputNameKey, .string "Cat"), ("lives", .ofInt 9),
      ("name", .string "Tom")]])]

/-- A dog with a color that there is not, a friend without a name, a friend that is null and a key
that is no field. -/
def strayDog : Json :=
  .object [(inputNameKey, .string "Dog"), ("tail", .bool true), ("color", .string "RED"),
    ("friends", .array [.object [(inputNameKey, .string "Cat")], .null])]

/-! ### More pets -/

/-- Cats have an age now, which is declared first. -/
def agedCatInput : InputObjectType :=
  .ofFields ⟨"Cat", rfl⟩ (⟨⟨"age", rfl⟩, .named .int false, none⟩ :: catInput.fields.entries)

/-- Dogs may keep their friends to themselves, and may have lost some of them. -/
def privateDogInput : InputObjectType :=
  .ofFields ⟨"Dog", rfl⟩ [
    ⟨⟨"color", rfl⟩, .named ⟨"Color", rfl⟩ false, none⟩,
    ⟨⟨"friends", rfl⟩, .list (.named ⟨"Pet", rfl⟩ false) false, none⟩]

/-- Birds are pets as well, and there is a further color. -/
def morePets : Schema :=
  .ofDefinitions [
    .inputObject (.ofFields ⟨"Bird", rfl⟩ [⟨⟨"sings", rfl⟩, .named .boolean true, none⟩]),
    .inputObject agedCatInput,
    .enum (.ofValues ⟨"Color", rfl⟩ [⟨"BLACK", rfl⟩, ⟨"BROWN", rfl⟩, ⟨"GRAY", rfl⟩] []),
    .inputObject privateDogInput,
    .inputUnion (.ofMembers ⟨"Pet", rfl⟩ [⟨"Bird", rfl⟩, ⟨"Cat", rfl⟩, ⟨"Dog", rfl⟩])]

theorem morePets_isValid : morePets.IsValid := by
  decide +kernel

end InputCoercion.Schema
