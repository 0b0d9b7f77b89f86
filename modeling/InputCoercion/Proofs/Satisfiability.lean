import InputCoercion.Proofs.Schema.WellFormed
import InputCoercion.Proofs.Value.Recursion

/-!
Which types have a value. A name is satisfiable if some value other than null coerces to it. An
input object asks for a value of every field that is non-null, has no default and is no list, since
all others can be left out or left empty, and an input union asks for one of its members. So a name
is satisfiable exactly if a finite derivation completes it in this sense.

Validity keeps input objects from asking for themselves, but only along fields whose types are input
objects. An input union may still ask for nothing but what asks for it. That is the only way in
which a type of a valid schema ends up without values.
-/

namespace InputCoercion

/-! ### What a type asks for -/

/-- Whether a value of one name has to contain a value of another, as the field of an input object
for which there is no default. -/
def Schema.Demands (schema : Schema) (owner next : Name) : Prop :=
  ∃ field, schema.Requires owner field next ∧ field.default? = none

/-- Whether a finite value can give all that a name asks for. -/
inductive Schema.Completable (schema : Schema) : Name → Prop
  | scalar {name : Name} {scalar : ScalarType}
      (found : schema.get? name.text = some (.scalar scalar)) : Completable schema name
  | enum {name : Name} {type : EnumType}
      (found : schema.get? name.text = some (.enum type)) : Completable schema name
  | variant {name : Name} {tag : Entries} {object : InputObjectType}
      (variant : schema.HasVariant name tag object)
      (fields : ∀ field ∈ object.fields.entries, field.default? = none →
        ∀ next, field.required? = some next → Completable schema next) :
      Completable schema name

/-- Whether some value other than null coerces to a name. It repeats no key, so that it is a value
as it is read. -/
def Schema.Satisfiable (schema : Schema) (name : Name) : Prop :=
  ∃ value : Json, value.mergeRepeats = value ∧
    ∀ span?, ∃ w, schema.coerce (.named name true) (some value) span? = .ok w

/-- Whether the leaves of a schema have values: every enum has one, and every scalar accepts one
other than null. -/
structure Schema.HasLeafValues (schema : Schema) : Prop where
  scalars : ∀ name scalar, schema.get? name = some (.scalar scalar) →
    ∃ value w, value ≠ .null ∧ value.mergeRepeats = value ∧
      scalar.parser.parseValue value = .ok w
  enums : ∀ name type, schema.get? name = some (.enum type) → type.values.entries ≠ []

section Completion

variable {schema : Schema}

open Coercion

/-! ### A value for what can be completed -/

/-- Whether a value that repeats no key coerces to a type, wherever it stands. -/
def Coercible (schema : Schema) (type : InputType) (value : Json) : Prop :=
  value.mergeRepeats = value ∧ ∀ span? path, ∃ w, coerceJson schema span? value type path = .ok w

/-- Whether a field may be given a value, or may be left out. -/
def Fits (schema : Schema) (field : InputField) : Option Json → Prop
  | some value => Coercible schema field.type value
  | none => field.default? ≠ none ∨ field.type.isNonNull = false

/-- A field can be dealt with if there is a value for the name that it asks for. -/
theorem exists_fits {field : InputField}
    (h : field.default? = none → ∀ next, field.required? = some next →
      ∃ value, Coercible schema (.named next true) value) : ∃ given?, Fits schema field given? := by
  cases hdefault : field.default? with
  | some value => exact ⟨none, .inl (by simp [hdefault])⟩
  | none =>
    cases htype : field.type with
    | named next nonNull =>
      cases nonNull with
      | false => exact ⟨none, .inr (by rw [htype]; rfl)⟩
      | true =>
        obtain ⟨value, hvalue⟩ := h hdefault next (by rw [InputField.required?, htype])
        exact ⟨some value, by rw [Fits, htype]; exact hvalue⟩
    | list item nonNull =>
      refine ⟨some (.array []), ?_⟩
      rw [Fits, htype]
      refine ⟨rfl, fun span? path => ⟨.array [], ?_⟩⟩
      rw [coerceJson_array_list]
      rfl

/-- One object deals with all fields at once. -/
theorem exists_entries {fields : List InputField} (hnodup : (fields.map Named.text).Nodup)
    (h : ∀ field ∈ fields, ∃ given?, Fits schema field given?) :
    ∃ raw : Entries, (Entries.keys raw).Sublist (fields.map Named.text) ∧
      (∀ entry ∈ raw, entry.2.mergeRepeats = entry.2) ∧
      ∀ field ∈ fields, Fits schema field (Entries.get? (Named.text field) raw) := by
  induction fields with
  | nil => exact ⟨[], List.nil_sublist _, by simp, by simp⟩
  | cons field fields ih =>
    obtain ⟨hnotMem, hnodup⟩ := List.nodup_cons.mp hnodup
    obtain ⟨given?, hgiven⟩ := h field List.mem_cons_self
    obtain ⟨raw, hkeys, hmerged, hraw⟩ :=
      ih hnodup fun other hother => h other (List.mem_cons_of_mem _ hother)
    cases given? with
    | none =>
      refine ⟨raw, hkeys.cons _, hmerged, ?_⟩
      intro other hother
      rcases List.mem_cons.mp hother with rfl | hother
      · have hnone : Entries.get? (Named.text other) raw = none :=
          Entries.get?_eq_none_iff.mpr fun hmem => hnotMem (hkeys.subset hmem)
        rw [hnone]
        exact hgiven
      · exact hraw other hother
    | some value =>
      refine ⟨(Named.text field, value) :: raw, hkeys.cons_cons _, ?_, ?_⟩
      · intro entry hentry
        rcases List.mem_cons.mp hentry with rfl | hentry
        · exact hgiven.1
        · exact hmerged entry hentry
      · intro other hother
        rw [Entries.get?_cons]
        rcases List.mem_cons.mp hother with rfl | hother
        · rw [if_pos rfl]
          exact hgiven
        · have hne : Named.text field ≠ Named.text other := fun heq =>
            hnotMem (heq ▸ List.mem_map_of_mem hother)
          rw [if_neg hne]
          exact hraw other hother

section Objects

variable {name : Name} {nonNull : Bool} {tag : Entries} {object : InputObjectType} {raw : Entries}

theorem resolve_ne_failed_of_fits (hvalid : schema.IsValid)
    (variant : schema.HasVariant name tag object) {field : InputField}
    (hfield : field ∈ object.fields.entries)
    (hfits : Fits schema field (Entries.get? (Named.text field) raw)) {span? : Option Span}
    (path : Path) (failure : Failure) :
    (valueFields span? (coerceEntries schema span? (tag ++ raw)) (!tag.isEmpty)).resolve path
      field ≠ .failed failure := by
  intro hfailed
  have hgiven := @coerceField_append schema span? hvalid name tag object variant raw
    (!tag.isEmpty) field hfield (FieldSource.fieldPath path field)
  cases hget : Entries.get? (Named.text field) raw with
  | some value =>
    rw [hget] at hfits hgiven
    obtain ⟨w, hw⟩ := hfits.2 span? (FieldSource.fieldPath path field)
    rw [Option.map_some, hw] at hgiven
    have hpresent := FieldSource.resolve_eq_present_iff.mpr (.inl hgiven)
    cases hpresent.symm.trans hfailed
  | none =>
    rw [hget] at hfits hgiven
    rcases FieldSource.resolve_eq_failed_iff.mp hfailed with herror | ⟨-, hdefault, hrequired, -⟩
    · cases hgiven.symm.trans herror
    · rcases hfits with hne | hnullable
      · exact hne hdefault
      · cases hnullable.symm.trans hrequired

theorem coercible_of_fits (hvalid : schema.IsValid) (variant : schema.HasVariant name tag object)
    (hkeys : (Entries.keys raw).Sublist (object.fields.entries.map Named.text))
    (hmerged : ∀ entry ∈ raw, entry.2.mergeRepeats = entry.2)
    (hfits : ∀ field ∈ object.fields.entries,
      Fits schema field (Entries.get? (Named.text field) raw)) :
    Coercible schema (.named name nonNull) (.object (tag ++ raw)) := by
  have htagged (entry : String × Json) (hentry : entry ∈ tag ++ raw) :
      entry.2.mergeRepeats = entry.2 := by
    rcases List.mem_append.mp hentry with htag | hentry
    · cases variant with
      | inputObject found => cases htag
      | member found listed resolved =>
        rw [List.mem_singleton.mp htag]
        rfl
    · exact hmerged entry hentry
  have hnodup := hvalid.variant_nodup_keys_append variant hkeys
  refine ⟨Json.mergeRepeats_object_eq_self_iff.mpr ⟨hnodup, htagged⟩, fun span? path => ?_⟩
  have hnone : (valueFields span? (coerceEntries schema span? (tag ++ raw))
      (!tag.isEmpty)).failures path object.fields.entries = [] :=
    FieldSource.failures_eq_nil_iff.mpr fun field hfield =>
      resolve_ne_failed_of_fits hvalid variant hfield (hfits field hfield) path
  rw [coerceJson_named schema span? (by simp), coerceNamed_of_variant variant
    (carries_append variant raw)]
  exact ⟨_, coerceObject_eq_ok_iff.mpr
    ⟨hnone, undefinedFields_append_eq_nil variant hkeys.subset, rfl⟩⟩

end Objects

/-- What can be completed has a value. -/
theorem Schema.Completable.exists_coercible (hvalid : schema.IsValid)
    (hleaves : schema.HasLeafValues) {name : Name} (h : schema.Completable name) :
    ∃ value, Coercible schema (.named name true) value := by
  induction h with
  | @scalar name scalar found =>
    obtain ⟨value, w, hnull, hmerged, hparse⟩ := hleaves.scalars _ scalar found
    refine ⟨value, hmerged, fun span? path => ⟨w, ?_⟩⟩
    rw [coerceJson_named schema span? hnull, coerceNamed, found]
    simp only [hparse]
  | @enum name type found =>
    obtain ⟨enumValue, hmem⟩ := List.exists_mem_of_ne_nil _ (hleaves.enums _ type found)
    have hget : type.values.get? enumValue.name.text = some enumValue :=
      Catalog.get?_text_of_mem hmem
    refine ⟨.string enumValue.name.text, rfl, fun span? path => ⟨enumValue.value, ?_⟩⟩
    rw [coerceJson_named schema span? (by simp), coerceNamed, found]
    simp only [Json.string?, Option.bind_eq_bind, Option.bind_some, hget]
  | @variant name tag object variant fields ih =>
    obtain ⟨raw, hkeys, hmerged, hfits⟩ := exists_entries object.fields.nodup_texts
      fun field hfield => exists_fits (ih field hfield)
    exact ⟨_, coercible_of_fits hvalid variant hkeys hmerged hfits⟩

/-! ### What has a value can be completed -/

theorem ne_null_of_coerceJson_nonNull {span? : Option Span} {value : Json} {name : Name}
    {path : Path} {w : Json} (h : coerceJson schema span? value (.named name true) path = .ok w) :
    value ≠ .null := by
  rintro rfl
  rw [coerceJson_null] at h
  cases h

/-- A value that is coerced at a name completes it: what the name asks for stands under the keys of
the value. -/
theorem Schema.completable_of_coerceJson {span? : Option Span} {value : Json} {name : Name}
    {nonNull : Bool} {path : Path} {w : Json} (hnull : value ≠ .null)
    (h : coerceJson schema span? value (.named name nonNull) path = .ok w) :
    schema.Completable name := by
  induction value using Json.induction generalizing name nonNull path w with
  | step value _ ih =>
    rw [coerceJson_named schema span? hnull] at h
    rcases coerceNamed_eq_ok h with ⟨scalar, found, -⟩ | ⟨type, enumValue, found, -, -⟩ |
      ⟨tag, object, raw, variant, rfl, -, hobject⟩
    · exact .scalar found
    · exact .enum found
    · refine .variant variant fun field hfield hdefault next hrequired => ?_
      have htype : field.type = .named next true := InputField.required?_eq_some_iff.mp hrequired
      obtain ⟨hnone, -, -⟩ := coerceObject_eq_ok_iff.mp hobject
      have hnotFailed := FieldSource.failures_eq_nil_iff.mp hnone field hfield
      have hgiven := @coerceField_valueFields schema span? raw (!tag.isEmpty) field
        (FieldSource.fieldPath path field)
      cases hget : Entries.get? (Named.text field) raw with
      | none =>
        rw [hget, Option.map_none] at hgiven
        have hnonNull : field.type.isNonNull = true := by rw [htype]; rfl
        have hfailed := FieldSource.resolve_eq_failed_iff.mpr
          (.inr ⟨hgiven, hdefault, hnonNull, rfl⟩)
        exact absurd hfailed (hnotFailed _)
      | some inner =>
        rw [hget, Option.map_some, htype] at hgiven
        cases hinner : coerceJson schema span? inner (.named next true)
            (FieldSource.fieldPath path field) with
        | error failure =>
          rw [hinner] at hgiven
          exact absurd (FieldSource.resolve_eq_failed_iff.mpr (.inl hgiven)) (hnotFailed _)
        | ok w' =>
          have hmem := Entries.mem_of_get? hget
          have hinnerNull : inner ≠ .null := ne_null_of_coerceJson_nonNull hinner
          exact ih (Named.text field, inner) hmem hinnerNull hinner

theorem Schema.completable_of_coerceJson_nonNull {span? : Option Span} {value : Json} {name : Name}
    {path : Path} {w : Json} (h : coerceJson schema span? value (.named name true) path = .ok w) :
    schema.Completable name :=
  completable_of_coerceJson (ne_null_of_coerceJson_nonNull h) h

/-! ### What is in the way of a value -/

theorem Schema.Completable.of_inputObject {name : Name} (h : schema.Completable name)
    {object : InputObjectType} (hfound : schema.get? name.text = some (.inputObject object)) :
    ∀ field ∈ object.fields.entries, field.default? = none →
      ∀ next, field.required? = some next → schema.Completable next := by
  cases h with
  | scalar found | enum found => cases found.symm.trans hfound
  | variant variant fields =>
    cases variant with
    | inputObject found =>
      cases found.symm.trans hfound
      exact fields
    | member found => cases found.symm.trans hfound

theorem Schema.Completable.of_inputUnion {name : Name} (h : schema.Completable name)
    {type : InputUnionType} (hfound : schema.get? name.text = some (.inputUnion type)) :
    ∃ member ∈ type.members.entries, schema.Completable member := by
  cases h with
  | scalar found | enum found => cases found.symm.trans hfound
  | variant variant fields =>
    cases variant with
    | inputObject found => cases found.symm.trans hfound
    | @member _ member _ found listed resolved =>
      cases found.symm.trans hfound
      exact ⟨member, listed, .variant (.inputObject (inputObject?_eq_some_iff.mp resolved)) fields⟩

/-- What can be completed asks for nothing, however far away, that cannot. -/
theorem Schema.Completable.of_chain {name next : Name} (h : schema.Completable name)
    (hchain : Relation.ReflTransGen schema.Demands name next) : schema.Completable next := by
  induction hchain with
  | refl => exact h
  | tail _ hdemands ih =>
    obtain ⟨field, ⟨object, hobject, hfield, hrequired⟩, hdefault⟩ := hdemands
    exact ih.of_inputObject (inputObject?_eq_some_iff.mp hobject) field hfield hdefault _ hrequired

/-- What cannot be completed asks, at the end of a chain, for an input union without a member that
can be completed. The chain ends because it leads through input objects only. -/
theorem Schema.exists_inputUnion_of_not_completable (hvalid : schema.IsValid) {name : Name}
    (hdefined : (schema.get? name.text).isSome = true) (h : ¬ schema.Completable name) :
    ∃ union type, Relation.ReflTransGen schema.Demands name union ∧
      schema.get? union.text = some (.inputUnion type) ∧
        ∀ member ∈ type.members.entries, ¬ schema.Completable member := by
  induction name using hvalid.wellFormed.wellFounded_requires.induction with
  | _ name ih =>
    obtain ⟨definition, found⟩ := Option.isSome_iff_exists.mp hdefined
    cases definition with
    | scalar scalar => exact absurd (.scalar found) h
    | enum type => exact absurd (.enum found) h
    | inputObject object =>
      -- One of the fields asks for what cannot be completed, or else the object could be.
      apply Classical.byContradiction
      intro hnone
      refine h (.variant (.inputObject found) fun field hfield hdefault next hrequired => ?_)
      have hrequires : schema.Requires name field next :=
        ⟨object, inputObject?_eq_some_iff.mpr found, hfield, hrequired⟩
      have hnext := hvalid.wellFormed.isSome_get?_of_requires hrequires
      apply Classical.byContradiction
      intro hnot
      obtain ⟨union, type, hchain, hfound, hmembers⟩ := ih next ⟨field, hrequires⟩ hnext hnot
      exact hnone ⟨union, type, .head ⟨field, hrequires, hdefault⟩ hchain, hfound, hmembers⟩
    | inputUnion type =>
      refine ⟨name, type, .refl, found, fun member hmem hmember => ?_⟩
      obtain ⟨object, hobject⟩ := hvalid.member_resolved found hmem
      have hfields := hmember.of_inputObject (inputObject?_eq_some_iff.mp hobject)
      exact h (.variant (.member found hmem hobject) hfields)

end Completion

/-! ### Schemas whose leaves have values -/

theorem ScalarParser.exists_of_mem_builtIn {entry : Name × ScalarParser} (h : entry ∈ builtIn) :
    ∃ value w, value ≠ .null ∧ value.mergeRepeats = value ∧
      entry.2.parseValue value = .ok w := by
  simp only [builtIn, List.mem_cons, List.not_mem_nil, or_false] at h
  rcases h with rfl | rfl | rfl | rfl | rfl
  · exact ⟨.ofInt 1, .ofInt 1, by decide, rfl, rfl⟩
  · exact ⟨.ofInt 1, .ofInt 1, by decide, rfl, rfl⟩
  · exact ⟨.string "", .string "", by decide, rfl, rfl⟩
  · exact ⟨.bool true, .bool true, by decide, rfl, rfl⟩
  · exact ⟨.string "", .string "", by decide, rfl, rfl⟩

theorem Schema.hasLeafValues_ofDefinitions {definitions : List TypeDefinition}
    (hscalars : ∀ scalar, .scalar scalar ∉ definitions)
    (henums : ∀ type, .enum type ∈ definitions → type.values.entries ≠ []) :
    (ofDefinitions definitions).HasLeafValues where
  scalars name scalar found := by
    rcases mem_of_get?_ofDefinitions found with ⟨entry, hentry, heq⟩ | hmem
    · cases heq
      exact ScalarParser.exists_of_mem_builtIn hentry
    · exact absurd hmem (hscalars scalar)
  enums name type found := by
    rcases mem_of_get?_ofDefinitions found with ⟨entry, hentry, heq⟩ | hmem
    · cases heq
    · exact henums type hmem

theorem Schema.pets_hasLeafValues : pets.HasLeafValues := by
  apply hasLeafValues_ofDefinitions
  · simp
  · intro type hmem
    simp only [List.mem_cons, List.not_mem_nil, reduceCtorEq, TypeDefinition.enum.injEq, false_or,
      or_false] at hmem
    rw [hmem]
    decide

/-! ### What is satisfiable -/

/-- In a valid schema whose leaves have values, a defined name has a value exactly if what it asks
for can be completed. It has none exactly if a chain of non-null fields without defaults leads from
it to an input union of which no member has a value. -/
theorem Schema.satisfiable_iff_completable {schema : Schema} (hvalid : schema.IsValid)
    (hleaves : schema.HasLeafValues) {name : Name}
    (hdefined : (schema.get? name.text).isSome = true) :
    (schema.Satisfiable name ↔ schema.Completable name) ∧
      (∀ value? span? w, schema.coerce (.named name true) value? span? = .ok w →
        schema.Satisfiable name) ∧
      (¬ schema.Satisfiable name ↔
        ∃ union type, Relation.ReflTransGen schema.Demands name union ∧
          schema.get? union.text = some (.inputUnion type) ∧
            ∀ member ∈ type.members.entries, ¬ schema.Satisfiable member) := by
  have hsatisfiable (name : Name) : schema.Satisfiable name ↔ schema.Completable name := by
    constructor
    · rintro ⟨value, -, hcoerce⟩
      obtain ⟨w, hw⟩ := hcoerce none
      exact completable_of_coerceJson_nonNull hw
    · intro hcompletable
      obtain ⟨value, hmerged, hcoerce⟩ := hcompletable.exists_coercible hvalid hleaves
      exact ⟨value, hmerged, fun span? => hcoerce span? []⟩
  refine ⟨hsatisfiable name, fun value? span? w hw => ?_, ?_⟩
  · exact (hsatisfiable name).mpr (completable_of_coerceJson_nonNull hw)
  · simp only [hsatisfiable]
    constructor
    · exact exists_inputUnion_of_not_completable hvalid hdefined
    · rintro ⟨union, type, hchain, hfound, hmembers⟩ hcompletable
      obtain ⟨member, hmem, hmember⟩ := (hcompletable.of_chain hchain).of_inputUnion hfound
      exact hmembers member hmem hmember

/-- A dog asks for nothing, as there may be no friends. -/
theorem Schema.pets_satisfiable_pet :
    pets.IsValid ∧ pets.HasLeafValues ∧ (pets.get? petType.innerName.text).isSome = true ∧
      pets.Completable petType.innerName ∧ pets.Satisfiable petType.innerName := by
  have hdefined : (pets.get? petType.innerName.text).isSome = true := rfl
  have hcompletable : pets.Completable petType.innerName := by
    refine .variant pets_hasVariant_dog fun field hfield _ next hrequired => ?_
    rcases List.mem_cons.mp hfield with rfl | hfield
    · cases hrequired
    · rw [List.mem_singleton.mp hfield] at hrequired
      cases hrequired
  have hpet := (satisfiable_iff_completable pets_isValid pets_hasLeafValues hdefined).1
  exact ⟨pets_isValid, pets_hasLeafValues, hdefined, hcompletable, hpet.mpr hcompletable⟩

/-- An input object that asks for an input union of which it is the only member. -/
def Schema.loopInput : InputObjectType :=
  .ofFields ⟨"A", rfl⟩ [⟨⟨"u", rfl⟩, .named ⟨"U", rfl⟩ true, none⟩]

def Schema.looped : Schema :=
  .ofDefinitions [.inputObject loopInput, .inputUnion (.ofMembers ⟨"U", rfl⟩ [⟨"A", rfl⟩])]

theorem Schema.eq_loopInput_of_hasVariant {name : Name} {tag : Entries} {object : InputObjectType}
    (h : looped.HasVariant name tag object) : object = loopInput := by
  obtain ⟨text, found⟩ := h.exists_get?
  rcases mem_of_get?_ofDefinitions found with ⟨entry, hentry, heq⟩ | hmem
  · cases heq
  · simpa using hmem

/-- Both the input object and the input union ask for the input union. -/
theorem Schema.looped_not_completable {name : Name} (h : looped.Completable name) :
    name ≠ ⟨"A", rfl⟩ ∧ name ≠ ⟨"U", rfl⟩ := by
  induction h with
  | scalar found | enum found => constructor <;> (rintro rfl; cases found)
  | variant variant fields ih =>
    obtain rfl := eq_loopInput_of_hasVariant variant
    have hfield : (⟨⟨"u", rfl⟩, .named ⟨"U", rfl⟩ true, none⟩ : InputField) ∈
        loopInput.fields.entries := List.mem_cons_self
    exact absurd rfl (ih _ hfield rfl ⟨"U", rfl⟩ rfl).2

/-- The loop is valid, since the search for cycles does not go through input unions, and still no
value coerces to the input object. -/
theorem Schema.looped_not_satisfiable :
    looped.IsValid ∧ looped.HasLeafValues ∧ (looped.inputObject? "A").isSome = true ∧
      ∀ value? span? w, looped.coerce (.named ⟨"A", rfl⟩ true) value? span? ≠ .ok w := by
  refine ⟨by decide +kernel, ?_, rfl, ?_⟩
  · apply hasLeafValues_ofDefinitions <;> simp
  · intro value? span? w h
    exact (looped_not_completable (completable_of_coerceJson_nonNull h)).1 rfl

end InputCoercion
