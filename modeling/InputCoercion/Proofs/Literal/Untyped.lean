import InputCoercion.Proofs.Literal.Conversion
import InputCoercion.Proofs.Reachability
import InputCoercion.Proofs.Value.KeyOrder

/-!
Interpretation at types that ask for nothing. Such a type admits null at every level, and leads to
no definitions but scalars that take every literal and input objects whose fields are of such types
and have no defaults. Input objects may contain themselves.

A literal that fits the shape of such a type is interpreted as it is converted without a type: both
have no value, or their values differ in the order of keys at most. Interpretation gives the fields
in the order in which they are declared, and conversion as they are written.
-/

namespace InputCoercion

/-! ### Types that ask for nothing -/

/-- Whether a type admits null, and so do the items at all levels of its lists. -/
def InputType.isUnmarked : InputType → Bool
  | named _ nonNull => !nonNull
  | list item nonNull => !nonNull && item.isUnmarked

theorem InputType.isNonNull_of_isUnmarked {type : InputType} (h : type.isUnmarked = true) :
    type.isNonNull = false := by
  cases type with
  | named name nonNull => simpa [isUnmarked, isNonNull] using h
  | list item nonNull =>
    rw [isUnmarked, Bool.and_eq_true, Bool.not_eq_true'] at h
    exact h.1

/-- Whether a definition is a scalar that takes every literal, or an input object all of whose
fields may be left out and may be null. -/
def TypeDefinition.IsUntyped : TypeDefinition → Prop
  | scalar type => type.parser = .any
  | inputObject object =>
    ∀ field ∈ object.fields.entries, field.type.isUnmarked = true ∧ field.default? = none
  | enum _ | inputUnion _ => False

/-- Whether a type asks for nothing, and all that it leads to. -/
structure Schema.IsUntyped (schema : Schema) (type : InputType) : Prop where
  isUnmarked : type.isUnmarked = true
  definitions : ∀ name, schema.Reaches type.innerName name →
    ∃ definition, schema.get? name.text = some definition ∧ definition.IsUntyped

namespace Schema.IsUntyped

variable {schema : Schema}

theorem isNonNull_eq_false {type : InputType} (h : schema.IsUntyped type) :
    type.isNonNull = false :=
  InputType.isNonNull_of_isUnmarked h.isUnmarked

theorem item {item : InputType} {nonNull : Bool} (h : schema.IsUntyped (.list item nonNull)) :
    schema.IsUntyped item := by
  have hmarks := h.isUnmarked
  rw [InputType.isUnmarked, Bool.and_eq_true] at hmarks
  exact ⟨hmarks.2, h.definitions⟩

theorem definition {name : Name} {nonNull : Bool} (h : schema.IsUntyped (.named name nonNull))
    {definition : TypeDefinition} (found : schema.get? name.text = some definition) :
    definition.IsUntyped := by
  obtain ⟨_, found', huntyped⟩ := h.definitions name .refl
  obtain rfl := Option.some.inj (found.symm.trans found')
  exact huntyped

theorem field {name : Name} {nonNull : Bool} (h : schema.IsUntyped (.named name nonNull))
    {object : InputObjectType} (found : schema.get? name.text = some (.inputObject object))
    {field : InputField} (hfield : field ∈ object.fields.entries) :
    schema.IsUntyped field.type := by
  refine ⟨(h.definition found field hfield).1, fun other hreaches => h.definitions other ?_⟩
  exact (Reaches.step .refl found (List.mem_map_of_mem hfield)).trans hreaches

end Schema.IsUntyped

/-- Whether a literal has the shape of a type. Null and variables fit everywhere, and everything
fits a scalar. -/
inductive Literal.Fits (schema : Schema) : InputType → Literal → Prop
  | null (type : InputType) : Fits schema type .null
  | var (type : InputType) (name : Name) : Fits schema type (.var name)
  | list {item : InputType} {nonNull : Bool} {literals : List Literal}
      (each : ∀ literal ∈ literals, Fits schema item literal) :
      Fits schema (.list item nonNull) (.list literals)
  | scalar {name : Name} {nonNull : Bool} {scalar : ScalarType} {literal : Literal}
      (found : schema.get? name.text = some (.scalar scalar)) :
      Fits schema (.named name nonNull) literal
  | object {name : Name} {nonNull : Bool} {object : InputObjectType} {raw : List (Name × Literal)}
      (found : schema.get? name.text = some (.inputObject object))
      (distinct : (raw.map Prod.fst).Nodup)
      (declared : ∀ given ∈ raw, given.1 ∈ object.fields.names)
      (each : ∀ given ∈ raw, ∀ field ∈ object.fields.entries, field.name = given.1 →
        Fits schema field.type given.2) :
      Fits schema (.named name nonNull) (.object raw)

/-- Lists that correspond item by item still do with corresponding items in front. -/
theorem Json.SameUpToOrder.cons {w w' : Json} {ws ws' : List Json} (head : SameUpToOrder w w')
    (tail : SameUpToOrder (.array ws) (.array ws')) :
    SameUpToOrder (.array (w :: ws)) (.array (w' :: ws')) := by
  cases tail with
  | array length each =>
    refine .array (congrArg Nat.succ length) fun i item item' hitem hitem' => ?_
    cases i with
    | zero =>
      obtain rfl := Option.some.inj hitem
      obtain rfl := Option.some.inj hitem'
      exact head
    | succ i => exact each i item item' hitem hitem'

namespace Interpretation

/-! ### Results that match -/

/-- Whether a result of interpretation matches one of conversion: their values correspond, or the
literal is absent and has no value. -/
inductive Matches {α : Type} (same : α → α → Prop) : Except NoValue α → Option α → Prop
  | value {a b : α} (h : same a b) : Matches same (.ok a) (some b)
  | absent : Matches same (.error .absent) none

namespace Matches

variable {α β : Type} {same : α → α → Prop} {same' : β → β → Prop} {result : Except NoValue α}
  {value? : Option α}

theorem map {f g : α → β} (h : Matches same result value?)
    (hfg : ∀ a b, same a b → same' (f a) (g b)) : Matches same' (f <$> result) (g <$> value?) := by
  cases h with
  | value h => exact .value (hfg _ _ h)
  | absent => exact .absent

theorem exists_of_some {b : α} (h : Matches same result (some b)) :
    ∃ a, result = .ok a ∧ same a b := by
  cases h with
  | value h => exact ⟨_, rfl, h⟩

theorem eq_of_none (h : Matches same result none) : result = .error .absent := by
  cases h
  rfl

theorem eq_absent {e : NoValue} (h : Matches same (.error e) value?) : e = .absent := by
  cases h
  rfl

end Matches

variable {schema : Schema} {vars : Entries}

/-! ### Lists -/

theorem matches_item {type : InputType} (hnull : type.isNonNull = false) {literal : Literal}
    (h : Matches Json.SameUpToOrder (interpret schema vars literal type) (literal.toJson? vars)) :
    Matches Json.SameUpToOrder (interpretItem schema vars type literal)
      (Literal.itemToJson? vars literal) := by
  rw [interpretItem, Literal.itemToJson?, hnull]
  split
  · exact .value .null
  · exact h

theorem matches_items {type : InputType} (hnull : type.isNonNull = false)
    {literals : List Literal}
    (h : ∀ literal ∈ literals,
      Matches Json.SameUpToOrder (interpret schema vars literal type) (literal.toJson? vars)) :
    Matches (fun ws ws' => Json.SameUpToOrder (.array ws) (.array ws'))
      (interpretItems schema vars literals type) (Literal.itemsToJson? vars literals) := by
  induction literals with
  | nil => exact .value (Json.SameUpToOrder.refl _)
  | cons literal literals ih =>
    obtain ⟨hliteral, hliterals⟩ := List.forall_mem_cons.mp h
    have hitem := matches_item hnull hliteral
    have hitems := ih hliterals
    rw [interpretItems_cons, Literal.itemsToJson?_cons]
    generalize interpretItem schema vars type literal = result at hitem ⊢
    generalize Literal.itemToJson? vars literal = value? at hitem ⊢
    cases hitem with
    | absent => exact .absent
    | @value w w' hsame =>
      have hcons (ws ws' : List Json) (hrest : Json.SameUpToOrder (.array ws) (.array ws')) :
          Json.SameUpToOrder (.array (w :: ws)) (.array (w' :: ws')) :=
        hsame.cons hrest
      exact hitems.map hcons

/-! ### Objects -/

variable {raw : List (Name × Literal)}

/-- Where no name is repeated, the literal of a field is found under its name. -/
theorem lastField?_eq_some_iff (distinct : (raw.map Prod.fst).Nodup) {name : Name}
    {literal : Literal} :
    Literal.lastField? name.text raw = some literal ↔ (name, literal) ∈ raw := by
  have hdistinct : (raw.reverse.map Prod.fst).Nodup :=
    ((List.reverse_perm raw).map Prod.fst).nodup_iff.mpr distinct
  rw [Literal.lastField?, ← find?_name_eq, Option.map_eq_some_iff, ← List.mem_reverse]
  constructor
  · rintro ⟨given, hfind, rfl⟩
    obtain rfl := Keyed.key_eq_of_find?_eq_some hfind
    exact Keyed.mem_of_find?_eq_some hfind
  · exact fun hmem => ⟨_, Keyed.find?_eq_some_of_mem hdistinct hmem, rfl⟩

/-- A declared field comes to what is given under its name. -/
theorem coerceField_eq_some_iff (distinct : (raw.map Prod.fst).Nodup) {field : InputField}
    {path : Path} {result : Interpreted} :
    (literalFields (interpretFields schema vars raw)).coerceField field path = some result ↔
      ∃ given ∈ Literal.givenFields vars raw, given.1 = field.name ∧
        interpret schema vars given.2 field.type = result := by
  have htext : Named.text field = field.name.text := rfl
  simp only [coerceField_literalFields, htext, Option.bind_eq_some_iff, Option.map_eq_some_iff,
    lastField?_eq_some_iff distinct, Literal.givenFields, List.mem_filter, Literal.isGiven,
    interpretField]
  constructor
  · rintro ⟨literal, hmem, interpreter, hinterpreter, rfl⟩
    split at hinterpreter
    · cases hinterpreter
    · rename_i hgiven
      cases hinterpreter
      exact ⟨(field.name, literal), ⟨hmem, by simpa using hgiven⟩, rfl, rfl⟩
  · rintro ⟨⟨name, literal⟩, ⟨hmem, hgiven⟩, rfl, rfl⟩
    rw [Bool.not_eq_true'] at hgiven
    exact ⟨literal, hmem, _, by rw [hgiven]; rfl, rfl⟩

/-- A field that asks for nothing has a value exactly if its literal is given and has this value. -/
theorem resolve_eq_present_iff (distinct : (raw.map Prod.fst).Nodup) {field : InputField}
    (hdefault : field.default? = none) {path : Path} {value : Json} :
    (literalFields (interpretFields schema vars raw)).resolve path field = .present value ↔
      ∃ given ∈ Literal.givenFields vars raw, given.1 = field.name ∧
        interpret schema vars given.2 field.type = .ok value := by
  simp [FieldSource.resolve_eq_present_iff, coerceField_eq_some_iff distinct, hdefault]

/-- And it fails exactly if its literal is given and fails. -/
theorem resolve_eq_failed_iff (distinct : (raw.map Prod.fst).Nodup) {field : InputField}
    (hnull : field.type.isNonNull = false) {path : Path} {e : NoValue} :
    (literalFields (interpretFields schema vars raw)).resolve path field = .failed e ↔
      ∃ given ∈ Literal.givenFields vars raw, given.1 = field.name ∧
        interpret schema vars given.2 field.type = .error e := by
  simp [FieldSource.resolve_eq_failed_iff, coerceField_eq_some_iff distinct, hnull]

variable (schema vars) in
/-- Whether the fields of an object literal match one by one, at an input object that asks for
nothing. -/
structure FieldsMatch (object : InputObjectType) (raw : List (Name × Literal)) : Prop where
  untyped : (TypeDefinition.inputObject object).IsUntyped
  distinct : (raw.map Prod.fst).Nodup
  declared : ∀ given ∈ raw, given.1 ∈ object.fields.names
  each : ∀ given ∈ raw, ∀ field ∈ object.fields.entries, field.name = given.1 →
    Matches Json.SameUpToOrder (interpret schema vars given.2 field.type) (given.2.toJson? vars)

namespace FieldsMatch

variable {object : InputObjectType}

theorem isNonNull_eq_false (h : FieldsMatch schema vars object raw) {field : InputField}
    (hfield : field ∈ object.fields.entries) : field.type.isNonNull = false :=
  InputType.isNonNull_of_isUnmarked (h.untyped field hfield).1

theorem of_given (h : FieldsMatch schema vars object raw) {given : Name × Literal}
    (hgiven : given ∈ Literal.givenFields vars raw) {field : InputField}
    (hfield : field ∈ object.fields.entries) (hname : given.1 = field.name) :
    Matches Json.SameUpToOrder (interpret schema vars given.2 field.type)
      (given.2.toJson? vars) :=
  h.each given (List.mem_filter.mp hgiven).1 field hfield hname.symm

theorem exists_field (h : FieldsMatch schema vars object raw) {given : Name × Literal}
    (hgiven : given ∈ Literal.givenFields vars raw) :
    ∃ field ∈ object.fields.entries, given.1 = field.name := by
  have hdeclared := h.declared given (List.mem_filter.mp hgiven).1
  obtain ⟨field, hfield, hname⟩ := List.mem_map.mp hdeclared
  exact ⟨field, hfield, hname.symm⟩

/-- If a given field has no value, some field fails, and it does as every field does. -/
theorem interpretObject_eq_error (h : FieldsMatch schema vars object raw) {given : Name × Literal}
    (hgiven : given ∈ Literal.givenFields vars raw) (hnone : given.2.toJson? vars = none) :
    interpretObject object (interpretFields schema vars raw) [] = .error .absent := by
  cases hobject : interpretObject object (interpretFields schema vars raw) [] with
  | ok w =>
    obtain ⟨field, hfield, hname⟩ := h.exists_field hgiven
    have hmatch := h.of_given hgiven hfield hname
    rw [hnone] at hmatch
    have hnever := FieldSource.failures_eq_nil_iff.mp (interpretObject_eq_ok_iff.mp hobject).1
    refine absurd ?_ (hnever field hfield .absent)
    rw [resolve_eq_failed_iff h.distinct (h.isNonNull_eq_false hfield)]
    exact ⟨given, hgiven, hname, hmatch.eq_of_none⟩
  | error e =>
    obtain ⟨field, hfield, hfailed⟩ := exists_of_interpretObject_eq_error hobject
    rw [resolve_eq_failed_iff h.distinct (h.isNonNull_eq_false hfield)] at hfailed
    obtain ⟨given, hgiven, hname, herror⟩ := hfailed
    have hmatch := h.of_given hgiven hfield hname
    rw [herror] at hmatch
    rw [hmatch.eq_absent]

/-- If all given fields have values, no field fails. -/
theorem interpretObject_eq_ok (h : FieldsMatch schema vars object raw)
    (hvalues : ∀ given ∈ Literal.givenFields vars raw, ∃ w, given.2.toJson? vars = some w) :
    interpretObject object (interpretFields schema vars raw) [] =
      .ok (.object ((literalFields (interpretFields schema vars raw)).values []
        object.fields.entries)) := by
  refine interpretObject_eq_ok_iff.mpr ⟨?_, ?_⟩
  · refine FieldSource.failures_eq_nil_iff.mpr fun field hfield e hfailed => ?_
    rw [resolve_eq_failed_iff h.distinct (h.isNonNull_eq_false hfield)] at hfailed
    obtain ⟨given, hgiven, hname, herror⟩ := hfailed
    obtain ⟨w, hw⟩ := hvalues given hgiven
    have hmatch := h.of_given hgiven hfield hname
    rw [herror, hw] at hmatch
    cases hmatch
  · have hkeys : (Entries.keys []).Nodup := List.nodup_nil
    rw [FieldSource.insertAll_values object.fields.nodup_texts hkeys fun _ _ => List.not_mem_nil]
    rfl

theorem mem_values_iff (h : FieldsMatch schema vars object raw) {key : String} {w : Json} :
    (key, w) ∈ (literalFields (interpretFields schema vars raw)).values []
        object.fields.entries ↔
      ∃ given ∈ Literal.givenFields vars raw, given.1.text = key ∧
        ∃ field ∈ object.fields.entries, given.1 = field.name ∧
          interpret schema vars given.2 field.type = .ok w := by
  rw [FieldSource.mem_values_iff]
  constructor
  · rintro ⟨field, hfield, rfl, hpresent⟩
    rw [resolve_eq_present_iff h.distinct (h.untyped field hfield).2] at hpresent
    obtain ⟨given, hgiven, hname, hok⟩ := hpresent
    exact ⟨given, hgiven, congrArg Name.text hname, field, hfield, hname, hok⟩
  · rintro ⟨given, hgiven, rfl, field, hfield, hname, hok⟩
    refine ⟨field, hfield, congrArg Name.text hname.symm, ?_⟩
    rw [resolve_eq_present_iff h.distinct (h.untyped field hfield).2]
    exact ⟨given, hgiven, hname, hok⟩

/-- The same fields have values, and these correspond. -/
theorem sameUpToOrder (h : FieldsMatch schema vars object raw) {entries : Entries}
    (hentries : (Literal.givenFields vars raw).map (Literal.fieldToJson? vars) =
      entries.map some) :
    Json.SameUpToOrder
      (.object ((literalFields (interpretFields schema vars raw)).values [] object.fields.entries))
      (.object entries) := by
  have hkeys := Literal.keys_eq_of_map_fieldToJson? hentries
  have htexts := Literal.nodup_texts_givenFields vars h.distinct
  refine .object ?_ fun key w w' hget hget' => ?_
  · have hnodup := (FieldSource.keys_values_sublist
      (literalFields (interpretFields schema vars raw)) [] object.fields.entries).nodup
      object.fields.nodup_texts
    rw [List.perm_ext_iff_of_nodup hnodup (hkeys ▸ htexts), hkeys]
    intro key
    constructor
    · intro hkey
      obtain ⟨⟨_, w⟩, hmem, rfl⟩ := List.mem_map.mp hkey
      obtain ⟨given, hgiven, htext, -⟩ := h.mem_values_iff.mp hmem
      exact List.mem_map.mpr ⟨given, hgiven, htext⟩
    · intro hkey
      obtain ⟨given, hgiven, htext⟩ := List.mem_map.mp hkey
      obtain ⟨field, hfield, hname⟩ := h.exists_field hgiven
      obtain ⟨entry, hentry⟩ :=
        exists_map_eq_map_some_iff.mp ⟨entries, hentries⟩ given hgiven
      have hmatch := h.of_given hgiven hfield hname
      rw [(Literal.fieldToJson?_eq_some_iff.mp hentry).2] at hmatch
      obtain ⟨w, hok, -⟩ := hmatch.exists_of_some
      have hmem := h.mem_values_iff.mpr ⟨given, hgiven, htext, field, hfield, hname, hok⟩
      exact List.mem_map.mpr ⟨(key, w), hmem, rfl⟩
  · obtain ⟨given, hgiven, htext, field, hfield, hname, hok⟩ :=
      h.mem_values_iff.mp (Entries.mem_of_get? hget)
    obtain ⟨other, hother, htext', hvalue⟩ :=
      (Literal.mem_entries_iff_of_map_fieldToJson? hentries).mp (Entries.mem_of_get? hget')
    -- No name is given twice, so it is one field that has the value and the entry.
    have hfind := Keyed.find?_eq_some_of_mem htexts hgiven
    have hsame : given.1.text = other.1.text := htext.trans htext'.symm
    rw [hsame, Keyed.find?_eq_some_of_mem htexts hother] at hfind
    obtain rfl := Option.some.inj hfind
    have hmatch := h.of_given hother hfield hname
    rw [hok, hvalue] at hmatch
    cases hmatch with
    | value hsame => exact hsame

/-- An object literal is interpreted as it is converted. -/
theorem matches_object (h : FieldsMatch schema vars object raw) :
    Matches Json.SameUpToOrder (interpretObject object (interpretFields schema vars raw) [])
      ((Literal.object raw).toJson? vars) := by
  cases hvalue : (Literal.object raw).toJson? vars with
  | none =>
    have hnone : ¬ ∀ given ∈ Literal.givenFields vars raw, ∃ w, given.2.toJson? vars = some w := by
      rw [← Literal.exists_toJson?_object_iff, hvalue]
      rintro ⟨w, hw⟩
      cases hw
    obtain ⟨given, hnone⟩ := Classical.not_forall.mp hnone
    obtain ⟨hgiven, hnone⟩ := Classical.not_imp.mp hnone
    have hnone : given.2.toJson? vars = none :=
      Option.eq_none_iff_forall_ne_some.mpr (not_exists.mp hnone)
    rw [h.interpretObject_eq_error hgiven hnone]
    exact .absent
  | some w =>
    obtain ⟨entries, hentries, rfl⟩ := Literal.toJson?_object_eq_some_iff.mp hvalue
    have hnodup : (Entries.keys entries).Nodup := by
      rw [Literal.keys_eq_of_map_fieldToJson? hentries]
      exact Literal.nodup_texts_givenFields vars h.distinct
    have hentries' : Entries.ofList entries = entries := Keyed.insertAll_of_nodup hnodup
    rw [h.interpretObject_eq_ok (Literal.exists_toJson?_object_iff.mp ⟨_, hvalue⟩), hentries']
    exact .value (h.sameUpToOrder hentries)

end FieldsMatch

/-! ### All literals -/

theorem matches_null {type : InputType} (hnull : type.isNonNull = false) :
    Matches Json.SameUpToOrder (interpret schema vars .null type) (Literal.null.toJson? vars) := by
  rw [interpret_null, hnull]
  exact .value .null

/-- A variable stands for its value as it is, or is absent. -/
theorem matches_var (type : InputType) (name : Name) :
    Matches Json.SameUpToOrder (interpret schema vars (.var name) type)
      ((Literal.var name).toJson? vars) := by
  rw [interpret, Literal.toJson?]
  cases Entries.get? name.text vars with
  | none => exact .absent
  | some w => exact .value (Json.SameUpToOrder.refl w)

/-- A scalar that takes every literal converts those that it is asked about. -/
theorem matches_scalar {name : Name} {nonNull : Bool}
    (huntyped : schema.IsUntyped (.named name nonNull)) {scalar : ScalarType}
    (found : schema.get? name.text = some (.scalar scalar)) (literal : Literal) :
    Matches Json.SameUpToOrder (interpret schema vars literal (.named name nonNull))
      (literal.toJson? vars) := by
  have hparser : scalar.parser = .any := huntyped.definition found
  by_cases hchecked : literal.isChecked = true
  · rw [interpret_named schema vars hchecked, interpretNamed, found]
    simp only [hparser, ScalarParser.any, ScalarParser.untypedLiteral]
    cases literal.toJson? vars with
    | none => exact .absent
    | some w => exact .value (Json.SameUpToOrder.refl w)
  · cases literal with
    | null => exact matches_null huntyped.isNonNull_eq_false
    | var name => exact matches_var _ name
    | _ => exact absurd rfl hchecked

end Interpretation

open Interpretation in
/-- At a type that asks for nothing, a literal that fits is interpreted as it is converted without a
type: it has no value in both ways, or values that differ in the order of keys at most. -/
theorem Schema.interpret_matches_toJson? {schema : Schema} {type : InputType}
    (huntyped : schema.IsUntyped type) {literal : Literal} (hfits : literal.Fits schema type)
    (vars : Entries) :
    Matches Json.SameUpToOrder (schema.interpret type (some literal) vars)
      (literal.toJson? vars) := by
  rw [Schema.interpret]
  -- What fits a type has parts that fit the types inside, and these ask for nothing either.
  induction hfits with
  | null type => exact matches_null huntyped.isNonNull_eq_false
  | var type name => exact matches_var type name
  | list each ih =>
    have hitems := matches_items huntyped.item.isNonNull_eq_false
      fun literal hmem => ih literal hmem huntyped.item
    rw [interpret_list, Literal.toJson?]
    exact hitems.map fun _ _ hsame => hsame
  | scalar found => exact matches_scalar huntyped found _
  | object found distinct declared each ih =>
    have hmatch : FieldsMatch schema vars _ _ :=
      ⟨huntyped.definition found, distinct, declared, fun given hgiven field hfield hname =>
        ih given hgiven field hfield hname (huntyped.field found hfield)⟩
    rw [interpret_named schema vars rfl,
      interpretNamed_of_variant (.inputObject found) (carries_nil _)]
    exact hmatch.matches_object

/-- A text with sections below it, where the text may be anything. -/
def sectionInput : InputObjectType :=
  .ofFields ⟨"Section", rfl⟩ [
    ⟨⟨"text", rfl⟩, .named ⟨"JSON", rfl⟩ false, none⟩,
    ⟨⟨"sections", rfl⟩, .list (.named ⟨"Section", rfl⟩ false) false, none⟩]

def sectionType : InputType :=
  .named ⟨"Section", rfl⟩ false

def Schema.sections : Schema :=
  .ofDefinitions [.scalar ⟨⟨"JSON", rfl⟩, .any⟩, .inputObject sectionInput]

theorem Schema.sections_isUntyped : sections.IsUntyped sectionType := by
  refine ⟨rfl, fun name hreaches => ?_⟩
  have hname : name ∈ [⟨"Section", rfl⟩, ⟨"JSON", rfl⟩] :=
    hreaches.mem_of_closed (by decide +kernel) List.mem_cons_self
  simp only [List.mem_cons, List.not_mem_nil, or_false] at hname
  rcases hname with rfl | rfl
  · refine ⟨.inputObject sectionInput, rfl, ?_⟩
    show ∀ field ∈ sectionInput.fields.entries, field.type.isUnmarked = true ∧ _
    decide
  · exact ⟨_, rfl, rfl⟩

/-- The section `{sections: [{text: {size: 1, from: $lost}}, $lost], text: $title}`. -/
def sectionLiteral : Literal :=
  .object [
    (⟨"sections", rfl⟩, .list [
      .object [(⟨"text", rfl⟩, .object [
        (⟨"size", rfl⟩, .ofInt 1), (⟨"from", rfl⟩, .var ⟨"lost", rfl⟩)])],
      .var ⟨"lost", rfl⟩]),
    (⟨"text", rfl⟩, .var ⟨"title", rfl⟩)]

theorem fits_section {raw : List (Name × Literal)} (distinct : (raw.map Prod.fst).Nodup)
    (declared : ∀ given ∈ raw, given.1 ∈ sectionInput.fields.names)
    (below : ∀ given ∈ raw, given.1 = ⟨"sections", rfl⟩ →
      given.2.Fits Schema.sections (.list sectionType false)) :
    (Literal.object raw).Fits Schema.sections sectionType := by
  refine .object rfl distinct declared fun given hgiven field hfield hname => ?_
  rcases List.mem_cons.mp hfield with rfl | hfield
  · exact .scalar rfl
  · rw [List.mem_singleton.mp hfield] at hname ⊢
    exact below given hgiven hname.symm

theorem sectionLiteral_fits : sectionLiteral.Fits Schema.sections sectionType := by
  refine fits_section (by decide) (by decide) ?_
  simp only [List.forall_mem_cons]
  refine ⟨fun _ => .list ?_, fun _ => .var _ _, fun _ h => absurd h List.not_mem_nil⟩
  simp only [List.forall_mem_cons]
  refine ⟨fits_section (by decide) (by decide) ?_, .var _ _, fun _ h => absurd h List.not_mem_nil⟩
  simp only [List.forall_mem_cons]
  exact ⟨fun h => absurd h (by decide), fun _ h => absurd h List.not_mem_nil⟩

/-- What the section comes to at its type, where the text is declared first. -/
def declaredSection : Json :=
  .object [
    ("text", .string "top"),
    ("sections", .array [.object [("text", .object [("size", .ofInt 1)])], .null])]

/-- What it comes to without a type, where the text is written last. -/
def writtenSection : Json :=
  .object [
    ("sections", .array [.object [("text", .object [("size", .ofInt 1)])], .null]),
    ("text", .string "top")]

theorem Schema.sections_interpret_sectionLiteral :
    sections.IsValid ∧ sections.IsUntyped sectionType ∧ sectionLiteral.Fits sections sectionType ∧
      sections.interpret sectionType (some sectionLiteral) [("title", .string "top")] =
        .ok declaredSection ∧
      sectionLiteral.toJson? [("title", .string "top")] = some writtenSection ∧
      declaredSection.SameUpToOrder writtenSection := by
  have hvalid : sections.IsValid := by decide +kernel
  have hdeclared : sections.interpret sectionType (some sectionLiteral) [("title", .string "top")] =
      .ok declaredSection := rfl
  have hwritten : sectionLiteral.toJson? [("title", .string "top")] = some writtenSection := rfl
  have hmatch := interpret_matches_toJson? sections_isUntyped sectionLiteral_fits
    [("title", .string "top")]
  rw [hdeclared, hwritten] at hmatch
  cases hmatch with
  | value hsame =>
    exact ⟨hvalid, sections_isUntyped, sectionLiteral_fits, hdeclared, hwritten, hsame⟩

end InputCoercion
