import InputCoercion.Proofs.Value.Positions

/-!
What the errors of a value point at. The path of an error leads through the value itself, and not
through what coercion makes of it: a single value that stands for a list is found without a step.
At its end there is a part of the value, or, for a missing field and for nothing else, an object
that does not have the last key of the path.

No two errors point at the same place, but for keys of one object that are no fields of it. These
have no paths of their own, and each of them is named by its error.
-/

namespace InputCoercion

/-- Where no object in a value repeats a key, none does in the values under its keys. -/
theorem Json.mergeRepeats_of_mem_entries {value : Json} (h : value.mergeRepeats = value) :
    ∀ entry ∈ value.entries, entry.2.mergeRepeats = entry.2 := by
  cases value with
  | object raw => exact (mergeRepeats_object_eq_self_iff.mp h).2
  | _ => simp [entries]

/-- Whether the path of an error leads to a part of a value. If the error is that a field is
missing, its path leads to an object that does not have the key at its end. -/
def CoercionError.PointsInto (e : CoercionError) (value : Json) : Prop :=
  match e.problem with
  | .missingField _ => ∃ outer name raw, e.path = outer ++ [.field name] ∧
      value.at? outer = some (.object raw) ∧ Entries.get? name.text raw = none
  | _ => ∃ part, value.at? e.path = some part

/-- Whether two errors point at different places, or at two keys of an object that are no fields of
the same input object. -/
def CoercionError.Apart (e e' : CoercionError) : Prop :=
  e.path = e'.path → ∃ key key' type options, key ≠ key' ∧
    e.problem = .undefinedField key type options ∧ e'.problem = .undefinedField key' type options

/-- Steps to different places lead to different paths. -/
theorem CoercionError.Apart.of_steps_ne {e e' : CoercionError} {path : Path} {a b : PathElement}
    (hne : a ≠ b) (h : path ++ [a] <+: e.path) (h' : path ++ [b] <+: e'.path) : e.Apart e' := by
  intro heq
  obtain ⟨rest, hrest⟩ := h
  rw [← heq, ← hrest, List.append_assoc, List.prefix_append_right_inj, List.singleton_append,
    List.cons_prefix_cons] at h'
  exact absurd h'.1.symm hne

namespace Fault

variable {schema : Schema} {span? : Option Span} {path : Path} {e : CoercionError}

theorem prefix_of_mem_ofJson (hvalid : schema.IsValid) {type : InputType} {value : Json}
    (h : e ∈ ofJson schema span? value type path) : path <+: e.path := by
  obtain ⟨outer, type', part, inner, problem, -, -, rfl⟩ :=
    exists_ownFault_of_mem_ofJson hvalid h
  exact List.prefix_append path (outer ++ inner)

/-- The faults of a field are where the field is, or would be. -/
theorem prefix_of_mem_ofField (hvalid : schema.IsValid) {raw : Entries} {field : InputField}
    (h : e ∈ ofField span? (ofEntries schema span? raw) path field) :
    path ++ [.field field.name] <+: e.path := by
  cases hget : Entries.get? (Named.text field) raw with
  | none =>
    rw [ofField_of_get?_eq_none schema span? hget] at h
    split at h
    · obtain rfl := List.mem_singleton.mp h
      exact List.prefix_rfl
    · cases h
  | some value =>
    rw [ofField_of_get?_eq_some schema span? hget] at h
    exact prefix_of_mem_ofJson hvalid h

theorem path_of_mem_ofKeys {object : InputObjectType} {keys : List String}
    (h : e ∈ ofKeys span? object keys path) : e.path = path := by
  obtain ⟨key, -, rfl⟩ := List.mem_map.mp h
  rfl

/-! ### Faults are apart -/

theorem pairwise_ofField {raw : Entries} {field : InputField}
    (hvalues : ∀ entry ∈ raw, ∀ type path,
      (ofJson schema span? entry.2 type path).Pairwise CoercionError.Apart) :
    (ofField span? (ofEntries schema span? raw) path field).Pairwise CoercionError.Apart := by
  cases hget : Entries.get? (Named.text field) raw with
  | none =>
    rw [ofField_of_get?_eq_none schema span? hget]
    split
    · exact List.pairwise_singleton _ _
    · exact List.Pairwise.nil
  | some value =>
    rw [ofField_of_get?_eq_some schema span? hget]
    exact hvalues (_, value) (Entries.mem_of_get? hget) _ _

theorem pairwise_ofKeys {object : InputObjectType} {keys : List String} (hnodup : keys.Nodup) :
    (ofKeys span? object keys path).Pairwise CoercionError.Apart := by
  rw [ofKeys, List.pairwise_map]
  refine (hnodup.filter _).imp ?_
  intro key key' hne _
  exact ⟨key, key', object.name, object.fields.texts, hne, rfl, rfl⟩

theorem pairwise_ofObject (hvalid : schema.IsValid) {object : InputObjectType} {raw : Entries}
    (hnodup : (Entries.keys raw).Nodup)
    (hvalues : ∀ entry ∈ raw, ∀ type path,
      (ofJson schema span? entry.2 type path).Pairwise CoercionError.Apart) :
    (ofObject span? object (ofEntries schema span? raw) path).Pairwise CoercionError.Apart := by
  rw [ofObject, List.pairwise_append, List.pairwise_flatMap, keys_ofEntries]
  refine ⟨⟨fun field _ => pairwise_ofField hvalues, ?_⟩, pairwise_ofKeys hnodup, ?_⟩
  · -- Fields have different names, and so their faults have different paths.
    have hfields := List.pairwise_map.mp object.fields.nodup_texts
    refine hfields.imp ?_
    intro field field' hne e he e' he'
    have hname : PathElement.field field.name ≠ .field field'.name := fun heq =>
      hne (congrArg Name.text (PathElement.field.inj heq))
    exact .of_steps_ne hname (prefix_of_mem_ofField hvalid he) (prefix_of_mem_ofField hvalid he')
  · intro e he e' he' heq
    obtain ⟨field, -, hfield⟩ := List.mem_flatMap.mp he
    have hlonger := (prefix_of_mem_ofField hvalid hfield).length_le
    rw [heq, path_of_mem_ofKeys he', List.length_append, List.length_singleton] at hlonger
    omega

theorem pairwise_ofNamed (hvalid : schema.IsValid) {value : Json}
    (hvalue : value.mergeRepeats = value) {name : Name}
    (hvalues : ∀ entry ∈ value.entries, ∀ type path,
      (ofJson schema span? entry.2 type path).Pairwise CoercionError.Apart) :
    (ofNamed schema span? value (ofEntries schema span? value.entries) name path).Pairwise
      CoercionError.Apart := by
  have hsingle (problem : Problem) :
      [CoercionError.mk problem path span?].Pairwise CoercionError.Apart :=
    List.pairwise_singleton _ _
  cases found : schema.get? name.text with
  | none =>
    simp only [ofNamed, found]
    exact List.Pairwise.nil
  | some definition =>
    cases definition with
    | scalar type =>
      simp only [ofNamed, found]
      split
      · exact List.Pairwise.nil
      · exact hsingle _
    | enum type =>
      simp only [ofNamed, found]
      split
      · split
        · exact List.Pairwise.nil
        · exact hsingle _
      · exact hsingle _
    | inputObject object =>
      simp only [ofNamed, found]
      cases value with
      | object raw =>
        obtain ⟨hnodup, -⟩ := Json.mergeRepeats_object_eq_self_iff.mp hvalue
        exact pairwise_ofObject hvalid hnodup hvalues
      | _ => exact hsingle _
    | inputUnion type =>
      simp only [ofNamed, found]
      cases value with
      | object raw =>
        simp only
        split
        · obtain ⟨hnodup, -⟩ := Json.mergeRepeats_object_eq_self_iff.mp hvalue
          rw [erase_ofEntries]
          have hleft : (Entries.erase inputNameKey raw).Sublist raw := List.filter_sublist
          exact pairwise_ofObject hvalid (hnodup.sublist (hleft.map Prod.fst))
            fun entry hentry => hvalues entry (hleft.subset hentry)
        · exact hsingle _
      | _ => exact hsingle _

/-- The faults of a value that repeats no key are apart. -/
theorem pairwise_ofJson (hvalid : schema.IsValid) (type : InputType) (value : Json)
    (hvalue : value.mergeRepeats = value) (path : Path) :
    (ofJson schema span? value type path).Pairwise CoercionError.Apart := by
  induction type, value using Json.coercionInduction generalizing path with
  | null type =>
    rw [ofJson_null]
    split
    · exact List.pairwise_singleton _ _
    · exact List.Pairwise.nil
  | named name nonNull value hnull ih =>
    rw [ofJson_named schema span? hnull]
    have hentries := Json.mergeRepeats_of_mem_entries hvalue
    exact pairwise_ofNamed hvalid hvalue fun entry hentry type path =>
      ih entry hentry type (hentries entry hentry) path
  | list item nonNull items ih =>
    have hitems := Json.mergeRepeats_array_eq_self_iff.mp hvalue
    rw [ofJson_array_list, List.pairwise_flatten]
    constructor
    · intro faults hfaults
      obtain ⟨i, hi, rfl⟩ := List.mem_mapIdx.mp hfaults
      exact ih items[i] (List.getElem_mem hi) (hitems _ (List.getElem_mem hi)) _
    · rw [List.pairwise_iff_getElem]
      intro i j hi hj hlt e he e' he'
      rw [List.getElem_mapIdx] at he he'
      have hne : PathElement.index i ≠ .index j := fun heq =>
        absurd (PathElement.index.inj heq) (by omega)
      exact .of_steps_ne hne (prefix_of_mem_ofJson hvalid he) (prefix_of_mem_ofJson hvalid he')
  | single item nonNull value hsingle ih =>
    rw [ofJson_single schema span? hsingle]
    exact ih hvalue path

/-! ### Faults are in the value -/

theorem pointsInto_of_mem_ofJson (hvalid : schema.IsValid) {type : InputType} {value : Json}
    (h : e ∈ ofJson schema span? value type []) : e.PointsInto value := by
  obtain ⟨outer, type', part, inner, problem, hpart, hown, rfl⟩ :=
    exists_ownFault_of_mem_ofJson hvalid h
  rw [List.nil_append]
  have hat := hpart.at?_eq
  cases hown with
  | missingField variant selected declared absent required =>
    exact ⟨outer, _, _, rfl, hat, absent⟩
  | null | rejected | notEnumValue | notObject | unknownMember | undefinedField =>
    rw [List.append_nil]
    exact ⟨_, hat⟩

end Fault

namespace Coercion

variable {schema : Schema} {span? : Option Span}

/-- The levels of a list type leave no trace in the errors of a single value. -/
theorem coerceJson_eq_error_iff_of_isSingle {value : Json} (h : value.isSingle = true)
    (type : InputType) (path : Path) (failure : Failure) :
    coerceJson schema span? value type path = .error failure ↔
      coerceJson schema span? value (.named type.innerName true) path = .error failure := by
  induction type with
  | named name nonNull =>
    have hnull : value ≠ .null := by
      rintro rfl
      cases h
    rw [InputType.innerName, coerceJson_named schema span? hnull,
      coerceJson_named schema span? hnull]
  | list item nonNull ih => rw [coerceJson_single schema span? h, map_eq_error_iff, ih,
      InputType.innerName]

end Coercion

/-- With a valid schema every error of a value points into the value, at what is at fault, and two
errors of a value that repeats no key point at different places, unless they are about two keys of
one object that are both no fields. A single value has at a list type the errors that it has at the
named type inside. -/
theorem Schema.errors_pointInto_and_apart {schema : Schema} (hvalid : schema.IsValid)
    {type : InputType} (hdefined : (schema.get? type.innerName.text).isSome = true)
    {value? : Option Json} {span? : Option Span} {failure : Failure}
    (h : schema.coerce type value? span? = .error failure) :
    (∀ e ∈ failure.errors, e.PointsInto (value?.getD .null)) ∧
      ((value?.getD .null).mergeRepeats = value?.getD .null →
        failure.errors.Pairwise CoercionError.Apart) ∧
      ∀ value, value? = some value → value.isSingle = true →
        schema.coerce (.named type.innerName true) value? span? = .error failure := by
  have hreports : (schema.coerce type value? span?).Reports
      (Fault.ofJson schema span? (value?.getD .null) type []) :=
    Coercion.reports_coerceJson hvalid type (value?.getD .null) hdefined []
  rw [h] at hreports
  obtain ⟨-, rfl⟩ := hreports
  refine ⟨fun e he => Fault.pointsInto_of_mem_ofJson hvalid he,
    fun hvalue => Fault.pairwise_ofJson hvalid type _ hvalue [], ?_⟩
  rintro value rfl hsingle
  exact (Coercion.coerceJson_eq_error_iff_of_isSingle hsingle type [] _).mp h

/-- A dog with two keys that are no fields, and with a single friend that has no name. -/
def Schema.wingedDog : Json :=
  .object [("tail", .bool true), (inputNameKey, .string "Dog"), ("wings", .ofInt 2),
    ("friends", .object [(inputNameKey, .string "Cat")])]

/-- A list of litters, given as one dog: neither of the two lists around it is in a path. -/
theorem Schema.coerce_wingedDog_apart :
    pets.IsValid ∧ wingedDog.mergeRepeats = wingedDog ∧ wingedDog.isSingle = true ∧
      ∃ failure, pets.coerce (.list (.list petType true) true) (some wingedDog) none =
          .error failure ∧
        failure.errors.map CoercionError.path =
          [[.field ⟨"friends", rfl⟩, .field ⟨"name", rfl⟩], [], []] ∧
        (∀ e ∈ failure.errors, e.PointsInto wingedDog) ∧
        failure.errors.Pairwise CoercionError.Apart ∧
        pets.coerce petType (some wingedDog) none = .error failure := by
  have hdefined :
      (pets.get? (InputType.list (.list petType true) true).innerName.text).isSome = true := rfl
  have hmerged : wingedDog.mergeRepeats = wingedDog := rfl
  obtain ⟨failure, hfailure, hpaths⟩ :
      ∃ failure, pets.coerce (.list (.list petType true) true) (some wingedDog) none =
          .error failure ∧
        failure.errors.map CoercionError.path =
          [[.field ⟨"friends", rfl⟩, .field ⟨"name", rfl⟩], [], []] := ⟨_, rfl, rfl⟩
  obtain ⟨hinto, hapart, hsingle⟩ := errors_pointInto_and_apart pets_isValid hdefined hfailure
  exact ⟨pets_isValid, hmerged, rfl, failure, hfailure, hpaths, hinto, hapart hmerged,
    hsingle wingedDog rfl rfl⟩

end InputCoercion
