import InputCoercion.Proofs.Value.Recursion

/-!
Exactly which errors coercion reports. The faults of a value at a type are defined without coercion:
a fault adds itself to a list at the place where it is found, and the lists of the parts of a value
are appended in the order in which the parts are read. Nothing is accumulated, no failure is passed
on, and no part knows whether another has faults.

A valid schema coerces a value exactly if it has no fault, and otherwise reports its faults and
nothing else. No failure is ever without errors, so a failing part cannot vanish from a result.
-/

namespace InputCoercion

/-! ### The faults of a value -/

/-- The faults of a value that waits for its type and for the path that leads to it. -/
abbrev FaultFinder := InputType → Path → List CoercionError

namespace Fault

variable (schema : Schema) (span? : Option Span)

/-- The faults of a field: those of its value where it is given, and otherwise that it is missing
if it has to be there and has no default. -/
def ofField (given : List (String × FaultFinder)) (path : Path) (field : InputField) :
    List CoercionError :=
  match Keyed.find? Prod.fst (Named.text field) given with
  | some entry => entry.2 field.type (path ++ [.field field.name])
  | none =>
    if field.default? = none ∧ field.type.isNonNull = true then
      [⟨.missingField field.type, path ++ [.field field.name], span?⟩]
    else []

def ofKeys (object : InputObjectType) (keys : List String) (path : Path) : List CoercionError :=
  (keys.filter fun key => !object.fields.contains key).map fun key =>
    ⟨.undefinedField key object.name object.fields.texts, path, span?⟩

/-- The faults of the fields in the order of their declaration, and then those of the keys. -/
def ofObject (object : InputObjectType) (given : List (String × FaultFinder)) (path : Path) :
    List CoercionError :=
  object.fields.entries.flatMap (ofField span? given path) ++
    ofKeys span? object (given.map Prod.fst) path

def discriminator? (entries : Entries) : Option String :=
  Entries.get? inputNameKey entries >>= Json.string?

def namedMember? (type : InputUnionType) (entries : Entries) : Option InputObjectType :=
  (discriminator? entries).filter type.members.contains >>= schema.inputObject?

/-- The faults of a value that is not null at a named type. At an input union they are those of the
other entries at the member that is named. -/
def ofNamed (value : Json) (given : List (String × FaultFinder)) (name : Name) (path : Path) :
    List CoercionError :=
  let fault problem : List CoercionError := [⟨problem, path, span?⟩]
  match schema.get? name.text with
  | none => []
  | some (.scalar type) =>
    match type.parser.parseValue value with
    | .ok _ => []
    | .error error => fault (.rejected type.name error)
  | some (.enum type) =>
    match value with
    | .string text =>
      if type.values.contains text then []
      else fault (.notEnumValue type.name text type.values.texts)
    | value => fault (.notEnumValue type.name value.text type.values.texts)
  | some (.inputObject object) =>
    match value with
    | .object _ => ofObject span? object given path
    | _ => fault (.notObject object.name)
  | some (.inputUnion type) =>
    match value with
    | .object entries =>
      match namedMember? schema type entries with
      | some member => ofObject span? member (Keyed.erase Prod.fst inputNameKey given) path
      | none =>
        fault (.unknownMember type.name type.members.texts ((discriminator? entries).getD ""))
    | _ => fault (.notObject type.name)

mutual

/-- The faults of a value. One that is no list has at a list type those that it has at the named
type inside. -/
def ofJson : Json → FaultFinder
  | .null => fun type path => if type.isNonNull then [⟨.null type, path, span?⟩] else []
  | .bool value => fun type path => ofNamed schema span? (.bool value) [] type.innerName path
  | .number value => fun type path => ofNamed schema span? (.number value) [] type.innerName path
  | .string value => fun type path => ofNamed schema span? (.string value) [] type.innerName path
  | .array items => fun type path =>
    match type with
    | .named name _ => ofNamed schema span? (.array items) [] name path
    | .list item _ => ofItems items item path 0
  | .object entries => fun type path =>
    ofNamed schema span? (.object entries) (ofEntries entries) type.innerName path

/-- The faults of the items of a list from a position on. -/
def ofItems : List Json → InputType → Path → Nat → List CoercionError
  | [], _, _, _ => []
  | item :: items, type, path, position =>
    ofJson item type (path ++ [.index position]) ++ ofItems items type path (position + 1)

/-- The entries of an object, with the faults of values that wait for their types. -/
def ofEntries : List (String × Json) → List (String × FaultFinder)
  | [] => []
  | (key, value) :: entries => (key, ofJson value) :: ofEntries entries

end

/-! One step for each rule, as for coercion. -/

theorem ofItems_eq (items : List Json) (type : InputType) (path : Path) (position : Nat) :
    ofItems schema span? items type path position =
      (items.mapIdx fun i item =>
        ofJson schema span? item type (path ++ [.index (position + i)])).flatten := by
  induction items generalizing position with
  | nil => rfl
  | cons item items ih =>
    rw [ofItems, ih, List.mapIdx_cons, List.flatten_cons]
    simp only [Nat.add_zero, Nat.add_assoc, Nat.add_comm 1]

theorem ofEntries_eq_map (entries : Entries) :
    ofEntries schema span? entries =
      entries.map fun entry => (entry.1, ofJson schema span? entry.2) := by
  induction entries with
  | nil => rfl
  | cons entry entries ih => rw [ofEntries, ih, List.map_cons]

theorem erase_ofEntries (key : String) (entries : Entries) :
    Keyed.erase Prod.fst key (ofEntries schema span? entries) =
      ofEntries schema span? (Entries.erase key entries) := by
  rw [ofEntries_eq_map, ofEntries_eq_map, Keyed.erase_map_snd, Entries.erase]

/-- A field that is given has the faults of its value. -/
theorem ofField_of_get?_eq_some {raw : Entries} {field : InputField} {value : Json}
    (h : Entries.get? (Named.text field) raw = some value) (path : Path) :
    ofField span? (ofEntries schema span? raw) path field =
      ofJson schema span? value field.type (path ++ [.field field.name]) := by
  obtain ⟨entry, hfind, rfl⟩ := Option.map_eq_some_iff.mp h
  rw [ofField, ofEntries_eq_map, Keyed.find?_map_snd, hfind]
  rfl

theorem ofField_of_get?_eq_none {raw : Entries} {field : InputField}
    (h : Entries.get? (Named.text field) raw = none) (path : Path) :
    ofField span? (ofEntries schema span? raw) path field =
      if field.default? = none ∧ field.type.isNonNull = true then
        [⟨.missingField field.type, path ++ [.field field.name], span?⟩]
      else [] := by
  rw [ofField, ofEntries_eq_map, Keyed.find?_map_snd, Option.map_eq_none_iff.mp h]
  rfl

theorem keys_ofEntries (entries : Entries) :
    (ofEntries schema span? entries).map Prod.fst = Entries.keys entries := by
  simp [ofEntries_eq_map, Entries.keys]

@[simp] theorem ofJson_null (type : InputType) (path : Path) :
    ofJson schema span? .null type path =
      if type.isNonNull then [⟨.null type, path, span?⟩] else [] := by
  rw [ofJson]

theorem ofJson_named {value : Json} (h : value ≠ .null) (name : Name) (nonNull : Bool)
    (path : Path) :
    ofJson schema span? value (.named name nonNull) path =
      ofNamed schema span? value (ofEntries schema span? value.entries) name path := by
  cases value with
  | null => exact absurd rfl h
  | _ => rw [ofJson]; rfl

theorem ofJson_array_list (items : List Json) (item : InputType) (nonNull : Bool) (path : Path) :
    ofJson schema span? (.array items) (.list item nonNull) path =
      (items.mapIdx fun i value =>
        ofJson schema span? value item (path ++ [.index i])).flatten := by
  rw [ofJson]
  simp only [ofItems_eq, Nat.zero_add]

/-- A single value has at a list type the faults that it has at the type of the items. -/
theorem ofJson_single {value : Json} (h : value.isSingle = true) (item : InputType)
    (nonNull : Bool) (path : Path) :
    ofJson schema span? value (.list item nonNull) path =
      ofJson schema span? value item path := by
  cases value with
  | null | array items => simp [Json.isSingle] at h
  | _ => simp only [ofJson, InputType.innerName]

end Fault

/-- The faults of a value at a type. A value that is not given counts as null. -/
def Schema.faults (schema : Schema) (span? : Option Span) (type : InputType)
    (value? : Option Json) : List CoercionError :=
  Fault.ofJson schema span? (value?.getD .null) type []

end InputCoercion
