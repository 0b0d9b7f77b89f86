import InputCoercion.Schema.Basic
import Mathlib.Data.List.Basic

/-!
What a history of definitions leaves behind. A name keeps the place of its first definition, however
often it is defined again, and it stands for what it was last defined as, which may be of another
kind. The order of names matters beyond the schema: that of the fields of an input object is the
order of the keys of a coerced object, and of its errors.

Schemas, enums and input objects are all built from collections of this kind, so the law is proved
once, for one insertion and then along a list of them.
-/

namespace InputCoercion

/-! ### Insertions along a list -/

namespace Keyed

variable {α κ : Type} [DecidableEq κ] {key : α → κ}

/-- An insertion adds a key at the end, or none. -/
theorem keys_insert (a : α) (es : List α) :
    (insert key a es).map key =
      if key a ∈ es.map key then es.map key else es.map key ++ [key a] := by
  split
  · rename_i hmem
    induction es with
    | nil => cases hmem
    | cons e es ih =>
      rw [insert]
      split
      · rename_i he
        rw [List.map_cons, List.map_cons, he]
      · rename_i he
        have hrest : key a ∈ es.map key := by
          rw [List.map_cons, List.mem_cons] at hmem
          exact hmem.resolve_left (Ne.symm he)
        rw [List.map_cons, List.map_cons, ih hrest]
  · rename_i hnew
    rw [insert_of_not_mem hnew, List.map_append]
    rfl

/-- The keys that are there keep their places. Behind them come the new keys, each where it is first
inserted. -/
theorem keys_insertAll (es new : List α) :
    (insertAll key es new).map key =
      es.map key ++ ((new.map key).removeAll (es.map key)).eraseDups := by
  induction new generalizing es with
  | nil => simp [insertAll, List.removeAll]
  | cons a new ih =>
    show (insertAll key (insert key a es) new).map key = _
    rw [ih, keys_insert]
    split
    · rename_i hmem
      have hkeys : (key a :: new.map key).removeAll (es.map key) =
          (new.map key).removeAll (es.map key) := by
        rw [List.removeAll, List.filter_cons_of_neg (by simpa using hmem), List.removeAll]
      rw [List.map_cons, hkeys]
    · rename_i hnew
      have hkeys : (key a :: new.map key).removeAll (es.map key) =
          key a :: (new.map key).removeAll (es.map key) := by
        rw [List.removeAll, List.filter_cons_of_pos (by simpa using hnew), List.removeAll]
      have hrest : (new.map key).removeAll (es.map key ++ [key a]) =
          ((new.map key).removeAll (es.map key)).filter fun k => !k == key a := by
        rw [List.removeAll, List.removeAll, List.filter_filter]
        exact List.filter_congr fun k _ => by simp [Bool.and_comm, beq_eq_decide]
      rw [List.map_cons, hkeys, List.eraseDups_cons, hrest, List.append_assoc,
        List.singleton_append]

theorem find?_insert (a : α) (k : κ) (es : List α) :
    find? key k (insert key a es) = if key a = k then some a else find? key k es := by
  split
  · rename_i h
    rw [← h, find?_insert_self]
  · rename_i h
    exact find?_insert_of_ne h es

/-- Under a key there is what was last inserted under it, or else what was there before. -/
theorem find?_insertAll (k : κ) (es new : List α) :
    find? key k (insertAll key es new) =
      (new.findRev? fun a => key a = k).or (find? key k es) := by
  induction new generalizing es with
  | nil => rfl
  | cons a new ih =>
    show find? key k (insertAll key (insert key a es) new) = _
    rw [ih, find?_insert, List.findRev?]
    cases new.findRev? fun a => key a = k with
    | some b => rfl
    | none =>
      rw [Option.none_or]
      by_cases h : key a = k <;> simp [h]

end Keyed

/-! ### Definitions along a list -/

namespace Catalog

variable {α : Type} [Named α]

/-- The last of some named things that has a name. -/
def last? (name : String) (history : List α) : Option α :=
  history.findRev? fun a => Named.text a = name

theorem insert_name_eq_insert_text (a : α) (es : List α) :
    Keyed.insert Named.name a es = Keyed.insert Named.text a es := by
  have hkey (e : α) : Named.name e = Named.name a ↔ Named.text e = Named.text a :=
    Name.text_inj.symm
  induction es with
  | nil => rfl
  | cons e es ih => simp only [Keyed.insert, hkey, ih]

theorem entries_defineAll_text (c : Catalog α) (history : List α) :
    (c.defineAll history).entries = Keyed.insertAll Named.text c.entries history := by
  have hstep : (fun es (a : α) => Keyed.insert Named.name a es) =
      fun es a => Keyed.insert Named.text a es :=
    funext fun es => funext fun a => insert_name_eq_insert_text a es
  rw [entries_defineAll, Keyed.insertAll, hstep, Keyed.insertAll]

theorem names_defineAll (c : Catalog α) (history : List α) :
    (c.defineAll history).names =
      c.names ++ ((history.map Named.name).removeAll c.names).eraseDups := by
  rw [names, entries_defineAll, Keyed.keys_insertAll, names]

theorem get?_defineAll (c : Catalog α) (history : List α) (name : String) :
    (c.defineAll history).get? name = (last? name history).or (c.get? name) := by
  rw [get?, entries_defineAll_text, Keyed.find?_insertAll]
  rfl

/-- Whether a catalog is what a history of definitions leaves: no name occurs twice, the names are
in the order of their first definitions, and each stands for its last one. -/
structure Records (c : Catalog α) (history : List α) : Prop where
  nodup : c.names.Nodup
  names_eq : c.names = (history.map Named.name).eraseDups
  get?_eq : ∀ name, c.get? name = last? name history

theorem records_ofList (history : List α) : (ofList history).Records history where
  nodup := (ofList history).nodup
  names_eq := by
    have hall : (history.map Named.name).removeAll [] = history.map Named.name := by
      simp [List.removeAll]
    rw [ofList, names_defineAll]
    exact congrArg List.eraseDups hall
  get?_eq name := by
    rw [ofList, get?_defineAll]
    exact Option.or_none

/-- Histories are continued by further definitions. -/
theorem Records.defineAll {c : Catalog α} {history : List α} (h : c.Records history)
    (further : List α) : (c.defineAll further).Records (history ++ further) where
  nodup := (c.defineAll further).nodup
  names_eq := by
    rw [names_defineAll, h.names_eq, List.map_append, List.eraseDups_append]
    congr 2
    exact List.filter_congr fun name _ => by simp [List.mem_eraseDups]
  get?_eq name := by
    rw [get?_defineAll, h.get?_eq, last?, last?, last?, List.findRev?_eq_find?_reverse,
      List.findRev?_eq_find?_reverse, List.findRev?_eq_find?_reverse, List.reverse_append,
      List.find?_append]

end Catalog

/-! ### Schemas, enums and input objects -/

theorem InputObjectType.records_ofFields (name : Name) (fields : List InputField) :
    (ofFields name fields).fields.Records fields :=
  Catalog.records_ofList fields

theorem EnumType.records_ofValues (name : Name) (values : List Name) (set : List EnumValue) :
    (ofValues name values set).values.Records (values.map EnumValue.ofName ++ set) :=
  (Catalog.records_ofList (values.map EnumValue.ofName)).defineAll set

namespace Schema

/-- The scalars of every schema, as definitions. -/
def builtInDefinitions : List TypeDefinition :=
  ScalarParser.builtIn.map fun (name, parser) => .scalar ⟨name, parser⟩

theorem catalogRecords_ofDefinitions (definitions : List TypeDefinition) :
    (ofDefinitions definitions).types.Records (builtInDefinitions ++ definitions) :=
  (Catalog.records_ofList builtInDefinitions).defineAll definitions

/-- What a name was last defined as. A name that was not defined may be that of one of the five
scalars. -/
def lastDefinition? (definitions : List TypeDefinition) (name : String) :
    Option TypeDefinition :=
  (Catalog.last? name definitions).or <|
    (ScalarParser.builtIn.find? fun entry => entry.1.text = name).map fun (name, parser) =>
      .scalar ⟨name, parser⟩

/-- None of the five scalars is defined twice. -/
theorem last?_builtInDefinitions (name : String) :
    Catalog.last? name builtInDefinitions =
      (ScalarParser.builtIn.find? fun entry => entry.1.text = name).map fun (name, parser) =>
        .scalar ⟨name, parser⟩ := by
  have hfound := (Catalog.records_ofList builtInDefinitions).get?_eq name
  rw [← hfound, Catalog.ofList, Catalog.get?, Catalog.entries_defineAll_text]
  show (builtInDefinitions.find? fun a => Named.text a = name) = _
  rw [builtInDefinitions, List.find?_map]
  rfl

theorem last?_append (definitions : List TypeDefinition) (name : String) :
    Catalog.last? name (builtInDefinitions ++ definitions) = lastDefinition? definitions name := by
  rw [lastDefinition?, ← last?_builtInDefinitions, Catalog.last?, List.findRev?_eq_find?_reverse,
    List.reverse_append, List.find?_append, ← List.findRev?_eq_find?_reverse,
    ← List.findRev?_eq_find?_reverse]
  rfl

/-- Whether a schema is what a history of definitions leaves of the five scalars. -/
structure Records (schema : Schema) (definitions : List TypeDefinition) : Prop where
  nodup : schema.types.names.Nodup
  /-- The five scalars are followed by the other names in the order of their first definitions. -/
  names_eq : schema.types.names =
    [.int, .float, .string, .boolean, .id] ++
      ((definitions.map TypeDefinition.name).removeAll
        [.int, .float, .string, .boolean, .id]).eraseDups
  get?_eq : ∀ name, schema.get? name = lastDefinition? definitions name
  text_name : ∀ name definition, schema.get? name = some definition → definition.name.text = name
  scalar?_iff : ∀ name type,
    schema.scalar? name = some type ↔ lastDefinition? definitions name = some (.scalar type)
  enum?_iff : ∀ name type,
    schema.enum? name = some type ↔ lastDefinition? definitions name = some (.enum type)
  inputObject?_iff : ∀ name type, schema.inputObject? name = some type ↔
    lastDefinition? definitions name = some (.inputObject type)
  of_inputUnion : ∀ name type, lastDefinition? definitions name = some (.inputUnion type) →
    schema.scalar? name = none ∧ schema.enum? name = none ∧ schema.inputObject? name = none

theorem records_ofDefinitions (definitions : List TypeDefinition) :
    (ofDefinitions definitions).Records definitions := by
  have hrecords := catalogRecords_ofDefinitions definitions
  have hget (name : String) :
      (ofDefinitions definitions).get? name = lastDefinition? definitions name :=
    (hrecords.get?_eq name).trans (last?_append definitions name)
  refine ⟨hrecords.nodup, ?_, hget, fun name definition => Catalog.name_of_get?, ?_, ?_, ?_, ?_⟩
  · exact Catalog.names_defineAll builtIn.types definitions
  all_goals
    intro name type
    simp only [scalar?, enum?, inputObject?, hget]
    cases lastDefinition? definitions name with
    | none => simp
    | some definition =>
      cases definition <;>
        simp [TypeDefinition.scalar?, TypeDefinition.enum?, TypeDefinition.inputObject?]

/-- Over any history of definitions a name keeps the place of its first one and stands for its last
one, with the five scalars in front. A definition is found under its own name and as what it is, and
an input union neither as a scalar nor as an enum nor as an input object. The fields of an input
object and the values of an enum follow the same law. -/
theorem records_ofDefinitions_and_fields_and_values :
    (∀ definitions, (ofDefinitions definitions).Records definitions) ∧
      (∀ name fields, (InputObjectType.ofFields name fields).fields.Records fields) ∧
      ∀ name values set, (EnumType.ofValues name values set).values.Records
        (values.map EnumValue.ofName ++ set) :=
  ⟨records_ofDefinitions, InputObjectType.records_ofFields, EnumType.records_ofValues⟩

/-- Payments are given up for a choice between them, dates come in between, and integers become an
enum. -/
def changes : List TypeDefinition :=
  [.inputObject (.ofFields ⟨"Payment", rfl⟩ []), .scalar ⟨⟨"Date", rfl⟩, .any⟩,
    .inputUnion (.ofMembers ⟨"Payment", rfl⟩ [⟨"Card", rfl⟩]),
    .enum (.ofValues .int [⟨"ONE", rfl⟩] [])]

theorem changes_recorded :
    (ofDefinitions changes).types.names =
        [.int, .float, .string, .boolean, .id, ⟨"Payment", rfl⟩, ⟨"Date", rfl⟩] ∧
      (ofDefinitions changes).enum? "Int" = some (.ofValues .int [⟨"ONE", rfl⟩] []) ∧
      (ofDefinitions changes).scalar? "Int" = none ∧
      (ofDefinitions changes).inputObject? "Payment" = none := by
  obtain ⟨hrecords, -, -⟩ := records_ofDefinitions_and_fields_and_values
  have hchanges := hrecords changes
  have hint : (ofDefinitions changes).scalar? "Int" = none :=
    Option.eq_none_iff_forall_ne_some.mpr fun type hsome => by
      cases (hchanges.scalar?_iff "Int" type).mp hsome
  exact ⟨hchanges.names_eq, (hchanges.enum?_iff "Int" _).mpr rfl, hint,
    (hchanges.of_inputUnion "Payment" (.ofMembers ⟨"Payment", rfl⟩ [⟨"Card", rfl⟩]) rfl).2.2⟩

end Schema

end InputCoercion
