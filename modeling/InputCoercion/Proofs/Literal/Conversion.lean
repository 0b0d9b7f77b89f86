import InputCoercion.Proofs.Literal.Recursion

/-!
The conversion of a literal without a type, in terms of what is right inside. A list has a value if
all its items have one, where an unbound variable counts as null. An object has a value if all its
given fields have one, which are those that hold no unbound variable.
-/

namespace InputCoercion

/-- A list is mapped to values throughout if each of its elements is. -/
theorem exists_map_eq_map_some_iff {α β : Type} {f : α → Option β} {l : List α} :
    (∃ values : List β, l.map f = values.map some) ↔ ∀ a ∈ l, ∃ b, f a = some b := by
  induction l with
  | nil => exact ⟨fun _ a ha => absurd ha List.not_mem_nil, fun _ => ⟨[], rfl⟩⟩
  | cons a l ih =>
    rw [List.forall_mem_cons, ← ih]
    constructor
    · rintro ⟨values, h⟩
      obtain ⟨b, rest, rfl, hb, hrest⟩ := List.map_eq_cons_iff.mp h.symm
      exact ⟨⟨b, hb.symm⟩, rest, hrest.symm⟩
    · rintro ⟨⟨b, hb⟩, values, h⟩
      exact ⟨b :: values, by rw [List.map_cons, List.map_cons, hb, h]⟩

namespace Literal

variable (vars : Entries)

/-- Whether a literal is anything but an unbound variable. -/
def isGiven (literal : Literal) : Bool :=
  !literal.isMissingVariable vars

/-- The fields of an object literal that are given. -/
def givenFields (fields : List (Name × Literal)) : List (Name × Literal) :=
  fields.filter fun field => field.2.isGiven vars

/-- What an item of a list is converted to. -/
def itemToJson? (item : Literal) : Option Json :=
  if item.isMissingVariable vars then some .null else item.toJson? vars

/-- The entry that a given field is converted to. -/
def fieldToJson? (field : Name × Literal) : Option (String × Json) :=
  (field.2.toJson? vars).map fun value => (field.1.text, value)

/-- Fields that are given under distinct names have distinct texts. -/
theorem nodup_texts_givenFields {fields : List (Name × Literal)}
    (distinct : (fields.map Prod.fst).Nodup) :
    ((givenFields vars fields).map fun field => field.1.text).Nodup := by
  have hgiven : ((givenFields vars fields).map Prod.fst).Nodup :=
    (List.filter_sublist.map Prod.fst).nodup distinct
  have htexts : ((givenFields vars fields).map fun field => field.1.text) =
      ((givenFields vars fields).map Prod.fst).map Name.text := by
    rw [List.map_map]
    rfl
  rw [htexts]
  exact List.Pairwise.map Name.text (fun _ _ hne heq => hne (Name.ext heq)) hgiven

variable {vars}

theorem itemToJson?_of_isGiven {item : Literal} (h : item.isGiven vars = true) :
    itemToJson? vars item = item.toJson? vars := by
  rw [isGiven, Bool.not_eq_true'] at h
  rw [itemToJson?, h]
  rfl

theorem itemToJson?_of_not_isGiven {item : Literal} (h : item.isGiven vars = false) :
    itemToJson? vars item = some .null := by
  rw [isGiven, Bool.not_eq_false'] at h
  rw [itemToJson?, h]
  rfl

theorem fieldToJson?_eq_some_iff {field : Name × Literal} {entry : String × Json} :
    fieldToJson? vars field = some entry ↔
      field.1.text = entry.1 ∧ field.2.toJson? vars = some entry.2 := by
  rw [fieldToJson?, Option.map_eq_some_iff]
  constructor
  · rintro ⟨value, hvalue, rfl⟩
    exact ⟨rfl, hvalue⟩
  · rintro ⟨hname, hvalue⟩
    exact ⟨entry.2, hvalue, Prod.ext hname rfl⟩

theorem itemsToJson?_cons (item : Literal) (items : List Literal) :
    itemsToJson? vars (item :: items) =
      (itemToJson? vars item).bind fun value => (itemsToJson? vars items).map (value :: ·) := by
  simp only [itemsToJson?, itemToJson?, Option.map_eq_bind]
  split <;> rfl

theorem itemsToJson?_eq_some_iff {items : List Literal} {values : List Json} :
    itemsToJson? vars items = some values ↔ items.map (itemToJson? vars) = values.map some := by
  induction items generalizing values with
  | nil => cases values <;> simp [itemsToJson?]
  | cons item items ih =>
    rw [itemsToJson?_cons, List.map_cons]
    simp only [Option.bind_eq_some_iff, Option.map_eq_some_iff, ih]
    constructor
    · rintro ⟨value, hvalue, rest, hrest, rfl⟩
      rw [hvalue, hrest, List.map_cons]
    · intro h
      obtain ⟨value, rest, rfl, hvalue, hrest⟩ := List.map_eq_cons_iff.mp h.symm
      exact ⟨value, hvalue.symm, rest, hrest.symm, rfl⟩

theorem fieldsToJson?_cons (field : Name × Literal) (fields : List (Name × Literal)) :
    fieldsToJson? vars (field :: fields) =
      if field.2.isGiven vars then
        (fieldToJson? vars field).bind fun entry => (fieldsToJson? vars fields).map (entry :: ·)
      else fieldsToJson? vars fields := by
  simp only [fieldsToJson?, isGiven, fieldToJson?, Option.map_eq_bind]
  cases field.2.isMissingVariable vars with
  | true => rfl
  | false => cases field.2.toJson? vars <;> rfl

theorem fieldsToJson?_eq_some_iff {fields : List (Name × Literal)} {entries : Entries} :
    fieldsToJson? vars fields = some entries ↔
      (givenFields vars fields).map (fieldToJson? vars) = entries.map some := by
  induction fields generalizing entries with
  | nil => cases entries <;> simp [fieldsToJson?, givenFields]
  | cons field fields ih =>
    rw [fieldsToJson?_cons, givenFields, List.filter_cons]
    split
    · simp only [Option.bind_eq_some_iff, Option.map_eq_some_iff, ih, List.map_cons]
      constructor
      · rintro ⟨entry, hentry, rest, hrest, rfl⟩
        rw [hentry, List.map_cons, ← hrest, givenFields]
      · intro h
        obtain ⟨entry, rest, rfl, hentry, hrest⟩ := List.map_eq_cons_iff.mp h.symm
        exact ⟨entry, hentry.symm, rest, hrest.symm, rfl⟩
    · exact ih

/-- Fields that are converted give their names to their entries. -/
theorem keys_eq_of_map_fieldToJson? {fields : List (Name × Literal)} {entries : Entries}
    (h : fields.map (fieldToJson? vars) = entries.map some) :
    Entries.keys entries = fields.map fun field => field.1.text := by
  induction fields generalizing entries with
  | nil => rw [List.map_eq_nil_iff.mp h.symm, Entries.keys, List.map_nil, List.map_nil]
  | cons field fields ih =>
    obtain ⟨entry, rest, rfl, hentry, hrest⟩ := List.map_eq_cons_iff.mp h.symm
    have hname := (fieldToJson?_eq_some_iff.mp hentry.symm).1
    rw [List.map_cons, ← ih hrest.symm, hname]
    rfl

theorem mem_entries_iff_of_map_fieldToJson? {fields : List (Name × Literal)} {entries : Entries}
    (h : fields.map (fieldToJson? vars) = entries.map some) {entry : String × Json} :
    entry ∈ entries ↔
      ∃ field ∈ fields, field.1.text = entry.1 ∧ field.2.toJson? vars = some entry.2 := by
  have hmem : some entry ∈ entries.map some ↔ entry ∈ entries := by simp
  rw [← hmem, ← h, List.mem_map]
  simp only [fieldToJson?_eq_some_iff]

theorem toJson?_list_eq_some_iff {items : List Literal} {w : Json} :
    (list items).toJson? vars = some w ↔
      ∃ values, items.map (itemToJson? vars) = values.map some ∧ w = .array values := by
  rw [toJson?, Option.map_eq_map, Option.map_eq_some_iff]
  simp only [itemsToJson?_eq_some_iff, eq_comm (b := w)]

theorem toJson?_object_eq_some_iff {fields : List (Name × Literal)} {w : Json} :
    (object fields).toJson? vars = some w ↔
      ∃ entries, (givenFields vars fields).map (fieldToJson? vars) = entries.map some ∧
        w = .object (Entries.ofList entries) := by
  rw [toJson?, Option.map_eq_map, Option.map_eq_some_iff]
  simp only [fieldsToJson?_eq_some_iff, Function.comp_apply, eq_comm (b := w)]

/-- A list has a value if and only if every item has one. -/
theorem exists_toJson?_list_iff {items : List Literal} :
    (∃ w, (list items).toJson? vars = some w) ↔
      ∀ item ∈ items, ∃ w, itemToJson? vars item = some w := by
  rw [← exists_map_eq_map_some_iff]
  simp only [toJson?_list_eq_some_iff]
  exact ⟨fun ⟨_, values, h, _⟩ => ⟨values, h⟩, fun ⟨values, h⟩ => ⟨_, values, h, rfl⟩⟩

/-- An object has a value if and only if every given field has one. -/
theorem exists_toJson?_object_iff {fields : List (Name × Literal)} :
    (∃ w, (object fields).toJson? vars = some w) ↔
      ∀ field ∈ givenFields vars fields, ∃ w, field.2.toJson? vars = some w := by
  have hfield (field : Name × Literal) :
      (∃ entry, fieldToJson? vars field = some entry) ↔ ∃ w, field.2.toJson? vars = some w := by
    simp only [fieldToJson?_eq_some_iff]
    exact ⟨fun ⟨entry, _, h⟩ => ⟨entry.2, h⟩, fun ⟨w, h⟩ => ⟨(_, w), rfl, h⟩⟩
  simp only [← hfield, ← exists_map_eq_map_some_iff, toJson?_object_eq_some_iff]
  exact ⟨fun ⟨_, entries, h, _⟩ => ⟨entries, h⟩, fun ⟨entries, h⟩ => ⟨_, entries, h, rfl⟩⟩

end Literal

end InputCoercion
