import InputCoercion.Proofs.Literal.Conversion
import InputCoercion.Proofs.Literal.Numeral

/-!
The parts of a literal in its conversion without a type. A number without a value in JSON, anywhere
in a literal, leaves the whole literal without a value, and nothing else does but an unbound
variable that is the whole literal. Where there is a value, every list and every object inside is
found in it with all its parts, except that an unbound variable is null in a list and left out of an
object.
-/

namespace InputCoercion

namespace Literal

/-! ### Parts -/

/-- Whether a literal is another one or stands somewhere inside it. -/
inductive Inside (part : Literal) : Literal → Prop
  | self : Inside part part
  | item {literal item : Literal} (mem : item ∈ literal.items) (inner : Inside part item) :
      Inside part literal
  | field {literal : Literal} {field : Name × Literal} (mem : field ∈ literal.fields)
      (inner : Inside part field.2) : Inside part literal

theorem Inside.trans {a b c : Literal} (hab : Inside a b) (hbc : Inside b c) : Inside a c := by
  induction hbc with
  | self => exact hab
  | item mem _ ih => exact .item mem ih
  | field mem _ ih => exact .field mem ih

/-- How a number literal is written. -/
def numberText? : Literal → Option String
  | int numeral => some numeral.text
  | float numeral => some numeral.text
  | _ => none

/-- Whether a literal is a number that JSON does not have. -/
def IsUnreadable (literal : Literal) : Prop :=
  ∃ text, literal.numberText? = some text ∧ Number.IsUnreadable text

/-- Whether a number that JSON does not have stands in a literal. -/
def HasUnreadable (literal : Literal) : Prop :=
  ∃ part, Inside part literal ∧ part.IsUnreadable

theorem hasUnreadable_iff {literal : Literal} :
    literal.HasUnreadable ↔
      literal.IsUnreadable ∨ (∃ item ∈ literal.items, item.HasUnreadable) ∨
        ∃ field ∈ literal.fields, field.2.HasUnreadable := by
  constructor
  · rintro ⟨part, hinside, hpart⟩
    cases hinside with
    | self => exact .inl hpart
    | item mem inner => exact .inr (.inl ⟨_, mem, part, inner, hpart⟩)
    | field mem inner => exact .inr (.inr ⟨_, mem, part, inner, hpart⟩)
  · rintro (hself | ⟨item, hmem, part, hinside, hpart⟩ | ⟨field, hmem, part, hinside, hpart⟩)
    · exact ⟨literal, .self, hself⟩
    · exact ⟨part, .item hmem hinside, hpart⟩
    · exact ⟨part, .field hmem hinside, hpart⟩

theorem Inside.hasUnreadable {part literal : Literal} (h : Inside part literal)
    (hpart : part.HasUnreadable) : literal.HasUnreadable := by
  obtain ⟨inner, hinner, hunreadable⟩ := hpart
  exact ⟨inner, hinner.trans h, hunreadable⟩

end Literal

/-! ### Numbers -/

/-- The text of an integer literal is a JSON number, and denotes the same integer there. -/
theorem IntegerText.jsonNumber {cs : List Char} {k : ℤ} (h : IntegerText cs k) :
    JsonNumber cs k := by
  have hmagnitude {cs : List Char} (hwhole : IsWhole cs) :
      JsonMagnitude cs (Numeral.ofDigits cs) := by
    simpa using JsonMagnitude.intro hwhole .none .none
  cases h with
  | unsigned h => exact_mod_cast JsonNumber.unsigned (hmagnitude h)
  | negative h => exact_mod_cast JsonNumber.negative (hmagnitude h)

/-- A text denotes one magnitude at most. -/
theorem JsonNumber.abs_eq {cs : List Char} {x y : ℚ} (hx : JsonNumber cs x)
    (hy : JsonNumber cs y) : |x| = |y| := by
  obtain ⟨n, hn, -, habsx⟩ := Numeral.exists_ofChars?_of_jsonNumber hx
  obtain ⟨m, hm, -, habsy⟩ := Numeral.exists_ofChars?_of_jsonNumber hy
  obtain rfl := Option.some.inj (hn.symm.trans hm)
  rw [habsx, habsy]

/-- An integer literal has a number in JSON if and only if its text is one. -/
theorem IntNumeral.toNumber?_eq_none_iff_isUnreadable (n : IntNumeral) :
    n.toNumber? = none ↔ Number.IsUnreadable n.text := by
  have hnumber := n.integerText_text.jsonNumber
  rw [toNumber?_eq_none_iff]
  constructor
  · exact fun hbound => .inr ⟨_, hnumber, hbound⟩
  · rintro (hrejected | ⟨x, hx, hbound⟩)
    · exact absurd ⟨_, hnumber⟩ hrejected
    · rwa [hnumber.abs_eq hx]

namespace Literal

variable {vars : Entries}

/-! ### Where conversion fails -/

theorem isMissingVariable_iff {literal : Literal} :
    literal.isMissingVariable vars = true ↔
      ∃ name, literal = .var name ∧ Entries.get? name.text vars = none := by
  cases literal <;> simp [isMissingVariable, Entries.contains]

theorem itemToJson?_eq_none_iff {item : Literal} :
    itemToJson? vars item = none ↔ item.isGiven vars = true ∧ item.toJson? vars = none := by
  cases hgiven : item.isGiven vars with
  | true => simp [itemToJson?_of_isGiven hgiven]
  | false => simp [itemToJson?_of_not_isGiven hgiven]

theorem toJson?_list_eq_none_iff {items : List Literal} :
    (list items).toJson? vars = none ↔
      ∃ item ∈ items, item.isGiven vars = true ∧ item.toJson? vars = none := by
  have hsome := (@exists_toJson?_list_iff vars items).not
  simp only [← itemToJson?_eq_none_iff]
  simpa [Option.eq_none_iff_forall_ne_some] using hsome

theorem toJson?_object_eq_none_iff {fields : List (Name × Literal)} :
    (object fields).toJson? vars = none ↔
      ∃ field ∈ fields, field.2.isGiven vars = true ∧ field.2.toJson? vars = none := by
  have hsome := (@exists_toJson?_object_iff vars fields).not
  simpa [Option.eq_none_iff_forall_ne_some, givenFields, and_assoc] using hsome

/-- Nothing stands inside a variable. -/
theorem HasUnreadable.isGiven {literal : Literal} (h : literal.HasUnreadable) :
    literal.isGiven vars = true := by
  cases literal with
  | var name =>
    rw [hasUnreadable_iff] at h
    simp [IsUnreadable, numberText?, items, fields] at h
  | _ => rfl

/-- A part fails the list or object around it if it is given and has no value. If only a number can
be to blame for that, it is the same as such a number in the part. -/
theorem isGiven_and_toJson?_eq_none_iff {literal : Literal}
    (h : literal.toJson? vars = none ↔
      literal.isMissingVariable vars = true ∨ literal.HasUnreadable) :
    literal.isGiven vars = true ∧ literal.toJson? vars = none ↔ literal.HasUnreadable := by
  rw [h]
  constructor
  · rintro ⟨hgiven, hmissing | hunreadable⟩
    · simp [isGiven, hmissing] at hgiven
    · exact hunreadable
  · exact fun hunreadable => ⟨hunreadable.isGiven, .inr hunreadable⟩

/-- A literal has no value if and only if it is an unbound variable or a number that JSON does not
have stands in it. -/
theorem toJson?_eq_none_iff (literal : Literal) :
    literal.toJson? vars = none ↔
      literal.isMissingVariable vars = true ∨ literal.HasUnreadable := by
  induction literal using Literal.induction with
  | step literal ihItems ihFields =>
    rw [hasUnreadable_iff]
    cases literal with
    | list items =>
      rw [toJson?_list_eq_none_iff]
      simp only [isMissingVariable, IsUnreadable, numberText?, fields, Bool.false_eq_true,
        reduceCtorEq, false_and, exists_false, false_or, List.not_mem_nil, or_false]
      exact exists_congr fun item => and_congr_right fun hmem =>
        isGiven_and_toJson?_eq_none_iff (ihItems item hmem)
    | object fields =>
      rw [toJson?_object_eq_none_iff]
      simp only [isMissingVariable, IsUnreadable, numberText?, items, Bool.false_eq_true,
        reduceCtorEq, false_and, exists_false, false_or, List.not_mem_nil]
      exact exists_congr fun field => and_congr_right fun hmem =>
        isGiven_and_toJson?_eq_none_iff (ihFields field hmem)
    | int numeral =>
      rw [toJson?, Option.map_eq_map, Option.map_eq_none_iff,
        IntNumeral.toNumber?_eq_none_iff_isUnreadable]
      simp [isMissingVariable, IsUnreadable, numberText?, items, fields]
    | float numeral =>
      rw [toJson?, Option.map_eq_map, Option.map_eq_none_iff, FloatNumeral.toNumber?,
        Number.ofString?_eq_none_iff]
      simp [isMissingVariable, IsUnreadable, numberText?, items, fields]
    | var name =>
      simp [toJson?, isMissingVariable, IsUnreadable, numberText?, items, fields, Entries.contains]
    | _ => simp [toJson?, isMissingVariable, IsUnreadable, numberText?, items, fields]

/-! ### What conversion keeps -/

/-- A list or object inside a literal with a value has a value too. -/
theorem Inside.exists_toJson? {part literal : Literal} (h : Inside part literal)
    (hgiven : part.isGiven vars = true) {w : Json} (hw : literal.toJson? vars = some w) :
    ∃ v, part.toJson? vars = some v := by
  rw [← Option.isSome_iff_exists, ← Option.ne_none_iff_isSome, Ne, toJson?_eq_none_iff]
  rintro (hmissing | hunreadable)
  · simp [isGiven, hmissing] at hgiven
  · have hnone : literal.toJson? vars = none :=
      (toJson?_eq_none_iff literal).mpr (.inr (h.hasUnreadable hunreadable))
    cases hw.symm.trans hnone

/-- Whether values are those of the items of a list: null for an unbound variable, and otherwise the
value that the item has by itself. -/
def KeepsItems (vars : Entries) (items : List Literal) (values : List Json) : Prop :=
  values.length = items.length ∧
    ∀ (i : ℕ) (item : Literal), items[i]? = some item →
      values[i]? = if item.isMissingVariable vars then some .null else item.toJson? vars

/-- Whether entries are those of the fields of an object, in their order and without the unbound
variables, with the value that each field has by itself. -/
def KeepsFields (vars : Entries) (fields : List (Name × Literal)) (entries : Entries) : Prop :=
  Entries.keys entries = (givenFields vars fields).map (fun field => field.1.text) ∧
    ∀ field ∈ givenFields vars fields,
      Entries.get? field.1.text entries = field.2.toJson? vars

theorem keepsItems_of_map_itemToJson? {items : List Literal} {values : List Json}
    (h : items.map (itemToJson? vars) = values.map some) : KeepsItems vars items values := by
  refine ⟨by simpa using (congrArg List.length h).symm, fun i item hitem => ?_⟩
  have hvalue : (items.map (itemToJson? vars))[i]? = (values.map some)[i]? := by rw [h]
  rw [List.getElem?_map, List.getElem?_map, hitem, Option.map_some] at hvalue
  obtain ⟨value, hi, hitem⟩ := Option.map_eq_some_iff.mp hvalue.symm
  rw [hi, hitem, itemToJson?]

/-- Under distinct names all entries of an object are kept. -/
theorem keepsFields_of_map_fieldToJson? {fields : List (Name × Literal)} {entries : Entries}
    (distinct : (fields.map Prod.fst).Nodup)
    (h : (givenFields vars fields).map (fieldToJson? vars) = entries.map some) :
    Entries.ofList entries = entries ∧ KeepsFields vars fields entries := by
  have hkeys := keys_eq_of_map_fieldToJson? h
  have hnodup : (Entries.keys entries).Nodup := hkeys ▸ nodup_texts_givenFields vars distinct
  refine ⟨Keyed.insertAll_of_nodup hnodup, hkeys, fun field hfield => ?_⟩
  obtain ⟨entry, hentry⟩ := exists_map_eq_map_some_iff.mp ⟨entries, h⟩ field hfield
  obtain ⟨hname, hvalue⟩ := fieldToJson?_eq_some_iff.mp hentry
  have hmem := (mem_entries_iff_of_map_fieldToJson? h).mpr ⟨field, hfield, hname, hvalue⟩
  rw [hname, hvalue, Entries.get?, Keyed.find?_eq_some_of_mem hnodup hmem, Option.map_some]

/-- A literal has no value exactly where it must not have one: it is an unbound variable itself, or
a number stands in it whose text is no JSON number or one beyond all floats. And where it has a
value nothing is lost. Every list inside is an array with a value for each item, and every object
inside without repeated names has its given fields in the order in which they are written. -/
theorem toJson?_eq_none_iff_and_keeps (vars : Entries) (literal : Literal) :
    (literal.toJson? vars = none ↔
      (∃ name, literal = .var name ∧ Entries.get? name.text vars = none) ∨
        ∃ part text, Inside part literal ∧ part.numberText? = some text ∧
          Number.IsUnreadable text) ∧
      ∀ w, literal.toJson? vars = some w →
        (∀ items, Inside (.list items) literal →
          ∃ values, (list items).toJson? vars = some (.array values) ∧
            KeepsItems vars items values) ∧
        ∀ fields, Inside (.object fields) literal → (fields.map Prod.fst).Nodup →
          ∃ entries, (object fields).toJson? vars = some (.object entries) ∧
            KeepsFields vars fields entries := by
  refine ⟨?_, fun w hw => ⟨fun items hinside => ?_, fun fields hinside distinct => ?_⟩⟩
  · rw [toJson?_eq_none_iff, isMissingVariable_iff]
    simp only [HasUnreadable, IsUnreadable, exists_and_left]
  · obtain ⟨v, hv⟩ := hinside.exists_toJson? rfl hw
    obtain ⟨values, hvalues, rfl⟩ := toJson?_list_eq_some_iff.mp hv
    exact ⟨values, hv, keepsItems_of_map_itemToJson? hvalues⟩
  · obtain ⟨v, hv⟩ := hinside.exists_toJson? rfl hw
    obtain ⟨entries, hentries, rfl⟩ := toJson?_object_eq_some_iff.mp hv
    obtain ⟨hall, hkeeps⟩ := keepsFields_of_map_fieldToJson? distinct hentries
    exact ⟨entries, hall ▸ hv, hkeeps⟩

/-- An object with an unbound variable of its own, and one in a list. -/
def taggedLiteral : Literal :=
  object [(⟨"tags", rfl⟩, list [string "new", var ⟨"tag", rfl⟩]),
    (⟨"origin", rfl⟩, var ⟨"origin", rfl⟩)]

theorem taggedLiteral_keeps :
    taggedLiteral.toJson? [] = some (.object [("tags", .array [.string "new", .null])]) ∧
      Inside (.list [string "new", var ⟨"tag", rfl⟩]) taggedLiteral ∧
      KeepsItems [] [string "new", var ⟨"tag", rfl⟩] [.string "new", .null] ∧
      ∃ entries, taggedLiteral.toJson? [] = some (.object entries) ∧
        KeepsFields [] taggedLiteral.fields entries := by
  have hvalue :
      taggedLiteral.toJson? [] = some (.object [("tags", .array [.string "new", .null])]) := rfl
  have hinside : Inside (.list [string "new", var ⟨"tag", rfl⟩]) taggedLiteral :=
    .field List.mem_cons_self .self
  obtain ⟨hlists, hobjects⟩ := (toJson?_eq_none_iff_and_keeps [] taggedLiteral).2 _ hvalue
  obtain ⟨values, hvalues, hkeeps⟩ := hlists _ hinside
  cases hvalues
  exact ⟨hvalue, hinside, hkeeps, hobjects _ .self (by decide)⟩

end Literal

end InputCoercion
