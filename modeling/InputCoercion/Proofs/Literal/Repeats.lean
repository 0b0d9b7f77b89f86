import InputCoercion.Proofs.Literal.Conversion

/-!
Repeated fields in the conversion of a literal without a type. The last occurrence decides the value
and the first decides the position. An occurrence that holds an unbound variable is none, since its
field is left out. And the other occurrences have to be convertible all the same: where one of them
has no value, neither has the literal, even if its field is given again later.

So a literal has the value that it has when the repeats in it are merged, if everything that merging
drops has a value by itself, and otherwise it has none.
-/

namespace InputCoercion.Literal

/-! ### Merging -/

mutual

/-- Puts the fields of every object in a literal under the rule of insertion: a repeated field keeps
its first position and its last value. Only those fields are kept whose values count. -/
def mergeRepeats (counts : Literal → Bool) : Literal → Literal
  | list items => list (mergeItems counts items)
  | object fields => object (Keyed.ofList Prod.fst (mergeFields counts fields))
  | literal => literal

def mergeItems (counts : Literal → Bool) : List Literal → List Literal
  | [] => []
  | item :: items => item.mergeRepeats counts :: mergeItems counts items

def mergeFields (counts : Literal → Bool) : List (Name × Literal) → List (Name × Literal)
  | [] => []
  | (name, value) :: fields =>
    if counts value then (name, value.mergeRepeats counts) :: mergeFields counts fields
    else mergeFields counts fields

end

variable {counts : Literal → Bool} {vars : Entries}

theorem mergeItems_eq_map (items : List Literal) :
    mergeItems counts items = items.map (mergeRepeats counts) := by
  induction items with
  | nil => rfl
  | cons item items ih => rw [mergeItems, ih, List.map_cons]

theorem mergeFields_eq_map (fields : List (Name × Literal)) :
    mergeFields counts fields =
      (fields.filter fun field => counts field.2).map fun field =>
        (field.1, field.2.mergeRepeats counts) := by
  induction fields with
  | nil => rfl
  | cons field fields ih =>
    rw [mergeFields, List.filter_cons, ih]
    split <;> rfl

@[simp] theorem isGiven_mergeRepeats (literal : Literal) :
    (literal.mergeRepeats counts).isGiven vars = literal.isGiven vars := by
  cases literal <;> rfl

/-- Merging the fields of an object that are given leaves none that is not. -/
theorem givenFields_ofList_mergeFields (fields : List (Name × Literal)) :
    givenFields vars (Keyed.ofList Prod.fst (mergeFields (isGiven vars) fields)) =
      Keyed.ofList Prod.fst (mergeFields (isGiven vars) fields) := by
  rw [givenFields, List.filter_eq_self]
  intro field hfield
  rcases Keyed.mem_of_mem_insertAll hfield with hmem | hmem
  · cases hmem
  · rw [mergeFields_eq_map] at hmem
    obtain ⟨original, horiginal, rfl⟩ := List.mem_map.mp hmem
    simpa using (List.mem_filter.mp horiginal).2

/-! ### Fields and their entries -/

/-- Inserting a field inserts its entry. -/
theorem map_fieldToJson?_insert {fields : List (Name × Literal)} {entries : Entries}
    {field : Name × Literal} {entry : String × Json}
    (hfields : fields.map (fieldToJson? vars) = entries.map some)
    (hfield : fieldToJson? vars field = some entry) :
    (Keyed.insert Prod.fst field fields).map (fieldToJson? vars) =
      (Keyed.insert Prod.fst entry entries).map some := by
  induction fields generalizing entries with
  | nil =>
    obtain rfl := List.map_eq_nil_iff.mp hfields.symm
    simp [Keyed.insert, hfield]
  | cons first fields ih =>
    obtain ⟨e, es, rfl, he, hes⟩ := List.map_eq_cons_iff.mp hfields.symm
    have hsame : first.1 = field.1 ↔ e.1 = entry.1 := by
      rw [← (fieldToJson?_eq_some_iff.mp he.symm).1, ← (fieldToJson?_eq_some_iff.mp hfield).1,
        Name.text_inj]
    simp only [Keyed.insert, hsame]
    split
    · rw [List.map_cons, List.map_cons, hfield, hes]
    · rw [List.map_cons, List.map_cons, he, ih hes.symm]

/-- Fields under the rule of insertion are converted to their entries under this rule. -/
theorem map_fieldToJson?_ofList {fields : List (Name × Literal)} {entries : Entries}
    (h : fields.map (fieldToJson? vars) = entries.map some) :
    (Keyed.ofList Prod.fst fields).map (fieldToJson? vars) =
      (Entries.ofList entries).map some := by
  suffices hall : ∀ (before : List (Name × Literal)) (done : Entries),
      before.map (fieldToJson? vars) = done.map some →
        (Keyed.insertAll Prod.fst before fields).map (fieldToJson? vars) =
          (Keyed.insertAll Prod.fst done entries).map some from hall [] [] rfl
  induction fields generalizing entries with
  | nil =>
    obtain rfl := List.map_eq_nil_iff.mp h.symm
    exact fun before done hbefore => hbefore
  | cons field fields ih =>
    obtain ⟨entry, rest, rfl, hentry, hrest⟩ := List.map_eq_cons_iff.mp h.symm
    exact fun before done hbefore =>
      ih hrest.symm _ _ (map_fieldToJson?_insert hbefore hentry.symm)

/-! ### What merging drops -/

/-- Whether a literal is dropped inside another one when the repeats in it are merged: it is the
value of a given field that is given again later. -/
inductive IsDropped (vars : Entries) (value : Literal) : Literal → Prop
  | here {fields before after : List (Name × Literal)} {name : Name}
      (given : givenFields vars fields = before ++ (name, value) :: after)
      (again : name ∈ after.map Prod.fst) : IsDropped vars value (.object fields)
  | inItem {items : List Literal} {item : Literal} (mem : item ∈ items)
      (inner : IsDropped vars value item) : IsDropped vars value (.list items)
  | inField {fields : List (Name × Literal)} {field : Name × Literal}
      (mem : field ∈ givenFields vars fields) (inner : IsDropped vars value field.2) :
      IsDropped vars value (.object fields)

theorem IsDropped.isGiven {value literal : Literal} (h : IsDropped vars value literal) :
    literal.isGiven vars = true := by
  cases h <;> rfl

/-- A given field is dropped, or it is merged and kept. -/
theorem isDropped_or_mem_ofList {fields : List (Name × Literal)} {field : Name × Literal}
    (h : field ∈ givenFields vars fields) :
    IsDropped vars field.2 (.object fields) ∨
      (field.1, field.2.mergeRepeats (isGiven vars)) ∈
        Keyed.ofList Prod.fst (mergeFields (isGiven vars) fields) := by
  obtain ⟨before, after, hsplit⟩ := List.append_of_mem h
  by_cases hagain : field.1 ∈ after.map Prod.fst
  · exact .inl (.here hsplit hagain)
  · refine .inr ?_
    rw [mergeFields_eq_map]
    show _ ∈ Keyed.ofList Prod.fst ((givenFields vars fields).map _)
    rw [hsplit, List.map_append, List.map_cons]
    refine Keyed.mem_of_find?_eq_some (Keyed.find?_insertAll_of_last ?_)
    simpa using hagain

/-! ### Merging and conversion -/

/-- Merging the repeats in a literal that has a value keeps the value. -/
theorem toJson?_mergeRepeats {literal : Literal} {w : Json} (h : literal.toJson? vars = some w) :
    (literal.mergeRepeats (isGiven vars)).toJson? vars = some w := by
  induction literal using Literal.induction generalizing w with
  | step literal ihItems ihFields =>
    cases literal with
    | list items =>
      obtain ⟨values, hvalues, rfl⟩ := toJson?_list_eq_some_iff.mp h
      rw [mergeRepeats, mergeItems_eq_map]
      refine toJson?_list_eq_some_iff.mpr ⟨values, ?_, rfl⟩
      rw [List.map_map, ← hvalues]
      refine List.map_congr_left fun item hmem => ?_
      obtain ⟨value, hvalue⟩ := exists_map_eq_map_some_iff.mp ⟨values, hvalues⟩ item hmem
      have hmerged : (item.mergeRepeats (isGiven vars)).isGiven vars = item.isGiven vars :=
        isGiven_mergeRepeats item
      rw [Function.comp_apply]
      cases hgiven : item.isGiven vars with
      | true =>
        rw [itemToJson?_of_isGiven hgiven] at hvalue
        rw [itemToJson?_of_isGiven hgiven, itemToJson?_of_isGiven (hmerged.trans hgiven), hvalue,
          ihItems item hmem hvalue]
      | false =>
        rw [itemToJson?_of_not_isGiven hgiven, itemToJson?_of_not_isGiven (hmerged.trans hgiven)]
    | object fields =>
      obtain ⟨entries, hentries, rfl⟩ := toJson?_object_eq_some_iff.mp h
      rw [mergeRepeats]
      refine toJson?_object_eq_some_iff.mpr ⟨Entries.ofList entries, ?_, ?_⟩
      · rw [givenFields_ofList_mergeFields, mergeFields_eq_map]
        refine map_fieldToJson?_ofList ?_
        rw [List.map_map, ← hentries]
        refine List.map_congr_left fun field hmem => ?_
        obtain ⟨entry, hentry⟩ := exists_map_eq_map_some_iff.mp ⟨entries, hentries⟩ field hmem
        obtain ⟨hname, hvalue⟩ := fieldToJson?_eq_some_iff.mp hentry
        rw [Function.comp_apply, hentry, fieldToJson?_eq_some_iff]
        exact ⟨hname, ihFields field (List.mem_filter.mp hmem).1 hvalue⟩
      · simp only [Entries.ofList, Keyed.ofList_ofList]
    | _ => exact h

/-- What merging drops from a literal that has a value has a value too. -/
theorem IsDropped.exists_toJson? {value literal : Literal} {w : Json}
    (hdropped : IsDropped vars value literal) (h : literal.toJson? vars = some w) :
    ∃ v, value.toJson? vars = some v := by
  induction hdropped generalizing w with
  | @here fields before after name given again =>
    refine exists_toJson?_object_iff.mp ⟨w, h⟩ (name, value) ?_
    rw [given]
    exact List.mem_append_right _ List.mem_cons_self
  | inItem mem inner ih =>
    obtain ⟨v, hv⟩ := exists_toJson?_list_iff.mp ⟨w, h⟩ _ mem
    exact ih (itemToJson?_of_isGiven inner.isGiven ▸ hv)
  | inField mem inner ih =>
    obtain ⟨v, hv⟩ := exists_toJson?_object_iff.mp ⟨w, h⟩ _ mem
    exact ih hv

/-- A literal has a value if it has one after merging and what is dropped has one. -/
theorem exists_toJson?_of_mergeRepeats {literal : Literal}
    (hmerged : ∃ w, (literal.mergeRepeats (isGiven vars)).toJson? vars = some w)
    (hdropped : ∀ value, IsDropped vars value literal → ∃ v, value.toJson? vars = some v) :
    ∃ w, literal.toJson? vars = some w := by
  induction literal using Literal.induction with
  | step literal ihItems ihFields =>
    cases literal with
    | list items =>
      rw [mergeRepeats, mergeItems_eq_map, exists_toJson?_list_iff] at hmerged
      refine exists_toJson?_list_iff.mpr fun item hmem => ?_
      cases hgiven : item.isGiven vars with
      | true =>
        obtain ⟨v, hv⟩ := hmerged _ (List.mem_map_of_mem hmem)
        rw [itemToJson?_of_isGiven ((isGiven_mergeRepeats item).trans hgiven)] at hv
        rw [itemToJson?_of_isGiven hgiven]
        exact ihItems item hmem ⟨v, hv⟩ fun value h => hdropped value (.inItem hmem h)
      | false => exact ⟨.null, itemToJson?_of_not_isGiven hgiven⟩
    | object fields =>
      rw [mergeRepeats, exists_toJson?_object_iff, givenFields_ofList_mergeFields] at hmerged
      refine exists_toJson?_object_iff.mpr fun field hmem => ?_
      rcases isDropped_or_mem_ofList hmem with hself | hkept
      · exact hdropped field.2 hself
      · exact ihFields field (List.mem_filter.mp hmem).1 (hmerged _ hkept) fun value h =>
          hdropped value (.inField hmem h)
    | _ => exact hmerged

/-- A literal has a value if and only if it has this value after merging the repeats among the given
fields, and everything that is dropped by this has some value. -/
theorem toJson?_eq_some_iff_mergeRepeats (vars : Entries) (literal : Literal) (w : Json) :
    literal.toJson? vars = some w ↔
      (literal.mergeRepeats (isGiven vars)).toJson? vars = some w ∧
        ∀ value, IsDropped vars value literal → ∃ v, value.toJson? vars = some v := by
  constructor
  · exact fun h => ⟨toJson?_mergeRepeats h, fun value hdropped => hdropped.exists_toJson? h⟩
  · rintro ⟨hmerged, hdropped⟩
    obtain ⟨v, hv⟩ := exists_toJson?_of_mergeRepeats ⟨w, hmerged⟩ hdropped
    rw [toJson?_mergeRepeats hv] at hmerged
    rw [hv, hmerged]

/-- An object whose field is given first as a number beyond all floats and then as one. -/
def overflowThenOne : Literal :=
  object [(⟨"a", rfl⟩, float ⟨"1e400", by decide +kernel⟩), (⟨"a", rfl⟩, ofInt 1)]

/-- An object whose field is given first as one and then as a variable. -/
def oneThenVariable : Literal :=
  object [(⟨"a", rfl⟩, ofInt 1), (⟨"a", rfl⟩, var ⟨"b", rfl⟩)]

/-- The last occurrence alone does not decide. A number that it replaces may be beyond all floats,
and an unbound variable does not replace anything. -/
theorem toJson?_ne_mergeRepeats :
    overflowThenOne.toJson? [] = none ∧
      (overflowThenOne.mergeRepeats fun _ => true).toJson? [] =
        some (.object [("a", .number (.int 1))]) ∧
      oneThenVariable.toJson? [] = some (.object [("a", .number (.int 1))]) ∧
      (oneThenVariable.mergeRepeats fun _ => true).toJson? [] = some (.object []) := by
  refine ⟨?_, rfl, rfl, rfl⟩
  decide +kernel

end InputCoercion.Literal
