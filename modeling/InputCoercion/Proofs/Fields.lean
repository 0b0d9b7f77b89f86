import InputCoercion.Coercion.Fields

/-!
What a source of fields makes of an input object, said without its recursion. Every field
contributes an entry, nothing or a failure, and does so independently of the other fields. If there
is no failure, the entries are inserted in the order of the fields. Otherwise a source that goes on
gives all failures in that order, and a source that stops gives the first.

Everything else about objects is derived from this, for values and for literals alike.
-/

namespace InputCoercion

namespace Resolution

variable {ε : Type}

/-- The value that a field contributes. -/
def value? : Resolution ε → Option Json
  | present value => some value
  | omitted | failed _ => none

/-- The failure that a field contributes. -/
def failure? : Resolution ε → Option ε
  | failed failure => some failure
  | present _ | omitted => none

@[simp] theorem value?_present (value : Json) :
    (present value : Resolution ε).value? = some value := rfl

@[simp] theorem value?_omitted : (omitted : Resolution ε).value? = none := rfl

@[simp] theorem value?_failed (failure : ε) : (failed failure).value? = none := rfl

@[simp] theorem failure?_present (value : Json) :
    (present value : Resolution ε).failure? = none := rfl

@[simp] theorem failure?_omitted : (omitted : Resolution ε).failure? = none := rfl

@[simp] theorem failure?_failed (failure : ε) : (failed failure).failure? = some failure := rfl

theorem value?_eq_some_iff {r : Resolution ε} {value : Json} :
    r.value? = some value ↔ r = .present value := by
  cases r <;> simp

theorem failure?_eq_some_iff {r : Resolution ε} {failure : ε} :
    r.failure? = some failure ↔ r = .failed failure := by
  cases r <;> simp

end Resolution

namespace FieldSource

variable {ε : Type} (source : FieldSource ε) (path : Path)

/-! ### What becomes of one field -/

/-- The path that leads to a field of an object. -/
abbrev fieldPath (path : Path) (field : InputField) : Path :=
  path ++ [.field field.name]

variable {source path} {field : InputField}

/-- A value comes from the source or is the default of a field that is not given. -/
theorem resolve_eq_present_iff {value : Json} :
    source.resolve path field = .present value ↔
      source.coerceField field (fieldPath path field) = some (.ok value) ∨
        source.coerceField field (fieldPath path field) = none ∧ field.default? = some value := by
  rw [resolve]
  split
  · rename_i h
    simp [h]
  · rename_i h
    simp [h]
  · rename_i h
    rw [h]
    split
    · rename_i hdefault
      simp [hdefault]
    · rename_i hdefault
      split <;> simp [hdefault]

theorem resolve_eq_omitted_iff :
    source.resolve path field = .omitted ↔
      source.coerceField field (fieldPath path field) = none ∧ field.default? = none ∧
        field.type.isNonNull = false := by
  rw [resolve]
  split
  · rename_i h
    simp [h]
  · rename_i h
    simp [h]
  · rename_i h
    rw [h]
    split
    · rename_i hdefault
      simp [hdefault]
    · rename_i hdefault
      split <;> simp_all

theorem resolve_eq_failed_iff {failure : ε} :
    source.resolve path field = .failed failure ↔
      source.coerceField field (fieldPath path field) = some (.error failure) ∨
        source.coerceField field (fieldPath path field) = none ∧ field.default? = none ∧
          field.type.isNonNull = true ∧
          source.requiredFieldMissing field (fieldPath path field) = failure := by
  rw [resolve]
  split
  · rename_i h
    simp [h]
  · rename_i h
    simp [h]
  · rename_i h
    rw [h]
    split
    · rename_i hdefault
      simp [hdefault]
    · rename_i hdefault
      split <;> simp_all

/-! ### What becomes of all fields -/

variable (source path)

def values (fields : List InputField) : Entries :=
  fields.filterMap fun field =>
    (source.resolve path field).value?.map fun value => (Named.text field, value)

def failures (fields : List InputField) : List ε :=
  fields.filterMap fun field => (source.resolve path field).failure?

theorem keys_values_sublist (fields : List InputField) :
    (Entries.keys (source.values path fields)).Sublist (fields.map Named.text) := by
  induction fields with
  | nil => exact List.Sublist.slnil
  | cons field fields ih =>
    simp only [values, List.filterMap_cons, List.map_cons]
    cases source.resolve path field with
    | present value => exact ih.cons_cons _
    | omitted => exact ih.cons _
    | failed failure => exact ih.cons _

variable {source path}

theorem mem_values_iff {fields : List InputField} {key : String} {value : Json} :
    (key, value) ∈ source.values path fields ↔
      ∃ field ∈ fields, Named.text field = key ∧ source.resolve path field = .present value := by
  simp only [values, List.mem_filterMap, Option.map_eq_some_iff, Prod.mk.injEq,
    Resolution.value?_eq_some_iff]
  constructor
  · rintro ⟨field, hmem, w, hpresent, rfl, rfl⟩
    exact ⟨field, hmem, rfl, hpresent⟩
  · rintro ⟨field, hmem, rfl, hpresent⟩
    exact ⟨field, hmem, value, hpresent, rfl, rfl⟩

theorem failures_eq_nil_iff {fields : List InputField} :
    source.failures path fields = [] ↔
      ∀ field ∈ fields, ∀ failure, source.resolve path field ≠ .failed failure := by
  simp only [failures, List.filterMap_eq_nil_iff]
  refine forall₂_congr fun field _ => ?_
  cases source.resolve path field <;> simp

/-- The fields are inserted into given entries if nothing fails, and not otherwise. -/
theorem coerceList_eq_ok_iff {fields : List InputField} {last : List ε}
    {entries result : Entries} :
    source.coerceList path last fields entries = .ok result ↔
      source.failures path fields = [] ∧ last = [] ∧
        result = Keyed.insertAll Prod.fst entries (source.values path fields) := by
  induction fields generalizing entries with
  | nil => cases last <;> simp [coerceList, failures, values, Keyed.insertAll, eq_comm]
  | cons field fields ih =>
    rw [coerceList]
    cases hr : source.resolve path field with
    | present value =>
      simp only [ih, failures, values, List.filterMap_cons, hr]
      rfl
    | omitted =>
      simp only [ih, failures, values, List.filterMap_cons, hr]
      rfl
    | failed failure =>
      have hne : source.failures path (field :: fields) ≠ [] := by
        simp [failures, hr]
      simp only [hne, false_and, iff_false]
      split
      · simp
      · split <;> simp

/-- A source that goes on gives the failures of all fields, and then those that follow. -/
theorem coerceList_eq_error_of_accumulating (h : source.stopsAtFirstFailure = false)
    {fields : List InputField} {last : List ε} {entries : Entries}
    (hne : source.failures path fields ++ last ≠ []) :
    source.coerceList path last fields entries =
      .error (source.failures path fields ++ last) := by
  induction fields generalizing entries with
  | nil =>
    cases last with
    | nil => simp [failures] at hne
    | cons e es => simp [coerceList, failures]
  | cons field fields ih =>
    rw [coerceList]
    cases hr : source.resolve path field with
    | present value =>
      simp only [failures, List.filterMap_cons, hr] at hne ⊢
      exact ih hne
    | omitted =>
      simp only [failures, List.filterMap_cons, hr] at hne ⊢
      exact ih hne
    | failed failure =>
      have hcons : source.failures path (field :: fields) =
          failure :: source.failures path fields := by
        simp [failures, hr]
      rw [hcons]
      simp only [h, Bool.false_eq_true, if_false]
      -- Whether the rest fails decides between one failure and more.
      by_cases hrest : source.failures path fields ++ last = []
      · have hnil := List.append_eq_nil_iff.mp hrest
        rw [coerceList_eq_ok_iff.mpr ⟨hnil.1, hnil.2, rfl⟩]
        simp [hnil]
      · rw [ih hrest]
        rfl

theorem coerceList_eq_error_of_stopping (h : source.stopsAtFirstFailure = true)
    {fields : List InputField} {last rest : List ε} {entries : Entries} {failure : ε}
    (hfirst : source.failures path fields = failure :: rest) :
    source.coerceList path last fields entries = .error [failure] := by
  induction fields generalizing entries with
  | nil => simp [failures] at hfirst
  | cons field fields ih =>
    rw [coerceList]
    cases hr : source.resolve path field with
    | present value =>
      simp only [failures, List.filterMap_cons, hr] at hfirst
      exact ih hfirst
    | omitted =>
      simp only [failures, List.filterMap_cons, hr] at hfirst
      exact ih hfirst
    | failed e =>
      simp only [failures, List.filterMap_cons, hr, Resolution.failure?_failed,
        List.cons.injEq] at hfirst
      simp [h, hfirst.1]

/-- Entries whose keys are no fields may as well be put in front afterwards, and all that matters of
a source is what becomes of the fields and whether it stops. -/
theorem coerceList_append {source' : FieldSource ε} {path' : Path} {fields : List InputField}
    {last : List ε} {tag entries : Entries}
    (hdisjoint : ∀ field ∈ fields, Named.text field ∉ Entries.keys tag)
    (hresolve : ∀ field ∈ fields, source.resolve path field = source'.resolve path' field)
    (hstops : source.stopsAtFirstFailure = source'.stopsAtFirstFailure) :
    source.coerceList path last fields (tag ++ entries) =
      (tag ++ ·) <$> source'.coerceList path' last fields entries := by
  induction fields generalizing entries with
  | nil => cases last <;> rfl
  | cons field fields ih =>
    have hrest (entries : Entries) := @ih entries
      (fun other hother => hdisjoint other (List.mem_cons_of_mem field hother))
      fun other hother => hresolve other (List.mem_cons_of_mem field hother)
    rw [coerceList, coerceList, hresolve field List.mem_cons_self]
    cases source'.resolve path' field with
    | present value =>
      have hpassed : Entries.insert field.name.text value (tag ++ entries) =
          tag ++ Entries.insert field.name.text value entries :=
        Keyed.insert_append_of_not_mem (hdisjoint field List.mem_cons_self)
      simp only [hpassed, hrest]
    | omitted => simp only [hrest]
    | failed failure =>
      simp only [hstops, hrest]
      split
      · rfl
      · cases source'.coerceList path' last fields entries <;> rfl

/-- Entries in the order of the fields are what a source gives that resolves every field to the
entry for it, and leaves out a field for which there is none. -/
theorem values_eq_of_resolve {fields : List InputField} {entries : Entries}
    (hnodup : (fields.map Named.text).Nodup)
    (ordered : (Entries.keys entries).Sublist (fields.map Named.text))
    (hresolve : ∀ field ∈ fields,
      (source.resolve path field).value? = Entries.get? (Named.text field) entries) :
    source.values path fields = entries := by
  induction fields generalizing entries with
  | nil => exact (List.map_eq_nil_iff.mp (List.sublist_nil.mp ordered)).symm
  | cons field fields ih =>
    obtain ⟨hnotMem, hnodup⟩ := List.nodup_cons.mp hnodup
    have hhead := hresolve field List.mem_cons_self
    rw [values, List.filterMap_cons, hhead]
    rcases List.sublist_cons_iff.mp ordered with hlater | ⟨keys, hkeys, hlater⟩
    · have hnone : Entries.get? (Named.text field) entries = none :=
        Entries.get?_eq_none_iff.mpr fun hmem => hnotMem (hlater.subset hmem)
      rw [hnone]
      exact ih hnodup hlater fun other hother => hresolve other (List.mem_cons_of_mem field hother)
    · obtain ⟨⟨key, value⟩, rest, rfl, rfl, rfl⟩ := List.map_eq_cons_iff.mp hkeys
      rw [Entries.get?_cons, if_pos rfl]
      have htail (other : InputField) (hother : other ∈ fields) :
          (source.resolve path other).value? = Entries.get? (Named.text other) rest := by
        rw [hresolve other (List.mem_cons_of_mem field hother), Entries.get?_cons, if_neg]
        exact fun heq => hnotMem (heq ▸ List.mem_map_of_mem hother)
      exact congrArg _ (ih hnodup hlater htail)

/-- Entries whose keys are no fields keep their places ahead of the fields. -/
theorem insertAll_values {fields : List InputField} {tag : Entries}
    (hfields : (fields.map Named.text).Nodup) (htag : (Entries.keys tag).Nodup)
    (hdisjoint : ∀ field ∈ fields, Named.text field ∉ Entries.keys tag) :
    Keyed.insertAll Prod.fst tag (source.values path fields) =
      tag ++ source.values path fields := by
  have hsub := keys_values_sublist source path fields
  apply Keyed.insertAll_of_nodup
  rw [List.map_append, List.nodup_append]
  refine ⟨htag, hsub.nodup hfields, ?_⟩
  rintro key hkey _ hmem rfl
  obtain ⟨field, hfield, rfl⟩ := List.mem_map.mp (hsub.subset hmem)
  exact hdisjoint field hfield hkey

end FieldSource

end InputCoercion
