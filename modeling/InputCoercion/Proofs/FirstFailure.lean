import InputCoercion.Proofs.Fields
import InputCoercion.Proofs.Schema.Closure
import InputCoercion.Proofs.Schema.History

/-!
Stopping at the first failure. Values of a request are coerced with all failures reported, and
literals of a document only until one is found. Both go through the same fields in the same order,
and whether they stop decides nothing but how many failures are returned: the object comes out with
the same entries, or it fails, and the one failure is then the first of all.
-/

namespace InputCoercion

namespace Keyed

/-! ### Overwriting entries -/

variable {α κ : Type} [DecidableEq κ] {key : α → κ}

/-- Entries that are replaced where new ones have their keys, followed by the new ones under keys
that are not there. -/
def overwrite (key : α → κ) (entries new : List α) : List α :=
  (entries.map fun e => (find? key (key e) new).getD e) ++
    new.filter fun a => decide (key a ∉ entries.map key)

/-- An insertion under a key that is there replaces one entry, as no other has this key. -/
theorem insert_of_mem {a : α} {es : List α} (hnodup : (es.map key).Nodup)
    (hmem : key a ∈ es.map key) :
    insert key a es = es.map fun e => if key e = key a then a else e := by
  induction es with
  | nil => cases hmem
  | cons e es ih =>
    obtain ⟨hfresh, hnodup⟩ := List.nodup_cons.mp hnodup
    rw [insert, List.map_cons]
    split
    · rename_i he
      have hrest : (es.map fun e => if key e = key a then a else e) = es.map fun e => e := by
        refine List.map_congr_left fun e' he' => if_neg fun (heq : key e' = key a) => hfresh ?_
        rw [he, ← heq]
        exact List.mem_map_of_mem he'
      rw [hrest, List.map_id']
    · rename_i he
      rw [ih hnodup ((List.mem_cons.mp hmem).resolve_left (Ne.symm he))]

theorem overwrite_insert {a : α} {es new : List α} (hes : (es.map key).Nodup)
    (hfresh : key a ∉ new.map key) :
    overwrite key (insert key a es) new = overwrite key es (a :: new) := by
  have hnone : find? key (key a) new = none := find?_eq_none_iff.mpr hfresh
  by_cases hmem : key a ∈ es.map key
  · have hvalues : ((insert key a es).map fun e => (find? key (key e) new).getD e) =
        es.map fun e => (find? key (key e) (a :: new)).getD e := by
      rw [insert_of_mem hes hmem, List.map_map]
      refine List.map_congr_left fun e _ => ?_
      rw [Function.comp_apply, find?_cons]
      by_cases he : key e = key a
      · rw [if_pos he, if_pos he.symm, hnone]
        rfl
      · rw [if_neg he, if_neg (Ne.symm he)]
    rw [overwrite, overwrite, hvalues, keys_insert, if_pos hmem,
      List.filter_cons_of_neg (by simpa using hmem)]
  · have hvalues : (es.map fun e => (find? key (key e) new).getD e) =
        es.map fun e => (find? key (key e) (a :: new)).getD e := by
      refine List.map_congr_left fun e he => ?_
      have hne : key a ≠ key e := fun heq => hmem (heq ▸ List.mem_map_of_mem he)
      rw [find?_cons, if_neg hne]
    have hfilter : (new.filter fun b => decide (key b ∉ (es ++ [a]).map key)) =
        new.filter fun b => decide (key b ∉ es.map key) := by
      refine List.filter_congr fun b hb => ?_
      have hne : key b ≠ key a := fun heq => hfresh (heq ▸ List.mem_map_of_mem hb)
      simp [hne]
    rw [insert_of_not_mem hmem, overwrite, overwrite, List.map_append, hvalues, hfilter,
      List.filter_cons_of_pos (by simpa using hmem), List.map_singleton, hnone, Option.getD_none,
      List.append_assoc, List.singleton_append]

theorem insertAll_eq_overwrite {es new : List α} (hes : (es.map key).Nodup)
    (hnew : (new.map key).Nodup) : insertAll key es new = overwrite key es new := by
  induction new generalizing es with
  | nil => simp [insertAll, overwrite]
  | cons a new ih =>
    obtain ⟨hfresh, hnew⟩ := List.nodup_cons.mp hnew
    calc insertAll key es (a :: new)
        = overwrite key (insert key a es) new := ih (nodup_keys_insert hes) hnew
      _ = overwrite key es (a :: new) := overwrite_insert hes hfresh

end Keyed

namespace FieldSource

variable {ε : Type}

/-! ### What the fields contribute -/

/-- Whether a field has a value: one that is given, or its default where none is given. -/
def Gives (source : FieldSource ε) (path : Path) (field : InputField) (value : Json) : Prop :=
  source.coerceField field (fieldPath path field) = some (.ok value) ∨
    source.coerceField field (fieldPath path field) = none ∧ field.default? = some value

/-- Whether a field may be left out: it is not given, has no default and admits null. -/
def Omits (source : FieldSource ε) (path : Path) (field : InputField) : Prop :=
  source.coerceField field (fieldPath path field) = none ∧ field.default? = none ∧
    field.type.isNonNull = false

/-- Whether a field fails: what is given for it cannot be coerced, or it is missing. -/
def Fails (source : FieldSource ε) (path : Path) (field : InputField) (failure : ε) : Prop :=
  source.coerceField field (fieldPath path field) = some (.error failure) ∨
    source.coerceField field (fieldPath path field) = none ∧ field.default? = none ∧
      field.type.isNonNull = true ∧
      source.requiredFieldMissing field (fieldPath path field) = failure

/-- The entries and the failures that fields contribute, each in the order of the fields. -/
inductive Contributes (source : FieldSource ε) (path : Path) :
    List InputField → Entries → List ε → Prop
  | nil : Contributes source path [] [] []
  | given {field : InputField} {value : Json} {fields : List InputField} {values : Entries}
      {failures : List ε} (h : source.Gives path field value)
      (rest : Contributes source path fields values failures) :
      Contributes source path (field :: fields) ((Named.text field, value) :: values) failures
  | omitted {field : InputField} {fields : List InputField} {values : Entries}
      {failures : List ε} (h : source.Omits path field)
      (rest : Contributes source path fields values failures) :
      Contributes source path (field :: fields) values failures
  | failed {field : InputField} {failure : ε} {fields : List InputField} {values : Entries}
      {failures : List ε} (h : source.Fails path field failure)
      (rest : Contributes source path fields values failures) :
      Contributes source path (field :: fields) values (failure :: failures)

theorem contributes_values_failures (source : FieldSource ε) (path : Path)
    (fields : List InputField) :
    source.Contributes path fields (source.values path fields) (source.failures path fields) := by
  induction fields with
  | nil => exact .nil
  | cons field fields ih =>
    rw [values, failures, List.filterMap_cons, List.filterMap_cons]
    cases hr : source.resolve path field with
    | present value => exact .given (resolve_eq_present_iff.mp hr) ih
    | omitted => exact .omitted (resolve_eq_omitted_iff.mp hr) ih
    | failed failure => exact .failed (resolve_eq_failed_iff.mp hr) ih

/-! ### Both ways through the fields -/

/-- The same source, made to stop at its first failure or to go on. -/
def withStops (source : FieldSource ε) (stops : Bool) : FieldSource ε :=
  { source with stopsAtFirstFailure := stops }

section

variable {source : FieldSource ε} {object : InputObjectType} {path : Path} {entries : Entries}

/-- Stopping or not, the object is made of all its fields or not at all. -/
theorem coerceFields_withStops_eq_ok_iff (hundefined : source.undefinedFields object path = [])
    (hentries : (Entries.keys entries).Nodup) {stops : Bool} {result : Entries} :
    (source.withStops stops).coerceFields object path entries = .ok result ↔
      source.failures path object.fields.entries = [] ∧
        result = Keyed.overwrite Prod.fst entries (source.values path object.fields.entries) := by
  have hvalues : (Entries.keys (source.values path object.fields.entries)).Nodup :=
    (keys_values_sublist source path object.fields.entries).nodup object.fields.nodup_texts
  have hlast : (source.withStops stops).undefinedFields object path = [] := hundefined
  rw [coerceFields, hlast, coerceList_eq_ok_iff, ← Keyed.insertAll_eq_overwrite hentries hvalues,
    and_iff_right rfl]
  rfl

/-- A source that goes on returns the failures of all fields, whenever there are any. -/
theorem coerceFields_withStops_false_eq_error_iff
    (hundefined : source.undefinedFields object path = [])
    (hentries : (Entries.keys entries).Nodup) {found : List ε} :
    (source.withStops false).coerceFields object path entries = .error found ↔
      source.failures path object.fields.entries ≠ [] ∧
        found = source.failures path object.fields.entries := by
  by_cases hnone : source.failures path object.fields.entries = []
  · rw [(coerceFields_withStops_eq_ok_iff hundefined hentries).mpr ⟨hnone, rfl⟩]
    exact iff_of_false nofun fun h => h.1 hnone
  · have hlast : (source.withStops false).undefinedFields object path = [] := hundefined
    have hsome : source.failures path object.fields.entries ++ [] ≠ [] := by
      rwa [List.append_nil]
    have hall : (source.withStops false).coerceList path [] object.fields.entries entries =
        .error (source.failures path object.fields.entries ++ []) :=
      coerceList_eq_error_of_accumulating rfl hsome
    rw [coerceFields, hlast, hall, List.append_nil, Except.error.injEq, and_iff_right hnone]
    exact eq_comm

/-- A source that stops returns the first of these failures. -/
theorem coerceFields_withStops_true_eq_error_iff
    (hundefined : source.undefinedFields object path = [])
    (hentries : (Entries.keys entries).Nodup) {found : List ε} :
    (source.withStops true).coerceFields object path entries = .error found ↔
      ∃ first rest, (source.withStops false).coerceFields object path entries =
        .error (first :: rest) ∧ found = [first] := by
  simp only [coerceFields_withStops_false_eq_error_iff hundefined hentries]
  cases hfailures : source.failures path object.fields.entries with
  | nil =>
    rw [(coerceFields_withStops_eq_ok_iff hundefined hentries).mpr ⟨hfailures, rfl⟩]
    refine iff_of_false nofun ?_
    rintro ⟨first, rest, ⟨hne, -⟩, -⟩
    exact hne rfl
  | cons first rest =>
    have hstopped : (source.withStops true).coerceFields object path entries = .error [first] :=
      coerceList_eq_error_of_stopping rfl hfailures
    rw [hstopped, Except.error.injEq]
    constructor
    · rintro rfl
      exact ⟨first, rest, ⟨List.cons_ne_nil first rest, rfl⟩, rfl⟩
    · rintro ⟨_, _, ⟨-, heq⟩, rfl⟩
      cases heq
      rfl

end

/-- Where no failure comes from beside the declared fields, a source that stops and one that goes on
succeed for the same objects, and with the same entries: those that were there, overwritten in place
by the fields of their names, and then the other fields in the order of their declaration. A source
that goes on fails with the failure of every failing field in this order, and one that stops fails
with the first of them. -/
theorem exists_contributes_and_coerceFields_withStops_iff (source : FieldSource ε)
    (object : InputObjectType) (path : Path) {entries : Entries}
    (hundefined : source.undefinedFields object path = [])
    (hentries : (Entries.keys entries).Nodup) :
    ∃ values failures, source.Contributes path object.fields.entries values failures ∧
      (∀ stops result, (source.withStops stops).coerceFields object path entries = .ok result ↔
        failures = [] ∧ result = Keyed.overwrite Prod.fst entries values) ∧
      (∀ found, (source.withStops false).coerceFields object path entries = .error found ↔
        failures ≠ [] ∧ found = failures) ∧
      ∀ found, (source.withStops true).coerceFields object path entries = .error found ↔
        ∃ first rest, (source.withStops false).coerceFields object path entries =
          .error (first :: rest) ∧ found = [first] :=
  ⟨_, _, contributes_values_failures source path object.fields.entries,
    fun _ _ => coerceFields_withStops_eq_ok_iff hundefined hentries,
    fun _ => coerceFields_withStops_false_eq_error_iff hundefined hentries,
    fun _ => coerceFields_withStops_true_eq_error_iff hundefined hentries⟩

/-- A source that gives some fields as their own names and others as what cannot be coerced. -/
def naming (given rejected : List String) : FieldSource String where
  coerceField field _ :=
    if Named.text field ∈ rejected then some (.error (Named.text field ++ " is rejected"))
    else if Named.text field ∈ given then some (.ok (.string (Named.text field)))
    else none
  requiredFieldMissing field _ := Named.text field ++ " is missing"
  stopsAtFirstFailure := false
  undefinedFields _ _ := []

/-- A cat that has neither an age nor a name, and one that has a name. The lives are there before
the default for them is. -/
theorem naming_withStops :
    (naming [] ["age"]).undefinedFields Schema.agedCatInput [] = [] ∧
      (Entries.keys [("lives", .null), (inputNameKey, .string "Cat")]).Nodup ∧
      ((naming [] ["age"]).withStops true).coerceFields Schema.agedCatInput []
          [("lives", .null), (inputNameKey, .string "Cat")] = .error ["age is rejected"] ∧
      ((naming ["name"] []).withStops true).coerceFields Schema.agedCatInput []
          [("lives", .null), (inputNameKey, .string "Cat")] =
        .ok [("lives", .ofInt 9), (inputNameKey, .string "Cat"), ("name", .string "name")] := by
  have hentries : (Entries.keys [("lives", .null), (inputNameKey, .string "Cat")]).Nodup := by
    decide
  obtain ⟨_, _, -, -, -, hstop⟩ := exists_contributes_and_coerceFields_withStops_iff
    (naming [] ["age"]) Schema.agedCatInput [] rfl hentries
  obtain ⟨_, _, -, hok, -, -⟩ := exists_contributes_and_coerceFields_withStops_iff
    (naming ["name"] []) Schema.agedCatInput [] rfl hentries
  refine ⟨rfl, hentries, (hstop _).mpr ⟨"age is rejected", ["name is missing"], rfl, rfl⟩, ?_⟩
  exact (hok true _).mpr ((hok false _).mp rfl)

end FieldSource

end InputCoercion
