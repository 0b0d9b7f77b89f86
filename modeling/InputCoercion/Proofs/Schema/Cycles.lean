import InputCoercion.Proofs.Schema.Closure
import Mathlib.Data.List.Basic

/-!
Input objects that require themselves. An input object requires another one by a non-null field of
its type, and no finite value satisfies a chain of such fields that closes.

The search for a closed chain is described by a relation first, which has no bound on its depth: a
run of the search from a list of fields has a result, and this result is a trace or the names that
have been seen. The bounded search follows such a run to its end, because every input object that
it enters is seen from then on, and a schema has finitely many names.

What a run promises is proved by induction along it. A trace is a chain in which no input object
occurs twice. If there is no trace, all that has been seen is explored: it requires neither the
target nor anything that has not been seen. So no chain leads back to the target, although the
search has passed over what it had seen before.
-/

namespace InputCoercion.Schema

variable {schema : Schema}

/-! ### Chains of non-null fields -/

/-- Whether a field of an input object requires a value of another type. -/
def Requires (schema : Schema) (owner : Name) (field : InputField) (next : Name) : Prop :=
  ∃ object, schema.inputObject? owner.text = some object ∧
    field ∈ object.fields.entries ∧ field.required? = some next

/-- A chain of fields from an input object to a target, where each field requires the input object
that has the next one. -/
inductive Chain (schema : Schema) (target : Name) : Name → List FieldCoordinate → Prop
  | last {owner : Name} {field : InputField} (required : schema.Requires owner field target) :
      Chain schema target owner [⟨owner, field.name⟩]
  | cons {owner next : Name} {field : InputField} {trace : List FieldCoordinate}
      (required : schema.Requires owner field next) (rest : Chain schema target next trace) :
      Chain schema target owner (⟨owner, field.name⟩ :: trace)

theorem Chain.exists_inputObject? {target owner : Name} {trace : List FieldCoordinate}
    (h : schema.Chain target owner trace) :
    ∃ object, schema.inputObject? owner.text = some object := by
  cases h with
  | last required | cons required rest =>
    obtain ⟨object, hobject, -⟩ := required
    exact ⟨object, hobject⟩

def OnCycle (schema : Schema) (name : Name) : Prop :=
  ∃ trace, schema.Chain name name trace

/-! ### Runs of the search -/

def Enters (schema : Schema) (target : Name) (seen : List Name) (field : InputField)
    (object : InputObjectType) : Prop :=
  field.required? = some object.name ∧ object.name ≠ target ∧ object.name ∉ seen ∧
    schema.inputObject? object.name.text = some object

def PassesOver (schema : Schema) (target : Name) (seen : List Name) (field : InputField) : Prop :=
  ∀ next, field.required? = some next →
    next ≠ target ∧ (next ∈ seen ∨ schema.inputObject? next.text = none)

/-- A search through fields of an input object, from what has been seen to its result. -/
inductive SearchRun (schema : Schema) (target : Name) :
    Name → List InputField → List Name → Search → Prop
  | done {owner : Name} {seen : List Name} :
      SearchRun schema target owner [] seen (.exhausted seen)
  | hit {owner : Name} {field : InputField} {fields : List InputField} {seen : List Name}
      (required : field.required? = some target) :
      SearchRun schema target owner (field :: fields) seen (.found [⟨owner, field.name⟩])
  | pass {owner : Name} {field : InputField} {fields : List InputField} {seen : List Name}
      {result : Search} (passed : schema.PassesOver target seen field)
      (rest : SearchRun schema target owner fields seen result) :
      SearchRun schema target owner (field :: fields) seen result
  | found {owner : Name} {field : InputField} {fields : List InputField} {seen : List Name}
      {object : InputObjectType} {trace : List FieldCoordinate}
      (entered : schema.Enters target seen field object)
      (inner : SearchRun schema target object.name object.fields.entries (object.name :: seen)
        (.found trace)) :
      SearchRun schema target owner (field :: fields) seen (.found (⟨owner, field.name⟩ :: trace))
  | back {owner : Name} {field : InputField} {fields : List InputField} {seen seen' : List Name}
      {object : InputObjectType} {result : Search}
      (entered : schema.Enters target seen field object)
      (inner : SearchRun schema target object.name object.fields.entries (object.name :: seen)
        (.exhausted seen'))
      (rest : SearchRun schema target owner fields seen' result) :
      SearchRun schema target owner (field :: fields) seen result

namespace SearchRun

variable {target owner : Name} {fields : List InputField} {seen : List Name} {result : Search}

theorem subset (h : SearchRun schema target owner fields seen result) {seen' : List Name}
    (hresult : result = .exhausted seen') : seen ⊆ seen' := by
  induction h generalizing seen' with
  | done =>
    cases hresult
    exact List.Subset.refl _
  | hit required => cases hresult
  | pass passed rest ih => exact ih hresult
  | found entered inner ih => cases hresult
  | back entered inner rest ihInner ihRest =>
    intro name hname
    exact ihRest hresult (ihInner rfl (List.mem_cons_of_mem _ hname))

/-- A trace is a chain to the target. Its input objects are distinct, and none but the first has
been seen before. -/
theorem chain (h : SearchRun schema target owner fields seen result) {object : InputObjectType}
    (hobject : schema.inputObject? owner.text = some object)
    (hfields : ∀ field ∈ fields, field ∈ object.fields.entries) {trace : List FieldCoordinate}
    (hresult : result = .found trace) :
    schema.Chain target owner trace ∧
      ∃ rest, trace.map FieldCoordinate.owner = owner :: rest ∧ rest.Nodup ∧
        ∀ name ∈ rest, name ∉ seen := by
  induction h generalizing object trace with
  | done => cases hresult
  | @hit owner field fields seen required =>
    cases hresult
    have hfield := hfields field List.mem_cons_self
    exact ⟨.last ⟨object, hobject, hfield, required⟩, [], rfl, List.nodup_nil, by simp⟩
  | pass passed rest ih =>
    exact ih hobject (fun field hmem => hfields field (List.mem_cons_of_mem _ hmem)) hresult
  | @found owner field fields seen next trace' entered inner ih =>
    cases hresult
    obtain ⟨hrequired, -, hnot, hnext⟩ := entered
    obtain ⟨hchain, rest, howners, hnodup, hfresh⟩ := ih hnext (fun _ hmem => hmem) rfl
    have hfield := hfields field List.mem_cons_self
    refine ⟨.cons ⟨object, hobject, hfield, hrequired⟩ hchain, next.name :: rest, ?_, ?_, ?_⟩
    · rw [List.map_cons, howners]
    · -- The input object that is entered counts as seen for everything behind it.
      have hnotMem : next.name ∉ rest := fun hmem => hfresh _ hmem List.mem_cons_self
      exact List.nodup_cons.mpr ⟨hnotMem, hnodup⟩
    · intro name hmem
      rcases List.mem_cons.mp hmem with rfl | hmem
      · exact hnot
      · exact fun hseen => hfresh name hmem (List.mem_cons_of_mem _ hseen)
  | back entered inner rest ihInner ihRest =>
    obtain ⟨hchain, others, howners, hnodup, hfresh⟩ :=
      ihRest hobject (fun field hmem => hfields field (List.mem_cons_of_mem _ hmem)) hresult
    refine ⟨hchain, others, howners, hnodup, fun name hmem hseen => hfresh name hmem ?_⟩
    exact inner.subset rfl (List.mem_cons_of_mem _ hseen)

end SearchRun

/-- Whether fields require neither the target nor an input object that has not been seen. -/
def Explored (schema : Schema) (target : Name) (seen : List Name) (fields : List InputField) :
    Prop :=
  ∀ field ∈ fields, ∀ next, field.required? = some next →
    next ≠ target ∧ ∀ object, schema.inputObject? next.text = some object → next ∈ seen

theorem Explored.mono {target : Name} {seen seen' : List Name} {fields : List InputField}
    (h : schema.Explored target seen fields) (hsubset : seen ⊆ seen') :
    schema.Explored target seen' fields := by
  intro field hfield next hrequired
  obtain ⟨hne, hseen⟩ := h field hfield next hrequired
  exact ⟨hne, fun object hobject => hsubset (hseen object hobject)⟩

/-- Without a trace the fields are explored, and so is every input object that has been seen on the
way. An input object counts as seen before it is explored, but then it is one of those that the
search has not left yet. -/
theorem SearchRun.explored {target owner : Name} {fields : List InputField} {seen : List Name}
    {result : Search} (h : schema.SearchRun target owner fields seen result) {seen' : List Name}
    (hresult : result = .exhausted seen') :
    schema.Explored target seen' fields ∧
      ∀ object, schema.inputObject? object.name.text = some object → object.name ∈ seen' →
        object.name ∉ seen → schema.Explored target seen' object.fields.entries := by
  induction h generalizing seen' with
  | done =>
    cases hresult
    exact ⟨fun field hfield => absurd hfield List.not_mem_nil, fun object _ hmem hnot =>
      absurd hmem hnot⟩
  | hit required => cases hresult
  | @pass owner field fields seen result passed rest ih =>
    obtain ⟨hfields, hseen⟩ := ih hresult
    refine ⟨?_, hseen⟩
    intro other hother next hrequired
    rcases List.mem_cons.mp hother with rfl | hother
    · obtain ⟨hne, hpassed⟩ := passed next hrequired
      refine ⟨hne, fun object hobject => ?_⟩
      rcases hpassed with hmem | hnone
      · exact rest.subset hresult hmem
      · rw [hobject] at hnone
        cases hnone
    · exact hfields other hother next hrequired
  | found entered inner ih => cases hresult
  | @back owner field fields seen between next result entered inner rest ihInner ihRest =>
    obtain ⟨hrequired, hne, -, hnext⟩ := entered
    obtain ⟨hinner, hbetween⟩ := ihInner rfl
    obtain ⟨hfields, hseen⟩ := ihRest hresult
    have hsubset : between ⊆ seen' := rest.subset hresult
    have hentered : next.name ∈ between := inner.subset rfl List.mem_cons_self
    refine ⟨?_, ?_⟩
    · intro other hother name hname
      rcases List.mem_cons.mp hother with rfl | hother
      · rw [hrequired] at hname
        cases hname
        exact ⟨hne, fun _ _ => hsubset hentered⟩
      · exact hfields other hother name hname
    · intro object hobject hmem hnot
      by_cases hearlier : object.name ∈ between
      · by_cases hself : object.name = next.name
        · -- The input object that has been entered is explored now that the search is back.
          rw [hself, hnext] at hobject
          cases hobject
          exact hinner.mono hsubset
        · have hnotCons : object.name ∉ next.name :: seen := by simp [hself, hnot]
          exact (hbetween object hobject hearlier hnotCons).mono hsubset
      · exact hseen object hobject hmem hearlier

/-- A search from the target that is exhausted has seen nothing from which a chain leads to it. -/
theorem not_chain_of_exhausted {root : InputObjectType}
    (hroot : schema.inputObject? root.name.text = some root) {seen : List Name}
    (h : schema.SearchRun root.name root.name root.fields.entries [root.name] (.exhausted seen))
    {owner : Name} {trace : List FieldCoordinate} (hmem : owner ∈ seen) :
    ¬ schema.Chain root.name owner trace := by
  obtain ⟨hfields, hseen⟩ := h.explored rfl
  have hexplored (name : Name) (object : InputObjectType) (hname : name ∈ seen)
      (hobject : schema.inputObject? name.text = some object) :
      schema.Explored root.name seen object.fields.entries := by
    obtain rfl := name_of_inputObject? hobject
    by_cases hself : object.name = root.name
    · rw [hself, hroot] at hobject
      cases hobject
      exact hfields
    · exact hseen object hobject hname (by simpa using hself)
  intro hchain
  induction hchain with
  | last required =>
    obtain ⟨object, hobject, hfield, hrequired⟩ := required
    exact (hexplored _ object hmem hobject _ hfield _ hrequired).1 rfl
  | cons required rest ih =>
    obtain ⟨object, hobject, hfield, hrequired⟩ := required
    obtain ⟨next, hnext⟩ := rest.exists_inputObject?
    exact ih ((hexplored _ object hmem hobject _ hfield _ hrequired).2 next hnext)

/-! ### The search follows a run -/

def unseen (schema : Schema) (seen : List Name) : List Name :=
  schema.types.names.filter fun name => name ∉ seen

theorem length_unseen_le {seen seen' : List Name} (h : seen ⊆ seen') :
    (schema.unseen seen').length ≤ (schema.unseen seen).length := by
  apply List.Sublist.length_le
  apply List.monotone_filter_right
  intro name hname
  simp only [decide_eq_true_eq] at hname ⊢
  exact fun hmem => hname (h hmem)

theorem length_unseen_cons_lt {seen : List Name} {object : InputObjectType}
    (hobject : schema.inputObject? object.name.text = some object) (hnot : object.name ∉ seen) :
    (schema.unseen (object.name :: seen)).length < (schema.unseen seen).length := by
  have hmem : object.name ∈ schema.types.names :=
    List.mem_map_of_mem (Catalog.mem_of_get? (inputObject?_eq_some_iff.mp hobject))
  have hfilter : schema.unseen (object.name :: seen) =
      (schema.unseen seen).filter fun name => name ≠ object.name := by
    simp [unseen, List.filter_filter]
  rw [hfilter, List.length_filter_lt_length_iff_exists]
  exact ⟨object.name, List.mem_filter.mpr ⟨hmem, by simpa using hnot⟩, by simp⟩

section Step

variable {target owner : Name} {enter : InputObjectType → List Name → Search}
  {field : InputField} {fields : List InputField} {seen : List Name}

theorem searchFields_hit (h : field.required? = some target) :
    schema.searchFields target owner enter (field :: fields) seen =
      .found [⟨owner, field.name⟩] := by
  rw [searchFields, h]
  simp

theorem searchFields_pass (h : schema.PassesOver target seen field) :
    schema.searchFields target owner enter (field :: fields) seen =
      schema.searchFields target owner enter fields seen := by
  rw [searchFields]
  cases hrequired : field.required? with
  | none => rfl
  | some next =>
    obtain ⟨hne, hmem | hnone⟩ := h next hrequired
    · simp [hne, hmem]
    · simp [hne, hnone]

theorem searchFields_enter {object : InputObjectType}
    (h : schema.Enters target seen field object) :
    schema.searchFields target owner enter (field :: fields) seen =
      match enter object (object.name :: seen) with
      | .found trace => .found (⟨owner, field.name⟩ :: trace)
      | .exhausted seen' => schema.searchFields target owner enter fields seen' := by
  obtain ⟨hrequired, hne, hnot, hobject⟩ := h
  cases hresult : enter object (object.name :: seen) with
  | found trace => simp [searchFields, hrequired, hne, hnot, hobject, hresult]
  | exhausted seen' => simp [searchFields, hrequired, hne, hnot, hobject, hresult]

/-- A field requires the target, or is passed over, or an input object is entered for it. -/
theorem field_cases (schema : Schema) (target : Name) (seen : List Name) (field : InputField) :
    field.required? = some target ∨ schema.PassesOver target seen field ∨
      ∃ object, schema.Enters target seen field object := by
  cases hrequired : field.required? with
  | none => exact .inr (.inl fun next hnext => by rw [hrequired] at hnext; cases hnext)
  | some name =>
    by_cases htarget : name = target
    · exact .inl (congrArg some htarget)
    · have hpassed (h : name ∈ seen ∨ schema.inputObject? name.text = none) :
          schema.PassesOver target seen field := by
        intro next hnext
        rw [hrequired] at hnext
        cases hnext
        exact ⟨htarget, h⟩
      by_cases hmem : name ∈ seen
      · exact .inr (.inl (hpassed (.inl hmem)))
      · cases hobject : schema.inputObject? name.text with
        | none => exact .inr (.inl (hpassed (.inr hobject)))
        | some object =>
          obtain rfl := name_of_inputObject? hobject
          exact .inr (.inr ⟨object, hrequired, htarget, hmem, hobject⟩)

end Step

/-- The search through fields is a run if the searches inside are, for as many names as are left
when an input object has been entered. -/
theorem searchRun_searchFields {target owner : Name}
    {enter : InputObjectType → List Name → Search} {bound : Nat}
    (henter : ∀ object seen, (schema.unseen seen).length < bound →
      schema.SearchRun target object.name object.fields.entries seen (enter object seen))
    {fields : List InputField} {seen : List Name}
    (hseen : (schema.unseen seen).length ≤ bound) :
    schema.SearchRun target owner fields seen
      (schema.searchFields target owner enter fields seen) := by
  induction fields generalizing seen with
  | nil => exact .done
  | cons field fields ih =>
    rcases field_cases schema target seen field with hhit | hpassed | ⟨object, entered⟩
    · rw [searchFields_hit hhit]
      exact .hit hhit
    · rw [searchFields_pass hpassed]
      exact .pass hpassed (ih hseen)
    · have hless := length_unseen_cons_lt entered.2.2.2 entered.2.2.1
      have inner := henter object (object.name :: seen) (by omega)
      rw [searchFields_enter entered]
      cases hresult : enter object (object.name :: seen) with
      | found trace =>
        rw [hresult] at inner
        exact .found entered inner
      | exhausted seen' =>
        rw [hresult] at inner
        -- The search inside has seen at least what the one around it had seen.
        have hsubset : seen ⊆ seen' :=
          fun _ h => inner.subset rfl (List.mem_cons_of_mem _ h)
        have hrest : (schema.unseen seen').length ≤ (schema.unseen seen).length :=
          length_unseen_le hsubset
        exact .back entered inner (ih (by omega))

/-- A search is a run if its depth is more than the number of names that have not been seen. -/
theorem searchRun_search {target : Name} {depth : Nat} (object : InputObjectType)
    {seen : List Name} (hseen : (schema.unseen seen).length < depth) :
    schema.SearchRun target object.name object.fields.entries seen
      (schema.search target depth object seen) := by
  induction depth generalizing object seen with
  | zero => omega
  | succ depth ih => exact searchRun_searchFields (fun object seen h => ih object h) (by omega)

def Search.trace? : Search → Option (List FieldCoordinate)
  | found trace => some trace
  | exhausted _ => none

/-- What decides about a cycle is a run of the search from an input object that has been seen. -/
theorem exists_searchRun_findCycle? (schema : Schema) (object : InputObjectType) :
    ∃ result, schema.SearchRun object.name object.name object.fields.entries [object.name] result ∧
      schema.findCycle? object = result.trace? := by
  have hseen : (schema.unseen [object.name]).length < schema.types.entries.length + 1 := by
    have hle := List.length_filter_le (fun name => name ∉ [object.name]) schema.types.names
    have hlength : schema.types.names.length = schema.types.entries.length := List.length_map _
    unfold unseen
    omega
  refine ⟨_, searchRun_search object hseen, ?_⟩
  rw [findCycle?]
  split <;> rename_i h <;> rw [h] <;> rfl

/-- A cycle that is found leads from the input object back to it, and goes through no input object
twice. -/
theorem chain_of_findCycle? {object : InputObjectType}
    (hobject : schema.inputObject? object.name.text = some object) {trace : List FieldCoordinate}
    (h : schema.findCycle? object = some trace) :
    schema.Chain object.name object.name trace ∧ (trace.map FieldCoordinate.owner).Nodup := by
  obtain ⟨result, hrun, hresult⟩ := exists_searchRun_findCycle? schema object
  rw [h] at hresult
  cases result with
  | exhausted seen => cases hresult
  | found trace' =>
    cases hresult
    obtain ⟨hchain, rest, howners, hnodup, hfresh⟩ := hrun.chain hobject (fun _ h => h) rfl
    refine ⟨hchain, ?_⟩
    rw [howners]
    exact List.nodup_cons.mpr ⟨fun hmem => hfresh _ hmem List.mem_cons_self, hnodup⟩

theorem findCycle?_eq_none_iff {object : InputObjectType}
    (hobject : schema.inputObject? object.name.text = some object) :
    schema.findCycle? object = none ↔ ¬ schema.OnCycle object.name := by
  obtain ⟨result, hrun, hresult⟩ := exists_searchRun_findCycle? schema object
  cases result with
  | found trace =>
    have hchain := (chain_of_findCycle? hobject hresult).1
    simpa [hresult, Search.trace?] using ⟨trace, hchain⟩
  | exhausted seen =>
    have hmem : object.name ∈ seen := hrun.subset rfl List.mem_cons_self
    have hnot : ¬ schema.OnCycle object.name := fun ⟨trace, hchain⟩ =>
      not_chain_of_exhausted hobject hrun hmem hchain
    simpa [hresult, Search.trace?] using hnot

end InputCoercion.Schema
