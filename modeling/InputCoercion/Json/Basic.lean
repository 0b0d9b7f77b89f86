import InputCoercion.Keyed
import InputCoercion.Number

/-!
JSON values. The entries of an object stand in order; where a value comes out of this library, or
was read by it as a value, no object repeats a key.
-/

namespace InputCoercion

/-- A JSON value. -/
inductive Json where
  | null
  | bool (value : Bool)
  | number (value : Number)
  | string (value : String)
  | array (items : List Json)
  | object (entries : List (String × Json))

/-- The entries of an object, or values bound to names. -/
abbrev Entries := List (String × Json)

namespace Entries

/-- The value under a key. -/
def get? (key : String) (entries : Entries) : Option Json :=
  (Keyed.find? Prod.fst key entries).map Prod.snd

def contains (key : String) (entries : Entries) : Bool :=
  (get? key entries).isSome

/-- Sets the value under a key, in place or at the end. -/
def insert (key : String) (value : Json) (entries : Entries) : Entries :=
  Keyed.insert Prod.fst (key, value) entries

def erase (key : String) (entries : Entries) : Entries :=
  Keyed.erase Prod.fst key entries

def keys (entries : Entries) : List String :=
  entries.map Prod.fst

/-- Entries under the rule of insertion: a repeated key keeps its first position and its last
value. -/
def ofList (entries : Entries) : Entries :=
  Keyed.ofList Prod.fst entries

@[simp] theorem get?_nil (key : String) : get? key [] = none := rfl

theorem get?_cons (key k : String) (value : Json) (entries : Entries) :
    get? key ((k, value) :: entries) = if k = key then some value else get? key entries := by
  simp only [get?, Keyed.find?_cons]
  split <;> rfl

@[simp] theorem get?_insert_self (key : String) (value : Json) (entries : Entries) :
    get? key (insert key value entries) = some value := by
  have h := @Keyed.find?_insert_self _ _ _ Prod.fst (key, value) entries
  simp only [get?, insert]
  rw [h]
  rfl

theorem get?_insert_of_ne {key k : String} (h : k ≠ key) (value : Json) (entries : Entries) :
    get? key (insert k value entries) = get? key entries := by
  simp only [get?, insert]
  rw [Keyed.find?_insert_of_ne h]

theorem get?_eq_none_iff {key : String} {entries : Entries} :
    get? key entries = none ↔ key ∉ keys entries := by
  rw [get?, Option.map_eq_none_iff, Keyed.find?_eq_none_iff, keys]

theorem get?_erase_of_ne {key k : String} (h : key ≠ k) (entries : Entries) :
    get? key (erase k entries) = get? key entries := by
  rw [get?, erase, Keyed.find?_erase_of_ne h, get?]

theorem keys_erase (key : String) (entries : Entries) :
    keys (erase key entries) = (keys entries).filter fun k => decide (k ≠ key) := by
  rw [keys, erase, Keyed.erase, keys, List.filter_map]
  rfl

theorem mem_keys_erase {key k : String} {entries : Entries} :
    key ∈ keys (erase k entries) ↔ key ∈ keys entries ∧ key ≠ k := by
  rw [keys_erase, List.mem_filter, decide_eq_true_eq]

@[simp] theorem get?_erase_self (key : String) (entries : Entries) :
    get? key (erase key entries) = none := by
  rw [get?_eq_none_iff, mem_keys_erase]
  simp

theorem mem_of_get? {key : String} {entries : Entries} {value : Json}
    (h : get? key entries = some value) : (key, value) ∈ entries := by
  obtain ⟨entry, hfind, rfl⟩ := Option.map_eq_some_iff.mp h
  obtain rfl := Keyed.key_eq_of_find?_eq_some hfind
  exact Keyed.mem_of_find?_eq_some hfind

end Entries

namespace Json

/-- An integer as a JSON value. -/
def ofInt (value : Int) : Json :=
  .number (.int value)

def isNull : Json → Bool
  | null => true
  | _ => false

def string? : Json → Option String
  | string value => some value
  | _ => none

/-! ### Equality -/

mutual

/-- Whether two values are equal, the order of entries included. -/
def beq : Json → Json → Bool
  | null, null => true
  | bool a, bool b => a == b
  | number a, number b => a == b
  | string a, string b => a == b
  | array as, array bs => beqItems as bs
  | object as, object bs => beqEntries as bs
  | _, _ => false

def beqItems : List Json → List Json → Bool
  | [], [] => true
  | a :: as, b :: bs => beq a b && beqItems as bs
  | _, _ => false

def beqEntries : List (String × Json) → List (String × Json) → Bool
  | [], [] => true
  | (k, a) :: as, (l, b) :: bs => k == l && beq a b && beqEntries as bs
  | _, _ => false

end

mutual

theorem beq_iff (a b : Json) : beq a b = true ↔ a = b := by
  cases a <;> cases b <;> simp [beq, beqItems_iff, beqEntries_iff]

theorem beqItems_iff (as bs : List Json) : beqItems as bs = true ↔ as = bs := by
  match as, bs with
  | [], [] => simp [beqItems]
  | [], _ :: _ => simp [beqItems]
  | _ :: _, [] => simp [beqItems]
  | a :: as, b :: bs => simp [beqItems, beq_iff a b, beqItems_iff as bs]

theorem beqEntries_iff (as bs : List (String × Json)) : beqEntries as bs = true ↔ as = bs := by
  match as, bs with
  | [], [] => simp [beqEntries]
  | [], _ :: _ => simp [beqEntries]
  | _ :: _, [] => simp [beqEntries]
  | (k, a) :: as, (l, b) :: bs => simp [beqEntries, beq_iff a b, beqEntries_iff as bs, and_assoc]

end

instance : DecidableEq Json := fun a b => decidable_of_iff _ (beq_iff a b)

/-! ### Repeated keys -/

mutual

/-- Puts every object in a value that may repeat keys under the rule of insertion. -/
def mergeRepeats : Json → Json
  | array items => array (mergeRepeatsItems items)
  | object entries => object (Entries.ofList (mergeRepeatsEntries entries))
  | value => value

def mergeRepeatsItems : List Json → List Json
  | [] => []
  | item :: items => item.mergeRepeats :: mergeRepeatsItems items

def mergeRepeatsEntries : List (String × Json) → List (String × Json)
  | [] => []
  | (key, value) :: entries => (key, value.mergeRepeats) :: mergeRepeatsEntries entries

end

theorem mergeRepeatsItems_eq_map (items : List Json) :
    mergeRepeatsItems items = items.map mergeRepeats := by
  induction items with
  | nil => rfl
  | cons item items ih => rw [mergeRepeatsItems, ih, List.map_cons]

theorem mergeRepeatsEntries_eq_map (entries : Entries) :
    mergeRepeatsEntries entries = entries.map fun entry => (entry.1, entry.2.mergeRepeats) := by
  induction entries with
  | nil => rfl
  | cons entry entries ih => rw [mergeRepeatsEntries, ih, List.map_cons]

theorem mergeRepeats_array_eq_self_iff {items : List Json} :
    (array items).mergeRepeats = array items ↔ ∀ item ∈ items, item.mergeRepeats = item := by
  rw [mergeRepeats, array.injEq, mergeRepeatsItems_eq_map]
  induction items with
  | nil => simp
  | cons item items ih => rw [List.map_cons, List.cons.injEq, ih, List.forall_mem_cons]

/-- A value is left as it is if no object in it repeats a key. -/
theorem mergeRepeats_object_eq_self_iff {entries : Entries} :
    (object entries).mergeRepeats = object entries ↔
      (Entries.keys entries).Nodup ∧ ∀ entry ∈ entries, entry.2.mergeRepeats = entry.2 := by
  have hvalues : (entries.map fun entry => (entry.1, entry.2.mergeRepeats)) = entries ↔
      ∀ entry ∈ entries, entry.2.mergeRepeats = entry.2 := by
    induction entries with
    | nil => simp
    | cons entry entries ih =>
      rw [List.map_cons, List.cons.injEq, ih, List.forall_mem_cons, Prod.ext_iff]
      simp only [true_and]
  have hkeys : Entries.keys entries =
      Entries.keys (entries.map fun entry => (entry.1, entry.2.mergeRepeats)) := by
    simp [Entries.keys]
  rw [mergeRepeats, object.injEq, mergeRepeatsEntries_eq_map, ← hvalues]
  constructor
  · intro h
    have hnodup : (Entries.keys entries).Nodup := h ▸ Keyed.nodup_keys_insertAll List.nodup_nil
    have hmapped := hkeys ▸ hnodup
    have hmerged : Entries.ofList (entries.map fun entry => (entry.1, entry.2.mergeRepeats)) = _ :=
      Keyed.insertAll_of_nodup hmapped
    exact ⟨hnodup, hmerged.symm.trans h⟩
  · rintro ⟨hnodup, h⟩
    rw [h]
    exact Keyed.insertAll_of_nodup hnodup

end Json

end InputCoercion
