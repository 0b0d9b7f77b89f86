import InputCoercion.Keyed
import InputCoercion.Name

/-!
Collections of named things: the types of a schema, the values of an enum, the fields of an input
object, the members of an input union. Every name occurs once, the order is that of first
definition, and a later definition takes the place of an earlier one of the same name.
-/

namespace InputCoercion

/-- Things that carry the name under which they are looked up. -/
class Named (α : Type) where
  name : α → Name

instance : Named Name := ⟨id⟩

@[simp] theorem Named.name_self (n : Name) : Named.name n = n := rfl

/-- The name of a thing as a text. -/
def Named.text {α : Type} [Named α] (a : α) : String := (Named.name a).text

/-- Named things in order, no two of one name. -/
structure Catalog (α : Type) [Named α] where
  entries : List α
  nodup : (entries.map Named.name).Nodup

namespace Catalog

variable {α : Type} [Named α]

theorem ext {c d : Catalog α} (h : c.entries = d.entries) : c = d := by
  cases c; cases d; simp_all

instance [DecidableEq α] : DecidableEq (Catalog α) := fun c d =>
  decidable_of_iff (c.entries = d.entries) ⟨ext, congrArg entries⟩

def empty : Catalog α := ⟨[], List.nodup_nil⟩

/-- Adds a definition, or replaces the one that has its name. -/
def define (c : Catalog α) (a : α) : Catalog α :=
  ⟨Keyed.insert Named.name a c.entries, Keyed.nodup_keys_insert c.nodup⟩

/-- Adds definitions from left to right. -/
def defineAll (c : Catalog α) (l : List α) : Catalog α :=
  l.foldl define c

def ofList (l : List α) : Catalog α :=
  defineAll empty l

/-- The definition of a given name. The name is any text, as it comes from a value. -/
def get? (c : Catalog α) (name : String) : Option α :=
  Keyed.find? Named.text name c.entries

def contains (c : Catalog α) (name : String) : Bool :=
  (c.get? name).isSome

/-- The names in order. -/
def names (c : Catalog α) : List Name :=
  c.entries.map Named.name

/-- The names in order, as texts. -/
def texts (c : Catalog α) : List String :=
  c.entries.map Named.text

@[simp] theorem entries_empty : (empty : Catalog α).entries = [] := rfl

@[simp] theorem entries_define (c : Catalog α) (a : α) :
    (c.define a).entries = Keyed.insert Named.name a c.entries := rfl

@[simp] theorem entries_defineAll (c : Catalog α) (l : List α) :
    (c.defineAll l).entries = Keyed.insertAll Named.name c.entries l := by
  induction l generalizing c with
  | nil => rfl
  | cons a l ih => exact ih (c.define a)

theorem name_of_get? {c : Catalog α} {name : String} {a : α} (h : c.get? name = some a) :
    Named.text a = name :=
  Keyed.key_eq_of_find?_eq_some h

theorem mem_of_get? {c : Catalog α} {name : String} {a : α} (h : c.get? name = some a) :
    a ∈ c.entries :=
  Keyed.mem_of_find?_eq_some h

/-- The names are distinct as texts, too. -/
theorem nodup_texts (c : Catalog α) : (c.entries.map Named.text).Nodup := by
  have h : c.entries.map Named.text = (c.entries.map Named.name).map Name.text := by
    simp [Named.text, Function.comp_def]
  rw [h]
  exact List.Pairwise.map Name.text (fun _ _ hne heq => hne (Name.ext heq)) c.nodup

theorem get?_text_of_mem {c : Catalog α} {a : α} (h : a ∈ c.entries) :
    c.get? (Named.text a) = some a :=
  Keyed.find?_eq_some_of_mem c.nodup_texts h

theorem contains_iff {c : Catalog α} {name : String} :
    c.contains name = true ↔ name ∈ c.entries.map Named.text := by
  rw [contains, get?, Option.isSome_iff_ne_none, ne_eq, Keyed.find?_eq_none_iff,
    Classical.not_not]

theorem isSome_get?_iff {c : Catalog α} {name : Name} :
    (c.get? name.text).isSome = true ↔ name ∈ c.names := by
  rw [Option.isSome_iff_exists, names, List.mem_map]
  constructor
  · rintro ⟨a, ha⟩
    exact ⟨a, mem_of_get? ha, Name.ext (name_of_get? ha)⟩
  · rintro ⟨a, ha, rfl⟩
    exact ⟨a, get?_text_of_mem ha⟩

end Catalog

end InputCoercion
