/-!
Lists of entries that each carry a key, in order of first insertion. An insertion under a key that
is already present replaces the entry where it stands, so that a list built by insertions holds
every key once, at the position of its first insertion and with the entry of its last.
-/

namespace InputCoercion.Keyed

variable {α κ : Type} [DecidableEq κ] (key : α → κ)

/-- The entry under a key. Where a list repeats the key, the first one. -/
def find? (k : κ) (entries : List α) : Option α :=
  entries.find? fun e => key e = k

/-- Puts an entry in the place of the one that has its key, or at the end if the key is new. -/
def insert (a : α) : List α → List α
  | [] => [a]
  | e :: es => if key e = key a then a :: es else e :: insert a es

/-- Inserts entries from left to right. -/
def insertAll (entries : List α) (new : List α) : List α :=
  new.foldl (fun es a => insert key a es) entries

/-- The entries of a list that may repeat a key, under the rule of insertion. -/
def ofList (entries : List α) : List α :=
  insertAll key [] entries

/-- Removes the entries under a key; the others keep their order. -/
def erase (k : κ) (entries : List α) : List α :=
  entries.filter fun e => key e ≠ k

variable {key}

@[simp] theorem find?_nil (k : κ) : find? key k [] = none := rfl

theorem find?_cons (k : κ) (e : α) (es : List α) :
    find? key k (e :: es) = if key e = k then some e else find? key k es := by
  by_cases h : key e = k <;> simp [find?, h]

theorem key_eq_of_find?_eq_some {k : κ} {es : List α} {e : α}
    (h : find? key k es = some e) : key e = k := by
  simpa using List.find?_some h

theorem mem_of_find?_eq_some {k : κ} {es : List α} {e : α}
    (h : find? key k es = some e) : e ∈ es :=
  List.mem_of_find?_eq_some h

/-- An inserted entry is found under its key. -/
@[simp] theorem find?_insert_self (a : α) (es : List α) :
    find? key (key a) (insert key a es) = some a := by
  induction es with
  | nil => simp [insert, find?_cons]
  | cons e es ih =>
    simp only [insert]
    split
    · simp [find?_cons]
    · rename_i h
      rw [find?_cons, if_neg h, ih]

/-- What is found under other keys stays. -/
theorem find?_insert_of_ne {a : α} {k : κ} (h : key a ≠ k) (es : List α) :
    find? key k (insert key a es) = find? key k es := by
  induction es with
  | nil => simp [insert, find?_cons, h]
  | cons e es ih =>
    simp only [insert]
    split
    · rename_i he
      rw [find?_cons, find?_cons, if_neg h, if_neg (he ▸ h)]
    · rw [find?_cons, find?_cons, ih]

/-- Nothing is in a list but what has been inserted. -/
theorem mem_of_mem_insert {a b : α} {es : List α} (h : b ∈ insert key a es) : b = a ∨ b ∈ es := by
  induction es with
  | nil => exact .inl (List.mem_singleton.mp h)
  | cons e es ih =>
    rw [insert] at h
    split at h
    · rcases List.mem_cons.mp h with rfl | h
      · exact .inl rfl
      · exact .inr (List.mem_cons_of_mem e h)
    · rcases List.mem_cons.mp h with rfl | h
      · exact .inr List.mem_cons_self
      · exact (ih h).imp_right (List.mem_cons_of_mem e)

theorem mem_of_mem_insertAll {b : α} {new es : List α} (h : b ∈ insertAll key es new) :
    b ∈ es ∨ b ∈ new := by
  induction new generalizing es with
  | nil => exact .inl h
  | cons a new ih =>
    rcases ih h with h | h
    · rcases mem_of_mem_insert h with rfl | h
      · exact .inr List.mem_cons_self
      · exact .inl h
    · exact .inr (List.mem_cons_of_mem a h)

theorem mem_keys_insert {k : κ} {a : α} {es : List α} :
    k ∈ (insert key a es).map key ↔ k ∈ es.map key ∨ k = key a := by
  induction es with
  | nil => simp [insert]
  | cons e es ih =>
    simp only [insert]
    split
    · rename_i h
      simp only [List.map_cons, List.mem_cons, h]
      grind
    · simp only [List.map_cons, List.mem_cons, ih, or_assoc]

/-- Insertion keeps keys distinct. -/
theorem nodup_keys_insert {a : α} {es : List α} (h : (es.map key).Nodup) :
    ((insert key a es).map key).Nodup := by
  induction es with
  | nil => simp [insert]
  | cons e es ih =>
    simp only [List.map_cons, List.nodup_cons] at h
    simp only [insert]
    split
    · rename_i he
      simpa only [List.map_cons, List.nodup_cons, he] using he ▸ h
    · rename_i he
      simp only [List.map_cons, List.nodup_cons, mem_keys_insert]
      exact ⟨by grind, ih h.2⟩

theorem nodup_keys_insertAll {new es : List α} (h : (es.map key).Nodup) :
    ((insertAll key es new).map key).Nodup := by
  induction new generalizing es with
  | nil => simpa [insertAll] using h
  | cons a new ih => exact ih (nodup_keys_insert h)

theorem find?_eq_none_iff {k : κ} {es : List α} : find? key k es = none ↔ k ∉ es.map key := by
  simp [find?]

/-- Where no key is repeated, every entry is found under its key. -/
theorem find?_eq_some_of_mem {a : α} {es : List α} (h : (es.map key).Nodup) (ha : a ∈ es) :
    find? key (key a) es = some a := by
  induction es with
  | nil => simp at ha
  | cons e es ih =>
    simp only [List.map_cons, List.nodup_cons] at h
    rcases List.mem_cons.mp ha with rfl | ha
    · simp [find?_cons]
    · have hne : key e ≠ key a := fun he => h.1 (he ▸ List.mem_map_of_mem ha)
      rw [find?_cons, if_neg hne, ih h.2 ha]

theorem erase_cons (k : κ) (e : α) (es : List α) :
    erase key k (e :: es) = if key e = k then erase key k es else e :: erase key k es := by
  by_cases h : key e = k <;> simp [erase, h]

/-- Erasing under one key leaves what is found under the others. -/
theorem find?_erase_of_ne {j k : κ} (h : k ≠ j) (es : List α) :
    find? key k (erase key j es) = find? key k es := by
  induction es with
  | nil => rfl
  | cons e es ih =>
    rw [erase_cons, find?_cons]
    split
    · rename_i he
      rw [ih, if_neg (he ▸ h.symm)]
    · rw [find?_cons, ih]

/-- An insertion passes by the entries that do not have its key. -/
theorem insert_append_of_not_mem {a : α} {es fs : List α} (h : key a ∉ es.map key) :
    insert key a (es ++ fs) = es ++ insert key a fs := by
  induction es with
  | nil => rfl
  | cons e es ih =>
    simp only [List.map_cons, List.mem_cons, not_or] at h
    rw [List.cons_append, insert, if_neg (Ne.symm h.1), ih h.2, List.cons_append]

/-- An entry with a new key goes to the end. -/
theorem insert_of_not_mem {a : α} {es : List α} (h : key a ∉ es.map key) :
    insert key a es = es ++ [a] := by
  have hpassed : insert key a (es ++ []) = es ++ insert key a [] := insert_append_of_not_mem h
  rwa [List.append_nil] at hpassed

/-- Entries with new keys are appended in their order. -/
theorem insertAll_of_nodup {es new : List α} (h : ((es ++ new).map key).Nodup) :
    insertAll key es new = es ++ new := by
  induction new generalizing es with
  | nil => simp [insertAll]
  | cons a new ih =>
    have ha : key a ∉ es.map key := by
      rw [List.map_append, List.nodup_append] at h
      exact fun hmem => h.2.2 _ hmem _ (by simp) rfl
    have hcons : insertAll key es (a :: new) = insertAll key (es ++ [a]) new := by
      rw [← insert_of_not_mem ha]
      rfl
    rw [hcons, ih (by simpa using h)]
    simp

theorem insertAll_append (es xs ys : List α) :
    insertAll key es (xs ++ ys) = insertAll key (insertAll key es xs) ys :=
  List.foldl_append

/-- Insertions under other keys leave what is found. -/
theorem find?_insertAll_of_not_mem {k : κ} {es new : List α} (h : k ∉ new.map key) :
    find? key k (insertAll key es new) = find? key k es := by
  induction new generalizing es with
  | nil => rfl
  | cons a new ih =>
    simp only [List.map_cons, List.mem_cons, not_or] at h
    show find? key k (insertAll key (insert key a es) new) = _
    rw [ih h.2, find?_insert_of_ne (Ne.symm h.1)]

/-- The last entry under a key is the one that is found. -/
theorem find?_insertAll_of_last {a : α} {es before after : List α} (h : key a ∉ after.map key) :
    find? key (key a) (insertAll key es (before ++ a :: after)) = some a := by
  rw [insertAll_append]
  show find? key (key a) (insertAll key (insert key a (insertAll key es before)) after) = some a
  rw [find?_insertAll_of_not_mem h, find?_insert_self]

/-- Entries under the rule of insertion are not changed by it again. -/
theorem ofList_ofList (entries : List α) :
    ofList key (ofList key entries) = ofList key entries :=
  insertAll_of_nodup (nodup_keys_insertAll List.nodup_nil)

/-- Looking up commutes with a change of the values under the keys. -/
theorem find?_map_snd {β γ : Type} (f : β → γ) (k : κ) (es : List (κ × β)) :
    find? Prod.fst k (es.map fun e => (e.1, f e.2)) =
      (find? Prod.fst k es).map fun e => (e.1, f e.2) := by
  induction es with
  | nil => rfl
  | cons e es ih =>
    rw [List.map_cons, find?_cons, find?_cons, ih]
    split <;> rfl

/-- Erasing commutes with a change of the values under the keys. -/
theorem erase_map_snd {β γ : Type} (f : β → γ) (k : κ) (es : List (κ × β)) :
    erase Prod.fst k (es.map fun e => (e.1, f e.2)) =
      (erase Prod.fst k es).map fun e => (e.1, f e.2) := by
  simp only [erase, List.filter_map]
  rfl

/-- What only the entry under one key contributes to, where no key is repeated. -/
theorem flatMap_eq_of_nodup {β : Type} {g : α → List β} {k : κ} {es : List α}
    (h : (es.map key).Nodup) (hg : ∀ e ∈ es, key e ≠ k → g e = []) :
    es.flatMap g = ((find? key k es).map g).getD [] := by
  induction es with
  | nil => rfl
  | cons e es ih =>
    simp only [List.map_cons, List.nodup_cons] at h
    have hrest := ih h.2 fun e' he' => hg e' (List.mem_cons_of_mem e he')
    rw [List.flatMap_cons, hrest, find?_cons]
    split
    · rename_i he
      have hnone : find? key k es = none := find?_eq_none_iff.mpr (he ▸ h.1)
      simp [hnone]
    · rename_i he
      simp [hg e List.mem_cons_self he]

end InputCoercion.Keyed
