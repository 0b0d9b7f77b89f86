import InputCoercion.Coercion.Promotion
import InputCoercion.InputType
import InputCoercion.Proofs.Name

/-!
Texts of types. A reader looks at the last character for a mark and at both ends for brackets, and a
name has neither there, so at most one rule applies to a text. Every text that is read is therefore
read in one way only, and the text that is written for a type is one that is read as this type.

Two texts may be read as one type, since a mark may be repeated. No text is written for two types.
-/

namespace InputCoercion.InputType

/-- Characters that stand for a type. -/
inductive Spells : List Char → InputType → Prop
  | name (name : Name) : Spells name.text.toList (named name false)
  | list {cs : List Char} {item : InputType} (h : Spells cs item) :
      Spells ('[' :: (cs ++ [']'])) (list item false)
  | nonNull {cs : List Char} {t : InputType} (h : Spells cs t) : Spells (cs ++ ['!']) t.nonNull

/-! ### One rule for every text -/

theorem dropLast?_eq_some_iff {c : Char} {cs rest : List Char} :
    dropLast? c cs = some rest ↔ cs = rest ++ [c] := by
  rw [dropLast?]
  split
  · rename_i h
    obtain ⟨before, rfl⟩ := List.getLast?_eq_some_iff.mp h
    rw [List.dropLast_concat, Option.some.injEq, List.append_cancel_right_eq]
  · rename_i h
    refine iff_of_false (Option.some_ne_none rest).symm ?_
    rintro rfl
    exact h (List.getLast?_concat ..)

theorem dropBrackets?_eq_some_iff {cs inner : List Char} :
    dropBrackets? cs = some inner ↔ cs = '[' :: (inner ++ [']']) := by
  rw [dropBrackets?.eq_def]
  split
  · rw [dropLast?_eq_some_iff, List.cons.injEq, and_iff_right rfl]
  · rename_i h
    refine iff_of_false (Option.some_ne_none inner).symm ?_
    rintro rfl
    exact h _ rfl

theorem ofChars_marked (cs : List Char) : ofChars (cs ++ ['!']) = nonNull <$> ofChars cs := by
  have hmark : dropLast? '!' (cs ++ ['!']) = some cs := dropLast?_eq_some_iff.mpr rfl
  rw [ofChars]
  split
  · rename_i rest h
    rw [hmark] at h
    cases h
    rfl
  · rename_i h
    rw [hmark] at h
    cases h

theorem ofChars_bracketed (cs : List Char) :
    ofChars ('[' :: (cs ++ [']'])) = (list · false) <$> ofChars cs := by
  have hbrackets : dropBrackets? ('[' :: (cs ++ [']'])) = some cs :=
    dropBrackets?_eq_some_iff.mpr rfl
  rw [ofChars]
  split
  · -- The last character is a bracket and no mark.
    rename_i rest h
    rw [dropLast?_eq_some_iff, ← List.cons_append] at h
    cases (List.append_inj' h rfl).2
  · split
    · rename_i inner h
      rw [hbrackets] at h
      cases h
      rfl
    · rename_i h
      rw [hbrackets] at h
      cases h

theorem ofChars_name (name : Name) : ofChars name.text.toList = .ok (named name false) := by
  have hmem {c : Char} (h : ¬ Name.IsContinue c) : c ∉ name.text.toList :=
    fun hmem => h (Name.isContinue_of_mem hmem)
  rw [ofChars]
  split
  · rename_i rest h
    refine absurd ?_ (hmem (c := '!') (by decide))
    rw [dropLast?_eq_some_iff.mp h, List.mem_append]
    exact .inr List.mem_cons_self
  · split
    · rename_i inner h
      refine absurd ?_ (hmem (c := '[') (by decide))
      rw [dropBrackets?_eq_some_iff.mp h]
      exact List.mem_cons_self
    · rw [String.ofList_toList, Name.ofString_text]
      rfl

/-! ### Reading and writing -/

theorem ofChars_of_spells {cs : List Char} {t : InputType} (h : Spells cs t) :
    ofChars cs = .ok t := by
  induction h with
  | name name => exact ofChars_name name
  | list h ih => rw [ofChars_bracketed, ih]; rfl
  | nonNull h ih => rw [ofChars_marked, ih]; rfl

theorem spells_of_ofChars {cs : List Char} {t : InputType} (h : ofChars cs = .ok t) :
    Spells cs t := by
  fun_induction ofChars cs generalizing t with
  | case1 cs rest hmark ih =>
    obtain ⟨u, hread, rfl⟩ := map_eq_ok_iff.mp h
    rw [dropLast?_eq_some_iff.mp hmark]
    exact .nonNull (ih hread)
  | case2 cs hmark inner hbrackets ih =>
    obtain ⟨item, hread, rfl⟩ := map_eq_ok_iff.mp h
    rw [dropBrackets?_eq_some_iff.mp hbrackets]
    exact .list (ih hread)
  | case3 cs hmark hbrackets =>
    obtain ⟨name, hread, rfl⟩ := map_eq_ok_iff.mp h
    rw [← String.toList_ofList (l := cs), ← Name.text_of_ofString hread]
    exact .name name

/-- A text is read as a type if and only if it spells this type. -/
theorem ofString_eq_ok_iff_spells {s : String} {t : InputType} :
    ofString s = .ok t ↔ Spells s.toList t :=
  ⟨spells_of_ofChars, ofChars_of_spells⟩

/-- The text of a type spells it. -/
theorem spells_text (t : InputType) : Spells t.text.toList t := by
  induction t with
  | named name nonNull =>
    rw [text, String.toList_append]
    cases nonNull with
    | false => simpa [mark] using Spells.name name
    | true => exact (Spells.name name).nonNull
  | list item nonNull ih =>
    have hbrackets : ("[" ++ item.text ++ "]").toList = '[' :: (item.text.toList ++ [']']) := by
      simp only [String.toList_append]
      rfl
    rw [text, String.toList_append, hbrackets]
    cases nonNull with
    | false => simpa [mark] using ih.list
    | true => exact ih.list.nonNull

/-- Reading undoes writing. -/
theorem ofString_text (t : InputType) : ofString t.text = .ok t :=
  ofString_eq_ok_iff_spells.mpr (spells_text t)

theorem text_inj {t u : InputType} : t.text = u.text ↔ t = u := by
  refine ⟨fun h => ?_, congrArg text⟩
  have hread := ofString_text t
  rw [h, ofString_text u] at hread
  exact (Except.ok.inj hread).symm

/-- A mark behind the text of the nullable type makes the text of the non-null one. -/
theorem text_nonNull (t : InputType) : t.nonNull.text = t.nullable.text ++ "!" := by
  cases t <;> simp [nonNull, nullable, text, mark]

/-- A text is read as the type that it spells, by a mark at its end, by brackets around it or as a
name. The text of a type is read as this type, so that no two types share a text. The same holds of
the non-null type and the nullable one that are made of a type, whose texts differ by a mark. -/
theorem ofString_text_and_text_inj :
    (∀ s t, ofString s = .ok t ↔ Spells s.toList t) ∧
      (∀ t : InputType, ofString t.text = .ok t) ∧
      (∀ t u : InputType, t.text = u.text ↔ t = u) ∧
      ∀ t : InputType, ofString t.nonNull.text = .ok t.nonNull ∧
        ofString t.nullable.text = .ok t.nullable ∧ t.nonNull.text = t.nullable.text ++ "!" :=
  ⟨fun _ _ => ofString_eq_ok_iff_spells, ofString_text, fun _ _ => text_inj,
    fun t => ⟨ofString_text t.nonNull, ofString_text t.nullable, text_nonNull t⟩⟩

-- A mark may be repeated in what is read.
example : ofString "[ID!!]" = .ok (.list (.named ⟨"ID", rfl⟩ true) false) := by cbv

end InputCoercion.InputType
