import InputCoercion.Path
import InputCoercion.Proofs.Name
import Mathlib.Algebra.Order.Ring.Nat
import Mathlib.Data.Int.Notation

/-!
Paths can be recovered from what is written for them. Names have no dots and brackets in them, and
positions are closed by a bracket that is no digit. So where the texts of two paths agree, the steps
end at the same places and agree one after the other.

In JSON a step is a string or a number, which tells names and positions apart, and a path is read
from every list of names and positions and from nothing else.
-/

namespace InputCoercion

/-- Two beginnings of a text that are made of some characters and are followed by none of them are
the same. -/
theorem eq_and_eq_of_append_eq {p : Char → Prop} {xs ys xs' ys' : List Char}
    (hxs : ∀ c ∈ xs, p c) (hys : ∀ c ∈ ys, p c) (hxs' : ∀ c ∈ xs'.head?, ¬ p c)
    (hys' : ∀ c ∈ ys'.head?, ¬ p c) (h : xs ++ xs' = ys ++ ys') : xs = ys ∧ xs' = ys' := by
  induction xs generalizing ys with
  | nil =>
    cases ys with
    | nil => exact ⟨rfl, h⟩
    | cons y ys =>
      rw [List.nil_append] at h
      rw [h] at hxs'
      exact absurd (hys y List.mem_cons_self) (hxs' y rfl)
  | cons x xs ih =>
    cases ys with
    | nil =>
      rw [List.nil_append] at h
      rw [← h] at hys'
      exact absurd (hxs x List.mem_cons_self) (hys' x rfl)
    | cons y ys =>
      obtain ⟨rfl, hafter⟩ := List.cons.inj h
      obtain ⟨rfl, hrest⟩ :=
        ih (List.forall_mem_cons.mp hxs).2 (List.forall_mem_cons.mp hys).2 hafter
      exact ⟨rfl, hrest⟩

theorem toDigits_inj {m n : ℕ} (h : Nat.toDigits 10 m = Nat.toDigits 10 n) : m = n := by
  rw [← Nat.ofDigitChars_ten_toDigits (n := m), h, Nat.ofDigitChars_ten_toDigits]

namespace PathElement

/-! ### Texts -/

/-- Whether a text is empty or begins with a step. -/
def BeginsStep (cs : List Char) : Prop :=
  ∀ c ∈ cs.head?, c = '.' ∨ c = '['

theorem toList_text_field (name : Name) : (field name).text.toList = '.' :: name.text.toList := by
  rw [text, String.toList_append]
  rfl

theorem toList_text_index (position : ℕ) :
    (index position).text.toList = '[' :: (Nat.toDigits 10 position ++ [']']) := by
  rw [text, String.toList_append, String.toList_append, Nat.toList_repr]
  rfl

theorem toList_text_ne_nil (step : PathElement) : step.text.toList ≠ [] := by
  cases step with
  | field name => rw [toList_text_field]; exact List.cons_ne_nil _ _
  | index position => rw [toList_text_index]; exact List.cons_ne_nil _ _

theorem beginsStep_text_append (step : PathElement) (cs : List Char) :
    BeginsStep (step.text.toList ++ cs) := by
  cases step with
  | field name =>
    rw [toList_text_field]
    rintro _ ⟨⟩
    exact .inl rfl
  | index position =>
    rw [toList_text_index]
    rintro _ ⟨⟩
    exact .inr rfl

/-- A name ends where the next step begins. -/
theorem name_eq_and_eq_of_append_eq {m n : Name} {cs ds : List Char} (hcs : BeginsStep cs)
    (hds : BeginsStep ds) (h : m.text.toList ++ cs = n.text.toList ++ ds) : m = n ∧ cs = ds := by
  have hdelimiter {cs : List Char} (hcs : BeginsStep cs) :
      ∀ c ∈ cs.head?, ¬ Name.IsContinue c := by
    intro c hc
    rcases hcs c hc with rfl | rfl <;> decide
  obtain ⟨hnames, hrest⟩ := eq_and_eq_of_append_eq (p := Name.IsContinue)
    (fun _ => Name.isContinue_of_mem) (fun _ => Name.isContinue_of_mem) (hdelimiter hcs)
    (hdelimiter hds) h
  rw [String.toList_inj, Name.text_inj] at hnames
  exact ⟨hnames, hrest⟩

/-- A position ends at its bracket. -/
theorem position_eq_and_eq_of_append_eq {m n : ℕ} {cs ds : List Char}
    (h : Nat.toDigits 10 m ++ ']' :: cs = Nat.toDigits 10 n ++ ']' :: ds) : m = n ∧ cs = ds := by
  have hdigits (position : ℕ) : ∀ c ∈ Nat.toDigits 10 position, c.isDigit = true :=
    fun _ => Nat.isDigit_of_mem_toDigits (by decide) (by decide)
  have hbracket (cs : List Char) : ∀ c ∈ (']' :: cs).head?, ¬ c.isDigit = true := by
    rintro _ ⟨⟩
    decide
  obtain ⟨hpositions, hrest⟩ :=
    eq_and_eq_of_append_eq (hdigits m) (hdigits n) (hbracket cs) (hbracket ds) h
  exact ⟨toDigits_inj hpositions, (List.cons.inj hrest).2⟩

/-- A step is determined by a text that it begins, and so is the rest of this text. -/
theorem eq_and_eq_of_text_append_eq {a b : PathElement} {cs ds : List Char}
    (hcs : BeginsStep cs) (hds : BeginsStep ds)
    (h : a.text.toList ++ cs = b.text.toList ++ ds) : a = b ∧ cs = ds := by
  cases a with
  | field m =>
    cases b with
    | field n =>
      rw [toList_text_field, toList_text_field] at h
      obtain ⟨rfl, hrest⟩ := name_eq_and_eq_of_append_eq hcs hds (List.cons.inj h).2
      exact ⟨rfl, hrest⟩
    | index n =>
      rw [toList_text_field, toList_text_index] at h
      cases (List.cons.inj h).1
  | index m =>
    cases b with
    | field n =>
      rw [toList_text_field, toList_text_index] at h
      cases (List.cons.inj h).1
    | index n =>
      rw [toList_text_index, toList_text_index, List.cons_append, List.cons_append,
        List.append_assoc, List.append_assoc] at h
      obtain ⟨rfl, hrest⟩ := position_eq_and_eq_of_append_eq (List.cons.inj h).2
      exact ⟨rfl, hrest⟩

/-! ### JSON -/

/-- Whether the position, if the step has one, is a number of 64 bits. -/
def Fits : PathElement → Prop
  | field _ => True
  | index position => position < 2 ^ 64

/-- Whether a JSON value is a name or a number of 64 bits. -/
def IsStep (value : Json) : Prop :=
  (∃ s, value = .string s ∧ Name.Grammatical s.toList) ∨
    ∃ position : ℕ, value = .number (.int position) ∧ position < 2 ^ 64

theorem ofJson?_int_eq_some_iff {k : ℤ} {step : PathElement} :
    ofJson? (.number (.int k)) = some step ↔ step.Fits ∧ .number (.int k) = step.toJson := by
  have hbound : (positionBound : ℤ) = 2 ^ 64 := rfl
  rw [ofJson?, hbound, Option.ite_none_right_eq_some]
  cases step with
  | field name => simp [toJson, Name.toJson]
  | index position =>
    simp only [Option.some.injEq, index.injEq, Fits, toJson, Json.ofInt, Json.number.injEq,
      Number.int.injEq]
    omega

theorem ofJson?_eq_some_iff {value : Json} {step : PathElement} :
    ofJson? value = some step ↔ step.Fits ∧ value = step.toJson := by
  by_cases hint : ∃ k, value = .number (.int k)
  · obtain ⟨k, rfl⟩ := hint
    exact ofJson?_int_eq_some_iff
  · have hname : ofJson? value = field <$> Name.ofJson? value :=
      ofJson?.eq_2 value fun k hk => hint ⟨k, hk⟩
    rw [hname, Option.map_eq_map, Option.map_eq_some_iff]
    cases step with
    | field name => simp [Fits, toJson, Name.ofJson?_eq_some_iff]
    | index position =>
      refine iff_of_false (fun h => ?_) fun h => hint ⟨_, h.2⟩
      obtain ⟨name, -, hstep⟩ := h
      cases hstep

/-- Steps are written as names and numbers of 64 bits, and each of these is written for a step. -/
theorem isStep_iff_exists {value : Json} :
    IsStep value ↔ ∃ step : PathElement, step.Fits ∧ value = step.toJson := by
  constructor
  · rintro (⟨s, rfl, hname⟩ | ⟨position, rfl, hfits⟩)
    · exact ⟨field ⟨s, Name.isValid_iff_grammatical.mpr hname⟩, trivial, rfl⟩
    · exact ⟨index position, hfits, rfl⟩
  · rintro ⟨name | position, hfits, rfl⟩
    · exact .inl ⟨name.text, rfl, name.grammatical_toList_text⟩
    · exact .inr ⟨position, rfl, hfits⟩

end PathElement

namespace Path

/-! ### Texts of whole paths -/

theorem beginsStep_flatMap (path : Path) :
    PathElement.BeginsStep (path.flatMap fun step => step.text.toList) := by
  cases path with
  | nil => nofun
  | cons step steps => exact step.beginsStep_text_append _

theorem eq_of_flatMap_eq {p q : Path}
    (h : (p.flatMap fun step => step.text.toList) = q.flatMap fun step => step.text.toList) :
    p = q := by
  induction p generalizing q with
  | nil =>
    cases q with
    | nil => rfl
    | cons b bs =>
      rw [List.flatMap_nil, List.flatMap_cons, eq_comm, List.append_eq_nil_iff] at h
      exact absurd h.1 b.toList_text_ne_nil
  | cons a as ih =>
    cases q with
    | nil =>
      rw [List.flatMap_nil, List.flatMap_cons, List.append_eq_nil_iff] at h
      exact absurd h.1 a.toList_text_ne_nil
    | cons b bs =>
      rw [List.flatMap_cons, List.flatMap_cons] at h
      obtain ⟨rfl, hrest⟩ := PathElement.eq_and_eq_of_text_append_eq (beginsStep_flatMap as)
        (beginsStep_flatMap bs) h
      rw [ih hrest]

theorem toList_text_cons (step : PathElement) (steps : Path) :
    (text (step :: steps)).toList =
      "value".toList ++ (step :: steps).flatMap fun step => step.text.toList := by
  show ("value" ++ String.join ((step :: steps).map PathElement.text)).toList = _
  rw [String.toList_append, String.toList_join, List.flatMap_map]

theorem text_cons_ne_empty (step : PathElement) (steps : Path) : text (step :: steps) ≠ "" := by
  intro h
  have hchars := toList_text_cons step steps
  rw [h] at hchars
  cases hchars

theorem text_inj {p q : Path} : p.text = q.text ↔ p = q := by
  refine ⟨fun h => ?_, congrArg text⟩
  cases p with
  | nil =>
    cases q with
    | nil => rfl
    | cons b bs => exact absurd h.symm (text_cons_ne_empty b bs)
  | cons a as =>
    cases q with
    | nil => exact absurd h (text_cons_ne_empty a as)
    | cons b bs =>
      have hchars := congrArg String.toList h
      rw [toList_text_cons, toList_text_cons, List.append_cancel_left_eq] at hchars
      exact eq_of_flatMap_eq hchars

/-! ### JSON -/

/-- Whether all positions are numbers of 64 bits. -/
def Fits (path : Path) : Prop :=
  ∀ step ∈ path, step.Fits

theorem mapM_ofJson?_eq_some_iff {items : List Json} {path : Path} :
    items.mapM PathElement.ofJson? = some path ↔
      path.Fits ∧ items = path.map PathElement.toJson := by
  induction items generalizing path with
  | nil =>
    rw [List.mapM_nil]
    cases path with
    | nil => exact iff_of_true rfl ⟨nofun, rfl⟩
    | cons step steps => exact iff_of_false nofun nofun
  | cons item items ih =>
    have hcons : (item :: items).mapM PathElement.ofJson? = some path ↔
        ∃ step steps, PathElement.ofJson? item = some step ∧
          items.mapM PathElement.ofJson? = some steps ∧ step :: steps = path := by
      simp [List.mapM_cons, Option.bind_eq_some_iff]
    simp only [hcons, ih, PathElement.ofJson?_eq_some_iff]
    cases path with
    | nil => simp
    | cons step steps =>
      simp only [Fits, List.cons.injEq, List.map_cons, List.forall_mem_cons]
      constructor
      · rintro ⟨_, _, ⟨hstep, rfl⟩, ⟨hsteps, rfl⟩, rfl, rfl⟩
        exact ⟨⟨hstep, hsteps⟩, rfl, rfl⟩
      · rintro ⟨⟨hstep, hsteps⟩, rfl, rfl⟩
        exact ⟨step, steps, ⟨hstep, rfl⟩, ⟨hsteps, rfl⟩, rfl, rfl⟩

/-- A path is read from what is written for it and from nothing else. -/
theorem ofJson?_eq_some_iff {value : Json} {path : Path} :
    ofJson? value = some path ↔ path.Fits ∧ value = path.toJson := by
  rw [ofJson?.eq_def, toJson]
  split
  · rw [mapM_ofJson?_eq_some_iff, Json.array.injEq]
  · rename_i h
    exact iff_of_false nofun fun hvalue => h _ hvalue.2

theorem exists_ofJson?_iff {items : List Json} :
    (∃ path, ofJson? (.array items) = some path) ↔ ∀ item ∈ items, PathElement.IsStep item := by
  simp only [ofJson?_eq_some_iff, toJson, Json.array.injEq, PathElement.isStep_iff_exists]
  constructor
  · rintro ⟨path, hfits, rfl⟩
    rw [List.forall_mem_map]
    exact fun step hstep => ⟨step, hfits step hstep, rfl⟩
  · intro h
    induction items with
    | nil => exact ⟨[], nofun, rfl⟩
    | cons item items ih =>
      obtain ⟨⟨step, hstep, rfl⟩, hitems⟩ := List.forall_mem_cons.mp h
      obtain ⟨steps, hsteps, rfl⟩ := ih hitems
      exact ⟨step :: steps, List.forall_mem_cons.mpr ⟨hstep, hsteps⟩, rfl⟩

/-- No two paths share a text. In JSON a path whose positions are numbers of 64 bits is read as
itself from what is written for it, and an array is read as a path if and only if its items are
names and such numbers; this path is written as the same array. -/
theorem text_inj_and_ofJson?_eq_some_iff :
    (∀ p q : Path, p.text = q.text ↔ p = q) ∧
      (∀ p : Path, p.Fits → ofJson? p.toJson = some p) ∧
      (∀ items, (∃ p, ofJson? (.array items) = some p) ↔
        ∀ item ∈ items, PathElement.IsStep item) ∧
      ∀ value p, ofJson? value = some p → p.Fits ∧ p.toJson = value :=
  ⟨fun _ _ => text_inj, fun _ h => ofJson?_eq_some_iff.mpr ⟨h, rfl⟩,
    fun _ => exists_ofJson?_iff, fun _ _ h => (ofJson?_eq_some_iff.mp h).imp_right Eq.symm⟩

/-- Two positions do not run together to one. The greatest number of 64 bits is read as a position,
and the number behind it is not. -/
theorem text_index_ne_and_ofJson?_index :
    text [.index 12] ≠ text [.index 1, .index 2] ∧
      Fits [.field ⟨"pets", rfl⟩, .index 18446744073709551615] ∧
      ofJson? (toJson [.field ⟨"pets", rfl⟩, .index 18446744073709551615]) =
        some [.field ⟨"pets", rfl⟩, .index 18446744073709551615] ∧
      ¬ ∃ p, ofJson? (.array [.string "pets", .ofInt 18446744073709551616]) = some p := by
  obtain ⟨hinj, hread, hitems, -⟩ := text_inj_and_ofJson?_eq_some_iff
  have hfits : Fits [.field ⟨"pets", rfl⟩, .index 18446744073709551615] := by
    simp [Fits, PathElement.Fits]
  refine ⟨fun h => ?_, hfits, hread _ hfits, fun h => ?_⟩
  · cases (hinj _ _).mp h
  · have hlast : PathElement.IsStep (.ofInt 18446744073709551616) := (hitems _).mp h _ (by simp)
    rcases hlast with ⟨s, hs, -⟩ | ⟨position, hposition, hlt⟩
    · cases hs
    · simp only [Json.ofInt, Json.number.injEq, Number.int.injEq] at hposition
      omega

end Path

end InputCoercion
