import InputCoercion.Coercion.Error
import InputCoercion.Proofs.Name
import InputCoercion.Proofs.Suggestion.Ranking
import InputCoercion.Proofs.Value.Recursion
import Mathlib.Algebra.Order.Ring.Nat

/-!
Lines of texts. A report has every message on a line of its own if no message has a line end inside.
What this library writes by itself has none: names, types and paths are made of letters, digits and
brackets, suggestions are names again, and in the text of a JSON value line ends are escaped.
-/

namespace InputCoercion

/-! ### Lines and line ends -/

/-- The lines of a text. -/
def lines (text : String) : List String :=
  (text.toList.splitOn '\n').map String.ofList

/-- The number of line ends in a text. -/
def lineEnds (text : String) : ℕ :=
  text.toList.count '\n'

theorem lineEnds_eq_zero_iff {text : String} : lineEnds text = 0 ↔ '\n' ∉ text.toList :=
  List.count_eq_zero

@[simp] theorem lineEnds_append (s t : String) : lineEnds (s ++ t) = lineEnds s + lineEnds t := by
  rw [lineEnds, String.toList_append, List.count_append]
  rfl

theorem lineEnds_join (texts : List String) :
    lineEnds (String.join texts) = (texts.map lineEnds).sum := by
  rw [lineEnds, String.toList_join, List.count_flatMap]
  rfl

/-- Between texts stands one separator less than there are texts. -/
theorem lineEnds_intercalate (separator : String) (texts : List String) :
    lineEnds (separator.intercalate texts) =
      (texts.map lineEnds).sum + (texts.length - 1) * lineEnds separator := by
  induction texts with
  | nil => simp [lineEnds]
  | cons text texts ih =>
    cases texts with
    | nil => simp
    | cons next rest =>
      rw [String.intercalate_cons_cons, lineEnds_append, lineEnds_append, ih]
      simp only [List.map_cons, List.sum_cons, List.length_cons, Nat.add_sub_cancel, Nat.succ_mul]
      omega

theorem sum_lineEnds_eq_zero_iff {texts : List String} :
    (texts.map lineEnds).sum = 0 ↔ ∀ text ∈ texts, lineEnds text = 0 := by
  rw [List.sum_eq_zero_iff_forall_eq_nat, List.forall_mem_map]

/-- Every line end begins another line. -/
theorem length_lines (text : String) : (lines text).length = lineEnds text + 1 := by
  rw [lines, List.length_map, lineEnds, List.splitOn_eq_splitOnP]
  induction text.toList with
  | nil => rfl
  | cons c cs ih =>
    rw [List.splitOnP_cons_eq_if_modifyHead, List.count_cons]
    by_cases hc : c = '\n' <;> simp [hc, ih]

/-! ### Reports -/

variable {messages : List String}

theorem length_lines_report (hne : messages ≠ []) :
    (lines (report messages)).length = messages.length + (messages.map lineEnds).sum := by
  have hlength := List.length_pos_iff.mpr hne
  have hheads : (messages.map ("Error: " ++ ·)).map lineEnds = messages.map lineEnds := by
    rw [List.map_map]
    exact List.map_congr_left fun message _ => by
      rw [Function.comp_apply, lineEnds_append]
      exact Nat.zero_add _
  have hend : lineEnds "\n" = 1 := rfl
  rw [length_lines, report, lineEnds_intercalate, hheads, List.length_map, hend]
  omega

/-- The lines of a report are its messages exactly if none of them has a line end inside. -/
theorem lines_report_eq_iff (hne : messages ≠ []) :
    lines (report messages) = messages.map ("Error: " ++ ·) ↔
      ∀ message ∈ messages, lineEnds message = 0 := by
  constructor
  · intro h
    have hlength := length_lines_report hne
    rw [h, List.length_map] at hlength
    exact sum_lineEnds_eq_zero_iff.mp (by omega)
  · intro h
    have hclean : ∀ line ∈ (messages.map ("Error: " ++ ·)).map String.toList, '\n' ∉ line := by
      simp only [List.forall_mem_map, String.toList_append, List.mem_append, not_or]
      exact fun message hmem => ⟨by decide, lineEnds_eq_zero_iff.mp (h message hmem)⟩
    have hsplit := List.splitOn_intercalate '\n' hclean (by simpa using hne)
    rw [lines, report, String.toList_intercalate]
    rw [show "\n".toList = ['\n'] from rfl, hsplit, List.map_map]
    simp [Function.comp_def]

/-! ### Names, types and paths -/

@[simp] theorem lineEnds_name (name : Name) : lineEnds name.text = 0 := by
  rw [lineEnds_eq_zero_iff]
  exact fun hmem => absurd (Name.isContinue_of_mem hmem) (by decide)

theorem lineEnds_of_mem_texts {α : Type} [Named α] (c : Catalog α) :
    ∀ text ∈ c.texts, lineEnds text = 0 := by
  simp only [Catalog.texts, List.forall_mem_map]
  exact fun a _ => lineEnds_name (Named.name a)

@[simp] theorem lineEnds_inputType (type : InputType) : lineEnds type.text = 0 := by
  have hmark (nonNull : Bool) : lineEnds (InputType.mark nonNull) = 0 := by
    cases nonNull <;> rfl
  induction type with
  | named name nonNull => simp [InputType.text, hmark]
  | list item nonNull ih =>
    simp only [InputType.text, lineEnds_append, ih, hmark]
    rfl

theorem notMem_of_isDigit {cs : List Char} (h : ∀ c ∈ cs, c.isDigit = true) : '\n' ∉ cs :=
  fun hmem => absurd (h '\n' hmem) (by decide)

theorem notMem_toDigits (n : ℕ) : '\n' ∉ Nat.toDigits 10 n :=
  notMem_of_isDigit fun _ => Nat.isDigit_of_mem_toDigits (by decide) le_rfl

@[simp] theorem lineEnds_repr (n : ℕ) : lineEnds (Nat.repr n) = 0 := by
  rw [lineEnds_eq_zero_iff, Nat.toList_repr]
  exact notMem_toDigits n

@[simp] theorem lineEnds_path (path : Path) : lineEnds path.text = 0 := by
  have hsteps : lineEnds (String.join (path.map PathElement.text)) = 0 := by
    rw [lineEnds_join, sum_lineEnds_eq_zero_iff, List.forall_mem_map]
    rintro (name | position) -
    · simp only [PathElement.text, lineEnds_append, lineEnds_name]
      rfl
    · simp only [PathElement.text, lineEnds_append, lineEnds_repr]
      rfl
  cases path with
  | nil => rfl
  | cons step steps =>
    rw [Path.text, lineEnds_append, hsteps]
    · rfl
    · exact List.cons_ne_nil step steps

/-! ### Suggestions -/

namespace Suggestion

theorem lineEnds_commaList {items : List String} (h : ∀ item ∈ items, lineEnds item = 0) :
    lineEnds (commaList items) = 0 := by
  induction items with
  | nil => rfl
  | cons item items ih =>
    rw [List.forall_mem_cons] at h
    cases items with
    | nil =>
      rw [commaList, lineEnds_append, h.1]
      rfl
    | cons next rest =>
      rw [commaList, lineEnds_append, lineEnds_append, h.1, ih h.2]
      · rfl
      · simp

theorem lineEnds_alternatives {items : List String} (h : ∀ item ∈ items, lineEnds item = 0) :
    lineEnds (alternatives items) = 0 := by
  match items with
  | [] => rfl
  | [a] => exact h a List.mem_cons_self
  | [a, b] =>
    rw [alternatives, lineEnds_append, lineEnds_append, h a (by simp), h b (by simp)]
    rfl
  | a :: b :: c :: items =>
    rw [List.forall_mem_cons] at h
    have hsum : alternatives (a :: b :: c :: items) = a ++ commaList (b :: c :: items) := rfl
    rw [hsum, lineEnds_append, h.1, lineEnds_commaList h.2]

/-- What is suggested are options. -/
theorem mem_of_mem_list {input option : String} {options : List String}
    (h : option ∈ list input options) : option ∈ options := by
  rw [list_eq, List.mem_mergeSort] at h
  exact List.mem_of_mem_filter h

/-- A question has no line end if the options have none, whatever it is asked about. -/
theorem lineEnds_didYouMean? (input : String) {options : List String}
    (h : ∀ option ∈ options, lineEnds option = 0) :
    lineEnds ((didYouMean? input options).getD "") = 0 := by
  rw [didYouMean?, question?]
  split
  · rfl
  · have hquoted : ∀ item ∈ ((list input options).take maxCount).map quote, lineEnds item = 0 := by
      rw [List.forall_mem_map]
      intro option hoption
      rw [quote, lineEnds_append, lineEnds_append,
        h option (mem_of_mem_list (List.mem_of_mem_take hoption))]
      rfl
    rw [Option.getD_some, lineEnds_append, lineEnds_append, orList, lineEnds_alternatives hquoted]
    rfl

end Suggestion

/-! ### Numbers and JSON texts -/

namespace FloatLayout

theorem notMem_positionalChars (n : ℕ) (exponent : ℤ) :
    '\n' ∉ positionalChars (Nat.toDigits 10 n) exponent := by
  have hdigits := splitAtPoint_digits exponent (Nat.toDigits_ne_nil (b := 10) (n := n))
    fun _ => Nat.isDigit_of_mem_toDigits (by decide) le_rfl
  simp only [positionalChars, List.mem_append, List.mem_cons, not_or]
  exact ⟨notMem_of_isDigit hdigits.1, by decide, notMem_of_isDigit hdigits.2.2.1⟩

theorem notMem_scientificChars (n : ℕ) (exponent : ℤ) :
    '\n' ∉ scientificChars (Nat.toDigits 10 n) exponent := by
  have hdigits := notMem_toDigits n
  simp only [scientificChars, List.mem_append, List.mem_cons, not_or]
  refine ⟨?_, by decide, by split <;> decide, notMem_toDigits _⟩
  split
  · rename_i d e rest heq
    rw [heq] at hdigits
    simp only [List.mem_cons, not_or] at hdigits ⊢
    exact ⟨hdigits.1, by decide, hdigits.2⟩
  · exact hdigits

theorem lineEnds_write (layout : FloatLayout) (x : Double) : lineEnds (layout.write x) = 0 := by
  rw [lineEnds_eq_zero_iff, write, String.toList_ofList, List.mem_append, not_or]
  constructor
  · split <;> decide
  · simp only [magnitudeChars]
    split
    · exact notMem_positionalChars _ _
    · exact notMem_scientificChars _ _

end FloatLayout

@[simp] theorem lineEnds_number (n : Number) : lineEnds n.text = 0 := by
  cases n with
  | float x => exact FloatLayout.lineEnds_write Number.layout x
  | int k =>
    cases k with
    | ofNat n => exact lineEnds_repr n
    | negSucc n =>
      rw [Number.text, show toString (Int.negSucc n) = "-" ++ Nat.repr (n + 1) from rfl,
        lineEnds_append, lineEnds_repr]
      rfl

namespace Json

theorem notMem_escape (c : Char) : '\n' ∉ escape c := by
  have hhex (n : ℕ) : '\n' ≠ Nat.digitChar n := by
    rcases Nat.lt_or_ge n 16 with h | h
    · exact (by decide : ∀ n < 16, '\n' ≠ Nat.digitChar n) n h
    · rw [Nat.digitChar_eq_star.mpr h]
      decide
  rw [escape]
  split_ifs with _ _ _ _ hc
  iterate 7 decide
  · simp only [List.mem_cons, List.not_mem_nil, or_false, not_or]
    exact ⟨by decide, by decide, by decide, by decide, hhex _, hhex _⟩
  · rw [List.mem_singleton]
    exact Ne.symm hc

theorem lineEnds_quote (s : String) : lineEnds (quote s) = 0 := by
  have hescaped : lineEnds (String.ofList (s.toList.flatMap escape)) = 0 := by
    rw [lineEnds_eq_zero_iff, String.toList_ofList, List.mem_flatMap]
    rintro ⟨c, -, hc⟩
    exact notMem_escape c hc
  rw [quote, lineEnds_append, lineEnds_append, hescaped]
  rfl

theorem itemTexts_eq_map (items : List Json) : itemTexts items = items.map text := by
  induction items with
  | nil => rfl
  | cons item items ih => rw [itemTexts, ih, List.map_cons]

theorem entryTexts_eq_map (entries : Entries) :
    entryTexts entries = entries.map fun entry => quote entry.1 ++ ":" ++ entry.2.text := by
  induction entries with
  | nil => rfl
  | cons entry entries ih => rw [entryTexts, ih, List.map_cons]

/-- The text of a value is one line. -/
@[simp] theorem lineEnds_text (value : Json) : lineEnds value.text = 0 := by
  induction value using Json.induction with
  | step value ihItems ihEntries =>
    cases value with
    | null => rfl
    | bool b => cases b <;> rfl
    | number n => exact lineEnds_number n
    | string s => exact lineEnds_quote s
    | array items =>
      have hitems : ((items.map text).map lineEnds).sum = 0 :=
        sum_lineEnds_eq_zero_iff.mpr (List.forall_mem_map.mpr ihItems)
      rw [text, itemTexts_eq_map, lineEnds_append, lineEnds_append, lineEnds_intercalate, hitems]
      rfl
    | object entries =>
      have hentries : ((entryTexts entries).map lineEnds).sum = 0 := by
        rw [entryTexts_eq_map, sum_lineEnds_eq_zero_iff, List.forall_mem_map]
        intro entry hmem
        rw [lineEnds_append, lineEnds_append, lineEnds_quote, ihEntries entry hmem]
        rfl
      rw [text, lineEnds_append, lineEnds_append, lineEnds_intercalate, hentries]
      rfl

end Json

end InputCoercion
