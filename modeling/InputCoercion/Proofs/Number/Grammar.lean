import InputCoercion.Proofs.Number.Range
import Mathlib.Tactic.FieldSimp

/-!
The JSON grammar of numbers, in productions that say which number a text denotes. A text is read as
a number if and only if the grammar accepts it and the number is not beyond all floats.

Reading splits a text into the parts of a numeral before it looks at any of them. So the grammar is
compared part by part: each production is split off where the next one begins, and whatever is split
off satisfies the production if the numeral is one of JSON.
-/

namespace InputCoercion

/-! ### Productions -/

/-- At least one digit, and nothing else. -/
structure IsDigits (cs : List Char) : Prop where
  ne_nil : cs ≠ []
  all : ∀ c ∈ cs, c.isDigit = true

/-- A zero, or digits that begin with another one. -/
inductive IsWhole : List Char → Prop
  | zero : IsWhole ['0']
  | nonzero {c : Char} {cs : List Char} (leading : c ≠ '0')
      (digits : ∀ d ∈ c :: cs, d.isDigit = true) : IsWhole (c :: cs)

/-- A fraction, which may be missing, with its value. -/
inductive JsonFraction : List Char → ℚ → Prop
  | none : JsonFraction [] 0
  | point {digits : List Char} (h : IsDigits digits) :
      JsonFraction ('.' :: digits) (Numeral.ofDigits digits / 10 ^ digits.length)

/-- An exponent, which may be missing, with its value. -/
inductive JsonExponent : List Char → ℤ → Prop
  | none : JsonExponent [] 0
  | plain {e : Char} {digits : List Char} (letter : e = 'e' ∨ e = 'E') (h : IsDigits digits) :
      JsonExponent (e :: digits) (Numeral.ofDigits digits)
  | plus {e : Char} {digits : List Char} (letter : e = 'e' ∨ e = 'E') (h : IsDigits digits) :
      JsonExponent (e :: '+' :: digits) (Numeral.ofDigits digits)
  | minus {e : Char} {digits : List Char} (letter : e = 'e' ∨ e = 'E') (h : IsDigits digits) :
      JsonExponent (e :: '-' :: digits) (-(Numeral.ofDigits digits : ℤ))

/-- A number without a sign, with its value. -/
inductive JsonMagnitude : List Char → ℚ → Prop
  | intro {whole fraction exponent : List Char} {x : ℚ} {n : ℤ} (hwhole : IsWhole whole)
      (hfraction : JsonFraction fraction x) (hexponent : JsonExponent exponent n) :
      JsonMagnitude (whole ++ (fraction ++ exponent)) ((Numeral.ofDigits whole + x) * 10 ^ n)

/-- The JSON grammar of numbers: whether a text is accepted, and which number it denotes. -/
inductive JsonNumber : List Char → ℚ → Prop
  | unsigned {cs : List Char} {x : ℚ} (h : JsonMagnitude cs x) : JsonNumber cs x
  | negative {cs : List Char} {x : ℚ} (h : JsonMagnitude cs x) : JsonNumber ('-' :: cs) (-x)

theorem IsWhole.digits {cs : List Char} (h : IsWhole cs) : IsDigits cs := by
  cases h with
  | zero => exact ⟨by simp, List.forall_mem_singleton.mpr rfl⟩
  | nonzero leading digits => exact ⟨by simp, digits⟩

theorem isWhole_iff {cs : List Char} :
    IsWhole cs ↔ IsDigits cs ∧ (cs.head? = some '0' → cs = ['0']) := by
  constructor
  · intro h
    refine ⟨h.digits, ?_⟩
    cases h with
    | zero => exact fun _ => rfl
    | nonzero leading digits => exact fun hzero => absurd (Option.some.inj hzero) leading
  · rintro ⟨hdigits, hzero⟩
    obtain ⟨c, cs, rfl⟩ := List.exists_cons_of_ne_nil hdigits.ne_nil
    by_cases hc : c = '0'
    · rw [hzero (congrArg some hc)]
      exact .zero
    · exact .nonzero hc hdigits.all

theorem JsonExponent.of_mem_head? {cs : List Char} {n : ℤ} (h : JsonExponent cs n) :
    ∀ c ∈ cs.head?, c = 'e' ∨ c = 'E' := by
  intro c hc
  cases h with
  | none => cases hc
  | plain letter | plus letter | minus letter =>
    cases hc
    exact letter

/-- Digits end where a fraction or an exponent begins. -/
theorem JsonFraction.isDigit_eq_false {fraction exponent : List Char} {x : ℚ} {n : ℤ}
    (h : JsonFraction fraction x) (hexponent : JsonExponent exponent n) :
    ∀ c ∈ (fraction ++ exponent).head?, c.isDigit = false := by
  intro c hc
  cases h with
  | none => rcases hexponent.of_mem_head? c hc with rfl | rfl <;> rfl
  | point =>
    cases hc
    rfl

theorem JsonMagnitude.nonneg {cs : List Char} {x : ℚ} (h : JsonMagnitude cs x) : 0 ≤ x := by
  cases h with
  | intro hwhole hfraction hexponent =>
    cases hfraction <;> positivity

namespace Numeral

theorem splitDigits_of_isDigits {digits : List Char} (h : IsDigits digits) :
    splitDigits digits = (digits, []) := by
  simpa using @splitDigits_append digits [] h.all (by simp)

/-! ### What the grammar accepts is read -/

theorem splitSign_of_isDigit {c : Char} (hc : c.isDigit = true) (cs : List Char) :
    splitSign (c :: cs) = (none, c :: cs) := by
  rw [splitSign.eq_3]
  · rintro _ ⟨⟩
    exact absurd hc (by decide)
  · rintro _ ⟨⟩
    exact absurd hc (by decide)

theorem splitSign_of_isDigits {digits : List Char} (h : IsDigits digits) (rest : List Char) :
    splitSign (digits ++ rest) = (none, digits ++ rest) := by
  obtain ⟨c, cs, rfl⟩ := List.exists_cons_of_ne_nil h.ne_nil
  exact splitSign_of_isDigit (h.all c List.mem_cons_self) (cs ++ rest)

theorem exists_splitExponent {cs : List Char} {n : ℤ} (h : JsonExponent cs n) :
    ∃ exponent?, splitExponent cs = (exponent?, []) ∧ (∀ e ∈ exponent?, e.2 ≠ []) ∧
      ∀ numeral : Numeral, numeral.exponent? = exponent? → numeral.exponent = n := by
  cases h with
  | none => exact ⟨none, rfl, by simp, fun numeral h => by rw [exponent, h]⟩
  | @plain e digits letter hdigits =>
    refine ⟨some (none, digits), ?_, ?_, fun numeral h => by rw [exponent, h]; rfl⟩
    · have hsign : splitSign digits = (none, digits) := by
        simpa using splitSign_of_isDigits hdigits []
      simp [splitExponent, letter, hsign, splitDigits_of_isDigits hdigits]
    · simpa using hdigits.ne_nil
  | @plus e digits letter hdigits =>
    refine ⟨some (some .plus, digits), ?_, ?_, fun numeral h => by rw [exponent, h]; rfl⟩
    · simp [splitExponent, letter, splitSign, splitDigits_of_isDigits hdigits]
    · simpa using hdigits.ne_nil
  | @minus e digits letter hdigits =>
    refine ⟨some (some .minus, digits), ?_, ?_, fun numeral h => by rw [exponent, h]; rfl⟩
    · simp [splitExponent, letter, splitSign, splitDigits_of_isDigits hdigits]
    · simpa using hdigits.ne_nil

theorem exists_splitFraction {cs rest : List Char} {x : ℚ} (h : JsonFraction cs x)
    (hrest : ∀ c ∈ rest.head?, c = 'e' ∨ c = 'E') :
    ∃ fraction?, splitFraction (cs ++ rest) = (fraction?, rest) ∧ fraction? ≠ some [] ∧
      x = ofDigits (fraction?.getD []) / 10 ^ (fraction?.getD []).length := by
  cases h with
  | none =>
    refine ⟨none, ?_, by simp, by simp [ofDigits]⟩
    rw [List.nil_append, splitFraction.eq_2]
    rintro cs rfl
    have hpoint := hrest '.' rfl
    revert hpoint
    decide
  | @point digits hdigits =>
    refine ⟨some digits, ?_, by simpa using hdigits.ne_nil, rfl⟩
    have hsplit : splitDigits (digits ++ rest) = (digits, rest) := by
      refine splitDigits_append hdigits.all fun c hc => ?_
      rcases hrest c hc with rfl | rfl <;> rfl
    simp [splitFraction, hsplit]

theorem magnitude_toDecimal (n : Numeral) :
    n.toDecimal.magnitude =
      (ofDigits n.whole + ofDigits (n.fraction?.getD []) / 10 ^ (n.fraction?.getD []).length) *
        10 ^ n.exponent := by
  simp only [Decimal.magnitude, toDecimal, ofDigits]
  rw [Nat.ofDigitChars_append, Nat.ofDigitChars_eq_ofDigitChars_zero,
    zpow_sub₀ (by norm_num : (10 : ℚ) ≠ 0), zpow_natCast]
  push_cast
  field_simp

/-- Behind its sign, a text that the grammar accepts is read as a numeral of JSON. -/
theorem exists_ofChars?_of_jsonMagnitude {cs text : List Char} {x : ℚ} (h : JsonMagnitude cs x)
    {sign? : Option Sign} (hplus : sign? ≠ some .plus) (hsign : splitSign text = (sign?, cs)) :
    ∃ n, ofChars? text = some n ∧ n.IsJson ∧ x = n.toDecimal.magnitude := by
  cases h with
  | @intro whole fraction exponent x value hwhole hfraction hexponent =>
    obtain ⟨hdigits, hzero⟩ := isWhole_iff.mp hwhole
    have hsplitWhole : splitDigits (whole ++ (fraction ++ exponent)) =
        (whole, fraction ++ exponent) :=
      splitDigits_append hdigits.all (hfraction.isDigit_eq_false hexponent)
    obtain ⟨fraction?, hsplitFraction, hfractionDigits, rfl⟩ :=
      exists_splitFraction hfraction hexponent.of_mem_head?
    obtain ⟨exponent?, hsplitExponent, hexponentDigits, hvalue⟩ := exists_splitExponent hexponent
    refine ⟨⟨sign?, whole, fraction?, exponent?⟩, ?_, ?_, ?_⟩
    · simp [ofChars?, hsign, hsplitWhole, hsplitFraction, hsplitExponent]
    · exact ⟨hplus, hdigits.ne_nil, hzero, hfractionDigits, hexponentDigits⟩
    · rw [magnitude_toDecimal, hvalue _ rfl]

/-- A text that the grammar accepts is read as a numeral with the value that it denotes. -/
theorem exists_ofChars?_of_jsonNumber {cs : List Char} {x : ℚ} (h : JsonNumber cs x) :
    ∃ n, ofChars? cs = some n ∧ n.IsJson ∧ |x| = n.toDecimal.magnitude := by
  cases h with
  | unsigned h =>
    have hsign : splitSign cs = (none, cs) := by
      cases h with
      | intro hwhole => exact splitSign_of_isDigits hwhole.digits _
    rw [abs_of_nonneg h.nonneg]
    exact exists_ofChars?_of_jsonMagnitude h (by simp) hsign
  | negative h =>
    rw [abs_neg, abs_of_nonneg h.nonneg]
    exact exists_ofChars?_of_jsonMagnitude h (by simp) rfl

/-! ### What is read is accepted by the grammar -/

theorem splitDigits_eq {cs digits rest : List Char} (h : splitDigits cs = (digits, rest)) :
    cs = digits ++ rest ∧ ∀ c ∈ digits, c.isDigit = true := by
  cases h
  exact ⟨List.takeWhile_append_dropWhile.symm, List.all_eq_true.mp List.all_takeWhile⟩

theorem exists_jsonFraction {cs rest : List Char} {fraction? : Option (List Char)}
    (h : splitFraction cs = (fraction?, rest)) (hdigits : fraction? ≠ some []) :
    ∃ text x, cs = text ++ rest ∧ JsonFraction text x := by
  rw [splitFraction.eq_def] at h
  split at h
  · rename_i cs
    rcases hsplit : splitDigits cs with ⟨digits, rest'⟩
    rw [hsplit] at h
    cases h
    obtain ⟨rfl, hall⟩ := splitDigits_eq hsplit
    exact ⟨'.' :: digits, _, rfl, .point ⟨by simpa using hdigits, hall⟩⟩
  · cases h
    exact ⟨[], 0, rfl, .none⟩

theorem exists_jsonExponent {cs : List Char} {exponent? : Option (Option Sign × List Char)}
    (h : splitExponent cs = (exponent?, [])) (hdigits : ∀ e ∈ exponent?, e.2 ≠ []) :
    ∃ n, JsonExponent cs n := by
  cases cs with
  | nil => exact ⟨0, .none⟩
  | cons e cs =>
    rw [splitExponent] at h
    split at h
    · rename_i letter
      rcases hsign : splitSign cs with ⟨sign?, text⟩
      rcases hsplit : splitDigits text with ⟨digits, rest⟩
      simp only [hsign, hsplit, Prod.mk.injEq] at h
      obtain ⟨rfl, rfl⟩ := h
      obtain ⟨rfl, hall⟩ := splitDigits_eq hsplit
      rw [List.append_nil] at hsign
      have hsome : IsDigits digits := ⟨hdigits _ rfl, hall⟩
      rw [splitSign.eq_def] at hsign
      split at hsign <;> cases hsign
      · exact ⟨_, .plus letter hsome⟩
      · exact ⟨_, .minus letter hsome⟩
      · exact ⟨_, .plain letter hsome⟩
    · cases h

theorem exists_jsonNumber {cs : List Char} {n : Numeral} (h : ofChars? cs = some n)
    (hjson : n.IsJson) : ∃ x, JsonNumber cs x := by
  rcases hsign : splitSign cs with ⟨sign?, unsigned⟩
  rcases hsplit : splitDigits unsigned with ⟨whole, rest⟩
  rcases hfraction : splitFraction rest with ⟨fraction?, rest'⟩
  rcases hexponent : splitExponent rest' with ⟨exponent?, rest''⟩
  simp only [ofChars?, hsign, hsplit, hfraction, hexponent] at h
  split at h
  · rename_i hend
    cases h
    rw [hend] at hexponent
    obtain ⟨hplus, hne, hzero, hfractionDigits, hexponentDigits⟩ := hjson
    obtain ⟨rfl, hall⟩ := splitDigits_eq hsplit
    obtain ⟨fraction, x, rfl, htext⟩ := exists_jsonFraction hfraction hfractionDigits
    obtain ⟨value, hexponent⟩ := exists_jsonExponent hexponent hexponentDigits
    have hwhole : IsWhole whole := isWhole_iff.mpr ⟨⟨hne, hall⟩, hzero⟩
    have hmagnitude := JsonMagnitude.intro hwhole htext hexponent
    rw [splitSign.eq_def] at hsign
    split at hsign <;> cases hsign
    · exact absurd rfl hplus
    · exact ⟨_, .negative hmagnitude⟩
    · exact ⟨_, .unsigned hmagnitude⟩
  · cases h

end Numeral

namespace Number

/-- The integers of the integer kind are far from the bound. -/
theorem ofSignMagnitude?_eq_none_iff (negative : Bool) (magnitude : ℕ) :
    ofSignMagnitude? negative magnitude = none ↔ Double.overflowBound ≤ magnitude := by
  have hlarge : (2 : ℚ) ^ 64 < Double.overflowBound := by
    calc (2 : ℚ) ^ 64 = 2 ^ (64 : ℤ) := rfl
      _ < 2 ^ (1023 : ℤ) := zpow_lt_zpow_right₀ (by norm_num) (by norm_num)
      _ ≤ Double.overflowBound := Double.le_overflowBound
  have hsmall (h : magnitude ≤ 2 ^ 64) : ¬ Double.overflowBound ≤ magnitude := by
    have hcast : (magnitude : ℚ) ≤ 2 ^ 64 := by exact_mod_cast h
    linarith
  have hvalue : (if negative = true then -(magnitude : ℤ) else magnitude).natAbs = magnitude := by
    split <;> omega
  rw [ofSignMagnitude?]
  generalize (if negative = true then -(magnitude : ℤ) else magnitude) = value at hvalue
  split
  · rename_i hzero
    simp only [reduceCtorEq, false_iff]
    exact hsmall (by omega)
  · split
    · rename_i hrange
      simp only [reduceCtorEq, false_iff]
      simp only [intMin, intBound, Nat.pow_eq] at hrange
      exact hsmall (by omega)
    · simp [Decimal.toDouble?_eq_none_iff, Decimal.magnitude]

/-- A numeral of JSON is read as a number unless its magnitude reaches the bound. -/
theorem ofNumeral?_eq_none_iff (n : Numeral) :
    ofNumeral? n = none ↔ Double.overflowBound ≤ n.toDecimal.magnitude := by
  rw [ofNumeral?]
  split
  · rename_i hinteger
    rw [Numeral.isInteger, Bool.and_eq_true, Option.isNone_iff_eq_none,
      Option.isNone_iff_eq_none] at hinteger
    rw [ofSignMagnitude?_eq_none_iff, Numeral.magnitude_toDecimal, Numeral.exponent, hinteger.1,
      hinteger.2]
    simp [Numeral.ofDigits]
  · rw [Option.map_eq_map, Option.map_eq_none_iff, Decimal.toDouble?_eq_none_iff]

/-- Whether a text is no number under the JSON grammar, or one beyond all floats. -/
def IsUnreadable (text : String) : Prop :=
  (¬ ∃ x, JsonNumber text.toList x) ∨
    ∃ x, JsonNumber text.toList x ∧ Double.overflowBound ≤ |x|

theorem ofString?_eq_none_iff (text : String) : ofString? text = none ↔ IsUnreadable text := by
  rw [ofString?, ofChars?, IsUnreadable]
  constructor
  · intro h
    by_cases haccepted : ∃ x, JsonNumber text.toList x
    · obtain ⟨x, hx⟩ := haccepted
      obtain ⟨n, hn, hjson, hmagnitude⟩ := Numeral.exists_ofChars?_of_jsonNumber hx
      rw [hn] at h
      simp only [Option.bind_eq_bind, Option.bind_some, if_pos hjson, ofNumeral?_eq_none_iff] at h
      exact .inr ⟨x, hx, hmagnitude ▸ h⟩
    · exact .inl haccepted
  · rintro (hrejected | ⟨x, hx, hbound⟩)
    · cases hn : Numeral.ofChars? text.toList with
      | none => rfl
      | some n =>
        have hjson : ¬ n.IsJson := fun hjson => hrejected (Numeral.exists_jsonNumber hn hjson)
        simp [hjson]
    · obtain ⟨n, hn, hjson, hmagnitude⟩ := Numeral.exists_ofChars?_of_jsonNumber hx
      rw [hn]
      simp only [Option.bind_eq_bind, Option.bind_some, if_pos hjson, ofNumeral?_eq_none_iff]
      exact hmagnitude ▸ hbound

end Number

end InputCoercion
