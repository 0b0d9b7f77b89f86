import InputCoercion.Proofs.Number.Grammar
import InputCoercion.Scalar.BuiltIn

/-!
Integer literals are read exactly, whatever their length. A text of their grammar is kept as a sign
and a magnitude, which write the same text again, and everything that is made of a literal is
settled by the integer that the text denotes: the two widths of signed integers, the scalars and the
conversion without a type. There is one exception, which is `-0`. Its value is that of `0`, and yet
JSON reads it as a float.
-/

namespace InputCoercion

/-! ### Digits -/

theorem exists_digitChar_of_isDigit {c : Char} (h : c.isDigit = true) :
    ∃ d < 10, c = Nat.digitChar d := by
  obtain ⟨hlow, hhigh⟩ := Char.isDigit_iff_toNat.mp h
  have hzero : '0'.toNat = 48 := rfl
  have hnine : '9'.toNat = 57 := rfl
  have hlt : c.toNat - 48 < 10 := by omega
  refine ⟨c.toNat - 48, hlt, Char.toNat_inj.mp ?_⟩
  rw [Nat.toNat_digitChar_of_lt_ten hlt]
  omega

/-- Digits behind a number other than zero are written as they are. -/
theorem toDigits_ofDigitChars {cs : List Char} (h : ∀ c ∈ cs, c.isDigit = true) {n : ℕ}
    (hn : 0 < n) : Nat.toDigits 10 (Nat.ofDigitChars 10 cs n) = Nat.toDigits 10 n ++ cs := by
  induction cs generalizing n with
  | nil => simp
  | cons c cs ih =>
    obtain ⟨hc, hcs⟩ := List.forall_mem_cons.mp h
    obtain ⟨d, hd, rfl⟩ := exists_digitChar_of_isDigit hc
    calc Nat.toDigits 10 (Nat.ofDigitChars 10 (d.digitChar :: cs) n)
        = Nat.toDigits 10 (10 * n + d) ++ cs := by
          rw [Nat.ofDigitChars_cons_digitChar_of_lt_ten hd, ih hcs (by omega)]
      _ = Nat.toDigits 10 n ++ d.digitChar :: cs := by
          rw [← Nat.toDigits_append_toDigits (by decide) hn hd, Nat.toDigits_of_lt_base hd]
          simp

theorem IsWhole.toDigits_ofDigits {cs : List Char} (h : IsWhole cs) :
    Nat.toDigits 10 (Numeral.ofDigits cs) = cs := by
  cases h with
  | zero => rfl
  | nonzero leading digits =>
    obtain ⟨hc, hcs⟩ := List.forall_mem_cons.mp digits
    obtain ⟨d, hd, rfl⟩ := exists_digitChar_of_isDigit hc
    have hpos : 0 < d := Nat.pos_of_ne_zero fun hzero => leading (Nat.digitChar_eq_zero.mpr hzero)
    rw [Numeral.ofDigits, Nat.ofDigitChars_cons_digitChar_of_lt_ten hd,
      toDigits_ofDigitChars hcs (by omega), Nat.mul_zero, Nat.zero_add, Nat.toDigits_of_lt_base hd]
    rfl

theorem ofDigits_toDigits (n : ℕ) : Numeral.ofDigits (Nat.toDigits 10 n) = n :=
  Nat.ofDigitChars_ten_toDigits

theorem IsWhole.append_digit {cs : List Char} (h : IsWhole cs) (hne : cs ≠ ['0']) {c : Char}
    (hc : c.isDigit = true) : IsWhole (cs ++ [c]) := by
  cases h with
  | zero => exact absurd rfl hne
  | @nonzero first cs leading digits =>
    rw [List.cons_append]
    refine .nonzero leading fun d hd => ?_
    rw [← List.cons_append, List.mem_append, List.mem_singleton] at hd
    rcases hd with hd | rfl
    · exact digits d hd
    · exact hc

theorem isWhole_toDigits (n : ℕ) : IsWhole (Nat.toDigits 10 n) := by
  induction n using Nat.strongRecOn with
  | _ n ih =>
    rcases Nat.lt_or_ge n 10 with hlt | hge
    · have hdigit : n.digitChar.isDigit = true := by
        simpa [Nat.isDigit_digitChar] using hlt
      rw [Nat.toDigits_of_lt_base hlt]
      by_cases hzero : n = 0
      · rw [hzero]
        exact .zero
      · exact .nonzero (fun h => hzero (Nat.digitChar_eq_zero.mp h)) (by simpa using hdigit)
    · have hdigit : (n % 10).digitChar.isDigit = true := by
        rw [Nat.isDigit_digitChar]
        exact decide_eq_true (Nat.mod_lt n (by decide))
      have hne : Nat.toDigits 10 (n / 10) ≠ ['0'] := by
        intro h
        have hvalue := ofDigits_toDigits (n / 10)
        rw [h] at hvalue
        have hzero : n / 10 = 0 := hvalue.symm
        omega
      rw [Nat.toDigits_of_base_le (by decide) hge]
      exact (ih (n / 10) (by omega)).append_digit hne hdigit

/-! ### The grammar of integer literals -/

/-- A minus or nothing, and a whole number behind it, with the integer that this denotes. -/
inductive IntegerText : List Char → ℤ → Prop
  | unsigned {cs : List Char} (h : IsWhole cs) : IntegerText cs (Numeral.ofDigits cs)
  | negative {cs : List Char} (h : IsWhole cs) :
      IntegerText ('-' :: cs) (-(Numeral.ofDigits cs : ℤ))

namespace IntNumeral

theorem isMagnitude_iff {cs : List Char} : IsMagnitude cs ↔ IsWhole cs := by
  rw [IsMagnitude, isWhole_iff]
  constructor
  · rintro ⟨hne, hall, hzero⟩
    exact ⟨⟨hne, hall⟩, hzero⟩
  · rintro ⟨⟨hne, hall⟩, hzero⟩
    exact ⟨hne, hall, hzero⟩

theorem ofMagnitude?_eq_some_iff {negative : Bool} {cs : List Char} {n : IntNumeral} :
    ofMagnitude? negative cs = some n ↔ IsWhole cs ∧ n = ⟨negative, Numeral.ofDigits cs⟩ := by
  rw [ofMagnitude?, ← isMagnitude_iff]
  split <;> simp_all [eq_comm]

theorem ofChars?_unsigned {cs : List Char} (h : IsWhole cs) :
    ofChars? cs = some ⟨false, Numeral.ofDigits cs⟩ := by
  rw [ofChars?.eq_2]
  · exact ofMagnitude?_eq_some_iff.mpr ⟨h, rfl⟩
  · rintro ds rfl
    have hminus := h.digits.all '-' List.mem_cons_self
    revert hminus
    decide

theorem ofChars?_negative {cs : List Char} (h : IsWhole cs) :
    ofChars? ('-' :: cs) = some ⟨true, Numeral.ofDigits cs⟩ :=
  ofMagnitude?_eq_some_iff.mpr ⟨h, rfl⟩

/-- The characters of a literal. -/
theorem toList_text (n : IntNumeral) :
    n.text.toList = (if n.negative then ['-'] else []) ++ Nat.toDigits 10 n.magnitude := by
  rw [text, String.toList_append, Nat.repr_eq_ofList_toDigits, String.toList_ofList]
  split <;> rfl

/-- A literal is read from a text if and only if it is written as this text. -/
theorem ofString?_eq_some_iff {t : String} {n : IntNumeral} :
    ofString? t = some n ↔ n.text = t := by
  rw [ofString?]
  constructor
  · intro h
    apply String.toList_inj.mp
    rw [toList_text]
    rw [ofChars?.eq_def] at h
    split at h
    · rename_i cs hcs
      obtain ⟨hwhole, rfl⟩ := ofMagnitude?_eq_some_iff.mp h
      simp [hcs, hwhole.toDigits_ofDigits]
    · obtain ⟨hwhole, rfl⟩ := ofMagnitude?_eq_some_iff.mp h
      simp [hwhole.toDigits_ofDigits]
  · rintro rfl
    obtain ⟨negative, magnitude⟩ := n
    rw [toList_text]
    have hwhole := isWhole_toDigits magnitude
    cases negative with
    | false => simpa [ofDigits_toDigits] using ofChars?_unsigned hwhole
    | true => simpa [ofDigits_toDigits] using ofChars?_negative hwhole

/-- The text of a literal follows the grammar and denotes its value. -/
theorem integerText_text (n : IntNumeral) : IntegerText n.text.toList n.value := by
  obtain ⟨negative, magnitude⟩ := n
  rw [toList_text]
  have hwhole := isWhole_toDigits magnitude
  cases negative with
  | false => simpa [value, ofDigits_toDigits] using IntegerText.unsigned hwhole
  | true => simpa [value, ofDigits_toDigits] using IntegerText.negative hwhole

/-- And every text of the grammar is the text of a literal. -/
theorem exists_text_eq {t : String} {k : ℤ} (h : IntegerText t.toList k) :
    ∃ n : IntNumeral, n.text = t ∧ n.value = k := by
  generalize hcs : t.toList = cs at h
  cases h with
  | unsigned h =>
    refine ⟨⟨false, Numeral.ofDigits cs⟩, ?_, rfl⟩
    rw [← ofString?_eq_some_iff, ofString?, hcs, ofChars?_unsigned h]
  | @negative cs h =>
    refine ⟨⟨true, Numeral.ofDigits cs⟩, ?_, rfl⟩
    rw [← ofString?_eq_some_iff, ofString?, hcs, ofChars?_negative h]

/-! ### What is made of a literal -/

/-- Whether an integer of some bits is read from a literal as it has to be, given the integer that
the literal denotes. -/
structure ReadsAt (n : IntNumeral) (bits : ℕ) (k : ℤ) : Prop where
  ok : -2 ^ (bits - 1) ≤ k → k < 2 ^ (bits - 1) → n.toSigned bits = .ok k
  tooLarge : 2 ^ (bits - 1) ≤ k → n.toSigned bits = .error .tooLarge
  tooSmall : k < -2 ^ (bits - 1) → n.toSigned bits = .error .tooSmall

theorem readsAt_value (n : IntNumeral) (bits : ℕ) : n.ReadsAt bits n.value := by
  have hpos : (0 : ℤ) < 2 ^ (bits - 1) := by positivity
  have hpow : ((Nat.pow 2 (bits - 1) : ℕ) : ℤ) = 2 ^ (bits - 1) := by simp
  constructor
  · intro hlow hhigh
    rw [toSigned, hpow, if_neg (by omega), if_neg (by omega)]
  · intro hlarge
    rw [toSigned, hpow, if_pos hlarge]
  · intro hsmall
    rw [toSigned, hpow, if_neg (by omega), if_pos hsmall]

/-- The integer scalar takes the literals that 32 bits hold. -/
theorem parseLiteral_int (n : IntNumeral) (vars : Entries) :
    ScalarParser.int.parseLiteral (.int n) vars =
      if -2 ^ 31 ≤ n.value ∧ n.value < 2 ^ 31 then .ok (.ofInt n.value) else .error .invalid := by
  have hread := n.readsAt_value 32
  show ScalarParser.ofLiteral? (fun literal => Json.ofInt <$> literal.toInt32?) (.int n) vars = _
  rw [ScalarParser.ofLiteral?, Literal.toInt32?]
  split_ifs with hrange
  · rw [hread.ok hrange.1 hrange.2]
    rfl
  · rcases lt_or_ge n.value (-2 ^ 31) with hsmall | hlow
    · rw [hread.tooSmall hsmall]
      rfl
    · rw [hread.tooLarge (by omega)]
      rfl

theorem text_eq_negativeZero_iff {n : IntNumeral} :
    n.text = "-0" ↔ n.negative = true ∧ n.magnitude = 0 := by
  have hread : ofString? "-0" = some ⟨true, 0⟩ := ofString?_eq_some_iff.mpr rfl
  rw [← ofString?_eq_some_iff, hread, Option.some.injEq, IntNumeral.mk.injEq]
  exact and_congr eq_comm eq_comm

/-- In JSON a literal is an integer, but for the negative zero and beyond 64 bits. -/
theorem toNumber?_eq (n : IntNumeral) :
    n.toNumber? =
      if n.text ≠ "-0" ∧ -2 ^ 63 ≤ n.value ∧ n.value < 2 ^ 64 then some (.int n.value)
      else .float <$> Decimal.toDouble? ⟨n.negative, n.magnitude, 0⟩ := by
  have hbounds : Number.intMin = -2 ^ 63 ∧ Number.intBound = 2 ^ 64 := ⟨rfl, rfl⟩
  have hvalue : (if n.negative then -(n.magnitude : ℤ) else n.magnitude) = n.value := rfl
  rw [toNumber?, Number.ofSignMagnitude?, hvalue, hbounds.1, hbounds.2]
  by_cases hzero : n.text = "-0"
  · obtain ⟨hnegative, hmagnitude⟩ := text_eq_negativeZero_iff.mp hzero
    rw [if_pos ⟨hnegative, hmagnitude⟩, if_neg (by simp [hzero]), hnegative, hmagnitude]
    rfl
  · rw [if_neg (text_eq_negativeZero_iff.not.mp hzero)]
    simp only [ne_eq, hzero, not_false_eq_true, true_and]

theorem abs_value (n : IntNumeral) : |(n.value : ℚ)| = n.magnitude := by
  rw [value]
  split <;> simp

/-- It has no number in JSON if and only if it is beyond all floats. -/
theorem toNumber?_eq_none_iff (n : IntNumeral) :
    n.toNumber? = none ↔ Double.overflowBound ≤ |(n.value : ℚ)| := by
  rw [abs_value, toNumber?, Number.ofSignMagnitude?_eq_none_iff]

/-- A text is an integer literal if and only if it follows the grammar. The literal of a text that
denotes `k` is read exactly by all that take integers: at 32 and at 64 bits with the error for the
side on which `k` lies beyond them, as the integer scalar within 32 bits, as the text itself where
it stands for an ID, and without a type as the integer `k` where JSON has it as an integer. -/
theorem isSome_ofString?_iff_and_reads (t : String) :
    ((ofString? t).isSome = true ↔ ∃ k, IntegerText t.toList k) ∧
      ∀ n k, ofString? t = some n → IntegerText t.toList k →
        n.ReadsAt 32 k ∧ n.ReadsAt 64 k ∧
        ∀ vars : Entries,
          ScalarParser.int.parseLiteral (.int n) vars =
            (if -2 ^ 31 ≤ k ∧ k < 2 ^ 31 then .ok (.ofInt k) else .error .invalid) ∧
          ScalarParser.id.parseLiteral (.int n) vars = .ok (.string t) ∧
          (-2 ^ 63 ≤ k ∧ k < 2 ^ 64 ∧ t ≠ "-0" →
            (Literal.int n).toJson? vars = some (.ofInt k)) ∧
          (¬ (-2 ^ 63 ≤ k ∧ k < 2 ^ 64 ∧ t ≠ "-0") →
            (Double.overflowBound ≤ |(k : ℚ)| ∧ (Literal.int n).toJson? vars = none) ∨
              |(k : ℚ)| < Double.overflowBound ∧
                ∃ x, (Literal.int n).toJson? vars = some (.number (.float x))) := by
  constructor
  · rw [Option.isSome_iff_exists]
    constructor
    · rintro ⟨n, hn⟩
      rw [← ofString?_eq_some_iff.mp hn]
      exact ⟨n.value, n.integerText_text⟩
    · rintro ⟨k, hk⟩
      obtain ⟨n, htext, -⟩ := exists_text_eq hk
      exact ⟨n, ofString?_eq_some_iff.mpr htext⟩
  · intro n k hn hk
    -- No two literals are written alike, so the value of this one is what its text denotes.
    obtain ⟨n', rfl, rfl⟩ := exists_text_eq hk
    rw [ofString?_eq_some_iff.mpr rfl, Option.some.injEq] at hn
    subst hn
    refine ⟨n'.readsAt_value 32, n'.readsAt_value 64, fun vars =>
      ⟨n'.parseLiteral_int vars, rfl, ?_, ?_⟩⟩
    · rintro ⟨hlow, hhigh, htext⟩
      rw [Literal.toJson?, toNumber?_eq, if_pos ⟨htext, hlow, hhigh⟩]
      rfl
    · intro hout
      rw [Literal.toJson?, ← toNumber?_eq_none_iff, ← not_le, ← toNumber?_eq_none_iff, toNumber?_eq,
        if_neg (by tauto)]
      cases Decimal.toDouble? ⟨n'.negative, n'.magnitude, 0⟩ <;> simp

/-- The greatest integer that is too small for 64 bits. -/
def belowInt64 : IntNumeral := ⟨true, 9223372036854775809⟩

theorem belowInt64_reads :
    ofString? "-9223372036854775809" = some belowInt64 ∧
      IntegerText "-9223372036854775809".toList (-9223372036854775809) ∧
      belowInt64.toSigned 64 = .error .tooSmall ∧
      ScalarParser.int.parseLiteral (.int belowInt64) [] = .error .invalid ∧
      ScalarParser.id.parseLiteral (.int belowInt64) [] =
        .ok (.string "-9223372036854775809") ∧
      ∃ x, (Literal.int belowInt64).toJson? [] = some (.number (.float x)) := by
  have hread : ofString? "-9223372036854775809" = some belowInt64 :=
    ofString?_eq_some_iff.mpr rfl
  have hdenotes : IntegerText "-9223372036854775809".toList (-9223372036854775809) :=
    ofString?_eq_some_iff.mp hread ▸ belowInt64.integerText_text
  obtain ⟨-, hreads⟩ := isSome_ofString?_iff_and_reads "-9223372036854775809"
  obtain ⟨-, hint64, hrest⟩ := hreads belowInt64 _ hread hdenotes
  obtain ⟨hint, hid, -, hfloat⟩ := hrest []
  have hsome : ((Literal.int belowInt64).toJson? []).isSome = true := by decide +kernel
  refine ⟨hread, hdenotes, hint64.tooSmall (by decide), hint, hid, ?_⟩
  rcases hfloat (by decide) with ⟨-, hnone⟩ | ⟨-, hx⟩
  · rw [hnone] at hsome
    cases hsome
  · exact hx

end IntNumeral

end InputCoercion
