import InputCoercion.Proofs.Number.Range
import InputCoercion.Scalar.BuiltIn

/-!
Numbers that are integers. A number of either kind denotes a rational, a float the dyadic one that is
its mantissa times a power of two, and the integer scalar goes by this value alone: it takes the
integers of 32 bits, and tells other integers from what is no integer.

The other way to decide this is over signed integers of 64 bits. What is none of them becomes a float
first, which rounds, and the float is cast, which cuts. Both can change the value, but neither can
bring it into 32 bits, nor make it an integer.
-/

namespace InputCoercion

/-! ### Values -/

namespace Double

/-- The value without its sign. -/
def magnitude (x : Double) : ℚ :=
  x.mantissa * 2 ^ x.exponent

/-- The exact value. -/
def value (x : Double) : ℚ :=
  if x.negative then -x.magnitude else x.magnitude

theorem magnitude_nonneg (x : Double) : 0 ≤ x.magnitude := by
  rw [magnitude]
  positivity

theorem magnitude?_eq_some_iff {x : Double} {n : ℕ} :
    x.magnitude? = some n ↔ x.magnitude = n := by
  have hquotient : x.magnitude = n ↔
      x.mantissa * 2 ^ x.exponent.toNat = n * 2 ^ (-x.exponent).toNat := by
    rw [magnitude, zpow_eq_pow_div_pow (by norm_num : (2 : ℚ) ≠ 0), ← mul_div_assoc,
      div_eq_iff (by positivity)]
    exact_mod_cast Iff.rfl
  have hscale : 0 < 2 ^ (-x.exponent).toNat := by positivity
  rw [hquotient, magnitude?]
  simp only [Nat.pow_eq]
  rcases le_total 0 x.exponent with hpos | hneg
  · have hone : (-x.exponent).toNat = 0 := by omega
    simp [hone, Nat.mod_one]
  · -- Only here there is a fraction, unless the power divides the mantissa.
    have hzero : x.exponent.toNat = 0 := by omega
    rw [hzero, pow_zero, mul_one, mul_one]
    split
    · rename_i hmod
      rw [Option.some.injEq, Nat.div_eq_iff_eq_mul_left hscale (Nat.dvd_of_mod_eq_zero hmod)]
    · rename_i hmod
      refine iff_of_false (by simp) fun heq => hmod ?_
      rw [heq, Nat.mul_mod_left]

theorem toInt?_eq (x : Double) :
    x.toInt? = x.magnitude?.map fun n : ℕ => if x.negative then -(n : ℤ) else n := by
  rw [toInt?]
  cases x.magnitude? <;> rfl

theorem toInt?_eq_some_iff {x : Double} {k : ℤ} : x.toInt? = some k ↔ x.value = k := by
  have hnonneg := x.magnitude_nonneg
  simp only [toInt?_eq, Option.map_eq_some_iff, magnitude?_eq_some_iff, value]
  constructor
  · rintro ⟨n, hn, rfl⟩
    rw [hn]
    split <;> simp
  · intro h
    split at h
    · rename_i hnegative
      have hk : x.magnitude = ((-k : ℤ) : ℚ) := by
        push_cast
        linarith
      rw [hk] at hnonneg ⊢
      obtain ⟨n, hn⟩ := Int.eq_ofNat_of_zero_le (Int.cast_nonneg_iff.mp hnonneg)
      refine ⟨n, by rw [hn, Int.cast_natCast], ?_⟩
      rw [if_pos hnegative]
      omega
    · rename_i hpositive
      rw [h] at hnonneg ⊢
      obtain ⟨n, rfl⟩ := Int.eq_ofNat_of_zero_le (Int.cast_nonneg_iff.mp hnonneg)
      exact ⟨n, Int.cast_natCast n, if_neg hpositive⟩

theorem ofParts?_eq_some {negative : Bool} {mantissa : ℕ} {exponent : ℤ} {x : Double}
    (h : ofParts? negative mantissa exponent = some x) :
    x.negative = negative ∧ x.mantissa = mantissa ∧ x.exponent = exponent := by
  rw [ofParts?] at h
  split at h
  · cases h
    exact ⟨rfl, rfl, rfl⟩
  · cases h

/-- A quotient in the normal range is rounded to a number with a full mantissa, and with the exponent
that puts it at the greatest power of two that the quotient reaches, if not at the next one. -/
theorem parts_of_ofRatio?_eq_some {negative : Bool} {num den : ℕ} {x : Double} (hnum : 0 < num)
    (hden : 0 < den) (hlog : -1022 ≤ log2Div num den) (h : ofRatio? negative num den = some x) :
    x.negative = negative ∧ 2 ^ 52 ≤ x.mantissa ∧ log2Div num den - 52 ≤ x.exponent := by
  have hexponent : roundedExponent num den = log2Div num den - 52 := by
    rw [roundedExponent]
    omega
  rw [ofRatio?_eq negative hnum, hexponent] at h
  split at h
  · obtain ⟨hnegative, hmantissa, hcarried⟩ := ofParts?_eq_some h
    exact ⟨hnegative, hmantissa.ge, by omega⟩
  · obtain ⟨hnegative, hmantissa, hkept⟩ := ofParts?_eq_some h
    have hfull := le_roundedMantissa hnum hden hlog
    rw [Nat.pow_eq] at hfull
    exact ⟨hnegative, by omega, hkept.ge⟩

/-- A float whose exponent is not negative is an integer. -/
theorem toInt?_of_exponent_nonneg {x : Double} (hpositive : x.negative = false)
    (h : 0 ≤ x.exponent) : x.toInt? = some ((x.mantissa * 2 ^ x.exponent.toNat : ℕ) : ℤ) := by
  rw [toInt?_eq_some_iff, value, hpositive, magnitude, zpow_eq_pow_div_pow (by norm_num)]
  have hone : (-x.exponent).toNat = 0 := by omega
  rw [hone]
  push_cast
  ring

end Double

namespace Number

/-- The exact value. -/
def value : Number → ℚ
  | int k => k
  | float x => x.value

theorem toInt?_eq_some_iff {n : Number} {k : ℤ} : n.toInt? = some k ↔ n.value = k := by
  cases n with
  | int j =>
    rw [toInt?, value, Option.some.injEq]
    exact_mod_cast Iff.rfl
  | float x => exact Double.toInt?_eq_some_iff

theorem toInt?_eq_none_iff {n : Number} : n.toInt? = none ↔ ∀ k : ℤ, n.value ≠ k := by
  rw [Option.eq_none_iff_forall_ne_some]
  exact forall_congr' fun k => not_congr toInt?_eq_some_iff

/-! ### By way of 64 bits -/

/-- Whether a number is one that JSON can hold: the integer kind has 64 bits, and its negative numbers
have one of these for the sign. -/
def IsHeld : Number → Prop
  | int k => intMin ≤ k ∧ k < intBound
  | float _ => True

/-- The least integer that does not fit into 64 bits with a sign. It is a float, and it is the float
that is nearest to the integer before it, too. -/
def int64Bound : ℤ := 2 ^ 63

/-- The number as an integer of 64 bits with a sign, if it is one already. -/
def asInt64? : Number → Option ℤ
  | int k => if -int64Bound ≤ k ∧ k < int64Bound then some k else none
  | float _ => none

/-- The float nearest to a number. -/
def nearest? : Number → Option Double
  | int k => Double.ofRatio? (k < 0) k.natAbs 1
  | float x => some x

/-- The integer of 64 bits nearest to an integer. -/
def clampInt64 (k : ℤ) : ℤ :=
  max (-int64Bound) (min k (int64Bound - 1))

/-- The number as an integer of 64 bits by way of floats. One that has no fraction is cast up to the
bound, and counts as the greatest integer beyond it. -/
def toInt64? (n : Number) : Option ℤ :=
  match n.asInt64? with
  | some k => some k
  | none =>
    match n.nearest? >>= Double.toInt? with
    | some k => if |k| ≤ int64Bound then some (clampInt64 k) else some (int64Bound - 1)
    | none => none

example : (nearest? (int (int64Bound - 1)) >>= Double.toInt?) = some int64Bound := by decide +kernel

/-- An integer of 64 bits that reaches the bound is rounded to one that does. -/
theorem exists_nearest?_of_int64Bound_le {k : ℤ} (hlow : int64Bound ≤ k) (hhigh : k < intBound) :
    ∃ j, (nearest? (int k) >>= Double.toInt?) = some j ∧ int64Bound ≤ j := by
  have hbounds : int64Bound = 2 ^ 63 ∧ intBound = 2 ^ 64 := ⟨rfl, rfl⟩
  rw [hbounds.1] at hlow
  rw [hbounds.2] at hhigh
  obtain ⟨num, rfl⟩ := Int.eq_ofNat_of_zero_le (show 0 ≤ k by omega)
  have hnum : 0 < num := by omega
  obtain ⟨hreached, hnext⟩ := Double.log2Div_bounds hnum Nat.one_pos
  rw [Nat.cast_one, div_one] at hreached hnext
  have hlow' : (2 : ℚ) ^ (63 : ℤ) ≤ num := by exact_mod_cast hlow
  have hhigh' : (num : ℚ) < 2 ^ (64 : ℤ) := by exact_mod_cast hhigh
  have hlog : Double.log2Div num 1 = 63 := by
    have hmin := (zpow_lt_zpow_iff_right₀ (by norm_num)).mp (hlow'.trans_lt hnext)
    have hmax := (zpow_lt_zpow_iff_right₀ (by norm_num)).mp (hreached.trans_lt hhigh')
    omega
  obtain ⟨x, hx⟩ : ∃ x, Double.ofRatio? false num 1 = some x := by
    rw [← Option.ne_none_iff_exists', ne_eq, Double.ofRatio?_eq_none_iff false Nat.one_pos,
      Nat.cast_one, div_one, not_le]
    calc (num : ℚ) < 2 ^ (64 : ℤ) := hhigh'
      _ ≤ 2 ^ (1023 : ℤ) := zpow_le_zpow_right₀ (by norm_num) (by norm_num)
      _ ≤ Double.overflowBound := Double.le_overflowBound
  obtain ⟨hpositive, hmantissa, hexponent⟩ :=
    Double.parts_of_ofRatio?_eq_some hnum Nat.one_pos (by omega) hx
  rw [hlog] at hexponent
  have hnearest : nearest? (int num) = some x := by
    have hsign : decide ((num : ℤ) < 0) = false := by simp
    rw [nearest?, hsign, Int.natAbs_natCast, hx]
  refine ⟨(x.mantissa * 2 ^ x.exponent.toNat : ℕ), ?_, ?_⟩
  · rw [hnearest]
    exact Double.toInt?_of_exponent_nonneg hpositive (by omega)
  · rw [hbounds.1]
    have hpower : 2 ^ 11 ≤ 2 ^ x.exponent.toNat :=
      Nat.pow_le_pow_right (by decide) (by omega)
    exact_mod_cast Nat.mul_le_mul hmantissa hpower

/-- Whether an integer has 32 bits with a sign. -/
def IsInt32 (k : ℤ) : Prop :=
  -2 ^ 31 ≤ k ∧ k < 2 ^ 31

instance (k : ℤ) : Decidable (IsInt32 k) :=
  inferInstanceAs (Decidable (_ ∧ _))

/-- The way over 64 bits is open to the numbers that are integers, and only the integers of 32 bits
come out as integers of 32 bits, and as themselves. -/
theorem toInt64?_cases {n : Number} (h : n.IsHeld) :
    (n.toInt? = none ∧ n.toInt64? = none) ∨
      ∃ j k, n.toInt? = some k ∧ n.toInt64? = some j ∧ (IsInt32 j ∨ IsInt32 k → j = k) := by
  have hbound : int64Bound = 2 ^ 63 := rfl
  cases n with
  | int k =>
    obtain ⟨hmin, hmax⟩ := h
    by_cases hfits : -int64Bound ≤ k ∧ k < int64Bound
    · exact .inr ⟨k, k, rfl, by rw [toInt64?, asInt64?, if_pos hfits], fun _ => rfl⟩
    · have hmin' : -2 ^ 63 ≤ k := hmin
      obtain ⟨j, hj, hreached⟩ := exists_nearest?_of_int64Bound_le (by omega) hmax
      refine .inr ⟨int64Bound - 1, k, rfl, ?_, ?_⟩
      · rw [toInt64?, asInt64?, if_neg hfits]
        simp only [hj]
        split
        · rename_i hle
          rw [clampInt64]
          congr 1
          omega
        · rfl
      · simp only [IsInt32]
        omega
  | float x =>
    have hroute : toInt64? (float x) = match x.toInt? with
        | some k => if |k| ≤ int64Bound then some (clampInt64 k) else some (int64Bound - 1)
        | none => none := rfl
    rw [hroute]
    cases hx : x.toInt? with
    | none => exact .inl ⟨hx, rfl⟩
    | some k =>
      refine .inr ?_
      simp only
      split
      · refine ⟨_, k, hx, rfl, ?_⟩
        simp only [clampInt64, IsInt32]
        omega
      · rename_i hbeyond
        refine ⟨_, k, hx, rfl, ?_⟩
        simp only [IsInt32]
        rw [not_le, lt_abs] at hbeyond
        omega

end Number

/-! ### The integer scalar -/

namespace ScalarParser

/-- What the integer scalar makes of a value, given the integer that it is, if it is one. -/
def int32Of (value : Json) : Option ℤ → Except ScalarError Json
  | some k =>
    if Number.IsInt32 k then .ok (.ofInt k)
    else .error (.message ("Int cannot represent non 32-bit signed integer value: " ++ value.text))
  | none => .error (.message ("Int cannot represent non-integer value: " ++ value.text))

theorem int32Of_congr {n : Number} (h : n.IsHeld) (value : Json) :
    int32Of value n.toInt64? = int32Of value n.toInt? := by
  rcases Number.toInt64?_cases h with ⟨hnone, hnone'⟩ | ⟨j, k, hk, hj, hsame⟩
  · rw [hnone, hnone']
  · rw [hk, hj]
    by_cases hint32 : Number.IsInt32 j ∨ Number.IsInt32 k
    · rw [hsame hint32]
    · rw [not_or] at hint32
      rw [int32Of, if_neg hint32.1, int32Of, if_neg hint32.2]

theorem parseValue_int (n : Number) :
    int.parseValue (.number n) = int32Of (.number n) n.toInt? := by
  simp only [int]
  cases n.toInt? <;> rfl

theorem parseValue_int_of_not_number {value : Json} (h : ∀ n, value ≠ .number n) :
    int.parseValue value = int32Of value none := by
  cases value with
  | number n => exact absurd rfl (h n)
  | _ => rfl

/-- The integer scalar goes by the value of a number alone, whatever its kind and its size. An integer
of 32 bits is taken, another integer is rejected for its size, and what is no integer is rejected for
that, as is everything that is no number. To convert the number to 64 bits before would make no
difference. -/
theorem parseValue_int_reads_value :
    (∀ n : Number,
      (∀ k : ℤ, n.value = k → -2 ^ 31 ≤ k → k < 2 ^ 31 →
        int.parseValue (.number n) = .ok (.ofInt k)) ∧
      (∀ k : ℤ, n.value = k → k < -2 ^ 31 ∨ 2 ^ 31 ≤ k →
        int.parseValue (.number n) = .error (.message
          ("Int cannot represent non 32-bit signed integer value: " ++ (Json.number n).text))) ∧
      ((∀ k : ℤ, n.value ≠ k) →
        int.parseValue (.number n) = .error (.message
          ("Int cannot represent non-integer value: " ++ (Json.number n).text))) ∧
      (n.IsHeld → int.parseValue (.number n) = int32Of (.number n) n.toInt64?)) ∧
    ∀ value : Json, (∀ n, value ≠ .number n) →
      int.parseValue value = .error (.message
        ("Int cannot represent non-integer value: " ++ value.text)) := by
  refine ⟨fun n => ⟨fun k hk hlow hhigh => ?_, fun k hk hout => ?_, fun hnone => ?_, fun hheld => ?_⟩,
    fun value => parseValue_int_of_not_number⟩
  · rw [parseValue_int, Number.toInt?_eq_some_iff.mpr hk, int32Of]
    exact if_pos ⟨hlow, hhigh⟩
  · have hnot : ¬ Number.IsInt32 k := by
      rw [Number.IsInt32]
      omega
    rw [parseValue_int, Number.toInt?_eq_some_iff.mpr hk, int32Of]
    exact if_neg hnot
  · rw [parseValue_int, Number.toInt?_eq_none_iff.mpr hnone, int32Of]
  · rw [parseValue_int, int32Of_congr hheld]

/-- One half. -/
def half : Double :=
  ⟨false, 2 ^ 52, -53, by decide, by decide, by decide, .inr (by decide)⟩

/-- The greatest number of 64 bits, which is rounded and cut on the way over 64 bits, the negative
zero, and one half. -/
theorem parseValue_int_uint64Max :
    (Number.int 18446744073709551615).IsHeld ∧
      (Number.int 18446744073709551615).toInt64? = some 9223372036854775807 ∧
      int.parseValue (.number (.int 18446744073709551615)) = .error (.message
        "Int cannot represent non 32-bit signed integer value: 18446744073709551615") ∧
      int.parseValue (.number (.int 18446744073709551615)) =
        int32Of (.number (.int 18446744073709551615)) (some 9223372036854775807) ∧
      int.parseValue (.number (.float (.zero true))) = .ok (.ofInt 0) ∧
      int.parseValue (.number (.float half)) = .error (.message
        "Int cannot represent non-integer value: 0.5") ∧
      int.parseValue (.string "7") = .error (.message
        "Int cannot represent non-integer value: \"7\"") := by
  obtain ⟨hnumber, hother⟩ := parseValue_int_reads_value
  have hheld : (Number.int 18446744073709551615).IsHeld := by
    constructor <;> decide
  have hroute : (Number.int 18446744073709551615).toInt64? = some 9223372036854775807 := by
    decide +kernel
  have hzero : (Number.float (.zero true)).value = (0 : ℤ) :=
    Number.toInt?_eq_some_iff.mp (by decide +kernel)
  have hhalf : ∀ k : ℤ, (Number.float half).value ≠ k :=
    Number.toInt?_eq_none_iff.mp (by decide +kernel)
  have htext : (Json.number (.float half)).text = "0.5" := by decide +kernel
  obtain ⟨-, hlarge, -, hsame⟩ := hnumber (.int 18446744073709551615)
  refine ⟨hheld, hroute, hlarge 18446744073709551615 rfl (.inr (by decide)), ?_,
    (hnumber _).1 0 hzero (by decide) (by decide), ?_, hother (.string "7") (by simp)⟩
  · rw [← hroute]
    exact hsame hheld
  · rw [(hnumber _).2.2.1 hhalf, htext]
    rfl

end ScalarParser

end InputCoercion
