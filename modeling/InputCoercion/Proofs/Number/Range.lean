import InputCoercion.Number
import Mathlib.Algebra.Order.Field.Power
import Mathlib.Data.Rat.Cast.Order
import Mathlib.Tactic.Linarith
import Mathlib.Tactic.NormNum
import Mathlib.Tactic.Positivity
import Mathlib.Tactic.Ring

/-!
The range of binary64 numbers. An exact decimal has a number near it unless its magnitude reaches
the bound at which rounding leaves the range. This is halfway between the largest number and the
power of two that would follow it, since a tie goes to the even mantissa, which is that of the power
of two.

The rounding is followed in rationals: a quotient is scaled by the power of two that leaves 53 bits
before the point, and the scaled quotient is rounded to an integer.
-/

namespace InputCoercion

/-- A power with a whole exponent as a quotient of powers with natural exponents. -/
theorem zpow_eq_pow_div_pow {b : ℚ} (hb : b ≠ 0) (e : ℤ) :
    b ^ e = b ^ e.toNat / b ^ (-e).toNat := by
  have hsplit : e = (e.toNat : ℤ) - ((-e).toNat : ℤ) := by omega
  conv_lhs => rw [hsplit]
  rw [zpow_sub₀ hb, zpow_natCast, zpow_natCast]

namespace Double

/-- The magnitude from which on there is no number near. -/
def overflowBound : ℚ := (2 ^ 54 - 1) * 2 ^ 970

/-! ### Rounding to an integer -/

section RoundDiv

variable {num den k : ℕ}

theorem roundDiv_cases (num den : ℕ) :
    (roundDiv num den = num / den ∧ 2 * (num % den) ≤ den) ∨
      (roundDiv num den = num / den + 1 ∧ den ≤ 2 * (num % den)) := by
  simp only [roundDiv]
  split
  · exact .inl ⟨rfl, by omega⟩
  · split
    · exact .inr ⟨rfl, by omega⟩
    · rcases Nat.mod_two_eq_zero_or_one (num / den) with heven | hodd
      · exact .inl ⟨by omega, by omega⟩
      · exact .inr ⟨by omega, by omega⟩

theorem le_roundDiv (hden : 0 < den) (h : (k : ℚ) ≤ num / den) : k ≤ roundDiv num den := by
  rw [le_div_iff₀ (by exact_mod_cast hden)] at h
  have hk : k ≤ num / den := (Nat.le_div_iff_mul_le hden).mpr (by exact_mod_cast h)
  rcases roundDiv_cases num den with ⟨h, -⟩ | ⟨h, -⟩ <;> omega

theorem roundDiv_le (hden : 0 < den) (h : (num : ℚ) / den ≤ k) : roundDiv num den ≤ k := by
  rw [div_le_iff₀ (by exact_mod_cast hden)] at h
  have hle : num ≤ k * den := by exact_mod_cast h
  have hquotient : num / den ≤ k := Nat.div_le_of_le_mul (by rwa [Nat.mul_comm])
  rcases roundDiv_cases num den with ⟨h, -⟩ | ⟨h, hhalf⟩
  · omega
  · -- A quotient that is rounded up is no integer.
    have hmod : 0 < num % den := by omega
    have hne : num / den ≠ k := by
      rintro rfl
      have hsum := Nat.div_add_mod num den
      rw [Nat.mul_comm] at hsum
      omega
    omega

/-- Halfway between two integers a quotient is rounded away from the odd one. -/
theorem lt_roundDiv_iff (hden : 0 < den) (hodd : k % 2 = 1) :
    k < roundDiv num den ↔ (k : ℚ) + 1 / 2 ≤ num / den := by
  have hcast : (k : ℚ) + 1 / 2 ≤ num / den ↔ (2 * k + 1) * den ≤ 2 * num := by
    rw [le_div_iff₀ (by exact_mod_cast hden)]
    constructor
    · intro h
      have hdouble : (2 * k + 1 : ℚ) * den ≤ 2 * num := by linarith
      exact_mod_cast hdouble
    · intro h
      have hdouble : (2 * k + 1 : ℚ) * den ≤ 2 * num := by exact_mod_cast h
      linarith
  have hproduct : (2 * k + 1) * den = 2 * (den * k) + den := by ring
  have hsum := Nat.div_add_mod num den
  have hmod := Nat.mod_lt num hden
  rw [hcast]
  rcases Nat.lt_trichotomy (num / den) k with hbelow | rfl | habove
  · have hmul : den * (num / den + 1) ≤ den * k := Nat.mul_le_mul_left den hbelow
    rw [Nat.mul_add, Nat.mul_one] at hmul
    rcases roundDiv_cases num den with ⟨h, -⟩ | ⟨h, -⟩ <;> omega
  · -- Only here the parity counts, which settles a tie.
    simp only [roundDiv]
    split
    · omega
    · split <;> omega
  · have hmul : den * (k + 1) ≤ den * (num / den) := Nat.mul_le_mul_left den habove
    rw [Nat.mul_add, Nat.mul_one] at hmul
    rcases roundDiv_cases num den with ⟨h, -⟩ | ⟨h, -⟩ <;> omega

end RoundDiv

/-! ### Scaling -/

variable {num den : ℕ}

theorem scaled_pos (hden : 0 < den) (e : ℤ) : 0 < (scaled num den e).2 :=
  Nat.mul_pos hden (Nat.pow_pos (by decide))

theorem scaled_div (num den : ℕ) (e : ℤ) :
    ((scaled num den e).1 : ℚ) / (scaled num den e).2 = num / den / 2 ^ e := by
  rw [zpow_eq_pow_div_pow (by norm_num : (2 : ℚ) ≠ 0) e]
  simp only [scaled, Nat.pow_eq, Nat.cast_mul, Nat.cast_pow, Nat.cast_ofNat]
  rw [div_div_eq_mul_div, div_mul_eq_mul_div, div_div]

/-- A positive quotient lies between the power of two of its exponent and the next one. -/
theorem log2Div_bounds (hnum : 0 < num) (hden : 0 < den) :
    (2 : ℚ) ^ log2Div num den ≤ num / den ∧ (num : ℚ) / den < 2 ^ (log2Div num den + 1) := by
  have hn : (2 : ℚ) ^ num.log2 ≤ num := by exact_mod_cast Nat.log2_self_le hnum.ne'
  have hn' : (num : ℚ) < 2 ^ (num.log2 + 1) := by exact_mod_cast Nat.lt_log2_self
  have hd : (2 : ℚ) ^ den.log2 ≤ den := by exact_mod_cast Nat.log2_self_le hden.ne'
  have hd' : (den : ℚ) < 2 ^ (den.log2 + 1) := by exact_mod_cast Nat.lt_log2_self
  have hpos : (0 : ℚ) < den := by exact_mod_cast hden
  have htwo : (2 : ℚ) ≠ 0 := by norm_num
  have hlow : (2 : ℚ) ^ ((num.log2 : ℤ) - den.log2 - 1) ≤ num / den := by
    rw [le_div_iff₀ hpos, sub_sub, zpow_sub₀ htwo, zpow_natCast, div_mul_eq_mul_div,
      div_le_iff₀ (by positivity)]
    calc (2 : ℚ) ^ num.log2 * den ≤ num * den := by gcongr
      _ ≤ num * 2 ^ ((den.log2 : ℤ) + 1) := by
        gcongr
        exact_mod_cast hd'.le
  have hhigh : (num : ℚ) / den < 2 ^ ((num.log2 : ℤ) - den.log2 + 1) := by
    rw [div_lt_iff₀ hpos, sub_add_eq_add_sub, zpow_sub₀ htwo, zpow_natCast, div_mul_eq_mul_div,
      lt_div_iff₀ (by positivity)]
    calc (num : ℚ) * 2 ^ den.log2 ≤ num * den := by gcongr
      _ < 2 ^ ((num.log2 : ℤ) + 1) * den := by
        gcongr
        exact_mod_cast hn'
  have hscaled := scaled_div num den ((num.log2 : ℤ) - den.log2)
  have hscaledPos : (0 : ℚ) < (scaled num den ((num.log2 : ℤ) - den.log2)).2 := by
    exact_mod_cast scaled_pos hden _
  have hpower : (0 : ℚ) < 2 ^ ((num.log2 : ℤ) - den.log2) := by positivity
  rw [log2Div]
  simp only
  split
  · rename_i hlt
    have hone : ((scaled num den ((num.log2 : ℤ) - den.log2)).1 : ℚ) /
        (scaled num den ((num.log2 : ℤ) - den.log2)).2 < 1 := by
      rw [div_lt_one hscaledPos]
      exact_mod_cast hlt
    rw [hscaled, div_lt_one hpower] at hone
    exact ⟨hlow, by rwa [sub_add_cancel]⟩
  · rename_i hge
    have hone : 1 ≤ ((scaled num den ((num.log2 : ℤ) - den.log2)).1 : ℚ) /
        (scaled num den ((num.log2 : ℤ) - den.log2)).2 := by
      rw [one_le_div hscaledPos]
      exact_mod_cast Nat.not_lt.mp hge
    rw [hscaled, one_le_div hpower] at hone
    exact ⟨hone, hhigh⟩

/-! ### Rounding to a number -/

theorem ofParts?_eq_none_iff {negative : Bool} {mantissa : ℕ} {exponent : ℤ} :
    ofParts? negative mantissa exponent = none ↔
      ¬ (mantissa < Nat.pow 2 53 ∧ -1074 ≤ exponent ∧ exponent ≤ 971 ∧
        (exponent = -1074 ∨ Nat.pow 2 52 ≤ mantissa)) := by
  rw [ofParts?]
  split <;> simp_all

/-- The exponent of the number that a positive quotient is rounded to, unless the mantissa is
rounded up to the next power of two. -/
def roundedExponent (num den : ℕ) : ℤ :=
  max (log2Div num den) (-1022) - 52

/-- The mantissa of this number. -/
def roundedMantissa (num den : ℕ) : ℕ :=
  roundDiv (scaled num den (roundedExponent num den)).1 (scaled num den (roundedExponent num den)).2

theorem ofRatio?_eq (negative : Bool) (hnum : 0 < num) :
    ofRatio? negative num den =
      if roundedMantissa num den = Nat.pow 2 53 then
        ofParts? negative (Nat.pow 2 52) (roundedExponent num den + 1)
      else
        ofParts? negative (roundedMantissa num den) (roundedExponent num den) := by
  rw [ofRatio?, if_neg hnum.ne']
  rfl

theorem roundedMantissa_le (hnum : 0 < num) (hden : 0 < den) :
    roundedMantissa num den ≤ Nat.pow 2 53 := by
  refine roundDiv_le (scaled_pos hden _) ?_
  rw [scaled_div, div_le_iff₀ (by positivity)]
  calc (num : ℚ) / den ≤ 2 ^ (log2Div num den + 1) := (log2Div_bounds hnum hden).2.le
    _ ≤ 2 ^ (53 + roundedExponent num den) := by
      refine zpow_le_zpow_right₀ (by norm_num) ?_
      rw [roundedExponent]
      omega
    _ = (Nat.pow 2 53 : ℕ) * 2 ^ roundedExponent num den := by
      rw [zpow_add₀ (by norm_num)]
      norm_num

theorem le_roundedMantissa (hnum : 0 < num) (hden : 0 < den) (hlog : -1022 ≤ log2Div num den) :
    Nat.pow 2 52 ≤ roundedMantissa num den := by
  refine le_roundDiv (scaled_pos hden _) ?_
  rw [scaled_div, le_div_iff₀ (by positivity)]
  calc ((Nat.pow 2 52 : ℕ) : ℚ) * 2 ^ roundedExponent num den
      = 2 ^ (52 + roundedExponent num den) := by
        rw [zpow_add₀ (by norm_num)]
        norm_num
    _ ≤ 2 ^ log2Div num den := by
      refine zpow_le_zpow_right₀ (by norm_num) ?_
      rw [roundedExponent]
      omega
    _ ≤ num / den := (log2Div_bounds hnum hden).1

/-- At the largest exponent the mantissa is rounded up to the next power of two from the bound
on. -/
theorem roundedMantissa_eq_iff (hnum : 0 < num) (hden : 0 < den)
    (hlog : log2Div num den = 1023) :
    roundedMantissa num den = Nat.pow 2 53 ↔ overflowBound ≤ num / den := by
  have hexponent : roundedExponent num den = 971 := by
    rw [roundedExponent, hlog]
    rfl
  have hle := roundedMantissa_le hnum hden
  have hlt : roundedMantissa num den = Nat.pow 2 53 ↔
      Nat.pow 2 53 - 1 < roundedMantissa num den := by
    simp only [Nat.pow_eq] at hle ⊢
    omega
  have hbound : (((Nat.pow 2 53 - 1 : ℕ) : ℚ) + 1 / 2) * 2 ^ (971 : ℤ) = overflowBound := by
    have hpower : (2 : ℚ) ^ (971 : ℤ) = 2 * 2 ^ 970 := by
      rw [← pow_succ']
      rfl
    rw [overflowBound, hpower, ← mul_assoc]
    norm_num
  rw [hlt, roundedMantissa, lt_roundDiv_iff (scaled_pos hden _) (by decide), scaled_div, hexponent,
    le_div_iff₀ (by positivity), hbound]

theorem overflowBound_le : overflowBound ≤ 2 ^ (1024 : ℤ) := by
  have hpower : (2 : ℚ) ^ (1024 : ℤ) = 2 ^ 54 * 2 ^ 970 := by
    rw [← pow_add]
    rfl
  rw [overflowBound, hpower]
  gcongr
  norm_num

theorem le_overflowBound : 2 ^ (1023 : ℤ) ≤ overflowBound := by
  have hpower : (2 : ℚ) ^ (1023 : ℤ) = 2 ^ 53 * 2 ^ 970 := by
    rw [← pow_add]
    rfl
  rw [overflowBound, hpower]
  gcongr
  norm_num

/-- A quotient is rounded to a number unless it reaches the bound. -/
theorem ofRatio?_eq_none_iff (negative : Bool) (hden : 0 < den) :
    ofRatio? negative num den = none ↔ overflowBound ≤ num / den := by
  rcases Nat.eq_zero_or_pos num with rfl | hnum
  · have hpos : (0 : ℚ) < overflowBound := lt_of_lt_of_le (by positivity) le_overflowBound
    simp [ofRatio?, hpos]
  obtain ⟨hlow, hhigh⟩ := log2Div_bounds hnum hden
  have hle := roundedMantissa_le hnum hden
  rw [ofRatio?_eq negative hnum]
  rcases lt_trichotomy (log2Div num den) 1023 with hbelow | heq | habove
  · -- Below the last power of two in the range there is room for a carry.
    have hlt : (num : ℚ) / den < overflowBound := by
      calc (num : ℚ) / den < 2 ^ (log2Div num den + 1) := hhigh
        _ ≤ 2 ^ (1023 : ℤ) := zpow_le_zpow_right₀ (by norm_num) (by omega)
        _ ≤ overflowBound := le_overflowBound
    have hnormal : roundedExponent num den = -1074 ∨ Nat.pow 2 52 ≤ roundedMantissa num den := by
      by_cases hlog : -1022 ≤ log2Div num den
      · exact .inr (le_roundedMantissa hnum hden hlog)
      · rw [roundedExponent]
        exact .inl (by omega)
    simp only [not_le.mpr hlt, iff_false]
    split
    · rw [ofParts?_eq_none_iff, not_not, roundedExponent]
      exact ⟨by decide, by omega, by omega, .inr (Nat.le_refl _)⟩
    · rename_i hne
      rw [ofParts?_eq_none_iff, not_not]
      refine ⟨by omega, ?_, ?_, hnormal⟩ <;> rw [roundedExponent] <;> omega
  · have hexponent : roundedExponent num den = 971 := by
      rw [roundedExponent, heq]
      rfl
    rw [← roundedMantissa_eq_iff hnum hden heq, hexponent]
    split
    · rename_i hcarry
      simp [ofParts?_eq_none_iff, hcarry]
    · rename_i hne
      have hmantissa := le_roundedMantissa hnum hden (by omega)
      simp only [hne, iff_false, ofParts?_eq_none_iff, not_not]
      exact ⟨by omega, by decide, by decide, .inr hmantissa⟩
  · have hge : overflowBound ≤ num / den := by
      calc overflowBound ≤ 2 ^ (1024 : ℤ) := overflowBound_le
        _ ≤ 2 ^ log2Div num den := zpow_le_zpow_right₀ (by norm_num) (by omega)
        _ ≤ num / den := hlow
    simp only [hge, iff_true]
    split <;> rw [ofParts?_eq_none_iff, roundedExponent] <;> omega

end Double

namespace Decimal

/-- The exact value without its sign. -/
def magnitude (d : Decimal) : ℚ :=
  d.digits * 10 ^ d.exponent

/-- The leading digit stands where the number of digits and the exponent put it. -/
theorem magnitude_bounds {d : Decimal} (h : d.digits ≠ 0) :
    (10 : ℚ) ^ ((Nat.toDigits 10 d.digits).length + d.exponent - 1) ≤ d.magnitude ∧
      d.magnitude < 10 ^ ((Nat.toDigits 10 d.digits).length + d.exponent) := by
  obtain ⟨k, hk⟩ : ∃ k, (Nat.toDigits 10 d.digits).length = k + 1 :=
    Nat.exists_eq_add_one.mpr Nat.length_toDigits_pos
  have hhigh : d.digits < 10 ^ (k + 1) :=
    (Nat.length_toDigits_le_iff (by decide) (Nat.succ_pos k)).mp hk.le
  have hlow : 10 ^ k ≤ d.digits := by
    rcases Nat.eq_zero_or_pos k with rfl | hpos
    · exact Nat.one_le_iff_ne_zero.mpr h
    · rw [← Nat.not_lt, ← Nat.length_toDigits_le_iff (by decide) hpos]
      omega
  rw [magnitude, hk]
  constructor
  · have hsplit : ((k + 1 : ℕ) : ℤ) + d.exponent - 1 = k + d.exponent := by omega
    rw [hsplit, zpow_add₀ (by norm_num), zpow_natCast]
    gcongr
    exact_mod_cast hlow
  · rw [zpow_add₀ (by norm_num), zpow_natCast]
    gcongr
    exact_mod_cast hhigh

/-- A decimal has a number near it unless its magnitude reaches the bound. -/
theorem toDouble?_eq_none_iff (d : Decimal) :
    d.toDouble? = none ↔ Double.overflowBound ≤ d.magnitude := by
  have hone : (1 : ℚ) ≤ Double.overflowBound :=
    le_trans (one_le_zpow₀ (by norm_num) (by norm_num)) Double.le_overflowBound
  rw [toDouble?]
  split
  · rename_i hzero
    have hbound : ¬ Double.overflowBound ≤ 0 := by linarith
    simp [magnitude, hzero, hbound]
  · rename_i hne
    obtain ⟨hlow, hhigh⟩ := magnitude_bounds hne
    simp only
    split
    · rename_i hsmall
      rw [exponentBound] at hsmall
      have hlt : d.magnitude < Double.overflowBound := by
        calc d.magnitude < 10 ^ ((Nat.toDigits 10 d.digits).length + d.exponent) := hhigh
          _ ≤ 10 ^ (0 : ℤ) := zpow_le_zpow_right₀ (by norm_num) (by omega)
          _ ≤ Double.overflowBound := by simpa using hone
      simp [hlt]
    · split
      · rename_i hlarge
        rw [exponentBound] at hlarge
        have hge : Double.overflowBound ≤ d.magnitude := by
          calc Double.overflowBound ≤ 2 ^ (1024 : ℤ) := Double.overflowBound_le
            _ ≤ 2 ^ (3 * 400 : ℤ) := zpow_le_zpow_right₀ (by norm_num) (by norm_num)
            _ = 8 ^ (400 : ℤ) := by
              rw [zpow_mul]
              norm_num
            _ ≤ 10 ^ (400 : ℤ) := zpow_le_zpow_left₀ (by norm_num) (by norm_num) (by norm_num)
            _ ≤ 10 ^ ((Nat.toDigits 10 d.digits).length + d.exponent - 1) :=
              zpow_le_zpow_right₀ (by norm_num) (by omega)
            _ ≤ d.magnitude := hlow
        simp [hge]
      · have hquotient : ((d.digits * Nat.pow 10 d.exponent.toNat : ℕ) : ℚ) /
            (Nat.pow 10 (-d.exponent).toNat : ℕ) = d.magnitude := by
          rw [magnitude, zpow_eq_pow_div_pow (by norm_num : (10 : ℚ) ≠ 0)]
          push_cast [Nat.pow_eq]
          rw [mul_div_assoc]
        have hden : 0 < Nat.pow 10 (-d.exponent).toNat := Nat.pow_pos (by decide)
        rw [Double.ofRatio?_eq_none_iff _ hden, hquotient]

end Decimal

end InputCoercion
