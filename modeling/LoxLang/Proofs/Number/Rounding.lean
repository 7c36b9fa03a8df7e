import Mathlib

/-!
# `LoxLang.Proofs.Number.Rounding`: the float nearest to a number

The model of floats rounds what it is given as a mantissa, an exponent
and two bits of what is behind the mantissa. All of that comes from one
rational number, and so does the result: it does not matter how the
number was come by (`roundWithAccuracy_eq`). Products and quotients are
rounded in this way (`mul_eq`, `div_eq`).

* `extended`: the mantissa of a number and the bits behind it;
* `lastPlace`: the exponent to which a number is rounded;
* `nearest`: the float that it is rounded to.
-/

set_option autoImplicit false

namespace LoxLang.Rounding

open Float.Model Float.Model.UnpackedFloat Float.Model.Format

/-! ### Mantissas -/

/-- The whole part of a number, the half behind it, and whether there is
more behind that. -/
def extended (r : ℚ) : ExtendedMantissa where
  mantissa := ⌊r⌋₊
  roundBit := ⌊2 * r⌋₊ % 2 ≠ 0
  stickyBit := (⌊2 * r⌋₊ : ℚ) ≠ 2 * r

theorem extended_natCast (m : ℕ) : extended m = ⟨m, false, false⟩ := by
  have hdouble : (2 * m : ℚ) = ((2 * m : ℕ) : ℚ) := by push_cast; rfl
  simp only [extended, hdouble, Nat.floor_natCast]
  simp

theorem floor_half (r : ℚ) : ⌊r / 2⌋₊ = ⌊r⌋₊ / 2 := by
  rw [← Nat.floor_div_natCast]
  rfl

theorem floor_eq_floor_double (r : ℚ) : ⌊r⌋₊ = ⌊2 * r⌋₊ / 2 := by
  rw [← floor_half, mul_div_cancel_left₀ r two_ne_zero]

/-- A number is whole exactly if its double is whole and even. -/
theorem floor_eq_self_iff (r : ℚ) :
    (⌊r⌋₊ : ℚ) = r ↔ ⌊2 * r⌋₊ % 2 = 0 ∧ (⌊2 * r⌋₊ : ℚ) = 2 * r := by
  constructor
  · intro h
    have hdouble : ⌊2 * r⌋₊ = 2 * ⌊r⌋₊ := by
      rw [← h, Nat.floor_natCast, ← Nat.cast_ofNat, ← Nat.cast_mul, Nat.floor_natCast]
    rw [hdouble]
    refine ⟨Nat.mul_mod_right 2 _, ?_⟩
    push_cast
    rw [h]
  · rintro ⟨heven, hdouble⟩
    have hcast : (⌊2 * r⌋₊ : ℚ) = 2 * (⌊r⌋₊ : ℕ) := by
      rw [floor_eq_floor_double r]
      exact_mod_cast (Nat.mul_div_cancel' (Nat.dvd_of_mod_eq_zero heven)).symm
    linarith

/-- To shift a mantissa by one place halves the number. -/
theorem shiftRightOne_extended (r : ℚ) :
    (extended r).shiftRightOne = extended (r / 2) := by
  have hhalf : 2 * (r / 2) = r := mul_div_cancel₀ r two_ne_zero
  rw [extended, extended, ExtendedMantissa.shiftRightOne, hhalf, floor_half]
  simp only [ne_eq, ExtendedMantissa.mk.injEq, true_and]
  refine ⟨by simp only [bne, beq_eq_decide, decide_not], ?_⟩
  rw [Bool.eq_iff_iff]
  simp only [Bool.or_eq_true, decide_eq_true_eq, floor_eq_self_iff r]
  tauto

theorem shiftRight_extended (r : ℚ) (n : ℕ) :
    extended r >>> n = extended (r / 2 ^ n) := by
  induction n with
  | zero => rw [pow_zero, div_one]; rfl
  | succ n ih =>
    have hstep : extended r >>> (n + 1) = (extended r >>> n).shiftRightOne := rfl
    rw [hstep, ih, shiftRightOne_extended, div_div, pow_succ]

theorem extended_div (a : ℕ) {b : ℕ} (hb : 0 < b) :
    extended (a / b) = ⟨a / b, 2 * a / b % 2 ≠ 0, 2 * a % b ≠ 0⟩ := by
  have hdouble : (2 * (a / b) : ℚ) = ((2 * a : ℕ) : ℚ) / b := by push_cast; ring
  have hb' : (b : ℚ) ≠ 0 := by exact_mod_cast hb.ne'
  have hsticky : ((2 * a / b : ℕ) : ℚ) = ((2 * a : ℕ) : ℚ) / b ↔ 2 * a % b = 0 := by
    rw [eq_div_iff hb']
    constructor
    · intro h
      exact Nat.mod_eq_zero_of_dvd ⟨_, (by exact_mod_cast h.symm.trans (mul_comm _ _))⟩
    · intro h
      exact_mod_cast Nat.div_mul_cancel (Nat.dvd_of_mod_eq_zero h)
  simp only [extended, hdouble, Nat.floor_div_eq_div, ne_eq, hsticky]

/-- What is left of a division says where the quotient lies. -/
theorem ofMantissaAndAccuracy_div (a : ℕ) {b : ℕ} (hb : 0 < b) :
    ExtendedMantissa.ofMantissaAndAccuracy (a / b) (accuracyOfFraction (a % b) b) =
      extended (a / b) := by
  have hlt := Nat.mod_lt a hb
  have hdiv : 2 * a / b = 2 * (a % b) / b + 2 * (a / b) := by
    conv_lhs => rw [← Nat.mod_add_div a b, mul_add, mul_left_comm, Nat.add_mul_div_left _ _ hb]
  have hmod : 2 * a % b = 2 * (a % b) % b := by
    conv_lhs => rw [← Nat.mod_add_div a b, mul_add, mul_left_comm, Nat.add_mul_mod_self_left]
  rw [extended_div a hb, hdiv, hmod, Nat.add_mul_mod_self_left, accuracyOfFraction]
  generalize a % b = left at hlt
  split
  · next hzero => simp [hzero, ExtendedMantissa.ofMantissaAndAccuracy]
  · next hzero =>
    rcases lt_trichotomy (2 * left) b with h | h | h
    · have : 2 * left ≠ 0 := by omega
      simp [Nat.compare_eq_lt.mpr h, ExtendedMantissa.ofMantissaAndAccuracy,
        Nat.div_eq_of_lt h, Nat.mod_eq_of_lt h, hzero]
    · simp [ExtendedMantissa.ofMantissaAndAccuracy, h, Nat.div_self hb]
    · have hone : 2 * left / b = 1 := Nat.div_eq_of_lt_le (by omega) (by omega)
      have hleft : 2 * left % b ≠ 0 := by
        rw [Nat.mod_eq_sub_mod h.le, Nat.mod_eq_of_lt (by omega)]
        omega
      simp [Nat.compare_eq_gt.mpr h, ExtendedMantissa.ofMantissaAndAccuracy, hone, hleft]

/-! ### Rounding -/

/-- The exponent of the last place that a float near to a number has. -/
def lastPlace (q : ℚ) : ℤ :=
  max (Int.log 2 q - 52) (-1074)

/-- Makes a float of a mantissa at the last place. A mantissa with a digit
too many has been rounded up to a power of two. -/
def settle (sign : Sign) (mantissa : ℕ) (exponent : ℤ) : UnpackedFloat :=
  let shifted := shiftToTargetExponent binary64 mantissa exponent .exact
  if h : shifted.1.mantissa = 0 then .zero sign
  else .finite sign shifted.1.mantissa shifted.2 (Nat.pos_of_ne_zero h)

/-- The float nearest to a positive number, with a sign. Its exponent may
be too large for a float. -/
def nearest (sign : Sign) (q : ℚ) : UnpackedFloat :=
  settle sign (extended (q / 2 ^ lastPlace q)).roundedMantissa (lastPlace q)

theorem targetExponent_eq (m : ℕ) (e : ℤ) :
    binary64.targetExponent (totalExponent m e) = max (m.log2 + e - 52) (-1074) := by
  have hbits : binary64.mantissaBits = 53 := rfl
  have hmin : binary64.minExponent = -1074 := rfl
  rw [targetExponent, totalExponent, hbits, hmin]
  congr 1
  push_cast
  ring

theorem zpow_add_two (a b : ℤ) : (2 : ℚ) ^ (a + b) = 2 ^ a * 2 ^ b :=
  zpow_add₀ two_ne_zero a b

/-- A mantissa has its first bit where the number has it. -/
theorem log_eq {q : ℚ} {m : ℕ} {e : ℤ} (hm : 0 < m) (hle : m * 2 ^ e ≤ q)
    (hlt : q < (m + 1) * 2 ^ e) : Int.log 2 q = m.log2 + e := by
  have hpow : (0 : ℚ) < 2 ^ e := by positivity
  have hq : 0 < q := lt_of_lt_of_le (by positivity) hle
  have hlow : ((2 ^ m.log2 : ℕ) : ℚ) ≤ m := by exact_mod_cast Nat.log2_self_le hm.ne'
  have hhigh : (m + 1 : ℚ) ≤ (2 ^ (m.log2 + 1) : ℕ) := by exact_mod_cast Nat.lt_log2_self
  refine le_antisymm (Int.lt_add_one_iff.mp ?_) ?_
  · rw [← Int.lt_zpow_iff_log_lt one_lt_two hq]
    calc q < (m + 1) * 2 ^ e := hlt
      _ ≤ (2 ^ (m.log2 + 1) : ℕ) * 2 ^ e := mul_le_mul_of_nonneg_right hhigh hpow.le
      _ = ((2 : ℕ) : ℚ) ^ (m.log2 + e + 1 : ℤ) := by
        rw [Nat.cast_pow, ← zpow_natCast, Nat.cast_ofNat, ← zpow_add_two]
        congr 1
        push_cast
        ring
  · rw [← Int.zpow_le_iff_le_log one_lt_two hq]
    calc ((2 : ℕ) : ℚ) ^ (m.log2 + e : ℤ) = (2 ^ m.log2 : ℕ) * 2 ^ e := by
          rw [Nat.cast_pow, ← zpow_natCast, Nat.cast_ofNat, ← zpow_add_two]
      _ ≤ m * 2 ^ e := mul_le_mul_of_nonneg_right hlow hpow.le
      _ ≤ q := hle

/-- A mantissa that is fine enough is rounded at the last place of the
number. -/
theorem targetExponent_floor {q : ℚ} {e : ℤ} (hq : 0 < q) (he : e ≤ lastPlace q) :
    binary64.targetExponent (totalExponent ⌊q / 2 ^ e⌋₊ e) = lastPlace q := by
  have hpow : (0 : ℚ) < 2 ^ e := by positivity
  rw [targetExponent_eq, lastPlace]
  rcases Nat.eq_zero_or_pos ⌊q / 2 ^ e⌋₊ with hzero | hpos
  -- the number is below the smallest place of all
  · have hlog : Int.log 2 q < e := by
      rw [← Int.lt_zpow_iff_log_lt one_lt_two hq, Nat.cast_ofNat]
      rw [Nat.floor_eq_zero, div_lt_one hpow] at hzero
      exact hzero
    have hlog2 : Nat.log2 0 = 0 := rfl
    rw [lastPlace] at he
    rw [hzero, hlog2]
    omega
  · have hle := Nat.floor_le (div_pos hq hpow).le
    have hlt := Nat.lt_floor_add_one (q / 2 ^ e)
    rw [le_div_iff₀ hpow] at hle
    rw [div_lt_iff₀ hpow] at hlt
    rw [log_eq hpos hle hlt]

/-- What is rounded is known by the number, if it is given finely enough. -/
theorem roundWithAccuracy_eq {q : ℚ} {m : ℕ} {e : ℤ} {accuracy : Accuracy} (sign : Sign)
    (hq : 0 < q) (he : e ≤ lastPlace q)
    (hm : ExtendedMantissa.ofMantissaAndAccuracy m accuracy = extended (q / 2 ^ e)) :
    roundWithAccuracy binary64 sign m e accuracy = nearest sign q := by
  have hmantissa : m = ⌊q / 2 ^ e⌋₊ := by
    have := congrArg ExtendedMantissa.mantissa hm
    cases accuracy with
    | exact => exact this
    | inexact half => cases half <;> exact this
  have htarget := targetExponent_floor hq he
  rw [← hmantissa] at htarget
  have hshift : shiftToTargetExponent binary64 m e accuracy =
      (extended (q / 2 ^ lastPlace q), lastPlace q) := by
    rw [shiftToTargetExponent, htarget, shiftToExponent, hm, shiftRight_extended, div_div]
    have hplace : e + ((lastPlace q - e).toNat : ℤ) = lastPlace q := by omega
    rw [← zpow_natCast, ← zpow_add_two, hplace]
  rw [roundWithAccuracy, hshift]
  rfl

/-! ### Products and quotients -/

theorem le_lastPlace {m : ℕ} (e : ℤ) (hm : 2 ^ 52 ≤ m) : e ≤ lastPlace (m * 2 ^ e) := by
  have hpos : 0 < m := by omega
  have hpow : (0 : ℚ) < 2 ^ e := by positivity
  have hlog : 52 ≤ m.log2 := (Nat.le_log2 hpos.ne').mpr hm
  rw [lastPlace, log_eq hpos le_rfl (by linarith)]
  omega

/-- A product is rounded as a whole, if its factors are given finely
enough. -/
theorem mul_eq {s₁ s₂ : Sign} {m₁ m₂ : ℕ} {e₁ e₂ : ℤ} (h₁ : 0 < m₁) (h₂ : 0 < m₂)
    (hfine : 2 ^ 52 ≤ m₁ * m₂) :
    UnpackedFloat.mul binary64 (.finite s₁ m₁ e₁ h₁) (.finite s₂ m₂ e₂ h₂) =
      nearest (s₁ * s₂) (m₁ * 2 ^ e₁ * (m₂ * 2 ^ e₂)) := by
  have hq : (m₁ * 2 ^ e₁ * (m₂ * 2 ^ e₂) : ℚ) = (m₁ * m₂ : ℕ) * 2 ^ (e₁ + e₂) := by
    rw [zpow_add_two]
    push_cast
    ring
  have hpos : 0 < m₁ * m₂ := Nat.mul_pos h₁ h₂
  rw [UnpackedFloat.mul, hq]
  refine roundWithAccuracy_eq _ (by positivity) (le_lastPlace _ hfine) ?_
  rw [mul_div_cancel_right₀ _ (by positivity), extended_natCast]
  rfl

theorem log_div_ge {m₁ m₂ : ℕ} (e₁ e₂ : ℤ) (h₁ : 0 < m₁) (h₂ : 0 < m₂) :
    m₁.log2 + e₁ - (m₂.log2 + 1 + e₂) ≤ Int.log 2 (m₁ * 2 ^ e₁ / (m₂ * 2 ^ e₂) : ℚ) := by
  have hlow : ((2 ^ m₁.log2 : ℕ) : ℚ) ≤ m₁ := by exact_mod_cast Nat.log2_self_le h₁.ne'
  have hhigh : (m₂ : ℚ) ≤ (2 ^ (m₂.log2 + 1) : ℕ) := by exact_mod_cast Nat.lt_log2_self.le
  rw [← Int.zpow_le_iff_le_log one_lt_two (by positivity), Nat.cast_ofNat,
    zpow_sub₀ two_ne_zero, zpow_add_two, zpow_add_two]
  refine div_le_div₀ (by positivity) ?_ (by positivity) ?_
  · exact mul_le_mul_of_nonneg_right (by exact_mod_cast hlow) (by positivity)
  · exact mul_le_mul_of_nonneg_right (by exact_mod_cast hhigh) (by positivity)

/-- A quotient is rounded as a whole. -/
theorem div_eq {s₁ s₂ : Sign} {m₁ m₂ : ℕ} {e₁ e₂ : ℤ} (h₁ : 0 < m₁) (h₂ : 0 < m₂) :
    UnpackedFloat.div binary64 (.finite s₁ m₁ e₁ h₁) (.finite s₂ m₂ e₂ h₂) =
      nearest (s₁ / s₂) (m₁ * 2 ^ e₁ / (m₂ * 2 ^ e₂)) := by
  have hlog := log_div_ge e₁ e₂ h₁ h₂
  have hbits : binary64.mantissaBits = 53 := rfl
  have hmin : binary64.minExponent = -1074 := rfl
  rw [UnpackedFloat.div, divCore, targetExponent, totalExponent, totalExponent, hbits, hmin]
  generalize ht : min (e₁ - e₂)
    (max ((m₁.log2 : ℤ) + 1 + e₁ - (m₂.log2 + 1 + e₂) - (53 : ℕ)) (-1074)) = t
  refine roundWithAccuracy_eq _ (by positivity) ?_ ?_
  · rw [lastPlace]
    omega
  -- the dividend is shifted until the quotient is fine enough
  · have hshift : ((e₁ - e₂ - t).toNat : ℤ) = e₁ - e₂ - t := by omega
    rw [ofMantissaAndAccuracy_div _ h₂, Nat.shiftLeft_eq]
    congr 1
    push_cast
    rw [← zpow_natCast, hshift, zpow_sub₀ two_ne_zero, zpow_sub₀ two_ne_zero]
    field_simp

theorem shiftLeft_mul_zpow (m n : ℕ) : ((m <<< n : ℕ) * 2 ^ (-(n : ℤ)) : ℚ) = m := by
  rw [Nat.shiftLeft_eq, zpow_neg, zpow_natCast, Nat.cast_mul, Nat.cast_pow, Nat.cast_ofNat,
    mul_inv_cancel_right₀ (by positivity)]

/-- A decimal number that is not far outside the range of floats is
rounded as a whole. -/
theorem ofScientific_eq {m : ℕ} {e : ℤ} (hm : 0 < m) (hlow : -(2 ^ 11 + m.log2) ≤ e)
    (hhigh : e ≤ 2 ^ 11) :
    UnpackedFloat.ofScientific binary64 m e = nearest .positive (m * 10 ^ e) := by
  have hbits : binary64.mantissaBits = 53 := rfl
  rw [UnpackedFloat.ofScientific, dif_neg hm.ne', if_neg (not_lt.mpr hhigh),
    if_neg (not_lt.mpr hlow)]
  split
  · next he =>
    have hfine : 2 ^ 52 ≤ m <<< binary64.mantissaBits * 10 ^ e.toNat := by
      have hten : 0 < 10 ^ e.toNat := by positivity
      rw [Nat.shiftLeft_eq, hbits]
      nlinarith
    have hvalue : ((m <<< binary64.mantissaBits : ℕ) * 2 ^ (-(binary64.mantissaBits : ℤ)) *
        ((10 ^ e.toNat : ℕ) * 2 ^ (0 : ℤ)) : ℚ) = m * 10 ^ e := by
      rw [shiftLeft_mul_zpow, zpow_zero, mul_one, Nat.cast_pow, ← zpow_natCast,
        Int.toNat_of_nonneg he, Nat.cast_ofNat]
    rw [mul_eq _ _ hfine, hvalue]
    rfl
  · next he =>
    have hvalue : (m * 2 ^ (0 : ℤ) / ((10 ^ (-e).toNat : ℕ) * 2 ^ (0 : ℤ)) : ℚ) = m * 10 ^ e := by
      rw [zpow_zero, mul_one, mul_one, Nat.cast_pow, ← zpow_natCast,
        Int.toNat_of_nonneg (by omega), Nat.cast_ofNat, zpow_neg, div_inv_eq_mul]
    rw [div_eq, hvalue]
    rfl

end LoxLang.Rounding
