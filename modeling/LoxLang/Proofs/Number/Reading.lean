import LoxLang.Proofs.Number.Packing

/-!
# `LoxLang.Proofs.Number.Reading`: the float of a decimal number

The float of a decimal number is the one nearest to it, and so depends
on nothing but the number: on its sign, which zero has too, and on its
magnitude, however many of its zeros are among the digits
(`Decimal.toFloat_eq`). Small digits and exponents take a short cut
through floats that are exact, and numbers far outside the range of
floats are not computed at all; the result is the same.

* `Decimal.magnitude`: the number without its sign;
* `near`: the float nearest to a magnitude.
-/

set_option autoImplicit false

namespace LoxLang

open Float.Model Float.Model.UnpackedFloat Float.Model.Format

/-- The number that a decimal denotes, without its sign. -/
def Decimal.magnitude (d : Decimal) : ℚ :=
  d.digits * 10 ^ d.exponent

/-- Two decimals denote the same number, with the same sign. -/
structure Decimal.Same (d d' : Decimal) : Prop where
  negative : d.negative = d'.negative
  magnitude : d.magnitude = d'.magnitude

namespace Rounding

/-- The float nearest to a magnitude. -/
def near (q : ℚ) : Float :=
  if q = 0 then 0 else .ofModel (.pack (nearest .positive q))

/-- A power is a quotient of two with natural exponents. -/
theorem zpow_eq_div {b : ℚ} (hb : b ≠ 0) (e : ℤ) : b ^ e = b ^ e.toNat / b ^ (-e).toNat := by
  rw [← zpow_natCast, ← zpow_natCast, ← zpow_sub₀ hb, Int.toNat_sub_toNat_neg]

/-! ### Outside the range of floats -/

theorem settle_zero (sign : Sign) (e : ℤ) : settle sign 0 e = .zero sign := by
  have hzero : ExtendedMantissa.ofMantissaAndAccuracy 0 .exact = extended 0 := by
    exact_mod_cast (extended_natCast 0).symm
  have hmantissa : (shiftToTargetExponent binary64 0 e .exact).1.mantissa = 0 := by
    rw [shiftToTargetExponent, shiftToExponent, hzero]
    simp only [shiftRight_extended, zero_div]
    exact Nat.floor_zero
  rw [settle, dif_pos hmantissa]

theorem near_of_small {q : ℚ} (hq : 0 < q) (hsmall : q < 2 ^ (-1075 : ℤ)) : near q = 0 := by
  have hzero : (0 : Float) = .ofModel (.pack (.zero .positive)) := by decide +kernel
  have hlog : Int.log 2 q < -1075 := by
    rwa [← Int.lt_zpow_iff_log_lt one_lt_two hq, Nat.cast_ofNat]
  have hplace : lastPlace q = -1074 := by
    rw [lastPlace]
    omega
  -- the number is less than half of the smallest place
  have hhalf : 2 * (q / 2 ^ (-1074 : ℤ)) < 1 := by
    rw [← mul_div_assoc, div_lt_one (by positivity)]
    have hpow : (2 : ℚ) ^ (-1075 + 1 : ℤ) = 2 ^ (-1075 : ℤ) * 2 ^ (1 : ℤ) := zpow_add_two _ _
    norm_num only at hpow hsmall ⊢
    linarith
  have hextended : extended (q / 2 ^ (-1074 : ℤ)) = ⟨0, false, true⟩ := by
    have hfloor : ⌊2 * (q / 2 ^ (-1074 : ℤ))⌋₊ = 0 := Nat.floor_eq_zero.mpr hhalf
    have hwhole : ⌊q / 2 ^ (-1074 : ℤ)⌋₊ = 0 := Nat.floor_eq_zero.mpr (by linarith)
    rw [extended, hfloor, hwhole]
    simp [hq.ne']
  rw [near, if_neg hq.ne', nearest, hplace, hextended, hzero]
  exact congrArg (fun u => Float.ofModel (.pack u)) (settle_zero _ _)

theorem le_roundedMantissa (em : ExtendedMantissa) : em.mantissa ≤ em.roundedMantissa := by
  obtain ⟨m, round, sticky⟩ := em
  cases round <;> cases sticky
  · exact le_rfl
  · exact le_rfl
  · exact Nat.le_add_right m _
  · exact Nat.le_succ m

/-- A mantissa with too large an exponent is packed as an infinity. -/
theorem pack_settle_of_large {m : ℕ} {e : ℤ} (hm : 2 ^ 52 ≤ m) (he : 972 ≤ e) :
    UnpackedFloat.pack binary64 (settle .positive m e) = packedInfinity binary64 .positive := by
  have hpos : 0 < m := by omega
  have hlog : 52 ≤ m.log2 := (Nat.le_log2 hpos.ne').mpr hm
  have hexact : ExtendedMantissa.ofMantissaAndAccuracy m .exact = extended m :=
    (extended_natCast m).symm
  -- what is shifted out leaves a full mantissa
  obtain ⟨n, hn, hshift⟩ : ∃ n : ℕ, 2 ^ n ≤ m ∧ shiftToTargetExponent binary64 m e .exact =
      (extended ((m : ℚ) / 2 ^ n), e + n) := by
    refine ⟨m.log2 - 52, ?_, ?_⟩
    · exact (Nat.pow_le_pow_right two_pos (Nat.sub_le _ _)).trans (Nat.log2_self_le hpos.ne')
    · rw [shiftToTargetExponent, targetExponent_eq, shiftToExponent, hexact, shiftRight_extended]
      have hamount : (max ((m.log2 : ℤ) + e - 52) (-1074) - e).toNat = m.log2 - 52 := by omega
      rw [hamount]
  have hmantissa : (extended ((m : ℚ) / 2 ^ n)).mantissa ≠ 0 := by
    have hone : (1 : ℚ) ≤ m / 2 ^ n := by
      rw [one_le_div (by positivity)]
      exact_mod_cast hn
    exact (Nat.floor_pos.mpr hone).ne'
  have hbias : ((binary64.exponentBias : ℕ) : ℤ) = 1023 := rfl
  simp only [settle, hshift, dif_neg hmantissa, UnpackedFloat.pack, hbias]
  rw [if_pos (by simp only [Nat.cast_ofNat]; omega)]

theorem near_of_large {q : ℚ} (hlarge : 2 ^ (1024 : ℤ) ≤ q) : near q = 1 / 0 := by
  have hinfinity : (1 / 0 : Float) = .ofModel (.pack (.infinity .positive)) := by decide +kernel
  have hq : 0 < q := lt_of_lt_of_le (by positivity) hlarge
  have hlog : 1024 ≤ Int.log 2 q := by
    rwa [← Int.zpow_le_iff_le_log one_lt_two hq, Nat.cast_ofNat]
  have hplace : lastPlace q = Int.log 2 q - 52 := by
    rw [lastPlace]
    omega
  have hmantissa : 2 ^ 52 ≤ ⌊q / 2 ^ lastPlace q⌋₊ := by
    refine Nat.le_floor ?_
    rw [le_div_iff₀ (by positivity), hplace]
    calc ((2 ^ 52 : ℕ) : ℚ) * 2 ^ (Int.log 2 q - 52) = 2 ^ (52 + (Int.log 2 q - 52) : ℤ) := by
          rw [zpow_add_two]
          norm_num
      _ = 2 ^ Int.log 2 q := by rw [add_sub_cancel]
      _ ≤ q := by exact_mod_cast Int.zpow_log_le_self one_lt_two hq
  have hpack := pack_settle_of_large (hmantissa.trans (le_roundedMantissa (extended _)))
    (by omega : 972 ≤ lastPlace q)
  rw [near, if_neg hq.ne', nearest, hinfinity]
  refine float_ext ?_
  exact congrArg BitVec.toNat hpack

/-! ### Exact floats -/

/-- The float is the number, and has a full mantissa. -/
def Holds (x : Float) (q : ℚ) : Prop :=
  ∃ m e, ∃ h : Canonical m e, 2 ^ 52 ≤ m ∧
    x.toModel.unpack = .finite .positive m e h.pos ∧ (m * 2 ^ e : ℚ) = q

namespace Holds

variable {x y : Float} {q r : ℚ}

theorem mul (hx : Holds x q) (hy : Holds y r) : x * y = near (q * r) := by
  obtain ⟨m₁, e₁, h₁, hfull, hx, rfl⟩ := hx
  obtain ⟨m₂, e₂, h₂, -, hy, rfl⟩ := hy
  have hpos₁ : (0 : ℚ) < m₁ := by exact_mod_cast h₁.pos
  have hpos₂ : (0 : ℚ) < m₂ := by exact_mod_cast h₂.pos
  have hmul : x * y = .ofModel (.pack (UnpackedFloat.mul binary64 x.toModel.unpack
    y.toModel.unpack)) := rfl
  rw [hmul, hx, hy, mul_eq h₁.pos h₂.pos (hfull.trans (Nat.le_mul_of_pos_right _ h₂.pos)), near,
    if_neg (by positivity)]
  rfl

theorem div (hx : Holds x q) (hy : Holds y r) : x / y = near (q / r) := by
  obtain ⟨m₁, e₁, h₁, -, hx, rfl⟩ := hx
  obtain ⟨m₂, e₂, h₂, -, hy, rfl⟩ := hy
  have hpos₁ : (0 : ℚ) < m₁ := by exact_mod_cast h₁.pos
  have hpos₂ : (0 : ℚ) < m₂ := by exact_mod_cast h₂.pos
  have hdiv : x / y = .ofModel (.pack (UnpackedFloat.div binary64 x.toModel.unpack
    y.toModel.unpack)) := rfl
  rw [hdiv, hx, hy, div_eq h₁.pos h₂.pos, near, if_neg (by positivity)]
  rfl

end Holds

/-- Shifted to the left, a small number has a full mantissa. -/
theorem canonical_shiftLeft {n shift : ℕ} (hpos : 0 < n) (hshift : n.log2 + shift = 52) :
    2 ^ 52 ≤ n <<< shift ∧ Canonical (n <<< shift) (-(shift : ℤ)) := by
  have hlow : 2 ^ 52 ≤ n <<< shift := by
    rw [Nat.shiftLeft_eq, ← hshift, pow_add]
    exact Nat.mul_le_mul_right _ (Nat.log2_self_le hpos.ne')
  have hhigh : n <<< shift < 2 ^ 53 := by
    have hpow : 2 ^ 53 = 2 ^ (n.log2 + 1) * 2 ^ shift := by rw [← pow_add]; congr 1; omega
    rw [Nat.shiftLeft_eq, hpow]
    exact Nat.mul_lt_mul_of_pos_right Nat.lt_log2_self (by positivity)
  exact ⟨hlow, ⟨by omega, hhigh, by omega, by omega, .inl hlow⟩⟩

theorem round_natCast {n shift : ℕ} (hpos : 0 < n) (hshift : n.log2 + shift = 52)
    (h : Canonical (n <<< shift) (-(shift : ℤ))) :
    UnpackedFloat.round binary64 .positive n 0 =
      .finite .positive (n <<< shift) (-(shift : ℤ)) h.pos := by
  have hvalue := shiftLeft_mul_zpow n shift
  have hamount : (0 - max ((n.log2 : ℤ) + 0 - 52) (-1074)).toNat = shift := by omega
  have hdecrease : decreaseExponent n 0 (max ((n.log2 : ℤ) + 0 - 52) (-1074)) =
      (n <<< shift, -(shift : ℤ)) := by
    rw [decreaseExponent, hamount, zero_sub]
  have hexact : ExtendedMantissa.ofMantissaAndAccuracy (n <<< shift) .exact =
      extended (((n <<< shift : ℕ) * 2 ^ (-(shift : ℤ)) : ℚ) / 2 ^ (-(shift : ℤ))) := by
    rw [mul_div_cancel_right₀ _ (by positivity), extended_natCast]
    rfl
  rw [UnpackedFloat.round, targetExponent_eq, hdecrease]
  simp only
  rw [roundWithAccuracy_eq _ _ h.lastPlace_eq.ge hexact, h.nearest_eq]
  rw [hvalue]
  exact_mod_cast hpos

theorem holds_toFloat {n : ℕ} (hpos : 0 < n) (hlt : n < 2 ^ 53) : Holds n.toUInt64.toFloat n := by
  have hlog : n.log2 < 53 := (Nat.log2_lt hpos.ne').mpr hlt
  obtain ⟨shift, hshift⟩ : ∃ shift, n.log2 + shift = 52 := ⟨52 - n.log2, by omega⟩
  obtain ⟨hfull, hcanonical⟩ := canonical_shiftLeft hpos hshift
  have hnat : n.toUInt64.toNat = n := by
    simp only [Nat.toUInt64, UInt64.toNat_ofNat']
    omega
  have hfloat : n.toUInt64.toFloat.toModel =
      .pack (UnpackedFloat.normalize binary64 n.toUInt64.toNat 0 .positive) := rfl
  have hcompare : compare (n : ℤ) 0 = .gt := by
    rw [compare_gt_iff_gt]
    exact_mod_cast hpos
  refine ⟨_, _, hcanonical, hfull, ?_, shiftLeft_mul_zpow n shift⟩
  rw [hfloat, hnat, UnpackedFloat.normalize, hcompare]
  simp only [Int.toNat_natCast]
  rw [round_natCast hpos hshift hcanonical]
  exact hcanonical.unpack_pack false

/-- The powers of ten that are looked up are exact. -/
theorem exactPowers (e : Fin Float.exactlyRepresentablePowersOfTen.size) :
    let x := Float.exactlyRepresentablePowersOfTen[e]
    let d := Dyadic.ofFloat x
    x.isFinite ∧ d.negative = false ∧ 2 ^ 52 ≤ d.mantissa ∧
      d.mantissa * 2 ^ d.exponent.toNat = 10 ^ e.val * 2 ^ (-d.exponent).toNat := by
  revert e
  decide +kernel

theorem holds_power {e : ℕ} (hindex : e < Float.exactlyRepresentablePowersOfTen.size) :
    Holds Float.exactlyRepresentablePowersOfTen[e] (10 ^ e) := by
  obtain ⟨hfinite, hsign, hfull, hvalue⟩ := exactPowers ⟨e, hindex⟩
  simp only [Fin.getElem_fin] at hfinite hsign hfull hvalue
  generalize Float.exactlyRepresentablePowersOfTen[e] = x at *
  rcases exists_bits hfinite with ⟨negative, hzero⟩ | ⟨negative, m, e', hcanonical, hbits⟩
  -- a zero has no mantissa
  · rw [ofFloat_zero hzero] at hfull
    exact absurd hfull (by norm_num)
  · rw [hcanonical.ofFloat_eq hbits] at hsign hfull hvalue
    simp only at hsign hfull hvalue
    subst hsign
    refine ⟨m, e', hcanonical, hfull, hcanonical.unpack_eq false hbits, ?_⟩
    rw [zpow_eq_div two_ne_zero, mul_div_assoc', div_eq_iff (by positivity)]
    exact_mod_cast hvalue

/-! ### Decimal numbers -/

/-- Small numbers are computed with floats that are exact, others with
their digits. -/
theorem ofScientific_eq_near {m : ℕ} {e : ℤ} (hm : 0 < m) (hlow : -(2 ^ 11 + m.log2) ≤ e)
    (hhigh : e ≤ 2 ^ 11) : Float.ofScientific m (e < 0) e.natAbs = near (m * 10 ^ e) := by
  have hpow : (0 : ℚ) < 10 ^ e := by positivity
  rw [Float.ofScientific]
  split
  · next h =>
    -- the digits and the power of ten are floats, so just one operation rounds
    have hfloat := holds_toFloat hm h.1
    have hindex : e.natAbs < Float.exactlyRepresentablePowersOfTen.size := Nat.lt_succ_of_le h.2
    have hpower := holds_power hindex
    by_cases he : e < 0
    · have hexponent : (10 : ℚ) ^ e = (10 ^ e.natAbs)⁻¹ := by
        rw [← zpow_natCast, ← zpow_neg, Int.ofNat_natAbs_of_nonpos he.le, neg_neg]
      simp only [he, decide_true, if_true]
      rw [hfloat.div hpower, hexponent, div_eq_mul_inv]
    · have hexponent : (10 : ℚ) ^ e = 10 ^ e.natAbs := by
        rw [← zpow_natCast, Int.natAbs_of_nonneg (by omega)]
      simp only [he, decide_false, Bool.false_eq_true, if_false]
      rw [hfloat.mul hpower, hexponent]
  · have he : (if decide (e < 0) then Int.negOfNat e.natAbs else Int.ofNat e.natAbs) = e := by
      by_cases he : e < 0
      · simp only [he, decide_true, if_true, Int.negOfNat_eq, Int.ofNat_eq_natCast]
        omega
      · simp only [he, decide_false, Bool.false_eq_true, if_false, Int.ofNat_eq_natCast]
        omega
    simp only [he, Float.Model.ofScientific]
    rw [ofScientific_eq hm hlow hhigh, near, if_neg (by positivity)]

end Rounding

open Rounding

theorem two_pow_lt_ten_pow : (2 : ℚ) ^ (1075 : ℤ) < 10 ^ (400 : ℤ) := by
  have hpow : 2 ^ 1075 < 10 ^ 400 := by decide +kernel
  exact_mod_cast hpow

/-- The float of a decimal number is the one nearest to it. -/
theorem Decimal.toFloat_eq (d : Decimal) :
    d.toFloat = if d.negative then -near d.magnitude else near d.magnitude := by
  obtain ⟨negative, digits, exponent⟩ := d
  suffices h : (if digits = 0 ∨ exponent + digits.log2 < -400 then 0
      else if 400 < exponent then 1 / 0
      else Float.ofScientific digits (exponent < 0) exponent.natAbs) =
      near (digits * 10 ^ exponent) by
    simp only [Decimal.toFloat, Decimal.magnitude, h]
  rcases Nat.eq_zero_or_pos digits with rfl | hpos
  · simp [near]
  have hdigits : (0 : ℚ) < digits := by exact_mod_cast hpos
  by_cases hsmall : exponent + digits.log2 < -400
  · rw [if_pos (.inr hsmall), near_of_small (by positivity) ?_]
    -- the digits are less than a power of ten, and so is the number
    have hlt : (digits : ℚ) ≤ 10 ^ (digits.log2 + 1 : ℤ) := by
      have hten : digits ≤ 10 ^ (digits.log2 + 1) :=
        Nat.lt_log2_self.le.trans (Nat.pow_le_pow_left (by decide) _)
      exact_mod_cast hten
    calc (digits * 10 ^ exponent : ℚ) ≤ 10 ^ (digits.log2 + 1 : ℤ) * 10 ^ exponent :=
          mul_le_mul_of_nonneg_right hlt (by positivity)
      _ = 10 ^ (digits.log2 + 1 + exponent : ℤ) := (zpow_add₀ (by norm_num) _ _).symm
      _ ≤ 10 ^ (-400 : ℤ) := zpow_le_zpow_right₀ (by norm_num) (by omega)
      _ < 2 ^ (-1075 : ℤ) := by
        rw [zpow_neg, zpow_neg]
        exact inv_strictAnti₀ (by positivity) two_pow_lt_ten_pow
  rw [if_neg (by omega)]
  by_cases hlarge : 400 < exponent
  · rw [if_pos hlarge, near_of_large ?_]
    have hone : (1 : ℚ) ≤ digits := by exact_mod_cast hpos
    calc (2 ^ (1024 : ℤ) : ℚ) ≤ 2 ^ (1075 : ℤ) := zpow_le_zpow_right₀ (by norm_num) (by decide)
      _ ≤ 1 * 10 ^ (400 : ℤ) := (one_mul (10 ^ (400 : ℤ) : ℚ)).symm ▸ two_pow_lt_ten_pow.le
      _ ≤ digits * 10 ^ exponent :=
        mul_le_mul hone (zpow_le_zpow_right₀ (by norm_num) (by omega)) (by positivity)
          (by positivity)
  · rw [if_neg hlarge]
    exact ofScientific_eq_near hpos (by omega) (by omega)

theorem Decimal.Same.toFloat_eq {d d' : Decimal} (h : d.Same d') : d.toFloat = d'.toFloat := by
  rw [Decimal.toFloat_eq, Decimal.toFloat_eq, h.negative, h.magnitude]

/-! ### Floats and their decimal numbers -/

theorem Dyadic.magnitude_toDecimal (x : Dyadic) :
    x.toDecimal.magnitude = x.mantissa * 2 ^ x.exponent := by
  have hten : (10 : ℚ) ^ (if x.exponent < 0 then x.exponent else 0) =
      (2 ^ (-x.exponent).toNat * 5 ^ (-x.exponent).toNat)⁻¹ := by
    rw [← mul_pow, ← zpow_natCast, ← zpow_neg]
    congr 1
    · norm_num
    · split <;> omega
  simp only [Dyadic.toDecimal, Decimal.magnitude, Nat.pow_eq]
  rw [hten, zpow_eq_div two_ne_zero]
  push_cast
  field_simp

/-- The exact value of a finite float reads back as it. -/
theorem toFloat_exact {x : Float} (hx : x.isFinite = true) :
    (Dyadic.ofFloat x).toDecimal.toFloat = x := by
  rw [Decimal.toFloat_eq, Dyadic.magnitude_toDecimal]
  rcases exists_bits hx with ⟨negative, hzero⟩ | ⟨negative, m, e, hcanonical, hbits⟩
  · have hnear : near 0 = 0 := if_pos rfl
    rw [ofFloat_zero hzero, eq_zero hzero]
    simp only [Dyadic.toDecimal, Nat.cast_zero, zero_mul, hnear]
  · have hpos : (0 : ℚ) < m := by exact_mod_cast hcanonical.pos
    have hnear : near (m * 2 ^ e) = .ofModel (.pack (.finite .positive m e hcanonical.pos)) := by
      rw [near, if_neg (by positivity), hcanonical.nearest_eq]
    rw [hcanonical.ofFloat_eq hbits, hcanonical.eq_pack hbits]
    simp only [Dyadic.toDecimal, hnear]
    cases negative with
    | false => rfl
    | true =>
      have hunpack := hcanonical.unpack_pack false
      exact congrArg (fun u => Float.ofModel (.pack (UnpackedFloat.neg u))) hunpack

/-- The shortest decimal number of a finite float reads back as it. -/
theorem Decimal.toFloat_shortest {x : Float} (hx : x.isFinite = true) :
    (Decimal.shortest x).toFloat = x := by
  simp only [Decimal.shortest]
  generalize hfound : (List.range 17).findSome? _ = found
  cases found with
  | none => exact toFloat_exact hx
  | some d =>
    obtain ⟨_, -, hfind⟩ := List.exists_of_findSome?_eq_some hfound
    have hbits : d.toFloat.toBits = x.toBits := by simpa using List.find?_some hfind
    exact float_ext (congrArg UInt64.toNat hbits)

end LoxLang
