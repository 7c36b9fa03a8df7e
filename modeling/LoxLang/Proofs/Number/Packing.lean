import LoxLang.Number.Dyadic
import LoxLang.Proofs.Number.Rounding

/-!
# `LoxLang.Proofs.Number.Packing`: the bits of a float

A float that is no zero has one mantissa and one exponent
(`Canonical`), and its bits are a number made of these and its sign
(`bits`). So what is packed is unpacked again (`Canonical.unpack_pack`),
the parts of a float's bits are what its exact value is made of
(`Canonical.ofFloat_eq`), and rounding a number that is a float does
nothing (`Canonical.nearest_eq`).
-/

set_option autoImplicit false

namespace LoxLang.Rounding

open Float.Model Float.Model.UnpackedFloat Float.Model.Format

/-! ### Mantissas and exponents of floats -/

/-- The mantissa and the exponent of a float. The first bit of the
mantissa is set unless the exponent is the smallest. -/
structure Canonical (m : ℕ) (e : ℤ) : Prop where
  pos : 0 < m
  lt : m < 2 ^ 53
  least : -1074 ≤ e
  le : e ≤ 971
  full : 2 ^ 52 ≤ m ∨ e = -1074

namespace Canonical

variable {m : ℕ} {e : ℤ}

theorem target (h : Canonical m e) : max (m.log2 + e - 52) (-1074) = e := by
  have hlog : m.log2 < 53 := (Nat.log2_lt h.pos.ne').mpr h.lt
  have hleast := h.least
  rcases h.full with hfull | rfl
  · have := (Nat.le_log2 h.pos.ne').mpr hfull
    omega
  · omega

theorem lastPlace_eq (h : Canonical m e) : lastPlace (m * 2 ^ e) = e := by
  have hpow : (0 : ℚ) < 2 ^ e := by positivity
  rw [lastPlace, log_eq h.pos le_rfl (by linarith), h.target]

theorem settle_eq (h : Canonical m e) (sign : Sign) :
    settle sign m e = .finite sign m e h.pos := by
  have hshift : shiftToTargetExponent binary64 m e .exact =
      (ExtendedMantissa.ofMantissaAndAccuracy m .exact, e) := by
    rw [shiftToTargetExponent, targetExponent_eq, h.target, shiftToExponent, sub_self,
      Int.toNat_zero, Nat.cast_zero, add_zero]
    rfl
  simp only [settle, hshift, ExtendedMantissa.ofMantissaAndAccuracy, h.pos.ne', dite_false]

/-- A number that is a float is the float nearest to it. -/
theorem nearest_eq (h : Canonical m e) (sign : Sign) :
    nearest sign (m * 2 ^ e) = .finite sign m e h.pos := by
  have hpow : (2 ^ e : ℚ) ≠ 0 := by positivity
  rw [nearest, h.lastPlace_eq, mul_div_cancel_right₀ _ hpow, extended_natCast]
  exact h.settle_eq sign

end Canonical

/-! ### Fields -/

section Fields

variable (b : BitVec 64)

theorem toNat_unpackMantissa :
    (@unpackMantissa binary64 b).toNat = b.toNat % 2 ^ 52 := by
  simp [unpackMantissa, BitVec.extractLsb_toNat]

/-- A full mantissa has a first bit that is no field. -/
theorem toNat_fullMantissa :
    (1#1 ++ @unpackMantissa binary64 b).toNat = 2 ^ 52 + (@unpackMantissa binary64 b).toNat := by
  rw [BitVec.toNat_append, ← Nat.shiftLeft_add_eq_or_of_lt (BitVec.isLt _), Nat.shiftLeft_eq]
  rfl

theorem toNat_unpackExponent :
    (@unpackExponent binary64 b).toNat = b.toNat / 2 ^ 52 % 2 ^ 11 := by
  simp [unpackExponent, BitVec.extractLsb_toNat, Nat.shiftRight_eq_div_pow]

theorem toNat_unpackSign : (@unpackSign binary64 b).toNat = b.toNat / 2 ^ 63 := by
  have := b.isLt
  simp [unpackSign, BitVec.extractLsb_toNat, Nat.shiftRight_eq_div_pow]
  omega

end Fields

/-! ### Finite floats -/

/-- The sign of a number, given whether it is negative. -/
def signOf (negative : Bool) : Sign :=
  if negative then .negative else .positive

theorem toNat_signOf (negative : Bool) : (signOf negative).toBitVec.toNat = negative.toNat := by
  cases negative <;> rfl

theorem ofBitVec_eq {b : BitVec 1} {negative : Bool} (h : b.toNat = negative.toNat) :
    Sign.ofBitVec b = signOf negative := by
  obtain rfl : b = (signOf negative).toBitVec :=
    BitVec.eq_of_toNat_eq (h.trans (toNat_signOf _).symm)
  exact Sign.ofBitVec_toBitVec _

/-- The bits of a float. The first bit of a full mantissa is left out. -/
def bits (negative : Bool) (m : ℕ) (e : ℤ) : ℕ :=
  negative.toNat * 2 ^ 63 +
    if 2 ^ 52 ≤ m then (e + 1075).toNat * 2 ^ 52 + (m - 2 ^ 52) else m

namespace Canonical

variable {m : ℕ} {e : ℤ} (h : Canonical m e) (negative : Bool)

include h

/-- The bits have the parts that make up the exact value. -/
theorem fields :
    bits negative m e / 2 ^ 63 = negative.toNat ∧
      bits negative m e / 2 ^ 52 % 2 ^ 11 = (if 2 ^ 52 ≤ m then (e + 1075).toNat else 0) ∧
      bits negative m e % 2 ^ 52 = if 2 ^ 52 ≤ m then m - 2 ^ 52 else m := by
  have hlt := h.lt
  have hleast := h.least
  have hle := h.le
  have hsign := negative.toNat_lt
  rw [bits]
  split <;> omega

theorem exponent_ne {b : BitVec 64} (hb : b.toNat = bits negative m e) :
    @unpackExponent binary64 b ≠ -1#11 := by
  have hexponent := (h.fields negative).2.1
  have hones : (-1#11).toNat = 2047 := rfl
  have hle := h.le
  rw [← hb, ← toNat_unpackExponent] at hexponent
  intro heq
  rw [heq, hones] at hexponent
  split at hexponent <;> omega

theorem unpack_eq {b : BitVec 64} (hb : b.toNat = bits negative m e) :
    UnpackedFloat.unpack binary64 b = .finite (signOf negative) m e h.pos := by
  obtain ⟨hsign, hexponent, hmantissa⟩ := h.fields negative
  rw [← hb, ← toNat_unpackSign] at hsign
  rw [← hb, ← toNat_unpackExponent] at hexponent
  rw [← hb, ← toNat_unpackMantissa] at hmantissa
  have hlt := h.lt
  have hleast := h.least
  have hpos := h.pos
  have hbias : ((binary64.exponentBias : ℕ) : ℤ) = 1023 := rfl
  rw [UnpackedFloat.unpack, if_neg (h.exponent_ne negative hb), ofBitVec_eq hsign, hbias]
  by_cases hfull : 2 ^ 52 ≤ m
  · rw [if_pos hfull] at hexponent hmantissa
    have hnormal : @unpackExponent binary64 b ≠ 0#11 := by
      intro heq
      rw [heq, BitVec.toNat_zero] at hexponent
      omega
    -- the first bit of a full mantissa is put back
    have hone : (1#1 ++ @unpackMantissa binary64 b).toNat = m := by
      rw [toNat_fullMantissa, hmantissa]
      omega
    simp only [if_neg hnormal, hone, hexponent, UnpackedFloat.finite.injEq, true_and]
    simp only [Nat.cast_ofNat]
    omega
  · rw [if_neg hfull] at hexponent hmantissa
    have hsubnormal : @unpackExponent binary64 b = 0#11 :=
      BitVec.eq_of_toNat_eq hexponent
    have hnonzero : @unpackMantissa binary64 b ≠ 0#52 := by
      intro heq
      rw [heq, BitVec.toNat_zero] at hmantissa
      omega
    -- a mantissa that is not full goes with the least exponent
    have hexponent : e = -1074 := h.full.resolve_left hfull
    simp only [hsubnormal, if_true, dif_neg hnonzero, hmantissa, UnpackedFloat.finite.injEq,
      true_and]
    rw [hexponent]
    rfl

/-- The parts of a float are packed into its bits. -/
theorem toNat_pack :
    (UnpackedFloat.pack binary64 (.finite (signOf negative) m e h.pos)).toNat =
      bits negative m e := by
  have hlt : bits negative m e < 2 ^ 64 := by
    obtain ⟨hsign, -, -⟩ := h.fields negative
    have := negative.toNat_le
    omega
  obtain ⟨b, hb⟩ : ∃ b : BitVec 64, b.toNat = bits negative m e :=
    ⟨BitVec.ofNatLT _ hlt, BitVec.toNat_ofNatLT _ _⟩
  have hnumber : ¬ @isNaNBits binary64 b = true := fun hbits =>
    h.exponent_ne negative hb (of_decide_eq_true hbits).1
  rw [← h.unpack_eq negative hb, @pack_unpack binary64 b (by decide), if_neg hnumber, hb]

/-- What is packed is unpacked again. -/
theorem unpack_pack :
    (Float.Model.pack (.finite (signOf negative) m e h.pos)).unpack =
      .finite (signOf negative) m e h.pos :=
  h.unpack_eq negative (h.toNat_pack negative)

end Canonical

/-! ### Floats -/

theorem float_ext {x y : Float} (h : x.toBits.toNat = y.toBits.toNat) : x = y :=
  Float.toBits_inj.mp (UInt64.toNat_inj.mp h)

/-- An exponent field of ones is that of an infinity or of no number. -/
theorem exponent_ne_of_isFinite {x : Float} (hx : x.isFinite = true) :
    x.toBits.toNat / 2 ^ 52 % 2 ^ 11 ≠ 2 ^ 11 - 1 := by
  intro heq
  have hones : @unpackExponent binary64 x.toBits.toBitVec = -1#11 :=
    BitVec.eq_of_toNat_eq ((toNat_unpackExponent _).trans heq)
  rw [Float.isFinite, Float.Model.isFinite, Float.Model.unpack, UnpackedFloat.unpack] at hx
  rw [Float.toBits] at hones
  rw [if_pos hones] at hx
  split at hx <;> cases hx

/-- A finite float is a zero, or it has a mantissa and an exponent. -/
theorem exists_bits {x : Float} (hx : x.isFinite = true) :
    (∃ negative : Bool, x.toBits.toNat = negative.toNat * 2 ^ 63) ∨
      ∃ negative m e, Canonical m e ∧ x.toBits.toNat = bits negative m e := by
  have hexponent := exponent_ne_of_isFinite hx
  have hlt := x.toBits.toNat_lt
  obtain ⟨negative, hsign⟩ : ∃ negative : Bool, negative.toNat = x.toBits.toNat / 2 ^ 63 := by
    have : x.toBits.toNat / 2 ^ 63 = 0 ∨ x.toBits.toNat / 2 ^ 63 = 1 := by omega
    rcases this with h | h
    · exact ⟨false, h.symm⟩
    · exact ⟨true, h.symm⟩
  generalize x.toBits.toNat = n at *
  by_cases hsubnormal : n / 2 ^ 52 % 2 ^ 11 = 0
  · by_cases hzero : n % 2 ^ 52 = 0
    · exact .inl ⟨negative, by omega⟩
    · refine .inr
        ⟨negative, n % 2 ^ 52, -1074, ⟨by omega, by omega, by omega, by omega, .inr rfl⟩, ?_⟩
      rw [bits, if_neg (by omega)]
      omega
  · refine .inr ⟨negative, 2 ^ 52 + n % 2 ^ 52, (n / 2 ^ 52 % 2 ^ 11 : ℕ) - 1075,
      ⟨by omega, by omega, by omega, by omega, .inl (by omega)⟩, ?_⟩
    rw [bits, if_pos (by omega)]
    omega

theorem ofFloat_zero {x : Float} {negative : Bool}
    (hx : x.toBits.toNat = negative.toNat * 2 ^ 63) : Dyadic.ofFloat x = ⟨negative, 0, -1074⟩ := by
  rw [Dyadic.ofFloat, hx]
  cases negative <;> rfl

/-- There are two zeros. -/
theorem eq_zero {x : Float} {negative : Bool} (hx : x.toBits.toNat = negative.toNat * 2 ^ 63) :
    x = if negative then -0 else 0 := by
  refine float_ext ?_
  rw [hx]
  cases negative <;> decide +kernel

namespace Canonical

variable {m : ℕ} {e : ℤ} {negative : Bool} {x : Float}

theorem ofFloat_eq (h : Canonical m e) (hx : x.toBits.toNat = bits negative m e) :
    Dyadic.ofFloat x = ⟨negative, m, e⟩ := by
  obtain ⟨hsign, hexponent, hmantissa⟩ := h.fields negative
  have hleast := h.least
  rw [← hx] at hsign hexponent hmantissa
  have hnegative : decide (negative.toNat = 1) = negative := by cases negative <;> rfl
  rw [Dyadic.ofFloat]
  simp only [Nat.pow_eq, hsign, hexponent, hmantissa, hnegative, Dyadic.mk.injEq, true_and]
  split
  · next hfull =>
    rw [if_neg (by omega), if_neg (by omega)]
    exact ⟨by omega, by simp only [Int.ofNat_eq_natCast]; omega⟩
  · next hfull => exact ⟨rfl, (h.full.resolve_left hfull).symm⟩

/-- A float is packed from its parts. -/
theorem eq_pack (h : Canonical m e) (hx : x.toBits.toNat = bits negative m e) :
    x = .ofModel (.pack (.finite (signOf negative) m e h.pos)) :=
  float_ext (hx.trans (h.toNat_pack negative).symm)

end Canonical

end LoxLang.Rounding
