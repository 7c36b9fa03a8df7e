import LoxLang.Proofs.Lexical.Numerals
import LoxLang.Proofs.Number.Reading

/-!
# `LoxLang.Proofs.Number.Texts`: the positional numeral of a number

The text of a decimal number has no exponent, and no zero at the end of
a fraction. It denotes the number that it is the text of: what stands
behind the point is counted, and the zeros that are left out count for
nothing.

* `Decimal.Positional`: numerals without an exponent;
* `Decimal.Written`: numerals of the two forms in which floats are
  written elsewhere, and the numbers that they denote;
* `Decimal.exists_text`: the text of a number is a positional numeral
  of it, behind a sign;
* `Decimal.Same.text_eq`: the text does not depend on how many of the
  zeros of the number are among its digits.
-/

set_option autoImplicit false

namespace LoxLang

open Lexeme

namespace Decimal

/-! ### Digits -/

theorem natOfDigits_append (s t : List Char) :
    natOfDigits (s ++ t) = natOfDigits s * 10 ^ t.length + natOfDigits t := by
  rw [mul_comm]
  exact (Nat.ofDigitChars_append 0).trans Nat.ofDigitChars_eq_ofDigitChars_zero

theorem natOfDigits_zeros (n : ℕ) : natOfDigits (List.replicate n '0') = 0 :=
  Nat.ofDigitChars_replicate_zero

theorem natOfDigits_toDigits (n : ℕ) : natOfDigits (Nat.toDigits 10 n) = n :=
  Nat.ofDigitChars_ten_toDigits

theorem isDigits_toDigits (n : ℕ) : IsDigits (Nat.toDigits 10 n) :=
  ⟨Nat.toDigits_ne_nil, fun _ hc => Nat.isDigit_of_mem_toDigits (by decide) le_rfl hc⟩

theorem toDigits_mul_ten {n : ℕ} (hpos : 0 < n) :
    Nat.toDigits 10 (n * 10) = Nat.toDigits 10 n ++ ['0'] := by
  rw [Nat.toDigits_of_base_le (by decide) (by omega), Nat.mul_div_cancel n (by decide),
    Nat.mul_mod_left]
  rfl

theorem stripEnd_concat (c : Char) (s : List Char) : stripEnd c (s ++ [c]) = stripEnd c s := by
  simp [stripEnd]

/-- Any other character ends what is taken off. -/
theorem stripEnd_append_cons {c d : Char} (h : d ≠ c) (s t : List Char) :
    stripEnd c (s ++ d :: t) = s ++ d :: stripEnd c t := by
  rw [stripEnd, List.reverse_append, List.reverse_cons, List.append_assoc, List.dropWhile_append,
    List.singleton_append, List.dropWhile_cons_of_neg (by simpa using h)]
  split
  · next hnone => simp [stripEnd, List.isEmpty_iff.mp hnone]
  · simp [stripEnd]

theorem stripEnd_of_getLast? {c : Char} {s : List Char} (h : s.getLast? ≠ some c) :
    stripEnd c s = s := by
  rcases s.eq_nil_or_concat' with rfl | ⟨front, last, rfl⟩
  · rfl
  · have hlast : last ≠ c := by simpa using h
    exact stripEnd_append_cons hlast front []

/-- What is left out at the end are zeros, and all of them. -/
theorem exists_stripEnd (ds : List Char) :
    (∃ zeros, ds = stripEnd '0' ds ++ List.replicate zeros '0') ∧
      (stripEnd '0' ds).getLast? ≠ some '0' := by
  have hsplit := List.takeWhile_append_dropWhile (p := (· = '0')) (l := ds.reverse)
  have hzeros : ds.reverse.takeWhile (· = '0') =
      List.replicate (ds.reverse.takeWhile (· = '0')).length '0' :=
    List.eq_replicate_of_mem fun c hc => by
      simpa using List.all_eq_true.mp (List.all_takeWhile (p := (· = '0'))) c hc
  constructor
  · refine ⟨(ds.reverse.takeWhile (· = '0')).length, ?_⟩
    rw [← List.reverse_inj, List.reverse_append, List.reverse_replicate, ← hzeros,
      stripEnd, List.reverse_reverse]
    exact hsplit.symm
  · rw [stripEnd, List.getLast?_reverse]
    intro hhead
    simpa [hhead] using List.head?_dropWhile_not (· = '0') ds.reverse

/-! ### Numerals -/

/-- The sign of a numeral. -/
def signText (negative : Bool) : List Char :=
  if negative then ['-'] else []

/-- A numeral without an exponent: digits, or digits and a fraction that
does not end in a zero. -/
inductive Positional : List Char → Prop where
  | whole {ds : List Char} (h : IsDigits ds) : Positional ds
  | fraction {ds places : List Char} (h : IsDigits ds) (hplaces : IsDigits places)
      (hlast : places.getLast? ≠ some '0') : Positional (ds ++ '.' :: places)

/-- A numeral and the number that it denotes: digits on both sides of a
point, or a single digit, perhaps with a fraction, and a power of ten. -/
inductive Written : List Char → Decimal → Prop where
  | point (negative : Bool) {ds places : List Char} (h : IsDigits ds)
      (hplaces : IsDigits places) :
      Written (signText negative ++ (ds ++ '.' :: places))
        ⟨negative, natOfDigits (ds ++ places), -places.length⟩
  | exponent (negative below : Bool) {c : Char} {places ds : List Char} (hc : c.isDigit = true)
      (hplaces : ∀ d ∈ places, d.isDigit = true) (h : IsDigits ds) :
      Written (signText negative ++
          (c :: pointText places ++ 'e' :: (if below then '-' else '+') :: ds))
        ⟨negative, natOfDigits (c :: places),
          (if below then -(natOfDigits ds : ℤ) else natOfDigits ds) - places.length⟩

theorem ofText?_sign (negative : Bool) {c : Char} {s : List Char} (hc : c.isDigit = true) :
    ofText? (signText negative ++ c :: s) =
      (ofText? (c :: s)).map fun d => { d with negative } := by
  have hsplit : splitSign (signText negative ++ c :: s) = (negative, c :: s) := by
    cases negative with
    | false => exact splitSign_cons hc s
    | true => rfl
  rw [ofText?, ofText?, hsplit, splitSign_cons hc]
  simp only [apply_ite (Option.map _), Option.map_none, Option.map_map]
  rfl

theorem exponentOfText?_eq (below : Bool) {ds : List Char} (h : IsDigits ds) :
    exponentOfText? ('e' :: (if below then '-' else '+') :: ds) =
      some (if below then -(natOfDigits ds : ℤ) else natOfDigits ds) := by
  have hall : ds.all Char.isDigit = true := List.all_eq_true.mpr h.2
  cases below <;> simp [exponentOfText?, splitSign, h.1, hall]

/-- A numeral is read as the number that it denotes. -/
theorem Written.ofText?_eq {s : List Char} {d : Decimal} (h : Written s d) :
    ofText? s = some d := by
  cases h with
  | @point negative ds places h hplaces =>
    have hread := ofText?_fraction h hplaces
    obtain ⟨hne, hall⟩ := h
    cases ds with
    | nil => exact absurd rfl hne
    | cons c ds =>
      rw [List.cons_append] at hread ⊢
      rw [ofText?_sign negative (hall c (by simp)), hread]
      rfl
  | @exponent negative below c places ds hc hplaces h =>
    rw [List.cons_append, ofText?_sign negative hc]
    have hone : IsDigits [c] := ⟨List.cons_ne_nil c [], by simpa using hc⟩
    have hread := ofText?_mantissa hone hplaces
      ('e' :: (if below then '-' else '+') :: ds) (by rintro _ ⟨⟩; decide)
    rw [exponentOfText?_eq below h] at hread
    rw [List.singleton_append, List.singleton_append] at hread
    rw [hread]
    rfl

/-- Every decimal number can be written with an exponent. -/
theorem exists_written (d : Decimal) : ∃ repr, Written repr d := by
  obtain ⟨negative, n, e⟩ := d
  obtain ⟨hne, hall⟩ := isDigits_toDigits n
  obtain ⟨c, places, hdigits⟩ := List.exists_cons_of_ne_nil hne
  rw [hdigits] at hall
  have h := Written.exponent negative (decide (e + places.length < 0)) (hall c (by simp))
    (fun d hd => hall d (List.mem_cons_of_mem c hd)) (isDigits_toDigits (e + places.length).natAbs)
  rw [← hdigits, natOfDigits_toDigits, natOfDigits_toDigits] at h
  have hexponent : (if decide (e + places.length < 0) then -((e + places.length).natAbs : ℤ)
      else (e + places.length).natAbs) - places.length = e := by
    simp only [decide_eq_true_eq]
    split <;> omega
  rw [hexponent] at h
  exact ⟨_, h⟩

/-! ### Digits around a point -/

/-- The digits in front of the point. -/
def wholeDigits (n places : ℕ) : List Char :=
  (padded n places).take ((padded n places).length - places)

/-- The digits behind the point, with the zeros at their end. -/
def placeDigits (n places : ℕ) : List Char :=
  (padded n places).drop ((padded n places).length - places)

section Padded

variable (n places : ℕ)

theorem lt_length_padded : places < (padded n places).length := by
  rw [padded, List.length_append, List.length_replicate]
  omega

theorem isDigit_of_mem_padded {c : Char} (hc : c ∈ padded n places) : c.isDigit = true := by
  rw [padded, List.mem_append, List.mem_replicate] at hc
  rcases hc with ⟨-, rfl⟩ | hc
  · rfl
  · exact (isDigits_toDigits n).2 c hc

/-- The number has a digit in front of the point. -/
theorem isDigits_wholeDigits : IsDigits (wholeDigits n places) := by
  have hlt := lt_length_padded n places
  refine ⟨?_, fun c hc => isDigit_of_mem_padded n places (List.mem_of_mem_take hc)⟩
  rw [← List.length_pos_iff, wholeDigits, List.length_take]
  omega

theorem isDigit_of_mem_placeDigits {c : Char} (hc : c ∈ placeDigits n places) :
    c.isDigit = true :=
  isDigit_of_mem_padded n places (List.mem_of_mem_drop hc)

theorem length_placeDigits : (placeDigits n places).length = places := by
  have hlt := lt_length_padded n places
  rw [placeDigits, List.length_drop]
  omega

/-- The zeros in front of the digits count for nothing. -/
theorem natOfDigits_append_placeDigits :
    natOfDigits (wholeDigits n places ++ placeDigits n places) = n := by
  rw [wholeDigits, placeDigits, List.take_append_drop, padded, natOfDigits_append,
    natOfDigits_zeros, zero_mul, zero_add, natOfDigits_toDigits]

/-- The digits of a number with a point, without the zeros at the end of
the places behind it. -/
def pointed : List Char :=
  wholeDigits n places ++ pointText (stripEnd '0' (placeDigits n places))

/-- What is taken off the end of a numeral are the zeros of its places,
and then the point if no place is left. -/
theorem trimFraction_eq {sign : List Char} (hsign : '.' ∉ sign) :
    trimFraction (sign ++ wholeDigits n places ++
      if placeDigits n places = [] then [] else '.' :: placeDigits n places) =
        sign ++ pointed n places := by
  have hdigits : '.' ∉ wholeDigits n places := fun h =>
    absurd ((isDigits_wholeDigits n places).2 _ h) (by decide)
  have hfront : '.' ∉ sign ++ wholeDigits n places := by simp [hsign, hdigits]
  rw [pointed, ← List.append_assoc]
  split
  · next hnone =>
    rw [hnone, List.append_nil, trimFraction, if_neg hfront]
    exact (List.append_nil _).symm
  · rw [trimFraction, if_pos (by simp), stripEnd_append_cons (by decide)]
    have hplaces : ∀ c ∈ stripEnd '0' (placeDigits n places), c ≠ '.' := by
      obtain ⟨⟨zeros, hzeros⟩, -⟩ := exists_stripEnd (placeDigits n places)
      rintro _ hc rfl
      have hmem : '.' ∈ placeDigits n places := by
        rw [hzeros]
        exact List.mem_append_left _ hc
      exact absurd (isDigit_of_mem_placeDigits n places hmem) (by decide)
    generalize stripEnd '0' (placeDigits n places) = fraction at hplaces
    -- a point is last, and taken off, only if no place is left behind it
    have hlast (s : List Char) (hs : '.' ∉ s) : stripEnd '.' s = s :=
      stripEnd_of_getLast? fun h => hs (List.mem_of_getLast? h)
    cases fraction with
    | nil => rw [stripEnd_concat, hlast _ hfront, pointText, List.append_nil]
    | cons c fraction =>
      refine stripEnd_of_getLast? fun h => ?_
      rw [List.getLast?_append_of_ne_nil _ (List.cons_ne_nil _ _), List.getLast?_cons_cons] at h
      exact hplaces _ (List.mem_of_getLast? h) rfl

/-- The text of a number: its sign, and its digits with a point. -/
theorem text_eq (d : Decimal) :
    d.text = signText d.negative ++
      pointed (d.digits * Nat.pow 10 d.exponent.toNat) (-d.exponent).toNat :=
  trimFraction_eq _ _ (by cases d.negative <;> simp)

/-- Of the places behind the point, those are written that do not end in
a zero. The zeros that are left out make up the rest of the number. -/
theorem exists_fraction :
    ∃ fraction zeros, stripEnd '0' (placeDigits n places) = fraction ∧
      (∀ c ∈ fraction, c.isDigit = true) ∧ fraction.getLast? ≠ some '0' ∧
      fraction.length + zeros = places ∧
      natOfDigits (wholeDigits n places ++ fraction) * 10 ^ zeros = n := by
  obtain ⟨⟨zeros, hzeros⟩, hlast⟩ := exists_stripEnd (placeDigits n places)
  refine ⟨_, zeros, rfl, fun c hc => ?_, hlast, ?_, ?_⟩
  · refine isDigit_of_mem_placeDigits n places ?_
    rw [hzeros]
    exact List.mem_append_left _ hc
  · have hlength := congrArg List.length hzeros
    rw [length_placeDigits, List.length_append, List.length_replicate] at hlength
    exact hlength.symm
  · have hvalue := natOfDigits_append_placeDigits n places
    rw [hzeros, ← List.append_assoc, natOfDigits_append, natOfDigits_zeros, List.length_replicate,
      add_zero] at hvalue
    exact hvalue

theorem padded_mul_ten : padded (n * 10) (places + 1) = padded n places ++ ['0'] := by
  rw [padded, padded]
  rcases Nat.eq_zero_or_pos n with rfl | hpos
  · simp [List.replicate_succ']
  · rw [toDigits_mul_ten hpos, List.length_append, List.length_singleton, Nat.add_sub_add_right,
      List.append_assoc]

/-- A zero behind the digits and one more place make no difference. -/
theorem pointed_mul_ten : pointed (n * 10) (places + 1) = pointed n places := by
  have hwhole : wholeDigits (n * 10) (places + 1) = wholeDigits n places := by
    rw [wholeDigits, padded_mul_ten, List.length_append, List.length_singleton,
      Nat.add_sub_add_right, List.take_append_of_le_length (Nat.sub_le _ _), wholeDigits]
  have hplaces : placeDigits (n * 10) (places + 1) = placeDigits n places ++ ['0'] := by
    rw [placeDigits, padded_mul_ten, List.length_append, List.length_singleton,
      Nat.add_sub_add_right, List.drop_append_of_le_length (Nat.sub_le _ _), placeDigits]
  rw [pointed, pointed, hwhole, hplaces, stripEnd_concat]

end Padded

/-! ### The text of a number -/

section Numerals

variable {ds fraction : List Char}

theorem positional_append_pointText (h : IsDigits ds)
    (hfraction : ∀ c ∈ fraction, c.isDigit = true) (hlast : fraction.getLast? ≠ some '0') :
    Positional (ds ++ pointText fraction) := by
  cases fraction with
  | nil =>
    rw [pointText, List.append_nil]
    exact .whole h
  | cons p places => exact .fraction h ⟨List.cons_ne_nil _ _, hfraction⟩ hlast

theorem denotes_append_pointText (h : IsDigits ds)
    (hfraction : ∀ c ∈ fraction, c.isDigit = true) :
    Denotes .number (.number (toFloat ⟨false, natOfDigits (ds ++ fraction), -fraction.length⟩))
      (ds ++ pointText fraction) := by
  cases fraction with
  | nil =>
    rw [pointText, List.append_nil]
    exact .whole h
  | cons p places => exact .fraction h ⟨List.cons_ne_nil _ _, hfraction⟩

end Numerals

/-- The text of a number is a sign and a positional numeral. That is a
literal, and denotes the magnitude of the number. -/
theorem exists_text (d : Decimal) :
    ∃ c s u, d.text = signText d.negative ++ c :: s ∧ c.isDigit = true ∧ Positional (c :: s) ∧
      Denotes .number (.number u.toFloat) (c :: s) ∧ ofText? (c :: s) = some u ∧
      u.negative = false ∧ u.magnitude = d.magnitude := by
  generalize hn : d.digits * Nat.pow 10 d.exponent.toNat = n
  generalize hplaces : (-d.exponent).toNat = places
  obtain ⟨fraction, zeros, hwritten, hfraction, hlast, hlength, hvalue⟩ :=
    exists_fraction n places
  have hds := isDigits_wholeDigits n places
  have htext : d.text = signText d.negative ++ (wholeDigits n places ++ pointText fraction) := by
    rw [text_eq, hn, hplaces, pointed, hwritten]
  generalize wholeDigits n places = ds at hds hvalue htext
  -- the places that the exponent asks for are the fraction and the zeros left out
  have hmagnitude : magnitude ⟨false, natOfDigits (ds ++ fraction), -fraction.length⟩ =
      d.magnitude := by
    have hdigits : (natOfDigits (ds ++ fraction) * 10 ^ zeros : ℚ) =
        d.digits * 10 ^ d.exponent.toNat := by exact_mod_cast hvalue.trans hn.symm
    rw [magnitude, magnitude, Rounding.zpow_eq_div (by norm_num) d.exponent, ← mul_div_assoc,
      ← hdigits, hplaces, ← hlength, pow_add, mul_div_mul_right _ _ (by positivity), zpow_neg,
      zpow_natCast, div_eq_mul_inv]
  have hpositional := positional_append_pointText hds hfraction hlast
  have hdenotes := denotes_append_pointText hds hfraction
  have hread := ofText?_append_pointText hds hfraction
  obtain ⟨c, s, rfl⟩ := List.exists_cons_of_ne_nil hds.1
  exact ⟨c, s ++ pointText fraction, _, htext, hds.2 c List.mem_cons_self, hpositional, hdenotes,
    hread, rfl, hmagnitude⟩

/-! ### One text for each number -/

theorem text_mul_ten (negative : Bool) (n : ℕ) (e : ℤ) :
    text ⟨negative, n * 10, e - 1⟩ = text ⟨negative, n, e⟩ := by
  simp only [text_eq, Nat.pow_eq]
  by_cases he : 0 < e
  · -- the zero is one of those that the exponent stands for
    have hexponent : e.toNat = (e - 1).toNat + 1 := by omega
    have hplaces : (-(e - 1)).toNat = (-e).toNat := by omega
    rw [hplaces, hexponent, pow_succ', mul_assoc]
  · have hexponent : e.toNat = 0 ∧ (e - 1).toNat = 0 := by omega
    have hplaces : (-(e - 1)).toNat = (-e).toNat + 1 := by omega
    rw [hplaces, hexponent.1, hexponent.2, pow_zero, mul_one, mul_one, pointed_mul_ten]

theorem text_mul_pow (negative : Bool) (n k : ℕ) (e : ℤ) :
    text ⟨negative, n * 10 ^ k, e - k⟩ = text ⟨negative, n, e⟩ := by
  induction k with
  | zero => simp
  | succ k ih =>
    have hexponent : e - (k + 1 : ℕ) = e - k - 1 := by omega
    rw [pow_succ, ← mul_assoc, hexponent, text_mul_ten, ih]

theorem exists_mul_pow {n n' : ℕ} {e e' : ℤ} (h : (n * 10 ^ e : ℚ) = n' * 10 ^ e') (hle : e' ≤ e) :
    ∃ k : ℕ, n' = n * 10 ^ k ∧ e' = e - k := by
  obtain ⟨k, hk⟩ := Int.le.dest hle
  refine ⟨k, ?_, by omega⟩
  rw [← hk, zpow_add₀ (by norm_num), zpow_natCast, mul_left_comm, mul_comm] at h
  have hpow : (10 ^ e' : ℚ) ≠ 0 := by positivity
  exact_mod_cast (mul_right_cancel₀ hpow h).symm

/-- The text depends on nothing but the number that it is the text of. -/
theorem Same.text_eq {d d' : Decimal} (h : d.Same d') : d.text = d'.text := by
  obtain ⟨negative, n, e⟩ := d
  obtain ⟨negative', n', e'⟩ := d'
  obtain rfl : negative = negative' := h.negative
  have hvalue : (n * 10 ^ e : ℚ) = n' * 10 ^ e' := h.magnitude
  rcases le_total e' e with hle | hle
  · obtain ⟨k, rfl, rfl⟩ := exists_mul_pow hvalue hle
    exact (text_mul_pow _ n k e).symm
  · obtain ⟨k, rfl, rfl⟩ := exists_mul_pow hvalue.symm hle
    exact text_mul_pow _ n' k e'

end Decimal

end LoxLang
