import LoxLang.Number.Decimal

/-!
# `LoxLang.Number.Dyadic`: the exact value of a binary float

A finite float is a whole number of units `2 ^ exponent`. On that
exact value this module defines

* `Dyadic.toDecimal`: the decimal number that equals it;
* `Dyadic.remainder`: the truncated remainder of two floats, computed
  on whole numbers and so without rounding;
* `Decimal.shortest`: the decimal number with the fewest digits that
  reads back as the float, and among those the nearest to it. Of two
  equally near ones the even one is taken.
-/

set_option autoImplicit false

namespace LoxLang

/-- The number `mantissa * 2 ^ exponent`, negated if `negative`. -/
structure Dyadic where
  negative : Bool
  mantissa : Nat
  exponent : Int
deriving DecidableEq, Repr

namespace Dyadic

/-- The exact value of a float, which has to be finite: a NaN or an
infinity is read as if it were a number. -/
def ofFloat (x : Float) : Dyadic :=
  let bits : Nat := x.toBits.toNat
  let biased : Nat := bits / Nat.pow 2 52 % Nat.pow 2 11
  let fraction : Nat := bits % Nat.pow 2 52
  { negative := bits / Nat.pow 2 63 = 1
    mantissa := if biased = 0 then fraction else Nat.pow 2 52 + fraction
    exponent := if biased = 0 then -1074 else Int.ofNat biased - 1075 }

/-- The decimal number of the same value: `2 ^ -p = 5 ^ p * 10 ^ -p`. -/
def toDecimal (x : Dyadic) : Decimal where
  negative := x.negative
  digits := x.mantissa * Nat.pow 2 x.exponent.toNat * Nat.pow 5 (-x.exponent).toNat
  exponent := if x.exponent < 0 then x.exponent else 0

/-- The remainder of `x` divided by `y` toward zero, for `y ≠ 0`: both
are whole numbers of the smaller of their units, and the sign is that
of `x`. -/
def rem (x y : Dyadic) : Dyadic :=
  let unit := min x.exponent y.exponent
  let units (z : Dyadic) := z.mantissa * Nat.pow 2 (z.exponent - unit).toNat
  { negative := x.negative, mantissa := units x % units y, exponent := unit }

/-- The truncated remainder of two floats, with the sign of the left
one. It is NaN where there is none: for NaN operands, an infinite left
one, or a zero right one. -/
def remainder (x y : Float) : Float :=
  if x.isNaN || y.isNaN || x.isInf || y == 0 then 0.0 / 0.0
  else if y.isInf then x
  else (rem (ofFloat x) (ofFloat y)).toDecimal.toFloat

end Dyadic

namespace Decimal

/-- The two neighbours of a decimal number, given with `width` digits,
on the grid of those with `n` digits, the nearer one first. -/
def neighbours (d : Decimal) (width n : Nat) : List Decimal :=
  let unit := Nat.pow 10 (width - n)
  let below := d.digits / unit
  let left := 2 * (d.digits % unit)
  let onGrid (digits : Nat) : Decimal :=
    { d with digits, exponent := d.exponent + (width - n : Nat) }
  if left < unit ∨ left = unit ∧ below % 2 = 0 then [onGrid below, onGrid (below + 1)]
  else [onGrid (below + 1), onGrid below]

/-- The shortest decimal number that reads back as a finite float, and
the nearest of those. Seventeen digits suffice; beyond them stands the
exact value. -/
def shortest (x : Float) : Decimal :=
  let exact := (Dyadic.ofFloat x).toDecimal
  let width := (Nat.toDigits 10 exact.digits).length
  let found := (List.range 17).findSome? fun i =>
    (exact.neighbours width (i + 1)).find? fun d => d.toFloat.toBits == x.toBits
  found.getD exact

end Decimal

end LoxLang
