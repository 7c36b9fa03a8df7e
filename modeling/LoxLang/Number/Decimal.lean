/-!
# `LoxLang.Number.Decimal`: decimal numbers and their texts

A `Decimal` denotes `digits * 10 ^ exponent`, with a sign that zero
carries too. This module holds

* `Decimal.toFloat`: the nearest binary float;
* `Decimal.ofText?`: the number that a numeral denotes. A numeral is
  an optional sign, digits with an optional point among or beside
  them, and an optional exponent;
* `Decimal.text`: the positional numeral, never with an exponent, and
  with no zero at the end of its fraction;
* `Decimal.textOf?`: that of a number which is written in some way.
-/

set_option autoImplicit false

namespace LoxLang

/-- The number `digits * 10 ^ exponent`, negated if `negative`. -/
structure Decimal where
  negative : Bool
  digits : Nat
  exponent : Int
deriving DecidableEq, Repr

namespace Decimal

/-- The binary float nearest to a decimal number. The digits are less
than `10 ^ (log2 digits + 1)`, so that a number far outside the range of
floats is seen from its exponent. -/
def toFloat (d : Decimal) : Float :=
  let magnitude :=
    if d.digits = 0 ∨ d.exponent + d.digits.log2 < -400 then 0
    else if 400 < d.exponent then 1 / 0
    else Float.ofScientific d.digits (d.exponent < 0) d.exponent.natAbs
  if d.negative then -magnitude else magnitude

/-! ### Reading -/

/-- The number that a run of decimal digits denotes. -/
def natOfDigits (ds : List Char) : Nat :=
  ds.foldl (fun n c => 10 * n + (c.toNat - '0'.toNat)) 0

/-- Takes an optional sign off a text: whether it was a minus, and
what follows. -/
def splitSign : List Char → Bool × List Char
  | '-' :: s => (true, s)
  | '+' :: s => (false, s)
  | s => (false, s)

/-- The exponent at the end of a numeral: nothing, or the letter e, an
optional sign and digits. -/
def exponentOfText? : List Char → Option Int
  | [] => some 0
  | c :: s =>
    let (negative, ds) := splitSign s
    if (c = 'e' ∨ c = 'E') ∧ ds ≠ [] ∧ ds.all Char.isDigit then
      some (if negative then -(natOfDigits ds : Int) else natOfDigits ds)
    else none

/-- The number that a numeral denotes, or nothing if the text is no
numeral. -/
def ofText? (s : List Char) : Option Decimal :=
  let (negative, s) := splitSign s
  let whole := s.takeWhile Char.isDigit
  let (fraction, s) := match s.dropWhile Char.isDigit with
    | '.' :: s => (s.takeWhile Char.isDigit, s.dropWhile Char.isDigit)
    | s => ([], s)
  if whole = [] ∧ fraction = [] then none
  else (exponentOfText? s).map fun e =>
    { negative, digits := natOfDigits (whole ++ fraction), exponent := e - fraction.length }

/-! ### Writing -/

/-- The digits of a number, with zeros in front of them if they are no
more than the places behind the point. -/
def padded (n places : Nat) : List Char :=
  List.replicate (places + 1 - (Nat.toDigits 10 n).length) '0' ++ Nat.toDigits 10 n

/-- The positional numeral of a decimal number, with all of its places
behind the point. There is no point if it has none. -/
def fixed (d : Decimal) : List Char :=
  let places := (-d.exponent).toNat
  let ds := padded (d.digits * Nat.pow 10 d.exponent.toNat) places
  let fraction := ds.drop (ds.length - places)
  (if d.negative then ['-'] else []) ++ ds.take (ds.length - places) ++
    if fraction = [] then [] else '.' :: fraction

/-- A text without what it has of a character at its end. -/
def stripEnd (c : Char) (s : List Char) : List Char :=
  (s.reverse.dropWhile (· = c)).reverse

/-- A numeral without the zeros at the end of its fraction, and without
a point that nothing follows. -/
def trimFraction (s : List Char) : List Char :=
  if '.' ∈ s then stripEnd '.' (stripEnd '0' s) else s

/-- The positional numeral of a decimal number, with as few places as it
takes. -/
def text (d : Decimal) : List Char :=
  trimFraction d.fixed

/-- The positional numeral of the number that another numeral denotes. -/
def textOf? (numeral : List Char) : Option (List Char) :=
  (ofText? numeral).map text

end Decimal

end LoxLang
