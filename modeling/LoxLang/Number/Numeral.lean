import LoxLang.Number.Decimal
import LoxLang.Text.Basic
import LoxLang.Text.Digit

/-!
# `LoxLang.Number.Numeral`: the written forms of a number

A number can be written in more ways than the numerals of Lox source:

* with spaces around it;
* in the digits of any script;
* with single underscores between its digits;
* as a name for infinity, with a sign, or for what is no number. Small
  and capital letters are the same in a name.

`Numeral.ofText?` reads all of these, and `Numeral.toFloat` gives the
nearest float.
-/

set_option autoImplicit false

namespace LoxLang

/-- What a numeral denotes. -/
inductive Numeral where
  | finite (d : Decimal)
  | infinite (negative : Bool)
  | notNumber
deriving DecidableEq, Repr

namespace Numeral

/-- The float of a numeral. -/
def toFloat : Numeral → Float
  | .finite d => d.toFloat
  | .infinite negative => if negative then -(1 / 0) else 1 / 0
  | .notNumber => 0 / 0

/-- A text without the underscores that have a digit on either side,
given the character before the text. -/
def dropUnderscores (before : Option Char) : List Char → List Char
  | [] => []
  | c :: s =>
    if c = '_' && before.any Char.isDigit && s.head?.any Char.isDigit then
      dropUnderscores (some c) s
    else c :: dropUnderscores (some c) s

/-- The numeral that is a name. -/
def ofName? (s : List Char) : Option Numeral :=
  let (negative, name) := Decimal.splitSign s
  let name := String.ofList (name.map Char.toLower)
  if name = "inf" ∨ name = "infinity" then some (.infinite negative)
  else if name = "nan" then some .notNumber
  else none

/-- The numeral that a text is, if any. -/
def ofText? (s : List Char) : Option Numeral :=
  let plain := dropUnderscores none ((Text.trim Text.isSpace s).map Text.plainDigit)
  match ofName? plain with
  | some n => some n
  | none => (Decimal.ofText? plain).map .finite

end Numeral

end LoxLang
