import LoxLang.Number.Dyadic

/-!
# `LoxLang.Value`: what a Lox program computes with

A value is a number, a string, a bool or nil. Literals in the source
and values at run time are of this one type. The module defines

* `Value.text`: the text that `print` shows. Numbers show the fewest
  digits that identify them, positionally;
* `Value.isTruthy`: bools are themselves, nil is false, and numbers
  and strings are true;
* `Value.same`: values of different kinds are never equal.
-/

set_option autoImplicit false

namespace LoxLang

/-- A value. -/
inductive Value where
  | number (x : Float)
  | string (s : String)
  | bool (b : Bool)
  | nil
deriving Inhabited

/-- The kinds of value. -/
inductive Value.Kind where
  | number
  | string
  | bool
  | nil
deriving DecidableEq, Repr

/-- The name of a kind in messages. -/
def Value.Kind.name : Value.Kind → String
  | .number => "number"
  | .string => "string"
  | .bool => "bool"
  | .nil => "nil"

namespace Value

/-- The kind of a value. -/
def kind : Value → Kind
  | .number _ => .number
  | .string _ => .string
  | .bool _ => .bool
  | .nil => .nil

/-- Whether a condition with this value holds. -/
def isTruthy : Value → Bool
  | .bool b => b
  | .nil => false
  | _ => true

/-- The text of a number. -/
def numberText (x : Float) : List Char :=
  if x.isNaN then "NaN".toList
  else if x.isInf then (if x < 0 then "-inf" else "inf").toList
  else (Decimal.shortest x).text

/-- The text of a value. -/
def text : Value → String
  | .number x => String.ofList (numberText x)
  | .string s => s
  | .bool b => if b then "true" else "false"
  | .nil => "nil"

/-- Equality of values. Numbers are compared as numbers, so that zero
equals its negation. -/
def same : Value → Value → Bool
  | .number x, .number y => x == y
  | .string s, .string t => s == t
  | .bool a, .bool b => a == b
  | .nil, .nil => true
  | _, _ => false

end Value

end LoxLang
