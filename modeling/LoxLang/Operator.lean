import LoxLang.Fault

/-!
# `LoxLang.Operator`: what operators do to values

The meaning of the unary and binary operators, on values that have
already been evaluated. Numbers are binary floats: a division by zero
gives an infinity or NaN, and comparisons with NaN fail, `!=` apart.
-/

set_option autoImplicit false

namespace LoxLang.Operator

/-! ### Operands -/

/-- The number that an operator's only operand has to be. -/
def number (operator : Token) : Value → Except Fault Float
  | .number x => .ok x
  | v => .error (.operand operator v.kind)

/-- The numbers that an operator's two operands have to be. -/
def numbers (operator : Token) : Value → Value → Except Fault (Float × Float)
  | .number x, .number y => .ok (x, y)
  | v, w => .error (.operands operator v.kind w.kind)

/-! ### Operations on numbers -/

/-- The arithmetic operations. -/
def arithmetic? : Token.Kind → Option (Float → Float → Float)
  | .plus => some (· + ·)
  | .minus => some (· - ·)
  | .star => some (· * ·)
  | .slash => some (· / ·)
  | .percent => some Dyadic.remainder
  | _ => none

/-- The comparisons. -/
def comparison? : Token.Kind → Option (Float → Float → Bool)
  | .greater => some fun x y => decide (y < x)
  | .greaterEqual => some fun x y => decide (y ≤ x)
  | .less => some fun x y => decide (x < y)
  | .lessEqual => some fun x y => decide (x ≤ y)
  | .equalEqual => some (· == ·)
  | .bangEqual => some (· != ·)
  | _ => none

/-! ### Application -/

/-- Applies a unary operator. The exclamation mark gives false for every
operand; the others need a number, which the minus sign negates. -/
def applyUnary (operator : Token) (operand : Value) : Except Fault Value :=
  if operator.kind = .bang then .ok (.bool false)
  else do
    let x ← number operator operand
    return .number (if operator.kind = .minus then -x else x)

/-- Applies an operator to two numbers. -/
def applyNumeric (operator : Token) (left right : Value) : Except Fault Value := do
  let (x, y) ← numbers operator left right
  match arithmetic? operator.kind, comparison? operator.kind with
  | some f, _ => return .number (f x y)
  | none, some f => return .bool (f x y)
  | none, none => throw (.unknownOperator operator)

/-- Applies a binary operator. The plus sign also joins two strings. -/
def applyBinary (operator : Token) (left right : Value) : Except Fault Value :=
  if operator.kind = .plus then
    match left, right with
    | .string s, .string t => .ok (.string (s ++ t))
    | .number _, .number _ => applyNumeric operator left right
    | v, w => .error (.addends operator v.kind w.kind)
  else applyNumeric operator left right

end LoxLang.Operator
