import LoxLang.Error

/-!
# `LoxLang.Fault`: why a statement stops

A `Fault` is the cause for which the evaluation of an expression or
the execution of a statement stops, with the token it stopped at.
`Fault.error` is the error to report. It is internal where the fault
is not the program's own: a tree that no source text has, or a loop
that is cut off.
-/

set_option autoImplicit false

namespace LoxLang

/-- Why the evaluation of an expression or the execution of a statement
stops. -/
inductive Fault where
  /-- A variable is read that no scope has. -/
  | undefined (name : Token)
  /-- A variable is assigned that no scope has. -/
  | unassignable (name : Token)
  /-- The operand is no number. -/
  | operand (operator : Token) (kind : Value.Kind)
  /-- The operands are not both numbers. -/
  | operands (operator : Token) (left right : Value.Kind)
  /-- The operands are neither two numbers nor two strings. -/
  | addends (operator : Token) (left right : Value.Kind)
  /-- The value to print is nil. -/
  | printsNil (keyword : Token)
  /-- Something that is no expression stands where one is needed. -/
  | notExpression (what : String)
  /-- Something that is no statement stands where one is needed. -/
  | notStatement (what : String)
  /-- The operator has no meaning for two numbers. -/
  | unknownOperator (operator : Token)
  /-- A loop has not ended within the number of rounds it was given. -/
  | outOfRounds

namespace Fault

/-- The error at a token, the lexeme of which fills the slot. -/
def atToken (template : String) (token : Token) : Error.Draft :=
  .execution template none (some token)

/-- The draft of the error to report for a fault. -/
def draft : Fault → Error.Draft
  | .undefined name => atToken "undefined variable '\x7b\x7d'" name
  | .unassignable name => atToken "cannot assign to undefined variable '\x7b\x7d'" name
  | .operand operator kind =>
    atToken ("operand of '\x7b\x7d' must be a number, got " ++ kind.name) operator
  | .operands operator left right =>
    atToken ("operands of '\x7b\x7d' must be numbers, got " ++ left.name ++ " and " ++ right.name)
      operator
  | .addends operator left right =>
    atToken ("operands of '\x7b\x7d' must be two numbers or two strings, got " ++ left.name ++
      " and " ++ right.name) operator
  | .printsNil keyword =>
    atToken "cannot print nil, expected a string, number or bool" keyword
  | .notExpression what => .fromWithin "'\x7b\x7d' is not an evaluable expression" [what]
  | .notStatement what => .fromWithin "'\x7b\x7d' is not an executable statement" [what]
  | .unknownOperator operator =>
    .fromWithin "'\x7b\x7d' is not an operator of two numbers" [operator.lexeme]
  | .outOfRounds => .fromWithin "a loop has used up its rounds" [""]

/-- The error to report for a fault. -/
def error (fault : Fault) : Error :=
  fault.draft.error

end Fault

end LoxLang
