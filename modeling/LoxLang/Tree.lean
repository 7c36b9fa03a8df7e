import LoxLang.Token

/-!
# `LoxLang.Tree`: expressions and statements

The abstract syntax of Lox. A `for` statement has no form of its own:
it stands for a block with a `while` statement. `alien` stands for a
thing where an expression or a statement should be, and is known by a
name only; no source text has such a tree, but one built by hand can.
-/

set_option autoImplicit false

namespace LoxLang

/-- An expression. -/
inductive Expr where
  | literal (value : Value)
  | grouping (inner : Expr)
  | unary (operator : Token) (operand : Expr)
  | binary (left : Expr) (operator : Token) (right : Expr)
  /-- As `binary`, but the right operand is evaluated only if needed. -/
  | logical (left : Expr) (operator : Token) (right : Expr)
  | variable (name : Token)
  | assign (name : Token) (value : Expr)
  | alien (what : String)
deriving Inhabited

/-- A statement. -/
inductive Stmt where
  | expression (e : Expr)
  | print (keyword : Token) (e : Expr)
  | var (name : Token) (initial : Expr)
  | block (body : List Stmt)
  | ifThen (condition : Expr) (consequent : Stmt)
  | ifElse (condition : Expr) (consequent alternative : Stmt)
  | while (condition : Expr) (body : Stmt)
  | alien (what : String)
deriving Inhabited

end LoxLang
