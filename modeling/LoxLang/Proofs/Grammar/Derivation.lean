import LoxLang.Tree

/-!
# `LoxLang.Proofs.Grammar.Derivation`: the grammar of Lox

The grammar says which token lists are programs, and which statements
a token list denotes under a derivation. It does not look at the
reader: its operators and levels are written out here.

```text
program    ::= statement*
statement  ::= "print" expression ";" | var | "{" statement* "}" | exprStmt
             | "if" "(" expression ")" statement ( "else" statement )?
             | "while" "(" expression ")" statement
             | "for" "(" ( var | exprStmt | ";" ) expression? ";" expression? ")" statement
var        ::= "var" IDENTIFIER "=" expression ";"
exprStmt   ::= expression ";"
expression ::= IDENTIFIER "=" expression | or
or         ::= and ( "or" and )*
and        ::= equality ( "and" equality )*
equality   ::= comparison ( ( "==" | "!=" ) comparison )*
comparison ::= term ( ( ">" | ">=" | "<" | "<=" ) term )*
term       ::= factor ( ( "+" | "-" ) factor )*
factor     ::= unary ( ( "*" | "/" | "%" ) unary )*
unary      ::= ( "-" | "!" ) unary | primary
primary    ::= NUMBER | STRING | "true" | "false" | "nil" | "(" expression ")" | IDENTIFIER
```

* `Expr.Derives`: what tokens denote as an expression of a level;
* `Stmt.Derives`: what they denote as a statement, and whether an
  `else` behind them could still be taken by an `if` among them;
* `ElseRule`: with `any`, the grammar as it stands, in which an `else`
  may belong to one of several `if`s; with `nearest`, the derivations
  that give it to the nearest one which can take it.
-/

set_option autoImplicit false

namespace LoxLang

/-! ### Expressions -/

/-- The levels of expressions, the loosest first. -/
inductive Expr.Level where
  | expression
  | or
  | and
  | equality
  | comparison
  | term
  | factor
  | unary
  | primary
deriving DecidableEq, Repr

/-- The levels that are chains: the operators of the chain, the level of
its operands, and the node that an operator makes of two of them. -/
inductive Expr.Level.Chain :
    Level → List Token.Kind → Level → (Expr → Token → Expr → Expr) → Prop where
  | or : Chain .or [.or] .and .logical
  | and : Chain .and [.and] .equality .logical
  | equality : Chain .equality [.equalEqual, .bangEqual] .comparison .binary
  | comparison :
      Chain .comparison [.greater, .greaterEqual, .less, .lessEqual] .term .binary
  | term : Chain .term [.plus, .minus] .factor .binary
  | factor : Chain .factor [.star, .slash, .percent] .unary .binary

/-- Tokens, as an expression of a level, denote a tree. Chains nest to
the left and assignments to the right. -/
inductive Expr.Derives : Level → List Token → Expr → Prop where
  -- the loosest level: the target of an assignment is a name and nothing else
  | assign {name equals : Token} {ts : List Token} {e : Expr}
      (hname : name.kind = .identifier) (hequals : equals.kind = .equal)
      (h : Derives .expression ts e) :
      Derives .expression (name :: equals :: ts) (.assign name e)
  | expression {ts : List Token} {e : Expr} (h : Derives .or ts e) :
      Derives .expression ts e
  -- chains: one operand, or a chain with another operand behind it
  | operand {level inner : Level} {operators : List Token.Kind}
      {node : Expr → Token → Expr → Expr} {ts : List Token} {e : Expr}
      (hlevel : level.Chain operators inner node) (h : Derives inner ts e) :
      Derives level ts e
  | chain {level inner : Level} {operators : List Token.Kind}
      {node : Expr → Token → Expr → Expr} {ts us : List Token} {operator : Token}
      {left right : Expr} (hlevel : level.Chain operators inner node)
      (hleft : Derives level ts left) (hoperator : operator.kind ∈ operators)
      (hright : Derives inner us right) :
      Derives level (ts ++ operator :: us) (node left operator right)
  -- operators in front of their operand
  | prefixed {operator : Token} {ts : List Token} {e : Expr}
      (hoperator : operator.kind = .minus ∨ operator.kind = .bang)
      (h : Derives .unary ts e) :
      Derives .unary (operator :: ts) (.unary operator e)
  | unary {ts : List Token} {e : Expr} (h : Derives .primary ts e) : Derives .unary ts e
  -- what needs no operator
  | payload {t : Token} (h : t.kind = .number ∨ t.kind = .string) :
      Derives .primary [t] (.literal t.payload)
  | true {t : Token} (h : t.kind = .true) : Derives .primary [t] (.literal (.bool true))
  | false {t : Token} (h : t.kind = .false) : Derives .primary [t] (.literal (.bool false))
  | nil {t : Token} (h : t.kind = .nil) : Derives .primary [t] (.literal .nil)
  | grouping {opening closing : Token} {ts : List Token} {e : Expr}
      (hopening : opening.kind = .leftParen) (h : Derives .expression ts e)
      (hclosing : closing.kind = .rightParen) :
      Derives .primary (opening :: (ts ++ [closing])) (.grouping e)
  | variable {name : Token} (h : name.kind = .identifier) :
      Derives .primary [name] (.variable name)

/-- An expression that may be left out. -/
inductive Expr.DerivesOptional : List Token → Option Expr → Prop where
  | absent : DerivesOptional [] none
  | present {ts : List Token} {e : Expr} (h : Expr.Derives .expression ts e) :
      DerivesOptional ts (some e)

/-- A keyword with an expression in parentheses behind it. -/
inductive Expr.DerivesHeader (kind : Token.Kind) : List Token → Expr → Prop where
  | intro {keyword opening closing : Token} {ts : List Token} {e : Expr}
      (hkeyword : keyword.kind = kind) (hopening : opening.kind = .leftParen)
      (h : Expr.Derives .expression ts e) (hclosing : closing.kind = .rightParen) :
      DerivesHeader kind (keyword :: opening :: (ts ++ [closing])) e

/-! ### Statements -/

/-- A variable declaration. -/
inductive Stmt.DerivesVar : List Token → Stmt → Prop where
  | intro {keyword name equals semicolon : Token} {ts : List Token} {e : Expr}
      (hkeyword : keyword.kind = .var) (hname : name.kind = .identifier)
      (hequals : equals.kind = .equal) (h : Expr.Derives .expression ts e)
      (hsemicolon : semicolon.kind = .semicolon) :
      DerivesVar (keyword :: name :: equals :: (ts ++ [semicolon])) (.var name e)

/-- An expression statement. -/
inductive Stmt.DerivesExpression : List Token → Stmt → Prop where
  | intro {ts : List Token} {e : Expr} {semicolon : Token}
      (h : Expr.Derives .expression ts e) (hsemicolon : semicolon.kind = .semicolon) :
      DerivesExpression (ts ++ [semicolon]) (.expression e)

/-- The first clause of a `for` statement, with its semicolon. -/
inductive Stmt.DerivesInitial : List Token → Option Stmt → Prop where
  | var {ts : List Token} {s : Stmt} (h : Stmt.DerivesVar ts s) : DerivesInitial ts (some s)
  | expression {ts : List Token} {s : Stmt} (h : Stmt.DerivesExpression ts s) :
      DerivesInitial ts (some s)
  | absent {semicolon : Token} (h : semicolon.kind = .semicolon) :
      DerivesInitial [semicolon] none

/-- The keyword and the clauses of a `for` statement, in parentheses. -/
inductive Stmt.DerivesClauses :
    List Token → Option Stmt → Option Expr → Option Expr → Prop where
  | intro {keyword opening semicolon closing : Token} {ts us vs : List Token}
      {initial : Option Stmt} {condition increment : Option Expr}
      (hkeyword : keyword.kind = .for) (hopening : opening.kind = .leftParen)
      (hinitial : Stmt.DerivesInitial ts initial)
      (hcondition : Expr.DerivesOptional us condition)
      (hsemicolon : semicolon.kind = .semicolon)
      (hincrement : Expr.DerivesOptional vs increment)
      (hclosing : closing.kind = .rightParen) :
      DerivesClauses (keyword :: opening :: (ts ++ us ++ semicolon :: (vs ++ [closing])))
        initial condition increment

/-- Which `if` an `else` may belong to. -/
inductive ElseRule where
  /-- Any in front of it that has none yet. -/
  | any
  /-- The nearest of those. -/
  | nearest
deriving DecidableEq, Repr

/-- Whether an `else` may stand behind the statement that it is the
alternative to, given whether an `if` in that statement could take
it. -/
def ElseRule.Allows : ElseRule → Bool → Prop
  | .any, _ => True
  | .nearest, canTake => canTake = false

mutual

/-- Tokens denote a statement. The flag says whether an `else` behind
them could be taken by an `if` among them, the last part of which they
end with. -/
inductive Stmt.Derives (rule : ElseRule) : Bool → List Token → Stmt → Prop where
  | print {keyword semicolon : Token} {ts : List Token} {e : Expr}
      (hkeyword : keyword.kind = .print) (h : Expr.Derives .expression ts e)
      (hsemicolon : semicolon.kind = .semicolon) :
      Derives rule false (keyword :: (ts ++ [semicolon])) (.print keyword e)
  | var {ts : List Token} {s : Stmt} (h : Stmt.DerivesVar ts s) : Derives rule false ts s
  | expression {ts : List Token} {s : Stmt} (h : Stmt.DerivesExpression ts s) :
      Derives rule false ts s
  | block {opening closing : Token} {ts : List Token} {body : List Stmt}
      (hopening : opening.kind = .leftBrace) (h : Stmt.DerivesAll rule ts body)
      (hclosing : closing.kind = .rightBrace) :
      Derives rule false (opening :: (ts ++ [closing])) (.block body)
  | ifThen {ts us : List Token} {condition : Expr} {canTake : Bool} {consequent : Stmt}
      (hheader : Expr.DerivesHeader .if ts condition)
      (hconsequent : Derives rule canTake us consequent) :
      Derives rule true (ts ++ us) (.ifThen condition consequent)
  | ifElse {ts us vs : List Token} {condition : Expr} {canTake canTake' : Bool}
      {keyword : Token} {consequent alternative : Stmt}
      (hheader : Expr.DerivesHeader .if ts condition)
      (hconsequent : Derives rule canTake us consequent)
      (hallowed : rule.Allows canTake) (hkeyword : keyword.kind = .else)
      (halternative : Derives rule canTake' vs alternative) :
      Derives rule canTake' (ts ++ us ++ keyword :: vs)
        (.ifElse condition consequent alternative)
  | while {ts us : List Token} {condition : Expr} {canTake : Bool} {body : Stmt}
      (hheader : Expr.DerivesHeader .while ts condition)
      (hbody : Derives rule canTake us body) :
      Derives rule canTake (ts ++ us) (.while condition body)
  | for {ts us : List Token} {initial : Option Stmt} {condition increment : Option Expr}
      {canTake : Bool} {body : Stmt}
      (hclauses : Stmt.DerivesClauses ts initial condition increment)
      (hbody : Derives rule canTake us body) :
      -- a loop in a scope of its own, with the first clause in front of it and the last
      -- one at the end of each round
      Derives rule canTake (ts ++ us)
        (.block (initial.toList ++
          [.while (condition.getD (.literal (.bool true)))
            (.block (body :: (increment.map .expression).toList))]))

/-- Tokens denote statements in order: a program, or what stands between
the braces of a block. -/
inductive Stmt.DerivesAll (rule : ElseRule) : List Token → List Stmt → Prop where
  | nil : DerivesAll rule [] []
  | cons {canTake : Bool} {ts us : List Token} {s : Stmt} {ss : List Stmt}
      (h : Stmt.Derives rule canTake ts s) (hrest : DerivesAll rule us ss) :
      DerivesAll rule (ts ++ us) (s :: ss)

end

end LoxLang
