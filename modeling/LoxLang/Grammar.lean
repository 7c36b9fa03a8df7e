import LoxLang.Error
import LoxLang.Tree

/-!
# `LoxLang.Grammar`: from tokens to statements

A reader of a construct takes the tokens ahead, without the one of the
end, and answers with what it read and the tokens behind it, or with a
`Failure`. There is no backtracking and one token of lookahead, and a
reader that answers has taken at least one token; that is part of its
type, and every recursion ends by it.

* `Expr.read`: an expression, the lowest level of which is assignment;
* `Expr.readTier`: a chain of operators of one tier, nested to the
  left;
* `Stmt.read`: a statement, where a `for` statement becomes the block
  that it stands for;
* `program`: the statements of a token list up to its first end.
-/

set_option autoImplicit false

namespace LoxLang

/-! ### Results of reading -/

/-- Something read from the front of a list of tokens, and the tokens
behind it, of which there are fewer than `n`. -/
structure Parsed (α : Type) (n : Nat) where
  value : α
  rest : List Token
  shorter : rest.length < n

namespace Parsed

variable {α β : Type} {m n : Nat}

/-- The same reading, seen from further ahead. -/
def widen (p : Parsed α m) (h : m ≤ n) : Parsed α n :=
  { p with shorter := Nat.lt_of_lt_of_le p.shorter h }

/-- The same tokens taken for something else. -/
def map (f : α → β) (p : Parsed α n) : Parsed β n :=
  { p with value := f p.value }

end Parsed

/-- Why reading stops, with the tokens that are then ahead. -/
inductive Failure where
  /-- The next token is not what the grammar asks for. -/
  | missing (expected : String) (rest : List Token)
  /-- What stands in front of an equals sign is no name. The value behind
  the sign has been read by then. -/
  | target (equals : Token) (rest : List Token)

/-- What a reader gives for a list of `n` tokens. -/
abbrev Reading (α : Type) (n : Nat) := Except Failure (Parsed α n)

/-- The next token, if it is of one of the given kinds. -/
def next? (kinds : List Token.Kind) : (ts : List Token) → Option (Parsed Token ts.length)
  | [] => none
  | t :: rest => if t.kind ∈ kinds then some ⟨t, rest, by simp⟩ else none

/-- Takes the next token, which has to be of the given kind. -/
def expect (kind : Token.Kind) (expected : String) (ts : List Token) :
    Reading Token ts.length :=
  match next? [kind] ts with
  | some t => .ok t
  | none => .error (.missing expected ts)

/-! ### Operators -/

/-- The tiers of left-associative operators, the loosest first. -/
inductive Tier where
  | or
  | and
  | equality
  | comparison
  | term
  | factor
deriving DecidableEq, Repr

namespace Tier

/-- The operators of a tier. -/
def operators : Tier → List Token.Kind
  | .or => [.or]
  | .and => [.and]
  | .equality => [.equalEqual, .bangEqual]
  | .comparison => [.greater, .greaterEqual, .less, .lessEqual]
  | .term => [.plus, .minus]
  | .factor => [.star, .slash, .percent]

/-- The tier of the operands, or nothing where they are unary. -/
def tighter? : Tier → Option Tier
  | .or => some .and
  | .and => some .equality
  | .equality => some .comparison
  | .comparison => some .term
  | .term => some .factor
  | .factor => none

/-- The number of tiers from this one on. -/
def height : Tier → Nat
  | .or => 6
  | .and => 5
  | .equality => 4
  | .comparison => 3
  | .term => 2
  | .factor => 1

/-- The expression of an operator of a tier with its operands. -/
def join (tier : Tier) (left : Expr) (operator : Token) (right : Expr) : Expr :=
  match tier with
  | .or | .and => .logical left operator right
  | _ => .binary left operator right

@[simp] theorem height_or : Tier.or.height = 6 := rfl

theorem height_pos (tier : Tier) : 0 < tier.height := by
  cases tier <;> decide

theorem height_le (tier : Tier) : tier.height ≤ 6 := by
  cases tier <;> decide

theorem height_of_tighter? {tier inner : Tier} (h : tier.tighter? = some inner) :
    tier.height = inner.height + 1 := by
  cases tier <;> cases h <;> rfl

end Tier

/-- The operators in front of an operand. -/
def unaryOperators : List Token.Kind := [.minus, .bang]

/-! ### Expressions -/

mutual

/-- Reads an expression: an assignment, which nests to the right, or a
chain of operators. -/
def Expr.read (ts : List Token) : Reading Expr ts.length := do
  let left ← Expr.readTier .or ts
  match next? [.equal] left.rest with
  | none => return left
  | some equals =>
    have := left.shorter
    have := equals.shorter
    let right ← Expr.read equals.rest
    match left.value with
    | .variable name => return (right.map (.assign name)).widen (by omega)
    | _ => throw (.target equals.value right.rest)
termination_by 16 * ts.length + 15

/-- Reads a chain of the operators of a tier. -/
def Expr.readTier (tier : Tier) (ts : List Token) : Reading Expr ts.length := do
  let first ← Expr.readOperand tier ts
  have := first.shorter
  let whole ← Expr.readChain tier first.value first.rest
  return whole.widen (by omega)
termination_by 16 * ts.length + 2 * tier.height + 1

/-- Reads an operand of a tier's operators. -/
def Expr.readOperand (tier : Tier) (ts : List Token) : Reading Expr ts.length :=
  match h : tier.tighter? with
  | some inner =>
    have := Tier.height_of_tighter? h
    Expr.readTier inner ts
  | none =>
    have := tier.height_pos
    Expr.readUnary ts
termination_by 16 * ts.length + 2 * tier.height

/-- Reads the operators of a tier and their right operands as long as
there are any, behind the operand on the left. -/
def Expr.readChain (tier : Tier) (left : Expr) (ts : List Token) :
    Reading Expr (ts.length + 1) :=
  match next? tier.operators ts with
  | none => .ok ⟨left, ts, by omega⟩
  | some operator => do
    have := operator.shorter
    have := tier.height_le
    let right ← Expr.readOperand tier operator.rest
    have := right.shorter
    let whole ← Expr.readChain tier (tier.join left operator.value right.value) right.rest
    return whole.widen (by omega)
termination_by 16 * ts.length + 14

/-- Reads an operand with the operators in front of it. -/
def Expr.readUnary (ts : List Token) : Reading Expr ts.length :=
  match next? unaryOperators ts with
  | some operator => do
    have := operator.shorter
    let operand ← Expr.readUnary operator.rest
    return (operand.map (.unary operator.value)).widen (by omega)
  | none => Expr.readPrimary ts
termination_by 16 * ts.length + 1

/-- Reads a literal, a name or an expression in parentheses. -/
def Expr.readPrimary (ts : List Token) : Reading Expr ts.length :=
  match ts with
  | [] => .error (.missing "expression" [])
  | t :: rest =>
    have here (e : Expr) : Parsed Expr (rest.length + 1) := ⟨e, rest, by omega⟩
    match t.kind with
    | .true => .ok (here (.literal (.bool true)))
    | .false => .ok (here (.literal (.bool false)))
    | .nil => .ok (here (.literal .nil))
    | .number | .string => .ok (here (.literal t.payload))
    | .identifier => .ok (here (.variable t))
    | .leftParen => do
      let inner ← Expr.read rest
      have := inner.shorter
      let close ← expect .rightParen "')' after expression" inner.rest
      have := close.shorter
      return ⟨.grouping inner.value, close.rest, by simp only [List.length_cons]; omega⟩
    | _ => .error (.missing "expression" (t :: rest))
termination_by 16 * ts.length

end

/-! ### Statements -/

/-- The block that a `for` statement stands for: its initializer, and a
loop around its body and its increment. Without a condition it goes on
for ever. -/
def Stmt.forLoop (initial : Option Stmt) (condition : Option Expr) (increment : Option Expr)
    (body : Stmt) : Stmt :=
  let round := .block (body :: (increment.map Stmt.expression).toList)
  .block (initial.toList ++ [.while (condition.getD (.literal (.bool true))) round])

/-- Reads the rest of a `print` statement behind its keyword. -/
def Stmt.readPrint (keyword : Token) (ts : List Token) : Reading Stmt ts.length := do
  let e ← Expr.read ts
  have := e.shorter
  let close ← expect .semicolon "';' after value" e.rest
  return (close.map fun _ => .print keyword e.value).widen (by omega)

/-- Reads the rest of a variable declaration behind its keyword. -/
def Stmt.readVar (ts : List Token) : Reading Stmt ts.length := do
  let name ← expect .identifier "variable name after 'var'" ts
  have := name.shorter
  let equals ← expect .equal "'=' after variable name" name.rest
  have := equals.shorter
  let e ← Expr.read equals.rest
  have := e.shorter
  let close ← expect .semicolon "';' after variable declaration" e.rest
  return (close.map fun _ => .var name.value e.value).widen (by omega)

/-- Reads an expression statement. -/
def Stmt.readExpression (ts : List Token) : Reading Stmt ts.length := do
  let e ← Expr.read ts
  have := e.shorter
  let close ← expect .semicolon "';' after expression" e.rest
  return (close.map fun _ => .expression e.value).widen (by omega)

/-- Reads an expression in parentheses. The two texts say what is
expected where one of them is missing. -/
def Expr.readCondition (before after : String) (ts : List Token) : Reading Expr ts.length := do
  let opening ← expect .leftParen before ts
  have := opening.shorter
  let e ← Expr.read opening.rest
  have := e.shorter
  let closing ← expect .rightParen after e.rest
  return (closing.map fun _ => e.value).widen (by omega)

/-- Reads an expression, unless the next token is of the given kind. -/
def Expr.readUnless (kind : Token.Kind) (ts : List Token) :
    Reading (Option Expr) (ts.length + 1) :=
  match next? [kind] ts with
  | some _ => .ok ⟨none, ts, by omega⟩
  | none => do
    let e ← Expr.read ts
    return (e.map some).widen (by omega)

/-- The clauses of a `for` statement. -/
structure ForClauses where
  initial : Option Stmt
  condition : Option Expr
  increment : Option Expr

/-- Reads the initializer of a `for` statement with its semicolon. -/
def Stmt.readInitial (ts : List Token) : Reading (Option Stmt) ts.length :=
  match next? [.semicolon] ts, next? [.var] ts with
  | some semicolon, _ => .ok (semicolon.map fun _ => none)
  | none, some keyword => do
    have := keyword.shorter
    let initial ← Stmt.readVar keyword.rest
    return (initial.map some).widen (by omega)
  | none, none => do
    let initial ← Stmt.readExpression ts
    return initial.map some

/-- Reads the clauses of a `for` statement with their parentheses. -/
def ForClauses.read (ts : List Token) : Reading ForClauses ts.length := do
  let opening ← expect .leftParen "'(' after 'for'" ts
  have := opening.shorter
  let initial ← Stmt.readInitial opening.rest
  have := initial.shorter
  let condition ← Expr.readUnless .semicolon initial.rest
  have := condition.shorter
  let semicolon ← expect .semicolon "';' after loop condition" condition.rest
  have := semicolon.shorter
  let increment ← Expr.readUnless .rightParen semicolon.rest
  have := increment.shorter
  let closing ← expect .rightParen "')' after for clauses" increment.rest
  return (closing.map fun _ => ⟨initial.value, condition.value, increment.value⟩).widen (by omega)

mutual

/-- Reads a statement. -/
def Stmt.read (ts : List Token) : Reading Stmt ts.length :=
  match ts with
  | [] => Stmt.readExpression []
  | t :: rest =>
    have within {n : Nat} (h : n ≤ rest.length) : n ≤ (t :: rest).length := by
      simp only [List.length_cons]; omega
    match t.kind with
    | .print => return (← Stmt.readPrint t rest).widen (within (Nat.le_refl _))
    | .var => return (← Stmt.readVar rest).widen (within (Nat.le_refl _))
    | .leftBrace => return ((← Stmt.readBlock rest).map .block).widen (within (Nat.le_refl _))
    | .if => return (← Stmt.readIf rest).widen (within (Nat.le_refl _))
    | .while => return (← Stmt.readWhile rest).widen (within (Nat.le_refl _))
    | .for => return (← Stmt.readFor rest).widen (within (Nat.le_refl _))
    | _ => Stmt.readExpression (t :: rest)
termination_by 4 * ts.length + 1

/-- Reads the statements of a block and its closing brace, behind the
opening one. -/
def Stmt.readBlock (ts : List Token) : Reading (List Stmt) ts.length :=
  match ts with
  | [] => .error (.missing "'\x7d' after block" [])
  | t :: rest =>
    if t.kind = .rightBrace then .ok ⟨[], rest, by simp⟩
    else do
      let first ← Stmt.read (t :: rest)
      have := first.shorter
      let others ← Stmt.readBlock first.rest
      return (others.map (first.value :: ·)).widen (by omega)
termination_by 4 * ts.length + 2
decreasing_by all_goals (simp only [List.length_cons] at *; omega)

/-- Reads the rest of an `if` statement behind its keyword. An `else`
belongs to the nearest `if` that has none yet. -/
def Stmt.readIf (ts : List Token) : Reading Stmt ts.length := do
  let condition ← Expr.readCondition "'(' after 'if'" "')' after if condition" ts
  have := condition.shorter
  let consequent ← Stmt.read condition.rest
  have := consequent.shorter
  match next? [.else] consequent.rest with
  | none => return (consequent.map (.ifThen condition.value)).widen (by omega)
  | some keyword =>
    have := keyword.shorter
    let alternative ← Stmt.read keyword.rest
    return (alternative.map (.ifElse condition.value consequent.value)).widen (by omega)
termination_by 4 * ts.length

/-- Reads the rest of a `while` statement behind its keyword. -/
def Stmt.readWhile (ts : List Token) : Reading Stmt ts.length := do
  let condition ← Expr.readCondition "'(' after 'while'" "')' after while condition" ts
  have := condition.shorter
  let body ← Stmt.read condition.rest
  return (body.map (.while condition.value)).widen (by omega)
termination_by 4 * ts.length

/-- Reads the rest of a `for` statement behind its keyword. -/
def Stmt.readFor (ts : List Token) : Reading Stmt ts.length := do
  let clauses ← ForClauses.read ts
  have := clauses.shorter
  let body ← Stmt.read clauses.rest
  let loop := Stmt.forLoop clauses.value.initial clauses.value.condition clauses.value.increment
  return (body.map loop).widen (by omega)
termination_by 4 * ts.length

end

/-- Reads statements as long as there are tokens. -/
def Stmt.readAll (ts : List Token) : Except Failure (List Stmt) :=
  match ts with
  | [] => .ok []
  | t :: rest => do
    let first ← Stmt.read (t :: rest)
    have := first.shorter
    return first.value :: (← Stmt.readAll first.rest)
termination_by ts.length
decreasing_by simp only [List.length_cons] at *; omega

/-! ### Token lists with an end -/

/-- The tokens in front of the first end. -/
def bodyOf (tokens : List Token) : List Token :=
  tokens.takeWhile (·.kind ≠ .eof)

/-- The token of the first end. A list without one ends in its first
line. -/
def endOf (tokens : List Token) : Token :=
  (tokens.find? (·.kind = .eof)).getD { kind := .eof, lexeme := "", line := 1 }

/-- A token where something else was expected. -/
structure Misplaced where
  found : Token
  expected : String

/-- The draft of the error to report for a misplaced token. -/
def Misplaced.draft (m : Misplaced) : Error.Draft :=
  .expected m.expected m.found

/-- The error to report for a misplaced token. -/
def Misplaced.error (m : Misplaced) : Error :=
  m.draft.error

/-- The token that a failure is about, given the one that ends the
tokens. -/
def Failure.misplaced (eof : Token) : Failure → Misplaced
  | .missing expected rest => ⟨rest.headD eof, expected⟩
  | .target equals _ => ⟨equals, "identifier as assignment target"⟩

/-- The tokens that are ahead when reading stops. -/
def Failure.rest : Failure → List Token
  | .missing _ rest => rest
  | .target _ rest => rest

/-- The statements of a list of tokens up to its first end. -/
def program (tokens : List Token) : Except Misplaced (List Stmt) :=
  (Stmt.readAll (bodyOf tokens)).mapError (·.misplaced (endOf tokens))

end LoxLang
