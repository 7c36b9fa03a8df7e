import LoxLang.Proofs.Grammar.Correspondence

/-!
# `LoxLang.Proofs.Grammar.Procedures`: how constructs are read

The readers are functions, which do not show what happens between a call
and its answer. Here each construct of the grammar has a procedure
(`Construct.body`), which says what to do with the token ahead and which
other constructs to have read. No procedure refers to another one but by
its construct.

* `Construct.read_eq`: a construct is read as its procedure answers;
* `Construct.guarded_body`: before it has taken a token, a procedure
  calls only for constructs of a lower level;
* `Construct.advances_body`: it has no result before it has taken one.
-/

set_option autoImplicit false

namespace LoxLang

/-! ### Constructs -/

/-- What is read by a procedure of its own. -/
inductive Construct where
  /-- Statements up to the end. -/
  | program
  | statement
  /-- The statements of a block and its closing brace, behind the opening
  one. -/
  | block
  /-- The rest of a statement behind its keyword. -/
  | print (keyword : Token)
  | var
  | if
  | while
  | for
  /-- An expression and its semicolon. -/
  | sentence
  | expression
  | tier (tier : Tier)
  /-- The operators of a tier behind the operand on the left. -/
  | chain (tier : Tier) (left : Expr)
  | unary
  | primary

namespace Construct

/-- What a construct is read as. -/
@[reducible] def Result : Construct → Type
  | .program | .block => List Stmt
  | .statement | .print _ | .var | .if | .while | .for | .sentence => Stmt
  | .expression | .tier _ | .chain _ _ | .unary | .primary => Expr

/-- A loop may end before it has taken a token. Everything else takes
one. -/
def Moves : Construct → Prop
  | .program | .chain _ _ => False
  | _ => True

/-- A bound of the calls that are made one inside the other before a
token is taken. -/
def level : Construct → Nat
  | .primary | .chain _ _ | .var | .if | .while | .for => 0
  | .unary => 1
  | .tier t => t.height + 1
  | .expression => 8
  | .print _ | .sentence => 9
  | .statement => 10
  | .block | .program => 11

/-- The number of levels. -/
def levels : Nat := 12

theorem level_lt (c : Construct) : c.level < levels := by
  cases c with
  | tier t =>
    have := t.height_le
    simp only [level, levels]
    omega
  | _ => simp [level, levels]

/-- The reader of a construct. -/
def read : (c : Construct) → List Token → Answer c.Result
  | .program => Stmt.answerAll
  | .statement => plain Stmt.read
  | .block => plain Stmt.readBlock
  | .print keyword => plain (Stmt.readPrint keyword)
  | .var => plain Stmt.readVar
  | .if => plain Stmt.readIf
  | .while => plain Stmt.readWhile
  | .for => plain Stmt.readFor
  | .sentence => plain Stmt.readExpression
  | .expression => plain Expr.read
  | .tier t => plain (Expr.readTier t)
  | .chain t left => plain (Expr.readChain t left)
  | .unary => plain Expr.readUnary
  | .primary => plain Expr.readPrimary

end Construct

/-! ### Procedures -/

/-- What is still to be done for a result. -/
inductive Procedure (α : Type) where
  /-- Nothing: this is the result. -/
  | done (a : α)
  /-- To stop, because something else was expected than the token
  ahead. -/
  | missing (expected : String)
  /-- To stop at an equals sign, which has been taken. -/
  | refuse (equals : Token)
  /-- To take the token ahead if it is of one of some kinds. -/
  | accept (kinds : List Token.Kind) (found : Token → Procedure α) (other : Procedure α)
  /-- To look whether the token ahead is of one of some kinds. -/
  | check (kinds : List Token.Kind) (yes no : Procedure α)
  /-- To look whether the tokens are at an end. -/
  | atEnd (yes no : Procedure α)
  /-- To have a construct read. -/
  | call (c : Construct) (next : c.Result → Procedure α)

namespace Procedure

variable {α : Type}

/-- To take the token ahead, which has to be of the given kind. -/
def require (kind : Token.Kind) (expected : String) (next : Token → Procedure α) :
    Procedure α :=
  .accept [kind] next (.missing expected)

/-- To read an expression in parentheses. -/
def condition (before after : String) (next : Expr → Procedure α) : Procedure α :=
  require .leftParen before fun _ =>
  .call .expression fun e =>
  require .rightParen after fun _ =>
  next e

/-- To read an expression, unless the token ahead is of the given
kind. -/
def exprUnless (kind : Token.Kind) (next : Option Expr → Procedure α) : Procedure α :=
  .check [kind] (next none) (.call .expression fun e => next (some e))

/-- To read an operand of a tier. -/
def operand (t : Tier) (next : Expr → Procedure α) : Procedure α :=
  match t.tighter? with
  | some inner => .call (.tier inner) next
  | none => .call .unary next

/-- What a procedure answers for some tokens, if the constructs that it
calls for are read by their readers. -/
def answer : Procedure α → List Token → Answer α
  | .done a, ts => .ok (a, ts)
  | .missing expected, ts => .error (.missing expected ts)
  | .refuse equals, ts => .error (.target equals ts)
  | .accept kinds found other, ts =>
    match front? kinds ts with
    | none => other.answer ts
    | some (t, rest) => (found t).answer rest
  | .check kinds yes no, ts => if (front? kinds ts).isSome then yes.answer ts else no.answer ts
  | .atEnd yes no, ts => if ts.isEmpty then yes.answer ts else no.answer ts
  | .call c next, ts => andThen (c.read ts) fun a rest => (next a).answer rest

end Procedure

/-! ### Bodies -/

namespace Construct

open Procedure

/-- To end a block. -/
def blockEnd : Procedure (List Stmt) :=
  require .rightBrace "'\x7d' after block" fun _ => .done []

/-- To read a `for` statement behind its initializer. -/
def forBehind (initial : Option Stmt) : Procedure Stmt :=
  exprUnless .semicolon fun condition =>
  require .semicolon "';' after loop condition" fun _ =>
  exprUnless .rightParen fun increment =>
  require .rightParen "')' after for clauses" fun _ =>
  .call .statement fun body =>
  .done (Stmt.forLoop initial condition increment body)

/-- The assignment of a value, unless what stands in front of the equals
sign is no name. -/
def assigned (equals : Token) (right : Expr) : Expr → Procedure Expr
  | .variable name => .done (.assign name right)
  | _ => .refuse equals

/-- The procedure of a construct. -/
def body : (c : Construct) → Procedure c.Result
  | .program =>
    .atEnd (.done []) <|
    .call .statement fun s =>
    .call .program fun ss =>
    .done (s :: ss)
  | .statement =>
    .accept [.print] (fun keyword => .call (.print keyword) .done) <|
    .accept [.var] (fun _ => .call .var .done) <|
    .accept [.leftBrace] (fun _ => .call .block fun ss => .done (.block ss)) <|
    .accept [.if] (fun _ => .call .if .done) <|
    .accept [.while] (fun _ => .call .while .done) <|
    .accept [.for] (fun _ => .call .for .done) <|
    .call .sentence .done
  | .block =>
    .check [.rightBrace] blockEnd <|
    .atEnd blockEnd <|
    .call .statement fun s =>
    .call .block fun ss =>
    .done (s :: ss)
  | .print keyword =>
    .call .expression fun e =>
    require .semicolon "';' after value" fun _ =>
    .done (.print keyword e)
  | .var =>
    require .identifier "variable name after 'var'" fun name =>
    require .equal "'=' after variable name" fun _ =>
    .call .expression fun e =>
    require .semicolon "';' after variable declaration" fun _ =>
    .done (.var name e)
  | .if =>
    condition "'(' after 'if'" "')' after if condition" fun e =>
    .call .statement fun consequent =>
    .accept [.else]
      (fun _ => .call .statement fun alternative => .done (.ifElse e consequent alternative))
      (.done (.ifThen e consequent))
  | .while =>
    condition "'(' after 'while'" "')' after while condition" fun e =>
    .call .statement fun s =>
    .done (.while e s)
  | .for =>
    require .leftParen "'(' after 'for'" fun _ =>
    .accept [.semicolon] (fun _ => forBehind none) <|
    .accept [.var] (fun _ => .call .var fun s => forBehind (some s)) <|
    .call .sentence fun s => forBehind (some s)
  | .sentence =>
    .call .expression fun e =>
    require .semicolon "';' after expression" fun _ =>
    .done (.expression e)
  | .expression =>
    .call (.tier .or) fun left =>
    .accept [.equal]
      (fun equals => .call .expression fun right => assigned equals right left)
      (.done left)
  | .tier t => operand t fun first => .call (.chain t first) .done
  | .chain t left =>
    .accept t.operators
      (fun operator => operand t fun right =>
        .call (.chain t (t.join left operator right)) .done)
      (.done left)
  | .unary =>
    .accept unaryOperators
      (fun operator => .call .unary fun e => .done (.unary operator e))
      (.call .primary .done)
  | .primary =>
    .accept [.true] (fun _ => .done (.literal (.bool true))) <|
    .accept [.false] (fun _ => .done (.literal (.bool false))) <|
    .accept [.nil] (fun _ => .done (.literal .nil)) <|
    .accept [.number, .string] (fun t => .done (.literal t.payload)) <|
    .accept [.identifier] (fun t => .done (.variable t)) <|
    .accept [.leftParen]
      (fun _ => .call .expression fun e =>
        require .rightParen "')' after expression" fun _ => .done (.grouping e)) <|
    .missing "expression"

end Construct

/-! ### What procedures answer -/

section Answers

variable {α β : Type}

namespace Procedure

@[simp] theorem answer_require (kind : Token.Kind) (expected : String)
    (next : Token → Procedure α) (ts : List Token) :
    (require kind expected next).answer ts =
      andThen (plain (expect kind expected) ts) fun t rest => (next t).answer rest := by
  rw [require, answer, plain_expect]
  cases front? [kind] ts <;> rfl

@[simp] theorem answer_condition (before after : String) (next : Expr → Procedure α)
    (ts : List Token) :
    (condition before after next).answer ts =
      andThen (plain (Expr.readCondition before after) ts) fun e rest =>
        (next e).answer rest := by
  simp [condition, answer, Construct.read, Expr.plain_readCondition, andThen_assoc]

@[simp] theorem answer_exprUnless (kind : Token.Kind) (next : Option Expr → Procedure α)
    (ts : List Token) :
    (exprUnless kind next).answer ts =
      andThen (plain (Expr.readUnless kind) ts) fun e rest => (next e).answer rest := by
  rw [exprUnless, answer, Expr.plain_readUnless]
  cases front? [kind] ts <;> simp [answer, Construct.read, andThen_assoc]

@[simp] theorem answer_operand (t : Tier) (next : Expr → Procedure α) (ts : List Token) :
    (operand t next).answer ts =
      andThen (plain (Expr.readOperand t) ts) fun e rest => (next e).answer rest := by
  rw [operand, Expr.plain_readOperand]
  cases t.tighter? <;> rfl

end Procedure

/-- Nothing is done with the answer of another reader. -/
@[simp] theorem andThen_done (x : Answer α) : (andThen x fun a rest => .ok (a, rest)) = x := by
  rcases x with _ | ⟨a, rest⟩ <;> rfl

namespace Construct

open Procedure

theorem answer_forBehind (initial : Option Stmt) (ts : List Token) :
    (forBehind initial).answer ts =
      andThen (plain (Expr.readUnless .semicolon) ts) fun condition rest =>
      andThen (plain (expect .semicolon "';' after loop condition") rest) fun _ rest =>
      andThen (plain (Expr.readUnless .rightParen) rest) fun increment rest =>
      andThen (plain (expect .rightParen "')' after for clauses") rest) fun _ rest =>
      andThen (plain Stmt.read rest) fun body rest =>
        .ok (Stmt.forLoop initial condition increment body, rest) := by
  simp [forBehind, answer, read]

theorem answer_assigned (equals : Token) (right left : Expr) (ts : List Token) :
    (assigned equals right left).answer ts = Expr.assigned equals right ts left := by
  cases left <;> rfl

/-- A construct is read as its procedure answers. -/
theorem read_eq (c : Construct) (ts : List Token) : c.read ts = c.body.answer ts := by
  cases c with
  | program =>
    cases ts with
    | nil => simp [read, body, answer, Stmt.answerAll, Stmt.readAll_nil, Except.map]
    | cons t rest => simp [read, body, answer, Stmt.answerAll_cons]
  | statement =>
    cases ts with
    | nil => simp [read, body, answer, Stmt.plain_readExpression_nil]
    | cons t rest =>
      -- a kind that begins no other statement leaves the token for an expression
      cases hkind : t.kind <;>
        simp [read, body, answer, Stmt.plain_read, front?_cons, hkind]
  | block =>
    rw [read, Stmt.plain_readBlock]
    cases ts with
    | nil => simp [body, blockEnd, answer, plain_expect]
    | cons t rest =>
      by_cases ht : t.kind = .rightBrace
      · simp [body, blockEnd, answer, plain_expect, front?_cons, ht]
      · simp [read, body, answer, front?_cons, ht]
  | print keyword => simp [read, body, answer, Stmt.plain_readPrint]
  | var => simp [read, body, answer, Stmt.plain_readVar]
  | «if» =>
    rw [read, body, answer_condition, Stmt.plain_readIf]
    congr! with condition rest
    rw [answer, read]
    congr! with consequent rest
    cases helse : front? [.else] rest <;> simp [answer, read, helse]
  | «while» => simp [read, body, answer, Stmt.plain_readWhile]
  | «for» =>
    simp only [read, body, Stmt.plain_readFor, ForClauses.plain_read, Stmt.plain_readInitial,
      answer_require, answer, answer_forBehind, andThen_assoc, andThen_ok]
    congr! with _ rest
    cases front? [.semicolon] rest <;> cases front? [.var] rest <;> simp [andThen_assoc]
  | sentence => simp [read, body, answer, Stmt.plain_readExpression]
  | expression =>
    rw [read, body, answer, read, Expr.plain_read]
    congr! with left rest
    cases hequal : front? [.equal] rest <;> simp [answer, answer_assigned, read, hequal]
  | tier t => simp [read, body, answer, Expr.plain_readTier]
  | chain t left =>
    rw [read, body, answer, Expr.plain_readChain]
    cases front? t.operators ts <;> simp [answer, read]
  | unary =>
    rw [read, body, answer, Expr.plain_readUnary]
    cases front? unaryOperators ts <;> simp [answer, read]
  | primary =>
    cases ts with
    | nil => simp [read, body, answer]
    | cons t rest =>
      cases hkind : t.kind <;>
        simp [read, body, answer, Expr.plain_readPrimary, Expr.ofToken?, front?_cons, hkind]

/-- A construct that takes a token leaves fewer. -/
theorem length_lt_of_read {c : Construct} (hc : c.Moves) {ts rest : List Token} {a : c.Result}
    (h : c.read ts = .ok (a, rest)) : rest.length < ts.length := by
  cases c with
  | program | chain t left => exact hc.elim
  | _ => exact length_lt_of_plain h

theorem length_le_of_read {c : Construct} {ts rest : List Token} {a : c.Result}
    (h : c.read ts = .ok (a, rest)) : rest.length ≤ ts.length := by
  cases c with
  | program =>
    rw [read, Stmt.answerAll] at h
    cases hread : Stmt.readAll ts <;> rw [hread] at h <;> cases h
    exact Nat.zero_le _
  | chain t left => exact Nat.le_of_lt_succ (length_lt_of_plain h)
  | _ => exact (length_lt_of_plain h).le

end Construct

end Answers

/-! ### Before a token is taken -/

namespace Procedure

variable {α : Type} {bound : Nat}

/-- Until it has taken a token, the procedure calls only for constructs
of a level below the bound. -/
def Guarded (bound : Nat) : Procedure α → Prop
  | .done _ | .missing _ | .refuse _ => True
  | .accept _ _ other => other.Guarded bound
  | .check _ yes no | .atEnd yes no => yes.Guarded bound ∧ no.Guarded bound
  | .call c next => c.level < bound ∧ (c.Moves ∨ ∀ a, (next a).Guarded bound)

/-- The procedure has no result before it has taken a token. -/
def Advances : Procedure α → Prop
  | .done _ => False
  | .missing _ | .refuse _ => True
  | .accept _ _ other => other.Advances
  | .check _ yes no | .atEnd yes no => yes.Advances ∧ no.Advances
  | .call c next => c.Moves ∨ ∀ a, (next a).Advances

/-- No construct is of a level above all. -/
theorem guarded_levels (p : Procedure α) : p.Guarded Construct.levels := by
  induction p with
  | done | missing | refuse => exact trivial
  | accept kinds found other _ ih => exact ih
  | check kinds yes no ihyes ihno | atEnd yes no ihyes ihno => exact ⟨ihyes, ihno⟩
  | call c next ih => exact ⟨c.level_lt, .inr ih⟩

theorem guarded_operand {t : Tier} {next : Expr → Procedure α} (h : t.height < bound) :
    (operand t next).Guarded bound := by
  have hpos := t.height_pos
  rw [operand]
  cases hinner : t.tighter? with
  | none => exact ⟨Nat.lt_of_le_of_lt hpos h, .inl trivial⟩
  | some inner =>
    rw [Tier.height_of_tighter? hinner] at h
    exact ⟨h, .inl trivial⟩

theorem advances_operand (t : Tier) (next : Expr → Procedure α) : (operand t next).Advances := by
  rw [operand]
  cases t.tighter? <;> exact .inl trivial

end Procedure

namespace Construct

open Procedure

theorem guarded_body (c : Construct) : c.body.Guarded c.level := by
  cases c with
  | tier t => exact guarded_operand (Nat.lt_succ_self _)
  | _ => simp [body, condition, require, blockEnd, Guarded, level, Moves]

theorem advances_body {c : Construct} (hc : c.Moves) : c.body.Advances := by
  cases c with
  | program | chain t left => exact hc.elim
  | tier t => exact advances_operand t _
  | _ => simp [body, condition, require, blockEnd, Advances, Moves]

end Construct

end LoxLang
