import LoxLang.Operator
import LoxLang.Scope
import LoxLang.Tree

/-!
# `LoxLang.Execution`: running statements

Evaluating an expression reads and rebinds variables of a chain of
scopes and gives a value or a fault. Executing a statement also binds
variables, enters and leaves scopes, and prints; all of that is kept
in a `Machine`, and what a statement has done before a fault remains
done.

* `eval`: the value of an expression;
* `exec`: the execution of a statement. A loop is allowed a number of
  rounds; one that needs more is cut off with a fault of its own, so
  that a statement ends exactly if some number of rounds suffices;
* `execAll`: the execution of statements in order.
-/

set_option autoImplicit false

namespace LoxLang

/-! ### Expressions -/

/-- A computation on a chain of scopes that may end in a fault. The
chain is kept in either case. -/
abbrev Evaluation := ExceptT Fault (StateM Chain)

/-- The value of an expression. Operands are evaluated from left to
right; the right one of `or` only if the left one is not truthy, and
that of any other logical operator only if it is. -/
def eval : Expr → Evaluation Value
  | .literal v => return v
  | .grouping e => eval e
  | .unary operator e => do
    let v ← eval e
    liftExcept (Operator.applyUnary operator v)
  | .binary l operator r => do
    let v ← eval l
    let w ← eval r
    liftExcept (Operator.applyBinary operator v w)
  | .logical l operator r => do
    let v ← eval l
    if v.isTruthy = (operator.kind = .or) then return v else eval r
  | .variable name => do
    liftExcept ((← get).get name)
  | .assign name e => do
    let v ← eval e
    set (← liftExcept ((← get).assign name v))
    return v
  | .alien what => throw (.notExpression what)

/-! ### The machine -/

/-- A scope is entered or left. The depth is that of the scope that is
then the current one. -/
inductive ScopeEvent where
  | entered (depth : Nat)
  | left (depth : Nat)
deriving DecidableEq, Repr

/-- Which scope it is: scopes are numbered as they are made, the globals
of a new machine first. The depth is the number of scopes around it. -/
structure Machine.Place where
  number : Nat := 0
  depth : Nat := 0
deriving DecidableEq, Repr, Inhabited

/-- What statements act on: the scopes that they are run against, the
current scope and the number of scopes made so far, the text printed so
far, and if asked for, the scopes entered and left, the latest first.
The current scope is the innermost one, save where a statement is run
against other scopes from outside. -/
structure Machine where
  chain : Chain := {}
  place : Machine.Place := {}
  made : Nat := 1
  printed : String := ""
  traced : Bool := false
  events : List ScopeEvent := []
deriving Inhabited

namespace Machine

/-- Notes an event, if asked for. -/
def note (event : ScopeEvent) (m : Machine) : Machine :=
  if m.traced then { m with events := event :: m.events } else m

/-- Enters a new scope, which is then the current one. -/
def enter (m : Machine) : Machine :=
  let place := { number := m.made, depth := m.chain.enter.depth }
  note (.entered place.depth) { m with chain := m.chain.enter, place, made := m.made + 1 }

/-- Leaves the innermost scope for the scope that was the current one
before. -/
def leave (previous : Place) (m : Machine) : Machine :=
  note (.left previous.depth) { m with chain := m.chain.leave, place := previous }

/-- Prints a line. -/
def print (text : String) (m : Machine) : Machine :=
  { m with printed := m.printed ++ text ++ "\n" }

/-- Binds a variable in the innermost scope. -/
def define (name : String) (v : Value) (m : Machine) : Machine :=
  { m with chain := m.chain.define name v }

end Machine

/-! ### Statements -/

/-- A computation on a machine that may end in a fault. The machine is
kept in either case. -/
abbrev Execution := ExceptT Fault (StateM Machine)

/-- Evaluates an expression in the scopes of the machine. -/
def evaluate (e : Expr) : Execution Value := ExceptT.mk do
  let m ← get
  let (result, chain) := (eval e).run.run m.chain
  set { m with chain }
  return result

/-- Executes something in a new scope, which is left again however it
ends. -/
def inScope (body : Execution Unit) : Execution Unit := ExceptT.mk do
  let previous := (← get).place
  modify Machine.enter
  let result ← body.run
  modify (Machine.leave previous)
  return result

/-- Executes the body as long as the condition is truthy, for less than
the given number of rounds. -/
def repeatWhile (condition : Execution Value) (body : Execution Unit) : Nat → Execution Unit
  | 0 => throw .outOfRounds
  | rounds + 1 => do
    let v ← condition
    if v.isTruthy then
      body
      repeatWhile condition body rounds

mutual

/-- Executes a statement, with the given number of rounds for each run
of a loop. -/
def exec (rounds : Nat) : Stmt → Execution Unit
  | .expression e => do
    let _ ← evaluate e
  | .print keyword e => do
    match ← evaluate e with
    | .nil => throw (.printsNil keyword)
    | v => modify (Machine.print v.text)
  | .var name e => do
    let v ← evaluate e
    modify (Machine.define name.lexeme v)
  | .block body => inScope (execAll rounds body)
  | .ifThen condition consequent => do
    let v ← evaluate condition
    if v.isTruthy then exec rounds consequent
  | .ifElse condition consequent alternative => do
    let v ← evaluate condition
    if v.isTruthy then exec rounds consequent else exec rounds alternative
  | .while condition body => repeatWhile (evaluate condition) (exec rounds body) rounds
  | .alien what => throw (.notStatement what)

/-- Executes statements in order, up to the first fault. -/
def execAll (rounds : Nat) : List Stmt → Execution Unit
  | [] => return
  | s :: rest => do
    exec rounds s
    execAll rounds rest

end

end LoxLang
