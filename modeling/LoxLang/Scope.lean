import LoxLang.Fault
import Std.Data.TreeMap

/-!
# `LoxLang.Scope`: variables and where they are found

A scope binds names to values. A chain is a scope with the scopes that
enclose it, the last of which holds the globals.

* `Chain.define` binds a name in the innermost scope;
* `Chain.get` reads a name from the nearest scope that has it;
* `Chain.assign` rebinds a name there, and fails if none has it.
-/

set_option autoImplicit false

namespace LoxLang

/-- The bindings of one scope, in the order of their names. -/
abbrev Scope := Std.TreeMap String Value

/-- A scope and those that enclose it, the nearest first. -/
structure Chain where
  scope : Scope := ∅
  outer : List Scope := []
deriving Inhabited

namespace Chain

/-- The scopes from the innermost out. -/
def scopes (c : Chain) : List Scope :=
  c.scope :: c.outer

/-- The number of scopes that enclose the innermost one. -/
def depth (c : Chain) : Nat :=
  c.outer.length

/-- The outermost scope. -/
def globals (c : Chain) : Scope :=
  c.outer.getLastD c.scope

/-- The chain of the globals alone. -/
def root (c : Chain) : Chain :=
  { scope := c.globals }

/-- The same chain with other globals. -/
def withGlobals (globals : Scope) (c : Chain) : Chain :=
  match c.outer with
  | [] => { scope := globals }
  | _ => { c with outer := c.outer.dropLast ++ [globals] }

/-! ### Entering and leaving -/

/-- A new empty scope inside a chain. -/
def enter (c : Chain) : Chain :=
  { scope := ∅, outer := c.scopes }

/-- A chain without its innermost scope. The globals are never left. -/
def leave (c : Chain) : Chain :=
  match c.outer with
  | [] => c
  | s :: outer => { scope := s, outer }

/-! ### Names -/

/-- The value of a name in the nearest scope that has it. -/
def get? (name : String) (c : Chain) : Option Value :=
  c.scopes.findSome? (·[name]?)

/-- Binds a name in the innermost scope. -/
def define (name : String) (v : Value) (c : Chain) : Chain :=
  { c with scope := c.scope.insert name v }

/-- Rebinds a name in the first of the scopes that has it. -/
def rebind? (name : String) (v : Value) : List Scope → Option (List Scope)
  | [] => none
  | s :: outer =>
    if name ∈ s then some (s.insert name v :: outer)
    else (rebind? name v outer).map (s :: ·)

/-- Rebinds a name in the nearest scope that has it. -/
def assign? (name : String) (v : Value) (c : Chain) : Option Chain :=
  if name ∈ c.scope then some (c.define name v)
  else (rebind? name v c.outer).map fun outer => { c with outer }

/-- Reads the variable that a token names. -/
def get (name : Token) (c : Chain) : Except Fault Value :=
  match c.get? name.lexeme with
  | some v => .ok v
  | none => .error (.undefined name)

/-- Assigns the variable that a token names. -/
def assign (name : Token) (v : Value) (c : Chain) : Except Fault Chain :=
  match c.assign? name.lexeme v with
  | some c => .ok c
  | none => .error (.unassignable name)

end Chain

end LoxLang
