import LoxLang.Scope

/-!
# `LoxLang.ScopeTree`: scopes that share their enclosing ones

A `ScopeTree` holds scopes that several others may lie in. Each scope
is known by its index and lies in one of a smaller index, save for the
first. Looking up a name goes along the path from a scope outward.

* `ScopeTree.holder?`: the nearest scope on the path that has a name;
* `ScopeTree.get`, `ScopeTree.assign`: read and rebind the name there;
* `ScopeTree.define`: binds a name in a scope itself.
-/

set_option autoImplicit false

namespace LoxLang

/-- A scope and the index of the one it lies in. -/
structure ScopeTree.Node where
  enclosing : Option Nat := none
  scope : Scope := ∅
deriving Inhabited

/-- Scopes by their index. -/
structure ScopeTree where
  nodes : Array ScopeTree.Node
deriving Inhabited

namespace ScopeTree

/-- The tree of one empty scope. -/
def root : ScopeTree :=
  { nodes := #[{}] }

/-- Adds an empty scope inside another one. Its index is the former
number of scopes. -/
def addChild (enclosing : Nat) (t : ScopeTree) : ScopeTree :=
  { nodes := t.nodes.push { enclosing := some enclosing } }

/-- The bindings of a scope itself. -/
def scope (t : ScopeTree) (i : Nat) : Scope :=
  match t.nodes[i]? with
  | some node => node.scope
  | none => ∅

/-- The index of the scope that another one lies in. -/
def enclosing? (t : ScopeTree) (i : Nat) : Option Nat :=
  t.nodes[i]?.bind (·.enclosing)

/-- The indices of a scope and of those that enclose it, from the inside
out. -/
def path (t : ScopeTree) (i : Nat) : List Nat :=
  match t.enclosing? i with
  | some p => if p < i then i :: t.path p else [i]
  | none => [i]

/-- The number of scopes that enclose a scope. -/
def depth (t : ScopeTree) (i : Nat) : Nat :=
  (t.path i).length - 1

/-- The index of the nearest scope that has a name. -/
def holder? (t : ScopeTree) (i : Nat) (name : String) : Option Nat :=
  (t.path i).find? fun j => name ∈ t.scope j

/-- Whether a name is bound in a scope or in one that encloses it. -/
def contains (t : ScopeTree) (i : Nat) (name : String) : Bool :=
  (t.holder? i name).isSome

/-- Binds a name in a scope. -/
def define (i : Nat) (name : String) (v : Value) (t : ScopeTree) : ScopeTree :=
  { nodes := t.nodes.modify i fun node => { node with scope := node.scope.insert name v } }

/-- The value of a name in the nearest scope that has it. -/
def get? (t : ScopeTree) (i : Nat) (name : String) : Option Value :=
  (t.holder? i name).bind fun j => (t.scope j)[name]?

/-- Reads the variable that a token names. -/
def get (t : ScopeTree) (i : Nat) (name : Token) : Except Fault Value :=
  match t.get? i name.lexeme with
  | some v => .ok v
  | none => .error (.undefined name)

/-- Assigns the variable that a token names. -/
def assign (i : Nat) (name : Token) (v : Value) (t : ScopeTree) : Except Fault ScopeTree :=
  match t.holder? i name.lexeme with
  | some j => .ok (t.define j name.lexeme v)
  | none => .error (.unassignable name)

end ScopeTree

end LoxLang
