import LoxLang.Grammar
import LoxLang.Proofs.Execution.Names
import LoxLang.Proofs.Execution.Simulation
import Mathlib.Data.Set.Basic

/-!
# `LoxLang.Proofs.Execution.EmptyScopes`: a scope without names is no scope

What a name stands for does not depend on scopes that bind no name. So
an expression has the same value with one more such scope in its chain
and does the same to all others, and it does not matter whether it is
evaluated at the end of a block that declares nothing or behind it.

This carries the `for` statement. The block that it stands for evaluates
the increment in the scope of each round, not in that of the loop; but
the body leaves that scope empty.

* `Scope.Padded`: scopes with one more scope among them;
* `Chain.preserves_padded`: names are looked up and assigned alike;
* `inScope_expression`: an expression goes out of a block;
* `execFor`: the direct execution of a `for` statement;
* `exec_forLoop`: the block that it stands for does the same.
-/

set_option autoImplicit false

namespace LoxLang

/-! ### One more scope -/

/-- Scopes are others with one more among them, which binds no name. It
has the given number of scopes in front of it and is not the last. -/
inductive Scope.Padded : Nat → List Scope → List Scope → Prop
  | here {s t : Scope} {ts : List Scope} (h : ∀ name, name ∉ s) :
    Padded 0 (s :: t :: ts) (t :: ts)
  | behind {k : Nat} {ss ts : List Scope} (s : Scope) (h : Padded k ss ts) :
    Padded (k + 1) (s :: ss) (s :: ts)

namespace Scope.Padded

variable {k : Nat} {ss ts : List Scope}

/-- A name is found in both or in neither, with the same value. -/
theorem findSome? (h : Padded k ss ts) (name : String) :
    ss.findSome? (·[name]?) = ts.findSome? (·[name]?) := by
  induction h with
  | here h => rw [List.findSome?_cons, Std.TreeMap.getElem?_eq_none (h name)]
  | behind s _ ih => rw [List.findSome?_cons, List.findSome?_cons, ih]

/-- A name is rebound in both or in neither, and not in the scope that
is one more. -/
theorem rebind? (h : Padded k ss ts) (name : String) (v : Value) :
    Option.Rel (Padded k) (Chain.rebind? name v ss) (Chain.rebind? name v ts) := by
  induction h with
  | @here s t ts h =>
    rw [Chain.rebind?, if_neg (h name), Chain.rebind?]
    split
    · exact .some (.here h)
    · cases Chain.rebind? name v ts with
      | none => exact .none
      | some ts => exact .some (.here h)
  | @behind k ss ts s h ih =>
    rw [Chain.rebind?, Chain.rebind?]
    split
    · exact .some (.behind _ h)
    · generalize Chain.rebind? name v ss = x, Chain.rebind? name v ts = y at ih
      cases ih with
      | none => exact .none
      | some h => exact .some (.behind s h)

end Scope.Padded

/-! ### Chains -/

/-- A chain is another one with one more scope, which binds no name. -/
def Chain.Padded (k : Nat) (c d : Chain) : Prop :=
  Scope.Padded k c.scopes d.scopes

theorem Chain.preserves_padded (k : Nat) : Chain.Preserves Set.univ (Chain.Padded k) :=
  .of_scopes (fun _ h => h.findSome? _) fun v _ h => h.rebind? _ v

/-- The one more scope is left. -/
theorem Chain.Padded.leave_eq {c d : Chain} (h : c.Padded 0 d) : c.leave = d := by
  obtain ⟨scope, outer⟩ := c
  obtain ⟨s, ss⟩ := d
  cases h
  rfl

/-- A scope that is new and in which no name was bound is one more. -/
theorem Chain.Extends.padded {c d : Chain} (h : c.enter.Extends [] d) : d.Padded 0 d.leave := by
  have hempty (name : String) : name ∉ d.scope := fun hname =>
    (h.gained name hname).elim Std.TreeMap.not_mem_emptyc List.not_mem_nil
  obtain ⟨scope, outer⟩ := d
  obtain _ | ⟨-, -⟩ := h.outer
  exact .here hempty

/-- An expression has the same value with one more scope. -/
theorem eval_matches_padded (k : Nat) (e : Expr) : Matches (Chain.Padded k) (eval e) (eval e) :=
  eval_matches (Chain.preserves_padded k) e fun _ _ => Set.mem_univ _

/-! ### Expressions at the end of a block -/

/-- A scope in which no name was bound can be left before an expression
is evaluated as well as after. -/
theorem run_evaluate_leave {n : Machine} (h : n.chain.Padded 0 n.chain.leave) (e : Expr)
    (previous : Machine.Place) :
    (evaluate e).run.run (n.leave previous) =
      (((evaluate e).run.run n).1, ((evaluate e).run.run n).2.leave previous) := by
  obtain ⟨hvalue, hchain⟩ := eval_matches_padded 0 e _ _ h
  rw [run_evaluate, run_evaluate, Machine.chain_leave, ← hvalue, ← hchain.leave_eq]
  simp only [Machine.leave, Machine.note]
  split <;> rfl

/-- An expression statement evaluates its expression for nothing but what
that does to the scopes. -/
theorem run_expression (rounds : Nat) (e : Expr) (m : Machine) :
    (exec rounds (.expression e)).run.run m =
      (((evaluate e).run.run m).1.map fun _ => (), ((evaluate e).run.run m).2) := by
  rw [exec, run_bind]
  rcases (evaluate e).run.run m with ⟨_ | _, n⟩ <;> rfl

/-- An expression at the end of a block that binds no name of its own can
be evaluated behind the block. -/
theorem inScope_expression {body : Execution Unit} (h : Leads (Machine.Keeps []) body)
    (rounds : Nat) (e : Expr) :
    inScope (do body; exec rounds (.expression e)) =
      (do inScope body; exec rounds (.expression e)) := by
  funext m
  change (inScope _).run.run m = (inScope body >>= _).run.run m
  have hkeeps := (h m.enter).chain
  rw [Machine.chain_enter] at hkeeps
  rw [run_inScope, run_bind, run_bind, run_inScope]
  generalize body.run.run m.enter = run at hkeeps ⊢
  obtain ⟨_ | _, n⟩ := run
  · rfl
  · -- the scope of the block is empty, so the value is the same outside
    have hleave := run_evaluate_leave hkeeps.padded e m.place
    simp only [run_expression, hleave]

/-! ### Loops -/

/-- Whether a `for` statement goes on: without a condition it does. -/
def evaluateCondition : Option Expr → Execution Value
  | none => return .bool true
  | some e => evaluate e

/-- A round of a `for` statement in the scope of the loop: the body in a
new scope inside of it, and then the increment. -/
def execRound (rounds : Nat) (increment : Option Expr) (body : Stmt) : Execution Unit := do
  inScope (exec rounds body)
  if let some e := increment then
    let _ ← evaluate e

/-- The direct execution of a `for` statement. In a scope of its own the
initializer is executed, and then round after round as long as the
condition is truthy. -/
def execFor (rounds : Nat) (initial : Option Stmt) (condition increment : Option Expr)
    (body : Stmt) : Execution Unit :=
  inScope do
    if let some s := initial then
      exec rounds s
    repeatWhile (evaluateCondition condition) (execRound rounds increment body) rounds

/-- The block of the body and the increment leaves its scope empty, so it
makes no difference that the increment is evaluated there. -/
theorem exec_round (rounds : Nat) (increment : Option Expr) {body : Stmt}
    (h : body.declared = []) :
    exec rounds (.block (body :: (increment.map Stmt.expression).toList)) =
      execRound rounds increment body := by
  have hbody : Leads (Machine.Keeps []) (exec rounds body) :=
    exec_keeps rounds body (h ▸ List.Subset.refl [])
  cases increment with
  | none => simp [exec, execAll, execRound]
  | some e =>
    have hexpression := inScope_expression hbody rounds e
    simpa [exec, execAll, execRound] using hexpression

/-- A `for` statement the body of which binds no name outside of its
blocks does what the block that it stands for does. -/
theorem exec_forLoop (rounds : Nat) (initial : Option Stmt) (condition increment : Option Expr)
    {body : Stmt} (h : body.declared = []) :
    exec rounds (Stmt.forLoop initial condition increment body) =
      execFor rounds initial condition increment body := by
  have hcondition : evaluate (condition.getD (.literal (.bool true))) =
      evaluateCondition condition := by
    cases condition <;> rfl
  have hround := exec_round rounds increment h
  have hloop : exec rounds (.while (condition.getD (.literal (.bool true)))
        (.block (body :: (increment.map Stmt.expression).toList))) =
      repeatWhile (evaluateCondition condition) (execRound rounds increment body) rounds := by
    rw [exec, hcondition, hround]
  rw [Stmt.forLoop, exec, execFor]
  cases initial with
  | none => simp [execAll, hloop]
  | some s => simp [execAll, hloop]

/-- The body of `for (var a = true; a; a = false) { print a; var a = nil; }`
declares a name inside of its block only, and the increment changes that
of the loop. -/
theorem exec_forLoop_shadowed :
    let a : Token := { kind := .identifier, lexeme := "a", line := 1 }
    let keyword : Token := { kind := .print, lexeme := "print", line := 1 }
    let initial := Stmt.var a (.literal (.bool true))
    let increment := Expr.assign a (.literal (.bool false))
    let body := Stmt.block [.print keyword (.variable a), .var a (.literal .nil)]
    body.declared = [] ∧
      exec 2 (Stmt.forLoop (some initial) (some (.variable a)) (some increment) body) =
        execFor 2 (some initial) (some (.variable a)) (some increment) body ∧
      ((exec 2 (Stmt.forLoop (some initial) (some (.variable a)) (some increment) body)).run.run
        {}).2.printed = "true\n" :=
  ⟨rfl, exec_forLoop 2 _ _ _ rfl, by decide +kernel⟩

end LoxLang
