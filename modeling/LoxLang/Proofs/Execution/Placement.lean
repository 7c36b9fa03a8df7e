import LoxLang.Proofs.Execution.Runs
import LoxLang.Proofs.Grammar.Placement

/-!
# `LoxLang.Proofs.Execution.Placement`: trees with tokens in other places

The interpreter asks a token for its kind and its lexeme. If the tokens
of a tree are in other places, it does the same: the machine is changed
in the same way, and if it stops, it stops at the same token with the
other place, and with the same message.

* `Fault.mapTokens`: a fault with its token changed;
* `Adapts`: a computation that is another one with its fault changed;
* `exec_relocated`: a statement with its tokens in other places;
* `execAll_of_bare`: statements that are the same but for places.
-/

set_option autoImplicit false

namespace LoxLang

variable {σ ε ε' α β : Type} {f : Token → Token}

/-! ### Faults -/

/-- A fault with its token changed. -/
def Fault.mapTokens (f : Token → Token) : Fault → Fault
  | .undefined name => .undefined (f name)
  | .unassignable name => .unassignable (f name)
  | .operand operator kind => .operand (f operator) kind
  | .operands operator left right => .operands (f operator) left right
  | .addends operator left right => .addends (f operator) left right
  | .printsNil keyword => .printsNil (f keyword)
  | .notExpression what => .notExpression what
  | .notStatement what => .notStatement what
  | .unknownOperator operator => .unknownOperator (f operator)
  | .outOfRounds => .outOfRounds

/-- The place of its token has no part in the text of an error. -/
theorem Fault.error_relocated (hf : Token.Relocates f) (fault : Fault) :
    (fault.mapTokens f).error.template = fault.error.template ∧
      (fault.mapTokens f).error.snippets = fault.error.snippets := by
  cases fault <;>
    simp [mapTokens, error, draft, atToken, Error.With.execution, Error.With.fromWithin, hf.lexeme,
      Error.Draft.error, Error.Draft.template?, Error.With.withTemplate]

/-! ### Computations with their faults changed -/

/-- The second computation does what the first one does, and if that
fails, it fails with a change of the fault. -/
def Adapts (g : ε → ε') (x : ExceptT ε (StateM σ) α) (y : ExceptT ε' (StateM σ) α) : Prop :=
  ∀ s, y.run.run s = ((x.run.run s).1.mapError g, (x.run.run s).2)

namespace Adapts

variable {g : ε → ε'} {x : ExceptT ε (StateM σ) α} {y : ExceptT ε' (StateM σ) α}
  {k : α → ExceptT ε (StateM σ) β} {k' : α → ExceptT ε' (StateM σ) β}

theorem pure (a : α) :
    Adapts g (Pure.pure a : ExceptT ε (StateM σ) α) (Pure.pure a) :=
  fun _ => rfl

theorem throw (e : ε) :
    Adapts g (MonadExcept.throw e : ExceptT ε (StateM σ) α) (MonadExcept.throw (g e)) :=
  fun _ => rfl

theorem lift {x : Except ε α} {y : Except ε' α} (h : y = x.mapError g) :
    Adapts g (liftExcept x : ExceptT ε (StateM σ) α) (liftExcept y) := by
  intro s
  rw [run_liftExcept, run_liftExcept, h]

theorem read : Adapts g (get : ExceptT ε (StateM σ) σ) get :=
  fun _ => rfl

theorem write (s : σ) :
    Adapts g (set s : ExceptT ε (StateM σ) PUnit) (set s) :=
  fun _ => rfl

theorem update (h : σ → σ) :
    Adapts g (modify h : ExceptT ε (StateM σ) PUnit) (modify h) :=
  fun _ => rfl

theorem bind (hx : Adapts g x y) (hk : ∀ a, Adapts g (k a) (k' a)) :
    Adapts g (x >>= k) (y >>= k') := by
  intro s
  rw [run_bind, run_bind, hx s]
  rcases x.run.run s with ⟨_ | a, t⟩
  · rfl
  · exact hk a t

end Adapts

/-! ### Expressions -/

section Relocated

variable (hf : Token.Relocates f)

include hf

theorem Operator.applyUnary_relocated (operator : Token) (v : Value) :
    applyUnary (f operator) v = (applyUnary operator v).mapError (Fault.mapTokens f) := by
  rw [applyUnary, applyUnary, hf.kind]
  split
  · rfl
  · cases v <;> rfl

theorem Operator.applyNumeric_relocated (operator : Token) (v w : Value) :
    applyNumeric (f operator) v w =
      (applyNumeric operator v w).mapError (Fault.mapTokens f) := by
  unfold applyNumeric
  rw [hf.kind]
  generalize arithmetic? operator.kind = calculate?, comparison? operator.kind = compare?
  cases v <;> cases w <;> first | rfl | cases calculate? <;> cases compare? <;> rfl

theorem Operator.applyBinary_relocated (operator : Token) (v w : Value) :
    applyBinary (f operator) v w = (applyBinary operator v w).mapError (Fault.mapTokens f) := by
  unfold applyBinary
  rw [hf.kind]
  split
  -- two strings, two numbers, or neither
  · split
    · rfl
    · exact applyNumeric_relocated hf operator _ _
    · rfl
  · exact applyNumeric_relocated hf operator v w

theorem Chain.get_relocated (c : Chain) (name : Token) :
    c.get (f name) = (c.get name).mapError (Fault.mapTokens f) := by
  rw [Chain.get, Chain.get, hf.lexeme]
  cases c.get? name.lexeme <;> rfl

theorem Chain.assign_relocated (c : Chain) (name : Token) (v : Value) :
    c.assign (f name) v = (c.assign name v).mapError (Fault.mapTokens f) := by
  rw [Chain.assign, Chain.assign, hf.lexeme]
  cases c.assign? name.lexeme v <;> rfl

/-- The value of an expression does not depend on the places of its
tokens. -/
theorem eval_relocated : (e : Expr) →
    Adapts (Fault.mapTokens f) (eval e) (eval (e.mapTokens f))
  | .literal v => .pure v
  | .grouping e => eval_relocated e
  | .unary operator e => by
    rw [Expr.mapTokens, eval, eval]
    exact .bind (eval_relocated e) fun v => .lift (Operator.applyUnary_relocated hf operator v)
  | .binary left operator right => by
    rw [Expr.mapTokens, eval, eval]
    exact .bind (eval_relocated left) fun v => .bind (eval_relocated right) fun w =>
      .lift (Operator.applyBinary_relocated hf operator v w)
  | .logical left operator right => by
    rw [Expr.mapTokens, eval, eval, hf.kind]
    refine .bind (eval_relocated left) fun v => ?_
    split
    · exact .pure v
    · exact eval_relocated right
  | .variable name => by
    rw [Expr.mapTokens, eval, eval]
    exact .bind .read fun c => .lift (Chain.get_relocated hf c name)
  | .assign name e => by
    rw [Expr.mapTokens, eval, eval]
    exact .bind (eval_relocated e) fun v => .bind .read fun c =>
      .bind (.lift (Chain.assign_relocated hf c name v)) fun c => .bind (.write c) fun _ => .pure v
  | .alien what => .throw (Fault.notExpression what)

end Relocated

/-! ### Statements -/

theorem evaluate_relocated (hf : Token.Relocates f) (e : Expr) :
    Adapts (Fault.mapTokens f) (evaluate e) (evaluate (e.mapTokens f)) := by
  intro m
  rw [run_evaluate, run_evaluate, eval_relocated hf e m.chain]

theorem inScope_adapts {g : Fault → Fault} {body body' : Execution Unit} (h : Adapts g body body') :
    Adapts g (inScope body) (inScope body') := by
  intro m
  rw [run_inScope, run_inScope, h m.enter]

theorem repeatWhile_adapts {g : Fault → Fault} (hrounds : g .outOfRounds = .outOfRounds)
    {condition condition' : Execution Value} {body body' : Execution Unit}
    (hcondition : Adapts g condition condition') (hbody : Adapts g body body') :
    (rounds : Nat) →
      Adapts g (repeatWhile condition body rounds) (repeatWhile condition' body' rounds)
  | 0 => by
    have hthrow := @Adapts.throw Machine _ _ Unit g .outOfRounds
    rwa [hrounds] at hthrow
  | rounds + 1 => by
    refine .bind hcondition fun v => ?_
    split
    · exact .bind hbody fun _ => repeatWhile_adapts hrounds hcondition hbody rounds
    · exact .pure ()

mutual

/-- A statement with tokens in other places does the same, and stops at
the same token in the other place. -/
theorem exec_relocated (hf : Token.Relocates f) (rounds : Nat) : (s : Stmt) →
    Adapts (Fault.mapTokens f) (exec rounds s) (exec rounds (s.mapTokens f))
  | .expression e => by
    rw [Stmt.mapTokens, exec, exec]
    exact .bind (evaluate_relocated hf e) fun _ => .pure ()
  | .print keyword e => by
    rw [Stmt.mapTokens, exec, exec]
    refine .bind (evaluate_relocated hf e) fun v => ?_
    cases v with
    | nil => exact .throw (Fault.printsNil keyword)
    | number | string | bool => exact .update _
  | .var name e => by
    rw [Stmt.mapTokens, exec, exec, hf.lexeme]
    exact .bind (evaluate_relocated hf e) fun v => .update _
  | .block body => by
    rw [Stmt.mapTokens, exec, exec]
    exact inScope_adapts (execAll_relocated hf rounds body)
  | .ifThen condition consequent => by
    rw [Stmt.mapTokens, exec, exec]
    refine .bind (evaluate_relocated hf condition) fun v => ?_
    split
    · exact exec_relocated hf rounds consequent
    · exact .pure ()
  | .ifElse condition consequent alternative => by
    rw [Stmt.mapTokens, exec, exec]
    refine .bind (evaluate_relocated hf condition) fun v => ?_
    split
    · exact exec_relocated hf rounds consequent
    · exact exec_relocated hf rounds alternative
  | .while condition body => by
    rw [Stmt.mapTokens, exec, exec]
    exact repeatWhile_adapts rfl (evaluate_relocated hf condition) (exec_relocated hf rounds body)
      rounds
  | .alien what => .throw (Fault.notStatement what)

theorem execAll_relocated (hf : Token.Relocates f) (rounds : Nat) : (ss : List Stmt) →
    Adapts (Fault.mapTokens f) (execAll rounds ss) (execAll rounds (Stmt.mapAllTokens f ss))
  | [] => .pure ()
  | s :: rest => by
    rw [Stmt.mapAllTokens, execAll, execAll]
    exact .bind (exec_relocated hf rounds s) fun _ => execAll_relocated hf rounds rest

end

/-- Statements that are the same but for the places of their tokens do
the same to a machine, and stop with the same fault but for its place. -/
theorem execAll_of_bare {ss ss' : List Stmt}
    (h : Stmt.mapAllTokens Token.bare ss = Stmt.mapAllTokens Token.bare ss') (rounds : Nat)
    (m : Machine) :
    ((execAll rounds ss).run.run m).1.mapError (Fault.mapTokens Token.bare) =
        ((execAll rounds ss').run.run m).1.mapError (Fault.mapTokens Token.bare) ∧
      ((execAll rounds ss).run.run m).2 = ((execAll rounds ss').run.run m).2 := by
  have hss := execAll_relocated Token.relocates_bare rounds ss m
  have hss' := execAll_relocated Token.relocates_bare rounds ss' m
  rw [← h, hss] at hss'
  exact Prod.mk.inj hss'

end LoxLang
