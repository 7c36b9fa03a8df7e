import LoxLang.Proofs.Execution.Runs
import LoxLang.Proofs.Grammar.Derivation

/-!
# `LoxLang.Proofs.Execution.Proper`: trees that a source text can have

A tree that the grammar derives has an expression and a statement
wherever one is needed, and its binary operators are operators of two
numbers. Such trees are proper, and they stop for the faults of a
program only, or because a loop is cut off.

* `Stmt.DerivesAll.proper`: what the grammar derives is proper;
* `eval_fails`, `exec_fails`: why proper trees stop.
-/

set_option autoImplicit false

namespace LoxLang

/-! ### Proper trees -/

/-- The operators of two numbers. -/
def Operator.numeric : List Token.Kind :=
  [.plus, .minus, .star, .slash, .percent, .greater, .greaterEqual, .less, .lessEqual,
   .equalEqual, .bangEqual]

/-- An expression with nothing else where an expression is needed, and
with known operators. -/
def Expr.Proper : Expr → Prop
  | .literal _ | .variable _ => True
  | .grouping e | .unary _ e | .assign _ e => e.Proper
  | .binary left operator right =>
    left.Proper ∧ operator.kind ∈ Operator.numeric ∧ right.Proper
  | .logical left _ right => left.Proper ∧ right.Proper
  | .alien _ => False

mutual

/-- A statement with nothing else where a statement or an expression is
needed, and with known operators. -/
def Stmt.Proper : Stmt → Prop
  | .expression e | .print _ e | .var _ e => e.Proper
  | .block body => Stmt.AllProper body
  | .ifThen condition consequent => condition.Proper ∧ consequent.Proper
  | .ifElse condition consequent alternative =>
    condition.Proper ∧ consequent.Proper ∧ alternative.Proper
  | .while condition body => condition.Proper ∧ body.Proper
  | .alien _ => False

/-- Statements each of which is proper. -/
def Stmt.AllProper : List Stmt → Prop
  | [] => True
  | s :: rest => s.Proper ∧ Stmt.AllProper rest

end

/-! ### What is derived is proper -/

/-- The node of a chain is proper if its operands are. -/
theorem Expr.Level.Chain.proper {level inner : Level} {operators : List Token.Kind}
    {node : Expr → Token → Expr → Expr} (hlevel : level.Chain operators inner node)
    {left right : Expr} {operator : Token} (hoperator : operator.kind ∈ operators)
    (hleft : left.Proper) (hright : right.Proper) : (node left operator right).Proper := by
  have hnumeric : [Token.Kind.equalEqual, .bangEqual] ⊆ Operator.numeric ∧
      [.greater, .greaterEqual, .less, .lessEqual] ⊆ Operator.numeric ∧
      [.plus, .minus] ⊆ Operator.numeric ∧ [.star, .slash, .percent] ⊆ Operator.numeric := by
    decide
  obtain ⟨hequality, hcomparison, hterm, hfactor⟩ := hnumeric
  cases hlevel with
  | or | and => exact ⟨hleft, hright⟩
  | equality => exact ⟨hleft, hequality hoperator, hright⟩
  | comparison => exact ⟨hleft, hcomparison hoperator, hright⟩
  | term => exact ⟨hleft, hterm hoperator, hright⟩
  | factor => exact ⟨hleft, hfactor hoperator, hright⟩

theorem Expr.Derives.proper {level : Level} {ts : List Token} {e : Expr}
    (h : Expr.Derives level ts e) : e.Proper := by
  induction h with
  | chain hlevel _ hoperator _ ihleft ihright => exact hlevel.proper hoperator ihleft ihright
  | assign _ _ _ ih | expression _ ih | operand _ _ ih | prefixed _ _ ih | unary _ ih
  | grouping _ _ _ ih => exact ih
  | payload | true | false | nil | «variable» => trivial

theorem Stmt.allProper_append {ss ss' : List Stmt} :
    Stmt.AllProper (ss ++ ss') ↔ Stmt.AllProper ss ∧ Stmt.AllProper ss' := by
  induction ss with
  | nil => simp [Stmt.AllProper]
  | cons s ss ih => simp [Stmt.AllProper, ih, and_assoc]

theorem Stmt.DerivesVar.proper {ts : List Token} {s : Stmt} (h : Stmt.DerivesVar ts s) :
    s.Proper := by
  obtain ⟨-, -, -, h, -⟩ := h
  exact h.proper

theorem Stmt.DerivesExpression.proper {ts : List Token} {s : Stmt}
    (h : Stmt.DerivesExpression ts s) : s.Proper := by
  obtain ⟨h, -⟩ := h
  exact h.proper

theorem Expr.DerivesHeader.proper {kind : Token.Kind} {ts : List Token} {e : Expr}
    (h : Expr.DerivesHeader kind ts e) : e.Proper := by
  obtain ⟨-, -, h, -⟩ := h
  exact h.proper

theorem Stmt.DerivesInitial.proper {ts : List Token} {initial : Option Stmt}
    (h : Stmt.DerivesInitial ts initial) : Stmt.AllProper initial.toList := by
  cases h with
  | var h => exact ⟨h.proper, trivial⟩
  | expression h => exact ⟨h.proper, trivial⟩
  | absent => trivial

/-- The loop that a `for` statement stands for. -/
theorem Stmt.DerivesClauses.proper {ts : List Token} {initial : Option Stmt}
    {condition increment : Option Expr}
    (h : Stmt.DerivesClauses ts initial condition increment) {body : Stmt}
    (hbody : body.Proper) :
    Stmt.AllProper (initial.toList ++
      [.while (condition.getD (.literal (.bool true)))
        (.block (body :: (increment.map .expression).toList))]) := by
  obtain ⟨-, -, hinitial, hcondition, -, hincrement, -⟩ := h
  have hcondition' : (condition.getD (.literal (.bool true))).Proper := by
    cases hcondition with
    | absent => trivial
    | present h => exact h.proper
  have hincrement' : Stmt.AllProper (increment.map Stmt.expression).toList := by
    cases hincrement with
    | absent => trivial
    | present h => exact ⟨h.proper, trivial⟩
  exact Stmt.allProper_append.mpr
    ⟨hinitial.proper, ⟨hcondition', hbody, hincrement'⟩, trivial⟩

mutual

theorem Stmt.Derives.proper {rule : ElseRule} {canTake : Bool} {ts : List Token} {s : Stmt} :
    Stmt.Derives rule canTake ts s → s.Proper
  | .print _ h _ => h.proper
  | .var h => h.proper
  | .expression h => h.proper
  | .block _ h _ => h.proper
  | .ifThen hheader hconsequent => ⟨hheader.proper, hconsequent.proper⟩
  | .ifElse hheader hconsequent _ _ halternative =>
    ⟨hheader.proper, hconsequent.proper, halternative.proper⟩
  | .while hheader hbody => ⟨hheader.proper, hbody.proper⟩
  | .for hclauses hbody => hclauses.proper hbody.proper

theorem Stmt.DerivesAll.proper {rule : ElseRule} {ts : List Token} {ss : List Stmt} :
    Stmt.DerivesAll rule ts ss → Stmt.AllProper ss
  | .nil => trivial
  | .cons h hrest => ⟨h.proper, hrest.proper⟩

end

/-! ### Why proper trees stop -/

/-- A fault that a program can have: what it needs is not an expression,
a statement or an operator. -/
def Fault.Regular : Fault → Prop
  | .notExpression _ | .notStatement _ | .unknownOperator _ => False
  | _ => True

theorem Operator.regular_of_applyUnary {operator : Token} {v : Value} {fault : Fault}
    (h : Operator.applyUnary operator v = .error fault) : fault.Regular := by
  rw [Operator.applyUnary] at h
  split at h
  · cases h
  · cases v <;> cases h <;> trivial

theorem Operator.regular_of_applyNumeric {operator : Token} {v w : Value} {fault : Fault}
    (hoperator : operator.kind ∈ Operator.numeric)
    (h : Operator.applyNumeric operator v w = .error fault) : fault.Regular := by
  have hknown : ∀ kind ∈ Operator.numeric,
      (Operator.arithmetic? kind).isSome ∨ (Operator.comparison? kind).isSome := by decide
  rw [Operator.applyNumeric] at h
  cases hnumbers : Operator.numbers operator v w with
  | error fault' =>
    -- an operand that is no number is a fault that a program can have
    rw [hnumbers] at h
    cases h
    cases v <;> cases w <;> cases hnumbers <;> trivial
  | ok xy =>
    rw [hnumbers] at h
    simp only [bind, Except.bind] at h
    split at h
    · cases h
    · cases h
    -- neither table has the operator
    · next harithmetic hcomparison =>
      have := hknown _ hoperator
      simp [harithmetic, hcomparison] at this

theorem Operator.regular_of_applyBinary {operator : Token} {v w : Value} {fault : Fault}
    (hoperator : operator.kind ∈ Operator.numeric)
    (h : Operator.applyBinary operator v w = .error fault) : fault.Regular := by
  unfold Operator.applyBinary at h
  split at h
  -- a sum may also be one of texts
  · split at h
    · cases h
    · exact Operator.regular_of_applyNumeric hoperator h
    · cases h
      trivial
  · exact Operator.regular_of_applyNumeric hoperator h

theorem Chain.regular_of_get {name : Token} {c : Chain} {fault : Fault}
    (h : c.get name = .error fault) : fault.Regular := by
  rw [Chain.get] at h
  split at h <;> cases h
  trivial

theorem Chain.regular_of_assign {name : Token} {v : Value} {c : Chain} {fault : Fault}
    (h : c.assign name v = .error fault) : fault.Regular := by
  rw [Chain.assign] at h
  split at h <;> cases h
  trivial

theorem eval_fails : (e : Expr) → e.Proper → Fails Fault.Regular (eval e)
  | .literal _, _ => .pure _
  | .grouping e, h => eval_fails e h
  | .unary _ e, h =>
    .bind (eval_fails e h) fun _ => .lift fun _ => Operator.regular_of_applyUnary
  | .binary left _ right, ⟨hleft, hoperator, hright⟩ =>
    .bind (eval_fails left hleft) fun _ => .bind (eval_fails right hright) fun _ =>
      .lift fun _ => Operator.regular_of_applyBinary hoperator
  | .logical left _ right, ⟨hleft, hright⟩ => by
    refine .bind (eval_fails left hleft) fun v => ?_
    split
    · exact .pure v
    · exact eval_fails right hright
  | .variable _, _ => .bind (.get) fun c => .lift fun _ => Chain.regular_of_get
  | .assign name e, h => by
    refine .bind (eval_fails e h) fun v => .bind .get fun c => ?_
    exact .bind (.lift fun _ => Chain.regular_of_assign) fun d => .bind (.set d) fun _ => .pure v

mutual

theorem exec_fails (rounds : Nat) : (s : Stmt) → s.Proper → Fails Fault.Regular (exec rounds s)
  | .expression e, h => by
    rw [exec]
    exact .bind (evaluate_fails (eval_fails e h)) fun _ => .pure ()
  | .print keyword e, h => by
    rw [exec]
    refine .bind (evaluate_fails (eval_fails e h)) fun v => ?_
    split
    · exact .throw trivial
    · exact .update _
  | .var name e, h => by
    rw [exec]
    exact .bind (evaluate_fails (eval_fails e h)) fun v => .update _
  | .block body, h => by
    rw [exec]
    exact inScope_fails (execAll_fails rounds body h)
  | .ifThen condition consequent, ⟨hcondition, hconsequent⟩ => by
    rw [exec]
    refine .bind (evaluate_fails (eval_fails condition hcondition)) fun v => ?_
    split
    · exact exec_fails rounds consequent hconsequent
    · exact .pure ()
  | .ifElse condition consequent alternative, ⟨hcondition, hconsequent, halternative⟩ => by
    rw [exec]
    refine .bind (evaluate_fails (eval_fails condition hcondition)) fun v => ?_
    split
    · exact exec_fails rounds consequent hconsequent
    · exact exec_fails rounds alternative halternative
  | .while condition body, ⟨hcondition, hbody⟩ => by
    rw [exec]
    exact repeatWhile_fails trivial (evaluate_fails (eval_fails condition hcondition))
      (exec_fails rounds body hbody) rounds

theorem execAll_fails (rounds : Nat) :
    (ss : List Stmt) → Stmt.AllProper ss → Fails Fault.Regular (execAll rounds ss)
  | [], _ => by
    rw [execAll]
    exact .pure ()
  | s :: rest, ⟨hs, hrest⟩ => by
    rw [execAll]
    exact .bind (exec_fails rounds s hs) fun _ => execAll_fails rounds rest hrest

end

end LoxLang
