import LoxLang.Execution

/-!
# `LoxLang.Proofs.Execution.Grouping`: parentheses leave no trace

Parentheses decide how tokens are read. In the tree that is read they
remain as grouping nodes, and there they do nothing any more: without
them, at whatever depth they stand, a statement does the same.

* `Expr.ungrouped`, `Stmt.ungrouped`: a tree without its groupings;
* `Expr.Ungrouped`, `Stmt.Ungrouped`: a tree that has none;
* `eval_ungrouped`, `exec_ungrouped`: the same is evaluated and
  executed.
-/

set_option autoImplicit false

namespace LoxLang

/-! ### Trees without groupings -/

/-- An expression without its groupings. -/
def Expr.ungrouped : Expr → Expr
  | .literal v => .literal v
  | .grouping e => e.ungrouped
  | .unary operator e => .unary operator e.ungrouped
  | .binary left operator right => .binary left.ungrouped operator right.ungrouped
  | .logical left operator right => .logical left.ungrouped operator right.ungrouped
  | .variable name => .variable name
  | .assign name e => .assign name e.ungrouped
  | .alien what => .alien what

/-- No part of an expression is a grouping. -/
def Expr.Ungrouped : Expr → Prop
  | .grouping _ => False
  | .unary _ e | .assign _ e => e.Ungrouped
  | .binary left _ right | .logical left _ right => left.Ungrouped ∧ right.Ungrouped
  | .literal _ | .variable _ | .alien _ => True

mutual

/-- A statement without the groupings of its expressions. -/
def Stmt.ungrouped : Stmt → Stmt
  | .expression e => .expression e.ungrouped
  | .print keyword e => .print keyword e.ungrouped
  | .var name e => .var name e.ungrouped
  | .block body => .block (Stmt.allUngrouped body)
  | .ifThen condition consequent => .ifThen condition.ungrouped consequent.ungrouped
  | .ifElse condition consequent alternative =>
    .ifElse condition.ungrouped consequent.ungrouped alternative.ungrouped
  | .while condition body => .while condition.ungrouped body.ungrouped
  | .alien what => .alien what

/-- Statements without the groupings of their expressions. -/
def Stmt.allUngrouped : List Stmt → List Stmt
  | [] => []
  | s :: rest => s.ungrouped :: Stmt.allUngrouped rest

end

mutual

/-- No part of an expression in a statement is a grouping. -/
def Stmt.Ungrouped : Stmt → Prop
  | .expression e | .print _ e | .var _ e => e.Ungrouped
  | .block body => Stmt.AllUngrouped body
  | .ifThen condition consequent => condition.Ungrouped ∧ consequent.Ungrouped
  | .ifElse condition consequent alternative =>
    condition.Ungrouped ∧ consequent.Ungrouped ∧ alternative.Ungrouped
  | .while condition body => condition.Ungrouped ∧ body.Ungrouped
  | .alien _ => True

/-- No part of an expression in some statements is a grouping. -/
def Stmt.AllUngrouped : List Stmt → Prop
  | [] => True
  | s :: rest => s.Ungrouped ∧ Stmt.AllUngrouped rest

end

theorem Expr.ungrouped_ungrouped (e : Expr) : e.ungrouped.Ungrouped := by
  induction e with
  | literal | «variable» | alien => trivial
  | grouping _ ih | unary _ _ ih | assign _ _ ih => exact ih
  | binary _ _ _ ihleft ihright | logical _ _ _ ihleft ihright => exact ⟨ihleft, ihright⟩

mutual

theorem Stmt.ungrouped_ungrouped : (s : Stmt) → s.ungrouped.Ungrouped
  | .expression e | .print _ e | .var _ e => e.ungrouped_ungrouped
  | .block body => Stmt.allUngrouped_allUngrouped body
  | .ifThen condition consequent =>
    ⟨condition.ungrouped_ungrouped, consequent.ungrouped_ungrouped⟩
  | .ifElse condition consequent alternative =>
    ⟨condition.ungrouped_ungrouped, consequent.ungrouped_ungrouped,
      alternative.ungrouped_ungrouped⟩
  | .while condition body => ⟨condition.ungrouped_ungrouped, body.ungrouped_ungrouped⟩
  | .alien _ => trivial

theorem Stmt.allUngrouped_allUngrouped : (ss : List Stmt) → Stmt.AllUngrouped (Stmt.allUngrouped ss)
  | [] => trivial
  | s :: rest => ⟨s.ungrouped_ungrouped, Stmt.allUngrouped_allUngrouped rest⟩

end

/-! ### What they do -/

/-- A grouping has the value of what it encloses, and this at every
depth. -/
theorem eval_ungrouped (e : Expr) : eval e.ungrouped = eval e := by
  induction e with
  | literal | «variable» | alien => rfl
  | grouping e ih => rw [Expr.ungrouped, ih, eval.eq_def (.grouping e)]
  | unary operator e ih => simp only [Expr.ungrouped, eval, ih]
  | binary left operator right ihleft ihright =>
    simp only [Expr.ungrouped, eval, ihleft, ihright]
  | logical left operator right ihleft ihright =>
    simp only [Expr.ungrouped, eval, ihleft, ihright]
  | assign name e ih => simp only [Expr.ungrouped, eval, ih]

theorem evaluate_ungrouped (e : Expr) : evaluate e.ungrouped = evaluate e := by
  rw [evaluate, evaluate, eval_ungrouped]

mutual

/-- A statement does the same without its groupings. -/
theorem exec_ungrouped_eq (rounds : Nat) : (s : Stmt) → exec rounds s.ungrouped = exec rounds s
  | .expression e => by simp only [Stmt.ungrouped, exec, evaluate_ungrouped]
  | .print keyword e => by simp only [Stmt.ungrouped, exec, evaluate_ungrouped]
  | .var name e => by simp only [Stmt.ungrouped, exec, evaluate_ungrouped]
  | .block body => by simp only [Stmt.ungrouped, exec, execAll_allUngrouped rounds body]
  | .ifThen condition consequent => by
    simp only [Stmt.ungrouped, exec, evaluate_ungrouped, exec_ungrouped_eq rounds consequent]
  | .ifElse condition consequent alternative => by
    simp only [Stmt.ungrouped, exec, evaluate_ungrouped, exec_ungrouped_eq rounds consequent,
      exec_ungrouped_eq rounds alternative]
  | .while condition body => by
    simp only [Stmt.ungrouped, exec, evaluate_ungrouped, exec_ungrouped_eq rounds body]
  | .alien _ => rfl

theorem execAll_allUngrouped (rounds : Nat) :
    (ss : List Stmt) → execAll rounds (Stmt.allUngrouped ss) = execAll rounds ss
  | [] => rfl
  | s :: rest => by
    simp only [Stmt.allUngrouped, execAll, exec_ungrouped_eq rounds s,
      execAll_allUngrouped rounds rest]

end

/-- A tree without its groupings has none, and it does what the tree
does. A statement, however many rounds its loops are given, ends with
the same result, at the same token if it fails, and leaves the same
machine: the same text is printed, and each scope has the same bindings.
An expression has the same value and leaves the same scopes. -/
theorem exec_ungrouped (rounds : Nat) :
    (∀ (s : Stmt) (m : Machine),
      s.ungrouped.Ungrouped ∧
        (exec rounds s.ungrouped).run.run m = (exec rounds s).run.run m) ∧
      ∀ (e : Expr) (c : Chain),
        e.ungrouped.Ungrouped ∧ (eval e.ungrouped).run.run c = (eval e).run.run c := by
  constructor
  · intro s m
    rw [exec_ungrouped_eq]
    exact ⟨s.ungrouped_ungrouped, rfl⟩
  · intro e c
    rw [eval_ungrouped]
    exact ⟨e.ungrouped_ungrouped, rfl⟩

end LoxLang
