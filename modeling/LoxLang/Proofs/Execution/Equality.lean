import LoxLang.Proofs.Execution.Runs

/-!
# `LoxLang.Proofs.Execution.Equality`: what `==` and `!=` compare

Values of every kind can be compared (`Value.same`), but a program can
only compare numbers: other operands of `==` and `!=` are a fault. Where
it does compare, the one operator gives what `Value.same` says, and the
other the opposite.

* `Value.kind_eq_of_same`: values of different kinds are not equal;
* `run_eval_equality`: what an equality evaluates to.
-/

set_option autoImplicit false

namespace LoxLang

theorem Value.kind_eq_of_same {v w : Value} (h : v.same w = true) : v.kind = w.kind := by
  cases v <;> cases w <;> first | rfl | cases h

/-- The kind of `==`, or that of `!=`. -/
def Operator.equality (negated : Bool) : Token.Kind :=
  if negated then .bangEqual else .equalEqual

/-- An equality of two values: two numbers are the same or not, and other
values are a fault. -/
def Operator.equalityOf (operator : Token) (negated : Bool) (v w : Value) : Except Fault Value :=
  if v.kind = .number ∧ w.kind = .number then .ok (.bool (v.same w != negated))
  else .error (.operands operator v.kind w.kind)

theorem Operator.applyBinary_equality {operator : Token} {negated : Bool}
    (h : operator.kind = Operator.equality negated) (v w : Value) :
    Operator.applyBinary operator v w = Operator.equalityOf operator negated v w := by
  have hplus : operator.kind ≠ .plus := by
    rw [h]
    cases negated <;> decide
  unfold applyBinary
  rw [if_neg hplus, applyNumeric, equalityOf]
  cases v <;> cases w <;> try rfl
  -- two numbers, which the table of the operator compares
  simp only [numbers, bind, Except.bind, h]
  cases negated
  · simp [equality, arithmetic?, comparison?, Value.kind, Value.same]
    rfl
  · simp [equality, arithmetic?, comparison?, Value.kind, Value.same, bne]
    rfl

/-- An equality evaluates to what its operands have to say, if they have
values. -/
theorem run_eval_equality {left right : Expr} {operator : Token} {negated : Bool} {v w : Value}
    {c d d' : Chain} (h : operator.kind = Operator.equality negated)
    (hleft : (eval left).run.run c = (.ok v, d)) (hright : (eval right).run.run d = (.ok w, d')) :
    (eval (.binary left operator right)).run.run c =
      (Operator.equalityOf operator negated v w, d') := by
  rw [eval, run_bind, hleft]
  simp only [run_bind, hright, run_liftExcept, Operator.applyBinary_equality h]

end LoxLang
