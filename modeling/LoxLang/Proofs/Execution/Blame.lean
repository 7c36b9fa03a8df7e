import LoxLang.Proofs.Execution.Proper
import LoxLang.Proofs.Grammar.TreeTokens

/-!
# `LoxLang.Proofs.Execution.Blame`: which token a fault is about

A fault of a program is about one token, and its error takes the place
and the lexeme of that token. However deep in a tree something fails,
and in whichever round of a loop, the token is one that the tree keeps.

* `Fault.token?`: the token that a fault is about;
* `eval_blames`, `exec_blames`: it is one of the tokens of the tree.
-/

set_option autoImplicit false

namespace LoxLang

/-! ### Faults and their tokens -/

/-- The token that a fault of a program is about. -/
def Fault.token? : Fault → Option Token
  | .undefined name | .unassignable name => some name
  | .operand operator _ | .operands operator _ _ | .addends operator _ _ => some operator
  | .printsNil keyword => some keyword
  | .notExpression _ | .notStatement _ | .unknownOperator _ | .outOfRounds => none

/-- A fault that a program can have is about a token, unless a loop is
cut off. -/
theorem Fault.Regular.token? {fault : Fault} (h : fault.Regular) :
    fault = .outOfRounds ∨ ∃ t, fault.token? = some t := by
  cases fault with
  | outOfRounds => exact .inl rfl
  | notExpression | notStatement | unknownOperator => exact h.elim
  | _ => exact .inr ⟨_, rfl⟩

/-- An error is about a token: it shows the lexeme and asks for a
diagnosis at the place of the token. -/
structure Error.IsAbout (e : Error) (t : Token) : Prop where
  line : e.line = some t.line
  column : e.column = t.column
  snippet : e.snippet = t.lexeme
  asked : e.internal = false ∧ e.diagnosis = true

theorem Fault.isAbout {fault : Fault} {t : Token} (h : fault.token? = some t) :
    fault.error.IsAbout t ∧ fault.error.cause = .execution (some t) := by
  cases fault <;> cases h <;> exact ⟨⟨rfl, rfl, rfl, rfl, rfl⟩, rfl⟩

/-- A token that is found where something else is expected is named by
its lexeme, if it has one. -/
theorem Misplaced.isAbout {m : Misplaced} (h : m.found.lexeme ≠ "") :
    m.error.IsAbout m.found := by
  rw [Misplaced.error, Misplaced.draft, Error.Draft.expected, if_neg h]
  exact ⟨rfl, rfl, rfl, rfl, rfl⟩

/-! ### Faults of trees -/

/-- A fault is about one of some tokens, or about none at all. -/
def Fault.Blames (ts : List Token) (fault : Fault) : Prop :=
  ∀ t, fault.token? = some t → t ∈ ts

variable {ts : List Token} {operator name : Token} {v w : Value} {c : Chain} {fault : Fault}

theorem Fault.blames_of_none (h : fault.token? = none) : fault.Blames ts := by
  simp [Fault.Blames, h]

theorem Fault.blames_of_mem {t : Token} (h : fault.token? = some t) (hmem : t ∈ ts) :
    fault.Blames ts := by
  simp [Fault.Blames, h, hmem]

theorem Operator.blames_of_applyUnary (hmem : operator ∈ ts)
    (h : Operator.applyUnary operator v = .error fault) : fault.Blames ts := by
  rw [Operator.applyUnary] at h
  split at h
  · cases h
  · cases v <;> cases h <;> exact Fault.blames_of_mem rfl hmem

theorem Operator.blames_of_applyNumeric (hmem : operator ∈ ts)
    (h : Operator.applyNumeric operator v w = .error fault) : fault.Blames ts := by
  rw [Operator.applyNumeric] at h
  cases hnumbers : Operator.numbers operator v w with
  | error fault' =>
    rw [hnumbers] at h
    cases h
    cases v <;> cases w <;> cases hnumbers <;> exact Fault.blames_of_mem rfl hmem
  | ok xy =>
    rw [hnumbers] at h
    simp only [bind, Except.bind] at h
    split at h <;> cases h
    exact Fault.blames_of_none rfl

theorem Operator.blames_of_applyBinary (hmem : operator ∈ ts)
    (h : Operator.applyBinary operator v w = .error fault) : fault.Blames ts := by
  unfold Operator.applyBinary at h
  split at h
  · split at h
    · cases h
    · exact Operator.blames_of_applyNumeric hmem h
    · cases h
      exact Fault.blames_of_mem rfl hmem
  · exact Operator.blames_of_applyNumeric hmem h

theorem Chain.blames_of_get (hmem : name ∈ ts) (h : c.get name = .error fault) :
    fault.Blames ts := by
  rw [Chain.get] at h
  split at h <;> cases h
  exact Fault.blames_of_mem rfl hmem

theorem Chain.blames_of_assign (hmem : name ∈ ts) (h : c.assign name v = .error fault) :
    fault.Blames ts := by
  rw [Chain.assign] at h
  split at h <;> cases h
  exact Fault.blames_of_mem rfl hmem

/-- An expression fails at one of its tokens. -/
theorem eval_blames : (e : Expr) → e.tokens ⊆ ts → Fails (Fault.Blames ts) (eval e)
  | .literal _, _ => .pure _
  | .grouping e, h => eval_blames e h
  | .unary _ e, h => by
    obtain ⟨hoperator, he⟩ := List.cons_subset.mp h
    exact .bind (eval_blames e he) fun _ => .lift fun _ => Operator.blames_of_applyUnary hoperator
  | .binary left _ right, h => by
    obtain ⟨hleft, hbehind⟩ := List.append_subset.mp h
    obtain ⟨hoperator, hright⟩ := List.cons_subset.mp hbehind
    exact .bind (eval_blames left hleft) fun _ => .bind (eval_blames right hright) fun _ =>
      .lift fun _ => Operator.blames_of_applyBinary hoperator
  | .logical left _ right, h => by
    obtain ⟨hleft, hbehind⟩ := List.append_subset.mp h
    refine .bind (eval_blames left hleft) fun v => ?_
    split
    · exact .pure v
    · exact eval_blames right (List.subset_of_cons_subset hbehind)
  | .variable _, h =>
    .bind .get fun _ => .lift fun _ => Chain.blames_of_get (h List.mem_cons_self)
  | .assign _ e, h => by
    obtain ⟨hname, he⟩ := List.cons_subset.mp h
    refine .bind (eval_blames e he) fun v => .bind .get fun c => ?_
    exact .bind (.lift fun _ => Chain.blames_of_assign hname) fun d =>
      .bind (.set d) fun _ => .pure v
  | .alien _, _ => .throw (Fault.blames_of_none rfl)

mutual

/-- A statement fails at one of its tokens. -/
theorem exec_blames (rounds : Nat) :
    (s : Stmt) → s.tokens ⊆ ts → Fails (Fault.Blames ts) (exec rounds s)
  | .expression e, h => by
    rw [exec]
    exact .bind (evaluate_fails (eval_blames e h)) fun _ => .pure ()
  | .print keyword e, h => by
    obtain ⟨hkeyword, he⟩ := List.cons_subset.mp h
    rw [exec]
    refine .bind (evaluate_fails (eval_blames e he)) fun v => ?_
    split
    · exact .throw (Fault.blames_of_mem rfl hkeyword)
    · exact .update _
  | .var name e, h => by
    rw [exec]
    exact .bind (evaluate_fails (eval_blames e (List.subset_of_cons_subset h))) fun v => .update _
  | .block body, h => by
    rw [exec]
    exact inScope_fails (execAll_blames rounds body h)
  | .ifThen condition consequent, h => by
    obtain ⟨hcondition, hconsequent⟩ := List.append_subset.mp h
    rw [exec]
    refine .bind (evaluate_fails (eval_blames condition hcondition)) fun v => ?_
    split
    · exact exec_blames rounds consequent hconsequent
    · exact .pure ()
  | .ifElse condition consequent alternative, h => by
    obtain ⟨hcondition, hbranches⟩ := List.append_subset.mp h
    obtain ⟨hconsequent, halternative⟩ := List.append_subset.mp hbranches
    rw [exec]
    refine .bind (evaluate_fails (eval_blames condition hcondition)) fun v => ?_
    split
    · exact exec_blames rounds consequent hconsequent
    · exact exec_blames rounds alternative halternative
  | .while condition body, h => by
    obtain ⟨hcondition, hbody⟩ := List.append_subset.mp h
    rw [exec]
    exact repeatWhile_fails (Fault.blames_of_none rfl)
      (evaluate_fails (eval_blames condition hcondition)) (exec_blames rounds body hbody) rounds
  | .alien _, _ => .throw (Fault.blames_of_none rfl)

theorem execAll_blames (rounds : Nat) :
    (ss : List Stmt) → Stmt.allTokens ss ⊆ ts → Fails (Fault.Blames ts) (execAll rounds ss)
  | [], _ => by
    rw [execAll]
    exact .pure ()
  | s :: rest, h => by
    obtain ⟨hs, hrest⟩ := List.append_subset.mp h
    rw [execAll]
    exact .bind (exec_blames rounds s hs) fun _ => execAll_blames rounds rest hrest

end

end LoxLang
