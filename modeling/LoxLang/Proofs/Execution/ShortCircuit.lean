import LoxLang.Proofs.Execution.Runs
import LoxLang.Proofs.Grammar.Failures
import LoxLang.Proofs.Grammar.Programs

/-!
# `LoxLang.Proofs.Execution.ShortCircuit`: which operand decides a chain

A chain of operands joined by `or` is read as a tree that nests to the
left, and evaluating the tree asks for the value of each inner part
again at every level around it. All the same, the chain does what one
would say of it without the tree: the operands are evaluated in order,
up to the first that fails or is truthy, or else up to the last, and the
chain ends as this operand does. For `and` it is the first that is not
truthy, and chains of both kinds may be mixed.

* `Tier.Joined`: operands of a tier, joined by its operators, with their
  tokens and their tree;
* `ShortCircuits`: how operands that are evaluated in order end;
* `ShortCircuits.logical`: one more operand at the end of a chain;
* `program_shortCircuits`: what a chain is read as, and how that
  evaluates.
-/

set_option autoImplicit false

namespace LoxLang

/-! ### Operands and chains -/

/-- An expression of a level, with the tokens that denote it. -/
structure Expr.Operand (level : Expr.Level) where
  tokens : List Token
  tree : Expr
  derives : Expr.Derives level tokens tree

/-- An operator of a tier with the operand behind it. -/
structure Tier.Link (tier : Tier) where
  operator : Token
  kind_mem : operator.kind ∈ tier.operators
  operand : Expr.Operand tier.operandLevel

namespace Tier.Link

variable {tier : Tier}

/-- The operator and the tokens of the operand. -/
def tokens (link : tier.Link) : List Token :=
  link.operator :: link.operand.tokens

/-- What stands on the left, joined with the operand. -/
def join (left : Expr) (link : tier.Link) : Expr :=
  tier.join left link.operator link.operand.tree

end Tier.Link

/-- Operands of a tier, joined by its operators. -/
structure Tier.Joined (tier : Tier) where
  first : Expr.Operand tier.operandLevel
  links : List tier.Link

namespace Tier.Joined

variable {tier : Tier}

/-- The operands in order. -/
def operands (joined : tier.Joined) : List (Expr.Operand tier.operandLevel) :=
  joined.first :: joined.links.map (·.operand)

/-- The tokens of the operands with the operators between them. -/
def tokens (joined : tier.Joined) : List Token :=
  joined.first.tokens ++ joined.links.flatMap (·.tokens)

/-- The tree, which nests to the left. -/
def tree (joined : tier.Joined) : Expr :=
  joined.links.foldl Tier.Link.join joined.first.tree

end Tier.Joined

/-- Operands behind a chain make a longer one of it. -/
theorem Tier.derives_links {tier : Tier} (links : List tier.Link) :
    ∀ {ts : List Token} {left : Expr}, Expr.Derives tier.level ts left →
      Expr.Derives tier.level (ts ++ links.flatMap (·.tokens))
        (links.foldl Tier.Link.join left) := by
  induction links with
  | nil =>
    intro ts left hleft
    simpa using hleft
  | cons link links ih =>
    intro ts left hleft
    have hnext : Expr.Derives tier.level (ts ++ link.tokens) (link.join left) :=
      .chain tier.chain hleft link.kind_mem link.operand.derives
    simpa using ih hnext

/-- The tokens of joined operands denote their tree. -/
theorem Tier.Joined.derives {tier : Tier} (joined : tier.Joined) :
    Expr.Derives tier.level joined.tokens joined.tree :=
  Tier.derives_links joined.links (.operand tier.chain joined.first.derives)

/-- Tokens denote at most one tree as a chain of a tier. -/
theorem Expr.Derives.unique_of_tier {tier : Tier} {ts : List Token} {e e' : Expr}
    (h : Expr.Derives tier.level ts e) (h' : Expr.Derives tier.level ts e') : e = e' := by
  have hends : tier.Ends [] := fun _ _ => rfl
  have hread {e : Expr} (h : Expr.Derives tier.level ts e) :
      plain (Expr.readTier tier) (ts ++ []) = .ok (e, []) :=
    (Tier.completes_level.mp h.completes [] hends.operandEnds).trans hends.plain_readChain
  cases (hread h).symm.trans (hread h')
  rfl

/-! ### How operands end -/

/-- A logical operation ends as its left operand, or goes on with its
right one. -/
theorem run_eval_logical (left right : Expr) (operator : Token) (c : Chain) :
    (eval (.logical left operator right)).run.run c =
      match (eval left).run.run c with
      | (.ok v, d) =>
        if v.isTruthy = true ↔ operator.kind = .or then (.ok v, d) else (eval right).run.run d
      | (.error f, d) => (.error f, d) := by
  rw [eval, run_bind]
  rcases (eval left).run.run c with ⟨f | v, d⟩
  · rfl
  · simp only [eq_iff_iff]
    split <;> rfl

/-- Where the left operand lets it, a logical operation ends as the right
one. -/
theorem run_eval_logical_right {left right : Expr} {operator : Token} {v : Value} {c d : Chain}
    (hleft : (eval left).run.run c = (.ok v, d))
    (hgoes : ¬ (v.isTruthy = true ↔ operator.kind = .or)) :
    (eval (.logical left operator right)).run.run c = (eval right).run.run d := by
  rw [run_eval_logical, hleft]
  exact if_neg hgoes

theorem run_eval_variable (name : Token) (c : Chain) :
    (eval (.variable name)).run.run c = (c.get name, c) := by
  rw [eval, run_bind, run_get]
  exact run_liftExcept (c.get name) c

/-- One more expression is evaluated behind others. -/
theorem run_mapM_eval_concat {es : List Expr} {e : Expr} {values : List Value} {v : Value}
    {c d d' : Chain} (hes : (es.mapM eval).run.run c = (.ok values, d))
    (he : (eval e).run.run d = (.ok v, d')) :
    ((es ++ [e]).mapM eval).run.run c = (.ok (values ++ [v]), d') := by
  simp only [List.mapM_append, List.mapM_cons, List.mapM_nil, bind_assoc, pure_bind, run_bind,
    hes, he, run_pure]

/-- How operands that are evaluated in order end: all in front of some
operand give values that do not stop, and this operand fails, gives a
value that stops, or is the last. The whole ends as it does, with the
chain that it leaves, and what stands behind it is not evaluated. -/
inductive ShortCircuits (stops : Value → Bool) (es : List Expr) (c : Chain) :
    Except Fault Value × Chain → Prop where
  | intro {before after : List Expr} {e : Expr} {values : List Value} {d : Chain}
      (hoperands : es = before ++ e :: after)
      (hbefore : (before.mapM eval).run.run c = (.ok values, d))
      (hpassed : ∀ v ∈ values, stops v = false)
      (hlast : after = [] ∨ ∀ v, ((eval e).run.run d).1 = .ok v → stops v = true) :
      ShortCircuits stops es c ((eval e).run.run d)

namespace ShortCircuits

variable {stops : Value → Bool} {c : Chain}

/-- One operand alone ends as it does. -/
theorem single (e : Expr) : ShortCircuits stops [e] c ((eval e).run.run c) := by
  have hbefore : (([] : List Expr).mapM eval).run.run c = (.ok [], c) := rfl
  exact .intro rfl hbefore (by simp) (.inl rfl)

/-- Where a left operand does what operands in order do, the logical
operation with one more on the right does what all of them do. -/
theorem logical {left right : Expr} {operator : Token} {es : List Expr}
    (hstops : ∀ v, stops v = true ↔ (v.isTruthy = true ↔ operator.kind = .or))
    (h : ShortCircuits stops es c ((eval left).run.run c)) :
    ShortCircuits stops (es ++ [right]) c
      ((eval (.logical left operator right)).run.run c) := by
  rw [run_eval_logical]
  -- the end of the left operand is that of some `e` of the operands
  generalize (eval left).run.run c = ending at h
  obtain @⟨before, after, e, values, d, rfl, hbefore, hpassed, hlast⟩ := h
  have hmore : before ++ e :: after ++ [right] = before ++ e :: (after ++ [right]) := by simp
  have hstopped (h : ∀ v, ((eval e).run.run d).1 = .ok v → stops v = true) :
      ShortCircuits stops (before ++ e :: after ++ [right]) c ((eval e).run.run d) :=
    .intro hmore hbefore hpassed (.inr h)
  rcases hend : (eval e).run.run d with ⟨f | v, d'⟩ <;> simp only [hend] at hstopped hlast ⊢
  · exact hstopped (by simp)
  · by_cases hv : stops v = true
    · rw [if_pos ((hstops v).mp hv)]
      exact hstopped (by simpa using hv)
    · rw [if_neg (mt (hstops v).mpr hv)]
      -- the value passed, so that of `e` was the last, and the right operand comes next
      have hafter : after = [] := by
        rcases hlast with hafter | hlast
        · exact hafter
        · exact absurd (hlast v rfl) hv
      subst hafter
      refine .intro rfl (run_mapM_eval_concat hbefore hend) ?_ (.inl rfl)
      simpa [hv, or_imp, forall_and] using hpassed

/-- Any number of operands behind one that does what operands in order
do. -/
theorem links {tier : Tier} (hjoin : tier.join = .logical)
    (hstops : ∀ kind ∈ tier.operators, ∀ v,
      stops v = true ↔ (v.isTruthy = true ↔ kind = .or)) (links : List tier.Link) :
    ∀ {es : List Expr} {left : Expr}, ShortCircuits stops es c ((eval left).run.run c) →
      ShortCircuits stops (es ++ links.map (·.operand.tree)) c
        ((eval (links.foldl Tier.Link.join left)).run.run c) := by
  induction links with
  | nil =>
    intro es left hleft
    simpa using hleft
  | cons link links ih =>
    intro es left hleft
    have hnext : ShortCircuits stops (es ++ [link.operand.tree]) c
        ((eval (link.join left)).run.run c) := by
      rw [Tier.Link.join, hjoin]
      exact hleft.logical (hstops _ link.kind_mem)
    simpa using ih hnext

end ShortCircuits

/-- Joined operands do what operands in order do. -/
theorem Tier.Joined.shortCircuits {tier : Tier} (joined : tier.Joined) {stops : Value → Bool}
    (hjoin : tier.join = .logical) (hstops : ∀ kind ∈ tier.operators, ∀ v,
      stops v = true ↔ (v.isTruthy = true ↔ kind = .or)) (c : Chain) :
    ShortCircuits stops (joined.operands.map (·.tree)) c ((eval joined.tree).run.run c) := by
  have hfirst : ShortCircuits stops [joined.first.tree] c
      ((eval joined.first.tree).run.run c) := .single joined.first.tree
  simpa [operands, tree, Function.comp_def] using hfirst.links hjoin hstops joined.links

/-- A chain of `or` stops at a truthy operand. -/
theorem Tier.Joined.shortCircuits_or (joined : Tier.Joined .or) (c : Chain) :
    ShortCircuits (fun v => v.isTruthy) (joined.operands.map (·.tree)) c
      ((eval joined.tree).run.run c) :=
  joined.shortCircuits rfl (by simp [Tier.operators]) c

/-- A chain of `and` stops at an operand that is not truthy. -/
theorem Tier.Joined.shortCircuits_and (joined : Tier.Joined .and) (c : Chain) :
    ShortCircuits (fun v => !v.isTruthy) (joined.operands.map (·.tree)) c
      ((eval joined.tree).run.run c) :=
  joined.shortCircuits rfl (by simp [Tier.operators]) c

/-! ### In a program -/

/-- An expression with a semicolon and the end behind it is a program. -/
theorem Expr.Derives.program_eq {ts : List Token} {e : Expr} {semicolon eof : Token}
    (h : Expr.Derives .expression ts e) (hsemicolon : semicolon.kind = .semicolon)
    (heof : eof.kind = .eof) : program (ts ++ [semicolon, eof]) = .ok [.expression e] := by
  have hstatement : Stmt.DerivesExpression (ts ++ [semicolon]) (.expression e) :=
    .intro h hsemicolon
  have hread : plain Stmt.read (ts ++ [semicolon] ++ []) = .ok (.expression e, []) :=
    hstatement.plain_read
  have hbody : bodyOf (ts ++ [semicolon] ++ [eof]) = ts ++ [semicolon] :=
    bodyOf_append (Stmt.kind_ne_eof_of_read hread) heof
  rw [List.append_assoc, List.singleton_append] at hbody
  have hall : Stmt.DerivesAll .nearest (ts ++ [semicolon] ++ []) [.expression e] :=
    .cons (.expression hstatement) .nil
  rw [List.append_nil] at hall
  rw [program_eq_ok_iff, Stmt.readAll_eq_ok_iff, hbody]
  exact hall

/-- Operands joined by `or` are read as one tree, and evaluating it
evaluates them in order, up to the first that fails or is truthy, or
else to the last, and ends as this one does. Operands joined by `and`
likewise stop at the first that is not truthy, also where they are an
operand of `or` themselves. -/
theorem program_shortCircuits {semicolon eof : Token}
    (hsemicolon : semicolon.kind = .semicolon) (heof : eof.kind = .eof) :
    (∀ joined : Tier.Joined .or,
      program (joined.tokens ++ [semicolon, eof]) = .ok [.expression joined.tree] ∧
        ∀ c, ShortCircuits (fun v => v.isTruthy) (joined.operands.map (·.tree)) c
          ((eval joined.tree).run.run c)) ∧
    (∀ joined : Tier.Joined .and,
      program (joined.tokens ++ [semicolon, eof]) = .ok [.expression joined.tree] ∧
        ∀ c, ShortCircuits (fun v => !v.isTruthy) (joined.operands.map (·.tree)) c
          ((eval joined.tree).run.run c)) ∧
    ∀ joined : Tier.Joined .or, ∀ operand ∈ joined.operands, ∀ inner : Tier.Joined .and,
      inner.tokens = operand.tokens →
        ∀ c, ShortCircuits (fun v => !v.isTruthy) (inner.operands.map (·.tree)) c
          ((eval operand.tree).run.run c) := by
  refine ⟨?_, ?_, ?_⟩
  · intro joined
    exact ⟨joined.derives.expression.program_eq hsemicolon heof, joined.shortCircuits_or⟩
  · intro joined
    have hor : Expr.Derives .or joined.tokens joined.tree := .operand .or joined.derives
    exact ⟨hor.expression.program_eq hsemicolon heof, joined.shortCircuits_and⟩
  · intro joined operand _ inner htokens c
    -- the tokens of the operand have one tree only
    have hinner := inner.derives
    rw [htokens] at hinner
    rw [← Expr.Derives.unique_of_tier hinner operand.derives]
    exact inner.shortCircuits_and c

/-- In `(x = nil) or x and y or z or w;`, where only `x` is bound, the
first operand assigns `x` and is nil. So `x and y` is nil too, and `y`
is skipped. Then `z` fails, and `w` is skipped. -/
theorem program_shortCircuits_mixed :
    let x : Token := { kind := .identifier, lexeme := "x", line := 1 }
    let y : Token := { kind := .identifier, lexeme := "y", line := 1 }
    let z : Token := { kind := .identifier, lexeme := "z", line := 1 }
    let w : Token := { kind := .identifier, lexeme := "w", line := 1 }
    let or := Token.ofKind .or
    let and := Token.ofKind .and
    let assignment : Expr := .grouping (.assign x (.literal .nil))
    let conjunction : Expr := .logical (.variable x) and (.variable y)
    let tree : Expr :=
      .logical (.logical (.logical assignment or conjunction) or (.variable z)) or (.variable w)
    let c : Chain := Chain.define "x" (.bool true) {}
    program [.ofKind .leftParen, x, .ofKind .equal, .ofKind .nil, .ofKind .rightParen, or,
        x, and, y, or, z, or, w, .ofKind .semicolon, endOf []] = .ok [.expression tree] ∧
      ShortCircuits (fun v => v.isTruthy) [assignment, conjunction, .variable z, .variable w] c
        ((eval tree).run.run c) ∧
      (∀ d, ShortCircuits (fun v => !v.isTruthy) [.variable x, .variable y] d
        ((eval conjunction).run.run d)) ∧
      (eval assignment).run.run c = (.ok .nil, c.define "x" .nil) ∧
      (eval conjunction).run.run (c.define "x" .nil) = (.ok .nil, c.define "x" .nil) ∧
      (eval tree).run.run c = (.error (.undefined z), c.define "x" .nil) := by
  intro x y z w or and assignment conjunction tree c
  have hprimary {ts : List Token} {e : Expr} (h : Expr.Derives .primary ts e) :
      Expr.Derives .equality ts e :=
    .operand .equality (.operand .comparison (.operand .term (.operand .factor (.unary h))))
  have hassignment : Expr.Derives .expression [x, .ofKind .equal, .ofKind .nil]
      (.assign x (.literal .nil)) := .assign rfl rfl (.of_primary (.nil rfl))
  have hgrouping : Expr.Derives .primary
      [.ofKind .leftParen, x, .ofKind .equal, .ofKind .nil, .ofKind .rightParen] assignment :=
    .grouping rfl hassignment rfl
  let name (t : Token) (h : t.kind = .identifier) : Expr.Operand .equality :=
    ⟨[t], .variable t, hprimary (.variable h)⟩
  let inner : Tier.Joined .and := ⟨name x rfl, [⟨and, by decide, name y rfl⟩]⟩
  let first : Expr.Operand .and := ⟨_, assignment, .operand .and (hprimary hgrouping)⟩
  let second : Expr.Operand .and := ⟨inner.tokens, inner.tree, inner.derives⟩
  let third : Expr.Operand .and := ⟨[z], .variable z, .operand .and (name z rfl).derives⟩
  let fourth : Expr.Operand .and := ⟨[w], .variable w, .operand .and (name w rfl).derives⟩
  let whole : Tier.Joined .or :=
    ⟨first, [⟨or, by decide, second⟩, ⟨or, by decide, third⟩, ⟨or, by decide, fourth⟩]⟩
  have hsemicolon : (Token.ofKind .semicolon).kind = .semicolon := rfl
  have heof : (endOf []).kind = .eof := rfl
  obtain ⟨hor, -, hboth⟩ := program_shortCircuits hsemicolon heof
  have hsecond : second ∈ whole.operands := List.mem_cons_of_mem first List.mem_cons_self
  have hbound : "x" ∈ c.scope := Std.TreeMap.mem_insert_self
  have hx : (c.define "x" .nil).get x = .ok .nil := by
    simp [x, Chain.get, Chain.get?, Chain.scopes, Chain.define]
  have hz : (c.define "x" .nil).get z = .error (.undefined z) := by
    simp [z, c, Chain.get, Chain.get?, Chain.scopes, Chain.define]
  have hassigned : (eval assignment).run.run c = (.ok .nil, c.define "x" .nil) := by
    have hassign : c.assign x .nil = .ok (c.define "x" .nil) := by
      rw [Chain.assign, Chain.assign?, if_pos hbound]
    simp only [assignment, eval, run_bind, run_pure, run_get, run_set, run_liftExcept, hassign]
  have hstopped : (eval conjunction).run.run (c.define "x" .nil) =
      (.ok .nil, c.define "x" .nil) := by
    rw [run_eval_logical, run_eval_variable, hx]
    rfl
  have hfailed : (eval tree).run.run c = (.error (.undefined z), c.define "x" .nil) := by
    -- the values of the first two operands pass, and the third one ends the chain
    have hgoes : ¬ (Value.nil.isTruthy = true ↔ or.kind = .or) := by decide
    have hpassed : (eval (.logical assignment or conjunction)).run.run c =
        (.ok .nil, c.define "x" .nil) :=
      (run_eval_logical_right hassigned hgoes).trans hstopped
    rw [run_eval_logical, run_eval_logical_right hpassed hgoes, run_eval_variable, hz]
  exact ⟨(hor whole).1, (hor whole).2 c, hboth whole second hsecond inner rfl, hassigned,
    hstopped, hfailed⟩

end LoxLang
