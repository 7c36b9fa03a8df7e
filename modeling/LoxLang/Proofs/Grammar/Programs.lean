import LoxLang.Proofs.Grammar.Statements

/-!
# `LoxLang.Proofs.Grammar.Programs`: programs are read as derived

The grammar leaves open which `if` an `else` belongs to, but the
tokens of a program do not depend on that: where one derivation gives
an `else` to some `if`, another one gives it to the nearest that can
take it (`Stmt.Derives.exists_nearest`). So the reader, which knows
the second kind only, accepts every program of the grammar.

* `Stmt.readAll_eq_ok_iff`: a text without an end is read exactly as
  derived;
* `program_derives`: a token list with its end is a program exactly if
  the grammar derives it, and its statements are the ones denoted when
  each `else` belongs to the nearest `if`.
-/

set_option autoImplicit false

namespace LoxLang

/-! ### Which `if` an `else` belongs to -/

mutual

/-- Giving each `else` to the nearest `if` is one of the ways to derive
a statement. -/
theorem Stmt.Derives.any {rule : ElseRule} {canTake : Bool} {ts : List Token} {s : Stmt} :
    Stmt.Derives rule canTake ts s → Stmt.Derives .any canTake ts s
  | .print hkeyword h hsemicolon => .print hkeyword h hsemicolon
  | .var h => .var h
  | .expression h => .expression h
  | .block hopening h hclosing => .block hopening h.any hclosing
  | .ifThen hheader hconsequent => .ifThen hheader hconsequent.any
  | .ifElse hheader hconsequent _ hkeyword halternative =>
    .ifElse hheader hconsequent.any trivial hkeyword halternative.any
  | .while hheader hbody => .while hheader hbody.any
  | .for hclauses hbody => .for hclauses hbody.any

theorem Stmt.DerivesAll.any {rule : ElseRule} {ts : List Token} {ss : List Stmt} :
    Stmt.DerivesAll rule ts ss → Stmt.DerivesAll .any ts ss
  | .nil => .nil
  | .cons h hrest => .cons h.any hrest.any

end

/-- An `if` among the tokens of a statement that can take an `else`
takes it with its alternative, and the whole is a statement again. -/
theorem Stmt.Derives.exists_else {ts us : List Token} {s alternative : Stmt}
    {keyword : Token} {canTake canTake' : Bool} (hkeyword : keyword.kind = .else)
    (halternative : Stmt.Derives .nearest canTake us alternative) :
    Stmt.Derives .nearest canTake' ts s → canTake' = true →
      ∃ canTake'' s', Stmt.Derives .nearest canTake'' (ts ++ keyword :: us) s'
  | .print .., h | .var .., h | .expression .., h | .block .., h => (Bool.false_ne_true h).elim
  -- no `if` in the consequent is open, so this one takes it
  | @Stmt.Derives.ifThen _ _ _ _ false _ hheader hconsequent, _ =>
    ⟨_, _, .ifElse hheader hconsequent rfl hkeyword halternative⟩
  | @Stmt.Derives.ifThen _ _ _ _ true _ hheader hconsequent, _ => by
    obtain ⟨_, _, h⟩ := Stmt.Derives.exists_else hkeyword halternative hconsequent rfl
    rw [List.append_assoc]
    exact ⟨_, _, .ifThen hheader h⟩
  | .ifElse hheader hconsequent hclosed hother halternative', hopen => by
    obtain ⟨_, _, h⟩ := Stmt.Derives.exists_else hkeyword halternative halternative' hopen
    rw [List.append_assoc, List.cons_append]
    exact ⟨_, _, .ifElse hheader hconsequent hclosed hother h⟩
  | .while hheader hbody, hopen => by
    obtain ⟨_, _, h⟩ := Stmt.Derives.exists_else hkeyword halternative hbody hopen
    rw [List.append_assoc]
    exact ⟨_, _, .while hheader h⟩
  | .for hclauses hbody, hopen => by
    obtain ⟨_, _, h⟩ := Stmt.Derives.exists_else hkeyword halternative hbody hopen
    rw [List.append_assoc]
    exact ⟨_, _, .for hclauses h⟩

mutual

/-- Tokens that denote a statement in some way denote one when each
`else` belongs to the nearest `if` that can take it. -/
theorem Stmt.Derives.exists_nearest {rule : ElseRule} {canTake : Bool} {ts : List Token}
    {s : Stmt} : Stmt.Derives rule canTake ts s →
      ∃ canTake' s', Stmt.Derives .nearest canTake' ts s'
  | .print hkeyword h hsemicolon => ⟨_, _, .print hkeyword h hsemicolon⟩
  | .var h => ⟨_, _, .var h⟩
  | .expression h => ⟨_, _, .expression h⟩
  | .block hopening h hclosing => by
    obtain ⟨_, hbody⟩ := h.exists_nearest
    exact ⟨_, _, .block hopening hbody hclosing⟩
  | .ifThen hheader hconsequent => by
    obtain ⟨_, _, h⟩ := hconsequent.exists_nearest
    exact ⟨_, _, .ifThen hheader h⟩
  | .ifElse hheader hconsequent _ hkeyword halternative => by
    obtain ⟨canTake', _, h⟩ := hconsequent.exists_nearest
    obtain ⟨_, _, h'⟩ := halternative.exists_nearest
    cases canTake' with
    | false => exact ⟨_, _, .ifElse hheader h rfl hkeyword h'⟩
    | true =>
      -- an `if` in the consequent is nearer, and the outer one is left without an `else`
      obtain ⟨_, _, hnearer⟩ := Stmt.Derives.exists_else hkeyword h' h rfl
      rw [List.append_assoc]
      exact ⟨_, _, .ifThen hheader hnearer⟩
  | .while hheader hbody => by
    obtain ⟨_, _, h⟩ := hbody.exists_nearest
    exact ⟨_, _, .while hheader h⟩
  | .for hclauses hbody => by
    obtain ⟨_, _, h⟩ := hbody.exists_nearest
    exact ⟨_, _, .for hclauses h⟩

theorem Stmt.DerivesAll.exists_nearest {rule : ElseRule} {ts : List Token}
    {ss : List Stmt} : Stmt.DerivesAll rule ts ss → ∃ ss', Stmt.DerivesAll .nearest ts ss'
  | .nil => ⟨_, .nil⟩
  | .cons h hrest => by
    obtain ⟨_, _, h⟩ := h.exists_nearest
    obtain ⟨_, hrest⟩ := hrest.exists_nearest
    exact ⟨_, .cons h hrest⟩

end

/-! ### Programs -/

theorem Stmt.derivesAll_of_readAll {ts : List Token} {ss : List Stmt}
    (hread : Stmt.readAll ts = .ok ss) : Stmt.DerivesAll .nearest ts ss := by
  cases ts with
  | nil =>
    rw [Stmt.readAll_nil] at hread
    cases hread
    exact .nil
  | cons t ts =>
    obtain ⟨first, rest, others, hfirst, hothers, rfl⟩ := Stmt.readAll_cons_eq_ok_iff.mp hread
    have := length_lt_of_plain hfirst
    obtain ⟨us, _, hts, hus, -⟩ := Stmt.derives_of_read hfirst
    rw [hts]
    exact .cons hus (Stmt.derivesAll_of_readAll hothers)
termination_by ts.length

theorem Stmt.DerivesAll.readAll_eq {ts : List Token} {ss : List Stmt} :
    Stmt.DerivesAll .nearest ts ss → Stmt.readAll ts = .ok ss
  | .nil => Stmt.readAll_nil
  | .cons h hrest => by
    have hread := h.plain_read _ fun _ => hrest.front?_else_nil
    have hothers := hrest.readAll_eq
    obtain ⟨t, us', rfl, -⟩ := h.exists_cons
    exact Stmt.readAll_cons_eq_ok_iff.mpr ⟨_, _, _, hread, hothers, rfl⟩

/-- Statements are read exactly as the grammar derives them when each
`else` belongs to the nearest `if`. -/
theorem Stmt.readAll_eq_ok_iff {ts : List Token} {ss : List Stmt} :
    Stmt.readAll ts = .ok ss ↔ Stmt.DerivesAll .nearest ts ss :=
  ⟨Stmt.derivesAll_of_readAll, Stmt.DerivesAll.readAll_eq⟩

theorem program_eq_ok_iff {tokens : List Token} {ss : List Stmt} :
    program tokens = .ok ss ↔ Stmt.readAll (bodyOf tokens) = .ok ss := by
  rw [program]
  cases Stmt.readAll (bodyOf tokens) with
  | ok ss' => constructor <;> rintro ⟨⟩ <;> rfl
  | error f => constructor <;> rintro ⟨⟩

/-- Tokens without an end belong to the body with what stands behind
them. -/
theorem bodyOf_append_of_forall {ts : List Token} (h : ∀ t ∈ ts, t.kind ≠ .eof)
    (rest : List Token) : bodyOf (ts ++ rest) = ts ++ bodyOf rest :=
  List.takeWhile_append_of_pos fun t ht => decide_eq_true (h t ht)

/-- Behind the body of a token list stands nothing or an end. -/
theorem exists_bodyOf_append (tokens : List Token) :
    ∃ rest, tokens = bodyOf tokens ++ rest ∧ bodyOf rest = [] := by
  refine ⟨tokens.dropWhile (·.kind ≠ .eof), List.takeWhile_append_dropWhile.symm, ?_⟩
  induction tokens with
  | nil => rfl
  | cons t tokens ih =>
    by_cases ht : t.kind = .eof
    · simp [bodyOf, ht]
    · simpa [List.dropWhile_cons, ht] using ih

/-- The only end of a token list stands behind its body. -/
theorem bodyOf_append {body : List Token} {eof : Token}
    (hbody : ∀ t ∈ body, t.kind ≠ .eof) (heof : eof.kind = .eof) :
    bodyOf (body ++ [eof]) = body := by
  rw [bodyOf_append_of_forall hbody]
  simp [bodyOf, heof]

/-- A token list with its end is a program exactly if the grammar
derives what stands in front of the end. Its statements are then those
that the derivation denotes in which each `else` belongs to the nearest
`if` that can still take it. -/
theorem program_derives (body : List Token) (eof : Token)
    (hbody : ∀ t ∈ body, t.kind ≠ .eof) (heof : eof.kind = .eof) :
    ((∃ ss, program (body ++ [eof]) = .ok ss) ↔ ∃ ss, Stmt.DerivesAll .any body ss) ∧
      ∀ ss, program (body ++ [eof]) = .ok ss ↔ Stmt.DerivesAll .nearest body ss := by
  have hread (ss : List Stmt) :
      program (body ++ [eof]) = .ok ss ↔ Stmt.DerivesAll .nearest body ss := by
    rw [program_eq_ok_iff, bodyOf_append hbody heof, Stmt.readAll_eq_ok_iff]
  refine ⟨⟨?_, ?_⟩, hread⟩
  · rintro ⟨ss, h⟩
    exact ⟨ss, ((hread ss).mp h).any⟩
  -- the tokens are a program under some derivation, and so under a nearest one
  · rintro ⟨ss, h⟩
    obtain ⟨ss', h'⟩ := h.exists_nearest
    exact ⟨ss', (hread ss').mpr h'⟩

/-- What no binary operator stands in is an expression. -/
theorem Expr.Derives.of_unary {ts : List Token} {e : Expr} (h : Expr.Derives .unary ts e) :
    Expr.Derives .expression ts e :=
  .expression (.operand .or (.operand .and (.operand .equality (.operand .comparison
    (.operand .term (.operand .factor h))))))

/-- What needs no operator is an expression. -/
theorem Expr.Derives.of_primary {ts : List Token} {e : Expr} (h : Expr.Derives .primary ts e) :
    Expr.Derives .expression ts e :=
  .of_unary (.unary h)

/-- A name alone is an expression. -/
theorem Expr.derives_variable {name : Token} (h : name.kind = .identifier) :
    Expr.Derives .expression [name] (.variable name) :=
  .of_primary (.variable h)

/-- The tokens of `if (a) if (b) c; else d;` in front of their end. -/
def danglingElse : List Token :=
  [(.if, "if"), (.leftParen, "("), (.identifier, "a"), (.rightParen, ")"),
   (.if, "if"), (.leftParen, "("), (.identifier, "b"), (.rightParen, ")"),
   (.identifier, "c"), (.semicolon, ";"), (.else, "else"),
   (.identifier, "d"), (.semicolon, ";")].map
    fun (kind, lexeme) => { kind, lexeme, line := 1 }

/-- The `else` of `if (a) if (b) c; else d;` belongs to the second
`if`. -/
theorem program_derives_danglingElse :
    (∀ t ∈ danglingElse, t.kind ≠ .eof) ∧ (endOf []).kind = .eof ∧
      program (danglingElse ++ [endOf []]) =
        .ok [.ifThen (.variable danglingElse[2]) (.ifElse (.variable danglingElse[6])
          (.expression (.variable danglingElse[8]))
          (.expression (.variable danglingElse[11])))] := by
  refine ⟨by decide, rfl, ((program_derives danglingElse (endOf []) (by decide) rfl).2 _).mpr ?_⟩
  have hstatement (name semicolon : Token) (hname : name.kind = .identifier)
      (hsemicolon : semicolon.kind = .semicolon) :
      Stmt.Derives .nearest false [name, semicolon] (.expression (.variable name)) :=
    .expression (.intro (Expr.derives_variable hname) hsemicolon)
  have hheader (keyword opening name closing : Token) (hkeyword : keyword.kind = .if)
      (hopening : opening.kind = .leftParen) (hname : name.kind = .identifier)
      (hclosing : closing.kind = .rightParen) :
      Expr.DerivesHeader .if [keyword, opening, name, closing] (.variable name) :=
    .intro hkeyword hopening (Expr.derives_variable hname) hclosing
  have hinner := Stmt.Derives.ifElse (hheader danglingElse[4] danglingElse[5] danglingElse[6]
    danglingElse[7] rfl rfl rfl rfl) (hstatement danglingElse[8] danglingElse[9] rfl rfl)
    rfl (rfl : danglingElse[10].kind = .else)
    (hstatement danglingElse[11] danglingElse[12] rfl rfl)
  exact .cons (.ifThen (hheader danglingElse[0] danglingElse[1] danglingElse[2]
    danglingElse[3] rfl rfl rfl rfl) hinner) .nil

end LoxLang
