import LoxLang.Proofs.Grammar.Correspondence
import LoxLang.Proofs.Grammar.Parts

/-!
# `LoxLang.Proofs.Grammar.ForLoops`: a `for` statement and its loop

A `for` statement is read as the block that it stands for. That block
can also be written out:

```text
for ( I C ; N ) S        is        { I while ( C ) { S N ; } }
```

A lone semicolon in place of `I` leaves nothing behind, an absent `C`
is `true`, and an absent `N` takes its semicolon along. Both ways to
write it are derived as the same tree (`ForLoop.Unfolds.derives`), and
so one may stand for the other wherever the statement stands, inside of
other statements too, whatever goes on behind it.

* `ForLoop.Unfolds`: the tokens of the statement and of the block;
* `ForLoop.exists_unfolds`: where a `for` is read, there is such a
  block;
* `program_for_unfolds`: every `for` in a program begins a statement,
  and the program is the same with its block.
-/

set_option autoImplicit false

namespace LoxLang

/-- The tokens of one statement. -/
theorem Stmt.Derives.single {rule : ElseRule} {canTake : Bool} {ts : List Token} {s : Stmt}
    (h : Stmt.Derives rule canTake ts s) : Stmt.DerivesAll rule ts [s] := by
  have hall := Stmt.DerivesAll.cons h .nil
  rwa [List.append_nil] at hall

/-! ### The tokens of the block -/

namespace ForLoop

/-- The tokens of the initializer, and those that stand for it in front
of the loop. -/
inductive Initial : List Token → List Token → Prop where
  | var {ts : List Token} {s : Stmt} (h : Stmt.DerivesVar ts s) : Initial ts ts
  | expression {ts : List Token} {s : Stmt} (h : Stmt.DerivesExpression ts s) : Initial ts ts
  | absent {semicolon : Token} (h : semicolon.kind = .semicolon) : Initial [semicolon] []

/-- The tokens of the condition, and those of the condition of the
loop. -/
inductive Condition : List Token → List Token → Prop where
  | present {ts : List Token} {e : Expr} (h : Expr.Derives .expression ts e) : Condition ts ts
  | absent {t : Token} (h : t.kind = .true) : Condition [] [t]

/-- The tokens of the increment, and those that stand for it at the end
of each round. -/
inductive Increment : List Token → List Token → Prop where
  | present {ts : List Token} {e : Expr} {semicolon : Token}
      (h : Expr.Derives .expression ts e) (hsemicolon : semicolon.kind = .semicolon) :
      Increment ts (ts ++ [semicolon])
  | absent : Increment [] []

/-- The tokens of a `for` statement in front of others, and the tokens
of the block that it stands for. The body is what is read as a statement
behind the clauses. -/
inductive Unfolds (behind : List Token) : List Token → List Token → Prop where
  | intro {keyword opening semicolon closing : Token}
      {blockOpening loop loopOpening loopClosing roundOpening roundClosing blockClosing : Token}
      {initial initial' condition condition' increment increment' body : List Token} {s : Stmt}
      (hkinds : [keyword, opening, semicolon, closing].map Token.kind =
        [.for, .leftParen, .semicolon, .rightParen])
      (hkinds' : [blockOpening, loop, loopOpening, loopClosing, roundOpening, roundClosing,
          blockClosing].map Token.kind =
        [.leftBrace, .while, .leftParen, .rightParen, .leftBrace, .rightBrace, .rightBrace])
      (hinitial : Initial initial initial') (hcondition : Condition condition condition')
      (hincrement : Increment increment increment')
      (hbody : plain Stmt.read (body ++ behind) = .ok (s, behind)) :
      Unfolds behind
        (keyword :: opening :: (initial ++ condition ++ semicolon :: (increment ++ [closing])) ++
          body)
        (blockOpening :: (initial' ++ (loop :: loopOpening :: (condition' ++ [loopClosing]) ++
          roundOpening :: (body ++ increment' ++ [roundClosing])) ++ [blockClosing]))

/-! ### The same tree -/

variable {behind ts us : List Token}

theorem Initial.derives (h : Initial ts us) :
    ∃ initial, Stmt.DerivesInitial ts initial ∧
      Stmt.DerivesAll .nearest us initial.toList := by
  cases h with
  | var h => exact ⟨some _, .var h, (Stmt.Derives.var h).single⟩
  | expression h => exact ⟨some _, .expression h, (Stmt.Derives.expression h).single⟩
  | absent h => exact ⟨none, .absent h, .nil⟩

theorem Condition.derives (h : Condition ts us) :
    ∃ condition, Expr.DerivesOptional ts condition ∧
      Expr.Derives .expression us (condition.getD (.literal (.bool true))) := by
  cases h with
  | present h => exact ⟨some _, .present h, h⟩
  | absent h => exact ⟨none, .absent, .of_primary (.true h)⟩

theorem Increment.derives (h : Increment ts us) :
    ∃ increment, Expr.DerivesOptional ts increment ∧
      Stmt.DerivesAll .nearest us (increment.map Stmt.expression).toList := by
  cases h with
  | present h hsemicolon =>
    exact ⟨some _, .present h, (Stmt.Derives.expression (.intro h hsemicolon)).single⟩
  | absent => exact ⟨none, .absent, .nil⟩

/-- Both ways to write the loop denote one tree, and an `if` in it that
could take an `else` finds none behind. -/
theorem Unfolds.derives (h : Unfolds behind ts us) :
    ∃ canTake s, Stmt.Derives .nearest canTake ts s ∧ Stmt.Derives .nearest false us s ∧
      (canTake = true → front? [.else] behind = none) := by
  obtain ⟨hkinds, hkinds', hinitial, hcondition, hincrement, hbody⟩ := h
  simp only [List.map_cons, List.map_nil, List.cons.injEq, and_true] at hkinds hkinds'
  obtain ⟨hkeyword, hopening, hsemicolon, hclosing⟩ := hkinds
  obtain ⟨hblock, hloop, hloopOpening, hloopClosing, hround, hroundClosing, hblockClosing⟩ :=
    hkinds'
  obtain ⟨initial, hinitial, hinitial'⟩ := hinitial.derives
  obtain ⟨condition, hcondition, hcondition'⟩ := hcondition.derives
  obtain ⟨increment, hincrement, hincrement'⟩ := hincrement.derives
  obtain ⟨taken, canTake, htaken, hbody, helse⟩ := Stmt.derives_of_read hbody
  obtain rfl := List.append_cancel_right htaken
  have hround := Stmt.Derives.block hround (.cons hbody hincrement') hroundClosing
  have hwhile := Stmt.Derives.while (.intro hloop hloopOpening hcondition' hloopClosing) hround
  have hwhole := hinitial'.append hwhile.single
  exact ⟨canTake, _,
    .for (.intro hkeyword hopening hinitial hcondition hsemicolon hincrement hclosing) hbody,
    .block hblock hwhole hblockClosing, helse⟩

theorem Unfolds.opens (h : Unfolds behind ts us) (rest : List Token) :
    Stmt.Opens (ts ++ rest) ∧ Stmt.Opens (us ++ rest) := by
  obtain ⟨hkinds, hkinds'⟩ := h
  simp only [List.map_cons, List.cons.injEq] at hkinds hkinds'
  refine ⟨⟨_, _, rfl, ?_⟩, ⟨_, _, rfl, ?_⟩⟩
  · rw [hkinds.1]
    decide
  · rw [hkinds'.1]
    decide

theorem Unfolds.plain_read (h : Unfolds behind ts us) :
    ∃ s, plain Stmt.read (ts ++ behind) = .ok (s, behind) ∧
      plain Stmt.read (us ++ behind) = .ok (s, behind) := by
  obtain ⟨canTake, s, hts, hus, helse⟩ := h.derives
  exact ⟨s, hts.plain_read behind helse, hus.plain_read behind (by simp)⟩

/-- Token lists correspond in which the statement stands in one place and
the block in the other. -/
def Unfolds.correspondence (h : Unfolds behind ts us) : Correspondence where
  change := id
  Site vs ws := vs = ts ++ behind ∧ ws = us ++ behind
  faithful := ⟨fun _ => rfl, fun _ => rfl⟩
  opens := by
    rintro _ _ ⟨rfl, rfl⟩
    exact h.opens behind
  alike := by
    rintro _ _ ⟨rfl, rfl⟩
    obtain ⟨s, hts, hus⟩ := h.plain_read
    refine ⟨s, behind, behind, hts, by rwa [Stmt.mapTokens_id], ?_⟩
    exact .refl behind

theorem Unfolds.along (h : Unfolds behind ts us) (before : List Token) :
    h.correspondence.Along (before ++ (ts ++ behind)) (before ++ (us ++ behind)) := by
  induction before with
  | nil => exact .site ⟨rfl, rfl⟩
  | cons t before ih => exact .cons t ih

theorem Unfolds.readAll_eq_ok (h : Unfolds behind ts us) (before : List Token)
    {ss : List Stmt} (hread : Stmt.readAll (before ++ (ts ++ behind)) = .ok ss) :
    Stmt.readAll (before ++ (us ++ behind)) = .ok ss := by
  have hus := Correspondence.readAll_eq_ok (h.along before) hread
  rwa [show h.correspondence.change = id from rfl, Stmt.mapAllTokens_id] at hus

/-- A statement is made of tokens that are no end. -/
theorem Unfolds.kind_ne_eof (h : Unfolds behind ts us) :
    (∀ t ∈ ts, t.kind ≠ .eof) ∧ ∀ t ∈ us, t.kind ≠ .eof := by
  obtain ⟨s, hts, hus⟩ := h.plain_read
  exact ⟨Stmt.kind_ne_eof_of_read hts, Stmt.kind_ne_eof_of_read hus⟩

end ForLoop

/-! ### In a program -/

namespace ForLoop

theorem Initial.exists_of_derives {ts : List Token} {initial : Option Stmt}
    (h : Stmt.DerivesInitial ts initial) : ∃ us, Initial ts us := by
  cases h with
  | var h => exact ⟨_, .var h⟩
  | expression h => exact ⟨_, .expression h⟩
  | absent h => exact ⟨_, .absent h⟩

theorem Condition.exists_of_derives {ts : List Token} {condition : Option Expr}
    (h : Expr.DerivesOptional ts condition) : ∃ us, Condition ts us := by
  cases h with
  | absent => exact ⟨[.ofKind .true], .absent rfl⟩
  | present h => exact ⟨_, .present h⟩

theorem Increment.exists_of_derives {ts : List Token} {increment : Option Expr}
    (h : Expr.DerivesOptional ts increment) : ∃ us, Increment ts us := by
  cases h with
  | absent => exact ⟨_, .absent⟩
  | present h =>
    have hsemicolon : (Token.ofKind .semicolon).kind = .semicolon := rfl
    exact ⟨_, .present h hsemicolon⟩

/-- Tokens for the parts of the block that the statement does not have. -/
theorem kinds_block :
    [Token.ofKind .leftBrace, .ofKind .while, .ofKind .leftParen, .ofKind .rightParen,
        .ofKind .leftBrace, .ofKind .rightBrace, .ofKind .rightBrace].map Token.kind =
      [.leftBrace, .while, .leftParen, .rightParen, .leftBrace, .rightBrace, .rightBrace] := rfl

/-- A `for` from which on a statement is read begins the tokens of one
that has a block in its place. -/
theorem exists_unfolds {keyword : Token} {behind rest : List Token} {s : Stmt}
    (hkeyword : keyword.kind = .for)
    (hread : plain Stmt.read (keyword :: behind) = .ok (s, rest)) :
    ∃ ts us, keyword :: behind = ts ++ rest ∧ Unfolds rest ts us := by
  rw [Stmt.plain_read, hkeyword] at hread
  obtain ⟨clauses, rest₁, hclauses, h⟩ := andThen_eq_ok_iff.mp
    ((Stmt.plain_readFor behind).symm.trans hread)
  obtain ⟨front, rfl, hfront⟩ := ForClauses.derives_of_read hkeyword hclauses
  obtain ⟨s', rest₂, hbody, hr⟩ := andThen_eq_ok_iff.mp h
  cases hr
  obtain ⟨body, -, rfl, -⟩ := Stmt.derives_of_read hbody
  -- each clause that was read has a form of its own in the block
  cases hfront with
  | @intro _ opening semicolon closing _ _ _ _ _ _ _ hopening hinitial hcondition hsemicolon
      hincrement hclosing =>
    have hkinds : [keyword, opening, semicolon, closing].map Token.kind =
        [.for, .leftParen, .semicolon, .rightParen] := by
      simp [hkeyword, hopening, hsemicolon, hclosing]
    obtain ⟨initial, hinitial⟩ := Initial.exists_of_derives hinitial
    obtain ⟨condition, hcondition⟩ := Condition.exists_of_derives hcondition
    obtain ⟨increment, hincrement⟩ := Increment.exists_of_derives hincrement
    exact ⟨_, _, by simp, .intro hkinds kinds_block hinitial hcondition hincrement hbody⟩

end ForLoop

theorem program_of_unfolds {before ts us rest : List Token} {ss : List Stmt}
    (hbefore : ∀ t ∈ before, t.kind ≠ .eof) (h : ForLoop.Unfolds (bodyOf rest) ts us)
    (hprogram : program (before ++ (ts ++ rest)) = .ok ss) :
    program (before ++ (us ++ rest)) = .ok ss := by
  rw [program_eq_ok_iff] at hprogram ⊢
  rw [bodyOf_append_of_forall hbefore, bodyOf_append_of_forall h.kind_ne_eof.1] at hprogram
  rw [bodyOf_append_of_forall hbefore, bodyOf_append_of_forall h.kind_ne_eof.2]
  exact h.readAll_eq_ok before hprogram

/-- Every `for` in a program, at any depth, begins the tokens of a
statement that has a block in its place. With the block in place of the
statement, whatever its clauses are, the program has the same
statements. -/
theorem program_for_unfolds {before behind : List Token} {keyword : Token} {ss : List Stmt}
    (hkeyword : keyword.kind = .for) (hbefore : ∀ t ∈ before, t.kind ≠ .eof)
    (hprogram : program (before ++ keyword :: behind) = .ok ss) :
    (∃ ts us rest, keyword :: behind = ts ++ rest ∧ ForLoop.Unfolds (bodyOf rest) ts us) ∧
      ∀ ts us rest, keyword :: behind = ts ++ rest → ForLoop.Unfolds (bodyOf rest) ts us →
        program (before ++ (us ++ rest)) = .ok ss := by
  constructor
  · have hnotEof : keyword.kind ≠ .eof := by rw [hkeyword]; decide
    have hfront : ∀ t ∈ [keyword], t.kind ≠ .eof := by simpa using hnotEof
    have hbody : bodyOf (keyword :: behind) = keyword :: bodyOf behind :=
      bodyOf_append_of_forall hfront behind
    rw [program_eq_ok_iff, bodyOf_append_of_forall hbefore, hbody] at hprogram
    obtain ⟨⟨s, rest⟩, hread⟩ := Stmt.reads_of_suffix_readAll
      (by rw [hkeyword]; decide) hprogram (List.suffix_append _ _)
    obtain ⟨ts, us, hts, h⟩ := ForLoop.exists_unfolds hkeyword hread
    -- behind the statement is the rest of the body, and behind that what is not looked at
    obtain ⟨tail, hbehind, htail⟩ := exists_bodyOf_append behind
    have hrest : bodyOf (rest ++ tail) = rest := by
      have hsuffix : rest <:+ keyword :: bodyOf behind := ⟨ts, hts.symm⟩
      have hkinds : ∀ t ∈ keyword :: bodyOf behind, t.kind ≠ .eof := by
        simpa [hnotEof] using fun t ht => kind_of_mem_bodyOf ht
      rw [bodyOf_append_of_forall (fun t ht => hkinds t (hsuffix.subset ht)), htail,
        List.append_nil]
    refine ⟨ts, us, rest ++ tail, ?_, by rwa [hrest]⟩
    calc keyword :: behind = (keyword :: bodyOf behind) ++ tail := by
          rw [List.cons_append, ← hbehind]
      _ = ts ++ (rest ++ tail) := by rw [hts, List.append_assoc]
  · intro ts us rest hts h
    rw [hts] at hprogram
    exact program_of_unfolds hbefore h hprogram

/-- The tokens of some kinds. -/
def Token.ofKinds (kinds : List Token.Kind) : List Token := kinds.map Token.ofKind

/-- The `for` of `if (a) for (; ; b) c; else d;` stands in front of an
`else`, and so does the block `{ while (true) { c; b; } }`. -/
theorem program_for_unfolds_else :
    let before := Token.ofKinds [.if, .leftParen, .identifier, .rightParen]
    let keyword := Token.ofKind .for
    let behind := Token.ofKinds [.leftParen, .semicolon, .semicolon, .identifier, .rightParen,
      .identifier, .semicolon, .else, .identifier, .semicolon, .eof]
    let block := Token.ofKinds [.leftBrace, .while, .leftParen, .true, .rightParen, .leftBrace,
      .identifier, .semicolon, .identifier, .semicolon, .rightBrace, .rightBrace]
    keyword.kind = .for ∧ (∀ t ∈ before, t.kind ≠ .eof) ∧
      ∃ ss, program (before ++ keyword :: behind) = .ok ss ∧
        program (before ++ (block ++ behind.drop 7)) = .ok ss := by
  intro before keyword behind block
  have hbefore : ∀ t ∈ before, t.kind ≠ .eof := by decide
  have hbody : plain Stmt.read (Token.ofKinds [.identifier, .semicolon] ++
      bodyOf (behind.drop 7)) = .ok (_, bodyOf (behind.drop 7)) :=
    Stmt.DerivesExpression.plain_read (.intro (Expr.derives_variable rfl) rfl)
  have hkinds : [keyword, .ofKind .leftParen, .ofKind .semicolon, .ofKind .rightParen].map
      Token.kind = [.for, .leftParen, .semicolon, .rightParen] := rfl
  have hinitial : ForLoop.Initial [.ofKind .semicolon] [] := .absent rfl
  have hcondition : ForLoop.Condition [] [.ofKind .true] := .absent rfl
  have hincrement : ForLoop.Increment [.ofKind .identifier]
      [.ofKind .identifier, .ofKind .semicolon] := .present (Expr.derives_variable rfl) rfl
  have hunfolds : ForLoop.Unfolds (bodyOf (behind.drop 7)) (keyword :: behind.take 7) block :=
    .intro hkinds ForLoop.kinds_block hinitial hcondition hincrement hbody
  have hok : (program (before ++ keyword :: behind)).toOption.isSome = true := by decide +kernel
  obtain ⟨ss, hss⟩ : ∃ ss, program (before ++ keyword :: behind) = .ok ss := by
    cases hprogram : program (before ++ keyword :: behind) with
    | ok ss => exact ⟨ss, rfl⟩
    | error m => rw [hprogram] at hok; cases hok
  exact ⟨rfl, hbefore, ss, hss,
    (program_for_unfolds rfl hbefore hss).2 _ _ (behind.drop 7) rfl hunfolds⟩

end LoxLang
