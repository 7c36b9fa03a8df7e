import LoxLang.Proofs.Grammar.Failures
import LoxLang.Proofs.Grammar.TreeTokens

/-!
# `LoxLang.Proofs.Grammar.Correspondence`: token lists that are read alike

All that a reader asks of a token is its kind, and a literal takes its
payload. So two token lists are read alike if one of them has the
tokens of the other, changed in other ways. They are read alike too if
a statement in one of them is written in other tokens in the other: no
reader but the one of statements looks into a statement that begins
with a keyword or a brace.

* `Correspondence`: a change of tokens and the places where two
  statements of the same tree stand;
* `Correspondence.Along`: the lists that correspond;
* `Correspondence.Answers`: what is read from them, or why reading
  stops, corresponds as well. There is one lemma for each reader;
* `program_map`, `program_map_error`: programs with other tokens.
-/

set_option autoImplicit false

namespace LoxLang

/-! ### Changing the tokens of trees -/

section Changes

variable {f : Token → Token}

theorem Tier.mapTokens_join (tier : Tier) (left : Expr) (operator : Token) (right : Expr) :
    (tier.join left operator right).mapTokens f =
      tier.join (left.mapTokens f) (f operator) (right.mapTokens f) := by
  cases tier <;> rfl

theorem Expr.ofToken?_change (hf : Token.Faithful f) (t : Token) :
    Expr.ofToken? (f t) = (Expr.ofToken? t).map (Expr.mapTokens f) := by
  rw [Expr.ofToken?, Expr.ofToken?, hf.kind, hf.payload]
  split <;> rfl

/-- The clauses of a `for` statement with their tokens changed. -/
def ForClauses.mapTokens (f : Token → Token) (clauses : ForClauses) : ForClauses :=
  ⟨clauses.initial.map (Stmt.mapTokens f), clauses.condition.map (Expr.mapTokens f),
    clauses.increment.map (Expr.mapTokens f)⟩

theorem Stmt.mapTokens_forLoop (initial : Option Stmt) (condition increment : Option Expr)
    (body : Stmt) :
    (Stmt.forLoop initial condition increment body).mapTokens f =
      Stmt.forLoop (initial.map (Stmt.mapTokens f)) (condition.map (Expr.mapTokens f))
        (increment.map (Expr.mapTokens f)) (body.mapTokens f) := by
  cases initial <;> cases condition <;> cases increment <;> rfl

end Changes

/-! ### Reading up to the end -/

/-- Reading up to the end leaves no tokens. -/
def Stmt.answerAll (ts : List Token) : Answer (List Stmt) :=
  (Stmt.readAll ts).map (·, [])

theorem Stmt.answerAll_cons (t : Token) (rest : List Token) :
    Stmt.answerAll (t :: rest) =
      andThen (plain Stmt.read (t :: rest)) fun first rest =>
      andThen (Stmt.answerAll rest) fun others rest => .ok (first :: others, rest) := by
  rw [Stmt.answerAll, Stmt.readAll_eq]
  cases hread : plain Stmt.read (t :: rest) with
  | error f => simp only [hread]; rfl
  | ok first =>
    simp only [hread, andThen, Stmt.answerAll]
    cases Stmt.readAll first.2 <;> rfl

/-! ### Lists that correspond -/

/-- The next token begins a statement. -/
def Stmt.Opens (ts : List Token) : Prop :=
  ∃ t rest, ts = t :: rest ∧ t.kind ∈ Stmt.openers

/-- What begins a statement is no operand. -/
theorem Stmt.Opens.plain_readPrimary {ts : List Token} (h : Stmt.Opens ts) :
    plain Expr.readPrimary ts = .error (.missing "expression" ts) := by
  obtain ⟨t, rest, rfl, ht⟩ := h
  simp only [Stmt.openers, Stmt.compoundKinds, List.mem_cons, List.not_mem_nil, or_false] at ht
  rw [Expr.plain_readPrimary]
  rcases ht with ht | ht | ht | ht | ht <;> simp [Expr.ofToken?, ht]

/-- The tokens of the second list are those of the first, changed, up to
a place that is one of the given. -/
inductive Along (change : Token → Token) (Site : List Token → List Token → Prop) :
    List Token → List Token → Prop where
  | nil : Along change Site [] []
  | cons (t : Token) {ts us : List Token} (h : Along change Site ts us) :
      Along change Site (t :: ts) (change t :: us)
  | site {ts us : List Token} (h : Site ts us) : Along change Site ts us

theorem Along.refl {Site : List Token → List Token → Prop} (ts : List Token) :
    Along id Site ts ts := by
  induction ts with
  | nil => exact .nil
  | cons t ts ih => exact .cons t ih

/-- A change of tokens, and places in two token lists where statements
stand that are read as the same tree, apart from that change. -/
structure Correspondence where
  change : Token → Token
  Site : List Token → List Token → Prop
  faithful : Token.Faithful change
  opens : ∀ {ts us}, Site ts us → Stmt.Opens ts ∧ Stmt.Opens us
  alike : ∀ {ts us}, Site ts us → ∃ s rest rest',
    plain Stmt.read ts = .ok (s, rest) ∧
      plain Stmt.read us = .ok (s.mapTokens change, rest') ∧ Along change Site rest rest'

namespace Correspondence

variable {α β α' β' : Type} (c : Correspondence) {ts us : List Token}

/-- The lists that correspond. -/
abbrev Along (c : Correspondence) : List Token → List Token → Prop :=
  LoxLang.Along c.change c.Site

/-- The answers that correspond, given how the things correspond that
are read. -/
inductive Answers (c : Correspondence) (g : α → β) : Answer α → Answer β → Prop where
  | ok (a : α) {rest rest' : List Token} (h : c.Along rest rest') :
      Answers c g (.ok (a, rest)) (.ok (g a, rest'))
  | missing (expected : String) {rest rest' : List Token} (h : c.Along rest rest') :
      Answers c g (.error (.missing expected rest)) (.error (.missing expected rest'))
  | target (equals : Token) {rest rest' : List Token} (h : c.Along rest rest') :
      Answers c g (.error (.target equals rest)) (.error (.target (c.change equals) rest'))

variable {c}

/-- What is read behind answers that correspond corresponds if it does
behind every one of them. -/
theorem Answers.andThen {g : α → β} {g' : α' → β'} {x : Answer α} {y : Answer β}
    {k : α → List Token → Answer α'} {k' : β → List Token → Answer β'} (h : c.Answers g x y)
    (hk : ∀ a rest rest', x = .ok (a, rest) → c.Along rest rest' →
      c.Answers g' (k a rest) (k' (g a) rest')) :
    c.Answers g' (LoxLang.andThen x k) (LoxLang.andThen y k') := by
  cases h with
  | ok a h => exact hk a _ _ rfl h
  | missing expected h => exact .missing expected h
  | target equals h => exact .target equals h

/-- Lists that correspond are both empty, or both begin with a token,
which is the same apart from the change, or with a statement. -/
theorem Along.front_cases (h : c.Along ts us) :
    (ts = [] ∧ us = []) ∨ ∃ t rest u rest', ts = t :: rest ∧ us = u :: rest' ∧
      (u = c.change t ∧ c.Along rest rest' ∨
        t.kind ∈ Stmt.openers ∧ u.kind ∈ Stmt.openers) := by
  cases h with
  | nil => exact .inl ⟨rfl, rfl⟩
  | @cons t rest rest' h => exact .inr ⟨t, rest, _, rest', rfl, rfl, .inl ⟨rfl, h⟩⟩
  | site h =>
    obtain ⟨⟨t, rest, rfl, ht⟩, ⟨u, rest', rfl, hu⟩⟩ := c.opens h
    exact .inr ⟨t, rest, u, rest', rfl, rfl, .inr ⟨ht, hu⟩⟩

/-- A token of other kinds than those that begin a statement is ahead in
both lists or in none. -/
theorem Along.front? (h : c.Along ts us) (kinds : List Token.Kind)
    (hkinds : ∀ kind ∈ Stmt.openers, kind ∉ kinds) :
    (front? kinds ts = none ∧ front? kinds us = none) ∨
      ∃ t rest rest', front? kinds ts = some (t, rest) ∧
        front? kinds us = some (c.change t, rest') ∧ c.Along rest rest' := by
  rcases h.front_cases with ⟨rfl, rfl⟩ | ⟨t, rest, u, rest', rfl, rfl, ⟨rfl, h'⟩ | ⟨ht, hu⟩⟩
  · exact .inl ⟨rfl, rfl⟩
  · rw [front?_cons, front?_cons, c.faithful.kind]
    by_cases ht : t.kind ∈ kinds
    · exact .inr ⟨t, rest, rest', if_pos ht, if_pos ht, h'⟩
    · exact .inl ⟨if_neg ht, if_neg ht⟩
  · exact .inl ⟨if_neg (hkinds _ ht), if_neg (hkinds _ hu)⟩

theorem answers_expect {kind : Token.Kind} (hkind : kind ∉ Stmt.openers) (what : String)
    (h : c.Along ts us) :
    c.Answers c.change (plain (expect kind what) ts) (plain (expect kind what) us) := by
  have hkinds : ∀ k ∈ Stmt.openers, k ∉ [kind] := by
    intro k hk hmem
    rw [List.mem_singleton] at hmem
    exact hkind (hmem ▸ hk)
  rw [plain_expect, plain_expect]
  rcases h.front? [kind] hkinds with ⟨hts, hus⟩ | ⟨t, rest, rest', hts, hus, h'⟩
  · rw [hts, hus]
    exact .missing what h
  · rw [hts, hus]
    exact .ok t h'

/-! ### Expressions -/

-- By recursion on the measures that the readers have, which are those of the first list.
mutual

theorem answers_readExpr {ts us : List Token} (h : c.Along ts us) :
    c.Answers (Expr.mapTokens c.change) (plain Expr.read ts) (plain Expr.read us) := by
  rw [Expr.plain_read ts, Expr.plain_read us]
  refine (answers_readTier .or h).andThen fun left rest rest' hleft hrest => ?_
  rcases hrest.front? [.equal] (by decide) with
    ⟨hts, hus⟩ | ⟨equals, behind, behind', hts, hus, hbehind⟩
  · rw [hts, hus]
    exact .ok left hrest
  · have := length_lt_of_plain hleft
    have := length_lt_of_front? hts
    rw [hts, hus]
    refine (answers_readExpr hbehind).andThen fun right rest rest' _ hrest => ?_
    cases left with
    | «variable» name => exact .ok (Expr.assign name right) hrest
    | _ => exact .target equals hrest
termination_by 16 * ts.length + 15

theorem answers_readTier (tier : Tier) {ts us : List Token} (h : c.Along ts us) :
    c.Answers (Expr.mapTokens c.change) (plain (Expr.readTier tier) ts)
      (plain (Expr.readTier tier) us) := by
  rw [Expr.plain_readTier tier ts, Expr.plain_readTier tier us]
  refine (answers_readOperand tier h).andThen fun first rest rest' hfirst hrest => ?_
  have := length_lt_of_plain hfirst
  exact answers_readChain tier first hrest
termination_by 16 * ts.length + 2 * tier.height + 1

theorem answers_readOperand (tier : Tier) {ts us : List Token} (h : c.Along ts us) :
    c.Answers (Expr.mapTokens c.change) (plain (Expr.readOperand tier) ts)
      (plain (Expr.readOperand tier) us) := by
  rw [Expr.plain_readOperand tier ts, Expr.plain_readOperand tier us]
  cases htier : tier.tighter? with
  | some inner =>
    have := Tier.height_of_tighter? htier
    exact answers_readTier inner h
  | none =>
    have := tier.height_pos
    exact answers_readUnary h
termination_by 16 * ts.length + 2 * tier.height

theorem answers_readChain (tier : Tier) (left : Expr) {ts us : List Token} (h : c.Along ts us) :
    c.Answers (Expr.mapTokens c.change) (plain (Expr.readChain tier left) ts)
      (plain (Expr.readChain tier (left.mapTokens c.change)) us) := by
  rw [Expr.plain_readChain tier left ts, Expr.plain_readChain tier _ us]
  rcases h.front? tier.operators (by cases tier <;> decide) with
    ⟨hts, hus⟩ | ⟨operator, behind, behind', hts, hus, hbehind⟩
  · rw [hts, hus]
    exact .ok left h
  · have := length_lt_of_front? hts
    have := tier.height_le
    rw [hts, hus]
    refine (answers_readOperand tier hbehind).andThen fun right rest rest' hright hrest => ?_
    have := length_lt_of_plain hright
    rw [← tier.mapTokens_join]
    exact answers_readChain tier _ hrest
termination_by 16 * ts.length + 14

theorem answers_readUnary {ts us : List Token} (h : c.Along ts us) :
    c.Answers (Expr.mapTokens c.change) (plain Expr.readUnary ts) (plain Expr.readUnary us) := by
  rw [Expr.plain_readUnary ts, Expr.plain_readUnary us]
  rcases h.front? unaryOperators (by decide) with
    ⟨hts, hus⟩ | ⟨operator, behind, behind', hts, hus, hbehind⟩
  · rw [hts, hus]
    exact answers_readPrimary h
  · have := length_lt_of_front? hts
    rw [hts, hus]
    refine (answers_readUnary hbehind).andThen fun operand rest rest' _ hrest => ?_
    exact .ok (Expr.unary operator operand) hrest
termination_by 16 * ts.length + 1

theorem answers_readPrimary {ts us : List Token} (h : c.Along ts us) :
    c.Answers (Expr.mapTokens c.change) (plain Expr.readPrimary ts)
      (plain Expr.readPrimary us) := by
  cases h with
  | nil =>
    rw [Expr.plain_readPrimary_nil]
    exact .missing _ .nil
  | @cons t rest rest' h =>
    rw [Expr.plain_readPrimary, Expr.plain_readPrimary, Expr.ofToken?_change c.faithful,
      c.faithful.kind]
    cases Expr.ofToken? t with
    | some e => exact .ok e h
    | none =>
      by_cases hopening : t.kind = .leftParen
      · simp only [Option.map_none, hopening, if_true]
        refine (answers_readExpr h).andThen fun inner rest rest' _ hrest => ?_
        exact (answers_expect (by decide) _ hrest).andThen
          fun _ rest rest' _ hrest => .ok (Expr.grouping inner) hrest
      · simp only [Option.map_none, hopening, if_false]
        exact .missing _ (.cons t h)
  | site h =>
    -- what begins a statement is no operand
    rw [(c.opens h).1.plain_readPrimary, (c.opens h).2.plain_readPrimary]
    exact .missing _ (.site h)
termination_by 16 * ts.length

end

/-! ### Clauses of statements -/

theorem answers_readPrint (keyword : Token) (h : c.Along ts us) :
    c.Answers (Stmt.mapTokens c.change) (plain (Stmt.readPrint keyword) ts)
      (plain (Stmt.readPrint (c.change keyword)) us) := by
  rw [Stmt.plain_readPrint, Stmt.plain_readPrint]
  refine (answers_readExpr h).andThen fun e rest rest' _ hrest => ?_
  exact (answers_expect (by decide) _ hrest).andThen
    fun _ rest rest' _ hrest => .ok (Stmt.print keyword e) hrest

theorem answers_readVar (h : c.Along ts us) :
    c.Answers (Stmt.mapTokens c.change) (plain Stmt.readVar ts) (plain Stmt.readVar us) := by
  rw [Stmt.plain_readVar, Stmt.plain_readVar]
  refine (answers_expect (by decide) _ h).andThen fun name rest rest' _ hrest => ?_
  refine (answers_expect (by decide) _ hrest).andThen fun _ rest rest' _ hrest => ?_
  refine (answers_readExpr hrest).andThen fun e rest rest' _ hrest => ?_
  exact (answers_expect (by decide) _ hrest).andThen
    fun _ rest rest' _ hrest => .ok (Stmt.var name e) hrest

theorem answers_readExpression (h : c.Along ts us) :
    c.Answers (Stmt.mapTokens c.change) (plain Stmt.readExpression ts)
      (plain Stmt.readExpression us) := by
  rw [Stmt.plain_readExpression, Stmt.plain_readExpression]
  refine (answers_readExpr h).andThen fun e rest rest' _ hrest => ?_
  exact (answers_expect (by decide) _ hrest).andThen
    fun _ rest rest' _ hrest => .ok (Stmt.expression e) hrest

theorem answers_readCondition (before after : String) (h : c.Along ts us) :
    c.Answers (Expr.mapTokens c.change) (plain (Expr.readCondition before after) ts)
      (plain (Expr.readCondition before after) us) := by
  rw [Expr.plain_readCondition, Expr.plain_readCondition]
  refine (answers_expect (by decide) _ h).andThen fun _ rest rest' _ hrest => ?_
  refine (answers_readExpr hrest).andThen fun e rest rest' _ hrest => ?_
  exact (answers_expect (by decide) _ hrest).andThen fun _ rest rest' _ hrest => .ok e hrest

theorem answers_readUnless {kind : Token.Kind} (hkind : ∀ k ∈ Stmt.openers, k ∉ [kind])
    (h : c.Along ts us) :
    c.Answers (Option.map (Expr.mapTokens c.change)) (plain (Expr.readUnless kind) ts)
      (plain (Expr.readUnless kind) us) := by
  rw [Expr.plain_readUnless, Expr.plain_readUnless]
  rcases h.front? [kind] hkind with ⟨hts, hus⟩ | ⟨_, _, _, hts, hus, _⟩
  · rw [hts, hus]
    exact (answers_readExpr h).andThen fun e rest rest' _ hrest => .ok (some e) hrest
  · rw [hts, hus]
    exact .ok none h

theorem answers_readInitial (h : c.Along ts us) :
    c.Answers (Option.map (Stmt.mapTokens c.change)) (plain Stmt.readInitial ts)
      (plain Stmt.readInitial us) := by
  rw [Stmt.plain_readInitial, Stmt.plain_readInitial]
  rcases h.front? [.semicolon] (by decide) with
    ⟨hts, hus⟩ | ⟨_, _, _, hts, hus, hrest⟩
  · rw [hts, hus]
    rcases h.front? [.var] (by decide) with
      ⟨hts, hus⟩ | ⟨_, _, _, hts, hus, hrest⟩
    · rw [hts, hus]
      exact (answers_readExpression h).andThen fun s rest rest' _ hrest => .ok (some s) hrest
    · rw [hts, hus]
      exact (answers_readVar hrest).andThen fun s rest rest' _ hrest => .ok (some s) hrest
  · rw [hts, hus]
    exact .ok none hrest

theorem answers_readClauses (h : c.Along ts us) :
    c.Answers (ForClauses.mapTokens c.change) (plain ForClauses.read ts)
      (plain ForClauses.read us) := by
  rw [ForClauses.plain_read, ForClauses.plain_read]
  refine (answers_expect (by decide) _ h).andThen fun _ rest rest' _ hrest => ?_
  refine (answers_readInitial hrest).andThen fun initial rest rest' _ hrest => ?_
  refine (answers_readUnless (by decide) hrest).andThen fun condition rest rest' _ hrest => ?_
  refine (answers_expect (by decide) _ hrest).andThen fun _ rest rest' _ hrest => ?_
  refine (answers_readUnless (by decide) hrest).andThen fun increment rest rest' _ hrest => ?_
  exact (answers_expect (by decide) _ hrest).andThen
    fun _ rest rest' _ hrest => .ok (ForClauses.mk initial condition increment) hrest

/-! ### Statements -/

mutual

theorem answers_readStmt {ts us : List Token} (h : c.Along ts us) :
    c.Answers (Stmt.mapTokens c.change) (plain Stmt.read ts) (plain Stmt.read us) := by
  cases h with
  | nil =>
    rw [Stmt.plain_read_nil]
    exact .missing _ .nil
  | @cons t rest rest' h =>
    rw [Stmt.plain_read, Stmt.plain_read, c.faithful.kind]
    split
    · exact answers_readPrint t h
    · exact answers_readVar h
    · exact (answers_readBlock h).andThen fun body rest rest' _ hrest => .ok (Stmt.block body) hrest
    · exact answers_readIf h
    · exact answers_readWhile h
    · exact answers_readFor h
    · exact answers_readExpression (.cons t h)
  | site h =>
    obtain ⟨s, rest, rest', hts, hus, hrest⟩ := c.alike h
    rw [hts, hus]
    exact .ok s hrest
termination_by 4 * ts.length + 1

theorem answers_readBlock {ts us : List Token} (h : c.Along ts us) :
    c.Answers (Stmt.mapAllTokens c.change) (plain Stmt.readBlock ts)
      (plain Stmt.readBlock us) := by
  rcases h.front_cases with ⟨rfl, rfl⟩ | ⟨t, rest, u, rest', rfl, rfl, hfront⟩
  · rw [Stmt.plain_readBlock]
    exact .missing _ .nil
  · rw [Stmt.plain_readBlock (t :: rest), Stmt.plain_readBlock (u :: rest')]
    have hclosing : u.kind = .rightBrace ↔ t.kind = .rightBrace := by
      rcases hfront with ⟨rfl, -⟩ | ⟨ht, hu⟩
      · rw [c.faithful.kind]
      -- the block goes on with a statement in both
      · constructor <;> intro hkind
        · rw [hkind] at hu
          exact absurd hu (by decide)
        · rw [hkind] at ht
          exact absurd ht (by decide)
    by_cases ht : t.kind = .rightBrace
    · rcases hfront with ⟨-, hrest⟩ | ⟨hopener, -⟩
      · simp only [hclosing, ht, if_true]
        exact .ok [] hrest
      · rw [ht] at hopener
        exact absurd hopener (by decide)
    · simp only [hclosing, ht, if_false]
      refine (answers_readStmt h).andThen fun first rest rest' hfirst hrest => ?_
      have := length_lt_of_plain hfirst
      exact (answers_readBlock hrest).andThen
        fun others rest rest' _ hrest => .ok (first :: others) hrest
termination_by 4 * ts.length + 2

theorem answers_readIf {ts us : List Token} (h : c.Along ts us) :
    c.Answers (Stmt.mapTokens c.change) (plain Stmt.readIf ts) (plain Stmt.readIf us) := by
  rw [Stmt.plain_readIf ts, Stmt.plain_readIf us]
  refine (answers_readCondition _ _ h).andThen fun condition rest rest' hcondition hrest => ?_
  have := length_lt_of_plain hcondition
  refine (answers_readStmt hrest).andThen fun consequent rest rest' hconsequent hrest => ?_
  have := length_lt_of_plain hconsequent
  rcases hrest.front? [.else] (by decide) with
    ⟨hts, hus⟩ | ⟨keyword, behind, behind', hts, hus, hbehind⟩
  · rw [hts, hus]
    exact .ok (Stmt.ifThen condition consequent) hrest
  · have := length_lt_of_front? hts
    rw [hts, hus]
    refine (answers_readStmt hbehind).andThen fun alternative rest rest' _ hrest => ?_
    exact .ok (Stmt.ifElse condition consequent alternative) hrest
termination_by 4 * ts.length

theorem answers_readWhile {ts us : List Token} (h : c.Along ts us) :
    c.Answers (Stmt.mapTokens c.change) (plain Stmt.readWhile ts) (plain Stmt.readWhile us) := by
  rw [Stmt.plain_readWhile ts, Stmt.plain_readWhile us]
  refine (answers_readCondition _ _ h).andThen fun condition rest rest' hcondition hrest => ?_
  have := length_lt_of_plain hcondition
  exact (answers_readStmt hrest).andThen
    fun body rest rest' _ hrest => .ok (Stmt.while condition body) hrest
termination_by 4 * ts.length

theorem answers_readFor {ts us : List Token} (h : c.Along ts us) :
    c.Answers (Stmt.mapTokens c.change) (plain Stmt.readFor ts) (plain Stmt.readFor us) := by
  rw [Stmt.plain_readFor ts, Stmt.plain_readFor us]
  refine (answers_readClauses h).andThen fun clauses rest rest' hclauses hrest => ?_
  have := length_lt_of_plain hclauses
  refine (answers_readStmt hrest).andThen fun body rest rest' _ hrest => ?_
  rw [ForClauses.mapTokens, ← Stmt.mapTokens_forLoop]
  exact .ok _ hrest
termination_by 4 * ts.length

end

theorem answers_readAll {ts us : List Token} (h : c.Along ts us) :
    c.Answers (Stmt.mapAllTokens c.change) (Stmt.answerAll ts) (Stmt.answerAll us) := by
  rcases h.front_cases with ⟨rfl, rfl⟩ | ⟨t, rest, u, rest', rfl, rfl, -⟩
  · rw [Stmt.answerAll, Stmt.readAll_nil]
    exact .ok [] .nil
  · rw [Stmt.answerAll_cons, Stmt.answerAll_cons]
    refine (answers_readStmt h).andThen fun first rest rest' hfirst hrest => ?_
    have := length_lt_of_plain hfirst
    exact (answers_readAll hrest).andThen
      fun others rest rest' _ hrest => .ok (first :: others) hrest
termination_by ts.length

/-- If one list is a program, then so is the other. -/
theorem readAll_eq_ok {ts us : List Token} {ss : List Stmt} (h : c.Along ts us)
    (hread : Stmt.readAll ts = .ok ss) :
    Stmt.readAll us = .ok (Stmt.mapAllTokens c.change ss) := by
  have hanswers := answers_readAll h
  rw [Stmt.answerAll, hread] at hanswers
  cases hus : Stmt.readAll us with
  | error f => rw [Stmt.answerAll, hus] at hanswers; nomatch hanswers
  | ok ss' =>
    rw [Stmt.answerAll, hus] at hanswers
    cases hanswers
    rfl

end Correspondence

/-! ### Changing tokens -/

/-- The failure with its tokens changed. -/
def Failure.mapTokens (f : Token → Token) : Failure → Failure
  | .missing expected rest => .missing expected (rest.map f)
  | .target equals rest => .target (f equals) (rest.map f)

/-- The lists correspond that have the same tokens apart from a change of
them. -/
def Correspondence.ofChange {f : Token → Token} (hf : Token.Faithful f) : Correspondence where
  change := f
  Site _ _ := False
  faithful := hf
  opens := False.elim
  alike := False.elim

section Change

variable {f : Token → Token} (hf : Token.Faithful f)

include hf

theorem Correspondence.along_ofChange_iff {ts us : List Token} :
    (ofChange hf).Along ts us ↔ us = ts.map f := by
  constructor
  · intro h
    induction h with
    | nil => rfl
    | cons t _ ih => rw [List.map_cons, ← ih]; rfl
    | site h => exact h.elim
  · rintro rfl
    induction ts with
    | nil => exact .nil
    | cons t ts ih => exact .cons t ih

/-- What is read from tokens that are changed is what is read from the
tokens, with the same change. -/
theorem Stmt.readAll_map (ts : List Token) :
    Stmt.readAll (ts.map f) =
      ((Stmt.readAll ts).map (Stmt.mapAllTokens f)).mapError (Failure.mapTokens f) := by
  have halong : (Correspondence.ofChange hf).Along ts (ts.map f) :=
    (Correspondence.along_ofChange_iff hf).mpr rfl
  have hanswers := Correspondence.answers_readAll halong
  rw [Stmt.answerAll, Stmt.answerAll] at hanswers
  cases hts : Stmt.readAll ts with
  | ok ss =>
    exact Correspondence.readAll_eq_ok halong hts
  | error e =>
    rw [hts] at hanswers
    cases hus : Stmt.readAll (ts.map f) with
    | ok ss => rw [hus] at hanswers; nomatch hanswers
    | error e' =>
      rw [hus] at hanswers
      cases hanswers with
      | missing expected h => rw [(Correspondence.along_ofChange_iff hf).mp h]; rfl
      | target equals h => rw [(Correspondence.along_ofChange_iff hf).mp h]; rfl

theorem bodyOf_map (tokens : List Token) : bodyOf (tokens.map f) = (bodyOf tokens).map f := by
  rw [bodyOf, List.takeWhile_map]
  congr 2
  funext t
  simp [hf.kind]

theorem endOf_map {tokens : List Token} (hend : ∃ t ∈ tokens, t.kind = .eof) :
    endOf (tokens.map f) = f (endOf tokens) := by
  have hfind : (tokens.map f).find? (·.kind = .eof) = (tokens.find? (·.kind = .eof)).map f := by
    rw [List.find?_map]
    congr 2
    funext t
    simp [hf.kind]
  have hsome : (tokens.find? (·.kind = .eof)).isSome := by simpa using hend
  obtain ⟨eof, heof⟩ := Option.isSome_iff_exists.mp hsome
  rw [endOf, endOf, hfind, heof]
  rfl

/-- A program is one with its tokens changed. -/
theorem program_map {tokens : List Token} {ss : List Stmt} (h : program tokens = .ok ss) :
    program (tokens.map f) = .ok (Stmt.mapAllTokens f ss) := by
  rw [program_eq_ok_iff] at h ⊢
  rw [bodyOf_map hf, Stmt.readAll_map hf, h]
  rfl

/-- Where tokens are no program, they are none with a change, and the
same is expected at the token that is changed. -/
theorem program_map_error {tokens : List Token} {m : Misplaced}
    (hend : ∃ t ∈ tokens, t.kind = .eof) (h : program tokens = .error m) :
    program (tokens.map f) = .error ⟨f m.found, m.expected⟩ := by
  rw [program] at h ⊢
  rw [bodyOf_map hf, endOf_map hf hend, Stmt.readAll_map hf]
  cases hread : Stmt.readAll (bodyOf tokens) with
  | ok ss => rw [hread] at h; cases h
  | error e =>
    rw [hread] at h
    cases h
    cases e with
    | missing expected rest => cases rest <;> rfl
    | target equals rest => rfl

end Change

end LoxLang
