import LoxLang.Grammar

/-!
# `LoxLang.Proofs.Grammar.Readers`: readers without bounds

A reader's answer carries a proof that fewer tokens are left, which
its recursion needs and a statement about it does not. `plain` drops
that proof, and this module says what each reader does in those terms:
one equation a reader. Proofs about reading use the equations and never
unfold a reader.

* `andThen`: goes on with what was read and the tokens behind it;
* `front?`: the next token, if it is of one of some kinds;
* `Expr.plain_read`, `Expr.plain_readTier`, …: the equations.
-/

set_option autoImplicit false

namespace LoxLang

variable {α β : Type} {m n : Nat}

/-! ### Answers -/

/-- What was read and the tokens behind it, or why reading stopped. -/
abbrev Answer (α : Type) := Except Failure (α × List Token)

/-- An answer without the bound. -/
def Reading.answer (r : Reading α n) : Answer α :=
  r.map fun p => (p.value, p.rest)

/-- What a reader answers for some tokens, without the bound. -/
def plain {n : List Token → Nat} (reader : (ts : List Token) → Reading α (n ts))
    (ts : List Token) : Answer α :=
  (reader ts).answer

/-- Goes on with what was read and the tokens behind it. -/
def andThen (x : Answer α) (f : α → List Token → Answer β) : Answer β :=
  match x with
  | .ok (a, rest) => f a rest
  | .error e => .error e

@[simp] theorem andThen_ok (a : α) (rest : List Token) (f : α → List Token → Answer β) :
    andThen (.ok (a, rest)) f = f a rest := rfl

@[simp] theorem andThen_error (e : Failure) (f : α → List Token → Answer β) :
    andThen (.error e) f = .error e := rfl

theorem andThen_assoc {γ : Type} (x : Answer α) (f : α → List Token → Answer β)
    (g : β → List Token → Answer γ) :
    andThen (andThen x f) g = andThen x fun a rest => andThen (f a rest) g := by
  rcases x with _ | ⟨a, rest⟩ <;> rfl

theorem andThen_eq_ok_iff {x : Answer α} {f : α → List Token → Answer β}
    {r : β × List Token} :
    andThen x f = .ok r ↔ ∃ a rest, x = .ok (a, rest) ∧ f a rest = .ok r := by
  rcases x with e | ⟨a, rest⟩
  · simp
  · exact ⟨fun h => ⟨a, rest, rfl, h⟩, by rintro ⟨_, _, ⟨⟩, h⟩; exact h⟩

theorem andThen_eq_error_iff {x : Answer α} {f : α → List Token → Answer β} {e : Failure} :
    andThen x f = .error e ↔
      x = .error e ∨ ∃ a rest, x = .ok (a, rest) ∧ f a rest = .error e := by
  rcases x with e' | ⟨a, rest⟩
  · simp
  · constructor
    · intro h
      exact .inr ⟨a, rest, rfl, h⟩
    · rintro (h | ⟨_, _, ⟨⟩, h⟩)
      · cases h
      · exact h

/-- The next token and those behind it, if it is of one of the given
kinds. -/
def front? (kinds : List Token.Kind) : List Token → Option (Token × List Token)
  | [] => none
  | t :: rest => if t.kind ∈ kinds then some (t, rest) else none

@[simp] theorem front?_nil (kinds : List Token.Kind) : front? kinds [] = none := rfl

theorem front?_cons (kinds : List Token.Kind) (t : Token) (rest : List Token) :
    front? kinds (t :: rest) = if t.kind ∈ kinds then some (t, rest) else none := rfl

theorem front?_eq_some_iff {kinds : List Token.Kind} {ts rest : List Token} {t : Token} :
    front? kinds ts = some (t, rest) ↔ ts = t :: rest ∧ t.kind ∈ kinds := by
  cases ts with
  | nil => simp
  | cons u us => simp only [front?_cons]; grind

theorem length_lt_of_front? {kinds : List Token.Kind} {ts rest : List Token} {t : Token}
    (h : front? kinds ts = some (t, rest)) : rest.length < ts.length := by
  obtain ⟨rfl, -⟩ := front?_eq_some_iff.mp h
  simp

/-- `next?` is `front?` with a bound. -/
theorem map_next? (kinds : List Token.Kind) (ts : List Token) :
    (next? kinds ts).map (fun p => (p.value, p.rest)) = front? kinds ts := by
  cases ts with
  | nil => rfl
  | cons t rest =>
    simp only [next?, front?_cons]
    split <;> rfl

/-- Reading one thing and then another. -/
theorem Reading.answer_bind {x : Reading α m} {f : Parsed α m → Reading β n}
    {g : α → List Token → Answer β} (h : ∀ p, (f p).answer = g p.value p.rest) :
    Reading.answer (x >>= f) = andThen x.answer g := by
  cases x with
  | error e => rfl
  | ok p => exact h p

@[simp] theorem Reading.answer_error (f : Failure) :
    Reading.answer (.error f : Reading α n) = .error f := rfl

@[simp] theorem Reading.answer_ok (p : Parsed α n) :
    Reading.answer (.ok p) = .ok (p.value, p.rest) := rfl

/-- Seeing a reading from further ahead changes nothing in it. -/
theorem Reading.answer_widen (x : Reading α m) (h : Parsed α m → m ≤ n) :
    Reading.answer (x >>= fun p => pure (p.widen (h p))) = x.answer := by
  cases x <;> rfl

/-- Fewer tokens are left than the bound. -/
theorem length_lt_of_plain {n : List Token → Nat}
    {reader : (ts : List Token) → Reading α (n ts)} {ts rest : List Token} {a : α}
    (h : plain reader ts = .ok (a, rest)) : rest.length < n ts := by
  rw [plain] at h
  cases hr : reader ts with
  | error e => rw [hr] at h; cases h
  | ok p =>
    rw [hr] at h
    cases h
    exact p.shorter

theorem plain_expect (kind : Token.Kind) (what : String) (ts : List Token) :
    plain (expect kind what) ts =
      match front? [kind] ts with
      | none => .error (.missing what ts)
      | some p => .ok p := by
  rw [plain, expect, ← map_next?]
  cases next? [kind] ts <;> rfl

/-! ### Expressions -/

/-- What becomes of an expression that stands in front of an equals
sign, with the value behind the sign. -/
def Expr.assigned (equals : Token) (right : Expr) (rest : List Token) : Expr → Answer Expr
  | .variable name => .ok (.assign name right, rest)
  | _ => .error (.target equals rest)

theorem Expr.plain_read (ts : List Token) :
    plain Expr.read ts =
      andThen (plain (Expr.readTier .or) ts) fun left rest =>
        match front? [.equal] rest with
        | none => .ok (left, rest)
        | some (equals, rest) =>
          andThen (plain Expr.read rest) fun right rest =>
            Expr.assigned equals right rest left := by
  rw [plain, Expr.read]
  refine Reading.answer_bind fun left => ?_
  rw [← map_next?]
  cases next? [.equal] left.rest with
  | none => rfl
  | some equals =>
    refine Reading.answer_bind fun right => ?_
    cases left.value <;> rfl

theorem Expr.plain_readTier (tier : Tier) (ts : List Token) :
    plain (Expr.readTier tier) ts =
      andThen (plain (Expr.readOperand tier) ts) fun first rest =>
        plain (Expr.readChain tier first) rest := by
  rw [plain, Expr.readTier]
  refine Reading.answer_bind fun first => ?_
  exact Reading.answer_widen _ _

theorem Expr.plain_readOperand (tier : Tier) (ts : List Token) :
    plain (Expr.readOperand tier) ts =
      match tier.tighter? with
      | some inner => plain (Expr.readTier inner) ts
      | none => plain Expr.readUnary ts := by
  rw [plain, Expr.readOperand]
  split <;> split <;> simp_all [plain]

theorem Expr.plain_readChain (tier : Tier) (left : Expr) (ts : List Token) :
    plain (Expr.readChain tier left) ts =
      match front? tier.operators ts with
      | none => .ok (left, ts)
      | some (operator, rest) =>
        andThen (plain (Expr.readOperand tier) rest) fun right rest =>
          plain (Expr.readChain tier (tier.join left operator right)) rest := by
  rw [plain, Expr.readChain, ← map_next?]
  cases next? tier.operators ts with
  | none => rfl
  | some operator =>
    refine Reading.answer_bind fun right => ?_
    exact Reading.answer_widen _ _

theorem Expr.plain_readUnary (ts : List Token) :
    plain Expr.readUnary ts =
      match front? unaryOperators ts with
      | none => plain Expr.readPrimary ts
      | some (operator, rest) =>
        andThen (plain Expr.readUnary rest) fun operand rest =>
          .ok (.unary operator operand, rest) := by
  rw [plain, Expr.readUnary, ← map_next?]
  cases next? unaryOperators ts with
  | none => rfl
  | some operator => exact Reading.answer_bind fun operand => rfl

/-- What a token is as an expression of its own, if it is one. -/
def Expr.ofToken? (t : Token) : Option Expr :=
  match t.kind with
  | .true => some (.literal (.bool true))
  | .false => some (.literal (.bool false))
  | .nil => some (.literal .nil)
  | .number | .string => some (.literal t.payload)
  | .identifier => some (.variable t)
  | _ => none

theorem Expr.plain_readPrimary (t : Token) (rest : List Token) :
    plain Expr.readPrimary (t :: rest) =
      match Expr.ofToken? t with
      | some e => .ok (e, rest)
      | none =>
        if t.kind = .leftParen then
          andThen (plain Expr.read rest) fun inner rest =>
            andThen (plain (expect .rightParen "')' after expression") rest)
              fun _ rest => .ok (.grouping inner, rest)
        else .error (.missing "expression" (t :: rest)) := by
  rw [plain, Expr.readPrimary, Expr.ofToken?]
  -- both sides go by the kind alone, and only a parenthesis is followed by more
  cases hkind : t.kind
  case leftParen =>
    refine Reading.answer_bind fun inner => ?_
    exact Reading.answer_bind fun close => rfl
  all_goals simp

@[simp] theorem Expr.plain_readPrimary_nil :
    plain Expr.readPrimary [] = .error (.missing "expression" []) := by
  rw [plain, Expr.readPrimary]
  rfl

/-- Where no token is left there is no operand. -/
theorem Expr.plain_readOperand_nil (tier : Tier) :
    plain (Expr.readOperand tier) [] = .error (.missing "expression" []) := by
  rw [Expr.plain_readOperand]
  cases h : tier.tighter? with
  | none => simp [Expr.plain_readUnary]
  | some inner =>
    have := Tier.height_of_tighter? h
    simp only
    rw [Expr.plain_readTier, Expr.plain_readOperand_nil inner, andThen_error]
termination_by tier.height

/-! ### Statements -/

theorem Stmt.plain_readPrint (keyword : Token) (ts : List Token) :
    plain (Stmt.readPrint keyword) ts =
      andThen (plain Expr.read ts) fun e rest =>
        andThen (plain (expect .semicolon "';' after value") rest) fun _ rest =>
          .ok (.print keyword e, rest) := by
  rw [plain, Stmt.readPrint]
  refine Reading.answer_bind fun e => ?_
  exact Reading.answer_bind fun close => rfl

theorem Stmt.plain_readVar (ts : List Token) :
    plain Stmt.readVar ts =
      andThen (plain (expect .identifier "variable name after 'var'") ts)
        fun name rest =>
      andThen (plain (expect .equal "'=' after variable name") rest) fun _ rest =>
      andThen (plain Expr.read rest) fun e rest =>
      andThen (plain (expect .semicolon "';' after variable declaration") rest)
        fun _ rest => .ok (.var name e, rest) := by
  rw [plain, Stmt.readVar]
  refine Reading.answer_bind fun name => ?_
  refine Reading.answer_bind fun equals => ?_
  refine Reading.answer_bind fun e => ?_
  exact Reading.answer_bind fun close => rfl

theorem Stmt.plain_readExpression (ts : List Token) :
    plain Stmt.readExpression ts =
      andThen (plain Expr.read ts) fun e rest =>
        andThen (plain (expect .semicolon "';' after expression") rest)
          fun _ rest => .ok (.expression e, rest) := by
  rw [plain, Stmt.readExpression]
  refine Reading.answer_bind fun e => ?_
  exact Reading.answer_bind fun close => rfl

theorem Expr.plain_readCondition (before after : String) (ts : List Token) :
    plain (Expr.readCondition before after) ts =
      andThen (plain (expect .leftParen before) ts) fun _ rest =>
      andThen (plain Expr.read rest) fun e rest =>
      andThen (plain (expect .rightParen after) rest) fun _ rest =>
        .ok (e, rest) := by
  rw [plain, Expr.readCondition]
  refine Reading.answer_bind fun opening => ?_
  refine Reading.answer_bind fun e => ?_
  exact Reading.answer_bind fun closing => rfl

theorem Expr.plain_readUnless (kind : Token.Kind) (ts : List Token) :
    plain (Expr.readUnless kind) ts =
      match front? [kind] ts with
      | some _ => .ok (none, ts)
      | none => andThen (plain Expr.read ts) fun e rest => .ok (some e, rest) := by
  rw [plain, Expr.readUnless, ← map_next?]
  cases next? [kind] ts with
  | none => exact Reading.answer_bind fun e => rfl
  | some _ => rfl

theorem Stmt.plain_readInitial (ts : List Token) :
    plain Stmt.readInitial ts =
      match front? [.semicolon] ts, front? [.var] ts with
      | some (_, rest), _ => .ok (none, rest)
      | none, some (_, rest) =>
        andThen (plain Stmt.readVar rest) fun s rest => .ok (some s, rest)
      | none, none =>
        andThen (plain Stmt.readExpression ts) fun s rest => .ok (some s, rest) := by
  rw [plain, Stmt.readInitial, ← map_next?, ← map_next?]
  cases next? [.semicolon] ts with
  | some _ => rfl
  | none =>
    cases next? [.var] ts with
    | none => exact Reading.answer_bind fun s => rfl
    | some keyword => exact Reading.answer_bind fun s => rfl

theorem ForClauses.plain_read (ts : List Token) :
    plain ForClauses.read ts =
      andThen (plain (expect .leftParen "'(' after 'for'") ts) fun _ rest =>
      andThen (plain Stmt.readInitial rest) fun initial rest =>
      andThen (plain (Expr.readUnless .semicolon) rest) fun condition rest =>
      andThen (plain (expect .semicolon "';' after loop condition") rest)
        fun _ rest =>
      andThen (plain (Expr.readUnless .rightParen) rest) fun increment rest =>
      andThen (plain (expect .rightParen "')' after for clauses") rest)
        fun _ rest => .ok (⟨initial, condition, increment⟩, rest) := by
  rw [plain, ForClauses.read]
  refine Reading.answer_bind fun opening => ?_
  refine Reading.answer_bind fun initial => ?_
  refine Reading.answer_bind fun condition => ?_
  refine Reading.answer_bind fun semicolon => ?_
  refine Reading.answer_bind fun increment => ?_
  exact Reading.answer_bind fun closing => rfl

theorem Stmt.plain_read (t : Token) (rest : List Token) :
    plain Stmt.read (t :: rest) =
      match t.kind with
      | .print => plain (Stmt.readPrint t) rest
      | .var => plain Stmt.readVar rest
      | .leftBrace =>
        andThen (plain Stmt.readBlock rest) fun body rest => .ok (.block body, rest)
      | .if => plain Stmt.readIf rest
      | .while => plain Stmt.readWhile rest
      | .for => plain Stmt.readFor rest
      | _ => plain Stmt.readExpression (t :: rest) := by
  rw [plain, Stmt.read]
  -- a kind that begins no other statement leaves the token for an expression
  cases t.kind
  case print => exact Reading.answer_widen _ _
  case var => exact Reading.answer_widen _ _
  case leftBrace => exact Reading.answer_bind fun body => rfl
  case «if» => exact Reading.answer_widen _ _
  case «while» => exact Reading.answer_widen _ _
  case «for» => exact Reading.answer_widen _ _
  all_goals rfl

theorem Stmt.plain_readExpression_nil :
    plain Stmt.readExpression [] = .error (.missing "expression" []) := by
  rw [Stmt.plain_readExpression, Expr.plain_read, Expr.plain_readTier]
  simp only [Expr.plain_readOperand_nil, andThen_error]

@[simp] theorem Stmt.plain_read_nil :
    plain Stmt.read [] = .error (.missing "expression" []) := by
  have hread : plain Stmt.read [] = plain Stmt.readExpression [] := by
    rw [plain, Stmt.read, plain]
  rw [hread, Stmt.plain_readExpression_nil]

theorem Stmt.plain_readBlock (ts : List Token) :
    plain Stmt.readBlock ts =
      match ts with
      | [] => .error (.missing "'\x7d' after block" [])
      | t :: rest =>
        if t.kind = .rightBrace then .ok ([], rest)
        else
          andThen (plain Stmt.read (t :: rest)) fun first rest =>
          andThen (plain Stmt.readBlock rest) fun others rest =>
            .ok (first :: others, rest) := by
  rw [plain, Stmt.readBlock.eq_def]
  cases ts with
  | nil => rfl
  | cons t rest =>
    by_cases h : t.kind = .rightBrace
    · simp [h]
    · simp only [h, if_false]
      refine Reading.answer_bind fun first => ?_
      exact Reading.answer_bind fun others => rfl

theorem Stmt.plain_readIf (ts : List Token) :
    plain Stmt.readIf ts =
      andThen (plain (Expr.readCondition "'(' after 'if'" "')' after if condition") ts)
        fun condition rest =>
      andThen (plain Stmt.read rest) fun consequent rest =>
        match front? [.else] rest with
        | none => .ok (.ifThen condition consequent, rest)
        | some (_, rest) =>
          andThen (plain Stmt.read rest) fun alternative rest =>
            .ok (.ifElse condition consequent alternative, rest) := by
  rw [plain, Stmt.readIf]
  refine Reading.answer_bind fun condition => ?_
  refine Reading.answer_bind fun consequent => ?_
  rw [← map_next?]
  cases next? [.else] consequent.rest with
  | none => rfl
  | some keyword => exact Reading.answer_bind fun alternative => rfl

theorem Stmt.plain_readWhile (ts : List Token) :
    plain Stmt.readWhile ts =
      andThen (plain
        (Expr.readCondition "'(' after 'while'" "')' after while condition") ts)
        fun condition rest =>
      andThen (plain Stmt.read rest) fun body rest =>
        .ok (.while condition body, rest) := by
  rw [plain, Stmt.readWhile]
  refine Reading.answer_bind fun condition => ?_
  exact Reading.answer_bind fun body => rfl

theorem Stmt.plain_readFor (ts : List Token) :
    plain Stmt.readFor ts =
      andThen (plain ForClauses.read ts) fun clauses rest =>
      andThen (plain Stmt.read rest) fun body rest =>
        .ok (Stmt.forLoop clauses.initial clauses.condition clauses.increment body, rest) := by
  rw [plain, Stmt.readFor]
  refine Reading.answer_bind fun clauses => ?_
  exact Reading.answer_bind fun body => rfl

theorem Stmt.readAll_eq (ts : List Token) :
    Stmt.readAll ts =
      match ts with
      | [] => .ok []
      | t :: rest =>
        match plain Stmt.read (t :: rest) with
        | .error e => .error e
        | .ok (first, rest) => (Stmt.readAll rest).map (first :: ·) := by
  rw [Stmt.readAll.eq_def]
  cases ts with
  | nil => rfl
  | cons t rest =>
    cases hfirst : Stmt.read (t :: rest) with
    | error e => simp only [plain, hfirst, Reading.answer_error]; rfl
    | ok first =>
      simp only [plain, hfirst, Reading.answer_ok]
      cases hrest : Stmt.readAll first.rest <;> simp only [bind, Except.bind, hrest] <;> rfl

theorem Stmt.readAll_nil : Stmt.readAll [] = .ok [] := by
  rw [Stmt.readAll_eq]

theorem Stmt.readAll_cons_eq_ok_iff {t : Token} {ts : List Token} {ss : List Stmt} :
    Stmt.readAll (t :: ts) = .ok ss ↔ ∃ first rest others,
      plain Stmt.read (t :: ts) = .ok (first, rest) ∧ Stmt.readAll rest = .ok others ∧
        first :: others = ss := by
  rw [Stmt.readAll_eq]
  rcases hread : plain Stmt.read (t :: ts) with e | ⟨first, rest⟩
  · simp [hread]
  · cases hothers : Stmt.readAll rest <;> simp [hread, hothers, Except.map, and_assoc]

theorem Stmt.readAll_cons_eq_error_iff {t : Token} {ts : List Token} {f : Failure} :
    Stmt.readAll (t :: ts) = .error f ↔
      plain Stmt.read (t :: ts) = .error f ∨ ∃ first rest,
        plain Stmt.read (t :: ts) = .ok (first, rest) ∧ Stmt.readAll rest = .error f := by
  rw [Stmt.readAll_eq]
  rcases hread : plain Stmt.read (t :: ts) with e | ⟨first, rest⟩
  · simp [hread]
  · cases hothers : Stmt.readAll rest <;> simp [hread, hothers, Except.map, and_assoc]

end LoxLang
