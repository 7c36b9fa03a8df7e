import LoxLang.Proofs.Grammar.Readers

/-!
# `LoxLang.Proofs.Grammar.Failures`: where reading stops

A reader never looks behind the tokens it is given, and it takes tokens
of certain kinds only: an expression has no semicolon in it, a clause no
brace, and nothing has the end. This is so on success and on failure
(`Stays`), and an equals sign that is refused is one of the tokens. It
goes through every reader by `Stays.andThen`, and for a whole token list
it says that the token an error is about is one of the list
(`found_mem_of_program`).
-/

set_option autoImplicit false

namespace LoxLang

variable {α β : Type}

/-! ### Kinds of tokens -/

/-- The kinds of token that an expression is made of. -/
def Expr.kinds : List Token.Kind :=
  [.equal, .or, .and, .equalEqual, .bangEqual, .greater, .greaterEqual, .less, .lessEqual,
   .plus, .minus, .star, .slash, .percent, .bang, .number, .string, .true, .false, .nil,
   .leftParen, .rightParen, .identifier]

/-- The kinds of token that a clause is made of, which has no statement
in it. -/
def Stmt.clauseKinds : List Token.Kind :=
  [.semicolon, .var] ++ Expr.kinds

/-- The kinds of token that a statement is made of. -/
def Stmt.kinds : List Token.Kind :=
  [.print, .leftBrace, .rightBrace, .if, .else, .while, .for] ++ Stmt.clauseKinds

/-- The kinds of token that begin a statement with other statements in
it. -/
def Stmt.compoundKinds : List Token.Kind := [.leftBrace, .if, .while, .for]

/-- The kinds of token that begin a statement and stand nowhere else. -/
def Stmt.openers : List Token.Kind := .print :: Stmt.compoundKinds

theorem Expr.kinds_subset_clauseKinds : Expr.kinds ⊆ Stmt.clauseKinds :=
  List.subset_append_right _ _

theorem Stmt.clauseKinds_subset_kinds : Stmt.clauseKinds ⊆ Stmt.kinds :=
  List.subset_append_right _ _

/-! ### Taking tokens -/

variable {kinds kinds' : List Token.Kind}

/-- Some tokens of the given kinds are taken from the front of others. -/
def Takes (kinds : List Token.Kind) (ts rest : List Token) : Prop :=
  ∃ taken, ts = taken ++ rest ∧ ∀ t ∈ taken, t.kind ∈ kinds

namespace Takes

variable {ts us rest : List Token}

theorem refl (ts : List Token) : Takes kinds ts ts :=
  ⟨[], rfl, by simp⟩

theorem trans (h : Takes kinds ts us) (h' : Takes kinds us rest) : Takes kinds ts rest := by
  obtain ⟨taken, rfl, htaken⟩ := h
  obtain ⟨taken', rfl, htaken'⟩ := h'
  refine ⟨taken ++ taken', by simp, fun t ht => ?_⟩
  rcases List.mem_append.mp ht with ht | ht
  · exact htaken t ht
  · exact htaken' t ht

theorem cons {t : Token} (ht : t.kind ∈ kinds) (rest : List Token) :
    Takes kinds (t :: rest) rest :=
  ⟨[t], rfl, by simpa using ht⟩

theorem mono (hkinds : kinds ⊆ kinds') (h : Takes kinds ts rest) : Takes kinds' ts rest := by
  obtain ⟨taken, rfl, htaken⟩ := h
  exact ⟨taken, rfl, fun t ht => hkinds (htaken t ht)⟩

theorem suffix (h : Takes kinds ts rest) : rest <:+ ts := by
  obtain ⟨taken, rfl, -⟩ := h
  exact List.suffix_append taken rest

/-- A token that is taken is of one of the kinds. -/
theorem of_front? {t : Token} (h : front? kinds' ts = some (t, rest)) (hkinds : kinds' ⊆ kinds) :
    Takes kinds ts rest := by
  obtain ⟨rfl, ht⟩ := front?_eq_some_iff.mp h
  exact .cons (hkinds ht) rest

/-- A token of another kind is not among those taken. -/
theorem suffix_of_notMem {t : Token} {behind : List Token} (h : Takes kinds ts rest)
    (ht : t.kind ∉ kinds) (hsuffix : t :: behind <:+ ts) : t :: behind <:+ rest := by
  rcases List.suffix_or_suffix_of_suffix hsuffix h.suffix with hshort | hlong
  · exact hshort
  rcases List.suffix_cons_iff.mp hlong with heq | ⟨between, rfl⟩
  · exact heq ▸ List.suffix_rfl
  -- it would stand among them, if some of them stood behind it
  · obtain ⟨taken, rfl, hkinds⟩ := h
    obtain ⟨front, hfront⟩ := hsuffix
    have hwhole : front ++ t :: between ++ rest = taken ++ rest := by
      rw [← hfront, List.append_assoc, List.cons_append]
    have htaken : front ++ t :: between = taken := List.append_cancel_right hwhole
    exact absurd (hkinds t (by rw [← htaken]; simp)) ht

end Takes

/-! ### Staying within tokens -/

/-- A failure leaves what is behind some tokens of the given kinds, and
the token it names is one of those that there were. -/
inductive Failure.Within (kinds : List Token.Kind) (ts : List Token) : Failure → Prop where
  | missing {expected : String} {rest : List Token} (h : Takes kinds ts rest) :
      Within kinds ts (.missing expected rest)
  | target {equals : Token} {rest : List Token} (hequals : equals ∈ ts)
      (h : Takes kinds ts rest) : Within kinds ts (.target equals rest)

/-- An answer for some tokens leaves what is behind those of them that
were taken, all of the given kinds. -/
inductive Stays (kinds : List Token.Kind) (ts : List Token) : Answer α → Prop where
  | ok {a : α} {rest : List Token} (h : Takes kinds ts rest) : Stays kinds ts (.ok (a, rest))
  | error {f : Failure} (h : f.Within kinds ts) : Stays kinds ts (.error f)

theorem Failure.Within.behind {ts us : List Token} {f : Failure} (htakes : Takes kinds ts us)
    (h : f.Within kinds us) : f.Within kinds ts := by
  cases h with
  | missing h => exact .missing (htakes.trans h)
  | target hequals h => exact .target (htakes.suffix.subset hequals) (htakes.trans h)

theorem Failure.Within.mono {ts : List Token} {f : Failure} (hkinds : kinds ⊆ kinds')
    (h : f.Within kinds ts) : f.Within kinds' ts := by
  cases h with
  | missing h => exact .missing (h.mono hkinds)
  | target hequals h => exact .target hequals (h.mono hkinds)

theorem Failure.Within.takes {ts : List Token} {f : Failure} (h : f.Within kinds ts) :
    Takes kinds ts f.rest := by
  cases h with
  | missing h => exact h
  | target _ h => exact h

namespace Stays

variable {ts us : List Token} {x : Answer α} {f : α → List Token → Answer β}

theorem behind (htakes : Takes kinds ts us) (h : Stays kinds us x) : Stays kinds ts x := by
  cases h with
  | ok h => exact .ok (htakes.trans h)
  | error h => exact .error (h.behind htakes)

theorem mono (hkinds : kinds ⊆ kinds') (h : Stays kinds ts x) : Stays kinds' ts x := by
  cases h with
  | ok h => exact .ok (h.mono hkinds)
  | error h => exact .error (h.mono hkinds)

/-- What is read behind an answer may stay within the tokens of both. -/
theorem andThen_of_takes (hx : Stays kinds ts x)
    (hf : ∀ a rest, x = .ok (a, rest) → Takes kinds ts rest → Stays kinds ts (f a rest)) :
    Stays kinds ts (andThen x f) := by
  cases hx with
  | ok h => exact hf _ _ rfl h
  | error h => exact .error h

theorem andThen (hx : Stays kinds ts x)
    (hf : ∀ a rest, x = .ok (a, rest) → Stays kinds rest (f a rest)) :
    Stays kinds ts (LoxLang.andThen x f) :=
  hx.andThen_of_takes fun a rest hok htakes => (hf a rest hok).behind htakes

theorem done (a : α) (ts : List Token) : Stays kinds ts (.ok (a, ts)) :=
  .ok (.refl ts)

/-- Where nothing is taken, nothing is left that there was not. -/
theorem missing (what : String) (ts : List Token) :
    Stays kinds ts (.error (.missing what ts) : Answer α) :=
  .error (.missing (.refl ts))

end Stays

theorem stays_expect {kind : Token.Kind} (hkind : kind ∈ kinds) (what : String)
    (ts : List Token) : Stays kinds ts (plain (expect kind what) ts) := by
  rw [plain_expect]
  split
  · exact .missing what ts
  · next h => exact .ok (.of_front? h (by simpa using hkind))

/-! ### Expressions -/

theorem Tier.operators_subset_kinds (tier : Tier) : tier.operators ⊆ Expr.kinds := by
  cases tier <;> decide

theorem Expr.kind_mem_of_ofToken? {t : Token} {e : Expr} (h : Expr.ofToken? t = some e) :
    t.kind ∈ Expr.kinds := by
  unfold Expr.ofToken? at h
  split at h <;> cases h <;> next hkind => rw [hkind]; decide

-- By recursion on the measures that the readers have.
mutual

theorem Expr.stays_read (ts : List Token) : Stays Expr.kinds ts (plain Expr.read ts) := by
  rw [Expr.plain_read]
  refine (Expr.stays_readTier .or ts).andThen fun left rest hleft => ?_
  split
  · exact .done left rest
  · next equals behind hfront =>
    have := length_lt_of_plain hleft
    have := length_lt_of_front? hfront
    have htakes : Takes Expr.kinds rest behind := .of_front? hfront (by decide)
    obtain ⟨rfl, -⟩ := front?_eq_some_iff.mp hfront
    -- seen from the equals sign on, so that a refused one is among the tokens
    have hbehind := (Expr.stays_read behind).behind htakes
    refine hbehind.andThen_of_takes fun right rest' _ htakes => ?_
    cases left with
    | «variable» name => exact .ok htakes
    | _ => exact .error (.target List.mem_cons_self htakes)
termination_by 16 * ts.length + 15

theorem Expr.stays_readTier (tier : Tier) (ts : List Token) :
    Stays Expr.kinds ts (plain (Expr.readTier tier) ts) := by
  rw [Expr.plain_readTier]
  refine (Expr.stays_readOperand tier ts).andThen fun first rest hfirst => ?_
  have := length_lt_of_plain hfirst
  exact Expr.stays_readChain tier first rest
termination_by 16 * ts.length + 2 * tier.height + 1

theorem Expr.stays_readOperand (tier : Tier) (ts : List Token) :
    Stays Expr.kinds ts (plain (Expr.readOperand tier) ts) := by
  rw [Expr.plain_readOperand]
  split
  · next inner hinner =>
    have := Tier.height_of_tighter? hinner
    exact Expr.stays_readTier inner ts
  · have := tier.height_pos
    exact Expr.stays_readUnary ts
termination_by 16 * ts.length + 2 * tier.height

theorem Expr.stays_readChain (tier : Tier) (left : Expr) (ts : List Token) :
    Stays Expr.kinds ts (plain (Expr.readChain tier left) ts) := by
  rw [Expr.plain_readChain]
  split
  · exact .done left ts
  · next operator behind hfront =>
    have := length_lt_of_front? hfront
    have := tier.height_le
    refine .behind (.of_front? hfront tier.operators_subset_kinds)
      ((Expr.stays_readOperand tier behind).andThen fun right rest hright => ?_)
    have := length_lt_of_plain hright
    exact Expr.stays_readChain tier _ rest
termination_by 16 * ts.length + 14

theorem Expr.stays_readUnary (ts : List Token) :
    Stays Expr.kinds ts (plain Expr.readUnary ts) := by
  rw [Expr.plain_readUnary]
  split
  · exact Expr.stays_readPrimary ts
  · next operator behind hfront =>
    have := length_lt_of_front? hfront
    exact .behind (.of_front? hfront (by decide))
      ((Expr.stays_readUnary behind).andThen fun operand rest _ => .done _ rest)
termination_by 16 * ts.length + 1

theorem Expr.stays_readPrimary (ts : List Token) :
    Stays Expr.kinds ts (plain Expr.readPrimary ts) := by
  cases ts with
  | nil =>
    rw [Expr.plain_readPrimary_nil]
    exact .missing _ []
  | cons t rest =>
    rw [Expr.plain_readPrimary]
    split
    · next htoken => exact .ok (.cons (Expr.kind_mem_of_ofToken? htoken) rest)
    · split
      · next hkind =>
        refine .behind (.cons (by rw [hkind]; decide) rest)
          ((Expr.stays_read rest).andThen fun inner rest' _ => ?_)
        exact (stays_expect (by decide) _ rest').andThen fun _ rest'' _ => .done _ rest''
      -- the token is no operand, and it stays where it is
      · exact .missing _ _
termination_by 16 * ts.length

end

/-! ### Clauses of statements -/

/-- An expression may be a part of a clause. -/
theorem Expr.stays_clause (ts : List Token) : Stays Stmt.clauseKinds ts (plain Expr.read ts) :=
  (Expr.stays_read ts).mono Expr.kinds_subset_clauseKinds

theorem Stmt.stays_readPrint (keyword : Token) (ts : List Token) :
    Stays Stmt.clauseKinds ts (plain (Stmt.readPrint keyword) ts) := by
  rw [Stmt.plain_readPrint]
  refine (Expr.stays_clause ts).andThen fun e rest _ => ?_
  exact (stays_expect (by decide) _ rest).andThen fun _ rest' _ => .done _ rest'

theorem Stmt.stays_readVar (ts : List Token) :
    Stays Stmt.clauseKinds ts (plain Stmt.readVar ts) := by
  rw [Stmt.plain_readVar]
  refine (stays_expect (by decide) _ ts).andThen fun name rest₁ _ => ?_
  refine (stays_expect (by decide) _ rest₁).andThen fun _ rest₂ _ => ?_
  refine (Expr.stays_clause rest₂).andThen fun e rest₃ _ => ?_
  exact (stays_expect (by decide) _ rest₃).andThen fun _ rest₄ _ => .done _ rest₄

theorem Stmt.stays_readExpression (ts : List Token) :
    Stays Stmt.clauseKinds ts (plain Stmt.readExpression ts) := by
  rw [Stmt.plain_readExpression]
  refine (Expr.stays_clause ts).andThen fun e rest _ => ?_
  exact (stays_expect (by decide) _ rest).andThen fun _ rest' _ => .done _ rest'

theorem Expr.stays_readCondition (before after : String) (ts : List Token) :
    Stays Stmt.clauseKinds ts (plain (Expr.readCondition before after) ts) := by
  rw [Expr.plain_readCondition]
  refine (stays_expect (by decide) _ ts).andThen fun _ rest₁ _ => ?_
  refine (Expr.stays_clause rest₁).andThen fun e rest₂ _ => ?_
  exact (stays_expect (by decide) _ rest₂).andThen fun _ rest₃ _ => .done _ rest₃

theorem Expr.stays_readUnless (kind : Token.Kind) (ts : List Token) :
    Stays Stmt.clauseKinds ts (plain (Expr.readUnless kind) ts) := by
  rw [Expr.plain_readUnless]
  split
  · exact .done none ts
  · exact (Expr.stays_clause ts).andThen fun e rest _ => .done _ rest

theorem Stmt.stays_readInitial (ts : List Token) :
    Stays Stmt.clauseKinds ts (plain Stmt.readInitial ts) := by
  rw [Stmt.plain_readInitial]
  split
  · next hfront => exact .ok (.of_front? hfront (by decide))
  · next hfront =>
    exact .behind (.of_front? hfront (by decide))
      ((Stmt.stays_readVar _).andThen fun s rest _ => .done _ rest)
  · exact (Stmt.stays_readExpression ts).andThen fun s rest _ => .done _ rest

theorem ForClauses.stays_read (ts : List Token) :
    Stays Stmt.clauseKinds ts (plain ForClauses.read ts) := by
  rw [ForClauses.plain_read]
  refine (stays_expect (by decide) _ ts).andThen fun _ rest₁ _ => ?_
  refine (Stmt.stays_readInitial rest₁).andThen fun initial rest₂ _ => ?_
  refine (Expr.stays_readUnless _ rest₂).andThen fun condition rest₃ _ => ?_
  refine (stays_expect (by decide) _ rest₃).andThen fun _ rest₄ _ => ?_
  refine (Expr.stays_readUnless _ rest₄).andThen fun increment rest₅ _ => ?_
  exact (stays_expect (by decide) _ rest₅).andThen fun _ rest₆ _ => .done _ rest₆

/-! ### Statements -/

/-- A clause may be a part of a statement. -/
theorem Stays.statement {x : Answer α} {ts : List Token} (h : Stays Stmt.clauseKinds ts x) :
    Stays Stmt.kinds ts x :=
  h.mono Stmt.clauseKinds_subset_kinds

mutual

theorem Stmt.stays_read (ts : List Token) : Stays Stmt.kinds ts (plain Stmt.read ts) := by
  cases ts with
  | nil =>
    rw [Stmt.plain_read_nil]
    exact .missing _ []
  | cons t rest =>
    rw [Stmt.plain_read]
    have htakes {kind : Token.Kind} (hkind : t.kind = kind) (hmem : kind ∈ Stmt.kinds) :
        Takes Stmt.kinds (t :: rest) rest := .cons (hkind ▸ hmem) rest
    split
    · next hkind => exact .behind (htakes hkind (by decide)) (Stmt.stays_readPrint t rest).statement
    · next hkind => exact .behind (htakes hkind (by decide)) (Stmt.stays_readVar rest).statement
    · next hkind =>
      exact .behind (htakes hkind (by decide))
        ((Stmt.stays_readBlock rest).andThen fun body rest' _ => .done _ rest')
    · next hkind => exact .behind (htakes hkind (by decide)) (Stmt.stays_readIf rest)
    · next hkind => exact .behind (htakes hkind (by decide)) (Stmt.stays_readWhile rest)
    · next hkind => exact .behind (htakes hkind (by decide)) (Stmt.stays_readFor rest)
    · exact (Stmt.stays_readExpression (t :: rest)).statement
termination_by 4 * ts.length + 1

theorem Stmt.stays_readBlock (ts : List Token) :
    Stays Stmt.kinds ts (plain Stmt.readBlock ts) := by
  rw [Stmt.plain_readBlock]
  split
  · exact .missing _ []
  · next t rest =>
    split
    · next hkind => exact .ok (.cons (by rw [hkind]; decide) rest)
    · refine (Stmt.stays_read (t :: rest)).andThen fun first rest' hfirst => ?_
      have := length_lt_of_plain hfirst
      exact (Stmt.stays_readBlock rest').andThen fun others rest'' _ => .done _ rest''
termination_by 4 * ts.length + 2

theorem Stmt.stays_readIf (ts : List Token) : Stays Stmt.kinds ts (plain Stmt.readIf ts) := by
  rw [Stmt.plain_readIf]
  refine (Expr.stays_readCondition _ _ ts).statement.andThen fun condition rest₁ hcondition => ?_
  have := length_lt_of_plain hcondition
  refine (Stmt.stays_read rest₁).andThen fun consequent rest₂ hconsequent => ?_
  have := length_lt_of_plain hconsequent
  split
  · exact .done _ rest₂
  · next hfront =>
    have := length_lt_of_front? hfront
    exact .behind (.of_front? hfront (by decide))
      ((Stmt.stays_read _).andThen fun alternative rest₃ _ => .done _ rest₃)
termination_by 4 * ts.length

theorem Stmt.stays_readWhile (ts : List Token) :
    Stays Stmt.kinds ts (plain Stmt.readWhile ts) := by
  rw [Stmt.plain_readWhile]
  refine (Expr.stays_readCondition _ _ ts).statement.andThen fun condition rest hcondition => ?_
  have := length_lt_of_plain hcondition
  exact (Stmt.stays_read rest).andThen fun body rest' _ => .done _ rest'
termination_by 4 * ts.length

theorem Stmt.stays_readFor (ts : List Token) : Stays Stmt.kinds ts (plain Stmt.readFor ts) := by
  rw [Stmt.plain_readFor]
  refine (ForClauses.stays_read ts).statement.andThen fun clauses rest hclauses => ?_
  have := length_lt_of_plain hclauses
  exact (Stmt.stays_read rest).andThen fun body rest' _ => .done _ rest'
termination_by 4 * ts.length

end

/-- A statement is read from tokens that are no end. -/
theorem Stmt.kind_ne_eof_of_read {ts rest : List Token} {s : Stmt}
    (hread : plain Stmt.read (ts ++ rest) = .ok (s, rest)) : ∀ t ∈ ts, t.kind ≠ .eof := by
  have hstays := Stmt.stays_read (ts ++ rest)
  rw [hread] at hstays
  obtain ⟨taken, htaken, hkinds⟩ := hstays
  obtain rfl := List.append_cancel_right htaken
  intro t ht heof
  exact absurd (heof ▸ hkinds t ht) (by decide)

/-! ### Token lists -/

theorem Stmt.within_of_readAll {ts : List Token} {f : Failure}
    (h : Stmt.readAll ts = .error f) : f.Within Stmt.kinds ts := by
  cases ts with
  | nil =>
    rw [Stmt.readAll_nil] at h
    cases h
  | cons t ts =>
    have hfirst := Stmt.stays_read (t :: ts)
    rcases Stmt.readAll_cons_eq_error_iff.mp h with hread | ⟨first, rest, hread, hothers⟩
    · rw [hread] at hfirst
      cases hfirst
      assumption
    · have := length_lt_of_plain hread
      rw [hread] at hfirst
      obtain ⟨htakes⟩ := hfirst
      exact (Stmt.within_of_readAll hothers).behind htakes
termination_by ts.length

/-- The token that a failure is about is one of those that were read, or
the one of the end. -/
theorem Failure.Within.found_mem {ts : List Token} {f : Failure} (h : f.Within kinds ts)
    (eof : Token) : (f.misplaced eof).found ∈ ts ∨ (f.misplaced eof).found = eof := by
  cases h with
  | @missing expected rest h =>
    -- where no token is left, it is the end that is found
    cases rest with
    | nil => exact .inr rfl
    | cons t rest => exact .inl (h.suffix.subset List.mem_cons_self)
  | target hequals => exact .inl hequals

theorem endOf_mem {tokens : List Token} (hend : ∃ t ∈ tokens, t.kind = .eof) :
    endOf tokens ∈ tokens := by
  -- `endOf` is the first end that it finds, and makes one up only where there is none
  have hsome : (tokens.find? (·.kind = .eof)).isSome := by simpa using hend
  obtain ⟨eof, heof⟩ := Option.isSome_iff_exists.mp hsome
  rw [endOf, heof]
  exact List.mem_of_find?_eq_some heof

/-- The error of a misplaced token is one of the grammar. -/
theorem Misplaced.grammar (m : Misplaced) :
    m.error.internal = false ∧ m.error.cause = .grammar m.found m.expected := by
  rw [Misplaced.error, Misplaced.draft, Error.Draft.expected]
  split <;> exact ⟨rfl, rfl⟩

/-- What is found where something else was expected is a token of the
list, if the list has an end. -/
theorem found_mem_of_program {tokens : List Token} {m : Misplaced}
    (hend : ∃ t ∈ tokens, t.kind = .eof) (h : program tokens = .error m) :
    m.found ∈ tokens := by
  rw [program] at h
  cases hread : Stmt.readAll (bodyOf tokens) with
  | ok ss => rw [hread] at h; cases h
  | error f =>
    rw [hread] at h
    cases h
    rcases (Stmt.within_of_readAll hread).found_mem (endOf tokens) with hfound | hfound
    · exact (List.takeWhile_sublist _).subset hfound
    · rw [hfound]
      exact endOf_mem hend

end LoxLang
