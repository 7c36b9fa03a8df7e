import LoxLang.Proofs.Grammar.Derivation
import LoxLang.Proofs.Grammar.Readers

/-!
# `LoxLang.Proofs.Grammar.Expressions`: expressions are read as derived

The tokens that a reader of expressions takes denote the expression it
gives, and where tokens denote an expression it takes just them,
provided that what stands behind them does not go on with it.

* `Expr.derives_of_read`: what is read is derivable;
* `Expr.Derives.completes`: what is derivable is read, for each level
  in the form its chain needs;
* `Expr.Derives.plain_read`: the same for whole expressions.
-/

set_option autoImplicit false

namespace LoxLang

/-! ### Tiers and levels -/

namespace Tier

/-- The level of the chains of a tier. -/
def level : Tier → Expr.Level
  | .or => .or
  | .and => .and
  | .equality => .equality
  | .comparison => .comparison
  | .term => .term
  | .factor => .factor

/-- The level of the operands of a tier. -/
def operandLevel (tier : Tier) : Expr.Level :=
  match tier.tighter? with
  | some inner => inner.level
  | none => .unary

/-- The reader's table of tiers has the rows of the grammar. -/
theorem chain (tier : Tier) :
    tier.level.Chain tier.operators tier.operandLevel tier.join := by
  cases tier <;> constructor

/-- The reader's table of tiers has all rows of the grammar. -/
theorem exists_of_chain {level inner : Expr.Level} {operators : List Token.Kind}
    {node : Expr → Token → Expr → Expr} (h : level.Chain operators inner node) :
    ∃ tier : Tier, level = tier.level ∧ operators = tier.operators ∧
      inner = tier.operandLevel ∧ node = tier.join := by
  cases h
  case or => exact ⟨.or, rfl, rfl, rfl, rfl⟩
  case and => exact ⟨.and, rfl, rfl, rfl, rfl⟩
  case equality => exact ⟨.equality, rfl, rfl, rfl, rfl⟩
  case comparison => exact ⟨.comparison, rfl, rfl, rfl, rfl⟩
  case term => exact ⟨.term, rfl, rfl, rfl, rfl⟩
  case factor => exact ⟨.factor, rfl, rfl, rfl, rfl⟩

/-- The tier of an operator. -/
def ofOperator? : Token.Kind → Option Tier
  | .or => some .or
  | .and => some .and
  | .equalEqual | .bangEqual => some .equality
  | .greater | .greaterEqual | .less | .lessEqual => some .comparison
  | .plus | .minus => some .term
  | .star | .slash | .percent => some .factor
  | _ => none

theorem ofOperator?_of_mem {tier : Tier} {kind : Token.Kind} (h : kind ∈ tier.operators) :
    ofOperator? kind = some tier := by
  cases tier <;> simp only [operators, List.mem_cons, List.not_mem_nil, or_false] at h <;>
    grind [ofOperator?]

end Tier

/-! ### What is read is derivable -/

/-- Tokens that denote a variable are its name. -/
theorem Expr.Derives.eq_variable {level : Expr.Level} {ts : List Token} {name : Token}
    (h : Expr.Derives level ts (.variable name)) : ts = [name] ∧ name.kind = .identifier := by
  generalize he : Expr.variable name = e at h
  induction h with
  | expression _ ih | operand _ _ ih | unary _ ih => exact ih he
  | chain hlevel =>
    obtain ⟨tier, -, -, -, rfl⟩ := Tier.exists_of_chain hlevel
    cases tier <;> cases he
  | «variable» hname => cases he; exact ⟨rfl, hname⟩
  | _ => cases he

theorem Expr.assigned_eq_ok_iff {equals : Token} {left right : Expr} {rest : List Token}
    {r : Expr × List Token} :
    Expr.assigned equals right rest left = .ok r ↔
      ∃ name, left = .variable name ∧ r = (.assign name right, rest) := by
  cases left <;> simp [Expr.assigned, eq_comm]

theorem Expr.derives_of_ofToken? {t : Token} {e : Expr} (h : Expr.ofToken? t = some e) :
    Expr.Derives .primary [t] e := by
  unfold Expr.ofToken? at h
  split at h <;> cases h
  case h_1 hkind => exact .true hkind
  case h_2 hkind => exact .false hkind
  case h_3 hkind => exact .nil hkind
  case h_4 hkind => exact .payload (.inl hkind)
  case h_5 hkind => exact .payload (.inr hkind)
  case h_6 hkind => exact .variable hkind

theorem expect_eq_ok_iff {kind : Token.Kind} {what : String} {ts rest : List Token}
    {t : Token} :
    plain (expect kind what) ts = .ok (t, rest) ↔ ts = t :: rest ∧ t.kind = kind := by
  rw [plain_expect]
  cases h : front? [kind] ts with
  | none =>
    simp only [reduceCtorEq, false_iff]
    rintro ⟨rfl, rfl⟩
    simp [front?_cons] at h
  | some p =>
    obtain ⟨t', rest'⟩ := p
    obtain ⟨rfl, hkind⟩ := front?_eq_some_iff.mp h
    simp only [Except.ok.injEq, Prod.mk.injEq, List.cons.injEq]
    grind

theorem expect_eq_error {kind : Token.Kind} {what : String} {ts : List Token} {f : Failure}
    (h : plain (expect kind what) ts = .error f) : f = .missing what ts := by
  rw [plain_expect] at h
  split at h <;> cases h
  rfl

-- One statement for each reader, by recursion on the measures that the readers have.
mutual

theorem Expr.derives_of_read {ts rest : List Token} {e : Expr}
    (hread : plain Expr.read ts = .ok (e, rest)) :
    ∃ us, ts = us ++ rest ∧ Expr.Derives .expression us e := by
  rw [Expr.plain_read] at hread
  obtain ⟨left, rest', hleft, h⟩ := andThen_eq_ok_iff.mp hread
  obtain ⟨us, rfl, hus⟩ := Expr.derives_of_readTier hleft
  split at h
  · cases h
    exact ⟨us, rfl, .expression hus⟩
  · next equals behind hfront =>
    obtain ⟨rfl, hequals⟩ := front?_eq_some_iff.mp hfront
    obtain ⟨right, rest'', hright, hassigned⟩ := andThen_eq_ok_iff.mp h
    obtain ⟨vs, rfl, hvs⟩ := Expr.derives_of_read hright
    -- the target is read as a chain of `or` and turns out to be a variable, so it is
    -- one token and no other derivation of it competes
    obtain ⟨name, rfl, hr⟩ := Expr.assigned_eq_ok_iff.mp hassigned
    cases hr
    obtain ⟨rfl, hname⟩ := hus.eq_variable
    exact ⟨name :: equals :: vs, rfl, .assign hname (by simpa using hequals) hvs⟩
termination_by 16 * ts.length + 15

theorem Expr.derives_of_readTier {tier : Tier} {ts rest : List Token} {e : Expr}
    (hread : plain (Expr.readTier tier) ts = .ok (e, rest)) :
    ∃ us, ts = us ++ rest ∧ Expr.Derives tier.level us e := by
  rw [Expr.plain_readTier] at hread
  obtain ⟨first, rest', hfirst, h⟩ := andThen_eq_ok_iff.mp hread
  have := length_lt_of_plain hfirst
  obtain ⟨us, rfl, hus⟩ := Expr.derives_of_readOperand hfirst
  obtain ⟨vs, rfl, hvs⟩ := Expr.derives_of_readChain h (.operand tier.chain hus)
  exact ⟨us ++ vs, (List.append_assoc ..).symm, hvs⟩
termination_by 16 * ts.length + 2 * tier.height + 1

theorem Expr.derives_of_readOperand {tier : Tier} {ts rest : List Token} {e : Expr}
    (hread : plain (Expr.readOperand tier) ts = .ok (e, rest)) :
    ∃ us, ts = us ++ rest ∧ Expr.Derives tier.operandLevel us e := by
  rw [Expr.plain_readOperand] at hread
  rw [Tier.operandLevel]
  cases htier : tier.tighter? with
  | some inner =>
    have := Tier.height_of_tighter? htier
    rw [htier] at hread
    exact Expr.derives_of_readTier hread
  | none =>
    have := tier.height_pos
    rw [htier] at hread
    exact Expr.derives_of_readUnary hread
termination_by 16 * ts.length + 2 * tier.height

/-- What a chain goes on with extends what stands on its left. -/
theorem Expr.derives_of_readChain {tier : Tier} {left e : Expr} {ts rest us : List Token}
    (hread : plain (Expr.readChain tier left) ts = .ok (e, rest))
    (hleft : Expr.Derives tier.level us left) :
    ∃ vs, ts = vs ++ rest ∧ Expr.Derives tier.level (us ++ vs) e := by
  rw [Expr.plain_readChain] at hread
  split at hread
  · cases hread
    exact ⟨[], rfl, by simpa using hleft⟩
  · next operator behind hfront =>
    have := length_lt_of_front? hfront
    obtain ⟨rfl, hoperator⟩ := front?_eq_some_iff.mp hfront
    obtain ⟨right, rest', hright, hchain⟩ := andThen_eq_ok_iff.mp hread
    have := tier.height_le
    obtain ⟨vs, rfl, hvs⟩ := Expr.derives_of_readOperand hright
    -- what stands on the left is now longer by the operator and its right operand
    obtain ⟨ws, rfl, hws⟩ :=
      Expr.derives_of_readChain hchain (.chain tier.chain hleft hoperator hvs)
    exact ⟨operator :: (vs ++ ws), by simp, by simpa using hws⟩
termination_by 16 * ts.length + 14

theorem Expr.derives_of_readUnary {ts rest : List Token} {e : Expr}
    (hread : plain Expr.readUnary ts = .ok (e, rest)) :
    ∃ us, ts = us ++ rest ∧ Expr.Derives .unary us e := by
  rw [Expr.plain_readUnary] at hread
  split at hread
  · obtain ⟨us, rfl, hus⟩ := Expr.derives_of_readPrimary hread
    exact ⟨us, rfl, .unary hus⟩
  · next operator behind hfront =>
    obtain ⟨rfl, hoperator⟩ := front?_eq_some_iff.mp hfront
    obtain ⟨operand, rest', hoperand, hr⟩ := andThen_eq_ok_iff.mp hread
    obtain ⟨us, rfl, hus⟩ := Expr.derives_of_readUnary hoperand
    cases hr
    exact ⟨operator :: us, rfl, .prefixed (by simpa [unaryOperators] using hoperator) hus⟩
termination_by 16 * ts.length + 1

theorem Expr.derives_of_readPrimary {ts rest : List Token} {e : Expr}
    (hread : plain Expr.readPrimary ts = .ok (e, rest)) :
    ∃ us, ts = us ++ rest ∧ Expr.Derives .primary us e := by
  cases ts with
  | nil => simp at hread
  | cons t ts =>
    rw [Expr.plain_readPrimary] at hread
    split at hread
    · next e' he' =>
      cases hread
      exact ⟨[t], rfl, Expr.derives_of_ofToken? he'⟩
    · split at hread
      · next hopening =>
        obtain ⟨inner, rest', hinner, h⟩ := andThen_eq_ok_iff.mp hread
        obtain ⟨us, rfl, hus⟩ := Expr.derives_of_read hinner
        obtain ⟨closing, rest'', hexpect, hr⟩ := andThen_eq_ok_iff.mp h
        obtain ⟨rfl, hclosing⟩ := expect_eq_ok_iff.mp hexpect
        cases hr
        exact ⟨t :: (us ++ [closing]), by simp, .grouping hopening hus hclosing⟩
      · cases hread
termination_by 16 * ts.length

end

/-! ### What is derivable is read -/

namespace Tier

variable {tier : Tier} {rest : List Token}

/-- No operator of a tighter tier is ahead, so that an operand has
ended. -/
def OperandEnds (tier : Tier) (rest : List Token) : Prop :=
  ∀ t : Tier, t.height < tier.height → front? t.operators rest = none

/-- No operator of the tier or of a tighter one is ahead, so that a
chain has ended. -/
def Ends (tier : Tier) (rest : List Token) : Prop :=
  ∀ t : Tier, t.height ≤ tier.height → front? t.operators rest = none

theorem Ends.operandEnds (h : tier.Ends rest) : tier.OperandEnds rest :=
  fun t ht => h t (Nat.le_of_lt ht)

/-- An operand of a tier ends where a chain of the next one does. -/
theorem OperandEnds.ends {inner : Tier} (h : tier.OperandEnds rest)
    (hinner : tier.tighter? = some inner) : inner.Ends rest := by
  have hheight := height_of_tighter? hinner
  exact fun t ht => h t (by omega)

/-- A token that is no operator ends every chain. -/
theorem ends_cons {t : Token} (h : ofOperator? t.kind = none) : tier.Ends (t :: rest) := by
  intro t' _
  rw [front?_cons, if_neg]
  intro hmem
  rw [ofOperator?_of_mem hmem] at h
  cases h

/-- An operator ends the operands of its own tier. -/
theorem operandEnds_cons {t : Token} (h : t.kind ∈ tier.operators) :
    tier.OperandEnds (t :: rest) := by
  intro t' ht'
  rw [front?_cons, if_neg]
  intro hmem
  -- an operator belongs to one tier only
  have hsame := (ofOperator?_of_mem hmem).symm.trans (ofOperator?_of_mem h)
  cases hsame
  exact Nat.lt_irrefl _ ht'

theorem Ends.plain_readChain {e : Expr} (h : tier.Ends rest) :
    plain (Expr.readChain tier e) rest = .ok (e, rest) := by
  rw [Expr.plain_readChain, h tier (Nat.le_refl _)]

/-- Reading the tokens as a chain of the tier comes to go on with the
chain behind them, whether or not it has ended there. -/
def Completes (tier : Tier) (ts : List Token) (e : Expr) : Prop :=
  ∀ rest, tier.OperandEnds rest →
    plain (Expr.readTier tier) (ts ++ rest) =
      plain (Expr.readChain tier e) rest

end Tier

/-- Reading the tokens as an expression of the level gives the tree. -/
def Expr.Level.Completes : Expr.Level → List Token → Expr → Prop
  | .expression, ts, e => ∀ rest, Tier.or.Ends rest → front? [.equal] rest = none →
      plain Expr.read (ts ++ rest) = .ok (e, rest)
  | .or, ts, e => Tier.or.Completes ts e
  | .and, ts, e => Tier.and.Completes ts e
  | .equality, ts, e => Tier.equality.Completes ts e
  | .comparison, ts, e => Tier.comparison.Completes ts e
  | .term, ts, e => Tier.term.Completes ts e
  | .factor, ts, e => Tier.factor.Completes ts e
  | .unary, ts, e => ∀ rest, plain Expr.readUnary (ts ++ rest) = .ok (e, rest)
  | .primary, ts, e => ∀ rest, plain Expr.readPrimary (ts ++ rest) = .ok (e, rest)

theorem Tier.completes_level {tier : Tier} {ts : List Token} {e : Expr} :
    tier.level.Completes ts e ↔ tier.Completes ts e := by
  cases tier <;> rfl

/-- An operand is read whole where it ends. -/
theorem Tier.plain_readOperand_of_completes {tier : Tier} {ts rest : List Token} {e : Expr}
    (h : tier.operandLevel.Completes ts e) (hrest : tier.OperandEnds rest) :
    plain (Expr.readOperand tier) (ts ++ rest) = .ok (e, rest) := by
  rw [Expr.plain_readOperand]
  rw [Tier.operandLevel] at h
  cases htier : tier.tighter? with
  | some inner =>
    rw [htier] at h
    have hends := hrest.ends htier
    exact (Tier.completes_level.mp h rest hends.operandEnds).trans hends.plain_readChain
  | none =>
    rw [htier] at h
    exact h rest

/-- A unary expression that nothing goes on with is a chain of every
tier. -/
theorem Tier.plain_readTier_of_readUnary {ts rest : List Token} {e : Expr} (tier : Tier)
    (h : plain Expr.readUnary ts = .ok (e, rest)) (hrest : tier.Ends rest) :
    plain (Expr.readTier tier) ts = .ok (e, rest) := by
  -- it is an operand, since it is a chain of the next tier already
  have hoperand : plain (Expr.readOperand tier) ts = .ok (e, rest) := by
    rw [Expr.plain_readOperand]
    cases htier : tier.tighter? with
    | some inner =>
      have := Tier.height_of_tighter? htier
      exact inner.plain_readTier_of_readUnary h (hrest.operandEnds.ends htier)
    | none => exact h
  rw [Expr.plain_readTier, hoperand, andThen_ok]
  exact hrest.plain_readChain
termination_by tier.height

/-- A token of a kind, with the text of the kind. -/
def Token.ofKind (kind : Token.Kind) : Token :=
  { kind, lexeme := kind.text, line := 1 }

theorem expect_cons {kind : Token.Kind} {what : String} {rest : List Token} {t : Token}
    (h : t.kind = kind) : plain (expect kind what) (t :: rest) = .ok (t, rest) :=
  expect_eq_ok_iff.mpr ⟨rfl, h⟩

/-- No primary expression begins with an operator. -/
theorem Expr.Derives.front?_unaryOperators {ts rest : List Token} {e : Expr}
    (h : Expr.Derives .primary ts e) : front? unaryOperators (ts ++ rest) = none := by
  cases h with
  | payload h => rcases h with h | h <;> simp [front?_cons, h, unaryOperators]
  -- the primary level is no chain
  | operand hlevel | chain hlevel => cases hlevel
  | true h | false h | nil h | grouping h | «variable» h =>
    simp [front?_cons, h, unaryOperators]

/-- Where tokens denote an expression of a level, it is read from
them. -/
theorem Expr.Derives.completes {level : Expr.Level} {ts : List Token} {e : Expr}
    (h : Expr.Derives level ts e) : level.Completes ts e := by
  -- Each level has its own statement, so one induction goes through all of them.
  induction h with
  | @assign name equals ts e hname hequals _ ih =>
    intro rest hrest hequal
    have hleft : plain Expr.readUnary (name :: equals :: (ts ++ rest)) =
        .ok (.variable name, equals :: (ts ++ rest)) := by
      simp [Expr.plain_readUnary, front?_cons, hname, unaryOperators,
        Expr.plain_readPrimary, Expr.ofToken?]
    have hends : Tier.or.Ends (equals :: (ts ++ rest)) := by
      apply Tier.ends_cons
      rw [hequals]
      rfl
    -- the name is read as a chain of `or` before the equals sign behind it is seen
    simp only [List.cons_append]
    rw [Expr.plain_read, Tier.or.plain_readTier_of_readUnary hleft hends]
    simp [front?_cons, hequals, ih rest hrest hequal, Expr.assigned]
  | @expression ts e _ ih =>
    intro rest hrest hequal
    rw [Expr.plain_read, ih rest hrest.operandEnds, hrest.plain_readChain]
    simp [hequal]
  | operand hlevel _ ih =>
    obtain ⟨tier, rfl, rfl, rfl, rfl⟩ := Tier.exists_of_chain hlevel
    rw [Tier.completes_level]
    intro rest hrest
    rw [Expr.plain_readTier, Tier.plain_readOperand_of_completes ih hrest, andThen_ok]
  | @chain _ _ _ _ ts us operator left right hlevel _ hoperator _ ihleft ihright =>
    obtain ⟨tier, rfl, rfl, rfl, rfl⟩ := Tier.exists_of_chain hlevel
    rw [Tier.completes_level] at ihleft ⊢
    intro rest hrest
    -- the reader has the left part in hand when it comes to the operator, which is why
    -- `Tier.Completes` speaks of going on and not of what is read in the end
    have hright := Tier.plain_readOperand_of_completes ihright hrest
    have hleft := ihleft (operator :: (us ++ rest)) (Tier.operandEnds_cons hoperator)
    rw [List.append_assoc, List.cons_append, hleft, Expr.plain_readChain]
    simp [front?_cons, hoperator, hright]
  | @prefixed operator ts e hoperator _ ih =>
    intro rest
    have hmem : operator.kind ∈ unaryOperators := by simpa [unaryOperators] using hoperator
    rw [List.cons_append, Expr.plain_readUnary]
    simp [front?_cons, hmem, ih rest]
  | @unary ts e h ih =>
    intro rest
    rw [Expr.plain_readUnary, h.front?_unaryOperators]
    exact ih rest
  | payload h =>
    intro rest
    rcases h with h | h <;> simp [Expr.plain_readPrimary, Expr.ofToken?, h]
  | true h | false h | nil h | «variable» h =>
    intro rest
    simp [Expr.plain_readPrimary, Expr.ofToken?, h]
  | @grouping opening closing ts e hopening _ hclosing ih =>
    intro rest
    -- the closing parenthesis ends whatever is inside
    have hinner : plain Expr.read (ts ++ closing :: rest) =
        .ok (e, closing :: rest) := by
      apply ih
      · apply Tier.ends_cons
        rw [hclosing]
        rfl
      · simp [front?_cons, hclosing]
    rw [List.cons_append, List.append_assoc, Expr.plain_readPrimary]
    simp [Expr.ofToken?, hopening, hinner, expect_cons hclosing]

/-- An expression in front of a token that nothing in an expression goes
on with is read whole. -/
theorem Expr.Derives.plain_read {ts rest : List Token} {e : Expr} {t : Token}
    (h : Expr.Derives .expression ts e) (ht : t.kind = .semicolon ∨ t.kind = .rightParen) :
    plain Expr.read (ts ++ t :: rest) = .ok (e, t :: rest) := by
  apply h.completes
  · apply Tier.ends_cons
    rcases ht with ht | ht <;> rw [ht] <;> rfl
  · rcases ht with ht | ht <;> simp [front?_cons, ht]

end LoxLang
