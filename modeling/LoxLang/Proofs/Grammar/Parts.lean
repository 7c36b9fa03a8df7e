import LoxLang.Proofs.Grammar.Failures

/-!
# `LoxLang.Proofs.Grammar.Parts`: statements inside of statements

A statement is a clause, a block, or a header with a statement behind
it. The reader goes the same way whether it succeeds or not
(`Stmt.readsAs`), so a fact about reading is proved for these three
alone.

* `Stmt.Heads`: what is read in front of the last part of a statement;
* `Stmt.ClauseFails`: a statement fails in a clause of its own;
* `Stmt.reads_of_suffix`: wherever the beginning of a statement stands
  among tokens that are read, a statement is read from it on.
-/

set_option autoImplicit false

namespace LoxLang

/-! ### The parts of a statement -/

/-- The kinds of token that a statement without parts is made of. -/
def Stmt.plainKinds : List Token.Kind := .print :: Stmt.clauseKinds

/-- What is read in front of the last part of a statement: a header, or
with an `else` all that stands in front of the alternative. -/
inductive Stmt.Heads : List Token → List Token → Prop where
  | if {t : Token} {ts rest : List Token} {condition : Expr} (ht : t.kind = .if)
      (h : plain (Expr.readCondition "'(' after 'if'" "')' after if condition") ts =
        .ok (condition, rest)) :
      Heads (t :: ts) rest
  | else {t other : Token} {ts rest₁ rest₂ rest : List Token} {condition : Expr}
      {consequent : Stmt} (ht : t.kind = .if)
      (h : plain (Expr.readCondition "'(' after 'if'" "')' after if condition") ts =
        .ok (condition, rest₁))
      (hconsequent : plain Stmt.read rest₁ = .ok (consequent, rest₂))
      (hother : front? [.else] rest₂ = some (other, rest)) :
      Heads (t :: ts) rest
  | while {t : Token} {ts rest : List Token} {condition : Expr} (ht : t.kind = .while)
      (h : plain (Expr.readCondition "'(' after 'while'" "')' after while condition") ts =
        .ok (condition, rest)) :
      Heads (t :: ts) rest
  | for {t : Token} {ts rest : List Token} {clauses : ForClauses} (ht : t.kind = .for)
      (h : plain ForClauses.read ts = .ok (clauses, rest)) :
      Heads (t :: ts) rest

/-- A clause of the statement itself fails, and none of a part of it. -/
inductive Stmt.ClauseFails (f : Failure) : List Token → Prop where
  | print {t : Token} {ts : List Token} (ht : t.kind = .print)
      (h : plain (Stmt.readPrint t) ts = .error f) : ClauseFails f (t :: ts)
  | var {t : Token} {ts : List Token} (ht : t.kind = .var)
      (h : plain Stmt.readVar ts = .error f) : ClauseFails f (t :: ts)
  | if {t : Token} {ts : List Token} (ht : t.kind = .if)
      (h : plain (Expr.readCondition "'(' after 'if'" "')' after if condition") ts = .error f) :
      ClauseFails f (t :: ts)
  | while {t : Token} {ts : List Token} (ht : t.kind = .while)
      (h : plain (Expr.readCondition "'(' after 'while'" "')' after while condition") ts =
        .error f) :
      ClauseFails f (t :: ts)
  | for {t : Token} {ts : List Token} (ht : t.kind = .for)
      (h : plain ForClauses.read ts = .error f) : ClauseFails f (t :: ts)
  | expression {ts : List Token} (hts : front? (.var :: Stmt.openers) ts = none)
      (h : plain Stmt.readExpression ts = .error f) : ClauseFails f ts

/-- How the answer of the reader comes about. -/
inductive Stmt.ReadsAs : List Token → Answer Stmt → Prop where
  | clause {ts rest : List Token} {s : Stmt} (h : Takes Stmt.plainKinds ts rest) :
      ReadsAs ts (.ok (s, rest))
  | fails {f : Failure} {ts : List Token} (h : Stmt.ClauseFails f ts) : ReadsAs ts (.error f)
  | block {t : Token} {ts : List Token} (ht : t.kind = .leftBrace) :
      ReadsAs (t :: ts) (andThen (plain Stmt.readBlock ts) fun body rest => .ok (.block body, rest))
  | headed {ts rest : List Token} (whole : Stmt → Stmt) (h : Stmt.Heads ts rest) :
      ReadsAs ts (andThen (plain Stmt.read rest) fun s rest => .ok (whole s, rest))

variable {ts rest : List Token}

theorem Stmt.Heads.length_lt (h : Stmt.Heads ts rest) : rest.length < ts.length := by
  cases h with
  | «if» _ h | «while» _ h | «for» _ h =>
    have := length_lt_of_plain h
    simp only [List.length_cons]
    omega
  | «else» _ h hconsequent hother =>
    have := length_lt_of_plain h
    have := length_lt_of_plain hconsequent
    have := length_lt_of_front? hother
    simp only [List.length_cons]
    omega

/-- A clause behind a keyword either is read or fails by itself. -/
theorem Stmt.readsAs_of_stays {t : Token} {x : Answer Stmt} (ht : t.kind ∈ Stmt.plainKinds)
    (h : Stays Stmt.clauseKinds ts x) (hfails : ∀ f, x = .error f → Stmt.ClauseFails f (t :: ts)) :
    Stmt.ReadsAs (t :: ts) x := by
  cases h with
  | ok h => exact .clause (.trans (.cons ht ts) (h.mono (List.subset_cons_self _ _)))
  | error _ => exact .fails (hfails _ rfl)

theorem Stmt.readsAs_if {t : Token} (ht : t.kind = .if) :
    Stmt.ReadsAs (t :: ts) (plain Stmt.readIf ts) := by
  rw [Stmt.plain_readIf]
  cases hcondition :
      plain (Expr.readCondition "'(' after 'if'" "')' after if condition") ts with
  | error f => exact .fails (.if ht hcondition)
  | ok p =>
    obtain ⟨condition, rest₁⟩ := p
    rw [andThen_ok]
    have hheads := Stmt.Heads.if ht hcondition
    cases hconsequent : plain Stmt.read rest₁ with
    | error f =>
      have hwhole := Stmt.ReadsAs.headed (.ifThen condition) hheads
      rw [hconsequent] at hwhole
      exact hwhole
    | ok p =>
      obtain ⟨consequent, rest₂⟩ := p
      rw [andThen_ok]
      cases hother : front? [.else] rest₂ with
      | none =>
        have hwhole := Stmt.ReadsAs.headed (.ifThen condition) hheads
        rw [hconsequent] at hwhole
        exact hwhole
      | some p =>
        exact .headed (.ifElse condition consequent) (.else ht hcondition hconsequent hother)

theorem Stmt.readsAs (ts : List Token) : Stmt.ReadsAs ts (plain Stmt.read ts) := by
  cases ts with
  | nil =>
    rw [Stmt.plain_read_nil]
    exact .fails (.expression rfl Stmt.plain_readExpression_nil)
  | cons t ts =>
    rw [Stmt.plain_read]
    split
    · next ht =>
      exact Stmt.readsAs_of_stays (by rw [ht]; decide) (Stmt.stays_readPrint t ts)
        fun f hf => .print ht hf
    · next ht =>
      exact Stmt.readsAs_of_stays (by rw [ht]; decide) (Stmt.stays_readVar ts)
        fun f hf => .var ht hf
    · next ht => exact .block ht
    · next ht => exact Stmt.readsAs_if ht
    · next ht =>
      rw [Stmt.plain_readWhile]
      cases hcondition :
          plain (Expr.readCondition "'(' after 'while'" "')' after while condition") ts with
      | error f => exact .fails (.while ht hcondition)
      | ok p => exact .headed (.while p.1) (.while ht hcondition)
    · next ht =>
      rw [Stmt.plain_readFor]
      cases hclauses : plain ForClauses.read ts with
      | error f => exact .fails (.for ht hclauses)
      | ok p => exact .headed _ (.for ht hclauses)
    · next hprint hvar hblock hif hwhile hfor =>
      -- none of the keywords is ahead, so it is an expression statement
      have hfront : front? (.var :: Stmt.openers) (t :: ts) = none := by
        rw [front?_cons, if_neg]
        simp only [Stmt.openers, Stmt.compoundKinds, List.mem_cons, List.not_mem_nil, or_false]
        rintro (h | h | h | h | h | h)
        · exact hvar h
        · exact hprint h
        · exact hblock h
        · exact hif h
        · exact hwhile h
        · exact hfor h
      cases hread : plain Stmt.readExpression (t :: ts) with
      | error f => exact .fails (.expression hfront hread)
      | ok p =>
        have hstays := Stmt.stays_readExpression (t :: ts)
        rw [hread] at hstays
        obtain ⟨htakes⟩ := hstays
        exact .clause (htakes.mono (List.subset_cons_self _ _))

/-! ### The parts of what is read -/

variable {t : Token} {behind : List Token}

/-- What begins a compound statement is not taken among tokens of other
kinds. -/
theorem Takes.suffix_of_compound {kinds : List Token.Kind} (h : Takes kinds ts rest)
    (hkinds : ∀ kind ∈ Stmt.compoundKinds, kind ∉ kinds) (ht : t.kind ∈ Stmt.compoundKinds)
    (hts : t :: behind <:+ ts) : t :: behind <:+ rest :=
  h.suffix_of_notMem (hkinds t.kind ht) hts

/-- A header that is read has no part of the statement in it, and what
is read in front of an alternative has the consequent. -/
theorem Stmt.Heads.suffix_cases (h : Stmt.Heads ts rest) (ht : t.kind ∈ Stmt.compoundKinds)
    (hts : t :: behind <:+ ts) :
    t :: behind = ts ∨ t :: behind <:+ rest ∨ ∃ rest₁ rest₂ consequent,
      plain Stmt.read rest₁ = .ok (consequent, rest₂) ∧ rest₁.length < ts.length ∧
        t :: behind <:+ rest₁ ∧ ¬ t :: behind <:+ rest₂ := by
  have hclause {α : Type} {a : α} {us us' : List Token}
      (hstays : Stays Stmt.clauseKinds us (.ok (a, us'))) (hus : t :: behind <:+ us) :
      t :: behind <:+ us' := by
    obtain ⟨htakes⟩ := hstays
    exact htakes.suffix_of_compound (by decide) ht hus
  cases h with
  | @«if» _ us _ _ _ hread | @«while» _ us _ _ _ hread =>
    rcases List.suffix_cons_iff.mp hts with heq | hus
    · exact .inl heq
    · exact .inr (.inl (hclause (hread ▸ Expr.stays_readCondition _ _ us) hus))
  | @«for» _ us _ _ _ hread =>
    rcases List.suffix_cons_iff.mp hts with heq | hus
    · exact .inl heq
    · exact .inr (.inl (hclause (hread ▸ ForClauses.stays_read us) hus))
  | @«else» _ _ us rest₁ rest₂ _ _ _ _ hread hconsequent hother =>
    rcases List.suffix_cons_iff.mp hts with heq | hus
    · exact .inl heq
    have hus₁ := hclause (hread ▸ Expr.stays_readCondition _ _ us) hus
    by_cases hus₂ : t :: behind <:+ rest₂
    · have htakes : Takes [.else] rest₂ rest := .of_front? hother (List.Subset.refl _)
      exact .inr (.inl (htakes.suffix_of_compound (by decide) ht hus₂))
    · have := length_lt_of_plain hread
      refine .inr (.inr ⟨rest₁, rest₂, _, hconsequent, ?_, hus₁, hus₂⟩)
      simp only [List.length_cons]
      omega

-- By recursion on the number of tokens. What is asked of the tokens behind is that the
-- part in question is among those that are taken.
mutual

/-- Wherever the beginning of a statement stands among the tokens of one,
a statement is read from it on. -/
theorem Stmt.reads_of_suffix {ts rest : List Token} {s : Stmt}
    (ht : t.kind ∈ Stmt.compoundKinds) (hread : plain Stmt.read ts = .ok (s, rest))
    (hts : t :: behind <:+ ts) (hrest : ¬ t :: behind <:+ rest) :
    ∃ p, plain Stmt.read (t :: behind) = .ok p := by
  have hreads := Stmt.readsAs ts
  generalize hx : plain Stmt.read ts = x at hreads hread
  cases hreads with
  | clause htakes =>
    -- no compound statement begins inside of a clause, so the part would be behind it
    cases hread
    exact absurd (htakes.suffix_of_compound (by decide) ht hts) hrest
  | fails => cases hread
  | block hopening =>
    rcases List.suffix_cons_iff.mp hts with heq | hts'
    · rw [heq]
      exact ⟨_, hx.trans hread⟩
    · obtain ⟨body, rest', hbody, hr⟩ := andThen_eq_ok_iff.mp hread
      cases hr
      exact Stmt.reads_of_suffix_block ht hbody hts' hrest
  | headed whole hheads =>
    obtain ⟨last, rest', hlast, hr⟩ := andThen_eq_ok_iff.mp hread
    cases hr
    have := hheads.length_lt
    -- the part is the whole, or it is in the last statement of it, or in the consequent
    -- in front of an alternative
    rcases hheads.suffix_cases ht hts with
      heq | hts' | ⟨rest₁, rest₂, consequent, hconsequent, hlength, hts₁, hts₂⟩
    · rw [heq]
      exact ⟨_, hx.trans hread⟩
    · exact Stmt.reads_of_suffix ht hlast hts' hrest
    · exact Stmt.reads_of_suffix ht hconsequent hts₁ hts₂
termination_by 2 * ts.length

theorem Stmt.reads_of_suffix_block {ts rest : List Token} {body : List Stmt}
    (ht : t.kind ∈ Stmt.compoundKinds) (hread : plain Stmt.readBlock ts = .ok (body, rest))
    (hts : t :: behind <:+ ts) (hrest : ¬ t :: behind <:+ rest) :
    ∃ p, plain Stmt.read (t :: behind) = .ok p := by
  rw [Stmt.plain_readBlock] at hread
  split at hread
  · cases hread
  · next u ts =>
    split at hread
    · next hu =>
      cases hread
      have htakes : Takes [.rightBrace] (u :: rest) rest := .cons (by simp [hu]) rest
      exact absurd (htakes.suffix_of_compound (by decide) ht hts) hrest
    · obtain ⟨first, rest₁, hfirst, h⟩ := andThen_eq_ok_iff.mp hread
      have := length_lt_of_plain hfirst
      obtain ⟨others, rest₂, hothers, hr⟩ := andThen_eq_ok_iff.mp h
      cases hr
      by_cases hts₁ : t :: behind <:+ rest₁
      · exact Stmt.reads_of_suffix_block ht hothers hts₁ hrest
      · exact Stmt.reads_of_suffix ht hfirst hts hts₁
termination_by 2 * ts.length + 1

end

theorem Stmt.reads_of_suffix_readAll {ts : List Token} {ss : List Stmt}
    (ht : t.kind ∈ Stmt.compoundKinds) (hread : Stmt.readAll ts = .ok ss)
    (hts : t :: behind <:+ ts) : ∃ p, plain Stmt.read (t :: behind) = .ok p := by
  cases ts with
  | nil => simp at hts
  | cons u ts =>
    obtain ⟨first, rest, others, hfirst, hothers, -⟩ := Stmt.readAll_cons_eq_ok_iff.mp hread
    have := length_lt_of_plain hfirst
    by_cases hrest : t :: behind <:+ rest
    · exact Stmt.reads_of_suffix_readAll ht hothers hrest
    · exact Stmt.reads_of_suffix ht hfirst hts hrest
termination_by ts.length

end LoxLang
