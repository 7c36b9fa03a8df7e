import LoxLang.Proofs.Grammar.Completion
import LoxLang.Proofs.Grammar.Locality
import LoxLang.TokenCursor

/-!
# `LoxLang.Proofs.Grammar.CorrectPrefix`: no error comes too late

Reading stops at the first token that no program goes on with. What
stands in front of that token can be completed, and what stands behind
it does not matter. The exception is the target of an assignment, which
is refused only behind the value.

* `Closed`, `Clause`: what a reader takes does not depend on what stands
  behind it, and can be completed where something is missing;
* `Stmt.viable_read`, `Stmt.viable_answerAll`: statements that are
  completed;
* `program_correctPrefix`: where an error of a token list stands.
-/

set_option autoImplicit false

namespace LoxLang

variable {α β : Type}

/-! ### Clauses -/

/-- What the reader takes does not depend on what stands behind it, and
where it finds something missing, what it has taken can be completed. -/
structure Closed (read : List Token → Answer α) : Prop where
  whole : ∀ {ts a rest}, read ts = .ok (a, rest) → ∃ front, ts = front ++ rest ∧
    ∀ rest', read (front ++ rest') = .ok (a, rest')
  viable : ∀ ts, Viable Always read ts
  fresh : Completable Always read []

/-- A closed reader that takes at least one token. -/
structure Clause (read : List Token → Answer α) : Prop extends Closed read where
  shorter : ∀ {ts a rest}, read ts = .ok (a, rest) → rest.length < ts.length

section Clauses

variable {read : List Token → Answer α} {ts : List Token}

theorem Closed.done (a : α) : Closed (fun ts => .ok (a, ts)) where
  whole := by
    rintro ts _ _ ⟨⟩
    exact ⟨[], rfl, fun _ => rfl⟩
  viable ts := .of_ok rfl
  fresh := ⟨[], by simp, .done a⟩

/-- Behind a closed reader, what the next one takes can be completed. -/
theorem Closed.viable_andThen {Ends : List Token → Prop} {f : α → List Token → Answer β}
    (h : Closed read) (hf : ∀ a rest, read ts = .ok (a, rest) → Viable Ends (f a) rest)
    (hfresh : ∀ a, Completable Ends (f a) []) :
    Viable Ends (fun ts => andThen (read ts) f) ts := by
  intro what rest hmissing
  rcases andThen_eq_error_iff.mp hmissing with hread | ⟨a, rest', hread, hnext⟩
  · obtain ⟨taken, hts, htaken⟩ := h.viable ts what rest hread
    exact ⟨taken, hts, htaken.andThen hfresh⟩
  · obtain ⟨front, rfl, hwhole⟩ := h.whole hread
    obtain ⟨taken, rfl, htaken⟩ := hf a rest' hread what rest hnext
    have hfront (us : List Token) :
        andThen (read (front ++ (taken ++ us))) f = f a (taken ++ us) := by
      rw [hwhole, andThen_ok]
    exact ⟨front ++ taken, (List.append_assoc ..).symm, htaken.behind hfront⟩

theorem Closed.andThen {f : α → List Token → Answer β} (h : Closed read)
    (hf : ∀ a, Closed (f a)) : Closed (fun ts => LoxLang.andThen (read ts) f) where
  whole hok := by
    obtain ⟨a, rest', hread, hnext⟩ := andThen_eq_ok_iff.mp hok
    obtain ⟨front, rfl, hwhole⟩ := h.whole hread
    obtain ⟨between, rfl, hwhole'⟩ := (hf a).whole hnext
    refine ⟨front ++ between, (List.append_assoc ..).symm, fun rest => ?_⟩
    rw [List.append_assoc, hwhole, andThen_ok, hwhole']
  viable ts := h.viable_andThen (fun a rest _ => (hf a).viable rest) fun a => (hf a).fresh
  fresh := h.fresh.andThen fun a => (hf a).fresh

theorem Clause.andThen {f : α → List Token → Answer β} (h : Clause read)
    (hf : ∀ a, Closed (f a)) : Clause (fun ts => LoxLang.andThen (read ts) f) where
  toClosed := h.toClosed.andThen hf
  shorter hok := by
    obtain ⟨a, rest', hread, hnext⟩ := andThen_eq_ok_iff.mp hok
    obtain ⟨between, rfl, -⟩ := (hf a).whole hnext
    have := h.shorter hread
    rw [List.length_append] at this
    omega

/-! ### Choices by the next token -/

variable {kind : Token.Kind} {found : Token → List Token → Answer α}

theorem Closed.completable_choice (hkind : kind ≠ .eof) (hfound : ∀ t, Closed (found t)) :
    Completable Always (choice [kind] found read) [] := by
  have hend : ∀ t ∈ [Token.ofKind kind], t.kind ≠ .eof := by simpa [Token.ofKind] using hkind
  have hread (us : List Token) : choice [kind] found read ([Token.ofKind kind] ++ ([] ++ us)) =
      found (Token.ofKind kind) ([] ++ us) :=
    choice_of_mem (List.mem_singleton_self kind) us
  -- a token of the kind is one way to begin
  have hbegun := (hfound (Token.ofKind kind)).fresh.behind hread
  rw [List.append_nil, ← List.nil_append [Token.ofKind kind]] at hbegun
  exact hbegun.of_append hend

/-- A choice by the next token is a clause if both ways are closed and at
least one token is taken. -/
theorem Clause.choice (hkind : kind ≠ .eof) (hfound : ∀ t, Closed (found t))
    (hother : Clause read) : Clause (LoxLang.choice [kind] found read) where
  whole {ts a rest} hok := by
    cases ts with
    | nil => exact absurd (hother.shorter hok) (Nat.not_lt_zero _)
    | cons t ts =>
      by_cases ht : t.kind ∈ [kind]
      · rw [choice_of_mem ht] at hok
        obtain ⟨front, rfl, hwhole⟩ := (hfound t).whole hok
        exact ⟨t :: front, rfl, fun rest' => by
          rw [List.cons_append, choice_of_mem ht, hwhole]⟩
      · rw [choice_of_notMem ht] at hok
        obtain ⟨front, hts, hwhole⟩ := hother.whole hok
        -- the other way takes at least the token that was looked at
        cases front with
        | nil =>
          have := hother.shorter hok
          rw [hts] at this
          exact absurd this (Nat.lt_irrefl _)
        | cons u front =>
          obtain ⟨rfl, rfl⟩ := List.cons.inj hts
          exact ⟨t :: front, rfl, fun rest' => by
            rw [List.cons_append, choice_of_notMem ht, ← List.cons_append, hwhole]⟩
  viable ts := by
    have hfresh : Completable Always (LoxLang.choice [kind] found read) [] :=
      Closed.completable_choice hkind hfound
    cases ts with
    | nil =>
      intro what rest hmissing
      obtain ⟨taken, hts, -⟩ := hother.viable [] what rest hmissing
      obtain ⟨rfl, rfl⟩ := List.nil_eq_append_iff.mp hts
      exact ⟨[], rfl, hfresh⟩
    | cons t rest =>
      by_cases ht : t.kind ∈ [kind]
      · exact .behind (choice_of_mem ht) ((hfound t).viable rest)
      · exact .congr (choice_of_notMem ht) hfresh (hother.viable (t :: rest))
  fresh := Closed.completable_choice hkind hfound
  shorter {ts a rest} hok := by
    cases ts with
    | nil => exact hother.shorter hok
    | cons t ts =>
      by_cases ht : t.kind ∈ [kind]
      · rw [choice_of_mem ht] at hok
        obtain ⟨front, rfl, -⟩ := (hfound t).whole hok
        simp only [List.length_cons, List.length_append]
        omega
      · rw [choice_of_notMem ht] at hok
        exact hother.shorter hok

end Clauses

/-! ### Clauses of statements -/

theorem clause_expect {kind : Token.Kind} (hkind : kind ≠ .eof) (what : String) :
    Clause (plain (expect kind what)) where
  whole hok := by
    obtain ⟨rfl, ht⟩ := expect_eq_ok_iff.mp hok
    exact ⟨[_], rfl, fun rest => expect_cons ht⟩
  viable ts what' rest hmissing := by
    cases expect_eq_error hmissing
    exact ⟨[], rfl, [Token.ofKind kind], by simpa [Token.ofKind] using hkind,
      .taken _ fun rest _ => expect_ofKind kind what rest⟩
  fresh := ⟨[Token.ofKind kind], by simpa [Token.ofKind] using hkind,
    .taken _ fun rest _ => expect_ofKind kind what rest⟩
  shorter hok := length_lt_of_plain hok

section UpTo

variable {kind : Token.Kind} (hkind : kind = .semicolon ∨ kind = .rightParen) (what : String)

include hkind

/-- An expression with the token that ends it. -/
theorem Expr.clause_upTo (g : Expr → α) :
    Clause (fun ts => andThen (plain Expr.read ts) fun e rest =>
      andThen (plain (expect kind what) rest) fun _ rest => .ok (g e, rest)) where
  whole hok := by
    obtain ⟨e, rest', he, hok⟩ := andThen_eq_ok_iff.mp hok
    obtain ⟨t, rest'', hexpect, hr⟩ := andThen_eq_ok_iff.mp hok
    cases hr
    obtain ⟨us, rfl, hus⟩ := Expr.derives_of_read he
    obtain ⟨rfl, ht⟩ := expect_eq_ok_iff.mp hexpect
    exact ⟨us ++ [t], by simp, Expr.plain_read_upTo hkind what g hus ht⟩
  viable ts := Expr.viable_upTo hkind what g (Expr.viable_read ts)
  fresh := by
    have hderives : Expr.Derives .expression [Token.ofKind .nil] (.literal .nil) :=
      .of_primary (.nil rfl)
    refine ⟨[Token.ofKind .nil] ++ [Token.ofKind kind], ?_, .taken _ fun rest _ =>
      Expr.plain_read_upTo hkind what g hderives rfl rest⟩
    rcases hkind with rfl | rfl <;> decide
  shorter hok := by
    obtain ⟨e, rest', he, hok⟩ := andThen_eq_ok_iff.mp hok
    obtain ⟨t, rest'', hexpect, hr⟩ := andThen_eq_ok_iff.mp hok
    cases hr
    exact (length_lt_of_plain hexpect).trans (length_lt_of_plain he)

/-- An expression that may be left out, with the token that ends it. -/
theorem Expr.clause_unless :
    Clause (fun ts => andThen (plain (Expr.readUnless kind) ts) fun e rest =>
      andThen (plain (expect kind what) rest) fun _ rest => .ok (e, rest)) := by
  have hne : kind ≠ .eof := by rcases hkind with rfl | rfl <;> decide
  have hread : (fun ts => andThen (plain (Expr.readUnless kind) ts) fun e rest =>
      andThen (plain (expect kind what) rest) fun _ rest => .ok (e, rest)) =
      choice [kind] (fun _ ts => .ok (none, ts)) fun ts =>
        andThen (plain Expr.read ts) fun e rest =>
        andThen (plain (expect kind what) rest) fun _ rest => .ok (some e, rest) := by
    funext ts
    rw [Expr.plain_readUnless, choice]
    cases hfront : front? [kind] ts with
    | none => simp only [andThen_assoc, andThen_ok]
    | some p =>
      obtain ⟨rfl, ht⟩ := front?_eq_some_iff.mp hfront
      rw [andThen_ok, expect_cons (List.mem_singleton.mp ht), andThen_ok]
  rw [hread]
  exact .choice hne (fun _ => .done none) (Expr.clause_upTo hkind what some)

end UpTo

theorem Stmt.clause_readPrint (keyword : Token) : Clause (plain (Stmt.readPrint keyword)) := by
  rw [funext (Stmt.plain_readPrint keyword)]
  exact Expr.clause_upTo (.inl rfl) _ _

theorem Stmt.clause_readExpression : Clause (plain Stmt.readExpression) := by
  rw [funext Stmt.plain_readExpression]
  exact Expr.clause_upTo (.inl rfl) _ _

theorem Stmt.clause_readVar : Clause (plain Stmt.readVar) := by
  rw [funext Stmt.plain_readVar]
  refine (clause_expect (by decide) _).andThen fun name => ?_
  refine ((clause_expect (by decide) _).andThen fun _ => ?_).toClosed
  exact (Expr.clause_upTo (.inl rfl) _ _).toClosed

theorem Expr.clause_readCondition (before after : String) :
    Clause (plain (Expr.readCondition before after)) := by
  rw [funext (Expr.plain_readCondition before after)]
  refine (clause_expect (by decide) _).andThen fun _ => ?_
  exact (Expr.clause_upTo (.inr rfl) _ _).toClosed

theorem Stmt.clause_readInitial : Clause (plain Stmt.readInitial) := by
  rw [Stmt.plain_readInitial_eq]
  refine .choice (by decide) (fun _ => .done none) (.choice (by decide) (fun _ => ?_) ?_)
  · exact (Stmt.clause_readVar.andThen fun s => .done (some s)).toClosed
  · exact Stmt.clause_readExpression.andThen fun s => .done (some s)

theorem ForClauses.clause_read : Clause (plain ForClauses.read) := by
  have hread : plain ForClauses.read = fun ts =>
      andThen (plain (expect .leftParen "'(' after 'for'") ts) fun _ rest =>
      andThen (plain Stmt.readInitial rest) fun initial rest =>
      andThen (andThen (plain (Expr.readUnless .semicolon) rest) fun e rest =>
        andThen (plain (expect .semicolon "';' after loop condition") rest)
          fun _ rest => .ok (e, rest)) fun condition rest =>
      andThen (andThen (plain (Expr.readUnless .rightParen) rest) fun e rest =>
        andThen (plain (expect .rightParen "')' after for clauses") rest)
          fun _ rest => .ok (e, rest)) fun increment rest =>
        .ok (⟨initial, condition, increment⟩, rest) := by
    funext ts
    simp only [ForClauses.plain_read, andThen_assoc, andThen_ok]
  rw [hread]
  refine (clause_expect (by decide) _).andThen fun _ => ?_
  refine (Stmt.clause_readInitial.andThen fun initial => ?_).toClosed
  refine ((Expr.clause_unless (.inl rfl) _).andThen fun condition => ?_).toClosed
  exact ((Expr.clause_unless (.inr rfl) _).andThen fun increment => .done _).toClosed

/-! ### Statements -/

/-- No `else` is ahead. -/
def Stmt.Ends (rest : List Token) : Prop :=
  front? [.else] rest = none

theorem Stmt.ends_cons_iff {t : Token} {rest : List Token} :
    Stmt.Ends (t :: rest) ↔ t.kind ≠ .else := by
  rw [Stmt.Ends, front?_cons]
  split <;> simp_all

theorem Stmt.completable_read_nil : Completable Always (plain Stmt.read) [] := by
  have hderives : Stmt.DerivesExpression ([Token.ofKind .nil] ++ [Token.ofKind .semicolon])
      (.expression (.literal .nil)) := .intro (.of_primary (.nil rfl)) rfl
  exact ⟨_, by decide, .taken _ fun rest _ => hderives.plain_read⟩

/-- A statement is read again in front of other tokens, if these have no
`else` in front where there was none before. -/
theorem Stmt.whole_of_read {ts rest : List Token} {s : Stmt}
    (hread : plain Stmt.read ts = .ok (s, rest)) : ∃ front, ts = front ++ rest ∧
      ∀ rest', (Stmt.Ends rest → Stmt.Ends rest') →
        plain Stmt.read (front ++ rest') = .ok (s, rest') := by
  obtain ⟨front, canTake, rfl, hderives, hrest⟩ := Stmt.derives_of_read hread
  exact ⟨front, rfl, fun rest' hends => hderives.plain_read rest' fun h => hends (hrest h)⟩

/-- What stands behind a statement in a block or a program can be
completed, if it can be completed from nothing with tokens that begin
with no `else`. -/
theorem Stmt.viable_sequence {Ends : List Token → Prop} {others : List Token → Answer (List Stmt)}
    {us ts : List Token} (hus : ∀ t ∈ us, t.kind ≠ .eof) (hfresh : Settles Ends others us)
    (hends : ∀ rest, Ends rest → Stmt.Ends (us ++ rest))
    (hfirst : Viable Stmt.Ends (plain Stmt.read) ts)
    (hothers : ∀ first rest, plain Stmt.read ts = .ok (first, rest) → Viable Ends others rest) :
    Viable Ends (fun ts => andThen (plain Stmt.read ts) fun first rest =>
      andThen (others rest) fun ss rest => .ok (first :: ss, rest)) ts := by
  intro what rest hmissing
  rcases andThen_eq_error_iff.mp hmissing with hread | ⟨first, rest', hread, h⟩
  · obtain ⟨taken, hts, htaken⟩ := hfirst what rest hread
    exact ⟨taken, hts, htaken.andThen_of_ends hus hends fun first =>
      hfresh.map (first :: ·)⟩
  · obtain ⟨front, rfl, hwhole⟩ := Stmt.whole_of_read hread
    rcases andThen_eq_error_iff.mp h with hmissing | ⟨_, _, _, ⟨⟩⟩
    obtain ⟨taken, rfl, htaken⟩ := hothers first rest' hread what rest hmissing
    refine ⟨front ++ taken, (List.append_assoc ..).symm, ?_⟩
    -- the statement is read again, since what is put behind it begins with no new `else`
    obtain ⟨vs, hvs, hsettles, hnext⟩ : ∃ vs, (∀ t ∈ vs, t.kind ≠ .eof) ∧
        Settles Ends others (taken ++ vs) ∧ ∀ rest', Ends rest' →
          Stmt.Ends (taken ++ rest) → Stmt.Ends (taken ++ vs ++ rest') := by
      cases taken with
      | nil => exact ⟨us, hus, hfresh, fun rest' hrest _ => hends rest' hrest⟩
      | cons t taken =>
        obtain ⟨vs, hvs, hsettles⟩ := htaken
        exact ⟨vs, hvs, hsettles, fun rest' _ hrest =>
          Stmt.ends_cons_iff.mpr (Stmt.ends_cons_iff.mp hrest)⟩
    refine ⟨vs, hvs, ?_⟩
    rw [List.append_assoc]
    exact (hsettles.map (first :: ·)).behind fun rest' hrest => by
      rw [hwhole _ (hnext rest' hrest), andThen_ok]

/-- Reads the branches of an `if` statement with the condition. -/
def Stmt.branches (condition : Expr) (consequent : Stmt) (rest : List Token) : Answer Stmt :=
  match front? [.else] rest with
  | none => .ok (.ifThen condition consequent, rest)
  | some (_, rest) =>
    andThen (plain Stmt.read rest) fun alternative rest =>
      .ok (.ifElse condition consequent alternative, rest)

/-- Where no `else` is ahead, the consequent is the only branch. -/
theorem Stmt.settles_branches (condition : Expr) (consequent : Stmt) :
    Settles Stmt.Ends (Stmt.branches condition consequent) [] :=
  .taken (.ifThen condition consequent) fun rest hrest => by
    rw [List.nil_append, Stmt.branches, hrest]

theorem Stmt.viable_branches (condition : Expr) {ts : List Token}
    (hconsequent : Viable Stmt.Ends (plain Stmt.read) ts)
    (halternative : ∀ consequent rest keyword behind, plain Stmt.read ts = .ok (consequent, rest) →
      front? [.else] rest = some (keyword, behind) →
        Viable Stmt.Ends (plain Stmt.read) behind) :
    Viable Stmt.Ends (fun ts => andThen (plain Stmt.read ts) (Stmt.branches condition)) ts := by
  intro what rest hmissing
  rcases andThen_eq_error_iff.mp hmissing with hread | ⟨consequent, rest', hread, h⟩
  · obtain ⟨taken, hts, htaken⟩ := hconsequent what rest hread
    exact ⟨taken, hts, htaken.andThen_stay (fun _ => id) (Stmt.settles_branches condition)⟩
  · rw [Stmt.branches] at h
    split at h
    · cases h
    · next keyword behind hfront =>
      rcases andThen_eq_error_iff.mp h with hbehind | ⟨_, _, _, ⟨⟩⟩
      obtain ⟨front, rfl, hwhole⟩ := Stmt.whole_of_read hread
      obtain ⟨taken, rfl, htaken⟩ :=
        halternative consequent rest' keyword behind hread hfront what rest hbehind
      obtain ⟨rfl, hkeyword⟩ := front?_eq_some_iff.mp hfront
      have hmap := htaken.andThen_stay (fun _ => id)
        fun alternative => .done (Stmt.ifElse condition consequent alternative)
      have hread (us : List Token) :
          andThen (plain Stmt.read (front ++ [keyword] ++ (taken ++ us)))
              (Stmt.branches condition) =
            andThen (plain Stmt.read (taken ++ us)) fun alternative rest =>
              .ok (.ifElse condition consequent alternative, rest) := by
        -- an `else` stands there before and after
        have hends : Stmt.Ends (keyword :: (taken ++ rest)) →
            Stmt.Ends (keyword :: (taken ++ us)) := by
          rw [Stmt.ends_cons_iff, Stmt.ends_cons_iff]
          exact id
        rw [List.append_assoc, List.singleton_append, hwhole _ hends, andThen_ok, Stmt.branches,
          front?_cons, if_pos hkeyword]
      exact ⟨front ++ [keyword] ++ taken, by simp, hmap.behind hread⟩

mutual

theorem Stmt.viable_read (ts : List Token) : Viable Stmt.Ends (plain Stmt.read) ts := by
  have hfresh : Completable Stmt.Ends (plain Stmt.read) [] :=
    Stmt.completable_read_nil.mono fun _ _ => trivial
  have hclause {read : List Token → Answer Stmt} (h : Clause read) (ts : List Token) :
      Viable Stmt.Ends read ts := (h.viable ts).mono fun _ _ => trivial
  cases ts with
  | nil => exact .of_missing Stmt.plain_read_nil hfresh
  | cons t rest =>
    have hread := Stmt.plain_read t
    split at hread
    · exact .behind hread (hclause (Stmt.clause_readPrint t) rest)
    · exact .behind hread (hclause Stmt.clause_readVar rest)
    · exact .behind hread (((Stmt.viable_readBlock rest).map Stmt.block).mono fun _ _ => trivial)
    · exact .behind hread (Stmt.viable_readIf rest)
    · exact .behind hread (Stmt.viable_readWhile rest)
    · exact .behind hread (Stmt.viable_readFor rest)
    · exact .congr hread hfresh (hclause Stmt.clause_readExpression (t :: rest))
termination_by 4 * ts.length + 1

theorem Stmt.viable_readBlock (ts : List Token) : Viable Always (plain Stmt.readBlock) ts := by
  have hclosing : Settles Always (plain Stmt.readBlock) [Token.ofKind .rightBrace] :=
    .taken [] fun rest _ => by
      rw [List.singleton_append, Stmt.plain_readBlock]
      rfl
  have hend : ∀ t ∈ [Token.ofKind .rightBrace], t.kind ≠ .eof := by decide
  have hfresh : Completable Always (plain Stmt.readBlock) [] := ⟨_, hend, hclosing⟩
  cases ts with
  | nil => exact .of_missing (by rw [Stmt.plain_readBlock]) hfresh
  | cons t rest =>
    by_cases ht : t.kind = .rightBrace
    · have hread : plain Stmt.readBlock (t :: rest) = .ok ([], rest) := by
        rw [Stmt.plain_readBlock]
        simp only [ht, if_true]
      exact .of_ok hread
    · have hread (us : List Token) : plain Stmt.readBlock (t :: us) =
          andThen (plain Stmt.read (t :: us)) fun first rest =>
          andThen (plain Stmt.readBlock rest) fun others rest =>
            .ok (first :: others, rest) := by
        rw [Stmt.plain_readBlock]
        simp only [ht, if_false]
      refine .congr hread hfresh (Stmt.viable_sequence hend hclosing
        (fun rest _ => Stmt.ends_cons_iff.mpr (by decide)) (Stmt.viable_read (t :: rest))
        fun first rest' hfirst => ?_)
      have : rest'.length ≤ rest.length := Nat.le_of_lt_succ (length_lt_of_plain hfirst)
      exact Stmt.viable_readBlock rest'
termination_by 4 * ts.length + 2

theorem Stmt.viable_readIf (ts : List Token) : Viable Stmt.Ends (plain Stmt.readIf) ts := by
  rw [funext Stmt.plain_readIf]
  refine (Expr.clause_readCondition _ _).viable_andThen (fun condition rest hcondition => ?_)
    fun condition => ?_
  · have := length_lt_of_plain hcondition
    refine Stmt.viable_branches condition (Stmt.viable_read rest)
      fun consequent rest' keyword behind hconsequent hfront => ?_
    have := length_lt_of_plain hconsequent
    have := length_lt_of_front? hfront
    exact Stmt.viable_read behind
  · exact Stmt.completable_read_nil.andThen_stay (fun _ _ => trivial)
      (Stmt.settles_branches condition)
termination_by 4 * ts.length

theorem Stmt.viable_readWhile (ts : List Token) :
    Viable Stmt.Ends (plain Stmt.readWhile) ts := by
  rw [funext Stmt.plain_readWhile]
  refine (Expr.clause_readCondition _ _).viable_andThen (fun condition rest hcondition => ?_)
    fun condition => ?_
  · have := length_lt_of_plain hcondition
    exact (Stmt.viable_read rest).map (Stmt.while condition)
  · exact Stmt.completable_read_nil.andThen_stay (fun _ _ => trivial) fun body => .done _
termination_by 4 * ts.length

theorem Stmt.viable_readFor (ts : List Token) : Viable Stmt.Ends (plain Stmt.readFor) ts := by
  rw [funext Stmt.plain_readFor]
  refine ForClauses.clause_read.viable_andThen (fun clauses rest hclauses => ?_)
    fun clauses => ?_
  · have := length_lt_of_plain hclauses
    exact (Stmt.viable_read rest).map _
  · exact Stmt.completable_read_nil.andThen_stay (fun _ _ => trivial) fun body => .done _
termination_by 4 * ts.length

end

theorem Stmt.viable_answerAll (ts : List Token) : Viable (· = []) Stmt.answerAll ts := by
  have hnone : Stmt.answerAll [] = .ok ([], []) := by
    rw [Stmt.answerAll, Stmt.readAll_nil]
    rfl
  have hempty : ∀ t ∈ ([] : List Token), t.kind ≠ .eof := by simp
  have hfresh : Settles (· = []) Stmt.answerAll [] := .taken [] fun rest hrest => by
    rw [hrest]
    exact hnone
  cases ts with
  | nil => exact .of_ok hnone
  | cons t rest =>
    refine .congr (Stmt.answerAll_cons t) ⟨[], hempty, hfresh⟩
      (Stmt.viable_sequence hempty hfresh (fun rest hrest => ?_) (Stmt.viable_read (t :: rest))
        fun first rest' hfirst => ?_)
    · rw [hrest]
      rfl
    · have : rest'.length ≤ rest.length := Nat.le_of_lt_succ (length_lt_of_plain hfirst)
      exact Stmt.viable_answerAll rest'
termination_by ts.length

/-! ### Token lists with an end -/

/-- A token list has one end, and that is its last token. -/
inductive EndsOnce : List Token → Prop where
  | intro {body : List Token} {eof : Token} (hbody : ∀ t ∈ body, t.kind ≠ .eof)
      (heof : eof.kind = .eof) : EndsOnce (body ++ [eof])

/-- What stands behind an end does not matter. -/
theorem program_of_end {body : List Token} {eof : Token} (hbody : ∀ t ∈ body, t.kind ≠ .eof)
    (heof : eof.kind = .eof) (rest : List Token) :
    program (body ++ eof :: rest) = (Stmt.readAll body).mapError (·.misplaced eof) := by
  have hends : bodyOf (body ++ eof :: rest) = body := by
    rw [bodyOf_append_of_forall hbody]
    simp [bodyOf, heof]
  have hfind : body.find? (·.kind = .eof) = none := by
    rw [List.find?_eq_none]
    simpa using hbody
  have heof' : endOf (body ++ eof :: rest) = eof := by
    rw [endOf, List.find?_append, hfind, List.find?_cons, decide_eq_true heof]
    rfl
  rw [program, hends, heof']

/-- The cursor is where reading has stopped. -/
theorem TokenCursor.position_readAll {taken : List Token} {eof : Token} {f : Failure}
    (hbody : ∀ t ∈ taken ++ f.rest, t.kind ≠ .eof) (heof : eof.kind = .eof)
    (h : Stmt.readAll (taken ++ f.rest) = .error f) :
    ({ ahead := taken ++ f.rest ++ [eof] } : TokenCursor).readAll.2.position = taken.length := by
  rw [TokenCursor.readAll]
  simp only [bodyOf_append hbody heof, h, TokenCursor.skip, TokenCursor.position]
  simp

theorem Stmt.answerAll_eq_error_iff {ts : List Token} {f : Failure} :
    Stmt.answerAll ts = .error f ↔ Stmt.readAll ts = .error f := by
  rw [Stmt.answerAll]
  cases Stmt.readAll ts <;> simp [Except.map]

theorem Stmt.answerAll_eq_ok_iff {ts : List Token} {ss : List Stmt} :
    Stmt.answerAll ts = .ok (ss, []) ↔ Stmt.readAll ts = .ok ss := by
  rw [Stmt.answerAll]
  cases Stmt.readAll ts <;> simp [Except.map]

/-- Reading stops with the same failure in front of the same token, whatever
stands behind that. -/
theorem program_of_prefix {taken behind : List Token} {t : Token} {f : Failure}
    (hf : f.rest = t :: behind) (htaken : ∀ u ∈ taken ++ [t], u.kind ≠ .eof)
    (hread : Stmt.readAll (taken ++ t :: behind) = .error f) (eof : Token) (behind' : List Token) :
    program (taken ++ t :: behind') = .error (f.misplaced eof) := by
  have hanswer := Stmt.answerAll_eq_error_iff.mpr hread
  have hbody : bodyOf (taken ++ t :: behind') = taken ++ t :: bodyOf behind' := by
    have hbody := bodyOf_append_of_forall htaken behind'
    rwa [List.append_assoc, List.append_assoc] at hbody
  have hsame := (Stmt.local_answerAll (taken ++ t :: behind)).same rfl (by rw [hanswer]; exact hf)
    (bodyOf behind')
  rw [hanswer] at hsame
  have hread' := Stmt.answerAll_eq_error_iff.mp hsame
  rw [program, hbody, hread']
  cases f with
  | missing what rest => cases hf; rfl
  | target equals rest => rfl

/-- A list that goes along up to where reading has stopped is refused in
the same way. -/
theorem program_of_take {taken tokens : List Token} {eof : Token} {f : Failure}
    (hbody : ∀ t ∈ taken ++ f.rest, t.kind ≠ .eof) (heof : eof.kind = .eof)
    (hread : Stmt.readAll (taken ++ f.rest) = .error f)
    (htake : tokens.take (taken.length + 1) =
      (taken ++ (f.rest ++ [eof])).take (taken.length + 1)) :
    program tokens = .error (f.misplaced eof) := by
  rw [List.take_length_add_append] at htake
  rw [← List.take_append_drop (taken.length + 1) tokens, htake]
  cases hf : f.rest with
  | nil =>
    -- the token ahead is the end, and it is one in the other list too
    rw [hf, List.append_nil] at hread
    have hprogram := program_of_end (fun t ht => hbody t (List.mem_append_left _ ht)) heof
      (tokens.drop (taken.length + 1))
    rw [hread] at hprogram
    rw [List.append_assoc]
    exact hprogram
  | cons t behind =>
    rw [hf] at hread hbody
    have htaken : ∀ u ∈ taken ++ [t], u.kind ≠ .eof := fun u hu => hbody u (by
      rw [List.append_cons]
      exact List.mem_append_left _ hu)
    rw [List.append_assoc]
    exact program_of_prefix hf htaken hread eof _

/-- What has been taken of a list where something is missing can be
completed to one that is a program, or that is refused for a target
alone. -/
theorem exists_completion {taken rest : List Token} {what : String} (eof : Token)
    (htaken : ∀ t ∈ taken, t.kind ≠ .eof) (heof : eof.kind = .eof)
    (hread : Stmt.readAll (taken ++ rest) = .error (.missing what rest)) :
    ∃ tokens, EndsOnce tokens ∧ taken <+: tokens ∧
      ((∃ ss, program tokens = .ok ss) ∨
        ∃ equals, program tokens = .error ⟨equals, "identifier as assignment target"⟩) := by
  -- where something is missing, some tokens behind what has been taken settle it
  obtain ⟨taken', hts, us, hus, hsettles⟩ :=
    Stmt.viable_answerAll _ what rest (Stmt.answerAll_eq_error_iff.mpr hread)
  obtain rfl := List.append_cancel_right hts
  have hbody : ∀ t ∈ taken ++ us, t.kind ≠ .eof := List.forall_mem_append.mpr ⟨htaken, hus⟩
  have hprogram := program_of_end hbody heof []
  refine ⟨taken ++ us ++ [eof], .intro hbody heof, ?_, ?_⟩
  · rw [List.append_assoc]
    exact List.prefix_append _ _
  · cases hsettles with
    | taken ss h =>
      have hread' := h [] rfl
      rw [List.append_nil, Stmt.answerAll_eq_ok_iff] at hread'
      exact .inl ⟨ss, by rw [hprogram, hread']; rfl⟩
    | refused h =>
      obtain ⟨equals, rest', hread'⟩ := h [] rfl
      rw [List.append_nil, Stmt.answerAll_eq_error_iff] at hread'
      exact .inr ⟨equals, by rw [hprogram, hread']; rfl⟩

/-- Let a token list with one end be no program, and let the cursor have
stopped with `k` tokens behind it. Then no list that begins with these and
the token ahead is a program, and the same is wrong with all of them. And
unless a target is refused, it is the token ahead that is misplaced, and
the tokens behind the cursor can be completed: some list with one end that
begins with them is a program, or a target in it is all that is wrong. -/
theorem program_correctPrefix {tokens : List Token} {m : Misplaced} (hend : EndsOnce tokens)
    (hprogram : program tokens = .error m) :
    let k := ({ ahead := tokens } : TokenCursor).readAll.2.position
    (∀ tokens', tokens'.take (k + 1) = tokens.take (k + 1) → program tokens' = .error m) ∧
      (m.expected ≠ "identifier as assignment target" →
        tokens[k]? = some m.found ∧
          ∃ tokens', EndsOnce tokens' ∧ tokens.take k <+: tokens' ∧
            ((∃ ss, program tokens' = .ok ss) ∨ ∃ equals,
              program tokens' = .error ⟨equals, "identifier as assignment target"⟩)) := by
  obtain @⟨body, eof, hbody, heof⟩ := hend
  rw [program_of_end hbody heof] at hprogram
  cases hread : Stmt.readAll body with
  | ok ss => rw [hread] at hprogram; cases hprogram
  | error f =>
    rw [hread] at hprogram
    cases hprogram
    -- what has been taken stands in front of what the failure has left
    have hsuffix := (Stmt.local_answerAll body).suffix
    rw [Stmt.answerAll_eq_error_iff.mpr hread] at hsuffix
    obtain ⟨taken, rfl⟩ : f.rest <:+ body := hsuffix
    have hposition := TokenCursor.position_readAll hbody heof hread
    simp only [hposition]
    rw [List.append_assoc]
    refine ⟨fun tokens' htake => program_of_take hbody heof hread htake, fun hexpected => ?_⟩
    cases f with
    | target equals rest => exact absurd rfl hexpected
    | missing what rest =>
      have htaken : ∀ t ∈ taken, t.kind ≠ .eof := fun t ht => hbody t (List.mem_append_left _ ht)
      refine ⟨?_, ?_⟩
      · rw [List.getElem?_append_right (Nat.le_refl _), Nat.sub_self]
        cases rest <;> rfl
      · rw [List.take_left' rfl]
        exact exists_completion eof htaken heof hread

/-- `1 = (`, where the value of the assignment is missing. -/
def pendingTarget : List Token :=
  [(.number, "1"), (.equal, "="), (.leftParen, "("), (.eof, "")].map fun (kind, lexeme) =>
    { kind, lexeme, line := 1 }

/-- The end is misplaced there, not the target: the three tokens in front
of it begin a list in which a target is all that can be wrong. -/
theorem program_correctPrefix_pendingTarget :
    let m : Misplaced := ⟨{ kind := .eof, lexeme := "", line := 1 }, "expression"⟩
    EndsOnce pendingTarget ∧ program pendingTarget = .error m ∧
      ({ ahead := pendingTarget } : TokenCursor).readAll.2.position = 3 ∧
      (∀ tokens', tokens'.take 4 = pendingTarget → program tokens' = .error m) ∧
      ∃ tokens', EndsOnce tokens' ∧ pendingTarget.take 3 <+: tokens' ∧
        ((∃ ss, program tokens' = .ok ss) ∨ ∃ equals,
          program tokens' = .error ⟨equals, "identifier as assignment target"⟩) := by
  intro m
  have hend : EndsOnce pendingTarget := @EndsOnce.intro (pendingTarget.take 3)
    { kind := .eof, lexeme := "", line := 1 } (by decide) rfl
  have hprogram : program pendingTarget = .error m := by cbv
  have hposition : ({ ahead := pendingTarget } : TokenCursor).readAll.2.position = 3 := by
    decide +kernel
  obtain ⟨hsame, hmissing⟩ := program_correctPrefix hend hprogram
  simp only [hposition] at hsame hmissing
  exact ⟨hend, hprogram, hposition, hsame, (hmissing (by decide)).2⟩

end LoxLang
