import LoxLang.Proofs.Grammar.Correspondence

/-!
# `LoxLang.Proofs.Grammar.Locality`: one token of lookahead

A reader looks at the tokens that it takes and at the next one. So where
it stops at a token, it would have stopped there in the same way with
any other tokens behind that one.

* `Answer.rest`, `Answer.withRest`: the tokens that are ahead after an
  answer, and the answer with others ahead;
* `Local`: what stands behind the next token does not matter. It holds
  of sequences and of choices by the next token (`Local.andThen`,
  `Local.choice`), and so of every reader;
* `Stmt.local_answerAll`: reading statements up to the end.
-/

set_option autoImplicit false

namespace LoxLang

variable {α β : Type}

/-! ### Choices by the next token -/

/-- Takes the next token if it is of one of the kinds, and goes on with
it. -/
def choice (kinds : List Token.Kind) (found : Token → List Token → Answer α)
    (other : List Token → Answer α) (ts : List Token) : Answer α :=
  match front? kinds ts with
  | none => other ts
  | some (t, rest) => found t rest

section Choices

variable {kinds : List Token.Kind} {found : Token → List Token → Answer α}
  {other : List Token → Answer α} {t : Token}

theorem choice_of_mem (ht : t.kind ∈ kinds) (rest : List Token) :
    choice kinds found other (t :: rest) = found t rest := by
  rw [choice, front?_cons, if_pos ht]

theorem choice_of_notMem (ht : t.kind ∉ kinds) (rest : List Token) :
    choice kinds found other (t :: rest) = other (t :: rest) := by
  rw [choice, front?_cons, if_neg ht]

end Choices

/-- The first clause of a `for` statement is chosen by the next token. -/
theorem Stmt.plain_readInitial_eq :
    plain Stmt.readInitial = choice [.semicolon] (fun _ ts => .ok (none, ts))
      (choice [.var]
        (fun _ ts => andThen (plain Stmt.readVar ts) fun s rest => .ok (some s, rest))
        fun ts => andThen (plain Stmt.readExpression ts) fun s rest => .ok (some s, rest)) := by
  funext ts
  rw [Stmt.plain_readInitial, choice, choice]
  cases front? [.semicolon] ts <;> cases front? [.var] ts <;> rfl

/-! ### Local readers -/

/-- The failure with other tokens ahead. -/
def Failure.withRest (rest : List Token) : Failure → Failure
  | .missing expected _ => .missing expected rest
  | .target equals _ => .target equals rest

/-- The tokens that are ahead after an answer. -/
def Answer.rest : Answer α → List Token
  | .ok (_, rest) => rest
  | .error f => f.rest

/-- The answer with other tokens ahead. -/
def Answer.withRest (rest : List Token) : Answer α → Answer α
  | .ok (a, _) => .ok (a, rest)
  | .error f => .error (f.withRest rest)

@[simp] theorem Answer.rest_withRest (rest : List Token) (x : Answer α) :
    (x.withRest rest).rest = rest := by
  rcases x with (_ | _) | _ <;> rfl

@[simp] theorem Answer.withRest_withRest (rest rest' : List Token) (x : Answer α) :
    (x.withRest rest).withRest rest' = x.withRest rest' := by
  rcases x with (_ | _) | _ <;> rfl

/-- Where the reader stops at a token, it stops there with the same answer
whatever stands behind the token. -/
structure Local (read : List Token → Answer α) (ts : List Token) : Prop where
  suffix : (read ts).rest <:+ ts
  same : ∀ {front behind : List Token} {t : Token}, ts = front ++ t :: behind →
    (read ts).rest = t :: behind → ∀ behind',
      read (front ++ t :: behind') = (read ts).withRest (t :: behind')

namespace Local

variable {read : List Token → Answer α} {t : Token} {ts rest : List Token}

/-- Without tokens there is none to stop at. -/
theorem nil (h : (read []).rest = []) : Local read [] where
  suffix := List.suffix_nil.mpr h
  same hts := by simp at hts

/-- What takes no token looks at none. -/
theorem stay (x : Answer α) (ts : List Token) : Local (fun ts => x.withRest ts) ts where
  suffix := by simp
  same hts hrest behind' := by
    rw [Answer.rest_withRest, hts] at hrest
    obtain rfl : _ = [] := List.append_cancel_right (hrest : _ = [] ++ _)
    simp

theorem done (a : α) (ts : List Token) : Local (fun ts => .ok (a, ts)) ts :=
  stay (.ok (a, [])) ts

theorem missing (what : String) (ts : List Token) :
    Local (fun ts => (.error (.missing what ts) : Answer α)) ts :=
  stay (.error (.missing what [])) ts

theorem target (equals : Token) (ts : List Token) :
    Local (fun ts => (.error (.target equals ts) : Answer α)) ts :=
  stay (.error (.target equals [])) ts

/-- A reader may take the next token and go on with another reader. -/
theorem behind {next : List Token → Answer α} (hread : ∀ us, read (t :: us) = next us)
    (h : Local next rest) : Local read (t :: rest) where
  suffix := by
    rw [hread]
    exact h.suffix.trans (List.suffix_cons t rest)
  same {front} _ _ hts hrest behind' := by
    rw [hread] at hrest ⊢
    cases front with
    | nil =>
      -- it has taken a token, so it does not stop at that
      have hlength := h.suffix.length_le
      rw [hrest, ← List.nil_append (_ :: _), ← hts] at hlength
      exact absurd hlength (Nat.not_succ_le_self _)
    | cons u front =>
      obtain ⟨rfl, rfl⟩ := List.cons.inj hts
      rw [List.cons_append, hread]
      exact h.same rfl hrest behind'

/-- A reader may do as another one does where a certain token is the
next. -/
theorem congr {read' : List Token → Answer α} (hread : ∀ us, read (t :: us) = read' (t :: us))
    (h : Local read' (t :: rest)) : Local read (t :: rest) where
  suffix := by
    rw [hread]
    exact h.suffix
  same {front} _ _ hts hrest behind' := by
    rw [hread] at hrest ⊢
    have hsame := h.same hts hrest behind'
    cases front with
    | nil =>
      obtain ⟨rfl, -⟩ := List.cons.inj hts
      rw [List.nil_append, hread]
      exact hsame
    | cons u front =>
      obtain ⟨rfl, -⟩ := List.cons.inj hts
      rw [List.cons_append, hread]
      exact hsame

/-- What has been read is read again whatever stands behind the next
token. -/
theorem read_append {a : α} {front between behind : List Token} (h : Local read ts)
    (hread : read ts = .ok (a, between ++ t :: behind))
    (hts : ts = front ++ (between ++ t :: behind)) (behind' : List Token) :
    read (front ++ (between ++ t :: behind')) = .ok (a, between ++ t :: behind') := by
  have hrest : (read ts).rest = between ++ t :: behind := by rw [hread]; rfl
  cases between with
  | nil =>
    have hsame := h.same hts hrest behind'
    rw [hread] at hsame
    exact hsame
  | cons u between =>
    have hsame := h.same hts hrest (between ++ t :: behind')
    rw [hread] at hsame
    exact hsame

/-- One local reader behind another is local. -/
theorem andThen {f : α → List Token → Answer β} (hread : Local read ts)
    (hf : ∀ a rest, read ts = .ok (a, rest) → Local (f a) rest) :
    Local (fun ts => LoxLang.andThen (read ts) f) ts := by
  cases h : read ts with
  | error e =>
    have hsuffix := hread.suffix
    rw [h] at hsuffix
    refine ⟨?_, fun hts hrest behind' => ?_⟩
    · rw [h]
      exact hsuffix
    · rw [h] at hrest ⊢
      have hsame := hread.same hts (by rw [h]; exact hrest) behind'
      rw [hsame, h]
      rfl
  | ok p =>
    obtain ⟨a, rest⟩ := p
    have hnext := hf a rest h
    have hsuffix := hread.suffix
    rw [h] at hsuffix
    obtain ⟨front, hfront⟩ := hsuffix
    refine ⟨?_, fun {front' behind t} hts hrest behind' => ?_⟩
    · rw [h, andThen_ok]
      exact hnext.suffix.trans ⟨front, hfront⟩
    · rw [h, andThen_ok] at hrest ⊢
      -- the second reader stops at the token, so the first one has stopped there or before
      have hsuffix := hnext.suffix
      rw [hrest] at hsuffix
      obtain ⟨between, rfl⟩ := hsuffix
      obtain rfl : front' = front ++ between := by
        rw [← hfront] at hts
        change front ++ (between ++ _) = _ at hts
        rw [← List.append_assoc] at hts
        exact (List.append_cancel_right hts).symm
      rw [List.append_assoc, hread.read_append h hfront.symm, andThen_ok]
      exact hnext.same rfl hrest behind'

/-- A choice by the next token is local. -/
theorem choice {kinds : List Token.Kind} {found : Token → List Token → Answer α}
    {other : List Token → Answer α}
    (hfound : ∀ t rest, front? kinds ts = some (t, rest) → Local (found t) rest)
    (hother : front? kinds ts = none → Local other ts) :
    Local (LoxLang.choice kinds found other) ts := by
  cases ts with
  | nil =>
    have hlocal := hother rfl
    exact .nil (List.suffix_nil.mp hlocal.suffix)
  | cons t rest =>
    by_cases ht : t.kind ∈ kinds
    · exact .behind (choice_of_mem ht) (hfound t rest (front?_eq_some_iff.mpr ⟨rfl, ht⟩))
    · exact .congr (choice_of_notMem ht) (hother (by rw [front?_cons, if_neg ht]))

end Local

/-! ### Expressions -/

theorem local_expect (kind : Token.Kind) (what : String) (ts : List Token) :
    Local (plain (expect kind what)) ts := by
  cases ts with
  | nil => exact .nil rfl
  | cons t rest =>
    by_cases ht : t.kind = kind
    · exact .behind (fun us => expect_cons ht) (.done t rest)
    · have hread (us : List Token) :
          plain (expect kind what) (t :: us) = .error (.missing what (t :: us)) := by
        rw [plain_expect, front?_cons, if_neg (by simpa using ht)]
      exact .congr hread (.missing what (t :: rest))

theorem Expr.local_assigned (equals : Token) (left right : Expr) (ts : List Token) :
    Local (fun rest => Expr.assigned equals right rest left) ts := by
  cases left with
  | «variable» name => exact .done _ ts
  | _ => exact .target equals ts

-- By recursion on the measures that the readers have.
mutual

theorem Expr.local_read (ts : List Token) : Local (plain Expr.read) ts := by
  rw [funext Expr.plain_read]
  refine (Expr.local_readTier .or ts).andThen fun left rest hleft => ?_
  refine .choice (fun equals behind hfront => ?_) fun _ => .done left rest
  have := length_lt_of_plain hleft
  have := length_lt_of_front? hfront
  refine (Expr.local_read behind).andThen fun right rest' _ => ?_
  exact Expr.local_assigned equals left right rest'
termination_by 16 * ts.length + 15

theorem Expr.local_readTier (tier : Tier) (ts : List Token) :
    Local (plain (Expr.readTier tier)) ts := by
  rw [funext (Expr.plain_readTier tier)]
  refine (Expr.local_readOperand tier ts).andThen fun first rest hfirst => ?_
  have := length_lt_of_plain hfirst
  exact Expr.local_readChain tier first rest
termination_by 16 * ts.length + 2 * tier.height + 1

theorem Expr.local_readOperand (tier : Tier) (ts : List Token) :
    Local (plain (Expr.readOperand tier)) ts := by
  rw [funext (Expr.plain_readOperand tier)]
  split
  · next inner hinner =>
    have := Tier.height_of_tighter? hinner
    exact Expr.local_readTier inner ts
  · have := tier.height_pos
    exact Expr.local_readUnary ts
termination_by 16 * ts.length + 2 * tier.height

theorem Expr.local_readChain (tier : Tier) (left : Expr) (ts : List Token) :
    Local (plain (Expr.readChain tier left)) ts := by
  rw [funext (Expr.plain_readChain tier left)]
  refine .choice (fun operator behind hfront => ?_) fun _ => .done left ts
  have := length_lt_of_front? hfront
  have := tier.height_le
  refine (Expr.local_readOperand tier behind).andThen fun right rest hright => ?_
  have := length_lt_of_plain hright
  exact Expr.local_readChain tier _ rest
termination_by 16 * ts.length + 14

theorem Expr.local_readUnary (ts : List Token) : Local (plain Expr.readUnary) ts := by
  rw [funext Expr.plain_readUnary]
  refine .choice (fun operator behind hfront => ?_) fun _ => Expr.local_readPrimary ts
  have := length_lt_of_front? hfront
  exact (Expr.local_readUnary behind).andThen fun operand rest _ => .done _ rest
termination_by 16 * ts.length + 1

theorem Expr.local_readPrimary (ts : List Token) : Local (plain Expr.readPrimary) ts := by
  cases ts with
  | nil => exact .nil (by rw [Expr.plain_readPrimary_nil]; rfl)
  | cons t rest =>
    have hread := Expr.plain_readPrimary t
    split at hread
    · next e _ => exact .behind hread (.done e rest)
    · split at hread
      · refine .behind hread ((Expr.local_read rest).andThen fun inner rest' _ => ?_)
        exact (local_expect _ _ rest').andThen fun _ rest'' _ => .done _ rest''
      · exact .congr hread (.missing "expression" (t :: rest))
termination_by 16 * ts.length

end

/-! ### Clauses of statements -/

theorem Stmt.local_readPrint (keyword : Token) (ts : List Token) :
    Local (plain (Stmt.readPrint keyword)) ts := by
  rw [funext (Stmt.plain_readPrint keyword)]
  refine (Expr.local_read ts).andThen fun e rest _ => ?_
  exact (local_expect _ _ rest).andThen fun _ rest' _ => .done _ rest'

theorem Stmt.local_readVar (ts : List Token) : Local (plain Stmt.readVar) ts := by
  rw [funext Stmt.plain_readVar]
  refine (local_expect _ _ ts).andThen fun name rest₁ _ => ?_
  refine (local_expect _ _ rest₁).andThen fun _ rest₂ _ => ?_
  refine (Expr.local_read rest₂).andThen fun e rest₃ _ => ?_
  exact (local_expect _ _ rest₃).andThen fun _ rest₄ _ => .done _ rest₄

theorem Stmt.local_readExpression (ts : List Token) : Local (plain Stmt.readExpression) ts := by
  rw [funext Stmt.plain_readExpression]
  refine (Expr.local_read ts).andThen fun e rest _ => ?_
  exact (local_expect _ _ rest).andThen fun _ rest' _ => .done _ rest'

theorem Expr.local_readCondition (before after : String) (ts : List Token) :
    Local (plain (Expr.readCondition before after)) ts := by
  rw [funext (Expr.plain_readCondition before after)]
  refine (local_expect _ _ ts).andThen fun _ rest₁ _ => ?_
  refine (Expr.local_read rest₁).andThen fun e rest₂ _ => ?_
  exact (local_expect _ _ rest₂).andThen fun _ rest₃ _ => .done _ rest₃

theorem Expr.local_readUnless (kind : Token.Kind) (ts : List Token) :
    Local (plain (Expr.readUnless kind)) ts := by
  cases ts with
  | nil =>
    have hread := (Expr.local_read []).andThen fun e rest _ => .done (some e) rest
    refine .nil ?_
    rw [Expr.plain_readUnless]
    exact List.suffix_nil.mp hread.suffix
  | cons t rest =>
    by_cases ht : t.kind = kind
    -- the token that the clause ends with is not taken
    · have hread (us : List Token) :
          plain (Expr.readUnless kind) (t :: us) = .ok (none, t :: us) := by
        rw [Expr.plain_readUnless, front?_cons, if_pos (by simpa using ht)]
      exact .congr hread (.done none (t :: rest))
    · have hread (us : List Token) : plain (Expr.readUnless kind) (t :: us) =
          andThen (plain Expr.read (t :: us)) fun e rest => .ok (some e, rest) := by
        rw [Expr.plain_readUnless, front?_cons, if_neg (by simpa using ht)]
      exact .congr hread
        ((Expr.local_read (t :: rest)).andThen fun e rest' _ => .done (some e) rest')

theorem Stmt.local_readInitial (ts : List Token) : Local (plain Stmt.readInitial) ts := by
  rw [Stmt.plain_readInitial_eq]
  refine .choice (fun _ rest _ => .done none rest) fun _ => ?_
  refine .choice (fun _ rest _ => ?_) fun _ => ?_
  · exact (Stmt.local_readVar rest).andThen fun s rest' _ => .done (some s) rest'
  · exact (Stmt.local_readExpression ts).andThen fun s rest' _ => .done (some s) rest'

theorem ForClauses.local_read (ts : List Token) : Local (plain ForClauses.read) ts := by
  rw [funext ForClauses.plain_read]
  refine (local_expect _ _ ts).andThen fun _ rest₁ _ => ?_
  refine (Stmt.local_readInitial rest₁).andThen fun initial rest₂ _ => ?_
  refine (Expr.local_readUnless _ rest₂).andThen fun condition rest₃ _ => ?_
  refine (local_expect _ _ rest₃).andThen fun _ rest₄ _ => ?_
  refine (Expr.local_readUnless _ rest₄).andThen fun increment rest₅ _ => ?_
  exact (local_expect _ _ rest₅).andThen fun _ rest₆ _ => .done _ rest₆

/-! ### Statements -/

mutual

theorem Stmt.local_read (ts : List Token) : Local (plain Stmt.read) ts := by
  cases ts with
  | nil => exact .nil (by rw [Stmt.plain_read_nil]; rfl)
  | cons t rest =>
    have hread := Stmt.plain_read t
    split at hread
    · exact .behind hread (Stmt.local_readPrint t rest)
    · exact .behind hread (Stmt.local_readVar rest)
    · exact .behind hread
        ((Stmt.local_readBlock rest).andThen fun body rest' _ => .done _ rest')
    · exact .behind hread (Stmt.local_readIf rest)
    · exact .behind hread (Stmt.local_readWhile rest)
    · exact .behind hread (Stmt.local_readFor rest)
    · exact .congr hread (Stmt.local_readExpression (t :: rest))
termination_by 4 * ts.length + 1

theorem Stmt.local_readBlock (ts : List Token) : Local (plain Stmt.readBlock) ts := by
  cases ts with
  | nil => exact .nil (by rw [Stmt.plain_readBlock]; rfl)
  | cons t rest =>
    by_cases ht : t.kind = .rightBrace
    · have hread (us : List Token) : plain Stmt.readBlock (t :: us) = .ok ([], us) := by
        rw [Stmt.plain_readBlock]
        simp only [ht, if_true]
      exact .behind hread (.done [] rest)
    · have hread (us : List Token) : plain Stmt.readBlock (t :: us) =
          andThen (plain Stmt.read (t :: us)) fun first rest =>
          andThen (plain Stmt.readBlock rest) fun others rest =>
            .ok (first :: others, rest) := by
        rw [Stmt.plain_readBlock]
        simp only [ht, if_false]
      refine .congr hread ((Stmt.local_read (t :: rest)).andThen fun first rest' hfirst => ?_)
      have : rest'.length ≤ rest.length := Nat.le_of_lt_succ (length_lt_of_plain hfirst)
      exact (Stmt.local_readBlock rest').andThen fun others rest'' _ => .done _ rest''
termination_by 4 * ts.length + 2

theorem Stmt.local_readIf (ts : List Token) : Local (plain Stmt.readIf) ts := by
  rw [funext Stmt.plain_readIf]
  refine (Expr.local_readCondition _ _ ts).andThen fun condition rest₁ hcondition => ?_
  have := length_lt_of_plain hcondition
  refine (Stmt.local_read rest₁).andThen fun consequent rest₂ hconsequent => ?_
  have := length_lt_of_plain hconsequent
  refine .choice (fun keyword behind hfront => ?_) fun _ => .done _ rest₂
  have := length_lt_of_front? hfront
  exact (Stmt.local_read behind).andThen fun alternative rest₃ _ => .done _ rest₃
termination_by 4 * ts.length

theorem Stmt.local_readWhile (ts : List Token) : Local (plain Stmt.readWhile) ts := by
  rw [funext Stmt.plain_readWhile]
  refine (Expr.local_readCondition _ _ ts).andThen fun condition rest hcondition => ?_
  have := length_lt_of_plain hcondition
  exact (Stmt.local_read rest).andThen fun body rest' _ => .done _ rest'
termination_by 4 * ts.length

theorem Stmt.local_readFor (ts : List Token) : Local (plain Stmt.readFor) ts := by
  rw [funext Stmt.plain_readFor]
  refine (ForClauses.local_read ts).andThen fun clauses rest hclauses => ?_
  have := length_lt_of_plain hclauses
  exact (Stmt.local_read rest).andThen fun body rest' _ => .done _ rest'
termination_by 4 * ts.length

end

theorem Stmt.local_answerAll (ts : List Token) : Local Stmt.answerAll ts := by
  cases ts with
  | nil => exact .nil (by rw [Stmt.answerAll, Stmt.readAll_nil]; rfl)
  | cons t rest =>
    refine .congr (Stmt.answerAll_cons t)
      ((Stmt.local_read (t :: rest)).andThen fun first rest' hfirst => ?_)
    have : rest'.length ≤ rest.length := Nat.le_of_lt_succ (length_lt_of_plain hfirst)
    exact (Stmt.local_answerAll rest').andThen fun others rest'' _ => .done _ rest''
termination_by ts.length

end LoxLang
