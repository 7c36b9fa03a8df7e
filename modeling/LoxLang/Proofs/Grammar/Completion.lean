import LoxLang.Proofs.Grammar.Programs

/-!
# `LoxLang.Proofs.Grammar.Completion`: what has been taken can be completed

Where a reader finds that something is missing, it has taken no token
too many: other tokens can be put behind those that it has taken, and
then it reads them all. The one thing that may still be wrong is the
target of an assignment, since a reader refuses it only when it has read
the value.

* `Settles`: a reader takes certain tokens whatever stands behind them,
  or refuses a target;
* `Completable`: with some more tokens behind them it does;
* `Viable`: that is so of what a reader has taken where it finds
  something missing. There is one lemma for each reader.
-/

set_option autoImplicit false

namespace LoxLang

variable {α β : Type}

/-! ### Settled readings -/

/-- Wherever the tokens end, the reader takes just them, or it refuses a
target in them. -/
inductive Settles (Ends : List Token → Prop) (read : List Token → Answer α) (ts : List Token) :
    Prop where
  | taken (a : α) (h : ∀ rest, Ends rest → read (ts ++ rest) = .ok (a, rest))
  | refused (h : ∀ rest, Ends rest →
      ∃ equals rest', read (ts ++ rest) = .error (.target equals rest'))

/-- Nothing is asked of what stands behind. -/
def Always (_ : List Token) : Prop := True

namespace Settles

variable {Ends Ends' : List Token → Prop} {read next : List Token → Answer α} {ts us : List Token}

theorem mono (hends : ∀ rest, Ends' rest → Ends rest) (h : Settles Ends read ts) :
    Settles Ends' read ts := by
  cases h with
  | taken a h => exact .taken a fun rest hrest => h rest (hends rest hrest)
  | refused h => exact .refused fun rest hrest => h rest (hends rest hrest)

/-- A reader may go on with another one behind certain tokens. -/
theorem behind {front : List Token}
    (hread : ∀ rest, Ends rest → read (front ++ (ts ++ rest)) = next (ts ++ rest))
    (h : Settles Ends next ts) : Settles Ends read (front ++ ts) := by
  cases h with
  | taken a h =>
    exact .taken a fun rest hrest => by rw [List.append_assoc, hread rest hrest, h rest hrest]
  | refused h =>
    refine .refused fun rest hrest => ?_
    obtain ⟨equals, rest', hrefused⟩ := h rest hrest
    exact ⟨equals, rest', by rw [List.append_assoc, hread rest hrest, hrefused]⟩

/-- Two readers one behind the other, where the tokens of the second let
those of the first end. -/
theorem andThen {f : α → List Token → Answer β} (hends : ∀ rest, Ends' rest → Ends (us ++ rest))
    (h : Settles Ends read ts) (hf : ∀ a, Settles Ends' (f a) us) :
    Settles Ends' (fun ts => LoxLang.andThen (read ts) f) (ts ++ us) := by
  cases h with
  | taken a h =>
    exact (hf a).behind fun rest hrest => by rw [h _ (hends rest hrest), andThen_ok]
  | refused h =>
    refine .refused fun rest hrest => ?_
    obtain ⟨equals, rest', hrefused⟩ := h _ (hends rest hrest)
    exact ⟨equals, rest', by rw [List.append_assoc, hrefused, andThen_error]⟩

/-- What is made of the reading takes no tokens. -/
theorem done (a : α) : Settles Ends (fun rest => .ok (a, rest)) [] :=
  .taken a fun _ _ => rfl

theorem map (g : α → β) (h : Settles Ends read ts) :
    Settles Ends (fun ts => LoxLang.andThen (read ts) fun a rest => .ok (g a, rest)) ts := by
  have hwhole := h.andThen (fun _ => id) fun a => done (g a)
  rwa [List.append_nil] at hwhole

end Settles

/-! ### Completions -/

/-- With some tokens behind those that are given, none of them an end, the
reader takes them all or refuses a target. -/
def Completable (Ends : List Token → Prop) (read : List Token → Answer α) (taken : List Token) :
    Prop :=
  ∃ us, (∀ t ∈ us, t.kind ≠ .eof) ∧ Settles Ends read (taken ++ us)

namespace Completable

variable {Ends Ends' : List Token → Prop} {read next : List Token → Answer α}
  {taken : List Token}

theorem mono (hends : ∀ rest, Ends' rest → Ends rest) (h : Completable Ends read taken) :
    Completable Ends' read taken := by
  obtain ⟨us, hus, hsettles⟩ := h
  exact ⟨us, hus, hsettles.mono hends⟩

theorem behind {front : List Token}
    (hread : ∀ us, read (front ++ (taken ++ us)) = next (taken ++ us))
    (h : Completable Ends next taken) : Completable Ends read (front ++ taken) := by
  obtain ⟨us, hus, hsettles⟩ := h
  refine ⟨us, hus, ?_⟩
  rw [List.append_assoc]
  exact hsettles.behind fun rest _ => by rw [List.append_assoc, hread]

/-- What is completed may begin with what was there before. -/
theorem of_append {us : List Token} (hus : ∀ t ∈ us, t.kind ≠ .eof)
    (h : Completable Ends read (taken ++ us)) : Completable Ends read taken := by
  obtain ⟨vs, hvs, hsettles⟩ := h
  rw [List.append_assoc] at hsettles
  exact ⟨us ++ vs, List.forall_mem_append.mpr ⟨hus, hvs⟩, hsettles⟩

/-- Behind what completes the first of two readers stands what the second
one asks for. -/
theorem andThen {f : α → List Token → Answer β} (h : Completable Always read taken)
    (hf : ∀ a, Completable Ends (f a) []) :
    Completable Ends (fun ts => LoxLang.andThen (read ts) f) taken := by
  obtain ⟨us, hus, hsettles⟩ := h
  cases hsettles with
  | taken a hread =>
    obtain ⟨vs, hvs, hnext⟩ := hf a
    refine ⟨us ++ vs, List.forall_mem_append.mpr ⟨hus, hvs⟩, ?_⟩
    rw [← List.append_assoc]
    exact hnext.behind fun rest _ => by rw [hread _ trivial, andThen_ok]
  | refused hrefused =>
    refine ⟨us, hus, .refused fun rest _ => ?_⟩
    obtain ⟨equals, rest', hrest⟩ := hrefused rest trivial
    exact ⟨equals, rest', by rw [hrest, andThen_error]⟩

/-- The tokens of the second of two readers may be needed to let those of
the first end. -/
theorem andThen_of_ends {f : α → List Token → Answer β} {us : List Token}
    (h : Completable Ends read taken) (hus : ∀ t ∈ us, t.kind ≠ .eof)
    (hends : ∀ rest, Ends' rest → Ends (us ++ rest)) (hf : ∀ a, Settles Ends' (f a) us) :
    Completable Ends' (fun ts => LoxLang.andThen (read ts) f) taken := by
  obtain ⟨vs, hvs, hsettles⟩ := h
  refine ⟨vs ++ us, List.forall_mem_append.mpr ⟨hvs, hus⟩, ?_⟩
  rw [← List.append_assoc]
  exact hsettles.andThen hends hf

/-- The second of two readers may take no tokens. -/
theorem andThen_stay {f : α → List Token → Answer β} (h : Completable Ends read taken)
    (hends : ∀ rest, Ends' rest → Ends rest) (hf : ∀ a, Settles Ends' (f a) []) :
    Completable Ends' (fun ts => LoxLang.andThen (read ts) f) taken :=
  have hnone : ∀ t ∈ ([] : List Token), t.kind ≠ .eof := by simp
  h.andThen_of_ends hnone hends hf

end Completable

/-- Where the reader finds something missing, what it has taken can be
completed. -/
def Viable (Ends : List Token → Prop) (read : List Token → Answer α) (ts : List Token) : Prop :=
  ∀ what rest, read ts = .error (.missing what rest) →
    ∃ taken, ts = taken ++ rest ∧ Completable Ends read taken

namespace Viable

variable {Ends Ends' : List Token → Prop} {read next : List Token → Answer α} {t : Token}
  {ts rest : List Token}

theorem mono (hends : ∀ rest, Ends' rest → Ends rest) (h : Viable Ends read ts) :
    Viable Ends' read ts := by
  intro what rest hmissing
  obtain ⟨taken, hts, htaken⟩ := h what rest hmissing
  exact ⟨taken, hts, htaken.mono hends⟩

theorem of_ok {a : α} (h : read ts = .ok (a, rest)) : Viable Ends read ts := by
  intro what rest' hmissing
  rw [h] at hmissing
  cases hmissing

/-- Where nothing is taken, any completion will do. -/
theorem of_missing {what : String} (h : read ts = .error (.missing what ts))
    (hread : Completable Ends read []) : Viable Ends read ts := by
  intro what' rest hmissing
  rw [h] at hmissing
  cases hmissing
  exact ⟨[], rfl, hread⟩

theorem behind (hread : ∀ us, read (t :: us) = next us) (h : Viable Ends next rest) :
    Viable Ends read (t :: rest) := by
  intro what rest' hmissing
  rw [hread] at hmissing
  obtain ⟨taken, rfl, htaken⟩ := h what rest' hmissing
  have hfront (us : List Token) : read ([t] ++ (taken ++ us)) = next (taken ++ us) := hread _
  exact ⟨t :: taken, rfl, htaken.behind hfront⟩

/-- A reader may do as another one does where a certain token is the
next. -/
theorem congr (hread : ∀ us, read (t :: us) = next (t :: us)) (hnone : Completable Ends read [])
    (h : Viable Ends next (t :: rest)) : Viable Ends read (t :: rest) := by
  intro what rest' hmissing
  rw [hread] at hmissing
  obtain ⟨taken, hts, htaken⟩ := h what rest' hmissing
  cases taken with
  -- the token is not taken, so another one may stand there
  | nil => exact ⟨[], hts, hnone⟩
  | cons u taken =>
    obtain ⟨rfl, rfl⟩ := List.cons.inj hts
    have hfront (us : List Token) : read ([] ++ (t :: taken ++ us)) = next (t :: taken ++ us) :=
      hread _
    exact ⟨t :: taken, rfl, htaken.behind hfront⟩

/-- What is made of the reading takes no tokens. -/
theorem map (g : α → β) (h : Viable Ends read ts) :
    Viable Ends (fun ts => LoxLang.andThen (read ts) fun a rest => .ok (g a, rest)) ts := by
  intro what rest hmissing
  rcases andThen_eq_error_iff.mp hmissing with hread | ⟨_, _, _, ⟨⟩⟩
  obtain ⟨taken, hts, htaken⟩ := h what rest hread
  exact ⟨taken, hts, htaken.andThen_stay (fun _ => id) fun a => .done (g a)⟩

end Viable

/-! ### Expressions -/

theorem expect_ofKind (kind : Token.Kind) (what : String) (rest : List Token) :
    plain (expect kind what) (Token.ofKind kind :: rest) = .ok (Token.ofKind kind, rest) :=
  expect_cons rfl

/-- Nothing goes on with an expression. -/
def Expr.Ends (rest : List Token) : Prop :=
  Tier.or.Ends rest ∧ front? [.equal] rest = none

theorem Expr.ends_cons {t : Token} (ht : t.kind = .semicolon ∨ t.kind = .rightParen)
    (rest : List Token) : Expr.Ends (t :: rest) := by
  refine ⟨Tier.ends_cons ?_, ?_⟩
  · rcases ht with ht | ht <;> rw [ht] <;> rfl
  · rcases ht with ht | ht <;> simp [front?_cons, ht]

variable {tier : Tier} {left : Expr} {operator equals : Token} {us taken : List Token}

/-- An operand behind a chain and an operator can be completed to a longer
chain. -/
theorem Expr.completable_chain (hleft : Expr.Derives tier.level us left)
    (hoperator : operator.kind ∈ tier.operators)
    (h : Completable tier.OperandEnds (plain (Expr.readOperand tier)) taken) :
    Completable tier.Ends (plain (Expr.readTier tier)) (us ++ operator :: taken) := by
  have hgoesOn (right : Expr) :
      Settles tier.Ends (plain (Expr.readChain tier (tier.join left operator right))) [] :=
    .taken _ fun rest hrest => hrest.plain_readChain
  have hchain := h.andThen_stay (fun _ hrest => Tier.Ends.operandEnds hrest) hgoesOn
  have hfront (vs : List Token) : plain (Expr.readTier tier) (us ++ [operator] ++ (taken ++ vs)) =
      andThen (plain (Expr.readOperand tier) (taken ++ vs)) fun right rest =>
        plain (Expr.readChain tier (tier.join left operator right)) rest := by
    have hread := Tier.completes_level.mp hleft.completes (operator :: (taken ++ vs))
      (Tier.operandEnds_cons hoperator)
    rw [List.append_assoc, List.singleton_append, hread, Expr.plain_readChain, front?_cons,
      if_pos hoperator]
  have hwhole := hchain.behind hfront
  rwa [List.append_assoc] at hwhole

/-- A value behind an equals sign can be completed to that of an
assignment. If what stands in front of the sign is no name, it is refused
then. -/
theorem Expr.completable_assign (hleft : Expr.Derives .or us left) (hequals : equals.kind = .equal)
    (h : Completable Expr.Ends (plain Expr.read) taken) :
    Completable Expr.Ends (plain Expr.read) (us ++ equals :: taken) := by
  have hassigned (right : Expr) :
      Settles Expr.Ends (fun rest => Expr.assigned equals right rest left) [] := by
    cases left with
    | «variable» name => exact .done _
    | _ => exact .refused fun rest _ => ⟨equals, rest, rfl⟩
  have hvalue := h.andThen_stay (fun _ => id) hassigned
  have hfront (vs : List Token) : plain Expr.read (us ++ [equals] ++ (taken ++ vs)) =
      andThen (plain Expr.read (taken ++ vs)) fun right rest =>
        Expr.assigned equals right rest left := by
    have hends : Tier.or.Ends (equals :: (taken ++ vs)) := Tier.ends_cons (by rw [hequals]; rfl)
    have hcompletes : Tier.or.Completes us left := hleft.completes
    have hread := (hcompletes _ hends.operandEnds).trans hends.plain_readChain
    rw [List.append_assoc, List.singleton_append, Expr.plain_read, hread, andThen_ok, front?_cons,
      if_pos (by simp [hequals])]
  have hwhole := hvalue.behind hfront
  rwa [List.append_assoc] at hwhole

theorem Expr.completable_readUnary_nil : Completable Always (plain Expr.readUnary) [] := by
  have hderives : Expr.Derives .unary [Token.ofKind .nil] (.literal .nil) := .unary (.nil rfl)
  exact ⟨[Token.ofKind .nil], by decide, .taken _ fun rest _ => hderives.completes rest⟩

theorem Expr.completable_readPrimary_nil : Completable Always (plain Expr.readPrimary) [] := by
  have hderives : Expr.Derives .primary [Token.ofKind .nil] (.literal .nil) := .nil rfl
  exact ⟨[Token.ofKind .nil], by decide, .taken _ fun rest _ => hderives.completes rest⟩

/-- An expression is closed by a token that ends it. -/
theorem Expr.plain_read_upTo {kind : Token.Kind} (hkind : kind = .semicolon ∨ kind = .rightParen)
    (what : String) (g : Expr → α) {e : Expr} {t : Token} (hus : Expr.Derives .expression us e)
    (ht : t.kind = kind) (rest : List Token) :
    (andThen (plain Expr.read (us ++ [t] ++ rest)) fun e rest =>
      andThen (plain (expect kind what) rest) fun _ rest => .ok (g e, rest)) = .ok (g e, rest) := by
  rw [List.append_assoc, List.singleton_append, hus.plain_read (ht ▸ hkind), andThen_ok,
    expect_cons ht, andThen_ok]

theorem Expr.viable_upTo {kind : Token.Kind} (hkind : kind = .semicolon ∨ kind = .rightParen)
    (what : String) (g : Expr → α) {ts : List Token} (h : Viable Expr.Ends (plain Expr.read) ts) :
    Viable Always (fun ts => andThen (plain Expr.read ts) fun e rest =>
      andThen (plain (expect kind what) rest) fun _ rest => .ok (g e, rest)) ts := by
  have hend : ∀ t ∈ [Token.ofKind kind], t.kind ≠ .eof := by
    rcases hkind with rfl | rfl <;> decide
  intro what' rest hmissing
  rcases andThen_eq_error_iff.mp hmissing with he | ⟨e, rest', he, hmissing⟩
  · obtain ⟨taken, hts, htaken⟩ := h what' rest he
    refine ⟨taken, hts, htaken.andThen_of_ends hend (fun rest _ => Expr.ends_cons hkind rest)
      fun e => .taken (g e) fun rest _ => ?_⟩
    rw [List.singleton_append, expect_ofKind, andThen_ok]
  · -- only the token that ends the expression is missing
    rcases andThen_eq_error_iff.mp hmissing with hexpect | ⟨_, _, _, ⟨⟩⟩
    cases expect_eq_error hexpect
    obtain ⟨us, hts, hus⟩ := Expr.derives_of_read he
    exact ⟨us, hts, [Token.ofKind kind], hend,
      .taken (g e) fun rest _ => Expr.plain_read_upTo hkind what g hus rfl rest⟩

/-! ### Expressions are completed -/

-- By recursion on the measures that the readers have.
mutual

theorem Expr.viable_read (ts : List Token) : Viable Expr.Ends (plain Expr.read) ts := by
  intro what rest hmissing
  rw [Expr.plain_read] at hmissing
  rcases andThen_eq_error_iff.mp hmissing with hleft | ⟨left, rest', hleft, h⟩
  · obtain ⟨taken, hts, htaken⟩ := Expr.viable_readTier .or ts what rest hleft
    refine ⟨taken, hts, ?_⟩
    rw [funext Expr.plain_read]
    exact htaken.andThen_stay (fun _ hrest => hrest.1) fun left =>
      .taken left fun rest hrest => by rw [List.nil_append, hrest.2]
  · split at h
    · cases h
    · next equals behind hfront =>
      have := length_lt_of_plain hleft
      have := length_lt_of_front? hfront
      obtain ⟨us, rfl, hus⟩ := Expr.derives_of_readTier hleft
      obtain ⟨rfl, hequals⟩ := front?_eq_some_iff.mp hfront
      rcases andThen_eq_error_iff.mp h with hright | ⟨right, rest'', hright, hassigned⟩
      · obtain ⟨taken, rfl, htaken⟩ := Expr.viable_read behind what rest hright
        exact ⟨us ++ equals :: taken, by simp,
          Expr.completable_assign hus (by simpa using hequals) htaken⟩
      -- a target that is refused is not missing
      · cases left <;> cases hassigned
termination_by 16 * ts.length + 15

theorem Expr.viable_readTier (tier : Tier) (ts : List Token) :
    Viable tier.Ends (plain (Expr.readTier tier)) ts := by
  intro what rest hmissing
  rw [Expr.plain_readTier] at hmissing
  rcases andThen_eq_error_iff.mp hmissing with hfirst | ⟨first, rest', hfirst, hchain⟩
  · obtain ⟨taken, hts, htaken⟩ := Expr.viable_readOperand tier ts what rest hfirst
    refine ⟨taken, hts, ?_⟩
    rw [funext (Expr.plain_readTier tier)]
    exact htaken.andThen_stay (fun _ hrest => Tier.Ends.operandEnds hrest) fun first =>
      .taken first fun rest hrest => Tier.Ends.plain_readChain hrest
  · have := length_lt_of_plain hfirst
    obtain ⟨us, rfl, hus⟩ := Expr.derives_of_readOperand hfirst
    obtain ⟨taken, rfl, htaken⟩ := Expr.viable_readChain (.operand tier.chain hus) hchain
    exact ⟨us ++ taken, by simp, htaken⟩
termination_by 16 * ts.length + 2 * tier.height + 1

theorem Expr.viable_readOperand (tier : Tier) (ts : List Token) :
    Viable tier.OperandEnds (plain (Expr.readOperand tier)) ts := by
  rw [funext (Expr.plain_readOperand tier)]
  split
  · next inner hinner =>
    have := Tier.height_of_tighter? hinner
    exact (Expr.viable_readTier inner ts).mono fun _ hrest => Tier.OperandEnds.ends hrest hinner
  · have := tier.height_pos
    exact (Expr.viable_readUnary ts).mono fun _ _ => trivial
termination_by 16 * ts.length + 2 * tier.height

/-- What a chain has taken can be completed to a longer one. -/
theorem Expr.viable_readChain {tier : Tier} {left : Expr} {us ts rest : List Token}
    {what : String} (hleft : Expr.Derives tier.level us left)
    (hmissing : plain (Expr.readChain tier left) ts = .error (.missing what rest)) :
    ∃ taken, ts = taken ++ rest ∧
      Completable tier.Ends (plain (Expr.readTier tier)) (us ++ taken) := by
  rw [Expr.plain_readChain] at hmissing
  split at hmissing
  · cases hmissing
  · next operator behind hfront =>
    have := length_lt_of_front? hfront
    have := tier.height_le
    obtain ⟨rfl, hoperator⟩ := front?_eq_some_iff.mp hfront
    -- it is missing in the operand behind the operator, or further on in the chain
    rcases andThen_eq_error_iff.mp hmissing with hright | ⟨right, rest', hright, hchain⟩
    · obtain ⟨taken, rfl, htaken⟩ := Expr.viable_readOperand tier behind what rest hright
      exact ⟨operator :: taken, rfl, Expr.completable_chain hleft hoperator htaken⟩
    · have := length_lt_of_plain hright
      obtain ⟨vs, rfl, hvs⟩ := Expr.derives_of_readOperand hright
      obtain ⟨taken, rfl, htaken⟩ :=
        Expr.viable_readChain (.chain tier.chain hleft hoperator hvs) hchain
      exact ⟨operator :: (vs ++ taken), by simp, by simpa using htaken⟩
termination_by 16 * ts.length + 14

theorem Expr.viable_readUnary (ts : List Token) : Viable Always (plain Expr.readUnary) ts := by
  cases ts with
  | nil =>
    have hmissing : plain Expr.readUnary [] = .error (.missing "expression" []) := by
      rw [Expr.plain_readUnary, front?_nil, Expr.plain_readPrimary_nil]
    exact .of_missing hmissing Expr.completable_readUnary_nil
  | cons t rest =>
    by_cases ht : t.kind ∈ unaryOperators
    · have hread (us : List Token) : plain Expr.readUnary (t :: us) =
          andThen (plain Expr.readUnary us) fun operand rest => .ok (.unary t operand, rest) := by
        rw [Expr.plain_readUnary, front?_cons, if_pos ht]
      exact .behind hread ((Expr.viable_readUnary rest).map (Expr.unary t))
    · have hread (us : List Token) :
          plain Expr.readUnary (t :: us) = plain Expr.readPrimary (t :: us) := by
        rw [Expr.plain_readUnary, front?_cons, if_neg ht]
      exact .congr hread Expr.completable_readUnary_nil (Expr.viable_readPrimary (t :: rest))
termination_by 16 * ts.length + 1

theorem Expr.viable_readPrimary (ts : List Token) :
    Viable Always (plain Expr.readPrimary) ts := by
  cases ts with
  | nil => exact .of_missing Expr.plain_readPrimary_nil Expr.completable_readPrimary_nil
  | cons t rest =>
    have hread := Expr.plain_readPrimary t
    split at hread
    · exact .of_ok (hread rest)
    · split at hread
      · exact .behind hread (Expr.viable_upTo (.inr rfl) _ Expr.grouping (Expr.viable_read rest))
      · exact .of_missing (hread rest) Expr.completable_readPrimary_nil
termination_by 16 * ts.length

end

end LoxLang
