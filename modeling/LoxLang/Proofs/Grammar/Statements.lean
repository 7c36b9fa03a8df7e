import LoxLang.Proofs.Grammar.Expressions

/-!
# `LoxLang.Proofs.Grammar.Statements`: statements are read as derived

The reader of statements gives an `else` to the nearest `if` that can
take it, and so reads exactly the derivations of `ElseRule.nearest`.

* `Stmt.derives_of_read`, `Stmt.derivesAll_of_readBlock`: what is read
  is derivable, and no `else` is left behind that could be taken;
* `Stmt.Derives.plain_read`, `Stmt.DerivesAll.plain_readBlock`: what is
  derivable is read, where no such `else` stands behind it.
-/

set_option autoImplicit false

namespace LoxLang

/-! ### Clauses that are read -/

variable {ts rest : List Token}

theorem Stmt.derives_of_readExpression {s : Stmt}
    (hread : plain Stmt.readExpression ts = .ok (s, rest)) :
    ∃ us, ts = us ++ rest ∧ Stmt.DerivesExpression us s := by
  rw [Stmt.plain_readExpression] at hread
  obtain ⟨e, rest', he, h⟩ := andThen_eq_ok_iff.mp hread
  obtain ⟨us, rfl, hus⟩ := Expr.derives_of_read he
  obtain ⟨semicolon, rest'', hexpect, hr⟩ := andThen_eq_ok_iff.mp h
  obtain ⟨rfl, hsemicolon⟩ := expect_eq_ok_iff.mp hexpect
  cases hr
  exact ⟨us ++ [semicolon], by simp, .intro hus hsemicolon⟩

theorem Stmt.derives_of_readPrint {keyword : Token} {s : Stmt} (hkeyword : keyword.kind = .print)
    (hread : plain (Stmt.readPrint keyword) ts = .ok (s, rest)) :
    ∃ us, ts = us ++ rest ∧ Stmt.Derives .nearest false (keyword :: us) s := by
  rw [Stmt.plain_readPrint] at hread
  obtain ⟨e, rest', he, h⟩ := andThen_eq_ok_iff.mp hread
  obtain ⟨us, rfl, hus⟩ := Expr.derives_of_read he
  obtain ⟨semicolon, rest'', hexpect, hr⟩ := andThen_eq_ok_iff.mp h
  obtain ⟨rfl, hsemicolon⟩ := expect_eq_ok_iff.mp hexpect
  cases hr
  exact ⟨us ++ [semicolon], by simp, .print hkeyword hus hsemicolon⟩

theorem Stmt.derives_of_readVar {keyword : Token} {s : Stmt} (hkeyword : keyword.kind = .var)
    (hread : plain Stmt.readVar ts = .ok (s, rest)) :
    ∃ us, ts = us ++ rest ∧ Stmt.DerivesVar (keyword :: us) s := by
  rw [Stmt.plain_readVar] at hread
  obtain ⟨name, rest₁, hexpect, h₁⟩ := andThen_eq_ok_iff.mp hread
  obtain ⟨rfl, hname⟩ := expect_eq_ok_iff.mp hexpect
  obtain ⟨equals, rest₂, hexpect, h₂⟩ := andThen_eq_ok_iff.mp h₁
  obtain ⟨rfl, hequals⟩ := expect_eq_ok_iff.mp hexpect
  obtain ⟨e, rest₃, he, h₃⟩ := andThen_eq_ok_iff.mp h₂
  obtain ⟨us, rfl, hus⟩ := Expr.derives_of_read he
  obtain ⟨semicolon, rest₄, hexpect, hr⟩ := andThen_eq_ok_iff.mp h₃
  obtain ⟨rfl, hsemicolon⟩ := expect_eq_ok_iff.mp hexpect
  cases hr
  exact ⟨name :: equals :: (us ++ [semicolon]), by simp,
    .intro hkeyword hname hequals hus hsemicolon⟩

theorem Expr.derives_of_readCondition {kind : Token.Kind} {before after : String}
    {keyword : Token} {e : Expr} (hkeyword : keyword.kind = kind)
    (hread : plain (Expr.readCondition before after) ts = .ok (e, rest)) :
    ∃ us, ts = us ++ rest ∧ Expr.DerivesHeader kind (keyword :: us) e := by
  rw [Expr.plain_readCondition] at hread
  obtain ⟨opening, rest₁, hexpect, h₁⟩ := andThen_eq_ok_iff.mp hread
  obtain ⟨rfl, hopening⟩ := expect_eq_ok_iff.mp hexpect
  obtain ⟨e', rest₂, he, h₂⟩ := andThen_eq_ok_iff.mp h₁
  obtain ⟨us, rfl, hus⟩ := Expr.derives_of_read he
  obtain ⟨closing, rest₃, hexpect, hr⟩ := andThen_eq_ok_iff.mp h₂
  obtain ⟨rfl, hclosing⟩ := expect_eq_ok_iff.mp hexpect
  cases hr
  exact ⟨opening :: (us ++ [closing]), by simp, .intro hkeyword hopening hus hclosing⟩

theorem Expr.derives_of_readUnless {kind : Token.Kind} {e : Option Expr}
    (hread : plain (Expr.readUnless kind) ts = .ok (e, rest)) :
    ∃ us, ts = us ++ rest ∧ Expr.DerivesOptional us e := by
  rw [Expr.plain_readUnless] at hread
  split at hread
  · cases hread
    exact ⟨[], rfl, .absent⟩
  · obtain ⟨e', rest', he, hr⟩ := andThen_eq_ok_iff.mp hread
    obtain ⟨us, rfl, hus⟩ := Expr.derives_of_read he
    cases hr
    exact ⟨us, rfl, .present hus⟩

theorem Stmt.derives_of_readInitial {s : Option Stmt}
    (hread : plain Stmt.readInitial ts = .ok (s, rest)) :
    ∃ us, ts = us ++ rest ∧ Stmt.DerivesInitial us s := by
  rw [Stmt.plain_readInitial] at hread
  split at hread
  · next semicolon rest' hfront =>
    obtain ⟨rfl, hsemicolon⟩ := front?_eq_some_iff.mp hfront
    cases hread
    exact ⟨[semicolon], rfl, .absent (by simpa using hsemicolon)⟩
  · next keyword rest' _ hfront =>
    obtain ⟨rfl, hkeyword⟩ := front?_eq_some_iff.mp hfront
    obtain ⟨s', rest'', hs, hr⟩ := andThen_eq_ok_iff.mp hread
    obtain ⟨us, rfl, hus⟩ := Stmt.derives_of_readVar (by simpa using hkeyword) hs
    cases hr
    exact ⟨keyword :: us, rfl, .var hus⟩
  · obtain ⟨s', rest', hs, hr⟩ := andThen_eq_ok_iff.mp hread
    obtain ⟨us, rfl, hus⟩ := Stmt.derives_of_readExpression hs
    cases hr
    exact ⟨us, rfl, .expression hus⟩

theorem ForClauses.derives_of_read {keyword : Token} {clauses : ForClauses}
    (hkeyword : keyword.kind = .for)
    (hread : plain ForClauses.read ts = .ok (clauses, rest)) :
    ∃ us, ts = us ++ rest ∧ Stmt.DerivesClauses (keyword :: us)
      clauses.initial clauses.condition clauses.increment := by
  rw [ForClauses.plain_read] at hread
  obtain ⟨opening, rest₁, hexpect, h₁⟩ := andThen_eq_ok_iff.mp hread
  obtain ⟨rfl, hopening⟩ := expect_eq_ok_iff.mp hexpect
  obtain ⟨initial, rest₂, hinitial, h₂⟩ := andThen_eq_ok_iff.mp h₁
  obtain ⟨us, rfl, hus⟩ := Stmt.derives_of_readInitial hinitial
  obtain ⟨condition, rest₃, hcondition, h₃⟩ := andThen_eq_ok_iff.mp h₂
  obtain ⟨vs, rfl, hvs⟩ := Expr.derives_of_readUnless hcondition
  obtain ⟨semicolon, rest₄, hexpect, h₄⟩ := andThen_eq_ok_iff.mp h₃
  obtain ⟨rfl, hsemicolon⟩ := expect_eq_ok_iff.mp hexpect
  obtain ⟨increment, rest₅, hincrement, h₅⟩ := andThen_eq_ok_iff.mp h₄
  obtain ⟨ws, rfl, hws⟩ := Expr.derives_of_readUnless hincrement
  obtain ⟨closing, rest₆, hexpect, hr⟩ := andThen_eq_ok_iff.mp h₅
  obtain ⟨rfl, hclosing⟩ := expect_eq_ok_iff.mp hexpect
  cases hr
  exact ⟨opening :: (us ++ vs ++ semicolon :: (ws ++ [closing])), by simp,
    .intro hkeyword hopening hus hvs hsemicolon hws hclosing⟩

/-! ### What is read is derivable -/

-- What the flag says of an `else` goes along: where the reader leaves one behind, no `if`
-- among the tokens that it took could have had it.
mutual

theorem Stmt.derives_of_read {ts rest : List Token} {s : Stmt}
    (hread : plain Stmt.read ts = .ok (s, rest)) :
    ∃ us canTake, ts = us ++ rest ∧ Stmt.Derives .nearest canTake us s ∧
      (canTake = true → front? [.else] rest = none) := by
  cases ts with
  | nil => simp at hread
  | cons t ts =>
    rw [Stmt.plain_read] at hread
    split at hread
    · next hkind =>
      obtain ⟨us, rfl, hus⟩ := Stmt.derives_of_readPrint hkind hread
      exact ⟨t :: us, false, rfl, hus, nofun⟩
    · next hkind =>
      obtain ⟨us, rfl, hus⟩ := Stmt.derives_of_readVar hkind hread
      exact ⟨t :: us, false, rfl, .var hus, nofun⟩
    · next hkind =>
      obtain ⟨body, rest', hbody, hr⟩ := andThen_eq_ok_iff.mp hread
      obtain ⟨us, closing, rfl, hclosing, hus⟩ := Stmt.derivesAll_of_readBlock hbody
      cases hr
      exact ⟨t :: (us ++ [closing]), false, by simp, .block hkind hus hclosing, nofun⟩
    · next hkind =>
      obtain ⟨us, canTake, rfl, hus, hrest⟩ := Stmt.derives_of_readIf hkind hread
      exact ⟨t :: us, canTake, rfl, hus, hrest⟩
    · next hkind =>
      obtain ⟨us, canTake, rfl, hus, hrest⟩ := Stmt.derives_of_readWhile hkind hread
      exact ⟨t :: us, canTake, rfl, hus, hrest⟩
    · next hkind =>
      obtain ⟨us, canTake, rfl, hus, hrest⟩ := Stmt.derives_of_readFor hkind hread
      exact ⟨t :: us, canTake, rfl, hus, hrest⟩
    · obtain ⟨us, hts, hus⟩ := Stmt.derives_of_readExpression hread
      exact ⟨us, false, hts, .expression hus, nofun⟩
termination_by 4 * ts.length + 1

theorem Stmt.derivesAll_of_readBlock {ts rest : List Token} {body : List Stmt}
    (hread : plain Stmt.readBlock ts = .ok (body, rest)) :
    ∃ us closing, ts = us ++ closing :: rest ∧ closing.kind = .rightBrace ∧
      Stmt.DerivesAll .nearest us body := by
  rw [Stmt.plain_readBlock] at hread
  split at hread
  · cases hread
  · next t ts =>
    split at hread
    · next hkind =>
      cases hread
      exact ⟨[], t, rfl, hkind, .nil⟩
    · obtain ⟨first, rest', hfirst, h⟩ := andThen_eq_ok_iff.mp hread
      have := length_lt_of_plain hfirst
      -- what the flag says of an `else` behind it does not matter inside a block
      obtain ⟨us, canTake, hts, hus, -⟩ := Stmt.derives_of_read hfirst
      obtain ⟨others, rest'', hothers, hr⟩ := andThen_eq_ok_iff.mp h
      obtain ⟨vs, closing, rfl, hclosing, hvs⟩ := Stmt.derivesAll_of_readBlock hothers
      cases hr
      exact ⟨us ++ vs, closing, by simp [hts], hclosing, .cons hus hvs⟩
termination_by 4 * ts.length + 2

theorem Stmt.derives_of_readIf {ts rest : List Token} {keyword : Token} {s : Stmt}
    (hkeyword : keyword.kind = .if)
    (hread : plain Stmt.readIf ts = .ok (s, rest)) :
    ∃ us canTake, ts = us ++ rest ∧ Stmt.Derives .nearest canTake (keyword :: us) s ∧
      (canTake = true → front? [.else] rest = none) := by
  rw [Stmt.plain_readIf] at hread
  obtain ⟨condition, rest₁, hcondition, h₁⟩ := andThen_eq_ok_iff.mp hread
  have := length_lt_of_plain hcondition
  obtain ⟨us, rfl, hus⟩ := Expr.derives_of_readCondition hkeyword hcondition
  obtain ⟨consequent, rest₂, hconsequent, h₂⟩ := andThen_eq_ok_iff.mp h₁
  have := length_lt_of_plain hconsequent
  obtain ⟨vs, canTake, rfl, hvs, hrest⟩ := Stmt.derives_of_read hconsequent
  split at h₂
  · next hfront =>
    cases h₂
    exact ⟨us ++ vs, true, by simp, .ifThen hus hvs, fun _ => hfront⟩
  · next other behind hfront =>
    -- the consequent has left an `else` behind, so none of its own could take it
    have hclosed : canTake = false := by
      cases canTake with
      | false => rfl
      | true => rw [hrest rfl] at hfront; cases hfront
    have := length_lt_of_front? hfront
    obtain ⟨rfl, hother⟩ := front?_eq_some_iff.mp hfront
    obtain ⟨alternative, rest₃, halternative, hr⟩ := andThen_eq_ok_iff.mp h₂
    obtain ⟨ws, canTake', rfl, hws, hrest'⟩ := Stmt.derives_of_read halternative
    cases hr
    exact ⟨us ++ vs ++ other :: ws, canTake', by simp,
      .ifElse hus hvs hclosed (by simpa using hother) hws, hrest'⟩
termination_by 4 * ts.length

theorem Stmt.derives_of_readWhile {ts rest : List Token} {keyword : Token} {s : Stmt}
    (hkeyword : keyword.kind = .while)
    (hread : plain Stmt.readWhile ts = .ok (s, rest)) :
    ∃ us canTake, ts = us ++ rest ∧ Stmt.Derives .nearest canTake (keyword :: us) s ∧
      (canTake = true → front? [.else] rest = none) := by
  rw [Stmt.plain_readWhile] at hread
  obtain ⟨condition, rest₁, hcondition, h₁⟩ := andThen_eq_ok_iff.mp hread
  have := length_lt_of_plain hcondition
  obtain ⟨us, rfl, hus⟩ := Expr.derives_of_readCondition hkeyword hcondition
  obtain ⟨body, rest₂, hbody, hr⟩ := andThen_eq_ok_iff.mp h₁
  obtain ⟨vs, canTake, rfl, hvs, hrest⟩ := Stmt.derives_of_read hbody
  cases hr
  exact ⟨us ++ vs, canTake, by simp, .while hus hvs, hrest⟩
termination_by 4 * ts.length

theorem Stmt.derives_of_readFor {ts rest : List Token} {keyword : Token} {s : Stmt}
    (hkeyword : keyword.kind = .for)
    (hread : plain Stmt.readFor ts = .ok (s, rest)) :
    ∃ us canTake, ts = us ++ rest ∧ Stmt.Derives .nearest canTake (keyword :: us) s ∧
      (canTake = true → front? [.else] rest = none) := by
  rw [Stmt.plain_readFor] at hread
  obtain ⟨clauses, rest₁, hclauses, h₁⟩ := andThen_eq_ok_iff.mp hread
  have := length_lt_of_plain hclauses
  obtain ⟨us, rfl, hus⟩ := ForClauses.derives_of_read hkeyword hclauses
  obtain ⟨body, rest₂, hbody, hr⟩ := andThen_eq_ok_iff.mp h₁
  obtain ⟨vs, canTake, rfl, hvs, hrest⟩ := Stmt.derives_of_read hbody
  cases hr
  exact ⟨us ++ vs, canTake, by simp, .for hus hvs, hrest⟩
termination_by 4 * ts.length

end

/-! ### First tokens -/

/-- The kinds of token that an expression begins with. -/
def Expr.firstKinds : List Token.Kind :=
  [.minus, .bang, .number, .string, .true, .false, .nil, .leftParen, .identifier]

/-- The kinds of token that a statement begins with. -/
def Stmt.firstKinds : List Token.Kind :=
  [.print, .var, .leftBrace, .if, .while, .for] ++ Expr.firstKinds

theorem Expr.Derives.exists_cons {level : Expr.Level} {e : Expr}
    (h : Expr.Derives level ts e) : ∃ t us, ts = t :: us ∧ t.kind ∈ Expr.firstKinds := by
  induction h with
  | assign h | true h | false h | nil h | grouping h | «variable» h =>
    exact ⟨_, _, rfl, by simp [h, Expr.firstKinds]⟩
  | prefixed h | payload h =>
    exact ⟨_, _, rfl, by rcases h with h | h <;> simp [h, Expr.firstKinds]⟩
  | expression _ ih | operand _ _ ih | unary _ ih => exact ih
  | chain _ _ _ _ ih =>
    obtain ⟨t, us, rfl, ht⟩ := ih
    exact ⟨t, _, rfl, ht⟩

theorem Stmt.Derives.exists_cons {rule : ElseRule} {canTake : Bool} {s : Stmt}
    (h : Stmt.Derives rule canTake ts s) : ∃ t us, ts = t :: us ∧ t.kind ∈ Stmt.firstKinds := by
  cases h with
  | print hkind | block hkind => exact ⟨_, _, rfl, by simp [hkind, Stmt.firstKinds]⟩
  | var h =>
    obtain ⟨hkind⟩ := h
    exact ⟨_, _, rfl, by simp [hkind, Stmt.firstKinds]⟩
  | expression h =>
    obtain ⟨h⟩ := h
    obtain ⟨t, us, rfl, ht⟩ := h.exists_cons
    exact ⟨t, _, rfl, List.mem_append_right _ ht⟩
  | ifThen hheader | ifElse hheader | «while» hheader =>
    obtain ⟨hkind⟩ := hheader
    exact ⟨_, _, rfl, by simp [hkind, Stmt.firstKinds]⟩
  | «for» hclauses =>
    obtain ⟨hkind⟩ := hclauses
    exact ⟨_, _, rfl, by simp [hkind, Stmt.firstKinds]⟩

/-- A token of a kind that is none of an expression's first ones is not
ahead of an expression. -/
theorem Expr.Derives.front?_eq_none {level : Expr.Level} {e : Expr} {kind : Token.Kind}
    (h : Expr.Derives level ts e) (hkind : kind ∉ Expr.firstKinds) :
    front? [kind] (ts ++ rest) = none := by
  obtain ⟨t, us, rfl, ht⟩ := h.exists_cons
  rw [List.cons_append, front?_cons, if_neg]
  intro hmem
  rw [List.mem_singleton] at hmem
  exact hkind (hmem ▸ ht)

theorem Stmt.DerivesExpression.front?_eq_none {s : Stmt} {kind : Token.Kind}
    (h : Stmt.DerivesExpression ts s) (hkind : kind ∉ Expr.firstKinds) :
    front? [kind] (ts ++ rest) = none := by
  obtain ⟨he⟩ := h
  rw [List.append_assoc]
  exact he.front?_eq_none hkind

theorem Stmt.DerivesVar.exists_cons {s : Stmt} (h : Stmt.DerivesVar ts s) :
    ∃ keyword us, ts = keyword :: us := by
  cases h
  exact ⟨_, _, rfl⟩

theorem Expr.DerivesHeader.exists_cons {kind : Token.Kind} {e : Expr}
    (h : Expr.DerivesHeader kind ts e) : ∃ keyword us, ts = keyword :: us := by
  cases h
  exact ⟨_, _, rfl⟩

theorem Stmt.DerivesClauses.exists_cons {initial : Option Stmt}
    {condition increment : Option Expr}
    (h : Stmt.DerivesClauses ts initial condition increment) :
    ∃ keyword us, ts = keyword :: us := by
  cases h
  exact ⟨_, _, rfl⟩

/-! ### Clauses that are derivable -/

theorem Stmt.DerivesExpression.plain_readExpression {s : Stmt}
    (h : Stmt.DerivesExpression ts s) (rest : List Token) :
    plain Stmt.readExpression (ts ++ rest) = .ok (s, rest) := by
  obtain ⟨he, hsemicolon⟩ := h
  rw [Stmt.plain_readExpression, List.append_assoc, List.singleton_append,
    he.plain_read (.inl hsemicolon), andThen_ok, expect_cons hsemicolon, andThen_ok]

/-- Where an expression statement is ahead, it is read as one. -/
theorem Stmt.DerivesExpression.plain_read {s : Stmt} (h : Stmt.DerivesExpression ts s) :
    plain Stmt.read (ts ++ rest) = .ok (s, rest) := by
  have hread := h.plain_readExpression rest
  obtain ⟨he, hsemicolon⟩ := h
  obtain ⟨t, us, rfl, ht⟩ := he.exists_cons
  simp only [List.cons_append] at hread ⊢
  rw [Stmt.plain_read]
  -- no kind that an expression begins with is one of another statement
  simp only [Expr.firstKinds, List.mem_cons, List.not_mem_nil, or_false] at ht
  rcases ht with h | h | h | h | h | h | h | h | h <;> simpa only [h] using hread

theorem Stmt.DerivesVar.plain_readVar {keyword : Token} {s : Stmt}
    (h : Stmt.DerivesVar (keyword :: ts) s) (rest : List Token) :
    keyword.kind = .var ∧ plain Stmt.readVar (ts ++ rest) = .ok (s, rest) := by
  cases h with
  | intro hkeyword hname hequals he hsemicolon =>
    refine ⟨hkeyword, ?_⟩
    rw [Stmt.plain_readVar, List.cons_append, expect_cons hname, andThen_ok,
      List.cons_append, expect_cons hequals, andThen_ok, List.append_assoc,
      List.singleton_append, he.plain_read (.inl hsemicolon), andThen_ok,
      expect_cons hsemicolon, andThen_ok]

theorem Expr.DerivesHeader.plain_readCondition {kind : Token.Kind} {before after : String}
    {keyword : Token} {e : Expr} (h : Expr.DerivesHeader kind (keyword :: ts) e) :
    keyword.kind = kind ∧
      plain (Expr.readCondition before after) (ts ++ rest) = .ok (e, rest) := by
  cases h with
  | intro hkeyword hopening he hclosing =>
    refine ⟨hkeyword, ?_⟩
    rw [Expr.plain_readCondition, List.cons_append, expect_cons hopening, andThen_ok,
      List.append_assoc, List.singleton_append, he.plain_read (.inr hclosing), andThen_ok,
      expect_cons hclosing, andThen_ok]

theorem Expr.DerivesOptional.plain_readUnless {kind : Token.Kind} {e : Option Expr}
    {t : Token} (h : Expr.DerivesOptional ts e) (ht : t.kind = kind)
    (hkind : kind = .semicolon ∨ kind = .rightParen) :
    plain (Expr.readUnless kind) (ts ++ t :: rest) = .ok (e, t :: rest) := by
  rw [Expr.plain_readUnless]
  cases h with
  | absent => simp [front?_cons, ht]
  | present he =>
    -- what is read up to is not taken for the expression itself
    have hfirst : kind ∉ Expr.firstKinds := by
      rcases hkind with rfl | rfl <;> simp [Expr.firstKinds]
    subst ht
    rw [he.front?_eq_none hfirst]
    simp only
    rw [he.plain_read hkind, andThen_ok]

theorem Stmt.DerivesInitial.plain_readInitial {s : Option Stmt}
    (h : Stmt.DerivesInitial ts s) :
    plain Stmt.readInitial (ts ++ rest) = .ok (s, rest) := by
  rw [Stmt.plain_readInitial]
  cases h with
  | absent h => simp [front?_cons, h]
  | var h =>
    obtain ⟨keyword, us, rfl⟩ := h.exists_cons
    obtain ⟨hkeyword, hread⟩ := h.plain_readVar rest
    -- `var` is no semicolon, so the second case of the reader is taken
    simp [front?_cons, hkeyword, hread]
  | expression h =>
    rw [h.front?_eq_none (by decide), h.front?_eq_none (by decide)]
    simp [h.plain_readExpression]

theorem Stmt.DerivesClauses.plain_read {keyword : Token} {initial : Option Stmt}
    {condition increment : Option Expr}
    (h : Stmt.DerivesClauses (keyword :: ts) initial condition increment) :
    keyword.kind = .for ∧ plain ForClauses.read (ts ++ rest) =
      .ok (⟨initial, condition, increment⟩, rest) := by
  cases h with
  | intro hkeyword hopening hinitial hcondition hsemicolon hincrement hclosing =>
    refine ⟨hkeyword, ?_⟩
    simp only [List.cons_append, List.append_assoc, List.nil_append]
    rw [ForClauses.plain_read, expect_cons hopening, andThen_ok,
      hinitial.plain_readInitial, andThen_ok,
      hcondition.plain_readUnless hsemicolon (.inl rfl), andThen_ok,
      expect_cons hsemicolon, andThen_ok,
      hincrement.plain_readUnless hclosing (.inr rfl), andThen_ok,
      expect_cons hclosing, andThen_ok]

/-! ### What is derivable is read -/

/-- What a statement begins with is no `else`. -/
theorem Stmt.DerivesAll.front?_else {rule : ElseRule} {ss : List Stmt}
    (h : Stmt.DerivesAll rule ts ss) (hrest : front? [.else] rest = none) :
    front? [.else] (ts ++ rest) = none := by
  cases h with
  | nil => exact hrest
  | cons h _ =>
    obtain ⟨t, us, rfl, ht⟩ := h.exists_cons
    simp only [List.cons_append]
    rw [front?_cons, if_neg]
    intro hmem
    rw [List.mem_singleton] at hmem
    rw [hmem] at ht
    exact absurd ht (by decide)

theorem Stmt.DerivesAll.front?_else_nil {rule : ElseRule} {ss : List Stmt}
    (h : Stmt.DerivesAll rule ts ss) : front? [.else] ts = none := by
  have hfront := h.front?_else (front?_nil [.else])
  rwa [List.append_nil] at hfront

mutual

theorem Stmt.Derives.plain_read {canTake : Bool} {ts : List Token} {s : Stmt}
    (rest : List Token) : Stmt.Derives .nearest canTake ts s →
      (canTake = true → front? [.else] rest = none) →
        plain Stmt.read (ts ++ rest) = .ok (s, rest)
  | .print hkeyword he hsemicolon, hrest => by
    rw [List.cons_append, Stmt.plain_read, hkeyword, List.append_assoc, List.singleton_append]
    simp only
    rw [Stmt.plain_readPrint, he.plain_read (.inl hsemicolon), andThen_ok,
      expect_cons hsemicolon, andThen_ok]
  | .var h, hrest => by
    obtain ⟨keyword, us, rfl⟩ := h.exists_cons
    obtain ⟨hkeyword, hread⟩ := h.plain_readVar rest
    rw [List.cons_append, Stmt.plain_read, hkeyword]
    exact hread
  | .expression h, _ => h.plain_read
  | .block hopening h hclosing, hrest => by
    rw [List.cons_append, Stmt.plain_read, hopening, List.append_assoc, List.singleton_append]
    simp only
    rw [h.plain_readBlock hclosing, andThen_ok]
  | .ifThen hheader hconsequent, hrest => by
    obtain ⟨keyword, us, rfl⟩ := hheader.exists_cons
    -- an `else` behind would be read as the alternative of this statement
    have hfront := hrest rfl
    obtain ⟨hkeyword, hread⟩ := hheader.plain_readCondition
    rw [List.append_assoc, List.cons_append, Stmt.plain_read, hkeyword]
    simp only
    rw [Stmt.plain_readIf, hread, andThen_ok,
      hconsequent.plain_read _ (fun _ => hfront), andThen_ok, hfront]
  | .ifElse hheader hconsequent hclosed hother halternative, hrest => by
    obtain ⟨keyword, us, rfl⟩ := hheader.exists_cons
    obtain ⟨hkeyword, hread⟩ := hheader.plain_readCondition
    simp only [List.append_assoc, List.cons_append]
    rw [Stmt.plain_read, hkeyword]
    simp only
    -- the consequent stops in front of the `else`, since none of its own `if`s is open
    rw [Stmt.plain_readIf, hread, andThen_ok,
      hconsequent.plain_read _ (fun h => by rw [hclosed] at h; cases h), andThen_ok]
    simp [front?_cons, hother, halternative.plain_read rest hrest]
  | .while hheader hbody, hrest => by
    obtain ⟨keyword, us, rfl⟩ := hheader.exists_cons
    obtain ⟨hkeyword, hread⟩ := hheader.plain_readCondition
    rw [List.append_assoc, List.cons_append, Stmt.plain_read, hkeyword]
    simp only
    rw [Stmt.plain_readWhile, hread, andThen_ok, hbody.plain_read rest hrest, andThen_ok]
  | .for hclauses hbody, hrest => by
    obtain ⟨keyword, us, rfl⟩ := hclauses.exists_cons
    obtain ⟨hkeyword, hread⟩ := hclauses.plain_read
    rw [List.append_assoc, List.cons_append, Stmt.plain_read, hkeyword]
    simp only
    rw [Stmt.plain_readFor, hread, andThen_ok, hbody.plain_read rest hrest, andThen_ok]
    rfl

theorem Stmt.DerivesAll.plain_readBlock {ts rest : List Token} {body : List Stmt}
    {closing : Token} : Stmt.DerivesAll .nearest ts body → closing.kind = .rightBrace →
      plain Stmt.readBlock (ts ++ closing :: rest) = .ok (body, rest)
  | .nil, hclosing => by
    rw [List.nil_append, Stmt.plain_readBlock]
    simp [hclosing]
  | .cons h hothers, hclosing => by
    -- behind a statement of a block stands another one or the brace, and neither of
    -- them is an `else`
    have hread := h.plain_read (_ ++ closing :: rest)
      fun _ => hothers.front?_else (by simp [front?_cons, hclosing])
    obtain ⟨t, us, rfl, ht⟩ := h.exists_cons
    have hkind : t.kind ≠ .rightBrace := by
      intro hkind
      rw [hkind] at ht
      exact absurd ht (by decide)
    simp only [List.append_assoc, List.cons_append] at hread ⊢
    rw [Stmt.plain_readBlock]
    simp only [hkind, if_false]
    rw [hread, andThen_ok, hothers.plain_readBlock hclosing, andThen_ok]

end

end LoxLang
