import LoxLang.Proofs.Grammar.Programs
import Mathlib.Data.List.TakeWhile

/-!
# `LoxLang.Proofs.Grammar.TreeTokens`: the tokens that a tree keeps

A tree keeps the tokens of its operators, of its names and of the word
`print`. They are tokens that it is derived from, and no string is
among them. The trees of two programs are those of the program that
they are one behind the other.

* `Stmt.DerivesAll.tokens_subset`: where the tokens of a tree come from;
* `Stmt.mapTokens`: a tree with its tokens changed;
* `program_append`: two programs one behind the other.
-/

set_option autoImplicit false

namespace LoxLang

/-! ### Tokens of trees -/

/-- The tokens that an expression keeps. -/
def Expr.tokens : Expr → List Token
  | .literal _ | .alien _ => []
  | .grouping e => e.tokens
  | .unary operator e => operator :: e.tokens
  | .binary left operator right | .logical left operator right =>
    left.tokens ++ operator :: right.tokens
  | .variable name => [name]
  | .assign name e => name :: e.tokens

mutual

/-- The tokens that a statement keeps. -/
def Stmt.tokens : Stmt → List Token
  | .expression e => e.tokens
  | .print keyword e => keyword :: e.tokens
  | .var name e => name :: e.tokens
  | .block body => Stmt.allTokens body
  | .ifThen condition consequent => condition.tokens ++ consequent.tokens
  | .ifElse condition consequent alternative =>
    condition.tokens ++ (consequent.tokens ++ alternative.tokens)
  | .while condition body => condition.tokens ++ body.tokens
  | .alien _ => []

/-- The tokens that some statements keep. -/
def Stmt.allTokens : List Stmt → List Token
  | [] => []
  | s :: rest => s.tokens ++ Stmt.allTokens rest

end

@[grind =] theorem Stmt.allTokens_append (ss ss' : List Stmt) :
    Stmt.allTokens (ss ++ ss') = Stmt.allTokens ss ++ Stmt.allTokens ss' := by
  induction ss with
  | nil => rfl
  | cons s ss ih => simp [Stmt.allTokens, ih]

/-! ### Where they come from -/

/-- The tokens of a list that a tree may keep. -/
def Token.keepable (ts : List Token) : List Token :=
  ts.filter (·.kind ≠ .string)

@[grind =] theorem Token.mem_keepable {ts : List Token} {t : Token} :
    t ∈ keepable ts ↔ t ∈ ts ∧ t.kind ≠ .string := by
  simp [keepable]

/-- Each level has operators of its own, and a string is none of them. -/
theorem Expr.Level.Chain.tokens_eq {level inner : Level} {operators : List Token.Kind}
    {node : Expr → Token → Expr → Expr} (hlevel : level.Chain operators inner node)
    {left right : Expr} {operator : Token} (hoperator : operator.kind ∈ operators) :
    (node left operator right).tokens = left.tokens ++ operator :: right.tokens ∧
      operator.kind ≠ .string := by
  have hstring : Token.Kind.string ∉ operators := by cases hlevel <;> decide
  refine ⟨by cases hlevel <;> rfl, ?_⟩
  rintro hkind
  exact hstring (hkind ▸ hoperator)

theorem Expr.Derives.tokens_subset {level : Level} {ts : List Token} {e : Expr}
    (h : Expr.Derives level ts e) : e.tokens ⊆ Token.keepable ts := by
  simp only [List.subset_def, Token.mem_keepable]
  induction h with
  | chain hlevel _ hoperator _ ihleft ihright =>
    obtain ⟨htokens, hkind⟩ := hlevel.tokens_eq hoperator
    rw [htokens]
    grind
  | expression _ ih | operand _ _ ih | unary _ ih => exact ih
  | payload | true | false | nil => simp [Expr.tokens]
  | assign | prefixed | grouping | «variable» => grind [Expr.tokens]

theorem Stmt.DerivesVar.tokens_subset {ts : List Token} {s : Stmt} (h : Stmt.DerivesVar ts s) :
    s.tokens ⊆ Token.keepable ts := by
  obtain ⟨-, hname, -, h, -⟩ := h
  have he := h.tokens_subset
  grind [Stmt.tokens]

theorem Stmt.DerivesExpression.tokens_subset {ts : List Token} {s : Stmt}
    (h : Stmt.DerivesExpression ts s) : s.tokens ⊆ Token.keepable ts := by
  obtain ⟨h, -⟩ := h
  have he := h.tokens_subset
  grind [Stmt.tokens]

theorem Expr.DerivesHeader.tokens_subset {kind : Token.Kind} {ts : List Token} {e : Expr}
    (h : Expr.DerivesHeader kind ts e) : e.tokens ⊆ Token.keepable ts := by
  obtain ⟨-, -, h, -⟩ := h
  have he := h.tokens_subset
  grind

theorem Stmt.DerivesInitial.tokens_subset {ts : List Token} {initial : Option Stmt}
    (h : Stmt.DerivesInitial ts initial) :
    Stmt.allTokens initial.toList ⊆ Token.keepable ts := by
  cases h with
  | var h =>
    have hs := h.tokens_subset
    simpa [Stmt.allTokens] using hs
  | expression h =>
    have hs := h.tokens_subset
    simpa [Stmt.allTokens] using hs
  | absent => simp [Stmt.allTokens]

/-- The tokens of the loop that a `for` statement stands for. -/
theorem Stmt.DerivesClauses.tokens_subset {ts us : List Token} {initial : Option Stmt}
    {condition increment : Option Expr}
    (h : Stmt.DerivesClauses ts initial condition increment) {body : Stmt}
    (hbody : body.tokens ⊆ Token.keepable us) :
    Stmt.allTokens (initial.toList ++
      [.while (condition.getD (.literal (.bool true)))
        (.block (body :: (increment.map .expression).toList))]) ⊆
      Token.keepable (ts ++ us) := by
  obtain @⟨_, _, _, _, _, us', ws, _, _, _, -, -, hinitial, hcondition, -, hincrement, -⟩ := h
  have hinitial' := hinitial.tokens_subset
  have hcondition' : (condition.getD (.literal (.bool true))).tokens ⊆ Token.keepable us' := by
    cases hcondition with
    | absent => simp [Expr.tokens]
    | present h => exact h.tokens_subset
  have hincrement' :
      Stmt.allTokens (increment.map Stmt.expression).toList ⊆ Token.keepable ws := by
    cases hincrement with
    | absent => simp [Stmt.allTokens]
    | present h => simpa [Stmt.allTokens, Stmt.tokens] using h.tokens_subset
  grind [Stmt.tokens, Stmt.allTokens]

mutual

theorem Stmt.Derives.tokens_subset {rule : ElseRule} {canTake : Bool} {ts : List Token}
    {s : Stmt} : Stmt.Derives rule canTake ts s → s.tokens ⊆ Token.keepable ts
  | .print hkeyword h _ => by
    have he := h.tokens_subset
    grind [Stmt.tokens]
  | .var h => h.tokens_subset
  | .expression h => h.tokens_subset
  | .block _ h _ => by
    have hbody := h.tokens_subset
    grind [Stmt.tokens]
  | .ifThen hheader hconsequent => by
    have hcondition := hheader.tokens_subset
    have hconsequent' := hconsequent.tokens_subset
    grind [Stmt.tokens]
  | .ifElse hheader hconsequent _ _ halternative => by
    have hcondition := hheader.tokens_subset
    have hconsequent' := hconsequent.tokens_subset
    have halternative' := halternative.tokens_subset
    grind [Stmt.tokens]
  | .while hheader hbody => by
    have hcondition := hheader.tokens_subset
    have hbody' := hbody.tokens_subset
    grind [Stmt.tokens]
  | .for hclauses hbody => by
    rw [Stmt.tokens]
    exact hclauses.tokens_subset hbody.tokens_subset

/-- The tokens that statements keep are tokens that they are derived
from, and none of them is a string. -/
theorem Stmt.DerivesAll.tokens_subset {rule : ElseRule} {ts : List Token} {ss : List Stmt} :
    Stmt.DerivesAll rule ts ss → Stmt.allTokens ss ⊆ Token.keepable ts
  | .nil => by simp [Stmt.allTokens]
  | .cons h hrest => by
    have hs := h.tokens_subset
    have hss := hrest.tokens_subset
    grind [Stmt.allTokens]

end

/-! ### Changing tokens -/

/-- A change of tokens that the grammar does not notice. -/
structure Token.Faithful (f : Token → Token) : Prop where
  kind : ∀ t, (f t).kind = t.kind
  payload : ∀ t, (f t).payload = t.payload

/-- An expression with its tokens changed. -/
def Expr.mapTokens (f : Token → Token) : Expr → Expr
  | .literal v => .literal v
  | .grouping e => .grouping (e.mapTokens f)
  | .unary operator e => .unary (f operator) (e.mapTokens f)
  | .binary left operator right => .binary (left.mapTokens f) (f operator) (right.mapTokens f)
  | .logical left operator right => .logical (left.mapTokens f) (f operator) (right.mapTokens f)
  | .variable name => .variable (f name)
  | .assign name e => .assign (f name) (e.mapTokens f)
  | .alien what => .alien what

mutual

/-- A statement with its tokens changed. -/
def Stmt.mapTokens (f : Token → Token) : Stmt → Stmt
  | .expression e => .expression (e.mapTokens f)
  | .print keyword e => .print (f keyword) (e.mapTokens f)
  | .var name e => .var (f name) (e.mapTokens f)
  | .block body => .block (Stmt.mapAllTokens f body)
  | .ifThen condition consequent => .ifThen (condition.mapTokens f) (consequent.mapTokens f)
  | .ifElse condition consequent alternative =>
    .ifElse (condition.mapTokens f) (consequent.mapTokens f) (alternative.mapTokens f)
  | .while condition body => .while (condition.mapTokens f) (body.mapTokens f)
  | .alien what => .alien what

/-- Statements with their tokens changed. -/
def Stmt.mapAllTokens (f : Token → Token) : List Stmt → List Stmt
  | [] => []
  | s :: rest => s.mapTokens f :: Stmt.mapAllTokens f rest

end

theorem Expr.mapTokens_id (e : Expr) : e.mapTokens id = e := by
  induction e <;> simp [Expr.mapTokens, *]

theorem Expr.mapTokens_mapTokens (f g : Token → Token) (e : Expr) :
    (e.mapTokens f).mapTokens g = e.mapTokens (g ∘ f) := by
  induction e <;> simp [Expr.mapTokens, *]

mutual

theorem Stmt.mapTokens_id : (s : Stmt) → s.mapTokens id = s
  | .expression e | .print _ e | .var _ e => by simp [Stmt.mapTokens, Expr.mapTokens_id]
  | .block body => by simp [Stmt.mapTokens, Stmt.mapAllTokens_id body]
  | .ifThen condition consequent => by
    simp [Stmt.mapTokens, Expr.mapTokens_id, Stmt.mapTokens_id consequent]
  | .ifElse condition consequent alternative => by
    simp [Stmt.mapTokens, Expr.mapTokens_id, Stmt.mapTokens_id consequent,
      Stmt.mapTokens_id alternative]
  | .while condition body => by
    simp [Stmt.mapTokens, Expr.mapTokens_id, Stmt.mapTokens_id body]
  | .alien what => rfl

theorem Stmt.mapAllTokens_id : (ss : List Stmt) → Stmt.mapAllTokens id ss = ss
  | [] => rfl
  | s :: ss => by rw [Stmt.mapAllTokens, Stmt.mapTokens_id s, Stmt.mapAllTokens_id ss]

end

mutual

theorem Stmt.mapTokens_mapTokens (f g : Token → Token) :
    (s : Stmt) → (s.mapTokens f).mapTokens g = s.mapTokens (g ∘ f)
  | .expression e | .print _ e | .var _ e => by simp [Stmt.mapTokens, Expr.mapTokens_mapTokens]
  | .block body => by simp [Stmt.mapTokens, Stmt.mapAllTokens_mapAllTokens f g body]
  | .ifThen condition consequent => by
    simp [Stmt.mapTokens, Expr.mapTokens_mapTokens, Stmt.mapTokens_mapTokens f g consequent]
  | .ifElse condition consequent alternative => by
    simp [Stmt.mapTokens, Expr.mapTokens_mapTokens, Stmt.mapTokens_mapTokens f g consequent,
      Stmt.mapTokens_mapTokens f g alternative]
  | .while condition body => by
    simp [Stmt.mapTokens, Expr.mapTokens_mapTokens, Stmt.mapTokens_mapTokens f g body]
  | .alien what => rfl

theorem Stmt.mapAllTokens_mapAllTokens (f g : Token → Token) :
    (ss : List Stmt) →
      Stmt.mapAllTokens g (Stmt.mapAllTokens f ss) = Stmt.mapAllTokens (g ∘ f) ss
  | [] => rfl
  | s :: ss => by
    simp only [Stmt.mapAllTokens, Stmt.mapTokens_mapTokens f g s,
      Stmt.mapAllTokens_mapAllTokens f g ss]

end

/-! ### Programs one behind the other -/

/-- The tokens of two programs, one behind the other, are those of a
program with the statements of both: a statement ends where it ends,
whatever the next one begins with. -/
theorem Stmt.DerivesAll.append {rule : ElseRule} {ts us : List Token} {ss ss' : List Stmt} :
    Stmt.DerivesAll rule ts ss → Stmt.DerivesAll rule us ss' →
      Stmt.DerivesAll rule (ts ++ us) (ss ++ ss')
  | .nil, h' => h'
  | .cons h hrest, h' => by
    rw [List.append_assoc]
    exact .cons h (hrest.append h')

/-! ### Token lists with an end -/

theorem kind_of_mem_bodyOf {tokens : List Token} {t : Token} (h : t ∈ bodyOf tokens) :
    t.kind ≠ .eof := by
  have hkind := List.mem_takeWhile_imp h
  exact of_decide_eq_true hkind

/-- Two programs, the first without its end, are a program with the
statements of both. -/
theorem program_append {tokens tokens' : List Token} {ss ss' : List Stmt}
    (h : program tokens = .ok ss) (h' : program tokens' = .ok ss') :
    program (bodyOf tokens ++ tokens') = .ok (ss ++ ss') := by
  have hbody : bodyOf (bodyOf tokens ++ tokens') = bodyOf tokens ++ bodyOf tokens' :=
    bodyOf_append_of_forall (fun t ht => kind_of_mem_bodyOf ht) tokens'
  rw [program_eq_ok_iff, Stmt.readAll_eq_ok_iff] at h h' ⊢
  rw [hbody]
  exact h.append h'

end LoxLang
