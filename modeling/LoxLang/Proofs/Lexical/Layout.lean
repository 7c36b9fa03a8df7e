import LoxLang.Proofs.Lexical.Joining

/-!
# `LoxLang.Proofs.Lexical.Layout`: what stands between lexemes

A lexeme that has a blank behind it is cut there: no piece goes over a
blank but a string and a comment, and a lexeme begins neither of them
without being the whole of it. So the lexemes of a text may be set out
anew, with blanks and comments between them, and are cut again. The
tokens differ from those of the text in their places only.

* `Laid`: a text that is made of lexemes with separators between them;
* `Cuts.layout`: blanks and comments are cut without a token;
* `Cuts.laid`: a text that is made of lexemes is cut into them;
* `scan_laid`: its tokens.
-/

set_option autoImplicit false

namespace LoxLang

variable {line : Int} {before text rest : List Char} {tokens ts : List Token}
  {kind : Token.Kind} {payload : Value} {c : Char}

/-! ### Layout -/

/-- Blanks and comments, each comment with the newline behind it. -/
inductive IsLayout : List Char → Prop where
  | nil : IsLayout []
  | blank {c : Char} {rest : List Char} (hc : c ∈ Piece.blanks) (h : IsLayout rest) :
      IsLayout (c :: rest)
  | comment {body rest : List Char} (hbody : '\n' ∉ body) (h : IsLayout rest) :
      IsLayout ('/' :: '/' :: (body ++ '\n' :: rest))

/-- Layout that begins with a blank. -/
inductive IsSeparator : List Char → Prop where
  | intro {c : Char} {rest : List Char} (hc : c ∈ Piece.blanks) (h : IsLayout rest) :
      IsSeparator (c :: rest)

/-- A text is made of lexemes in order, with a separator between any
two. -/
inductive Laid : List String → List Char → Prop where
  | nil : Laid [] []
  | single (lexeme : String) : Laid [lexeme] lexeme.toList
  | cons {separator text : List Char} (lexeme : String) {next : String} {lexemes : List String}
      (hseparator : IsSeparator separator) (h : Laid (next :: lexemes) text) :
      Laid (lexeme :: next :: lexemes) (lexeme.toList ++ (separator ++ text))

/-! ### Pieces in front of layout -/

/-- A comment is no lexeme. -/
theorem Lexeme.Denotes.not_comment {body : List Char} :
    ¬ Lexeme.Denotes kind payload ('/' :: '/' :: body) := by
  intro h
  rcases h.head_cases with hoperator | ⟨hquote, -⟩ | hother
  · have hall : ∀ o ∈ operators, o.1.take 2 ≠ ['/', '/'] := by decide
    exact hall _ hoperator rfl
  · exact absurd hquote (by decide)
  · exact absurd hother (by decide)

/-- A lexeme with a blank behind it is a longest piece. -/
theorem Lexeme.Denotes.longest_blank (h : Lexeme.Denotes kind payload text)
    (hc : c ∈ Piece.blanks) (rest : List Char) : Piece.Longest text (c :: rest) := by
  refine (IsPiece.lexeme h).longest_end.append_of_stop (fun behind hpiece => ?_) rest
  -- what goes over the blank is a comment, and then the lexeme begins as one
  obtain ⟨body, hcomment, -⟩ :=
    (IsPiece.lexeme h).comment_of_append hpiece hc List.mem_cons_self
  obtain ⟨d, tail, rfl, -⟩ := (IsPiece.lexeme h).exists_cons
  obtain ⟨rfl, htail⟩ := List.cons_eq_cons.mp hcomment
  cases tail with
  | nil =>
    obtain ⟨rfl, -⟩ := List.cons_eq_cons.mp htail
    exact absurd hc (by decide)
  | cons e tail =>
    obtain ⟨rfl, -⟩ := List.cons_eq_cons.mp htail
    exact absurd h not_comment

/-! ### Cutting layout -/

/-- Layout is cut without a token. -/
theorem Cuts.layout {layout : List Char} (hlayout : IsLayout layout)
    (h : Cuts line before tokens (layout ++ rest)) :
    Cuts line (before ++ layout) tokens rest := by
  induction hlayout generalizing before with
  | nil => rwa [List.append_nil]
  | @blank c layout hc _ ih =>
    have hblank : Cuts line (before ++ [c]) tokens (layout ++ rest) :=
      .gap h (.blank hc) (Piece.longest_blank hc _)
    rw [← List.singleton_append, ← List.append_assoc]
    exact ih hblank
  | @comment body layout hbody _ ih =>
    have hgap : Piece.IsGap ('/' :: '/' :: body) := .comment hbody
    have hsplit : '/' :: '/' :: (body ++ '\n' :: layout) =
        ('/' :: '/' :: body) ++ (['\n'] ++ layout) := by simp
    rw [hsplit, List.append_assoc, List.append_assoc] at h
    have hcomment := h.gap hgap ((IsPiece.gap hgap).longest_end.append_newline _)
    have hnewline := hcomment.gap (.blank (by decide)) (Piece.longest_blank (by decide) _)
    rw [hsplit, ← List.append_assoc, ← List.append_assoc]
    exact ih hnewline

/-! ### Tokens without their places -/

/-- A token without its place. -/
def Token.bare (t : Token) : Token :=
  { t with line := 0, column := none }

/-- A token is that of a lexeme. -/
def Token.IsDenoted (t : Token) : Prop :=
  Lexeme.Denotes t.kind t.payload t.lexeme.toList

theorem Lexeme.IsCut.isDenoted {source : List Char} {t : Token}
    (h : Lexeme.IsCut line source before t) : t.IsDenoted := by
  obtain ⟨-, -, hlexeme, -⟩ := h
  simpa [Token.IsDenoted, Lexeme.token] using hlexeme

/-- The token of a lexeme has nothing else from the text around it than
its place. -/
theorem Lexeme.bare_token (line : Int) (before : List Char) (t : Token) :
    (Lexeme.token line before t.lexeme.toList t.kind t.payload).bare = t.bare := by
  simp [Lexeme.token, Token.bare]

/-- A text that is made of lexemes is cut into them. -/
theorem Cuts.laid {lexemes : List String} (h : Cuts line before tokens text)
    (hlaid : Laid lexemes text) (hlexemes : ts.map Token.lexeme = lexemes)
    (hdenoted : ∀ t ∈ ts, t.IsDenoted) :
    ∃ tokens', Cuts line (before ++ text) (tokens ++ tokens') [] ∧
      tokens'.map Token.bare = ts.map Token.bare := by
  induction hlaid generalizing before tokens ts with
  | nil =>
    obtain rfl := List.map_eq_nil_iff.mp hlexemes
    exact ⟨[], by simpa using h, rfl⟩
  | single lexeme =>
    obtain ⟨t, rfl, rfl⟩ := List.map_eq_singleton_iff.mp hlexemes
    have ht := hdenoted t List.mem_cons_self
    rw [← List.append_nil t.lexeme.toList] at h
    exact ⟨_, h.lexeme ht (IsPiece.lexeme ht).longest_end,
      congrArg (fun u => [u]) (Lexeme.bare_token line before t)⟩
  | cons lexeme hseparator _ ih =>
    obtain ⟨t, ts, rfl, rfl, hrest⟩ := List.map_eq_cons_iff.mp hlexemes
    obtain ⟨ht, hts⟩ := List.forall_mem_cons.mp hdenoted
    obtain ⟨hc, hlayout⟩ := hseparator
    -- a blank ends the lexeme, whatever it is, and gaps go up to the next one
    have hlexeme := h.lexeme ht (ht.longest_blank hc _)
    obtain ⟨tokens', hcuts, hbare⟩ := ih (hlexeme.layout (.blank hc hlayout)) hrest hts
    refine ⟨_ :: tokens', ?_, congrArg₂ List.cons (Lexeme.bare_token line before t) hbare⟩
    rw [← List.append_assoc, ← List.append_assoc, List.append_cons tokens]
    exact hcuts

/-- Whatever separators stand between the lexemes of a text, its tokens
are the same but for their places. -/
theorem scan_laid {source new : String} (hscan : scan source line = .ok tokens)
    (hlaid : Laid ((bodyOf tokens).map Token.lexeme) new.toList) (line' : Int) :
    ∃ tokens', scan new line' = .ok tokens' ∧ tokens'.map Token.bare = tokens.map Token.bare := by
  obtain ⟨lexemes, hcuts, rfl⟩ := ((scan_iff_cuts source line).1 _).mp hscan
  rw [bodyOf_of_cuts hcuts] at hlaid
  have hdenoted : ∀ t ∈ lexemes, t.IsDenoted := fun t ht => by
    obtain ⟨_, hcut⟩ := hcuts.exists_isCut ht
    exact hcut.isDenoted
  have hstart : Cuts line' [] [] new.toList := .start
  obtain ⟨lexemes', hcuts', hbare⟩ := hstart.laid hlaid rfl hdenoted
  rw [List.nil_append, List.nil_append] at hcuts'
  refine ⟨_, scan_of_cuts hcuts', ?_⟩
  rw [List.map_append, List.map_append, hbare]
  rfl

end LoxLang
