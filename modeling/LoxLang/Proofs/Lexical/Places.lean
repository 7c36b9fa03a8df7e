import LoxLang.Proofs.Text.Lines

/-!
# `LoxLang.Proofs.Lexical.Places`: where tokens stand

A scan goes over its text once, so each token that it finds is that of
a lexeme which stands behind some part of the text (`Lexeme.IsCut`).
Only a string can go over the end of a line. Any other lexeme is a part
of one line, in which it begins at the column of its token.

* `isCut_of_scan`: the tokens of a text stand in it;
* `Lexeme.IsCut.exists_line`: the line that a token is on has its lexeme
  at its column;
* `Blocked.exists_line`: the same of what a text is refused for.
-/

set_option autoImplicit false

namespace LoxLang

variable {line : Int} {before text rest source : List Char} {tokens : List Token}
  {kind : Token.Kind} {payload : Value} {t : Token}

/-! ### Lexemes -/

theorem Lexeme.Denotes.ne_nil (h : Lexeme.Denotes kind payload text) : text ≠ [] :=
  (IsPiece.lexeme h).ne_nil

/-- The end of a text is no lexeme. -/
theorem Lexeme.Denotes.kind_ne_eof (h : Lexeme.Denotes kind payload text) :
    kind ≠ .eof := by
  cases h with
  | operator h =>
    have hall : ∀ o ∈ operators, o.2 ≠ .eof := by decide
    exact hall _ h
  | keyword _ h =>
    have hall : ∀ w ∈ reservedWords, w.2 ≠ .eof := by decide
    exact hall _ h
  | string | whole | fraction | identifier => decide

/-- A lexeme is an operator or a string, or it begins as a number or as a
word. -/
theorem Lexeme.Denotes.head_cases {c : Char} {tail : List Char}
    (h : Lexeme.Denotes kind payload (c :: tail)) :
    (c :: tail, kind) ∈ operators ∨ (c = '"' ∧ ∃ body, tail = body ++ ['"'] ∧ '"' ∉ body) ∨
      c.isDigit ∨ c.isAlpha ∨ c = '_' := by
  generalize htext : c :: tail = text at h
  cases h with
  | operator h => exact .inl h
  | string h =>
    obtain ⟨rfl, rfl⟩ := List.cons_eq_cons.mp htext
    exact .inr (.inl ⟨rfl, _, rfl, h⟩)
  | whole h =>
    exact .inr (.inr (.inl (h.2 c (by rw [← htext]; exact List.mem_cons_self))))
  | @fraction digits _ h =>
    obtain ⟨d, ds, rfl⟩ := List.exists_cons_of_ne_nil h.1
    obtain ⟨rfl, -⟩ := List.cons_eq_cons.mp htext
    exact .inr (.inr (.inl (h.2 c List.mem_cons_self)))
  | keyword h | identifier h =>
    obtain ⟨hhead, -⟩ := h
    obtain ⟨rfl, -⟩ := List.cons_eq_cons.mp htext
    exact .inr (.inr (.inr hhead))

/-- The characters that are gaps by themselves. -/
abbrev Piece.blanks : List Char :=
  [' ', '\t', '\r', '\n']

section Blanks

variable {c : Char}

theorem Piece.forall_blanks {p : Char → Prop} (h : p ' ' ∧ p '\t' ∧ p '\r' ∧ p '\n') :
    ∀ c ∈ Piece.blanks, p c := by
  simpa [Piece.blanks] using h

theorem Lexeme.IsDigits.blank_notMem {digits : List Char} (h : IsDigits digits)
    (hc : c ∈ Piece.blanks) : c ∉ digits := by
  have hall : ∀ b ∈ Piece.blanks, ¬ b.isDigit := Piece.forall_blanks (by decide)
  exact fun hmem => hall c hc (h.2 c hmem)

theorem Lexeme.IsWord.blank_notMem {word : List Char} (h : IsWord word)
    (hc : c ∈ Piece.blanks) : c ∉ word := by
  have hall : ∀ b ∈ Piece.blanks, ¬ ((b.isAlpha ∨ b = '_') ∨ b.isDigit) :=
    Piece.forall_blanks (by decide)
  obtain ⟨hhead, htail⟩ := h
  rintro (_ | ⟨_, hmem⟩)
  · exact hall c hc (.inl hhead)
  · exact hall c hc (htail c hmem)

/-- Only a string has a blank in it. -/
theorem Lexeme.Denotes.string_of_blank (h : Lexeme.Denotes kind payload text)
    (hc : c ∈ Piece.blanks) (hmem : c ∈ text) :
    kind = .string ∧ ∃ body, text = '"' :: (body ++ ['"']) ∧ c ∈ body := by
  cases h with
  | operator h =>
    have hall : ∀ b ∈ Piece.blanks, ∀ o ∈ operators, b ∉ o.1 := Piece.forall_blanks (by decide)
    exact absurd hmem (hall c hc _ h)
  | string =>
    have hquote : '"' ∉ Piece.blanks := by decide
    have hne : c ≠ '"' := ne_of_mem_of_not_mem hc hquote
    exact ⟨rfl, _, rfl, by simpa [hne] using hmem⟩
  | whole h => exact absurd hmem (h.blank_notMem hc)
  | fraction h hplaces =>
    have hdot : '.' ∉ Piece.blanks := by decide
    rcases List.mem_append.mp hmem with hmem | _ | ⟨_, hmem⟩
    · exact absurd hmem (h.blank_notMem hc)
    · exact absurd hc hdot
    · exact absurd hmem (hplaces.blank_notMem hc)
  | keyword h | identifier h => exact absurd hmem (h.blank_notMem hc)

end Blanks

/-- Only a string goes over the end of a line. -/
theorem Lexeme.Denotes.string_of_newline (h : Lexeme.Denotes kind payload text)
    (hnewline : '\n' ∈ text) :
    kind = .string ∧ ∃ body, text = '"' :: (body ++ ['"']) ∧ '\n' ∈ body :=
  h.string_of_blank (by decide) hnewline

/-! ### Tokens in their text -/

/-- A token is that of a lexeme that a text is cut into, which stands
behind the given part of it. -/
inductive Lexeme.IsCut (line : Int) (source before : List Char) : Token → Prop where
  | intro {text rest : List Char} {tokens : List Token} {kind : Token.Kind} {payload : Value}
      (hsource : source = before ++ (text ++ rest)) (hcuts : Cuts line before tokens (text ++ rest))
      (hlexeme : Lexeme.Denotes kind payload text) (hlongest : Piece.Longest text rest) :
      IsCut line source before (Lexeme.token line before text kind payload)

/-- The tokens of what has been cut stand in the text. -/
theorem Cuts.exists_isCut (h : Cuts line before tokens rest) (ht : t ∈ tokens) :
    ∃ before', Lexeme.IsCut line (before ++ rest) before' t := by
  induction h with
  | start => cases ht
  | gap _ _ _ ih =>
    rw [List.append_assoc]
    exact ih ht
  | lexeme h hlexeme hlongest ih =>
    rw [List.append_assoc]
    rcases List.mem_append.mp ht with ht | ht
    · exact ih ht
    · rw [List.mem_singleton.mp ht]
      exact ⟨_, .intro rfl h hlexeme hlongest⟩

/-- A token of a text stands in it, or is that of its end. -/
theorem isCut_of_scan {source : String} (h : scan source line = .ok tokens) (ht : t ∈ tokens) :
    (∃ before, Lexeme.IsCut line source.toList before t) ∨
      t = Lexeme.endToken line source.toList := by
  obtain ⟨lexemes, hcuts, rfl⟩ := ((scan_iff_cuts source line).1 tokens).mp h
  rcases List.mem_append.mp ht with ht | ht
  · obtain ⟨before, hcut⟩ := hcuts.exists_isCut ht
    rw [List.append_nil] at hcut
    exact .inl ⟨before, hcut⟩
  · exact .inr (List.mem_singleton.mp ht)

namespace Lexeme.IsCut

theorem kind_ne_eof (h : IsCut line source before t) : t.kind ≠ .eof := by
  obtain ⟨-, -, hlexeme, -⟩ := h
  exact hlexeme.kind_ne_eof

theorem lexeme_ne_empty (h : IsCut line source before t) : t.lexeme ≠ "" := by
  obtain ⟨-, -, hlexeme, -⟩ := h
  exact fun hempty => hlexeme.ne_nil (by simpa [Lexeme.token] using hempty)

/-- A token that goes over the end of a line is a string. -/
theorem string_of_newline (h : IsCut line source before t) (hnewline : '\n' ∈ t.lexeme.toList) :
    t.kind = .string ∧ ∃ body, t.lexeme.toList = '"' :: (body ++ ['"']) ∧ '\n' ∈ body := by
  obtain ⟨-, -, hlexeme, -⟩ := h
  simp only [Lexeme.token, String.toList_ofList] at hnewline ⊢
  exact hlexeme.string_of_newline hnewline

/-- A token is on the line where its lexeme ends. -/
theorem line_eq (h : IsCut line source before t) :
    t.line = line + (before ++ t.lexeme.toList).count '\n' := by
  obtain ⟨-⟩ := h
  simp [Lexeme.token]

/-- A token has the column where its lexeme begins, unless that is in an
earlier line. -/
theorem column_eq (h : IsCut line source before t) :
    t.column = if '\n' ∈ t.lexeme.toList then none else some (Text.endColumn before : Int) := by
  obtain ⟨-⟩ := h
  simp [Lexeme.token]

/-- The lexeme of a token stands behind the part of the text. -/
theorem exists_eq (h : IsCut line source before t) :
    ∃ rest, source = before ++ (t.lexeme.toList ++ rest) := by
  obtain ⟨hsource, -⟩ := h
  exact ⟨_, by simpa [Lexeme.token] using hsource⟩

/-- The line that a token is on has its lexeme at its column. -/
theorem exists_line (h : IsCut line source before t) (hnewline : '\n' ∉ t.lexeme.toList) :
    ∃ l, (Text.lines source)[before.count '\n']? = some l ∧
      t.lexeme.toList <+: l.drop (Text.endColumn before) := by
  obtain ⟨rest, rfl⟩ := h.exists_eq
  exact Text.exists_line_of_snippet before hnewline rest

end Lexeme.IsCut

/-! ### Refused texts -/

/-- What a text is refused for is at the place where no piece can be
cut. -/
theorem Blocked.line_eq {error : Error} (h : Blocked line before rest error) :
    error.line = some (line + before.count '\n') := by
  cases h <;> rfl

theorem Blocked.column_eq {error : Error} (h : Blocked line before rest error) :
    error.column = some (Text.endColumn before : Int) := by
  cases h <;> rfl

/-- What a refusal shows of the text is what stands at the place, all on
one line. -/
theorem Blocked.snippet {error : Error} (h : Blocked line before rest error) :
    error.snippet ≠ "" ∧ '\n' ∉ error.snippet.toList ∧ error.snippet.toList <+: rest := by
  cases h with
  | @openString behind =>
    have hnewline : '\n' ∉ Text.firstLine ('"' :: behind) := Text.newline_not_mem_firstLine _
    simp only [Error.snippet, List.headD_cons, String.toList_ofList]
    exact ⟨by simp, hnewline, List.takeWhile_prefix _⟩
  | @stray c behind hc =>
    have hne : '\n' ≠ c := by
      rintro rfl
      exact hc [] (.gap (.blank (by decide)))
    simp [Error.snippet, hne]

/-- The line that a refusal is about has what it shows at its column. -/
theorem Blocked.exists_line {error : Error} (h : Blocked line before rest error) :
    ∃ l, (Text.lines (before ++ rest))[before.count '\n']? = some l ∧
      error.snippet.toList <+: l.drop (Text.endColumn before) := by
  obtain ⟨-, hnewline, behind, rfl⟩ := h.snippet
  exact Text.exists_line_of_snippet before hnewline behind

end LoxLang
